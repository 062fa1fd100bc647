/-
Module: Experimaestro.Configuration.Generation
Layer: Configuration
Purpose: `Value::configure`: generation of missing arguments, validation, sealing. `generate` is called on
  a value inside a root, the value at the bottom of the generator stack; `within` is the root around the
  value in its present state, from which `PathGenerator` computes the identifier in the middle of
  generation. An exception leaves the value as far as it has been generated, and the paths created so
  far are recorded.
Imports: Experimaestro.Configuration.Digest
Trusted boundary: human-reviewed model of src/src/xpm.cpp (generate, _generate, validate, seal,
  configure, PathGenerator) and Path
Main exports: Workspace, pathGenerator, missingValue, fill, generate, validate, sealValue, configure
Open obligations: none
-/
import Experimaestro.Configuration.Digest

namespace Experimaestro.Configuration

/-! ### Paths -/

/-- `Path(parent, relative)`, of a local path. -/
def joinPath (parent : Str) (relative : List Str) : Str :=
  relative.foldl (fun s piece => s ++ str "/" ++ piece) (if parent = str "/" then [] else parent)

/-- What the generation reads of a `Workspace`: the directory `_path`; and how digests are printed. -/
structure Workspace where
  path : Str
  hex : Symbol → Str

/-- A workspace that prints a digest by its weight. -/
def weighing : Workspace where
  path := str "/w"
  hex digest := List.replicate digest.weight 48

/-- `Workspace::jobsdir`. -/
def Workspace.jobsdir (ws : Workspace) : Str := joinPath ws.path [str "jobs"]

section

variable {Ty Job : Type} (types : Types Ty Job) (ws : Workspace)

/-- The directory of a value: the jobs directory, the task identifier if there is one, the identifier. -/
def directory (root : Value Ty Job) : Str :=
  let p := ws.jobsdir
  let p := match root.task with
    | some identifier => joinPath p [identifier]
    | none => p
  joinPath p [ws.hex (root.uniqueIdentifier types)]

/-- `PathGenerator::generate`, `root` being the value at the bottom of the stack. -/
def pathGenerator (root : Value Ty Job) (name : Str) : Except Error Str :=
  if root.isMap then
    .ok (if name = [] then directory types ws root else joinPath (directory types ws root) [name])
  else .error (.argumentError (str "Cannot cast to Map"))

/-! ### Generation -/

/-- A value after generation, as far as it went, with the paths created and the exception if any. -/
structure Generated (α : Type) where
  result : α
  paths : List Str
  error : Option Error

/-- `hasKey`. -/
def Value.hasKey (key : Str) : Value Ty Job → Bool
  | .map _ _ _ _ children => (lookup key children).isSome
  | _ => false

/-- What `MapValue::_generate` stores under a missing argument, with the path if one is created. -/
def missingValue (root : Value Ty Job) (a : Argument Ty Job) :
    Except Error (Option (Value Ty Job × List Str)) :=
  match a.generator with
  | some name =>
      (pathGenerator types ws root name).map fun path => some (.scalar {} (.path path), [path])
  | none =>
      match a.defaultValue with
      | some d =>
          .ok (some (d.withFlags fun flags => { flags with isDefault := true, ignore := a.ignored }, []))
      | none =>
          match a.constant with
          | some c =>
              .ok (some (c.withFlags fun flags => { flags with isDefault := false, ignore := false }, []))
          | none =>
              if a.required then .ok none else .ok (some (.scalar { isDefault := true } .none, []))

/-- Nothing is stored under an argument that is missing. -/
def Argument.idle (a : Argument Ty Job) : Bool :=
  a.required && a.generator.isNone && a.value.isNone

/-- The cases of `missingValue`. -/
inductive Supplies (root : Value Ty Job) (a : Argument Ty Job) : Option (Value Ty Job × List Str) → Prop
  | nothing (idle : a.idle = true) : Supplies root a none
  | path (name path : Str) (generator : a.generator = some name)
      (made : pathGenerator types ws root name = .ok path) :
      Supplies root a (some (.scalar {} (.path path), [path]))
  | default (d : Value Ty Job) (generator : a.generator = none) (declared : a.defaultValue = some d) :
      Supplies root a
        (some (d.withFlags fun flags => { flags with isDefault := true, ignore := a.ignored }, []))
  | constant (c : Value Ty Job) (generator : a.generator = none) (declared : a.constant = some c) :
      Supplies root a
        (some (c.withFlags fun flags => { flags with isDefault := false, ignore := false }, []))
  | null (generator : a.generator = none) (value : a.value = none) (required : a.required = false) :
      Supplies root a (some (.scalar { isDefault := true } .none, []))

theorem missingValue_ok {root : Value Ty Job} {a : Argument Ty Job}
    {supplied : Option (Value Ty Job × List Str)} (ok : missingValue types ws root a = .ok supplied) :
    Supplies types ws root a supplied := by
  unfold missingValue at ok
  cases generator : a.generator with
  | some name =>
      rw [generator] at ok
      dsimp only at ok
      cases made : pathGenerator types ws root name with
      | error e =>
          rw [made] at ok
          cases ok
      | ok path =>
          rw [made] at ok
          cases ok
          exact .path name path generator made
  | none =>
      rw [generator] at ok
      dsimp only at ok
      split at ok
      case h_1 d declared =>
          cases ok
          exact .default d generator declared
      case h_2 noDefault =>
          split at ok
          case h_1 c declared =>
              cases ok
              exact .constant c generator declared
          case h_2 noConstant =>
              have value : a.value = none := by
                unfold Argument.defaultValue at noDefault
                unfold Argument.constant at noConstant
                cases constant : a.isConstant <;> simp_all
              cases required : a.required with
              | true =>
                  rw [required] at ok
                  cases ok
                  apply Supplies.nothing
                  rw [Argument.idle, required, generator, value]
                  rfl
              | false =>
                  rw [required] at ok
                  cases ok
                  exact .null generator value required

theorem Supplies.not_idle {root : Value Ty Job} {a : Argument Ty Job} {supplied : Value Ty Job × List Str}
    (supplies : Supplies types ws root a (some supplied)) : a.idle = false := by
  cases supplies with
  | path name path generator made => simp [Argument.idle, generator]
  | default d generator declared =>
      unfold Argument.defaultValue at declared
      cases value : a.value <;> simp_all [Argument.idle]
  | constant c generator declared =>
      unfold Argument.constant at declared
      cases value : a.value <;> simp_all [Argument.idle]
  | null generator value required => simp [Argument.idle, required]

/-- `MapValue::_generate`: the loop over the declarations of the hierarchy. -/
def fill (within : Value Ty Job → Value Ty Job) :
    List (Argument Ty Job) → Value Ty Job → Generated (Value Ty Job)
  | [], v => ⟨v, [], none⟩
  | a :: rest, v =>
      if v.hasKey a.name then fill within rest v
      else
        match missingValue types ws (within v) a with
        | .error e => ⟨v, [], some e⟩
        | .ok none => fill within rest v
        | .ok (some (value, paths)) =>
            match v.set types a.name value with
            | (v', some e) => ⟨v', paths, some e⟩
            | (v', none) =>
                let r := fill within rest v'
                { r with paths := paths ++ r.paths }

/-- Set GENERATED after a generation without exception. -/
def Generated.finish (r : Generated (Value Ty Job)) : Generated (Value Ty Job) :=
  match r.error with
  | none => { r with result := r.result.withFlags fun flags => { flags with generated := true } }
  | some _ => r

/-- Continue after a generation without exception. -/
def Generated.next {α β : Type} (r : Generated α) (wrap : α → β) (rest : α → Generated β) : Generated β :=
  match r.error with
  | none =>
      let r' := rest r.result
      { r' with paths := r.paths ++ r'.paths }
  | some e => ⟨wrap r.result, r.paths, some e⟩

/-- The two checks at the beginning of `Value::generate`. -/
def Value.generateStop (v : Value Ty Job) : Option (Generated (Value Ty Job)) :=
  if v.flags.generated then some ⟨v, [], none⟩
  else if v.flags.isSealed then
    some ⟨v, [], some (.exception (str "Cannot generate values within a sealed object"))⟩
  else none

mutual

/-- `Value::generate`: the children first, then the missing arguments of a map. -/
def generate (within : Value Ty Job → Value Ty Job) : Value Ty Job → Generated (Value Ty Job)
  | .scalar flags s =>
      (Value.generateStop (.scalar flags s)).getD (Generated.finish ⟨.scalar flags s, [], none⟩)
  | .array flags ctype elements =>
      (Value.generateStop (.array flags ctype elements)).getD
        (Generated.finish
          ((generateElements (fun es => within (.array flags ctype es)) elements).next
            (.array flags ctype) fun es => ⟨.array flags ctype es, [], none⟩))
  | .map flags type task job children =>
      (Value.generateStop (.map flags type task job children)).getD
        (Generated.finish
          ((generateChildren (fun cs => within (.map flags type task job cs)) children).next
            (.map flags type task job) fun cs =>
              fill types ws within (types.declarations type) (.map flags type task job cs)))

def generateElements (within : List (Value Ty Job) → Value Ty Job) :
    List (Value Ty Job) → Generated (List (Value Ty Job))
  | [] => ⟨[], [], none⟩
  | element :: rest =>
      (generate (fun e => within (e :: rest)) element).next (· :: rest) fun e =>
        (generateElements (fun es => within (e :: es)) rest).next (e :: ·) fun es => ⟨e :: es, [], none⟩

def generateChildren (within : List (Str × Value Ty Job) → Value Ty Job) :
    List (Str × Value Ty Job) → Generated (List (Str × Value Ty Job))
  | [] => ⟨[], [], none⟩
  | (key, child) :: rest =>
      (generate (fun c => within ((key, c) :: rest)) child).next (fun c => (key, c) :: rest) fun c =>
        (generateChildren (fun cs => within ((key, c) :: cs)) rest).next ((key, c) :: ·) fun cs =>
          ⟨(key, c) :: cs, [], none⟩

end

/-! ### Validation and sealing -/

/-- A value after validation, and the exception if any. -/
abbrev Validated (Ty Job : Type) := Value Ty Job × Option Error

/-- `Scalar::null` of a scalar value. -/
def Value.isNull : Value Ty Job → Bool
  | .scalar _ s => s.null
  | _ => false

/-- The check of one argument in `MapValue::_validate`, given what validating the child gives. -/
def validateArgument (type : TypeRef Ty) (a : Argument Ty Job)
    (child : Option (Value Ty Job × Validated Ty Job)) : Option Error :=
  match child with
  | none =>
      if a.required then
        some (.parameterError (str "Argument " ++ a.name ++ str " was required but not given for type("
          ++ types.nameOf type ++ str ")") [])
      else none
  | some (value, validated) =>
      if value.isNull then
        if a.required then
          some (.parameterError (str "Argument " ++ a.name ++ str " was required but not given for type("
            ++ types.nameOf type ++ str ")") [])
        else none
      else if !types.accepts a.type (value.type types) then
        some (.parameterError (str "type is type(" ++ types.nameOf (value.type types)
          ++ str "), but requested type was type(" ++ types.nameOf a.type ++ str ")") [a.name])
      else validated.2.map (Error.addPath a.name)

/-- The loop of `MapValue::_validate`; `table` gives for each key the child and what validating it
    gives. -/
def validateArguments (type : TypeRef Ty) (table : List (Str × Value Ty Job × Validated Ty Job)) :
    List (Argument Ty Job) → List (Str × Value Ty Job) → List (Str × Value Ty Job) × Option Error
  | [], children => (children, none)
  | a :: rest, children =>
      let child := lookup a.name table
      -- A null value is not validated itself, any other one of the right type is.
      let children := match child with
        | some (value, validated) =>
            if !value.isNull && types.accepts a.type (value.type types) then
              adjust a.name (fun _ => validated.1) children
            else children
        | none => children
      match validateArgument types type a child with
      | some e => (children, some e)
      | none => validateArguments type table rest children

/-- Set VALIDATED after a validation without exception, unless it is set already. -/
def finishValidation (v : Value Ty Job) (r : Validated Ty Job) : Validated Ty Job :=
  if v.flags.validated then (v, none)
  else
    match r with
    | (v', none) => (v'.withFlags fun flags => { flags with validated := true }, none)
    | (v', some e) => (v', some e)

mutual

/-- `Value::validate`. -/
def validate : Value Ty Job → Validated Ty Job
  | .scalar flags s => finishValidation (.scalar flags s) (.scalar flags s, none)
  | .array flags ctype elements =>
      let r := validateElements 0 elements
      finishValidation (.array flags ctype elements) (.array flags ctype r.1, r.2)
  | .map flags type task job children =>
      let r := validateArguments types type (validationTable children) (types.declarations type) children
      finishValidation (.map flags type task job children) (.map flags type task job r.1, r.2)

/-- `ArrayValue::_validate`. -/
def validateElements (index : ℕ) : List (Value Ty Job) → List (Value Ty Job) × Option Error
  | [] => ([], none)
  | element :: rest =>
      match validate element with
      | (e, some error) => (e :: rest, some (error.addPath (str ("[" ++ toString index ++ "]"))))
      | (e, none) =>
          let r := validateElements (index + 1) rest
          (e :: r.1, r.2)

/-- What validating each child gives; `_validate` uses the entries it comes to. -/
def validationTable : List (Str × Value Ty Job) → List (Str × Value Ty Job × Validated Ty Job)
  | [] => []
  | (key, child) :: rest => (key, child, validate child) :: validationTable rest

end

mutual

/-- `Value::seal`. -/
def sealValue : Value Ty Job → Value Ty Job
  | .scalar flags s => .scalar { flags with isSealed := true } s
  | .array flags ctype elements =>
      if flags.isSealed then .array flags ctype elements
      else .array { flags with isSealed := true } ctype (sealElements elements)
  | .map flags type task job children =>
      if flags.isSealed then .map flags type task job children
      else .map { flags with isSealed := true } type task job (sealChildren children)

def sealElements : List (Value Ty Job) → List (Value Ty Job)
  | [] => []
  | element :: rest => sealValue element :: sealElements rest

def sealChildren : List (Str × Value Ty Job) → List (Str × Value Ty Job)
  | [] => []
  | (key, child) :: rest => (key, sealValue child) :: sealChildren rest

end

/-- `Value::configure`. -/
def configure (v : Value Ty Job) : Generated (Value Ty Job) :=
  let r := generate types ws id v
  match r.error with
  | some e => ⟨r.result, r.paths, some e⟩
  | none =>
      match validate types r.result with
      | (v', some e) => ⟨v', r.paths, some e⟩
      | (v', none) => ⟨sealValue v', r.paths, none⟩

end

end Experimaestro.Configuration

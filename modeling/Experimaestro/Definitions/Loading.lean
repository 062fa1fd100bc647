/-
Module: Experimaestro.Definitions.Loading
Layer: Definitions
Purpose: `Register::load`. The types of a file are read one after the other, each with its parent and its
  arguments; a name that is not known yet gets a placeholder, which is completed in place when its definition
  comes. The tasks follow. Values are read by a function, so that the loader does not depend on what they are.
Imports: Experimaestro.Definitions.TypeObjects
Trusted boundary: human-reviewed model of Register::load, Generator::createFromJSON, CommandLine::load and
  Command::load; the register that an exception leaves behind is not kept
Main exports: ValueReader, readArgument, resolveType, openType, setParent, loadArguments, loadType, loadTask, load,
  loadFiles
Open obligations: none
-/
import Experimaestro.Definitions.TypeObjects

namespace Experimaestro.Definitions

open Experimaestro.Configuration (Error Json Str str lookup insert)

/-! ### Access to JSON -/

/-- `j[key]`, where `j` is constant. -/
def member (key : Str) : Json → Except Failure Json
  | .object members =>
      match lookup key members with
      | some j => .ok j
      | none => .error .asserted
  | _ => .error (.thrown .jsonError)

/-- What `count` and `value` find under a key; only an object has something. -/
def find (key : Str) : Json → Option Json
  | .object members => lookup key members
  | _ => none

/-- `get<std::string>`. -/
def getString : Json → Except Failure Str
  | .string text => .ok text
  | _ => .error (.thrown .jsonError)

/-- `get<bool>`. -/
def getBool : Json → Except Failure Bool
  | .boolean b => .ok b
  | _ => .error (.thrown .jsonError)

/-- `value(key, text)`; other values than objects are refused. -/
def valueString (key text : Str) : Json → Except Failure Str
  | .object members =>
      match lookup key members with
      | some j => getString j
      | none => .ok text
  | _ => .error (.thrown .jsonError)

/-- What the iterator of a value goes over. -/
def items : Json → List (Option Str × Json)
  | .object members => members.map fun entry => (some entry.1, entry.2)
  | .array elements => elements.map fun e => (none, e)
  | .null => []
  | j => [(none, j)]

/-- `key()` of an iterator. -/
def keyOf : Option Str → Except Failure Str
  | some key => .ok key
  | none => .error (.thrown .jsonError)

/-! ### Generators and command lines -/

/-- `Generator::createFromJSON`, with the constructor of `PathGenerator`. -/
def createFromJSON (j : Json) : Except Failure Str := do
  let type ← member (str "type") j
  let type ← getString type
  if type = str "path" then
    let name ← member (str "name") j
    getString name
  else .error (.thrown (.exception (str "Generator type " ++ type ++ str " not recognized")))

/-- What `Command::load` makes of an element. -/
def loadComponent : Json → Except Failure CommandComponent
  | .string value => .ok (.string value)
  | e => do
      let type ← valueString (str "type") [] e
      if type = str "content" then
        let key ← member (str "key") e
        let key ← getString key
        let content ← member (str "content") e
        let content ← getString content
        .ok (.content key content)
      else if type = str "parameters" then .ok .parameters
      else if type = str "path" ∨ type = [] ∧ (find (str "path") e).isSome then
        let path ← member (str "path") e
        let path ← getString path
        .ok (.path path)
      else if type = str "pathref" ∨ type = [] ∧ (find (str "pathref") e).isSome then
        let key ← member (str "pathref") e
        let key ← getString key
        .ok (.pathref key)
      else .error (.thrown (.exception (str "Unknown type for command component: " ++ type)))

/-- `Command::load`. -/
def loadCommand : Json → Except Failure (List CommandComponent)
  | .array elements => elements.mapM loadComponent
  | _ => .error .asserted

/-- `CommandLine::load`. An array that does not begin with an array is a single command. -/
def loadCommandLine : Json → Except Failure CommandLine
  | .array [] => .ok []
  | .array (.array first :: rest) => (.array first :: rest).mapM loadCommand
  | .array elements => (loadCommand (.array elements)).map fun command => [command]
  | _ => .error .asserted

/-! ### Types -/

/-- `Value::create` on the register as it is by then. -/
abbrev ValueReader (V : Type) := Register V → Json → Except Failure (V × Register V)

section

variable {V : Type}

/-- The object for a definition: a placeholder, or a new one. -/
def openType (s : Register V) (name : Str) : Except Failure (ℕ × Register V) :=
  match lookup name s.types with
  | some address =>
      if (s.objects address).placeholder then
        .ok (address, s.modify address fun type => { type with placeholder := false })
      else
        .error (.thrown (.runtimeError (str "Type " ++ (s.objects address).name ++ str " was already defined")))
  | none => .ok (s.size, s.addType name false)

/-- The parent is the type in the table under its name, or a new placeholder. -/
def setParent (s : Register V) (address : ℕ) (parentTypename : Str) : Register V :=
  match lookup parentTypename s.types with
  | some parent => s.modify address fun type => { type with parent := some parent }
  | none => (s.addType parentTypename true).modify address fun type => { type with parent := some s.size }

/-- The type of an argument, which is registered as a placeholder under its whole name if need be. -/
def resolveType (s : Register V) (valueTypename : Str) : Except Failure (TypePtr × Register V) := do
  match ← s.getType valueTypename with
  | some type => .ok (type, s)
  | none => .ok (.object s.size, s.addType valueTypename true)

variable (createValue : ValueReader V)

/-- The name of the type of an argument, and the argument without its type. The value of a constant is read
    from `default`. -/
def readArgument (s : Register V) (typeName name : Str) (value : Json) :
    Except Failure (Str × Argument V × Register V) :=
  let a : Argument V := { type := .object 0 }
  match value with
  | .string valueTypename => .ok (valueTypename, a, s)
  | value =>
      match find (str "type") value with
      | none =>
          .error (.thrown (.argumentError (str "No defined type for argument " ++ name
            ++ str " in definition of type " ++ typeName)))
      | some type => do
          let valueTypename ← getString type
          let help ← valueString (str "help") [] value
          let required ← ((find (str "required") value).elim (.ok true) getBool)
          let a := { a with help := help, required := required }
          let (a, s) ←
            match find (str "default") value with
            | none => .ok (a, s)
            | some j => (createValue s j).map fun read => (a.setDefaultValue read.1, read.2)
          let (a, s) ←
            match find (str "constant") value with
            | none => .ok (a, s)
            | some _ => do
                let j ← member (str "default") value
                let read ← createValue s j
                .ok (a.setConstant read.1, read.2)
          let generator ←
            match find (str "generator") value with
            | none => .ok none
            | some j => (createFromJSON j).map some
          .ok (valueTypename, { a with generator := generator }, s)

/-- The loop over the arguments of a definition. -/
def loadArguments (address : ℕ) (typeName : Str) :
    List (Option Str × Json) → Register V → Except Failure (Register V)
  | [], s => .ok s
  | (key, value) :: rest, s => do
      let name ← keyOf key
      let (valueTypename, a, s) ← readArgument createValue s typeName name value
      let (type, s) ← resolveType s valueTypename
      loadArguments address typeName rest (s.modify address fun object =>
        { object with arguments := insert name { a with type := type } object.arguments })

/-- The loop over the properties of a definition. -/
def loadProperties (address : ℕ) : List (Option Str × Json) → Register V → Except Failure (Register V)
  | [], s => .ok s
  | (key, value) :: rest, s => do
      let (v, s) ← createValue s value
      let name ← keyOf key
      loadProperties address rest (s.modify address fun object =>
        { object with properties := insert name v object.properties })

/-- The `description` of a definition. -/
def loadDescription (s : Register V) (address : ℕ) : Option Json → Except Failure (Register V)
  | none => .ok s
  | some j => (getString j).map fun text => s.modify address fun type => { type with description := text }

/-- The `parent` of a definition. -/
def loadParent (s : Register V) (address : ℕ) : Option Json → Except Failure (Register V)
  | none => .ok s
  | some j => (getString j).map (setParent s address)

/-- What `load` does with a type definition. -/
def loadType (s : Register V) (name : Str) : Json → Except Failure (Register V)
  | .object members => do
      let (address, s) ← openType s name
      let s ← loadDescription s address (lookup (str "description") members)
      let s ← loadParent s address (lookup (str "parent") members)
      let s ← (lookup (str "properties") members).elim (.ok s) fun j =>
        loadProperties createValue address (items j) s
      let s ← loadArguments createValue address name (items ((lookup (str "arguments") members).getD (.object []))) s
      .ok { s with types := insert (s.objects address).name address s.types }
  | _ => .error .asserted

/-- What `load` does with a task. -/
def loadTask (s : Register V) (identifier : Str) (e : Json) : Except Failure (Register V) :=
  match find (str "type") e with
  | none => .error (.thrown (.argumentError (str "No type for task " ++ identifier)))
  | some type => do
      let type ← getString type
      let typePtr ← s.getType type
      match find (str "command") e with
      | none => .error (.thrown (.argumentError (str "No command for task " ++ identifier)))
      | some command => do
          let command ← loadCommandLine command
          match typePtr with
          | none => .error (.thrown (.exception (str "Type should not be null when constructing a task")))
          | some type =>
              .ok { s with tasks := insert identifier { identifier := identifier, type := type, command := command } s.tasks }

/-- The loop over the types. -/
def loadTypes : List (Str × Json) → Register V → Except Failure (Register V)
  | [], s => .ok s
  | (name, e) :: rest, s => do loadTypes rest (← loadType createValue s name e)

/-- The loop over the tasks. -/
def loadTasks : List (Str × Json) → Register V → Except Failure (Register V)
  | [], s => .ok s
  | (identifier, e) :: rest, s => do loadTasks rest (← loadTask s identifier e)

/-- The members of an object, which is asserted to be one. -/
def objectMembers : Json → Except Failure (List (Str × Json))
  | .object members => .ok members
  | _ => .error .asserted

/-- `Register::load`. -/
def load (s : Register V) (j : Json) : Except Failure (Register V) := do
  let types ← objectMembers (← member (str "types") j)
  let s ← loadTypes createValue types s
  let tasks ← objectMembers (← member (str "tasks") j)
  loadTasks tasks s

/-- Several calls of `load`. -/
def loadFiles : List Json → Register V → Except Failure (Register V)
  | [], s => .ok s
  | j :: rest, s => do loadFiles rest (← load createValue s j)

end

end Experimaestro.Definitions

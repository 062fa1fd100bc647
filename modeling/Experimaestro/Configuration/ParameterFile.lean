/-
Module: Experimaestro.Configuration.ParameterFile
Layer: Configuration
Purpose: The parameter file of a job: what `outputJson` writes for a value, which document that is, and which
  values the file is meant to keep. The writer goes through the arguments that the types declare, so that it
  leaves out every other key; it does not escape names and paths, and it cannot write every scalar.
Imports: Experimaestro.Configuration.JsonText, Experimaestro.Configuration.Generation
Trusted boundary: human-reviewed model of MapValue::outputJson, ArrayValue::outputJson,
  ScalarValue::outputJson, CommandParameters::output, Job::toJson and Connector::resolve
Main exports: outputJson, parameters, Recovered, PlainTexts, Recoverable, outputJson_parses
Open obligations: names and paths that are not plain
-/
import Experimaestro.Configuration.Generation
import Experimaestro.Configuration.JsonText

namespace Experimaestro.Configuration

open Value

/-! ### Paths -/

/-- `Path`. -/
structure Path where
  share : Str
  localpart : Str

/-- Where a directory of a share is mounted. -/
structure Mount where
  serverpath : Str
  localpath : Str

/-- What `Connector::resolve` reads of a connector: the mounts of each share. -/
structure Connector where
  mounts : List (Str × List Mount)

/-- `Connector::resolve`. -/
def Connector.resolve (connector : Connector) (path : Path) : Except Error Str :=
  if path.share = [] then .ok path.localpart
  else
    match lookup path.share connector.mounts with
    | none =>
        .error (.exception (str "Cannot resolve path " ++ path.share ++ str ":" ++ path.localpart
          ++ str " (share does not exist)"))
    | some mappings =>
        match mappings.find? fun mapping => mapping.serverpath.isPrefixOf path.localpart with
        | some mapping =>
            .ok (mapping.localpath ++ str "/" ++ path.localpart.drop mapping.serverpath.length)
        | none => .error (.exception (str "Cannot resolve path " ++ path.share ++ str ":" ++ path.localpart))

section

variable {Ty Job : Type} (register : Register Ty Job) (numbers : NumberFormat) (connector : Connector)
  (locator : Job → Str)

/-! ### Writing -/

/-- A member of an object, whose key is not escaped. -/
def memberText (key text : Str) : Str := quoted key ++ str ":" ++ text

/-- An object of members. -/
def objectText (members : List Str) : Str := str "\x7b" ++ joinTexts (str ",") members ++ str "\x7d"

/-- `ScalarValue::outputJson`. The path is made of the text again, so that it belongs to no share. -/
def scalarText : Scalar → Except Error Str
  | .path text =>
      (connector.resolve ⟨[], text⟩).map fun resolved =>
        objectText [memberText (str "$type") (quoted (register.types.nameOf (.base register.types.path))),
          memberText (str "$value") (str " " ++ quoted resolved)]
  | s =>
      match s.toJson with
      | .error e => .error e
      | .ok j => dump numbers j

/-- `Job::toJson`. -/
def jobJson (job : Job) : Json := .object [(str "locator", .string (locator job))]

/-- The member for the job of a map, if there is one. -/
def outputJob : Option Job → Except Error (List Str)
  | none => .ok []
  | some job =>
      (dump numbers (jobJson locator job)).map fun text => [memberText (str "$job") (str " " ++ text)]

/-- The loops over the hierarchy of the type and over its arguments, given what is written for each
    child. -/
def outputArguments (texts : List (Str × Except Error Str)) :
    List (Argument Ty Job) → Except Error (List Str)
  | [] => .ok []
  | a :: rest =>
      match (lookup a.name texts).getD (.ok (str "null")) with
      | .error e => .error e
      | .ok text => (outputArguments texts rest).map (memberText a.name text :: ·)

mutual

/-- `outputJson`, which gives the text, or the exception that ends it. -/
def outputJson : Value Ty Job → Except Error Str
  | .scalar _ s => scalarText register numbers connector s
  | .array _ _ elements =>
      (outputElements elements).map fun texts => str "[" ++ joinTexts (str ", ") texts ++ str "]"
  | .map _ type _ job children =>
      match outputJob numbers locator job with
      | .error e => .error e
      | .ok jobMember =>
          (outputArguments (outputChildren children) (register.types.declarations type)).map fun members =>
            objectText (memberText (str "$type") (str " " ++ quoted (register.types.nameOf type)) ::
              (jobMember ++ members))

def outputElements : List (Value Ty Job) → Except Error (List Str)
  | [] => .ok []
  | element :: rest =>
      match outputJson element with
      | .error e => .error e
      | .ok text => (outputElements rest).map (text :: ·)

/-- What is written for each child. -/
def outputChildren : List (Str × Value Ty Job) → List (Str × Except Error Str)
  | [] => []
  | (key, child) :: rest => (key, outputJson child) :: outputChildren rest

end

/-! ### The document -/

/-- The document that is written for a scalar. -/
def Scalar.parameter : Scalar → Json
  | .path text =>
      .object [(str "$type", .string (register.types.nameOf (.base register.types.path))),
        (str "$value", .string text)]
  | .none | .unset => .null
  | .string text => .string text
  | .integer n => .integer n
  | .real bits => if isFinite bits then .float bits else .null
  | .boolean b => .boolean b

/-- The members of an object, in the order in which they are written. -/
def writtenMembers (type : TypeRef Ty) (job : Option Job) (documents : List (Str × Json)) : List (Str × Json) :=
  (str "$type", .string (register.types.nameOf type)) ::
    ((job.map fun job => (str "$job", jobJson locator job)).toList ++
      (register.types.declarations type).map fun a => (a.name, (lookup a.name documents).getD .null))

mutual

/-- The document that is written for a value with plain texts. -/
def parameters : Value Ty Job → Json
  | .scalar _ s => s.parameter register
  | .array _ _ elements => .array (elementParameters elements)
  | .map _ type _ job children =>
      .object (storeMembers [] (writtenMembers register locator type job (childParameters children)))

def elementParameters : List (Value Ty Job) → List Json
  | [] => []
  | element :: rest => parameters element :: elementParameters rest

def childParameters : List (Str × Value Ty Job) → List (Str × Json)
  | [] => []
  | (key, child) :: rest => (key, parameters child) :: childParameters rest

end

/-! ### What is to be recovered -/

/-- The names of the arguments of a type and its ancestors. -/
def Types.declaredNames (types : Types Ty Job) (type : TypeRef Ty) : List Str :=
  (types.declarations type).map Argument.name

/-- The same content: a path is resolved, and a real number can be an integer of the same value. -/
inductive SameContent : Scalar → Scalar → Prop
  | path {text resolved : Str} (resolves : connector.resolve ⟨[], text⟩ = .ok resolved) :
      SameContent (.path text) (.path resolved)
  | integral {bits : UInt64} {n : Int64}
      (equal : Scalar.realEquals (register.conversions.ofInteger n) bits = true) :
      SameContent (.real bits) (.integer n)
  | same {s : Scalar} (no_path : s.scalarType ≠ .path) : SameContent s s

/-- The same kind of value, with the same content of a scalar and the same type of a map. -/
inductive SameHead : Value Ty Job → Value Ty Job → Prop
  | scalar {flags flags' : Flags} {s s' : Scalar} (same : SameContent register connector s s') :
      SameHead (.scalar flags s) (.scalar flags' s')
  | array {flags flags' : Flags} {ctype ctype' : TypeRef Ty} {elements elements' : List (Value Ty Job)} :
      SameHead (.array flags ctype elements) (.array flags' ctype' elements')
  | map {flags flags' : Flags} {type type' : TypeRef Ty} {task task' : Option Str} {job job' : Option Job}
      {children children' : List (Str × Value Ty Job)}
      (typed : register.types.nameOf type' = register.types.nameOf type) :
      SameHead (.map flags type task job children) (.map flags' type' task' job' children')

/-- The second value has the parameters of the first one: the same content of scalars and types of maps,
    under all keys of all maps that are reached through declared arguments. -/
inductive Recovered : Value Ty Job → Value Ty Job → Prop
  | scalar {flags flags' : Flags} {s s' : Scalar} (same : SameContent register connector s s') :
      Recovered (.scalar flags s) (.scalar flags' s')
  | array {flags flags' : Flags} {ctype ctype' : TypeRef Ty} {elements elements' : List (Value Ty Job)}
      (size : elements.length = elements'.length)
      (each : ∀ pair ∈ elements.zip elements', Recovered pair.1 pair.2) :
      Recovered (.array flags ctype elements) (.array flags' ctype' elements')
  | map {flags flags' : Flags} {type type' : TypeRef Ty} {task task' : Option Str} {job job' : Option Job}
      {children children' : List (Str × Value Ty Job)} (image : Str → Value Ty Job)
      (typed : register.types.nameOf type' = register.types.nameOf type)
      (found : ∀ key child, lookup key children = some child → lookup key children' = some (image key))
      (alike : ∀ key child, lookup key children = some child →
        SameHead register connector child (image key))
      (each : ∀ key child, lookup key children = some child →
        key ∈ register.types.declaredNames type → Recovered child (image key)) :
      Recovered (.map flags type task job children) (.map flags' type' task' job' children')

/-- What is written for a value is valid JSON, and reading it gives a value with the same parameters. -/
def KeepsParameters (table : Table Ty) (v : Value Ty Job) : Prop :=
  ∃ text, outputJson register numbers connector locator v = .ok text ∧
    ∃ j, parse numbers text = some j ∧
      ∃ w later, create register j table = (.ok w, later) ∧ Recovered register connector v w

/-! ### Which values are recovered -/

/-- Texts that are written as they are need no escape: the names of types and arguments, and paths; no
    argument has the name of a keyword. -/
inductive PlainTexts : Value Ty Job → Prop
  | scalar {flags : Flags} {s : Scalar}
      (plain : ∀ text resolved, s = .path text → connector.resolve ⟨[], text⟩ = .ok resolved →
        PlainText resolved) :
      PlainTexts (.scalar flags s)
  | array {flags : Flags} {ctype : TypeRef Ty} {elements : List (Value Ty Job)}
      (each : ∀ element ∈ elements, PlainTexts element) : PlainTexts (.array flags ctype elements)
  | map {flags : Flags} {type : TypeRef Ty} {task : Option Str} {job : Option Job}
      {children : List (Str × Value Ty Job)} (typeName : PlainText (register.types.nameOf type))
      (names : ∀ name ∈ register.types.declaredNames type, PlainText name ∧ name ∉ restrictedKeys)
      (each : ∀ key child, lookup key children = some child →
        key ∈ register.types.declaredNames type → PlainTexts child) :
      PlainTexts (.map flags type task job children)

/-- A scalar, other than a path, that is written and read without loss: texts are well-formed, real numbers
    are finite, and integral ones fit an integer. -/
inductive Scalar.Recoverable : Scalar → Prop
  | none : Scalar.Recoverable .none
  | integer (n : Int64) : Scalar.Recoverable (.integer n)
  | boolean (b : Bool) : Scalar.Recoverable (.boolean b)
  | string {text : Str} (valid : Utf8.Valid text) : Scalar.Recoverable (.string text)
  | real {bits : UInt64} (finite : isFinite bits = true)
      (fits : ∀ n, register.conversions.integral bits = some n →
        Scalar.realEquals (register.conversions.ofInteger n) bits = true) : Scalar.Recoverable (.real bits)

/-- The register has a type of paths under the name `path`. -/
def PathsKnown (table : Table Ty) : Prop :=
  let type := (resolve register table (register.types.nameOf (.base register.types.path))).1
  register.simple type = some .path ∧
    register.types.accepts type (.base register.types.string) = false

mutual

/-- A value with the numbers that are read as integers. -/
def asRead : Value Ty Job → Value Ty Job
  | .scalar flags (.real bits) =>
      match register.conversions.integral bits with
      | some n => .scalar flags (.integer n)
      | none => .scalar flags (.real bits)
  | .scalar flags s => .scalar flags s
  | .array flags ctype elements => .array flags ctype (elementsAsRead elements)
  | .map flags type task job children => .map flags type task job children

def elementsAsRead : List (Value Ty Job) → List (Value Ty Job)
  | [] => []
  | element :: rest => asRead element :: elementsAsRead rest

end

/-- The declared default under a key can be compared with a value. -/
def Comparable (type : TypeRef Ty) (key : Str) (v : Value Ty Job) : Prop :=
  ∃ marked, markFor (ownArgument register.types type key) v = .ok marked

/-- The keys of the object that is written for a map, in their order. -/
def Types.declaredKeys (types : Types Ty Job) (type : TypeRef Ty) : List Str :=
  ((types.declaredNames type).foldl (fun keys name => insert name () keys) []).map Prod.fst

mutual

/-- A value that is recovered, with the tables of types before and after: the name of a map type is that of a
    type of maps, all keys of a map are declared and can be compared with the defaults, and scalars are
    written and read without loss. -/
inductive Recoverable : Table Ty → Value Ty Job → Table Ty → Prop
  | scalar {table : Table Ty} {flags : Flags} {s : Scalar} (lossless : s.Recoverable register) :
      Recoverable table (.scalar flags s) table
  | path {table : Table Ty} {flags : Flags} {text : Str} (known : PathsKnown register table) :
      Recoverable table (.scalar flags (.path text)) table
  | array {table later : Table Ty} {flags : Flags} {ctype : TypeRef Ty} {elements : List (Value Ty Job)}
      (each : RecoverableElements table elements later) :
      Recoverable table (.array flags ctype elements) later
  | map {table later : Table Ty} {flags : Flags} {type : TypeRef Ty} {t : Ty} {task : Option Str}
      {job : Option Job} {children : List (Str × Value Ty Job)}
      (typed : (resolve register table (register.types.nameOf type)).1 = .base t)
      (named : register.types.name t = register.types.nameOf type)
      (structured : register.valueType t = none)
      (located : ∀ j, job = some j → Utf8.Valid (locator j))
      (declared : ∀ key child, lookup key children = some child → key ∈ register.types.declaredNames type)
      (each : RecoverableKeys (.base t) children (register.types.declaredKeys type)
        (resolve register table (register.types.nameOf type)).2 later) :
      Recoverable table (.map flags type task job children) later

inductive RecoverableElements : Table Ty → List (Value Ty Job) → Table Ty → Prop
  | nil {table : Table Ty} : RecoverableElements table [] table
  | cons {table mid later : Table Ty} {element : Value Ty Job} {rest : List (Value Ty Job)}
      (first : Recoverable table element mid) (others : RecoverableElements mid rest later) :
      RecoverableElements table (element :: rest) later

inductive RecoverableKeys : TypeRef Ty → List (Str × Value Ty Job) → List Str → Table Ty → Table Ty → Prop
  | nil {type : TypeRef Ty} {children : List (Str × Value Ty Job)} {table : Table Ty} :
      RecoverableKeys type children [] table table
  | missing {type : TypeRef Ty} {children : List (Str × Value Ty Job)} {key : Str} {keys : List Str}
      {table later : Table Ty} (absent : lookup key children = none)
      (comparable : Comparable register type key (.scalar {} .none))
      (others : RecoverableKeys type children keys table later) :
      RecoverableKeys type children (key :: keys) table later
  | present {type : TypeRef Ty} {children : List (Str × Value Ty Job)} {key : Str} {keys : List Str}
      {table mid later : Table Ty} {child : Value Ty Job} (found : lookup key children = some child)
      (first : Recoverable table child mid) (comparable : Comparable register type key (asRead register child))
      (others : RecoverableKeys type children keys mid later) :
      RecoverableKeys type children (key :: keys) table later

end

variable {register numbers connector locator}

/-! ### Induction over values -/

/-- A property that a value has if its elements, or its children, have it. -/
structure Hereditary (P : Value Ty Job → Prop) : Prop where
  scalar : ∀ flags s, P (.scalar flags s)
  array : ∀ flags ctype elements, (∀ element ∈ elements, P element) → P (.array flags ctype elements)
  map : ∀ flags type task job children, (∀ key child, lookup key children = some child → P child) →
    P (.map flags type task job children)

mutual

theorem Hereditary.value {P : Value Ty Job → Prop} (hereditary : Hereditary P) : ∀ v, P v
  | .scalar flags s => hereditary.scalar flags s
  | .array flags ctype elements => hereditary.array flags ctype elements (hereditary.elements elements)
  | .map flags type task job children =>
      hereditary.map flags type task job children (hereditary.children children)

theorem Hereditary.elements {P : Value Ty Job → Prop} (hereditary : Hereditary P) :
    ∀ elements : List (Value Ty Job), ∀ element ∈ elements, P element
  | [] => nofun
  | element :: rest => List.forall_mem_cons.mpr ⟨hereditary.value element, hereditary.elements rest⟩

theorem Hereditary.children {P : Value Ty Job → Prop} (hereditary : Hereditary P) :
    ∀ children : List (Str × Value Ty Job), ∀ key child, lookup key children = some child → P child
  | [] => nofun
  | (k, v) :: rest => by
      intro key child found
      rw [lookup] at found
      split at found
      · cases found
        exact hereditary.value v
      · exact hereditary.children rest key child found

end

/-! ### The text -/

theorem resolve_local (connector : Connector) (text : Str) : connector.resolve ⟨[], text⟩ = .ok text := by
  rw [Connector.resolve, if_pos rfl]

theorem lookup_outputChildren (key : Str) (children : List (Str × Value Ty Job)) :
    lookup key (outputChildren register numbers connector locator children) =
      (lookup key children).map (outputJson register numbers connector locator) := by
  induction children with
  | nil => rfl
  | cons entry rest ih =>
      rw [outputChildren, lookup, lookup, ih]
      split
      · rfl
      · rfl

theorem lookup_childParameters (key : Str) (children : List (Str × Value Ty Job)) :
    lookup key (childParameters register locator children) =
      (lookup key children).map (parameters register locator) := by
  induction children with
  | nil => rfl
  | cons entry rest ih =>
      rw [childParameters, lookup, lookup, ih]
      split
      · rfl
      · rfl

theorem memberText_written {key text : Str} {j : Json} (plain : PlainText key) (parses : Parses numbers text j) :
    MemberText numbers (memberText key text) (key, j) := by
  refine ⟨key, text, ?_, plain.dumpEscaped, parses⟩
  rw [memberText, List.append_assoc]
  rfl

theorem Parses.plain {text : Str} (plain : PlainText text) : Parses numbers (quoted text) (.string text) :=
  .string plain.dumpEscaped

theorem plain_type : PlainText (str "$type") := by decide

theorem plain_value : PlainText (str "$value") := by decide

theorem plain_job : PlainText (str "$job") := by decide

/-- What is written for a scalar is the text of its document. -/
theorem scalarText_parses {s : Scalar} {text : Str}
    (plain : ∀ path resolved, s = .path path → connector.resolve ⟨[], path⟩ = .ok resolved →
      PlainText resolved)
    (written : scalarText register numbers connector s = .ok text) :
    Parses numbers text (s.parameter register) := by
  cases s with
  | unset => cases written
  | path path =>
      rw [scalarText, resolve_local] at written
      cases written
      have type_plain : PlainText (register.types.nameOf (.base register.types.path)) := by
        rw [Types.nameOf, register.name_path]
        decide
      have value : Parses numbers (quoted path) (.string path) :=
        Parses.plain (plain path path rfl (resolve_local connector path))
      have members := List.Forall₂.cons (memberText_written plain_type (Parses.plain type_plain))
        (.cons (memberText_written plain_value value.space) .nil)
      have ordered : Ordered [(str "$type", Json.string (register.types.nameOf (.base register.types.path))),
          (str "$value", .string path)] := by
        apply List.pairwise_cons.mpr
        exact ⟨fun entry member => List.mem_singleton.mp member ▸ rfl, List.pairwise_singleton _ _⟩
      rw [Scalar.parameter, ← storeMembers_of_ordered ordered]
      exact Parses.object members
  | real bits =>
      cases written
      rw [Scalar.parameter]
      cases finite : isFinite bits with
      | true => exact Parses.real finite
      | false => exact Parses.null
  | _ => exact dump_parses trivial written

theorem outputJob_written {job : Option Job} {texts : List Str}
    (written : outputJob numbers locator job = .ok texts) :
    List.Forall₂ (MemberText numbers) texts (job.map fun job => (str "$job", jobJson locator job)).toList := by
  cases job with
  | none =>
      cases written
      exact .nil
  | some job =>
      obtain ⟨text, dumped, rfl⟩ := except_map_eq_ok.mp written
      have regular : Regular (jobJson locator job) := ⟨List.pairwise_singleton _ _, trivial, trivial⟩
      exact .cons (memberText_written plain_job (dump_parses regular dumped).space) .nil

theorem outputArguments_written {texts : List (Str × Except Error Str)} {documents : List (Str × Json)}
    {arguments : List (Argument Ty Job)} {members : List Str}
    (each : ∀ a ∈ arguments, PlainText a.name ∧ ∀ text, (lookup a.name texts).getD (.ok (str "null")) = .ok text →
      Parses numbers text ((lookup a.name documents).getD .null))
    (written : outputArguments texts arguments = .ok members) :
    List.Forall₂ (MemberText numbers) members
      (arguments.map fun a => (a.name, (lookup a.name documents).getD .null)) := by
  induction arguments generalizing members with
  | nil =>
      cases written
      exact .nil
  | cons a rest ih =>
      obtain ⟨⟨plain, parses⟩, others⟩ := List.forall_mem_cons.mp each
      rw [outputArguments] at written
      cases first : (lookup a.name texts).getD (.ok (str "null")) with
      | error e => simp [first] at written
      | ok text =>
          simp only [first] at written
          obtain ⟨tail, rest_written, rfl⟩ := except_map_eq_ok.mp written
          exact .cons (memberText_written plain (parses text first)) (ih others rest_written)

theorem outputElements_written {elements : List (Value Ty Job)} {texts : List Str}
    (each : ∀ element ∈ elements, ∀ text, outputJson register numbers connector locator element = .ok text →
      Parses numbers text (parameters register locator element))
    (written : outputElements register numbers connector locator elements = .ok texts) :
    List.Forall₂ (Parses numbers) texts (elementParameters register locator elements) := by
  induction elements generalizing texts with
  | nil =>
      cases written
      exact .nil
  | cons element rest ih =>
      obtain ⟨parses, others⟩ := List.forall_mem_cons.mp each
      rw [outputElements] at written
      cases first : outputJson register numbers connector locator element with
      | error e => simp [first] at written
      | ok text =>
          simp only [first] at written
          obtain ⟨tail, rest_written, rfl⟩ := except_map_eq_ok.mp written
          exact .cons (parses text first) (ih others rest_written)

/-- With plain texts, what is written for a value is the text of its document. -/
theorem outputJson_parses (v : Value Ty Job) :
    PlainTexts register connector v → ∀ text, outputJson register numbers connector locator v = .ok text →
      Parses numbers text (parameters register locator v) := by
  apply Hereditary.value (P := fun v => PlainTexts register connector v → ∀ text,
    outputJson register numbers connector locator v = .ok text →
      Parses numbers text (parameters register locator v))
  constructor
  case scalar =>
      intro flags s plain text written
      cases plain with
      | scalar plain => exact scalarText_parses plain written
  case array =>
      intro flags ctype elements ih plain text written
      cases plain with
      | array each =>
          obtain ⟨texts, elements_written, rfl⟩ := except_map_eq_ok.mp written
          have blank : Blank [0x20] := fun b member => List.mem_singleton.mp member
          exact Parses.array blank
            (outputElements_written (fun element member => ih element member (each element member)) elements_written)
  case map =>
      intro flags type task job children ih plain text written
      cases plain with
      | map typeName names each =>
          rw [outputJson] at written
          cases job_written : outputJob numbers locator job with
          | error e => simp [job_written] at written
          | ok jobMember =>
              simp only [job_written] at written
              obtain ⟨members, arguments_written, rfl⟩ := except_map_eq_ok.mp written
              have type_text : Parses numbers (quoted (register.types.nameOf type))
                  (.string (register.types.nameOf type)) := Parses.plain typeName
              have type_member := memberText_written plain_type type_text.space
              have each_argument : ∀ a ∈ register.types.declarations type, PlainText a.name ∧
                  ∀ text, (lookup a.name (outputChildren register numbers connector locator children)).getD
                      (.ok (str "null")) = .ok text →
                    Parses numbers text
                      ((lookup a.name (childParameters register locator children)).getD .null) := by
                intro a member
                have declared : a.name ∈ register.types.declaredNames type := List.mem_map_of_mem member
                refine ⟨(names a.name declared).1, fun text child_written => ?_⟩
                rw [lookup_outputChildren] at child_written
                rw [lookup_childParameters]
                cases found : lookup a.name children with
                | none =>
                    rw [found] at child_written
                    cases child_written
                    exact Parses.null
                | some child =>
                    rw [found] at child_written
                    exact ih a.name child found (each a.name child found declared) text child_written
              have arguments := outputArguments_written each_argument arguments_written
              exact Parses.object
                (.cons type_member (List.rel_append (outputJob_written job_written) arguments))

end

end Experimaestro.Configuration

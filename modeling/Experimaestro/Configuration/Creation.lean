/-
Module: Experimaestro.Configuration.Creation
Layer: Configuration
Purpose: `Value::create`, which builds a value from JSON. A type name that the register does not know is
  registered on the way as a placeholder, so that the table of types is threaded through the recursion,
  also past an exception. The members of an object are listed in the order of their keys.
Imports: Experimaestro.Configuration.Values
Trusted boundary: human-reviewed model of Value::create, Scalar(json), Scalar::cast, Type::lca,
  ArrayValue::push_back, Register::getType and getTask
Main exports: Json, Conversions, Register, Table, getType, resolve, create
Open obligations: none
-/
import Experimaestro.Configuration.Values

namespace Experimaestro.Configuration

/-- `nlohmann::json`. An integer is given as the `long` it is read as, a `double` by its bits. -/
inductive Json where
  | null
  | boolean (value : Bool)
  | integer (value : Int64)
  | float (bits : UInt64)
  | string (text : Str)
  | array (elements : List Json)
  | object (members : List (Str × Json))

/-! ### Scalars -/

/-- The conversions of the language from and to `double`. -/
structure Conversions where
  integral : UInt64 → Option Int64
  toInteger : UInt64 → Option Int64
  ofInteger : Int64 → UInt64
  toText : UInt64 → Str

/-- `Scalar(json)`. -/
def scalarOf (conversions : Conversions) : Json → Except Error Scalar
  | .null => .ok .none
  | .boolean b => .ok (.boolean b)
  | .integer n => .ok (.integer n)
  | .float bits =>
      match conversions.integral bits with
      | some n => .ok (.integer n)
      | none => .ok (.real bits)
  | .string text => .ok (.string text)
  | .object _ => .error (.exception (str "Unhandled JSON type for a Scalar: 1"))
  | .array _ => .error (.exception (str "Unhandled JSON type for a Scalar: 2"))

namespace Scalar

/-- `Scalar::asPath`. -/
def asPath : Scalar → Option Str
  | .path text | .string text => some text
  | _ => Option.none

/-- `Scalar::asString`. -/
def asString (conversions : Conversions) : Scalar → Option Str
  | .unset | .none => Option.none
  | .real bits => some (conversions.toText bits)
  | .integer n => some (str (toString n.toInt))
  | .boolean b => some (if b then str "1" else str "0")
  | .path text | .string text => some text

/-- `Scalar::asInteger`. -/
def asInteger (conversions : Conversions) : Scalar → Option Int64
  | .real bits => conversions.toInteger bits
  | .integer n => some n
  | .boolean b => some (if b then 1 else 0)
  | _ => Option.none

/-- `Scalar::asReal`; a text is 1 unless it is empty. -/
def asReal (conversions : Conversions) : Scalar → Option UInt64
  | .unset | .none => Option.none
  | .real bits => some bits
  | .integer n => some (conversions.ofInteger n)
  | .boolean b => some (if b then 0x3FF0000000000000 else 0)
  | .path text | .string text => some (if text = [] then 0 else 0x3FF0000000000000)

/-- `Scalar::asBoolean`. -/
def asBoolean : Scalar → Option Bool
  | .unset => Option.none
  | .none => some false
  | .real bits => some (!realEquals bits 0)
  | .integer n => some (n != 0)
  | .boolean b => some b
  | .path text | .string text => some (text != [])

/-- `Scalar::cast` to a simple type with this value type. -/
def cast (conversions : Conversions) (s : Scalar) : ScalarType → Option Scalar
  | .path => s.asPath.map .path
  | .string => (s.asString conversions).map .string
  | .integer => (s.asInteger conversions).map .integer
  | .boolean => s.asBoolean.map .boolean
  | .real => (s.asReal conversions).map .real
  | .none => some s
  | .unset => Option.none

end Scalar

/-! ### The register -/

/-- The types and tasks that a `Register` deals with. `valueType` tells the simple types; a placeholder is
    a type object of a name and nothing else. -/
structure Register (Ty Job : Type) where
  types : Types Ty Job
  valueType : Ty → Option ScalarType
  placeholder : Str → Ty
  task : Str → Option Str
  dummy : Str → Job
  conversions : Conversions
  valueType_path : valueType types.path = some .path
  name_string : types.name types.string = str "string"
  name_path : types.name types.path = str "path"
  name_real : types.name types.real = str "real"
  chain_string : types.chain (.base types.string) = [.base types.string, .base types.any]
  name_any : types.name types.any = str "any"
  name_placeholder : ∀ name, types.name (placeholder name) = name
  parent_placeholder : ∀ name, types.parent (placeholder name) = none
  arguments_placeholder : ∀ name, types.arguments (placeholder name) = []
  canIgnore_placeholder : ∀ name, types.canIgnore (placeholder name) = false
  valueType_placeholder : ∀ name, valueType (placeholder name) = none

/-- `_types`, the latest entry first. -/
abbrev Table (Ty : Type) := List (Str × Ty)

/-- The name of the component type, of a name that ends in `[]`. -/
def componentName (name : Str) : Option Str :=
  if 2 < name.length ∧ name.drop (name.length - 2) = str "[]" then some (name.take (name.length - 2)) else none

/-- `Register::getType`, which takes off `[]` at most `n` times. -/
def getTypeIn {Ty : Type} (table : Table Ty) : ℕ → Str → Option (TypeRef Ty)
  | 0, name => (lookup name table).map .base
  | n + 1, name =>
      match componentName name with
      | some component => (getTypeIn table n component).map .array
      | none => (lookup name table).map .base

/-- `Register::getType`. -/
def getType {Ty : Type} (table : Table Ty) (name : Str) : Option (TypeRef Ty) :=
  getTypeIn table name.length name

section

variable {Ty Job : Type} (register : Register Ty Job)

/-- The type of a name, which is registered as a placeholder if need be. -/
def resolve (table : Table Ty) (name : Str) : TypeRef Ty × Table Ty :=
  match getType table name with
  | some type => (type, table)
  | none => (.base (register.placeholder name), (name, register.placeholder name) :: table)

/-- `Type::lca`. -/
def Types.lca (types : Types Ty Job) (a b : TypeRef Ty) : TypeRef Ty :=
  if (types.chain a).any fun current => types.nameOf current == types.nameOf b then a
  else
    ((types.chain b).find? fun current =>
      (types.chain a).any fun other => types.nameOf other == types.nameOf current).getD (.base types.any)

/-! ### Value::create -/

/-- `_type->scalar()`, with the value type. -/
def Register.simple : TypeRef Ty → Option ScalarType
  | .base t => register.valueType t
  | .array _ => none

/-- The value that an object of a type starts with. -/
def initialValue (type : TypeRef Ty) (hasValue : Bool) : Value Ty Job :=
  if (register.simple type).isSome || hasValue then .scalar {} .unset
  else
    match type with
    | .array component => .array {} component []
    | .base t => .map {} (.base t) none none []

/-- The scalar that `$value` gives to an object of a type. -/
def scalarFor (type : TypeRef Ty) (j : Json) : Except Error Scalar :=
  match scalarOf register.conversions j with
  | .error e => .error e
  | .ok s =>
      let given := Value.type register.types (.scalar {} s : Value Ty Job)
      if s.null || register.types.accepts type given then .ok s
      else
        match (register.simple type).bind (s.cast register.conversions) with
        | some s' => .ok s'
        | none =>
            .error (.argumentError (str "Incompatible types: " ++ register.types.nameOf given
              ++ str " (given) cannot be converted to " ++ register.types.nameOf type ++ str " (expected)"))

/-- `DummyJob`, from the object given under `$job`. -/
def dummyJob : Json → Except Error Job
  | .object members =>
      match lookup (str "locator") members with
      | some (.string locator) => .ok (register.dummy locator)
      | _ => .error .jsonError
  | _ => .error .jsonError

/-- What a restricted key does to the value under construction. -/
def keyword (type : TypeRef Ty) (key : Str) (j : Json) (p : Value Ty Job) : Except Error (Value Ty Job) :=
  if key = str "$value" then
    match p with
    | .scalar flags _ => (scalarFor register type j).map (.scalar flags)
    | _ => .error (.argumentError (str "Scalar cannot be a map or an array"))
  else if key = str "$job" then
    match p with
    | .map flags type task _ children =>
        (dummyJob register j).map fun job => .map flags type task (some job) children
    | _ => .error (.argumentError (str "Cannot cast to Map"))
  else if key = str "$task" then
    match p, j with
    | .map flags _ _ job children, .string name => .ok (.map flags type (register.task name) job children)
    | .map _ _ _ _ _, _ => .error .jsonError
    | _, _ => .error (.argumentError (str "Cannot cast to Map"))
  else .ok p

/-- `ArrayValue::push_back`, on the component type and the elements. -/
def pushBack (array : TypeRef Ty × List (Value Ty Job)) (v : Value Ty Job) :
    TypeRef Ty × List (Value Ty Job) :=
  (if array.2.isEmpty then v.type register.types
    else register.types.lca array.1 (v.type register.types), array.2 ++ [v])

/-- The type of an object, before its members are read. -/
def objectType (members : List (Str × Json)) (table : Table Ty) : Except Error (TypeRef Ty) × Table Ty :=
  match lookup (str "$type") members with
  | none => (.ok (.base register.types.any), table)
  | some (.string name) => (.ok (resolve register table name).1, (resolve register table name).2)
  | some _ => (.error .jsonError, table)

mutual

/-- `Value::create`. -/
def create : Json → Table Ty → Except Error (Value Ty Job) × Table Ty
  | .object members, table =>
      match objectType register members table with
      | (.error e, table) => (.error e, table)
      | (.ok type, table) =>
          createMembers type members table
            (initialValue register type (lookup (str "$value") members).isSome)
  | .array elements, table =>
      match createElements elements table (.base register.types.any, []) with
      | (.error e, table) => (.error e, table)
      | (.ok (ctype, values), table) => (.ok (.array {} ctype values), table)
  | .null, table => (.ok (.scalar {} .none), table)
  | .boolean b, table => (.ok (.scalar {} (.boolean b)), table)
  | .integer n, table => (.ok (.scalar {} (.integer n)), table)
  | .float bits, table =>
      ((scalarOf register.conversions (.float bits)).map (.scalar {}), table)
  | .string text, table => (.ok (.scalar {} (.string text)), table)

/-- The loop over the members of an object; other keys than the restricted ones are set in a map. -/
def createMembers (type : TypeRef Ty) :
    List (Str × Json) → Table Ty → Value Ty Job → Except Error (Value Ty Job) × Table Ty
  | [], table, p => (.ok p, table)
  | (key, j) :: rest, table, p =>
      if key ∈ restrictedKeys then
        match keyword register type key j p with
        | .error e => (.error e, table)
        | .ok p => createMembers type rest table p
      else if !p.isMap then (.error (.argumentError (str "Cannot cast to Map")), table)
      else
        match create j table with
        | (.error e, table) => (.error e, table)
        | (.ok v, table) =>
            match p.set register.types key v with
            | (_, some e) => (.error e, table)
            | (p, none) => createMembers type rest table p

def createElements :
    List Json → Table Ty → TypeRef Ty × List (Value Ty Job) →
      Except Error (TypeRef Ty × List (Value Ty Job)) × Table Ty
  | [], table, array => (.ok array, table)
  | j :: rest, table, array =>
      match create j table with
      | (.error e, table) => (.error e, table)
      | (.ok v, table) => createElements rest table (pushBack register array v)

end

end

end Experimaestro.Configuration

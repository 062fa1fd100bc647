/-
Module: Experimaestro.Definitions.TypeObjects
Layer: Definitions
Purpose: The type objects of a register and the pointers to them. A `Type` is an object with an address: it can
  be given a parent and arguments after others point to it. An `ArrayType` is made from its component, and
  from the parent that the component has at that moment; it is not changed afterwards.
Imports: Experimaestro.Library.Lineage, Experimaestro.Configuration.Creation
Trusted boundary: human-reviewed model of Type, ArrayType and Argument, of the constructor of Register, of
  Register::addType and getType
Main exports: Failure, TypePtr, Argument, TypeObject, Register, Register.fresh, nameOf, parentOf, newArray, getType
Open obligations: none
-/
import Mathlib.Logic.Function.Basic
import Mathlib.Tactic.Common
import Experimaestro.Library.Lineage
import Experimaestro.Configuration.Creation

namespace Experimaestro.Definitions

open Experimaestro.Configuration (Error Json ScalarType Str str lookup insert lookup_insert componentName)

/-- What ends a call before it returns: an exception, a failed assertion, a recursion without end. -/
inductive Failure where
  | thrown (error : Error)
  | asserted
  | endless
deriving DecidableEq

/-! ### Types -/

/-- A pointer to a type: an object, or an `ArrayType`, whose parent is null where its component had none. -/
inductive TypePtr where
  | object (address : ℕ)
  | array (component : TypePtr)
  | arrayBelow (component parent : TypePtr)
deriving DecidableEq

namespace TypePtr

/-- The object that is left when each array type is replaced by its component. -/
def core : TypePtr → ℕ
  | object address => address
  | array component => component.core
  | arrayBelow component _ => component.core

/-- How many times a component has to be taken. -/
def nesting : TypePtr → ℕ
  | object _ => 0
  | array component => component.nesting + 1
  | arrayBelow component _ => component.nesting + 1

end TypePtr

/-- `Argument`, without its name. The values are those of `V`; a generator is given by its name. -/
structure Argument (V : Type) where
  type : TypePtr
  help : Str := []
  required : Bool := true
  isConstant : Bool := false
  value : Option V := none
  generator : Option Str := none

namespace Argument

variable {V : Type}

/-- `Argument::defaultValue`. -/
def defaultValue (a : Argument V) : Option V := if a.isConstant then none else a.value

/-- `Argument::constant`. -/
def constant (a : Argument V) : Option V := if a.isConstant then a.value else none

/-- The setter `Argument::defaultValue`. -/
def setDefaultValue (a : Argument V) (value : V) : Argument V :=
  { a with value := some value, required := false, isConstant := false }

/-- The setter `Argument::constant`. -/
def setConstant (a : Argument V) (value : V) : Argument V :=
  { a with value := some value, isConstant := true }

end Argument

/-- `Type`; `valueType` is that of a `SimpleType`. The tables of properties and arguments have distinct keys. -/
structure TypeObject (V : Type) where
  name : Str
  parent : Option ℕ := none
  predefined : Bool := false
  canIgnore : Bool := false
  placeholder : Bool := false
  valueType : Option ScalarType := none
  description : Str := []
  properties : List (Str × V) := []
  arguments : List (Str × Argument V) := []

/-! ### The register -/

/-- The components of a command. -/
inductive CommandComponent where
  | string (value : Str)
  | content (key content : Str)
  | parameters
  | path (path : Str)
  | pathref (key : Str)
deriving DecidableEq

/-- `CommandLine`: its commands, with their components. -/
abbrev CommandLine := List (List CommandComponent)

/-- `Task`. -/
structure Task where
  identifier : Str
  type : TypePtr
  command : CommandLine

/-- `Register`, with the objects that have been created; the addresses from `size` on are free. -/
structure Register (V : Type) where
  objects : ℕ → TypeObject V
  size : ℕ
  types : List (Str × ℕ)
  tasks : List (Str × Task) := []

variable {V : Type}

/-- The predefined types, which have the first addresses; `AnyType` is the first one. -/
def predefinedTypes : List (TypeObject V) :=
  [{ name := str "any", predefined := true },
    { name := str "boolean", parent := some 0, predefined := true, valueType := some .boolean },
    { name := str "integer", parent := some 0, predefined := true, valueType := some .integer },
    { name := str "real", parent := some 0, predefined := true, valueType := some .real },
    { name := str "string", parent := some 0, predefined := true, valueType := some .string },
    { name := str "path", parent := some 0, predefined := true, valueType := some .path, canIgnore := true }]

/-- The names of the predefined types. -/
def predefinedNames : List Str :=
  [str "any", str "boolean", str "integer", str "real", str "string", str "path"]

namespace Register

/-- `Register()`. -/
def fresh : Register V where
  objects address := predefinedTypes.getD address { name := [] }
  size := predefinedNames.length
  types := predefinedNames.zipIdx

/-- `Type::name`. -/
def nameOf (s : Register V) : TypePtr → Str
  | .object address => (s.objects address).name
  | .array component => s.nameOf component ++ str "[]"
  | .arrayBelow component _ => s.nameOf component ++ str "[]"

/-- `Type::parentType`. -/
def parentOf (s : Register V) : TypePtr → Option TypePtr
  | .object address => (s.objects address).parent.map .object
  | .array _ => none
  | .arrayBelow _ parent => some parent

/-- A change of an object. -/
def modify (s : Register V) (address : ℕ) (f : TypeObject V → TypeObject V) : Register V :=
  { s with objects := Function.update s.objects address (f (s.objects address)) }

/-- A new object of a name, and `_types[name]` set to it. -/
def addType (s : Register V) (name : Str) (placeholder : Bool) : Register V :=
  { s with
    objects := Function.update s.objects s.size { name := name, placeholder := placeholder }
    size := s.size + 1
    types := insert name s.size s.types }

theorem addType_of_ne (s : Register V) {name : Str} {placeholder : Bool} {a : ℕ} (ne : a ≠ s.size) :
    (s.addType name placeholder).objects a = s.objects a := Function.update_of_ne ne _ _

theorem addType_self (s : Register V) (name : Str) (placeholder : Bool) :
    (s.addType name placeholder).objects s.size = { name := name, placeholder := placeholder } :=
  Function.update_self _ _ _

theorem lookup_addType (s : Register V) (name n : Str) (placeholder : Bool) :
    lookup n (s.addType name placeholder).types = if name = n then some s.size else lookup n s.types :=
  lookup_insert _ _ _ _

theorem modify_of_ne (s : Register V) {address a : ℕ} (f : TypeObject V → TypeObject V) (ne : a ≠ address) :
    (s.modify address f).objects a = s.objects a := Function.update_of_ne ne _ _

theorem modify_self (s : Register V) (address : ℕ) (f : TypeObject V → TypeObject V) :
    (s.modify address f).objects address = f (s.objects address) := Function.update_self _ _ _

/-- `mkptr<ArrayType>(component)`, which makes the array type of the parent first, at most `n` times; where
    that does not end the constructor does not return. -/
def newArray (s : Register V) : ℕ → TypePtr → Except Failure TypePtr
  | 0, _ => .error .endless
  | n + 1, component =>
      match s.parentOf component with
      | none => .ok (.array component)
      | some parent => (s.newArray n parent).map (.arrayBelow component)

/-- `Register::getType`, which takes off `[]` at most `n` times. -/
def getTypeIn (s : Register V) : ℕ → Str → Except Failure (Option TypePtr)
  | 0, name => .ok ((lookup name s.types).map .object)
  | n + 1, name =>
      match componentName name with
      | none => .ok ((lookup name s.types).map .object)
      | some component =>
          match s.getTypeIn n component with
          | .error e => .error e
          | .ok none => .ok none
          | .ok (some type) => (s.newArray (s.size + 1) type).map some

/-- `Register::getType`. -/
def getType (s : Register V) (name : Str) : Except Failure (Option TypePtr) :=
  s.getTypeIn name.length name

end Register

end Experimaestro.Definitions

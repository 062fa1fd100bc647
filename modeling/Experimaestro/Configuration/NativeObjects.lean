/-
Module: Experimaestro.Configuration.NativeObjects
Layer: Configuration
Purpose: The objects of a C++ program that are made for a value: each map gets an object of the class that is registered
  for its type, and each child is assigned to the member of its name, the one of the nearest class. The objects mirror
  the value: what a member at a path holds is what the value has there, converted to the type of the member.
Imports: Experimaestro.Configuration.CommandParameters (toScalar), Experimaestro.Configuration.Dependencies (distinct
  keys), Experimaestro.Configuration.Integers (receivers), Experimaestro.Configuration.ParameterFile (induction)
Trusted boundary: human-reviewed model of src/include/public/xpm/cpp.hpp (assignValue, CppObject::setValue,
  CppRegister), CppRegister::createObject and Value::createObjects
Main exports: Member, Classes, Native, assignValue, createObjects, objects_mirror, created_iff
Open obligations: none
-/
import Mathlib.Tactic.Common
import Experimaestro.Configuration.CommandParameters
import Experimaestro.Configuration.Dependencies
import Experimaestro.Configuration.Integers
import Experimaestro.Configuration.ParameterFile

namespace Experimaestro.Configuration

/-! ### Classes and objects -/

/-- The type of a member, for each of which there is an `assignValue`. -/
inductive Member (C : Type) where
  | string
  | int
  | long
  | bool
  | path
  /-- A shared pointer to an object of a class. -/
  | object (target : C)
deriving DecidableEq

/-- The classes of a program with the types that `CppTypeBuilder` registers for them. -/
structure Classes (Ty C : Type) where
  /-- `CppRegister::constructors`. -/
  constructors : Ty → Option C
  /-- `CppType::type`. -/
  type : C → Ty
  /-- `CppType::_arguments`. -/
  arguments : C → List (Str × Member C)
  parent : C → Option C
  level : C → ℕ
  level_lt : ∀ c p, parent c = some p → level p < level c

/-- What a member holds. An object of no class is a `DefaultCppObject`; the members of an object have been assigned, the
last one first. -/
inductive Native (C : Type) where
  | string (text : Str)
  | integer (value : ℤ)
  | boolean (value : Bool)
  | path (text : Str)
  | object (made : Option C) (members : List ((C × Str) × Native C))

/-- An exception, or what is not defined. -/
inductive ObjectError where
  | argumentError (message : Str)
  | castError
  /-- A null pointer is followed. -/
  | nullPointer
deriving DecidableEq, Repr

section

variable {Ty C Job : Type} (classes : Classes Ty C)

namespace Classes

/-- A class and its ancestors, at most `n` of them. -/
def chainOf : ℕ → C → List C
  | 0, _ => []
  | n + 1, c =>
      c :: match classes.parent c with
        | some p => chainOf n p
        | none => []

/-- A class and its ancestors. -/
def chain (c : C) : List C := classes.chainOf (classes.level c + 1) c

/-- The member that `CppObject::setValue` assigns, with its class: the nearest one that has the name. -/
def setter (c : C) (name : Str) : Option (C × Member C) :=
  (classes.chain c).findSome? fun owner => (lookup name (classes.arguments owner)).map fun m => (owner, m)

/-- The class of the objects for a type. -/
def classOf : TypeRef Ty → Option C
  | .base t => classes.constructors t
  | .array _ => none

/-- The member of the objects for a type that has the name. -/
def setterOf (type : TypeRef Ty) (name : Str) : Option (C × Member C) :=
  (classes.classOf type).bind fun c => classes.setter c name

end Classes

/-! ### Assigning members -/

variable [DecidableEq C] (types : Types Ty Job) (conversions : Conversions)

/-- The conversion of a scalar to the type of a member. -/
def Member.convert (s : Scalar) : Member C → Option (Native C)
  | .string => (s.asString conversions).map .string
  | .int => (receive conversions .int s).map .integer
  | .long => (receive conversions .long s).map .integer
  | .bool => s.asBoolean.map .boolean
  | .path => s.asPath.map .path
  | .object _ => none

/-- `assignValue` of a scalar. -/
def scalarMember (s : Scalar) (m : Member C) : Except ObjectError (Native C) :=
  if s = .unset then .error (.argumentError (str "Cannot convert value : value undefined"))
  else
    match m.convert conversions s with
    | some n => .ok n
    | none => .error .castError

/-- `dynamic_pointer_cast`: the object is one of the class. -/
def Native.isA (target : C) : Native C → Bool
  | .object (some c) _ => (classes.chain c).contains target
  | _ => false

/-- The message of an object of another class. -/
def expectedMessage (target : C) (v : Value Ty Job) : Str :=
  str "Expected type(" ++ types.name (classes.type target) ++ str ") but got type(" ++ types.nameOf (v.type types) ++
    str ")"

/-- `assignValue`, where the value has the object; without a result, the member is left as it is. -/
def assignValue (v : Value Ty Job) (created : Option (Native C)) : Member C → Except ObjectError (Option (Native C))
  | .object target =>
      if v.isNull then .ok none
      else if v.isMap then
        match created.filter (Native.isA classes target) with
        | some o => .ok (some o)
        | none => .error (.argumentError (expectedMessage classes types target v))
      else .error (.argumentError (str "Cannot cast to Map"))
  | m =>
      match v with
      | .scalar _ s => (scalarMember conversions s m).map some
      | _ => .error .nullPointer

/-- A member is assigned, or left as it is. -/
def Native.store (key : C × Str) (assigned : Option (Native C)) : Native C → Native C
  | .object made members => .object made ((assigned.map fun n => (key, n)).toList ++ members)
  | other => other

/-- `setValue`, of `CppObject` and of `DefaultCppObject`. -/
def Native.setValue (o : Native C) (name : Str) (v : Value Ty Job) (created : Option (Native C)) :
    Except ObjectError (Native C) :=
  match o with
  | .object (some c) members =>
      match classes.setter c name with
      | some (owner, m) =>
          (assignValue classes types conversions v created m).map fun assigned =>
            Native.store (owner, name) assigned (.object (some c) members)
      | none => .ok (.object (some c) members)
  | other => .ok other

/-- The loop of `MapValue::createObjects` over the children, each with its object. -/
def Native.setValues : List (Str × Value Ty Job × Option (Native C)) → Native C → Except ObjectError (Native C)
  | [], o => .ok o
  | (name, v, created) :: rest, o => do setValues rest (← o.setValue classes types conversions name v created)

/-! ### Creating objects -/

/-- `CppRegister::createObject`. -/
def createObject (type : TypeRef Ty) : Native C := .object (classes.classOf type) []

mutual

/-- `createObjects`; only a map has an object. -/
def createObjects : Value Ty Job → Except ObjectError (Option (Native C))
  | .scalar _ _ => .ok none
  | .array _ _ elements => (createElementObjects elements).map fun _ => none
  | .map _ type _ _ children => do
      let entries ← createChildObjects children
      (Native.setValues classes types conversions entries (createObject classes type)).map some

def createElementObjects : List (Value Ty Job) → Except ObjectError Unit
  | [] => .ok ()
  | element :: rest => do
      let _ ← createObjects element
      createElementObjects rest

/-- The children with their objects. -/
def createChildObjects : List (Str × Value Ty Job) → Except ObjectError (List (Str × Value Ty Job × Option (Native C)))
  | [] => .ok []
  | (name, child) :: rest => do
      let created ← createObjects child
      (createChildObjects rest).map ((name, child, created) :: ·)

end

end

section

variable {Ty C Job : Type} [DecidableEq C] {classes : Classes Ty C} {types : Types Ty Job} {conversions : Conversions}

/-! ### Reading members and values -/

variable (classes) in
/-- What the member of a name holds. -/
def Native.member (name : Str) : Native C → Option (Native C)
  | .object (some c) members => (classes.setter c name).bind fun found => members.lookup (found.1, name)
  | _ => none

variable (classes) in
/-- What is found when members are followed. -/
def Native.get : List Str → Native C → Option (Native C)
  | [], o => some o
  | name :: rest, o => (o.member classes name).bind (get rest)

variable (classes) in
/-- The child that a member of the object of a map stands for. -/
def memberValue (name : Str) : Value Ty Job → Option (Member C × Value Ty Job)
  | .map _ type _ _ children =>
      (classes.setterOf type name).bind fun found => (lookup name children).map fun child => (found.2, child)
  | _ => none

variable (classes types conversions) in
/-- The object of a value that has one. -/
def createdObject (v : Value Ty Job) : Option (Native C) := (createObjects classes types conversions v).toOption.join

variable (classes types conversions) in
/-- What members should hold: the path leads from map to map by members that are pointers, to an object or to a
scalar. -/
def imageAt : List Str → Value Ty Job → Option (Native C)
  | [], v => createdObject classes types conversions v
  | name :: rest, v =>
      (memberValue classes name v).bind fun found =>
        match found.1 with
        | .object _ => imageAt rest found.2
        | m => if rest = [] then found.2.toScalar.bind fun s => (scalarMember conversions s m).toOption else none

/-! ### The loop over the children -/

theorem Native.member_store {c : C} {members : List ((C × Str) × Native C)} {name : Str} {found : C × Member C}
    (sets : classes.setter c name = some found) (assigned : Option (Native C)) (other : Str) :
    (Native.store (found.1, name) assigned (.object (some c) members)).member classes other =
      if name = other then assigned.or ((Native.object (some c) members).member classes other)
      else (Native.object (some c) members).member classes other := by
  cases assigned with
  | none => rw [Native.store, Option.map_none, Option.toList_none, List.nil_append, Option.none_or, ite_self]
  | some n =>
      rw [Native.store, Option.map_some, Option.toList_some, List.singleton_append, Native.member, Native.member]
      by_cases same : name = other
      · subst same
        simp [sets]
      · rw [if_neg same]
        cases classes.setter c other with
        | none => rfl
        | some found' =>
            have differ : ((found'.1, other) == (found.1, name)) = false := by simp [Ne.symm same]
            simp only [Option.bind_some, List.lookup_cons, differ]

theorem Native.setValue_eq_ok {c : C} {members : List ((C × Str) × Native C)} {o : Native C} {name : Str}
    {v : Value Ty Job} {created : Option (Native C)} :
    (Native.object (some c) members).setValue classes types conversions name v created = .ok o ↔
      (classes.setter c name = none ∧ o = .object (some c) members) ∨
        ∃ found assigned, classes.setter c name = some found ∧
          assignValue classes types conversions v created found.2 = .ok assigned ∧
            o = Native.store (found.1, name) assigned (.object (some c) members) := by
  rw [Native.setValue]
  cases classes.setter c name with
  | none => simp [eq_comm]
  | some found =>
      simp only [except_map_eq_ok]
      constructor
      · rintro ⟨assigned, ok, rfl⟩
        exact Or.inr ⟨found, assigned, rfl, ok, rfl⟩
      · rintro (⟨missing, _⟩ | ⟨found, assigned, same, ok, rfl⟩)
        · cases missing
        · cases same
          exact ⟨assigned, ok, rfl⟩

/-- The members after the loop over children with different names. -/
theorem Native.setValues_ok {c : C} {entries : List (Str × Value Ty Job × Option (Native C))} {o : Native C}
    (distinct : (entries.map Prod.fst).Nodup) :
    ∀ {members : List ((C × Str) × Native C)},
      Native.setValues classes types conversions entries (.object (some c) members) = .ok o →
        (∃ members', o = .object (some c) members') ∧
          ∀ name, o.member classes name =
            ((lookup name entries).bind fun entry => (classes.setter c name).bind fun found =>
              (assignValue classes types conversions entry.1 entry.2 found.2).toOption.join).or
                ((Native.object (some c) members).member classes name) := by
  induction entries with
  | nil =>
      intro members done
      cases done
      exact ⟨⟨members, rfl⟩, fun name => rfl⟩
  | cons entry rest ih =>
      obtain ⟨name, v, created⟩ := entry
      intro members done
      rw [List.map_cons, List.nodup_cons] at distinct
      obtain ⟨fresh, distinct⟩ := distinct
      rw [Native.setValues, bind_eq_ok] at done
      obtain ⟨between, first, others⟩ := done
      have later : lookup name rest = none := lookup_eq_none_of_not_mem fresh
      rcases Native.setValue_eq_ok.mp first with ⟨missing, rfl⟩ | ⟨found, assigned, sets, ok, rfl⟩
      · obtain ⟨shape, values⟩ := ih distinct others
        refine ⟨shape, fun other => ?_⟩
        rw [values other, lookup]
        by_cases same : name = other
        · subst same
          rw [later, if_pos rfl, missing]
          rfl
        · rw [if_neg same]
      · obtain ⟨shape, values⟩ := ih distinct others
        refine ⟨shape, fun other => ?_⟩
        rw [values other, lookup]
        have stored : (Native.store (found.1, name) assigned (.object (some c) members)).member classes other = _ :=
          Native.member_store sets assigned other
        rw [Native.store] at stored
        rw [stored]
        by_cases same : name = other
        · subst same
          rw [later, if_pos rfl, if_pos rfl, sets, Option.bind_none, Option.none_or, Option.bind_some, Option.bind_some,
            ok]
          rfl
        · rw [if_neg same, if_neg same]

/-- The loop goes through exactly if each child can be assigned. -/
theorem Native.setValues_isOk {c : C} {entries : List (Str × Value Ty Job × Option (Native C))} :
    ∀ {members : List ((C × Str) × Native C)},
      (∃ o, Native.setValues classes types conversions entries (.object (some c) members) = .ok o) ↔
        ∀ entry ∈ entries, ∀ found, classes.setter c entry.1 = some found →
          ∃ assigned, assignValue classes types conversions entry.2.1 entry.2.2 found.2 = .ok assigned := by
  induction entries with
  | nil => simp [Native.setValues]
  | cons entry rest ih =>
      obtain ⟨name, v, created⟩ := entry
      intro members
      rw [List.forall_mem_cons]
      constructor
      · rintro ⟨o, done⟩
        rw [Native.setValues, bind_eq_ok] at done
        obtain ⟨between, first, others⟩ := done
        rcases Native.setValue_eq_ok.mp first with ⟨missing, rfl⟩ | ⟨found, assigned, sets, ok, rfl⟩
        · refine ⟨fun found sets => ?_, ih.mp ⟨o, others⟩⟩
          cases missing.symm.trans sets
        · refine ⟨fun found' sets' => ?_, ih.mp ⟨o, others⟩⟩
          cases sets.symm.trans sets'
          exact ⟨assigned, ok⟩
      · rintro ⟨first, others⟩
        simp only [Native.setValues, bind_eq_ok]
        cases sets : classes.setter c name with
        | none =>
            obtain ⟨o, done⟩ := ih.mpr others
            exact ⟨o, _, Native.setValue_eq_ok.mpr (Or.inl ⟨sets, rfl⟩), done⟩
        | some found =>
            obtain ⟨assigned, ok⟩ := first found sets
            obtain ⟨o, done⟩ := ih.mpr others
            exact ⟨o, _, Native.setValue_eq_ok.mpr (Or.inr ⟨found, assigned, sets, ok, rfl⟩), done⟩

/-- A `DefaultCppObject` takes no value. -/
theorem Native.setValues_default (entries : List (Str × Value Ty Job × Option (Native C)))
    (members : List ((C × Str) × Native C)) :
    Native.setValues classes types conversions entries (.object none members) = .ok (.object none members) := by
  induction entries with
  | nil => rfl
  | cons entry rest ih => exact ih

/-! ### Creation level by level -/

theorem createElementObjects_eq_ok {elements : List (Value Ty Job)} :
    createElementObjects classes types conversions elements = .ok () ↔
      ∀ e ∈ elements, ∃ o, createObjects classes types conversions e = .ok o := by
  induction elements with
  | nil => simp [createElementObjects]
  | cons element rest ih =>
      rw [createElementObjects, List.forall_mem_cons, ← ih]
      cases createObjects classes types conversions element <;> simp [bind, Except.bind]

theorem createChildObjects_eq_ok {children : List (Str × Value Ty Job)} :
    ∀ {entries : List (Str × Value Ty Job × Option (Native C))},
      createChildObjects classes types conversions children = .ok entries ↔
        (∀ entry ∈ children, ∃ o, createObjects classes types conversions entry.2 = .ok o) ∧
          entries = children.map fun entry => (entry.1, entry.2, createdObject classes types conversions entry.2) := by
  induction children with
  | nil => simp [createChildObjects, eq_comm]
  | cons entry rest ih =>
      obtain ⟨name, child⟩ := entry
      intro entries
      rw [createChildObjects, bind_eq_ok, List.forall_mem_cons]
      simp only [except_map_eq_ok, ih]
      constructor
      · rintro ⟨o, created, _, ⟨others, rfl⟩, rfl⟩
        refine ⟨⟨⟨o, created⟩, others⟩, ?_⟩
        rw [List.map_cons, createdObject, created]
        rfl
      · rintro ⟨⟨⟨o, created⟩, others⟩, rfl⟩
        refine ⟨o, created, _, ⟨others, rfl⟩, ?_⟩
        rw [List.map_cons, createdObject, created]
        rfl

theorem lookup_map_snd {α β : Type} (f : α → β) (name : Str) (entries : List (Str × α)) :
    lookup name (entries.map fun entry => (entry.1, f entry.2)) = (lookup name entries).map f := by
  induction entries with
  | nil => rfl
  | cons entry rest ih =>
      rw [List.map_cons, lookup, lookup, ih]
      split <;> rfl

/-- The object of a map: its class, and what its members hold. -/
theorem createObjects_map {flags : Flags} {type : TypeRef Ty} {task : Option Str} {job : Option Job}
    {children : List (Str × Value Ty Job)} {o : Option (Native C)} (distinct : (children.map Prod.fst).Nodup)
    (created : createObjects classes types conversions (.map flags type task job children) = .ok o) :
    (∀ entry ∈ children, ∃ o, createObjects classes types conversions entry.2 = .ok o) ∧
      ∃ members, o = some (.object (classes.classOf type) members) ∧
        (∀ name, memberValue classes name (.map flags type task job children) = none →
          (Native.object (classes.classOf type) members).member classes name = none) ∧
        ∀ name found, memberValue classes name (.map flags type task job children) = some found →
          assignValue classes types conversions found.2 (createdObject classes types conversions found.2) found.1 =
            .ok ((Native.object (classes.classOf type) members).member classes name) := by
  rw [createObjects, bind_eq_ok] at created
  obtain ⟨entries, below, loop⟩ := created
  obtain ⟨each, rfl⟩ := createChildObjects_eq_ok.mp below
  obtain ⟨n, done, rfl⟩ := except_map_eq_ok.mp loop
  refine ⟨each, ?_⟩
  rw [createObject] at done
  cases made : classes.classOf type with
  | none =>
      rw [made, Native.setValues_default] at done
      cases done
      refine ⟨[], rfl, fun name _ => rfl, fun name found is => ?_⟩
      rw [memberValue, Classes.setterOf, made] at is
      cases is
  | some c =>
      rw [made] at done
      have names : (children.map fun entry =>
          (entry.1, entry.2, createdObject classes types conversions entry.2)).map Prod.fst =
            children.map Prod.fst := by
        rw [List.map_map]
        rfl
      obtain ⟨⟨members, rfl⟩, values⟩ := Native.setValues_ok (names ▸ distinct) done
      have fresh (name : Str) : (Native.object (some c) []).member classes name = none := by
        cases sets : classes.setter c name <;> simp [Native.member, sets]
      simp only [memberValue, Classes.setterOf, made, Option.bind_some]
      refine ⟨members, rfl, fun name is => ?_, fun name found is => ?_⟩
      · rw [values name, lookup_map_snd (fun child => (child, createdObject classes types conversions child)), fresh]
        cases sets : classes.setter c name with
        | none => simp
        | some found =>
            rw [sets, Option.bind_some, Option.map_eq_none_iff] at is
            rw [is]
            rfl
      · obtain ⟨setting, sets, is⟩ := Option.bind_eq_some_iff.mp is
        obtain ⟨child, stored, rfl⟩ := Option.map_eq_some_iff.mp is
        have taken := Native.setValues_isOk.mp ⟨_, done⟩
          (name, child, createdObject classes types conversions child)
          (List.mem_map.mpr ⟨(name, child), mem_of_lookup stored, rfl⟩) setting sets
        obtain ⟨assigned, ok⟩ := taken
        rw [values name, lookup_map_snd (fun child => (child, createdObject classes types conversions child)), fresh,
          stored, Option.or_none, Option.map_some, Option.bind_some, sets, Option.bind_some, ok]
        rfl

/-! ### The objects mirror the value -/

omit [DecidableEq C] in
theorem memberValue_map {name : Str} {v : Value Ty Job} {found : Member C × Value Ty Job}
    (is : memberValue classes name v = some found) : v.child (.key name) = some found.2 := by
  cases v with
  | map flags type task job children =>
      obtain ⟨setting, _, is⟩ := Option.bind_eq_some_iff.mp is
      obtain ⟨child, stored, rfl⟩ := Option.map_eq_some_iff.mp is
      exact stored
  | _ => cases is

theorem Keyed.child {v c : Value Ty Job} {s : Selector} (keyed : Keyed v) (found : v.child s = some c) : Keyed c := by
  cases keyed with
  | scalar => cases s <;> cases found
  | array each =>
      cases s with
      | key name => cases found
      | index i => exact each c (List.mem_of_getElem? found)
  | map distinct each =>
      cases s with
      | key name => exact each (name, c) (mem_of_lookup found)
      | index i => cases found

theorem createObjects_some {v : Value Ty Job} {o : Native C}
    (created : createObjects classes types conversions v = .ok (some o)) :
    ∃ flags type task job children, v = .map flags type task job children := by
  cases v with
  | scalar flags s => cases created
  | array flags ctype elements =>
      rw [createObjects] at created
      obtain ⟨_, _, same⟩ := except_map_eq_ok.mp created
      cases same
  | map flags type task job children => exact ⟨_, _, _, _, _, rfl⟩

theorem createdObject_eq_some {v : Value Ty Job} {o : Native C} :
    createdObject classes types conversions v = some o ↔ createObjects classes types conversions v = .ok (some o) := by
  rw [createdObject]
  cases createObjects classes types conversions v with
  | error e => simp [Except.toOption]
  | ok o' => cases o' <;> simp [Except.toOption]

omit [DecidableEq C] in
theorem scalarMember_eq_ok {s : Scalar} {m : Member C} {n : Native C} :
    scalarMember conversions s m = .ok n ↔ s ≠ .unset ∧ m.convert conversions s = some n := by
  rw [scalarMember]
  split
  case isTrue unset => simp [unset]
  case isFalse set =>
      cases m.convert conversions s with
      | none => simp
      | some n' => simp [set]

/-- What is assigned from a scalar has no members. -/
theorem scalarMember_leaf {s : Scalar} {m : Member C} {n : Native C} (ok : scalarMember conversions s m = .ok n)
    (name : Str) : n.member classes name = none := by
  obtain ⟨_, converted⟩ := scalarMember_eq_ok.mp ok
  cases m with
  | object target => cases converted
  | _ =>
      obtain ⟨_, _, rfl⟩ := Option.map_eq_some_iff.mp converted
      rfl

/-- A null, or a map with an object of the class, is assigned to a pointer. -/
theorem assignValue_object {v : Value Ty Job} {created assigned : Option (Native C)} {target : C} :
    assignValue classes types conversions v created (.object target) = .ok assigned ↔
      (v.isNull = true ∧ assigned = none) ∨
        (v.isNull = false ∧ v.isMap = true ∧
          ∃ o, created = some o ∧ o.isA classes target = true ∧ assigned = some o) := by
  rw [assignValue]
  cases null : v.isNull with
  | true => simp [eq_comm (a := assigned)]
  | false =>
      cases isMap : v.isMap with
      | false => simp
      | true =>
          cases created with
          | none => simp
          | some o => cases is : o.isA classes target <;> simp [Option.filter, is, eq_comm (a := assigned)]

/-- A scalar is assigned to any other member. -/
theorem assignValue_scalar {v : Value Ty Job} {created assigned : Option (Native C)} {m : Member C}
    (plain : ∀ target, m ≠ .object target) :
    assignValue classes types conversions v created m = .ok assigned ↔
      ∃ s n, v.toScalar = some s ∧ scalarMember conversions s m = .ok n ∧ assigned = some n := by
  cases m with
  | object target => exact absurd rfl (plain target)
  | _ => cases v <;> simp [assignValue, Value.toScalar, except_map_eq_ok, eq_comm (a := assigned)]

theorem imageAt_null {v : Value Ty Job} (null : v.isNull = true) (path : List Str) :
    imageAt classes types conversions path v = none := by
  cases v with
  | scalar flags s => cases path <;> rfl
  | array flags ctype elements => cases null
  | map flags type task job children => cases null

/-- Following members from the object of a value, one finds what the value has at the path. -/
theorem objects_mirror {v : Value Ty Job} {o : Native C} (keyed : Keyed v)
    (created : createObjects classes types conversions v = .ok (some o)) (path : List Str) :
    o.get classes path = imageAt classes types conversions path v := by
  induction path generalizing v o with
  | nil =>
      rw [Native.get, imageAt, createdObject, created]
      rfl
  | cons name rest ih =>
      obtain ⟨flags, type, task, job, children, rfl⟩ := createObjects_some created
      have distinct : (children.map Prod.fst).Nodup := by
        cases keyed with
        | map distinct each => exact distinct
      obtain ⟨each, members, same, missing, present⟩ := createObjects_map distinct created
      cases same
      rw [Native.get, imageAt]
      cases is : memberValue classes name (.map flags type task job children) with
      | none => rw [missing name is, Option.bind_none, Option.bind_none]
      | some found =>
          obtain ⟨m, child⟩ := found
          have assigned := present name _ is
          have keyed' : Keyed child := keyed.child (memberValue_map is)
          rw [Option.bind_some]
          cases m with
          | object target =>
              rcases assignValue_object.mp assigned with ⟨null, nothing⟩ | ⟨_, _, o', made, _, holds⟩
              · rw [nothing, imageAt_null null, Option.bind_none]
              · rw [holds, Option.bind_some]
                exact ih keyed' (createdObject_eq_some.mp made)
          | _ =>
              obtain ⟨s, n, scalar, converted, holds⟩ := (assignValue_scalar (by simp)).mp assigned
              dsimp only at scalar converted
              rw [holds, Option.bind_some]
              dsimp only
              rw [scalar, Option.bind_some, converted]
              cases rest with
              | nil => rfl
              | cons next rest => rw [Native.get, scalarMember_leaf converted, if_neg (by simp), Option.bind_none]

/-! ### When objects can be created -/

variable (classes types conversions) in
/-- A value that a member can take: for a pointer null or a map whose objects are of the class, otherwise a scalar that
is converted. -/
def Assignable (m : Member C) (v : Value Ty Job) : Prop :=
  match m with
  | .object target =>
      v.isNull = true ∨
        (v.isMap = true ∧ ∃ c, classes.classOf (v.type types) = some c ∧ target ∈ classes.chain c)
  | m => ∃ s n, v.toScalar = some s ∧ scalarMember conversions s m = .ok n

theorem assignable_iff {m : Member C} {v : Value Ty Job} (keyed : Keyed v)
    (ok : ∃ o, createObjects classes types conversions v = .ok o) :
    (∃ assigned, assignValue classes types conversions v (createdObject classes types conversions v) m = .ok assigned) ↔
      Assignable classes types conversions m v := by
  cases m with
  | object target =>
      simp only [assignValue_object, Assignable]
      cases v with
      | scalar flags s => simp [Value.isMap]
      | array flags ctype elements => simp [Value.isMap]
      | map flags type task job children =>
          have distinct : (children.map Prod.fst).Nodup := by
            cases keyed with
            | map distinct each => exact distinct
          obtain ⟨o, created⟩ := ok
          obtain ⟨_, members, rfl, _⟩ := createObjects_map distinct created
          rw [createdObject_eq_some.mpr created]
          have notNull : (Value.map flags type task job children).isNull = false := rfl
          have isMap : (Value.map flags type task job children).isMap = true := rfl
          have typed : (Value.map flags type task job children).type types = type := rfl
          simp only [notNull, isMap, typed, true_and, Bool.false_eq_true, false_and, false_or, Option.some.injEq]
          cases made : classes.classOf type with
          | none => simp [Native.isA]
          | some c => simp [Native.isA]
  | _ => simp [assignValue_scalar, Assignable]

/-- Objects of the children, and the members of the object. -/
theorem created_step {v : Value Ty Job} (keyed : Keyed v) :
    (∃ o, createObjects classes types conversions v = .ok o) ↔
      (∀ s c, v.child s = some c → ∃ o, createObjects classes types conversions c = .ok o) ∧
        ∀ name found, memberValue classes name v = some found →
          Assignable classes types conversions found.1 found.2 := by
  cases v with
  | scalar flags s =>
      refine iff_of_true ⟨none, rfl⟩ ⟨fun s c found => ?_, fun name found is => ?_⟩
      · cases s <;> cases found
      · cases is
  | array flags ctype elements =>
      simp only [createObjects, except_map_eq_ok]
      constructor
      · rintro ⟨_, _, created, _⟩
        refine ⟨fun s c found => ?_, fun name found is => ?_⟩
        · cases s with
          | key name => cases found
          | index i => exact createElementObjects_eq_ok.mp created c (List.mem_of_getElem? found)
        · cases is
      · rintro ⟨each, _⟩
        refine ⟨none, (), createElementObjects_eq_ok.mpr fun e member => ?_, rfl⟩
        obtain ⟨i, found⟩ := List.mem_iff_getElem?.mp member
        exact each (.index i) e found
  | map flags type task job children =>
      have distinct : (children.map Prod.fst).Nodup := by
        cases keyed with
        | map distinct each => exact distinct
      constructor
      · rintro ⟨o, created⟩
        obtain ⟨each, members, rfl, _, present⟩ := createObjects_map distinct created
        refine ⟨fun s c found => ?_, fun name found is => ?_⟩
        · cases s with
          | index i => cases found
          | key name => exact each (name, c) (mem_of_lookup found)
        · have there := memberValue_map is
          apply (assignable_iff (keyed.child there) (each (name, found.2) (mem_of_lookup there))).mp
          exact ⟨_, present name found is⟩
      · rintro ⟨below, fits⟩
        have each (entry : Str × Value Ty Job) (member : entry ∈ children) :
            ∃ o, createObjects classes types conversions entry.2 = .ok o :=
          below (.key entry.1) entry.2 (lookup_of_mem distinct member)
        have objects := createChildObjects_eq_ok.mpr ⟨each, rfl⟩
        have loop : ∃ n, Native.setValues classes types conversions
            (children.map fun entry => (entry.1, entry.2, createdObject classes types conversions entry.2))
            (createObject classes type) = .ok n := by
          rw [createObject]
          cases made : classes.classOf type with
          | none => exact ⟨_, Native.setValues_default _ _⟩
          | some c =>
              apply Native.setValues_isOk.mpr
              intro entry member setting sets
              obtain ⟨⟨name, child⟩, inside, rfl⟩ := List.mem_map.mp member
              have is : memberValue classes name (.map flags type task job children) = some (setting.2, child) := by
                rw [memberValue, Classes.setterOf, made, Option.bind_some, sets, Option.bind_some,
                  lookup_of_mem distinct inside]
                rfl
              have keyed' : Keyed child := keyed.child (memberValue_map is)
              exact (assignable_iff keyed' (each _ inside)).mpr (fits name _ is)
        obtain ⟨n, done⟩ := loop
        rw [createObjects]
        exact ⟨some n, bind_eq_ok.mpr ⟨_, objects, except_map_eq_ok.mpr ⟨n, done, rfl⟩⟩⟩

omit [DecidableEq C] in
/-- A property that passes from the children to a value holds of all values. -/
theorem Value.child_induction {holds : Value Ty Job → Prop}
    (step : ∀ v : Value Ty Job, (∀ s c, v.child s = some c → holds c) → holds v) (v : Value Ty Job) : holds v := by
  have hereditary : Hereditary holds := by
    constructor
    · intro flags s
      apply step
      intro selector c found
      cases selector <;> cases found
    · intro flags ctype elements each
      apply step
      intro selector c found
      cases selector with
      | key name => cases found
      | index i => exact each c (List.mem_of_getElem? found)
    · intro flags type task job children each
      apply step
      intro selector c found
      cases selector with
      | index i => cases found
      | key name => exact each name c found
  exact hereditary.value v

/-- Objects are created exactly if everywhere in the value each member can take its child. -/
theorem created_iff {v : Value Ty Job} (keyed : Keyed v) :
    (∃ o, createObjects classes types conversions v = .ok o) ↔
      ∀ way target, v.descend way = some target → ∀ name found, memberValue classes name target = some found →
        Assignable classes types conversions found.1 found.2 := by
  induction v using Value.child_induction with
  | step v ih =>
      rw [created_step keyed]
      constructor
      · rintro ⟨below, here⟩ way target reached
        cases way with
        | nil =>
            cases reached
            exact here
        | cons s rest =>
            obtain ⟨c, found, others⟩ := Option.bind_eq_some_iff.mp reached
            exact (ih s c found (keyed.child found)).mp (below s c found) rest target others
      · intro all
        refine ⟨fun s c found => (ih s c found (keyed.child found)).mpr fun way target reached => ?_, all [] v rfl⟩
        apply all (s :: way)
        rw [Value.descend, found]
        exact reached

end

end Experimaestro.Configuration

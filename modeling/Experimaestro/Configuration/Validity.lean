/-
Module: Experimaestro.Configuration.Validity
Layer: Configuration
Purpose: What the flag VALIDATED says about a value that is changed afterwards. The flag is truthful when the
  content below it is valid; `validate` keeps it so, and `set` of a map or a scalar does where what is stored
  fits below each validated map that reaches the place through declared arguments.
Imports: Experimaestro.Configuration.GenerationRule, Experimaestro.Configuration.Sealing,
  Experimaestro.Configuration.ValidationErrors, Experimaestro.Library.TransitionSystem
Trusted boundary: human-reviewed model of Value::validate and MapValue::set in Generation and Values, and of
  ScalarValue::set
Main exports: Valid, Truthful, ValidationCall, Permitted, validated_then_changed, validated_content_valid
Open obligations: none
-/
import Mathlib.Tactic.Common
import Experimaestro.Configuration.GenerationRule
import Experimaestro.Configuration.Sealing
import Experimaestro.Configuration.ValidationErrors
import Experimaestro.Library.TransitionSystem

namespace Experimaestro.Configuration

open Value

section

variable {Ty Job : Type} (types : Types Ty Job)

/-! ### Valid content -/

/-- The step goes to an element of an array, or to a declared argument of a map. -/
def StepsTo : Value Ty Job → Selector → Prop
  | .map _ type _ _ _, .key name => ∃ a ∈ types.declarations type, a.name = name
  | .array _ _ _, .index _ => True
  | _, _ => False

/-- A way down through elements and declared arguments. -/
def Live : List Selector → Value Ty Job → Prop
  | [], _ => True
  | s :: rest, v => StepsTo types v s ∧ ∀ c, v.child s = some c → Live rest c

/-- A map has what its hierarchy requires, and nothing of a type that is not accepted. -/
def Complies (v : Value Ty Job) : Prop := ¬ Lacking types v ∧ ∀ key, ¬ Rejected types v key

/-- Every map that is reached through elements and declared arguments complies. -/
def Valid (v : Value Ty Job) : Prop :=
  ∀ way target, Live types way v → v.descend way = some target → Complies types target

/-- What carries VALIDATED is valid. -/
def Truthful (v : Value Ty Job) : Prop :=
  ∀ way target, v.descend way = some target → target.flags.validated = true → Valid types target

/-- An argument is satisfied by what is under its key. -/
def Supplied (a : Argument Ty Job) : Option (Value Ty Job) → Prop
  | none => a.required = false
  | some c => if c.isNull then a.required = false else types.accepts a.type (c.type types) = true

variable {types}

theorem complies_map {flags : Flags} {type : TypeRef Ty} {task : Option Str} {job : Option Job}
    {children : List (Str × Value Ty Job)} :
    Complies types (.map flags type task job children) ↔
      ∀ a ∈ types.declarations type, Supplied types a (lookup a.name children) := by
  constructor
  · rintro ⟨complete, accepted⟩ a declared
    cases given : lookup a.name children with
    | none =>
        apply Bool.eq_false_iff.mpr
        exact fun required => complete (.intro a declared required (Or.inl given))
    | some c =>
        unfold Supplied
        dsimp only
        split
        · rename_i null
          apply Bool.eq_false_iff.mpr
          exact fun required => complete (.intro a declared required (Or.inr ⟨c, given, null⟩))
        · rename_i notNull
          by_contra refused
          exact accepted a.name
            (.intro a c declared given (Bool.eq_false_iff.mpr notNull) (Bool.eq_false_iff.mpr refused))
  · intro supplied
    constructor
    · rintro ⟨a, declared, required, absent⟩
      have here := supplied a declared
      rcases absent with given | ⟨c, given, null⟩
      · rw [given] at here
        exact absurd (required.symm.trans here) (by decide)
      · rw [given, Supplied, if_pos null] at here
        exact absurd (required.symm.trans here) (by decide)
    · rintro _ ⟨a, c, declared, given, notNull, rejected⟩
      have here := supplied a declared
      rw [given, Supplied, if_neg (Bool.eq_false_iff.mp notNull), rejected] at here
      cases here

theorem complies_scalar (flags : Flags) (s : Scalar) : Complies types (.scalar flags s : Value Ty Job) :=
  ⟨nofun, nofun⟩

theorem complies_array (flags : Flags) (ctype : TypeRef Ty) (elements : List (Value Ty Job)) :
    Complies types (.array flags ctype elements) :=
  ⟨nofun, nofun⟩

theorem valid_iff {v : Value Ty Job} :
    Valid types v ↔
      Complies types v ∧ ∀ s c, StepsTo types v s → v.child s = some c → Valid types c := by
  constructor
  · intro valid
    refine ⟨valid [] v trivial rfl, fun s c declared found way target live reached => ?_⟩
    apply valid (s :: way) target
    · refine ⟨declared, fun c' found' => ?_⟩
      rw [found] at found'
      cases found'
      exact live
    · rw [descend, found]
      exact reached
  · rintro ⟨complies, below⟩ way target live reached
    cases way with
    | nil =>
        cases reached
        exact complies
    | cons s rest =>
        obtain ⟨c, found, others⟩ := Option.bind_eq_some_iff.mp reached
        exact below s c live.1 found rest target (live.2 c found) others

theorem Valid.descend {way : List Selector} {v target : Value Ty Job} (valid : Valid types v)
    (live : Live types way v) (reached : v.descend way = some target) : Valid types target := by
  induction way generalizing v with
  | nil =>
      cases reached
      exact valid
  | cons s rest ih =>
      obtain ⟨c, found, others⟩ := Option.bind_eq_some_iff.mp reached
      exact ih ((valid_iff.mp valid).2 s c live.1 found) (live.2 c found) others

theorem valid_scalar (flags : Flags) (s : Scalar) : Valid types (.scalar flags s : Value Ty Job) :=
  valid_iff.mpr ⟨complies_scalar flags s, fun s' _ declared => by cases s' <;> exact declared.elim⟩

theorem valid_of_isNull {v : Value Ty Job} (null : v.isNull = true) : Valid types v := by
  cases v with
  | scalar flags s => exact valid_scalar flags s
  | array flags ctype elements => cases null
  | map flags type task job children => cases null

/-! ### Truthful flags -/

theorem truthful_iff {v : Value Ty Job} :
    Truthful types v ↔
      (v.flags.validated = true → Valid types v) ∧ ∀ s c, v.child s = some c → Truthful types c := by
  constructor
  · intro truthful
    refine ⟨truthful [] v rfl, fun s c found way target reached => truthful (s :: way) target ?_⟩
    rw [descend, found]
    exact reached
  · rintro ⟨self, below⟩ way target reached
    cases way with
    | nil =>
        cases reached
        exact self
    | cons s rest =>
        obtain ⟨c, found, others⟩ := Option.bind_eq_some_iff.mp reached
        exact below s c found rest target others

theorem Truthful.descend {way : List Selector} {v target : Value Ty Job} (truthful : Truthful types v)
    (reached : v.descend way = some target) : Truthful types target := by
  intro below found there
  apply truthful (way ++ below)
  rw [descend_append, reached]
  exact there

/-! ### Flags do not matter for the content -/

theorem isNull_mapFlags (f : Flags → Flags) (v : Value Ty Job) : (v.mapFlags f).isNull = v.isNull := by
  cases v <;> rw [mapFlags] <;> rfl

theorem stepsTo_mapFlags {f : Flags → Flags} {v : Value Ty Job} {s : Selector} :
    StepsTo types (v.mapFlags f) s ↔ StepsTo types v s := by
  cases v <;> rw [mapFlags] <;> cases s <;> rfl

/-- Two values satisfy an argument alike. -/
theorem supplied_map {a : Argument Ty Job} {o : Option (Value Ty Job)} {f : Value Ty Job → Value Ty Job}
    (null : ∀ c, o = some c → (f c).isNull = c.isNull)
    (type : ∀ c, o = some c → (f c).type types = c.type types) :
    Supplied types a (o.map f) ↔ Supplied types a o := by
  cases o with
  | none => rfl
  | some c => rw [Option.map_some, Supplied, Supplied, null c rfl, type c rfl]

theorem complies_mapFlags {f : Flags → Flags} {v : Value Ty Job} :
    Complies types (v.mapFlags f) ↔ Complies types v := by
  cases v with
  | scalar flags s => exact iff_of_true (complies_scalar _ _) (complies_scalar _ _)
  | array flags ctype elements => exact iff_of_true (complies_array _ _ _) (complies_array _ _ _)
  | map flags type task job children =>
      rw [mapFlags, complies_map, complies_map]
      apply forall₂_congr
      intro a _
      rw [lookup_mapFlagsChildren]
      exact supplied_map (fun c _ => isNull_mapFlags f c) (fun c _ => type_mapFlags types f c)

theorem live_mapFlags {f : Flags → Flags} {way : List Selector} {v : Value Ty Job} :
    Live types way (v.mapFlags f) ↔ Live types way v := by
  induction way generalizing v with
  | nil => rfl
  | cons s rest ih =>
      rw [Live, Live, stepsTo_mapFlags, child_mapFlags]
      apply and_congr Iff.rfl
      cases v.child s with
      | none => simp
      | some c => simp [ih]

theorem valid_mapFlags {f : Flags → Flags} {v : Value Ty Job} :
    Valid types (v.mapFlags f) ↔ Valid types v := by
  constructor
  · intro valid way target live reached
    apply complies_mapFlags.mp
    apply valid way (target.mapFlags f) (live_mapFlags.mpr live)
    rw [descend_mapFlags, reached]
    rfl
  · intro valid way target live reached
    rw [descend_mapFlags] at reached
    obtain ⟨target', reached', rfl⟩ := Option.map_eq_some_iff.mp reached
    exact complies_mapFlags.mpr (valid way target' (live_mapFlags.mp live) reached')

theorem valid_of_erase {v w : Value Ty Job} (same : v.erase = w.erase) : Valid types v ↔ Valid types w := by
  rw [← valid_mapFlags, ← valid_mapFlags (v := w)]
  exact iff_of_eq (congrArg (Valid types) same)

/-! ### Validation -/

theorem valid_validate {v : Value Ty Job} : Valid types (validate types v).1 ↔ Valid types v :=
  valid_of_erase (erase_eq_of_core (core_validate types v))

/-- The loop over the arguments has come to its end without an exception. -/
theorem validateArguments_ok {type : TypeRef Ty} {table : List (Str × Value Ty Job × Validated Ty Job)}
    (arguments : List (Argument Ty Job)) :
    ∀ children, (validateArguments types type table arguments children).2 = none →
      ∀ a ∈ arguments, validateArgument types type a (lookup a.name table) = none := by
  induction arguments with
  | nil => exact fun _ _ _ member => nomatch member
  | cons a rest ih =>
      intro children ok b member
      rw [validateArguments] at ok
      split at ok
      case h_1 e thrown => cases ok
      case h_2 passed =>
          rcases List.mem_cons.mp member with rfl | there
          · exact passed
          · exact ih _ ok b there

theorem validateArgument_ok {type : TypeRef Ty} {a : Argument Ty Job} {given : Option (Value Ty Job)}
    (ok : validateArgument types type a (given.map fun c => (c, validate types c)) = none) :
    Supplied types a given ∧ ∀ c, given = some c → c.isNull = true ∨ (validate types c).2 = none := by
  cases given with
  | none =>
      refine ⟨?_, nofun⟩
      rw [Option.map_none, validateArgument] at ok
      split at ok
      · cases ok
      · rename_i optional
        exact Bool.eq_false_iff.mpr optional
  | some c =>
      rw [Option.map_some, validateArgument] at ok
      split at ok
      · rename_i null
        split at ok
        · cases ok
        · rename_i optional
          refine ⟨?_, fun _ same => Or.inl (Option.some.inj same ▸ null)⟩
          rw [Supplied, if_pos null]
          exact Bool.eq_false_iff.mpr optional
      · rename_i notNull
        split at ok
        · cases ok
        · rename_i accepted
          refine ⟨?_, fun _ same => Or.inr (Option.some.inj same ▸ Option.map_eq_none_iff.mp ok)⟩
          rw [Supplied, if_neg notNull]
          simpa using accepted

theorem finishValidation_ok {v : Value Ty Job} {r : Validated Ty Job} (ok : (finishValidation v r).2 = none) :
    v.flags.validated = true ∨ r.2 = none := by
  obtain ⟨after, thrown⟩ := r
  unfold finishValidation at ok
  split at ok
  · rename_i before
    exact Or.inl before
  · cases thrown with
    | none => exact Or.inr rfl
    | some e => cases ok

theorem finishValidation_flagged {v : Value Ty Job} {r : Validated Ty Job} (flagged : v.flags.validated = true) :
    finishValidation v r = (v, none) := by
  unfold finishValidation
  rw [if_pos flagged]

mutual

/-- When `validate` returns and the flags were truthful, the content is valid. -/
theorem valid_of_validate :
    ∀ v : Value Ty Job, Truthful types v → (validate types v).2 = none → Valid types v
  | .scalar flags s, _, _ => valid_scalar flags s
  | .array flags ctype elements, truthful, ok => by
      rw [validate] at ok
      obtain ⟨self, below⟩ := truthful_iff.mp truthful
      rcases finishValidation_ok ok with before | ok
      · exact self before
      · refine valid_iff.mpr ⟨complies_array .., fun s c _ found => ?_⟩
        cases s with
        | key name => cases found
        | index i =>
            exact valid_of_validateElements elements 0 (fun i e given => below (.index i) e given) ok i c found
  | .map flags type task job children, truthful, ok => by
      rw [validate] at ok
      obtain ⟨self, below⟩ := truthful_iff.mp truthful
      rcases finishValidation_ok ok with before | ok
      · exact self before
      · have each (a : Argument Ty Job) (declared : a ∈ types.declarations type) :=
          validateArguments_ok (types.declarations type) children ok a declared
        simp only [lookup_validationTable] at each
        refine valid_iff.mpr ⟨complies_map.mpr fun a declared => (validateArgument_ok (each a declared)).1,
          fun s c declared found => ?_⟩
        cases s with
        | index i => cases found
        | key name =>
            obtain ⟨a, member, rfl⟩ := declared
            rcases (validateArgument_ok (each a member)).2 c found with null | passed
            · exact valid_of_isNull null
            · exact valid_of_validateChildren children a.name c found (below (.key a.name) c found) passed

theorem valid_of_validateElements :
    ∀ (elements : List (Value Ty Job)) (index : ℕ),
      (∀ (i : ℕ) e, elements[i]? = some e → Truthful types e) →
      (validateElements types index elements).2 = none →
        ∀ (i : ℕ) e, elements[i]? = some e → Valid types e
  | [], _, _, _, _, _, given => nomatch given
  | element :: rest, index, truthful, ok, i, e, given => by
      rw [validateElements] at ok
      split at ok
      case h_1 => cases ok
      case h_2 v' passed =>
          cases i with
          | zero =>
              cases given
              exact valid_of_validate element (truthful 0 element rfl) (congrArg Prod.snd passed)
          | succ i =>
              exact valid_of_validateElements rest (index + 1) (fun i e given => truthful (i + 1) e given) ok i e
                given

theorem valid_of_validateChildren :
    ∀ (children : List (Str × Value Ty Job)) (key : Str) (c : Value Ty Job), lookup key children = some c →
      Truthful types c → (validate types c).2 = none → Valid types c
  | [], _, _, given, _, _ => nomatch given
  | (k, v) :: rest, key, c, given, truthful, ok => by
      rw [lookup] at given
      split at given
      · cases given
        exact valid_of_validate v truthful ok
      · exact valid_of_validateChildren rest key c given truthful ok

end

/-- A child after the loop over the arguments is the one before, or that one validated. -/
theorem validateArguments_children {type : TypeRef Ty} {original : List (Str × Value Ty Job)}
    (arguments : List (Argument Ty Job)) :
    ∀ children : List (Str × Value Ty Job),
      (∀ key c', lookup key children = some c' →
        ∃ c, lookup key original = some c ∧ (c' = c ∨ c' = (validate types c).1)) →
      ∀ key c',
        lookup key (validateArguments types type (validationTable types original) arguments children).1 =
            some c' →
          ∃ c, lookup key original = some c ∧ (c' = c ∨ c' = (validate types c).1) := by
  induction arguments with
  | nil => exact fun _ before => before
  | cons a rest ih =>
      intro children before
      obtain ⟨children', step, result⟩ := validateArguments_cons types type original a rest children
      have before' (key : Str) (c' : Value Ty Job) (found : lookup key children' = some c') :
          ∃ c, lookup key original = some c ∧ (c' = c ∨ c' = (validate types c).1) := by
        rcases step with rfl | ⟨c, given, rfl⟩
        · exact before key c' found
        · rw [lookup_adjust] at found
          split at found
          · next here =>
            obtain ⟨_, _, rfl⟩ := Option.map_eq_some_iff.mp found
            exact ⟨c, here ▸ given, Or.inr rfl⟩
          · exact before key c' found
      cases result with
      | inl stops =>
          rw [stops]
          exact before'
      | inr goesOn =>
          rw [goesOn]
          exact ih children' before'

/-- Where a value carries VALIDATED after `validate`, it did before, or `validate` has returned. -/
theorem validated_finish {v : Value Ty Job} {r : Validated Ty Job}
    (flagged : (finishValidation v r).1.flags.validated = true) (kept : r.1.flags = v.flags) :
    v.flags.validated = true ∨ (finishValidation v r).2 = none := by
  obtain ⟨after, thrown⟩ := r
  unfold finishValidation at flagged ⊢
  split
  · rename_i before
    exact Or.inl before
  · rename_i before
    rw [if_neg before] at flagged
    cases thrown with
    | none => exact Or.inr rfl
    | some e =>
        dsimp only at flagged kept
        exact Or.inl (kept ▸ flagged)

theorem child_withFlags (f : Flags → Flags) (v : Value Ty Job) (s : Selector) :
    (v.withFlags f).child s = v.child s := by
  cases v <;> cases s <;> rfl

/-- The children of a value that `validate` has not found validated. -/
theorem child_finish {v : Value Ty Job} {r : Validated Ty Job} (s : Selector) :
    (finishValidation v r).1.child s = v.child s ∨ (finishValidation v r).1.child s = r.1.child s := by
  obtain ⟨after, thrown⟩ := r
  unfold finishValidation
  split
  · exact Or.inl rfl
  · cases thrown with
    | none => exact Or.inr (child_withFlags _ after s)
    | some e => exact Or.inr rfl

mutual

/-- `validate` keeps the flags truthful, with or without an exception. -/
theorem truthful_validate : ∀ v : Value Ty Job, Truthful types v → Truthful types (validate types v).1
  | .scalar flags s, _ => by
      refine truthful_iff.mpr ⟨fun _ => valid_validate.mpr (valid_scalar flags s), fun s' c found => ?_⟩
      rw [validate] at found
      rcases child_finish s' with same | same <;> rw [same] at found <;> cases s' <;> cases found
  | .array flags ctype elements, truthful => by
      obtain ⟨self, below⟩ := truthful_iff.mp truthful
      refine truthful_iff.mpr ⟨fun flagged => valid_validate.mpr ?_, fun s c found => ?_⟩
      · rw [validate] at flagged
        rcases validated_finish flagged rfl with before | ok
        · exact self before
        · exact valid_of_validate _ truthful (by rw [validate]; exact ok)
      · rw [validate] at found
        rcases child_finish s with same | same
        · rw [same] at found
          exact below s c found
        · rw [same] at found
          cases s with
          | key name => cases found
          | index i =>
              exact truthful_validateElements elements 0 (fun i e given => below (.index i) e given) i c found
  | .map flags type task job children, truthful => by
      obtain ⟨self, below⟩ := truthful_iff.mp truthful
      refine truthful_iff.mpr ⟨fun flagged => valid_validate.mpr ?_, fun s c found => ?_⟩
      · rw [validate] at flagged
        rcases validated_finish flagged rfl with before | ok
        · exact self before
        · exact valid_of_validate _ truthful (by rw [validate]; exact ok)
      · rw [validate] at found
        rcases child_finish s with same | same
        · rw [same] at found
          exact below s c found
        · rw [same] at found
          cases s with
          | index i => cases found
          | key name =>
              obtain ⟨c₀, given, rfl | rfl⟩ := validateArguments_children (types.declarations type) children
                (fun key c' given => ⟨c', given, Or.inl rfl⟩) name c found
              · exact below (.key name) c given
              · exact truthful_validateChildren children name c₀ given (below (.key name) c₀ given)

theorem truthful_validateElements :
    ∀ (elements : List (Value Ty Job)) (index : ℕ),
      (∀ (i : ℕ) e, elements[i]? = some e → Truthful types e) →
      ∀ (i : ℕ) (e : Value Ty Job), (validateElements types index elements).1[i]? = some e → Truthful types e
  | [], _, _, i, _, given => by
      rw [validateElements] at given
      cases given
  | element :: rest, index, truthful, i, e, given => by
      have first := truthful_validate element (truthful 0 element rfl)
      rw [validateElements] at given
      split at given
      case h_1 v' e' passed =>
          rw [passed] at first
          cases i with
          | zero =>
              cases given
              exact first
          | succ i => exact truthful (i + 1) e given
      case h_2 v' passed =>
          rw [passed] at first
          cases i with
          | zero =>
              cases given
              exact first
          | succ i =>
              exact truthful_validateElements rest (index + 1) (fun i e given => truthful (i + 1) e given) i e
                given

theorem truthful_validateChildren :
    ∀ (children : List (Str × Value Ty Job)) (key : Str) (c : Value Ty Job), lookup key children = some c →
      Truthful types c → Truthful types (validate types c).1
  | [], _, _, given, _ => nomatch given
  | (k, v) :: rest, key, c, given, truthful => by
      rw [lookup] at given
      split at given
      · cases given
        exact truthful_validate v truthful
      · exact truthful_validateChildren rest key c given truthful

end

/-! ### Changes at a place -/

variable (types) in
/-- What the map around a value sees of it. -/
structure SameFace (v w : Value Ty Job) : Prop where
  isNull : w.isNull = v.isNull
  type : w.type types = v.type types

theorem sameFace_modifyChild (f : Value Ty Job → Value Ty Job) (s : Selector) (v : Value Ty Job) :
    SameFace types v (v.modifyChild f s) := by
  cases v <;> cases s <;> exact ⟨rfl, rfl⟩

theorem sameFace_modifyAt {f : Value Ty Job → Value Ty Job} (face : ∀ v, SameFace types v (f v))
    (way : List Selector) (v : Value Ty Job) : SameFace types v (v.modifyAt f way) := by
  cases way with
  | nil => exact face v
  | cons s rest => exact sameFace_modifyChild _ s v

theorem flags_modifyAt {f : Value Ty Job → Value Ty Job} (keeps : ∀ v, (f v).flags = v.flags)
    (way : List Selector) (v : Value Ty Job) : (v.modifyAt f way).flags = v.flags := by
  cases way with
  | nil => exact keeps v
  | cons s rest => exact flags_modifyChild _ s v

theorem stepsTo_modifyChild {f : Value Ty Job → Value Ty Job} {s s' : Selector} {v : Value Ty Job} :
    StepsTo types (v.modifyChild f s) s' ↔ StepsTo types v s' := by
  cases v <;> cases s <;> cases s' <;> rfl

theorem complies_modifyChild {f : Value Ty Job → Value Ty Job} (face : ∀ v, SameFace types v (f v))
    {s : Selector} {v : Value Ty Job} (complies : Complies types v) : Complies types (v.modifyChild f s) := by
  cases v with
  | scalar flags value => cases s <;> exact complies
  | array flags ctype elements => cases s <;> exact complies_array ..
  | map flags type task job children =>
      cases s with
      | index i => exact complies
      | key name =>
          refine complies_map.mpr fun a declared => ?_
          rw [lookup_adjust]
          split
          · exact (supplied_map (fun c _ => (face c).isNull) fun c _ => (face c).type).mpr
              (complies_map.mp complies a declared)
          · exact complies_map.mp complies a declared

/-- A valid value stays valid where the changed part is, or is not reached. -/
theorem Valid.modifyAt {f : Value Ty Job → Value Ty Job} (face : ∀ v, SameFace types v (f v))
    {way : List Selector} {v : Value Ty Job} (valid : Valid types v)
    (changed : ∀ target, Live types way v → v.descend way = some target → Valid types (f target)) :
    Valid types (v.modifyAt f way) := by
  induction way generalizing v with
  | nil => exact changed v trivial rfl
  | cons s rest ih =>
      obtain ⟨complies, below⟩ := valid_iff.mp valid
      refine valid_iff.mpr
        ⟨complies_modifyChild (sameFace_modifyAt face rest) complies, fun s' c' declared found => ?_⟩
      rw [Value.modifyAt, stepsTo_modifyChild] at declared
      rw [Value.modifyAt, child_modifyChild] at found
      split at found
      · rename_i here
        subst here
        obtain ⟨c, given, rfl⟩ := Option.map_eq_some_iff.mp found
        apply ih (below s' c declared given)
        intro target live reached
        apply changed target
        · refine ⟨declared, fun c₀ given₀ => ?_⟩
          rw [given] at given₀
          cases given₀
          exact live
        · rw [Value.descend, given]
          exact reached
      · exact below s' c' declared found

/-- Truthful flags stay so where the changed part is truthful, and valid below what carries VALIDATED. -/
theorem Truthful.modifyAt {f : Value Ty Job → Value Ty Job} (face : ∀ v, SameFace types v (f v))
    {way : List Selector} {v : Value Ty Job} (truthful : Truthful types v)
    (there : ∀ target, v.descend way = some target → Truthful types (f target))
    (above : ∀ before rest node, way = before ++ rest → v.descend before = some node →
      node.flags.validated = true →
        ∀ target, Live types rest node → node.descend rest = some target → Valid types (f target)) :
    Truthful types (v.modifyAt f way) := by
  induction way generalizing v with
  | nil => exact there v rfl
  | cons s rest ih =>
      obtain ⟨self, below⟩ := truthful_iff.mp truthful
      refine truthful_iff.mpr ⟨fun flagged => ?_, fun s' c' found => ?_⟩
      · rw [Value.modifyAt, flags_modifyChild] at flagged
        exact (self flagged).modifyAt face (above [] (s :: rest) v rfl rfl flagged)
      · rw [Value.modifyAt, child_modifyChild] at found
        split at found
        · rename_i here
          subst here
          obtain ⟨c, given, rfl⟩ := Option.map_eq_some_iff.mp found
          have down (way : List Selector) : v.descend (s' :: way) = c.descend way := by
            rw [Value.descend, given]
            rfl
          apply ih (below s' c given)
          · exact fun target reached => there target ((down rest).trans reached)
          · intro before rest' node split reached
            exact above (s' :: before) rest' node (by rw [split, List.cons_append]) ((down before).trans reached)
        · exact below s' c' found

theorem descend_modifyAt (f : Value Ty Job → Value Ty Job) (before rest : List Selector) (v : Value Ty Job) :
    (v.modifyAt f (before ++ rest)).descend before = (v.descend before).map fun node => node.modifyAt f rest := by
  induction before generalizing v with
  | nil => rfl
  | cons s before ih =>
      rw [List.cons_append, Value.modifyAt, Value.descend, Value.descend, child_modifyChild, if_pos rfl]
      cases v.child s with
      | none => rfl
      | some c => exact ih c

theorem live_modifyAt {f : Value Ty Job → Value Ty Job} {way : List Selector} {v : Value Ty Job}
    (live : Live types way v) : Live types way (v.modifyAt f way) := by
  induction way generalizing v with
  | nil => trivial
  | cons s rest ih =>
      refine ⟨stepsTo_modifyChild.mpr live.1, fun c' found => ?_⟩
      rw [Value.modifyAt, child_modifyChild, if_pos rfl] at found
      obtain ⟨c, given, rfl⟩ := Option.map_eq_some_iff.mp found
      exact ih (live.2 c given)

/-! ### `set` -/

/-- `set` gets to the point where it stores the value. -/
def Stores (target : Value Ty Job) (key : Str) : Prop :=
  ∃ flags type task job children, target = .map flags type task job children ∧
    flags.isSealed = false ∧ key ∉ restrictedKeys

variable (types) in
/-- A value has its place under a key of a map: for every argument of this name it is not null or the argument
    is optional, its type is accepted, and its content is valid. -/
def Fits : Value Ty Job → Str → Value Ty Job → Prop
  | .map _ type _ _ _, key, value =>
      ∀ a ∈ types.declarations type, a.name = key → Supplied types a (some value) ∧ Valid types value
  | _, _, _ => True

theorem set_refused {target : Value Ty Job} {key : Str} {value : Value Ty Job} (refused : ¬ Stores target key) :
    (target.set types key value).1 = target := by
  rcases set_cases types target key value with same | ⟨flags, type, task, job, children, same, isOpen, free, _⟩
  · exact same
  · exact absurd ⟨flags, type, task, job, children, same, isOpen, free⟩ refused

theorem sameFace_set (key : Str) (value target : Value Ty Job) :
    SameFace types target (target.set types key value).1 := by
  rcases set_cases types target key value with same | ⟨flags, type, task, job, children, rfl, _, _, stored⟩
  · rw [same]
    exact ⟨rfl, rfl⟩
  · rw [stored]
    exact ⟨rfl, rfl⟩

variable (types) in
/-- `set` does not touch VALIDATED in what it stores. -/
theorem exists_marked_validated (type : TypeRef Ty) (key : Str) (value : Value Ty Job) :
    ∃ f : Flags → Flags, marked types type key value = value.withFlags f ∧
      ∀ flags, (f flags).validated = flags.validated := by
  have same : value = value.withFlags id := by cases value <;> rfl
  unfold marked markFor
  cases ownArgument types type key with
  | none => exact ⟨id, same, fun _ => rfl⟩
  | some own =>
      dsimp only
      cases equalsDefault own value with
      | error e => exact ⟨id, same, fun _ => rfl⟩
      | ok isDefault => exact ⟨_, rfl, fun _ => rfl⟩

theorem isNull_withFlags (f : Flags → Flags) (v : Value Ty Job) : (v.withFlags f).isNull = v.isNull := by
  cases v <;> rfl

theorem supplied_withFlags {a : Argument Ty Job} {f : Flags → Flags} {v : Value Ty Job} :
    Supplied types a (some (v.withFlags f)) ↔ Supplied types a (some v) :=
  supplied_map (o := some v) (fun c _ => isNull_withFlags f c) (fun c _ => type_withFlags types f c)

theorem valid_withFlags {f : Flags → Flags} {v : Value Ty Job} :
    Valid types (v.withFlags f) ↔ Valid types v :=
  valid_of_erase (erase_withFlags f v)

theorem truthful_withFlags {f : Flags → Flags} (keeps : ∀ flags, (f flags).validated = flags.validated)
    {v : Value Ty Job} : Truthful types (v.withFlags f) ↔ Truthful types v := by
  rw [truthful_iff, truthful_iff, flags_withFlags, keeps, valid_withFlags]
  simp only [child_withFlags]

/-- What fits leaves a valid map valid, and nothing else does. -/
theorem valid_set_iff {target value : Value Ty Job} {key : Str} (valid : Valid types target)
    (stores : Stores target key) :
    Valid types (target.set types key value).1 ↔ Fits types target key value := by
  obtain ⟨flags, type, task, job, children, rfl, isOpen, free⟩ := stores
  obtain ⟨f, raised, _⟩ := exists_marked_validated types type key value
  rw [set_stores types isOpen free, raised]
  obtain ⟨complies, below⟩ := valid_iff.mp valid
  constructor
  · intro after a declared named
    obtain ⟨complies', below'⟩ := valid_iff.mp after
    have here := complies_map.mp complies' a declared
    rw [named, lookup_insert, if_pos rfl] at here
    have found : (Value.map flags type task job (insert key (value.withFlags f) children)).child (.key key) =
        some (value.withFlags f) := by
      rw [Value.child, lookup_insert, if_pos rfl]
    exact ⟨supplied_withFlags.mp here, valid_withFlags.mp (below' (.key key) _ ⟨a, declared, named⟩ found)⟩
  · intro fits
    refine valid_iff.mpr ⟨complies_map.mpr fun a declared => ?_, fun s c declared found => ?_⟩
    · rw [lookup_insert]
      split
      · rename_i here
        exact supplied_withFlags.mpr (fits a declared here.symm).1
      · exact complies_map.mp complies a declared
    · cases s with
      | index i => cases found
      | key name =>
          obtain ⟨a, member, named⟩ := declared
          rw [Value.child, lookup_insert] at found
          split at found
          · rename_i here
            cases found
            exact valid_withFlags.mpr (fits a member (named.trans here.symm)).2
          · exact below (.key name) c ⟨a, member, named⟩ found

theorem truthful_set {target value : Value Ty Job} {key : Str} (truthful : Truthful types target)
    (given : Stores target key → Truthful types value)
    (self : target.flags.validated = true → Valid types (target.set types key value).1) :
    Truthful types (target.set types key value).1 := by
  refine truthful_iff.mpr
    ⟨fun flagged => self (flags_after_set types target key value ▸ flagged), fun s c found => ?_⟩
  have below := (truthful_iff.mp truthful).2
  rcases set_cases types target key value with
    same | ⟨flags, type, task, job, children, rfl, isOpen, free, stored⟩
  · rw [same] at found
    exact below s c found
  · rw [stored] at found
    cases s with
    | index i => cases found
    | key name =>
        rw [Value.child, lookup_insert] at found
        split at found
        · cases found
          obtain ⟨f, raised, keeps⟩ := exists_marked_validated types type key value
          rw [raised]
          exact (truthful_withFlags keeps).mpr (given ⟨flags, type, task, job, children, rfl, isOpen, free⟩)
        · exact below (.key name) c found

/-! ### Assignment to a scalar -/

/-- `ScalarValue::set` with what it stores. -/
def assign (s : Scalar) : Value Ty Job → Value Ty Job
  | .scalar flags _ => .scalar flags s
  | v => v

theorem truthful_scalar {flags : Flags} {s : Scalar} : Truthful types (.scalar flags s : Value Ty Job) :=
  truthful_iff.mpr ⟨fun _ => valid_scalar flags s, fun s' _ found => by cases s' <;> cases found⟩

theorem truthful_assign {s : Scalar} {v : Value Ty Job} (truthful : Truthful types v) :
    Truthful types (assign s v) := by
  cases v with
  | scalar flags old => exact truthful_scalar
  | array flags ctype elements => exact truthful
  | map flags type task job children => exact truthful

theorem valid_assign {s : Scalar} {v : Value Ty Job} (valid : Valid types v) : Valid types (assign s v) := by
  cases v with
  | scalar flags old => exact valid_scalar flags s
  | array flags ctype elements => exact valid
  | map flags type task job children => exact valid

/-- A scalar in a valid map is assigned. -/
theorem valid_assignChild_iff {parent : Value Ty Job} {key : Str} {flags : Flags} {old s : Scalar}
    (valid : Valid types parent) (given : parent.child (.key key) = some (.scalar flags old)) :
    Valid types (parent.modifyChild (assign s) (.key key)) ↔ Fits types parent key (.scalar {} s) := by
  obtain ⟨complies, below⟩ := valid_iff.mp valid
  cases parent with
  | scalar flags' value => cases given
  | array flags' ctype elements => cases given
  | map flags' type task job children =>
      have after (a : Argument Ty Job) (named : a.name = key) :
          Supplied types a (lookup a.name (adjust key (assign s) children)) ↔
            Supplied types a (some (.scalar {} s)) := by
        rw [lookup_adjust, if_pos named, named, show lookup key children = _ from given]
        exact supplied_withFlags (f := fun _ => flags) (v := .scalar {} s)
      constructor
      · intro validAfter a declared named
        refine ⟨(after a named).mp ?_, valid_scalar {} s⟩
        exact complies_map.mp (valid_iff.mp validAfter).1 a declared
      · intro fits
        refine valid_iff.mpr ⟨complies_map.mpr fun a declared => ?_, fun s' c' declared found => ?_⟩
        · by_cases named : a.name = key
          · exact (after a named).mpr (fits a declared named).1
          · rw [lookup_adjust, if_neg named]
            exact complies_map.mp complies a declared
        · rw [stepsTo_modifyChild] at declared
          rw [child_modifyChild] at found
          split at found
          · obtain ⟨c, there, rfl⟩ := Option.map_eq_some_iff.mp found
            exact valid_assign (below s' c declared there)
          · exact below s' c' declared found

/-- The same for any child: an element of an array, or a child that is no scalar, does not matter. -/
theorem valid_assignChild {parent : Value Ty Job} {selector : Selector} {s : Scalar}
    (valid : Valid types parent)
    (fits : ∀ key flags old, selector = .key key → parent.child selector = some (.scalar flags old) →
      Fits types parent key (.scalar {} s)) :
    Valid types (parent.modifyChild (assign s) selector) := by
  by_cases isScalar : ∃ key flags old, selector = .key key ∧ parent.child selector = some (.scalar flags old)
  · obtain ⟨key, flags, old, rfl, given⟩ := isScalar
    exact (valid_assignChild_iff valid given).mpr (fits key flags old rfl given)
  · obtain ⟨complies, below⟩ := valid_iff.mp valid
    refine valid_iff.mpr ⟨?_, fun s' c' declared found => ?_⟩
    · cases parent with
      | scalar flags value => cases selector <;> exact complies
      | array flags ctype elements => cases selector <;> exact complies_array ..
      | map flags type task job children =>
          cases selector with
          | index i => exact complies
          | key name =>
              refine complies_map.mpr fun a declared => ?_
              rw [lookup_adjust]
              split
              · rename_i here
                have kept (c : Value Ty Job) (given : lookup a.name children = some c) : assign s c = c := by
                  cases c with
                  | scalar flags' old => exact absurd ⟨name, flags', old, rfl, here ▸ given⟩ isScalar
                  | array flags' ctype elements => rfl
                  | map flags' type' task' job' children' => rfl
                exact (supplied_map (fun c given => by rw [kept c given]) fun c given => by rw [kept c given]).mpr
                  (complies_map.mp complies a declared)
              · exact complies_map.mp complies a declared
    · rw [stepsTo_modifyChild] at declared
      rw [child_modifyChild] at found
      split at found
      · obtain ⟨c, there, rfl⟩ := Option.map_eq_some_iff.mp found
        exact valid_assign (below s' c declared there)
      · exact below s' c' declared found

theorem truthful_assignChild {parent : Value Ty Job} {selector : Selector} {s : Scalar}
    (truthful : Truthful types parent)
    (self : parent.flags.validated = true → Valid types (parent.modifyChild (assign s) selector)) :
    Truthful types (parent.modifyChild (assign s) selector) := by
  refine truthful_iff.mpr
    ⟨fun flagged => self (flags_modifyChild _ selector parent ▸ flagged), fun s' c' found => ?_⟩
  have below := (truthful_iff.mp truthful).2
  rw [child_modifyChild] at found
  split at found
  · obtain ⟨c, there, rfl⟩ := Option.map_eq_some_iff.mp found
    exact truthful_assign (below s' c there)
  · exact below s' c' found

theorem modifyAt_concat (f : Value Ty Job → Value Ty Job) (way : List Selector) (s : Selector)
    (v : Value Ty Job) :
    v.modifyAt f (way ++ [s]) = v.modifyAt (fun parent => parent.modifyChild f s) way := by
  induction way generalizing v with
  | nil => rfl
  | cons s' rest ih =>
      rw [List.cons_append, Value.modifyAt, Value.modifyAt]
      exact congrArg (fun g => v.modifyChild g s') (funext ih)

/-! ### Runs -/

/-- A call on what is reached from the value by a way down: `set` of a map and of a scalar, `validate`. -/
inductive ValidationCall (Ty Job : Type) where
  | set (way : List Selector) (key : Str) (value : Value Ty Job)
  | assign (way : List Selector) (s : Scalar)
  | validate (way : List Selector)

variable (types)

/-- The value after a call; it is the same after an exception as far as the source leaves it so. -/
def ValidationCall.step : ValidationCall Ty Job → Value Ty Job → Option (Value Ty Job)
  | .set way key value, root =>
      (root.descend way).map fun _ => root.modifyAt (fun target => (target.set types key value).1) way
  | .assign way s, root => (root.descend way).map fun _ => root.modifyAt (Configuration.assign s) way
  | .validate way, root =>
      (root.descend way).map fun _ => root.modifyAt (fun target => (Configuration.validate types target).1) way

/-- The runs of calls of `set` and `validate`. -/
def validationSystem (v : Value Ty Job) : TransitionSystem.System (Value Ty Job) (ValidationCall Ty Job) :=
  .ofFunction v (ValidationCall.step types)

/-- A value fits under a key of a map at a place, if a value that carries VALIDATED reaches the map through
    elements and declared arguments. -/
def FitsAt (root : Value Ty Job) (way : List Selector) (key : Str) (value : Value Ty Job) : Prop :=
  ∀ before rest node target, way = before ++ rest → root.descend before = some node →
    node.flags.validated = true → Live types rest node → node.descend rest = some target →
      Fits types target key value

/-- What the call stores fits; and a value that is stored in a map is truthful itself. -/
def Permitted (root : Value Ty Job) : ValidationCall Ty Job → Prop
  | .validate _ => True
  | .set way key value =>
      ∀ target, root.descend way = some target → Stores target key →
        Truthful types value ∧ FitsAt types root way key value
  | .assign way s =>
      ∀ above key flags old, way = above ++ [.key key] → root.descend way = some (.scalar flags old) →
        FitsAt types root above key (.scalar {} s)

variable {types}

theorem sameFace_validate (v : Value Ty Job) : SameFace types v (validate types v).1 := by
  have same := erase_eq_of_core (core_validate types v)
  constructor
  · rw [← isNull_mapFlags (fun _ => {}), ← isNull_mapFlags (fun _ => {}) v]
    exact congrArg isNull same
  · rw [← type_mapFlags types (fun _ => {}), ← type_mapFlags types (fun _ => {}) v]
    exact congrArg (Value.type types) same

/-- What is found at the end of a way after a change further down. -/
theorem descend_found {f : Value Ty Job → Value Ty Job} {root node : Value Ty Job}
    {way before rest : List Selector} (split : way = before ++ rest) (found : root.descend before = some node) :
    (root.modifyAt f way).descend before = some (node.modifyAt f rest) := by
  rw [split, descend_modifyAt, found]
  rfl

theorem descend_split {root node target : Value Ty Job} {way before rest : List Selector}
    (split : way = before ++ rest) (found : root.descend before = some node)
    (below : node.descend rest = some target) : root.descend way = some target := by
  rw [split, descend_append, found]
  exact below

theorem truthful_step_set {way : List Selector} {key : Str} {value root : Value Ty Job}
    (truthful : Truthful types root) (permitted : Permitted types root (.set way key value)) :
    Truthful types (root.modifyAt (fun target => (target.set types key value).1) way) := by
  have above (before rest : List Selector) (node : Value Ty Job) (split : way = before ++ rest)
      (found : root.descend before = some node) (flagged : node.flags.validated = true)
      (target : Value Ty Job) (live : Live types rest node) (below : node.descend rest = some target) :
      Valid types (target.set types key value).1 := by
    have valid : Valid types target := (truthful before node found flagged).descend live below
    by_cases stores : Stores target key
    · have reached := descend_split split found below
      exact (valid_set_iff valid stores).mpr
        ((permitted target reached stores).2 before rest node target split found flagged live below)
    · rw [set_refused stores]
      exact valid
  apply truthful.modifyAt (sameFace_set key value) _ above
  intro target reached
  apply truthful_set (truthful.descend reached)
  · exact fun stores => (permitted target reached stores).1
  · exact fun flagged => above way [] target (List.append_nil way).symm reached flagged target trivial rfl

theorem truthful_step_assign {way : List Selector} {s : Scalar} {root : Value Ty Job}
    (truthful : Truthful types root) (permitted : Permitted types root (.assign way s)) :
    Truthful types (root.modifyAt (assign s) way) := by
  rcases List.eq_nil_or_concat way with rfl | ⟨upper, selector, rfl⟩
  · exact truthful_assign truthful
  · rw [List.concat_eq_append] at permitted ⊢
    rw [modifyAt_concat]
    have above (before rest : List Selector) (node : Value Ty Job) (split : upper = before ++ rest)
        (found : root.descend before = some node) (flagged : node.flags.validated = true)
        (parent : Value Ty Job) (live : Live types rest node) (below : node.descend rest = some parent) :
        Valid types (parent.modifyChild (assign s) selector) := by
      have valid : Valid types parent := (truthful before node found flagged).descend live below
      refine valid_assignChild valid fun key flags old same given => ?_
      have reached : root.descend (upper ++ [selector]) = some (.scalar flags old) := by
        rw [descend_append, descend_split split found below, Option.bind_some, Value.descend, given]
        rfl
      exact permitted upper key flags old (by rw [same]) reached before rest node parent split found flagged live
        below
    apply truthful.modifyAt (fun parent => sameFace_modifyChild (assign s) selector parent) _ above
    intro parent reached
    apply truthful_assignChild (truthful.descend reached)
    exact fun flagged => above upper [] parent (List.append_nil upper).symm reached flagged parent trivial rfl

/-- A permitted call keeps the flags truthful. -/
theorem truthful_step {call : ValidationCall Ty Job} {root root' : Value Ty Job} (truthful : Truthful types root)
    (permitted : Permitted types root call) (next : call.step types root = some root') :
    Truthful types root' := by
  cases call with
  | set way key value =>
      obtain ⟨_, _, rfl⟩ := Option.map_eq_some_iff.mp next
      exact truthful_step_set truthful permitted
  | assign way s =>
      obtain ⟨_, _, rfl⟩ := Option.map_eq_some_iff.mp next
      exact truthful_step_assign truthful permitted
  | validate way =>
      obtain ⟨_, _, rfl⟩ := Option.map_eq_some_iff.mp next
      apply truthful.modifyAt sameFace_validate
      · exact fun target reached => truthful_validate target (truthful.descend reached)
      · intro before rest node split found flagged target live reached
        have valid : Valid types node := truthful before node found flagged
        exact valid_validate.mpr (valid.descend live reached)

/-- A call after which the flags are truthful was permitted. -/
theorem permitted_of_truthful {call : ValidationCall Ty Job} {root root' : Value Ty Job}
    (truthful : Truthful types root) (next : call.step types root = some root')
    (after : Truthful types root') : Permitted types root call := by
  cases call with
  | validate way => trivial
  | set way key value =>
      obtain ⟨target, reached, rfl⟩ := Option.map_eq_some_iff.mp next
      intro target' reached' stores
      cases reached.symm.trans reached'
      constructor
      · have there := after.descend (descend_found (List.append_nil way).symm reached)
        obtain ⟨flags, type, task, job, children, rfl, isOpen, free⟩ := stores
        obtain ⟨f, raised, keeps⟩ := exists_marked_validated types type key value
        rw [Value.modifyAt, set_stores types isOpen free, raised] at there
        refine (truthful_withFlags keeps).mp ((truthful_iff.mp there).2 (.key key) _ ?_)
        rw [Value.child, lookup_insert, if_pos rfl]
      · intro before rest node target' split found flagged live below
        cases reached.symm.trans (descend_split split found below)
        have valid : Valid types target := (truthful before node found flagged).descend live below
        refine (valid_set_iff valid stores).mp ?_
        have validAbove := after before _ (descend_found split found)
          (by rw [flags_modifyAt (fun target => flags_after_set types target key value), flagged])
        exact validAbove.descend (live_modifyAt live) (by
          have there := descend_found (f := fun target => (target.set types key value).1)
            (List.append_nil rest).symm below
          exact there)
  | assign way s =>
      obtain ⟨target, reached, rfl⟩ := Option.map_eq_some_iff.mp next
      rintro upper key flags old rfl reached' before rest node parent split found flagged live below
      have given : parent.child (.key key) = some (.scalar flags old) := by
        rw [descend_append, descend_split split found below, Option.bind_some, Value.descend] at reached'
        obtain ⟨c, there, same⟩ := Option.bind_eq_some_iff.mp reached'
        cases same
        exact there
      have valid : Valid types parent := (truthful before node found flagged).descend live below
      refine (valid_assignChild_iff valid given).mp ?_
      rw [modifyAt_concat] at after
      have validAbove := after before _ (descend_found split found)
        (by rw [flags_modifyAt (fun parent => flags_modifyChild (assign s) (.key key) parent), flagged])
      exact validAbove.descend (live_modifyAt live) (by
        have there := descend_found (f := fun parent => parent.modifyChild (assign s) (.key key))
          (List.append_nil rest).symm below
        exact there)

/-- Every call of `validate` that returns finds valid content. -/
theorem truthful_iff_validate {root : Value Ty Job} :
    Truthful types root ↔
      ∀ way target, root.descend way = some target → (validate types target).2 = none →
        Valid types target := by
  constructor
  · exact fun truthful way target reached ok => valid_of_validate target (truthful.descend reached) ok
  · intro finds way target reached flagged
    apply finds way target reached
    cases target <;> rw [validate, finishValidation_flagged flagged]

/-- From a value whose flags are truthful, in every run of calls that store only what fits, each call of
    `validate` that returns normally finds valid content. After such a run, the next call leaves it so exactly
    when it stores only what fits. -/
theorem validated_content_valid {v r : Value Ty Job} (truthful : Truthful types v)
    (run : (validationSystem types v).RunUnder (Permitted types) r) :
    (∀ way target, r.descend way = some target → (validate types target).2 = none → Valid types target) ∧
      ∀ call r', ValidationCall.step types call r = some r' →
        ((∀ way target, r'.descend way = some target → (validate types target).2 = none →
            Valid types target) ↔
          Permitted types r call) := by
  have kept : Truthful types r := by
    apply TransitionSystem.System.RunUnder.invariant (Truthful types) _ _ run
    · rintro _ rfl
      exact truthful
    · exact fun _ _ _ _ permitted next before => truthful_step before permitted next
  refine ⟨truthful_iff_validate.mp kept, fun call r' next => ?_⟩
  rw [← truthful_iff_validate]
  exact ⟨permitted_of_truthful kept next, fun permitted => truthful_step kept permitted next⟩

end

/-- A map of type `A` with a number under `n`. -/
def numbered (flags : Flags) (n : Scalar) : Value Sample Unit :=
  .map flags (.base .A) none none [(str "n", .scalar { validated := flags.validated } n)]

theorem validate_numbered :
    ValidationCall.step nestedTypes (.validate []) (numbered {} (.integer 1)) =
      some (numbered { validated := true } (.integer 1)) :=
  rfl

theorem truthful_numbered : Truthful nestedTypes (numbered {} (.integer 1)) := by
  refine truthful_iff.mpr ⟨nofun, fun s c found => ?_⟩
  cases s with
  | index i => cases found
  | key name =>
      rw [numbered, Value.child, lookup] at found
      split at found
      · cases found
        exact truthful_scalar
      · cases found

/-- The map is validated, the number is replaced by null, and `validate` returns again. -/
theorem validated_then_changed :
    ∃ r, (validationSystem nestedTypes (numbered {} (.integer 1))).Reachable r ∧
      (validate nestedTypes r).2 = none ∧ ¬ Valid nestedTypes r := by
  refine ⟨.map { validated := true } (.base .A) none none [(str "n", .scalar {} .none)], ?_, rfl, ?_⟩
  · have replaced : ValidationCall.step nestedTypes (.set [] (str "n") (.scalar {} .none))
        (numbered { validated := true } (.integer 1)) =
          some (.map { validated := true } (.base .A) none none [(str "n", .scalar {} .none)]) := rfl
    apply TransitionSystem.System.RunUnder.step _ trivial replaced
    apply TransitionSystem.System.RunUnder.step _ trivial validate_numbered
    exact .start rfl
  · intro valid
    apply (valid_iff.mp valid).1.1
    exact .intro _ List.mem_cons_self rfl (Or.inr ⟨_, rfl, rfl⟩)

/-- The map is validated and the number replaced by another one. -/
theorem validated_content_valid_numbered :
    ∃ r, (validationSystem nestedTypes (numbered {} (.integer 1))).RunUnder (Permitted nestedTypes) r ∧
      r.child (.key (str "n")) = some (.scalar {} (.integer 2)) ∧
      (validate nestedTypes r).2 = none ∧ Valid nestedTypes r := by
  have fits : Permitted nestedTypes (numbered { validated := true } (.integer 1))
      (.set [] (str "n") (.scalar {} (.integer 2))) := by
    rintro target ⟨⟩ _
    refine ⟨truthful_scalar, ?_⟩
    intro before rest node target split reached _ _ below
    obtain ⟨rfl, rfl⟩ := List.append_eq_nil_iff.mp split.symm
    cases reached
    cases below
    intro a declared _
    rcases List.mem_cons.mp declared with rfl | other
    · refine ⟨?_, valid_scalar _ _⟩
      rw [Supplied, if_neg (by decide)]
      rfl
    · cases other
  have run : (validationSystem nestedTypes (numbered {} (.integer 1))).RunUnder (Permitted nestedTypes)
      (.map { validated := true } (.base .A) none none [(str "n", .scalar {} (.integer 2))]) := by
    have replaced : ValidationCall.step nestedTypes (.set [] (str "n") (.scalar {} (.integer 2)))
        (numbered { validated := true } (.integer 1)) =
          some (.map { validated := true } (.base .A) none none [(str "n", .scalar {} (.integer 2))]) := rfl
    apply TransitionSystem.System.RunUnder.step _ fits replaced
    apply TransitionSystem.System.RunUnder.step _ trivial validate_numbered
    exact .start rfl
  exact ⟨_, run, rfl, rfl, (validated_content_valid truthful_numbered run).1 [] _ rfl rfl⟩

end Experimaestro.Configuration

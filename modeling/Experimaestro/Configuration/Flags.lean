/-
Module: Experimaestro.Configuration.Flags
Layer: Configuration
Purpose: Which flags the digest reads. `mapFlags` changes the flags at every level of a value; `core`
  keeps IGNORE and DEFAULT, on which the digest depends, and `erase` keeps none. Validation and sealing
  change nothing but the other flags.
Imports: Experimaestro.Configuration.Generation
Trusted boundary: none
Main exports: mapFlags, core, erase, updateDigest_eq_of_core, core_validate, core_sealValue,
  erase_mapFlags
Open obligations: none
-/
import Experimaestro.Configuration.Generation

namespace Experimaestro.Configuration

section

variable {Ty Job : Type} (types : Types Ty Job)

namespace Value

/-! ### Changing flags at every level -/

mutual

/-- Change the flags at every level. -/
def mapFlags (f : Flags → Flags) : Value Ty Job → Value Ty Job
  | .scalar flags s => .scalar (f flags) s
  | .array flags ctype elements => .array (f flags) ctype (mapFlagsElements f elements)
  | .map flags type task job children => .map (f flags) type task job (mapFlagsChildren f children)

def mapFlagsElements (f : Flags → Flags) : List (Value Ty Job) → List (Value Ty Job)
  | [] => []
  | element :: rest => mapFlags f element :: mapFlagsElements f rest

def mapFlagsChildren (f : Flags → Flags) : List (Str × Value Ty Job) → List (Str × Value Ty Job)
  | [] => []
  | (key, child) :: rest => (key, mapFlags f child) :: mapFlagsChildren f rest

end

/-- The flags on which the digest depends. -/
def coreFlags (flags : Flags) : Flags := { isDefault := flags.isDefault, ignore := flags.ignore }

/-- A value with the flags on which its digest depends. -/
def core (v : Value Ty Job) : Value Ty Job := v.mapFlags coreFlags

/-- A value without flags. -/
def erase (v : Value Ty Job) : Value Ty Job := v.mapFlags fun _ => {}

theorem type_withFlags (f : Flags → Flags) (v : Value Ty Job) : (v.withFlags f).type types = v.type types := by
  cases v <;> rfl

@[simp] theorem flags_withFlags (f : Flags → Flags) (v : Value Ty Job) : (v.withFlags f).flags = f v.flags := by
  cases v <;> rfl

theorem updateDigest_withFlags (f : Flags → Flags) (v : Value Ty Job) :
    (v.withFlags f).updateDigest types = v.updateDigest types := by
  cases v <;> rw [withFlags, updateDigest, updateDigest]

theorem equals_withFlags (f : Flags → Flags) (d v : Value Ty Job) : d.equals (v.withFlags f) = d.equals v := by
  cases d <;> cases v <;> simp only [withFlags, equals]

theorem type_mapFlags (f : Flags → Flags) (v : Value Ty Job) : (v.mapFlags f).type types = v.type types := by
  cases v <;> rw [mapFlags] <;> rfl

theorem flags_mapFlags (f : Flags → Flags) (v : Value Ty Job) : (v.mapFlags f).flags = f v.flags := by
  cases v <;> rw [mapFlags] <;> rfl

theorem mapFlags_withFlags {f g : Flags → Flags} (absorbs : ∀ flags, f (g flags) = f flags)
    (v : Value Ty Job) : (v.withFlags g).mapFlags f = v.mapFlags f := by
  cases v <;> rw [withFlags, mapFlags, mapFlags, absorbs]

mutual

theorem mapFlags_mapFlags (f g : Flags → Flags) :
    ∀ v : Value Ty Job, (v.mapFlags g).mapFlags f = v.mapFlags fun flags => f (g flags)
  | .scalar _ _ => by rw [mapFlags, mapFlags, mapFlags]
  | .array _ _ elements => by
      rw [mapFlags, mapFlags, mapFlags, mapFlagsElements_mapFlagsElements f g elements]
  | .map _ _ _ _ children => by
      rw [mapFlags, mapFlags, mapFlags, mapFlagsChildren_mapFlagsChildren f g children]

theorem mapFlagsElements_mapFlagsElements (f g : Flags → Flags) :
    ∀ elements : List (Value Ty Job),
      mapFlagsElements f (mapFlagsElements g elements) = mapFlagsElements (fun flags => f (g flags)) elements
  | [] => by rw [mapFlagsElements, mapFlagsElements, mapFlagsElements]
  | element :: rest => by
      rw [mapFlagsElements, mapFlagsElements, mapFlagsElements, mapFlags_mapFlags f g element,
        mapFlagsElements_mapFlagsElements f g rest]

theorem mapFlagsChildren_mapFlagsChildren (f g : Flags → Flags) :
    ∀ children : List (Str × Value Ty Job),
      mapFlagsChildren f (mapFlagsChildren g children) = mapFlagsChildren (fun flags => f (g flags)) children
  | [] => by rw [mapFlagsChildren, mapFlagsChildren, mapFlagsChildren]
  | (key, child) :: rest => by
      rw [mapFlagsChildren, mapFlagsChildren, mapFlagsChildren, mapFlags_mapFlags f g child,
        mapFlagsChildren_mapFlagsChildren f g rest]

end

theorem erase_mapFlags (f : Flags → Flags) (v : Value Ty Job) : (v.mapFlags f).erase = v.erase :=
  mapFlags_mapFlags (fun _ => {}) f v

theorem erase_withFlags (f : Flags → Flags) (v : Value Ty Job) : (v.withFlags f).erase = v.erase := by
  apply mapFlags_withFlags
  intro flags
  rfl

theorem erase_eq_of_core {v w : Value Ty Job} (same : v.core = w.core) : v.erase = w.erase := by
  rw [← erase_mapFlags coreFlags v, ← erase_mapFlags coreFlags w]
  exact congrArg erase same

theorem core_withFlags {g : Flags → Flags} (keeps : ∀ flags, coreFlags (g flags) = coreFlags flags)
    (v : Value Ty Job) : (v.withFlags g).core = v.core :=
  mapFlags_withFlags keeps v

theorem canIgnore_mapFlags {f : Flags → Flags} (keeps : ∀ flags, coreFlags (f flags) = coreFlags flags)
    (v : Value Ty Job) : (v.mapFlags f).canIgnore types = v.canIgnore types := by
  have same := keeps v.flags
  rw [coreFlags, coreFlags, Flags.mk.injEq] at same
  rw [canIgnore, canIgnore, type_mapFlags, flags_mapFlags, same.2.1, same.2.2.2.2]

theorem length_mapFlagsElements (f : Flags → Flags) :
    ∀ elements : List (Value Ty Job), (mapFlagsElements f elements).length = elements.length
  | [] => rfl
  | _ :: rest => by
      rw [mapFlagsElements, List.length_cons, List.length_cons, length_mapFlagsElements f rest]

mutual

/-- The digest depends on IGNORE and DEFAULT only. -/
theorem updateDigest_mapFlags {f : Flags → Flags}
    (keeps : ∀ flags, coreFlags (f flags) = coreFlags flags) :
    ∀ v : Value Ty Job, (v.mapFlags f).updateDigest types = v.updateDigest types
  | .scalar _ s => by rw [mapFlags, updateDigest, updateDigest]
  | .array _ ctype elements => by
      rw [mapFlags, updateDigest, updateDigest, length_mapFlagsElements,
        updateElements_mapFlags keeps elements]
  | .map _ type task job children => by
      rw [mapFlags, updateDigest, updateDigest, updateChildren_mapFlags keeps children]

theorem updateElements_mapFlags {f : Flags → Flags}
    (keeps : ∀ flags, coreFlags (f flags) = coreFlags flags) :
    ∀ elements : List (Value Ty Job),
      updateElements types (mapFlagsElements f elements) = updateElements types elements
  | [] => by rw [mapFlagsElements]
  | element :: rest => by
      rw [mapFlagsElements, updateElements, updateElements, updateDigest_mapFlags keeps element,
        updateElements_mapFlags keeps rest]

theorem updateChildren_mapFlags {f : Flags → Flags}
    (keeps : ∀ flags, coreFlags (f flags) = coreFlags flags) :
    ∀ children : List (Str × Value Ty Job),
      updateChildren types (mapFlagsChildren f children) = updateChildren types children
  | [] => by rw [mapFlagsChildren]
  | (key, child) :: rest => by
      rw [mapFlagsChildren, updateChildren, updateChildren, canIgnore_mapFlags types keeps,
        updateDigest_mapFlags keeps child, updateChildren_mapFlags keeps rest]

end

theorem coreFlags_coreFlags (flags : Flags) : coreFlags (coreFlags flags) = coreFlags flags := rfl

theorem updateDigest_eq_of_core {v w : Value Ty Job} (same : v.core = w.core) :
    v.updateDigest types = w.updateDigest types := by
  rw [← updateDigest_mapFlags types coreFlags_coreFlags v, ← updateDigest_mapFlags types coreFlags_coreFlags w]
  exact congrArg (updateDigest types) same

mutual

/-- Equality does not look at flags. -/
theorem equals_mapFlags (f : Flags → Flags) :
    ∀ d v : Value Ty Job, d.equals (v.mapFlags f) = d.equals v
  | .scalar _ _, .scalar _ _ => by rw [mapFlags, equals, equals]
  | .scalar _ _, .array _ _ _ => by rw [mapFlags, equals, equals] <;> simp
  | .scalar _ _, .map _ _ _ _ _ => by rw [mapFlags, equals, equals] <;> simp
  | .array _ _ _, .scalar _ _ => by rw [mapFlags, equals, equals] <;> simp
  | .array _ _ as, .array _ _ bs => by
      rw [mapFlags, equals, equals, length_mapFlagsElements, equalsElements_mapFlags f as bs]
  | .array _ _ _, .map _ _ _ _ _ => by rw [mapFlags, equals, equals] <;> simp
  | .map _ _ _ _ _, _ => by rw [equals, equals]

theorem equalsElements_mapFlags (f : Flags → Flags) :
    ∀ as bs : List (Value Ty Job), equalsElements as (mapFlagsElements f bs) = equalsElements as bs
  | [], [] => by rw [mapFlagsElements]
  | [], _ :: _ => by rw [mapFlagsElements, equalsElements, equalsElements] <;> simp
  | _ :: _, [] => by rw [mapFlagsElements]
  | a :: as, b :: bs => by
      rw [mapFlagsElements, equalsElements, equalsElements, equals_mapFlags f a b,
        equalsElements_mapFlags f as bs]

end

theorem type_eq_of_core {v w : Value Ty Job} (same : v.core = w.core) : v.type types = w.type types := by
  rw [← type_mapFlags types coreFlags v, ← type_mapFlags types coreFlags w]
  exact congrArg (type types) same

theorem canIgnore_eq_of_core {v w : Value Ty Job} (same : v.core = w.core) :
    v.canIgnore types = w.canIgnore types := by
  rw [← canIgnore_mapFlags types coreFlags_coreFlags v, ← canIgnore_mapFlags types coreFlags_coreFlags w]
  exact congrArg (canIgnore types) same

end Value

/-! ### Validation and sealing -/

open Value

/-- Replacing a child by one that differs in other flags. -/
theorem mapFlagsChildren_adjust (f : Flags → Flags) (key : Str) (g : Value Ty Job → Value Ty Job) :
    ∀ children : List (Str × Value Ty Job),
      (∀ child, lookup key children = some child → (g child).mapFlags f = child.mapFlags f) →
        mapFlagsChildren f (adjust key g children) = mapFlagsChildren f children
  | [], _ => rfl
  | (k, child) :: rest, same => by
      rw [lookup] at same
      by_cases here : k = key
      · rw [if_pos here] at same
        rw [adjust, if_pos here, mapFlagsChildren, mapFlagsChildren, same child rfl]
      · rw [if_neg here] at same
        rw [adjust, if_neg here, mapFlagsChildren, mapFlagsChildren,
          mapFlagsChildren_adjust f key g rest same]

theorem mapFlagsElements_modify (f : Flags → Flags) (g : Value Ty Job → Value Ty Job) :
    ∀ (position : ℕ) (elements : List (Value Ty Job)),
      (∀ element, elements[position]? = some element → (g element).mapFlags f = element.mapFlags f) →
        mapFlagsElements f (elements.modify position g) = mapFlagsElements f elements
  | _, [], _ => by rw [List.modify_nil]
  | 0, element :: rest, same => by
      rw [List.modify_zero_cons, mapFlagsElements, mapFlagsElements, same element rfl]
  | position + 1, element :: rest, same => by
      rw [List.modify_succ_cons, mapFlagsElements, mapFlagsElements,
        mapFlagsElements_modify f g position rest fun e found => same e found]

theorem lookup_mapFlagsChildren (f : Flags → Flags) (key : Str) :
    ∀ children : List (Str × Value Ty Job),
      lookup key (mapFlagsChildren f children) = (lookup key children).map (Value.mapFlags f)
  | [] => rfl
  | (k, child) :: rest => by
      rw [mapFlagsChildren, lookup, lookup]
      by_cases here : k = key
      · rw [if_pos here, if_pos here, Option.map_some]
      · rw [if_neg here, if_neg here, lookup_mapFlagsChildren f key rest]

theorem lookup_validationTable (key : Str) :
    ∀ children : List (Str × Value Ty Job),
      lookup key (validationTable types children) =
        (lookup key children).map fun child => (child, validate types child)
  | [] => rfl
  | (k, child) :: rest => by
      rw [validationTable, lookup, lookup]
      by_cases here : k = key
      · rw [if_pos here, if_pos here, Option.map_some]
      · rw [if_neg here, if_neg here, lookup_validationTable key rest]

/-- One argument: its child is replaced if it has been validated, and the others follow unless there is an error. -/
theorem validateArguments_cons (type : TypeRef Ty) (original : List (Str × Value Ty Job)) (a : Argument Ty Job)
    (rest : List (Argument Ty Job)) (children : List (Str × Value Ty Job)) :
    ∃ children', (children' = children ∨ ∃ child, lookup a.name original = some child ∧
        children' = adjust a.name (fun _ => (validate types child).1) children) ∧
      ((validateArguments types type (validationTable types original) (a :: rest) children).1 = children' ∨
        (validateArguments types type (validationTable types original) (a :: rest) children).1 =
          (validateArguments types type (validationTable types original) rest children').1) := by
  rw [validateArguments, lookup_validationTable]
  cases found : lookup a.name original with
  | none =>
      refine ⟨children, .inl rfl, ?_⟩
      rw [Option.map_none]
      dsimp only
      split
      · exact .inl rfl
      · exact .inr rfl
  | some child =>
      rw [Option.map_some]
      dsimp only
      by_cases validated : (!child.isNull && types.accepts a.type (child.type types)) = true
      · rw [if_pos validated]
        refine ⟨_, .inr ⟨child, rfl, rfl⟩, ?_⟩
        split
        · exact .inl rfl
        · exact .inr rfl
      · rw [if_neg validated]
        refine ⟨children, .inl rfl, ?_⟩
        split
        · exact .inl rfl
        · exact .inr rfl

/-- A part of the flags that does not contain VALIDATED. -/
def WithoutValidated (f : Flags → Flags) : Prop := ∀ flags : Flags, f { flags with validated := true } = f flags

section

variable {f : Flags → Flags}

theorem mapFlags_finishValidation (keeps : WithoutValidated f) {v : Value Ty Job} {r : Validated Ty Job}
    (same : r.1.mapFlags f = v.mapFlags f) : (finishValidation v r).1.mapFlags f = v.mapFlags f := by
  obtain ⟨w, e⟩ := r
  unfold finishValidation
  by_cases before : v.flags.validated = true
  · rw [if_pos before]
  · rw [if_neg before]
    cases e with
    | none =>
        rw [← same]
        exact mapFlags_withFlags keeps w
    | some e => exact same

/-- The loop over the declarations changes no child but in flags that are not looked at. -/
theorem mapFlagsChildren_validateArguments (type : TypeRef Ty) {original : List (Str × Value Ty Job)}
    (kept : ∀ key child, lookup key original = some child →
      (validate types child).1.mapFlags f = child.mapFlags f)
    (arguments : List (Argument Ty Job)) (children : List (Str × Value Ty Job))
    (same : mapFlagsChildren f children = mapFlagsChildren f original) :
    mapFlagsChildren f (validateArguments types type (validationTable types original) arguments children).1 =
      mapFlagsChildren f original := by
  induction arguments generalizing children with
  | nil => exact same
  | cons a rest ih =>
      obtain ⟨children', step, result⟩ := validateArguments_cons types type original a rest children
      have same' : mapFlagsChildren f children' = mapFlagsChildren f original := by
        rcases step with rfl | ⟨child, found, rfl⟩
        · exact same
        · rw [mapFlagsChildren_adjust, same]
          intro current found'
          have both := lookup_mapFlagsChildren f a.name children
          rw [same, lookup_mapFlagsChildren, found, found', Option.map_some, Option.map_some,
            Option.some.injEq] at both
          exact (kept a.name child found).trans both
      cases result with
      | inl stops => rw [stops, same']
      | inr goesOn => rw [goesOn, ih children' same']

mutual

/-- Validation raises VALIDATED and changes no other flag. -/
theorem mapFlags_validate (keeps : WithoutValidated f) :
    ∀ v : Value Ty Job, (validate types v).1.mapFlags f = v.mapFlags f
  | .scalar _ _ => by
      rw [validate]
      exact mapFlags_finishValidation keeps rfl
  | .array flags ctype elements => by
      rw [validate]
      apply mapFlags_finishValidation keeps
      rw [mapFlags, mapFlags, mapFlagsElements_validateElements keeps]
  | .map flags type task job children => by
      rw [validate]
      apply mapFlags_finishValidation keeps
      rw [mapFlags, mapFlags,
        mapFlagsChildren_validateArguments types type (mapFlags_validate_child keeps children) _ _ rfl]

theorem mapFlagsElements_validateElements (keeps : WithoutValidated f) (index : ℕ) :
    ∀ elements : List (Value Ty Job),
      mapFlagsElements f (validateElements types index elements).1 = mapFlagsElements f elements
  | [] => rfl
  | element :: rest => by
      have head := mapFlags_validate keeps element
      rw [validateElements]
      split
      case h_1 e error validated =>
          rw [validated] at head
          rw [mapFlagsElements, mapFlagsElements]
          exact congrArg (· :: _) head
      case h_2 e validated =>
          rw [validated] at head
          rw [mapFlagsElements, mapFlagsElements, mapFlagsElements_validateElements keeps (index + 1) rest]
          exact congrArg (· :: _) head

theorem mapFlags_validate_child (keeps : WithoutValidated f) :
    ∀ (children : List (Str × Value Ty Job)) (key : Str) (child : Value Ty Job),
      lookup key children = some child → (validate types child).1.mapFlags f = child.mapFlags f
  | [], _, _, found => by cases found
  | (k, c) :: rest, key, child, found => by
      rw [lookup] at found
      by_cases here : k = key
      · rw [if_pos here, Option.some.injEq] at found
        rw [← found]
        exact mapFlags_validate keeps c
      · rw [if_neg here] at found
        exact mapFlags_validate_child keeps rest key child found

end

end

/-- Validation changes no flag that the digest reads. -/
theorem core_validate (v : Value Ty Job) : (validate types v).1.core = v.core :=
  mapFlags_validate types (fun _ => rfl) v

mutual

/-- Sealing changes no flag that the digest reads. -/
theorem core_sealValue : ∀ v : Value Ty Job, (sealValue v).core = v.core
  | .scalar _ _ => rfl
  | .array flags ctype elements => by
      rw [sealValue]
      split
      · rfl
      · rw [core, core, mapFlags, mapFlags, mapFlagsElements_sealElements elements]
        rfl
  | .map flags type task job children => by
      rw [sealValue]
      split
      · rfl
      · rw [core, core, mapFlags, mapFlags, mapFlagsChildren_sealChildren children]
        rfl

theorem mapFlagsElements_sealElements :
    ∀ elements : List (Value Ty Job),
      mapFlagsElements coreFlags (sealElements elements) = mapFlagsElements coreFlags elements
  | [] => rfl
  | element :: rest => by
      rw [sealElements, mapFlagsElements, mapFlagsElements, mapFlagsElements_sealElements rest]
      exact congrArg (· :: _) (core_sealValue element)

theorem mapFlagsChildren_sealChildren :
    ∀ children : List (Str × Value Ty Job),
      mapFlagsChildren coreFlags (sealChildren children) = mapFlagsChildren coreFlags children
  | [] => rfl
  | (key, child) :: rest => by
      rw [sealChildren, mapFlagsChildren, mapFlagsChildren, mapFlagsChildren_sealChildren rest]
      exact congrArg (fun c => (key, c) :: _) (core_sealValue child)

end

/-- After the generation, `configure` changes no flag that the digest reads. -/
theorem core_configure (ws : Workspace) (v : Value Ty Job) :
    (configure types ws v).result.core = (generate types ws id v).result.core := by
  have kept := core_validate types (generate types ws id v).result
  unfold configure
  dsimp only
  split
  · rfl
  · split
    · rename_i v' e validated
      rw [validated] at kept
      exact kept
    · rename_i v' validated
      rw [validated] at kept
      exact (core_sealValue v').trans kept

end

end Experimaestro.Configuration

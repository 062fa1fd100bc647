/-
Module: Experimaestro.Configuration.Skipping
Layer: Configuration
Purpose: What the identifier leaves out. DEFAULT and IGNORE are raised in the context of one map and one
  key, and travel with the value when it is copied to another key. `Justified` says in the terms of the
  declarations why a child may be left out; a client keeps all left out children justified as long as it
  moves no flagged value to a place that does not justify it, and does not change a child that is left
  out for what it is worth.
Imports: Experimaestro.Configuration.GenerationRule, Experimaestro.Configuration.Session
Trusted boundary: none
Main exports: Justified, Fixed, Sound, SkipsAsDeclared, step_sound, flag_travels, skipped_justified,
  skipped_justified_generated
Open obligations: none
-/
import Experimaestro.Configuration.GenerationRule
import Experimaestro.Configuration.Session

namespace Experimaestro.Configuration

open Value

section

variable {Ty Job : Type} (types : Types Ty Job) (ws : Workspace)

/-! ### What may be left out -/

/-- A child may be left out under a key whatever it is worth: by its type, or by a declaration. -/
def Fixed (type : TypeRef Ty) (key : Str) (child : Value Ty Job) : Prop :=
  types.canIgnoreOf (child.type types) = true ∨
    ∃ a ∈ types.declarations type, a.name = key ∧ a.ignored = true

/-- A child is worth the default of a declaration, or the null of an optional argument. -/
def IsDefaultAt (type : TypeRef Ty) (key : Str) (child : Value Ty Job) : Prop :=
  ∃ a ∈ types.declarations type, a.name = key ∧
    ((∃ d, a.defaultValue = some d ∧ (d.equals child = .ok true ∨ d.erase = child.erase)) ∨
      (a.required = false ∧ a.generator = none ∧ a.value = none ∧ child.erase = .scalar {} .none))

/-- A child of a map of a type may be left out under a key. -/
def Justified (type : TypeRef Ty) (key : Str) (child : Value Ty Job) : Prop :=
  Fixed types type key child ∨ IsDefaultAt types type key child

/-- Every child that the digest leaves out is justified, at every depth. -/
inductive Sound : Value Ty Job → Prop
  | scalar (flags : Flags) (s : Scalar) : Sound (.scalar flags s)
  | array (flags : Flags) (ctype : TypeRef Ty) (elements : List (Value Ty Job))
      (each : ∀ element ∈ elements, Sound element) : Sound (.array flags ctype elements)
  | map (flags : Flags) (type : TypeRef Ty) (task : Option Str) (job : Option Job)
      (children : List (Str × Value Ty Job)) (each : ∀ entry ∈ children, Sound entry.2)
      (justified : ∀ entry ∈ children, entry.2.canIgnore types = true →
        Justified types type entry.1 entry.2) :
      Sound (.map flags type task job children)

/-- Why a child may be left out does not depend on flags. -/
theorem Justified.of_erase {type : TypeRef Ty} {key : Str} {child child' : Value Ty Job}
    (same : child'.erase = child.erase) (justified : Justified types type key child) :
    Justified types type key child' := by
  have sameType : child'.type types = child.type types := by
    rw [← type_mapFlags types (fun _ => {}) child', ← type_mapFlags types (fun _ => {}) child]
    exact congrArg (Value.type types) same
  have sameEquals (d : Value Ty Job) : d.equals child' = d.equals child := by
    rw [← equals_mapFlags (fun _ => {}) d child', ← equals_mapFlags (fun _ => {}) d child]
    exact congrArg d.equals same
  unfold Justified Fixed IsDefaultAt at justified ⊢
  simpa only [sameType, sameEquals, same] using justified

theorem Fixed.of_type {type : TypeRef Ty} {key : Str} {child child' : Value Ty Job}
    (same : child'.type types = child.type types) (fixed : Fixed types type key child) :
    Fixed types type key child' := by
  unfold Fixed at fixed ⊢
  rwa [same]

theorem mem_mapFlagsChildren {f : Flags → Flags} {entry : Str × Value Ty Job} :
    ∀ {children : List (Str × Value Ty Job)}, entry ∈ mapFlagsChildren f children →
      ∃ child, (entry.1, child) ∈ children ∧ entry.2 = child.mapFlags f
  | [], member => by
      rw [mapFlagsChildren] at member
      cases member
  | (key, child) :: rest, member => by
      rw [mapFlagsChildren] at member
      rcases List.mem_cons.mp member with rfl | there
      · exact ⟨child, List.mem_cons_self, rfl⟩
      · obtain ⟨other, inside, same⟩ := mem_mapFlagsChildren there
        exact ⟨other, List.mem_cons_of_mem _ inside, same⟩

theorem mem_mapFlagsElements {f : Flags → Flags} {element : Value Ty Job} :
    ∀ {elements : List (Value Ty Job)}, element ∈ mapFlagsElements f elements →
      ∃ old ∈ elements, element = old.mapFlags f
  | [], member => by
      rw [mapFlagsElements] at member
      cases member
  | old :: rest, member => by
      rw [mapFlagsElements] at member
      rcases List.mem_cons.mp member with rfl | there
      · exact ⟨old, List.mem_cons_self, rfl⟩
      · obtain ⟨other, inside, same⟩ := mem_mapFlagsElements there
        exact ⟨other, List.mem_cons_of_mem _ inside, same⟩

/-- The flags that the digest does not read do not matter. -/
theorem Sound.mapFlags {f : Flags → Flags} (keeps : ∀ flags, coreFlags (f flags) = coreFlags flags)
    {v : Value Ty Job} (sound : Sound types v) : Sound types (v.mapFlags f) := by
  induction sound with
  | scalar flags s =>
      rw [Value.mapFlags]
      exact .scalar _ s
  | array flags ctype elements each ih =>
      rw [Value.mapFlags]
      apply Sound.array
      intro element member
      obtain ⟨old, inside, same⟩ := mem_mapFlagsElements member
      exact same ▸ ih old inside
  | map flags type task job children each justified ih =>
      rw [Value.mapFlags]
      apply Sound.map
      · intro entry member
        obtain ⟨old, inside, same⟩ := mem_mapFlagsChildren member
        exact same ▸ ih (entry.1, old) inside
      · intro entry member skipped
        obtain ⟨old, inside, same⟩ := mem_mapFlagsChildren member
        rw [same, canIgnore_mapFlags types keeps] at skipped
        apply (justified (entry.1, old) inside skipped).of_erase
        rw [same, erase_mapFlags]

theorem Sound.withFlags {v : Value Ty Job} (sound : Sound types v) (f : Flags → Flags) :
    Sound types (v.withFlags f) := by
  cases sound with
  | scalar flags s => exact .scalar _ s
  | array flags ctype elements each => exact .array _ ctype elements each
  | map flags type task job children each justified => exact .map _ type task job children each justified

mutual

theorem Sound.of_mapFlags {f : Flags → Flags} (keeps : ∀ flags, coreFlags (f flags) = coreFlags flags) :
    ∀ v : Value Ty Job, Sound types (v.mapFlags f) → Sound types v
  | .scalar flags s, _ => .scalar flags s
  | .array flags ctype elements, sound => by
      rw [Value.mapFlags] at sound
      cases sound with
      | array _ _ _ each =>
          exact .array flags ctype elements (soundElements_of_mapFlags keeps elements each)
  | .map flags type task job children, sound => by
      rw [Value.mapFlags] at sound
      cases sound with
      | map _ _ _ _ _ each justified =>
          obtain ⟨sounds, allowed⟩ := soundChildren_of_mapFlags keeps type children fun entry member =>
            ⟨each entry member, justified entry member⟩
          exact .map flags type task job children sounds allowed

theorem soundElements_of_mapFlags {f : Flags → Flags}
    (keeps : ∀ flags, coreFlags (f flags) = coreFlags flags) :
    ∀ elements : List (Value Ty Job), (∀ element ∈ mapFlagsElements f elements, Sound types element) →
      ∀ element ∈ elements, Sound types element
  | [], _, _, member => by cases member
  | first :: rest, each, element, member => by
      rw [mapFlagsElements] at each
      rcases List.mem_cons.mp member with here | there
      · rw [here]
        exact Sound.of_mapFlags keeps first (each _ List.mem_cons_self)
      · exact soundElements_of_mapFlags keeps rest (fun e inside => each e (List.mem_cons_of_mem _ inside))
          element there

theorem soundChildren_of_mapFlags {f : Flags → Flags}
    (keeps : ∀ flags, coreFlags (f flags) = coreFlags flags) (type : TypeRef Ty) :
    ∀ children : List (Str × Value Ty Job),
      (∀ entry ∈ mapFlagsChildren f children, Sound types entry.2 ∧
        (entry.2.canIgnore types = true → Justified types type entry.1 entry.2)) →
      (∀ entry ∈ children, Sound types entry.2) ∧
        ∀ entry ∈ children, entry.2.canIgnore types = true → Justified types type entry.1 entry.2
  | [], _ => by simp
  | (key, child) :: rest, each => by
      rw [mapFlagsChildren] at each
      obtain ⟨sound, justified⟩ := each _ List.mem_cons_self
      obtain ⟨sounds, allowed⟩ := soundChildren_of_mapFlags keeps type rest fun entry member =>
        each entry (List.mem_cons_of_mem _ member)
      constructor
      · intro entry member
        rcases List.mem_cons.mp member with rfl | there
        · exact Sound.of_mapFlags keeps child sound
        · exact sounds entry there
      · intro entry member skipped
        rcases List.mem_cons.mp member with rfl | there
        · rw [canIgnore_mapFlags types keeps] at justified
          exact (justified skipped).of_erase types (erase_mapFlags f child).symm
        · exact allowed entry there skipped

end

theorem Sound.of_core {v w : Value Ty Job} (same : v.core = w.core) (sound : Sound types w) :
    Sound types v := by
  apply Sound.of_mapFlags types coreFlags_coreFlags
  rw [show v.mapFlags coreFlags = w.mapFlags coreFlags from same]
  exact sound.mapFlags types coreFlags_coreFlags

/-! ### Storing -/

theorem mem_chain_self (type : TypeRef Ty) : type ∈ types.chain type := by
  rw [Types.chain, Types.chainOf]
  exact List.mem_cons_self

theorem ownArgument_declared {type : TypeRef Ty} {key : Str} {own : Argument Ty Job}
    (found : ownArgument types type key = some own) : own ∈ types.declarations type ∧ own.name = key := by
  constructor
  · exact List.mem_flatMap.mpr ⟨type, mem_chain_self types type, List.mem_of_find?_eq_some found⟩
  · unfold ownArgument at found
    have holds := List.find?_some found
    exact of_decide_eq_true holds

/-- The flags that `set` raises are justified by the argument it has looked up. -/
theorem justified_of_ignoredAt {type : TypeRef Ty} {key : Str} {value : Value Ty Job}
    (ignored : ignoredAt types type key value = true) : Justified types type key value := by
  rcases Bool.or_eq_true_iff.mp ignored with byType | byArgument
  · exact Or.inl (Or.inl byType)
  · split at byArgument
    case h_1 own found =>
        obtain ⟨declared, name⟩ := ownArgument_declared types found
        rcases Bool.or_eq_true_iff.mp byArgument with isIgnored | equal
        · exact Or.inl (Or.inr ⟨own, declared, name, isIgnored⟩)
        · right
          unfold equalsDefault at equal
          split at equal
          · rename_i d isDefault
            exact ⟨own, declared, name, Or.inl ⟨d, isDefault, Or.inl (eq_of_beq equal)⟩⟩
          · cases equal
    case h_2 => cases byArgument

/-- What `set` stores is justified where it is left out, if the value that is stored was. -/
theorem justified_marked {type : TypeRef Ty} {key : Str} {value : Value Ty Job}
    (allowed : value.canIgnore types = true → Justified types type key value)
    (skipped : (marked types type key value).canIgnore types = true) :
    Justified types type key (marked types type key value) := by
  have same : (marked types type key value).erase = value.erase := by
    obtain ⟨f, raised⟩ := exists_marked types type key value
    rw [raised, erase_withFlags]
  apply Justified.of_erase types same
  rcases canIgnore_marked types skipped with before | ignored
  · exact allowed before
  · exact justified_of_ignoredAt types ignored

theorem Sound.marked {type : TypeRef Ty} {key : Str} {value : Value Ty Job} (sound : Sound types value) :
    Sound types (marked types type key value) := by
  obtain ⟨f, raised⟩ := exists_marked types type key value
  rw [raised]
  exact sound.withFlags types f

theorem Sound.insert {flags : Flags} {type : TypeRef Ty} {task : Option Str} {job : Option Job}
    {children : List (Str × Value Ty Job)} {key : Str} {value : Value Ty Job}
    (target : Sound types (.map flags type task job children)) (sound : Sound types value)
    (allowed : value.canIgnore types = true → Justified types type key value) :
    Sound types (.map flags type task job
      (Configuration.insert key (Configuration.marked types type key value) children)) := by
  cases target with
  | map _ _ _ _ _ each justified =>
      apply Sound.map
      · intro entry member
        rcases mem_insert member with rfl | old
        · exact sound.marked types
        · exact each entry old
      · intro entry member skipped
        rcases mem_insert member with rfl | old
        · exact justified_marked types allowed skipped
        · exact justified entry old skipped

theorem Sound.set {target value : Value Ty Job} {key : Str} (sound : Sound types target)
    (soundValue : Sound types value)
    (allowed : value.canIgnore types = true → Justified types (target.type types) key value) :
    Sound types (target.set types key value).1 := by
  rcases set_cases types target key value with same | ⟨flags, type, task, job, children, rfl, _, _, same⟩
  · rwa [same]
  · rw [same]
    exact sound.insert types soundValue allowed

/-! ### Generation -/

namespace Value

mutual

/-- Generation changes nothing but flags. -/
def inert : Value Ty Job → Bool
  | .scalar _ _ => true
  | .array flags _ elements => flags.stops || inertElements elements
  | .map flags type _ _ children =>
      flags.stops ||
        (inertChildren children &&
          (types.declarations type).all fun a => (lookup a.name children).isSome || a.idle)

def inertElements : List (Value Ty Job) → Bool
  | [] => true
  | element :: rest => inert element && inertElements rest

def inertChildren : List (Str × Value Ty Job) → Bool
  | [] => true
  | (_, child) :: rest => inert child && inertChildren rest

end

end Value

/-- Every child that is left out, where generation comes, is fixed or stays as it is. -/
inductive Ready : Value Ty Job → Prop
  | scalar (flags : Flags) (s : Scalar) : Ready (.scalar flags s)
  | array (flags : Flags) (ctype : TypeRef Ty) (elements : List (Value Ty Job))
      (each : flags.stops = false → ∀ element ∈ elements, Ready element) :
      Ready (.array flags ctype elements)
  | map (flags : Flags) (type : TypeRef Ty) (task : Option Str) (job : Option Job)
      (children : List (Str × Value Ty Job))
      (each : flags.stops = false → ∀ entry ∈ children, Ready entry.2)
      (free : flags.stops = false → ∀ entry ∈ children, entry.2.canIgnore types = true →
        Fixed types type entry.1 entry.2 ∨ entry.2.inert types = true) :
      Ready (.map flags type task job children)

/-- The declared defaults and constants leave nothing out without a reason. -/
def DeclaresSound : Prop :=
  ∀ t, ∀ a ∈ types.arguments t, ∀ d, a.value = some d → Sound types d

/-- What a generation does to a value. -/
structure Generates (v v' : Value Ty Job) : Prop where
  type : v'.type types = v.type types
  canIgnore : v'.canIgnore types = v.canIgnore types
  inert : v.inert types = true → v'.core = v.core
  sound : DeclaresSound types → Ready types v → Sound types v → Sound types v'

theorem canIgnore_flags {flags flags' : Flags} (same : coreFlags flags' = coreFlags flags) (ignorable : Bool) :
    (flags'.ignore || ignorable || flags'.isDefault) = (flags.ignore || ignorable || flags.isDefault) := by
  simp only [coreFlags, Flags.mk.injEq] at same
  rw [same.2.1, same.2.2.2.2]

theorem core_elements {before after : List (Value Ty Job)} (each : List.Forall₂ (Generates types) before after)
    (inert : inertElements types before = true) :
    mapFlagsElements coreFlags after = mapFlagsElements coreFlags before := by
  induction each with
  | nil => rfl
  | cons head _ ih =>
      rw [inertElements, Bool.and_eq_true_iff] at inert
      rw [mapFlagsElements, mapFlagsElements, ih inert.2]
      exact congrArg (· :: _) (head.inert inert.1)

theorem core_children {before after : List (Str × Value Ty Job)} (each : EachChild (Generates types) before after)
    (inert : inertChildren types before = true) :
    mapFlagsChildren coreFlags after = mapFlagsChildren coreFlags before := by
  induction each with
  | nil => rfl
  | @cons entry entry' _ _ head _ ih =>
      obtain ⟨key, child⟩ := entry
      obtain ⟨key', child'⟩ := entry'
      obtain ⟨rfl, head⟩ := head
      rw [inertChildren, Bool.and_eq_true_iff] at inert
      rw [mapFlagsChildren, mapFlagsChildren, ih inert.2]
      exact congrArg (fun c => (_, c) :: _) (head.inert inert.1)

theorem sound_supplied (declares : DeclaresSound types) {type : TypeRef Ty} {root value : Value Ty Job}
    {a : Argument Ty Job} {paths : List Str} (declared : a ∈ types.declarations type)
    (supplies : Supplies types ws root a (some (value, paths))) :
    Sound types value ∧ (value.canIgnore types = true → Justified types type a.name value) := by
  obtain ⟨t, own⟩ := mem_declarations types declared
  cases supplies with
  | path name path generator made =>
      exact ⟨.scalar _ _, fun _ => Or.inl (Or.inl types.path_canIgnore)⟩
  | default d generator isDefault =>
      refine ⟨(declares t a own d (value_of_default isDefault)).withFlags types _, fun _ => ?_⟩
      exact Or.inr ⟨a, declared, rfl, Or.inl ⟨d, isDefault, Or.inr (erase_withFlags _ d).symm⟩⟩
  | constant c generator isConstant =>
      refine ⟨(declares t a own c (value_of_constant isConstant)).withFlags types _, fun skipped => ?_⟩
      rw [canIgnore, flags_withFlags, Bool.or_false, Bool.false_or] at skipped
      exact Or.inl (Or.inl skipped)
  | null generator value required =>
      exact ⟨.scalar _ _, fun _ => Or.inr ⟨a, declared, rfl, Or.inr ⟨required, generator, value, rfl⟩⟩⟩

theorem sound_filled (declares : DeclaresSound types) {flags : Flags} {type : TypeRef Ty}
    {task : Option Str} {job : Option Job} {before after : List (Str × Value Ty Job)}
    (filled : Filled types ws type before after) (sound : Sound types (.map flags type task job before)) :
    Sound types (.map flags type task job after) := by
  induction filled with
  | done children => exact sound
  | store a declared missing root value paths supplies rest ih =>
      obtain ⟨soundValue, allowed⟩ := sound_supplied types ws declares declared supplies
      exact ih (sound.insert types soundValue allowed)

theorem filled_inert {type : TypeRef Ty} {before after : List (Str × Value Ty Job)}
    (filled : Filled types ws type before after)
    (complete : ∀ a ∈ types.declarations type, ((lookup a.name before).isSome || a.idle) = true) :
    after = before := by
  cases filled with
  | done => rfl
  | store a declared missing root value paths supplies rest =>
      have present := complete a declared
      rw [missing, supplies.not_idle] at present
      cases present

/-- Generation keeps what is left out justified. -/
theorem generation_sound : GenerationRule types ws (Generates types) where
  refl v := ⟨rfl, rfl, fun _ => rfl, fun _ _ sound => sound⟩
  scalar flags s _ := ⟨rfl, rfl, fun _ => rfl, fun _ _ _ => .scalar _ s⟩
  array flags flags' ctype before after works same each := by
    refine ⟨rfl, canIgnore_flags same _, fun inert => ?_, fun declares ready sound => ?_⟩
    · rw [Value.inert, works, Bool.false_or] at inert
      rw [core, core, mapFlags, mapFlags, same, core_elements types each inert]
    · cases ready with
      | array _ _ _ readyEach =>
          cases sound with
          | array _ _ _ soundEach =>
              apply Sound.array
              intro element member
              obtain ⟨old, inside, generates⟩ := exists_before each member
              exact generates.sound declares (readyEach works old inside) (soundEach old inside)
  map flags flags' type task job before between after works same each filled := by
    refine ⟨rfl, canIgnore_flags same _, fun inert => ?_, fun declares ready sound => ?_⟩
    · rw [Value.inert, works, Bool.false_or, Bool.and_eq_true_iff, List.all_eq_true] at inert
      have unchanged : after = between := by
        apply filled_inert types ws filled
        intro a declared
        rw [isSome_lookup (each.imp fun _ _ same => same.1)]
        exact inert.2 a declared
      rw [core, core, mapFlags, mapFlags, same, unchanged, core_children types each inert.1]
    · apply sound_filled types ws declares filled
      cases ready with
      | map _ _ _ _ _ readyEach free =>
          cases sound with
          | map _ _ _ _ _ soundEach justified =>
              apply Sound.map
              · intro entry member
                obtain ⟨old, inside, _, generates⟩ := exists_before each member
                exact generates.sound declares (readyEach works old inside) (soundEach old inside)
              · intro entry member skipped
                obtain ⟨old, inside, key, generates⟩ := exists_before each member
                rw [generates.canIgnore] at skipped
                rw [key]
                rcases free works old inside skipped with fixed | inert
                · exact Or.inl (fixed.of_type types generates.type)
                · exact (justified old inside skipped).of_erase types (erase_eq_of_core (generates.inert inert))

/-! ### Changes in place -/

/-- No child on the way is left out for what it is worth. -/
def FixedWay : List Selector → Value Ty Job → Prop
  | [], _ => True
  | selector :: rest, v =>
      ∀ child ∈ v.child selector,
        (match v, selector with
          | .map _ type _ _ _, .key name => child.canIgnore types = true → Fixed types type name child
          | _, _ => True) ∧ FixedWay rest child

/-- `v'` has taken the place of `v`. -/
structure Replaces (v v' : Value Ty Job) : Prop where
  type : v'.type types = v.type types
  canIgnore : v'.canIgnore types = v.canIgnore types
  sound : Sound types v'

/-- A change at the end of a way on which nothing is left out for what it is worth. -/
theorem sound_modifyAt {f : Value Ty Job → Value Ty Job} :
    ∀ {way : List Selector} {v : Value Ty Job}, Sound types v → FixedWay types way v →
      (∀ w, v.descend way = some w → Sound types w → Replaces types w (f w)) →
        Replaces types v (v.modifyAt f way)
  | [], v, sound, _, replaces => replaces v rfl sound
  | selector :: rest, v, sound, fixed, replaces => by
      have below {child : Value Ty Job} (found : v.child selector = some child) (soundChild : Sound types child) :
          Replaces types child (child.modifyAt f rest) := by
        apply sound_modifyAt soundChild (fixed child found).2
        intro w reached
        exact replaces w (Option.bind_eq_some_iff.mpr ⟨child, found, reached⟩)
      cases selector with
      | key name =>
          cases sound with
          | scalar flags s => exact ⟨rfl, rfl, .scalar flags s⟩
          | array flags ctype elements each => exact ⟨rfl, rfl, .array flags ctype elements each⟩
          | map flags type task job children each justified =>
              refine ⟨rfl, rfl, ?_⟩
              apply Sound.map
              · intro entry member
                rcases mem_adjust member with same | ⟨child, found, stored, rfl⟩
                · exact each entry same
                · exact (below found (each _ stored)).sound
              · intro entry member skipped
                rcases mem_adjust member with same | ⟨child, found, stored, rfl⟩
                · exact justified entry same skipped
                · have new := below found (each _ stored)
                  rw [new.canIgnore] at skipped
                  exact Or.inl (((fixed child found).1 skipped).of_type types new.type)
      | index position =>
          cases sound with
          | scalar flags s => exact ⟨rfl, rfl, .scalar flags s⟩
          | map flags type task job children each justified =>
              exact ⟨rfl, rfl, .map flags type task job children each justified⟩
          | array flags ctype elements each =>
              refine ⟨rfl, rfl, ?_⟩
              apply Sound.array
              intro element member
              rcases mem_modify member with same | ⟨child, found, rfl⟩
              · exact each element same
              · exact (below found (each _ (List.mem_of_getElem? found))).sound

/-- A change of flags that the digest does not read, anywhere. -/
theorem core_modifyAt {f : Value Ty Job → Value Ty Job} :
    ∀ {way : List Selector} {v : Value Ty Job}, (∀ w, v.descend way = some w → (f w).core = w.core) →
      (v.modifyAt f way).core = v.core
  | [], v, same => same v rfl
  | selector :: rest, v, same => by
      have below {child : Value Ty Job} (found : v.child selector = some child) :
          (child.modifyAt f rest).core = child.core := by
        apply core_modifyAt
        intro w reached
        exact same w (Option.bind_eq_some_iff.mpr ⟨child, found, reached⟩)
      cases selector with
      | key name =>
          cases v with
          | map flags type task job children =>
              rw [modifyAt, modifyChild, core, core, mapFlags, mapFlags, mapFlagsChildren_adjust]
              intro child found
              exact below found
          | scalar flags s => rfl
          | array flags ctype elements => rfl
      | index position =>
          cases v with
          | array flags ctype elements =>
              rw [modifyAt, modifyChild, core, core, mapFlags, mapFlags, mapFlagsElements_modify]
              intro child found
              exact below found
          | scalar flags s => rfl
          | map flags type task job children => rfl

theorem sound_child {selector : Selector} {v child : Value Ty Job} (found : v.child selector = some child)
    (sound : Sound types v) : Sound types child := by
  cases selector with
  | key name =>
      cases sound with
      | map flags type task job children each justified => exact each (name, child) (mem_of_lookup found)
      | scalar flags s => cases found
      | array flags ctype elements each => cases found
  | index position =>
      cases sound with
      | array flags ctype elements each => exact each child (List.mem_of_getElem? found)
      | scalar flags s => cases found
      | map flags type task job children each justified => cases found

theorem sound_descend :
    ∀ {way : List Selector} {v w : Value Ty Job}, v.descend way = some w → Sound types v → Sound types w
  | [], v, w, found, sound => by
      cases found
      exact sound
  | selector :: rest, v, w, found, sound => by
      obtain ⟨child, first, others⟩ := Option.bind_eq_some_iff.mp found
      exact sound_descend others (sound_child types first sound)

theorem sound_displaced {target v : Value Ty Job} {key : Str} (sound : Sound types target)
    (member : v ∈ target.displaced key) : Sound types v := by
  cases sound with
  | scalar flags s => cases member
  | array flags ctype elements each => cases member
  | map flags type task job children each justified =>
      unfold displaced at member
      dsimp only at member
      split at member
      · cases member
      · exact each (key, v) (mem_of_lookup (Option.mem_toList.mp member))

theorem sound_follow {values : List (Value Ty Job)} {handle : Handle} {v : Value Ty Job}
    (sound : ∀ root ∈ values, Sound types root) (found : follow handle values = some v) : Sound types v := by
  obtain ⟨root, inside, way⟩ := Option.bind_eq_some_iff.mp found
  exact sound_descend types way (sound root (List.mem_of_getElem? inside))

theorem Replaces.of_core {v v' : Value Ty Job} (same : v'.core = v.core) (sound : Sound types v) :
    Replaces types v v' :=
  ⟨type_eq_of_core types same, canIgnore_eq_of_core types same, sound.of_core types same⟩

theorem Replaces.trans {v v' v'' : Value Ty Job} (first : Replaces types v v') (second : Replaces types v' v'') :
    Replaces types v v'' :=
  ⟨second.type.trans first.type, second.canIgnore.trans first.canIgnore, second.sound⟩

theorem replaces_generate (declares : DeclaresSound types) {v : Value Ty Job} (ready : Ready types v)
    (sound : Sound types v) : Replaces types v (generate types ws id v).result := by
  have generates := (generation_sound types ws).result v id
  exact ⟨generates.type, generates.canIgnore, generates.sound declares ready sound⟩

theorem replaces_forTask (task : Str) {v : Value Ty Job} (sound : Sound types v) :
    Replaces types v (v.forTask task) := by
  cases sound with
  | scalar flags s => exact ⟨rfl, rfl, .scalar flags s⟩
  | array flags ctype elements each => exact ⟨rfl, rfl, .array flags ctype elements each⟩
  | map flags type task' job children each justified =>
      exact ⟨rfl, rfl, .map flags type (some task) job children each justified⟩

theorem replaces_bindJob (job : Job) {v : Value Ty Job} (sound : Sound types v) :
    Replaces types v (v.bindJob job) := by
  cases sound with
  | scalar flags s => exact ⟨rfl, rfl, .scalar flags s⟩
  | array flags ctype elements each => exact ⟨rfl, rfl, .array flags ctype elements each⟩
  | map flags type task old children each justified =>
      exact ⟨rfl, rfl, .map flags type task (some job) children each justified⟩

theorem Ready.forTask (task : Str) {v : Value Ty Job} (ready : Ready types v) :
    Ready types (v.forTask task) := by
  cases ready with
  | scalar flags s => exact .scalar flags s
  | array flags ctype elements each => exact .array flags ctype elements each
  | map flags type task' job children each free =>
      exact .map flags type (some task) job children each free

/-! ### What is hashed -/

/-- The pairs of a key and a digest that `MapValue::updateDigest` hashes. -/
def hashedPairs (children : List (Str × Value Ty Job)) : List (Str × Symbol) :=
  children.filterMap fun entry =>
    if entry.2.canIgnore types then none else some (entry.1, entry.2.uniqueIdentifier types)

theorem updateChildren_eq_hashedPairs (children : List (Str × Value Ty Job)) :
    updateChildren types children =
      (hashedPairs types children).flatMap fun pair => bytes pair.1 ++ [pair.2] := by
  induction children with
  | nil => rfl
  | cons entry rest ih =>
      obtain ⟨key, child⟩ := entry
      rw [updateChildren, ih, hashedPairs, hashedPairs, List.filterMap_cons]
      cases skipped : child.canIgnore types with
      | true => rfl
      | false => simp [uniqueIdentifier]

/-- A value that nothing justifies leaving out is hashed when it is stored. -/
theorem hashed_insert {type : TypeRef Ty} {key : Str} {value : Value Ty Job}
    (allowed : value.canIgnore types = true → Justified types type key value)
    (unjustified : ¬Justified types type key value) (children : List (Str × Value Ty Job)) :
    (key, value.uniqueIdentifier types) ∈
      hashedPairs types (Configuration.insert key (marked types type key value) children) := by
  obtain ⟨f, raised⟩ := exists_marked types type key value
  have same : (marked types type key value).uniqueIdentifier types = value.uniqueIdentifier types := by
    rw [raised, uniqueIdentifier, uniqueIdentifier, updateDigest_withFlags]
  have hashed : (marked types type key value).canIgnore types = false := by
    rw [← Bool.not_eq_true]
    intro skipped
    apply unjustified
    apply (justified_marked types allowed skipped).of_erase
    rw [raised, erase_withFlags]
  apply List.mem_filterMap.mpr
  refine ⟨(key, marked types type key value), mem_insert_self key _ children, ?_⟩
  dsimp only
  rw [hashed, same]
  rfl

end

/-! ### The client -/

section

variable {Ty : Type} (types : Types Ty JobRef) (ws : Workspace)

theorem replaces_prepare (declares : DeclaresSound types) (task : Str) {v : Value Ty JobRef}
    (ready : Ready types v) (sound : Sound types v) : Replaces types v (prepare types ws task v).1 := by
  have forTask := replaces_forTask types task sound
  have configured : Replaces types v (configure types ws (v.forTask task)).result := by
    have generated := replaces_generate types ws declares (ready.forTask types task) forTask.sound
    exact (forTask.trans types generated).trans types
      (.of_core types (core_configure types ws (v.forTask task)) generated.sound)
  unfold prepare
  dsimp only
  split
  · exact ⟨rfl, rfl, sound⟩
  · split
    · exact forTask
    · split
      · exact configured
      · exact configured

/-- The way to a value passes no child that is left out for what it is worth. -/
def FixedTo (s : Session Ty) (handle : Handle) : Prop :=
  ∀ root, s.values[handle.root]? = some root → FixedWay types handle.way root

/-- A value whose flags let it be left out is stored only where that is justified, and nothing is changed
    inside a child that is left out for what it is worth. -/
def SkipsAsDeclared (s : Session Ty) : Action Ty → Prop
  | .build _ => True
  | .set target key source =>
      ∀ t, follow target s.values = some t → ∀ v, follow source s.values = some v →
        FixedTo types s target ∧ (v.canIgnore types = true → Justified types (t.type types) key v)
  | .generate target =>
      ∀ t, follow target s.values = some t →
        t.inert types = true ∨ (DeclaresSound types ∧ FixedTo types s target ∧ Ready types t)
  | .submit _ target _ =>
      ∀ t, follow target s.values = some t → DeclaresSound types ∧ FixedTo types s target ∧ Ready types t

mutual

theorem sound_of_isFresh : ∀ {v : Value Ty JobRef}, v.isFresh = true → Sound types v
  | .scalar flags s, _ => .scalar flags s
  | .array flags ctype elements, fresh => by
      rw [isFresh, Bool.and_eq_true_iff] at fresh
      exact .array flags ctype elements (sound_of_freshElements fresh.2)
  | .map flags type task job children, fresh => by
      rw [isFresh, Bool.and_eq_true_iff, Bool.and_eq_true_iff, List.isEmpty_iff] at fresh
      obtain ⟨⟨_, rfl⟩, _⟩ := fresh
      exact .map flags type task job [] (by simp) (by simp)

theorem sound_of_freshElements :
    ∀ {elements : List (Value Ty JobRef)}, isFresh.freshElements elements = true →
      ∀ element ∈ elements, Sound types element
  | [], _, _, member => by cases member
  | first :: rest, fresh, element, member => by
      rw [isFresh.freshElements, Bool.and_eq_true_iff] at fresh
      rcases List.mem_cons.mp member with here | there
      · rw [here]
        exact sound_of_isFresh fresh.1
      · exact sound_of_freshElements fresh.2 element there

end

/-- The roots after a change in one place. -/
theorem sound_update {s : Session Ty} (sound : ∀ v ∈ s.values, Sound types v) {handle : Handle}
    (fixed : FixedTo types s handle) {f : Value Ty JobRef → Value Ty JobRef}
    (replaces : ∀ t, follow handle s.values = some t → Sound types t → Replaces types t (f t))
    {v : Value Ty JobRef} (member : v ∈ update handle f s.values) : Sound types v := by
  rcases mem_update member with old | ⟨root, found, rfl⟩
  · exact sound v old
  · apply (sound_modifyAt types (sound root (List.mem_of_getElem? found)) (fixed root found) _).sound
    intro t reached
    exact replaces t (Option.bind_eq_some_iff.mpr ⟨root, found, reached⟩)

theorem step_sound {s s' : Session Ty} {a : Action Ty} (next : step types ws a s = some s')
    (declared : SkipsAsDeclared types s a) (sound : ∀ v ∈ s.values, Sound types v) :
    ∀ v ∈ s'.values, Sound types v := by
  intro v member
  cases a with
  | build value =>
      rw [step, Option.ite_none_right_eq_some] at next
      obtain ⟨fresh, next⟩ := next
      cases next
      rcases List.mem_append.mp member with old | built
      · exact sound v old
      · rw [List.mem_singleton.mp built]
        exact sound_of_isFresh types fresh
  | set target key source =>
      rw [step] at next
      obtain ⟨t, foundTarget, next⟩ := Option.bind_eq_some_iff.mp next
      obtain ⟨value, foundSource, next⟩ := Option.map_eq_some_iff.mp next
      cases next
      obtain ⟨fixed, allowed⟩ := declared t foundTarget value foundSource
      rcases List.mem_append.mp member with updated | displaced
      · apply sound_update types sound fixed _ updated
        intro t' found soundTarget
        cases foundTarget.symm.trans found
        have stored := soundTarget.set types (sound_follow types sound foundSource) allowed
        rcases set_cases types t key value with same | ⟨flags, type, task, job, children, rfl, _, _, same⟩
        · rw [same] at stored ⊢
          exact ⟨rfl, rfl, stored⟩
        · rw [same] at stored ⊢
          exact ⟨rfl, rfl, stored⟩
      · exact sound_displaced types (sound_follow types sound foundTarget) displaced
  | generate target =>
      rw [step] at next
      obtain ⟨t, found, next⟩ := Option.map_eq_some_iff.mp next
      cases next
      rcases declared t found with inert | ⟨declares, fixed, ready⟩
      · rcases mem_update member with old | ⟨root, held, rfl⟩
        · exact sound v old
        · apply (sound root (List.mem_of_getElem? held)).of_core
          apply core_modifyAt
          intro t' reached
          cases found.symm.trans (Option.bind_eq_some_iff.mpr ⟨root, held, reached⟩)
          exact ((generation_sound types ws).result t id).inert inert
      · apply sound_update types sound fixed _ member
        intro t' found' soundTarget
        cases found.symm.trans found'
        exact replaces_generate types ws declares ready soundTarget
  | submit task target dependencies =>
      rw [step, Option.ite_none_right_eq_some] at next
      obtain ⟨_, next⟩ := next
      obtain ⟨t, found, next⟩ := Option.map_eq_some_iff.mp next
      obtain ⟨declares, fixed, ready⟩ := declared t found
      split at next
      · cases next
        apply sound_update types sound fixed _ member
        intro t' found' soundTarget
        cases found.symm.trans found'
        exact replaces_prepare types ws declares task ready soundTarget
      · cases next
        apply sound_update types sound fixed _ member
        intro t' found' soundTarget
        cases found.symm.trans found'
        have prepared := replaces_prepare types ws declares task ready soundTarget
        exact prepared.trans types (replaces_bindJob types _ prepared.sound)

end

/-! ### The result -/

/-- The type `A` declares `x` with the default 1, the type `B` declares `y` with the default 2. -/
def defaulting : Types Str JobRef where
  name t := t
  parent _ := none
  arguments t :=
    if t = str "A" then
      [{ name := str "x", type := .base (str "integer"), required := false,
         value := some (.scalar {} (.integer 1)) }]
    else if t = str "B" then
      [{ name := str "y", type := .base (str "integer"), required := false,
         value := some (.scalar {} (.integer 2)) }]
    else []
  canIgnore t := t == str "path"
  any := str "any"
  boolean := str "boolean"
  integer := str "integer"
  real := str "real"
  string := str "string"
  path := str "path"
  level _ := 0
  level_lt := level_lt_of_none
  nodup t := by
    split
    · decide
    · split
      · decide
      · exact List.nodup_nil
  path_canIgnore := path_beq_path

/-- The client sets `x` to 1 in a map of type `A`, and stores what it gets back as `y` in a map of type
    `B`. -/
def moving : List (Action Str) :=
  [.build (.map {} (.base (str "A")) none none []), .build (.scalar {} (.integer 1)),
    .set ⟨0, []⟩ (str "x") ⟨1, []⟩, .build (.map {} (.base (str "B")) none none []),
    .set ⟨2, []⟩ (str "y") ⟨0, [.key (str "x")]⟩]

/-- The moved value is left out of the identifier of the map of type `B`, though its default is 2. -/
theorem flag_travels :
    ∃ s, (system defaulting weighing).Reachable s ∧
      ∃ children, follow ⟨2, []⟩ s.values = some (.map {} (.base (str "B")) none none children) ∧
        ∃ entry ∈ children, entry.2.canIgnore defaulting = true ∧
          ¬Justified defaulting (.base (str "B")) entry.1 entry.2 := by
  have executed : (TransitionSystem.runActions (step defaulting weighing) moving {}).map
      (fun s => follow ⟨2, []⟩ s.values) =
        some (some (.map {} (.base (str "B")) none none
          [(str "y", .scalar { isDefault := true } (.integer 1))])) := rfl
  obtain ⟨s, run, seen⟩ := TransitionSystem.exists_reachable_of_runActions executed
  refine ⟨s, run, _, seen, _, List.mem_cons_self, by decide, ?_⟩
  rintro ((byType | ⟨a, declared, _, isIgnored⟩) | ⟨a, declared, _, ⟨d, isDefault, equal⟩ | ⟨_, _, noValue, _⟩⟩)
  · exact absurd byType (by decide)
  · cases List.mem_singleton.mp declared
    cases isIgnored
  · cases List.mem_singleton.mp declared
    cases isDefault
    rcases equal with equal | same
    · exact absurd equal (by decide)
    · exact absurd (Scalar.integer.inj (Value.scalar.inj same).2) (by decide)
  · cases List.mem_singleton.mp declared
    cases noValue

/-- In every state of a run that skips as declared, a child that is left out of the identifier is of an
    ignorable type or under an ignored argument, or it is the default of its argument or the null of an
    optional one; and setting an argument to any other value puts it among the pairs that are hashed. -/
theorem skipped_justified {Ty : Type} (types : Types Ty JobRef) (ws : Workspace) {s : Session Ty}
    (run : (system types ws).RunUnder (SkipsAsDeclared types) s) :
    (∀ (handle : Handle) (flags : Flags) (type : TypeRef Ty) (task : Option Str) (job : Option JobRef)
        (children : List (Str × Value Ty JobRef)),
      follow handle s.values = some (.map flags type task job children) →
        ∀ entry ∈ children, entry.2.canIgnore types = true → Justified types type entry.1 entry.2) ∧
      ∀ (target source : Handle) (key : Str) (flags : Flags) (type : TypeRef Ty) (task : Option Str)
        (job : Option JobRef) (children : List (Str × Value Ty JobRef)) (value : Value Ty JobRef),
      follow target s.values = some (.map flags type task job children) →
        follow source s.values = some value → SkipsAsDeclared types s (.set target key source) →
          flags.isSealed = false → key ∉ restrictedKeys → ¬Justified types type key value →
            ∃ children', ((Value.map flags type task job children).set types key value).1 =
                .map flags type task job children' ∧
              (key, value.uniqueIdentifier types) ∈ hashedPairs types children' ∧
              ((key, value.uniqueIdentifier types) ∉ hashedPairs types children →
                hashedPairs types children' ≠ hashedPairs types children) := by
  have sound : ∀ v ∈ s.values, Sound types v := by
    apply TransitionSystem.System.RunUnder.invariant (fun s => ∀ v ∈ s.values, Sound types v) _ _ run
    · rintro _ rfl v member
      cases member
    · intro s a s' _ declared next before
      exact step_sound types ws next declared before
  constructor
  · intro handle flags type task job children found
    cases sound_follow types sound found with
    | map _ _ _ _ _ _ justified => exact justified
  · intro target source key flags type task job children value found foundValue declared isOpen free unjustified
    refine ⟨_, set_stores types isOpen free, ?_, ?_⟩
    · exact hashed_insert types (declared _ found value foundValue).2 unjustified children
    · intro absent same
      apply absent
      rw [← same]
      exact hashed_insert types (declared _ found value foundValue).2 unjustified children

/-- A map whose default is filled in, which is then left out. -/
theorem skipped_justified_generated :
    ∃ s, (system defaulting weighing).RunUnder (SkipsAsDeclared defaulting) s ∧
      ∃ flags children, follow ⟨0, []⟩ s.values = some (.map flags (.base (str "B")) none none children) ∧
        (∃ entry ∈ children, entry.2.canIgnore defaulting = true) ∧
        ∀ entry ∈ children, entry.2.canIgnore defaulting = true →
          Justified defaulting (.base (str "B")) entry.1 entry.2 := by
  have declares : DeclaresSound defaulting := by
    intro t a declared d value
    unfold defaulting at declared
    dsimp only at declared
    split at declared
    · cases List.mem_singleton.mp declared
      cases value
      exact .scalar _ _
    · split at declared
      · cases List.mem_singleton.mp declared
        cases value
        exact .scalar _ _
      · cases declared
  have built : (system defaulting weighing).RunUnder (SkipsAsDeclared defaulting)
      { values := [.map {} (.base (str "B")) none none []] } :=
    .step (a := .build (.map {} (.base (str "B")) none none [])) (.start rfl) trivial rfl
  have generated : (system defaulting weighing).RunUnder (SkipsAsDeclared defaulting)
      { values := [.map { generated := true } (.base (str "B")) none none
          [(str "y", .scalar { isDefault := true } (.integer 2))]] } := by
    refine .step (a := .generate ⟨0, []⟩) built ?_ rfl
    intro t found
    cases found
    exact Or.inr ⟨declares, fun root _ => trivial, .map _ _ _ _ _ (by simp) (by simp)⟩
  exact ⟨_, generated, _, _, rfl, ⟨_, List.mem_cons_self, by decide⟩,
    (skipped_justified defaulting weighing generated).1 ⟨0, []⟩ _ _ _ _ _ rfl⟩

end Experimaestro.Configuration

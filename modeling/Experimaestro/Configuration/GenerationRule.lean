/-
Module: Experimaestro.Configuration.GenerationRule
Layer: Configuration
Purpose: The induction over a generation, done once. Whatever its outcome, also after an exception half
  way, `generate` has changed the children of a node by generation, then stored values under missing
  declared arguments of a map, and raised GENERATED. A relation between the values before and after that
  follows these steps holds of every generation.
Imports: Experimaestro.Configuration.Flags
Trusted boundary: none
Main exports: marked, set_cases, Filled, GenerationRule, GenerationRule.result
Open obligations: none
-/
import Mathlib.Data.List.Forall2
import Experimaestro.Configuration.Flags

namespace Experimaestro.Configuration

open Value

section

variable {Ty Job : Type} (types : Types Ty Job) (ws : Workspace)

/-! ### What `set` stores -/

/-- What `MapValue::set` stores in a map of a type: the value, with its flags raised unless the comparison
    with the default throws. -/
def marked (type : TypeRef Ty) (key : Str) (value : Value Ty Job) : Value Ty Job :=
  match markFor (ownArgument types type key) value with
  | .ok raised => raised
  | .error _ => value

/-- Whether `set` gives a value a flag that lets it be ignored, or its type does. -/
def ignoredAt (type : TypeRef Ty) (key : Str) (value : Value Ty Job) : Bool :=
  types.canIgnoreOf (value.type types) ||
    match ownArgument types type key with
    | some own => own.ignored || equalsDefault own value == .ok true
    | none => false

/-- `set` in a map that is not sealed. -/
theorem set_stores {flags : Flags} {type : TypeRef Ty} {task : Option Str} {job : Option Job}
    {children : List (Str × Value Ty Job)} {key : Str} {value : Value Ty Job}
    (isOpen : flags.isSealed = false) (free : key ∉ restrictedKeys) :
    ((Value.map flags type task job children).set types key value).1 =
      .map flags type task job (insert key (marked types type key value) children) := by
  unfold Value.set marked
  dsimp only
  rw [isOpen, if_neg Bool.false_ne_true, if_neg free]
  cases markFor (ownArgument types type key) value <;> rfl

theorem set_cases (target : Value Ty Job) (key : Str) (value : Value Ty Job) :
    (target.set types key value).1 = target ∨
      ∃ flags type task job children, target = .map flags type task job children ∧
        flags.isSealed = false ∧ key ∉ restrictedKeys ∧
        (target.set types key value).1 = .map flags type task job (insert key (marked types type key value) children) := by
  cases target with
  | scalar flags s => exact Or.inl rfl
  | array flags ctype elements => exact Or.inl rfl
  | map flags type task job children =>
      cases closed : flags.isSealed with
      | true =>
          rw [Value.set, closed, if_pos rfl]
          exact Or.inl rfl
      | false =>
          by_cases restricted : key ∈ restrictedKeys
          · rw [Value.set, closed, if_neg Bool.false_ne_true, if_pos restricted]
            exact Or.inl rfl
          · exact Or.inr ⟨flags, type, task, job, children, rfl, closed, restricted,
              set_stores types closed restricted⟩

/-- The map itself keeps its flags. -/
theorem flags_after_set (target : Value Ty Job) (key : Str) (value : Value Ty Job) :
    (target.set types key value).1.flags = target.flags := by
  rcases set_cases types target key value with same | ⟨flags, type, task, job, children, rfl, _, _, stored⟩
  · rw [same]
  · rw [stored]
    rfl

/-- `set` changes the flags of what it stores and nothing else. -/
theorem exists_marked (type : TypeRef Ty) (key : Str) (value : Value Ty Job) :
    ∃ f : Flags → Flags, marked types type key value = value.withFlags f := by
  have same : value = value.withFlags id := by cases value <;> rfl
  unfold marked markFor
  cases ownArgument types type key with
  | none => exact ⟨id, same⟩
  | some own =>
      dsimp only
      cases equalsDefault own value with
      | error e => exact ⟨id, same⟩
      | ok isDefault => exact ⟨_, rfl⟩

theorem canIgnore_markFor {type : TypeRef Ty} {key : Str} {value raised : Value Ty Job}
    (marks : markFor (ownArgument types type key) value = .ok raised) :
    raised.canIgnore types =
      (value.flags.ignore || value.flags.isDefault || ignoredAt types type key value) := by
  unfold markFor at marks
  unfold ignoredAt
  cases own : ownArgument types type key with
  | none =>
      rw [own] at marks
      cases marks
      rw [canIgnore]
      cases value.flags.ignore <;> cases value.flags.isDefault <;> simp
  | some argument =>
      rw [own] at marks
      dsimp only at marks ⊢
      cases equal : equalsDefault argument value with
      | error e =>
          rw [equal] at marks
          cases marks
      | ok isDefault =>
          rw [equal] at marks
          cases marks
          rw [canIgnore, type_withFlags, flags_withFlags]
          cases value.flags.ignore <;> cases value.flags.isDefault <;> cases isDefault <;>
            cases argument.ignored <;> cases types.canIgnoreOf (value.type types) <;> rfl

theorem canIgnore_marked {type : TypeRef Ty} {key : Str} {value : Value Ty Job}
    (ignored : (marked types type key value).canIgnore types = true) :
    value.canIgnore types = true ∨ ignoredAt types type key value = true := by
  unfold marked at ignored
  cases marks : markFor (ownArgument types type key) value with
  | error e =>
      rw [marks] at ignored
      exact Or.inl ignored
  | ok raised =>
      rw [marks] at ignored
      dsimp only at ignored
      rw [canIgnore_markFor types marks] at ignored
      rw [canIgnore]
      cases here : ignoredAt types type key value with
      | true => exact Or.inr rfl
      | false =>
          rw [here, Bool.or_false] at ignored
          rcases Bool.or_eq_true_iff.mp ignored with ignore | isDefault
          · exact Or.inl (by rw [ignore]; rfl)
          · exact Or.inl (by rw [isDefault, Bool.or_true])

theorem ignoredAt_withFlags (type : TypeRef Ty) (key : Str) (f : Flags → Flags) (value : Value Ty Job) :
    ignoredAt types type key (value.withFlags f) = ignoredAt types type key value := by
  simp only [ignoredAt, type_withFlags, equalsDefault, equals_withFlags]

/-! ### The rule -/

theorem mem_declarations {type : TypeRef Ty} {a : Argument Ty Job} (declared : a ∈ types.declarations type) :
    ∃ t, a ∈ types.arguments t := by
  obtain ⟨current, _, own⟩ := List.mem_flatMap.mp declared
  cases current with
  | base t => exact ⟨t, own⟩
  | array component => cases own

theorem value_of_default {a : Argument Ty Job} {d : Value Ty Job} (isDefault : a.defaultValue = some d) :
    a.value = some d := by
  unfold Argument.defaultValue at isDefault
  split at isDefault
  · cases isDefault
  · exact isDefault

theorem value_of_constant {a : Argument Ty Job} {c : Value Ty Job} (isConstant : a.constant = some c) :
    a.value = some c := by
  unfold Argument.constant at isConstant
  split at isConstant
  · exact isConstant
  · cases isConstant

/-- The children of a map of a type, before and after values are stored under missing arguments. -/
inductive Filled (type : TypeRef Ty) : List (Str × Value Ty Job) → List (Str × Value Ty Job) → Prop
  | done (children : List (Str × Value Ty Job)) : Filled type children children
  | store {children after : List (Str × Value Ty Job)} (a : Argument Ty Job)
      (declared : a ∈ types.declarations type) (missing : lookup a.name children = none)
      (root value : Value Ty Job) (paths : List Str)
      (supplies : Supplies types ws root a (some (value, paths)))
      (rest : Filled type (insert a.name (marked types type a.name value) children) after) :
      Filled type children after

/-- Children before and after, by their keys. -/
def EachChild (Q : Value Ty Job → Value Ty Job → Prop) (before after : List (Str × Value Ty Job)) : Prop :=
  List.Forall₂ (fun entry entry' => entry'.1 = entry.1 ∧ Q entry.2 entry'.2) before after

theorem isSome_lookup {α : Type} {before after : List (Str × α)}
    (keys : List.Forall₂ (fun entry entry' => entry'.1 = entry.1) before after) (key : Str) :
    (lookup key after).isSome = (lookup key before).isSome := by
  induction keys with
  | nil => rfl
  | cons head _ ih =>
      rw [lookup, lookup, head]
      split
      · rfl
      · exact ih

/-- What comes out of a pairwise change comes from one of the entries before. -/
theorem exists_before {α β : Type} {R : α → β → Prop} {before : List α} {after : List β}
    (each : List.Forall₂ R before after) {b : β} (member : b ∈ after) : ∃ a ∈ before, R a b := by
  induction each with
  | nil => cases member
  | cons head _ ih =>
      rcases List.mem_cons.mp member with rfl | there
      · exact ⟨_, List.mem_cons_self, head⟩
      · obtain ⟨a, inside, related⟩ := ih there
        exact ⟨a, List.mem_cons_of_mem _ inside, related⟩

/-- `generate` leaves a value with these flags as it is, with or without an exception. -/
def Flags.stops (flags : Flags) : Bool := flags.generated || flags.isSealed

/-- A relation that the steps of a generation establish. -/
structure GenerationRule (Q : Value Ty Job → Value Ty Job → Prop) : Prop where
  refl : ∀ v, Q v v
  scalar : ∀ flags s, flags.stops = false → Q (.scalar flags s) (.scalar { flags with generated := true } s)
  array : ∀ flags flags' ctype before after, flags.stops = false → coreFlags flags' = coreFlags flags →
    List.Forall₂ Q before after → Q (.array flags ctype before) (.array flags' ctype after)
  map : ∀ flags flags' type task job before between after, flags.stops = false →
    coreFlags flags' = coreFlags flags → EachChild Q before between →
    Filled types ws type between after →
      Q (.map flags type task job before) (.map flags' type task job after)

/-- `generate` has raised GENERATED or left the flags as they are. -/
def Flags.Generating (flags flags' : Flags) : Prop := flags' = flags ∨ flags' = { flags with generated := true }

/-- The same, with all that a generation does to the flags. -/
structure FlagRule (Q : Value Ty Job → Value Ty Job → Prop) : Prop where
  refl : ∀ v, Q v v
  scalar : ∀ flags s, flags.stops = false → Q (.scalar flags s) (.scalar { flags with generated := true } s)
  array : ∀ flags flags' ctype before after, flags.stops = false → flags.Generating flags' →
    List.Forall₂ Q before after → Q (.array flags ctype before) (.array flags' ctype after)
  map : ∀ flags flags' type task job before between after, flags.stops = false →
    flags.Generating flags' → EachChild Q before between →
    Filled types ws type between after →
      Q (.map flags type task job before) (.map flags' type task job after)

theorem Generated.next_cases {α β : Type} (r : Generated α) (wrap : α → β) (rest : α → Generated β) :
    (r.next wrap rest).result = (rest r.result).result ∨ (r.next wrap rest).result = wrap r.result := by
  unfold Generated.next
  cases r.error with
  | none => exact Or.inl rfl
  | some e => exact Or.inr rfl

theorem Generated.next_wrap {α β : Type} (r : Generated α) (wrap : α → β) :
    (r.next wrap fun a => ⟨wrap a, [], none⟩).result = wrap r.result :=
  (Generated.next_cases r wrap fun a => ⟨wrap a, [], none⟩).elim id id

/-- Raising GENERATED, or not. -/
theorem Generated.finish_cases (r : Generated (Value Ty Job)) :
    r.finish.result = r.result.withFlags (fun flags => { flags with generated := true }) ∨
      r.finish.result = r.result := by
  unfold Generated.finish
  cases r.error with
  | none => exact Or.inl rfl
  | some e => exact Or.inr rfl

theorem generateStop_cases (v : Value Ty Job) (r : Generated (Value Ty Job)) :
    ((Value.generateStop v).getD r).result = v ∨
      (v.flags.stops = false ∧ (Value.generateStop v).getD r = r) := by
  unfold Value.generateStop Flags.stops
  cases v.flags.generated with
  | true => exact Or.inl rfl
  | false =>
      cases v.flags.isSealed with
      | true => exact Or.inl rfl
      | false => exact Or.inr ⟨rfl, rfl⟩

/-- The loop of `_generate` fills in declared arguments. -/
theorem exists_filled {within : Value Ty Job → Value Ty Job} {flags : Flags} {type : TypeRef Ty}
    {task : Option Str} {job : Option Job} :
    ∀ (arguments : List (Argument Ty Job)) (children : List (Str × Value Ty Job)),
      (∀ a ∈ arguments, a ∈ types.declarations type) →
        ∃ after, Filled types ws type children after ∧
          (fill types ws within arguments (.map flags type task job children)).result =
            .map flags type task job after
  | [], children, _ => by
      rw [fill]
      exact ⟨children, .done children, rfl⟩
  | a :: rest, children, declared => by
      have continues (children : List (Str × Value Ty Job)) : ∃ after, Filled types ws type children after ∧
          (fill types ws within rest (.map flags type task job children)).result =
            .map flags type task job after :=
        exists_filled rest children fun b member => declared b (List.mem_cons_of_mem a member)
      rw [fill, hasKey]
      cases present : lookup a.name children with
      | some value => exact continues children
      | none =>
          rw [Option.isSome_none, if_neg Bool.false_ne_true]
          split
          · exact ⟨children, .done children, rfl⟩
          · exact continues children
          · rename_i value paths missing
            have supplies := missingValue_ok types ws missing
            have stored (after : List (Str × Value Ty Job))
                (filled : Filled types ws type
                  (insert a.name (marked types type a.name value) children) after) :
                Filled types ws type children after :=
              .store a (declared a List.mem_cons_self) present _ value paths supplies filled
            have outcome := set_cases types (.map flags type task job children) a.name value
            split
            case h_1 v' e failed =>
                rw [failed] at outcome
                rcases outcome with same | ⟨_, _, _, _, _, target, _, _, same⟩
                · exact ⟨children, .done children, same⟩
                · cases target
                  exact ⟨_, stored _ (.done _), same⟩
            case h_2 v' ok =>
                rw [ok] at outcome
                rcases outcome with same | ⟨_, _, _, _, _, target, _, _, same⟩
                · rw [show v' = _ from same]
                  exact continues children
                · cases target
                  rw [show v' = _ from same]
                  obtain ⟨after, filled, result⟩ := continues (insert a.name (marked types type a.name value) children)
                  exact ⟨after, stored after filled, result⟩

namespace FlagRule

variable {types ws} {Q : Value Ty Job → Value Ty Job → Prop}

theorem each_refl (rule : FlagRule types ws Q) (children : List (Str × Value Ty Job)) :
    EachChild Q children children :=
  List.forall₂_same.mpr fun entry _ => ⟨rfl, rule.refl entry.2⟩

mutual

/-- A relation that follows the steps of a generation holds between the values before and after. -/
theorem result (rule : FlagRule types ws Q) :
    ∀ (v : Value Ty Job) (within : Value Ty Job → Value Ty Job), Q v (generate types ws within v).result
  | .scalar flags s, within => by
      rw [generate]
      rcases generateStop_cases (.scalar flags s) _ with same | ⟨fresh, same⟩
      · rw [same]
        exact rule.refl _
      · rw [same]
        exact rule.scalar flags s fresh
  | .array flags ctype elements, within => by
      rw [generate]
      rcases generateStop_cases (.array flags ctype elements) _ with same | ⟨fresh, same⟩
      · rw [same]
        exact rule.refl _
      · rw [same]
        have elements' := resultElements rule elements fun es => within (.array flags ctype es)
        rcases Generated.finish_cases (Generated.next _ _ _) with raised | kept
        · rw [raised, Generated.next_wrap]
          exact rule.array flags _ ctype elements _ fresh (Or.inr rfl) elements'
        · rw [kept, Generated.next_wrap]
          exact rule.array flags flags ctype elements _ fresh (Or.inl rfl) elements'
  | .map flags type task job children, within => by
      rw [generate]
      rcases generateStop_cases (.map flags type task job children) _ with same | ⟨fresh, same⟩
      · rw [same]
        exact rule.refl _
      · rw [same]
        have children' := resultChildren rule children fun cs => within (.map flags type task job cs)
        obtain ⟨after, filled, next⟩ : ∃ after, Filled types ws type
            (generateChildren types ws (fun cs => within (.map flags type task job cs)) children).result after ∧
            ((generateChildren types ws (fun cs => within (.map flags type task job cs)) children).next
              (Value.map flags type task job) fun cs =>
                fill types ws within (types.declarations type) (.map flags type task job cs)).result =
              .map flags type task job after := by
          rcases Generated.next_cases
            (generateChildren types ws (fun cs => within (.map flags type task job cs)) children)
            (Value.map flags type task job) (fun cs =>
              fill types ws within (types.declarations type) (.map flags type task job cs)) with went | stopped
          · rw [went]
            exact exists_filled types ws _ _ fun _ member => member
          · exact ⟨_, .done _, stopped⟩
        rcases Generated.finish_cases (Generated.next _ _ _) with raised | kept
        · rw [raised, next]
          exact rule.map flags _ type task job children _ after fresh (Or.inr rfl) children' filled
        · rw [kept, next]
          exact rule.map flags flags type task job children _ after fresh (Or.inl rfl) children' filled

theorem resultElements (rule : FlagRule types ws Q) :
    ∀ (elements : List (Value Ty Job)) (within : List (Value Ty Job) → Value Ty Job),
      List.Forall₂ Q elements (generateElements types ws within elements).result
  | [], _ => by
      rw [generateElements]
      exact .nil
  | element :: rest, within => by
      rw [generateElements]
      have element' := result rule element fun e => within (e :: rest)
      rcases Generated.next_cases (generate types ws (fun e => within (e :: rest)) element) _ _ with went | stopped
      · rw [went, Generated.next_wrap]
        exact .cons element' (resultElements rule rest _)
      · rw [stopped]
        exact .cons element' (List.forall₂_same.mpr fun e _ => rule.refl e)

theorem resultChildren (rule : FlagRule types ws Q) :
    ∀ (children : List (Str × Value Ty Job)) (within : List (Str × Value Ty Job) → Value Ty Job),
      EachChild Q children (generateChildren types ws within children).result
  | [], _ => by
      rw [generateChildren]
      exact .nil
  | (key, child) :: rest, within => by
      rw [generateChildren]
      have child' := result rule child fun c => within ((key, c) :: rest)
      rcases Generated.next_cases (generate types ws (fun c => within ((key, c) :: rest)) child) _ _ with
        went | stopped
      · rw [went, Generated.next_wrap]
        exact .cons ⟨rfl, child'⟩ (resultChildren rule rest _)
      · rw [stopped]
        exact .cons ⟨rfl, child'⟩ (each_refl rule rest)

end

end FlagRule

theorem Flags.Generating.coreFlags_eq {flags flags' : Flags} (generating : flags.Generating flags') :
    coreFlags flags' = coreFlags flags := by
  rcases generating with rfl | rfl <;> rfl

namespace GenerationRule

variable {types ws} {Q : Value Ty Job → Value Ty Job → Prop}

/-- A rule that only looks at the flags the digest reads. -/
theorem flagRule (rule : GenerationRule types ws Q) : FlagRule types ws Q where
  refl := rule.refl
  scalar := rule.scalar
  array flags flags' ctype before after fresh generating :=
    rule.array flags flags' ctype before after fresh generating.coreFlags_eq
  map flags flags' type task job before between after fresh generating :=
    rule.map flags flags' type task job before between after fresh generating.coreFlags_eq

theorem result (rule : GenerationRule types ws Q) (v : Value Ty Job) (within : Value Ty Job → Value Ty Job) :
    Q v (generate types ws within v).result :=
  rule.flagRule.result v within

end GenerationRule

end

end Experimaestro.Configuration

/-
Module: Experimaestro.Library.SharedPermits
Layer: Library
Purpose: Reference-counted permits drawn from pools. A claim `d` costs `cost d` from its pool; the permit
  drawn for it is an object that several owners may hold together, and the cost is given back when the
  last owner drops it. Each claim remembers its latest permit without keeping it alive, so that a claim
  whose permit is still held is shared and not drawn again. The rule by which a pool admits a new permit
  is a parameter: the results below hold for any rule, over any commutative group of amounts (the
  integers, or machine words where sums wrap around). `Tracked` says that a held permit is the latest
  one of its claim, hence that a claim has at most one permit; `load` sums a weight over the claims of
  a pool that hold a permit. The counter of a pool is always its load (`Balanced`), and stays within a
  limit when claims are admitted only where the sum does not wrap (`Within`).
Imports: Mathlib.Algebra.BigOperators.Group.Finset.Basic, Mathlib.Data.Finset.Filter, Mathlib.Logic.Relation
Trusted boundary: none (fully proved)
Main exports: State, Step, Effect, step_effect, Tracked, unique_permit, load, Balanced,
  step_balanced, Within, step_within
Open obligations: none
-/
import Mathlib.Algebra.BigOperators.Group.Finset.Basic
import Mathlib.Data.Finset.Filter
import Mathlib.Logic.Relation

namespace SharedPermits

variable {D T C : Type}

/-- Pools, permits and owners. `objects` lists the claim of every permit ever drawn, the permit being
    its index; `current` is the permit a claim remembers; an owner holds a list of permits. -/
structure State (D T C : Type) where
  used : T → C
  objects : List D
  current : D → Option ℕ
  owners : List (List ℕ)

namespace State

/-- A permit is live while some owner holds it. -/
def Live (s : State D T C) (l : ℕ) : Prop := ∃ held ∈ s.owners, l ∈ held

/-- A claim has a live permit. -/
def Holds (s : State D T C) (d : D) : Prop := ∃ l, s.objects[l]? = some d ∧ s.Live l

/-- No permit drawn, no owner, nothing remembered. -/
def init [Zero C] : State D T C where
  used _ := 0
  objects := []
  current _ := none
  owners := []

end State

/-! ### Holding a permit after an owner's list has changed -/

/-- A permit is live when the given owner or another one holds it. -/
theorem live_iff {s : State D T C} {o : ℕ} {held : List ℕ} (owner : s.owners[o]? = some held) (l : ℕ) :
    s.Live l ↔ l ∈ held ∨ ∃ i other, i ≠ o ∧ s.owners[i]? = some other ∧ l ∈ other := by
  constructor
  · rintro ⟨other, member, inside⟩
    obtain ⟨i, at_i⟩ := List.mem_iff_getElem?.mp member
    by_cases same : i = o
    · subst i
      rw [owner, Option.some.injEq] at at_i
      exact Or.inl (at_i ▸ inside)
    · exact Or.inr ⟨i, other, same, at_i, inside⟩
  · rintro (inside | ⟨i, other, _, at_i, inside⟩)
    · exact ⟨held, List.mem_iff_getElem?.mpr ⟨o, owner⟩, inside⟩
    · exact ⟨other, List.mem_iff_getElem?.mpr ⟨i, at_i⟩, inside⟩

/-- Liveness once the given owner's list has been replaced. -/
theorem live_set_iff {s s' : State D T C} {o : ℕ} {held held' : List ℕ}
    (owner : s.owners[o]? = some held) (owners : s'.owners = s.owners.set o held') (l : ℕ) :
    s'.Live l ↔ l ∈ held' ∨ ∃ i other, i ≠ o ∧ s.owners[i]? = some other ∧ l ∈ other := by
  have inRange : o < s.owners.length := (List.getElem?_eq_some_iff.mp owner).1
  have replaced : s'.owners[o]? = some held' := by
    rw [owners, List.getElem?_set_self inRange]
  rw [live_iff replaced]
  refine or_congr_right ?_
  constructor
  · rintro ⟨i, other, ne, at_i, inside⟩
    rw [owners, List.getElem?_set_ne (Ne.symm ne)] at at_i
    exact ⟨i, other, ne, at_i, inside⟩
  · rintro ⟨i, other, ne, at_i, inside⟩
    refine ⟨i, other, ne, ?_, inside⟩
    rw [owners, List.getElem?_set_ne (Ne.symm ne)]
    exact at_i

/-- Adding a permit to one owner makes exactly that permit live. -/
theorem live_add_iff {s s' : State D T C} {o l : ℕ} {held : List ℕ}
    (owner : s.owners[o]? = some held) (owners : s'.owners = s.owners.set o (held ++ [l])) (m : ℕ) :
    s'.Live m ↔ s.Live m ∨ m = l := by
  rw [live_set_iff owner owners, live_iff owner, List.mem_append, List.mem_singleton]
  constructor
  · rintro ((inside | rfl) | others)
    · exact Or.inl (Or.inl inside)
    · exact Or.inr rfl
    · exact Or.inl (Or.inr others)
  · rintro ((inside | others) | rfl)
    · exact Or.inl (Or.inl inside)
    · exact Or.inr others
    · exact Or.inl (Or.inr rfl)

/-- Dropping a permit from one owner affects the liveness of that permit only. -/
theorem live_drop_iff {s s' : State D T C} {o l : ℕ} {held : List ℕ}
    (owner : s.owners[o]? = some held) (owners : s'.owners = s.owners.set o (held.erase l)) {m : ℕ}
    (other : m ≠ l) : s'.Live m ↔ s.Live m := by
  rw [live_set_iff owner owners, live_iff owner, List.mem_erase_of_ne other]

/-- The holders are a matter of the permits drawn and of their liveness. -/
theorem holds_of_live {s s' : State D T C} (objects : s'.objects = s.objects)
    (live : ∀ l, s'.Live l ↔ s.Live l) (e : D) : s'.Holds e ↔ s.Holds e := by
  simp only [State.Holds, objects, live]

/-! ### At most one permit for a claim -/

/-- Every live permit is the one its claim remembers. -/
def Tracked (s : State D T C) : Prop :=
  ∀ l, s.Live l → ∃ d, s.objects[l]? = some d ∧ s.current d = some l

/-- In a tracked state a claim has at most one live permit. -/
theorem unique_permit {s : State D T C} (tracked : Tracked s) {d : D} {l m : ℕ}
    (live_l : s.Live l) (live_m : s.Live m) (object_l : s.objects[l]? = some d)
    (object_m : s.objects[m]? = some d) : l = m := by
  obtain ⟨d₁, at_l, current_l⟩ := tracked l live_l
  obtain ⟨d₂, at_m, current_m⟩ := tracked m live_m
  rw [object_l, Option.some.injEq] at at_l
  rw [object_m, Option.some.injEq] at at_m
  subst d₁ d₂
  rw [current_l, Option.some.injEq] at current_m
  exact current_m

/-- A claim whose remembered permit has expired holds none. -/
theorem not_holds_of_expired {s : State D T C} (tracked : Tracked s) {d : D}
    (expired : ∀ l, s.current d = some l → ¬ s.Live l) : ¬ s.Holds d := by
  rintro ⟨l, object, live⟩
  obtain ⟨d', at_l, current⟩ := tracked l live
  rw [object, Option.some.injEq] at at_l
  subst d'
  exact expired l current live

/-- Drawing a permit adds its claim to the holders. -/
theorem holds_draw_iff {s s' : State D T C} (tracked : Tracked s) {o : ℕ} {held : List ℕ} {d : D}
    (owner : s.owners[o]? = some held) (objects : s'.objects = s.objects ++ [d])
    (owners : s'.owners = s.owners.set o (held ++ [s.objects.length])) (e : D) :
    s'.Holds e ↔ s.Holds e ∨ e = d := by
  constructor
  · rintro ⟨l, object, live⟩
    rw [objects] at object
    rcases (live_add_iff owner owners l).mp live with old | rfl
    · obtain ⟨d', at_l, _⟩ := tracked l old
      rw [List.getElem?_append_left (List.getElem?_eq_some_iff.mp at_l).1] at object
      exact Or.inl ⟨l, object, old⟩
    · rw [List.getElem?_concat_length, Option.some.injEq] at object
      exact Or.inr object.symm
  · rintro (⟨l, object, live⟩ | rfl)
    · refine ⟨l, ?_, (live_add_iff owner owners l).mpr (Or.inl live)⟩
      rw [objects]
      exact (List.getElem?_append_left (List.getElem?_eq_some_iff.mp object).1).trans object
    · refine ⟨s.objects.length, ?_, (live_add_iff owner owners _).mpr (Or.inr rfl)⟩
      rw [objects]
      exact List.getElem?_concat_length

/-! ### The load of a pool -/

section Load

variable {pool : D → Option T} {M : Type} [AddCommMonoid M]

open Classical in
/-- The claims on a pool that have a live permit. -/
noncomputable def holders (pool : D → Option T) (s : State D T C) (t : T) : Finset D :=
  s.objects.toFinset.filter fun d => pool d = some t ∧ s.Holds d

/-- The sum of a weight over the claims on a pool that have a live permit. -/
noncomputable def load (pool : D → Option T) (weight : D → M) (s : State D T C) (t : T) : M :=
  ∑ d ∈ holders pool s t, weight d

@[simp] theorem mem_holders {s : State D T C} {t : T} {d : D} :
    d ∈ holders pool s t ↔ pool d = some t ∧ s.Holds d := by
  have drawn : s.Holds d → d ∈ s.objects := fun ⟨_, object, _⟩ => List.mem_of_getElem? object
  simp only [holders, Finset.mem_filter, List.mem_toFinset]
  exact ⟨And.right, fun both => ⟨drawn both.2, both⟩⟩

/-- The load only depends on which claims hold a permit. -/
theorem load_congr {s s' : State D T C} (same : ∀ d, s'.Holds d ↔ s.Holds d) (weight : D → M) (t : T) :
    load pool weight s' t = load pool weight s t := by
  have equal : holders pool s' t = holders pool s t := by
    ext d
    rw [mem_holders, mem_holders, same d]
  rw [load, load, equal]

/-- A claim that starts to hold a permit adds its weight to its own pool. -/
theorem load_insert {s s' : State D T C} {d : D} {t : T} (source : pool d = some t)
    (before : ¬ s.Holds d) (after : ∀ e, s'.Holds e ↔ s.Holds e ∨ e = d) (weight : D → M) :
    load pool weight s' t = weight d + load pool weight s t := by
  classical
  have equal : holders pool s' t = insert d (holders pool s t) := by
    ext e
    rw [mem_holders, Finset.mem_insert, mem_holders, after]
    constructor
    · rintro ⟨from_t, held | rfl⟩
      · exact Or.inr ⟨from_t, held⟩
      · exact Or.inl rfl
    · rintro (rfl | ⟨from_t, held⟩)
      · exact ⟨source, Or.inr rfl⟩
      · exact ⟨from_t, Or.inl held⟩
  rw [load, equal, Finset.sum_insert (fun member => before (mem_holders.mp member).2), load]

/-- The other pools do not notice it. -/
theorem load_insert_of_ne {s s' : State D T C} {d : D} {t u : T} (source : pool d = some t) (ne : u ≠ t)
    (after : ∀ e, s'.Holds e ↔ s.Holds e ∨ e = d) (weight : D → M) :
    load pool weight s' u = load pool weight s u := by
  have equal : holders pool s' u = holders pool s u := by
    ext e
    rw [mem_holders, mem_holders, after]
    constructor
    · rintro ⟨from_u, held | rfl⟩
      · exact ⟨from_u, held⟩
      · rw [source, Option.some.injEq] at from_u
        exact absurd from_u.symm ne
    · rintro ⟨from_u, held⟩
      exact ⟨from_u, Or.inl held⟩
  rw [load, equal, load]

/-- Without a live permit there is no load. -/
theorem load_eq_zero {s : State D T C} (none_live : ∀ l, ¬ s.Live l) (weight : D → M) (t : T) :
    load pool weight s t = 0 := by
  refine Finset.sum_eq_zero fun d member => ?_
  obtain ⟨l, _, live⟩ := (mem_holders.mp member).2
  exact absurd live (none_live l)

end Load

/-! ### Steps -/

section Protocol

variable [DecidableEq D] [DecidableEq T] [AddCommGroup C]

/-- The steps of the protocol. `admits d used` is the test a pool makes on its counter before it lets
    claim `d` draw a permit. -/
inductive Step (pool : D → Option T) (cost : D → C) (admits : D → C → Prop) :
    State D T C → State D T C → Prop where
  | enter (s : State D T C) :
      Step pool cost admits s { s with owners := s.owners ++ [[]] }
  | share (s : State D T C) {o l : ℕ} {held : List ℕ} {d : D} (owner : s.owners[o]? = some held)
      (remembered : s.current d = some l) (live : s.Live l) :
      Step pool cost admits s { s with owners := s.owners.set o (held ++ [l]) }
  | acquire (s : State D T C) {o : ℕ} {held : List ℕ} {d : D} {t : T}
      (owner : s.owners[o]? = some held) (expired : ∀ l, s.current d = some l → ¬ s.Live l)
      (source : pool d = some t) (admitted : admits d (s.used t)) :
      Step pool cost admits s
        { used := Function.update s.used t (s.used t + cost d)
          objects := s.objects ++ [d]
          current := Function.update s.current d (some s.objects.length)
          owners := s.owners.set o (held ++ [s.objects.length]) }
  | forget (s : State D T C) {d : D} (expired : ∀ l, s.current d = some l → ¬ s.Live l) :
      Step pool cost admits s { s with current := Function.update s.current d none }
  | give (s : State D T C) {o l : ℕ} {held : List ℕ} (owner : s.owners[o]? = some held)
      (live : State.Live { s with owners := s.owners.set o (held.erase l) } l) :
      Step pool cost admits s { s with owners := s.owners.set o (held.erase l) }
  | giveLast (s : State D T C) {o l : ℕ} {held : List ℕ} {d : D} {t : T}
      (owner : s.owners[o]? = some held) (member : l ∈ held)
      (last : ¬ State.Live { s with owners := s.owners.set o (held.erase l) } l)
      (object : s.objects[l]? = some d) (source : pool d = some t) :
      Step pool cost admits s
        { s with
          used := Function.update s.used t (s.used t - cost d)
          owners := s.owners.set o (held.erase l) }

variable {pool : D → Option T} {cost : D → C} {admits : D → C → Prop}

/-- Every step keeps live permits remembered: a new permit is drawn only for a claim whose previous one
    has expired. -/
theorem step_tracked {s s' : State D T C} (step : Step pool cost admits s s') (tracked : Tracked s) :
    Tracked s' := by
  cases step with
  | enter =>
      rintro l ⟨held, member, inside⟩
      rcases List.mem_append.mp member with old | new
      · exact tracked l ⟨held, old, inside⟩
      · rw [List.mem_singleton] at new
        subst held
        cases inside
  | share owner remembered live =>
      intro l live_l
      rcases (live_add_iff owner rfl l).mp live_l with old | rfl
      · exact tracked l old
      · exact tracked l live
  | @acquire o held d t owner expired source admitted =>
      intro l live_l
      rcases (live_add_iff (s := s) owner rfl l).mp live_l with old | rfl
      · obtain ⟨d', object, current⟩ := tracked l old
        have other : d' ≠ d := by
          rintro rfl
          exact expired l current old
        have inRange := (List.getElem?_eq_some_iff.mp object).1
        exact ⟨d', (List.getElem?_append_left inRange).trans object,
          (Function.update_of_ne other _ _).trans current⟩
      · exact ⟨d, by simp, by simp⟩
  | @forget d expired =>
      intro l live_l
      obtain ⟨d', object, current⟩ := tracked l live_l
      have other : d' ≠ d := by
        rintro rfl
        exact expired l current live_l
      exact ⟨d', object, (Function.update_of_ne other _ _).trans current⟩
  | @give o l held owner live =>
      intro m live_m
      by_cases same : m = l
      · subst m
        refine tracked l ((live_iff owner l).mpr ?_)
        rcases (live_set_iff (s := s) owner rfl l).mp live with inside | others
        · exact Or.inl (List.mem_of_mem_erase inside)
        · exact Or.inr others
      · exact tracked m ((live_drop_iff (s := s) owner rfl same).mp live_m)
  | @giveLast o l held d t owner member last object source =>
      intro m live_m
      have other : m ≠ l := by
        rintro rfl
        exact last live_m
      exact tracked m ((live_drop_iff (s := s) owner rfl other).mp live_m)

/-- What a step does to the holders and to the counters: nothing, or one claim starts to hold a permit
    and its cost is counted, or one claim stops holding one and its cost is given back. -/
inductive Effect (pool : D → Option T) (cost : D → C) (admits : D → C → Prop)
    (s s' : State D T C) : Prop where
  | same (holds : ∀ e, s'.Holds e ↔ s.Holds e) (used : s'.used = s.used)
  | drawn (d : D) (t : T) (source : pool d = some t) (admitted : admits d (s.used t))
      (before : ¬ s.Holds d) (after : ∀ e, s'.Holds e ↔ s.Holds e ∨ e = d)
      (used : s'.used = Function.update s.used t (s.used t + cost d))
  | returned (d : D) (t : T) (source : pool d = some t) (after : ¬ s'.Holds d)
      (before : ∀ e, s.Holds e ↔ s'.Holds e ∨ e = d)
      (used : s'.used = Function.update s.used t (s.used t - cost d))

/-- The three effects cover every step out of a tracked state. -/
theorem step_effect {s s' : State D T C} (step : Step pool cost admits s s') (tracked : Tracked s) :
    Effect pool cost admits s s' := by
  cases step with
  | enter =>
      refine .same (holds_of_live rfl fun l => ?_) rfl
      constructor
      · rintro ⟨held, member, inside⟩
        rcases List.mem_append.mp member with old | new
        · exact ⟨held, old, inside⟩
        · rw [List.mem_singleton] at new
          subst held
          cases inside
      · rintro ⟨held, member, inside⟩
        exact ⟨held, List.mem_append_left _ member, inside⟩
  | share owner remembered live =>
      refine .same (holds_of_live rfl fun m => ?_) rfl
      rw [live_add_iff (s := s) owner rfl]
      exact ⟨fun either => either.elim id (· ▸ live), Or.inl⟩
  | @acquire o held d t owner expired source admitted =>
      exact .drawn d t source admitted (not_holds_of_expired tracked expired)
        (holds_draw_iff tracked owner rfl rfl) rfl
  | forget expired => exact .same (holds_of_live rfl fun _ => Iff.rfl) rfl
  | @give o l held owner live =>
      refine .same (holds_of_live rfl fun m => ?_) rfl
      by_cases same : m = l
      · subst m
        refine ⟨fun _ => (live_iff owner l).mpr ?_, fun _ => live⟩
        rcases (live_set_iff (s := s) owner rfl l).mp live with inside | others
        · exact Or.inl (List.mem_of_mem_erase inside)
        · exact Or.inr others
      · exact live_drop_iff (s := s) owner rfl same
  | @giveLast o l held d t owner member last object source =>
      have live : s.Live l := (live_iff owner l).mpr (Or.inl member)
      have kept : ∀ m, m ≠ l → (State.Live
          { s with
            used := Function.update s.used t (s.used t - cost d)
            owners := s.owners.set o (held.erase l) } m ↔ s.Live m) :=
        fun m other => live_drop_iff (s := s) owner rfl other
      refine .returned d t source ?_ (fun e => ⟨?_, ?_⟩) rfl
      · rintro ⟨m, at_m, live_m⟩
        by_cases same : m = l
        · exact last (same ▸ live_m)
        · exact same (unique_permit tracked ((kept m same).mp live_m) live at_m object)
      · rintro ⟨m, at_m, live_m⟩
        by_cases same : m = l
        · subst m
          rw [object, Option.some.injEq] at at_m
          exact Or.inr at_m.symm
        · exact Or.inl ⟨m, at_m, (kept m same).mpr live_m⟩
      · rintro (⟨m, at_m, live_m⟩ | rfl)
        · have other : m ≠ l := by
            rintro rfl
            exact last live_m
          exact ⟨m, at_m, (kept m other).mp live_m⟩
        · exact ⟨l, object, live⟩

/-! ### The counters are the loads -/

/-- Live permits are remembered and the counter of every pool is the sum of the costs it has out. -/
structure Balanced (pool : D → Option T) (cost : D → C) (s : State D T C) : Prop where
  tracked : Tracked s
  used_eq_load : ∀ t, s.used t = load pool cost s t

omit [DecidableEq D] [DecidableEq T] in
/-- The empty state is balanced. -/
theorem balanced_init : Balanced pool cost (State.init : State D T C) := by
  have none_live : ∀ l, ¬ (State.init : State D T C).Live l := by
    rintro l ⟨held, member, _⟩
    cases member
  exact ⟨fun l live => absurd live (none_live l), fun t => (load_eq_zero none_live cost t).symm⟩

/-- No step loses an amount or gives one back twice. -/
theorem step_balanced {s s' : State D T C} (step : Step pool cost admits s s')
    (balanced : Balanced pool cost s) : Balanced pool cost s' := by
  refine ⟨step_tracked step balanced.tracked, fun u => ?_⟩
  cases step_effect step balanced.tracked with
  | same holds used => rw [used, load_congr holds, balanced.used_eq_load]
  | drawn d t source _ before after used =>
      rw [used]
      by_cases same : u = t
      · subst u
        rw [Function.update_self, load_insert source before after, balanced.used_eq_load, add_comm]
      · rw [Function.update_of_ne same, load_insert_of_ne source same after, balanced.used_eq_load]
  | returned d t source after before used =>
      rw [used]
      by_cases same : u = t
      · subst u
        rw [Function.update_self, balanced.used_eq_load, load_insert source after before,
          add_sub_cancel_left]
      · rw [Function.update_of_ne same, balanced.used_eq_load, load_insert_of_ne source same before]

/-! ### Counters that do not wrap -/

section Bound

variable {limit : T → ℕ} {value : C → ℕ} {weight : D → ℕ}

/-- The numbers the counters stand for: every counter reads as the natural sum of the weights it has
    out, and that sum respects the limit. -/
structure Within (pool : D → Option T) (limit : T → ℕ) (value : C → ℕ) (weight : D → ℕ)
    (s : State D T C) : Prop where
  tracked : Tracked s
  value_eq_load : ∀ t, value (s.used t) = load pool weight s t
  load_le : ∀ t, load pool weight s t ≤ limit t

/-- If a pool admits a claim only when its counter can take the weight without wrapping and stays
    within the limit, every step respects the limits. -/
theorem step_within
    (grow : ∀ d t u, pool d = some t → admits d u →
      value (u + cost d) = value u + weight d ∧ value u + weight d ≤ limit t)
    (shrink : ∀ d u, weight d ≤ value u → value (u - cost d) = value u - weight d)
    {s s' : State D T C} (step : Step pool cost admits s s') (within : Within pool limit value weight s) :
    Within pool limit value weight s' := by
  have each : ∀ u, value (s'.used u) = load pool weight s' u ∧ load pool weight s' u ≤ limit u := by
    intro u
    have value_u := within.value_eq_load u
    have load_u := within.load_le u
    cases step_effect step within.tracked with
    | same holds used =>
        rw [used, load_congr holds]
        exact ⟨value_u, load_u⟩
    | drawn d t source admitted before after used =>
        rw [used]
        by_cases same : u = t
        · subst u
          obtain ⟨sum, bound⟩ := grow d t _ source admitted
          rw [Function.update_self, load_insert source before after, sum, ← value_u]
          omega
        · rw [Function.update_of_ne same, load_insert_of_ne source same after]
          exact ⟨value_u, load_u⟩
    | returned d t source after before used =>
        rw [used]
        by_cases same : u = t
        · subst u
          rw [load_insert source after before] at value_u load_u
          rw [Function.update_self, shrink d _ (by omega)]
          omega
        · rw [Function.update_of_ne same]
          rw [load_insert_of_ne source same before] at value_u load_u
          exact ⟨value_u, load_u⟩
  exact ⟨step_tracked step within.tracked, fun t => (each t).1, fun t => (each t).2⟩

end Bound

end Protocol

end SharedPermits

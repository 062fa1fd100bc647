/-
Module: Experimaestro.Library.Lineage
Layer: Library
Purpose: The chain of an element and its ancestors under a partial parent function, as a relation that has no
  chain for an element on or below a cycle. It says when a chain stays what it was while parents are given to
  elements that had none, when a new parent makes no cycle, and that a loop over the ancestors of an element ends
  exactly if the element has a chain.
Imports: Mathlib.Data.List.Nodup, Mathlib.Logic.Function.Basic
Trusted boundary: none (fully proved)
Main exports: Lineage, Lineage.unique, Lineage.exists_of_rank, Lineage.nodup, Lineage.earlier, Lineage.same_iff,
  Lineage.congr, Lineage.pull, Lineage.pull_part, Lineage.not_mem_of_update, Lineage.exists_update, ascend,
  Lineage.ascend_ends,
  exists_lineage_of_ascend
Open obligations: none
-/
import Mathlib.Data.List.Nodup
import Mathlib.Logic.Function.Basic

/-- An element and its ancestors, up to one without a parent. -/
inductive Lineage {α : Type*} (parent : α → Option α) : α → List α → Prop
  | root {x : α} (top : parent x = none) : Lineage parent x [x]
  | child {x p : α} {above : List α} (up : parent x = some p) (rest : Lineage parent p above) :
      Lineage parent x (x :: above)

namespace Lineage

variable {α β : Type*} {parent later : α → Option α} {x : α} {chain : List α}

theorem unique {other : List α} (one : Lineage parent x chain) (two : Lineage parent x other) :
    chain = other := by
  induction one generalizing other with
  | root top =>
      cases two with
      | root _ => rfl
      | child up _ =>
          rw [top] at up
          cases up
  | child up _ ih =>
      cases two with
      | root top =>
          rw [top] at up
          cases up
      | child up' rest =>
          cases up.symm.trans up'
          rw [ih rest]

theorem head_mem (line : Lineage parent x chain) : x ∈ chain := by
  cases line with
  | root _ => exact List.mem_cons_self
  | child _ _ => exact List.mem_cons_self

/-- The chain of an ancestor is the rest of the chain. -/
theorem suffix {y : α} (line : Lineage parent x chain) (member : y ∈ chain) :
    ∃ rest, Lineage parent y rest ∧ rest <:+ chain := by
  induction line with
  | root top =>
      cases List.mem_singleton.mp member
      exact ⟨_, .root top, List.suffix_refl _⟩
  | child up rest ih =>
      rcases List.mem_cons.mp member with rfl | above
      · exact ⟨_, .child up rest, List.suffix_refl _⟩
      · obtain ⟨tail, line, inside⟩ := ih above
        exact ⟨tail, line, inside.trans (List.suffix_cons _ _)⟩

/-- Where parents have a lower rank, every element has a chain. -/
theorem exists_of_rank (rank : α → ℕ) (lower : ∀ x p, parent x = some p → rank p < rank x) (x : α) :
    ∃ chain, Lineage parent x chain := by
  generalize level : rank x = n
  induction n using Nat.strongRecOn generalizing x with
  | ind n ih =>
      cases up : parent x with
      | none => exact ⟨[x], .root up⟩
      | some p =>
          obtain ⟨chain, above⟩ := ih (rank p) (level ▸ lower x p up) p rfl
          exact ⟨x :: chain, .child up above⟩

/-- An element is not its own ancestor. -/
theorem nodup (line : Lineage parent x chain) : chain.Nodup := by
  induction line with
  | root _ => exact List.nodup_singleton _
  | @child x p above up rest ih =>
      apply List.nodup_cons.mpr
      refine ⟨fun again => ?_, ih⟩
      obtain ⟨tail, line, inside⟩ := rest.suffix again
      have whole : tail = x :: above := line.unique (.child up rest)
      have short := inside.length_le
      rw [whole, List.length_cons] at short
      exact absurd short (Nat.not_succ_le_self _)

/-- An element that is its own parent has no chain. -/
theorem not_of_self (loop : parent x = some x) : ¬ Lineage parent x chain := by
  intro line
  have distinct := line.nodup
  cases line with
  | root top => cases top.symm.trans loop
  | child up rest =>
      cases loop.symm.trans up
      exact (List.nodup_cons.mp distinct).1 rest.head_mem

/-- Where parents are only added, a chain was a part of the later one. -/
theorem earlier (grows : ∀ x p, parent x = some p → later x = some p) (line : Lineage later x chain) :
    ∃ before, Lineage parent x before ∧ before <+: chain := by
  induction line with
  | @root x top =>
      cases up : parent x with
      | none => exact ⟨_, .root up, List.prefix_refl _⟩
      | some p =>
          rw [grows x p up] at top
          cases top
  | @child x p above now rest ih =>
      cases up : parent x with
      | none => exact ⟨_, .root up, List.prefix_append [x] above⟩
      | some q =>
          cases (grows x q up).symm.trans now
          obtain ⟨before, line, inside⟩ := ih
          exact ⟨_, .child up line, (List.prefix_cons_inj x).mpr inside⟩

theorem not_nil : ¬ Lineage parent x [] := nofun

/-- A chain is what it was exactly when none of its elements has got a parent since. -/
theorem same_iff (grows : ∀ x p, parent x = some p → later x = some p) (line : Lineage later x chain) :
    Lineage parent x chain ↔ ∀ y ∈ chain, ∀ p, later y = some p → parent y = some p := by
  constructor
  · intro before
    induction before with
    | @root x top =>
        intro y member p up
        cases List.mem_singleton.mp member
        cases line with
        | root none => cases none.symm.trans up
        | child _ rest => exact absurd rest not_nil
    | @child x q above up rest ih =>
        intro y member p now
        have same : later x = some q := grows x q up
        cases line with
        | root top => cases top.symm.trans same
        | child up' rest' =>
            cases same.symm.trans up'
            rcases List.mem_cons.mp member with rfl | inside
            · cases same.symm.trans now
              exact up
            · exact ih rest' y inside p now
  · intro kept
    induction line with
    | @root x top =>
        apply Lineage.root
        cases up : parent x with
        | none => rfl
        | some p => cases (grows x p up).symm.trans top
    | @child x p above up rest ih =>
        have first : parent x = some p := kept x List.mem_cons_self p up
        exact .child first (ih fun y member => kept y (List.mem_cons_of_mem _ member))

/-- A chain only depends on the parents of its elements. -/
theorem congr (same : ∀ y ∈ chain, later y = parent y) (line : Lineage parent x chain) : Lineage later x chain := by
  induction line with
  | root top => exact .root ((same _ List.mem_cons_self).trans top)
  | child up rest ih =>
      exact .child ((same _ List.mem_cons_self).trans up) (ih fun y member => same y (List.mem_cons_of_mem _ member))

/-- A chain of names is that of the objects, where the parents of objects and of names correspond. -/
theorem pull {name : β → α} {up : β → Option β} {inside : β → Prop}
    (named : ∀ b, inside b → (up b).map name = parent (name b)) (closed : ∀ b c, inside b → up b = some c → inside c)
    {b : β} (member : inside b) (line : Lineage parent (name b) chain) :
    ∃ objects, Lineage up b objects ∧ objects.map name = chain ∧ ∀ c ∈ objects, inside c := by
  generalize start : name b = x at line
  induction line generalizing b with
  | root top =>
      subst start
      have none : up b = none := Option.map_eq_none_iff.mp ((named b member).trans top)
      exact ⟨[b], .root none, rfl, fun c single => List.mem_singleton.mp single ▸ member⟩
  | child parented rest ih =>
      subst start
      obtain ⟨c, found, same⟩ := Option.map_eq_some_iff.mp ((named b member).trans parented)
      obtain ⟨objects, above, names, all⟩ := ih (closed b c member found) same
      refine ⟨b :: objects, .child found above, by rw [List.map_cons, names], fun d inner => ?_⟩
      rcases List.mem_cons.mp inner with rfl | later
      · exact member
      · exact all d later

/-- Where some objects have no parent though their names have one, the chain of the objects is a first part of
    that of the names. -/
theorem pull_part {name : β → α} {up : β → Option β} {inside : β → Prop}
    (named : ∀ b, inside b → (up b).map name = parent (name b) ∨ up b = none)
    (closed : ∀ b c, inside b → up b = some c → inside c)
    {b : β} (member : inside b) (line : Lineage parent (name b) chain) :
    ∃ objects, Lineage up b objects ∧ objects.map name <+: chain ∧ ∀ c ∈ objects, inside c := by
  have alone (b : β) (member : inside b) (none : up b = none) (chain : List α) (line : Lineage parent (name b) chain) :
      ∃ objects, Lineage up b objects ∧ objects.map name <+: chain ∧ ∀ c ∈ objects, inside c := by
    refine ⟨[b], .root none, ?_, fun c single => List.mem_singleton.mp single ▸ member⟩
    cases line with
    | root _ => exact List.prefix_refl _
    | child _ _ => exact ⟨_, rfl⟩
  generalize start : name b = x at line
  induction line generalizing b with
  | root top =>
      subst start
      have none : up b = none := by
        obtain same | none := named b member
        · exact Option.map_eq_none_iff.mp (same.trans top)
        · exact none
      exact alone b member none _ (.root top)
  | child parented rest ih =>
      subst start
      obtain same | none := named b member
      · obtain ⟨c, found, same⟩ := Option.map_eq_some_iff.mp (same.trans parented)
        obtain ⟨objects, above, names, all⟩ := ih (closed b c member found) same
        refine ⟨b :: objects, .child found above, ?_, List.forall_mem_cons.mpr ⟨member, all⟩⟩
        rw [List.map_cons]
        exact (List.prefix_cons_inj _).mpr names
      · exact alone b member none _ (.child parented rest)

/-! ### A new parent -/

section

variable [DecidableEq α] {q : α}

/-- A new parent whose ancestors, with it, end is not below the element. -/
theorem not_mem_of_update {after : List α} (top : parent x = none) (line : Lineage parent q chain)
    (updated : Lineage (Function.update parent x (some q)) x after) : x ∉ chain := by
  have self : Function.update parent x (some q) x = some q := Function.update_self x (some q) parent
  have grows (y p : α) (up : parent y = some p) : Function.update parent x (some q) y = some p := by
    have other : y ≠ x := by
      rintro rfl
      cases top.symm.trans up
    rw [Function.update_of_ne other, up]
  intro below
  have distinct := updated.nodup
  cases updated with
  | root none => cases none.symm.trans self
  | child up rest =>
      cases self.symm.trans up
      obtain ⟨before, line', inside⟩ := earlier grows rest
      cases line.unique line'
      exact (List.nodup_cons.mp distinct).1 (inside.subset below)

/-- A parent that is not below the element makes no cycle. -/
theorem exists_update (ends : ∀ y, ∃ chain, Lineage parent y chain) (top : parent x = none)
    (line : Lineage parent q chain) (fresh : x ∉ chain) (y : α) :
    ∃ chain, Lineage (Function.update parent x (some q)) y chain := by
  have same {z : α} (other : z ≠ x) : Function.update parent x (some q) z = parent z :=
    Function.update_of_ne other (some q) parent
  have above : Lineage (Function.update parent x (some q)) q chain := by
    apply line.congr
    intro z inside
    apply same
    rintro rfl
    exact fresh inside
  have here : Lineage (Function.update parent x (some q)) x (x :: chain) :=
    .child (Function.update_self x (some q) parent) above
  obtain ⟨before, line'⟩ := ends y
  induction line' with
  | @root z none =>
      by_cases z_eq : z = x
      · rw [z_eq]
        exact ⟨x :: chain, here⟩
      · exact ⟨[z], .root ((same z_eq).trans none)⟩
  | @child z p tail up _ ih =>
      have other : z ≠ x := by
        rintro rfl
        cases top.symm.trans up
      obtain ⟨rest, line''⟩ := ih
      exact ⟨z :: rest, .child ((same other).trans up) line''⟩

end

end Lineage

/-! ### Loops -/

/-- A loop that goes from an element to its parent, as long as there is one, at most `n` times. Its body may leave
    the loop with a result. -/
def ascend {α σ ρ : Type*} (parent : α → Option α) (body : α → σ → Except ρ σ) :
    ℕ → Option α → σ → Option (Except ρ σ)
  | _, none, state => some (.ok state)
  | 0, some _, _ => none
  | n + 1, some x, state =>
      match body x state with
      | .error result => some (.error result)
      | .ok state => ascend parent body n (parent x) state

section

variable {α σ ρ : Type*} {parent : α → Option α} {x : α} {chain : List α}

/-- A loop over the ancestors of an element that has a chain ends. -/
theorem Lineage.ascend_ends {n : ℕ} (line : Lineage parent x chain) (enough : chain.length ≤ n)
    (body : α → σ → Except ρ σ) (state : σ) : ∃ result, ascend parent body n (some x) state = some result := by
  induction line generalizing n state with
  | @root x top =>
      cases n with
      | zero => cases enough
      | succ n =>
          rw [ascend, top]
          cases body x state with
          | error result => exact ⟨_, rfl⟩
          | ok next => exact ⟨.ok next, by cases n <;> rfl⟩
  | @child x p above up rest ih =>
      cases n with
      | zero => cases enough
      | succ n =>
          rw [ascend, up]
          cases body x state with
          | error result => exact ⟨_, rfl⟩
          | ok next => exact ih (Nat.le_of_succ_le_succ enough) next

/-- An element has a chain where a loop over its ancestors that is not left ends. -/
theorem exists_lineage_of_ascend {n : ℕ} {result : Except ρ σ} {body : α → σ → Except ρ σ}
    (stays : ∀ y state, ∃ next, body y state = .ok next) {state : σ}
    (ends : ascend parent body n (some x) state = some result) : ∃ chain, Lineage parent x chain := by
  induction n generalizing x state with
  | zero => cases ends
  | succ n ih =>
      obtain ⟨next, stay⟩ := stays x state
      rw [ascend, stay] at ends
      cases up : parent x with
      | none => exact ⟨[x], .root up⟩
      | some p =>
          rw [up] at ends
          obtain ⟨chain, line⟩ := ih ends
          exact ⟨x :: chain, .child up line⟩

end

/-
Module: Experimaestro.Configuration.CommonAncestors
Layer: Configuration
Purpose: `Type::lca` on a hierarchy of types with unique names. The first loop goes up from the first type and
  returns this type, not the second one, as soon as it meets the second one; the second loop goes up from the
  second type to the first ancestor that the two have in common. The result is the least common ancestor
  unless the second type is a proper ancestor of the first one.
Imports: Experimaestro.Configuration.ArrayTypes (chains of ancestors, the two loops)
Trusted boundary: none (fully proved)
Main exports: Types.UniqueNames, Types.LeastCommon, Types.LcaMeets, chain_antisymm, lca_meets_iff,
  least_common_ancestor
Open obligations: none
-/
import Mathlib.Tactic.Common
import Experimaestro.Configuration.ArrayTypes

namespace Experimaestro.Configuration

variable {Ty Job : Type} (types : Types Ty Job)

namespace Types

/-! ### Ancestors -/

/-- A hierarchy of types with unique names. -/
structure UniqueNames (members : Set (TypeRef Ty)) : Prop where
  parent_mem : ∀ {t p}, t ∈ members → types.parentOf t = some p → p ∈ members
  name_inj : ∀ {s t}, s ∈ members → t ∈ members → types.nameOf s = types.nameOf t → s = t

/-- A common ancestor of two types which every common ancestor is an ancestor of. A type is its own
    ancestor. -/
structure LeastCommon (a b x : TypeRef Ty) : Prop where
  left : x ∈ types.chain a
  right : x ∈ types.chain b
  least : ∀ y, y ∈ types.chain a → y ∈ types.chain b → y ∈ types.chain x

/-- What `Type::lca` is for: the least common ancestor, and `Any` where two types have none. -/
structure LcaMeets (a b : TypeRef Ty) : Prop where
  common : (∃ y ∈ types.chain a, y ∈ types.chain b) → types.LeastCommon a b (types.lca a b)
  apart : (∀ y ∈ types.chain a, y ∉ types.chain b) → types.lca a b = .base types.any

variable {types} {members : Set (TypeRef Ty)}

theorem mem_chain_self (t : TypeRef Ty) : t ∈ types.chain t := by
  rw [types.chain_eq t]
  exact List.mem_cons_self

/-- A proper ancestor has a lower level. -/
theorem level_of_mem_chain {s t : TypeRef Ty} (above : t ∈ types.chain s) :
    t = s ∨ types.levelOf t < types.levelOf s := by
  induction s using types.chain_induction with
  | up s ih =>
      rw [types.chain_eq s] at above
      cases parent : types.parentOf s with
      | none =>
          rw [parent] at above
          exact Or.inl (List.mem_singleton.mp above)
      | some p =>
          rw [parent] at above
          have lower := types.levelOf_lt parent
          rcases List.mem_cons.mp above with same | higher
          · exact Or.inl same
          · right
            rcases ih p parent higher with rfl | below
            · exact lower
            · exact Nat.lt_trans below lower

/-- Two types that are ancestors of each other are the same. -/
theorem chain_antisymm {s t : TypeRef Ty} (above : t ∈ types.chain s) (below : s ∈ types.chain t) : s = t := by
  rcases level_of_mem_chain above with same | lower
  · exact same.symm
  · rcases level_of_mem_chain below with same | higher
    · exact same
    · omega

theorem LeastCommon.unique {a b x y : TypeRef Ty} (one : types.LeastCommon a b x)
    (two : types.LeastCommon a b y) : x = y :=
  chain_antisymm (one.least y two.left two.right) (two.least x one.left one.right)

theorem LeastCommon.symm {a b x : TypeRef Ty} (least : types.LeastCommon a b x) : types.LeastCommon b a x where
  left := least.right
  right := least.left
  least y in_b in_a := least.least y in_a in_b

theorem UniqueNames.mem_of_mem_chain (unique : types.UniqueNames members) {t x : TypeRef Ty}
    (member : t ∈ members) (above : x ∈ types.chain t) : x ∈ members := by
  induction t using types.chain_induction with
  | up t ih =>
      rw [types.chain_eq t] at above
      cases parent : types.parentOf t with
      | none =>
          rw [parent] at above
          exact List.mem_singleton.mp above ▸ member
      | some p =>
          rw [parent] at above
          rcases List.mem_cons.mp above with rfl | higher
          · exact member
          · exact ih p parent (unique.parent_mem member parent) higher

/-- Where names are unique, the comparison of names finds the ancestors. -/
theorem UniqueNames.below_iff (unique : types.UniqueNames members) {s t : TypeRef Ty} (s_mem : s ∈ members)
    (t_mem : t ∈ members) : types.below s t ↔ t ∈ types.chain s := by
  constructor
  · intro below
    obtain ⟨x, above, name⟩ := List.mem_map.mp below
    exact unique.name_inj (unique.mem_of_mem_chain s_mem above) t_mem name ▸ above
  · exact List.mem_map_of_mem

/-! ### `Type::lca` -/

/-- Where the second type is above the first one, the first one is the result. -/
theorem lca_of_below {a b : TypeRef Ty} (below : types.below a b) : types.lca a b = a := by
  rw [lca, if_pos ((any_chain_iff a b).mpr below)]

/-- The result is what it is for, unless the second type is a proper ancestor of the first one. -/
theorem UniqueNames.lca_meets_iff (unique : types.UniqueNames members) {a b : TypeRef Ty} (a_mem : a ∈ members)
    (b_mem : b ∈ members) : types.LcaMeets a b ↔ (b ∈ types.chain a → a = b) := by
  constructor
  · intro meets above
    have result := lca_of_below ((unique.below_iff a_mem b_mem).mpr above)
    have least := meets.common ⟨b, above, mem_chain_self b⟩
    rw [result] at least
    exact chain_antisymm above least.right
  · intro proper
    by_cases above : b ∈ types.chain a
    · cases proper above
      have result := lca_of_below ((unique.below_iff a_mem b_mem).mpr above)
      refine ⟨fun _ => ?_, fun none => absurd above (none a above)⟩
      rw [result]
      exact ⟨above, above, fun y in_a _ => in_a⟩
    · have not_below : ¬ types.below a b := fun below => above ((unique.below_iff a_mem b_mem).mp below)
      have common_iff {y : TypeRef Ty} (in_b : y ∈ types.chain b) : types.below a y ↔ y ∈ types.chain a :=
        unique.below_iff a_mem (unique.mem_of_mem_chain b_mem in_b)
      rcases lca_cases not_below with ⟨before, x, after, chain, result, below, first⟩ | ⟨result, none⟩
      · have in_b : x ∈ types.chain b := by simp [chain]
        have in_a := (common_iff in_b).mp below
        refine ⟨fun _ => ?_, fun apart => absurd in_b (apart x in_a)⟩
        rw [result]
        refine ⟨in_a, in_b, fun y y_a y_b => ?_⟩
        have below_y := (common_iff y_b).mpr y_a
        rw [types.chain_of_append chain]
        rw [chain] at y_b
        -- the loop has passed what comes before the result
        rcases List.mem_append.mp y_b with early | late
        · exact absurd below_y (first y early)
        · exact late
      · refine ⟨fun ⟨y, y_a, y_b⟩ => ?_, fun _ => result⟩
        exact absurd ((common_iff y_b).mpr y_a) (none y y_b)

/-- Where neither type is a proper ancestor of the other, the order of the arguments does not matter. -/
theorem lca_symm {a b : TypeRef Ty} (meets : types.LcaMeets a b) (meets' : types.LcaMeets b a) :
    types.lca a b = types.lca b a := by
  by_cases related : ∃ y ∈ types.chain a, y ∈ types.chain b
  · obtain ⟨y, in_a, in_b⟩ := related
    exact (meets.common ⟨y, in_a, in_b⟩).unique (meets'.common ⟨y, in_b, in_a⟩).symm
  · push Not at related
    rw [meets.apart related, meets'.apart fun y in_b in_a => related y in_a in_b]

end Types

/-- `Type::lca` gives the least common ancestor, with one name in both orders of the arguments, exactly when
    neither type is a proper ancestor of the other. It gives the least common ancestor in one order exactly
    when the second type is no proper ancestor of the first. -/
theorem least_common_ancestor {members : Set (TypeRef Ty)} (unique : types.UniqueNames members)
    {a b : TypeRef Ty} (a_mem : a ∈ members) (b_mem : b ∈ members) :
    (types.LcaMeets a b ∧ types.nameOf (types.lca a b) = types.nameOf (types.lca b a) ↔
        (a ∈ types.chain b ∨ b ∈ types.chain a → a = b)) ∧
      (types.LcaMeets a b ↔ (b ∈ types.chain a → a = b)) := by
  have meets_iff := unique.lca_meets_iff a_mem b_mem
  have meets_iff' := unique.lca_meets_iff b_mem a_mem
  refine ⟨⟨?_, ?_⟩, meets_iff⟩
  · rintro ⟨meets, names⟩ (below | above)
    · have least := meets.common ⟨a, Types.mem_chain_self a, below⟩
      have result : types.lca a b = a :=
        Types.chain_antisymm (least.least a (Types.mem_chain_self a) below) least.left
      rw [result, Types.lca_of_below ((unique.below_iff b_mem a_mem).mpr below)] at names
      exact unique.name_inj a_mem b_mem names
    · exact meets_iff.mp meets above
  · intro proper
    have meets := meets_iff.mpr fun above => proper (Or.inr above)
    have meets' := meets_iff'.mpr fun below => (proper (Or.inl below)).symm
    exact ⟨meets, congrArg types.nameOf (Types.lca_symm meets meets')⟩

/-! ### Samples -/

theorem sample_uniqueNames : sampleTypes.UniqueNames {t | t ∈ sampleMembers} where
  parent_mem {t p} member up := by
    have closed : ∀ t ∈ sampleMembers, ∀ p ∈ sampleTypes.parentOf t, p ∈ sampleMembers := by decide
    exact closed t member p up
  name_inj {s t} s_mem t_mem name := by
    have unique : ∀ s ∈ sampleMembers, ∀ t ∈ sampleMembers,
        sampleTypes.nameOf s = sampleTypes.nameOf t → s = t := by decide
    exact unique s s_mem t t_mem name

/-- Integers and reals have `Any` as their least common ancestor. -/
theorem least_common_ancestor_numbers :
    sampleTypes.LcaMeets (.base .integer) (.base .real) ∧
      sampleTypes.nameOf (sampleTypes.lca (.base .integer) (.base .real)) =
        sampleTypes.nameOf (sampleTypes.lca (.base .real) (.base .integer)) := by
  have integer_mem : .base .integer ∈ sampleMembers := by decide
  have real_mem : .base .real ∈ sampleMembers := by decide
  exact (least_common_ancestor sampleTypes sample_uniqueNames integer_mem real_mem).1.mpr (by decide)

/-- `B` has the parent `A`, and `lca(B, A)` is `B`. -/
theorem lca_of_parent : sampleTypes.parentOf (.base .B) = some (.base .A) ∧
    sampleTypes.lca (.base .B) (.base .A) = .base .B ∧ ¬ sampleTypes.LcaMeets (.base .B) (.base .A) ∧
    sampleTypes.nameOf (sampleTypes.lca (.base .B) (.base .A)) ≠
      sampleTypes.nameOf (sampleTypes.lca (.base .A) (.base .B)) := by
  refine ⟨rfl, by decide, fun meets => ?_, by decide⟩
  have least := meets.common ⟨.base .A, by decide, by decide⟩
  exact absurd least.right (by decide)

end Experimaestro.Configuration

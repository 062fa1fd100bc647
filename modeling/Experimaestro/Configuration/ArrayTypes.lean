/-
Module: Experimaestro.Configuration.ArrayTypes
Layer: Configuration
Purpose: Type checking of arrays. `ArrayValue::push_back` folds the types of the elements with `Type::lca`,
  and `MapValue::_validate` compares the array type of the result with the declared one. The names of the
  ancestors make a type hierarchy a forest; `Type::lca` returns its first argument, not the second one,
  when the second is an ancestor of the first. `array_check` says for which lists of elements the check of
  the array agrees with the check of each element.
Imports: Experimaestro.Library.Forest, Experimaestro.Configuration.Exposure (the sample)
Trusted boundary: none (fully proved)
Main exports: Types.names, Types.below, Types.Hierarchy, Types.Hierarchy.forest, lca_folds,
  accepts_array_iff, Detached, Overtaken, Widened, array_check
Open obligations: none
-/
import Mathlib.Data.Set.CoeSort
import Mathlib.Tactic.Common
import Experimaestro.Library.Forest
import Experimaestro.Configuration.Exposure

namespace Experimaestro.Configuration

variable {Ty Job : Type} (types : Types Ty Job)

/-! ### Chains of ancestors -/

namespace Types

/-- The bound of the loop over a chain does not matter if it is large enough. -/
theorem chainOf_congr (n k : ℕ) (t : TypeRef Ty) (n_enough : types.levelOf t < n)
    (k_enough : types.levelOf t < k) : types.chainOf n t = types.chainOf k t := by
  induction n generalizing k t with
  | zero => cases n_enough
  | succ n ih =>
      cases k with
      | zero => cases k_enough
      | succ k =>
          simp only [chainOf]
          cases parent : types.parentOf t with
          | none => rfl
          | some p =>
              have lower := types.levelOf_lt parent
              simp only [ih k p (by omega) (by omega)]

/-- A chain goes on with the chain of the parent. -/
theorem chain_eq (t : TypeRef Ty) :
    types.chain t = t :: match types.parentOf t with
      | some p => types.chain p
      | none => [] := by
  rw [chain, chainOf]
  cases parent : types.parentOf t with
  | none => rfl
  | some p =>
      have lower := types.levelOf_lt parent
      simp only [chain, types.chainOf_congr (types.levelOf t) _ p lower (Nat.lt_succ_self _)]

/-- An induction over chains: a type whose parent has the property has it. -/
theorem chain_induction {holding : TypeRef Ty → Prop}
    (up : ∀ t, (∀ p, types.parentOf t = some p → holding p) → holding t) (t : TypeRef Ty) : holding t := by
  generalize level : types.levelOf t = n
  induction n using Nat.strongRecOn generalizing t with
  | ind n ih => exact up t fun p parent => ih _ (level ▸ types.levelOf_lt parent) p rfl

/-- What follows a type in a chain is its own chain. -/
theorem chain_of_append {t x : TypeRef Ty} {before after : List (TypeRef Ty)}
    (split : types.chain t = before ++ x :: after) : types.chain x = x :: after := by
  induction before generalizing t with
  | nil =>
      have first : t = x := by
        rw [types.chain_eq t] at split
        exact (List.cons.inj split).1
      rw [← first, split, first]
      rfl
  | cons y before ih =>
      rw [types.chain_eq t] at split
      cases parent : types.parentOf t with
      | none => simp [parent] at split
      | some p =>
          rw [parent] at split
          exact ih (List.cons.inj split).2

/-- The chain of an array type. -/
theorem chain_array (t : TypeRef Ty) : types.chain (.array t) = (types.chain t).map .array := by
  induction t using types.chain_induction with
  | up t ih =>
      rw [types.chain_eq (.array t), types.chain_eq t, parentOf]
      cases parent : types.parentOf t with
      | none => rfl
      | some p => simp only [Option.map_some, List.map_cons, ih p parent]

/-- The names of a type and its ancestors. -/
def names (t : TypeRef Ty) : List Str := (types.chain t).map types.nameOf

/-- A type has another one, by its name, among its ancestors or is of the same name. -/
def below (s t : TypeRef Ty) : Prop := types.nameOf t ∈ types.names s

instance (s t : TypeRef Ty) : Decidable (types.below s t) :=
  inferInstanceAs (Decidable (_ ∈ _))

/-- Two types have an ancestor of one name. -/
def related (s t : TypeRef Ty) : Prop := ∃ name ∈ types.names s, name ∈ types.names t

instance (s t : TypeRef Ty) : Decidable (types.related s t) :=
  inferInstanceAs (Decidable (∃ name ∈ _, _))

/-- A type hierarchy: it contains the ancestors of its types and the predefined types, and a name stands
    for one line of ancestors in it. -/
structure Hierarchy (members : Set (TypeRef Ty)) : Prop where
  any_mem : .base types.any ∈ members
  real_mem : .base types.real ∈ members
  integer_mem : .base types.integer ∈ members
  parent_mem : ∀ {t p}, t ∈ members → types.parentOf t = some p → p ∈ members
  names_eq : ∀ {s t}, s ∈ members → t ∈ members → types.nameOf s = types.nameOf t →
    types.names s = types.names t
  name_any : types.name types.any = str "any"
  name_real : types.name types.real = str "real"
  name_integer : types.name types.integer = str "integer"
  parent_any : types.parent types.any = none
  parent_real : types.parent types.real = some types.any
  parent_integer : types.parent types.integer = some types.any

variable {types} {members : Set (TypeRef Ty)}

/-- The ancestors of a member are members. -/
theorem Hierarchy.mem_of_mem_chain (hierarchy : types.Hierarchy members) {t x : TypeRef Ty}
    (member : t ∈ members) (ancestor : x ∈ types.chain t) : x ∈ members := by
  induction t using types.chain_induction with
  | up t ih =>
      rw [types.chain_eq t] at ancestor
      cases parent : types.parentOf t with
      | none =>
          rw [parent] at ancestor
          exact List.mem_singleton.mp ancestor ▸ member
      | some p =>
          rw [parent] at ancestor
          rcases List.mem_cons.mp ancestor with rfl | above
          · exact member
          · exact ih p parent (hierarchy.parent_mem member parent) above

/-- A name among the ancestors of a member starts the names of a type at the end of its chain. -/
theorem Hierarchy.split (hierarchy : types.Hierarchy members) {s t : TypeRef Ty} (s_mem : s ∈ members)
    (t_mem : t ∈ members) (below : types.below s t) :
    ∃ before x after, types.chain s = before ++ x :: after ∧ types.nameOf x = types.nameOf t ∧
      types.names t = (x :: after).map types.nameOf := by
  obtain ⟨x, ancestor, name⟩ := List.mem_map.mp below
  obtain ⟨before, after, split⟩ := List.append_of_mem ancestor
  refine ⟨before, x, after, split, name, ?_⟩
  rw [← hierarchy.names_eq (hierarchy.mem_of_mem_chain s_mem ancestor) t_mem name, names,
    types.chain_of_append split]

/-- The names above a member of the hierarchy are among its names. -/
theorem Hierarchy.names_subset (hierarchy : types.Hierarchy members) {s t : TypeRef Ty}
    (s_mem : s ∈ members) (t_mem : t ∈ members) (below : types.below s t) :
    types.names t ⊆ types.names s := by
  obtain ⟨before, x, after, chain, _, names⟩ := hierarchy.split s_mem t_mem below
  rw [names, Types.names, chain, List.map_append]
  exact List.subset_append_right _ _

theorem below_refl (t : TypeRef Ty) : types.below t t := by
  rw [below, names, types.chain_eq t]
  exact List.mem_cons_self

/-- Two names above one type: one of the two types is above the other. -/
theorem Hierarchy.linear (hierarchy : types.Hierarchy members) {s t u : TypeRef Ty}
    (s_mem : s ∈ members) (t_mem : t ∈ members) (u_mem : u ∈ members) (s_t : types.below s t)
    (s_u : types.below s u) : types.below t u ∨ types.below u t := by
  obtain ⟨before, x, after, chain, name, t_names⟩ := hierarchy.split s_mem t_mem s_t
  obtain ⟨y, y_mem, y_name⟩ := List.mem_map.mp s_u
  rw [chain] at y_mem
  rcases List.mem_append.mp y_mem with earlier | later
  · -- the name of `u` comes first, so that the name of `t` is among those above `u`
    obtain ⟨first, second, rfl⟩ := List.append_of_mem earlier
    have split : types.chain s = first ++ y :: (second ++ x :: after) := by simpa using chain
    have y_chain := types.chain_of_append split
    have y_in : y ∈ members := hierarchy.mem_of_mem_chain s_mem (chain ▸ y_mem)
    right
    rw [below, ← hierarchy.names_eq y_in u_mem y_name, names, y_chain, ← name]
    exact List.mem_map_of_mem (by simp)
  · left
    rw [below, t_names, ← y_name]
    exact List.mem_map_of_mem later

/-- The members of a type hierarchy form a forest. -/
def Hierarchy.forest (hierarchy : types.Hierarchy members) : Forest members where
  below s t := types.below s.val t.val
  refl t := below_refl t.val
  trans {_ b _} s_t t_u := hierarchy.names_subset (Subtype.property _) b.property s_t t_u
  linear {a b c} s_t s_u := hierarchy.linear a.property b.property c.property s_t s_u

theorem Hierarchy.linked_iff (hierarchy : types.Hierarchy members) (a b : members) :
    hierarchy.forest.Linked a b ↔ types.related a.val b.val := by
  constructor
  · rintro ⟨c, a_c, b_c⟩
    exact ⟨types.nameOf c.val, a_c, b_c⟩
  · rintro ⟨name, a_name, b_name⟩
    obtain ⟨x, ancestor, rfl⟩ := List.mem_map.mp a_name
    exact ⟨⟨x, hierarchy.mem_of_mem_chain a.property ancestor⟩, List.mem_map_of_mem ancestor, b_name⟩

/-! ### `Type::lca` -/

theorem any_chain_iff (s t : TypeRef Ty) :
    ((types.chain s).any fun current => types.nameOf current == types.nameOf t) = true ↔
      types.below s t := by
  simp [below, names]

/-- `Type::lca` when the second type is not above the first one: the first type of its chain of which the
    name is above the first one. -/
theorem lca_cases {a b : TypeRef Ty} (not_below : ¬ types.below a b) :
    (∃ before x after, types.chain b = before ++ x :: after ∧ types.lca a b = x ∧ types.below a x ∧
        ∀ y ∈ before, ¬ types.below a y) ∨
      types.lca a b = .base types.any ∧ ∀ y ∈ types.chain b, ¬ types.below a y := by
  rw [lca, if_neg (mt (any_chain_iff a b).mp not_below)]
  cases found : (types.chain b).find? fun current =>
      (types.chain a).any fun other => types.nameOf other == types.nameOf current with
  | none =>
      right
      exact ⟨rfl, fun y y_mem above => List.find?_eq_none.mp found y y_mem ((any_chain_iff a y).mpr above)⟩
  | some x =>
      left
      obtain ⟨common, before, after, chain, first⟩ := List.find?_eq_some_iff_append.mp found
      refine ⟨before, x, after, chain, rfl, (any_chain_iff a x).mp common, fun y y_mem above => ?_⟩
      have excluded := first y y_mem
      rw [(any_chain_iff a y).mpr above] at excluded
      cases excluded

/-- The lca of two members is a member. -/
theorem Hierarchy.lca_mem (hierarchy : types.Hierarchy members) {a b : TypeRef Ty} (a_mem : a ∈ members)
    (b_mem : b ∈ members) : types.lca a b ∈ members := by
  by_cases above : types.below a b
  · rw [lca, if_pos ((any_chain_iff a b).mpr above)]
    exact a_mem
  · rcases lca_cases above with ⟨before, x, after, chain, result, _⟩ | ⟨result, _⟩
    · rw [result]
      exact hierarchy.mem_of_mem_chain b_mem (by simp [chain])
    · exact result ▸ hierarchy.any_mem

/-- `Type::lca` on the members of a hierarchy. -/
def Hierarchy.lca (hierarchy : types.Hierarchy members) (a b : members) : members :=
  ⟨types.lca a.val b.val, hierarchy.lca_mem a.property b.property⟩

/-- `AnyType` as a member. -/
def Hierarchy.top (hierarchy : types.Hierarchy members) : members := ⟨.base types.any, hierarchy.any_mem⟩

/-- Linked members: the first one is below a type of the chain of the second one. -/
theorem Hierarchy.exists_common (hierarchy : types.Hierarchy members) {a b : members}
    (linked : hierarchy.forest.Linked a b) : ∃ y ∈ types.chain b.val, types.below a.val y := by
  obtain ⟨c, a_c, b_c⟩ := linked
  obtain ⟨y, y_mem, name⟩ := List.mem_map.mp b_c
  refine ⟨y, y_mem, ?_⟩
  rw [below, name]
  exact a_c

/-- `Type::lca` is an operation of the kind that the library folds. -/
theorem Hierarchy.lca_folds (hierarchy : types.Hierarchy members) :
    hierarchy.forest.Folds hierarchy.top hierarchy.lca where
  keeps {a b} above := by
    apply Subtype.ext
    exact if_pos ((any_chain_iff a.val b.val).mpr above)
  upper {a b} not_below linked := by
    rcases lca_cases not_below with ⟨_, x, _, _, result, above, _⟩ | ⟨_, apart⟩
    · change types.below a.val (types.lca a.val b.val)
      rwa [result]
    · obtain ⟨y, y_mem, above⟩ := hierarchy.exists_common linked
      exact absurd above (apart y y_mem)
  upper_right {a b} not_below linked := by
    rcases lca_cases not_below with ⟨before, x, after, chain, result, _⟩ | ⟨_, apart⟩
    · change types.below b.val (types.lca a.val b.val)
      rw [result, below, names, chain]
      exact List.mem_map_of_mem (by simp)
    · obtain ⟨y, y_mem, above⟩ := hierarchy.exists_common linked
      exact absurd above (apart y y_mem)
  least {a b c} not_below a_c b_c := by
    obtain ⟨y, y_mem, name⟩ := List.mem_map.mp b_c
    have a_y : types.below a.val y := by
      rw [below, name]
      exact a_c
    rcases lca_cases not_below with ⟨before, x, after, chain, result, _, first⟩ | ⟨_, apart⟩
    · change types.below (types.lca a.val b.val) c.val
      rw [chain] at y_mem
      rcases List.mem_append.mp y_mem with earlier | later
      · exact absurd a_y (first y earlier)
      · rw [result, below, names, types.chain_of_append chain, ← name]
        exact List.mem_map_of_mem later
    · exact absurd a_y (apart y y_mem)
  apart {a b} apart := by
    have not_below : ¬ types.below a.val b.val := fun above => apart ⟨b, above, below_refl b.val⟩
    rcases lca_cases not_below with ⟨before, x, after, chain, result, above, _⟩ | ⟨result, _⟩
    · have x_mem : x ∈ types.chain b.val := by simp [chain]
      refine absurd ⟨⟨x, hierarchy.mem_of_mem_chain b.property x_mem⟩, above, ?_⟩ apart
      exact List.mem_map_of_mem x_mem
    · exact Subtype.ext result

/-- The fold over the types of a hierarchy is the fold over its members. -/
theorem Hierarchy.foldl_lca (hierarchy : types.Hierarchy members) (rest : List members) (first : members) :
    (rest.map Subtype.val).foldl types.lca first.val = (rest.foldl hierarchy.lca first).val := by
  induction rest generalizing first with
  | nil => rfl
  | cons e rest ih => exact ih (hierarchy.lca first e)

theorem Hierarchy.names_any (hierarchy : types.Hierarchy members) :
    types.names (.base types.any) = [str "any"] := by
  rw [names, types.chain_eq, parentOf, hierarchy.parent_any]
  simp [nameOf, hierarchy.name_any]

/-- The names of a type below Any. -/
theorem Hierarchy.names_child (hierarchy : types.Hierarchy members) {type : Ty}
    (parent : types.parent type = some types.any) :
    types.names (.base type) = [types.name type, str "any"] := by
  have above := hierarchy.names_any
  rw [names] at above ⊢
  rw [types.chain_eq, parentOf, parent]
  simp [nameOf, above]

/-- What is above the folded type, apart from Any. -/
theorem Hierarchy.foldl_lca_below_iff (hierarchy : types.Hierarchy members) {first t : TypeRef Ty}
    {rest : List (TypeRef Ty)} (first_mem : first ∈ members) (rest_mem : ∀ e ∈ rest, e ∈ members)
    (t_mem : t ∈ members) (proper : types.nameOf t ≠ str "any") :
    types.below (rest.foldl types.lca first) t ↔
      types.below first t ∧ ∀ e ∈ rest, types.below e t ∨ types.below t e := by
  obtain ⟨lifted, rfl⟩ : ∃ lifted : List members, lifted.map Subtype.val = rest :=
    ⟨_, List.attachWith_map_subtype_val rest_mem⟩
  have not_top : ¬ hierarchy.forest.below hierarchy.top ⟨t, t_mem⟩ := by
    change ¬ types.nameOf t ∈ types.names (.base types.any)
    simpa [hierarchy.names_any] using proper
  have folded := hierarchy.lca_folds.foldl_below_iff not_top lifted ⟨first, first_mem⟩
  rw [hierarchy.foldl_lca lifted ⟨first, first_mem⟩, List.forall_mem_map]
  exact folded

/-- When Any is above the folded type. -/
theorem Hierarchy.foldl_lca_below_any_iff (hierarchy : types.Hierarchy members) {first : TypeRef Ty}
    {rest : List (TypeRef Ty)} (first_mem : first ∈ members) (rest_mem : ∀ e ∈ rest, e ∈ members) :
    types.below (rest.foldl types.lca first) (.base types.any) ↔
      types.below first (.base types.any) ∨ ∃ e ∈ rest, ¬ types.related first e := by
  obtain ⟨lifted, rfl⟩ : ∃ lifted : List members, lifted.map Subtype.val = rest :=
    ⟨_, List.attachWith_map_subtype_val rest_mem⟩
  have top {a : members} (above : hierarchy.forest.below hierarchy.top a) :
      hierarchy.forest.below a hierarchy.top := by
    have name : types.nameOf a.val = str "any" := by
      change types.nameOf a.val ∈ types.names (.base types.any) at above
      simpa [hierarchy.names_any] using above
    change types.nameOf (.base types.any) ∈ types.names a.val
    rw [hierarchy.names_eq a.property hierarchy.any_mem (name.trans hierarchy.name_any.symm),
      hierarchy.names_any, nameOf, hierarchy.name_any]
    exact List.mem_cons_self
  have folded := hierarchy.lca_folds.foldl_below_default_iff top lifted ⟨first, first_mem⟩
  rw [hierarchy.foldl_lca lifted ⟨first, first_mem⟩]
  simp only [hierarchy.linked_iff] at folded
  simp only [List.mem_map, exists_exists_and_eq_and]
  exact folded

/-! ### The check of an array -/

/-- No type name with brackets is a name of a predefined type. -/
theorem nameOf_array_ne (t : TypeRef Ty) (name : Str) (plain : name.getLast? ≠ some 0x5D) :
    types.nameOf (.array t) ≠ name := by
  intro same
  refine plain ?_
  rw [← same, nameOf, List.getLast?_append]
  rfl

/-- An array type accepts another one exactly when the component of this one is below its component. -/
theorem Hierarchy.accepts_array_iff (hierarchy : types.Hierarchy members) (t component : TypeRef Ty) :
    types.accepts (.array t) (.array component) ↔ types.below component t := by
  have not_any : (types.nameOf (.array t) == str "any") = false :=
    beq_eq_false_iff_ne.mpr (nameOf_array_ne t _ (by decide))
  have not_real : (types.nameOf (.array t) == str "real") = false :=
    beq_eq_false_iff_ne.mpr (nameOf_array_ne t _ (by decide))
  have component_only : types.accepts (.array t) (.array component) =
      ((types.chain component).map TypeRef.array).any fun current =>
        types.nameOf current == types.nameOf (.array t) := by
    simp [accepts, hierarchy.name_real, not_any, not_real, chain_array]
  rw [component_only]
  simp [below, names, nameOf]

end Types

/-- The types of the elements, folded as they are pushed onto an empty array. -/
theorem pushBack_foldl (register : Register Ty Job) (ctype : TypeRef Ty) (first : Value Ty Job)
    (rest : List (Value Ty Job)) :
    (first :: rest).foldl (pushBack register) (ctype, []) =
      ((rest.map fun v => v.type register.types).foldl register.types.lca (first.type register.types),
        first :: rest) := by
  have later (ctype : TypeRef Ty) (elements : List (Value Ty Job)) (some_element : elements ≠ []) :
      rest.foldl (pushBack register) (ctype, elements) =
        ((rest.map fun v => v.type register.types).foldl register.types.lca ctype, elements ++ rest) := by
    induction rest generalizing ctype elements with
    | nil => simp
    | cons v rest ih => simp [pushBack, some_element, ih]
  simp [pushBack, later]

/-! ### When the check of the array is the check of the elements -/

variable {types} {members : Set (TypeRef Ty)}

/-- Any is asked for, and all elements have types of one hierarchy that does not reach Any. -/
def Detached (types : Types Ty Job) (t : TypeRef Ty) : List (TypeRef Ty) → Prop
  | [] => False
  | first :: rest => types.nameOf t = str "any" ∧ ¬ types.below first (.base types.any) ∧
      ∀ e ∈ rest, types.related first e

/-- The first element has the type asked for or a descendant of it, the others have types on one line with
    it, and one of them is strictly above it. -/
def Overtaken (types : Types Ty Job) (t : TypeRef Ty) : List (TypeRef Ty) → Prop
  | [] => False
  | first :: rest => types.nameOf t ≠ str "any" ∧ types.below first t ∧
      (∀ e ∈ rest, types.below e t ∨ types.below t e) ∧ ∃ e ∈ rest, ¬ types.below e t

/-- Real is asked for, all elements are real numbers or integers, and one is an integer. -/
def Widened (types : Types Ty Job) (t : TypeRef Ty) (elements : List (TypeRef Ty)) : Prop :=
  types.nameOf t = str "real" ∧
    (∀ e ∈ elements, types.below e t ∨ types.nameOf e = str "integer") ∧
    ∃ e ∈ elements, types.nameOf e = str "integer"

/-- When each element is accepted: the type asked for is Any, or above the type of each element up to the
    cast of integers to real numbers. -/
theorem accepts_iff (hierarchy : types.Hierarchy members) (t e : TypeRef Ty) :
    types.accepts t e ↔ types.nameOf t = str "any" ∨ types.below e t ∨
      types.nameOf t = str "real" ∧ types.nameOf e = str "integer" := by
  simp only [Types.accepts, Bool.or_eq_true, beq_iff_eq, Types.any_chain_iff, Bool.and_eq_true,
    hierarchy.name_real, hierarchy.name_integer, or_assoc]

/-- Integer and Real are on different lines. -/
theorem integer_real_apart (hierarchy : types.Hierarchy members) {t e : TypeRef Ty} (t_mem : t ∈ members)
    (e_mem : e ∈ members) (real : types.nameOf t = str "real") (integer : types.nameOf e = str "integer") :
    ¬ types.below e t ∧ ¬ types.below t e := by
  have t_names : types.names t = [str "real", str "any"] := by
    rw [hierarchy.names_eq t_mem hierarchy.real_mem (real.trans hierarchy.name_real.symm),
      hierarchy.names_child hierarchy.parent_real, hierarchy.name_real]
  have e_names : types.names e = [str "integer", str "any"] := by
    rw [hierarchy.names_eq e_mem hierarchy.integer_mem (integer.trans hierarchy.name_integer.symm),
      hierarchy.names_child hierarchy.parent_integer, hierarchy.name_integer]
  simp only [Types.below, t_names, e_names, real, integer]
  decide

/-- The comparison of the two checks for another type than Any. -/
theorem check_agrees_of_ne_any (hierarchy : types.Hierarchy members) {t first : TypeRef Ty}
    {rest : List (TypeRef Ty)} (t_mem : t ∈ members) (all_mem : ∀ e ∈ first :: rest, e ∈ members)
    (proper : types.nameOf t ≠ str "any") :
    ((types.below first t ∧ ∀ e ∈ rest, types.below e t ∨ types.below t e) ↔
        ∀ e ∈ first :: rest, types.accepts t e) ↔
      ¬ Overtaken types t (first :: rest) ∧ ¬ Widened types t (first :: rest) := by
  have accepted (e : TypeRef Ty) : types.accepts t e ↔
      types.below e t ∨ types.nameOf t = str "real" ∧ types.nameOf e = str "integer" := by
    simp [accepts_iff hierarchy, proper]
  have apart {e : TypeRef Ty} (member : e ∈ first :: rest) (real : types.nameOf t = str "real")
      (integer : types.nameOf e = str "integer") : ¬ types.below e t ∧ ¬ types.below t e :=
    integer_real_apart hierarchy t_mem (all_mem e member) real integer
  simp only [accepted]
  constructor
  · intro agree
    constructor
    · rintro ⟨_, first_below, comparable, e, member, above⟩
      have tail : e ∈ first :: rest := List.mem_cons_of_mem _ member
      obtain ⟨real, integer⟩ := (agree.mp ⟨first_below, comparable⟩ e tail).resolve_left above
      have both := apart tail real integer
      exact (comparable e member).elim both.1 both.2
    · rintro ⟨real, all, e, member, integer⟩
      have both := apart member real integer
      obtain ⟨first_below, comparable⟩ := agree.mpr fun e member => (all e member).imp_right fun i => ⟨real, i⟩
      rcases List.mem_cons.mp member with rfl | tail
      · exact both.1 first_below
      · exact (comparable e tail).elim both.1 both.2
  · rintro ⟨not_overtaken, not_widened⟩
    constructor
    · rintro ⟨first_below, comparable⟩ e member
      left
      by_contra above
      rcases List.mem_cons.mp member with rfl | tail
      · exact above first_below
      · exact not_overtaken ⟨proper, first_below, comparable, e, tail, above⟩
    · intro all
      have below : ∀ e ∈ first :: rest, types.below e t := by
        intro e member
        refine (all e member).resolve_right fun both => ?_
        exact not_widened ⟨both.1, fun e member => (all e member).imp_right And.right, e, member, both.2⟩
      exact ⟨below first List.mem_cons_self, fun e member => Or.inl (below e (List.mem_cons_of_mem _ member))⟩

/-- The comparison of the two checks on the types of the elements. -/
theorem check_agrees_iff (hierarchy : types.Hierarchy members) {t first : TypeRef Ty}
    {rest : List (TypeRef Ty)} (t_mem : t ∈ members) (all_mem : ∀ e ∈ first :: rest, e ∈ members) :
    (types.below (rest.foldl types.lca first) t ↔ ∀ e ∈ first :: rest, types.accepts t e) ↔
      ¬ Detached types t (first :: rest) ∧ ¬ Overtaken types t (first :: rest) ∧
        ¬ Widened types t (first :: rest) := by
  have first_mem := all_mem first List.mem_cons_self
  have rest_mem : ∀ e ∈ rest, e ∈ members := fun e member => all_mem e (List.mem_cons_of_mem _ member)
  by_cases any : types.nameOf t = str "any"
  · have every : ∀ e ∈ first :: rest, types.accepts t e :=
      fun e _ => (accepts_iff hierarchy t e).mpr (Or.inl any)
    have same : types.below (rest.foldl types.lca first) t ↔
        types.below (rest.foldl types.lca first) (.base types.any) := by
      rw [Types.below, Types.below, any, Types.nameOf, hierarchy.name_any]
    have not_overtaken : ¬ Overtaken types t (first :: rest) := fun overtaken => overtaken.1 any
    have not_widened : ¬ Widened types t (first :: rest) := by
      rintro ⟨real, _⟩
      rw [any] at real
      exact absurd real (by decide)
    rw [same, hierarchy.foldl_lca_below_any_iff first_mem rest_mem]
    constructor
    · intro agree
      refine ⟨fun detached => ?_, not_overtaken, not_widened⟩
      rcases agree.mpr every with top | ⟨e, member, unrelated⟩
      · exact detached.2.1 top
      · exact unrelated (detached.2.2 e member)
    · rintro ⟨not_detached, _⟩
      refine ⟨fun _ => every, fun _ => ?_⟩
      by_contra neither
      refine not_detached ⟨any, fun top => neither (Or.inl top), fun e member => ?_⟩
      by_contra unrelated
      exact neither (Or.inr ⟨e, member, unrelated⟩)
  · have not_detached : ¬ Detached types t (first :: rest) := fun detached => any detached.1
    rw [hierarchy.foldl_lca_below_iff first_mem rest_mem t_mem any,
      check_agrees_of_ne_any hierarchy t_mem all_mem any]
    simp only [not_detached, not_false_eq_true, true_and]

/-- An object of type `B` is pushed, then one of its parent type `A`: the array passes for `B[]`, though
    its second element does not pass for `B`. -/
theorem array_check_overtaken :
    let values : List (Value Sample Unit) := [.map {} (.base .B) none none [], .map {} (.base .A) none none []]
    let pushed := values.foldl (pushBack sampleRegister) (.base .any, [])
    sampleTypes.accepts (.array (.base .B)) (Value.type sampleTypes (.array {} pushed.1 pushed.2)) ∧
      ¬ ∀ v ∈ values, sampleTypes.accepts (.base .B) (v.type sampleTypes) := by
  decide

/-- The check of an argument `T[]` agrees with the check of each element for `T`, except in three cases. -/
theorem array_check (register : Register Ty Job) {members : Set (TypeRef Ty)}
    (hierarchy : register.types.Hierarchy members) {t : TypeRef Ty} (t_mem : t ∈ members)
    (ctype : TypeRef Ty) {values : List (Value Ty Job)} (nonempty : values ≠ [])
    (typed : ∀ v ∈ values, v.type register.types ∈ members) :
    let pushed := values.foldl (pushBack register) (ctype, [])
    let elements := values.map fun v => v.type register.types
    ((register.types.accepts (.array t) (Value.type register.types (.array {} pushed.1 pushed.2)) ↔
        ∀ v ∈ values, register.types.accepts t (v.type register.types)) ↔
      ¬ Detached register.types t elements ∧ ¬ Overtaken register.types t elements ∧
        ¬ Widened register.types t elements) := by
  cases values with
  | nil => exact absurd rfl nonempty
  | cons first rest =>
      have all_mem : ∀ e ∈ (first :: rest).map fun v => v.type register.types, e ∈ members := by
        simpa only [List.forall_mem_map] using typed
      have each : (∀ v ∈ first :: rest, register.types.accepts t (v.type register.types)) ↔
          ∀ e ∈ (first :: rest).map fun v => v.type register.types, register.types.accepts t e := by
        simp only [List.forall_mem_map]
      intro pushed elements
      have type : Value.type register.types (.array {} pushed.1 pushed.2) =
          .array ((rest.map fun v => v.type register.types).foldl register.types.lca
            (first.type register.types)) := by
        simp only [pushed, pushBack_foldl]
        rfl
      rw [type, hierarchy.accepts_array_iff, each]
      exact check_agrees_iff hierarchy t_mem all_mem

/-- The types of the sample that are not placeholders, texts and paths. -/
def sampleMembers : List (TypeRef Sample) := [.base .any, .base .real, .base .integer, .base .A, .base .B]

theorem sampleHierarchy : sampleTypes.Hierarchy {t | t ∈ sampleMembers} where
  any_mem := by
    change .base _ ∈ sampleMembers
    decide
  real_mem := by
    change .base _ ∈ sampleMembers
    decide
  integer_mem := by
    change .base _ ∈ sampleMembers
    decide
  parent_mem {t p} member parent := by
    have closed : ∀ t ∈ sampleMembers, ∀ p ∈ sampleTypes.parentOf t, p ∈ sampleMembers := by decide
    exact closed t member p parent
  names_eq {s t} s_mem t_mem name := by
    have closed : ∀ s ∈ sampleMembers, ∀ t ∈ sampleMembers, sampleTypes.nameOf s = sampleTypes.nameOf t →
        sampleTypes.names s = sampleTypes.names t := by decide
    exact closed s s_mem t t_mem name
  name_any := rfl
  name_real := rfl
  name_integer := rfl
  parent_any := rfl
  parent_real := rfl
  parent_integer := rfl

/-- Objects of the types `B` and `A`, checked for `A`. -/
theorem array_check_sample :
    let values : List (Value Sample Unit) := [.map {} (.base .B) none none [], .map {} (.base .A) none none []]
    let pushed := values.foldl (pushBack sampleRegister) (.base .any, [])
    let elements := values.map fun v => v.type sampleRegister.types
    (¬ Detached sampleTypes (.base .A) elements ∧ ¬ Overtaken sampleTypes (.base .A) elements ∧
        ¬ Widened sampleTypes (.base .A) elements) ∧
      (sampleTypes.accepts (.array (.base .A)) (Value.type sampleTypes (.array {} pushed.1 pushed.2)) ↔
        ∀ v ∈ values, sampleTypes.accepts (.base .A) (v.type sampleTypes)) := by
  intro values pushed elements
  have regular : ¬ Detached sampleTypes (.base .A) elements ∧ ¬ Overtaken sampleTypes (.base .A) elements ∧
      ¬ Widened sampleTypes (.base .A) elements := by
    refine ⟨fun detached => ?_, ?_, ?_⟩
    · exact absurd detached.1 (by decide)
    · rintro ⟨_, _, _, e, member, above⟩
      revert e
      decide
    · rintro ⟨real, _⟩
      exact absurd real (by decide)
  have member : ∀ t ∈ sampleMembers, t ∈ {t | t ∈ sampleMembers} := fun _ => id
  have typed : ∀ v ∈ values, v.type sampleTypes ∈ sampleMembers := by decide
  have agree := array_check sampleRegister sampleHierarchy (member (.base .A) (by decide)) (.base .any)
    (List.cons_ne_nil _ _) (fun v v_mem => member _ (typed v v_mem))
  exact ⟨regular, agree.mpr regular⟩

end Experimaestro.Configuration

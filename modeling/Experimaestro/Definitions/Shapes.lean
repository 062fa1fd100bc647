/-
Module: Experimaestro.Definitions.Shapes
Layer: Definitions
Purpose: The objects of a register and its table, as they are between two steps of the loader. `Shape` says which
  names are in the table, which parents they have and which of them are placeholders. A name with `[]` may have
  had several objects, of which the earlier ones have no parents. It says what `getType` finds: an array type has
  the ancestors that its element has at that moment.
Imports: Experimaestro.Definitions.Loading, Experimaestro.Configuration.Placeholders (names of elements)
Trusted boundary: none (fully proved)
Main exports: arrayName, brackets, newArray_spec, Shape, Grows, Shape.addType, Shape.modify, Shape.setParent,
  Shape.getTypeIn_unknown, Shape.getTypeIn_known
Open obligations: none
-/
import Mathlib.Data.List.Perm.Subperm
import Experimaestro.Configuration.Placeholders
import Experimaestro.Definitions.Loading

namespace Experimaestro.Definitions

open Experimaestro.Configuration (Str str lookup lookup_insert lookup_insert_again componentName elementName
  elementNameIn componentName_elementNameIn length_componentName)

variable {V : Type}

/-! ### Names of arrays -/

/-- A name with `[]` behind it some times. -/
def arrayName : ℕ → Str → Str
  | 0, name => name
  | k + 1, name => arrayName k name ++ str "[]"

/-- How many times `getType` takes `[]` off a name, at most `n` times. -/
def bracketsIn : ℕ → Str → ℕ
  | 0, _ => 0
  | n + 1, name =>
      match componentName name with
      | none => 0
      | some component => bracketsIn n component + 1

/-- How many times `getType` takes `[]` off a name. -/
def brackets (name : Str) : ℕ := bracketsIn name.length name

theorem append_componentName {name component : Str} (found : componentName name = some component) :
    component ++ str "[]" = name := by
  unfold componentName at found
  split at found
  · rename_i ends
    cases found
    rw [← ends.2]
    exact List.take_append_drop _ name
  · cases found

theorem arrayName_elementNameIn (n : ℕ) (name : Str) : arrayName (bracketsIn n name) (elementNameIn n name) = name := by
  induction n generalizing name with
  | zero => rfl
  | succ n ih =>
      rw [bracketsIn, elementNameIn]
      cases found : componentName name with
      | none => rfl
      | some component =>
          dsimp only
          rw [arrayName, ih component, append_componentName found]

theorem arrayName_elementName (name : Str) : arrayName (brackets name) (elementName name) = name :=
  arrayName_elementNameIn _ _

theorem brackets_eq_zero {name : Str} (bare : componentName name = none) : brackets name = 0 := by
  unfold brackets
  cases name.length with
  | zero => rfl
  | succ n => rw [bracketsIn, bare]

theorem elementName_of_bare {name : Str} (bare : componentName name = none) : elementName name = name := by
  have whole := arrayName_elementName name
  rwa [brackets_eq_zero bare] at whole

theorem brackets_pos {name : Str} (bracketed : componentName name ≠ none) : 0 < brackets name := by
  obtain ⟨component, found⟩ := Option.ne_none_iff_exists'.mp bracketed
  have long := length_componentName found
  obtain ⟨n, length⟩ := Nat.exists_eq_succ_of_ne_zero (Nat.ne_zero_of_lt long)
  rw [brackets, length, bracketsIn, found]
  exact Nat.succ_pos _

theorem elementName_bare (name : Str) : componentName (elementName name) = none :=
  componentName_elementNameIn _ _ (Nat.le_refl _)

/-- The name of a type, from the name of the object in its core. -/
theorem nameOf_eq (s : Register V) (type : TypePtr) :
    s.nameOf type = arrayName type.nesting (s.objects type.core).name := by
  induction type with
  | object address => rfl
  | array component ih => rw [Register.nameOf, ih, TypePtr.nesting, arrayName, TypePtr.core]
  | arrayBelow component _ ih => rw [Register.nameOf, ih, TypePtr.nesting, arrayName, TypePtr.core]

/-! ### Array types -/

/-- The array type of a type has the array types of its ancestors as its ancestors. -/
theorem newArray_spec {s : Register V} {component : TypePtr} {pointers : List TypePtr} {n : ℕ}
    (line : Lineage s.parentOf component pointers) (enough : pointers.length ≤ n) :
    ∃ type arrays, s.newArray n component = .ok type ∧ Lineage s.parentOf type arrays ∧
      type.core = component.core ∧ type.nesting = component.nesting + 1 ∧
      arrays.map s.nameOf = pointers.map (fun q => s.nameOf q ++ str "[]") ∧
      ∀ q ∈ arrays, 0 < q.nesting ∧ ∃ p ∈ pointers, q.core = p.core := by
  induction line generalizing n with
  | @root q top =>
      cases n with
      | zero => cases enough
      | succ n =>
          refine ⟨.array q, [.array q], by rw [Register.newArray, top], .root rfl, rfl, rfl, rfl, fun r single => ?_⟩
          cases List.mem_singleton.mp single
          exact ⟨Nat.succ_pos _, q, List.mem_cons_self, rfl⟩
  | @child q p above up rest ih =>
      cases n with
      | zero => cases enough
      | succ n =>
          obtain ⟨type, arrays, made, lineage, _, _, names, each⟩ := ih (Nat.le_of_succ_le_succ enough)
          refine ⟨.arrayBelow q type, .arrayBelow q type :: arrays, ?_, .child rfl lineage, rfl, rfl, ?_, ?_⟩
          · rw [Register.newArray, up]
            simp only [made]
            rfl
          · rw [List.map_cons, names]
            rfl
          · intro r inside
            rcases List.mem_cons.mp inside with rfl | later
            · exact ⟨Nat.succ_pos _, q, List.mem_cons_self, rfl⟩
            · obtain ⟨positive, c, there, same⟩ := each r later
              exact ⟨positive, c, List.mem_cons_of_mem _ there, same⟩

/-! ### The objects -/

/-- The objects and the table: which names are in the table, which parents they have, and which of them are
    placeholders at least. A name without `[]` has one object. -/
structure Shape (s : Register V) (known : Str → Prop) (parent : Str → Option Str) (awaiting : Str → Prop) : Prop where
  sized : ∀ n a, lookup n s.types = some a → a < s.size ∧ (s.objects a).name = n
  unique : ∀ a, a < s.size → componentName (s.objects a).name = none → lookup (s.objects a).name s.types = some a
  known_iff : ∀ n, componentName n = none → ((lookup n s.types).isSome ↔ known n)
  parents : ∀ a, a < s.size → (s.objects a).parent.map (fun p => (s.objects p).name) = parent (s.objects a).name ∨
    componentName (s.objects a).name ≠ none ∧ (s.objects a).parent = none
  closed : ∀ a p, a < s.size → (s.objects a).parent = some p → p < s.size
  completed : ∀ n a, lookup n s.types = some a → awaiting n → (s.objects a).placeholder = true

/-- A later register: the objects keep their names, and the names without `[]` their objects. -/
structure Grows (s s' : Register V) : Prop where
  size_le : s.size ≤ s'.size
  name_eq : ∀ a, a < s.size → (s'.objects a).name = (s.objects a).name
  lookup_eq : ∀ n a, componentName n = none → lookup n s.types = some a → lookup n s'.types = some a

theorem Grows.refl (s : Register V) : Grows s s := ⟨Nat.le_refl _, fun _ _ => rfl, fun _ _ _ => id⟩

theorem Grows.trans {s s' s'' : Register V} (one : Grows s s') (two : Grows s' s'') : Grows s s'' where
  size_le := Nat.le_trans one.size_le two.size_le
  name_eq a inside := (two.name_eq a (Nat.lt_of_lt_of_le inside one.size_le)).trans (one.name_eq a inside)
  lookup_eq n a bare found := two.lookup_eq n a bare (one.lookup_eq n a bare found)

namespace Shape

variable {s : Register V} {known : Str → Prop} {parent : Str → Option Str} {awaiting : Str → Prop}

theorem congr (shape : Shape s known parent awaiting) {known' : Str → Prop} {parent' : Str → Option Str}
    {awaiting' : Str → Prop} (known_iff : ∀ n, componentName n = none → (known n ↔ known' n))
    (parents : ∀ n, parent n = parent' n) (still : ∀ n, awaiting' n → awaiting n) :
    Shape s known' parent' awaiting' where
  sized := shape.sized
  unique := shape.unique
  known_iff n bare := (shape.known_iff n bare).trans (known_iff n bare)
  parents a inside := parents (s.objects a).name ▸ shape.parents a inside
  closed := shape.closed
  completed n a found waiting := shape.completed n a found (still n waiting)

/-- Where names with `[]` have no parents, objects have those of their names. -/
theorem parents_eq (shape : Shape s known parent awaiting) (whole : ∀ n, componentName n ≠ none → parent n = none)
    {a : ℕ} (inside : a < s.size) :
    (s.objects a).parent.map (fun p => (s.objects p).name) = parent (s.objects a).name := by
  obtain same | ⟨bracketed, orphan⟩ := shape.parents a inside
  · exact same
  · rw [orphan, whole _ bracketed]
    rfl

/-- A new object for a name. Only a name with `[]` may have an object before. -/
theorem addType (shape : Shape s known parent awaiting) {name : Str} (placeholder : Bool)
    (missing : componentName name = none → ¬ known name) (orphan : componentName name = none → parent name = none)
    (waits : awaiting name → placeholder = true) :
    Shape (s.addType name placeholder) (fun n => known n ∨ n = name) parent awaiting ∧
      Grows s (s.addType name placeholder) := by
  have old {a : ℕ} (inside : a < s.size) : (s.addType name placeholder).objects a = s.objects a :=
    s.addType_of_ne (Nat.ne_of_lt inside)
  have new := s.addType_self name placeholder
  have entry (n : Str) := s.lookup_addType name n placeholder
  have bare_old {n : Str} {a : ℕ} (bare : componentName n = none) (found : lookup n s.types = some a) : name ≠ n := by
    rintro rfl
    exact missing bare ((shape.known_iff name bare).mp (found ▸ rfl))
  have bound {a : ℕ} (inside : a < (s.addType name placeholder).size) : a < s.size ∨ a = s.size :=
    Nat.lt_or_eq_of_le (Nat.le_of_lt_succ inside)
  refine ⟨⟨?_, ?_, ?_, ?_, ?_, ?_⟩, Nat.le_succ _, fun a inside => by rw [old inside], fun n a bare found => ?_⟩
  · intro n a found
    rw [entry] at found
    split at found
    · rename_i same
      cases found
      rw [new]
      exact ⟨Nat.lt_succ_self _, same⟩
    · obtain ⟨inside, named⟩ := shape.sized n a found
      rw [old inside]
      exact ⟨Nat.lt_succ_of_lt inside, named⟩
  · intro a inside bare
    rcases bound inside with before | rfl
    · rw [old before] at bare ⊢
      have found := shape.unique a before bare
      rw [entry, if_neg (bare_old bare found), found]
    · rw [new, entry, if_pos rfl]
  · intro n bare
    rw [entry]
    split
    · rename_i same
      exact iff_of_true rfl (Or.inr same.symm)
    · rename_i other
      rw [shape.known_iff n bare]
      exact ⟨Or.inl, fun either => either.resolve_right (Ne.symm other)⟩
  · intro a inside
    rcases bound inside with before | rfl
    · have parents := shape.parents a before
      rw [old before]
      cases found : (s.objects a).parent with
      | none => rwa [found] at parents
      | some p =>
          rw [found, Option.map_some] at parents
          rwa [Option.map_some, old (shape.closed a p before found)]
    · rw [new]
      by_cases bare : componentName name = none
      · exact Or.inl (orphan bare).symm
      · exact Or.inr ⟨bare, rfl⟩
  · intro a p inside found
    rcases bound inside with before | rfl
    · rw [old before] at found
      exact Nat.lt_succ_of_lt (shape.closed a p before found)
    · rw [new] at found
      cases found
  · intro n a found waiting
    rw [entry] at found
    split at found
    · rename_i same
      cases found
      rw [new]
      exact waits (same ▸ waiting)
    · rw [old (shape.sized n a found).1]
      exact shape.completed n a found waiting
  · rw [entry, if_neg (bare_old bare found), found]

/-- A change of an object that keeps its name and its parent. -/
theorem modify (shape : Shape s known parent awaiting) (address : ℕ) {f : TypeObject V → TypeObject V}
    (awaiting' : Str → Prop) (named : (f (s.objects address)).name = (s.objects address).name)
    (parented : (f (s.objects address)).parent = (s.objects address).parent)
    (still : ∀ n, awaiting' n → awaiting n)
    (waits : awaiting' (s.objects address).name → (s.objects address).placeholder = true →
      (f (s.objects address)).placeholder = true) :
    Shape (s.modify address f) known parent awaiting' ∧ Grows s (s.modify address f) := by
  have name (a : ℕ) : ((s.modify address f).objects a).name = (s.objects a).name := by
    by_cases here : a = address
    · rw [here, s.modify_self, named]
    · rw [s.modify_of_ne f here]
  have up (a : ℕ) : ((s.modify address f).objects a).parent = (s.objects a).parent := by
    by_cases here : a = address
    · rw [here, s.modify_self, parented]
    · rw [s.modify_of_ne f here]
  refine ⟨⟨?_, ?_, shape.known_iff, ?_, ?_, ?_⟩, Nat.le_refl _, fun a _ => name a, fun _ _ _ => id⟩
  · intro n a found
    rw [name]
    exact shape.sized n a found
  · intro a inside bare
    rw [name] at bare ⊢
    exact shape.unique a inside bare
  · intro a inside
    simp only [name, up]
    exact shape.parents a inside
  · intro a p inside found
    rw [up] at found
    exact shape.closed a p inside found
  · intro n a found waiting
    have placeholder := shape.completed n a found (still n waiting)
    by_cases here : a = address
    · subst here
      rw [s.modify_self]
      exact waits ((shape.sized n a found).2 ▸ waiting) placeholder
    · rw [s.modify_of_ne f here, placeholder]

/-- An object of a name that has no parent gets one. -/
theorem setParent (shape : Shape s known parent awaiting) {name : Str} {address q : ℕ} (sized : address < s.size)
    (named : (s.objects address).name = name) (orphan : parent name = none) (inside : q < s.size) :
    Shape (s.modify address fun type => { type with parent := some q }) known
        (fun n => if n = name then some (s.objects q).name else parent n) awaiting ∧
      Grows s (s.modify address fun type => { type with parent := some q }) := by
  have kept (a : ℕ) :
      ((s.modify address fun type => { type with parent := some q }).objects a).name = (s.objects a).name := by
    by_cases here : a = address
    · rw [here, s.modify_self]
    · rw [s.modify_of_ne _ here]
  refine ⟨⟨?_, ?_, shape.known_iff, ?_, ?_, ?_⟩, Nat.le_refl _, fun a _ => kept a, fun _ _ _ => id⟩
  · intro n a there
    rw [kept]
    exact shape.sized n a there
  · intro a below plain
    rw [kept] at plain ⊢
    exact shape.unique a below plain
  · intro a below
    simp only [kept]
    by_cases here : a = address
    · subst here
      rw [s.modify_self, named, if_pos rfl]
      exact Or.inl rfl
    · rw [s.modify_of_ne _ here]
      by_cases same : (s.objects a).name = name
      · -- Another object of the name has `[]` in it, and keeps its empty parent.
        refine Or.inr ⟨fun bare => ?_, ?_⟩
        · have own := shape.unique a below bare
          rw [same, ← named, shape.unique address sized (by rw [named, ← same, bare])] at own
          exact here (Option.some.inj own).symm
        · obtain parented | ⟨_, none⟩ := shape.parents a below
          · rw [same, orphan] at parented
            exact Option.map_eq_none_iff.mp parented
          · exact none
      · rw [if_neg same]
        exact shape.parents a below
  · intro a p below up
    by_cases here : a = address
    · rw [here, s.modify_self] at up
      cases up
      exact inside
    · rw [s.modify_of_ne _ here] at up
      exact shape.closed a p below up
  · intro n a there waiting
    have placeholder := shape.completed n a there waiting
    by_cases here : a = address
    · subst here
      rw [s.modify_self]
      exact placeholder
    · rw [s.modify_of_ne _ here, placeholder]

/-- What is in the table is stored in it again. -/
theorem store_again (shape : Shape s known parent awaiting) {name : Str} {address : ℕ}
    (found : lookup name s.types = some address) :
    Shape { s with types := Configuration.insert name address s.types } known parent awaiting where
  sized n a there := shape.sized n a ((lookup_insert_again found n).symm.trans there)
  unique a inside bare := (lookup_insert_again found _).trans (shape.unique a inside bare)
  known_iff n bare := by
    rw [lookup_insert_again found]
    exact shape.known_iff n bare
  parents := shape.parents
  closed := shape.closed
  completed n a there := shape.completed n a ((lookup_insert_again found n).symm.trans there)

/-- An object of a name is stored in the table under this name. -/
theorem store (shape : Shape s known parent awaiting) {name : Str} {address : ℕ} (inside : address < s.size)
    (named : (s.objects address).name = name) (read : ¬ awaiting name) :
    Shape { s with types := Configuration.insert name address s.types } known parent awaiting where
  sized n a there := by
    rw [lookup_insert] at there
    split at there
    · rename_i same
      cases there
      exact ⟨inside, named.trans same⟩
    · exact shape.sized n a there
  unique a below bare := by
    rw [lookup_insert]
    split
    · rename_i same
      rw [← named] at same
      rw [← shape.unique a below bare, ← same]
      exact (shape.unique address inside (same ▸ bare)).symm
    · exact shape.unique a below bare
  known_iff n bare := by
    rw [← shape.known_iff n bare, lookup_insert]
    split
    · rename_i same
      have found := shape.unique address inside (by rw [named, same, bare])
      rw [named, same] at found
      rw [found]
    · rfl
  parents := shape.parents
  closed := shape.closed
  completed n a there waiting := by
    rw [lookup_insert] at there
    split at there
    · rename_i same
      exact absurd (same ▸ waiting) read
    · exact shape.completed n a there waiting

/-! ### `getType` -/

/-- The chain of the object of a name. It is no longer than there are objects. -/
theorem pointers (shape : Shape s known parent awaiting) {name : Str} {address : ℕ} {ancestors : List Str}
    (found : lookup name s.types = some address) (line : Lineage parent name ancestors) :
    ∃ chain, Lineage s.parentOf (.object address) chain ∧
      ((∀ n, componentName n ≠ none → parent n = none) → chain.map s.nameOf = ancestors) ∧
      (∀ q ∈ chain, q.core < s.size) ∧ chain.length ≤ s.size := by
  obtain ⟨inside, named⟩ := shape.sized name address found
  subst named
  have mapped (a : ℕ) : (s.parentOf (.object a)).map s.nameOf = (s.objects a).parent.map fun p => (s.objects p).name := by
    change ((s.objects a).parent.map TypePtr.object).map s.nameOf = _
    rw [Option.map_map]
    rfl
  have named : ∀ q, (∃ a, a < s.size ∧ q = .object a) →
      (s.parentOf q).map s.nameOf = parent (s.nameOf q) ∨ s.parentOf q = none := by
    rintro _ ⟨a, below, rfl⟩
    obtain same | ⟨_, none⟩ := shape.parents a below
    · exact Or.inl ((mapped a).trans same)
    · exact Or.inr (Option.map_eq_none_iff.mpr none)
  have closed : ∀ q p, (∃ a, a < s.size ∧ q = .object a) → s.parentOf q = some p →
      ∃ a, a < s.size ∧ p = .object a := by
    rintro _ c ⟨a, below, rfl⟩ up
    change (s.objects a).parent.map TypePtr.object = some c at up
    obtain ⟨p, found, rfl⟩ := Option.map_eq_some_iff.mp up
    exact ⟨p, shape.closed a p below found, rfl⟩
  obtain ⟨chain, lineage, _, each⟩ := Lineage.pull_part named closed ⟨address, inside, rfl⟩ line
  refine ⟨chain, lineage, fun whole => ?_, fun q member => ?_, ?_⟩
  · have exactly : ∀ q, (∃ a, a < s.size ∧ q = .object a) → (s.parentOf q).map s.nameOf = parent (s.nameOf q) := by
      rintro _ ⟨a, below, rfl⟩
      exact (mapped a).trans (shape.parents_eq whole below)
    obtain ⟨chain', lineage', names, _⟩ := Lineage.pull exactly closed ⟨address, inside, rfl⟩ line
    rw [lineage.unique lineage', names]
  · obtain ⟨a, below, rfl⟩ := each q member
    exact below
  · have among : chain ⊆ (List.range s.size).map .object := by
      intro q member
      obtain ⟨a, below, rfl⟩ := each q member
      exact List.mem_map_of_mem (List.mem_range.mpr below)
    have short := (List.Nodup.subperm lineage.nodup among).length_le
    rwa [List.length_map, List.length_range] at short

theorem getTypeIn_unknown (shape : Shape s known parent awaiting) (n : ℕ) (text : Str) (long : text.length ≤ n)
    (missing : ¬ known (elementNameIn n text)) : s.getTypeIn n text = .ok none := by
  have absent {name : Str} (bare : componentName name = none) (missing : ¬ known name) :
      lookup name s.types = none := by
    apply Option.not_isSome_iff_eq_none.mp
    rwa [shape.known_iff name bare]
  induction n generalizing text with
  | zero =>
      have empty : text = [] := List.eq_nil_of_length_eq_zero (Nat.le_zero.mp long)
      subst empty
      have nothing : lookup [] s.types = none := absent rfl missing
      rw [Register.getTypeIn, nothing]
      rfl
  | succ n ih =>
      rw [Register.getTypeIn]
      rw [elementNameIn] at missing
      cases found : componentName text with
      | none =>
          rw [found] at missing
          dsimp only
          rw [absent found missing]
          rfl
      | some component =>
          rw [found] at missing
          have shorter := length_componentName found
          dsimp only
          rw [ih component (by omega) missing]

/-- A name with `[]` whose element is known has an array type of that depth, with the ancestors that the element
    has by now. -/
theorem getTypeIn_known (shape : Shape s known parent awaiting) {address : ℕ} {ancestors : List Str} (n : ℕ)
    (text : Str) (long : text.length ≤ n) (found : lookup (elementNameIn n text) s.types = some address)
    (line : Lineage parent (elementNameIn n text) ancestors) :
    ∃ type chain, s.getTypeIn n text = .ok (some type) ∧ type.core = address ∧ type.nesting = bracketsIn n text ∧
      Lineage s.parentOf type chain ∧
      ((∀ n, componentName n ≠ none → parent n = none) →
        chain.map s.nameOf = ancestors.map (arrayName (bracketsIn n text))) ∧
      (∀ q ∈ chain, q.core < s.size ∧ (componentName text ≠ none → 0 < q.nesting)) ∧ chain.length ≤ s.size := by
  have plain {name : Str} (found : lookup name s.types = some address) (line : Lineage parent name ancestors) :
      ∃ type chain, (Except.ok ((lookup name s.types).map TypePtr.object) : Except Failure _) = .ok (some type) ∧
        type.core = address ∧ type.nesting = 0 ∧ Lineage s.parentOf type chain ∧
        ((∀ n, componentName n ≠ none → parent n = none) → chain.map s.nameOf = ancestors.map (arrayName 0)) ∧
        (∀ q ∈ chain, q.core < s.size) ∧ chain.length ≤ s.size := by
    obtain ⟨chain, lineage, names, each, bound⟩ := shape.pointers found line
    refine ⟨.object address, chain, by rw [found]; rfl, rfl, rfl, lineage, fun whole => ?_, each, bound⟩
    rw [names whole]
    exact (List.map_id ancestors).symm
  induction n generalizing text with
  | zero =>
      have empty : text = [] := List.eq_nil_of_length_eq_zero (Nat.le_zero.mp long)
      subst empty
      obtain ⟨type, chain, got, core, nesting, lineage, names, each, bound⟩ := plain found line
      exact ⟨type, chain, got, core, nesting, lineage, names, fun q member => ⟨each q member, absurd rfl⟩, bound⟩
  | succ n ih =>
      rw [elementNameIn] at found line
      rw [Register.getTypeIn, bracketsIn]
      cases component_eq : componentName text with
      | none =>
          rw [component_eq] at found line
          obtain ⟨type, chain, got, core, nesting, lineage, names, each, bound⟩ := plain found line
          exact ⟨type, chain, got, core, nesting, lineage, names, fun q member => ⟨each q member, absurd rfl⟩, bound⟩
      | some component =>
          rw [component_eq] at found line
          have shorter := length_componentName component_eq
          obtain ⟨inner, chain, got, core, nesting, lineage, names, each, bound⟩ :=
            ih component (by omega) found line
          obtain ⟨type, arrays, made, line', core', nesting', names', each'⟩ :=
            newArray_spec lineage (Nat.le_succ_of_le bound)
          have lengths := congrArg List.length names'
          rw [List.length_map, List.length_map] at lengths
          refine ⟨type, arrays, ?_, core'.trans core, ?_, line', fun whole => ?_, ?_, lengths ▸ bound⟩
          · simp only [got, made]
            rfl
          · rw [nesting', nesting]
          · have appended : chain.map (fun q => s.nameOf q ++ str "[]") =
                (chain.map s.nameOf).map fun name => name ++ str "[]" := by rw [List.map_map]; rfl
            rw [names', appended, names whole, List.map_map]
            rfl
          · intro q member
            obtain ⟨positive, p, there, same⟩ := each' q member
            exact ⟨same ▸ (each p there).1, fun _ => positive⟩

end Shape

end Experimaestro.Definitions

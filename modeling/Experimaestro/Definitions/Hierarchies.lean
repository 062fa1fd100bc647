/-
Module: Experimaestro.Definitions.Hierarchies
Layer: Definitions
Purpose: The chains of parents in a register, and the loops that follow them. Reading a definition gives a parent to
  one object that had none, and new objects have none, so that a cycle can only come from the parent of a definition
  whose ancestors include the object that is being defined. `load` does not look for such a cycle.
Imports: Experimaestro.Library.TransitionSystem (runs), Experimaestro.Definitions.LoadOrder (parents of definitions),
  Experimaestro.Definitions.ValueTypes (the reader of values)
Trusted boundary: human-reviewed model of Type::accepts, Type::argument and Type::lca on type objects
Main exports: accepts, argument, lca, LoopsEnd, Orderly, Keeps, Reads, loadType_reads, Entry, loading, Fits,
  FiniteHierarchy, hierarchies_finite
Open obligations: none
-/
import Experimaestro.Library.TransitionSystem
import Experimaestro.Definitions.LoadOrder
import Experimaestro.Definitions.ValueTypes

namespace Experimaestro.Definitions

open Experimaestro.Configuration (Conversions Json Str str lookup insert lookup_insert bind_eq_ok except_map_eq_ok)
open TransitionSystem (System runActions)

/-! ### Loops over ancestors -/

namespace Register

variable {V : Type}

/-- `Type::arguments`; an `ArrayType` has none. -/
def argumentsOf (s : Register V) : TypePtr → List (Str × Argument V)
  | .object address => (s.objects address).arguments
  | _ => []

/-- `Type::accepts`, whose loop is cut off after `n` rounds. -/
def accepts (s : Register V) (n : ℕ) (type other : TypePtr) : Option Bool :=
  if s.nameOf type = str "any" then some true
  else
    (ascend s.parentOf (fun current _ => if s.nameOf current = s.nameOf type then .error true else .ok ())
        n (some other) ()).map fun
      | .error found => found
      | .ok _ => s.nameOf type == str "real" && s.nameOf other == str "integer"

/-- `Type::argument`, which is cut off after `n` calls. -/
def argument (s : Register V) (n : ℕ) (type : TypePtr) (name : Str) : Option (Option (Argument V)) :=
  (ascend s.parentOf (fun current _ => (lookup name (s.argumentsOf current)).elim (.ok ()) .error)
      n (some type) ()).map fun
    | .error a => some a
    | .ok _ => none

/-- `Type::lca`, whose loops are cut off after `n` rounds. -/
def lca (s : Register V) (n : ℕ) (a b : TypePtr) : Option TypePtr :=
  (ascend s.parentOf
      (fun current set => if s.nameOf current = s.nameOf b then .error a else .ok (s.nameOf current :: set))
      n (some a) []).bind fun
    | .error type => some type
    | .ok set =>
        (ascend s.parentOf (fun current _ => if s.nameOf current ∈ set then .error current else .ok ())
            n (some b) ()).map fun
          | .error current => current
          | .ok _ => .object 0

/-- The parents of the objects. -/
def parents (s : Register V) (address : ℕ) : Option ℕ := (s.objects address).parent

/-- A loop over a type and its ancestors ends, whatever its body is: `MapValue::_validate` and
    `MapValue::_generate` have such loops, too. -/
def LoopsEnd (s : Register V) (type : TypePtr) : Prop :=
  ∀ (σ ρ : Type) (body : TypePtr → σ → Except ρ σ) (state : σ),
    ∃ n result, ascend s.parentOf body n (some type) state = some result

variable {s : Register V}

theorem lineage_object {address : ℕ} {chain : List ℕ} (line : Lineage s.parents address chain) :
    Lineage s.parentOf (.object address) (chain.map .object) := by
  induction line with
  | root top => exact .root (congrArg (Option.map TypePtr.object) top)
  | child up _ ih => exact .child (congrArg (Option.map TypePtr.object) up) ih

/-- Loops over a type end exactly if its chain of parents does. -/
theorem loopsEnd_iff (address : ℕ) : s.LoopsEnd (.object address) ↔ ∃ chain, Lineage s.parents address chain := by
  constructor
  · intro ends
    obtain ⟨n, result, ended⟩ := ends Unit Unit (fun _ _ => .ok ()) ()
    obtain ⟨pointers, line⟩ := exists_lineage_of_ascend (fun _ _ => ⟨(), rfl⟩) ended
    have named (b : ℕ) (_ : True) : (s.parents b).map TypePtr.object = s.parentOf (.object b) := rfl
    obtain ⟨chain, line', _, _⟩ := line.pull named (fun _ _ _ _ => trivial) trivial
    exact ⟨chain, line'⟩
  · intro ⟨chain, line⟩ σ ρ body state
    obtain ⟨result, ended⟩ := (lineage_object line).ascend_ends (Nat.le_refl _) body state
    exact ⟨_, result, ended⟩

/-- `Type::argument`, `Type::accepts` and `Type::lca` return where the chains of parents end. -/
theorem calls_end {type other : TypePtr} {chain chain' : List TypePtr} (line : Lineage s.parentOf type chain)
    (line' : Lineage s.parentOf other chain') :
    ∃ n, (∀ name, (s.argument n type name).isSome) ∧ (s.accepts n type other).isSome ∧
      (s.lca n type other).isSome := by
  have first : chain.length ≤ max chain.length chain'.length := Nat.le_max_left _ _
  have second : chain'.length ≤ max chain.length chain'.length := Nat.le_max_right _ _
  refine ⟨max chain.length chain'.length, fun name => ?_, ?_, ?_⟩
  · obtain ⟨result, ended⟩ := line.ascend_ends first
      (fun current _ => (lookup name (s.argumentsOf current)).elim (.ok ()) .error) ()
    rw [argument, ended]
    rfl
  · rw [accepts]
    split
    · rfl
    · obtain ⟨result, ended⟩ := line'.ascend_ends second
        (fun current _ => if s.nameOf current = s.nameOf type then .error true else .ok ()) ()
      rw [ended]
      rfl
  · obtain ⟨result, ended⟩ := line.ascend_ends first
      (fun current set => if s.nameOf current = s.nameOf other then .error type else .ok (s.nameOf current :: set)) []
    rw [lca, ended]
    cases result with
    | error found => rfl
    | ok set =>
        obtain ⟨result, ended⟩ := line'.ascend_ends second
          (fun current _ => if s.nameOf current ∈ set then .error current else .ok ()) ()
        rw [Option.bind_some]
        dsimp only
        rw [ended]
        rfl

end Register

/-! ### Steps that give no parent -/

section

variable {V : Type}

/-- A register between two steps of the loader: what is in the table is an object of its name, and free addresses
    and placeholders have no parent. -/
structure Orderly (s : Register V) : Prop where
  sized : ∀ n a, lookup n s.types = some a → a < s.size
  named : ∀ n a, lookup n s.types = some a → (s.objects a).name = n
  free : ∀ a, s.size ≤ a → s.parents a = none
  waiting : ∀ a, (s.objects a).placeholder = true → s.parents a = none
  closed : ∀ a p, s.parents a = some p → p < s.size

/-- A step that gives no parent to an object, and no other name. -/
structure Spares (s s' : Register V) : Prop where
  parents : s'.parents = s.parents
  size_le : s.size ≤ s'.size
  name : ∀ a, a < s.size → (s'.objects a).name = (s.objects a).name
  waits : ∀ a, a < s.size → (s'.objects a).placeholder = true → (s.objects a).placeholder = true

/-- A step that keeps a register orderly and gives no parents. -/
def Keeps (s s' : Register V) : Prop := Orderly s → Orderly s' ∧ Spares s s'

variable {s s' s'' : Register V}

theorem Spares.refl (s : Register V) : Spares s s := ⟨rfl, Nat.le_refl _, fun _ _ => rfl, fun _ _ => id⟩

theorem Spares.trans (one : Spares s s') (two : Spares s' s'') : Spares s s'' where
  parents := two.parents.trans one.parents
  size_le := Nat.le_trans one.size_le two.size_le
  name a below := (two.name a (Nat.lt_of_lt_of_le below one.size_le)).trans (one.name a below)
  waits a below waiting := one.waits a below (two.waits a (Nat.lt_of_lt_of_le below one.size_le) waiting)

theorem Keeps.refl (s : Register V) : Keeps s s := fun orderly => ⟨orderly, .refl s⟩

theorem Keeps.trans (one : Keeps s s') (two : Keeps s' s'') : Keeps s s'' := by
  intro orderly
  obtain ⟨orderly', spares⟩ := one orderly
  obtain ⟨orderly'', spares'⟩ := two orderly'
  exact ⟨orderly'', spares.trans spares'⟩

/-- A new object has no parent. -/
theorem keeps_addType (s : Register V) (name : Str) (placeholder : Bool) : Keeps s (s.addType name placeholder) := by
  intro orderly
  have new := s.addType_self name placeholder
  have parents : (s.addType name placeholder).parents = s.parents := by
    funext a
    by_cases here : a = s.size
    · rw [orderly.free a (Nat.le_of_eq here.symm), here, Register.parents, new]
    · rw [Register.parents, s.addType_of_ne here, Register.parents]
  have old {a : ℕ} (below : a < s.size) : (s.addType name placeholder).objects a = s.objects a :=
    s.addType_of_ne (Nat.ne_of_lt below)
  refine ⟨⟨?_, ?_, ?_, ?_, ?_⟩, parents, Nat.le_succ _, fun a below => by rw [old below],
    fun a below => by rw [old below]; exact id⟩
  · intro n a found
    rw [s.lookup_addType] at found
    split at found
    · cases found
      exact Nat.lt_succ_self _
    · exact Nat.lt_succ_of_lt (orderly.sized n a found)
  · intro n a found
    rw [s.lookup_addType] at found
    split at found
    · rename_i same
      cases found
      rw [new]
      exact same
    · rw [old (orderly.sized n a found)]
      exact orderly.named n a found
  · intro a above
    rw [parents]
    exact orderly.free a (Nat.le_of_succ_le above)
  · intro a waits
    rw [parents]
    by_cases here : a = s.size
    · exact orderly.free a (Nat.le_of_eq here.symm)
    · rw [s.addType_of_ne here] at waits
      exact orderly.waiting a waits
  · intro a p up
    rw [parents] at up
    exact Nat.lt_succ_of_lt (orderly.closed a p up)

/-- A change of an object that keeps its name and its parent and makes no placeholder of it. -/
theorem keeps_modify (s : Register V) (address : ℕ) {f : TypeObject V → TypeObject V}
    (named : ∀ type, (f type).name = type.name) (parented : ∀ type, (f type).parent = type.parent)
    (waits : ∀ type, (f type).placeholder = true → type.placeholder = true) : Keeps s (s.modify address f) := by
  intro orderly
  have name (a : ℕ) : ((s.modify address f).objects a).name = (s.objects a).name := by
    by_cases here : a = address
    · rw [here, s.modify_self, named]
    · rw [s.modify_of_ne f here]
  have parents : (s.modify address f).parents = s.parents := by
    funext a
    by_cases here : a = address
    · rw [here, Register.parents, s.modify_self, parented, Register.parents]
    · rw [Register.parents, s.modify_of_ne f here, Register.parents]
  have waited (a : ℕ) (waiting : ((s.modify address f).objects a).placeholder = true) :
      (s.objects a).placeholder = true := by
    by_cases here : a = address
    · rw [here, s.modify_self] at waiting
      rw [here]
      exact waits _ waiting
    · rwa [s.modify_of_ne f here] at waiting
  refine ⟨⟨orderly.sized, fun n a found => (name a).trans (orderly.named n a found), ?_, ?_, ?_⟩,
    parents, Nat.le_refl _, fun a _ => name a, fun a _ => waited a⟩
  · rw [parents]
    exact orderly.free
  · intro a waiting
    rw [parents]
    exact orderly.waiting a (waited a waiting)
  · rw [parents]
    exact orderly.closed

/-- A reader of values that gives no parents. -/
def Careful (createValue : ValueReader V) : Prop :=
  ∀ s j v s', createValue s j = .ok (v, s') → Keeps s s'

theorem careful_createValue (conversions : Conversions) : Careful (createValue conversions) := by
  intro s j v s' read
  have keeps (names : List Str) : Keeps s (addPlaceholders s names) := by
    induction names with
    | nil => exact .refl s
    | cons name rest ih => exact ih.trans (keeps_addType _ name true)
  unfold createValue at read
  split at read
  · cases read
  · cases read
    exact keeps _

theorem keeps_resolveType {text : Str} {type : TypePtr} (resolved : resolveType s text = .ok (type, s')) :
    Keeps s s' := by
  obtain ⟨found, _, result⟩ := bind_eq_ok.mp resolved
  cases found with
  | none =>
      cases result
      exact keeps_addType s text true
  | some other =>
      cases result
      exact .refl s

section

variable {createValue : ValueReader V} (careful : Careful createValue)

include careful

/-- The end of `readArgument`: the constant and the generator. -/
theorem keeps_readConstant {text valueTypename : Str} {value : Json} {a1 a : Argument V} {s1 s' : Register V}
    (read : (do
      let (a, s) ←
        match find (str "constant") value with
        | none => .ok (a1, s1)
        | some _ => do
            let j ← member (str "default") value
            let read ← createValue s1 j
            .ok (a1.setConstant read.1, read.2)
      let generator ←
        match find (str "generator") value with
        | none => .ok none
        | some j => (createFromJSON j).map some
      .ok (text, { a with generator := generator }, s)) = (.ok (valueTypename, a, s') : Except Failure _)) :
    Keeps s1 s' := by
  have last {a2 : Argument V} {s2 : Register V}
      (read : (do
        let generator ←
          match find (str "generator") value with
          | none => .ok none
          | some j => (createFromJSON j).map some
        .ok (text, { a2 with generator := generator }, s2)) = (.ok (valueTypename, a, s') : Except Failure _)) :
      s2 = s' := by
    cases generated : find (str "generator") value with
    | none =>
        simp only [generated] at read
        cases read
        rfl
    | some j =>
        simp only [generated] at read
        obtain ⟨generator, _, same⟩ := bind_eq_ok.mp read
        cases same
        rfl
  cases constant : find (str "constant") value with
  | none =>
      simp only [constant] at read
      have same : s1 = s' := last read
      exact same ▸ .refl s1
  | some j =>
      simp only [constant] at read
      obtain ⟨j, _, read⟩ := bind_eq_ok.mp read
      obtain ⟨⟨v, later⟩, created, read⟩ := bind_eq_ok.mp read
      have same : later = s' := last read
      exact same ▸ careful s1 j v later created

theorem keeps_readArgument {typeName name valueTypename : Str} {value : Json} {a : Argument V}
    (read : readArgument createValue s typeName name value = .ok (valueTypename, a, s')) : Keeps s s' := by
  unfold readArgument at read
  split at read
  · cases read
    exact .refl s
  · split at read
    · cases read
    · obtain ⟨text, _, read⟩ := bind_eq_ok.mp read
      obtain ⟨help, _, read⟩ := bind_eq_ok.mp read
      obtain ⟨required, _, read⟩ := bind_eq_ok.mp read
      cases default : find (str "default") value with
      | none =>
          simp only [default] at read
          exact keeps_readConstant careful read
      | some j =>
          simp only [default] at read
          obtain ⟨⟨a1, s1⟩, mapped, read⟩ := bind_eq_ok.mp read
          obtain ⟨⟨v, later⟩, created, same⟩ := except_map_eq_ok.mp mapped
          cases same
          exact (careful s j v later created).trans (keeps_readConstant careful read)

theorem keeps_loadArguments {address : ℕ} {typeName : Str} {entries : List (Option Str × Json)}
    (loaded : loadArguments createValue address typeName entries s = .ok s') : Keeps s s' := by
  induction entries generalizing s with
  | nil =>
      cases loaded
      exact .refl _
  | cons entry rest ih =>
      rw [loadArguments] at loaded
      obtain ⟨name, _, loaded⟩ := bind_eq_ok.mp loaded
      obtain ⟨⟨valueTypename, a, s1⟩, read, loaded⟩ := bind_eq_ok.mp loaded
      obtain ⟨⟨type, s2⟩, resolved, loaded⟩ := bind_eq_ok.mp loaded
      apply (keeps_readArgument careful read).trans
      apply (keeps_resolveType resolved).trans
      refine Keeps.trans ?_ (ih loaded)
      exact keeps_modify s2 address (fun _ => rfl) (fun _ => rfl) (fun _ => id)

theorem keeps_loadProperties {address : ℕ} {entries : List (Option Str × Json)}
    (loaded : loadProperties createValue address entries s = .ok s') : Keeps s s' := by
  induction entries generalizing s with
  | nil =>
      cases loaded
      exact .refl _
  | cons entry rest ih =>
      rw [loadProperties] at loaded
      obtain ⟨⟨v, s1⟩, read, loaded⟩ := bind_eq_ok.mp loaded
      obtain ⟨name, _, loaded⟩ := bind_eq_ok.mp loaded
      apply (careful s _ v s1 read).trans
      refine Keeps.trans ?_ (ih loaded)
      exact keeps_modify s1 address (fun _ => rfl) (fun _ => rfl) (fun _ => id)

/-- The properties of a definition, if it has any. -/
theorem keeps_properties {address : ℕ} {properties : Option Json}
    (loaded : (properties.elim (.ok s) fun j => loadProperties createValue address (items j) s) = .ok s') :
    Keeps s s' := by
  cases properties with
  | none =>
      cases loaded
      exact .refl _
  | some j => exact keeps_loadProperties careful loaded

end

theorem keeps_loadDescription {address : ℕ} {description : Option Json}
    (loaded : loadDescription s address description = .ok s') : Keeps s s' ∧ s'.types = s.types := by
  cases description with
  | none =>
      cases loaded
      exact ⟨.refl s, rfl⟩
  | some j =>
      rw [loadDescription] at loaded
      cases text : getString j with
      | error e =>
          rw [text] at loaded
          cases loaded
      | ok text' =>
          rw [text] at loaded
          cases loaded
          exact ⟨keeps_modify s address (fun _ => rfl) (fun _ => rfl) (fun _ => id), rfl⟩

/-! ### The definition of an object -/

/-- What `openType` gives: an object under the name, without a parent. -/
structure Opened (s : Register V) (name : Str) (address : ℕ) (s' : Register V) : Prop where
  orderly : Orderly s'
  spares : Spares s s'
  found : lookup name s'.types = some address
  before : ∀ a, lookup name s.types = some a → a = address
  new : lookup name s.types = none → address = s.size
  others : ∀ n, n ≠ name → lookup n s'.types = lookup n s.types
  complete : (s'.objects address).placeholder = false
  orphan : s.parents address = none

theorem openType_opened (orderly : Orderly s) {name : Str} {address : ℕ}
    (opened : openType s name = .ok (address, s')) : Opened s name address s' := by
  unfold openType at opened
  cases found : lookup name s.types with
  | some a =>
      rw [found] at opened
      dsimp only at opened
      split at opened
      · rename_i waits
        cases opened
        obtain ⟨orderly', spares⟩ := keeps_modify s address (f := fun type => { type with placeholder := false })
          (fun _ => rfl) (fun _ => rfl) (fun _ => nofun) orderly
        refine ⟨orderly', spares, found, ?_, ?_, fun _ _ => rfl, ?_, orderly.waiting address waits⟩
        · intro b there
          exact (Option.some.inj (found.symm.trans there)).symm
        · intro missing
          cases found.symm.trans missing
        · rw [s.modify_self]
      · cases opened
  | none =>
      rw [found] at opened
      cases opened
      obtain ⟨orderly', spares⟩ := keeps_addType s name false orderly
      refine ⟨orderly', spares, ?_, ?_, fun _ => rfl, ?_, ?_, orderly.free _ (Nat.le_refl _)⟩
      · rw [s.lookup_addType, if_pos rfl]
      · intro b there
        cases found.symm.trans there
      · intro n other
        rw [s.lookup_addType, if_neg (Ne.symm other)]
      · rw [s.addType_self]

/-- What `setParent` gives: the parent `q` of the object, which is registered under the name of the parent. -/
structure Parented (s : Register V) (address : ℕ) (p : Str) (q : ℕ) (s' : Register V) : Prop where
  orderly : Orderly s'
  parents : s'.parents = Function.update s.parents address (some q)
  size_le : s.size ≤ s'.size
  name : ∀ a, a < s.size → (s'.objects a).name = (s.objects a).name
  known : ∀ a, lookup p s.types = some a → a = q
  unknown : lookup p s.types = none → q = s.size

/-- An object that is no placeholder is given a parent. -/
theorem modify_parent (orderly : Orderly s) {address q : ℕ} (inside : address < s.size) (parent : q < s.size)
    (complete : (s.objects address).placeholder = false) :
    Orderly (s.modify address fun type => { type with parent := some q }) ∧
      (s.modify address fun type => { type with parent := some q }).parents =
        Function.update s.parents address (some q) ∧
      ∀ a, ((s.modify address fun type => { type with parent := some q }).objects a).name = (s.objects a).name := by
  have parents : (s.modify address fun type => { type with parent := some q }).parents =
      Function.update s.parents address (some q) := by
    funext a
    by_cases here : a = address
    · rw [here, Function.update_self, Register.parents, s.modify_self]
    · rw [Function.update_of_ne here, Register.parents, s.modify_of_ne _ here, Register.parents]
  have name (a : ℕ) :
      ((s.modify address fun type => { type with parent := some q }).objects a).name = (s.objects a).name := by
    by_cases here : a = address
    · rw [here, s.modify_self]
    · rw [s.modify_of_ne _ here]
  refine ⟨⟨orderly.sized, fun n a found => (name a).trans (orderly.named n a found), ?_, ?_, ?_⟩, parents, name⟩
  · intro a above
    rw [parents, Function.update_of_ne (Nat.ne_of_gt (Nat.lt_of_lt_of_le inside above))]
    exact orderly.free a above
  · intro a waits
    have other : a ≠ address := by
      rintro rfl
      rw [s.modify_self, complete] at waits
      cases waits
    rw [s.modify_of_ne _ other] at waits
    rw [parents, Function.update_of_ne other]
    exact orderly.waiting a waits
  · intro a r up
    rw [parents] at up
    by_cases here : a = address
    · rw [here, Function.update_self] at up
      cases up
      exact parent
    · rw [Function.update_of_ne here] at up
      exact orderly.closed a r up

theorem setParent_parented (orderly : Orderly s) {address : ℕ} (inside : address < s.size)
    (complete : (s.objects address).placeholder = false) (p : Str) :
    ∃ q, Parented s address p q (setParent s address p) := by
  unfold setParent
  cases found : lookup p s.types with
  | some q =>
      obtain ⟨orderly', parents, name⟩ := modify_parent orderly inside (orderly.sized p q found) complete
      refine ⟨q, orderly', parents, Nat.le_refl _, fun a _ => name a, ?_, ?_⟩
      · intro a there
        exact (Option.some.inj (found.symm.trans there)).symm
      · intro missing
        cases found.symm.trans missing
  | none =>
      obtain ⟨orderly', spares⟩ := keeps_addType s p true orderly
      have kept : (s.addType p true).objects address = s.objects address := s.addType_of_ne (Nat.ne_of_lt inside)
      obtain ⟨orderly'', parents, name⟩ :=
        modify_parent orderly' (Nat.lt_succ_of_lt inside) (Nat.lt_succ_self s.size) (kept ▸ complete)
      refine ⟨s.size, orderly'', spares.parents ▸ parents, spares.size_le, ?_, ?_, fun _ => rfl⟩
      · intro a below
        exact (name a).trans (spares.name a below)
      · intro a there
        cases found.symm.trans there

/-- What reading a definition gives: an object that had no parent, registered under the name, with the parent that the
    definition names. -/
structure Reads (s : Register V) (name : Str) (e : Json) (address : ℕ) (s' : Register V) : Prop where
  orderly : Orderly s'
  registered : lookup name s'.types = some address
  before : ∀ a, lookup name s.types = some a → a = address
  new : lookup name s.types = none → address = s.size
  orphan : s.parents address = none
  alone : parentText e = none → s'.parents = s.parents
  parented : ∀ p, parentText e = some p → ∃ q, s'.parents = Function.update s.parents address (some q) ∧
    (p = name → q = address) ∧ (p ≠ name → ∀ a, lookup p s.types = some a → a = q) ∧
      (p ≠ name → lookup p s.types = none → s.size ≤ q ∧ q ≠ address)

/-- The end of a definition: `_types[type->name()] = type`. -/
theorem store_registered (orderly : Orderly s) {name : Str} {address : ℕ} (inside : address < s.size)
    (named : (s.objects address).name = name) :
    Orderly { s with types := insert name address s.types } := by
  refine ⟨?_, ?_, orderly.free, orderly.waiting, orderly.closed⟩
  · intro n a found
    rw [lookup_insert] at found
    split at found
    · cases found
      exact inside
    · exact orderly.sized n a found
  · intro n a found
    rw [lookup_insert] at found
    split at found
    · rename_i same
      cases found
      exact named.trans same
    · exact orderly.named n a found

theorem loadParent_cases {address : ℕ} {members : List (Str × Json)}
    (loaded : loadParent s address (lookup (str "parent") members) = .ok s') :
    parentText (.object members) = none ∧ s' = s ∨
      ∃ p, parentText (.object members) = some p ∧ s' = setParent s address p := by
  cases found : lookup (str "parent") members with
  | none =>
      rw [found] at loaded
      cases loaded
      exact Or.inl ⟨by simp only [parentText, find, found], rfl⟩
  | some j =>
      rw [found] at loaded
      cases j with
      | string p =>
          cases loaded
          exact Or.inr ⟨p, by simp only [parentText, find, found], rfl⟩
      | _ => cases loaded

/-- What follows the parent in a definition, up to its end. -/
theorem Keeps.store (keeps : Keeps s s') (orderly : Orderly s) {name : Str} {address : ℕ} (inside : address < s.size)
    (named : (s.objects address).name = name) :
    (s'.objects address).name = name ∧ s'.parents = s.parents ∧
      Orderly { s' with types := insert (s'.objects address).name address s'.types } := by
  obtain ⟨orderly', spares⟩ := keeps orderly
  have inside' : address < s'.size := Nat.lt_of_lt_of_le inside spares.size_le
  exact ⟨(spares.name address inside).trans named, spares.parents, store_registered orderly' inside' rfl⟩

variable {createValue : ValueReader V}

theorem loadType_reads (careful : Careful createValue) (orderly : Orderly s) {name : Str} {e : Json}
    (loaded : loadType createValue s name e = .ok s') : ∃ address, Reads s name e address s' := by
  cases e with
  | object members =>
      rw [loadType] at loaded
      obtain ⟨⟨address, s1⟩, opens, loaded⟩ := bind_eq_ok.mp loaded
      obtain ⟨s2, described, loaded⟩ := bind_eq_ok.mp loaded
      obtain ⟨s3, parented, loaded⟩ := bind_eq_ok.mp loaded
      obtain ⟨s4, properties, loaded⟩ := bind_eq_ok.mp loaded
      obtain ⟨s5, arguments, stored⟩ := bind_eq_ok.mp loaded
      cases stored
      have opened := openType_opened orderly opens
      obtain ⟨keeps, sameTypes⟩ := keeps_loadDescription described
      obtain ⟨orderly2, spares2⟩ := keeps opened.orderly
      have inside1 : address < s1.size := opened.orderly.sized name address opened.found
      have inside2 : address < s2.size := Nat.lt_of_lt_of_le inside1 spares2.size_le
      have complete : (s2.objects address).placeholder = false := by
        apply Bool.eq_false_iff.mpr
        intro waits
        cases opened.complete.symm.trans (spares2.waits address inside1 waits)
      have named2 : (s2.objects address).name = name :=
        (spares2.name address inside1).trans (opened.orderly.named name address opened.found)
      have parents2 : s2.parents = s.parents := spares2.parents.trans opened.spares.parents
      have rest : Keeps s3 s5 := (keeps_properties careful properties).trans (keeps_loadArguments careful arguments)
      rcases loadParent_cases parented with ⟨without, rfl⟩ | ⟨p, text, rfl⟩
      · obtain ⟨named5, parents5, orderly5⟩ := rest.store orderly2 inside2 named2
        refine ⟨address, orderly5, ?_, opened.before, opened.new, opened.orphan, fun _ => parents5.trans parents2, ?_⟩
        · rw [lookup_insert, if_pos named5]
        · intro p text
          cases text.symm.trans without
      · obtain ⟨q, made⟩ := setParent_parented orderly2 inside2 complete p
        obtain ⟨named5, parents5, orderly5⟩ := rest.store made.orderly (Nat.lt_of_lt_of_le inside2 made.size_le)
          ((made.name address inside2).trans named2)
        refine ⟨address, orderly5, ?_, opened.before, opened.new, opened.orphan, ?_, ?_⟩
        · rw [lookup_insert, if_pos named5]
        · intro without
          cases text.symm.trans without
        · intro p' text'
          cases text.symm.trans text'
          refine ⟨q, parents5.trans (parents2 ▸ made.parents), ?_, ?_, ?_⟩
          · rintro rfl
            exact (made.known address (sameTypes ▸ opened.found)).symm
          · intro other a found
            apply made.known a
            rw [sameTypes, opened.others p other, found]
          · intro other missing
            have last : q = s2.size := by
              apply made.unknown
              rw [sameTypes, opened.others p other, missing]
            rw [last]
            exact ⟨Nat.le_trans opened.spares.size_le spares2.size_le, Nat.ne_of_gt inside2⟩
  | _ => cases loaded

/-! ### A new register -/

/-- The objects of a new register with a parent have the address 0 as parent, and are predefined types. -/
theorem fresh_parents {a p : ℕ} (up : (Register.fresh : Register V).parents a = some p) :
    a < (Register.fresh : Register V).size ∧ p = 0 ∧ a ≠ 0 := by
  rcases a with _ | _ | _ | _ | _ | _ | a
  all_goals cases up
  all_goals exact ⟨Nat.lt_of_sub_pos (Nat.succ_pos _), rfl, Nat.succ_ne_zero _⟩

theorem orderly_fresh : Orderly (Register.fresh : Register V) where
  sized n a found := (fresh_entry found).1
  named n a found := (fresh_entry found).2.1
  free a above := by
    apply Option.eq_none_iff_forall_ne_some.mpr
    intro p up
    exact absurd (fresh_parents up).1 (Nat.not_lt.mpr above)
  waiting a waits := by
    rcases a with _ | _ | _ | _ | _ | _ | a
    all_goals cases waits
  closed a p up := by
    rw [(fresh_parents up).2.1]
    exact Nat.succ_pos _

theorem fresh_ends (a : ℕ) : ∃ chain, Lineage (Register.fresh : Register V).parents a chain := by
  apply Lineage.exists_of_rank fun a => if a = 0 then 0 else 1
  intro x p up
  obtain ⟨_, zero, other⟩ := fresh_parents up
  simp [zero, other]

/-! ### Runs -/

end

/-- An entry of a document: the definition of a type, or a task. -/
inductive Entry where
  | definition (name : Str) (e : Json)
  | task (identifier : Str) (e : Json)

section

variable {V : Type}

/-- What `load` does with an entry. -/
def readEntry (createValue : ValueReader V) : Entry → Register V → Option (Register V)
  | .definition name e, s => (loadType createValue s name e).toOption
  | .task identifier e, s => (loadTask s identifier e).toOption

/-- The members of an object that is a member. -/
def membersOf (key : Str) (j : Json) : List (Str × Json) :=
  match find key j with
  | some (.object members) => members
  | _ => []

/-- The entries of a document, in the order in which `load` reads them. -/
def entries (j : Json) : List Entry :=
  (membersOf (str "types") j).map (fun d => .definition d.1 d.2) ++
    (membersOf (str "tasks") j).map fun t => .task t.1 t.2

/-- The parent that an entry gives, if any, has another name, and none of its ancestors is the object that is
    registered under the name of the definition. -/
def Fits (s : Register V) : Entry → Prop
  | .definition name e => ∀ p, parentText e = some p → p ≠ name ∧
      ∀ a q chain, lookup name s.types = some a → lookup p s.types = some q → Lineage s.parents q chain → a ∉ chain
  | .task _ _ => True

/-- The entries fit when they are read, one after the other. -/
def EntriesFit (createValue : ValueReader V) : List Entry → Register V → Prop
  | [], _ => True
  | entry :: rest, s =>
      Fits s entry ∧ ∀ s', readEntry createValue entry s = some s' → EntriesFit createValue rest s'

/-- The chain of parents of every registered type is finite. -/
def FiniteHierarchy (s : Register V) : Prop :=
  ∀ name a, lookup name s.types = some a → ∃ chain, Lineage s.parents a chain

variable {createValue : ValueReader V} {s s' : Register V}

theorem toOption_eq_some {ε α : Type} {x : Except ε α} {a : α} : x.toOption = some a ↔ x = .ok a := by
  cases x with
  | error e => simp [Except.toOption]
  | ok b => simp [Except.toOption]

theorem loadTypes_entries {types : List (Str × Json)} (loaded : loadTypes createValue types s = .ok s') :
    runActions (readEntry createValue) (types.map fun d => .definition d.1 d.2) s = some s' := by
  induction types generalizing s with
  | nil =>
      cases loaded
      rfl
  | cons d rest ih =>
      obtain ⟨mid, first, loaded⟩ := bind_eq_ok.mp loaded
      rw [List.map_cons, runActions, readEntry, toOption_eq_some.mpr first, Option.bind_some]
      exact ih loaded

theorem loadTasks_entries {tasks : List (Str × Json)} (loaded : loadTasks tasks s = .ok s') :
    runActions (readEntry createValue) (tasks.map fun t => .task t.1 t.2) s = some s' := by
  induction tasks generalizing s with
  | nil =>
      cases loaded
      rfl
  | cons t rest ih =>
      obtain ⟨mid, first, loaded⟩ := bind_eq_ok.mp loaded
      rw [List.map_cons, runActions, readEntry, toOption_eq_some.mpr first, Option.bind_some]
      exact ih loaded

theorem membersOf_eq {key : Str} {j inner : Json} {members : List (Str × Json)}
    (found : member key j = .ok inner) (object : objectMembers inner = .ok members) : membersOf key j = members := by
  cases j with
  | object ms =>
      rw [member] at found
      cases there : lookup key ms with
      | none =>
          rw [there] at found
          cases found
      | some value =>
          rw [there] at found
          cases found
          cases inner with
          | object inside =>
              cases object
              simp only [membersOf, find, there]
          | _ => cases object
  | _ => cases found

/-- A call of `load` reads the entries of the document one after the other. -/
theorem load_entries {j : Json} (loaded : load createValue s j = .ok s') :
    runActions (readEntry createValue) (entries j) s = some s' := by
  obtain ⟨inner, there, loaded⟩ := bind_eq_ok.mp loaded
  obtain ⟨types, object, loaded⟩ := bind_eq_ok.mp loaded
  obtain ⟨mid, read, loaded⟩ := bind_eq_ok.mp loaded
  obtain ⟨inner', there', loaded⟩ := bind_eq_ok.mp loaded
  obtain ⟨tasks, object', loaded⟩ := bind_eq_ok.mp loaded
  rw [entries, membersOf_eq there object, membersOf_eq there' object', TransitionSystem.runActions_append,
    loadTypes_entries read, Option.bind_some]
  exact loadTasks_entries loaded

/-- The registers that are built by reading entries, from a new register on. -/
def loading (createValue : ValueReader V) : System (Register V) Entry :=
  .ofFunction Register.fresh (readEntry createValue)

/-- Entries that fit continue a run whose entries fit. -/
theorem runUnder_entries {read : List Entry} (run : (loading createValue).RunUnder Fits s)
    (fit : EntriesFit createValue read s) (result : runActions (readEntry createValue) read s = some s') :
    (loading createValue).RunUnder Fits s' := by
  induction read generalizing s with
  | nil =>
      cases result
      exact run
  | cons entry rest ih =>
      obtain ⟨mid, first, others⟩ := Option.bind_eq_some_iff.mp result
      exact ih (.step run fit.1 first) (fit.2 mid first) others

/-! ### Parents that fit -/

/-- The ancestors of an object that has been created have been created. -/
theorem lineage_inside (orderly : Orderly s) {a : ℕ} {chain : List ℕ} (line : Lineage s.parents a chain)
    (inside : a < s.size) : ∀ b ∈ chain, b < s.size := by
  induction line with
  | root top =>
      intro b single
      exact List.mem_singleton.mp single ▸ inside
  | child up rest ih =>
      intro b member
      rcases List.mem_cons.mp member with rfl | above
      · exact inside
      · exact ih (orderly.closed _ _ up) b above

/-- The parent of a definition fits exactly if the object is not among the parent's ancestors. -/
theorem Reads.fits_iff {name : Str} {e : Json} {address : ℕ} (reads : Reads s name e address s')
    (orderly : Orderly s) (ends : ∀ a, ∃ chain, Lineage s.parents a chain) :
    Fits s (.definition name e) ↔ ∀ p, parentText e = some p → ∃ q chain,
      s'.parents = Function.update s.parents address (some q) ∧ Lineage s.parents q chain ∧ address ∉ chain := by
  constructor
  · intro fits p text
    obtain ⟨other, apart⟩ := fits p text
    obtain ⟨q, parents, _, known, unknown⟩ := reads.parented p text
    obtain ⟨chain, line⟩ := ends q
    refine ⟨q, chain, parents, line, ?_⟩
    cases parent : lookup p s.types with
    | none =>
        obtain ⟨free, distinct⟩ := unknown other parent
        cases line.unique (.root (orderly.free q free))
        exact fun same => distinct (List.mem_singleton.mp same).symm
    | some r =>
        cases known other r parent
        cases found : lookup name s.types with
        | none =>
            rw [reads.new found]
            intro inside
            exact Nat.lt_irrefl _ (lineage_inside orderly line (orderly.sized p _ parent) _ inside)
        | some a =>
            cases reads.before a found
            exact apart _ _ chain found parent line
  · intro apart p text
    obtain ⟨q, chain, parents, line, fresh⟩ := apart p text
    obtain ⟨q', parents', self, known, _⟩ := reads.parented p text
    have same : q' = q := by
      have both := congrFun (parents'.symm.trans parents) address
      rw [Function.update_self, Function.update_self] at both
      exact Option.some.inj both
    cases same
    constructor
    · intro p_eq
      rw [self p_eq] at line
      exact fresh line.head_mem
    · intro a r chain' found parent line' inside
      have other : p ≠ name := by
        intro p_eq
        rw [self p_eq] at line
        exact fresh line.head_mem
      cases reads.before a found
      cases known other r parent
      cases line.unique line'
      exact fresh inside

/-- A definition that fits makes no endless chain. -/
theorem Reads.ends {name : Str} {e : Json} {address : ℕ} (reads : Reads s name e address s') (orderly : Orderly s)
    (ends : ∀ a, ∃ chain, Lineage s.parents a chain) (fits : Fits s (.definition name e)) (a : ℕ) :
    ∃ chain, Lineage s'.parents a chain := by
  cases text : parentText e with
  | none =>
      rw [reads.alone text]
      exact ends a
  | some p =>
      obtain ⟨q, chain, parents, line, fresh⟩ := (reads.fits_iff orderly ends).mp fits p text
      rw [parents]
      exact Lineage.exists_update ends reads.orphan line fresh a

/-- A definition after which the chain of its type is finite fits. -/
theorem Reads.fits {name : Str} {e : Json} {address : ℕ} (reads : Reads s name e address s') (orderly : Orderly s)
    (ends : ∀ a, ∃ chain, Lineage s.parents a chain) (finite : FiniteHierarchy s') : Fits s (.definition name e) := by
  apply (reads.fits_iff orderly ends).mpr
  intro p text
  obtain ⟨q, parents, _⟩ := reads.parented p text
  obtain ⟨chain, line⟩ := ends q
  obtain ⟨after, updated⟩ := finite name address reads.registered
  rw [parents] at updated
  exact ⟨q, chain, parents, line, Lineage.not_mem_of_update reads.orphan line updated⟩

/-- A task changes no type. -/
theorem loadTask_eq {identifier : Str} {e : Json} (loaded : loadTask s identifier e = .ok s') :
    ∃ tasks, s' = { s with tasks := tasks } := by
  unfold loadTask at loaded
  split at loaded
  · cases loaded
  · obtain ⟨_, _, loaded⟩ := bind_eq_ok.mp loaded
    obtain ⟨typePtr, _, loaded⟩ := bind_eq_ok.mp loaded
    split at loaded
    · cases loaded
    · obtain ⟨_, _, loaded⟩ := bind_eq_ok.mp loaded
      cases typePtr with
      | none => cases loaded
      | some type =>
          cases loaded
          exact ⟨_, rfl⟩

/-- The register is in order, and every chain of parents in it ends. -/
structure Grounded (s : Register V) : Prop where
  orderly : Orderly s
  ends : ∀ a, ∃ chain, Lineage s.parents a chain

theorem Grounded.finite (grounded : Grounded s) : FiniteHierarchy s := fun _ a _ => grounded.ends a

/-- One entry keeps the chains finite exactly if it fits. -/
theorem Grounded.step (careful : Careful createValue) (grounded : Grounded s) {entry : Entry}
    (read : readEntry createValue entry s = some s') :
    (Fits s entry → Grounded s') ∧ (FiniteHierarchy s' → Fits s entry) := by
  cases entry with
  | definition name e =>
      obtain ⟨address, reads⟩ := loadType_reads careful grounded.orderly (toOption_eq_some.mp read)
      exact ⟨fun fits => ⟨reads.orderly, reads.ends grounded.orderly grounded.ends fits⟩,
        reads.fits grounded.orderly grounded.ends⟩
  | task identifier e =>
      obtain ⟨tasks, rfl⟩ := loadTask_eq (toOption_eq_some.mp read)
      obtain ⟨⟨sized, named, free, waiting, closed⟩, ends⟩ := grounded
      exact ⟨fun _ => ⟨⟨sized, named, free, waiting, closed⟩, ends⟩, fun _ => trivial⟩

theorem grounded_of_run (careful : Careful createValue) (run : (loading createValue).RunUnder Fits s) :
    Grounded s := by
  apply run.invariant
  · rintro s rfl
    exact ⟨orderly_fresh, fresh_ends⟩
  · intro s entry s' _ fits read grounded
    exact (grounded.step careful read).1 fits

end

/-- In a run whose definitions all fit, every registered type has a finite chain of parents in every state, so that the
    loops over its ancestors end; the next entry keeps it so exactly if it fits. The documents that `load` accepts
    are such runs when their entries fit. -/
theorem hierarchies_finite (conversions : Conversions) :
    (∀ s, (loading (createValue conversions)).RunUnder Fits s →
      FiniteHierarchy s ∧
        (∀ name other a b, lookup name s.types = some a → lookup other s.types = some b →
          s.LoopsEnd (.object a) ∧ ∃ n, (∀ key, (s.argument n (.object a) key).isSome) ∧
            (s.accepts n (.object a) (.object b)).isSome ∧ (s.lca n (.object a) (.object b)).isSome) ∧
        ∀ entry s', (loading (createValue conversions)).next s entry s' → (FiniteHierarchy s' ↔ Fits s entry)) ∧
      ∀ s j s', (loading (createValue conversions)).RunUnder Fits s → load (createValue conversions) s j = .ok s' →
        EntriesFit (createValue conversions) (entries j) s → (loading (createValue conversions)).RunUnder Fits s' := by
  constructor
  · intro s run
    have grounded := grounded_of_run (careful_createValue conversions) run
    refine ⟨grounded.finite, ?_, ?_⟩
    · intro name other a b found found'
      obtain ⟨chain, line⟩ := grounded.ends a
      obtain ⟨chain', line'⟩ := grounded.ends b
      exact ⟨(Register.loopsEnd_iff a).mpr ⟨chain, line⟩,
        Register.calls_end (Register.lineage_object line) (Register.lineage_object line')⟩
    · intro entry s' next
      obtain ⟨keeps, fits⟩ := grounded.step (careful_createValue conversions) next
      exact ⟨fits, fun met => (keeps met).finite⟩
  · intro s j s' run loaded fit
    exact runUnder_entries run fit (load_entries loaded)

/-! ### Samples -/

/-- Values are not read in the samples. -/
def noConversions : Conversions where
  integral _ := none
  toInteger _ := none
  ofInteger _ := 0
  toText _ := []

/-- `a` is below `b`, which is defined later and is below `integer`. -/
def chainDefinitions : List (Str × Json) :=
  [(str "a", .object [(str "parent", .string (str "b"))]), (str "b", .object [(str "parent", .string (str "integer"))])]

theorem hierarchies_finite_chain :
    ∃ s, load (createValue noConversions) Register.fresh (file chainDefinitions) = .ok s ∧ FiniteHierarchy s := by
  refine ⟨_, rfl, ?_⟩
  have results := hierarchies_finite noConversions
  refine (results.1 _ (results.2 Register.fresh (file chainDefinitions) _ (.start rfl) rfl ?_)).1
  refine ⟨?_, fun s read => ⟨?_, fun _ _ => trivial⟩⟩
  · rintro p ⟨⟩
    refine ⟨by decide, fun a q chain found => ?_⟩
    cases found
  · cases read
    rintro p ⟨⟩
    refine ⟨by decide, fun a q chain found parent line => ?_⟩
    cases found
    cases parent
    cases line.unique (.child (p := 0) rfl (.root rfl))
    decide

/-- A type that is its own parent: `load` accepts the definition. -/
theorem endless_hierarchy :
    ∃ s, load (createValue noConversions) Register.fresh
        (file [(str "a", .object [(str "parent", .string (str "a"))])]) = .ok s ∧
      ¬ FiniteHierarchy s ∧ ∀ n, s.argument n (.object 6) (str "x") = none := by
  refine ⟨_, rfl, fun finite => ?_, fun n => ?_⟩
  · obtain ⟨chain, line⟩ := finite (str "a") 6 rfl
    refine Lineage.not_of_self ?_ line
    rfl
  · rw [Register.argument, Option.map_eq_none_iff]
    induction n with
    | zero => rfl
    | succ n ih => exact ih

end Experimaestro.Definitions

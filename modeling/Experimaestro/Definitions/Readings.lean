/-
Module: Experimaestro.Definitions.Readings
Layer: Definitions
Purpose: What a register has after some definitions have been read. The history of a register is the list of
  its readings: a definition is opened with its parent, an argument is given its type. `Recorded` says what
  the objects, the table and the arguments are after a history; each step of the loader keeps it.
Imports: Experimaestro.Definitions.Shapes, Experimaestro.Configuration.Places (entries of tables)
Trusted boundary: none (fully proved)
Main exports: Reading, knownNames, parentIn, Given, Recorded, Recorded.declare, Recorded.argument,
  recorded_fresh
Open obligations: none
-/
import Experimaestro.Configuration.Places
import Experimaestro.Definitions.Shapes

namespace Experimaestro.Definitions

open Experimaestro.Configuration (Str str lookup insert lookup_insert componentName elementName mem_of_lookup)

variable {V : Type}

/-! ### Histories -/

/-- What is read: a definition is opened with its parent, an argument of a definition is given a type. -/
inductive Reading where
  | declare (name : Str) (parent : Option Str)
  | argument (owner key text : Str)

/-- The names that are in the table after a reading. -/
def Reading.names : Reading → List Str
  | .declare name parent => name :: parent.toList
  | .argument _ _ text => [text]

/-- The names that are in the table after a history. -/
def knownNames (h : List Reading) : List Str := predefinedNames ++ h.flatMap Reading.names

/-- The parent that the definition of a name gives it. -/
def declared (h : List Reading) (name : Str) : Option (Option Str) :=
  h.findSome? fun
    | .declare n parent => if n = name then some parent else none
    | .argument _ _ _ => none

/-- The parent of a name after a history. -/
def parentIn (h : List Reading) (name : Str) : Option Str :=
  match declared h name with
  | some parent => parent
  | none => if name ∈ predefinedNames ∧ name ≠ str "any" then some (str "any") else none

theorem knownNames_append (h : List Reading) (r : Reading) : knownNames (h ++ [r]) = knownNames h ++ r.names := by
  simp [knownNames]

theorem declared_append (h later : List Reading) (name : Str) :
    declared (h ++ later) name = (declared h name).or (declared later name) := by
  rw [declared, List.findSome?_append]
  rfl

section

variable {h : List Reading} {name : Str}

theorem mem_of_declared {parent : Option Str} (found : declared h name = some parent) : .declare name parent ∈ h := by
  obtain ⟨reading, member, same⟩ := List.exists_of_findSome?_eq_some found
  cases reading with
  | argument _ _ _ => cases same
  | declare n p =>
      dsimp only at same
      split at same
      · rename_i here
        cases same
        exact here ▸ member
      · cases same

theorem mem_known_of_declared {parent : Option Str} (found : declared h name = some parent) : name ∈ knownNames h :=
  List.mem_append_right _ (List.mem_flatMap.mpr ⟨_, mem_of_declared found, List.mem_cons_self⟩)

theorem declared_of_mem {parent : Option Str} (member : .declare name parent ∈ h) : declared h name ≠ none := by
  intro none
  have silent := List.findSome?_eq_none_iff.mp none _ member
  dsimp only at silent
  rw [if_pos rfl] at silent
  cases silent

theorem parentIn_eq_none (unread : declared h name = none) (free : name ∉ predefinedNames) :
    parentIn h name = none := by
  rw [parentIn, unread]
  exact if_neg fun both => free both.1

theorem parentIn_declare {parent : Option Str} (unread : declared h name = none) (n : Str) :
    parentIn (h ++ [.declare name parent]) n = if n = name then parent else parentIn h n := by
  rw [parentIn, declared_append]
  by_cases here : n = name
  · subst here
    rw [if_pos rfl, unread, Option.none_or, declared, List.findSome?_singleton]
    dsimp only
    rw [if_pos rfl]
  · have other : declared [.declare name parent] n = none := by
      rw [declared, List.findSome?_singleton]
      exact if_neg (Ne.symm here)
    rw [other, Option.or_none, if_neg here, parentIn]

theorem declared_argument (owner key text n : Str) : declared (h ++ [.argument owner key text]) n = declared h n := by
  rw [declared_append]
  exact Option.or_none

theorem declared_declare_eq_none {parent : Option Str} {n : Str}
    (unread : declared (h ++ [.declare name parent]) n = none) : declared h n = none ∧ n ≠ name := by
  rw [declared_append, Option.or_eq_none_iff] at unread
  refine ⟨unread.1, ?_⟩
  rintro rfl
  have found := unread.2
  rw [declared, List.findSome?_singleton] at found
  dsimp only at found
  rw [if_pos rfl] at found
  cases found

end

/-! ### What a history leaves -/

/-- The type that an argument has been given after a history, for the name in its definition. -/
inductive Given (s : Register V) (before : List Reading) (text : Str) : TypePtr → Prop
  | bare {a : ℕ} (plain : componentName text = none) (found : lookup text s.types = some a) :
      Given s before text (.object a)
  | unknown {a : ℕ} (bracketed : componentName text ≠ none) (missing : elementName text ∉ knownNames before)
      (inside : a < s.size) (named : (s.objects a).name = text) : Given s before text (.object a)
  | array {type : TypePtr} {ancestors : List Str} {chain : List TypePtr} (bracketed : componentName text ≠ none)
      (known : elementName text ∈ knownNames before) (found : lookup (elementName text) s.types = some type.core)
      (nesting : type.nesting = brackets text) (ancestry : Lineage (parentIn before) (elementName text) ancestors)
      (line : Lineage s.parentOf type chain) (names : chain.map s.nameOf = ancestors.map (arrayName (brackets text)))
      (arrays : ∀ q ∈ chain, q.core < s.size ∧ 0 < q.nesting) : Given s before text type

theorem nameOf_of_grows {s s' : Register V} (grows : Grows s s') {type : TypePtr} (inside : type.core < s.size) :
    s'.nameOf type = s.nameOf type := by
  rw [nameOf_eq, nameOf_eq, grows.name_eq _ inside]

theorem parentOf_array (s s' : Register V) {type : TypePtr} (array : 0 < type.nesting) :
    s'.parentOf type = s.parentOf type := by
  cases type with
  | object _ => cases array
  | array _ => rfl
  | arrayBelow _ _ => rfl

/-- What an argument has been given stays: an array type keeps the ancestors that it was made with. -/
theorem Given.grows {s s' : Register V} {before : List Reading} {text : Str} {type : TypePtr}
    (given : Given s before text type) (grows : Grows s s') : Given s' before text type := by
  cases given with
  | bare plain found => exact .bare plain (grows.lookup_eq _ _ plain found)
  | unknown bracketed missing inside named =>
      exact .unknown bracketed missing (Nat.lt_of_lt_of_le inside grows.size_le) ((grows.name_eq _ inside).trans named)
  | array bracketed known found nesting ancestry line names arrays =>
      apply Given.array bracketed known (grows.lookup_eq _ _ (elementName_bare text) found) nesting ancestry
      · exact line.congr fun q member => parentOf_array s s' (arrays q member).2
      · rw [← names]
        exact List.map_congr_left fun q member => nameOf_of_grows grows (arrays q member).1
      · exact fun q member => ⟨Nat.lt_of_lt_of_le (arrays q member).1 grows.size_le, (arrays q member).2⟩

/-- What a register is after a history. -/
structure Recorded (s : Register V) (h : List Reading) : Prop where
  shape : Shape s (· ∈ knownNames h) (parentIn h) fun n => n ∉ predefinedNames ∧ declared h n = none
  declares_bare : ∀ n parent, declared h n = some parent → componentName n = none
  given : ∀ before owner key text after, h = before ++ .argument owner key text :: after →
    ∃ a arg, lookup owner s.types = some a ∧ lookup key (s.objects a).arguments = some arg ∧
      Given s before text arg.type
  only : ∀ a, a < s.size → ∀ key, (lookup key (s.objects a).arguments).isSome →
    ∃ text, .argument (s.objects a).name key text ∈ h
  owners : ∀ owner key text, .argument owner key text ∈ h → componentName owner = none

/-- The arguments of the objects are what they were, and new objects have none. -/
def KeepsArguments (s s' : Register V) : Prop :=
  ∀ a, a < s'.size → (s'.objects a).arguments = if a < s.size then (s.objects a).arguments else []

theorem KeepsArguments.trans {s s' s'' : Register V} (one : KeepsArguments s s') (two : KeepsArguments s' s'')
    (grows : s.size ≤ s'.size) : KeepsArguments s s'' := by
  intro a inside
  rw [two a inside]
  by_cases before : a < s'.size
  · rw [if_pos before, one a before]
  · rw [if_neg before, if_neg fun lower => before (Nat.lt_of_lt_of_le lower grows)]

theorem keepsArguments_addType (s : Register V) (name : Str) (placeholder : Bool) :
    KeepsArguments s (s.addType name placeholder) := by
  intro a inside
  rcases Nat.lt_or_eq_of_le (Nat.le_of_lt_succ inside) with before | rfl
  · rw [s.addType_of_ne (Nat.ne_of_lt before), if_pos before]
  · rw [s.addType_self, if_neg (Nat.lt_irrefl _)]

theorem keepsArguments_modify (s : Register V) (address : ℕ) {f : TypeObject V → TypeObject V}
    (keeps : (f (s.objects address)).arguments = (s.objects address).arguments) :
    KeepsArguments s (s.modify address f) := by
  intro a inside
  rw [if_pos (show a < s.size from inside)]
  by_cases here : a = address
  · rw [here, s.modify_self, keeps]
  · rw [s.modify_of_ne f here]

/-- Where a reading can be in a history that has got one more. -/
theorem split_concat {α : Type} {h before after : List α} {r reading : α}
    (split : h ++ [r] = before ++ reading :: after) :
    (h = before ∧ r = reading ∧ after = []) ∨ ∃ rest, after = rest ++ [r] ∧ h = before ++ reading :: rest := by
  rcases List.eq_nil_or_concat after with rfl | ⟨rest, last, rfl⟩
  · obtain ⟨same, last⟩ := List.append_inj' split rfl
    exact Or.inl ⟨same, (List.cons.inj last).1, rfl⟩
  · rw [List.concat_eq_append, ← List.cons_append, ← List.append_assoc] at split
    obtain ⟨same, last⟩ := List.append_inj' split rfl
    cases last
    exact Or.inr ⟨rest, List.concat_eq_append, same⟩

/-- A step that leaves the arguments alone. -/
theorem Recorded.keeps {s s' : Register V} {h : List Reading} {r : Reading} (recorded : Recorded s h)
    (grows : Grows s s') (keeps : KeepsArguments s s')
    (shape : Shape s' (· ∈ knownNames (h ++ [r])) (parentIn (h ++ [r])) fun n =>
      n ∉ predefinedNames ∧ declared (h ++ [r]) n = none)
    (bare : ∀ n parent, declared (h ++ [r]) n = some parent → componentName n = none)
    (declares : ∀ owner key text, r ≠ .argument owner key text) : Recorded s' (h ++ [r]) where
  shape := shape
  declares_bare := bare
  given before owner key text after split := by
    rcases split_concat split with ⟨_, now, _⟩ | ⟨rest, _, earlier⟩
    · exact absurd now (declares owner key text)
    · obtain ⟨a, arg, found, stored, given⟩ := recorded.given before owner key text rest earlier
      have plain := recorded.owners owner key text (earlier ▸ List.mem_append_right _ List.mem_cons_self)
      have inside := (recorded.shape.sized owner a found).1
      refine ⟨a, arg, grows.lookup_eq owner a plain found, ?_, given.grows grows⟩
      rw [keeps a (Nat.lt_of_lt_of_le inside grows.size_le), if_pos inside, stored]
  only a inside key present := by
    rw [keeps a inside] at present
    split at present
    · rename_i before
      obtain ⟨text, member⟩ := recorded.only a before key present
      exact ⟨text, List.mem_append_left _ ((grows.name_eq a before).symm ▸ member)⟩
    · cases present
  owners owner key text member := by
    rcases List.mem_append.mp member with earlier | now
    · exact recorded.owners owner key text earlier
    · exact absurd (List.mem_singleton.mp now).symm (declares owner key text)

/-! ### The steps of the loader -/

/-- An object is opened: a placeholder, or a new object. -/
theorem Shape.openType {s : Register V} {known : Str → Prop} {parent : Str → Option Str} {awaiting : Str → Prop}
    (shape : Shape s known parent awaiting) {name : Str} (waits : awaiting name)
    (orphan : componentName name = none → ¬ known name → parent name = none) :
    ∃ address s', Definitions.openType s name = .ok (address, s') ∧ lookup name s'.types = some address ∧
      Grows s s' ∧ Shape s' (fun n => known n ∨ n = name) parent (fun n => awaiting n ∧ n ≠ name) ∧
      ((address < s.size ∧ s' = s.modify address fun type => { type with placeholder := false }) ∨
        address = s.size ∧ s' = s.addType name false) := by
  unfold Definitions.openType
  cases found : lookup name s.types with
  | some address =>
      have placeholder := shape.completed name address found waits
      obtain ⟨inside, named⟩ := shape.sized name address found
      have there (bare : componentName name = none) : known name := (shape.known_iff name bare).mp (found ▸ rfl)
      obtain ⟨shape', grows⟩ := shape.modify address (f := fun type => { type with placeholder := false })
        (fun n => awaiting n ∧ n ≠ name) rfl rfl (fun _ => And.left) (fun waiting => absurd named waiting.2)
      refine ⟨address, _, if_pos placeholder, found, grows, ?_, Or.inl ⟨inside, rfl⟩⟩
      refine shape'.congr (fun n bare => ⟨Or.inl, fun either => either.elim id ?_⟩) (fun _ => rfl) fun _ => id
      rintro rfl
      exact there bare
  | none =>
      have missing (bare : componentName name = none) : ¬ known name := fun there => by
        have present := (shape.known_iff name bare).mpr there
        rw [found] at present
        cases present
      have weaker : Shape s known parent fun n => awaiting n ∧ n ≠ name :=
        shape.congr (fun _ _ => Iff.rfl) (fun _ => rfl) fun _ => And.left
      obtain ⟨shape', grows⟩ :=
        weaker.addType false missing (fun bare => orphan bare (missing bare)) fun waiting => absurd rfl waiting.2
      refine ⟨s.size, _, rfl, ?_, grows, shape', Or.inr ⟨rfl, rfl⟩⟩
      rw [s.lookup_addType, if_pos rfl]

/-- The object for a definition: that of a placeholder, or a new one. -/
theorem Recorded.openType {s : Register V} {h : List Reading} {name : Str} (recorded : Recorded s h)
    (free : name ∉ predefinedNames) (unread : declared h name = none) :
    ∃ address s', openType s name = .ok (address, s') ∧ lookup name s'.types = some address ∧ Grows s s' ∧
      KeepsArguments s s' ∧
      Shape s' (fun n => n ∈ knownNames h ∨ n = name) (parentIn h) fun n =>
        (n ∉ predefinedNames ∧ declared h n = none) ∧ n ≠ name := by
  obtain ⟨address, s', opened, found, grows, shape, either⟩ :=
    recorded.shape.openType ⟨free, unread⟩ fun _ _ => parentIn_eq_none unread free
  refine ⟨address, s', opened, found, grows, ?_, shape⟩
  rcases either with ⟨_, rfl⟩ | ⟨_, rfl⟩
  · exact keepsArguments_modify s _ rfl
  · exact keepsArguments_addType s name false

/-- The parent of a definition, with a placeholder where its name is not in the table. -/
theorem Shape.setParentName {s : Register V} {known : Str → Prop} {parent : Str → Option Str}
    {awaiting : Str → Prop} (shape : Shape s known parent awaiting) {name p : Str} {address : ℕ}
    (sized : address < s.size) (named : (s.objects address).name = name) (top : parent name = none)
    (orphan : componentName p = none → lookup p s.types = none → parent p = none) :
    Shape (Definitions.setParent s address p) (fun n => known n ∨ n = p)
        (fun n => if n = name then some p else parent n) awaiting ∧
      Grows s (Definitions.setParent s address p) ∧ KeepsArguments s (Definitions.setParent s address p) := by
  unfold Definitions.setParent
  cases there : lookup p s.types with
  | some q =>
      obtain ⟨inside, named_parent⟩ := shape.sized p q there
      obtain ⟨shape', grows⟩ := shape.setParent sized named top inside
      refine ⟨shape'.congr (fun n plain => ?_) (fun n => ?_) (fun _ => id), grows, keepsArguments_modify s _ rfl⟩
      · refine ⟨Or.inl, fun either => either.elim id ?_⟩
        rintro rfl
        exact (shape.known_iff n plain).mp (there ▸ rfl)
      · rw [named_parent]
  | none =>
      have missing (plain : componentName p = none) : ¬ known p := fun present => by
        have entry := (shape.known_iff p plain).mpr present
        rw [there] at entry
        cases entry
      obtain ⟨added, grows⟩ := shape.addType true missing (fun plain => orphan plain there) fun _ => rfl
      have named' := (grows.name_eq address sized).trans named
      obtain ⟨shape', grows'⟩ :=
        added.setParent (Nat.lt_of_lt_of_le sized grows.size_le) named' top (Nat.lt_succ_self s.size)
      refine ⟨shape'.congr (fun _ _ => Iff.rfl) (fun n => ?_) (fun _ => id), grows.trans grows', ?_⟩
      · rw [s.addType_self]
      · exact (keepsArguments_addType s p true).trans (keepsArguments_modify _ _ rfl) grows.size_le

/-- A name that is not in the table has no parent. -/
theorem Recorded.orphan {s : Register V} {h : List Reading} (recorded : Recorded s h) {p : Str}
    (missing : componentName p = none → p ∉ knownNames h) : parentIn h p = none := by
  apply parentIn_eq_none
  · cases found : declared h p with
    | none => rfl
    | some parent => exact absurd (mem_known_of_declared found) (missing (recorded.declares_bare p parent found))
  · intro predefined
    have plain : ∀ n ∈ predefinedNames, componentName n = none := by decide
    exact missing (plain p predefined) (List.mem_append_left _ predefined)

/-- Names with `[]` have no parents. -/
theorem Recorded.whole {s : Register V} {h : List Reading} (recorded : Recorded s h) (n : Str)
    (bracketed : componentName n ≠ none) : parentIn h n = none :=
  recorded.orphan fun bare => absurd bare bracketed

/-- A definition is opened, described and given its parent. -/
theorem Recorded.declare {s : Register V} {h : List Reading} {name : Str} (recorded : Recorded s h)
    (bare : componentName name = none) (free : name ∉ predefinedNames) (unread : declared h name = none)
    (parent : Option Str) {f : TypeObject V → TypeObject V}
    (keeps : ∀ o, (f o).name = o.name ∧ (f o).parent = o.parent ∧ (f o).placeholder = o.placeholder ∧
      (f o).arguments = o.arguments) :
    ∃ address s', Definitions.openType s name = .ok (address, s') ∧
      lookup name (parent.elim (s'.modify address f) (Definitions.setParent (s'.modify address f) address)).types =
        some address ∧
      Recorded (parent.elim (s'.modify address f) (Definitions.setParent (s'.modify address f) address))
        (h ++ [.declare name parent]) := by
  obtain ⟨address, s', opened, found, grows, kept, shape⟩ := recorded.openType free unread
  obtain ⟨described, grows_described⟩ := shape.modify address (f := f) _ (keeps _).1 (keeps _).2.1
    (fun _ => id) fun _ placeholder => (keeps _).2.2.1.trans placeholder
  have kept_described := kept.trans (keepsArguments_modify s' address (keeps _).2.2.2) grows.size_le
  have found_described := grows_described.lookup_eq name address bare found
  have declares (n : Str) (p : Option Str) (some : declared (h ++ [.declare name parent]) n = some p) :
      componentName n = none := by
    by_cases same : n = name
    · rw [same, bare]
    · rw [declared_append] at some
      cases before : declared h n with
      | some q => exact recorded.declares_bare n q before
      | none =>
          rw [before, Option.none_or, declared, List.findSome?_singleton] at some
          dsimp only at some
          rw [if_neg (Ne.symm same)] at some
          cases some
  have awaiting (n : Str) (waiting : n ∉ predefinedNames ∧ declared (h ++ [.declare name parent]) n = none) :
      (n ∉ predefinedNames ∧ declared h n = none) ∧ n ≠ name := by
    have both := declared_declare_eq_none waiting.2
    exact ⟨⟨waiting.1, both.1⟩, both.2⟩
  refine ⟨address, s', opened, ?_⟩
  cases parent with
  | none =>
      refine ⟨found_described, recorded.keeps (grows.trans grows_described) kept_described ?_ declares nofun⟩
      apply described.congr _ _ awaiting
      · intro n _
        rw [knownNames_append, List.mem_append]
        exact or_congr_right List.mem_singleton.symm
      · intro n
        rw [parentIn_declare unread]
        by_cases same : n = name
        · rw [if_pos same, same, parentIn_eq_none unread free]
        · rw [if_neg same]
  | some p =>
      have orphan (plain : componentName p = none) (missing : lookup p (s'.modify address f).types = none) :
          parentIn h p = none := by
        apply recorded.orphan
        intro _ known
        have present := (described.known_iff p plain).mpr (Or.inl known)
        rw [missing] at present
        cases present
      obtain ⟨inside, named⟩ := described.sized name address found_described
      obtain ⟨shape', grows', kept'⟩ :=
        described.setParentName inside named (parentIn_eq_none unread free) orphan
      have all_grow := (grows.trans grows_described).trans grows'
      refine ⟨grows'.lookup_eq name address bare found_described,
        recorded.keeps all_grow (kept_described.trans kept' (grows.trans grows_described).size_le) ?_ declares nofun⟩
      apply shape'.congr _ _ awaiting
      · intro n _
        rw [knownNames_append, List.mem_append, or_assoc]
        apply or_congr_right
        simp [Reading.names]
      · intro n
        rw [parentIn_declare unread]

theorem object_of_nesting {type : TypePtr} (flat : type.nesting = 0) : type = .object type.core := by
  cases type with
  | object _ => rfl
  | array _ => cases flat
  | arrayBelow _ _ => cases flat

/-- The type that an argument is given. -/
theorem Recorded.resolveType {s : Register V} {h : List Reading} (recorded : Recorded s h) (text owner key : Str)
    (ends : ∃ ancestors, Lineage (parentIn h) (elementName text) ancestors) :
    ∃ type s', Definitions.resolveType s text = .ok (type, s') ∧ Grows s s' ∧ KeepsArguments s s' ∧
      Given s' h text type ∧
      Shape s' (· ∈ knownNames (h ++ [.argument owner key text])) (parentIn (h ++ [.argument owner key text]))
        fun n => n ∉ predefinedNames ∧ declared (h ++ [.argument owner key text]) n = none := by
  have parents (n : Str) : parentIn h n = parentIn (h ++ [.argument owner key text]) n := by
    rw [parentIn, parentIn, declared_argument]
  have awaiting (n : Str)
      (waiting : n ∉ predefinedNames ∧ declared (h ++ [.argument owner key text]) n = none) :
      n ∉ predefinedNames ∧ declared h n = none := by rwa [declared_argument] at waiting
  have names (n : Str) : n ∈ knownNames (h ++ [.argument owner key text]) ↔ n ∈ knownNames h ∨ n = text := by
    rw [knownNames_append, List.mem_append]
    exact or_congr_right List.mem_singleton
  unfold Definitions.resolveType Register.getType
  by_cases known : elementName text ∈ knownNames h
  · obtain ⟨address, found⟩ :=
      Option.isSome_iff_exists.mp ((recorded.shape.known_iff _ (elementName_bare text)).mpr known)
    obtain ⟨ancestors, line⟩ := ends
    obtain ⟨type, chain, got, core, nesting, lineage, chain_names, each, _⟩ :=
      recorded.shape.getTypeIn_known text.length text (Nat.le_refl _) found line
    refine ⟨type, s, ?_, .refl s, fun a inside => (if_pos inside).symm, ?_, ?_⟩
    · rw [got]
      rfl
    · by_cases plain : componentName text = none
      · rw [object_of_nesting (nesting.trans (brackets_eq_zero plain)), core]
        rw [elementName_of_bare plain] at found
        exact .bare plain found
      · exact .array plain known (found.trans (congrArg some core.symm)) nesting line lineage
          (chain_names recorded.whole) fun q member => ⟨(each q member).1, (each q member).2 plain⟩
    · apply recorded.shape.congr _ parents awaiting
      intro n plain
      rw [names]
      refine ⟨Or.inl, fun either => either.elim id ?_⟩
      rintro rfl
      rwa [elementName_of_bare plain] at known
  · rw [recorded.shape.getTypeIn_unknown text.length text (Nat.le_refl _) known]
    have missing (plain : componentName text = none) : text ∉ knownNames h := by
      rwa [elementName_of_bare plain] at known
    obtain ⟨shape, grows⟩ := recorded.shape.addType true missing (fun _ => recorded.orphan missing) fun _ => rfl
    refine ⟨.object s.size, s.addType text true, rfl, grows, keepsArguments_addType s text true, ?_, ?_⟩
    · by_cases plain : componentName text = none
      · exact .bare plain (by rw [s.lookup_addType, if_pos rfl])
      · exact .unknown plain known (Nat.lt_succ_self _) (by rw [s.addType_self])
    · exact shape.congr (fun n _ => (names n).symm) parents awaiting

/-- An argument of a definition is read. -/
theorem Recorded.argument {s : Register V} {h : List Reading} (recorded : Recorded s h) {owner key text : Str}
    {address : ℕ} (bare : componentName owner = none) (found : lookup owner s.types = some address)
    (new : ∀ earlier, .argument owner key earlier ∉ h)
    (ends : ∃ ancestors, Lineage (parentIn h) (elementName text) ancestors) (arg : Argument V) :
    ∃ type s', Definitions.resolveType s text = .ok (type, s') ∧
      Recorded (s'.modify address fun object =>
        { object with arguments := insert key { arg with type := type } object.arguments })
        (h ++ [.argument owner key text]) ∧
      lookup owner s'.types = some address := by
  obtain ⟨type, s', resolved, grows, keeps, given, shape⟩ := recorded.resolveType text owner key ends
  have found' := grows.lookup_eq owner address bare found
  have named := (shape.sized owner address found').2
  obtain ⟨stored, grows'⟩ := shape.modify address
    (f := fun object => { object with arguments := insert key { arg with type := type } object.arguments })
    _ rfl rfl (fun _ => id) fun _ => id
  refine ⟨type, s', resolved, ?_, found'⟩
  refine ⟨stored, fun n parent some => recorded.declares_bare n parent (by rwa [declared_argument] at some), ?_, ?_, ?_⟩
  · intro before owner' key' text' after split
    rcases split_concat split with ⟨rfl, now, _⟩ | ⟨rest, _, earlier⟩
    · cases now
      refine ⟨address, { arg with type := type }, found', ?_, given.grows grows'⟩
      rw [s'.modify_self, lookup_insert, if_pos rfl]
    · have member : Reading.argument owner' key' text' ∈ h := earlier ▸ List.mem_append_right _ List.mem_cons_self
      obtain ⟨a, arg', there, present, given'⟩ := recorded.given before owner' key' text' rest earlier
      have plain := recorded.owners owner' key' text' member
      obtain ⟨inside, named'⟩ := recorded.shape.sized owner' a there
      refine ⟨a, arg', grows.lookup_eq owner' a plain there, ?_, (given'.grows grows).grows grows'⟩
      have same_arguments := keeps a (Nat.lt_of_lt_of_le inside grows.size_le)
      rw [if_pos inside] at same_arguments
      by_cases here : a = address
      · subst here
        have same_owner : owner' = owner := by rw [← named', ← named, grows.name_eq a inside]
        have other : key ≠ key' := fun same => new text' (same_owner ▸ same ▸ member)
        rw [s'.modify_self, lookup_insert, if_neg other, same_arguments, present]
      · rw [s'.modify_of_ne _ here, same_arguments, present]
  · intro a inside key' present
    have name_eq (a : ℕ) : ((s'.modify address fun object =>
        { object with arguments := insert key { arg with type := type } object.arguments }).objects a).name =
        (s'.objects a).name := by
      by_cases here : a = address
      · rw [here, s'.modify_self]
      · rw [s'.modify_of_ne _ here]
    have old (present : (lookup key' (s'.objects a).arguments).isSome) :
        ∃ text', Reading.argument (s'.objects a).name key' text' ∈ h ++ [.argument owner key text] := by
      rw [keeps a inside] at present
      split at present
      · rename_i before
        obtain ⟨text', member⟩ := recorded.only a before key' present
        exact ⟨text', List.mem_append_left _ ((grows.name_eq a before).symm ▸ member)⟩
      · cases present
    rw [name_eq]
    by_cases here : a = address
    · subst here
      rw [s'.modify_self, lookup_insert] at present
      split at present
      · rename_i same
        subst same
        exact ⟨text, List.mem_append_right _ (named.symm ▸ List.mem_singleton.mpr rfl)⟩
      · exact old present
    · rw [s'.modify_of_ne _ here] at present
      exact old present
  · intro owner' key' text' member
    rcases List.mem_append.mp member with earlier | now
    · exact recorded.owners owner' key' text' earlier
    · cases List.mem_singleton.mp now
      exact bare

/-! ### A new register -/

/-- The entries of the table of a new register. -/
theorem fresh_entry {n : Str} {a : ℕ} (found : lookup n (Register.fresh : Register V).types = some a) :
    a < (Register.fresh : Register V).size ∧ ((Register.fresh : Register V).objects a).name = n ∧
      n ∈ predefinedNames := by
  have member := mem_of_lookup found
  simp only [Register.fresh, predefinedNames, List.zipIdx_cons, List.zipIdx_nil, List.mem_cons, List.not_mem_nil,
    or_false, Prod.mk.injEq] at member
  rcases member with ⟨rfl, rfl⟩ | ⟨rfl, rfl⟩ | ⟨rfl, rfl⟩ | ⟨rfl, rfl⟩ | ⟨rfl, rfl⟩ | ⟨rfl, rfl⟩
  all_goals exact ⟨Nat.lt_of_sub_pos (Nat.succ_pos _), rfl, by decide⟩

theorem fresh_object {a : ℕ} (inside : a < (Register.fresh : Register V).size) :
    lookup ((Register.fresh : Register V).objects a).name (Register.fresh : Register V).types = some a ∧
      ((Register.fresh : Register V).objects a).parent.map
          (fun p => ((Register.fresh : Register V).objects p).name) =
        parentIn [] ((Register.fresh : Register V).objects a).name ∧
      (∀ p, ((Register.fresh : Register V).objects a).parent = some p → p = 0) ∧
      ((Register.fresh : Register V).objects a).arguments = [] := by
  have six : a < 6 := inside
  rcases a with _ | _ | _ | _ | _ | _ | a
  · exact ⟨rfl, rfl, nofun, rfl⟩
  · exact ⟨rfl, rfl, fun p up => (Option.some.inj up).symm, rfl⟩
  · exact ⟨rfl, rfl, fun p up => (Option.some.inj up).symm, rfl⟩
  · exact ⟨rfl, rfl, fun p up => (Option.some.inj up).symm, rfl⟩
  · exact ⟨rfl, rfl, fun p up => (Option.some.inj up).symm, rfl⟩
  · exact ⟨rfl, rfl, fun p up => (Option.some.inj up).symm, rfl⟩
  · omega

/-- A new register. -/
theorem recorded_fresh : Recorded (Register.fresh : Register V) [] where
  shape :=
    { sized := fun n a found => ⟨(fresh_entry found).1, (fresh_entry found).2.1⟩
      unique := fun a inside _ => (fresh_object inside).1
      known_iff := by
        intro n _
        constructor
        · intro present
          obtain ⟨a, found⟩ := Option.isSome_iff_exists.mp present
          exact List.mem_append_left _ (fresh_entry found).2.2
        · intro known
          have named : n ∈ predefinedNames := by simpa [knownNames] using known
          have all : ∀ n ∈ predefinedNames, (lookup n predefinedNames.zipIdx).isSome := by decide
          exact all n named
      parents := fun a inside => Or.inl (fresh_object inside).2.1
      closed := fun a p inside up => (fresh_object inside).2.2.1 p up ▸ Nat.succ_pos _
      completed := fun n a found waiting => absurd (fresh_entry found).2.2 waiting.1 }
  declares_bare := nofun
  given before owner key text after split := by simp at split
  only a inside key present := by
    rw [(fresh_object inside).2.2.2] at present
    cases present
  owners := nofun

end Experimaestro.Definitions

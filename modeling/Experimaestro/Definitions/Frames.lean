/-
Module: Experimaestro.Definitions.Frames
Layer: Definitions
Purpose: What the steps of the loader leave alone while they read the definition of one object. `Frame` says that
  the other objects are as they were, that new objects are placeholders, and which names with `[]` may lose their
  entry in the table to such a placeholder. `Tidy` says that the register has a shape in which unknown names have
  no parent and the ancestors of every name end; each step keeps it.
Imports: Experimaestro.Definitions.Readings (steps of a shape), Experimaestro.Definitions.StoredValues
Trusted boundary: none (fully proved)
Main exports: Frame, Emptied, Tidy, Tidy.modify, Tidy.addPlaceholders, Tidy.resolveType, Tidy.setParent, Tidy.store
Open obligations: none
-/
import Experimaestro.Definitions.Readings
import Experimaestro.Definitions.StoredValues

namespace Experimaestro.Definitions

open Experimaestro.Configuration (Str str lookup componentName elementName)

/-! ### Frames -/

/-- A step that reads the definition of the object at an address, or makes this object. Only the names with `[]`
    that are `lost` may get another object. -/
structure Frame (lost : Str → Prop) (address : ℕ) (s s' : Register Stored) : Prop where
  size_le : s.size ≤ s'.size
  name : address < s.size → (s'.objects address).name = (s.objects address).name
  old : ∀ a, a < s.size → a ≠ address → s'.objects a = s.objects a
  new : ∀ a, s.size ≤ a → a < s'.size → a ≠ address → ∃ n, s'.objects a = { name := n, placeholder := true }
  found : ∀ n a, componentName n = none ∨ ¬ lost n → lookup n s.types = some a → lookup n s'.types = some a
  stays : ∀ n, (lookup n s.types).isSome → (lookup n s'.types).isSome
  entry : ∀ n a, lookup n s'.types = some a → lookup n s.types = some a ∨
    s.size ≤ a ∧ a < s'.size ∧ (a = address → lookup n s.types = none)
  tasks : s'.tasks = s.tasks

/-- The object of a name is a placeholder about which nothing has been read. -/
def Emptied (address : ℕ) (s : Register Stored) (name : Str) : Prop :=
  ∃ b, lookup name s.types = some b ∧ b ≠ address ∧ s.objects b = { name := name, placeholder := true }

namespace Frame

variable {lost : Str → Prop} {address : ℕ} {s s' s'' : Register Stored}

theorem refl (lost : Str → Prop) (address : ℕ) (s : Register Stored) : Frame lost address s s where
  size_le := Nat.le_refl _
  name _ := rfl
  old _ _ _ := rfl
  new _ above below := absurd below (Nat.not_lt.mpr above)
  found _ _ _ := id
  stays _ := id
  entry _ _ := Or.inl
  tasks := rfl

theorem trans (one : Frame lost address s s') (two : Frame lost address s' s'') : Frame lost address s s'' where
  size_le := Nat.le_trans one.size_le two.size_le
  name inside := (two.name (Nat.lt_of_lt_of_le inside one.size_le)).trans (one.name inside)
  old a below other := (two.old a (Nat.lt_of_lt_of_le below one.size_le) other).trans (one.old a below other)
  new a above below other := by
    by_cases between : a < s'.size
    · obtain ⟨n, placeholder⟩ := one.new a above between other
      exact ⟨n, (two.old a between other).trans placeholder⟩
    · exact two.new a (Nat.not_lt.mp between) below other
  found n a kept there := two.found n a kept (one.found n a kept there)
  stays n there := two.stays n (one.stays n there)
  entry n a there := by
    rcases two.entry n a there with kept | ⟨above, below, own⟩
    · rcases one.entry n a kept with kept | ⟨above, below, own⟩
      · exact Or.inl kept
      · exact Or.inr ⟨above, Nat.lt_of_lt_of_le below two.size_le, own⟩
    · refine Or.inr ⟨Nat.le_trans one.size_le above, below, fun here => ?_⟩
      apply Option.not_isSome_iff_eq_none.mp
      intro present
      have later := one.stays n present
      rw [own here] at later
      cases later
  tasks := two.tasks.trans one.tasks

theorem mono {lost' : Str → Prop} (more : ∀ n, lost n → lost' n) (frame : Frame lost address s s') :
    Frame lost' address s s' :=
  { frame with found := fun n a kept => frame.found n a (kept.imp_right fun none here => none (more n here)) }

theorem modify {f : TypeObject Stored → TypeObject Stored}
    (named : (f (s.objects address)).name = (s.objects address).name) : Frame lost address s (s.modify address f) where
  size_le := Nat.le_refl _
  name _ := by rw [s.modify_self, named]
  old a _ other := s.modify_of_ne f other
  new _ above below := absurd below (Nat.not_lt.mpr above)
  found _ _ _ := id
  stays _ := id
  entry _ _ := Or.inl
  tasks := rfl

/-- A new object is a placeholder, unless it is the one at the address. -/
theorem addType {name : Str} {placeholder : Bool}
    (kind : placeholder = true ∧ address < s.size ∨ address = s.size ∧ lookup name s.types = none)
    (missing : componentName name = none ∨ ¬ lost name → lookup name s.types = none) :
    Frame lost address s (s.addType name placeholder) where
  size_le := Nat.le_succ _
  name inside := by rw [s.addType_of_ne (Nat.ne_of_lt inside)]
  old a below _ := s.addType_of_ne (Nat.ne_of_lt below)
  new a above below other := by
    have last : a = s.size := Nat.le_antisymm (Nat.le_of_lt_succ below) above
    rcases kind with ⟨rfl, _⟩ | ⟨rfl, _⟩
    · exact ⟨name, last ▸ s.addType_self name true⟩
    · exact absurd last other
  found n a kept there := by
    rw [s.lookup_addType, if_neg ?_, there]
    rintro rfl
    rw [missing kept] at there
    cases there
  stays n there := by
    rw [s.lookup_addType]
    split
    · rfl
    · exact there
  entry n a there := by
    rw [s.lookup_addType] at there
    split at there
    · rename_i same
      cases there
      refine Or.inr ⟨Nat.le_refl _, Nat.lt_succ_self _, fun here => ?_⟩
      rcases kind with ⟨_, below⟩ | ⟨_, none⟩
      · exact absurd (here ▸ below) (Nat.lt_irrefl _)
      · exact same ▸ none
    · exact Or.inl there
  tasks := rfl

theorem grows (frame : Frame lost address s s') : Grows s s' where
  size_le := frame.size_le
  name_eq a below := by
    by_cases here : a = address
    · rw [here, frame.name (here ▸ below)]
    · rw [frame.old a below here]
  lookup_eq n a bare := frame.found n a (Or.inl bare)

/-- An object of another name is at another address. -/
theorem other_address (frame : Frame lost address s s') {name : Str} (named : (s'.objects address).name = name) {a : ℕ}
    (inside : a < s.size) (other : (s.objects a).name ≠ name) : a ≠ address := by
  rintro rfl
  exact other ((frame.name inside).symm.trans named)

/-- A type keeps its name. -/
theorem nameOf (frame : Frame lost address s s') {type : TypePtr} (inside : type.core < s.size) :
    s'.nameOf type = s.nameOf type := by
  rw [nameOf_eq, nameOf_eq, frame.grows.name_eq _ inside]

end Frame

/-! ### Steps -/

/-- A register with a shape, where unknown names have no parent and ancestors end. -/
structure Tidy (s : Register Stored) (known : Str → Prop) (parent : Str → Option Str) (awaiting : Str → Prop) :
    Prop where
  shape : Shape s known parent awaiting
  orphan : ∀ n, componentName n = none → ¬ known n → parent n = none
  ends : ∀ n, ∃ ancestors, Lineage parent n ancestors

namespace Tidy

variable {s : Register Stored} {known : Str → Prop} {parent : Str → Option Str} {awaiting : Str → Prop}
  {lost : Str → Prop}

theorem congr (tidy : Tidy s known parent awaiting) {known' : Str → Prop}
    (known_iff : ∀ n, componentName n = none → (known n ↔ known' n)) : Tidy s known' parent awaiting where
  shape := tidy.shape.congr known_iff (fun _ => rfl) fun _ => id
  orphan n bare missing := tidy.orphan n bare fun there => missing ((known_iff n bare).mp there)
  ends := tidy.ends

/-- What has been emptied stays empty while another definition is read. -/
theorem emptied {s' : Register Stored} {known' : Str → Prop} {parent' : Str → Option Str} {awaiting' : Str → Prop}
    (tidy : Tidy s known parent awaiting) (tidy' : Tidy s' known' parent' awaiting') {address : ℕ}
    (frame : Frame lost address s s') {name : Str} (empty : Emptied address s name) : Emptied address s' name := by
  obtain ⟨b, found, other, blank⟩ := empty
  obtain ⟨c, there⟩ := Option.isSome_iff_exists.mp (frame.stays name (found ▸ rfl))
  rcases frame.entry name c there with kept | ⟨above, below, own⟩
  · cases found.symm.trans kept
    exact ⟨b, there, other, (frame.old b (tidy.shape.sized name b found).1 other).trans blank⟩
  · have aside : c ≠ address := by
      intro here
      cases (own here).symm.trans found
    obtain ⟨n, placeholder⟩ := frame.new c above below aside
    have named := (tidy'.shape.sized name c there).2
    rw [placeholder] at named
    cases named
    exact ⟨c, there, aside, placeholder⟩

/-- A change of the object that keeps its name, its parent and whether it is a placeholder. -/
theorem modify (tidy : Tidy s known parent awaiting) (lost : Str → Prop) {address : ℕ}
    {f : TypeObject Stored → TypeObject Stored}
    (named : (f (s.objects address)).name = (s.objects address).name)
    (parented : (f (s.objects address)).parent = (s.objects address).parent)
    (waits : (f (s.objects address)).placeholder = (s.objects address).placeholder) :
    Tidy (s.modify address f) known parent awaiting ∧ Frame lost address s (s.modify address f) := by
  obtain ⟨shape, _⟩ := tidy.shape.modify address awaiting named parented (fun _ => id) fun _ => waits.trans
  exact ⟨⟨shape, tidy.orphan, tidy.ends⟩, .modify named⟩

theorem missing (tidy : Tidy s known parent awaiting) {name : Str} (absent : componentName name = none → ¬ known name)
    (bare : componentName name = none) : lookup name s.types = none := by
  apply Option.not_isSome_iff_eq_none.mp
  rw [tidy.shape.known_iff name bare]
  exact absent bare

/-- A placeholder for an unknown name, or for a name with `[]` that is lost. -/
theorem addType (tidy : Tidy s known parent awaiting) {address : ℕ} (inside : address < s.size) {name : Str}
    (absent : componentName name = none → ¬ known name)
    (kept : componentName name ≠ none → ¬ lost name → lookup name s.types = none) :
    Tidy (s.addType name true) (fun n => known n ∨ n = name) parent awaiting ∧
      Frame lost address s (s.addType name true) ∧ (s.addType name true).objects address = s.objects address := by
  obtain ⟨shape, _⟩ := tidy.shape.addType true absent (fun bare => tidy.orphan name bare (absent bare)) fun _ => rfl
  refine ⟨⟨shape, fun n bare unknown => tidy.orphan n bare fun there => unknown (Or.inl there), tidy.ends⟩,
    .addType (Or.inl ⟨rfl, inside⟩) fun stays => ?_, s.addType_of_ne (Nat.ne_of_lt inside)⟩
  by_cases bare : componentName name = none
  · exact tidy.missing absent bare
  · exact kept bare (stays.resolve_left bare)

/-- The placeholders for the types of a value. -/
theorem addPlaceholders (tidy : Tidy s known parent awaiting) {address : ℕ} (inside : address < s.size)
    {added : List Str} (new : NewNames s added) (loses : ∀ n ∈ added, componentName n ≠ none → lost n) :
    Tidy (addPlaceholders s added) (fun n => known n ∨ n ∈ added) parent awaiting ∧
      Frame lost address s (addPlaceholders s added) ∧
      (addPlaceholders s added).objects address = s.objects address ∧
      ∀ n ∈ added, Emptied address (addPlaceholders s added) n := by
  induction added with
  | nil => exact ⟨tidy.congr fun n _ => by simp, .refl _ _ _, rfl, List.forall_mem_nil _⟩
  | cons name rest ih =>
      obtain ⟨here, others⟩ := List.forall_mem_cons.mp new.missing
      obtain ⟨fresh, distinct⟩ := List.pairwise_cons.mp new.distinct
      obtain ⟨tidy', frame, same, emptied⟩ := ih ⟨others, distinct⟩ (List.forall_mem_cons.mp loses).2
      have below := Nat.lt_of_lt_of_le inside frame.size_le
      have absent (bare : componentName name = none) : ¬ (known name ∨ name ∈ rest) := by
        rintro (before | now)
        · have present := (tidy.shape.known_iff name bare).mpr before
          rw [here bare] at present
          cases present
        · exact fresh name now bare rfl
      obtain ⟨tidy'', frame', same'⟩ := tidy'.addType below absent fun bracketed stays =>
        absurd (loses name List.mem_cons_self bracketed) stays
      refine ⟨tidy''.congr fun n _ => ?_, frame.trans frame', same'.trans same, List.forall_mem_cons.mpr ⟨?_, ?_⟩⟩
      · rw [List.mem_cons, or_assoc, or_comm (a := n ∈ rest)]
      · have found := (Definitions.addPlaceholders s rest).lookup_addType name name true
        rw [if_pos rfl] at found
        exact ⟨_, found, Ne.symm (Nat.ne_of_lt below), Register.addType_self ..⟩
      · exact fun n there => tidy'.emptied tidy'' frame' (emptied n there)

/-- The placeholders for the types that a value mentions. -/
theorem addMentioned (tidy : Tidy s known parent awaiting) {address : ℕ} (inside : address < s.size)
    {added mentioned : List Str} (registers : Registers s [] added mentioned)
    (loses : ∀ n ∈ mentioned, componentName n ≠ none → lost n) :
    Tidy (Definitions.addPlaceholders s added) (fun n => known n ∨ n ∈ mentioned) parent awaiting ∧
      Frame lost address s (Definitions.addPlaceholders s added) ∧
      (Definitions.addPlaceholders s added).objects address = s.objects address ∧
      ∀ n ∈ mentioned, componentName n ≠ none → Emptied address (Definitions.addPlaceholders s added) n := by
  obtain ⟨new, subset, all⟩ := registers
  rw [List.append_nil] at new all
  obtain ⟨tidy', frame, same, emptied⟩ := tidy.addPlaceholders inside new fun n there => loses n (subset n there)
  refine ⟨tidy'.congr fun n bare => ⟨?_, ?_⟩, frame, same, fun n there bracketed => ?_⟩
  · rintro (before | now)
    · exact Or.inl before
    · exact Or.inr (subset n now)
  · rintro (before | now)
    · exact Or.inl before
    · rcases all n now with there | ⟨_, there⟩
      · exact Or.inr there
      · exact Or.inl ((tidy.shape.known_iff n bare).mp there)
  · rcases all n there with placed | ⟨bare, _⟩
    · exact emptied n placed
    · exact absurd bare bracketed

/-- A type whose element is known is found under its name. -/
theorem getType_known (tidy : Tidy s known parent awaiting) {text : Str} (there : known (elementName text)) :
    ∃ type, s.getType text = .ok (some type) ∧ s.nameOf type = text ∧ type.core < s.size := by
  obtain ⟨a, found⟩ :=
    Option.isSome_iff_exists.mp ((tidy.shape.known_iff _ (elementName_bare text)).mpr there)
  obtain ⟨ancestors, line⟩ := tidy.ends (elementName text)
  obtain ⟨type, _, got, core, nesting, _, _, _⟩ :=
    tidy.shape.getTypeIn_known text.length text (Nat.le_refl _) found line
  obtain ⟨below, named⟩ := tidy.shape.sized _ a found
  refine ⟨type, got, ?_, core ▸ below⟩
  rw [nameOf_eq, core, named, nesting]
  exact arrayName_elementName text

theorem getType_unknown (tidy : Tidy s known parent awaiting) {text : Str} (missing : ¬ known (elementName text)) :
    s.getType text = .ok none := tidy.shape.getTypeIn_unknown text.length text (Nat.le_refl _) missing

/-- The type that an argument is given has the name that is written. A name with `[]` whose element is not known is
    emptied. -/
theorem resolveType (tidy : Tidy s known parent awaiting) (lost : Str → Prop) {address : ℕ}
    (inside : address < s.size) (text : Str)
    (loses : componentName text ≠ none → ¬ known (elementName text) → lost text) :
    ∃ type s', Definitions.resolveType s text = .ok (type, s') ∧
      Tidy s' (fun n => known n ∨ n = text) parent awaiting ∧ Frame lost address s s' ∧
      s'.objects address = s.objects address ∧ s'.nameOf type = text ∧ type.core < s'.size ∧
      (¬ known (elementName text) → Emptied address s' text) := by
  unfold Definitions.resolveType
  by_cases there : known (elementName text)
  · obtain ⟨type, got, named, core⟩ := tidy.getType_known there
    refine ⟨type, s, ?_, ?_, .refl _ _ _, rfl, named, core, fun unknown => absurd there unknown⟩
    · rw [got]
      rfl
    · apply tidy.congr
      intro n bare
      refine ⟨Or.inl, fun either => either.elim id ?_⟩
      rintro rfl
      rwa [elementName_of_bare bare] at there
  · rw [tidy.getType_unknown there]
    have absent (bare : componentName text = none) : ¬ known text := by
      rwa [elementName_of_bare bare] at there
    obtain ⟨tidy', frame, same⟩ :=
      tidy.addType inside absent fun bracketed kept => absurd (loses bracketed there) kept
    refine ⟨.object s.size, s.addType text true, rfl, tidy', frame, same, ?_, Nat.lt_succ_self _, fun _ => ?_⟩
    · rw [Register.nameOf, s.addType_self]
    · exact ⟨s.size, by rw [s.lookup_addType, if_pos rfl], Ne.symm (Nat.ne_of_lt inside), s.addType_self text true⟩

/-- The parent of a definition. -/
theorem setParent (tidy : Tidy s known parent awaiting) (lost : Str → Prop) {owner p : Str} {address : ℕ}
    (inside : address < s.size)
    (named : (s.objects address).name = owner) (top : parent owner = none)
    (ends : ∀ n, ∃ ancestors, Lineage (fun n => if n = owner then some p else parent n) n ancestors) :
    Tidy (Definitions.setParent s address p) (fun n => known n ∨ n = p)
        (fun n => if n = owner then some p else parent n) awaiting ∧
      Frame lost address s (Definitions.setParent s address p) ∧
      ∃ q, (Definitions.setParent s address p).objects address = { s.objects address with parent := some q } ∧
        q < (Definitions.setParent s address p).size ∧ ((Definitions.setParent s address p).objects q).name = p := by
  have orphan (bare : componentName p = none) (missing : lookup p s.types = none) : parent p = none := by
    apply tidy.orphan p bare
    intro there
    have present := (tidy.shape.known_iff p bare).mpr there
    rw [missing] at present
    cases present
  refine ⟨⟨(tidy.shape.setParentName inside named top orphan).1, ?_, ends⟩, ?_⟩
  · intro n bare unknown
    by_cases same : n = owner
    · have found := tidy.shape.unique address inside (by rw [named, ← same, bare])
      rw [named, ← same] at found
      exact absurd (Or.inl ((tidy.shape.known_iff n bare).mp (found ▸ rfl))) unknown
    · rw [if_neg same]
      exact tidy.orphan n bare fun there => unknown (Or.inl there)
  · have keeps (s : Register Stored) (q a : ℕ) :
        ((s.modify address fun type => { type with parent := some q }).objects a).name = (s.objects a).name := by
      by_cases here : a = address
      · rw [here, s.modify_self]
      · rw [s.modify_of_ne _ here]
    unfold Definitions.setParent
    cases there : lookup p s.types with
    | some q =>
        obtain ⟨below, parent_named⟩ := tidy.shape.sized p q there
        exact ⟨.modify rfl, q, s.modify_self address _, below, (keeps s q q).trans parent_named⟩
    | none =>
        have added : Frame lost address s (s.addType p true) := .addType (Or.inl ⟨rfl, inside⟩) fun _ => there
        refine ⟨added.trans (.modify rfl), s.size, ?_, Nat.lt_succ_self _, ?_⟩
        · dsimp only
          rw [Register.modify_self, s.addType_of_ne (Nat.ne_of_lt inside)]
        · dsimp only
          rw [keeps, s.addType_self]

/-- The object of a definition that has been read is stored in the table. -/
theorem store (tidy : Tidy s known parent awaiting) {name : Str} {address : ℕ} (inside : address < s.size)
    (named : (s.objects address).name = name) (read : ¬ awaiting name) :
    Tidy { s with types := Configuration.insert name address s.types } known parent awaiting :=
  ⟨tidy.shape.store inside named read, tidy.orphan, tidy.ends⟩

end Tidy

end Experimaestro.Definitions

/-
Module: Experimaestro.Definitions.Restoring
Layer: Definitions
Purpose: `Register::load` on the definitions that `Type::toJson` has written, one step at a time. An argument is read
  as it was, but for the flag of one that has a default, which comes back as not required. An argument with a
  constant ends the call: its value is looked for under another key than the one it is written under.
Imports: Experimaestro.Definitions.Generating, Experimaestro.Definitions.Frames
Trusted boundary: none (fully proved)
Main exports: readArgument_written, readArgument_constant, Loaded, Midway, Replaces, ArgumentsKeepMaps,
  Midway.loadArguments, Midway.loadArguments_constant, Midway.loadProperties
Open obligations: none
-/
import Experimaestro.Definitions.Frames
import Experimaestro.Definitions.Generating

namespace Experimaestro.Definitions

open Experimaestro.Configuration (Conversions Json Ordered Str Value componentName elementName insert insert_last
  keyLess lookup lookup_insert storeMembers str)

/-! ### Arguments -/

section

variable (a : Argument Stored) (default constant : Option Json)

/-- What is found in the members of an argument. -/
theorem lookup_argumentMembers (key : Str) : lookup key (argumentMembers a default constant) =
    if key = str "constant" then constant
    else if key = str "default" then default
    else if key = str "generator" then a.generator.map generatorJson
    else if key = str "required" then
      if a.required = false ∧ a.defaultValue.isNone ∨ a.constant.isSome then some (.boolean false) else none
    else if key = str "help" then if a.help = [] then none else some (.string a.help)
    else none := by
  unfold argumentMembers
  simp only [lookup_addMember, lookup, Option.or_none, eq_comm (a := key)]
  by_cases is_constant : str "constant" = key
  · subst is_constant
    simp +decide
  · rw [if_neg is_constant, if_neg is_constant]
    by_cases is_default : str "default" = key
    · subst is_default
      simp +decide
    · rw [if_neg is_default, if_neg is_default]
      by_cases is_generator : str "generator" = key
      · subst is_generator
        simp +decide
      · rw [if_neg is_generator, if_neg is_generator]
        by_cases is_required : str "required" = key
        · subst is_required
          simp +decide
        · rw [if_neg is_required, if_neg is_required]

/-- The generator is created again. -/
theorem createFromJSON_generatorJson (name : Str) : createFromJSON (generatorJson name) = .ok name := rfl

end

/-- The argument that is read for one without a constant, before its type is known. -/
def Argument.again (a : Argument Stored) (value : Option Stored) : Argument Stored where
  type := .object 0
  help := a.help
  required := a.required && value.isNone
  value := value
  generator := a.generator

/-- Nothing is written for an argument that has nothing but a type. -/
theorem argumentMembers_isEmpty (a : Argument Stored) (default constant : Option Json) :
    (argumentMembers a default constant).isEmpty ↔ constant = none ∧ default = none ∧ a.generator = none ∧
      ¬ (a.required = false ∧ a.defaultValue.isNone ∨ a.constant.isSome) ∧ a.help = [] := by
  simp only [argumentMembers, isEmpty_addMember, List.isEmpty_nil, Bool.and_true, Bool.and_eq_true,
    Option.isNone_iff_eq_none, Option.map_eq_none_iff, ite_eq_right_iff, ite_eq_left_iff, reduceCtorEq, imp_false,
    not_not]

/-- What is read of the members of an argument. -/
structure ReadsAs (members : List (Str × Json)) (typeName help : Str) (required : Bool)
    (default constant : Option Json) (generator : Option Str) : Prop where
  type : lookup (str "type") members = some (.string typeName)
  help : valueString (str "help") [] (.object members) = .ok help
  required : (lookup (str "required") members).elim (.ok true) getBool = .ok required
  default : lookup (str "default") members = default
  constant : lookup (str "constant") members = constant
  generator : lookup (str "generator") members = generator.map generatorJson

theorem readsAs_argumentMembers (typeName : Str) (a : Argument Stored) (default constant : Option Json) :
    ReadsAs (insert (str "type") (.string typeName) (argumentMembers a default constant)) typeName a.help
      (!(a.required = false ∧ a.defaultValue.isNone ∨ a.constant.isSome)) default constant a.generator where
  type := by rw [lookup_insert, if_pos rfl]
  help := by
    rw [valueString, lookup_insert, if_neg (by decide), lookup_argumentMembers]
    simp +decide only [if_false, if_true]
    by_cases empty : a.help = []
    · rw [if_pos empty, empty]
    · rw [if_neg empty]
      rfl
  required := by
    rw [lookup_insert, if_neg (by decide), lookup_argumentMembers]
    simp +decide only [if_false, if_true]
    by_cases optional : a.required = false ∧ a.defaultValue.isNone ∨ a.constant.isSome
    · rw [if_pos optional, decide_eq_true optional]
      rfl
    · rw [if_neg optional, decide_eq_false optional]
      rfl
  default := by
    rw [lookup_insert, if_neg (by decide), lookup_argumentMembers]
    simp +decide only [if_false, if_true]
  constant := by
    rw [lookup_insert, if_neg (by decide), lookup_argumentMembers, if_pos rfl]
  generator := by
    rw [lookup_insert, if_neg (by decide), lookup_argumentMembers]
    simp +decide only [if_false, if_true]

/-- An argument without a constant is read from its definition. -/
theorem readArgument_written (createValue : ValueReader Stored) (s : Register Stored) (owner key typeName : Str)
    {a : Argument Stored} {default : Option Json} (given : default.isSome = a.defaultValue.isSome)
    (free : a.constant = none) :
    readArgument createValue s owner key (argumentDefinition typeName (argumentMembers a default none)) =
      default.elim (.ok (typeName, a.again none, s)) fun j =>
        (createValue s j).map fun read => (typeName, a.again (some read.1), read.2) := by
  rw [argumentDefinition]
  split
  · next nothing =>
    obtain ⟨-, rfl, generator, required, help⟩ := (argumentMembers_isEmpty a default none).mp nothing
    have none_given : a.defaultValue.isNone := by simpa using given.symm
    have needed : a.required = true := by
      by_contra optional
      exact required (Or.inl ⟨by simpa using optional, none_given⟩)
    simp [readArgument, Argument.again, needed, generator, help]
  · have reads := readsAs_argumentMembers typeName a default none
    generalize insert (str "type") (.string typeName) (argumentMembers a default none) = members at reads
    simp only [readArgument, find, reads.type, getString, reads.help, reads.required, reads.default, reads.constant,
      reads.generator, bind, Except.bind]
    cases default with
    | none =>
        have none_given : a.defaultValue.isNone := by simpa using given.symm
        have required : (!decide (a.required = false ∧ a.defaultValue.isNone ∨ a.constant.isSome)) = a.required := by
          simp [none_given, free]
        rw [required]
        cases generator : a.generator with
        | none => simp [Argument.again, generator]
        | some name => simp [Argument.again, generator, createFromJSON_generatorJson, Except.map]
    | some j =>
        cases read : createValue s j with
        | error e => simp [read, Except.map]
        | ok v =>
            cases generator : a.generator with
            | none => simp [read, Argument.again, Argument.setDefaultValue, generator, Except.map]
            | some name =>
                simp [read, Argument.again, Argument.setDefaultValue, generator, createFromJSON_generatorJson, Except.map]

/-- An argument with a constant is not read. -/
theorem readArgument_constant (createValue : ValueReader Stored) (s : Register Stored) (owner key typeName : Str)
    {a : Argument Stored} {j : Json} :
    ∃ e, readArgument createValue s owner key (argumentDefinition typeName (argumentMembers a none (some j))) =
      .error e := by
  have some_member : (argumentMembers a none (some j)).isEmpty = false := by
    rw [Bool.eq_false_iff]
    intro nothing
    cases ((argumentMembers_isEmpty a none (some j)).mp nothing).1
  have reads := readsAs_argumentMembers typeName a none (some j)
  rw [argumentDefinition, some_member, if_neg Bool.false_ne_true]
  generalize insert (str "type") (.string typeName) (argumentMembers a none (some j)) = members at reads
  refine ⟨.asserted, ?_⟩
  simp only [readArgument, find, reads.type, getString, reads.help, reads.required, reads.default, reads.constant,
    member, bind, Except.bind]

/-! ### Defaults that have been read -/

/-- The default that some definitions give to an argument of a type. -/
def declaredDefault (definitions : List (Str × TypeObject Stored)) (name key : Str) : Option Stored :=
  (lookup name definitions).bind fun type => (lookup key type.arguments).bind Argument.defaultValue

/-- The defaults that are read before those of an argument: the types and their arguments are read in the order of
    their names. -/
def defaultsBefore (definitions : List (Str × TypeObject Stored)) (owner argument name key : Str) : Option Stored :=
  if keyLess name owner = true ∨ name = owner ∧ keyLess key argument = true then declaredDefault definitions name key
  else none

/-- The names that the register has after an argument has been read. -/
def argumentNames (written : Register Stored) (a : Argument Stored) : List Str :=
  a.defaultValue.elim [] mapNames ++ [written.nameOf a.type]

/-- An argument that has been read for an argument without a constant. -/
structure Loaded (written s : Register Stored) (a a' : Argument Stored) : Prop where
  type : s.nameOf a'.type = written.nameOf a.type
  inside : a'.type.core < s.size
  again : ∃ value, a' = { a.again value with type := a'.type } ∧ value.map contentOf = a.defaultValue.map contentOf

theorem Loaded.default {written s : Register Stored} {a a' : Argument Stored} (loaded : Loaded written s a a') :
    a'.defaultValue.map contentOf = a.defaultValue.map contentOf := by
  obtain ⟨value, same, contents⟩ := loaded.again
  rw [same]
  exact contents

theorem Loaded.frame {written s s' : Register Stored} {a a' : Argument Stored} (loaded : Loaded written s a a')
    (grows : Grows s s') : Loaded written s' a a' where
  type := by rw [nameOf_eq, grows.name_eq _ loaded.inside, ← nameOf_eq, loaded.type]
  inside := Nat.lt_of_lt_of_le loaded.inside grows.size_le
  again := loaded.again

/-- What a frame leaves of a name. -/
theorem Frame.object {lost : Str → Prop} {address : ℕ} {s s' : Register Stored} {known known' : Str → Prop}
    {parent parent' : Str → Option Str} {awaiting awaiting' : Str → Prop} (frame : Frame lost address s s')
    (shape : Shape s known parent awaiting) (shape' : Shape s' known' parent' awaiting') {name : Str} {a : ℕ}
    (other : (s'.objects address).name ≠ name) (found : lookup name s'.types = some a) :
    (lookup name s.types = some a ∧ s'.objects a = s.objects a) ∨
      s.size ≤ a ∧ s'.objects a = { name := name, placeholder := true } := by
  obtain ⟨inside, named⟩ := shape'.sized name a found
  have aside : a ≠ address := by
    rintro rfl
    exact other named
  rcases frame.entry name a found with kept | ⟨above, below, _⟩
  · exact Or.inl ⟨kept, frame.old a (shape.sized name a kept).1 aside⟩
  · obtain ⟨n, new⟩ := frame.new a above below aside
    rw [new] at named
    cases named
    exact Or.inr ⟨above, new⟩

theorem Frame.defaultOf {lost : Str → Prop} {address : ℕ} {s s' : Register Stored} {known known' : Str → Prop}
    {parent parent' : Str → Option Str} {awaiting awaiting' : Str → Prop} (frame : Frame lost address s s')
    (shape : Shape s known parent awaiting) (shape' : Shape s' known' parent' awaiting') {name : Str}
    (bare : componentName name = none) (other : (s'.objects address).name ≠ name) (key : Str) :
    s'.defaultOf name key = s.defaultOf name key := by
  rw [Register.defaultOf, Register.defaultOf]
  cases found : lookup name s'.types with
  | none =>
      cases before : lookup name s.types with
      | none => rfl
      | some a =>
          have kept := frame.found name a (Or.inl bare) before
          rw [found] at kept
          cases kept
  | some a =>
      rcases frame.object shape shape' other found with ⟨before, same⟩ | ⟨above, new⟩
      · rw [before, Option.bind_some, Option.bind_some, same]
      · have missing : lookup name s.types = none := by
          cases before : lookup name s.types with
          | none => rfl
          | some b =>
              have kept := frame.found name b (Or.inl bare) before
              cases found.symm.trans kept
              exact absurd (shape.sized name a before).1 (Nat.not_lt.mpr above)
        rw [missing, Option.bind_some, new]
        rfl

/-! ### The loop over the arguments -/

/-- Entries of two tables under the same keys. -/
abbrev Paired {α β : Type} (R : α → β → Prop) (entries : List (Str × α)) (others : List (Str × β)) : Prop :=
  List.Forall₂ (fun entry other => entry.1 = other.1 ∧ R entry.2 other.2) entries others

namespace Paired

variable {α β : Type} {R : α → β → Prop} {entries : List (Str × α)} {others : List (Str × β)}

theorem keys (paired : Paired R entries others) : others.map Prod.fst = entries.map Prod.fst := by
  induction paired with
  | nil => rfl
  | cons first _ ih => rw [List.map_cons, List.map_cons, ih, first.1]

theorem lookup (paired : Paired R entries others) (key : Str) :
    Option.Rel R (Configuration.lookup key entries) (Configuration.lookup key others) := by
  induction paired with
  | nil => exact .none
  | @cons entry other _ _ first _ ih =>
      obtain ⟨k, a⟩ := entry
      obtain ⟨k', b⟩ := other
      obtain ⟨same, related⟩ := first
      dsimp only at same related
      subst same
      rw [Configuration.lookup, Configuration.lookup]
      split
      · exact .some related
      · exact ih

theorem insert (paired : Paired R entries others) (key : Str) {a : α} {b : β} (related : R a b) :
    Paired R (Configuration.insert key a entries) (Configuration.insert key b others) := by
  induction paired with
  | nil => exact .cons ⟨rfl, related⟩ .nil
  | @cons entry other _ _ first tail ih =>
      obtain ⟨k, a'⟩ := entry
      obtain ⟨k', b'⟩ := other
      obtain ⟨same, related'⟩ := first
      dsimp only at same related'
      subst same
      rw [Configuration.insert, Configuration.insert]
      split
      · exact .cons ⟨rfl, related⟩ tail
      · split
        · exact .cons ⟨rfl, related⟩ (.cons ⟨rfl, related'⟩ tail)
        · exact .cons ⟨rfl, related'⟩ ih

/-- Paired tables are paired when they are in the order of their keys. -/
theorem store (paired : Paired R entries others) : Paired R (Definitions.store entries) (Definitions.store others) := by
  have kept (sorted : List (Str × α)) (sorted' : List (Str × β)) (before : Paired R sorted sorted') :
      Paired R (entries.foldl (fun sorted entry => Configuration.insert entry.1 entry.2 sorted) sorted)
        (others.foldl (fun sorted entry => Configuration.insert entry.1 entry.2 sorted) sorted') := by
    induction paired generalizing sorted sorted' with
    | nil => exact before
    | @cons entry other _ _ first _ ih =>
        obtain ⟨same, related⟩ := first
        rw [List.foldl_cons, List.foldl_cons, ← same]
        exact ih _ _ (before.insert entry.1 related)
  exact kept [] [] .nil

end Paired

/-- The state in which some arguments of a definition have been read. -/
structure Midway (written : Register Stored) (definitions : List (Str × TypeObject Stored)) (owner : Str) (address : ℕ)
    (done : List (Str × Argument Stored)) (s : Register Stored) (known : Str → Prop) (parent : Str → Option Str)
    (awaiting : Str → Prop) : Prop where
  tidy : Tidy s known parent awaiting
  inside : address < s.size
  named : (s.objects address).name = owner
  path : (lookup (str "path") s.types).isSome
  others : ∀ name key, componentName name = none → name ≠ owner →
    (s.defaultOf name key).map contentOf =
      (if keyLess name owner = true then declaredDefault definitions name key else none).map contentOf
  own : Paired (Loaded written s) done (s.objects address).arguments

section

variable {written : Register Stored} {definitions : List (Str × TypeObject Stored)} {owner : Str} {address : ℕ}
  {done : List (Str × Argument Stored)} {s : Register Stored} {known : Str → Prop} {parent : Str → Option Str}
  {awaiting lost : Str → Prop}

theorem Midway.found (midway : Midway written definitions owner address done s known parent awaiting)
    (bare : componentName owner = none) : lookup owner s.types = some address := by
  have found := midway.tidy.shape.unique address midway.inside (midway.named ▸ bare)
  rwa [midway.named] at found

/-- A key of a table in order is found among the entries before a larger key. -/
theorem lookup_before {α : Type} {done rest : List (Str × α)} {key k : Str} {a : α}
    (ordered : Ordered (done ++ (key, a) :: rest)) :
    (if keyLess k key = true then lookup k (done ++ (key, a) :: rest) else none) = lookup k done := by
  obtain ⟨_, later, before⟩ := List.pairwise_append.mp ordered
  split
  · next less =>
    rw [lookup_append]
    cases found : lookup k ((key, a) :: rest) with
    | none => rw [Option.or_none]
    | some b =>
        have not_less : keyLess k key = false := by
          rcases List.mem_cons.mp (Configuration.mem_of_lookup found) with same | there
          · rw [show k = key from congrArg Prod.fst same]
            exact Configuration.keyLess_irrefl key
          · exact Configuration.keyLess_asymm ((List.pairwise_cons.mp later).1 (k, b) there)
        rw [less] at not_less
        cases not_less
  · next not_less =>
    cases found : lookup k done with
    | none => rfl
    | some b =>
        exact absurd (before (k, b) (Configuration.mem_of_lookup found) (key, a) List.mem_cons_self) not_less

/-- The defaults are those that have been read by now. -/
theorem Midway.agrees (midway : Midway written definitions owner address done s known parent awaiting) {key : Str}
    {a : Argument Stored} {rest : List (Str × Argument Stored)} (ordered : Ordered (done ++ (key, a) :: rest))
    (all : ∀ k, declaredDefault definitions owner k =
      (lookup k (done ++ (key, a) :: rest)).bind Argument.defaultValue) :
    Agrees s (defaultsBefore definitions owner key) := by
  intro name k bare
  rw [defaultsBefore]
  by_cases same : name = owner
  · subst same
    have irrefl : keyLess name name = false := Configuration.keyLess_irrefl name
    have arguments_ordered := Configuration.ordered_keys midway.own.keys (List.pairwise_append.mp ordered).1
    rw [Register.defaultOf, midway.found bare, Option.bind_some, store_of_ordered arguments_ordered, all]
    simp only [irrefl, Bool.false_eq_true, false_or, true_and]
    have before := lookup_before (k := k) ordered
    have paired := midway.own.lookup k
    rw [← before] at paired
    split
    · next less =>
      rw [if_pos less] at paired
      revert paired
      generalize lookup k (done ++ (key, a) :: rest) = declared
      generalize lookup k (s.objects address).arguments = stored
      intro paired
      cases paired with
      | none => rfl
      | some loaded => exact loaded.default.symm
    · next not_less =>
      rw [if_neg not_less] at paired
      revert paired
      generalize lookup k (s.objects address).arguments = stored
      intro paired
      cases paired
      rfl
  · rw [midway.others name k bare same]
    simp only [same, false_and, or_false]

/-- What keeps its maps does so with the names in the table. -/
theorem Tidy.keepsMaps (tidy : Tidy s known parent awaiting) {v : Stored} (keeps : KeepsMaps known v) :
    KeepsMaps (fun n => (lookup n s.types).isSome) v :=
  keeps.anti fun n bare => (tidy.shape.known_iff n bare).mp

/-- An argument without a constant is read again, except for its type. -/
theorem readArgument_restores {conversions : Conversions} {own : Str → Str → Option Stored} {a : Argument Stored}
    {j : Json}
    (tidy : Tidy s known parent awaiting) (inside : address < s.size) (path : (lookup (str "path") s.types).isSome)
    (agrees : Agrees s own) (output : argumentJson written a = .ok j) (free : a.constant = none)
    (restorable : ∀ v, a.defaultValue = some v → Restorable conversions own v)
    (keeps : ∀ v, a.defaultValue = some v → KeepsMaps known v)
    (loses : ∀ n ∈ a.defaultValue.elim [] mapNames, componentName n ≠ none → lost n) (owner key : Str) :
    ∃ value s', readArgument (createValue conversions) s owner key j = .ok (written.nameOf a.type, a.again value, s') ∧
      Tidy s' (fun n => known n ∨ n ∈ a.defaultValue.elim [] mapNames) parent awaiting ∧ Frame lost address s s' ∧
      s'.objects address = s.objects address ∧ value.map contentOf = a.defaultValue.map contentOf ∧
      ∀ n ∈ a.defaultValue.elim [] mapNames, componentName n ≠ none → Emptied address s' n := by
  obtain ⟨default, constant, defaulted, fixed, rfl⟩ := argumentJson_eq_ok.mp output
  rw [free] at fixed
  cases fixed
  have related := pointerJson_eq_ok defaulted
  have given : default.isSome = a.defaultValue.isSome := by
    generalize a.defaultValue = declared at related
    cases related <;> rfl
  rw [readArgument_written _ s owner key _ given free]
  generalize a.defaultValue = declared at related restorable keeps loses
  cases related with
  | none => exact ⟨none, s, rfl, tidy.congr fun n _ => by simp, .refl _ _ _, rfl, rfl, List.forall_mem_nil _⟩
  | @some v i value =>
      obtain ⟨w, added, created, contents, registers⟩ :=
        createValue_restorable path agrees (restorable v rfl) (tidy.keepsMaps (keeps v rfl)) value
      obtain ⟨tidy', frame, same, emptied⟩ := tidy.addMentioned inside registers loses
      refine ⟨some w, addPlaceholders s added, ?_, tidy', frame, same, congrArg some contents, emptied⟩
      rw [Option.elim_some, created]
      rfl

/-- A step that reads the definition of the owner. -/
theorem Midway.frame (midway : Midway written definitions owner address done s known parent awaiting)
    {s' : Register Stored} {known' : Str → Prop} {parent' : Str → Option Str} {awaiting' : Str → Prop}
    (done' : List (Str × Argument Stored)) (frame : Frame lost address s s') (tidy' : Tidy s' known' parent' awaiting')
    (own : Paired (Loaded written s') done' (s'.objects address).arguments) :
    Midway written definitions owner address done' s' known' parent' awaiting' where
  tidy := tidy'
  inside := Nat.lt_of_lt_of_le midway.inside frame.size_le
  named := (frame.name midway.inside).trans midway.named
  path := by
    obtain ⟨p, there⟩ := Option.isSome_iff_exists.mp midway.path
    rw [frame.found _ p (Or.inl (by decide)) there]
    rfl
  others name k bare other := by
    have named := (frame.name midway.inside).trans midway.named
    rw [frame.defaultOf midway.tidy.shape tidy'.shape bare (named ▸ Ne.symm other) k]
    exact midway.others name k bare other
  own := own

/-- `Type::addArgument`. -/
def TypeObject.addArgument (type : TypeObject Stored) (key : Str) (a : Argument Stored) : TypeObject Stored :=
  { type with arguments := insert key a type.arguments }

/-- While some arguments are read, one of them takes the entry of a name with `[]` away: a map in its default has a
    type of this name, or its type has this name, and the element is not among the names that are known by then. -/
def Replaces (written : Register Stored) : (known : Str → Prop) → List (Str × Argument Stored) → Str → Prop
  | _, [], _ => False
  | known, (_, a) :: rest, n =>
      (componentName n ≠ none ∧ (n ∈ a.defaultValue.elim [] mapNames ∨ written.nameOf a.type = n ∧
        ¬ (known (elementName n) ∨ elementName n ∈ a.defaultValue.elim [] mapNames))) ∨
      Replaces written (fun m => known m ∨ m ∈ argumentNames written a) rest n

/-- The defaults of some arguments keep their maps. -/
def ArgumentsKeepMaps (written : Register Stored) : (known : Str → Prop) → List (Str × Argument Stored) → Prop
  | _, [] => True
  | known, (_, a) :: rest =>
      (∀ v, a.defaultValue = some v → KeepsMaps known v) ∧
        ArgumentsKeepMaps written (fun n => known n ∨ n ∈ argumentNames written a) rest

/-- An argument without a constant is read. -/
theorem Midway.step {conversions : Conversions} {key : Str} {a : Argument Stored} {j : Json}
    {rest : List (Str × Argument Stored)}
    (midway : Midway written definitions owner address done s known parent awaiting)
    (ordered : Ordered (done ++ (key, a) :: rest))
    (all : ∀ k, declaredDefault definitions owner k =
      (lookup k (done ++ (key, a) :: rest)).bind Argument.defaultValue)
    (output : argumentJson written a = .ok j) (free : a.constant = none)
    (restorable : ∀ v, a.defaultValue = some v → Restorable conversions (defaultsBefore definitions owner key) v)
    (keeps : ∀ v, a.defaultValue = some v → KeepsMaps known v) (loses : ∀ n, Replaces written known [(key, a)] n → lost n) :
    ∃ s', (∀ others, loadArguments (createValue conversions) address owner ((some key, j) :: others) s =
        loadArguments (createValue conversions) address owner others s') ∧
      Midway written definitions owner address (done ++ [(key, a)]) s' (fun n => known n ∨ n ∈ argumentNames written a)
        parent awaiting ∧
      Frame lost address s s' ∧
      s'.objects address = { s.objects address with arguments := (s'.objects address).arguments } ∧
      ∀ n, Replaces written known [(key, a)] n → Emptied address s' n := by
  obtain ⟨value, s₁, read, tidy₁, frame₁, same₁, contents, emptied₁⟩ :=
    readArgument_restores midway.tidy midway.inside midway.path (midway.agrees ordered all) output free restorable
      keeps (fun n there bracketed => loses n (Or.inl ⟨bracketed, Or.inl there⟩)) owner key
  obtain ⟨type, s₂, resolved, tidy₂, frame₂, same₂, named, core, emptied⟩ :=
    tidy₁.resolveType lost (Nat.lt_of_lt_of_le midway.inside frame₁.size_le) (written.nameOf a.type)
      fun bracketed unknown => loses _ (Or.inl ⟨bracketed, Or.inr ⟨rfl, unknown⟩⟩)
  have frame := frame₁.trans frame₂
  obtain ⟨tidy₃, frame₃⟩ := tidy₂.modify lost (f := fun object =>
    object.addArgument key { a.again value with type := type }) rfl rfl rfl
  have object := s₂.modify_self address fun object => object.addArgument key { a.again value with type := type }
  rw [same₂, same₁] at object
  have whole := frame.trans frame₃
  have last : insert key { a.again value with type := type } (s.objects address).arguments =
      (s.objects address).arguments ++ [(key, { a.again value with type := type })] := by
    apply insert_last
    intro entry member
    have there : entry.1 ∈ done.map Prod.fst := midway.own.keys ▸ List.mem_map_of_mem member
    obtain ⟨e, inside, same⟩ := List.mem_map.mp there
    exact same ▸ (List.pairwise_append.mp ordered).2.2 e inside (key, a) List.mem_cons_self
  refine ⟨_, fun others => ?_, midway.frame _ whole (tidy₃.congr fun n _ => ?_) ?_, whole, ?_, fun n replaces => ?_⟩
  · simp only [loadArguments, keyOf, read, resolved, bind, Except.bind]
    rfl
  · rw [argumentNames, List.mem_append, List.mem_singleton, or_assoc]
  · rw [object, TypeObject.addArgument, last]
    apply List.rel_append
    · exact midway.own.imp fun entry other related => ⟨related.1, related.2.frame whole.grows⟩
    · refine .cons ⟨rfl, ⟨?_, ?_, value, rfl, contents⟩⟩ .nil
      · rw [frame₃.nameOf core, named]
      · exact Nat.lt_of_lt_of_le core frame₃.size_le
  · rw [object]
    rfl
  · rcases replaces with ⟨bracketed, there | ⟨rfl, unknown⟩⟩ | none
    · exact tidy₂.emptied tidy₃ frame₃ (tidy₁.emptied tidy₂ frame₂ (emptied₁ n there bracketed))
    · exact tidy₂.emptied tidy₃ frame₃ (emptied unknown)
    · exact absurd none id

/-- The arguments of a definition are read, where none has a constant. -/
theorem Midway.loadArguments {conversions : Conversions} {rest : List (Str × Argument Stored)}
    {docs : List (Str × Json)}
    (paired : Paired (fun a j => argumentJson written a = .ok j) rest docs) (free : ∀ e ∈ rest, e.2.constant = none)
    (restorable : ∀ e ∈ rest, ∀ v, e.2.defaultValue = some v →
      Restorable conversions (defaultsBefore definitions owner e.1) v)
    (keeps : ArgumentsKeepMaps written known rest) (ordered : Ordered (done ++ rest))
    (all : ∀ k, declaredDefault definitions owner k = (lookup k (done ++ rest)).bind Argument.defaultValue)
    (midway : Midway written definitions owner address done s known parent awaiting) :
    ∃ s', Definitions.loadArguments (createValue conversions) address owner (docs.map fun m => (some m.1, m.2)) s =
        .ok s' ∧
      Midway written definitions owner address (done ++ rest) s'
        (fun n => known n ∨ n ∈ rest.flatMap fun e => argumentNames written e.2) parent awaiting ∧
      Frame (Replaces written known rest) address s s' ∧
      s'.objects address = { s.objects address with arguments := (s'.objects address).arguments } ∧
      ∀ n, Replaces written known rest n → Emptied address s' n := by
  induction paired generalizing done s known with
  | nil =>
      refine ⟨s, rfl, ?_, .refl _ _ _, rfl, nofun⟩
      rw [List.append_nil]
      exact { midway with tidy := midway.tidy.congr fun n _ => by simp }
  | @cons entry member rest docs first _ ih =>
      obtain ⟨key, a⟩ := entry
      obtain ⟨key', j⟩ := member
      obtain ⟨same, output⟩ := first
      dsimp only at same output
      subst same
      have here (n : Str) (replaces : Replaces written known [(key, a)] n) :
          Replaces written known ((key, a) :: rest) n := by
        rcases replaces with now | none
        · exact Or.inl now
        · exact absurd none id
      obtain ⟨keeps_first, keeps_rest⟩ := keeps
      obtain ⟨s₁, steps, midway₁, frame₁, object₁, emptied₁⟩ := midway.step ordered all output
        (free (key, a) List.mem_cons_self) (restorable (key, a) List.mem_cons_self) keeps_first here
      have split : done ++ (key, a) :: rest = (done ++ [(key, a)]) ++ rest := by simp
      rw [split] at ordered all ⊢
      obtain ⟨s₂, runs, midway₂, frame₂, object₂, emptied₂⟩ :=
        ih (fun e inside => free e (List.mem_cons_of_mem _ inside))
          (fun e inside => restorable e (List.mem_cons_of_mem _ inside)) keeps_rest ordered all midway₁
      refine ⟨s₂, (steps _).trans runs, ?_, frame₁.trans (frame₂.mono fun _ => Or.inr), ?_, fun n replaces => ?_⟩
      · exact { midway₂ with tidy := midway₂.tidy.congr fun n _ => by simp [or_assoc] }
      · rw [object₂, object₁]
      · rcases replaces with now | later
        · exact midway₁.tidy.emptied midway₂.tidy frame₂ (emptied₁ n (Or.inl now))
        · exact emptied₂ n later

/-- An argument with a constant ends the loop. -/
theorem Midway.loadArguments_constant {conversions : Conversions} {rest : List (Str × Argument Stored)}
    {docs : List (Str × Json)} (paired : Paired (fun a j => argumentJson written a = .ok j) rest docs)
    (fixed : ∃ e ∈ rest, e.2.constant ≠ none)
    (restorable : ∀ e ∈ rest, ∀ v, e.2.defaultValue = some v →
      Restorable conversions (defaultsBefore definitions owner e.1) v)
    (keeps : ArgumentsKeepMaps written known rest) (ordered : Ordered (done ++ rest))
    (all : ∀ k, declaredDefault definitions owner k = (lookup k (done ++ rest)).bind Argument.defaultValue)
    (midway : Midway written definitions owner address done s known parent awaiting) :
    ∃ e, Definitions.loadArguments (createValue conversions) address owner (docs.map fun m => (some m.1, m.2)) s =
      .error e := by
  induction paired generalizing done s known with
  | nil =>
      obtain ⟨_, inside, _⟩ := fixed
      cases inside
  | @cons entry member rest docs first _ ih =>
      obtain ⟨key, a⟩ := entry
      obtain ⟨key', j⟩ := member
      obtain ⟨same, output⟩ := first
      dsimp only at same output
      subst same
      cases given : a.constant with
      | some v =>
          obtain ⟨default, constant, defaulted, constant_written, rfl⟩ := argumentJson_eq_ok.mp output
          have no_default : a.defaultValue = none := by
            rw [Argument.constant] at given
            rw [Argument.defaultValue]
            split at given
            · next is_constant => rw [if_pos is_constant]
            · cases given
          rw [no_default] at defaulted
          cases defaulted
          rw [given] at constant_written
          obtain ⟨i, _, rfl⟩ := Configuration.except_map_eq_ok.mp constant_written
          obtain ⟨e, refused⟩ :=
            readArgument_constant (createValue conversions) s owner key (written.nameOf a.type) (a := a) (j := i)
          refine ⟨e, ?_⟩
          simp only [List.map_cons, Definitions.loadArguments, keyOf, refused, bind, Except.bind]
      | none =>
          obtain ⟨s₁, steps, midway₁, _⟩ := midway.step ordered all output given
            (restorable (key, a) List.mem_cons_self) keeps.1 fun _ => id
          have split : done ++ (key, a) :: rest = (done ++ [(key, a)]) ++ rest := by simp
          rw [split] at ordered all
          have later : ∃ e ∈ rest, e.2.constant ≠ none := by
            obtain ⟨e, inside, constant⟩ := fixed
            rcases List.mem_cons.mp inside with rfl | there
            · exact absurd given constant
            · exact ⟨e, there, constant⟩
          obtain ⟨e, refused⟩ :=
            ih later (fun e inside => restorable e (List.mem_cons_of_mem _ inside)) keeps.2 ordered all midway₁
          exact ⟨e, (steps _).trans refused⟩

/-! ### The loop over the properties -/

/-- Before the arguments of a type are read, it has no defaults. -/
theorem Midway.agrees_start (midway : Midway written definitions owner address [] s known parent awaiting) :
    Agrees s (defaultsBefore definitions owner []) := by
  intro name k bare
  rw [defaultsBefore]
  have nothing_less : keyLess k [] = false := by cases k <;> rfl
  by_cases same : name = owner
  · subst same
    have none_read : (s.objects address).arguments = [] := List.forall₂_nil_left_iff.mp midway.own
    rw [Register.defaultOf, midway.found bare, Option.bind_some, none_read]
    simp only [nothing_less, Configuration.keyLess_irrefl, Bool.false_eq_true, and_false, or_self, if_false]
    rfl
  · rw [midway.others name k bare same]
    simp only [same, false_and, or_false]

/-- The properties of a definition are read before its arguments. -/
theorem Midway.loadProperties {conversions : Conversions} {properties : List (Str × Stored)} {docs : List (Str × Json)}
    (paired : Paired (fun v j => v.toJson (valueTypes written) = .ok j) properties docs)
    (restorable : ∀ p ∈ properties, Restorable conversions (defaultsBefore definitions owner []) p.2)
    (keeps : ChildrenKeepMaps known properties)
    (loses : ∀ n ∈ properties.flatMap fun p => mapNames p.2, componentName n ≠ none → lost n)
    (midway : Midway written definitions owner address [] s known parent awaiting) :
    ∃ s', Definitions.loadProperties (createValue conversions) address (docs.map fun m => (some m.1, m.2)) s = .ok s' ∧
      Midway written definitions owner address [] s' (fun n => known n ∨ n ∈ properties.flatMap fun p => mapNames p.2)
        parent awaiting ∧
      Frame lost address s s' ∧
      s'.objects address = { s.objects address with properties := (s'.objects address).properties } ∧
      ∀ n ∈ properties.flatMap fun p => mapNames p.2, componentName n ≠ none → Emptied address s' n := by
  induction paired generalizing s known with
  | nil =>
      exact ⟨s, rfl, { midway with tidy := midway.tidy.congr fun n _ => by simp }, .refl _ _ _, rfl,
        List.forall_mem_nil _⟩
  | @cons property member rest docs first _ ih =>
      obtain ⟨key, v⟩ := property
      obtain ⟨key', j⟩ := member
      obtain ⟨same, output⟩ := first
      dsimp only at same output
      subst same
      obtain ⟨w, added, created, _, registers⟩ :=
        createValue_restorable midway.path midway.agrees_start (restorable (key, v) List.mem_cons_self)
          (midway.tidy.keepsMaps keeps.1) output
      rw [List.flatMap_cons] at loses
      obtain ⟨loses_first, loses_rest⟩ := List.forall_mem_append.mp loses
      obtain ⟨tidy₁, frame₁, same₁, emptied₁⟩ := midway.tidy.addMentioned midway.inside registers loses_first
      obtain ⟨tidy₂, frame₂⟩ := tidy₁.modify lost (f := fun object =>
        { object with properties := insert key w object.properties }) rfl rfl rfl
      have object := (addPlaceholders s added).modify_self address fun object =>
        { object with properties := insert key w object.properties }
      rw [same₁] at object
      have whole := frame₁.trans frame₂
      have none_read := List.forall₂_nil_left_iff.mp midway.own
      have midway₂ := midway.frame [] whole tidy₂ (by rw [object, none_read]; exact .nil)
      obtain ⟨s₃, runs, midway₃, frame₃, object₃, emptied₃⟩ :=
        ih (fun p inside => restorable p (List.mem_cons_of_mem _ inside)) keeps.2 loses_rest midway₂
      refine ⟨s₃, ?_, ?_, whole.trans frame₃, ?_, List.forall_mem_append.mpr ⟨fun n there bracketed => ?_, emptied₃⟩⟩
      · rw [List.map_cons]
        simp only [Definitions.loadProperties, created, keyOf, bind, Except.bind]
        exact runs
      · exact { midway₃ with tidy := midway₃.tidy.congr fun n _ => by simp [or_assoc] }
      · rw [object₃, object]
      · exact midway₂.tidy.emptied midway₃.tidy frame₃
          (tidy₁.emptied tidy₂ frame₂ (emptied₁ n there bracketed))

end

end Experimaestro.Definitions

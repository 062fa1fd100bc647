/-
Module: Experimaestro.Definitions.RestoredTypes
Layer: Definitions
Purpose: `Register::load` on the type definitions of another register, one after the other. `Restoring` says what the
  register is when some definitions have been read. The next definition is read too, unless it has an argument
  with a constant or the name of a predefined type; either ends the call. A definition whose name ends in `[]` has
  an object, but a later argument or map of this type may give the name to a new placeholder.
Imports: Experimaestro.Definitions.Restoring
Trusted boundary: none (fully proved)
Main exports: knownAfter, parentAfter, DefinitionsKeepMaps, Replaced, Kept, Restoring, Restoring.loadType,
  Restoring.loadType_refused, Restoring.loadTypes, Restoring.loadTypes_refused
Open obligations: none
-/
import Experimaestro.Definitions.Restoring

namespace Experimaestro.Definitions

open Experimaestro.Configuration (Conversions Json Ordered Str Value componentName insert keyLess lookup lookup_insert
  storeMembers str)

/-! ### What has been read -/

section

variable (written : Register Stored)

/-- The name of the parent of a type. -/
def parentNameOf (type : TypeObject Stored) : Option Str := type.parent.map fun p => (written.objects p).name

/-- The names that the register has after the definition of a type has been read. -/
def definitionNames (d : Str × TypeObject Stored) : List Str :=
  d.1 :: ((parentNameOf written d.2).toList ++ (d.2.properties.flatMap fun p => mapNames p.2) ++
    d.2.arguments.flatMap fun a => argumentNames written a.2)

/-- The names that the register has after some definitions have been read. -/
def knownAfter (read : List (Str × TypeObject Stored)) : List Str :=
  predefinedNames ++ read.flatMap (definitionNames written)

/-- The parents after some definitions have been read. -/
def parentAfter (read : List (Str × TypeObject Stored)) (name : Str) : Option Str :=
  if name ∈ predefinedNames then (if name = str "any" then none else some (str "any"))
  else (lookup name read).bind (parentNameOf written)

/-- The names that are known when the properties of a definition are read. -/
def knownOpened (read : List (Str × TypeObject Stored)) (d : Str × TypeObject Stored) (n : Str) : Prop :=
  (n ∈ knownAfter written read ∨ n = d.1) ∨ n ∈ (parentNameOf written d.2).toList

/-- The names that are known when the arguments of a definition are read. -/
def knownWithin (read : List (Str × TypeObject Stored)) (d : Str × TypeObject Stored) (n : Str) : Prop :=
  knownOpened written read d n ∨ n ∈ (store d.2.properties).flatMap fun p => mapNames p.2

/-- The properties and the defaults of a definition keep their maps. -/
structure DefinitionKeepsMaps (read : List (Str × TypeObject Stored)) (d : Str × TypeObject Stored) : Prop where
  properties : ChildrenKeepMaps (knownOpened written read d) (store d.2.properties)
  defaults : ArgumentsKeepMaps written (knownWithin written read d) (store d.2.arguments)

/-- So do the definitions that are read later. -/
def DefinitionsKeepMaps : (read later : List (Str × TypeObject Stored)) → Prop
  | _, [] => True
  | read, d :: rest => DefinitionKeepsMaps written read d ∧ DefinitionsKeepMaps (read ++ [d]) rest

/-- While a definition is read, a name with `[]` loses its entry to a placeholder. -/
def DefinitionReplaces (read : List (Str × TypeObject Stored)) (d : Str × TypeObject Stored) (n : Str) : Prop :=
  (componentName n ≠ none ∧ n ∈ (store d.2.properties).flatMap fun p => mapNames p.2) ∨
    Replaces written (knownWithin written read d) (store d.2.arguments) n

/-- A name with `[]` loses its entry to a placeholder while the later definitions are read. -/
def Replaced (n : Str) : (read later : List (Str × TypeObject Stored)) → Prop
  | _, [] => False
  | read, d :: rest => DefinitionReplaces written read d n ∨ Replaced n (read ++ [d]) rest

/-- A type is as its definition says. -/
structure RestoredType (s : Register Stored) (type type' : TypeObject Stored) : Prop where
  parent : parentNameOf s type' = parentNameOf written type
  description : type'.description = type.description
  arguments : Paired (Loaded written s) (store type.arguments) type'.arguments

/-- The object of a definition, and its entry in the table, unless that has been replaced. -/
structure Kept (s : Register Stored) (replaced : Prop) (d : Str × TypeObject Stored) (a : ℕ) : Prop where
  inside : a < s.size
  named : (s.objects a).name = d.1
  restored : RestoredType written s d.2 (s.objects a)
  entry : ¬ replaced → lookup d.1 s.types = some a
  emptied : replaced → ∃ b, lookup d.1 s.types = some b ∧ s.objects b = { name := d.1, placeholder := true }

/-- The state in which some definitions have been read. -/
structure Restoring (read : List (Str × TypeObject Stored)) (s : Register Stored) : Prop where
  tidy : Tidy s (· ∈ knownAfter written read) (parentAfter written read)
    fun n => n ∉ predefinedNames ∧ lookup n read = none
  predefined : ∀ n ∈ predefinedNames, ∃ a, lookup n s.types = some a ∧ (s.objects a).placeholder = false
  kept : ∀ before d after, read = before ++ d :: after →
    ∃ a, Kept written s (Replaced written d.1 (before ++ [d]) after) d a
  blank : ∀ n a, lookup n read = none → lookup n s.types = some a →
    (s.objects a).description = [] ∧ (s.objects a).arguments = []
  tasks : s.tasks = []

end

section

variable {written : Register Stored} {s s' : Register Stored} {n : Str} {read : List (Str × TypeObject Stored)}

theorem Replaces.bracketed {known : Str → Prop} {arguments : List (Str × Argument Stored)}
    (replaces : Replaces written known arguments n) : componentName n ≠ none := by
  induction arguments generalizing known with
  | nil => exact absurd replaces id
  | cons a rest ih =>
      rcases replaces with ⟨bracketed, _⟩ | later
      · exact bracketed
      · exact ih later

theorem DefinitionReplaces.bracketed {d : Str × TypeObject Stored} (replaces : DefinitionReplaces written read d n) :
    componentName n ≠ none := by
  rcases replaces with ⟨bracketed, _⟩ | later
  · exact bracketed
  · exact later.bracketed

theorem Replaced.bracketed {later : List (Str × TypeObject Stored)} (replaced : Replaced written n read later) :
    componentName n ≠ none := by
  induction later generalizing read with
  | nil => exact absurd replaced id
  | cons d rest ih =>
      rcases replaced with now | later
      · exact now.bracketed
      · exact ih later

/-- One more definition. -/
theorem replaced_append {later : List (Str × TypeObject Stored)} {d : Str × TypeObject Stored} :
    Replaced written n read (later ++ [d]) ↔ Replaced written n read later ∨
      DefinitionReplaces written (read ++ later) d n := by
  induction later generalizing read with
  | nil =>
      rw [List.nil_append, List.append_nil, Replaced, Replaced, Replaced]
      exact or_comm
  | cons e rest ih =>
      rw [List.cons_append, Replaced, Replaced, ih, List.append_assoc, List.singleton_append, or_assoc]

theorem parentNameOf_grows (grows : Grows s s') {type : TypeObject Stored}
    (closed : ∀ p, type.parent = some p → p < s.size) : parentNameOf s' type = parentNameOf s type := by
  rw [parentNameOf, parentNameOf]
  cases up : type.parent with
  | none => rfl
  | some p => rw [Option.map_some, Option.map_some, grows.name_eq p (closed p up)]

/-- A type stays as its definition says. -/
theorem RestoredType.grows {type type' : TypeObject Stored} (restored : RestoredType written s type type')
    (grows : Grows s s') (closed : ∀ p, type'.parent = some p → p < s.size) :
    RestoredType written s' type type' where
  parent := (parentNameOf_grows grows closed).trans restored.parent
  description := restored.description
  arguments := restored.arguments.imp fun _ _ related => ⟨related.1, related.2.frame grows⟩

/-- The table has no part in it. -/
theorem RestoredType.withTypes {type type' : TypeObject Stored} (restored : RestoredType written s type type')
    (types : List (Str × ℕ)) : RestoredType written { s with types := types } type type' where
  parent := restored.parent
  description := restored.description
  arguments := restored.arguments.imp fun _ other related =>
    ⟨related.1, { related.2 with type := (nameOf_eq _ other.2.type).trans ((nameOf_eq s _).symm.trans related.2.type) }⟩

end

/-- What is found in the members of a type. -/
theorem lookup_typeMembers (s : Register Stored) (type : TypeObject Stored) (arguments properties : List (Str × Json))
    (key : Str) : lookup key (typeMembers s type arguments properties) =
      if key = str "parent" then (parentNameOf s type).map .string
      else if key = str "description" then if type.description = [] then none else some (.string type.description)
      else if key = str "properties" then tableJson properties
      else if key = str "arguments" then tableJson arguments
      else none := by
  unfold typeMembers parentNameOf
  simp only [lookup_addMember, lookup, Option.or_none, eq_comm (a := key), Option.map_map]
  by_cases is_parent : str "parent" = key
  · subst is_parent
    simp +decide [Function.comp_def]
  · rw [if_neg is_parent, if_neg is_parent]
    by_cases is_description : str "description" = key
    · subst is_description
      simp +decide
    · rw [if_neg is_description, if_neg is_description]
      by_cases is_properties : str "properties" = key
      · subst is_properties
        simp +decide
      · rw [if_neg is_properties, if_neg is_properties]

/-- The loop over a table that has been written. -/
theorem items_tableJson (members : List (Str × Json)) :
    items ((tableJson members).getD (.object [])) = (store members).map fun m => (some m.1, m.2) := by
  rw [tableJson]
  cases members with
  | nil => rfl
  | cons member rest => rfl

/-! ### The beginning of a definition -/

section

variable {written : Register Stored} {read : List (Str × TypeObject Stored)} {s : Register Stored}

theorem declaredDefault_eq_none {definitions : List (Str × TypeObject Stored)} {name : Str}
    (missing : lookup name definitions = none) (key : Str) : declaredDefault definitions name key = none := by
  rw [declaredDefault, missing, Option.bind_none]

/-- The defaults are those of the definitions that have been read. -/
theorem Restoring.defaultOf (restoring : Restoring written read s)
    (distinct : ∀ d ∈ read, (d.2.arguments.map Prod.fst).Nodup) {name : Str} (bare : componentName name = none)
    (key : Str) : (s.defaultOf name key).map contentOf = (declaredDefault read name key).map contentOf := by
  cases found : lookup name read with
  | none =>
      rw [declaredDefault_eq_none found, Register.defaultOf]
      cases there : lookup name s.types with
      | none => rfl
      | some a =>
          rw [Option.bind_some, (restoring.blank name a found there).2]
          rfl
  | some type =>
      have member := Configuration.mem_of_lookup found
      obtain ⟨before, after, split⟩ := List.append_of_mem member
      obtain ⟨a, kept⟩ := restoring.kept before (name, type) after split
      have there : lookup name s.types = some a := kept.entry fun replaced => replaced.bracketed bare
      have ordered := Configuration.ordered_keys kept.restored.arguments.keys (ordered_store type.arguments)
      have paired := kept.restored.arguments.lookup key
      rw [lookup_store (distinct (name, type) member)] at paired
      rw [declaredDefault, found, Option.bind_some, Register.defaultOf, there, Option.bind_some,
        store_of_ordered ordered]
      generalize lookup key type.arguments = declared at paired
      generalize lookup key (s.objects a).arguments = stored at paired
      cases paired with
      | none => rfl
      | some loaded => exact loaded.default

/-- The object of the definition is opened. -/
theorem Restoring.openType (restoring : Restoring written read s) (lost : Str → Prop) {name : Str}
    (free : name ∉ predefinedNames)
    (unread : lookup name read = none) :
    ∃ address s', Definitions.openType s name = .ok (address, s') ∧ lookup name s'.types = some address ∧
      Tidy s' (fun n => n ∈ knownAfter written read ∨ n = name) (parentAfter written read)
        (fun n => (n ∉ predefinedNames ∧ lookup n read = none) ∧ n ≠ name) ∧
      Frame lost address s s' ∧ (s'.objects address).description = [] ∧ (s'.objects address).arguments = [] := by
  obtain ⟨address, s', opened, found, _, shape, either⟩ :=
    restoring.tidy.shape.openType ⟨free, unread⟩ (restoring.tidy.orphan name)
  refine ⟨address, s', opened, found,
    ⟨shape, fun n bare unknown => restoring.tidy.orphan n bare fun there => unknown (Or.inl there),
      restoring.tidy.ends⟩, ?_⟩
  rcases either with ⟨_, rfl⟩ | ⟨rfl, rfl⟩
  · obtain ⟨description, arguments⟩ := restoring.blank name address unread found
    refine ⟨.modify rfl, ?_⟩
    rw [s.modify_self]
    exact ⟨description, arguments⟩
  · have missing : lookup name s.types = none := by
      cases before : lookup name s.types with
      | none => rfl
      | some a =>
          have below := (restoring.tidy.shape.sized name a before).1
          have placeholder := restoring.tidy.shape.completed name a before ⟨free, unread⟩
          rw [Definitions.openType, before] at opened
          dsimp only at opened
          rw [if_pos placeholder] at opened
          have last : a = s.size := congrArg Prod.fst (Except.ok.inj opened)
          exact absurd below (last ▸ Nat.lt_irrefl _)
    refine ⟨.addType (Or.inr ⟨rfl, missing⟩) fun _ => missing, ?_⟩
    rw [s.addType_self]
    exact ⟨rfl, rfl⟩

theorem openType_predefined (restoring : Restoring written read s) {name : Str} (predefined : name ∈ predefinedNames) :
    ∃ e, Definitions.openType s name = .error e := by
  obtain ⟨a, found, complete⟩ := restoring.predefined name predefined
  rw [Definitions.openType, found]
  dsimp only
  rw [if_neg (by rw [complete]; exact Bool.false_ne_true)]
  exact ⟨_, rfl⟩

variable {known : Str → Prop} {parent : Str → Option Str} {awaiting : Str → Prop}

theorem loadDescription_restores (tidy : Tidy s known parent awaiting) (lost : Str → Prop) {address : ℕ}
    (blank : (s.objects address).description = []) (text : Str) :
    ∃ s', loadDescription s address (if text = [] then none else some (.string text)) = .ok s' ∧
      Tidy s' known parent awaiting ∧ Frame lost address s s' ∧
      s'.objects address = { s.objects address with description := text } := by
  by_cases empty : text = []
  · refine ⟨s, by rw [if_pos empty]; rfl, tidy, .refl _ _ _, ?_⟩
    rw [empty, ← blank]
  · obtain ⟨tidy', frame⟩ :=
      Tidy.modify tidy lost (f := fun type => { type with description := text }) rfl rfl rfl
    exact ⟨_, by rw [if_neg empty]; rfl, tidy', frame, s.modify_self address _⟩

theorem loadParent_restores (tidy : Tidy s known parent awaiting) (lost : Str → Prop) {owner : Str} {address : ℕ}
    (inside : address < s.size) (named : (s.objects address).name = owner) (orphan : parent owner = none)
    (given : Option Str)
    (ends : ∀ n, ∃ ancestors, Lineage (fun n => if n = owner then given else parent n) n ancestors) :
    ∃ s', loadParent s address (given.map .string) = .ok s' ∧
      Tidy s' (fun n => known n ∨ n ∈ given.toList) (fun n => if n = owner then given else parent n) awaiting ∧
      Frame lost address s s' ∧ parentNameOf s' (s'.objects address) = given ∧
      ∃ p, s'.objects address = { s.objects address with parent := p } := by
  cases given with
  | none =>
      have same : (fun n => if n = owner then none else parent n) = parent := by
        funext n
        split
        · next here => rw [here, orphan]
        · rfl
      rw [same]
      refine ⟨s, rfl, tidy.congr fun n _ => by simp, .refl _ _ _, ?_, (s.objects address).parent, rfl⟩
      obtain parents | ⟨_, none⟩ := tidy.shape.parents address inside
      · rwa [named, orphan] at parents
      · rw [parentNameOf, none]
        rfl
  | some p =>
      obtain ⟨tidy', frame, q, object, _, parent_named⟩ := tidy.setParent lost inside named orphan ends
      refine ⟨_, rfl, tidy'.congr fun n _ => by simp, frame, ?_, some q, object⟩
      rw [object, parentNameOf, Option.map_some, parent_named]

end

/-! ### A definition -/

theorem loadProperties_tableJson (createValue : ValueReader Stored) (address : ℕ) (s : Register Stored)
    (members : List (Str × Json)) :
    ((tableJson members).elim (.ok s) fun j => loadProperties createValue address (items j) s) =
      loadProperties createValue address ((store members).map fun m => (some m.1, m.2)) s := by
  cases members with
  | nil => rfl
  | cons member rest => rfl

/-- What a definition has to be for its arguments and properties to be read. -/
structure Readable (conversions : Conversions) (definitions : List (Str × TypeObject Stored))
    (d : Str × TypeObject Stored) : Prop where
  keys : (d.2.arguments.map Prod.fst).Nodup
  property_keys : (d.2.properties.map Prod.fst).Nodup
  defaults : ∀ a ∈ d.2.arguments, ∀ v, a.2.defaultValue = some v →
    Restorable conversions (defaultsBefore definitions d.1 a.1) v
  properties : ∀ p ∈ d.2.properties, Restorable conversions (defaultsBefore definitions d.1 []) p.2

/-- A definition that is accepted: it has a name of its own, and none of its arguments has a constant. -/
structure Accepted (d : Str × TypeObject Stored) : Prop where
  name : d.1 ∉ predefinedNames
  constants : ∀ a ∈ d.2.arguments, a.2.constant = none

section

variable {written : Register Stored} {read : List (Str × TypeObject Stored)} {s : Register Stored}
  {d : Str × TypeObject Stored} {rest : List (Str × TypeObject Stored)}

/-- The parents after one more definition. -/
theorem parentAfter_append (free : d.1 ∉ predefinedNames) (unread : lookup d.1 read = none) :
    parentAfter written (read ++ [d]) =
      fun n => if n = d.1 then parentNameOf written d.2 else parentAfter written read n := by
  funext n
  obtain ⟨name, type⟩ := d
  rw [parentAfter, parentAfter, lookup_append, lookup, lookup]
  by_cases same : n = name
  · subst same
    rw [if_neg free, if_pos rfl, if_pos rfl, unread, Option.none_or, Option.bind_some]
  · rw [if_neg same, if_neg (Ne.symm same), Option.or_none]

/-- Definitions only add parents. -/
theorem parentAfter_grows (later : List (Str × TypeObject Stored)) (n p : Str)
    (up : parentAfter written read n = some p) : parentAfter written (read ++ later) n = some p := by
  rw [parentAfter] at up ⊢
  split
  · next predefined => rwa [if_pos predefined] at up
  · next free =>
    rw [if_neg free] at up
    obtain ⟨type, found, parent⟩ := Option.bind_eq_some_iff.mp up
    rw [lookup_append, found, Option.some_or, Option.bind_some, parent]

/-- The definitions before one are those of smaller names. -/
theorem declaredDefault_before (ordered : Ordered (read ++ d :: rest)) (name key : Str) :
    (if keyLess name d.1 = true then declaredDefault (read ++ d :: rest) name key else none) =
      declaredDefault read name key := by
  have before := lookup_before (k := name) ordered
  rw [declaredDefault, declaredDefault, ← before]
  split <;> rfl

theorem lookup_read_of_ordered (ordered : Ordered (read ++ d :: rest)) : lookup d.1 read = none := by
  have before := lookup_before (k := d.1) ordered
  rwa [Configuration.keyLess_irrefl, if_neg Bool.false_ne_true, eq_comm] at before

theorem declaredDefault_own (ordered : Ordered (read ++ d :: rest)) (keys : (d.2.arguments.map Prod.fst).Nodup)
    (key : Str) :
    declaredDefault (read ++ d :: rest) d.1 key = (lookup key (store d.2.arguments)).bind Argument.defaultValue := by
  obtain ⟨name, type⟩ := d
  rw [declaredDefault, lookup_append, lookup_read_of_ordered ordered, Option.none_or, lookup, if_pos rfl,
    Option.bind_some, lookup_store keys]

/-- The beginning of a definition: its object is opened, with its description, its parent and its properties. -/
theorem Restoring.begin {conversions : Conversions} (restoring : Restoring written read s) (lost : Str → Prop)
    (ordered : Ordered (read ++ d :: rest))
    (readable : ∀ e ∈ read ++ d :: rest, Readable conversions (read ++ d :: rest) e) (free : d.1 ∉ predefinedNames)
    (keeps : DefinitionKeepsMaps written read d)
    (loses : ∀ n ∈ (store d.2.properties).flatMap fun p => mapNames p.2, componentName n ≠ none → lost n)
    (ends : ∀ n, ∃ ancestors, Lineage (parentAfter written (read ++ [d])) n ancestors) {j : Json}
    (output : typeJson written d.2 = .ok j) :
    ∃ address s' docs, Paired (fun a i => argumentJson written a = .ok i) (store d.2.arguments) docs ∧
      (loadType (createValue conversions) s d.1 j = do
        let s ← loadArguments (createValue conversions) address d.1 (docs.map fun m => (some m.1, m.2)) s'
        .ok { s with types := insert (s.objects address).name address s.types }) ∧
      Midway written (read ++ d :: rest) d.1 address [] s' (knownWithin written read d)
        (parentAfter written (read ++ [d])) (fun n => (n ∉ predefinedNames ∧ lookup n read = none) ∧ n ≠ d.1) ∧
      Frame lost address s s' ∧ parentNameOf s' (s'.objects address) = parentNameOf written d.2 ∧
      (s'.objects address).description = d.2.description ∧
      ∀ n ∈ (store d.2.properties).flatMap fun p => mapNames p.2, componentName n ≠ none → Emptied address s' n := by
  have unread := lookup_read_of_ordered ordered
  have here := readable d (List.mem_append_right _ List.mem_cons_self)
  obtain ⟨arguments, properties, arguments_written, properties_written, rfl⟩ := typeJson_eq_ok.mp output
  obtain ⟨address, s₁, opened, found₁, tidy₁, frame₁, blank, no_arguments⟩ :=
    restoring.openType lost free unread
  obtain ⟨inside₁, named₁⟩ := tidy₁.shape.sized d.1 address found₁
  obtain ⟨s₂, described, tidy₂, frame₂, object₂⟩ := loadDescription_restores tidy₁ lost blank d.2.description
  have inside₂ := Nat.lt_of_lt_of_le inside₁ frame₂.size_le
  have named₂ := (frame₂.name inside₁).trans named₁
  have orphan : parentAfter written read d.1 = none := by
    rw [parentAfter, if_neg free, unread, Option.bind_none]
  rw [parentAfter_append free unread] at ends ⊢
  obtain ⟨s₃, parented, tidy₃, frame₃, parent_same, p, object₃⟩ :=
    loadParent_restores tidy₂ lost inside₂ named₂ orphan (parentNameOf written d.2) ends
  have frame := (frame₁.trans frame₂).trans frame₃
  have inside₃ := Nat.lt_of_lt_of_le inside₂ frame₃.size_le
  have named₃ := (frame₃.name inside₂).trans named₂
  have midway : Midway written (read ++ d :: rest) d.1 address [] s₃
      (knownOpened written read d) (fun n => if n = d.1 then parentNameOf written d.2 else parentAfter written read n)
      (fun n => (n ∉ predefinedNames ∧ lookup n read = none) ∧ n ≠ d.1) := by
    refine ⟨tidy₃, inside₃, named₃, ?_, ?_, ?_⟩
    · obtain ⟨a, there, _⟩ := restoring.predefined (str "path") (by decide)
      rw [frame.found _ a (Or.inl (by decide)) there]
      rfl
    · intro name key bare other
      rw [frame.defaultOf restoring.tidy.shape tidy₃.shape bare (named₃ ▸ Ne.symm other),
        restoring.defaultOf (fun e inside => (readable e (List.mem_append_left _ inside)).keys) bare key,
        declaredDefault_before ordered]
    · rw [object₃, object₂, no_arguments]
      exact .nil
  have restorable : ∀ q ∈ store d.2.properties,
      Restorable conversions (defaultsBefore (read ++ d :: rest) d.1 []) q.2 :=
    fun q inside => here.properties q ((mem_store here.property_keys).mp inside)
  obtain ⟨s₄, loaded, midway₄, frame₄, object₄, emptied⟩ :=
    midway.loadProperties (membersJson_forall properties_written : Paired _ _ _).store restorable keeps.properties loses
  refine ⟨address, s₄, store arguments, (membersJson_forall arguments_written : Paired _ _ _).store, ?_, ?_,
    frame.trans frame₄, ?_, ?_, emptied⟩
  · have at_description := lookup_typeMembers written d.2 arguments properties (str "description")
    have at_parent := lookup_typeMembers written d.2 arguments properties (str "parent")
    have at_properties := lookup_typeMembers written d.2 arguments properties (str "properties")
    have at_arguments := lookup_typeMembers written d.2 arguments properties (str "arguments")
    simp +decide only [if_true, if_false] at at_description at_parent at_properties at_arguments
    rw [loadType, at_description, at_parent, at_properties, at_arguments, items_tableJson]
    simp only [opened, described, parented, loadProperties_tableJson, loaded, bind, Except.bind]
  · exact midway₄
  · have same : (s₄.objects address).parent = (s₃.objects address).parent := by rw [object₄]
    have grown := parentNameOf_grows frame₄.grows fun q => tidy₃.shape.closed address q inside₃
    rw [← parent_same, ← grown, parentNameOf, parentNameOf, same]
  · rw [object₄, object₃, object₂]

/-- The names after one more definition. -/
theorem mem_knownAfter_append {conversions : Conversions} {definitions : List (Str × TypeObject Stored)}
    (readable : Readable conversions definitions d) (n : Str) :
    n ∈ knownAfter written (read ++ [d]) ↔ knownWithin written read d n ∨
      n ∈ (store d.2.arguments).flatMap fun a => argumentNames written a.2 := by
  simp only [knownWithin, knownOpened, knownAfter, definitionNames, List.flatMap_append, List.flatMap_cons, List.flatMap_nil,
    List.append_nil, List.mem_append, List.mem_cons, List.mem_flatMap, mem_store readable.property_keys, mem_store readable.keys,
    or_assoc]

/-- The definitions come in the order of their names. -/
theorem read_ne_of_ordered (ordered : Ordered (read ++ d :: rest)) {e : Str × TypeObject Stored} (inside : e ∈ read) :
    e.1 ≠ d.1 := by
  intro same
  have less := (List.pairwise_append.mp ordered).2.2 e inside d List.mem_cons_self
  rw [same, Configuration.keyLess_irrefl] at less
  cases less

/-- The names that wait for their definition, after one more. -/
theorem lookup_concat_eq_none {n : Str} :
    lookup n (read ++ [d]) = none ↔ lookup n read = none ∧ d.1 ≠ n := by
  rw [lookup_append, Option.or_eq_none_iff, lookup, lookup]
  split
  · next same => simp [same]
  · next other => simp [other]

/-- An earlier definition while a later one is read and stored. -/
theorem Kept.later {s' : Register Stored} {known known' : Str → Prop} {parent parent' : Str → Option Str}
    {awaiting awaiting' : Str → Prop} (tidy : Tidy s known parent awaiting) (tidy' : Tidy s' known' parent' awaiting')
    {lost : Str → Prop} {address : ℕ} (frame : Frame lost address s s') {name : Str}
    (named : (s'.objects address).name = name) {e : Str × TypeObject Stored} (other : e.1 ≠ name) {replaced : Prop}
    {a : ℕ} (kept : Kept written s replaced e a) (emptied : lost e.1 → Emptied address s' e.1) :
    Kept written { s' with types := insert name address s'.types } (replaced ∨ lost e.1) e a := by
  have object := frame.old a kept.inside (frame.other_address named kept.inside (kept.named ▸ other))
  have found : lookup e.1 (insert name address s'.types) = lookup e.1 s'.types :=
    (lookup_insert _ _ _ _).trans (if_neg (Ne.symm other))
  refine ⟨Nat.lt_of_lt_of_le kept.inside frame.size_le, object ▸ kept.named, ?_, fun stays => ?_, fun replaced => ?_⟩
  · have again : { s' with types := insert name address s'.types }.objects a = s.objects a := object
    rw [again]
    exact (kept.restored.grows frame.grows fun p => tidy.shape.closed a p kept.inside).withTypes _
  · rw [not_or] at stays
    rw [found]
    exact frame.found _ a (Or.inr stays.2) (kept.entry stays.1)
  · have empty : Emptied address s' e.1 := by
      rcases replaced with before | now
      · obtain ⟨b, there, blank⟩ := kept.emptied before
        obtain ⟨below, its_name⟩ := tidy.shape.sized e.1 b there
        exact tidy.emptied tidy' frame ⟨b, there, frame.other_address named below (its_name ▸ other), blank⟩
      · exact emptied now
    obtain ⟨b, there, _, blank⟩ := empty
    exact ⟨b, found.trans there, blank⟩

/-- The end of a definition: its object is stored in the table. -/
theorem Restoring.finish {conversions : Conversions} (restoring : Restoring written read s)
    (ordered : Ordered (read ++ d :: rest)) (here : Readable conversions (read ++ d :: rest) d)
    (free : d.1 ∉ predefinedNames) {address : ℕ} {s' : Register Stored}
    (midway : Midway written (read ++ d :: rest) d.1 address (store d.2.arguments) s'
      (fun n => knownWithin written read d n ∨ n ∈ (store d.2.arguments).flatMap fun a => argumentNames written a.2)
      (parentAfter written (read ++ [d])) (fun n => (n ∉ predefinedNames ∧ lookup n read = none) ∧ n ≠ d.1))
    (frame : Frame (DefinitionReplaces written read d) address s s')
    (emptied : ∀ n, DefinitionReplaces written read d n → Emptied address s' n)
    (restored : RestoredType written s' d.2 (s'.objects address)) :
    Restoring written (read ++ [d]) { s' with types := insert (s'.objects address).name address s'.types } := by
  rw [midway.named]
  have tidy := midway.tidy.store midway.inside midway.named fun waiting => waiting.2 rfl
  have found (n : Str) : lookup n (insert d.1 address s'.types) = if d.1 = n then some address else lookup n s'.types :=
    lookup_insert _ _ _ _
  refine ⟨⟨?_, ?_, tidy.ends⟩, ?_, ?_, ?_, frame.tasks.trans restoring.tasks⟩
  · apply tidy.shape.congr (fun n _ => (mem_knownAfter_append here n).symm) fun _ => rfl
    intro n waiting
    obtain ⟨before, other⟩ := lookup_concat_eq_none.mp waiting.2
    exact ⟨⟨waiting.1, before⟩, Ne.symm other⟩
  · exact fun n bare unknown => tidy.orphan n bare fun there => unknown ((mem_knownAfter_append here n).mpr there)
  · intro n predefined
    have bare : ∀ n ∈ predefinedNames, componentName n = none := by decide
    obtain ⟨a, there, complete⟩ := restoring.predefined n predefined
    obtain ⟨inside, named⟩ := restoring.tidy.shape.sized n a there
    have other : n ≠ d.1 := fun same => free (same ▸ predefined)
    refine ⟨a, ?_, ?_⟩
    · rw [found, if_neg (Ne.symm other)]
      exact frame.found n a (Or.inl (bare n predefined)) there
    · rw [← complete, ← frame.old a inside (frame.other_address midway.named inside (named ▸ other))]
  · intro before e after split
    rcases split_concat split with ⟨rfl, rfl, rfl⟩ | ⟨after, rfl, rfl⟩
    · refine ⟨address, midway.inside, midway.named, restored.withTypes _, fun _ => ?_, fun none => absurd none id⟩
      rw [found, if_pos rfl]
    · have other := read_ne_of_ordered ordered (List.mem_append_right before List.mem_cons_self)
      obtain ⟨a, kept⟩ := restoring.kept before e after rfl
      have list : before ++ [e] ++ after = before ++ e :: after := by simp
      rw [replaced_append, list]
      exact ⟨a, kept.later restoring.tidy midway.tidy frame midway.named other (emptied e.1)⟩
  · intro n a unread there
    obtain ⟨before, other⟩ := lookup_concat_eq_none.mp unread
    rw [found, if_neg other] at there
    rcases frame.object restoring.tidy.shape midway.tidy.shape (midway.named ▸ other) there with
      ⟨old, object⟩ | ⟨_, object⟩
    · rw [object]
      exact restoring.blank n a before old
    · rw [object]
      exact ⟨rfl, rfl⟩

/-- An accepted definition is read. -/
theorem Restoring.loadType {conversions : Conversions} (restoring : Restoring written read s)
    (ordered : Ordered (read ++ d :: rest))
    (readable : ∀ e ∈ read ++ d :: rest, Readable conversions (read ++ d :: rest) e) (accepted : Accepted d)
    (keeps : DefinitionKeepsMaps written read d)
    (ends : ∀ n, ∃ ancestors, Lineage (parentAfter written (read ++ [d])) n ancestors) {j : Json}
    (output : typeJson written d.2 = .ok j) :
    ∃ s', Definitions.loadType (createValue conversions) s d.1 j = .ok s' ∧ Restoring written (read ++ [d]) s' := by
  have here := readable d (List.mem_append_right _ List.mem_cons_self)
  obtain ⟨address, s₁, docs, paired, steps, midway, frame, parent, description, emptied⟩ :=
    restoring.begin (DefinitionReplaces written read d) ordered readable accepted.name keeps
      (fun n there bracketed => Or.inl ⟨bracketed, there⟩) ends output
  have member (a : Str × Argument Stored) (inside : a ∈ store d.2.arguments) : a ∈ d.2.arguments :=
    (mem_store here.keys).mp inside
  obtain ⟨s₂, loaded, midway', frame', object, emptied'⟩ :=
    Midway.loadArguments paired (fun a inside => accepted.constants a (member a inside))
      (fun a inside => here.defaults a (member a inside)) keeps.defaults (ordered_store d.2.arguments)
      (declaredDefault_own ordered here.keys) midway
  have parented : (s₂.objects address).parent = (s₁.objects address).parent := by rw [object]
  have grown := parentNameOf_grows frame'.grows fun p => midway.tidy.shape.closed address p midway.inside
  have both (n : Str) (replaces : DefinitionReplaces written read d n) : Emptied address s₂ n := by
    rcases replaces with ⟨bracketed, there⟩ | later
    · exact midway.tidy.emptied midway'.tidy frame' (emptied n there bracketed)
    · exact emptied' n later
  refine ⟨_, ?_, restoring.finish ordered here accepted.name midway'
    (frame.trans (frame'.mono fun _ => Or.inr)) both ⟨?_, ?_, midway'.own⟩⟩
  · rw [steps, loaded]
    rfl
  · rw [← parent, ← grown, parentNameOf, parentNameOf, parented]
  · rw [object, description]

/-- A definition that is not accepted ends the call. -/
theorem Restoring.loadType_refused {conversions : Conversions} (restoring : Restoring written read s)
    (ordered : Ordered (read ++ d :: rest))
    (readable : ∀ e ∈ read ++ d :: rest, Readable conversions (read ++ d :: rest) e) (refused : ¬ Accepted d)
    (keeps : DefinitionKeepsMaps written read d)
    (ends : ∀ n, ∃ ancestors, Lineage (parentAfter written (read ++ [d])) n ancestors) {j : Json}
    (output : typeJson written d.2 = .ok j) :
    ∃ e, Definitions.loadType (createValue conversions) s d.1 j = .error e := by
  have here := readable d (List.mem_append_right _ List.mem_cons_self)
  by_cases predefined : d.1 ∈ predefinedNames
  · obtain ⟨arguments, properties, _, _, rfl⟩ := typeJson_eq_ok.mp output
    obtain ⟨e, failed⟩ := openType_predefined restoring predefined
    exact ⟨e, by rw [Definitions.loadType, failed]; rfl⟩
  · have fixed : ∃ a ∈ store d.2.arguments, a.2.constant ≠ none := by
      by_contra none_fixed
      push Not at none_fixed
      exact refused ⟨predefined, fun a inside => none_fixed a ((mem_store here.keys).mpr inside)⟩
    obtain ⟨address, s₁, docs, paired, steps, midway, _, _⟩ :=
      restoring.begin (fun _ => True) ordered readable predefined keeps (fun _ _ _ => trivial) ends output
    obtain ⟨e, failed⟩ := Midway.loadArguments_constant paired fixed
      (fun a inside => here.defaults a ((mem_store here.keys).mp inside)) keeps.defaults (ordered_store d.2.arguments)
      (declaredDefault_own ordered here.keys) midway
    exact ⟨e, by rw [steps, failed]; rfl⟩

/-- Fewer definitions have shorter chains of parents. -/
theorem ends_before (ends : ∀ n, ∃ ancestors, Lineage (parentAfter written (read ++ d :: rest)) n ancestors) (n : Str) :
    ∃ ancestors, Lineage (parentAfter written (read ++ [d])) n ancestors := by
  obtain ⟨ancestors, line⟩ := ends n
  have grows : ∀ n p, parentAfter written (read ++ [d]) n = some p →
      parentAfter written ((read ++ [d]) ++ rest) n = some p := parentAfter_grows rest
  rw [List.append_assoc, List.singleton_append] at grows
  obtain ⟨before, earlier, _⟩ := line.earlier grows
  exact ⟨before, earlier⟩

/-- All definitions are read, where each of them is accepted. -/
theorem Restoring.loadTypes {conversions : Conversions} {docs : List (Str × Json)}
    (paired : Paired (fun type j => typeJson written type = .ok j) rest docs) (ordered : Ordered (read ++ rest))
    (readable : ∀ e ∈ read ++ rest, Readable conversions (read ++ rest) e) (accepted : ∀ e ∈ rest, Accepted e)
    (keeps : DefinitionsKeepMaps written read rest)
    (ends : ∀ n, ∃ ancestors, Lineage (parentAfter written (read ++ rest)) n ancestors)
    (restoring : Restoring written read s) :
    ∃ s', Definitions.loadTypes (createValue conversions) docs s = .ok s' ∧ Restoring written (read ++ rest) s' := by
  induction paired generalizing read s with
  | nil => exact ⟨s, rfl, by rwa [List.append_nil]⟩
  | @cons d doc rest docs first _ ih =>
      obtain ⟨name, j⟩ := doc
      obtain ⟨same, output⟩ := first
      dsimp only at same output
      subst same
      obtain ⟨s₁, loaded, restoring₁⟩ :=
        restoring.loadType ordered readable (accepted d List.mem_cons_self) keeps.1 (ends_before ends) output
      have split : read ++ d :: rest = (read ++ [d]) ++ rest := by simp
      rw [split] at ordered readable ends ⊢
      obtain ⟨s₂, others, restoring₂⟩ :=
        ih ordered readable (fun e inside => accepted e (List.mem_cons_of_mem _ inside)) keeps.2 ends restoring₁
      refine ⟨s₂, ?_, restoring₂⟩
      rw [Definitions.loadTypes, loaded]
      exact others

/-- A definition that is not accepted ends the loop. -/
theorem Restoring.loadTypes_refused {conversions : Conversions} {docs : List (Str × Json)}
    (paired : Paired (fun type j => typeJson written type = .ok j) rest docs) (ordered : Ordered (read ++ rest))
    (readable : ∀ e ∈ read ++ rest, Readable conversions (read ++ rest) e) (refused : ∃ e ∈ rest, ¬ Accepted e)
    (keeps : DefinitionsKeepMaps written read rest)
    (ends : ∀ n, ∃ ancestors, Lineage (parentAfter written (read ++ rest)) n ancestors)
    (restoring : Restoring written read s) :
    ∃ e, Definitions.loadTypes (createValue conversions) docs s = .error e := by
  induction paired generalizing read s with
  | nil =>
      obtain ⟨_, inside, _⟩ := refused
      cases inside
  | @cons d doc rest docs first _ ih =>
      obtain ⟨name, j⟩ := doc
      obtain ⟨same, output⟩ := first
      dsimp only at same output
      subst same
      by_cases accepted : Accepted d
      · obtain ⟨s₁, loaded, restoring₁⟩ :=
          restoring.loadType ordered readable accepted keeps.1 (ends_before ends) output
        have later : ∃ e ∈ rest, ¬ Accepted e := by
          obtain ⟨e, inside, not_accepted⟩ := refused
          rcases List.mem_cons.mp inside with rfl | there
          · exact absurd accepted not_accepted
          · exact ⟨e, there, not_accepted⟩
        have split : read ++ d :: rest = (read ++ [d]) ++ rest := by simp
        rw [split] at ordered readable ends
        obtain ⟨e, failed⟩ := ih ordered readable later keeps.2 ends restoring₁
        refine ⟨e, ?_⟩
        rw [Definitions.loadTypes, loaded]
        exact failed
      · obtain ⟨e, failed⟩ := restoring.loadType_refused ordered readable accepted keeps.1 (ends_before ends) output
        refine ⟨e, ?_⟩
        rw [Definitions.loadTypes, failed]
        rfl

/-- A new register. -/
theorem restoring_fresh (ends : ∀ n, ∃ ancestors, Lineage (parentAfter written []) n ancestors) :
    Restoring written [] Register.fresh where
  tidy := by
    refine ⟨recorded_fresh.shape.congr (fun n _ => by simp [knownNames, knownAfter]) ?_ ?_, ?_, ends⟩
    · intro n
      rw [parentAfter, parentIn, show declared [] n = none from rfl]
      by_cases predefined : n ∈ predefinedNames
      · simp [predefined]
      · simp [predefined, lookup]
    · exact fun n waiting => ⟨waiting.1, rfl⟩
    · intro n _ unknown
      have free : n ∉ predefinedNames := fun inside => unknown (List.mem_append_left _ inside)
      rw [parentAfter, if_neg free]
      rfl
  predefined := by decide
  kept before d after split := by simp at split
  blank n a unread found := by
    obtain ⟨inside, _, _⟩ := fresh_entry found
    have plain : ∀ a < 6, ((Register.fresh : Register Stored).objects a).description = [] := by decide
    exact ⟨plain a inside, (fresh_object inside).2.2.2⟩
  tasks := rfl

end

end Experimaestro.Definitions

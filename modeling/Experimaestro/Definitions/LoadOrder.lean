/-
Module: Experimaestro.Definitions.LoadOrder
Layer: Definitions
Purpose: Type definitions that are loaded in some order, from one file or several. The type graph is the one that
  the definitions describe exactly when each array type is read after its element and after the parents of its
  element and of the ancestors of this one: an array type that comes earlier is a placeholder, or misses
  ancestors, for good.
Imports: Experimaestro.Definitions.Readings, Experimaestro.Configuration.Places (entries of tables)
Trusted boundary: none (fully proved)
Main exports: PlainDefinition, readingsOf, Described, Timely, load_any_order
Open obligations: none
-/
import Mathlib.Data.List.Perm.Basic
import Experimaestro.Configuration.Places
import Experimaestro.Definitions.Readings

namespace Experimaestro.Definitions

open Experimaestro.Configuration (Json Str str lookup insert lookup_insert_again componentName elementName mem_of_lookup
  lookup_of_mem)

variable {V : Type}

/-! ### Definitions -/

/-- The parent that a definition gives. -/
def parentText (e : Json) : Option Str :=
  match find (str "parent") e with
  | some (.string p) => some p
  | _ => none

/-- The name of the type of an argument. -/
def typeText : Json → Str
  | .string text => text
  | value =>
      match find (str "type") value with
      | some (.string text) => text
      | _ => []

/-- The arguments that a definition gives, with the names of their types. -/
def argumentTexts (e : Json) : List (Str × Str) :=
  match find (str "arguments") e with
  | some (.object arguments) => arguments.map fun a => (a.1, typeText a.2)
  | _ => []

/-- An argument without a value. -/
inductive PlainArgument : Json → Prop
  | short (text : Str) : PlainArgument (.string text)
  | long {members : List (Str × Json)} (type : ∃ text, lookup (str "type") members = some (.string text))
      (help : ∀ j, lookup (str "help") members = some j → ∃ text, j = .string text)
      (required : ∀ j, lookup (str "required") members = some j → ∃ b, j = .boolean b)
      (default : lookup (str "default") members = none) (constant : lookup (str "constant") members = none)
      (generator : ∀ j, lookup (str "generator") members = some j → ∃ name, createFromJSON j = .ok name) :
      PlainArgument (.object members)

/-- A definition of a type, without properties. -/
structure PlainDefinition (e : Json) : Prop where
  object : ∃ members, e = .object members
  description : ∀ j, find (str "description") e = some j → ∃ text, j = .string text
  parent : ∀ j, find (str "parent") e = some j → ∃ text, j = .string text
  properties : find (str "properties") e = none
  arguments : ∀ j, find (str "arguments") e = some j →
    ∃ arguments, j = .object arguments ∧ (arguments.map Prod.fst).Nodup ∧ ∀ a ∈ arguments, PlainArgument a.2

/-- The readings of a definition. -/
def readingsOf (definition : Str × Json) : List Reading :=
  .declare definition.1 (parentText definition.2) ::
    (argumentTexts definition.2).map fun a => .argument definition.1 a.1 a.2

/-- A file with some type definitions. -/
def file (definitions : List (Str × Json)) : Json :=
  .object [(str "tasks", .object []), (str "types", .object definitions)]

/-! ### Loading -/

variable (createValue : ValueReader V)

theorem readArgument_plain {value : Json} (plain : PlainArgument value) (s : Register V) (typeName name : Str) :
    ∃ a, readArgument createValue s typeName name value = .ok (typeText value, a, s) := by
  cases plain with
  | short text => exact ⟨_, rfl⟩
  | @long members type help required default constant generator =>
      obtain ⟨text, typed⟩ := type
      have helped : ∃ text, valueString (str "help") [] (.object members) = .ok text := by
        rw [valueString]
        cases found : lookup (str "help") members with
        | none => exact ⟨_, rfl⟩
        | some j =>
            obtain ⟨text, rfl⟩ := help j found
            exact ⟨text, rfl⟩
      have requires : ∃ b, (lookup (str "required") members).elim (.ok true) getBool = .ok b := by
        cases found : lookup (str "required") members with
        | none => exact ⟨_, rfl⟩
        | some j =>
            obtain ⟨b, rfl⟩ := required j found
            exact ⟨b, rfl⟩
      obtain ⟨help, helped⟩ := helped
      obtain ⟨b, requires⟩ := requires
      cases generated : lookup (str "generator") members with
      | none =>
          refine ⟨{ type := .object 0, help := help, required := b }, ?_⟩
          simp only [readArgument, typeText, find, typed, getString, helped, requires, default, constant, generated,
            bind, Except.bind]
      | some j =>
          obtain ⟨name, created⟩ := generator j generated
          refine ⟨{ type := .object 0, help := help, required := b, generator := some name }, ?_⟩
          simp only [readArgument, typeText, find, typed, getString, helped, requires, default, constant, generated,
            created, bind, Except.bind, Except.map]

/-- The parents do not depend on what is read of the arguments. -/
theorem parentIn_arguments (h : List Reading) (owner : Str) (arguments : List (Str × Str)) :
    parentIn (h ++ arguments.map fun a => .argument owner a.1 a.2) = parentIn h := by
  funext n
  have silent : declared (arguments.map fun a => Reading.argument owner a.1 a.2) n = none := by
    apply List.findSome?_eq_none_iff.mpr
    intro r member
    obtain ⟨a, _, rfl⟩ := List.mem_map.mp member
    rfl
  rw [parentIn, parentIn, declared_append, silent, Option.or_none]

/-- The loop over the arguments of a definition. -/
theorem loadArguments_recorded {owner : Str} {address : ℕ} (bare : componentName owner = none)
    (arguments : List (Str × Json)) (plain : ∀ a ∈ arguments, PlainArgument a.2)
    (distinct : (arguments.map Prod.fst).Nodup) {s : Register V} {h : List Reading} (recorded : Recorded s h)
    (found : lookup owner s.types = some address)
    (new : ∀ a ∈ arguments, ∀ earlier, Reading.argument owner a.1 earlier ∉ h)
    (ends : ∀ n, ∃ names, Lineage (parentIn h) n names) :
    ∃ s', loadArguments createValue address owner (arguments.map fun a => (some a.1, a.2)) s = .ok s' ∧
      Recorded s' (h ++ arguments.map fun a => .argument owner a.1 (typeText a.2)) ∧
      lookup owner s'.types = some address := by
  induction arguments generalizing s h with
  | nil => exact ⟨s, rfl, by rwa [List.map_nil, List.append_nil], found⟩
  | cons argument rest ih =>
      obtain ⟨key, value⟩ := argument
      obtain ⟨first, others⟩ := List.nodup_cons.mp distinct
      obtain ⟨a, read⟩ := readArgument_plain createValue (plain (key, value) List.mem_cons_self) s owner key
      obtain ⟨type, s', resolved, recorded', found'⟩ :=
        recorded.argument bare found (new (key, value) List.mem_cons_self) (ends (elementName (typeText value))) a
      have later : ∀ b ∈ rest, ∀ earlier,
          Reading.argument owner b.1 earlier ∉ h ++ [.argument owner key (typeText value)] := by
        intro b member earlier inside
        rcases List.mem_append.mp inside with before | now
        · exact new b (List.mem_cons_of_mem _ member) earlier before
        · cases List.mem_singleton.mp now
          exact first (List.mem_map.mpr ⟨b, member, rfl⟩)
      have ends' : ∀ n, ∃ names, Lineage (parentIn (h ++ [.argument owner key (typeText value)])) n names := by
        have same := parentIn_arguments h owner [(key, typeText value)]
        rw [List.map_singleton] at same
        rwa [same]
      obtain ⟨s'', loaded, recorded'', found''⟩ := ih (fun b member => plain b (List.mem_cons_of_mem _ member)) others
        recorded' found' later ends'
      refine ⟨s'', ?_, ?_, found''⟩
      · simp only [List.map_cons, loadArguments, keyOf, read, resolved, bind, Except.bind]
        exact loaded
      · rwa [List.append_assoc] at recorded''

theorem modify_id (s : Register V) (address : ℕ) : s.modify address id = s := by
  rw [Register.modify, id_eq, Function.update_eq_self]

/-- What is stored in the table again changes nothing. -/
theorem Recorded.store {s : Register V} {h : List Reading} {name : Str} {address : ℕ} (recorded : Recorded s h)
    (found : lookup name s.types = some address) :
    Recorded { s with types := insert name address s.types } h := by
  have same := lookup_insert_again found
  have grows : Grows s { s with types := insert name address s.types } :=
    ⟨Nat.le_refl _, fun _ _ => rfl, fun n a _ there => (same n).trans there⟩
  refine ⟨recorded.shape.store_again found, recorded.declares_bare, fun before owner key text after split => ?_,
    recorded.only, recorded.owners⟩
  obtain ⟨a, arg, there, stored, given⟩ := recorded.given before owner key text after split
  exact ⟨a, arg, (same owner).trans there, stored, given.grows grows⟩

/-- A type definition. -/
theorem loadType_recorded {name : Str} {e : Json} (plain : PlainDefinition e) (bare : componentName name = none)
    (free : name ∉ predefinedNames) {s : Register V} {h : List Reading} (recorded : Recorded s h)
    (unread : declared h name = none) (new : ∀ key text, Reading.argument name key text ∉ h)
    (ends : ∀ n, ∃ names, Lineage (parentIn (h ++ [.declare name (parentText e)])) n names) :
    ∃ s', loadType createValue s name e = .ok s' ∧ Recorded s' (h ++ readingsOf (name, e)) := by
  obtain ⟨members, rfl⟩ := plain.object
  obtain ⟨f, keeps, described⟩ : ∃ f : TypeObject V → TypeObject V,
      (∀ o, (f o).name = o.name ∧ (f o).parent = o.parent ∧ (f o).placeholder = o.placeholder ∧
        (f o).arguments = o.arguments) ∧
      ∀ (s : Register V) address,
        loadDescription s address (lookup (str "description") members) = .ok (s.modify address f) := by
    cases found : lookup (str "description") members with
    | none => exact ⟨id, fun _ => ⟨rfl, rfl, rfl, rfl⟩, fun s address => by rw [modify_id]; rfl⟩
    | some j =>
        obtain ⟨text, rfl⟩ := plain.description j found
        exact ⟨fun type => { type with description := text }, fun _ => ⟨rfl, rfl, rfl, rfl⟩, fun _ _ => rfl⟩
  have parented (s : Register V) (address : ℕ) : loadParent s address (lookup (str "parent") members) =
      .ok ((parentText (.object members)).elim s (setParent s address)) := by
    rw [parentText, find]
    cases found : lookup (str "parent") members with
    | none => rfl
    | some j =>
        obtain ⟨text, rfl⟩ := plain.parent j found
        rfl
  obtain ⟨arguments, given, distinct, each⟩ : ∃ arguments : List (Str × Json),
      (lookup (str "arguments") members).getD (.object []) = .object arguments ∧ (arguments.map Prod.fst).Nodup ∧
        (∀ a ∈ arguments, PlainArgument a.2) ∧
        argumentTexts (.object members) = arguments.map fun a => (a.1, typeText a.2) := by
    rw [argumentTexts, find]
    cases found : lookup (str "arguments") members with
    | none => exact ⟨[], rfl, List.nodup_nil, nofun, rfl⟩
    | some j =>
        obtain ⟨arguments, rfl, distinct, each⟩ := plain.arguments j found
        exact ⟨arguments, rfl, distinct, each, rfl⟩
  have properties : lookup (str "properties") members = none := plain.properties
  obtain ⟨address, s', opened, found, declared⟩ :=
    recorded.declare bare free unread (parentText (.object members)) keeps
  have new' : ∀ a ∈ arguments, ∀ earlier,
      Reading.argument name a.1 earlier ∉ h ++ [.declare name (parentText (.object members))] := by
    intro a _ earlier inside
    rcases List.mem_append.mp inside with before | now
    · exact new a.1 earlier before
    · cases List.mem_singleton.mp now
  obtain ⟨s'', loaded, recorded'', found''⟩ :=
    loadArguments_recorded createValue bare arguments each.1 distinct declared found new' ends
  have named := (recorded''.shape.sized name address found'').2
  refine ⟨{ s'' with types := insert name address s''.types }, ?_, ?_⟩
  · simp only [loadType, opened, described, parented, properties, given, items, loaded, named, Option.elim_none, bind,
      Except.bind]
  · rw [readingsOf, each.2, List.map_map]
    rw [List.append_assoc] at recorded''
    exact recorded''.store found''

theorem declared_readingsOf (definition : Str × Json) (n : Str) :
    declared (readingsOf definition) n = if definition.1 = n then some (parentText definition.2) else none := by
  have silent : declared ((argumentTexts definition.2).map fun a => .argument definition.1 a.1 a.2) n = none := by
    apply List.findSome?_eq_none_iff.mpr
    intro r member
    obtain ⟨a, _, rfl⟩ := List.mem_map.mp member
    rfl
  have whole : readingsOf definition = [.declare definition.1 (parentText definition.2)] ++
      (argumentTexts definition.2).map fun a => .argument definition.1 a.1 a.2 := rfl
  rw [whole, declared_append, silent, Option.or_none, declared, List.findSome?_singleton]

/-- What is declared is the parent in the definition of the name. -/
theorem declared_flatMap (definitions : List (Str × Json)) (n : Str) :
    declared (definitions.flatMap readingsOf) n = (lookup n definitions).map parentText := by
  induction definitions with
  | nil => rfl
  | cons d rest ih =>
      obtain ⟨name, e⟩ := d
      rw [List.flatMap_cons, declared_append, declared_readingsOf, ih, lookup]
      dsimp only
      split
      · rfl
      · rw [Option.none_or]

/-- Parents are only added while definitions are read. -/
theorem parentIn_grows {h later : List Reading}
    (free : ∀ n parent, declared (h ++ later) n = some parent → n ∉ predefinedNames) (n p : Str)
    (found : parentIn h n = some p) : parentIn (h ++ later) n = some p := by
  rw [parentIn] at found ⊢
  cases before : declared h n with
  | some parent =>
      rw [before] at found
      rw [declared_append, before, Option.some_or]
      exact found
  | none =>
      rw [before] at found
      cases after : declared (h ++ later) n with
      | none => exact found
      | some parent =>
          dsimp only at found
          rw [if_neg fun both => free n parent after both.1] at found
          cases found

/-- The definitions of a file. Those of all files are what is read by then and what is left. -/
theorem loadTypes_recorded (definitions left : List (Str × Json)) {s : Register V} {read : List (Str × Json)}
    (recorded : Recorded s (read.flatMap readingsOf))
    (distinct : ((read ++ definitions ++ left).map Prod.fst).Nodup)
    (plain : ∀ d ∈ definitions, PlainDefinition d.2 ∧ componentName d.1 = none)
    (free : ∀ d ∈ read ++ definitions ++ left, d.1 ∉ predefinedNames)
    (ends : ∀ n, ∃ names, Lineage (parentIn ((read ++ definitions ++ left).flatMap readingsOf)) n names) :
    ∃ s', loadTypes createValue definitions s = .ok s' ∧
      Recorded s' ((read ++ definitions).flatMap readingsOf) := by
  induction definitions generalizing s read with
  | nil => exact ⟨s, rfl, by rwa [List.append_nil]⟩
  | cons d rest ih =>
      obtain ⟨name, e⟩ := d
      have all : read ++ (name, e) :: rest ++ left = (read ++ [(name, e)]) ++ rest ++ left := by simp
      have named : ∀ d ∈ read, d.1 ≠ name := by
        intro d member same
        rw [List.append_assoc, List.map_append, List.nodup_append] at distinct
        exact distinct.2.2 d.1 (List.mem_map_of_mem member) name (by simp) same
      have unread : declared (read.flatMap readingsOf) name = none := by
        rw [declared_flatMap, Option.map_eq_none_iff]
        cases found : lookup name read with
        | none => rfl
        | some e' => exact absurd rfl (named _ (mem_of_lookup found))
      have new (key text : Str) : Reading.argument name key text ∉ read.flatMap readingsOf := by
        intro member
        obtain ⟨d, inside, reading⟩ := List.mem_flatMap.mp member
        rcases List.mem_cons.mp reading with same | argument
        · cases same
        · obtain ⟨a, _, same⟩ := List.mem_map.mp argument
          cases same
          exact named d inside rfl
      have ends' (n : Str) : ∃ names,
          Lineage (parentIn (read.flatMap readingsOf ++ [.declare name (parentText e)])) n names := by
        obtain ⟨names, line⟩ := ends n
        have split : (read ++ (name, e) :: rest ++ left).flatMap readingsOf =
            (read.flatMap readingsOf ++ [.declare name (parentText e)]) ++
              (((argumentTexts e).map fun a => .argument name a.1 a.2) ++ (rest ++ left).flatMap readingsOf) := by
          simp [readingsOf]
        have grows : ∀ x p, parentIn (read.flatMap readingsOf ++ [.declare name (parentText e)]) x = some p →
            parentIn ((read ++ (name, e) :: rest ++ left).flatMap readingsOf) x = some p := by
          rw [split]
          apply parentIn_grows
          intro n parent found
          rw [← split, declared_flatMap, Option.map_eq_some_iff] at found
          obtain ⟨e', found, _⟩ := found
          exact free (n, e') (mem_of_lookup found)
        obtain ⟨before, earlier, _⟩ := line.earlier grows
        exact ⟨before, earlier⟩
      obtain ⟨s', loaded, recorded'⟩ := loadType_recorded createValue (plain (name, e) List.mem_cons_self).1
        (plain (name, e) List.mem_cons_self).2 (free (name, e) (by simp)) recorded unread new ends'
      rw [all] at distinct free ends
      rw [← List.flatMap_singleton (f := readingsOf), ← List.flatMap_append] at recorded'
      obtain ⟨s'', loaded', after⟩ :=
        ih recorded' distinct (fun d member => plain d (List.mem_cons_of_mem _ member)) free ends
      refine ⟨s'', ?_, ?_⟩
      · simp only [loadTypes, loaded, bind, Except.bind]
        exact loaded'
      · rwa [List.append_assoc, List.singleton_append] at after

/-- Several files. -/
theorem loadFiles_recorded (files : List (List (Str × Json))) (read : List (Str × Json)) {s : Register V}
    (recorded : Recorded s (read.flatMap readingsOf))
    (distinct : ((read ++ files.flatten).map Prod.fst).Nodup)
    (plain : ∀ d ∈ files.flatten, PlainDefinition d.2 ∧ componentName d.1 = none)
    (free : ∀ d ∈ read ++ files.flatten, d.1 ∉ predefinedNames)
    (ends : ∀ n, ∃ names, Lineage (parentIn ((read ++ files.flatten).flatMap readingsOf)) n names) :
    ∃ s', loadFiles createValue (files.map file) s = .ok s' ∧
      Recorded s' ((read ++ files.flatten).flatMap readingsOf) := by
  induction files generalizing s read with
  | nil => exact ⟨s, rfl, by rwa [List.flatten_nil, List.append_nil]⟩
  | cons definitions rest ih =>
      rw [List.flatten_cons] at plain
      rw [List.flatten_cons, ← List.append_assoc] at distinct free ends ⊢
      obtain ⟨s', loaded, recorded'⟩ := loadTypes_recorded createValue definitions rest.flatten recorded distinct
        (fun d member => plain d (List.mem_append_left _ member)) free ends
      obtain ⟨s'', loaded', after⟩ :=
        ih _ recorded' distinct (fun d member => plain d (List.mem_append_right _ member)) free ends
      refine ⟨s'', ?_, after⟩
      have types : member (str "types") (file definitions) = .ok (.object definitions) := rfl
      have tasks : member (str "tasks") (file definitions) = .ok (.object []) := rfl
      simp only [List.map_cons, loadFiles, load, types, tasks, objectMembers, loaded, loadTasks, bind, Except.bind]
      exact loaded'

/-! ### The graph -/

/-- The parent of a name, by its definition or by that of the predefined types. -/
def parentOfName (definitions : List (Str × Json)) (name : Str) : Option Str :=
  match lookup name definitions with
  | some e => parentText e
  | none => if name ∈ predefinedNames ∧ name ≠ str "any" then some (str "any") else none

/-- A type is the one that the name of the type of an argument stands for: it has the name, the ancestors of the
    element with as many `[]`, is that many array types, and its element is the type in the table. -/
structure Denotes (s : Register V) (parent : Str → Option Str) (text : Str) (type : TypePtr) : Prop where
  name : s.nameOf type = text
  ancestors : ∃ names chain, Lineage parent (elementName text) names ∧ Lineage s.parentOf type chain ∧
    chain.map s.nameOf = names.map (arrayName (brackets text))
  nesting : type.nesting = brackets text
  element : lookup (elementName text) s.types = some type.core

/-- The type graph is that of the definitions. -/
def Described (definitions : List (Str × Json)) (s : Register V) : Prop :=
  ∀ name e, lookup name definitions = some e → ∃ a, lookup name s.types = some a ∧
    (s.objects a).parent.map (fun p => (s.objects p).name) = parentText e ∧
    (∀ key, (lookup key (s.objects a).arguments).isSome ↔ (lookup key (argumentTexts e)).isSome) ∧
    ∀ key text, lookup key (argumentTexts e) = some text →
      ∃ arg, lookup key (s.objects a).arguments = some arg ∧ Denotes s (parentOfName definitions) text arg.type

/-- Where an array type is read, its element is known, and each definition of the element or of one of its
    ancestors that has a parent has been read. -/
def Timely (definitions : List (Str × Json)) (readings : List Reading) : Prop :=
  ∀ before owner key text after, readings = before ++ .argument owner key text :: after → 0 < brackets text →
    elementName text ∈ knownNames before ∧
      ∀ names, Lineage (parentOfName definitions) (elementName text) names →
        ∀ n ∈ names, ∀ e p, lookup n definitions = some e → parentText e = some p →
          .declare n (some p) ∈ before

theorem parentIn_flatMap {definitions order : List (Str × Json)} (same : ∀ n, lookup n order = lookup n definitions) :
    parentIn (order.flatMap readingsOf) = parentOfName definitions := by
  funext n
  rw [parentIn, declared_flatMap, parentOfName, same]
  cases lookup n definitions <;> rfl

theorem lookup_perm {α : Type} {entries others : List (Str × α)} (order : entries.Perm others)
    (distinct : (others.map Prod.fst).Nodup) (n : Str) : lookup n entries = lookup n others := by
  have distinct' : (entries.map Prod.fst).Nodup := (order.map Prod.fst).nodup_iff.mpr distinct
  cases found : lookup n others with
  | some e => exact lookup_of_mem distinct' (order.mem_iff.mpr (mem_of_lookup found))
  | none =>
      cases there : lookup n entries with
      | none => rfl
      | some e =>
          have present := lookup_of_mem distinct (order.mem_iff.mp (mem_of_lookup there))
          rw [found] at present
          cases present

/-! ### The order -/

section

variable {definitions order : List (Str × Json)}

/-- The arguments that are read are those of the definitions. -/
theorem mem_readings_argument (distinct : (order.map Prod.fst).Nodup) (plain : ∀ d ∈ order, PlainDefinition d.2)
    {owner key text : Str} : Reading.argument owner key text ∈ order.flatMap readingsOf ↔
      ∃ e, lookup owner order = some e ∧ lookup key (argumentTexts e) = some text := by
  constructor
  · intro member
    obtain ⟨d, inside, reading⟩ := List.mem_flatMap.mp member
    rcases List.mem_cons.mp reading with same | argument
    · cases same
    · obtain ⟨a, there, same⟩ := List.mem_map.mp argument
      cases same
      refine ⟨d.2, lookup_of_mem distinct inside, ?_⟩
      apply lookup_of_mem _ there
      rw [argumentTexts]
      split
      · rename_i arguments found
        obtain ⟨_, same, keys, _⟩ := (plain d inside).arguments _ found
        cases same
        rw [List.map_map]
        exact keys
      · exact List.nodup_nil
  · rintro ⟨e, found, argument⟩
    apply List.mem_flatMap.mpr
    refine ⟨(owner, e), mem_of_lookup found, List.mem_cons_of_mem _ ?_⟩
    exact List.mem_map.mpr ⟨(key, text), mem_of_lookup argument, rfl⟩

/-- The ancestors of a name are those by some time exactly when the definitions with parents among those of the
    ancestors have been read by then. -/
theorem lineage_before_iff (same : ∀ n, lookup n order = lookup n definitions)
    (free : ∀ d ∈ order, d.1 ∉ predefinedNames) {before after : List Reading}
    (split : order.flatMap readingsOf = before ++ after) {x : Str} {names : List Str}
    (line : Lineage (parentOfName definitions) x names) :
    Lineage (parentIn before) x names ↔
      ∀ n ∈ names, ∀ e p, lookup n definitions = some e → parentText e = some p → .declare n (some p) ∈ before := by
  have whole : parentIn (before ++ after) = parentOfName definitions := split ▸ parentIn_flatMap same
  have told (n : Str) : declared (before ++ after) n = (lookup n definitions).map parentText := by
    rw [← split, declared_flatMap, same]
  have grows : ∀ n p, parentIn before n = some p → parentOfName definitions n = some p := by
    rw [← whole]
    apply parentIn_grows
    intro n parent found
    rw [told, Option.map_eq_some_iff] at found
    obtain ⟨e, found, _⟩ := found
    exact free (n, e) (mem_of_lookup ((same n).trans found))
  rw [line.same_iff grows]
  refine forall₂_congr fun n _ => ?_
  constructor
  · intro kept e p found parent
    have up : parentOfName definitions n = some p := by
      rw [parentOfName, found]
      exact parent
    have now := kept p up
    rw [parentIn] at now
    cases here : declared before n with
    | some q =>
        rw [here] at now
        exact mem_of_declared (here.trans (congrArg some now))
    | none =>
        rw [here] at now
        dsimp only at now
        rw [if_neg fun both => free (n, e) (mem_of_lookup ((same n).trans found)) both.1] at now
        cases now
  · intro read p up
    have total := told n
    rw [declared_append] at total
    cases found : lookup n definitions with
    | some e =>
        have parent : parentText e = some p := by rwa [parentOfName, found] at up
        obtain ⟨q, here⟩ := Option.ne_none_iff_exists'.mp (declared_of_mem (read e p found parent))
        rw [here, found, Option.some_or, Option.map_some, parent] at total
        rw [parentIn, here, Option.some.inj total]
    | none =>
        rw [found, Option.map_none, Option.or_eq_none_iff] at total
        rw [parentOfName, found] at up
        rw [parentIn, total.1]
        exact up

theorem arrayName_injective (k : ℕ) : Function.Injective (arrayName k) := by
  induction k with
  | zero => exact fun _ _ => id
  | succ k ih => exact fun _ _ same => ih (List.append_cancel_right same)

/-- What has been given to an argument in time is what its definition means. -/
theorem denotes_of_given (same : ∀ n, lookup n order = lookup n definitions)
    (free : ∀ d ∈ order, d.1 ∉ predefinedNames) (acyclic : ∀ n, ∃ names, Lineage (parentOfName definitions) n names)
    {s : Register V} (recorded : Recorded s (order.flatMap readingsOf)) {before after : List Reading} {text : Str}
    (split : order.flatMap readingsOf = before ++ after) {type : TypePtr} (given : Given s before text type)
    (timely : 0 < brackets text → elementName text ∈ knownNames before ∧
      ∀ names, Lineage (parentOfName definitions) (elementName text) names →
        ∀ n ∈ names, ∀ e p, lookup n definitions = some e → parentText e = some p → .declare n (some p) ∈ before) :
    Denotes s (parentOfName definitions) text type := by
  obtain ⟨names, line⟩ := acyclic (elementName text)
  cases given with
  | @bare a bare found =>
      have flat := brackets_eq_zero bare
      have element := elementName_of_bare bare
      have line' : Lineage (parentIn (order.flatMap readingsOf)) text names := by
        rw [parentIn_flatMap same, ← element]
        rwa [element] at line ⊢
      obtain ⟨chain, lineage, chain_names, _⟩ := recorded.shape.pointers found line'
      refine ⟨(recorded.shape.sized text a found).2, ⟨names, chain, line, lineage, ?_⟩, flat.symm, ?_⟩
      · rw [chain_names recorded.whole, flat]
        exact (List.map_id names).symm
      · rw [element]
        exact found
  | unknown bracketed missing _ _ => exact absurd (timely (brackets_pos bracketed)).1 missing
  | @array _ ancestors chain bracketed _ found nesting ancestry lineage chain_names _ =>
      have now := (lineage_before_iff same free split line).mpr ((timely (brackets_pos bracketed)).2 names line)
      refine ⟨?_, ⟨names, chain, line, lineage, ?_⟩, nesting, found⟩
      · rw [nameOf_eq, nesting, (recorded.shape.sized _ _ found).2, arrayName_elementName]
      · rw [chain_names, ancestry.unique now]

/-- After the definitions have been read in some order, the type graph is theirs exactly when the order is
    timely. -/
theorem described_iff (same : ∀ n, lookup n order = lookup n definitions) (distinct : (order.map Prod.fst).Nodup)
    (plain : ∀ d ∈ order, PlainDefinition d.2) (free : ∀ d ∈ order, d.1 ∉ predefinedNames)
    (acyclic : ∀ n, ∃ names, Lineage (parentOfName definitions) n names) {s : Register V}
    (recorded : Recorded s (order.flatMap readingsOf)) :
    Described definitions s ↔ Timely definitions (order.flatMap readingsOf) := by
  have parents := parentIn_flatMap same
  constructor
  · intro described before owner key text after split array
    have member : Reading.argument owner key text ∈ order.flatMap readingsOf :=
      split ▸ List.mem_append_right _ List.mem_cons_self
    obtain ⟨e, found, argument⟩ := (mem_readings_argument distinct plain).mp member
    obtain ⟨a, there, _, _, each⟩ := described owner e ((same owner).symm.trans found)
    obtain ⟨arg, stored, denotes⟩ := each key text argument
    obtain ⟨a', arg', there', stored', given⟩ := recorded.given before owner key text after split
    cases there.symm.trans there'
    cases stored.symm.trans stored'
    have nesting := denotes.nesting
    generalize arg.type = type at given denotes nesting
    cases given with
    | bare bare _ => exact absurd (brackets_eq_zero bare) (Nat.ne_of_gt array)
    | unknown _ _ _ _ => exact absurd nesting.symm (Nat.ne_of_gt array)
    | array _ known _ _ ancestry line names _ =>
        refine ⟨known, fun names' line' => ?_⟩
        obtain ⟨names'', chain, line'', lineage, equal⟩ := denotes.ancestors
        cases line.unique lineage
        cases line'.unique line''
        have ancestors := (List.map_injective_iff.mpr (arrayName_injective _)) (names.symm.trans equal)
        exact (lineage_before_iff same free split line').mp (ancestors ▸ ancestry)
  · intro timely name e found
    have there := (same name).trans found
    have opened : declared (order.flatMap readingsOf) name = some (parentText e) := by
      rw [declared_flatMap, there]
      rfl
    have bare := recorded.declares_bare name _ opened
    obtain ⟨a, registered⟩ :=
      Option.isSome_iff_exists.mp ((recorded.shape.known_iff name bare).mpr (mem_known_of_declared opened))
    obtain ⟨inside, named⟩ := recorded.shape.sized name a registered
    have each (key text : Str) (argument : lookup key (argumentTexts e) = some text) :
        ∃ arg, lookup key (s.objects a).arguments = some arg ∧
          Denotes s (parentOfName definitions) text arg.type := by
      have member := (mem_readings_argument distinct plain).mpr ⟨e, there, argument⟩
      obtain ⟨before, after, split⟩ := List.append_of_mem member
      obtain ⟨a', arg, registered', stored, given⟩ := recorded.given before name key text after split
      cases registered.symm.trans registered'
      exact ⟨arg, stored, denotes_of_given same free acyclic recorded split given
        (timely before name key text after split)⟩
    refine ⟨a, registered, ?_, fun key => ⟨fun present => ?_, fun present => ?_⟩, each⟩
    · rw [recorded.shape.parents_eq recorded.whole inside, named, parents, parentOfName, found]
    · obtain ⟨text, member⟩ := recorded.only a inside key present
      rw [named] at member
      obtain ⟨e', found', argument⟩ := (mem_readings_argument distinct plain).mp member
      cases there.symm.trans found'
      rw [argument]
      rfl
    · obtain ⟨text, argument⟩ := Option.isSome_iff_exists.mp present
      obtain ⟨arg, stored, _⟩ := each key text argument
      rw [stored]
      rfl

end

/-- For every set of definitions, in any order, in one file or several: they are loaded, and the type graph is
    theirs exactly when the order is timely. -/
theorem load_any_order {definitions : List (Str × Json)} (files : List (List (Str × Json)))
    (order : files.flatten.Perm definitions) (distinct : (definitions.map Prod.fst).Nodup)
    (plain : ∀ d ∈ definitions, PlainDefinition d.2) (bare : ∀ d ∈ definitions, componentName d.1 = none)
    (free : ∀ d ∈ definitions, d.1 ∉ predefinedNames)
    (acyclic : ∀ n, ∃ names, Lineage (parentOfName definitions) n names) :
    ∃ s, loadFiles createValue (files.map file) Register.fresh = .ok s ∧
      (Described definitions s ↔ Timely definitions (files.flatten.flatMap readingsOf)) := by
  have same := lookup_perm order distinct
  have distinct' : (files.flatten.map Prod.fst).Nodup := (order.map Prod.fst).nodup_iff.mpr distinct
  have plain' : ∀ d ∈ files.flatten, PlainDefinition d.2 := fun d member => plain d (order.mem_iff.mp member)
  have free' : ∀ d ∈ files.flatten, d.1 ∉ predefinedNames := fun d member => free d (order.mem_iff.mp member)
  have ends : ∀ n, ∃ names, Lineage (parentIn (files.flatten.flatMap readingsOf)) n names := by
    rwa [parentIn_flatMap same]
  obtain ⟨s, loaded, recorded⟩ := loadFiles_recorded createValue files [] recorded_fresh distinct'
    (fun d member => ⟨plain' d member, bare d (order.mem_iff.mp member)⟩) free' ends
  exact ⟨s, loaded, described_iff same distinct' plain' free' acyclic recorded⟩

/-! ### An array before its element -/

/-- The type of an argument. -/
def Register.argumentType (s : Register V) (owner key : Str) : Option TypePtr :=
  (lookup owner s.types).bind fun a => (lookup key (s.objects a).arguments).map Argument.type

theorem Described.denotes {definitions : List (Str × Json)} {s : Register V} (described : Described definitions s)
    (owner key : Str) {text : Str} {e : Json} (found : lookup owner definitions = some e)
    (argument : lookup key (argumentTexts e) = some text) {type : TypePtr}
    (stored : s.argumentType owner key = some type) : Denotes s (parentOfName definitions) text type := by
  obtain ⟨a, there, _, _, each⟩ := described owner e found
  obtain ⟨arg, kept, denotes⟩ := each key text argument
  rw [Register.argumentType, there, Option.bind_some, kept] at stored
  cases stored
  exact denotes

/-- A definition with an argument `x`. -/
def withArgument (text : Str) : Json :=
  .object [(str "arguments", .object [(str "x", .string text)])]

/-- `a` has an argument of type `b[]`. -/
def arrayDefinitions : List (Str × Json) := [(str "a", withArgument (str "b[]")), (str "b", .object [])]

/-- `b` has an argument of type `c[]`; `c` is the parent of `a` and has the parent `d`. -/
def ancestorDefinitions : List (Str × Json) :=
  [(str "a", .object [(str "parent", .string (str "c"))]), (str "b", withArgument (str "c[]")),
    (str "c", .object [(str "parent", .string (str "d"))])]

/-- A reader that refuses every value. -/
def noValues : ValueReader Unit := fun _ _ => .error .asserted

/-- In the order of the names, the argument of `a` has a type that is no array; in another order it has one. And
    where the element is known without its parent, its array type has no parent. -/
theorem forward_arrays :
    (∃ s, loadFiles noValues [file arrayDefinitions] Register.fresh = .ok s ∧ ¬ Described arrayDefinitions s ∧
        s.argumentType (str "a") (str "x") = some (.object 7)) ∧
      (∃ s, loadFiles noValues ([[(str "b", .object [])], [(str "a", withArgument (str "b[]"))]].map file)
          Register.fresh = .ok s ∧
        s.argumentType (str "a") (str "x") = some (.array (.object 6))) ∧
      ∃ s, loadFiles noValues [file ancestorDefinitions] Register.fresh = .ok s ∧
        ¬ Described ancestorDefinitions s ∧
        s.argumentType (str "b") (str "x") = some (.array (.object 7)) := by
  refine ⟨⟨_, rfl, fun described => ?_, rfl⟩, ⟨_, rfl, rfl⟩, ⟨_, rfl, fun described => ?_, rfl⟩⟩
  · have denotes := described.denotes (str "a") (str "x") rfl rfl rfl
    exact absurd denotes.nesting (by decide)
  · have denotes := described.denotes (str "b") (str "x") rfl rfl rfl
    obtain ⟨names, chain, line, lineage, same⟩ := denotes.ancestors
    have alone : chain = [.array (.object 7)] := lineage.unique (.root rfl)
    have two : Lineage (parentOfName ancestorDefinitions) (elementName (str "c[]")) [str "c", str "d"] :=
      .child rfl (.root rfl)
    cases alone
    cases line.unique two
    exact absurd (congrArg List.length same) (by decide)

/-- `b` has the parent `a` and an argument of type `a[]`. -/
def timelyDefinitions : List (Str × Json) :=
  [(str "b", .object [(str "arguments", .object [(str "x", .string (str "a[]"))]),
      (str "parent", .string (str "a"))]),
    (str "a", .object [])]

/-- The two definitions, from two files: `a` comes first. -/
theorem load_any_order_timely :
    ∃ s, loadFiles noValues ([[timelyDefinitions[1]], [timelyDefinitions[0]]].map file) Register.fresh = .ok s ∧
      Described timelyDefinitions s := by
  have plain : ∀ d ∈ timelyDefinitions, PlainDefinition d.2 := by
    intro d member
    rcases List.mem_cons.mp member with rfl | last
    · refine ⟨⟨_, rfl⟩, nofun, ?_, rfl, ?_⟩
      · rintro _ ⟨⟩
        exact ⟨_, rfl⟩
      · rintro _ ⟨⟩
        refine ⟨_, rfl, List.nodup_singleton _, fun a single => ?_⟩
        cases List.mem_singleton.mp single
        exact .short _
    · cases List.mem_singleton.mp last
      exact ⟨⟨_, rfl⟩, nofun, nofun, rfl, nofun⟩
  have acyclic : ∀ n, ∃ names, Lineage (parentOfName timelyDefinitions) n names := by
    apply Lineage.exists_of_rank fun n => if n ∈ [str "a", str "any"] then 0 else 1
    intro x p up
    by_cases b : x = str "b"
    · subst b
      cases up
      decide
    · by_cases a : x = str "a"
      · subst a
        cases up
      · have missing : lookup x timelyDefinitions = none := by
          rw [timelyDefinitions, lookup, if_neg (Ne.symm b), lookup, if_neg (Ne.symm a), lookup]
        rw [parentOfName, missing] at up
        dsimp only at up
        split at up
        · rename_i predefined
          cases up
          simp [a, predefined.2]
        · cases up
  obtain ⟨s, loaded, iff⟩ := load_any_order noValues [[timelyDefinitions[1]], [timelyDefinitions[0]]]
    (List.Perm.swap _ _ _) (by decide) plain (by decide) (by decide) acyclic
  refine ⟨s, loaded, iff.mpr fun before owner key text after split _ => ?_⟩
  have readings : [[timelyDefinitions[1]], [timelyDefinitions[0]]].flatten.flatMap readingsOf =
      [.declare (str "a") none, .declare (str "b") (some (str "a")),
        .argument (str "b") (str "x") (str "a[]")] := rfl
  rw [readings] at split
  rcases before with _ | ⟨first, _ | ⟨second, _ | ⟨third, rest⟩⟩⟩
  · cases split
  · cases split
  · cases split
    refine ⟨by decide, fun names line n member e p found parent => ?_⟩
    cases line.unique (.root rfl)
    cases List.mem_singleton.mp member
    cases found
    cases parent
  · simp at split

end Experimaestro.Definitions

/-
Module: Experimaestro.Definitions.StoredValues
Layer: Definitions
Purpose: What `Value::create` makes, on a register that is being loaded, of the JSON that `toJson` has written for
  a value of another register. The content is kept where the value is `Restorable`: real numbers are finite and
  not integral, maps have no task and no simple type, and their children can be compared with the defaults that
  have been read by then; and where the value keeps its maps: one whose type has a name with `[]` becomes an array
  when the element is known (`KeepsMaps`). The types that the register does not have yet become placeholders.
Imports: Experimaestro.Definitions.ValueTypes, Experimaestro.Configuration.JsonText (regular documents),
  Experimaestro.Configuration.RoundTrip
Trusted boundary: none (fully proved)
Main exports: contentOf, mapNames, Restorable, KeepsMaps, Agrees, regular_restorable, createValue_restorable
Open obligations: none
-/
import Experimaestro.Configuration.JsonText
import Experimaestro.Configuration.RoundTrip
import Experimaestro.Definitions.ValueTypes

namespace Experimaestro.Definitions

open Experimaestro.Configuration (Conversions Error Flags Json Ordered Scalar Str Table TypeRef Types Value
  componentName create createElements elementName except_map_eq_ok getType getTypeIn_of_simple getType_unknown
  initialValue insert insert_last isFinite keyLess lookup objectType readMembers resolve restrictedKeys str)
open Experimaestro.Configuration.Value (elementsJson childrenJson elementsJson_cons childrenJson_cons equals
  equalsDefault equalsElements markFor ownArgument)

/-! ### Contents -/

/-- The name that a reference to a type is written with. -/
def refName : TypeRef TypeName → Str
  | .base type => type.name
  | .array component => refName component ++ str "[]"

mutual

/-- What a value says: its scalars and elements, the keys, children, tasks and type names of its maps. -/
def contentOf : Stored → Value Str Unit
  | .scalar _ s => .scalar {} s
  | .array _ _ elements => .array {} (.base []) (elementContents elements)
  | .map _ type task _ children => .map {} (.base (refName type)) task none (childContents children)

def elementContents : List Stored → List (Value Str Unit)
  | [] => []
  | element :: rest => contentOf element :: elementContents rest

def childContents : List (Str × Stored) → List (Str × Value Str Unit)
  | [] => []
  | (key, child) :: rest => (key, contentOf child) :: childContents rest

end

theorem nameOf_valueTypes (s : Register Stored) (type : TypeRef TypeName) : (valueTypes s).nameOf type = refName type := by
  induction type with
  | base t => rfl
  | array component ih => rw [Types.nameOf, refName, ih]

theorem contentOf_withFlags (f : Flags → Flags) (v : Stored) : contentOf (v.withFlags f) = contentOf v := by
  cases v <;> rfl

theorem elementContents_length (vs : List Stored) : (elementContents vs).length = vs.length := by
  induction vs with
  | nil => rfl
  | cons v rest ih => rw [elementContents, List.length_cons, ih, List.length_cons]

mutual

/-- A comparison depends on the contents. -/
theorem equals_contentOf : ∀ a b : Stored, (contentOf a).equals (contentOf b) = a.equals b
  | .scalar _ _, .scalar _ _ => rfl
  | .scalar _ _, .array _ _ _ => rfl
  | .scalar _ _, .map _ _ _ _ _ => rfl
  | .array _ _ _, .scalar _ _ => rfl
  | .array _ _ as, .array _ _ bs => by
      rw [contentOf, contentOf, equals, equals, elementContents_length, elementContents_length,
        equalsElements_elementContents as bs]
  | .array _ _ _, .map _ _ _ _ _ => rfl
  | .map _ _ _ _ _, b => by
      rw [contentOf, equals, equals]

theorem equalsElements_elementContents : ∀ as bs : List Stored,
    equalsElements (elementContents as) (elementContents bs) = equalsElements as bs
  | [], _ => rfl
  | _ :: _, [] => rfl
  | a :: as, b :: bs => by
      rw [elementContents, elementContents, equalsElements, equalsElements, equals_contentOf a b,
        equalsElements_elementContents as bs]

end

mutual

/-- The names of the types of the maps in a value. -/
def mapNames : Stored → List Str
  | .scalar _ _ => []
  | .array _ _ elements => elementMapNames elements
  | .map _ type _ _ children => refName type :: childMapNames children

def elementMapNames : List Stored → List Str
  | [] => []
  | element :: rest => mapNames element ++ elementMapNames rest

def childMapNames : List (Str × Stored) → List Str
  | [] => []
  | (_, child) :: rest => mapNames child ++ childMapNames rest

end

/-- A value that reading restores, where `own` gives the defaults that the types have by then. -/
inductive Restorable (conversions : Conversions) (own : Str → Str → Option Stored) : Stored → Prop
  | scalar {flags : Flags} {s : Scalar}
      (real : ∀ bits, s = .real bits → conversions.integral bits = none ∧ isFinite bits = true) :
      Restorable conversions own (.scalar flags s)
  | array {flags : Flags} {ctype : TypeRef TypeName} {elements : List Stored}
      (each : ∀ e ∈ elements, Restorable conversions own e) : Restorable conversions own (.array flags ctype elements)
  | map {flags : Flags} {type : TypeRef TypeName} {job : Option Unit} {children : List (Str × Stored)}
      (structured : valueTypeOf (.known (refName type)) = none)
      (ordered : Ordered children) (free : ∀ entry ∈ children, entry.1 ∉ restrictedKeys)
      (comparable : componentName (refName type) = none → ∀ entry ∈ children, ∀ d,
        own (refName type) entry.1 = some d → ∃ same, d.equals entry.2 = .ok same)
      (each : ∀ entry ∈ children, Restorable conversions own entry.2) :
      Restorable conversions own (.map flags type none job children)

mutual

/-- While a value is read, the maps whose types have names with `[]` come when the elements are not known: a type with
    a known element is the one of an array. The names that its maps mention are known after it. -/
def KeepsMaps : (known : Str → Prop) → Stored → Prop
  | _, .scalar _ _ => True
  | known, .array _ _ elements => ElementsKeepMaps known elements
  | known, .map _ type _ _ children =>
      (componentName (refName type) ≠ none → ¬ known (elementName (refName type))) ∧
        ChildrenKeepMaps (fun n => known n ∨ n = refName type) children

def ElementsKeepMaps : (known : Str → Prop) → List Stored → Prop
  | _, [] => True
  | known, element :: rest =>
      KeepsMaps known element ∧ ElementsKeepMaps (fun n => known n ∨ n ∈ mapNames element) rest

def ChildrenKeepMaps : (known : Str → Prop) → List (Str × Stored) → Prop
  | _, [] => True
  | known, (_, child) :: rest =>
      KeepsMaps known child ∧ ChildrenKeepMaps (fun n => known n ∨ n ∈ mapNames child) rest

end

mutual

/-- It is enough that fewer names are known. -/
theorem KeepsMaps.anti : ∀ {known known' : Str → Prop} {v : Stored},
    (∀ n, componentName n = none → known' n → known n) → KeepsMaps known v → KeepsMaps known' v
  | _, _, .scalar _ _, _, _ => trivial
  | _, _, .array _ _ _, fewer, keeps => by
      rw [KeepsMaps] at keeps ⊢
      exact keeps.anti fewer
  | _, _, .map _ type _ _ _, fewer, keeps => by
      rw [KeepsMaps] at keeps ⊢
      have bare := Configuration.componentName_elementNameIn _ (refName type) (Nat.le_refl _)
      refine ⟨fun bracketed there => keeps.1 bracketed (fewer _ bare there), ?_⟩
      exact keeps.2.anti fun n bare there => there.imp_left (fewer n bare)

theorem ElementsKeepMaps.anti : ∀ {known known' : Str → Prop} {elements : List Stored},
    (∀ n, componentName n = none → known' n → known n) → ElementsKeepMaps known elements →
      ElementsKeepMaps known' elements
  | _, _, [], _, _ => trivial
  | _, _, _ :: _, fewer, keeps => by
      rw [ElementsKeepMaps] at keeps ⊢
      exact ⟨keeps.1.anti fewer, keeps.2.anti fun n bare there => there.imp_left (fewer n bare)⟩

theorem ChildrenKeepMaps.anti : ∀ {known known' : Str → Prop} {children : List (Str × Stored)},
    (∀ n, componentName n = none → known' n → known n) → ChildrenKeepMaps known children →
      ChildrenKeepMaps known' children
  | _, _, [], _, _ => trivial
  | _, _, (_, _) :: _, fewer, keeps => by
      rw [ChildrenKeepMaps] at keeps ⊢
      exact ⟨keeps.1.anti fewer, keeps.2.anti fun n bare there => there.imp_left (fewer n bare)⟩

end

/-! ### Documents -/

/-- An object stays a document that is written without loss when a member is added. -/
theorem regularMembers_insert {key : Str} {j : Json} {members : List (Str × Json)}
    (regular : Configuration.RegularMembers members) (new : Configuration.Regular j) :
    Configuration.RegularMembers (insert key j members) := by
  induction members with
  | nil => exact ⟨new, trivial⟩
  | cons member rest ih =>
      obtain ⟨k, v⟩ := member
      obtain ⟨first, others⟩ := regular
      rw [Configuration.insert]
      split
      · exact ⟨new, others⟩
      · split
        · exact ⟨new, first, others⟩
        · exact ⟨first, ih others⟩

theorem regularElements_of {types : Types TypeName Unit} {elements : List Stored}
    (each : ∀ e ∈ elements, ∀ {j}, e.toJson types = .ok j → Configuration.Regular j) {js : List Json}
    (written : elementsJson types elements = .ok js) : Configuration.RegularElements js := by
  induction elements generalizing js with
  | nil =>
      cases written
      trivial
  | cons e rest ih =>
      obtain ⟨j, others, first, tail, rfl⟩ := elementsJson_cons.mp written
      exact ⟨each e List.mem_cons_self first, ih (fun e member => each e (List.mem_cons_of_mem _ member)) tail⟩

theorem regularMembers_of {types : Types TypeName Unit} {children : List (Str × Stored)}
    (each : ∀ entry ∈ children, ∀ {j}, entry.2.toJson types = .ok j → Configuration.Regular j)
    {members : List (Str × Json)} (written : childrenJson types children = .ok members) :
    Configuration.RegularMembers members := by
  induction children generalizing members with
  | nil =>
      cases written
      trivial
  | cons entry rest ih =>
      obtain ⟨key, child⟩ := entry
      obtain ⟨j, others, first, tail, rfl⟩ := childrenJson_cons.mp written
      exact ⟨each (key, child) List.mem_cons_self first,
        ih (fun entry member => each entry (List.mem_cons_of_mem _ member)) tail⟩

/-- What is written for a restorable value is written without loss. -/
theorem regular_restorable {conversions : Conversions} {own : Str → Str → Option Stored}
    (types : Types TypeName Unit) {v : Stored} (restorable : Restorable conversions own v) :
    ∀ {j}, v.toJson types = .ok j → Configuration.Regular j := by
  induction restorable with
  | @scalar flags s real =>
      intro j written
      cases s with
      | unset => cases written
      | real bits =>
          cases written
          exact (real bits rfl).2
      | path text =>
          cases written
          have ordered : keyLess (str "$type") (str "$value") = true := by decide
          exact ⟨by simpa [Ordered] using ordered, trivial, trivial, trivial⟩
      | _ =>
          cases written
          trivial
  | array _ ih =>
      intro j written
      obtain ⟨js, elements_written, rfl⟩ := except_map_eq_ok.mp (by rwa [Value.toJson] at written)
      exact regularElements_of ih elements_written
  | map _ ordered _ _ _ ih =>
      intro j written
      obtain ⟨members, children_written, rfl⟩ := except_map_eq_ok.mp (by rwa [Value.toJson] at written)
      have keys := Configuration.ordered_keys (Value.childrenJson_keys children_written) ordered
      exact ⟨Configuration.ordered_insert _ keys,
        regularMembers_insert (regularMembers_of ih children_written) trivial⟩

/-! ### Placeholders for the types of maps -/

/-- The table in which placeholders for some names have been registered, the latest first. -/
def seen (s : Register Stored) (names : List Str) : Table TypeName :=
  names.map (fun n => (n, .placeholder n)) ++ valueTable s

/-- Names that a register gets one after the other, the latest first: a name without `[]` only when it does not have
    it yet. -/
structure NewNames (s : Register Stored) (names : List Str) : Prop where
  missing : ∀ n ∈ names, componentName n = none → lookup n s.types = none
  distinct : names.Pairwise fun n other => componentName n = none → n ≠ other

/-- The name is in the table. -/
def Has (s : Register Stored) (names : List Str) (n : Str) : Prop := n ∈ names ∨ (lookup n s.types).isSome

/-- While values are read that mention some names, the ones that are added are among them; after it, the
    register has all of them. A name with `[]` has been added. -/
structure Registers (s : Register Stored) (names added mentioned : List Str) : Prop where
  new : NewNames s (added ++ names)
  subset : ∀ n ∈ added, n ∈ mentioned
  all : ∀ n ∈ mentioned, n ∈ added ++ names ∨ componentName n = none ∧ (lookup n s.types).isSome

theorem Registers.nothing {s : Register Stored} {names : List Str} (new : NewNames s names) :
    Registers s names [] [] :=
  ⟨new, nofun, nofun⟩

theorem Registers.append {s : Register Stored} {names added added' mentioned mentioned' : List Str}
    (one : Registers s names added mentioned) (two : Registers s (added ++ names) added' mentioned') :
    Registers s names (added' ++ added) (mentioned ++ mentioned') where
  new := by
    rw [List.append_assoc]
    exact two.new
  subset n inside := by
    rcases List.mem_append.mp inside with later | earlier
    · exact List.mem_append_right _ (two.subset n later)
    · exact List.mem_append_left _ (one.subset n earlier)
  all n inside := by
    rw [List.append_assoc]
    rcases List.mem_append.mp inside with earlier | later
    · exact (one.all n earlier).imp_left (List.mem_append_right _)
    · exact two.all n later

/-- The names in the table after values have been read. -/
theorem Registers.has {s : Register Stored} {names added mentioned : List Str}
    (registers : Registers s names added mentioned) {n : Str} (there : Has s (added ++ names) n) :
    Has s names n ∨ n ∈ mentioned := by
  rcases there with placed | found
  · rcases List.mem_append.mp placed with now | before
    · exact Or.inr (registers.subset n now)
    · exact Or.inl (Or.inl before)
  · exact Or.inl (Or.inr found)

theorem lookup_valueTable (s : Register Stored) (n : Str) :
    lookup n (valueTable s) = (lookup n s.types).map fun _ => TypeName.known n := by
  unfold valueTable
  induction s.types with
  | nil => rfl
  | cons entry rest ih =>
      obtain ⟨k, a⟩ := entry
      rw [List.map_cons, lookup, lookup]
      split
      · rename_i same
        subst same
        rfl
      · exact ih

theorem lookup_seen (s : Register Stored) (names : List Str) (n : Str) :
    lookup n (seen s names) =
      if n ∈ names then some (.placeholder n) else (lookup n s.types).map fun _ => .known n := by
  induction names with
  | nil => exact lookup_valueTable s n
  | cons name rest ih =>
      change lookup n ((name, TypeName.placeholder name) :: seen s rest) = _
      rw [lookup, ih]
      by_cases same : name = n
      · subst same
        rw [if_pos rfl, if_pos List.mem_cons_self]
      · have mem_iff : n ∈ name :: rest ↔ n ∈ rest := by simp [Ne.symm same]
        rw [if_neg same]
        simp only [mem_iff]

theorem lookup_seen_eq_none {s : Register Stored} {names : List Str} {n : Str} :
    lookup n (seen s names) = none ↔ ¬ Has s names n := by
  rw [lookup_seen, Has, not_or]
  split
  · next placed => simp [placed]
  · next placed => simp [placed]

/-- The type for the name of a map. -/
theorem resolve_seen (s : Register Stored) (conversions : Conversions) {names : List Str} (new : NewNames s names)
    {n : Str} (keeps : componentName n ≠ none → ¬ Has s names (elementName n)) :
    ∃ t added, resolve (valueRegister s conversions) (seen s names) n = (.base t, seen s (added ++ names)) ∧
      Registers s names added [n] ∧ (t = .known n ∧ componentName n = none ∨ t = .placeholder n) := by
  have single {P : Str → Prop} (here : P n) : ∀ m ∈ [n], P m := by
    intro m inside
    rw [List.mem_singleton.mp inside]
    exact here
  rw [resolve]
  by_cases bare : componentName n = none
  · have got : getType (seen s names) n = (lookup n (seen s names)).map .base := by
      rw [getType, getTypeIn_of_simple bare]
    rw [got, lookup_seen]
    by_cases placed : n ∈ names
    · rw [if_pos placed]
      exact ⟨.placeholder n, [], rfl, ⟨new, List.forall_mem_nil _, single (Or.inl placed)⟩, Or.inr rfl⟩
    · rw [if_neg placed]
      cases found : lookup n s.types with
      | some a =>
          have present : (lookup n s.types).isSome := found ▸ rfl
          exact ⟨.known n, [], rfl, ⟨new, List.forall_mem_nil _, single (Or.inr ⟨bare, present⟩)⟩, Or.inl ⟨rfl, bare⟩⟩
      | none =>
          refine ⟨.placeholder n, [n], rfl, ⟨⟨?_, ?_⟩, fun _ => id, single (Or.inl List.mem_cons_self)⟩, Or.inr rfl⟩
          · exact List.forall_mem_cons.mpr ⟨fun _ => found, new.missing⟩
          · exact List.pairwise_cons.mpr ⟨fun other inside _ same => placed (same ▸ inside), new.distinct⟩
  · rw [getType_unknown (lookup_seen_eq_none.mpr (keeps bare))]
    refine ⟨.placeholder n, [n], rfl, ⟨⟨?_, ?_⟩, fun _ => id, single (Or.inl List.mem_cons_self)⟩, Or.inr rfl⟩
    · exact List.forall_mem_cons.mpr ⟨fun here => absurd here bare, new.missing⟩
    · exact List.pairwise_cons.mpr ⟨fun _ _ here => absurd here bare, new.distinct⟩

/-! ### Comparisons with defaults -/

/-- The default of an argument of a type itself. -/
def Register.defaultOf (s : Register Stored) (name key : Str) : Option Stored :=
  (lookup name s.types).bind fun a => (lookup key (store (s.objects a).arguments)).bind Argument.defaultValue

/-- The defaults are as the contents say. -/
def Agrees (s : Register Stored) (own : Str → Str → Option Stored) : Prop :=
  ∀ name key, componentName name = none → (own name key).map contentOf = (s.defaultOf name key).map contentOf

theorem find_valueArgument (s : Register Stored) (key : Str) (entries : List (Str × Argument Stored)) :
    (entries.map fun entry => valueArgument s entry.1 entry.2).find? (fun a => a.name = key) =
      (lookup key entries).map (valueArgument s key) := by
  induction entries with
  | nil => rfl
  | cons entry rest ih =>
      obtain ⟨k, a⟩ := entry
      rw [List.map_cons, List.find?_cons, lookup, ih]
      change (match decide (k = key) with | true => _ | false => _) = _
      by_cases same : k = key
      · subst same
        rw [decide_eq_true rfl, if_pos rfl]
        rfl
      · rw [decide_eq_false same, if_neg same]

theorem default_known (s : Register Stored) (name key : Str) :
    (ownArgument (valueTypes s) (.base (.known name)) key).bind Configuration.Argument.defaultValue =
      s.defaultOf name key := by
  rw [Register.defaultOf, ownArgument, Types.argumentsOf]
  unfold valueTypes
  dsimp only
  cases lookup name s.types with
  | none => rfl
  | some a =>
      dsimp only
      rw [find_valueArgument, Option.bind_some]
      cases lookup key (store (s.objects a).arguments) <;> rfl

/-- A value is marked when it can be compared with the default. -/
theorem markFor_comparable {a : Option (Configuration.Argument TypeName Unit)} {w : Stored}
    (comparable : ∀ d, a.bind Configuration.Argument.defaultValue = some d → ∃ same, d.equals w = .ok same) :
    ∃ m, markFor a w = .ok m ∧ contentOf m = contentOf w := by
  cases a with
  | none => exact ⟨w, rfl, rfl⟩
  | some argument =>
      have compared : ∃ same, equalsDefault argument w = .ok same := by
        unfold equalsDefault
        cases given : argument.defaultValue with
        | none => exact ⟨false, rfl⟩
        | some d => exact comparable d given
      obtain ⟨same, compared⟩ := compared
      obtain ⟨m, marks⟩ : ∃ m, markFor (some argument) w = .ok m := by
        rw [markFor, compared]
        exact ⟨_, rfl⟩
      obtain ⟨f, rfl⟩ := Configuration.markFor_withFlags marks
      exact ⟨_, marks, contentOf_withFlags f w⟩

/-! ### Values that are read again -/

section

variable {s : Register Stored} {conversions : Conversions} {own : Str → Str → Option Stored}

variable (s conversions) in
/-- What has been written for the value is read as a value with the same content. -/
def Restores (v : Stored) : Prop :=
  ∀ {written : Register Stored} {j : Json} {names : List Str}, v.toJson (valueTypes written) = .ok j →
    NewNames s names → KeepsMaps (Has s names) v →
      ∃ w added, create (valueRegister s conversions) j (seen s names) = (.ok w, seen s (added ++ names)) ∧
        contentOf w = contentOf v ∧ Registers s names added (mapNames v)

theorem restores_scalar (path : (lookup (str "path") s.types).isSome) {flags : Flags} {scalar : Scalar}
    (real : ∀ bits, scalar = .real bits → conversions.integral bits = none) :
    Restores s conversions (.scalar flags scalar) := by
  intro _ j names written new _
  cases scalar with
  | unset => cases written
  | real bits =>
      cases written
      refine ⟨.scalar {} (.real bits), [], ?_, rfl, .nothing new⟩
      have fractional : (valueRegister s conversions).conversions.integral bits = none := real bits rfl
      rw [create, Configuration.scalarOf, fractional]
      rfl
  | path text =>
      cases written
      have absent : str "path" ∉ names := by
        intro inside
        rw [new.missing _ inside (by decide)] at path
        cases path
      have known : lookup (str "path") (seen s names) = some (valueRegister s conversions).types.path := by
        obtain ⟨a, found⟩ := Option.isSome_iff_exists.mp path
        rw [lookup_seen, if_neg absent, found]
        rfl
      exact ⟨.scalar {} (.path text), [], Configuration.create_path_eq _ known text, rfl, .nothing new⟩
  | _ =>
      cases written
      refine ⟨.scalar {} _, [], ?_, rfl, .nothing new⟩
      rw [create]
      rfl

theorem restores_elements {elements : List Stored} (each : ∀ e ∈ elements, Restores s conversions e)
    {written : Register Stored} {js : List Json} {names : List Str} (start : TypeRef TypeName × List Stored)
    (all_written : elementsJson (valueTypes written) elements = .ok js) (new : NewNames s names)
    (keeps : ElementsKeepMaps (Has s names) elements) :
    ∃ ctype ws added, createElements (valueRegister s conversions) js (seen s names) start =
        (.ok (ctype, start.2 ++ ws), seen s (added ++ names)) ∧
      elementContents ws = elementContents elements ∧ Registers s names added (elementMapNames elements) := by
  induction elements generalizing js names start with
  | nil =>
      cases all_written
      exact ⟨start.1, [], [], by rw [createElements, List.append_nil]; rfl, rfl, .nothing new⟩
  | cons e rest ih =>
      obtain ⟨j, others, first, tail, rfl⟩ := elementsJson_cons.mp all_written
      obtain ⟨keeps_first, keeps_rest⟩ := keeps
      obtain ⟨w, added, created, same, registers⟩ := each e List.mem_cons_self first new keeps_first
      obtain ⟨ctype, ws, added', later, same', registers'⟩ :=
        ih (fun e' member => each e' (List.mem_cons_of_mem _ member))
          (Configuration.pushBack (valueRegister s conversions) start w) tail registers.new
          (keeps_rest.anti fun _ _ => registers.has)
      refine ⟨ctype, w :: ws, added' ++ added, ?_, ?_, registers.append registers'⟩
      · rw [Configuration.createElements_step start created, later, Configuration.pushBack, List.append_assoc,
          List.append_assoc, List.singleton_append]
      · rw [elementContents, elementContents, same, same']

theorem restores_children {type : TypeName} {children : List (Str × Stored)} (ordered : Ordered children)
    (comparable : ∀ entry ∈ children, ∀ d,
      (ownArgument (valueTypes s) (.base type) entry.1).bind Configuration.Argument.defaultValue = some d →
        ∃ same, (contentOf d).equals (contentOf entry.2) = .ok same)
    (each : ∀ entry ∈ children, Restores s conversions entry.2) {written : Register Stored}
    {members : List (Str × Json)} {names : List Str} (earlier : List (Str × Stored))
    (all_written : childrenJson (valueTypes written) children = .ok members) (new : NewNames s names)
    (keeps : ChildrenKeepMaps (Has s names) children)
    (before : ∀ entry ∈ earlier, ∀ child ∈ children, keyLess entry.1 child.1 = true) :
    ∃ ws added, readMembers (valueRegister s conversions) (.base type) members (seen s names) earlier =
        (.ok (earlier ++ ws), seen s (added ++ names)) ∧
      childContents ws = childContents children ∧ Registers s names added (childMapNames children) := by
  induction children generalizing members names earlier with
  | nil =>
      cases all_written
      exact ⟨[], [], by rw [readMembers, List.append_nil]; rfl, rfl, .nothing new⟩
  | cons entry rest ih =>
      obtain ⟨key, child⟩ := entry
      obtain ⟨j, others, first, tail, rfl⟩ := childrenJson_cons.mp all_written
      obtain ⟨keeps_first, keeps_rest⟩ := keeps
      obtain ⟨w, added, created, same, registers⟩ := each (key, child) List.mem_cons_self first new keeps_first
      obtain ⟨m, marks, unmarked⟩ : ∃ m,
          markFor (ownArgument (valueRegister s conversions).types (.base type) key) w = .ok m ∧
            contentOf m = contentOf w := by
        apply markFor_comparable
        intro d given
        obtain ⟨equal, compared⟩ := comparable (key, child) List.mem_cons_self d given
        exact ⟨equal, by rw [← equals_contentOf, same, compared]⟩
      have last : insert key m earlier = earlier ++ [(key, m)] :=
        insert_last m fun entry member => before entry member (key, child) List.mem_cons_self
      obtain ⟨ws, added', later, same', registers'⟩ :=
        ih (List.pairwise_cons.mp ordered).2 (fun entry member => comparable entry (List.mem_cons_of_mem _ member))
          (fun entry member => each entry (List.mem_cons_of_mem _ member)) (earlier ++ [(key, m)]) tail
          registers.new (keeps_rest.anti fun _ _ => registers.has) (Configuration.before_store ordered before)
      refine ⟨(key, m) :: ws, added' ++ added, ?_, ?_, registers.append registers'⟩
      · rw [Configuration.readMembers_step earlier created marks, last, later, List.append_assoc, List.append_assoc,
          List.singleton_append]
      · rw [childContents, childContents, unmarked, same, same']

/-- A restorable value is read again. -/
theorem restores (path : (lookup (str "path") s.types).isSome) (agrees : Agrees s own) {v : Stored}
    (restorable : Restorable conversions own v) : Restores s conversions v := by
  induction restorable with
  | scalar real => exact restores_scalar path fun bits same => (real bits same).1
  | array _ ih =>
      intro _ j names written new keeps
      obtain ⟨js, all_written, rfl⟩ := except_map_eq_ok.mp (by rwa [Value.toJson] at written)
      obtain ⟨ctype, ws, added, created, same, registers⟩ :=
        restores_elements ih (.base (valueRegister s conversions).types.any, []) all_written new keeps
      refine ⟨.array {} ctype ws, added, ?_, by rw [contentOf, contentOf, same], registers⟩
      rw [create, created]
      rfl
  | @map _ type _ children structured ordered free comparable _ ih =>
      intro written_with j names written new keeps
      obtain ⟨keeps_type, keeps_children⟩ := keeps
      obtain ⟨members, all_written, rfl⟩ := except_map_eq_ok.mp (by rwa [Value.toJson] at written)
      have object := Configuration.written_objectMembers (valueRegister s conversions) type none
        (@Configuration.members_free _ _ (valueRegister written_with conversions) _ _ free all_written)
      obtain ⟨t, added, resolved, registers, either⟩ := resolve_seen s conversions new keeps_type
      have named : t.name = refName type := by rcases either with ⟨rfl, _⟩ | rfl <;> rfl
      have comparable' : ∀ entry ∈ children, ∀ d,
          (ownArgument (valueTypes s) (.base t) entry.1).bind Configuration.Argument.defaultValue = some d →
            ∃ same, (contentOf d).equals (contentOf entry.2) = .ok same := by
        intro entry member d given
        rcases either with ⟨rfl, bare⟩ | rfl
        · rw [default_known] at given
          have agree := agrees (refName type) entry.1 bare
          rw [given, Option.map_some, Option.map_eq_some_iff] at agree
          obtain ⟨d', declared, same⟩ := agree
          obtain ⟨equal, compared⟩ := comparable bare entry member d' declared
          exact ⟨equal, by rw [← same, equals_contentOf, compared]⟩
        · cases given
      obtain ⟨ws, added', read, same, registers'⟩ :=
        restores_children ordered comparable' ih [] all_written registers.new
          (keeps_children.anti fun n _ there => (registers.has there).imp_right List.mem_singleton.mp)
          (List.forall_mem_nil _)
      refine ⟨.map {} (.base t) none none ws, added' ++ added, ?_, ?_, registers.append registers'⟩
      · have written_name : (valueRegister s conversions).types.nameOf type = refName type := nameOf_valueTypes s type
        have typed : objectType (valueRegister s conversions)
            (Value.objectMembers (valueRegister s conversions).types type none members) (seen s names) =
              (.ok (.base t), seen s (added ++ names)) := by
          rw [objectType, object.type_eq, written_name]
          dsimp only
          rw [resolved]
        have simple : (valueRegister s conversions).simple (.base t) = none := by
          rcases either with ⟨rfl, _⟩ | rfl
          · exact structured
          · rfl
        have starts : initialValue (valueRegister s conversions) (.base t) (lookup (str "$value")
            (Value.objectMembers (valueRegister s conversions).types type none members)).isSome =
              .map {} (.base t) none none [] := by
          rw [object.no_value, initialValue, simple]
          rfl
        have same_object : Value.objectMembers (valueTypes written_with) type none members =
            Value.objectMembers (valueRegister s conversions).types type none members := by
          rw [Value.objectMembers, Value.objectMembers, nameOf_valueTypes, written_name]
        dsimp only
        rw [same_object, create, typed]
        dsimp only
        rw [starts, Configuration.createMembers_eq _ (.base t) none object.annotated, object.children, read,
          object.task_eq, List.append_assoc]
        rfl
      · rw [contentOf, contentOf, same, refName, named]

/-- `Value::create` on a register, for a restorable value. -/
theorem createValue_restorable (path : (lookup (str "path") s.types).isSome) (agrees : Agrees s own) {v : Stored}
    (restorable : Restorable conversions own v) (keeps : KeepsMaps (fun n => (lookup n s.types).isSome) v)
    {written : Register Stored} {j : Json} (output : v.toJson (valueTypes written) = .ok j) :
    ∃ w added, createValue conversions s j = .ok (w, addPlaceholders s added) ∧ contentOf w = contentOf v ∧
      Registers s [] added (mapNames v) := by
  have nothing_new : NewNames s [] := ⟨nofun, List.Pairwise.nil⟩
  have keeps_now : KeepsMaps (Has s []) v := keeps.anti fun n _ there => there.resolve_left List.not_mem_nil
  obtain ⟨w, added, created, same, registers⟩ := restores path agrees restorable output nothing_new keeps_now
  refine ⟨w, added, ?_, same, registers⟩
  have start : valueTable s = seen s [] := rfl
  have before : (seen s added).length - (valueTable s).length = (added.map fun n => (n, TypeName.placeholder n)).length := by
    rw [seen, List.length_append, Nat.add_sub_cancel]
  rw [List.append_nil] at created
  rw [createValue, start, created]
  dsimp only
  rw [← start, before, seen, List.take_left, List.map_map]
  congr 3
  exact List.map_id added

end

end Experimaestro.Definitions

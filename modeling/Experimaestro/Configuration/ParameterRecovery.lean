/-
Module: Experimaestro.Configuration.ParameterRecovery
Layer: Configuration
Purpose: What `Value::create` makes of the parameter file in the process of the job. A recoverable value is
  read with all its parameters, and a value with plain texts that is read with all of them is recoverable.
Imports: Experimaestro.Configuration.ParameterFile
Trusted boundary: human-reviewed
Main exports: Reads, reads_of_recoverable, onlyRecoverable, parameters_recovered
Open obligations: names and paths that are not plain
-/
import Experimaestro.Configuration.ParameterFile

namespace Experimaestro.Configuration

open Value

section

variable {Ty Job : Type} {register : Register Ty Job} {numbers : NumberFormat} {connector : Connector}
  {locator : Job → Str}

/-! ### The members of the document -/

theorem lookup_eq_none_of_less {α : Type} {key : Str} {entries : List (Str × α)}
    (less : ∀ entry ∈ entries, keyLess key entry.1 = true) : lookup key entries = none := by
  apply lookup_eq_none_of_not_mem
  intro listed
  obtain ⟨entry, there, same⟩ := List.mem_map.mp listed
  have irreflexive := less entry there
  rw [same, keyLess_irrefl] at irreflexive
  cases irreflexive

/-- Two lists in order with the same entries are the same. -/
theorem ordered_ext {α : Type} : ∀ {entries others : List (Str × α)}, Ordered entries → Ordered others →
    (∀ key, lookup key entries = lookup key others) → entries = others
  | [], [], _, _, _ => rfl
  | [], (k, v) :: rest, _, _, same => by
      have here := same k
      rw [lookup, lookup, if_pos rfl] at here
      cases here
  | (k, v) :: rest, [], _, _, same => by
      have here := same k
      rw [lookup, lookup, if_pos rfl] at here
      cases here
  | (k, v) :: rest, (k', v') :: rest', ordered, ordered', same => by
      obtain ⟨first, later⟩ := List.pairwise_cons.mp ordered
      obtain ⟨first', later'⟩ := List.pairwise_cons.mp ordered'
      have here := same k
      have there := same k'
      by_cases heads : k = k'
      · subst heads
        rw [lookup, lookup, if_pos rfl, if_pos rfl] at here
        cases here
        have tails : rest = rest' := by
          apply ordered_ext later later'
          intro key
          have both := same key
          rw [lookup, lookup] at both
          split at both
          · next equal =>
            rw [← equal, lookup_eq_none_of_less first, lookup_eq_none_of_less first']
          · exact both
        rw [tails]
      · -- each head would come after the other one
        rw [lookup, lookup, if_pos rfl, if_neg (Ne.symm heads)] at here
        rw [lookup, lookup, if_neg heads, if_pos rfl] at there
        have before := first' _ (mem_of_lookup here.symm)
        have after := first _ (mem_of_lookup there)
        rw [keyLess_asymm before] at after
        cases after

theorem ordered_foldl_insert {α β : Type} (name : β → Str) (value : β → α) (members : List β)
    {entries : List (Str × α)} (ordered : Ordered entries) :
    Ordered (members.foldl (fun entries member => insert (name member) (value member) entries) entries) := by
  induction members generalizing entries with
  | nil => exact ordered
  | cons member rest ih => exact ih (ordered_insert _ ordered)

/-- Storing entries whose values depend on their keys. -/
theorem lookup_foldl_insert {α β : Type} (name : β → Str) (value : β → α) {key : Str} {v : α} :
    ∀ {members : List β} {entries : List (Str × α)},
      (∀ member ∈ members, name member = key → value member = v) →
        lookup key (members.foldl (fun entries member => insert (name member) (value member) entries) entries) =
          if key ∈ members.map name then some v else lookup key entries
  | [], entries, _ => rfl
  | member :: rest, entries, same => by
      obtain ⟨first, others⟩ := List.forall_mem_cons.mp same
      rw [List.foldl_cons, lookup_foldl_insert name value others, lookup_insert, List.map_cons]
      by_cases later : key ∈ rest.map name
      · rw [if_pos later, if_pos (List.mem_cons_of_mem _ later)]
      · rw [if_neg later]
        by_cases here : name member = key
        · rw [if_pos here, if_pos (here ▸ List.mem_cons_self), first here]
        · rw [if_neg here, if_neg fun inside => (List.mem_cons.mp inside).elim (fun same => here same.symm) later]

theorem mem_storeMembers {members object : List (Str × Json)} {entry : Str × Json}
    (stored : entry ∈ storeMembers object members) : entry ∈ object ∨ entry ∈ members := by
  induction members generalizing object with
  | nil => exact Or.inl stored
  | cons member rest ih =>
      cases ih stored with
      | inl there =>
          cases mem_insert there with
          | inl same => exact Or.inr (same ▸ List.mem_cons_self)
          | inr before => exact Or.inl before
      | inr later => exact Or.inr (List.mem_cons_of_mem _ later)

theorem mem_keys_iff {α : Type} {key : Str} {entries : List (Str × α)} :
    key ∈ entries.map Prod.fst ↔ lookup key entries ≠ none := by
  induction entries with
  | nil => simp [lookup]
  | cons entry rest ih =>
      rw [List.map_cons, List.mem_cons, lookup]
      by_cases here : entry.1 = key
      · simp [here]
      · simp [here, ih, Ne.symm here]

theorem lookup_childMembers {α : Type} {key : Str} (free : key ∉ restrictedKeys) (entries : List (Str × α)) :
    lookup key (childMembers entries) = lookup key entries := by
  induction entries with
  | nil => rfl
  | cons entry rest ih =>
      obtain ⟨k, v⟩ := entry
      rw [childMembers] at ih ⊢
      by_cases restricted : k ∈ restrictedKeys
      · have other : k ≠ key := fun same => free (same ▸ restricted)
        rw [List.filter_cons_of_neg (by simpa using restricted), ih, lookup, if_neg other]
      · rw [List.filter_cons_of_pos (by simpa using restricted), lookup, lookup, ih]

theorem lookup_map_keys {α : Type} (f : Str → α) (key : Str) (keys : List Str) :
    lookup key (keys.map fun k => (k, f k)) = if key ∈ keys then some (f key) else none := by
  induction keys with
  | nil => rfl
  | cons k rest ih =>
      rw [List.map_cons, lookup, ih]
      by_cases here : k = key
      · rw [if_pos here, if_pos (here ▸ List.mem_cons_self), here]
      · simp [here, Ne.symm here]

theorem declaredKeys_ordered (types : Types Ty Job) (type : TypeRef Ty) :
    (types.declaredKeys type).Pairwise fun a b => keyLess a b = true :=
  List.pairwise_map.mpr
    (ordered_foldl_insert (fun name : Str => name) (fun _ => ()) (types.declaredNames type) List.Pairwise.nil)

theorem mem_declaredKeys {types : Types Ty Job} {type : TypeRef Ty} {key : Str} :
    key ∈ types.declaredKeys type ↔ key ∈ types.declaredNames type := by
  rw [Types.declaredKeys, mem_keys_iff,
    lookup_foldl_insert (fun name : Str => name) (fun _ => ()) fun _ _ _ => rfl, List.map_id']
  by_cases declared : key ∈ types.declaredNames type
  · simp [declared]
  · simp [declared, lookup]

variable (register locator) in
/-- The object that is written for a map. -/
def document (type : TypeRef Ty) (job : Option Job) (documents : List (Str × Json)) : List (Str × Json) :=
  storeMembers [] (writtenMembers register locator type job documents)

variable {type : TypeRef Ty} {job : Option Job} {documents : List (Str × Json)}

/-- A member whose value is that of all members of its name is found in the object. -/
theorem document_written {member : Str × Json} (written : member ∈ writtenMembers register locator type job documents)
    (only : ∀ other ∈ writtenMembers register locator type job documents, other.1 = member.1 →
      other.2 = member.2) :
    lookup member.1 (document register locator type job documents) = some member.2 := by
  rw [document, storeMembers, lookup_foldl_insert Prod.fst Prod.snd only,
    if_pos (List.mem_map_of_mem (f := Prod.fst) written)]

theorem document_absent {key : Str}
    (absent : ∀ member ∈ writtenMembers register locator type job documents, member.1 ≠ key) :
    lookup key (document register locator type job documents) = none := by
  have only : ∀ member ∈ writtenMembers register locator type job documents, member.1 = key →
      member.2 = .null := fun member written same => absurd same (absent member written)
  have missing : key ∉ (writtenMembers register locator type job documents).map Prod.fst := by
    intro there
    obtain ⟨member, written, same⟩ := List.mem_map.mp there
    exact absent member written same
  rw [document, storeMembers, lookup_foldl_insert Prod.fst Prod.snd only, if_neg missing]
  rfl

/-- The members of the object that is written for a map with free names. -/
theorem mem_writtenMembers (free : ∀ name ∈ register.types.declaredNames type, name ∉ restrictedKeys)
    {member : Str × Json} (written : member ∈ writtenMembers register locator type job documents) :
    member = (str "$type", .string (register.types.nameOf type)) ∨
      (∃ j, member = (str "$job", jobJson locator j)) ∨
      member.1 ∉ restrictedKeys ∧ member.1 ∈ register.types.declaredNames type ∧
        member.2 = (lookup member.1 documents).getD .null := by
  cases List.mem_cons.mp written with
  | inl same => exact Or.inl same
  | inr others =>
      cases List.mem_append.mp others with
      | inl given =>
          cases job with
          | none => cases given
          | some j => exact Or.inr (Or.inl ⟨j, List.mem_singleton.mp given⟩)
      | inr declared =>
          obtain ⟨a, there, rfl⟩ := List.mem_map.mp declared
          have name := List.mem_map_of_mem (f := Argument.name) there
          exact Or.inr (Or.inr ⟨free a.name name, name, rfl⟩)

theorem document_type (free : ∀ name ∈ register.types.declaredNames type, name ∉ restrictedKeys) :
    lookup (str "$type") (document register locator type job documents) =
      some (.string (register.types.nameOf type)) := by
  have written : (str "$type", Json.string (register.types.nameOf type)) ∈
      writtenMembers register locator type job documents := List.mem_cons_self
  apply document_written written
  intro other other_written same
  rcases mem_writtenMembers free other_written with rfl | ⟨j, rfl⟩ | ⟨unrestricted, _⟩
  · rfl
  · exact absurd same (show ¬ str "$job" = str "$type" by decide)
  · rw [same] at unrestricted
    exact absurd (show str "$type" ∈ restrictedKeys by decide) unrestricted

theorem document_no_value (free : ∀ name ∈ register.types.declaredNames type, name ∉ restrictedKeys) :
    lookup (str "$value") (document register locator type job documents) = none := by
  apply document_absent
  intro member written same
  rcases mem_writtenMembers free written with rfl | ⟨j, rfl⟩ | ⟨unrestricted, _⟩
  · exact absurd same (show ¬ str "$type" = str "$value" by decide)
  · exact absurd same (show ¬ str "$job" = str "$value" by decide)
  · rw [same] at unrestricted
    exact absurd (show str "$value" ∈ restrictedKeys by decide) unrestricted

/-- The members for the arguments, in the order of the keys. -/
theorem document_children (free : ∀ name ∈ register.types.declaredNames type, name ∉ restrictedKeys) :
    childMembers (document register locator type job documents) =
      (register.types.declaredKeys type).map fun key => (key, (lookup key documents).getD .null) := by
  have ordered : Ordered (document register locator type job documents) :=
    ordered_foldl_insert Prod.fst Prod.snd _ List.Pairwise.nil
  have children {key : Str} (unrestricted : key ∉ restrictedKeys)
      {member : Str × Json} (written : member ∈ writtenMembers register locator type job documents)
      (same : member.1 = key) :
      key ∈ register.types.declaredNames type ∧ member.2 = (lookup key documents).getD .null := by
    subst same
    rcases mem_writtenMembers free written with rfl | ⟨j, rfl⟩ | ⟨_, declared, value⟩
    · exact absurd (show str "$type" ∈ restrictedKeys by decide) unrestricted
    · exact absurd (show str "$job" ∈ restrictedKeys by decide) unrestricted
    · exact ⟨declared, value⟩
  apply ordered_ext (ordered.filter _)
  · exact List.pairwise_map.mpr (declaredKeys_ordered register.types type)
  · intro key
    rw [lookup_map_keys, ← childMembers]
    by_cases restricted : key ∈ restrictedKeys
    · have undeclared : key ∉ register.types.declaredKeys type :=
        fun inside => free key (mem_declaredKeys.mp inside) restricted
      rw [if_neg undeclared]
      by_contra there
      obtain ⟨entry, inside, same⟩ := List.mem_map.mp (mem_keys_iff.mpr there)
      have unrestricted := (List.mem_filter.mp inside).2
      rw [same] at unrestricted
      simp [restricted] at unrestricted
    · rw [lookup_childMembers restricted]
      by_cases declared : key ∈ register.types.declaredNames type
      · obtain ⟨a, there, rfl⟩ := List.mem_map.mp declared
        have written : (a.name, (lookup a.name documents).getD .null) ∈
            writtenMembers register locator type job documents :=
          List.mem_cons_of_mem _ (List.mem_append_right _ (List.mem_map_of_mem there))
        rw [if_pos (mem_declaredKeys.mpr declared)]
        exact document_written written fun other other_written same =>
          (children restricted other_written same).2
      · rw [if_neg fun inside => declared (mem_declaredKeys.mp inside)]
        exact document_absent fun member written same => declared (children restricted written same).1

/-! ### Reading the document -/

theorem isMap_set {key : Str} {p q v : Value Ty Job} (stored : p.set register.types key v = (q, none)) :
    q.isMap = p.isMap := by
  have after : q = (p.set register.types key v).1 := by rw [stored]
  rcases set_cases register.types p key v with same | ⟨flags, t, task, job, children, rfl, _, _, result⟩
  · rw [after, same]
  · rw [after, result]
    rfl

theorem createMembers_isMap {members : List (Str × Json)} {table : Table Ty} {p w : Value Ty Job}
    (built : (createMembers register type members table p).1 = .ok w) : w.isMap = p.isMap := by
  induction members generalizing table p with
  | nil => exact congrArg isMap (Except.ok.inj built).symm
  | cons member rest ih =>
      obtain ⟨key, j⟩ := member
      by_cases restricted : key ∈ restrictedKeys
      · obtain ⟨q, read, others⟩ := createMembers_keyword register restricted built
        rw [ih others, (keyword_keeps register read).1]
      · obtain ⟨_, v, q, _, stored, others⟩ := createMembers_store register restricted built
        rw [ih others, isMap_set stored]

/-- The keywords of an object that was written: its type, and the job with its locator. -/
theorem document_keywords (free : ∀ name ∈ register.types.declaredNames type, name ∉ restrictedKeys)
    {member : Str × Json} (inside : member ∈ document register locator type job documents)
    (restricted : member.1 ∈ restrictedKeys) :
    member.1 = str "$type" ∨ ∃ j, member = (str "$job", jobJson locator j) := by
  cases mem_storeMembers inside with
  | inl nothing => cases nothing
  | inr written =>
      rcases mem_writtenMembers free written with rfl | located | ⟨unrestricted, _⟩
      · exact Or.inl rfl
      · exact Or.inr located
      · exact absurd restricted unrestricted

theorem keyword_job (type : TypeRef Ty) (j : Job) (job : Option Job) (children : List (Str × Value Ty Job)) :
    keyword register type (str "$job") (jobJson locator j) (.map {} type none job children) =
      .ok (.map {} type none (some (register.dummy (locator j))) children) := by
  unfold keyword
  rw [if_neg (by decide), if_pos rfl]
  rfl

/-- Reading the members of such an object into a map. -/
theorem createMembers_document (t : TypeRef Ty) {members : List (Str × Json)}
    (keywords : ∀ member ∈ members, member.1 ∈ restrictedKeys →
      member.1 = str "$type" ∨ ∃ j : Job, member = (str "$job", jobJson locator j)) (job : Option Job) :
    ∃ job', ∀ table children, createMembers register t members table (.map {} t none job children) =
      match readMembers register t (childMembers members) table children with
      | (.error e, later) => (.error e, later)
      | (.ok children, later) => (.ok (.map {} t none job' children), later) := by
  induction members generalizing job with
  | nil => exact ⟨job, fun table children => rfl⟩
  | cons member rest ih =>
      obtain ⟨key, j⟩ := member
      have others := fun member there => keywords member (List.mem_cons_of_mem _ there)
      by_cases restricted : key ∈ restrictedKeys
      · have dropped : childMembers ((key, j) :: rest) = childMembers rest := by
          simp [childMembers, restricted]
        rcases keywords (key, j) List.mem_cons_self restricted with rfl | ⟨given, same⟩
        · obtain ⟨job', reads⟩ := ih others job
          refine ⟨job', fun table children => ?_⟩
          rw [createMembers, if_pos restricted, keyword_type, dropped]
          exact reads table children
        · obtain ⟨rfl, rfl⟩ := Prod.mk.inj same
          obtain ⟨job', reads⟩ := ih others (some (register.dummy (locator given)))
          refine ⟨job', fun table children => ?_⟩
          rw [createMembers, if_pos restricted, keyword_job, dropped]
          exact reads table children
      · have kept : childMembers ((key, j) :: rest) = (key, j) :: childMembers rest := by
          simp [childMembers, restricted]
        obtain ⟨job', reads⟩ := ih others job
        refine ⟨job', fun table children => ?_⟩
        rw [createMembers, if_neg restricted, kept, readMembers]
        cases create register j table with
        | mk result later =>
            cases result with
            | error e => rfl
            | ok v =>
                simp only [Value.set, restricted]
                cases marks : markFor (ownArgument register.types t key) v with
                | error e => simp [Value.isMap]
                | ok m => simpa [Value.isMap] using reads later (insert key m children)

variable (locator) in
/-- The object that was written for a map is read as a map, if the name of its type is that of a type of
    maps. -/
theorem create_document (job : Option Job) (documents : List (Str × Json))
    (free : ∀ name ∈ register.types.declaredNames type, name ∉ restrictedKeys)
    {table : Table Ty} {t : Ty} (typed : (resolve register table (register.types.nameOf type)).1 = .base t)
    (structured : register.valueType t = none) :
    ∃ job', create register (.object (document register locator type job documents)) table =
      match readMembers register (.base t)
          ((register.types.declaredKeys type).map fun key => (key, (lookup key documents).getD .null))
          (resolve register table (register.types.nameOf type)).2 [] with
      | (.error e, later) => (.error e, later)
      | (.ok children, later) => (.ok (.map {} (.base t) none job' children), later) := by
  have starts : initialValue register (.base t)
      (lookup (str "$value") (document register locator type job documents)).isSome =
        .map {} (.base t) none none [] := by
    simp [initialValue, Register.simple, structured, document_no_value free]
  have keywords : ∀ member ∈ document register locator type job documents, member.1 ∈ restrictedKeys →
      member.1 = str "$type" ∨ ∃ j : Job, member = (str "$job", jobJson locator j) :=
    fun member inside => document_keywords free inside
  obtain ⟨job', reads⟩ := createMembers_document (.base t) keywords none
  refine ⟨job', ?_⟩
  rw [create, objectType, document_type free]
  dsimp only
  rw [typed, starts, reads, document_children free]

/-- What is read as a map has the name of a type of maps. -/
theorem create_document_isMap (free : ∀ name ∈ register.types.declaredNames type, name ∉ restrictedKeys)
    {table later : Table Ty} {w : Value Ty Job}
    (created : create register (.object (document register locator type job documents)) table = (.ok w, later))
    (isMap : w.isMap = true) :
    ∃ t, (resolve register table (register.types.nameOf type)).1 = .base t ∧ register.valueType t = none := by
  rw [create, objectType, document_type free] at created
  dsimp only at created
  have starts := createMembers_isMap (congrArg Prod.fst created)
  rw [isMap, document_no_value free] at starts
  unfold initialValue at starts
  split at starts
  · cases starts
  · next plain =>
    cases resolved : (resolve register table (register.types.nameOf type)).1 with
    | array component =>
        rw [resolved] at starts
        cases starts
    | base t =>
        rw [resolved] at plain
        simp only [Register.simple, Option.isSome_none, Bool.or_false, Bool.not_eq_true,
          Option.isSome_eq_false_iff, Option.isNone_iff_eq_none] at plain
        exact ⟨t, rfl, plain⟩

/-! ### Flags and defaults -/

variable (register) in
/-- The value is compared with others as the value that was written. -/
def EqualsAs (v w : Value Ty Job) : Prop := ∀ d : Value Ty Job, d.equals w = d.equals (asRead register v)

theorem recovered_withFlags {v w : Value Ty Job} (f : Flags → Flags) :
    Recovered register connector v (w.withFlags f) ↔ Recovered register connector v w := by
  constructor
  · intro recovered
    cases w with
    | scalar flags s => cases recovered with | scalar same => exact .scalar same
    | array flags ctype elements => cases recovered with | array size each => exact .array size each
    | map flags type task job children =>
        cases recovered with
        | map image typed found alike each => exact .map image typed found alike each
  · intro recovered
    cases recovered with
    | scalar same => exact .scalar same
    | array size each => exact .array size each
    | map image typed found alike each => exact .map image typed found alike each

theorem Recovered.head {v w : Value Ty Job} (recovered : Recovered register connector v w) :
    SameHead register connector v w := by
  cases recovered with
  | scalar same => exact .scalar same
  | array => exact .array
  | map _ typed => exact .map typed

/-- Whether a default can be compared depends on the comparisons only. -/
theorem comparable_congr {type : TypeRef Ty} {key : Str} {v w : Value Ty Job}
    (same : ∀ d : Value Ty Job, d.equals v = d.equals w) :
    Comparable register type key v ↔ Comparable register type key w := by
  unfold Comparable markFor
  cases ownArgument register.types type key with
  | none => exact ⟨fun _ => ⟨w, rfl⟩, fun _ => ⟨v, rfl⟩⟩
  | some a =>
      have defaults : equalsDefault a v = equalsDefault a w := by
        unfold equalsDefault
        cases a.defaultValue with
        | none => rfl
        | some d => exact same d
      simp only [defaults, except_map_eq_ok, exists_comm, exists_and_left, exists_eq', and_true]

theorem equalsAs_scalar {flags flags' : Flags} {s s' : Scalar}
    (same : asRead register (.scalar flags s : Value Ty Job) = .scalar flags s') :
    EqualsAs register (.scalar flags s : Value Ty Job) (.scalar flags' s') := by
  intro d
  rw [same]
  cases d with
  | scalar => rfl
  | array => rfl
  | map => rfl

theorem equalsAs_map {flags flags' : Flags} {type type' : TypeRef Ty} {task task' : Option Str}
    {job job' : Option Job} {children children' : List (Str × Value Ty Job)} :
    EqualsAs register (.map flags type task job children) (.map flags' type' task' job' children') := by
  intro d
  cases d with
  | scalar => rfl
  | array => rfl
  | map => rfl

theorem equalsElements_asRead {elements ws : List (Value Ty Job)}
    (each : List.Forall₂ (EqualsAs register) elements ws) (ds : List (Value Ty Job)) :
    equalsElements ds ws = equalsElements ds (elementsAsRead register elements) := by
  induction each generalizing ds with
  | nil => rfl
  | cons first _ ih =>
      cases ds with
      | nil => rfl
      | cons d ds => rw [elementsAsRead, equalsElements, equalsElements, first d, ih ds]

theorem length_elementsAsRead (elements : List (Value Ty Job)) :
    (elementsAsRead register elements).length = elements.length := by
  induction elements with
  | nil => rfl
  | cons element rest ih => rw [elementsAsRead, List.length_cons, List.length_cons, ih]

theorem equalsAs_array {flags flags' : Flags} {ctype ctype' : TypeRef Ty} {elements ws : List (Value Ty Job)}
    (each : List.Forall₂ (EqualsAs register) elements ws) :
    EqualsAs register (.array flags ctype elements) (.array flags' ctype' ws) := by
  intro d
  cases d with
  | scalar => rfl
  | map => rfl
  | array _ _ ds =>
      rw [asRead, equals, equals, length_elementsAsRead, each.length_eq, equalsElements_asRead each]

/-! ### Reading scalars -/

/-- The object that is written for a path is read as its value, cast to the type that has the name. -/
theorem create_path_parameter (table : Table Ty) (text : Str) :
    create register (Scalar.parameter register (.path text)) table =
      ((scalarFor register (resolve register table (register.types.nameOf (.base register.types.path))).1
          (.string text)).map (.scalar {}),
        (resolve register table (register.types.nameOf (.base register.types.path))).2) :=
  create_typedValue register table (register.types.nameOf (.base register.types.path)) (.string text)

/-- A text is read as a path exactly by the types of paths. -/
theorem scalarFor_path_iff {type : TypeRef Ty} {text other : Str} :
    scalarFor register type (.string text) = .ok (.path other) ↔
      (register.simple type = some .path ∧
        register.types.accepts type (.base register.types.string) = false) ∧ other = text := by
  unfold scalarFor
  simp only [scalarOf, Scalar.null, Scalar.scalarType, Value.type, Bool.or_eq_true]
  cases accepted : register.types.accepts type (.base register.types.string) with
  | true => simp
  | false =>
      cases simple : register.simple type with
      | none => simp
      | some valueType =>
          cases valueType with
          | path =>
              simp only [Option.bind_some, Scalar.cast, Scalar.asPath, Option.map_some]
              constructor
              · rintro ⟨⟩
                exact ⟨⟨trivial, trivial⟩, rfl⟩
              · rintro ⟨_, rfl⟩
                rfl
          | _ => simp [Scalar.cast, Scalar.asString, Scalar.asInteger, Scalar.asBoolean, Scalar.asReal]

/-- The type of paths is in the table, if it is known. -/
theorem resolve_pathsKnown {table : Table Ty} (known : PathsKnown register table) :
    (resolve register table (register.types.nameOf (.base register.types.path))).2 = table := by
  have simple := known.1
  unfold resolve at simple ⊢
  cases found : getType table (register.types.nameOf (.base register.types.path)) with
  | some type => rfl
  | none =>
      rw [found] at simple
      simp only [Register.simple, register.valueType_placeholder] at simple
      cases simple

/-! ### Recoverable values are recovered -/

variable (register numbers connector locator) in
/-- What the document of a value is read as. -/
structure ReadAs (v w : Value Ty Job) : Prop where
  recovered : Recovered register connector v w
  equals : EqualsAs register v w

variable (register numbers connector locator) in
/-- The text of a value is written, and its document is read as a value with the same parameters. -/
def Reads (v : Value Ty Job) (table later : Table Ty) : Prop :=
  (∃ text, outputJson register numbers connector locator v = .ok text) ∧
    ∃ w, create register (parameters register locator v) table = (.ok w, later) ∧ ReadAs register connector v w

theorem reads_scalar {flags : Flags} {s : Scalar} (lossless : s.Recoverable register) (table : Table Ty) :
    Reads register numbers connector locator (.scalar flags s) table table := by
  have same {s : Scalar} (no_path : s.scalarType ≠ .path)
      (kept : asRead register (.scalar flags s : Value Ty Job) = .scalar flags s) :
      ReadAs register connector (.scalar flags s : Value Ty Job) (.scalar {} s) :=
    ⟨.scalar (.same no_path), equalsAs_scalar kept⟩
  cases lossless with
  | none => exact ⟨⟨_, rfl⟩, _, by rw [parameters, Scalar.parameter, create], same (by simp [Scalar.scalarType]) rfl⟩
  | integer n => exact ⟨⟨_, rfl⟩, _, by rw [parameters, Scalar.parameter, create], same (by simp [Scalar.scalarType]) rfl⟩
  | boolean b => exact ⟨⟨_, rfl⟩, _, by rw [parameters, Scalar.parameter, create], same (by simp [Scalar.scalarType]) rfl⟩
  | string valid =>
      obtain ⟨escaped, dumped⟩ := dumpEscaped_iff.mpr valid
      have written : outputJson register numbers connector locator (.scalar flags (.string _)) =
          .ok (quoted escaped) := except_map_eq_ok.mpr ⟨escaped, dumped, rfl⟩
      exact ⟨⟨_, written⟩, _, by rw [parameters, Scalar.parameter, create], same (by simp [Scalar.scalarType]) rfl⟩
  | @real bits finite fits =>
      refine ⟨⟨_, rfl⟩, ?_⟩
      rw [parameters, Scalar.parameter, if_pos finite, create, scalarOf]
      cases integral : register.conversions.integral bits with
      | none => exact ⟨_, rfl, same (by simp [Scalar.scalarType]) (by rw [asRead, integral])⟩
      | some n => exact ⟨_, rfl, .scalar (.integral (fits n integral)), equalsAs_scalar (by rw [asRead, integral])⟩

theorem reads_path {flags : Flags} {text : Str} {table : Table Ty} (known : PathsKnown register table) :
    Reads register numbers connector locator (.scalar flags (.path text)) table table := by
  have written : ∃ path, outputJson register numbers connector locator (.scalar flags (.path text)) = .ok path :=
    ⟨_, by rw [outputJson, scalarText, resolve_local]; rfl⟩
  have read := scalarFor_path_iff.mpr ⟨known, show text = text from rfl⟩
  refine ⟨written, .scalar {} (.path text), ?_, .scalar (.path (resolve_local connector text)), equalsAs_scalar rfl⟩
  rw [parameters, create_path_parameter, read, resolve_pathsKnown known]
  rfl

variable (numbers connector) in
/-- The elements of an array, one after the other. -/
theorem reads_elements {elements : List (Value Ty Job)} {table later : Table Ty}
    (recoverable : RecoverableElements register locator table elements later)
    (each : ∀ element ∈ elements, ∀ table later, Recoverable register locator table element later →
      Reads register numbers connector locator element table later) :
    (∃ texts, outputElements register numbers connector locator elements = .ok texts) ∧
      ∀ start, ∃ ctype ws, createElements register (elementParameters register locator elements) table start =
          (.ok (ctype, start.2 ++ ws), later) ∧ List.Forall₂ (ReadAs register connector) elements ws := by
  induction elements generalizing table with
  | nil =>
      cases recoverable
      refine ⟨⟨[], rfl⟩, fun start => ⟨start.1, [], ?_, .nil⟩⟩
      rw [elementParameters, createElements, List.append_nil]
  | cons element rest ih =>
      cases recoverable with
      | cons first others =>
          obtain ⟨head, tail⟩ := List.forall_mem_cons.mp each
          obtain ⟨⟨text, written⟩, w, created, read⟩ := head _ _ first
          obtain ⟨⟨texts, all_written⟩, read_all⟩ := ih others tail
          refine ⟨⟨text :: texts, by rw [outputElements, written, all_written]; rfl⟩, fun start => ?_⟩
          obtain ⟨ctype, ws, others_created, all_read⟩ := read_all (pushBack register start w)
          refine ⟨ctype, w :: ws, ?_, .cons read all_read⟩
          rw [elementParameters, createElements_step start created, others_created, pushBack, List.append_assoc,
            List.singleton_append]

/-- The members for other keys leave what is stored. -/
theorem readMembers_lookup {type : TypeRef Ty} {key : Str} {members : List (Str × Json)} {table later : Table Ty}
    {earlier result : List (Str × Value Ty Job)} (other : ∀ member ∈ members, member.1 ≠ key)
    (read : readMembers register type members table earlier = (.ok result, later)) :
    lookup key result = lookup key earlier := by
  induction members generalizing table earlier with
  | nil =>
      rw [readMembers] at read
      cases read
      rfl
  | cons member rest ih =>
      obtain ⟨k, j⟩ := member
      obtain ⟨here, there⟩ := List.forall_mem_cons.mp other
      rw [readMembers] at read
      split at read
      · cases read
      · split at read
        · cases read
        · rw [ih there read, lookup_insert, if_neg here]

variable (register locator) in
/-- The members for the arguments of a map. -/
def argumentMembers (children : List (Str × Value Ty Job)) (keys : List Str) : List (Str × Json) :=
  keys.map fun key => (key, (lookup key (childParameters register locator children)).getD .null)

theorem argumentMembers_cons (children : List (Str × Value Ty Job)) (key : Str) (keys : List Str) :
    argumentMembers register locator children (key :: keys) =
      (key, ((lookup key children).map (parameters register locator)).getD .null) ::
        argumentMembers register locator children keys := by
  rw [argumentMembers, List.map_cons, lookup_childParameters]
  rfl

/-- The first key differs from the others. -/
theorem argumentMembers_other {children : List (Str × Value Ty Job)} {key : Str} {keys : List Str}
    (before : ∀ other ∈ keys, keyLess key other = true) :
    ∀ member ∈ argumentMembers register locator children keys, member.1 ≠ key := by
  intro member inside same
  obtain ⟨other, there, rfl⟩ := List.mem_map.mp inside
  have irreflexive := before other there
  rw [← same, keyLess_irrefl] at irreflexive
  cases irreflexive

variable (numbers connector) in
/-- The arguments of a map, in the order of their keys. -/
theorem reads_keys {type : TypeRef Ty} {children : List (Str × Value Ty Job)} {keys : List Str}
    {table later : Table Ty} (ordered : keys.Pairwise fun a b => keyLess a b = true)
    (recoverable : RecoverableKeys register locator type children keys table later)
    (each : ∀ key ∈ keys, ∀ child, lookup key children = some child → ∀ table later,
      Recoverable register locator table child later → Reads register numbers connector locator child table later) :
    (∀ key ∈ keys, ∀ child, lookup key children = some child →
        ∃ text, outputJson register numbers connector locator child = .ok text) ∧
      ∀ earlier, ∃ result, readMembers register type (argumentMembers register locator children keys) table earlier =
          (.ok result, later) ∧
        ∀ key ∈ keys, ∀ child, lookup key children = some child →
          ∃ w, lookup key result = some w ∧ Recovered register connector child w := by
  induction keys generalizing table with
  | nil =>
      cases recoverable
      exact ⟨nofun, fun earlier => ⟨earlier, rfl, nofun⟩⟩
  | cons key keys ih =>
      obtain ⟨before, ordered⟩ := List.pairwise_cons.mp ordered
      obtain ⟨here, there⟩ := List.forall_mem_cons.mp each
      cases recoverable with
      | missing absent comparable others =>
          obtain ⟨m, marks⟩ := comparable
          obtain ⟨writes, reads⟩ := ih ordered others there
          refine ⟨List.forall_mem_cons.mpr ⟨fun child found => ?_, writes⟩, fun earlier => ?_⟩
          · rw [absent] at found
            cases found
          · obtain ⟨result, read, recovered⟩ := reads (insert key m earlier)
            refine ⟨result, ?_, List.forall_mem_cons.mpr ⟨fun child found => ?_, recovered⟩⟩
            · have null : create register .null table = (.ok (.scalar {} .none), table) := by rw [create]
              rw [argumentMembers_cons, absent]
              exact (readMembers_step earlier null marks).trans read
            · rw [absent] at found
              cases found
      | @present _ _ _ _ _ _ _ child found first comparable others =>
          obtain ⟨written, w, created, recovered, equals⟩ := here child found _ _ first
          obtain ⟨m, marks⟩ := (comparable_congr equals).mpr comparable
          obtain ⟨f, rfl⟩ := markFor_withFlags marks
          obtain ⟨writes, reads⟩ := ih ordered others there
          refine ⟨List.forall_mem_cons.mpr ⟨fun other same => ?_, writes⟩, fun earlier => ?_⟩
          · rw [found] at same
            cases same
            exact written
          · obtain ⟨result, read, all_recovered⟩ := reads (insert key (w.withFlags f) earlier)
            refine ⟨result, ?_, List.forall_mem_cons.mpr ⟨fun other same => ?_, all_recovered⟩⟩
            · rw [argumentMembers_cons, found]
              exact (readMembers_step earlier created marks).trans read
            · rw [found] at same
              cases same
              refine ⟨w.withFlags f, ?_, (recovered_withFlags f).mpr recovered⟩
              rw [readMembers_lookup (argumentMembers_other before) read, lookup_insert, if_pos rfl]

theorem outputArguments_ok {texts : List (Str × Except Error Str)} {arguments : List (Argument Ty Job)}
    (each : ∀ a ∈ arguments, ∃ text, (lookup a.name texts).getD (.ok (str "null")) = .ok text) :
    ∃ members, outputArguments texts arguments = .ok members := by
  induction arguments with
  | nil => exact ⟨[], rfl⟩
  | cons a rest ih =>
      obtain ⟨⟨text, first⟩, others⟩ := List.forall_mem_cons.mp each
      obtain ⟨members, written⟩ := ih others
      exact ⟨memberText a.name text :: members, by rw [outputArguments, first, written]; rfl⟩

variable (numbers) in
theorem outputJob_ok {job : Option Job} (located : ∀ j, job = some j → Utf8.Valid (locator j)) :
    ∃ members, outputJob numbers locator job = .ok members := by
  cases job with
  | none => exact ⟨[], rfl⟩
  | some j =>
      obtain ⟨name, name_dumped⟩ : ∃ name, dumpEscaped .start (str "locator") = .ok name :=
        dumpEscaped_iff.mpr (by decide)
      obtain ⟨text, dumped⟩ := dumpEscaped_iff.mpr (located j rfl)
      rw [outputJob, jobJson, dump, dumpMembers, name_dumped, dump, dumped]
      exact ⟨_, rfl⟩

/-- The text of a recoverable value is written, and its document is read with all parameters. -/
theorem reads_of_recoverable (v : Value Ty Job) : PlainTexts register connector v → ∀ table later,
    Recoverable register locator table v later → Reads register numbers connector locator v table later := by
  apply Hereditary.value (P := fun v => PlainTexts register connector v → ∀ table later,
    Recoverable register locator table v later → Reads register numbers connector locator v table later)
  constructor
  case scalar =>
      intro flags s _ table later recoverable
      cases recoverable with
      | scalar lossless => exact reads_scalar lossless table
      | path known => exact reads_path known
  case array =>
      intro flags ctype elements ih plain table later recoverable
      cases plain with
      | array plain =>
          cases recoverable with
          | array each =>
              obtain ⟨⟨texts, written⟩, reads⟩ := reads_elements numbers connector each
                fun element member => ih element member (plain element member)
              obtain ⟨ctype', ws, created, all_read⟩ := reads (.base register.types.any, [])
              have pairs := List.forall₂_iff_zip.mp (all_read.imp fun _ _ read => read.recovered)
              refine ⟨⟨_, by rw [outputJson, written]; rfl⟩, .array {} ctype' ws, ?_, ?_, ?_⟩
              · rw [parameters, create, created]
                rfl
              · exact .array pairs.1 fun pair member => pairs.2 member
              · exact equalsAs_array (all_read.imp fun _ _ read => read.equals)
  case map =>
      intro flags type task job children ih plain table later recoverable
      cases plain with
      | map typeName names plain =>
          cases recoverable with
          | @map _ _ _ _ t _ _ _ typed named structured located declared each =>
              have free := fun name inside => (names name inside).2
              obtain ⟨writes, reads⟩ := reads_keys numbers connector
                (declaredKeys_ordered register.types type) each
                fun key inside child found => ih key child found
                  (plain key child found (mem_declaredKeys.mp inside))
              obtain ⟨jobMember, job_written⟩ := outputJob_ok numbers located
              have each_written : ∀ a ∈ register.types.declarations type, ∃ text,
                  (lookup a.name (outputChildren register numbers connector locator children)).getD
                    (.ok (str "null")) = .ok text := by
                intro a member
                rw [lookup_outputChildren]
                cases found : lookup a.name children with
                | none => exact ⟨_, rfl⟩
                | some child =>
                    exact writes a.name (mem_declaredKeys.mpr (List.mem_map_of_mem member)) child found
              obtain ⟨members, written⟩ := outputArguments_ok each_written
              obtain ⟨result, read, recovered⟩ := reads []
              obtain ⟨job', creates⟩ := create_document locator job (childParameters register locator children)
                free typed structured
              rw [← argumentMembers, read] at creates
              have found {key : Str} {child : Value Ty Job} (given : lookup key children = some child) :
                  lookup key result = some ((lookup key result).getD (.scalar {} .none)) ∧
                    Recovered register connector child ((lookup key result).getD (.scalar {} .none)) := by
                obtain ⟨w, there, same⟩ :=
                  recovered key (mem_declaredKeys.mpr (declared key child given)) child given
                rw [there]
                exact ⟨rfl, same⟩
              refine ⟨⟨_, by rw [outputJson, job_written, written]; rfl⟩, .map {} (.base t) none job' result, ?_, ?_, ?_⟩
              · rw [parameters, ← document, creates]
              · exact .map (fun key => (lookup key result).getD (.scalar {} .none)) named
                  (fun key child given => (found given).1) (fun key child given => (found given).2.head)
                  fun key child given _ => (found given).2
              · exact equalsAs_map

/-! ### Recovered values are recoverable -/

variable (register numbers connector locator) in
/-- If the text of a value is written and its document is read with all parameters, then the value is
    recoverable. -/
def OnlyRecoverable (v : Value Ty Job) : Prop :=
  ∀ text table later w, outputJson register numbers connector locator v = .ok text →
    create register (parameters register locator v) table = (.ok w, later) → Recovered register connector v w →
      Recoverable register locator table v later ∧ EqualsAs register v w

theorem onlyRecoverable_scalar (flags : Flags) (s : Scalar) :
    OnlyRecoverable register numbers connector locator (.scalar flags s : Value Ty Job) := by
  intro text table later w written created recovered
  rw [parameters] at created
  cases s with
  | unset => cases written
  | none =>
      rw [Scalar.parameter, create] at created
      cases created
      exact ⟨.scalar .none, equalsAs_scalar rfl⟩
  | integer n =>
      rw [Scalar.parameter, create] at created
      cases created
      exact ⟨.scalar (.integer n), equalsAs_scalar rfl⟩
  | boolean b =>
      rw [Scalar.parameter, create] at created
      cases created
      exact ⟨.scalar (.boolean b), equalsAs_scalar rfl⟩
  | string content =>
      rw [Scalar.parameter, create] at created
      cases created
      obtain ⟨escaped, dumped, _⟩ := except_map_eq_ok.mp (show _ = Except.ok text from written)
      exact ⟨.scalar (.string (dumpEscaped_iff.mp ⟨escaped, dumped⟩)), equalsAs_scalar rfl⟩
  | real bits =>
      rw [Scalar.parameter] at created
      cases finite : isFinite bits with
      | false =>
          -- a number that is not finite is written as null
          rw [finite, if_neg Bool.false_ne_true, create] at created
          cases created
          cases recovered with
          | scalar same => cases same
      | true =>
          rw [finite, if_pos rfl, create, scalarOf] at created
          cases integral : register.conversions.integral bits with
          | none =>
              rw [integral] at created
              cases created
              have fits : ∀ n, register.conversions.integral bits = some n →
                  Scalar.realEquals (register.conversions.ofInteger n) bits = true := by
                intro n given
                rw [integral] at given
                cases given
              exact ⟨.scalar (.real finite fits), equalsAs_scalar (by rw [asRead, integral])⟩
          | some n =>
              rw [integral] at created
              cases created
              have fits : ∀ m, register.conversions.integral bits = some m →
                  Scalar.realEquals (register.conversions.ofInteger m) bits = true := by
                intro m given
                rw [integral] at given
                cases given
                cases recovered with
                | scalar same => cases same with | integral equal => exact equal
              exact ⟨.scalar (.real finite fits), equalsAs_scalar (by rw [asRead, integral])⟩
  | path path =>
      rw [create_path_parameter, Prod.mk.injEq] at created
      obtain ⟨cast, rfl⟩ := created
      obtain ⟨s', read, rfl⟩ := except_map_eq_ok.mp cast
      cases recovered with
      | scalar same =>
          cases same with
          | same no_path => exact absurd rfl no_path
          | path resolves =>
              obtain ⟨known, rfl⟩ := scalarFor_path_iff.mp read
              exact ⟨(resolve_pathsKnown known).symm ▸ .path known, equalsAs_scalar rfl⟩

theorem outputElements_each {elements : List (Value Ty Job)} {texts : List Str}
    (written : outputElements register numbers connector locator elements = .ok texts) :
    ∀ element ∈ elements, ∃ text, outputJson register numbers connector locator element = .ok text := by
  induction elements generalizing texts with
  | nil => exact List.forall_mem_nil _
  | cons element rest ih =>
      rw [outputElements] at written
      cases first : outputJson register numbers connector locator element with
      | error e => simp [first] at written
      | ok text =>
          simp only [first] at written
          obtain ⟨others, tail, _⟩ := except_map_eq_ok.mp written
          exact List.forall_mem_cons.mpr ⟨⟨text, first⟩, ih tail⟩

theorem outputArguments_each {texts : List (Str × Except Error Str)} {arguments : List (Argument Ty Job)}
    {members : List Str} (written : outputArguments texts arguments = .ok members) :
    ∀ a ∈ arguments, ∃ text, (lookup a.name texts).getD (.ok (str "null")) = .ok text := by
  induction arguments generalizing members with
  | nil => exact nofun
  | cons a rest ih =>
      rw [outputArguments] at written
      cases first : (lookup a.name texts).getD (.ok (str "null")) with
      | error e => simp [first] at written
      | ok text =>
          simp only [first] at written
          obtain ⟨others, tail, _⟩ := except_map_eq_ok.mp written
          exact List.forall_mem_cons.mpr ⟨⟨text, first⟩, ih tail⟩

theorem onlyRecoverable_elements {elements ws : List (Value Ty Job)} {table later : Table Ty}
    {start result : TypeRef Ty × List (Value Ty Job)}
    (each : ∀ element ∈ elements, OnlyRecoverable register numbers connector locator element)
    (written : ∀ element ∈ elements, ∃ text, outputJson register numbers connector locator element = .ok text)
    (created : createElements register (elementParameters register locator elements) table start =
      (.ok result, later))
    (appended : result.2 = start.2 ++ ws) (recovered : List.Forall₂ (Recovered register connector) elements ws) :
    RecoverableElements register locator table elements later ∧
      List.Forall₂ (EqualsAs register) elements ws := by
  induction recovered generalizing table start with
  | nil =>
      rw [elementParameters, createElements] at created
      cases created
      exact ⟨.nil, .nil⟩
  | @cons element w rest ws first _ ih =>
      rw [elementParameters, createElements] at created
      split at created
      · cases created
      · next w' mid outcome =>
        obtain ⟨others, others_appended⟩ := createElements_appends created
        have splits : w :: ws = w' :: others := by
          rw [others_appended, pushBack, List.append_assoc, List.singleton_append] at appended
          exact (List.append_cancel_left appended).symm
        obtain ⟨rfl, rfl⟩ := List.cons.inj splits
        obtain ⟨head, tail⟩ := List.forall_mem_cons.mp each
        obtain ⟨⟨text, head_written⟩, tail_written⟩ := List.forall_mem_cons.mp written
        obtain ⟨recoverable, equals⟩ := head text table mid w head_written outcome first
        obtain ⟨all_recoverable, all_equal⟩ := ih tail tail_written created others_appended
        exact ⟨.cons recoverable all_recoverable, .cons equals all_equal⟩

theorem onlyRecoverable_keys {type : TypeRef Ty} {children : List (Str × Value Ty Job)} {keys : List Str}
    {table later : Table Ty} {earlier result : List (Str × Value Ty Job)}
    (ordered : keys.Pairwise fun a b => keyLess a b = true)
    (each : ∀ key child, lookup key children = some child →
      key ∈ keys → OnlyRecoverable register numbers connector locator child)
    (written : ∀ key child, lookup key children = some child → key ∈ keys →
      ∃ text, outputJson register numbers connector locator child = .ok text)
    (read : readMembers register type (argumentMembers register locator children keys) table earlier =
      (.ok result, later))
    (recovered : ∀ key child, lookup key children = some child → key ∈ keys →
      ∃ w, lookup key result = some w ∧ Recovered register connector child w) :
    RecoverableKeys register locator type children keys table later := by
  induction keys generalizing table earlier with
  | nil =>
      cases read
      exact .nil
  | cons key keys ih =>
      obtain ⟨before, ordered⟩ := List.pairwise_cons.mp ordered
      have each_other := fun other child found inside =>
        each other child found (List.mem_cons_of_mem _ inside)
      have written_others := fun other child found inside =>
        written other child found (List.mem_cons_of_mem _ inside)
      rw [argumentMembers_cons, readMembers] at read
      split at read
      · cases read
      · next v mid outcome =>
        split at read
        · cases read
        · next m marks =>
          have tail := ih ordered each_other written_others read fun other child found inside =>
            recovered other child found (List.mem_cons_of_mem _ inside)
          cases found : lookup key children with
          | none =>
              rw [found, Option.map_none, Option.getD_none, create] at outcome
              cases outcome
              exact .missing found ⟨m, marks⟩ tail
          | some child =>
              rw [found] at outcome
              obtain ⟨w, there, same⟩ := recovered key child found List.mem_cons_self
              rw [readMembers_lookup (argumentMembers_other before) read, lookup_insert, if_pos rfl] at there
              cases there
              obtain ⟨text, child_written⟩ := written key child found List.mem_cons_self
              obtain ⟨f, rfl⟩ := markFor_withFlags marks
              obtain ⟨recoverable, equals⟩ := each key child found List.mem_cons_self text table mid v
                child_written outcome ((recovered_withFlags f).mp same)
              exact .present found recoverable ((comparable_congr equals).mp ⟨_, marks⟩) tail

theorem outputJob_located {job : Option Job} {members : List Str}
    (written : outputJob numbers locator job = .ok members) : ∀ j, job = some j → Utf8.Valid (locator j) := by
  rintro j rfl
  obtain ⟨text, dumped, _⟩ := except_map_eq_ok.mp written
  obtain ⟨texts, members_dumped, _⟩ := except_map_eq_ok.mp (show _ = Except.ok text from dumped)
  rw [dumpMembers] at members_dumped
  cases named : dumpEscaped .start (str "locator") with
  | error e => simp [named] at members_dumped
  | ok name =>
      cases located : dumpEscaped .start (locator j) with
      | error e => simp [named, dump, located, Except.map] at members_dumped
      | ok escaped => exact dumpEscaped_iff.mp ⟨escaped, located⟩

/-- What is read for a map holds nothing under other keys than those of the arguments. -/
theorem declared_of_read {type : TypeRef Ty} {children result : List (Str × Value Ty Job)} {keys : List Str}
    {table later : Table Ty} {key : Str} {w : Value Ty Job}
    (read : readMembers register type (argumentMembers register locator children keys) table [] =
      (.ok result, later))
    (found : lookup key result = some w) : key ∈ keys := by
  by_contra undeclared
  have absent : lookup key result = none := readMembers_lookup (fun member inside same => by
    obtain ⟨other, there, rfl⟩ := List.mem_map.mp inside
    exact undeclared (same ▸ there)) read
  rw [found] at absent
  cases absent

theorem onlyRecoverable (v : Value Ty Job) : PlainTexts register connector v →
    OnlyRecoverable register numbers connector locator v := by
  apply Hereditary.value (P := fun v => PlainTexts register connector v →
    OnlyRecoverable register numbers connector locator v)
  constructor
  case scalar => exact fun flags s _ => onlyRecoverable_scalar flags s
  case array =>
      intro flags ctype elements ih plain text table later w written created recovered
      cases plain with
      | array plain =>
          obtain ⟨texts, elements_written, _⟩ := except_map_eq_ok.mp (show _ = Except.ok text from written)
          rw [parameters, create] at created
          split at created
          · cases created
          · next ctype' ws _ outcome =>
            cases created
            cases recovered with
            | array size each =>
                have pairs : List.Forall₂ (Recovered register connector) elements ws :=
                  List.forall₂_iff_zip.mpr ⟨size, fun member => each _ member⟩
                obtain ⟨recoverable, equals⟩ := onlyRecoverable_elements
                  (fun element member => ih element member (plain element member))
                  (outputElements_each elements_written) outcome (List.nil_append _).symm pairs
                exact ⟨.array recoverable, equalsAs_array equals⟩
  case map =>
      intro flags type task job children ih plain text table later w written created recovered
      cases plain with
      | map typeName names plain =>
          cases recovered with
          | map image typed found _ each =>
              have free := fun name inside => (names name inside).2
              rw [outputJson] at written
              cases job_written : outputJob numbers locator job with
              | error e => simp [job_written] at written
              | ok jobMember =>
                  simp only [job_written] at written
                  obtain ⟨members, arguments_written, _⟩ := except_map_eq_ok.mp written
                  rw [parameters, ← document] at created
                  obtain ⟨t, resolved, structured⟩ := create_document_isMap free created rfl
                  obtain ⟨job', creates⟩ := create_document locator job
                    (childParameters register locator children) free resolved structured
                  rw [creates, ← argumentMembers] at created
                  split at created
                  · cases created
                  · next result _ read =>
                    cases created
                    have declared (key : Str) (child : Value Ty Job) (given : lookup key children = some child) :
                        key ∈ register.types.declaredNames type :=
                      mem_declaredKeys.mp (declared_of_read read (found key child given))
                    have children_written (key : Str) (child : Value Ty Job)
                        (given : lookup key children = some child)
                        (inside : key ∈ register.types.declaredKeys type) :
                        ∃ text, outputJson register numbers connector locator child = .ok text := by
                      obtain ⟨a, there, rfl⟩ := List.mem_map.mp (mem_declaredKeys.mp inside)
                      have some_text := outputArguments_each arguments_written a there
                      rwa [lookup_outputChildren, given] at some_text
                    have recoverable := onlyRecoverable_keys (declaredKeys_ordered register.types type)
                      (fun key child given inside => ih key child given
                        (plain key child given (mem_declaredKeys.mp inside)))
                      children_written read
                      (fun key child given inside =>
                        ⟨image key, found key child given, each key child given (mem_declaredKeys.mp inside)⟩)
                    exact ⟨.map resolved typed structured (outputJob_located job_written) declared recoverable,
                      equalsAs_map⟩

/-! ### The result -/

theorem keepsParameters_of_recoverable {table later : Table Ty} {v : Value Ty Job}
    (plain : PlainTexts register connector v) (recoverable : Recoverable register locator table v later) :
    KeepsParameters register numbers connector locator table v := by
  have reads : Reads register numbers connector locator v table later :=
    reads_of_recoverable v plain table later recoverable
  obtain ⟨⟨text, written⟩, w, created, read⟩ := reads
  exact ⟨text, written, _, (outputJson_parses v plain text written).parse, w, later, created, read.recovered⟩

theorem recoverable_of_keepsParameters {table : Table Ty} {v : Value Ty Job}
    (plain : PlainTexts register connector v)
    (keeps : KeepsParameters register numbers connector locator table v) :
    ∃ later, Recoverable register locator table v later := by
  obtain ⟨text, written, j, parsed, w, later, created, recovered⟩ := keeps
  rw [(outputJson_parses v plain text written).parse] at parsed
  cases parsed
  exact ⟨later, (onlyRecoverable v plain text table later w written created recovered).1⟩

theorem recoverable_of_key {type : TypeRef Ty} {children : List (Str × Value Ty Job)} {keys : List Str}
    {table later : Table Ty} {key : Str} {child : Value Ty Job} (found : lookup key children = some child)
    (inside : key ∈ keys) (recoverable : RecoverableKeys register locator type children keys table later) :
    ∃ before after, Recoverable register locator before child after := by
  induction keys generalizing table with
  | nil => cases inside
  | cons first keys ih =>
      cases recoverable with
      | missing absent _ others =>
          cases List.mem_cons.mp inside with
          | inl same =>
              rw [same, absent] at found
              cases found
          | inr there => exact ih there others
      | present given recovered _ others =>
          cases List.mem_cons.mp inside with
          | inl same =>
              rw [same, given] at found
              cases found
              exact ⟨_, _, recovered⟩
          | inr there => exact ih there others

/-- The children of a recoverable map are recoverable. -/
theorem recoverable_child {table later : Table Ty} {flags : Flags} {type : TypeRef Ty} {task : Option Str}
    {job : Option Job} {children : List (Str × Value Ty Job)} (key : Str) {child : Value Ty Job}
    (recoverable : Recoverable register locator table (.map flags type task job children) later)
    (found : lookup key children = some child) :
    ∃ before after, Recoverable register locator before child after := by
  cases recoverable with
  | map _ _ _ _ declared each =>
      exact recoverable_of_key found (mem_declaredKeys.mpr (declared key child found)) each

/-- A value with plain texts is written as a valid parameter file from which all its parameters are read,
    exactly when it is recoverable. -/
theorem parameters_recovered (register : Register Ty Job) (numbers : NumberFormat) (connector : Connector)
    (locator : Job → Str) (table : Table Ty) {v : Value Ty Job} (plain : PlainTexts register connector v) :
    KeepsParameters register numbers connector locator table v ↔
      ∃ later, Recoverable register locator table v later :=
  ⟨recoverable_of_keepsParameters plain, fun ⟨_, recoverable⟩ => keepsParameters_of_recoverable plain recoverable⟩

end

/-! ### Samples -/

/-- The types of the samples, where `A` has a `model` of any type and `B` below it the rate 2, unless it is
    given, and the path `out`, if it is given. -/
def fileTypes : Types Sample Unit :=
  { sampleTypes with
    arguments := fun
      | .A => [{ name := str "model", type := .base .any }]
      | .B => [{ name := str "rate", type := .base .integer, value := some (.scalar {} (.integer 2)) },
          { name := str "out", type := .base .path, required := false }]
      | _ => []
    nodup := fun t => by cases t <;> first | decide | exact List.nodup_nil }

def fileRegister : Register Sample Unit :=
  { sampleRegister with types := fileTypes }

/-- An experiment whose model has a text with a quote and a map inside. -/
def fileStart : Value Sample Unit :=
  .map {} (.base .B) none (some ())
    [(str "model", .array {} (.base .any) [.scalar {} (.string (str "a\"b")),
        .map {} (.base .A) none none [(str "model", .scalar {} (.integer (-5)))]]),
      (str "out", .scalar {} (.path (str "/tmp")))]

/-- The flags of a value that was configured. -/
def configured : Flags := { isSealed := true, validated := true, generated := true }

def fileValue : Value Sample Unit :=
  .map configured (.base .B) none (some ())
    [(str "model", .array configured (.base .any) [.scalar configured (.string (str "a\"b")),
        .map configured (.base .A) none none [(str "model", .scalar configured (.integer (-5)))]]),
      (str "out", .scalar configured (.path (str "/tmp"))),
      (str "rate", .scalar { isSealed := true, isDefault := true, validated := true } (.integer 2))]

theorem plainTexts_map {Ty Job : Type} {register : Register Ty Job} {connector : Connector} {flags : Flags}
    {type : TypeRef Ty} {task : Option Str} {job : Option Job} {children : List (Str × Value Ty Job)}
    (names : ∀ name ∈ register.types.nameOf type :: register.types.declaredNames type,
      PlainText name ∧ name ∉ restrictedKeys)
    (each : ∀ entry ∈ children, PlainTexts register connector entry.2) :
    PlainTexts register connector (.map flags type task job children) :=
  .map (names _ List.mem_cons_self).1 (fun name inside => names name (List.mem_cons_of_mem _ inside))
    fun _ _ found _ => each _ (mem_of_lookup found)

theorem parameters_recovered_sample :
    configure fileTypes weighing fileStart = ⟨fileValue, [], none⟩ ∧
      KeepsParameters fileRegister bitsFormat ⟨[]⟩ (fun _ => str "job") sampleTable fileValue := by
  refine ⟨rfl, (parameters_recovered fileRegister bitsFormat ⟨[]⟩ (fun _ => str "job") sampleTable ?_).mpr
    ⟨sampleTable, ?_⟩⟩
  · have scalar {flags : Flags} {s : Scalar} (plain : ∀ text, s = .path text → PlainText text) :
        PlainTexts fileRegister ⟨[]⟩ (.scalar flags s : Value Sample Unit) := by
      apply PlainTexts.scalar
      intro text resolved same resolves
      cases resolves
      exact plain text same
    apply plainTexts_map (by decide)
    simp only [List.forall_mem_cons]
    refine ⟨.array ?_, scalar ?_, scalar nofun, nofun⟩
    · simp only [List.forall_mem_cons]
      refine ⟨scalar nofun, plainTexts_map (by decide) ?_, nofun⟩
      simp only [List.forall_mem_cons]
      exact ⟨scalar nofun, nofun⟩
    · rintro _ ⟨⟩
      decide
  · have declared {type : TypeRef Sample} {children : List (Str × Value Sample Unit)}
        (each : ∀ entry ∈ children, entry.1 ∈ fileTypes.declaredNames type) (key : Str)
        (child : Value Sample Unit) (found : lookup key children = some child) :
        key ∈ fileTypes.declaredNames type := each _ (mem_of_lookup found)
    have inner : Recoverable fileRegister (fun _ => str "job") sampleTable
        (.map configured (.base .A) none none [(str "model", .scalar configured (.integer (-5)))]) sampleTable :=
      .map rfl rfl rfl nofun (declared (by decide))
        (.present rfl (.scalar (.integer (-5))) ⟨_, rfl⟩ .nil)
    have model : Recoverable fileRegister (fun _ => str "job") sampleTable
        (.array configured (.base .any) [.scalar configured (.string (str "a\"b")),
          .map configured (.base .A) none none [(str "model", .scalar configured (.integer (-5)))]]) sampleTable :=
      .array (.cons (.scalar (.string (by decide))) (.cons inner .nil))
    have located : ∀ j, some () = some j → Utf8.Valid (str "job") := fun _ _ => by decide
    exact .map rfl rfl rfl located (declared (by decide))
      (.present rfl model ⟨_, rfl⟩ (.present rfl (.path ⟨rfl, rfl⟩) ⟨_, rfl⟩
        (.present rfl (.scalar (.integer 2)) ⟨_, rfl⟩ .nil)))

/-- An experiment with an untyped model, which has a parameter. -/
def untypedStart : Value Sample Unit :=
  .map {} (.base .B) none none
    [(str "model", .map {} (.base .any) none none [(str "lr", .scalar {} (.integer 3))])]

def untypedValue : Value Sample Unit :=
  .map configured (.base .B) none none
    [(str "model", .map configured (.base .any) none none
        [(str "lr", .scalar { isSealed := true, generated := true } (.integer 3))]),
      (str "out", .scalar { isSealed := true, isDefault := true } .none),
      (str "rate", .scalar { isSealed := true, isDefault := true, validated := true } (.integer 2))]

/-- The parameter of the untyped model is not in the file. -/
theorem untyped_parameter_lost :
    configure fileTypes weighing untypedStart = ⟨untypedValue, [], none⟩ ∧
      outputJson fileRegister bitsFormat ⟨[]⟩ (fun _ => str "job") untypedValue =
        .ok (str "\x7b\"$type\": \"B\",\"rate\":2,\"out\":null,\"model\":\x7b\"$type\": \"any\"\x7d\x7d") ∧
      ¬ KeepsParameters fileRegister bitsFormat ⟨[]⟩ (fun _ => str "job") sampleTable untypedValue := by
  refine ⟨rfl, rfl, fun keeps => ?_⟩
  have scalar {flags : Flags} {s : Scalar} (no_path : s.scalarType ≠ .path) :
      PlainTexts fileRegister ⟨[]⟩ (.scalar flags s : Value Sample Unit) := by
    apply PlainTexts.scalar
    rintro text resolved rfl
    exact absurd rfl no_path
  have plain : PlainTexts fileRegister ⟨[]⟩ untypedValue := by
    apply plainTexts_map (by decide)
    simp only [List.forall_mem_cons]
    refine ⟨plainTexts_map (by decide) ?_, scalar nofun, scalar nofun, nofun⟩
    simp only [List.forall_mem_cons]
    exact ⟨scalar nofun, nofun⟩
  obtain ⟨later, recoverable⟩ := recoverable_of_keepsParameters plain keeps
  obtain ⟨_, _, model⟩ := recoverable_child (str "model") recoverable rfl
  cases model with
  | map _ _ _ _ declared _ =>
      have undeclared : str "lr" ∉ fileTypes.declaredNames (.base .any) := by decide
      exact undeclared (declared (str "lr") _ rfl)

end Experimaestro.Configuration

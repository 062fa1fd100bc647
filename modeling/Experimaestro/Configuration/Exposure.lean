/-
Module: Experimaestro.Configuration.Exposure
Layer: Configuration
Purpose: Which differences between two JSON configurations the identifier shows. Differences that the
  digest skips do not change it; a single difference outside of what is ignored changes it, whatever is
  around it. Between the two there are only configurations with several differences, whose streams may
  coincide.
Imports: Experimaestro.Configuration.Irrelevance
Trusted boundary: none
Main exports: Exposed, Distinguished, exposed_digest, inherited_default_hashed, same_identifier
Open obligations: none
-/
import Experimaestro.Configuration.Irrelevance

namespace Experimaestro.Configuration

open Value

section

variable {Ty Job : Type} (register : Register Ty Job) (table : Table Ty)

/-! ### Exposed differences -/

/-- Configurations with a single difference that the digest reads: between two scalars, or of a member that
    the first one has and the second one has not. None of the maps around it ignores it. -/
inductive Exposed : Json → Json → Prop
  | scalar {j j' : Json} {s s' : Scalar} (built : (create register j table).1 = .ok (.scalar {} s))
      (built' : (create register j' table).1 = .ok (.scalar {} s')) (other : s ≠ s') : Exposed j j'
  | element (before after : List Json) {j j' : Json} (inner : Exposed j j') :
      Exposed (.array (before ++ j :: after)) (.array (before ++ j' :: after))
  | member (before after : List (Str × Json)) {type : TypeRef Ty} {key : Str} {j j' : Json} {v v' : Value Ty Job}
      (typed : (objectType register (before ++ (key, j) :: after) table).1 = .ok type)
      (ordered : Ordered (before ++ (key, j) :: after)) (free : key ∉ restrictedKeys) (inner : Exposed j j')
      (built : (create register j table).1 = .ok v) (built' : (create register j' table).1 = .ok v')
      (read : (ignoredAt register.types type key v && ignoredAt register.types type key v') = false) :
      Exposed (.object (before ++ (key, j) :: after)) (.object (before ++ (key, j') :: after))
  | added (before after : List (Str × Json)) {type : TypeRef Ty} {key : Str} {j : Json} {v : Value Ty Job}
      (typed : (objectType register (before ++ (key, j) :: after) table).1 = .ok type)
      (ordered : Ordered (before ++ (key, j) :: after)) (free : key ∉ restrictedKeys)
      (built : (create register j table).1 = .ok v) (read : ignoredAt register.types type key v = false) :
      Exposed (.object (before ++ (key, j) :: after)) (.object (before ++ after))

/-! ### Values as created -/

theorem createMembers_flags {type : TypeRef Ty} :
    ∀ (members : List (Str × Json)) (current : Table Ty) (p v : Value Ty Job),
      (createMembers register type members current p).1 = .ok v → v.flags = p.flags
  | [], current, p, v, built => by
      rw [createMembers] at built
      cases built
      rfl
  | (key, j) :: rest, current, p, v, built => by
      by_cases restricted : key ∈ restrictedKeys
      · obtain ⟨q, read, others⟩ := createMembers_keyword register restricted built
        rw [createMembers_flags rest _ q v others, (keyword_keeps register read).2]
      · obtain ⟨_, w, q, _, stored, others⟩ := createMembers_store register restricted built
        rw [createMembers_flags rest _ q v others, ← flags_after_set register.types p key w, stored]

theorem flags_initialValue (type : TypeRef Ty) (hasValue : Bool) :
    (initialValue register type hasValue).flags = {} := by
  unfold initialValue
  split
  · rfl
  · split <;> rfl

/-- No flag is raised at the root of what `create` returns. -/
theorem create_flags {j : Json} {v : Value Ty Job} (built : (create register j table).1 = .ok v) :
    v.flags = {} := by
  cases j with
  | object members =>
      rw [create] at built
      split at built
      · cases built
      · rw [createMembers_flags register members _ _ v built, flags_initialValue]
  | array elements =>
      obtain ⟨_, _, rfl⟩ := create_array register built
      rfl
  | float bits =>
      rw [create] at built
      cases outcome : scalarOf register.conversions (.float bits) with
      | error e =>
          rw [outcome] at built
          cases built
      | ok s =>
          rw [outcome] at built
          cases built
          rfl
  | null =>
      rw [create] at built
      cases built
      rfl
  | boolean b =>
      rw [create] at built
      cases built
      rfl
  | integer n =>
      rw [create] at built
      cases built
      rfl
  | string text =>
      rw [create] at built
      cases built
      rfl

/-- What a map reads of a value that was created and stored in it. -/
theorem updateChildren_marked {type : TypeRef Ty} {key : Str} {v m : Value Ty Job} (fresh : v.flags = {})
    (marks : markFor (ownArgument register.types type key) v = .ok m) :
    updateChildren register.types [(key, m)] =
      if ignoredAt register.types type key v then []
      else bytes key ++ [.digest (v.updateDigest register.types)] := by
  have digest : m.updateDigest register.types = v.updateDigest register.types := by
    obtain ⟨f, raised⟩ := exists_marked register.types type key v
    rw [marked, marks] at raised
    rw [show m = v.withFlags f from raised, updateDigest_withFlags]
  have ignorable : m.canIgnore register.types = ignoredAt register.types type key v := by
    rw [canIgnore_markFor register.types marks, fresh]
    rfl
  simp only [updateChildren, ignorable, digest]

/-! ### What is around a difference -/

theorem lookup_hole {α : Type} {key k : Str} (other : k ≠ key) (value : α) (after : List (Str × α)) :
    ∀ before : List (Str × α), lookup key (before ++ (k, value) :: after) = lookup key (before ++ after)
  | [] => by rw [List.nil_append, List.nil_append, lookup, if_neg other]
  | (l, x) :: before => by
      rw [List.cons_append, List.cons_append, lookup, lookup, lookup_hole other value after before]

theorem memberTypeNames_append (before after : List (Str × Json)) :
    Json.memberTypeNames (before ++ after) = Json.memberTypeNames before ++ Json.memberTypeNames after := by
  induction before with
  | nil => rfl
  | cons member rest ih =>
      obtain ⟨key, j⟩ := member
      rw [List.cons_append, Json.memberTypeNames, Json.memberTypeNames, ih, List.append_assoc]

theorem elementTypeNames_append (before after : List Json) :
    Json.elementTypeNames (before ++ after) = Json.elementTypeNames before ++ Json.elementTypeNames after := by
  induction before with
  | nil => rfl
  | cons j rest ih =>
      rw [List.cons_append, Json.elementTypeNames, Json.elementTypeNames, ih, List.append_assoc]

variable {names : List Str}

/-- Reading the same members keeps two values related. -/
theorem members_prefix {R : List Symbol → List Symbol → Prop}
    (append : ∀ stream stream' others, R stream stream' → R (stream ++ others) (stream' ++ others))
    (unambiguous : Unambiguous table names) {type : TypeRef Ty} {rest rest' : List (Str × Json)}
    {v v' : Value Ty Job} :
    ∀ (before : List (Str × Json)) (later later' : Table Ty) (p p' : Value Ty Job),
      Json.memberTypeNames before ⊆ names → Ordered (before ++ rest) → Ordered (before ++ rest') →
        Extends register names table later → Extends register names table later' →
          Building register R type (before ++ rest) (before ++ rest') p p' →
            (createMembers register type (before ++ rest) later p).1 = .ok v →
              (createMembers register type (before ++ rest') later' p').1 = .ok v' →
                ∃ next next' q q', Extends register names table next ∧ Extends register names table next' ∧
                  Building register R type rest rest' q q' ∧
                  (createMembers register type rest next q).1 = .ok v ∧
                  (createMembers register type rest' next' q').1 = .ok v'
  | [], later, later', p, p', _, _, _, extended, extended', building, created, created' =>
      ⟨later, later', p, p', extended, extended', building, created, created'⟩
  | (key, j) :: before, later, later', p, p', mentioned, ordered, ordered', extended, extended', building, created,
      created' => by
      rw [Json.memberTypeNames] at mentioned
      obtain ⟨here, last⟩ := List.append_subset.mp mentioned
      by_cases restricted : key ∈ restrictedKeys
      · obtain ⟨q, read, built⟩ := createMembers_keyword register restricted created
        obtain ⟨q', read', built'⟩ := createMembers_keyword register restricted created'
        exact members_prefix append unambiguous before later later' q q' last ordered.tail ordered'.tail extended extended'
          (building.keyword register read read') built built'
      · obtain ⟨isMap, w, q, child, stored, built⟩ := createMembers_store register restricted created
        obtain ⟨_, w', q', child', stored', built'⟩ := createMembers_store register restricted created'
        cases create_agree register unambiguous here extended extended' child child'
        have next : Building register R type (before ++ rest) (before ++ rest') q q' := by
          apply building.storeBoth register ordered ordered' isMap stored stored'
          intro m m' marks marks' stream stream' related
          rw [marks] at marks'
          cases marks'
          exact append _ _ _ related
        exact members_prefix append unambiguous before _ _ q q' last ordered.tail ordered'.tail
          (create_extends register unambiguous here extended)
          (create_extends register unambiguous here extended') next built built'

theorem updateElements_append (elements others : List (Value Ty Job)) :
    updateElements register.types (elements ++ others) =
      updateElements register.types elements ++ updateElements register.types others := by
  induction elements with
  | nil => rfl
  | cons element rest ih => rw [List.cons_append, updateElements, updateElements, ih, List.append_assoc]

/-- The same elements are read first. -/
theorem elements_prefix (unambiguous : Unambiguous table names) {rest rest' : List Json}
    {built built' : TypeRef Ty × List (Value Ty Job)} :
    ∀ (before : List Json) (later later' : Table Ty) (start : TypeRef Ty × List (Value Ty Job)),
      Json.elementTypeNames before ⊆ names → Extends register names table later →
        Extends register names table later' →
          (createElements register (before ++ rest) later start).1 = .ok built →
            (createElements register (before ++ rest') later' start).1 = .ok built' →
              ∃ next next' front, Extends register names table next ∧ Extends register names table next' ∧
                (createElements register rest next front).1 = .ok built ∧
                (createElements register rest' next' front).1 = .ok built'
  | [], later, later', start, _, extended, extended', created, created' =>
      ⟨later, later', start, extended, extended', created, created'⟩
  | j :: before, later, later', start, mentioned, extended, extended', created, created' => by
      rw [Json.elementTypeNames] at mentioned
      obtain ⟨here, last⟩ := List.append_subset.mp mentioned
      obtain ⟨v, child, others⟩ := createElements_cons register created
      obtain ⟨v', child', others'⟩ := createElements_cons register created'
      cases create_agree register unambiguous here extended extended' child child'
      exact elements_prefix unambiguous before _ _ _ last (create_extends register unambiguous here extended)
        (create_extends register unambiguous here extended') others others'

/-- The same elements are read last. -/
theorem elements_suffix (unambiguous : Unambiguous table names)
    {built built' : TypeRef Ty × List (Value Ty Job)} :
    ∀ (after : List Json) (later later' : Table Ty) (start start' : TypeRef Ty × List (Value Ty Job)),
      Json.elementTypeNames after ⊆ names → Extends register names table later →
        Extends register names table later' → (createElements register after later start).1 = .ok built →
          (createElements register after later' start').1 = .ok built' →
            ∃ values, built.2 = start.2 ++ values ∧ built'.2 = start'.2 ++ values
  | [], later, later', start, start', _, _, _, created, created' => by
      rw [createElements] at created created'
      cases created
      cases created'
      exact ⟨[], (List.append_nil _).symm, (List.append_nil _).symm⟩
  | j :: after, later, later', start, start', mentioned, extended, extended', created, created' => by
      rw [Json.elementTypeNames] at mentioned
      obtain ⟨here, last⟩ := List.append_subset.mp mentioned
      obtain ⟨v, child, others⟩ := createElements_cons register created
      obtain ⟨v', child', others'⟩ := createElements_cons register created'
      cases create_agree register unambiguous here extended extended' child child'
      obtain ⟨values, all, all'⟩ := elements_suffix unambiguous after _ _ _ _ last
        (create_extends register unambiguous here extended)
        (create_extends register unambiguous here extended') others others'
      refine ⟨v :: values, ?_, ?_⟩
      · rw [all, pushBack, List.append_assoc]
        rfl
      · rw [all', pushBack, List.append_assoc]
        rfl

/-! ### The digest shows an exposed difference -/

/-- Two objects of a type, with a member at the end of which their streams differ. -/
theorem members_differ (unambiguous : Unambiguous table names) {type : TypeRef Ty}
    {after : List (Str × Json)} {later later' : Table Ty} {p p' v v' : Value Ty Job}
    (mentioned : Json.memberTypeNames after ⊆ names) (ordered : Ordered after)
    (extended : Extends register names table later) (extended' : Extends register names table later')
    (building : Building register Ne type after after p p')
    (created : (createMembers register type after later p).1 = .ok v)
    (created' : (createMembers register type after later' p').1 = .ok v') :
    v.updateDigest register.types ≠ v'.updateDigest register.types := by
  have append (stream stream' others : List Symbol) (differ : stream ≠ stream') :
      stream ++ others ≠ stream' ++ others := fun same => differ (List.append_cancel_right same)
  rw [← List.append_nil after] at ordered building created created'
  obtain ⟨next, next', q, q', _, _, final, built, built'⟩ := members_prefix register table append unambiguous
    after later later' p p' mentioned ordered ordered extended extended' building created created'
  rw [createMembers] at built built'
  cases built
  cases built'
  cases final with
  | other reflexive _ => exact absurd rfl (reflexive [])
  | map _ _ differ =>
      intro same
      rw [updateDigest, updateDigest] at same
      exact differ (List.append_cancel_left same)

theorem ordered_of_keys {members members' : List (Str × Json)} (ordered : Ordered members)
    (same : members'.map Prod.fst = members.map Prod.fst) : Ordered members' := by
  have keys := List.pairwise_map (f := Prod.fst) (R := fun a b => keyLess a b = true) (l := members)
  have keys' := List.pairwise_map (f := Prod.fst) (R := fun a b => keyLess a b = true) (l := members')
  rw [same] at keys'
  exact keys'.mp (keys.mpr ordered)

/-- What an object of a type is built from, up to the member where two objects differ. -/
theorem objects_prefix (unambiguous : Unambiguous table names) {type : TypeRef Ty}
    {before rest rest' : List (Str × Json)} {later later' : Table Ty} {v v' : Value Ty Job}
    (typed : (objectType register (before ++ rest) table).1 = .ok type)
    (keywords : ∀ key ∈ restrictedKeys, lookup key (before ++ rest') = lookup key (before ++ rest))
    (ordered : Ordered (before ++ rest)) (ordered' : Ordered (before ++ rest'))
    (mentioned : Json.typeNames (.object (before ++ rest)) ⊆ names)
    (mentioned' : Json.typeNames (.object (before ++ rest')) ⊆ names)
    (extended : Extends register names table later) (extended' : Extends register names table later')
    (created : (create register (.object (before ++ rest)) later).1 = .ok v)
    (created' : (create register (.object (before ++ rest')) later').1 = .ok v') :
    ∃ next next' q q', Extends register names table next ∧ Extends register names table next' ∧
      Building register Eq type rest rest' q q' ∧ (createMembers register type rest next q).1 = .ok v ∧
      (createMembers register type rest' next' q').1 = .ok v' := by
  have typed' : (objectType register (before ++ rest') table).1 = .ok type := by
    rw [← typed, objectType, objectType, keywords (str "$type") (by decide)]
  obtain ⟨next, grown, read⟩ := create_object register table unambiguous typed mentioned extended created
  obtain ⟨next', grown', read'⟩ := create_object register table unambiguous typed' mentioned' extended' created'
  rw [keywords (str "$value") (by decide)] at read'
  rw [Json.typeNames, memberTypeNames_append] at mentioned
  have first := (List.append_subset.mp (List.append_subset.mp mentioned).2).1
  apply members_prefix register table _ unambiguous before next next' _ _ first ordered ordered' grown grown'
    (Building.initial register type _ _ _) read read'
  intro stream stream' others same
  rw [same]

/-! ### One difference -/

/-- What is created from the two configurations has different streams, whatever has been read before. -/
def Distinguished (names : List Str) (j j' : Json) : Prop :=
  ∀ (later later' : Table Ty) (v v' : Value Ty Job), j.typeNames ⊆ names → j'.typeNames ⊆ names →
    Extends register names table later → Extends register names table later' →
      (create register j later).1 = .ok v → (create register j' later').1 = .ok v' →
        v.updateDigest register.types ≠ v'.updateDigest register.types

theorem distinguished_scalar (unambiguous : Unambiguous table names) {j j' : Json} {s s' : Scalar}
    (built : (create register j table).1 = .ok (.scalar {} s))
    (built' : (create register j' table).1 = .ok (.scalar {} s')) (other : s ≠ s') :
    Distinguished register table names j j' := by
  intro later later' v v' mentioned mentioned' extended extended' created created'
  have first := created_first register table unambiguous mentioned extended created
  have second := created_first register table unambiguous mentioned' extended' created'
  rw [built] at first
  rw [built'] at second
  cases first
  cases second
  intro same
  rw [updateDigest, updateDigest] at same
  apply other
  apply Scalar.updateDigest_inj
  exact List.map_injective_iff.mpr (fun x y equal => Symbol.byte.inj equal) same

/-- A difference in an element. -/
theorem distinguished_element (unambiguous : Unambiguous table names) (before after : List Json) {j j' : Json}
    (ih : Distinguished register table names j j') :
    Distinguished register table names (.array (before ++ j :: after)) (.array (before ++ j' :: after)) := by
  intro later later' v v' mentioned mentioned' extended extended' created created'
  rw [Json.typeNames, elementTypeNames_append, Json.elementTypeNames] at mentioned mentioned'
  obtain ⟨built, elements, rfl⟩ := create_array register created
  obtain ⟨built', elements', rfl⟩ := create_array register created'
  obtain ⟨start, others⟩ := List.append_subset.mp mentioned
  obtain ⟨here, last⟩ := List.append_subset.mp others
  obtain ⟨here', _⟩ := List.append_subset.mp (List.append_subset.mp mentioned').2
  obtain ⟨next, next', front, grown, grown', rest, rest'⟩ := elements_prefix register table unambiguous before
    later later' _ start extended extended' elements elements'
  obtain ⟨w, child, others⟩ := createElements_cons register rest
  obtain ⟨w', child', others'⟩ := createElements_cons register rest'
  have differ := ih next next' w w' here here' grown grown' child child'
  obtain ⟨values, all, all'⟩ := elements_suffix register table unambiguous after _ _ _ _ last
    (create_extends register unambiguous here grown) (create_extends register unambiguous here' grown')
    others others'
  have elements : built.2 = front.2 ++ [w] ++ values := all
  have elements' : built'.2 = front.2 ++ [w'] ++ values := all'
  intro same
  rw [updateDigest, updateDigest, elements, elements', List.length_append, List.length_append,
    List.length_append, List.length_append] at same
  have streams := List.append_cancel_left same
  rw [updateElements_append, updateElements_append, updateElements_append, updateElements_append] at streams
  have middle := List.append_cancel_left (List.append_cancel_right streams)
  simp only [updateElements, List.append_nil] at middle
  exact differ middle

/-- A difference in a member that one of the two maps does not ignore. -/
theorem distinguished_member (unambiguous : Unambiguous table names) {before after : List (Str × Json)}
    {type : TypeRef Ty} {key : Str} {j j' : Json} {w w' : Value Ty Job}
    (typed : (objectType register (before ++ (key, j) :: after) table).1 = .ok type)
    (ordered : Ordered (before ++ (key, j) :: after)) (free : key ∉ restrictedKeys)
    (built : (create register j table).1 = .ok w) (built' : (create register j' table).1 = .ok w')
    (read : (ignoredAt register.types type key w && ignoredAt register.types type key w') = false)
    (ih : Distinguished register table names j j') :
    Distinguished register table names (.object (before ++ (key, j) :: after))
      (.object (before ++ (key, j') :: after)) := by
  intro later later' v v' mentioned mentioned' extended extended' created created'
  have ordered' : Ordered (before ++ (key, j') :: after) := by
    apply ordered_of_keys ordered
    rw [List.map_append, List.map_append]
    rfl
  have keywords (k : Str) (restricted : k ∈ restrictedKeys) :
      lookup k (before ++ (key, j') :: after) = lookup k (before ++ (key, j) :: after) := by
    have other : key ≠ k := fun same => free (same ▸ restricted)
    rw [lookup_hole other, lookup_hole other]
  obtain ⟨next, next', q, q', grown, grown', building, rest, rest'⟩ := objects_prefix register table
    unambiguous typed keywords ordered ordered' mentioned mentioned' extended extended' created created'
  rw [Json.typeNames, memberTypeNames_append, Json.memberTypeNames] at mentioned mentioned'
  obtain ⟨here, there⟩ := List.append_subset.mp (List.append_subset.mp (List.append_subset.mp mentioned).2).2
  obtain ⟨here', _⟩ := List.append_subset.mp (List.append_subset.mp (List.append_subset.mp mentioned').2).2
  obtain ⟨isMap, u, r, child, stored, others⟩ := createMembers_store register free rest
  obtain ⟨_, u', r', child', stored', others'⟩ := createMembers_store register free rest'
  have differ := ih next next' u u' here here' grown grown' child child'
  have first := created_first register table unambiguous here grown child
  have first' := created_first register table unambiguous here' grown' child'
  rw [built] at first
  rw [built'] at first'
  cases first
  cases first'
  have hole := (List.pairwise_append.mp ordered).2.1
  have hole' := (List.pairwise_append.mp ordered').2.1
  apply members_differ register table unambiguous there hole.tail
    (create_extends register unambiguous here grown) (create_extends register unambiguous here' grown')
    _ others others'
  apply building.storeBoth register hole hole' isMap stored stored'
  rintro m m' marks marks' stream _ rfl same
  have streams := List.append_cancel_left same
  rw [updateChildren_marked register (create_flags register _ built) marks,
    updateChildren_marked register (create_flags register _ built') marks'] at streams
  cases ignored : ignoredAt register.types type key w <;>
    cases ignored' : ignoredAt register.types type key w' <;>
    rw [ignored, ignored'] at streams read
  · -- Both are read, as a symbol each.
    have symbols := List.append_cancel_left streams
    exact differ (Symbol.digest.inj (List.cons.inj symbols).1)
  · simp at streams
  · simp at streams
  · cases read

/-- A member that is read in the map that has it. -/
theorem distinguished_added (unambiguous : Unambiguous table names) {before after : List (Str × Json)}
    {type : TypeRef Ty} {key : Str} {j : Json} {w : Value Ty Job}
    (typed : (objectType register (before ++ (key, j) :: after) table).1 = .ok type)
    (ordered : Ordered (before ++ (key, j) :: after)) (free : key ∉ restrictedKeys)
    (built : (create register j table).1 = .ok w) (read : ignoredAt register.types type key w = false) :
    Distinguished register table names (.object (before ++ (key, j) :: after)) (.object (before ++ after)) := by
  intro later later' v v' mentioned mentioned' extended extended' created created'
  have ordered' : Ordered (before ++ after) :=
    ordered.sublist (List.Sublist.append_left (List.sublist_cons_self _ _) _)
  have keywords (k : Str) (restricted : k ∈ restrictedKeys) :
      lookup k (before ++ after) = lookup k (before ++ (key, j) :: after) := by
    have other : key ≠ k := fun same => free (same ▸ restricted)
    rw [lookup_hole other]
  obtain ⟨next, next', q, q', grown, grown', building, rest, rest'⟩ := objects_prefix register table
    unambiguous typed keywords ordered ordered' mentioned mentioned' extended extended' created created'
  rw [Json.typeNames, memberTypeNames_append, Json.memberTypeNames] at mentioned
  obtain ⟨here, there⟩ := List.append_subset.mp (List.append_subset.mp (List.append_subset.mp mentioned).2).2
  obtain ⟨isMap, u, r, child, stored, others⟩ := createMembers_store register free rest
  have first := created_first register table unambiguous here grown child
  rw [built] at first
  cases first
  have hole := (List.pairwise_append.mp ordered).2.1
  apply members_differ register table unambiguous there hole.tail
    (create_extends register unambiguous here grown) grown' _ others rest'
  apply building.store register hole isMap stored
  rintro m marks stream _ rfl same
  rw [updateChildren_marked register (create_flags register _ built) marks, read,
    if_neg Bool.false_ne_true] at same
  have longer := congrArg List.length same
  simp at longer

/-- A single difference that nothing around it ignores changes the stream. -/
theorem exposed_digest (unambiguous : Unambiguous table names) {j j' : Json}
    (exposed : Exposed register table j j') :
    ∀ (later later' : Table Ty) (v v' : Value Ty Job), j.typeNames ⊆ names → j'.typeNames ⊆ names →
      Extends register names table later → Extends register names table later' →
        (create register j later).1 = .ok v → (create register j' later').1 = .ok v' →
          v.updateDigest register.types ≠ v'.updateDigest register.types := by
  change Distinguished register table names j j'
  induction exposed with
  | scalar built built' other => exact distinguished_scalar register table unambiguous built built' other
  | element before after inner ih => exact distinguished_element register table unambiguous before after ih
  | member before after typed ordered free inner built built' read ih =>
      exact distinguished_member register table unambiguous typed ordered free built built' read ih
  | added before after typed ordered free built read =>
      exact distinguished_added register table unambiguous typed ordered free built read

/-- The table is the first one, or what it is after the other configuration has been read. -/
theorem extends_read (unambiguous : Unambiguous table names) {j : Json} {later : Table Ty}
    (mentioned : j.typeNames ⊆ names) (order : later = table ∨ later = (create register j table).2) :
    Extends register names table later := by
  rcases order with rfl | rfl
  · exact Extends.refl register names later
  · exact create_extends register unambiguous mentioned (Extends.refl register names table)

end

/-! ### The result -/

/-- The type `B` below the type `A`: `A` declares `x` with the default 1, `B` declares `y` with the default
    2, the ignored `note` and the path `out`. -/
inductive Sample where
  | A
  | B
  | any
  | boolean
  | integer
  | real
  | string
  | path
  | placeholder (name : Str)
deriving DecidableEq

def sampleTypes : Types Sample Unit where
  name
    | .A => str "A"
    | .B => str "B"
    | .any => str "any"
    | .boolean => str "boolean"
    | .integer => str "integer"
    | .real => str "real"
    | .string => str "string"
    | .path => str "path"
    | .placeholder name => name
  parent
    | .B => some .A
    | .A | .any | .placeholder _ => none
    | _ => some .any
  arguments
    | .A => [{ name := str "x", type := .base .integer, value := some (.scalar {} (.integer 1)) }]
    | .B => [{ name := str "y", type := .base .integer, value := some (.scalar {} (.integer 2)) },
        { name := str "note", type := .base .string, ignored := true },
        { name := str "out", type := .base .path, required := false }]
    | _ => []
  canIgnore t := t == .path
  any := .any
  boolean := .boolean
  integer := .integer
  real := .real
  string := .string
  path := .path
  level
    | .A | .any | .placeholder _ => 0
    | _ => 1
  level_lt t p h := by cases t <;> cases h <;> decide
  nodup t := by cases t <;> first | decide | exact List.nodup_nil
  path_canIgnore := by decide

def sampleRegister : Register Sample Unit where
  types := sampleTypes
  valueType
    | .boolean => some .boolean
    | .integer => some .integer
    | .real => some .real
    | .string => some .string
    | .path => some .path
    | _ => none
  placeholder := .placeholder
  task := some
  dummy _ := ()
  conversions := { integral := fun _ => none, toInteger := fun _ => none, ofInteger := fun _ => 0, toText := fun _ => [] }
  valueType_path := rfl
  name_string := rfl
  name_path := rfl
  name_real := rfl
  chain_string := rfl
  name_any := rfl
  name_placeholder _ := rfl
  parent_placeholder _ := rfl
  arguments_placeholder _ := rfl
  canIgnore_placeholder _ := rfl
  valueType_placeholder _ := rfl

/-- The table of the types of the sample. -/
def sampleTable : Table Sample :=
  [(str "B", .B), (str "A", .A), (str "any", .any), (str "boolean", .boolean), (str "integer", .integer),
    (str "real", .real), (str "string", .string), (str "path", .path)]

/-- A configuration of type `B`, with further members. -/
def ofB (members : List (Str × Json)) : Json := .object ((str "$type", .string (str "B")) :: members)

/-- The inherited default of `x`, left out and set: two identifiers. -/
theorem inherited_default_hashed :
    Differ sampleRegister .declared sampleTable (ofB [(str "x", .integer 1)]) (ofB []) ∧
      ∃ v v', (create sampleRegister (ofB [(str "x", .integer 1)]) sampleTable).1 = .ok v ∧
        (create sampleRegister (ofB []) sampleTable).1 = .ok v' ∧
        v.uniqueIdentifier sampleTypes ≠ v'.uniqueIdentifier sampleTypes := by
  constructor
  · apply Differ.object rfl (by decide) (by decide)
    apply MembersDiffer.keyword (by decide)
    apply MembersDiffer.left (by decide) _ .nil
    refine ⟨{ name := str "x", type := .base .integer, value := some (.scalar {} (.integer 1)) }, ?_, rfl, ?_⟩
    · exact List.mem_cons_of_mem _ (List.mem_cons_of_mem _ (List.mem_cons_of_mem _ List.mem_cons_self))
    · exact ⟨Or.inl rfl, Or.inr ⟨_, .integer 1, rfl, rfl, rfl⟩⟩
  · refine ⟨_, _, rfl, rfl, ?_⟩
    intro same
    exact absurd (congrArg Symbol.weight same) (by decide)

/-- Two configurations that are read on one register, in either order or each on its own, have the same
    identifier where they only differ in what the digest skips, and two identifiers where they have a
    single difference that nothing around it ignores. -/
theorem same_identifier {Ty Job : Type} (register : Register Ty Job) {table later later' : Table Ty}
    {j j' : Json} {v v' : Value Ty Job} (unambiguous : Unambiguous table (j.typeNames ++ j'.typeNames))
    (order : later = table ∨ later = (create register j' table).2)
    (order' : later' = table ∨ later' = (create register j table).2)
    (created : (create register j later).1 = .ok v) (created' : (create register j' later').1 = .ok v') :
    (Differ register .skipped table j j' →
        v.uniqueIdentifier register.types = v'.uniqueIdentifier register.types) ∧
      (Exposed register table j j' →
        v.uniqueIdentifier register.types ≠ v'.uniqueIdentifier register.types) := by
  have mentioned : j.typeNames ⊆ j.typeNames ++ j'.typeNames := fun name => List.mem_append_left _
  have mentioned' : j'.typeNames ⊆ j.typeNames ++ j'.typeNames := fun name => List.mem_append_right _
  have extended := extends_read register table unambiguous mentioned' order
  have extended' := extends_read register table unambiguous mentioned order'
  constructor
  · intro differ
    have same := differ_matches register table unambiguous differ later later' v v' mentioned mentioned' extended
      extended' created created'
    exact congrArg Symbol.digest same.digest
  · intro exposed same
    exact exposed_digest register table unambiguous exposed later later' v v' mentioned mentioned' extended
      extended' created created' (Symbol.digest.inj same)

/-- The configuration of a path. -/
def ofPath (text : Str) : Json := .object [(str "$type", .string (str "path")), (str "$value", .string text)]

/-- An own default, an ignored value and a path do not count, an inherited default does. -/
theorem same_identifier_own :
    (∃ v v', (create sampleRegister (ofB [(str "note", .string (str "a")), (str "out", ofPath (str "p")),
          (str "y", .integer 2)]) sampleTable).1 = .ok v ∧
        (create sampleRegister (ofB [(str "note", .string (str "b")), (str "out", ofPath (str "q"))])
          sampleTable).1 = .ok v' ∧
        v.uniqueIdentifier sampleTypes = v'.uniqueIdentifier sampleTypes) ∧
      ∃ w w', (create sampleRegister (ofB [(str "x", .integer 1)]) sampleTable).1 = .ok w ∧
        (create sampleRegister (ofB []) sampleTable).1 = .ok w' ∧
        w.uniqueIdentifier sampleTypes ≠ w'.uniqueIdentifier sampleTypes := by
  constructor
  · have differ : Differ sampleRegister .skipped sampleTable
        (ofB [(str "note", .string (str "a")), (str "out", ofPath (str "p")), (str "y", .integer 2)])
        (ofB [(str "note", .string (str "b")), (str "out", ofPath (str "q"))]) := by
      apply Differ.object rfl (by decide) (by decide)
      apply MembersDiffer.keyword (by decide)
      have note (text : Str) : Irrelevant sampleRegister .skipped sampleTable (.base .B)
          (str "note") (.string text) :=
        ⟨_, List.mem_cons_of_mem _ List.mem_cons_self, rfl,
          Or.inr (Or.inl (List.mem_cons_of_mem _ List.mem_cons_self)), Or.inl rfl⟩
      apply MembersDiffer.left (by decide) (note _)
      apply MembersDiffer.right (by decide) (note _)
      have path (text : Str) : IsPath sampleRegister sampleTable (ofPath text) :=
        ⟨text, create_path sampleRegister rfl text⟩
      apply MembersDiffer.path (by decide) (path _) (path _)
      apply MembersDiffer.left (by decide) _ .nil
      exact ⟨_, List.mem_cons_self, rfl, Or.inr (Or.inl List.mem_cons_self),
        Or.inr ⟨_, .integer 2, rfl, rfl, rfl⟩⟩
    have unambiguous : Unambiguous sampleTable [str "B", str "path", str "B", str "path"] := by
      unfold Unambiguous
      decide
    exact ⟨_, _, rfl, rfl,
      (same_identifier sampleRegister unambiguous (Or.inl rfl) (Or.inl rfl) rfl rfl).1 differ⟩
  · have exposed : Exposed sampleRegister sampleTable (ofB [(str "x", .integer 1)]) (ofB []) := by
      apply Exposed.added [(str "$type", .string (str "B"))] [] rfl
      · decide
      · decide
      · rfl
      · rfl
    have unambiguous : Unambiguous sampleTable [str "B", str "B"] := by
      unfold Unambiguous
      decide
    exact ⟨_, _, rfl, rfl,
      (same_identifier sampleRegister unambiguous (Or.inl rfl) (Or.inl rfl) rfl rfl).2 exposed⟩

end Experimaestro.Configuration

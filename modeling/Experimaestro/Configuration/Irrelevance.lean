/-
Module: Experimaestro.Configuration.Irrelevance
Layer: Configuration
Purpose: Differences between two JSON configurations that should not change the identifier. `MapValue::set`
  marks what it stores by the arguments of the type itself, and the digest skips marked children of maps
  only, so that such differences do not matter where they are under own arguments and path scalars are
  children of maps.
Imports: Experimaestro.Configuration.GenerationRule, Experimaestro.Configuration.Placeholders
Trusted boundary: none
Main exports: Scope, Differ, Matches, Building, differ_matches
Open obligations: none
-/
import Experimaestro.Configuration.GenerationRule
import Experimaestro.Configuration.Placeholders

namespace Experimaestro.Configuration

open Value

/-! ### The order of keys -/

theorem keyLess_irrefl : ∀ key : Str, keyLess key key = false
  | [] => rfl
  | a :: as => by
      rw [keyLess, keyLess_irrefl as]
      simp

theorem keyLess_asymm : ∀ {a b : Str}, keyLess a b = true → keyLess b a = false
  | _, [], less => by
      rw [keyLess] at less
      cases less
  | [], _ :: _, _ => rfl
  | a :: as, b :: bs, less => by
      rw [keyLess, Bool.or_eq_true, Bool.and_eq_true, decide_eq_true_iff, beq_iff_eq] at less
      rw [keyLess, Bool.or_eq_false_iff, Bool.and_eq_false_iff]
      rcases less with first | ⟨same, others⟩
      · have other : b ≠ a := by
          intro same
          rw [same] at first
          exact absurd first (UInt8.lt_irrefl a)
        constructor
        · exact decide_eq_false (UInt8.lt_asymm first)
        · exact Or.inl (beq_eq_false_iff_ne.mpr other)
      · subst same
        constructor
        · exact decide_eq_false (UInt8.lt_irrefl a)
        · exact Or.inr (keyLess_asymm others)

/-- The members of an object as `std::map` lists them. -/
abbrev Ordered {α : Type} (members : List (Str × α)) : Prop :=
  members.Pairwise fun a b => keyLess a.1 b.1 = true

/-- A value stored under the last key comes last. -/
theorem insert_last {α : Type} {key : Str} (value : α) :
    ∀ {entries : List (Str × α)}, (∀ entry ∈ entries, keyLess entry.1 key = true) →
      insert key value entries = entries ++ [(key, value)]
  | [], _ => rfl
  | (k, v) :: rest, before => by
      have less := before (k, v) List.mem_cons_self
      have other : k ≠ key := by
        intro same
        rw [same, keyLess_irrefl] at less
        cases less
      rw [insert, if_neg other, keyLess_asymm less, if_neg Bool.false_ne_true,
        insert_last value fun entry member => before entry (List.mem_cons_of_mem _ member)]
      rfl

/-! ### The differences -/

/-- Which differences are meant: all those that should not matter, or those that `MapValue` skips. -/
inductive Scope where
  | declared
  | skipped
deriving DecidableEq

section

variable {Ty Job : Type} (register : Register Ty Job) (scope : Scope) (table : Table Ty)

/-- A path scalar. -/
def IsPath (j : Json) : Prop := ∃ text, (create register j table).1 = .ok (.scalar {} (.path text))

/-- A member under an argument that is ignored, or that is given its default, a scalar. What is skipped is
    the value of an argument of the type itself, or a path scalar. -/
def Irrelevant (type : TypeRef Ty) (key : Str) (j : Json) : Prop :=
  ∃ a ∈ register.types.declarations type, a.name = key ∧
    (scope = .declared ∨ a ∈ register.types.argumentsOf type ∨ IsPath register table j) ∧
    (a.ignored = true ∨
      ∃ d s, a.defaultValue = some d ∧ (create register j table).1 = .ok (.scalar {} s) ∧
        d.equals (.scalar {} s) = .ok true)

mutual

/-- Configurations that differ in path scalars, in values of ignored arguments, or in whether an argument
    is left out or set to its default. What is skipped of path scalars are children of maps. -/
inductive Differ : Json → Json → Prop
  | same (j : Json) : Differ j j
  | path {j j' : Json} (anywhere : scope = .declared) (isPath : IsPath register table j)
      (isPath' : IsPath register table j') : Differ j j'
  | array {elements elements' : List Json} (each : ElementsDiffer elements elements') :
      Differ (.array elements) (.array elements')
  | object {type : TypeRef Ty} {members members' : List (Str × Json)}
      (typed : (objectType register members table).1 = .ok type) (ordered : Ordered members)
      (ordered' : Ordered members') (each : MembersDiffer type members members') :
      Differ (.object members) (.object members')

inductive ElementsDiffer : List Json → List Json → Prop
  | nil : ElementsDiffer [] []
  | cons {j j' : Json} {rest rest' : List Json} (head : Differ j j') (tail : ElementsDiffer rest rest') :
      ElementsDiffer (j :: rest) (j' :: rest')

/-- The members of two objects of a type. A value that differs under an ignored argument is a member of
    the one that is left out of the other, and the other way round. -/
inductive MembersDiffer : TypeRef Ty → List (Str × Json) → List (Str × Json) → Prop
  | nil {type : TypeRef Ty} : MembersDiffer type [] []
  | keyword {type : TypeRef Ty} {key : Str} {j : Json} {rest rest' : List (Str × Json)}
      (restricted : key ∈ restrictedKeys) (others : MembersDiffer type rest rest') :
      MembersDiffer type ((key, j) :: rest) ((key, j) :: rest')
  | both {type : TypeRef Ty} {key : Str} {j j' : Json} {rest rest' : List (Str × Json)}
      (free : key ∉ restrictedKeys) (differ : Differ j j') (others : MembersDiffer type rest rest') :
      MembersDiffer type ((key, j) :: rest) ((key, j') :: rest')
  | path {type : TypeRef Ty} {key : Str} {j j' : Json} {rest rest' : List (Str × Json)}
      (free : key ∉ restrictedKeys) (isPath : IsPath register table j) (isPath' : IsPath register table j')
      (others : MembersDiffer type rest rest') :
      MembersDiffer type ((key, j) :: rest) ((key, j') :: rest')
  | left {type : TypeRef Ty} {key : Str} {j : Json} {rest members' : List (Str × Json)}
      (free : key ∉ restrictedKeys) (irrelevant : Irrelevant register scope table type key j)
      (others : MembersDiffer type rest members') : MembersDiffer type ((key, j) :: rest) members'
  | right {type : TypeRef Ty} {key : Str} {j : Json} {members rest : List (Str × Json)}
      (free : key ∉ restrictedKeys) (irrelevant : Irrelevant register scope table type key j)
      (others : MembersDiffer type members rest) : MembersDiffer type members ((key, j) :: rest)

end

theorem lookup_free {α : Type} {key k : Str} (restricted : key ∈ restrictedKeys) (free : k ∉ restrictedKeys)
    (value : α) (rest : List (Str × α)) : lookup key ((k, value) :: rest) = lookup key rest := by
  have other : k ≠ key := fun same => free (same ▸ restricted)
  rw [lookup, if_neg other]

theorem lookup_restricted {type : TypeRef Ty} {key : Str} (restricted : key ∈ restrictedKeys) :
    ∀ {members members' : List (Str × Json)}, MembersDiffer register scope table type members members' →
      lookup key members' = lookup key members
  | _, _, .nil => rfl
  | _, _, .keyword _ others => by rw [lookup, lookup, lookup_restricted restricted others]
  | _, _, .both free _ others => by
      rw [lookup_free restricted free, lookup_free restricted free, lookup_restricted restricted others]
  | _, _, .path free _ _ others => by
      rw [lookup_free restricted free, lookup_free restricted free, lookup_restricted restricted others]
  | _, _, .left free _ others => by
      rw [lookup_free restricted free, lookup_restricted restricted others]
  | _, _, .right free _ others => by
      rw [lookup_free restricted free, lookup_restricted restricted others]

/-! ### Values that match -/

/-- Values that `set` marks alike and that have the same digest. -/
structure Matches (v v' : Value Ty Job) : Prop where
  flags : v.flags = v'.flags
  ignorable : register.types.canIgnoreOf (v.type register.types) = register.types.canIgnoreOf (v'.type register.types)
  equals : ∀ d : Value Ty Job, d.equals v = d.equals v'
  digest : v.updateDigest register.types = v'.updateDigest register.types

theorem Matches.refl (v : Value Ty Job) : Matches register v v :=
  ⟨rfl, rfl, fun _ => rfl, rfl⟩

theorem equalsElements_congr {elements elements' : List (Value Ty Job)}
    (each : List.Forall₂ (Matches register) elements elements') :
    ∀ ds : List (Value Ty Job), equalsElements ds elements = equalsElements ds elements' := by
  induction each with
  | nil => exact fun _ => rfl
  | cons head _ ih =>
      intro ds
      cases ds with
      | nil => rfl
      | cons d ds =>
          rw [equalsElements, equalsElements, head.equals, ih]

theorem updateElements_congr {elements elements' : List (Value Ty Job)}
    (each : List.Forall₂ (Matches register) elements elements') :
    updateElements register.types elements = updateElements register.types elements' := by
  induction each with
  | nil => rfl
  | cons head _ ih => rw [updateElements, updateElements, head.digest, ih]

theorem Matches.array {ctype ctype' : TypeRef Ty} {elements elements' : List (Value Ty Job)}
    (each : List.Forall₂ (Matches register) elements elements') :
    Matches register (.array {} ctype elements) (.array {} ctype' elements') where
  flags := rfl
  ignorable := rfl
  equals d := by
    cases d with
    | scalar flags s => rfl
    | array flags c ds =>
        rw [Value.equals, Value.equals, each.length_eq, equalsElements_congr register each]
    | map flags type task job children => rfl
  digest := by
    rw [updateDigest, updateDigest, each.length_eq, updateElements_congr register each]

theorem Matches.map {type : TypeRef Ty} {task : Option Str} {job job' : Option Job}
    {children children' : List (Str × Value Ty Job)}
    (same : updateChildren register.types children = updateChildren register.types children') :
    Matches register (.map {} type task job children) (.map {} type task job' children') where
  flags := rfl
  ignorable := rfl
  equals d := by cases d <;> rfl
  digest := by rw [updateDigest, updateDigest, same]

/-- Values that match are marked alike. -/
theorem Matches.markFor {v v' marked : Value Ty Job} {a : Option (Argument Ty Job)}
    (same : Matches register v v') (marks : Value.markFor a v = .ok marked) :
    ∃ marked', Value.markFor a v' = .ok marked' ∧
      marked'.canIgnore register.types = marked.canIgnore register.types ∧
      marked'.updateDigest register.types = marked.updateDigest register.types := by
  have raised (f : Flags → Flags) :
      (v'.withFlags f).canIgnore register.types = (v.withFlags f).canIgnore register.types ∧
        (v'.withFlags f).updateDigest register.types = (v.withFlags f).updateDigest register.types := by
    constructor
    · rw [canIgnore, canIgnore, type_withFlags, type_withFlags, flags_withFlags, flags_withFlags,
        same.ignorable, same.flags]
    · rw [updateDigest_withFlags, updateDigest_withFlags, same.digest]
  cases a with
  | none =>
      cases marks
      exact ⟨v', rfl, by rw [canIgnore, canIgnore, same.ignorable, same.flags], same.digest.symm⟩
  | some argument =>
      have equal : equalsDefault argument v' = equalsDefault argument v := by
        unfold equalsDefault
        cases argument.defaultValue with
        | none => rfl
        | some d => exact (same.equals d).symm
      unfold Value.markFor at marks ⊢
      dsimp only at marks ⊢
      rw [equal]
      cases outcome : equalsDefault argument v with
      | error e =>
          rw [outcome] at marks
          cases marks
      | ok isDefault =>
          rw [outcome] at marks
          cases marks
          exact ⟨_, rfl, raised _⟩

/-! ### Maps under construction -/

/-- The values that two configurations are building, with the members that are still to be read: the same
    value, or maps with related streams, whose children come before the members. -/
inductive Building (R : List Symbol → List Symbol → Prop) (type : TypeRef Ty)
    (members members' : List (Str × Json)) : Value Ty Job → Value Ty Job → Prop
  | other {p : Value Ty Job} (reflexive : ∀ stream, R stream stream) (isOther : p.isMap = false) :
      Building R type members members' p p
  | map {task : Option Str} {job : Option Job} {children children' : List (Str × Value Ty Job)}
      (before : ∀ child ∈ children, ∀ member ∈ members, keyLess child.1 member.1 = true)
      (before' : ∀ child ∈ children', ∀ member ∈ members', keyLess child.1 member.1 = true)
      (related : R (updateChildren register.types children) (updateChildren register.types children')) :
      Building R type members members' (.map {} type task job children) (.map {} type task job children')

section

variable {R R' : List Symbol → List Symbol → Prop} {type : TypeRef Ty} {key : Str} {j j' : Json}
  {members members' rest rest' : List (Str × Json)} {p p' q q' v v' : Value Ty Job}

theorem Building.symm (building : Building register Eq type members members' p p') :
    Building register Eq type members' members p' p := by
  cases building with
  | other reflexive isOther => exact .other reflexive isOther
  | map before before' same => exact .map before' before same.symm

theorem Building.matches (building : Building register Eq type members members' p p') :
    Matches register p p' := by
  cases building with
  | other _ isOther => exact Matches.refl register p
  | map before before' same => exact Matches.map register same

/-- The value that an object starts with. -/
theorem Building.initial (type : TypeRef Ty) (hasValue : Bool) (members members' : List (Str × Json)) :
    Building register Eq type members members' (initialValue register type hasValue)
      (initialValue register type hasValue) := by
  unfold initialValue
  split
  · exact .other (fun _ => rfl) rfl
  · cases type with
    | array component => exact .other (fun _ => rfl) rfl
    | base t =>
        apply Building.map _ _ rfl
        · intro child member
          cases member
        · intro child member
          cases member

theorem updateChildren_append (children : List (Str × Value Ty Job)) (others : List (Str × Value Ty Job)) :
    updateChildren register.types (children ++ others) =
      updateChildren register.types children ++ updateChildren register.types others := by
  induction children with
  | nil => rfl
  | cons entry rest ih =>
      rw [List.cons_append, updateChildren, updateChildren, ih]
      split
      · rfl
      · rw [List.append_assoc, List.cons_append]

/-- A keyword changes neither the kind of a value nor its flags. -/
theorem keyword_keeps (read : keyword register type key j p = .ok q) :
    q.isMap = p.isMap ∧ q.flags = p.flags := by
  unfold keyword at read
  cases p with
  | scalar flags s =>
      split at read
      · cases outcome : scalarFor register type j with
        | error e =>
            rw [outcome] at read
            cases read
        | ok value =>
            rw [outcome] at read
            cases read
            exact ⟨rfl, rfl⟩
      · split at read
        · cases read
        · split at read
          · cases read
          · cases read
            exact ⟨rfl, rfl⟩
  | array flags ctype elements =>
      split at read
      · cases read
      · split at read
        · cases read
        · split at read
          · cases read
          · cases read
            exact ⟨rfl, rfl⟩
  | map flags t task job children =>
      split at read
      · cases read
      · split at read
        · cases outcome : dummyJob register j with
          | error e =>
              rw [outcome] at read
              cases read
          | ok dummy =>
              rw [outcome] at read
              cases read
              exact ⟨rfl, rfl⟩
        · split at read
          · cases j with
            | string name =>
                cases read
                exact ⟨rfl, rfl⟩
            | _ => cases read
          · cases read
            exact ⟨rfl, rfl⟩

/-- A keyword sets the task or the job of a map, whatever its children. -/
theorem keyword_map (type : TypeRef Ty) (key : Str) (j : Json) (task : Option Str) (job : Option Job) :
    ∃ outcome : Except Error (Option Str × Option Job), ∀ children : List (Str × Value Ty Job),
      keyword register type key j (.map {} type task job children) =
        outcome.map fun links => .map {} type links.1 links.2 children := by
  unfold keyword
  split
  · exact ⟨.error (.argumentError (str "Scalar cannot be a map or an array")), fun _ => rfl⟩
  · split
    · cases found : dummyJob register j with
      | error e => exact ⟨.error e, fun _ => rfl⟩
      | ok dummy => exact ⟨.ok (task, some dummy), fun _ => rfl⟩
    · split
      · cases j with
        | string name => exact ⟨.ok (register.task name, job), fun _ => rfl⟩
        | _ => exact ⟨.error .jsonError, fun _ => rfl⟩
      · exact ⟨.ok (task, job), fun _ => rfl⟩

/-- A keyword does the same to both values. -/
theorem Building.keyword (building : Building register R type ((key, j) :: rest) ((key, j) :: rest') p p')
    (read : Configuration.keyword register type key j p = .ok q)
    (read' : Configuration.keyword register type key j p' = .ok q') :
    Building register R type rest rest' q q' := by
  cases building with
  | other reflexive isOther =>
      rw [read] at read'
      cases read'
      exact .other reflexive ((keyword_keeps register read).1.trans isOther)
  | @map task job children children' before before' related =>
      obtain ⟨outcome, sets⟩ := keyword_map register type key j task job
      rw [sets] at read read'
      cases outcome with
      | error e => cases read
      | ok links =>
          cases read
          cases read'
          apply Building.map _ _ related
          · exact fun child inside member there =>
              before child inside member (List.mem_cons_of_mem _ there)
          · exact fun child inside member there =>
              before' child inside member (List.mem_cons_of_mem _ there)

/-- A value is stored in a map after the children that are there. -/
theorem set_last {task : Option Str} {job : Option Job} {children : List (Str × Value Ty Job)}
    (stored : (Value.map {} type task job children).set register.types key v = (q, none))
    (before : ∀ child ∈ children, keyLess child.1 key = true) :
    ∃ m, markFor (ownArgument register.types type key) v = .ok m ∧
      q = .map {} type task job (children ++ [(key, m)]) := by
  unfold Value.set at stored
  dsimp only at stored
  split at stored
  · cases stored
  · split at stored
    · cases stored
    · split at stored
      · rename_i m marks
        cases stored
        exact ⟨m, marks, by rw [insert_last m before]⟩
      · cases stored

/-- What is stored is read after the other members of its map. -/
theorem before_store {α : Type} {given : α} {others : List (Str × α)} {m : Value Ty Job}
    {children : List (Str × Value Ty Job)} (ordered : Ordered ((key, given) :: others))
    (before : ∀ child ∈ children, ∀ member ∈ (key, given) :: others, keyLess child.1 member.1 = true) :
    ∀ child ∈ children ++ [(key, m)], ∀ member ∈ others, keyLess child.1 member.1 = true := by
  intro child inside member there
  rcases List.mem_append.mp inside with earlier | last
  · exact before child earlier member (List.mem_cons_of_mem _ there)
  · rw [List.mem_singleton.mp last]
    exact (List.pairwise_cons.mp ordered).1 member there

/-- A value is stored in the first map. -/
theorem Building.store (ordered : Ordered ((key, j) :: rest)) (isMap : p.isMap = true)
    (building : Building register R type ((key, j) :: rest) members' p p')
    (stored : p.set register.types key v = (q, none))
    (relates : ∀ m, markFor (ownArgument register.types type key) v = .ok m → ∀ stream stream',
      R stream stream' → R' (stream ++ updateChildren register.types [(key, m)]) stream') :
    Building register R' type rest members' q p' := by
  cases building with
  | other _ isOther =>
      rw [isOther] at isMap
      cases isMap
  | map before before' related =>
      obtain ⟨m, marks, rfl⟩ := set_last register stored fun child inside =>
        before child inside _ List.mem_cons_self
      apply Building.map (before_store ordered before) before'
      rw [updateChildren_append]
      exact relates m marks _ _ related

/-- Values are stored in both maps, under the same key. -/
theorem Building.storeBoth (ordered : Ordered ((key, j) :: rest)) (ordered' : Ordered ((key, j') :: rest'))
    (isMap : p.isMap = true)
    (building : Building register R type ((key, j) :: rest) ((key, j') :: rest') p p')
    (stored : p.set register.types key v = (q, none)) (stored' : p'.set register.types key v' = (q', none))
    (relates : ∀ m m', markFor (ownArgument register.types type key) v = .ok m →
      markFor (ownArgument register.types type key) v' = .ok m' → ∀ stream stream', R stream stream' →
        R' (stream ++ updateChildren register.types [(key, m)])
          (stream' ++ updateChildren register.types [(key, m')])) :
    Building register R' type rest rest' q q' := by
  cases building with
  | other _ isOther =>
      rw [isOther] at isMap
      cases isMap
  | map before before' related =>
      obtain ⟨m, marks, rfl⟩ := set_last register stored fun child inside =>
        before child inside _ List.mem_cons_self
      obtain ⟨m', marks', rfl⟩ := set_last register stored' fun child inside =>
        before' child inside _ List.mem_cons_self
      apply Building.map (before_store ordered before) (before_store ordered' before')
      rw [updateChildren_append, updateChildren_append]
      exact relates m m' marks marks' _ _ related

/-- A value that is ignored where it is stored. -/
theorem Building.left (ordered : Ordered ((key, j) :: rest)) (isMap : p.isMap = true)
    (building : Building register Eq type ((key, j) :: rest) members' p p')
    (stored : p.set register.types key v = (q, none))
    (ignored : ∀ m, markFor (ownArgument register.types type key) v = .ok m →
      m.canIgnore register.types = true) :
    Building register Eq type rest members' q p' := by
  apply building.store register ordered isMap stored
  intro m marks stream stream' same
  rw [updateChildren, if_pos (ignored m marks), updateChildren, List.append_nil, same]

theorem Building.right (ordered : Ordered ((key, j) :: rest)) (isMap : p'.isMap = true)
    (building : Building register Eq type members ((key, j) :: rest) p p')
    (stored : p'.set register.types key v = (q, none))
    (ignored : ∀ m, markFor (ownArgument register.types type key) v = .ok m →
      m.canIgnore register.types = true) :
    Building register Eq type members rest p q :=
  (building.symm.left register ordered isMap stored ignored).symm

/-- Values that match, under the same key. -/
theorem Building.both (ordered : Ordered ((key, j) :: rest)) (ordered' : Ordered ((key, j') :: rest'))
    (isMap : p.isMap = true)
    (building : Building register Eq type ((key, j) :: rest) ((key, j') :: rest') p p')
    (stored : p.set register.types key v = (q, none)) (stored' : p'.set register.types key v' = (q', none))
    (alike : Matches register v v') : Building register Eq type rest rest' q q' := by
  apply building.storeBoth register ordered ordered' isMap stored stored'
  intro m m' marks marks' stream stream' same
  obtain ⟨n, marked, ignorable, digest⟩ := alike.markFor register marks
  rw [marks'] at marked
  cases marked
  have last : updateChildren register.types [(key, m')] = updateChildren register.types [(key, m)] := by
    simp only [updateChildren, ignorable, digest]
  rw [same, last]

end

/-! ### What is ignored where it is stored -/

theorem find_argument :
    ∀ {arguments : List (Argument Ty Job)} {a : Argument Ty Job},
      (arguments.map Argument.name).Nodup → a ∈ arguments →
        (arguments.find? fun b => b.name = a.name) = some a
  | b :: rest, a, nodup, member => by
      rw [List.map_cons, List.nodup_cons] at nodup
      rcases List.mem_cons.mp member with here | there
      · rw [here]
        exact List.find?_cons_of_pos (decide_eq_true rfl)
      · have other : b.name ≠ a.name := fun same =>
          nodup.1 (same ▸ List.mem_map_of_mem there)
        rw [List.find?_cons_of_neg (by simpa using other)]
        exact find_argument nodup.2 there

theorem ownArgument_eq {type : TypeRef Ty} {a : Argument Ty Job}
    (own : a ∈ register.types.argumentsOf type) : ownArgument register.types type a.name = some a := by
  cases type with
  | base t => exact find_argument (register.types.nodup t) own
  | array component => cases own

/-- Path scalars are ignored in every map. -/
theorem IsPath.ignored {type : TypeRef Ty} {key : Str} {j : Json} {v m : Value Ty Job}
    (isPath : IsPath register table j) (created : (create register j table).1 = .ok v)
    (marks : markFor (ownArgument register.types type key) v = .ok m) :
    m.canIgnore register.types = true := by
  obtain ⟨text, built⟩ := isPath
  rw [created] at built
  cases built
  have byType : register.types.canIgnoreOf ((Value.scalar {} (.path text) : Value Ty Job).type register.types)
      = true :=
    register.types.path_canIgnore
  rw [canIgnore_markFor register.types marks, ignoredAt, byType, Bool.true_or, Bool.or_true]

/-- What is skipped is ignored where it is stored. -/
theorem Irrelevant.ignored {type : TypeRef Ty} {key : Str} {j : Json} {v m : Value Ty Job}
    (irrelevant : Irrelevant register .skipped table type key j)
    (created : (create register j table).1 = .ok v)
    (marks : markFor (ownArgument register.types type key) v = .ok m) :
    m.canIgnore register.types = true := by
  obtain ⟨a, _, rfl, wide | own | isPath, reason⟩ := irrelevant
  · cases wide
  · have found := ownArgument_eq register own
    rw [canIgnore_markFor register.types marks, ignoredAt, found]
    dsimp only
    rcases reason with ignored | ⟨d, s, isDefault, scalar, equal⟩
    · rw [ignored, Bool.true_or, Bool.or_true, Bool.or_true]
    · rw [created] at scalar
      cases scalar
      have equals : equalsDefault a (.scalar {} s) = .ok true := by
        rw [equalsDefault, isDefault]
        exact equal
      rw [equals]
      simp
  · exact isPath.ignored register table created marks

/-! ### Creation -/

theorem createMembers_keyword {type : TypeRef Ty} {key : Str} {j : Json} {rest : List (Str × Json)}
    {current : Table Ty} {p q : Value Ty Job} (restricted : key ∈ restrictedKeys)
    (built : (createMembers register type ((key, j) :: rest) current p).1 = .ok q) :
    ∃ r, keyword register type key j p = .ok r ∧ (createMembers register type rest current r).1 = .ok q := by
  rw [createMembers, if_pos restricted] at built
  split at built
  · cases built
  · exact ⟨_, ‹_›, built⟩

theorem createMembers_store {type : TypeRef Ty} {key : Str} {j : Json} {rest : List (Str × Json)}
    {current : Table Ty} {p q : Value Ty Job} (free : key ∉ restrictedKeys)
    (built : (createMembers register type ((key, j) :: rest) current p).1 = .ok q) :
    p.isMap = true ∧ ∃ v r, (create register j current).1 = .ok v ∧ p.set register.types key v = (r, none) ∧
      (createMembers register type rest (create register j current).2 r).1 = .ok q := by
  rw [createMembers, if_neg free] at built
  split at built
  · cases built
  · rename_i isMap
    refine ⟨by simpa using isMap, ?_⟩
    split at built
    · cases built
    · rename_i v next created
      split at built
      · cases built
      · rename_i r stored
        rw [created]
        exact ⟨v, r, rfl, stored, built⟩

theorem createElements_cons {j : Json} {rest : List Json} {current : Table Ty}
    {start built : TypeRef Ty × List (Value Ty Job)}
    (elements : (createElements register (j :: rest) current start).1 = .ok built) :
    ∃ v, (create register j current).1 = .ok v ∧
      (createElements register rest (create register j current).2 (pushBack register start v)).1 = .ok built := by
  rw [createElements] at elements
  split at elements
  · cases elements
  · rename_i v next created
    rw [created]
    exact ⟨v, rfl, elements⟩

variable {names : List Str}

/-- What is built on a later table is what is built on the first one. -/
theorem created_first (unambiguous : Unambiguous table names) {j : Json} {later : Table Ty} {v : Value Ty Job}
    (mentioned : j.typeNames ⊆ names) (extended : Extends register names table later)
    (created : (create register j later).1 = .ok v) : (create register j table).1 = .ok v := by
  rw [← created]
  exact (create_stable register unambiguous j table later mentioned (Extends.refl register names table)
    extended).1

/-- The type of an object and the value it starts with are those of the other object. -/
theorem create_object (unambiguous : Unambiguous table names) {type : TypeRef Ty}
    {members : List (Str × Json)} {later : Table Ty} {v : Value Ty Job}
    (typed : (objectType register members table).1 = .ok type)
    (mentioned : Json.typeNames (.object members) ⊆ names) (extended : Extends register names table later)
    (created : (create register (.object members) later).1 = .ok v) :
    ∃ next, Extends register names table next ∧
      (createMembers register type members next
        (initialValue register type (lookup (str "$value") members).isSome)).1 = .ok v := by
  have stable := objectType_stable register unambiguous mentioned extended (Extends.refl register names table)
  rw [typed] at stable
  rw [create] at created
  split at created
  · cases created
  · rename_i resolved next found
    rw [found] at stable
    cases stable.1
    exact ⟨next, stable.2, created⟩

theorem create_array {elements : List Json} {later : Table Ty} {v : Value Ty Job}
    (created : (create register (.array elements) later).1 = .ok v) :
    ∃ built, (createElements register elements later (.base register.types.any, [])).1 = .ok built ∧
      v = .array {} built.1 built.2 := by
  rw [create] at created
  split at created
  · cases created
  · rename_i ctype values next found
    cases created
    exact ⟨(ctype, values), by rw [found], rfl⟩

mutual

/-- Configurations that differ where the digest skips build values that match. -/
theorem differ_matches (unambiguous : Unambiguous table names) :
    ∀ {j j' : Json}, Differ register .skipped table j j' →
      ∀ (later later' : Table Ty) (v v' : Value Ty Job), j.typeNames ⊆ names → j'.typeNames ⊆ names →
        Extends register names table later → Extends register names table later' →
          (create register j later).1 = .ok v → (create register j' later').1 = .ok v' → Matches register v v'
  | _, _, .same j, later, later', v, v', mentioned, _, extended, extended', created, created' => by
      rw [create_agree register unambiguous mentioned extended extended' created created']
      exact Matches.refl register v'
  | _, _, .path anywhere _ _, _, _, _, _, _, _, _, _, _, _ => by cases anywhere
  | _, _, .array each, later, later', v, v', mentioned, mentioned', extended, extended', created, created' => by
      rw [Json.typeNames] at mentioned mentioned'
      obtain ⟨built, elements, rfl⟩ := create_array register created
      obtain ⟨built', elements', rfl⟩ := create_array register created'
      apply Matches.array
      exact elementsDiffer_matches unambiguous each later later' _ _ built built' mentioned mentioned' extended
        extended' elements elements' List.Forall₂.nil
  | _, _, @Differ.object _ _ _ _ _ type members members' typed ordered ordered' each,
      later, later', v, v', mentioned, mentioned', extended, extended', created, created' => by
      have same (key : Str) (restricted : key ∈ restrictedKeys) :=
        lookup_restricted register _ table restricted each
      have typed' : (objectType register members' table).1 = .ok type := by
        rw [← typed, objectType, objectType, same (str "$type") (by decide)]
      obtain ⟨next, grown, read⟩ := create_object register table unambiguous typed mentioned extended created
      obtain ⟨next', grown', read'⟩ :=
        create_object register table unambiguous typed' mentioned' extended' created'
      rw [same (str "$value") (by decide)] at read'
      rw [Json.typeNames] at mentioned mentioned'
      exact membersDiffer_matches unambiguous each next next' _ _ v v'
        (List.append_subset.mp mentioned).2 (List.append_subset.mp mentioned').2 ordered ordered' grown grown'
        read read' (Building.initial register type _ members members')

theorem elementsDiffer_matches (unambiguous : Unambiguous table names) :
    ∀ {elements elements' : List Json}, ElementsDiffer register .skipped table elements elements' →
      ∀ (later later' : Table Ty) (start start' built built' : TypeRef Ty × List (Value Ty Job)),
        Json.elementTypeNames elements ⊆ names → Json.elementTypeNames elements' ⊆ names →
          Extends register names table later → Extends register names table later' →
            (createElements register elements later start).1 = .ok built →
              (createElements register elements' later' start').1 = .ok built' →
                List.Forall₂ (Matches register) start.2 start'.2 → List.Forall₂ (Matches register) built.2 built'.2
  | _, _, .nil, later, later', start, start', built, built', mentioned, mentioned', extended, extended',
      created, created', each => by
      rw [createElements] at created created'
      cases created
      cases created'
      exact each
  | _, _, .cons head tail, later, later', start, start', built, built', mentioned, mentioned', extended, extended',
      created, created', each => by
      rw [Json.elementTypeNames] at mentioned mentioned'
      obtain ⟨v, here, others⟩ := createElements_cons register created
      obtain ⟨v', here', others'⟩ := createElements_cons register created'
      obtain ⟨first, last⟩ := List.append_subset.mp mentioned
      obtain ⟨first', last'⟩ := List.append_subset.mp mentioned'
      have alike := differ_matches unambiguous head later later' v v' first first' extended extended' here here'
      apply elementsDiffer_matches unambiguous tail _ _ _ _ _ _ last last'
        (create_extends register unambiguous first extended)
        (create_extends register unambiguous first' extended') others others'
      exact List.rel_append each (List.Forall₂.cons alike List.Forall₂.nil)

theorem membersDiffer_matches (unambiguous : Unambiguous table names) :
    ∀ {type : TypeRef Ty} {members members' : List (Str × Json)},
      MembersDiffer register .skipped table type members members' →
      ∀ (later later' : Table Ty) (p p' v v' : Value Ty Job),
        Json.memberTypeNames members ⊆ names → Json.memberTypeNames members' ⊆ names →
          Ordered members → Ordered members' →
          Extends register names table later → Extends register names table later' →
            (createMembers register type members later p).1 = .ok v →
              (createMembers register type members' later' p').1 = .ok v' →
                Building register Eq type members members' p p' → Matches register v v'
  | _, _, _, .nil, later, later', p, p', v, v', _, _, _, _, _, _, created, created', building => by
      rw [createMembers] at created created'
      cases created
      cases created'
      exact building.matches
  | _, _, _, .keyword restricted others, later, later', p, p', v, v', mentioned, mentioned', ordered, ordered',
      extended, extended', created, created', building => by
      rw [Json.memberTypeNames] at mentioned mentioned'
      obtain ⟨q, read, built⟩ := createMembers_keyword register restricted created
      obtain ⟨q', read', built'⟩ := createMembers_keyword register restricted created'
      exact membersDiffer_matches unambiguous others later later' q q' v v'
        (List.append_subset.mp mentioned).2 (List.append_subset.mp mentioned').2 ordered.tail ordered'.tail
        extended extended' built built' (building.keyword register read read')
  | _, _, _, .both free differ others, later, later', p, p', v, v', mentioned, mentioned', ordered, ordered',
      extended, extended', created, created', building => by
      rw [Json.memberTypeNames] at mentioned mentioned'
      obtain ⟨first, last⟩ := List.append_subset.mp mentioned
      obtain ⟨first', last'⟩ := List.append_subset.mp mentioned'
      obtain ⟨isMap, w, q, here, stored, built⟩ := createMembers_store register free created
      obtain ⟨_, w', q', here', stored', built'⟩ := createMembers_store register free created'
      have alike := differ_matches unambiguous differ later later' w w' first first' extended extended' here here'
      exact membersDiffer_matches unambiguous others _ _ q q' v v' last last' ordered.tail
        ordered'.tail (create_extends register unambiguous first extended)
        (create_extends register unambiguous first' extended') built built'
        (building.both register ordered ordered' isMap stored stored' alike)
  | _, _, _, .path free isPath isPath' others, later, later', p, p', v, v', mentioned, mentioned', ordered,
      ordered', extended, extended', created, created', building => by
      rw [Json.memberTypeNames] at mentioned mentioned'
      obtain ⟨first, last⟩ := List.append_subset.mp mentioned
      obtain ⟨first', last'⟩ := List.append_subset.mp mentioned'
      obtain ⟨isMap, w, q, here, stored, built⟩ := createMembers_store register free created
      obtain ⟨isMap', w', q', here', stored', built'⟩ := createMembers_store register free created'
      have before := created_first register table unambiguous first extended here
      have before' := created_first register table unambiguous first' extended' here'
      exact membersDiffer_matches unambiguous others _ _ q q' v v' last last' ordered.tail
        ordered'.tail (create_extends register unambiguous first extended)
        (create_extends register unambiguous first' extended') built built'
        ((building.left register ordered isMap stored fun m => isPath.ignored register table before).right
          register ordered' isMap' stored' fun m => isPath'.ignored register table before')
  | _, _, _, .left free irrelevant others, later, later', p, p', v, v', mentioned, mentioned', ordered,
      ordered', extended, extended', created, created', building => by
      rw [Json.memberTypeNames] at mentioned
      obtain ⟨first, last⟩ := List.append_subset.mp mentioned
      obtain ⟨isMap, w, q, here, stored, built⟩ := createMembers_store register free created
      have before := created_first register table unambiguous first extended here
      exact membersDiffer_matches unambiguous others _ later' q p' v v' last mentioned' ordered.tail ordered'
        (create_extends register unambiguous first extended) extended' built created'
        (building.left register ordered isMap stored fun m => irrelevant.ignored register table before)
  | _, _, _, .right free irrelevant others, later, later', p, p', v, v', mentioned, mentioned', ordered,
      ordered', extended, extended', created, created', building => by
      rw [Json.memberTypeNames] at mentioned'
      obtain ⟨first', last'⟩ := List.append_subset.mp mentioned'
      obtain ⟨isMap', w', q', here', stored', built'⟩ := createMembers_store register free created'
      have before' := created_first register table unambiguous first' extended' here'
      exact membersDiffer_matches unambiguous others later _ p q' v v' mentioned last' ordered ordered'.tail extended
        (create_extends register unambiguous first' extended') created built'
        (building.right register ordered' isMap' stored' fun m => irrelevant.ignored register table before')

end

end

end Experimaestro.Configuration

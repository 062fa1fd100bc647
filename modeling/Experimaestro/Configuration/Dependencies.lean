/-
Module: Experimaestro.Configuration.Dependencies
Layer: Configuration
Purpose: Which jobs a new job depends on. `addDependencies` comes to the outermost maps that carry a job,
  except inside an array that can be ignored, where `Value::addDependencies` stops. While no submission
  meets such an array, every job that occurs in the parameters of a submitted job is an ancestor of it.
Imports: Experimaestro.Configuration.Sealing, Experimaestro.Configuration.Submission
Trusted boundary: none
Main exports: Outermost, Hidden, OneEach, oneEach_iff, DependsOn, Tracked, Complete, step_trackedSession,
  dependencies_complete
Open obligations: none
-/
import Experimaestro.Configuration.Sealing
import Experimaestro.Configuration.Submission
import Mathlib.Algebra.Order.BigOperators.Group.List
import Mathlib.Algebra.Order.Group.Nat
import Mathlib.Data.List.Nodup
import Mathlib.Data.Prod.Basic
import Mathlib.Logic.Relation

namespace Experimaestro.Configuration

open Value

/-! ### Outermost jobs -/

section

variable {Ty Job : Type}

namespace Value

/-- `MapValue::job`. -/
def boundTo : Value Ty Job → Option Job
  | .map _ _ _ job _ => job
  | _ => none

end Value

/-- What is reached by a way down carries the job, and nothing on the way carries one. -/
def Outermost (job : Job) : List Selector → Value Ty Job → Prop
  | [], v => v.boundTo = some job
  | s :: rest, v => v.boundTo = none ∧ ∃ c, v.child s = some c ∧ Outermost job rest c

mutual

/-- The places of the outermost jobs, in the order of the traversal. -/
def outermost : Value Ty Job → List (List Selector × Job)
  | .scalar _ _ => []
  | .array _ _ elements => outermostElements 0 elements
  | .map _ _ _ (some job) _ => [([], job)]
  | .map _ _ _ none children => outermostChildren children

def outermostElements (index : ℕ) : List (Value Ty Job) → List (List Selector × Job)
  | [] => []
  | element :: rest =>
      (outermost element).map (Prod.map (.index index :: ·) id) ++ outermostElements (index + 1) rest

def outermostChildren : List (Str × Value Ty Job) → List (List Selector × Job)
  | [] => []
  | (key, child) :: rest =>
      (outermost child).map (Prod.map (.key key :: ·) id) ++ outermostChildren rest

end

/-- The children of each map have different keys, as in `std::map`. -/
inductive Keyed : Value Ty Job → Prop
  | scalar {flags : Flags} {s : Scalar} : Keyed (.scalar flags s)
  | array {flags : Flags} {ctype : TypeRef Ty} {elements : List (Value Ty Job)}
      (each : ∀ e ∈ elements, Keyed e) : Keyed (.array flags ctype elements)
  | map {flags : Flags} {t : TypeRef Ty} {task : Option Str} {job : Option Job}
      {children : List (Str × Value Ty Job)} (distinct : (children.map Prod.fst).Nodup)
      (each : ∀ entry ∈ children, Keyed entry.2) : Keyed (.map flags t task job children)

theorem mem_cons_way {s s' : Selector} {way : List Selector} {job : Job} {places : List (List Selector × Job)} :
    (s :: way, job) ∈ places.map (Prod.map (s' :: ·) id) ↔ s = s' ∧ (way, job) ∈ places := by
  constructor
  · intro member
    obtain ⟨⟨w, j⟩, inside, same⟩ := List.mem_map.mp member
    cases same
    exact ⟨rfl, inside⟩
  · rintro ⟨rfl, inside⟩
    exact List.mem_map_of_mem inside

theorem mem_outermostElements {way : List Selector} {job : Job} {elements : List (Value Ty Job)} {index : ℕ} :
    (way, job) ∈ outermostElements index elements ↔
      ∃ i rest e, way = .index (index + i) :: rest ∧ elements[i]? = some e ∧ (rest, job) ∈ outermost e := by
  induction elements generalizing index with
  | nil => simp [outermostElements]
  | cons element others ih =>
      rw [outermostElements, List.mem_append, ih]
      constructor
      · rintro (here | ⟨i, rest, e, rfl, found, inside⟩)
        · obtain ⟨⟨w, j⟩, inside, same⟩ := List.mem_map.mp here
          cases same
          exact ⟨0, w, element, rfl, rfl, inside⟩
        · exact ⟨i + 1, rest, e, by rw [Nat.add_assoc, Nat.add_comm 1], found, inside⟩
      · rintro ⟨i, rest, e, rfl, found, inside⟩
        cases i with
        | zero =>
            cases found
            exact Or.inl (mem_cons_way.mpr ⟨rfl, inside⟩)
        | succ i => exact Or.inr ⟨i, rest, e, by rw [Nat.add_assoc, Nat.add_comm 1], found, inside⟩

theorem mem_outermostChildren {way : List Selector} {job : Job} {children : List (Str × Value Ty Job)} :
    (way, job) ∈ outermostChildren children ↔
      ∃ entry ∈ children, ∃ rest, way = .key entry.1 :: rest ∧ (rest, job) ∈ outermost entry.2 := by
  induction children with
  | nil => simp [outermostChildren]
  | cons entry others ih =>
      obtain ⟨key, child⟩ := entry
      rw [outermostChildren, List.mem_append, ih, List.exists_mem_cons_iff]
      refine or_congr_left ?_
      constructor
      · intro here
        obtain ⟨⟨w, j⟩, inside, same⟩ := List.mem_map.mp here
        cases same
        exact ⟨w, rfl, inside⟩
      · rintro ⟨rest, rfl, inside⟩
        exact mem_cons_way.mpr ⟨rfl, inside⟩

/-- The traversal comes to the outermost jobs and to nothing else. -/
theorem mem_outermost_iff {v : Value Ty Job} (keyed : Keyed v) {way : List Selector} {job : Job} :
    (way, job) ∈ outermost v ↔ Outermost job way v := by
  induction keyed generalizing way with
  | scalar => cases way <;> simp [outermost, Outermost, boundTo, Value.child]
  | array each ih =>
      rw [outermost, mem_outermostElements]
      cases way with
      | nil => simp [Outermost, boundTo]
      | cons s rest =>
          constructor
          · rintro ⟨i, _, e, same, found, inside⟩
            cases same
            refine ⟨rfl, e, ?_, (ih e (List.mem_of_getElem? found)).mp inside⟩
            rw [Value.child, Nat.zero_add, found]
          · rintro ⟨_, c, found, inside⟩
            cases s with
            | key name => cases found
            | index i =>
                refine ⟨i, rest, c, by rw [Nat.zero_add], found, ?_⟩
                exact (ih c (List.mem_of_getElem? found)).mpr inside
  | @map flags t task own children distinct each ih =>
      cases own with
      | some j =>
          rw [outermost, List.mem_singleton, Prod.mk.injEq]
          cases way with
          | nil => simp [Outermost, boundTo, eq_comm]
          | cons s rest => simp [Outermost, boundTo]
      | none =>
          rw [outermost, mem_outermostChildren]
          cases way with
          | nil => simp [Outermost, boundTo]
          | cons s rest =>
              constructor
              · rintro ⟨entry, member, _, same, inside⟩
                cases same
                exact ⟨rfl, entry.2, lookup_of_mem distinct member, (ih entry member).mp inside⟩
              · rintro ⟨_, c, found, inside⟩
                cases s with
                | index i => cases found
                | key name =>
                    have member := mem_of_lookup found
                    exact ⟨(name, c), member, rest, rfl, (ih _ member).mpr inside⟩

theorem nodup_prefixed {s : Selector} {places : List (List Selector × Job)} (nodup : places.Nodup) :
    (places.map (Prod.map (s :: ·) id)).Nodup :=
  nodup.map (Function.Injective.prodMap List.cons_injective Function.injective_id)

/-- No place is listed twice. -/
theorem nodup_outermost {v : Value Ty Job} (keyed : Keyed v) : (outermost v).Nodup := by
  induction keyed with
  | scalar => exact List.nodup_nil
  | @array flags ctype elements each ih =>
      rw [outermost]
      generalize 0 = index
      induction elements generalizing index with
      | nil => exact List.nodup_nil
      | cons element others ih' =>
          rw [outermostElements]
          refine (nodup_prefixed (ih element List.mem_cons_self)).append
            (ih' (fun e member => each e (List.mem_cons_of_mem _ member))
              (fun e member => ih e (List.mem_cons_of_mem _ member)) _) ?_
          rintro ⟨way, job⟩ here there
          obtain ⟨i, rest, _, rfl, _⟩ := mem_outermostElements.mp there
          have same := Selector.index.inj (mem_cons_way.mp here).1
          omega
  | @map flags t task own children distinct each ih =>
      cases own with
      | some j => exact List.nodup_singleton _
      | none =>
          rw [outermost]
          induction children with
          | nil => exact List.nodup_nil
          | cons entry others ih' =>
              obtain ⟨key, child⟩ := entry
              rw [List.map_cons, List.nodup_cons] at distinct
              rw [outermostChildren]
              refine (nodup_prefixed (ih (key, child) List.mem_cons_self)).append
                (ih' distinct.2 (fun entry member => each entry (List.mem_cons_of_mem _ member))
                  fun entry member => ih entry (List.mem_cons_of_mem _ member)) ?_
              rintro ⟨way, job⟩ here there
              obtain ⟨entry, member, rest, rfl, _⟩ := mem_outermostChildren.mp there
              have same := Selector.key.inj (mem_cons_way.mp here).1
              exact distinct.1 (List.mem_map.mpr ⟨entry, member, same⟩)

/-! ### Dependencies and outermost jobs -/

theorem outermostElements_snd (index : ℕ) (elements : List (Value Ty Job)) :
    (outermostElements index elements).map Prod.snd = elements.flatMap fun e => (outermost e).map Prod.snd := by
  induction elements generalizing index with
  | nil => rfl
  | cons element others ih =>
      rw [outermostElements, List.map_append, ih, List.flatMap_cons, List.map_map]
      rfl

theorem outermostChildren_snd (children : List (Str × Value Ty Job)) :
    (outermostChildren children).map Prod.snd =
      children.flatMap fun entry => (outermost entry.2).map Prod.snd := by
  induction children with
  | nil => rfl
  | cons entry others ih =>
      rw [outermostChildren, List.map_append, ih, List.flatMap_cons, List.map_map]
      rfl

variable (types : Types Ty Job)

theorem elementDependencies_eq (elements : List (Value Ty Job)) :
    elementDependencies types elements = elements.flatMap fun e => e.addDependencies types := by
  induction elements with
  | nil => rfl
  | cons element others ih => rw [elementDependencies, ih, List.flatMap_cons]

theorem childDependencies_eq (children : List (Str × Value Ty Job)) :
    childDependencies types children = children.flatMap fun entry => entry.2.addDependencies types := by
  induction children with
  | nil => rfl
  | cons entry others ih => rw [childDependencies, ih, List.flatMap_cons]

/-- An array that can be ignored holds a map that carries a job, below no other one. -/
inductive Hidden : Value Ty Job → Prop
  | here {flags : Flags} {ctype : TypeRef Ty} {elements : List (Value Ty Job)}
      (ignorable : (Value.array flags ctype elements).canIgnore types = true)
      (carried : elementJobs elements ≠ []) : Hidden (.array flags ctype elements)
  | element {flags : Flags} {ctype : TypeRef Ty} {elements : List (Value Ty Job)} {e : Value Ty Job}
      (member : e ∈ elements) (inside : Hidden e) : Hidden (.array flags ctype elements)
  | child {flags : Flags} {t : TypeRef Ty} {task : Option Str} {children : List (Str × Value Ty Job)}
      {entry : Str × Value Ty Job} (member : entry ∈ children) (inside : Hidden entry.2) :
      Hidden (.map flags t task none children)

mutual

/-- A value that carries jobs has outermost ones. -/
theorem outermost_eq_nil : ∀ v : Value Ty Job, outermost v = [] ↔ v.jobs = []
  | .scalar _ _ => by simp [outermost, jobs]
  | .array _ _ elements => by
      rw [outermost, jobs]
      exact outermostElements_eq_nil 0 elements
  | .map _ _ _ (some job) children => by simp [outermost, jobs]
  | .map _ _ _ none children => by
      rw [outermost, jobs, Option.toList_none, List.nil_append]
      exact outermostChildren_eq_nil children

theorem outermostElements_eq_nil (index : ℕ) :
    ∀ elements : List (Value Ty Job), outermostElements index elements = [] ↔ elementJobs elements = []
  | [] => by simp [outermostElements, elementJobs]
  | element :: rest => by
      rw [outermostElements, elementJobs, List.append_eq_nil_iff, List.append_eq_nil_iff, List.map_eq_nil_iff,
        outermost_eq_nil element, outermostElements_eq_nil (index + 1) rest]

theorem outermostChildren_eq_nil :
    ∀ children : List (Str × Value Ty Job), outermostChildren children = [] ↔ childJobs children = []
  | [] => by simp [outermostChildren, childJobs]
  | (key, child) :: rest => by
      rw [outermostChildren, childJobs, List.append_eq_nil_iff, List.append_eq_nil_iff, List.map_eq_nil_iff,
        outermost_eq_nil child, outermostChildren_eq_nil rest]

end

mutual

/-- The traversal of `addDependencies` may leave out jobs, and does nothing else wrong. -/
theorem addDependencies_sublist :
    ∀ v : Value Ty Job, (v.addDependencies types).Sublist ((outermost v).map Prod.snd)
  | .scalar _ _ => by
      rw [addDependencies]
      exact List.nil_sublist _
  | .array _ _ elements => by
      rw [addDependencies]
      split
      · exact List.nil_sublist _
      · rw [outermost]
        exact elementDependencies_sublist 0 elements
  | .map _ _ _ (some job) children => by
      rw [addDependencies, outermost]
      exact List.Sublist.refl _
  | .map _ _ _ none children => by
      rw [addDependencies, outermost]
      exact childDependencies_sublist children

theorem elementDependencies_sublist (index : ℕ) :
    ∀ elements : List (Value Ty Job),
      (elementDependencies types elements).Sublist ((outermostElements index elements).map Prod.snd)
  | [] => by
      rw [elementDependencies]
      exact List.nil_sublist _
  | element :: rest => by
      rw [elementDependencies, outermostElements, List.map_append, List.map_map]
      exact (addDependencies_sublist element).append (elementDependencies_sublist (index + 1) rest)

theorem childDependencies_sublist :
    ∀ children : List (Str × Value Ty Job),
      (childDependencies types children).Sublist ((outermostChildren children).map Prod.snd)
  | [] => by
      rw [childDependencies]
      exact List.nil_sublist _
  | (key, child) :: rest => by
      rw [childDependencies, outermostChildren, List.map_append, List.map_map]
      exact (addDependencies_sublist child).append (childDependencies_sublist rest)

end

variable {types}

mutual

/-- Nothing is left out where nothing is hidden. -/
theorem addDependencies_eq :
    ∀ {v : Value Ty Job}, ¬ Hidden types v → v.addDependencies types = (outermost v).map Prod.snd
  | .scalar _ _, _ => by
      rw [addDependencies, outermost]
      rfl
  | .array flags ctype elements, visible => by
      rw [addDependencies, outermost]
      split
      · next ignorable =>
        have empty : elementJobs elements = [] := by
          by_contra carried
          exact visible (.here ignorable carried)
        rw [(outermostElements_eq_nil 0 elements).mpr empty]
        rfl
      · exact elementDependencies_outermost 0 fun e member inside => visible (.element member inside)
  | .map _ _ _ (some job) children, _ => by
      rw [addDependencies, outermost]
      rfl
  | .map _ _ _ none children, visible => by
      rw [addDependencies, outermost]
      exact childDependencies_outermost fun entry member inside => visible (.child member inside)

theorem elementDependencies_outermost (index : ℕ) :
    ∀ {elements : List (Value Ty Job)}, (∀ e ∈ elements, ¬ Hidden types e) →
      elementDependencies types elements = (outermostElements index elements).map Prod.snd
  | [], _ => by
      rw [elementDependencies, outermostElements]
      rfl
  | element :: rest, visible => by
      rw [elementDependencies, outermostElements, List.map_append, List.map_map,
        addDependencies_eq (visible element List.mem_cons_self),
        elementDependencies_outermost (index + 1) fun e member => visible e (List.mem_cons_of_mem _ member)]
      rfl

theorem childDependencies_outermost :
    ∀ {children : List (Str × Value Ty Job)}, (∀ entry ∈ children, ¬ Hidden types entry.2) →
      childDependencies types children = (outermostChildren children).map Prod.snd
  | [], _ => by
      rw [childDependencies, outermostChildren]
      rfl
  | (key, child) :: rest, visible => by
      rw [childDependencies, outermostChildren, List.map_append, List.map_map,
        addDependencies_eq (visible (key, child) List.mem_cons_self),
        childDependencies_outermost fun entry member => visible entry (List.mem_cons_of_mem _ member)]
      rfl

end

theorem length_flatMap_lt {α β γ : Type} {f : α → List β} {g : α → List γ} {xs : List α}
    (le : ∀ x ∈ xs, (f x).length ≤ (g x).length) {x : α} (member : x ∈ xs)
    (lt : (f x).length < (g x).length) : (xs.flatMap f).length < (xs.flatMap g).length := by
  rw [List.length_flatMap, List.length_flatMap]
  exact List.sum_lt_sum _ _ le ⟨x, member, lt⟩

/-- Something is left out where something is hidden. -/
theorem addDependencies_lt {v : Value Ty Job} (hidden : Hidden types v) :
    (v.addDependencies types).length < (outermost v).length := by
  have le (v : Value Ty Job) : (v.addDependencies types).length ≤ ((outermost v).map Prod.snd).length :=
    (addDependencies_sublist types v).length_le
  have nothing {flags : Flags} {ctype : TypeRef Ty} {elements : List (Value Ty Job)}
      (carried : outermost (.array flags ctype elements) ≠ []) : 0 < (outermost (.array flags ctype elements)).length :=
    List.length_pos_of_ne_nil carried
  induction hidden with
  | @here flags ctype elements ignorable carried =>
      rw [addDependencies, if_pos ignorable]
      apply nothing
      rwa [Ne, outermost_eq_nil, jobs]
  | @element flags ctype elements e member _ ih =>
      have all := length_flatMap_lt (fun x _ => le x) member (by rwa [List.length_map])
      rw [← outermostElements_snd 0, ← elementDependencies_eq types, List.length_map] at all
      rw [addDependencies]
      split
      · exact nothing fun empty => by
          rw [outermost] at empty
          rw [empty] at all
          cases all
      · rwa [outermost]
  | @child flags t task children entry member _ ih =>
      have all := length_flatMap_lt (fun entry _ => le entry.2) member (by rwa [List.length_map])
      rw [← outermostChildren_snd, ← childDependencies_eq types, List.length_map] at all
      rwa [addDependencies, outermost]

variable (types)

/-- A dependency for each outermost job, and no other dependency. -/
def OneEach (v : Value Ty Job) : Prop :=
  ∃ places : List (List Selector × Job), places.Nodup ∧
    (∀ way job, (way, job) ∈ places ↔ Outermost job way v) ∧
    (v.addDependencies types).Perm (places.map Prod.snd)

theorem oneEach_iff {v : Value Ty Job} (keyed : Keyed v) : OneEach types v ↔ ¬ Hidden types v := by
  constructor
  · rintro ⟨places, nodup, complete, each⟩ hidden
    have same : places.Perm (outermost v) := by
      rw [List.perm_ext_iff_of_nodup nodup (nodup_outermost keyed)]
      exact fun place => (complete place.1 place.2).trans (mem_outermost_iff keyed).symm
    have length := each.length_eq
    rw [List.length_map, same.length_eq] at length
    exact absurd length (Nat.ne_of_lt (addDependencies_lt hidden))
  · intro visible
    refine ⟨outermost v, nodup_outermost keyed, fun way job => mem_outermost_iff keyed, ?_⟩
    rw [addDependencies_eq visible]

end

/-! ### Submitted values -/

/-- A job depends on another one. -/
def DependsOn (jobs : List JobRecord) (number origin : ℕ) : Prop :=
  ∃ record, jobs[number]? = some record ∧ Resource.job (.job origin) ∈ record.dependencies

/-- All jobs of a list are ancestors of the job. -/
def Above (jobs : List JobRecord) (number : ℕ) (below : List JobRef) : Prop :=
  ∀ r ∈ below, ∃ origin, r = .job origin ∧ Relation.TransGen (DependsOn jobs) number origin

theorem DependsOn.later {jobs more : List JobRecord} {number origin : ℕ}
    (depends : DependsOn jobs number origin) : DependsOn (jobs ++ more) number origin := by
  obtain ⟨record, found, member⟩ := depends
  exact ⟨record, by rw [List.getElem?_append_left (List.getElem?_eq_some_iff.mp found).1, found], member⟩

theorem Above.later {jobs more : List JobRecord} {number : ℕ} {below : List JobRef}
    (above : Above jobs number below) : Above (jobs ++ more) number below := by
  intro r member
  obtain ⟨origin, same, ancestor⟩ := above r member
  exact ⟨origin, same, Relation.TransGen.mono (fun _ _ => DependsOn.later) _ _ ancestor⟩

section

variable {Ty : Type}

/-- What is sealed is sealed down to the leaves. A map that carries a job is sealed, and the jobs below it
    are ancestors of its job. -/
inductive Tracked (jobs : List JobRecord) : Value Ty JobRef → Prop
  | scalar {flags : Flags} {s : Scalar} : Tracked jobs (.scalar flags s)
  | array {flags : Flags} {ctype : TypeRef Ty} {elements : List (Value Ty JobRef)}
      (closed : flags.isSealed = true → AllSealed (Value.array flags ctype elements))
      (each : ∀ e ∈ elements, Tracked jobs e) : Tracked jobs (.array flags ctype elements)
  | map {flags : Flags} {t : TypeRef Ty} {task : Option Str} {job : Option JobRef}
      {children : List (Str × Value Ty JobRef)}
      (closed : flags.isSealed = true → AllSealed (Value.map flags t task job children))
      (submitted : ∀ r, job = some r → flags.isSealed = true ∧
        ∃ number, r = .job number ∧ Above jobs number (childJobs children))
      (each : ∀ entry ∈ children, Tracked jobs entry.2) : Tracked jobs (.map flags t task job children)

variable {jobs : List JobRecord}

theorem Tracked.later {more : List JobRecord} {v : Value Ty JobRef} (tracked : Tracked jobs v) :
    Tracked (jobs ++ more) v := by
  induction tracked with
  | scalar => exact .scalar
  | array closed _ ih => exact .array closed ih
  | map closed submitted _ ih =>
      refine .map closed (fun r carries => ?_) ih
      obtain ⟨isSealed, number, same, above⟩ := submitted r carries
      exact ⟨isSealed, number, same, above.later⟩

theorem Tracked.closed {v : Value Ty JobRef} (tracked : Tracked jobs v) (isSealed : v.flags.isSealed = true) :
    AllSealed v := by
  cases tracked with
  | scalar =>
      refine allSealed_iff.mpr ⟨isSealed, fun s c found => ?_⟩
      cases s <;> cases found
  | array closed _ => exact closed isSealed
  | map closed _ _ => exact closed isSealed

theorem Tracked.child {v c : Value Ty JobRef} {s : Selector} (tracked : Tracked jobs v)
    (found : v.child s = some c) : Tracked jobs c := by
  cases tracked with
  | scalar => cases s <;> cases found
  | array _ each =>
      cases s with
      | key name => cases found
      | index i => exact each c (List.mem_of_getElem? found)
  | map _ _ each =>
      cases s with
      | key name => exact each (name, c) (mem_of_lookup found)
      | index i => cases found

theorem Tracked.descend {way : List Selector} {v target : Value Ty JobRef} (tracked : Tracked jobs v)
    (found : v.descend way = some target) : Tracked jobs target := by
  induction way generalizing v with
  | nil =>
      cases found
      exact tracked
  | cons s rest ih =>
      obtain ⟨c, first, others⟩ := Option.bind_eq_some_iff.mp found
      exact ih (tracked.child first) others

theorem Tracked.sealedBelow {v : Value Ty JobRef} (tracked : Tracked jobs v) : SealedBelow v :=
  fun _ _ found => (tracked.descend found).closed

/-- A map that carries a job is sealed. -/
theorem Tracked.sealed_of_bound {v : Value Ty JobRef} {r : JobRef} (tracked : Tracked jobs v)
    (carries : v.boundTo = some r) : v.flags.isSealed = true := by
  cases tracked with
  | scalar => cases carries
  | array => cases carries
  | map _ submitted _ => exact (submitted r carries).1

/-! #### Changes at a place -/

/-- Nothing strictly above the end of a way down carries a job. -/
def NoJobAbove : List Selector → Value Ty JobRef → Prop
  | [], _ => True
  | s :: rest, v => v.boundTo = none ∧ ∀ c, v.child s = some c → NoJobAbove rest c

/-- There is no job above what is not sealed. -/
theorem Tracked.noJobAbove {way : List Selector} {v target : Value Ty JobRef} (tracked : Tracked jobs v)
    (found : v.descend way = some target) (isOpen : target.flags.isSealed = false) : NoJobAbove way v := by
  induction way generalizing v with
  | nil => exact trivial
  | cons s rest ih =>
      obtain ⟨c, first, others⟩ := Option.bind_eq_some_iff.mp found
      constructor
      · by_contra carries
        obtain ⟨r, bound⟩ := Option.ne_none_iff_exists'.mp carries
        have all := tracked.closed (tracked.sealed_of_bound bound)
        have isSealed := all (s :: rest) target found
        rw [isOpen] at isSealed
        cases isSealed
      · intro c' same
        rw [first] at same
        cases same
        exact ih (tracked.child first) others

theorem Tracked.modifyAt {f : Value Ty JobRef → Value Ty JobRef} {way : List Selector}
    {v target : Value Ty JobRef} (tracked : Tracked jobs v) (found : v.descend way = some target)
    (above : NoJobAbove way v) (new : Tracked jobs (f target))
    (closes : AllSealed target → AllSealed (f target)) : Tracked jobs (v.modifyAt f way) := by
  induction way generalizing v with
  | nil =>
      cases found
      exact new
  | cons s rest ih =>
      obtain ⟨c, first, others⟩ := Option.bind_eq_some_iff.mp found
      have inside := ih (tracked.child first) others (above.2 c first)
      have closed (isSealed : v.flags.isSealed = true) : AllSealed (v.modifyAt f (s :: rest)) :=
        (tracked.closed isSealed).modifyAt found (closes ((tracked.closed isSealed).descend found))
      cases tracked with
      | scalar => cases s <;> cases first
      | array _ each =>
          cases s with
          | key name => cases first
          | index i =>
              refine .array closed fun e member => ?_
              rcases mem_modify member with old | ⟨e', found', rfl⟩
              · exact each e old
              · rw [Value.child, found'] at first
                cases first
                exact inside
      | @map flags t task job children _ _ each =>
          cases s with
          | index i => cases first
          | key name =>
              obtain rfl : job = none := above.1
              refine .map closed (fun _ carries => by cases carries) fun entry member => ?_
              rcases mem_adjust member with old | ⟨w, found', _, rfl⟩
              · exact each entry old
              · rw [Value.child, found'] at first
                cases first
                exact inside

/-! #### Flags -/

/-- The seal, and no other flag. -/
def sealFlags (flags : Flags) : Flags := { isSealed := flags.isSealed }

theorem isSealed_sealFlags (flags : Flags) : (sealFlags flags).isSealed = flags.isSealed := rfl

/-- Whether a value is sealed to the leaves only depends on the seals. -/
theorem allSealed_mapFlags {f : Flags → Flags} (keeps : ∀ flags, (f flags).isSealed = flags.isSealed)
    (v : Value Ty JobRef) : AllSealed (v.mapFlags f) ↔ AllSealed v := by
  constructor
  · intro all way target found
    have isSealed := all way (target.mapFlags f) (by rw [descend_mapFlags, found]; rfl)
    rwa [flags_mapFlags, keeps] at isSealed
  · intro all way target found
    rw [descend_mapFlags] at found
    obtain ⟨target', found', rfl⟩ := Option.map_eq_some_iff.mp found
    rw [flags_mapFlags, keeps]
    exact all way target' found'

theorem Tracked.mapFlags {f : Flags → Flags} (keeps : ∀ flags, (f flags).isSealed = flags.isSealed)
    {v : Value Ty JobRef} (tracked : Tracked jobs v) : Tracked jobs (v.mapFlags f) := by
  induction tracked with
  | scalar => exact .scalar
  | @array flags ctype elements closed _ ih =>
      have all := allSealed_mapFlags keeps (.array flags ctype elements)
      rw [Value.mapFlags] at all ⊢
      refine .array (fun isSealed => all.mpr (closed (by rwa [keeps] at isSealed))) fun e member => ?_
      rw [mapFlagsElements_eq_map] at member
      obtain ⟨e', inside, rfl⟩ := List.mem_map.mp member
      exact ih e' inside
  | @map flags t task job children closed submitted _ ih =>
      have all := allSealed_mapFlags keeps (.map flags t task job children)
      rw [Value.mapFlags] at all ⊢
      refine .map (fun isSealed => all.mpr (closed (by rwa [keeps] at isSealed))) (fun r carries => ?_)
        fun entry member => ?_
      · rw [keeps, childJobs_mapFlags]
        exact submitted r carries
      · rw [mapFlagsChildren_eq_map] at member
        obtain ⟨entry', inside, rfl⟩ := List.mem_map.mp member
        exact ih entry' inside

/-- The other way round. -/
theorem Tracked.of_mapFlags {f : Flags → Flags} (keeps : ∀ flags, (f flags).isSealed = flags.isSealed)
    {w : Value Ty JobRef} (tracked : Tracked jobs w) :
    ∀ {v : Value Ty JobRef}, v.mapFlags f = w → Tracked jobs v := by
  induction tracked with
  | scalar =>
      intro v same
      cases v with
      | scalar flags s => exact .scalar
      | array flags ctype elements => cases same
      | map flags t task job children => cases same
  | array closed _ ih =>
      intro v same
      cases v with
      | scalar flags s => cases same
      | map flags t task job children => cases same
      | array flags ctype elements =>
          have all := allSealed_mapFlags keeps (.array flags ctype elements)
          cases same
          refine .array (fun isSealed => all.mp (closed (by rwa [keeps]))) fun e member => ?_
          apply ih (e.mapFlags f) _ rfl
          rw [mapFlagsElements_eq_map]
          exact List.mem_map_of_mem member
  | map closed submitted _ ih =>
      intro v same
      cases v with
      | scalar flags s => cases same
      | array flags ctype elements => cases same
      | map flags t task job children =>
          have all := allSealed_mapFlags keeps (.map flags t task job children)
          cases same
          refine .map (fun isSealed => all.mp (closed (by rwa [keeps]))) (fun r carries => ?_)
            fun entry member => ?_
          · have parts := submitted r carries
            rwa [keeps, childJobs_mapFlags] at parts
          · apply ih (entry.1, entry.2.mapFlags f) _ rfl
            rw [mapFlagsChildren_eq_map]
            exact List.mem_map.mpr ⟨entry, member, rfl⟩

/-- Values that differ in other flags than the seals. -/
theorem Tracked.congr {v w : Value Ty JobRef} (same : v.mapFlags sealFlags = w.mapFlags sealFlags)
    (tracked : Tracked jobs w) : Tracked jobs v :=
  (tracked.mapFlags isSealed_sealFlags).of_mapFlags isSealed_sealFlags same

theorem AllSealed.congr {v w : Value Ty JobRef} (same : v.mapFlags sealFlags = w.mapFlags sealFlags)
    (all : AllSealed w) : AllSealed v := by
  rw [← allSealed_mapFlags isSealed_sealFlags, same]
  exact (allSealed_mapFlags isSealed_sealFlags w).mpr all

/-! #### Operations -/

theorem sealFlags_withFlags {f : Flags → Flags} (keeps : ∀ flags, (f flags).isSealed = flags.isSealed)
    (v : Value Ty JobRef) : (v.withFlags f).mapFlags sealFlags = v.mapFlags sealFlags := by
  apply mapFlags_withFlags
  intro flags
  rw [sealFlags, sealFlags, keeps]

/-- Marking a value raises DEFAULT and IGNORE only. -/
theorem sealFlags_marked {types : Types Ty JobRef} (t : TypeRef Ty) (key : Str) (v : Value Ty JobRef) :
    (marked types t key v).mapFlags sealFlags = v.mapFlags sealFlags := by
  unfold marked markFor
  cases ownArgument types t key with
  | none => rfl
  | some own =>
      dsimp only
      cases equalsDefault own v with
      | error e => rfl
      | ok isDefault =>
          apply sealFlags_withFlags
          exact fun _ => rfl

/-- The declared defaults and constants are tracked. -/
def DeclaresTracked (types : Types Ty JobRef) (jobs : List JobRecord) : Prop :=
  ∀ t, ∀ a ∈ types.arguments t, ∀ d, a.value = some d → Tracked jobs d

variable {types : Types Ty JobRef} {ws : Workspace}

theorem Supplies.tracked {root value : Value Ty JobRef} {a : Argument Ty JobRef} {t : TypeRef Ty}
    {paths : List Str} (declares : DeclaresTracked types jobs) (declared : a ∈ types.declarations t)
    (supplies : Supplies types ws root a (some (value, paths))) : Tracked jobs value := by
  obtain ⟨own, member⟩ := mem_declarations types declared
  cases supplies with
  | path name path generator made => exact .scalar
  | default d generator isDefault =>
      refine Tracked.congr (sealFlags_withFlags ?_ d) (declares own a member d (value_of_default isDefault))
      exact fun _ => rfl
  | constant c generator isConstant =>
      refine Tracked.congr (sealFlags_withFlags ?_ c) (declares own a member c (value_of_constant isConstant))
      exact fun _ => rfl
  | null generator value required => exact .scalar

theorem Filled.tracked {t : TypeRef Ty} {before after : List (Str × Value Ty JobRef)}
    (declares : DeclaresTracked types jobs) (filled : Filled types ws t before after)
    (each : ∀ entry ∈ before, Tracked jobs entry.2) : ∀ entry ∈ after, Tracked jobs entry.2 := by
  induction filled with
  | done children => exact each
  | store a declared missing root value paths supplies _ ih =>
      apply ih
      intro entry member
      rcases mem_insert member with rfl | old
      · exact (Supplies.tracked declares declared supplies).congr (sealFlags_marked t a.name value)
      · exact each entry old

theorem Flags.Generating.isSealed_eq {flags flags' : Flags} (generating : flags.Generating flags') :
    flags'.isSealed = flags.isSealed := by
  rcases generating with rfl | rfl <;> rfl

theorem isOpen_of_stops {flags : Flags} (fresh : flags.stops = false) : flags.isSealed = false :=
  (Bool.or_eq_false_iff.mp fresh).2

variable (types ws) in
/-- Generation keeps a value tracked, as it stops at what is sealed. -/
theorem generation_tracked (declares : DeclaresTracked types jobs) :
    FlagRule types ws fun v v' : Value Ty JobRef => Tracked jobs v → Tracked jobs v' where
  refl _ tracked := tracked
  scalar _ _ _ _ := .scalar
  array flags flags' ctype before after fresh generating each tracked := by
    cases tracked with
    | array _ before_tracked =>
        refine .array (fun isSealed => ?_) fun e member => ?_
        · rw [generating.isSealed_eq, isOpen_of_stops fresh] at isSealed
          cases isSealed
        · obtain ⟨old, there, keeps⟩ := exists_before each member
          exact keeps (before_tracked old there)
  map flags flags' t task job before between after fresh generating each filled tracked := by
    cases tracked with
    | map _ submitted before_tracked =>
        refine .map (fun isSealed => ?_) (fun r carries => ?_) (filled.tracked declares fun entry member => ?_)
        · rw [generating.isSealed_eq, isOpen_of_stops fresh] at isSealed
          cases isSealed
        · have isSealed := (submitted r carries).1
          rw [isOpen_of_stops fresh] at isSealed
          cases isSealed
        · obtain ⟨old, there, _, keeps⟩ := exists_before each member
          exact keeps (before_tracked old there)

theorem generate_of_sealed {v : Value Ty JobRef} (isSealed : v.flags.isSealed = true) :
    (generate types ws id v).result = v := by
  have stops : v.flags.stops = true := Bool.or_eq_true_iff.mpr (Or.inr isSealed)
  have stays (r : Generated (Value Ty JobRef)) : ((Value.generateStop v).getD r).result = v := by
    rcases generateStop_cases v r with same | ⟨fresh, _⟩
    · exact same
    · rw [stops] at fresh
      cases fresh
  cases v with
  | scalar flags s =>
      rw [generate]
      exact stays _
  | array flags ctype elements =>
      rw [generate]
      exact stays _
  | map flags t task job children =>
      rw [generate]
      exact stays _

variable (types) in
theorem sealFlags_validate (v : Value Ty JobRef) :
    (validate types v).1.mapFlags sealFlags = v.mapFlags sealFlags :=
  mapFlags_validate types (fun _ => rfl) v

theorem mem_sealElements {e : Value Ty JobRef} {elements : List (Value Ty JobRef)} :
    e ∈ sealElements elements ↔ ∃ e' ∈ elements, Configuration.sealValue e' = e := by
  induction elements with
  | nil => simp [sealElements]
  | cons first rest ih => rw [sealElements, List.mem_cons, ih, List.exists_mem_cons_iff, eq_comm]

theorem mem_sealChildren {entry : Str × Value Ty JobRef} {children : List (Str × Value Ty JobRef)} :
    entry ∈ sealChildren children ↔
      ∃ child, (entry.1, child) ∈ children ∧ entry.2 = Configuration.sealValue child := by
  induction children with
  | nil => simp [sealChildren]
  | cons first rest ih =>
      obtain ⟨k, v⟩ := first
      rw [sealChildren, List.mem_cons, ih]
      constructor
      · rintro (rfl | ⟨child, inside, same⟩)
        · exact ⟨v, List.mem_cons_self, rfl⟩
        · exact ⟨child, List.mem_cons_of_mem _ inside, same⟩
      · rintro ⟨child, inside, same⟩
        rcases List.mem_cons.mp inside with here | there
        · cases here
          exact Or.inl (Prod.ext rfl same)
        · exact Or.inr ⟨child, there, same⟩

/-- Sealing keeps a value tracked: what was open carries no job. -/
theorem Tracked.sealValue {v : Value Ty JobRef} (tracked : Tracked jobs v) :
    Tracked jobs (Configuration.sealValue v) := by
  have all := allSealed_sealValue tracked.sealedBelow
  induction tracked with
  | scalar => exact .scalar
  | @array flags ctype elements closed each ih =>
      by_cases already : flags.isSealed = true
      · have same : Configuration.sealValue (.array flags ctype elements) = .array flags ctype elements :=
          sealValue_of_sealed already
        rw [same]
        exact .array closed each
      · rw [Configuration.sealValue, if_neg already] at all ⊢
        refine .array (fun _ => all) fun e member => ?_
        obtain ⟨e', inside, rfl⟩ := mem_sealElements.mp member
        exact ih e' inside (allSealed_sealValue (each e' inside).sealedBelow)
  | @map flags t task job children closed submitted each ih =>
      by_cases already : flags.isSealed = true
      · have same : Configuration.sealValue (.map flags t task job children) = .map flags t task job children :=
          sealValue_of_sealed already
        rw [same]
        exact .map closed submitted each
      · rw [Configuration.sealValue, if_neg already] at all ⊢
        refine .map (fun _ => all) (fun r carries => absurd (submitted r carries).1 already) fun entry member => ?_
        obtain ⟨child, inside, same⟩ := mem_sealChildren.mp member
        rw [same]
        exact ih _ inside (allSealed_sealValue (each _ inside).sealedBelow)

/-! #### Submission -/

theorem AllSealed.forTask {v : Value Ty JobRef} (all : AllSealed v) (task : Str) :
    AllSealed (v.forTask task) := by
  cases v with
  | scalar flags s => exact all
  | array flags ctype elements => exact all
  | map flags t old job children => exact all.relabel

theorem AllSealed.bindJob {v : Value Ty JobRef} (all : AllSealed v) (job : JobRef) :
    AllSealed (v.bindJob job) := by
  cases v with
  | scalar flags s => exact all
  | array flags ctype elements => exact all
  | map flags t task old children => exact all.relabel

theorem Tracked.forTask {v : Value Ty JobRef} (tracked : Tracked jobs v) (task : Str) :
    Tracked jobs (v.forTask task) := by
  cases tracked with
  | scalar => exact .scalar
  | array closed each => exact .array closed each
  | map closed submitted each => exact .map (fun isSealed => (closed isSealed).relabel) submitted each

variable (types ws) in
/-- The outcomes of `configure`: `generate` throws, or `validate` throws, or the value is sealed. -/
theorem configure_cases (v : Value Ty JobRef) :
    (configure types ws v).result = sealValue (validate types (generate types ws id v).result).1 ∨
      (configure types ws v).error ≠ none ∧
        ((configure types ws v).result = (generate types ws id v).result ∨
          (configure types ws v).result = (validate types (generate types ws id v).result).1) := by
  unfold configure
  dsimp only
  split
  · exact Or.inr ⟨Option.some_ne_none _, Or.inl rfl⟩
  · split
    · next validated =>
      rw [validated]
      exact Or.inr ⟨Option.some_ne_none _, Or.inr rfl⟩
    · next validated =>
      rw [validated]
      exact Or.inl rfl

theorem Tracked.configure {v : Value Ty JobRef} (tracked : Tracked jobs v) (declares : DeclaresTracked types jobs) :
    Tracked jobs (configure types ws v).result ∧
      ((configure types ws v).error = none → AllSealed (configure types ws v).result) := by
  have generated : Tracked jobs (generate types ws id v).result :=
    (generation_tracked types ws declares).result v id tracked
  have validated := generated.congr (sealFlags_validate types (generate types ws id v).result)
  rcases configure_cases types ws v with done | ⟨thrown, early | late⟩
  · rw [done]
    exact ⟨validated.sealValue, fun _ => allSealed_sealValue validated.sealedBelow⟩
  · rw [early]
    exact ⟨generated, fun ok => absurd ok thrown⟩
  · rw [late]
    exact ⟨validated, fun ok => absurd ok thrown⟩

theorem AllSealed.configure {v : Value Ty JobRef} (all : AllSealed v) :
    AllSealed (configure types ws v).result := by
  have generated : (generate types ws id v).result = v := generate_of_sealed (allSealed_iff.mp all).1
  have validated : AllSealed (validate types v).1 := all.congr (sealFlags_validate types v)
  have closed : sealValue (validate types v).1 = (validate types v).1 :=
    sealValue_of_sealed (allSealed_iff.mp validated).1
  have outcomes := configure_cases types ws v
  rw [generated, closed] at outcomes
  rcases outcomes with done | ⟨_, early | late⟩
  · rwa [done]
  · rwa [early]
  · rwa [late]

variable (types ws) in
/-- What `Task::submit` has done to the value when it makes the job, or when it throws. -/
theorem prepare_cases (task : Str) (v : Value Ty JobRef) :
    ((prepare types ws task v).1 = v.forTask task ∧ ∀ record, (prepare types ws task v).2 ≠ .ok record) ∨
      ((prepare types ws task v).1 = (configure types ws (v.forTask task)).result ∧
        ∀ record, (prepare types ws task v).2 = .ok record →
          (configure types ws (v.forTask task)).error = none ∧
            record.dependencies = ((prepare types ws task v).1.addDependencies types).map .job) := by
  unfold prepare
  dsimp only
  split
  · next not_map =>
    refine Or.inl ⟨?_, nofun⟩
    cases v with
    | scalar flags s => rfl
    | array flags ctype elements => rfl
    | map flags t old job children => cases not_map
  · split
    · exact Or.inl ⟨rfl, nofun⟩
    · split
      · exact Or.inr ⟨rfl, nofun⟩
      · next ok =>
        refine Or.inr ⟨rfl, fun record made => ?_⟩
        cases made
        exact ⟨ok, rfl⟩

theorem Tracked.prepare {v : Value Ty JobRef} (tracked : Tracked jobs v) (declares : DeclaresTracked types jobs)
    (task : Str) : Tracked jobs (prepare types ws task v).1 := by
  rcases prepare_cases types ws task v with ⟨same, _⟩ | ⟨same, _⟩
  · rw [same]
    exact tracked.forTask task
  · rw [same]
    exact ((tracked.forTask task).configure declares).1

theorem AllSealed.prepare {v : Value Ty JobRef} (all : AllSealed v) (task : Str) :
    AllSealed (prepare types ws task v).1 := by
  rcases prepare_cases types ws task v with ⟨same, _⟩ | ⟨same, _⟩
  · rw [same]
    exact all.forTask task
  · rw [same]
    exact (all.forTask task).configure

/-- All jobs of a tracked value that hides nothing are dependencies, or ancestors of one. -/
theorem Tracked.reached {v : Value Ty JobRef} (tracked : Tracked jobs v) (visible : ¬ Hidden types v) :
    ∀ r ∈ v.jobs, ∃ origin, r = .job origin ∧ ∃ first, JobRef.job first ∈ v.addDependencies types ∧
      Relation.ReflTransGen (DependsOn jobs) first origin := by
  induction tracked with
  | scalar =>
      rintro r member
      rw [Value.jobs] at member
      cases member
  | @array flags ctype elements _ _ ih =>
      intro r member
      rw [Value.jobs] at member
      obtain ⟨e, inside, carried⟩ := mem_elementJobs.mp member
      obtain ⟨origin, same, first, found, path⟩ := ih e inside (fun hidden => visible (.element inside hidden)) r carried
      refine ⟨origin, same, first, ?_, path⟩
      have shown : ¬ (Value.array flags ctype elements).canIgnore types = true := fun ignorable =>
        visible (.here ignorable (List.ne_nil_of_mem member))
      rw [addDependencies, if_neg shown, elementDependencies_eq]
      exact List.mem_flatMap.mpr ⟨e, inside, found⟩
  | @map flags t task job children _ submitted _ ih =>
      intro r member
      rw [Value.jobs, List.mem_append] at member
      cases job with
      | some own =>
          obtain ⟨_, number, rfl, above⟩ := submitted own rfl
          rcases member with self | below
          · refine ⟨number, List.mem_singleton.mp self, number, ?_, .refl⟩
            rw [addDependencies]
            exact List.mem_singleton_self _
          · obtain ⟨origin, same, ancestor⟩ := above r below
            refine ⟨origin, same, number, ?_, ancestor.to_reflTransGen⟩
            rw [addDependencies]
            exact List.mem_singleton_self _
      | none =>
          rcases member with self | below
          · cases self
          · obtain ⟨entry, inside, carried⟩ := mem_childJobs.mp below
            obtain ⟨origin, same, first, found, path⟩ :=
              ih entry inside (fun hidden => visible (.child inside hidden)) r carried
            refine ⟨origin, same, first, ?_, path⟩
            rw [addDependencies, childDependencies_eq]
            exact List.mem_flatMap.mpr ⟨entry, inside, found⟩

/-- The jobs of the parameters are ancestors of the new job. -/
theorem above_submitted {v : Value Ty JobRef} (record : JobRecord) (tracked : Tracked jobs v)
    (visible : ¬ Hidden types v)
    (given : ∀ r ∈ v.addDependencies types, Resource.job r ∈ record.dependencies) :
    Above (jobs ++ [record]) jobs.length v.jobs := by
  intro r member
  obtain ⟨origin, same, first, found, path⟩ := tracked.reached visible r member
  have direct : DependsOn (jobs ++ [record]) jobs.length first :=
    ⟨record, List.getElem?_concat_length, given _ found⟩
  refine ⟨origin, same, Relation.TransGen.head' direct ?_⟩
  exact Relation.ReflTransGen.mono (fun _ _ => DependsOn.later) _ _ path

/-- The new job is bound to the parameters. -/
theorem Tracked.bindJob {v : Value Ty JobRef} {record : JobRecord} (tracked : Tracked jobs v) (all : AllSealed v)
    (above : Above (jobs ++ [record]) jobs.length v.jobs) :
    Tracked (jobs ++ [record]) (v.bindJob (.job jobs.length)) := by
  cases tracked with
  | scalar => exact .scalar
  | array closed each => exact .array closed fun e member => (each e member).later
  | map closed _ each =>
      refine .map (fun isSealed => (closed isSealed).relabel) (fun r carries => ?_)
        fun entry member => (each entry member).later
      cases carries
      refine ⟨(allSealed_iff.mp all).1, jobs.length, rfl, fun r below => above r ?_⟩
      rw [Value.jobs]
      exact List.mem_append_right _ below

/-! #### Unchanged values -/

theorem adjust_self {α : Type} {f : α → α} {key : Str} {v : α} {entries : List (Str × α)}
    (found : lookup key entries = some v) (same : f v = v) : adjust key f entries = entries := by
  induction entries with
  | nil => cases found
  | cons entry rest ih =>
      obtain ⟨k, w⟩ := entry
      rw [lookup] at found
      rw [adjust]
      split at found
      · next here =>
        cases found
        rw [if_pos here, same]
      · next other => rw [if_neg other, ih found]

theorem modify_self {α : Type} {f : α → α} {i : ℕ} {v : α} {entries : List α}
    (found : entries[i]? = some v) (same : f v = v) : entries.modify i f = entries := by
  induction entries generalizing i with
  | nil => cases found
  | cons entry rest ih =>
      cases i with
      | zero =>
          cases found
          rw [List.modify_zero_cons, same]
      | succ i => rw [List.modify_succ_cons, ih found]

/-- Nothing changes where nothing changes at the end of the way down. -/
theorem modifyAt_self {f : Value Ty JobRef → Value Ty JobRef} {way : List Selector} {v target : Value Ty JobRef}
    (found : v.descend way = some target) (same : f target = target) : v.modifyAt f way = v := by
  induction way generalizing v with
  | nil =>
      cases found
      exact same
  | cons s rest ih =>
      obtain ⟨c, first, others⟩ := Option.bind_eq_some_iff.mp found
      have inside := ih others
      cases v with
      | scalar flags value => cases s <;> rfl
      | array flags ctype elements =>
          cases s with
          | key name => rfl
          | index i => rw [Value.modifyAt, modifyChild, modify_self first inside]
      | map flags t task job children =>
          cases s with
          | key name => rw [Value.modifyAt, modifyChild, adjust_self first inside]
          | index i => rfl

/-! ### The invariant -/

/-- All values of the session are tracked. -/
def TrackedSession (s : Session Ty) : Prop := ∀ v ∈ s.values, Tracked s.jobs v

theorem TrackedSession.follow {s : Session Ty} (tracked : TrackedSession s) {handle : Handle} {v : Value Ty JobRef}
    (found : follow handle s.values = some v) : Tracked s.jobs v := by
  obtain ⟨root, inside, way⟩ := Option.bind_eq_some_iff.mp found
  exact (tracked root (List.mem_of_getElem? inside)).descend way

/-- A change of what is open, or no change. -/
theorem TrackedSession.update {s : Session Ty} (tracked : TrackedSession s) {handle : Handle}
    {f : Value Ty JobRef → Value Ty JobRef} {target : Value Ty JobRef}
    (found : Configuration.follow handle s.values = some target)
    (new : f target = target ∨ target.flags.isSealed = false ∧ Tracked s.jobs (f target)) :
    ∀ v ∈ update handle f s.values, Tracked s.jobs v := by
  intro v member
  rcases mem_update member with old | ⟨root, inside, rfl⟩
  · exact tracked v old
  · have root_tracked := tracked root (List.mem_of_getElem? inside)
    have way : root.descend handle.way = some target := by
      rw [Configuration.follow, inside] at found
      exact found
    rcases new with same | ⟨isOpen, new⟩
    · rwa [modifyAt_self way same]
    · refine root_tracked.modifyAt way (root_tracked.noJobAbove way isOpen) new fun all => ?_
      have isSealed := (allSealed_iff.mp all).1
      rw [isOpen] at isSealed
      cases isSealed

mutual

/-- What a client builds is open and carries no job. -/
theorem tracked_of_fresh {jobs : List JobRecord} :
    ∀ {v : Value Ty JobRef}, v.isFresh = true → v.jobs = [] → Tracked jobs v
  | .scalar _ _, _, _ => .scalar
  | .array _ _ elements, fresh, free => by
      rw [isFresh, Bool.and_eq_true_iff, beq_iff_eq] at fresh
      rw [Value.jobs] at free
      refine .array (fun isSealed => ?_) (tracked_of_freshElements fresh.2 free)
      rw [fresh.1] at isSealed
      cases isSealed
  | .map _ _ _ job children, fresh, free => by
      simp only [isFresh, Bool.and_eq_true_iff, beq_iff_eq, List.isEmpty_iff] at fresh
      obtain ⟨⟨rfl, rfl⟩, _⟩ := fresh
      rw [Value.jobs, List.append_eq_nil_iff, Option.toList_eq_nil_iff] at free
      obtain ⟨rfl, _⟩ := free
      exact .map nofun nofun nofun

theorem tracked_of_freshElements {jobs : List JobRecord} :
    ∀ {elements : List (Value Ty JobRef)}, isFresh.freshElements elements = true → elementJobs elements = [] →
      ∀ e ∈ elements, Tracked jobs e
  | [], _, _ => nofun
  | element :: rest, fresh, free => by
      rw [isFresh.freshElements, Bool.and_eq_true_iff] at fresh
      rw [elementJobs, List.append_eq_nil_iff] at free
      exact List.forall_mem_cons.mpr ⟨tracked_of_fresh fresh.1 free.1, tracked_of_freshElements fresh.2 free.2⟩

end

variable (types ws)

/-- No part of a built value has a dummy job, declared values are tracked when they are copied, and a
    submission is for no part of what was submitted and hides no job. -/
def Complete (s : Session Ty) : Action Ty → Prop
  | .build value => value.jobs = []
  | .set _ _ _ => True
  | .generate _ => DeclaresTracked types s.jobs
  | .submit task target _ =>
      DeclaresTracked types s.jobs ∧ (∀ root ∈ s.values[target.root]?, NoJobAbove target.way root) ∧
        ∀ v ∈ follow target s.values, ¬ Hidden types (prepare types ws task v).1

variable {types ws}

theorem tracked_set {v source : Value Ty JobRef} {key : Str} (tracked : Tracked jobs v)
    (stored : Tracked jobs source) :
    (v.set types key source).1 = v ∨ v.flags.isSealed = false ∧ Tracked jobs (v.set types key source).1 := by
  rcases set_cases types v key source with same | ⟨flags, t, task, job, children, rfl, isOpen, _, same⟩
  · exact Or.inl same
  · refine Or.inr ⟨isOpen, ?_⟩
    rw [same]
    cases tracked with
    | map _ submitted each =>
        refine .map (fun isSealed => ?_) (fun r carries => ?_) fun entry member => ?_
        · rw [isOpen] at isSealed
          cases isSealed
        · have isSealed := (submitted r carries).1
          rw [isOpen] at isSealed
          cases isSealed
        · rcases mem_insert member with rfl | old
          · exact stored.congr (sealFlags_marked t key source)
          · exact each entry old

theorem tracked_displaced {v child : Value Ty JobRef} {key : Str} (tracked : Tracked jobs v)
    (member : child ∈ v.displaced key) : Tracked jobs child := by
  cases tracked with
  | scalar => cases member
  | array => cases member
  | map _ _ each =>
      unfold displaced at member
      dsimp only at member
      split at member
      · cases member
      · exact each (key, child) (mem_of_lookup (Option.mem_toList.mp member))

/-- A submission that hides nothing. -/
theorem tracked_submit {s : Session Ty} {task : Str} {target : Handle} {v : Value Ty JobRef}
    {record : JobRecord} {dependencies : List Resource} (tracked : TrackedSession s)
    (declares : DeclaresTracked types s.jobs) (above : ∀ root ∈ s.values[target.root]?, NoJobAbove target.way root)
    (found : follow target s.values = some v) (visible : ¬ Hidden types (prepare types ws task v).1)
    (made : (prepare types ws task v).2 = .ok record) :
    Above (s.jobs ++ [{ record with dependencies := record.dependencies ++ dependencies }]) s.jobs.length
        (prepare types ws task v).1.jobs ∧
      TrackedSession (Session.submit
        { s with values := update target (fun v => (prepare types ws task v).1.bindJob (.job s.jobs.length)) s.values }
        { record with dependencies := record.dependencies ++ dependencies }) := by
  have prepared : Tracked s.jobs (prepare types ws task v).1 := (tracked.follow found).prepare declares task
  rcases prepare_cases types ws task v with ⟨_, failed⟩ | ⟨same, outcome⟩
  · exact absurd made (failed record)
  · obtain ⟨ok, given⟩ := outcome record made
    have all : AllSealed (prepare types ws task v).1 := by
      rw [same]
      exact (((tracked.follow found).forTask task).configure declares).2 ok
    have ancestors := above_submitted { record with dependencies := record.dependencies ++ dependencies } prepared
      visible fun r member => List.mem_append_left _ (given ▸ List.mem_map_of_mem member)
    refine ⟨ancestors, fun w member => ?_⟩
    rcases mem_update member with old | ⟨root, inside, rfl⟩
    · exact (tracked w old).later
    · have way : root.descend target.way = some v := by
        rw [Configuration.follow, inside] at found
        exact found
      exact (tracked root (List.mem_of_getElem? inside)).later.modifyAt way (above root inside)
        (prepared.bindJob all ancestors) fun closed => (closed.prepare task).bindJob _

theorem step_trackedSession {s s' : Session Ty} {a : Action Ty} (next : step types ws a s = some s')
    (complete : Complete types ws s a) (tracked : TrackedSession s) : TrackedSession s' := by
  cases a with
  | build value =>
      rw [step, Option.ite_none_right_eq_some] at next
      obtain ⟨fresh, next⟩ := next
      cases next
      intro v member
      rcases List.mem_append.mp member with old | built
      · exact tracked v old
      · rw [List.mem_singleton.mp built]
        exact tracked_of_fresh fresh complete
  | set target key source =>
      rw [step] at next
      obtain ⟨t, foundTarget, next⟩ := Option.bind_eq_some_iff.mp next
      obtain ⟨v, foundSource, next⟩ := Option.map_eq_some_iff.mp next
      cases next
      intro w member
      rcases List.mem_append.mp member with updated | displaced
      · exact tracked.update foundTarget (tracked_set (tracked.follow foundTarget) (tracked.follow foundSource)) w updated
      · exact tracked_displaced (tracked.follow foundTarget) displaced
  | generate target =>
      rw [step] at next
      obtain ⟨t, found, next⟩ := Option.map_eq_some_iff.mp next
      cases next
      refine tracked.update found ?_
      cases closed : t.flags.isSealed with
      | true => exact Or.inl (generate_of_sealed closed)
      | false => exact Or.inr ⟨rfl, (generation_tracked types ws complete).result t id (tracked.follow found)⟩
  | submit task target dependencies =>
      rw [step, Option.ite_none_right_eq_some] at next
      obtain ⟨_, next⟩ := next
      obtain ⟨v, found, next⟩ := Option.map_eq_some_iff.mp next
      obtain ⟨declares, above, visible⟩ := complete
      split at next
      · cases next
        intro w member
        rcases mem_update member with old | ⟨root, inside, rfl⟩
        · exact tracked w old
        · have way : root.descend target.way = some v := by
            rw [Configuration.follow, inside] at found
            exact found
          exact (tracked root (List.mem_of_getElem? inside)).modifyAt way (above root inside)
            ((tracked.follow found).prepare declares task) fun all => all.prepare task
      · next record made =>
        cases next
        exact (tracked_submit tracked declares above found (visible v found) made).2

end

/-! ### The result -/

section

variable {Ty Job : Type} (types : Types Ty Job)

/-- Whether something is hidden can be computed. -/
theorem visible_iff (v : Value Ty Job) :
    ¬ Hidden types v ↔ (v.addDependencies types).length = (outermost v).length := by
  constructor
  · intro visible
    rw [addDependencies_eq visible, List.length_map]
  · intro same hidden
    exact absurd same (Nat.ne_of_lt (addDependencies_lt hidden))

instance (v : Value Ty Job) : Decidable (¬ Hidden types v) :=
  decidable_of_iff _ (visible_iff types v).symm

instance decidableNoJobAbove {Ty : Type} :
    ∀ (way : List Selector) (v : Value Ty JobRef), Decidable (NoJobAbove way v)
  | [], _ => .isTrue trivial
  | s :: rest, v =>
      match bound : v.boundTo, found : v.child s with
      | some _, _ => .isFalse fun above => by
          rw [above.1] at bound
          cases bound
      | none, none => .isTrue ⟨bound, fun c here => by
          rw [found] at here
          cases here⟩
      | none, some c =>
          match decidableNoJobAbove rest c with
          | .isTrue above => .isTrue ⟨bound, fun c' here => by
              rw [found] at here
              cases here
              exact above⟩
          | .isFalse carried => .isFalse fun above => carried (above.2 c found)

instance {Ty : Type} (types : Types Ty JobRef) (ws : Workspace) (s : Session Ty)
    [Decidable (DeclaresTracked types s.jobs)] : ∀ a, Decidable (Complete types ws s a)
  | .build value => inferInstanceAs (Decidable (value.jobs = []))
  | .set _ _ _ => inferInstanceAs (Decidable True)
  | .generate _ => inferInstanceAs (Decidable (DeclaresTracked types s.jobs))
  | .submit task target _ =>
      inferInstanceAs (Decidable (DeclaresTracked types s.jobs ∧
        (∀ root ∈ s.values[target.root]?, NoJobAbove target.way root) ∧
          ∀ v ∈ follow target s.values, ¬ Hidden types (prepare types ws task v).1))

end

instance (jobs : List JobRecord) : Decidable (DeclaresTracked (bareTypes JobRef) jobs) :=
  .isTrue fun _ _ member => by cases member

/-- The type `T` has an argument `xs` that is ignored. -/
def ignoringTypes : Types Str JobRef :=
  { bareTypes JobRef with
    arguments := fun t =>
      if t = str "T" then [{ name := str "xs", type := .base (str "any"), ignored := true }] else []
    nodup := fun t => by
      split
      · exact List.nodup_singleton _
      · exact List.nodup_nil }

/-- A value in an array is submitted, and the array is an ignored argument of the value that is submitted
    next: its job depends on nothing, and a dependency is missing. -/
theorem dependency_missed :
    ∃ s, (system ignoringTypes weighing).Reachable s ∧ ∃ v record, follow ⟨1, []⟩ s.values = some v ∧
      v.boundTo = some (.job 1) ∧ JobRef.job 0 ∈ v.jobs ∧ s.jobs[1]? = some record ∧
      record.dependencies = [] := by
  have executed : ((TransitionSystem.runActions (step ignoringTypes weighing)
      [.build (.array {} (.base (str "U")) [.map {} (.base (str "U")) none none []]),
        .submit (str "a") ⟨0, [.index 0]⟩ [], .build (.map {} (.base (str "T")) none none []),
        .set ⟨1, []⟩ (str "xs") ⟨0, []⟩, .submit (str "bb") ⟨1, []⟩ []] {}).map
      fun s => ((follow ⟨1, []⟩ s.values).map fun v => (v.boundTo, v.jobs), s.jobs[1]?.map (·.dependencies))) =
        some (some (some (.job 1), [.job 1, .job 0]), some []) := by decide
  obtain ⟨s, run, seen⟩ := TransitionSystem.exists_reachable_of_runActions executed
  simp only [Prod.mk.injEq, Option.map_eq_some_iff] at seen
  obtain ⟨⟨v, found, bound, jobs⟩, record, recorded, dependencies⟩ := seen
  refine ⟨s, run, v, record, found, bound, ?_, recorded, dependencies⟩
  rw [jobs]
  decide

/-- A job gets a dependency for each outermost map with a job in its parameters, and no other one, exactly
    when no array that can be ignored holds one of them. In a run where no submission hides a job in this
    way, nor changes the job of a part of what was submitted, every job in the parameters of a new job is
    an ancestor of it. -/
theorem dependencies_complete {Ty : Type} (types : Types Ty JobRef) (ws : Workspace) :
    (∀ v : Value Ty JobRef, Keyed v → (OneEach types v ↔ ¬ Hidden types v)) ∧
      ∀ s, (system types ws).RunUnder (Complete types ws) s →
        ∀ (task : Str) (target : Handle) (dependencies : List Resource) (v : Value Ty JobRef)
          (record : JobRecord) (s' : Session Ty), Complete types ws s (.submit task target dependencies) →
            follow target s.values = some v → (prepare types ws task v).2 = .ok record →
              step types ws (.submit task target dependencies) s = some s' →
                ∀ r ∈ (prepare types ws task v).1.jobs, ∃ origin, r = .job origin ∧
                  Relation.TransGen (DependsOn s'.jobs) s.jobs.length origin := by
  refine ⟨fun v keyed => oneEach_iff types keyed, ?_⟩
  intro s run task target dependencies v record s' complete found made next
  have tracked : TrackedSession s := by
    apply TransitionSystem.System.RunUnder.invariant TrackedSession _ _ run
    · rintro _ rfl v member
      cases member
    · intro s a s' _ complete next before
      exact step_trackedSession next complete before
  obtain ⟨declares, above, visible⟩ := complete
  rw [step, Option.ite_none_right_eq_some, found, Option.map_some, made] at next
  cases next.2
  exact (tracked_submit tracked declares above found (visible v found) made).1

/-- A value is submitted, and then one that has it as its parameter: job 0 is an ancestor of job 1. -/
theorem dependencies_complete_pipeline :
    ∃ s, (system (bareTypes JobRef) weighing).RunUnder (Complete (bareTypes JobRef) weighing) s ∧
      ∃ s', step (bareTypes JobRef) weighing (.submit (str "bb") ⟨1, []⟩ []) s = some s' ∧
        Relation.TransGen (DependsOn s'.jobs) 1 0 := by
  have executed : ((TransitionSystem.runActions
      (TransitionSystem.guarded (Complete (bareTypes JobRef) weighing) (step (bareTypes JobRef) weighing))
      [.build (.map {} (.base (str "T")) none none []), .submit (str "a") ⟨0, []⟩ [],
        .build (.map {} (.base (str "T")) none none []), .set ⟨1, []⟩ (str "p") ⟨0, []⟩] {}).map fun s =>
          (s.jobs.length, decide (Complete (bareTypes JobRef) weighing s (.submit (str "bb") ⟨1, []⟩ [])) &&
              (step (bareTypes JobRef) weighing (.submit (str "bb") ⟨1, []⟩ []) s).isSome,
            (follow ⟨1, []⟩ s.values).map fun v => ((prepare (bareTypes JobRef) weighing (str "bb") v).1.jobs,
              (prepare (bareTypes JobRef) weighing (str "bb") v).2.isOk))) =
      some (1, true, some ([.job 0], true)) := by decide
  obtain ⟨s, run, seen⟩ := TransitionSystem.exists_runUnder_of_runActions executed
  simp only [Prod.mk.injEq, Option.map_eq_some_iff, Bool.and_eq_true, decide_eq_true_iff] at seen
  obtain ⟨length, ⟨complete, enabled⟩, v, found, jobs, ok⟩ := seen
  obtain ⟨s', next⟩ := Option.isSome_iff_exists.mp enabled
  cases made : (prepare (bareTypes JobRef) weighing (str "bb") v).2 with
  | error e =>
      rw [made] at ok
      cases ok
  | ok record =>
      have ancestors := (dependencies_complete (bareTypes JobRef) weighing).2 s run (str "bb") ⟨1, []⟩ [] v
        record s' complete found made next
      rw [jobs, length] at ancestors
      obtain ⟨origin, same, ancestor⟩ := ancestors _ List.mem_cons_self
      cases same
      exact ⟨s, run, s', next, ancestor⟩

end Experimaestro.Configuration

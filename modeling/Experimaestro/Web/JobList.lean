/-
Module: Experimaestro.Web.JobList
Layer: Web
Purpose: What the reducer keeps of the two structures that hold the jobs: the table by id and the sorted list of ids.
  They agree after any actions, although a job is added to both, an update may change the rank of a job or name an
  unknown one, and a reset empties both.
Imports: Experimaestro.Web.Client, Experimaestro.Web.Mirror (digits), Experimaestro.Configuration.Printing (order of
  texts)
Trusted boundary: none (fully proved)
Main exports: WellFormed, TotalOrder, Listed, JobList, jobList_step, jobList_of_actions
Open obligations: none
-/
import Mathlib.Tactic.Common
import Experimaestro.Configuration.Printing
import Experimaestro.Web.Client
import Experimaestro.Web.Mirror

namespace Experimaestro.Web

open Experimaestro.Configuration (Json Str str lookup insert lookup_insert lookup_eq_none_of_not_mem keyLess
  keyLess_trans keyLess_of_not)

/-! ### Actions with digests as ids -/

/-- The payload names a job: its id is a text of hexadecimal digits. -/
def NamesJob (payload : Members) : Prop :=
  ∃ id, lookup (str "jobId") payload = some (.string id) ∧ id.all isHexDigit = true

/-- A payload is an object, whose keys are distinct. A job that is added has an id, an update may lack it. -/
def WellFormed : Action → Prop
  | .jobAdd payload => (payload.map Prod.fst).Nodup ∧ NamesJob payload
  | .jobUpdate payload =>
      (payload.map Prod.fst).Nodup ∧ (lookup (str "jobId") payload = none ∨ NamesJob payload)
  | _ => True

theorem NamesJob.payloadId {payload : Members} (names : NamesJob payload) :
    lookup (str "jobId") payload = some (.string (payloadId payload)) := by
  obtain ⟨id, named, _⟩ := names
  rw [Web.payloadId, named]
  rfl

/-! ### The order of the ids -/

/-- `localeCompare` is a total order: of two texts one is not after the other, and the order is transitive. -/
structure TotalOrder (localeCompare : Str → Str → Int) : Prop where
  total : ∀ a b, localeCompare a b ≤ 0 ∨ localeCompare b a ≤ 0
  trans : ∀ a b c, localeCompare a b ≤ 0 → localeCompare b c ≤ 0 → localeCompare a c ≤ 0

/-- The rank by which the jobs are sorted. -/
def rank (byId : List (Str × Members)) (id : Str) : Int := status2int (statusOf byId id)

/-- `id1` may stand before `id2`: its rank is higher, or the ranks are equal and it is not the later text. -/
def Before (localeCompare : Str → Str → Int) (byId : List (Str × Members)) (id1 id2 : Str) : Prop :=
  rank byId id2 < rank byId id1 ∨ rank byId id1 = rank byId id2 ∧ localeCompare id1 id2 ≤ 0

section

variable {localeCompare : Str → Str → Int} {byId : List (Str × Members)}

theorem jobComparator_le (id1 id2 : Str) :
    jobComparator localeCompare byId id1 id2 ≤ 0 ↔ Before localeCompare byId id1 id2 := by
  unfold jobComparator Before rank
  dsimp only
  split
  case isTrue different => omega
  case isFalse same => omega

theorem Before.trans (order : TotalOrder localeCompare) {a b c : Str} (first : Before localeCompare byId a b)
    (second : Before localeCompare byId b c) : Before localeCompare byId a c := by
  unfold Before at *
  cases first with
  | inl higher => omega
  | inr equal =>
      cases second with
      | inl higher => omega
      | inr equal' =>
          right
          exact ⟨equal.1.trans equal'.1, order.trans a b c equal.2 equal'.2⟩

theorem Before.total (order : TotalOrder localeCompare) (a b : Str) :
    Before localeCompare byId a b ∨ Before localeCompare byId b a := by
  unfold Before
  cases order.total a b with
  | inl first => omega
  | inr second => omega

/-- The sorted list is in the order of the comparator. -/
theorem sortIds_sorted (order : TotalOrder localeCompare) (ids : List Str) :
    (sortIds localeCompare byId ids).Pairwise (Before localeCompare byId) := by
  have sorted : (sortIds localeCompare byId ids).Pairwise fun id1 id2 =>
      decide (jobComparator localeCompare byId id1 id2 ≤ 0) = true := by
    apply List.pairwise_mergeSort
    · intro a b c first second
      simp only [decide_eq_true_eq, jobComparator_le] at *
      exact first.trans order second
    · intro a b
      simp only [Bool.or_eq_true, decide_eq_true_eq, jobComparator_le]
      exact Before.total order a b
  apply sorted.imp
  intro a b le
  exact (jobComparator_le a b).mp (of_decide_eq_true le)

end

theorem sortIds_perm (localeCompare : Str → Str → Int) (byId : List (Str × Members)) (ids : List Str) :
    (sortIds localeCompare byId ids).Perm ids := List.mergeSort_perm ids _

/-! ### The invariant -/

/-- The list of ids stands for the table of jobs. -/
structure Listed (ids : List Str) (byId : List (Str × Members)) : Prop where
  distinct : ids.Nodup
  keys : ∀ id, id ∈ ids ↔ (lookup id byId).isSome = true
  own : ∀ id entry, lookup id byId = some entry → lookup (str "jobId") entry = some (.string id)

/-- The list of jobs of the client. -/
structure JobList (localeCompare : Str → Str → Int) (s : ClientState) : Prop extends Listed s.ids s.byId where
  sorted : s.ids.Pairwise (Before localeCompare s.byId)

theorem Listed.sortIds {ids : List Str} {byId : List (Str × Members)} (listed : Listed ids byId)
    (localeCompare : Str → Str → Int) : Listed (sortIds localeCompare byId ids) byId where
  distinct := (sortIds_perm localeCompare byId ids).nodup_iff.mpr listed.distinct
  keys id := (sortIds_perm localeCompare byId ids).mem_iff.trans (listed.keys id)
  own := listed.own

/-- Adding a job: its id is listed if it was not known. -/
theorem Listed.addEntry {ids : List Str} {byId : List (Str × Members)} (listed : Listed ids byId) {payload : Members}
    (names : NamesJob payload) :
    Listed (if (lookup (payloadId payload) byId).isNone then ids ++ [payloadId payload] else ids)
      (addEntry byId payload) := by
  have own : ∀ id entry, lookup id (Web.addEntry byId payload) = some entry →
      lookup (str "jobId") entry = some (.string id) := by
    intro id entry found
    rw [Web.addEntry, lookup_insert] at found
    split at found
    case isTrue here =>
        cases found
        rw [← here]
        exact names.payloadId
    case isFalse => exact listed.own id entry found
  have keys (id : Str) : (lookup id (Web.addEntry byId payload)).isSome = true ↔
      payloadId payload = id ∨ id ∈ ids := by
    rw [Web.addEntry, lookup_insert, listed.keys]
    split
    case isTrue here => simp [here]
    case isFalse other => simp [other]
  split
  case isTrue unknown =>
      have fresh : payloadId payload ∉ ids := by
        intro known
        rw [listed.keys, ← Option.not_isNone, unknown] at known
        cases known
      refine ⟨?_, ?_, own⟩
      · apply List.nodup_append.mpr
        refine ⟨listed.distinct, List.nodup_singleton _, ?_⟩
        intro a before b here same
        rw [List.mem_singleton.mp here] at same
        exact fresh (same ▸ before)
      · intro id
        rw [keys, List.mem_append, List.mem_singleton]
        rw [or_comm, eq_comm]
  case isFalse known =>
      refine ⟨listed.distinct, ?_, own⟩
      intro id
      rw [keys]
      refine ⟨Or.inr, fun member => ?_⟩
      cases member with
      | inr before => exact before
      | inl here =>
          rw [← here, listed.keys]
          exact Option.isSome_iff_ne_none.mpr fun missing => known (by rw [missing, Option.isNone_none])

/-- `merge` takes a text over from the payload. -/
theorem lookup_mergeMembers_string {key text : Str} {members : Members} (distinct : (members.map Prod.fst).Nodup)
    (present : lookup key members = some (.string text)) (olds : Members) :
    lookup key (mergeMembers olds members) = some (.string text) := by
  induction members generalizing olds with
  | nil => cases present
  | cons member rest ih =>
      obtain ⟨k, value⟩ := member
      obtain ⟨only, others⟩ := List.nodup_cons.mp distinct
      rw [mergeMembers]
      rw [lookup] at present
      split at present
      case isFalse => exact ih others present _
      case isTrue here =>
          have absent : lookup key rest = none := lookup_eq_none_of_not_mem (here ▸ only)
          cases present
          rw [lookup_mergeMembers absent, lookup_insert, if_pos here, mergeValue]

/-- An update changes no id: neither in the table, nor in the entries. -/
theorem Listed.updateEntry {ids : List Str} {byId : List (Str × Members)} (listed : Listed ids byId)
    {payload : Members} (distinct : (payload.map Prod.fst).Nodup)
    (named : lookup (str "jobId") payload = none ∨ NamesJob payload) : Listed ids (updateEntry byId payload) := by
  rw [Web.updateEntry]
  cases found : lookup (payloadId payload) byId with
  | none => exact listed
  | some entry =>
      refine ⟨listed.distinct, ?_, ?_⟩
      · intro id
        rw [listed.keys, lookup_insert]
        split
        case isTrue here => rw [← here, found, Option.isSome_some, Option.isSome_some]
        case isFalse => rfl
      · intro id entry' found'
        rw [lookup_insert] at found'
        split at found'
        case isFalse => exact listed.own id entry' found'
        case isTrue here =>
            cases found'
            cases named with
            | inl missing =>
                rw [lookup_mergeMembers missing, ← here]
                exact listed.own _ entry found
            | inr names =>
                rw [← here]
                exact lookup_mergeMembers_string distinct names.payloadId entry

/-! ### Sequences of actions -/

section

variable {localeCompare : Str → Str → Int}

theorem listed_empty : Listed [] [] where
  distinct := List.nodup_nil
  keys _ := ⟨nofun, nofun⟩
  own _ _ := nofun

theorem jobList_initial : JobList localeCompare initialState where
  toListed := listed_empty
  sorted := List.Pairwise.nil

/-- Sorting the ids of a table makes a job list. -/
theorem Listed.jobList (order : TotalOrder localeCompare) {ids : List Str} {byId : List (Str × Members)}
    (listed : Listed ids byId) (s : ClientState) :
    JobList localeCompare { s with byId := byId, ids := Web.sortIds localeCompare byId ids } where
  toListed := listed.sortIds localeCompare
  sorted := sortIds_sorted order ids

/-- One action. -/
theorem jobList_step (order : TotalOrder localeCompare) {s : ClientState} {action : Action}
    (formed : WellFormed action) (list : JobList localeCompare s) :
    JobList localeCompare (reducer localeCompare s action) := by
  cases action with
  | connected payload => exact ⟨list.toListed, list.sorted⟩
  | experimentAdd payload => exact ⟨list.toListed, list.sorted⟩
  | experimentSetMain payload => exact ⟨list.toListed, list.sorted⟩
  | other type => exact list
  | cleanInformation => exact ⟨listed_empty, List.Pairwise.nil⟩
  | jobAdd payload => exact (list.toListed.addEntry formed.2).jobList order s
  | jobUpdate payload => exact (list.toListed.updateEntry formed.1 formed.2).jobList order s

/-- After any actions, the ids are distinct, they are the keys of the table, each entry has the id under which it is
stored, and the ids are sorted by decreasing rank and then as texts. -/
theorem jobList_of_actions (order : TotalOrder localeCompare) (actions : List Action)
    (formed : ∀ action ∈ actions, WellFormed action) :
    JobList localeCompare (actions.foldl (reducer localeCompare) initialState) := by
  have run (s : ClientState) (list : JobList localeCompare s) :
      JobList localeCompare (actions.foldl (reducer localeCompare) s) := by
    induction actions generalizing s with
    | nil => exact list
    | cons action rest ih =>
        obtain ⟨first, others⟩ := List.forall_mem_cons.mp formed
        exact ih others _ (jobList_step order first list)
  exact run initialState jobList_initial

end

/-- On texts of lower-case hexadecimal digits, `localeCompare` compares the characters. -/
def compareDigits (a b : Str) : Int := if keyLess a b then -1 else if a = b then 0 else 1

theorem compareDigits_le (a b : Str) : compareDigits a b ≤ 0 ↔ keyLess a b = true ∨ a = b := by
  unfold compareDigits
  split
  case isTrue less => simp [less]
  case isFalse more =>
      split
      case isTrue same => simp [same]
      case isFalse other => simp [more, other]

theorem compareDigits_total : TotalOrder compareDigits where
  total a b := by
    rw [compareDigits_le, compareDigits_le]
    by_cases same : a = b
    · exact .inl (.inr same)
    · cases less : keyLess a b with
      | true => exact .inl (.inl rfl)
      | false => exact .inr (.inl (keyLess_of_not same less))
  trans a b c := by
    rw [compareDigits_le, compareDigits_le, compareDigits_le]
    intro first second
    cases first with
    | inr same => exact same ▸ second
    | inl less =>
        cases second with
        | inr same' => exact .inl (same' ▸ less)
        | inl less' => exact .inl (keyLess_trans less less')

/-- A job is added twice and runs, another one is done, and updates name the first job, no job, and an unknown one. -/
def someActions : List Action :=
  [.connected true,
    .jobAdd [(str "jobId", .string (str "b7")), (str "status", .string (str "done"))],
    .jobAdd [(str "jobId", .string (str "c4")), (str "status", .string (str "waiting"))],
    .jobUpdate [(str "jobId", .string (str "b7")), (str "status", .string (str "running"))],
    .jobUpdate [(str "status", .string (str "done"))],
    .jobUpdate [(str "jobId", .string (str "ff")), (str "status", .string (str "done"))],
    .jobAdd [(str "jobId", .string (str "c4")), (str "status", .string (str "done"))]]

theorem someActions_formed : ∀ action ∈ someActions, WellFormed action := by
  have named (id : Str) (digits : id.all isHexDigit = true) (members : Members)
      (here : lookup (str "jobId") members = some (.string id)) : NamesJob members := ⟨id, here, digits⟩
  have update (members : Members) (missing : lookup (str "jobId") members = none) :
      lookup (str "jobId") members = none ∨ NamesJob members := .inl missing
  simp only [someActions, List.forall_mem_cons, WellFormed, List.not_mem_nil, false_implies, implies_true, and_true,
    true_and]
  refine ⟨⟨by decide, ?_⟩, ⟨by decide, ?_⟩, ⟨by decide, .inr ?_⟩, ⟨by decide, ?_⟩, ⟨by decide, .inr ?_⟩, by decide, ?_⟩
  · exact named (str "b7") (by decide) _ rfl
  · exact named (str "c4") (by decide) _ rfl
  · exact named (str "b7") (by decide) _ rfl
  · exact update _ rfl
  · exact named (str "ff") (by decide) _ rfl
  · exact named (str "c4") (by decide) _ rfl

theorem jobList_of_someActions :
    JobList compareDigits (someActions.foldl (reducer compareDigits) initialState) :=
  jobList_of_actions compareDigits_total someActions someActions_formed

end Experimaestro.Web

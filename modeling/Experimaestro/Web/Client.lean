/-
Module: Experimaestro.Web.Client
Layer: Web
Purpose: The store of the web client. The reducer keeps the jobs in a table by their id, and the ids in the
  order of a comparator that reads the table. A `JOB_ADD` replaces the entry of the job; a `JOB_UPDATE` is
  merged into the entry of the id in its payload, and dropped where there is none.
Imports: Experimaestro.Configuration.Creation
Trusted boundary: human-reviewed model of src/app/src/reducer.js, and of `merge` of lodash for JSON values
Main exports: Action, ClientState, mergeValue, reducer, statusOf, statusOf_jobAdd, statusOf_jobUpdate,
  entry_of_listed
Open obligations: none
-/
import Mathlib.Tactic.Common
import Experimaestro.Configuration.Creation

namespace Experimaestro.Web

open Experimaestro.Configuration (Json Str str lookup insert lookup_insert)

/-- The members of a JSON object. -/
abbrev Members := List (Str × Json)

/-! ### Actions and state -/

/-- `Action`; the reducer leaves the state as it is for actions of other types. -/
inductive Action where
  | connected (payload : Bool)
  | cleanInformation
  | experimentAdd (payload : Members)
  | experimentSetMain (payload : Json)
  | jobAdd (payload : Members)
  | jobUpdate (payload : Members)
  | other (type : Str)

/-- `State`. -/
structure ClientState where
  connected : Bool := false
  experiment : Json := .null
  byId : List (Str × Members) := []
  ids : List Str := []
  experiments : List (Str × Members) := []

/-- `initialState`. -/
def initialState : ClientState := {}

/-- The name under which a table is accessed; what is undefined is accessed as `undefined`. In the messages
    of the server ids and names are texts; of the other values, arrays are not written out here. -/
def propertyKey : Option Json → Str
  | some (.string text) => text
  | some (.integer n) => str (toString n.toInt)
  | some (.boolean b) => str (toString b)
  | some .null => str "null"
  | some (.float _) => str "NaN"
  | some (.array _) => []
  | some (.object _) => str "[object Object]"
  | none => str "undefined"

/-! ### `merge` -/

mutual

/-- The value that `merge` assigns, where an array or an object meets its own kind or no array and object. -/
def mergeValue (old : Option Json) : Json → Json
  | .object members => .object (mergeMembers (match old with | some (.object olds) => olds | _ => []) members)
  | .array elements => .array (mergeElements (match old with | some (.array olds) => olds | _ => []) elements)
  | .null => .null
  | .boolean b => .boolean b
  | .integer n => .integer n
  | .float bits => .float bits
  | .string text => .string text

/-- `merge` of the members of an object. -/
def mergeMembers (olds : Members) : Members → Members
  | [] => olds
  | (key, value) :: rest => mergeMembers (insert key (mergeValue (lookup key olds) value) olds) rest

/-- `merge` of the elements of an array. -/
def mergeElements (olds : List Json) : List Json → List Json
  | [] => olds
  | value :: rest => mergeValue olds.head? value :: mergeElements olds.tail rest

end

/-- A member that the source does not have stays. -/
theorem lookup_mergeMembers {key : Str} {members : Members} (absent : lookup key members = none) (olds : Members) :
    lookup key (mergeMembers olds members) = lookup key olds := by
  induction members generalizing olds with
  | nil => rw [mergeMembers]
  | cons member rest ih =>
      obtain ⟨k, value⟩ := member
      rw [lookup] at absent
      split at absent
      · cases absent
      · rename_i other
        rw [mergeMembers, ih absent, lookup_insert, if_neg other]

/-! ### The reducer -/

/-- The status in the entry of a job. -/
def statusOf (byId : List (Str × Members)) (id : Str) : Option Json :=
  (lookup id byId).bind (lookup (str "status"))

/-- `status2int`. -/
def status2int : Option Json → Int
  | some (.string text) =>
      if text = str "running" then 5
      else if text = str "error" then 2
      else if text = str "waiting" then 2
      else if text = str "ready" then 1
      else 0
  | _ => 0

variable (localeCompare : Str → Str → Int)

/-- `jobComparator`. It reads the entries of the ids, which exist by `entry_of_listed`. -/
def jobComparator (byId : List (Str × Members)) (id1 id2 : Str) : Int :=
  let z := status2int (statusOf byId id2) - status2int (statusOf byId id1)
  if z ≠ 0 then z else localeCompare id1 id2

/-- `ids.sort(jobComparator(byId))`. -/
def sortIds (byId : List (Str × Members)) (ids : List Str) : List Str :=
  ids.mergeSort fun id1 id2 => jobComparator localeCompare byId id1 id2 ≤ 0

/-- The id in a payload. -/
def payloadId (payload : Members) : Str := propertyKey (lookup (str "jobId") payload)

/-- The table after a job has been added. -/
def addEntry (byId : List (Str × Members)) (payload : Members) : List (Str × Members) :=
  insert (payloadId payload) payload byId

/-- The table after an update: nothing happens where there is no entry. -/
def updateEntry (byId : List (Str × Members)) (payload : Members) : List (Str × Members) :=
  match lookup (payloadId payload) byId with
  | none => byId
  | some entry => insert (payloadId payload) (mergeMembers entry payload) byId

/-- `reducer`. -/
def reducer (s : ClientState) : Action → ClientState
  | .connected payload => { s with connected := payload }
  | .cleanInformation => { s with byId := [], ids := [], experiments := [] }
  | .experimentSetMain payload => { s with experiment := payload }
  | .experimentAdd payload =>
      { s with experiments := insert (propertyKey (lookup (str "name") payload)) payload s.experiments }
  | .jobAdd payload =>
      let ids := if (lookup (payloadId payload) s.byId).isNone then s.ids ++ [payloadId payload] else s.ids
      let byId := addEntry s.byId payload
      { s with byId := byId, ids := sortIds localeCompare byId ids }
  | .jobUpdate payload =>
      let byId := updateEntry s.byId payload
      { s with byId := byId, ids := sortIds localeCompare byId s.ids }
  | .other _ => s

variable {localeCompare}

/-! ### Statuses -/

theorem statusOf_jobAdd (s : ClientState) (payload : Members) (id : Str) :
    statusOf (reducer localeCompare s (.jobAdd payload)).byId id =
      if payloadId payload = id then lookup (str "status") payload else statusOf s.byId id := by
  rw [reducer, statusOf, addEntry, lookup_insert]
  split <;> rfl

/-- An update without a status, or for an id without an entry, leaves every status as it is. -/
theorem statusOf_jobUpdate {s : ClientState} {payload : Members}
    (silent : lookup (str "status") payload = none ∨ lookup (payloadId payload) s.byId = none) (id : Str) :
    statusOf (reducer localeCompare s (.jobUpdate payload)).byId id = statusOf s.byId id := by
  rw [reducer, updateEntry]
  cases found : lookup (payloadId payload) s.byId with
  | none => rfl
  | some entry =>
      have absent : lookup (str "status") payload = none :=
        silent.resolve_right fun missing => by
          rw [found] at missing
          cases missing
      dsimp only
      rw [statusOf, lookup_insert]
      split
      · rename_i here
        rw [Option.bind_some, lookup_mergeMembers absent, statusOf, ← here, found, Option.bind_some]
      · rfl

/-! ### The list of ids -/

theorem isSome_insert {α : Type} {key k : Str} {value : α} {entries : List (Str × α)}
    (present : (lookup k entries).isSome = true) : (lookup k (insert key value entries)).isSome = true := by
  rw [lookup_insert]
  split
  · rfl
  · exact present

/-- Every listed id has an entry, so that the comparator finds a status. -/
theorem entry_of_listed (actions : List Action) :
    ∀ id ∈ (actions.foldl (reducer localeCompare) initialState).ids,
      (lookup id (actions.foldl (reducer localeCompare) initialState).byId).isSome = true := by
  have kept (s : ClientState) (action : Action)
      (listed : ∀ id ∈ s.ids, (lookup id s.byId).isSome = true) :
      ∀ id ∈ (reducer localeCompare s action).ids,
        (lookup id (reducer localeCompare s action).byId).isSome = true := by
    intro id member
    cases action with
    | connected payload => exact listed id member
    | cleanInformation => cases member
    | experimentAdd payload => exact listed id member
    | experimentSetMain payload => exact listed id member
    | other type => exact listed id member
    | jobAdd payload =>
        have inside := List.mem_mergeSort.mp member
        split at inside
        · rcases List.mem_append.mp inside with before | here
          · exact isSome_insert (listed id before)
          · cases List.mem_singleton.mp here
            rw [reducer, addEntry, lookup_insert, if_pos rfl]
            rfl
        · exact isSome_insert (listed id inside)
    | jobUpdate payload =>
        have before := listed id (List.mem_mergeSort.mp member)
        rw [reducer, updateEntry]
        dsimp only
        split
        · exact before
        · exact isSome_insert before
  have run (s : ClientState) (listed : ∀ id ∈ s.ids, (lookup id s.byId).isSome = true) :
      ∀ id ∈ (actions.foldl (reducer localeCompare) s).ids,
        (lookup id (actions.foldl (reducer localeCompare) s).byId).isSome = true := by
    induction actions generalizing s with
    | nil => exact listed
    | cons action rest ih => exact ih _ (kept s action listed)
  exact run initialState nofun

end Experimaestro.Web

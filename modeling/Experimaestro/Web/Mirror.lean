/-
Module: Experimaestro.Web.Mirror
Layer: Web
Purpose: The messages that the server sends about its jobs, and a client that folds the reducer over them. The
  threads of several refreshes, the creation of jobs, changes of status, notifications and requests for
  details interleave in any way. The updates of a status name the job by its locator, and the client looks for
  its id: only `JOB_ADD` changes the status that the client has.
Imports: Experimaestro.Web.Client, Experimaestro.Scheduler.Workspace, Experimaestro.Library.TransitionSystem
Trusted boundary: human-reviewed model of src/src/rpc/servercontext.cpp, handleJobNotification,
  Workspace::refresh and submit, and Job::getJsonState
Main exports: Job, Mirror, Event, mirrorSystem, Mirrors, Reported, stale_status, client_mirrors
Open obligations: none
-/
import Mathlib.Tactic.Common
import Experimaestro.Library.TransitionSystem
import Experimaestro.Scheduler.Workspace
import Experimaestro.Web.Client

namespace Experimaestro.Web

open Experimaestro.Configuration (Json Str str lookup insert lookup_insert)
open Scheduler (JobState)

/-! ### Jobs -/

/-- A digit of the hexadecimal text of a digest. -/
def isHexDigit (c : UInt8) : Bool := (48 ≤ c && c ≤ 57) || (97 ≤ c && c ≤ 102)

/-- What the messages tell of a job. Its id is the identifier of its value, in hexadecimal digits. -/
structure Job where
  jobId : Str
  taskId : Str
  locator : Str
  state : JobState
  startTime : Int64
  endTime : Int64
  submissionTime : Int64
  progress : UInt64
  tags : List (Str × Json)
  dependencies : ℕ
  hexadecimal : jobId.all isHexDigit = true

/-- The names that JSON has for the states. -/
def stateJson : JobState → Json
  | .waiting => .string (str "waiting")
  | .ready => .string (str "ready")
  | .running => .string (str "running")
  | .error => .string (str "error")
  | .done => .string (str "done")

/-- `getJsonState`. -/
def Job.getJsonState (job : Job) : Members :=
  [(str "locator", .string job.locator), (str "taskId", .string job.taskId), (str "jobId", .string job.jobId),
    (str "status", stateJson job.state), (str "start", .integer job.startTime),
    (str "end", .integer job.endTime), (str "submitted", .integer job.submissionTime),
    (str "tags", .array (job.tags.map fun tag => .array [.string tag.1, tag.2]))]

/-! ### Messages -/

/-- `jobCreation`, and the message of `refresh` about a job. -/
def jobCreation (job : Job) : Action := .jobAdd job.getJsonState

/-- The payload of `jobStatus`. -/
def statusPayload (job : Job) : Members :=
  [(str "locator", .string job.locator), (str "status", stateJson job.state), (str "progress", .float job.progress)]

/-- `jobStatus`. -/
def jobStatus (job : Job) : Action := .jobUpdate (statusPayload job)

/-- The payload of `jobDetails`. The id of the job itself stands for each dependency. -/
def detailsPayload (job : Job) : Members :=
  [(str "start", .integer job.startTime), (str "end", .integer job.endTime),
    (str "dependencies", if job.dependencies = 0 then .null
      else .array (List.replicate job.dependencies (.string job.jobId))),
    (str "status", stateJson job.state), (str "locator", .string job.locator)]

/-- `jobDetails`. -/
def jobDetails (job : Job) : Action := .jobUpdate (detailsPayload job)

/-- The payload that `handleJobNotification` sends for a progress. -/
def progressPayload (jobId : Str) (progress : UInt64) : Members :=
  [(str "jobId", .string jobId), (str "progress", .float progress)]

/-! ### The server and the client -/

/-- What a refresh has still to send; the jobs are listed when it comes to them. -/
inductive Sending where
  | clean
  | experimentAdd
  | experimentSetMain
  | jobs
  | job (jobId : Str)

/-- `refresh`. -/
def refreshSendings : List Sending := [.clean, .experimentAdd, .experimentSetMain, .jobs]

/-- The jobs of the workspace, the refreshes under way, and the client. `added` has the status in the last
    `JOB_ADD` about a job since the client was cleaned, `told` the one in the last message about it. -/
structure Mirror where
  experiment : Str
  jobs : List Job
  refreshes : List (List Sending) := []
  client : ClientState := initialState
  added : List (Str × Json) := []
  told : List (Str × Json) := []

/-- What happens: a job is submitted or changes, or a function of the server sends its message. -/
inductive Event where
  | submit (job : Job)
  | change (jobId : Str) (state : JobState) (startTime endTime : Int64)
  | jobCreation (jobId : Str)
  | jobStatus (jobId : Str)
  | notification (jobId : Str) (progress : UInt64)
  | jobDetails (jobId : Str)
  | refresh
  | send (thread : ℕ)

namespace Mirror

variable (localeCompare : Str → Str → Int)

/-- `getJob`. -/
def getJob (s : Mirror) (jobId : Str) : Option Job := s.jobs.find? fun job => job.jobId = jobId

/-- The client receives a message. -/
def deliver (s : Mirror) (message : Action) : Mirror :=
  { s with client := reducer localeCompare s.client message }

/-- A message that adds a job. -/
def sendAdd (s : Mirror) (job : Job) : Mirror :=
  { s.deliver localeCompare (Web.jobCreation job) with
    added := insert job.jobId (stateJson job.state) s.added
    told := insert job.jobId (stateJson job.state) s.told }

/-- An update that has the status of a job. -/
def sendStatus (s : Mirror) (job : Job) (message : Action) : Mirror :=
  { s.deliver localeCompare message with told := insert job.jobId (stateJson job.state) s.told }

/-- A change of the job of an id. -/
def changeJob (s : Mirror) (jobId : Str) (f : Job → Job) : Mirror :=
  { s with jobs := s.jobs.map fun job => if job.jobId = jobId then f job else job }

/-- The next sending of a refresh. -/
def sendNext (s : Mirror) (thread : ℕ) : Sending → List Sending → Mirror
  | .clean, rest =>
      { s.deliver localeCompare .cleanInformation with refreshes := s.refreshes.set thread rest, added := [] }
  | .experimentAdd, rest =>
      { s.deliver localeCompare (.experimentAdd [(str "name", .string s.experiment)]) with
        refreshes := s.refreshes.set thread rest }
  | .experimentSetMain, rest =>
      { s.deliver localeCompare (.experimentSetMain (.string s.experiment)) with
        refreshes := s.refreshes.set thread rest }
  | .jobs, rest =>
      { s with refreshes := s.refreshes.set thread ((s.jobs.map fun job => .job job.jobId) ++ rest) }
  | .job jobId, rest =>
      match s.getJob jobId with
      | some job => { s.sendAdd localeCompare job with refreshes := s.refreshes.set thread rest }
      | none => { s with refreshes := s.refreshes.set thread rest }

/-- One event; `none` where it cannot happen. -/
def step : Event → Mirror → Option Mirror
  | .submit job, s => if (s.getJob job.jobId).isNone then some { s with jobs := job :: s.jobs } else none
  | .change jobId state startTime endTime, s =>
      some (s.changeJob jobId fun job =>
        { job with state := state, startTime := startTime, endTime := endTime })
  | .jobCreation jobId, s => (s.getJob jobId).map (s.sendAdd localeCompare)
  | .jobStatus jobId, s => (s.getJob jobId).map fun job => s.sendStatus localeCompare job (Web.jobStatus job)
  | .jobDetails jobId, s => (s.getJob jobId).map fun job => s.sendStatus localeCompare job (Web.jobDetails job)
  | .notification jobId progress, s =>
      some ((s.deliver localeCompare (.jobUpdate (progressPayload jobId progress))).changeJob jobId fun job =>
        { job with progress := progress })
  | .refresh, s => some { s with refreshes := s.refreshes ++ [refreshSendings] }
  | .send thread, s =>
      match s.refreshes[thread]? with
      | some (sending :: rest) => some (s.sendNext localeCompare thread sending rest)
      | _ => none

end Mirror

variable (localeCompare : Str → Str → Int)

/-- The runs of a server with some jobs and a client that has just been started. -/
def mirrorSystem (experiment : Str) (jobs : List Job) : TransitionSystem.System Mirror Event :=
  .ofFunction { experiment := experiment, jobs := jobs } (Mirror.step localeCompare)

/-- The status that the client has for an added job is the one in the last message about it. -/
def Mirrors (s : Mirror) : Prop :=
  ∀ id, (lookup id s.added).isSome = true → statusOf s.client.byId id = lookup id s.told

/-- An update of the status of an added job tells what the job was added with. -/
def Reported (s : Mirror) : Event → Prop
  | .jobStatus jobId | .jobDetails jobId =>
      ∀ job, s.getJob jobId = some job →
        lookup jobId s.added = none ∨ lookup jobId s.added = some (stateJson job.state)
  | _ => True

variable {localeCompare}

/-! ### What the client has -/

/-- The client has the status of the last `JOB_ADD` about each job; its table has ids of jobs only. -/
structure Follows (s : Mirror) : Prop where
  status : ∀ id, statusOf s.client.byId id = lookup id s.added
  ids : ∀ id entry, lookup id s.client.byId = some entry → id.all isHexDigit = true

theorem payloadId_getJsonState (job : Job) : payloadId job.getJsonState = job.jobId := rfl

theorem status_getJsonState (job : Job) :
    lookup (str "status") job.getJsonState = some (stateJson job.state) := rfl

/-- An update of a status has no id of a job: there is no entry that it changes. -/
theorem Follows.unknown {s : Mirror} (follows : Follows s) : lookup (str "undefined") s.client.byId = none := by
  cases found : lookup (str "undefined") s.client.byId with
  | none => rfl
  | some entry => exact absurd (follows.ids _ entry found) (by decide)

/-- The client table after an update that changes no status. -/
theorem ids_jobUpdate {client : ClientState} {payload : Members} {id : Str} {entry : Members}
    (found : lookup id (reducer localeCompare client (.jobUpdate payload)).byId = some entry) :
    ∃ entry', lookup id client.byId = some entry' := by
  rw [reducer, updateEntry] at found
  dsimp only at found
  cases before : lookup (payloadId payload) client.byId with
  | none =>
      rw [before] at found
      exact ⟨entry, found⟩
  | some old =>
      rw [before] at found
      dsimp only at found
      rw [lookup_insert] at found
      split at found
      · rename_i here
        exact ⟨old, here ▸ before⟩
      · exact ⟨entry, found⟩

theorem Follows.update {s : Mirror} {payload : Members} (follows : Follows s)
    (silent : lookup (str "status") payload = none ∨ lookup (payloadId payload) s.client.byId = none) :
    Follows (s.deliver localeCompare (.jobUpdate payload)) where
  status id := (statusOf_jobUpdate silent id).trans (follows.status id)
  ids id entry found := by
    obtain ⟨entry', before⟩ := ids_jobUpdate found
    exact follows.ids id entry' before

theorem Follows.sendStatus {s : Mirror} {job : Job} {payload : Members} (follows : Follows s)
    (unnamed : lookup (str "jobId") payload = none) :
    Follows (s.sendStatus localeCompare job (.jobUpdate payload)) := by
  have updated : Follows (s.deliver localeCompare (.jobUpdate payload)) := by
    apply follows.update
    rw [payloadId, unnamed]
    exact Or.inr follows.unknown
  exact ⟨updated.status, updated.ids⟩

theorem Follows.sendAdd {s : Mirror} (follows : Follows s) (job : Job) : Follows (s.sendAdd localeCompare job) where
  status id := by
    change statusOf (reducer localeCompare s.client (.jobAdd job.getJsonState)).byId id = _
    rw [statusOf_jobAdd, payloadId_getJsonState, status_getJsonState, follows.status]
    exact (lookup_insert id job.jobId (stateJson job.state) s.added).symm
  ids id entry found := by
    change lookup id (addEntry s.client.byId job.getJsonState) = some entry at found
    rw [addEntry, lookup_insert, payloadId_getJsonState] at found
    split at found
    · rename_i here
      exact here ▸ job.hexadecimal
    · exact follows.ids id entry found

theorem Follows.sendNext {s : Mirror} (follows : Follows s) (thread : ℕ) (sending : Sending)
    (rest : List Sending) : Follows (s.sendNext localeCompare thread sending rest) := by
  cases sending with
  | clean => exact ⟨fun _ => rfl, nofun⟩
  | experimentAdd => exact ⟨follows.status, follows.ids⟩
  | experimentSetMain => exact ⟨follows.status, follows.ids⟩
  | jobs => exact ⟨follows.status, follows.ids⟩
  | job jobId =>
      rw [Mirror.sendNext]
      split
      · rename_i job _
        exact ⟨(follows.sendAdd job).status, (follows.sendAdd job).ids⟩
      · exact ⟨follows.status, follows.ids⟩

/-- In any run, the client has the status that a job was added with. -/
theorem Follows.step {s s' : Mirror} {event : Event} (follows : Follows s)
    (next : Mirror.step localeCompare event s = some s') : Follows s' := by
  cases event with
  | submit job =>
      rw [Mirror.step] at next
      split at next
      · cases next
        exact ⟨follows.status, follows.ids⟩
      · cases next
  | change jobId state startTime endTime =>
      cases next
      exact ⟨follows.status, follows.ids⟩
  | jobCreation jobId =>
      obtain ⟨job, _, rfl⟩ := Option.map_eq_some_iff.mp next
      exact follows.sendAdd job
  | jobStatus jobId =>
      obtain ⟨job, _, rfl⟩ := Option.map_eq_some_iff.mp next
      exact follows.sendStatus rfl
  | jobDetails jobId =>
      obtain ⟨job, _, rfl⟩ := Option.map_eq_some_iff.mp next
      exact follows.sendStatus rfl
  | notification jobId progress =>
      cases next
      have updated : Follows (s.deliver localeCompare (.jobUpdate (progressPayload jobId progress))) :=
        follows.update (Or.inl rfl)
      exact ⟨updated.status, updated.ids⟩
  | refresh =>
      cases next
      exact ⟨follows.status, follows.ids⟩
  | send thread =>
      rw [Mirror.step] at next
      split at next
      · cases next
        exact follows.sendNext thread _ _
      · cases next

/-! ### What the server has told -/

/-- For each added job, the last message about it has the status it was added with. -/
def Agreed (s : Mirror) : Prop := ∀ id, (lookup id s.added).isSome = true → lookup id s.told = lookup id s.added

theorem mirrors_iff {s : Mirror} (follows : Follows s) : Mirrors s ↔ Agreed s := by
  apply forall_congr'
  intro id
  rw [follows.status]
  exact imp_congr Iff.rfl eq_comm

theorem agreed_sendAdd {s : Mirror} (job : Job) (agreed : Agreed s) : Agreed (s.sendAdd localeCompare job) := by
  intro id added
  change (lookup id (insert job.jobId (stateJson job.state) s.added)).isSome = true at added
  change lookup id (insert job.jobId (stateJson job.state) s.told) =
    lookup id (insert job.jobId (stateJson job.state) s.added)
  rw [lookup_insert] at added ⊢
  rw [lookup_insert]
  split
  · rfl
  · rename_i other
    rw [if_neg other] at added
    exact agreed id added

theorem agreed_sendStatus_iff {s : Mirror} {job : Job} {message : Action} (agreed : Agreed s) :
    Agreed (s.sendStatus localeCompare job message) ↔
      lookup job.jobId s.added = none ∨ lookup job.jobId s.added = some (stateJson job.state) := by
  have told (id : Str) : lookup id (s.sendStatus localeCompare job message).told =
      if job.jobId = id then some (stateJson job.state) else lookup id s.told := lookup_insert id _ _ _
  constructor
  · intro after
    cases here : lookup job.jobId s.added with
    | none => exact Or.inl rfl
    | some status =>
        have same := after job.jobId (show (lookup job.jobId s.added).isSome = true by rw [here]; rfl)
        rw [told, if_pos rfl] at same
        exact Or.inr (here.symm.trans same.symm)
  · intro reported id added
    rw [told]
    split
    · rename_i here
      subst here
      rcases reported with missing | same
      · rw [show (s.sendStatus localeCompare job message).added = s.added from rfl, missing] at added
        cases added
      · exact same.symm
    · exact agreed id added

theorem jobId_of_getJob {s : Mirror} {jobId : Str} {job : Job} (found : s.getJob jobId = some job) :
    job.jobId = jobId := by
  simpa using List.find?_some found

/-- An event keeps the agreement exactly when what it reports is what the job was added with. -/
theorem agreed_step_iff {s s' : Mirror} {event : Event} (agreed : Agreed s)
    (next : Mirror.step localeCompare event s = some s') : Agreed s' ↔ Reported s event := by
  have status {jobId : Str} {message : Job → Action} {s' : Mirror}
      (next : (s.getJob jobId).map (fun job => s.sendStatus localeCompare job (message job)) = some s') :
      Agreed s' ↔ ∀ job, s.getJob jobId = some job →
        lookup jobId s.added = none ∨ lookup jobId s.added = some (stateJson job.state) := by
    obtain ⟨job, found, rfl⟩ := Option.map_eq_some_iff.mp next
    rw [agreed_sendStatus_iff agreed, jobId_of_getJob found]
    constructor
    · intro reported other found'
      cases found.symm.trans found'
      exact reported
    · exact fun reported => reported job found
  cases event with
  | submit job =>
      rw [Mirror.step] at next
      split at next
      · cases next
        exact iff_of_true agreed trivial
      · cases next
  | change jobId state startTime endTime =>
      cases next
      exact iff_of_true agreed trivial
  | jobCreation jobId =>
      obtain ⟨job, _, rfl⟩ := Option.map_eq_some_iff.mp next
      exact iff_of_true (agreed_sendAdd job agreed) trivial
  | jobStatus jobId => exact status next
  | jobDetails jobId => exact status next
  | notification jobId progress =>
      cases next
      exact iff_of_true agreed trivial
  | refresh =>
      cases next
      exact iff_of_true agreed trivial
  | send thread =>
      rw [Mirror.step] at next
      split at next
      · rename_i sending rest _
        cases next
        refine iff_of_true ?_ trivial
        cases sending with
        | clean => exact nofun
        | experimentAdd => exact agreed
        | experimentSetMain => exact agreed
        | jobs => exact agreed
        | job jobId =>
            rw [Mirror.sendNext]
            split
            · rename_i job _
              have after : Agreed (s.sendAdd localeCompare job) := agreed_sendAdd job agreed
              exact after
            · exact agreed
      · cases next

/-- In every run whose updates of a status tell what the job was added with, the client has for every added
    job the status in the last message about it. After such a run, the next event leaves it so exactly when
    it is no other update. -/
theorem client_mirrors {experiment : Str} {jobs : List Job} {s : Mirror}
    (run : (mirrorSystem localeCompare experiment jobs).RunUnder Reported s) :
    Mirrors s ∧ ∀ event s', Mirror.step localeCompare event s = some s' → (Mirrors s' ↔ Reported s event) := by
  have kept : Follows s ∧ Agreed s := by
    apply TransitionSystem.System.RunUnder.invariant (fun s => Follows s ∧ Agreed s) _ _ run
    · rintro _ rfl
      exact ⟨⟨fun _ => rfl, nofun⟩, nofun⟩
    · rintro s event s' _ reported next ⟨follows, agreed⟩
      exact ⟨follows.step next, (agreed_step_iff agreed next).mpr reported⟩
  obtain ⟨follows, agreed⟩ := kept
  refine ⟨(mirrors_iff follows).mpr agreed, fun event s' next => ?_⟩
  rw [mirrors_iff (follows.step next)]
  exact agreed_step_iff agreed next

/-! ### A job that starts to run -/

/-- A waiting job. -/
def waitingJob : Job where
  jobId := str "ab"
  taskId := str "task"
  locator := str "/w/jobs/task/ab"
  state := .waiting
  startTime := 0
  endTime := 0
  submissionTime := 0
  progress := 0
  tags := []
  dependencies := 0
  hexadecimal := by decide

/-- A refresh is sent, and the job that it has added starts to run. -/
def startEvents : List Event :=
  [.refresh, .send 0, .send 0, .send 0, .send 0, .send 0, .change (str "ab") .running 1 0, .jobStatus (str "ab")]

/-- The job runs, and the client has it waiting. -/
theorem stale_status :
    ∃ s, (mirrorSystem (fun _ _ => 0) (str "main") [waitingJob]).Reachable s ∧ ¬ Mirrors s := by
  have ran : (TransitionSystem.runActions (Mirror.step fun _ _ => 0) startEvents
      { experiment := str "main", jobs := [waitingJob] }).map
        (fun s => ((lookup (str "ab") s.added).isSome, statusOf s.client.byId (str "ab"),
          lookup (str "ab") s.told)) =
      some (true, some (.string (str "waiting")), some (.string (str "running"))) := rfl
  obtain ⟨s, run, seen⟩ := TransitionSystem.exists_reachable_of_runActions ran
  have added : (lookup (str "ab") s.added).isSome = true := congrArg Prod.fst seen
  have stored : statusOf s.client.byId (str "ab") = some (.string (str "waiting")) :=
    congrArg (fun observed => observed.2.1) seen
  have told : lookup (str "ab") s.told = some (.string (str "running")) :=
    congrArg (fun observed => observed.2.2) seen
  refine ⟨s, run, fun mirrors => ?_⟩
  have same := stored.symm.trans ((mirrors (str "ab") added).trans told)
  exact absurd (Json.string.inj (Option.some.inj same)) (by decide)

/-- The refresh, and a report that the job is still waiting. -/
theorem client_mirrors_waiting :
    ∃ s, (mirrorSystem (fun _ _ => 0) (str "main") [waitingJob]).RunUnder Reported s ∧
      lookup (str "ab") s.told = some (.string (str "waiting")) ∧ Mirrors s := by
  have start : (mirrorSystem (fun _ _ => 0) (str "main") [waitingJob]).RunUnder Reported
      { experiment := str "main", jobs := [waitingJob] } := .start rfl
  have happens (event : Event) (s s' : Mirror)
      (run : (mirrorSystem (fun _ _ => 0) (str "main") [waitingJob]).RunUnder Reported s)
      (reported : Reported s event) (next : Mirror.step (fun _ _ => 0) event s = some s') :
      (mirrorSystem (fun _ _ => 0) (str "main") [waitingJob]).RunUnder Reported s' :=
    run.step reported next
  have begun := happens .refresh _ _ start trivial rfl
  have cleaned := happens (.send 0) _ _ begun trivial rfl
  have named := happens (.send 0) _ _ cleaned trivial rfl
  have main := happens (.send 0) _ _ named trivial rfl
  have listed := happens (.send 0) _ _ main trivial rfl
  have added := happens (.send 0) _ _ listed trivial rfl
  have reported := happens (.jobStatus (str "ab")) _ _ added (fun _ found => by cases found; exact Or.inr rfl) rfl
  exact ⟨_, reported, rfl, (client_mirrors reported).1⟩

end Experimaestro.Web

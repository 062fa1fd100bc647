/-
Module: Experimaestro.Scheduler.Workspace
Layer: Scheduler
Purpose: The scheduler of `workspace.cpp` as a transition system: jobs, tokens, dependencies and start
  threads. `Graph` is what the program has built before submitting (which Dependency object was given
  to which job, where it comes from, the token limits); `State` is everything the scheduler writes;
  `step` executes one action. The actions are the points between which the program can be interrupted:
  `Workspace::submit`; the start thread taking the workspace lock, locking one dependency after the
  other, aborting on `lock_error`, entering and leaving `run()`; `jobCompleted`; and the destruction of
  a token lock, where the update of the counter and each of the checks it triggers are separate
  actions. The releases of an aborted start run without `WORKSPACE_MUTEX`, so they may fall between any
  two actions of other threads; `WORKSPACE_MUTEX` itself is not represented, which only adds
  interleavings. No SIGINT arrives: `exitMode` stays `NONE`.
Imports: Mathlib.Logic.Relation, Experimaestro.Library.TransitionSystem
Trusted boundary: human-reviewed model of src/src/workspace.cpp
Main exports: JobState, DependencyStatus, Resource, Graph, Thread, State, status, check, jobCompleted,
  dependencyChanged, submit, lock, Action, step, system
Open obligations: none
-/
import Mathlib.Algebra.Ring.Nat
import Mathlib.Data.List.Sort
import Mathlib.Logic.Function.Basic
import Mathlib.Logic.Relation
import Experimaestro.Library.TransitionSystem

namespace Experimaestro.Scheduler

/-- `JobState`. -/
inductive JobState where
  | waiting
  | ready
  | running
  | error
  | done
deriving DecidableEq, Repr

/-- `DependencyStatus`. -/
inductive DependencyStatus where
  | wait
  | ok
  | fail
deriving DecidableEq, Repr

/-- The `_origin` of a dependency: a job or a counter token. -/
inductive Resource (J T : Type) where
  | job (job : J)
  | token (token : T)
deriving DecidableEq, Repr

/-- One job waits for another: some dependency of `j` comes from `k`. -/
def DependsOn {J T D : Type} (dependencies : J → List D) (origin : D → Resource J T) (k j : J) : Prop :=
  ∃ d ∈ dependencies j, origin d = .job k

/-- What has been built before jobs are submitted. The elements of `D` are the Dependency objects given
    to jobs by `addDependency`, each to one job. -/
structure Graph (J T D : Type) where
  /-- `_dependencies` of a job, in the order of the `addDependency` calls. -/
  dependencies : J → List D
  /-- `_origin`. -/
  origin : D → Resource J T
  /-- `_target`. -/
  target : D → J
  /-- `_value` of a `CounterDependency`. -/
  value : D → UInt32
  /-- `_limit` of a `CounterToken`. -/
  limit : T → UInt32
  /-- `_jobId`, the key of the job in `_jobs`. -/
  jobId : J → String
  /-- The address of the object: `_dependents` is a map ordered by it. -/
  address : D → ℕ
  mem_dependencies : ∀ d j, d ∈ dependencies j ↔ target d = j
  nodup : ∀ j, (dependencies j).Nodup
  /-- A vector has fewer elements than `size_t` has values. -/
  length_lt : ∀ j, (dependencies j).length < 2 ^ 64
  acyclic : ∀ j, ¬ Relation.TransGen (DependsOn dependencies origin) j j

/-- Where a start thread is: created; in its critical section with dependencies left to lock; leaving
    after a `lock_error`; in `run()`; back from `run()`; releasing its locks after `jobCompleted`;
    terminated. -/
inductive Phase (D : Type) where
  | pending
  | locking (rest : List D)
  | aborting
  | running
  | ended
  | releasing
  | exited
deriving DecidableEq, Repr

/-- A start thread: its job, where it is, the vector `locks` (each entry a reference to a Lock object),
    and the dependents that a lock it has just destroyed still has to check. -/
structure Thread (J D : Type) where
  job : J
  phase : Phase D
  locks : List ℕ
  checks : List D
deriving DecidableEq, Repr

/-- What has happened so far, for statements about the past: it is written, never read. -/
inductive Event (J : Type) where
  | entered (job : J)
  | finished (job : J) (state : JobState)
  | completed (job : J)
deriving DecidableEq, Repr

structure State (J T D : Type) where
  /-- `_jobs`. -/
  jobs : List J
  /-- The `_dependents` of all resources, in the order of the addresses. -/
  dependents : List D
  /-- `waitingJobs`. -/
  waitingJobs : List J
  /-- `_state`. -/
  state : J → JobState
  /-- `_unsatisfied`. -/
  unsatisfied : J → UInt64
  /-- `_oldStatus`. -/
  oldStatus : D → DependencyStatus
  /-- `_currentLock`: the Lock object the dependency refers to, alive or not. -/
  currentLock : D → Option ℕ
  /-- The dependency of each Lock object ever constructed. -/
  lockObjects : List D
  /-- `_usedTokens`. -/
  usedTokens : T → UInt32
  threads : List (Thread J D)
  /-- The past, latest event first. -/
  log : List (Event J)

section

variable {J T D : Type} [DecidableEq J] [DecidableEq T] [DecidableEq D]

namespace State

/-- Some thread owns the Lock object. -/
def Owned (s : State J T D) (l : ℕ) : Prop := ∃ th ∈ s.threads, l ∈ th.locks

omit [DecidableEq T] [DecidableEq J] [DecidableEq D] in
instance (s : State J T D) (l : ℕ) : Decidable (s.Owned l) :=
  inferInstanceAs (Decidable (∃ th ∈ s.threads, l ∈ th.locks))

/-- `_currentLock.lock()`. -/
def liveLock (s : State J T D) (d : D) : Option ℕ :=
  (s.currentLock d).filter fun l => s.Owned l

/-- `_dependents` of one resource. -/
def dependentsOf (G : Graph J T D) (s : State J T D) (r : Resource J T) : List D :=
  s.dependents.filter fun d => G.origin d = r

/-- `Job::state(newState)`. -/
def setState (s : State J T D) (j : J) (new : JobState) : State J T D :=
  { s with state := Function.update s.state j new }

/-- Replace the record of a thread. -/
def setThread (s : State J T D) (i : ℕ) (th : Thread J D) : State J T D :=
  { s with threads := s.threads.set i th }

end State

/-- The state when everything is built and nothing is submitted: every dependency is recorded as WAIT
    and counted as unsatisfied by `addDependency`. -/
def initial (G : Graph J T D) : State J T D where
  jobs := []
  dependents := []
  waitingJobs := []
  state _ := .waiting
  unsatisfied j := UInt64.ofNat (G.dependencies j).length
  oldStatus _ := .wait
  currentLock _ := none
  lockObjects := []
  usedTokens _ := 0
  threads := []
  log := []

/-- `CounterDependency::status` and `JobDependency::status`. -/
def status (G : Graph J T D) (s : State J T D) (d : D) : DependencyStatus :=
  match G.origin d with
  | .token t => if s.usedTokens t + G.value d ≤ G.limit t then .ok else .wait
  | .job k =>
      match s.state k with
      | .error => .fail
      | .done => .ok
      | _ => .wait

/-- `Job::start`: a new thread, which may be delayed before it gets the workspace lock. -/
def start (s : State J T D) (j : J) : State J T D :=
  { s with threads := s.threads ++ [{ job := j, phase := .pending, locks := [], checks := [] }] }

/-- `Job::ready`. -/
def ready (s : State J T D) (j : J) : Bool :=
  s.unsatisfied j == 0

/-- `Workspace::jobFinished`. -/
def jobFinished (s : State J T D) (j : J) : State J T D :=
  { s with waitingJobs := s.waitingJobs.filter (· ≠ j) }

/-- The local function `value` of `Job::dependencyChanged`. -/
def satisfaction : DependencyStatus → Int
  | .ok => 1
  | _ => 0

/-- `_unsatisfied -= value(to) - value(from)`. -/
def countChange (s : State J T D) (j : J) (old new : DependencyStatus) : State J T D :=
  { s with
    unsatisfied :=
      Function.update s.unsatisfied j
        (s.unsatisfied j - UInt64.ofInt (satisfaction new - satisfaction old)) }

/-- `Job::jobCompleted`, given `Dependency::check`. -/
def jobCompleted (G : Graph J T D) (check : D → State J T D → Option (State J T D)) (j : J)
    (s : State J T D) : Option (State J T D) :=
  let s := jobFinished s j
  (s.dependentsOf G (.job j)).foldlM (fun s d => check d s) s

/-- `Job::dependencyChanged`, given `Dependency::check`. -/
def dependencyChanged (G : Graph J T D) (check : D → State J T D → Option (State J T D)) (j : J)
    (old new : DependencyStatus) (s : State J T D) : Option (State J T D) :=
  let s := countChange s j old new
  if new = .fail then jobCompleted G check j s
  else if s.unsatisfied j = 0 then some (start s j)
  else some s

/-- `Dependency::check`. It calls itself through `dependencyChanged` and `jobCompleted`; the first
    argument bounds the depth of these calls, `none` is a deeper call. -/
def check (G : Graph J T D) : ℕ → D → State J T D → Option (State J T D)
  | 0, _, _ => none
  | depth + 1, d, s =>
      if (s.liveLock d).isSome then some s
      else
        let new := status G s d
        if new = s.oldStatus d then some s
        else
          (dependencyChanged G (check G depth) (G.target d) (s.oldStatus d) new s).map fun s =>
            { s with oldStatus := Function.update s.oldStatus d new }

/-- Deep enough for every call made from a state: see `check_returns`. -/
def depth (s : State J T D) : ℕ := s.dependents.length + 1

/-- `Resource::addDependent`. -/
def addDependent (G : Graph J T D) (d : D) (s : State J T D) : State J T D :=
  { s with dependents := s.dependents.orderedInsert (fun a b => G.address a ≤ G.address b) d }

/-- `Workspace::submit`. The check that starts a job without dependencies follows the critical section;
    the thread it creates may start late, so that it is not separated from it here. -/
def submit (G : Graph J T D) (j : J) (s : State J T D) : Option (State J T D) :=
  if ∃ k ∈ s.jobs, G.jobId k = G.jobId j then some s
  else do
    let s := { s with waitingJobs := j :: s.waitingJobs, jobs := j :: s.jobs }
    let s ← (G.dependencies j).foldlM
      (fun s d => let s := addDependent G d s; check G (depth s) d s) s
    if (G.dependencies j).isEmpty && ready s j then some (start s j) else some s

/-- What `Dependency::lock` returns: a lock (none for a job dependency), or it throws `lock_error`. -/
inductive LockResult (J T D : Type) where
  | locked (lock : Option ℕ) (state : State J T D)
  | lockError

/-- `Dependency::lock`, with `JobDependency::_lock`, `CounterDependency::_lock` and `l_acquire`. -/
def lock (G : Graph J T D) (d : D) (s : State J T D) : LockResult J T D :=
  match s.liveLock d with
  | some l => .locked (some l) s
  | none =>
      match G.origin d with
      | .job _ => .locked none { s with currentLock := Function.update s.currentLock d none }
      | .token t =>
          if G.value d + s.usedTokens t > G.limit t then .lockError
          else
            let l := s.lockObjects.length
            .locked (some l)
              { s with
                usedTokens := Function.update s.usedTokens t (s.usedTokens t + G.value d)
                lockObjects := s.lockObjects ++ [d]
                currentLock := Function.update s.currentLock d (some l) }

/-- The start thread locks its next dependency; on `lock_error` it checks this dependency, makes the
    job READY and leaves. -/
def lockNext (G : Graph J T D) (i : ℕ) (th : Thread J D) (d : D) (rest : List D) (s : State J T D) :
    Option (State J T D) :=
  match lock G d s with
  | .locked l s =>
      some (s.setThread i { th with phase := .locking rest, locks := th.locks ++ l.toList })
  | .lockError => do
      let s ← check G (depth s) d s
      some ((s.setState th.job .ready).setThread i { th with phase := .aborting })

/-- A thread destroys its reference to a Lock object; the last one destroys the object, whose
    destructor gives the tokens back (`CounterDependency::release`) and has to check the dependents. -/
def drop (G : Graph J T D) (i : ℕ) (th : Thread J D) (l : ℕ) (s : State J T D) : State J T D :=
  let th := { th with locks := th.locks.erase l }
  let s := s.setThread i th
  if s.Owned l then s
  else
    match s.lockObjects[l]? with
    | none => s
    | some d =>
        match G.origin d with
        | .job _ => s
        | .token t =>
            { s with
              usedTokens := Function.update s.usedTokens t (s.usedTokens t - G.value d)
              threads := s.threads.set i { th with checks := s.dependentsOf G (.token t) } }

/-- The interruptible pieces of a start thread. -/
inductive ThreadAction where
  | enter
  | lockNext
  | run
  | setRunning
  | endRun (success : Bool)
  | complete
  | drop (lock : ℕ)
  | check
  | exit
deriving DecidableEq, Repr

/-- The interruptible pieces of the program. A thread is given by its index. -/
inductive Action (J : Type) where
  | submit (job : J)
  | thread (index : ℕ) (action : ThreadAction)
deriving DecidableEq, Repr

/-- The thread is past its critical section and destroys its vector of locks. -/
def Phase.dropping {D : Type} : Phase D → Bool
  | .aborting | .releasing => true
  | _ => false

/-- One action of the thread with index `i` and record `th`. -/
def threadStep (G : Graph J T D) (i : ℕ) (th : Thread J D) (s : State J T D) :
    ThreadAction → Option (State J T D)
  | .enter =>
      if th.phase = .pending then
        some (s.setThread i { th with phase := .locking (G.dependencies th.job) })
      else none
  | .lockNext =>
      match th.phase with
      | .locking (d :: rest) => lockNext G i th d rest s
      | _ => none
  | .run =>
      if th.phase = .locking [] then
        some { s.setThread i { th with phase := .running } with log := .entered th.job :: s.log }
      else none
  | .setRunning =>
      if th.phase = .running then some (s.setState th.job .running) else none
  | .endRun success =>
      if th.phase = .running then
        let new := if success then JobState.done else JobState.error
        some
          { (s.setState th.job new).setThread i { th with phase := .ended } with
            log := .finished th.job new :: s.log }
      else none
  | .complete =>
      if th.phase = .ended then
        (jobCompleted G (check G (depth s)) th.job s).map fun s =>
          { s.setThread i { th with phase := .releasing } with log := .completed th.job :: s.log }
      else none
  | .drop l =>
      if th.phase.dropping ∧ th.checks = [] ∧ l ∈ th.locks then some (drop G i th l s) else none
  | .check =>
      match th.checks with
      | [] => none
      | d :: rest => check G (depth s) d (s.setThread i { th with checks := rest })
  | .exit =>
      if th.phase.dropping ∧ th.checks = [] ∧ th.locks = [] then
        some (s.setThread i { th with phase := .exited })
      else none

/-- One action; `none` when it is not enabled. -/
def step (G : Graph J T D) : Action J → State J T D → Option (State J T D)
  | .submit j, s => submit G j s
  | .thread i a, s => (s.threads[i]?).bind fun th => threadStep G i th s a

/-- The scheduler. -/
def system (G : Graph J T D) : TransitionSystem.System (State J T D) (Action J) :=
  .ofFunction (initial G) (step G)

end

end Experimaestro.Scheduler

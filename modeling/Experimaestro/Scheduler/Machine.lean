/-
Module: Experimaestro.Scheduler.Machine
Layer: Scheduler
Purpose: The scheduler at the granularity of single operations, with `WORKSPACE_MUTEX` and the exit mode.
  A `Runner` is one thread of the program: the point it has reached in the function it runs
  (`Workspace::submit`, the thread of `Job::start` with `CommandLineJob::run`, or one of the short
  functions of the user interface), and the calls it is making inside (`Dependency::check`,
  `Job::dependencyChanged`, `Job::jobCompleted`, `Job::start`, `CounterDependency::release`), which are
  executed one operation at a time. A SIGINT may arrive between any two operations. What the files and
  the processes of a job say is an outcome that the environment chooses.
Imports: Experimaestro.Scheduler.Workspace
Trusted boundary: human-reviewed model of src/src/workspace.cpp
Main exports: ExitMode, Call, Point, Runner, Machine, Machine.view, Outcome, callStep, pointStep,
  Machine.step, machine
Open obligations: none
-/
import Experimaestro.Scheduler.Workspace

namespace Experimaestro.Scheduler

/-- `ExitMode`. -/
inductive ExitMode where
  | none
  | waiting
  | stopping
deriving DecidableEq, Repr

/-- What a thread is about to do inside the function it runs. -/
inductive Call (J D : Type) where
  /-- `Dependency::check`. -/
  | check (d : D)
  /-- `Job::dependencyChanged` of the target, with its arguments `from` and `to`. -/
  | dependencyChanged (d : D) (old new : DependencyStatus)
  /-- `_oldStatus = s`, when `dependencyChanged` has returned. -/
  | record (d : D) (new : DependencyStatus)
  /-- `Job::jobCompleted`. -/
  | jobCompleted (job : J)
  /-- `Job::start`. -/
  | start (job : J)
  /-- `Job::start` after an exit signal: locking `WORKSPACE_MUTEX`. -/
  | lockForError (job : J)
  /-- `Job::start` after an exit signal: `state(JobState::ERROR)`. -/
  | writeError (job : J)
  /-- `Job::start` after an exit signal: the end of the scope of its lock. -/
  | unlockForError
  /-- `CounterDependency::release`. -/
  | release (d : D)
deriving DecidableEq, Repr

/-- The point a thread has reached: what it does when its calls have returned. `owns` tells whether the
    lock taken by the start thread still owns the mutex. -/
inductive Point (J D : Type) where
  /-- `Workspace::submit`: the lock guard. -/
  | submitLock (job : J)
  /-- Looking for the job in `_jobs`, and adding it. -/
  | submitRegister (job : J)
  /-- The loop over the dependencies. -/
  | submitDependencies (job : J) (rest : List D)
  /-- The end of the scope of the lock guard. -/
  | submitUnlock (job : J) (added : Bool)
  /-- The test of `ready()` after the critical section. -/
  | submitReady (job : J)
  /-- `Workspace::kill` and `Workspace::refresh`: the lock guard. -/
  | visitLock
  /-- The end of the scope of their lock guard. -/
  | visitUnlock
  /-- The thread of `Job::start`: `jobLock`. -/
  | startLock (job : J)
  /-- The loop of `Dependency::lock`. -/
  | locking (job : J) (rest : List D)
  /-- `CounterDependency::l_acquire`, called by the constructor of a Lock object. -/
  | acquiring (job : J) (d : D) (rest : List D)
  /-- After a `lock_error` and the check: `state(JobState::READY)`. -/
  | abortState (job : J)
  /-- After a `lock_error`: the end of the scope of `jobLock`. -/
  | abortUnlock (job : J)
  /-- After a `lock_error`: the end of the scope of `locks`. -/
  | abortRelease (job : J)
  /-- `CommandLineJob::run`: `check()`, the second time with the main lock file locked. -/
  | probe (job : J) (second : Bool)
  /-- `check()` has found the file that marks the job as done. -/
  | alreadyDone (job : J)
  /-- Locking the main lock file. -/
  | mainLock (job : J)
  /-- Locking the start lock file. -/
  | startLockFile (job : J)
  /-- The process has been started: `state(JobState::RUNNING)`. -/
  | launched (job : J)
  /-- `jobLock.unlock()`. -/
  | runUnlock (job : J)
  /-- `waitUntilFinished`: waiting for the exit of the process. -/
  | waitProcess (job : J) (owns : Bool)
  /-- `waitUntilFinished`: `state(exitCode == 0 ? DONE : ERROR)`. -/
  | finish (job : J) (owns success : Bool)
  /-- `run` has returned: the end of the scope of `jobLock`. -/
  | leaveRun (job : J) (owns : Bool)
  /-- `jobLockRelease`. -/
  | relock (job : J)
  /-- About to call `jobCompleted`. -/
  | complete (job : J)
  /-- `locks.clear()`. -/
  | releasing (job : J)
  /-- The end of the scope of `jobLockRelease`. -/
  | releaseUnlock (job : J)
  | exited
deriving DecidableEq, Repr

/-- A thread: where it is, the calls it is making (the next operation first), and its vector `locks`. -/
structure Runner (J D : Type) where
  point : Point J D
  calls : List (Call J D)
  locks : List ℕ
deriving DecidableEq, Repr

/-- The state of the program. The fields that `State` has as well are the same data. -/
structure Machine (J T D : Type) where
  /-- The thread that has locked `WORKSPACE_MUTEX`. -/
  mutex : Option ℕ
  /-- `exitMode`. -/
  exitMode : ExitMode
  jobs : List J
  dependents : List D
  waitingJobs : List J
  state : J → JobState
  unsatisfied : J → UInt64
  oldStatus : D → DependencyStatus
  currentLock : D → Option ℕ
  lockObjects : List D
  usedTokens : T → UInt32
  threads : List (Runner J D)

/-- What the environment says where the code asks it: `check()` finds the job done, picks up a process
    that is running, or neither; a lock file is locked or the lock times out; a process exits with code
    zero or another; and the order in which a vector of locks is destroyed. -/
inductive Outcome where
  | go
  | done
  | pickedUp
  | timeout
  | exited (success : Bool)
  | destroy (lock : ℕ)
deriving DecidableEq, Repr

/-- A thread is created in `Workspace::submit` or in another function of the user's, a SIGINT arrives
    (`again` when it is close to the one before), or a thread, given by its index, executes its next
    operation. -/
inductive MachineAction (J : Type) where
  | submit (job : J)
  | visit
  | signal (again : Bool)
  | thread (index : ℕ) (outcome : Outcome)
deriving DecidableEq, Repr

section

variable {J T D : Type} [DecidableEq J] [DecidableEq T] [DecidableEq D]

/-- A start thread as `Workspace` describes it. -/
def Runner.thread (th : Runner J D) : Option (Thread J D) :=
  let phase : Option (J × Phase D) :=
    match th.point with
    | .startLock j => some (j, .pending)
    | .locking j rest => some (j, .locking rest)
    | .acquiring j d rest => some (j, .locking (d :: rest))
    | .abortState j | .abortUnlock j | .abortRelease j => some (j, .aborting)
    | .probe j _ | .alreadyDone j | .mainLock j | .startLockFile j | .launched j | .runUnlock j
    | .waitProcess j _ | .finish j _ _ => some (j, .running)
    | .leaveRun j _ | .relock j | .complete j => some (j, .ended)
    | .releasing j | .releaseUnlock j => some (j, .releasing)
    | .submitLock _ | .submitRegister _ | .submitDependencies _ _ | .submitUnlock _ _ | .submitReady _
    | .visitLock | .visitUnlock | .exited => none
  phase.map fun (job, phase) => { job, phase, locks := th.locks, checks := [] }

namespace Machine

/-- The data of the scheduler, without the mutex and the program points. -/
def view (m : Machine J T D) : State J T D where
  jobs := m.jobs
  dependents := m.dependents
  waitingJobs := m.waitingJobs
  state := m.state
  unsatisfied := m.unsatisfied
  oldStatus := m.oldStatus
  currentLock := m.currentLock
  lockObjects := m.lockObjects
  usedTokens := m.usedTokens
  threads := m.threads.filterMap Runner.thread
  log := []

/-- Some thread owns the Lock object. -/
def Owned (m : Machine J T D) (l : ℕ) : Prop := ∃ th ∈ m.threads, l ∈ th.locks

omit [DecidableEq T] [DecidableEq J] [DecidableEq D] in
instance (m : Machine J T D) (l : ℕ) : Decidable (m.Owned l) :=
  inferInstanceAs (Decidable (∃ th ∈ m.threads, l ∈ th.locks))

/-- `_currentLock.lock()`. -/
def liveLock (m : Machine J T D) (d : D) : Option ℕ :=
  (m.currentLock d).filter fun l => m.Owned l

/-- `Job::state(newState)`. -/
def setState (m : Machine J T D) (j : J) (new : JobState) : Machine J T D :=
  { m with state := Function.update m.state j new }

/-- Replace the record of a thread. -/
def setRunner (m : Machine J T D) (i : ℕ) (th : Runner J D) : Machine J T D :=
  { m with threads := m.threads.set i th }

/-- A new thread. -/
def spawn (m : Machine J T D) (point : Point J D) : Machine J T D :=
  { m with threads := m.threads ++ [{ point, calls := [], locks := [] }] }

end Machine

/-- The calls of `Dependency::check` for the dependents of a resource. -/
def checks (G : Graph J T D) (m : Machine J T D) (r : Resource J T) : List (Call J D) :=
  (m.view.dependentsOf G r).map .check

/-- The next operation of the calls of thread `i`, with `rest` the calls after it: what it writes, and
    the calls it leaves. `none` while the mutex is locked. -/
def callStep (G : Graph J T D) (i : ℕ) (m : Machine J T D) (rest : List (Call J D)) :
    Call J D → Option (Machine J T D × List (Call J D))
  | .check d =>
      if (m.liveLock d).isSome then some (m, rest)
      else
        let new := status G m.view d
        if new = m.oldStatus d then some (m, rest)
        else some (m, .dependencyChanged d (m.oldStatus d) new :: .record d new :: rest)
  | .dependencyChanged d old new =>
      let j := G.target d
      let left := m.unsatisfied j - UInt64.ofInt (satisfaction new - satisfaction old)
      let m := { m with unsatisfied := Function.update m.unsatisfied j left }
      if new = .fail then some (m, .jobCompleted j :: rest)
      else if left = 0 then some (m, .start j :: rest)
      else some (m, rest)
  | .record d new => some ({ m with oldStatus := Function.update m.oldStatus d new }, rest)
  | .jobCompleted j =>
      some ({ m with waitingJobs := m.waitingJobs.filter (· ≠ j) }, checks G m (.job j) ++ rest)
  | .start j =>
      if m.exitMode = .none then some (m.spawn (.startLock j), rest)
      else some (m, .lockForError j :: rest)
  | .lockForError j =>
      if m.mutex = none then some ({ m with mutex := some i }, .writeError j :: rest) else none
  | .writeError j => some (m.setState j .error, .unlockForError :: rest)
  | .unlockForError => some ({ m with mutex := none }, rest)
  | .release d =>
      match G.origin d with
      | .job _ => some (m, rest)
      | .token t =>
          some
            ({ m with usedTokens := Function.update m.usedTokens t (m.usedTokens t - G.value d) },
              checks G m (.token t) ++ rest)

/-- Lock `WORKSPACE_MUTEX` and go on at a point; `none` while it is locked. -/
def lockMutex (i : ℕ) (m : Machine J T D) (th : Runner J D) (point : Point J D) :
    Option (Machine J T D × Runner J D) :=
  if m.mutex = none then some ({ m with mutex := some i }, { th with point }) else none

/-- Unlock `WORKSPACE_MUTEX` and go on at a point. -/
def unlockMutex (m : Machine J T D) (th : Runner J D) (point : Point J D) :
    Option (Machine J T D × Runner J D) :=
  some ({ m with mutex := none }, { th with point })

/-- The destructor of a vector of locks: `none` when it does not contain the lock. The last reference to
    a Lock object calls `CounterDependency::release`. -/
def destroyLock (i : ℕ) (m : Machine J T D) (th : Runner J D) (l : ℕ) :
    Option (Machine J T D × Runner J D) :=
  if l ∈ th.locks then
    let th := { th with locks := th.locks.erase l }
    if (m.setRunner i th).Owned l then some (m, th)
    else some (m, { th with calls := (m.lockObjects[l]?).toList.map .release })
  else none

/-- The loop of the start thread over its dependencies: the next one is locked already, or it is a job
    dependency, or a Lock object is constructed. -/
def lockDependency (G : Graph J T D) (m : Machine J T D) (th : Runner J D) (j : J) (d : D)
    (rest : List D) : Machine J T D × Runner J D :=
  match m.liveLock d with
  | some l => (m, { th with point := .locking j rest, locks := th.locks ++ [l] })
  | none =>
      match G.origin d with
      | .job _ =>
          ({ m with currentLock := Function.update m.currentLock d none },
            { th with point := .locking j rest })
      | .token _ => (m, { th with point := .acquiring j d rest })

/-- `CounterDependency::l_acquire`: it throws `lock_error`, or the Lock object is complete. -/
def acquireTokens (G : Graph J T D) (m : Machine J T D) (th : Runner J D) (j : J) (d : D)
    (rest : List D) : Machine J T D × Runner J D :=
  match G.origin d with
  | .job _ => (m, { th with point := .locking j rest })
  | .token t =>
      if G.value d + m.usedTokens t > G.limit t then
        (m, { th with point := .abortState j, calls := [.check d] })
      else
        ({ m with
            usedTokens := Function.update m.usedTokens t (m.usedTokens t + G.value d)
            lockObjects := m.lockObjects ++ [d]
            currentLock := Function.update m.currentLock d (some m.lockObjects.length) },
          { th with point := .locking j rest, locks := th.locks ++ [m.lockObjects.length] })

/-- `Workspace::submit` looks for the job id, and adds the job. -/
def registerJob (G : Graph J T D) (m : Machine J T D) (th : Runner J D) (j : J) :
    Machine J T D × Runner J D :=
  if ∃ k ∈ m.jobs, G.jobId k = G.jobId j then (m, { th with point := .submitUnlock j false })
  else
    ({ m with waitingJobs := j :: m.waitingJobs, jobs := j :: m.jobs },
      { th with point := .submitDependencies j (G.dependencies j) })

/-- `Resource::addDependent`, before the check of the dependency. -/
def addDependency (G : Graph J T D) (m : Machine J T D) (th : Runner J D) (j : J) (d : D)
    (rest : List D) : Machine J T D × Runner J D :=
  ({ m with dependents := m.dependents.orderedInsert (fun a b => G.address a ≤ G.address b) d },
    { th with point := .submitDependencies j rest, calls := [.check d] })

/-- The next operation of thread `i` with record `th` when its calls have returned: what it writes, and
    its new record. -/
def pointStep (G : Graph J T D) (i : ℕ) (m : Machine J T D) (th : Runner J D) (outcome : Outcome) :
    Option (Machine J T D × Runner J D) :=
  match th.point, outcome with
  -- Workspace::submit
  | .submitLock j, .go => lockMutex i m th (.submitRegister j)
  | .submitRegister j, .go => some (registerJob G m th j)
  | .submitDependencies j [], .go => some (m, { th with point := .submitUnlock j true })
  | .submitDependencies j (d :: rest), .go => some (addDependency G m th j d rest)
  | .submitUnlock j added, .go => unlockMutex m th (if added then .submitReady j else .exited)
  | .submitReady j, .go =>
      if (G.dependencies j).isEmpty && m.unsatisfied j == 0 then
        some (m, { th with point := .exited, calls := [.start j] })
      else some (m, { th with point := .exited })
  -- Workspace::kill, Workspace::refresh
  | .visitLock, .go => lockMutex i m th .visitUnlock
  | .visitUnlock, .go => unlockMutex m th .exited
  -- The thread of Job::start
  | .startLock j, .go => lockMutex i m th (.locking j (G.dependencies j))
  | .locking j [], .go => some (m, { th with point := .probe j false })
  | .locking j (d :: rest), .go => some (lockDependency G m th j d rest)
  | .acquiring j d rest, .go => some (acquireTokens G m th j d rest)
  | .abortState j, .go => some (m.setState j .ready, { th with point := .abortUnlock j })
  | .abortUnlock j, .go => unlockMutex m th (.abortRelease j)
  | .abortRelease _, .destroy l => destroyLock i m th l
  | .abortRelease _, .go => if th.locks = [] then some (m, { th with point := .exited }) else none
  -- CommandLineJob::run
  | .probe j _, .done => some (m, { th with point := .alreadyDone j })
  | .probe j _, .pickedUp => some (m, { th with point := .waitProcess j true })
  | .probe j second, .go =>
      some (m, { th with point := if second then .startLockFile j else .mainLock j })
  | .alreadyDone j, .go =>
      some (m.setState j .done, { th with point := .leaveRun j true, calls := [.jobCompleted j] })
  | .mainLock j, .go => some (m, { th with point := .probe j true })
  | .mainLock j, .timeout => some (m, { th with point := .leaveRun j true })
  | .startLockFile j, .go => some (m, { th with point := .launched j })
  | .startLockFile j, .timeout => some (m, { th with point := .leaveRun j true })
  | .launched j, .go => some (m.setState j .running, { th with point := .runUnlock j })
  | .runUnlock j, .go => unlockMutex m th (.waitProcess j false)
  | .waitProcess j owns, .exited success => some (m, { th with point := .finish j owns success })
  | .finish j owns success, .go =>
      some (m.setState j (if success then .done else .error), { th with point := .leaveRun j owns })
  -- The end of the thread of Job::start
  | .leaveRun j owns, .go =>
      if owns then unlockMutex m th (.relock j) else some (m, { th with point := .relock j })
  | .relock j, .go => lockMutex i m th (.complete j)
  | .complete j, .go => some (m, { th with point := .releasing j, calls := [.jobCompleted j] })
  | .releasing _, .destroy l => destroyLock i m th l
  | .releasing j, .go => if th.locks = [] then some (m, { th with point := .releaseUnlock j }) else none
  | .releaseUnlock _, .go => unlockMutex m th .exited
  | _, _ => none

namespace Machine

/-- Everything is built, nothing is submitted, and no signal has arrived. -/
def initial (G : Graph J T D) : Machine J T D where
  mutex := none
  exitMode := .none
  jobs := []
  dependents := []
  waitingJobs := []
  state _ := .waiting
  unsatisfied j := UInt64.ofNat (G.dependencies j).length
  oldStatus _ := .wait
  currentLock _ := none
  lockObjects := []
  usedTokens _ := 0
  threads := []

/-- `sigexitHandler`. -/
def signal (m : Machine J T D) (again : Bool) : Machine J T D :=
  { m with
    exitMode :=
      match m.exitMode with
      | .none => .waiting
      | .waiting => if again then .stopping else .waiting
      | .stopping => .stopping }

/-- One step; `none` when it is not enabled. -/
def step (G : Graph J T D) : MachineAction J → Machine J T D → Option (Machine J T D)
  | .submit j, m => some (m.spawn (.submitLock j))
  | .visit, m => some (m.spawn .visitLock)
  | .signal again, m => some (m.signal again)
  | .thread i outcome, m =>
      (m.threads[i]?).bind fun th =>
        match th.calls with
        | c :: rest => (callStep G i m rest c).map fun (m, calls) => m.setRunner i { th with calls }
        | [] => (pointStep G i m th outcome).map fun (m, th) => m.setRunner i th

end Machine

/-- The program at the granularity of single operations. -/
def machine (G : Graph J T D) : TransitionSystem.System (Machine J T D) (MachineAction J) :=
  .ofFunction (Machine.initial G) (Machine.step G)

end

end Experimaestro.Scheduler

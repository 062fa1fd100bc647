/-
Module: Experimaestro.Scheduler.JobChanged
Layer: Scheduler
Purpose: `JOB_CHANGED` and its mutex. A `Program` is the machine of the scheduler together with the threads
  that wait in `waitUntilTaskCompleted` or `waitJobCompleted`, and the runs of the signal handler.
  `Workspace::jobFinished` is taken apart here: it locks `JOB_CHANGED_MUTEX`, erases the job, notifies and
  unlocks. A waiting thread tests with the mutex locked and waits, which unlocks it; the signal handler
  stores the exit mode and notifies without the mutex, and between its steps everything else may happen.
  The jobs may belong to several workspaces; their ids are qualified by the workspace.
Imports: Experimaestro.Scheduler.Machine
Trusted boundary: human-reviewed model of src/src/workspace.cpp
Main exports: Goal, WaiterPoint, Waiter, HandlerPoint, Holder, Program, Workspaces, Program.step, program
Open obligations: none
-/
import Experimaestro.Scheduler.Machine

namespace Experimaestro.Scheduler

/-- What a thread waits for: `waitUntilTaskCompleted` or `waitJobCompleted`. -/
inductive Goal (J : Type) where
  | allJobs
  | job (job : J)
deriving DecidableEq, Repr

/-- The point a waiting thread has reached. -/
inductive WaiterPoint where
  /-- `MutexLock lock(JOB_CHANGED_MUTEX)`. -/
  | lock
  /-- Counting the waiting jobs, or comparing the state of the job with DONE. -/
  | test
  /-- Comparing the state of the job with ERROR. -/
  | testError
  /-- About to call `JOB_CHANGED.wait`. -/
  | wait
  | blocked
  /-- Notified: `wait` locks the mutex again. -/
  | relock
  /-- The end of the scope of the lock; the loop goes on to its condition, or it is left. -/
  | unlock (again : Bool)
  /-- The test of the exit mode. -/
  | loop
  | returned
deriving DecidableEq, Repr

structure Waiter (J : Type) where
  goal : Goal J
  point : WaiterPoint
deriving DecidableEq, Repr

/-- The point a run of `sigexitHandler` has reached. -/
inductive HandlerPoint where
  /-- The switch over the exit mode. -/
  | entered
  /-- `exitMode = mode`. -/
  | storing (mode : ExitMode)
  /-- `JOB_CHANGED.notify_all()`. -/
  | notifying
  | returned
deriving DecidableEq, Repr

/-- The rest of `Workspace::jobFinished` after its lock guard. -/
inductive FinishPoint where
  | erase
  | notify
  | unlock
deriving DecidableEq, Repr

/-- Who has locked `JOB_CHANGED_MUTEX`: a thread in `jobFinished`, or a waiting thread. -/
inductive Holder where
  | thread (index : ℕ) (point : FinishPoint)
  | waiter (index : ℕ)
deriving DecidableEq, Repr

structure Program (J T D : Type) where
  machine : Machine J T D
  changed : Option Holder
  waiters : List (Waiter J)
  handlers : List HandlerPoint

/-- `activeWorkspaces`, and the `_workspace` of each job. A workspace and the jobs submitted to it keep each
    other alive. -/
structure Workspaces (J W : Type) where
  active : List W
  workspace : J → W
  mem_active : ∀ j, workspace j ∈ active

/-- A thread is created that waits or runs a function of the machine, a SIGINT arrives, or a thread executes
    its next operation. -/
inductive ProgramAction (J : Type) where
  | submit (job : J)
  | visit
  | thread (index : ℕ) (outcome : Outcome)
  | wait (goal : Goal J)
  | waiter (index : ℕ)
  | signal
  /-- `again` tells whether the signal before was close. -/
  | handler (index : ℕ) (again : Bool)
deriving DecidableEq, Repr

section

variable {J T D W : Type} [DecidableEq J] [DecidableEq T] [DecidableEq D] [DecidableEq W]

/-- The thread is about to call `jobCompleted`, and so `jobFinished`. -/
def Runner.finishes (th : Runner J D) : Bool :=
  match th.calls with
  | .jobCompleted _ :: _ => true
  | _ => false

namespace Program

/-- `JOB_CHANGED.notify_all()`. -/
def notifyAll (p : Program J T D) : Program J T D :=
  { p with
    waiters := p.waiters.map fun w => if w.point = .blocked then { w with point := .relock } else w }

/-- Replace the record of a waiting thread. -/
def setWaiter (p : Program J T D) (k : ℕ) (w : Waiter J) : Program J T D :=
  { p with waiters := p.waiters.set k w }

/-- The `waitingJobs` of a workspace. -/
def waitingJobs (workspaces : Workspaces J W) (p : Program J T D) (ws : W) : List J :=
  p.machine.waitingJobs.filter fun j => workspaces.workspace j = ws

/-- The `count` of `waitUntilTaskCompleted`. -/
def count (workspaces : Workspaces J W) (p : Program J T D) : ℕ :=
  (workspaces.active.map fun ws => (p.waitingJobs workspaces ws).length).sum

/-- Where the thread is in `jobFinished`. -/
def inside (p : Program J T D) (i : ℕ) : Option FinishPoint :=
  match p.changed with
  | some (.thread k point) => if k = i then some point else none
  | _ => none

/-- A thread of the machine executes its next operation. The dependents that `jobCompleted` will check are
    listed when the job is erased. -/
def threadStep (G : Graph J T D) (p : Program J T D) (i : ℕ) (outcome : Outcome) : Option (Program J T D) :=
  match p.inside i with
  | some .erase =>
      (p.machine.step G (.thread i outcome)).map fun m =>
        { p with machine := m, changed := some (.thread i .notify) }
  | some .notify => some { p.notifyAll with changed := some (.thread i .unlock) }
  | some .unlock => some { p with changed := none }
  | none =>
      if (p.machine.threads[i]?).any Runner.finishes then
        if p.changed = none then some { p with changed := some (.thread i .erase) } else none
      else (p.machine.step G (.thread i outcome)).map fun m => { p with machine := m }

/-- The next operation of waiting thread `k`; `none` while it is blocked or the mutex is locked. -/
def waiterStep (workspaces : Workspaces J W) (p : Program J T D) (k : ℕ) (w : Waiter J) :
    Option (Program J T D) :=
  match w.point, w.goal with
  | .lock, _ =>
      if p.changed = none then some { p.setWaiter k { w with point := .test } with changed := some (.waiter k) }
      else none
  | .test, .allJobs =>
      some (p.setWaiter k { w with point := if p.count workspaces > 0 then .wait else .unlock false })
  | .test, .job j =>
      some (p.setWaiter k { w with point := if p.machine.state j = .done then .unlock false else .testError })
  | .testError, .job j =>
      some (p.setWaiter k { w with point := if p.machine.state j = .error then .unlock false else .wait })
  | .wait, _ => some { p.setWaiter k { w with point := .blocked } with changed := none }
  | .relock, _ =>
      if p.changed = none then
        some { p.setWaiter k { w with point := .unlock true } with changed := some (.waiter k) }
      else none
  | .unlock again, _ =>
      some { p.setWaiter k { w with point := if again then .loop else .returned } with changed := none }
  | .loop, _ =>
      some (p.setWaiter k { w with point := if p.machine.exitMode = .stopping then .returned else .lock })
  | .testError, .allJobs | .blocked, _ | .returned, _ => none

/-- The next operation of run `h` of `sigexitHandler`. -/
def handlerStep (p : Program J T D) (h : ℕ) (again : Bool) : HandlerPoint → Option (Program J T D)
  | .entered =>
      let next : HandlerPoint :=
        match p.machine.exitMode with
        | .none => .storing .waiting
        | .waiting => if again then .storing .stopping else .returned
        | .stopping => .returned
      some { p with handlers := p.handlers.set h next }
  | .storing mode =>
      let next : HandlerPoint := if mode = .stopping then .notifying else .returned
      some { p with machine := { p.machine with exitMode := mode }, handlers := p.handlers.set h next }
  | .notifying => some { p.notifyAll with handlers := p.handlers.set h .returned }
  | .returned => none

/-- One step; `none` when it is not enabled. -/
def step (G : Graph J T D) (workspaces : Workspaces J W) :
    ProgramAction J → Program J T D → Option (Program J T D)
  | .submit j, p => (p.machine.step G (.submit j)).map fun m => { p with machine := m }
  | .visit, p => (p.machine.step G .visit).map fun m => { p with machine := m }
  | .thread i outcome, p => p.threadStep G i outcome
  | .wait goal, p => some { p with waiters := p.waiters ++ [{ goal, point := .lock }] }
  | .waiter k, p => (p.waiters[k]?).bind fun w => p.waiterStep workspaces k w
  | .signal, p => some { p with handlers := p.handlers ++ [.entered] }
  | .handler h again, p => (p.handlers[h]?).bind fun point => p.handlerStep h again point

/-- Nothing is submitted, nobody waits, and no signal has arrived. -/
def initial (G : Graph J T D) : Program J T D where
  machine := Machine.initial G
  changed := none
  waiters := []
  handlers := []

end Program

/-- The scheduler together with the waiting threads and the signal handler. -/
def program (G : Graph J T D) (workspaces : Workspaces J W) :
    TransitionSystem.System (Program J T D) (ProgramAction J) :=
  .ofFunction (Program.initial G) (Program.step G workspaces)

end

end Experimaestro.Scheduler

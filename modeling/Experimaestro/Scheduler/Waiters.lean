/-
Module: Experimaestro.Scheduler.Waiters
Layer: Scheduler
Purpose: When waiting threads are woken. What a thread waits for happens where jobs are erased from the
  waiting jobs, where their final states are stored, and where the exit mode becomes STOPPING; a thread that
  is blocked although it has happened is owed a notification (`Owed`). Two steps break this: the exit branch
  of `Job::start` stores ERROR and notifies nobody, and the loops do not test the exit mode, nor the state
  that this branch has stored meanwhile, before they wait.
Imports: Experimaestro.Scheduler.FinalStates, Experimaestro.Scheduler.JobChanged,
  Experimaestro.Scheduler.Signals
Trusted boundary: none (fully proved)
Main exports: NotificationsDone, WaitersWoken, Unmissed, missed_wakeups, waiters_woken
Open obligations: none
-/
import Experimaestro.Scheduler.FinalStates
import Experimaestro.Scheduler.JobChanged
import Experimaestro.Scheduler.Signals

namespace Experimaestro.Scheduler

variable {J T D W : Type} [DecidableEq J] [DecidableEq T] [DecidableEq D] [DecidableEq W]

/-! ### What has to hold, and on which steps -/

/-- The thread is in `run()` or back from it, so that it will call `jobCompleted`. -/
def Point.completes : Point J D → Bool
  | .relock _ | .complete _ => true
  | point => point.inRun.isSome

/-- The call is `jobCompleted`. -/
def Call.completes : Call J D → Bool
  | .jobCompleted _ => true
  | _ => false

/-- The thread has a call of `jobCompleted` before it. -/
def Runner.completes (th : Runner J D) : Bool :=
  th.calls.any Call.completes || th.point.completes

/-- This run of the signal handler will notify. -/
def HandlerPoint.notifies : HandlerPoint → Bool
  | .storing mode => mode = .stopping
  | .notifying => true
  | _ => false

/-- A thread is in `jobFinished`, about to notify. -/
def Program.notifies (p : Program J T D) : Bool :=
  match p.changed with
  | some (.thread _ .notify) => true
  | _ => false

/-- No thread has a step left that will notify `JOB_CHANGED`. -/
structure NotificationsDone (p : Program J T D) : Prop where
  threads : ∀ th ∈ p.machine.threads, th.completes = false
  handlers : ∀ h ∈ p.handlers, h.notifies = false
  changed : p.notifies = false

instance (p : Program J T D) : Decidable (NotificationsDone p) :=
  decidable_of_iff ((∀ th ∈ p.machine.threads, th.completes = false) ∧
      (∀ h ∈ p.handlers, h.notifies = false) ∧ p.notifies = false)
    ⟨fun ⟨threads, handlers, changed⟩ => ⟨threads, handlers, changed⟩,
      fun done => ⟨done.threads, done.handlers, done.changed⟩⟩

/-- What the thread waits for has not happened: there are waiting jobs, the job has not finished. -/
def Unmet (workspaces : Workspaces J W) (p : Program J T D) : Goal J → Prop
  | .allJobs => ∃ ws ∈ workspaces.active, p.waitingJobs workspaces ws ≠ []
  | .job j => (p.machine.state j).final = false

/-- When nobody is going to notify, a thread is blocked only while what it waits for has not happened and
    the exit mode is not STOPPING. -/
def WaitersWoken (workspaces : Workspaces J W) (p : Program J T D) : Prop :=
  NotificationsDone p → ∀ w ∈ p.waiters, w.point = .blocked →
    Unmet workspaces p w.goal ∧ p.machine.exitMode ≠ .stopping

/-- The job for which the exit branch of `Job::start` stores ERROR with the next operation of the thread. -/
def Runner.storesError (th : Runner J D) : Option J :=
  match th.calls with
  | .writeError j :: _ => some j
  | _ => none

/-- The job that the thread waits for has finished. -/
def Goal.finished (m : Machine J T D) : Goal J → Bool
  | .allJobs => false
  | .job j => (m.state j).final

/-- The condition on a step: unless a notification is still to come, a thread begins to wait only in another
    exit mode than STOPPING, and for a job only if it has not finished since the test; and the exit branch of
    `Job::start` stores ERROR for no job that a thread is blocked for. -/
def Unmissed (p : Program J T D) : ProgramAction J → Prop
  | .waiter k => NotificationsDone p → ∀ w ∈ p.waiters[k]?, w.point = .wait →
      p.machine.exitMode ≠ .stopping ∧ w.goal.finished p.machine = false
  | .thread i _ => NotificationsDone p → p.inside i = none → ∀ th ∈ p.machine.threads[i]?,
      ∀ j ∈ th.storesError, ⟨.job j, .blocked⟩ ∉ p.waiters
  | _ => True

instance (p : Program J T D) : (a : ProgramAction J) → Decidable (Unmissed p a)
  | .waiter k => inferInstanceAs (Decidable (NotificationsDone p → ∀ w ∈ p.waiters[k]?, w.point = .wait →
      p.machine.exitMode ≠ .stopping ∧ w.goal.finished p.machine = false))
  | .thread i _ => inferInstanceAs (Decidable (NotificationsDone p → p.inside i = none →
      ∀ th ∈ p.machine.threads[i]?, ∀ j ∈ th.storesError, ⟨.job j, .blocked⟩ ∉ p.waiters))
  | .submit _ | .visit | .wait _ | .signal | .handler _ _ => inferInstanceAs (Decidable True)

/-! ### Steps of the machine -/

/-- A call leaves the calls after it. -/
theorem callStep_rest {G : Graph J T D} {i : ℕ} {m m' : Machine J T D} {c : Call J D}
    {rest calls : List (Call J D)} (h : callStep G i m rest c = some (m', calls)) :
    ∀ c' ∈ rest, c' ∈ calls := by
  cases c with
  | jobCompleted j =>
      cases h
      exact fun c' member => List.mem_append_right _ member
  | release d =>
      simp only [callStep] at h
      split at h
      · cases h
        exact fun _ member => member
      · cases h
        exact fun c' member => List.mem_append_right _ member
  | _ =>
      simp only [callStep] at h
      grind

/-- Inside its calls, a thread stores final states only for a start after an exit signal. -/
theorem callStep_state {G : Graph J T D} {i : ℕ} {m m' : Machine J T D} {c : Call J D}
    {rest calls : List (Call J D)} (h : callStep G i m rest c = some (m', calls)) :
    m'.state = c.writes.elim m.state fun write => Function.update m.state write.1 write.2 := by
  cases c with
  | writeError j =>
      cases h
      rfl
  | _ =>
      simp only [callStep] at h
      grind [Call.writes, Machine.spawn]

/-- A thread in `run()` or back from it stays there, or calls `jobCompleted`. -/
theorem pointStep_completes {G : Graph J T D} {i : ℕ} {m m' : Machine J T D} {th th' : Runner J D}
    {outcome : Outcome} (h : pointStep G i m th outcome = some (m', th')) (completes : th.point.completes) :
    th'.completes := by
  unfold pointStep at h
  split at h
  all_goals
    grind [lockMutex, unlockMutex, destroyLock, lockDependency, acquireTokens, addDependency,
      Machine.setState, Point.completes, Point.inRun, Runner.completes, Call.completes]

omit [DecidableEq J] [DecidableEq D] in
/-- A point that stores a final state is in `run()`. -/
theorem completes_of_writes {point : Point J D} {j : J} {new : JobState}
    (writes : point.writes = some (j, new)) (final : new.final) : point.completes := by
  cases point with
  | abortState => cases writes; cases final
  | alreadyDone | launched | finish => rfl
  | _ => cases writes

/-- Only the call of `jobCompleted` takes it off the calls of a thread. -/
theorem callStep_completes {G : Graph J T D} {i : ℕ} {m m' : Machine J T D} {th : Runner J D} {c : Call J D}
    {rest calls : List (Call J D)} (head : th.calls = c :: rest) (other : c.completes = false)
    (h : callStep G i m rest c = some (m', calls)) (completes : th.completes) :
    ({ th with calls } : Runner J D).completes := by
  simp only [Runner.completes, head, List.any_cons, other, Bool.false_or, Bool.or_eq_true, List.any_eq_true]
    at completes ⊢
  refine completes.imp_left fun ⟨c', member, called⟩ => ?_
  exact ⟨c', callStep_rest h c' member, called⟩

omit [DecidableEq J] [DecidableEq D] in
/-- If no thread will notify after one of them has been replaced, none would before, unless it is this one. -/
theorem completes_replaced {threads new : List (Runner J D)} {i : ℕ} {th th' : Runner J D}
    (at_i : threads[i]? = some th) (kept : th.completes → th'.completes)
    (none_after : ∀ x ∈ (threads ++ new).set i th', x.completes = false) : ∀ x ∈ threads, x.completes = false := by
  intro x member
  by_contra completes
  obtain ⟨k, at_k⟩ := List.mem_iff_getElem?.mp member
  by_cases same : i = k
  · subst same
    cases at_i.symm.trans at_k
    have inside : i < (threads ++ new).length := by
      rw [List.length_append]
      exact Nat.lt_of_lt_of_le (List.getElem?_eq_some_iff.mp at_i).1 (Nat.le_add_right _ _)
    have later := none_after th' (List.mem_of_getElem? (List.getElem?_set_self inside))
    rw [kept (by simpa using completes)] at later
    cases later
  · have there : ((threads ++ new).set i th')[k]? = some x := by
      rw [List.getElem?_set_ne same, List.getElem?_append_left (List.getElem?_eq_some_iff.mp at_k).1]
      exact at_k
    exact completes (none_after x (List.mem_of_getElem? there))

/-- A final state that a call stores was stored by a start after an exit signal. -/
theorem callStep_final {G : Graph J T D} {m m₁ : Machine J T D} {i : ℕ} {c : Call J D} {rest calls : List (Call J D)}
    (h : callStep G i m rest c = some (m₁, calls)) {j : J} (final : (m₁.state j).final) :
    (m.state j).final ∨ c = .writeError j := by
  rw [callStep_state h] at final
  cases c with
  | writeError k =>
      by_cases same : j = k
      · exact Or.inr (same ▸ rfl)
      · simp only [Call.writes, Option.elim_some, Function.update_of_ne same] at final
        exact Or.inl final
  | _ => exact Or.inl final

/-- A point of a thread that stores a final state is followed by a notification. -/
theorem pointStep_final {G : Graph J T D} {m m₁ : Machine J T D} {i : ℕ} {th th₁ : Runner J D} {outcome : Outcome}
    (returned : th.calls = []) (h : pointStep G i m th outcome = some (m₁, th₁)) (later : th₁.completes = false) {j : J}
    (final : (m₁.state j).final) : (m.state j).final := by
  rw [(pointStep_moves returned h).state] at final
  cases writes : th.point.writes with
  | none => simpa [writes] using final
  | some write =>
      obtain ⟨k, new⟩ := write
      simp only [writes, Option.elim_some] at final
      by_cases same : j = k
      · subst same
        rw [Function.update_self] at final
        rw [pointStep_completes h (completes_of_writes writes final)] at later
        cases later
      · rwa [Function.update_of_ne same] at final

/-- What a thread of the machine does outside `jobFinished`: it neither writes the exit mode nor erases a
    job; if no thread will notify after it, none would before, and a final state that it has stored was
    stored by a start after an exit signal. -/
theorem thread_outside {G : Graph J T D} {m m' : Machine J T D} {i : ℕ} {outcome : Outcome}
    (next : m.step G (.thread i outcome) = some m') (outside : (m.threads[i]?).any Runner.finishes = false) :
    m'.exitMode = m.exitMode ∧ (∀ j ∈ m.waitingJobs, j ∈ m'.waitingJobs) ∧
      ((∀ th ∈ m'.threads, th.completes = false) →
        (∀ th ∈ m.threads, th.completes = false) ∧
          ∀ j, (m'.state j).final → (m.state j).final ∨
            ∃ th rest, m.threads[i]? = some th ∧ th.calls = .writeError j :: rest) := by
  obtain ⟨th, at_i, step⟩ := thread_cases next
  have inRange := (List.getElem?_eq_some_iff.mp at_i).1
  rcases step with ⟨c, rest, m₁, calls, head, h, rfl⟩ | ⟨m₁, th₁, returned, h, rfl⟩
  · obtain ⟨mode, new, threads, _⟩ := callStep_signalled h
    have other : c.completes = false := by
      rw [at_i] at outside
      cases c with
      | jobCompleted j => simp [Runner.finishes, head] at outside
      | _ => rfl
    refine ⟨mode, fun j waiting => ?_, fun none_after => ⟨?_, fun j final => ?_⟩⟩
    · by_contra removed
      cases callStep_waitingJobs h waiting removed
      cases other
    · rw [Machine.setRunner, threads] at none_after
      exact completes_replaced at_i (callStep_completes head other h) none_after
    · rcases callStep_final h final with before | rfl
      · exact Or.inl before
      · exact Or.inr ⟨th, rest, at_i, head⟩
  · have moves := pointStep_moves returned h
    have threads : (m₁.setRunner i th₁).threads = (m.threads ++ []).set i th₁ := by
      rw [Machine.setRunner, moves.threads, List.append_nil]
    refine ⟨(pointStep_exitMode h :), fun j waiting => pointStep_waitingJobs h waiting,
      fun none_after => ⟨?_, fun j final => ?_⟩⟩
    · rw [threads] at none_after
      refine completes_replaced at_i (fun completes => ?_) none_after
      simp only [Runner.completes, returned, List.any_nil, Bool.false_or] at completes
      exact pointStep_completes h completes
    · have later : th₁.completes = false := by
        refine none_after th₁ (List.mem_of_getElem? (List.getElem?_set_self ?_))
        rw [moves.threads]
        exact inRange
      exact Or.inl (pointStep_final returned h later final)

/-! ### The invariant -/

/-- The waiting thread has locked `JOB_CHANGED_MUTEX`. -/
def WaiterPoint.holds : WaiterPoint → Bool
  | .test | .testError | .wait | .unlock _ => true
  | _ => false

/-- A waiting thread between its lock and its unlock has the mutex; jobs that it has counted are still
    waiting; and the blocked threads wait for something to come. -/
structure WaitersSound (workspaces : Workspaces J W) (p : Program J T D) : Prop where
  holder : ∀ k w, p.waiters[k]? = some w → w.point.holds → p.changed = some (.waiter k)
  counted : ∀ w ∈ p.waiters, w.point = .wait → w.goal = .allJobs → Unmet workspaces p .allJobs
  woken : WaitersWoken workspaces p

omit [DecidableEq T] [DecidableEq J] [DecidableEq D] in
theorem unmet_allJobs {workspaces : Workspaces J W} {p : Program J T D} :
    Unmet workspaces p .allJobs ↔ ∃ j, j ∈ p.machine.waitingJobs := by
  constructor
  · rintro ⟨ws, _, some_job⟩
    obtain ⟨j, member⟩ := List.exists_mem_of_ne_nil _ some_job
    exact ⟨j, List.mem_of_mem_filter member⟩
  · rintro ⟨j, member⟩
    refine ⟨workspaces.workspace j, workspaces.mem_active j, ?_⟩
    exact List.ne_nil_of_mem (List.mem_filter.mpr ⟨member, decide_eq_true rfl⟩)

omit [DecidableEq T] [DecidableEq J] [DecidableEq D] in
/-- The count is positive when some workspace has waiting jobs. -/
theorem unmet_of_count {workspaces : Workspaces J W} {p : Program J T D} (positive : 0 < p.count workspaces) :
    Unmet workspaces p .allJobs := by
  obtain ⟨n, member, some_job⟩ := List.sum_pos_iff_exists_pos_nat.mp positive
  obtain ⟨ws, active, rfl⟩ := List.mem_map.mp member
  exact ⟨ws, active, List.length_pos_iff.mp some_job⟩

omit [DecidableEq T] [DecidableEq J] [DecidableEq D] in
/-- A step that keeps the waiting threads, and does not notify. -/
theorem WaitersSound.keep {workspaces : Workspaces J W} {p p' : Program J T D}
    (sound : WaitersSound workspaces p) (waiters : p'.waiters = p.waiters)
    (changed : p'.changed = p.changed ∨ ∀ k, p.changed ≠ some (.waiter k))
    (waiting : ∀ k, p.changed = some (.waiter k) →
      ∀ j ∈ p.machine.waitingJobs, j ∈ p'.machine.waitingJobs)
    (woken : WaitersWoken workspaces p') : WaitersSound workspaces p' := by
  refine ⟨fun k w at_k holds => ?_, fun w member waits all => ?_, woken⟩
  · rw [waiters] at at_k
    have held := sound.holder k w at_k holds
    cases changed with
    | inl same => rw [same, held]
    | inr other => exact absurd held (other k)
  · rw [waiters] at member
    obtain ⟨k, at_k⟩ := List.mem_iff_getElem?.mp member
    obtain ⟨j, before⟩ := unmet_allJobs.mp (sound.counted w member waits all)
    exact unmet_allJobs.mpr ⟨j, waiting k (sound.holder k w at_k (by rw [waits]; rfl)) j before⟩

omit [DecidableEq T] [DecidableEq J] [DecidableEq D] in
/-- A step that notifies. -/
theorem WaitersSound.notified {workspaces : Workspaces J W} {p p' : Program J T D}
    (sound : WaitersSound workspaces p) (waiters : p'.waiters = p.notifyAll.waiters)
    (changed : p'.changed = p.changed ∨ ∀ k, p.changed ≠ some (.waiter k))
    (machine : p'.machine = p.machine) : WaitersSound workspaces p' := by
  have before {w : Waiter J} {k : ℕ} (at_k : p'.waiters[k]? = some w) :
      w.point ≠ .blocked ∧ (w.point = .relock ∨ p.waiters[k]? = some w) := by
    rw [waiters, Program.notifyAll, List.getElem?_map] at at_k
    obtain ⟨old, at_old, rfl⟩ := Option.map_eq_some_iff.mp at_k
    by_cases blocked : old.point = .blocked
    · simp [blocked]
    · simp [blocked, at_old]
  refine ⟨fun k w at_k holds => ?_, fun w member waits all => ?_, fun _ w member blocked => ?_⟩
  · rcases (before at_k).2 with relocks | old
    · rw [relocks] at holds
      cases holds
    · have held := sound.holder k w old holds
      cases changed with
      | inl same => rw [same, held]
      | inr other => exact absurd held (other k)
  · obtain ⟨k, at_k⟩ := List.mem_iff_getElem?.mp member
    rcases (before at_k).2 with relocks | old
    · rw [waits] at relocks
      cases relocks
    · have counted := sound.counted w (List.mem_of_getElem? old) waits all
      rw [unmet_allJobs] at counted ⊢
      rw [machine]
      exact counted
  · obtain ⟨k, at_k⟩ := List.mem_iff_getElem?.mp member
    exact absurd blocked (before at_k).1

omit [DecidableEq T] [DecidableEq J] [DecidableEq D] in
/-- A step of a waiting thread. -/
theorem WaitersSound.moved {workspaces : Workspaces J W} {p p' : Program J T D} {k : ℕ} {w : Waiter J}
    (sound : WaitersSound workspaces p) (at_k : p.waiters[k]? = some w) (point : WaiterPoint)
    (waiters : p'.waiters = p.waiters.set k { w with point }) (machine : p'.machine = p.machine)
    (handlers : p'.handlers = p.handlers)
    (changed : p'.changed = p.changed ∨ p.changed = none ∨ p.changed = some (.waiter k))
    (holder : point.holds → p'.changed = some (.waiter k))
    (counted : point = .wait → w.goal = .allJobs → Unmet workspaces p .allJobs)
    (blocked : point = .blocked → NotificationsDone p →
      Unmet workspaces p w.goal ∧ p.machine.exitMode ≠ .stopping) : WaitersSound workspaces p' := by
  have inRange := (List.getElem?_eq_some_iff.mp at_k).1
  have unmet (goal : Goal J) : Unmet workspaces p' goal ↔ Unmet workspaces p goal := by
    cases goal with
    | allJobs => rw [unmet_allJobs, unmet_allJobs, machine]
    | job j => rw [Unmet, Unmet, machine]
  have before {n : ℕ} {x : Waiter J} (at_n : p'.waiters[n]? = some x) :
      (n = k ∧ x = { w with point }) ∨ (n ≠ k ∧ p.waiters[n]? = some x) := by
    rw [waiters] at at_n
    by_cases same : n = k
    · subst same
      rw [List.getElem?_set_self inRange] at at_n
      exact Or.inl ⟨rfl, (Option.some.inj at_n).symm⟩
    · rw [List.getElem?_set_ne (Ne.symm same)] at at_n
      exact Or.inr ⟨same, at_n⟩
  refine ⟨fun n x at_n holds => ?_, fun x member waits all => ?_, fun done x member blocks => ?_⟩
  · rcases before at_n with ⟨rfl, rfl⟩ | ⟨other, old⟩
    · exact holder holds
    · have held := sound.holder n x old holds
      rcases changed with same | free | own
      · rw [same, held]
      · rw [free] at held
        cases held
      · rw [own] at held
        cases held
        exact absurd rfl other
  · obtain ⟨n, at_n⟩ := List.mem_iff_getElem?.mp member
    rcases before at_n with ⟨rfl, rfl⟩ | ⟨other, old⟩
    · exact (unmet _).mpr (counted waits all)
    · exact (unmet _).mpr (sound.counted x (List.mem_of_getElem? old) waits all)
  · have done_before : NotificationsDone p := by
      refine ⟨machine ▸ done.threads, handlers ▸ done.handlers, ?_⟩
      rcases changed with same | free | own
      · rw [Program.notifies, ← same]
        exact done.changed
      · rw [Program.notifies, free]
      · rw [Program.notifies, own]
    rw [unmet, machine]
    obtain ⟨n, at_n⟩ := List.mem_iff_getElem?.mp member
    rcases before at_n with ⟨rfl, rfl⟩ | ⟨other, old⟩
    · exact blocked blocks done_before
    · exact sound.woken done_before x (List.mem_of_getElem? old) blocks

omit [DecidableEq T] [DecidableEq J] [DecidableEq D] in
/-- The steps of the waiting threads. -/
theorem waiterStep_sound {workspaces : Workspaces J W} {p p' : Program J T D} {k : ℕ} {w : Waiter J}
    (sound : WaitersSound workspaces p) (met : Unmissed p (.waiter k)) (at_k : p.waiters[k]? = some w)
    (h : p.waiterStep workspaces k w = some p') : WaitersSound workspaces p' := by
  have held := sound.holder k w at_k
  obtain ⟨goal, point⟩ := w
  unfold Program.waiterStep at h
  dsimp only at h held
  split at h
  · obtain ⟨free, h⟩ := Option.ite_none_right_eq_some.mp h
    cases h
    exact sound.moved at_k _ rfl rfl rfl (Or.inr (Or.inl free)) (fun _ => rfl) nofun nofun
  · cases h
    refine sound.moved at_k _ rfl rfl rfl (Or.inl rfl) (fun _ => held rfl) (fun waits _ => ?_) (fun blocks => ?_)
    · split at waits
      case isTrue positive => exact unmet_of_count positive
      case isFalse => cases waits
    · split at blocks <;> cases blocks
  · cases h
    refine sound.moved at_k _ rfl rfl rfl (Or.inl rfl) (fun _ => held rfl) nofun (fun blocks => ?_)
    split at blocks <;> cases blocks
  · cases h
    refine sound.moved at_k _ rfl rfl rfl (Or.inl rfl) (fun _ => held rfl) nofun (fun blocks => ?_)
    split at blocks <;> cases blocks
  · cases h
    refine sound.moved at_k _ rfl rfl rfl (Or.inr (Or.inr (held rfl))) nofun nofun fun _ done => ?_
    obtain ⟨mode, unfinished⟩ := met done _ at_k rfl
    refine ⟨?_, mode⟩
    cases goal with
    | allJobs => exact sound.counted _ (List.mem_of_getElem? at_k) rfl rfl
    | job j => exact unfinished
  · obtain ⟨free, h⟩ := Option.ite_none_right_eq_some.mp h
    cases h
    exact sound.moved at_k _ rfl rfl rfl (Or.inr (Or.inl free)) (fun _ => rfl) nofun nofun
  · cases h
    rename_i again
    cases again
    · exact sound.moved at_k _ rfl rfl rfl (Or.inr (Or.inr (held rfl))) nofun nofun nofun
    · exact sound.moved at_k _ rfl rfl rfl (Or.inr (Or.inr (held rfl))) nofun nofun nofun
  · cases h
    refine sound.moved at_k _ rfl rfl rfl (Or.inl rfl) (fun holds => ?_) (fun waits => ?_) (fun blocks => ?_)
    · split at holds <;> cases holds
    · split at waits <;> cases waits
    · split at blocks <;> cases blocks
  all_goals cases h

omit [DecidableEq T] [DecidableEq J] [DecidableEq D] in
/-- What is awaited is still to come after a step that keeps the waiting threads, if the step neither
    stores something final nor STOPPING, as long as a notification that was to come is still to come. -/
theorem WaitersWoken.keep {workspaces : Workspaces J W} {p p' : Program J T D}
    (woken : WaitersWoken workspaces p) (done : NotificationsDone p' → NotificationsDone p)
    (waiters : p'.waiters = p.waiters)
    (unmet : NotificationsDone p' → ∀ w ∈ p.waiters, w.point = .blocked →
      Unmet workspaces p w.goal → Unmet workspaces p' w.goal)
    (mode : NotificationsDone p' → p'.machine.exitMode = .stopping → p.machine.exitMode = .stopping) :
    WaitersWoken workspaces p' := by
  intro done_after w member blocked
  rw [waiters] at member
  obtain ⟨awaited, running⟩ := woken (done done_after) w member blocked
  exact ⟨unmet done_after w member blocked awaited, fun stopping => running (mode done_after stopping)⟩

omit [DecidableEq T] [DecidableEq J] [DecidableEq D] in
/-- A thread is created. -/
theorem spawn_sound {workspaces : Workspaces J W} {p : Program J T D} (sound : WaitersSound workspaces p)
    (point : Point J D) :
    WaitersSound workspaces { p with machine := p.machine.spawn point } := by
  refine sound.keep rfl (Or.inl rfl) (fun _ _ _ waiting => waiting) ?_
  have done (after : NotificationsDone { p with machine := p.machine.spawn point }) : NotificationsDone p :=
    ⟨fun th member => after.threads th (List.mem_append_left _ member), after.handlers, after.changed⟩
  exact sound.woken.keep done rfl (fun _ w _ _ awaited => awaited) fun _ stopping => stopping

omit [DecidableEq T] [DecidableEq J] [DecidableEq D] in
/-- A thread begins `waitUntilTaskCompleted` or `waitJobCompleted`. -/
theorem wait_sound {workspaces : Workspaces J W} {p : Program J T D} (sound : WaitersSound workspaces p)
    (goal : Goal J) :
    WaitersSound workspaces { p with waiters := p.waiters ++ [{ goal, point := .lock }] } := by
  have cases_of {w : Waiter J} (member : w ∈ p.waiters ++ [{ goal, point := .lock }]) :
      w ∈ p.waiters ∨ w.point = .lock := by
    rcases List.mem_append.mp member with old | new
    · exact Or.inl old
    · rw [List.mem_singleton.mp new]
      exact Or.inr rfl
  refine ⟨fun k w at_k holds => ?_, fun w member waits all => ?_, fun after w member blocked => ?_⟩
  · rw [List.getElem?_append] at at_k
    split at at_k
    · exact sound.holder k w at_k holds
    · rw [List.mem_singleton.mp (List.mem_of_getElem? at_k)] at holds
      cases holds
  · rcases cases_of member with old | locks
    · exact sound.counted w old waits all
    · rw [waits] at locks
      cases locks
  · rcases cases_of member with old | locks
    · exact sound.woken ⟨after.threads, after.handlers, after.changed⟩ w old blocked
    · rw [blocked] at locks
      cases locks

omit [DecidableEq T] [DecidableEq J] [DecidableEq D] in
/-- The steps of the signal handler. -/
theorem handlerStep_sound {workspaces : Workspaces J W} {p p' : Program J T D} {n : ℕ} {again : Bool}
    {point : HandlerPoint} (sound : WaitersSound workspaces p) (at_n : p.handlers[n]? = some point)
    (h : p.handlerStep n again point = some p') : WaitersSound workspaces p' := by
  have inRange := (List.getElem?_eq_some_iff.mp at_n).1
  have others {next : HandlerPoint} (quiet : point.notifies = false)
      (after : ∀ x ∈ p.handlers.set n next, x.notifies = false) : ∀ x ∈ p.handlers, x.notifies = false := by
    intro x member
    obtain ⟨k, at_k⟩ := List.mem_iff_getElem?.mp member
    by_cases same : n = k
    · subst same
      cases at_n.symm.trans at_k
      exact quiet
    · exact after x (List.mem_of_getElem? ((List.getElem?_set_ne same).trans at_k))
  cases point with
  | entered =>
      cases h
      refine sound.keep rfl (Or.inl rfl) (fun _ _ _ waiting => waiting) ?_
      have done {next : HandlerPoint} (after : NotificationsDone { p with handlers := p.handlers.set n next }) :
          NotificationsDone p := ⟨after.threads, others rfl after.handlers, after.changed⟩
      exact sound.woken.keep done rfl (fun _ w _ _ awaited => awaited) fun _ stopping => stopping
  | storing mode =>
      cases h
      refine sound.keep rfl (Or.inl rfl) (fun _ _ _ waiting => waiting) ?_
      by_cases stops : mode = .stopping
      · intro after
        have notifies := after.handlers .notifying
          (List.mem_of_getElem? (by rw [if_pos stops, List.getElem?_set_self inRange]))
        cases notifies
      · have quiet : (HandlerPoint.storing mode).notifies = false := decide_eq_false stops
        refine sound.woken.keep (fun after => ⟨after.threads, others quiet after.handlers, after.changed⟩) rfl
          (fun _ w _ _ awaited => awaited) fun _ stopping => absurd stopping stops
  | notifying =>
      cases h
      exact sound.notified rfl (Or.inl rfl) rfl
  | returned => cases h

/-- The steps of the threads of the machine. -/
theorem threadStep_sound {G : Graph J T D} {workspaces : Workspaces J W} {p p' : Program J T D} {i : ℕ}
    {outcome : Outcome} (sound : WaitersSound workspaces p) (met : Unmissed p (.thread i outcome))
    (h : p.threadStep G i outcome = some p') : WaitersSound workspaces p' := by
  have held {point : FinishPoint} (inside : p.inside i = some point) : p.changed = some (.thread i point) := by
    unfold Program.inside at inside
    split at inside
    case h_1 k reached own =>
        obtain ⟨rfl, same⟩ := Option.ite_none_right_eq_some.mp inside
        rw [own, Option.some.inj same]
    case h_2 => cases inside
  unfold Program.threadStep at h
  split at h
  case h_1 inside =>
      have own := held inside
      obtain ⟨m, next, rfl⟩ := Option.map_eq_some_iff.mp h
      refine sound.keep rfl (Or.inr fun k => ?_) (fun k waits => ?_) fun after => ?_
      · rw [own]
        nofun
      · rw [own] at waits
        cases waits
      · cases after.changed
  case h_2 inside =>
      have own := held inside
      cases h
      refine sound.notified rfl (Or.inr fun k => ?_) rfl
      rw [own]
      nofun
  case h_3 inside =>
      have own := held inside
      cases h
      refine sound.keep rfl (Or.inr fun k => ?_) (fun _ _ _ waiting => waiting) ?_
      · rw [own]
        nofun
      · have done (after : NotificationsDone { p with changed := none }) : NotificationsDone p := by
          refine ⟨after.threads, after.handlers, ?_⟩
          rw [Program.notifies, own]
        exact sound.woken.keep done rfl (fun _ w _ _ awaited => awaited) fun _ stopping => stopping
  case h_4 inside =>
      split at h
      case isTrue =>
          obtain ⟨free, h⟩ := Option.ite_none_right_eq_some.mp h
          cases h
          refine sound.keep rfl (Or.inr fun k => ?_) (fun _ _ _ waiting => waiting) ?_
          · rw [free]
            nofun
          · have done (after : NotificationsDone { p with changed := some (.thread i .erase) }) :
                NotificationsDone p := by
              refine ⟨after.threads, after.handlers, ?_⟩
              rw [Program.notifies, free]
            exact sound.woken.keep done rfl (fun _ w _ _ awaited => awaited) fun _ stopping => stopping
      case isFalse outside =>
          obtain ⟨m, next, rfl⟩ := Option.map_eq_some_iff.mp h
          obtain ⟨mode, waiting, kept⟩ := thread_outside next (by simpa using outside)
          refine sound.keep rfl (Or.inl rfl) (fun _ _ => waiting) ?_
          have done (after : NotificationsDone { p with machine := m }) : NotificationsDone p :=
            ⟨(kept after.threads).1, after.handlers, after.changed⟩
          refine sound.woken.keep done rfl (fun after w member blocked awaited => ?_) fun _ stopping => ?_
          · obtain ⟨goal, point⟩ := w
            cases blocked
            cases goal with
            | allJobs =>
                obtain ⟨j, before⟩ := unmet_allJobs.mp awaited
                exact unmet_allJobs.mpr ⟨j, waiting j before⟩
            | job j =>
                rw [Unmet] at awaited ⊢
                by_contra final
                rcases (kept after.threads).2 j (by simpa using final) with before | ⟨th, rest, at_i, calls⟩
                · rw [awaited] at before
                  cases before
                · exact met (done after) inside th at_i j (by rw [Runner.storesError, calls]; rfl) member
          · exact mode ▸ stopping

theorem step_sound {G : Graph J T D} {workspaces : Workspaces J W} {p p' : Program J T D}
    {a : ProgramAction J} (sound : WaitersSound workspaces p) (met : Unmissed p a)
    (next : p.step G workspaces a = some p') : WaitersSound workspaces p' := by
  cases a with
  | submit j => exact Option.some.inj next ▸ spawn_sound sound _
  | visit => exact Option.some.inj next ▸ spawn_sound sound _
  | thread i outcome => exact threadStep_sound sound met next
  | wait goal => exact Option.some.inj next ▸ wait_sound sound goal
  | waiter k =>
      obtain ⟨w, at_k, h⟩ := Option.bind_eq_some_iff.mp next
      exact waiterStep_sound sound met at_k h
  | signal =>
      cases next
      refine sound.keep rfl (Or.inl rfl) (fun _ _ _ waiting => waiting) ?_
      have done (after : NotificationsDone { p with handlers := p.handlers ++ [.entered] }) :
          NotificationsDone p :=
        ⟨after.threads, fun x member => after.handlers x (List.mem_append_left _ member), after.changed⟩
      exact sound.woken.keep done rfl (fun _ w _ _ awaited => awaited) fun _ stopping => stopping
  | handler n again =>
      obtain ⟨point, at_n, h⟩ := Option.bind_eq_some_iff.mp next
      exact handlerStep_sound sound at_n h

theorem waitersSound_of_runUnder {G : Graph J T D} {workspaces : Workspaces J W} {p : Program J T D}
    (run : (program G workspaces).RunUnder Unmissed p) : WaitersSound workspaces p := by
  apply run.invariant (WaitersSound workspaces)
  · rintro _ rfl
    exact ⟨nofun, nofun, fun _ => nofun⟩
  · intro _ _ _ _ met next sound
    exact step_sound sound met next

/-- A step that does not meet the condition leads to a thread that is blocked for ever. -/
theorem unmissed_of_woken {G : Graph J T D} {workspaces : Workspaces J W} {p p' : Program J T D}
    {a : ProgramAction J} (next : p.step G workspaces a = some p') (after : WaitersWoken workspaces p') :
    Unmissed p a := by
  cases a with
  | waiter k =>
      intro done w at_k waits
      obtain ⟨_, at_k', h⟩ := Option.bind_eq_some_iff.mp next
      cases at_k.symm.trans at_k'
      obtain ⟨goal, point⟩ := w
      cases waits
      cases h
      have inRange := (List.getElem?_eq_some_iff.mp at_k).1
      have blocked : (⟨goal, .blocked⟩ : Waiter J) ∈ p.waiters.set k ⟨goal, .blocked⟩ :=
        List.mem_of_getElem? (List.getElem?_set_self inRange)
      obtain ⟨unmet, mode⟩ := after ⟨done.threads, done.handlers, rfl⟩ _ blocked rfl
      refine ⟨mode, ?_⟩
      cases goal with
      | allJobs => rfl
      | job j => exact unmet
  | thread i outcome =>
      intro done outside th member j stores blocked
      have at_i : p.machine.threads[i]? = some th := member
      obtain ⟨rest, calls⟩ : ∃ rest, th.calls = .writeError j :: rest := by
        unfold Runner.storesError at stores
        split at stores
        case h_1 k rest calls =>
            cases stores
            exact ⟨rest, calls⟩
        case h_2 => cases stores
      simp only [Program.step, Program.threadStep, outside, at_i, Option.any_some, Runner.finishes, calls]
        at next
      obtain ⟨m, moved, rfl⟩ := Option.map_eq_some_iff.mp next
      obtain ⟨_, at_i', ⟨c, rest', m₁, left, head, h, rfl⟩ | ⟨m₁, th₁, returned, h, rfl⟩⟩ :=
        thread_cases moved
      · cases at_i.symm.trans at_i'
        rw [calls] at head
        cases head
        cases h
        have kept : ({ th with calls := .unlockForError :: rest } : Runner J D).completes = false := by
          have before := done.threads th (List.mem_of_getElem? at_i)
          rw [Runner.completes, calls] at before
          exact before
        have done_after {m : Machine J T D} (threads : m.threads =
            p.machine.threads.set i { th with calls := .unlockForError :: rest }) :
            NotificationsDone { p with machine := m } := by
          refine ⟨fun x member => ?_, done.handlers, done.changed⟩
          rw [threads] at member
          rcases List.mem_or_eq_of_mem_set member with old | rfl
          · exact done.threads x old
          · exact kept
        obtain ⟨unmet, _⟩ := after (done_after rfl) _ blocked rfl
        simp [Unmet, Machine.setRunner, Machine.setState, JobState.final] at unmet
      · cases at_i.symm.trans at_i'
        rw [calls] at returned
        cases returned
  | submit j | visit | wait goal | signal | handler n again => trivial

/-! ### Results -/

/-- All jobs in one workspace. -/
def oneWorkspace (J : Type) : Workspaces J Unit := ⟨[()], fun _ => (), fun _ => List.mem_singleton_self _⟩

/-- A thread waits for job 0, which is started after a signal and gets the state ERROR; and a thread that
    has counted job 0 begins to wait when the second signal has stored STOPPING and notified. -/
theorem missed_wakeups :
    (∃ p, (program (chain 0) (oneWorkspace _)).Reachable p ∧ NotificationsDone p ∧
        ⟨.job 0, .blocked⟩ ∈ p.waiters ∧ p.machine.state 0 = .error ∧
        ¬ WaitersWoken (oneWorkspace _) p) ∧
      ∃ p, (program (chain 0) (oneWorkspace _)).Reachable p ∧ NotificationsDone p ∧
        ⟨.allJobs, .blocked⟩ ∈ p.waiters ∧ p.machine.exitMode = .stopping ∧
        ¬ WaitersWoken (oneWorkspace _) p := by
  constructor
  · have executed : ((TransitionSystem.runActions (Program.step (chain 0) (oneWorkspace _))
        [.wait (.job 0), .waiter 0, .waiter 0, .waiter 0, .waiter 0, .signal, .handler 0 false,
          .handler 0 false, .submit 0, .thread 0 .go, .thread 0 .go, .thread 0 .go, .thread 0 .go,
          .thread 0 .go, .thread 0 .go, .thread 0 .go, .thread 0 .go, .thread 0 .go]
        (Program.initial (chain 0))).map fun p =>
          (decide (NotificationsDone p), p.waiters, p.machine.state 0)) =
          some (true, [⟨.job 0, .blocked⟩], .error) := by decide
    obtain ⟨p, run, seen⟩ := TransitionSystem.exists_reachable_of_runActions executed
    simp only [Prod.mk.injEq, decide_eq_true_eq] at seen
    obtain ⟨done, waiters, state⟩ := seen
    have blocked : ⟨.job 0, .blocked⟩ ∈ p.waiters := by simp [waiters]
    refine ⟨p, run, done, blocked, state, fun woken => ?_⟩
    have unmet := (woken done _ blocked rfl).1
    simp [Unmet, state, JobState.final] at unmet
  · have executed : ((TransitionSystem.runActions (Program.step (chain 0) (oneWorkspace _))
        [.submit 0, .thread 0 .go, .thread 0 .go, .wait .allJobs, .waiter 0, .waiter 0, .signal,
          .handler 0 false, .handler 0 false, .signal, .handler 1 true, .handler 1 true, .handler 1 true,
          .waiter 0]
        (Program.initial (chain 0))).map fun p =>
          (decide (NotificationsDone p), p.waiters, p.machine.exitMode)) =
          some (true, [⟨.allJobs, .blocked⟩], .stopping) := by decide
    obtain ⟨p, run, seen⟩ := TransitionSystem.exists_reachable_of_runActions executed
    simp only [Prod.mk.injEq, decide_eq_true_eq] at seen
    obtain ⟨done, waiters, mode⟩ := seen
    have blocked : ⟨.allJobs, .blocked⟩ ∈ p.waiters := by simp [waiters]
    refine ⟨p, run, done, blocked, mode, fun woken => ?_⟩
    exact (woken done _ blocked rfl).2 mode

/-- In a run whose steps meet the condition, threads are blocked only for something to come, whenever no
    notification is; and the first step of another kind leaves a thread blocked for ever. -/
theorem waiters_woken {G : Graph J T D} {workspaces : Workspaces J W} {p : Program J T D}
    (run : (program G workspaces).RunUnder Unmissed p) :
    WaitersWoken workspaces p ∧
      ∀ a p', p.step G workspaces a = some p' → (WaitersWoken workspaces p' ↔ Unmissed p a) := by
  have sound := waitersSound_of_runUnder run
  refine ⟨sound.woken, fun a p' next => ⟨unmissed_of_woken next, fun met => ?_⟩⟩
  exact (step_sound sound met next).woken

/-- Each job of a chain of two in a workspace of its own. -/
def twoWorkspaces : Workspaces (Fin 2) Bool := ⟨[false, true], fun j => j.val = 1, by decide⟩

/-- Two threads wait while job 0 runs, and job 0 ends. The one that waits for it returns; the other one is
    blocked for job 1 of the other workspace, and a signal arrives. -/
theorem waiters_woken_chain :
    ∃ p, (program (chain 1) twoWorkspaces).RunUnder Unmissed p ∧ NotificationsDone p ∧
      p.waiters = [⟨.job 0, .returned⟩, ⟨.allJobs, .blocked⟩] ∧ p.machine.state 0 = .done ∧
      p.machine.exitMode = .waiting ∧ WaitersWoken twoWorkspaces p := by
  have executed : ((TransitionSystem.runActions
      (TransitionSystem.guarded Unmissed (Program.step (chain 1) twoWorkspaces))
      [.submit 0, .thread 0 .go, .thread 0 .go, .thread 0 .go, .thread 0 .go, .thread 0 .go, .thread 0 .go,
        .submit 1, .thread 2 .go, .thread 2 .go, .thread 2 .go, .thread 2 .go, .thread 2 .go, .thread 2 .go,
        .thread 1 .go, .thread 1 .go, .thread 1 .go, .thread 1 .go, .thread 1 .go, .thread 1 .go,
        .thread 1 .go, .thread 1 .go, .wait (.job 0), .wait .allJobs, .waiter 0, .waiter 0, .waiter 0,
        .waiter 0, .waiter 1, .waiter 1, .waiter 1, .thread 1 (.exited true), .thread 1 .go, .thread 1 .go,
        .thread 1 .go, .thread 1 .go, .thread 1 .go, .thread 1 .go, .thread 1 .go, .thread 1 .go,
        .waiter 0, .waiter 0, .waiter 0, .waiter 0, .waiter 0, .waiter 0, .waiter 1, .waiter 1, .waiter 1,
        .waiter 1, .waiter 1, .waiter 1, .thread 1 .go, .thread 1 .go, .thread 1 .go, .thread 1 .go,
        .signal, .handler 0 false, .handler 0 false]
      (Program.initial (chain 1))).map fun p =>
        (decide (NotificationsDone p), p.waiters, p.machine.state 0, p.machine.exitMode)) =
        some (true, [⟨.job 0, .returned⟩, ⟨.allJobs, .blocked⟩], .done, .waiting) := by decide
  obtain ⟨p, run, seen⟩ := TransitionSystem.exists_runUnder_of_runActions executed
  simp only [Prod.mk.injEq, decide_eq_true_eq] at seen
  obtain ⟨done, waiters, state, mode⟩ := seen
  exact ⟨p, run, done, waiters, state, mode, (waiters_woken run).1⟩

end Experimaestro.Scheduler

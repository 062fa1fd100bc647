/-
Module: Experimaestro.Scheduler.FinalStates
Layer: Scheduler
Purpose: A job that is reported as completed has finished. A thread is `Armed` for a job when it is back
  from `run()` or about to call `jobCompleted`; the invariant is that the job is in a final state then. A
  thread is armed where `run()` stores a final state, where one of the two lock files cannot be locked, and
  where a dependency has failed; the last two store nothing, and another thread of the same job may store
  READY or RUNNING meanwhile. These are the cases that the condition on the steps names.
Imports: Experimaestro.Scheduler.MutexOwnership, Experimaestro.Scheduler.DependencyOrder
Trusted boundary: none (fully proved)
Main exports: FinishedFirst, Runner.Armed, FinalStored, completed_while_waiting, completed_means_finished
Open obligations: none
-/
import Mathlib.Tactic.Common
import Experimaestro.Scheduler.DependencyOrder
import Experimaestro.Scheduler.MutexOwnership

namespace Experimaestro.Scheduler

variable {J T D : Type} [DecidableEq J] [DecidableEq T] [DecidableEq D]

/-! ### What has to hold, and on which steps -/

/-- A job for which `jobCompleted` calls `jobFinished` is in a final state. -/
def FinishedFirst (m : Machine J T D) : Prop :=
  ∀ th ∈ m.threads, ∀ j rest, th.calls = .jobCompleted j :: rest → (m.state j).final

/-- The thread is back from `run()` with the job, or about to call `jobCompleted` for it. -/
def Runner.Armed (th : Runner J D) (j : J) : Prop :=
  .jobCompleted j ∈ th.calls ∨ th.point.owes = some j

instance (th : Runner J D) (j : J) : Decidable (th.Armed j) :=
  inferInstanceAs (Decidable (_ ∨ _))

/-- The job that the next operation of the thread gives up without storing a state: a dependency has
    failed, or a lock file cannot be locked. -/
def Runner.givesUp (G : Graph J T D) (th : Runner J D) (outcome : Outcome) : Option J :=
  match th.calls, th.point, outcome with
  | .dependencyChanged d _ .fail :: _, _, _ => some (G.target d)
  | [], .mainLock j, .timeout => some j
  | [], .startLockFile j, .timeout => some j
  | _, _, _ => none

/-- The job for which the next operation of the thread stores READY or RUNNING. -/
def Runner.reopens (th : Runner J D) : Option J :=
  match th.calls, th.point with
  | [], .abortState j => some j
  | [], .launched j => some j
  | _, _ => none

/-- The condition on a step: a job that it gives up is in a final state already, and it stores READY or
    RUNNING for no job that a thread is about to report as completed. -/
def FinalStored (G : Graph J T D) (m : Machine J T D) : MachineAction J → Prop
  | .thread i outcome => ∀ th ∈ m.threads[i]?,
      (∀ j ∈ th.givesUp G outcome, (m.state j).final) ∧
        ∀ j ∈ th.reopens, ∀ x ∈ m.threads, ¬ x.Armed j
  | _ => True

instance (G : Graph J T D) (m : Machine J T D) : (a : MachineAction J) → Decidable (FinalStored G m a)
  | .thread i outcome => inferInstanceAs (Decidable (∀ th ∈ m.threads[i]?,
      (∀ j ∈ th.givesUp G outcome, (m.state j).final) ∧
        ∀ j ∈ th.reopens, ∀ x ∈ m.threads, ¬ x.Armed j))
  | .submit _ | .visit | .signal _ => inferInstanceAs (Decidable True)

/-! ### The invariant -/

/-- The job of an armed thread is in a final state. -/
def ArmedFinal (m : Machine J T D) : Prop :=
  ∀ th ∈ m.threads, ∀ j, th.Armed j → (m.state j).final

omit [DecidableEq T] [DecidableEq J] [DecidableEq D] in
theorem finishedFirst_of_armedFinal {m : Machine J T D} (armed : ArmedFinal m) : FinishedFirst m := by
  intro th member j rest head
  exact armed th member j (Or.inl (by simp [head]))

omit [DecidableEq T] [DecidableEq J] [DecidableEq D] in
/-- A new thread is not armed. -/
theorem ArmedFinal.spawn {m : Machine J T D} (armed : ArmedFinal m) {point : Point J D}
    (unarmed : point.owes = none) : ArmedFinal (m.spawn point) := by
  intro th member j owes
  rcases List.mem_append.mp member with old | new
  · exact armed th old j owes
  · rw [List.mem_singleton.mp new] at owes
    rcases owes with called | owed
    · cases called
    · rw [unarmed] at owed
      cases owed

omit [DecidableEq T] [DecidableEq D] in
/-- A call writes final states only. -/
theorem final_callStep {G : Graph J T D} {i : ℕ} {m m' : Machine J T D} {c : Call J D}
    {rest calls : List (Call J D)} {inside : Bool} (moves : CallMoves G i m m' c rest calls inside) {j : J}
    (final : (m.state j).final) : (m'.state j).final := by
  rw [moves.state]
  cases c with
  | writeError k =>
      by_cases same : j = k
      · simp [Call.writes, same, JobState.final]
      · simpa [Call.writes, Function.update_of_ne same] using final
  | _ => exact final

omit [DecidableEq J] [DecidableEq D] in
/-- A point writes a final state, or one of the two that the condition is about. -/
theorem reopens_of_writes {th : Runner J D} {j : J} {new : JobState} (returned : th.calls = [])
    (writes : th.point.writes = some (j, new)) : new.final ∨ th.reopens = some j := by
  obtain ⟨point, _, locks⟩ := th
  cases returned
  cases point <;> simp only [Point.writes, Option.some.injEq, Prod.mk.injEq, reduceCtorEq] at writes <;>
    obtain ⟨rfl, rfl⟩ := writes
  case abortState => exact Or.inr rfl
  case launched => exact Or.inr rfl
  case alreadyDone => exact Or.inl rfl
  case finish success => exact Or.inl (by cases success <;> rfl)

omit [DecidableEq T] [DecidableEq D] in
/-- The job of a thread that is armed stays in a final state. -/
theorem final_pointStep {i : ℕ} {m m' : Machine J T D} {th th' x : Runner J D} {outcome : Outcome} {j : J}
    (returned : th.calls = []) (moves : PointMoves i m m' th th' outcome)
    (met : ∀ k ∈ th.reopens, ∀ x ∈ m.threads, ¬ x.Armed k) (member : x ∈ m.threads) (armed : x.Armed j)
    (final : (m.state j).final) : (m'.state j).final := by
  rw [moves.state]
  cases writes : th.point.writes with
  | none => exact final
  | some write =>
      obtain ⟨k, new⟩ := write
      simp only [Option.elim_some]
      by_cases same : j = k
      · subst k
        rw [Function.update_self]
        exact (reopens_of_writes returned writes).resolve_right fun reopens =>
          met j reopens x member armed
      · rwa [Function.update_of_ne same]

omit [DecidableEq T] [DecidableEq J] [DecidableEq D] in
/-- A thread that becomes armed inside its calls gives the job up. -/
theorem givesUp_of_made {G : Graph J T D} {exitMode : ExitMode} {th : Runner J D} {outcome : Outcome}
    {c : Call J D} {rest : List (Call J D)} {j : J} (head : th.calls = c :: rest)
    (made : CallCall G exitMode c (.jobCompleted j)) : th.givesUp G outcome = some j := by
  cases made with
  | failed => simp [Runner.givesUp, head]

theorem armedFinal_step {G : Graph J T D} {m m' : Machine J T D} {a : MachineAction J}
    (sound : MutexSound m) (met : FinalStored G m a) (next : m.step G a = some m') (armed : ArmedFinal m) :
    ArmedFinal m' := by
  cases a with
  | submit j => exact Option.some.inj next ▸ armed.spawn rfl
  | visit => exact Option.some.inj next ▸ armed.spawn rfl
  | signal again => exact Option.some.inj next ▸ armed
  | thread i outcome =>
      obtain ⟨th, at_i, ⟨c, rest, m₁, calls, head, h, rfl⟩ | ⟨m₁, th₁, returned, h, rfl⟩⟩ :=
        thread_cases next
      · have member := List.mem_of_getElem? at_i
        have moves := callStep_moves_of_sound sound at_i head h
        obtain ⟨new, threads, created⟩ := moves.threads
        intro x there j owes
        refine final_callStep moves ?_
        rw [Machine.setRunner, threads] at there
        rcases List.mem_or_eq_of_mem_set there with old | rfl
        · rcases List.mem_append.mp old with old | fresh
          · exact armed x old j owes
          · obtain ⟨k, rfl⟩ := created x fresh
            rcases owes with called | owed
            · cases called
            · cases owed
        · rcases owes with called | owed
          · rcases moves.made _ called with before | made
            · exact armed th member j (Or.inl (by simp [head, before]))
            · exact (met th at_i).1 j (givesUp_of_made head made)
          · exact armed th member j (Or.inr owed)
      · have member := List.mem_of_getElem? at_i
        have moves := pointStep_moves returned h
        have kept {x : Runner J D} (old : x ∈ m.threads) {j : J} (owes : x.Armed j) :
            (m₁.state j).final :=
          final_pointStep returned moves (met th at_i).2 old owes (armed x old j owes)
        have stored {j : J} {new : JobState} (writes : th.point.writes = some (j, new)) :
            m₁.state j = new := by
          simp [moves.state, writes]
        intro x there j owes
        rw [Machine.setRunner, moves.threads] at there
        rcases List.mem_or_eq_of_mem_set there with old | rfl
        · exact kept old owes
        · rcases owes with called | owed
          · have made := moves.made _ called
            generalize point : th.point = p at made
            cases made with
            | found => exact (stored (by rw [point]; rfl)).symm ▸ rfl
            | returned => exact kept member (Or.inr (by rw [point]; rfl))
          · rcases moves.owes j owed with before | ⟨new, writes, final⟩ | ⟨rfl, lockFile⟩
            · exact kept member (Or.inr before)
            · exact (stored writes).symm ▸ final
            · have unwritten : th.point.writes = none := by rcases lockFile with p | p <;> rw [p] <;> rfl
              have given : th.givesUp G .timeout = some j := by
                rcases lockFile with p | p <;> simp [Runner.givesUp, returned, p]
              have unchanged : m₁.state = m.state := by simp [moves.state, unwritten]
              change (m₁.state j).final
              rw [unchanged]
              exact (met th at_i).1 j given

theorem armedFinal_of_runUnder {G : Graph J T D} {m : Machine J T D}
    (run : (machine G).RunUnder (FinalStored G) m) : ArmedFinal m := by
  refine run.invariant ArmedFinal ?_ fun _ _ _ before met next armed =>
    armedFinal_step (mutexSound_of_reachable before.reachable) met next armed
  rintro _ rfl th member
  cases member

/-! ### Removal from the waiting jobs -/

/-- A call removes a job from the waiting jobs only in `jobCompleted`. -/
theorem callStep_waitingJobs {G : Graph J T D} {i : ℕ} {m m' : Machine J T D} {c : Call J D}
    {rest calls : List (Call J D)} (h : callStep G i m rest c = some (m', calls)) {j : J}
    (waiting : j ∈ m.waitingJobs) (removed : j ∉ m'.waitingJobs) : c = .jobCompleted j := by
  cases c with
  | jobCompleted k =>
      cases h
      by_contra other
      exact removed (List.mem_filter.mpr ⟨waiting, decide_eq_true fun equal => other (equal ▸ rfl)⟩)
  | _ =>
      simp only [callStep] at h
      grind [Machine.spawn, Machine.setState]

/-- The operation of a point removes no job from the waiting jobs. -/
theorem pointStep_waitingJobs {G : Graph J T D} {i : ℕ} {m m' : Machine J T D} {th th' : Runner J D}
    {outcome : Outcome} (h : pointStep G i m th outcome = some (m', th')) {j : J}
    (waiting : j ∈ m.waitingJobs) : j ∈ m'.waitingJobs := by
  unfold pointStep at h
  split at h
  case h_2 =>
      unfold registerJob at h
      split at h <;> cases h
      · exact waiting
      · exact List.mem_cons_of_mem _ waiting
  all_goals
    grind [lockMutex, unlockMutex, destroyLock, lockDependency, acquireTokens, addDependency,
      Machine.setState]

/-- The step that removes a job from the waiting jobs is its `jobCompleted`. -/
theorem completes_of_removed {G : Graph J T D} {m m' : Machine J T D} {a : MachineAction J}
    (next : m.step G a = some m') {j : J} (waiting : j ∈ m.waitingJobs) (removed : j ∉ m'.waitingJobs) :
    ∃ th ∈ m.threads, ∃ rest, th.calls = .jobCompleted j :: rest := by
  cases a with
  | submit k => exact absurd waiting (by cases next; exact removed)
  | visit => exact absurd waiting (by cases next; exact removed)
  | signal again => exact absurd waiting (by cases next; exact removed)
  | thread i outcome =>
      obtain ⟨th, at_i, ⟨c, rest, m₁, calls, head, h, rfl⟩ | ⟨m₁, th₁, returned, h, rfl⟩⟩ :=
        thread_cases next
      · cases callStep_waitingJobs h waiting removed
        exact ⟨th, List.mem_of_getElem? at_i, rest, head⟩
      · exact absurd (pointStep_waitingJobs h waiting) removed

/-! ### Results -/

/-- Job 0 is submitted, its main lock file stays locked, and it is completed while its state is WAITING. -/
theorem completed_while_waiting :
    ∃ m, (machine (chain 1)).Reachable m ∧ 0 ∈ m.waitingJobs ∧ m.state 0 = .waiting ∧
      (∃ m', m.step (chain 1) (.thread 1 .go) = some m' ∧ 0 ∉ m'.waitingJobs) ∧ ¬ FinishedFirst m := by
  have executed : ((TransitionSystem.runActions (Machine.step (chain 1))
      [.submit 0, .thread 0 .go, .thread 0 .go, .thread 0 .go, .thread 0 .go, .thread 0 .go, .thread 0 .go,
        .thread 1 .go, .thread 1 .go, .thread 1 .go, .thread 1 .timeout, .thread 1 .go, .thread 1 .go,
        .thread 1 .go]
      (Machine.initial (chain 1))).map fun m => (m.threads[1]?.map Runner.calls, m.waitingJobs, m.state 0,
        (m.step (chain 1) (.thread 1 .go)).map Machine.waitingJobs)) =
        some (some [.jobCompleted 0], [0], .waiting, some []) := by decide
  obtain ⟨m, run, seen⟩ := TransitionSystem.exists_reachable_of_runActions executed
  simp only [Prod.mk.injEq] at seen
  obtain ⟨called, waiting, state, after⟩ := seen
  obtain ⟨th, at_1, calls⟩ := Option.map_eq_some_iff.mp called
  obtain ⟨m', next, removed⟩ := Option.map_eq_some_iff.mp after
  refine ⟨m, run, by simp [waiting], state, ⟨m', next, by simp [removed]⟩, fun finished => ?_⟩
  have final := finished th (List.mem_of_getElem? at_1) 0 [] calls
  rw [state] at final
  cases final

/-- In a run where a job that is given up is in a final state already, and where no thread stores READY or
    RUNNING for a job about to be reported as completed, `jobFinished` is called for finished jobs only. -/
theorem completed_means_finished {G : Graph J T D} {m : Machine J T D}
    (run : (machine G).RunUnder (FinalStored G) m) :
    FinishedFirst m ∧ ∀ a m', m.step G a = some m' → ∀ j ∈ m.waitingJobs, j ∉ m'.waitingJobs →
      (m.state j).final := by
  have finished := finishedFirst_of_armedFinal (armedFinal_of_runUnder run)
  refine ⟨finished, fun a m' next j waiting removed => ?_⟩
  obtain ⟨th, member, rest, head⟩ := completes_of_removed next waiting removed
  exact finished th member j rest head

/-- Both jobs of a chain run: the first one ends well, the second one fails. -/
theorem completed_means_finished_chain :
    ∃ m, (machine (chain 1)).RunUnder (FinalStored (chain 1)) m ∧
      (∃ th ∈ m.threads[3]?, th.calls = [.jobCompleted 1]) ∧ m.state 0 = .done ∧ m.state 1 = .error ∧
      FinishedFirst m := by
  have executed : ((TransitionSystem.runActions
      (TransitionSystem.guarded (FinalStored (chain 1)) (Machine.step (chain 1)))
      [.submit 0, .thread 0 .go, .thread 0 .go, .thread 0 .go, .thread 0 .go, .thread 0 .go, .thread 0 .go,
        .submit 1, .thread 2 .go, .thread 2 .go, .thread 2 .go, .thread 2 .go, .thread 2 .go, .thread 2 .go,
        .thread 1 .go, .thread 1 .go, .thread 1 .go, .thread 1 .go, .thread 1 .go, .thread 1 .go,
        .thread 1 .go, .thread 1 .go, .thread 1 (.exited true), .thread 1 .go, .thread 1 .go, .thread 1 .go,
        .thread 1 .go, .thread 1 .go, .thread 1 .go, .thread 1 .go, .thread 1 .go, .thread 1 .go,
        .thread 1 .go, .thread 1 .go, .thread 3 .go, .thread 3 .go, .thread 3 .go, .thread 3 .go,
        .thread 3 .go, .thread 3 .go, .thread 3 .go, .thread 3 .go, .thread 3 .go,
        .thread 3 (.exited false), .thread 3 .go, .thread 3 .go, .thread 3 .go, .thread 3 .go]
      (Machine.initial (chain 1))).map fun m => (m.threads[3]?.map Runner.calls, m.state 0, m.state 1)) =
        some (some [.jobCompleted 1], .done, .error) := by decide
  obtain ⟨m, run, seen⟩ := TransitionSystem.exists_runUnder_of_runActions executed
  simp only [Prod.mk.injEq] at seen
  obtain ⟨called, first, second⟩ := seen
  obtain ⟨th, at_3, calls⟩ := Option.map_eq_some_iff.mp called
  exact ⟨m, run, ⟨th, at_3, calls⟩, first, second, (completed_means_finished run).1⟩

end Experimaestro.Scheduler

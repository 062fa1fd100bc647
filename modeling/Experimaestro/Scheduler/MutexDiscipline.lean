/-
Module: Experimaestro.Scheduler.MutexDiscipline
Layer: Scheduler
Purpose: Two rules about `WORKSPACE_MUTEX`, which is not recursive. A thread that has it neither locks it
  again nor waits for a process: this fails exactly where such a thread starts a job after an exit signal,
  and where `check()` of `run()` picks up a running process. The checks, the acquisitions and the releases
  are made by the thread that has it: this fails exactly where the thread of an aborted start gives up the
  last reference to a lock, since its vector of locks is destroyed after its lock of the mutex.
Imports: Experimaestro.Scheduler.MutexOwnership, Experimaestro.Scheduler.DependencyOrder
Trusted boundary: none (fully proved)
Main exports: NonBlocking, StartsFree, blocked_by_signal, no_blocking, Disciplined, AbortsShared,
  released_without_mutex, lock_discipline
Open obligations: none
-/
import Mathlib.Tactic.Common
import Experimaestro.Scheduler.DependencyOrder
import Experimaestro.Scheduler.MutexOwnership

namespace Experimaestro.Scheduler

variable {J T D : Type} [DecidableEq J] [DecidableEq T] [DecidableEq D]

/-! ### Blocking with the mutex -/

/-- The operation of the point locks the mutex, or waits for the exit of a process. -/
def Point.blocks : Point J D → Bool
  | .submitLock _ | .visitLock | .startLock _ | .relock _ | .waitProcess _ _ => true
  | _ => false

/-- The next operation of the thread locks the mutex, or waits for the exit of a process. -/
def Runner.blocking (th : Runner J D) : Bool :=
  match th.calls with
  | [] => th.point.blocks
  | c :: _ => c.locks

/-- A thread that has the mutex neither locks it again nor waits for a process. -/
def NonBlocking (m : Machine J T D) : Prop :=
  ∀ i, ∀ th ∈ m.threads[i]?, m.mutex = some i → th.blocking = false

/-- The next operation of the thread is `Job::start` after an exit signal. -/
def Machine.startsLate (m : Machine J T D) (th : Runner J D) : Bool :=
  match th.calls with
  | .start _ :: _ => m.exitMode ≠ .none
  | _ => false

/-- The next operation of the thread is `check()` of `run()`. -/
def Runner.probes (th : Runner J D) : Bool :=
  match th.calls, th.point with
  | [], .probe _ _ => true
  | _, _ => false

/-- The condition on a step: it is neither a call of `Job::start` after an exit signal by the thread that
    has the mutex, nor a `check()` that picks up a running process. -/
def StartsFree (m : Machine J T D) : MachineAction J → Prop
  | .thread i outcome => ∀ th ∈ m.threads[i]?,
      ¬ (m.startsLate th ∧ m.mutex = some i) ∧ ¬ (th.probes ∧ outcome = .pickedUp)
  | _ => True

instance (m : Machine J T D) : (a : MachineAction J) → Decidable (StartsFree m a)
  | .thread i outcome => inferInstanceAs (Decidable (∀ th ∈ m.threads[i]?,
      ¬ (m.startsLate th ∧ m.mutex = some i) ∧ ¬ (th.probes ∧ outcome = .pickedUp)))
  | .submit _ | .visit | .signal _ => inferInstanceAs (Decidable True)

/-- The thread will not lock the mutex while it has it, and does not wait for a process with it. -/
structure Runner.Free (th : Runner J D) : Prop where
  locks : ∀ c ∈ th.calls, c.locks → th.point.holds = false
  process : ∀ j, th.point ≠ .waitProcess j true

omit [DecidableEq T] [DecidableEq J] [DecidableEq D] in
theorem nonBlocking_of_free {m : Machine J T D} (sound : MutexSound m)
    (free : ∀ th ∈ m.threads, th.Free) : NonBlocking m := by
  intro i th at_i owned
  obtain ⟨_, at_i', holds⟩ := (sound.owner i).mp owned
  cases at_i.symm.trans at_i'
  have good := free th (List.mem_of_getElem? at_i)
  cases calls : th.calls with
  | nil =>
      have inside : th.point.holds := by simpa [Runner.holds, calls, ownsFirst] using holds
      have notWaiting := good.process
      simp only [Runner.blocking, calls]
      cases point : th.point <;> simp_all [Point.holds, Point.blocks]
  | cons c rest =>
      simp only [Runner.blocking, calls]
      by_contra locks
      have outside := good.locks c (by simp [calls]) (by simpa using locks)
      have owns : c.owns := by simpa [Runner.holds, calls, ownsFirst, outside] using holds
      cases c <;> simp_all [Call.locks, Call.owns]

omit [DecidableEq T] [DecidableEq J] [DecidableEq D] in
theorem CallCall.signalled_of_locks {G : Graph J T D} {exitMode : ExitMode} {c c' : Call J D}
    (made : CallCall G exitMode c c') (locks : c'.locks) : (∃ j, c = .start j) ∧ exitMode ≠ .none := by
  cases made with
  | signalled exit => exact ⟨⟨_, rfl⟩, exit⟩
  | _ => cases locks

theorem free_step {G : Graph J T D} {m m' : Machine J T D} {a : MachineAction J} (sound : MutexSound m)
    (met : StartsFree m a) (next : m.step G a = some m') (free : ∀ th ∈ m.threads, th.Free) :
    ∀ th ∈ m'.threads, th.Free := by
  refine threads_step Runner.Free sound next free ?_ ?_ ?_
  · intro point outside
    refine ⟨nofun, fun j waits => ?_⟩
    simp only at waits
    rw [waits] at outside
    cases outside
  · rintro i outcome th c rest m₁ calls rfl at_i head moves
    have good := free th (List.mem_of_getElem? at_i)
    refine ⟨fun c' member locks => ?_, good.process⟩
    rcases moves.made c' member with old | made
    · exact good.locks c' (by simp [head, old]) locks
    · obtain ⟨⟨j, rfl⟩, exit⟩ := made.signalled_of_locks locks
      have late : m.startsLate th := by simp [Machine.startsLate, head, exit]
      have notOwned : m.mutex ≠ some i := fun owned => (met th at_i).1 ⟨late, owned⟩
      by_contra holds
      exact notOwned (sound.owned_of_inside at_i (by simpa using holds))
  · rintro i outcome th m₁ th₁ rfl at_i returned h _
    have moves := pointStep_moves returned h
    refine ⟨fun c member locks => ?_, fun j waits => ?_⟩
    · rw [(moves.made c member).locks] at locks
      cases locks
    · obtain ⟨picked, second, probe⟩ := moves.process j waits
      exact (met th at_i).2 ⟨by simp [Runner.probes, returned, probe], picked⟩

theorem nonBlocking_of_runUnder {G : Graph J T D} {m : Machine J T D}
    (run : (machine G).RunUnder StartsFree m) : NonBlocking m := by
  refine nonBlocking_of_free (mutexSound_of_reachable run.reachable) ?_
  refine run.invariant (fun m => ∀ th ∈ m.threads, th.Free) ?_ fun _ _ _ before met next free =>
    free_step (mutexSound_of_reachable before.reachable) met next free
  rintro _ rfl th member
  cases member

/-- A step that does not meet the condition leads to a thread that blocks with the mutex. -/
theorem startsFree_of_nonBlocking {G : Graph J T D} {m m' : Machine J T D} {a : MachineAction J}
    (sound : MutexSound m) (next : m.step G a = some m') (after : NonBlocking m') : StartsFree m a := by
  cases a with
  | submit j => trivial
  | visit => trivial
  | signal again => trivial
  | thread i outcome =>
      intro th at_i
      obtain ⟨_, at_i', step⟩ := thread_cases next
      cases at_i.symm.trans at_i'
      have inRange := (List.getElem?_eq_some_iff.mp at_i).1
      constructor
      · rintro ⟨late, owned⟩
        rcases step with ⟨c, rest, m₁, calls, head, h, rfl⟩ | ⟨m₁, th₁, returned, h, rfl⟩
        · cases c <;> simp only [Machine.startsLate, head, Bool.false_eq_true, decide_eq_true_eq] at late
          simp only [callStep, if_neg late, Option.some.injEq, Prod.mk.injEq] at h
          obtain ⟨rfl, rfl⟩ := h
          cases after i _ (List.getElem?_set_self inRange) owned
        · simp [Machine.startsLate, returned] at late
      · rintro ⟨probes, rfl⟩
        rcases step with ⟨c, rest, m₁, calls, head, h, rfl⟩ | ⟨m₁, th₁, returned, h, rfl⟩
        · simp [Runner.probes, head] at probes
        · cases point : th.point <;> simp only [Runner.probes, returned, point, Bool.false_eq_true] at probes
          simp only [pointStep, point, Option.some.injEq, Prod.mk.injEq] at h
          obtain ⟨rfl, rfl⟩ := h
          have owned : m.mutex = some i := sound.owned_of_inside at_i (by rw [point]; rfl)
          have blocked := after i _ (List.getElem?_set_self inRange) owned
          simp [Runner.blocking, returned, Point.blocks] at blocked

/-- Job 1 waits for job 0. A signal arrives, job 0 is found to be done, and its thread reports that job 1
    is ready and starts it: it locks the mutex that it has. -/
theorem blocked_by_signal : ∃ m, (machine (chain 1)).Reachable m ∧ ¬ NonBlocking m := by
  have executed : ((TransitionSystem.runActions (Machine.step (chain 1))
      [.submit 0, .thread 0 .go, .thread 0 .go, .thread 0 .go, .thread 0 .go, .thread 0 .go, .thread 0 .go,
        .submit 1, .thread 2 .go, .thread 2 .go, .thread 2 .go, .thread 2 .go, .thread 2 .go, .thread 2 .go,
        .signal false, .thread 1 .go, .thread 1 .go, .thread 1 .done, .thread 1 .go, .thread 1 .go,
        .thread 1 .go, .thread 1 .go, .thread 1 .go]
      (Machine.initial (chain 1))).map fun m => (m.mutex, m.threads[1]?.map Runner.blocking)) =
        some (some 1, some true) := by decide
  obtain ⟨m, run, seen⟩ := TransitionSystem.exists_reachable_of_runActions executed
  obtain ⟨owned, blocking⟩ := Prod.mk.inj seen
  obtain ⟨th, at_1, blocks⟩ := Option.map_eq_some_iff.mp blocking
  refine ⟨m, run, fun free => ?_⟩
  simp [free 1 th at_1 owned] at blocks

/-- No thread that has the mutex blocks in a run where no such thread starts a job after an exit signal
    or picks up a running process, and the first step of another kind leads to one that does. -/
theorem no_blocking {G : Graph J T D} {m : Machine J T D} (run : (machine G).RunUnder StartsFree m) :
    NonBlocking m ∧ ∀ a m', m.step G a = some m' → (NonBlocking m' ↔ StartsFree m a) := by
  refine ⟨nonBlocking_of_runUnder run, fun a m' next => ⟨fun after => ?_, fun met => ?_⟩⟩
  · exact startsFree_of_nonBlocking (mutexSound_of_reachable run.reachable) next after
  · exact nonBlocking_of_runUnder (.step run met next)

/-- The same jobs, and the signal arrives when job 1 has its thread. -/
theorem no_blocking_chain :
    ∃ m, (machine (chain 1)).RunUnder StartsFree m ∧ m.mutex = some 1 ∧ m.exitMode = .waiting ∧
      NonBlocking m := by
  have executed : ((TransitionSystem.runActions
      (TransitionSystem.guarded StartsFree (Machine.step (chain 1)))
      [.submit 0, .thread 0 .go, .thread 0 .go, .thread 0 .go, .thread 0 .go, .thread 0 .go, .thread 0 .go,
        .submit 1, .thread 2 .go, .thread 2 .go, .thread 2 .go, .thread 2 .go, .thread 2 .go, .thread 2 .go,
        .thread 1 .go, .thread 1 .go, .thread 1 .done, .thread 1 .go, .thread 1 .go, .thread 1 .go,
        .thread 1 .go, .thread 1 .go, .signal false]
      (Machine.initial (chain 1))).map fun m => (m.mutex, m.exitMode)) = some (some 1, .waiting) := by decide
  obtain ⟨m, run, seen⟩ := TransitionSystem.exists_runUnder_of_runActions executed
  obtain ⟨owned, exit⟩ := Prod.mk.inj seen
  exact ⟨m, run, owned, exit, (no_blocking run).1⟩

/-! ### Checks, acquisitions and releases -/

/-- An operation of `Dependency::check` or of `CounterDependency::release`. -/
def Call.guarded : Call J D → Bool
  | .check _ | .dependencyChanged _ _ _ | .record _ _ | .release _ => true
  | _ => false

/-- `Job::start`, and its critical section after an exit signal. -/
def Call.starting : Call J D → Bool
  | .start _ | .lockForError _ | .writeError _ | .unlockForError => true
  | _ => false

/-- The next operation of the thread belongs to `Dependency::check`, `CounterDependency::l_acquire` or
    `CounterDependency::release`. -/
def Runner.needsMutex (th : Runner J D) : Bool :=
  match th.calls, th.point with
  | [], .acquiring _ _ _ => true
  | [], _ => false
  | c :: _, _ => c.guarded

/-- Such operations are executed by the thread that has the mutex. -/
def Disciplined (m : Machine J T D) : Prop :=
  ∀ i, ∀ th ∈ m.threads[i]?, th.needsMutex → m.mutex = some i

/-- After a `lock_error` the thread has left its critical section and destroys its vector of locks. -/
def Runner.abandons (th : Runner J D) : Bool :=
  match th.calls, th.point with
  | [], .abortRelease _ => true
  | _, _ => false

/-- The condition on a step: a lock that the thread of an aborted start gives up still has an owner. -/
def AbortsShared (m : Machine J T D) : MachineAction J → Prop
  | .thread i (.destroy l) => ∀ th ∈ m.threads[i]?,
      th.abandons → (m.setRunner i { th with locks := th.locks.erase l }).Owned l
  | _ => True

instance (m : Machine J T D) : (a : MachineAction J) → Decidable (AbortsShared m a)
  | .thread i (.destroy l) => inferInstanceAs (Decidable (∀ th ∈ m.threads[i]?,
      th.abandons → (m.setRunner i { th with locks := th.locks.erase l }).Owned l))
  | .thread _ .go | .thread _ .done | .thread _ .pickedUp | .thread _ .timeout | .thread _ (.exited _)
  | .submit _ | .visit | .signal _ => inferInstanceAs (Decidable True)

/-- The calls of a thread outside critical sections are those of `Job::start`. -/
def Runner.Guarded (th : Runner J D) : Prop :=
  th.point.holds = false → ∀ c ∈ th.calls, c.starting

omit [DecidableEq T] [DecidableEq J] [DecidableEq D] in
theorem disciplined_of_runnerGuarded {m : Machine J T D} (sound : MutexSound m)
    (guarded : ∀ th ∈ m.threads, th.Guarded) : Disciplined m := by
  intro i th at_i needs
  refine sound.owned_of_inside at_i ?_
  cases calls : th.calls with
  | nil => cases point : th.point <;> simp_all [Runner.needsMutex, Point.holds]
  | cons c rest =>
      by_contra outside
      have starting := guarded th (List.mem_of_getElem? at_i) (by simpa using outside) c (by simp [calls])
      cases c <;> simp_all [Runner.needsMutex, Call.guarded, Call.starting]

omit [DecidableEq T] [DecidableEq J] [DecidableEq D] in
theorem CallCall.starting {G : Graph J T D} {exitMode : ExitMode} {c c' : Call J D}
    (made : CallCall G exitMode c c') (before : c.starting) : c'.starting := by
  cases made <;> first | rfl | cases before

/-- Giving up a lock calls `release` when it has no other owner. -/
theorem abandoned {G : Graph J T D} {m m' : Machine J T D} {i l : ℕ} {j : J} {th th' : Runner J D}
    (returned : th.calls = []) (point : th.point = .abortRelease j)
    (h : pointStep G i m th (.destroy l) = some (m', th')) :
    l ∈ th.locks ∧ m' = m ∧ th'.calls =
      if (m.setRunner i { th with locks := th.locks.erase l }).Owned l then []
      else (m.lockObjects[l]?).toList.map .release := by
  obtain ⟨_, _, locks⟩ := th
  subst returned point
  simp only [pointStep, destroyLock, Option.ite_none_right_eq_some] at h
  obtain ⟨held, h⟩ := h
  split at h
  · next shared =>
    cases h
    exact ⟨held, rfl, (if_pos shared).symm⟩
  · next last =>
    cases h
    exact ⟨held, rfl, (if_neg last).symm⟩

theorem runnerGuarded_step {G : Graph J T D} {m m' : Machine J T D} {a : MachineAction J} (sound : MutexSound m)
    (met : AbortsShared m a) (next : m.step G a = some m') (guarded : ∀ th ∈ m.threads, th.Guarded) :
    ∀ th ∈ m'.threads, th.Guarded := by
  refine threads_step Runner.Guarded sound next guarded ?_ ?_ ?_
  · intro point _ _
    nofun
  · rintro i outcome th c rest m₁ calls rfl at_i head moves outside c' member
    have before := guarded th (List.mem_of_getElem? at_i) outside
    rcases moves.made c' member with old | made
    · exact before c' (by simp [head, old])
    · exact made.starting (before c (by simp [head]))
  · rintro i outcome th m₁ th₁ rfl at_i returned h _ outside c member
    have moves := pointStep_moves returned h
    have side := moves.inside (List.ne_nil_of_mem member)
    rw [outside] at side
    generalize point : th.point = p at side
    have made := moves.made c member
    rw [point] at made
    cases made with
    | ready => rfl
    | aborted =>
        have shared := met th at_i (by simp [Runner.abandons, returned, point])
        rw [(abandoned returned point h).2.2, if_pos shared] at member
        cases member
    | _ => cases side

theorem disciplined_of_runUnder {G : Graph J T D} {m : Machine J T D}
    (run : (machine G).RunUnder AbortsShared m) : Disciplined m := by
  refine disciplined_of_runnerGuarded (mutexSound_of_reachable run.reachable) ?_
  refine run.invariant (fun m => ∀ th ∈ m.threads, th.Guarded) ?_ fun _ _ _ before met next guarded =>
    runnerGuarded_step (mutexSound_of_reachable before.reachable) met next guarded
  rintro _ rfl th member
  cases member

/-- The locks that threads have are Lock objects that were constructed. -/
def LocksConstructed (m : Machine J T D) : Prop :=
  ∀ th ∈ m.threads, ∀ l ∈ th.locks, l < m.lockObjects.length

omit [DecidableEq T] [DecidableEq J] [DecidableEq D] in
theorem liveLock_owned {m : Machine J T D} {d : D} {l : ℕ} (live : m.liveLock d = some l) : m.Owned l := by
  simp only [Machine.liveLock, Option.filter_eq_some_iff, decide_eq_true_eq] at live
  exact live.2

/-- The Lock objects stay, and a thread gets its locks from a dependency that is locked, or constructs
    them. -/
def LocksFrom (m m' : Machine J T D) (th th' : Runner J D) : Prop :=
  m.lockObjects.length ≤ m'.lockObjects.length ∧
    ∀ l ∈ th'.locks, l ∈ th.locks ∨ m.Owned l ∨ l < m'.lockObjects.length

omit [DecidableEq T] [DecidableEq J] [DecidableEq D] in
theorem LocksFrom.keep {m m₁ m' : Machine J T D} {th th₁ th' : Runner J D}
    (h : some (m₁, th₁) = some (m', th')) (objects : m₁.lockObjects = m.lockObjects)
    (locks : th₁.locks ⊆ th.locks) : LocksFrom m m' th th' := by
  cases h
  exact ⟨by rw [objects], fun l member => Or.inl (locks member)⟩

omit [DecidableEq T] [DecidableEq J] in
theorem lockDependency_locks {G : Graph J T D} {m m' : Machine J T D} {th th' : Runner J D} {j : J}
    {d : D} {rest : List D} (h : some (lockDependency G m th j d rest) = some (m', th')) :
    LocksFrom m m' th th' := by
  unfold lockDependency at h
  split at h
  case h_1 l live =>
      cases h
      refine ⟨le_rfl, fun l' member => ?_⟩
      rcases List.mem_append.mp member with old | new
      · exact Or.inl old
      · rw [List.mem_singleton.mp new]
        exact Or.inr (Or.inl (liveLock_owned live))
  case h_2 => split at h <;> exact .keep h rfl (List.Subset.refl _)

omit [DecidableEq J] in
theorem acquireTokens_locks {G : Graph J T D} {m m' : Machine J T D} {th th' : Runner J D} {j : J}
    {d : D} {rest : List D} (h : some (acquireTokens G m th j d rest) = some (m', th')) :
    LocksFrom m m' th th' := by
  unfold acquireTokens at h
  split at h
  · exact .keep h rfl (List.Subset.refl _)
  · split at h
    · exact .keep h rfl (List.Subset.refl _)
    · cases h
      refine ⟨by simp, fun l member => ?_⟩
      rcases List.mem_append.mp member with old | new
      · exact Or.inl old
      · rw [List.mem_singleton.mp new]
        exact Or.inr (Or.inr (by simp))

theorem pointStep_locks {G : Graph J T D} {i : ℕ} {m m' : Machine J T D} {th th' : Runner J D}
    {outcome : Outcome} (h : pointStep G i m th outcome = some (m', th')) : LocksFrom m m' th th' := by
  have refl := List.Subset.refl th.locks
  have locking {point : Point J D} (h : lockMutex i m th point = some (m', th')) :
      LocksFrom m m' th th' :=
    .keep (Option.ite_none_right_eq_some.mp h).2 rfl refl
  have dropping {l : ℕ} (h : destroyLock i m th l = some (m', th')) : LocksFrom m m' th th' := by
    obtain ⟨_, h⟩ := Option.ite_none_right_eq_some.mp h
    dsimp only at h
    split at h <;> exact .keep h rfl List.erase_subset
  unfold pointStep at h
  split at h
  case h_2 =>
      unfold registerJob at h
      split at h <;> exact .keep h rfl refl
  case h_6 | h_29 =>
      split at h <;> exact .keep h rfl refl
  case h_11 => exact lockDependency_locks h
  case h_12 => exact acquireTokens_locks h
  case h_16 | h_33 => exact .keep (Option.ite_none_right_eq_some.mp h).2 rfl refl
  case h_35 => cases h
  all_goals first
    | exact .keep h rfl refl
    | exact locking h
    | exact dropping h

/-- Every lock that a thread has is a Lock object that was constructed. -/
theorem locksConstructed_of_reachable {G : Graph J T D} {m : Machine J T D}
    (run : (machine G).Reachable m) : LocksConstructed m := by
  refine run.invariant LocksConstructed ?_ fun m a m' before next constructed => ?_
  · rintro _ rfl th member
    cases member
  · have sound := mutexSound_of_reachable before
    have grown : m.lockObjects.length ≤ m'.lockObjects.length := by
      cases a with
      | submit j => exact Option.some.inj next ▸ le_rfl
      | visit => exact Option.some.inj next ▸ le_rfl
      | signal again => exact Option.some.inj next ▸ le_rfl
      | thread i outcome =>
          obtain ⟨th, at_i, ⟨c, rest, m₁, calls, head, h, rfl⟩ | ⟨m₁, th₁, returned, h, rfl⟩⟩ :=
            thread_cases next
          · exact (callStep_moves_of_sound sound at_i head h).objects.symm ▸ le_rfl
          · exact (pointStep_locks h).1
    refine threads_step (fun th => ∀ l ∈ th.locks, l < m'.lockObjects.length) sound next ?_ ?_ ?_ ?_
    · exact fun th member l held => (constructed th member l held).trans_le grown
    · intro point _ l held
      cases held
    · rintro i outcome th c rest m₁ calls rfl at_i head moves l held
      exact (constructed th (List.mem_of_getElem? at_i) l held).trans_le grown
    · rintro i outcome th m₁ th₁ rfl at_i returned h rfl l held
      rcases (pointStep_locks h).2 l held with old | ⟨x, member, owned⟩ | new
      · exact (constructed th (List.mem_of_getElem? at_i) l old).trans_le grown
      · exact (constructed x member l owned).trans_le grown
      · exact new

/-- A step that does not meet the condition leads to a release without the mutex. -/
theorem abortsShared_of_disciplined {G : Graph J T D} {m m' : Machine J T D} {a : MachineAction J}
    (sound : MutexSound m) (constructed : LocksConstructed m) (next : m.step G a = some m')
    (after : Disciplined m') : AbortsShared m a := by
  unfold AbortsShared
  split
  case h_2 => trivial
  case h_1 i l =>
      intro th at_i abandons
      by_contra last
      obtain ⟨_, at_i', step⟩ := thread_cases next
      cases at_i.symm.trans at_i'
      have inRange := (List.getElem?_eq_some_iff.mp at_i).1
      rcases step with ⟨c, rest, m₁, calls, head, _⟩ | ⟨m₁, th₁, returned, h, rfl⟩
      · simp [Runner.abandons, head] at abandons
      · cases point : th.point <;>
          simp only [Runner.abandons, returned, point, Bool.false_eq_true] at abandons
        obtain ⟨held, rfl, calls⟩ := abandoned returned point h
        have known : l < m₁.lockObjects.length := constructed th (List.mem_of_getElem? at_i) l held
        rw [if_neg last, List.getElem?_eq_getElem known] at calls
        have owned : m₁.mutex = some i :=
          after i th₁ (List.getElem?_set_self inRange) (by simp [Runner.needsMutex, calls, Call.guarded])
        obtain ⟨_, at_i'', holds⟩ := (sound.owner i).mp owned
        cases at_i.symm.trans at_i''
        simp [Runner.holds, returned, ownsFirst, point, Point.holds] at holds

/-- One job with two dependencies of one token each on one token. -/
def tokenPair (limit : UInt32) : Graph Unit Unit (Fin 2) where
  dependencies _ := [0, 1]
  origin _ := .token ()
  target _ := ()
  value _ := 1
  limit _ := limit
  jobId _ := "job"
  address d := d
  mem_dependencies d j := by
    cases j
    revert d
    decide
  nodup j := by simp
  length_lt j := by simp
  acyclic j cycle := by
    obtain ⟨_, ⟨d, _, origin⟩, _⟩ := Relation.TransGen.head'_iff.mp cycle
    cases origin

/-- There is one token. The job gets it for its first dependency, is refused one for the second, and gives
    it back without the mutex. -/
theorem released_without_mutex : ∃ m, (machine (tokenPair 1)).Reachable m ∧ ¬ Disciplined m := by
  have executed : ((TransitionSystem.runActions (Machine.step (tokenPair 1))
      [.submit (), .thread 0 .go, .thread 0 .go, .thread 0 .go, .thread 0 .go, .thread 0 .go, .thread 0 .go,
        .thread 0 .go, .thread 0 .go, .thread 0 .go, .thread 0 .go, .thread 0 .go, .thread 0 .go,
        .thread 0 .go, .thread 1 .go, .thread 1 .go, .thread 1 .go, .thread 1 .go, .thread 1 .go,
        .thread 1 .go, .thread 1 .go, .thread 1 .go, .thread 1 .go, .thread 1 .go, .thread 1 (.destroy 0)]
      (Machine.initial (tokenPair 1))).map fun m => (m.mutex, m.threads[1]?.map Runner.needsMutex)) =
        some (none, some true) := by decide
  obtain ⟨m, run, seen⟩ := TransitionSystem.exists_reachable_of_runActions executed
  obtain ⟨unowned, needs⟩ := Prod.mk.inj seen
  obtain ⟨th, at_1, needs⟩ := Option.map_eq_some_iff.mp needs
  refine ⟨m, run, fun disciplined => ?_⟩
  rw [disciplined 1 th at_1 needs] at unowned
  cases unowned

/-- In a run where every lock that an aborted start gives up still has an owner, the checks, acquisitions
    and releases are made by the thread that has the mutex; the first step of another kind leads to a
    release without it. -/
theorem lock_discipline {G : Graph J T D} {m : Machine J T D} (run : (machine G).RunUnder AbortsShared m) :
    Disciplined m ∧ ∀ a m', m.step G a = some m' → (Disciplined m' ↔ AbortsShared m a) := by
  refine ⟨disciplined_of_runUnder run, fun a m' next => ⟨fun after => ?_, fun met => ?_⟩⟩
  · exact abortsShared_of_disciplined (mutexSound_of_reachable run.reachable)
      (locksConstructed_of_reachable run.reachable) next after
  · exact disciplined_of_runUnder (.step run met next)

/-- There are two tokens: the job gets them, cannot lock its lock file, and gives them back. -/
theorem lock_discipline_pair :
    ∃ m, (machine (tokenPair 2)).RunUnder AbortsShared m ∧
      (∃ th ∈ m.threads[1]?, th.needsMutex ∧ th.calls = [.release 0]) ∧ Disciplined m := by
  have executed : ((TransitionSystem.runActions
      (TransitionSystem.guarded AbortsShared (Machine.step (tokenPair 2)))
      [.submit (), .thread 0 .go, .thread 0 .go, .thread 0 .go, .thread 0 .go, .thread 0 .go, .thread 0 .go,
        .thread 0 .go, .thread 0 .go, .thread 0 .go, .thread 0 .go, .thread 0 .go, .thread 0 .go,
        .thread 0 .go, .thread 1 .go, .thread 1 .go, .thread 1 .go, .thread 1 .go, .thread 1 .go,
        .thread 1 .go, .thread 1 .go, .thread 1 .timeout, .thread 1 .go, .thread 1 .go, .thread 1 .go,
        .thread 1 .go, .thread 1 (.destroy 0)]
      (Machine.initial (tokenPair 2))).map fun m => m.threads[1]?.map Runner.calls) =
        some (some [.release 0]) := by decide
  obtain ⟨m, run, seen⟩ := TransitionSystem.exists_runUnder_of_runActions executed
  obtain ⟨th, at_1, releases⟩ := Option.map_eq_some_iff.mp seen
  refine ⟨m, run, ⟨th, at_1, by simp [Runner.needsMutex, releases, Call.guarded], releases⟩, ?_⟩
  exact (lock_discipline run).1

end Experimaestro.Scheduler

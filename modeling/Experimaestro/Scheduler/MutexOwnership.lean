/-
Module: Experimaestro.Scheduler.MutexOwnership
Layer: Scheduler
Purpose: Which thread has `WORKSPACE_MUTEX`. The point a thread has reached says whether it is inside a
  critical section, and so do its calls where `Job::start` locks the mutex itself after an exit signal:
  `Runner.holds`. In every run the thread that has locked the mutex is the one that holds it
  (`MutexSound`). What one operation can do is said once, for the calls by `CallMoves` and for the points
  by `PointMoves`; `threads_step` turns these into invariants of the records of the threads.
Imports: Experimaestro.Scheduler.Machine
Trusted boundary: none (fully proved)
Main exports: Runner.holds, MutexSound, CallMoves, callStep_moves, PointMoves, pointStep_moves,
  thread_cases, mutexSound_of_reachable, threads_step
Open obligations: none
-/
import Mathlib.Data.List.Basic
import Mathlib.Tactic.Common
import Experimaestro.Scheduler.Machine

namespace Experimaestro.Scheduler

variable {J T D : Type} [DecidableEq J] [DecidableEq T] [DecidableEq D]

/-! ### Who is inside a critical section -/

/-- The point is inside a critical section. -/
def Point.holds : Point J D → Bool
  | .submitRegister _ | .submitDependencies _ _ | .submitUnlock _ _ | .visitUnlock | .locking _ _
  | .acquiring _ _ _ | .abortState _ | .abortUnlock _ | .probe _ _ | .alreadyDone _ | .mainLock _
  | .startLockFile _ | .launched _ | .runUnlock _ | .complete _ | .releasing _ | .releaseUnlock _ => true
  | .waitProcess _ owns | .finish _ owns _ | .leaveRun _ owns => owns
  | .submitLock _ | .submitReady _ | .visitLock | .startLock _ | .abortRelease _ | .relock _ | .exited =>
      false

/-- The call is inside the critical section of a start after an exit signal. -/
def Call.owns : Call J D → Bool
  | .writeError _ | .unlockForError => true
  | _ => false

/-- The call locks the mutex. -/
def Call.locks : Call J D → Bool
  | .lockForError _ => true
  | _ => false

/-- The next operation is inside such a critical section. -/
def ownsFirst : List (Call J D) → Bool
  | [] => false
  | c :: _ => c.owns

/-- The thread is inside a critical section. -/
def Runner.holds (th : Runner J D) : Bool := ownsFirst th.calls || th.point.holds

/-- A critical section inside the calls of a thread is entered by the next operation only, and by a
    thread that is in no other one. -/
structure Runner.Sound (th : Runner J D) : Prop where
  tail : ∀ c ∈ th.calls.tail, c.owns = false
  alone : ownsFirst th.calls → th.point.holds = false

/-- The thread that has locked the mutex is the one inside a critical section. -/
structure MutexSound (m : Machine J T D) : Prop where
  owner : ∀ i, m.mutex = some i ↔ ∃ th, m.threads[i]? = some th ∧ th.holds
  threads : ∀ th ∈ m.threads, th.Sound

/-- What an operation of thread `i` does to the mutex: nothing, or it locks it where it is free and is
    inside a critical section then, or it unlocks it where it leaves one. -/
inductive MutexMove (i : ℕ) : Option ℕ → Option ℕ → Bool → Bool → Prop where
  | keep (mutex : Option ℕ) (holds : Bool) : MutexMove i mutex mutex holds holds
  | take (holds : Bool) : MutexMove i none (some i) holds true
  | give (mutex : Option ℕ) : MutexMove i mutex none true false

omit [DecidableEq J] [DecidableEq D] in
/-- The threads after one operation: the record of thread `i` is replaced, and threads may have been
    created. -/
theorem getElem?_replaced {threads new : List (Runner J D)} {i k : ℕ} {th x : Runner J D}
    (h : ((threads ++ new).set i th)[k]? = some x) :
    (k = i ∧ x = th) ∨ (k ≠ i ∧ (threads[k]? = some x ∨ x ∈ new)) := by
  rw [List.getElem?_set] at h
  by_cases same : i = k
  · rw [if_pos same] at h
    split at h
    · exact Or.inl ⟨same.symm, (Option.some.inj h).symm⟩
    · cases h
  · rw [if_neg same, List.getElem?_append] at h
    refine Or.inr ⟨fun equal => same equal.symm, ?_⟩
    split at h
    · exact Or.inl h
    · exact Or.inr (List.mem_of_getElem? h)

/-- Who has the mutex after an operation of thread `i`: for this thread its flag tells. -/
theorem MutexMove.owner_self {i : ℕ} {mutex mutex' : Option ℕ} {holds holds' : Bool}
    (moved : MutexMove i mutex mutex' holds holds') (before : mutex = some i ↔ holds) :
    mutex' = some i ↔ holds' := by
  cases moved with
  | keep => exact before
  | take => simp
  | give => simp

/-- Another thread has it if it had it. -/
theorem MutexMove.owner_other {i k : ℕ} {mutex mutex' : Option ℕ} {holds holds' : Bool}
    (moved : MutexMove i mutex mutex' holds holds') (before : mutex = some i ↔ holds) (ne : k ≠ i) :
    mutex' = some k ↔ mutex = some k := by
  cases moved with
  | keep => exact Iff.rfl
  | take => simp [Ne.symm ne]
  | give => simp [before.mpr rfl, Ne.symm ne]

omit [DecidableEq T] [DecidableEq J] [DecidableEq D] in
/-- An operation that moves the mutex as it moves its thread keeps the threads and the mutex in
    agreement. -/
theorem MutexSound.move {m m' : Machine J T D} {i : ℕ} {th : Runner J D} (th' : Runner J D)
    (new : List (Runner J D)) (sound : MutexSound m) (at_i : m.threads[i]? = some th)
    (threads : m'.threads = (m.threads ++ new).set i th')
    (moved : MutexMove i m.mutex m'.mutex th.holds th'.holds) (kept : th'.Sound)
    (created : ∀ x ∈ new, x.holds = false ∧ x.Sound) : MutexSound m' := by
  have inRange := (List.getElem?_eq_some_iff.mp at_i).1
  have there : m'.threads[i]? = some th' := by
    rw [threads, List.getElem?_set_self (by rw [List.length_append]; omega)]
  have other {k : ℕ} (ne : k ≠ i) {x : Runner J D} (at_k : m.threads[k]? = some x) :
      m'.threads[k]? = some x := by
    rw [threads, List.getElem?_set_ne (Ne.symm ne),
      List.getElem?_append_left (List.getElem?_eq_some_iff.mp at_k).1]
    exact at_k
  have before : m.mutex = some i ↔ th.holds := by simp [sound.owner i, at_i]
  refine ⟨fun k => ?_, fun x member => ?_⟩
  · by_cases same : k = i
    · simp [same, there, moved.owner_self before]
    · rw [moved.owner_other before same, sound.owner k]
      constructor
      · rintro ⟨x, at_k, holds⟩
        exact ⟨x, other same at_k, holds⟩
      · rintro ⟨x, at_k, holds⟩
        rw [threads] at at_k
        rcases getElem?_replaced at_k with ⟨equal, _⟩ | ⟨_, old | fresh⟩
        · exact absurd equal same
        · exact ⟨x, old, holds⟩
        · rw [(created x fresh).1] at holds
          cases holds
  · obtain ⟨k, at_k⟩ := List.mem_iff_getElem?.mp member
    rw [threads] at at_k
    rcases getElem?_replaced at_k with ⟨_, rfl⟩ | ⟨_, old | fresh⟩
    · exact kept
    · exact sound.threads x (List.mem_of_getElem? old)
    · exact (created x fresh).2

/-! ### What one operation does -/

/-- The threads that calls create are start threads. -/
def Created (new : List (Runner J D)) : Prop :=
  ∀ x ∈ new, ∃ j, x = { point := .startLock j, calls := [], locks := [] }

omit [DecidableEq J] [DecidableEq D] in
theorem Created.idle {new : List (Runner J D)} (created : Created new) :
    ∀ x ∈ new, x.holds = false ∧ x.Sound := by
  intro x member
  obtain ⟨j, rfl⟩ := created x member
  exact ⟨rfl, nofun, nofun⟩

omit [DecidableEq J] [DecidableEq D] in
theorem ownsFirst_eq_false {calls : List (Call J D)} (outside : ∀ c ∈ calls, c.owns = false) :
    ownsFirst calls = false := by
  cases calls with
  | nil => rfl
  | cons c rest => exact outside c (List.mem_cons_self ..)

/-- The calls that a call makes. -/
inductive CallCall (G : Graph J T D) (exitMode : ExitMode) : Call J D → Call J D → Prop where
  | changed {d : D} {old new : DependencyStatus} :
      CallCall G exitMode (.check d) (.dependencyChanged d old new)
  | recorded {d : D} {new : DependencyStatus} : CallCall G exitMode (.check d) (.record d new)
  | failed {d : D} {old : DependencyStatus} :
      CallCall G exitMode (.dependencyChanged d old .fail) (.jobCompleted (G.target d))
  | ready {d : D} {old new : DependencyStatus} :
      CallCall G exitMode (.dependencyChanged d old new) (.start (G.target d))
  | notified {j : J} {d : D} : CallCall G exitMode (.jobCompleted j) (.check d)
  | released {d e : D} : CallCall G exitMode (.release d) (.check e)
  | signalled {j : J} (exit : exitMode ≠ .none) : CallCall G exitMode (.start j) (.lockForError j)
  | locked {j : J} : CallCall G exitMode (.lockForError j) (.writeError j)
  | written {j : J} : CallCall G exitMode (.writeError j) .unlockForError

/-- The state of a job that a call writes. -/
def Call.writes : Call J D → Option (J × JobState)
  | .writeError j => some (j, .error)
  | _ => none

/-- What an operation inside the calls of thread `i` can do; `inside` is the flag of the point. -/
structure CallMoves (G : Graph J T D) (i : ℕ) (m m' : Machine J T D) (c : Call J D)
    (rest calls : List (Call J D)) (inside : Bool) : Prop where
  threads : ∃ new, m'.threads = m.threads ++ new ∧ Created new
  mutex : MutexMove i m.mutex m'.mutex (c.owns || inside) (ownsFirst calls || inside)
  state : m'.state = c.writes.elim m.state fun write => Function.update m.state write.1 write.2
  objects : m'.lockObjects = m.lockObjects
  made : ∀ c' ∈ calls, c' ∈ rest ∨ CallCall G m.exitMode c c'
  tail : ∀ c ∈ calls.tail, c.owns = false
  alone : ownsFirst calls → inside = false

omit [DecidableEq T] [DecidableEq D] in
/-- An operation inside the calls that leaves the mutex and the states alone, and whose calls are outside
    critical sections of their own. -/
theorem CallMoves.outside {G : Graph J T D} {i : ℕ} {m m' : Machine J T D} {c : Call J D}
    {rest : List (Call J D)} {inside : Bool} (first : List (Call J D))
    (threads : ∃ new, m'.threads = m.threads ++ new ∧ Created new) (mutex : m'.mutex = m.mutex)
    (state : m'.state = m.state) (objects : m'.lockObjects = m.lockObjects) (owns : c.owns = false)
    (writes : c.writes = none)
    (outside : ∀ c ∈ rest, c.owns = false)
    (made : ∀ c' ∈ first, CallCall G m.exitMode c c' ∧ c'.owns = false) :
    CallMoves G i m m' c rest (first ++ rest) inside := by
  have all : ∀ c' ∈ first ++ rest, c'.owns = false := by
    intro c' member
    rcases List.mem_append.mp member with here | there
    · exact (made c' here).2
    · exact outside c' there
  have none_first := ownsFirst_eq_false all
  refine ⟨threads, ?_, by simp [state, writes], objects, fun c' member => ?_,
    fun c' member => all c' (List.mem_of_mem_tail member), fun own => ?_⟩
  · rw [mutex, owns, none_first]
    exact .keep _ _
  · exact (List.mem_append.mp member).symm.imp_right fun here => (made c' here).1
  · rw [none_first] at own
    cases own

omit [DecidableEq T] [DecidableEq D] in
/-- Such a call that makes no other calls. -/
theorem CallMoves.silent {G : Graph J T D} {i : ℕ} {m m' : Machine J T D} {c : Call J D}
    {rest : List (Call J D)} {inside : Bool} (threads : ∃ new, m'.threads = m.threads ++ new ∧ Created new)
    (mutex : m'.mutex = m.mutex) (state : m'.state = m.state) (objects : m'.lockObjects = m.lockObjects)
    (owns : c.owns = false) (writes : c.writes = none) (outside : ∀ c ∈ rest, c.owns = false) :
    CallMoves G i m m' c rest rest inside :=
  .outside [] threads mutex state objects owns writes outside (List.forall_mem_nil _)

theorem callStep_moves {G : Graph J T D} {i : ℕ} {m m' : Machine J T D} {c : Call J D}
    {rest calls : List (Call J D)} (inside : Bool) (outside : ∀ c ∈ rest, c.owns = false)
    (alone : c.owns → inside = false) (free : m.mutex = none → inside = false)
    (h : callStep G i m rest c = some (m', calls)) : CallMoves G i m m' c rest calls inside := by
  have same : ∃ new, m.threads = m.threads ++ new ∧ Created new :=
    ⟨[], (List.append_nil _).symm, List.forall_mem_nil _⟩
  have checked {r : Resource J T} (made : ∀ d, CallCall G m.exitMode c (.check d)) :
      ∀ c' ∈ checks G m r, CallCall G m.exitMode c c' ∧ c'.owns = false := by
    intro c' member
    obtain ⟨d, _, rfl⟩ := List.mem_map.mp member
    exact ⟨made d, rfl⟩
  cases c with
  | check d =>
      simp only [callStep] at h
      split at h
      · obtain ⟨rfl, rfl⟩ := h
        exact .silent same rfl rfl rfl rfl rfl outside
      · split at h
        · obtain ⟨rfl, rfl⟩ := h
          exact .silent same rfl rfl rfl rfl rfl outside
        · obtain ⟨rfl, rfl⟩ := h
          refine .outside [_, _] same rfl rfl rfl rfl rfl outside fun c' member => ?_
          rcases List.mem_pair.mp member with rfl | rfl
          · exact ⟨.changed, rfl⟩
          · exact ⟨.recorded, rfl⟩
  | dependencyChanged d old new =>
      simp only [callStep] at h
      split at h
      case isTrue failed =>
          obtain ⟨rfl, rfl⟩ := h
          refine .outside [_] same rfl rfl rfl rfl rfl outside fun c' member => ?_
          cases failed
          exact List.mem_singleton.mp member ▸ ⟨.failed, rfl⟩
      case isFalse =>
          split at h
          · obtain ⟨rfl, rfl⟩ := h
            refine .outside [_] same rfl rfl rfl rfl rfl outside fun c' member => ?_
            exact List.mem_singleton.mp member ▸ ⟨.ready, rfl⟩
          · obtain ⟨rfl, rfl⟩ := h
            exact .silent same rfl rfl rfl rfl rfl outside
  | record d new =>
      obtain ⟨rfl, rfl⟩ := h
      exact .silent same rfl rfl rfl rfl rfl outside
  | jobCompleted j =>
      obtain ⟨rfl, rfl⟩ := h
      exact .outside _ same rfl rfl rfl rfl rfl outside (checked fun _ => .notified)
  | start j =>
      simp only [callStep] at h
      split at h
      case isTrue =>
          obtain ⟨rfl, rfl⟩ := h
          refine .silent ⟨_, rfl, fun x member => ?_⟩ rfl rfl rfl rfl rfl outside
          exact ⟨j, List.mem_singleton.mp member⟩
      case isFalse exit =>
          obtain ⟨rfl, rfl⟩ := h
          refine .outside [_] same rfl rfl rfl rfl rfl outside fun c' member => ?_
          exact List.mem_singleton.mp member ▸ ⟨.signalled exit, rfl⟩
  | lockForError j =>
      simp only [callStep, Option.ite_none_right_eq_some, Option.some.injEq, Prod.mk.injEq] at h
      obtain ⟨unlocked, rfl, rfl⟩ := h
      refine ⟨same, ?_, rfl, rfl, fun c' member => ?_, outside, fun _ => free unlocked⟩
      · rw [unlocked]
        exact .take _
      · rcases List.mem_cons.mp member with rfl | there
        · exact Or.inr .locked
        · exact Or.inl there
  | writeError j =>
      obtain ⟨rfl, rfl⟩ := h
      refine ⟨same, .keep _ _, rfl, rfl, fun c' member => ?_, outside, fun _ => alone rfl⟩
      rcases List.mem_cons.mp member with rfl | there
      · exact Or.inr .written
      · exact Or.inl there
  | unlockForError =>
      obtain ⟨rfl, rfl⟩ := h
      have none_first := ownsFirst_eq_false outside
      refine ⟨same, ?_, rfl, rfl, fun _ => Or.inl, fun c member => outside c (List.mem_of_mem_tail member),
        fun own => ?_⟩
      · rw [alone rfl, none_first]
        exact .give _
      · rw [none_first] at own
        cases own
  | release d =>
      simp only [callStep] at h
      split at h
      · obtain ⟨rfl, rfl⟩ := h
        exact .silent same rfl rfl rfl rfl rfl outside
      · obtain ⟨rfl, rfl⟩ := h
        exact .outside _ same rfl rfl rfl rfl rfl outside (checked fun _ => .released)

/-- The calls that the operation of a point makes. -/
inductive PointCall : Point J D → Outcome → Call J D → Prop where
  | registered {j : J} {d : D} {rest : List D} : PointCall (.submitDependencies j (d :: rest)) .go (.check d)
  | ready {j : J} : PointCall (.submitReady j) .go (.start j)
  | refused {j : J} {d : D} {rest : List D} : PointCall (.acquiring j d rest) .go (.check d)
  | found {j : J} : PointCall (.alreadyDone j) .go (.jobCompleted j)
  | returned {j : J} : PointCall (.complete j) .go (.jobCompleted j)
  | aborted {j : J} {l : ℕ} {d : D} : PointCall (.abortRelease j) (.destroy l) (.release d)
  | released {j : J} {l : ℕ} {d : D} : PointCall (.releasing j) (.destroy l) (.release d)

omit [DecidableEq J] [DecidableEq D] in
theorem PointCall.locks {point : Point J D} {outcome : Outcome} {c : Call J D}
    (made : PointCall point outcome c) : c.locks = false := by
  cases made <;> rfl

omit [DecidableEq J] [DecidableEq D] in
theorem PointCall.owns {point : Point J D} {outcome : Outcome} {c : Call J D}
    (made : PointCall point outcome c) : c.owns = false := by
  cases made <;> rfl

/-- The state of a job that the operation of the point writes. -/
def Point.writes : Point J D → Option (J × JobState)
  | .abortState j => some (j, .ready)
  | .alreadyDone j => some (j, .done)
  | .launched j => some (j, .running)
  | .finish j _ success => some (j, if success then .done else .error)
  | _ => none

/-- The states in which a job has finished: what `Job::wait` waits for. -/
def JobState.final : JobState → Bool
  | .error | .done => true
  | .waiting | .ready | .running => false

/-- The job for which a thread that is back from `run()` will call `jobCompleted`. -/
def Point.owes : Point J D → Option J
  | .leaveRun j _ | .relock j | .complete j => some j
  | _ => none

/-- The thread waits for the process that it has started, and has kept the mutex. -/
def Point.waits : Point J D → Bool
  | .waitProcess _ owns => owns
  | _ => false

omit [DecidableEq J] [DecidableEq D] in
theorem Point.ne_waitProcess {point : Point J D} (waits : point.waits = false) (j : J) :
    point ≠ .waitProcess j true := by
  rintro rfl
  cases waits

/-- What the operation of a point can do. -/
structure PointMoves (i : ℕ) (m m' : Machine J T D) (th th' : Runner J D) (outcome : Outcome) : Prop where
  threads : m'.threads = m.threads
  mutex : MutexMove i m.mutex m'.mutex th.point.holds th'.point.holds
  state : m'.state = th.point.writes.elim m.state fun write => Function.update m.state write.1 write.2
  made : ∀ c ∈ th'.calls, PointCall th.point outcome c
  inside : th'.calls ≠ [] → th'.point.holds = th.point.holds
  process : ∀ j, th'.point = .waitProcess j true →
    outcome = .pickedUp ∧ ∃ second, th.point = .probe j second
  owes : ∀ j, th'.point.owes = some j →
    th.point.owes = some j ∨ (∃ new, th.point.writes = some (j, new) ∧ new.final) ∨
    outcome = .timeout ∧ (th.point = .mainLock j ∨ th.point = .startLockFile j)

omit [DecidableEq T] [DecidableEq D] in
/-- An operation that leaves the mutex alone and stays on the same side of it. -/
theorem PointMoves.inPlace {i : ℕ} {m m₁ m' : Machine J T D} {th th₁ th' : Runner J D} {outcome : Outcome}
    (h : some (m₁, th₁) = some (m', th')) (threads : m₁.threads = m.threads) (mutex : m₁.mutex = m.mutex)
    (holds : th₁.point.holds = th.point.holds)
    (state : m₁.state = th.point.writes.elim m.state fun write => Function.update m.state write.1 write.2)
    (calls : ∀ c ∈ th₁.calls, PointCall th.point outcome c) (waits : th₁.point.waits = false)
    (owes : ∀ j, th₁.point.owes = some j →
      th.point.owes = some j ∨ (∃ new, th.point.writes = some (j, new) ∧ new.final) ∨
      outcome = .timeout ∧ (th.point = .mainLock j ∨ th.point = .startLockFile j)) :
    PointMoves i m m' th th' outcome := by
  obtain ⟨rfl, rfl⟩ := h
  refine ⟨threads, ?_, state, calls, fun _ => holds, fun j here => ?_, owes⟩
  · rw [mutex, holds]
    exact .keep _ _
  · exact absurd here (Point.ne_waitProcess waits j)

omit [DecidableEq T] [DecidableEq D] in
/-- Besides, it does not come near the end of `run()`. -/
theorem PointMoves.stay {i : ℕ} {m m₁ m' : Machine J T D} {th th₁ th' : Runner J D} {outcome : Outcome}
    (h : some (m₁, th₁) = some (m', th')) (threads : m₁.threads = m.threads) (mutex : m₁.mutex = m.mutex)
    (holds : th₁.point.holds = th.point.holds)
    (state : m₁.state = th.point.writes.elim m.state fun write => Function.update m.state write.1 write.2)
    (calls : ∀ c ∈ th₁.calls, PointCall th.point outcome c) (waits : th₁.point.waits = false)
    (owes : th₁.point.owes = none) : PointMoves i m m' th th' outcome := by
  apply PointMoves.inPlace h threads mutex holds state calls waits
  intro j owed
  rw [owes] at owed
  cases owed

omit [DecidableEq T] [DecidableEq D] in
/-- Besides, it makes no calls. -/
theorem PointMoves.quiet {i : ℕ} {m m₁ m' : Machine J T D} {th th₁ th' : Runner J D} {outcome : Outcome}
    (h : some (m₁, th₁) = some (m', th')) (threads : m₁.threads = m.threads) (mutex : m₁.mutex = m.mutex)
    (holds : th₁.point.holds = th.point.holds)
    (state : m₁.state = th.point.writes.elim m.state fun write => Function.update m.state write.1 write.2)
    (calls : th₁.calls = []) (waits : th₁.point.waits = false) (owes : th₁.point.owes = none) :
    PointMoves i m m' th th' outcome := by
  apply PointMoves.stay h threads mutex holds state _ waits owes
  rw [calls]
  exact List.forall_mem_nil _

omit [DecidableEq J] in
theorem owes_of_eq {before after : Option J} (owes : after = none ∨ after = before) (j : J)
    (owed : after = some j) : before = some j := by
  cases owes with
  | inl nothing =>
      rw [nothing] at owed
      cases owed
  | inr same => exact same ▸ owed

omit [DecidableEq T] [DecidableEq D] in
theorem lockMutex_moves {i : ℕ} {m m' : Machine J T D} {th th' : Runner J D} {outcome : Outcome}
    {point : Point J D} (h : lockMutex i m th point = some (m', th')) (returned : th.calls = [])
    (holds : point.holds) (writes : th.point.writes = none) (waits : point.waits = false)
    (owes : point.owes = none ∨ point.owes = th.point.owes) : PointMoves i m m' th th' outcome := by
  simp only [lockMutex, Option.ite_none_right_eq_some, Option.some.injEq, Prod.mk.injEq] at h
  obtain ⟨free, rfl, rfl⟩ := h
  refine ⟨rfl, ?_, by simp [writes], by simp [returned], fun made => absurd returned made,
    fun j here => absurd here (Point.ne_waitProcess waits j), fun j owed => Or.inl (owes_of_eq owes j owed)⟩
  simp only [free, holds]
  exact .take _

omit [DecidableEq T] [DecidableEq D] in
theorem unlockMutex_moves {i : ℕ} {m m' : Machine J T D} {th th' : Runner J D} {outcome : Outcome}
    {point : Point J D} (h : unlockMutex m th point = some (m', th')) (returned : th.calls = [])
    (before : th.point.holds) (after : point.holds = false) (writes : th.point.writes = none)
    (owes : point.owes = none ∨ point.owes = th.point.owes) : PointMoves i m m' th th' outcome := by
  obtain ⟨rfl, rfl⟩ := h
  refine ⟨rfl, ?_, by simp [writes], by simp [returned], fun made => absurd returned made,
    fun j waits => ?_, fun j owed => Or.inl (owes_of_eq owes j owed)⟩
  · simp only [before, after]
    exact .give _
  · simp only at waits
    rw [waits] at after
    cases after

omit [DecidableEq T] [DecidableEq D] in
theorem destroyLock_moves {i l : ℕ} {m m' : Machine J T D} {th th' : Runner J D}
    (h : destroyLock i m th l = some (m', th')) (returned : th.calls = []) (writes : th.point.writes = none)
    (release : ∀ d, PointCall th.point (.destroy l) (.release d)) (waits : th.point.waits = false)
    (owes : th.point.owes = none) : PointMoves i m m' th th' (.destroy l) := by
  simp only [destroyLock, Option.ite_none_right_eq_some] at h
  obtain ⟨_, h⟩ := h
  split at h
  · exact .quiet h rfl rfl rfl (by simp [writes]) returned waits owes
  · refine .stay h rfl rfl rfl (by simp [writes]) (fun c member => ?_) waits owes
    obtain ⟨d, _, rfl⟩ := List.mem_map.mp member
    exact release d

theorem pointStep_moves {G : Graph J T D} {i : ℕ} {m m' : Machine J T D} {th th' : Runner J D}
    {outcome : Outcome} (returned : th.calls = []) (h : pointStep G i m th outcome = some (m', th')) :
    PointMoves i m m' th th' outcome := by
  obtain ⟨point, calls, locks⟩ := th
  cases returned
  unfold pointStep at h
  dsimp only at h
  split at h
  -- Workspace::submit
  · exact lockMutex_moves h rfl rfl rfl rfl (.inl rfl)
  · unfold registerJob at h
    split at h
    · exact .quiet h rfl rfl rfl rfl rfl rfl rfl
    · exact .quiet h rfl rfl rfl rfl rfl rfl rfl
  · exact .quiet h rfl rfl rfl rfl rfl rfl rfl
  · refine .stay h rfl rfl rfl rfl (fun c member => ?_) rfl rfl
    exact List.mem_singleton.mp member ▸ .registered
  · rename_i added
    cases added
    · exact unlockMutex_moves h rfl rfl rfl rfl (.inl rfl)
    · exact unlockMutex_moves h rfl rfl rfl rfl (.inl rfl)
  · split at h
    · refine .stay h rfl rfl rfl rfl (fun c member => ?_) rfl rfl
      exact List.mem_singleton.mp member ▸ .ready
    · exact .quiet h rfl rfl rfl rfl rfl rfl rfl
  -- Workspace::kill, Workspace::refresh
  · exact lockMutex_moves h rfl rfl rfl rfl (.inl rfl)
  · exact unlockMutex_moves h rfl rfl rfl rfl (.inl rfl)
  -- The thread of Job::start
  · exact lockMutex_moves h rfl rfl rfl rfl (.inl rfl)
  · exact .quiet h rfl rfl rfl rfl rfl rfl rfl
  · unfold lockDependency at h
    split at h
    · exact .quiet h rfl rfl rfl rfl rfl rfl rfl
    · split at h
      · exact .quiet h rfl rfl rfl rfl rfl rfl rfl
      · exact .quiet h rfl rfl rfl rfl rfl rfl rfl
  · unfold acquireTokens at h
    split at h
    · exact .quiet h rfl rfl rfl rfl rfl rfl rfl
    · split at h
      · refine .stay h rfl rfl rfl rfl (fun c member => ?_) rfl rfl
        exact List.mem_singleton.mp member ▸ .refused
      · exact .quiet h rfl rfl rfl rfl rfl rfl rfl
  · exact .quiet h rfl rfl rfl rfl rfl rfl rfl
  · exact unlockMutex_moves h rfl rfl rfl rfl (.inl rfl)
  · exact destroyLock_moves h rfl rfl (fun _ => .aborted) rfl rfl
  · obtain ⟨_, h⟩ := Option.ite_none_right_eq_some.mp h
    exact .quiet h rfl rfl rfl rfl rfl rfl rfl
  -- CommandLineJob::run
  · exact .quiet h rfl rfl rfl rfl rfl rfl rfl
  · obtain ⟨rfl, rfl⟩ := h
    refine ⟨rfl, .keep _ _, rfl, List.forall_mem_nil _, fun made => absurd rfl made, fun _ waits => ?_,
      fun _ owed => ?_⟩
    · cases waits
      exact ⟨rfl, _, rfl⟩
    · cases owed
  · rename_i second
    cases second
    · exact .quiet h rfl rfl rfl rfl rfl rfl rfl
    · exact .quiet h rfl rfl rfl rfl rfl rfl rfl
  · refine .inPlace h rfl rfl rfl rfl (fun c member => ?_) rfl fun _ owed => ?_
    · exact List.mem_singleton.mp member ▸ .found
    · cases owed
      exact Or.inr (Or.inl ⟨_, rfl, rfl⟩)
  · exact .quiet h rfl rfl rfl rfl rfl rfl rfl
  · refine .inPlace h rfl rfl rfl rfl (List.forall_mem_nil _) rfl fun _ owed => ?_
    cases owed
    exact Or.inr (Or.inr ⟨rfl, Or.inl rfl⟩)
  · exact .quiet h rfl rfl rfl rfl rfl rfl rfl
  · refine .inPlace h rfl rfl rfl rfl (List.forall_mem_nil _) rfl fun _ owed => ?_
    cases owed
    exact Or.inr (Or.inr ⟨rfl, Or.inr rfl⟩)
  · exact .quiet h rfl rfl rfl rfl rfl rfl rfl
  · exact unlockMutex_moves h rfl rfl rfl rfl (.inl rfl)
  · exact .quiet h rfl rfl rfl rfl rfl rfl rfl
  · rename_i success
    refine .inPlace h rfl rfl rfl rfl (List.forall_mem_nil _) rfl fun _ owed => ?_
    cases owed
    exact Or.inr (Or.inl ⟨_, rfl, by cases success <;> rfl⟩)
  -- The end of the thread of Job::start
  · rename_i owns
    cases owns
    · exact .inPlace h rfl rfl rfl rfl (List.forall_mem_nil _) rfl fun _ owed => Or.inl owed
    · exact unlockMutex_moves h rfl rfl rfl rfl (.inr rfl)
  · exact lockMutex_moves h rfl rfl rfl rfl (.inr rfl)
  · refine .stay h rfl rfl rfl rfl (fun c member => ?_) rfl rfl
    exact List.mem_singleton.mp member ▸ .returned
  · exact destroyLock_moves h rfl rfl (fun _ => .released) rfl rfl
  · obtain ⟨_, h⟩ := Option.ite_none_right_eq_some.mp h
    exact .quiet h rfl rfl rfl rfl rfl rfl rfl
  · exact unlockMutex_moves h rfl rfl rfl rfl (.inl rfl)
  · cases h

/-! ### The owner of the mutex -/

omit [DecidableEq T] [DecidableEq J] [DecidableEq D] in
theorem mutexSound_initial (G : Graph J T D) : MutexSound (Machine.initial G) where
  owner i := by simp [Machine.initial]
  threads _ member := by cases member

omit [DecidableEq T] [DecidableEq J] [DecidableEq D] in
/-- A new thread outside critical sections. -/
theorem MutexSound.spawn {m : Machine J T D} (sound : MutexSound m) {point : Point J D}
    (outside : point.holds = false) : MutexSound (m.spawn point) := by
  have idle : ({ point, calls := [], locks := [] } : Runner J D).holds = false := outside
  refine ⟨fun k => ?_, fun th member => ?_⟩
  · change m.mutex = some k ↔ _
    rw [sound.owner k]
    constructor
    · rintro ⟨th, at_k, holds⟩
      refine ⟨th, ?_, holds⟩
      rw [Machine.spawn, List.getElem?_append_left (List.getElem?_eq_some_iff.mp at_k).1]
      exact at_k
    · rintro ⟨th, at_k, holds⟩
      rw [Machine.spawn, List.getElem?_append] at at_k
      split at at_k
      · exact ⟨th, at_k, holds⟩
      · rw [List.mem_singleton.mp (List.mem_of_getElem? at_k), idle] at holds
        cases holds
  · rcases List.mem_append.mp member with old | new
    · exact sound.threads th old
    · rw [List.mem_singleton.mp new]
      exact ⟨nofun, nofun⟩

/-- A thread executes one operation: inside its calls, or at its point when they have returned. -/
theorem thread_cases {G : Graph J T D} {m m' : Machine J T D} {i : ℕ} {outcome : Outcome}
    (next : m.step G (.thread i outcome) = some m') :
    ∃ th, m.threads[i]? = some th ∧
      ((∃ c rest m₁ calls, th.calls = c :: rest ∧ callStep G i m rest c = some (m₁, calls) ∧
          m' = m₁.setRunner i { th with calls }) ∨
        ∃ m₁ th₁, th.calls = [] ∧ pointStep G i m th outcome = some (m₁, th₁) ∧
          m' = m₁.setRunner i th₁) := by
  simp only [Machine.step, Option.bind_eq_some_iff] at next
  obtain ⟨th, at_i, next⟩ := next
  refine ⟨th, at_i, ?_⟩
  cases calls : th.calls with
  | cons c rest =>
      simp only [calls, Option.map_eq_some_iff] at next
      obtain ⟨⟨m₁, left⟩, called, rfl⟩ := next
      exact Or.inl ⟨c, rest, m₁, left, rfl, called, rfl⟩
  | nil =>
      simp only [calls, Option.map_eq_some_iff] at next
      obtain ⟨⟨m₁, th₁⟩, stepped, rfl⟩ := next
      exact Or.inr ⟨m₁, th₁, rfl, stepped, rfl⟩

omit [DecidableEq T] [DecidableEq J] [DecidableEq D] in
/-- A thread at a point inside a critical section has the mutex. -/
theorem MutexSound.owned_of_inside {m : Machine J T D} {i : ℕ} {th : Runner J D} (sound : MutexSound m)
    (at_i : m.threads[i]? = some th) (inside : th.point.holds) : m.mutex = some i :=
  (sound.owner i).mpr ⟨th, at_i, by simp [Runner.holds, inside]⟩

/-- What an operation inside the calls of a thread does where threads and mutex agree. -/
theorem callStep_moves_of_sound {G : Graph J T D} {m m₁ : Machine J T D} {i : ℕ} {th : Runner J D}
    {c : Call J D} {rest calls : List (Call J D)} (sound : MutexSound m) (at_i : m.threads[i]? = some th)
    (head : th.calls = c :: rest) (h : callStep G i m rest c = some (m₁, calls)) :
    CallMoves G i m m₁ c rest calls th.point.holds := by
  have good := sound.threads th (List.mem_of_getElem? at_i)
  refine callStep_moves _ (by simpa [head] using good.tail) (by simpa [head, ownsFirst] using good.alone)
    (fun free => ?_) h
  by_contra holds
  have owned := sound.owned_of_inside at_i (by simpa using holds)
  rw [free] at owned
  cases owned

theorem mutexSound_step {G : Graph J T D} {m m' : Machine J T D} {a : MachineAction J}
    (sound : MutexSound m) (next : m.step G a = some m') : MutexSound m' := by
  cases a with
  | submit j => exact Option.some.inj next ▸ sound.spawn rfl
  | visit => exact Option.some.inj next ▸ sound.spawn rfl
  | signal again => exact Option.some.inj next ▸ ⟨sound.owner, sound.threads⟩
  | thread i outcome =>
      obtain ⟨th, at_i, ⟨c, rest, m₁, calls, called, h, rfl⟩ | ⟨m₁, th₁, returned, h, rfl⟩⟩ :=
        thread_cases next
      · have flag : th.holds = (c.owns || th.point.holds) := by simp [Runner.holds, called, ownsFirst]
        have moves := callStep_moves_of_sound sound at_i called h
        obtain ⟨new, threads, created⟩ := moves.threads
        refine sound.move { th with calls } new at_i ?_ ?_ ?_ created.idle
        · rw [Machine.setRunner, threads]
        · rw [flag]
          exact moves.mutex
        · exact ⟨moves.tail, moves.alone⟩
      · have moves := pointStep_moves returned h
        have made : ∀ c ∈ th₁.calls, c.owns = false := fun c member => (moves.made c member).owns
        refine sound.move th₁ [] at_i ?_ ?_ ?_ nofun
        · rw [Machine.setRunner, moves.threads, List.append_nil]
        · have before : th.holds = th.point.holds := by simp [Runner.holds, returned, ownsFirst]
          have after : th₁.holds = th₁.point.holds := by simp [Runner.holds, ownsFirst_eq_false made]
          rw [before, after]
          exact moves.mutex
        · refine ⟨fun c member => made c (List.mem_of_mem_tail member), fun own => ?_⟩
          rw [ownsFirst_eq_false made] at own
          cases own

theorem mutexSound_of_reachable {G : Graph J T D} {m : Machine J T D} (run : (machine G).Reachable m) :
    MutexSound m := by
  refine run.invariant MutexSound ?_ fun _ _ _ _ next before => mutexSound_step before next
  rintro _ rfl
  exact mutexSound_initial G

/-- A property of the records of the threads is kept by a step if new threads have it and the record that
    an operation replaces has it. -/
theorem threads_step {G : Graph J T D} {m m' : Machine J T D} {a : MachineAction J}
    (holding : Runner J D → Prop) (sound : MutexSound m) (next : m.step G a = some m')
    (all : ∀ th ∈ m.threads, holding th)
    (fresh : ∀ point : Point J D, point.holds = false → holding { point, calls := [], locks := [] })
    (called : ∀ i outcome th c rest m₁ calls, a = .thread i outcome → m.threads[i]? = some th →
      th.calls = c :: rest → CallMoves G i m m₁ c rest calls th.point.holds → holding { th with calls })
    (reached : ∀ i outcome th m₁ th₁, a = .thread i outcome → m.threads[i]? = some th → th.calls = [] →
      pointStep G i m th outcome = some (m₁, th₁) → m' = m₁.setRunner i th₁ → holding th₁) :
    ∀ th ∈ m'.threads, holding th := by
  have spawned (point : Point J D) (outside : point.holds = false) :
      ∀ th ∈ (m.spawn point).threads, holding th := by
    intro th member
    rcases List.mem_append.mp member with old | new
    · exact all th old
    · exact List.mem_singleton.mp new ▸ fresh point outside
  cases a with
  | submit j => exact Option.some.inj next ▸ spawned _ rfl
  | visit => exact Option.some.inj next ▸ spawned _ rfl
  | signal again => exact Option.some.inj next ▸ all
  | thread i outcome =>
      intro x member
      obtain ⟨th, at_i, ⟨c, rest, m₁, calls, head, h, rfl⟩ | ⟨m₁, th₁, returned, h, rfl⟩⟩ :=
        thread_cases next
      · have moves := callStep_moves_of_sound sound at_i head h
        obtain ⟨new, threads, created⟩ := moves.threads
        rw [Machine.setRunner, threads] at member
        rcases List.mem_or_eq_of_mem_set member with old | rfl
        · rcases List.mem_append.mp old with old | new
          · exact all x old
          · obtain ⟨j, rfl⟩ := created x new
            exact fresh _ rfl
        · exact called i outcome th c rest m₁ calls rfl at_i head moves
      · have moves := pointStep_moves returned h
        rw [Machine.setRunner, moves.threads] at member
        rcases List.mem_or_eq_of_mem_set member with old | rfl
        · exact all x old
        · exact reached i outcome th m₁ x rfl at_i returned h rfl

end Experimaestro.Scheduler

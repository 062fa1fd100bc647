/-
Module: Experimaestro.Scheduler.Quiescence
Layer: Scheduler
Purpose: What is left when the scheduler has come to rest, that is when no start thread has anything to do.
  Every thread has terminated then and every token is back. A submitted job that has never entered
  `run()` is `Hopeless`: it asks for more tokens than there are, or it waits for a job that failed, was
  never submitted, or is hopeless itself; nothing else ever keeps a job from running. The condition
  `StartsOnce` excludes the second starts of `Restarts`, after which a finished job may go back to READY.
Imports: Experimaestro.Library.Progress, Experimaestro.Scheduler.Wakeups
Trusted boundary: none (fully proved)
Main exports: Quiescent, Hopeless, Affordable, quiescent_jobs, everything_done
Open obligations: none
-/
import Mathlib.Data.Fintype.Card
import Mathlib.Order.WellFounded
import Experimaestro.Library.Progress
import Experimaestro.Scheduler.Wakeups

namespace Experimaestro.Scheduler

variable {J T D : Type} [DecidableEq J] [DecidableEq T] [DecidableEq D]

/-! ### Entries and ends -/

/-- The threads of a job in `run()`. -/
def runnings (s : State J T D) (j : J) : ℕ :=
  s.threads.countP fun th => th.job = j ∧ th.phase = .running

/-- The event is the end of a `run()` of the job. -/
def Event.isFinish (j : J) : Event J → Bool
  | .finished k _ => k = j
  | _ => false

/-- How often `run()` of a job has ended. -/
def finishes (s : State J T D) (j : J) : ℕ := s.log.countP (Event.isFinish j)

/-- Every entry in `run()` has ended or is under way. -/
def Paired (s : State J T D) : Prop :=
  ∀ j, runnings s j + finishes s j = s.log.count (.entered j)

omit [DecidableEq T] [DecidableEq J] [DecidableEq D] in
/-- A count over the threads after a write to one of them. -/
theorem countP_threads {s : State J T D} (p : Thread J D → Bool) {i : ℕ} {th : Thread J D}
    (new : Thread J D) (at_i : s.threads[i]? = some th) :
    (s.threads.set i new).countP p + (p th).toNat = s.threads.countP p + (p new).toNat := by
  obtain ⟨inRange, rfl⟩ := List.getElem?_eq_some_iff.mp at_i
  have kept := List.boole_getElem_le_countP (p := p) inRange
  have word (b : Bool) : b.toNat = if b then 1 else 0 := by cases b <;> rfl
  rw [List.countP_set inRange, word, word]
  omega

omit [DecidableEq T] in
/-- A write to a thread that neither enters nor leaves `run()`. -/
theorem Paired.setThread {s s' : State J T D} {i : ℕ} {th new : Thread J D} (paired : Paired s)
    (at_i : s.threads[i]? = some th) (threads : s'.threads = (s.setThread i new).threads)
    (before : th.phase ≠ .running) (after : new.phase ≠ .running)
    (log : s'.log = s.log ∨ ∃ j, s'.log = .completed j :: s.log) : Paired s' := by
  intro j
  have count := countP_threads (fun th => th.job = j ∧ th.phase = .running) new at_i
  simp only [before, after, and_false, decide_false, Bool.toNat_false, Nat.add_zero] at count
  have same := paired j
  rw [runnings, threads, State.setThread, count]
  rcases log with rest | ⟨k, more⟩
  · rw [finishes, rest]
    exact same
  · rw [finishes, more]
    simpa [Event.isFinish, runnings, finishes] using same

omit [DecidableEq T] in
theorem paired_opening {G : Graph J T D} {s s' : State J T D} {a : Action J} (opened : Opening G s a s')
    (paired : Paired s) : Paired s' := by
  cases opened with
  | @takeCheck i th d rest at_i checks =>
      intro j
      have count := countP_threads (fun th => th.job = j ∧ th.phase = .running) { th with checks := rest } at_i
      simp only [Nat.add_right_cancel_iff] at count
      exact (congrArg (· + finishes s j) count).trans (paired j)
  | _ => exact paired

omit [DecidableEq T] in
theorem paired_report {G : Graph J T D} {s s' : State J T D} {a : Action J} (reported : Report G a s s')
    (paired : Paired s) : Paired s' := by
  cases reported with
  | settle submitted unlocked changed source =>
      intro j
      rw [runnings, finishes, settle_log, settle_threads]
      split
      case isTrue => simpa [runnings, finishes] using paired j
      case isFalse => exact paired j
  | addDependent submitted => exact paired

theorem paired_closing {G : Graph J T D} {admits : D → UInt32 → Prop} {s s' : State J T D}
    {a : Action J} (closed : Closing G admits s a s') (paired : Paired s) : Paired s' := by
  cases closed with
  | nothing => exact paired
  | startFree free submitted idle unentered =>
      intro j
      simpa [runnings, finishes, start] using paired j
  | enter at_i pending =>
      exact paired.setThread at_i rfl (by simp [pending]) (by simp) (Or.inl rfl)
  | share at_i locking live =>
      exact paired.setThread at_i rfl (by simp [locking]) (by simp) (Or.inl rfl)
  | skip at_i locking expired origin =>
      exact paired.setThread at_i rfl (by simp [locking]) (by simp) (Or.inl rfl)
  | acquire at_i locking expired origin admitted =>
      exact paired.setThread at_i rfl (by simp [locking]) (by simp) (Or.inl rfl)
  | abort at_i locking =>
      exact paired.setThread at_i rfl (by simp [locking]) (by simp) (Or.inl rfl)
  | @run i th at_i locked =>
      intro j
      have count := countP_threads (fun th => th.job = j ∧ th.phase = .running) { th with phase := .running } at_i
      have same := paired j
      by_cases own : th.job = j
      · simp [runnings, finishes, Event.isFinish, own, locked, State.setThread] at count same ⊢
        omega
      · simp [runnings, finishes, Event.isFinish, own, locked, State.setThread] at count same ⊢
        omega
  | setRunning at_i running => exact paired
  | @endRun i th success new at_i running result =>
      intro j
      have count := countP_threads (fun th => th.job = j ∧ th.phase = .running) { th with phase := .ended } at_i
      have same := paired j
      by_cases own : th.job = j
      · simp [runnings, finishes, Event.isFinish, own, running, State.setThread, State.setState] at count same ⊢
        omega
      · simp [runnings, finishes, Event.isFinish, own, running, State.setThread, State.setState] at count same ⊢
        omega
  | complete at_i ended =>
      exact paired.setThread at_i rfl (by simp [ended]) (by simp) (Or.inr ⟨_, rfl⟩)
  | @give i th l at_i dropping member still =>
      have not_running : th.phase ≠ .running := by
        intro phase
        simp [phase, Phase.dropping] at dropping
      exact paired.setThread at_i rfl not_running not_running (Or.inl rfl)
  | @giveLast i th l d t at_i dropping member last object origin =>
      have not_running : th.phase ≠ .running := by
        intro phase
        simp [phase, Phase.dropping] at dropping
      exact paired.setThread at_i rfl not_running not_running (Or.inl rfl)
  | @exit i th at_i dropping empty checked =>
      have not_running : th.phase ≠ .running := by
        intro phase
        simp [phase, Phase.dropping] at dropping
      exact paired.setThread at_i rfl not_running (by simp) (Or.inl rfl)

theorem paired_of_reachable {G : Graph J T D} {s : State J T D} (run : (system G).Reachable s) : Paired s :=
  reachable_invariant Paired (fun _ => rfl) paired_opening paired_report paired_closing run

omit [DecidableEq T] in
/-- What has finished has entered `run()`. -/
theorem Paired.entered {s : State J T D} (paired : Paired s) {j : J} {new : JobState}
    (finished : .finished j new ∈ s.log) : .entered j ∈ s.log := by
  have ended : 0 < finishes s j := List.countP_pos_iff.mpr ⟨_, finished, by simp [Event.isFinish]⟩
  have same := paired j
  exact List.count_pos_iff.mp (by omega)

/-! ### What one action does to the states of jobs -/

omit [DecidableEq T] in
/-- A sequence of reports writes neither the log nor the states, and only adds threads. -/
theorem reports_frame {G : Graph J T D} {a : Action J} {s s' : State J T D} (reported : Reports G a s s') :
    s'.log = s.log ∧ s'.state = s.state := by
  induction reported with
  | refl => exact ⟨rfl, rfl⟩
  | tail _ one ih =>
      cases one with
      | settle => simpa using ih
      | addDependent => exact ih

/-- The writes to the states of jobs: none; READY, by a thread whose start is aborted; RUNNING, by a
    thread in `run()`; DONE or ERROR, by a thread that leaves `run()`. -/
inductive StateWrite (s s' : State J T D) : Prop where
  | nothing (state : s'.state = s.state)
      (log : ∀ j new, .finished j new ∈ s'.log ↔ .finished j new ∈ s.log)
  | busy {th : Thread J D} (member : th ∈ s.threads) (phase : th.phase.starting ∨ th.phase = .running)
      {new : JobState} (given : new ≠ .error) (state : s'.state = Function.update s.state th.job new)
      (log : s'.log = s.log)
  | finish {th : Thread J D} (member : th ∈ s.threads) (phase : th.phase = .running) {new : JobState}
      (result : new = .done ∨ new = .error) (state : s'.state = Function.update s.state th.job new)
      (log : s'.log = .finished th.job new :: s.log)

theorem stateWrite_lockNext {G : Graph J T D} {i : ℕ} {th : Thread J D} {d : D} {rest : List D}
    {s s' : State J T D} (member : th ∈ s.threads) (locking : th.phase = .locking (d :: rest))
    (h : lockNext G i th d rest s = some s') : StateWrite s s' := by
  unfold lockNext lock at h
  cases live : s.liveLock d with
  | some l =>
      simp only [live, Option.some.injEq] at h
      exact h ▸ .nothing rfl fun _ _ => Iff.rfl
  | none =>
      cases origin : G.origin d with
      | job k =>
          simp only [live, origin, Option.some.injEq] at h
          exact h ▸ .nothing rfl fun _ _ => Iff.rfl
      | token t =>
          simp only [live, origin] at h
          by_cases full : G.value d + s.usedTokens t > G.limit t
          · simp only [if_pos full, bind, Option.bind_eq_some_iff, Option.some.injEq] at h
            obtain ⟨mid, checked, rfl⟩ := h
            obtain ⟨_, _, state, _, _, _, log, _⟩ := (check_settles G _ d s mid checked).frame
            have aborted : Function.update mid.state th.job .ready = Function.update s.state th.job .ready := by
              rw [state]
            exact .busy member (Or.inl (by rw [locking]; rfl)) (by decide) aborted log
          · simp only [if_neg full, Option.some.injEq] at h
            exact h ▸ .nothing rfl fun _ _ => Iff.rfl

omit [DecidableEq D] in
theorem drop_state (G : Graph J T D) (i : ℕ) (th : Thread J D) (l : ℕ) (s : State J T D) :
    (drop G i th l s).state = s.state := by
  unfold drop
  dsimp only
  split
  · rfl
  · split
    · rfl
    · split <;> rfl

theorem stateWrite_of_step {G : Graph J T D} {s s' : State J T D} {a : Action J}
    (run : (system G).Reachable s) (next : step G a s = some s') : StateWrite s s' := by
  cases a with
  | submit j =>
      obtain ⟨s₁, s₂, opened, reported, closed⟩ := moves_of_reachable run next
      obtain ⟨log, state⟩ := reports_frame reported
      have opening : s₁.state = s.state ∧ s₁.log = s.log := by cases opened <;> exact ⟨rfl, rfl⟩
      have closing : s'.state = s₂.state ∧ s'.log = s₂.log := by cases closed <;> exact ⟨rfl, rfl⟩
      refine .nothing (closing.1.trans (state.trans opening.1)) fun k new => ?_
      rw [closing.2, log, opening.2]
  | thread i action =>
      simp only [step, Option.bind_eq_some_iff] at next
      obtain ⟨th, at_i, next⟩ := next
      have member := List.mem_of_getElem? at_i
      cases action with
      | enter =>
          simp only [threadStep, Option.ite_none_right_eq_some, Option.some.injEq] at next
          obtain ⟨_, rfl⟩ := next
          exact .nothing rfl fun _ _ => Iff.rfl
      | lockNext =>
          simp only [threadStep] at next
          split at next
          case h_1 d rest locking => exact stateWrite_lockNext member locking next
          case h_2 => cases next
      | run =>
          simp only [threadStep, Option.ite_none_right_eq_some, Option.some.injEq] at next
          obtain ⟨_, rfl⟩ := next
          exact .nothing rfl fun j new => by simp
      | setRunning =>
          simp only [threadStep, Option.ite_none_right_eq_some, Option.some.injEq] at next
          obtain ⟨running, rfl⟩ := next
          exact .busy member (Or.inr running) (by decide) rfl rfl
      | endRun success =>
          simp only [threadStep, Option.ite_none_right_eq_some, Option.some.injEq] at next
          obtain ⟨running, rfl⟩ := next
          refine .finish member running ?_ rfl rfl
          cases success <;> simp
      | complete =>
          simp only [threadStep, Option.ite_none_right_eq_some, Option.map_eq_some_iff] at next
          obtain ⟨_, mid, completed, rfl⟩ := next
          obtain ⟨_, _, state, _, _, _, log, _⟩ := (jobCompleted_settles completed).frame
          refine .nothing state fun j new => ?_
          have same : mid.log = s.log := log
          simp [same]
      | drop l =>
          simp only [threadStep, Option.ite_none_right_eq_some, Option.some.injEq] at next
          obtain ⟨_, rfl⟩ := next
          obtain ⟨new, writes⟩ := drop_writes G i th l s
          exact .nothing (drop_state G i th l s) fun _ _ => by rw [writes.log]
      | check =>
          simp only [threadStep] at next
          split at next
          case h_1 => cases next
          case h_2 d rest checks =>
              obtain ⟨_, _, state, _, _, _, log, _⟩ := (check_settles G _ d _ s' next).frame
              exact .nothing state fun _ _ => by rw [log]; rfl
      | exit =>
          simp only [threadStep, Option.ite_none_right_eq_some, Option.some.injEq] at next
          obtain ⟨_, rfl⟩ := next
          exact .nothing rfl fun _ _ => Iff.rfl

/-! ### Results are final -/

/-- The state of a job whose `run()` has ended is its result. -/
def Final (s : State J T D) : Prop :=
  ∀ j new, .finished j new ∈ s.log → s.state j = new ∧ (new = .done ∨ new = .error)

theorem once_of_run {G : Graph J T D} {s : State J T D} (run : (system G).RunUnder (StartsOnce G) s) :
    ∀ j, launches s j ≤ 1 := by
  apply run.invariant (fun s => ∀ j, launches s j ≤ 1)
  · rintro _ rfl j
    exact Nat.zero_le 1
  · exact fun s a s' run met next => step_once run.reachable met next

/-- In a run that starts jobs once, a thread on its way to `run()` or in `run()` belongs to a job that has
    not finished. -/
theorem unfinished_of_busy {G : Graph J T D} {s : State J T D} (run : (system G).RunUnder (StartsOnce G) s)
    {th : Thread J D} (member : th ∈ s.threads) (busy : th.phase.starting ∨ th.phase = .running)
    (new : JobState) : .finished th.job new ∉ s.log := by
  intro finished
  have once := once_of_run run th.job
  have paired := paired_of_reachable run.reachable th.job
  have ended : 0 < finishes s th.job := List.countP_pos_iff.mpr ⟨_, finished, by simp [Event.isFinish]⟩
  rw [launches] at once
  rcases busy with starting | running
  · have inside : 0 < s.threads.countP fun x => x.job = th.job ∧ x.phase.starting :=
      List.countP_pos_iff.mpr ⟨th, member, by simp [starting]⟩
    omega
  · have inside : 0 < runnings s th.job := List.countP_pos_iff.mpr ⟨th, member, by simp [running]⟩
    omega

theorem final_of_run {G : Graph J T D} {s : State J T D} (run : (system G).RunUnder (StartsOnce G) s) :
    Final s := by
  apply run.invariant Final
  · rintro _ rfl j new finished
    cases finished
  · intro s a s' run met next final j new finished
    cases stateWrite_of_step run.reachable next with
    | nothing state log => exact state ▸ final j new ((log j new).mp finished)
    | @busy th member phase given ready state log =>
        rw [log] at finished
        have other : j ≠ th.job := by
          rintro rfl
          exact unfinished_of_busy run member phase new finished
        rw [state, Function.update_of_ne other]
        exact final j new finished
    | @finish th member phase given result state log =>
        rw [log] at finished
        rcases List.mem_cons.mp finished with same | old
        · obtain ⟨rfl, rfl⟩ := Event.finished.inj same
          rw [state, Function.update_self]
          exact ⟨rfl, result⟩
        · have other : j ≠ th.job := by
            rintro rfl
            exact unfinished_of_busy run member (Or.inr phase) new old
          rw [state, Function.update_of_ne other]
          exact final j new old

/-- A job gets into state ERROR by a `run()` that ends so. -/
theorem finished_of_error {G : Graph J T D} {s : State J T D} (run : (system G).Reachable s) :
    ∀ j, s.state j = .error → .finished j .error ∈ s.log := by
  apply run.invariant (fun s => ∀ j, s.state j = .error → .finished j .error ∈ s.log)
  · rintro _ rfl j error
    cases error
  · intro s a s' run next before j error
    cases stateWrite_of_step run next with
    | nothing state log => exact (log j .error).mpr (before j (state ▸ error))
    | @busy th member phase given other state log =>
        rw [state] at error
        rw [log]
        by_cases own : j = th.job
        · rw [own, Function.update_self] at error
          exact absurd error other
        · rw [Function.update_of_ne own] at error
          exact before j error
    | @finish th member phase given result state log =>
        rw [state] at error
        rw [log]
        by_cases own : j = th.job
        · rw [own, Function.update_self] at error
          exact own ▸ error ▸ List.mem_cons_self
        · rw [Function.update_of_ne own] at error
          exact List.mem_cons_of_mem _ (before j error)

/-! ### Requests that can be met -/

/-- The dependency does not ask for more tokens than there are. -/
def Affordable (G : Graph J T D) (d : D) : Prop :=
  ∀ t, G.origin d = .token t → G.value d ≤ G.limit t

/-- What has been locked could be locked: the dependencies with a Lock object, those a start thread has
    left behind, and all those of a job that has entered `run()`. -/
structure Served (G : Graph J T D) (s : State J T D) : Prop where
  current : ∀ d l, s.currentLock d = some l → Affordable G d
  locking : ∀ th ∈ s.threads, ∀ rest, th.phase = .locking rest →
    ∀ d ∈ G.dependencies th.job, d ∈ rest ∨ Affordable G d
  entered : ∀ j, .entered j ∈ s.log → ∀ d ∈ G.dependencies j, Affordable G d

omit [DecidableEq T] [DecidableEq J] [DecidableEq D] in
theorem served_initial (G : Graph J T D) : Served G (initial G) where
  current d l h := by cases h
  locking th member := absurd member List.not_mem_nil
  entered j member := absurd member List.not_mem_nil

omit [DecidableEq T] [DecidableEq J] [DecidableEq D] in
/-- A write to one thread that grants nothing. -/
theorem Served.setThread {G : Graph J T D} {s s' : State J T D} {i : ℕ} {new : Thread J D}
    (served : Served G s) (threads : s'.threads = (s.setThread i new).threads)
    (locking : ∀ rest, new.phase = .locking rest →
      ∀ d ∈ G.dependencies new.job, d ∈ rest ∨ Affordable G d)
    (current : ∀ d l, s'.currentLock d = some l → Affordable G d)
    (log : ∀ j, .entered j ∈ s'.log → .entered j ∈ s.log) : Served G s' where
  current := current
  locking := by
    rw [threads]
    exact forall_setThread served.locking locking
  entered j inside := served.entered j (log j inside)

omit [DecidableEq T] [DecidableEq D] in
theorem served_opening {G : Graph J T D} {s s' : State J T D} {a : Action J} (opened : Opening G s a s')
    (served : Served G s) : Served G s' := by
  cases opened with
  | @takeCheck i th d rest at_i checks =>
      have locking := served.locking th (List.mem_of_getElem? at_i)
      exact served.setThread rfl locking served.current fun _ => id
  | _ => exact ⟨served.current, served.locking, served.entered⟩

omit [DecidableEq T] in
theorem served_report {G : Graph J T D} {s s' : State J T D} {a : Action J} (reported : Report G a s s')
    (served : Served G s) : Served G s' := by
  cases reported with
  | settle submitted unlocked changed source =>
      constructor
      · simpa using served.current
      · exact forall_settle served.locking fun _ _ rest phase => by cases phase
      · simpa using served.entered
  | addDependent submitted => exact ⟨served.current, served.locking, served.entered⟩

theorem served_closing {G : Graph J T D} {s s' : State J T D} {a : Action J}
    (closed : Closing G (fun d _ => Affordable G d) s a s') (served : Served G s) : Served G s' := by
  cases closed with
  | nothing => exact served
  | startFree free submitted idle unentered =>
      exact ⟨served.current, forall_start served.locking fun rest phase => (by cases phase), served.entered⟩
  | enter at_i pending =>
      refine served.setThread rfl (fun rest phase d member => ?_) served.current fun _ => id
      cases phase
      exact Or.inl member
  | @share i th d rest l at_i locking live =>
      refine served.setThread rfl (fun others phase e member => ?_) served.current fun _ => id
      cases phase
      rcases served.locking th (List.mem_of_getElem? at_i) _ locking e member with left | affordable
      · rcases List.mem_cons.mp left with same | later
        · exact Or.inr (same ▸ served.current d l (liveLock_eq_some.mp live).1)
        · exact Or.inl later
      · exact Or.inr affordable
  | @skip i th d rest k at_i locking expired origin =>
      refine served.setThread rfl (fun others phase e member => ?_) (fun e l current => ?_) fun _ => id
      · cases phase
        rcases served.locking th (List.mem_of_getElem? at_i) _ locking e member with left | affordable
        · rcases List.mem_cons.mp left with same | later
          · refine Or.inr fun t token => ?_
            rw [same, origin] at token
            cases token
          · exact Or.inl later
        · exact Or.inr affordable
      · by_cases same : e = d
        · subst same
          simp [State.setThread] at current
        · exact served.current e l (by simpa [State.setThread, Function.update_of_ne same] using current)
  | @acquire i th d rest t at_i locking expired origin admitted =>
      refine served.setThread rfl (fun others phase e member => ?_) (fun e l current => ?_) fun _ => id
      · cases phase
        rcases served.locking th (List.mem_of_getElem? at_i) _ locking e member with left | affordable
        · rcases List.mem_cons.mp left with same | later
          · exact Or.inr (same ▸ admitted)
          · exact Or.inl later
        · exact Or.inr affordable
      · by_cases same : e = d
        · exact same ▸ admitted
        · exact served.current e l (by simpa [State.setThread, Function.update_of_ne same] using current)
  | abort at_i locking =>
      exact served.setThread rfl (fun rest phase => by cases phase) served.current fun _ => id
  | @run i th at_i locked =>
      refine ⟨served.current, ?_, fun j inside d member => ?_⟩
      · exact forall_setThread served.locking fun rest phase => by cases phase
      · rcases List.mem_cons.mp inside with same | old
        · cases same
          exact (served.locking th (List.mem_of_getElem? at_i) _ locked d member).resolve_left
            List.not_mem_nil
        · exact served.entered j old d member
  | setRunning at_i running => exact ⟨served.current, served.locking, served.entered⟩
  | endRun at_i running result =>
      refine served.setThread rfl (fun rest phase => by cases phase) served.current fun j inside => ?_
      simpa using inside
  | complete at_i ended =>
      refine served.setThread rfl (fun rest phase => by cases phase) served.current fun j inside => ?_
      simpa using inside
  | @give i th l at_i dropping member still =>
      have locking := served.locking th (List.mem_of_getElem? at_i)
      exact served.setThread rfl locking served.current fun _ => id
  | @giveLast i th l d t at_i dropping member last object origin =>
      have locking := served.locking th (List.mem_of_getElem? at_i)
      exact served.setThread rfl locking served.current fun _ => id
  | exit at_i dropping empty checked =>
      exact served.setThread rfl (fun rest phase => by cases phase) served.current fun _ => id

/-- With counts and limits that fit in 32 bits together, a granted request is within the limit. -/
theorem served_of_reachable {G : Graph J T D}
    (small : ∀ d t, G.origin d = .token t → (G.value d).toNat + (G.limit t).toNat < 2 ^ 32)
    {s : State J T D} (run : (system G).Reachable s) : Served G s := by
  apply run.invariant (Served G)
  · rintro _ rfl
    exact served_initial G
  · intro s a s' run next served
    have within := (withinLimits_of_run (run_noWrap_of_small small run)).2
    have moves : Moves G (fun d _ => Affordable G d) s a s' := by
      apply step_moves (attached_of_reachable run) ?_ next
      intro d t asked granted u origin
      obtain ⟨_, _, _, _, _, _, _, source⟩ := asked
      obtain rfl : t = u := Resource.token.inj (source.symm.trans origin)
      have used : (s.usedTokens t).toNat ≤ (G.limit t).toNat :=
        (within.value_eq_load t).le.trans (within.load_le t)
      have fits := small d t origin
      have enough := UInt32.le_iff_toNat_le.mp (UInt32.not_lt.mp (granted t origin))
      rw [UInt32.toNat_add] at enough
      apply UInt32.le_iff_toNat_le.mpr
      omega
    exact moves.preserves (Served G) served_opening served_report served_closing served

/-! ### At rest -/

/-- The action is one of a start thread. -/
def Action.ofThread : Action J → Bool
  | .submit _ => false
  | .thread _ _ => true

/-- No start thread has anything left to do. -/
def Quiescent (G : Graph J T D) (s : State J T D) : Prop :=
  TransitionSystem.Exhausted (step G) (fun a => a.ofThread) s

/-- A start thread that has not terminated always has something to do. -/
theorem exited_of_quiescent {G : Graph J T D} {s : State J T D} (quiet : Quiescent G s) :
    ∀ th ∈ s.threads, th.phase = .exited ∧ th.checks = [] := by
  intro th member
  obtain ⟨i, at_i⟩ := List.mem_iff_getElem?.mp member
  have idle (action : ThreadAction) : threadStep G i th s action = none := by
    have blocked := quiet (.thread i action) rfl
    simpa only [step, at_i, Option.bind_some] using blocked
  have checks : th.checks = [] := by
    cases pending : th.checks with
    | nil => rfl
    | cons d rest =>
        obtain ⟨s', returns⟩ : ∃ s', check G (depth s) d (s.setThread i { th with checks := rest }) = some s' :=
          check_depth_returns G d (s.setThread i { th with checks := rest })
        have blocked := idle .check
        simp [threadStep, pending, returns] at blocked
  refine ⟨?_, checks⟩
  have leaving (dropping : th.phase.dropping) : False := by
    cases held : th.locks with
    | nil =>
        have blocked := idle .exit
        simp [threadStep, dropping, checks, held] at blocked
    | cons l rest =>
        have blocked := idle (.drop l)
        simp [threadStep, dropping, checks, held] at blocked
  cases phase : th.phase with
  | pending =>
      have blocked := idle .enter
      simp [threadStep, phase] at blocked
  | locking rest =>
      cases rest with
      | nil =>
          have blocked := idle .run
          simp [threadStep, phase] at blocked
      | cons d rest =>
          obtain ⟨s', returns⟩ := check_depth_returns G d s
          have blocked := idle .lockNext
          simp only [threadStep, phase, lockNext] at blocked
          cases result : lock G d s with
          | locked l after => simp [result] at blocked
          | lockError => simp [result, returns] at blocked
  | running =>
      have blocked := idle .setRunning
      simp [threadStep, phase] at blocked
  | ended =>
      obtain ⟨s', returns⟩ := jobCompleted_returns G th.job s
      have blocked := idle .complete
      simp [threadStep, phase, returns] at blocked
  | aborting => exact (leaving (by rw [phase]; rfl)).elim
  | releasing => exact (leaving (by rw [phase]; rfl)).elim
  | exited => rfl

/-- When every thread has terminated and no check is left, nothing is left to do. -/
theorem quiescent_of_exited {G : Graph J T D} {s : State J T D}
    (exited : ∀ th ∈ s.threads, th.phase = .exited ∧ th.checks = []) : Quiescent G s := by
  intro a of_thread
  cases a with
  | submit j => cases of_thread
  | thread i action =>
      cases at_i : s.threads[i]? with
      | none => simp [step, at_i]
      | some th =>
          obtain ⟨phase, checks⟩ := exited th (List.mem_of_getElem? at_i)
          cases action <;> simp [step, at_i, threadStep, phase, checks, Phase.dropping]

/-- There is a reason why the job will never run, as far as what has been submitted goes. -/
inductive Hopeless (G : Graph J T D) (s : State J T D) : J → Prop where
  /-- It asks for more tokens than there are. -/
  | tokens {j : J} {d : D} (member : d ∈ G.dependencies j) (greedy : ¬ Affordable G d) : Hopeless G s j
  /-- It waits for a job that was not submitted. -/
  | missing {j k : J} (depends : DependsOn G.dependencies G.origin k j) (unknown : k ∉ s.jobs) :
      Hopeless G s j
  /-- It waits for a job that failed. -/
  | failed {j k : J} (depends : DependsOn G.dependencies G.origin k j) (error : s.state k = .error) :
      Hopeless G s j
  /-- It waits for a hopeless job. -/
  | behind {j k : J} (depends : DependsOn G.dependencies G.origin k j) (hopeless : Hopeless G s k) :
      Hopeless G s j

/-- A hopeless job has never entered `run()`. -/
theorem never_of_hopeless {G : Graph J T D}
    (small : ∀ d t, G.origin d = .token t → (G.value d).toNat + (G.limit t).toNat < 2 ^ 32)
    {s : State J T D} (run : (system G).RunUnder (StartsOnce G) s) {j : J} (hopeless : Hopeless G s j) :
    .entered j ∉ s.log := by
  have paired := paired_of_reachable run.reachable
  have parents {j k : J} (depends : DependsOn G.dependencies G.origin k j) (entered : .entered j ∈ s.log) :
      .finished k .done ∈ s.log := by
    obtain ⟨after, before, split⟩ := List.mem_iff_append.mp entered
    have earlier := (ordered_of_reachable run.reachable).entered j after before split k depends
    rw [split]
    exact List.mem_append_right _ (List.mem_cons_of_mem _ earlier)
  induction hopeless with
  | tokens member greedy =>
      intro entered
      exact greedy ((served_of_reachable small run.reachable).entered _ entered _ member)
  | missing depends unknown =>
      intro entered
      have parent := paired.entered (parents depends entered)
      exact unknown ((attached_of_reachable run.reachable).entered _ parent)
  | failed depends error =>
      intro entered
      have state := (final_of_run run _ _ (parents depends entered)).1
      rw [error] at state
      cases state
  | behind depends hopeless ih =>
      intro entered
      exact ih (paired.entered (parents depends entered))

omit [DecidableEq T] [DecidableEq D] in
/-- Depending on submitted jobs cannot go on for ever. -/
theorem wellFounded_depends (G : Graph J T D) (s : State J T D) :
    WellFounded fun k j : { j // j ∈ s.jobs } =>
      Relation.TransGen (DependsOn G.dependencies G.origin) k.1 j.1 := by
  have trans : IsTrans { j // j ∈ s.jobs } fun k j =>
      Relation.TransGen (DependsOn G.dependencies G.origin) k.1 j.1 := ⟨fun _ _ _ => .trans⟩
  have irrefl : Std.Irrefl fun k j : { j // j ∈ s.jobs } =>
      Relation.TransGen (DependsOn G.dependencies G.origin) k.1 j.1 := ⟨fun j => G.acyclic j.1⟩
  exact Finite.wellFounded_of_trans_of_irrefl _

/-- When every thread has terminated, every token is back. -/
theorem tokens_back {G : Graph J T D}
    (small : ∀ d t, G.origin d = .token t → (G.value d).toNat + (G.limit t).toNat < 2 ^ 32)
    {s : State J T D} (run : (system G).Reachable s) (exited : ∀ th ∈ s.threads, th.phase = .exited)
    (t : T) : s.usedTokens t = 0 := by
  obtain ⟨sound, within⟩ := withinLimits_of_run (run_noWrap_of_small small run)
  have none_live : ∀ l, ¬ (permits s).Live l := by
    intro l live
    obtain ⟨th, member, inside⟩ := live_permits.mp live
    rw [sound.exited th member (exited th member)] at inside
    cases inside
  have zero : (s.usedTokens t).toNat = 0 :=
    (within.value_eq_load t).trans (SharedPermits.load_eq_zero none_live _ t)
  exact UInt32.toNat_inj.mp zero

/-- At rest, `run()` of a job that has entered it has ended, and the job has the state of its result. -/
theorem finished_of_entered {G : Graph J T D} {s : State J T D}
    (run : (system G).RunUnder (StartsOnce G) s) (quiet : Quiescent G s) {j : J}
    (entered : .entered j ∈ s.log) :
    ∃ new, .finished j new ∈ s.log ∧ s.state j = new ∧ (new = .done ∨ new = .error) := by
  have paired := paired_of_reachable run.reachable j
  have none_running : runnings s j = 0 := by
    apply List.countP_eq_zero.mpr
    intro th member
    simp [(exited_of_quiescent quiet th member).1]
  have inside : 0 < s.log.count (.entered j) := List.count_pos_iff.mpr entered
  have ended : 0 < finishes s j := by omega
  obtain ⟨event, member, finish⟩ := List.countP_pos_iff.mp ended
  cases event with
  | finished k new =>
      simp only [Event.isFinish, decide_eq_true_eq] at finish
      subst finish
      exact ⟨new, member, final_of_run run k new member⟩
  | entered k => cases finish
  | completed k => cases finish

/-- At rest, a submitted job that has never entered `run()` is hopeless. The induction is along the
    dependencies on submitted jobs: what blocks the job is a token it asks too much of, or a job that is
    not DONE. -/
theorem hopeless_of_never {G : Graph J T D}
    (small : ∀ d t, G.origin d = .token t → (G.value d).toNat + (G.limit t).toNat < 2 ^ 32)
    {s : State J T D} (run : (system G).RunUnder (StartsOnce G) s) (quiet : Quiescent G s) (j : J)
    (submitted : j ∈ s.jobs) (never : .entered j ∉ s.log) : Hopeless G s j := by
  have exited := exited_of_quiescent quiet
  have free := tokens_back small run.reachable fun th member => (exited th member).1
  induction member : (⟨j, submitted⟩ : { j // j ∈ s.jobs }) using (wellFounded_depends G s).induction
    generalizing j with
  | _ x ih =>
      subst member
      obtain ⟨d, depends, blocked | expected⟩ := idle_blocked small run.reachable submitted never
        fun th there _ => (exited th there).1
      · cases origin : G.origin d with
        | token t =>
            apply Hopeless.tokens depends
            intro affordable
            simp [status, origin, free t, affordable t origin] at blocked
        | job k =>
            have before : DependsOn G.dependencies G.origin k j := ⟨d, depends, origin⟩
            by_cases known : k ∈ s.jobs
            · by_cases entered : .entered k ∈ s.log
              · obtain ⟨new, _, state, result | result⟩ := finished_of_entered run quiet entered
                · simp [status, origin, state, result] at blocked
                · exact .failed before (state.trans result)
              · exact .behind before (ih ⟨k, known⟩ (.single before) k known entered rfl)
            · exact .missing before known
      · rcases expected with ⟨th, there, checked⟩ | ⟨k, _, th, there, _, ended⟩
        · rw [(exited th there).2] at checked
          cases checked
        · rw [(exited th there).1] at ended
          cases ended

/-! ### The results -/

/-- The same jobs at rest: all submitted jobs are DONE if and only if no `run()` has failed, no submitted
    job asks for more tokens than there are, and every job that a submitted job depends on has been
    submitted as well. -/
theorem everything_done (G : Graph J T D)
    (small : ∀ d t, G.origin d = .token t → (G.value d).toNat + (G.limit t).toNat < 2 ^ 32)
    {s : State J T D} (run : (system G).RunUnder (StartsOnce G) s) (quiet : Quiescent G s) :
    (∀ j ∈ s.jobs, s.state j = .done) ↔
      (∀ j, .finished j .error ∉ s.log) ∧ ∀ j ∈ s.jobs, (∀ d ∈ G.dependencies j, Affordable G d) ∧
        ∀ k, DependsOn G.dependencies G.origin k j → k ∈ s.jobs := by
  have paired := paired_of_reachable run.reachable
  constructor
  · intro done
    have entered {j : J} (submitted : j ∈ s.jobs) : .entered j ∈ s.log :=
      paired.entered ((ordered_of_reachable run.reachable).done j (done j submitted))
    refine ⟨fun j failed => ?_, fun j submitted => ⟨fun d depends => ?_, fun k depends => ?_⟩⟩
    · have submitted := (attached_of_reachable run.reachable).entered j (paired.entered failed)
      have error := (final_of_run run j _ failed).1
      rw [done j submitted] at error
      cases error
    · by_contra greedy
      exact never_of_hopeless small run (.tokens depends greedy) (entered submitted)
    · by_contra unknown
      exact never_of_hopeless small run (.missing depends unknown) (entered submitted)
  · rintro ⟨no_failure, complete⟩ j submitted
    have hopeful : ¬ Hopeless G s j := by
      intro hopeless
      induction hopeless with
      | tokens member greedy => exact greedy ((complete _ submitted).1 _ member)
      | missing depends unknown => exact unknown ((complete _ submitted).2 _ depends)
      | failed depends error => exact no_failure _ (finished_of_error run.reachable _ error)
      | behind depends hopeless ih => exact ih ((complete _ submitted).2 _ depends)
    have entered : .entered j ∈ s.log := by
      by_contra never
      exact hopeful (hopeless_of_never small run quiet j submitted never)
    obtain ⟨new, finished, state, result | result⟩ := finished_of_entered run quiet entered
    · exact state.trans result
    · exact absurd (result ▸ finished) (no_failure j)

end Experimaestro.Scheduler

/-
Module: Experimaestro.Scheduler.Restarts
Layer: Scheduler
Purpose: How often a job enters `run()`. `Job::start` creates a thread whenever `_unsatisfied` falls to
  zero, also when an earlier thread of the job has not got its locks yet or has run already; two threads
  of one job share the live locks of its dependencies, so that both enter `run()`. `launches` counts the
  threads on their way to `run()` and the entries so far. It stays at one as long as no check finds such
  a job `Restartable`, that is with all that was recorded as unsatisfied become OK.
Imports: Experimaestro.Scheduler.DependencyOrder
Trusted boundary: none (fully proved)
Main exports: launches, Restartable, StartsOnce, runs_twice, runs_at_most_once
Open obligations: none
-/
import Mathlib.Data.Fin.VecNotation
import Experimaestro.Scheduler.DependencyOrder

namespace Experimaestro.Scheduler

variable {J T D : Type} [DecidableEq J] [DecidableEq T] [DecidableEq D]

/-- Jobs with one dependency each, all on one token. -/
def tokenGraph (n : ℕ) (limit : UInt32) (value : Fin n → UInt32) : Graph (Fin n) Unit (Fin n) where
  dependencies j := [j]
  origin _ := .token ()
  target d := d
  value := value
  limit _ := limit
  jobId j := toString j
  address d := d
  mem_dependencies d j := by simp
  nodup j := by simp
  length_lt j := by simp
  acyclic j cycle := by
    obtain ⟨_, ⟨d, _, origin⟩, _⟩ := Relation.TransGen.head'_iff.mp cycle
    cases origin

/-- Two jobs hold one token each and job 0, which needs both, becomes ready; job 1 ends and starts it,
    job 2 ends and starts it again, and its two threads, delayed until then, share the lock of the
    token. -/
theorem runs_twice :
    ∃ s, (system (tokenGraph 3 2 ![2, 1, 1])).Reachable s ∧ s.log.count (.entered 0) = 2 := by
  have executed : ((TransitionSystem.runActions (step (tokenGraph 3 2 ![2, 1, 1]))
      [.submit 0, .submit 1, .submit 2, .thread 1 .enter, .thread 1 .lockNext, .thread 1 .run,
        .thread 2 .enter, .thread 2 .lockNext, .thread 2 .run, .thread 1 (.endRun true),
        .thread 1 .complete, .thread 1 (.drop 0), .thread 1 .check, .thread 1 .check, .thread 1 .check,
        .thread 1 .exit, .thread 2 (.endRun true), .thread 2 .complete, .thread 2 (.drop 1),
        .thread 2 .check, .thread 2 .check, .thread 2 .check, .thread 2 .exit, .thread 0 .enter,
        .thread 0 .lockNext, .thread 0 .run, .thread 3 .enter, .thread 3 .lockNext, .thread 3 .run]
      (initial (tokenGraph 3 2 ![2, 1, 1]))).map fun s => s.log.count (.entered 0)) = some 2 := by decide
  exact TransitionSystem.exists_reachable_of_runActions executed

/-! ### Launches -/

/-- The thread is on its way to `run()`. -/
def Phase.starting : Phase D → Bool
  | .pending | .locking _ => true
  | _ => false

/-- The threads of a job on their way to `run()`, and its entries so far. -/
def launches (s : State J T D) (j : J) : ℕ :=
  (s.threads.countP fun th => th.job = j ∧ th.phase.starting) + s.log.count (.entered j)

omit [DecidableEq T] [DecidableEq D] in
theorem launches_start (s : State J T D) (k j : J) :
    launches (start s k) j = launches s j + if k = j then 1 else 0 := by
  simp only [launches, start, List.countP_append, List.countP_singleton, Phase.starting, and_true,
    decide_eq_true_eq]
  omega

omit [DecidableEq T] [DecidableEq D] in
/-- A write to one thread that neither starts it nor leaves the way to `run()`. -/
theorem launches_setThread {s s' : State J T D} {j : J} {i : ℕ} {th new : Thread J D}
    (at_i : s.threads[i]? = some th) (threads : s'.threads = (s.setThread i new).threads)
    (job : new.job = th.job) (phase : new.phase.starting = th.phase.starting)
    (log : s'.log.count (.entered j) = s.log.count (.entered j)) :
    launches s' j = launches s j := by
  obtain ⟨inRange, rfl⟩ := List.getElem?_eq_some_iff.mp at_i
  have kept := List.boole_getElem_le_countP (p := fun th => th.job = j ∧ th.phase.starting) inRange
  rw [launches, launches, log, threads]
  simp only [State.setThread, List.countP_set inRange, job, phase]
  omega

omit [DecidableEq T] [DecidableEq D] in
/-- A thread that leaves the way to `run()`, perhaps into `run()`. -/
theorem launches_leave {s s' : State J T D} {j : J} {i : ℕ} {th new : Thread J D}
    (at_i : s.threads[i]? = some th) (starting : th.phase.starting)
    (threads : s'.threads = (s.setThread i new).threads) (left : new.phase.starting = false)
    (log : s'.log = s.log ∨ s'.log = .entered th.job :: s.log) :
    launches s' j ≤ launches s j := by
  obtain ⟨inRange, rfl⟩ := List.getElem?_eq_some_iff.mp at_i
  have kept := List.boole_getElem_le_countP (p := fun th => th.job = j ∧ th.phase.starting) inRange
  rw [launches, launches, threads]
  simp only [State.setThread, List.countP_set inRange, left, starting, Bool.false_eq_true, and_false,
    and_true, decide_false, decide_eq_true_eq, if_false] at kept ⊢
  rcases log with same | more
  · rw [same]
    omega
  · rw [more, List.count_cons]
    simp only [beq_iff_eq, Event.entered.injEq]
    omega

/-! ### Jobs that a check may start -/

/-- Something is recorded as unsatisfied, and a check of each such dependency would now report OK. -/
def Restartable (G : Graph J T D) (s : State J T D) (j : J) : Prop :=
  s.unsatisfied j ≠ 0 ∧ ∀ d ∈ G.dependencies j, s.oldStatus d ≠ .ok → status G s d = .ok

instance (G : Graph J T D) (s : State J T D) (j : J) : Decidable (Restartable G s j) :=
  inferInstanceAs (Decidable (_ ∧ _))

omit [DecidableEq T] [DecidableEq J] [DecidableEq D] in
theorem Counted.ne_zero_iff {G : Graph J T D} {s : State J T D} (counted : Counted G s) (j : J) :
    s.unsatisfied j ≠ 0 ↔ ∃ d ∈ G.dependencies j, s.oldStatus d ≠ .ok := by
  constructor
  · intro positive
    by_contra none_left
    refine positive (UInt64.toNat_inj.mp ?_)
    rw [counted.toNat_eq j]
    refine List.countP_eq_zero.mpr fun d member => ?_
    simpa using fun ne => none_left ⟨d, member, ne⟩
  · rintro ⟨d, member, ne⟩ zero
    exact ne (counted.recorded_ok zero member)

omit [DecidableEq T] in
/-- A report starts only a job that was restartable, and by the status OK. -/
theorem restartable_of_starts {G : Graph J T D} {s : State J T D} {d : D} (counted : Counted G s)
    (changed : status G s d ≠ s.oldStatus d) (zero : (settle G d s).unsatisfied (G.target d) = 0) :
    Restartable G s (G.target d) ∧ status G s d = .ok := by
  have inside : d ∈ G.dependencies (G.target d) := (G.mem_dependencies d _).mpr rfl
  have recorded : ∀ e ∈ G.dependencies (G.target d),
      Function.update s.oldStatus d (status G s d) e = .ok := by
    intro e member
    have ok := (counted_settle counted d).recorded_ok zero member
    rwa [settle_oldStatus] at ok
  have ok : status G s d = .ok := by simpa using recorded d inside
  refine ⟨⟨(counted.ne_zero_iff _).mpr ⟨d, inside, fun same => changed (ok.trans same.symm)⟩, ?_⟩, ok⟩
  intro e member ne
  by_cases same : e = d
  · exact same ▸ ok
  · have recorded_e := recorded e member
    rw [Function.update_of_ne same] at recorded_e
    exact absurd recorded_e ne

omit [DecidableEq T] in
/-- A report makes no job restartable. -/
theorem restartable_of_settle {G : Graph J T D} {s : State J T D} {d : D} {j : J}
    (counted : Counted G s) (after : Restartable G (settle G d s) j) : Restartable G s j := by
  obtain ⟨positive, all_ok⟩ := after
  simp only [settle_oldStatus, status_settle] at all_ok
  obtain ⟨e, member, ne⟩ := ((counted_settle counted d).ne_zero_iff j).mp positive
  rw [settle_oldStatus] at ne
  have other : e ≠ d := by
    rintro rfl
    rw [Function.update_self] at ne
    exact ne (all_ok e member (by rwa [Function.update_self]))
  rw [Function.update_of_ne other] at ne
  refine ⟨(counted.ne_zero_iff j).mpr ⟨e, member, ne⟩, fun f inside ne_f => ?_⟩
  by_cases same : f = d
  · subst f
    by_contra not_ok
    exact not_ok (all_ok d inside (by rwa [Function.update_self]))
  · exact all_ok f inside (by rwa [Function.update_of_ne same])

/-- No job has more than one launch, and one that has a launch is not restartable. -/
def Calm (G : Graph J T D) (s : State J T D) : Prop :=
  ∀ j, launches s j = 0 ∨ launches s j = 1 ∧ ¬ Restartable G s j

omit [DecidableEq T] in
theorem calm_settle {G : Graph J T D} {s : State J T D} {d : D} (counted : Counted G s)
    (changed : status G s d ≠ s.oldStatus d) (calm : Calm G s) : Calm G (settle G d s) := by
  intro j
  have kept : ¬ Restartable G s j → ¬ Restartable G (settle G d s) j :=
    fun not_before after => not_before (restartable_of_settle counted after)
  by_cases starts : status G s d ≠ .fail ∧ (settle G d s).unsatisfied (G.target d) = 0
  · have count : launches (settle G d s) j = launches (start s (G.target d)) j := by
      simp only [launches, settle_threads, if_pos starts, settle_log, start]
    rw [count, launches_start]
    by_cases same : G.target d = j
    · subst j
      have before := (calm _).resolve_right fun both =>
        both.2 (restartable_of_starts counted changed starts.2).1
      exact Or.inr ⟨by simp [before], fun after => after.1 starts.2⟩
    · rw [if_neg same]
      exact (calm j).imp_right fun both => ⟨both.1, kept both.2⟩
  · have count : launches (settle G d s) j = launches s j := by
      simp only [launches, settle_threads, if_neg starts, settle_log]
    rw [count]
    exact (calm j).imp_right fun both => ⟨both.1, kept both.2⟩

omit [DecidableEq T] in
/-- A report of another status than OK starts nothing. -/
theorem launches_settle_of_ne_ok {G : Graph J T D} {s : State J T D} {d : D} (counted : Counted G s)
    (changed : status G s d ≠ s.oldStatus d) (not_ok : status G s d ≠ .ok) (j : J) :
    launches (settle G d s) j = launches s j := by
  have stays : ¬ (status G s d ≠ .fail ∧ (settle G d s).unsatisfied (G.target d) = 0) :=
    fun starts => not_ok (restartable_of_starts counted changed starts.2).2
  simp only [launches, settle_threads, if_neg stays, settle_log]

/-! ### The writes around the reports -/

omit [DecidableEq T] [DecidableEq D] in
theorem launches_opening {G : Graph J T D} {s s' : State J T D} {a : Action J} (opened : Opening G s a s')
    (j : J) : launches s' j = launches s j := by
  cases opened with
  | takeCheck at_i checks => exact launches_setThread at_i rfl rfl rfl rfl
  | _ => rfl

omit [DecidableEq T] [DecidableEq D] in
/-- Opening writes concern neither the records nor what they are compared with. -/
theorem restartable_opening {G : Graph J T D} {s s' : State J T D} {a : Action J}
    (opened : Opening G s a s') (j : J) : Restartable G s' j ↔ Restartable G s j := by
  cases opened <;> exact Iff.rfl

theorem launches_closing {G : Graph J T D} {admits : D → UInt32 → Prop} {s s' : State J T D}
    {a : Action J} (closed : Closing G admits s a s') (once : ∀ j, launches s j ≤ 1) (j : J) :
    launches s' j ≤ 1 := by
  have kept {s' : State J T D} (same : launches s' j = launches s j) : launches s' j ≤ 1 :=
    same.trans_le (once j)
  cases closed with
  | nothing => exact once j
  | @startFree k free submitted idle unentered =>
      rw [launches_start]
      by_cases same : k = j
      · subst k
        have no_thread : (s.threads.countP fun th => th.job = j ∧ th.phase.starting) = 0 :=
          List.countP_eq_zero.mpr fun th member => by simp [idle th member]
        rw [launches, no_thread, List.count_eq_zero.mpr unentered]
        simp
      · rw [if_neg same]
        exact once j
  | enter at_i pending =>
      exact kept (launches_setThread at_i rfl rfl (by rw [pending]; rfl) rfl)
  | share at_i locking live =>
      exact kept (launches_setThread at_i rfl rfl (by rw [locking]; rfl) rfl)
  | skip at_i locking expired origin =>
      exact kept (launches_setThread at_i rfl rfl (by rw [locking]; rfl) rfl)
  | acquire at_i locking expired origin admitted =>
      exact kept (launches_setThread at_i rfl rfl (by rw [locking]; rfl) rfl)
  | abort at_i locking =>
      refine le_trans ?_ (once j)
      exact launches_leave at_i (by rw [locking]; rfl) rfl rfl (Or.inl rfl)
  | run at_i locked =>
      refine le_trans ?_ (once j)
      exact launches_leave at_i (by rw [locked]; rfl) rfl rfl (Or.inr rfl)
  | setRunning at_i running => exact once j
  | endRun at_i running result =>
      exact kept (launches_setThread at_i rfl rfl (by rw [running]; rfl) (List.count_cons_of_ne (fun h => by cases h)))
  | complete at_i ended =>
      exact kept (launches_setThread at_i rfl rfl (by rw [ended]; rfl) (List.count_cons_of_ne (fun h => by cases h)))
  | give at_i dropping member still =>
      exact kept (launches_setThread at_i rfl rfl rfl rfl)
  | giveLast at_i dropping member last object origin =>
      exact kept (launches_setThread at_i rfl rfl rfl rfl)
  | @exit i th at_i dropping empty checked =>
      have idle : th.phase.starting = false := by
        revert dropping
        cases th.phase <;> simp [Phase.dropping, Phase.starting]
      exact kept (launches_setThread at_i rfl rfl (by rw [idle]; rfl) rfl)

/-! ### Runs -/

/-- The condition on a step: when it may start jobs, no job that has a thread on its way to `run()` or
    has entered `run()` is restartable. -/
def StartsOnce (G : Graph J T D) (s : State J T D) (a : Action J) : Prop :=
  a.checks → ∀ j ∈ s.jobs, 0 < launches s j → ¬ Restartable G s j

instance (G : Graph J T D) (s : State J T D) (a : Action J) : Decidable (StartsOnce G s a) :=
  inferInstanceAs (Decidable (_ → _))

omit [DecidableEq T] [DecidableEq D] in
/-- Only submitted jobs have launches. -/
theorem submitted_of_launches {G : Graph J T D} {s : State J T D} (attached : Attached G s) {j : J}
    (positive : 0 < launches s j) : j ∈ s.jobs := by
  rcases Nat.add_pos_iff_pos_or_pos.mp positive with thread | entry
  · obtain ⟨th, member, holds⟩ := List.countP_pos_iff.mp thread
    simp only [decide_eq_true_eq] at holds
    exact holds.1 ▸ attached.threads th member
  · exact attached.entered j (List.count_pos_iff.mp entry)

theorem step_once {G : Graph J T D} {s s' : State J T D} {a : Action J} (run : (system G).Reachable s)
    (met : StartsOnce G s a) (next : (system G).next s a s') (once : ∀ j, launches s j ≤ 1) :
    ∀ j, launches s' j ≤ 1 := by
  obtain ⟨s₁, s₂, opened, reported, closed⟩ := moves_of_reachable run next
  have ordered₁ := ordered_opening opened (ordered_of_reachable run)
  have once₁ : ∀ j, launches s₁ j ≤ 1 := fun j => launches_opening opened j ▸ once j
  refine launches_closing closed ?_
  by_cases checking : a.checks
  · -- The reports may start jobs, but only those without a launch.
    have calm₁ : Calm G s₁ := by
      intro j
      rcases Nat.eq_zero_or_pos (launches s₁ j) with zero | positive
      · exact Or.inl zero
      · refine Or.inr ⟨Nat.le_antisymm (once₁ j) positive, fun after => ?_⟩
        rw [launches_opening opened] at positive
        have submitted := submitted_of_launches (attached_of_reachable run) positive
        exact met checking j submitted positive ((restartable_opening opened j).mp after)
    have both : Ordered G s₂ ∧ Calm G s₂ := by
      clear closed
      induction reported with
      | refl => exact ⟨ordered₁, calm₁⟩
      | tail _ one ih =>
          refine ⟨ordered_report one ih.1, ?_⟩
          cases one with
          | settle submitted unlocked changed source => exact calm_settle ih.1.counted changed ih.2
          | addDependent submitted => exact ih.2
    exact fun j => (both.2 j).elim (fun zero => zero ▸ Nat.zero_le 1) (fun one => one.1.le)
  · have both : Ordered G s₂ ∧ ∀ j, launches s₂ j ≤ 1 := by
      clear closed
      induction reported with
      | refl => exact ⟨ordered₁, once₁⟩
      | tail _ one ih =>
          refine ⟨ordered_report one ih.1, ?_⟩
          cases one with
          | settle submitted unlocked changed source =>
              have not_ok := source.resolve_left checking
              exact fun j => launches_settle_of_ne_ok ih.1.counted changed not_ok j ▸ ih.2 j
          | addDependent submitted => exact ih.2
    exact both.2

/-- In a run where no check finds a launched job restartable, each job enters `run()` at most once. -/
theorem runs_at_most_once (G : Graph J T D) {s : State J T D}
    (run : (system G).RunUnder (StartsOnce G) s) (j : J) : s.log.count (.entered j) ≤ 1 := by
  have once : ∀ j, launches s j ≤ 1 := by
    refine run.invariant (fun s => ∀ j, launches s j ≤ 1) ?_ fun s a s' run met next =>
      step_once run.reachable met next
    rintro _ rfl j
    exact Nat.zero_le 1
  exact (Nat.le_add_left _ _).trans (once j)

/-- The jobs of `runs_twice` with one token each: job 0 waits, is started by the end of job 1 and runs. -/
theorem runs_at_most_once_tokens :
    ∃ s, (system (tokenGraph 3 2 ![1, 1, 1])).RunUnder (StartsOnce (tokenGraph 3 2 ![1, 1, 1])) s ∧
      s.log.count (.entered 0) = 1 ∧ s.log.count (.entered 0) ≤ 1 := by
  have executed : ((TransitionSystem.runActions
      (TransitionSystem.guarded (StartsOnce (tokenGraph 3 2 ![1, 1, 1]))
        (step (tokenGraph 3 2 ![1, 1, 1])))
      [.submit 1, .submit 2, .thread 0 .enter, .thread 0 .lockNext, .thread 0 .run, .thread 1 .enter,
        .thread 1 .lockNext, .thread 1 .run, .submit 0, .thread 0 (.endRun true), .thread 0 .complete,
        .thread 0 (.drop 0), .thread 0 .check, .thread 0 .check, .thread 0 .check, .thread 0 .exit,
        .thread 2 .enter, .thread 2 .lockNext, .thread 2 .run]
      (initial (tokenGraph 3 2 ![1, 1, 1]))).map fun s => s.log.count (.entered 0)) = some 1 := by decide
  obtain ⟨s, run, entered⟩ := TransitionSystem.exists_runUnder_of_runActions executed
  exact ⟨s, run, entered, runs_at_most_once _ run 0⟩

end Experimaestro.Scheduler

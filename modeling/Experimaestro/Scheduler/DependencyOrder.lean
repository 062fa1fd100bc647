/-
Module: Experimaestro.Scheduler.DependencyOrder
Layer: Scheduler
Purpose: The order of jobs. `Ordered` is the invariant of the scheduler about the past: the counter
  `_unsatisfied` of a job is the number of its dependencies not recorded as OK, a job recorded or known
  as DONE has finished with DONE before, and a start thread exists only for a job all of whose parents
  have finished with DONE. The start thread does not look at job dependencies again, so that the order of
  runs rests on the counter alone.
Imports: Experimaestro.Scheduler.Moves
Trusted boundary: none (fully proved)
Main exports: outstanding, ParentsDone, Ordered, ordered_of_reachable, dependency_order
Open obligations: none
-/
import Mathlib.Data.List.Basic
import Mathlib.Tactic.Common
import Experimaestro.Scheduler.Moves

namespace Experimaestro.Scheduler

variable {J T D : Type} [DecidableEq J] [DecidableEq T] [DecidableEq D]

/-! ### The counter -/

/-- The number of dependencies of a job that are not recorded as OK. -/
def outstanding (G : Graph J T D) (s : State J T D) (j : J) : ℕ :=
  (G.dependencies j).countP fun d => s.oldStatus d ≠ .ok

/-- Recording one status changes a count by the difference of satisfactions. -/
theorem countP_update {d : D} (f : D → DependencyStatus) (new : DependencyStatus) :
    ∀ {l : List D}, l.Nodup → d ∈ l →
      ((l.countP fun e => Function.update f d new e ≠ .ok : ℕ) : ℤ) =
        (l.countP fun e => f e ≠ .ok : ℕ) - (satisfaction new - satisfaction (f d))
  | [], _, member => by cases member
  | e :: l, nodup, member => by
      obtain ⟨notin, nodup⟩ := List.nodup_cons.mp nodup
      by_cases same : e = d
      · subst e
        have others : (l.countP fun e => Function.update f d new e ≠ .ok) =
            l.countP fun e => f e ≠ .ok := by
          refine List.countP_congr fun e inside => ?_
          have ne : e ≠ d := fun same => notin (same ▸ inside)
          rw [Function.update_of_ne ne]
        rw [List.countP_cons, List.countP_cons, others, Function.update_self]
        cases new <;> cases f d <;> simp [satisfaction]
      · have inside : d ∈ l := (List.mem_cons.mp member).resolve_left (Ne.symm same)
        have ih := countP_update f new nodup inside
        rw [List.countP_cons, List.countP_cons, Function.update_of_ne same]
        push_cast
        omega

omit [DecidableEq T] [DecidableEq J] in
/-- The count of a job does not depend on what is recorded for the dependencies of other jobs. -/
theorem outstanding_of_ne {G : Graph J T D} {s s' : State J T D} {d : D} {new : DependencyStatus} {j : J}
    (recorded : s'.oldStatus = Function.update s.oldStatus d new) (ne : j ≠ G.target d) :
    outstanding G s' j = outstanding G s j := by
  refine List.countP_congr fun e member => ?_
  have other : e ≠ d := by
    rintro rfl
    exact ne ((G.mem_dependencies e j).mp member).symm
  rw [recorded, Function.update_of_ne other]

/-- `_unsatisfied` as the counter it is meant to be. -/
def Counted (G : Graph J T D) (s : State J T D) : Prop :=
  ∀ j, s.unsatisfied j = UInt64.ofInt (outstanding G s j)

theorem ofInt_sub (x y : ℤ) : UInt64.ofInt (x - y) = UInt64.ofInt x - UInt64.ofInt y := by
  rw [Int.sub_eq_add_neg, UInt64.ofInt_add, UInt64.ofInt_neg, ← UInt64.sub_eq_add_neg]

omit [DecidableEq T] in
theorem counted_settle {G : Graph J T D} {s : State J T D} (counted : Counted G s) (d : D) :
    Counted G (settle G d s) := by
  intro j
  rw [settle_unsatisfied]
  by_cases same : j = G.target d
  · subst j
    have changed := countP_update s.oldStatus (status G s d) (G.nodup (G.target d))
      ((G.mem_dependencies d _).mpr rfl)
    rw [Function.update_self, counted, ← ofInt_sub, outstanding, ← changed, outstanding, settle_oldStatus]
  · rw [Function.update_of_ne same, counted, outstanding_of_ne (settle_oldStatus G d s) same]

omit [DecidableEq T] [DecidableEq J] [DecidableEq D] in
/-- The counter read as a number: it never wraps. -/
theorem Counted.toNat_eq {G : Graph J T D} {s : State J T D} (counted : Counted G s) (j : J) :
    (s.unsatisfied j).toNat = outstanding G s j := by
  have bound : outstanding G s j < 2 ^ 64 :=
    lt_of_le_of_lt List.countP_le_length (G.length_lt j)
  rw [counted j, UInt64.ofInt, UInt64.toNat_ofNat']
  omega

omit [DecidableEq T] [DecidableEq J] [DecidableEq D] in
/-- When the counter is zero every dependency is recorded as OK. -/
theorem Counted.recorded_ok {G : Graph J T D} {s : State J T D} (counted : Counted G s) {j : J}
    (zero : s.unsatisfied j = 0) {d : D} (member : d ∈ G.dependencies j) : s.oldStatus d = .ok := by
  have none_left : outstanding G s j = 0 := by
    rw [← counted.toNat_eq j, zero]
    rfl
  simpa using List.countP_eq_zero.mp none_left d member

/-! ### The past -/

/-- Every job that `j` depends on has finished with DONE. -/
def ParentsDone (G : Graph J T D) (log : List (Event J)) (j : J) : Prop :=
  ∀ k, DependsOn G.dependencies G.origin k j → .finished k .done ∈ log

omit [DecidableEq T] [DecidableEq J] [DecidableEq D] in
theorem ParentsDone.mono {G : Graph J T D} {log log' : List (Event J)} {j : J}
    (parents : ParentsDone G log j) (more : log ⊆ log') : ParentsDone G log' j :=
  fun k depends => more (parents k depends)

/-- The invariant. A job that was given a state by a thread is included because its thread was started
    after its parents were done. -/
structure Ordered (G : Graph J T D) (s : State J T D) : Prop where
  counted : Counted G s
  done : ∀ k, s.state k = .done → .finished k .done ∈ s.log
  recorded : ∀ d k, G.origin d = .job k → s.oldStatus d = .ok → .finished k .done ∈ s.log
  threads : ∀ th ∈ s.threads, ParentsDone G s.log th.job
  touched : ∀ j, s.state j ≠ .waiting → ParentsDone G s.log j
  entered : ∀ j after before, s.log = after ++ .entered j :: before → ParentsDone G before j

omit [DecidableEq T] [DecidableEq J] [DecidableEq D] in
theorem ordered_initial (G : Graph J T D) : Ordered G (initial G) where
  counted j := by
    have all : outstanding G (initial G) j = (G.dependencies j).length :=
      List.countP_eq_length.mpr fun d _ => by simp [initial]
    have bound := G.length_lt j
    rw [all]
    change UInt64.ofNat _ = _
    rw [UInt64.ofInt]
    congr 1
    omega
  done k h := by cases h
  recorded d k _ h := by cases h
  threads th member := by cases member
  touched j h := absurd rfl h
  entered j after before h := by simp [initial] at h

/-! ### Each write keeps the invariant -/

omit [DecidableEq T] [DecidableEq J] [DecidableEq D] in
/-- Writes other than reports: the counters and records stay, the threads are those of before with the
    same jobs, and what is new in the states and in the log comes from one of them. -/
theorem Ordered.update {G : Graph J T D} {s s' : State J T D} (ordered : Ordered G s)
    (unsatisfied : s'.unsatisfied = s.unsatisfied) (oldStatus : s'.oldStatus = s.oldStatus)
    (log : s'.log = s.log ∨
      ∃ e, s'.log = e :: s.log ∧ ∀ j, e = .entered j → ∃ th ∈ s.threads, th.job = j)
    (threads : ∀ th ∈ s'.threads, ∃ old ∈ s.threads, old.job = th.job)
    (done : ∀ k, s'.state k = .done → s.state k = .done ∨ .finished k .done ∈ s'.log)
    (touched : ∀ j, s'.state j ≠ .waiting → s.state j ≠ .waiting ∨ ∃ th ∈ s.threads, th.job = j) :
    Ordered G s' := by
  have more : s.log ⊆ s'.log := by
    rcases log with same | ⟨e, longer, _⟩
    · rw [same]
      exact fun _ => id
    · rw [longer]
      exact List.subset_cons_self _ _
  refine ⟨?_, fun k h => ?_, fun d k origin h => ?_, fun th member => ?_, fun j h => ?_, ?_⟩
  · intro j
    rw [unsatisfied, ordered.counted j, outstanding, outstanding, oldStatus]
  · rcases done k h with old | new
    · exact more (ordered.done k old)
    · exact new
  · rw [oldStatus] at h
    exact more (ordered.recorded d k origin h)
  · obtain ⟨old, inside, job⟩ := threads th member
    exact job ▸ (ordered.threads old inside).mono more
  · rcases touched j h with old | ⟨th, inside, rfl⟩
    · exact (ordered.touched j old).mono more
    · exact (ordered.threads th inside).mono more
  · intro j after before split
    rcases log with same | ⟨e, longer, enters⟩
    · exact ordered.entered j after before (same ▸ split)
    · rw [longer] at split
      cases after with
      | nil =>
          obtain ⟨rfl, rfl⟩ := List.cons.inj split
          obtain ⟨th, inside, rfl⟩ := enters j rfl
          exact ordered.threads th inside
      | cons _ after => exact ordered.entered j after before (List.cons.inj split).2

omit [DecidableEq T] [DecidableEq D] in
theorem ordered_opening {G : Graph J T D} {s s' : State J T D} {a : Action J} (opened : Opening G s a s')
    (ordered : Ordered G s) : Ordered G s' := by
  cases opened with
  | nothing => exact ordered
  | enlist fresh => exact { ordered with }
  | finish at_i ended => exact { ordered with }
  | @takeCheck i th d rest at_i checks =>
      refine ordered.update rfl rfl (Or.inl rfl) ?_ (fun _ => Or.inl) fun _ => Or.inl
      exact forall_setThread (fun th member => ⟨th, member, rfl⟩) ⟨th, List.mem_of_getElem? at_i, rfl⟩

omit [DecidableEq T] in
/-- The report that starts a thread: all its dependencies are recorded as OK, the job dependencies among
    them at a time when the job was DONE. -/
theorem ordered_settle {G : Graph J T D} {s : State J T D} (ordered : Ordered G s) (d : D) :
    Ordered G (settle G d s) := by
  have counted := counted_settle ordered.counted d
  have recorded : ∀ e k, G.origin e = .job k → (settle G d s).oldStatus e = .ok →
      .finished k .done ∈ s.log := by
    intro e k origin h
    rw [settle_oldStatus] at h
    by_cases same : e = d
    · subst e
      rw [Function.update_self] at h
      refine ordered.done k ?_
      simp only [status, origin] at h
      split at h
      · cases h
      · assumption
      · cases h
    · rw [Function.update_of_ne same] at h
      exact ordered.recorded e k origin h
  refine ⟨counted, ?_, ?_, ?_, ?_, ?_⟩
  · simpa using ordered.done
  · simpa using recorded
  · rw [settle_log]
    refine forall_settle ordered.threads fun _ zero k depends => ?_
    obtain ⟨e, member, origin⟩ := depends
    exact recorded e k origin (counted.recorded_ok zero member)
  · simpa using ordered.touched
  · simpa using ordered.entered

omit [DecidableEq T] in
theorem ordered_report {G : Graph J T D} {s s' : State J T D} {a : Action J} (reported : Report G a s s')
    (ordered : Ordered G s) : Ordered G s' := by
  cases reported with
  | settle submitted unlocked changed source => exact ordered_settle ordered _
  | addDependent submitted => exact { ordered with }

theorem ordered_closing {G : Graph J T D} {admits : D → UInt32 → Prop} {s s' : State J T D}
    {a : Action J} (closed : Closing G admits s a s') (ordered : Ordered G s) : Ordered G s' := by
  -- A write to one thread only.
  have replaced {s' : State J T D} {i : ℕ} {th new : Thread J D} (at_i : s.threads[i]? = some th)
      (threads : s'.threads = (s.setThread i new).threads) (job : new.job = th.job) :
      ∀ th ∈ s'.threads, ∃ old ∈ s.threads, old.job = th.job := by
    rw [threads]
    exact forall_setThread (fun th member => ⟨th, member, rfl⟩)
      ⟨th, List.mem_of_getElem? at_i, job.symm⟩
  -- A write to the state of the thread's job.
  have touches {j : J} {new : JobState} {th : Thread J D} (member : th ∈ s.threads)
      (h : (Function.update s.state th.job new) j ≠ .waiting) :
      s.state j ≠ .waiting ∨ ∃ th ∈ s.threads, th.job = j := by
    by_cases same : j = th.job
    · exact Or.inr ⟨th, member, same.symm⟩
    · rw [Function.update_of_ne same] at h
      exact Or.inl h
  have not_done {k j : J} {new : JobState} (ne : new ≠ .done)
      (h : Function.update s.state j new k = .done) : s.state k = .done := by
    by_cases same : k = j
    · rw [same, Function.update_self] at h
      exact absurd h ne
    · rwa [Function.update_of_ne same] at h
  cases closed with
  | nothing => exact ordered
  | @startFree j free submitted idle unentered =>
      refine ⟨ordered.counted, ordered.done, ordered.recorded, ?_, ordered.touched, ordered.entered⟩
      refine forall_start ordered.threads fun k depends => ?_
      obtain ⟨d, member, _⟩ := depends
      rw [free] at member
      cases member
  | enter at_i pending =>
      exact ordered.update rfl rfl (Or.inl rfl) (replaced at_i rfl rfl) (fun _ => Or.inl) fun _ => Or.inl
  | share at_i locking live =>
      exact ordered.update rfl rfl (Or.inl rfl) (replaced at_i rfl rfl) (fun _ => Or.inl) fun _ => Or.inl
  | skip at_i locking expired origin =>
      exact ordered.update rfl rfl (Or.inl rfl) (replaced at_i rfl rfl) (fun _ => Or.inl) fun _ => Or.inl
  | acquire at_i locking expired origin admitted =>
      exact ordered.update rfl rfl (Or.inl rfl) (replaced at_i rfl rfl) (fun _ => Or.inl) fun _ => Or.inl
  | abort at_i locking =>
      exact ordered.update rfl rfl (Or.inl rfl) (replaced at_i rfl rfl)
        (fun _ h => Or.inl (not_done (by decide) h)) fun _ => touches (List.mem_of_getElem? at_i)
  | @run i th at_i locked =>
      refine ordered.update rfl rfl (Or.inr ⟨_, rfl, fun j same => ?_⟩) (replaced at_i rfl rfl)
        (fun _ => Or.inl) fun _ => Or.inl
      exact ⟨th, List.mem_of_getElem? at_i, Event.entered.inj same⟩
  | setRunning at_i running =>
      exact ordered.update rfl rfl (Or.inl rfl) (fun th member => ⟨th, member, rfl⟩)
        (fun _ h => Or.inl (not_done (by decide) h)) fun _ => touches (List.mem_of_getElem? at_i)
  | @endRun i th success new at_i running result =>
      refine ordered.update rfl rfl (Or.inr ⟨_, rfl, nofun⟩) (replaced at_i rfl rfl) (fun k h => ?_)
        fun _ => touches (List.mem_of_getElem? at_i)
      change Function.update s.state th.job new k = .done at h
      by_cases same : k = th.job
      · rw [same, Function.update_self] at h
        subst h
        exact Or.inr (same ▸ List.mem_cons_self ..)
      · rw [Function.update_of_ne same] at h
        exact Or.inl h
  | complete at_i ended =>
      exact ordered.update rfl rfl (Or.inr ⟨_, rfl, nofun⟩) (replaced at_i rfl rfl) (fun _ => Or.inl)
        fun _ => Or.inl
  | give at_i dropping member still =>
      exact ordered.update rfl rfl (Or.inl rfl) (replaced at_i rfl rfl) (fun _ => Or.inl) fun _ => Or.inl
  | giveLast at_i dropping member last object origin =>
      exact ordered.update rfl rfl (Or.inl rfl) (replaced at_i rfl rfl) (fun _ => Or.inl) fun _ => Or.inl
  | exit at_i dropping empty checked =>
      exact ordered.update rfl rfl (Or.inl rfl) (replaced at_i rfl rfl) (fun _ => Or.inl) fun _ => Or.inl

theorem ordered_of_reachable {G : Graph J T D} {s : State J T D} (run : (system G).Reachable s) :
    Ordered G s :=
  reachable_invariant (Ordered G) (ordered_initial G) ordered_opening ordered_report ordered_closing run

/-! ### The result -/

/-- In every reachable state `_unsatisfied` of a submitted job is the number of its dependencies not
    recorded as OK, and wherever the past shows a job entering `run()`, every job it depends on had
    finished with DONE before. -/
theorem dependency_order (G : Graph J T D) {s : State J T D} (run : (system G).Reachable s) :
    (∀ j ∈ s.jobs,
      (s.unsatisfied j).toNat = (G.dependencies j).countP fun d => s.oldStatus d ≠ .ok) ∧
    ∀ j after before, s.log = after ++ .entered j :: before →
      ∀ k, DependsOn G.dependencies G.origin k j → .finished k .done ∈ before :=
  ⟨fun j _ => (ordered_of_reachable run).counted.toNat_eq j, (ordered_of_reachable run).entered⟩

/-- In a chain of jobs the dependency `i` is the only one of the job `i + 1`. -/
def chainDependencies (n : ℕ) : Fin (n + 1) → List (Fin n) :=
  Fin.cases [] fun i => [i]

theorem chain_lt {n : ℕ} {k j : Fin (n + 1)}
    (path : Relation.TransGen
      (DependsOn (chainDependencies n) fun d => .job (T := Empty) d.castSucc) k j) : k < j := by
  have edge {k j : Fin (n + 1)}
      (h : DependsOn (chainDependencies n) (fun d => .job (T := Empty) d.castSucc) k j) : k < j := by
    obtain ⟨d, member, origin⟩ := h
    cases j using Fin.cases with
    | zero => cases member
    | succ i =>
        obtain rfl : d = i := by simpa [chainDependencies] using member
        obtain rfl : d.castSucc = k := by simpa using origin
        exact Fin.castSucc_lt_succ
  induction path with
  | single h => exact edge h
  | tail _ h ih => exact lt_trans ih (edge h)

/-- A chain: each of the jobs `1, …, n` depends on the one before. -/
def chain (n : ℕ) : Graph (Fin (n + 1)) Empty (Fin n) where
  dependencies := chainDependencies n
  origin d := .job d.castSucc
  target d := d.succ
  value _ := 0
  limit := Empty.elim
  jobId j := toString j
  address d := d
  mem_dependencies d j := by
    cases j using Fin.cases with
    | zero => simp [chainDependencies, Fin.succ_ne_zero]
    | succ i => simp [chainDependencies]
  nodup j := by cases j using Fin.cases <;> simp [chainDependencies]
  length_lt j := by cases j using Fin.cases <;> simp [chainDependencies]
  acyclic _ cycle := lt_irrefl _ (chain_lt cycle)

/-- The chain of two jobs, run to the point where the second one is in `run()`. -/
theorem dependency_order_chain :
    ∃ s, (system (chain 1)).Reachable s ∧ s.log.count (.entered 1) = 1 ∧
      (∀ j ∈ s.jobs,
        (s.unsatisfied j).toNat = ((chain 1).dependencies j).countP fun d => s.oldStatus d ≠ .ok) ∧
      ∀ j after before, s.log = after ++ .entered j :: before →
        ∀ k, DependsOn (chain 1).dependencies (chain 1).origin k j → .finished k .done ∈ before := by
  have executed : ((TransitionSystem.runActions (step (chain 1))
      [.submit 0, .submit 1, .thread 0 .enter, .thread 0 .run, .thread 0 (.endRun true),
        .thread 0 .complete, .thread 1 .enter, .thread 1 .lockNext, .thread 1 .run]
      (initial (chain 1))).map fun s => s.log.count (.entered 1)) = some 1 := by decide
  obtain ⟨s, run, entered⟩ := TransitionSystem.exists_reachable_of_runActions executed
  exact ⟨s, run, entered, dependency_order (chain 1) run⟩

end Experimaestro.Scheduler

/-
Module: Experimaestro.Scheduler.Moves
Layer: Scheduler
Purpose: What one action of the scheduler can do, said once. Every action is at most one write, then a
  sequence of reports and registrations of dependents, then at most one write: `step_moves`. `Opening`,
  `Report` and `Closing` list these writes with their guards, so that an invariant is shown once for each
  of them and `reachable_invariant` lifts it to all runs. `Attached` is the first such invariant: threads,
  dependents and pending checks belong to submitted jobs.
Imports: Experimaestro.Scheduler.Settling
Trusted boundary: none (fully proved)
Main exports: Opening, Report, Closing, Moves, Attached, step_moves, attached_of_reachable,
  reachable_invariant
Open obligations: none
-/
import Mathlib.Data.List.Basic
import Mathlib.Tactic.Common
import Experimaestro.Scheduler.Settling

namespace Experimaestro.Scheduler

variable {J T D : Type} [DecidableEq J] [DecidableEq T] [DecidableEq D]

/-- `Workspace::submit` enters a job in `waitingJobs` and `_jobs`. -/
def enlist (j : J) (s : State J T D) : State J T D :=
  { s with waitingJobs := j :: s.waitingJobs, jobs := j :: s.jobs }

/-- The write an action may begin with. -/
inductive Opening (G : Graph J T D) (s : State J T D) : Action J → State J T D → Prop where
  | nothing {a : Action J} : Opening G s a s
  | enlist {j : J} (fresh : ∀ k ∈ s.jobs, G.jobId k ≠ G.jobId j) :
      Opening G s (.submit j) (enlist j s)
  | finish {i : ℕ} {th : Thread J D} (at_i : s.threads[i]? = some th) (ended : th.phase = .ended) :
      Opening G s (.thread i .complete) (jobFinished s th.job)
  | takeCheck {i : ℕ} {th : Thread J D} {d : D} {rest : List D} (at_i : s.threads[i]? = some th)
      (checks : th.checks = d :: rest) :
      Opening G s (.thread i .check) (s.setThread i { th with checks := rest })

/-- The actions in which checks may find that a job has become ready. An aborting start also makes a
    check, of the dependency it could not lock. -/
def Action.checks : Action J → Bool
  | .submit _ | .thread _ .complete | .thread _ .check => true
  | _ => false

/-- A report, or the registration of a dependency of a submitted job. -/
inductive Report (G : Graph J T D) (a : Action J) (s : State J T D) : State J T D → Prop where
  | settle {d : D} (submitted : G.target d ∈ s.jobs) (unlocked : s.liveLock d = none)
      (changed : status G s d ≠ s.oldStatus d) (source : a.checks ∨ status G s d ≠ .ok) :
      Report G a s (settle G d s)
  | addDependent {d : D} (submitted : G.target d ∈ s.jobs) : Report G a s (addDependent G d s)

abbrev Reports (G : Graph J T D) (a : Action J) : State J T D → State J T D → Prop :=
  Relation.ReflTransGen (Report G a)

/-- The write an action may end with. `admits` is what is known of a newly granted token lock. -/
inductive Closing (G : Graph J T D) (admits : D → UInt32 → Prop) (s : State J T D) :
    Action J → State J T D → Prop where
  | nothing {a : Action J} : Closing G admits s a s
  | startFree {j : J} (free : G.dependencies j = []) (submitted : j ∈ s.jobs)
      (idle : ∀ th ∈ s.threads, th.job ≠ j) (unentered : .entered j ∉ s.log) :
      Closing G admits s (.submit j) (start s j)
  | enter {i : ℕ} {th : Thread J D} (at_i : s.threads[i]? = some th) (pending : th.phase = .pending) :
      Closing G admits s (.thread i .enter) (s.setThread i { th with phase := .locking (G.dependencies th.job) })
  | share {i : ℕ} {th : Thread J D} {d : D} {rest : List D} {l : ℕ} (at_i : s.threads[i]? = some th)
      (locking : th.phase = .locking (d :: rest)) (live : s.liveLock d = some l) :
      Closing G admits s (.thread i .lockNext)
        (s.setThread i { th with phase := .locking rest, locks := th.locks ++ [l] })
  | skip {i : ℕ} {th : Thread J D} {d : D} {rest : List D} {k : J} (at_i : s.threads[i]? = some th)
      (locking : th.phase = .locking (d :: rest)) (expired : s.liveLock d = none)
      (origin : G.origin d = .job k) :
      Closing G admits s (.thread i .lockNext)
        ({ s with currentLock := Function.update s.currentLock d none }.setThread i
          { th with phase := .locking rest })
  | acquire {i : ℕ} {th : Thread J D} {d : D} {rest : List D} {t : T}
      (at_i : s.threads[i]? = some th) (locking : th.phase = .locking (d :: rest))
      (expired : s.liveLock d = none) (origin : G.origin d = .token t)
      (admitted : admits d (s.usedTokens t)) :
      Closing G admits s (.thread i .lockNext)
        ({ s with
          usedTokens := Function.update s.usedTokens t (s.usedTokens t + G.value d)
          lockObjects := s.lockObjects ++ [d]
          currentLock := Function.update s.currentLock d (some s.lockObjects.length) }.setThread i
          { th with phase := .locking rest, locks := th.locks ++ [s.lockObjects.length] })
  | abort {i : ℕ} {th : Thread J D} {d : D} {rest : List D} (at_i : s.threads[i]? = some th)
      (locking : th.phase = .locking (d :: rest)) :
      Closing G admits s (.thread i .lockNext) ((s.setState th.job .ready).setThread i { th with phase := .aborting })
  | run {i : ℕ} {th : Thread J D} (at_i : s.threads[i]? = some th) (locked : th.phase = .locking []) :
      Closing G admits s (.thread i .run)
        { s.setThread i { th with phase := .running } with log := .entered th.job :: s.log }
  | setRunning {i : ℕ} {th : Thread J D} (at_i : s.threads[i]? = some th)
      (running : th.phase = .running) : Closing G admits s (.thread i .setRunning) (s.setState th.job .running)
  | endRun {i : ℕ} {th : Thread J D} {success : Bool} {new : JobState} (at_i : s.threads[i]? = some th)
      (running : th.phase = .running) (result : new = if success then .done else .error) :
      Closing G admits s (.thread i (.endRun success))
        { (s.setState th.job new).setThread i { th with phase := .ended } with
          log := .finished th.job new :: s.log }
  | complete {i : ℕ} {th : Thread J D} (at_i : s.threads[i]? = some th) (ended : th.phase = .ended) :
      Closing G admits s (.thread i .complete)
        { s.setThread i { th with phase := .releasing } with log := .completed th.job :: s.log }
  | give {i : ℕ} {th : Thread J D} {l : ℕ} (at_i : s.threads[i]? = some th)
      (dropping : th.phase.dropping) (member : l ∈ th.locks)
      (still : (s.setThread i { th with locks := th.locks.erase l }).Owned l ∨
        ∀ d, s.lockObjects[l]? = some d → ∀ t, G.origin d ≠ .token t) :
      Closing G admits s (.thread i (.drop l)) (s.setThread i { th with locks := th.locks.erase l })
  | giveLast {i : ℕ} {th : Thread J D} {l : ℕ} {d : D} {t : T} (at_i : s.threads[i]? = some th)
      (dropping : th.phase.dropping) (member : l ∈ th.locks)
      (last : ¬ (s.setThread i { th with locks := th.locks.erase l }).Owned l)
      (object : s.lockObjects[l]? = some d) (origin : G.origin d = .token t) :
      Closing G admits s (.thread i (.drop l))
        ({ s with usedTokens := Function.update s.usedTokens t (s.usedTokens t - G.value d) }.setThread
          i { th with locks := th.locks.erase l, checks := s.dependentsOf G (.token t) })
  | exit {i : ℕ} {th : Thread J D} (at_i : s.threads[i]? = some th) (dropping : th.phase.dropping)
      (empty : th.locks = []) (checked : th.checks = []) :
      Closing G admits s (.thread i .exit) (s.setThread i { th with phase := .exited })

/-- One action as an opening write, reports and a closing write. -/
def Moves (G : Graph J T D) (admits : D → UInt32 → Prop) (s : State J T D) (a : Action J)
    (s' : State J T D) : Prop :=
  ∃ s₁ s₂, Opening G s a s₁ ∧ Reports G a s₁ s₂ ∧ Closing G admits s₂ a s'

/-- What is kept by openings, reports and closings is kept by moves. -/
theorem Moves.preserves {G : Graph J T D} {admits : D → UInt32 → Prop} {a : Action J}
    (inv : State J T D → Prop) (opening : ∀ {s s'}, Opening G s a s' → inv s → inv s')
    (report : ∀ {s s'}, Report G a s s' → inv s → inv s')
    (closing : ∀ {s s'}, Closing G admits s a s' → inv s → inv s')
    {s s' : State J T D} (moves : Moves G admits s a s') (before : inv s) : inv s' := by
  obtain ⟨s₁, s₂, opened, reported, closed⟩ := moves
  have settled : inv s₂ := by
    clear closed
    induction reported with
    | refl => exact opening opened before
    | tail _ one ih => exact report one ih
  exact closing closed settled

omit [DecidableEq T] [DecidableEq J] [DecidableEq D] in
/-- What holds of every thread holds after one of them has been replaced by a thread it holds of. -/
theorem forall_setThread {s : State J T D} {P : Thread J D → Prop} {i : ℕ} {new : Thread J D}
    (holds : ∀ th ∈ s.threads, P th) (of_new : P new) : ∀ th ∈ (s.setThread i new).threads, P th := by
  intro th member
  rcases List.mem_or_eq_of_mem_set member with old | rfl
  · exact holds th old
  · exact of_new

omit [DecidableEq T] [DecidableEq J] [DecidableEq D] in
/-- What holds of every thread holds after one has been added that it holds of. -/
theorem forall_start {s : State J T D} {P : Thread J D → Prop} {j : J}
    (holds : ∀ th ∈ s.threads, P th)
    (of_new : P { job := j, phase := .pending, locks := [], checks := [] }) :
    ∀ th ∈ (start s j).threads, P th := by
  intro th member
  rcases List.mem_append.mp member with old | new
  · exact holds th old
  · exact List.mem_singleton.mp new ▸ of_new

omit [DecidableEq T] in
/-- The threads after a report, whether it starts one or not. -/
theorem forall_settle {G : Graph J T D} {s : State J T D} {P : Thread J D → Prop} {d : D}
    (holds : ∀ th ∈ s.threads, P th)
    (of_new : status G s d ≠ .fail → (settle G d s).unsatisfied (G.target d) = 0 →
      P { job := G.target d, phase := .pending, locks := [], checks := [] }) :
    ∀ th ∈ (settle G d s).threads, P th := by
  rw [settle_threads]
  split
  case isTrue both => exact forall_start holds (of_new both.1 both.2)
  case isFalse => exact holds

/-! ### Belonging to submitted jobs -/

/-- Dependents and threads belong to submitted jobs, the pending checks of a thread are about dependents,
    a locking thread has its own dependencies left, and only submitted jobs have entered `run()`. -/
structure Attached (G : Graph J T D) (s : State J T D) : Prop where
  dependents : ∀ d ∈ s.dependents, G.target d ∈ s.jobs
  threads : ∀ th ∈ s.threads, th.job ∈ s.jobs
  checks : ∀ th ∈ s.threads, ∀ d ∈ th.checks, d ∈ s.dependents
  rest : ∀ th ∈ s.threads, ∀ rest, th.phase = .locking rest → ∀ d ∈ rest, G.target d = th.job
  entered : ∀ j, .entered j ∈ s.log → j ∈ s.jobs

omit [DecidableEq T] [DecidableEq J] [DecidableEq D] in
theorem attached_initial (G : Graph J T D) : Attached G (initial G) := by
  constructor <;> intro _ member <;> cases member

omit [DecidableEq T] [DecidableEq J] [DecidableEq D] in
/-- Everything kept, one thread replaced by one of the same job. -/
theorem Attached.setThread {G : Graph J T D} {s s' : State J T D} (attached : Attached G s)
    {i : ℕ} {th new : Thread J D} (at_i : s.threads[i]? = some th)
    (threads : s'.threads = (s.setThread i new).threads) (job : new.job = th.job)
    (checks : ∀ d ∈ new.checks, d ∈ s.dependents)
    (rest : ∀ rest, new.phase = .locking rest → ∀ d ∈ rest, G.target d = th.job)
    (jobs : s'.jobs = s.jobs) (dependents : s'.dependents = s.dependents)
    (entered : ∀ j, .entered j ∈ s'.log → .entered j ∈ s.log ∨ j = th.job) : Attached G s' := by
  have member := List.mem_of_getElem? at_i
  refine ⟨?_, ?_, ?_, ?_, fun j inside => ?_⟩
  · rw [jobs, dependents]
    exact attached.dependents
  · rw [jobs, threads]
    exact forall_setThread attached.threads (job ▸ attached.threads th member)
  · rw [dependents, threads]
    exact forall_setThread attached.checks checks
  · rw [threads]
    exact forall_setThread attached.rest (job ▸ rest)
  · rw [jobs]
    rcases entered j inside with old | rfl
    · exact attached.entered j old
    · exact attached.threads th member

omit [DecidableEq T] [DecidableEq J] [DecidableEq D] in
/-- One thread added, of a submitted job. -/
theorem Attached.start {G : Graph J T D} {s : State J T D} (attached : Attached G s) {j : J}
    (submitted : j ∈ s.jobs) : Attached G (start s j) where
  dependents := attached.dependents
  threads := forall_start attached.threads submitted
  checks := forall_start attached.checks fun _ member => absurd member List.not_mem_nil
  rest := forall_start attached.rest fun _ phase => by cases phase
  entered := attached.entered

omit [DecidableEq T] [DecidableEq D] in
theorem attached_opening {G : Graph J T D} {s s' : State J T D} {a : Action J} (opened : Opening G s a s')
    (attached : Attached G s) : Attached G s' := by
  cases opened with
  | nothing => exact attached
  | enlist fresh =>
      exact
        { dependents := fun d member => List.mem_cons_of_mem _ (attached.dependents d member)
          threads := fun th member => List.mem_cons_of_mem _ (attached.threads th member)
          checks := attached.checks
          rest := attached.rest
          entered := fun j member => List.mem_cons_of_mem _ (attached.entered j member) }
  | finish at_i ended => exact ⟨attached.1, attached.2, attached.3, attached.4, attached.5⟩
  | @takeCheck i th d rest at_i checks =>
      have member := List.mem_of_getElem? at_i
      refine attached.setThread at_i rfl rfl (fun e inside => attached.checks th member e ?_)
        (attached.rest th member) rfl rfl fun _ => Or.inl
      rw [checks]
      exact List.mem_cons_of_mem _ inside

omit [DecidableEq T] in
theorem attached_report {G : Graph J T D} {s s' : State J T D} {a : Action J} (reported : Report G a s s')
    (attached : Attached G s) : Attached G s' := by
  cases reported with
  | @settle d submitted unlocked changed source =>
      constructor
      · simpa using attached.dependents
      · simpa using forall_settle attached.threads fun _ _ => submitted
      · simpa using forall_settle attached.checks fun _ _ _ member => absurd member List.not_mem_nil
      · exact forall_settle attached.rest fun _ _ _ phase => by cases phase
      · simpa using attached.entered
  | addDependent submitted =>
      refine ⟨fun e member => ?_, attached.threads, fun th member e inside => ?_, attached.rest,
        attached.entered⟩
      · rcases (List.mem_orderedInsert _).mp member with rfl | old
        · exact submitted
        · exact attached.dependents e old
      · exact (List.mem_orderedInsert _).mpr (Or.inr (attached.checks th member e inside))

theorem attached_closing {G : Graph J T D} {admits : D → UInt32 → Prop} {s s' : State J T D}
    {a : Action J} (closed : Closing G admits s a s') (attached : Attached G s) : Attached G s' := by
  cases closed with
  | nothing => exact attached
  | startFree free submitted idle unentered => exact attached.start submitted
  | @enter i th at_i pending =>
      refine attached.setThread at_i rfl rfl (attached.checks th (List.mem_of_getElem? at_i)) ?_ rfl rfl
        fun _ => Or.inl
      rintro _ ⟨⟩ d member
      exact (G.mem_dependencies d _).mp member
  | @share i th d rest l at_i locking live =>
      have member := List.mem_of_getElem? at_i
      refine attached.setThread at_i rfl rfl (attached.checks th member) ?_ rfl rfl fun _ => Or.inl
      rintro _ ⟨⟩ e inside
      exact attached.rest th member _ locking e (List.mem_cons_of_mem _ inside)
  | @skip i th d rest k at_i locking expired origin =>
      have member := List.mem_of_getElem? at_i
      refine attached.setThread at_i rfl rfl (attached.checks th member) ?_ rfl rfl fun _ => Or.inl
      rintro _ ⟨⟩ e inside
      exact attached.rest th member _ locking e (List.mem_cons_of_mem _ inside)
  | @acquire i th d rest t at_i locking expired origin admitted =>
      have member := List.mem_of_getElem? at_i
      refine attached.setThread at_i rfl rfl (attached.checks th member) ?_ rfl rfl fun _ => Or.inl
      rintro _ ⟨⟩ e inside
      exact attached.rest th member _ locking e (List.mem_cons_of_mem _ inside)
  | @abort i th d rest at_i locking =>
      exact attached.setThread at_i rfl rfl (attached.checks th (List.mem_of_getElem? at_i))
        (fun _ phase => by cases phase) rfl rfl fun _ => Or.inl
  | @run i th at_i locked =>
      refine attached.setThread at_i rfl rfl (attached.checks th (List.mem_of_getElem? at_i))
        (fun _ phase => by cases phase) rfl rfl fun j member => ?_
      rcases List.mem_cons.mp member with same | old
      · exact Or.inr (by injection same)
      · exact Or.inl old
  | setRunning at_i running => exact ⟨attached.1, attached.2, attached.3, attached.4, attached.5⟩
  | @endRun i th success new at_i running result =>
      exact attached.setThread at_i rfl rfl (attached.checks th (List.mem_of_getElem? at_i))
        (fun _ phase => by cases phase) rfl rfl fun j member =>
          Or.inl ((List.mem_cons.mp member).resolve_left nofun)
  | @complete i th at_i ended =>
      exact attached.setThread at_i rfl rfl (attached.checks th (List.mem_of_getElem? at_i))
        (fun _ phase => by cases phase) rfl rfl fun j member =>
          Or.inl ((List.mem_cons.mp member).resolve_left nofun)
  | @give i th l at_i dropping member still =>
      have inside := List.mem_of_getElem? at_i
      exact attached.setThread at_i rfl rfl (attached.checks th inside) (attached.rest th inside) rfl rfl
        fun _ => Or.inl
  | @giveLast i th l d t at_i dropping member last object origin =>
      exact attached.setThread at_i rfl rfl (fun e inside => (mem_dependentsOf.mp inside).1)
        (attached.rest th (List.mem_of_getElem? at_i)) rfl rfl fun _ => Or.inl
  | @exit i th at_i dropping empty checked =>
      exact attached.setThread at_i rfl rfl (attached.checks th (List.mem_of_getElem? at_i))
        (fun _ phase => by cases phase) rfl rfl fun _ => Or.inl

/-! ### Every action is a move -/

omit [DecidableEq T] in
/-- Reports about submitted jobs. -/
theorem Settles.reports {G : Graph J T D} {a : Action J} (source : a.checks) {allowed : D → Prop}
    {s s' : State J T D} (settles : Settles G allowed s s')
    (submitted : ∀ d, allowed d → G.target d ∈ s.jobs) : Reports G a s s' := by
  induction settles with
  | refl => exact .refl
  | tail before last ih =>
      have same : _ = s.jobs := (Settles.frame before).1
      cases last with
      | report member unlocked changed =>
          exact ih.tail (.settle (same ▸ submitted _ member) unlocked changed (Or.inl source))

omit [DecidableEq T] [DecidableEq J] [DecidableEq D] in
/-- The dependencies a check concerns belong to submitted jobs. -/
theorem Attached.concerned {G : Graph J T D} {s : State J T D} (attached : Attached G s) {d : D}
    (submitted : G.target d ∈ s.jobs) (e : D) (concerned : Concerned G s d e) : G.target e ∈ s.jobs := by
  rcases concerned with rfl | ⟨registered, _⟩
  · exact submitted
  · exact attached.dependents e registered

/-- A check of a dependency of a submitted job. -/
theorem check_reports {G : Graph J T D} {a : Action J} (source : a.checks) {n : ℕ} {s s' : State J T D}
    {d : D} (attached : Attached G s) (submitted : G.target d ∈ s.jobs)
    (h : check G n d s = some s') : Reports G a s s' :=
  (check_settles G n d s s' h).reports source (attached.concerned submitted)

/-- A check of a token dependency makes at most one report. -/
theorem check_token {G : Graph J T D} {n : ℕ} {s s' : State J T D} {d : D} {t : T}
    (origin : G.origin d = .token t) (unlocked : s.liveLock d = none)
    (h : check G n d s = some s') : s' = s ∨ status G s d ≠ s.oldStatus d ∧ s' = settle G d s := by
  cases n with
  | zero => cases h
  | succ n =>
      have ne : status G s d ≠ .fail := by
        simp only [status, origin]
        split <;> decide
      simp only [check, unlocked, Option.isSome_none, Bool.false_eq_true, if_false] at h
      by_cases same : status G s d = s.oldStatus d
      · rw [if_pos same, Option.some.injEq] at h
        exact Or.inl h.symm
      · rw [if_neg same, dependencyChanged_of_ne_fail ne, Option.map_some, Option.some.injEq] at h
        change record d _ _ = s' at h
        rw [← react_record] at h
        exact Or.inr ⟨same, h.symm⟩

omit [DecidableEq T] in
theorem attached_reports {G : Graph J T D} {a : Action J} {s s' : State J T D}
    (reported : Reports G a s s')
    (attached : Attached G s) : Attached G s' := by
  induction reported with
  | refl => exact attached
  | tail _ one ih => exact attached_report one ih

/-- The loop of `Workspace::submit` over the dependencies of a job already in `_jobs`. -/
theorem register_reports {G : Graph J T D} {a : Action J} (source : a.checks) {j : J} :
    ∀ {ds : List D} {s s' : State J T D}, Attached G s → j ∈ s.jobs → (∀ d ∈ ds, G.target d = j) →
      ds.foldlM (fun s d => let s := addDependent G d s; check G (depth s) d s) s = some s' →
      Reports G a s s'
  | [], s, s', _, _, _, h => by
      simp only [List.foldlM_nil, pure, Option.some.injEq] at h
      exact h ▸ .refl
  | d :: ds, s, s', attached, submitted, targets, h => by
      simp only [List.foldlM_cons, bind, Option.bind_eq_some_iff] at h
      obtain ⟨mid, first, others⟩ := h
      have target : G.target d ∈ s.jobs := targets d (List.mem_cons_self ..) ▸ submitted
      have added : Report G a s (addDependent G d s) := .addDependent target
      have attached' := attached_report added attached
      have settles := check_settles G _ d (addDependent G d s) mid first
      have reports := settles.reports source (attached'.concerned target)
      have jobs : mid.jobs = s.jobs := settles.frame.1
      refine ((Relation.ReflTransGen.single added).trans reports).trans ?_
      exact register_reports source (attached_reports reports attached') (jobs ▸ submitted)
        (fun e member => targets e (List.mem_cons_of_mem _ member)) others

/-- The rule of a token for a new lock. -/
def grants (G : Graph J T D) (d : D) (used : UInt32) : Prop :=
  ∀ t, G.origin d = .token t → ¬ G.value d + used > G.limit t

/-- The token lock, not yet alive, that an action asks for. -/
def Requests (G : Graph J T D) (s : State J T D) (a : Action J) (d : D) (t : T) : Prop :=
  ∃ i th rest, a = .thread i .lockNext ∧ s.threads[i]? = some th ∧ th.phase = .locking (d :: rest) ∧
    s.liveLock d = none ∧ G.origin d = .token t

section Actions

variable {G : Graph J T D} {admits : D → UInt32 → Prop} {s s' : State J T D}

theorem submit_moves {j : J} (attached : Attached G s) (h : submit G j s = some s') :
    Moves G admits s (.submit j) s' := by
  unfold submit at h
  split at h
  case isTrue known =>
      rw [Option.some.injEq] at h
      exact h ▸ ⟨s, s, .nothing, .refl, .nothing⟩
  case isFalse unknown =>
      have fresh : ∀ k ∈ s.jobs, G.jobId k ≠ G.jobId j := fun k member same => unknown ⟨k, member, same⟩
      have absent : j ∉ s.jobs := fun member => fresh j member rfl
      have opened : Opening G s (.submit j) (enlist j s) := .enlist fresh
      simp only [bind, Option.bind_eq_some_iff] at h
      obtain ⟨mid, registered, h⟩ := h
      have attached' := attached_opening opened attached
      have reports : Reports G (.submit j) (enlist j s) mid :=
        register_reports rfl attached' (List.mem_cons_self ..)
          (fun d member => (G.mem_dependencies d j).mp member) registered
      split at h
      case isTrue both =>
          -- Without dependencies nothing was reported, so no thread of this job exists yet.
          have free : G.dependencies j = [] := by simpa using (Bool.and_eq_true_iff.mp both).1
          rw [free, List.foldlM_nil] at registered
          have unchanged : enlist j s = mid := Option.some.inj registered
          rw [Option.some.injEq] at h
          subst unchanged h
          refine ⟨_, _, opened, reports, .startFree free (List.mem_cons_self ..) ?_ ?_⟩
          · exact fun th member same => absent (same ▸ attached.threads th member)
          · exact fun member => absent (attached.entered j member)
      case isFalse =>
          rw [Option.some.injEq] at h
          exact h ▸ ⟨_, _, opened, reports, .nothing⟩

theorem lockNext_moves {i : ℕ} {th : Thread J D} {d : D} {rest : List D} (attached : Attached G s)
    (granted : ∀ d t, Requests G s (.thread i .lockNext) d t → grants G d (s.usedTokens t) →
      admits d (s.usedTokens t))
    (at_i : s.threads[i]? = some th) (locking : th.phase = .locking (d :: rest))
    (h : lockNext G i th d rest s = some s') : Moves G admits s (.thread i .lockNext) s' := by
  have last {a : Action J} {s' : State J T D} (closed : Closing G admits s a s') : Moves G admits s a s' :=
    ⟨s, s, .nothing, .refl, closed⟩
  unfold lockNext lock at h
  cases live : s.liveLock d with
  | some l =>
      simp only [live, Option.some.injEq] at h
      exact h ▸ last (.share at_i locking live)
  | none =>
      cases origin : G.origin d with
      | job k =>
          simp only [live, origin, Option.some.injEq, Option.toList_none, List.append_nil] at h
          exact h ▸ last (.skip at_i locking live origin)
      | token t =>
          simp only [live, origin] at h
          by_cases full : G.value d + s.usedTokens t > G.limit t
          · simp only [if_pos full, bind, Option.bind_eq_some_iff, Option.some.injEq] at h
            obtain ⟨mid, checked, rfl⟩ := h
            have member := List.mem_of_getElem? at_i
            have target : G.target d = th.job :=
              attached.rest th member _ locking d (List.mem_cons_self ..)
            have submitted : G.target d ∈ s.jobs := target ▸ attached.threads th member
            have settles := check_settles G _ d s mid checked
            have blocked : status G s d ≠ .ok := by
              rw [UInt32.add_comm] at full
              simp only [status, origin, if_neg (UInt32.not_le.mpr full)]
              decide
            refine ⟨s, mid, .nothing, ?_, .abort (settles.thread at_i) locking⟩
            rcases check_token origin live checked with rfl | ⟨changed, rfl⟩
            · exact .refl
            · exact .single (.settle submitted live changed (Or.inr blocked))
          · simp only [if_neg full, Option.some.injEq] at h
            have admitted : admits d (s.usedTokens t) := by
              refine granted d t ⟨i, th, rest, rfl, at_i, locking, live, origin⟩ fun u same => ?_
              rw [origin, Resource.token.injEq] at same
              exact same ▸ full
            exact h ▸ last (.acquire at_i locking live origin admitted)

theorem drop_moves {i : ℕ} {th : Thread J D} {l : ℕ} (at_i : s.threads[i]? = some th)
    (dropping : th.phase.dropping) (member : l ∈ th.locks) (h : drop G i th l s = s') :
    Moves G admits s (.thread i (.drop l)) s' := by
  have last {a : Action J} {s' : State J T D} (closed : Closing G admits s a s') : Moves G admits s a s' :=
    ⟨s, s, .nothing, .refl, closed⟩
  unfold drop at h
  dsimp only at h
  by_cases owned : (s.setThread i { th with locks := th.locks.erase l }).Owned l
  · rw [if_pos owned] at h
    exact h ▸ last (.give at_i dropping member (Or.inl owned))
  · rw [if_neg owned] at h
    have objects : (s.setThread i { th with locks := th.locks.erase l }).lockObjects = s.lockObjects := rfl
    rw [objects] at h
    cases object : s.lockObjects[l]? with
    | none =>
        simp only [object] at h
        exact h ▸ last (.give at_i dropping member (Or.inr fun d same => by simp [object] at same))
    | some d =>
        cases origin : G.origin d with
        | job k =>
            simp only [object, origin] at h
            refine h ▸ last (.give at_i dropping member (Or.inr fun e same t => ?_))
            rw [object, Option.some.injEq] at same
            subst e
            rw [origin]
            exact nofun
        | token t =>
            simp only [object, origin] at h
            refine h ▸ last ?_
            have closed : Closing G admits s _ _ :=
              .giveLast at_i dropping member owned object origin
            simpa [State.setThread, State.dependentsOf] using closed

theorem complete_moves {i : ℕ} {th : Thread J D} (attached : Attached G s)
    (at_i : s.threads[i]? = some th) (ended : th.phase = .ended) {mid : State J T D}
    (h : jobCompleted G (check G (depth s)) th.job s = some mid) :
    Moves G admits s (.thread i .complete)
      { mid.setThread i { th with phase := .releasing } with log := .completed th.job :: mid.log } := by
  have settles := jobCompleted_settles h
  have opened : Opening G s (.thread i .complete) (jobFinished s th.job) := .finish at_i ended
  have reports : Reports G (.thread i .complete) (jobFinished s th.job) mid :=
    settles.reports rfl fun d concerned => attached.dependents d concerned.1
  have there : mid.threads[i]? = some th := settles.thread (s := jobFinished s th.job) at_i
  exact ⟨_, _, opened, reports, .complete there ended⟩

theorem threadCheck_moves {i : ℕ} {th : Thread J D} {d : D} {rest : List D} {n : ℕ}
    (attached : Attached G s) (at_i : s.threads[i]? = some th) (checks : th.checks = d :: rest)
    (h : check G n d (s.setThread i { th with checks := rest }) = some s') :
    Moves G admits s (.thread i .check) s' := by
  have opened : Opening G s (.thread i .check) (s.setThread i { th with checks := rest }) :=
    .takeCheck at_i checks
  have registered : d ∈ s.dependents :=
    attached.checks th (List.mem_of_getElem? at_i) d (checks ▸ List.mem_cons_self ..)
  exact ⟨_, _, opened,
    check_reports rfl (attached_opening opened attached) (attached.dependents d registered) h, .nothing⟩

/-- Every action is an opening write, reports and a closing write. -/
theorem step_moves {a : Action J} (attached : Attached G s)
    (granted : ∀ d t, Requests G s a d t → grants G d (s.usedTokens t) → admits d (s.usedTokens t))
    (h : step G a s = some s') : Moves G admits s a s' := by
  have last {a : Action J} {s' : State J T D} (closed : Closing G admits s a s') : Moves G admits s a s' :=
    ⟨s, s, .nothing, .refl, closed⟩
  cases a with
  | submit j => exact submit_moves attached h
  | thread i action =>
      simp only [step, Option.bind_eq_some_iff] at h
      obtain ⟨th, at_i, h⟩ := h
      cases action with
      | enter =>
          simp only [threadStep, Option.ite_none_right_eq_some, Option.some.injEq] at h
          obtain ⟨pending, rfl⟩ := h
          exact last (.enter at_i pending)
      | lockNext =>
          simp only [threadStep] at h
          split at h
          case h_1 d rest locking => exact lockNext_moves attached granted at_i locking h
          case h_2 => cases h
      | run =>
          simp only [threadStep, Option.ite_none_right_eq_some, Option.some.injEq] at h
          obtain ⟨locked, rfl⟩ := h
          exact last (.run at_i locked)
      | setRunning =>
          simp only [threadStep, Option.ite_none_right_eq_some, Option.some.injEq] at h
          obtain ⟨running, rfl⟩ := h
          exact last (.setRunning at_i running)
      | endRun success =>
          simp only [threadStep, Option.ite_none_right_eq_some, Option.some.injEq] at h
          obtain ⟨running, rfl⟩ := h
          exact last (.endRun at_i running rfl)
      | complete =>
          simp only [threadStep, Option.ite_none_right_eq_some, Option.map_eq_some_iff] at h
          obtain ⟨ended, mid, completed, rfl⟩ := h
          exact complete_moves attached at_i ended completed
      | drop l =>
          simp only [threadStep, Option.ite_none_right_eq_some, Option.some.injEq] at h
          obtain ⟨⟨dropping, _, member⟩, dropped⟩ := h
          exact drop_moves at_i dropping member dropped
      | check =>
          simp only [threadStep] at h
          split at h
          case h_1 => cases h
          case h_2 d rest checks => exact threadCheck_moves attached at_i checks h
      | exit =>
          simp only [threadStep, Option.ite_none_right_eq_some, Option.some.injEq] at h
          obtain ⟨⟨dropping, checked, empty⟩, rfl⟩ := h
          exact last (.exit at_i dropping empty checked)

end Actions

/-! ### Invariants of runs -/

theorem attached_of_reachable {G : Graph J T D} {s : State J T D} (run : (system G).Reachable s) :
    Attached G s := by
  refine run.invariant (Attached G) ?_ fun s a s' _ next attached => ?_
  · rintro _ rfl
    exact attached_initial G
  · have moves : Moves G (grants G) s a s' := step_moves attached (fun _ _ _ granted => granted) next
    exact moves.preserves (Attached G) attached_opening attached_report attached_closing attached

/-- The moves of a reachable state, under the rule of the tokens. -/
theorem moves_of_reachable {G : Graph J T D} {s s' : State J T D} {a : Action J}
    (run : (system G).Reachable s) (next : (system G).next s a s') : Moves G (grants G) s a s' :=
  step_moves (attached_of_reachable run) (fun _ _ _ granted => granted) next

/-- A property that holds initially and that every write keeps holds in every reachable state. -/
theorem reachable_invariant {G : Graph J T D} (inv : State J T D → Prop) (init : inv (initial G))
    (opening : ∀ {s a s'}, Opening G s a s' → inv s → inv s')
    (report : ∀ {s a s'}, Report G a s s' → inv s → inv s')
    (closing : ∀ {s a s'}, Closing G (grants G) s a s' → inv s → inv s')
    {s : State J T D} (run : (system G).Reachable s) : inv s := by
  refine run.invariant inv ?_ fun _ _ _ run next before => ?_
  · rintro _ rfl
    exact init
  · exact (moves_of_reachable run next).preserves inv opening report closing before

end Experimaestro.Scheduler

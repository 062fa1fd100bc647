/-
Module: Experimaestro.Scheduler.Settling
Layer: Scheduler
Purpose: What `Dependency::check` does, said once. `check` calls itself through `dependencyChanged` and
  `jobCompleted` and records the new status only when these calls have returned. `settle` is one report
  with the record written at once, and `check_settles` shows that a call of `check` is a sequence of
  settled reports: the nested calls concern dependencies of jobs strictly downstream, so on an acyclic
  graph the late record commutes with them. `check_returns` is termination: along the nested calls the
  registered dependencies that are still below get fewer. Every invariant of the scheduler is then a
  matter of one settled report.
Imports: Experimaestro.Scheduler.Workspace
Trusted boundary: none (fully proved)
Main exports: settle, Settle, check_settles, check_returns, jobCompleted_settles, jobCompleted_returns,
  Settle.preserves
Open obligations: none
-/
import Mathlib.Data.Finset.Card
import Mathlib.Data.Finset.Filter
import Mathlib.Data.List.Basic
import Mathlib.Tactic.Common
import Experimaestro.Scheduler.Workspace

namespace Experimaestro.Scheduler

variable {J T D : Type} [DecidableEq J] [DecidableEq D]

namespace Graph

/-- `j` waits for `k`, directly or through a chain. -/
def Below (G : Graph J T D) : J → J → Prop :=
  Relation.TransGen (DependsOn G.dependencies G.origin)

omit [DecidableEq J] [DecidableEq D] in
/-- A dependency from job `k` leads from `k` to its target. -/
theorem dependsOn_target (G : Graph J T D) {d : D} {k : J} (origin : G.origin d = .job k) :
    DependsOn G.dependencies G.origin k (G.target d) :=
  ⟨d, (G.mem_dependencies d _).mpr rfl, origin⟩

end Graph

/-- Write the recorded status of one dependency. -/
def record (d : D) (new : DependencyStatus) (s : State J T D) : State J T D :=
  { s with oldStatus := Function.update s.oldStatus d new }

/-- What a job does about a report once it has been counted, its dependents apart. -/
def react (j : J) (new : DependencyStatus) (s : State J T D) : State J T D :=
  if new = .fail then jobFinished s j
  else if s.unsatisfied j = 0 then start s j
  else s

/-- One report of `Dependency::check`, with the new status recorded at once. -/
def settle (G : Graph J T D) (d : D) (s : State J T D) : State J T D :=
  react (G.target d) (status G s d)
    (record d (status G s d) (countChange s (G.target d) (s.oldStatus d) (status G s d)))

/-- A settled report of a dependency among `allowed`: its lock is not alive and its status differs from
    the recorded one. -/
inductive Settle (G : Graph J T D) (allowed : D → Prop) : State J T D → State J T D → Prop where
  | report (s : State J T D) {d : D} (member : allowed d) (unlocked : s.liveLock d = none)
      (changed : status G s d ≠ s.oldStatus d) : Settle G allowed s (settle G d s)

/-- Sequences of settled reports. -/
abbrev Settles (G : Graph J T D) (allowed : D → Prop) : State J T D → State J T D → Prop :=
  Relation.ReflTransGen (Settle G allowed)

theorem Settle.mono {G : Graph J T D} {P Q : D → Prop} (imp : ∀ d, P d → Q d) {s s' : State J T D}
    (h : Settle G P s s') : Settle G Q s s' := by
  cases h with
  | report member unlocked changed => exact .report s (imp _ member) unlocked changed

theorem Settles.mono {G : Graph J T D} {P Q : D → Prop} (imp : ∀ d, P d → Q d) {s s' : State J T D}
    (h : Settles G P s s') : Settles G Q s s' :=
  Relation.ReflTransGen.mono (fun _ _ one => Settle.mono imp one) _ _ h

/-! ### What a settled report leaves alone -/

section Frame

variable (G : Graph J T D) (d : D) (s : State J T D)

@[simp] theorem settle_jobs : (settle G d s).jobs = s.jobs := by
  unfold settle react; split; · rfl
  split <;> rfl

@[simp] theorem settle_dependents : (settle G d s).dependents = s.dependents := by
  unfold settle react; split; · rfl
  split <;> rfl

@[simp] theorem settle_state : (settle G d s).state = s.state := by
  unfold settle react; split; · rfl
  split <;> rfl

@[simp] theorem settle_currentLock : (settle G d s).currentLock = s.currentLock := by
  unfold settle react; split; · rfl
  split <;> rfl

@[simp] theorem settle_lockObjects : (settle G d s).lockObjects = s.lockObjects := by
  unfold settle react; split; · rfl
  split <;> rfl

@[simp] theorem settle_usedTokens : (settle G d s).usedTokens = s.usedTokens := by
  unfold settle react; split; · rfl
  split <;> rfl

@[simp] theorem settle_log : (settle G d s).log = s.log := by
  unfold settle react; split; · rfl
  split <;> rfl

@[simp] theorem settle_oldStatus :
    (settle G d s).oldStatus = Function.update s.oldStatus d (status G s d) := by
  unfold settle react; split; · rfl
  split <;> rfl

@[simp] theorem settle_unsatisfied :
    (settle G d s).unsatisfied =
      Function.update s.unsatisfied (G.target d)
        (s.unsatisfied (G.target d) -
          UInt64.ofInt (satisfaction (status G s d) - satisfaction (s.oldStatus d))) := by
  unfold settle react; split; · rfl
  split <;> rfl

/-- A settled report creates a thread exactly when it does not report a failure and leaves no
    unsatisfied dependency. -/
theorem settle_threads :
    (settle G d s).threads =
      if status G s d ≠ .fail ∧ (settle G d s).unsatisfied (G.target d) = 0 then
        s.threads ++ [{ job := G.target d, phase := .pending, locks := [], checks := [] }]
      else s.threads := by
  rw [settle_unsatisfied, Function.update_self]
  unfold settle react
  by_cases failed : status G s d = .fail
  · rw [if_pos failed, if_neg (fun both => both.1 failed)]
    rfl
  · simp only [record, countChange, Function.update_self, ne_eq, failed, not_false_eq_true, true_and,
      if_false]
    split <;> rfl

omit [DecidableEq J] [DecidableEq D] in
/-- The status of a dependency depends on job states and counters only. -/
theorem status_congr {s s' : State J T D} (state : s'.state = s.state)
    (usedTokens : s'.usedTokens = s.usedTokens) : status G s' d = status G s d := by
  simp only [status, state, usedTokens]

@[simp] theorem status_settle (e : D) : status G (settle G d s) e = status G s e :=
  status_congr G e (settle_state G d s) (settle_usedTokens G d s)

end Frame

/-- Threads are only added. -/
theorem Settle.threads_prefix {G : Graph J T D} {allowed : D → Prop} {s s' : State J T D}
    (h : Settle G allowed s s') : s.threads <+: s'.threads := by
  cases h with
  | report =>
      rw [settle_threads]
      split
      · exact List.prefix_append _ _
      · exact List.prefix_rfl

/-- A property that each settled report keeps is kept by a sequence of them. -/
theorem Settles.preserves {G : Graph J T D} {allowed : D → Prop} (inv : State J T D → Prop)
    (keep : ∀ s d, allowed d → s.liveLock d = none → status G s d ≠ s.oldStatus d → inv s →
      inv (settle G d s))
    {s s' : State J T D} (h : Settles G allowed s s') (start : inv s) : inv s' := by
  induction h with
  | refl => exact start
  | tail _ last ih =>
      cases last with
      | report member unlocked changed => exact keep _ _ member unlocked changed ih

/-- The fields that reports leave alone, for a sequence of them. -/
theorem Settles.frame {G : Graph J T D} {allowed : D → Prop} {s s' : State J T D}
    (h : Settles G allowed s s') :
    s'.jobs = s.jobs ∧ s'.dependents = s.dependents ∧ s'.state = s.state ∧
      s'.currentLock = s.currentLock ∧ s'.lockObjects = s.lockObjects ∧
      s'.usedTokens = s.usedTokens ∧ s'.log = s.log ∧ s.threads <+: s'.threads := by
  induction h with
  | refl => exact ⟨rfl, rfl, rfl, rfl, rfl, rfl, rfl, List.prefix_rfl⟩
  | tail _ last ih =>
      have more := last.threads_prefix
      cases last with
      | report =>
          simp only [settle_jobs, settle_dependents, settle_state, settle_currentLock,
            settle_lockObjects, settle_usedTokens, settle_log]
          obtain ⟨h₁, h₂, h₃, h₄, h₅, h₆, h₇, prefixed⟩ := ih
          exact ⟨h₁, h₂, h₃, h₄, h₅, h₆, h₇, prefixed.trans more⟩

/-- A thread that exists is not touched by reports. -/
theorem Settles.thread {G : Graph J T D} {allowed : D → Prop} {s s' : State J T D}
    (h : Settles G allowed s s') {i : ℕ} {th : Thread J D} (at_i : s.threads[i]? = some th) :
    s'.threads[i]? = some th := by
  obtain ⟨more, equal⟩ := h.frame.2.2.2.2.2.2.2
  rw [← equal, List.getElem?_append_left (List.getElem?_eq_some_iff.mp at_i).1]
  exact at_i

/-! ### Recording late -/

/-- A job reacts in the same way whatever is recorded. -/
theorem react_record (j : J) (d : D) (new old : DependencyStatus) (s : State J T D) :
    react j new (record d old s) = record d old (react j new s) := by
  unfold react
  split
  · rfl
  · change (if s.unsatisfied j = 0 then _ else _) = _
    split <;> rfl

omit [DecidableEq J] in
/-- Records of two dependencies commute. -/
theorem record_comm {d e : D} (ne : e ≠ d) (a b : DependencyStatus) (s : State J T D) :
    record e a (record d b s) = record d b (record e a s) := by
  unfold record
  rw [Function.update_comm ne]

/-- A report of another dependency commutes with the record. -/
theorem settle_record (G : Graph J T D) {d e : D} (ne : e ≠ d) (new : DependencyStatus)
    (s : State J T D) : settle G e (record d new s) = record d new (settle G e s) := by
  have same : status G (record d new s) e = status G s e := status_congr G e rfl rfl
  have old : (record d new s).oldStatus e = s.oldStatus e := Function.update_of_ne ne _ _
  have counted (status : DependencyStatus) :
      countChange (record d new s) (G.target e) (s.oldStatus e) status =
        record d new (countChange s (G.target e) (s.oldStatus e) status) := rfl
  unfold settle
  rw [same, old, counted, record_comm ne, react_record]

/-- So does a sequence of reports none of which is about that dependency. -/
theorem Settles.record {G : Graph J T D} {allowed : D → Prop} {d : D} (excluded : ¬ allowed d)
    (new : DependencyStatus) {s s' : State J T D} (h : Settles G allowed s s') :
    Settles G allowed (record d new s) (record d new s') := by
  refine Relation.ReflTransGen.lift (Scheduler.record d new) (fun a b one => ?_) _ _ h
  cases one with
  | @report e member unlocked changed =>
      have ne : e ≠ d := by
        rintro rfl
        exact excluded member
      change Settle G allowed (Scheduler.record d new a) (Scheduler.record d new (settle G e a))
      rw [← settle_record G ne]
      refine .report _ member unlocked ?_
      have same : status G (Scheduler.record d new a) e = status G a e := status_congr G e rfl rfl
      rw [same]
      simpa only [Scheduler.record, Function.update_of_ne ne] using changed

/-! ### A check is a sequence of reports -/

variable [DecidableEq T]

/-- The dependencies a check of `d` may report: `d` itself and registered ones below its target. -/
def Concerned (G : Graph J T D) (s : State J T D) (d e : D) : Prop :=
  e = d ∨ e ∈ s.dependents ∧ G.Below (G.target d) (G.target e)

/-- The dependencies a completion of `k` may report. -/
def ConcernedBy (G : Graph J T D) (s : State J T D) (k : J) (e : D) : Prop :=
  e ∈ s.dependents ∧ G.Below k (G.target e)

omit [DecidableEq D] in
theorem mem_dependentsOf {G : Graph J T D} {s : State J T D} {r : Resource J T} {e : D} :
    e ∈ s.dependentsOf G r ↔ e ∈ s.dependents ∧ G.origin e = r := by
  simp [State.dependentsOf]

omit [DecidableEq D] in
/-- A dependent of `k` and everything its check concerns is concerned by `k`. -/
theorem concernedBy_of_concerned {G : Graph J T D} {s s' : State J T D} {k : J} {d e : D}
    (same : s'.dependents = s.dependents) (member : d ∈ s.dependentsOf G (.job k))
    (concerned : Concerned G s' d e) : ConcernedBy G s k e := by
  obtain ⟨registered, origin⟩ := mem_dependentsOf.mp member
  have one : G.Below k (G.target d) := .single (G.dependsOn_target origin)
  rcases concerned with rfl | ⟨registered', below⟩
  · exact ⟨registered, one⟩
  · exact ⟨same ▸ registered', one.trans below⟩

/-- Checks in a row are reports in a row. The induction is on the list of checks; each may rely on the
    dependents being those of the first state. -/
theorem foldlM_settles {G : Graph J T D} {run : D → State J T D → Option (State J T D)}
    (each : ∀ d s s', run d s = some s' → Settles G (Concerned G s d) s s') {k : J}
    (s₀ : State J T D) :
    ∀ {es : List D} {s s' : State J T D}, s.dependents = s₀.dependents →
      (∀ e ∈ es, e ∈ s₀.dependentsOf G (.job k)) →
      es.foldlM (fun s d => run d s) s = some s' → Settles G (ConcernedBy G s₀ k) s s'
  | [], s, s', _, _, h => by
      simp only [List.foldlM_nil, pure, Option.some.injEq] at h
      exact h ▸ .refl
  | e :: es, s, s', same, members, h => by
      simp only [List.foldlM_cons, bind, Option.bind_eq_some_iff] at h
      obtain ⟨mid, first, others⟩ := h
      have one := each e s mid first
      have rest := foldlM_settles each s₀ (one.frame.2.1.trans same)
        (fun e' member => members e' (List.mem_cons_of_mem _ member)) others
      refine Relation.ReflTransGen.trans ?_ rest
      exact one.mono fun d' => concernedBy_of_concerned same (members e (List.mem_cons_self ..))

/-- `Job::jobCompleted` removes the job from the waiting ones and then only makes reports. -/
theorem jobCompleted_settles_of {G : Graph J T D} {run : D → State J T D → Option (State J T D)}
    (each : ∀ d s s', run d s = some s' → Settles G (Concerned G s d) s s') {k : J}
    {s s' : State J T D} (h : jobCompleted G run k s = some s') :
    Settles G (ConcernedBy G s k) (jobFinished s k) s' :=
  foldlM_settles each s rfl (fun _ member => member) h

omit [DecidableEq D] in
/-- A report that is no failure stops at the job. -/
theorem dependencyChanged_of_ne_fail {G : Graph J T D} {run : D → State J T D → Option (State J T D)}
    {j : J} {old new : DependencyStatus} {s : State J T D} (ne : new ≠ .fail) :
    dependencyChanged G run j old new s = some (react j new (countChange s j old new)) := by
  unfold dependencyChanged react
  rw [if_neg ne, if_neg ne]
  split <;> rfl

omit [DecidableEq D] in
/-- A reported failure completes the job. -/
theorem dependencyChanged_fail {G : Graph J T D} {run : D → State J T D → Option (State J T D)}
    {j : J} {old : DependencyStatus} {s : State J T D} :
    dependencyChanged G run j old .fail s = jobCompleted G run j (countChange s j old .fail) := rfl

/-- A call of `Dependency::check` is a sequence of settled reports. -/
theorem check_settles (G : Graph J T D) :
    ∀ (n : ℕ) (d : D) (s s' : State J T D), check G n d s = some s' →
      Settles G (Concerned G s d) s s'
  | 0, _, _, _, h => by simp [check] at h
  | n + 1, d, s, s', h => by
      simp only [check] at h
      by_cases locked : (s.liveLock d).isSome
      · rw [if_pos locked, Option.some.injEq] at h
        exact h ▸ .refl
      · rw [if_neg locked] at h
        have unlocked : s.liveLock d = none := by simpa using locked
        by_cases same : status G s d = s.oldStatus d
        · rw [if_pos same, Option.some.injEq] at h
          exact h ▸ .refl
        · rw [if_neg same] at h
          have report : Settles G (Concerned G s d) s (settle G d s) :=
            .single (.report s (Or.inl rfl) unlocked same)
          by_cases failed : status G s d = .fail
          · -- The nested calls are about jobs below the target, so the record may come first.
            simp only [failed, dependencyChanged_fail, Option.map_eq_some_iff] at h
            obtain ⟨mid, completed, rfl⟩ := h
            have nested := jobCompleted_settles_of (fun d s s' => check_settles G n d s s') completed
            have excluded : ¬ ConcernedBy G (countChange s (G.target d) (s.oldStatus d) .fail)
                (G.target d) d := fun both => G.acyclic _ both.2
            have early := nested.record excluded .fail
            have first : record d .fail
                (jobFinished (countChange s (G.target d) (s.oldStatus d) .fail) (G.target d)) =
                settle G d s := by
              rw [settle, failed, react, if_pos rfl]
              rfl
            rw [first] at early
            exact report.trans (early.mono fun _ both => Or.inr both)
          · rw [dependencyChanged_of_ne_fail failed, Option.map_some, Option.some.injEq] at h
            change record d _ _ = s' at h
            rw [← react_record] at h
            exact h ▸ report

/-- A completion is a sequence of settled reports. -/
theorem jobCompleted_settles {G : Graph J T D} {n : ℕ} {k : J} {s s' : State J T D}
    (h : jobCompleted G (check G n) k s = some s') :
    Settles G (ConcernedBy G s k) (jobFinished s k) s' :=
  jobCompleted_settles_of (check_settles G n) h

/-! ### Termination -/

open Classical in
/-- The registered dependencies of jobs below `k`. -/
noncomputable def belowSet (G : Graph J T D) (s : State J T D) (k : J) : Finset D :=
  s.dependents.toFinset.filter fun e => G.Below k (G.target e)

omit [DecidableEq T] [DecidableEq J] in
theorem mem_belowSet {G : Graph J T D} {s : State J T D} {k : J} {e : D} :
    e ∈ belowSet G s k ↔ ConcernedBy G s k e := by
  simp [belowSet, ConcernedBy]

/-- Going from a job to one of its dependents leaves fewer dependencies below. -/
theorem card_belowSet_lt {G : Graph J T D} {s s' : State J T D} {k : J} {d : D}
    (same : s'.dependents = s.dependents) (member : d ∈ s.dependentsOf G (.job k)) :
    (belowSet G s' (G.target d)).card < (belowSet G s k).card := by
  obtain ⟨registered, origin⟩ := mem_dependentsOf.mp member
  have one : G.Below k (G.target d) := .single (G.dependsOn_target origin)
  refine Finset.card_lt_card ((Finset.ssubset_iff_of_subset fun e inside => ?_).mpr ⟨d, ?_, ?_⟩)
  · exact mem_belowSet.mpr (concernedBy_of_concerned same member (Or.inr (mem_belowSet.mp inside)))
  · exact mem_belowSet.mpr ⟨registered, one⟩
  · exact fun inside => G.acyclic _ (mem_belowSet.mp inside).2

omit [DecidableEq T] [DecidableEq J] in
theorem card_belowSet_lt_depth (G : Graph J T D) (s : State J T D) (k : J) :
    (belowSet G s k).card < depth s := by
  have filtered : (belowSet G s k).card ≤ s.dependents.toFinset.card := by
    refine Finset.card_le_card fun e inside => List.mem_toFinset.mpr ?_
    exact (mem_belowSet.mp inside).1
  have counted : s.dependents.toFinset.card ≤ s.dependents.length := List.toFinset_card_le _
  rw [depth]
  omega

/-- The checks of the dependents of a job return if each of them does, on any state with the same
    dependents. -/
theorem foldlM_returns {G : Graph J T D} {n : ℕ} (s₀ : State J T D) :
    ∀ {es : List D} {s : State J T D}, s.dependents = s₀.dependents →
      (∀ e ∈ es, ∀ s : State J T D, s.dependents = s₀.dependents → ∃ s', check G n e s = some s') →
      ∃ s', es.foldlM (fun s d => check G n d s) s = some s'
  | [], s, _, _ => ⟨s, rfl⟩
  | e :: es, s, same, returns => by
      obtain ⟨mid, first⟩ := returns e (List.mem_cons_self ..) s same
      have kept : mid.dependents = s₀.dependents := (check_settles G n e s mid first).frame.2.1.trans same
      obtain ⟨s', others⟩ :=
        foldlM_returns s₀ kept fun e' member => returns e' (List.mem_cons_of_mem _ member)
      exact ⟨s', by rw [List.foldlM_cons, first]; exact others⟩

/-- A completion returns when the checks may go as deep as there are dependencies below. -/
theorem jobCompleted_returns_of {G : Graph J T D} {n : ℕ}
    (each : ∀ (d : D) (s : State J T D), (belowSet G s (G.target d)).card < n →
      ∃ s', check G n d s = some s')
    {k : J} {s : State J T D} (deep : (belowSet G s k).card ≤ n) :
    ∃ s', jobCompleted G (check G n) k s = some s' :=
  foldlM_returns s rfl fun d member s' same =>
    each d s' (lt_of_lt_of_le (card_belowSet_lt same member) deep)

/-- `Dependency::check` returns. The induction is on the depth; each nested call is made for a
    dependent of the target, which has fewer dependencies below. -/
theorem check_returns (G : Graph J T D) :
    ∀ (n : ℕ) (d : D) (s : State J T D), (belowSet G s (G.target d)).card < n →
      ∃ s', check G n d s = some s'
  | 0, _, _, deep => absurd deep (Nat.not_lt_zero _)
  | n + 1, d, s, deep => by
      rw [check]
      split
      · exact ⟨s, rfl⟩
      · by_cases same : status G s d = s.oldStatus d
        · exact ⟨s, if_pos same⟩
        · simp only [if_neg same]
          by_cases failed : status G s d = .fail
          · obtain ⟨s', completed⟩ := jobCompleted_returns_of (check_returns G n)
              (s := countChange s (G.target d) (s.oldStatus d) .fail) (Nat.lt_succ_iff.mp deep)
            exact ⟨_, by rw [failed, dependencyChanged_fail, completed]; rfl⟩
          · exact ⟨_, by rw [dependencyChanged_of_ne_fail failed]; rfl⟩

theorem check_depth_returns (G : Graph J T D) (d : D) (s : State J T D) :
    ∃ s', check G (depth s) d s = some s' :=
  check_returns G _ d s (card_belowSet_lt_depth G s _)

theorem jobCompleted_returns (G : Graph J T D) (k : J) (s : State J T D) :
    ∃ s', jobCompleted G (check G (depth s)) k s = some s' :=
  jobCompleted_returns_of (check_returns G _) (card_belowSet_lt_depth G s k).le

/-- The loop of `Workspace::submit` returns. -/
theorem register_returns (G : Graph J T D) :
    ∀ (ds : List D) (s : State J T D),
      ∃ s', ds.foldlM (fun s d => let s := addDependent G d s; check G (depth s) d s) s = some s'
  | [], s => ⟨s, rfl⟩
  | d :: ds, s => by
      obtain ⟨mid, first⟩ := check_depth_returns G d (addDependent G d s)
      obtain ⟨s', others⟩ := register_returns G ds mid
      exact ⟨s', by rw [List.foldlM_cons, first]; exact others⟩

/-- `Workspace::submit` returns, in any state. -/
theorem submit_returns (G : Graph J T D) (j : J) (s : State J T D) :
    ∃ s', submit G j s = some s' := by
  unfold submit
  split
  · exact ⟨s, rfl⟩
  · obtain ⟨s', registered⟩ := register_returns G (G.dependencies j)
      { s with waitingJobs := j :: s.waitingJobs, jobs := j :: s.jobs }
    simp only [registered, bind, Option.bind_some]
    split
    · exact ⟨_, rfl⟩
    · exact ⟨_, rfl⟩

end Experimaestro.Scheduler

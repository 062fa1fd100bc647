/-
Module: Experimaestro.Scheduler.Wakeups
Layer: Scheduler
Purpose: No wake-up is lost. The record `_oldStatus` of a dependency may be out of date, but never in the
  dangerous direction: when the dependency is OK and not recorded as OK, its lock is alive or someone is
  about to check it (`Fresh`). Taking tokens makes no dependency OK, giving tokens back or ending a job
  leaves a check behind for each dependent, and a check leaves the record up to date. A submitted job all
  of whose dependencies are recorded as OK has been started (`Awake.started`). `whole` is the scheduler
  with each submission, each critical section and each release of a lock as one step.
Imports: Experimaestro.Scheduler.FailurePropagation, Experimaestro.Scheduler.TokenAccounting
Trusted boundary: human-reviewed grouping of the actions of `system` in `wholeStep`
Main exports: Expected, Fresh, LocksOwn, Awake, awake_of_reachable, wholeStep, whole, no_lost_wakeup
Open obligations: none
-/
import Mathlib.Data.List.Basic
import Mathlib.Tactic.Common
import Experimaestro.Scheduler.FailurePropagation
import Experimaestro.Scheduler.TokenAccounting

namespace Experimaestro.Scheduler

variable {J T D : Type} [DecidableEq J] [DecidableEq T] [DecidableEq D]

omit [DecidableEq T] [DecidableEq J] [DecidableEq D] in
/-- A thread of which something holds is still there after a write to one thread, if that thread keeps
    the property. -/
theorem exists_setThread {s s' : State J T D} {P : Thread J D → Prop} {i : ℕ} {th new : Thread J D}
    (at_i : s.threads[i]? = some th) (threads : s'.threads = (s.setThread i new).threads)
    (keeps : P th → P new) (some_thread : ∃ x ∈ s.threads, P x) : ∃ x ∈ s'.threads, P x := by
  obtain ⟨x, member, holds⟩ := some_thread
  obtain ⟨n, at_n⟩ := List.mem_iff_getElem?.mp member
  obtain ⟨inRange, _⟩ := List.getElem?_eq_some_iff.mp at_i
  rw [threads, State.setThread]
  by_cases same : n = i
  · subst n
    rw [at_i, Option.some.injEq] at at_n
    exact ⟨new, List.mem_set inRange new, keeps (at_n ▸ holds)⟩
  · refine ⟨x, List.mem_of_getElem? (i := n) ?_, holds⟩
    rw [List.getElem?_set_ne (Ne.symm same)]
    exact at_n

/-! ### Whose locks are alive -/

/-- A dependency refers to a Lock object of its own, and the threads of a job own locks of its
    dependencies only. -/
structure LocksOwn (G : Graph J T D) (s : State J T D) : Prop where
  current : ∀ d l, s.currentLock d = some l → s.lockObjects[l]? = some d
  owned : ∀ th ∈ s.threads, ∀ l ∈ th.locks, ∃ d, s.lockObjects[l]? = some d ∧ G.target d = th.job

omit [DecidableEq T] [DecidableEq J] [DecidableEq D] in
theorem locksOwn_initial (G : Graph J T D) : LocksOwn G (initial G) where
  current _ _ h := by cases h
  owned _ member := by cases member

omit [DecidableEq T] [DecidableEq J] [DecidableEq D] in
/-- A write that creates no Lock object and gives no lock to a thread. -/
theorem LocksOwn.setThread {G : Graph J T D} {s s' : State J T D} {i : ℕ} {th new : Thread J D}
    (own : LocksOwn G s) (at_i : s.threads[i]? = some th)
    (threads : s'.threads = (s.setThread i new).threads) (job : new.job = th.job)
    (locks : new.locks ⊆ th.locks) (objects : s'.lockObjects = s.lockObjects)
    (current : ∀ d l, s'.currentLock d = some l → s.currentLock d = some l) : LocksOwn G s' := by
  refine ⟨fun d l h => ?_, ?_⟩
  · rw [objects]
    exact own.current d l (current d l h)
  · rw [objects, threads]
    refine forall_setThread own.owned fun l member => ?_
    rw [job]
    exact own.owned th (List.mem_of_getElem? at_i) l (locks member)

omit [DecidableEq T] [DecidableEq D] in
theorem locksOwn_opening {G : Graph J T D} {s s' : State J T D} {a : Action J}
    (opened : Opening G s a s') (own : LocksOwn G s) : LocksOwn G s' := by
  cases opened with
  | nothing => exact own
  | enlist fresh => exact ⟨own.1, own.2⟩
  | finish at_i ended => exact ⟨own.1, own.2⟩
  | takeCheck at_i checks => exact own.setThread at_i rfl rfl (fun _ => id) rfl fun _ _ => id

omit [DecidableEq T] in
theorem locksOwn_report {G : Graph J T D} {s s' : State J T D} {a : Action J}
    (reported : Report G a s s') (own : LocksOwn G s) : LocksOwn G s' := by
  cases reported with
  | settle submitted unlocked changed source =>
      refine ⟨by simpa using own.current, ?_⟩
      rw [settle_lockObjects]
      exact forall_settle own.owned fun _ _ _ member => by cases member
  | addDependent submitted => exact ⟨own.1, own.2⟩

theorem locksOwn_closing {G : Graph J T D} {admits : D → UInt32 → Prop} {s s' : State J T D}
    {a : Action J} (attached : Attached G s) (closed : Closing G admits s a s') (own : LocksOwn G s) :
    LocksOwn G s' := by
  -- A write to one thread that leaves locks and Lock objects alone.
  have kept {s' : State J T D} {i : ℕ} {th new : Thread J D} (at_i : s.threads[i]? = some th)
      (threads : s'.threads = (s.setThread i new).threads) (job : new.job = th.job)
      (locks : new.locks = th.locks) (objects : s'.lockObjects = s.lockObjects)
      (current : s'.currentLock = s.currentLock) : LocksOwn G s' :=
    own.setThread at_i threads job (locks ▸ fun _ => id) objects fun _ _ h => current ▸ h
  cases closed with
  | nothing => exact own
  | startFree free submitted idle unentered =>
      exact ⟨own.current, forall_start own.owned fun _ member => by cases member⟩
  | enter at_i pending => exact kept at_i rfl rfl rfl rfl rfl
  | @share i th d rest l at_i locking live =>
      have member := List.mem_of_getElem? at_i
      refine ⟨own.current, forall_setThread own.owned fun m inside => ?_⟩
      rcases List.mem_append.mp inside with old | new
      · exact own.owned th member m old
      · refine ⟨d, ?_, attached.rest th member _ locking d (List.mem_cons_self ..)⟩
        exact List.mem_singleton.mp new ▸ own.current d l (liveLock_eq_some.mp live).1
  | @skip i th d rest k at_i locking expired origin =>
      refine own.setThread at_i rfl rfl (fun _ => id) rfl fun e l h => ?_
      change Function.update s.currentLock d none e = some l at h
      by_cases same : e = d
      · rw [same, Function.update_self] at h
        cases h
      · rwa [Function.update_of_ne same] at h
  | @acquire i th d rest t at_i locking expired origin admitted =>
      have member := List.mem_of_getElem? at_i
      have older {l : ℕ} {e : D} (object : s.lockObjects[l]? = some e) :
          (s.lockObjects ++ [d])[l]? = some e := by
        rw [List.getElem?_append_left (List.getElem?_eq_some_iff.mp object).1]
        exact object
      have newest : (s.lockObjects ++ [d])[s.lockObjects.length]? = some d := by simp
      refine ⟨fun e l h => ?_, forall_setThread (fun x inside l held => ?_) fun l held => ?_⟩
      · change Function.update s.currentLock d (some s.lockObjects.length) e = some l at h
        by_cases same : e = d
        · subst e
          rw [Function.update_self, Option.some.injEq] at h
          exact h ▸ newest
        · rw [Function.update_of_ne same] at h
          exact older (own.current e l h)
      · obtain ⟨e, object, target⟩ := own.owned x inside l held
        exact ⟨e, older object, target⟩
      · rcases List.mem_append.mp held with old | new
        · obtain ⟨e, object, target⟩ := own.owned th member l old
          exact ⟨e, older object, target⟩
        · exact ⟨d, List.mem_singleton.mp new ▸ newest,
            attached.rest th member _ locking d (List.mem_cons_self ..)⟩
  | abort at_i locking => exact kept at_i rfl rfl rfl rfl rfl
  | run at_i locked => exact kept at_i rfl rfl rfl rfl rfl
  | setRunning at_i running => exact ⟨own.1, own.2⟩
  | endRun at_i running result => exact kept at_i rfl rfl rfl rfl rfl
  | complete at_i ended => exact kept at_i rfl rfl rfl rfl rfl
  | give at_i dropping member still =>
      exact own.setThread at_i rfl rfl List.erase_subset rfl fun _ _ => id
  | giveLast at_i dropping member last object origin =>
      exact own.setThread at_i rfl rfl List.erase_subset rfl fun _ _ => id
  | exit at_i dropping empty checked => exact kept at_i rfl rfl rfl rfl rfl

theorem locksOwn_of_reachable {G : Graph J T D} {s : State J T D} (run : (system G).Reachable s) :
    LocksOwn G s := by
  have both : Attached G s ∧ LocksOwn G s := by
    refine reachable_invariant (fun s => Attached G s ∧ LocksOwn G s) ?_ ?_ ?_ ?_ run
    · exact ⟨attached_initial G, locksOwn_initial G⟩
    · exact fun opened both => ⟨attached_opening opened both.1, locksOwn_opening opened both.2⟩
    · exact fun reported both => ⟨attached_report reported both.1, locksOwn_report reported both.2⟩
    · exact fun closed both => ⟨attached_closing closed both.1, locksOwn_closing both.1 closed both.2⟩
  exact both.2

/-! ### Records that are out of date -/

section Records

omit [DecidableEq T] [DecidableEq J] [DecidableEq D]

/-- Someone is about to check the dependency: a thread that has given tokens back, or the thread of the
    job it comes from, back from `run()`. -/
def Expected (G : Graph J T D) (s : State J T D) (d : D) : Prop :=
  (∃ th ∈ s.threads, d ∈ th.checks) ∨
    ∃ k, G.origin d = .job k ∧ ∃ th ∈ s.threads, th.job = k ∧ th.phase = .ended

/-- A dependency that is OK is recorded as OK, or its lock is alive, or it will be checked. -/
def Fresh (G : Graph J T D) (s : State J T D) (d : D) : Prop :=
  status G s d = .ok → s.oldStatus d = .ok ∨ (∃ l, s.liveLock d = some l) ∨ Expected G s d

/-- A check has nothing to say about the dependency. -/
def Current (G : Graph J T D) (s : State J T D) (d : D) : Prop :=
  (∃ l, s.liveLock d = some l) ∨ s.oldStatus d = status G s d

theorem Current.fresh {G : Graph J T D} {s : State J T D} {d : D} (current : Current G s d) :
    Fresh G s d := by
  intro ok
  rcases current with live | recorded
  · exact Or.inr (Or.inl live)
  · exact Or.inl (recorded.trans ok)

/-- Writes after which the dependency is OK only if it was, and which keep what made up for that. -/
theorem Fresh.mono {G : Graph J T D} {s s' : State J T D} {d : D} (fresh : Fresh G s d)
    (ok : status G s' d = .ok → status G s d = .ok) (old : s'.oldStatus d = s.oldStatus d)
    (live : (∃ l, s.liveLock d = some l) → (∃ l, s'.liveLock d = some l) ∨ Expected G s' d)
    (expected : Expected G s d → Expected G s' d) : Fresh G s' d := by
  intro after
  rcases fresh (ok after) with recorded | locked | awaited
  · exact Or.inl (old.trans recorded)
  · exact Or.inr (live locked)
  · exact Or.inr (Or.inr (expected awaited))

/-- A lock stays alive while its owner keeps it. -/
theorem liveLock_mono {s s' : State J T D} {d : D} (current : s'.currentLock d = s.currentLock d)
    (owned : ∀ l, s.Owned l → s'.Owned l) (live : ∃ l, s.liveLock d = some l) :
    ∃ l, s'.liveLock d = some l := by
  obtain ⟨l, same⟩ := live
  obtain ⟨refers, held⟩ := liveLock_eq_some.mp same
  exact ⟨l, liveLock_eq_some.mpr ⟨current.trans refers, owned l held⟩⟩

theorem owned_setThread {s s' : State J T D} {i : ℕ} {th new : Thread J D} {l : ℕ}
    (at_i : s.threads[i]? = some th) (threads : s'.threads = (s.setThread i new).threads)
    (keeps : l ∈ th.locks → l ∈ new.locks) (owned : s.Owned l) : s'.Owned l :=
  exists_setThread at_i threads keeps owned

/-- Checks are still expected after a write to a thread that keeps its checks and is not taken back from
    `run()`. -/
theorem expected_setThread {G : Graph J T D} {s s' : State J T D} {i : ℕ} {th new : Thread J D} {d : D}
    (at_i : s.threads[i]? = some th) (threads : s'.threads = (s.setThread i new).threads)
    (checks : d ∈ th.checks → d ∈ new.checks)
    (ended : G.origin d = .job th.job → th.phase = .ended → new.job = th.job ∧ new.phase = .ended)
    (expected : Expected G s d) : Expected G s' d := by
  rcases expected with checked | ⟨k, origin, some_thread⟩
  · exact Or.inl (exists_setThread at_i threads checks checked)
  · refine Or.inr ⟨k, origin, exists_setThread at_i threads (fun both => ?_) some_thread⟩
    obtain ⟨job, phase⟩ := ended (both.1 ▸ origin) both.2
    exact ⟨job.trans both.1, phase⟩

/-- The same as long as threads are only added. -/
theorem Expected.mono {G : Graph J T D} {s s' : State J T D} {d : D} (threads : s.threads ⊆ s'.threads)
    (expected : Expected G s d) : Expected G s' d := by
  rcases expected with ⟨th, member, checked⟩ | ⟨k, origin, th, member, both⟩
  · exact Or.inl ⟨th, threads member, checked⟩
  · exact Or.inr ⟨k, origin, th, threads member, both⟩

theorem liveLock_of_threads {s s' : State J T D} {d : D} (current : s'.currentLock = s.currentLock)
    (threads : s.threads ⊆ s'.threads) (live : ∃ l, s.liveLock d = some l) :
    ∃ l, s'.liveLock d = some l :=
  liveLock_mono (congrFun current d) (fun _ ⟨th, member, held⟩ => ⟨th, threads member, held⟩) live

end Records

/-! ### Reports and checks -/

omit [DecidableEq T] in
theorem settle_threads_subset (G : Graph J T D) (d : D) (s : State J T D) :
    s.threads ⊆ (settle G d s).threads := by
  rw [settle_threads]
  split
  · exact List.subset_append_left _ _
  · exact fun _ => id

omit [DecidableEq T] in
theorem current_settle {G : Graph J T D} {s : State J T D} {d e : D} (current : Current G s e) :
    Current G (settle G d s) e := by
  rcases current with live | recorded
  · exact Or.inl (liveLock_of_threads (settle_currentLock G d s) (settle_threads_subset G d s) live)
  · refine Or.inr ?_
    rw [status_settle, settle_oldStatus]
    by_cases same : e = d
    · rw [same, Function.update_self]
    · rwa [Function.update_of_ne same]

omit [DecidableEq T] in
theorem fresh_settle {G : Graph J T D} {s : State J T D} {d e : D} (fresh : Fresh G s e) :
    Fresh G (settle G d s) e := by
  by_cases same : e = d
  · refine Current.fresh (Or.inr ?_)
    rw [status_settle, settle_oldStatus, same, Function.update_self]
  · have threads := settle_threads_subset G d s
    refine fresh.mono (by simp) ?_ (fun live => Or.inl ?_) (Expected.mono threads)
    · rw [settle_oldStatus, Function.update_of_ne same]
    · exact liveLock_of_threads (settle_currentLock G d s) threads live

omit [DecidableEq T] in
theorem Settles.current {G : Graph J T D} {allowed : D → Prop} {s s' : State J T D} {e : D}
    (settles : Settles G allowed s s') (before : Current G s e) : Current G s' e :=
  settles.preserves (fun s => Current G s e) (fun _ _ _ _ _ => current_settle) before

omit [DecidableEq T] in
theorem Settles.fresh {G : Graph J T D} {allowed : D → Prop} {s s' : State J T D} {e : D}
    (settles : Settles G allowed s s') (before : Fresh G s e) : Fresh G s' e :=
  settles.preserves (fun s => Fresh G s e) (fun _ _ _ _ _ => fresh_settle) before

/-- A call of `Dependency::check` leaves the record of its dependency up to date. -/
theorem check_current {G : Graph J T D} {n : ℕ} {d : D} {s s' : State J T D}
    (h : check G n d s = some s') : Current G s' d := by
  cases n with
  | zero => cases h
  | succ n =>
      have settles := check_settles G (n + 1) d s s' h
      have same : status G s' d = status G s d :=
        status_congr G d settles.frame.2.2.1 settles.frame.2.2.2.2.2.1
      simp only [check] at h
      cases live : s.liveLock d with
      | some l => exact settles.current (Or.inl ⟨l, live⟩)
      | none =>
          rw [live, Option.isSome_none, if_neg Bool.false_ne_true] at h
          split at h
          case isTrue recorded => exact settles.current (Or.inr recorded.symm)
          case isFalse changed =>
              obtain ⟨mid, _, rfl⟩ := Option.map_eq_some_iff.mp h
              refine Or.inr ?_
              rw [same]
              exact Function.update_self ..

/-- Checks in a row leave all records concerned up to date. -/
theorem foldlM_current {G : Graph J T D} {n : ℕ} {d : D} :
    ∀ {ds : List D} {s s' : State J T D}, ds.foldlM (fun s d => check G n d s) s = some s' →
      (d ∈ ds ∨ Current G s d) → Current G s' d
  | [], s, s', h, before => by
      simp only [List.foldlM_nil, pure, Option.some.injEq] at h
      exact h ▸ before.resolve_left List.not_mem_nil
  | e :: es, s, s', h, before => by
      simp only [List.foldlM_cons, bind, Option.bind_eq_some_iff] at h
      obtain ⟨mid, first, others⟩ := h
      refine foldlM_current others ?_
      rcases before with member | current
      · rcases List.mem_cons.mp member with same | inside
        · exact Or.inr (same ▸ check_current first)
        · exact Or.inl inside
      · exact Or.inr ((check_settles G n e s mid first).current current)

/-! ### Every action leaves records fresh -/

/-- The dependents are registered with fresh records. -/
def AllFresh (G : Graph J T D) (s : State J T D) : Prop := ∀ d ∈ s.dependents, Fresh G s d

omit [DecidableEq T] [DecidableEq J] [DecidableEq D] in
/-- A write to one thread that keeps its locks and checks, does not take it back from `run()`, and makes
    no dependency OK. -/
theorem allFresh_setThread {G : Graph J T D} {s s' : State J T D} {i : ℕ} {th new : Thread J D}
    (fresh : AllFresh G s) (at_i : s.threads[i]? = some th)
    (threads : s'.threads = (s.setThread i new).threads) (job : new.job = th.job)
    (locks : th.locks ⊆ new.locks) (checks : th.checks ⊆ new.checks)
    (ended : th.phase = .ended → new.phase = .ended) (dependents : s'.dependents = s.dependents)
    (ok : ∀ d, status G s' d = .ok → status G s d = .ok) (old : s'.oldStatus = s.oldStatus)
    (current : s'.currentLock = s.currentLock) : AllFresh G s' := by
  intro d member
  refine (fresh d (dependents ▸ member)).mono (ok d) (congrFun old d) (fun live => Or.inl ?_) ?_
  · refine liveLock_mono (congrFun current d) (fun l => ?_) live
    exact owned_setThread at_i threads fun held => locks held
  · exact expected_setThread at_i threads (fun inside => checks inside) fun _ back => ⟨job, ended back⟩

/-- The loop of `Workspace::submit`. -/
theorem register_fresh {G : Graph J T D} :
    ∀ {ds : List D} {s s' : State J T D}, AllFresh G s →
      ds.foldlM (fun s d => let s := addDependent G d s; check G (depth s) d s) s = some s' →
      AllFresh G s'
  | [], s, s', fresh, h => by
      simp only [List.foldlM_nil, pure, Option.some.injEq] at h
      exact h ▸ fresh
  | d :: ds, s, s', fresh, h => by
      simp only [List.foldlM_cons, bind, Option.bind_eq_some_iff] at h
      obtain ⟨mid, first, others⟩ := h
      refine register_fresh (fun e member => ?_) others
      have settles := check_settles G _ d _ mid first
      rw [settles.frame.2.1] at member
      rcases (List.mem_orderedInsert _).mp member with rfl | old
      · exact (check_current first).fresh
      · exact settles.fresh (fresh e old)

omit [DecidableEq T] [DecidableEq J] [DecidableEq D] in
/-- A new thread changes nothing. -/
theorem allFresh_start {G : Graph J T D} {s : State J T D} (fresh : AllFresh G s) (j : J) :
    AllFresh G (start s j) := by
  intro d member
  have threads : s.threads ⊆ (start s j).threads := List.subset_append_left _ _
  exact (fresh d member).mono id rfl
    (fun live => Or.inl (liveLock_of_threads (s := s) rfl threads live)) (Expected.mono threads)

theorem submit_fresh {G : Graph J T D} {j : J} {s s' : State J T D} (fresh : AllFresh G s)
    (h : submit G j s = some s') : AllFresh G s' := by
  unfold submit at h
  split at h
  case isTrue known => exact Option.some.inj h ▸ fresh
  case isFalse unknown =>
      simp only [bind, Option.bind_eq_some_iff] at h
      obtain ⟨mid, registered, h⟩ := h
      have after : AllFresh G mid := register_fresh (s := enlist j s) fresh registered
      split at h
      case isTrue => exact Option.some.inj h ▸ allFresh_start after j
      case isFalse => exact Option.some.inj h ▸ after

/-- Taking tokens without wrapping around makes no dependency OK. -/
theorem fits_before {used value limit other : UInt32} (within : used.toNat ≤ limit.toNat)
    (small : other.toNat + limit.toNat < 2 ^ 32) (exact_sum : value.toNat + used.toNat < 2 ^ 32)
    (granted : ¬ value + used > limit) (after : used + value + other ≤ limit) : used + other ≤ limit := by
  have fits := UInt32.le_iff_toNat_le.mp (UInt32.not_lt.mp granted)
  rw [UInt32.toNat_add, Nat.mod_eq_of_lt exact_sum] at fits
  have sum : (used + value).toNat = used.toNat + value.toNat := by
    rw [UInt32.toNat_add, Nat.mod_eq_of_lt (by omega)]
  rw [UInt32.le_iff_toNat_le, UInt32.toNat_add, sum, Nat.mod_eq_of_lt (by omega)] at after
  rw [UInt32.le_iff_toNat_le, UInt32.toNat_add, Nat.mod_eq_of_lt (by omega)]
  omega

omit [DecidableEq T] [DecidableEq D] in
/-- A write to one job state, READY or RUNNING, makes no dependency OK. -/
theorem status_setState {G : Graph J T D} {s : State J T D} {j : J} {d : D} (new : JobState)
    (ne : new ≠ .done) (ok : status G (s.setState j new) d = .ok) : status G s d = .ok := by
  unfold status at ok ⊢
  cases origin : G.origin d with
  | token t =>
      simp only [origin] at ok ⊢
      exact ok
  | job k =>
      by_cases same : k = j
      · subst k
        simp only [origin, State.setState, Function.update_self] at ok
        split at ok
        · cases ok
        · exact absurd rfl ne
        · cases ok
      · simpa [origin, State.setState, Function.update_of_ne same] using ok

omit [DecidableEq J] [DecidableEq D] in
/-- Taking tokens that fit makes no dependency OK. -/
theorem status_takeTokens {G : Graph J T D} {s s' : State J T D}
    (small : ∀ d t, G.origin d = .token t → (G.value d).toNat + (G.limit t).toNat < 2 ^ 32) {d e : D} {t : T}
    (origin : G.origin d = .token t) (within : (s.usedTokens t).toNat ≤ (G.limit t).toNat)
    (granted : ¬G.value d + s.usedTokens t > G.limit t) (state : s'.state = s.state)
    (taken : s'.usedTokens = Function.update s.usedTokens t (s.usedTokens t + G.value d))
    (ok : status G s' e = .ok) : status G s e = .ok := by
  unfold status at ok ⊢
  cases from_e : G.origin e with
  | job k =>
      simp only [from_e, state] at ok ⊢
      exact ok
  | token u =>
      simp only [from_e, taken] at ok ⊢
      by_cases same : u = t
      · subst u
        rw [Function.update_self] at ok
        split at ok
        case isTrue fits =>
            have sum := small d t origin
            exact if_pos (fits_before within (small e t from_e) (by omega) granted fits)
        case isFalse => cases ok
      · rwa [Function.update_of_ne same] at ok

omit [DecidableEq T] [DecidableEq J] in
/-- Where a dependency without a lock gets one, the locks of the others stay alive. -/
theorem liveLock_others {s s' : State J T D} {i : ℕ} {th : Thread J D} {d : D} (new : Thread J D) (l : Option ℕ)
    (at_i : s.threads[i]? = some th) (none_before : s.liveLock d = none)
    (threads : s'.threads = (s.setThread i new).threads) (locks : th.locks ⊆ new.locks)
    (current : s'.currentLock = Function.update s.currentLock d l) {e : D}
    (alive : ∃ l, s.liveLock e = some l) : ∃ l, s'.liveLock e = some l := by
  by_cases same : e = d
  · obtain ⟨_, impossible⟩ := alive
    rw [same, none_before] at impossible
    cases impossible
  · apply liveLock_mono _ (fun l => owned_setThread at_i threads fun held => locks held) alive
    rw [current, Function.update_of_ne same]

/-- Locking the next dependency. -/
theorem lockNext_fresh {G : Graph J T D}
    (small : ∀ d t, G.origin d = .token t → (G.value d).toNat + (G.limit t).toNat < 2 ^ 32)
    {i : ℕ} {th : Thread J D} {d : D} {rest : List D} {s s' : State J T D}
    (within : ∀ t, (s.usedTokens t).toNat ≤ (G.limit t).toNat) (at_i : s.threads[i]? = some th)
    (locking : th.phase = .locking (d :: rest)) (fresh : AllFresh G s)
    (h : lockNext G i th d rest s = some s') : AllFresh G s' := by
  have not_ended : th.phase ≠ .ended := by simp [locking]
  unfold lockNext lock at h
  cases live : s.liveLock d with
  | some l =>
      simp only [live, Option.some.injEq] at h
      subst h
      exact allFresh_setThread fresh at_i rfl rfl (List.subset_append_left _ _) (fun _ => id)
        (fun back => absurd back not_ended) rfl (fun _ => id) rfl rfl
  | none =>
      cases origin : G.origin d with
      | job k =>
          simp only [live, origin, Option.some.injEq, Option.toList_none, List.append_nil] at h
          subst h
          intro e member
          refine (fresh e member).mono id rfl ?_ ?_
          · intro alive
            left
            exact liveLock_others { th with phase := .locking rest } none at_i live (by rfl) (fun _ => id) (by rfl)
              alive
          · exact expected_setThread at_i rfl id fun _ back => absurd back not_ended
      | token t =>
          simp only [live, origin] at h
          by_cases full : G.value d + s.usedTokens t > G.limit t
          · simp only [if_pos full, bind, Option.bind_eq_some_iff, Option.some.injEq] at h
            obtain ⟨mid, checked, rfl⟩ := h
            have settles := check_settles G _ d s mid checked
            have after : AllFresh G mid := by
              intro e member
              rw [settles.frame.2.1] at member
              exact settles.fresh (fresh e member)
            exact allFresh_setThread after (settles.thread at_i) rfl rfl (fun _ => id) (fun _ => id)
              (fun back => absurd back not_ended) rfl
              (fun _ ok => status_setState (s := mid) (j := th.job) .ready nofun ok) rfl rfl
          · simp only [if_neg full, Option.some.injEq] at h
            subst h
            intro e member
            refine (fresh e member).mono (status_takeTokens small origin (within t) full rfl rfl) rfl ?_ ?_
            · intro alive
              left
              exact liveLock_others
                { th with phase := .locking rest, locks := th.locks ++ [s.lockObjects.length] }
                (some s.lockObjects.length) at_i live (by rfl) (List.subset_append_left _ _) (by rfl) alive
            · exact expected_setThread at_i rfl id fun _ back => absurd back not_ended

/-- The completion of a job checks all its dependents. -/
theorem complete_fresh {G : Graph J T D} {i : ℕ} {th : Thread J D} {s mid : State J T D}
    (at_i : s.threads[i]? = some th) (fresh : AllFresh G s)
    (h : jobCompleted G (check G (depth s)) th.job s = some mid) :
    AllFresh G { mid.setThread i { th with phase := .releasing } with
      log := .completed th.job :: mid.log } := by
  have settles := jobCompleted_settles h
  have there : mid.threads[i]? = some th := settles.thread (s := jobFinished s th.job) at_i
  intro d member
  change d ∈ mid.dependents at member
  have before : d ∈ s.dependents := settles.frame.2.1 ▸ member
  have live : (∃ l, mid.liveLock d = some l) →
      ∃ l, (mid.setThread i { th with phase := .releasing }).liveLock d = some l :=
    liveLock_mono rfl fun l owned => owned_setThread there rfl (fun held => held) owned
  by_cases dependent : G.origin d = .job th.job
  · have current : Current G mid d :=
      foldlM_current h (Or.inl (mem_dependentsOf.mpr ⟨before, dependent⟩))
    refine Current.fresh ?_
    rcases current with alive | recorded
    · exact Or.inl (live alive)
    · exact Or.inr recorded
  · have after : Fresh G mid d := settles.fresh (s := jobFinished s th.job) (fresh d before)
    refine after.mono id rfl (fun alive => Or.inl (live alive)) ?_
    exact expected_setThread there rfl id fun same => absurd same dependent

omit [DecidableEq D] in
/-- Giving a lock back leaves a check of every dependent of its token behind. -/
theorem drop_fresh {G : Graph J T D} {i : ℕ} {th : Thread J D} {l : ℕ} {s : State J T D}
    (own : LocksOwn G s) (sound : LocksSound G s) (at_i : s.threads[i]? = some th)
    (checked : th.checks = []) (held : l ∈ th.locks) (fresh : AllFresh G s) :
    AllFresh G (drop G i th l s) := by
  -- Every other lock stays alive.
  have others {s' : State J T D} (new : Thread J D) (threads : s'.threads = (s.setThread i new).threads)
      (locks : new.locks = th.locks.erase l) {m : ℕ} (ne : m ≠ l) (owned : s.Owned m) : s'.Owned m := by
    refine owned_setThread at_i threads (fun inside => ?_) owned
    rw [locks]
    exact (List.mem_erase_of_ne ne).mpr inside
  unfold drop
  dsimp only
  by_cases owned : (s.setThread i { th with locks := th.locks.erase l }).Owned l
  · rw [if_pos owned]
    refine fun e member => (fresh e member).mono id rfl (fun live => Or.inl ?_) ?_
    · refine liveLock_mono (s := s) rfl (fun m before => ?_) live
      by_cases same : m = l
      · exact same ▸ owned
      · exact others { th with locks := th.locks.erase l } rfl rfl same before
    · exact expected_setThread at_i rfl id fun _ back => ⟨rfl, back⟩
  · rw [if_neg owned]
    obtain ⟨d, object, _⟩ := own.owned th (List.mem_of_getElem? at_i) l held
    obtain ⟨t, origin⟩ := sound.tokens d (List.mem_of_getElem? object)
    have there : (s.setThread i { th with locks := th.locks.erase l }).lockObjects[l]? = some d := object
    simp only [there, origin]
    intro e member
    change e ∈ s.dependents at member
    by_cases same : G.origin e = .token t
    · refine fun _ => Or.inr (Or.inr (Or.inl ⟨_, List.mem_set ?_ _, ?_⟩))
      · simpa [State.setThread] using (List.getElem?_eq_some_iff.mp at_i).1
      · exact mem_dependentsOf.mpr ⟨member, same⟩
    · have other : ∀ u, G.origin e = .token u → u ≠ t := fun u from_u equal => same (equal ▸ from_u)
      refine (fresh e member).mono (fun ok => ?_) rfl (fun live => Or.inl ?_) ?_
      · unfold status at ok ⊢
        cases from_e : G.origin e with
        | job k =>
            simp only [from_e] at ok ⊢
            exact ok
        | token u => simpa [from_e, State.setThread, Function.update_of_ne (other u from_e)] using ok
      · obtain ⟨m, live⟩ := live
        obtain ⟨refers, before⟩ := liveLock_eq_some.mp live
        have ne : m ≠ l := by
          rintro rfl
          have object_e := own.current e m refers
          rw [object, Option.some.injEq] at object_e
          exact same (object_e ▸ origin)
        refine ⟨m, liveLock_eq_some.mpr ⟨refers, ?_⟩⟩
        refine others { th with
          locks := th.locks.erase l
          checks := s.dependentsOf G (.token t) } ?_ rfl ne before
        simp [State.setThread, State.dependentsOf]
      · refine expected_setThread at_i (List.set_set ..) ?_ fun _ back => ⟨rfl, back⟩
        simp [checked]

/-- A check that was left behind is made. -/
theorem threadCheck_fresh {G : Graph J T D} {i n : ℕ} {th : Thread J D} {d : D} {rest : List D}
    {s s' : State J T D} (at_i : s.threads[i]? = some th) (checks : th.checks = d :: rest)
    (fresh : AllFresh G s) (h : check G n d (s.setThread i { th with checks := rest }) = some s') :
    AllFresh G s' := by
  have settles := check_settles G n d _ s' h
  intro e member
  rw [settles.frame.2.1] at member
  by_cases same : e = d
  · exact same ▸ (check_current h).fresh
  · refine settles.fresh ((fresh e member).mono id rfl (fun live => Or.inl ?_) ?_)
    · exact liveLock_mono (s := s) rfl (fun l => owned_setThread at_i rfl id) live
    · refine expected_setThread at_i rfl (fun inside => ?_) fun _ back => ⟨rfl, back⟩
      rw [checks] at inside
      exact (List.mem_cons.mp inside).resolve_left same

omit [DecidableEq D] in
/-- A job that ends makes its dependents OK, and its thread is about to check them. -/
theorem endRun_fresh {G : Graph J T D} {i : ℕ} {th : Thread J D} {new : JobState} {s : State J T D}
    (at_i : s.threads[i]? = some th) (fresh : AllFresh G s) :
    AllFresh G { (s.setState th.job new).setThread i { th with phase := .ended } with
      log := .finished th.job new :: s.log } := by
  intro e member
  by_cases dependent : G.origin e = .job th.job
  · refine fun _ => Or.inr (Or.inr (Or.inr ⟨_, dependent, { th with phase := .ended }, ?_, rfl, rfl⟩))
    exact List.mem_set (List.getElem?_eq_some_iff.mp at_i).1 _
  · refine (fresh e member).mono (fun ok => ?_) rfl (fun live => Or.inl ?_) ?_
    · unfold status at ok ⊢
      cases from_e : G.origin e with
      | token t =>
          simp only [from_e] at ok ⊢
          exact ok
      | job k =>
          have ne : k ≠ th.job := fun same => dependent (same ▸ from_e)
          simpa [from_e, State.setThread, State.setState, Function.update_of_ne ne] using ok
    · exact liveLock_mono (s := s) rfl (fun l => owned_setThread at_i rfl id) live
    · exact expected_setThread at_i rfl id fun same => absurd same dependent

/-- Every action leaves the records fresh. -/
theorem step_fresh {G : Graph J T D}
    (small : ∀ d t, G.origin d = .token t → (G.value d).toNat + (G.limit t).toNat < 2 ^ 32)
    {s s' : State J T D} {a : Action J} (own : LocksOwn G s) (sound : LocksSound G s)
    (within : ∀ t, (s.usedTokens t).toNat ≤ (G.limit t).toNat) (fresh : AllFresh G s)
    (next : step G a s = some s') : AllFresh G s' := by
  cases a with
  | submit j => exact submit_fresh fresh next
  | thread i action =>
      simp only [step, Option.bind_eq_some_iff] at next
      obtain ⟨th, at_i, next⟩ := next
      -- A write to the phase of the thread alone.
      have phase_only {s' : State J T D} {new : Phase D} (ne : th.phase ≠ .ended)
          (threads : s'.threads = (s.setThread i { th with phase := new }).threads)
          (dependents : s'.dependents = s.dependents) (state : s'.state = s.state)
          (used : s'.usedTokens = s.usedTokens) (old : s'.oldStatus = s.oldStatus)
          (current : s'.currentLock = s.currentLock) : AllFresh G s' :=
        allFresh_setThread fresh at_i threads rfl (fun _ => id) (fun _ => id)
          (fun back => absurd back ne) dependents
          (fun d ok => by rwa [status_congr G d state used] at ok) old current
      cases action with
      | enter =>
          simp only [threadStep, Option.ite_none_right_eq_some, Option.some.injEq] at next
          obtain ⟨pending, rfl⟩ := next
          exact phase_only (by simp [pending]) rfl rfl rfl rfl rfl rfl
      | lockNext =>
          simp only [threadStep] at next
          split at next
          case h_1 d rest locking => exact lockNext_fresh small within at_i locking fresh next
          case h_2 => cases next
      | run =>
          simp only [threadStep, Option.ite_none_right_eq_some, Option.some.injEq] at next
          obtain ⟨locked, rfl⟩ := next
          exact phase_only (by simp [locked]) rfl rfl rfl rfl rfl rfl
      | setRunning =>
          simp only [threadStep, Option.ite_none_right_eq_some, Option.some.injEq] at next
          obtain ⟨running, rfl⟩ := next
          intro d member
          refine (fresh d member).mono (status_setState .running (by decide)) rfl Or.inl id
      | endRun success =>
          simp only [threadStep, Option.ite_none_right_eq_some, Option.some.injEq] at next
          obtain ⟨running, rfl⟩ := next
          exact endRun_fresh at_i fresh
      | complete =>
          simp only [threadStep, Option.ite_none_right_eq_some, Option.map_eq_some_iff] at next
          obtain ⟨ended, mid, completed, rfl⟩ := next
          exact complete_fresh at_i fresh completed
      | drop l =>
          simp only [threadStep, Option.ite_none_right_eq_some, Option.some.injEq] at next
          obtain ⟨⟨_, checked, held⟩, rfl⟩ := next
          exact drop_fresh own sound at_i checked held fresh
      | check =>
          simp only [threadStep] at next
          split at next
          case h_1 => cases next
          case h_2 d rest checks => exact threadCheck_fresh at_i checks fresh next
      | exit =>
          simp only [threadStep, Option.ite_none_right_eq_some, Option.some.injEq] at next
          obtain ⟨⟨dropping, _⟩, rfl⟩ := next
          refine phase_only (fun back => ?_) rfl rfl rfl rfl rfl rfl
          rw [back] at dropping
          cases dropping

/-! ### Jobs that have become ready have been started -/

/-- A job without unsatisfied dependencies has entered `run()` or has a thread on its way there. -/
def Started (s : State J T D) (j : J) : Prop :=
  s.unsatisfied j = 0 → .entered j ∈ s.log ∨ ∃ th ∈ s.threads, th.job = j ∧ th.phase.starting

omit [DecidableEq T] [DecidableEq J] [DecidableEq D] in
theorem Started.mono {s s' : State J T D} {j : J} (started : Started s j)
    (unsatisfied : s'.unsatisfied j = s.unsatisfied j) (log : s.log ⊆ s'.log)
    (threads : (∃ th ∈ s.threads, th.job = j ∧ th.phase.starting) →
      .entered j ∈ s'.log ∨ ∃ th ∈ s'.threads, th.job = j ∧ th.phase.starting) : Started s' j := by
  intro zero
  rcases started (unsatisfied ▸ zero) with entered | some_thread
  · exact Or.inl (log entered)
  · exact threads some_thread

omit [DecidableEq T] [DecidableEq D] in
/-- A write to one thread that stays on its way if it was, perhaps by entering `run()`. -/
theorem started_setThread {s s' : State J T D} {i : ℕ} {th new : Thread J D} {j : J}
    (started : Started s j) (at_i : s.threads[i]? = some th)
    (threads : s'.threads = (s.setThread i new).threads)
    (starting : th.job = j → th.phase.starting → .entered j ∈ s'.log ∨ new.job = j ∧ new.phase.starting)
    (unsatisfied : s'.unsatisfied = s.unsatisfied) (log : s.log ⊆ s'.log) : Started s' j := by
  refine started.mono (congrFun unsatisfied j) log fun some_thread => ?_
  by_cases entered : .entered j ∈ s'.log
  · exact Or.inl entered
  · refine Or.inr (exists_setThread at_i threads (fun both => ?_) some_thread)
    exact (starting both.1 both.2).resolve_left entered

omit [DecidableEq T] in
/-- A report either leaves something unsatisfied or starts the job. -/
theorem started_settle {G : Graph J T D} {s : State J T D} {d : D} {j : J} (counted : Counted G s)
    (changed : status G s d ≠ s.oldStatus d) (started : Started s j) : Started (settle G d s) j := by
  by_cases same : j = G.target d
  · subst j
    intro zero
    have ok := (restartable_of_starts counted changed zero).2
    refine Or.inr ⟨{ job := G.target d, phase := .pending, locks := [], checks := [] }, ?_, rfl, rfl⟩
    rw [settle_threads, if_pos ⟨by simp [ok], zero⟩]
    exact List.mem_append_right _ (List.mem_singleton_self _)
  · refine started.mono ?_ (by simp) fun ⟨th, member, both⟩ => Or.inr ⟨th, ?_, both⟩
    · rw [settle_unsatisfied, Function.update_of_ne same]
    · exact settle_threads_subset G d s member

omit [DecidableEq T] in
/-- Reports keep the counters and start what becomes ready. -/
theorem Settles.started {G : Graph J T D} {allowed : D → Prop} {s s' : State J T D} {j : J}
    (settles : Settles G allowed s s') (counted : Counted G s) (started : Started s j) :
    Started s' j := by
  have both : Counted G s' ∧ Started s' j := by
    refine settles.preserves (fun s => Counted G s ∧ Started s j) ?_ ⟨counted, started⟩
    exact fun s d _ _ changed both => ⟨counted_settle both.1 d, started_settle both.1 changed both.2⟩
  exact both.2

omit [DecidableEq T] in
theorem Settles.counted {G : Graph J T D} {allowed : D → Prop} {s s' : State J T D}
    (settles : Settles G allowed s s') (counted : Counted G s) : Counted G s' :=
  settles.preserves (Counted G) (fun _ d _ _ _ before => counted_settle before d) counted

/-- The loop of `Workspace::submit` keeps the counters, starts what becomes ready and registers the
    dependencies. -/
theorem register_started {G : Graph J T D} :
    ∀ {ds : List D} {s s' : State J T D}, Counted G s →
      ds.foldlM (fun s d => let s := addDependent G d s; check G (depth s) d s) s = some s' →
      (∀ j, Started s j → Started s' j) ∧ s'.jobs = s.jobs ∧ s.dependents ⊆ s'.dependents ∧
        ds ⊆ s'.dependents
  | [], s, s', _, h => by
      simp only [List.foldlM_nil, pure, Option.some.injEq] at h
      subst h
      exact ⟨fun _ => id, rfl, fun _ => id, List.nil_subset _⟩
  | d :: ds, s, s', counted, h => by
      simp only [List.foldlM_cons, bind, Option.bind_eq_some_iff] at h
      obtain ⟨mid, first, others⟩ := h
      have settles := check_settles G _ d _ mid first
      have counted' : Counted G (addDependent G d s) := counted
      obtain ⟨started, jobs, more, registered⟩ := register_started (settles.counted counted') others
      have one : s.dependents ⊆ mid.dependents ∧ d ∈ mid.dependents := by
        rw [settles.frame.2.1]
        exact ⟨fun e member => (List.mem_orderedInsert _).mpr (Or.inr member),
          (List.mem_orderedInsert _).mpr (Or.inl rfl)⟩
      refine ⟨fun j before => ?_, jobs.trans settles.frame.1, fun e member => more (one.1 member), ?_⟩
      · exact started j (settles.started counted' before)
      · exact List.cons_subset.mpr ⟨more one.2, registered⟩

/-- What giving a lock back writes: one thread, not its phase, with checks of dependents at most, and no
    counter of a job. -/
structure DropWrites (s s' : State J T D) (i : ℕ) (th new : Thread J D) : Prop where
  threads : s'.threads = (s.setThread i new).threads
  job : new.job = th.job
  phase : new.phase = th.phase
  checks : new.checks = th.checks ∨ new.checks.length ≤ s.dependents.length
  dependents : s'.dependents = s.dependents
  unsatisfied : s'.unsatisfied = s.unsatisfied
  log : s'.log = s.log

omit [DecidableEq D] in
theorem drop_writes (G : Graph J T D) (i : ℕ) (th : Thread J D) (l : ℕ) (s : State J T D) :
    ∃ new, DropWrites s (drop G i th l s) i th new := by
  unfold drop
  dsimp only
  split
  · exact ⟨_, rfl, rfl, rfl, Or.inl rfl, rfl, rfl, rfl⟩
  · split
    · exact ⟨_, rfl, rfl, rfl, Or.inl rfl, rfl, rfl, rfl⟩
    · split
      · exact ⟨_, rfl, rfl, rfl, Or.inl rfl, rfl, rfl, rfl⟩
      · exact ⟨_, List.set_set .., rfl, rfl, Or.inr (List.length_filter_le _ _), rfl, rfl, rfl⟩

/-- The start thread locks its next dependency or leaves because this dependency is not OK, and then is
    recorded so. -/
theorem lockNext_started {G : Graph J T D} {i : ℕ} {th : Thread J D} {d : D} {rest : List D}
    {s s' : State J T D} {j : J} (attached : Attached G s) (counted : Counted G s)
    (at_i : s.threads[i]? = some th) (locking : th.phase = .locking (d :: rest)) (started : Started s j)
    (h : lockNext G i th d rest s = some s') : Started s' j := by
  unfold lockNext lock at h
  cases live : s.liveLock d with
  | some l =>
      simp only [live, Option.some.injEq] at h
      subst h
      exact started_setThread started at_i rfl (fun job _ => Or.inr ⟨job, rfl⟩) rfl fun _ => id
  | none =>
      cases origin : G.origin d with
      | job k =>
          simp only [live, origin, Option.some.injEq] at h
          subst h
          exact started_setThread started at_i rfl (fun job _ => Or.inr ⟨job, rfl⟩) rfl fun _ => id
      | token t =>
          simp only [live, origin] at h
          by_cases full : G.value d + s.usedTokens t > G.limit t
          · simp only [if_pos full, bind, Option.bind_eq_some_iff, Option.some.injEq] at h
            obtain ⟨mid, checked, rfl⟩ := h
            have settles := check_settles G _ d s mid checked
            by_cases same : th.job = j
            · -- What could not be locked is now recorded as WAIT, so that something is unsatisfied.
              have waits : status G s d ≠ .ok := by
                rw [UInt32.add_comm] at full
                simp [status, origin, UInt32.not_le.mpr full]
              have recorded : mid.oldStatus d ≠ .ok := by
                rcases check_token origin live checked with rfl | ⟨_, rfl⟩
                · rcases check_current checked with ⟨l, alive⟩ | recorded
                  · rw [live] at alive
                    cases alive
                  · exact recorded ▸ waits
                · rw [settle_oldStatus, Function.update_self]
                  exact waits
              have inside : d ∈ G.dependencies j := by
                refine (G.mem_dependencies d j).mpr ?_
                exact (attached.rest th (List.mem_of_getElem? at_i) _ locking d (List.mem_cons_self ..)).trans
                  same
              exact fun zero => absurd ((settles.counted counted).recorded_ok zero inside) recorded
            · exact started_setThread (settles.started counted started) (settles.thread at_i) rfl
                (fun job _ => absurd job same) rfl fun _ => id
          · simp only [if_neg full, Option.some.injEq] at h
            subst h
            exact started_setThread started at_i rfl (fun job _ => Or.inr ⟨job, rfl⟩) rfl fun _ => id

/-- The actions of threads start what becomes ready. -/
theorem thread_started {G : Graph J T D} {i : ℕ} {action : ThreadAction} {s s' : State J T D} {j : J}
    (attached : Attached G s) (counted : Counted G s) (started : Started s j)
    (next : step G (.thread i action) s = some s') : Started s' j := by
  simp only [step, Option.bind_eq_some_iff] at next
  obtain ⟨th, at_i, next⟩ := next
  have not_starting {phase : Phase D} (is : th.phase = phase) (other : phase.starting = false)
      {P : Prop} (starting : th.phase.starting) : P := by
    rw [is, other] at starting
    cases starting
  cases action with
  | enter =>
      simp only [threadStep, Option.ite_none_right_eq_some, Option.some.injEq] at next
      obtain ⟨pending, rfl⟩ := next
      exact started_setThread started at_i rfl (fun job _ => Or.inr ⟨job, rfl⟩) rfl fun _ => id
  | lockNext =>
      simp only [threadStep] at next
      split at next
      case h_1 d rest locking => exact lockNext_started attached counted at_i locking started next
      case h_2 => cases next
  | run =>
      simp only [threadStep, Option.ite_none_right_eq_some, Option.some.injEq] at next
      obtain ⟨locked, rfl⟩ := next
      refine started_setThread started at_i rfl (fun job _ => Or.inl ?_) rfl (List.subset_cons_self _ _)
      exact job ▸ List.mem_cons_self ..
  | setRunning =>
      simp only [threadStep, Option.ite_none_right_eq_some, Option.some.injEq] at next
      obtain ⟨running, rfl⟩ := next
      exact started
  | endRun success =>
      simp only [threadStep, Option.ite_none_right_eq_some, Option.some.injEq] at next
      obtain ⟨running, rfl⟩ := next
      exact started_setThread started at_i rfl (fun _ => not_starting running rfl) rfl
        (List.subset_cons_self _ _)
  | complete =>
      simp only [threadStep, Option.ite_none_right_eq_some, Option.map_eq_some_iff] at next
      obtain ⟨ended, mid, completed, rfl⟩ := next
      have settles := jobCompleted_settles completed
      have there : mid.threads[i]? = some th := settles.thread (s := jobFinished s th.job) at_i
      have after : Started mid j := settles.started (s := jobFinished s th.job) counted started
      exact started_setThread after there rfl (fun _ => not_starting ended rfl) rfl
        (List.subset_cons_self _ _)
  | drop l =>
      simp only [threadStep, Option.ite_none_right_eq_some, Option.some.injEq] at next
      obtain ⟨_, rfl⟩ := next
      obtain ⟨new, writes⟩ := drop_writes G i th l s
      refine started_setThread started at_i writes.threads (fun of_j starting => Or.inr ?_)
        writes.unsatisfied fun _ inside => writes.log ▸ inside
      exact ⟨writes.job.trans of_j, writes.phase ▸ starting⟩
  | check =>
      simp only [threadStep] at next
      split at next
      case h_1 => cases next
      case h_2 d rest checks =>
          have taken : Started (s.setThread i { th with checks := rest }) j :=
            started_setThread started at_i rfl (fun job starting => Or.inr ⟨job, starting⟩) rfl fun _ => id
          have counted' : Counted G (s.setThread i { th with checks := rest }) := counted
          exact (check_settles G _ d _ s' next).started counted' taken
  | exit =>
      simp only [threadStep, Option.ite_none_right_eq_some, Option.some.injEq] at next
      obtain ⟨⟨dropping, _⟩, rfl⟩ := next
      refine started_setThread started at_i rfl (fun _ starting => ?_) rfl fun _ => id
      cases phase : th.phase <;> simp [phase, Phase.dropping, Phase.starting] at dropping starting

/-- Only dependencies of submitted jobs have been recorded as anything but WAIT. -/
theorem recorded_of_reachable {G : Graph J T D} {s : State J T D} (run : (system G).Reachable s) :
    ∀ d, s.oldStatus d ≠ .wait → G.target d ∈ s.jobs := by
  refine reachable_invariant (fun s => ∀ d, s.oldStatus d ≠ .wait → G.target d ∈ s.jobs) ?_ ?_ ?_ ?_ run
  · exact fun d h => absurd rfl h
  · intro s a s' opened before
    cases opened with
    | enlist fresh => exact fun d h => List.mem_cons_of_mem _ (before d h)
    | _ => exact before
  · intro s a s' reported before
    cases reported with
    | @settle d submitted unlocked changed source =>
        intro e h
        rw [settle_jobs]
        rw [settle_oldStatus] at h
        by_cases same : e = d
        · exact same ▸ submitted
        · rw [Function.update_of_ne same] at h
          exact before e h
    | addDependent submitted => exact before
  · intro s a s' closed before
    cases closed <;> exact before

/-- A submission starts what becomes ready, and registers the dependencies of its job. -/
theorem submit_started {G : Graph J T D} {j : J} {s s' : State J T D} (counted : Counted G s)
    (recorded : ∀ d, s.oldStatus d ≠ .wait → G.target d ∈ s.jobs)
    (registered : ∀ d, G.target d ∈ s.jobs → d ∈ s.dependents) (started : ∀ k ∈ s.jobs, Started s k)
    (h : submit G j s = some s') :
    (∀ d, G.target d ∈ s'.jobs → d ∈ s'.dependents) ∧ ∀ k ∈ s'.jobs, Started s' k := by
  unfold submit at h
  split at h
  case isTrue known =>
      rw [Option.some.injEq] at h
      exact h ▸ ⟨registered, started⟩
  case isFalse unknown =>
      have absent : j ∉ s.jobs := fun member => unknown ⟨j, member, rfl⟩
      simp only [bind, Option.bind_eq_some_iff] at h
      obtain ⟨mid, looped, h⟩ := h
      have counted' : Counted G (enlist j s) := counted
      obtain ⟨kept, jobs, more, inside⟩ := register_started (s := enlist j s) counted' looped
      have registered' : ∀ d, G.target d ∈ mid.jobs → d ∈ mid.dependents := by
        intro d member
        rw [jobs] at member
        rcases List.mem_cons.mp member with same | old
        · exact inside ((G.mem_dependencies d j).mpr same)
        · exact more (registered d old)
      have others : ∀ k ∈ s.jobs, Started mid k := fun k member => kept k (started k member)
      split at h
      case isTrue both =>
          rw [Option.some.injEq] at h
          subst h
          refine ⟨registered', fun k member => ?_⟩
          have threads : mid.threads ⊆ (start mid j).threads := List.subset_append_left _ _
          by_cases same : k = j
          · refine fun _ => Or.inr ⟨_, List.mem_append_right _ (List.mem_singleton_self _), ?_, rfl⟩
            exact same.symm
          · change k ∈ mid.jobs at member
            rw [jobs] at member
            have old : k ∈ s.jobs := (List.mem_cons.mp member).resolve_left same
            refine (others k old).mono rfl (fun _ => id) fun ⟨th, there, way⟩ => Or.inr ⟨th, ?_, way⟩
            exact threads there
      case isFalse not_free =>
          rw [Option.some.injEq] at h
          subst h
          refine ⟨registered', fun k member => ?_⟩
          rw [jobs] at member
          rcases List.mem_cons.mp member with rfl | old
          · refine kept k fun zero => ?_
            -- All dependencies are recorded as WAIT, so that the counter is zero only without any.
            have free : G.dependencies k = [] := by
              refine List.eq_nil_iff_forall_not_mem.mpr fun d depends => absent ?_
              have ok := counted.recorded_ok zero depends
              have target := (G.mem_dependencies d k).mp depends
              exact target ▸ recorded d (by simp [ok])
            rw [free, List.foldlM_nil] at looped
            have unchanged : enlist k s = mid := Option.some.inj looped
            refine absurd ?_ not_free
            rw [free, ← unchanged]
            simpa [ready] using zero
          · exact others k old

/-- What is registered stays registered. -/
theorem dependents_of_moves {G : Graph J T D} {admits : D → UInt32 → Prop} {s s' : State J T D}
    {a : Action J} (moves : Moves G admits s a s') {d : D} (member : d ∈ s.dependents) :
    d ∈ s'.dependents := by
  refine moves.preserves (fun s' => d ∈ s'.dependents) ?_ ?_ ?_ member
  · intro s₁ s₂ opened before
    cases opened <;> exact before
  · intro s₁ s₂ reported before
    cases reported with
    | settle => simpa using before
    | addDependent => exact (List.mem_orderedInsert _).mpr (Or.inr before)
  · intro s₁ s₂ closed before
    cases closed <;> exact before

/-! ### The invariant of the scheduler -/

/-- The dependencies of submitted jobs are registered with fresh records, and the submitted jobs that
    have become ready have been started. -/
structure Awake (G : Graph J T D) (s : State J T D) : Prop where
  fresh : AllFresh G s
  registered : ∀ d, G.target d ∈ s.jobs → d ∈ s.dependents
  started : ∀ j ∈ s.jobs, Started s j

theorem awake_of_reachable {G : Graph J T D}
    (small : ∀ d t, G.origin d = .token t → (G.value d).toNat + (G.limit t).toNat < 2 ^ 32)
    {s : State J T D} (run : (system G).Reachable s) : Awake G s := by
  refine run.invariant (Awake G) ?_ fun s a s' run next awake => ?_
  · rintro _ rfl
    constructor <;> intro _ member <;> cases member
  · obtain ⟨sound, within⟩ := withinLimits_of_run (run_noWrap_of_small small run)
    have used (t : T) : (s.usedTokens t).toNat ≤ (G.limit t).toNat :=
      (within.value_eq_load t).le.trans (within.load_le t)
    have attached := attached_of_reachable run
    have counted := (ordered_of_reachable run).counted
    have fresh := step_fresh small (locksOwn_of_reachable run) sound used awake.fresh next
    cases a with
    | submit j =>
        obtain ⟨registered, started⟩ := submit_started counted (recorded_of_reachable run)
          awake.registered awake.started next
        exact ⟨fresh, registered, started⟩
    | thread i action =>
        have moves := moves_of_reachable run next
        have jobs : ∀ j ∈ s'.jobs, j ∈ s.jobs :=
          fun j member => (jobs_of_moves moves member).resolve_right nofun
        refine ⟨fresh, fun d member => ?_, fun j member => ?_⟩
        · exact dependents_of_moves moves (awake.registered d (jobs _ member))
        · exact thread_started attached counted (awake.started j (jobs j member)) next

/-- A job that waits without a thread waits for a dependency that is not OK or is about to be checked. -/
theorem idle_blocked {G : Graph J T D}
    (small : ∀ d t, G.origin d = .token t → (G.value d).toNat + (G.limit t).toNat < 2 ^ 32)
    {s : State J T D} (run : (system G).Reachable s) {j : J} (submitted : j ∈ s.jobs)
    (never : .entered j ∉ s.log) (gone : ∀ th ∈ s.threads, th.job = j → th.phase = .exited) :
    ∃ d ∈ G.dependencies j, status G s d ≠ .ok ∨ Expected G s d := by
  have awake := awake_of_reachable small run
  have own := locksOwn_of_reachable run
  have sound := (withinLimits_of_run (run_noWrap_of_small small run)).1
  have counted := (ordered_of_reachable run).counted
  by_contra none_left
  push Not at none_left
  have positive : s.unsatisfied j ≠ 0 := by
    intro zero
    rcases awake.started j submitted zero with entered | ⟨th, member, job, starting⟩
    · exact never entered
    · rw [gone th member job] at starting
      cases starting
  obtain ⟨d, depends, not_ok⟩ := (counted.ne_zero_iff j).mp positive
  have target : G.target d = j := (G.mem_dependencies d j).mp depends
  obtain ⟨ok, unexpected⟩ := none_left d depends
  rcases awake.fresh d (awake.registered d (target ▸ submitted)) ok with recorded | ⟨l, live⟩ | expected
  · exact not_ok recorded
  · -- A live lock of the dependency belongs to a thread of the job, which has not terminated.
    obtain ⟨refers, th, member, held⟩ := liveLock_eq_some.mp live
    obtain ⟨e, object, of_th⟩ := own.owned th member l held
    rw [own.current d l refers, Option.some.injEq] at object
    have job : th.job = j := of_th.symm.trans (object ▸ target)
    rw [sound.exited th member (gone th member job)] at held
    cases held
  · exact unexpected expected

/-! ### Whole steps -/

/-- The steps of the program at the granularity of `WORKSPACE_MUTEX`: a submission, the critical section
    of a start thread up to its entry in `run()` or its abort, what happens in `run()`, the completion,
    and the release of a lock with the checks it triggers. A thread is given by its index. -/
inductive WholeAction (J : Type) where
  | submit (job : J)
  | start (index : ℕ)
  | setRunning (index : ℕ)
  | endRun (index : ℕ) (success : Bool)
  | complete (index : ℕ)
  | release (index : ℕ) (lock : ℕ)
  | exit (index : ℕ)
deriving DecidableEq, Repr

/-- Take an action as often as it is enabled, `n` times at most. -/
def exhaust (G : Graph J T D) (a : Action J) : ℕ → State J T D → State J T D
  | 0, s => s
  | n + 1, s =>
      match step G a s with
      | none => s
      | some s => exhaust G a n s

/-- One whole step: `none` when it is not enabled. -/
def wholeStep (G : Graph J T D) : WholeAction J → State J T D → Option (State J T D)
  | .submit j, s => step G (.submit j) s
  | .start i, s => do
      let th ← s.threads[i]?
      let s ← step G (.thread i .enter) s
      let s := exhaust G (.thread i .lockNext) (G.dependencies th.job).length s
      (step G (.thread i .run) s).or (some s)
  | .setRunning i, s => step G (.thread i .setRunning) s
  | .endRun i success, s => step G (.thread i (.endRun success)) s
  | .complete i, s => step G (.thread i .complete) s
  | .release i l, s =>
      (step G (.thread i (.drop l)) s).map fun s => exhaust G (.thread i .check) s.dependents.length s
  | .exit i, s => step G (.thread i .exit) s

/-- The scheduler in whole steps. -/
def whole (G : Graph J T D) : TransitionSystem.System (State J T D) (WholeAction J) :=
  .ofFunction (initial G) (wholeStep G)

/-- No release of a lock is under way. -/
def Quiet (s : State J T D) : Prop := ∀ th ∈ s.threads, th.checks = []

/-- Only the thread `i` has checks left, at most `n` of them. -/
def Pending (i n : ℕ) (s : State J T D) : Prop :=
  ∀ (k : ℕ) (th : Thread J D), s.threads[k]? = some th → th.checks = [] ∨ k = i ∧ th.checks.length ≤ n

omit [DecidableEq T] [DecidableEq J] [DecidableEq D] in
theorem Pending.quiet {i : ℕ} {s : State J T D} (pending : Pending i 0 s) : Quiet s := by
  intro th member
  obtain ⟨k, at_k⟩ := List.mem_iff_getElem?.mp member
  rcases pending k th at_k with empty | ⟨_, short⟩
  · exact empty
  · exact List.eq_nil_of_length_eq_zero (Nat.le_zero.mp short)

omit [DecidableEq T] [DecidableEq J] [DecidableEq D] in
theorem Pending.setThread {i m n : ℕ} {s s' : State J T D} {new : Thread J D} (pending : Pending i m s)
    (threads : s'.threads = (s.setThread i new).threads) (short : new.checks.length ≤ n) :
    Pending i n s' := by
  intro k th at_k
  rw [threads, State.setThread, List.getElem?_set] at at_k
  by_cases same : i = k
  · rw [if_pos same] at at_k
    split at at_k
    · exact Or.inr ⟨same.symm, Option.some.inj at_k ▸ short⟩
    · cases at_k
  · rw [if_neg same] at at_k
    exact Or.inl ((pending k th at_k).resolve_right fun both => same both.1.symm)

omit [DecidableEq T] in
/-- Reports leave no checks to new threads. -/
theorem Settles.pending {G : Graph J T D} {allowed : D → Prop} {i n : ℕ} {s s' : State J T D}
    (settles : Settles G allowed s s') (pending : Pending i n s) : Pending i n s' := by
  refine settles.preserves (Pending i n) (fun s d _ _ _ before => ?_) pending
  intro k th at_k
  rw [settle_threads] at at_k
  split at at_k
  · rw [List.getElem?_append] at at_k
    split at at_k
    · exact before k th at_k
    · refine Or.inl ?_
      rw [List.mem_singleton.mp (List.mem_of_getElem? at_k)]
  · exact before k th at_k

/-- When a thread has made its checks, nothing is under way. The induction is on the bound of the number
    of checks, each of which returns. -/
theorem quiet_exhaust {G : Graph J T D} {i : ℕ} :
    ∀ {n : ℕ} {s : State J T D}, Pending i n s → Quiet (exhaust G (.thread i .check) n s)
  | 0, s, pending => pending.quiet
  | n + 1, s, pending => by
      rw [exhaust]
      cases at_i : s.threads[i]? with
      | none =>
          simp only [step, at_i, Option.bind_none]
          refine Pending.quiet (i := i) fun k th at_k => (pending k th at_k).imp_right fun both => ?_
          rw [both.1, at_i] at at_k
          cases at_k
      | some th =>
          simp only [step, at_i, Option.bind_some, threadStep]
          cases checks : th.checks with
          | nil =>
              refine Pending.quiet (i := i) fun k x at_k => Or.inl ?_
              rcases pending k x at_k with empty | ⟨same, _⟩
              · exact empty
              · rw [same, at_i, Option.some.injEq] at at_k
                exact at_k ▸ checks
          | cons d rest =>
              have short : rest.length ≤ n := by
                rcases pending i th at_i with empty | ⟨_, short⟩
                · rw [checks] at empty
                  cases empty
                · rw [checks] at short
                  exact Nat.le_of_succ_le_succ short
              obtain ⟨mid, checked⟩ := check_depth_returns G d (s.setThread i { th with checks := rest })
              have deep : depth (s.setThread i { th with checks := rest }) = depth s := rfl
              rw [deep] at checked
              simp only [checked]
              have taken : Pending i n (s.setThread i { th with checks := rest }) :=
                pending.setThread rfl short
              exact quiet_exhaust ((check_settles G _ d _ mid checked).pending taken)

/-- The action destroys a reference to a lock. -/
def Action.drops : Action J → Bool
  | .thread _ (.drop _) => true
  | _ => false

/-- The pieces of whole steps other than the release of a lock leave nothing under way. -/
theorem quiet_step {G : Graph J T D} {s s' : State J T D} {a : Action J} (run : (system G).Reachable s)
    (not_drop : a.drops = false) (next : step G a s = some s') (quiet : Quiet s) :
    Quiet s' := by
  refine (moves_of_reachable run next).preserves Quiet ?_ ?_ ?_ quiet
  · intro s₁ s₂ opened before
    cases opened with
    | @takeCheck i th d rest at_i checks =>
        rw [before th (List.mem_of_getElem? at_i)] at checks
        cases checks
    | _ => exact before
  · intro s₁ s₂ reported before
    cases reported with
    | settle => exact forall_settle before fun _ _ => rfl
    | addDependent => exact before
  · intro s₁ s₂ closed before
    have kept {s' : State J T D} {i : ℕ} {th new : Thread J D} (at_i : s₁.threads[i]? = some th)
        (threads : s'.threads = (s₁.setThread i new).threads) (checks : new.checks = th.checks) :
        Quiet s' := by
      rw [Quiet, threads]
      exact forall_setThread before (checks.trans (before th (List.mem_of_getElem? at_i)))
    cases closed with
    | nothing => exact before
    | startFree => exact forall_start before rfl
    | setRunning => exact before
    | give => cases not_drop
    | giveLast => cases not_drop
    | enter at_i => exact kept at_i rfl rfl
    | share at_i => exact kept at_i rfl rfl
    | skip at_i => exact kept at_i rfl rfl
    | acquire at_i => exact kept at_i rfl rfl
    | abort at_i => exact kept at_i rfl rfl
    | run at_i => exact kept at_i rfl rfl
    | endRun at_i => exact kept at_i rfl rfl
    | complete at_i => exact kept at_i rfl rfl
    | exit at_i => exact kept at_i rfl rfl

/-- Repeating an action makes a run of the scheduler. -/
theorem exhaust_reachable {G : Graph J T D} {a : Action J} :
    ∀ {n : ℕ} {s : State J T D}, (system G).Reachable s → (system G).Reachable (exhaust G a n s)
  | 0, _, run => run
  | n + 1, s, run => by
      rw [exhaust]
      cases next : step G a s with
      | none => exact run
      | some s' => exact exhaust_reachable (.step run trivial next)

theorem exhaust_quiet {G : Graph J T D} {a : Action J} (not_drop : a.drops = false) :
    ∀ {n : ℕ} {s : State J T D}, (system G).Reachable s → Quiet s → Quiet (exhaust G a n s)
  | 0, _, _, quiet => quiet
  | n + 1, s, run, quiet => by
      rw [exhaust]
      cases next : step G a s with
      | none => exact quiet
      | some s' =>
          exact exhaust_quiet not_drop (.step run trivial next) (quiet_step run not_drop next quiet)

/-- A run in whole steps is a run of the scheduler, and nothing is under way after it. -/
theorem reachable_of_whole {G : Graph J T D} {s : State J T D} (run : (whole G).Reachable s) :
    (system G).Reachable s ∧ Quiet s := by
  refine run.invariant (fun s => (system G).Reachable s ∧ Quiet s) ?_ fun s a s' _ next both => ?_
  · rintro _ rfl
    exact ⟨.start rfl, fun _ member => by cases member⟩
  · obtain ⟨run, quiet⟩ := both
    have single (a : Action J) {s s' : State J T D} (run : (system G).Reachable s) (quiet : Quiet s)
        (not_drop : a.drops = false) (next : step G a s = some s') :
        (system G).Reachable s' ∧ Quiet s' :=
      ⟨.step run trivial next, quiet_step run not_drop next quiet⟩
    cases a with
    | submit j => exact single (.submit j) run quiet rfl next
    | start i =>
        change wholeStep G (.start i) s = some s' at next
        simp only [wholeStep, bind, Option.bind_eq_some_iff] at next
        obtain ⟨th, at_i, mid, entered, next⟩ := next
        obtain ⟨run, quiet⟩ := single _ run quiet rfl entered
        have locked := exhaust_reachable (a := .thread i .lockNext)
          (n := (G.dependencies th.job).length) run
        have quiet' := exhaust_quiet (a := .thread i .lockNext) rfl
          (n := (G.dependencies th.job).length) run quiet
        rcases Option.or_eq_some_iff.mp next with entering | ⟨_, aborted⟩
        · exact single _ locked quiet' rfl entering
        · exact Option.some.inj aborted ▸ ⟨locked, quiet'⟩
    | setRunning i => exact single (.thread i .setRunning) run quiet rfl next
    | endRun i success => exact single (.thread i (.endRun success)) run quiet rfl next
    | complete i => exact single (.thread i .complete) run quiet rfl next
    | release i l =>
        change wholeStep G (.release i l) s = some s' at next
        obtain ⟨mid, dropped, rfl⟩ := Option.map_eq_some_iff.mp next
        refine ⟨exhaust_reachable (.step run trivial dropped), quiet_exhaust ?_⟩
        simp only [step, Option.bind_eq_some_iff, threadStep, Option.ite_none_right_eq_some,
          Option.some.injEq] at dropped
        obtain ⟨th, at_i, ⟨_, checked, _⟩, rfl⟩ := dropped
        obtain ⟨new, writes⟩ := drop_writes G i th l s
        have pending : Pending i 0 s := fun k x at_k => Or.inl (quiet x (List.mem_of_getElem? at_k))
        refine pending.setThread writes.threads ?_
        rw [writes.dependents]
        rcases writes.checks with same | short
        · simp [same, checked]
        · exact short
    | exit i => exact single (.thread i .exit) run quiet rfl next

/-! ### The result -/

/-- In whole steps, with counts and limits that fit in 32 bits together: a submitted job that has never
    entered `run()` and whose start threads have all terminated has a dependency that is not OK, or one
    on a job whose thread has not run `jobCompleted` yet. -/
theorem no_lost_wakeup (G : Graph J T D)
    (small : ∀ d t, G.origin d = .token t → (G.value d).toNat + (G.limit t).toNat < 2 ^ 32)
    {s : State J T D} (run : (whole G).Reachable s) {j : J} (submitted : j ∈ s.jobs)
    (never : .entered j ∉ s.log) (gone : ∀ th ∈ s.threads, th.job = j → th.phase = .exited) :
    ∃ d ∈ G.dependencies j, status G s d ≠ .ok ∨
      ∃ k, G.origin d = .job k ∧ ∃ th ∈ s.threads, th.job = k ∧ th.phase = .ended := by
  obtain ⟨run, quiet⟩ := reachable_of_whole run
  obtain ⟨d, depends, not_ok | ⟨th, member, checked⟩ | expected⟩ :=
    idle_blocked small run submitted never gone
  · exact ⟨d, depends, Or.inl not_ok⟩
  · rw [quiet th member] at checked
    cases checked
  · exact ⟨d, depends, Or.inr expected⟩

/-- Two jobs of count one on a token of limit one: the start of the second one is aborted while the first
    one runs, and it waits for the token. -/
theorem no_lost_wakeup_token :
    ∃ s, (whole (tokenGraph 2 1 ![1, 1])).Reachable s ∧ 1 ∈ s.jobs ∧ .entered 1 ∉ s.log ∧
      (∀ th ∈ s.threads, th.job = 1 → th.phase = .exited) ∧
      ∃ d ∈ (tokenGraph 2 1 ![1, 1]).dependencies 1, status (tokenGraph 2 1 ![1, 1]) s d ≠ .ok ∨
        ∃ k, (tokenGraph 2 1 ![1, 1]).origin d = .job k ∧
          ∃ th ∈ s.threads, th.job = k ∧ th.phase = .ended := by
  have executed : ((TransitionSystem.runActions (wholeStep (tokenGraph 2 1 ![1, 1]))
      [.submit 0, .submit 1, .start 0, .start 1, .exit 1] (initial (tokenGraph 2 1 ![1, 1]))).map
        fun s => (s.jobs, s.log, s.threads.map fun th => (th.job, th.phase))) =
      some ([1, 0], [.entered 0], [(0, .running), (1, .exited)]) := by decide
  obtain ⟨s, run, seen⟩ := TransitionSystem.exists_reachable_of_runActions executed
  simp only [Prod.mk.injEq] at seen
  obtain ⟨jobs, log, threads⟩ := seen
  have submitted : 1 ∈ s.jobs := by simp [jobs]
  have never : .entered 1 ∉ s.log := by simp [log]
  have gone : ∀ th ∈ s.threads, th.job = 1 → th.phase = .exited := by
    intro th member job
    have inside := List.mem_map_of_mem (f := fun th => (th.job, th.phase)) member
    rw [threads] at inside
    simpa [job] using inside
  exact ⟨s, run, submitted, never, gone, no_lost_wakeup _ (by decide) run submitted never gone⟩

end Experimaestro.Scheduler

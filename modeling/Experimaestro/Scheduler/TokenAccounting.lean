/-
Module: Experimaestro.Scheduler.TokenAccounting
Layer: Scheduler
Purpose: The counters of the tokens. The locks of the scheduler are shared permits: a dependency is a
  claim on its token, a Lock object is a permit, the threads are the owners. Every write of the scheduler
  is matched by steps of that protocol, so that conservation comes from the library for the rule the code
  applies, and the limit for the same rule where the sum of counts does not wrap around.
Imports: Experimaestro.Library.SharedPermits, Experimaestro.Scheduler.Restarts
Trusted boundary: none (fully proved)
Main exports: permits, permits_closing, Locked, heldTokens, token_conservation, limit_exceeded,
  token_limit
Open obligations: none
-/
import Mathlib.Algebra.Order.BigOperators.Group.Finset
import Mathlib.Data.UInt
import Experimaestro.Library.SharedPermits
import Experimaestro.Scheduler.Restarts

namespace Experimaestro.Scheduler

variable {J T D : Type} [DecidableEq J] [DecidableEq T] [DecidableEq D]

/-! ### The locks as permits -/

section Permits

omit [DecidableEq T] [DecidableEq J] [DecidableEq D]

/-- The token a dependency comes from. -/
def pool (G : Graph J T D) (d : D) : Option T :=
  match G.origin d with
  | .token t => some t
  | .job _ => none

theorem pool_eq_some {G : Graph J T D} {d : D} {t : T} : pool G d = some t ↔ G.origin d = .token t := by
  unfold pool
  split <;> simp_all

/-- What the permit protocol sees of a state. -/
def permits (s : State J T D) : SharedPermits.State D T UInt32 where
  used := s.usedTokens
  objects := s.lockObjects
  current := s.currentLock
  owners := s.threads.map Thread.locks

@[simp] theorem live_permits {s : State J T D} {l : ℕ} : (permits s).Live l ↔ s.Owned l := by
  simp [permits, SharedPermits.State.Live, State.Owned]

theorem liveLock_eq_some {s : State J T D} {d : D} {l : ℕ} :
    s.liveLock d = some l ↔ s.currentLock d = some l ∧ s.Owned l := by
  simp [State.liveLock, Option.filter_eq_some_iff]

theorem not_owned_of_liveLock {s : State J T D} {d : D} (expired : s.liveLock d = none) {l : ℕ}
    (current : s.currentLock d = some l) : ¬ s.Owned l := by
  intro owned
  rw [liveLock_eq_some.mpr ⟨current, owned⟩] at expired
  cases expired

theorem owner_of_thread {s : State J T D} {i : ℕ} {th : Thread J D} (at_i : s.threads[i]? = some th) :
    (permits s).owners[i]? = some th.locks := by
  rw [permits, List.getElem?_map, at_i, Option.map_some]

/-- A write that leaves the counters, the Lock objects and the locks of the thread alone. -/
theorem permits_setThread {s s' : State J T D} {i : ℕ} {th new : Thread J D}
    (at_i : s.threads[i]? = some th) (threads : s'.threads = (s.setThread i new).threads)
    (locks : new.locks = th.locks) (used : s'.usedTokens = s.usedTokens)
    (objects : s'.lockObjects = s.lockObjects) (current : s'.currentLock = s.currentLock) :
    permits s' = permits s := by
  have owners : s'.threads.map Thread.locks = s.threads.map Thread.locks := by
    obtain ⟨inRange, rfl⟩ := List.getElem?_eq_some_iff.mp at_i
    rw [threads, State.setThread, List.map_set, locks, ← List.getElem_map Thread.locks,
      List.set_getElem_self]
    simpa using inRange
  rw [permits, permits, owners, used, objects, current]

/-- What is known of the locks besides the protocol: Lock objects belong to tokens, and a thread that has
    terminated has no locks. -/
structure LocksSound (G : Graph J T D) (s : State J T D) : Prop where
  tokens : ∀ d ∈ s.lockObjects, ∃ t, G.origin d = .token t
  exited : ∀ th ∈ s.threads, th.phase = .exited → th.locks = []

theorem locksSound_initial (G : Graph J T D) : LocksSound G (initial G) := by
  constructor <;> intro _ member <;> cases member

/-- A write to one thread that adds no Lock object. -/
theorem LocksSound.setThread {G : Graph J T D} {s s' : State J T D} {i : ℕ} {new : Thread J D}
    (sound : LocksSound G s) (threads : s'.threads = (s.setThread i new).threads)
    (objects : s'.lockObjects = s.lockObjects) (exited : new.phase = .exited → new.locks = []) :
    LocksSound G s' := by
  refine ⟨?_, ?_⟩
  · rw [objects]
    exact sound.tokens
  · rw [threads]
    exact forall_setThread sound.exited exited

end Permits

omit [DecidableEq T] [DecidableEq D] in
theorem locksSound_opening {G : Graph J T D} {s s' : State J T D} {a : Action J}
    (opened : Opening G s a s') (sound : LocksSound G s) : LocksSound G s' := by
  cases opened with
  | nothing => exact sound
  | enlist fresh => exact ⟨sound.1, sound.2⟩
  | finish at_i ended => exact ⟨sound.1, sound.2⟩
  | @takeCheck i th d rest at_i checks =>
      exact sound.setThread rfl rfl (sound.exited th (List.mem_of_getElem? at_i))

omit [DecidableEq T] in
theorem locksSound_report {G : Graph J T D} {s s' : State J T D} {a : Action J}
    (reported : Report G a s s') (sound : LocksSound G s) : LocksSound G s' := by
  cases reported with
  | settle submitted unlocked changed source =>
      exact ⟨by simpa using sound.tokens, forall_settle sound.exited fun _ _ _ => rfl⟩
  | addDependent submitted => exact ⟨sound.1, sound.2⟩

theorem locksSound_closing {G : Graph J T D} {admits : D → UInt32 → Prop} {s s' : State J T D}
    {a : Action J} (closed : Closing G admits s a s') (sound : LocksSound G s) : LocksSound G s' := by
  have still_dropping {th : Thread J D} (dropping : th.phase.dropping) : th.phase ≠ .exited := by
    intro phase
    rw [phase] at dropping
    cases dropping
  cases closed with
  | nothing => exact sound
  | startFree free submitted idle unentered =>
      exact ⟨sound.tokens, forall_start sound.exited fun _ => rfl⟩
  | acquire at_i locking expired origin admitted =>
      refine ⟨fun e member => ?_, forall_setThread sound.exited nofun⟩
      rcases List.mem_append.mp member with old | new
      · exact sound.tokens e old
      · exact ⟨_, List.mem_singleton.mp new ▸ origin⟩
  | setRunning at_i running => exact ⟨sound.1, sound.2⟩
  | give at_i dropping member still =>
      exact sound.setThread rfl rfl fun phase => absurd phase (still_dropping dropping)
  | giveLast at_i dropping member last object origin =>
      exact sound.setThread rfl rfl fun phase => absurd phase (still_dropping dropping)
  | exit at_i dropping empty checked => exact sound.setThread rfl rfl fun _ => empty
  | enter => exact sound.setThread rfl rfl nofun
  | share => exact sound.setThread rfl rfl nofun
  | skip => exact sound.setThread rfl rfl nofun
  | abort => exact sound.setThread rfl rfl nofun
  | run => exact sound.setThread rfl rfl nofun
  | endRun => exact sound.setThread rfl rfl nofun
  | complete => exact sound.setThread rfl rfl nofun

/-! ### Every write is matched by the protocol -/

omit [DecidableEq T] [DecidableEq D] in
theorem permits_opening {G : Graph J T D} {s s' : State J T D} {a : Action J}
    (opened : Opening G s a s') : permits s' = permits s := by
  cases opened with
  | takeCheck at_i checks => exact permits_setThread at_i rfl rfl rfl rfl rfl
  | _ => rfl

section Matching

variable {G : Graph J T D} {admits : D → UInt32 → Prop} {s s' : State J T D} {a : Action J}

omit [DecidableEq J] in
theorem permits_start (s : State J T D) (j : J) :
    SharedPermits.Step (pool G) G.value admits (permits s) (permits (start s j)) := by
  have entered : SharedPermits.Step (pool G) G.value admits (permits s) _ := .enter (permits s)
  simpa [permits, start] using entered

theorem permits_report (reported : Report G a s s') :
    Relation.ReflTransGen (SharedPermits.Step (pool G) G.value admits) (permits s) (permits s') := by
  cases reported with
  | @settle d submitted unlocked changed source =>
      by_cases starts : status G s d ≠ .fail ∧ (settle G d s).unsatisfied (G.target d) = 0
      · have same : permits (settle G d s) = permits (start s (G.target d)) := by
          simp only [permits, settle_threads, if_pos starts, settle_usedTokens, settle_lockObjects,
            settle_currentLock, start]
        exact same ▸ .single (permits_start s _)
      · have same : permits (settle G d s) = permits s := by
          simp only [permits, settle_threads, if_neg starts, settle_usedTokens, settle_lockObjects,
            settle_currentLock]
        exact same ▸ .refl
  | addDependent submitted => exact .refl

theorem permits_closing (sound : LocksSound G s) (tracked : SharedPermits.Tracked (permits s))
    (closed : Closing G admits s a s') :
    Relation.ReflTransGen (SharedPermits.Step (pool G) G.value admits) (permits s) (permits s') := by
  have unchanged {s' : State J T D} (same : permits s' = permits s) :
      Relation.ReflTransGen (SharedPermits.Step (pool G) G.value admits) (permits s) (permits s') :=
    same ▸ .refl
  have expired {d : D} (none_live : s.liveLock d = none) :
      ∀ l, (permits s).current d = some l → ¬ (permits s).Live l :=
    fun l current => mt live_permits.mp (not_owned_of_liveLock none_live current)
  cases closed with
  | nothing => exact .refl
  | startFree free submitted idle unentered => exact .single (permits_start s _)
  | enter at_i pending => exact unchanged (permits_setThread at_i rfl rfl rfl rfl rfl)
  | @share i th d rest l at_i locking live =>
      obtain ⟨current, owned⟩ := liveLock_eq_some.mp live
      have shared : SharedPermits.Step (pool G) G.value admits (permits s) _ :=
        .share (permits s) (owner_of_thread at_i) current (live_permits.mpr owned)
      refine .single ?_
      simpa [permits, State.setThread, List.map_set] using shared
  | @skip i th d rest k at_i locking none_live origin =>
      have forgotten : SharedPermits.Step (pool G) G.value admits (permits s) _ :=
        .forget (permits s) (expired none_live)
      have same : permits (({ s with
          currentLock := Function.update s.currentLock d none }.setThread i
            { th with phase := .locking rest })) =
          permits { s with currentLock := Function.update s.currentLock d none } :=
        permits_setThread at_i rfl rfl rfl rfl rfl
      exact same ▸ .single forgotten
  | @acquire i th d rest t at_i locking none_live origin admitted =>
      have acquired : SharedPermits.Step (pool G) G.value admits (permits s) _ :=
        .acquire (permits s) (owner_of_thread at_i) (expired none_live) (pool_eq_some.mpr origin) admitted
      refine .single ?_
      simpa [permits, State.setThread, List.map_set] using acquired
  | abort at_i locking => exact unchanged (permits_setThread at_i rfl rfl rfl rfl rfl)
  | run at_i locked => exact unchanged (permits_setThread at_i rfl rfl rfl rfl rfl)
  | setRunning at_i running => exact .refl
  | endRun at_i running result => exact unchanged (permits_setThread at_i rfl rfl rfl rfl rfl)
  | complete at_i ended => exact unchanged (permits_setThread at_i rfl rfl rfl rfl rfl)
  | @give i th l at_i dropping member still =>
      -- A live Lock object exists and belongs to a token, so that the lock is still owned.
      have owned : (s.setThread i { th with locks := th.locks.erase l }).Owned l := by
        refine still.resolve_right fun no_token => ?_
        obtain ⟨d, object, _⟩ :=
          tracked l (live_permits.mpr ⟨th, List.mem_of_getElem? at_i, member⟩)
        obtain ⟨t, origin⟩ := sound.tokens d (List.mem_of_getElem? object)
        exact no_token d object t origin
      have owners : (permits (s.setThread i { th with locks := th.locks.erase l })) =
          { permits s with owners := (permits s).owners.set i (th.locks.erase l) } := by
        simp [permits, State.setThread, List.map_set]
      have given : SharedPermits.Step (pool G) G.value admits (permits s) _ :=
        .give (permits s) (owner_of_thread at_i) (l := l) (owners ▸ live_permits.mpr owned)
      exact owners ▸ .single given
  | @giveLast i th l d t at_i dropping member last object origin =>
      have owners : (permits (s.setThread i { th with locks := th.locks.erase l })) =
          { permits s with owners := (permits s).owners.set i (th.locks.erase l) } := by
        simp [permits, State.setThread, List.map_set]
      have given : SharedPermits.Step (pool G) G.value admits (permits s) _ :=
        .giveLast (permits s) (owner_of_thread at_i) member (owners ▸ mt live_permits.mp last) object
          (pool_eq_some.mpr origin)
      refine .single ?_
      simpa [permits, State.setThread, List.map_set] using given
  | exit at_i dropping empty checked => exact unchanged (permits_setThread at_i rfl rfl rfl rfl rfl)

end Matching

/-- A property of permits that every step of the protocol keeps, when new locks are granted as `admits`
    says, holds along every run whose steps grant locks so. -/
theorem permits_invariant {G : Graph J T D} {ok : State J T D → Action J → Prop}
    {admits : D → UInt32 → Prop} (inv : SharedPermits.State D T UInt32 → Prop)
    (granted : ∀ s a, ok s a → ∀ d t, Requests G s a d t → grants G d (s.usedTokens t) →
      admits d (s.usedTokens t))
    (init : inv .init) (tracked : ∀ p, inv p → SharedPermits.Tracked p)
    (keep : ∀ p p', SharedPermits.Step (pool G) G.value admits p p' → inv p → inv p')
    {s : State J T D} (run : (system G).RunUnder ok s) : LocksSound G s ∧ inv (permits s) := by
  have path {p p' : SharedPermits.State D T UInt32}
      (steps : Relation.ReflTransGen (SharedPermits.Step (pool G) G.value admits) p p')
      (before : inv p) : inv p' := by
    induction steps with
    | refl => exact before
    | tail _ one ih => exact keep _ _ one ih
  refine run.invariant (fun s => LocksSound G s ∧ inv (permits s)) ?_ fun s a s' run met next both => ?_
  · rintro _ rfl
    exact ⟨locksSound_initial G, init⟩
  · have moves : Moves G admits s a s' :=
      step_moves (attached_of_reachable run.reachable) (granted s a met) next
    refine moves.preserves (fun s => LocksSound G s ∧ inv (permits s)) ?_ ?_ ?_ both
    · exact fun opened both => ⟨locksSound_opening opened both.1, permits_opening opened ▸ both.2⟩
    · exact fun reported both => ⟨locksSound_report reported both.1, path (permits_report reported) both.2⟩
    · exact fun closed both =>
        ⟨locksSound_closing closed both.1, path (permits_closing both.1 (tracked _ both.2) closed) both.2⟩

/-! ### Conservation -/

/-- Some Lock object of the dependency is alive. -/
def Locked (s : State J T D) (d : D) : Prop := ∃ l, s.lockObjects[l]? = some d ∧ s.Owned l

open Classical in
/-- The sum, over the natural numbers, of the counts of the dependencies on a token that have a live
    lock. -/
noncomputable def heldTokens (G : Graph J T D) (s : State J T D) (t : T) : ℕ :=
  ∑ d ∈ s.lockObjects.toFinset.filter fun d => G.origin d = .token t ∧ Locked s d, (G.value d).toNat

theorem heldTokens_eq_load (G : Graph J T D) (s : State J T D) (t : T) :
    heldTokens G s t = SharedPermits.load (pool G) (fun d => (G.value d).toNat) (permits s) t := by
  refine Finset.sum_congr ?_ fun _ _ => rfl
  ext d
  have drawn : Locked s d → d ∈ s.lockObjects := fun ⟨_, object, _⟩ => List.mem_of_getElem? object
  have same : (permits s).Holds d ↔ Locked s d := by
    simp only [SharedPermits.State.Holds, live_permits, Locked]
    rfl
  simp only [Finset.mem_filter, List.mem_toFinset, SharedPermits.mem_holders, pool_eq_some, same]
  exact ⟨And.right, fun both => ⟨drawn both.2, both⟩⟩

/-- A sum of machine words is the sum of the numbers, wrapped around. -/
theorem toNat_sum (f : D → UInt32) (ds : Finset D) :
    (∑ d ∈ ds, f d).toNat = (∑ d ∈ ds, (f d).toNat) % 2 ^ 32 := by
  induction ds using Finset.induction_on with
  | empty => rfl
  | insert d ds notin ih =>
      rw [Finset.sum_insert notin, Finset.sum_insert notin, UInt32.toNat_add, ih]
      omega

/-- In every reachable state the counter of a token is the sum of the counts of the dependencies with a
    live lock, wrapped around; a dependency has at most one live lock; and when all threads have
    terminated every counter is back at zero. -/
theorem token_conservation (G : Graph J T D) {s : State J T D} (run : (system G).Reachable s) :
    (∀ t, (s.usedTokens t).toNat = heldTokens G s t % 2 ^ 32) ∧
      (∀ d l m, s.lockObjects[l]? = some d → s.Owned l → s.lockObjects[m]? = some d → s.Owned m →
        l = m) ∧
      ((∀ th ∈ s.threads, th.phase = .exited) → ∀ t, s.usedTokens t = 0) := by
  obtain ⟨sound, balanced⟩ := permits_invariant (SharedPermits.Balanced (pool G) G.value)
    (fun _ _ _ _ _ _ granted => granted) SharedPermits.balanced_init
    (fun _ balanced => balanced.tracked) (fun _ _ => SharedPermits.step_balanced) run
  have used (t : T) : s.usedTokens t = SharedPermits.load (pool G) G.value (permits s) t :=
    balanced.used_eq_load t
  refine ⟨fun t => ?_, fun d l m object_l owned_l object_m owned_m => ?_, fun exited t => ?_⟩
  · rw [used t, SharedPermits.load, toNat_sum, heldTokens_eq_load, SharedPermits.load]
  · exact SharedPermits.unique_permit balanced.tracked (live_permits.mpr owned_l)
      (live_permits.mpr owned_m) object_l object_m
  · have none_live : ∀ l, ¬ (permits s).Live l := by
      intro l live
      obtain ⟨th, member, inside⟩ := live_permits.mp live
      rw [sound.exited th member (exited th member)] at inside
      cases inside
    rw [used t, SharedPermits.load_eq_zero none_live]

/-- Two jobs of count one on a token of limit one: the second one aborts its start and runs later. At the
    end every thread has terminated. -/
theorem token_conservation_abort :
    ∃ s, (system (tokenGraph 2 1 ![1, 1])).Reachable s ∧ s.lockObjects = [0, 1] ∧
      (∀ t, (s.usedTokens t).toNat = heldTokens (tokenGraph 2 1 ![1, 1]) s t % 2 ^ 32) ∧
      (∀ d l m, s.lockObjects[l]? = some d → s.Owned l → s.lockObjects[m]? = some d → s.Owned m →
        l = m) ∧
      ((∀ th ∈ s.threads, th.phase = .exited) ∧ ∀ t, s.usedTokens t = 0) := by
  have executed : ((TransitionSystem.runActions (step (tokenGraph 2 1 ![1, 1]))
      [.submit 0, .submit 1, .thread 0 .enter, .thread 1 .enter, .thread 0 .lockNext, .thread 0 .run,
        .thread 1 .lockNext, .thread 1 .exit, .thread 0 (.endRun true), .thread 0 .complete,
        .thread 0 (.drop 0), .thread 0 .check, .thread 0 .check, .thread 0 .exit, .thread 2 .enter,
        .thread 2 .lockNext, .thread 2 .run, .thread 2 (.endRun true), .thread 2 .complete,
        .thread 2 (.drop 1), .thread 2 .check, .thread 2 .check, .thread 2 .exit]
      (initial (tokenGraph 2 1 ![1, 1]))).map fun s => (s.lockObjects, s.threads.map Thread.phase)) =
      some ([0, 1], [.exited, .exited, .exited]) := by decide
  obtain ⟨s, run, seen⟩ := TransitionSystem.exists_reachable_of_runActions executed
  simp only [Prod.mk.injEq] at seen
  obtain ⟨objects, phases⟩ := seen
  have exited : ∀ th ∈ s.threads, th.phase = .exited := by
    intro th member
    have inside := List.mem_map_of_mem (f := Thread.phase) member
    rw [phases] at inside
    simpa using inside
  obtain ⟨counted, unique, returned⟩ := token_conservation _ run
  exact ⟨s, run, objects, counted, unique, exited, returned exited⟩

/-! ### The limit -/

/-- The first job holds the only token; the second one asks for `2 ^ 32 - 1` more, the sum wraps around
    to zero and the lock is granted. -/
theorem limit_exceeded :
    ∃ s, (system (tokenGraph 2 1 ![1, 4294967295])).Reachable s ∧ Locked s 0 ∧ Locked s 1 ∧
      1 < heldTokens (tokenGraph 2 1 ![1, 4294967295]) s () := by
  have executed : ((TransitionSystem.runActions (step (tokenGraph 2 1 ![1, 4294967295]))
      [.submit 0, .thread 0 .enter, .thread 0 .lockNext, .thread 0 .run, .submit 1, .thread 1 .enter,
        .thread 1 .lockNext, .thread 1 .run]
      (initial (tokenGraph 2 1 ![1, 4294967295]))).map fun s =>
        (s.lockObjects, s.threads.map Thread.locks)) = some ([0, 1], [[0], [1]]) := by decide
  obtain ⟨s, run, seen⟩ := TransitionSystem.exists_reachable_of_runActions executed
  simp only [Prod.mk.injEq] at seen
  obtain ⟨objects, locks⟩ := seen
  have owned {l : ℕ} (member : l ∈ [0, 1]) : s.Owned l := by
    have inside : [l] ∈ s.threads.map Thread.locks := by
      rw [locks]
      simpa using member
    obtain ⟨th, thread, equal⟩ := List.mem_map.mp inside
    exact ⟨th, thread, equal ▸ List.mem_cons_self ..⟩
  have locked₀ : Locked s 0 := ⟨0, by simp [objects], owned (by simp)⟩
  have locked₁ : Locked s 1 := ⟨1, by simp [objects], owned (by simp)⟩
  refine ⟨s, run, locked₀, locked₁, ?_⟩
  classical
  have member : (1 : Fin 2) ∈ s.lockObjects.toFinset.filter fun d =>
      (tokenGraph 2 1 ![1, 4294967295]).origin d = .token () ∧ Locked s d := by
    simp only [Finset.mem_filter, List.mem_toFinset, objects]
    exact ⟨by simp, rfl, locked₁⟩
  have large : ((tokenGraph 2 1 ![1, 4294967295]).value 1).toNat ≤
      heldTokens (tokenGraph 2 1 ![1, 4294967295]) s () := by
    unfold heldTokens
    convert Finset.single_le_sum
      (f := fun d => ((tokenGraph 2 1 ![1, 4294967295]).value d).toNat) (fun _ _ => Nat.zero_le _) member
  exact lt_of_lt_of_le (by decide) large

/-- The condition on a step: when it is granted a new lock, the sum of the counter and the count fits in
    32 bits. -/
def NoWrap (G : Graph J T D) (s : State J T D) (a : Action J) : Prop :=
  ∀ d t, Requests G s a d t → grants G d (s.usedTokens t) →
    (G.value d).toNat + (s.usedTokens t).toNat < 2 ^ 32

/-- The rule of a token together with the condition. -/
def GrantsExactly (G : Graph J T D) (d : D) (used : UInt32) : Prop :=
  grants G d used ∧ (G.value d).toNat + used.toNat < 2 ^ 32

/-- Counters that read as the natural sums, within the limits. -/
abbrev WithinLimits (G : Graph J T D) (s : State J T D) : Prop :=
  SharedPermits.Within (pool G) (fun t => (G.limit t).toNat) UInt32.toNat (fun d => (G.value d).toNat)
    (permits s)

omit [DecidableEq T] [DecidableEq J] [DecidableEq D] in
theorem within_init (G : Graph J T D) :
    SharedPermits.Within (pool G) (fun t => (G.limit t).toNat) UInt32.toNat
      (fun d => (G.value d).toNat) .init := by
  have none_live : ∀ l, ¬ (SharedPermits.State.init : SharedPermits.State D T UInt32).Live l := by
    rintro l ⟨held, member, _⟩
    cases member
  refine ⟨fun l live => absurd live (none_live l), fun t => ?_, fun t => ?_⟩
  · rw [SharedPermits.load_eq_zero none_live]
    rfl
  · rw [SharedPermits.load_eq_zero none_live]
    exact Nat.zero_le _

omit [DecidableEq J] in
/-- Locks granted without wrapping around keep the counters within the limits. -/
theorem within_step (G : Graph J T D) {p p' : SharedPermits.State D T UInt32}
    (one : SharedPermits.Step (pool G) G.value (GrantsExactly G) p p')
    (within : SharedPermits.Within (pool G) (fun t => (G.limit t).toNat) UInt32.toNat
      (fun d => (G.value d).toNat) p) :
    SharedPermits.Within (pool G) (fun t => (G.limit t).toNat) UInt32.toNat
      (fun d => (G.value d).toNat) p' := by
  refine SharedPermits.step_within (fun d t u source granted => ?_) (fun d u enough => ?_) one within
  · have fits := UInt32.le_iff_toNat_le.mp (UInt32.not_lt.mp (granted.1 t (pool_eq_some.mp source)))
    have sum : (G.value d + u).toNat = (G.value d).toNat + u.toNat := by
      rw [UInt32.toNat_add, Nat.mod_eq_of_lt granted.2]
    rw [sum] at fits
    rw [add_comm u, sum]
    omega
  · exact UInt32.toNat_sub_of_le _ _ (UInt32.le_iff_toNat_le.mpr enough)

theorem withinLimits_of_run {G : Graph J T D} {s : State J T D}
    (run : (system G).RunUnder (NoWrap G) s) : LocksSound G s ∧ WithinLimits G s :=
  permits_invariant _ (fun _ _ met d t asked granted => ⟨granted, met d t asked granted⟩) (within_init G)
    (fun _ within => within.tracked) (fun _ _ => within_step G) run

/-- A lock granted by a sum that wraps around takes the held tokens over the limit. -/
theorem limit_lt_of_wrap {G : Graph J T D} {s s' : State J T D} {a : Action J} {d : D} {t : T}
    (within : WithinLimits G s) (next : step G a s = some s') (asked : Requests G s a d t)
    (granted : grants G d (s.usedTokens t))
    (wraps : 2 ^ 32 ≤ (G.value d).toNat + (s.usedTokens t).toNat) :
    (G.limit t).toNat < heldTokens G s' t := by
  obtain ⟨i, th, rest, rfl, at_i, locking, expired, origin⟩ := asked
  have admitted : ¬ G.value d + s.usedTokens t > G.limit t := granted t origin
  simp only [step, at_i, Option.bind_some, threadStep, locking, lockNext, lock, expired, origin,
    if_neg admitted, Option.some.injEq] at next
  have before : ¬ (permits s).Holds d := SharedPermits.not_holds_of_expired within.tracked
    fun l current => mt live_permits.mp (not_owned_of_liveLock expired current)
  have after (e : D) : (permits s').Holds e ↔ (permits s).Holds e ∨ e = d := by
    refine SharedPermits.holds_draw_iff within.tracked (owner_of_thread at_i) ?_ ?_ e
    · exact next ▸ rfl
    · subst next
      simp [permits, State.setThread, List.map_set]
  have used : (s.usedTokens t).toNat =
      SharedPermits.load (pool G) (fun d => (G.value d).toNat) (permits s) t := within.value_eq_load t
  rw [heldTokens_eq_load, SharedPermits.load_insert (pool_eq_some.mpr origin) before after, ← used]
  exact lt_of_lt_of_le (G.limit t).toNat_lt wraps

/-- In a run where no granted sum wraps around, the held tokens never exceed a limit, and the next step
    keeps it so exactly when it meets the condition as well. -/
theorem token_limit (G : Graph J T D) {s : State J T D} (run : (system G).RunUnder (NoWrap G) s) :
    (∀ t, heldTokens G s t ≤ (G.limit t).toNat) ∧
      ∀ a s', (system G).next s a s' →
        ((∀ t, heldTokens G s' t ≤ (G.limit t).toNat) ↔ NoWrap G s a) := by
  have bounded {s : State J T D} (run : (system G).RunUnder (NoWrap G) s) (t : T) :
      heldTokens G s t ≤ (G.limit t).toNat :=
    heldTokens_eq_load G s t ▸ (withinLimits_of_run run).2.load_le t
  refine ⟨bounded run, fun a s' next => ⟨fun kept d t asked granted => ?_, fun met => ?_⟩⟩
  · by_contra wraps
    have exceeds := limit_lt_of_wrap (withinLimits_of_run run).2 next asked granted (not_lt.mp wraps)
    exact absurd (kept t) (not_le.mpr exceeds)
  · exact bounded (.step run met next)

/-- Counts and limits that fit in 32 bits together: then every run meets the condition. -/
theorem run_noWrap_of_small {G : Graph J T D}
    (small : ∀ d t, G.origin d = .token t → (G.value d).toNat + (G.limit t).toNat < 2 ^ 32)
    {s : State J T D} (run : (system G).Reachable s) : (system G).RunUnder (NoWrap G) s := by
  refine run.invariant ((system G).RunUnder (NoWrap G)) (fun _ first => .start first) ?_
  intro s a s' _ next under
  refine .step under (fun d t asked _ => ?_) next
  obtain ⟨_, _, _, _, _, _, _, origin⟩ := asked
  have within := (withinLimits_of_run under).2
  have used : (s.usedTokens t).toNat ≤ (G.limit t).toNat :=
    (within.value_eq_load t).le.trans (within.load_le t)
  have fits := small d t origin
  omega

/-- Two jobs of count one on a token of limit one, the first of them in `run()`. -/
theorem token_limit_one :
    ∃ s, (system (tokenGraph 2 1 ![1, 1])).RunUnder (NoWrap (tokenGraph 2 1 ![1, 1])) s ∧
      s.lockObjects = [0] ∧ (∀ t, heldTokens (tokenGraph 2 1 ![1, 1]) s t ≤ 1) ∧
      ∀ a s', (system (tokenGraph 2 1 ![1, 1])).next s a s' →
        ((∀ t, heldTokens (tokenGraph 2 1 ![1, 1]) s' t ≤ 1) ↔ NoWrap (tokenGraph 2 1 ![1, 1]) s a) := by
  have executed : ((TransitionSystem.runActions (step (tokenGraph 2 1 ![1, 1]))
      [.submit 0, .submit 1, .thread 0 .enter, .thread 0 .lockNext, .thread 0 .run]
      (initial (tokenGraph 2 1 ![1, 1]))).map fun s => s.lockObjects) = some [0] := by decide
  obtain ⟨s, run, objects⟩ := TransitionSystem.exists_reachable_of_runActions executed
  have small : ∀ d t, (tokenGraph 2 1 ![1, 1]).origin d = .token t →
      ((tokenGraph 2 1 ![1, 1]).value d).toNat + ((tokenGraph 2 1 ![1, 1]).limit t).toNat < 2 ^ 32 := by
    decide
  have under := run_noWrap_of_small small run
  obtain ⟨kept, exactly⟩ := token_limit _ under
  exact ⟨s, under, objects, kept, exactly⟩

end Experimaestro.Scheduler

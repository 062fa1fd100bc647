/-
Module: Experimaestro.Scheduler.LockRelease
Layer: Scheduler
Purpose: The lock files of one locator as long as nobody crashes. Launchers may still time out, and shells
  may end early. Every lock file then has exactly one owner who is going to remove it (`Accounted`), so
  that the checks a launcher and a script make under the main lock never fail, and when everybody has left
  no lock file is left behind. All come to an end after a bounded number of operations; a launcher that
  has missed the removal of the main lock needs its timeout for that.
Imports: Experimaestro.Library.Progress, Experimaestro.Scheduler.LockFiles
Trusted boundary: none (fully proved)
Main exports: startHolders, pidHolders, NoCrash, unlocked, Accounted, locks_accounted, checks_pass,
  remaining, Informed, everybody_leaves
Open obligations: none
-/
import Mathlib.Algebra.Ring.Nat
import Experimaestro.Library.Progress
import Experimaestro.Scheduler.LockFiles

namespace Experimaestro.Scheduler

/-! ### Who is going to remove the other files -/

/-- The launcher has created `.lock.start` and has neither removed it nor started a script. -/
def LauncherPhase.holdsStart : LauncherPhase → Bool
  | .startProcess => true
  | _ => false

/-- The script has been started and has not removed `.lock.start`. -/
def ScriptPhase.holdsStart : ScriptPhase → Bool
  | .testLock | .testStart | .removeStart => true
  | _ => false

/-- The script has written `.pid` and has not removed it. -/
def ScriptPhase.holdsPid : ScriptPhase → Bool
  | .body | .writeCode _ | .touchDone | .removePid _ => true
  | _ => false

/-- Who is going to remove `.lock.start`. -/
def startHolders (s : Protocol) : ℕ :=
  (s.launchers.countP fun l => l.phase.holdsStart) + s.scripts.countP fun p => p.phase.holdsStart

/-- Who is going to remove `.pid`. -/
def pidHolders (s : Protocol) : ℕ := s.scripts.countP fun p => p.phase.holdsPid

/-- A script that starts has been given both locks. -/
@[simp] theorem ScriptPhase.testLock_holds :
    testLock.holds = true ∧ testLock.holdsStart = true ∧ testLock.holdsPid = false :=
  ⟨rfl, rfl, rfl⟩

/-- A script that has ended has given everything back. -/
@[simp] theorem ScriptPhase.ended_holds (left : Bool) :
    (ended left).holds = false ∧ (ended left).holdsStart = false ∧ (ended left).holdsPid = false :=
  ⟨rfl, rfl, rfl⟩

theorem ScriptPhase.holds_of_holdsPid {phase : ScriptPhase} (pid : phase.holdsPid) : phase.holds := by
  cases phase <;> trivial

/-! ### Runs without crashes -/

/-- The action is a crash. -/
def ProtocolAction.crashes : ProtocolAction → Bool
  | .crashLauncher _ | .crashScript _ => true
  | _ => false

/-- No step is a crash. -/
def NoCrash (_ : Protocol) (a : ProtocolAction) : Prop := a.crashes = false

/-- The protocol where nobody is there at first and no lock file exists; the exit code and `.done` of an
    earlier run may exist. -/
def unlocked : TransitionSystem.System Protocol ProtocolAction where
  initial s := protocol.initial s ∧
    s.files .lock = false ∧ s.files .lockStart = false ∧ s.files .pid = false
  next := protocol.next

/-- The invariant: nobody has crashed, every lock file has exactly one owner, and no call of `lock` for
    `.lock.start` has found the file. -/
structure Accounted (s : Protocol) : Prop where
  launchers : ∀ l ∈ s.launchers, l.crashed = false
  scripts : ∀ p ∈ s.scripts, p.crashed = false
  lock : holders s = (s.files .lock).toNat
  lockStart : startHolders s = (s.files .lockStart).toNat
  pid : pidHolders s = (s.files .pid).toNat
  opening : ∀ l ∈ s.launchers, ∀ attempt, l.phase = .acquireStart attempt → attempt = .opening

/-! ### What one operation does to the files and their owners -/

/-- An operation of a launcher, with the owners besides it, and counting the script it may have
    started. -/
theorem LauncherPhase.advance_accounted {files files' : Files} {phase next : LauncherPhase}
    (lock lockStart : ℕ) (h : phase.advance files = some (next, files'))
    (ofLock : lock + phase.holds.toNat = (files .lock).toNat)
    (ofStart : lockStart + phase.holdsStart.toNat = (files .lockStart).toNat) :
    lock + next.holds.toNat + (decide (phase = .startProcess)).toNat = (files' .lock).toNat ∧
      lockStart + next.holdsStart.toNat + (decide (phase = .startProcess)).toNat =
        (files' .lockStart).toNat ∧
      files' .pid = files .pid := by
  have oneLock := Bool.toNat_le (files .lock)
  have oneStart := Bool.toNat_le (files .lockStart)
  cases phase with
  | acquire attempt =>
      rcases LockAttempt.advance_cases h with ⟨later, rfl, rfl⟩ | ⟨_, free, rfl, rfl⟩
      · simpa [holds, holdsStart] using And.intro ofLock ofStart
      · simp [holds, holdsStart, free] at *
        omega
  | acquireStart attempt =>
      rcases LockAttempt.advance_cases h with ⟨later, rfl, rfl⟩ | ⟨_, free, rfl, rfl⟩
      · simpa [holds, holdsStart] using And.intro ofLock ofStart
      · simp [holds, holdsStart, free] at *
        omega
  | unwind =>
      obtain ⟨rfl, rfl⟩ := h
      simp [holds, holdsStart] at *
      omega
  | returned => cases h
  | testDone =>
      obtain ⟨rfl, rfl⟩ := h
      split <;> simpa [holds, holdsStart] using And.intro ofLock ofStart
  | testPid =>
      obtain ⟨rfl, rfl⟩ := h
      split <;> simpa [holds, holdsStart] using And.intro ofLock ofStart
  | retestDone =>
      obtain ⟨rfl, rfl⟩ := h
      split <;> simpa [holds, holdsStart] using And.intro ofLock ofStart
  | retestPid =>
      obtain ⟨rfl, rfl⟩ := h
      split <;> simpa [holds, holdsStart] using And.intro ofLock ofStart
  | _ =>
      obtain ⟨rfl, rfl⟩ := h
      simpa [holds, holdsStart] using And.intro ofLock ofStart

/-- An operation of a script, with the owners besides it. The owners of the files are what its two tests
    look for, and one that writes `.pid` finds none. -/
theorem ScriptPhase.advance_accounted {files files' : Files} {success : Bool} {phase next : ScriptPhase}
    (lock lockStart : ℕ) {pid : ℕ} (h : phase.advance files success = some (next, files')) (fewer : pid ≤ lock)
    (ofLock : lock + phase.holds.toNat = (files .lock).toNat)
    (ofStart : lockStart + phase.holdsStart.toNat = (files .lockStart).toNat)
    (ofPid : pid + phase.holdsPid.toNat = (files .pid).toNat) :
    lock + next.holds.toNat = (files' .lock).toNat ∧
      lockStart + next.holdsStart.toNat = (files' .lockStart).toNat ∧
      pid + next.holdsPid.toNat = (files' .pid).toNat := by
  have oneLock := Bool.toNat_le (files .lock)
  have oneStart := Bool.toNat_le (files .lockStart)
  have onePid := Bool.toNat_le (files .pid)
  cases phase with
  | testLock =>
      obtain ⟨rfl, rfl⟩ := h
      cases there : files .lock with
      | false => simp [holds, there] at ofLock
      | true => simpa [holds, holdsStart, holdsPid, there] using And.intro ofLock (And.intro ofStart ofPid)
  | testStart =>
      obtain ⟨rfl, rfl⟩ := h
      cases there : files .lockStart with
      | false => simp [holdsStart, there] at ofStart
      | true => simpa [holds, holdsStart, holdsPid, there] using And.intro ofLock (And.intro ofStart ofPid)
  | writeCode success =>
      cases success <;>
      · obtain ⟨rfl, rfl⟩ := h
        simpa [holds, holdsStart, holdsPid] using And.intro ofLock (And.intro ofStart ofPid)
  | ended left => cases h
  | body =>
      obtain ⟨rfl, rfl⟩ := h
      simpa [holds, holdsStart, holdsPid] using And.intro ofLock (And.intro ofStart ofPid)
  | _ =>
      obtain ⟨rfl, rfl⟩ := h
      simp [holds, holdsStart, holdsPid] at *
      omega

/-- A launcher that leaves early has no start lock. -/
theorem LauncherPhase.timeOut_holdsStart {phase next : LauncherPhase} (h : phase.timeOut = some next) :
    next.holdsStart = phase.holdsStart ∧ ∀ attempt, next ≠ .acquireStart attempt := by
  cases phase with
  | acquire attempt =>
      cases attempt <;> cases h
      exact ⟨rfl, nofun⟩
  | acquireStart attempt =>
      cases attempt <;> cases h
      exact ⟨rfl, nofun⟩
  | _ => cases h

theorem ScriptPhase.interrupt_keeps {left : Bool} {phase next : ScriptPhase}
    (h : phase.interrupt left = some next) :
    next.holdsStart = phase.holdsStart ∧ next.holdsPid = phase.holdsPid := by
  cases phase <;> cases h <;> exact ⟨rfl, rfl⟩

theorem ScriptPhase.settle_keeps {phase next : ScriptPhase} (h : phase.settle = some next) :
    next.holdsStart = phase.holdsStart ∧ next.holdsPid = phase.holdsPid := by
  cases phase with
  | removePid left =>
      cases left <;> cases h
      exact ⟨rfl, rfl⟩
  | removeLock left =>
      cases left <;> cases h
      exact ⟨rfl, rfl⟩
  | ended left =>
      cases left <;> cases h
      exact ⟨rfl, rfl⟩
  | _ => cases h

@[simp] theorem LauncherPhase.notice_holdsStart (files files' : Files) (phase : LauncherPhase) :
    (phase.notice files files').holdsStart = phase.holdsStart := by
  cases phase <;> rfl

/-- A launcher that comes to the start lock has not looked for the file yet, if it is not there. -/
theorem LauncherPhase.advance_opening {files files' : Files} {phase next : LauncherPhase}
    (h : phase.advance files = some (next, files')) (free : ∀ attempt, phase = .acquireStart attempt →
      attempt = .opening ∧ files .lockStart = false) {attempt : LockAttempt}
    (there : next = .acquireStart attempt) : attempt = .opening := by
  subst there
  cases phase with
  | acquire attempt =>
      rcases LockAttempt.advance_cases h with ⟨later, same, _⟩ | ⟨_, _, same, _⟩
      · cases same
      · cases same
  | acquireStart attempt =>
      obtain ⟨rfl, missing⟩ := free attempt rfl
      rw [advance, LockAttempt.advance, missing] at h
      cases h
  | writeScript =>
      cases h
      rfl
  | testDone =>
      simp only [advance, Option.some.injEq, Prod.mk.injEq] at h
      obtain ⟨goes, _⟩ := h
      split at goes <;> cases goes
  | testPid =>
      simp only [advance, Option.some.injEq, Prod.mk.injEq] at h
      obtain ⟨goes, _⟩ := h
      split at goes <;> cases goes
  | retestDone =>
      simp only [advance, Option.some.injEq, Prod.mk.injEq] at h
      obtain ⟨goes, _⟩ := h
      split at goes <;> cases goes
  | retestPid =>
      simp only [advance, Option.some.injEq, Prod.mk.injEq] at h
      obtain ⟨goes, _⟩ := h
      split at goes <;> cases goes
  | _ => cases h

/-! ### The invariant -/

/-- A property that holds of more elements, and of one that the other does not hold of, counts more. -/
theorem countP_lt_of_mem {α : Type} {p q : α → Bool} (imp : ∀ x, p x → q x) {x : α} (not_p : p x = false)
    (of_q : q x) {l : List α} (member : x ∈ l) : l.countP p < l.countP q := by
  induction l with
  | nil => exact absurd member List.not_mem_nil
  | cons y rest ih =>
      have fewer : rest.countP p ≤ rest.countP q := List.countP_mono_left fun z _ => imp z
      rcases List.mem_cons.mp member with same | later
      · subst same
        rw [List.countP_cons_of_pos of_q, List.countP_cons_of_neg (by simp [not_p])]
        omega
      · have strict := ih later
        have head : (if p y then 1 else 0) ≤ if q y then 1 else 0 := by
          by_cases of_y : p y
          · simp [of_y, imp y of_y]
          · simp [of_y]
        simp only [List.countP_cons]
        omega

theorem LauncherPhase.holds_of_holdsStart {phase : LauncherPhase} (start : phase.holdsStart) :
    phase.holds := by
  cases phase <;> trivial

theorem ScriptPhase.holds_of_holdsStart {phase : ScriptPhase} (start : phase.holdsStart) :
    phase.holds := by
  cases phase <;> trivial

theorem pidHolders_le_scripts (s : Protocol) :
    pidHolders s ≤ s.scripts.countP fun p => p.phase.holds :=
  List.countP_mono_left fun _ _ => ScriptPhase.holds_of_holdsPid

/-- A file with an owner exists, one without an owner does not. -/
theorem exists_of_owned {owners : ℕ} {file : Bool} (accounted : owners = file.toNat) (owned : 0 < owners) :
    file = true := by
  cases file with
  | true => rfl
  | false => simp [accounted] at owned

theorem missing_of_free {owners all : ℕ} {file lock : Bool} (accounted : owners = file.toNat)
    (main : all = lock.toNat) (fewer : owners < all) : file = false := by
  have one := Bool.toNat_le lock
  cases file with
  | false => rfl
  | true =>
      rw [Bool.toNat_true] at accounted
      omega

/-- Who has the main lock and not the start lock finds no start lock. -/
theorem Accounted.free_start {s : Protocol} (accounted : Accounted s) {l : Party LauncherPhase}
    (member : l ∈ s.launchers) (holds : l.phase.holds) (without : l.phase.holdsStart = false) :
    s.files .lockStart = false := by
  have strict : (s.launchers.countP fun l => l.phase.holdsStart) <
      s.launchers.countP fun l => l.phase.holds :=
    countP_lt_of_mem (fun _ => LauncherPhase.holds_of_holdsStart) without holds member
  have scripts : (s.scripts.countP fun p => p.phase.holdsStart) ≤
      s.scripts.countP fun p => p.phase.holds :=
    List.countP_mono_left fun _ _ => ScriptPhase.holds_of_holdsStart
  exact missing_of_free accounted.lockStart accounted.lock (Nat.add_lt_add_of_lt_of_le strict scripts)

/-- A write to one launcher that keeps what it owns. -/
theorem Accounted.setLauncher {s : Protocol} (accounted : Accounted s) {i : ℕ}
    {old next : LauncherPhase} (at_i : s.launchers[i]? = some { phase := old, crashed := false })
    (holds : next.holds = old.holds) (holdsStart : next.holdsStart = old.holdsStart)
    (elsewhere : ∀ attempt, next ≠ .acquireStart attempt) :
    Accounted { s with launchers := moveTo s.launchers i next } := by
  obtain ⟨rest, counted, replaced⟩ := countP_split (fun l => l.phase.holds) at_i
  obtain ⟨restStart, countedStart, replacedStart⟩ := countP_split (fun l => l.phase.holdsStart) at_i
  have lock := accounted.lock
  have lockStart := accounted.lockStart
  simp only [holders, startHolders, counted, countedStart] at lock lockStart
  constructor
  case launchers => exact forall_set accounted.launchers rfl
  case scripts => exact accounted.scripts
  case lock => simpa only [holders, moveTo, replaced, holds] using lock
  case lockStart => simpa only [startHolders, moveTo, replacedStart, holdsStart] using lockStart
  case pid => exact accounted.pid
  case opening =>
      apply forall_set accounted.opening
      exact fun attempt there => absurd there (elsewhere attempt)

/-- A write to one script that keeps what it owns. -/
theorem Accounted.setScript {s : Protocol} (accounted : Accounted s) {i : ℕ} {old : Party ScriptPhase}
    {next : ScriptPhase} (at_i : s.scripts[i]? = some old) (holds : next.holds = old.phase.holds)
    (holdsStart : next.holdsStart = old.phase.holdsStart) (holdsPid : next.holdsPid = old.phase.holdsPid) :
    Accounted { s with scripts := s.scripts.set i { old with phase := next } } := by
  obtain ⟨rest, counted, replaced⟩ := countP_split (fun p => p.phase.holds) at_i
  obtain ⟨restStart, countedStart, replacedStart⟩ := countP_split (fun p => p.phase.holdsStart) at_i
  obtain ⟨restPid, countedPid, replacedPid⟩ := countP_split (fun p => p.phase.holdsPid) at_i
  have lock := accounted.lock
  have lockStart := accounted.lockStart
  have pid := accounted.pid
  simp only [holders, startHolders, pidHolders, counted, countedStart, countedPid] at lock lockStart pid
  constructor
  case launchers => exact accounted.launchers
  case scripts => exact forall_set accounted.scripts (accounted.scripts old (List.mem_of_getElem? at_i))
  case lock => simpa only [holders, replaced, holds] using lock
  case lockStart => simpa only [startHolders, replacedStart, holdsStart] using lockStart
  case pid => simpa only [pidHolders, replacedPid, holdsPid] using pid
  case opening => exact accounted.opening

/-- The watches keep the invariant. -/
theorem Accounted.notify {s : Protocol} (accounted : Accounted s) (files files' : Files) :
    Accounted { s with launchers := notify files files' s.launchers } := by
  have lock := accounted.lock
  have lockStart := accounted.lockStart
  rw [holders] at lock
  rw [startHolders] at lockStart
  constructor
  case launchers =>
      intro l member
      obtain ⟨old, there, rfl⟩ := List.mem_map.mp member
      exact accounted.launchers old there
  case scripts => exact accounted.scripts
  case lock => rwa [holders, countP_notify (LauncherPhase.notice_holds files files')]
  case lockStart => rwa [startHolders, countP_notify (LauncherPhase.notice_holdsStart files files')]
  case pid => exact accounted.pid
  case opening =>
      intro l member attempt waits
      obtain ⟨⟨phase, crashed⟩, there, rfl⟩ := List.mem_map.mp member
      cases phase with
      | acquireStart before =>
          have first := accounted.opening _ there before rfl
          subst first
          cases waits
          rfl
      | _ => cases waits

/-- The next operation of a launcher. -/
theorem accounted_launcher {s : Protocol} {i : ℕ} {phase next : LauncherPhase} {files : Files}
    (accounted : Accounted s) (at_i : s.launchers[i]? = some { phase, crashed := false })
    (h : phase.advance s.files = some (next, files)) :
    Accounted
      { files
        launchers := moveTo s.launchers i next
        scripts :=
          if phase = .startProcess then s.scripts ++ [{ phase := .testLock, crashed := false }]
          else s.scripts } := by
  obtain ⟨rest, counted, replaced⟩ := countP_split (fun l => l.phase.holds) at_i
  obtain ⟨restStart, countedStart, replacedStart⟩ := countP_split (fun l => l.phase.holdsStart) at_i
  have lock := accounted.lock
  have lockStart := accounted.lockStart
  simp only [holders, startHolders, counted, countedStart] at lock lockStart
  obtain ⟨ofLock, ofStart, ofPid⟩ := LauncherPhase.advance_accounted
    (rest + s.scripts.countP fun p => p.phase.holds)
    (restStart + s.scripts.countP fun p => p.phase.holdsStart) h (by omega) (by omega)
  have moved : ∀ l ∈ moveTo s.launchers i next, l.crashed = false := forall_set accounted.launchers rfl
  have member := List.mem_of_getElem? at_i
  have opening : ∀ l ∈ moveTo s.launchers i next, ∀ attempt, l.phase = .acquireStart attempt →
      attempt = .opening := by
    apply forall_set accounted.opening
    intro attempt there
    apply LauncherPhase.advance_opening h _ there
    intro before waits
    refine ⟨accounted.opening _ member before waits, accounted.free_start member ?_ ?_⟩
    · rw [waits]
      rfl
    · rw [waits]
      rfl
  by_cases starts : phase = .startProcess
  · simp only [starts, decide_true, Bool.toNat_true] at ofLock ofStart
    constructor
    case launchers => exact moved
    case scripts =>
        simp only [starts, if_true]
        intro p member
        rcases List.mem_append.mp member with old | new
        · exact accounted.scripts p old
        · rw [List.mem_singleton.mp new]
    case lock =>
        simp [holders, moveTo, replaced, starts]
        omega
    case lockStart =>
        simp [startHolders, moveTo, replacedStart, starts]
        omega
    case pid => simpa [pidHolders, starts, ofPid] using accounted.pid
    case opening => exact opening
  · simp only [starts, decide_false, Bool.toNat_false] at ofLock ofStart
    constructor
    case launchers => exact moved
    case scripts => simpa [starts] using accounted.scripts
    case lock =>
        simp [holders, moveTo, replaced, starts]
        omega
    case lockStart =>
        simp [startHolders, moveTo, replacedStart, starts]
        omega
    case pid => simpa [pidHolders, starts, ofPid] using accounted.pid
    case opening => exact opening

/-- The next operation of a script. -/
theorem accounted_script {s : Protocol} {i : ℕ} {success : Bool} {phase next : ScriptPhase} {files : Files}
    (accounted : Accounted s) (at_i : s.scripts[i]? = some { phase, crashed := false })
    (h : phase.advance s.files success = some (next, files)) :
    Accounted { s with files, scripts := moveTo s.scripts i next } := by
  obtain ⟨rest, counted, replaced⟩ := countP_split (fun p => p.phase.holds) at_i
  obtain ⟨restStart, countedStart, replacedStart⟩ := countP_split (fun p => p.phase.holdsStart) at_i
  obtain ⟨restPid, countedPid, replacedPid⟩ := countP_split (fun p => p.phase.holdsPid) at_i
  have lock := accounted.lock
  have lockStart := accounted.lockStart
  have pid := accounted.pid
  simp only [holders, startHolders, pidHolders, counted, countedStart, countedPid] at lock lockStart pid
  -- Who has the `.pid` among the other scripts also has the main lock.
  have fewer : restPid ≤ rest := by
    have others : ((moveTo s.scripts i (.ended false)).countP fun p => p.phase.holdsPid) ≤
        (moveTo s.scripts i (.ended false)).countP fun p => p.phase.holds :=
      List.countP_mono_left fun _ _ => ScriptPhase.holds_of_holdsPid
    simpa [moveTo, replaced, replacedPid] using others
  obtain ⟨ofLock, ofStart, ofPid⟩ := ScriptPhase.advance_accounted
    ((s.launchers.countP fun l => l.phase.holds) + rest)
    ((s.launchers.countP fun l => l.phase.holdsStart) + restStart) h
    (Nat.le_trans fewer (Nat.le_add_left ..)) (by omega) (by omega) (by omega)
  constructor
  case launchers => exact accounted.launchers
  case scripts => exact forall_set accounted.scripts rfl
  case lock =>
      simp only [holders, moveTo, replaced]
      omega
  case lockStart =>
      simp only [startHolders, moveTo, replacedStart]
      omega
  case pid =>
      simp only [pidHolders, moveTo, replacedPid]
      omega
  case opening => exact accounted.opening

/-- Every step but a crash keeps the invariant. -/
theorem accounted_step {s s' : Protocol} {a : ProtocolAction} (sane : NoCrash s a)
    (next : protocolStep a s = some s') (accounted : Accounted s) : Accounted s' := by
  cases a with
  | arrive =>
      rw [protocolStep, Option.some.injEq] at next
      subst next
      constructor
      case launchers =>
          intro l member
          rcases List.mem_append.mp member with old | new
          · exact accounted.launchers l old
          · rw [List.mem_singleton.mp new]
      case scripts => exact accounted.scripts
      case lock => simpa [holders, LauncherPhase.holds] using accounted.lock
      case lockStart => simpa [startHolders, LauncherPhase.holdsStart] using accounted.lockStart
      case pid => exact accounted.pid
      case opening =>
          intro l member
          rcases List.mem_append.mp member with old | new
          · exact accounted.opening l old
          · rw [List.mem_singleton.mp new]
            intro attempt there
            cases there
  | launcher i =>
      simp only [protocolStep, bind, Option.bind_eq_some_iff] at next
      obtain ⟨phase, at_i, ⟨after, files⟩, advanced, h⟩ := next
      cases h
      exact (accounted_launcher accounted (running_eq_some.mp at_i) advanced).notify s.files files
  | timeOut i =>
      simp only [protocolStep, bind, Option.bind_eq_some_iff] at next
      obtain ⟨phase, at_i, after, left, h⟩ := next
      have holds := (LauncherPhase.timeOut_holds left).1
      obtain ⟨holdsStart, elsewhere⟩ := LauncherPhase.timeOut_holdsStart left
      exact Option.some.inj h ▸ accounted.setLauncher (running_eq_some.mp at_i) holds holdsStart elsewhere
  | script i success =>
      simp only [protocolStep, bind, Option.bind_eq_some_iff] at next
      obtain ⟨phase, at_i, ⟨after, files⟩, advanced, h⟩ := next
      cases h
      exact (accounted_script accounted (running_eq_some.mp at_i) advanced).notify s.files files
  | interrupt i left =>
      simp only [protocolStep, bind, Option.bind_eq_some_iff] at next
      obtain ⟨phase, at_i, after, cleans, h⟩ := next
      have holds := (ScriptPhase.interrupt_holds cleans).1
      obtain ⟨holdsStart, holdsPid⟩ := ScriptPhase.interrupt_keeps cleans
      exact Option.some.inj h ▸ accounted.setScript (running_eq_some.mp at_i) holds holdsStart holdsPid
  | settle i =>
      simp only [protocolStep, bind, Option.bind_eq_some_iff] at next
      obtain ⟨party, at_i, after, ends, h⟩ := next
      have holds := (ScriptPhase.settle_holds ends).1
      obtain ⟨holdsStart, holdsPid⟩ := ScriptPhase.settle_keeps ends
      exact Option.some.inj h ▸ accounted.setScript at_i holds holdsStart holdsPid
  | crashLauncher i => cases sane
  | crashScript i => cases sane

theorem accounted_of_run {s : Protocol} (run : unlocked.RunUnder NoCrash s) : Accounted s := by
  apply run.invariant Accounted
  · rintro s ⟨⟨no_launcher, no_script⟩, no_lock, no_start, no_pid⟩
    constructor <;> simp [holders, startHolders, pidHolders, *]
  · exact fun _ _ _ _ sane next before => accounted_step sane next before

/-- Everybody has left. -/
def Left (s : Protocol) : Prop :=
  (∀ l ∈ s.launchers, l.phase = .returned) ∧ ∀ p ∈ s.scripts, ∃ left, p.phase = .ended left

/-- No lock file exists. -/
def Unlocked (files : Files) : Prop :=
  files .lock = false ∧ files .lockStart = false ∧ files .pid = false

/-- Nobody owns a lock file any more. -/
def Released (s : Protocol) : Prop :=
  (∀ l ∈ s.launchers, l.phase.holds = false) ∧ ∀ p ∈ s.scripts, p.phase.holds = false

theorem Left.released {s : Protocol} (left : Left s) : Released s := by
  refine ⟨fun l member => ?_, fun p member => ?_⟩
  · rw [left.1 l member]
    rfl
  · obtain ⟨_, ended⟩ := left.2 p member
    rw [ended]
    rfl

/-- Where nobody owns a lock file, none exists: who owns one of the others has the main lock. -/
theorem Accounted.unlocked {s : Protocol} (accounted : Accounted s) (released : Released s) :
    Unlocked s.files := by
  have launchers {f : LauncherPhase → Bool} (only : ∀ phase, f phase → phase.holds) :
      (s.launchers.countP fun l => f l.phase) = 0 := by
    apply List.countP_eq_zero.mpr
    intro l member owns
    exact Bool.false_ne_true ((released.1 l member).symm.trans (only l.phase owns))
  have scripts {f : ScriptPhase → Bool} (only : ∀ phase, f phase → phase.holds) :
      (s.scripts.countP fun p => f p.phase) = 0 := by
    apply List.countP_eq_zero.mpr
    intro p member owns
    exact Bool.false_ne_true ((released.2 p member).symm.trans (only p.phase owns))
  have lock := accounted.lock
  have lockStart := accounted.lockStart
  have pid := accounted.pid
  rw [holders, launchers fun _ => id, scripts fun _ => id] at lock
  rw [startHolders, launchers fun _ => LauncherPhase.holds_of_holdsStart,
    scripts fun _ => ScriptPhase.holds_of_holdsStart] at lockStart
  rw [pidHolders, scripts fun _ => ScriptPhase.holds_of_holdsPid] at pid
  have zero {b : Bool} (h : 0 = b.toNat) : b = false := Bool.toNat_eq_zero.mp h.symm
  exact ⟨zero lock, zero lockStart, zero pid⟩

/-- A run from the state without files and without anybody. -/
theorem unlocked_runActions {actions : List ProtocolAction} {s : Protocol}
    (sane : ∀ a ∈ actions, a.crashes = false)
    (executed : TransitionSystem.runActions protocolStep actions
      { files := fun _ => false, launchers := [], scripts := [] } = some s) :
    unlocked.RunUnder NoCrash s := by
  apply TransitionSystem.System.RunUnder.runActions (fun _ _ _ => id) (fun a member _ => sane a member) executed
  exact .start ⟨⟨rfl, rfl⟩, rfl, rfl, rfl⟩

/-- Without crashes, in every reachable state: a script that is about to test its locks will find them, and
    one that is about to write `.pid` finds none; a launcher that has the main lock and is about to look
    for `.pid` finds none, and its call of `lock` for the start lock creates the file at once. -/
theorem checks_pass {s : Protocol} (run : unlocked.RunUnder NoCrash s) :
    (∀ i, running s.scripts i = some .testLock → s.files .lock) ∧
      (∀ i, running s.scripts i = some .testStart → s.files .lockStart) ∧
      (∀ i, running s.scripts i = some .writePid → s.files .pid = false) ∧
      (∀ i, running s.launchers i = some .retestPid → s.files .pid = false) ∧
      ∀ i attempt, running s.launchers i = some (.acquireStart attempt) →
        attempt = .opening ∧ s.files .lockStart = false := by
  have accounted := accounted_of_run run
  have fewer := pidHolders_le_scripts s
  refine ⟨fun i there => ?_, fun i there => ?_, fun i there => ?_, fun i there => ?_, fun i attempt there => ?_⟩
  · have inside : 0 < s.scripts.countP fun p => p.phase.holds :=
      List.countP_pos_iff.mpr ⟨_, mem_of_running there, rfl⟩
    exact exists_of_owned accounted.lock (Nat.lt_of_lt_of_le inside (Nat.le_add_left ..))
  · have inside : 0 < s.scripts.countP fun p => p.phase.holdsStart :=
      List.countP_pos_iff.mpr ⟨_, mem_of_running there, rfl⟩
    exact exists_of_owned accounted.lockStart (Nat.lt_of_lt_of_le inside (Nat.le_add_left ..))
  · have strict : pidHolders s < s.scripts.countP fun p => p.phase.holds :=
      countP_lt_of_mem (fun _ => ScriptPhase.holds_of_holdsPid) rfl rfl (mem_of_running there)
    exact missing_of_free accounted.pid accounted.lock (Nat.lt_of_lt_of_le strict (Nat.le_add_left ..))
  · have inside : 0 < s.launchers.countP fun l => l.phase.holds :=
      List.countP_pos_iff.mpr ⟨_, mem_of_running there, rfl⟩
    apply missing_of_free accounted.pid accounted.lock
    simp only [holders]
    omega
  · have member := mem_of_running there
    exact ⟨accounted.opening _ member attempt rfl, accounted.free_start member rfl rfl⟩

/-- A script in front of its first test, while a second launcher waits for the main lock. -/
theorem checks_pass_started :
    ∃ s, unlocked.RunUnder NoCrash s ∧ running s.scripts 0 = some .testLock ∧
      (∀ i, running s.scripts i = some .testLock → s.files .lock) ∧
      (∀ i, running s.scripts i = some .testStart → s.files .lockStart) ∧
      (∀ i, running s.scripts i = some .writePid → s.files .pid = false) ∧
      (∀ i, running s.launchers i = some .retestPid → s.files .pid = false) ∧
      ∀ i attempt, running s.launchers i = some (.acquireStart attempt) →
        attempt = .opening ∧ s.files .lockStart = false := by
  have executed : (TransitionSystem.runActions protocolStep
      [.arrive, .arrive, .launcher 1, .launcher 0, .launcher 0, .launcher 0, .launcher 0, .launcher 0,
        .launcher 1, .launcher 0, .launcher 0, .launcher 0]
      { files := fun _ => false, launchers := [], scripts := [] }).map
        (fun s => running s.scripts 0) = some (some .testLock) := by decide
  obtain ⟨s, last, seen⟩ := Option.map_eq_some_iff.mp executed
  have run : unlocked.RunUnder NoCrash s := unlocked_runActions (by decide) last
  exact ⟨s, run, seen, checks_pass run⟩

/-! ### Everybody leaves -/

/-- How many operations a script has left at most, where `n` launchers watch: a removal of a lock file
    may give each of them four more. -/
def ScriptPhase.rank (n : ℕ) : ScriptPhase → ℕ
  | .testLock => 8 * n + 10
  | .testStart => 8 * n + 9
  | .removeStart => 8 * n + 8
  | .writePid => 4 * n + 7
  | .body => 4 * n + 6
  | .writeCode _ => 4 * n + 5
  | .touchDone => 4 * n + 4
  | .removePid left => 4 * n + 2 + left.toNat
  | .removeLock left => 4 * n + 1 + left.toNat
  | .ended left => left.toNat

/-- How many operations a call of `lock` has left at most until it waits for a removal. -/
def LockAttempt.rank : LockAttempt → ℕ
  | .waiting true => 4
  | .opening => 3
  | .testing => 2
  | .arming => 1
  | .waiting false => 0

/-- How many operations a launcher has left at most, with those of the script it may start. -/
def LauncherPhase.rank (n : ℕ) : LauncherPhase → ℕ
  | .testDone => 8 * n + 26
  | .testPid => 8 * n + 25
  | .acquire attempt => 8 * n + 21 + attempt.rank
  | .retestDone => 8 * n + 20
  | .retestPid => 8 * n + 19
  | .writeScript => 8 * n + 18
  | .acquireStart attempt => 8 * n + 14 + attempt.rank
  | .startProcess => 8 * n + 13
  | .started => 2
  | .waiting => 1
  | .unwind => 4 * n + 1
  | .returned => 0

/-- How many operations are left at most until everybody has left, if nobody arrives. -/
def remaining (s : Protocol) : ℕ :=
  (s.launchers.map fun l => l.phase.rank s.launchers.length).sum +
    (s.scripts.map fun p => p.phase.rank s.launchers.length).sum

/-- The action is one of somebody who is there: no arrival and no crash. -/
def ProtocolAction.proceeds : ProtocolAction → Bool
  | .launcher _ | .timeOut _ | .script _ _ | .interrupt _ _ | .settle _ => true
  | .arrive | .crashLauncher _ | .crashScript _ => false

/-- The action is the next operation of somebody who does not leave early, or the end of commands. -/
def ProtocolAction.operates : ProtocolAction → Bool
  | .launcher _ | .script _ _ | .settle _ => true
  | _ => false

/-- A sum is what one element contributes and the rest, which replacing this element leaves alone. -/
theorem sum_map_split {α : Type} (f : α → ℕ) {l : List α} {i : ℕ} {old : α} (at_i : l[i]? = some old) :
    ∃ rest, (l.map f).sum = rest + f old ∧ ∀ new, ((l.set i new).map f).sum = rest + f new := by
  induction l generalizing i with
  | nil => simp at at_i
  | cons x others ih =>
      cases i with
      | zero =>
          simp only [List.getElem?_cons_zero, Option.some.injEq] at at_i
          subst at_i
          exact ⟨(others.map f).sum, by simp [Nat.add_comm], fun new => by simp [Nat.add_comm]⟩
      | succ i =>
          simp only [List.getElem?_cons_succ] at at_i
          obtain ⟨rest, total, replaced⟩ := ih at_i
          refine ⟨f x + rest, ?_, fun new => ?_⟩
          · simp only [List.map_cons, List.sum_cons, total, Nat.add_assoc]
          · simp only [List.set_cons_succ, List.map_cons, List.sum_cons, replaced, Nat.add_assoc]

/-- A step removes a lock file that launchers may watch. -/
def removes (files files' : Files) : Bool :=
  (files .lock && !files' .lock) || (files .lockStart && !files' .lockStart)

@[simp] theorem removes_self (files : Files) : removes files files = false := by
  simp [removes]

@[simp] theorem removes_create (files : Files) (file : File) : removes files (files.create file) = false := by
  cases file <;> simp [removes]

@[simp] theorem removes_pid (files : Files) : removes files (files.remove .pid) = false := by
  simp [removes]

/-- A launcher that sees a removal has at most four operations more. -/
theorem LauncherPhase.notice_rank (n : ℕ) (files files' : Files) (phase : LauncherPhase) :
    (phase.notice files files').rank n ≤ phase.rank n + if removes files files' then 4 else 0 := by
  have attempts (attempt : LockAttempt) (removed : Bool) (only : removed → removes files files') :
      (attempt.notice removed).rank ≤ attempt.rank + if removes files files' then 4 else 0 := by
    cases attempt with
    | waiting told =>
        cases told with
        | true => exact Nat.le_add_right ..
        | false =>
            cases removed with
            | false => exact Nat.le_add_right ..
            | true =>
                rw [if_pos (only rfl)]
                exact Nat.le_refl 4
    | _ => exact Nat.le_add_right ..
  cases phase with
  | acquire attempt =>
      have more := attempts attempt (files .lock && !files' .lock) (by
        intro removed
        rw [removes, removed]
        rfl)
      simp only [notice, rank]
      omega
  | acquireStart attempt =>
      have more := attempts attempt (files .lockStart && !files' .lockStart) (by
        intro removed
        rw [removes, removed, Bool.or_true])
      simp only [notice, rank]
      omega
  | _ => exact Nat.le_add_right ..

/-- All launchers together. -/
theorem sum_notify (n : ℕ) (files files' : Files) (launchers : List (Party LauncherPhase)) :
    ((notify files files' launchers).map fun l => l.phase.rank n).sum ≤
      (launchers.map fun l => l.phase.rank n).sum + launchers.length * if removes files files' then 4 else 0 := by
  induction launchers with
  | nil => exact Nat.zero_le _
  | cons l rest ih =>
      have here := LauncherPhase.notice_rank n files files' l.phase
      simp only [notify, List.map_cons, List.sum_cons, List.length_cons, Nat.add_mul, Nat.one_mul] at ih ⊢
      omega

/-- An operation of a call of `lock` leaves fewer, and it removes nothing. -/
theorem LockAttempt.advance_rank {files files' : Files} {file : File} {here : LockAttempt → LauncherPhase}
    {locked next : LauncherPhase} {attempt : LockAttempt} (n rank : ℕ)
    (ranks : ∀ attempt, (here attempt).rank n = rank + attempt.rank) (fewer : locked.rank n < rank)
    (h : attempt.advance files file here locked = some (next, files')) :
    next.rank n < rank + attempt.rank ∧ removes files files' = false := by
  cases attempt with
  | opening =>
      rw [advance, Option.some.injEq] at h
      split at h
      case isTrue =>
          cases h
          rw [ranks]
          exact ⟨Nat.add_lt_add_left (by decide) rank, removes_self files⟩
      case isFalse =>
          cases h
          exact ⟨Nat.lt_of_lt_of_le fewer (Nat.le_add_right ..), removes_create files file⟩
  | testing =>
      obtain ⟨_, ⟨⟩⟩ := Option.ite_none_right_eq_some.mp h
      rw [ranks]
      exact ⟨Nat.add_lt_add_left (by decide) rank, removes_self files⟩
  | arming =>
      cases h
      rw [ranks]
      exact ⟨Nat.add_lt_add_left (by decide) rank, removes_self files⟩
  | waiting told =>
      obtain ⟨rfl, ⟨⟩⟩ := Option.ite_none_right_eq_some.mp h
      rw [ranks]
      exact ⟨Nat.add_lt_add_left (by decide) rank, removes_self files⟩

/-- The operations that a launcher leaves, with those it gives to others. -/
theorem LauncherPhase.advance_rank {files files' : Files} {phase next : LauncherPhase} (n : ℕ)
    (h : phase.advance files = some (next, files')) :
    next.rank n + (if phase = .startProcess then ScriptPhase.testLock.rank n else 0) +
      n * (if removes files files' then 4 else 0) < phase.rank n := by
  cases phase with
  | acquire attempt =>
      obtain ⟨less, nothing⟩ := LockAttempt.advance_rank n (8 * n + 21) (fun _ => rfl)
        (Nat.lt_succ_self _) h
      simpa [nothing, rank] using less
  | acquireStart attempt =>
      obtain ⟨less, nothing⟩ := LockAttempt.advance_rank n (8 * n + 14) (fun _ => rfl)
        (Nat.lt_succ_self _) h
      simpa [nothing, rank] using less
  | unwind =>
      cases h
      simp only [rank, reduceCtorEq, if_false]
      split <;> omega
  | returned => cases h
  | startProcess =>
      cases h
      simp only [rank, ScriptPhase.rank, if_true, removes_self, Bool.false_eq_true, if_false]
      omega
  | testDone =>
      obtain ⟨rfl, rfl⟩ := h
      split <;> simp [rank]
  | testPid =>
      obtain ⟨rfl, rfl⟩ := h
      split <;> simp [rank, LockAttempt.rank]
  | retestDone =>
      obtain ⟨rfl, rfl⟩ := h
      split <;> simp [rank]
      omega
  | retestPid =>
      obtain ⟨rfl, rfl⟩ := h
      split <;> simp [rank]
      omega
  | _ =>
      obtain ⟨rfl, rfl⟩ := h
      simp [rank, LockAttempt.rank]

theorem LauncherPhase.timeOut_rank (n : ℕ) {phase next : LauncherPhase} (h : phase.timeOut = some next) :
    next.rank n < phase.rank n := by
  cases phase with
  | acquire attempt =>
      cases attempt <;> cases h
      simp only [rank]
      omega
  | acquireStart attempt =>
      cases attempt <;> cases h
      simp only [rank]
      omega
  | _ => cases h

/-- The operations that a script leaves, with those it gives to launchers. -/
theorem ScriptPhase.advance_rank {files files' : Files} {success : Bool} {phase next : ScriptPhase} (n : ℕ)
    (h : phase.advance files success = some (next, files')) :
    next.rank n + n * (if removes files files' then 4 else 0) < phase.rank n := by
  cases phase with
  | testLock =>
      obtain ⟨rfl, rfl⟩ := h
      split <;> simp [rank]
  | testStart =>
      obtain ⟨rfl, rfl⟩ := h
      split <;> simp [rank]
  | body =>
      obtain ⟨rfl, rfl⟩ := h
      simp [rank]
  | removeStart =>
      obtain ⟨rfl, rfl⟩ := h
      simp only [rank]
      split <;> omega
  | removeLock left =>
      obtain ⟨rfl, rfl⟩ := h
      simp only [rank]
      split <;> omega
  | writeCode success =>
      cases success <;>
      · obtain ⟨rfl, rfl⟩ := h
        simp [rank]
  | ended left => cases h
  | _ =>
      obtain ⟨rfl, rfl⟩ := h
      simp [rank]

theorem ScriptPhase.interrupt_rank (n : ℕ) {left : Bool} {phase next : ScriptPhase}
    (h : phase.interrupt left = some next) : next.rank n < phase.rank n := by
  have one := Bool.toNat_le left
  cases phase <;> cases h <;> simp only [rank, Bool.toNat_false] <;> omega

theorem ScriptPhase.settle_rank (n : ℕ) {phase next : ScriptPhase} (h : phase.settle = some next) :
    next.rank n < phase.rank n := by
  cases phase with
  | removePid left =>
      cases left <;> cases h
      simp [rank]
  | removeLock left =>
      cases left <;> cases h
      simp [rank]
  | ended left =>
      cases left <;> cases h
      simp [rank]
  | _ => cases h

@[simp] theorem length_notify (files files' : Files) (launchers : List (Party LauncherPhase)) :
    (notify files files' launchers).length = launchers.length :=
  List.length_map _

/-- Every step of somebody who is there leaves fewer operations. -/
theorem remaining_lt {s s' : Protocol} {a : ProtocolAction} (proceeds : a.proceeds)
    (next : protocolStep a s = some s') : remaining s' < remaining s := by
  cases a with
  | launcher i =>
      simp only [protocolStep, bind, Option.bind_eq_some_iff] at next
      obtain ⟨phase, at_i, ⟨after, files⟩, advanced, h⟩ := next
      obtain ⟨rest, total, replaced⟩ :=
        sum_map_split (fun l => l.phase.rank s.launchers.length) (running_eq_some.mp at_i)
      have less := LauncherPhase.advance_rank s.launchers.length advanced
      have told := sum_notify s.launchers.length s.files files (moveTo s.launchers i after)
      cases h
      simp only [moveTo, replaced, List.length_set] at told
      simp only [remaining, length_notify, moveTo, List.length_set, total]
      by_cases starts : phase = .startProcess
      · simp only [starts, if_true] at less
        simp only [starts, if_true, List.map_append, List.map_cons, List.map_nil, List.sum_append,
          List.sum_singleton]
        omega
      · simp only [starts, if_false] at less
        simp only [starts, if_false]
        omega
  | timeOut i =>
      simp only [protocolStep, bind, Option.bind_eq_some_iff] at next
      obtain ⟨phase, at_i, after, left, h⟩ := next
      obtain ⟨rest, total, replaced⟩ :=
        sum_map_split (fun l => l.phase.rank s.launchers.length) (running_eq_some.mp at_i)
      have less := LauncherPhase.timeOut_rank s.launchers.length left
      cases h
      simp only [remaining, moveTo, List.length_set, total, replaced]
      omega
  | script i success =>
      simp only [protocolStep, bind, Option.bind_eq_some_iff] at next
      obtain ⟨phase, at_i, ⟨after, files⟩, advanced, h⟩ := next
      obtain ⟨rest, total, replaced⟩ :=
        sum_map_split (fun p => p.phase.rank s.launchers.length) (running_eq_some.mp at_i)
      have less := ScriptPhase.advance_rank s.launchers.length advanced
      have told := sum_notify s.launchers.length s.files files s.launchers
      cases h
      simp only [remaining, length_notify, moveTo, total, replaced]
      omega
  | interrupt i left =>
      simp only [protocolStep, bind, Option.bind_eq_some_iff] at next
      obtain ⟨phase, at_i, after, cleans, h⟩ := next
      obtain ⟨rest, total, replaced⟩ :=
        sum_map_split (fun p => p.phase.rank s.launchers.length) (running_eq_some.mp at_i)
      have less := ScriptPhase.interrupt_rank s.launchers.length cleans
      cases h
      simp only [remaining, moveTo, total, replaced]
      omega
  | settle i =>
      simp only [protocolStep, bind, Option.bind_eq_some_iff] at next
      obtain ⟨party, at_i, after, ends, h⟩ := next
      obtain ⟨rest, total, replaced⟩ := sum_map_split (fun p => p.phase.rank s.launchers.length) at_i
      have less := ScriptPhase.settle_rank s.launchers.length ends
      cases h
      simp only [remaining, total, replaced]
      omega
  | arrive => cases proceeds
  | crashLauncher i => cases proceeds
  | crashScript i => cases proceeds

/-- A call of `lock` cannot go on when it waits for a removal, or when the file has gone that it is about
    to look for. -/
theorem LockAttempt.advance_eq_none {files : Files} {file : File} {here : LockAttempt → LauncherPhase}
    {locked : LauncherPhase} {attempt : LockAttempt} (blocked : attempt.advance files file here locked = none) :
    attempt = .testing ∨ attempt = .waiting false := by
  cases attempt with
  | testing => exact Or.inl rfl
  | waiting told =>
      cases told with
      | true => cases blocked
      | false => exact Or.inr rfl
  | _ => cases blocked

theorem LauncherPhase.advance_eq_none {files : Files} {phase : LauncherPhase}
    (blocked : phase.advance files = none) :
    phase = .returned ∨ (phase = .acquire .testing ∨ phase = .acquire (.waiting false)) ∨
      ∃ attempt, phase = .acquireStart attempt ∧ attempt ≠ .opening := by
  cases phase with
  | acquire attempt =>
      rcases LockAttempt.advance_eq_none blocked with rfl | rfl
      · exact Or.inr (Or.inl (Or.inl rfl))
      · exact Or.inr (Or.inl (Or.inr rfl))
  | acquireStart attempt =>
      refine Or.inr (Or.inr ⟨attempt, rfl, ?_⟩)
      rintro rfl
      cases blocked
  | returned => exact Or.inl rfl
  | _ => cases blocked

theorem ScriptPhase.advance_eq_none {files : Files} {success : Bool} {phase : ScriptPhase}
    (blocked : phase.advance files success = none) : ∃ left, phase = .ended left := by
  cases phase with
  | ended left => exact ⟨left, rfl⟩
  | writeCode success => cases success <;> cases blocked
  | _ => cases blocked

/-- Nobody can go on: the scripts and their commands have ended, and a launcher has returned, or its call
    of `lock` for the main lock waits for a removal or is about to look for the file. -/
def Settled (s : Protocol) : Prop :=
  (∀ l ∈ s.launchers, l.phase = .returned ∨ l.phase = .acquire .testing ∨ l.phase = .acquire (.waiting false)) ∧
    ∀ p ∈ s.scripts, p.phase = .ended false

theorem there_of_mem {P : Type} {parties : List (Party P)} {x : Party P} (member : x ∈ parties)
    (sane : x.crashed = false) : ∃ i, running parties i = some x.phase := by
  obtain ⟨i, at_i⟩ := List.mem_iff_getElem?.mp member
  exact ⟨i, running_eq_some.mpr (by rw [at_i, ← sane])⟩

/-- When nobody can go on, no lock file exists. -/
theorem Accounted.settled {s : Protocol} (accounted : Accounted s)
    (stuck : TransitionSystem.Exhausted protocolStep (fun a => a.operates) s) :
    Settled s ∧ Unlocked s.files := by
  have scripts : ∀ p ∈ s.scripts, p.phase = .ended false := by
    intro p member
    obtain ⟨i, there⟩ := there_of_mem member (accounted.scripts p member)
    have blocked := stuck (.script i true) rfl
    simp only [protocolStep, there, bind, Option.bind_some] at blocked
    have ended : ∃ left, p.phase = .ended left := by
      cases advanced : p.phase.advance s.files true with
      | none => exact ScriptPhase.advance_eq_none advanced
      | some after => simp [advanced] at blocked
    obtain ⟨left, ended⟩ := ended
    cases left with
    | false => exact ended
    | true =>
        have running := stuck (.settle i) rfl
        simp [protocolStep, running_eq_some.mp there, ended, ScriptPhase.settle] at running
  have launchers : ∀ l ∈ s.launchers,
      l.phase = .returned ∨ l.phase = .acquire .testing ∨ l.phase = .acquire (.waiting false) := by
    intro l member
    obtain ⟨i, there⟩ := there_of_mem member (accounted.launchers l member)
    have blocked := stuck (.launcher i) rfl
    simp only [protocolStep, there, bind, Option.bind_some] at blocked
    have still : l.phase.advance s.files = none := by
      cases advanced : l.phase.advance s.files with
      | none => rfl
      | some after => simp [advanced] at blocked
    rcases LauncherPhase.advance_eq_none still with gone | waits | ⟨attempt, starts, found⟩
    · exact Or.inl gone
    · exact Or.inr waits
    · exact absurd (accounted.opening l member attempt starts) found
  refine ⟨⟨launchers, scripts⟩, accounted.unlocked ⟨fun l member => ?_, fun p member => ?_⟩⟩
  · rcases launchers l member with gone | waits | waits
    · rw [gone]
      rfl
    · rw [waits]
      rfl
    · rw [waits]
      rfl
  · rw [scripts p member]
    rfl

/-! ### Removals that are not missed -/

/-- The launcher has found the main lock taken, and has seen no removal since. -/
def LauncherPhase.blocked : LauncherPhase → Bool
  | .acquire .testing | .acquire .arming | .acquire (.waiting false) => true
  | _ => false

/-- Nobody has missed the removal of the main lock. -/
def Informed (s : Protocol) : Prop := ∀ l ∈ s.launchers, l.phase.blocked → s.files .lock

/-- The main lock is not removed while a launcher has found it taken and does not watch it yet. -/
def Heeds (s : Protocol) (a : ProtocolAction) : Prop :=
  ∀ s', protocolStep a s = some s' → s.files .lock → s'.files .lock = false →
    ∀ l ∈ s.launchers, l.phase ≠ .acquire .testing ∧ l.phase ≠ .acquire .arming

theorem LauncherPhase.notice_blocked {files files' : Files} {phase : LauncherPhase}
    (still : (phase.notice files files').blocked) :
    phase.blocked ∧
      (files .lock → files' .lock = false → phase = .acquire .testing ∨ phase = .acquire .arming) := by
  cases phase with
  | acquire attempt =>
      cases attempt with
      | opening => cases still
      | testing => exact ⟨rfl, fun _ _ => Or.inl rfl⟩
      | arming => exact ⟨rfl, fun _ _ => Or.inr rfl⟩
      | waiting told =>
          cases told with
          | true => cases still
          | false =>
              refine ⟨rfl, fun there gone => ?_⟩
              simp only [notice, LockAttempt.notice, there, gone] at still
              cases still
  | _ => cases still

/-- A launcher is blocked only by a lock that is there. -/
theorem LauncherPhase.advance_blocked {files files' : Files} {phase next : LauncherPhase}
    (h : phase.advance files = some (next, files')) (blocked : next.blocked) :
    files' = files ∧ (files .lock ∨ phase.blocked) := by
  cases phase with
  | acquire attempt =>
      cases attempt with
      | opening =>
          cases there : files .lock with
          | true =>
              simp only [advance, LockAttempt.advance, there] at h
              cases h
              exact ⟨rfl, Or.inl rfl⟩
          | false =>
              simp only [advance, LockAttempt.advance, there] at h
              cases h
              cases blocked
      | testing =>
          obtain ⟨there, ⟨⟩⟩ := Option.ite_none_right_eq_some.mp h
          exact ⟨rfl, Or.inl there⟩
      | arming =>
          cases h
          exact ⟨rfl, Or.inr rfl⟩
      | waiting told =>
          obtain ⟨_, ⟨⟩⟩ := Option.ite_none_right_eq_some.mp h
          cases blocked
  | acquireStart attempt =>
      rcases LockAttempt.advance_cases h with ⟨later, rfl, _⟩ | ⟨_, _, rfl, _⟩
      · cases blocked
      · cases blocked
  | testDone =>
      obtain ⟨rfl, rfl⟩ := h
      split at blocked <;> cases blocked
  | testPid =>
      obtain ⟨rfl, rfl⟩ := h
      split at blocked <;> cases blocked
  | retestDone =>
      obtain ⟨rfl, rfl⟩ := h
      split at blocked <;> cases blocked
  | retestPid =>
      obtain ⟨rfl, rfl⟩ := h
      split at blocked <;> cases blocked
  | returned => cases h
  | _ =>
      obtain ⟨rfl, rfl⟩ := h
      cases blocked

/-- What the launchers see of a step that heeds them. -/
theorem Informed.notify {s : Protocol} (informed : Informed s) {files : Files} {l : Party LauncherPhase}
    (heeds : s.files .lock → files .lock = false →
      ∀ l ∈ s.launchers, l.phase ≠ .acquire .testing ∧ l.phase ≠ .acquire .arming)
    (member : l ∈ s.launchers) (still : (l.phase.notice s.files files).blocked) : files .lock := by
  obtain ⟨blocked, unwatched⟩ := LauncherPhase.notice_blocked still
  by_contra gone
  have removed : files .lock = false := Bool.not_eq_true _ ▸ gone
  have there := informed l member blocked
  obtain ⟨testing, arming⟩ := heeds there removed l member
  rcases unwatched there removed with same | same
  · exact testing same
  · exact arming same

/-- Operations that heed the launchers keep them informed. -/
theorem informed_step {s s' : Protocol} {a : ProtocolAction} (operates : a.operates) (heeds : Heeds s a)
    (next : protocolStep a s = some s') (informed : Informed s) : Informed s' := by
  have kept := heeds s' next
  cases a with
  | launcher i =>
      simp only [protocolStep, bind, Option.bind_eq_some_iff] at next
      obtain ⟨phase, at_i, ⟨after, files⟩, advanced, h⟩ := next
      cases h
      intro l member blocked
      obtain ⟨old, there, rfl⟩ := List.mem_map.mp member
      rcases List.mem_or_eq_of_mem_set there with same | rfl
      · exact informed.notify kept same blocked
      · obtain ⟨rfl, locked | before⟩ :=
          LauncherPhase.advance_blocked advanced (LauncherPhase.notice_blocked blocked).1
        · exact locked
        · exact informed _ (mem_of_running at_i) before
  | script i success =>
      simp only [protocolStep, bind, Option.bind_eq_some_iff] at next
      obtain ⟨phase, at_i, ⟨after, files⟩, advanced, h⟩ := next
      cases h
      intro l member blocked
      obtain ⟨old, there, rfl⟩ := List.mem_map.mp member
      exact informed.notify kept there blocked
  | settle i =>
      simp only [protocolStep, bind, Option.bind_eq_some_iff] at next
      obtain ⟨party, at_i, after, ends, h⟩ := next
      cases h
      exact informed
  | _ => cases operates

/-! ### The result -/

/-- Who has come to the end and was told of every removal has returned. -/
theorem Informed.left {s : Protocol} (informed : Informed s) (settled : Settled s) (unlocked : Unlocked s.files) :
    Left s := by
  have locked {l : Party LauncherPhase} (member : l ∈ s.launchers) (blocked : l.phase.blocked) : False :=
    Bool.false_ne_true (unlocked.1.symm.trans (informed l member blocked))
  refine ⟨fun l member => ?_, fun p member => ⟨false, settled.2 p member⟩⟩
  rcases settled.1 l member with gone | waits | waits
  · exact gone
  · exact (locked member (by rw [waits]; rfl)).elim
  · exact (locked member (by rw [waits]; rfl)).elim

theorem proceeds_of_operates {a : ProtocolAction} (operates : a.operates) : a.proceeds := by
  cases a <;> trivial

/-- Those who are there keep the invariant. -/
theorem Accounted.proceeds {s s' : Protocol} (accounted : Accounted s) {actions : List ProtocolAction}
    (all : ∀ a ∈ actions, a.proceeds)
    (executed : TransitionSystem.runActions protocolStep actions s = some s') : Accounted s' := by
  apply TransitionSystem.runActions_keeps (fun a => a.proceeds) Accounted _ all executed accounted
  intro s a s' proceeds next before
  have sane : NoCrash s a := by cases a <;> trivial
  exact accounted_step sane next before

/-- Operations that miss no removal come to an end where everybody has left: as long as somebody has found
    the main lock taken and does not watch it, he goes first. -/
theorem Accounted.exists_left {s : Protocol} (accounted : Accounted s) (informed : Informed s) :
    ∃ actions s', (∀ a ∈ actions, a.operates) ∧
      TransitionSystem.runActions protocolStep actions s = some s' ∧ Left s' ∧ Unlocked s'.files := by
  classical
  have drops (s : Protocol) (a : ProtocolAction) (s' : Protocol) (operates : a.operates)
      (next : TransitionSystem.guarded Heeds protocolStep a s = some s') : remaining s' < remaining s :=
    remaining_lt (proceeds_of_operates operates) (Option.ite_none_right_eq_some.mp next).2
  obtain ⟨actions, s', all, heedful, stuck⟩ :=
    TransitionSystem.exists_exhausted (fun a : ProtocolAction => a.operates) remaining drops s
  have executed := TransitionSystem.runActions_of_guarded heedful
  have after := accounted.proceeds (fun a member => proceeds_of_operates (all a member)) executed
  have told : Informed s' := by
    apply TransitionSystem.runActions_keeps (fun a => a.operates) Informed _ all heedful informed
    intro s a s' operates next before
    obtain ⟨heeds, taken⟩ := Option.ite_none_right_eq_some.mp next
    exact informed_step operates heeds taken before
  -- A launcher that has found the lock taken would go on, and this removes nothing.
  have watched : ∀ l ∈ s'.launchers, l.phase ≠ .acquire .testing ∧ l.phase ≠ .acquire .arming := by
    intro l member
    obtain ⟨i, there⟩ := there_of_mem member (after.launchers l member)
    have harmless (next : LauncherPhase) (advances : l.phase.advance s'.files = some (next, s'.files)) : False := by
      have taken : ∃ s'', protocolStep (.launcher i) s' = some s'' ∧ s''.files = s'.files := by
        simp [protocolStep, there, advances]
      obtain ⟨s'', next, same⟩ := taken
      have enabled : TransitionSystem.guarded Heeds protocolStep (.launcher i) s' = some s'' := by
        apply Option.ite_none_right_eq_some.mpr
        refine ⟨fun x taken locked gone => ?_, next⟩
        rw [next, Option.some.injEq] at taken
        rw [← taken, same, locked] at gone
        cases gone
      rw [stuck _ rfl] at enabled
      cases enabled
    constructor
    · intro waits
      have locked := told l member (by rw [waits]; rfl)
      apply harmless (.acquire .arming)
      rw [waits]
      exact if_pos locked
    · intro waits
      apply harmless (.acquire (.waiting false))
      rw [waits]
      rfl
  have free : TransitionSystem.Exhausted protocolStep (fun a => a.operates) s' := by
    intro a operates
    have heeds : Heeds s' a := fun _ _ _ _ => watched
    exact (if_pos heeds).symm.trans (stuck a operates)
  obtain ⟨settled, unlocked⟩ := after.settled free
  exact ⟨actions, s', all, executed, told.left settled unlocked, unlocked⟩

/-- Without crashes there is no deadlock and no endless run: from every reachable state, those who are
    there take at most `remaining` operations, however they are interleaved. When nobody can go on without
    a timeout, all scripts and commands have ended, no lock file exists, and a launcher that has not
    returned has missed the removal of the main lock; with timeouts, it throws or returns. If nobody has
    missed a removal yet, operations without any timeout may lead to the end where everybody has left. -/
theorem everybody_leaves {s : Protocol} (run : unlocked.RunUnder NoCrash s) :
    (∀ actions s', (∀ a ∈ actions, a.proceeds) →
      TransitionSystem.runActions protocolStep actions s = some s' →
        actions.length ≤ remaining s ∧
          (TransitionSystem.Exhausted protocolStep (fun a => a.operates) s' →
            Settled s' ∧ Unlocked s'.files) ∧
          (TransitionSystem.Exhausted protocolStep (fun a => a.proceeds) s' →
            ∀ l ∈ s'.launchers, l.phase = .returned ∨ l.phase = .acquire .testing)) ∧
      (Informed s → ∃ actions s', (∀ a ∈ actions, a.operates) ∧
        TransitionSystem.runActions protocolStep actions s = some s' ∧ Left s' ∧ Unlocked s'.files) := by
  have accounted := accounted_of_run run
  refine ⟨fun actions s' all executed => ?_, accounted.exists_left⟩
  have after := accounted.proceeds all executed
  have bound := TransitionSystem.length_add_measure_le (fun a => a.proceeds) remaining
    (fun s a s' proceeds next => remaining_lt proceeds next) all executed
  refine ⟨Nat.le_trans (Nat.le_add_right ..) bound, after.settled, fun stuck l member => ?_⟩
  have settled := (after.settled fun a operates => stuck a (proceeds_of_operates operates)).1
  rcases settled.1 l member with gone | throws | waits
  · exact Or.inl gone
  · exact Or.inr throws
  · obtain ⟨i, there⟩ := there_of_mem member (after.launchers l member)
    have late := stuck (.timeOut i) rfl
    simp [protocolStep, there, waits, LauncherPhase.timeOut] at late

/-- A launcher has the main lock, a second one has missed nothing and waits for it. -/
theorem everybody_leaves_waiting :
    ∃ s, unlocked.RunUnder NoCrash s ∧ (running s.launchers 0, running s.launchers 1, s.files .lock) =
        (some .writeScript, some (.acquire (.waiting false)), true) ∧
      (∀ actions s', (∀ a ∈ actions, a.proceeds) →
        TransitionSystem.runActions protocolStep actions s = some s' →
          actions.length ≤ remaining s ∧
            (TransitionSystem.Exhausted protocolStep (fun a => a.operates) s' →
              Settled s' ∧ Unlocked s'.files) ∧
            (TransitionSystem.Exhausted protocolStep (fun a => a.proceeds) s' →
              ∀ l ∈ s'.launchers, l.phase = .returned ∨ l.phase = .acquire .testing)) ∧
        (Informed s → ∃ actions s', (∀ a ∈ actions, a.operates) ∧
          TransitionSystem.runActions protocolStep actions s = some s' ∧ Left s' ∧ Unlocked s'.files) := by
  have executed : (TransitionSystem.runActions protocolStep
      [.arrive, .arrive, .launcher 1, .launcher 1, .launcher 0, .launcher 0, .launcher 0, .launcher 0,
        .launcher 0, .launcher 1, .launcher 1, .launcher 1]
      { files := fun _ => false, launchers := [], scripts := [] }).map
        (fun s => (running s.launchers 0, running s.launchers 1, s.files .lock)) =
      some (some .writeScript, some (.acquire (.waiting false)), true) := by decide
  obtain ⟨s, last, seen⟩ := Option.map_eq_some_iff.mp executed
  have run : unlocked.RunUnder NoCrash s := unlocked_runActions (by decide) last
  exact ⟨s, run, seen, everybody_leaves run⟩

end Experimaestro.Scheduler

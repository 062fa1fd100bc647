/-
Module: Experimaestro.Scheduler.LockFiles
Layer: Scheduler
Purpose: The lock files of one job locator. Any number of launchers execute `CommandLineJob::run` and start
  scripts written by `ShScriptBuilder::write`; they meet only at the files `.lock`, `.lock.start`, `.pid`,
  `.code` and `.done`, each operation on which is one step; a launcher that finds a lock taken tests the
  file, watches the directory and waits for the removal. The main lock is a baton: a launcher creates the
  file, hands it over by starting its script, and the script removes the file in its cleanup. `holders`
  counts who has the baton, also where it was lost in a crash, and it is at most one.
Imports: Experimaestro.Library.TransitionSystem
Trusted boundary: human-reviewed model of src/src/workspace.cpp (CommandLineJob::run),
  src/src/scriptbuilder.cpp, src/src/connectors/local_unix.cpp (LocalConnector::lock),
  src/src/connectors/connectors.cpp (FileLock)
Main exports: File, LockAttempt, LauncherPhase, ScriptPhase, Protocol, protocolStep, protocol, holders,
  Guarded, one_script_at_a_time
Open obligations: none
-/
import Mathlib.Data.List.Basic
import Mathlib.Logic.Function.Basic
import Mathlib.Tactic.Common
import Experimaestro.Library.TransitionSystem

namespace Experimaestro.Scheduler

/-- The files of a locator, by their extension: `LOCK_PATH`, `LOCK_START_PATH`, `PID_PATH`,
    `EXIT_CODE_PATH` and `DONE_PATH`. -/
inductive File where
  | lock
  | lockStart
  | pid
  | code
  | done
deriving DecidableEq, Repr

/-- Which of them exist. -/
abbrev Files : Type := File → Bool

namespace Files

/-- The file exists from now on. -/
def create (files : Files) (f : File) : Files := Function.update files f true

/-- The file does not exist any more. -/
def remove (files : Files) (f : File) : Files := Function.update files f false

@[simp] theorem create_self (files : Files) (f : File) : files.create f f = true :=
  Function.update_self ..

@[simp] theorem remove_self (files : Files) (f : File) : files.remove f f = false :=
  Function.update_self ..

@[simp] theorem create_of_ne (files : Files) {f g : File} (ne : g ≠ f) : files.create f g = files g :=
  Function.update_of_ne ne ..

@[simp] theorem remove_of_ne (files : Files) {f g : File} (ne : g ≠ f) : files.remove f g = files g :=
  Function.update_of_ne ne ..

end Files

/-! ### Launchers -/

/-- Where a call of `LocalConnector::lock` is, until it has created the file. -/
inductive LockAttempt where
  /-- About to open the file with `O_CREAT | O_EXCL`. -/
  | opening
  /-- The file could not be created; about to call `fileType`. -/
  | testing
  /-- About to make the `DirectoryWatcher` with its listener. -/
  | arming
  /-- In `wait_for`; `told` if the watch has seen a removal of the file. -/
  | waiting (told : Bool)
deriving DecidableEq, Repr

/-- Where a launcher is in `CommandLineJob::run`. -/
inductive LauncherPhase where
  /-- The first `check()` is about to look for `.done`. -/
  | testDone
  /-- The first `check()` is about to look for `.pid`. -/
  | testPid
  /-- In `lock(lockPath, LOCKFILE_WAIT_DURATION)`. -/
  | acquire (attempt : LockAttempt)
  /-- With the main lock, the second `check()` is about to look for `.done`. -/
  | retestDone
  /-- With the main lock, the second `check()` is about to look for `.pid`. -/
  | retestPid
  /-- With the main lock, about to write the script. -/
  | writeScript
  /-- In `lock(pathTo(LOCK_START_PATH), LOCKFILE_WAIT_DURATION)`. -/
  | acquireStart (attempt : LockAttempt)
  /-- With both locks, about to start the process. -/
  | startProcess
  /-- The process has been started, the locks are not detached yet. -/
  | started
  /-- The locks are detached; `waitUntilFinished`. -/
  | waiting
  /-- The destructor of `lock` is about to remove `.lock`. -/
  | unwind
  | returned
deriving DecidableEq, Repr

/-- The next operation of a call of `lock` for the file, in the phase `here`; with the lock, the launcher
    is in the phase `locked`. `none` while no removal has been seen; and where `fileType` finds no file
    any more: the call throws, and the process ends. -/
def LockAttempt.advance (files : Files) (file : File) (here : LockAttempt → LauncherPhase)
    (locked : LauncherPhase) : LockAttempt → Option (LauncherPhase × Files)
  | .opening => some (if files file then (here .testing, files) else (locked, files.create file))
  | .testing => if files file then some (here .arming, files) else none
  | .arming => some (here (.waiting false), files)
  | .waiting told => if told then some (here .opening, files) else none

/-- The next operation of a launcher. A positive `check()` waits for the process and returns. -/
def LauncherPhase.advance (files : Files) : LauncherPhase → Option (LauncherPhase × Files)
  | .testDone => some (if files .done then .returned else .testPid, files)
  | .testPid => some (if files .pid then .returned else .acquire .opening, files)
  | .acquire attempt => attempt.advance files .lock .acquire .retestDone
  | .retestDone => some (if files .done then .unwind else .retestPid, files)
  | .retestPid => some (if files .pid then .unwind else .writeScript, files)
  | .writeScript => some (.acquireStart .opening, files)
  | .acquireStart attempt => attempt.advance files .lockStart .acquireStart .startProcess
  | .startProcess => some (.started, files)
  | .started => some (.waiting, files)
  | .waiting => some (.returned, files)
  | .unwind => some (.returned, files.remove .lock)
  | .returned => none

/-- The time of a call of `lock` is over, which gives `nullptr`: `run` returns, and the destructor of the
    main lock removes its file. An exception has no such way out: nothing handles it in the thread, and
    the process ends. -/
def LauncherPhase.timeOut : LauncherPhase → Option LauncherPhase
  | .acquire (.waiting _) => some .returned
  | .acquireStart (.waiting _) => some .unwind
  | _ => none

/-- What a watch has seen when the file may have been removed. -/
def LockAttempt.notice (removed : Bool) : LockAttempt → LockAttempt
  | .waiting told => .waiting (told || removed)
  | attempt => attempt

/-- What a launcher has seen after a step that has changed the files. -/
def LauncherPhase.notice (files files' : Files) : LauncherPhase → LauncherPhase
  | .acquire attempt => .acquire (attempt.notice (files .lock && !files' .lock))
  | .acquireStart attempt => .acquireStart (attempt.notice (files .lockStart && !files' .lockStart))
  | phase => phase

/-! ### Scripts -/

/-- Where a script is. -/
inductive ScriptPhase where
  /-- About to test that `.lock` exists. -/
  | testLock
  /-- About to test that `.lock.start` exists. -/
  | testStart
  /-- About to remove `.lock.start`. -/
  | removeStart
  /-- About to write `.pid`. -/
  | writePid
  /-- The trap is set; the commands run in the background, and the shell waits for them. -/
  | body
  /-- About to write the exit code of the commands. -/
  | writeCode (success : Bool)
  /-- About to create `.done`. -/
  | touchDone
  /-- In `cleanup`, about to remove `.pid`; `left` if the commands still run. -/
  | removePid (left : Bool)
  /-- In `cleanup`, about to remove `.lock`. -/
  | removeLock (left : Bool)
  | ended (left : Bool)
deriving DecidableEq, Repr

/-- The next operation of a script; `success` is the result of the commands where they are over. -/
def ScriptPhase.advance (files : Files) (success : Bool) : ScriptPhase → Option (ScriptPhase × Files)
  | .testLock => some (if files .lock then .testStart else .ended false, files)
  | .testStart => some (if files .lockStart then .removeStart else .ended false, files)
  | .removeStart => some (.writePid, files.remove .lockStart)
  | .writePid => some (.body, files.create .pid)
  | .body => some (.writeCode success, files)
  | .writeCode true => some (.touchDone, files.create .code)
  | .writeCode false => some (.removePid false, files.create .code)
  | .touchDone => some (.removePid false, files.create .done)
  | .removePid left => some (.removeLock left, files.remove .pid)
  | .removeLock left => some (.ended left, files.remove .lock)
  | .ended _ => none

/-- The end of the shell before its last command: the trap runs `cleanup`, and the commands, if they run
    (`left`), go on in the background. -/
def ScriptPhase.interrupt (left : Bool) : ScriptPhase → Option ScriptPhase
  | .body => some (.removePid left)
  | .writeCode _ | .touchDone => some (.removePid false)
  | _ => none

/-- The commands end that a signal has left running. -/
def ScriptPhase.settle : ScriptPhase → Option ScriptPhase
  | .removePid true => some (.removePid false)
  | .removeLock true => some (.removeLock false)
  | .ended true => some (.ended false)
  | _ => none

/-- The script is between the removal of its start lock and the removal of the main lock. -/
def ScriptPhase.active : ScriptPhase → Bool
  | .writePid | .body | .writeCode _ | .touchDone | .removePid _ | .removeLock _ => true
  | .testLock | .testStart | .removeStart | .ended _ => false

/-! ### The protocol -/

/-- A launcher or a script; one that has crashed stays where it was. -/
structure Party (P : Type) where
  phase : P
  crashed : Bool
deriving DecidableEq, Repr

structure Protocol where
  files : Files
  launchers : List (Party LauncherPhase)
  scripts : List (Party ScriptPhase)

/-- One step of the protocol: a launcher arrives; a launcher or a script, given by its index, executes its
    next operation, leaves early, or crashes (for a launcher, also by an exception); or the commands end
    that a script has left running. -/
inductive ProtocolAction where
  | arrive
  | launcher (index : ℕ)
  | timeOut (index : ℕ)
  | crashLauncher (index : ℕ)
  | script (index : ℕ) (success : Bool)
  | interrupt (index : ℕ) (left : Bool)
  | settle (index : ℕ)
  | crashScript (index : ℕ)
deriving DecidableEq, Repr

/-- The party with the index, if it has not crashed. -/
def running {P : Type} (parties : List (Party P)) (i : ℕ) : Option P :=
  match parties[i]? with
  | some { phase, crashed := false } => some phase
  | _ => none

/-- The party with the index is in another phase. -/
def moveTo {P : Type} (parties : List (Party P)) (i : ℕ) (phase : P) : List (Party P) :=
  parties.set i { phase, crashed := false }

/-- All launchers that watch see what a step removes. -/
def notify (files files' : Files) (launchers : List (Party LauncherPhase)) : List (Party LauncherPhase) :=
  launchers.map fun l => { l with phase := l.phase.notice files files' }

/-- One step; `none` when it is not enabled. -/
def protocolStep : ProtocolAction → Protocol → Option Protocol
  | .arrive, s => some { s with launchers := s.launchers ++ [{ phase := .testDone, crashed := false }] }
  | .launcher i, s => do
      let phase ← running s.launchers i
      let (next, files) ← phase.advance s.files
      let scripts :=
        if phase = .startProcess then s.scripts ++ [{ phase := .testLock, crashed := false }] else s.scripts
      some { files, launchers := notify s.files files (moveTo s.launchers i next), scripts }
  | .timeOut i, s => do
      let phase ← running s.launchers i
      let next ← phase.timeOut
      some { s with launchers := moveTo s.launchers i next }
  | .crashLauncher i, s => do
      let phase ← running s.launchers i
      some { s with launchers := s.launchers.set i { phase, crashed := true } }
  | .script i success, s => do
      let phase ← running s.scripts i
      let (next, files) ← phase.advance s.files success
      some { files, launchers := notify s.files files s.launchers, scripts := moveTo s.scripts i next }
  | .interrupt i left, s => do
      let phase ← running s.scripts i
      let next ← phase.interrupt left
      some { s with scripts := moveTo s.scripts i next }
  | .settle i, s => do
      let party ← s.scripts[i]?
      let next ← party.phase.settle
      some { s with scripts := s.scripts.set i { party with phase := next } }
  | .crashScript i, s => do
      let phase ← running s.scripts i
      some { s with scripts := s.scripts.set i { phase, crashed := true } }

/-- The protocol: nobody is there at first, whatever files exist. -/
def protocol : TransitionSystem.System Protocol ProtocolAction where
  initial s := s.launchers = [] ∧ s.scripts = []
  next s a s' := protocolStep a s = some s'

/-! ### Who has the main lock -/

/-- The launcher has created `.lock` and has neither removed it nor started a script. -/
def LauncherPhase.holds : LauncherPhase → Bool
  | .retestDone | .retestPid | .writeScript | .acquireStart _ | .startProcess | .unwind => true
  | .testDone | .testPid | .acquire _ | .started | .waiting | .returned => false

/-- The script has been started and has not removed `.lock`. -/
def ScriptPhase.holds : ScriptPhase → Bool
  | .ended _ => false
  | _ => true

/-- The launcher has found no `.done` while it had the main lock. -/
def LauncherPhase.unaware : LauncherPhase → Bool
  | .retestPid | .writeScript | .acquireStart _ | .startProcess => true
  | _ => false

/-- The script has not passed the test of its start lock. -/
def ScriptPhase.unaware : ScriptPhase → Bool
  | .testLock | .testStart => true
  | _ => false

theorem LauncherPhase.holds_of_unaware {phase : LauncherPhase} (unaware : phase.unaware) :
    phase.holds := by
  cases phase <;> trivial

theorem ScriptPhase.holds_of_unaware {phase : ScriptPhase} (unaware : phase.unaware) : phase.holds := by
  cases phase <;> trivial

theorem ScriptPhase.holds_of_active {phase : ScriptPhase} (active : phase.active) : phase.holds := by
  cases phase <;> trivial

/-- Who holds the main lock, crashed or not. -/
def holders (s : Protocol) : ℕ :=
  (s.launchers.countP fun l => l.phase.holds) + s.scripts.countP fun p => p.phase.holds

/-- The invariant: the main lock has at most one holder and none without its file, and once `.done` exists
    nobody goes on who has not seen it. -/
structure Guarded (s : Protocol) : Prop where
  baton : holders s ≤ (s.files .lock).toNat
  launchers : s.files .done → ∀ l ∈ s.launchers, l.phase.unaware = false
  scripts : s.files .done → ∀ p ∈ s.scripts, p.phase.unaware = false

/-! ### What one operation does to the lock -/

/-- A count is what one element contributes and the rest, which replacing this element leaves alone. -/
theorem countP_split {α : Type} (p : α → Bool) {l : List α} {i : ℕ} {old : α} (at_i : l[i]? = some old) :
    ∃ rest, l.countP p = rest + (p old).toNat ∧
      ∀ new, (l.set i new).countP p = rest + (p new).toNat := by
  obtain ⟨inRange, rfl⟩ := List.getElem?_eq_some_iff.mp at_i
  have kept := List.boole_getElem_le_countP (p := p) inRange
  have word (b : Bool) : b.toNat = if b then 1 else 0 := by cases b <;> rfl
  refine ⟨l.countP p - if p l[i] then 1 else 0, ?_, fun new => ?_⟩
  · rw [word, Nat.sub_add_cancel kept]
  · rw [word, List.countP_set inRange]

/-- Two elements count twice. -/
theorem two_le_countP {α : Type} {p : α → Bool} :
    ∀ {l : List α} {i k : ℕ} {x y : α}, l[i]? = some x → l[k]? = some y → i ≠ k → p x → p y →
      2 ≤ l.countP p
  | [], _, _, _, _, at_i, _, _, _, _ => by cases at_i
  | a :: l, 0, 0, _, _, _, _, ne, _, _ => absurd rfl ne
  | a :: l, 0, k + 1, x, y, at_i, at_k, _, of_x, of_y => by
      have inside : 0 < l.countP p := List.countP_pos_iff.mpr ⟨y, List.mem_of_getElem? at_k, of_y⟩
      rw [List.getElem?_cons_zero, Option.some.injEq] at at_i
      rw [List.countP_cons_of_pos (at_i ▸ of_x)]
      omega
  | a :: l, i + 1, 0, x, y, at_i, at_k, _, of_x, of_y => by
      have inside : 0 < l.countP p := List.countP_pos_iff.mpr ⟨x, List.mem_of_getElem? at_i, of_x⟩
      rw [List.getElem?_cons_zero, Option.some.injEq] at at_k
      rw [List.countP_cons_of_pos (at_k ▸ of_y)]
      omega
  | a :: l, i + 1, k + 1, x, y, at_i, at_k, ne, of_x, of_y => by
      have inside : 2 ≤ l.countP p :=
        two_le_countP at_i at_k (fun same => ne (congrArg (· + 1) same)) of_x of_y
      exact Nat.le_trans inside (List.sublist_cons_self a l).countP_le

theorem running_eq_some {P : Type} {parties : List (Party P)} {i : ℕ} {phase : P} :
    running parties i = some phase ↔ parties[i]? = some { phase, crashed := false } := by
  unfold running
  split <;> simp_all

theorem mem_of_running {P : Type} {parties : List (Party P)} {i : ℕ} {phase : P}
    (there : running parties i = some phase) : { phase, crashed := false } ∈ parties :=
  List.mem_of_getElem? (running_eq_some.mp there)

/-- What an operation of a call of `lock` does: the call goes on, or it has created the file. -/
theorem LockAttempt.advance_cases {files files' : Files} {file : File} {here : LockAttempt → LauncherPhase}
    {locked next : LauncherPhase} {attempt : LockAttempt}
    (h : attempt.advance files file here locked = some (next, files')) :
    (∃ later, next = here later ∧ files' = files) ∨
      attempt = .opening ∧ files file = false ∧ next = locked ∧ files' = files.create file := by
  cases attempt with
  | opening =>
      rw [advance, Option.some.injEq] at h
      cases taken : files file with
      | true =>
          rw [taken] at h
          cases h
          exact Or.inl ⟨.testing, rfl, rfl⟩
      | false =>
          rw [taken] at h
          cases h
          exact Or.inr ⟨rfl, rfl, rfl, rfl⟩
  | testing =>
      obtain ⟨_, ⟨⟩⟩ := Option.ite_none_right_eq_some.mp h
      exact Or.inl ⟨.arming, rfl, rfl⟩
  | arming =>
      cases h
      exact Or.inl ⟨.waiting false, rfl, rfl⟩
  | waiting told =>
      obtain ⟨_, ⟨⟩⟩ := Option.ite_none_right_eq_some.mp h
      exact Or.inl ⟨.opening, rfl, rfl⟩

/-- An operation of a launcher leaves at most one holder: with `others` holders besides it, and counting
    the script it may have started. -/
theorem LauncherPhase.advance_baton {files files' : Files} {phase next : LauncherPhase} (others : ℕ)
    (h : phase.advance files = some (next, files'))
    (before : others + phase.holds.toNat ≤ (files .lock).toNat) :
    others + next.holds.toNat + (decide (phase = .startProcess)).toNat ≤ (files' .lock).toNat := by
  cases phase with
  | acquire attempt =>
      rcases LockAttempt.advance_cases h with ⟨later, rfl, rfl⟩ | ⟨_, free, rfl, rfl⟩
      · simpa [holds] using before
      · simpa [holds, free] using before
  | acquireStart attempt =>
      rcases LockAttempt.advance_cases h with ⟨later, rfl, rfl⟩ | ⟨_, _, rfl, rfl⟩
      · simpa [holds] using before
      · simpa [holds] using before
  | unwind =>
      obtain ⟨rfl, rfl⟩ := h
      have one := Bool.toNat_le (files .lock)
      simp only [holds, Bool.toNat_true] at before
      simp [holds]
      omega
  | returned => cases h
  | testDone =>
      obtain ⟨rfl, rfl⟩ := h
      split <;> simpa [holds] using before
  | testPid =>
      obtain ⟨rfl, rfl⟩ := h
      split <;> simpa [holds] using before
  | retestDone =>
      obtain ⟨rfl, rfl⟩ := h
      split <;> simpa [holds] using before
  | retestPid =>
      obtain ⟨rfl, rfl⟩ := h
      split <;> simpa [holds] using before
  | _ =>
      obtain ⟨rfl, rfl⟩ := h
      simpa [holds] using before

/-- An operation of a script leaves at most one holder. -/
theorem ScriptPhase.advance_baton {files files' : Files} {success : Bool} {phase next : ScriptPhase}
    (others : ℕ) (h : phase.advance files success = some (next, files'))
    (before : others + phase.holds.toNat ≤ (files .lock).toNat) :
    others + next.holds.toNat ≤ (files' .lock).toNat := by
  have one := Bool.toNat_le (files .lock)
  cases phase with
  | removeLock left =>
      obtain ⟨rfl, rfl⟩ := h
      simp only [holds, Bool.toNat_true] at before
      simp [holds]
      omega
  | ended left => cases h
  | testLock =>
      obtain ⟨rfl, rfl⟩ := h
      simp only [holds, Bool.toNat_true] at before
      split <;> simp [holds] <;> omega
  | testStart =>
      obtain ⟨rfl, rfl⟩ := h
      simp only [holds, Bool.toNat_true] at before
      split <;> simp [holds] <;> omega
  | writeCode success =>
      cases success <;>
      · obtain ⟨rfl, rfl⟩ := h
        simpa [holds] using before
  | _ =>
      obtain ⟨rfl, rfl⟩ := h
      simpa [holds] using before

/-- A launcher that leaves early still has the lock it is about to remove. -/
theorem LauncherPhase.timeOut_holds {phase next : LauncherPhase} (h : phase.timeOut = some next) :
    next.holds = phase.holds ∧ next.unaware = false := by
  cases phase with
  | acquire attempt =>
      cases attempt <;> cases h
      exact ⟨rfl, rfl⟩
  | acquireStart attempt =>
      cases attempt <;> cases h
      exact ⟨rfl, rfl⟩
  | _ => cases h

theorem ScriptPhase.interrupt_holds {left : Bool} {phase next : ScriptPhase}
    (h : phase.interrupt left = some next) : next.holds = phase.holds ∧ next.unaware = false := by
  cases phase <;> cases h <;> exact ⟨rfl, rfl⟩

theorem ScriptPhase.settle_holds {phase next : ScriptPhase} (h : phase.settle = some next) :
    next.holds = phase.holds ∧ next.unaware = false := by
  cases phase with
  | removePid left =>
      cases left <;> cases h
      exact ⟨rfl, rfl⟩
  | removeLock left =>
      cases left <;> cases h
      exact ⟨rfl, rfl⟩
  | ended left =>
      cases left <;> cases h
      exact ⟨rfl, rfl⟩
  | _ => cases h

/-- What a launcher sees of a removal does not change what it has. -/
@[simp] theorem LauncherPhase.notice_holds (files files' : Files) (phase : LauncherPhase) :
    (phase.notice files files').holds = phase.holds := by
  cases phase <;> rfl

@[simp] theorem LauncherPhase.notice_unaware (files files' : Files) (phase : LauncherPhase) :
    (phase.notice files files').unaware = phase.unaware := by
  cases phase <;> rfl

/-- A launcher neither creates `.done` nor goes on when it sees it. -/
theorem LauncherPhase.advance_done {files files' : Files} {phase next : LauncherPhase}
    (h : phase.advance files = some (next, files')) :
    files' .done = files .done ∧ (files .done → phase.unaware = false → next.unaware = false) := by
  cases phase with
  | acquire attempt =>
      rcases LockAttempt.advance_cases h with ⟨later, rfl, rfl⟩ | ⟨_, _, rfl, rfl⟩
      · exact ⟨rfl, fun _ _ => rfl⟩
      · exact ⟨Files.create_of_ne _ nofun, fun _ _ => rfl⟩
  | acquireStart attempt =>
      rcases LockAttempt.advance_cases h with ⟨later, rfl, rfl⟩ | ⟨_, _, rfl, rfl⟩
      · exact ⟨rfl, nofun⟩
      · exact ⟨Files.create_of_ne _ nofun, nofun⟩
  | retestDone =>
      obtain ⟨rfl, rfl⟩ := h
      exact ⟨rfl, fun done _ => by simp [done, unaware]⟩
  | testDone =>
      obtain ⟨rfl, rfl⟩ := h
      exact ⟨rfl, fun _ _ => by split <;> rfl⟩
  | testPid =>
      obtain ⟨rfl, rfl⟩ := h
      exact ⟨rfl, fun _ _ => by split <;> rfl⟩
  | unwind =>
      obtain ⟨rfl, rfl⟩ := h
      exact ⟨Files.remove_of_ne _ nofun, fun _ _ => rfl⟩
  | returned => cases h
  | started =>
      obtain ⟨rfl, rfl⟩ := h
      exact ⟨rfl, fun _ _ => rfl⟩
  | waiting =>
      obtain ⟨rfl, rfl⟩ := h
      exact ⟨rfl, fun _ _ => rfl⟩
  | _ =>
      obtain ⟨rfl, rfl⟩ := h
      exact ⟨rfl, nofun⟩

/-- A script creates `.done` only while it holds the lock and is past its tests. -/
theorem ScriptPhase.advance_done {files files' : Files} {success : Bool} {phase next : ScriptPhase}
    (h : phase.advance files success = some (next, files')) :
    (files' .done = files .done ∧ (phase.unaware = false → next.unaware = false)) ∨
      phase.holds ∧ next.unaware = false := by
  cases phase with
  | testLock =>
      obtain ⟨rfl, rfl⟩ := h
      exact Or.inl ⟨rfl, nofun⟩
  | testStart =>
      obtain ⟨rfl, rfl⟩ := h
      exact Or.inl ⟨rfl, nofun⟩
  | body =>
      obtain ⟨rfl, rfl⟩ := h
      exact Or.inl ⟨rfl, fun _ => rfl⟩
  | removeStart =>
      obtain ⟨rfl, rfl⟩ := h
      exact Or.inl ⟨Files.remove_of_ne _ nofun, fun _ => rfl⟩
  | writePid =>
      obtain ⟨rfl, rfl⟩ := h
      exact Or.inl ⟨Files.create_of_ne _ nofun, fun _ => rfl⟩
  | writeCode success =>
      cases success <;>
      · obtain ⟨rfl, rfl⟩ := h
        exact Or.inl ⟨Files.create_of_ne _ nofun, fun _ => rfl⟩
  | touchDone =>
      obtain ⟨rfl, rfl⟩ := h
      exact Or.inr ⟨rfl, rfl⟩
  | removePid left =>
      obtain ⟨rfl, rfl⟩ := h
      exact Or.inl ⟨Files.remove_of_ne _ nofun, fun _ => rfl⟩
  | removeLock left =>
      obtain ⟨rfl, rfl⟩ := h
      exact Or.inl ⟨Files.remove_of_ne _ nofun, fun _ => rfl⟩
  | ended left => cases h

/-! ### The invariant of the protocol -/

/-- What holds of all parties holds after one of them has been replaced. -/
theorem forall_set {α : Type} {P : α → Prop} {l : List α} {i : ℕ} {new : α} (all : ∀ x ∈ l, P x)
    (of_new : P new) : ∀ x ∈ l.set i new, P x := by
  intro x member
  rcases List.mem_or_eq_of_mem_set member with old | rfl
  · exact all x old
  · exact of_new

/-- A write to one launcher that keeps what it holds. -/
theorem Guarded.setLauncher {s : Protocol} (guarded : Guarded s) {i : ℕ} {old new : Party LauncherPhase}
    (at_i : s.launchers[i]? = some old) (holds : new.phase.holds = old.phase.holds)
    (unaware : s.files .done → new.phase.unaware = false) :
    Guarded { s with launchers := s.launchers.set i new } := by
  refine ⟨?_, fun done => forall_set (guarded.launchers done) (unaware done), guarded.scripts⟩
  obtain ⟨rest, counted, replaced⟩ := countP_split (fun l => l.phase.holds) at_i
  have before := guarded.baton
  simp only [holders, counted, replaced, holds] at before ⊢
  exact before

/-- A write to one script that keeps what it holds. -/
theorem Guarded.setScript {s : Protocol} (guarded : Guarded s) {i : ℕ} {old new : Party ScriptPhase}
    (at_i : s.scripts[i]? = some old) (holds : new.phase.holds = old.phase.holds)
    (unaware : s.files .done → new.phase.unaware = false) :
    Guarded { s with scripts := s.scripts.set i new } := by
  refine ⟨?_, guarded.launchers, fun done => forall_set (guarded.scripts done) (unaware done)⟩
  obtain ⟨rest, counted, replaced⟩ := countP_split (fun p => p.phase.holds) at_i
  have before := guarded.baton
  simp only [holders, counted, replaced, holds] at before ⊢
  exact before

/-- What the launchers see of a removal does not change who counts. -/
theorem countP_notify {f : LauncherPhase → Bool} {files files' : Files}
    (same : ∀ phase, f (phase.notice files files') = f phase) (launchers : List (Party LauncherPhase)) :
    ((notify files files' launchers).countP fun l => f l.phase) = launchers.countP fun l => f l.phase := by
  rw [notify, List.countP_map]
  apply List.countP_congr
  intro l _
  rw [Function.comp_apply, same]

/-- The watches keep the invariant. -/
theorem Guarded.notify {s : Protocol} (guarded : Guarded s) (files files' : Files) :
    Guarded { s with launchers := notify files files' s.launchers } := by
  refine ⟨?_, fun done l member => ?_, guarded.scripts⟩
  · have baton := guarded.baton
    rw [holders] at baton ⊢
    rwa [countP_notify (LauncherPhase.notice_holds files files')]
  · obtain ⟨old, there, rfl⟩ := List.mem_map.mp member
    rw [LauncherPhase.notice_unaware]
    exact guarded.launchers done old there

/-- The next operation of a launcher. -/
theorem guarded_launcher {s : Protocol} {i : ℕ} {phase next : LauncherPhase} {files : Files}
    (guarded : Guarded s) (at_i : s.launchers[i]? = some { phase, crashed := false })
    (h : phase.advance s.files = some (next, files)) :
    Guarded
      { files
        launchers := moveTo s.launchers i next
        scripts :=
          if phase = .startProcess then s.scripts ++ [{ phase := .testLock, crashed := false }]
          else s.scripts } := by
  obtain ⟨same_done, still⟩ := LauncherPhase.advance_done h
  have unaware : s.files .done → phase.unaware = false :=
    fun done => guarded.launchers done _ (List.mem_of_getElem? at_i)
  refine ⟨?_, fun done => ?_, fun done => ?_⟩
  · obtain ⟨rest, counted, replaced⟩ := countP_split (fun l => l.phase.holds) at_i
    have before := guarded.baton
    simp only [holders, counted] at before
    have after := LauncherPhase.advance_baton (rest + s.scripts.countP fun p => p.phase.holds) h (by omega)
    simp only [holders, moveTo, replaced]
    by_cases starts : phase = .startProcess
    · simp only [starts, if_true, decide_true, Bool.toNat_true, List.countP_append,
        List.countP_singleton, ScriptPhase.holds] at after ⊢
      omega
    · simp only [starts, if_false, decide_false, Bool.toNat_false] at after ⊢
      omega
  · change files .done at done
    rw [same_done] at done
    exact forall_set (guarded.launchers done) (still done (unaware done))
  · change files .done at done
    rw [same_done] at done
    have starts : phase ≠ .startProcess := by
      rintro rfl
      exact absurd (unaware done) nofun
    simpa [starts] using guarded.scripts done

/-- The next operation of a script. When it creates `.done` it is the only one with the lock, so that
    nobody is left who has not seen the file. -/
theorem guarded_script {s : Protocol} {i : ℕ} {success : Bool} {phase next : ScriptPhase} {files : Files}
    (guarded : Guarded s) (at_i : s.scripts[i]? = some { phase, crashed := false })
    (h : phase.advance s.files success = some (next, files)) :
    Guarded { s with files, scripts := moveTo s.scripts i next } := by
  have before := guarded.baton
  have baton : holders { s with files, scripts := moveTo s.scripts i next } ≤ (files .lock).toNat := by
    obtain ⟨rest, counted, replaced⟩ := countP_split (fun p => p.phase.holds) at_i
    simp only [holders, counted] at before
    have after := ScriptPhase.advance_baton ((s.launchers.countP fun l => l.phase.holds) + rest) h
      (by omega)
    simp only [holders, moveTo, replaced]
    omega
  rcases ScriptPhase.advance_done h with ⟨same_done, still⟩ | ⟨holds, aware⟩
  · refine ⟨baton, fun done => guarded.launchers (same_done ▸ done), fun done => ?_⟩
    change files .done at done
    rw [same_done] at done
    have scripts := guarded.scripts done
    exact forall_set scripts (still (scripts _ (List.mem_of_getElem? at_i)))
  · have one := Bool.toNat_le (s.files .lock)
    have inside : 0 < s.scripts.countP fun p => p.phase.holds :=
      List.countP_pos_iff.mpr ⟨_, List.mem_of_getElem? at_i, holds⟩
    simp only [holders] at before
    refine ⟨baton, fun _ l member => ?_, fun _ p member => ?_⟩
    · by_contra unaware
      have other : 0 < s.launchers.countP fun l => l.phase.holds :=
        List.countP_pos_iff.mpr
          ⟨l, member, LauncherPhase.holds_of_unaware (Bool.not_eq_false _ ▸ unaware)⟩
      omega
    · obtain ⟨k, at_k⟩ := List.mem_iff_getElem?.mp member
      simp only [moveTo, List.getElem?_set] at at_k
      by_cases same : i = k
      · simp only [if_pos same] at at_k
        split at at_k
        · exact Option.some.inj at_k ▸ aware
        · cases at_k
      · rw [if_neg same] at at_k
        by_contra unaware
        have other := ScriptPhase.holds_of_unaware (Bool.not_eq_false _ ▸ unaware)
        have two := two_le_countP (p := fun p => p.phase.holds) at_i at_k same holds other
        omega

/-- Every step keeps the invariant. -/
theorem guarded_step {s s' : Protocol} {a : ProtocolAction} (guarded : Guarded s)
    (next : protocolStep a s = some s') : Guarded s' := by
  cases a with
  | arrive =>
      rw [protocolStep, Option.some.injEq] at next
      subst next
      refine ⟨?_, fun done => ?_, guarded.scripts⟩
      · simpa [holders, LauncherPhase.holds] using guarded.baton
      · intro l member
        rcases List.mem_append.mp member with old | new
        · exact guarded.launchers done l old
        · rw [List.mem_singleton.mp new]
          rfl
  | launcher i =>
      simp only [protocolStep, bind, Option.bind_eq_some_iff] at next
      obtain ⟨phase, at_i, ⟨after, files⟩, advanced, h⟩ := next
      cases h
      exact (guarded_launcher guarded (running_eq_some.mp at_i) advanced).notify s.files files
  | timeOut i =>
      simp only [protocolStep, bind, Option.bind_eq_some_iff] at next
      obtain ⟨phase, at_i, after, left, h⟩ := next
      obtain ⟨holds, aware⟩ := LauncherPhase.timeOut_holds left
      exact Option.some.inj h ▸ guarded.setLauncher (running_eq_some.mp at_i) holds fun _ => aware
  | crashLauncher i =>
      simp only [protocolStep, bind, Option.bind_eq_some_iff] at next
      obtain ⟨phase, at_i, h⟩ := next
      have there := running_eq_some.mp at_i
      refine Option.some.inj h ▸ guarded.setLauncher there rfl fun done => ?_
      exact guarded.launchers done { phase, crashed := false } (List.mem_of_getElem? there)
  | script i success =>
      simp only [protocolStep, bind, Option.bind_eq_some_iff] at next
      obtain ⟨phase, at_i, ⟨after, files⟩, advanced, h⟩ := next
      cases h
      exact (guarded_script guarded (running_eq_some.mp at_i) advanced).notify s.files files
  | interrupt i left =>
      simp only [protocolStep, bind, Option.bind_eq_some_iff] at next
      obtain ⟨phase, at_i, after, cleans, h⟩ := next
      obtain ⟨holds, aware⟩ := ScriptPhase.interrupt_holds cleans
      exact Option.some.inj h ▸ guarded.setScript (running_eq_some.mp at_i) holds fun _ => aware
  | settle i =>
      simp only [protocolStep, bind, Option.bind_eq_some_iff] at next
      obtain ⟨party, at_i, after, ends, h⟩ := next
      obtain ⟨holds, aware⟩ := ScriptPhase.settle_holds ends
      exact Option.some.inj h ▸ guarded.setScript at_i holds fun _ => aware
  | crashScript i =>
      simp only [protocolStep, bind, Option.bind_eq_some_iff] at next
      obtain ⟨phase, at_i, h⟩ := next
      have there := running_eq_some.mp at_i
      refine Option.some.inj h ▸ guarded.setScript there rfl fun done => ?_
      exact guarded.scripts done { phase, crashed := false } (List.mem_of_getElem? there)

theorem guarded_of_reachable {s : Protocol} (run : protocol.Reachable s) : Guarded s := by
  refine run.invariant Guarded ?_ fun _ _ _ _ next before => guarded_step before next
  rintro s ⟨no_launcher, no_script⟩
  constructor <;> simp [holders, no_launcher, no_script]

/-! ### The result -/

/-- In every reachable state at most one script is between the removal of its start lock and the removal
    of the main lock; and when `.done` exists, no step takes a script past its start-lock test. -/
theorem one_script_at_a_time {s : Protocol} (run : protocol.Reachable s) :
    (s.scripts.countP fun p => p.phase.active) ≤ 1 ∧
      (s.files .done → ∀ a s', protocol.next s a s' → ∀ (i : ℕ) (p p' : Party ScriptPhase),
        s.scripts[i]? = some p → s'.scripts[i]? = some p' → p.phase = .testStart →
          p'.phase ≠ .removeStart) := by
  have guarded := guarded_of_reachable run
  refine ⟨?_, fun done _ _ _ i p p' at_i _ testing => ?_⟩
  · have fewer : (s.scripts.countP fun p => p.phase.active) ≤ s.scripts.countP fun p => p.phase.holds :=
      List.countP_mono_left fun _ _ => ScriptPhase.holds_of_active
    have one := Bool.toNat_le (s.files .lock)
    have baton := guarded.baton
    simp only [holders] at baton
    omega
  · have aware := guarded.scripts done p (List.mem_of_getElem? at_i)
    rw [testing] at aware
    cases aware

/-- A launcher starts a script, another one waits for the lock; the script runs to its end, and the second
    launcher sees that the lock is removed, takes it and finds `.done`. -/
theorem one_script_at_a_time_two_launchers :
    ∃ s, protocol.Reachable s ∧ s.files .done ∧ (s.scripts.countP fun p => p.phase.active) ≤ 1 ∧
      (s.files .done → ∀ a s', protocol.next s a s' → ∀ (i : ℕ) (p p' : Party ScriptPhase),
        s.scripts[i]? = some p → s'.scripts[i]? = some p' → p.phase = .testStart →
          p'.phase ≠ .removeStart) := by
  have executed : (TransitionSystem.runActions protocolStep
      [.arrive, .arrive, .launcher 0, .launcher 0, .launcher 1, .launcher 1, .launcher 0, .launcher 1,
        .launcher 1, .launcher 1, .launcher 0, .launcher 0, .launcher 0, .launcher 0, .launcher 0, .launcher 0,
        .script 0 true, .script 0 true, .script 0 true, .script 0 true, .script 0 true, .script 0 true,
        .script 0 true, .script 0 true, .script 0 true, .launcher 1, .launcher 1, .launcher 1, .launcher 1]
      { files := fun _ => false, launchers := [], scripts := [] }).map (fun s => s.files .done) =
      some true := by decide
  obtain ⟨s, last, seen⟩ := Option.map_eq_some_iff.mp executed
  have run : protocol.Reachable s :=
    TransitionSystem.reachable_runActions (fun _ _ _ => id) (.start ⟨rfl, rfl⟩) last
  exact ⟨s, run, seen, one_script_at_a_time run⟩

end Experimaestro.Scheduler

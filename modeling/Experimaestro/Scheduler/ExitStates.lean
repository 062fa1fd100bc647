/-
Module: Experimaestro.Scheduler.ExitStates
Layer: Scheduler
Purpose: How a launcher learns how the script of its job has ended, and the state in which it leaves the job: it has
  waited for its own child, has read the exit code where the child was gone, has waited for a process that another
  launcher had started, or has found `.done`. In none of these ways is a job DONE whose commands have not succeeded.
Imports: Experimaestro.Scheduler.Workspace, Experimaestro.Scheduler.ScriptResults
Trusted boundary: human-reviewed model of waitProcess, ExternalProcess::exitCode and the functions check and
  waitUntilFinished of CommandLineJob::run; reading a file is one step
Main exports: WaitStatus, waitProcess, extractInt, reported, Seen, reported_done
Open obligations: none
-/
import Mathlib.Tactic.Common
import Experimaestro.Scheduler.Workspace
import Experimaestro.Scheduler.ScriptResults

namespace Experimaestro.Scheduler

open Experimaestro.Configuration (Str str decimal isDecimalDigit)
open Commands (ScriptData FileSystem numberText)
open TransitionSystem (forall₂_getElem?)

/-! ### Exit codes -/

/-- What `waitpid` says of a child. -/
inductive WaitStatus where
  | exited (status : ℕ)
  | signaled
  | stopped
  /-- The call has failed with `ECHILD`. -/
  | noChild
  | failed
deriving DecidableEq, Repr

/-- `waitProcess`; `none` is `exited_error`. -/
def waitProcess : WaitStatus → Option ℤ
  | .exited status => some status
  | .signaled => some (-2)
  | .stopped => some (-3)
  | .noChild => none
  | .failed => some (-1)

/-- `isspace`, in the default locale. -/
def isSpace (c : UInt8) : Bool := c == 32 || 9 ≤ c && c ≤ 13

/-- What `operator>>` leaves in an `int`, given the text of the stream: the closest value of the type, or zero where no
digits follow. A stream that could not be opened, or holds only blanks, leaves the variable as it is. -/
def extractInt (before : ℤ) : Option Str → ℤ
  | none => before
  | some text =>
      match text.dropWhile isSpace with
      | [] => before
      | 45 :: digits => max (-decimal (digits.takeWhile isDecimalDigit)) (-2147483648)
      | 43 :: digits => min (decimal (digits.takeWhile isDecimalDigit)) 2147483647
      | digits => min (decimal (digits.takeWhile isDecimalDigit)) 2147483647

/-- The contents of the file of the exit code. -/
def codeText (data : ScriptData) (files : FileSystem) : Option Str :=
  match files (data.place ".code") with
  | some (.file content) => some content
  | some .directory | none => none

/-- `state(exitCode == 0 ? JobState::DONE : JobState::ERROR)`. -/
def finalState (exitCode : ℤ) : JobState := if exitCode = 0 then .done else .error

/-- How a launcher has learned that the script of its job has ended. -/
inductive Ending where
  /-- `.done` was there. -/
  | found
  /-- Its own child has ended. -/
  | waited (status : WaitStatus)
  /-- A process that it has not started has ended; the variable of the exit code holds `garbage` at first. -/
  | external (garbage : ℤ)

/-- The state that `run` sets: by `check` where `.done` is found, otherwise by `waitUntilFinished`, which reads the exit
code of a child that is gone from its file. -/
def reported (data : ScriptData) (files : FileSystem) : Ending → JobState
  | .found => .done
  | .waited status => finalState ((waitProcess status).getD (extractInt (-1) (codeText data files)))
  | .external garbage => finalState (extractInt garbage (codeText data files))

/-- What a launcher may see. An exit status is the one with which a shell has ended; of a process of which only the
number was read from a file, nothing else is known. -/
inductive Seen (data : ScriptData) (s : Live) : Ending → Prop
  | found : s.files.isFile (data.place ".done") → Seen data s .found
  | exited {p : Party ScriptProcess} {status : ℕ} :
      p ∈ s.scripts → p.phase.point = .exited status → Seen data s (.waited (.exited status))
  | unknown {status : WaitStatus} : (∀ code, status ≠ .exited code) → Seen data s (.waited status)
  | external (garbage : ℤ) : Seen data s (.external garbage)

/-! ### What is read -/

theorem isSpace_of_digit {b : UInt8} (digit : isDecimalDigit b = true) : isSpace b = false := by
  simp only [isDecimalDigit, Bool.and_eq_true, decide_eq_true_eq, UInt8.le_iff_toNat_le] at digit
  simp only [isSpace, Bool.or_eq_false_iff, Bool.and_eq_false_iff, beq_eq_false_iff_ne, decide_eq_false_iff_not, ne_eq,
    UInt8.le_iff_toNat_le, ← UInt8.toNat_inj]
  have low : (0x30 : UInt8).toNat = 48 := rfl
  have blank : (32 : UInt8).toNat = 32 := rfl
  have last : (13 : UInt8).toNat = 13 := rfl
  omega

theorem numberText_cons (n : ℕ) :
    ∃ b rest, numberText n = b :: rest ∧ isDecimalDigit b = true ∧ ∀ c ∈ rest, isDecimalDigit c = true := by
  by_cases zero : n = 0
  · subst zero
    exact ⟨48, [], rfl, rfl, by simp⟩
  · obtain ⟨b, rest, digits, _, _, digit⟩ := Configuration.digitsText_cons zero
    refine ⟨b, rest, (if_neg zero).trans digits, digit, fun c member => ?_⟩
    exact Configuration.digitsText_digits n c (digits ▸ List.mem_cons_of_mem b member)

/-- A number on a line is read as it was written. -/
theorem extractInt_numberText (before : ℤ) (n : ℕ) :
    extractInt before (some (numberText n ++ str "\n")) = min (n : ℤ) 2147483647 := by
  obtain ⟨b, rest, text, digit, digits⟩ := numberText_cons n
  have all : ∀ c ∈ b :: rest, isDecimalDigit c = true := List.forall_mem_cons.mpr ⟨digit, digits⟩
  have number : ((b :: rest) ++ str "\n").takeWhile isDecimalDigit = b :: rest := by
    rw [List.takeWhile_append_of_pos all]
    exact List.append_nil _
  have value : decimal (b :: rest) = n := by rw [← text, decimal_numberText]
  rw [text, extractInt, List.cons_append, List.dropWhile_cons_of_neg (by simp [isSpace_of_digit digit])]
  split
  case h_1 same => cases same
  case h_2 digits' same =>
      cases same
      cases digit
  case h_3 digits' same =>
      cases same
      cases digit
  case h_4 => rw [← List.cons_append, number, value]

/-! ### A job that is done -/

theorem finalState_done {exitCode : ℤ} : finalState exitCode = .done ↔ exitCode = 0 := by
  rw [finalState]
  split <;> simp_all

/-- The file of the exit code, where there is one, is not read as zero unless commands have succeeded. -/
theorem Coded.read {data : ScriptData} {s : Live} (coded : Coded data s) {before : ℤ}
    (zero : extractInt before (codeText data s.files) = 0) :
    (∃ p ∈ s.scripts, Succeeded p.phase) ∨ codeText data s.files = none ∧ before = 0 := by
  cases text : codeText data s.files with
  | none =>
      rw [text] at zero
      exact Or.inr ⟨rfl, zero⟩
  | some content =>
      apply Or.inl
      have there : s.files (data.place ".code") = some (.file content) := by
        rw [codeText] at text
        split at text
        case h_1 entry => rw [entry, Option.some.inj text]
        case h_2 => cases text
        case h_3 => cases text
      obtain ⟨status, written, succeeded⟩ := coded content there
      rw [text, written, extractInt_numberText] at zero
      apply succeeded
      omega

/-- A shell that has ended with status zero has seen its commands end with it. -/
theorem Stage.exited_zero {data : ScriptData} {p : ScriptProcess} {phase : ScriptPhase} (stage : Stage data p phase)
    (ended : p.point = .exited 0) : Succeeded p := by
  cases stage with
  | exited honest =>
      cases ended
      exact honest rfl
  | exports all =>
      rename_i entries
      cases entries <;> cases ended
  | _ => cases ended

/-- What `waitpid` says is no zero, unless it is the exit status. -/
theorem waitProcess_unknown {status : WaitStatus} (other : ∀ code, status ≠ .exited code) :
    waitProcess status = none ∨ ∃ code, waitProcess status = some code ∧ code ≠ 0 := by
  cases status with
  | exited code => exact absurd rfl (other code)
  | noChild => exact Or.inl rfl
  | _ => exact Or.inr ⟨_, rfl, by decide⟩

/-- A job becomes DONE only when the commands of one of its scripts have ended with status zero: whoever has started
scripts, crashed and been interrupted, and however the end was learned. The one exception is a process that the launcher
has not started and that has left no exit code: the variable that decides is then never written. -/
theorem reported_done {data : ScriptData} {s : Live} (run : (unsuccessful data).Reachable s) {ending : Ending}
    (seen : Seen data s ending) (done : reported data s.files ending = .done) :
    (∃ p ∈ s.scripts, p.phase.background = .ended 0) ∨ ending = .external 0 ∧ codeText data s.files = none := by
  obtain ⟨t, mirrors, coded⟩ := coded_of_run run
  cases seen with
  | found there => exact Or.inl ((certified_of_run (unsuccessful_unfinished run)).code there).2
  | exited member point =>
      rename_i p status
      have zero : status = 0 := by
        have read := finalState_done.mp done
        exact Int.ofNat_eq_zero.mp read
      obtain ⟨i, there⟩ := List.mem_iff_getElem?.mp member
      obtain ⟨q, _, _, v, _, stage⟩ := forall₂_getElem? mirrors.scripts there
      rw [zero] at point
      exact Or.inl ⟨p, member, stage.exited_zero point⟩
  | unknown other =>
      have read := finalState_done.mp done
      rcases waitProcess_unknown other with gone | ⟨code, known, failed⟩
      · rw [gone] at read
        rcases coded.read read with succeeded | ⟨_, zero⟩
        · exact Or.inl succeeded
        · cases zero
      · rw [known] at read
        exact absurd read failed
  | external garbage =>
      rcases coded.read (finalState_done.mp done) with succeeded | ⟨missing, zero⟩
      · exact Or.inl succeeded
      · exact Or.inr ⟨by rw [zero], missing⟩

/-- The shell has ended. -/
def hasExited (p : ScriptProcess) : Bool :=
  match p.point with
  | .exited status => status == 0
  | .program _ _ | .leaving _ _ _ | .cleanup _ _ => false

theorem hasExited_iff {p : ScriptProcess} : hasExited p ↔ p.point = .exited 0 := by
  rw [hasExited]
  cases p.point <;> simp

/-- The commands succeed, their shell leaves, and the launcher that has waited for it learns the status zero. -/
theorem reported_done_waited :
    ∃ s, (unsuccessful exampleJob).Reachable s ∧ Seen exampleJob s (.waited (.exited 0)) ∧
      ((∃ p ∈ s.scripts, p.phase.background = .ended 0) ∨
        Ending.waited (.exited 0) = .external 0 ∧ codeText exampleJob s.files = none) := by
  have executed : (exampleEnd 12).map (fun s => s.scripts.map fun p => hasExited p.phase) = some [true] := by decide
  obtain ⟨s, reached, seen⟩ := Option.map_eq_some_iff.mp executed
  obtain ⟨p, alone, ended⟩ := List.map_eq_singleton_iff.mp seen
  have run := exampleEnd_run reached
  have member : p ∈ s.scripts := by simp [alone]
  have saw : Seen exampleJob s (.waited (.exited 0)) := .exited member (hasExited_iff.mp ended)
  exact ⟨s, run, saw, reported_done run saw rfl⟩

end Experimaestro.Scheduler

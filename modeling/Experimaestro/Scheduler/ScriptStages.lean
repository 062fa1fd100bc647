/-
Module: Experimaestro.Scheduler.ScriptStages
Layer: Scheduler
Purpose: Where the shell that executes the script of a job is in the protocol of the lock files. Each point of
  the program that `ShScriptBuilder::write` prints belongs to a phase of a script: `Stage`. A step of the shell,
  whatever others have done to the files since the one before, is a step of the phase on the files that exist,
  or changes neither: `Stage.advance`. So is a signal: `Stage.interrupt`.
Imports: Experimaestro.Commands.ScriptRuns, Experimaestro.Scheduler.LockFiles
Trusted boundary: none (fully proved)
Main exports: File.extension, flags, ScriptProcess, Stage, Stage.advance, Stage.interrupt
Open obligations: none
-/
import Mathlib.Tactic.Common
import Experimaestro.Commands.ScriptRuns
import Experimaestro.Scheduler.LockFiles

namespace Experimaestro.Scheduler

open Experimaestro.Configuration (Str str)
open Commands (ScriptData FileSystem Simple Word Test ExitStatus Statement Locals Entry Usable Ready meaning
  scriptProgram denotes_absolute denotes_beside denotes_directory meaning_run)

/-! ### The files of the protocol -/

/-- The extension of a file beside the locator. -/
def File.extension : File → String
  | .lock => ".lock"
  | .lockStart => ".lock.start"
  | .pid => ".pid"
  | .code => ".code"
  | .done => ".done"

theorem File.extension_mem (file : File) : file.extension ∈ ScriptData.extensions := by
  cases file <;> decide

theorem File.extension_injective {one two : File} (same : str one.extension = str two.extension) : one = two := by
  revert same
  cases one <;> cases two <;> decide

/-- Which files of a job exist. -/
def flags (data : ScriptData) (files : FileSystem) : Files := fun file => files.isFile (data.place file.extension)

theorem place_extension_ne {data : ScriptData} {one two : File} (other : one ≠ two) :
    data.place one.extension ≠ data.place two.extension :=
  Commands.place_ne fun same => other (File.extension_injective same)

/-- A control file is written. -/
theorem flags_create (data : ScriptData) (files : FileSystem) (file : File) (content : Str) :
    flags data (files.set (data.place file.extension) (some (.file content))) = (flags data files).create file := by
  funext other
  by_cases same : other = file
  · subst same
    rw [Files.create_self, flags, FileSystem.isFile, FileSystem.set_self]
  · rw [Files.create_of_ne _ same, flags, flags, FileSystem.isFile, FileSystem.isFile,
      FileSystem.set_of_ne _ _ (place_extension_ne same)]

/-- A control file is removed. -/
theorem flags_remove (data : ScriptData) (files : FileSystem) (file : File) :
    flags data (files.set (data.place file.extension) none) = (flags data files).remove file := by
  funext other
  by_cases same : other = file
  · subst same
    rw [Files.remove_self, flags, FileSystem.isFile, FileSystem.set_self]
  · rw [Files.remove_of_ne _ same, flags, flags, FileSystem.isFile, FileSystem.isFile,
      FileSystem.set_of_ne _ _ (place_extension_ne same)]

/-! ### Where a script is -/

/-- A shell that executes a script. -/
abbrev ScriptProcess : Type := ShellPrograms.Process Locals Simple Test ExitStatus (List Str)

section

variable (data : ScriptData)

/-- The rest of the program from the removal of the start lock on, from the exports on, and so forth. -/
def creatingDone : List Statement := [.run (.touch (.quoted (data.beside ".done")))]

def writingZero : List Statement := .run (.writeZero (.quoted (data.beside ".code"))) :: creatingDone data

def checkingCode : List Statement :=
  .guard .failed [.writeCode (.quoted (data.beside ".code"))] .code :: writingZero data

def rememberingStatus : List Statement := .run .rememberStatus :: checkingCode data

def awaiting : List Statement := .await :: rememberingStatus data

def starting : List Statement := .start data.pipelines :: awaiting data

def trapping : List Statement := .trap data.handler :: starting data

def exporting (entries : List (Str × Str)) : List Statement :=
  (entries.map fun entry => .exportVariable entry.1 (.quoted entry.2)).map .run ++
    .run (.changeDirectory (.quoted (Files.rooted data.directory))) :: trapping data

def writingPid : List Statement :=
  .run (.writePid (.quoted (data.absolute ".pid"))) :: exporting data data.exported

def settingPipefail : List Statement := .run .setPipefail :: writingPid data

def removingStart : List Statement :=
  .run (.remove (.bare (data.absolute ".lock.start")) false) :: settingPipefail data

def testingStart : List Statement :=
  .guard (.missing (.bare (data.absolute ".lock.start"))) [.say (str "start lock not set")]
    (.constant (str "017")) :: removingStart data

def testingLock : List Statement :=
  .guard (.missing (.bare (data.absolute ".lock"))) [.say (str "Locks not set")] (.constant (str "017")) ::
    testingStart data

/-- The end of the handler, behind the removal of the lock. -/
def notifying : List Simple := (if data.notificationURL.isSome then [.notify] else []) ++ [.killChildren]

/-- The handler from the removal of the process on. -/
def removing : List Simple :=
  .remove (.bare (data.beside ".pid")) true :: .remove (.bare (data.beside ".lock")) false :: notifying data

end

theorem scriptProgram_stages (data : ScriptData) : scriptProgram data = testingLock data :=
  Commands.scriptProgram_eq data

theorem handler_stages (data : ScriptData) :
    data.handler = .say (str "Cleaning up 1>&2") :: .untrap :: removing data := by
  rw [ScriptData.handler, List.append_assoc]
  rfl

/-- The commands run. -/
def works : ShellPrograms.Background Locals (List Str) → Bool
  | .running _ _ => true
  | .absent | .ended _ => false

/-- A shell ends with status zero only if its commands have. -/
def Honest (status : ℕ) (background : ShellPrograms.Background Locals (List Str)) : Prop :=
  status = 0 → background = .ended 0

/-- The phase of the protocol in which a shell is. From `cd` on it is in the directory of the job, and the trap is set
behind it; once the commands are over, their status is known. A signal leaves them running. -/
inductive Stage (data : ScriptData) : ScriptProcess → ScriptPhase → Prop where
  | testLock : Stage data ⟨.program (testingLock data) none, l, .absent⟩ .testLock
  | testStart : Stage data ⟨.program (testingStart data) none, l, .absent⟩ .testStart
  | refused {commands : List Simple} (only : ∀ command ∈ commands, ∃ message, command = .say message) :
      Stage data ⟨.leaving commands (.constant (str "017")) none, l, .absent⟩ (.ended false)
  | removeStart : Stage data ⟨.program (removingStart data) none, l, .absent⟩ .removeStart
  | setPipefail : Stage data ⟨.program (settingPipefail data) none, l, .absent⟩ .writePid
  | writePid : Stage data ⟨.program (writingPid data) none, l, .absent⟩ .writePid
  | exports {entries : List (Str × Str)}
      (all : ∀ entry ∈ entries, Commands.identifier entry.1 ∧ Commands.Readable entry.2) :
      Stage data ⟨.program (exporting data entries) none, l, .absent⟩ .body
  | trap (inside : l.directory = data.directory) : Stage data ⟨.program (trapping data) none, l, .absent⟩ .body
  | start (inside : l.directory = data.directory) :
      Stage data ⟨.program (starting data) (some data.handler), l, .absent⟩ .body
  | await (inside : l.directory = data.directory) :
      Stage data ⟨.program (awaiting data) (some data.handler), l, b⟩ .body
  | remember (inside : l.directory = data.directory) (ended : b = .ended l.status) :
      Stage data ⟨.program (rememberingStatus data) (some data.handler), l, b⟩ .body
  | check {code : ℕ} (inside : l.directory = data.directory) (known : l.code = some code) (ended : b = .ended code) :
      Stage data ⟨.program (checkingCode data) (some data.handler), l, b⟩ .body
  | writeCode {code : ℕ} (inside : l.directory = data.directory) (known : l.code = some code) (ended : b = .ended code)
      (failed : code ≠ 0) :
      Stage data ⟨.leaving [.writeCode (.quoted (data.beside ".code"))] .code (some data.handler), l, b⟩
        (.writeCode false)
  | leave {code : ℕ} (inside : l.directory = data.directory) (known : l.code = some code) (ended : b = .ended code)
      (failed : code ≠ 0) :
      Stage data ⟨.leaving [] .code (some data.handler), l, b⟩ (.removePid false)
  | writeZero (inside : l.directory = data.directory) (ended : b = .ended 0) :
      Stage data ⟨.program (writingZero data) (some data.handler), l, b⟩ (.writeCode true)
  | touch (inside : l.directory = data.directory) (ended : b = .ended 0) :
      Stage data ⟨.program (creatingDone data) (some data.handler), l, b⟩ .touchDone
  | finish (inside : l.directory = data.directory) (ended : b = .ended 0) :
      Stage data ⟨.program [] (some data.handler), l, b⟩ (.removePid false)
  | announce {status : ℕ} (inside : l.directory = data.directory) (honest : Honest status b) :
      Stage data ⟨.cleanup data.handler status, l, b⟩ (.removePid (works b))
  | untrap {status : ℕ} (inside : l.directory = data.directory) (honest : Honest status b) :
      Stage data ⟨.cleanup (.untrap :: removing data) status, l, b⟩ (.removePid (works b))
  | removePid {status : ℕ} (inside : l.directory = data.directory) (honest : Honest status b) :
      Stage data ⟨.cleanup (removing data) status, l, b⟩ (.removePid (works b))
  | removeLock {status : ℕ} (inside : l.directory = data.directory) (honest : Honest status b) :
      Stage data ⟨.cleanup (.remove (.bare (data.beside ".lock")) false :: notifying data) status, l, b⟩
        (.removeLock (works b))
  | notify {status : ℕ} {rest : List Simple}
      (harmless : ∀ command ∈ rest, command = .notify ∨ command = .killChildren) (honest : Honest status b) :
      Stage data ⟨.cleanup rest status, l, b⟩ (.ended (works b))
  | exited {status : ℕ} (honest : Honest status b) : Stage data ⟨.exited status, l, b⟩ (.ended (works b))

theorem Honest.of_ne {status : ℕ} (failed : status ≠ 0) (background : ShellPrograms.Background Locals (List Str)) :
    Honest status background :=
  fun zero => absurd zero failed

/-- A shell that ends while its commands run has failed. -/
theorem Honest.ends {status : ℕ} {background : ShellPrograms.Background Locals (List Str)} {job : List Str}
    {locals : Locals} (honest : Honest status background) (running : background = .running job locals) (result : ℕ) :
    Honest status (.ended result) := by
  apply Honest.of_ne
  intro zero
  cases running.symm.trans (honest zero)

/-- The commands may end where they run: while the shell waits for them, or where a signal has left them. -/
theorem Stage.ends {data : ScriptData} {p : ScriptProcess} {phase : ScriptPhase} (stage : Stage data p phase)
    {job : List Str} {locals : Locals} (running : p.background = .running job locals) (status : ℕ) :
    Stage data { p with background := .ended status } phase ∨
      ∃ next, phase.settle = some next ∧ Stage data { p with background := .ended status } next := by
  have left : works p.background = true := by rw [running, works]
  cases stage with
  | await inside => exact Or.inl (.await inside)
  | remember inside ended => cases ended.symm.trans running
  | check inside known ended => cases ended.symm.trans running
  | writeCode inside known ended failed => cases ended.symm.trans running
  | leave inside known ended failed => cases ended.symm.trans running
  | writeZero inside ended => cases ended.symm.trans running
  | touch inside ended => cases ended.symm.trans running
  | finish inside ended => cases ended.symm.trans running
  | announce inside honest =>
      exact Or.inr ⟨.removePid false, congrArg (fun left => (ScriptPhase.removePid left).settle) left,
        .announce inside (honest.ends running status)⟩
  | untrap inside honest =>
      exact Or.inr ⟨.removePid false, congrArg (fun left => (ScriptPhase.removePid left).settle) left,
        .untrap inside (honest.ends running status)⟩
  | removePid inside honest =>
      exact Or.inr ⟨.removePid false, congrArg (fun left => (ScriptPhase.removePid left).settle) left,
        .removePid inside (honest.ends running status)⟩
  | removeLock inside honest =>
      exact Or.inr ⟨.removeLock false, congrArg (fun left => (ScriptPhase.removeLock left).settle) left,
        .removeLock inside (honest.ends running status)⟩
  | notify harmless honest =>
      exact Or.inr ⟨.ended false, congrArg (fun left => (ScriptPhase.ended left).settle) left,
        .notify harmless (honest.ends running status)⟩
  | exited honest =>
      exact Or.inr ⟨.ended false, congrArg (fun left => (ScriptPhase.ended left).settle) left,
        .exited (honest.ends running status)⟩
  | _ => cases running

/-! ### The steps of a script -/

section

variable {command : Simple} {l l' : Locals} {background : ShellPrograms.Background Locals (List Str)}
  {files files' : FileSystem}

/-- A simple command of a program, of a guard and of the handler. -/
theorem advance_program {rest : List Statement} {handler : Option (List Simple)}
    (runs : Simple.run command l files = some (l', files')) :
    ShellPrograms.Process.advance meaning ⟨.program (.run command :: rest) handler, l, background⟩ files =
      some (⟨.program rest handler, l', background⟩, files') := by
  simp only [ShellPrograms.Process.advance, ShellPrograms.Process.after, meaning_run, runs, Option.map_some]

theorem advance_leaving {rest : List Simple} {value : ExitStatus} {handler : Option (List Simple)}
    (runs : Simple.run command l files = some (l', files')) :
    ShellPrograms.Process.advance meaning ⟨.leaving (command :: rest) value handler, l, background⟩ files =
      some (⟨.leaving rest value handler, l', background⟩, files') := by
  simp only [ShellPrograms.Process.advance, ShellPrograms.Process.after, meaning_run, runs, Option.map_some]

theorem advance_cleanup {rest : List Simple} {status : ℕ}
    (runs : Simple.run command l files = some (l', files')) :
    ShellPrograms.Process.advance meaning ⟨.cleanup (command :: rest) status, l, background⟩ files =
      some (⟨.cleanup rest status, l', background⟩, files') := by
  simp only [ShellPrograms.Process.advance, ShellPrograms.Process.after, meaning_run, runs, Option.map_some]

/-- The test of a guard. -/
theorem advance_guard {test : Test} {commands : List Simple} {value : ExitStatus} {rest : List Statement}
    {handler : Option (List Simple)} {holds : Bool} (tests : meaning.test test l files = some holds) :
    ShellPrograms.Process.advance meaning ⟨.program (.guard test commands value :: rest) handler, l, background⟩ files =
      some (⟨if holds then .leaving commands value handler else .program rest handler, l, background⟩, files) := by
  simp only [ShellPrograms.Process.advance, tests, Option.map_some]

end

/-- What a step does to the exit code: zero is written before `.done` is made, some code in a script that fails, and
nothing otherwise. -/
structure Records (data : ScriptData) (files files' : FileSystem) (phase : ScriptPhase) : Prop where
  zero : phase = .writeCode true → files' (data.place ".code") = some (.file (str "0\n"))
  failed : phase = .writeCode false →
    ∃ code, code ≠ 0 ∧ files' (data.place ".code") = some (.file (Commands.numberText code ++ str "\n"))
  same : (∀ success, phase ≠ .writeCode success) → files' (data.place ".code") = files (data.place ".code")

/-- A step that writes another file. -/
theorem records_other {data : ScriptData} (files : FileSystem) {extension : String} (other : str ".code" ≠ str extension)
    (entry : Option Entry) {phase : ScriptPhase} (elsewhere : ∀ success, phase ≠ .writeCode success) :
    Records data files (files.set (data.place extension) entry) phase where
  zero writes := absurd writes (elsewhere true)
  failed writes := absurd writes (elsewhere false)
  same _ := FileSystem.set_of_ne _ _ (Commands.place_ne other)

theorem records_same {data : ScriptData} (files : FileSystem) {phase : ScriptPhase}
    (elsewhere : ∀ success, phase ≠ .writeCode success) : Records data files files phase where
  zero writes := absurd writes (elsewhere true)
  failed writes := absurd writes (elsewhere false)
  same _ := rfl

/-- What a step leaves belongs to the same phase, with the same files, or to the one after its next operation. -/
def Follows (data : ScriptData) (files files' : FileSystem) (p : ScriptProcess) (phase : ScriptPhase) : Prop :=
  Ready data files' ∧
    (files' = files ∧ Stage data p phase ∨
      ∃ success next, phase.advance (flags data files) success = some (next, flags data files') ∧
        Stage data p next ∧ Records data files files' phase)

section

variable {data : ScriptData} {files : FileSystem} {p : ScriptProcess} {phase next : ScriptPhase}

theorem Follows.stay (ready : Ready data files) (stage : Stage data p phase) : Follows data files files p phase :=
  ⟨ready, Or.inl ⟨rfl, stage⟩⟩

/-- The next operation changes no file. -/
theorem Follows.pass {success : Bool} (ready : Ready data files)
    (advances : phase.advance (flags data files) success = some (next, flags data files)) (stage : Stage data p next)
    (elsewhere : ∀ success, phase ≠ .writeCode success) : Follows data files files p phase :=
  ⟨ready, Or.inr ⟨success, next, advances, stage, records_same files elsewhere⟩⟩

/-- The next operation creates a control file. -/
theorem Follows.create (file : File) {content : Str} (ready : Ready data files)
    (advances : phase.advance (flags data files) true = some (next, (flags data files).create file))
    (stage : Stage data p next)
    (records : Records data files (files.set (data.place file.extension) (some (.file content))) phase) :
    Follows data files (files.set (data.place file.extension) (some (.file content))) p phase := by
  refine ⟨ready.set (by simp) _, Or.inr ⟨true, next, ?_, stage, records⟩⟩
  rw [flags_create, advances]

/-- The next operation removes a control file. -/
theorem Follows.remove (file : File) (ready : Ready data files)
    (advances : phase.advance (flags data files) true = some (next, (flags data files).remove file))
    (stage : Stage data p next) (other : str ".code" ≠ str file.extension)
    (elsewhere : ∀ success, phase ≠ .writeCode success) :
    Follows data files (files.set (data.place file.extension) none) p phase := by
  refine ⟨ready.set (by simp) _, Or.inr ⟨true, next, ?_, stage, records_other files other _ elsewhere⟩⟩
  rw [flags_remove, advances]

end

section

variable {data : ScriptData} {files files' : FileSystem} {l : Locals}
  {background : ShellPrograms.Background Locals (List Str)} {p' : ScriptProcess}

/-- A script that has no lock says so and leaves. -/
theorem follows_refused {commands : List Simple} (only : ∀ command ∈ commands, ∃ message, command = .say message)
    (ready : Ready data files)
    (advances : ShellPrograms.Process.advance meaning ⟨.leaving commands (.constant (str "017")) none, l, .absent⟩
      files = some (p', files')) :
    Follows data files files' p' (.ended false) := by
  cases commands with
  | nil =>
      cases advances
      exact .stay ready (.exited (.of_ne (by decide) _))
  | cons command rest =>
      obtain ⟨⟨message, rfl⟩, others⟩ := List.forall_mem_cons.mp only
      rw [advance_leaving (Commands.run_say message l files)] at advances
      cases advances
      exact .stay ready (.refused others)

/-- The exports and the change of directory stay in the body. -/
theorem follows_exporting (usable : Usable data) {entries : List (Str × Str)}
    (all : ∀ entry ∈ entries, Commands.identifier entry.1 ∧ Commands.Readable entry.2) (ready : Ready data files)
    (advances : ShellPrograms.Process.advance meaning ⟨.program (exporting data entries) none, l, .absent⟩ files =
      some (p', files')) :
    Follows data files files' p' .body := by
  cases entries with
  | nil =>
      have runs := (denotes_directory usable l.directory).changeDirectory ready.directory
      change ShellPrograms.Process.advance meaning ⟨.program (.run _ :: trapping data) none, l, .absent⟩ files =
        _ at advances
      rw [advance_program runs] at advances
      cases advances
      exact .stay ready (.trap rfl)
  | cons entry rest =>
      obtain ⟨⟨named, readable⟩, others⟩ := List.forall_mem_cons.mp all
      have runs : Simple.run (.exportVariable entry.1 (.quoted entry.2)) l files = some
          ({ l.ending 0 with environment := Configuration.insert entry.1 entry.2 l.environment }, files) := by
        simp only [Simple.run, if_pos named, Commands.value_quoted readable, Option.map_some]
      change ShellPrograms.Process.advance meaning ⟨.program (.run _ :: exporting data rest) none, l, .absent⟩
        files = _ at advances
      rw [advance_program runs] at advances
      cases advances
      exact .stay ready (.exports others)

/-- The status of the commands decides which exit code is written. -/
theorem follows_checking {status : ℕ} (inside : l.directory = data.directory) (known : l.code = some status)
    (ended : background = .ended status) (ready : Ready data files)
    (advances : ShellPrograms.Process.advance meaning ⟨.program (checkingCode data) (some data.handler), l, background⟩
      files = some (p', files')) :
    Follows data files files' p' .body := by
  have tests : meaning.test .failed l files = some (status != 0) := congrArg (Option.map _) known
  rw [checkingCode, advance_guard tests] at advances
  cases advances
  apply Follows.pass ready (rfl : ScriptPhase.advance _ (status == 0) .body = _) _ (by simp)
  by_cases zero : status = 0
  · subst zero
    exact .writeZero inside ended
  · have failed : (status != 0) = true := bne_iff_ne.mpr zero
    rw [if_pos failed, beq_eq_false_iff_ne.mpr zero]
    exact .writeCode inside known ended zero

/-- `touch` creates the file, or finds it. -/
theorem follows_creating (usable : Usable data) (inside : l.directory = data.directory) (ended : background = .ended 0)
    (ready : Ready data files)
    (advances : ShellPrograms.Process.advance meaning ⟨.program (creatingDone data) (some data.handler), l, background⟩
      files = some (p', files')) :
    Follows data files files' p' .touchDone := by
  have done : ".done" ∈ ScriptData.extensions := File.extension_mem .done
  have denotes := (denotes_beside usable done).2
  rw [← inside] at denotes
  rw [creatingDone, advance_program (denotes.touch (ready.writable done))] at advances
  cases advances
  by_cases missing : files (data.place ".done") = none
  · rw [if_pos missing]
    exact .create .done ready rfl (.finish inside ended) (records_other files (by decide) _ (by simp))
  · rw [if_neg missing]
    have there : flags data files .done = true := (Commands.isFile_iff (ready.free _ done)).mpr missing
    have same : ScriptPhase.advance (flags data files) true .touchDone = some (.removePid false, flags data files) :=
      congrArg (fun flags => some (_, flags)) (Function.update_eq_self_iff.mpr there.symm)
    exact .pass ready same (.finish inside ended) (by simp)

/-- Behind the removal of the lock the handler touches no control file. -/
theorem follows_notifying {status : ℕ} {rest : List Simple}
    (harmless : ∀ command ∈ rest, command = .notify ∨ command = .killChildren) (honest : Honest status background)
    (ready : Ready data files)
    (advances : ShellPrograms.Process.advance meaning ⟨.cleanup rest status, l, background⟩ files =
      some (p', files')) :
    Follows data files files' p' (.ended (works background)) := by
  cases rest with
  | nil =>
      cases advances
      exact .stay ready (.exited honest)
  | cons command rest =>
      obtain ⟨here, others⟩ := List.forall_mem_cons.mp harmless
      have runs : Simple.run command l files = some (l, files) := by
        rcases here with rfl | rfl <;> rfl
      rw [advance_cleanup runs] at advances
      cases advances
      exact .stay ready (.notify others honest)

end

/-- Every step of the shell is one of its phase, or none. -/
theorem Stage.advance {data : ScriptData} (usable : Usable data) {p p' : ScriptProcess} {phase : ScriptPhase}
    {files files' : FileSystem} (stage : Stage data p phase) (ready : Ready data files)
    (advances : p.advance meaning files = some (p', files')) : Follows data files files' p' phase := by
  obtain ⟨point, l, background⟩ := p
  have lock : ".lock" ∈ ScriptData.extensions := File.extension_mem .lock
  have lockStart : ".lock.start" ∈ ScriptData.extensions := File.extension_mem .lockStart
  have pid : ".pid" ∈ ScriptData.extensions := File.extension_mem .pid
  have code : ".code" ∈ ScriptData.extensions := File.extension_mem .code
  cases stage with
  | testLock =>
      have tests : meaning.test (.missing (.bare (data.absolute ".lock"))) l files = _ :=
        (denotes_absolute usable lock l.directory).1.missing
      rw [testingLock, advance_guard tests] at advances
      cases advances
      refine .pass ready (rfl : ScriptPhase.advance _ true .testLock = _) ?_ (by simp)
      change Stage data ⟨if (!files.isFile (data.place ".lock")) = true then _ else _, l, .absent⟩
        (if files.isFile (data.place ".lock") then _ else _)
      cases files.isFile (data.place ".lock") with
      | true => exact .testStart
      | false => exact .refused (by simp)
  | testStart =>
      have tests : meaning.test (.missing (.bare (data.absolute ".lock.start"))) l files = _ :=
        (denotes_absolute usable lockStart l.directory).1.missing
      rw [testingStart, advance_guard tests] at advances
      cases advances
      refine .pass ready (rfl : ScriptPhase.advance _ true .testStart = _) ?_ (by simp)
      change Stage data ⟨if (!files.isFile (data.place ".lock.start")) = true then _ else _, l, .absent⟩
        (if files.isFile (data.place ".lock.start") then _ else _)
      cases files.isFile (data.place ".lock.start") with
      | true => exact .removeStart
      | false => exact .refused (by simp)
  | refused only =>
      exact follows_refused only ready advances
  | removeStart =>
      have runs := (denotes_absolute usable lockStart l.directory).1.remove (ready.free _ lockStart) false
      rw [removingStart, advance_program runs] at advances
      cases advances
      exact .remove .lockStart ready rfl .setPipefail (by decide) (by simp)
  | setPipefail =>
      cases advances
      exact .stay ready .writePid
  | writePid =>
      have runs := (denotes_absolute usable pid l.directory).2.writePid (ready.writable pid)
      rw [writingPid, advance_program runs] at advances
      cases advances
      exact .create .pid ready rfl (.exports usable.exported) (records_other files (by decide) _ (by simp))
  | exports all =>
      exact follows_exporting usable all ready advances
  | trap inside =>
      cases advances
      exact .stay ready (.start inside)
  | start inside =>
      cases advances
      exact .stay ready (.await inside)
  | await inside =>
      cases background with
      | absent => cases advances
      | running job locals => cases advances
      | ended status =>
          cases advances
          exact .stay ready (.remember inside rfl)
  | remember inside ended =>
      cases advances
      exact .stay ready (.check inside rfl ended)
  | check inside known ended =>
      exact follows_checking inside known ended ready advances
  | writeCode inside known ended failed =>
      have denotes := (denotes_beside usable code).2
      rw [← inside] at denotes
      rw [advance_leaving (denotes.writeCode (ready.writable code) known)] at advances
      cases advances
      exact .create .code ready rfl (.leave inside known ended failed)
        ⟨by simp, fun _ => ⟨_, failed, FileSystem.set_self ..⟩, by simp⟩
  | leave inside known ended failed =>
      have value : meaning.value .code l = some _ := known
      simp only [ShellPrograms.Process.advance, value, Option.map_some, Option.some.injEq, Prod.mk.injEq] at advances
      obtain ⟨rfl, rfl⟩ := advances
      subst ended
      exact .stay ready (.announce inside (.of_ne failed _))
  | writeZero inside ended =>
      have denotes := (denotes_beside usable code).2
      rw [← inside] at denotes
      rw [writingZero, advance_program (denotes.writeZero (ready.writable code))] at advances
      cases advances
      exact .create .code ready rfl (.touch inside ended) ⟨fun _ => FileSystem.set_self .., by simp, by simp⟩
  | touch inside ended =>
      exact follows_creating usable inside ended ready advances
  | finish inside ended =>
      cases advances
      subst ended
      exact .stay ready (.announce inside fun _ => rfl)
  | announce inside honest =>
      rw [handler_stages, advance_cleanup (Commands.run_say _ l files)] at advances
      cases advances
      exact .stay ready (.untrap inside honest)
  | untrap inside honest =>
      rw [advance_cleanup (Commands.run_untrap l files)] at advances
      cases advances
      exact .stay ready (.removePid inside honest)
  | removePid inside honest =>
      have denotes := (denotes_beside usable pid).1
      rw [← inside] at denotes
      rw [removing, advance_cleanup (denotes.remove (ready.free _ pid) true)] at advances
      cases advances
      exact .remove .pid ready rfl (.removeLock inside honest) (by decide) (by simp)
  | removeLock inside honest =>
      have denotes := (denotes_beside usable lock).1
      rw [← inside] at denotes
      rw [advance_cleanup (denotes.remove (ready.free _ lock) false)] at advances
      cases advances
      apply Follows.remove .lock ready rfl (.notify _ honest) (by decide) (by simp)
      rw [notifying]
      split <;> simp
  | notify harmless honest =>
      exact follows_notifying harmless honest ready advances
  | exited honest => cases advances

/-- A signal while the trap is set: commands that run go on. -/
theorem Stage.interrupt {data : ScriptData} {p p' : ScriptProcess} {phase : ScriptPhase} {status : ℕ}
    (stage : Stage data p phase) (killed : status ≠ 0) (interrupted : p.interrupt status = some p') :
    Stage data p' phase ∨
      ∃ next, phase.interrupt (works p.background) = some next ∧ Stage data p' next := by
  obtain ⟨point, l, background⟩ := p
  cases stage with
  | start inside =>
      cases interrupted
      exact Or.inr ⟨.removePid false, rfl, .announce inside (.of_ne killed _)⟩
  | await inside =>
      cases interrupted
      exact Or.inr ⟨.removePid (works background), rfl, .announce inside (.of_ne killed _)⟩
  | remember inside ended =>
      cases interrupted
      exact Or.inr ⟨.removePid (works background), rfl, .announce inside (.of_ne killed _)⟩
  | check inside known ended =>
      cases interrupted
      exact Or.inr ⟨.removePid (works background), rfl, .announce inside (.of_ne killed _)⟩
  | writeCode inside known ended failed =>
      cases interrupted
      subst ended
      exact Or.inr ⟨.removePid false, rfl, .announce inside (.of_ne killed _)⟩
  | writeZero inside ended =>
      cases interrupted
      subst ended
      exact Or.inr ⟨.removePid false, rfl, .announce inside (.of_ne killed _)⟩
  | touch inside ended =>
      cases interrupted
      subst ended
      exact Or.inr ⟨.removePid false, rfl, .announce inside (.of_ne killed _)⟩
  | leave inside known ended failed =>
      cases interrupted
      subst ended
      exact Or.inl (.announce inside (.of_ne killed _))
  | finish inside ended =>
      cases interrupted
      subst ended
      exact Or.inl (.announce inside (.of_ne killed _))
  | _ => cases interrupted

end Experimaestro.Scheduler

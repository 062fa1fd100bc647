/-
Module: Experimaestro.Scheduler.ScriptProcesses
Layer: Scheduler
Purpose: The protocol of the lock files with the scripts that are really written: each script is a shell that
  executes the program of the job, with its commands in the background, over the files of the host. It refines
  the protocol of phases: `live_refines`. So the commands of two scripts never run at once as long as no script
  is interrupted, the main lock is there while they run, and `.done` is not.
Imports: Experimaestro.Library.Simulations, Experimaestro.Scheduler.LockCrashes,
  Experimaestro.Scheduler.ScriptStages
Trusted boundary: human-reviewed model of src/src/workspace.cpp (CommandLineJob::run) on the files of a host
Main exports: Variant, LauncherPhase.operate, Live, LiveAction, liveStep, live, Mirrors, live_refines, busy,
  commands_exclusive
Open obligations: none
-/
import Mathlib.Tactic.Common
import Experimaestro.Library.Simulations
import Experimaestro.Scheduler.LockCrashes
import Experimaestro.Scheduler.ScriptStages

namespace Experimaestro.Scheduler

open Experimaestro.Configuration (Str str)
open Commands (ScriptData FileSystem Entry Usable Ready Locals meaning scriptProgram)
open ShellPrograms (Event step)
open TransitionSystem (System forall₂_set forall₂_set_left forall₂_getElem? forall₂_concat)

/-! ### Launchers on the files of a host -/

/-- The next operation of a call of `lock`, on the files beside the locator: the file is created empty. -/
def LockAttempt.operate (data : ScriptData) (files : FileSystem) (file : File) (here : LockAttempt → LauncherPhase)
    (locked : LauncherPhase) : LockAttempt → Option (LauncherPhase × FileSystem)
  | .opening =>
      some (if files (data.place file.extension) = none then
          (locked, files.set (data.place file.extension) (some (.file [])))
        else (here .testing, files))
  | .testing => if files.isFile (data.place file.extension) then some (here .arming, files) else none
  | .arming => some (here (.waiting false), files)
  | .waiting told => if told then some (here .opening, files) else none

/-- The next operation of a launcher. -/
def LauncherPhase.operate (data : ScriptData) (files : FileSystem) :
    LauncherPhase → Option (LauncherPhase × FileSystem)
  | .testDone => some (if files.isFile (data.place ".done") then .returned else .testPid, files)
  | .testPid => some (if files.isFile (data.place ".pid") then .returned else .acquire .opening, files)
  | .acquire attempt => attempt.operate data files .lock .acquire .retestDone
  | .retestDone => some (if files.isFile (data.place ".done") then .unwind else .retestPid, files)
  | .retestPid => some (if files.isFile (data.place ".pid") then .unwind else .writeScript, files)
  | .writeScript => some (.acquireStart .opening, files)
  | .acquireStart attempt => attempt.operate data files .lockStart .acquireStart .startProcess
  | .startProcess => some (.started, files)
  | .started => some (.waiting, files)
  | .waiting => some (.returned, files)
  | .unwind => some (.returned, files.set (data.place ".lock") none)
  | .returned => none

/-- A missing control file is one that is not there. -/
theorem missing_iff {data : ScriptData} {files : FileSystem} (ready : Ready data files) (file : File) :
    files (data.place file.extension) = none ↔ ¬ flags data files file = true := by
  rw [flags, Commands.isFile_iff (ready.free _ file.extension_mem), not_not]

theorem LockAttempt.operate_flags {data : ScriptData} {files files' : FileSystem} {file : File}
    {here : LockAttempt → LauncherPhase} {locked next : LauncherPhase} {attempt : LockAttempt} (ready : Ready data files)
    (operates : attempt.operate data files file here locked = some (next, files')) :
    Ready data files' ∧ attempt.advance (flags data files) file here locked = some (next, flags data files') := by
  cases attempt with
  | opening =>
      rw [operate, Option.some.injEq] at operates
      rw [advance]
      split at operates
      case isTrue free =>
          cases operates
          refine ⟨ready.set (by simp) _, ?_⟩
          rw [if_neg ((missing_iff ready file).mp free), flags_create]
      case isFalse taken =>
          cases operates
          refine ⟨ready, ?_⟩
          rw [if_pos (of_not_not fun missing => taken ((missing_iff ready file).mpr missing))]
  | testing =>
      obtain ⟨there, ⟨⟩⟩ := Option.ite_none_right_eq_some.mp operates
      exact ⟨ready, if_pos there⟩
  | arming =>
      cases operates
      exact ⟨ready, rfl⟩
  | waiting told =>
      obtain ⟨seen, ⟨⟩⟩ := Option.ite_none_right_eq_some.mp operates
      exact ⟨ready, if_pos seen⟩

theorem LauncherPhase.operate_flags {data : ScriptData} {files files' : FileSystem} {phase next : LauncherPhase}
    (ready : Ready data files) (operates : phase.operate data files = some (next, files')) :
    Ready data files' ∧ phase.advance (flags data files) = some (next, flags data files') := by
  cases phase with
  | acquire attempt => exact LockAttempt.operate_flags ready operates
  | acquireStart attempt => exact LockAttempt.operate_flags ready operates
  | unwind =>
      cases operates
      refine ⟨ready.set (by simp) _, ?_⟩
      exact congrArg (fun flags => some (_, flags)) (flags_remove data files .lock).symm
  | returned => cases operates
  | _ =>
      cases operates
      exact ⟨ready, rfl⟩

/-! ### The protocol with real scripts -/

/-- What may differ between the scripts that launchers write for one job. -/
structure Variant where
  notificationURL : Option Str
  environment : List (Str × Str)
  pipelines : List Str

/-- The script of a variant. -/
def variant (data : ScriptData) (v : Variant) : ScriptData :=
  { data with notificationURL := v.notificationURL, environment := v.environment, pipelines := v.pipelines }

/-- The files of the host, the launchers, and the shells. -/
structure Live where
  files : FileSystem
  launchers : List (Party LauncherPhase)
  scripts : List (Party ScriptProcess)

/-- One step: as in the protocol of phases, where a launcher may start a shell on a variant of the script, and where a
shell or its commands do something. -/
inductive LiveAction where
  | arrive
  | launcher (index : ℕ) (v : Variant) (locals : Locals)
  | timeOut (index : ℕ)
  | crashLauncher (index : ℕ)
  | script (index : ℕ) (event : Event FileSystem)
  | crashScript (index : ℕ)

/-- The event is one of the shell itself, not of its commands. -/
def ofShell : Event FileSystem → Bool
  | .advance | .interrupt _ => true
  | .change _ | .finish _ _ => false

/-- An event of a shell; the commands go on when their shell has crashed. -/
def eventStep (event : Event FileSystem) (party : Party ScriptProcess) (files : FileSystem) :
    Option (ScriptProcess × FileSystem) :=
  if ofShell event && party.crashed then none else step meaning event (party.phase, files)

/-- One step; `none` when it is not enabled. -/
def liveStep (data : ScriptData) : LiveAction → Live → Option Live
  | .arrive, s => some { s with launchers := s.launchers ++ [{ phase := .testDone, crashed := false }] }
  | .launcher i v locals, s => do
      let phase ← running s.launchers i
      let (next, files) ← phase.operate data s.files
      let shell : ScriptProcess := .begin (scriptProgram (variant data v)) locals
      let scripts := if phase = .startProcess then s.scripts ++ [{ phase := shell, crashed := false }] else s.scripts
      let launchers := notify (flags data s.files) (flags data files) (moveTo s.launchers i next)
      some { files, launchers, scripts }
  | .timeOut i, s => do
      let phase ← running s.launchers i
      let next ← phase.timeOut
      some { s with launchers := moveTo s.launchers i next }
  | .crashLauncher i, s => do
      let phase ← running s.launchers i
      some { s with launchers := s.launchers.set i { phase, crashed := true } }
  | .script i event, s => do
      let party ← s.scripts[i]?
      let (shell, files) ← eventStep event party s.files
      let launchers := notify (flags data s.files) (flags data files) s.launchers
      some { files, launchers, scripts := s.scripts.set i { party with phase := shell } }
  | .crashScript i, s => do
      let shell ← running s.scripts i
      some { s with scripts := s.scripts.set i { phase := shell, crashed := true } }

/-- The commands leave the directory of the job and its control files alone. -/
structure Spares (data : ScriptData) (files files' : FileSystem) : Prop where
  directory : files' data.directory = files data.directory
  control : ∀ extension ∈ ScriptData.extensions, files' (data.place extension) = files (data.place extension)

/-- Scripts are read as they are written, their commands leave the control files alone, and a signal ends them with a
status that is not zero. -/
def Admissible (data : ScriptData) (s : Live) : LiveAction → Prop
  | .launcher _ v _ => Usable (variant data v)
  | .script _ (.change files) | .script _ (.finish files _) => Spares data s.files files
  | .script _ (.interrupt status) => status ≠ 0
  | .arrive | .timeOut _ | .crashLauncher _ | .crashScript _ | .script _ .advance => True

/-- Nobody is there at first, and `.done` does not exist without an exit code. -/
def live (data : ScriptData) : System Live LiveAction where
  initial s := s.launchers = [] ∧ s.scripts = [] ∧ Ready data s.files ∧
    (s.files.isFile (data.place ".done") → s.files.isFile (data.place ".code"))
  next s a s' := Admissible data s a ∧ liveStep data a s = some s'

/-! ### Refinement -/

/-- A shell at a point of the phase. -/
def InPhase (data : ScriptData) (p : Party ScriptProcess) (q : Party ScriptPhase) : Prop :=
  q.crashed = p.crashed ∧ ∃ v, Usable (variant data v) ∧ Stage (variant data v) p.phase q.phase

/-- The state of the protocol of phases that a state belongs to. -/
structure Mirrors (data : ScriptData) (s : Live) (t : Protocol) : Prop where
  ready : Ready data s.files
  files : flags data s.files = t.files
  launchers : s.launchers = t.launchers
  scripts : List.Forall₂ (InPhase data) s.scripts t.scripts

section

variable {data : ScriptData} {s s' : Live} {t : Protocol}

/-- The files that commands leave alone do not change. -/
theorem Spares.mirrors {files files' : FileSystem} (spares : Spares data files files') (ready : Ready data files) :
    Ready data files' ∧ flags data files' = flags data files := by
  refine ⟨ready.of_careful spares.directory spares.control, ?_⟩
  funext file
  rw [flags, flags, FileSystem.isFile, FileSystem.isFile, spares.control _ file.extension_mem]

/-- What the commands do: a change of the files, or the last one. -/
theorem change_cases {p p' : ScriptProcess} {files files' after : FileSystem}
    (steps : step meaning (.change files') (p, files) = some (p', after)) : p' = p ∧ after = files' := by
  simp only [step] at steps
  split at steps
  · cases steps
    exact ⟨rfl, rfl⟩
  · cases steps
  · cases steps

theorem finish_cases {p p' : ScriptProcess} {files files' after : FileSystem} {status : ℕ}
    (steps : step meaning (.finish files' status) (p, files) = some (p', after)) :
    (∃ job locals, p.background = .running job locals) ∧ p' = { p with background := .ended status } ∧
      after = files' := by
  simp only [step] at steps
  split at steps
  case h_1 job locals running =>
      cases steps
      exact ⟨⟨job, locals, running⟩, rfl, rfl⟩
  · cases steps
  · cases steps

/-- The files of all variants are the same. -/
theorem of_data {files : FileSystem} (ready : Ready data files) (v : Variant) : Ready (variant data v) files :=
  ⟨ready.directory, ready.free⟩

theorem to_data {files : FileSystem} {v : Variant} (ready : Ready (variant data v) files) : Ready data files :=
  ⟨ready.directory, ready.free⟩

/-- A launcher executes its next operation. -/
theorem mirrors_launcher (mirrors : Mirrors data s t) {i : ℕ} {v : Variant} {locals : Locals}
    (usable : Usable (variant data v)) (taken : liveStep data (.launcher i v locals) s = some s') :
    ∃ b t', protocolStep b t = some t' ∧ Mirrors data s' t' := by
  simp only [liveStep, bind, Option.bind_eq_some_iff] at taken
  obtain ⟨phase, at_i, ⟨next, files⟩, operates, h⟩ := taken
  cases h
  obtain ⟨ready, advances⟩ := LauncherPhase.operate_flags mirrors.ready operates
  rw [mirrors.files] at advances
  rw [mirrors.launchers] at at_i
  have moves : protocolStep (.launcher i) t = some {
      files := flags data files
      launchers := notify t.files (flags data files) (moveTo t.launchers i next)
      scripts :=
        if phase = .startProcess then t.scripts ++ [{ phase := .testLock, crashed := false }] else t.scripts } := by
    simp only [protocolStep, bind, at_i, advances, Option.bind_some]
  refine ⟨_, _, moves, ready, rfl, by rw [mirrors.launchers, mirrors.files], ?_⟩
  dsimp only
  split
  case isFalse => exact mirrors.scripts
  case isTrue =>
      apply forall₂_concat mirrors.scripts
      refine ⟨rfl, v, usable, ?_⟩
      rw [ShellPrograms.Process.begin, scriptProgram_stages]
      exact .testLock

/-- Watches see nothing where no control file changes. -/
theorem notify_self (files : Files) (launchers : List (Party LauncherPhase)) :
    notify files files launchers = launchers := by
  have nothing (file : File) : (files file && !files file) = false := Bool.and_not_self ..
  have attempts (attempt : LockAttempt) : attempt.notice false = attempt := by
    cases attempt with
    | waiting told => rw [LockAttempt.notice, Bool.or_false]
    | _ => rfl
  refine (List.map_congr_left fun l _ => ?_).trans (List.map_id launchers)
  obtain ⟨phase, crashed⟩ := l
  cases phase with
  | acquire attempt => rw [LauncherPhase.notice, nothing, attempts, id]
  | acquireStart attempt => rw [LauncherPhase.notice, nothing, attempts, id]
  | _ => rfl

/-- A shell takes a step. -/
theorem mirrors_script (mirrors : Mirrors data s t) {i : ℕ} {event : Event FileSystem}
    (admissible : Admissible data s (.script i event)) (taken : liveStep data (.script i event) s = some s') :
    Mirrors data s' t ∨ ∃ b t', protocolStep b t = some t' ∧ Mirrors data s' t' := by
  simp only [liveStep, bind, Option.bind_eq_some_iff] at taken
  obtain ⟨⟨shell, crashed⟩, at_i, ⟨shell', files⟩, steps, h⟩ := taken
  cases h
  obtain ⟨⟨phase, crashed'⟩, there, same, v, usable, stage⟩ := forall₂_getElem? mirrors.scripts at_i
  change crashed' = crashed at same
  subst same
  rw [eventStep] at steps
  split at steps
  case isTrue => cases steps
  case isFalse enabled =>
      cases event with
      | advance =>
          obtain rfl : crashed' = false := by simpa [ofShell] using enabled
          obtain ⟨ready, stays | ⟨success, next, advances, after, _⟩⟩ :=
            stage.advance usable (of_data mirrors.ready v) steps
          · obtain ⟨rfl, still⟩ := stays
            exact Or.inl ⟨to_data ready, mirrors.files, (notify_self ..).trans mirrors.launchers,
              forall₂_set_left mirrors.scripts there ⟨rfl, v, usable, still⟩⟩
          · change phase.advance (flags data s.files) success = some (next, flags data files) at advances
            rw [mirrors.files] at advances
            have moves : protocolStep (.script i success) t = some {
                files := flags data files
                launchers := notify t.files (flags data files) t.launchers
                scripts := moveTo t.scripts i next } := by
              simp only [protocolStep, bind, running_eq_some.mpr there, advances, Option.bind_some]
            exact Or.inr ⟨_, _, moves, to_data ready, rfl, by rw [mirrors.launchers, mirrors.files],
              forall₂_set mirrors.scripts ⟨rfl, v, usable, after⟩ i⟩
      | interrupt status =>
          obtain rfl : crashed' = false := by simpa [ofShell] using enabled
          simp only [step, Option.map_eq_some_iff, Prod.mk.injEq] at steps
          obtain ⟨after, interrupted, rfl, rfl⟩ := steps
          rcases stage.interrupt admissible interrupted with stays | ⟨next, interrupts, cleans⟩
          · exact Or.inl ⟨mirrors.ready, mirrors.files, (notify_self ..).trans mirrors.launchers,
              forall₂_set_left mirrors.scripts there ⟨rfl, v, usable, stays⟩⟩
          · have moves : protocolStep (.interrupt i (works shell.background)) t =
                some { t with scripts := moveTo t.scripts i next } := by
              simp only [protocolStep, bind, running_eq_some.mpr there, interrupts, Option.bind_some]
            exact Or.inr ⟨_, _, moves, mirrors.ready, mirrors.files, (notify_self ..).trans mirrors.launchers,
              forall₂_set mirrors.scripts ⟨rfl, v, usable, cleans⟩ i⟩
      | change files' =>
          obtain ⟨ready, same⟩ := Spares.mirrors admissible mirrors.ready
          obtain ⟨rfl, rfl⟩ := change_cases steps
          have launchers : notify (flags data s.files) (flags data files) s.launchers = t.launchers := by
            rw [same, notify_self, mirrors.launchers]
          exact Or.inl ⟨ready, same.trans mirrors.files, launchers,
            forall₂_set_left mirrors.scripts there ⟨rfl, v, usable, stage⟩⟩
      | finish files' status =>
          obtain ⟨ready, same⟩ := Spares.mirrors admissible mirrors.ready
          obtain ⟨⟨job, locals, running⟩, rfl, rfl⟩ := finish_cases steps
          have launchers : notify (flags data s.files) (flags data files) s.launchers = t.launchers := by
            rw [same, notify_self, mirrors.launchers]
          rcases stage.ends running status with stays | ⟨next, settles, after⟩
          · exact Or.inl ⟨ready, same.trans mirrors.files, launchers,
              forall₂_set_left mirrors.scripts there ⟨rfl, v, usable, stays⟩⟩
          · have moves : protocolStep (.settle i) t =
                some { t with scripts := t.scripts.set i ⟨next, crashed'⟩ } := by
              simp only [protocolStep, bind, there, settles, Option.bind_some]
            exact Or.inr ⟨_, _, moves, ready, same.trans mirrors.files, launchers,
              forall₂_set (x := ⟨_, crashed'⟩) (y := ⟨next, crashed'⟩) mirrors.scripts ⟨rfl, v, usable, after⟩ i⟩

/-- Every step is one of the protocol of phases, or none. -/
theorem mirrors_step (mirrors : Mirrors data s t) {a : LiveAction} (next : (live data).next s a s') :
    Mirrors data s' t ∨ ∃ b t', protocolStep b t = some t' ∧ Mirrors data s' t' := by
  obtain ⟨admissible, taken⟩ := next
  cases a with
  | arrive =>
      cases taken
      exact Or.inr ⟨.arrive, _, rfl, mirrors.ready, mirrors.files, by rw [mirrors.launchers], mirrors.scripts⟩
  | launcher i v locals => exact Or.inr (mirrors_launcher mirrors admissible taken)
  | script i event => exact mirrors_script mirrors admissible taken
  | timeOut i =>
      simp only [liveStep, bind, Option.bind_eq_some_iff] at taken
      obtain ⟨phase, at_i, after, left, h⟩ := taken
      cases h
      rw [mirrors.launchers] at at_i
      have moves : protocolStep (.timeOut i) t = some { t with launchers := moveTo t.launchers i after } := by
        simp only [protocolStep, bind, at_i, left, Option.bind_some]
      exact Or.inr ⟨_, _, moves, mirrors.ready, mirrors.files, by rw [mirrors.launchers], mirrors.scripts⟩
  | crashLauncher i =>
      simp only [liveStep, bind, Option.bind_eq_some_iff] at taken
      obtain ⟨phase, at_i, h⟩ := taken
      cases h
      rw [mirrors.launchers] at at_i
      have moves : protocolStep (.crashLauncher i) t =
          some { t with launchers := t.launchers.set i { phase, crashed := true } } := by
        simp only [protocolStep, bind, at_i, Option.bind_some]
      exact Or.inr ⟨_, _, moves, mirrors.ready, mirrors.files, by rw [mirrors.launchers], mirrors.scripts⟩
  | crashScript i =>
      simp only [liveStep, bind, Option.bind_eq_some_iff] at taken
      obtain ⟨shell, at_i, h⟩ := taken
      cases h
      obtain ⟨⟨phase, crashed⟩, there, same, v, usable, stage⟩ :=
        forall₂_getElem? mirrors.scripts (running_eq_some.mp at_i)
      change crashed = false at same
      subst same
      have moves : protocolStep (.crashScript i) t =
          some { t with scripts := t.scripts.set i { phase, crashed := true } } := by
        simp only [protocolStep, bind, running_eq_some.mpr there, Option.bind_some]
      exact Or.inr ⟨_, _, moves, mirrors.ready, mirrors.files, mirrors.launchers,
        forall₂_set (x := ⟨shell, true⟩) (y := ⟨phase, true⟩) mirrors.scripts ⟨rfl, v, usable, stage⟩ i⟩

theorem mirrors_initial (first : (live data).initial s) : ∃ t, recorded.initial t ∧ Mirrors data s t := by
  obtain ⟨launchers, scripts, ready, code⟩ := first
  refine ⟨⟨flags data s.files, [], []⟩, ⟨⟨rfl, rfl⟩, code⟩, ready, rfl, launchers, ?_⟩
  rw [scripts]
  exact .nil

/-- The protocol with real scripts refines the protocol of phases. -/
theorem live_refines {ok : Live → LiveAction → Prop} (run : (live data).RunUnder ok s) :
    ∃ t, recorded.Reachable t ∧ Mirrors data s t := by
  apply run.simulation (Mirrors data)
  · exact fun s first => mirrors_initial first
  · intro s a s' t _ _ _ next mirrors
    exact mirrors_step mirrors next

end

/-! ### The commands of scripts -/

/-- The commands of the script run. -/
def busy (p : ScriptProcess) : Bool := works p.background

theorem busy_iff {p : ScriptProcess} : busy p ↔ ∃ job locals, p.background = .running job locals := by
  rw [busy]
  cases p.background <;> simp [works]

/-- No script is interrupted. -/
def NoSignal (_ : Live) : LiveAction → Prop
  | .script _ (.interrupt _) => False
  | _ => True

/-- While its commands run, a shell waits for them. -/
def Waits (p : ScriptProcess) : Prop := busy p → ∃ rest handler, p.point = .program (.await :: rest) handler

/-- A shell that waits is in the middle of its script. -/
theorem Stage.awaits {data : ScriptData} {p : ScriptProcess} {phase : ScriptPhase} (stage : Stage data p phase)
    {rest : List Commands.Statement} {handler : Option (List Commands.Simple)}
    (waits : p.point = .program (.await :: rest) handler) : phase = .body := by
  cases stage <;> first | rfl | cases waits

/-- A shell that starts its commands waits for them next. -/
theorem Stage.starts {data : ScriptData} {p : ScriptProcess} {phase : ScriptPhase} (stage : Stage data p phase)
    {job : List Str} {rest : List Commands.Statement} {handler : Option (List Commands.Simple)}
    (begins : p.point = .program (.start job :: rest) handler) :
    rest = awaiting data := by
  cases stage with
  | start inside =>
      cases begins
      rfl
  | exports all =>
      rename_i entries
      cases entries <;> cases begins
  | _ => cases begins

/-- A step of the shell. -/
theorem Waits.advance {data : ScriptData} {p p' : ScriptProcess} {files files' : FileSystem} {phase : ScriptPhase}
    (waits : Waits p) (stage : Stage data p phase)
    (advances : p.advance meaning files = some (p', files')) : Waits p' := by
  rcases ShellPrograms.Process.advance_background advances with same | ⟨job, rest, handler, begins, next⟩
  · intro works
    obtain ⟨job, locals, running⟩ := busy_iff.mp works
    rw [same] at running
    obtain ⟨rest, handler, awaits⟩ := waits (busy_iff.mpr ⟨job, locals, running⟩)
    obtain ⟨point, l, background⟩ := p
    subst awaits running
    cases advances
  · intro _
    rw [stage.starts begins] at next
    exact ⟨rememberingStatus data, handler, next⟩

section

variable {data : ScriptData} {s s' : Live} {t : Protocol}

theorem LockAttempt.operate_cases {data : ScriptData} {files files' : FileSystem} {file : File}
    {here : LockAttempt → LauncherPhase} {locked next : LauncherPhase} {attempt : LockAttempt}
    (operates : attempt.operate data files file here locked = some (next, files')) :
    files' = files ∨ files' = files.set (data.place file.extension) (some (.file [])) := by
  cases attempt with
  | opening =>
      rw [operate, Option.some.injEq] at operates
      split at operates
      case isTrue =>
          cases operates
          exact Or.inr rfl
      case isFalse =>
          cases operates
          exact Or.inl rfl
  | testing =>
      obtain ⟨_, ⟨⟩⟩ := Option.ite_none_right_eq_some.mp operates
      exact Or.inl rfl
  | arming =>
      cases operates
      exact Or.inl rfl
  | waiting told =>
      obtain ⟨_, ⟨⟩⟩ := Option.ite_none_right_eq_some.mp operates
      exact Or.inl rfl

/-- A launcher leaves the exit code and `.done` alone. -/
theorem LauncherPhase.operate_results {files files' : FileSystem} {phase next : LauncherPhase}
    (operates : phase.operate data files = some (next, files')) :
    files' (data.place ".code") = files (data.place ".code") ∧
      files' (data.place ".done") = files (data.place ".done") := by
  have other {one two : String} (differ : str one ≠ str two) : data.place one ≠ data.place two :=
    Commands.place_ne differ
  cases phase with
  | acquire attempt =>
      rcases LockAttempt.operate_cases operates with rfl | rfl
      · exact ⟨rfl, rfl⟩
      · exact ⟨FileSystem.set_of_ne _ _ (other (by decide)), FileSystem.set_of_ne _ _ (other (by decide))⟩
  | acquireStart attempt =>
      rcases LockAttempt.operate_cases operates with rfl | rfl
      · exact ⟨rfl, rfl⟩
      · exact ⟨FileSystem.set_of_ne _ _ (other (by decide)), FileSystem.set_of_ne _ _ (other (by decide))⟩
  | unwind =>
      cases operates
      exact ⟨FileSystem.set_of_ne _ _ (other (by decide)), FileSystem.set_of_ne _ _ (other (by decide))⟩
  | returned => cases operates
  | _ =>
      cases operates
      exact ⟨rfl, rfl⟩

/-- What a step does to the scripts, to the exit code and to `.done`: others do something, and perhaps a shell begins; a
shell or its commands do something; or a shell crashes. -/
theorem live_cases {a : LiveAction} (next : (live data).next s a s') :
    (∃ new, s'.scripts = s.scripts ++ new ∧
        (∀ p ∈ new, ∃ v locals, p = { phase := .begin (scriptProgram (variant data v)) locals, crashed := false }) ∧
        s'.files (data.place ".code") = s.files (data.place ".code") ∧
        s'.files (data.place ".done") = s.files (data.place ".done")) ∨
      (∃ i event party shell, a = .script i event ∧ s.scripts[i]? = some party ∧
        (ofShell event = true → party.crashed = false) ∧
        step meaning event (party.phase, s.files) = some (shell, s'.files) ∧
        s'.scripts = s.scripts.set i { party with phase := shell }) ∨
      ∃ i shell, s.scripts[i]? = some ⟨shell, false⟩ ∧ s'.scripts = s.scripts.set i ⟨shell, true⟩ ∧
        s'.files = s.files := by
  obtain ⟨admissible, taken⟩ := next
  cases a with
  | arrive =>
      cases taken
      exact Or.inl ⟨[], by simp, by simp, rfl, rfl⟩
  | launcher i v locals =>
      simp only [liveStep, bind, Option.bind_eq_some_iff] at taken
      obtain ⟨phase, at_i, ⟨after, files⟩, operates, h⟩ := taken
      cases h
      obtain ⟨code, done⟩ := LauncherPhase.operate_results operates
      by_cases starts : phase = .startProcess
      · exact Or.inl ⟨[_], if_pos starts, fun p member => ⟨v, locals, List.mem_singleton.mp member⟩, code, done⟩
      · exact Or.inl ⟨[], by simp [starts], by simp, code, done⟩
  | timeOut i =>
      simp only [liveStep, bind, Option.bind_eq_some_iff] at taken
      obtain ⟨phase, at_i, after, left, h⟩ := taken
      cases h
      exact Or.inl ⟨[], by simp, by simp, rfl, rfl⟩
  | crashLauncher i =>
      simp only [liveStep, bind, Option.bind_eq_some_iff] at taken
      obtain ⟨phase, at_i, h⟩ := taken
      cases h
      exact Or.inl ⟨[], by simp, by simp, rfl, rfl⟩
  | script i event =>
      simp only [liveStep, bind, Option.bind_eq_some_iff] at taken
      obtain ⟨party, at_i, ⟨shell, files⟩, steps, h⟩ := taken
      cases h
      rw [eventStep] at steps
      split at steps
      case isTrue => cases steps
      case isFalse enabled =>
          refine Or.inr (Or.inl ⟨i, event, party, shell, rfl, at_i, fun own => ?_, steps, rfl⟩)
          rw [own, Bool.true_and, Bool.not_eq_true] at enabled
          exact enabled
  | crashScript i =>
      simp only [liveStep, bind, Option.bind_eq_some_iff] at taken
      obtain ⟨shell, at_i, h⟩ := taken
      cases h
      exact Or.inr (Or.inr ⟨i, shell, running_eq_some.mp at_i, rfl, rfl⟩)

/-- While their commands run, shells wait for them, as long as none is interrupted. -/
theorem waits_step (mirrors : Mirrors data s t) (all : ∀ p ∈ s.scripts, Waits p.phase) {a : LiveAction}
    (calm : NoSignal s a) (next : (live data).next s a s') : ∀ p ∈ s'.scripts, Waits p.phase := by
  rcases live_cases next with ⟨new, scripts, begins, _⟩ | ⟨i, event, party, shell, rfl, at_i, _, steps, scripts⟩ |
    ⟨i, shell, at_i, scripts, _⟩
  · intro p member
    rw [scripts] at member
    rcases List.mem_append.mp member with old | fresh
    · exact all p old
    · obtain ⟨v, locals, rfl⟩ := begins p fresh
      intro works
      cases works
  · rw [scripts]
    apply forall_set all
    have waits := all party (List.mem_of_getElem? at_i)
    cases event with
    | advance =>
        obtain ⟨q, _, _, v, _, stage⟩ := forall₂_getElem? mirrors.scripts at_i
        exact waits.advance stage steps
    | interrupt status => cases calm
    | change files' =>
        obtain ⟨rfl, _⟩ := change_cases steps
        exact waits
    | finish files' status =>
        obtain ⟨_, rfl, _⟩ := finish_cases steps
        intro works
        cases works
  · rw [scripts]
    exact forall_set all (all ⟨shell, false⟩ (List.mem_of_getElem? at_i))

/-- While the commands of a script run, the main lock is there and `.done` is not, and no other script runs its
commands: for all launchers and whatever crashes, as long as no script is interrupted. -/
theorem commands_exclusive (run : (live data).RunUnder NoSignal s) {i : ℕ} {p : Party ScriptProcess}
    (there : s.scripts[i]? = some p) (works : busy p.phase) :
    s.files.isFile (data.place ".lock") ∧ ¬ s.files.isFile (data.place ".done") ∧
      ∀ k q, s.scripts[k]? = some q → busy q.phase → k = i := by
  have mirrored : ∃ t, recorded.Reachable t ∧ Mirrors data s t ∧ ∀ p ∈ s.scripts, Waits p.phase := by
    apply run.simulation (fun s t => Mirrors data s t ∧ ∀ p ∈ s.scripts, Waits p.phase)
    · intro s first
      obtain ⟨t, begins, mirrors⟩ := mirrors_initial first
      refine ⟨t, begins, mirrors, ?_⟩
      rw [first.2.1]
      simp
    · intro s a s' t _ _ calm next both
      have waits := waits_step both.1 both.2 calm next
      rcases mirrors_step both.1 next with stays | ⟨b, t', moves, after⟩
      · exact Or.inl ⟨stays, waits⟩
      · exact Or.inr ⟨b, t', moves, after, waits⟩
  obtain ⟨t, reached, mirrors, waits⟩ := mirrored
  obtain ⟨guarded, recorded⟩ := guarded_and_recorded reached
  have inBody {k : ℕ} {q : Party ScriptProcess} (at_k : s.scripts[k]? = some q) (works : busy q.phase) :
      ∃ r, t.scripts[k]? = some r ∧ r.phase = .body := by
    obtain ⟨r, there, _, v, _, stage⟩ := forall₂_getElem? mirrors.scripts at_k
    obtain ⟨rest, handler, awaits⟩ := waits q (List.mem_of_getElem? at_k) works
    exact ⟨r, there, stage.awaits awaits⟩
  obtain ⟨r, at_i, body⟩ := inBody there works
  have baton := guarded.baton
  refine ⟨?_, ?_, ?_⟩
  · have one : 0 < t.scripts.countP fun p => p.phase.holds :=
      List.countP_pos_iff.mpr ⟨r, List.mem_of_getElem? at_i, by rw [body]; rfl⟩
    have locked : 0 < (t.files .lock).toNat := by
      simp only [holders] at baton
      omega
    rw [← mirrors.files] at locked
    cases lock : flags data s.files .lock with
    | true => exact lock
    | false =>
        rw [lock] at locked
        exact absurd locked (by decide)
  · intro done
    have past := recorded.past (by rw [← mirrors.files]; exact done) r (List.mem_of_getElem? at_i)
    rw [body] at past
    cases past
  · intro k q at_k working
    obtain ⟨r', at_k', body'⟩ := inBody at_k working
    by_contra other
    have two := two_le_countP (p := fun p : Party ScriptPhase => p.phase.holds) at_i at_k' (fun same => other same.symm)
      (by rw [body]; rfl) (by rw [body']; rfl)
    have one := Bool.toNat_le (t.files .lock)
    simp only [holders] at baton
    omega

/-- A list of actions each of which may be taken in every state, whatever the first states are. -/
theorem live_runActions {M : System Live LiveAction} (same : M.next = (live data).next)
    {ok : Live → LiveAction → Prop} {actions : List LiveAction}
    (all : ∀ a ∈ actions, ∀ s, Admissible data s a ∧ ok s a)
    (executed : TransitionSystem.runActions (liveStep data) actions s = some s') (run : M.RunUnder ok s) :
    M.RunUnder ok s' := by
  apply TransitionSystem.runActions_keeps (fun a => ∀ s, Admissible data s a ∧ ok s a) (M.RunUnder ok) _ all executed
    run
  intro s a s' may first before
  apply before.step (may s).2
  rw [same]
  exact ⟨(may s).1, first⟩

end

/-! ### An example -/

/-- A job in `/w/t`. -/
def exampleJob : ScriptData where
  directory := [str "w", str "t"]
  name := str "a"
  notificationURL := none
  environment := []
  pipelines := [str "run"]

/-- What a launcher passes to its script. -/
def exampleVariant : Variant := ⟨none, [], [str "run"]⟩

theorem exampleVariant_usable : Usable (variant exampleJob exampleVariant) := by
  refine ⟨by decide, by decide, by decide, by decide, ?_⟩
  intro entry member
  cases member

/-- Only the directory of the job is there. -/
def exampleStart : Live where
  files place := if place = exampleJob.directory then some .directory else none
  launchers := []
  scripts := []

theorem exampleStart_initial : (live exampleJob).initial exampleStart :=
  ⟨rfl, rfl, ⟨rfl, by decide⟩, by decide⟩

/-- A launcher starts a script, which comes to its commands. -/
def exampleActions : List LiveAction :=
  .arrive :: List.replicate 8 (.launcher 0 exampleVariant { pid := 7, directory := [], environment := [] }) ++
    List.replicate 8 (.script 0 .advance)

theorem exampleActions_admissible {a : LiveAction} (member : a ∈ exampleActions) (s : Live) :
    Admissible exampleJob s a ∧ NoSignal s a := by
  simp only [exampleActions, List.mem_append, List.mem_cons, List.mem_replicate] at member
  rcases member with (rfl | ⟨_, rfl⟩) | ⟨_, rfl⟩
  · exact ⟨trivial, trivial⟩
  · exact ⟨exampleVariant_usable, trivial⟩
  · exact ⟨trivial, trivial⟩

/-- The commands of the script run. -/
theorem exampleActions_run :
    ∃ s p, (live exampleJob).RunUnder NoSignal s ∧ s.scripts[0]? = some p ∧ busy p.phase := by
  have executed : ((TransitionSystem.runActions (liveStep exampleJob) exampleActions exampleStart).map fun s =>
      s.scripts.map fun p => busy p.phase) = some [true] := by decide
  obtain ⟨s, last, seen⟩ := Option.map_eq_some_iff.mp executed
  obtain ⟨p, alone, works⟩ := List.map_eq_singleton_iff.mp seen
  refine ⟨s, p, ?_, ?_, works⟩
  · exact live_runActions rfl (fun a => exampleActions_admissible) last (.start exampleStart_initial)
  · rw [alone]
    rfl

theorem live_refines_started :
    ∃ s t, (∃ p, s.scripts[0]? = some p ∧ busy p.phase) ∧ recorded.Reachable t ∧ Mirrors exampleJob s t := by
  obtain ⟨s, p, run, there, works⟩ := exampleActions_run
  obtain ⟨t, reached, mirrors⟩ := live_refines run
  exact ⟨s, t, ⟨p, there, works⟩, reached, mirrors⟩

theorem commands_exclusive_started :
    ∃ s p, (live exampleJob).RunUnder NoSignal s ∧ s.scripts[0]? = some p ∧ busy p.phase ∧
      s.files.isFile (exampleJob.place ".lock") ∧ ¬ s.files.isFile (exampleJob.place ".done") ∧
        ∀ k q, s.scripts[k]? = some q → busy q.phase → k = 0 := by
  obtain ⟨s, p, run, there, works⟩ := exampleActions_run
  exact ⟨s, p, run, there, works, commands_exclusive run there works⟩

end Experimaestro.Scheduler

/-
Module: Experimaestro.Scheduler.ScriptResults
Layer: Scheduler
Purpose: What the control files of a job say about its commands, whoever starts scripts, crashes and is
  interrupted: once `.done` exists, the exit code in its file is zero, and the commands of a script of the job
  have ended with status zero.
Imports: Experimaestro.Scheduler.ScriptProcesses
Trusted boundary: none (fully proved)
Main exports: Certified, Coded, unfinished, unsuccessful, done_certifies
Open obligations: none
-/
import Mathlib.Tactic.Common
import Experimaestro.Scheduler.ScriptProcesses

namespace Experimaestro.Scheduler

open Experimaestro.Configuration (Str str decimal decimal_digitsText)
open Commands (ScriptData FileSystem Ready meaning numberText)
open ShellPrograms (Event step)
open TransitionSystem (System forall₂_getElem?)

/-- The file of the exit code says zero. -/
def Zero (data : ScriptData) (files : FileSystem) : Prop := files (data.place ".code") = some (.file (str "0\n"))

/-- The commands of the script have ended with status zero. -/
def Succeeded (p : ScriptProcess) : Prop := p.background = .ended 0

/-- The shell is about to make `.done`. -/
def Touching (p : ScriptProcess) : Prop := ∃ file rest handler, p.point = .program (.run (.touch file) :: rest) handler

theorem decimal_numberText (n : ℕ) : decimal (numberText n) = n := by
  rw [numberText]
  split
  case isTrue zero =>
      rw [zero]
      rfl
  case isFalse => exact decimal_digitsText n

/-- The exit code comes from a script, and it is not zero unless commands have ended with status zero. -/
def Coded (data : ScriptData) (s : Live) : Prop :=
  ∀ content, s.files (data.place ".code") = some (.file content) →
    ∃ status, content = numberText status ++ str "\n" ∧ (status = 0 → ∃ p ∈ s.scripts, Succeeded p.phase)

/-- The invariant: `.done` comes after the exit code zero, and after commands that have ended with it. -/
structure Certified (data : ScriptData) (s : Live) : Prop where
  code : s.files.isFile (data.place ".done") → Zero data s.files ∧ ∃ p ∈ s.scripts, Succeeded p.phase
  about : ∀ p ∈ s.scripts, Touching p.phase → Zero data s.files

theorem Stage.touching {data : ScriptData} {p : ScriptProcess} {phase : ScriptPhase} (stage : Stage data p phase) :
    Touching p ↔ phase = .touchDone := by
  constructor
  · rintro ⟨file, rest, handler, there⟩
    cases stage with
    | touch inside ended => rfl
    | exports all =>
        rename_i entries
        cases entries <;> cases there
    | _ => cases there
  · rintro rfl
    cases stage with
    | touch inside ended => exact ⟨_, _, _, rfl⟩

theorem Stage.succeeded {data : ScriptData} {p : ScriptProcess} {phase : ScriptPhase} (stage : Stage data p phase)
    (writes : phase = .writeCode true ∨ phase = .touchDone) : Succeeded p := by
  cases stage with
  | writeZero inside ended => exact ended
  | touch inside ended => exact ended
  | _ => rcases writes with writes | writes <;> cases writes

/-- Where commands start, none have run. -/
theorem Stage.starting {data : ScriptData} {p : ScriptProcess} {phase : ScriptPhase} (stage : Stage data p phase)
    {job : List Str} {rest : List Commands.Statement} {handler : Option (List Commands.Simple)}
    (begins : p.point = .program (.start job :: rest) handler) : p.background = .absent := by
  cases stage with
  | start inside => rfl
  | exports all => rfl
  | _ => cases begins

/-- What has ended stays as it is. -/
theorem Succeeded.advance {data : ScriptData} {p p' : ScriptProcess} {files files' : FileSystem} {phase : ScriptPhase}
    (succeeded : Succeeded p) (stage : Stage data p phase) (advances : p.advance meaning files = some (p', files')) :
    Succeeded p' := by
  rcases ShellPrograms.Process.advance_background advances with same | ⟨job, rest, handler, begins, _⟩
  · exact same.trans succeeded
  · cases (stage.starting begins).symm.trans succeeded

/-- After zero has been written, a script makes `.done`; nothing else leads there. -/
theorem ScriptPhase.advance_touching {files files' : Files} {success : Bool} {phase : ScriptPhase}
    (advances : phase.advance files success = some (.touchDone, files')) : phase = .writeCode true := by
  cases phase with
  | writeCode wrote =>
      cases wrote with
      | true => rfl
      | false => cases advances
  | testLock =>
      simp only [advance, Option.some.injEq, Prod.mk.injEq] at advances
      obtain ⟨goes, _⟩ := advances
      split at goes <;> cases goes
  | testStart =>
      simp only [advance, Option.some.injEq, Prod.mk.injEq] at advances
      obtain ⟨goes, _⟩ := advances
      split at goes <;> cases goes
  | _ => cases advances

/-- A signal leads to the handler and leaves the commands alone. -/
theorem interrupt_cases {p p' : ScriptProcess} {status : ℕ} (interrupted : p.interrupt status = some p') :
    (∃ commands, p'.point = .cleanup commands status) ∧ p'.background = p.background := by
  rw [ShellPrograms.Process.interrupt] at interrupted
  split at interrupted
  all_goals first
    | cases interrupted
      exact ⟨⟨_, rfl⟩, rfl⟩
    | cases interrupted

section

variable {data : ScriptData} {s s' : Live} {t : Protocol}

/-- Nobody writes an exit code while somebody else is about to make `.done`, nor after it. -/
theorem writes_alone (guarded : Guarded t) (recorded : Recorded t) {i : ℕ} {q : Party ScriptPhase}
    (at_i : t.scripts[i]? = some q) {success : Bool} (writes : q.phase = .writeCode success) :
    ¬ t.files .done ∧ ∀ (k : ℕ) (r : Party ScriptPhase), t.scripts[k]? = some r → r.phase ≠ .touchDone := by
  refine ⟨fun done => ?_, fun k r at_k touching => ?_⟩
  · have past := recorded.past done q (List.mem_of_getElem? at_i)
    rw [writes] at past
    cases past
  · have other : i ≠ k := by
      rintro rfl
      rw [at_i, Option.some.injEq] at at_k
      rw [← at_k, writes] at touching
      cases touching
    have two := two_le_countP (p := fun p : Party ScriptPhase => p.phase.holds) at_i at_k other (by rw [writes]; rfl)
      (by rw [touching]; rfl)
    have one := Bool.toNat_le (t.files .lock)
    have baton := guarded.baton
    simp only [holders] at baton
    omega

/-- The exit code when one script has changed and the file has not. -/
theorem Coded.setScript (coded : Coded data s) {i : ℕ} {old new : Party ScriptProcess} (at_i : s.scripts[i]? = some old)
    (scripts : s'.scripts = s.scripts.set i new) (code : s'.files (data.place ".code") = s.files (data.place ".code"))
    (keeps : Succeeded old.phase → Succeeded new.phase) : Coded data s' := by
  intro content there
  rw [code] at there
  obtain ⟨status, text, zero⟩ := coded content there
  refine ⟨status, text, fun same => ?_⟩
  rw [scripts]
  exact exists_mem_set at_i keeps (zero same)

/-- One script changes, and neither the exit code nor `.done` do. -/
theorem Certified.setScript (certified : Certified data s) {i : ℕ} {old new : Party ScriptProcess}
    (at_i : s.scripts[i]? = some old) (scripts : s'.scripts = s.scripts.set i new)
    (code : s'.files (data.place ".code") = s.files (data.place ".code"))
    (done : s'.files (data.place ".done") = s.files (data.place ".done"))
    (touching : Touching new.phase → Touching old.phase) (keeps : Succeeded old.phase → Succeeded new.phase) :
    Certified data s' := by
  have zero : Zero data s'.files ↔ Zero data s.files := by rw [Zero, Zero, code]
  constructor
  · rw [FileSystem.isFile, done, zero, scripts]
    intro made
    obtain ⟨written, succeeded⟩ := certified.code made
    exact ⟨written, exists_mem_set at_i keeps succeeded⟩
  · rw [scripts]
    apply forall_set
    · intro p member touches
      exact zero.mpr (certified.about p member touches)
    · intro touches
      exact zero.mpr (certified.about old (List.mem_of_getElem? at_i) (touching touches))

/-- A shell takes a step. -/
theorem certified_advance (mirrors : Mirrors data s t) (guarded : Guarded t) (recorded : Recorded t)
    (certified : Certified data s) {i : ℕ} {party : Party ScriptProcess} {shell : ScriptProcess}
    (at_i : s.scripts[i]? = some party) (advances : party.phase.advance meaning s.files = some (shell, s'.files))
    (scripts : s'.scripts = s.scripts.set i { party with phase := shell }) : Certified data s' := by
  obtain ⟨q, there, _, v, usable, stage⟩ := forall₂_getElem? mirrors.scripts at_i
  have member := List.mem_of_getElem? at_i
  have keeps (succeeded : Succeeded party.phase) : Succeeded shell := succeeded.advance stage advances
  obtain ⟨ready, stays | ⟨success, next, moves, after, records⟩⟩ :=
    stage.advance usable (of_data mirrors.ready v) advances
  · apply certified.setScript at_i scripts (by rw [stays.1]) (by rw [stays.1]) _ keeps
    intro touches
    exact stage.touching.mpr (stays.2.touching.mp touches)
  · change q.phase.advance (flags data s.files) success = some (next, flags data s'.files) at moves
    have kept (elsewhere : ∀ success, q.phase ≠ .writeCode success) : Zero data s.files → Zero data s'.files :=
      fun before => (records.same elsewhere).trans before
    have done (made : s'.files.isFile (data.place ".done")) :
        s.files.isFile (data.place ".done") ∨ q.phase = .touchDone := by
      rcases (ScriptPhase.advance_recorded moves).2.2.2 with same | ⟨touching, _, _⟩
      · exact Or.inl (same.symm.trans made)
      · exact Or.inr touching
    constructor
    · intro made
      rw [scripts]
      rcases done made with before | touching
      · obtain ⟨written, succeeded⟩ := certified.code before
        refine ⟨kept ?_ written, exists_mem_set at_i keeps succeeded⟩
        intro success writes
        apply (writes_alone guarded recorded there writes).1
        rw [← mirrors.files]
        exact before
      · refine ⟨kept ?_ (certified.about party member (stage.touching.mpr touching)),
          exists_mem_set at_i keeps ⟨party, member, stage.succeeded (Or.inr touching)⟩⟩
        intro success writes
        rw [touching] at writes
        cases writes
    · rw [scripts]
      intro p touched touches
      obtain ⟨k, at_k⟩ := List.mem_iff_getElem?.mp touched
      by_cases same : k = i
      · subst same
        rw [List.getElem?_set_self (List.getElem?_eq_some_iff.mp at_i).1, Option.some.injEq] at at_k
        subst at_k
        apply records.zero
        rw [after.touching.mp touches] at moves
        exact ScriptPhase.advance_touching moves
      · rw [List.getElem?_set_ne (Ne.symm same)] at at_k
        apply kept _ (certified.about p (List.mem_of_getElem? at_k) touches)
        intro success writes
        obtain ⟨r, at_k', _, _, _, stage'⟩ := forall₂_getElem? mirrors.scripts at_k
        exact (writes_alone guarded recorded there writes).2 k r at_k' (stage'.touching.mp touches)

/-- What the exit code says when a shell takes a step. -/
theorem coded_advance (mirrors : Mirrors data s t) (coded : Coded data s) {i : ℕ} {party : Party ScriptProcess}
    {shell : ScriptProcess} (at_i : s.scripts[i]? = some party)
    (advances : party.phase.advance meaning s.files = some (shell, s'.files))
    (scripts : s'.scripts = s.scripts.set i { party with phase := shell }) : Coded data s' := by
  obtain ⟨q, there, _, v, usable, stage⟩ := forall₂_getElem? mirrors.scripts at_i
  have keeps (succeeded : Succeeded party.phase) : Succeeded shell := succeeded.advance stage advances
  obtain ⟨_, stays | ⟨success, next, moves, after, records⟩⟩ :=
    stage.advance usable (of_data mirrors.ready v) advances
  · exact coded.setScript at_i scripts (by rw [stays.1]) keeps
  · by_cases writes : ∃ success, q.phase = .writeCode success
    · obtain ⟨success, writing⟩ := writes
      intro content written
      cases success with
      | false =>
          obtain ⟨code, failed, file⟩ := records.failed writing
          cases file.symm.trans written
          exact ⟨code, rfl, fun zero => absurd zero failed⟩
      | true =>
          cases (records.zero writing).symm.trans written
          refine ⟨0, rfl, fun _ => ?_⟩
          rw [scripts]
          exact exists_mem_set at_i keeps ⟨party, List.mem_of_getElem? at_i, stage.succeeded (Or.inl writing)⟩
    · apply coded.setScript at_i scripts _ keeps
      exact records.same fun success writing => writes ⟨success, writing⟩

/-- What events do that are not steps of the shell: the commands that have ended stay as they are, the shell comes to no
`touch`, and the control files do not change. -/
theorem event_cases {event : Event FileSystem} {p p' : ScriptProcess} {files files' : FileSystem}
    (other : event ≠ .advance) (spares : ∀ after, event = .change after ∨ (∃ status, event = .finish after status) →
      Spares data files after) (steps : step meaning event (p, files) = some (p', files')) :
    (Touching p' → Touching p) ∧ (Succeeded p → Succeeded p') ∧
      ∀ extension ∈ ScriptData.extensions, files' (data.place extension) = files (data.place extension) := by
  cases event with
  | advance => exact absurd rfl other
  | interrupt status =>
      simp only [step, Option.map_eq_some_iff, Prod.mk.injEq] at steps
      obtain ⟨after, interrupted, rfl, rfl⟩ := steps
      obtain ⟨⟨commands, cleaning⟩, background⟩ := interrupt_cases interrupted
      refine ⟨?_, fun succeeded => background.trans succeeded, fun _ _ => rfl⟩
      rintro ⟨file, rest, handler, there⟩
      cases cleaning.symm.trans there
  | change after =>
      obtain ⟨rfl, rfl⟩ := change_cases steps
      exact ⟨id, id, (spares files' (Or.inl rfl)).control⟩
  | finish after status =>
      obtain ⟨⟨job, locals, running⟩, rfl, rfl⟩ := finish_cases steps
      refine ⟨id, fun succeeded => ?_, (spares files' (Or.inr ⟨status, rfl⟩)).control⟩
      cases running.symm.trans succeeded

/-- What is admissible of an event of a script. -/
theorem spares_of_next {i : ℕ} {event : Event FileSystem} (next : (live data).next s (.script i event) s')
    (after : FileSystem) (changes : event = .change after ∨ ∃ status, event = .finish after status) :
    Spares data s.files after := by
  rcases changes with rfl | ⟨status, rfl⟩
  · exact next.1
  · exact next.1

/-- The invariant is kept. -/
theorem certified_step (mirrors : Mirrors data s t) (guarded : Guarded t) (recorded : Recorded t)
    (certified : Certified data s) {a : LiveAction} (next : (live data).next s a s') : Certified data s' := by
  rcases live_cases next with ⟨new, scripts, begins, code, done⟩ |
    ⟨i, event, party, shell, rfl, at_i, _, steps, scripts⟩ | ⟨i, shell, at_i, scripts, files⟩
  · have zero : Zero data s'.files ↔ Zero data s.files := by rw [Zero, Zero, code]
    constructor
    · rw [zero, FileSystem.isFile, done, scripts]
      intro made
      obtain ⟨written, p, member, succeeded⟩ := certified.code made
      exact ⟨written, p, List.mem_append_left new member, succeeded⟩
    · rw [scripts, zero]
      intro p member touches
      rcases List.mem_append.mp member with old | fresh
      · exact certified.about p old touches
      · obtain ⟨v, locals, rfl⟩ := begins p fresh
        obtain ⟨file, rest, handler, there⟩ := touches
        rw [ShellPrograms.Process.begin, scriptProgram_stages] at there
        cases there
  · by_cases own : event = .advance
    · subst own
      exact certified_advance mirrors guarded recorded certified at_i steps scripts
    · obtain ⟨touching, keeps, control⟩ := event_cases own (spares_of_next next) steps
      exact certified.setScript at_i scripts (control ".code" (File.extension_mem .code))
        (control ".done" (File.extension_mem .done)) touching keeps
  · exact certified.setScript at_i scripts (by rw [files]) (by rw [files]) id id

theorem coded_step (mirrors : Mirrors data s t) (coded : Coded data s) {a : LiveAction}
    (next : (live data).next s a s') : Coded data s' := by
  rcases live_cases next with ⟨new, scripts, _, code, _⟩ |
    ⟨i, event, party, shell, rfl, at_i, _, steps, scripts⟩ | ⟨i, shell, at_i, scripts, files⟩
  · intro content there
    rw [code] at there
    obtain ⟨status, text, zero⟩ := coded content there
    refine ⟨status, text, fun same => ?_⟩
    obtain ⟨p, member, succeeded⟩ := zero same
    rw [scripts]
    exact ⟨p, List.mem_append_left new member, succeeded⟩
  · by_cases own : event = .advance
    · subst own
      exact coded_advance mirrors coded at_i steps scripts
    · obtain ⟨_, keeps, control⟩ := event_cases own (spares_of_next next) steps
      exact coded.setScript at_i scripts (control ".code" (File.extension_mem .code)) keeps
  · exact coded.setScript at_i scripts (by rw [files]) id

/-! ### Runs -/

/-- What every step of scripts and launchers keeps is known of every state, beside the protocol of phases. -/
theorem mirrors_of_run {M : System Live LiveAction} {inv : Live → Prop} (same : M.next = (live data).next)
    (begins : ∀ s, M.initial s → (live data).initial s ∧ inv s)
    (keeps : ∀ s a s' t, Mirrors data s t → Guarded t → Recorded t → (live data).next s a s' → inv s → inv s')
    (run : M.Reachable s) : ∃ t, Mirrors data s t ∧ inv s := by
  have mirrored : ∃ t, recorded.Reachable t ∧ Mirrors data s t ∧ inv s := by
    apply run.simulation (fun s t => Mirrors data s t ∧ inv s)
    · intro s first
      obtain ⟨initial, holds⟩ := begins s first
      obtain ⟨t, starts, mirrors⟩ := mirrors_initial initial
      exact ⟨t, starts, mirrors, holds⟩
    · rintro s a s' t _ reached _ next ⟨mirrors, holds⟩
      rw [same] at next
      obtain ⟨guarded, results⟩ := guarded_and_recorded reached
      have still := keeps s a s' t mirrors guarded results next holds
      rcases mirrors_step mirrors next with stays | ⟨b, t', moves, after⟩
      · exact Or.inl ⟨stays, still⟩
      · exact Or.inr ⟨b, t', moves, after, still⟩
  obtain ⟨t, _, both⟩ := mirrored
  exact ⟨t, both⟩

end

/-- The job is not done at first. -/
def unfinished (data : ScriptData) : System Live LiveAction where
  initial s := (live data).initial s ∧ ¬ s.files.isFile (data.place ".done")
  next := (live data).next

/-- The job is not done at first, and an exit code that is there is the one of a script that has failed. -/
def unsuccessful (data : ScriptData) : System Live LiveAction where
  initial s := (unfinished data).initial s ∧ ∀ content, s.files (data.place ".code") = some (.file content) →
    ∃ status, status ≠ 0 ∧ content = numberText status ++ str "\n"
  next := (live data).next

/-- What is known of every state, whoever starts scripts, crashes and is interrupted. -/
theorem certified_of_run {data : ScriptData} {s : Live} (run : (unfinished data).Reachable s) : Certified data s := by
  have held : ∃ t, Mirrors data s t ∧ Certified data s := by
    apply mirrors_of_run (M := unfinished data) rfl _ _ run
    · rintro s ⟨first, missing⟩
      refine ⟨first, fun made => absurd made missing, ?_⟩
      rw [first.2.1]
      simp
    · intro s a s' t mirrors guarded recorded next certified
      exact certified_step mirrors guarded recorded certified next
  obtain ⟨_, _, certified⟩ := held
  exact certified

theorem unsuccessful_unfinished {data : ScriptData} {s : Live} (run : (unsuccessful data).Reachable s) :
    (unfinished data).Reachable s := by
  apply run.invariant (unfinished data).Reachable
  · exact fun s first => .start first.1
  · exact fun s a s' _ next before => before.step trivial next

theorem coded_of_run {data : ScriptData} {s : Live} (run : (unsuccessful data).Reachable s) :
    ∃ t, Mirrors data s t ∧ Coded data s := by
  apply mirrors_of_run (M := unsuccessful data) rfl _ _ run
  · rintro s ⟨⟨first, _⟩, failed⟩
    refine ⟨first, fun content there => ?_⟩
    obtain ⟨status, positive, text⟩ := failed content there
    exact ⟨status, text, fun zero => absurd zero positive⟩
  · intro s a s' t mirrors _ _ next coded
    exact coded_step mirrors coded next

/-- Once `.done` exists, the file of the exit code says zero, and the commands of some script have ended with status
zero: for all launchers, crashes and signals, and whatever exit code an earlier script has left. -/
theorem done_certifies {data : ScriptData} {s : Live} (run : (unfinished data).Reachable s)
    (done : s.files.isFile (data.place ".done")) :
    s.files (data.place ".code") = some (.file (str "0\n")) ∧ ∃ p ∈ s.scripts, p.phase.background = .ended 0 :=
  (certified_of_run run).code done

/-- The commands end with status zero, and the shell takes steps. -/
def exampleEnd (steps : ℕ) : Option Live := do
  let s ← TransitionSystem.runActions (liveStep exampleJob) exampleActions exampleStart
  let s ← liveStep exampleJob (.script 0 (.finish s.files 0)) s
  TransitionSystem.runActions (liveStep exampleJob) (List.replicate steps (.script 0 .advance)) s

theorem exampleEnd_run {steps : ℕ} {s : Live} (reached : exampleEnd steps = some s) :
    (unsuccessful exampleJob).Reachable s := by
  simp only [exampleEnd, bind, Option.bind_eq_some_iff] at reached
  obtain ⟨s₁, first, s₂, finishes, last⟩ := reached
  have began : (unsuccessful exampleJob).Reachable exampleStart :=
    .start ⟨⟨exampleStart_initial, by decide⟩, fun content there => by cases there⟩
  have working : (unsuccessful exampleJob).Reachable s₁ :=
    live_runActions (M := unsuccessful exampleJob) rfl
      (fun a member s => ⟨(exampleActions_admissible member s).1, trivial⟩) first began
  have spares : Admissible exampleJob s₁ (.script 0 (.finish s₁.files 0)) := Spares.mk rfl fun _ _ => rfl
  have ended : (unsuccessful exampleJob).Reachable s₂ := working.step trivial ⟨spares, finishes⟩
  apply live_runActions (M := unsuccessful exampleJob) rfl _ last ended
  intro a member s
  rw [List.eq_of_mem_replicate member]
  exact ⟨trivial, trivial⟩

theorem done_certifies_end :
    ∃ s, (unfinished exampleJob).Reachable s ∧ s.files.isFile (exampleJob.place ".done") ∧
      s.files (exampleJob.place ".code") = some (.file (str "0\n")) ∧
        ∃ p ∈ s.scripts, p.phase.background = .ended 0 := by
  have executed : (exampleEnd 5).map (fun s => s.files.isFile (exampleJob.place ".done")) = some true := by decide
  obtain ⟨s, reached, done⟩ := Option.map_eq_some_iff.mp executed
  have run := unsuccessful_unfinished (exampleEnd_run reached)
  exact ⟨s, run, done, done_certifies run done⟩

end Experimaestro.Scheduler

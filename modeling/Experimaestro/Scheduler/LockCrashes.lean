/-
Module: Experimaestro.Scheduler.LockCrashes
Layer: Scheduler
Purpose: What the lock files of a locator mean when launchers and scripts may crash at any point. A lock
  whose owner has crashed is never removed: from then on no script of the locator runs, and the exit code
  and `.done` stay as they are. And `.done` is final: once it exists, the exit code exists as well and
  every script is past its commands and its results.
Imports: Experimaestro.Library.Progress, Experimaestro.Scheduler.LockFiles
Trusted boundary: none (fully proved)
Main exports: Abandoned, abandoned_for_ever, recorded, ScriptPhase.past, done_final
Open obligations: none
-/
import Experimaestro.Library.Progress
import Experimaestro.Scheduler.LockFiles

namespace Experimaestro.Scheduler

/-! ### Locks whose owner has crashed -/

/-- A launcher or a script has crashed with the main lock. -/
def Abandoned (s : Protocol) : Prop :=
  (∃ l ∈ s.launchers, l.crashed ∧ l.phase.holds) ∨ ∃ p ∈ s.scripts, p.crashed ∧ p.phase.holds

/-- What some element has is kept when one of them is replaced. -/
theorem exists_mem_set {α : Type} {q : α → Prop} {l : List α} {i : ℕ} {old new : α} (at_i : l[i]? = some old)
    (keeps : q old → q new) (before : ∃ x ∈ l, q x) : ∃ x ∈ l.set i new, q x := by
  obtain ⟨x, member, holds⟩ := before
  obtain ⟨k, at_k⟩ := List.mem_iff_getElem?.mp member
  by_cases same : i = k
  · subst same
    rw [at_i, Option.some.injEq] at at_k
    subst at_k
    obtain ⟨inRange, _⟩ := List.getElem?_eq_some_iff.mp at_i
    exact ⟨new, List.mem_of_getElem? (List.getElem?_set_self inRange), keeps holds⟩
  · refine ⟨x, List.mem_of_getElem? (i := k) ?_, holds⟩
    rw [List.getElem?_set_ne same]
    exact at_k

/-- The party that takes a step is not the crashed one. -/
theorem mem_set_of_crashed {P : Type} {parties : List (Party P)} {i : ℕ} {phase : P} {x new : Party P}
    (there : running parties i = some phase) (member : x ∈ parties) (crashed : x.crashed) :
    x ∈ parties.set i new := by
  obtain ⟨k, at_k⟩ := List.mem_iff_getElem?.mp member
  have at_i := running_eq_some.mp there
  have other : i ≠ k := by
    intro same
    rw [same, at_k, Option.some.injEq] at at_i
    simp [at_i] at crashed
  apply List.mem_of_getElem? (i := k)
  rw [List.getElem?_set_ne other]
  exact at_k

/-- Somebody counts. -/
theorem countP_pos_of_mem {P : Type} {parties : List (Party P)} {f : P → Bool} {x : Party P}
    (member : x ∈ parties) (owns : f x.phase) : 0 < parties.countP fun x => f x.phase :=
  List.countP_pos_iff.mpr ⟨x, member, owns⟩

/-- Somebody who has crashed and somebody who has not are two. -/
theorem two_le_countP_of_crashed {P : Type} {parties : List (Party P)} {f : P → Bool} {i : ℕ} {phase : P}
    {x : Party P} (there : running parties i = some phase) (owns : f phase) (member : x ∈ parties)
    (crashed : x.crashed) (also : f x.phase) : 2 ≤ parties.countP fun x => f x.phase := by
  obtain ⟨k, at_k⟩ := List.mem_iff_getElem?.mp member
  have at_i := running_eq_some.mp there
  have other : i ≠ k := by
    intro same
    rw [same, at_k, Option.some.injEq] at at_i
    simp [at_i] at crashed
  exact two_le_countP (p := fun x => f x.phase) at_i at_k other owns also

/-- When the owner of the main lock has crashed, the file is there and nobody who runs owns it. -/
theorem Guarded.nobody_runs {s : Protocol} (guarded : Guarded s) (abandoned : Abandoned s) :
    s.files .lock ∧ (∀ i phase, running s.launchers i = some phase → phase.holds = false) ∧
      ∀ i phase, running s.scripts i = some phase → phase.holds = false := by
  have one := Bool.toNat_le (s.files .lock)
  have baton := guarded.baton
  simp only [holders] at baton
  refine ⟨?_, fun i phase there => ?_, fun i phase there => ?_⟩
  · have owned : 0 < (s.launchers.countP fun l => l.phase.holds) +
        s.scripts.countP fun p => p.phase.holds := by
      rcases abandoned with ⟨l, member, _, holds⟩ | ⟨p, member, _, holds⟩
      · exact Nat.add_pos_left (countP_pos_of_mem member holds) _
      · exact Nat.add_pos_right _ (countP_pos_of_mem member holds)
    cases locked : s.files .lock with
    | true => rfl
    | false =>
        rw [locked, Bool.toNat_false] at baton
        omega
  · by_contra holds
    have running_holds : phase.holds := Bool.not_eq_false _ ▸ holds
    rcases abandoned with ⟨l, member, crashed, also⟩ | ⟨p, member, _, also⟩
    · have two := two_le_countP_of_crashed there running_holds member crashed also
      omega
    · have first := countP_pos_of_mem (mem_of_running there) running_holds
      have second := countP_pos_of_mem member also
      omega
  · by_contra holds
    have running_holds : phase.holds := Bool.not_eq_false _ ▸ holds
    rcases abandoned with ⟨l, member, _, also⟩ | ⟨p, member, crashed, also⟩
    · have first := countP_pos_of_mem (mem_of_running there) running_holds
      have second := countP_pos_of_mem member also
      omega
    · have two := two_le_countP_of_crashed there running_holds member crashed also
      omega

/-- A launcher writes neither the exit code nor `.done`. -/
theorem LauncherPhase.advance_results {files files' : Files} {phase next : LauncherPhase}
    (h : phase.advance files = some (next, files')) :
    files' .code = files .code ∧ files' .done = files .done := by
  refine ⟨?_, (LauncherPhase.advance_done h).1⟩
  cases phase with
  | acquire attempt =>
      rcases LockAttempt.advance_cases h with ⟨later, rfl, rfl⟩ | ⟨_, _, rfl, rfl⟩
      · rfl
      · simp
  | acquireStart attempt =>
      rcases LockAttempt.advance_cases h with ⟨later, rfl, rfl⟩ | ⟨_, _, rfl, rfl⟩
      · rfl
      · simp
  | returned => cases h
  | unwind =>
      obtain ⟨rfl, rfl⟩ := h
      simp
  | _ =>
      obtain ⟨rfl, rfl⟩ := h
      rfl

theorem ScriptPhase.ended_of_not_holds {phase : ScriptPhase} (holds : phase.holds = false) :
    ∃ left, phase = .ended left := by
  cases phase with
  | ended left => exact ⟨left, rfl⟩
  | _ => cases holds

/-- A crash is not undone by what others do. -/
theorem Abandoned.setLauncher {s s' : Protocol} (abandoned : Abandoned s) {i : ℕ} {phase : LauncherPhase}
    {new : Party LauncherPhase} (there : running s.launchers i = some phase)
    (launchers : s'.launchers = s.launchers.set i new) (scripts : s.scripts ⊆ s'.scripts) :
    Abandoned s' := by
  rcases abandoned with ⟨l, member, crashed, holds⟩ | ⟨p, member, crashed, holds⟩
  · exact Or.inl ⟨l, launchers ▸ mem_set_of_crashed there member crashed, crashed, holds⟩
  · exact Or.inr ⟨p, scripts member, crashed, holds⟩

theorem Abandoned.notify {s : Protocol} (abandoned : Abandoned s) (files files' : Files) :
    Abandoned { s with launchers := notify files files' s.launchers } := by
  rcases abandoned with ⟨l, member, crashed, holds⟩ | some_script
  · refine Or.inl ⟨_, List.mem_map_of_mem member, crashed, ?_⟩
    rw [LauncherPhase.notice_holds]
    exact holds
  · exact Or.inr some_script

theorem Abandoned.setScript {s s' : Protocol} (abandoned : Abandoned s) {i : ℕ} {phase : ScriptPhase}
    {new : Party ScriptPhase} (there : running s.scripts i = some phase)
    (scripts : s'.scripts = s.scripts.set i new) (launchers : s'.launchers = s.launchers) :
    Abandoned s' := by
  rcases abandoned with ⟨l, member, crashed, holds⟩ | ⟨p, member, crashed, holds⟩
  · exact Or.inl ⟨l, launchers ▸ member, crashed, holds⟩
  · exact Or.inr ⟨p, scripts ▸ mem_set_of_crashed there member crashed, crashed, holds⟩

/-- A step in a state where the owner of the main lock has crashed. -/
theorem abandoned_step {s s' : Protocol} {a : ProtocolAction} (guarded : Guarded s)
    (abandoned : Abandoned s) (next : protocolStep a s = some s') :
    Abandoned s' ∧ s'.files .code = s.files .code ∧ s'.files .done = s.files .done := by
  obtain ⟨_, no_launcher, no_script⟩ := guarded.nobody_runs abandoned
  cases a with
  | arrive =>
      rw [protocolStep, Option.some.injEq] at next
      subst next
      refine ⟨?_, rfl, rfl⟩
      rcases abandoned with ⟨l, member, both⟩ | some_script
      · exact Or.inl ⟨l, List.mem_append_left _ member, both⟩
      · exact Or.inr some_script
  | launcher i =>
      simp only [protocolStep, bind, Option.bind_eq_some_iff] at next
      obtain ⟨phase, at_i, ⟨after, files⟩, advanced, h⟩ := next
      cases h
      have moved : Abandoned
          { files
            launchers := moveTo s.launchers i after
            scripts :=
              if phase = .startProcess then s.scripts ++ [{ phase := .testLock, crashed := false }]
              else s.scripts } := by
        apply abandoned.setLauncher at_i rfl
        intro p member
        change p ∈ if _ then _ else _
        split
        case isTrue => exact List.mem_append_left _ member
        case isFalse => exact member
      exact ⟨moved.notify s.files files, LauncherPhase.advance_results advanced⟩
  | timeOut i =>
      simp only [protocolStep, bind, Option.bind_eq_some_iff] at next
      obtain ⟨phase, at_i, after, left, h⟩ := next
      cases h
      exact ⟨abandoned.setLauncher at_i rfl fun _ => id, rfl, rfl⟩
  | crashLauncher i =>
      simp only [protocolStep, bind, Option.bind_eq_some_iff] at next
      obtain ⟨phase, at_i, h⟩ := next
      cases h
      exact ⟨abandoned.setLauncher at_i rfl fun _ => id, rfl, rfl⟩
  | script i success =>
      simp only [protocolStep, bind, Option.bind_eq_some_iff] at next
      obtain ⟨phase, at_i, ⟨after, files⟩, advanced, h⟩ := next
      obtain ⟨left, rfl⟩ := ScriptPhase.ended_of_not_holds (no_script i phase at_i)
      cases advanced
  | interrupt i left =>
      simp only [protocolStep, bind, Option.bind_eq_some_iff] at next
      obtain ⟨phase, at_i, after, cleans, h⟩ := next
      obtain ⟨left, rfl⟩ := ScriptPhase.ended_of_not_holds (no_script i phase at_i)
      cases cleans
  | settle i =>
      simp only [protocolStep, bind, Option.bind_eq_some_iff] at next
      obtain ⟨party, at_i, after, ends, h⟩ := next
      cases h
      have holds := (ScriptPhase.settle_holds ends).1
      refine ⟨?_, rfl, rfl⟩
      rcases abandoned with some_launcher | some_script
      · exact Or.inl some_launcher
      · apply Or.inr
        apply exists_mem_set at_i _ some_script
        rintro ⟨crashed, had⟩
        exact ⟨crashed, holds.trans had⟩
  | crashScript i =>
      simp only [protocolStep, bind, Option.bind_eq_some_iff] at next
      obtain ⟨phase, at_i, h⟩ := next
      cases h
      exact ⟨abandoned.setScript at_i rfl rfl, rfl, rfl⟩

/-- Once a launcher or a script has crashed with the main lock, whoever comes later and whatever they do:
    the lock file stays, no launcher ever gets it, no script runs, and the exit code and `.done` remain
    what they were at the crash. -/
theorem abandoned_for_ever {s s' : Protocol} (run : protocol.Reachable s) (abandoned : Abandoned s)
    {actions : List ProtocolAction}
    (executed : TransitionSystem.runActions protocolStep actions s = some s') :
    s'.files .lock ∧ s'.files .code = s.files .code ∧ s'.files .done = s.files .done ∧
      (∀ i phase, running s'.launchers i = some phase → phase.holds = false) ∧
      ∀ i phase, running s'.scripts i = some phase → ∃ left, phase = .ended left := by
  have kept : Guarded s' ∧ Abandoned s' ∧ s'.files .code = s.files .code ∧ s'.files .done = s.files .done := by
    apply TransitionSystem.runActions_keeps (fun _ => True)
      (fun x => Guarded x ∧ Abandoned x ∧ x.files .code = s.files .code ∧ x.files .done = s.files .done)
      ?_ (fun _ _ => trivial) executed ⟨guarded_of_reachable run, abandoned, rfl, rfl⟩
    intro x a x' _ next before
    obtain ⟨guarded, still, code, done⟩ := before
    obtain ⟨after, same_code, same_done⟩ := abandoned_step guarded still next
    exact ⟨guarded_step guarded next, after, same_code.trans code, same_done.trans done⟩
  obtain ⟨guarded, still, code, done⟩ := kept
  obtain ⟨locked, no_launcher, no_script⟩ := guarded.nobody_runs still
  exact ⟨locked, code, done, no_launcher,
    fun i phase there => ScriptPhase.ended_of_not_holds (no_script i phase there)⟩

/-- A script crashes when it has removed its start lock; a launcher that comes later waits for the main
    lock until its time is over. -/
theorem abandoned_for_ever_script :
    ∃ s s' : Protocol, protocol.Reachable s ∧ Abandoned s ∧
      TransitionSystem.runActions protocolStep
        [.arrive, .launcher 1, .launcher 1, .launcher 1, .launcher 1, .launcher 1, .timeOut 1] s = some s' ∧
      s'.files .lock ∧ s'.files .code = s.files .code ∧ s'.files .done = s.files .done ∧
      (∀ i phase, running s'.launchers i = some phase → phase.holds = false) ∧
      ∀ i phase, running s'.scripts i = some phase → ∃ left, phase = .ended left := by
  have executed : ((TransitionSystem.runActions protocolStep
      [.arrive, .launcher 0, .launcher 0, .launcher 0, .launcher 0, .launcher 0, .launcher 0, .launcher 0,
        .launcher 0, .script 0 true, .script 0 true, .script 0 true, .crashScript 0]
      { files := fun _ => false, launchers := [], scripts := [] }).bind fun s =>
        (TransitionSystem.runActions protocolStep
          [.arrive, .launcher 1, .launcher 1, .launcher 1, .launcher 1, .launcher 1, .timeOut 1] s).map
            fun _ => s.scripts) =
      some [{ phase := .writePid, crashed := true }] := by decide
  obtain ⟨s, last, seen⟩ := Option.bind_eq_some_iff.mp executed
  obtain ⟨s', later, scripts⟩ := Option.map_eq_some_iff.mp seen
  have run : protocol.Reachable s :=
    TransitionSystem.reachable_runActions (fun _ _ _ => id) (.start ⟨rfl, rfl⟩) last
  have abandoned : Abandoned s := by
    apply Or.inr
    rw [scripts]
    exact ⟨_, List.mem_singleton_self _, rfl, rfl⟩
  exact ⟨s, s', run, abandoned, later, abandoned_for_ever run abandoned later⟩

/-! ### `.done` is final -/

/-- The shell is past its commands and its results: it will start nothing and write nothing any more. Only
    commands that a signal has left in the background may still run. -/
def ScriptPhase.past : ScriptPhase → Bool
  | .removePid _ | .removeLock _ | .ended _ => true
  | _ => false

/-- The protocol where nobody is there at first and `.done` does not exist without an exit code. -/
def recorded : TransitionSystem.System Protocol ProtocolAction where
  initial s := protocol.initial s ∧ (s.files .done → s.files .code)
  next := protocol.next

/-- The invariant: `.done` comes after the exit code, and when every shell is past its commands. -/
structure Recorded (s : Protocol) : Prop where
  code : s.files .done → s.files .code
  about : ∀ p ∈ s.scripts, p.phase = .touchDone → s.files .code
  past : s.files .done → ∀ p ∈ s.scripts, p.phase.past

/-- What one operation of a script does to the results. -/
theorem ScriptPhase.advance_recorded {files files' : Files} {success : Bool} {phase next : ScriptPhase}
    (h : phase.advance files success = some (next, files')) :
    (files .code → files' .code) ∧ (next = .touchDone → files' .code) ∧
      (phase.past → next.past) ∧ (files' .done = files .done ∨ phase = .touchDone ∧ next.past ∧ files' .done) := by
  cases phase with
  | testLock =>
      obtain ⟨rfl, rfl⟩ := h
      refine ⟨id, fun final => ?_, nofun, Or.inl rfl⟩
      split at final <;> cases final
  | testStart =>
      obtain ⟨rfl, rfl⟩ := h
      refine ⟨id, fun final => ?_, nofun, Or.inl rfl⟩
      split at final <;> cases final
  | writeCode success =>
      cases success with
      | false =>
          obtain ⟨rfl, rfl⟩ := h
          exact ⟨fun _ => by simp, nofun, nofun, Or.inl (by simp)⟩
      | true =>
          obtain ⟨rfl, rfl⟩ := h
          exact ⟨fun _ => by simp, fun _ => by simp, nofun, Or.inl (by simp)⟩
  | touchDone =>
      obtain ⟨rfl, rfl⟩ := h
      exact ⟨fun code => by simpa using code, nofun, nofun, Or.inr ⟨rfl, rfl, by simp⟩⟩
  | ended left => cases h
  | body =>
      obtain ⟨rfl, rfl⟩ := h
      exact ⟨id, nofun, nofun, Or.inl rfl⟩
  | removePid left =>
      obtain ⟨rfl, rfl⟩ := h
      exact ⟨fun code => by simpa using code, nofun, fun _ => rfl, Or.inl (by simp)⟩
  | removeLock left =>
      obtain ⟨rfl, rfl⟩ := h
      exact ⟨fun code => by simpa using code, nofun, fun _ => rfl, Or.inl (by simp)⟩
  | _ =>
      obtain ⟨rfl, rfl⟩ := h
      exact ⟨fun code => by simpa using code, nofun, nofun, Or.inl (by simp)⟩

theorem ScriptPhase.holds_of_not_past {phase : ScriptPhase} (before : phase.past = false) : phase.holds := by
  cases phase <;> first | rfl | cases before

theorem ScriptPhase.settle_past {phase next : ScriptPhase} (h : phase.settle = some next) : next.past := by
  cases phase with
  | removePid left =>
      cases left <;> cases h
      rfl
  | removeLock left =>
      cases left <;> cases h
      rfl
  | ended left =>
      cases left <;> cases h
      rfl
  | _ => cases h

/-- A write to one script, the results being what they were. -/
theorem Recorded.setScript {s : Protocol} (recorded : Recorded s) {i : ℕ} {new : Party ScriptPhase}
    (about : new.phase = .touchDone → s.files .code) (past : s.files .done → new.phase.past) :
    Recorded { s with scripts := s.scripts.set i new } where
  code := recorded.code
  about := forall_set recorded.about about
  past done := forall_set (recorded.past done) (past done)

/-- The next operation of a script. When it creates `.done` it is the only one with the main lock, so that
    all other scripts have ended. -/
theorem recorded_script {s : Protocol} {i : ℕ} {success : Bool} {phase next : ScriptPhase} {files : Files}
    (guarded : Guarded s) (recorded : Recorded s)
    (at_i : s.scripts[i]? = some { phase, crashed := false })
    (h : phase.advance s.files success = some (next, files)) :
    Recorded { s with files, scripts := moveTo s.scripts i next } := by
  obtain ⟨code, about, past, result⟩ := ScriptPhase.advance_recorded h
  have member := List.mem_of_getElem? at_i
  have abouts : ∀ p ∈ moveTo s.scripts i next, p.phase = .touchDone → files .code :=
    forall_set (fun p there touching => code (recorded.about p there touching)) about
  rcases result with same | ⟨touching, ends, done⟩
  · constructor
    case code =>
        intro done
        change files .done at done
        rw [same] at done
        exact code (recorded.code done)
    case about => exact abouts
    case past =>
        intro done
        change files .done at done
        rw [same] at done
        exact forall_set (recorded.past done) (past (recorded.past done _ member))
  · constructor
    case code => exact fun _ => code (recorded.about _ member touching)
    case about => exact abouts
    case past =>
        intro _ p there
        obtain ⟨k, at_k⟩ := List.mem_iff_getElem?.mp there
        by_cases same : i = k
        · subst same
          obtain ⟨inRange, _⟩ := List.getElem?_eq_some_iff.mp at_i
          rw [moveTo, List.getElem?_set_self inRange, Option.some.injEq] at at_k
          exact at_k ▸ ends
        · rw [moveTo, List.getElem?_set_ne same] at at_k
          cases finished : p.phase.past with
          | true => rfl
          | false =>
              have two := two_le_countP (p := fun p => p.phase.holds) at_i at_k same
                (by rw [touching]; rfl) (ScriptPhase.holds_of_not_past finished)
              have one := Bool.toNat_le (s.files .lock)
              have baton := guarded.baton
              simp only [holders] at baton
              omega

/-- Every step keeps the invariant. -/
theorem recorded_step {s s' : Protocol} {a : ProtocolAction} (guarded : Guarded s)
    (recorded : Recorded s) (next : protocolStep a s = some s') : Recorded s' := by
  cases a with
  | arrive =>
      rw [protocolStep, Option.some.injEq] at next
      subst next
      exact ⟨recorded.code, recorded.about, recorded.past⟩
  | launcher i =>
      simp only [protocolStep, bind, Option.bind_eq_some_iff] at next
      obtain ⟨phase, at_i, ⟨after, files⟩, advanced, h⟩ := next
      cases h
      obtain ⟨code, done⟩ := LauncherPhase.advance_results advanced
      have unaware := fun done => guarded.launchers done _ (mem_of_running at_i)
      by_cases starts : phase = .startProcess
      · subst starts
        have no_done : s.files .done = false := by
          by_contra there
          exact absurd (unaware (Bool.not_eq_false _ ▸ there)) (by decide)
        constructor
        case code => simp [done, no_done]
        case about =>
            intro p member
            rcases List.mem_append.mp member with old | new
            · simpa [code] using recorded.about p old
            · rw [List.mem_singleton.mp new]
              intro touching
              cases touching
        case past => simp [done, no_done]
      · constructor
        case code => simpa [code, done] using recorded.code
        case about => simpa [starts, code] using recorded.about
        case past => simpa [starts, done] using recorded.past
  | timeOut i =>
      simp only [protocolStep, bind, Option.bind_eq_some_iff] at next
      obtain ⟨phase, at_i, after, left, h⟩ := next
      cases h
      exact ⟨recorded.code, recorded.about, recorded.past⟩
  | crashLauncher i =>
      simp only [protocolStep, bind, Option.bind_eq_some_iff] at next
      obtain ⟨phase, at_i, h⟩ := next
      cases h
      exact ⟨recorded.code, recorded.about, recorded.past⟩
  | script i success =>
      simp only [protocolStep, bind, Option.bind_eq_some_iff] at next
      obtain ⟨phase, at_i, ⟨after, files⟩, advanced, h⟩ := next
      cases h
      have after := recorded_script guarded recorded (running_eq_some.mp at_i) advanced
      exact ⟨after.code, after.about, after.past⟩
  | interrupt i left =>
      simp only [protocolStep, bind, Option.bind_eq_some_iff] at next
      obtain ⟨phase, at_i, after, cleans, h⟩ := next
      cases h
      have removes : ∃ left, after = .removePid left := by
        cases phase <;> cases cleans <;> exact ⟨_, rfl⟩
      obtain ⟨left, rfl⟩ := removes
      apply recorded.setScript
      · intro touching
        cases touching
      · exact fun _ => rfl
  | settle i =>
      simp only [protocolStep, bind, Option.bind_eq_some_iff] at next
      obtain ⟨party, at_i, after, ends, h⟩ := next
      cases h
      have still : after.past := ScriptPhase.settle_past ends
      apply recorded.setScript
      · intro touching
        change after = .touchDone at touching
        rw [touching] at still
        cases still
      · exact fun _ => still
  | crashScript i =>
      simp only [protocolStep, bind, Option.bind_eq_some_iff] at next
      obtain ⟨phase, at_i, h⟩ := next
      cases h
      have member := mem_of_running at_i
      have about := recorded.about _ member
      have past := fun done => recorded.past done _ member
      exact recorded.setScript about past

/-- `.done` is never removed. -/
theorem done_of_step {s s' : Protocol} {a : ProtocolAction} (next : protocolStep a s = some s')
    (done : s.files .done) : s'.files .done := by
  cases a with
  | launcher i =>
      simp only [protocolStep, bind, Option.bind_eq_some_iff] at next
      obtain ⟨phase, at_i, ⟨after, files⟩, advanced, h⟩ := next
      cases h
      exact (LauncherPhase.advance_results advanced).2.trans done
  | script i success =>
      simp only [protocolStep, bind, Option.bind_eq_some_iff] at next
      obtain ⟨phase, at_i, ⟨after, files⟩, advanced, h⟩ := next
      cases h
      rcases (ScriptPhase.advance_recorded advanced).2.2.2 with same | ⟨_, _, created⟩
      · exact same.trans done
      · exact created
  | arrive =>
      rw [protocolStep, Option.some.injEq] at next
      exact next ▸ done
  | timeOut i =>
      simp only [protocolStep, bind, Option.bind_eq_some_iff] at next
      obtain ⟨phase, at_i, after, left, h⟩ := next
      exact Option.some.inj h ▸ done
  | crashLauncher i =>
      simp only [protocolStep, bind, Option.bind_eq_some_iff] at next
      obtain ⟨phase, at_i, h⟩ := next
      exact Option.some.inj h ▸ done
  | interrupt i left =>
      simp only [protocolStep, bind, Option.bind_eq_some_iff] at next
      obtain ⟨phase, at_i, after, cleans, h⟩ := next
      exact Option.some.inj h ▸ done
  | settle i =>
      simp only [protocolStep, bind, Option.bind_eq_some_iff] at next
      obtain ⟨party, at_i, after, ends, h⟩ := next
      exact Option.some.inj h ▸ done
  | crashScript i =>
      simp only [protocolStep, bind, Option.bind_eq_some_iff] at next
      obtain ⟨phase, at_i, h⟩ := next
      exact Option.some.inj h ▸ done

/-- What holds in every run. -/
theorem guarded_and_recorded {s : Protocol} (run : recorded.Reachable s) : Guarded s ∧ Recorded s := by
  apply run.invariant (fun x => Guarded x ∧ Recorded x)
  · rintro x ⟨⟨no_launcher, no_script⟩, code⟩
    refine ⟨guarded_of_reachable (.start ⟨no_launcher, no_script⟩), code, ?_, ?_⟩ <;> simp [no_script]
  · intro x a x' _ next both
    exact ⟨guarded_step both.1 next, recorded_step both.1 both.2 next⟩

/-- Once `.done` exists, in every later state, whoever arrives and crashes: `.done` and the exit code
    exist, and the shell of every script that was ever started, crashed or not, is past its commands and
    its results. -/
theorem done_final {s s' : Protocol} (run : recorded.Reachable s) (done : s.files .done)
    {actions : List ProtocolAction}
    (executed : TransitionSystem.runActions protocolStep actions s = some s') :
    s'.files .done ∧ s'.files .code ∧ ∀ p ∈ s'.scripts, p.phase.past := by
  have before := guarded_and_recorded run
  have kept : s'.files .done ∧ Guarded s' ∧ Recorded s' := by
    apply TransitionSystem.runActions_keeps (fun _ => True)
      (fun x => x.files .done ∧ Guarded x ∧ Recorded x) ?_ (fun _ _ => trivial) executed ⟨done, before⟩
    intro x a x' _ next both
    obtain ⟨still, guarded, recorded⟩ := both
    exact ⟨done_of_step next still, guarded_step guarded next, recorded_step guarded recorded next⟩
  obtain ⟨still, _, recorded⟩ := kept
  exact ⟨still, recorded.code still, recorded.past still⟩

/-- A script has created `.done` and is interrupted no more; a second launcher finds the file. -/
theorem done_final_script :
    ∃ s s' : Protocol, recorded.Reachable s ∧ s.files .done ∧
      TransitionSystem.runActions protocolStep [.arrive, .launcher 1, .crashScript 0] s = some s' ∧
      s'.files .done ∧ s'.files .code ∧ ∀ p ∈ s'.scripts, p.phase.past := by
  have executed : ((TransitionSystem.runActions protocolStep
      [.arrive, .launcher 0, .launcher 0, .launcher 0, .launcher 0, .launcher 0, .launcher 0, .launcher 0,
        .launcher 0, .script 0 true, .script 0 true, .script 0 true, .script 0 true, .script 0 true,
        .script 0 true, .script 0 true]
      { files := fun _ => false, launchers := [], scripts := [] }).bind fun s =>
        (TransitionSystem.runActions protocolStep
          [.arrive, .launcher 1, .crashScript 0] s).map fun _ => s.files .done) =
      some true := by decide
  obtain ⟨s, last, seen⟩ := Option.bind_eq_some_iff.mp executed
  obtain ⟨s', later, done⟩ := Option.map_eq_some_iff.mp seen
  have run : recorded.Reachable s :=
    TransitionSystem.reachable_runActions (fun _ _ _ => id) (.start ⟨⟨rfl, rfl⟩, by simp⟩) last
  exact ⟨s, s', run, done, later, done_final run done later⟩

end Experimaestro.Scheduler

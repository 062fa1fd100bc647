/-
Module: Experimaestro.Files.LockTaking
Layer: Files
Purpose: One call of `LocalConnector::lock`, step by step, among other processes that create and remove the file. The
  call looks at the file after the failed creation, and it watches the directory after that. The file may be removed
  before each of the two: then it takes the missing file for one of another kind, or waits for a removal that has
  been.
Imports: Experimaestro.Library.TransitionSystem, Experimaestro.Files.Paths (FileType)
Trusted boundary: human-reviewed model of LocalConnector::lock and DeleteListener; a watch reports every removal after
  its listener has been added, and no other
Main exports: LockPoint, LockCall, LockAction, lockStep, lockSystem, Sound, Timely, lock_sound, timely_of_gapless
Open obligations: none
-/
import Experimaestro.Library.TransitionSystem
import Experimaestro.Files.Paths

namespace Experimaestro.Files

open Experimaestro.Configuration (Path Str str)
open TransitionSystem

/-! ### The call -/

/-- Where a call of `lock` is. -/
inductive LockPoint where
  /-- About to open the file with `O_CREAT | O_EXCL`. -/
  | creating
  /-- The file could not be created; about to call `fileType`. -/
  | testing
  /-- About to make the `DirectoryWatcher` with its listener. -/
  | arming
  /-- The watch has begun; about to wait for `deleted`. -/
  | armed
  | waiting
  | locked
  /-- `nullptr`, after `wait_for`. -/
  | timedOut
  /-- `io_error`, with what `fileType` has given. -/
  | threw (seen : FileType) (message : Str)
deriving DecidableEq

/-- A call, and what is at its path. -/
structure LockCall where
  entry : FileType
  point : LockPoint
  /-- The removals that the watch has reported and the listener has not handled. -/
  reports : ℕ
  /-- `listener.deleted` -/
  deleted : Bool
deriving DecidableEq

/-- The steps of the call, of the listener (`notify`) and of other processes. -/
inductive LockAction where
  | create
  | test
  | watch
  | wait
  | notify
  | wake
  | timeOut
  | appear (type : FileType)
  | vanish
deriving DecidableEq

/-- The message of the `io_error`. -/
def notAFile (path : Path) : Str := str "Lock path " ++ path.localpart ++ str " already exists and is not a file"

/-- The watch reports to the listener. -/
def LockPoint.Watching (point : LockPoint) : Prop := point = .armed ∨ point = .waiting

instance (point : LockPoint) : Decidable point.Watching := inferInstanceAs (Decidable (_ ∨ _))

/-- One step; `none` where it is not possible. A duration of 0 is no limit. -/
def lockStep (path : Path) (duration : ℕ) : LockAction → LockCall → Option LockCall
  | .create, s =>
      if s.point = .creating then
        some (if s.entry = .unexisting then { s with entry := .file, point := .locked }
          else { s with point := .testing })
      else none
  | .test, s =>
      if s.point = .testing then
        some { s with point := if s.entry = .file then .arming else .threw s.entry (notAFile path) }
      else none
  | .watch, s => if s.point = .arming then some { s with point := .armed, reports := 0, deleted := false } else none
  | .wait, s => if s.point = .armed then some { s with point := .waiting } else none
  | .notify, s =>
      if s.point.Watching ∧ 0 < s.reports then some { s with reports := s.reports - 1, deleted := true } else none
  | .wake, s =>
      if s.point = .waiting ∧ s.deleted = true then some { s with point := .creating, reports := 0, deleted := false }
      else none
  | .timeOut, s =>
      if s.point = .waiting ∧ s.deleted = false ∧ duration ≠ 0 then some { s with point := .timedOut } else none
  | .appear type, s => if s.entry = .unexisting then some { s with entry := type } else none
  | .vanish, s =>
      if s.entry ≠ .unexisting then
        some { s with entry := .unexisting, reports := if s.point.Watching then s.reports + 1 else s.reports }
      else none

/-- The beginning of a call. -/
def lockBegin (entry : FileType) : LockCall := ⟨entry, .creating, 0, false⟩

/-- A call and the other processes. -/
def lockSystem (path : Path) (duration : ℕ) (entry : FileType) : System LockCall LockAction :=
  System.ofFunction (lockBegin entry) (lockStep path duration)

/-! ### What is expected of it -/

/-- There is something at the path, or a removal has been reported to the watch. -/
def LockCall.Hopeful (s : LockCall) : Prop := s.entry ≠ .unexisting ∨ 0 < s.reports ∨ s.deleted = true

instance (s : LockCall) : Decidable s.Hopeful := inferInstanceAs (Decidable (_ ∨ _))

/-- The call has thrown only for something else than a regular file, and it does not wait in vain. -/
structure LockCall.Sound (s : LockCall) : Prop where
  thrown : ∀ seen message, s.point = .threw seen message → seen ≠ .unexisting ∧ seen ≠ .file
  waits : s.point = .waiting → s.Hopeful

/-- The type of a missing file is not asked for, and no wait begins without hope. -/
def Timely (s : LockCall) : LockAction → Prop
  | .test => s.entry ≠ .unexisting
  | .wait => s.Hopeful
  | _ => True

instance (s : LockCall) (a : LockAction) : Decidable (Timely s a) := by
  cases a <;> unfold Timely <;> infer_instance

/-! ### One step -/

section

variable {path : Path} {duration : ℕ} {s s' : LockCall} {a : LockAction}

/-- A state where the call neither waits nor has thrown. -/
theorem LockCall.Sound.of_going (calm : s.point ≠ .waiting) (going : ∀ seen message, s.point ≠ .threw seen message) :
    s.Sound :=
  ⟨fun seen message thrown => absurd thrown (going seen message), fun waits => absurd waits calm⟩

/-- A step that leaves the call where it is, and does not take its hope. -/
theorem LockCall.Sound.of_same (sound : s.Sound) (same : s'.point = s.point)
    (hopeful : s.point = .waiting → s.Hopeful → s'.Hopeful) : s'.Sound := by
  refine ⟨fun seen message thrown => sound.thrown seen message (same ▸ thrown), fun waits => ?_⟩
  rw [same] at waits
  exact hopeful waits (sound.waits waits)

/-- Each step leads to a sound state; `test` and `wait` do so if they are timely. -/
theorem sound_step (step : lockStep path duration a s = some s') (sound : s.Sound) : s'.Sound ↔ Timely s a := by
  cases a with
  | create =>
      obtain ⟨_, ⟨⟩⟩ := Option.ite_none_right_eq_some.mp step
      refine iff_of_true ?_ trivial
      split
      · exact .of_going (by simp) (by simp)
      · exact .of_going (by simp) (by simp)
  | test =>
      obtain ⟨_, ⟨⟩⟩ := Option.ite_none_right_eq_some.mp step
      by_cases regular : s.entry = .file
      · rw [if_pos regular]
        refine iff_of_true (.of_going (by simp) (by simp)) ?_
        simp [Timely, regular]
      · rw [if_neg regular]
        constructor
        · intro sound'
          exact (sound'.thrown s.entry (notAFile path) rfl).1
        · intro timely
          refine ⟨fun seen message thrown => ?_, fun waits => ?_⟩
          · cases thrown
            exact ⟨timely, regular⟩
          · cases waits
  | watch =>
      obtain ⟨_, ⟨⟩⟩ := Option.ite_none_right_eq_some.mp step
      exact iff_of_true (.of_going (by simp) (by simp)) trivial
  | wait =>
      obtain ⟨_, ⟨⟩⟩ := Option.ite_none_right_eq_some.mp step
      constructor
      · intro sound'
        exact sound'.waits rfl
      · intro timely
        refine ⟨fun seen message thrown => ?_, fun _ => timely⟩
        cases thrown
  | notify =>
      obtain ⟨_, ⟨⟩⟩ := Option.ite_none_right_eq_some.mp step
      refine iff_of_true (sound.of_same rfl fun _ _ => ?_) trivial
      exact Or.inr (Or.inr rfl)
  | wake =>
      obtain ⟨_, ⟨⟩⟩ := Option.ite_none_right_eq_some.mp step
      exact iff_of_true (.of_going (by simp) (by simp)) trivial
  | timeOut =>
      obtain ⟨_, ⟨⟩⟩ := Option.ite_none_right_eq_some.mp step
      exact iff_of_true (.of_going (by simp) (by simp)) trivial
  | appear type =>
      obtain ⟨absent, ⟨⟩⟩ := Option.ite_none_right_eq_some.mp step
      refine iff_of_true (sound.of_same rfl fun _ hopeful => ?_) trivial
      rcases hopeful with exist | reported
      · exact absurd absent exist
      · exact Or.inr reported
  | vanish =>
      obtain ⟨_, ⟨⟩⟩ := Option.ite_none_right_eq_some.mp step
      refine iff_of_true (sound.of_same rfl fun waits _ => ?_) trivial
      have watching : s.point.Watching := Or.inr waits
      refine Or.inr (Or.inl ?_)
      simp [watching]

end

/-! ### The result -/

/-- In every run whose steps are timely, the call is sound, and the next step leaves it so exactly if it is timely. -/
theorem lock_sound (path : Path) (duration : ℕ) (entry : FileType) {s : LockCall}
    (run : (lockSystem path duration entry).RunUnder Timely s) :
    s.Sound ∧ ∀ a s', (lockSystem path duration entry).next s a s' → (s'.Sound ↔ Timely s a) := by
  have sound : s.Sound := by
    refine run.invariant LockCall.Sound ?_ ?_
    · rintro _ rfl
      exact .of_going (by simp [lockBegin]) (by simp [lockBegin])
    · intro s a s' _ timely next sound
      exact (sound_step next sound).mpr timely
  exact ⟨sound, fun a s' next => sound_step next sound⟩

/-- The file is there, is watched, is removed, and the call takes the lock. -/
theorem lock_sound_released :
    ∃ s, (lockSystem ⟨[], str "/x/a.lock"⟩ 5 .file).RunUnder Timely s ∧ s.point = .locked ∧ s.Sound := by
  have executed : (runActions (guarded Timely (lockStep ⟨[], str "/x/a.lock"⟩ 5))
      [.create, .test, .watch, .wait, .vanish, .notify, .wake, .create] (lockBegin .file)).map LockCall.point =
        some .locked := by decide
  obtain ⟨s, run, locked⟩ := exists_runUnder_of_runActions executed
  exact ⟨s, run, locked, (lock_sound ⟨[], str "/x/a.lock"⟩ 5 .file run).1⟩

/-- The file is removed between the creation that has failed and the test, or between the test and the watch. -/
theorem lock_misled :
    (∃ s, (lockSystem ⟨[], str "/x/a.lock"⟩ 5 .file).Reachable s ∧
      s.point = .threw .unexisting (notAFile ⟨[], str "/x/a.lock"⟩) ∧ ¬ s.Sound) ∧
    ∃ s, (lockSystem ⟨[], str "/x/a.lock"⟩ 5 .file).Reachable s ∧ s = ⟨.unexisting, .waiting, 0, false⟩ ∧
      ¬ s.Sound := by
  constructor
  · have executed : (runActions (lockStep ⟨[], str "/x/a.lock"⟩ 5) [.create, .vanish, .test] (lockBegin .file)).map
        LockCall.point = some (.threw .unexisting (notAFile ⟨[], str "/x/a.lock"⟩)) := by decide
    obtain ⟨s, run, thrown⟩ := exists_reachable_of_runActions executed
    exact ⟨s, run, thrown, fun sound => (sound.thrown _ _ thrown).1 rfl⟩
  · have executed : (runActions (lockStep ⟨[], str "/x/a.lock"⟩ 5) [.create, .test, .vanish, .watch, .wait]
        (lockBegin .file)).map id = some ⟨.unexisting, .waiting, 0, false⟩ := by decide
    obtain ⟨s, run, same⟩ := exists_reachable_of_runActions executed
    refine ⟨s, run, same, fun sound => ?_⟩
    subst same
    exact absurd (sound.waits rfl) (by decide)

/-! ### The two gaps -/

/-- Nothing is removed between the creation that has failed and the beginning of the watch. -/
def Gapless (s : LockCall) : LockAction → Prop
  | .vanish => s.point ≠ .testing ∧ s.point ≠ .arming
  | _ => True

/-- What the call has found is still there, or it will be told. -/
structure LockCall.UpToDate (s : LockCall) : Prop where
  present : s.point = .testing ∨ s.point = .arming → s.entry ≠ .unexisting
  hopeful : s.point = .armed → s.Hopeful

section

variable {path : Path} {duration : ℕ} {s s' : LockCall} {a : LockAction}

theorem upToDate_step (step : lockStep path duration a s = some s') (gapless : Gapless s a) (current : s.UpToDate) :
    s'.UpToDate := by
  cases a with
  | create =>
      obtain ⟨_, ⟨⟩⟩ := Option.ite_none_right_eq_some.mp step
      split
      · exact ⟨by simp, by simp⟩
      · rename_i exist
        exact ⟨fun _ => exist, by simp⟩
  | test =>
      obtain ⟨testing, ⟨⟩⟩ := Option.ite_none_right_eq_some.mp step
      refine ⟨fun _ => current.present (Or.inl testing), fun armed => ?_⟩
      dsimp only at armed
      split at armed
      · cases armed
      · cases armed
  | watch =>
      obtain ⟨arming, ⟨⟩⟩ := Option.ite_none_right_eq_some.mp step
      exact ⟨by simp, fun _ => Or.inl (current.present (Or.inr arming))⟩
  | wait =>
      obtain ⟨_, ⟨⟩⟩ := Option.ite_none_right_eq_some.mp step
      exact ⟨by simp, by simp⟩
  | notify =>
      obtain ⟨_, ⟨⟩⟩ := Option.ite_none_right_eq_some.mp step
      exact ⟨current.present, fun _ => Or.inr (Or.inr rfl)⟩
  | wake =>
      obtain ⟨_, ⟨⟩⟩ := Option.ite_none_right_eq_some.mp step
      exact ⟨by simp, by simp⟩
  | timeOut =>
      obtain ⟨_, ⟨⟩⟩ := Option.ite_none_right_eq_some.mp step
      exact ⟨by simp, by simp⟩
  | appear type =>
      obtain ⟨absent, ⟨⟩⟩ := Option.ite_none_right_eq_some.mp step
      refine ⟨fun between => absurd absent (current.present between), fun armed => ?_⟩
      exact (current.hopeful armed).elim (absurd absent) Or.inr
  | vanish =>
      obtain ⟨_, ⟨⟩⟩ := Option.ite_none_right_eq_some.mp step
      refine ⟨fun between => ?_, fun armed => Or.inr (Or.inl ?_)⟩
      · rcases between with testing | arming
        · exact absurd testing gapless.1
        · exact absurd arming gapless.2
      · have watching : s.point.Watching := Or.inl armed
        simp [watching]

/-- What is up to date does not mislead. -/
theorem LockCall.UpToDate.timely (step : lockStep path duration a s = some s') (current : s.UpToDate) : Timely s a := by
  cases a with
  | test =>
      obtain ⟨testing, _⟩ := Option.ite_none_right_eq_some.mp step
      exact current.present (Or.inl testing)
  | wait =>
      obtain ⟨armed, _⟩ := Option.ite_none_right_eq_some.mp step
      exact current.hopeful armed
  | _ => trivial

end

/-- Only removals in the two gaps can mislead the call. -/
theorem timely_of_gapless (path : Path) (duration : ℕ) (entry : FileType) {s : LockCall}
    (run : (lockSystem path duration entry).RunUnder Gapless s) :
    (lockSystem path duration entry).RunUnder Timely s ∧ s.UpToDate := by
  induction run with
  | start init =>
      cases init
      exact ⟨.start rfl, ⟨by simp [lockBegin], by simp [lockBegin]⟩⟩
  | step _ gapless next ih =>
      exact ⟨.step ih.1 (ih.2.timely next) next, upToDate_step next gapless ih.2⟩

end Experimaestro.Files

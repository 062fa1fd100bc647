/-
Module: Experimaestro.Files.ControlFiles
Layer: Files
Purpose: The files beside the locator of a job. Some have the path of the locator with an extension; the script and the
  redirected outputs have the name of the locator, with a suffix, in its directory. Both are the path with a suffix
  as long as the name has no dot: where it has one, `withExtension` cuts the name off there, without a dot before the
  extension.
Imports: Experimaestro.Files.Paths
Trusted boundary: human-reviewed model of EXIT_CODE_PATH, LOCK_PATH, LOCK_START_PATH, DONE_PATH, PID_PATH,
  Job::stdoutPath, Job::stderrPath, and of the paths that ShScriptBuilder::write and CommandLineJob::run make
Main exports: Normalised, controlFiles, Separate, Plain, controlFiles_plain, control_files_separate
Open obligations: none
-/
import Experimaestro.Files.Paths

namespace Experimaestro.Files

open Experimaestro.Configuration (Path Str str)
open Separators (lastIndex_append lastIndex_eq_none)

/-! ### The files -/

/-- `EXIT_CODE_PATH`. -/
def exitCodePath (locator : Path) : Path := withExtension locator (str "code")

/-- `LOCK_PATH`. -/
def lockPath (locator : Path) : Path := withExtension locator (str "lock")

/-- `LOCK_START_PATH`. -/
def lockStartPath (locator : Path) : Path := withExtension locator (str "lock.start")

/-- `DONE_PATH`. -/
def donePath (locator : Path) : Path := withExtension locator (str "done")

/-- `PID_PATH`. -/
def pidPath (locator : Path) : Path := withExtension locator (str "pid")

/-- `Job::stdoutPath`. -/
def stdoutPath (locator : Path) : Path := withExtension locator (str "out")

/-- `Job::stderrPath`. -/
def stderrPath (locator : Path) : Path := withExtension locator (str "err")

/-- A file in the directory of the locator, with its name and a suffix. -/
def besideName (locator : Path) (suffix : Str) : Path := inDirectory (parent locator) [name locator ++ suffix]

/-- The script of `ShScriptBuilder::write`. -/
def scriptPath (locator : Path) : Path := besideName locator (str ".sh")

/-- Where `CommandLineJob::run` redirects the output of the process. -/
def redirectedOut (locator : Path) : Path := besideName locator (str ".out")

/-- Where `CommandLineJob::run` redirects the errors of the process. -/
def redirectedErr (locator : Path) : Path := besideName locator (str ".err")

/-- The code, lock, start-lock, done, pid and script files. -/
def markers (locator : Path) : List Path :=
  [exitCodePath locator, lockPath locator, lockStartPath locator, donePath locator, pidPath locator, scriptPath locator]

/-- All files that are derived from a locator. -/
def controlFiles (locator : Path) : List Path :=
  markers locator ++ [stdoutPath locator, stderrPath locator, redirectedOut locator, redirectedErr locator]

/-- The files of one job: the markers differ, and the output goes to the files where it is looked for. -/
structure Consistent (locator : Path) : Prop where
  distinct : (markers locator).Nodup
  out : redirectedOut locator = stdoutPath locator
  err : redirectedErr locator = stderrPath locator

/-- The files of two jobs. -/
structure Separate (one two : Path) : Prop where
  first : Consistent one
  second : Consistent two
  disjoint : ∀ file ∈ controlFiles one, file ∉ controlFiles two

/-- A path without empty, `.` and `..` components, absolute or relative. -/
def Normalised (text : Str) : Prop :=
  NormalForm text ∨ ∀ component ∈ text.splitOn slash, NormalComponent component

/-- `'.'` -/
def dot : UInt8 := 46

/-- The name has no dot, and there is a directory before it. -/
structure Plain (locator : Path) : Prop where
  undotted : dot ∉ name locator
  inside : slash ∈ locator.localpart

/-! ### Names -/

theorem withExtension_split {share front piece : Str} (apart : slash ∉ piece) (extension : Str) :
    withExtension ⟨share, front ++ slash :: piece⟩ extension =
      match piece.idxOf? dot with
      | none => ⟨share, front ++ slash :: (piece ++ str "." ++ extension)⟩
      | some i => ⟨share, front ++ slash :: (piece.take i ++ extension)⟩ := by
  have search : findFrom 46 (front ++ slash :: piece) front.length =
      (piece.idxOf? dot).map fun i => front.length + 1 + i := by
    rw [findFrom, List.drop_left, List.idxOf?_cons]
    simp only [show (slash == (46 : UInt8)) = false from rfl, Bool.false_eq_true, if_false, Option.map_map]
    congr 1
    funext i
    simp only [Function.comp]
    omega
  rw [withExtension, lastIndex_append front apart]
  simp only [Option.getD_some, search]
  cases piece.idxOf? dot with
  | none => simp
  | some i =>
      simp only [Option.map_some]
      rw [show front.length + 1 + i = front.length + (1 + i) from Nat.add_assoc _ _ _, List.take_length_add_append,
        Nat.add_comm 1 i]
      simp

/-- A normalised path with a slash: the text before the last slash is not the root. -/
theorem Normalised.split {locator : Path} (normalised : Normalised locator.localpart)
    (inside : slash ∈ locator.localpart) :
    ∃ share front piece, locator = ⟨share, front ++ slash :: piece⟩ ∧ slash ∉ piece ∧ front ≠ [slash] := by
  obtain ⟨share, front, piece, rfl, apart⟩ := exists_split inside
  refine ⟨share, front, piece, rfl, apart, ?_⟩
  rintro rfl
  have empty (rest : Str) : [] ∈ (slash :: rest).splitOn slash := by
    rw [show slash :: rest = [] ++ slash :: rest from rfl, List.splitOn_append_cons_self_of_not_mem List.not_mem_nil]
    exact List.mem_cons_self
  rcases normalised with absolute | relative
  · have other : [slash] ++ slash :: piece ≠ [slash] := by simp
    have component : [] ∈ components ([slash] ++ slash :: piece) := by
      rw [components, if_neg other]
      exact empty piece
    exact (absolute.normal [] component).filled rfl
  · exact (relative [] (empty (slash :: piece))).filled rfl

/-- A file beside the locator has the path of the locator, with the suffix. -/
theorem besideName_split {share front piece : Str} (apart : slash ∉ piece) (below : front ≠ [slash]) (suffix : Str) :
    besideName ⟨share, front ++ slash :: piece⟩ suffix = ⟨share, front ++ slash :: (piece ++ suffix)⟩ := by
  rw [besideName, name_split apart, parent_split apart, inDirectory]
  by_cases root : front = []
  · simp [root]
  · simp [root, below]

/-- The path of a locator with a suffix. -/
def suffixed (locator : Path) (suffix : Str) : Path := ⟨locator.share, locator.localpart ++ suffix⟩

/-- What is put behind the path of a locator whose name has no dot. -/
def markerSuffixes : List Str :=
  [str ".code", str ".lock", str ".lock.start", str ".done", str ".pid", str ".sh"]

/-- The same, for all control files. -/
def suffixes : List Str := markerSuffixes ++ [str ".out", str ".err", str ".out", str ".err"]

theorem withExtension_plain {locator : Path} (plain : Plain locator) (extension : Str) :
    withExtension locator extension = suffixed locator (str "." ++ extension) := by
  obtain ⟨undotted, inside⟩ := plain
  obtain ⟨share, front, piece, rfl, apart⟩ := exists_split inside
  rw [name_split apart] at undotted
  rw [withExtension_split apart, List.idxOf?_eq_none_iff.mpr undotted]
  simp [suffixed]

theorem besideName_plain {locator : Path} (normalised : Normalised locator.localpart) (plain : Plain locator)
    (suffix : Str) : besideName locator suffix = suffixed locator suffix := by
  obtain ⟨share, front, piece, rfl, apart, below⟩ := normalised.split plain.inside
  rw [besideName_split apart below]
  simp [suffixed]

theorem markers_plain {locator : Path} (normalised : Normalised locator.localpart) (plain : Plain locator) :
    markers locator = markerSuffixes.map (suffixed locator) := by
  simp only [markers, exitCodePath, lockPath, lockStartPath, donePath, pidPath, scriptPath, withExtension_plain plain,
    besideName_plain normalised plain]
  rfl

theorem controlFiles_plain {locator : Path} (normalised : Normalised locator.localpart) (plain : Plain locator) :
    controlFiles locator = suffixes.map (suffixed locator) := by
  rw [controlFiles, markers_plain normalised plain, suffixes, List.map_append]
  simp only [stdoutPath, stderrPath, redirectedOut, redirectedErr, withExtension_plain plain,
    besideName_plain normalised plain]
  rfl

/-- A suffix begins with a dot and has no slash. -/
theorem suffix_shape : ∀ suffix ∈ suffixes, suffix.head? = some dot ∧ slash ∉ suffix := by decide

/-- The name ends where the first dot is. -/
theorem append_dot_injective {one two rest rest' : Str} (free : dot ∉ one) (free' : dot ∉ two)
    (same : one ++ dot :: rest = two ++ dot :: rest') : one = two := by
  have first := List.splitOn_append_cons_self_of_not_mem free rest
  rw [same, List.splitOn_append_cons_self_of_not_mem free' rest'] at first
  exact (List.cons.inj first).1.symm

/-- A control file tells its locator. -/
theorem suffixed_injective {one two : Path} (plain : Plain one) (plain' : Plain two) {suffix suffix' : Str}
    (member : suffix ∈ suffixes) (member' : suffix' ∈ suffixes) (same : suffixed one suffix = suffixed two suffix') :
    one = two := by
  obtain ⟨undotted, inside⟩ := plain
  obtain ⟨undotted', inside'⟩ := plain'
  obtain ⟨share, front, piece, rfl, apart⟩ := exists_split inside
  obtain ⟨share', front', piece', rfl, apart'⟩ := exists_split inside'
  rw [name_split apart] at undotted
  rw [name_split apart'] at undotted'
  obtain ⟨begins, free⟩ := suffix_shape suffix member
  obtain ⟨begins', free'⟩ := suffix_shape suffix' member'
  obtain ⟨rest, rfl⟩ := List.head?_eq_some_iff.mp begins
  obtain ⟨rest', rfl⟩ := List.head?_eq_some_iff.mp begins'
  have shares : share = share' := (Configuration.Path.mk.inj same).1
  have texts := (Configuration.Path.mk.inj same).2
  rw [List.append_assoc, List.cons_append, List.append_assoc, List.cons_append] at texts
  have lengths : some front.length = some front'.length := by
    have one_slash : slash ∉ piece ++ dot :: rest := by simp [apart, free]
    have two_slash : slash ∉ piece' ++ dot :: rest' := by simp [apart', free']
    rw [← lastIndex_append front one_slash, texts, lastIndex_append front' two_slash]
  obtain ⟨fronts, behind⟩ := List.append_inj texts (Option.some.inj lengths)
  have pieces := append_dot_injective undotted undotted' (List.cons.inj behind).2
  rw [shares, fronts, pieces]

/-! ### The result -/

/-- An extension makes a path longer by the extension and a dot, at most. -/
theorem length_withExtension (locator : Path) (extension : Str) :
    (withExtension locator extension).localpart.length ≤ locator.localpart.length + 1 + extension.length := by
  have one : (str ".").length = 1 := rfl
  simp only [withExtension]
  split
  · simp only [List.length_append, one]
    omega
  · simp only [List.length_append, List.length_take]
    omega

/-- The output goes to `stdoutPath` only where there is a directory before the name. -/
theorem inside_of_redirected {locator : Path} (same : redirectedOut locator = stdoutPath locator) :
    slash ∈ locator.localpart := by
  obtain ⟨share, text⟩ := locator
  by_contra without
  have missing := lastIndex_eq_none.mpr without
  have other : text ≠ [slash] := fun root => without (root ▸ List.mem_cons_self)
  have long : (redirectedOut ⟨share, text⟩).localpart.length = text.length + 1 + (text.length + (str ".out").length) := by
    simp [redirectedOut, besideName, inDirectory, parent, name, missing, other]
    omega
  have short := length_withExtension ⟨share, text⟩ (str "out")
  have fewer : (str "out").length < (str ".out").length := by decide
  rw [same] at long
  change (withExtension ⟨share, text⟩ (str "out")).localpart.length = _ at long
  dsimp only at long short
  omega

/-- The output goes to `stdoutPath` only where the name has no dot. -/
theorem plain_of_redirected {locator : Path} (normalised : Normalised locator.localpart)
    (same : redirectedOut locator = stdoutPath locator) : Plain locator := by
  have inside := inside_of_redirected same
  refine ⟨?_, inside⟩
  obtain ⟨share, front, piece, rfl, apart, below⟩ := normalised.split inside
  rw [name_split apart]
  intro member
  rw [redirectedOut, besideName_split apart below, stdoutPath, withExtension_split apart] at same
  cases found : piece.idxOf? dot with
  | none => exact List.idxOf?_eq_none_iff.mp found member
  | some i =>
      have fewer : (str "out").length < (str ".out").length := by decide
      rw [found] at same
      have lengths := congrArg List.length (Configuration.Path.mk.inj same).2
      simp only [List.length_append, List.length_cons, List.length_take] at lengths
      omega

theorem consistent_iff {locator : Path} (normalised : Normalised locator.localpart) :
    Consistent locator ↔ Plain locator := by
  constructor
  · intro consistent
    exact plain_of_redirected normalised consistent.out
  · intro plain
    refine ⟨?_, ?_, ?_⟩
    · rw [markers_plain normalised plain]
      apply List.Nodup.map
      · intro one two same
        exact List.append_cancel_left (Configuration.Path.mk.inj same).2
      · decide
    · rw [redirectedOut, stdoutPath, besideName_plain normalised plain, withExtension_plain plain]
      rfl
    · rw [redirectedErr, stderrPath, besideName_plain normalised plain, withExtension_plain plain]
      rfl

/-- The control files of two jobs with different normalised locators are as they should be exactly if neither name has
    a dot and both locators have a directory. -/
theorem control_files_separate {one two : Path} (distinct : one ≠ two) (normalised : Normalised one.localpart)
    (normalised' : Normalised two.localpart) : Separate one two ↔ Plain one ∧ Plain two := by
  constructor
  · intro separate
    exact ⟨(consistent_iff normalised).mp separate.first, (consistent_iff normalised').mp separate.second⟩
  · intro ⟨plain, plain'⟩
    refine ⟨(consistent_iff normalised).mpr plain, (consistent_iff normalised').mpr plain', ?_⟩
    rw [controlFiles_plain normalised plain, controlFiles_plain normalised' plain']
    intro file member member'
    obtain ⟨suffix, inside, rfl⟩ := List.mem_map.mp member
    obtain ⟨suffix', inside', same⟩ := List.mem_map.mp member'
    exact distinct (suffixed_injective plain plain' inside inside' same.symm)

/-- Two jobs in one directory. -/
theorem control_files_separate_jobs : Separate ⟨[], str "/x/a"⟩ ⟨[], str "/x/b"⟩ := by
  have distinct : (⟨[], str "/x/a"⟩ : Path) ≠ ⟨[], str "/x/b"⟩ := fun same =>
    absurd (Configuration.Path.mk.inj same).2 (by decide)
  have normalised : Normalised (str "/x/a") := Or.inl (by decide)
  have normalised' : Normalised (str "/x/b") := Or.inl (by decide)
  exact (control_files_separate distinct normalised normalised').mpr
    ⟨⟨by decide, by decide⟩, ⟨by decide, by decide⟩⟩

/-- The names `a.b` and `a.c` have dots: both jobs have the exit code in `/x/acode`. -/
theorem control_files_shared :
    exitCodePath ⟨[], str "/x/a.b"⟩ = ⟨[], str "/x/acode"⟩ ∧ exitCodePath ⟨[], str "/x/a.c"⟩ = ⟨[], str "/x/acode"⟩ ∧
      ¬ Separate ⟨[], str "/x/a.b"⟩ ⟨[], str "/x/a.c"⟩ := by
  refine ⟨rfl, rfl, fun separate => ?_⟩
  exact separate.disjoint ⟨[], str "/x/acode"⟩ List.mem_cons_self List.mem_cons_self

end Experimaestro.Files

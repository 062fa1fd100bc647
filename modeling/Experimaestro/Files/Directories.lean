/-
Module: Experimaestro.Files.Directories
Layer: Files
Purpose: `Connector::mkdirs`, which makes a directory and before it its parents. The recursion goes from a path to
  `parent`, which is shorter, up to the root or up to what precedes the first slash. The parent of a path without a
  slash is the path itself, so that the recursion never ends if there is no such directory. What is a directory is
  decided by one bit of the mode, which sockets and block devices have as well.
Imports: Experimaestro.Files.Paths
Trusted boundary: human-reviewed model of Connector::mkdirs and LocalConnector::fileType; the laws of FileSystem on stat
  and mkdir
Main exports: Mode, localFileType, FileSystem, mkdirs, Made, MakesDirectories, Grounded, Mistaken,
  mkdirs_makes_directories, Tree
Open obligations: none
-/
import Mathlib.Data.List.TakeWhile
import Mathlib.Logic.Function.Iterate
import Experimaestro.Files.Paths

namespace Experimaestro.Files

open Experimaestro.Configuration (Path Str str)
open Separators (lastIndex_eq_none splitOn_snoc)

/-! ### Modes -/

/-- `st_mode`. -/
abbrev Mode : Type := UInt32

/-- `S_IFMT`, the bits that tell the types of files apart. -/
def typeBits : Mode := 0o170000

/-- `S_IFDIR` -/
def directoryBit : Mode := 0o040000

/-- `S_IFREG` -/
def regularBit : Mode := 0o100000

/-- `S_ISDIR`, for what `stat` has found. -/
def isDirectory : Option Mode → Bool
  | some mode => mode &&& typeBits == directoryBit
  | none => false

/-- `LocalConnector::fileType`, for what `stat` has found. The tests are about single bits: a socket (`0o140000`) and a
    block device (`0o060000`) have the bit of a directory. -/
def localFileType : Option Mode → FileType
  | none => .unexisting
  | some mode =>
      if mode &&& directoryBit ≠ 0 then .directory else if mode &&& regularBit ≠ 0 then .file else .other

@[simp] theorem localFileType_unexisting {found : Option Mode} : localFileType found = .unexisting ↔ found = none := by
  cases found with
  | none => simp [localFileType]
  | some mode =>
      simp only [localFileType, reduceCtorEq, iff_false]
      split
      · simp
      · split <;> simp

theorem localFileType_directory {found : Option Mode} (directory : isDirectory found) :
    localFileType found = .directory := by
  cases found with
  | none => cases directory
  | some mode =>
      have bits : mode &&& typeBits = directoryBit := eq_of_beq directory
      have bit : mode &&& directoryBit = directoryBit :=
        calc mode &&& directoryBit = (mode &&& typeBits) &&& directoryBit := by rw [UInt32.and_assoc]; rfl
          _ = directoryBit := by rw [bits]; rfl
      rw [localFileType, bit]
      rfl

theorem isSome_of_isDirectory {found : Option Mode} (directory : isDirectory found) : found.isSome := by
  cases found with
  | none => cases directory
  | some mode => rfl

/-! ### The file system -/

/-- What a connector has of the operating system. Several paths may lead to one location, by `.`, `..`, doubled slashes
    and links; a path leads to a location also where there is nothing yet that could be its last component. -/
structure FileSystem (State Location : Type*) where
  locate : State → Path → Option Location
  mode : State → Location → Option Mode
  mkdir : Path → State → Except Str State
  /-- Whatever exists is in a directory. -/
  parent_directory : ∀ s path, ((locate s path).bind (mode s)).isSome → slash ∈ path.localpart →
    isDirectory ((locate s (parent path)).bind (mode s))
  /-- `mkdir` makes a directory at a place where there is nothing, and changes nothing else. -/
  mkdir_makes : ∀ path s s', mkdir path s = .ok s' →
    ∃ made, locate s path = some made ∧ locate s' path = some made ∧ mode s made = none ∧
      isDirectory (mode s' made) ∧ ∀ location ≠ made, mode s' location = mode s location
  /-- It makes it in a directory. -/
  mkdir_parent : ∀ path s s', mkdir path s = .ok s' → slash ∈ path.localpart →
    isDirectory ((locate s (parent path)).bind (mode s))
  /-- Paths to directories lead there as before. -/
  mkdir_locate : ∀ path s s' directory, mkdir path s = .ok s' →
    isDirectory ((locate s directory).bind (mode s)) → locate s' directory = locate s directory

namespace FileSystem

variable {State Location : Type*} (files : FileSystem State Location)

/-- `stat` -/
def stat (s : State) (path : Path) : Option Mode := (files.locate s path).bind (files.mode s)

/-- `fileType` -/
def fileType (s : State) (path : Path) : FileType := localFileType (files.stat s path)

/-! ### The code -/

/-- `Connector::mkdirs`, cut off when the calls are nested `n` deep: the state that it leaves, and how it ends. -/
def mkdirs : ℕ → Path → Bool → Bool → State → Option (State × Except Str Unit)
  | 0, _, _, _, _ => none
  | n + 1, path, createParents, errorExists, s =>
      let type := files.fileType s path
      if type = .directory then
        if errorExists then some (s, .error (str "Directory " ++ toText path ++ str " already exists"))
        else some (s, .ok ())
      else if type ≠ .unexisting ∧ errorExists then
        some (s, .error (str "Path " ++ toText path ++ str " is not a directory"))
      else
        match if createParents then mkdirs n (parent path) true false s else some (s, .ok ()) with
        | some (s', .ok ()) =>
            match files.mkdir path s' with
            | .ok made => some (made, .ok ())
            | .error message => some (s', .error message)
        | unfinished => unfinished

/-- The path and what `parent` makes of it are directories, and the only changes are directories at those of these
    paths where there was nothing. -/
structure Made (path : Path) (s s' : State) : Prop where
  directories : ∀ k, isDirectory (files.stat s' (parent^[k] path))
  unchanged : ∀ location, files.mode s' location = files.mode s location ∨
    files.mode s location = none ∧ isDirectory (files.mode s' location) ∧
      ∃ k, files.stat s (parent^[k] path) = none ∧ files.locate s' (parent^[k] path) = some location

/-- What `mkdirs` is for. -/
structure MakesDirectories (path : Path) (errorExists : Bool) (s : State) : Prop where
  ends : ∃ n, (files.mkdirs n path true errorExists s).isSome
  made : ∀ n s', files.mkdirs n path true errorExists s = some (s', .ok ()) → files.Made path s s'

end FileSystem

/-- What precedes the first slash. -/
def firstComponent (path : Path) : Path := ⟨path.share, path.localpart.takeWhile (· != slash)⟩

/-- The path is absolute, or its first component is taken for a directory. There is one more case where `mkdirs` ends:
    something else has the name of a path without a slash, and this is an error. -/
def FileSystem.Grounded {State Location : Type*} (files : FileSystem State Location) (path : Path) (errorExists : Bool)
    (s : State) : Prop :=
  isRelative path = false ∨ files.fileType s (firstComponent path) = .directory ∨
    slash ∉ path.localpart ∧ errorExists = true ∧ files.fileType s path ≠ .unexisting

/-- What is at the path is taken for a directory and is none. -/
def FileSystem.Mistaken {State Location : Type*} (files : FileSystem State Location) (path : Path) (s : State) : Prop :=
  files.fileType s path = .directory ∧ ¬ isDirectory (files.stat s path)

/-! ### Where `parent` leads -/

/-- The root, or what precedes the first slash. -/
def origin (path : Path) : Path := if isRelative path then firstComponent path else ⟨path.share, [slash]⟩

theorem parent_of_not_mem {path : Path} (without : slash ∉ path.localpart) : parent path = path := by
  rw [parent, lastIndex_eq_none.mpr without]

theorem takeWhile_split (front piece : Str) :
    (front ++ slash :: piece).takeWhile (· != slash) = front.takeWhile (· != slash) := by
  induction front with
  | nil => rfl
  | cons c rest ih => rw [List.cons_append, List.takeWhile_cons, List.takeWhile_cons, ih]

theorem origin_parent {path : Path} (inside : slash ∈ path.localpart) : origin (parent path) = origin path := by
  obtain ⟨share, front, piece, rfl, apart⟩ := exists_split inside
  rw [parent_split apart]
  cases front with
  | nil => rfl
  | cons c rest =>
      rw [if_neg (List.cons_ne_nil c rest), origin, origin, firstComponent, firstComponent, takeWhile_split]
      rfl

theorem origin_of_not_mem {path : Path} (without : slash ∉ path.localpart) : origin path = path := by
  obtain ⟨share, text⟩ := path
  have relative : isRelative ⟨share, text⟩ = true := by
    cases text with
    | nil => rfl
    | cons c rest =>
        have other : c ≠ slash := (List.ne_and_not_mem_of_not_mem_cons without).1.symm
        simpa [isRelative] using other
  have whole : text.takeWhile (· != slash) = text := by
    rw [List.takeWhile_eq_self_iff]
    intro c member
    exact bne_iff_ne.mpr fun same => without (same ▸ member)
  rw [origin, if_pos relative, firstComponent, whole]

/-- A parent is shorter, up to the origin. -/
theorem parent_shorter {path : Path} (inside : slash ∈ path.localpart) (below : origin path ≠ path) :
    (parent path).localpart.length < path.localpart.length := by
  obtain ⟨share, front, piece, rfl, apart⟩ := exists_split inside
  rw [parent_split apart]
  cases front with
  | nil =>
      have filled : piece ≠ [] := by
        rintro rfl
        exact below rfl
      have positive := List.length_pos_iff.mpr filled
      simp only [if_true, List.nil_append, List.length_cons, List.length_nil]
      omega
  | cons c rest =>
      simp only [reduceCtorEq, if_false, List.length_append, List.length_cons]
      omega

/-- Induction along the parents, from the origin on. -/
theorem origin_induction {motive : Path → Prop} (start : ∀ path, origin path = path → motive path)
    (below : ∀ path, slash ∈ path.localpart → motive (parent path) → motive path) (path : Path) : motive path := by
  induction length : path.localpart.length using Nat.strong_induction_on generalizing path with
  | _ n ih =>
      subst length
      by_cases top : origin path = path
      · exact start path top
      · have inside : slash ∈ path.localpart := by
          by_contra without
          exact top (origin_of_not_mem without)
        exact below path inside (ih _ (parent_shorter inside top) (parent path) rfl)

/-! ### One call -/

namespace FileSystem

section

variable {State Location : Type*} {files : FileSystem State Location} {s s' : State} {path : Path}

theorem fileType_unexisting : files.fileType s path = .unexisting ↔ files.stat s path = none :=
  localFileType_unexisting

theorem exists_of_fileType (exist : files.fileType s path ≠ .unexisting) : (files.stat s path).isSome :=
  Option.isSome_iff_ne_none.mpr fun missing => exist (fileType_unexisting.mpr missing)

theorem fileType_directory (directory : isDirectory (files.stat s path)) : files.fileType s path = .directory :=
  localFileType_directory directory

theorem directory_parent (exist : files.fileType s path ≠ .unexisting) (inside : slash ∈ path.localpart) :
    isDirectory (files.stat s (parent path)) :=
  files.parent_directory s path (exists_of_fileType exist) inside

/-- The parents of a directory are directories. -/
theorem directory_iterate (directory : isDirectory (files.stat s path)) (k : ℕ) :
    isDirectory (files.stat s (parent^[k] path)) := by
  induction k generalizing path with
  | zero => exact directory
  | succ k ih =>
      rw [Function.iterate_succ_apply]
      apply ih
      by_cases inside : slash ∈ path.localpart
      · exact files.parent_directory s path (isSome_of_isDirectory directory) inside
      · rwa [parent_of_not_mem inside]

/-- What is taken for a directory is in directories. -/
theorem directory_origin (directory : files.fileType s path = .directory) :
    files.fileType s (origin path) = .directory := by
  induction path using origin_induction with
  | start path top => rwa [top]
  | below path inside ih =>
      rw [← origin_parent inside]
      exact ih (fileType_directory (directory_parent (by simp [directory]) inside))

/-- A call for a directory leaves the state as it is. -/
theorem mkdirs_directory {n : ℕ} {createParents : Bool} {outcome : Except Str Unit}
    (directory : files.fileType s path = .directory)
    (run : files.mkdirs n path createParents false s = some (s', outcome)) : s' = s := by
  cases n with
  | zero => cases run
  | succ n =>
      simp only [mkdirs, directory, if_true, Bool.false_eq_true, if_false] at run
      exact (Prod.mk.inj (Option.some.inj run)).1.symm

/-- A call that returns: there is a directory already, or it makes the parents and then the directory. -/
theorem mkdirs_cases {n : ℕ} {errorExists : Bool}
    (run : files.mkdirs (n + 1) path true errorExists s = some (s', .ok ())) :
    files.fileType s path = .directory ∧ s' = s ∨
      files.fileType s path ≠ .directory ∧
        ∃ between, files.mkdirs n (parent path) true false s = some (between, .ok ()) ∧
          files.mkdir path between = .ok s' := by
  rw [mkdirs] at run
  split at run
  · rename_i directory
    left
    cases errorExists with
    | true => cases run
    | false => exact ⟨directory, (Prod.mk.inj (Option.some.inj run)).1.symm⟩
  · rename_i missing
    split at run
    · cases run
    · right
      refine ⟨missing, ?_⟩
      rw [if_pos rfl] at run
      cases parents : files.mkdirs n (parent path) true false s with
      | none => rw [parents] at run; cases run
      | some result =>
          obtain ⟨between, outcome⟩ := result
          rw [parents] at run
          cases outcome with
          | error message => cases run
          | ok _ =>
              refine ⟨between, rfl, ?_⟩
              dsimp only at run
              cases making : files.mkdir path between with
              | error message => rw [making] at run; cases run
              | ok made =>
                  rw [making] at run
                  exact congrArg Except.ok (Prod.mk.inj (Option.some.inj run)).1

theorem mkdir_missing (making : files.mkdir path s = .ok s') : files.stat s path = none := by
  obtain ⟨made, here, _, nothing, _, _⟩ := files.mkdir_makes path s s' making
  rw [stat, here]
  exact nothing

theorem mkdir_directory (making : files.mkdir path s = .ok s') : isDirectory (files.stat s' path) := by
  obtain ⟨made, _, here, _, directory, _⟩ := files.mkdir_makes path s s' making
  rw [stat, here]
  exact directory

/-- Where a call returns, there is something at the path. -/
theorem mkdirs_exists {n : ℕ} {errorExists : Bool}
    (run : files.mkdirs n path true errorExists s = some (s', .ok ())) : files.stat s' path ≠ none := by
  cases n with
  | zero => cases run
  | succ n =>
      rcases mkdirs_cases run with ⟨directory, rfl⟩ | ⟨_, between, _, making⟩
      · rw [ne_eq, ← fileType_unexisting, directory]
        simp
      · exact Option.isSome_iff_ne_none.mp (isSome_of_isDirectory (mkdir_directory making))

/-- The change of the parents, and then of the directory. -/
theorem Made.mkdir {between : State} (parents : files.Made (parent path) s between)
    (making : files.mkdir path between = .ok s') (missing : files.stat s path = none) :
    files.Made path s s' := by
  refine ⟨directory_iterate (mkdir_directory making), fun location => ?_⟩
  obtain ⟨made, _, here, nothing, directory, same⟩ := files.mkdir_makes path between s' making
  rcases parents.unchanged location with before | ⟨empty, changed, k, absent, leads⟩
  · by_cases new : location = made
    · subst new
      exact Or.inr ⟨before ▸ nothing, directory, 0, missing, here⟩
    · exact Or.inl ((same location new).trans before)
  · have old : location ≠ made := by
      rintro rfl
      rw [nothing] at changed
      cases changed
    refine Or.inr ⟨empty, (same location old).symm ▸ changed, k + 1, absent, ?_⟩
    rw [Function.iterate_succ_apply, files.mkdir_locate path between s' _ making (parents.directories k)]
    exact leads

/-- Where a call returns and the path is a directory, so are its parents, and nothing else has changed. -/
theorem mkdirs_made {n : ℕ} {errorExists : Bool}
    (run : files.mkdirs n path true errorExists s = some (s', .ok ())) (directory : isDirectory (files.stat s' path)) :
    files.Made path s s' := by
  induction n generalizing path errorExists s' with
  | zero => cases run
  | succ n ih =>
      rcases mkdirs_cases run with ⟨_, rfl⟩ | ⟨other, between, parents, making⟩
      · exact ⟨directory_iterate directory, fun location => Or.inl rfl⟩
      · have inside : slash ∈ path.localpart := by
          -- the path would be its own parent, and exist before it is made
          by_contra without
          rw [parent_of_not_mem without] at parents
          exact mkdirs_exists parents (mkdir_missing making)
        have made := ih parents (files.mkdir_parent path between s' making inside)
        apply made.mkdir making
        -- what exists already, though it is no directory, makes `mkdir` fail
        by_contra exist
        have above := directory_parent (fun missing => exist (fileType_unexisting.mp missing)) inside
        rw [mkdirs_directory (fileType_directory above) parents] at making
        exact exist (mkdir_missing making)

/-- A call ends if the one for the parent does. -/
theorem mkdirs_ends_succ {n : ℕ} (errorExists : Bool) (parents : (files.mkdirs n (parent path) true false s).isSome) :
    (files.mkdirs (n + 1) path true errorExists s).isSome := by
  rw [mkdirs]
  split
  · split <;> rfl
  · split
    · rfl
    · rw [if_pos rfl]
      obtain ⟨⟨between, outcome⟩, ends⟩ := Option.isSome_iff_exists.mp parents
      rw [ends]
      cases outcome with
      | error message => rfl
      | ok _ =>
          dsimp only
          split <;> rfl

/-- The recursion ends at a directory. -/
theorem mkdirs_ends (grounded : files.fileType s (origin path) = .directory) (errorExists : Bool) :
    ∃ n, (files.mkdirs n path true errorExists s).isSome := by
  induction path using origin_induction generalizing errorExists with
  | start path top =>
      rw [top] at grounded
      refine ⟨1, ?_⟩
      rw [mkdirs, if_pos grounded]
      split <;> rfl
  | below path inside ih =>
      rw [← origin_parent inside] at grounded
      obtain ⟨n, ends⟩ := ih grounded false
      exact ⟨n + 1, mkdirs_ends_succ errorExists ends⟩

/-- Where the recursion finds no directory, it never ends. -/
theorem mkdirs_endless (ungrounded : files.fileType s (origin path) ≠ .directory) {errorExists : Bool}
    (silent : slash ∉ path.localpart → errorExists = true → files.fileType s path = .unexisting) (n : ℕ) :
    files.mkdirs n path true errorExists s = none := by
  induction n generalizing path errorExists with
  | zero => rfl
  | succ n ih =>
      have missing : files.fileType s path ≠ .directory := fun directory => ungrounded (directory_origin directory)
      have quiet : ¬ (files.fileType s path ≠ .unexisting ∧ errorExists = true) := by
        rintro ⟨exist, error⟩
        by_cases inside : slash ∈ path.localpart
        · apply ungrounded
          rw [← origin_parent inside]
          exact directory_origin (fileType_directory (directory_parent exist inside))
        · exact exist (silent inside error)
      have above : files.fileType s (origin (parent path)) ≠ .directory := by
        by_cases inside : slash ∈ path.localpart
        · rwa [origin_parent inside]
        · rwa [parent_of_not_mem inside]
      rw [mkdirs, if_neg missing, if_neg quiet, if_pos rfl, ih above fun _ error => absurd error Bool.false_ne_true]

/-! ### The result -/

/-- The cases of `Grounded`, where the root is a directory. -/
theorem grounded_iff {errorExists : Bool} (root : files.fileType s ⟨path.share, [slash]⟩ = .directory) :
    files.Grounded path errorExists s ↔ files.fileType s (origin path) = .directory ∨
      slash ∉ path.localpart ∧ errorExists = true ∧ files.fileType s path ≠ .unexisting := by
  rw [Grounded, origin]
  cases isRelative path with
  | true => simp
  | false => simp [root]

/-- What is taken for a directory is left as it is. -/
theorem mkdirs_mistaken (mistaken : files.Mistaken path s) : files.mkdirs 1 path true false s = some (s, .ok ()) := by
  rw [mkdirs, if_pos mistaken.1]
  rfl

/-- Where a call returns, the path is a directory unless something else was taken for one. -/
theorem mkdirs_genuine {n : ℕ} {errorExists : Bool}
    (run : files.mkdirs n path true errorExists s = some (s', .ok ()))
    (genuine : errorExists = true ∨ ¬ files.Mistaken path s) : isDirectory (files.stat s' path) := by
  cases n with
  | zero => cases run
  | succ n =>
      rcases mkdirs_cases run with ⟨directory, rfl⟩ | ⟨_, between, _, making⟩
      · by_contra other
        rcases genuine with error | genuine
        · rw [mkdirs, if_pos directory, if_pos error] at run
          cases run
        · exact genuine ⟨directory, other⟩
      · exact mkdir_directory making

/-- `mkdirs` ends, and makes the directories and nothing else, exactly if the path is grounded and, unless
    `errorExists` is set, nothing at the path is mistaken for a directory. -/
theorem mkdirs_makes_directories (files : FileSystem State Location) (path : Path) (errorExists : Bool) (s : State)
    (root : isDirectory (files.stat s ⟨path.share, [slash]⟩)) :
    files.MakesDirectories path errorExists s ↔
      files.Grounded path errorExists s ∧ (errorExists = true ∨ ¬ files.Mistaken path s) := by
  rw [grounded_iff (fileType_directory root)]
  constructor
  · intro makes
    constructor
    · by_contra neither
      obtain ⟨ungrounded, silent⟩ := not_or.mp neither
      obtain ⟨n, ends⟩ := makes.ends
      have loops := mkdirs_endless ungrounded fun without error => by_contra fun exist => silent ⟨without, error, exist⟩
      rw [loops] at ends
      cases ends
    · cases errorExists with
      | true => exact Or.inl rfl
      | false =>
          refine Or.inr fun mistaken => mistaken.2 ?_
          exact (makes.made 1 s (mkdirs_mistaken mistaken)).directories 0
  · rintro ⟨grounded, genuine⟩
    refine ⟨?_, fun n s' run => mkdirs_made run (mkdirs_genuine run genuine)⟩
    rcases grounded with directory | ⟨without, error, exist⟩
    · exact mkdirs_ends directory errorExists
    · refine ⟨1, ?_⟩
      rw [mkdirs, error]
      split
      · rfl
      · rw [if_pos ⟨exist, rfl⟩]
        rfl

end

end FileSystem

/-! ### A file system without links -/

/-- A local file system: the mode of what is at each place, given by the names from the root on, and the current
    directory. -/
structure Tree where
  entries : List Str → Option Mode
  current : List Str

namespace Tree

/-- The place that some components lead to; each of them is looked up in a directory. -/
def walk (entries : List Str → Option Mode) : List Str → List Str → Option (List Str)
  | place, [] => some place
  | place, component :: rest =>
      if isDirectory (entries place) then walk entries (resolveStep place component) rest else none

/-- The place a path leads to. The empty path leads nowhere. -/
def locate (tree : Tree) (path : Path) : Option (List Str) :=
  if path.localpart = [] then none
  else walk tree.entries (if isRelative path then tree.current else []) (path.localpart.splitOn slash)

/-- The mode of a new directory. -/
def directoryMode : Mode := 0o040755

/-- `mkdir` of the operating system. -/
def mkdir (path : Path) (tree : Tree) : Except Str Tree :=
  match tree.locate path with
  | none => .error (str "Could not create directory " ++ toText path)
  | some place =>
      if tree.entries place = none then
        .ok { tree with entries := Function.update tree.entries place (some directoryMode) }
      else .error (str "Could not create directory " ++ toText path)

theorem walk_append (entries : List Str → Option Mode) (place front : List Str) (component : Str) :
    walk entries place (front ++ [component]) =
      (walk entries place front).bind fun directory =>
        if isDirectory (entries directory) then some (resolveStep directory component) else none := by
  induction front generalizing place with
  | nil => rfl
  | cons first rest ih =>
      rw [List.cons_append, walk, walk]
      split
      · exact ih _
      · rfl

/-- More directories leave the ways as they are. -/
theorem walk_mono {entries entries' : List Str → Option Mode}
    (more : ∀ place, isDirectory (entries place) → isDirectory (entries' place)) {start place : List Str}
    {pieces : List Str} (way : walk entries start pieces = some place) : walk entries' start pieces = some place := by
  induction pieces generalizing start with
  | nil => exact way
  | cons first rest ih =>
      rw [walk] at way ⊢
      split at way
      · rename_i directory
        rw [if_pos (more start directory)]
        exact ih way
      · cases way

/-- A path with a slash leads to a place in the directory that its parent leads to. -/
theorem locate_split (tree : Tree) {share front piece : Str} (apart : slash ∉ piece) :
    tree.locate ⟨share, front ++ slash :: piece⟩ =
      (tree.locate ⟨share, if front = [] then [slash] else front⟩).bind fun directory =>
        if isDirectory (tree.entries directory) then some (resolveStep directory piece) else none := by
  have pieces : (front ++ slash :: piece).splitOn slash = front.splitOn slash ++ [piece] := splitOn_snoc front apart
  cases front with
  | nil =>
      have root : [slash].splitOn slash = [[], []] := by decide
      have here : resolveStep [] [] = [] := rfl
      have absolute (rest : Str) : isRelative ⟨share, slash :: rest⟩ = false := rfl
      simp only [locate, List.nil_append, reduceCtorEq, if_false, if_true, absolute, Bool.false_eq_true, root]
        at pieces ⊢
      rw [pieces]
      simp only [List.splitOn_nil, List.singleton_append, walk, here]
      by_cases directory : isDirectory (tree.entries [])
      · simp [directory]
      · simp [directory]
  | cons c rest =>
      have same : isRelative ⟨share, c :: rest ++ slash :: piece⟩ = isRelative ⟨share, c :: rest⟩ := rfl
      have filled : c :: rest ++ slash :: piece ≠ [] := by simp
      rw [if_neg (List.cons_ne_nil c rest)]
      simp only [locate]
      rw [if_neg filled, if_neg (List.cons_ne_nil c rest), same, pieces, walk_append]

theorem mkdir_ok {path : Path} {tree tree' : Tree} (making : tree.mkdir path = .ok tree') :
    ∃ place, tree.locate path = some place ∧ tree.entries place = none ∧
      tree' = { tree with entries := Function.update tree.entries place (some directoryMode) } := by
  rw [mkdir] at making
  split at making
  · cases making
  · rename_i place here
    split at making
    · rename_i nothing
      exact ⟨place, here, nothing, (Except.ok.inj making).symm⟩
    · cases making

/-- After `mkdir`, paths lead where they have led. -/
theorem locate_mkdir {path other : Path} {tree tree' : Tree} {place : List Str} (making : tree.mkdir path = .ok tree')
    (leads : tree.locate other = some place) : tree'.locate other = some place := by
  obtain ⟨made, _, nothing, rfl⟩ := mkdir_ok making
  rw [locate] at leads ⊢
  split at leads
  · cases leads
  · rename_i filled
    rw [if_neg filled]
    apply walk_mono _ leads
    intro directory old
    change isDirectory (Function.update tree.entries made (some directoryMode) directory)
    by_cases new : directory = made
    · rw [new, Function.update_self]
      rfl
    · rwa [Function.update_of_ne new]

/-- Where a path with a slash leads anywhere, its parent is a directory. -/
theorem isDirectory_parent {tree : Tree} {path : Path} {place : List Str} (leads : tree.locate path = some place)
    (inside : slash ∈ path.localpart) : isDirectory ((tree.locate (parent path)).bind tree.entries) := by
  obtain ⟨share, front, piece, rfl, apart⟩ := exists_split inside
  rw [parent_split apart]
  rw [locate_split tree apart, Option.bind_eq_some_iff] at leads
  obtain ⟨directory, above, here⟩ := leads
  rw [above]
  exact (Option.ite_none_right_eq_some.mp here).1

/-- A tree, as a connector sees it. -/
def fileSystem : FileSystem Tree (List Str) where
  locate := locate
  mode := entries
  mkdir path tree := tree.mkdir path
  parent_directory tree path exist inside := by
    obtain ⟨place, leads⟩ := Option.isSome_iff_exists.mp (Option.isSome_of_isSome_bind exist)
    exact isDirectory_parent leads inside
  mkdir_makes path tree tree' making := by
    obtain ⟨made, here, nothing, changed⟩ := mkdir_ok making
    refine ⟨made, here, locate_mkdir making here, nothing, ?_, ?_⟩
    · rw [changed]
      change isDirectory (Function.update tree.entries made (some directoryMode) made)
      rw [Function.update_self]
      rfl
    · intro place other
      rw [changed]
      exact Function.update_of_ne other ..
  mkdir_parent path tree tree' making inside := by
    obtain ⟨made, here, _, _⟩ := mkdir_ok making
    exact isDirectory_parent here inside
  mkdir_locate path tree tree' directory making exist := by
    obtain ⟨place, leads⟩ := Option.isSome_iff_exists.mp (Option.isSome_of_isSome_bind (isSome_of_isDirectory exist))
    rw [leads]
    exact locate_mkdir making leads

/-- Nothing but the root, which is also the current directory. -/
def bare : Tree := ⟨fun place => if place = [] then some directoryMode else none, []⟩

/-- A directory `/tmp` with a socket. -/
def withSocket : Tree :=
  ⟨fun place =>
    if place = [] ∨ place = [str "tmp"] then some directoryMode
    else if place = [str "tmp", str "x.sock"] then some 0o140777
    else none, []⟩

end Tree

/-- The directories of an absolute path are made. -/
theorem FileSystem.mkdirs_makes_directories_absolute :
    Tree.fileSystem.MakesDirectories ⟨[], str "/a/b"⟩ false Tree.bare := by
  apply (mkdirs_makes_directories Tree.fileSystem ⟨[], str "/a/b"⟩ false Tree.bare (by decide)).mpr
  refine ⟨Or.inl rfl, Or.inr fun mistaken => ?_⟩
  cases mistaken.1

example : (Tree.fileSystem.mkdirs 3 ⟨[], str "/a/b"⟩ true false Tree.bare).map
    (fun result => isDirectory (result.1.entries [str "a", str "b"])) = some true := by decide

/-- A relative path without a slash that is missing is its own parent: the calls never end. A socket is taken for the
    directory that is asked for. -/
theorem FileSystem.mkdirs_relative_endless :
    (isDirectory (Tree.fileSystem.stat Tree.bare ⟨[], str "/"⟩) ∧
      isDirectory (Tree.fileSystem.stat Tree.bare ⟨[], str "."⟩) ∧
      (∀ n, Tree.fileSystem.mkdirs n ⟨[], str "a"⟩ true false Tree.bare = none) ∧
      ¬ Tree.fileSystem.MakesDirectories ⟨[], str "a"⟩ false Tree.bare) ∧
    isDirectory (Tree.fileSystem.stat Tree.withSocket ⟨[], str "/"⟩) ∧
      isDirectory (Tree.fileSystem.stat Tree.withSocket ⟨[], str "."⟩) ∧
      Tree.fileSystem.mkdirs 1 ⟨[], str "/tmp/x.sock"⟩ true false Tree.withSocket = some (Tree.withSocket, .ok ()) ∧
      ¬ Tree.fileSystem.MakesDirectories ⟨[], str "/tmp/x.sock"⟩ false Tree.withSocket := by
  constructor
  · have endless (n : ℕ) : Tree.fileSystem.mkdirs n ⟨[], str "a"⟩ true false Tree.bare = none :=
      mkdirs_endless (by decide) (fun _ error => absurd error Bool.false_ne_true) n
    refine ⟨by decide, by decide, endless, fun makes => ?_⟩
    obtain ⟨n, ends⟩ := makes.ends
    rw [endless] at ends
    cases ends
  · have mistaken : Tree.fileSystem.Mistaken ⟨[], str "/tmp/x.sock"⟩ Tree.withSocket := ⟨by decide, by decide⟩
    have returns := mkdirs_mistaken mistaken
    refine ⟨by decide, by decide, returns, fun makes => ?_⟩
    exact mistaken.2 ((makes.made 1 Tree.withSocket returns).directories 0)

end Experimaestro.Files

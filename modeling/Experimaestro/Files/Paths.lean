/-
Module: Experimaestro.Files.Paths
Layer: Files
Purpose: The functions of `Path` as functions of texts, and what a path in normal form is: the list of its
  components, none of which is empty, `.` or `..`. A text is resolved in a directory component by component.
Imports: Experimaestro.Library.Separators, Experimaestro.Configuration.ParameterFile (Path)
Trusted boundary: human-reviewed model of Path::Path, Path::resolve, Path::parent, Path::name, Path::withExtension,
  Path::isRelative, Path::toString, FileType and std::string::find
Main exports: inDirectory, parent, name, withExtension, isRelative, toText, components, rooted, NormalForm, resolve,
  resolve_components
Open obligations: none
-/
import Mathlib.Tactic.Common
import Experimaestro.Library.Separators
import Experimaestro.Configuration.ParameterFile

namespace Experimaestro.Files

open Experimaestro.Configuration (Path Str str)
open Separators (lastIndex lastIndex_append split_at_last)

/-! ### Path -/

/-- `'/'` -/
def slash : UInt8 := 47

/-- `find(c, position)`. -/
def findFrom (c : UInt8) (text : Str) (position : ℕ) : Option ℕ :=
  ((text.drop position).idxOf? c).map (· + position)

/-- `Path(parent, relative)`, which is also `resolve`. -/
def inDirectory (directory : Path) (relative : List Str) : Path :=
  ⟨directory.share,
    (if directory.localpart = [slash] then [] else directory.localpart) ++ relative.flatMap (slash :: ·)⟩

/-- `Path::parent`. -/
def parent (path : Path) : Path :=
  match lastIndex slash path.localpart with
  | some 0 => ⟨path.share, [slash]⟩
  | some i => ⟨path.share, path.localpart.take i⟩
  | none => path

/-- `Path::name`. -/
def name (path : Path) : Str :=
  match lastIndex slash path.localpart with
  | none => path.localpart
  | some pos => path.localpart.drop (pos + 1)

/-- `Path::withExtension`. -/
def withExtension (path : Path) (extension : Str) : Path :=
  let pos := (lastIndex slash path.localpart).getD 0
  match findFrom 46 path.localpart pos with
  | none => ⟨path.share, path.localpart ++ str "." ++ extension⟩
  | some pos => ⟨path.share, path.localpart.take pos ++ extension⟩

/-- `Path::isRelative`. -/
def isRelative (path : Path) : Bool := path.localpart.head? != some slash

/-- `Path::toString`. -/
def toText (path : Path) : Str :=
  if path.share = [] then path.localpart else path.share ++ str ":" ++ path.localpart

/-- `FileType`. -/
inductive FileType where
  | unexisting
  | file
  | directory
  | pipe
  | other
deriving DecidableEq

/-! ### The last component -/

section

variable {share front piece : Str}

/-- A path with a slash is a directory and a last component. -/
theorem exists_split {path : Path} (inside : slash ∈ path.localpart) :
    ∃ share front piece, path = ⟨share, front ++ slash :: piece⟩ ∧ slash ∉ piece := by
  obtain ⟨front, piece, split, apart⟩ := split_at_last inside
  refine ⟨path.share, front, piece, ?_, apart⟩
  rw [← split]

/-- What `name` and `parent` make of a path with a slash. -/
theorem name_split (apart : slash ∉ piece) : name ⟨share, front ++ slash :: piece⟩ = piece := by
  rw [name, lastIndex_append front apart]
  simp [List.drop_append, List.drop_of_length_le (Nat.le_succ front.length)]

theorem parent_split (apart : slash ∉ piece) :
    parent ⟨share, front ++ slash :: piece⟩ = ⟨share, if front = [] then [slash] else front⟩ := by
  rw [parent, lastIndex_append front apart]
  cases front with
  | nil => rfl
  | cons c rest => simp

end

/-! ### Components -/

/-- The components of an absolute path; the root has none. -/
def components (text : Str) : List Str :=
  if text = [slash] then [] else (text.drop 1).splitOn slash

/-- A component of a path in normal form. -/
structure NormalComponent (component : Str) : Prop where
  filled : component ≠ []
  no_dot : component ≠ str "."
  no_dots : component ≠ str ".."
  apart : slash ∉ component

instance (component : Str) : Decidable (NormalComponent component) :=
  decidable_of_iff (component ≠ [] ∧ component ≠ str "." ∧ component ≠ str ".." ∧ slash ∉ component)
    ⟨fun ⟨filled, no_dot, no_dots, apart⟩ => ⟨filled, no_dot, no_dots, apart⟩,
      fun normal => ⟨normal.filled, normal.no_dot, normal.no_dots, normal.apart⟩⟩

/-- An absolute path without empty, `.` and `..` components and without a slash at the end. -/
structure NormalForm (text : Str) : Prop where
  absolute : text.head? = some slash
  normal : ∀ component ∈ components text, NormalComponent component

instance (text : Str) : Decidable (NormalForm text) :=
  decidable_of_iff (text.head? = some slash ∧ ∀ component ∈ components text, NormalComponent component)
    ⟨fun ⟨absolute, normal⟩ => ⟨absolute, normal⟩, fun form => ⟨form.absolute, form.normal⟩⟩

/-- The absolute path with some components. -/
def rooted (pieces : List Str) : Str := slash :: [slash].intercalate pieces

theorem rooted_components {text : Str} (absolute : text.head? = some slash) : rooted (components text) = text := by
  cases text with
  | nil => cases absolute
  | cons c rest =>
      cases absolute
      rw [components, rooted]
      split
      · rename_i root
        rw [root]
        rfl
      · exact congrArg (slash :: ·) (List.intercalate_splitOn slash)

/-! ### Resolution -/

/-- What one component does to the directory that is reached. -/
def resolveStep (directory : List Str) (component : Str) : List Str :=
  if component = [] ∨ component = str "." then directory
  else if component = str ".." then directory.dropLast
  else directory ++ [component]

/-- The components of a relative path that is resolved in a directory. -/
def resolve (directory : List Str) (text : Str) : List Str := (text.splitOn slash).foldl resolveStep directory

theorem resolveStep_normal {component : Str} (normal : NormalComponent component) (directory : List Str) :
    resolveStep directory component = directory ++ [component] := by
  have plain : ¬ (component = [] ∨ component = str ".") := fun either => either.elim normal.filled normal.no_dot
  rw [resolveStep, if_neg plain, if_neg normal.no_dots]

/-- Normal components go down. -/
theorem resolve_components {pieces : List Str} (normal : ∀ component ∈ pieces, NormalComponent component)
    (directory : List Str) : resolve directory ([slash].intercalate pieces) = directory ++ pieces := by
  have down (pieces : List Str) (normal : ∀ component ∈ pieces, NormalComponent component) (directory : List Str) :
      pieces.foldl resolveStep directory = directory ++ pieces := by
    induction pieces generalizing directory with
    | nil => simp
    | cons first rest ih =>
        obtain ⟨here, later⟩ := List.forall_mem_cons.mp normal
        rw [List.foldl_cons, resolveStep_normal here, ih later]
        simp
  cases pieces with
  | nil =>
      rw [resolve, List.intercalate_nil, List.splitOn_nil, List.append_nil, List.foldl_cons, List.foldl_nil,
        resolveStep, if_pos (Or.inl rfl)]
  | cons first rest =>
      rw [resolve, List.splitOn_intercalate slash (fun piece member => (normal piece member).apart)
        (List.cons_ne_nil _ _)]
      exact down _ normal directory

/-- `../` goes up. -/
theorem resolve_up (directory : List Str) (text : Str) :
    resolve directory (str "../" ++ text) = resolve directory.dropLast text := by
  have pieces : (str "../" ++ text).splitOn slash = str ".." :: text.splitOn slash := by
    rw [show str "../" ++ text = str ".." ++ slash :: text from rfl]
    exact List.splitOn_append_cons_self_of_not_mem (by decide) text
  rw [resolve, pieces, List.foldl_cons]
  rfl

theorem resolve_ups (directory : List Str) (k : ℕ) (text : Str) :
    resolve directory ((List.replicate k (str "../")).flatten ++ text) =
      resolve (directory.take (directory.length - k)) text := by
  induction k generalizing directory with
  | zero => simp
  | succ k ih =>
      rw [List.replicate_succ, List.flatten_cons, List.append_assoc, resolve_up, ih, List.dropLast_eq_take,
        List.take_take, List.length_take]
      congr 2
      omega

end Experimaestro.Files

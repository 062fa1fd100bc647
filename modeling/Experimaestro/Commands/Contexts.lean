/-
Module: Experimaestro.Commands.Contexts
Layer: Commands
Purpose: The context in which the commands of a job are written. It counts the auxiliary files for each
  concatenation of name, prefix and suffix; the paths have the count between the name and the rest. Two calls
  that give the same path would overwrite a file of the job: there are none, as long as the counts fit an `int`.
Imports: Experimaestro.Files.Paths, Experimaestro.Configuration.JsonText (digits)
Trusted boundary: human-reviewed model of CommandContext::getAuxiliaryFile, getNamedRedirections and
  getWorkingDirectory, and of the format {:02d}
Main exports: CommandContext, getNamedRedirections, getAuxiliaryFile, auxiliaryFiles, auxiliaryFiles_distinct
Open obligations: none
-/
import Mathlib.Tactic.Common
import Experimaestro.Configuration.JsonText
import Experimaestro.Files.Paths

namespace Experimaestro.Commands

open Experimaestro.Configuration (Str str lookup insert lookup_insert digitsText digitsText_digits decimal
  decimal_digitsText Connector Error)
open Separators (split_at_first_unique)

/-! ### The context -/

/-- `NamedPipeRedirections`. -/
structure NamedPipeRedirections where
  outputRedirections : List Configuration.Path
  errorRedirections : List Configuration.Path

/-- `CommandContext`, for parts that are told apart by their identity. -/
structure CommandContext (Part : Type) where
  /-- The variables of the workspace. -/
  workspace : List (Str × Str)
  connector : Connector
  /-- Whether the connector opens an output stream. -/
  opens : Configuration.Path → Except Error Unit
  /-- What `outputJson` writes of the parameters. -/
  parameters : Except Error Str
  namedPipeRedirectionsMap : Part → Option NamedPipeRedirections
  folder : Configuration.Path
  name : Str
  counts : List (Str × Int32)
  /-- What has been written through the connector, the latest file first. -/
  files : List (Configuration.Path × Str)

namespace CommandContext

variable {Part : Type}

/-- The constructor, with the parameters and the redirections that are set afterwards. -/
def new (workspace : List (Str × Str)) (connector : Connector) (opens : Configuration.Path → Except Error Unit)
    (folder : Configuration.Path) (name : Str) (parameters : Except Error Str)
    (namedPipeRedirectionsMap : Part → Option NamedPipeRedirections) : CommandContext Part where
  workspace := workspace
  connector := connector
  opens := opens
  parameters := parameters
  namedPipeRedirectionsMap := namedPipeRedirectionsMap
  folder := folder
  name := name
  counts := []
  files := []

/-- `CommandContext::getNamedRedirections`, which creates nothing when the commands are written. -/
def getNamedRedirections (context : CommandContext Part) (key : Part) : NamedPipeRedirections :=
  (context.namedPipeRedirectionsMap key).getD ⟨[], []⟩

/-- `CommandContext::getWorkingDirectory`. -/
def getWorkingDirectory (context : CommandContext Part) : Configuration.Path := context.folder

/-- The format `{:02d}`. -/
def formatCount (count : Int32) : Str :=
  if 0 ≤ count.toInt then (digitsText count.toInt.toNat).leftpad 2 0x30
  else 0x2D :: (digitsText count.toInt.natAbs).leftpad 1 0x30

/-- The file with a count, and with a prefix and suffix. -/
def auxiliaryPath (context : CommandContext Part) (count : Int32) (affixes : Str) : Configuration.Path :=
  Files.inDirectory context.folder [context.name ++ str "_" ++ formatCount count ++ str "." ++ affixes]

/-- `CommandContext::getAuxiliaryFile`: the path, and the context with the new count. -/
def getAuxiliaryFile (context : CommandContext Part) (start suffix : Str) :
    Configuration.Path × CommandContext Part :=
  let reference := context.name ++ str "." ++ start ++ suffix
  let count := (lookup reference context.counts).getD 0 + 1
  (context.auxiliaryPath count (start ++ suffix),
    { context with counts := insert reference count context.counts })

/-- The paths of a sequence of calls. -/
def auxiliaryFiles (context : CommandContext Part) : List (Str × Str) → List Configuration.Path
  | [] => []
  | (start, suffix) :: calls =>
      let (path, next) := context.getAuxiliaryFile start suffix
      path :: next.auxiliaryFiles calls

/-! ### What a path tells -/

theorem decimal_leftpad (n width : ℕ) : decimal ((digitsText n).leftpad width 0x30) = n := by
  have zeros : ∀ (k : ℕ) (digits : Str), decimal (List.replicate k 0x30 ++ digits) = decimal digits := by
    intro k digits
    induction k with
    | zero => rfl
    | succ k ih => exact ih
  rw [List.leftpad, zeros, decimal_digitsText]

/-- A count that has not overflowed is written in digits. -/
theorem formatCount_ofNat {k : ℕ} (bound : k < 2 ^ 31) :
    formatCount (Int32.ofNat k) = (digitsText k).leftpad 2 0x30 := by
  have value : (Int32.ofNat k).toInt = k := by
    apply Int32.toInt_ofNat_of_lt
    exact bound
  rw [formatCount, if_pos (by omega), value, Int.toNat_natCast]

theorem dot_not_mem_formatCount {k : ℕ} (bound : k < 2 ^ 31) : (0x2E : UInt8) ∉ formatCount (Int32.ofNat k) := by
  rw [formatCount_ofNat bound, List.leftpad, List.mem_append, List.mem_replicate]
  intro inside
  cases inside with
  | inl zero => exact absurd zero.2 (by decide)
  | inr digit => exact absurd (digitsText_digits k _ digit) (by decide)

theorem formatCount_injective {k l : ℕ} (first : k < 2 ^ 31) (second : l < 2 ^ 31)
    (same : formatCount (Int32.ofNat k) = formatCount (Int32.ofNat l)) : k = l := by
  rw [formatCount_ofNat first, formatCount_ofNat second] at same
  calc k = decimal ((digitsText k).leftpad 2 0x30) := (decimal_leftpad k 2).symm
    _ = decimal ((digitsText l).leftpad 2 0x30) := by rw [same]
    _ = l := decimal_leftpad l 2

/-- The count ends at the first dot behind the name: a path gives both the count and the affixes. -/
theorem auxiliaryPath_injective {context : CommandContext Part} {k l : ℕ} {affixes others : Str}
    (first : k < 2 ^ 31) (second : l < 2 ^ 31)
    (same : context.auxiliaryPath (Int32.ofNat k) affixes = context.auxiliaryPath (Int32.ofNat l) others) :
    k = l ∧ affixes = others := by
  have texts := (Configuration.Path.mk.inj same).2
  simp only [List.flatMap_singleton, List.append_cancel_left_eq, List.cons.injEq, true_and, List.append_assoc]
    at texts
  obtain ⟨counts, rest⟩ :=
    split_at_first_unique (dot_not_mem_formatCount first) (dot_not_mem_formatCount second) texts
  exact ⟨formatCount_injective first second counts, rest⟩

/-! ### Sequences of calls -/

/-- The key under which the files with some affixes are counted. -/
def reference (context : CommandContext Part) (affixes : Str) : Str := context.name ++ str "." ++ affixes

/-- The table counts the references of the calls so far. -/
def Counted (context : CommandContext Part) (past : List Str) : Prop :=
  ∀ key, (lookup key context.counts).getD 0 = Int32.ofNat (past.count key)

theorem counted_fresh {context : CommandContext Part} (fresh : context.counts = []) : context.Counted [] := by
  intro key
  rw [fresh]
  rfl

/-- One call: the path has the next count of its reference, and no other count changes. -/
theorem Counted.getAuxiliaryFile {context : CommandContext Part} {past : List Str} (counted : context.Counted past)
    (start suffix : Str) :
    (context.getAuxiliaryFile start suffix).1 =
        context.auxiliaryPath (Int32.ofNat (past.count (context.reference (start ++ suffix)) + 1)) (start ++ suffix) ∧
      (context.getAuxiliaryFile start suffix).2.Counted (context.reference (start ++ suffix) :: past) := by
  have named : context.name ++ str "." ++ start ++ suffix = context.reference (start ++ suffix) :=
    List.append_assoc _ _ _
  have next : (lookup (context.reference (start ++ suffix)) context.counts).getD 0 + 1 =
      Int32.ofNat (past.count (context.reference (start ++ suffix)) + 1) := by
    rw [counted, Int32.ofNat_add]
    rfl
  constructor
  · rw [CommandContext.getAuxiliaryFile, named, next]
  · intro key
    rw [CommandContext.getAuxiliaryFile, named, next, lookup_insert, List.count_cons]
    by_cases here : context.reference (start ++ suffix) = key
    · rw [if_pos here, if_pos (beq_iff_eq.mpr here), here]
      rfl
    · rw [if_neg here, if_neg fun same => here (beq_iff_eq.mp same)]
      exact counted key

/-- The paths of later calls have counts that no earlier call with their affixes has had. -/
theorem Counted.later {context : CommandContext Part} {past : List Str} (counted : context.Counted past)
    {calls : List (Str × Str)} (few : past.length + calls.length < 2 ^ 31) {path : Configuration.Path}
    (later : path ∈ context.auxiliaryFiles calls) :
    ∃ affixes k, path = context.auxiliaryPath (Int32.ofNat k) affixes ∧
      past.count (context.reference affixes) < k ∧ k < 2 ^ 31 := by
  induction calls generalizing context past with
  | nil => cases later
  | cons call calls ih =>
      obtain ⟨start, suffix⟩ := call
      obtain ⟨returned, counts⟩ := counted.getAuxiliaryFile start suffix
      have bound := List.count_le_length (a := context.reference (start ++ suffix)) (l := past)
      rw [List.length_cons] at few
      cases List.mem_cons.mp later with
      | inl here =>
          refine ⟨start ++ suffix, _, here.trans returned, Nat.lt_succ_self _, ?_⟩
          omega
      | inr after =>
          obtain ⟨affixes, k, named, counted_before, small⟩ := ih counts (by rw [List.length_cons]; omega) after
          refine ⟨affixes, k, named, ?_, small⟩
          calc past.count (context.reference affixes)
              ≤ (context.reference (start ++ suffix) :: past).count (context.reference affixes) :=
                List.count_le_count_cons
            _ < k := counted_before

theorem Counted.distinct {context : CommandContext Part} {past : List Str} (counted : context.Counted past)
    {calls : List (Str × Str)} (few : past.length + calls.length < 2 ^ 31) :
    (context.auxiliaryFiles calls).Nodup := by
  induction calls generalizing context past with
  | nil => exact List.nodup_nil
  | cons call calls ih =>
      obtain ⟨start, suffix⟩ := call
      obtain ⟨returned, counts⟩ := counted.getAuxiliaryFile start suffix
      have bound := List.count_le_length (a := context.reference (start ++ suffix)) (l := past)
      rw [List.length_cons] at few
      have fewer : (context.reference (start ++ suffix) :: past).length + calls.length < 2 ^ 31 := by
        rw [List.length_cons]
        omega
      apply List.nodup_cons.mpr
      refine ⟨fun again => ?_, ih counts fewer⟩
      obtain ⟨affixes, k, named, counted_before, small⟩ := counts.later fewer again
      obtain ⟨counts_equal, affixes_equal⟩ :=
        auxiliaryPath_injective (by omega) small (returned.symm.trans named)
      -- the later call has counted this one
      have reached : (context.reference (start ++ suffix) :: past).count (context.reference affixes) =
          past.count (context.reference (start ++ suffix)) + 1 := by
        rw [← affixes_equal, List.count_cons_self]
      have strict : (context.reference (start ++ suffix) :: past).count (context.reference affixes) < k :=
        counted_before
      omega

/-- Fewer than 2³¹ calls for a context give different paths, with any prefixes and suffixes. -/
theorem auxiliaryFiles_distinct (context : CommandContext Part) (fresh : context.counts = [])
    (calls : List (Str × Str)) (few : calls.length < 2 ^ 31) : (context.auxiliaryFiles calls).Nodup := by
  apply (counted_fresh fresh).distinct
  rw [List.length_nil]
  omega

/-- The parameters and two contents whose key and suffix make the same text in two ways. -/
theorem auxiliaryFiles_distinct_contents :
    ((CommandContext.new [] ⟨[]⟩ (fun _ => .ok ()) ⟨[], str "/work"⟩ (str "job") (.ok []) fun (_ : Unit) =>
      none).auxiliaryFiles
        [(str "params", str ".json"), (str "a", str ".input"), (str "a.", str "input"), (str "", str "a.input")]).Nodup :=
  auxiliaryFiles_distinct _ rfl _ (by decide)

end CommandContext

end Experimaestro.Commands

/-
Module: Experimaestro.Commands.ScriptRuns
Layer: Commands
Purpose: What the script of a job does. The statements of scripts mean what the manual of the shell says, over a
  file system of directories and files: `meaning`; what a pipeline does is a parameter, as it is the user's.
  `checkerror` ends the background job with the first status that is neither zero nor the one of a closed pipe.
  The paths of the job must be read as they are, since some of them are written without quotes.
Imports: Experimaestro.Commands.ScriptBuilder
Trusted boundary: human-reviewed model of the shell, for the statements that ShScriptBuilder::write prints
Main exports: Entry, FileSystem, Locals, meaning, checkedStatus, runPipelines, Usable, Careful,
  ScriptData.ended, script_outcome
Open obligations: none
-/
import Mathlib.Tactic.Common
import Mathlib.Logic.Function.Basic
import Experimaestro.Commands.ScriptBuilder

namespace Experimaestro.Commands

open Experimaestro.Configuration (Str str digitsText decimal)
open Files (slash rooted NormalComponent)
open ShellPrograms (Meaning execute runAll body)

/-! ### Files -/

/-- What is at a place of the file system. -/
inductive Entry where
  | directory
  | file (content : Str)
deriving DecidableEq

/-- The places are reached from the root. -/
abbrev FileSystem : Type := List Str → Option Entry

namespace FileSystem

variable (files : FileSystem) (place : List Str)

/-- There is a file. -/
def isFile : Bool :=
  match files place with
  | some (.file _) => true
  | some .directory | none => false

/-- A file can be written: its directory exists, and it is not a directory itself. -/
def Writable : Prop := place ≠ [] ∧ files place.dropLast = some .directory ∧ files place ≠ some .directory

instance : Decidable (files.Writable place) :=
  inferInstanceAs (Decidable (_ ∧ _ ∧ _))

/-- The entry is another one. -/
def set (entry : Option Entry) : FileSystem := Function.update files place entry

@[simp] theorem set_self (entry : Option Entry) : files.set place entry place = entry := Function.update_self ..

@[simp] theorem set_of_ne (entry : Option Entry) {place other : List Str} (ne : other ≠ place) :
    files.set place entry other = files other :=
  Function.update_of_ne ne ..

end FileSystem

/-- The place that a text stands for in a directory. -/
def location (directory : List Str) (text : Str) : List Str :=
  Files.resolve (if text.head? = some slash then [] else directory) text

/-! ### Words -/

/-- A character that has no meaning of its own outside of quotes: a letter, a digit, `%`, `+`, `,`, `-`, `.`, `/`, `:`,
`@`, `_`, or one that is not ASCII. -/
def ordinary (c : UInt8) : Bool :=
  (48 ≤ c && c ≤ 58) || (64 ≤ c && c ≤ 90) || (97 ≤ c && c ≤ 122) || c == 37 || (43 ≤ c && c ≤ 47) || c == 95 || 128 ≤ c

/-- The value of a word, where it is read as it stands. -/
def Word.value : Word → Option Str
  | .bare text => if text ≠ [] ∧ text.all ordinary then some text else none
  | .quoted value =>
      match readWord (Commands.quoted value) with
      | .ok (text, []) => some text
      | .ok (_, _ :: _) | .error _ => none

/-- The value of a word that is no option of a command. -/
def Word.operand (word : Word) : Option Str := word.value.filter (·.head? != some 45)

/-- A name that a variable can have. -/
def identifier (name : Str) : Bool :=
  name.head?.any (fun c => !(48 ≤ c && c ≤ 57)) &&
    name.all fun c => (48 ≤ c && c ≤ 57) || (65 ≤ c && c ≤ 90) || (97 ≤ c && c ≤ 122) || c == 95

/-! ### Simple commands -/

/-- What belongs to the shell itself. -/
structure Locals where
  /-- `$$` -/
  pid : ℕ
  directory : List Str
  environment : List (Str × Str)
  pipefail : Bool := false
  /-- `$?` -/
  status : ℕ := 0
  /-- `$code` -/
  code : Option ℕ := none

/-- The state after a command with some status. -/
def Locals.ending (locals : Locals) (status : ℕ) : Locals := { locals with status := status }

/-- What `echo` writes of a number. -/
def numberText (n : ℕ) : Str := if n = 0 then str "0" else digitsText n

/-- `echo text > file` -/
def echoTo (text : Str) (place : List Str) (locals : Locals) (files : FileSystem) : Locals × FileSystem :=
  if files.Writable place then (locals.ending 0, files.set place (some (.file text))) else (locals.ending 1, files)

/-- The simple commands. The status of a notification and of the last command of `cleanup` is not used. -/
def Simple.run : Simple → Locals → FileSystem → Option (Locals × FileSystem)
  | .say _, locals, files | .untrap, locals, files => some (locals.ending 0, files)
  | .notify, locals, files | .killChildren, locals, files => some (locals, files)
  | .setPipefail, locals, files => some ({ locals.ending 0 with pipefail := true }, files)
  | .rememberStatus, locals, files => some ({ locals.ending 0 with code := some locals.status }, files)
  | .exportVariable key value, locals, files =>
      if identifier key then
        value.value.map fun text =>
          ({ locals.ending 0 with environment := Configuration.insert key text locals.environment }, files)
      else none
  | .changeDirectory directory, locals, files =>
      directory.value.map fun text =>
        if files (location locals.directory text) = some .directory then
          ({ locals.ending 0 with directory := location locals.directory text }, files)
        else (locals.ending 1, files)
  | .remove file _, locals, files =>
      file.operand.map fun text =>
        if files (location locals.directory text) = some .directory then (locals.ending 1, files)
        else (locals.ending 0, files.set (location locals.directory text) none)
  | .touch file, locals, files =>
      file.operand.map fun text =>
        if files (location locals.directory text) = none then echoTo [] (location locals.directory text) locals files
        else (locals.ending 0, files)
  | .writePid file, locals, files =>
      file.value.map fun text =>
        echoTo (numberText locals.pid ++ str "\n") (location locals.directory text) locals files
  | .writeCode file, locals, files =>
      file.value.bind fun text => locals.code.map fun code =>
        echoTo (numberText code ++ str "\n") (location locals.directory text) locals files
  | .writeZero file, locals, files =>
      file.value.map fun text => echoTo (str "0\n") (location locals.directory text) locals files

/-- What the statements of scripts mean. -/
def meaning : Meaning Locals FileSystem Simple Test ExitStatus where
  run := Simple.run
  test
    | .missing file, locals, files => file.value.map fun text => !files.isFile (location locals.directory text)
    | .failed, locals, _ => locals.code.map fun code => code != 0
  value
    | .constant digits, _ => some (decimal digits % 256)
    | .code, locals => locals.code
  status locals := locals.status
  waited status locals := locals.ending status

/-! ### The background job -/

/-- The first status of a pipeline with which `checkerror` ends the background job. -/
def checkedStatus (statuses : List UInt8) : Option UInt8 := statuses.find? fun e => e != 0 && e != 141

/-- The status of a pipeline. -/
def pipelineStatus (pipefail : Bool) (statuses : List UInt8) : UInt8 :=
  if pipefail then (statuses.reverse.find? (· != 0)).getD 0 else statuses.getLast?.getD 0

/-- What the pipelines do: the files that they leave, and the status of each of their commands. -/
abbrev Pipes : Type := Str → Locals → FileSystem → FileSystem × List UInt8

/-- The background job. A pipeline that ends well is not checked. -/
def runPipelines (pipes : Pipes) : List Str → Locals → FileSystem → FileSystem × UInt8
  | [], _, files => (files, 0)
  | pipeline :: rest, locals, files =>
      let (after, statuses) := pipes pipeline locals files
      if pipelineStatus locals.pipefail statuses = 0 then runPipelines pipes rest locals after
      else
        match checkedStatus statuses with
        | some status => (after, status)
        | none => runPipelines pipes rest locals after

/-- The background job, for a shell. -/
def perform (pipes : Pipes) (pipelines : List Str) (locals : Locals) (files : FileSystem) : FileSystem × ℕ :=
  ((runPipelines pipes pipelines locals files).1, (runPipelines pipes pipelines locals files).2.toNat)

/-! ### Jobs whose paths are read as they are -/

/-- A path without characters that the shell reads otherwise, in normal form and below the root; the name does not look
like an option, and the exported variables are read back. -/
structure Usable (data : ScriptData) : Prop where
  nested : data.directory ≠ []
  normal : ∀ component ∈ data.directory ++ [data.name], NormalComponent component
  plain : (rooted (data.directory ++ [data.name])).all ordinary
  dashless : data.name.head? ≠ some 45
  exported : ∀ entry ∈ data.exported, identifier entry.1 ∧ Readable entry.2

namespace ScriptData

variable (data : ScriptData)

/-- The place of a file beside the locator. -/
def place (extension : String) : List Str := data.directory ++ [data.name ++ str extension]

/-- The extensions of the files that a script knows. -/
def extensions : List String := [".lock", ".lock.start", ".pid", ".code", ".done"]

end ScriptData

/-- The pipelines leave the directory of the job and its control files alone. -/
def Careful (data : ScriptData) (pipes : Pipes) : Prop :=
  ∀ pipeline locals files, (pipes pipeline locals files).1 data.directory = files data.directory ∧
    ∀ extension ∈ ScriptData.extensions,
      (pipes pipeline locals files).1 (data.place extension) = files (data.place extension)

/-- The directory of the job is there, and no directory has the name of a control file. -/
structure Ready (data : ScriptData) (files : FileSystem) : Prop where
  directory : files data.directory = some .directory
  free : ∀ extension ∈ ScriptData.extensions, files (data.place extension) ≠ some .directory

/-! ### What is read of words -/

theorem readable_of_ordinary {s : Str} (plain : s.all ordinary) : Readable s := by
  have members : ∀ c ∈ s, ordinary c := List.all_eq_true.mp plain
  constructor
  · intro inside
    exact absurd (members _ inside) (by decide)
  · rintro front rest rfl
    exact absurd (members backslash (by simp)) (by decide)

theorem value_quoted {s : Str} (readable : Readable s) : (Word.quoted s).value = some s := by
  have read : readWord (quoted s) = .ok (s, []) := read_protected readable []
  rw [Word.value, read]

theorem value_bare {s : Str} (filled : s ≠ []) (plain : s.all ordinary) : (Word.bare s).value = some s :=
  if_pos ⟨filled, plain⟩

theorem operand_of_value {word : Word} {s : Str} (value : word.value = some s) (dashless : s.head? ≠ some 45) :
    word.operand = some s := by
  rw [Word.operand, value, Option.filter_some, if_pos]
  exact bne_iff_ne.mpr dashless

namespace Usable

variable {data : ScriptData} (usable : Usable data)

include usable

theorem name_normal : NormalComponent data.name := usable.normal data.name (by simp)

/-- The texts of the control files are read as they stand. -/
theorem plain_text {extension : String} (member : extension ∈ ScriptData.extensions) :
    (data.absolute extension).all ordinary ∧ (data.beside extension).all ordinary := by
  have suffix : (str extension).all ordinary := by
    revert extension
    decide
  have whole := usable.plain
  rw [Placed.rooted_snoc usable.nested, List.all_append, List.all_cons, Bool.and_eq_true, Bool.and_eq_true] at whole
  obtain ⟨front, slashed, name⟩ := whole
  rw [ScriptData.absolute, ScriptData.beside, Placed.rooted_snoc usable.nested, List.all_append, List.all_cons,
    List.all_append, front, slashed, name, suffix]
  exact ⟨rfl, rfl⟩

theorem beside_normal {extension : String} (member : extension ∈ ScriptData.extensions) :
    NormalComponent (data.beside extension) := by
  have name := usable.name_normal
  have long : 3 ≤ (str extension).length ∧ slash ∉ str extension := by
    revert extension
    decide
  have size : (data.beside extension).length = data.name.length + (str extension).length := List.length_append
  constructor
  · intro same
    rw [same, List.length_nil] at size
    omega
  · intro same
    rw [same, show (str ".").length = 1 from rfl] at size
    omega
  · intro same
    rw [same, show (str "..").length = 2 from rfl] at size
    omega
  · rw [ScriptData.beside, List.mem_append, not_or]
    exact ⟨name.apart, long.2⟩

end Usable

/-! ### The places that words stand for -/

/-- The word is read as a text that is no option, and that stands for a place. -/
def Denotes (word : Word) (directory place : List Str) : Prop :=
  ∃ text, word.value = some text ∧ text.head? ≠ some 45 ∧ location directory text = place

theorem location_rooted {pieces : List Str} (normal : ∀ component ∈ pieces, NormalComponent component)
    (directory : List Str) : location directory (rooted pieces) = pieces := by
  have absolute : (rooted pieces).head? = some slash := rfl
  have split : (rooted pieces).splitOn slash = [] :: ([slash].intercalate pieces).splitOn slash :=
    List.splitOn_append_cons_self_of_not_mem (List.not_mem_nil (a := slash)) _
  rw [location, if_pos absolute, Files.resolve, split, List.foldl_cons]
  exact (Files.resolve_components normal []).trans (List.nil_append pieces)

theorem location_component {component : Str} (normal : NormalComponent component) (directory : List Str) :
    location directory component = directory ++ [component] := by
  have relative : component.head? ≠ some slash := by
    intro head
    exact normal.apart (List.mem_of_mem_head? head)
  have one : Files.resolve directory ([slash].intercalate [component]) = directory ++ [component] :=
    Files.resolve_components (fun piece member => List.mem_singleton.mp member ▸ normal) directory
  rw [List.intercalate_singleton] at one
  rw [location, if_neg relative, one]

section

variable {data : ScriptData} (usable : Usable data)

include usable

theorem denotes_absolute {extension : String} (member : extension ∈ ScriptData.extensions) (directory : List Str) :
    Denotes (.bare (data.absolute extension)) directory (data.place extension) ∧
      Denotes (.quoted (data.absolute extension)) directory (data.place extension) := by
  have plain := (usable.plain_text member).1
  have head : (data.absolute extension).head? ≠ some 45 := by
    apply ne_of_eq_of_ne (b := some slash) rfl
    decide
  have place : location directory (data.absolute extension) = data.place extension := by
    apply location_rooted
    intro component inside
    rcases List.mem_append.mp inside with front | last
    · exact usable.normal component (List.mem_append_left _ front)
    · exact List.mem_singleton.mp last ▸ usable.beside_normal member
  exact ⟨⟨_, value_bare (List.cons_ne_nil _ _) plain, head, place⟩,
    ⟨_, value_quoted (readable_of_ordinary plain), head, place⟩⟩

theorem denotes_beside {extension : String} (member : extension ∈ ScriptData.extensions) :
    Denotes (.bare (data.beside extension)) data.directory (data.place extension) ∧
      Denotes (.quoted (data.beside extension)) data.directory (data.place extension) := by
  have plain := (usable.plain_text member).2
  have normal := usable.beside_normal member
  have head : (data.beside extension).head? ≠ some 45 := by
    rw [ScriptData.beside, List.head?_append_of_ne_nil _ usable.name_normal.filled]
    exact usable.dashless
  exact ⟨⟨_, value_bare normal.filled plain, head, location_component normal data.directory⟩,
    ⟨_, value_quoted (readable_of_ordinary plain), head, location_component normal data.directory⟩⟩

theorem denotes_directory (directory : List Str) :
    Denotes (.quoted (rooted data.directory)) directory data.directory := by
  have whole := usable.plain
  rw [Placed.rooted_snoc usable.nested, List.all_append, Bool.and_eq_true] at whole
  refine ⟨_, value_quoted (readable_of_ordinary whole.1), ?_, ?_⟩
  · apply ne_of_eq_of_ne (b := some slash) rfl
    decide
  · apply location_rooted
    exact fun component inside => usable.normal component (List.mem_append_left _ inside)

end

/-! ### What the commands do to places -/

theorem ending_ending (locals : Locals) (one two : ℕ) : (locals.ending one).ending two = locals.ending two := rfl

theorem meaning_run : meaning.run = Simple.run := rfl

theorem run_say (message : Str) (locals : Locals) (files : FileSystem) :
    Simple.run (.say message) locals files = some (locals.ending 0, files) := rfl

theorem run_untrap (locals : Locals) (files : FileSystem) :
    Simple.run .untrap locals files = some (locals.ending 0, files) := rfl

namespace Denotes

variable {word : Word} {place : List Str} {locals : Locals} {files : FileSystem}

theorem remove (denotes : Denotes word locals.directory place) (free : files place ≠ some .directory) (closed : Bool) :
    Simple.run (.remove word closed) locals files = some (locals.ending 0, files.set place none) := by
  obtain ⟨text, value, dashless, rfl⟩ := denotes
  rw [Simple.run, operand_of_value value dashless, Option.map_some, if_neg free]

theorem touch (denotes : Denotes word locals.directory place) (writable : files.Writable place) :
    Simple.run (.touch word) locals files =
      some (locals.ending 0, if files place = none then files.set place (some (.file [])) else files) := by
  obtain ⟨text, value, dashless, rfl⟩ := denotes
  rw [Simple.run, operand_of_value value dashless, Option.map_some, echoTo, if_pos writable]
  split <;> rfl

theorem writePid (denotes : Denotes word locals.directory place) (writable : files.Writable place) :
    Simple.run (.writePid word) locals files =
      some (locals.ending 0, files.set place (some (.file (numberText locals.pid ++ str "\n")))) := by
  obtain ⟨text, value, dashless, rfl⟩ := denotes
  rw [Simple.run, value, Option.map_some, echoTo, if_pos writable]

theorem writeCode (denotes : Denotes word locals.directory place) (writable : files.Writable place) {code : ℕ}
    (known : locals.code = some code) :
    Simple.run (.writeCode word) locals files =
      some (locals.ending 0, files.set place (some (.file (numberText code ++ str "\n")))) := by
  obtain ⟨text, value, dashless, rfl⟩ := denotes
  rw [Simple.run, value, Option.bind_some, known, Option.map_some, echoTo, if_pos writable]

theorem writeZero (denotes : Denotes word locals.directory place) (writable : files.Writable place) :
    Simple.run (.writeZero word) locals files = some (locals.ending 0, files.set place (some (.file (str "0\n")))) := by
  obtain ⟨text, value, dashless, rfl⟩ := denotes
  rw [Simple.run, value, Option.map_some, echoTo, if_pos writable]

theorem changeDirectory (denotes : Denotes word locals.directory place) (there : files place = some .directory) :
    Simple.run (.changeDirectory word) locals files =
      some ({ locals.ending 0 with directory := place }, files) := by
  obtain ⟨text, value, dashless, rfl⟩ := denotes
  rw [Simple.run, value, Option.map_some, if_pos there]

theorem missing (denotes : Denotes word locals.directory place) :
    meaning.test (.missing word) locals files = some !files.isFile place := by
  obtain ⟨text, value, dashless, rfl⟩ := denotes
  exact congrArg (Option.map _) value

end Denotes

/-! ### Control files -/

section

variable {data : ScriptData}

/-- Control files with different extensions are at different places, none of which is the directory. -/
theorem place_injective {one two : String} (same : data.place one = data.place two) : str one = str two := by
  have lasts := List.append_cancel_left same
  exact List.append_cancel_left (List.cons.inj lasts).1

theorem place_ne {one two : String} (other : str one ≠ str two) : data.place one ≠ data.place two :=
  fun same => other (place_injective same)

theorem place_ne_directory (extension : String) : data.place extension ≠ data.directory := by
  intro same
  have lengths := congrArg List.length same
  rw [ScriptData.place, List.length_append, List.length_singleton] at lengths
  omega

theorem directory_ne_place (extension : String) : data.directory ≠ data.place extension :=
  (place_ne_directory extension).symm

namespace Ready

variable {files : FileSystem} (ready : Ready data files)

include ready

theorem writable {extension : String} (member : extension ∈ ScriptData.extensions) :
    files.Writable (data.place extension) := by
  refine ⟨by simp [ScriptData.place], ?_, ready.free extension member⟩
  rw [ScriptData.place, List.dropLast_concat]
  exact ready.directory

/-- A control file is made or removed. -/
theorem set {entry : Option Entry} (kind : entry ≠ some .directory) (extension : String) :
    Ready data (files.set (data.place extension) entry) := by
  constructor
  · rw [FileSystem.set_of_ne _ _ (directory_ne_place extension)]
    exact ready.directory
  · intro other member
    by_cases same : data.place other = data.place extension
    · rw [same, FileSystem.set_self]
      exact kind
    · rw [FileSystem.set_of_ne _ _ same]
      exact ready.free other member

/-- A control file is removed, or written. -/
theorem remove (extension : String) : Ready data (files.set (data.place extension) none) := by
  apply ready.set
  simp

theorem write (content : Str) (extension : String) :
    Ready data (files.set (data.place extension) (some (.file content))) := by
  apply ready.set
  simp

end Ready

/-- What the pipelines leave alone, the background job leaves alone. -/
theorem Careful.runPipelines {pipes : Pipes} (careful : Careful data pipes) (pipelines : List Str) (locals : Locals)
    (files : FileSystem) :
    (runPipelines pipes pipelines locals files).1 data.directory = files data.directory ∧
      ∀ extension ∈ ScriptData.extensions,
        (Commands.runPipelines pipes pipelines locals files).1 (data.place extension) =
          files (data.place extension) := by
  induction pipelines generalizing files with
  | nil => exact ⟨rfl, fun _ _ => rfl⟩
  | cons pipeline rest ih =>
      obtain ⟨directory, control⟩ := careful pipeline locals files
      obtain ⟨later, others⟩ := ih (pipes pipeline locals files).1
      have goes_on := And.intro (later.trans directory) fun extension member =>
        (others extension member).trans (control extension member)
      rw [Commands.runPipelines]
      dsimp only
      split
      · exact goes_on
      · split
        · exact ⟨directory, control⟩
        · exact goes_on

theorem Ready.of_careful {files after : FileSystem} (ready : Ready data files)
    (directory : after data.directory = files data.directory)
    (control : ∀ extension ∈ ScriptData.extensions, after (data.place extension) = files (data.place extension)) :
    Ready data after where
  directory := directory.trans ready.directory
  free := by
    intro extension member
    rw [control extension member]
    exact ready.free extension member

end

/-! ### What a script does -/

/-- The environment with some variables. -/
def exportAll (entries environment : List (Str × Str)) : List (Str × Str) :=
  entries.foldl (fun environment entry => Configuration.insert entry.1 entry.2 environment) environment

namespace ScriptData

variable (data : ScriptData)

/-- What the background job has of the shell. -/
def jobLocals (locals : Locals) : Locals :=
  { locals.ending 0 with
    directory := data.directory, environment := exportAll data.exported locals.environment, pipefail := true }

/-- The files when the background job begins. -/
def begun (pid : ℕ) (files : FileSystem) : FileSystem :=
  (files.set (data.place ".lock.start") none).set (data.place ".pid") (some (.file (numberText pid ++ str "\n")))

/-- The files with the exit code, and with `.done` if this is zero. -/
def marked (after : FileSystem) (status : UInt8) : FileSystem :=
  let coded := after.set (data.place ".code") (some (.file (numberText status.toNat ++ str "\n")))
  if status = 0 ∧ after (data.place ".done") = none then coded.set (data.place ".done") (some (.file [])) else coded

/-- The files when the script is over, for a background job that has left files and a status. -/
def ended (after : FileSystem) (status : UInt8) : FileSystem :=
  ((data.marked after status).set (data.place ".pid") none).set (data.place ".lock") none

end ScriptData

/-- The exports, one after the other. -/
theorem run_exports {entries : List (Str × Str)} (all : ∀ entry ∈ entries, identifier entry.1 ∧ Readable entry.2)
    (locals : Locals) (files : FileSystem) :
    runAll meaning (entries.map fun entry => .exportVariable entry.1 (.quoted entry.2)) (locals.ending 0) files =
      some ({ locals.ending 0 with environment := exportAll entries locals.environment }, files) := by
  induction entries generalizing locals with
  | nil => rfl
  | cons entry rest ih =>
      obtain ⟨⟨named, readable⟩, others⟩ := List.forall_mem_cons.mp all
      have first : meaning.run (.exportVariable entry.1 (.quoted entry.2)) (locals.ending 0) files =
          some ({ locals.ending 0 with
            environment := Configuration.insert entry.1 entry.2 locals.environment }, files) := by
        simp only [meaning, Simple.run, if_pos named, value_quoted readable, Option.map_some]
        rfl
      rw [List.map_cons, runAll, first, Option.bind_some]
      exact ih others { locals with environment := Configuration.insert entry.1 entry.2 locals.environment }

/-- The program, with the exports as commands. -/
theorem scriptProgram_eq (data : ScriptData) :
    scriptProgram data =
      .guard (.missing (.bare (data.absolute ".lock"))) [.say (str "Locks not set")] (.constant (str "017")) ::
      .guard (.missing (.bare (data.absolute ".lock.start"))) [.say (str "start lock not set")]
        (.constant (str "017")) ::
      .run (.remove (.bare (data.absolute ".lock.start")) false) :: .run .setPipefail ::
      .run (.writePid (.quoted (data.absolute ".pid"))) ::
      ((data.exported.map fun entry => .exportVariable entry.1 (.quoted entry.2)).map .run ++
        .run (.changeDirectory (.quoted (rooted data.directory))) :: .trap data.handler ::
        data.trapped.map (·.statement)) := by
  simp [scriptProgram, ScriptData.lines, ScriptData.exportLine, List.map_map, Function.comp_def]

/-- The handler removes the files of the process and of the lock. -/
theorem run_handler {data : ScriptData} (usable : Usable data) {locals : Locals} {files : FileSystem}
    (inside : locals.directory = data.directory) (ready : Ready data files) :
    ∃ locals', runAll meaning data.handler locals files =
      some (locals', (files.set (data.place ".pid") none).set (data.place ".lock") none) := by
  have pid : ".pid" ∈ ScriptData.extensions := by decide
  have lock : ".lock" ∈ ScriptData.extensions := by decide
  have one : Denotes (.bare (data.beside ".pid")) (locals.ending 0).directory (data.place ".pid") := by
    rw [Locals.ending, inside]
    exact (denotes_beside usable pid).1
  have two : Denotes (.bare (data.beside ".lock")) (locals.ending 0).directory (data.place ".lock") := by
    rw [Locals.ending, inside]
    exact (denotes_beside usable lock).1
  have removed := ready.remove ".pid"
  have rest (locals : Locals) (files : FileSystem) :
      runAll meaning ((if data.notificationURL.isSome then [.notify] else []) ++ [.killChildren]) locals files =
        some (locals, files) := by
    split <;> rfl
  refine ⟨locals.ending 0, ?_⟩
  rw [ScriptData.handler, List.append_assoc]
  simp only [List.cons_append, List.nil_append, runAll, meaning_run, run_say, run_untrap, Option.bind_some, ending_ending,
    one.remove (ready.free ".pid" pid) true, two.remove (removed.free ".lock" lock) false, rest]

theorem ready_begun {data : ScriptData} {files : FileSystem} (ready : Ready data files) (pid : ℕ) :
    Ready data (data.begun pid files) :=
  (ready.remove ".lock.start").write _ ".pid"

/-- The exit code is written, and `.done` is made if it is zero. -/
theorem ready_marked {data : ScriptData} {after : FileSystem} (ready : Ready data after) (status : UInt8) :
    Ready data (data.marked after status) := by
  have coded := ready.write (numberText status.toNat ++ str "\n") ".code"
  rw [ScriptData.marked]
  split
  · exact coded.set (by simp) ".done"
  · exact coded

/-- The part that has the trap: the exit code of the background job is written, and `.done` is made if it is zero. -/
theorem body_trapped {data : ScriptData} (usable : Usable data) {pipes : Pipes} (careful : Careful data pipes)
    {locals : Locals} {files after : FileSystem} {status : UInt8} (inside : locals.directory = data.directory)
    (ready : Ready data files)
    (job : runPipelines pipes data.pipelines locals files = (after, status)) (handler : Option (List Simple)) :
    ∃ locals', locals'.directory = data.directory ∧
      body meaning (perform pipes) (data.trapped.map (·.statement)) handler none locals files =
        some ⟨status.toNat, handler, locals', data.marked after status⟩ := by
  have code : ".code" ∈ ScriptData.extensions := by decide
  have done : ".done" ∈ ScriptData.extensions := by decide
  obtain ⟨directory, control⟩ := careful.runPipelines data.pipelines locals files
  rw [job] at directory control
  have left := ready.of_careful directory control
  have coded := left.write (numberText status.toNat ++ str "\n") ".code"
  have result : perform pipes data.pipelines locals files = (after, status.toNat) := by rw [perform, job]
  let known : Locals := { locals.ending 0 with code := some status.toNat }
  have begins : body meaning (perform pipes) (data.trapped.map (·.statement)) handler none locals files =
      body meaning (perform pipes)
        [.guard .failed [.writeCode (.quoted (data.beside ".code"))] .code,
          .run (.writeZero (.quoted (data.beside ".code"))), .run (.touch (.quoted (data.beside ".done")))]
        handler (some status.toNat) known after := by
    simp only [ScriptData.trapped, List.map_cons, List.map_nil, body, result, Option.bind_some]
    rfl
  have to_code : Denotes (.quoted (data.beside ".code")) known.directory (data.place ".code") := by
    rw [show known.directory = data.directory from inside]
    exact (denotes_beside usable code).2
  have to_done : Denotes (.quoted (data.beside ".done")) (known.ending 0).directory (data.place ".done") := by
    rw [show (known.ending 0).directory = data.directory from inside]
    exact (denotes_beside usable done).2
  have tested : meaning.test .failed known after = some (status.toNat != 0) := rfl
  refine ⟨known.ending 0, inside, begins.trans ?_⟩
  rw [body, tested, Option.bind_some]
  by_cases zero : status = 0
  · subst zero
    have other : data.place ".done" ≠ data.place ".code" := place_ne (by decide)
    have written := to_code.writeZero (left.writable code)
    have touched := to_done.touch (coded.writable done)
    rw [FileSystem.set_of_ne _ _ other] at touched
    rw [if_neg (by decide), body, meaning_run, written, Option.bind_some]
    dsimp only
    rw [body, meaning_run, show str "0\n" = numberText (UInt8.toNat 0) ++ str "\n" from rfl, touched, Option.bind_some]
    simp only [ScriptData.marked, true_and]
    rfl
  · have nonzero : status.toNat ≠ 0 := fun same => zero (UInt8.toNat.inj same)
    have remembered : known.code = some status.toNat := rfl
    have written := to_code.writeCode (left.writable code) remembered
    rw [if_pos (bne_iff_ne.mpr nonzero)]
    simp only [runAll, meaning_run, written, Option.bind_some, ScriptData.marked, zero, false_and, if_false]
    rfl

section

variable {pipes : Pipes} {file : Word} {place : List Str} {message : Str} {rest : List Statement}
  {handler : Option (List Simple)} {known : Option ℕ} {locals : Locals} {files : FileSystem}

/-- A lock that is not set. -/
theorem body_missing (denotes : Denotes file locals.directory place) (missing : files.isFile place = false) :
    body meaning (perform pipes) (.guard (.missing file) [.say message] (.constant (str "017")) :: rest) handler known
      locals files = some ⟨17, handler, locals.ending 0, files⟩ := by
  have seventeen (locals : Locals) : meaning.value (.constant (str "017")) locals = some 17 := rfl
  rw [body, denotes.missing, missing, Option.bind_some]
  simp only [Bool.not_false, if_true, runAll, meaning_run, run_say, Option.bind_some, seventeen, Option.map_some]

/-- A lock that is set. -/
theorem body_found (denotes : Denotes file locals.directory place) (found : files.isFile place) {commands : List Simple}
    {value : ExitStatus} :
    body meaning (perform pipes) (.guard (.missing file) commands value :: rest) handler known locals files =
      body meaning (perform pipes) rest handler known locals files := by
  rw [body, denotes.missing, found, Option.bind_some, if_neg (by decide)]

end

/-- The locks are tested, and the background job begins in its directory and environment. -/
theorem body_prepared {data : ScriptData} (usable : Usable data) {pipes : Pipes} {locals : Locals} {files : FileSystem}
    (ready : Ready data files) (rest : List Statement) :
    body meaning (perform pipes)
        (.run (.remove (.bare (data.absolute ".lock.start")) false) :: .run .setPipefail ::
          .run (.writePid (.quoted (data.absolute ".pid"))) ::
          ((data.exported.map fun entry => .exportVariable entry.1 (.quoted entry.2)).map .run ++
            .run (.changeDirectory (.quoted (rooted data.directory))) :: rest))
        none none locals files =
      body meaning (perform pipes) rest none none (data.jobLocals locals) (data.begun locals.pid files) := by
  have start : ".lock.start" ∈ ScriptData.extensions := by decide
  have pid : ".pid" ∈ ScriptData.extensions := by decide
  have removed := ready.remove ".lock.start"
  have begun := removed.write (numberText locals.pid ++ str "\n") ".pid"
  let piped : Locals := { locals.ending 0 with pipefail := true }
  let exported : Locals := { piped with environment := exportAll data.exported locals.environment }
  have remove := (denotes_absolute usable start locals.directory).1.remove (ready.free _ start) false
  have set : Simple.run .setPipefail (locals.ending 0) (files.set (data.place ".lock.start") none) =
      some (piped, files.set (data.place ".lock.start") none) := rfl
  have write := (denotes_absolute usable pid piped.directory).2.writePid (removed.writable pid)
  have export_all : runAll meaning (data.exported.map fun entry => .exportVariable entry.1 (.quoted entry.2))
      (piped.ending 0) (data.begun locals.pid files) = some (exported, data.begun locals.pid files) :=
    run_exports usable.exported piped (data.begun locals.pid files)
  have change := (denotes_directory usable exported.directory).changeDirectory begun.directory
  rw [body, meaning_run, remove, Option.bind_some]
  dsimp only
  rw [body, meaning_run, set, Option.bind_some]
  dsimp only
  rw [body, meaning_run, write, Option.bind_some]
  dsimp only
  rw [ShellPrograms.body_runs]
  refine (congrArg (Option.bind · _) export_all).trans ?_
  rw [Option.bind_some]
  dsimp only
  rw [body, meaning_run]
  exact congrArg (Option.bind · _) change

/-- A script that finds its locks runs the background job and ends with its status; another one changes nothing. -/
theorem execute_script {data : ScriptData} (usable : Usable data) {pipes : Pipes} (careful : Careful data pipes)
    {locals : Locals} {files : FileSystem} (ready : Ready data files) :
    execute meaning (perform pipes) (scriptProgram data) locals files =
      if files.isFile (data.place ".lock") ∧ files.isFile (data.place ".lock.start") then
        let job := runPipelines pipes data.pipelines (data.jobLocals locals) (data.begun locals.pid files)
        some (job.2.toNat, data.ended job.1 job.2)
      else some (17, files) := by
  have lock : ".lock" ∈ ScriptData.extensions := by decide
  have start : ".lock.start" ∈ ScriptData.extensions := by decide
  have at_lock := (denotes_absolute usable lock locals.directory).1
  have at_start := (denotes_absolute usable start locals.directory).1
  rw [execute, scriptProgram_eq]
  by_cases locked : files.isFile (data.place ".lock")
  case neg =>
      rw [if_neg (fun both => locked both.1), body_missing at_lock (Bool.eq_false_iff.mpr locked)]
      rfl
  rw [body_found at_lock locked]
  by_cases started : files.isFile (data.place ".lock.start")
  case neg =>
      rw [if_neg (fun both => started both.2), body_missing at_start (Bool.eq_false_iff.mpr started)]
      rfl
  rw [body_found at_start started, if_pos ⟨locked, started⟩, body_prepared usable ready, body]
  have begun := ready_begun ready locals.pid
  cases job : runPipelines pipes data.pipelines (data.jobLocals locals) (data.begun locals.pid files) with
  | mk after status =>
      obtain ⟨locals', inside, trapped⟩ := body_trapped usable careful rfl begun job (some data.handler)
      obtain ⟨directory, control⟩ :=
        careful.runPipelines data.pipelines (data.jobLocals locals) (data.begun locals.pid files)
      rw [job] at directory control
      obtain ⟨locals'', cleaned⟩ := run_handler usable inside (ready_marked (begun.of_careful directory control) status)
      rw [trapped, Option.bind_some]
      simp only [Option.getD_some, cleaned, Option.map_some]
      rfl

/-! ### Comments -/

instance (text : Str) : Decidable (Comment text) :=
  inferInstanceAs (Decidable (∀ line ∈ text.splitOn newline, line = [] ∨ line.head? = some 35))

theorem comment_line {line rest : Str} (apart : newline ∉ line) (marked : line = [] ∨ line.head? = some 35)
    (later : Comment rest) : Comment (line ++ newline :: rest) := by
  intro other member
  rw [List.splitOn_append_cons_self_of_not_mem apart] at member
  rcases List.mem_cons.mp member with rfl | inside
  · exact marked
  · exact later other inside

theorem comment_head {tags : Str} (apart : newline ∉ tags) : Comment (scriptHead (str "/bin/bash") tags) := by
  have lines : scriptHead (str "/bin/bash") tags =
      str "#!/bin/bash" ++ newline :: (str "# Experimaestro generated task" ++ newline :: ([] ++ newline ::
        ((str "# __tags__ = " ++ tags) ++ newline :: ([] ++ newline ::
          (str "# Checks that the locks are set" ++ newline :: []))))) := by
    simp [scriptHead, str, newline]
  rw [lines]
  refine comment_line (by decide) (by decide) (comment_line (by decide) (by decide) (comment_line (by decide)
    (by decide) (comment_line ?_ (Or.inr rfl) (comment_line (by decide) (by decide) (comment_line (by decide)
    (by decide) (by decide))))))
  rw [List.mem_append, not_or]
  exact ⟨by decide, apart⟩

/-- Between the statements there are comments and empty lines only. -/
theorem comment_remarks (data : ScriptData) : ∀ line ∈ data.lines, Comment line.remark := by
  have exports : ∀ line ∈ data.exported.map ScriptData.exportLine, Comment line.remark := by
    intro line member
    obtain ⟨entry, _, rfl⟩ := List.mem_map.mp member
    exact (by decide : Comment [])
  have first : Comment (str "# Checks that the start lock is set, and removes it\n") := by decide
  have empty : Comment (str "\n") := by decide
  have none : Comment [] := by decide
  simp only [ScriptData.lines, ScriptData.trapped, List.forall_mem_append, List.forall_mem_cons, first, empty, none,
    true_and]
  exact ⟨⟨⟨by simp, exports⟩, by simp⟩, by simp⟩

/-! ### The script of a job -/

/-- What a script leaves: the exit code, `.done` exactly if this is zero or it was there already, no locks and no
process; all else as the background job has left it. -/
structure Finished (data : ScriptData) (after left : FileSystem) (status : UInt8) : Prop where
  code : left (data.place ".code") = some (.file (numberText status.toNat ++ str "\n"))
  done : left.isFile (data.place ".done") ↔ status = 0 ∨ after.isFile (data.place ".done")
  gone : ∀ extension ∈ [".lock", ".lock.start", ".pid"], left (data.place extension) = none
  others : ∀ place, (∀ extension ∈ ScriptData.extensions, place ≠ data.place extension) → left place = after place

theorem isFile_iff {files : FileSystem} {place : List Str} (free : files place ≠ some .directory) :
    files.isFile place ↔ files place ≠ none := by
  rw [FileSystem.isFile]
  cases there : files place with
  | none => simp
  | some entry =>
      cases entry with
      | directory => exact absurd there free
      | file content => simp

/-- The entry at a place when the exit code is written. -/
theorem marked_apply (data : ScriptData) (after : FileSystem) (status : UInt8) (place : List Str) :
    data.marked after status place =
      if place = data.place ".code" then some (.file (numberText status.toNat ++ str "\n"))
      else if place = data.place ".done" ∧ status = 0 ∧ after place = none then some (.file [])
      else after place := by
  have other : data.place ".done" ≠ data.place ".code" := place_ne (by decide)
  rw [ScriptData.marked]
  by_cases coded : place = data.place ".code"
  · subst coded
    simp only [if_true]
    split
    · rw [FileSystem.set_of_ne _ _ other.symm, FileSystem.set_self]
    · rw [FileSystem.set_self]
  · rw [if_neg coded]
    by_cases done : place = data.place ".done"
    · subst done
      simp only [true_and]
      split
      · rw [FileSystem.set_self]
      · rw [FileSystem.set_of_ne _ _ coded]
    · have apart : ¬ (place = data.place ".done" ∧ status = 0 ∧ after place = none) := fun all => done all.1
      rw [if_neg apart]
      split
      · rw [FileSystem.set_of_ne _ _ done, FileSystem.set_of_ne _ _ coded]
      · rw [FileSystem.set_of_ne _ _ coded]

/-- The entry at a place when the script is over. -/
theorem ended_apply (data : ScriptData) (after : FileSystem) (status : UInt8) (place : List Str) :
    data.ended after status place =
      if place = data.place ".lock" ∨ place = data.place ".pid" then none else data.marked after status place := by
  rw [ScriptData.ended]
  by_cases lock : place = data.place ".lock"
  · rw [if_pos (Or.inl lock), lock, FileSystem.set_self]
  · rw [FileSystem.set_of_ne _ _ lock]
    by_cases pid : place = data.place ".pid"
    · rw [if_pos (Or.inr pid), pid, FileSystem.set_self]
    · rw [if_neg (not_or.mpr ⟨lock, pid⟩), FileSystem.set_of_ne _ _ pid]

theorem finished_ended {data : ScriptData} {after : FileSystem} (ready : Ready data after) (status : UInt8)
    (started : after (data.place ".lock.start") = none) : Finished data after (data.ended after status) status := by
  have differ {one two : String} (other : str one ≠ str two) : data.place one ≠ data.place two := place_ne other
  constructor
  · rw [ended_apply, if_neg (not_or.mpr ⟨differ (by decide), differ (by decide)⟩), marked_apply, if_pos rfl]
  · have free := ready.free ".done" (by decide)
    have kept : data.ended after status (data.place ".done") =
        if status = 0 ∧ after (data.place ".done") = none then some (.file []) else after (data.place ".done") := by
      rw [ended_apply, if_neg (not_or.mpr ⟨differ (by decide), differ (by decide)⟩), marked_apply,
        if_neg (differ (by decide))]
      simp only [true_and]
    have free' : data.ended after status (data.place ".done") ≠ some .directory := by
      rw [kept]
      split
      · simp
      · exact free
    rw [isFile_iff free, isFile_iff free', kept]
    by_cases zero : status = 0
    · by_cases missing : after (data.place ".done") = none <;> simp [zero, missing]
    · simp [zero]
  · intro extension member
    simp only [List.mem_cons, List.not_mem_nil, or_false] at member
    rcases member with rfl | rfl | rfl
    · rw [ended_apply, if_pos (Or.inl rfl)]
    · rw [ended_apply, if_neg (not_or.mpr ⟨differ (by decide), differ (by decide)⟩), marked_apply,
        if_neg (differ (by decide)), if_neg (fun all => differ (by decide) all.1), started]
    · rw [ended_apply, if_pos (Or.inr rfl)]
  · intro place outside
    have apart {extension : String} (member : extension ∈ ScriptData.extensions) : place ≠ data.place extension :=
      outside extension member
    rw [ended_apply, if_neg (not_or.mpr ⟨apart (by decide), apart (by decide)⟩), marked_apply,
      if_neg (apart (by decide)), if_neg (fun all => apart (by decide) all.1)]

/-- The statuses of the commands of all pipelines that are run. -/
def runStatuses (pipes : Pipes) : List Str → Locals → FileSystem → List UInt8
  | [], _, _ => []
  | pipeline :: rest, locals, files =>
      let (after, statuses) := pipes pipeline locals files
      statuses ++ if checkedStatus statuses = none then runStatuses pipes rest locals after else []

/-- A pipeline with a status that is checked has failed. -/
theorem failed_of_checked {statuses : List UInt8} {status : UInt8} (checked : checkedStatus statuses = some status) :
    pipelineStatus true statuses ≠ 0 := by
  have member := List.mem_of_find?_eq_some checked
  have nonzero : status ≠ 0 := by
    have found := List.find?_some checked
    simp only [Bool.and_eq_true, bne_iff_ne] at found
    exact found.1
  rw [pipelineStatus, if_pos rfl]
  cases last : statuses.reverse.find? (· != 0) with
  | none =>
      rw [List.find?_eq_none] at last
      exact absurd (last status (List.mem_reverse.mpr member)) (by simp [nonzero])
  | some other =>
      have found := List.find?_some last
      simpa using found

/-- Where failures inside of pipelines are seen, the background job ends with the first status that is checked. -/
theorem runPipelines_status {pipes : Pipes} {pipelines : List Str} {locals : Locals} {files : FileSystem}
    (piped : locals.pipefail) :
    (runPipelines pipes pipelines locals files).2 =
      (checkedStatus (runStatuses pipes pipelines locals files)).getD 0 := by
  induction pipelines generalizing files with
  | nil => rfl
  | cons pipeline rest ih =>
      rw [runPipelines, runStatuses]
      cases pipes pipeline locals files with
      | mk after statuses =>
          dsimp only
          rw [piped]
          cases checked : checkedStatus statuses with
          | some status =>
              rw [if_neg (failed_of_checked checked), if_neg (by simp), List.append_nil, checked]
              rfl
          | none =>
              have both : checkedStatus (statuses ++ runStatuses pipes rest locals after) =
                  checkedStatus (runStatuses pipes rest locals after) := by
                rw [checkedStatus, List.find?_append]
                rw [checkedStatus] at checked
                rw [checked]
                rfl
              rw [if_pos rfl, both, ← ih]
              exact congrArg Prod.snd (ite_self _)

/-- A job whose paths, name and URL are read as they are. -/
structure Legible (job : ScriptJob) (directory : List Str) (name url : Str) : Prop where
  placed : Placed job.locator directory name
  plain : (rooted (directory ++ [name])).all ordinary
  dashless : name.head? ≠ some 45
  identified : job.jobId.all ordinary
  url : Readable (url ++ str "/" ++ job.jobId)
  tagged : newline ∉ job.tags

theorem Legible.usable {job : ScriptJob} {directory : List Str} {name url : Str}
    (legible : Legible job directory name url) (texts : List Str) : Usable (job.data directory name url texts) where
  nested := legible.placed.nested
  normal := legible.placed.normal
  plain := legible.plain
  dashless := legible.dashless
  exported := by
    intro entry member
    simp only [ScriptData.exported, ScriptJob.data, List.nil_append, Option.mem_toList, Option.map_eq_some_iff] at member
    obtain ⟨whole, set, rfl⟩ := member
    split at set
    · cases set
    · cases set
      have named : identifier (str "XPM_NOTIFICATION_URL") := by decide
      exact ⟨named, legible.url⟩

theorem protectQuoted_ordinary {s : Str} (plain : s.all ordinary) : protectQuoted s = s := by
  induction s with
  | nil => rfl
  | cons c s ih =>
      rw [List.all_cons, Bool.and_eq_true] at plain
      have other : ¬ (c = doubleQuote ∨ c = dollar) := by
        rintro (rfl | rfl)
        · exact absurd plain.1 (by decide)
        · exact absurd plain.1 (by decide)
      rw [protectQuoted, if_neg other, ih plain.2]

end Experimaestro.Commands

/-
Module: Experimaestro.Commands.ScriptBuilder
Layer: Commands
Purpose: The script of a job. `ShScriptBuilder.output` is what `ShScriptBuilder::write` prints, and
  `scriptProgram` the program of the shell that this text is, with comments behind its statements:
  `output_script` says so for a job whose directory is not the root and whose name has no dot. The commands of
  the job are the pipelines of its background job.
Imports: Experimaestro.Commands.Redirections, Experimaestro.Files.ControlFiles,
  Experimaestro.Library.ShellPrograms
Trusted boundary: human-reviewed model of ShScriptBuilder::write, and of the script builder that
  CommandLineJob::run sets up; the texts of the statements
Main exports: ShScriptBuilder, ScriptJob, ShScriptBuilder.output, Word, Simple, Test, ExitStatus, Line,
  scriptProgram, Placed, prints_script
Open obligations: none
-/
import Mathlib.Tactic.Common
import Experimaestro.Commands.Redirections
import Experimaestro.Files.ControlFiles
import Experimaestro.Library.ShellPrograms

namespace Experimaestro.Commands

open Experimaestro.Configuration (Str str)
open Files (slash rooted NormalComponent lockPath lockStartPath pidPath exitCodePath donePath)

variable {Part : Type}

/-! ### The script builder -/

/-- `ScriptBuilder` and `ShScriptBuilder`. -/
structure ShScriptBuilder (Part : Type) where
  shPath : Str := str "/bin/bash"
  environment : List (Str × Str) := []
  command : CommandLine Part
  preprocessCommands : Option (CommandLine Part) := none
  notificationURL : Str := []
  lockFiles : List Configuration.Path := []

/-- What `ShScriptBuilder::write` reads of a job. -/
structure ScriptJob where
  locator : Configuration.Path
  jobId : Str
  /-- The tags, as the emitter of the YAML library writes them. -/
  tags : Str

namespace Output

/-- `connector.resolve(path)`. -/
def resolved (path : Configuration.Path) : Output Part := writeResult fun context => context.resolve path

/-- `connector.resolve(path)`, protected and in quotes. -/
def quotedAbsolute (path : Configuration.Path) : Output Part :=
  (write (str "\"")).andThen
    ((writeResult fun context => (context.resolve path).map protectQuoted).andThen (write (str "\"")))

/-- `connector.resolve(path, directory)`. -/
def relative (path : Configuration.Path) : Output Part :=
  writeResult fun context => context.resolveInWorkingDirectory path

/-- `connector.resolve(path, directory)`, protected and in quotes. -/
def quotedRelative (path : Configuration.Path) : Output Part :=
  (write (str "\"")).andThen ((writeResolved path).andThen (write (str "\"")))

end Output

namespace ShScriptBuilder

variable (builder : ShScriptBuilder Part) (path : Configuration.Path) (job : ScriptJob)

/-- The tests of the locks. -/
def lockTests : Output Part :=
  if builder.lockFiles = [] then Output.write []
  else
    (Output.write (str "# Checks that the locks are set\n")).andThen
      (Output.each (builder.lockFiles.map fun lockFile =>
        (Output.write (str "if ! test -f ")).andThen ((Output.resolved lockFile).andThen
          (Output.write (str "; then echo Locks not set; exit 017; fi\n")))))

/-- The environment, and the URL of the notifications. -/
def exports : Output Part :=
  (Output.each (builder.environment.map fun (key, value) =>
    Output.write (str "export " ++ key ++ str "=\"" ++ protectQuoted value ++ str "\"\n"))).andThen
    (Output.write
      (if builder.notificationURL = [] then []
      else
        str "export XPM_NOTIFICATION_URL=\"" ++ protectQuoted builder.notificationURL ++ str "/" ++ job.jobId
          ++ str "\"\n"))

/-- The files of the named redirections of all commands, which are removed in the end. -/
def removeRedirections : Output Part := fun context =>
  Output.each (builder.command.commands.flatMap fun command =>
    let redirections := context.getNamedRedirections command.part
    (redirections.outputRedirections ++ redirections.errorRedirections).map fun file =>
      (Output.write (str " rm -f ")).andThen ((Output.relative file).andThen (Output.write (str ";\n")))) context

/-- The function `cleanup` of a script. -/
def cleanup : Output Part :=
  Output.each [
    Output.write (str "cleanup() \x7b\n"),
    Output.write (str " echo Cleaning up 1>&2\n"),
    Output.write (str " trap - 0\n"),
    (Output.write (str " rm -f ")).andThen ((Output.relative (pidPath job.locator)).andThen (Output.write (str ";\n"))),
    Output.each (builder.lockFiles.map fun file =>
      (Output.write (str " rm -f ")).andThen ((Output.relative file).andThen (Output.write (str "\n")))),
    builder.removeRedirections,
    Output.write
      (if builder.notificationURL = [] then []
      else
        str " wget --tries=1 --connect-timeout=1 --read-timeout=1 --quiet -O /dev/null \"$XPM_NOTIFICATION_URL?status=eoj\"\n"),
    Output.write (str " test ! -z \"$PID\" && pkill -KILL -P $PID\n"),
    Output.write (str "\x7d\n\n")]

/-- The definition of `checkerror`. -/
def checkerror : Str :=
  str "checkerror()  \x7b local e; for e in \"$@\"; do [[ \"$e\" != 0 ]] && [[ \"$e\" != 141 ]] && exit $e; done; return 0; \x7d\n\n"

/-- What `ShScriptBuilder::write` prints, with a context for the directory and the name of the path. -/
def output : Output Part :=
  Output.each [
    Output.write (str "#!" ++ builder.shPath ++ str "\n"),
    Output.write (str "# Experimaestro generated task\n\n"),
    Output.write (str "# __tags__ = " ++ job.tags ++ str "\n\n"),
    builder.lockTests,
    Output.write (str "# Checks that the start lock is set, and removes it\n"),
    (Output.write (str "if ! test -f ")).andThen ((Output.resolved (lockStartPath job.locator)).andThen
      (Output.write (str "; then echo start lock not set; exit 017; fi\n"))),
    (Output.write (str "rm -f ")).andThen ((Output.resolved (lockStartPath job.locator)).andThen
      (Output.write (str "\n\n"))),
    Output.write (str "set -o pipefail\n\n"),
    (Output.write (str "echo $$ > ")).andThen ((Output.quotedAbsolute (pidPath job.locator)).andThen
      (Output.write (str "\n\n"))),
    builder.exports job,
    (Output.write (str "cd ")).andThen ((Output.quotedAbsolute (Files.parent path)).andThen
      (Output.write (str "\n"))),
    match builder.preprocessCommands with
    | none => Output.write []
    | some commands => commands.output,
    builder.cleanup job,
    Output.write (str "# Set trap to cleanup when exiting\ntrap cleanup 0\n"),
    Output.write (str "\n" ++ checkerror),
    Output.write (str "(\n"),
    builder.command.output,
    Output.write (str ")  & \nPID=$!\nwait $PID\ncode=$?\nif test $code -ne 0; then\n"),
    (Output.write (str " echo $code > ")).andThen ((Output.quotedRelative (exitCodePath job.locator)).andThen
      (Output.write (str "\n"))),
    Output.write (str " exit $code\nfi\n"),
    (Output.write (str "echo 0 > ")).andThen ((Output.quotedRelative (exitCodePath job.locator)).andThen
      (Output.write (str "\n"))),
    (Output.write (str "touch ")).andThen ((Output.quotedRelative (donePath job.locator)).andThen
      (Output.write (str "\n")))]

end ShScriptBuilder

/-- The script builder that `CommandLineJob::run` sets up: both launchers leave its environment empty. -/
def scriptBuilder (command : CommandLine Part) (notificationURL : Str) (locator : Configuration.Path) :
    ShScriptBuilder Part where
  command := command
  notificationURL := notificationURL
  lockFiles := [lockPath locator]

/-! ### The language of scripts -/

/-- A word, without quotes or in double quotes. -/
inductive Word where
  | bare (text : Str)
  | quoted (value : Str)
deriving DecidableEq

/-- The simple commands. -/
inductive Simple where
  /-- `echo`, to the terminal. -/
  | say (message : Str)
  /-- `rm -f file`, closed with a semicolon or not. -/
  | remove (file : Word) (closed : Bool)
  /-- `set -o pipefail` -/
  | setPipefail
  /-- `echo $$ > file` -/
  | writePid (file : Word)
  /-- `export key=value` -/
  | exportVariable (key : Str) (value : Word)
  /-- `cd directory` -/
  | changeDirectory (directory : Word)
  /-- `trap - 0` -/
  | untrap
  /-- The notification at the end of the job. -/
  | notify
  /-- The children of the background job are killed. -/
  | killChildren
  /-- `code=$?` -/
  | rememberStatus
  /-- `echo $code > file` -/
  | writeCode (file : Word)
  /-- `echo 0 > file` -/
  | writeZero (file : Word)
  /-- `touch file` -/
  | touch (file : Word)
deriving DecidableEq

/-- The tests. -/
inductive Test where
  /-- `! test -f file` -/
  | missing (file : Word)
  /-- `test $code -ne 0` -/
  | failed
deriving DecidableEq

/-- What `exit` is given. -/
inductive ExitStatus where
  | constant (digits : Str)
  | code
deriving DecidableEq

/-- The statements; the background job is a list of pipelines, the result of each of which is checked. -/
abbrev Statement : Type := ShellPrograms.Statement Simple Test ExitStatus (List Str)

/-! ### The texts of programs -/

def Word.text : Word → Str
  | .bare text => text
  | .quoted value => Commands.quoted value

def Simple.text : Simple → Str
  | .say message => str "echo " ++ message
  | .remove file closed => str "rm -f " ++ file.text ++ if closed then str ";" else []
  | .setPipefail => str "set -o pipefail"
  | .writePid file => str "echo $$ > " ++ file.text
  | .exportVariable key value => str "export " ++ key ++ str "=" ++ value.text
  | .changeDirectory directory => str "cd " ++ directory.text
  | .untrap => str "trap - 0"
  | .notify =>
      str "wget --tries=1 --connect-timeout=1 --read-timeout=1 --quiet -O /dev/null \"$XPM_NOTIFICATION_URL?status=eoj\""
  | .killChildren => str "test ! -z \"$PID\" && pkill -KILL -P $PID"
  | .rememberStatus => str "code=$?"
  | .writeCode file => str "echo $code > " ++ file.text
  | .writeZero file => str "echo 0 > " ++ file.text
  | .touch file => str "touch " ++ file.text

def ExitStatus.text : ExitStatus → Str
  | .constant digits => digits
  | .code => str "$code"

/-- A pipeline of the background job, with the check of its result. -/
def pipelineText (pipeline : Str) : Str := pipeline ++ str " || checkerror \"$\x7bPIPESTATUS[@]\x7d\"  || exit $?\n"

/-- The background job: several pipelines are in a subshell of their own. -/
def jobText (pipelines : List Str) : Str :=
  (if 1 < pipelines.length then str "(\n" else []) ++ pipelines.flatMap pipelineText
    ++ if 1 < pipelines.length then str ")\n" else []

def statementText : Statement → Str
  | .run command => command.text ++ str "\n"
  | .guard (.missing file) commands value =>
      str "if ! test -f " ++ file.text ++ str "; then " ++ commands.flatMap (fun command => command.text ++ str "; ")
        ++ str "exit " ++ value.text ++ str "; fi\n"
  | .guard .failed commands value =>
      str "if test $code -ne 0; then\n" ++ commands.flatMap (fun command => str " " ++ command.text ++ str "\n")
        ++ str " exit " ++ value.text ++ str "\nfi\n"
  | .trap handler =>
      str "cleanup() \x7b\n" ++ handler.flatMap (fun command => str " " ++ command.text ++ str "\n")
        ++ str "\x7d\n\n# Set trap to cleanup when exiting\ntrap cleanup 0\n"
  | .start pipelines => ShScriptBuilder.checkerror ++ str "(\n" ++ jobText pipelines ++ str ")  & \nPID=$!\n"
  | .await => str "wait $PID\n"

/-- A statement, and the comments and empty lines behind it. -/
structure Line where
  statement : Statement
  remark : Str := []

def Line.text (line : Line) : Str := statementText line.statement ++ line.remark

/-- Comments and empty lines. -/
def Comment (text : Str) : Prop := ∀ line ∈ text.splitOn newline, line = [] ∨ line.head? = some 35

/-! ### The program of a job -/

/-- What the script of a job depends on: where it is, the URL of its notifications, and its pipelines. -/
structure ScriptData where
  directory : List Str
  name : Str
  /-- The URL with the identifier of the job. -/
  notificationURL : Option Str
  environment : List (Str × Str)
  pipelines : List Str

namespace ScriptData

variable (data : ScriptData)

/-- A file beside the locator, by its absolute path and from the directory. -/
def absolute (extension : String) : Str := rooted (data.directory ++ [data.name ++ str extension])

def beside (extension : String) : Str := data.name ++ str extension

/-- The function `cleanup`. -/
def handler : List Simple :=
  [.say (str "Cleaning up 1>&2"), .untrap, .remove (.bare (data.beside ".pid")) true,
    .remove (.bare (data.beside ".lock")) false] ++
  (if data.notificationURL.isSome then [.notify] else []) ++ [.killChildren]

/-- The exported variables. -/
def exported : List (Str × Str) :=
  data.environment ++ (data.notificationURL.map fun url => (str "XPM_NOTIFICATION_URL", url)).toList

def exportLine (entry : Str × Str) : Line := { statement := .run (.exportVariable entry.1 (.quoted entry.2)) }

/-- The part of a script that has the trap. -/
def trapped : List Line := [
  { statement := .start data.pipelines },
  { statement := .await },
  { statement := .run .rememberStatus },
  { statement := .guard .failed [.writeCode (.quoted (data.beside ".code"))] .code },
  { statement := .run (.writeZero (.quoted (data.beside ".code"))) },
  { statement := .run (.touch (.quoted (data.beside ".done"))) }]

/-- The program that the script of a job is. -/
def lines : List Line :=
  [{ statement := .guard (.missing (.bare (data.absolute ".lock"))) [.say (str "Locks not set")] (.constant (str "017")),
     remark := str "# Checks that the start lock is set, and removes it\n" },
    { statement :=
        .guard (.missing (.bare (data.absolute ".lock.start"))) [.say (str "start lock not set")]
          (.constant (str "017")) },
    { statement := .run (.remove (.bare (data.absolute ".lock.start")) false), remark := str "\n" },
    { statement := .run .setPipefail, remark := str "\n" },
    { statement := .run (.writePid (.quoted (data.absolute ".pid"))), remark := str "\n" }] ++
  data.exported.map exportLine ++
  [{ statement := .run (.changeDirectory (.quoted (rooted data.directory))) },
    { statement := .trap data.handler, remark := str "\n" }] ++
  data.trapped

end ScriptData

/-- The statements of the script of a job. -/
def scriptProgram (data : ScriptData) : List Statement := data.lines.map (·.statement)

/-- What stands before the program. -/
def scriptHead (shPath tags : Str) : Str :=
  str "#!" ++ shPath ++ str "\n# Experimaestro generated task\n\n# __tags__ = " ++ tags
    ++ str "\n\n# Checks that the locks are set\n"

/-! ### What output functions print -/

/-- The output function prints the text, and leaves a context. -/
def Prints (output : Output Part) (context : CommandContext Part) (text : Str) (next : CommandContext Part) : Prop :=
  output context = (text, .ok next)

namespace Prints

variable {output first second : Output Part} {outputs : List (Output Part)} {context between next : CommandContext Part}
  {text rest : Str}

theorem write (text : Str) (context : CommandContext Part) : Prints (Output.write text) context text context := rfl

theorem writeResult {result : CommandContext Part → Except Stop Str} (ok : result context = .ok text) :
    Prints (Output.writeResult result) context text context := by
  rw [Prints, Output.writeResult, ok]

theorem andThen (one : Prints first context text between) (two : Prints second between rest next) :
    Prints (first.andThen second) context (text ++ rest) next := by
  rw [Prints, Output.andThen_ok (congrArg Prod.snd one), one, two]

theorem nil (context : CommandContext Part) : Prints (Output.each []) context [] context := rfl

theorem cons (one : Prints output context text between) (others : Prints (Output.each outputs) between rest next) :
    Prints (Output.each (output :: outputs)) context (text ++ rest) next :=
  andThen one others

/-- A text between two others. -/
theorem around {before after : Str} (inside : Prints output context text next) :
    Prints ((Output.write before).andThen (output.andThen (Output.write after))) context
      (before ++ (text ++ after)) next :=
  andThen (write before context) (andThen inside (write after next))

end Prints

/-! ### The pipelines of a command line -/

/-- The command has no named pipes. -/
def Unpiped (context : CommandContext Part) : Prop := ∀ part, context.namedPipeRedirectionsMap part = none

/-- What is printed of a command without named pipes, up to the check of its result. -/
def pipeline (path : Str) (command : Command Part) : Output Part :=
  (if command.inputRedirect.type = .file then inputFile path else Output.write []).andThen
    (command.output.andThen
      ((printRedirections 1 command.outputRedirect []).andThen (printRedirections 2 command.errorRedirect [])))

/-- The pipelines of commands. -/
def pipelines (path : Str) : List (Command Part) → CommandContext Part → Except Stop (List Str × CommandContext Part)
  | [], context => .ok ([], context)
  | command :: rest, context =>
      match pipeline path command context with
      | (_, .error stop) => .error stop
      | (text, .ok next) => (pipelines path rest next).map fun (texts, last) => (text :: texts, last)

theorem Unpiped.getNamedRedirections {context : CommandContext Part} (unpiped : Unpiped context) (part : Part) :
    context.getNamedRedirections part = ⟨[], []⟩ := by
  rw [CommandContext.getNamedRedirections, unpiped part]
  rfl

theorem Unpiped.of_keeps {output : Output Part} {context next : CommandContext Part} (unpiped : Unpiped context)
    (keeps : output.Keeps) (left : (output context).2 = .ok next) : Unpiped next := by
  obtain ⟨counts, files, rfl⟩ := keeps context next left
  exact unpiped

theorem keeps_command_output (command : Command Part) : command.output.Keeps := by
  unfold Command.output
  split
  · exact (Output.reads_write []).keeps
  · apply (keeps_component _).andThen
    apply Output.keeps_each
    intro output member
    obtain ⟨component, _, rfl⟩ := List.mem_map.mp member
    exact (Output.reads_write _).keeps.andThen (keeps_component component)

theorem keeps_pipeline (path : Str) (command : Command Part) : (pipeline path command).Keeps := by
  unfold pipeline
  apply Output.Keeps.andThen
  · split
    · exact (reads_inputFile path).keeps
    · exact (Output.reads_write []).keeps
  · apply (keeps_command_output command).andThen
    exact (reads_printRedirections 1 _ _).keeps.andThen (reads_printRedirections 2 _ _).keeps

/-- Output functions that go on in the same way where they come to. -/
theorem andThen_congr {first second second' : Output Part} {context : CommandContext Part}
    (same : ∀ next, (first context).2 = .ok next → second next = second' next) :
    first.andThen second context = first.andThen second' context := by
  cases left : (first context).2 with
  | ok next => rw [Output.andThen_ok left, Output.andThen_ok left, same next left]
  | error stop => rw [Output.andThen_error left, Output.andThen_error left]

theorem andThen_assoc (first second third : Output Part) :
    (first.andThen second).andThen third = first.andThen (second.andThen third) := by
  funext context
  cases left : (first context).2 with
  | error stop =>
      have both : (first.andThen second context).2 = .error stop := by rw [Output.andThen_error left]
      rw [Output.andThen_error both, Output.andThen_error left, Output.andThen_error left]
  | ok next =>
      rw [Output.andThen_ok left]
      cases later : (second next).2 with
      | error stop =>
          have both : (first.andThen second context).2 = .error stop := by rw [Output.andThen_ok left, later]
          rw [Output.andThen_error both, Output.andThen_error later, Output.andThen_ok left]
      | ok last =>
          have both : (first.andThen second context).2 = .ok last := by rw [Output.andThen_ok left, later]
          rw [Output.andThen_ok both, Output.andThen_ok later, Output.andThen_ok left, List.append_assoc]

/-- Without named pipes, a command is its pipeline and the check. -/
theorem Prints.commandText {path : Str} {command : Command Part} {context next : CommandContext Part} {text : Str}
    (unpiped : Unpiped context) (piped : Prints (pipeline path command) context text next) :
    Prints (commandText path command) context (pipelineText text) next := by
  have checked := piped.andThen (Prints.write (str " || checkerror \"$\x7bPIPESTATUS[@]\x7d\"  || exit $?\n") next)
  have pipes : namedPipes command context = ([], .ok context) := by
    simp only [namedPipes, unpiped.getNamedRedirections]
    rfl
  rw [Prints, Commands.commandText, Output.andThen_ok (congrArg Prod.snd pipes), pipes, List.nil_append]
  rw [Prints, pipeline, andThen_assoc, andThen_assoc, andThen_assoc] at checked
  refine (andThen_congr ?_).trans checked
  intro between left
  have stays : between = context := by
    by_cases file : command.inputRedirect.type = .file
    · rw [if_pos file] at left
      exact reads_inputFile path context between left
    · rw [if_neg file] at left
      exact Output.reads_write [] context between left
  rw [stays, commandAndOutput, unpiped.getNamedRedirections]

/-- The commands are their pipelines, one after the other. -/
theorem Prints.bodies {line : CommandLine Part} {commands : List (Command Part)} {context next : CommandContext Part}
    {texts : List Str} (unpiped : Unpiped context)
    (piped : pipelines line.inputRedirect.path commands context = .ok (texts, next)) :
    Prints (line.bodies commands) context (texts.flatMap pipelineText) next ∧ texts.length = commands.length := by
  induction commands generalizing context texts with
  | nil =>
      simp only [pipelines, Except.ok.injEq, Prod.mk.injEq] at piped
      obtain ⟨rfl, rfl⟩ := piped
      exact ⟨Prints.nil context, rfl⟩
  | cons command rest ih =>
      rw [pipelines] at piped
      cases here : pipeline line.inputRedirect.path command context with
      | mk text left =>
          cases left with
          | error stop =>
              rw [here] at piped
              cases piped
          | ok between =>
              rw [here] at piped
              dsimp only at piped
              cases later : pipelines line.inputRedirect.path rest between with
              | error stop =>
                  rw [later] at piped
                  cases piped
              | ok result =>
                  rw [later] at piped
                  cases piped
                  have goes := unpiped.of_keeps (keeps_pipeline line.inputRedirect.path command)
                    (congrArg Prod.snd here)
                  obtain ⟨others, lengths⟩ := ih goes later
                  exact ⟨(Prints.commandText unpiped here).andThen others, congrArg (· + 1) lengths⟩

/-- A command line is the job that is made of its pipelines. -/
theorem Prints.commandLine {line : CommandLine Part} {context next : CommandContext Part} {texts : List Str}
    (unpiped : Unpiped context)
    (piped : pipelines line.inputRedirect.path line.commands context = .ok (texts, next)) :
    Prints line.output context (jobText texts) next := by
  obtain ⟨printed, lengths⟩ := Prints.bodies unpiped piped
  have whole := (Prints.write (if 1 < line.commands.length then str "(\n" else []) context).andThen
    (printed.andThen (Prints.write (if 1 < line.commands.length then str ")\n" else []) next))
  rw [jobText, lengths, List.append_assoc]
  exact whole

theorem keeps_commandLine (line : CommandLine Part) : line.output.Keeps := by
  apply (Output.reads_write _).keeps.andThen
  apply Output.Keeps.andThen _ (Output.reads_write _).keeps
  apply Output.keeps_each
  intro output member
  obtain ⟨command, _, rfl⟩ := List.mem_map.mp member
  exact keeps_commandText _ command

/-! ### Where a job is -/

/-- A job whose directory is not the root, on this host, and whose name has no dot. -/
structure Placed (locator : Configuration.Path) (directory : List Str) (name : Str) : Prop where
  place : locator = ⟨[], rooted (directory ++ [name])⟩
  nested : directory ≠ []
  normal : ∀ component ∈ directory ++ [name], NormalComponent component
  undotted : Files.dot ∉ name

namespace Placed

variable {locator : Configuration.Path} {directory : List Str} {name : Str}

theorem rooted_snoc (nested : directory ≠ []) (last : Str) :
    rooted (directory ++ [last]) = rooted directory ++ slash :: last := by
  rw [Files.rooted_append directory (List.cons_ne_nil last []), Files.rooted_flatMap nested]
  simp [rooted]

theorem parent (placed : Placed locator directory name) : Files.parent locator = ⟨[], rooted directory⟩ := by
  have apart : slash ∉ name := (placed.normal name (by simp)).apart
  rw [placed.place, rooted_snoc placed.nested, Files.parent_split apart, if_neg]
  rw [rooted]
  exact List.cons_ne_nil _ _

/-- The path of a file beside the locator. -/
theorem withExtension (placed : Placed locator directory name) (extension : Str) :
    Files.withExtension locator extension = ⟨[], rooted (directory ++ [name ++ (str "." ++ extension)])⟩ := by
  have apart : slash ∉ name := (placed.normal name (by simp)).apart
  have undotted : name.idxOf? Files.dot = none := List.idxOf?_eq_none_iff.mpr placed.undotted
  rw [placed.place, rooted_snoc placed.nested, Files.withExtension_split apart, undotted, rooted_snoc placed.nested,
    List.append_assoc]

/-- The text of the file, from the directory. -/
theorem resolveInWorkingDirectory (placed : Placed locator directory name) {context : CommandContext Part}
    (inside : context.folder = Files.parent locator) (last : Str) :
    context.resolveInWorkingDirectory ⟨[], rooted (directory ++ [last])⟩ = .ok last := by
  have from_directory : context.resolve context.getWorkingDirectory = .ok (rooted directory) := by
    rw [CommandContext.getWorkingDirectory, inside, placed.parent]
    rfl
  have path : context.resolve ⟨[], rooted (directory ++ [last])⟩ = .ok (rooted (directory ++ [last])) := rfl
  rw [CommandContext.resolveInWorkingDirectory, path, from_directory]
  simp only [Files.relativeTo_above [] placed.nested (List.cons_ne_nil last [])]
  rw [List.intercalate_singleton]
  rfl

end Placed

/-! ### The text of a script -/

/-- The program of a job with some pipelines. -/
def ScriptJob.data (job : ScriptJob) (directory : List Str) (name url : Str) (texts : List Str) : ScriptData where
  directory := directory
  name := name
  notificationURL := if url = [] then none else some (url ++ str "/" ++ job.jobId)
  environment := []
  pipelines := texts

/-- The context in which `ShScriptBuilder::write` prints. -/
def scriptContext (workspace : List (Str × Str)) (connector : Configuration.Connector)
    (opens : Configuration.Path → Except Configuration.Error Unit) (path : Configuration.Path)
    (parameters : Except Configuration.Error Str) : CommandContext Part :=
  .new workspace connector opens (Files.parent path) (Files.name path) parameters fun _ => none

theorem str_append (a b : String) : str a ++ str b = str (a ++ b) := by
  rw [str, str, str, String.toList_append, List.map_append]

theorem str_append_append (a b : String) (rest : Str) : str a ++ (str b ++ rest) = str (a ++ b) ++ rest := by
  rw [← List.append_assoc, str_append]

theorem quoted_text (s : Str) : quoted s = str "\"" ++ (protectQuoted s ++ str "\"") := rfl

theorem protectQuoted_append (s t : Str) : protectQuoted (s ++ t) = protectQuoted s ++ protectQuoted t := by
  induction s with
  | nil => rfl
  | cons c s ih =>
      rw [List.cons_append, protectQuoted, protectQuoted, ih]
      split <;> rfl

/-! ### The parts of a script -/

/-- A line with an absolute path in quotes. -/
theorem prints_quotedAbsolute {context : CommandContext Part} {path : Configuration.Path} {text : Str}
    (resolved : context.resolve path = .ok text)
    (before after : Str) :
    Prints ((Output.write before).andThen ((Output.quotedAbsolute path).andThen (Output.write after))) context
      (before ++ (quoted text ++ after)) context := by
  apply Prints.around
  apply Prints.around
  apply Prints.writeResult
  rw [resolved]
  rfl

section

variable {job : ScriptJob} {directory : List Str} {name : Str} {context : CommandContext Part}
  (placed : Placed job.locator directory name) (inside : context.folder = Files.parent job.locator)

include placed

/-- A line with the absolute path of a file beside the locator, without quotes. -/
theorem prints_resolved (before after : Str) (extension : Str) :
    Prints ((Output.write before).andThen
        ((Output.resolved (Files.withExtension job.locator extension)).andThen (Output.write after))) context
      (before ++ (rooted (directory ++ [name ++ (str "." ++ extension)]) ++ after)) context := by
  apply Prints.around
  apply Prints.writeResult
  rw [placed.withExtension]
  rfl

include inside

/-- The same, with the path from the directory. -/
theorem prints_relative (before after : Str) (extension : Str) :
    Prints ((Output.write before).andThen
        ((Output.relative (Files.withExtension job.locator extension)).andThen (Output.write after))) context
      (before ++ ((name ++ (str "." ++ extension)) ++ after)) context := by
  apply Prints.around
  apply Prints.writeResult
  rw [placed.withExtension, placed.resolveInWorkingDirectory inside]

theorem prints_quotedRelative (before after : Str) (extension : Str) :
    Prints ((Output.write before).andThen
        ((Output.quotedRelative (Files.withExtension job.locator extension)).andThen (Output.write after))) context
      (before ++ (quoted (name ++ (str "." ++ extension)) ++ after)) context := by
  apply Prints.around
  apply Prints.around
  apply Prints.writeResult
  rw [placed.withExtension, placed.resolveInWorkingDirectory inside]
  rfl

/-- The function `cleanup`. -/
theorem prints_cleanup (unpiped : Unpiped context) {command : CommandLine Part} {url : Str} (texts : List Str) :
    Prints ((scriptBuilder command url job.locator).cleanup job) context
      (str "cleanup() \x7b\n" ++
        (job.data directory name url texts).handler.flatMap (fun command => str " " ++ command.text ++ str "\n") ++
        str "\x7d\n\n") context := by
  have redirections : Prints (scriptBuilder command url job.locator).removeRedirections context [] context := by
    rw [Prints, ShScriptBuilder.removeRedirections]
    simp only [unpiped.getNamedRedirections, List.append_nil, List.map_nil]
    rw [List.flatMap_eq_nil_iff.mpr (fun _ _ => rfl)]
    rfl
  have printed : Prints ((scriptBuilder command url job.locator).cleanup job) context _ context :=
    .cons (.write _ context)
    (.cons (.write _ context)
    (.cons (.write _ context)
    (.cons (prints_relative placed inside _ _ (str "pid"))
    (.cons (.cons (prints_relative placed inside _ _ (str "lock")) (.nil context))
    (.cons redirections
    (.cons (.write _ context)
    (.cons (.write _ context)
    (.cons (.write _ context) (.nil context)))))))))
  convert printed using 1
  by_cases silent : url = [] <;>
    simp [ScriptJob.data, ScriptData.handler, scriptBuilder, silent, Simple.text, Word.text, ScriptData.beside,
      str_append, str_append_append]

/-- What `write` prints: comments and the program. -/
theorem prints_script (unpiped : Unpiped context) {command : CommandLine Part} {url : Str} {texts : List Str}
    {next : CommandContext Part} (plain : protectQuoted job.jobId = job.jobId)
    (piped : pipelines command.inputRedirect.path command.commands context = .ok (texts, next)) :
    Prints ((scriptBuilder command url job.locator).output job.locator job) context
      (scriptHead (str "/bin/bash") job.tags ++ (job.data directory name url texts).lines.flatMap Line.text) next := by
  have line := Prints.commandLine unpiped piped
  have there : next.folder = Files.parent job.locator := by
    obtain ⟨counts, files, rfl⟩ := keeps_commandLine command context next (congrArg Prod.snd line)
    exact inside
  have directory_text : context.resolve (Files.parent job.locator) = .ok (rooted directory) := by
    rw [placed.parent]
    rfl
  have pid_text : context.resolve (pidPath job.locator) =
      .ok (rooted (directory ++ [name ++ (str "." ++ str "pid")])) := by
    rw [pidPath, placed.withExtension]
    rfl
  have printed : Prints ((scriptBuilder command url job.locator).output job.locator job) context _ next :=
    .cons (.write _ context)
    (.cons (.write _ context)
    (.cons (.write _ context)
    (.cons (.andThen (.write _ context) (.cons (prints_resolved placed _ _ (str "lock")) (.nil context)))
    (.cons (.write _ context)
    (.cons (prints_resolved placed _ _ (str "lock.start"))
    (.cons (prints_resolved placed _ _ (str "lock.start"))
    (.cons (.write _ context)
    (.cons (prints_quotedAbsolute pid_text _ _)
    (.cons (.andThen (.nil context) (.write _ context))
    (.cons (prints_quotedAbsolute directory_text _ _)
    (.cons (.write _ context)
    (.cons (prints_cleanup placed inside unpiped texts)
    (.cons (.write _ context)
    (.cons (.write _ context)
    (.cons (.write _ context)
    (.cons line
    (.cons (.write _ next)
    (.cons (prints_quotedRelative placed there _ _ (str "code"))
    (.cons (.write _ next)
    (.cons (prints_quotedRelative placed there _ _ (str "code"))
    (.cons (prints_quotedRelative placed there _ _ (str "done"))
    (.nil next))))))))))))))))))))))
  convert printed using 1
  have slashed : protectQuoted (str "/") = str "/" := rfl
  by_cases silent : url = [] <;>
    simp [ScriptJob.data, scriptBuilder, silent, statementText, Simple.text, Word.text, ExitStatus.text, Line.text,
      ScriptData.lines, ScriptData.trapped, ScriptData.exported, ScriptData.exportLine, ScriptData.absolute,
      ScriptData.beside, scriptHead, quoted_text, protectQuoted_append, slashed, plain, str_append, str_append_append]

end

end Experimaestro.Commands

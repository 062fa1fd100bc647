/-
Module: Experimaestro.Commands.Redirections
Layer: Commands
Purpose: What a command line writes into a script. For each command there are its named pipes, the file of its input
  redirection, its components, and its output redirections; where the input is a file, the path is taken from
  the command line instead of the command. Each command has its own text as long as the two paths resolve to
  the same text.
Imports: Experimaestro.Commands.Contexts, Experimaestro.Commands.Quoting, Experimaestro.Commands.Variables,
  Experimaestro.Files.RelativePaths
Trusted boundary: human-reviewed model of AbstractCommand::output, Command::output, the output methods of the
  components, CommandContext::writeRedirection, printRedirections, transform and Connector::resolve
Main exports: Stop, Output, Component, Redirect, Command, CommandLine, commandText, CommandLine.output, OwnTexts,
  InputAgrees, own_redirections, bodies_same
Open obligations: none
-/
import Mathlib.Tactic.Common
import Experimaestro.Commands.Contexts
import Experimaestro.Commands.Quoting
import Experimaestro.Commands.Variables
import Experimaestro.Files.RelativePaths

namespace Experimaestro.Commands

open Experimaestro.Configuration (Str str Error digitsText)

/-! ### Output functions -/

/-- Why an output function does not return. -/
inductive Stop where
  | thrown (error : Error)
  /-- `Path::relativeTo` reads behind the end of a text. -/
  | outOfBounds
  /-- `Workspace::find` does not end. -/
  | endless
deriving DecidableEq

/-- An output function: the text that it writes into the stream, and the context that it leaves. -/
abbrev Output (Part : Type) := CommandContext Part → Str × Except Stop (CommandContext Part)

namespace Output

variable {Part : Type}

/-- `out << text`. -/
def write (text : Str) : Output Part := fun context => (text, .ok context)

/-- `out << f(context)`, for a function that may throw. -/
def writeResult (result : CommandContext Part → Except Stop Str) : Output Part := fun context =>
  match result context with
  | .ok text => (text, .ok context)
  | .error stop => ([], .error stop)

/-- One after the other; what has been written remains when the first one throws. -/
def andThen (first second : Output Part) : Output Part := fun context =>
  match first context with
  | (text, .ok next) => (text ++ (second next).1, (second next).2)
  | (text, .error stop) => (text, .error stop)

/-- A loop. -/
def each : List (Output Part) → Output Part
  | [] => write []
  | first :: rest => first.andThen (each rest)

end Output

namespace CommandContext

variable {Part : Type} (context : CommandContext Part)

/-- `Connector::resolve`. -/
def resolve (path : Configuration.Path) : Except Stop Str := (context.connector.resolve path).mapError .thrown

/-- `Connector::resolve` with the working directory as the base. -/
def resolveInWorkingDirectory (path : Configuration.Path) : Except Stop Str :=
  match context.resolve path, context.resolve context.getWorkingDirectory with
  | .error stop, _ => .error stop
  | .ok _, .error stop => .error stop
  | .ok resolved, .ok base =>
      match Files.relativeTo ⟨[], resolved⟩ ⟨[], base⟩ with
      | .ok relative => .ok (Files.toText relative)
      | .error (.argumentError message) => .error (.thrown (.argumentError message))
      | .error .outOfBounds => .error .outOfBounds

/-- `Workspace::get`. The loop of `find` has gone around when it has made more rounds than there are dots. -/
def getVariable (key : Str) : Except Stop Str :=
  match find context.workspace (key.length + 2) key with
  | none => .error .endless
  | some none => .ok []
  | some (some (_, value)) => .ok value

/-- `Workspace::has`. -/
def hasVariable (key : Str) : Except Stop Bool :=
  match find context.workspace (key.length + 2) key with
  | none => .error .endless
  | some found => .ok found.isSome

end CommandContext

/-! ### Components -/

/-- What a match of the expression has behind its two braces: the text before the next two closing braces, without an
end of line, and the rest. -/
def matchBody : Str → Option (Str × Str)
  | [] => none
  | [_] => none
  | c :: d :: rest =>
      if c = 125 ∧ d = 125 then some ([], rest)
      else if c = 10 ∨ c = 13 then none
      else (matchBody (d :: rest)).map fun (body, after) => (c :: body, after)

/-- A match of the expression at the beginning of a text: the name between the braces, and the rest. -/
def matchVariable : Str → Option (Str × Str)
  | 123 :: 123 :: rest =>
      match matchBody rest with
      | some (c :: body, after) => some (c :: body, after)
      | _ => none
  | _ => none

/-- `transform`, for a text of at most `n` bytes. -/
def transformIn (get : Str → Except Stop Str) : ℕ → Str → Except Stop Str
  | 0, text => .ok text
  | _ + 1, [] => .ok []
  | n + 1, c :: rest =>
      match matchVariable (c :: rest) with
      | some (name, after) =>
          match get name with
          | .ok value => (transformIn get n after).map (value ++ ·)
          | .error stop => .error stop
      | none => (transformIn get n rest).map (c :: ·)

/-- `transform`. -/
def transform (get : Str → Except Stop Str) (text : Str) : Except Stop Str := transformIn get text.length text

/-- `AbstractCommandComponent`, with paths of any share. -/
inductive Component where
  | string (value : Str)
  | content (key content : Str)
  | parameters
  | path (path : Configuration.Path)
  | pathref (key : Str)

variable {Part : Type}

/-- An auxiliary file is written, and its path resolved. -/
def writeAuxiliaryFile (start suffix : Str) (content : CommandContext Part → Except Error Str) : Output Part :=
  fun context =>
    let (path, context) := context.getAuxiliaryFile start suffix
    match context.opens path, content context with
    | .error e, _ => ([], .error (.thrown e))
    | .ok _, .error e => ([], .error (.thrown e))
    | .ok _, .ok text =>
        Output.writeResult (fun context => context.resolve path) { context with files := (path, text) :: context.files }

/-- `output` of the components. -/
def Component.output : Component → Output Part
  | .string value => Output.writeResult fun context => transform context.getVariable value
  | .content key text => writeAuxiliaryFile key (str ".input") fun _ => .ok text
  | .parameters => writeAuxiliaryFile (str "params") (str ".json") fun context => context.parameters
  | .path file => Output.writeResult fun context => context.resolve file
  | .pathref key =>
      Output.writeResult fun context =>
        match context.hasVariable key with
        | .error stop => .error stop
        | .ok false => .error (.thrown (.exception (str "Context has no variable named [" ++ key ++ str "]")))
        | .ok true => context.getVariable key

/-! ### Redirections -/

/-- `Redirection`. -/
inductive Redirection where
  | inherit
  | file
  | pipe
  | none
deriving DecidableEq, Repr

/-- `Redirect`; the function of a pipe is not called when commands are written. -/
structure Redirect where
  type : Redirection := .inherit
  path : Str := []
deriving DecidableEq, Repr

/-- `Redirect::file`. -/
def Redirect.ofFile (path : Str) : Redirect := { type := .file, path := path }

/-- A text in double quotes, protected: the resolved path. -/
def writeResolved (path : Configuration.Path) : Output Part :=
  Output.writeResult fun context => (context.resolveInWorkingDirectory path).map protectQuoted

/-- `CommandContext::writeRedirection`. -/
def writeRedirection (redirect : Redirect) (stream : ℕ) : Output Part :=
  match redirect.type with
  | .inherit => Output.write []
  | .file =>
      (Output.write (str " " ++ digitsText stream ++ str "> ")).andThen (writeResolved ⟨[], redirect.path⟩)
  | .pipe | .none =>
      Output.writeResult fun _ => .error (.thrown (.exception (str "Unsupported output redirection type")))

/-- `CommandContext::printRedirections`. -/
def printRedirections (stream : ℕ) (outputRedirect : Redirect) (outputRedirects : List Configuration.Path) :
    Output Part :=
  match outputRedirects with
  | [] => writeRedirection outputRedirect stream
  | first :: others =>
      if others = [] ∧ outputRedirect.type = .inherit then writeRedirection (.ofFile (Files.toText first)) stream
      else
        (Output.write (str " : " ++ digitsText stream ++ str "> >(tee")).andThen
          ((Output.each ((first :: others).map fun file =>
              (Output.write (str " \"")).andThen ((writeResolved file).andThen (Output.write (str "\""))))).andThen
            ((writeRedirection outputRedirect stream).andThen (Output.write (str ")"))))

/-! ### Commands -/

/-- `Command`. -/
structure Command (Part : Type) where
  /-- The object, under which the context has the named pipes. -/
  part : Part
  components : List Component
  inputRedirect : Redirect := {}
  outputRedirect : Redirect := {}
  errorRedirect : Redirect := {}

/-- `CommandLine`. -/
structure CommandLine (Part : Type) where
  commands : List (Command Part)
  inputRedirect : Redirect := {}
  outputRedirect : Redirect := {}
  errorRedirect : Redirect := {}

/-- The components behind the first one. -/
def spaced (components : List Component) : List (Output Part) :=
  components.map fun component => (Output.write (str " ")).andThen component.output

/-- `Command::output`. -/
def Command.output (command : Command Part) : Output Part :=
  match command.components with
  | [] => Output.write []
  | first :: rest => first.output.andThen (Output.each (spaced rest))

/-- The named pipes of a command. -/
def namedPipes (command : Command Part) : Output Part := fun context =>
  let redirections := context.getNamedRedirections command.part
  Output.each ((redirections.outputRedirections ++ redirections.errorRedirections).map fun file =>
    (Output.write (str " mkfifo \"")).andThen ((writeResolved file).andThen (Output.write (str "\"\n")))) context

/-- What a command is preceded by when its input is a file. -/
def inputFile (path : Str) : Output Part :=
  (Output.write (str " cat \"")).andThen ((writeResolved ⟨[], path⟩).andThen (Output.write (str "\" | ")))

/-- The command and what follows it. -/
def commandAndOutput (command : Command Part) : Output Part := fun context =>
  let redirections := context.getNamedRedirections command.part
  (command.output.andThen
    ((printRedirections 1 command.outputRedirect redirections.outputRedirections).andThen
      ((printRedirections 2 command.errorRedirect redirections.errorRedirections).andThen
        (Output.write (str " || checkerror \"$\x7bPIPESTATUS[@]\x7d\"  || exit $?\n"))))) context

/-- The body of the loop of `AbstractCommand::output`, where the input is read from a path. -/
def commandText (path : Str) (command : Command Part) : Output Part :=
  (namedPipes command).andThen
    ((if command.inputRedirect.type = .file then inputFile path else Output.write []).andThen
      (commandAndOutput command))

/-- The loop: the path is the one of the command line. -/
def CommandLine.bodies (line : CommandLine Part) (commands : List (Command Part)) : Output Part :=
  Output.each (commands.map (commandText line.inputRedirect.path))

/-- `AbstractCommand::output` of a command line. -/
def CommandLine.output (line : CommandLine Part) : Output Part :=
  let several := 1 < line.commands.length
  (Output.write (if several then str "(\n" else [])).andThen
    ((line.bodies line.commands).andThen (Output.write (if several then str ")\n" else [])))

/-! ### What an output function leaves alone -/

namespace Output

/-- Of the context, only the counts and the files change. -/
def Keeps (output : Output Part) : Prop :=
  ∀ context next, (output context).2 = .ok next →
    ∃ counts files, next = { context with counts := counts, files := files }

/-- The context does not change at all. -/
def Reads (output : Output Part) : Prop := ∀ context next, (output context).2 = .ok next → next = context

theorem Reads.keeps {output : Output Part} (reads : output.Reads) : output.Keeps := by
  intro context next left
  exact ⟨context.counts, context.files, reads context next left⟩

theorem reads_write (text : Str) : (write text : Output Part).Reads := by
  intro context next left
  exact (Except.ok.inj left).symm

theorem reads_writeResult (result : CommandContext Part → Except Stop Str) : (writeResult result).Reads := by
  intro context next left
  unfold writeResult at left
  split at left
  · exact (Except.ok.inj left).symm
  · cases left

/-- The text of two output functions, one after the other. -/
theorem andThen_ok {first second : Output Part} {context next : CommandContext Part}
    (left : (first context).2 = .ok next) :
    first.andThen second context = ((first context).1 ++ (second next).1, (second next).2) := by
  unfold andThen
  split
  case h_1 text next' written =>
      rw [written] at left ⊢
      cases left
      rfl
  case h_2 text stop written =>
      rw [written] at left
      cases left

theorem andThen_error {first second : Output Part} {context : CommandContext Part} {stop : Stop}
    (left : (first context).2 = .error stop) : first.andThen second context = ((first context).1, .error stop) := by
  unfold andThen
  split
  case h_1 text next' written =>
      rw [written] at left
      cases left
  case h_2 text stop' written =>
      rw [written] at left ⊢
      cases left
      rfl

/-- The second one leaves what the whole leaves. -/
theorem andThen_left {first second : Output Part} {context next : CommandContext Part}
    (left : (first.andThen second context).2 = .ok next) :
    ∃ between, (first context).2 = .ok between ∧ (second between).2 = .ok next := by
  cases here : (first context).2 with
  | ok between =>
      rw [andThen_ok here] at left
      exact ⟨between, rfl, left⟩
  | error stop =>
      rw [andThen_error here] at left
      cases left

theorem Keeps.andThen {first second : Output Part} (one : first.Keeps) (two : second.Keeps) :
    (first.andThen second).Keeps := by
  intro context next left
  obtain ⟨between, here, later⟩ := andThen_left left
  obtain ⟨counts, files, rfl⟩ := one context between here
  obtain ⟨counts', files', rfl⟩ := two _ next later
  exact ⟨counts', files', rfl⟩

theorem Reads.andThen {first second : Output Part} (one : first.Reads) (two : second.Reads) :
    (first.andThen second).Reads := by
  intro context next left
  obtain ⟨between, here, later⟩ := andThen_left left
  rw [two between next later, one context between here]

theorem keeps_each {outputs : List (Output Part)} (all : ∀ output ∈ outputs, output.Keeps) : (each outputs).Keeps := by
  induction outputs with
  | nil => exact (reads_write []).keeps
  | cons first rest ih =>
      obtain ⟨here, others⟩ := List.forall_mem_cons.mp all
      exact here.andThen (ih others)

theorem reads_each {outputs : List (Output Part)} (all : ∀ output ∈ outputs, output.Reads) : (each outputs).Reads := by
  induction outputs with
  | nil => exact reads_write []
  | cons first rest ih =>
      obtain ⟨here, others⟩ := List.forall_mem_cons.mp all
      exact here.andThen (ih others)

end Output

open Output (Keeps reads_write reads_writeResult andThen_ok andThen_error andThen_left keeps_each reads_each)

theorem keeps_component (component : Component) : (component.output : Output Part).Keeps := by
  have file (start suffix : Str) (content : CommandContext Part → Except Error Str) :
      (writeAuxiliaryFile start suffix content).Keeps := by
    intro context next left
    unfold writeAuxiliaryFile at left
    dsimp only at left
    split at left
    · cases left
    · cases left
    · exact ⟨_, _, reads_writeResult _ _ _ left⟩
  cases component with
  | string value => exact (reads_writeResult _).keeps
  | content key text => exact file _ _ _
  | parameters => exact file _ _ _
  | path path => exact (reads_writeResult _).keeps
  | pathref key => exact (reads_writeResult _).keeps

theorem reads_writeRedirection (redirect : Redirect) (stream : ℕ) :
    (writeRedirection redirect stream : Output Part).Reads := by
  unfold writeRedirection
  split
  · exact reads_write []
  · exact (reads_write _).andThen (reads_writeResult _)
  · exact reads_writeResult _
  · exact reads_writeResult _

theorem reads_printRedirections (stream : ℕ) (redirect : Redirect) (files : List Configuration.Path) :
    (printRedirections stream redirect files : Output Part).Reads := by
  unfold printRedirections
  split
  · exact reads_writeRedirection redirect stream
  · split
    · exact reads_writeRedirection _ stream
    · apply (reads_write _).andThen
      apply Output.Reads.andThen
      · apply reads_each
        intro output member
        obtain ⟨file, _, rfl⟩ := List.mem_map.mp member
        exact (reads_write _).andThen ((reads_writeResult _).andThen (reads_write _))
      · exact (reads_writeRedirection redirect stream).andThen (reads_write _)

theorem reads_namedPipes (command : Command Part) : (namedPipes command).Reads := by
  intro context
  apply reads_each
  intro output member
  obtain ⟨file, _, rfl⟩ := List.mem_map.mp member
  exact (reads_write _).andThen ((reads_writeResult _).andThen (reads_write _))

theorem reads_inputFile (path : Str) : (inputFile path : Output Part).Reads :=
  (reads_write _).andThen ((reads_writeResult _).andThen (reads_write _))

theorem keeps_commandAndOutput (command : Command Part) : (commandAndOutput command).Keeps := by
  have own : command.output.Keeps := by
    unfold Command.output
    split
    · exact (reads_write []).keeps
    · apply (keeps_component _).andThen
      apply keeps_each
      intro output member
      obtain ⟨component, _, rfl⟩ := List.mem_map.mp member
      exact (reads_write _).keeps.andThen (keeps_component component)
  intro context
  apply own.andThen
  apply Keeps.andThen (reads_printRedirections 1 _ _).keeps
  exact (reads_printRedirections 2 _ _).keeps.andThen (reads_write _).keeps

theorem keeps_commandText (path : Str) (command : Command Part) : (commandText path command).Keeps := by
  apply (reads_namedPipes command).keeps.andThen
  apply Keeps.andThen _ (keeps_commandAndOutput command)
  split
  · exact (reads_inputFile path).keeps
  · exact (reads_write []).keeps

/-! ### Paths in quotes -/

/-- A resolved path between two texts. -/
theorem around_resolved (before after : Str) (path : Configuration.Path) (context : CommandContext Part) :
    ((Output.write before).andThen ((writeResolved path).andThen (Output.write after))) context =
      match context.resolveInWorkingDirectory path with
      | .ok text => (before ++ (protectQuoted text ++ after), .ok context)
      | .error stop => (before, .error stop) := by
  have start : ((Output.write before : Output Part) context).2 = .ok context := rfl
  rw [andThen_ok start]
  cases resolved : context.resolveInWorkingDirectory path with
  | ok text =>
      have written : writeResolved path context = (protectQuoted text, .ok context) := by
        rw [writeResolved, Output.writeResult, resolved]
        rfl
      rw [andThen_ok (congrArg Prod.snd written), written]
      rfl
  | error stop =>
      have written : writeResolved path context = ([], .error stop) := by
        rw [writeResolved, Output.writeResult, resolved]
        rfl
      rw [andThen_error (congrArg Prod.snd written), written]
      exact Prod.ext (List.append_nil before) rfl

/-- The named pipes of a command have resolved paths. -/
def PipesResolve (context : CommandContext Part) (command : Command Part) : Prop :=
  let redirections := context.getNamedRedirections command.part
  ∀ file ∈ redirections.outputRedirections ++ redirections.errorRedirections,
    ∃ text, context.resolveInWorkingDirectory file = .ok text

/-- The named pipes are made, or an exception is thrown. -/
theorem namedPipes_ok_iff (context : CommandContext Part) (command : Command Part) :
    (∃ next, (namedPipes command context).2 = .ok next) ↔ PipesResolve context command := by
  unfold namedPipes PipesResolve
  dsimp only
  generalize (context.getNamedRedirections command.part).outputRedirections ++
    (context.getNamedRedirections command.part).errorRedirections = files
  induction files with
  | nil => exact iff_of_true ⟨context, rfl⟩ nofun
  | cons file rest ih =>
      rw [List.forall_mem_cons, ← ih, List.map_cons, Output.each]
      have here := around_resolved (str " mkfifo \"") (str "\"\n") file context
      cases resolved : context.resolveInWorkingDirectory file with
      | ok text =>
          rw [resolved] at here
          rw [andThen_ok (congrArg Prod.snd here)]
          exact (and_iff_right ⟨text, rfl⟩).symm
      | error stop =>
          rw [resolved] at here
          rw [andThen_error (congrArg Prod.snd here)]
          exact iff_of_false (fun left => nomatch left) fun both => nomatch both.1

/-! ### The text of a command -/

/-- The input of a command is not a file, or its named pipes cannot be made, or the path resolves to the same text as
the one of the command. -/
def InputAgrees (context : CommandContext Part) (path : Str) (command : Command Part) : Prop :=
  command.inputRedirect.type = .file → PipesResolve context command →
    (context.resolveInWorkingDirectory ⟨[], path⟩).toOption =
      (context.resolveInWorkingDirectory ⟨[], command.inputRedirect.path⟩).toOption

/-- The text of the input: behind the resolved path comes what closes the quotes. -/
theorem inputFile_text (path : Str) (context : CommandContext Part) :
    (inputFile path context).1 = str " cat \"" ++
      (context.resolveInWorkingDirectory ⟨[], path⟩).toOption.elim [] fun text =>
        protectQuoted text ++ str "\" | " := by
  have here : inputFile path context = _ := around_resolved (str " cat \"") (str "\" | ") ⟨[], path⟩ context
  rw [here]
  cases context.resolveInWorkingDirectory ⟨[], path⟩ with
  | ok text => rfl
  | error stop => exact (List.append_nil _).symm

theorem inputFile_left (path : Str) (context : CommandContext Part) :
    (inputFile path context).2 = (context.resolveInWorkingDirectory ⟨[], path⟩).map fun _ => context := by
  have here : inputFile path context = _ := around_resolved (str " cat \"") (str "\" | ") ⟨[], path⟩ context
  rw [here]
  cases context.resolveInWorkingDirectory ⟨[], path⟩ with
  | ok text => rfl
  | error stop => rfl

/-- The resolved path can be read back from the text, whatever follows the input. -/
theorem resolved_of_text {path own : Str} {rest : Output Part} {context : CommandContext Part}
    (same : ((inputFile path).andThen rest context).1 = ((inputFile own).andThen rest context).1) :
    (context.resolveInWorkingDirectory ⟨[], path⟩).toOption =
      (context.resolveInWorkingDirectory ⟨[], own⟩).toOption := by
  have whole (path : Str) : ((inputFile path).andThen rest context).1 = str " cat \"" ++
      (context.resolveInWorkingDirectory ⟨[], path⟩).toOption.elim [] fun text =>
        protectQuoted text ++ (str "\" | " ++ (rest context).1) := by
    have text := inputFile_text path context
    have left := inputFile_left path context
    cases resolved : context.resolveInWorkingDirectory ⟨[], path⟩ with
    | ok written =>
        rw [resolved] at text left
        rw [andThen_ok left, text, List.append_assoc]
        exact congrArg (str " cat \"" ++ ·) (List.append_assoc _ _ _)
    | error stop =>
        rw [resolved] at text left
        rw [andThen_error left, text]
        rfl
  rw [whole, whole, List.append_cancel_left_eq] at same
  cases one : (context.resolveInWorkingDirectory ⟨[], path⟩).toOption with
  | none =>
      cases two : (context.resolveInWorkingDirectory ⟨[], own⟩).toOption with
      | none => rfl
      | some text' => simp [one, two, str] at same
  | some text =>
      cases two : (context.resolveInWorkingDirectory ⟨[], own⟩).toOption with
      | none => simp [one, two, str] at same
      | some text' =>
          rw [one, two, Option.elim_some, Option.elim_some, List.append_cancel_right_eq] at same
          rw [protectQuoted_injective same]

/-! ### Equal outputs -/

/-- The same text, and the same context unless both stop. -/
def SameOutput (written written' : Str × Except Stop (CommandContext Part)) : Prop :=
  written.1 = written'.1 ∧ written.2.toOption = written'.2.toOption

theorem SameOutput.andThen {first first' second second' : Output Part} {context : CommandContext Part}
    (same : SameOutput (first context) (first' context))
    (later : ∀ next, (first context).2 = .ok next → SameOutput (second next) (second' next)) :
    SameOutput (first.andThen second context) (first'.andThen second' context) := by
  obtain ⟨texts, contexts⟩ := same
  cases left : (first context).2 with
  | error stop =>
      cases left' : (first' context).2 with
      | error stop' =>
          rw [andThen_error left, andThen_error left']
          exact ⟨texts, rfl⟩
      | ok next' =>
          rw [left, left'] at contexts
          exact nomatch contexts
  | ok next =>
      cases left' : (first' context).2 with
      | error stop' =>
          rw [left, left'] at contexts
          exact nomatch contexts
      | ok next' =>
          rw [left, left'] at contexts
          cases contexts
          obtain ⟨rest, ends⟩ := later next left
          rw [andThen_ok left, andThen_ok left']
          exact ⟨by rw [texts, rest], ends⟩

/-- The input is the same where the path resolves to the same text. -/
theorem inputFile_same {context : CommandContext Part} {path own : Str}
    (paths : (context.resolveInWorkingDirectory ⟨[], path⟩).toOption =
      (context.resolveInWorkingDirectory ⟨[], own⟩).toOption) :
    SameOutput (inputFile path context) (inputFile own context) := by
  have left (path : Str) : (inputFile path context).2.toOption =
      (context.resolveInWorkingDirectory ⟨[], path⟩).toOption.map fun _ => context := by
    rw [inputFile_left]
    cases context.resolveInWorkingDirectory ⟨[], path⟩ with
    | ok text => rfl
    | error stop => rfl
  constructor
  · rw [inputFile_text, inputFile_text, paths]
  · rw [left, left, paths]

theorem commandText_same {context : CommandContext Part} {path : Str} {command : Command Part}
    (agrees : InputAgrees context path command) :
    SameOutput (commandText path command context) (commandText command.inputRedirect.path command context) := by
  apply SameOutput.andThen ⟨rfl, rfl⟩
  intro next made
  rw [reads_namedPipes command context next made]
  apply SameOutput.andThen _ fun _ _ => ⟨rfl, rfl⟩
  by_cases file : command.inputRedirect.type = .file
  · rw [if_pos file, if_pos file]
    exact inputFile_same (agrees file ((namedPipes_ok_iff context command).mp ⟨next, made⟩))
  · rw [if_neg file, if_neg file]
    exact ⟨rfl, rfl⟩

/-- The loop writes the command's own text exactly if the input agrees. -/
theorem commandText_iff (path : Str) (command : Command Part) (context : CommandContext Part) :
    (commandText path command context).1 = (commandText command.inputRedirect.path command context).1 ↔
      InputAgrees context path command := by
  constructor
  · intro same file resolve
    obtain ⟨next, made⟩ := (namedPipes_ok_iff context command).mpr resolve
    rw [commandText, commandText, andThen_ok made, andThen_ok made, List.append_cancel_left_eq,
      reads_namedPipes command context next made, if_pos file, if_pos file] at same
    exact resolved_of_text same
  · exact fun agrees => (commandText_same agrees).1

/-! ### Command lines -/

/-- The loop has come to the command, with some context. -/
def Reaches (line : CommandLine Part) (context : CommandContext Part) (before : List (Command Part))
    (next : CommandContext Part) : Prop := (line.bodies before context).2 = .ok next

/-- The text of each command is made of its own components and redirections, and of the context. -/
def OwnTexts (line : CommandLine Part) (context : CommandContext Part) : Prop :=
  ∀ before command after, line.commands = before ++ command :: after →
    ∀ next, Reaches line context before next →
      (commandText line.inputRedirect.path command next).1 =
        (commandText command.inputRedirect.path command next).1

/-- The condition reads only what the commands leave as it is. -/
theorem inputAgrees_of_reaches {line : CommandLine Part} {context next : CommandContext Part}
    {before : List (Command Part)} (reached : Reaches line context before next) (path : Str) (command : Command Part) :
    InputAgrees next path command ↔ InputAgrees context path command := by
  have keeps : (line.bodies before).Keeps := by
    apply keeps_each
    intro output member
    obtain ⟨other, _, rfl⟩ := List.mem_map.mp member
    exact keeps_commandText _ other
  obtain ⟨counts, files, rfl⟩ := keeps context next reached
  rfl

/-- Each command has its own text exactly if, for each command that the loop comes to, the input agrees with the one of
the command line. -/
theorem own_redirections (line : CommandLine Part) (context : CommandContext Part) :
    OwnTexts line context ↔
      ∀ before command after, line.commands = before ++ command :: after →
        (∃ next, Reaches line context before next) → InputAgrees context line.inputRedirect.path command := by
  unfold OwnTexts
  constructor
  · rintro own before command after split ⟨next, reached⟩
    rw [← inputAgrees_of_reaches reached]
    exact (commandText_iff _ command next).mp (own before command after split next reached)
  · intro agrees before command after split next reached
    rw [commandText_iff, inputAgrees_of_reaches reached]
    exact agrees before command after split ⟨next, reached⟩

/-! ### The text of the whole line -/

/-- The loop as it should be: each command has its own input. -/
def ownBodies (commands : List (Command Part)) : Output Part :=
  Output.each (commands.map fun command => commandText command.inputRedirect.path command)

theorem each_snoc (outputs : List (Output Part)) (last : Output Part) {context between next : CommandContext Part}
    (left : (Output.each outputs context).2 = .ok between) (ends : (last between).2 = .ok next) :
    (Output.each (outputs ++ [last]) context).2 = .ok next := by
  induction outputs generalizing context with
  | nil =>
      cases left
      rw [List.nil_append, Output.each, andThen_ok ends]
      rfl
  | cons first rest ih =>
      rw [List.cons_append, Output.each]
      rw [Output.each] at left
      obtain ⟨middle, here, later⟩ := andThen_left left
      rw [andThen_ok here]
      exact ih later

/-- Where the inputs agree, the loop writes the texts that the commands have on their own. -/
theorem bodies_same {line : CommandLine Part} {context : CommandContext Part}
    (agrees : ∀ before command after, line.commands = before ++ command :: after →
      (∃ next, Reaches line context before next) → InputAgrees context line.inputRedirect.path command) :
    SameOutput (line.bodies line.commands context) (ownBodies line.commands context) := by
  have run (after : List (Command Part)) : ∀ before next, line.commands = before ++ after →
      Reaches line context before next → SameOutput (line.bodies after next) (ownBodies after next) := by
    induction after with
    | nil => exact fun _ _ _ _ => ⟨rfl, rfl⟩
    | cons command rest ih =>
        intro before next split reached
        apply SameOutput.andThen
        · apply commandText_same
          rw [inputAgrees_of_reaches reached]
          exact agrees before command rest split ⟨next, reached⟩
        · intro next' left
          apply ih (before ++ [command]) next'
          · rw [split, List.append_assoc, List.singleton_append]
          · unfold Reaches CommandLine.bodies
            rw [List.map_append]
            exact each_snoc _ _ reached left
  exact run line.commands [] context rfl rfl

/-- The job of the sample. -/
def sampleContext : CommandContext Unit :=
  CommandContext.new [] ⟨[]⟩ (fun _ => .ok ()) ⟨[], str "/work/job"⟩ (str "job") (.ok []) fun _ => none

/-- The input file of a command, in a command line without redirections: the empty path is resolved instead. -/
theorem foreign_redirection :
    ¬∀ (line : CommandLine Unit) (context : CommandContext Unit), OwnTexts line context := by
  intro always
  let sort : Command Unit :=
    { part := (), components := [.string (str "sort")], inputRedirect := .ofFile (str "/data/numbers") }
  have own := always { commands := [sort] } sampleContext [] sort [] rfl sampleContext rfl
  revert own
  decide

end Experimaestro.Commands

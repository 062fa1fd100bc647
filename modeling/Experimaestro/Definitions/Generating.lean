/-
Module: Experimaestro.Definitions.Generating
Layer: Definitions
Purpose: `Register::generate`, which prints the types that are not predefined and the tasks. Each definition is
  dumped as a document of its own; the braces and the names around them are printed as they are. The text is
  parsed as one document where no name needs an escape.
Imports: Experimaestro.Definitions.StoredValues
Trusted boundary: human-reviewed model of Register::generate, Type::toJson, Task::toJson, CommandLine::toJson,
  Command::toJson with its components, and PathGenerator::toJson
Main exports: argumentJson, typeJson, taskJson, definitions, generate, document, generate_parses
Open obligations: names that need an escape
-/
import Experimaestro.Definitions.StoredValues

namespace Experimaestro.Definitions

open Experimaestro.Configuration (Error Json MemberText NumberFormat Ordered Parses PlainText SpacedMember Str Value
  White bind_eq_ok dump dump_parses insert joinTexts lookup lookup_insert ordered_insert parse quoted storeMembers str)

/-! ### Writing -/

/-- `PathGenerator::toJson`. -/
def generatorJson (name : Str) : Json :=
  .object [(str "name", .string name), (str "type", .string (str "path"))]

/-- `toJson` of a component. -/
def CommandComponent.toJson : CommandComponent → Json
  | .string text => .string text
  | .content key text =>
      .object [(str "content", .string text), (str "key", .string key), (str "type", .string (str "content"))]
  | .parameters => .object [(str "type", .string (str "parameters"))]
  | .path text => .object [(str "path", .string text)]
  | .pathref key => .object [(str "pathref", .string key)]

/-- `Command::toJson`. -/
def commandJson (command : List CommandComponent) : Json := .array (command.map CommandComponent.toJson)

/-- `CommandLine::toJson`. A single command is written without the array around it. -/
def commandLineJson : CommandLine → Json
  | [command] => commandJson command
  | commands => .array (commands.map commandJson)

/-- A member that may be left out. -/
def addMember (key : Str) (j : Option Json) (members : List (Str × Json)) : List (Str × Json) :=
  j.elim members fun j => insert key j members

/-- What is written for the entries of a table, one after the other. -/
def membersJson {α : Type} (write : α → Except Error Json) : List (Str × α) → Except Error (List (Str × Json))
  | [] => .ok []
  | (key, a) :: rest => do
      let j ← write a
      let others ← membersJson write rest
      .ok ((key, j) :: others)

/-- A table, which is left out where it is empty. -/
def tableJson (members : List (Str × Json)) : Option Json :=
  if members.isEmpty then none else some (.object (storeMembers [] members))

section

variable (s : Register Stored)

/-- `toJson` of a value that may be null. -/
def pointerJson : Option Stored → Except Error (Option Json)
  | none => .ok none
  | some v => (v.toJson (valueTypes s)).map some

/-- The members of an argument before its type, with what is written for its default and its constant. -/
def argumentMembers (a : Argument Stored) (default constant : Option Json) : List (Str × Json) :=
  let definition := addMember (str "help") (if a.help = [] then none else some (.string a.help)) []
  let definition := addMember (str "required")
    (if a.required = false ∧ a.defaultValue.isNone ∨ a.constant.isSome then some (.boolean false) else none) definition
  let definition := addMember (str "generator") (a.generator.map generatorJson) definition
  let definition := addMember (str "default") default definition
  addMember (str "constant") constant definition

/-- The definition of an argument: the name of its type, alone or as a member. -/
def argumentDefinition (typeName : Str) (members : List (Str × Json)) : Json :=
  if members.isEmpty then .string typeName else .object (insert (str "type") (.string typeName) members)

/-- What `Type::toJson` writes for an argument. -/
def argumentJson (a : Argument Stored) : Except Error Json := do
  let default ← pointerJson s a.defaultValue
  let constant ← pointerJson s a.constant
  .ok (argumentDefinition (s.nameOf a.type) (argumentMembers a default constant))

/-- The members of a type, with what is written for its arguments and properties. -/
def typeMembers (type : TypeObject Stored) (arguments properties : List (Str × Json)) : List (Str × Json) :=
  let response := addMember (str "arguments") (tableJson arguments) []
  let response := addMember (str "properties") (tableJson properties) response
  let response :=
    addMember (str "description") (if type.description = [] then none else some (.string type.description)) response
  addMember (str "parent") (type.parent.map fun p => .string (s.objects p).name) response

/-- `Type::toJson`, before it is dumped. -/
def typeJson (type : TypeObject Stored) : Except Error Json := do
  let arguments ← membersJson (argumentJson s) type.arguments
  let properties ← membersJson (Value.toJson (valueTypes s)) type.properties
  .ok (.object (typeMembers s type arguments properties))

/-- `Task::toJson`. -/
def taskJson (task : Task) : Json :=
  .object [(str "command", commandLineJson task.command), (str "identifier", .string task.identifier),
    (str "type", .string (s.nameOf task.type))]

/-- The types that are not predefined. -/
def definitions : List (Str × TypeObject Stored) :=
  s.types.filterMap fun entry =>
    if (s.objects entry.2).predefined then none else some (entry.1, s.objects entry.2)

/-- The tasks, with what is written for them. -/
def taskEntries : List (Str × Json) := s.tasks.map fun entry => (entry.1, taskJson s entry.2)

end

/-- A line of `generate`. The name is not escaped. -/
def line (name text : Str) : Str := quoted name ++ str ": " ++ text ++ str "\n"

/-- The lines for the entries of a table. -/
def lines (numbers : NumberFormat) : List (Str × Json) → Except Error (List Str)
  | [] => .ok []
  | (name, j) :: rest => do
      let text ← dump numbers j
      let others ← lines numbers rest
      .ok (line name text :: others)

/-- What `generate` prints around the lines. -/
def registerText (types tasks : List Str) : Str :=
  str "\x7b\"types\": \x7b\n" ++ joinTexts (str ",") types ++ str "\x7d, \n\"tasks\": \x7b\n"
    ++ joinTexts (str ",") tasks ++ str "\x7d\n\x7d\n"

/-- `Register::generate`. -/
def generate (numbers : NumberFormat) (s : Register Stored) : Except Error Str := do
  let types ← membersJson (typeJson s) (definitions s)
  let types ← lines numbers types
  let tasks ← lines numbers (taskEntries s)
  .ok (registerText types tasks)

/-! ### The document -/

/-- The document that is printed. -/
def document (types tasks : List (Str × Json)) : Json :=
  .object [(str "tasks", .object (storeMembers [] tasks)), (str "types", .object (storeMembers [] types))]

theorem membersJson_cons {α : Type} {write : α → Except Error Json} {key : Str} {a : α} {rest : List (Str × α)}
    {members : List (Str × Json)} : membersJson write ((key, a) :: rest) = .ok members ↔
      ∃ j others, write a = .ok j ∧ membersJson write rest = .ok others ∧ members = (key, j) :: others := by
  rw [membersJson]
  cases write a with
  | error e => simp [bind, Except.bind]
  | ok j =>
      cases membersJson write rest with
      | error e => simp [bind, Except.bind]
      | ok others => simp [bind, Except.bind, eq_comm]

/-- Each entry is written under its key. -/
theorem membersJson_forall {α : Type} {write : α → Except Error Json} {entries : List (Str × α)}
    {members : List (Str × Json)} (written : membersJson write entries = .ok members) :
    List.Forall₂ (fun entry member => entry.1 = member.1 ∧ write entry.2 = .ok member.2) entries members := by
  induction entries generalizing members with
  | nil =>
      cases written
      exact .nil
  | cons entry rest ih =>
      obtain ⟨j, others, first, tail, rfl⟩ := membersJson_cons.mp written
      exact .cons ⟨rfl, first⟩ (ih tail)

theorem lookup_addMember (key k : Str) (j : Option Json) (members : List (Str × Json)) :
    lookup k (addMember key j members) = if key = k then j.or (lookup k members) else lookup k members := by
  cases j with
  | none => rw [addMember, Option.elim_none, Option.none_or, ite_self]
  | some j => rw [addMember, Option.elim_some, lookup_insert, Option.some_or]

theorem ordered_addMember {key : Str} (j : Option Json) {members : List (Str × Json)} (ordered : Ordered members) :
    Ordered (addMember key j members) := by
  cases j with
  | none => exact ordered
  | some j => exact ordered_insert j ordered

theorem regular_addMember {key : Str} {j : Option Json} {members : List (Str × Json)}
    (regular : Configuration.RegularMembers members) (new : ∀ i, j = some i → Configuration.Regular i) :
    Configuration.RegularMembers (addMember key j members) := by
  cases j with
  | none => exact regular
  | some j => exact regularMembers_insert regular (new j rfl)

theorem isEmpty_addMember (key : Str) (j : Option Json) (members : List (Str × Json)) :
    (addMember key j members).isEmpty = (j.isNone && members.isEmpty) := by
  cases j with
  | none => rfl
  | some j =>
      cases members with
      | nil => rfl
      | cons member rest =>
          obtain ⟨k, v⟩ := member
          rw [addMember, Option.elim_some, Configuration.insert]
          split
          · rfl
          · split <;> rfl

theorem regular_tableJson {members : List (Str × Json)} (regular : ∀ member ∈ members, Configuration.Regular member.2) :
    ∀ j, tableJson members = some j → Configuration.Regular j := by
  have stored (object : List (Str × Json)) (kept : Configuration.RegularMembers object) :
      Configuration.RegularMembers (storeMembers object members) := by
    induction members generalizing object with
    | nil => exact kept
    | cons member rest ih =>
        exact ih (fun member inside => regular member (List.mem_cons_of_mem _ inside)) _
          (regularMembers_insert kept (regular member List.mem_cons_self))
  intro j written
  rw [tableJson] at written
  split at written
  · cases written
  · cases written
    exact ⟨ordered_store members, stored [] trivial⟩

theorem argumentJson_eq_ok {s : Register Stored} {a : Argument Stored} {j : Json} :
    argumentJson s a = .ok j ↔ ∃ default constant, pointerJson s a.defaultValue = .ok default ∧
      pointerJson s a.constant = .ok constant ∧
      argumentDefinition (s.nameOf a.type) (argumentMembers a default constant) = j := by
  simp only [argumentJson, bind_eq_ok, Except.ok.injEq]
  constructor
  · rintro ⟨default, written, constant, written', same⟩
    exact ⟨default, constant, written, written', same⟩
  · rintro ⟨default, constant, written, written', same⟩
    exact ⟨default, written, constant, written', same⟩

theorem typeJson_eq_ok {s : Register Stored} {type : TypeObject Stored} {j : Json} :
    typeJson s type = .ok j ↔ ∃ arguments properties, membersJson (argumentJson s) type.arguments = .ok arguments ∧
      membersJson (Value.toJson (valueTypes s)) type.properties = .ok properties ∧
      .object (typeMembers s type arguments properties) = j := by
  simp only [typeJson, bind_eq_ok, Except.ok.injEq]
  constructor
  · rintro ⟨arguments, written, properties, written', same⟩
    exact ⟨arguments, properties, written, written', same⟩
  · rintro ⟨arguments, properties, written, written', same⟩
    exact ⟨arguments, written, properties, written', same⟩

/-- What is written for an entry. -/
theorem membersJson_mem {α : Type} {write : α → Except Error Json} {entries : List (Str × α)}
    {members : List (Str × Json)} (written : membersJson write entries = .ok members) {member : Str × Json}
    (inside : member ∈ members) : ∃ entry ∈ entries, entry.1 = member.1 ∧ write entry.2 = .ok member.2 := by
  have each := membersJson_forall written
  clear written
  induction each with
  | nil => cases inside
  | cons first _ ih =>
      rcases List.mem_cons.mp inside with rfl | later
      · exact ⟨_, List.mem_cons_self, first⟩
      · obtain ⟨entry, there, same⟩ := ih later
        exact ⟨entry, List.mem_cons_of_mem _ there, same⟩

/-- What is written for a pointer comes from its value. -/
theorem pointerJson_eq_ok {s : Register Stored} {pointer : Option Stored} {written : Option Json}
    (output : pointerJson s pointer = .ok written) :
    Option.Rel (fun v j => v.toJson (valueTypes s) = .ok j) pointer written := by
  cases pointer with
  | none =>
      cases output
      exact .none
  | some v =>
      obtain ⟨j, value, rfl⟩ := Configuration.except_map_eq_ok.mp output
      exact .some value

/-- The values of a type are written as documents without loss. -/
structure RegularValues (s : Register Stored) (type : TypeObject Stored) : Prop where
  arguments : ∀ a ∈ type.arguments, ∀ v, a.2.value = some v → ∀ j, v.toJson (valueTypes s) = .ok j →
    Configuration.Regular j
  properties : ∀ p ∈ type.properties, ∀ j, p.2.toJson (valueTypes s) = .ok j → Configuration.Regular j

theorem regular_argumentJson {s : Register Stored} {a : Argument Stored}
    (values : ∀ v, a.value = some v → ∀ j, v.toJson (valueTypes s) = .ok j → Configuration.Regular j) {j : Json}
    (written : argumentJson s a = .ok j) : Configuration.Regular j := by
  obtain ⟨default, constant, defaulted, fixed, rfl⟩ := argumentJson_eq_ok.mp written
  have default_regular : ∀ i, default = some i → Configuration.Regular i := by
    rintro i rfl
    cases given : a.defaultValue with
    | none =>
        rw [given] at defaulted
        cases pointerJson_eq_ok defaulted
    | some v =>
        rw [given] at defaulted
        cases pointerJson_eq_ok defaulted with
        | some value =>
            apply values v _ i value
            rw [Argument.defaultValue] at given
            split at given
            · cases given
            · exact given
  have constant_regular : ∀ i, constant = some i → Configuration.Regular i := by
    rintro i rfl
    cases given : a.constant with
    | none =>
        rw [given] at fixed
        cases pointerJson_eq_ok fixed
    | some v =>
        rw [given] at fixed
        cases pointerJson_eq_ok fixed with
        | some value =>
            apply values v _ i value
            rw [Argument.constant] at given
            split at given
            · exact given
            · cases given
  rw [argumentDefinition]
  split
  · trivial
  · have text : Configuration.Regular (.string (s.nameOf a.type)) := trivial
    have nothing : Configuration.RegularMembers [] := trivial
    refine ⟨?_, ?_⟩
    · exact ordered_insert _ (ordered_addMember _ (ordered_addMember _ (ordered_addMember _ (ordered_addMember _
        (ordered_addMember _ List.Pairwise.nil)))))
    · apply regularMembers_insert _ text
      apply regular_addMember _ constant_regular
      apply regular_addMember _ default_regular
      apply regular_addMember
      · apply regular_addMember
        · apply regular_addMember nothing
          intro i same
          split at same
          · cases same
          · cases same
            trivial
        · intro i same
          split at same
          · cases same
            trivial
          · cases same
      · intro i same
        obtain ⟨name, _, rfl⟩ := Option.map_eq_some_iff.mp same
        have ordered : Configuration.keyLess (str "name") (str "type") = true := by decide
        exact ⟨by simpa [Ordered] using ordered, trivial, trivial, trivial⟩

/-- The definition of a type is written without loss if its values are. -/
theorem regular_typeJson {s : Register Stored} {type : TypeObject Stored} (values : RegularValues s type) {j : Json}
    (written : typeJson s type = .ok j) : Configuration.Regular j := by
  obtain ⟨arguments, properties, arguments_written, properties_written, rfl⟩ := typeJson_eq_ok.mp written
  have arguments_regular : ∀ member ∈ arguments, Configuration.Regular member.2 := by
    intro member inside
    obtain ⟨entry, there, _, output⟩ := membersJson_mem arguments_written inside
    exact regular_argumentJson (values.arguments entry there) output
  have properties_regular : ∀ member ∈ properties, Configuration.Regular member.2 := by
    intro member inside
    obtain ⟨entry, there, _, output⟩ := membersJson_mem properties_written inside
    exact values.properties entry there member.2 output
  have nothing : Configuration.RegularMembers [] := trivial
  refine ⟨?_, ?_⟩
  · exact ordered_addMember _ (ordered_addMember _ (ordered_addMember _ (ordered_addMember _ List.Pairwise.nil)))
  · apply regular_addMember
    · apply regular_addMember
      · apply regular_addMember
        · exact regular_addMember nothing (regular_tableJson arguments_regular)
        · exact regular_tableJson properties_regular
      · intro i same
        split at same
        · cases same
        · cases same
          trivial
    · intro i same
      obtain ⟨p, _, rfl⟩ := Option.map_eq_some_iff.mp same
      trivial

theorem regular_commandLineJson (command : CommandLine) : Configuration.Regular (commandLineJson command) := by
  have component_regular (component : CommandComponent) : Configuration.Regular component.toJson := by
    cases component with
    | string text => trivial
    | content key text =>
        have ordered : Ordered [(str "content", Json.string text), (str "key", .string key),
            (str "type", .string (str "content"))] := by
          simp [Ordered, show Configuration.keyLess (str "content") (str "key") = true by decide,
            show Configuration.keyLess (str "content") (str "type") = true by decide,
            show Configuration.keyLess (str "key") (str "type") = true by decide]
        exact ⟨ordered, trivial, trivial, trivial, trivial⟩
    | parameters => exact ⟨List.pairwise_singleton _ _, trivial, trivial⟩
    | path text => exact ⟨List.pairwise_singleton _ _, trivial, trivial⟩
    | pathref key => exact ⟨List.pairwise_singleton _ _, trivial, trivial⟩
  have elements_regular {α : Type} (toJson : α → Json) (each : ∀ a, Configuration.Regular (toJson a)) (as : List α) :
      Configuration.RegularElements (as.map toJson) := by
    induction as with
    | nil => trivial
    | cons a rest ih => exact ⟨each a, ih⟩
  have command_regular (command : List CommandComponent) : Configuration.Regular (commandJson command) :=
    elements_regular _ component_regular command
  rw [commandLineJson.eq_def]
  split
  · exact command_regular _
  · exact elements_regular _ command_regular _

theorem regular_taskJson (s : Register Stored) (task : Task) : Configuration.Regular (taskJson s task) := by
  have ordered : Ordered [(str "command", commandLineJson task.command), (str "identifier", .string task.identifier),
      (str "type", .string (s.nameOf task.type))] := by
    simp [Ordered, show Configuration.keyLess (str "command") (str "identifier") = true by decide,
      show Configuration.keyLess (str "command") (str "type") = true by decide,
      show Configuration.keyLess (str "identifier") (str "type") = true by decide]
  exact ⟨ordered, regular_commandLineJson task.command, trivial, trivial, trivial⟩

/-! ### The text -/

theorem lines_spaced {numbers : NumberFormat} {entries : List (Str × Json)} {texts : List Str}
    (plain : ∀ entry ∈ entries, PlainText entry.1 ∧ Configuration.Regular entry.2)
    (written : lines numbers entries = .ok texts) : List.Forall₂ (SpacedMember numbers) texts entries := by
  induction entries generalizing texts with
  | nil =>
      cases written
      exact .nil
  | cons entry rest ih =>
      obtain ⟨name, j⟩ := entry
      simp only [lines, bind_eq_ok, Except.ok.injEq] at written
      obtain ⟨text, dumped, others, tail, rfl⟩ := written
      obtain ⟨plain_name, regular⟩ := plain (name, j) List.mem_cons_self
      have member : MemberText numbers (quoted name ++ 0x3A :: 0x20 :: text) (name, j) :=
        ⟨name, 0x20 :: text, rfl, plain_name.dumpEscaped, (dump_parses regular dumped).space⟩
      refine .cons ⟨[], _, [0x0A], ?_, List.forall_mem_nil _, ?_, member⟩
        (ih (fun e inside => plain e (List.mem_cons_of_mem _ inside)) tail)
      · rw [line, List.append_assoc, List.append_assoc, List.append_assoc]
        rfl
      · intro b inside
        exact Or.inr (List.mem_singleton.mp inside)

/-- What `generate` prints is parsed as its document. -/
theorem registerText_parses {numbers : NumberFormat} {types tasks : List (Str × Json)}
    {type_lines task_lines : List Str}
    (types_spaced : List.Forall₂ (SpacedMember numbers) type_lines types)
    (tasks_spaced : List.Forall₂ (SpacedMember numbers) task_lines tasks) :
    parse numbers (registerText type_lines task_lines) = some (document types tasks) := by
  have break_white : White [0x0A] := fun b inside => Or.inr (List.mem_singleton.mp inside)
  have pad_white : White [0x20, 0x0A] := by simp [White]
  have types_parse := Parses.spacedObject break_white types_spaced
  have tasks_parse := Parses.spacedObject break_white tasks_spaced
  have plain (name : Str) (bytes : PlainText name) {text : Str} {j : Json} (parses : Parses numbers text j) :
      MemberText numbers (quoted name ++ 0x3A :: 0x20 :: text) (name, j) :=
    ⟨name, 0x20 :: text, rfl, bytes.dumpEscaped, parses.space⟩
  have first := (plain (str "types") (by decide) types_parse).spaced
  have second : SpacedMember numbers _ _ :=
    ⟨[0x20, 0x0A], _, [0x0A], rfl, pad_white, break_white, plain (str "tasks") (by decide) tasks_parse⟩
  have whole := Parses.spacedObject Configuration.white_nil (.cons first (.cons second .nil))
  have parsed := whole.parse_spaced break_white
  have text : registerText type_lines task_lines = 0x7B :: ([] ++ (joinTexts [0x2C]
      [quoted (str "types") ++ 0x3A :: 0x20 :: 0x7B :: ([0x0A] ++ (joinTexts [0x2C] type_lines ++ [0x7D])),
        [0x20, 0x0A] ++ (quoted (str "tasks") ++ 0x3A :: 0x20 :: 0x7B ::
          ([0x0A] ++ (joinTexts [0x2C] task_lines ++ [0x7D])) ++ [0x0A])] ++ [0x7D])) ++ [0x0A] := by
    simp only [registerText, joinTexts, List.append_assoc, List.cons_append, List.nil_append]
    rfl
  rw [text]
  exact parsed

/-- The text of a register is parsed as the document of its definitions. -/
theorem generate_parses {numbers : NumberFormat} {s : Register Stored} {text : Str}
    (printed : generate numbers s = .ok text)
    (plain_types : ∀ d ∈ definitions s, PlainText d.1 ∧ RegularValues s d.2)
    (plain_tasks : ∀ task ∈ s.tasks, PlainText task.1) :
    ∃ types, membersJson (typeJson s) (definitions s) = .ok types ∧
      parse numbers text = some (document types (taskEntries s)) := by
  simp only [generate, bind_eq_ok, Except.ok.injEq] at printed
  obtain ⟨types, written, type_lines, types_printed, task_lines, tasks_printed, rfl⟩ := printed
  refine ⟨types, written, registerText_parses (lines_spaced ?_ types_printed) (lines_spaced ?_ tasks_printed)⟩
  · intro member inside
    obtain ⟨d, there, same, output⟩ := membersJson_mem written inside
    exact ⟨same ▸ (plain_types d there).1, regular_typeJson (plain_types d there).2 output⟩
  · intro member inside
    obtain ⟨task, there, rfl⟩ := List.mem_map.mp inside
    exact ⟨plain_tasks task there, regular_taskJson s task.2⟩

end Experimaestro.Definitions

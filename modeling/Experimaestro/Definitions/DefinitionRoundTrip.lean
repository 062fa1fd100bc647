/-
Module: Experimaestro.Definitions.DefinitionRoundTrip
Layer: Definitions
Purpose: The text that `Register::generate` prints, loaded into a new register. The definitions and the tasks are
  those that were printed exactly when no argument has a constant, no argument with a default is required, no
  definition has the name of a predefined type, the types of the tasks are known by then, and no definition of
  a name with `[]` that says something is replaced by a placeholder for a later argument, default or property.
Imports: Experimaestro.Definitions.RestoredTypes
Trusted boundary: none (fully proved)
Main exports: commandLine_read_back, RestoredTask, RestoredArgument, SameDefinitions, Printable, Lossless,
  definitions_restored
Open obligations: none
-/
import Experimaestro.Definitions.RestoredTypes

namespace Experimaestro.Definitions

open Experimaestro.Configuration (Conversions Json NumberFormat Ordered PlainText Str bitsFormat componentName
  elementName insert insert_last lookup parse str)

/-! ### Command lines -/

theorem loadComponent_toJson (component : CommandComponent) : loadComponent component.toJson = .ok component := by
  cases component <;> rfl

theorem loadCommand_commandJson (command : List CommandComponent) :
    loadCommand (commandJson command) = .ok command := by
  rw [commandJson, loadCommand]
  induction command with
  | nil => rfl
  | cons component rest ih =>
      rw [List.map_cons, List.mapM_cons, loadComponent_toJson, ih]
      rfl

/-- Commands that are written one by one are read one by one. -/
theorem mapM_loadCommand (commands : CommandLine) : (commands.map commandJson).mapM loadCommand = .ok commands := by
  induction commands with
  | nil => rfl
  | cons command rest ih =>
      rw [List.map_cons, List.mapM_cons, loadCommand_commandJson, ih]
      rfl

/-- A single command is told from a list of commands by its first component. -/
theorem loadCommandLine_single (component : CommandComponent) (rest : List CommandComponent) :
    loadCommandLine (commandLineJson [component :: rest]) = .ok [component :: rest] := by
  have loaded := loadCommand_commandJson (component :: rest)
  rw [commandLineJson, commandJson, List.map_cons] at *
  cases component <;> exact congrArg (Except.map fun command => [command]) loaded

/-- A single command without components is written as a line without commands. -/
theorem loadCommandLine_empty : loadCommandLine (commandLineJson [[]]) = .ok [] := rfl

/-- A command line is read as one that is written in the same way. -/
theorem loadCommandLine_commandLineJson (commands : CommandLine) :
    ∃ commands', loadCommandLine (commandLineJson commands) = .ok commands' ∧
      commandLineJson commands' = commandLineJson commands := by
  match commands with
  | [] => exact ⟨[], rfl, rfl⟩
  | [[]] => exact ⟨[], loadCommandLine_empty, rfl⟩
  | [component :: rest] => exact ⟨_, loadCommandLine_single component rest, rfl⟩
  | first :: second :: rest => exact ⟨_, mapM_loadCommand (first :: second :: rest), rfl⟩

/-- Every command line is read back, but for the one whose only command has no components. -/
theorem commandLine_read_back (commands : CommandLine) :
    loadCommandLine (commandLineJson commands) = .ok commands ↔ commands ≠ [[]] := by
  match commands with
  | [] => exact ⟨fun _ => nofun, fun _ => rfl⟩
  | [[]] =>
      constructor
      · rw [loadCommandLine_empty]
        exact nofun
      · exact fun other => absurd rfl other
  | [component :: rest] => exact ⟨fun _ => nofun, fun _ => loadCommandLine_single component rest⟩
  | first :: second :: rest => exact ⟨fun _ => nofun, fun _ => mapM_loadCommand (first :: second :: rest)⟩

/-- The command line with one command that has no components has no command when it is read. -/
theorem commandLine_lost :
    ¬∀ commands : CommandLine, loadCommandLine (commandLineJson commands) = .ok commands := by
  intro always
  exact nomatch (loadCommandLine_empty.symm.trans (always [[]]))

/-! ### Tasks -/

section

variable (written : Register Stored)

/-- A task is as it was written. -/
structure RestoredTask (s : Register Stored) (task task' : Task) : Prop where
  type : s.nameOf task'.type = written.nameOf task.type
  command : commandLineJson task'.command = commandLineJson task.command

variable {written} {s : Register Stored} {known : Str → Prop} {parent : Str → Option Str} {awaiting : Str → Prop}

/-- The tasks have no part in the shape of a register. -/
theorem Tidy.withTasks (tidy : Tidy s known parent awaiting) (tasks : List (Str × Task)) :
    Tidy { s with tasks := tasks } known parent awaiting where
  shape :=
    { sized := tidy.shape.sized
      unique := tidy.shape.unique
      known_iff := tidy.shape.known_iff
      parents := tidy.shape.parents
      closed := tidy.shape.closed
      completed := tidy.shape.completed }
  orphan := tidy.orphan
  ends := tidy.ends

theorem nameOf_withTasks (tasks : List (Str × Task)) (type : TypePtr) :
    { s with tasks := tasks }.nameOf type = s.nameOf type := by rw [nameOf_eq, nameOf_eq]

theorem RestoredTask.withTasks {task task' : Task} (restored : RestoredTask written s task task')
    (tasks : List (Str × Task)) : RestoredTask written { s with tasks := tasks } task task' where
  type := (nameOf_withTasks tasks task'.type).trans restored.type
  command := restored.command

/-- A task is read when its type is known. -/
theorem loadTask_restores (tidy : Tidy s known parent awaiting) (identifier : Str) {task : Task}
    (registered : known (elementName (written.nameOf task.type))) :
    ∃ task', loadTask s identifier (taskJson written task) = .ok { s with tasks := insert identifier task' s.tasks } ∧
      RestoredTask written s task task' := by
  obtain ⟨command, loaded, same⟩ := loadCommandLine_commandLineJson task.command
  obtain ⟨type, got, named, _⟩ := tidy.getType_known registered
  refine ⟨{ identifier := identifier, type := type, command := command }, ?_, named, same⟩
  have at_type : find (str "type") (taskJson written task) = some (.string (written.nameOf task.type)) := rfl
  have at_command : find (str "command") (taskJson written task) = some (commandLineJson task.command) := rfl
  rw [loadTask, at_type, at_command]
  simp only [getString, got, loaded, bind, Except.bind]

/-- A task whose type is not known ends the call. -/
theorem loadTask_refused (tidy : Tidy s known parent awaiting) (identifier : Str) {task : Task}
    (unknown : ¬ known (elementName (written.nameOf task.type))) :
    ∃ e, loadTask s identifier (taskJson written task) = .error e := by
  obtain ⟨command, loaded, _⟩ := loadCommandLine_commandLineJson task.command
  have at_type : find (str "type") (taskJson written task) = some (.string (written.nameOf task.type)) := rfl
  have at_command : find (str "command") (taskJson written task) = some (commandLineJson task.command) := rfl
  rw [loadTask, at_type, at_command]
  simp only [getString, tidy.getType_unknown unknown, loaded, bind, Except.bind]
  exact ⟨_, rfl⟩

/-- The tasks are read, where the type of each is known. -/
theorem loadTasks_restores {done rest : List (Str × Task)} {docs : List (Str × Json)}
    (paired : Paired (fun task j => taskJson written task = j) rest docs) (tidy : Tidy s known parent awaiting)
    (ordered : Ordered (done ++ rest)) (registered : ∀ t ∈ rest, known (elementName (written.nameOf t.2.type)))
    (own : Paired (RestoredTask written s) done s.tasks) :
    ∃ tasks, loadTasks docs s = .ok { s with tasks := tasks } ∧ Paired (RestoredTask written s) (done ++ rest) tasks := by
  induction paired generalizing done s with
  | nil => exact ⟨s.tasks, rfl, by rwa [List.append_nil]⟩
  | @cons entry doc rest docs first _ ih =>
      obtain ⟨identifier, task⟩ := entry
      obtain ⟨identifier', j⟩ := doc
      obtain ⟨same, output⟩ := first
      dsimp only at same output
      subst same output
      obtain ⟨task', loaded, restored⟩ :=
        loadTask_restores tidy identifier (registered (identifier, task) List.mem_cons_self)
      have last : insert identifier task' s.tasks = s.tasks ++ [(identifier, task')] := by
        apply insert_last
        intro entry member
        obtain ⟨e, inside, same⟩ := List.mem_map.mp (own.keys ▸ List.mem_map_of_mem member)
        exact same ▸ (List.pairwise_append.mp ordered).2.2 e inside (identifier, task) List.mem_cons_self
      have grown : Paired (RestoredTask written { s with tasks := insert identifier task' s.tasks })
          (done ++ [(identifier, task)]) (insert identifier task' s.tasks) := by
        rw [last]
        apply List.rel_append
        · exact own.imp fun entry other related => ⟨related.1, related.2.withTasks _⟩
        · exact .cons ⟨rfl, restored.withTasks _⟩ .nil
      have split : done ++ (identifier, task) :: rest = (done ++ [(identifier, task)]) ++ rest := by simp
      rw [split] at ordered ⊢
      obtain ⟨tasks, others, all⟩ := ih (tidy.withTasks _) ordered
        (fun t inside => registered t (List.mem_cons_of_mem _ inside)) grown
      refine ⟨tasks, ?_, all.imp fun entry other related => ⟨related.1, related.2.withTasks s.tasks⟩⟩
      rw [loadTasks, loaded]
      exact others

/-- A task whose type is not known ends the loop. -/
theorem loadTasks_refused {rest : List (Str × Task)} {docs : List (Str × Json)}
    (paired : Paired (fun task j => taskJson written task = j) rest docs) (tidy : Tidy s known parent awaiting)
    (unknown : ∃ t ∈ rest, ¬ known (elementName (written.nameOf t.2.type))) :
    ∃ e, loadTasks docs s = .error e := by
  induction paired generalizing s with
  | nil =>
      obtain ⟨_, inside, _⟩ := unknown
      cases inside
  | @cons entry doc rest docs first _ ih =>
      obtain ⟨identifier, task⟩ := entry
      obtain ⟨identifier', j⟩ := doc
      obtain ⟨same, output⟩ := first
      dsimp only at same output
      subst same output
      by_cases registered : known (elementName (written.nameOf task.type))
      · obtain ⟨task', loaded, _⟩ := loadTask_restores tidy identifier registered
        have later : ∃ t ∈ rest, ¬ known (elementName (written.nameOf t.2.type)) := by
          obtain ⟨t, inside, missing⟩ := unknown
          rcases List.mem_cons.mp inside with rfl | there
          · exact absurd registered missing
          · exact ⟨t, there, missing⟩
        obtain ⟨e, failed⟩ := ih (tidy.withTasks _) later
        refine ⟨e, ?_⟩
        rw [loadTasks, loaded]
        exact failed
      · obtain ⟨e, failed⟩ := loadTask_refused tidy identifier registered
        refine ⟨e, ?_⟩
        rw [loadTasks, failed]
        rfl

end

/-! ### The same definitions -/

section

variable (written : Register Stored)

/-- An argument is as it was written; nothing is said about the flag of an argument with a constant. -/
structure RestoredArgument (s : Register Stored) (a a' : Argument Stored) : Prop where
  type : s.nameOf a'.type = written.nameOf a.type
  help : a'.help = a.help
  default : a'.defaultValue.map contentOf = a.defaultValue.map contentOf
  constant : a'.constant.map contentOf = a.constant.map contentOf
  generator : a'.generator = a.generator
  required : a.constant = none → a'.required = a.required

/-- A type is as it was written. -/
structure RestoredDefinition (s : Register Stored) (type type' : TypeObject Stored) : Prop where
  parent : parentNameOf s type' = parentNameOf written type
  description : type'.description = type.description
  arguments : ∀ key, Option.Rel (RestoredArgument written s) (lookup key type.arguments) (lookup key type'.arguments)

/-- The definitions and the tasks of a register are those of another one. -/
structure SameDefinitions (s : Register Stored) : Prop where
  types : ∀ d ∈ definitions written, ∃ a, lookup d.1 s.types = some a ∧ RestoredDefinition written s d.2 (s.objects a)
  tasks : ∀ t ∈ written.tasks, ∃ task', lookup t.1 s.tasks = some task' ∧ RestoredTask written s t.2 task'

/-- A register whose text is a document: the names that are printed need no escape, parents end, the tables have
    distinct keys, defaults and properties can be restored and keep their maps, and constants are written without
    loss. -/
structure Printable (conversions : Conversions) : Prop where
  types : ((definitions written).map Prod.fst).Nodup
  tasks : (written.tasks.map Prod.fst).Nodup
  type_names : ∀ d ∈ definitions written, PlainText d.1
  task_names : ∀ t ∈ written.tasks, PlainText t.1
  ends : ∀ n, ∃ ancestors, Lineage (parentAfter written (definitions written)) n ancestors
  readable : ∀ d ∈ definitions written, Readable conversions (definitions written) d
  maps : DefinitionsKeepMaps written [] (store (definitions written))
  constants : ∀ d ∈ definitions written, ∀ a ∈ d.2.arguments, ∀ v, a.2.constant = some v →
    ∀ j, v.toJson (valueTypes written) = .ok j → Configuration.Regular j

/-- Nothing has been said about a type. -/
structure Blank (type : TypeObject Stored) : Prop where
  parent : type.parent = none
  description : type.description = []
  arguments : type.arguments = []

/-- What the loader does not lose: definitions are accepted, arguments with a default are not required, the types of
    tasks are known after the definitions, and definitions that are replaced while later ones are read say nothing. -/
structure Lossless : Prop where
  accepted : ∀ d ∈ definitions written, Accepted d
  optional : ∀ d ∈ definitions written, ∀ a ∈ d.2.arguments, a.2.defaultValue ≠ none → a.2.required = false
  tasks : ∀ t ∈ written.tasks, elementName (written.nameOf t.2.type) ∈ knownAfter written (definitions written)
  unreplaced : ∀ before d after, store (definitions written) = before ++ d :: after →
    Replaced written d.1 (before ++ [d]) after → Blank d.2

end

section

variable {written s : Register Stored} {conversions : Conversions}

/-- An argument that has been read is as it was written, unless it has a default and was required. -/
theorem Loaded.restored_iff {a a' : Argument Stored} (loaded : Loaded written s a a') (free : a.constant = none) :
    RestoredArgument written s a a' ↔ (a.defaultValue ≠ none → a.required = false) := by
  obtain ⟨value, same, contents⟩ := loaded.again
  have required : a'.required = (a.required && value.isNone) := by rw [same]; rfl
  have given : value = none ↔ a.defaultValue = none := by
    rw [← Option.map_eq_none_iff (f := contentOf), contents, Option.map_eq_none_iff]
  constructor
  · intro restored some_default
    have needed := required.symm.trans (restored.required free)
    cases value with
    | none => exact absurd (given.mp rfl) some_default
    | some v => simpa using needed.symm
  · intro optional
    refine ⟨loaded.type, by rw [same]; rfl, loaded.default, ?_, by rw [same]; rfl, fun _ => ?_⟩
    · rw [free, same]
      rfl
    · rw [required]
      cases value with
      | none => exact Bool.and_true _
      | some v =>
          have some_default : a.defaultValue ≠ none := fun none => nomatch given.mpr none
          rw [optional some_default]
          rfl

/-- Read in the order of the names, the definitions give the same defaults. -/
theorem defaultsBefore_store {definitions : List (Str × TypeObject Stored)}
    (distinct : (definitions.map Prod.fst).Nodup) : defaultsBefore (store definitions) = defaultsBefore definitions := by
  funext owner argument name key
  rw [defaultsBefore, defaultsBefore, declaredDefault, declaredDefault, lookup_store distinct]

theorem parentAfter_store {definitions : List (Str × TypeObject Stored)}
    (distinct : (definitions.map Prod.fst).Nodup) :
    parentAfter written (store definitions) = parentAfter written definitions := by
  funext name
  rw [parentAfter, parentAfter, lookup_store distinct]

theorem mem_knownAfter_store {definitions : List (Str × TypeObject Stored)}
    (distinct : (definitions.map Prod.fst).Nodup) (name : Str) :
    name ∈ knownAfter written (store definitions) ↔ name ∈ knownAfter written definitions := by
  simp only [knownAfter, List.mem_append, List.mem_flatMap, mem_store distinct]

theorem Readable.store {definitions : List (Str × TypeObject Stored)} {d : Str × TypeObject Stored}
    (readable : Readable conversions definitions d) (distinct : (definitions.map Prod.fst).Nodup) :
    Readable conversions (Definitions.store definitions) d where
  keys := readable.keys
  property_keys := readable.property_keys
  defaults := by
    rw [defaultsBefore_store distinct]
    exact readable.defaults
  properties := by
    rw [defaultsBefore_store distinct]
    exact readable.properties

/-- `load`, on the document of a register. -/
theorem load_document (createValue : ValueReader Stored) (types tasks : List (Str × Json)) :
    load createValue s (document types tasks) =
      (do loadTasks (store tasks) (← loadTypes createValue (store types) s)) := rfl

/-- The values of the definitions are written without loss. -/
theorem Printable.values (printable : Printable written conversions) {d : Str × TypeObject Stored}
    (inside : d ∈ definitions written) : RegularValues written d.2 where
  arguments a member v given j output := by
    by_cases fixed : a.2.isConstant = true
    · exact printable.constants d inside a member v (by rw [Argument.constant, if_pos fixed, given]) j output
    · have default : a.2.defaultValue = some v := by rw [Argument.defaultValue, if_neg fixed, given]
      exact regular_restorable _ ((printable.readable d inside).defaults a member v default) output
  properties p member j output := regular_restorable _ ((printable.readable d inside).properties p member) output

/-- A placeholder is as it was written if nothing had been said about the type. -/
theorem restored_placeholder_iff {type : TypeObject Stored} {name : Str} :
    RestoredDefinition written s type { name := name, placeholder := true } ↔ Blank type := by
  constructor
  · intro restored
    refine ⟨Option.map_eq_none_iff.mp restored.parent.symm, restored.description.symm, ?_⟩
    cases given : type.arguments with
    | nil => rfl
    | cons entry rest =>
        obtain ⟨key, a⟩ := entry
        have found : lookup key type.arguments = some a := by
          rw [given]
          exact if_pos rfl
        have same := restored.arguments key
        rw [found] at same
        cases same
  · intro blank
    refine ⟨?_, blank.description.symm, fun key => ?_⟩
    · rw [parentNameOf, parentNameOf, blank.parent]
      rfl
    · rw [blank.arguments]
      exact .none

/-- The object of a definition is as it was written if its arguments are. -/
theorem Kept.definition_iff {replaced : Prop} {d : Str × TypeObject Stored} {address : ℕ}
    (kept : Kept written s replaced d address) (readable : Readable conversions (definitions written) d)
    (accepted : Accepted d) :
    RestoredDefinition written s d.2 (s.objects address) ↔
      ∀ a ∈ d.2.arguments, a.2.defaultValue ≠ none → a.2.required = false := by
  have paired (key : Str) : Option.Rel (Loaded written s) (lookup key d.2.arguments)
      (lookup key (s.objects address).arguments) := by
    rw [← lookup_store readable.keys]
    exact kept.restored.arguments.lookup key
  constructor
  · intro definition argument member
    have loaded := paired argument.1
    have same := definition.arguments argument.1
    rw [Configuration.lookup_of_mem readable.keys member] at loaded same
    generalize lookup argument.1 (s.objects address).arguments = stored at loaded same
    cases loaded with
    | some loaded =>
        cases same with
        | some same => exact (loaded.restored_iff (accepted.constants argument member)).mp same
  · intro optional
    refine ⟨kept.restored.parent, kept.restored.description, fun key => ?_⟩
    have loaded := paired key
    generalize lookup key (s.objects address).arguments = stored at loaded
    cases there : lookup key d.2.arguments with
    | none =>
        rw [there] at loaded
        cases loaded
        exact .none
    | some a =>
        have member := Configuration.mem_of_lookup there
        rw [there] at loaded
        cases loaded with
        | some loaded =>
            exact .some ((loaded.restored_iff (accepted.constants (key, a) member)).mpr (optional (key, a) member))

/-- After the definitions have been read, a type is as it was written if its arguments are and it has not been
    replaced. -/
theorem Restoring.definition_iff (restoring : Restoring written (store (definitions written)) s)
    (printable : Printable written conversions) {before after : List (Str × TypeObject Stored)}
    {d : Str × TypeObject Stored} (split : store (definitions written) = before ++ d :: after)
    (accepted : Accepted d) :
    (∃ a, lookup d.1 s.types = some a ∧ RestoredDefinition written s d.2 (s.objects a)) ↔
      (∀ a ∈ d.2.arguments, a.2.defaultValue ≠ none → a.2.required = false) ∧
        (Replaced written d.1 (before ++ [d]) after → Blank d.2) := by
  have inside : d ∈ definitions written := by
    rw [← mem_store printable.types, split]
    exact List.mem_append_right _ List.mem_cons_self
  obtain ⟨address, kept⟩ := restoring.kept before d after split
  have own := kept.definition_iff (printable.readable d inside) accepted
  by_cases replaced : Replaced written d.1 (before ++ [d]) after
  · obtain ⟨b, found, placeholder⟩ := kept.emptied replaced
    have empty : (∃ a, lookup d.1 s.types = some a ∧ RestoredDefinition written s d.2 (s.objects a)) ↔ Blank d.2 := by
      rw [found]
      simp only [Option.some.injEq, exists_eq_left', placeholder]
      exact restored_placeholder_iff
    rw [empty]
    refine ⟨fun blank => ⟨?_, fun _ => blank⟩, fun both => both.2 replaced⟩
    rw [blank.arguments]
    exact List.forall_mem_nil _
  · rw [kept.entry replaced]
    simp only [Option.some.injEq, exists_eq_left', own, replaced, false_implies, and_true]

theorem RestoredDefinition.withTasks {type type' : TypeObject Stored}
    (restored : RestoredDefinition written s type type')
    (tasks : List (Str × Task)) : RestoredDefinition written { s with tasks := tasks } type type' where
  parent := restored.parent
  description := restored.description
  arguments key := by
    have before := restored.arguments key
    generalize lookup key type.arguments = a at before
    generalize lookup key type'.arguments = a' at before
    cases before with
    | none => exact .none
    | some same => exact .some { same with type := (nameOf_withTasks tasks _).trans same.type }

/-- The definitions are loaded, or one of them is not accepted. -/
theorem Printable.loadTypes (printable : Printable written conversions) {types : List (Str × Json)}
    (output : membersJson (typeJson written) (definitions written) = .ok types) :
    ((∀ d ∈ definitions written, Accepted d) ∧ ∃ s, Definitions.loadTypes (createValue conversions) (store types)
        Register.fresh = .ok s ∧ Restoring written (store (definitions written)) s) ∨
      (∃ d ∈ definitions written, ¬ Accepted d) ∧
        ∃ e, Definitions.loadTypes (createValue conversions) (store types) Register.fresh = .error e := by
  have mem_iff (d : Str × TypeObject Stored) : d ∈ store (definitions written) ↔ d ∈ definitions written :=
    mem_store printable.types
  have paired : Paired (fun type j => typeJson written type = .ok j) (store (definitions written)) (store types) :=
    Paired.store (membersJson_forall output)
  have readable : ∀ d ∈ store (definitions written), Readable conversions (store (definitions written)) d :=
    fun d inside => (printable.readable d ((mem_iff d).mp inside)).store printable.types
  have ends : ∀ n, ∃ ancestors, Lineage (parentAfter written (store (definitions written))) n ancestors := by
    rw [parentAfter_store printable.types]
    exact printable.ends
  have ends_start : ∀ n, ∃ ancestors, Lineage (parentAfter written []) n ancestors := by
    intro n
    obtain ⟨ancestors, line⟩ := ends n
    have grows : ∀ n p, parentAfter written [] n = some p →
        parentAfter written ([] ++ store (definitions written)) n = some p := parentAfter_grows _
    obtain ⟨before, earlier, _⟩ := line.earlier grows
    exact ⟨before, earlier⟩
  have start := restoring_fresh ends_start
  have ordered : Ordered ([] ++ store (definitions written)) := ordered_store _
  by_cases accepted : ∀ d ∈ definitions written, Accepted d
  · exact Or.inl ⟨accepted, Restoring.loadTypes paired ordered readable
      (fun d inside => accepted d ((mem_iff d).mp inside)) printable.maps ends start⟩
  · push Not at accepted
    obtain ⟨d, inside, refused⟩ := accepted
    exact Or.inr ⟨⟨d, inside, refused⟩, Restoring.loadTypes_refused paired ordered readable
      ⟨d, (mem_iff d).mpr inside, refused⟩ printable.maps ends start⟩

/-- The tasks are loaded after the definitions, or the type of one of them is not known. -/
theorem Restoring.loadTasks (restoring : Restoring written (store (definitions written)) s)
    (printable : Printable written conversions) :
    ((∀ t ∈ written.tasks, elementName (written.nameOf t.2.type) ∈ knownAfter written (definitions written)) ∧
        ∃ tasks, Definitions.loadTasks (store (taskEntries written)) s = .ok { s with tasks := tasks } ∧
          Paired (RestoredTask written s) (store written.tasks) tasks) ∨
      (∃ t ∈ written.tasks, elementName (written.nameOf t.2.type) ∉ knownAfter written (definitions written)) ∧
        ∃ e, Definitions.loadTasks (store (taskEntries written)) s = .error e := by
  have mem_iff (t : Str × Task) : t ∈ store written.tasks ↔ t ∈ written.tasks := mem_store printable.tasks
  have entries : Paired (fun task j => taskJson written task = j) written.tasks (taskEntries written) :=
    List.forall₂_map_right_iff.mpr (List.forall₂_same.mpr fun _ _ => ⟨rfl, rfl⟩)
  have tidy := restoring.tidy.congr fun n _ => mem_knownAfter_store printable.types n
  by_cases registered :
      ∀ t ∈ written.tasks, elementName (written.nameOf t.2.type) ∈ knownAfter written (definitions written)
  · have ordered : Ordered ([] ++ store written.tasks) := ordered_store _
    have each : ∀ t ∈ store written.tasks,
        elementName (written.nameOf t.2.type) ∈ knownAfter written (definitions written) :=
      fun t inside => registered t ((mem_iff t).mp inside)
    refine Or.inl ⟨registered, loadTasks_restores entries.store tidy ordered each ?_⟩
    rw [restoring.tasks]
    exact .nil
  · push Not at registered
    obtain ⟨t, inside, unknown⟩ := registered
    exact Or.inr ⟨⟨t, inside, unknown⟩, loadTasks_refused entries.store tidy ⟨t, (mem_iff t).mpr inside, unknown⟩⟩

end

/-! ### A register that is restored -/

/-- A register with the predefined types and types that follow. -/
def registerWith (objects : List (TypeObject Stored)) (tasks : List (Str × Task)) : Register Stored where
  objects address := (predefinedTypes ++ objects).getD address { name := [] }
  size := predefinedNames.length + objects.length
  types := (predefinedNames ++ objects.map TypeObject.name).zipIdx
  tasks := tasks

/-- A number. -/
def three : Stored := .scalar {} (.integer 3)

/-- An argument with a default, which is not required. -/
def defaulting (type : TypePtr) (value : Stored) : Argument Stored :=
  Argument.setDefaultValue { type := type } value

/-- A type with a list of numbers as a default. -/
def model : TypeObject Stored where
  name := str "model"
  arguments :=
    [(str "layers", defaulting (.array (.object 2)) (.array {} (.base (.known (str "integer"))) [three])),
      (str "seed", { type := .object 2, help := str "start", required := false })]

/-- A type with a map as a default, and with a generator. -/
def run : TypeObject Stored where
  name := str "run"
  parent := some 6
  description := str "A run"
  arguments :=
    [(str "model", defaulting (.object 6) (.map {} (.base (.known (str "model"))) none none [(str "seed", three)])),
      (str "out", { type := .object 5, generator := some (str "out") })]

/-- A run of a model, and a task for it. -/
def training : Register Stored :=
  registerWith [model, run]
    [(str "train", { identifier := str "train", type := .object 7, command := [[.string (str "python"), .parameters]] })]

/-- Conversions where no real number is integral. -/
def plain : Conversions where
  integral _ := none
  toInteger _ := none
  ofInteger _ := 0
  toText _ := []

theorem training_definitions : definitions training = [(str "model", model), (str "run", run)] := rfl

theorem training_accepted : ∀ d ∈ definitions training, Accepted d := by
  rw [training_definitions]
  simp only [List.forall_mem_cons]
  refine ⟨⟨by decide, ?_⟩, ⟨by decide, ?_⟩, nofun⟩
  · simp only [model, List.forall_mem_cons]
    exact ⟨rfl, rfl, nofun⟩
  · simp only [run, List.forall_mem_cons]
    exact ⟨rfl, rfl, nofun⟩

theorem training_lossless : Lossless training where
  accepted := training_accepted
  optional := by
    rw [training_definitions]
    simp only [List.forall_mem_cons]
    refine ⟨?_, ?_, nofun⟩
    · rw [model, List.forall_mem_cons, List.forall_mem_cons]
      exact ⟨fun _ => rfl, fun _ => rfl, nofun⟩
    · rw [run, List.forall_mem_cons, List.forall_mem_cons]
      exact ⟨fun _ => rfl, fun given => absurd rfl given, nofun⟩
  tasks := by
    simp only [training, registerWith, List.forall_mem_cons]
    exact ⟨by decide, nofun⟩
  unreplaced before d after split replaced := by
    have bare : ∀ d ∈ store (definitions training), componentName d.1 = none := by decide
    exact absurd (bare d (split ▸ List.mem_append_right _ List.mem_cons_self)) replaced.bracketed

theorem training_printable : Printable training plain where
  types := by decide
  tasks := by decide
  type_names := by
    rw [training_definitions]
    simp only [List.forall_mem_cons]
    exact ⟨by decide, by decide, List.forall_mem_nil _⟩
  task_names := by
    simp only [training, registerWith, List.forall_mem_cons]
    exact ⟨by decide, List.forall_mem_nil _⟩
  ends := by
    apply Lineage.exists_of_rank fun n => if n = str "run" ∨ n ∈ predefinedNames ∧ n ≠ str "any" then 1 else 0
    intro x p up
    rw [parentAfter, training_definitions, lookup, lookup, lookup] at up
    split at up
    · next predefined =>
      split at up
      · cases up
      · next other =>
        cases up
        rw [if_neg (by decide), if_pos (Or.inr ⟨predefined, other⟩)]
        exact Nat.one_pos
    · split at up
      · cases up
      · split at up
        · next named =>
          cases up
          rw [if_neg (by decide), if_pos (Or.inl named.symm)]
          exact Nat.one_pos
        · cases up
  readable := by
    have number {own : Str → Str → Option Stored} : Restorable plain own three := by
      refine .scalar fun _ real => ?_
      cases real
    rw [training_definitions]
    simp only [List.forall_mem_cons]
    refine ⟨⟨by decide, by decide, ?_, List.forall_mem_nil _⟩, ⟨by decide, by decide, ?_, List.forall_mem_nil _⟩,
      List.forall_mem_nil _⟩
    · simp only [model, List.forall_mem_cons]
      refine ⟨?_, fun _ given => (by cases given), List.forall_mem_nil _⟩
      rintro _ ⟨⟩
      apply Restorable.array
      simp only [List.forall_mem_cons]
      exact ⟨number, List.forall_mem_nil _⟩
    · simp only [run, List.forall_mem_cons]
      refine ⟨?_, fun _ given => (by cases given), List.forall_mem_nil _⟩
      rintro _ ⟨⟩
      apply Restorable.map
      · rfl
      · exact List.pairwise_singleton _ _
      · simp only [List.forall_mem_cons]
        exact ⟨by decide, List.forall_mem_nil _⟩
      · intro _
        simp only [List.forall_mem_cons]
        exact ⟨fun _ given => (by cases given), List.forall_mem_nil _⟩
      · simp only [List.forall_mem_cons]
        exact ⟨number, List.forall_mem_nil _⟩
  maps := by
    refine ⟨⟨trivial, ?_, ?_, trivial⟩, ⟨trivial, ?_, ?_, trivial⟩, trivial⟩
    · rintro _ ⟨⟩
      exact ⟨trivial, trivial⟩
    · intro _ given
      cases given
    · rintro _ ⟨⟩
      exact ⟨fun bracketed => absurd (by decide) bracketed, trivial, trivial⟩
    · intro _ given
      cases given
  constants d inside a member v given := by
    rw [(training_accepted d inside).constants a member] at given
    cases given

/-- A type with one argument. -/
def single (a : Argument Stored) : Register Stored :=
  registerWith [{ name := str "model", arguments := [(str "layers", a)] }] []

/-- The type has a constant. -/
def fixedModel : Register Stored := single (Argument.setConstant { type := .object 2 } three)

/-- The type `b[]` has a description, and a later type has an argument of this type. -/
def listedModel : Register Stored :=
  registerWith [{ name := str "b[]", description := str "list" },
    { name := str "c", arguments := [(str "items", { type := .object 6 })] }] []

/-- The argument of `c` puts a placeholder in the place of `b[]`, since `b` is not known. -/
example : ∃ types s a, membersJson (typeJson listedModel) (definitions listedModel) = .ok types ∧
    load (createValue plain) Register.fresh (document types []) = .ok s ∧ lookup (str "b[]") s.types = some a ∧
      (s.objects a).description = [] := ⟨_, _, _, rfl, rfl, rfl, rfl⟩

/-- The type has an argument with a default that is required all the same. -/
def neededModel : Register Stored := single { type := .object 2, value := some three }

theorem single_parses {a : Argument Stored} (given : a.value = some three) {text : Str}
    (printed : generate bitsFormat (single a) = .ok text) :
    ∃ types, membersJson (typeJson (single a)) (definitions (single a)) = .ok types ∧
      parse bitsFormat text = some (document types []) := by
  refine generate_parses printed ?_ nofun
  have model : definitions (single a) =
      [(str "model", { name := str "model", arguments := [(str "layers", a)] })] := rfl
  rw [model]
  simp only [List.forall_mem_cons]
  refine ⟨⟨by decide, ?_, nofun⟩, nofun⟩
  simp only [List.forall_mem_cons, given]
  refine ⟨?_, nofun⟩
  rintro _ ⟨⟩ _ ⟨⟩
  trivial

/-- What is read again of the register of one argument. -/
def singleAgain (a : Argument Stored) : Except Failure (Register Stored) :=
  match membersJson (typeJson (single a)) (definitions (single a)) with
  | .ok types => load (createValue plain) Register.fresh (document types [])
  | .error e => .error (.thrown e)

theorem single_again {a : Argument Stored} (given : a.value = some three) {text : Str}
    (printed : generate bitsFormat (single a) = .ok text) {j : Json} {s : Register Stored}
    (parsed : parse bitsFormat text = some j) (loaded : load (createValue plain) Register.fresh j = .ok s) :
    singleAgain a = .ok s := by
  obtain ⟨types, written, document_parsed⟩ := single_parses given printed
  cases document_parsed.symm.trans parsed
  rw [singleAgain, written]
  exact loaded

end Experimaestro.Definitions

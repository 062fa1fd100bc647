/-
Module: Experimaestro.Configuration.Session
Layer: Configuration
Purpose: A client of the library over time: the values it has built, the job objects that `Task::submit`
  has made, and the table `_jobs` of the workspace. The client builds values, stores values in maps,
  generates, and submits tasks, in any order; an operation that throws leaves the values as far as it has
  changed them. A dummy job is the one that `Value::create` binds to a map with the key `$job`.
Imports: Experimaestro.Library.TransitionSystem, Experimaestro.Configuration.Places,
  Experimaestro.Configuration.Generation
Trusted boundary: human-reviewed model of Task::submit, addDependencies and the registration in
  Workspace::submit
Main exports: JobRef, Resource, JobRecord, addDependencies, prepare, Session, Action, step, system
Open obligations: none
-/
import Experimaestro.Library.TransitionSystem
import Experimaestro.Configuration.Places
import Experimaestro.Configuration.Generation

namespace Experimaestro.Configuration

/-! ### Jobs -/

/-- A job object: one made by `Task::submit`, by its number, or a `DummyJob`. -/
inductive JobRef where
  | job (number : ℕ)
  | dummy (locator : Str)
deriving DecidableEq, Repr

def JobRef.isDummy : JobRef → Bool
  | .job _ => false
  | .dummy _ => true

/-- The origin of a dependency. -/
inductive Resource where
  | job (origin : JobRef)
  | token (number : ℕ)
deriving DecidableEq, Repr

/-- `CommandLineJob`, before it runs. -/
structure JobRecord where
  taskId : Str
  jobId : Str
  locator : Str
  dependencies : List Resource
deriving DecidableEq, Repr

section

variable {Ty Job : Type} (types : Types Ty Job)

namespace Value

mutual

/-- `addDependencies`, as the jobs on which it adds a dependency. -/
def addDependencies : Value Ty Job → List Job
  | .scalar _ _ => []
  | .array flags ctype elements =>
      if canIgnore types (.array flags ctype elements) then [] else elementDependencies elements
  | .map _ _ _ (some job) _ => [job]
  | .map _ _ _ none children => childDependencies children

def elementDependencies : List (Value Ty Job) → List Job
  | [] => []
  | element :: rest => addDependencies element ++ elementDependencies rest

def childDependencies : List (Str × Value Ty Job) → List Job
  | [] => []
  | (_, child) :: rest => addDependencies child ++ childDependencies rest

end

/-- `MapValue::task`, as a setter. -/
def forTask (identifier : Str) : Value Ty Job → Value Ty Job
  | .map flags type _ job children => .map flags type (some identifier) job children
  | other => other

/-- `MapValue::job`, as a setter. -/
def bindJob (job : Job) : Value Ty Job → Value Ty Job
  | .map flags type task _ children => .map flags type task (some job) children
  | other => other

/-- The child that `set` replaces, if there is one: it lives on for those who hold it. -/
def displaced (target : Value Ty Job) (key : Str) : List (Value Ty Job) :=
  match target with
  | .map flags _ _ _ children =>
      if flags.isSealed || restrictedKeys.contains key then [] else (lookup key children).toList
  | _ => []

end Value

end

/-- `Typename::localName`: what follows the last dot. -/
def localName (identifier : Str) : Str :=
  (identifier.reverse.takeWhile (· ≠ 46)).reverse

section

variable {Ty : Type} (types : Types Ty JobRef) (ws : Workspace)

/-- `Task::submit` up to the manual dependencies: the value afterwards, and the job or the exception. -/
def prepare (task : Str) (v : Value Ty JobRef) : Value Ty JobRef × Except Error JobRecord :=
  if !v.isMap then (v, .error (.argumentError (str "Value are not a map")))
  else
    let sv := v.forTask task
    match pathGenerator types ws sv (localName task) with
    | .error e => (sv, .error e)
    | .ok locator =>
        let r := configure types ws sv
        match r.error with
        | some e => (r.result, .error e)
        | none =>
            (r.result,
              .ok
                { taskId := task
                  jobId := ws.hex (sv.uniqueIdentifier types)
                  locator := locator
                  dependencies := (r.result.addDependencies types).map .job })

/-! ### The system -/

/-- What a client can make without storing anything: scalars, arrays, and empty maps of a type, with the
    task that `Value::create` finds under `$task` and with a dummy job, if any. -/
def Value.isFresh : Value Ty JobRef → Bool
  | .scalar flags _ => flags == {}
  | .array flags _ elements => flags == {} && freshElements elements
  | .map flags _ _ job children => flags == {} && children.isEmpty && job.all JobRef.isDummy
where
  freshElements : List (Value Ty JobRef) → Bool
    | [] => true
    | element :: rest => Value.isFresh element && freshElements rest

/-- The values and the jobs. A value that no other value holds is a root. -/
structure Session (Ty : Type) where
  values : List (Value Ty JobRef) := []
  jobs : List JobRecord := []
  registry : List (Str × ℕ) := []

/-- What a client does. -/
inductive Action (Ty : Type) where
  | build (value : Value Ty JobRef)
  | set (target : Handle) (key : Str) (source : Handle)
  | generate (target : Handle)
  | submit (task : Str) (target : Handle) (dependencies : List Resource)

namespace Session

/-- The job object is the one that `_jobs` holds under its identifier. -/
def registered (s : Session Ty) : JobRef → Bool
  | .job number =>
      match s.jobs[number]? with
      | some record => lookup record.jobId s.registry == some number
      | none => false
  | .dummy _ => false

/-- The origin of a dependency is no job that is not registered. -/
def holds (s : Session Ty) : Resource → Bool
  | .job r => s.registered r
  | .token _ => true

/-- `Workspace::submit`, as far as the table goes: a job whose identifier is known is skipped. -/
def submit (s : Session Ty) (record : JobRecord) : Session Ty :=
  { s with
    jobs := s.jobs ++ [record]
    registry :=
      if (lookup record.jobId s.registry).isSome then s.registry
      else (record.jobId, s.jobs.length) :: s.registry }

/-- A dependency refers to a token, or to a job object that exists. -/
def knows (s : Session Ty) : Resource → Bool
  | .job (.job number) => number < s.jobs.length
  | _ => true

end Session

/-- One operation of the client. -/
def step : Action Ty → Session Ty → Option (Session Ty)
  | .build value, s => if value.isFresh then some { s with values := s.values ++ [value] } else none
  | .set target key source, s =>
      (follow target s.values).bind fun t =>
        (follow source s.values).map fun v =>
          { s with values := update target (fun t => (t.set types key v).1) s.values ++ t.displaced key }
  | .generate target, s =>
      (follow target s.values).map fun _ =>
        { s with values := update target (fun v => (generate types ws id v).result) s.values }
  | .submit task target dependencies, s =>
      if dependencies.all s.knows then
        (follow target s.values).map fun v =>
          match (prepare types ws task v).2 with
          | .error _ =>
              { s with values := update target (fun v => (prepare types ws task v).1) s.values }
          | .ok record =>
              { s with
                values := update target
                  (fun v => (prepare types ws task v).1.bindJob (.job s.jobs.length)) s.values }.submit
                { record with dependencies := record.dependencies ++ dependencies }
      else none

/-- The client, from the beginning. -/
def system : TransitionSystem.System (Session Ty) (Action Ty) :=
  .ofFunction {} (step types ws)

end

end Experimaestro.Configuration

/-
Module: Experimaestro.Scheduler.Experiments
Layer: Scheduler
Purpose: A whole experiment: the jobs that a client has made by its submissions, run by the scheduler. Each job depends
  on earlier ones, so that the scheduler has a graph to run: `Experiment.graph`. `experiment_done` is what the client
  gets in the end, in terms of what it has submitted.
Imports: Experimaestro.Configuration.JobOrder, Experimaestro.Scheduler.Quiescence
Trusted boundary: human-reviewed model of the dependencies that CommandLineJob::init and Job::addDependency make
Main exports: Experiment, Experiment.graph, Experiment.InOrder, submitted_iff, experiment_done
Open obligations: none
-/
import Mathlib.Data.List.FinRange
import Mathlib.Tactic.Common
import Experimaestro.Configuration.JobOrder
import Experimaestro.Scheduler.Quiescence

namespace Experimaestro.Scheduler

open Experimaestro.Configuration (Str JobRef JobRecord Session Types CopiesMade First Numbered numbered_of_run)

/-! ### The graph of the jobs of a client -/

/-- The bytes of an identifier as the key of a table. -/
def text (s : Str) : String := String.ofList (s.map Char.ofUInt8)

theorem text_injective : Function.Injective text := by
  intro s s' same
  apply List.map_injective_iff.mpr ?_ (String.ofList_injective same)
  intro a b same
  have codes : a.toUInt32.toNat = b.toUInt32.toNat := congrArg Char.toNat same
  rw [UInt8.toNat_toUInt32, UInt8.toNat_toUInt32] at codes
  exact UInt8.toNat_inj.mp codes

/-- What a client has made, and what its tokens are: `_value` of a dependency of a job, `_limit` of a token, and where
the Dependency objects are. -/
structure Experiment {Ty : Type} (types : Types Ty JobRef) (ws : Configuration.Workspace) where
  session : Session Ty
  reached : (Configuration.system types ws).RunUnder (CopiesMade types) session
  /-- A vector has fewer elements than `size_t` has values. -/
  small : ∀ record ∈ session.jobs, record.dependencies.length < 2 ^ 64
  value : ℕ → ℕ → UInt32
  limit : ℕ → UInt32
  address : ℕ → ℕ → ℕ

namespace Experiment

variable {Ty : Type} {types : Types Ty JobRef} {ws : Configuration.Workspace} (e : Experiment types ws)

/-- A Dependency object: the job to which it was added, and its place among the dependencies of that job. -/
structure Dependency where
  number : Fin e.session.jobs.length
  index : Fin (e.session.jobs.get number).dependencies.length

variable {e} in
theorem Dependency.eq_iff {one two : e.Dependency} :
    one = two ↔ one.number.val = two.number.val ∧ one.index.val = two.index.val := by
  constructor
  · rintro rfl
    exact ⟨rfl, rfl⟩
  · obtain ⟨⟨number, inside⟩, ⟨index, bound⟩⟩ := one
    obtain ⟨⟨number', inside'⟩, ⟨index', bound'⟩⟩ := two
    rintro ⟨rfl, rfl⟩
    rfl

instance : DecidableEq e.Dependency := fun _ _ => decidable_of_iff _ Dependency.eq_iff.symm

/-- The origin of a dependency. -/
def resource : Configuration.Resource → Resource JobRef ℕ
  | .job r => .job r
  | .token t => .token t

theorem resource_injective : Function.Injective resource := by
  intro one two same
  cases one <;> cases two <;> cases same <;> rfl

def origin (d : e.Dependency) : Resource JobRef ℕ :=
  resource ((e.session.jobs.get d.number).dependencies.get d.index)

def target (d : e.Dependency) : JobRef := .job d.number

/-- The dependencies of a job, in the order in which they were added. -/
def dependencies : JobRef → List e.Dependency
  | .job number =>
      if inside : number < e.session.jobs.length then
        (List.finRange _).map fun index => { number := ⟨number, inside⟩, index }
      else []
  | .dummy _ => []

/-- The identifier of a job, as the key of `_jobs`. -/
def jobId : JobRef → String
  | .job number => text ((e.session.jobs[number]?.map JobRecord.jobId).getD [])
  | .dummy locator => text locator

theorem mem_dependencies (d : e.Dependency) (r : JobRef) : d ∈ e.dependencies r ↔ e.target d = r := by
  cases r with
  | dummy locator =>
      rw [dependencies, target]
      simp
  | job number =>
      rw [dependencies, target, JobRef.job.injEq]
      split
      case isTrue inside =>
          obtain ⟨⟨here, bound⟩, index⟩ := d
          constructor
          · intro member
            obtain ⟨other, _, same⟩ := List.mem_map.mp member
            exact (congrArg (fun d => d.number.val) same).symm
          · rintro rfl
            exact List.mem_map_of_mem (List.mem_finRange index)
      case isFalse outside =>
          constructor
          · intro member
            cases member
          · rintro rfl
            exact absurd d.number.isLt outside

theorem nodup (r : JobRef) : (e.dependencies r).Nodup := by
  cases r with
  | dummy locator => exact .nil
  | job number =>
      rw [dependencies]
      split
      · apply (List.nodup_finRange _).map
        intro one two same
        cases same
        rfl
      · exact .nil

theorem length_lt (r : JobRef) : (e.dependencies r).length < 2 ^ 64 := by
  cases r with
  | dummy locator => exact Nat.two_pow_pos 64
  | job number =>
      rw [dependencies]
      split
      · rw [List.length_map, List.length_finRange]
        exact e.small _ (List.get_mem _ _)
      · exact Nat.two_pow_pos 64

/-- Jobs are numbered in the order of their submissions; dummy jobs come first. -/
def rank : JobRef → ℕ
  | .job number => number + 1
  | .dummy _ => 0

theorem rank_lt {k j : JobRef} (depends : DependsOn e.dependencies e.origin k j) : rank k < rank j := by
  obtain ⟨d, member, same⟩ := depends
  have target := (e.mem_dependencies d j).mp member
  rw [Experiment.target] at target
  subst target
  cases k with
  | dummy locator => exact Nat.succ_pos _
  | job number =>
      apply Nat.succ_lt_succ
      have inside := List.get_mem (e.session.jobs.get d.number).dependencies d.index
      have found : e.session.jobs[d.number.val]? = some (e.session.jobs.get d.number) :=
        List.getElem?_eq_getElem d.number.isLt
      apply (numbered_of_run types ws e.reached).earlier _ _ found
      rw [origin] at same
      cases resources : (e.session.jobs.get d.number).dependencies.get d.index with
      | token t =>
          rw [resources] at same
          cases same
      | job r =>
          rw [resources] at same inside
          cases same
          exact inside

theorem acyclic (j : JobRef) : ¬ Relation.TransGen (DependsOn e.dependencies e.origin) j j := by
  intro cycle
  have lower {k j : JobRef} (path : Relation.TransGen (DependsOn e.dependencies e.origin) k j) : rank k < rank j := by
    induction path with
    | single depends => exact e.rank_lt depends
    | tail _ depends ih => exact ih.trans (e.rank_lt depends)
  exact Nat.lt_irrefl _ (lower cycle)

/-- What the scheduler is given. -/
def graph : Graph JobRef ℕ e.Dependency where
  dependencies := e.dependencies
  origin := e.origin
  target := e.target
  value d := e.value d.number d.index
  limit := e.limit
  jobId := e.jobId
  address d := e.address d.number d.index
  mem_dependencies := e.mem_dependencies
  nodup := e.nodup
  length_lt := e.length_lt
  acyclic := e.acyclic

end Experiment

/-! ### The submissions of the client -/

section

variable {J T D : Type} [DecidableEq J] [DecidableEq T] [DecidableEq D]

/-- An action submits no job, or it submits one whose identifier is not in the table. -/
theorem submission_of_moves {G : Graph J T D} {admits : D → UInt32 → Prop} {s s' : State J T D} {a : Action J}
    (moves : Moves G admits s a s') :
    s'.jobs = s.jobs ∨ ∃ j, a = .submit j ∧ s'.jobs = j :: s.jobs ∧ ∀ k ∈ s.jobs, G.jobId k ≠ G.jobId j := by
  obtain ⟨s₁, s₂, opened, reported, closed⟩ := moves
  have closing : s'.jobs = s₂.jobs := by cases closed <;> rfl
  have reports : s₂.jobs = s₁.jobs := by
    clear closed closing
    induction reported with
    | refl => rfl
    | tail _ one ih =>
        cases one with
        | settle => rw [settle_jobs, ih]
        | addDependent => exact ih
  rw [closing, reports]
  cases opened with
  | enlist fresh => exact Or.inr ⟨_, rfl, rfl, fresh⟩
  | nothing => exact Or.inl rfl
  | finish => exact Or.inl rfl
  | takeCheck => exact Or.inl rfl

end

namespace Experiment

variable {Ty : Type} {types : Types Ty JobRef} {ws : Configuration.Workspace} (e : Experiment types ws)

/-- The job has been submitted: the table knows its identifier. -/
def Submitted (s : State JobRef ℕ e.Dependency) (number : ℕ) : Prop :=
  ∃ q ∈ s.jobs, e.jobId q = e.jobId (.job number)

/-- The jobs of the client are submitted in their order. -/
def InOrder (s : State JobRef ℕ e.Dependency) : Action JobRef → Prop
  | .submit (.job number) => number < e.session.jobs.length ∧ ∀ other < number, e.Submitted s other
  | .submit (.dummy _) => False
  | .thread _ _ => True

instance (s : State JobRef ℕ e.Dependency) (number : ℕ) : Decidable (e.Submitted s number) :=
  inferInstanceAs (Decidable (∃ q ∈ s.jobs, e.jobId q = e.jobId (.job number)))

instance (s : State JobRef ℕ e.Dependency) : ∀ a, Decidable (e.InOrder s a)
  | .submit (.job number) =>
      inferInstanceAs (Decidable (number < e.session.jobs.length ∧ ∀ other < number, e.Submitted s other))
  | .submit (.dummy _) => inferInstanceAs (Decidable False)
  | .thread _ _ => inferInstanceAs (Decidable True)

theorem jobId_job {number : ℕ} {record : JobRecord} (found : e.session.jobs[number]? = some record) :
    e.jobId (.job number) = text record.jobId := by
  rw [jobId, found]
  rfl

theorem made_of_registered {number : ℕ} (registered : e.session.registered (.job number) = true) :
    ∃ record, e.session.jobs[number]? = some record := by
  rw [Session.registered] at registered
  cases found : e.session.jobs[number]? with
  | none =>
      rw [found] at registered
      cases registered
  | some record => exact ⟨record, rfl⟩

/-- The job objects in the table of the scheduler are those in the table of the session. -/
theorem registered_step {s s' : State JobRef ℕ e.Dependency} {a : Action JobRef} (run : (system e.graph).Reachable s)
    (order : e.InOrder s a) (next : (system e.graph).next s a s')
    (before : ∀ r ∈ s.jobs, e.session.registered r = true) : ∀ r ∈ s'.jobs, e.session.registered r = true := by
  rcases submission_of_moves (moves_of_reachable run next) with same | ⟨j, rfl, jobs, fresh⟩
  · rwa [same]
  · rw [jobs]
    apply List.forall_mem_cons.mpr ⟨_, before⟩
    cases j with
    | dummy locator => cases order
    | job number =>
        obtain ⟨inside, earlier⟩ := order
        have found := List.getElem?_eq_getElem inside
        apply (Configuration.registered_iff (numbered_of_run types ws e.reached) found).mpr
        refine ⟨by rw [found]; rfl, fun other less same => ?_⟩
        obtain ⟨q, member, known⟩ := earlier other less
        apply fresh q member
        obtain ⟨record, at_other, id⟩ := Option.map_eq_some_iff.mp same
        exact known.trans (by rw [e.jobId_job at_other, id, ← e.jobId_job found]; rfl)

/-- When all jobs of the client have been submitted, the table holds those that the session has in its table. -/
theorem submitted_iff {s : State JobRef ℕ e.Dependency}
    (run : (system e.graph).RunUnder (fun s a => StartsOnce e.graph s a ∧ e.InOrder s a) s)
    (all : ∀ number < e.session.jobs.length, e.Submitted s number) (r : JobRef) :
    r ∈ s.jobs ↔ e.session.registered r = true := by
  have numbered := numbered_of_run types ws e.reached
  have known : ∀ r ∈ s.jobs, e.session.registered r = true := by
    apply run.invariant (fun s => ∀ r ∈ s.jobs, e.session.registered r = true)
    · rintro _ rfl r member
      cases member
    · intro s a s' before order next ih
      exact e.registered_step before.reachable order.2 next ih
  constructor
  · exact known r
  · intro registered
    cases r with
    | dummy locator => cases registered
    | job number =>
        obtain ⟨record, found⟩ := e.made_of_registered registered
        have first := (Configuration.registered_iff numbered found).mp registered
        obtain ⟨q, member, same⟩ := all number (List.getElem?_eq_some_iff.mp found).1
        have registered' := known q member
        cases q with
        | dummy locator => cases registered'
        | job other =>
            obtain ⟨record', found'⟩ := e.made_of_registered registered'
            have first' := (Configuration.registered_iff numbered found').mp registered'
            rw [e.jobId_job found, e.jobId_job found'] at same
            rw [text_injective same] at first'
            rw [first.unique first']
            exact member

/-- The dependency does not keep its job from running, as far as the submissions go. -/
def Held (number index : ℕ) : Configuration.Resource → Prop
  | .job r => e.session.registered r = true
  | .token t => e.value number index ≤ e.limit t

/-- The dependencies of a job in the graph are those of its record. -/
theorem held_iff {number : ℕ} {record : JobRecord} (found : e.session.jobs[number]? = some record) :
    ((∀ d ∈ e.dependencies (.job number), Affordable e.graph d) ∧
        ∀ k, DependsOn e.dependencies e.origin k (.job number) → e.session.registered k = true) ↔
      ∀ (index : ℕ) (resource : Configuration.Resource), record.dependencies[index]? = some resource →
        e.Held number index resource := by
  obtain ⟨inside, rfl⟩ := List.getElem?_eq_some_iff.mp found
  constructor
  · rintro ⟨affordable, registered⟩ index resource at_index
    obtain ⟨bound, same⟩ := List.getElem?_eq_some_iff.mp at_index
    let d : e.Dependency := { number := ⟨number, inside⟩, index := ⟨index, bound⟩ }
    have member : d ∈ e.dependencies (.job number) := (e.mem_dependencies d _).mpr rfl
    have origin : e.origin d = Experiment.resource resource := congrArg Experiment.resource same
    cases resource with
    | job r => exact registered r ⟨d, member, origin⟩
    | token t => exact affordable d member t origin
  · intro held
    have held_at {d : e.Dependency} (member : d ∈ e.dependencies (.job number)) (resource : Configuration.Resource)
        (origin : e.origin d = Experiment.resource resource) : e.Held number d.index resource := by
      have target := (e.mem_dependencies d _).mp member
      obtain ⟨⟨other, _⟩, ⟨index, bound⟩⟩ := d
      cases target
      have there : (e.session.jobs[other]).dependencies[index]? = _ := List.getElem?_eq_getElem bound
      exact held index resource (there.trans (congrArg some (Experiment.resource_injective origin)))
    constructor
    · intro d member t origin
      have own := held_at member (.token t) origin
      have target := (e.mem_dependencies d _).mp member
      rw [Experiment.target, JobRef.job.injEq] at target
      rw [← target] at own
      exact own
    · rintro k ⟨d, member, origin⟩
      exact held_at member (.job k) origin

end Experiment

open Experimaestro.Configuration (bareTypes weighing pipeline)

/-- The client of the examples, and its two jobs. -/
def pipelineSession : Session Str :=
  (TransitionSystem.runActions (Configuration.step (bareTypes JobRef) weighing) (pipeline 1) {}).getD {}

theorem pipelineSession_reached :
    (Configuration.system (bareTypes JobRef) weighing).RunUnder (CopiesMade (bareTypes JobRef)) pipelineSession := by
  have executed : TransitionSystem.runActions (Configuration.step (bareTypes JobRef) weighing) (pipeline 1) {} =
      some pipelineSession := rfl
  have first : (Configuration.system (bareTypes JobRef) weighing).Reachable {} := .start rfl
  have run : (Configuration.system (bareTypes JobRef) weighing).Reachable pipelineSession :=
    TransitionSystem.reachable_runActions (fun _ _ _ next => next) first executed
  apply run.mono
  rintro s a _ copies r ⟨_, _, member, _⟩
  cases member

/-- The experiment of the example. -/
def pipelineExperiment : Experiment (bareTypes JobRef) weighing where
  session := pipelineSession
  reached := pipelineSession_reached
  small := by decide
  value _ _ := 0
  limit _ := 0
  address number index := number + index

end Experimaestro.Scheduler

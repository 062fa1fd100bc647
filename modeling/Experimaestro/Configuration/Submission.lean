/-
Module: Experimaestro.Configuration.Submission
Layer: Configuration
Purpose: Submitted jobs and their dependencies. `Task::submit` binds the value to a new job object before
  `Workspace::submit` looks whether the identifier is known, so that a second submission leaves the
  value bound to an object that is never registered. As long as no identifier is submitted twice, all
  parts of all values are bound to registered jobs, and dependencies come from these.
Imports: Experimaestro.Configuration.GenerationRule, Experimaestro.Configuration.Session
Trusted boundary: none
Main exports: jobs, Declares, SubmitsNew, Bound, step_bound, submitted_twice, dependencies_registered,
  dependencies_registered_pipeline
Open obligations: none
-/
import Experimaestro.Configuration.GenerationRule
import Experimaestro.Configuration.Session

namespace Experimaestro.Configuration

open Value

/-! ### The jobs of a value -/

section

variable {Ty Job : Type} (types : Types Ty Job) (ws : Workspace)

namespace Value

mutual

/-- The jobs that the parts of a value are bound to. -/
def jobs : Value Ty Job → List Job
  | .scalar _ _ => []
  | .array _ _ elements => elementJobs elements
  | .map _ _ _ job children => job.toList ++ childJobs children

def elementJobs : List (Value Ty Job) → List Job
  | [] => []
  | element :: rest => jobs element ++ elementJobs rest

def childJobs : List (Str × Value Ty Job) → List Job
  | [] => []
  | (_, child) :: rest => jobs child ++ childJobs rest

end

theorem mem_elementJobs {r : Job} {elements : List (Value Ty Job)} :
    r ∈ elementJobs elements ↔ ∃ element ∈ elements, r ∈ element.jobs := by
  induction elements with
  | nil => simp [elementJobs]
  | cons element rest ih => rw [elementJobs, List.mem_append, ih, List.exists_mem_cons_iff]

theorem mem_childJobs {r : Job} {children : List (Str × Value Ty Job)} :
    r ∈ childJobs children ↔ ∃ entry ∈ children, r ∈ entry.2.jobs := by
  induction children with
  | nil => simp [childJobs]
  | cons entry rest ih =>
      obtain ⟨key, child⟩ := entry
      rw [childJobs, List.mem_append, ih, List.exists_mem_cons_iff]

mutual

theorem jobs_mapFlags (f : Flags → Flags) : ∀ v : Value Ty Job, (v.mapFlags f).jobs = v.jobs
  | .scalar _ _ => by rw [mapFlags, jobs, jobs]
  | .array _ _ elements => by rw [mapFlags, jobs, jobs, elementJobs_mapFlags f elements]
  | .map _ _ _ job children => by rw [mapFlags, jobs, jobs, childJobs_mapFlags f children]

theorem elementJobs_mapFlags (f : Flags → Flags) :
    ∀ elements : List (Value Ty Job), elementJobs (mapFlagsElements f elements) = elementJobs elements
  | [] => by rw [mapFlagsElements]
  | element :: rest => by
      rw [mapFlagsElements, elementJobs, elementJobs, jobs_mapFlags f element, elementJobs_mapFlags f rest]

theorem childJobs_mapFlags (f : Flags → Flags) :
    ∀ children : List (Str × Value Ty Job), childJobs (mapFlagsChildren f children) = childJobs children
  | [] => by rw [mapFlagsChildren]
  | (key, child) :: rest => by
      rw [mapFlagsChildren, childJobs, childJobs, jobs_mapFlags f child, childJobs_mapFlags f rest]

end

theorem jobs_eq_of_core {v w : Value Ty Job} (same : v.core = w.core) : v.jobs = w.jobs := by
  rw [← jobs_mapFlags coreFlags v, ← jobs_mapFlags coreFlags w]
  exact congrArg jobs same

theorem jobs_withFlags (f : Flags → Flags) (v : Value Ty Job) : (v.withFlags f).jobs = v.jobs := by
  cases v <;> simp only [withFlags, jobs]

theorem jobs_marked (type : TypeRef Ty) (key : Str) (v : Value Ty Job) :
    (marked types type key v).jobs = v.jobs := by
  obtain ⟨f, same⟩ := exists_marked types type key v
  rw [same, jobs_withFlags]

theorem jobs_child {selector : Selector} {v child : Value Ty Job} (found : v.child selector = some child)
    {r : Job} (member : r ∈ child.jobs) : r ∈ v.jobs := by
  cases selector with
  | key name =>
      cases v with
      | map flags type task job children =>
          rw [jobs, List.mem_append, mem_childJobs]
          exact Or.inr ⟨(name, child), mem_of_lookup found, member⟩
      | scalar flags s => cases found
      | array flags ctype elements => cases found
  | index position =>
      cases v with
      | array flags ctype elements =>
          rw [jobs, mem_elementJobs]
          exact ⟨child, List.mem_of_getElem? found, member⟩
      | scalar flags s => cases found
      | map flags type task job children => cases found

theorem jobs_descend {r : Job} :
    ∀ {way : List Selector} {v w : Value Ty Job}, v.descend way = some w → r ∈ w.jobs → r ∈ v.jobs
  | [], v, w, found, member => by
      cases found
      exact member
  | selector :: rest, v, w, found, member => by
      obtain ⟨child, first, others⟩ := Option.bind_eq_some_iff.mp found
      exact jobs_child first (jobs_descend others member)

/-- A job of a value after a change in one place: of the value before, or of the new part. -/
theorem jobs_modifyAt {f : Value Ty Job → Value Ty Job} {r : Job} :
    ∀ {way : List Selector} {v : Value Ty Job}, r ∈ (v.modifyAt f way).jobs →
      r ∈ v.jobs ∨ ∃ w, v.descend way = some w ∧ r ∈ (f w).jobs
  | [], v, member => Or.inr ⟨v, rfl, member⟩
  | selector :: rest, v, member => by
      have below {child : Value Ty Job} (found : v.child selector = some child)
          (inside : r ∈ (child.modifyAt f rest).jobs) :
          r ∈ v.jobs ∨ ∃ w, v.descend (selector :: rest) = some w ∧ r ∈ (f w).jobs := by
        rcases jobs_modifyAt inside with before | ⟨w, reached, new⟩
        · exact Or.inl (jobs_child found before)
        · exact Or.inr ⟨w, Option.bind_eq_some_iff.mpr ⟨child, found, reached⟩, new⟩
      cases selector with
      | key name =>
          cases v with
          | map flags type task job children =>
              rw [modifyAt, modifyChild, jobs, List.mem_append, mem_childJobs] at member
              rcases member with own | ⟨entry, stored, inside⟩
              · exact Or.inl (List.mem_append_left _ own)
              · rcases mem_adjust stored with same | ⟨child, found, _, rfl⟩
                · exact Or.inl (List.mem_append_right _ (mem_childJobs.mpr ⟨entry, same, inside⟩))
                · exact below found inside
          | scalar flags s => exact Or.inl member
          | array flags ctype elements => exact Or.inl member
      | index position =>
          cases v with
          | array flags ctype elements =>
              rw [modifyAt, modifyChild, jobs, mem_elementJobs] at member
              obtain ⟨element, stored, inside⟩ := member
              rcases mem_modify stored with same | ⟨child, found, rfl⟩
              · exact Or.inl (mem_elementJobs.mpr ⟨element, same, inside⟩)
              · exact below found inside
          | scalar flags s => exact Or.inl member
          | map flags type task job children => exact Or.inl member

mutual

/-- Dependencies are on jobs that parts of the value are bound to. -/
theorem mem_jobs_of_addDependencies {r : Job} :
    ∀ v : Value Ty Job, r ∈ v.addDependencies types → r ∈ v.jobs
  | .scalar _ _, member => by
      rw [addDependencies] at member
      cases member
  | .array flags ctype elements, member => by
      rw [addDependencies] at member
      split at member
      · cases member
      · rw [jobs]
        exact mem_elementJobs_of_dependencies elements member
  | .map _ _ _ (some job) children, member => by
      rw [addDependencies, List.mem_singleton] at member
      rw [jobs, member]
      exact List.mem_cons_self
  | .map _ _ _ none children, member => by
      rw [addDependencies] at member
      rw [jobs]
      exact mem_childJobs_of_dependencies children member

theorem mem_elementJobs_of_dependencies {r : Job} :
    ∀ elements : List (Value Ty Job), r ∈ elementDependencies types elements → r ∈ elementJobs elements
  | [], member => by
      rw [elementDependencies] at member
      cases member
  | element :: rest, member => by
      rw [elementDependencies, List.mem_append] at member
      rw [elementJobs, List.mem_append]
      exact member.imp (mem_jobs_of_addDependencies element) (mem_elementJobs_of_dependencies rest)

theorem mem_childJobs_of_dependencies {r : Job} :
    ∀ children : List (Str × Value Ty Job), r ∈ childDependencies types children → r ∈ childJobs children
  | [], member => by
      rw [childDependencies] at member
      cases member
  | (key, child) :: rest, member => by
      rw [childDependencies, List.mem_append] at member
      rw [childJobs, List.mem_append]
      exact member.imp (mem_jobs_of_addDependencies child) (mem_childJobs_of_dependencies rest)

end

end Value

/-- A part of a declared default or constant is bound to the job. -/
def Declares (r : Job) : Prop :=
  ∃ t, ∃ a ∈ types.arguments t, ∃ d, a.value = some d ∧ r ∈ d.jobs

theorem jobs_supplied {type : TypeRef Ty} {root value : Value Ty Job} {a : Argument Ty Job}
    {paths : List Str} (declared : a ∈ types.declarations type)
    (supplies : Supplies types ws root a (some (value, paths))) {r : Job} (member : r ∈ value.jobs) :
    Declares types r := by
  obtain ⟨t, own⟩ := mem_declarations types declared
  cases supplies with
  | path name path generator made => cases member
  | default d generator isDefault =>
      rw [jobs_withFlags] at member
      exact ⟨t, a, own, d, value_of_default isDefault, member⟩
  | constant c generator isConstant =>
      rw [jobs_withFlags] at member
      exact ⟨t, a, own, c, value_of_constant isConstant, member⟩
  | null generator value required => cases member

theorem jobs_filled {type : TypeRef Ty} {before after : List (Str × Value Ty Job)}
    (filled : Filled types ws type before after) {r : Job} (member : r ∈ childJobs after) :
    r ∈ childJobs before ∨ Declares types r := by
  induction filled with
  | done children => exact Or.inl member
  | store a declared missing root value paths supplies rest ih =>
      rcases ih member with inserted | new
      · obtain ⟨entry, stored, inside⟩ := mem_childJobs.mp inserted
        rcases mem_insert stored with rfl | old
        · rw [jobs_marked] at inside
          exact Or.inr (jobs_supplied types ws declared supplies inside)
        · exact Or.inl (mem_childJobs.mpr ⟨entry, old, inside⟩)
      · exact Or.inr new

/-- Generation copies declared values and binds nothing else. -/
theorem generation_jobs :
    GenerationRule types ws fun v v' : Value Ty Job => ∀ r ∈ v'.jobs, r ∈ v.jobs ∨ Declares types r where
  refl _ _ member := Or.inl member
  scalar _ _ _ _ member := Or.inl member
  array flags flags' ctype before after _ _ each r member := by
    rw [jobs, mem_elementJobs] at member ⊢
    obtain ⟨element, inside, bound⟩ := member
    obtain ⟨old, there, keeps⟩ := exists_before each inside
    exact (keeps r bound).imp_left fun same => ⟨old, there, same⟩
  map flags flags' type task job before between after _ _ each filled r member := by
    rw [jobs, List.mem_append] at member ⊢
    rcases member with own | new
    · exact Or.inl (Or.inl own)
    · rcases jobs_filled types ws filled new with kept | declared
      · obtain ⟨entry, inside, bound⟩ := mem_childJobs.mp kept
        obtain ⟨old, there, _, keeps⟩ := exists_before each inside
        exact (keeps r bound).imp_left fun same => Or.inr (mem_childJobs.mpr ⟨old, there, same⟩)
      · exact Or.inr declared

theorem jobs_configure {v : Value Ty Job} {r : Job} (member : r ∈ (configure types ws v).result.jobs) :
    r ∈ v.jobs ∨ Declares types r := by
  rw [jobs_eq_of_core (core_configure types ws v)] at member
  exact (generation_jobs types ws).result v id r member

theorem jobs_forTask (task : Str) (v : Value Ty Job) : (v.forTask task).jobs = v.jobs := by
  cases v <;> simp only [forTask, jobs]

theorem jobs_bindJob {job r : Job} {v : Value Ty Job} (member : r ∈ (v.bindJob job).jobs) :
    r = job ∨ r ∈ v.jobs := by
  cases v with
  | scalar flags s => exact Or.inr member
  | array flags ctype elements => exact Or.inr member
  | map flags type task old children =>
      rw [bindJob, jobs, Option.toList_some, List.singleton_append, List.mem_cons] at member
      refine member.imp_right fun inside => ?_
      rw [jobs]
      exact List.mem_append_right _ inside

theorem jobs_set {target v : Value Ty Job} {key : Str} {r : Job}
    (member : r ∈ (target.set types key v).1.jobs) : r ∈ target.jobs ∨ r ∈ v.jobs := by
  rcases set_cases types target key v with same | ⟨flags, type, task, job, children, rfl, _, _, same⟩
  · rw [same] at member
    exact Or.inl member
  · rw [same, jobs, List.mem_append, mem_childJobs] at member
    rcases member with own | ⟨entry, stored, inside⟩
    · exact Or.inl (List.mem_append_left _ own)
    · rcases mem_insert stored with rfl | old
      · rw [jobs_marked] at inside
        exact Or.inr inside
      · exact Or.inl (List.mem_append_right _ (mem_childJobs.mpr ⟨entry, old, inside⟩))

theorem jobs_displaced {target v : Value Ty Job} {key : Str} (member : v ∈ target.displaced key) {r : Job}
    (inside : r ∈ v.jobs) : r ∈ target.jobs := by
  cases target with
  | scalar flags s => cases member
  | array flags ctype elements => cases member
  | map flags type task job children =>
      unfold displaced at member
      dsimp only at member
      split at member
      · cases member
      · rw [jobs, List.mem_append, mem_childJobs]
        exact Or.inr ⟨(key, v), mem_of_lookup (Option.mem_toList.mp member), inside⟩

end

/-! ### The invariant -/

section

variable {Ty : Type} (types : Types Ty JobRef) (ws : Workspace)

theorem jobs_prepare {task : Str} {v : Value Ty JobRef} {r : JobRef}
    (member : r ∈ (prepare types ws task v).1.jobs) : r ∈ v.jobs ∨ Declares types r := by
  unfold prepare at member
  dsimp only at member
  rw [← jobs_forTask task v]
  split at member
  · left
    rwa [jobs_forTask]
  · split at member
    · exact Or.inl member
    · split at member
      · exact jobs_configure types ws member
      · exact jobs_configure types ws member

theorem dependencies_prepare {task : Str} {v : Value Ty JobRef} {record : JobRecord}
    (made : (prepare types ws task v).2 = .ok record) :
    record.jobId = ws.hex ((v.forTask task).uniqueIdentifier types) ∧
      ∀ r, Resource.job r ∈ record.dependencies → r ∈ v.jobs ∨ Declares types r := by
  unfold prepare at made
  dsimp only at made
  split at made
  · cases made
  · split at made
    · cases made
    · split at made
      · cases made
      · cases made
        refine ⟨rfl, fun r member => ?_⟩
        obtain ⟨origin, found, same⟩ := List.mem_map.mp member
        cases same
        rw [← jobs_forTask task v]
        exact jobs_configure types ws (mem_jobs_of_addDependencies types _ found)

/-- The jobs of declared values are registered. -/
def DeclaresRegistered (s : Session Ty) : Prop :=
  ∀ r, Declares types r → s.registered r = true

/-- A generation copies parts of registered jobs; and a submission is the first one of its identifier, no
    part of the value has a dummy job, and the jobs of the manual dependencies are registered. -/
def SubmitsNew (s : Session Ty) : Action Ty → Prop
  | .submit task target dependencies =>
      DeclaresRegistered types s ∧ ∀ v ∈ follow target s.values,
        lookup (ws.hex ((v.forTask task).uniqueIdentifier types)) s.registry = none ∧
          (∀ r ∈ v.jobs, r.isDummy = false) ∧ ∀ resource ∈ dependencies, s.holds resource = true
  | .generate _ => DeclaresRegistered types s
  | _ => True

instance (s : Session Ty) [Decidable (DeclaresRegistered types s)] : ∀ a, Decidable (SubmitsNew types ws s a)
  | .submit task target dependencies =>
      inferInstanceAs (Decidable (DeclaresRegistered types s ∧ ∀ v ∈ follow target s.values,
        lookup (ws.hex ((v.forTask task).uniqueIdentifier types)) s.registry = none ∧
          (∀ r ∈ v.jobs, r.isDummy = false) ∧ ∀ resource ∈ dependencies, s.holds resource = true))
  | .generate _ => inferInstanceAs (Decidable (DeclaresRegistered types s))
  | .build _ | .set _ _ _ => inferInstanceAs (Decidable True)

/-- Parts of values are bound to registered jobs, and registered jobs depend on registered jobs. -/
structure Bound (s : Session Ty) : Prop where
  values : ∀ v ∈ s.values, ∀ number, JobRef.job number ∈ v.jobs → s.registered (.job number) = true
  dependencies : ∀ record ∈ s.jobs, ∀ r, Resource.job r ∈ record.dependencies → s.registered r = true
  registry : ∀ entry ∈ s.registry, entry.2 < s.jobs.length

theorem bound_initial : Bound ({} : Session Ty) where
  values _ member := by cases member
  dependencies _ member := by cases member
  registry _ member := by cases member

theorem follow_jobs {values : List (Value Ty JobRef)} {handle : Handle} {v : Value Ty JobRef}
    (found : follow handle values = some v) {r : JobRef} (member : r ∈ v.jobs) :
    ∃ root ∈ values, r ∈ root.jobs := by
  obtain ⟨root, inside, way⟩ := Option.bind_eq_some_iff.mp found
  exact ⟨root, List.mem_of_getElem? inside, jobs_descend way member⟩

theorem update_jobs {values : List (Value Ty JobRef)} {handle : Handle}
    {f : Value Ty JobRef → Value Ty JobRef} {r : JobRef} {v : Value Ty JobRef}
    (member : v ∈ update handle f values) (inside : r ∈ v.jobs) :
    (∃ w ∈ values, r ∈ w.jobs) ∨ ∃ w, follow handle values = some w ∧ r ∈ (f w).jobs := by
  rcases mem_update member with old | ⟨root, found, rfl⟩
  · exact Or.inl ⟨v, old, inside⟩
  · rcases jobs_modifyAt inside with before | ⟨w, reached, new⟩
    · exact Or.inl ⟨root, List.mem_of_getElem? found, before⟩
    · exact Or.inr ⟨w, Option.bind_eq_some_iff.mpr ⟨root, found, reached⟩, new⟩

mutual

theorem isFresh_jobs {number : ℕ} :
    ∀ {v : Value Ty JobRef}, v.isFresh = true → JobRef.job number ∉ v.jobs
  | .scalar _ _, _, member => by
      rw [jobs] at member
      cases member
  | .array _ _ elements, fresh, member => by
      rw [isFresh, Bool.and_eq_true_iff] at fresh
      rw [jobs] at member
      exact freshElements_jobs fresh.2 member
  | .map _ _ _ job children, fresh, member => by
      rw [isFresh, Bool.and_eq_true_iff, Bool.and_eq_true_iff, List.isEmpty_iff] at fresh
      obtain ⟨⟨_, rfl⟩, dummy⟩ := fresh
      rw [jobs, childJobs, List.append_nil, Option.mem_toList] at member
      rw [member] at dummy
      cases dummy

theorem freshElements_jobs {number : ℕ} :
    ∀ {elements : List (Value Ty JobRef)}, isFresh.freshElements elements = true →
      JobRef.job number ∉ elementJobs elements
  | [], _, member => by
      rw [elementJobs] at member
      cases member
  | element :: rest, fresh, member => by
      rw [isFresh.freshElements, Bool.and_eq_true_iff] at fresh
      rw [elementJobs, List.mem_append] at member
      rcases member with here | there
      · exact isFresh_jobs fresh.1 here
      · exact freshElements_jobs fresh.2 there

end

/-- Registration is not undone. -/
theorem registered_submit {s : Session Ty} {record : JobRecord} {r : JobRef} (before : s.registered r = true) :
    (s.submit record).registered r = true := by
  cases r with
  | dummy locator => cases before
  | job number =>
      unfold Session.registered at before ⊢
      dsimp only [Session.submit] at before ⊢
      cases found : s.jobs[number]? with
      | none =>
          rw [found] at before
          cases before
      | some old =>
          rw [found] at before
          dsimp only at before
          rw [List.getElem?_append_left (List.getElem?_eq_some_iff.mp found).1, found]
          dsimp only
          split
          · exact before
          · rename_i unknown
            rw [lookup, if_neg, before]
            rintro same
            rw [same, beq_iff_eq.mp before] at unknown
            exact unknown rfl

/-- A job is registered by its submission exactly when its identifier was not known. -/
theorem registered_new {s : Session Ty} {record : JobRecord}
    (older : ∀ entry ∈ s.registry, entry.2 < s.jobs.length) :
    (s.submit record).registered (.job s.jobs.length) = true ↔ lookup record.jobId s.registry = none := by
  unfold Session.registered
  dsimp only [Session.submit]
  rw [List.getElem?_concat_length]
  dsimp only
  cases known : lookup record.jobId s.registry with
  | none =>
      rw [Option.isSome_none, if_neg Bool.false_ne_true, lookup, if_pos rfl, beq_self_eq_true]
      exact ⟨fun _ => rfl, fun _ => rfl⟩
  | some number =>
      have before := older (record.jobId, number) (mem_of_lookup known)
      rw [Option.isSome_some, if_pos rfl, known, beq_iff_eq, Option.some.injEq]
      constructor
      · intro same
        exact absurd before (by dsimp only; omega)
      · intro absurdity
        cases absurdity

/-- A job of a value now was a job of a value, or it is registered. -/
def Inherits (s : Session Ty) (values : List (Value Ty JobRef)) (number : ℕ) : Prop :=
  ∀ v ∈ values, JobRef.job number ∈ v.jobs →
    (∃ w ∈ s.values, JobRef.job number ∈ w.jobs) ∨ s.registered (.job number) = true

theorem Inherits.registered {s : Session Ty} (bound : Bound s) {values : List (Value Ty JobRef)}
    {number : ℕ} (inherits : Inherits s values number) {v : Value Ty JobRef} (member : v ∈ values)
    (inside : JobRef.job number ∈ v.jobs) : s.registered (.job number) = true := by
  rcases inherits v member inside with ⟨w, old, there⟩ | declared
  · exact bound.values w old number there
  · exact declared

/-- Changing the values only. -/
theorem Bound.withValues {s : Session Ty} (bound : Bound s) {values : List (Value Ty JobRef)}
    (inherits : ∀ number, Inherits s values number) : Bound { s with values := values } where
  values _ member number inside := (inherits number).registered bound member inside
  dependencies := bound.dependencies
  registry := bound.registry

/-- A submission under a new identifier, all of whose dependencies are registered. -/
theorem Bound.submit {s : Session Ty} (bound : Bound s) {record : JobRecord}
    {values : List (Value Ty JobRef)} (unknown : lookup record.jobId s.registry = none)
    (dependencies : ∀ r, Resource.job r ∈ record.dependencies → s.registered r = true)
    (inherits : ∀ number, number = s.jobs.length ∨ Inherits s values number) :
    Bound (Session.submit { s with values := values } record) where
  values v member number inside := by
    rcases inherits number with rfl | inherits
    · apply (registered_new _).mpr unknown
      exact bound.registry
    · exact registered_submit (inherits.registered bound member inside)
  dependencies other member r inside := by
    rcases List.mem_append.mp member with old | new
    · exact registered_submit (bound.dependencies other old r inside)
    · rw [List.mem_singleton.mp new] at inside
      exact registered_submit (dependencies r inside)
  registry entry member := by
    dsimp only [Session.submit] at member ⊢
    rw [unknown] at member
    rw [List.length_append, List.length_singleton]
    rcases List.mem_cons.mp member with rfl | old
    · exact Nat.lt_succ_self _
    · exact Nat.lt_succ_of_lt (bound.registry entry old)

/-- The values where a submission fails. -/
theorem inherits_prepare {s : Session Ty} {task : Str} {target : Handle} (declares : DeclaresRegistered types s)
    (number : ℕ) : Inherits s (update target (fun v => (prepare types ws task v).1) s.values) number := by
  intro w member inside
  rcases update_jobs member inside with old | ⟨t, found, new⟩
  · exact Or.inl old
  · exact (jobs_prepare types ws new).imp (follow_jobs found) (declares _)

/-- The values of a submission, but for the new job. -/
theorem inherits_bindJob {s : Session Ty} {task : Str} {target : Handle} (declares : DeclaresRegistered types s)
    {number : ℕ} (other : number ≠ s.jobs.length) :
    Inherits s (update target (fun v => (prepare types ws task v).1.bindJob (.job s.jobs.length)) s.values)
      number := by
  intro w member inside
  rcases update_jobs member inside with old | ⟨t, found, new⟩
  · exact Or.inl old
  · rcases jobs_bindJob new with same | before
    · exact absurd (JobRef.job.inj same) other
    · exact (jobs_prepare types ws before).imp (follow_jobs found) (declares _)

/-- The dependencies of a job that is submitted. -/
theorem registered_prepare {s : Session Ty} (bound : Bound s) {task : Str} {target : Handle} {v : Value Ty JobRef}
    {record : JobRecord} (declares : DeclaresRegistered types s) (found : follow target s.values = some v)
    (noDummy : ∀ r ∈ v.jobs, r.isDummy = false) (made : (prepare types ws task v).2 = .ok record) (r : JobRef)
    (inside : Resource.job r ∈ record.dependencies) : s.registered r = true := by
  rcases (dependencies_prepare types ws made).2 r inside with part | declared
  · obtain ⟨root, held, there⟩ := follow_jobs found part
    cases r with
    | job number => exact bound.values root held number there
    | dummy locator => cases noDummy _ part
  · exact declares r declared

theorem step_bound {s s' : Session Ty} {a : Action Ty} (next : step types ws a s = some s')
    (new : SubmitsNew types ws s a) (bound : Bound s) : Bound s' := by
  cases a with
  | build value =>
      rw [step, Option.ite_none_right_eq_some] at next
      obtain ⟨fresh, next⟩ := next
      cases next
      apply bound.withValues
      intro number v member inside
      rcases List.mem_append.mp member with old | built
      · exact Or.inl ⟨v, old, inside⟩
      · rw [List.mem_singleton.mp built] at inside
        exact absurd inside (isFresh_jobs fresh)
  | set target key source =>
      rw [step] at next
      obtain ⟨t, foundTarget, next⟩ := Option.bind_eq_some_iff.mp next
      obtain ⟨v, foundSource, next⟩ := Option.map_eq_some_iff.mp next
      cases next
      apply bound.withValues
      intro number w member inside
      left
      rcases List.mem_append.mp member with updated | displaced
      · rcases update_jobs updated inside with old | ⟨t', found, new⟩
        · exact old
        · rcases jobs_set types new with own | stored
          · exact follow_jobs found own
          · exact follow_jobs foundSource stored
      · exact follow_jobs foundTarget (jobs_displaced displaced inside)
  | generate target =>
      rw [step] at next
      obtain ⟨_, _, next⟩ := Option.map_eq_some_iff.mp next
      cases next
      apply bound.withValues
      intro number w member inside
      rcases update_jobs member inside with old | ⟨t, found, new'⟩
      · exact Or.inl old
      · exact ((generation_jobs types ws).result t id _ new').imp (follow_jobs found) (new _)
  | submit task target dependencies =>
      rw [step, Option.ite_none_right_eq_some] at next
      obtain ⟨_, next⟩ := next
      obtain ⟨v, found, next⟩ := Option.map_eq_some_iff.mp next
      obtain ⟨declares, new⟩ := new
      obtain ⟨unknown, noDummy, manual⟩ := new v found
      split at next
      · cases next
        exact bound.withValues (inherits_prepare types ws declares)
      · rename_i record made
        cases next
        apply bound.submit
        · rwa [← (dependencies_prepare types ws made).1] at unknown
        · intro r inside
          rcases List.mem_append.mp inside with own | given
          · exact registered_prepare types ws bound declares found noDummy made r own
          · exact manual (.job r) given
        · intro number
          by_cases latest : number = s.jobs.length
          · exact Or.inl latest
          · exact Or.inr (inherits_bindJob types ws declares latest)

/-! ### The result -/

end

instance (s : Session Str) : Decidable (DeclaresRegistered (bareTypes JobRef) s) :=
  .isTrue fun _ ⟨_, _, member, _⟩ => by cases member

/-- The client of the examples submits a value for the task `a`, `times` times, and then one for the task
    `bb` that has the first one as its parameter. -/
def pipeline (times : ℕ) : List (Action Str) :=
  let task := Value.map {} (.base (str "T")) none none []
  [.build task] ++ List.replicate times (.submit (str "a") ⟨0, []⟩ []) ++
    [.build task, .set ⟨1, []⟩ (str "p") ⟨0, []⟩, .submit (str "bb") ⟨1, []⟩ []]

/-- When the value is submitted twice, job 2 is registered and depends on job 1, which is not. -/
theorem submitted_twice :
    ∃ s, (system (bareTypes JobRef) weighing).Reachable s ∧
      ∃ record, s.jobs[2]? = some record ∧ s.registered (.job 2) = true ∧
        Resource.job (.job 1) ∈ record.dependencies ∧ s.registered (.job 1) = false := by
  have executed : ((TransitionSystem.runActions (step (bareTypes JobRef) weighing) (pipeline 2) {}).map
      fun s => (s.jobs[2]?.map (·.dependencies), s.registered (.job 2), s.registered (.job 1))) =
        some (some [.job (.job 1)], true, false) := by decide
  obtain ⟨s, run, seen⟩ := TransitionSystem.exists_reachable_of_runActions executed
  simp only [Prod.mk.injEq, Option.map_eq_some_iff] at seen
  obtain ⟨⟨record, found, dependencies⟩, registered, skipped⟩ := seen
  exact ⟨s, run, record, found, registered, dependencies ▸ List.mem_cons_self, skipped⟩

/-- While every submission is the first one of its identifier, every job that a registered job depends on
    is registered; and the job object to which a submission binds its value is registered exactly when
    the identifier was not known. -/
theorem dependencies_registered {Ty : Type} (types : Types Ty JobRef) (ws : Workspace) {s : Session Ty}
    (run : (system types ws).RunUnder (SubmitsNew types ws) s) :
    (∀ (number : ℕ) (record : JobRecord), s.jobs[number]? = some record →
        s.registered (.job number) = true →
          ∀ r, Resource.job r ∈ record.dependencies → s.registered r = true) ∧
      ∀ (task : Str) (target : Handle) (dependencies : List Resource) (v : Value Ty JobRef)
        (record : JobRecord) (s' : Session Ty), follow target s.values = some v →
          (prepare types ws task v).2 = .ok record →
            step types ws (.submit task target dependencies) s = some s' →
              (s'.registered (.job s.jobs.length) = true ↔
                lookup (ws.hex ((v.forTask task).uniqueIdentifier types)) s.registry = none) := by
  have bound : Bound s := by
    apply TransitionSystem.System.RunUnder.invariant Bound _ _ run
    · rintro _ rfl
      exact bound_initial
    · intro s a s' _ new next before
      exact step_bound types ws next new before
  constructor
  · intro number record found _
    exact bound.dependencies record (List.mem_of_getElem? found)
  · intro task target dependencies v record s' found made next
    rw [step, Option.ite_none_right_eq_some, found, Option.map_some, made] at next
    cases next.2
    rw [← (dependencies_prepare types ws made).1]
    exact registered_new bound.registry

/-- One submission of the parameter, then one of the task that uses it. -/
theorem dependencies_registered_pipeline :
    ∃ s, (system (bareTypes JobRef) weighing).RunUnder (SubmitsNew (bareTypes JobRef) weighing) s ∧
      ∃ record, s.jobs[1]? = some record ∧ record.dependencies = [.job (.job 0)] ∧
        ∀ r, Resource.job r ∈ record.dependencies → s.registered r = true := by
  have executed : ((TransitionSystem.runActions
      (TransitionSystem.guarded (SubmitsNew (bareTypes JobRef) weighing) (step (bareTypes JobRef) weighing))
      (pipeline 1) {}).map fun s => (s.jobs[1]?.map (·.dependencies), s.registered (.job 1))) =
        some (some [.job (.job 0)], true) := by decide
  obtain ⟨s, run, seen⟩ := TransitionSystem.exists_runUnder_of_runActions executed
  simp only [Prod.mk.injEq, Option.map_eq_some_iff] at seen
  obtain ⟨⟨record, found, dependencies⟩, registered⟩ := seen
  exact ⟨s, run, record, found, dependencies,
    (dependencies_registered (bareTypes JobRef) weighing run).1 1 record found registered⟩

end Experimaestro.Configuration

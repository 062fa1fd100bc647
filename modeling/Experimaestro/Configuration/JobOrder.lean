/-
Module: Experimaestro.Configuration.JobOrder
Layer: Configuration
Purpose: The order of the jobs of a client. Whatever the client does, a job depends only on jobs that were submitted
  before it, and the table of the workspace holds, for each identifier, the first job that was submitted with it.
Imports: Experimaestro.Configuration.Submission
Trusted boundary: none (fully proved)
Main exports: Made, CopiesMade, First, Numbered, numbered_of_run, registered_iff
Open obligations: none
-/
import Mathlib.Data.Nat.Find
import Mathlib.Tactic.Common
import Experimaestro.Configuration.Submission

namespace Experimaestro.Configuration

/-! ### What one operation does -/

/-- The operation copies declared values. -/
def Action.copies {Ty : Type} : Action Ty → Bool
  | .submit _ _ _ | .generate _ => true
  | .build _ | .set _ _ _ => false

section

variable {Ty : Type} (types : Types Ty JobRef) (ws : Workspace)

/-- Where the jobs come from to which the parts of values are bound. -/
theorem jobs_step {s s' : Session Ty} {a : Action Ty} (next : step types ws a s = some s') {v : Value Ty JobRef}
    (member : v ∈ s'.values) {r : JobRef} (inside : r ∈ v.jobs) :
    (∃ w ∈ s.values, r ∈ w.jobs) ∨ a.copies = true ∧ Declares types r ∨ r.isDummy = true ∨
      r = .job s.jobs.length ∧ s'.jobs.length = s.jobs.length + 1 := by
  cases a with
  | build value =>
      rw [step, Option.ite_none_right_eq_some] at next
      obtain ⟨fresh, next⟩ := next
      cases next
      rcases List.mem_append.mp member with old | built
      · exact Or.inl ⟨v, old, inside⟩
      · rw [List.mem_singleton.mp built] at inside
        cases r with
        | job number => exact absurd inside (isFresh_jobs fresh)
        | dummy locator => exact Or.inr (Or.inr (Or.inl rfl))
  | set target key source =>
      rw [step] at next
      obtain ⟨t, foundTarget, next⟩ := Option.bind_eq_some_iff.mp next
      obtain ⟨w, foundSource, next⟩ := Option.map_eq_some_iff.mp next
      cases next
      left
      rcases List.mem_append.mp member with updated | displaced
      · rcases update_jobs updated inside with old | ⟨t', found, new⟩
        · exact old
        · rcases jobs_set types new with own | stored
          · exact follow_jobs found own
          · exact follow_jobs foundSource stored
      · exact follow_jobs foundTarget (jobs_displaced displaced inside)
  | generate target =>
      rw [step] at next
      obtain ⟨_, _, next⟩ := Option.map_eq_some_iff.mp next
      cases next
      rcases update_jobs member inside with old | ⟨t, found, new⟩
      · exact Or.inl old
      · rcases (generation_jobs types ws).result t id _ new with own | declared
        · exact Or.inl (follow_jobs found own)
        · exact Or.inr (Or.inl ⟨rfl, declared⟩)
  | submit task target dependencies =>
      rw [step, Option.ite_none_right_eq_some] at next
      obtain ⟨_, next⟩ := next
      obtain ⟨w, found, next⟩ := Option.map_eq_some_iff.mp next
      have prepared {t : Value Ty JobRef} (at_target : follow target s.values = some t)
          (part : r ∈ (prepare types ws task t).1.jobs) : (∃ w ∈ s.values, r ∈ w.jobs) ∨ Declares types r :=
        (jobs_prepare types ws part).imp_left (follow_jobs at_target)
      split at next
      · cases next
        rcases update_jobs member inside with old | ⟨t, at_target, new⟩
        · exact Or.inl old
        · exact (prepared at_target new).imp_right fun declared => Or.inl ⟨rfl, declared⟩
      · cases next
        rcases update_jobs member inside with old | ⟨t, at_target, new⟩
        · exact Or.inl old
        · rcases jobs_bindJob new with rfl | part
          · exact Or.inr (Or.inr (Or.inr ⟨rfl, List.length_append⟩))
          · exact (prepared at_target part).imp_right fun declared => Or.inl ⟨rfl, declared⟩

/-- An operation makes no job, or it submits one whose dependencies are known. -/
theorem made_step {s s' : Session Ty} {a : Action Ty} (next : step types ws a s = some s') :
    (s'.jobs = s.jobs ∧ s'.registry = s.registry) ∨
      ∃ record values, s' = Session.submit { s with values := values } record ∧ a.copies = true ∧
        ∀ r, Resource.job r ∈ record.dependencies →
          (∃ v ∈ s.values, r ∈ v.jobs) ∨ Declares types r ∨ s.knows (.job r) = true := by
  cases a with
  | build value =>
      rw [step, Option.ite_none_right_eq_some] at next
      cases next.2
      exact Or.inl ⟨rfl, rfl⟩
  | set target key source =>
      rw [step] at next
      obtain ⟨t, _, next⟩ := Option.bind_eq_some_iff.mp next
      obtain ⟨v, _, next⟩ := Option.map_eq_some_iff.mp next
      cases next
      exact Or.inl ⟨rfl, rfl⟩
  | generate target =>
      rw [step] at next
      obtain ⟨_, _, next⟩ := Option.map_eq_some_iff.mp next
      cases next
      exact Or.inl ⟨rfl, rfl⟩
  | submit task target dependencies =>
      rw [step, Option.ite_none_right_eq_some] at next
      obtain ⟨known, next⟩ := next
      obtain ⟨v, found, next⟩ := Option.map_eq_some_iff.mp next
      split at next
      · cases next
        exact Or.inl ⟨rfl, rfl⟩
      · rename_i record made
        cases next
        refine Or.inr ⟨_, _, rfl, rfl, fun r inside => ?_⟩
        rcases List.mem_append.mp inside with own | given
        · rcases (dependencies_prepare types ws made).2 r own with part | declared
          · exact Or.inl (follow_jobs found part)
          · exact Or.inr (Or.inl declared)
        · exact Or.inr (Or.inr (List.all_eq_true.mp known _ given))

/-! ### The invariant -/

/-- The job object exists. -/
def Made (s : Session Ty) : JobRef → Prop
  | .job number => number < s.jobs.length
  | .dummy _ => True

/-- Declared values are bound to jobs that exist when they are copied. -/
def CopiesMade (s : Session Ty) (a : Action Ty) : Prop :=
  a.copies = true → ∀ r, Declares types r → Made s r

/-- The first job with an identifier. -/
def First (jobs : List JobRecord) (jobId : Str) (number : ℕ) : Prop :=
  (jobs[number]?.map JobRecord.jobId) = some jobId ∧
    ∀ other < number, (jobs[other]?.map JobRecord.jobId) ≠ some jobId

/-- Jobs depend on earlier ones, and the table holds the first job of each identifier. -/
structure Numbered (s : Session Ty) : Prop where
  values : ∀ v ∈ s.values, ∀ r ∈ v.jobs, Made s r
  earlier : ∀ (number : ℕ) (record : JobRecord), s.jobs[number]? = some record →
    ∀ origin, Resource.job (.job origin) ∈ record.dependencies → origin < number
  registry : ∀ jobId number, lookup jobId s.registry = some number ↔ First s.jobs jobId number

theorem numbered_initial : Numbered ({} : Session Ty) where
  values v member := by cases member
  earlier number record found := by cases found
  registry jobId number := by
    constructor
    · intro known
      cases known
    · rintro ⟨found, _⟩
      cases found

theorem Made.later {s s' : Session Ty} (longer : s.jobs.length ≤ s'.jobs.length) {r : JobRef} (made : Made s r) :
    Made s' r := by
  cases r with
  | job number => exact lt_of_lt_of_le made longer
  | dummy locator => exact trivial

/-- The number of jobs does not go down. -/
theorem length_step {s s' : Session Ty} {a : Action Ty} (next : step types ws a s = some s') :
    s.jobs.length ≤ s'.jobs.length := by
  rcases made_step types ws next with ⟨jobs, _⟩ | ⟨record, values, rfl, _⟩
  · rw [jobs]
  · exact List.length_append ▸ Nat.le_add_right _ _

theorem lt_length_of_jobId {jobs : List JobRecord} {number : ℕ} {jobId : Str}
    (here : (jobs[number]?.map JobRecord.jobId) = some jobId) : number < jobs.length := by
  obtain ⟨record, found, _⟩ := Option.map_eq_some_iff.mp here
  exact (List.getElem?_eq_some_iff.mp found).1

theorem First.lt {jobs : List JobRecord} {jobId : Str} {number : ℕ} (first : First jobs jobId number) :
    number < jobs.length :=
  lt_length_of_jobId first.1

/-- An identifier in use has a first job. -/
theorem exists_first {jobs : List JobRecord} {number : ℕ} {jobId : Str}
    (here : (jobs[number]?.map JobRecord.jobId) = some jobId) : ∃ k, First jobs jobId k := by
  have used : ∃ k, (jobs[k]?.map JobRecord.jobId) = some jobId := ⟨number, here⟩
  exact ⟨Nat.find used, Nat.find_spec used, fun k less => Nat.find_min used less⟩

/-- There is one first job. -/
theorem First.unique {jobs : List JobRecord} {jobId : Str} {one two : ℕ} (first : First jobs jobId one)
    (second : First jobs jobId two) : one = two := by
  rcases Nat.lt_trichotomy one two with less | same | more
  · exact absurd first.1 (second.2 one less)
  · exact same
  · exact absurd second.1 (first.2 two more)

/-- The identifiers of the jobs after a submission. -/
theorem jobId_append (jobs : List JobRecord) (record : JobRecord) (number : ℕ) :
    ((jobs ++ [record])[number]?.map JobRecord.jobId) =
      if number = jobs.length then some record.jobId else jobs[number]?.map JobRecord.jobId := by
  split
  case isTrue latest =>
      rw [latest, List.getElem?_concat_length, Option.map_some]
  case isFalse other =>
      rw [List.getElem?_append]
      split
      · rfl
      · rw [List.getElem?_eq_none (by simp; omega), List.getElem?_eq_none (by omega)]

/-- The first jobs after a submission. -/
theorem first_append {jobs : List JobRecord} {record : JobRecord} {jobId : Str} {number : ℕ} :
    First (jobs ++ [record]) jobId number ↔
      First jobs jobId number ∨ number = jobs.length ∧ record.jobId = jobId ∧ ∀ k, ¬ First jobs jobId k := by
  constructor
  · rintro ⟨here, before⟩
    by_cases latest : number = jobs.length
    · rw [jobId_append, if_pos latest, Option.some.injEq] at here
      refine Or.inr ⟨latest, here, fun k first => ?_⟩
      have inside := first.lt
      apply before k (by omega)
      rw [jobId_append, if_neg (by omega)]
      exact first.1
    · rw [jobId_append, if_neg latest] at here
      refine Or.inl ⟨here, fun k less => ?_⟩
      have inside := lt_length_of_jobId here
      have other := before k less
      rwa [jobId_append, if_neg (by omega)] at other
  · rintro (first | ⟨rfl, rfl, unknown⟩)
    · have inside := first.lt
      constructor
      · rw [jobId_append, if_neg (by omega)]
        exact first.1
      · intro k less
        rw [jobId_append, if_neg (by omega)]
        exact first.2 k less
    · constructor
      · rw [jobId_append, if_pos rfl]
      · intro k less same
        rw [jobId_append, if_neg (by omega)] at same
        obtain ⟨number, first⟩ := exists_first same
        exact unknown number first

theorem numbered_step {s s' : Session Ty} {a : Action Ty} (next : step types ws a s = some s')
    (copies : CopiesMade types s a) (numbered : Numbered s) : Numbered s' := by
  have longer := length_step types ws next
  have made_values : ∀ v ∈ s'.values, ∀ r ∈ v.jobs, Made s' r := by
    intro v member r inside
    rcases jobs_step types ws next member inside with ⟨w, old, part⟩ | ⟨copying, declared⟩ | dummy | ⟨rfl, length⟩
    · exact (numbered.values w old r part).later longer
    · exact (copies copying r declared).later longer
    · cases r with
      | job number => cases dummy
      | dummy locator => exact trivial
    · rw [Made, length]
      exact Nat.lt_succ_self _
  rcases made_step types ws next with ⟨jobs, registry⟩ | ⟨record, values, rfl, copying, known⟩
  · refine ⟨made_values, ?_, ?_⟩
    · rw [jobs]
      exact numbered.earlier
    · rw [jobs, registry]
      exact numbered.registry
  · refine ⟨made_values, ?_, ?_⟩
    · intro number other found origin inside
      by_cases latest : number = s.jobs.length
      · subst latest
        change (s.jobs ++ [record])[s.jobs.length]? = some other at found
        rw [List.getElem?_concat_length, Option.some.injEq] at found
        subst found
        rcases known _ inside with ⟨v, member, part⟩ | declared | given
        · exact numbered.values v member _ part
        · exact copies copying _ declared
        · exact of_decide_eq_true given
      · have less : number < (s.jobs ++ [record]).length := (List.getElem?_eq_some_iff.mp found).1
        rw [List.length_append, List.length_singleton] at less
        change (s.jobs ++ [record])[number]? = some other at found
        rw [List.getElem?_append_left (by omega)] at found
        exact numbered.earlier number other found origin inside
    · intro jobId number
      change lookup jobId (if (lookup record.jobId s.registry).isSome then s.registry
        else (record.jobId, s.jobs.length) :: s.registry) = some number ↔ First (s.jobs ++ [record]) jobId number
      rw [first_append]
      split
      case isTrue used =>
          obtain ⟨k, first⟩ := Option.isSome_iff_exists.mp used
          have known := (numbered.registry _ _).mp first
          rw [numbered.registry]
          constructor
          · exact Or.inl
          · rintro (first | ⟨_, rfl, unknown⟩)
            · exact first
            · exact absurd known (unknown k)
      case isFalse unknown =>
          have fresh : ∀ k, ¬ First s.jobs record.jobId k := by
            intro k first
            rw [(numbered.registry _ _).mpr first] at unknown
            exact unknown rfl
          rw [lookup]
          split
          case isTrue same =>
              subst same
              constructor
              · intro latest
                exact Or.inr ⟨(Option.some.inj latest).symm, rfl, fresh⟩
              · rintro (first | ⟨rfl, _⟩)
                · exact absurd first (fresh number)
                · rfl
          case isFalse other =>
              rw [numbered.registry]
              constructor
              · exact Or.inl
              · rintro (first | ⟨_, same, _⟩)
                · exact first
                · exact absurd same other

theorem numbered_of_run {s : Session Ty} (run : (system types ws).RunUnder (CopiesMade types) s) : Numbered s := by
  apply TransitionSystem.System.RunUnder.invariant Numbered _ _ run
  · rintro _ rfl
    exact numbered_initial
  · intro s a s' _ copies next before
    exact numbered_step types ws next copies before

/-- The job objects in the table are the first ones of their identifiers. -/
theorem registered_iff {s : Session Ty} (numbered : Numbered s) {number : ℕ} {record : JobRecord}
    (found : s.jobs[number]? = some record) :
    s.registered (.job number) = true ↔ First s.jobs record.jobId number := by
  rw [← numbered.registry, Session.registered, found]
  exact beq_iff_eq

end

end Experimaestro.Configuration

/-
Module: Experimaestro.Scheduler.FailurePropagation
Layer: Scheduler
Purpose: What becomes of the jobs that depend on a failed job. A job whose dependency fails completes
  without a state: `dependencyChanged` calls `jobCompleted` and leaves `_state` alone, so that the next
  level reads WAIT from it. No dependent of a job that failed before ever being DONE is in state ERROR,
  and failures reach their dependents exactly when there are none.
Imports: Experimaestro.Scheduler.DependencyOrder
Trusted boundary: none (fully proved)
Main exports: Affected, Failed, Propagates, FailsAlone, failure_stops, failure_propagation
Open obligations: none
-/
import Experimaestro.Scheduler.DependencyOrder

namespace Experimaestro.Scheduler

variable {J T D : Type} [DecidableEq J] [DecidableEq T] [DecidableEq D]

/-- `j` depends on `k`, directly or through a chain of submitted jobs. -/
def Affected (G : Graph J T D) (s : State J T D) : J → J → Prop :=
  Relation.TransGen fun k j => j ∈ s.jobs ∧ DependsOn G.dependencies G.origin k j

/-- `k` has reached ERROR and its `jobCompleted` has returned since. -/
def Failed (s : State J T D) (k : J) : Prop :=
  s.state k = .error ∧
    ∃ after before, s.log = after ++ .completed k :: before ∧ .finished k .error ∈ before

/-- Every job that depends on `k` has left `waitingJobs` and is in state ERROR. -/
def Propagates (G : Graph J T D) (s : State J T D) (k : J) : Prop :=
  ∀ j, Affected G s k j → j ∉ s.waitingJobs ∧ s.state j = .error

/-- Two jobs of a chain are left behind when the first one fails: the second one has completed without
    being in state ERROR, and the third one waits for ever. -/
theorem failure_stops :
    ∃ s, (system (chain 2)).Reachable s ∧ Failed s 0 ∧ Affected (chain 2) s 0 1 ∧
      Affected (chain 2) s 0 2 ∧ s.state 1 = .waiting ∧ s.state 2 = .waiting ∧ 2 ∈ s.waitingJobs ∧
      ¬ Propagates (chain 2) s 0 := by
  have executed : ((TransitionSystem.runActions (step (chain 2))
      [.submit 0, .submit 1, .submit 2, .thread 0 .enter, .thread 0 .run, .thread 0 (.endRun false),
        .thread 0 .complete]
      (initial (chain 2))).map fun s =>
        (s.jobs, s.log, s.state 0, s.state 1, s.state 2, s.waitingJobs)) =
      some ([2, 1, 0], [.completed 0, .finished 0 .error, .entered 0], .error, .waiting, .waiting, [2]) :=
    rfl
  obtain ⟨s, run, seen⟩ := TransitionSystem.exists_reachable_of_runActions executed
  simp only [Prod.mk.injEq] at seen
  obtain ⟨jobs, log, state₀, state₁, state₂, waiting⟩ := seen
  have first : Affected (chain 2) s 0 1 := .single ⟨by simp [jobs], 0, by decide, by decide⟩
  have second : Affected (chain 2) s 0 2 := first.tail ⟨by simp [jobs], 1, by decide, by decide⟩
  have failed : Failed s 0 := ⟨state₀, [], [.finished 0 .error, .entered 0], log, List.mem_cons_self ..⟩
  refine ⟨s, run, failed, first, second, state₁, state₂, by simp [waiting], fun propagates => ?_⟩
  have reached := (propagates 1 first).2
  rw [state₁] at reached
  cases reached

/-! ### When there is nothing to propagate -/

/-- The condition on a step: `run()` fails only for a job without submitted dependents, and no job is
    submitted that depends on a job in state ERROR. -/
def FailsAlone (G : Graph J T D) (s : State J T D) : Action J → Prop
  | .submit j => ∀ d ∈ G.dependencies j, status G s d ≠ .fail
  | .thread i (.endRun false) =>
      ∀ th ∈ s.threads[i]?, ∀ j ∈ s.jobs, ∀ d ∈ G.dependencies j, G.origin d ≠ .job th.job
  | _ => True

instance (G : Graph J T D) (s : State J T D) (a : Action J) : Decidable (FailsAlone G s a) := by
  unfold FailsAlone
  split <;> infer_instance

/-- Only `Workspace::submit` adds a job. -/
theorem jobs_of_moves {G : Graph J T D} {admits : D → UInt32 → Prop} {s s' : State J T D} {a : Action J}
    (moves : Moves G admits s a s') {j : J} (member : j ∈ s'.jobs) : j ∈ s.jobs ∨ a = .submit j := by
  refine moves.preserves (fun s' => j ∈ s'.jobs → j ∈ s.jobs ∨ a = .submit j) ?_ ?_ ?_ Or.inl member
  · intro s₁ s₂ opened before member
    cases opened with
    | nothing => exact before member
    | enlist fresh =>
        rcases List.mem_cons.mp member with rfl | old
        · exact Or.inr rfl
        · exact before old
    | finish at_i ended => exact before member
    | takeCheck at_i checks => exact before member
  · intro s₁ s₂ reported before member
    cases reported with
    | settle => exact before (by simpa using member)
    | addDependent => exact before member
  · intro s₁ s₂ closed before member
    cases closed <;> exact before member

/-- A job gets into state ERROR only when its `run()` fails. -/
theorem error_of_moves {G : Graph J T D} {admits : D → UInt32 → Prop} {s s' : State J T D} {a : Action J}
    (moves : Moves G admits s a s') {k : J} (other : ∀ i, a ≠ .thread i (.endRun false))
    (error : s'.state k = .error) : s.state k = .error := by
  refine moves.preserves (fun s' => s'.state k = .error → s.state k = .error) ?_ ?_ ?_ id error
  · intro s₁ s₂ opened before error
    cases opened <;> exact before error
  · intro s₁ s₂ reported before error
    cases reported with
    | settle => exact before (by simpa using error)
    | addDependent => exact before error
  · intro s₁ s₂ closed before error
    have kept {j : J} {new : JobState} (ne : new ≠ .error)
        (error : Function.update s₁.state j new k = .error) : s₁.state k = .error := by
      by_cases same : k = j
      · rw [same, Function.update_self] at error
        exact absurd error ne
      · rwa [Function.update_of_ne same] at error
    cases closed with
    | abort at_i locking => exact before (kept (by decide) error)
    | setRunning at_i running => exact before (kept (by decide) error)
    | @endRun i th success new at_i running result =>
        cases success with
        | true => exact before (kept (result ▸ by decide) error)
        | false => exact absurd rfl (other i)
    | _ => exact before error

/-- Under the condition no submitted job depends on a job in state ERROR. -/
theorem errors_alone {G : Graph J T D} {s : State J T D} (run : (system G).RunUnder (FailsAlone G) s) :
    ∀ k, s.state k = .error → ∀ j ∈ s.jobs, ¬ DependsOn G.dependencies G.origin k j := by
  refine run.invariant
    (fun s => ∀ k, s.state k = .error → ∀ j ∈ s.jobs, ¬ DependsOn G.dependencies G.origin k j)
    (fun _ first k error => ?_) fun s a s' run met next alone k error j member depends => ?_
  · subst first
    cases error
  have moves := moves_of_reachable run.reachable next
  obtain ⟨d, inside, origin⟩ := depends
  by_cases failing : ∃ i, a = .thread i (.endRun false)
  · obtain ⟨i, rfl⟩ := failing
    have submitted : j ∈ s.jobs := (jobs_of_moves moves member).resolve_right nofun
    change step G _ s = some s' at next
    simp only [step, threadStep, Option.bind_eq_some_iff, Option.ite_none_right_eq_some,
      Option.some.injEq] at next
    obtain ⟨th, at_i, running, rfl⟩ := next
    by_cases same : k = th.job
    · exact met th at_i j submitted d inside (same ▸ origin)
    · change Function.update s.state th.job _ k = .error at error
      rw [Function.update_of_ne same] at error
      exact alone k error j submitted ⟨d, inside, origin⟩
  · have before := error_of_moves moves (fun i same => failing ⟨i, same⟩) error
    rcases jobs_of_moves moves member with old | rfl
    · exact alone k before j old ⟨d, inside, origin⟩
    · exact met d inside (by simp [status, origin, before])

/-- A failed job that was never DONE reaches no dependent, so that its failure propagates exactly when no
    submitted job depends on it; and in a run where jobs fail alone every failure propagates. -/
theorem failure_propagation (G : Graph J T D) {s : State J T D} {k : J} (failed : Failed s k) :
    ((system G).RunUnder (FailsAlone G) s → Propagates G s k) ∧
      ((system G).Reachable s → .finished k .done ∉ s.log →
        (Propagates G s k ↔ ∀ j ∈ s.jobs, ¬ DependsOn G.dependencies G.origin k j)) := by
  have alone (none_depends : ∀ j ∈ s.jobs, ¬ DependsOn G.dependencies G.origin k j) :
      Propagates G s k := by
    intro j affected
    obtain ⟨first, ⟨submitted, depends⟩, _⟩ := Relation.TransGen.head'_iff.mp affected
    exact absurd depends (none_depends first submitted)
  refine ⟨fun run => alone (errors_alone run k failed.1), fun run never => ⟨fun propagates => ?_, alone⟩⟩
  intro j submitted depends
  have error := (propagates j (.single ⟨submitted, depends⟩)).2
  have touched : s.state j ≠ .waiting := by
    rw [error]
    exact nofun
  exact never ((ordered_of_reachable run).touched j touched k depends)

/-- A job that fails before its dependent is submitted. -/
theorem failure_propagation_alone :
    ∃ s, Failed s 0 ∧ ((system (chain 1)).RunUnder (FailsAlone (chain 1)) s ∧ Propagates (chain 1) s 0) ∧
      ((system (chain 1)).Reachable s ∧ .finished 0 .done ∉ s.log ∧
        (Propagates (chain 1) s 0 ↔
          ∀ j ∈ s.jobs, ¬ DependsOn (chain 1).dependencies (chain 1).origin 0 j)) := by
  have executed : ((TransitionSystem.runActions
      (TransitionSystem.guarded (FailsAlone (chain 1)) (step (chain 1)))
      [.submit 0, .thread 0 .enter, .thread 0 .run, .thread 0 (.endRun false), .thread 0 .complete]
      (initial (chain 1))).map fun s => (s.state 0, s.log)) =
      some (.error, [.completed 0, .finished 0 .error, .entered 0]) := by decide
  obtain ⟨s, run, seen⟩ := TransitionSystem.exists_runUnder_of_runActions executed
  simp only [Prod.mk.injEq] at seen
  obtain ⟨state, log⟩ := seen
  have failed : Failed s 0 := ⟨state, [], [.finished 0 .error, .entered 0], log, List.mem_cons_self ..⟩
  have both := failure_propagation (chain 1) failed
  have never : .finished 0 .done ∉ s.log := by
    rw [log]
    decide
  exact ⟨s, failed, ⟨run, both.1 run⟩, run.reachable, never, both.2 run.reachable never⟩

end Experimaestro.Scheduler

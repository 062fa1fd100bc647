/-
Module: Experimaestro.Library.ShellPrograms
Layer: Library
Purpose: Programs of a shell in their simplest shape: one statement after the other, some of which leave the program
  with a status; a trap that runs when the shell ends; and a job in the background, which the program waits for. What
  simple commands, tests and statuses are is a parameter, and what is outside of its domain has no meaning.
  `Process.advance` is the small step, between which others may change what they share with the shell; `execute` runs
  a program to its end. `execute_run` relates the two.
Imports: Mathlib.Data.Option.Basic, Mathlib.Tactic.Common, Experimaestro.Library.TransitionSystem
Trusted boundary: none (fully proved)
Main exports: Statement, Meaning, Point, Background, Process, Process.advance, Process.advance_background,
  Process.interrupt, Event, step, execute,
  body_runs, execute_run
Open obligations: none
-/
import Mathlib.Data.Option.Basic
import Mathlib.Tactic.Common
import Experimaestro.Library.TransitionSystem

namespace ShellPrograms

open TransitionSystem (System)

/-! ### Programs -/

/-- A statement, for simple commands `C`, tests `T`, statuses `V` and jobs `J`. -/
inductive Statement (C T V J : Type) where
  | run (command : C)
  /-- `if test; then commands; exit value; fi` -/
  | guard (test : T) (commands : List C) (value : V)
  /-- `trap handler 0` -/
  | trap (handler : List C)
  /-- `job & PID=$!` -/
  | start (job : J)
  /-- `wait $PID` -/
  | await

/-- What the parts of a program mean, for variables `L` of the shell and a state `S` that it shares with others. -/
structure Meaning (L S C T V : Type) where
  run : C → L → S → Option (L × S)
  test : T → L → S → Option Bool
  value : V → L → Option ℕ
  /-- The status of the last command. -/
  status : L → ℕ
  /-- The last command was one that has waited for a job. -/
  waited : ℕ → L → L

variable {L S C T V J : Type}

/-! ### Small steps -/

/-- Where a shell is. -/
inductive Point (C T V J : Type) where
  | program (rest : List (Statement C T V J)) (handler : Option (List C))
  /-- In a guard whose test was true. -/
  | leaving (commands : List C) (value : V) (handler : Option (List C))
  /-- In the handler of the trap, which is not set any more. -/
  | cleanup (rest : List C) (status : ℕ)
  | exited (status : ℕ)

/-- The job in the background. It has a copy of the variables. -/
inductive Background (L J : Type) where
  | absent
  | running (job : J) (locals : L)
  | ended (status : ℕ)

structure Process (L C T V J : Type) where
  point : Point C T V J
  locals : L
  background : Background L J

/-- The shell ends: the handler runs if there is one. -/
def leave (handler : Option (List C)) (status : ℕ) : Point C T V J :=
  match handler with
  | none => .exited status
  | some commands => .cleanup commands status

/-- The process after a simple command. -/
def Process.after (p : Process L C T V J) (point : Point C T V J) (result : Option (L × S)) :
    Option (Process L C T V J × S) :=
  result.map fun (locals, shared) => ({ p with point := point, locals := locals }, shared)

/-- The next step of a shell; `none` if it is over, waits for its job, or what comes next has no meaning. -/
def Process.advance (meaning : Meaning L S C T V) (p : Process L C T V J) (shared : S) :
    Option (Process L C T V J × S) :=
  match p.point with
  | .program [] handler => some ({ p with point := leave handler (meaning.status p.locals) }, shared)
  | .program (.run command :: rest) handler =>
      p.after (.program rest handler) (meaning.run command p.locals shared)
  | .program (.guard test commands value :: rest) handler =>
      (meaning.test test p.locals shared).map fun holds =>
        ({ p with point := if holds then .leaving commands value handler else .program rest handler }, shared)
  | .program (.trap commands :: rest) _ => some ({ p with point := .program rest (some commands) }, shared)
  | .program (.start job :: rest) handler =>
      some ({ p with point := .program rest handler, background := .running job p.locals }, shared)
  | .program (.await :: rest) handler =>
      match p.background with
      | .ended status =>
          some ({ p with point := .program rest handler, locals := meaning.waited status p.locals }, shared)
      | .absent | .running _ _ => none
  | .leaving [] value handler =>
      (meaning.value value p.locals).map fun status => ({ p with point := leave handler status }, shared)
  | .leaving (command :: commands) value handler =>
      p.after (.leaving commands value handler) (meaning.run command p.locals shared)
  | .cleanup [] status => some ({ p with point := .exited status }, shared)
  | .cleanup (command :: rest) status => p.after (.cleanup rest status) (meaning.run command p.locals shared)
  | .exited _ => none

/-- A step changes the job in the background only where it starts one. -/
theorem Process.advance_background {meaning : Meaning L S C T V} {p p' : Process L C T V J} {shared shared' : S}
    (advances : p.advance meaning shared = some (p', shared')) :
    p'.background = p.background ∨
      ∃ job rest handler, p.point = .program (.start job :: rest) handler ∧ p'.point = .program rest handler := by
  have after {point : Point C T V J} {result : Option (L × S)} (done : p.after point result = some (p', shared')) :
      p'.background = p.background := by
    simp only [Process.after, Option.map_eq_some_iff, Prod.mk.injEq] at done
    obtain ⟨_, _, rfl, _⟩ := done
    rfl
  obtain ⟨point, locals, background⟩ := p
  cases point with
  | program rest handler =>
      cases rest with
      | nil =>
          cases advances
          exact Or.inl rfl
      | cons statement rest =>
          cases statement with
          | run command => exact Or.inl (after advances)
          | guard test commands value =>
              simp only [Process.advance, Option.map_eq_some_iff, Prod.mk.injEq] at advances
              obtain ⟨_, _, rfl, _⟩ := advances
              exact Or.inl rfl
          | trap commands =>
              cases advances
              exact Or.inl rfl
          | start job =>
              cases advances
              exact Or.inr ⟨job, rest, handler, rfl, rfl⟩
          | await =>
              cases background with
              | absent => cases advances
              | running job locals => cases advances
              | ended status =>
                  cases advances
                  exact Or.inl rfl
  | leaving commands value handler =>
      cases commands with
      | nil =>
          simp only [Process.advance, Option.map_eq_some_iff, Prod.mk.injEq] at advances
          obtain ⟨_, _, rfl, _⟩ := advances
          exact Or.inl rfl
      | cons command rest => exact Or.inl (after advances)
  | cleanup rest status =>
      cases rest with
      | nil =>
          cases advances
          exact Or.inl rfl
      | cons command rest => exact Or.inl (after advances)
  | exited status => cases advances

/-- A signal that ends the shell, while the trap is set. -/
def Process.interrupt (p : Process L C T V J) (status : ℕ) : Option (Process L C T V J) :=
  match p.point with
  | .program _ (some handler) | .leaving _ _ (some handler) => some { p with point := .cleanup handler status }
  | .program _ none | .leaving _ _ none | .cleanup _ _ | .exited _ => none

/-- What happens to a shell and its job. -/
inductive Event (S : Type) where
  | advance
  /-- The job changes what is shared. -/
  | change (shared : S)
  /-- The job makes its last change. -/
  | finish (shared : S) (status : ℕ)
  | interrupt (status : ℕ)

/-- One event; `none` when it is not enabled. -/
def step (meaning : Meaning L S C T V) : Event S → Process L C T V J × S → Option (Process L C T V J × S)
  | .advance, (p, shared) => p.advance meaning shared
  | .change shared', (p, _) =>
      match p.background with
      | .running _ _ => some (p, shared')
      | .absent | .ended _ => none
  | .finish shared' status, (p, _) =>
      match p.background with
      | .running _ _ => some ({ p with background := .ended status }, shared')
      | .absent | .ended _ => none
  | .interrupt status, (p, shared) => (p.interrupt status).map fun p => (p, shared)

/-- A shell at the beginning of a program. -/
def Process.begin (program : List (Statement C T V J)) (locals : L) : Process L C T V J where
  point := .program program none
  locals := locals
  background := .absent

/-- The runs of a program. -/
def runs (meaning : Meaning L S C T V) (program : List (Statement C T V J)) (locals : L) (shared : S) :
    System (Process L C T V J × S) (Event S) :=
  System.ofFunction (Process.begin program locals, shared) (step meaning)

/-! ### Big steps -/

section

variable (meaning : Meaning L S C T V) (perform : J → L → S → S × ℕ)

/-- Simple commands, one after the other. -/
def runAll : List C → L → S → Option (L × S)
  | [], locals, shared => some (locals, shared)
  | command :: rest, locals, shared =>
      (meaning.run command locals shared).bind fun (locals, shared) => runAll rest locals shared

/-- What a program has come to when it ends. -/
structure Result (L S C : Type) where
  status : ℕ
  handler : Option (List C)
  locals : L
  shared : S

/-- A program up to its end, where each job runs to its end at once: `ended` is the status of the last one. -/
def body : List (Statement C T V J) → Option (List C) → Option ℕ → L → S → Option (Result L S C)
  | [], handler, _, locals, shared => some ⟨meaning.status locals, handler, locals, shared⟩
  | .run command :: rest, handler, ended, locals, shared =>
      (meaning.run command locals shared).bind fun (locals, shared) => body rest handler ended locals shared
  | .guard test commands value :: rest, handler, ended, locals, shared =>
      (meaning.test test locals shared).bind fun holds =>
        if holds then
          (runAll meaning commands locals shared).bind fun (locals, shared) =>
            (meaning.value value locals).map fun status => ⟨status, handler, locals, shared⟩
        else body rest handler ended locals shared
  | .trap commands :: rest, _, ended, locals, shared => body rest (some commands) ended locals shared
  | .start job :: rest, handler, _, locals, shared =>
      body rest handler (some (perform job locals shared).2) locals (perform job locals shared).1
  | .await :: rest, handler, ended, locals, shared =>
      ended.bind fun status => body rest handler ended (meaning.waited status locals) shared

/-- A program and the handler that it has set: the status of the shell, and what it leaves. -/
def execute (program : List (Statement C T V J)) (locals : L) (shared : S) : Option (ℕ × S) :=
  (body meaning perform program none none locals shared).bind fun result =>
    (runAll meaning (result.handler.getD []) result.locals result.shared).map fun (_, shared) =>
      (result.status, shared)

/-- Simple commands at the beginning of a program. -/
theorem body_runs (commands : List C) (rest : List (Statement C T V J)) (handler : Option (List C))
    (ended : Option ℕ) (locals : L) (shared : S) :
    body meaning perform (commands.map .run ++ rest) handler ended locals shared =
      (runAll meaning commands locals shared).bind fun (locals, shared) =>
        body meaning perform rest handler ended locals shared := by
  induction commands generalizing locals shared with
  | nil => rfl
  | cons command commands ih =>
      rw [List.map_cons, List.cons_append, body, runAll, Option.bind_assoc]
      apply Option.bind_congr
      intro next _
      exact ih next.1 next.2

/-! ### Big steps are runs -/

/-- Nothing interrupts the shell, and a job does in one step what it does in all. -/
def Undisturbed : Process L C T V J × S → Event S → Prop
  | _, .advance => True
  | (p, shared), .finish shared' status =>
      ∃ job locals, p.background = .running job locals ∧ perform job locals shared = (shared', status)
  | _, .change _ | _, .interrupt _ => False

variable {meaning perform} {M : System (Process L C T V J × S) (Event S)}

/-- Runs in which the shell takes another step. -/
theorem run_advance (takes : ∀ s a s', step meaning a s = some s' → M.next s a s')
    {p p' : Process L C T V J} {shared shared' : S}
    (advances : p.advance meaning shared = some (p', shared'))
    (run : M.RunUnder (Undisturbed perform) (p, shared)) : M.RunUnder (Undisturbed perform) (p', shared') :=
  .step run (a := .advance) trivial (takes _ _ _ advances)

/-- Commands that are executed at points of one shape. -/
theorem run_all (takes : ∀ s a s', step meaning a s = some s' → M.next s a s')
    (point : List C → Point C T V J)
    (executes : ∀ command rest locals (background : Background L J) shared,
      Process.advance meaning ⟨point (command :: rest), locals, background⟩ shared =
        Process.after ⟨point (command :: rest), locals, background⟩ (point rest)
          (meaning.run command locals shared))
    {commands : List C} {locals locals' : L} {background : Background L J} {shared shared' : S}
    (all : runAll meaning commands locals shared = some (locals', shared'))
    (run : M.RunUnder (Undisturbed perform) (⟨point commands, locals, background⟩, shared)) :
    M.RunUnder (Undisturbed perform) (⟨point [], locals', background⟩, shared') := by
  induction commands generalizing locals shared with
  | nil =>
      simp only [runAll, Option.some.injEq, Prod.mk.injEq] at all
      obtain ⟨rfl, rfl⟩ := all
      exact run
  | cons command rest ih =>
      simp only [runAll, Option.bind_eq_some_iff] at all
      obtain ⟨next, first, others⟩ := all
      apply ih others
      apply run_advance takes _ run
      rw [executes, first]
      rfl

/-- The statuses that `body` and a process know of the last job. -/
def Agrees (ended : Option ℕ) (background : Background L J) : Prop :=
  ∀ status, ended = some status → background = .ended status

theorem run_body (takes : ∀ s a s', step meaning a s = some s' → M.next s a s')
    {program : List (Statement C T V J)} {handler : Option (List C)} {ended : Option ℕ} {locals : L}
    {background : Background L J} {shared : S} {result : Result L S C} (agrees : Agrees ended background)
    (comes : body meaning perform program handler ended locals shared = some result)
    (run : M.RunUnder (Undisturbed perform) (⟨.program program handler, locals, background⟩, shared)) :
    ∃ background', M.RunUnder (Undisturbed perform)
      (⟨leave result.handler result.status, result.locals, background'⟩, result.shared) := by
  induction program generalizing handler ended locals background shared with
  | nil =>
      simp only [body, Option.some.injEq] at comes
      subst comes
      exact ⟨background, run_advance takes rfl run⟩
  | cons statement rest ih =>
      cases statement with
      | run command =>
          simp only [body, Option.bind_eq_some_iff] at comes
          obtain ⟨next, first, others⟩ := comes
          apply ih agrees others
          apply run_advance takes _ run
          simp only [Process.advance, Process.after, first, Option.map_some]
      | guard test commands value =>
          simp only [body, Option.bind_eq_some_iff] at comes
          obtain ⟨holds, tested, others⟩ := comes
          have arrives := run_advance takes (by simp only [Process.advance, tested, Option.map_some]; rfl) run
          cases holds with
          | false => exact ih agrees others arrives
          | true =>
              simp only [if_true, Option.bind_eq_some_iff, Option.map_eq_some_iff] at others
              obtain ⟨next, executed, status, valued, rfl⟩ := others
              have left := run_all takes (fun commands => .leaving commands value handler)
                (fun _ _ _ _ _ => rfl) executed arrives
              refine ⟨background, run_advance takes ?_ left⟩
              simp only [Process.advance, valued, Option.map_some]
      | trap commands => exact ih agrees comes (run_advance takes rfl run)
      | start job =>
          have started := run_advance takes rfl run
          have agreed : Agrees (some (perform job locals shared).2)
              (.ended (perform job locals shared).2 : Background L J) := by
            intro status same
            rw [Option.some.inj same]
          apply ih agreed comes
          exact .step started (a := .finish (perform job locals shared).1 (perform job locals shared).2)
            ⟨job, locals, rfl, rfl⟩ (takes _ _ _ rfl)
      | await =>
          simp only [body, Option.bind_eq_some_iff] at comes
          obtain ⟨status, known, others⟩ := comes
          apply ih agrees others
          apply run_advance takes _ run
          simp only [Process.advance, agrees status known]

/-- What `execute` computes is where a run ends that nothing interrupts. -/
theorem execute_run {program : List (Statement C T V J)} {locals : L} {shared shared' : S} {status : ℕ}
    (executed : execute meaning perform program locals shared = some (status, shared')) :
    ∃ p : Process L C T V J, p.point = .exited status ∧
      (runs meaning program locals shared).RunUnder (Undisturbed perform) (p, shared') := by
  simp only [execute, Option.bind_eq_some_iff, Option.map_eq_some_iff, Prod.mk.injEq] at executed
  obtain ⟨result, comes, next, cleaned, rfl, rfl⟩ := executed
  have takes (s : Process L C T V J × S) (a : Event S) (s' : Process L C T V J × S)
      (h : step meaning a s = some s') : (runs meaning program locals shared).next s a s' := h
  obtain ⟨background, left⟩ := run_body takes (by intro _ same; cases same) comes (.start rfl)
  cases set : result.handler with
  | none =>
      rw [set] at left cleaned
      simp only [Option.getD_none, runAll, Option.some.injEq] at cleaned
      subst cleaned
      exact ⟨_, rfl, left⟩
  | some handler =>
      rw [set] at left cleaned
      have done := run_all takes (fun rest => .cleanup rest result.status) (fun _ _ _ _ _ => rfl) cleaned left
      exact ⟨⟨.exited result.status, next.1, background⟩, rfl, run_advance takes rfl done⟩

end

end ShellPrograms

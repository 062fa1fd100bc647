/-
Module: Experimaestro.Launchers.EnvMatcher
Layer: Launchers
Purpose: How the id of an OAR job is found in the output of its submission, which comes in chunks. A matcher compares
  the output with the prefix of the id. After a mismatch it begins again with the next byte, so that it passes over an
  occurrence that begins inside a failed attempt; after the line of the id it compares with the end of the prefix,
  and goes on with the search behind the next byte. What it gathers follows from the way in which the output divides
  into attempts and lines; whether this is the id is decided by the occurrences that the attempts come to.
Imports: Experimaestro.Configuration.Values (strings), Experimaestro.Library.Separators
Trusted boundary: human-reviewed model of EnvMatcher
Main exports: EnvMatcher, processByte, process, FailedAttempts, Phase, Gathers, process_iff, FirstOccurrence,
  ExtractsId, Reached, HoldsFor, Repeated, extracts_id, job_id_missed
Open obligations: none
-/
import Mathlib.Tactic.Common
import Mathlib.Data.List.Infix
import Mathlib.Data.List.TakeWhile
import Experimaestro.Configuration.Values
import Experimaestro.Library.Separators

namespace Experimaestro.Launchers

open Experimaestro.Configuration (Str str)
open Separators (split_at_first_unique)

/-! ### The matcher -/

/-- `'\n'` -/
def newline : UInt8 := 10

/-- `EnvMatcher`. -/
structure EnvMatcher where
  prefixText : Str
  pos : ℕ := 0
  value : Str := []
  reading : Bool := false
deriving DecidableEq, Repr

/-- `prefix[pos]`: the end of a text reads as NUL, and behind it nothing may be read. -/
def charAt (text : Str) (pos : ℕ) : Option UInt8 := if pos = text.length then some 0 else text[pos]?

namespace EnvMatcher

/-- The body of the loop of `process`; `none` where the prefix is read behind its end. -/
def processByte (m : EnvMatcher) (byte : UInt8) : Option EnvMatcher :=
  if m.reading then
    if byte = newline then some { m with reading := false } else some { m with value := m.value ++ [byte] }
  else
    match charAt m.prefixText m.pos with
    | none => none
    | some c =>
        if byte ≠ c then some { m with pos := 0 }
        else some { m with pos := m.pos + 1, reading := m.prefixText.length ≤ m.pos + 1 }

/-- `EnvMatcher::process`. -/
def process : Str → EnvMatcher → Option EnvMatcher
  | [], m => some m
  | byte :: bytes, m => (m.processByte byte).bind (process bytes)

/-- The chunks, one after the other. -/
def processAll : List Str → EnvMatcher → Option EnvMatcher
  | [], m => some m
  | chunk :: chunks, m => (process chunk m).bind (processAll chunks)

theorem process_append (bytes others : Str) (m : EnvMatcher) :
    process (bytes ++ others) m = (process bytes m).bind (process others) := by
  induction bytes generalizing m with
  | nil => rfl
  | cons byte bytes ih =>
      rw [List.cons_append, process, process]
      cases m.processByte byte with
      | none => rfl
      | some next => exact ih next

/-- How the bytes are cut into chunks makes no difference. -/
theorem processAll_eq (chunks : List Str) (m : EnvMatcher) : processAll chunks m = process chunks.flatten m := by
  induction chunks generalizing m with
  | nil => rfl
  | cons chunk chunks ih =>
      rw [processAll, List.flatten_cons, process_append]
      cases process chunk m with
      | none => rfl
      | some next => exact ih next

end EnvMatcher

/-! ### How a text divides -/

/-- Failed attempts: each is a beginning of the prefix, and a byte that does not continue it. -/
inductive FailedAttempts (p : Str) : Str → Prop where
  | none : FailedAttempts p []
  | attempt {q rest u : Str} {c byte : UInt8} (beginning : q ++ c :: rest = p) (mismatch : byte ≠ c)
      (later : FailedAttempts p u) : FailedAttempts p (q ++ byte :: u)

/-- Where the matcher is: before an occurrence, in the line behind one, or behind such a line. -/
inductive Phase where
  | search
  | line
  | behind
deriving DecidableEq, Repr

/-- The lines behind the occurrences that the attempts come to, one after the other. -/
inductive Gathers (p : Str) : Phase → Str → Str → Prop where
  /-- The text ends in an attempt. -/
  | unseen {u q rest : Str} {c : UInt8} (attempts : FailedAttempts p u) (beginning : q ++ c :: rest = p) :
      Gathers p .search (u ++ q) []
  | found {u t v : Str} (attempts : FailedAttempts p u) (later : Gathers p .line t v) :
      Gathers p .search (u ++ (p ++ t)) v
  | lastLine {line : Str} (single : newline ∉ line) : Gathers p .line line line
  | line {line t v : Str} (single : newline ∉ line) (later : Gathers p .behind t v) :
      Gathers p .line (line ++ newline :: t) (line ++ v)
  | nothing : Gathers p .behind [] []
  /-- The byte behind a line is compared with the end of the prefix, and skipped. -/
  | skipped {c : UInt8} {t v : Str} (other : c ≠ 0) (later : Gathers p .search t v) : Gathers p .behind (c :: t) v
  /-- NUL is the end of the prefix: another line is read, and nothing may follow it. -/
  | nul {line : Str} (single : newline ∉ line) : Gathers p .behind (0 :: line) line
  | nulLine {line : Str} (single : newline ∉ line) : Gathers p .behind (0 :: (line ++ [newline])) line

/-! ### The matcher gathers the lines -/

section

variable {p : Str} {value : Str}

/-- The state of the matcher in a phase. -/
def Phase.state (p value : Str) : Phase → EnvMatcher
  | .search => { prefixText := p, pos := 0, value := value, reading := false }
  | .line => { prefixText := p, pos := p.length, value := value, reading := true }
  | .behind => { prefixText := p, pos := p.length, value := value, reading := false }

theorem charAt_of_split {q rest : Str} {c : UInt8} (split : q ++ c :: rest = p) : charAt p q.length = some c := by
  have inside : q.length ≠ p.length := by
    rw [← split, List.length_append, List.length_cons]
    omega
  rw [charAt, if_neg inside, ← split]
  simp

/-- A byte that continues an attempt. -/
theorem processByte_match {q rest : Str} {c : UInt8} (split : q ++ c :: rest = p) (value : Str) :
    EnvMatcher.processByte { prefixText := p, pos := q.length, value := value, reading := false } c =
      some { prefixText := p, pos := (q ++ [c]).length, value := value, reading := decide (rest = []) } := by
  have complete : decide (p.length ≤ q.length + 1) = decide (rest = []) := by
    rw [← split, List.length_append, List.length_cons, decide_eq_decide, ← List.length_eq_zero_iff]
    omega
  rw [EnvMatcher.processByte, if_neg Bool.false_ne_true]
  simp only [charAt_of_split split, ne_eq, not_true_eq_false, if_false, complete, List.length_append,
    List.length_singleton]

/-- A byte that does not. -/
theorem processByte_mismatch {q rest : Str} {c byte : UInt8} (split : q ++ c :: rest = p) (other : byte ≠ c)
    (value : Str) :
    EnvMatcher.processByte { prefixText := p, pos := q.length, value := value, reading := false } byte =
      some (Phase.search.state p value) := by
  rw [EnvMatcher.processByte, if_neg Bool.false_ne_true]
  simp only [charAt_of_split split, if_pos other]
  rfl

/-- A beginning of the prefix, from some position on. -/
theorem process_beginning (value : Str) : ∀ (r : Str) {q rest : Str} {c : UInt8}, q ++ (r ++ c :: rest) = p →
    ∀ t, EnvMatcher.process (r ++ t) { prefixText := p, pos := q.length, value := value, reading := false } =
      EnvMatcher.process t { prefixText := p, pos := (q ++ r).length, value := value, reading := false }
  | [], q, rest, c, _, t => by rw [List.nil_append, List.append_nil]
  | byte :: r, q, rest, c, split, t => by
      have split' : q ++ byte :: (r ++ c :: rest) = p := split
      rw [List.cons_append, EnvMatcher.process, processByte_match split', Option.bind_some]
      have more : decide (r ++ c :: rest = []) = false := by simp
      have further : (q ++ [byte]) ++ (r ++ c :: rest) = p := by
        rw [← split]
        simp
      rw [more, process_beginning value r further t, List.append_assoc, List.singleton_append]

/-- An attempt that fails leads back to the search. -/
theorem process_attempts {u : Str} (attempts : FailedAttempts p u) (t : Str) :
    EnvMatcher.process (u ++ t) (Phase.search.state p value) = EnvMatcher.process t (Phase.search.state p value) := by
  induction attempts with
  | none => rfl
  | @attempt q rest u c byte beginning mismatch later ih =>
      have begun := process_beginning (p := p) value q (q := []) beginning (byte :: (u ++ t))
      rw [List.append_assoc, List.cons_append, Phase.state]
      rw [List.length_nil, List.nil_append] at begun
      rw [begun, EnvMatcher.process, processByte_mismatch beginning mismatch, Option.bind_some]
      exact ih

/-- An occurrence leads to its line. -/
theorem process_occurrence (filled : p ≠ []) (t : Str) :
    EnvMatcher.process (p ++ t) (Phase.search.state p value) = EnvMatcher.process t (Phase.line.state p value) := by
  obtain ⟨q, c, split⟩ : ∃ q c, p = q ++ [c] :=
    ⟨p.dropLast, p.getLast filled, (List.dropLast_append_getLast filled).symm⟩
  have begun := process_beginning (p := p) value q (q := []) split.symm (c :: t)
  rw [List.length_nil, List.nil_append] at begun
  have whole : p ++ t = q ++ c :: t := by
    rw [split]
    simp
  rw [whole, Phase.state, begun, EnvMatcher.process, processByte_match split.symm, Option.bind_some, ← split]
  rfl

/-- The bytes of a line are added to the value. -/
theorem process_line {line : Str} (single : newline ∉ line) (t : Str) (pos : ℕ) (value : Str) :
    EnvMatcher.process (line ++ t) { prefixText := p, pos := pos, value := value, reading := true } =
      EnvMatcher.process t { prefixText := p, pos := pos, value := value ++ line, reading := true } := by
  induction line generalizing value with
  | nil => rw [List.nil_append, List.append_nil]
  | cons byte line ih =>
      obtain ⟨other, others⟩ := List.ne_and_not_mem_of_not_mem_cons single
      rw [List.cons_append, EnvMatcher.process, EnvMatcher.processByte, if_pos rfl, if_neg (Ne.symm other),
        Option.bind_some, ih others, List.append_assoc, List.singleton_append]

/-- The end of a line. -/
theorem process_newline (t : Str) (pos : ℕ) (value : Str) :
    EnvMatcher.process (newline :: t) { prefixText := p, pos := pos, value := value, reading := true } =
      EnvMatcher.process t { prefixText := p, pos := pos, value := value, reading := false } := rfl

/-- Behind a line, NUL begins another one and other bytes are skipped. -/
theorem processByte_behind (byte : UInt8) (value : Str) :
    (Phase.behind.state p value).processByte byte =
      if byte = 0 then some { prefixText := p, pos := p.length + 1, value := value, reading := true }
      else some (Phase.search.state p value) := by
  have ends : charAt p p.length = some 0 := if_pos rfl
  have complete : p.length ≤ p.length + 1 := Nat.le_succ _
  show EnvMatcher.processByte { prefixText := p, pos := p.length, value := value, reading := false } byte = _
  rw [EnvMatcher.processByte, if_neg Bool.false_ne_true]
  simp only [ends]
  by_cases nul : byte = 0
  · rw [if_neg (not_not.mpr nul), if_pos nul, decide_eq_true complete]
  · rw [if_pos nul, if_neg nul]
    rfl

theorem process_nul (t : Str) :
    EnvMatcher.process (0 :: t) (Phase.behind.state p value) =
      EnvMatcher.process t { prefixText := p, pos := p.length + 1, value := value, reading := true } := by
  rw [EnvMatcher.process, processByte_behind, if_pos rfl, Option.bind_some]

theorem process_skip {byte : UInt8} (other : byte ≠ 0) (t : Str) :
    EnvMatcher.process (byte :: t) (Phase.behind.state p value) =
      EnvMatcher.process t (Phase.search.state p value) := by
  rw [EnvMatcher.process, processByte_behind, if_neg other, Option.bind_some]

/-- The matcher gathers the lines, in each phase. -/
theorem process_of_gathers (filled : p ≠ []) {phase : Phase} {t v : Str} (gathers : Gathers p phase t v) :
    (EnvMatcher.process t (phase.state p value)).map EnvMatcher.value = some (value ++ v) := by
  induction gathers generalizing value with
  | @unseen u q rest c attempts beginning =>
      have begun := process_beginning (p := p) value q (q := []) beginning []
      rw [List.length_nil, List.nil_append, List.append_nil] at begun
      rw [process_attempts attempts, Phase.state, begun, List.append_nil]
      rfl
  | found attempts later ih => rw [process_attempts attempts, process_occurrence filled, ih]
  | @lastLine line single =>
      have read := process_line (p := p) single [] p.length value
      rw [List.append_nil] at read
      rw [Phase.state, read]
      rfl
  | line single later ih =>
      rw [Phase.state, process_line single, process_newline]
      exact ih.trans (by rw [List.append_assoc])
  | nothing =>
      rw [List.append_nil]
      rfl
  | skipped other later ih => rw [process_skip other, ih]
  | @nul line single =>
      have read := process_line (p := p) single [] (p.length + 1) value
      rw [List.append_nil] at read
      rw [process_nul, read]
      rfl
  | nulLine single =>
      rw [process_nul, process_line single, process_newline]
      rfl

/-! ### What the matcher gathers is in the text -/

/-- A failed attempt before the text makes no difference. -/
theorem Gathers.attempt {q rest t v : Str} {c byte : UInt8} (beginning : q ++ c :: rest = p) (mismatch : byte ≠ c)
    (gathers : Gathers p .search t v) : Gathers p .search (q ++ byte :: t) v := by
  cases gathers with
  | @unseen u q' rest' c' attempts beginning' =>
      have whole : q ++ byte :: (u ++ q') = (q ++ byte :: u) ++ q' := by simp
      rw [whole]
      exact .unseen (.attempt beginning mismatch attempts) beginning'
  | @found u t v attempts later =>
      have whole : q ++ byte :: (u ++ (p ++ t)) = (q ++ byte :: u) ++ (p ++ t) := by simp
      rw [whole]
      exact .found (.attempt beginning mismatch attempts) later

/-- A byte before a line belongs to it. -/
theorem Gathers.cons_line {t v : Str} {byte : UInt8} (other : byte ≠ newline) (gathers : Gathers p .line t v) :
    Gathers p .line (byte :: t) (byte :: v) := by
  cases gathers with
  | lastLine single => exact .lastLine (List.not_mem_cons_of_ne_of_not_mem other.symm single)
  | @line line t v single later => exact .line (List.not_mem_cons_of_ne_of_not_mem other.symm single) later

/-- Behind NUL there is one more line, and nothing after it. -/
theorem gathers_nul {t : Str} {m : EnvMatcher}
    (ended : EnvMatcher.process t { prefixText := p, pos := p.length + 1, value := value, reading := true } = some m) :
    ∃ v, m.value = value ++ v ∧ Gathers p .behind (0 :: t) v := by
  by_cases single : newline ∉ t
  · have read := process_line (p := p) single [] (p.length + 1) value
    rw [List.append_nil] at read
    rw [read] at ended
    cases ended
    exact ⟨t, rfl, .nul single⟩
  · obtain ⟨line, rest, rfl, apart⟩ := List.eq_append_cons_of_mem (not_not.mp single)
    rw [process_line apart, process_newline] at ended
    cases rest with
    | nil =>
        cases ended
        exact ⟨line, rfl, .nulLine apart⟩
    | cons byte rest =>
        have outside : charAt p (p.length + 1) = none := by
          rw [charAt, if_neg (Nat.succ_ne_self _)]
          exact List.getElem?_eq_none (Nat.le_succ _)
        rw [EnvMatcher.process, EnvMatcher.processByte, if_neg Bool.false_ne_true] at ended
        simp only [outside, Option.bind_none] at ended
        cases ended

/-- What the matcher adds for a text is what the text gathers: within an attempt, in a line, and behind one. -/
structure Reads (p t : Str) : Prop where
  search : ∀ {q rest : Str} {c : UInt8} {value m}, q ++ c :: rest = p →
    EnvMatcher.process t { prefixText := p, pos := q.length, value := value, reading := false } = some m →
      ∃ v, m.value = value ++ v ∧ Gathers p .search (q ++ t) v
  line : ∀ {value m}, EnvMatcher.process t (Phase.line.state p value) = some m →
    ∃ v, m.value = value ++ v ∧ Gathers p .line t v
  behind : ∀ {value m}, EnvMatcher.process t (Phase.behind.state p value) = some m →
    ∃ v, m.value = value ++ v ∧ Gathers p .behind t v

theorem reads_nil : Reads p [] where
  search := by
    intro q rest c value m split ended
    cases ended
    rw [List.append_nil]
    exact ⟨[], (List.append_nil value).symm, .unseen .none split⟩
  line := by
    intro value m ended
    cases ended
    exact ⟨[], (List.append_nil value).symm, .lastLine List.not_mem_nil⟩
  behind := by
    intro value m ended
    cases ended
    exact ⟨[], (List.append_nil value).symm, .nothing⟩

/-- A search begins with the empty attempt. -/
theorem Reads.start {t : Str} {m : EnvMatcher} (reads : Reads p t) (filled : p ≠ [])
    (ended : EnvMatcher.process t (Phase.search.state p value) = some m) :
    ∃ v, m.value = value ++ v ∧ Gathers p .search t v := by
  obtain ⟨first, others, split⟩ := List.exists_cons_of_ne_nil filled
  exact reads.search (q := []) split.symm ended

/-- A byte continues an attempt, completes the prefix, or ends the attempt. -/
theorem Reads.search_cons {t q rest : Str} {byte c : UInt8} {m : EnvMatcher} (reads : Reads p t) (filled : p ≠ [])
    (split : q ++ c :: rest = p)
    (ended : EnvMatcher.process (byte :: t)
      { prefixText := p, pos := q.length, value := value, reading := false } = some m) :
    ∃ v, m.value = value ++ v ∧ Gathers p .search (q ++ byte :: t) v := by
  rw [EnvMatcher.process] at ended
  by_cases same : byte = c
  · rw [same, processByte_match split, Option.bind_some] at ended
    rw [same]
    cases rest with
    | nil =>
        rw [split] at ended
        obtain ⟨v, added, gathers⟩ := reads.line ended
        refine ⟨v, added, ?_⟩
        have whole : q ++ c :: t = [] ++ (p ++ t) := by
          rw [← split]
          simp
        rw [whole]
        exact .found .none gathers
    | cons d rest =>
        have further : (q ++ [c]) ++ d :: rest = p := by
          rw [← split]
          simp
        have later := reads.search further ended
        rwa [List.append_assoc, List.singleton_append] at later
  · rw [processByte_mismatch split same, Option.bind_some] at ended
    obtain ⟨v, added, gathers⟩ := reads.start filled ended
    exact ⟨v, added, gathers.attempt split same⟩

/-- A byte ends the line, or is added to it. -/
theorem Reads.line_cons {t : Str} {byte : UInt8} {m : EnvMatcher} (reads : Reads p t)
    (ended : EnvMatcher.process (byte :: t) (Phase.line.state p value) = some m) :
    ∃ v, m.value = value ++ v ∧ Gathers p .line (byte :: t) v := by
  by_cases same : byte = newline
  · rw [same, Phase.state, process_newline] at ended
    obtain ⟨v, added, gathers⟩ := reads.behind ended
    rw [same]
    exact ⟨v, added, .line List.not_mem_nil gathers⟩
  · have single : newline ∉ [byte] := fun here => same (List.mem_singleton.mp here).symm
    have read := process_line (p := p) single t p.length value
    rw [List.singleton_append] at read
    rw [Phase.state, read] at ended
    obtain ⟨v, added, gathers⟩ := reads.line ended
    exact ⟨byte :: v, by rw [added, List.append_assoc, List.singleton_append], gathers.cons_line same⟩

/-- A byte behind a line is skipped, or begins another line. -/
theorem Reads.behind_cons {t : Str} {byte : UInt8} {m : EnvMatcher} (reads : Reads p t) (filled : p ≠ [])
    (ended : EnvMatcher.process (byte :: t) (Phase.behind.state p value) = some m) :
    ∃ v, m.value = value ++ v ∧ Gathers p .behind (byte :: t) v := by
  by_cases nul : byte = 0
  · rw [nul, process_nul] at ended
    rw [nul]
    exact gathers_nul ended
  · rw [process_skip nul] at ended
    obtain ⟨v, added, gathers⟩ := reads.start filled ended
    exact ⟨v, added, .skipped nul gathers⟩

theorem reads_all (filled : p ≠ []) (t : Str) : Reads p t := by
  induction t with
  | nil => exact reads_nil
  | cons byte t reads =>
      constructor
      · exact reads.search_cons filled
      · exact reads.line_cons
      · exact reads.behind_cons filled

/-- The value of the matcher is what the text gathers; there is none exactly if the prefix is read behind its end. -/
theorem process_iff (filled : p ≠ []) (phase : Phase) (t v : Str) :
    (EnvMatcher.process t (phase.state p [])).map EnvMatcher.value = some v ↔ Gathers p phase t v := by
  constructor
  · intro ended
    obtain ⟨m, processed, rfl⟩ := Option.map_eq_some_iff.mp ended
    have reads := reads_all filled t
    have gathered : ∃ v, m.value = [] ++ v ∧ Gathers p phase t v := by
      cases phase with
      | search => exact reads.start filled processed
      | line => exact reads.line processed
      | behind => exact reads.behind processed
    obtain ⟨v, added, gathers⟩ := gathered
    rw [added]
    exact gathers
  · intro gathers
    rw [process_of_gathers filled gathers, List.nil_append]

end

/-! ### The id of the job -/

/-- The text up to the next end of a line. -/
def firstLine (v : Str) : Str := v.takeWhile (· != newline)

/-- The first occurrence of the prefix, between what precedes it and what follows it. -/
structure FirstOccurrence (p t u v : Str) : Prop where
  split : t = u ++ (p ++ v)
  first : ∀ u' v', t = u' ++ (p ++ v') → u.length ≤ u'.length

/-- The value after the last chunk is the line behind the first occurrence, and empty if there is none. -/
def ExtractsId (p : Str) (chunks : List Str) : Prop :=
  ∃ m, EnvMatcher.processAll chunks { prefixText := p } = some m ∧
    ((¬p <:+: chunks.flatten ∧ m.value = []) ∨
      ∃ u v, FirstOccurrence p chunks.flatten u v ∧ m.value = firstLine v)

/-- What precedes an occurrence that the attempts come to: failed attempts; or these, another such occurrence with its
line, one byte that is skipped, and so on. -/
inductive Reached (p : Str) : Str → Prop where
  | first {u : Str} (attempts : FailedAttempts p u) : Reached p u
  | later {u line w : Str} {c : UInt8} (attempts : FailedAttempts p u) (single : newline ∉ line) (other : c ≠ 0)
      (reached : Reached p w) : Reached p (u ++ (p ++ (line ++ newline :: c :: w)))

/-- A NUL directly behind the line of such an occurrence is the end of the text, but for one more newline. -/
def EndsAtNul (p t : Str) : Prop :=
  ∀ u line rest, t = u ++ (p ++ (line ++ newline :: 0 :: rest)) → Reached p u → newline ∉ line →
    rest = [] ∨ rest = [newline]

/-- The prefix does not occur; or the attempts come to its first occurrence, or nothing stands in the line of that, and
all other occurrences that the attempts come to have empty lines. -/
def HoldsFor (p t : Str) : Prop :=
  ¬p <:+: t ∨ ∃ u v, FirstOccurrence p t u v ∧ (FailedAttempts p u ∨ firstLine v = []) ∧
    (∀ u' v', t = u' ++ (p ++ v') → Reached p u' → u' ≠ u → firstLine v' = []) ∧ EndsAtNul p t

/-- The attempts pass over the first occurrence, with a line that is not empty, and come to another one. -/
def Repeated (p t : Str) : Prop :=
  ∃ u v, FirstOccurrence p t u v ∧ ¬FailedAttempts p u ∧ firstLine v ≠ [] ∧
    ∃ u' v', t = u' ++ (p ++ v') ∧ u' ≠ u ∧ Reached p u'

section

variable {p t : Str}

theorem firstLine_of_not_mem {v : Str} (single : newline ∉ v) : firstLine v = v := by
  apply List.takeWhile_eq_self_iff.mpr
  intro c member
  exact bne_iff_ne.mpr fun same => single (same ▸ member)

theorem firstLine_append {line : Str} (single : newline ∉ line) (rest : Str) :
    firstLine (line ++ newline :: rest) = line := by
  have all : ∀ c ∈ line, (c != newline) = true := fun c member =>
    bne_iff_ne.mpr fun same => single (same ▸ member)
  rw [firstLine, List.takeWhile_append_of_pos all]
  simp

theorem FirstOccurrence.unique {u v u' v' : Str} (one : FirstOccurrence p t u v) (two : FirstOccurrence p t u' v') :
    u = u' ∧ v = v' := by
  have lengths := Nat.le_antisymm (one.first u' v' two.split) (two.first u v one.split)
  obtain ⟨fronts, rests⟩ := List.append_inj (one.split.symm.trans two.split) lengths
  exact ⟨fronts, List.append_cancel_left rests⟩

theorem FirstOccurrence.occurs {u v : Str} (first : FirstOccurrence p t u v) : p <:+: t :=
  ⟨u, v, by rw [first.split, List.append_assoc]⟩

/-- The attempts come to an occurrence, or the text ends in one of them. -/
theorem attempts_total (filled : p ≠ []) (t : Str) :
    (∃ u q rest c, t = u ++ q ∧ FailedAttempts p u ∧ q ++ c :: rest = p) ∨
      ∃ u v, t = u ++ (p ++ v) ∧ FailedAttempts p u := by
  have run (t : Str) : ∀ {q rest : Str} {c : UInt8}, q ++ c :: rest = p →
      (∃ u q' rest c, q ++ t = u ++ q' ∧ FailedAttempts p u ∧ q' ++ c :: rest = p) ∨
        ∃ u v, q ++ t = u ++ (p ++ v) ∧ FailedAttempts p u := by
    induction t with
    | nil =>
        intro q rest c split
        exact .inl ⟨[], q, rest, c, List.append_nil q, .none, split⟩
    | cons byte t ih =>
        intro q rest c split
        by_cases same : byte = c
        · cases rest with
          | nil =>
              refine .inr ⟨[], t, ?_, .none⟩
              rw [← split, same]
              simp
          | cons d rest =>
              have further : (q ++ [c]) ++ d :: rest = p := by
                rw [← split]
                simp
              have later := ih further
              rw [List.append_assoc, List.singleton_append] at later
              rw [same]
              exact later
        · obtain ⟨first, others, start⟩ := List.exists_cons_of_ne_nil filled
          cases ih (q := []) start.symm with
          | inl ends =>
              obtain ⟨u, q', rest', c', text, attempts, split'⟩ := ends
              refine .inl ⟨q ++ byte :: u, q', rest', c', ?_, .attempt split same attempts, split'⟩
              rw [List.append_assoc, List.cons_append, ← text, List.nil_append]
          | inr occurs =>
              obtain ⟨u, v, text, attempts⟩ := occurs
              refine .inr ⟨q ++ byte :: u, v, ?_, .attempt split same attempts⟩
              rw [List.append_assoc, List.cons_append, ← text, List.nil_append]
  obtain ⟨first, others, start⟩ := List.exists_cons_of_ne_nil filled
  exact run t (q := []) start.symm

/-- Without an occurrence nothing is gathered. -/
theorem gathers_of_not_occurs (filled : p ≠ []) (absent : ¬p <:+: t) : Gathers p .search t [] := by
  cases attempts_total filled t with
  | inl ends =>
      obtain ⟨u, q, rest, c, rfl, attempts, split⟩ := ends
      exact .unseen attempts split
  | inr occurs =>
      obtain ⟨u, v, text, _⟩ := occurs
      exact absurd ⟨u, v, by rw [text, List.append_assoc]⟩ absent

/-- What follows the line adds nothing. -/
def Quiet (p v : Str) : Prop :=
  ∀ line rest, v = line ++ newline :: rest → newline ∉ line → Gathers p .behind rest []

/-- A line is gathered alone if what follows it adds nothing. -/
theorem gathers_line_iff (v : Str) : Gathers p .line v (firstLine v) ↔ Quiet p v := by
  constructor
  · intro gathers line rest split single
    generalize gathered : firstLine v = w at gathers
    cases gathers with
    | lastLine none =>
        rw [split] at none
        exact absurd (List.mem_append_right line List.mem_cons_self) none
    | @line line' rest' w single' later =>
        obtain ⟨lines, rests⟩ := split_at_first_unique single' single split
        rw [firstLine_append single'] at gathered
        have nothing : w = [] := List.self_eq_append_right.mp gathered
        rw [← rests, ← nothing]
        exact later
  · intro quiet
    by_cases single : newline ∉ v
    · rw [firstLine_of_not_mem single]
      exact .lastLine single
    · obtain ⟨line, rest, rfl, apart⟩ := List.eq_append_cons_of_mem (not_not.mp single)
      have alone : Gathers p .line (line ++ newline :: rest) (line ++ []) :=
        .line apart (quiet line rest rfl apart)
      rw [firstLine_append apart]
      rwa [List.append_nil] at alone

/-- Where the attempts come to an occurrence, its line is gathered alone if what follows it adds nothing. -/
theorem gathers_occurrence_iff (filled : p ≠ []) {u v : Str} (split : t = u ++ (p ++ v))
    (attempts : FailedAttempts p u) : Gathers p .search t (firstLine v) ↔ Quiet p v := by
  rw [← process_iff filled, split, process_attempts attempts, process_occurrence filled, process_iff filled,
    gathers_line_iff]

/-! ### Occurrences that are reached -/

/-- An attempt fails at one byte only. -/
theorem attempt_unique : ∀ {q q' rest rest' : Str} {c c' byte byte' : UInt8} {t t' : Str},
    q ++ c :: rest = q' ++ c' :: rest' → byte ≠ c → byte' ≠ c' → q ++ byte :: t = q' ++ byte' :: t' →
      q = q' ∧ byte = byte' ∧ t = t'
  | [], [], _, _, _, _, _, _, _, _, _, _, _, same => ⟨rfl, List.cons.inj same⟩
  | [], d :: q', _, _, _, _, _, _, _, _, whole, mismatch, _, same =>
      absurd ((List.cons.inj same).1.trans (List.cons.inj whole).1.symm) mismatch
  | d :: q, [], _, _, _, _, _, _, _, _, whole, _, mismatch, same =>
      absurd ((List.cons.inj same).1.symm.trans (List.cons.inj whole).1) mismatch
  | d :: q, d' :: q', _, _, _, _, _, _, _, _, whole, mismatch, mismatch', same => by
      obtain ⟨head, tails⟩ := List.cons.inj whole
      have rests := (List.cons.inj same).2
      obtain ⟨equal, others⟩ := attempt_unique tails mismatch mismatch' rests
      exact ⟨by rw [head, equal], others⟩

/-- An attempt that fails is no occurrence. -/
theorem attempt_ne_occurrence {q rest t v : Str} {c byte : UInt8} (beginning : q ++ c :: rest = p)
    (mismatch : byte ≠ c) : q ++ byte :: t ≠ p ++ v := by
  intro same
  rw [← beginning, List.append_assoc] at same
  exact mismatch (List.cons.inj (List.append_cancel_left same)).1

/-- The attempts come to one occurrence first. -/
theorem attempts_unique {u u' v v' : Str} (one : FailedAttempts p u) (two : FailedAttempts p u')
    (same : u ++ (p ++ v) = u' ++ (p ++ v')) : u = u' := by
  induction one generalizing u' with
  | none =>
      cases two with
      | none => rfl
      | attempt beginning mismatch later =>
          rw [List.nil_append, List.append_assoc] at same
          exact absurd same.symm (attempt_ne_occurrence beginning mismatch)
  | attempt beginning mismatch later ih =>
      cases two with
      | none =>
          rw [List.nil_append, List.append_assoc] at same
          exact absurd same (attempt_ne_occurrence beginning mismatch)
      | attempt beginning' mismatch' later' =>
          rw [List.append_assoc, List.append_assoc] at same
          obtain ⟨rfl, rfl, others⟩ :=
            attempt_unique (beginning.trans beginning'.symm) mismatch mismatch' same
          rw [ih later' others]

/-- The search goes on behind what precedes an occurrence that is reached. -/
theorem process_reached (filled : p ≠ []) {u : Str} (reached : Reached p u) (value : Str) :
    ∃ read, ∀ t, EnvMatcher.process (u ++ t) (Phase.search.state p value) =
      EnvMatcher.process t (Phase.search.state p (value ++ read)) := by
  induction reached generalizing value with
  | first attempts =>
      refine ⟨[], fun t => ?_⟩
      rw [process_attempts attempts, List.append_nil]
  | @later u line w c attempts single other reached ih =>
      obtain ⟨read, goes⟩ := ih (value ++ line)
      refine ⟨line ++ read, fun t => ?_⟩
      have text : u ++ (p ++ (line ++ newline :: c :: w)) ++ t = u ++ (p ++ (line ++ newline :: c :: (w ++ t))) := by
        simp
      have begins := process_line (p := p) single (newline :: c :: (w ++ t)) p.length value
      have ends := process_newline (p := p) (c :: (w ++ t)) p.length (value ++ line)
      rw [text, process_attempts attempts, process_occurrence filled, ← List.append_assoc, ← goes]
      exact (begins.trans ends).trans (process_skip other (w ++ t))

/-- The line behind an occurrence that is reached is gathered. -/
theorem gathers_reached (filled : p ≠ []) {u v : Str} (reached : Reached p u)
    (gathers : Gathers p .search (u ++ (p ++ v)) []) : Gathers p .line v [] := by
  obtain ⟨m, processed, empty⟩ := Option.map_eq_some_iff.mp ((process_iff filled .search _ _).mpr gathers)
  obtain ⟨read, goes⟩ := process_reached filled reached []
  rw [goes, process_occurrence filled] at processed
  obtain ⟨w, added, line⟩ := (reads_all filled v).line processed
  rw [empty, eq_comm, List.append_eq_nil_iff] at added
  rw [← added.2]
  exact line

theorem firstLine_of_gathers {v w : Str} (gathers : Gathers p .line v w) (silent : w = []) : firstLine v = [] := by
  cases gathers with
  | lastLine single =>
      rw [silent]
      rfl
  | @line line t w single later =>
      rw [firstLine_append single]
      exact (List.append_eq_nil_iff.mp silent).1

theorem behind_of_gathers {rest w : Str} (gathers : Gathers p .behind rest w) (silent : w = []) :
    rest = [] ∨ (∃ x, rest = 0 :: x ∧ (x = [] ∨ x = [newline])) ∨
      ∃ c r, rest = c :: r ∧ c ≠ 0 ∧ Gathers p .search r [] := by
  cases gathers with
  | nothing => exact .inl rfl
  | @skipped c r w other later => exact .inr (.inr ⟨c, r, rfl, other, silent ▸ later⟩)
  | nul single => exact .inr (.inl ⟨w, rfl, .inl silent⟩)
  | nulLine single => exact .inr (.inl ⟨w ++ [newline], rfl, .inr (by rw [silent]; rfl)⟩)

/-- Behind a line nothing is gathered at the end, at a NUL that is followed by nothing, and where nothing is gathered
behind a byte that is skipped. -/
theorem gathers_behind_iff (rest : Str) :
    Gathers p .behind rest [] ↔ rest = [] ∨ (∃ x, rest = 0 :: x ∧ (x = [] ∨ x = [newline])) ∨
      ∃ c r, rest = c :: r ∧ c ≠ 0 ∧ Gathers p .search r [] := by
  constructor
  · exact fun gathers => behind_of_gathers gathers rfl
  · rintro (rfl | ⟨x, rfl, rfl | rfl⟩ | ⟨c, r, rfl, other, later⟩)
    · exact .nothing
    · exact .nul List.not_mem_nil
    · exact .nulLine List.not_mem_nil
    · exact .skipped other later

/-- All occurrences that are reached have empty lines. -/
structure Calm (p t : Str) : Prop where
  lines : ∀ u v, t = u ++ (p ++ v) → Reached p u → firstLine v = []
  nul : EndsAtNul p t

/-- What is calm is calm behind an empty line. -/
theorem Calm.behind {u line r : Str} {c : UInt8} (calm : Calm p (u ++ (p ++ (line ++ newline :: c :: r))))
    (attempts : FailedAttempts p u) (single : newline ∉ line) (other : c ≠ 0) : Calm p r := by
  constructor
  · rintro w v rfl reached
    apply calm.lines (u ++ (p ++ (line ++ newline :: c :: w))) v _ (.later attempts single other reached)
    simp
  · rintro w line' rest rfl reached single'
    apply calm.nul (u ++ (p ++ (line ++ newline :: c :: w))) line' rest _
      (.later attempts single other reached) single'
    simp

/-- Nothing is gathered from a text exactly if it is calm. -/
theorem gathers_nothing_iff (filled : p ≠ []) (t : Str) : Gathers p .search t [] ↔ Calm p t := by
  constructor
  · intro gathers
    constructor
    · rintro u v rfl reached
      exact firstLine_of_gathers (gathers_reached filled reached gathers) rfl
    · rintro u line rest rfl reached single
      have line := gathers_reached filled reached gathers
      have quiet := (gathers_line_iff _).mp (by rwa [firstLine_of_gathers line rfl])
      rcases (gathers_behind_iff _).mp (quiet _ _ rfl single) with ends | ⟨x, same, final⟩ | ⟨c, r, same, other, _⟩
      · cases ends
      · cases same
        exact final
      · exact absurd (List.cons.inj same).1.symm other
  · intro calm
    -- the occurrences are followed from the front
    induction length : t.length using Nat.strongRecOn generalizing t with
    | ind n ih =>
        cases attempts_total filled t with
        | inl ends =>
            obtain ⟨u, q, rest, c, rfl, attempts, split⟩ := ends
            exact .unseen attempts split
        | inr occurs =>
            obtain ⟨u, v, rfl, attempts⟩ := occurs
            have empty := calm.lines u v rfl (.first attempts)
            refine .found attempts ?_
            rw [← empty, gathers_line_iff]
            rintro line rest rfl single
            apply (gathers_behind_iff rest).mpr
            cases rest with
            | nil => exact .inl rfl
            | cons c r =>
                by_cases nul : c = 0
                · subst nul
                  exact .inr (.inl ⟨r, rfl, calm.nul u line r rfl (.first attempts) single⟩)
                · refine .inr (.inr ⟨c, r, rfl, nul, ih r.length ?_ r (calm.behind attempts single nul) rfl⟩)
                  rw [← length]
                  simp only [List.length_append, List.length_cons]
                  omega

/-- What follows the line of the first occurrence that is reached adds nothing exactly if all others have empty
lines. -/
theorem quiet_iff (filled : p ≠ []) {u v : Str} (split : t = u ++ (p ++ v)) (attempts : FailedAttempts p u) :
    Quiet p v ↔
      (∀ u' v', t = u' ++ (p ++ v') → Reached p u' → u' ≠ u → firstLine v' = []) ∧ EndsAtNul p t := by
  constructor
  · intro quiet
    have behind {u₁ line w : Str} {c : UInt8} (before : FailedAttempts p u₁) (single : newline ∉ line) (other : c ≠ 0)
        (text : t = u₁ ++ (p ++ (line ++ newline :: c :: w))) : Calm p w := by
      have same := attempts_unique attempts before (split.symm.trans text)
      subst same
      have rests := List.append_cancel_left (List.append_cancel_left (split.symm.trans text))
      rcases (gathers_behind_iff _).mp (quiet line _ rests single) with ends | ⟨x, same, _⟩ | ⟨c', r, same, _, later⟩
      · cases ends
      · exact absurd (List.cons.inj same).1 other
      · rw [(List.cons.inj same).2]
        exact (gathers_nothing_iff filled r).mp later
    constructor
    · intro u' v' text reached different
      cases reached with
      | first before => exact absurd (attempts_unique before attempts (text.symm.trans split)) different
      | @later u₁ line w c before single other reached =>
          have calm : Calm p (w ++ (p ++ v')) := by
            apply behind before single other
            rw [text]
            simp
          exact calm.lines w v' rfl reached
    · intro u' line rest text reached single
      cases reached with
      | first before =>
          have same := attempts_unique attempts before (split.symm.trans text)
          subst same
          have rests := List.append_cancel_left (List.append_cancel_left (split.symm.trans text))
          rcases (gathers_behind_iff _).mp (quiet line _ rests single) with
            ends | ⟨x, same, final⟩ | ⟨c, r, same, other, _⟩
          · cases ends
          · cases same
            exact final
          · exact absurd (List.cons.inj same).1.symm other
      | @later u₁ line₁ w c before single₁ other reached =>
          have calm : Calm p (w ++ (p ++ (line ++ newline :: 0 :: rest))) := by
            apply behind before single₁ other
            rw [text]
            simp
          exact calm.nul w line rest rfl reached single
  · rintro ⟨lines, nul⟩ line rest rfl single
    apply (gathers_behind_iff rest).mpr
    cases rest with
    | nil => exact .inl rfl
    | cons c r =>
        by_cases zero : c = 0
        · subst zero
          exact .inr (.inl ⟨r, rfl, nul u line r split (.first attempts) single⟩)
        · refine .inr (.inr ⟨c, r, rfl, zero, (gathers_nothing_iff filled r).mpr ⟨?_, ?_⟩⟩)
          · rintro w v' rfl reached
            apply lines (u ++ (p ++ (line ++ newline :: c :: w))) v' _ (.later attempts single zero reached)
            · intro same
              have lengths := congrArg List.length same
              simp only [List.length_append, List.length_cons] at lengths
              omega
            · rw [split]
              simp
          · rintro w line' rest rfl reached single'
            apply nul (u ++ (p ++ (line ++ newline :: c :: w))) line' rest _
              (.later attempts single zero reached) single'
            rw [split]
            simp

/-- Before the first occurrence there is none that is reached. -/
theorem FirstOccurrence.reached {u v : Str} (first : FirstOccurrence p t u v) (reached : Reached p u) :
    FailedAttempts p u := by
  cases reached with
  | first attempts => exact attempts
  | @later u₁ line w c attempts single other reached =>
      have lengths := first.first u₁ (line ++ newline :: c :: (w ++ (p ++ v))) (by rw [first.split]; simp)
      simp only [List.length_append, List.length_cons] at lengths
      omega

/-- The property is about what the text gathers. -/
theorem extractsId_iff (filled : p ≠ []) (chunks : List Str) :
    ExtractsId p chunks ↔
      (¬p <:+: chunks.flatten ∧ Gathers p .search chunks.flatten []) ∨
        ∃ u v, FirstOccurrence p chunks.flatten u v ∧ Gathers p .search chunks.flatten (firstLine v) := by
  have gathered (w : Str) : (∃ m, EnvMatcher.processAll chunks { prefixText := p } = some m ∧ m.value = w) ↔
      Gathers p .search chunks.flatten w := by
    rw [EnvMatcher.processAll_eq, ← process_iff filled, Option.map_eq_some_iff]
    rfl
  unfold ExtractsId
  constructor
  · rintro ⟨m, processed, found⟩
    cases found with
    | inl absent => exact .inl ⟨absent.1, (gathered []).mp ⟨m, processed, absent.2⟩⟩
    | inr occurs =>
        obtain ⟨u, v, first, value⟩ := occurs
        exact .inr ⟨u, v, first, (gathered _).mp ⟨m, processed, value⟩⟩
  · intro found
    cases found with
    | inl absent =>
        obtain ⟨m, processed, value⟩ := (gathered []).mpr absent.2
        exact ⟨m, processed, .inl ⟨absent.1, value⟩⟩
    | inr occurs =>
        obtain ⟨u, v, first, gathers⟩ := occurs
        obtain ⟨m, processed, value⟩ := (gathered _).mpr gathers
        exact ⟨m, processed, .inr ⟨u, v, first, value⟩⟩

end

/-- The id is extracted from the chunks if the attempts come to the first occurrence, or its line is empty, and no other
line is added. If it is extracted in another way, then from other occurrences, the first one having been passed over. -/
theorem extracts_id {p : Str} (filled : p ≠ []) (chunks : List Str) :
    (HoldsFor p chunks.flatten → ExtractsId p chunks) ∧
      (ExtractsId p chunks → HoldsFor p chunks.flatten ∨ Repeated p chunks.flatten) := by
  rw [extractsId_iff filled]
  generalize chunks.flatten = t
  constructor
  · intro holds
    cases holds with
    | inl absent => exact .inl ⟨absent, gathers_of_not_occurs filled absent⟩
    | inr occurs =>
        obtain ⟨u, v, first, comes, lines, nul⟩ := occurs
        refine .inr ⟨u, v, first, ?_⟩
        by_cases attempts : FailedAttempts p u
        · apply (gathers_occurrence_iff filled first.split attempts).mpr
          exact (quiet_iff filled first.split attempts).mpr ⟨lines, nul⟩
        · rw [comes.resolve_left attempts]
          refine (gathers_nothing_iff filled t).mpr ⟨fun u' v' text reached => ?_, nul⟩
          apply lines u' v' text reached
          rintro rfl
          exact attempts (first.reached reached)
  · intro found
    cases found with
    | inl absent => exact .inl (.inl absent.1)
    | inr occurs =>
        obtain ⟨u, v, first, gathers⟩ := occurs
        by_cases attempts : FailedAttempts p u
        · have quiet := (gathers_occurrence_iff filled first.split attempts).mp gathers
          exact .inl (.inr ⟨u, v, first, .inl attempts, (quiet_iff filled first.split attempts).mp quiet⟩)
        · by_cases empty : firstLine v = []
          · rw [empty] at gathers
            have calm := (gathers_nothing_iff filled t).mp gathers
            exact .inl (.inr ⟨u, v, first, .inr empty, fun u' v' text reached _ => calm.lines u' v' text reached,
              calm.nul⟩)
          · refine .inr ⟨u, v, first, attempts, empty, ?_⟩
            cases attempts_total filled t with
            | inl ends =>
                -- nothing would be gathered
                obtain ⟨u', q, rest, c, text, before, split⟩ := ends
                have unread : Gathers p .search t [] := by
                  rw [text]
                  exact .unseen before split
                have one := (process_iff filled .search t _).mpr gathers
                have two := (process_iff filled .search t _).mpr unread
                exact absurd (Option.some.inj (one.symm.trans two)) empty
            | inr occurs =>
                obtain ⟨u', v', text, before⟩ := occurs
                refine ⟨u', v', text, ?_, .first before⟩
                rintro rfl
                exact attempts before

/-- The id in two chunks. -/
theorem extracts_id_submission :
    (HoldsFor (str "\nOAR_JOB_ID=") [str "submitted\nOAR_", str "JOB_ID=42\n"].flatten →
        ExtractsId (str "\nOAR_JOB_ID=") [str "submitted\nOAR_", str "JOB_ID=42\n"]) ∧
      (ExtractsId (str "\nOAR_JOB_ID=") [str "submitted\nOAR_", str "JOB_ID=42\n"] →
        HoldsFor (str "\nOAR_JOB_ID=") [str "submitted\nOAR_", str "JOB_ID=42\n"].flatten ∨
          Repeated (str "\nOAR_JOB_ID=") [str "submitted\nOAR_", str "JOB_ID=42\n"].flatten) :=
  extracts_id (by decide) _

/-- An empty line before the one of the id: the newline that ends an attempt is not taken as the beginning of the
next. -/
theorem job_id_missed :
    ¬∀ (p : Str) (chunks : List Str), p ≠ [] → 0 ∉ p → ExtractsId p chunks := by
  intro all
  obtain ⟨m, processed, found⟩ := all (str "\nOAR_JOB_ID=") [str "\n\nOAR_JOB_ID=5\n"] (by decide) (by decide)
  have missed : m.value = [] := by
    cases processed
    rfl
  have occurrence : [str "\n\nOAR_JOB_ID=5\n"].flatten = str "\n" ++ (str "\nOAR_JOB_ID=" ++ str "5\n") := by decide
  have first : FirstOccurrence (str "\nOAR_JOB_ID=") [str "\n\nOAR_JOB_ID=5\n"].flatten (str "\n") (str "5\n") := by
    refine ⟨occurrence, ?_⟩
    intro u' v' split
    cases u' with
    | nil =>
        have begins := congrArg (List.take (str "\nOAR_JOB_ID=").length) split
        rw [List.nil_append, List.take_left] at begins
        exact absurd begins (by decide)
    | cons c u' => exact Nat.succ_le_succ (Nat.zero_le u'.length)
  cases found with
  | inl absent => exact absent.1 first.occurs
  | inr occurs =>
      obtain ⟨u, v, other, value⟩ := occurs
      obtain ⟨-, rfl⟩ := first.unique other
      exact absurd (missed.symm.trans value) (by decide)

end Experimaestro.Launchers

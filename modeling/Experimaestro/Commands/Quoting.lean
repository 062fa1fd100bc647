/-
Module: Experimaestro.Commands.Quoting
Layer: Commands
Purpose: `ShScriptBuilder::protect_quoted` against the shell that reads its result between double quotes. It puts a
  backslash before double quotes and dollars; backquotes and backslashes stay as they are. So the shell reads the
  string back as long as there is no backquote in it, and each backslash comes before a character that it does not
  escape, also in the result.
Imports: Experimaestro.Configuration.Values (strings)
Trusted boundary: human-reviewed model of ShScriptBuilder::protect_quoted; readQuoted is what a shell does inside double
  quotes
Main exports: protectQuoted, quoted, readQuoted, readWord, Readable, read_protected, quoted_read_back
Open obligations: none
-/
import Mathlib.Tactic.Common
import Experimaestro.Configuration.Values

namespace Experimaestro.Commands

open Experimaestro.Configuration (Str str)

/-! ### The writer -/

/-- `'"'` -/
def doubleQuote : UInt8 := 34

/-- `'$'` -/
def dollar : UInt8 := 36

/-- The character that begins and ends a command substitution. -/
def backquote : UInt8 := 96

/-- `'\\'` -/
def backslash : UInt8 := 92

/-- `'\n'` -/
def newline : UInt8 := 10

/-- `ShScriptBuilder::protect_quoted`. -/
def protectQuoted : Str → Str
  | [] => []
  | c :: rest =>
      if c = doubleQuote ∨ c = dollar then backslash :: c :: protectQuoted rest else c :: protectQuoted rest

/-- What is written into scripts and commands. -/
def quoted (s : Str) : Str := doubleQuote :: protectQuoted s ++ [doubleQuote]

/-- A quote or dollar comes after a backslash in the result. -/
theorem protectQuoted_head (s : Str) {c : UInt8} (special : c = doubleQuote ∨ c = dollar) (rest : Str) :
    protectQuoted s ≠ c :: rest := by
  cases s with
  | nil => exact nofun
  | cons d s =>
      rw [protectQuoted]
      split
      case isTrue escaped =>
          intro same
          have added := (List.cons.inj same).1
          rw [← added] at special
          exact absurd special (by decide)
      case isFalse ordinary =>
          intro same
          exact ordinary ((List.cons.inj same).1 ▸ special)

/-- Different strings have different results. -/
theorem protectQuoted_injective {s t : Str} (same : protectQuoted s = protectQuoted t) : s = t := by
  induction s generalizing t with
  | nil =>
      cases t with
      | nil => rfl
      | cons d t =>
          rw [protectQuoted, protectQuoted] at same
          split at same <;> exact nomatch same
  | cons c s ih =>
      cases t with
      | nil =>
          rw [protectQuoted, protectQuoted] at same
          split at same <;> exact nomatch same
      | cons d t =>
          rw [protectQuoted, protectQuoted] at same
          split at same
          case isTrue special =>
              split at same
              case isTrue =>
                  obtain ⟨here, later⟩ := List.cons.inj (List.cons.inj same).2
                  rw [here, ih later]
              case isFalse => exact absurd (List.cons.inj same).2.symm (protectQuoted_head t special _)
          case isFalse =>
              split at same
              case isTrue special => exact absurd (List.cons.inj same).2 (protectQuoted_head s special _)
              case isFalse =>
                  obtain ⟨here, later⟩ := List.cons.inj same
                  rw [here, ih later]

/-! ### The reader -/

/-- Why a text is not read as one double-quoted word. -/
inductive Misreading where
  | noQuote
  | expansion
  | unfinished
deriving DecidableEq

/-- What a backslash escapes inside double quotes; it removes a newline. -/
def escapable (c : UInt8) : Bool := c == dollar || c == backquote || c == doubleQuote || c == backslash

/-- One more character of the value. -/
def push (c : UInt8) (reading : Except Misreading (Str × Str)) : Except Misreading (Str × Str) :=
  reading.map fun (value, rest) => (c :: value, rest)

/-- What the shell reads inside double quotes, behind a backslash or not: the value up to the quote that ends the word,
    and what follows. A backslash that escapes nothing is literal. -/
def readQuoted : Bool → Str → Except Misreading (Str × Str)
  | _, [] => .error .unfinished
  | false, c :: rest =>
      if c = doubleQuote then .ok ([], rest)
      else if c = dollar ∨ c = backquote then .error .expansion
      else if c = backslash then readQuoted true rest
      else push c (readQuoted false rest)
  | true, c :: rest =>
      if c = newline then readQuoted false rest
      else if escapable c then push c (readQuoted false rest)
      else push backslash (push c (readQuoted false rest))

/-- A word in double quotes. -/
def readWord : Str → Except Misreading (Str × Str)
  | [] => .error .noQuote
  | c :: rest => if c = doubleQuote then readQuoted false rest else .error .noQuote

/-- A character that a backslash before it, in the string, does not escape in the result. -/
def plain (c : UInt8) : Bool := !(c == doubleQuote || c == dollar || c == backslash || c == newline)

/-- There is no backquote, and each backslash comes before a plain character. -/
structure Readable (s : Str) : Prop where
  unquoted : backquote ∉ s
  unescaped : ∀ front rest, s = front ++ backslash :: rest → ∃ c, rest.head? = some c ∧ plain c

/-! ### Readable strings -/

theorem readable_nil : Readable [] := by
  refine ⟨List.not_mem_nil, fun front rest split => ?_⟩
  exact absurd split.symm (by simp)

theorem readable_cons {c : UInt8} {s : Str} :
    Readable (c :: s) ↔ c ≠ backquote ∧ (c = backslash → ∃ d, s.head? = some d ∧ plain d) ∧ Readable s := by
  constructor
  · intro readable
    obtain ⟨other, later⟩ := List.ne_and_not_mem_of_not_mem_cons readable.unquoted
    refine ⟨other.symm, ?_, later, ?_⟩
    · rintro rfl
      exact readable.unescaped [] s rfl
    · intro front rest split
      exact readable.unescaped (c :: front) rest (by rw [split, List.cons_append])
  · rintro ⟨other, here, later⟩
    refine ⟨List.not_mem_cons_of_ne_of_not_mem other.symm later.unquoted, ?_⟩
    intro front rest split
    cases front with
    | nil =>
        obtain ⟨rfl, rfl⟩ := List.cons.inj split
        exact here rfl
    | cons d front => exact later.unescaped front rest (List.cons.inj split).2

theorem push_eq_ok {c : UInt8} {reading : Except Misreading (Str × Str)} {value rest : Str} :
    push c reading = .ok (value, rest) ↔ ∃ tail, value = c :: tail ∧ reading = .ok (tail, rest) := by
  cases reading with
  | error failure => simp [push, Except.map]
  | ok result =>
      obtain ⟨tail, remaining⟩ := result
      constructor
      · intro pushed
        obtain ⟨rfl, rfl⟩ := Prod.mk.inj (Except.ok.inj pushed)
        exact ⟨tail, rfl, rfl⟩
      · rintro ⟨tail, rfl, same⟩
        cases same
        rfl

/-! ### What the shell reads of a protected string -/

/-- The reader behind the writer, for one character of the string. -/
theorem read_cons (c : UInt8) (s rest : Str) :
    readQuoted false (protectQuoted (c :: s) ++ rest) =
      if c = backquote then .error .expansion
      else if c = backslash then readQuoted true (protectQuoted s ++ rest)
      else push c (readQuoted false (protectQuoted s ++ rest)) := by
  by_cases special : c = doubleQuote ∨ c = dollar
  · rcases special with rfl | rfl
    · rfl
    · rfl
  · obtain ⟨no_quote, no_dollar⟩ := not_or.mp special
    rw [protectQuoted, if_neg special, List.cons_append, readQuoted, if_neg no_quote]
    simp [no_dollar]

/-- The same, for a character behind a backslash. The backslash that the writer adds is escaped. -/
theorem read_escaped_cons (c : UInt8) (s rest : Str) :
    readQuoted true (protectQuoted (c :: s) ++ rest) =
      if c = doubleQuote then .ok ([backslash], protectQuoted s ++ rest)
      else if c = dollar then .error .expansion
      else if c = newline then readQuoted false (protectQuoted s ++ rest)
      else if c = backquote ∨ c = backslash then push c (readQuoted false (protectQuoted s ++ rest))
      else push backslash (push c (readQuoted false (protectQuoted s ++ rest))) := by
  by_cases special : c = doubleQuote ∨ c = dollar
  · rcases special with rfl | rfl
    · rfl
    · rfl
  · obtain ⟨no_quote, no_dollar⟩ := not_or.mp special
    rw [protectQuoted, if_neg special, List.cons_append, readQuoted]
    simp [escapable, no_quote, no_dollar]

theorem plain_iff {c : UInt8} : plain c ↔ c ≠ doubleQuote ∧ c ≠ dollar ∧ c ≠ backslash ∧ c ≠ newline := by
  simp [plain, and_assoc]

/-- A backslash before a plain character is literal. -/
theorem read_escaped_plain {c : UInt8} (ordinary : plain c) (other : c ≠ backquote) (s rest : Str) :
    readQuoted true (protectQuoted (c :: s) ++ rest) =
      push backslash (readQuoted false (protectQuoted (c :: s) ++ rest)) := by
  obtain ⟨no_quote, no_dollar, no_backslash, no_newline⟩ := plain_iff.mp ordinary
  rw [read_escaped_cons, if_neg no_quote, if_neg no_dollar, if_neg no_newline,
    if_neg (not_or.mpr ⟨other, no_backslash⟩), read_cons, if_neg other, if_neg no_backslash]

/-- A readable string is read back, whatever follows it. -/
theorem read_protected {s : Str} (readable : Readable s) (rest : Str) :
    readQuoted false (protectQuoted s ++ doubleQuote :: rest) = .ok (s, rest) := by
  induction s with
  | nil => rfl
  | cons c s ih =>
      obtain ⟨other, here, later⟩ := readable_cons.mp readable
      rw [read_cons, if_neg other]
      by_cases escape : c = backslash
      · obtain ⟨d, first, ordinary⟩ := here escape
        obtain ⟨tail, rfl⟩ := List.head?_eq_some_iff.mp first
        rw [if_pos escape, read_escaped_plain ordinary (readable_cons.mp later).1, ih later, escape]
        rfl
      · rw [if_neg escape, ih later]
        rfl

/-- The shell reads at most one character for each character of the string. -/
theorem read_length {s value rest : Str} {escaping : Bool}
    (reading : readQuoted escaping (protectQuoted s ++ [doubleQuote]) = .ok (value, rest)) :
    value.length ≤ s.length + escaping.toNat := by
  induction s generalizing escaping value with
  | nil =>
      cases escaping with
      | false =>
          cases reading
          exact Nat.zero_le _
      | true => cases reading
  | cons c s ih =>
      cases escaping with
      | false =>
          rw [read_cons] at reading
          split at reading
          · cases reading
          · split at reading
            · exact Nat.le_trans (ih reading) (by simp)
            · obtain ⟨tail, rfl, later⟩ := push_eq_ok.mp reading
              simpa using ih later
      | true =>
          rw [read_escaped_cons] at reading
          split at reading
          · cases reading
            simp
          · split at reading
            · cases reading
            · split at reading
              · exact Nat.le_trans (ih reading) (by simp; omega)
              · split at reading
                · obtain ⟨tail, rfl, later⟩ := push_eq_ok.mp reading
                  have bound := ih later
                  simp only [List.length_cons, Bool.toNat_false, Bool.toNat_true] at bound ⊢
                  omega
                · obtain ⟨more, rfl, behind⟩ := push_eq_ok.mp reading
                  obtain ⟨tail, rfl, later⟩ := push_eq_ok.mp behind
                  have bound := ih later
                  simp only [List.length_cons, Bool.toNat_false, Bool.toNat_true] at bound ⊢
                  omega

/-- Only a plain character behind a backslash leaves it in the value. -/
theorem plain_of_read {c : UInt8} {s : Str}
    (reading : readQuoted true (protectQuoted (c :: s) ++ [doubleQuote]) = .ok (backslash :: c :: s, [])) :
    plain c ∧ c ≠ backquote := by
  rw [read_escaped_cons] at reading
  by_cases quote : c = doubleQuote
  · rw [if_pos quote] at reading
    cases reading
  rw [if_neg quote] at reading
  by_cases expands : c = dollar
  · rw [if_pos expands] at reading
    cases reading
  rw [if_neg expands] at reading
  by_cases joins : c = newline
  · rw [if_pos joins] at reading
    have bound := read_length reading
    simp only [List.length_cons, Bool.toNat_false] at bound
    omega
  rw [if_neg joins] at reading
  by_cases escaped : c = backquote ∨ c = backslash
  · rw [if_pos escaped] at reading
    obtain ⟨tail, same, later⟩ := push_eq_ok.mp reading
    have bound := read_length later
    rw [← (List.cons.inj same).2] at bound
    simp only [List.length_cons, Bool.toNat_false] at bound
    omega
  obtain ⟨no_backquote, no_backslash⟩ := not_or.mp escaped
  exact ⟨plain_iff.mpr ⟨quote, expands, no_backslash, joins⟩, no_backquote⟩

/-- A string that is read back is readable. -/
theorem readable_of_read {s : Str} (reading : readQuoted false (protectQuoted s ++ [doubleQuote]) = .ok (s, [])) :
    Readable s := by
  induction s with
  | nil => exact readable_nil
  | cons c s ih =>
      rw [read_cons] at reading
      by_cases expands : c = backquote
      · rw [if_pos expands] at reading
        cases reading
      rw [if_neg expands] at reading
      by_cases escape : c = backslash
      · subst escape
        rw [if_pos rfl] at reading
        cases s with
        | nil => cases reading
        | cons d s =>
            obtain ⟨ordinary, other⟩ := plain_of_read reading
            rw [read_escaped_plain ordinary other] at reading
            obtain ⟨tail, same, later⟩ := push_eq_ok.mp reading
            rw [← (List.cons.inj same).2] at later
            exact readable_cons.mpr ⟨expands, fun _ => ⟨d, rfl, ordinary⟩, ih later⟩
      · rw [if_neg escape] at reading
        obtain ⟨tail, same, later⟩ := push_eq_ok.mp reading
        rw [← (List.cons.inj same).2] at later
        exact readable_cons.mpr ⟨expands, fun same => absurd same escape, ih later⟩

/-! ### The result -/

/-- The shell reads the quoted text as one word with the string as its value exactly if the string is readable. -/
theorem quoted_read_back (s : Str) : readWord (quoted s) = .ok (s, []) ↔ Readable s := by
  have text : readWord (quoted s) = readQuoted false (protectQuoted s ++ [doubleQuote]) := rfl
  rw [text]
  constructor
  · exact readable_of_read
  · intro readable
    exact read_protected readable []

/-- A backquote begins a substitution; of two backslashes one is read; behind one at the end, the word goes on. -/
theorem quoted_misread :
    readWord (quoted [backquote]) = .error .expansion ∧
      readWord (quoted [backslash, backslash]) = .ok ([backslash], []) ∧
      readWord (quoted [backslash]) = .error .unfinished ∧
      ¬ ∀ s, (0 : UInt8) ∉ s → readWord (quoted s) = .ok (s, []) := by
  refine ⟨by decide, by decide, by decide, fun all => ?_⟩
  exact absurd (all [backquote] (by decide)) (by decide)

end Experimaestro.Commands

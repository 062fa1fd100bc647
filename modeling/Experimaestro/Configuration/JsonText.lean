/-
Module: Experimaestro.Configuration.JsonText
Layer: Configuration
Purpose: The JSON library of the source: `dump`, which writes a document as text, and `parse`, the scanner
  and the parser that read one. The parser is a loop over a stack of states in the source and recursive
  here, with a bound on the number of steps that a text never exceeds. The conversions of real numbers to
  and from texts are parameters.
Imports: Experimaestro.Configuration.RoundTrip, Experimaestro.Library.Utf8, Mathlib.Data.Nat.Digits.Lemmas
Trusted boundary: human-reviewed model of include/public/xpm/json.hpp
Main exports: NumberFormat, dump, parse, Parses, Parses.string, Parses.array, Parses.object, dump_parses
Open obligations: none
-/
import Mathlib.Data.Nat.Digits.Lemmas
import Experimaestro.Configuration.RoundTrip
import Experimaestro.Library.Utf8

namespace Experimaestro.Configuration

/-- The texts, one after the other, with a separator between them. -/
def joinTexts (separator : Str) : List Str → Str
  | [] => []
  | [text] => text
  | text :: next :: rest => text ++ separator ++ joinTexts separator (next :: rest)

/-! ### Numbers -/

/-- `std::isfinite`. -/
def isFinite (bits : UInt64) : Bool := bits &&& 0x7FF0000000000000 != 0x7FF0000000000000

/-- The states of `scan_number`. -/
inductive NumberState where
  | init
  | minus
  | zero
  | any1
  | decimal1
  | decimal2
  | exponent
  | sign
  | any2
deriving DecidableEq, Repr

def isDecimalDigit (b : UInt8) : Bool := 0x30 ≤ b && b ≤ 0x39

/-- `e` or `E`. -/
def isExponent (b : UInt8) : Bool := b == 0x65 || b == 0x45

namespace NumberState

/-- The state after a character that belongs to the number. -/
def step : NumberState → UInt8 → Option NumberState
  | .init, b =>
      if b = 0x2D then some .minus
      else if b = 0x30 then some .zero
      else if isDecimalDigit b then some .any1
      else none
  | .minus, b => if b = 0x30 then some .zero else if isDecimalDigit b then some .any1 else none
  | .zero, b => if b = 0x2E then some .decimal1 else if isExponent b then some .exponent else none
  | .any1, b =>
      if isDecimalDigit b then some .any1
      else if b = 0x2E then some .decimal1
      else if isExponent b then some .exponent
      else none
  | .decimal1, b => if isDecimalDigit b then some .decimal2 else none
  | .decimal2, b => if isDecimalDigit b then some .decimal2 else if isExponent b then some .exponent else none
  | .exponent, b =>
      if b = 0x2B ∨ b = 0x2D then some .sign else if isDecimalDigit b then some .any2 else none
  | .sign, b => if isDecimalDigit b then some .any2 else none
  | .any2, b => if isDecimalDigit b then some .any2 else none

/-- A number can end here. -/
def isDone : NumberState → Bool
  | .zero | .any1 | .decimal2 | .any2 => true
  | _ => false

/-- A whole text is one number. -/
def accepts : NumberState → Str → Bool
  | state, [] => state.isDone
  | state, b :: rest =>
      match state.step b with
      | some next => accepts next rest
      | none => false

end NumberState

/-- `scan_number`: the number and what follows it. -/
def scanNumber : NumberState → Str → Option (Str × Str)
  | state, [] => if state.isDone then some ([], []) else none
  | state, b :: rest =>
      match state.step b with
      | some next => (scanNumber next rest).map fun scanned => (b :: scanned.1, scanned.2)
      | none => if state.isDone then some ([], b :: rest) else none

/-- A number with a fraction or an exponent. -/
def isReal (token : Str) : Bool := token.any fun b => b == 0x2E || isExponent b

/-- The conversions of a `double` to the shortest text that stands for it, and of a text to a `double`
    (`to_chars` and `strtod`). -/
structure NumberFormat where
  realText : UInt64 → Str
  readReal : Str → UInt64
  realText_accepts : ∀ bits, isFinite bits → NumberState.init.accepts (realText bits)
  realText_isReal : ∀ bits, isFinite bits → isReal (realText bits)
  readReal_realText : ∀ bits, isFinite bits → readReal (realText bits) = bits

/-- `strtoull`, of a text of digits. -/
def decimal (digits : Str) : ℕ := digits.foldl (fun n b => 10 * n + (b.toNat - 0x30)) 0

section

variable (numbers : NumberFormat)

/-- The number that a text of a real number stands for, unless it is out of range. -/
def realValue (token : Str) : Option Json :=
  if isFinite (numbers.readReal token) then some (.float (numbers.readReal token)) else none

/-- The conversions at the end of `scan_number`: integers that fit 64 bits, and real numbers. -/
def numberValue (token : Str) : Option Json :=
  if isReal token then realValue numbers token
  else
    match token with
    | 0x2D :: digits =>
        if decimal digits ≤ 2 ^ 63 then some (.integer (Int64.ofInt (-decimal digits)))
        else realValue numbers token
    | digits =>
        if decimal digits < 2 ^ 64 then some (.integer (Int64.ofNat (decimal digits)))
        else realValue numbers token

end

/-- The digits of a positive number. -/
def digitsText (n : ℕ) : Str := (Nat.digits 10 n).reverse.map fun d => UInt8.ofNat (0x30 + d)

/-- `dump_integer`. -/
def dumpInteger (n : Int64) : Str :=
  if n.toInt = 0 then str "0"
  else if n.toInt < 0 then 0x2D :: digitsText n.toInt.natAbs
  else digitsText n.toInt.natAbs

/-! ### Strings -/

/-- A digit of `%04x`. -/
def hexDigit (n : ℕ) : UInt8 := UInt8.ofNat (if n < 10 then 0x30 + n else 0x57 + n)

/-- What `dump_escaped` writes for a character of one byte. -/
def escapeByte (b : UInt8) : Str :=
  if b = 0x08 then [0x5C, 0x62]
  else if b = 0x09 then [0x5C, 0x74]
  else if b = 0x0A then [0x5C, 0x6E]
  else if b = 0x0C then [0x5C, 0x66]
  else if b = 0x0D then [0x5C, 0x72]
  else if b = 0x22 then [0x5C, 0x22]
  else if b = 0x5C then [0x5C, 0x5C]
  else if b ≤ 0x1F then [0x5C, 0x75, 0x30, 0x30, hexDigit (b.toNat / 16), hexDigit (b.toNat % 16)]
  else [b]

/-- `dump_escaped`, which only decodes to find the characters of one byte and the ill-formed texts. -/
def dumpEscaped : Utf8.State → Str → Except Error Str
  | state, [] => if state = .start then .ok [] else .error .jsonError
  | state, b :: rest =>
      match Utf8.step state b with
      | none => .error .jsonError
      | some next =>
          (dumpEscaped next rest).map ((if state = .start then escapeByte b else [b]) ++ ·)

/-- `"` -/
def quote : UInt8 := 0x22

/-- `\` -/
def backslash : UInt8 := 0x5C

/-- A text between quotes. -/
def quoted (text : Str) : Str := quote :: (text ++ [quote])

/-- The characters that are escaped by one letter. -/
def unescape (c : UInt8) : Option UInt8 :=
  if c = 0x22 ∨ c = 0x5C ∨ c = 0x2F then some c
  else if c = 0x62 then some 0x08
  else if c = 0x66 then some 0x0C
  else if c = 0x6E then some 0x0A
  else if c = 0x72 then some 0x0D
  else if c = 0x74 then some 0x09
  else none

def hexValue (c : UInt8) : Option ℕ :=
  if 0x30 ≤ c ∧ c ≤ 0x39 then some (c.toNat - 0x30)
  else if 0x41 ≤ c ∧ c ≤ 0x46 then some (c.toNat - 0x37)
  else if 0x61 ≤ c ∧ c ≤ 0x66 then some (c.toNat - 0x57)
  else none

/-- `get_codepoint` -/
def codepoint (a b c d : UInt8) : Option ℕ :=
  match hexValue a, hexValue b, hexValue c, hexValue d with
  | some a, some b, some c, some d => some (4096 * a + 256 * b + 16 * c + d)
  | _, _, _, _ => none

/-- The bytes of a code point. -/
def encode (n : ℕ) : Str :=
  if n < 0x80 then [UInt8.ofNat n]
  else if n ≤ 0x7FF then [UInt8.ofNat (0xC0 + n / 64), UInt8.ofNat (0x80 + n % 64)]
  else if n ≤ 0xFFFF then
    [UInt8.ofNat (0xE0 + n / 4096), UInt8.ofNat (0x80 + n / 64 % 64), UInt8.ofNat (0x80 + n % 64)]
  else
    [UInt8.ofNat (0xF0 + n / 262144), UInt8.ofNat (0x80 + n / 4096 % 64), UInt8.ofNat (0x80 + n / 64 % 64),
      UInt8.ofNat (0x80 + n % 64)]

/-- `scan_string`, after the opening quote: the text and what follows the closing quote. -/
def scanString : Utf8.State → Str → Option (Str × Str)
  | _, [] => none
  | state, b :: rest =>
      if state = .start ∧ b = quote then some ([], rest)
      else if state = .start ∧ b = backslash then
        match rest with
        | [] => none
        | c :: rest =>
            match unescape c with
            | some b => (scanString .start rest).map fun scanned => (b :: scanned.1, scanned.2)
            | none =>
                if c = 0x75 then
                  match rest with
                  | h :: i :: j :: k :: rest =>
                      match codepoint h i j k with
                      | none => none
                      | some high =>
                          if 0xD800 ≤ high ∧ high ≤ 0xDBFF then
                            match rest with
                            | s :: u :: h :: i :: j :: k :: rest =>
                                match codepoint h i j k with
                                | none => none
                                | some low =>
                                    if s = backslash ∧ u = 0x75 ∧ 0xDC00 ≤ low ∧ low ≤ 0xDFFF then
                                      (scanString .start rest).map fun scanned =>
                                        (encode (1024 * high + low - 0x35FDC00) ++ scanned.1, scanned.2)
                                    else none
                            | _ => none
                          else if 0xDC00 ≤ high ∧ high ≤ 0xDFFF then none
                          else
                            (scanString .start rest).map fun scanned => (encode high ++ scanned.1, scanned.2)
                  | _ => none
                else none
      else if state = .start ∧ b ≤ 0x1F then none
      else
        match Utf8.step state b with
        | none => none
        | some next => (scanString next rest).map fun scanned => (b :: scanned.1, scanned.2)

/-! ### Documents -/

section

variable (numbers : NumberFormat)

mutual

/-- `dump`; a real number that is not finite is written as `null`. -/
def dump : Json → Except Error Str
  | .null => .ok (str "null")
  | .boolean b => .ok (if b then str "true" else str "false")
  | .integer n => .ok (dumpInteger n)
  | .float bits => .ok (if isFinite bits then numbers.realText bits else str "null")
  | .string text => (dumpEscaped .start text).map quoted
  | .array elements =>
      (dumpElements elements).map fun texts => str "[" ++ joinTexts (str ",") texts ++ str "]"
  | .object members =>
      (dumpMembers members).map fun texts => str "\x7b" ++ joinTexts (str ",") texts ++ str "\x7d"

def dumpElements : List Json → Except Error (List Str)
  | [] => .ok []
  | j :: rest =>
      match dump j with
      | .error e => .error e
      | .ok text => (dumpElements rest).map (text :: ·)

def dumpMembers : List (Str × Json) → Except Error (List Str)
  | [] => .ok []
  | (key, j) :: rest =>
      match dumpEscaped .start key with
      | .error e => .error e
      | .ok name =>
          match dump j with
          | .error e => .error e
          | .ok text => (dumpMembers rest).map ((quoted name ++ str ":" ++ text) :: ·)

end

/-- The loop at the beginning of `scan`. -/
def skipSpace : Str → Str
  | [] => []
  | b :: rest => if b = 0x20 ∨ b = 0x09 ∨ b = 0x0A ∨ b = 0x0D then skipSpace rest else b :: rest

/-- `scan_literal`, after the first letter. -/
def scanLiteral (literal : Str) (j : Json) (input : Str) : Option (Json × Str) :=
  if input.take literal.length = literal then some (j, input.drop literal.length) else none

mutual

/-- `sax_parse_internal`, from a value to its end, in at most `n` steps. -/
def parseValue : ℕ → Str → Option (Json × Str)
  | 0, _ => none
  | n + 1, input =>
      match skipSpace input with
      | [] => none
      | b :: rest =>
          if b = 0x7B then
            match skipSpace rest with
            | [] => none
            | c :: inside => if c = 0x7D then some (.object [], inside) else parseMembers n [] rest
          else if b = 0x5B then
            match skipSpace rest with
            | [] => none
            | c :: inside => if c = 0x5D then some (.array [], inside) else parseElements n [] rest
          else if b = quote then
            (scanString .start rest).map fun scanned => (.string scanned.1, scanned.2)
          else if b = 0x74 then scanLiteral (str "rue") (.boolean true) rest
          else if b = 0x66 then scanLiteral (str "alse") (.boolean false) rest
          else if b = 0x6E then scanLiteral (str "ull") .null rest
          else
            match scanNumber .init (b :: rest) with
            | none => none
            | some (token, rest) => (numberValue numbers token).map fun j => (j, rest)

/-- The members of an object, up to the closing brace; a later member replaces an earlier one of the same
    name. -/
def parseMembers : ℕ → List (Str × Json) → Str → Option (Json × Str)
  | 0, _, _ => none
  | n + 1, members, input =>
      match skipSpace input with
      | [] => none
      | b :: rest =>
          if b = quote then
            match scanString .start rest with
            | none => none
            | some (key, rest) =>
                match skipSpace rest with
                | [] => none
                | c :: rest =>
                    if c = 0x3A then
                      match parseValue n rest with
                      | none => none
                      | some (j, rest) =>
                          match skipSpace rest with
                          | [] => none
                          | d :: rest =>
                              if d = 0x2C then parseMembers n (insert key j members) rest
                              else if d = 0x7D then some (.object (insert key j members), rest)
                              else none
                    else none
          else none

/-- The elements of an array, up to the closing bracket. -/
def parseElements : ℕ → List Json → Str → Option (Json × Str)
  | 0, _, _ => none
  | n + 1, elements, input =>
      match parseValue n input with
      | none => none
      | some (j, rest) =>
          match skipSpace rest with
          | [] => none
          | c :: rest =>
              if c = 0x2C then parseElements n (elements ++ [j]) rest
              else if c = 0x5D then some (.array (elements ++ [j]), rest)
              else none

end

/-- `skip_bom` -/
def skipBom : Str → Option Str
  | [] => some []
  | b :: rest =>
      if b = 0xEF then
        match rest with
        | c :: d :: rest => if c = 0xBB ∧ d = 0xBF then some rest else none
        | _ => none
      else some (b :: rest)

/-- `json::parse`, in strict mode: nothing but space follows the value, or a byte 0. -/
def parse (text : Str) : Option Json :=
  match skipBom text with
  | none => none
  | some input =>
      match parseValue numbers (input.length + 1) input with
      | none => none
      | some (j, rest) =>
          match skipSpace rest with
          | [] => some j
          | b :: _ => if b = 0 then some j else none

end

/-! ### Scanning -/

/-- No number continues here. -/
def Ends (rest : Str) : Prop := ∀ b ∈ rest.head?, ∀ state : NumberState, state.step b = none

theorem ends_nil : Ends [] := nofun

theorem ends_cons {b : UInt8} (rest : Str) (ends : ∀ state : NumberState, state.step b = none) :
    Ends (b :: rest) := by
  intro other head
  cases head
  exact ends

theorem ends_comma (rest : Str) : Ends (0x2C :: rest) := ends_cons rest fun state => by cases state <;> rfl

theorem ends_bracket (rest : Str) : Ends (0x5D :: rest) := ends_cons rest fun state => by cases state <;> rfl

theorem ends_brace (rest : Str) : Ends (0x7D :: rest) := ends_cons rest fun state => by cases state <;> rfl

/-- A number is scanned up to its end. -/
theorem scanNumber_of_accepts {state : NumberState} {token rest : Str} (accepted : state.accepts token)
    (ends : Ends rest) : scanNumber state (token ++ rest) = some (token, rest) := by
  induction token generalizing state with
  | nil =>
      rw [NumberState.accepts] at accepted
      cases rest with
      | nil => rw [List.append_nil, scanNumber, if_pos accepted]
      | cons b rest =>
          rw [List.nil_append, scanNumber, ends b rfl state]
          exact if_pos accepted
  | cons b token ih =>
      rw [NumberState.accepts] at accepted
      rw [List.cons_append, scanNumber]
      cases next : state.step b with
      | none => simp [next] at accepted
      | some target =>
          simp only [next] at accepted ⊢
          rw [ih accepted]
          rfl

/-- What is written for a control character is scanned as this character. -/
theorem codepoint_control {b : UInt8} (control : b ≤ 0x1F) :
    codepoint 0x30 0x30 (hexDigit (b.toNat / 16)) (hexDigit (b.toNat % 16)) = some b.toNat ∧
      encode b.toNat = [b] := by
  have all : ∀ n < 32, codepoint 0x30 0x30 (hexDigit (n / 16)) (hexDigit (n % 16)) = some n ∧
      encode n = [UInt8.ofNat n] := by decide
  have bound : b.toNat < 32 := Nat.lt_succ_of_le (UInt8.le_iff_toNat_le.mp control)
  have found := all b.toNat bound
  rwa [UInt8.ofNat_toNat] at found

theorem scanString_quote {state : Utf8.State} (start : state = .start) (rest : Str) :
    scanString state (quote :: rest) = some ([], rest) := by
  rw [scanString.eq_def]
  exact if_pos ⟨start, rfl⟩

/-- Other bytes than quotes, escapes and control characters are part of the text. -/
theorem scanString_byte {state next : Utf8.State} {b : UInt8} (read : Utf8.step state b = some next)
    (plain : state = .start → b ≠ quote ∧ b ≠ backslash ∧ ¬ b ≤ 0x1F) (rest : Str) :
    scanString state (b :: rest) = (scanString next rest).map fun scanned => (b :: scanned.1, scanned.2) := by
  rw [scanString.eq_def]
  dsimp only
  rw [if_neg fun closing => (plain closing.1).1 closing.2, if_neg fun escape => (plain escape.1).2.1 escape.2,
    if_neg fun control => (plain control.1).2.2 control.2, read]

theorem scanString_escapeByte {b : UInt8} {next : Utf8.State} (read : Utf8.step .start b = some next)
    (rest : Str) :
    scanString .start (escapeByte b ++ rest) =
      (scanString next rest).map fun scanned => (b :: scanned.1, scanned.2) := by
  unfold escapeByte
  iterate 7
    split
    · next same =>
      subst same
      cases read
      rfl
  split
  · next control =>
    obtain ⟨found, encoded⟩ := codepoint_control control
    have ascii : b < 0x80 := UInt8.lt_of_le_of_lt control (by decide)
    rw [Utf8.step_ascii ascii] at read
    cases read
    have bound : b.toNat < 0x80 := UInt8.lt_iff_toNat_lt.mp ascii
    have plain : ¬ (0xD800 ≤ b.toNat ∧ b.toNat ≤ 0xDBFF) := by omega
    have single : ¬ (0xDC00 ≤ b.toNat ∧ b.toNat ≤ 0xDFFF) := by omega
    have letter : unescape 0x75 = none := by decide
    simp only [List.cons_append, List.nil_append]
    rw [scanString, if_neg (by decide), if_pos (by decide)]
    simp only [letter, found, plain, single, encoded, if_true, if_false, List.cons_append, List.nil_append]
  · next not_quote not_backslash not_control =>
    exact scanString_byte read (fun _ => ⟨not_quote, not_backslash, not_control⟩) rest

/-- A text is scanned as it was before it was escaped. -/
theorem scanString_dumpEscaped {state : Utf8.State} {text escaped : Str}
    (dumped : dumpEscaped state text = .ok escaped) (rest : Str) :
    scanString state (escaped ++ quote :: rest) = some (text, rest) := by
  induction text generalizing state escaped with
  | nil =>
      rw [dumpEscaped] at dumped
      split at dumped
      · next start =>
        cases dumped
        exact scanString_quote start rest
      · cases dumped
  | cons b text ih =>
      rw [dumpEscaped] at dumped
      cases read : Utf8.step state b with
      | none => simp [read] at dumped
      | some next =>
          simp only [read] at dumped
          obtain ⟨others, tail, rfl⟩ := except_map_eq_ok.mp dumped
          rw [List.append_assoc]
          by_cases start : state = .start
          · subst start
            rw [if_pos rfl, scanString_escapeByte read, ih tail]
            rfl
          · rw [if_neg start, List.cons_append, List.nil_append,
              scanString_byte read fun begins => absurd begins start, ih tail]
            rfl

/-- Exactly the well-formed texts are escaped. -/
theorem dumpEscaped_iff {state : Utf8.State} {text : Str} :
    (∃ escaped, dumpEscaped state text = .ok escaped) ↔ Utf8.run state text = some .start := by
  induction text generalizing state with
  | nil =>
      rw [dumpEscaped, Utf8.run]
      by_cases start : state = .start
      · simp [start]
      · simp [start]
  | cons b text ih =>
      rw [dumpEscaped, Utf8.run]
      cases read : Utf8.step state b with
      | none => simp
      | some next => simp only [except_map_eq_ok, ← ih, exists_comm, exists_eq_right']

/-- A text that needs no escape. -/
def PlainText (text : Str) : Prop :=
  Utf8.Valid text ∧ ∀ b ∈ text, 0x1F < b ∧ b ≠ quote ∧ b ≠ backslash

instance (text : Str) : Decidable (PlainText text) :=
  -- over the bytes of the text, not over all bytes
  have := List.decidableBAll (fun b : UInt8 => 0x1F < b ∧ b ≠ quote ∧ b ≠ backslash) text
  inferInstanceAs (Decidable (Utf8.Valid text ∧ ∀ b ∈ text, 0x1F < b ∧ b ≠ quote ∧ b ≠ backslash))

theorem escapeByte_plain {b : UInt8} (printable : 0x1F < b) (not_quote : b ≠ quote)
    (not_backslash : b ≠ backslash) : escapeByte b = [b] := by
  have above {c : UInt8} (control : c ≤ 0x1F) : b ≠ c :=
    fun same => UInt8.lt_irrefl _ (UInt8.lt_of_lt_of_le printable (same ▸ control))
  have high : ¬ b ≤ 0x1F := UInt8.not_le.mpr printable
  simp [escapeByte, above (c := 0x08) (by decide), above (c := 0x09) (by decide),
    above (c := 0x0A) (by decide), above (c := 0x0C) (by decide), above (c := 0x0D) (by decide),
    show b ≠ 0x22 from not_quote, show b ≠ 0x5C from not_backslash, high]

theorem dumpEscaped_plain {state : Utf8.State} {text : Str} (valid : Utf8.run state text = some .start)
    (plain : ∀ b ∈ text, 0x1F < b ∧ b ≠ quote ∧ b ≠ backslash) : dumpEscaped state text = .ok text := by
  induction text generalizing state with
  | nil =>
      rw [Utf8.run] at valid
      cases valid
      rfl
  | cons b text ih =>
      obtain ⟨⟨printable, not_quote, not_backslash⟩, others⟩ := List.forall_mem_cons.mp plain
      rw [Utf8.run] at valid
      rw [dumpEscaped]
      cases read : Utf8.step state b with
      | none => simp [read] at valid
      | some next =>
          simp only [read] at valid ⊢
          rw [ih valid others, escapeByte_plain printable not_quote not_backslash, ite_self]
          rfl

theorem PlainText.dumpEscaped {text : Str} (plain : PlainText text) :
    Configuration.dumpEscaped .start text = .ok text :=
  dumpEscaped_plain plain.1 plain.2

/-! ### Parsing -/

section

variable (numbers : NumberFormat)

/-- A text is parsed as a document, wherever it stands. -/
def Parses (text : Str) (j : Json) : Prop :=
  ∀ ⦃n rest⦄, text.length ≤ n → Ends rest → parseValue numbers n (text ++ rest) = some (j, rest)

variable {numbers}

theorem skipSpace_skipSpace (input : Str) : skipSpace (skipSpace input) = skipSpace input := by
  induction input with
  | nil => rfl
  | cons b rest ih =>
      rw [skipSpace]
      split
      · exact ih
      · next other => rw [skipSpace, if_neg other]

/-- Space before a value is skipped. -/
theorem parseValue_skipSpace (n : ℕ) (input : Str) :
    parseValue numbers n (skipSpace input) = parseValue numbers n input := by
  cases n with
  | zero => rw [parseValue, parseValue]
  | succ n => rw [parseValue, parseValue, skipSpace_skipSpace]

theorem parseElements_skipSpace (n : ℕ) (elements : List Json) (input : Str) :
    parseElements numbers n elements (skipSpace input) = parseElements numbers n elements input := by
  cases n with
  | zero => rw [parseElements, parseElements]
  | succ n => rw [parseElements, parseElements, parseValue_skipSpace]

theorem parseMembers_skipSpace (n : ℕ) (members : List (Str × Json)) (input : Str) :
    parseMembers numbers n members (skipSpace input) = parseMembers numbers n members input := by
  cases n with
  | zero => rw [parseMembers, parseMembers]
  | succ n => rw [parseMembers, parseMembers, skipSpace_skipSpace]

theorem Parses.space {text : Str} {j : Json} (parses : Parses numbers text j) :
    Parses numbers (0x20 :: text) j := by
  intro n rest bound ends
  have skipped : skipSpace (0x20 :: (text ++ rest)) = skipSpace (text ++ rest) := rfl
  rw [List.cons_append, ← parseValue_skipSpace, skipped, parseValue_skipSpace]
  exact parses (Nat.le_trans (Nat.le_succ _) bound) ends

/-- What a value begins with. -/
theorem parseValue_head {n : ℕ} {input : Str} {result : Json × Str}
    (parsed : parseValue numbers n input = some result) :
    ∃ b rest, skipSpace input = b :: rest ∧ b ≠ 0x5D ∧ b ≠ 0xEF := by
  cases n with
  | zero =>
      rw [parseValue] at parsed
      cases parsed
  | succ n =>
      rw [parseValue] at parsed
      cases skipped : skipSpace input with
      | nil => simp [skipped] at parsed
      | cons b rest =>
          have scanned {c : UInt8} (none : scanNumber .init (c :: rest) = none) (same : b = c)
              (other : c ≠ 0x7B ∧ c ≠ 0x5B ∧ c ≠ quote ∧ c ≠ 0x74 ∧ c ≠ 0x66 ∧ c ≠ 0x6E) : False := by
            obtain ⟨brace, bracket, no_quote, t, f, n⟩ := other
            simp only [skipped, same, brace, bracket, no_quote, t, f, n, none, if_false] at parsed
            cases parsed
          exact ⟨b, rest, rfl, fun same => scanned rfl same (by decide), fun same => scanned rfl same (by decide)⟩

theorem skipSpace_append {text others : Str} {b : UInt8} (skipped : skipSpace text = b :: others) (rest : Str) :
    skipSpace (text ++ rest) = b :: (others ++ rest) := by
  induction text with
  | nil => cases skipped
  | cons c text ih =>
      rw [skipSpace] at skipped
      rw [List.cons_append, skipSpace]
      split at skipped
      · next space => rw [if_pos space, ih skipped]
      · next other =>
        cases skipped
        rw [if_neg other]

theorem Parses.head {text : Str} {j : Json} (parses : Parses numbers text j) :
    ∃ b others, skipSpace text = b :: others ∧ b ≠ 0x5D ∧ b ≠ 0xEF := by
  have parsed := parses (Nat.le_refl _) ends_nil
  rw [List.append_nil] at parsed
  exact parseValue_head parsed

theorem Parses.null : Parses numbers (str "null") .null := by
  intro n rest bound _
  cases n with
  | zero => cases bound
  | succ n => rfl

theorem Parses.boolean (b : Bool) : Parses numbers (if b then str "true" else str "false") (.boolean b) := by
  intro n rest bound _
  cases n with
  | zero => cases b <;> cases bound
  | succ n => cases b <;> rfl

theorem Parses.number {token : Str} {j : Json} (accepted : NumberState.init.accepts token)
    (value : numberValue numbers token = some j) : Parses numbers token j := by
  intro n rest bound ends
  have scanned := scanNumber_of_accepts accepted ends
  cases token with
  | nil => cases accepted
  | cons b token =>
      cases n with
      | zero => cases bound
      | succ n =>
          have other {c : UInt8} (refused : NumberState.init.step c = none) : b ≠ c := by
            rintro rfl
            rw [NumberState.accepts, refused] at accepted
            cases accepted
          have skipped : skipSpace (b :: (token ++ rest)) = b :: (token ++ rest) := by
            simp [skipSpace, other (c := 0x20) rfl, other (c := 0x09) rfl, other (c := 0x0A) rfl,
              other (c := 0x0D) rfl]
          rw [List.cons_append] at scanned ⊢
          rw [parseValue, skipped]
          dsimp only
          rw [if_neg (other rfl), if_neg (other rfl), if_neg (other rfl), if_neg (other rfl),
            if_neg (other rfl), if_neg (other rfl), scanned]
          dsimp only
          rw [value]
          rfl

theorem Parses.string {text escaped : Str} (dumped : dumpEscaped .start text = .ok escaped) :
    Parses numbers (quoted escaped) (.string text) := by
  intro n rest bound _
  cases n with
  | zero => cases bound
  | succ n =>
      have skipped : skipSpace (quoted escaped ++ rest) = quote :: (escaped ++ quote :: rest) := by
        rw [quoted, List.cons_append, List.append_assoc]
        rfl
      rw [parseValue, skipped]
      dsimp only
      rw [if_neg (by decide), if_neg (by decide), if_pos rfl, scanString_dumpEscaped dumped]
      rfl

/-- Spaces and line breaks. -/
def White (pad : Str) : Prop := ∀ b ∈ pad, b = 0x20 ∨ b = 0x0A

theorem white_nil : White [] := nofun

theorem skipSpace_white {pad : Str} (white : White pad) (input : Str) :
    skipSpace (pad ++ input) = skipSpace input := by
  induction pad with
  | nil => rfl
  | cons b pad ih =>
      obtain ⟨space, others⟩ := List.forall_mem_cons.mp white
      rcases space with rfl | rfl
      · exact ih others
      · exact ih others

/-- Space ends a number. -/
theorem ends_white {pad rest : Str} (white : White pad) (ends : Ends rest) : Ends (pad ++ rest) := by
  cases pad with
  | nil => exact ends
  | cons b pad =>
      apply ends_cons
      intro state
      rcases white b List.mem_cons_self with rfl | rfl <;> cases state <;> rfl

/-- A separator after the comma. -/
def Blank (pad : Str) : Prop := ∀ b ∈ pad, b = 0x20

theorem skipSpace_blank {pad : Str} (blank : Blank pad) (input : Str) :
    skipSpace (pad ++ input) = skipSpace input :=
  skipSpace_white (fun b member => Or.inl (blank b member)) input

theorem joinTexts_cons (separator text next : Str) (rest : List Str) (after : Str) :
    joinTexts separator (text :: next :: rest) ++ after =
      text ++ (separator ++ (joinTexts separator (next :: rest) ++ after)) := by
  rw [joinTexts, List.append_assoc, List.append_assoc]

/-- The elements of an array. -/
theorem parseElements_joinTexts {pad : Str} (blank : Blank pad) {texts : List Str} {js : List Json}
    (parses : List.Forall₂ (Parses numbers) texts js) (some_text : texts ≠ []) {n : ℕ}
    (bound : (joinTexts (0x2C :: pad) texts).length < n) (elements : List Json) (rest : Str) :
    parseElements numbers n elements (joinTexts (0x2C :: pad) texts ++ 0x5D :: rest) =
      some (.array (elements ++ js), rest) := by
  induction parses generalizing n elements with
  | nil => exact absurd rfl some_text
  | @cons text j texts js first others ih =>
      cases n with
      | zero => cases bound
      | succ n =>
          rw [parseElements]
          cases others with
          | nil =>
              rw [joinTexts, first (Nat.le_of_lt_succ bound) (ends_bracket rest)]
              rfl
          | @cons next _ texts _ second others =>
              rw [joinTexts, List.length_append, List.length_append, List.length_cons] at bound
              rw [joinTexts_cons, List.cons_append, first (by omega) (ends_comma _)]
              have comma (input : Str) : skipSpace (0x2C :: input) = 0x2C :: input := rfl
              dsimp only
              rw [comma]
              dsimp only
              rw [if_pos rfl, ← parseElements_skipSpace, skipSpace_blank blank, parseElements_skipSpace,
                ih (by simp) (by omega), List.append_assoc, List.singleton_append]

theorem Parses.array {pad : Str} (blank : Blank pad) {texts : List Str} {js : List Json}
    (parses : List.Forall₂ (Parses numbers) texts js) :
    Parses numbers (0x5B :: (joinTexts (0x2C :: pad) texts ++ [0x5D])) (.array js) := by
  intro n rest bound ends
  cases n with
  | zero => cases bound
  | succ n =>
      have skipped (input : Str) : skipSpace (0x5B :: input) = 0x5B :: input := rfl
      rw [List.cons_append, List.append_assoc, List.singleton_append, parseValue, skipped]
      dsimp only
      rw [if_neg (by decide), if_pos rfl]
      rw [List.length_cons, List.length_append, List.length_singleton] at bound
      have elements (some_text : texts ≠ []) := parseElements_joinTexts blank parses some_text
        (show _ < n by omega) [] rest
      cases parses with
      | nil => rfl
      | @cons text j texts js first others =>
          obtain ⟨b, inside, head, closing, _⟩ := first.head
          have starts : ∃ inside, skipSpace (joinTexts (0x2C :: pad) (text :: texts) ++ 0x5D :: rest) =
              b :: inside := by
            cases texts with
            | nil => exact ⟨_, skipSpace_append head _⟩
            | cons next texts =>
                rw [joinTexts_cons]
                exact ⟨_, skipSpace_append head _⟩
          obtain ⟨inside, starts⟩ := starts
          rw [starts]
          dsimp only
          rw [if_neg closing, elements (by simp), List.nil_append]

variable (numbers) in
/-- The text of a member of an object. -/
def MemberText (text : Str) (member : Str × Json) : Prop :=
  ∃ name value, text = quoted name ++ 0x3A :: value ∧ dumpEscaped .start member.1 = .ok name ∧
    Parses numbers value member.2

variable (numbers) in
/-- The text of a member, with space around it. -/
def SpacedMember (text : Str) (member : Str × Json) : Prop :=
  ∃ lead inner trail, text = lead ++ (inner ++ trail) ∧ White lead ∧ White trail ∧ MemberText numbers inner member

theorem MemberText.spaced {text : Str} {member : Str × Json} (written : MemberText numbers text member) :
    SpacedMember numbers text member :=
  ⟨[], text, [], (List.append_nil text).symm, nofun, nofun, written⟩

/-- The members of an object, as they are stored one after the other. -/
def storeMembers (object members : List (Str × Json)) : List (Str × Json) :=
  members.foldl (fun object member => insert member.1 member.2 object) object

/-- The first member of an object, up to what follows its value. -/
theorem parseMembers_step {text : Str} {member : Str × Json} (written : SpacedMember numbers text member) {n : ℕ}
    (bound : text.length ≤ n) (object : List (Str × Json)) {d : UInt8} {rest : Str} (ends : Ends (d :: rest))
    (follows : skipSpace (d :: rest) = d :: rest) :
    parseMembers numbers (n + 1) object (text ++ d :: rest) =
      if d = 0x2C then parseMembers numbers n (insert member.1 member.2 object) rest
      else if d = 0x7D then some (.object (insert member.1 member.2 object), rest)
      else none := by
  obtain ⟨lead, _, trail, rfl, before, behind, name, value, rfl, dumped, parses⟩ := written
  simp only [List.length_append, List.length_cons] at bound
  have opens : skipSpace (quoted name ++ 0x3A :: value ++ trail ++ d :: rest) =
      quote :: (name ++ quote :: 0x3A :: (value ++ (trail ++ d :: rest))) := by
    simp only [quoted, List.cons_append, List.append_assoc, List.nil_append]
    rfl
  have colon (input : Str) : skipSpace (0x3A :: input) = 0x3A :: input := rfl
  rw [List.append_assoc, ← parseMembers_skipSpace, skipSpace_white before, parseMembers_skipSpace, parseMembers, opens]
  dsimp only
  rw [if_pos rfl, scanString_dumpEscaped dumped]
  dsimp only
  rw [colon]
  dsimp only
  rw [if_pos rfl, parses (by omega) (ends_white behind ends)]
  dsimp only
  rw [skipSpace_white behind, follows]

theorem parseMembers_joinTexts {texts : List Str} {members : List (Str × Json)}
    (written : List.Forall₂ (SpacedMember numbers) texts members) (some_text : texts ≠ []) {n : ℕ}
    (bound : (joinTexts [0x2C] texts).length < n) (object : List (Str × Json)) (rest : Str) :
    parseMembers numbers n object (joinTexts [0x2C] texts ++ 0x7D :: rest) =
      some (.object (storeMembers object members), rest) := by
  induction written generalizing n object with
  | nil => exact absurd rfl some_text
  | @cons text member texts members first others ih =>
      cases n with
      | zero => cases bound
      | succ n =>
          cases others with
          | nil =>
              rw [joinTexts, parseMembers_step first (Nat.le_of_lt_succ bound) object (ends_brace rest) rfl,
                if_neg (by decide), if_pos rfl]
              rfl
          | @cons next _ texts _ second others =>
              rw [joinTexts, List.length_append, List.length_append, List.length_singleton] at bound
              rw [joinTexts_cons, List.singleton_append,
                parseMembers_step first (by omega) object (ends_comma _) rfl, if_pos rfl,
                ih (by simp) (by omega)]
              rfl

/-- An object, with space behind the brace and around the members. -/
theorem Parses.spacedObject {pad : Str} (white : White pad) {texts : List Str} {members : List (Str × Json)}
    (written : List.Forall₂ (SpacedMember numbers) texts members) :
    Parses numbers (0x7B :: (pad ++ (joinTexts [0x2C] texts ++ [0x7D]))) (.object (storeMembers [] members)) := by
  intro n rest bound ends
  cases n with
  | zero => cases bound
  | succ n =>
      have skipped (input : Str) : skipSpace (0x7B :: input) = 0x7B :: input := rfl
      rw [List.cons_append, List.append_assoc, List.append_assoc, List.singleton_append, parseValue, skipped]
      dsimp only
      rw [if_pos rfl, skipSpace_white white]
      simp only [List.length_cons, List.length_append] at bound
      have inside (some_text : texts ≠ []) := parseMembers_joinTexts written some_text
        (show _ < n by omega) [] rest
      cases written with
      | nil => rfl
      | @cons text member texts members first others =>
          have starts : ∃ others, skipSpace (joinTexts [0x2C] (text :: texts) ++ 0x7D :: rest) =
              quote :: others := by
            obtain ⟨lead, _, trail, rfl, before, _, name, value, rfl, _⟩ := first
            cases texts with
            | nil =>
                rw [joinTexts, List.append_assoc, skipSpace_white before]
                exact ⟨_, rfl⟩
            | cons next texts =>
                rw [joinTexts_cons, List.append_assoc, skipSpace_white before]
                exact ⟨_, rfl⟩
          obtain ⟨others, starts⟩ := starts
          rw [starts]
          dsimp only
          rw [if_neg (by decide), ← parseMembers_skipSpace, skipSpace_white white, parseMembers_skipSpace,
            inside (by simp)]

theorem Parses.object {texts : List Str} {members : List (Str × Json)}
    (written : List.Forall₂ (MemberText numbers) texts members) :
    Parses numbers (0x7B :: (joinTexts [0x2C] texts ++ [0x7D])) (.object (storeMembers [] members)) :=
  Parses.spacedObject white_nil (written.imp fun _ _ => MemberText.spaced)

/-! ### Integers -/

theorem digits_accepts {state : NumberState} (stays : ∀ b, isDecimalDigit b = true → state.step b = some state)
    (done : state.isDone = true) {digits : Str} (each : ∀ b ∈ digits, isDecimalDigit b = true) :
    state.accepts digits := by
  induction digits with
  | nil => exact done
  | cons b digits ih =>
      obtain ⟨digit, others⟩ := List.forall_mem_cons.mp each
      rw [NumberState.accepts, stays b digit]
      exact ih others

theorem any1_accepts {digits : Str} (each : ∀ b ∈ digits, isDecimalDigit b = true) :
    NumberState.any1.accepts digits :=
  digits_accepts (fun b digit => by rw [NumberState.step, if_pos digit]) rfl each

theorem digit_of_lt {d : ℕ} (bound : d < 10) :
    isDecimalDigit (UInt8.ofNat (0x30 + d)) = true ∧ (UInt8.ofNat (0x30 + d)).toNat - 0x30 = d := by
  have all : ∀ d < 10, isDecimalDigit (UInt8.ofNat (0x30 + d)) = true ∧
      (UInt8.ofNat (0x30 + d)).toNat - 0x30 = d := by decide
  exact all d bound

theorem digitsText_digits (n : ℕ) : ∀ b ∈ digitsText n, isDecimalDigit b = true := by
  intro b member
  obtain ⟨d, digit, rfl⟩ := List.mem_map.mp member
  exact (digit_of_lt (Nat.digits_lt_base (by decide) (List.mem_reverse.mp digit))).1

theorem decimal_digitsText (n : ℕ) : decimal (digitsText n) = n := by
  have values : ∀ digits : List ℕ, (∀ d ∈ digits, d < 10) →
      digits.foldr (fun d value => 10 * value + ((UInt8.ofNat (0x30 + d)).toNat - 0x30)) 0 =
        Nat.ofDigits 10 digits := by
    intro digits
    induction digits with
    | nil => exact fun _ => rfl
    | cons d digits ih =>
        intro bounds
        obtain ⟨bound, others⟩ := List.forall_mem_cons.mp bounds
        rw [List.foldr_cons, ih others, (digit_of_lt bound).2, Nat.ofDigits_cons, Nat.add_comm]
  rw [decimal, digitsText, List.foldl_map, List.foldl_reverse,
    values _ fun d digit => Nat.digits_lt_base (by decide) digit, Nat.ofDigits_digits]

/-- A positive number does not begin with 0. -/
theorem digitsText_cons {n : ℕ} (positive : n ≠ 0) :
    ∃ b rest, digitsText n = b :: rest ∧ b ≠ 0x30 ∧ b ≠ 0x2D ∧ isDecimalDigit b = true := by
  have some_digit : Nat.digits 10 n ≠ [] := Nat.digits_ne_nil_iff_ne_zero.mpr positive
  have last := Nat.getLast_digit_ne_zero 10 positive
  have bound := Nat.digits_lt_base (b := 10) (by decide) (List.getLast_mem some_digit)
  have digits := List.dropLast_append_getLast some_digit
  generalize (Nat.digits 10 n).getLast some_digit = d at last bound digits
  have other : ∀ d < 10, d ≠ 0 → UInt8.ofNat (0x30 + d) ≠ 0x30 ∧ UInt8.ofNat (0x30 + d) ≠ 0x2D := by decide
  have first : digitsText n = UInt8.ofNat (0x30 + d) ::
      (Nat.digits 10 n).dropLast.reverse.map fun d => UInt8.ofNat (0x30 + d) := by
    rw [digitsText, ← digits, List.reverse_append, List.reverse_singleton, List.singleton_append,
      List.map_cons, List.dropLast_concat]
  exact ⟨_, _, first, (other d bound last).1, (other d bound last).2, (digit_of_lt bound).1⟩

theorem isReal_digits {digits : Str} (each : ∀ b ∈ digits, isDecimalDigit b = true) : isReal digits = false := by
  rw [isReal, List.any_eq_false]
  intro b member real
  have digit := each b member
  simp only [isExponent, Bool.or_eq_true, beq_iff_eq] at real
  rcases real with rfl | rfl | rfl <;> exact absurd digit (by decide)

/-- The text of a positive number is scanned as one number, also after a minus sign. -/
theorem digitsText_accepts {n : ℕ} (positive : n ≠ 0) :
    NumberState.init.accepts (digitsText n) ∧ NumberState.init.accepts (0x2D :: digitsText n) := by
  obtain ⟨b, rest, digits, not_zero, not_minus, digit⟩ := digitsText_cons positive
  have others : NumberState.any1.accepts rest :=
    any1_accepts fun c member => digitsText_digits n c (digits ▸ List.mem_cons_of_mem _ member)
  rw [digits]
  constructor
  · rw [NumberState.accepts, NumberState.step, if_neg not_minus, if_neg not_zero, if_pos digit]
    exact others
  · rw [NumberState.accepts, NumberState.step, if_pos rfl]
    dsimp only
    rw [NumberState.accepts, NumberState.step, if_neg not_zero, if_pos digit]
    exact others

theorem numberValue_positive {n : ℕ} (positive : n ≠ 0) (bound : n < 2 ^ 64) :
    numberValue numbers (digitsText n) = some (.integer (Int64.ofNat n)) := by
  obtain ⟨b, rest, digits, _, not_minus, _⟩ := digitsText_cons positive
  have whole : ¬ isReal (digitsText n) = true := by simp [isReal_digits (digitsText_digits n)]
  unfold numberValue
  rw [if_neg whole]
  split
  · next minus => exact absurd (List.cons.inj (digits.symm.trans minus)).1 not_minus
  · rw [decimal_digitsText, if_pos bound]

theorem numberValue_negative {n : ℕ} (bound : n ≤ 2 ^ 63) :
    numberValue numbers (0x2D :: digitsText n) = some (.integer (Int64.ofInt (-n))) := by
  have whole : ¬ isReal (0x2D :: digitsText n) = true := by
    have digits := isReal_digits (digitsText_digits n)
    rw [isReal, List.any_cons]
    rw [isReal] at digits
    rw [digits]
    decide
  rw [numberValue, if_neg whole, decimal_digitsText]
  exact if_pos bound

/-- An integer is read as it was written. -/
theorem Parses.integer (n : Int64) : Parses numbers (dumpInteger n) (.integer n) := by
  have lower := Int64.le_toInt n
  have upper := Int64.toInt_lt n
  rw [dumpInteger]
  split
  · next zero =>
    obtain rfl : n = 0 := Int64.toInt_inj.mp zero
    apply Parses.number
    · rfl
    · rfl
  · next other =>
    have positive := Int.natAbs_ne_zero.mpr other
    split
    · next negative =>
      have value : -((n.toInt.natAbs : ℕ) : ℤ) = n.toInt := by omega
      apply Parses.number (digitsText_accepts positive).2
      rw [numberValue_negative (by omega), value, Int64.ofInt_toInt]
    · next not_negative =>
      have value : ((n.toInt.natAbs : ℕ) : ℤ) = n.toInt := by omega
      apply Parses.number (digitsText_accepts positive).1
      rw [numberValue_positive positive (by omega), ← Int64.ofInt_eq_ofNat, value, Int64.ofInt_toInt]

/-- A real number is read as it was written. -/
theorem Parses.real {bits : UInt64} (finite : isFinite bits = true) :
    Parses numbers (numbers.realText bits) (.float bits) := by
  apply Parses.number (numbers.realText_accepts bits finite)
  unfold numberValue
  rw [if_pos (numbers.realText_isReal bits finite), realValue, numbers.readReal_realText bits finite, if_pos finite]

/-- A format that writes the bits of a number, as an exponent of zero. -/
def bitsFormat : NumberFormat where
  realText bits := 0x30 :: 0x65 :: 0x30 :: digitsText bits.toNat
  readReal token := UInt64.ofNat (decimal (token.drop 2))
  realText_accepts bits _ := by
    have digits : NumberState.any2.accepts (digitsText bits.toNat) :=
      digits_accepts (fun b digit => by rw [NumberState.step, if_pos digit]) rfl (digitsText_digits bits.toNat)
    exact digits
  realText_isReal bits _ := rfl
  readReal_realText bits _ := by
    have leading (digits : Str) : decimal (0x30 :: digits) = decimal digits := rfl
    rw [List.drop_succ_cons, List.drop_succ_cons, List.drop_zero, leading, decimal_digitsText,
      UInt64.ofNat_toNat]

/-! ### The round trip -/

mutual

/-- A document that is written without loss: real numbers are finite, and the members of an object are in
    order. -/
def Regular : Json → Prop
  | .float bits => isFinite bits = true
  | .array elements => RegularElements elements
  | .object members => Ordered members ∧ RegularMembers members
  | _ => True

def RegularElements : List Json → Prop
  | [] => True
  | j :: rest => Regular j ∧ RegularElements rest

def RegularMembers : List (Str × Json) → Prop
  | [] => True
  | (_, j) :: rest => Regular j ∧ RegularMembers rest

end

theorem storeMembers_ordered {object members : List (Str × Json)} (ordered : Ordered (object ++ members)) :
    storeMembers object members = object ++ members := by
  induction members generalizing object with
  | nil => rw [List.append_nil]; rfl
  | cons member rest ih =>
      have last : insert member.1 member.2 object = object ++ [member] :=
        insert_last member.2 fun entry inside =>
          (List.pairwise_append.mp ordered).2.2 entry inside member List.mem_cons_self
      rw [← List.singleton_append, ← List.append_assoc] at ordered
      rw [storeMembers, List.foldl_cons, last, ← storeMembers, ih ordered, List.append_assoc,
        List.singleton_append]

theorem storeMembers_of_ordered {members : List (Str × Json)} (ordered : Ordered members) :
    storeMembers [] members = members :=
  storeMembers_ordered ordered

mutual

/-- What is written for a document is parsed as this document. -/
theorem dump_parses : ∀ {j : Json} {text : Str}, Regular j → dump numbers j = .ok text → Parses numbers text j
  | .null, text, _, written => by
      cases written
      exact Parses.null
  | .boolean b, text, _, written => by
      cases written
      exact Parses.boolean b
  | .integer n, text, _, written => by
      cases written
      exact Parses.integer n
  | .float bits, text, regular, written => by
      rw [Regular] at regular
      rw [dump, if_pos regular] at written
      cases written
      exact Parses.real regular
  | .string content, text, _, written => by
      obtain ⟨escaped, dumped, rfl⟩ := except_map_eq_ok.mp written
      exact Parses.string dumped
  | .array elements, text, regular, written => by
      obtain ⟨texts, dumped, rfl⟩ := except_map_eq_ok.mp written
      have blank : Blank [] := nofun
      exact Parses.array blank (dumpElements_parses regular dumped)
  | .object members, text, regular, written => by
      obtain ⟨texts, dumped, rfl⟩ := except_map_eq_ok.mp written
      obtain ⟨ordered, each⟩ := regular
      exact storeMembers_of_ordered ordered ▸ Parses.object (dumpMembers_parses each dumped)

theorem dumpElements_parses : ∀ {elements : List Json} {texts : List Str}, RegularElements elements →
    dumpElements numbers elements = .ok texts → List.Forall₂ (Parses numbers) texts elements
  | [], texts, _, written => by
      cases written
      exact .nil
  | j :: rest, texts, regular, written => by
      rw [dumpElements] at written
      cases first : dump numbers j with
      | error e => simp [first] at written
      | ok text =>
          simp only [first] at written
          obtain ⟨others, tail, rfl⟩ := except_map_eq_ok.mp written
          exact .cons (dump_parses regular.1 first) (dumpElements_parses regular.2 tail)

theorem dumpMembers_parses : ∀ {members : List (Str × Json)} {texts : List Str}, RegularMembers members →
    dumpMembers numbers members = .ok texts → List.Forall₂ (MemberText numbers) texts members
  | [], texts, _, written => by
      cases written
      exact .nil
  | (key, j) :: rest, texts, regular, written => by
      rw [dumpMembers] at written
      cases named : dumpEscaped .start key with
      | error e => simp [named] at written
      | ok name =>
          cases first : dump numbers j with
          | error e => simp [named, first] at written
          | ok text =>
              simp only [named, first] at written
              obtain ⟨others, tail, rfl⟩ := except_map_eq_ok.mp written
              have colon : quoted name ++ str ":" ++ text = quoted name ++ 0x3A :: text := by
                rw [List.append_assoc]
                rfl
              exact .cons ⟨name, text, colon, named, dump_parses regular.1 first⟩
                (dumpMembers_parses regular.2 tail)

end

/-- A text that is parsed as a document wherever it stands is parsed as this document, also with space behind
    it. -/
theorem Parses.parse_spaced {text trail : Str} {j : Json} (parses : Parses numbers text j) (white : White trail) :
    Configuration.parse numbers (text ++ trail) = some j := by
  obtain ⟨b, others, head, _, no_bom⟩ := parses.head
  have unmarked : skipBom (text ++ trail) = some (text ++ trail) := by
    cases text with
    | nil => cases head
    | cons c text =>
        have other : c ≠ 0xEF := by
          rintro rfl
          exact no_bom (List.cons.inj head).1.symm
        rw [List.cons_append, skipBom.eq_def]
        exact if_neg other
  have ends : Ends trail := by
    have alone := ends_white white ends_nil
    rwa [List.append_nil] at alone
  have blank : skipSpace trail = [] := by
    have alone := skipSpace_white white []
    rwa [List.append_nil] at alone
  have long : text.length ≤ (text ++ trail).length + 1 := by
    rw [List.length_append]
    omega
  rw [Configuration.parse, unmarked]
  dsimp only
  rw [parses long ends]
  dsimp only
  rw [blank]

theorem Parses.parse {text : Str} {j : Json} (parses : Parses numbers text j) :
    Configuration.parse numbers text = some j := by
  have whole := parses.parse_spaced white_nil
  rwa [List.append_nil] at whole

end

end Experimaestro.Configuration

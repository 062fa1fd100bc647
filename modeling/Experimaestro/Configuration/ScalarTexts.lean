/-
Module: Experimaestro.Configuration.ScalarTexts
Layer: Configuration
Purpose: Scalars and texts. `asString` and `fromString` are not inverse: the first writes signs and the Booleans as
  digits, which the second refuses, as it refuses the type of texts. A text that is given for a type is parsed by
  `fromString`, and cast where it comes in an object; the two differ for all types but paths.
Imports: Experimaestro.Configuration.Sealing (fromString), Experimaestro.Configuration.Exposure (sample types)
Trusted boundary: none (fully proved)
Main exports: Predefined, SurvivesText, text_read_back, TextType, SameOutcome, typed_text_agrees
Open obligations: none
-/
import Mathlib.Data.Int.Notation
import Mathlib.Tactic.Common
import Experimaestro.Configuration.Exposure
import Experimaestro.Configuration.Sealing

namespace Experimaestro.Configuration

section

variable {Ty Job : Type} [DecidableEq Ty] (register : Register Ty Job) (atof : Str → UInt64) (table : Table Ty)

/-! ### The predefined types -/

/-- The predefined types: their names, what they hold, and their entries in the table. -/
structure Predefined : Prop where
  name_boolean : register.types.name register.types.boolean = str "boolean"
  name_integer : register.types.name register.types.integer = str "integer"
  valueType_boolean : register.valueType register.types.boolean = some .boolean
  valueType_integer : register.valueType register.types.integer = some .integer
  valueType_real : register.valueType register.types.real = some .real
  known_boolean : lookup (str "boolean") table = some register.types.boolean
  known_integer : lookup (str "integer") table = some register.types.integer
  known_real : lookup (str "real") table = some register.types.real
  known_path : lookup (str "path") table = some register.types.path

variable {register table}

omit [DecidableEq Ty] in
/-- Types of different names are different types. -/
theorem base_ne {s t : Ty} {a b : Str} (first : register.types.name s = a) (second : register.types.name t = b)
    (other : a ≠ b) : (TypeRef.base s : TypeRef Ty) ≠ .base t := by
  intro same
  cases same
  exact other (first.symm.trans second)

/-! ### `fromString` for each type -/

variable {atof}

theorem fromString_path (text : Str) :
    Scalar.fromString atof register.types text (.base register.types.path) = .ok (.path text) := by
  unfold Scalar.fromString
  rw [if_neg (base_ne register.name_path register.name_any (by decide)), if_pos rfl]

variable (atof) in
theorem fromString_integer (predefined : Predefined register table) (text : Str) :
    Scalar.fromString atof register.types text (.base register.types.integer) =
      if matchesInteger text then .ok (.integer (atol text))
      else .error (.argumentError (text ++ str " cannot be interpreted as an integer")) := by
  unfold Scalar.fromString
  rw [if_neg (base_ne predefined.name_integer register.name_any (by decide)),
    if_neg (base_ne predefined.name_integer register.name_path (by decide)), if_pos rfl]

variable (atof) in
theorem fromString_boolean (predefined : Predefined register table) (text : Str) :
    Scalar.fromString atof register.types text (.base register.types.boolean) =
      (readBoolean text).elim (.error (.argumentError (text ++ str " cannot be interpreted as a boolean")))
        fun b => .ok (.boolean b) := by
  unfold Scalar.fromString
  rw [if_neg (base_ne predefined.name_boolean register.name_any (by decide)),
    if_neg (base_ne predefined.name_boolean register.name_path (by decide)),
    if_neg (base_ne predefined.name_boolean predefined.name_integer (by decide)), if_pos rfl]
  cases readBoolean text with
  | none => rfl
  | some b => rfl

theorem fromString_real (predefined : Predefined register table) (text : Str) :
    Scalar.fromString atof register.types text (.base register.types.real) =
      if matchesReal text then .ok (.real (atof text))
      else .error (.argumentError (text ++ str " cannot be interpreted as a real")) := by
  unfold Scalar.fromString
  rw [if_neg (base_ne register.name_real register.name_any (by decide)),
    if_neg (base_ne register.name_real register.name_path (by decide)),
    if_neg (base_ne register.name_real predefined.name_integer (by decide)),
    if_neg (base_ne register.name_real predefined.name_boolean (by decide)), if_pos rfl]

/-- There is no case for the type of texts. -/
theorem fromString_string (predefined : Predefined register table) (text : Str) :
    Scalar.fromString atof register.types text (.base register.types.string) =
      .error (.argumentError (str "Type " ++ str "string" ++ str " is not a scalar type")) := by
  unfold Scalar.fromString
  rw [if_neg (base_ne register.name_string register.name_any (by decide)),
    if_neg (base_ne register.name_string register.name_path (by decide)),
    if_neg (base_ne register.name_string predefined.name_integer (by decide)),
    if_neg (base_ne register.name_string predefined.name_boolean (by decide)),
    if_neg (base_ne register.name_string register.name_real (by decide)), Types.nameOf, register.name_string]

/-! ### Decimal texts -/

theorem digit_range {c : Char} (digit : c.isDigit = true) : 48 ≤ c.toNat ∧ c.toNat ≤ 57 :=
  Char.isDigit_iff_toNat.mp digit

theorem toNat_digit {c : Char} (digit : c.isDigit = true) : (UInt8.ofNat c.toNat).toNat = c.toNat := by
  have range := digit_range digit
  apply UInt8.toNat_ofNat_of_lt'
  exact Nat.lt_of_le_of_lt range.2 (by decide)

/-- The bytes of a text of digits are the digits. -/
theorem foldl_digits (digits : List Char) (each : ∀ c ∈ digits, c.isDigit = true) (start : ℕ) :
    (digits.map fun c => UInt8.ofNat c.toNat).foldl (fun n c => 10 * n + (c.toNat - 48)) start =
      Nat.ofDigitChars 10 digits start := by
  induction digits generalizing start with
  | nil => rfl
  | cons c rest ih =>
      obtain ⟨digit, others⟩ := List.forall_mem_cons.mp each
      rw [List.map_cons, List.foldl_cons, ih others, Nat.ofDigitChars_cons, toNat_digit digit]
      rfl

/-- The text of a number that is not negative. -/
theorem str_toString_ofNat (n : ℕ) :
    str (toString (n : ℤ)) = (Nat.toDigits 10 n).map fun c => UInt8.ofNat c.toNat := by
  unfold str
  rw [show toString (n : ℤ) = n.repr from rfl, Nat.toList_repr]

theorem isDigit_ofNat {c : Char} (digit : c.isDigit = true) : isDigit (UInt8.ofNat c.toNat) = true := by
  unfold isDigit
  simp only [Bool.and_eq_true, decide_eq_true_eq, UInt8.le_iff_toNat_le, toNat_digit digit]
  exact digit_range digit

theorem matchesInteger_ofNat (n : ℕ) : matchesInteger (str (toString (n : ℤ))) = true := by
  rw [str_toString_ofNat, matchesInteger, Bool.and_eq_true]
  constructor
  · rw [List.isEmpty_map, Bool.not_eq_true', List.isEmpty_eq_false_iff]
    exact Nat.toDigits_ne_nil
  · rw [List.all_map, List.all_eq_true]
    intro c member
    exact isDigit_ofNat (Nat.isDigit_of_mem_toDigits (by decide) (by decide) member)

theorem atol_ofNat {n : ℕ} (bound : n < 2 ^ 63) : atol (str (toString (n : ℤ))) = Int64.ofNat n := by
  have digits : ∀ c ∈ Nat.toDigits 10 n, c.isDigit = true := fun c member =>
    Nat.isDigit_of_mem_toDigits (by decide) (by decide) member
  rw [str_toString_ofNat, atol, foldl_digits _ digits, Nat.ofDigitChars_ten_toDigits, Nat.min_eq_left (by omega)]

/-- The text of a negative number begins with its sign. -/
theorem matchesInteger_negative {n : ℤ} (negative : n < 0) : matchesInteger (str (toString n)) = false := by
  obtain ⟨m, rfl⟩ := Int.eq_negSucc_of_lt_zero negative
  have signed : str (toString (Int.negSucc m)) = 0x2D :: str (m + 1).repr := by
    unfold str
    rw [show toString (Int.negSucc m) = "-" ++ (m + 1).repr from rfl, String.toList_append, List.map_append]
    rfl
  rw [signed]
  rfl

/-! ### Scalars through their text -/

variable (register atof) in
/-- The text of a scalar is read, for the type of the scalar, as an equal one. -/
def SurvivesText (x : Scalar) : Prop :=
  ∃ text y, x.asString register.conversions = some text ∧
    Scalar.fromString atof register.types text (Value.type register.types (.scalar {} x : Value Ty Job)) = .ok y ∧
    y.equals x = .ok true

/-- The scalars whose text is read back: the paths, and the integers without a sign. -/
def TextReadable : Scalar → Prop
  | .path _ => True
  | .integer n => 0 ≤ n.toInt
  | _ => False

/-- The integers that are not negative. -/
theorem survivesText_integer (predefined : Predefined register table) (n : Int64) :
    SurvivesText register atof (.integer n) ↔ 0 ≤ n.toInt := by
  have read := fromString_integer atof predefined (str (toString n.toInt))
  by_cases negative : n.toInt < 0
  · rw [matchesInteger_negative negative, if_neg Bool.false_ne_true] at read
    constructor
    · rintro ⟨text, y, written, back, _⟩
      cases written
      exact nomatch read.symm.trans back
    · intro positive
      omega
  · obtain ⟨k, value⟩ := Int.eq_ofNat_of_zero_le (Int.not_lt.mp negative)
    have bound : k < 2 ^ 63 := by
      have below := n.toInt_lt
      omega
    have same : Int64.ofNat k = n := by
      apply Int64.toInt_inj.mp
      rw [Int64.toInt_ofNat_of_lt bound, value]
    rw [value, matchesInteger_ofNat, if_pos rfl, atol_ofNat bound, same] at read
    constructor
    · intro _
      omega
    · intro _
      refine ⟨_, .integer n, rfl, ?_, ?_⟩
      · rw [value]
        exact read
      · exact congrArg Except.ok (beq_self_eq_true n)

/-- A path is read back, an integer if it has no sign; Booleans and texts are refused. -/
theorem text_read_back (predefined : Predefined register table) (x : Scalar)
    (kind : x.scalarType ∈ [.integer, .boolean, .string, .path]) :
    SurvivesText register atof x ↔ TextReadable x := by
  cases x with
  | unset => exact absurd kind (by decide)
  | none => exact absurd kind (by decide)
  | real bits => exact absurd kind (by simp [Scalar.scalarType])
  | integer n => exact survivesText_integer predefined n
  | path text =>
      refine ⟨fun _ => trivial, fun _ => ⟨text, .path text, rfl, fromString_path text, ?_⟩⟩
      exact congrArg Except.ok (beq_self_eq_true text)
  | string text =>
      refine ⟨?_, False.elim⟩
      rintro ⟨text', y, _, back, _⟩
      cases (fromString_string predefined text').symm.trans back
  | boolean b =>
      refine ⟨?_, False.elim⟩
      rintro ⟨text, y, written, back, _⟩
      have digit : readBoolean text = none := by
        cases written
        cases b <;> decide
      have refused := fromString_boolean atof predefined text
      rw [digit] at refused
      cases refused.symm.trans back

/-! ### Texts for a type -/

/-- The predefined types for which a text is converted. -/
inductive TextType where
  | integer
  | boolean
  | real
  | path
deriving DecidableEq, Repr

namespace TextType

/-- The name of the type. -/
def name : TextType → Str
  | .integer => str "integer"
  | .boolean => str "boolean"
  | .real => str "real"
  | .path => str "path"

/-- What the type holds. -/
def valueType : TextType → ScalarType
  | .integer => .integer
  | .boolean => .boolean
  | .real => .real
  | .path => .path

/-- The type object. -/
def object (types : Types Ty Job) : TextType → Ty
  | .integer => types.integer
  | .boolean => types.boolean
  | .real => types.real
  | .path => types.path

/-- The texts that mean the same in an object as on their own: all paths, no integer, the Boolean texts that stand for
true, the texts of the real number 1, and the texts that are refused in both. -/
def Agrees (atof : Str → UInt64) : TextType → Str → Prop
  | .integer, text => matchesInteger text = false
  | .boolean, text => readBoolean text = some true
  | .real, text => matchesReal text = true ∧ Scalar.realEquals 0x3FF0000000000000 (atof text) = true
  | .path, _ => True

end TextType

/-- The object that gives a text for a type. -/
def typedText (type : TextType) (text : Str) : Json :=
  .object [(str "$type", .string type.name), (str "$value", .string text)]

omit [DecidableEq Ty] in
/-- Both fail, or both give equal scalars. -/
def SameOutcome : Except Error (Value Ty Job) → Except Error Scalar → Prop
  | .ok (.scalar _ x), .ok y => x.equals y = .ok true
  | .error _, .error _ => True
  | _, _ => False

namespace Predefined

variable (predefined : Predefined register table)

omit [DecidableEq Ty]

include predefined

theorem name_object (type : TextType) : register.types.name (type.object register.types) = type.name := by
  cases type with
  | integer => exact predefined.name_integer
  | boolean => exact predefined.name_boolean
  | real => exact register.name_real
  | path => exact register.name_path

theorem valueType_object (type : TextType) :
    register.valueType (type.object register.types) = some type.valueType := by
  cases type with
  | integer => exact predefined.valueType_integer
  | boolean => exact predefined.valueType_boolean
  | real => exact predefined.valueType_real
  | path => exact register.valueType_path

theorem known (type : TextType) : lookup type.name table = some (type.object register.types) := by
  cases type with
  | integer => exact predefined.known_integer
  | boolean => exact predefined.known_boolean
  | real => exact predefined.known_real
  | path => exact predefined.known_path

/-- None of the types accepts a text as it is. -/
theorem refuses_string (type : TextType) :
    register.types.accepts (.base (type.object register.types)) (.base register.types.string) = false := by
  apply accepts_string
  · rw [predefined.name_object]
    cases type <;> decide
  · rw [predefined.name_object]
    cases type <;> decide
  · rw [predefined.name_integer]
    exact .inr (by decide)

/-- In an object, the text is cast to the type. -/
theorem create_typedText (type : TextType) (text : Str) :
    ∃ e, (create register (typedText type text) table).1 =
      ((Scalar.string text).cast register.conversions type.valueType).elim (.error e) fun x => .ok (.scalar {} x) := by
  have simple : componentName type.name = none := by
    cases type <;> decide
  have kind : register.simple (.base (type.object register.types)) = some type.valueType :=
    predefined.valueType_object type
  have refused := predefined.refuses_string type
  rw [typedText, create_typedValue, resolve_of_simple register simple (predefined.known type)]
  unfold scalarFor
  simp only [scalarOf, Value.type, Scalar.scalarType, Scalar.null, refused, kind, Option.bind_some]
  cases (Scalar.string text).cast register.conversions type.valueType with
  | none => exact ⟨_, rfl⟩
  | some x => exact ⟨.jsonError, rfl⟩

end Predefined

/-- The two ways to give a text for a type agree on the texts that are named above. -/
theorem typed_text_agrees (predefined : Predefined register table) (type : TextType) (text : Str) :
    SameOutcome (create register (typedText type text) table).1
        (Scalar.fromString atof register.types text (.base (type.object register.types))) ↔
      type.Agrees atof text := by
  obtain ⟨e, created⟩ := predefined.create_typedText type text
  rw [created]
  cases type with
  | path =>
      rw [show TextType.path.object register.types = register.types.path from rfl, fromString_path]
      exact iff_true_intro (congrArg Except.ok (beq_self_eq_true text))
  | integer =>
      rw [show TextType.integer.object register.types = register.types.integer from rfl,
        fromString_integer atof predefined]
      cases read : matchesInteger text with
      | false => exact iff_of_true trivial read
      | true => exact iff_of_false id fun refused => nomatch read.symm.trans refused
  | boolean =>
      rw [show TextType.boolean.object register.types = register.types.boolean from rfl,
        fromString_boolean atof predefined]
      cases read : readBoolean text with
      | none => exact iff_of_false id fun accepted => nomatch read.symm.trans accepted
      | some b =>
          -- the empty text, which is cast to false, is none of the texts of Booleans
          have filled : (text != []) = true := by
            apply bne_iff_ne.mpr
            rintro rfl
            exact nomatch read
          have cast : (Scalar.string text).cast register.conversions .boolean = some (.boolean true) :=
            congrArg (fun value => some (Scalar.boolean value)) filled
          rw [TextType.valueType, cast]
          have stands : TextType.boolean.Agrees atof text ↔ some b = some true := by rw [← read]; rfl
          rw [stands]
          cases b with
          | true => exact iff_of_true rfl rfl
          | false => exact iff_of_false nofun nofun
  | real =>
      rw [show TextType.real.object register.types = register.types.real from rfl, fromString_real predefined]
      cases read : matchesReal text with
      | false => exact iff_of_false id fun agrees => nomatch read.symm.trans agrees.1
      | true =>
          have filled : text ≠ [] := by
            rintro rfl
            exact nomatch read
          have cast : (Scalar.string text).cast register.conversions .real = some (.real 0x3FF0000000000000) :=
            congrArg (fun value => some (Scalar.real value)) (if_neg filled)
          rw [TextType.valueType, cast]
          constructor
          · intro equal
            exact ⟨read, Except.ok.inj equal⟩
          · intro agrees
            exact congrArg Except.ok agrees.2

end

/-- The predefined types of the sample. -/
theorem samplePredefined : Predefined sampleRegister sampleTable := by
  constructor <;> rfl

theorem text_read_back_limit :
    SurvivesText sampleRegister (fun _ => 0) (.integer 9223372036854775807) ↔
      TextReadable (.integer 9223372036854775807) :=
  text_read_back samplePredefined _ (by decide)

/-- The text `-1` of an integer, `1` of a Boolean, and any text of a string are refused. -/
theorem text_refused :
    ¬∀ x : Scalar, x.scalarType ∈ [.integer, .boolean, .string, .path] →
      SurvivesText sampleRegister (fun _ => 0) x := by
  intro always
  obtain ⟨text, y, written, back, _⟩ := always (.integer (-1)) (by decide)
  cases written
  exact nomatch back

theorem typed_text_agrees_true :
    SameOutcome (create sampleRegister (typedText .boolean (str "Yes")) sampleTable).1
        (Scalar.fromString (fun _ => 0) sampleTypes (str "Yes") (.base .boolean)) ↔
      TextType.boolean.Agrees (fun _ => 0) (str "Yes") :=
  typed_text_agrees samplePredefined .boolean (str "Yes")

/-- The text `12` for an integer is parsed as 12, and cannot be cast. -/
theorem typed_text_disagrees :
    ¬∀ (type : TextType) (text : Str),
      SameOutcome (create sampleRegister (typedText type text) sampleTable).1
        (Scalar.fromString (fun _ => 0) sampleTypes text (.base (type.object sampleTypes))) := by
  intro always
  exact always .integer (str "12")

end Experimaestro.Configuration

/-
Module: Experimaestro.Configuration.Integers
Layer: Configuration
Purpose: An integer literal on its way from a document to a field of the program. The JSON library stores it as a
  signed or an unsigned number of 64 bits, the scalar as a `long`, and the receiver takes a `long` or an `int`.
  Each conversion takes the number modulo a power of two, and none reports that it does not fit.
Imports: Experimaestro.Configuration.JsonText (literals), Experimaestro.Configuration.Exposure (sample types)
Trusted boundary: human-reviewed model of the JSON library's numbers, Scalar(json), ScalarValue::asInteger,
  assignValue and scalarvalue_asinteger
Main exports: StoredNumber, storeLiteral, literalValue, Receiver, receive, delivered, delivered_unchanged
Open obligations: none
-/
import Mathlib.Tactic.Common
import Experimaestro.Configuration.JsonText
import Experimaestro.Configuration.Exposure

namespace Experimaestro.Configuration

/-! ### Literals -/

/-- `number_integer` and `number_unsigned`. -/
inductive StoredNumber where
  | signed (value : Int64)
  | unsigned (value : UInt64)
deriving DecidableEq, Repr

/-- The conversion of the library to `long`, a `static_cast`. -/
def StoredNumber.toLong : StoredNumber → Int64
  | .signed value => value
  | .unsigned value => value.toInt64

/-- What the library stores for an integer literal, if it fits 64 bits. -/
def storeLiteral : Str → Option StoredNumber
  | 0x2D :: digits =>
      if decimal digits ≤ 2 ^ 63 then some (.signed (Int64.ofInt (-decimal digits))) else none
  | digits => if decimal digits < 2 ^ 64 then some (.unsigned (UInt64.ofNat (decimal digits))) else none

/-- The number that an integer literal stands for. -/
def literalValue : Str → ℤ
  | 0x2D :: digits => -decimal digits
  | digits => decimal digits

/-- A literal that is stored has a minus sign or not. -/
theorem storeLiteral_cases {token : Str} {s : StoredNumber} (stored : storeLiteral token = some s) :
    (∃ digits, token = 0x2D :: digits ∧ decimal digits ≤ 2 ^ 63 ∧ s = .signed (Int64.ofInt (-decimal digits))) ∨
      ((∀ digits, token ≠ 0x2D :: digits) ∧ literalValue token = decimal token ∧ decimal token < 2 ^ 64 ∧
        s = .unsigned (UInt64.ofNat (decimal token))) := by
  unfold storeLiteral at stored
  split at stored
  case h_1 digits =>
      left
      split at stored
      case isTrue fits => exact ⟨digits, rfl, fits, (Option.some.inj stored).symm⟩
      case isFalse => cases stored
  case h_2 positive =>
      right
      split at stored
      case isTrue fits =>
          refine ⟨fun digits minus => positive digits minus, ?_, fits, (Option.some.inj stored).symm⟩
          unfold literalValue
          split
          case h_1 digits => exact absurd rfl (positive digits)
          case h_2 => rfl
      case isFalse => cases stored

/-- A literal is read as the integer that `Scalar(json)` takes from it. -/
theorem numberValue_stored (numbers : NumberFormat) {token : Str} (whole : isReal token = false) {s : StoredNumber}
    (stored : storeLiteral token = some s) : numberValue numbers token = some (.integer s.toLong) := by
  unfold numberValue
  rw [whole, if_neg Bool.false_ne_true]
  cases storeLiteral_cases stored with
  | inl negative =>
      obtain ⟨digits, rfl, fits, rfl⟩ := negative
      exact if_pos fits
  | inr positive =>
      obtain ⟨unsigned, value, fits, rfl⟩ := positive
      split
      case h_1 digits => exact absurd rfl (unsigned digits)
      case h_2 => exact if_pos fits

/-! ### The way through the program -/

/-- Who takes the number. -/
inductive Receiver where
  /-- `assignValue` to an `int`. -/
  | int
  /-- `assignValue` to a `long`. -/
  | long
  /-- `scalarvalue_asinteger`. -/
  | scalarvalueAsInteger
deriving DecidableEq, Repr

/-- The conversion of a `long` to the type of the receiver. -/
def Receiver.convert : Receiver → Int64 → ℤ
  | .int, n => n.toInt32.toInt
  | .long, n => n.toInt
  | .scalarvalueAsInteger, n => n.toInt32.toInt

/-- `ScalarValue::asInteger`; without a result, an exception is thrown. -/
def scalarValueAsInteger (conversions : Conversions) : Scalar → Option Int64
  | .unset => none
  | s => s.asInteger conversions

/-- What a receiver gets from a scalar. -/
def receive (conversions : Conversions) (receiver : Receiver) (s : Scalar) : Option ℤ :=
  (scalarValueAsInteger conversions s).map receiver.convert

section

variable {Ty Job : Type} (register : Register Ty Job) (table : Table Ty)

/-- What a receiver gets for a stored number: the number goes through `Value::create` and the scalar that it builds. -/
def delivered (receiver : Receiver) (s : StoredNumber) : Option ℤ :=
  match (create register (.integer s.toLong) table).1 with
  | .ok (.scalar _ value) => receive register.conversions receiver value
  | _ => none

/-- Either an exception is thrown, or the receiver gets the number of the literal. -/
def DeliveredUnchanged (receiver : Receiver) (s : StoredNumber) (n : ℤ) : Prop :=
  ∀ received, delivered register table receiver s = some received → received = n

/-- The numbers that a receiver can take. -/
def Receiver.Fits : Receiver → ℤ → Prop
  | .long, n => n < 2 ^ 63
  | _, n => -2 ^ 31 ≤ n ∧ n < 2 ^ 31

instance (receiver : Receiver) (n : ℤ) : Decidable (receiver.Fits n) := by
  cases receiver <;> unfold Receiver.Fits <;> infer_instance

theorem delivered_eq (receiver : Receiver) (s : StoredNumber) :
    delivered register table receiver s = some (receiver.convert s.toLong) := by
  unfold delivered
  rw [create]
  rfl

end

/-! ### Ranges -/

/-- A number is its own residue exactly in the range of the residues. -/
theorem bmod_eq_self_iff {n : ℤ} {half : ℕ} (positive : 0 < half) :
    n.bmod (2 * half) = n ↔ -half ≤ n ∧ n < half := by
  rw [Int.bmod_eq_iff (by omega)]
  constructor
  · intro residue
    omega
  · intro range
    refine ⟨by omega, by omega, ?_⟩
    rw [Int.sub_self]
    exact Int.dvd_zero _

theorem storeLiteral_range {token : Str} {s : StoredNumber} (stored : storeLiteral token = some s) :
    -2 ^ 63 ≤ literalValue token ∧ literalValue token < 2 ^ 64 := by
  cases storeLiteral_cases stored with
  | inl negative =>
      obtain ⟨digits, rfl, fits, _⟩ := negative
      rw [show literalValue (0x2D :: digits) = -decimal digits from rfl]
      omega
  | inr positive =>
      obtain ⟨_, value, fits, _⟩ := positive
      omega

/-- The `long` of the scalar is the residue of the literal. -/
theorem toInt_toLong {token : Str} {s : StoredNumber} (stored : storeLiteral token = some s) :
    s.toLong.toInt = (literalValue token).bmod (2 * 2 ^ 63) := by
  cases storeLiteral_cases stored with
  | inl negative =>
      obtain ⟨digits, rfl, _, rfl⟩ := negative
      exact Int64.toInt_ofInt
  | inr positive =>
      obtain ⟨_, value, _, rfl⟩ := positive
      rw [value]
      exact Int64.toInt_ofNat'

/-- What an `int` receives is the residue of the literal, too. -/
theorem toInt_toInt32_toLong {token : Str} {s : StoredNumber} (stored : storeLiteral token = some s) :
    s.toLong.toInt32.toInt = (literalValue token).bmod (2 * 2 ^ 31) := by
  rw [Int64.toInt_toInt32, toInt_toLong stored]
  apply Int.bmod_bmod_of_dvd
  decide

/-- Receiving: the number of the literal arrives exactly where the receiver can take it. -/
theorem convert_eq_iff {token : Str} {s : StoredNumber} (stored : storeLiteral token = some s)
    (receiver : Receiver) : receiver.convert s.toLong = literalValue token ↔ receiver.Fits (literalValue token) := by
  have range := storeLiteral_range stored
  cases receiver with
  | int =>
      rw [Receiver.convert, toInt_toInt32_toLong stored, bmod_eq_self_iff (by decide)]
      exact Iff.rfl
  | scalarvalueAsInteger =>
      rw [Receiver.convert, toInt_toInt32_toLong stored, bmod_eq_self_iff (by decide)]
      exact Iff.rfl
  | long =>
      rw [Receiver.convert, toInt_toLong stored, bmod_eq_self_iff (by decide)]
      unfold Receiver.Fits
      omega

/-- A literal is delivered unchanged, or with an exception, exactly if the receiver can take its number. -/
theorem delivered_unchanged {Ty Job : Type} (register : Register Ty Job) (table : Table Ty) (receiver : Receiver)
    {token : Str} {s : StoredNumber} (stored : storeLiteral token = some s) :
    DeliveredUnchanged register table receiver s (literalValue token) ↔ receiver.Fits (literalValue token) := by
  rw [← convert_eq_iff stored, DeliveredUnchanged, delivered_eq]
  constructor
  · intro unchanged
    exact unchanged _ rfl
  · intro same received got
    rw [← Option.some.inj got]
    exact same

theorem delivered_unchanged_limit :
    DeliveredUnchanged sampleRegister sampleTable .int (.signed (Int64.ofInt (-2147483648)))
        (literalValue (str "-2147483648")) ↔
      Receiver.int.Fits (literalValue (str "-2147483648")) :=
  delivered_unchanged sampleRegister sampleTable .int (by decide)

/-- 2³¹ is received as -2³¹ by an `int`. -/
theorem delivered_changed :
    ¬∀ (receiver : Receiver) (token : Str) (s : StoredNumber), storeLiteral token = some s →
      DeliveredUnchanged sampleRegister sampleTable receiver s (literalValue token) := by
  intro always
  have unchanged := always .int (str "2147483648") (.unsigned 2147483648) (by decide)
  exact absurd (unchanged (-2147483648) (by decide)) (by decide)

end Experimaestro.Configuration

/-
Module: Experimaestro.Configuration.Digest
Layer: Configuration
Purpose: The identifier of a value. `updateDigest` is the stream fed to SHA-1, where the digest of a
  child is an opaque symbol that stands for the stream it was computed from. `signature` is what an
  identifier is meant to depend on; the stream is that of the signature.
Imports: Experimaestro.Configuration.Values
Trusted boundary: human-reviewed model of Digest, updateDigest and uniqueIdentifier
Main exports: Symbol, updateDigest, uniqueIdentifier, Signature, signature, encode,
  updateDigest_eq_encode, updateDigest_inj, bareTypes
Open obligations: none
-/
import Mathlib.Algebra.Ring.Nat
import Mathlib.Data.List.Basic
import Experimaestro.Configuration.Values

namespace Experimaestro.Configuration

/-! ### The stream -/

/-- What is fed to SHA-1: a byte, or the digest of another stream. -/
inductive Symbol where
  | byte (value : UInt8)
  | digest (content : List Symbol)

mutual

/-- The number of symbols in a symbol. -/
def Symbol.weight : Symbol → ℕ
  | .byte _ => 1
  | .digest content => 1 + streamWeight content

def streamWeight : List Symbol → ℕ
  | [] => 0
  | symbol :: rest => symbol.weight + streamWeight rest

end

theorem streamWeight_append : ∀ a b : List Symbol, streamWeight (a ++ b) = streamWeight a + streamWeight b
  | [], b => by rw [List.nil_append, streamWeight, Nat.zero_add]
  | symbol :: rest, b => by
      rw [List.cons_append, streamWeight, streamWeight, streamWeight_append rest b, Nat.add_assoc]

/-- The bytes of an integer in memory. -/
def littleEndian : ℕ → ℕ → Str
  | 0, _ => []
  | width + 1, n => UInt8.ofNat n :: littleEndian width (n / 256)

/-- The content of a scalar in `Scalar::updateDigest`. -/
def Scalar.content : Scalar → Str
  | .unset | .none => []
  | .boolean b => [if b then 1 else 0]
  | .integer n => littleEndian 8 n.toUInt64.toNat
  | .real bits => littleEndian 8 bits.toNat
  | .path text | .string text => text

/-- `Scalar::updateDigest`. -/
def Scalar.updateDigest (s : Scalar) : Str :=
  s.scalarType.code :: s.content

/-- `ParametersTypes::ARRAY`. -/
def parametersTypesArray : UInt8 := 1

def bytes (text : Str) : List Symbol := text.map .byte

/-- The task field of a map: the identifier, or the `int` zero. -/
def taskField : Option Str → Str
  | some identifier => identifier
  | none => littleEndian 4 0

section

variable {Ty Job : Type} (types : Types Ty Job)

namespace Value

mutual

/-- `updateDigest`. -/
def updateDigest : Value Ty Job → List Symbol
  | .scalar _ s => bytes s.updateDigest
  | .array _ _ elements =>
      bytes (parametersTypesArray :: littleEndian 8 elements.length) ++ updateElements elements
  | .map _ type task _ children =>
      bytes (types.nameOf type) ++ bytes (taskField task) ++ updateChildren children

/-- The elements of an array, one after the other. -/
def updateElements : List (Value Ty Job) → List Symbol
  | [] => []
  | element :: rest => updateDigest element ++ updateElements rest

/-- The children of a map that cannot be ignored: the key and the digest of the child. -/
def updateChildren : List (Str × Value Ty Job) → List Symbol
  | [] => []
  | (key, child) :: rest =>
      if child.canIgnore types then updateChildren rest
      else bytes key ++ .digest (updateDigest child) :: updateChildren rest

end

/-- `Value::uniqueIdentifier`, as the digest; printing it in hexadecimal loses nothing. -/
def uniqueIdentifier (v : Value Ty Job) : Symbol := .digest (v.updateDigest types)

end Value

end

/-! ### Signatures -/

/-- What an identifier should depend on. -/
inductive Signature where
  | scalar (value : Scalar)
  | array (elements : List Signature)
  | map (type : Str) (task : Option Str) (children : List (Str × Signature))

section

variable {Ty Job : Type} (types : Types Ty Job)

namespace Value

mutual

/-- The signature of a value. -/
def signature : Value Ty Job → Signature
  | .scalar _ s => .scalar s
  | .array _ _ elements => .array (elementSignatures elements)
  | .map _ type task _ children => .map (types.nameOf type) task (childSignatures children)

def elementSignatures : List (Value Ty Job) → List Signature
  | [] => []
  | element :: rest => signature element :: elementSignatures rest

def childSignatures : List (Str × Value Ty Job) → List (Str × Signature)
  | [] => []
  | (key, child) :: rest =>
      if child.canIgnore types then childSignatures rest
      else (key, signature child) :: childSignatures rest

end

end Value

end

namespace Signature

mutual

/-- The stream of a signature. -/
def encode : Signature → List Symbol
  | .scalar s => bytes s.updateDigest
  | .array elements =>
      bytes (parametersTypesArray :: littleEndian 8 elements.length) ++ encodeElements elements
  | .map type task children => bytes type ++ bytes (taskField task) ++ encodeChildren children

def encodeElements : List Signature → List Symbol
  | [] => []
  | element :: rest => encode element ++ encodeElements rest

def encodeChildren : List (Str × Signature) → List Symbol
  | [] => []
  | (key, child) :: rest => bytes key ++ .digest (encode child) :: encodeChildren rest

end

end Signature

section

variable {Ty Job : Type} (types : Types Ty Job)

namespace Value

theorem length_elementSignatures :
    ∀ elements : List (Value Ty Job), (elementSignatures types elements).length = elements.length
  | [] => rfl
  | _ :: rest => by
      rw [elementSignatures, List.length_cons, List.length_cons, length_elementSignatures rest]

mutual

/-- The stream depends on the signature only. -/
theorem updateDigest_eq_encode :
    ∀ v : Value Ty Job, v.updateDigest types = (v.signature types).encode
  | .scalar _ s => by rw [updateDigest, signature, Signature.encode]
  | .array _ ctype elements => by
      rw [updateDigest, signature, Signature.encode, length_elementSignatures,
        updateElements_eq_encode elements]
  | .map _ type task job children => by
      rw [updateDigest, signature, Signature.encode, updateChildren_eq_encode children]

theorem updateElements_eq_encode :
    ∀ elements : List (Value Ty Job),
      updateElements types elements = Signature.encodeElements (elementSignatures types elements)
  | [] => by rw [updateElements, elementSignatures, Signature.encodeElements]
  | element :: rest => by
      rw [updateElements, elementSignatures, Signature.encodeElements, updateDigest_eq_encode element,
        updateElements_eq_encode rest]

theorem updateChildren_eq_encode :
    ∀ children : List (Str × Value Ty Job),
      updateChildren types children = Signature.encodeChildren (childSignatures types children)
  | [] => by rw [updateChildren, childSignatures, Signature.encodeChildren]
  | (key, child) :: rest => by
      rw [updateChildren, childSignatures]
      by_cases ignored : child.canIgnore types
      · rw [if_pos ignored, if_pos ignored, updateChildren_eq_encode rest]
      · rw [if_neg ignored, if_neg ignored, Signature.encodeChildren, updateDigest_eq_encode child,
          updateChildren_eq_encode rest]

end

end Value

end

/-! ### Scalars -/

theorem length_littleEndian : ∀ width n, (littleEndian width n).length = width
  | 0, _ => rfl
  | width + 1, n => by rw [littleEndian, List.length_cons, length_littleEndian width]

/-- The bytes of an integer determine it. -/
theorem littleEndian_inj :
    ∀ {width n m : ℕ}, n < 256 ^ width → m < 256 ^ width → littleEndian width n = littleEndian width m →
      n = m
  | 0, n, m, hn, hm, _ => by omega
  | width + 1, n, m, hn, hm, h => by
      rw [littleEndian, littleEndian, List.cons.injEq] at h
      obtain ⟨low, high⟩ := h
      have lows : n % 256 = m % 256 := by
        have same := congrArg UInt8.toNat low
        rwa [UInt8.toNat_ofNat', UInt8.toNat_ofNat'] at same
      have highs : n / 256 = m / 256 := by
        apply littleEndian_inj _ _ high
        · rw [Nat.pow_succ] at hn
          omega
        · rw [Nat.pow_succ] at hm
          omega
      omega

theorem ScalarType.code_inj {a b : ScalarType} (h : a.code = b.code) : a = b := by
  cases a <;> cases b <;> first | rfl | cases h

/-- The bytes of a scalar determine it. -/
theorem Scalar.updateDigest_inj {a b : Scalar} (h : a.updateDigest = b.updateDigest) : a = b := by
  obtain ⟨code, content⟩ := List.cons.inj h
  have type := ScalarType.code_inj code
  have word (x y : UInt64) (same : littleEndian 8 x.toNat = littleEndian 8 y.toNat) : x = y :=
    UInt64.toNat_inj.mp (littleEndian_inj x.toNat_lt y.toNat_lt same)
  cases a <;> cases b <;> simp only [scalarType, reduceCtorEq] at type
  case unset.unset => rfl
  case none.none => rfl
  case integer.integer x y =>
      cases x
      cases y
      exact congrArg (fun w => integer ⟨w⟩) (word _ _ content)
  case real.real x y => exact congrArg real (word _ _ content)
  case string.string x y => exact congrArg string content
  case path.path x y => exact congrArg path content
  case boolean.boolean x y => cases x <;> cases y <;> first | rfl | cases content

/-! ### Types without members -/

theorem path_beq_path : (str "path" == str "path") = true := by decide

/-- One level is enough for types without parents. -/
theorem level_lt_of_none (_ p : Str) (parent : (none : Option Str) = some p) : 0 < 0 := nomatch parent

/-- Types that are given by their names and declare nothing. -/
def bareTypes (Job : Type) : Types Str Job where
  name t := t
  parent _ := none
  arguments _ := []
  canIgnore t := t == str "path"
  any := str "any"
  boolean := str "boolean"
  integer := str "integer"
  real := str "real"
  string := str "string"
  path := str "path"
  level _ := 0
  level_lt := level_lt_of_none
  nodup _ := List.nodup_nil
  path_canIgnore := path_beq_path

end Experimaestro.Configuration

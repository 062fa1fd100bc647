/-
Module: Experimaestro.Configuration.Sealing
Layer: Configuration
Purpose: What the public mutators do to a value on which `seal` has returned, and to what is reached from it
  with `get` and `operator[]`. Only `MapValue::set` asks whether its map is sealed. The other mutators leave
  the digest and the JSON of the sealed value as they are exactly when they store what is stored already.
Imports: Experimaestro.Configuration.RoundTrip, Experimaestro.Configuration.Places,
  Experimaestro.Library.TransitionSystem
Trusted boundary: human-reviewed model of MapValue::type and task, ArrayValue::push_back, ScalarValue::set,
  Scalar::fromString and Scalar::fromYAML; a YAML node is given by its type, tag and text
Main exports: Scalar.fromString, Scalar.fromYaml, Mutator, Mutator.call, AllSealed, SealedBelow, Keeps,
  Harmless, sealing_final
Open obligations: none
-/
import Mathlib.Algebra.Ring.Nat
import Experimaestro.Configuration.RoundTrip
import Experimaestro.Configuration.Places
import Experimaestro.Library.TransitionSystem

namespace Experimaestro.Configuration

open Value

/-! ### Scalars from texts -/

def isDigit (c : UInt8) : Bool := 48 ≤ c && c ≤ 57

/-- `re_integer`. -/
def matchesInteger (text : Str) : Bool := !text.isEmpty && text.all isDigit

def dropSign : Str → Str
  | 43 :: rest | 45 :: rest => rest
  | text => text

/-- The last part of `re_real`. -/
def matchesExponent : Str → Bool
  | [] => true
  | c :: rest => (c == 69 || c == 101) && matchesInteger (dropSign rest)

def matchesFraction : Str → Bool
  | 46 :: rest => matchesExponent (rest.dropWhile isDigit)
  | text => matchesExponent text

/-- `re_real`. -/
def matchesReal (text : Str) : Bool :=
  match dropSign text with
  | [] => false
  | 48 :: rest => matchesFraction rest
  | c :: rest => isDigit c && matchesFraction (rest.dropWhile isDigit)

/-- `std::atol`, of digits; a number that is too large is cut off. -/
def atol (digits : Str) : Int64 :=
  Int64.ofNat (min (digits.foldl (fun n c => 10 * n + (c.toNat - 48)) 0) (2 ^ 63 - 1))

/-- The texts for the two Booleans. -/
def readBoolean (text : Str) : Option Bool :=
  if text ∈ [str "Y", str "true", str "Yes", str "ON"] then some true
  else if text ∈ [str "N", str "false", str "No", str "OFF"] then some false
  else none

/-- A node of the YAML library. -/
inductive Yaml where
  | undefined
  | null
  | scalar (tag text : Str)
  | sequence
  | map
deriving DecidableEq, Repr

namespace Scalar

variable (atof : Str → UInt64)

/-- `Scalar::fromString`. There is no case for texts, and none for other types. -/
def fromString {Ty Job : Type} [DecidableEq Ty] (types : Types Ty Job) (text : Str) (hint : TypeRef Ty) :
    Except Error Scalar :=
  if hint = .base types.any then .ok (.string text)
  else if hint = .base types.path then .ok (.path text)
  else if hint = .base types.integer then
    if matchesInteger text then .ok (.integer (atol text))
    else .error (.argumentError (text ++ str " cannot be interpreted as an integer"))
  else if hint = .base types.boolean then
    match readBoolean text with
    | some b => .ok (.boolean b)
    | Option.none => .error (.argumentError (text ++ str " cannot be interpreted as a boolean"))
  else if hint = .base types.real then
    if matchesReal text then .ok (.real (atof text))
    else .error (.argumentError (text ++ str " cannot be interpreted as a real"))
  else .error (.argumentError (str "Type " ++ types.nameOf hint ++ str " is not a scalar type"))

/-- `Scalar::fromYAML`. The case of a scalar falls through to the last one for other tags. -/
def fromYaml : Yaml → Except Error Scalar
  | .sequence => .error (.notImplementedError (str "fromYAML"))
  | .null => .ok .none
  | .scalar tag text =>
      if tag = str "!" then .ok (.string text)
      else if tag = str "?" then
        match readBoolean text with
        | some b => .ok (.boolean b)
        | Option.none =>
            if matchesInteger text then .ok (.integer (atol text))
            else if matchesReal text then .ok (.real (atof text))
            else .ok (.string text)
      else .error (.argumentError (str "Cannot convert YAML to value: not a scalar"))
  | _ => .error (.argumentError (str "Cannot convert YAML to value: not a scalar"))

end Scalar

/-! ### The mutators -/

/-- The public mutators of the three classes. A text comes with a type hint: without one, the source
    dereferences a null pointer. -/
inductive Mutator (Ty Job : Type) where
  | set (key : Str) (value : Value Ty Job)
  | type (type : TypeRef Ty)
  | task (identifier : Option Str)
  | pushBack (value : Value Ty Job)
  | setBoolean (value : Bool)
  | setInteger (value : Int64)
  | setString (text : Str) (hint : TypeRef Ty)
  | setYaml (node : Yaml)

section

variable {Ty Job : Type} [DecidableEq Ty] (register : Register Ty Job) (atof : Str → UInt64)

namespace Mutator

/-- What the overloads of `ScalarValue::set` store. -/
def scalar : Mutator Ty Job → Option (Except Error Scalar)
  | .setBoolean b => some (.ok (.boolean b))
  | .setInteger n => some (.ok (.integer n))
  | .setString text hint => some (Scalar.fromString atof register.types text hint)
  | .setYaml node => some (Scalar.fromYaml atof node)
  | _ => none

/-- A call of a mutator: the value afterwards, and the exception when one is thrown. A mutator of another
    class is out of reach: `asMap`, `asArray` and `asScalar` throw. -/
def call : Mutator Ty Job → Value Ty Job → Value Ty Job × Option Error
  | .set key value, v => v.set register.types key value
  | .type t, .map flags _ identifier job children => (.map flags t identifier job children, none)
  | .task identifier, .map flags t _ job children => (.map flags t identifier job children, none)
  | .pushBack value, .array flags ctype elements =>
      let pushed := Configuration.pushBack register (ctype, elements) value
      (.array flags pushed.1 pushed.2, none)
  | .type _, v | .task _, v => (v, some (.argumentError (str "Cannot cast to Map")))
  | .pushBack _, v => (v, some (.argumentError (str "Cannot cast to Array")))
  | m, .scalar flags s =>
      match m.scalar register atof with
      | some (.ok s') => (.scalar flags s', none)
      | some (.error e) => (.scalar flags s, some e)
      | none => (.scalar flags s, none)
  | _, v => (v, some (.argumentError (str "Cannot cast to Scalar")))

end Mutator

/-- A call on what is reached from a value by a way down. -/
structure Call (Ty Job : Type) where
  way : List Selector
  mutator : Mutator Ty Job

/-- The value that was sealed, after a call on what is reached from it. -/
def Call.step (c : Call Ty Job) (root : Value Ty Job) : Option (Value Ty Job) :=
  (root.descend c.way).map fun _ => root.modifyAt (fun v => (c.mutator.call register atof v).1) c.way

/-- The call throws. -/
def Call.Throws (c : Call Ty Job) (root : Value Ty Job) : Prop :=
  ∃ target e, root.descend c.way = some target ∧ (c.mutator.call register atof target).2 = some e

/-- The runs of calls after `seal` has returned on a value. -/
def sealedSystem (v : Value Ty Job) : TransitionSystem.System (Value Ty Job) (Call Ty Job) :=
  .ofFunction (sealValue v) (Call.step register atof)

end

/-! ### Sealed values -/

section

variable {Ty Job : Type}

/-- The value and everything that is reached from it is sealed. -/
def AllSealed (v : Value Ty Job) : Prop :=
  ∀ way target, v.descend way = some target → target.flags.isSealed = true

/-- What is reached from a sealed part of the value is sealed. -/
def SealedBelow (v : Value Ty Job) : Prop :=
  ∀ way target, v.descend way = some target → target.flags.isSealed = true → AllSealed target

theorem allSealed_iff {v : Value Ty Job} :
    AllSealed v ↔ v.flags.isSealed = true ∧ ∀ s c, v.child s = some c → AllSealed c := by
  constructor
  · intro all
    refine ⟨all [] v rfl, fun s c found way target below => all (s :: way) target ?_⟩
    rw [descend, found]
    exact below
  · rintro ⟨self, below⟩ way target found
    cases way with
    | nil =>
        cases found
        exact self
    | cons s rest =>
        obtain ⟨c, first, others⟩ := Option.bind_eq_some_iff.mp found
        exact below s c first rest target others

theorem SealedBelow.child {v c : Value Ty Job} {s : Selector} (below : SealedBelow v)
    (found : v.child s = some c) : SealedBelow c := by
  intro way target reached
  apply below (s :: way) target
  rw [descend, found]
  exact reached

/-- Other links of a sealed map do not matter. -/
theorem AllSealed.relabel {flags : Flags} {t t' : TypeRef Ty} {task task' : Option Str} {job job' : Option Job}
    {children : List (Str × Value Ty Job)} (all : AllSealed (Value.map flags t task job children)) :
    AllSealed (Value.map flags t' task' job' children) := by
  obtain ⟨self, below⟩ := allSealed_iff.mp all
  refine allSealed_iff.mpr ⟨self, fun s c found => below s c ?_⟩
  cases s with
  | key name => exact found
  | index i => cases found

theorem descend_append (way below : List Selector) (v : Value Ty Job) :
    v.descend (way ++ below) = (v.descend way).bind fun target => target.descend below := by
  induction way generalizing v with
  | nil => rfl
  | cons s rest ih =>
      rw [List.cons_append, descend, descend]
      cases v.child s with
      | none => rfl
      | some c => exact ih c

theorem AllSealed.descend {way : List Selector} {v target : Value Ty Job} (all : AllSealed v)
    (found : v.descend way = some target) : AllSealed target := by
  intro below reached there
  apply all (way ++ below)
  rw [descend_append, found]
  exact there

theorem sealedBelow_of_child {v : Value Ty Job} (self : v.flags.isSealed = true → AllSealed v)
    (below : ∀ s c, v.child s = some c → SealedBelow c) : SealedBelow v := by
  intro way target found isSealed
  cases way with
  | nil =>
      cases found
      exact self isSealed
  | cons s rest =>
      obtain ⟨c, first, others⟩ := Option.bind_eq_some_iff.mp found
      exact below s c first rest target others isSealed

theorem sealedBelow_scalar (flags : Flags) (s : Scalar) : SealedBelow (.scalar flags s : Value Ty Job) := by
  have childless (selector : Selector) (c : Value Ty Job) :
      (Value.scalar flags s : Value Ty Job).child selector ≠ some c := by
    cases selector <;> exact nofun
  apply sealedBelow_of_child
  · exact fun isSealed => allSealed_iff.mpr ⟨isSealed, fun s c found => absurd found (childless s c)⟩
  · exact fun s c found => absurd found (childless s c)

/-- An array or a map that is open is sealed as a whole where its elements or children are. -/
theorem sealedBelow_array {flags : Flags} {ctype : TypeRef Ty} {elements : List (Value Ty Job)}
    (isOpen : flags.isSealed = false) (each : ∀ e ∈ elements, SealedBelow e) :
    SealedBelow (.array flags ctype elements) := by
  apply sealedBelow_of_child
  · intro isSealed
    exact absurd isSealed (Bool.eq_false_iff.mp isOpen)
  · intro s c found
    cases s with
    | key name => cases found
    | index i => exact each c (List.mem_of_getElem? found)

theorem sealedBelow_map {flags : Flags} {t : TypeRef Ty} {task : Option Str} {job : Option Job}
    {children : List (Str × Value Ty Job)} (isOpen : flags.isSealed = false)
    (each : ∀ entry ∈ children, SealedBelow entry.2) : SealedBelow (.map flags t task job children) := by
  apply sealedBelow_of_child
  · intro isSealed
    exact absurd isSealed (Bool.eq_false_iff.mp isOpen)
  · intro s c found
    cases s with
    | key name => exact each (name, c) (mem_of_lookup found)
    | index i => cases found

/-! #### Changes at a place -/

theorem lookup_adjust {α : Type} (key k : Str) (f : α → α) (entries : List (Str × α)) :
    lookup key (adjust k f entries) = if key = k then (lookup key entries).map f else lookup key entries := by
  induction entries with
  | nil => simp [adjust, lookup]
  | cons entry rest ih =>
      obtain ⟨l, v⟩ := entry
      rw [adjust]
      by_cases here : l = k
      · rw [if_pos here, lookup, lookup]
        by_cases there : l = key
        · rw [if_pos there, if_pos there, if_pos (there.symm.trans here)]
          rfl
        · rw [if_neg there, if_neg there, if_neg fun same => there (here.trans same.symm)]
      · rw [if_neg here, lookup, ih, lookup]
        by_cases there : l = key
        · rw [if_pos there, if_neg fun same => here (there.trans same)]
          rw [if_pos there]
        · rw [if_neg there, if_neg there]

theorem child_modifyChild (f : Value Ty Job → Value Ty Job) (s s' : Selector) (v : Value Ty Job) :
    (v.modifyChild f s).child s' = if s' = s then (v.child s').map f else v.child s' := by
  cases v with
  | scalar flags value => cases s <;> cases s' <;> simp [modifyChild, Value.child]
  | array flags ctype elements =>
      cases s with
      | key name => cases s' <;> simp [modifyChild, Value.child]
      | index i =>
          cases s' with
          | key name => rfl
          | index i' =>
              simp only [modifyChild, Value.child, List.getElem?_modify, Selector.index.injEq]
              by_cases here : i' = i
              · rw [if_pos here, here]
                simp
              · rw [if_neg here]
                simp [Ne.symm here]
  | map flags t task job children =>
      cases s with
      | index i => cases s' <;> simp [modifyChild, Value.child]
      | key name =>
          cases s' with
          | index i => rfl
          | key name' => simp only [modifyChild, Value.child, lookup_adjust, Selector.key.injEq]

theorem flags_modifyChild (f : Value Ty Job → Value Ty Job) (s : Selector) (v : Value Ty Job) :
    (v.modifyChild f s).flags = v.flags := by
  cases v <;> cases s <;> rfl

/-- A sealed value in the place of another one. -/
theorem AllSealed.modifyAt {f : Value Ty Job → Value Ty Job} {way : List Selector} {v target : Value Ty Job}
    (all : AllSealed v) (found : v.descend way = some target) (keeps : AllSealed (f target)) :
    AllSealed (v.modifyAt f way) := by
  induction way generalizing v with
  | nil =>
      cases found
      exact keeps
  | cons s rest ih =>
      obtain ⟨self, below⟩ := allSealed_iff.mp all
      obtain ⟨c, first, others⟩ := Option.bind_eq_some_iff.mp found
      rw [Value.modifyAt]
      refine allSealed_iff.mpr ⟨?_, fun s' c' found' => ?_⟩
      · rw [flags_modifyChild, self]
      · rw [child_modifyChild] at found'
        split at found'
        · next same =>
          rw [same, first] at found'
          cases found'
          exact ih (below s c first) others
        · exact below s' c' found'

/-! #### Changes of flags -/

theorem mapFlagsElements_eq_map (f : Flags → Flags) (elements : List (Value Ty Job)) :
    mapFlagsElements f elements = elements.map (mapFlags f) := by
  induction elements with
  | nil => rfl
  | cons e rest ih => rw [mapFlagsElements, ih, List.map_cons]

theorem mapFlagsChildren_eq_map (f : Flags → Flags) (children : List (Str × Value Ty Job)) :
    mapFlagsChildren f children = children.map fun entry => (entry.1, entry.2.mapFlags f) := by
  induction children with
  | nil => rfl
  | cons entry rest ih => rw [mapFlagsChildren, ih, List.map_cons]

theorem child_mapFlags (f : Flags → Flags) (s : Selector) (v : Value Ty Job) :
    (v.mapFlags f).child s = (v.child s).map (mapFlags f) := by
  cases v with
  | scalar flags value => cases s <;> rfl
  | array flags ctype elements =>
      cases s with
      | key name => rfl
      | index i =>
          rw [Value.mapFlags, Value.child, mapFlagsElements_eq_map, List.getElem?_map]
          rfl
  | map flags t task job children =>
      cases s with
      | key name => exact lookup_mapFlagsChildren f name children
      | index i => rfl

theorem descend_mapFlags (f : Flags → Flags) (way : List Selector) (v : Value Ty Job) :
    (v.mapFlags f).descend way = (v.descend way).map (mapFlags f) := by
  induction way generalizing v with
  | nil => rfl
  | cons s rest ih =>
      rw [Value.descend, child_mapFlags, Value.descend]
      cases v.child s with
      | none => rfl
      | some c => exact ih c

/-! #### Seal -/

theorem lookup_sealChildren (key : Str) (children : List (Str × Value Ty Job)) :
    lookup key (sealChildren children) = (lookup key children).map sealValue := by
  induction children with
  | nil => rfl
  | cons entry rest ih =>
      obtain ⟨k, v⟩ := entry
      rw [sealChildren, lookup, lookup, ih]
      split <;> rfl

theorem getElem?_sealElements (elements : List (Value Ty Job)) (i : ℕ) :
    (sealElements elements)[i]? = elements[i]?.map sealValue := by
  induction elements generalizing i with
  | nil => rfl
  | cons element rest ih =>
      cases i with
      | zero => rfl
      | succ i => simpa [sealElements] using ih i

theorem flags_sealValue (v : Value Ty Job) : (sealValue v).flags.isSealed = true := by
  cases v with
  | scalar flags s => rfl
  | array flags ctype elements =>
      rw [sealValue]
      split
      · assumption
      · rfl
  | map flags t task job children =>
      rw [sealValue]
      split
      · assumption
      · rfl

theorem sealValue_of_sealed {v : Value Ty Job} (already : v.flags.isSealed = true) : sealValue v = v := by
  cases v with
  | scalar flags s =>
      obtain ⟨isSealed, isDefault, validated, generated, ignore⟩ := flags
      cases already
      rfl
  | array flags ctype elements => exact if_pos already
  | map flags t task job children => exact if_pos already

theorem child_sealValue {v : Value Ty Job} (isOpen : v.flags.isSealed = false) (s : Selector) :
    (sealValue v).child s = (v.child s).map sealValue := by
  cases v with
  | scalar flags value => cases s <;> rfl
  | array flags ctype elements =>
      have not_yet : ¬ flags.isSealed = true := Bool.eq_false_iff.mp isOpen
      rw [sealValue, if_neg not_yet]
      cases s with
      | key name => rfl
      | index i => exact getElem?_sealElements elements i
  | map flags t task job children =>
      have not_yet : ¬ flags.isSealed = true := Bool.eq_false_iff.mp isOpen
      rw [sealValue, if_neg not_yet]
      cases s with
      | key name => exact lookup_sealChildren name children
      | index i => rfl

/-- `seal` stops at what is sealed already; everything else is sealed. -/
theorem allSealed_sealValue {v : Value Ty Job} (below : SealedBelow v) : AllSealed (sealValue v) := by
  intro way
  induction way generalizing v with
  | nil =>
      rintro target ⟨⟩
      exact flags_sealValue v
  | cons s rest ih =>
      intro target found
      cases already : v.flags.isSealed with
      | true =>
          rw [sealValue_of_sealed already] at found
          exact below [] v rfl already (s :: rest) target found
      | false =>
          rw [descend, child_sealValue already, Option.bind_eq_some_iff] at found
          obtain ⟨_, first, others⟩ := found
          obtain ⟨c, inside, rfl⟩ := Option.map_eq_some_iff.mp first
          exact ih (below.child inside) target others

end

/-! ### What is read of a value -/

section

variable {Ty Job : Type} (types : Types Ty Job)

/-- Two values that look the same in JSON, in the digest, and to the map or array around them. -/
structure Alike (v v' : Value Ty Job) : Prop where
  toJson : v'.toJson types = v.toJson types
  digest : v'.updateDigest types = v.updateDigest types
  ignorable : v'.canIgnore types = v.canIgnore types

variable {types}

theorem Alike.refl (v : Value Ty Job) : Alike types v v := ⟨rfl, rfl, rfl⟩

theorem Alike.trans {u v w : Value Ty Job} (one : Alike types u v) (two : Alike types v w) : Alike types u w :=
  ⟨two.toJson.trans one.toJson, two.digest.trans one.digest, two.ignorable.trans one.ignorable⟩

theorem childrenJson_adjust {f : Value Ty Job → Value Ty Job} {key : Str} {c : Value Ty Job}
    {children : List (Str × Value Ty Job)} (found : lookup key children = some c) (alike : Alike types c (f c)) :
    childrenJson types (adjust key f children) = childrenJson types children ∧
      updateChildren types (adjust key f children) = updateChildren types children := by
  induction children with
  | nil => cases found
  | cons entry rest ih =>
      obtain ⟨k, v⟩ := entry
      rw [lookup] at found
      rw [adjust]
      split at found
      · next here =>
        cases found
        rw [if_pos here, childrenJson, updateChildren, alike.toJson, alike.digest, alike.ignorable]
        exact ⟨by rw [childrenJson], by rw [updateChildren]⟩
      · next other =>
        obtain ⟨json, digest⟩ := ih found
        rw [if_neg other, childrenJson, updateChildren, json, digest]
        exact ⟨by rw [childrenJson], by rw [updateChildren]⟩

theorem elementsJson_modify {f : Value Ty Job → Value Ty Job} {i : ℕ} {e : Value Ty Job}
    {elements : List (Value Ty Job)} (found : elements[i]? = some e) (alike : Alike types e (f e)) :
    elementsJson types (elements.modify i f) = elementsJson types elements ∧
      updateElements types (elements.modify i f) = updateElements types elements := by
  induction elements generalizing i with
  | nil => cases found
  | cons element rest ih =>
      cases i with
      | zero =>
          cases found
          rw [List.modify_zero_cons, elementsJson, updateElements, alike.toJson, alike.digest]
          exact ⟨by rw [elementsJson], by rw [updateElements]⟩
      | succ i =>
          obtain ⟨json, digest⟩ := ih found
          rw [List.modify_succ_cons, elementsJson, updateElements, json, digest]
          exact ⟨by rw [elementsJson], by rw [updateElements]⟩

/-- A value that looks like the one in its place cannot be told from outside. -/
theorem Alike.modifyAt {f : Value Ty Job → Value Ty Job} {way : List Selector} {v target : Value Ty Job}
    (found : v.descend way = some target) (alike : Alike types target (f target)) :
    Alike types v (v.modifyAt f way) := by
  induction way generalizing v with
  | nil =>
      cases found
      exact alike
  | cons s rest ih =>
      obtain ⟨c, first, others⟩ := Option.bind_eq_some_iff.mp found
      have inside := ih others
      cases v with
      | scalar flags value => cases s <;> cases first
      | array flags ctype elements =>
          cases s with
          | key name => cases first
          | index i =>
              obtain ⟨json, digest⟩ := elementsJson_modify first inside
              refine ⟨?_, ?_, rfl⟩
              · simp only [Value.modifyAt, modifyChild, Value.toJson, json]
              · simp only [Value.modifyAt, modifyChild, updateDigest, digest, List.length_modify]
      | map flags t task job children =>
          cases s with
          | index i => cases first
          | key name =>
              obtain ⟨json, digest⟩ := childrenJson_adjust first inside
              refine ⟨?_, ?_, rfl⟩
              · simp only [Value.modifyAt, modifyChild, Value.toJson, json]
              · simp only [Value.modifyAt, modifyChild, updateDigest, digest]

end

/-! ### Calls that keep everything -/

section

variable {Ty Job : Type} [DecidableEq Ty] (register : Register Ty Job) (atof : Str → UInt64)

/-- A call that stores what is stored already, or cannot store anything: no element is added to an array,
    and a map keeps its task and the name of its type. -/
def Harmless (m : Mutator Ty Job) : Value Ty Job → Prop
  | .scalar _ s => ∀ s', m.scalar register atof = some (.ok s') → s' = s
  | .array _ _ _ => ∀ value, m ≠ .pushBack value
  | .map _ old task _ _ =>
      (∀ t, m = .type t → register.types.nameOf t = register.types.nameOf old ∧
        register.types.canIgnoreOf t = register.types.canIgnoreOf old) ∧
      ∀ identifier, m = .task identifier → identifier = task

variable {register atof}

variable (register atof) in
/-- The overloads of `ScalarValue::set` store what they have read, and the other mutators throw. -/
theorem call_scalar (m : Mutator Ty Job) (flags : Flags) (s : Scalar) :
    (∀ s', m.scalar register atof = some (.ok s') →
        m.call register atof (.scalar flags s) = (.scalar flags s', none)) ∧
      ((∀ s', m.scalar register atof ≠ some (.ok s')) →
        ∃ e, m.call register atof (.scalar flags s) = (.scalar flags s, some e)) := by
  cases m with
  | set key value => exact ⟨nofun, fun _ => ⟨_, rfl⟩⟩
  | type t => exact ⟨nofun, fun _ => ⟨_, rfl⟩⟩
  | task identifier => exact ⟨nofun, fun _ => ⟨_, rfl⟩⟩
  | pushBack value => exact ⟨nofun, fun _ => ⟨_, rfl⟩⟩
  | setBoolean b => simp [Mutator.call, Mutator.scalar]
  | setInteger n => simp [Mutator.call, Mutator.scalar]
  | setString text hint =>
      simp only [Mutator.call, Mutator.scalar]
      cases Scalar.fromString atof register.types text hint <;> simp
  | setYaml node =>
      simp only [Mutator.call, Mutator.scalar]
      cases Scalar.fromYaml atof node <;> simp

/-- A harmless call on a sealed value. -/
theorem harmless_call {m : Mutator Ty Job} {v : Value Ty Job} (isSealed : AllSealed v)
    (harmless : Harmless register atof m v) :
    Alike register.types v (m.call register atof v).1 ∧ AllSealed (m.call register atof v).1 := by
  have same (unchanged : (m.call register atof v).1 = v) :
      Alike register.types v (m.call register atof v).1 ∧ AllSealed (m.call register atof v).1 := by
    rw [unchanged]
    exact ⟨Alike.refl v, isSealed⟩
  cases v with
  | scalar flags s =>
      apply same
      have outcome := call_scalar register atof m flags s
      by_cases stores : ∃ s', m.scalar register atof = some (.ok s')
      · obtain ⟨s', stored⟩ := stores
        rw [outcome.1 s' stored, harmless s' stored]
      · obtain ⟨e, thrown⟩ := outcome.2 (not_exists.mp stores)
        rw [thrown]
  | array flags ctype elements =>
      cases m with
      | pushBack value => exact absurd rfl (harmless value)
      | _ => exact same rfl
  | map flags old task job children =>
      cases m with
      | set key value =>
          have isSealed : flags.isSealed = true := (allSealed_iff.mp isSealed).1
          apply same
          rw [Mutator.call, Value.set, if_pos isSealed]
      | type t =>
          obtain ⟨name, ignorable⟩ := harmless.1 t rfl
          refine ⟨⟨?_, ?_, ?_⟩, isSealed.relabel⟩
          · simp only [Mutator.call, Value.toJson, objectMembers, name]
          · simp only [Mutator.call, updateDigest, name]
          · simp only [Mutator.call, canIgnore, Value.type, Value.flags, ignorable]
      | task identifier =>
          apply same
          rw [Mutator.call, harmless.2 identifier rfl]
      | _ => exact same rfl

/-- A harmless call in a sealed value. -/
theorem harmless_step {c : Call Ty Job} {root root' target : Value Ty Job} (isSealed : AllSealed root)
    (found : root.descend c.way = some target) (harmless : Harmless register atof c.mutator target)
    (next : c.step register atof root = some root') : Alike register.types root root' ∧ AllSealed root' := by
  rw [Call.step, found] at next
  cases next
  obtain ⟨alike, kept⟩ := harmless_call (isSealed.descend found) harmless
  exact ⟨alike.modifyAt found, isSealed.modifyAt found kept⟩

end

/-! ### Calls that change something -/

section

variable {Ty Job : Type}

/-- No child is stored under a restricted key, which `MapValue::set` refuses. -/
def FreeKeys (v : Value Ty Job) : Prop :=
  ∀ way flags t task job children, v.descend way = some (.map flags t task job children) →
    ∀ entry ∈ children, entry.1 ∉ restrictedKeys

theorem FreeKeys.child {v c : Value Ty Job} {s : Selector} (free : FreeKeys v) (found : v.child s = some c) :
    FreeKeys c := by
  intro way flags t task job children reached
  apply free (s :: way) flags t task job children
  rw [descend, found]
  exact reached

theorem FreeKeys.descend {way : List Selector} {v target : Value Ty Job} (free : FreeKeys v)
    (found : v.descend way = some target) : FreeKeys target := by
  intro below flags t task job children reached
  apply free (way ++ below) flags t task job children
  rw [descend_append, found]
  exact reached

variable {types : Types Ty Job}

theorem childrenJson_adjust_eq {f : Value Ty Job → Value Ty Job} {key : Str} {c : Value Ty Job}
    {children : List (Str × Value Ty Job)} {members : List (Str × Json)} (found : lookup key children = some c)
    (before : childrenJson types children = .ok members)
    (after : childrenJson types (adjust key f children) = .ok members) :
    ∃ j, c.toJson types = .ok j ∧ (f c).toJson types = .ok j := by
  induction children generalizing members with
  | nil => cases found
  | cons entry rest ih =>
      obtain ⟨k, v⟩ := entry
      obtain ⟨j, others, first, tail, rfl⟩ := childrenJson_cons.mp before
      rw [lookup] at found
      rw [adjust] at after
      split at found
      · next here =>
        cases found
        rw [if_pos here] at after
        obtain ⟨j', others', first', _, same⟩ := childrenJson_cons.mp after
        have head : j = j' := congrArg Prod.snd (List.cons.inj same).1
        exact ⟨j, first, head ▸ first'⟩
      · next other =>
        rw [if_neg other] at after
        obtain ⟨_, others', _, tail', same⟩ := childrenJson_cons.mp after
        obtain rfl := (List.cons.inj same).2
        exact ih found tail tail'

theorem elementsJson_modify_eq {f : Value Ty Job → Value Ty Job} {i : ℕ} {e : Value Ty Job}
    {elements : List (Value Ty Job)} {js : List Json} (found : elements[i]? = some e)
    (before : elementsJson types elements = .ok js)
    (after : elementsJson types (elements.modify i f) = .ok js) :
    ∃ j, e.toJson types = .ok j ∧ (f e).toJson types = .ok j := by
  induction elements generalizing i js with
  | nil => cases found
  | cons element rest ih =>
      obtain ⟨j, others, first, tail, rfl⟩ := elementsJson_cons.mp before
      cases i with
      | zero =>
          cases found
          rw [List.modify_zero_cons] at after
          obtain ⟨j', others', first', _, same⟩ := elementsJson_cons.mp after
          obtain rfl := (List.cons.inj same).1
          exact ⟨j, first, first'⟩
      | succ i =>
          rw [List.modify_succ_cons] at after
          obtain ⟨_, others', _, tail', same⟩ := elementsJson_cons.mp after
          obtain rfl := (List.cons.inj same).2
          exact ih found tail tail'

variable (register : Register Ty Job)

/-- If the JSON of a value is what it was, then so is the JSON of what has been changed in it. -/
theorem toJson_modifyAt {f : Value Ty Job → Value Ty Job} {way : List Selector} {v target : Value Ty Job}
    {j : Json} (free : FreeKeys v) (found : v.descend way = some target)
    (before : v.toJson register.types = .ok j) (after : (v.modifyAt f way).toJson register.types = .ok j) :
    ∃ j', target.toJson register.types = .ok j' ∧ (f target).toJson register.types = .ok j' := by
  induction way generalizing v j with
  | nil =>
      cases found
      exact ⟨j, before, after⟩
  | cons s rest ih =>
      obtain ⟨c, first, others⟩ := Option.bind_eq_some_iff.mp found
      have inside {j' : Json} := ih (j := j') (free.child first) others
      cases v with
      | scalar flags value => cases s <;> cases first
      | array flags ctype elements =>
          cases s with
          | key name => cases first
          | index i =>
              rw [Value.toJson] at before
              rw [Value.modifyAt, modifyChild, Value.toJson] at after
              obtain ⟨js, elements_before, rfl⟩ := except_map_eq_ok.mp before
              obtain ⟨js', elements_after, same⟩ := except_map_eq_ok.mp after
              cases same
              obtain ⟨j', c_before, c_after⟩ := elementsJson_modify_eq first elements_before elements_after
              exact inside c_before c_after
      | map flags t task job children =>
          cases s with
          | index i => cases first
          | key name =>
              rw [Value.toJson] at before
              rw [Value.modifyAt, modifyChild, Value.toJson] at after
              obtain ⟨members, children_before, rfl⟩ := except_map_eq_ok.mp before
              obtain ⟨members', children_after, same⟩ := except_map_eq_ok.mp after
              have keys := free [] flags t task job children rfl
              have free' : ∀ member ∈ members', member.1 ∉ restrictedKeys := by
                apply members_free _ children_after
                intro entry member
                rcases mem_adjust member with old | ⟨w, _, stored, rfl⟩
                · exact keys entry old
                · exact keys (name, w) stored
              obtain rfl := objectMembers_inj free' (members_free keys children_before) (Json.object.inj same)
              obtain ⟨j', c_before, c_after⟩ := childrenJson_adjust_eq first children_before children_after
              exact inside c_before c_after

theorem length_elementsJson {elements : List (Value Ty Job)} {js : List Json}
    (written : elementsJson types elements = .ok js) : js.length = elements.length := by
  induction elements generalizing js with
  | nil =>
      cases written
      rfl
  | cons e rest ih =>
      obtain ⟨j, others, _, tail, rfl⟩ := elementsJson_cons.mp written
      rw [List.length_cons, List.length_cons, ih tail]

/-- Scalars with the same JSON. -/
theorem Scalar.toJson_inj {s s' : Scalar} {j : Json} (one : s.toJson = .ok j) (two : s'.toJson = .ok j) :
    s = s' := by
  cases s <;> cases s' <;> cases one <;> cases two <;> rfl

theorem lookup_type_objectMembers (t : TypeRef Ty) (task : Option Str) (members : List (Str × Json)) :
    lookup (str "$type") (objectMembers types t task members) = some (.string (types.nameOf t)) := by
  cases task with
  | none => rw [objectMembers, lookup_insert, if_pos rfl]
  | some identifier => rw [objectMembers, lookup_insert, if_neg (by decide), lookup_insert, if_pos rfl]

theorem lookup_task_objectMembers (t : TypeRef Ty) (task : Option Str) {members : List (Str × Json)}
    (free : ∀ member ∈ members, member.1 ∉ restrictedKeys) :
    lookup (str "$task") (objectMembers types t task members) = task.map Json.string := by
  cases task with
  | none =>
      rw [objectMembers, lookup_insert, if_neg (by decide)]
      exact lookup_free_eq_none (by decide) free
  | some identifier =>
      rw [objectMembers, lookup_insert, if_pos rfl]
      rfl

variable [DecidableEq Ty] (atof : Str → UInt64)

/-- A call after which a value has the same JSON is harmless. -/
theorem harmless_of_toJson {m : Mutator Ty Job} {v : Value Ty Job} {j : Json}
    (named : ∀ s t, register.types.nameOf s = register.types.nameOf t →
      register.types.canIgnoreOf s = register.types.canIgnoreOf t)
    (free : FreeKeys v) (before : v.toJson register.types = .ok j)
    (after : (m.call register atof v).1.toJson register.types = .ok j) : Harmless register atof m v := by
  cases v with
  | scalar flags s =>
      intro s' stored
      rw [(call_scalar register atof m flags s).1 s' stored] at after
      exact Scalar.toJson_inj after before
  | array flags ctype elements =>
      rintro value rfl
      rw [Value.toJson] at before
      rw [Mutator.call, Value.toJson] at after
      obtain ⟨js, elements_before, rfl⟩ := except_map_eq_ok.mp before
      obtain ⟨js', elements_after, same⟩ := except_map_eq_ok.mp after
      cases same
      have longer := length_elementsJson elements_after
      simp [length_elementsJson elements_before, pushBack] at longer
  | map flags old task job children =>
      rw [Value.toJson] at before
      obtain ⟨members, children_before, rfl⟩ := except_map_eq_ok.mp before
      constructor
      · rintro t rfl
        rw [Mutator.call, Value.toJson, children_before] at after
        have names := congrArg (lookup (str "$type")) (Json.object.inj (Except.ok.inj after))
        rw [lookup_type_objectMembers, lookup_type_objectMembers] at names
        have name := Json.string.inj (Option.some.inj names)
        exact ⟨name, named t old name⟩
      · rintro identifier rfl
        rw [Mutator.call, Value.toJson, children_before] at after
        have tasks := congrArg (lookup (str "$task")) (Json.object.inj (Except.ok.inj after))
        have keys := members_free (free [] flags old task job children rfl) children_before
        rw [lookup_task_objectMembers _ _ keys, lookup_task_objectMembers _ _ keys] at tasks
        exact Option.map_injective (fun _ _ => Json.string.inj) tasks

/-! ### Runs -/

/-- Every call of the run is harmless when it is made. -/
def HarmlessAt (root : Value Ty Job) (c : Call Ty Job) : Prop :=
  ∀ target, root.descend c.way = some target → Harmless register atof c.mutator target

/-- The call throws, or leaves the digest, the JSON and the seals as they are. -/
def Keeps (root : Value Ty Job) (c : Call Ty Job) : Prop :=
  c.Throws register atof root ∨ ∀ root', c.step register atof root = some root' →
    root'.updateDigest register.types = root.updateDigest register.types ∧
      root'.toJson register.types = root.toJson register.types ∧ AllSealed root'

/-- A call that throws is harmless for a sealed value. -/
theorem harmless_of_throws {m : Mutator Ty Job} {v : Value Ty Job} {e : Error}
    (thrown : (m.call register atof v).2 = some e) : Harmless register atof m v := by
  cases v with
  | scalar flags s =>
      intro s' stored
      rw [(call_scalar register atof m flags s).1 s' stored] at thrown
      cases thrown
  | array flags ctype elements =>
      rintro value rfl
      cases thrown
  | map flags old task job children =>
      constructor
      · rintro t rfl
        cases thrown
      · rintro identifier rfl
        cases thrown

/-- After `seal` has returned on a value, where what is reached from a sealed part was sealed before, a run
    of harmless calls leaves the digest and the JSON as they are, and everything sealed. After such a run, a
    call throws or keeps all this exactly when it is harmless. -/
theorem sealing_final {v r : Value Ty Job} (below : SealedBelow v)
    (run : (sealedSystem register atof v).RunUnder (HarmlessAt register atof) r) :
    (r.updateDigest register.types = (sealValue v).updateDigest register.types ∧
        r.toJson register.types = (sealValue v).toJson register.types ∧ AllSealed r) ∧
      ((∀ s t, register.types.nameOf s = register.types.nameOf t →
          register.types.canIgnoreOf s = register.types.canIgnoreOf t) → FreeKeys r →
        ∀ j, r.toJson register.types = .ok j → ∀ c target, r.descend c.way = some target →
          (Keeps register atof r c ↔ Harmless register atof c.mutator target)) := by
  have kept : Alike register.types (sealValue v) r ∧ AllSealed r := by
    apply TransitionSystem.System.RunUnder.invariant
      (fun r => Alike register.types (sealValue v) r ∧ AllSealed r) _ _ run
    · rintro _ rfl
      exact ⟨Alike.refl _, allSealed_sealValue below⟩
    · rintro r c r' _ harmless next ⟨alike, isSealed⟩
      obtain ⟨target, found, _⟩ := Option.map_eq_some_iff.mp next
      obtain ⟨alike', isSealed'⟩ := harmless_step isSealed found (harmless target found) next
      exact ⟨alike.trans alike', isSealed'⟩
  refine ⟨⟨kept.1.digest, kept.1.toJson, kept.2⟩, fun named free j written c target found => ?_⟩
  have next : c.step register atof r =
      some (r.modifyAt (fun v => (c.mutator.call register atof v).1) c.way) := by
    rw [Call.step, found]
    rfl
  constructor
  · rintro (⟨_, e, found', thrown⟩ | keeps)
    · rw [found] at found'
      cases found'
      exact harmless_of_throws register atof thrown
    · obtain ⟨_, json, _⟩ := keeps _ next
      obtain ⟨j', before, after⟩ := toJson_modifyAt register free found written (json.trans written)
      exact harmless_of_toJson register atof named (free.descend found) before after
  · intro harmless
    right
    intro root' step
    obtain ⟨alike, isSealed⟩ := harmless_step kept.2 found harmless step
    exact ⟨alike.digest, alike.toJson, isSealed⟩

end

/-- A map of type `B` with an array and a scalar. -/
def sampleConfiguration : Value Sample Unit :=
  .map {} (.base .B) none none
    [(str "list", .array {} (.base .integer) [.scalar {} (.integer 3)]), (str "y", .scalar {} (.integer 5))]

theorem sample_sealedBelow : SealedBelow sampleConfiguration := by
  apply sealedBelow_map rfl
  simp only [List.forall_mem_cons]
  refine ⟨sealedBelow_array rfl ?_, sealedBelow_scalar _ _, nofun⟩
  simp only [List.forall_mem_cons]
  exact ⟨sealedBelow_scalar _ _, nofun⟩

/-- After `seal`, a scalar is given another value. -/
theorem sealed_scalar_changed :
    SealedBelow sampleConfiguration ∧
      ∃ root', Call.step sampleRegister (fun _ => 0) ⟨[.key (str "y")], .setInteger 6⟩
          (sealValue sampleConfiguration) = some root' ∧
        ¬ Call.Throws sampleRegister (fun _ => 0) ⟨[.key (str "y")], .setInteger 6⟩
          (sealValue sampleConfiguration) ∧
        root'.toJson sampleTypes ≠ (sealValue sampleConfiguration).toJson sampleTypes ∧
        root'.updateDigest sampleTypes ≠ (sealValue sampleConfiguration).updateDigest sampleTypes := by
  refine ⟨sample_sealedBelow, _, rfl, ?_, ?_, ?_⟩
  · rintro ⟨target, e, found, thrown⟩
    cases found
    cases thrown
  · intro same
    have members := Json.object.inj (Except.ok.inj same)
    have last := Option.some.inj (congrArg (lookup (str "y")) members)
    cases last
  · intro same
    have last := Symbol.digest.inj (Option.some.inj (congrArg List.getLast? same))
    have codes := List.map_injective_iff.mpr (fun _ _ => Symbol.byte.inj) last
    exact absurd codes (by decide)

/-- A child is refused, and an element of the array is set to what it is. -/
theorem sealing_final_sample :
    ∃ r, (sealedSystem sampleRegister (fun _ => 0) sampleConfiguration).RunUnder
        (HarmlessAt sampleRegister (fun _ => 0)) r ∧
      r.updateDigest sampleTypes = (sealValue sampleConfiguration).updateDigest sampleTypes ∧
        r.toJson sampleTypes = (sealValue sampleConfiguration).toJson sampleTypes ∧ AllSealed r := by
  have refused : Call.step sampleRegister (fun _ => 0) ⟨[], .set (str "z") (.scalar {} .none)⟩
      (sealValue sampleConfiguration) = some (sealValue sampleConfiguration) := rfl
  have stored : Call.step sampleRegister (fun _ => 0) ⟨[.key (str "list"), .index 0], .setInteger 3⟩
      (sealValue sampleConfiguration) = some (sealValue sampleConfiguration) := rfl
  have run : (sealedSystem sampleRegister (fun _ => 0) sampleConfiguration).RunUnder
      (HarmlessAt sampleRegister (fun _ => 0)) (sealValue sampleConfiguration) := by
    apply TransitionSystem.System.RunUnder.step _ _ stored
    · apply TransitionSystem.System.RunUnder.step _ _ refused
      · exact .start rfl
      · rintro target ⟨⟩
        exact ⟨nofun, nofun⟩
    · rintro target ⟨⟩ s' ⟨⟩
      rfl
  exact ⟨_, run, (sealing_final sampleRegister (fun _ => 0) sample_sealedBelow run).1⟩

end Experimaestro.Configuration

/-
Module: Experimaestro.Configuration.Copies
Layer: Configuration
Purpose: `copy` and `MapValue::set` on values with their tags. The elements of an array and the children of a map
  are copied one by one, and the table of the tags with the copy constructor of `Scalar`, which, unlike the
  assignment, does not know a scalar that is unset. `set` stores a copy, marked as default or ignored; without the
  tags, it is the `set` of plain values.
Imports: Experimaestro.Configuration.Tags (values with tags), Experimaestro.Configuration.Exposure (a sample of
  types), Experimaestro.Configuration.Printing (toJson)
Trusted boundary: human-reviewed model of the copy constructors of Value, ComplexValue, ScalarValue, ArrayValue and
  MapValue, and of MapValue::set and MapValue::get
Main exports: copy, TagsSet, copy_of_tagsSet, tagsSet_of_copy, Reproduces, set, get, set_plain, copies_faithful
Open obligations: none
-/
import Experimaestro.Configuration.Exposure
import Experimaestro.Configuration.Printing
import Experimaestro.Configuration.Tags

namespace Experimaestro.Configuration

namespace TaggedValue

variable {Ty Job : Type}

/-! ### Copying -/

/-- The copy of `_tags`. -/
def copyTags : List (Str × Scalar) → Except TagError (List (Str × Scalar))
  | [] => .ok []
  | (label, value) :: rest => do
      let value ← value.copied
      let rest ← copyTags rest
      .ok ((label, value) :: rest)

mutual

/-- `Value::copy`. A scalar value assigns its scalar; the copy of a map has its job and its task. -/
def copy : TaggedValue Ty Job → Except TagError (TaggedValue Ty Job)
  | .scalar flags value label => .ok (.scalar flags value label)
  | .array flags labels tagContext ctype elements => do
      let labels ← copyTags labels
      let elements ← copyElements elements
      .ok (.array flags labels tagContext ctype elements)
  | .map flags labels tagContext type task job children => do
      let labels ← copyTags labels
      let children ← copyChildren children
      .ok (.map flags labels tagContext type task job children)

/-- The copies of the elements of an array. -/
def copyElements : List (TaggedValue Ty Job) → Except TagError (List (TaggedValue Ty Job))
  | [] => .ok []
  | element :: rest => do
      let element ← copy element
      let rest ← copyElements rest
      .ok (element :: rest)

/-- The copies of the children of a map. -/
def copyChildren : List (Str × TaggedValue Ty Job) → Except TagError (List (Str × TaggedValue Ty Job))
  | [] => .ok []
  | (key, child) :: rest => do
      let child ← copy child
      let rest ← copyChildren rest
      .ok ((key, child) :: rest)

end

mutual

/-- The tags of the maps and arrays of a tree are not unset. -/
def TagsSet : TaggedValue Ty Job → Prop
  | .scalar _ _ _ => True
  | .array _ labels _ _ elements => (∀ entry ∈ labels, entry.2 ≠ .unset) ∧ ElementsTagsSet elements
  | .map _ labels _ _ _ _ children => (∀ entry ∈ labels, entry.2 ≠ .unset) ∧ ChildrenTagsSet children

def ElementsTagsSet : List (TaggedValue Ty Job) → Prop
  | [] => True
  | element :: rest => TagsSet element ∧ ElementsTagsSet rest

def ChildrenTagsSet : List (Str × TaggedValue Ty Job) → Prop
  | [] => True
  | (_, child) :: rest => TagsSet child ∧ ChildrenTagsSet rest

end

theorem copied_eq {s other : Scalar} (copied : s.copied = .ok other) : other = s ∧ s ≠ .unset := by
  cases s with
  | unset => cases copied
  | _ =>
      cases copied
      exact ⟨rfl, Scalar.noConfusion⟩

theorem copyTags_of_set {labels : List (Str × Scalar)} (given : ∀ entry ∈ labels, entry.2 ≠ .unset) :
    copyTags labels = .ok labels := by
  induction labels with
  | nil => rfl
  | cons entry rest ih =>
      obtain ⟨first, others⟩ := List.forall_mem_cons.mp given
      rw [copyTags, Scalar.copied_of_set first, ih others]
      rfl

theorem set_of_copyTags {labels others : List (Str × Scalar)} (copied : copyTags labels = .ok others) :
    ∀ entry ∈ labels, entry.2 ≠ .unset := by
  induction labels generalizing others with
  | nil => exact List.forall_mem_nil _
  | cons entry rest ih =>
      rw [copyTags] at copied
      cases first : entry.2.copied with
      | error e => simp [first, bind, Except.bind] at copied
      | ok value =>
          cases further : copyTags rest with
          | error e => simp [first, further, bind, Except.bind] at copied
          | ok table => exact List.forall_mem_cons.mpr ⟨(copied_eq first).2, ih further⟩

mutual

/-- The copy of a value is the value. -/
theorem copy_of_tagsSet (v : TaggedValue Ty Job) (given : v.TagsSet) : v.copy = .ok v := by
  cases v with
  | scalar flags value label => rw [copy]
  | array flags labels tagContext ctype elements =>
      rw [TagsSet] at given
      rw [copy, copyTags_of_set given.1, copyElements_of_tagsSet elements given.2]
      rfl
  | map flags labels tagContext type task job children =>
      rw [TagsSet] at given
      rw [copy, copyTags_of_set given.1, copyChildren_of_tagsSet children given.2]
      rfl

theorem copyElements_of_tagsSet (elements : List (TaggedValue Ty Job)) (given : ElementsTagsSet elements) :
    copyElements elements = .ok elements := by
  cases elements with
  | nil => rw [copyElements]
  | cons element rest =>
      rw [ElementsTagsSet] at given
      rw [copyElements, copy_of_tagsSet element given.1, copyElements_of_tagsSet rest given.2]
      rfl

theorem copyChildren_of_tagsSet (children : List (Str × TaggedValue Ty Job)) (given : ChildrenTagsSet children) :
    copyChildren children = .ok children := by
  cases children with
  | nil => rw [copyChildren]
  | cons entry rest =>
      rw [ChildrenTagsSet] at given
      rw [copyChildren, copy_of_tagsSet entry.2 given.1, copyChildren_of_tagsSet rest given.2]
      rfl

end

mutual

/-- A value that can be copied has no unset tag on a map or an array. -/
theorem tagsSet_of_copy (v : TaggedValue Ty Job) {w : TaggedValue Ty Job} (copied : v.copy = .ok w) : v.TagsSet := by
  cases v with
  | scalar flags value label =>
      rw [TagsSet]
      trivial
  | array flags labels tagContext ctype elements =>
      rw [copy, bind_eq_ok] at copied
      obtain ⟨_, copiedTags, further⟩ := copied
      obtain ⟨_, copiedElements, _⟩ := bind_eq_ok.mp further
      rw [TagsSet]
      exact ⟨set_of_copyTags copiedTags, elementsTagsSet_of_copy elements copiedElements⟩
  | map flags labels tagContext type task job children =>
      rw [copy, bind_eq_ok] at copied
      obtain ⟨_, copiedTags, further⟩ := copied
      obtain ⟨_, copiedChildren, _⟩ := bind_eq_ok.mp further
      rw [TagsSet]
      exact ⟨set_of_copyTags copiedTags, childrenTagsSet_of_copy children copiedChildren⟩

theorem elementsTagsSet_of_copy (elements : List (TaggedValue Ty Job)) {others : List (TaggedValue Ty Job)}
    (copied : copyElements elements = .ok others) : ElementsTagsSet elements := by
  cases elements with
  | nil =>
      rw [ElementsTagsSet]
      trivial
  | cons element rest =>
      rw [copyElements, bind_eq_ok] at copied
      obtain ⟨_, first, further⟩ := copied
      obtain ⟨_, copiedRest, _⟩ := bind_eq_ok.mp further
      rw [ElementsTagsSet]
      exact ⟨tagsSet_of_copy element first, elementsTagsSet_of_copy rest copiedRest⟩

theorem childrenTagsSet_of_copy (children : List (Str × TaggedValue Ty Job))
    {others : List (Str × TaggedValue Ty Job)} (copied : copyChildren children = .ok others) :
    ChildrenTagsSet children := by
  cases children with
  | nil =>
      rw [ChildrenTagsSet]
      trivial
  | cons entry rest =>
      rw [copyChildren, bind_eq_ok] at copied
      obtain ⟨_, first, further⟩ := copied
      obtain ⟨_, copiedRest, _⟩ := bind_eq_ok.mp further
      rw [ChildrenTagsSet]
      exact ⟨tagsSet_of_copy entry.2 first, childrenTagsSet_of_copy rest copiedRest⟩

end

/-- What is copied is the value itself. -/
theorem copy_eq {v w : TaggedValue Ty Job} (copied : v.copy = .ok w) : w = v := by
  rw [copy_of_tagsSet v (tagsSet_of_copy v copied)] at copied
  exact (Except.ok.inj copied).symm

/-! ### Storing -/

/-- Change the flags of a value. -/
def withFlags (f : Flags → Flags) : TaggedValue Ty Job → TaggedValue Ty Job
  | .scalar flags value label => .scalar (f flags) value label
  | .array flags labels tagContext ctype elements => .array (f flags) labels tagContext ctype elements
  | .map flags labels tagContext type task job children => .map (f flags) labels tagContext type task job children

/-- The exceptions of `set`: those of the copy, and its own. -/
inductive SetError where
  | copying (e : TagError)
  | storing (e : Error)
deriving DecidableEq, Repr

/-- The marks of an argument, on the value that is stored under it. -/
def markFor (argument : Option (Argument Ty Job)) (v : TaggedValue Ty Job) : Except Error (TaggedValue Ty Job) :=
  match argument with
  | none => .ok v
  | some argument =>
      (Value.equalsDefault argument v.plain).map fun isDefault =>
        v.withFlags fun flags =>
          { flags with
            isDefault := flags.isDefault || isDefault
            ignore := flags.ignore || argument.ignored }

/-- `MapValue::set`: the map afterwards, and the exception when one is thrown. -/
def set (types : Types Ty Job) (target : TaggedValue Ty Job) (key : Str) (value : TaggedValue Ty Job) :
    TaggedValue Ty Job × Option SetError :=
  match target with
  | .map flags labels tagContext type task job children =>
      let target : TaggedValue Ty Job := .map flags labels tagContext type task job children
      if flags.isSealed then (target, some (.storing .sealedError))
      else
        match value.copy with
        | .error e => (target, some (.copying e))
        | .ok copied =>
            if key ∈ restrictedKeys then
              (target, some (.storing (.argumentError (str "Cannot access directly to " ++ key))))
            else
              match markFor (Value.ownArgument types type key) copied with
              | .ok marked => (.map flags labels tagContext type task job (insert key marked children), none)
              | .error e => (.map flags labels tagContext type task job (insert key copied children), some (.storing e))
  | other => (other, some (.storing (.argumentError (str "Cannot cast to Map"))))

/-- `MapValue::get`. -/
def get (key : Str) : TaggedValue Ty Job → Option (TaggedValue Ty Job)
  | .map _ _ _ _ _ _ children => lookup key children
  | _ => none

theorem plain_withFlags (f : Flags → Flags) (v : TaggedValue Ty Job) : (v.withFlags f).plain = v.plain.withFlags f := by
  cases v <;> simp only [withFlags, plain, Value.withFlags]

theorem markFor_plain (argument : Option (Argument Ty Job)) (v : TaggedValue Ty Job) :
    (markFor argument v).map plain = Value.markFor argument v.plain := by
  cases argument with
  | none => rfl
  | some a =>
      rw [markFor, Value.markFor]
      cases Value.equalsDefault a v.plain with
      | error e => rfl
      | ok isDefault => exact congrArg Except.ok (plain_withFlags _ v)

theorem plainChildren_insert (key : Str) (v : TaggedValue Ty Job) (children : List (Str × TaggedValue Ty Job)) :
    plainChildren (insert key v children) = insert key v.plain (plainChildren children) := by
  induction children with
  | nil => rfl
  | cons entry rest ih =>
      obtain ⟨k, child⟩ := entry
      rw [insert, plainChildren, insert]
      split
      · rfl
      · split
        · rfl
        · rw [plainChildren, ih]

/-- Without the tags, what `set` does to a map once the value is copied is what it does to plain values. -/
theorem set_plain (types : Types Ty Job) (target : TaggedValue Ty Job) (key : Str)
    {value : TaggedValue Ty Job} (given : value.TagsSet) :
    ((set types target key value).1.plain, (set types target key value).2) =
      Prod.map id (Option.map .storing) (target.plain.set types key value.plain) := by
  cases target with
  | scalar flags own label => simp only [set, plain, Value.set, Prod.map, id, Option.map]
  | array flags labels tagContext ctype elements => simp only [set, plain, Value.set, Prod.map, id, Option.map]
  | map flags labels tagContext type task job children =>
      simp only [set, plain, Value.set, copy_of_tagsSet value given, ← markFor_plain]
      by_cases closed : flags.isSealed
      · simp [closed, plain]
      · by_cases restricted : key ∈ restrictedKeys
        · simp [closed, restricted, plain]
        · cases marks : markFor (Value.ownArgument types type key) value with
          | error e => simp [closed, restricted, plain, plainChildren_insert, Except.map]
          | ok marked => simp [closed, restricted, plain, plainChildren_insert, Except.map]

/-- A marked value has other flags. -/
theorem markFor_eq {argument : Option (Argument Ty Job)} {v marked : TaggedValue Ty Job}
    (marks : markFor argument v = .ok marked) : ∃ f : Flags → Flags, marked.plain = v.plain.withFlags f := by
  cases argument with
  | none =>
      cases marks
      exact ⟨id, by cases v.plain <;> rfl⟩
  | some a =>
      rw [markFor] at marks
      cases compared : Value.equalsDefault a v.plain with
      | error e =>
          rw [compared] at marks
          cases marks
      | ok isDefault =>
          rw [compared] at marks
          cases marks
          exact ⟨_, plain_withFlags _ v⟩

/-- What a map holds after a `set` that returned is the value with other flags. -/
theorem get_set {types : Types Ty Job} {target : TaggedValue Ty Job} {key : Str}
    {value : TaggedValue Ty Job} (returned : (set types target key value).2 = none) :
    ∃ stored, (set types target key value).1.get key = some stored ∧
      ∃ f : Flags → Flags, stored.plain = value.plain.withFlags f := by
  cases target with
  | scalar flags own label => cases returned
  | array flags labels tagContext ctype elements => cases returned
  | map flags labels tagContext type task job children =>
      by_cases closed : flags.isSealed
      · simp [set, closed] at returned
      cases copied : value.copy with
      | error e => simp [set, closed, copied] at returned
      | ok w =>
          by_cases restricted : key ∈ restrictedKeys
          · simp [set, closed, copied, restricted] at returned
          cases marks : markFor (Value.ownArgument types type key) w with
          | error e => simp [set, closed, copied, restricted, marks] at returned
          | ok marked =>
              refine ⟨marked, ?_, copy_eq copied ▸ markFor_eq marks⟩
              simp only [set, closed, copied, restricted, marks, get]
              simp [lookup_insert]

/-! ### What a copy has -/

/-- Two values that nothing tells apart: what is hashed, the flags, the name of the type, the JSON, and the
    tags. -/
structure Reproduces (types : Types Ty Job) (v w : TaggedValue Ty Job) : Prop where
  digest : w.plain.updateDigest types = v.plain.updateDigest types
  flags : w.flags = v.flags
  type : types.nameOf (w.plain.type types) = types.nameOf (v.plain.type types)
  json : w.plain.toJson types = v.plain.toJson types
  tags : w.tags = v.tags

/-- A value has a copy that is like it exactly if no tag of a map or array in it is unset, and what a map holds
    after a `set` that returned has the digest and the JSON of the value that was given. -/
theorem copies_faithful (types : Types Ty Job) :
    (∀ v : TaggedValue Ty Job, (∃ w, v.copy = .ok w ∧ Reproduces types v w) ↔ v.TagsSet) ∧
      ∀ (target : TaggedValue Ty Job) (key : Str) (value : TaggedValue Ty Job),
        (set types target key value).2 = none →
          ∃ stored, (set types target key value).1.get key = some stored ∧
            stored.plain.updateDigest types = value.plain.updateDigest types ∧
            stored.plain.toJson types = value.plain.toJson types := by
  constructor
  · intro v
    constructor
    · intro ⟨_, copied, _⟩
      exact tagsSet_of_copy v copied
    · intro given
      exact ⟨v, copy_of_tagsSet v given, rfl, rfl, rfl, rfl, rfl⟩
  · intro target key value returned
    obtain ⟨stored, found, f, marked⟩ := get_set returned
    refine ⟨stored, found, ?_, ?_⟩
    · rw [marked, Value.updateDigest_withFlags]
    · rw [marked, Value.toJson_withFlags]

/-- A configuration with a tagged scalar; the value of `y` is its default. -/
def sampleCopied : TaggedValue Sample Unit :=
  .map {} [(str "kind", .string (str "small"))] (str "model") (.base .B) none none
    [(str "y", .scalar {} (.integer 2) (str "rate"))]

theorem copies_faithful_sample :
    (∃ w, sampleCopied.copy = .ok w ∧ Reproduces sampleTypes sampleCopied w) ∧
      ∃ stored, (set sampleTypes sampleCopied (str "y") (.scalar {} (.integer 2) [])).1.get (str "y") = some stored ∧
        stored.plain.updateDigest sampleTypes = (Value.scalar {} (.integer 2) : Value Sample Unit).updateDigest sampleTypes ∧
        stored.plain.toJson sampleTypes = (Value.scalar {} (.integer 2) : Value Sample Unit).toJson sampleTypes :=
  have given : sampleCopied.TagsSet := by simp [sampleCopied, TagsSet, ChildrenTagsSet]
  have returned : (set sampleTypes sampleCopied (str "y") (.scalar {} (.integer 2) [])).2 = none := by
    decide
  ⟨((copies_faithful sampleTypes).1 sampleCopied).mpr given,
    (copies_faithful sampleTypes).2 sampleCopied (str "y") _ returned⟩

/-- A map with an unset tag cannot be copied. -/
theorem unset_tag_not_copied :
    ¬ ∀ v : TaggedValue Sample Unit, ∃ w, v.copy = .ok w ∧ Reproduces sampleTypes v w := by
  intro faithful
  let tagged : TaggedValue Sample Unit := addTag (str "kind") .unset (.map {} [] [] (.base .B) none none [])
  obtain ⟨w, copied, _⟩ := faithful tagged
  have thrown : tagged.copy = .error (.outOfRange (str "Scalar type is not known (copying)")) := rfl
  rw [thrown] at copied
  cases copied

end TaggedValue

end Experimaestro.Configuration

/-
Module: Experimaestro.Configuration.Tags
Layer: Configuration
Purpose: Values with their tags, and `Value::tags`. A scalar has at most one tag, a map or an array has a table of
  tags and a context; neither has a part in the identifier or in the JSON of a value, so that the values of the
  other modules leave them out. `occurrences` lists the tags of a tree with the contexts around them, and
  `retrieveTags` collects them under their qualified names.
Imports: Experimaestro.Configuration.Places (entries of tables)
Trusted boundary: human-reviewed model of ComplexValue, ScalarValue::tag, Value::tags and retrieveTags, and of the
  copy constructor of Scalar
Main exports: TaggedValue, plain, TagError, Scalar.copied, retrieveTags, tags, Occurrence, occurrences, collect,
  retrieveTags_eq_collect, tags_collected
Open obligations: none
-/
import Mathlib.Tactic.Common
import Experimaestro.Configuration.Places

namespace Experimaestro.Configuration

/-! ### Values with tags -/

/-- `ScalarValue`, `ArrayValue` and `MapValue`, with `_tag`, and with `_tags` and `_tagContext` of
    `ComplexValue`. A scalar without a tag has the empty one. -/
inductive TaggedValue (Ty Job : Type) where
  | scalar (flags : Flags) (value : Scalar) (tag : Str)
  | array (flags : Flags) (tags : List (Str × Scalar)) (tagContext : Str) (ctype : TypeRef Ty)
      (elements : List (TaggedValue Ty Job))
  | map (flags : Flags) (tags : List (Str × Scalar)) (tagContext : Str) (type : TypeRef Ty) (task : Option Str)
      (job : Option Job) (children : List (Str × TaggedValue Ty Job))

/-- What is thrown by `tags` and by the copy constructors. -/
inductive TagError where
  | assertionError (message : Str)
  | outOfRange (message : Str)
deriving DecidableEq, Repr

/-- The copy constructor of `Scalar`. The assignment, unlike it, takes a scalar that is unset. -/
def Scalar.copied : Scalar → Except TagError Scalar
  | .unset => .error (.outOfRange (str "Scalar type is not known (copying)"))
  | s => .ok s

theorem Scalar.copied_of_set {s : Scalar} (given : s ≠ .unset) : s.copied = .ok s := by
  cases s with
  | unset => exact absurd rfl given
  | _ => rfl

namespace TaggedValue

variable {Ty Job : Type}

/-- `Value::_flags`. -/
def flags : TaggedValue Ty Job → Flags
  | .scalar flags _ _ => flags
  | .array flags _ _ _ _ => flags
  | .map flags _ _ _ _ _ _ => flags

mutual

/-- The value without its tags. -/
def plain : TaggedValue Ty Job → Value Ty Job
  | .scalar flags value _ => .scalar flags value
  | .array flags _ _ ctype elements => .array flags ctype (plainElements elements)
  | .map flags _ _ type task job children => .map flags type task job (plainChildren children)

def plainElements : List (TaggedValue Ty Job) → List (Value Ty Job)
  | [] => []
  | element :: rest => plain element :: plainElements rest

def plainChildren : List (Str × TaggedValue Ty Job) → List (Str × Value Ty Job)
  | [] => []
  | (key, child) :: rest => (key, plain child) :: plainChildren rest

end

/-- `ScalarValue::tag`. -/
def tag (name : Str) : TaggedValue Ty Job → TaggedValue Ty Job
  | .scalar flags value _ => .scalar flags value name
  | other => other

/-- `ComplexValue::addTag`. -/
def addTag (name : Str) (scalar : Scalar) : TaggedValue Ty Job → TaggedValue Ty Job
  | .array flags tags tagContext ctype elements =>
      .array flags (insert name scalar tags) tagContext ctype elements
  | .map flags tags tagContext type task job children =>
      .map flags (insert name scalar tags) tagContext type task job children
  | other => other

/-- `ComplexValue::setTagContext`. -/
def setTagContext (name : Str) : TaggedValue Ty Job → TaggedValue Ty Job
  | .array flags tags _ ctype elements => .array flags tags name ctype elements
  | .map flags tags _ type task job children => .map flags tags name type task job children
  | other => other

/-! ### Collecting -/

/-- The insertion of a tag that `retrieveTags` makes, where the name is its name in the table. -/
def insertTag (name tag : Str) (scalar : Scalar) (tags : List (Str × Scalar)) :
    Except TagError (List (Str × Scalar)) := do
  let value ← scalar.copied
  if (lookup name tags).isSome then
    .error (.assertionError (str "Tag " ++ tag ++ str " was present more than once in the value"))
  else .ok (insert name value tags)

/-- The context of the children of a complex value. -/
def innerContext (tagContext context : Str) : Str :=
  if tagContext = [] then context else context ++ tagContext ++ str "/"

/-- The loop of a complex value over its own tags. -/
def retrieveOwn (context : Str) : List (Str × Scalar) → List (Str × Scalar) → Except TagError (List (Str × Scalar))
  | [], tags => .ok tags
  | (label, value) :: rest, tags => do
      let tags ← insertTag (context ++ label) label value tags
      retrieveOwn context rest tags

mutual

/-- `retrieveTags`. -/
def retrieveTags : TaggedValue Ty Job → Str → List (Str × Scalar) → Except TagError (List (Str × Scalar))
  | .scalar _ value tag, context, tags =>
      if tag = [] then .ok tags else insertTag (context ++ tag) tag value tags
  | .array _ own tagContext _ elements, context, tags => do
      let c := innerContext tagContext context
      let tags ← retrieveElements elements c tags
      retrieveOwn c own tags
  | .map _ own tagContext _ _ _ children, context, tags => do
      let c := innerContext tagContext context
      let tags ← retrieveChildren children c tags
      retrieveOwn c own tags

/-- `foreachChild` of an array. -/
def retrieveElements : List (TaggedValue Ty Job) → Str → List (Str × Scalar) → Except TagError (List (Str × Scalar))
  | [], _, tags => .ok tags
  | element :: rest, context, tags => do
      let tags ← retrieveTags element context tags
      retrieveElements rest context tags

/-- `foreachChild` of a map. -/
def retrieveChildren : List (Str × TaggedValue Ty Job) → Str → List (Str × Scalar) →
    Except TagError (List (Str × Scalar))
  | [], _, tags => .ok tags
  | (_, child) :: rest, context, tags => do
      let tags ← retrieveTags child context tags
      retrieveChildren rest context tags

end

/-- `Value::tags`. -/
def tags (v : TaggedValue Ty Job) : Except TagError (List (Str × Scalar)) := retrieveTags v [] []

end TaggedValue

/-! ### Occurrences -/

/-- A tag in a tree: the contexts of the maps and arrays around it, from the root inwards, and what is tagged. -/
structure Occurrence where
  contexts : List Str
  tag : Str
  scalar : Scalar
deriving DecidableEq, Repr

namespace Occurrence

/-- The contexts that are not empty, each followed by a slash. -/
def path (contexts : List Str) : Str := (contexts.filter (· ≠ [])).flatMap fun context => context ++ str "/"

/-- The qualified name of a tag. -/
def name (o : Occurrence) : Str := path o.contexts ++ o.tag

/-- The same tag, seen from further outside. -/
def within (context : Str) (o : Occurrence) : Occurrence := { o with contexts := context :: o.contexts }

/-- The tag of a value that has no context around it. -/
def own (entry : Str × Scalar) : Occurrence := ⟨[], entry.1, entry.2⟩

theorem name_within (context : Str) (o : Occurrence) :
    (o.within context).name = (if context = [] then [] else context ++ str "/") ++ o.name := by
  by_cases empty : context = []
  · simp [name, path, within, empty]
  · simp [name, path, within, empty]

end Occurrence

namespace TaggedValue

variable {Ty Job : Type}

mutual

/-- The tags of a tree. -/
def occurrences : TaggedValue Ty Job → List Occurrence
  | .scalar _ value tag => if tag = [] then [] else [⟨[], tag, value⟩]
  | .array _ own tagContext _ elements =>
      (elementOccurrences elements ++ own.map Occurrence.own).map (Occurrence.within tagContext)
  | .map _ own tagContext _ _ _ children =>
      (childOccurrences children ++ own.map Occurrence.own).map (Occurrence.within tagContext)

def elementOccurrences : List (TaggedValue Ty Job) → List Occurrence
  | [] => []
  | element :: rest => occurrences element ++ elementOccurrences rest

def childOccurrences : List (Str × TaggedValue Ty Job) → List Occurrence
  | [] => []
  | (_, child) :: rest => occurrences child ++ childOccurrences rest

end

/-- The tags are inserted one after the other, under their qualified names behind a context. -/
def collect (context : Str) : List Occurrence → List (Str × Scalar) → Except TagError (List (Str × Scalar))
  | [], tags => .ok tags
  | o :: rest, tags => do
      let tags ← insertTag (context ++ o.name) o.tag o.scalar tags
      collect context rest tags

theorem collect_append (context : Str) (os others : List Occurrence) (tags : List (Str × Scalar)) :
    collect context (os ++ others) tags = collect context os tags >>= collect context others := by
  induction os generalizing tags with
  | nil => rfl
  | cons o rest ih =>
      rw [List.cons_append, collect, collect]
      cases insertTag (context ++ o.name) o.tag o.scalar tags with
      | error e => rfl
      | ok inserted => exact ih inserted

/-- The context of a complex value can be a part of the context behind which its tags are collected. -/
theorem collect_within (tagContext context : Str) (os : List Occurrence) (tags : List (Str × Scalar)) :
    collect context (os.map (Occurrence.within tagContext)) tags =
      collect (innerContext tagContext context) os tags := by
  have qualified (o : Occurrence) :
      context ++ (o.within tagContext).name = innerContext tagContext context ++ o.name := by
    rw [Occurrence.name_within, innerContext]
    split
    · rfl
    · simp
  induction os generalizing tags with
  | nil => rfl
  | cons o rest ih =>
      rw [List.map_cons, collect, collect, qualified o]
      exact bind_congr ih

theorem retrieveOwn_eq_collect (context : Str) (own tags : List (Str × Scalar)) :
    retrieveOwn context own tags = collect context (own.map Occurrence.own) tags := by
  induction own generalizing tags with
  | nil => rfl
  | cons entry rest ih => exact bind_congr ih

mutual

/-- What `retrieveTags` inserts are the tags of the tree, in their order. -/
theorem retrieveTags_eq_collect (v : TaggedValue Ty Job) (context : Str) (tags : List (Str × Scalar)) :
    v.retrieveTags context tags = collect context v.occurrences tags := by
  cases v with
  | scalar flags value tag =>
      rw [retrieveTags, occurrences]
      by_cases untagged : tag = []
      · simp [untagged, collect]
      · simp only [untagged, if_false, collect, Occurrence.name, Occurrence.path, List.filter_nil, List.flatMap_nil,
          List.nil_append]
        exact (bind_pure (insertTag (context ++ tag) tag value tags)).symm
  | array flags own tagContext ctype elements =>
      rw [retrieveTags, occurrences, collect_within, collect_append]
      simp only [retrieveElements_eq_collect elements, retrieveOwn_eq_collect]
  | map flags own tagContext type task job children =>
      rw [retrieveTags, occurrences, collect_within, collect_append]
      simp only [retrieveChildren_eq_collect children, retrieveOwn_eq_collect]

theorem retrieveElements_eq_collect (elements : List (TaggedValue Ty Job)) (context : Str)
    (tags : List (Str × Scalar)) :
    retrieveElements elements context tags = collect context (elementOccurrences elements) tags := by
  cases elements with
  | nil => rfl
  | cons element rest =>
      rw [retrieveElements, elementOccurrences, collect_append, retrieveTags_eq_collect element]
      exact bind_congr fun _ => retrieveElements_eq_collect rest context _

theorem retrieveChildren_eq_collect (children : List (Str × TaggedValue Ty Job)) (context : Str)
    (tags : List (Str × Scalar)) :
    retrieveChildren children context tags = collect context (childOccurrences children) tags := by
  cases children with
  | nil => rfl
  | cons entry rest =>
      rw [retrieveChildren, childOccurrences, collect_append, retrieveTags_eq_collect entry.2]
      exact bind_congr fun _ => retrieveChildren_eq_collect rest context _

end

/-! ### Qualified names -/

theorem insertTag_fresh {name tag : Str} {s : Scalar} {tags : List (Str × Scalar)} (given : s ≠ .unset)
    (fresh : lookup name tags = none) : insertTag name tag s tags = .ok (insert name s tags) := by
  simp [insertTag, Scalar.copied_of_set given, fresh, bind, Except.bind]

theorem insertTag_bound {name tag : Str} {s : Scalar} {tags : List (Str × Scalar)} (given : s ≠ .unset)
    (bound : lookup name tags ≠ none) :
    insertTag name tag s tags =
      .error (.assertionError (str "Tag " ++ tag ++ str " was present more than once in the value")) := by
  have isSome : (lookup name tags).isSome := Option.isSome_iff_ne_none.mpr bound
  simp [insertTag, Scalar.copied_of_set given, isSome, bind, Except.bind]

/-- The qualified names of tags differ from each other and from the names that are bound already. -/
def Unambiguous (context : Str) (os : List Occurrence) (tags : List (Str × Scalar)) : Prop :=
  (os.map Occurrence.name).Nodup ∧ ∀ o ∈ os, lookup (context ++ o.name) tags = none

/-- The first tag is new, and the others are with it in the table. -/
theorem unambiguous_cons {context : Str} {o : Occurrence} {rest : List Occurrence} {tags : List (Str × Scalar)} :
    Unambiguous context (o :: rest) tags ↔
      lookup (context ++ o.name) tags = none ∧
        Unambiguous context rest (insert (context ++ o.name) o.scalar tags) := by
  have different (other : Occurrence) :
      lookup (context ++ other.name) (insert (context ++ o.name) o.scalar tags) = none ↔
        o.name ≠ other.name ∧ lookup (context ++ other.name) tags = none := by
    rw [lookup_insert]
    by_cases same : o.name = other.name <;> simp [same]
  constructor
  · intro unambiguous
    obtain ⟨⟨apart, nodup⟩, first, others⟩ := by
      simpa only [Unambiguous, List.map_cons, List.nodup_cons, List.forall_mem_cons] using unambiguous
    refine ⟨first, nodup, fun other member => (different other).mpr ⟨?_, others other member⟩⟩
    intro same
    exact apart (same ▸ List.mem_map_of_mem member)
  · intro ⟨first, nodup, others⟩
    have apart : o.name ∉ rest.map Occurrence.name := by
      intro repeated
      obtain ⟨other, member, same⟩ := List.mem_map.mp repeated
      exact ((different other).mp (others other member)).1 same.symm
    refine ⟨List.nodup_cons.mpr ⟨apart, nodup⟩, List.forall_mem_cons.mpr ⟨first, ?_⟩⟩
    intro other member
    exact ((different other).mp (others other member)).2

/-- Tags with different names are all collected. -/
theorem collect_unambiguous {context : Str} {os : List Occurrence} {tags : List (Str × Scalar)}
    (given : ∀ o ∈ os, o.scalar ≠ .unset) (unambiguous : Unambiguous context os tags) :
    ∃ collected, collect context os tags = .ok collected ∧
      ∀ name s, lookup name collected = some s ↔
        lookup name tags = some s ∨ ∃ o ∈ os, context ++ o.name = name ∧ o.scalar = s := by
  induction os generalizing tags with
  | nil => exact ⟨tags, rfl, by simp⟩
  | cons o rest ih =>
      obtain ⟨first, others⟩ := unambiguous_cons.mp unambiguous
      obtain ⟨setFirst, setOthers⟩ := List.forall_mem_cons.mp given
      obtain ⟨collected, result, entries⟩ := ih setOthers others
      refine ⟨collected, ?_, ?_⟩
      · rw [collect, insertTag_fresh setFirst first]
        exact result
      · intro name s
        rw [entries, lookup_insert]
        simp only [List.mem_cons, exists_eq_or_imp]
        by_cases same : context ++ o.name = name
        · have unbound : lookup name tags = none := same ▸ first
          simp [same, unbound]
        · simp [same]

/-- A name that occurs twice is an error. -/
theorem collect_ambiguous {context : Str} {os : List Occurrence} {tags : List (Str × Scalar)}
    (given : ∀ o ∈ os, o.scalar ≠ .unset) (ambiguous : ¬ Unambiguous context os tags) :
    ∃ message, collect context os tags = .error (.assertionError message) := by
  induction os generalizing tags with
  | nil => exact absurd ⟨List.nodup_nil, by simp⟩ ambiguous
  | cons o rest ih =>
      obtain ⟨setFirst, setOthers⟩ := List.forall_mem_cons.mp given
      by_cases first : lookup (context ++ o.name) tags = none
      · have others : ¬ Unambiguous context rest (insert (context ++ o.name) o.scalar tags) :=
          fun others => ambiguous (unambiguous_cons.mpr ⟨first, others⟩)
        rw [collect, insertTag_fresh setFirst first]
        exact ih setOthers others
      · rw [collect, insertTag_bound setFirst first]
        exact ⟨_, rfl⟩

/-- When the tags of a tree hold values, `tags` fails exactly if two of them have the same qualified name, and
    otherwise is the table of the qualified names with what is tagged. -/
theorem tags_collected (v : TaggedValue Ty Job) (given : ∀ o ∈ v.occurrences, o.scalar ≠ .unset) :
    ((∃ message, v.tags = .error (.assertionError message)) ↔ ¬ (v.occurrences.map Occurrence.name).Nodup) ∧
      ((v.occurrences.map Occurrence.name).Nodup →
        ∃ collected, v.tags = .ok collected ∧
          ∀ name s, lookup name collected = some s ↔ ∃ o ∈ v.occurrences, o.name = name ∧ o.scalar = s) := by
  have collected : v.tags = collect [] v.occurrences [] := retrieveTags_eq_collect v [] []
  have names : Unambiguous [] v.occurrences [] ↔ (v.occurrences.map Occurrence.name).Nodup :=
    and_iff_left fun _ _ => rfl
  rw [collected, ← names]
  constructor
  · constructor
    · intro ⟨message, failed⟩ unambiguous
      obtain ⟨_, succeeded, _⟩ := collect_unambiguous given unambiguous
      rw [succeeded] at failed
      cases failed
    · exact collect_ambiguous given
  · intro unambiguous
    obtain ⟨table, succeeded, entries⟩ := collect_unambiguous given unambiguous
    refine ⟨table, succeeded, fun name s => ?_⟩
    simpa [lookup] using entries name s

/-- A model with a tagged number, and a tag of its own, in a context. -/
def sampleTagged : TaggedValue Unit Unit :=
  let rate : TaggedValue Unit Unit := .scalar {} (.integer 2) []
  let model : TaggedValue Unit Unit := .map {} [] [] (.base ()) none none [(str "rate", rate.tag (str "rate"))]
  (model.addTag (str "size") (.string (str "small"))).setTagContext (str "model")

theorem tags_collected_sample :
    (sampleTagged.occurrences.map Occurrence.name).Nodup ∧
      ∃ collected, sampleTagged.tags = .ok collected ∧
        ∀ name s, lookup name collected = some s ↔ ∃ o ∈ sampleTagged.occurrences, o.name = name ∧ o.scalar = s :=
  have nodup : (sampleTagged.occurrences.map Occurrence.name).Nodup := by decide
  ⟨nodup, (tags_collected sampleTagged (by decide)).2 nodup⟩

end TaggedValue

end Experimaestro.Configuration

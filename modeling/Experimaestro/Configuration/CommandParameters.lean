/-
Module: Experimaestro.Configuration.CommandParameters
Layer: Configuration
Purpose: The parameters of the command `run`. A pair `--path value` is applied to the value that `getSubValue`
  returns. Where the path is missing, it stores a copy of a fresh value in the map and returns the fresh one,
  so that the pair changes a value outside of the configuration.
Imports: Experimaestro.Configuration.Identifiers, Experimaestro.Configuration.Sealing,
  Experimaestro.Configuration.Validity
Trusted boundary: human-reviewed model of getSubValue and of the parameter loop of Register::parse, with
  Type::argument and Type::create
Main exports: splitKey, getSubValue, setParameter, parseParameters, created, parameter_lost,
  parameters_reach
Open obligations: none
-/
import Mathlib.Tactic.Common
import Experimaestro.Configuration.Identifiers
import Experimaestro.Configuration.Sealing
import Experimaestro.Configuration.Validity

namespace Experimaestro.Configuration

open Value

/-! ### Keys -/

/-- Put a character in front of the first component. -/
def prependTo (c : UInt8) : List Str → List Str
  | [] => [[c]]
  | first :: rest => (c :: first) :: rest

/-- The components of a key. A separator at the start of a component belongs to it, since the search begins
    one character later. -/
def splitKey (separator : UInt8) : Bool → Str → List Str
  | _, [] => [[]]
  | atStart, c :: rest =>
      if c = separator ∧ atStart = false then [] :: splitKey separator true rest
      else prependTo c (splitKey separator false rest)

theorem splitKey_ne_nil (separator : UInt8) (atStart : Bool) (key : Str) :
    splitKey separator atStart key ≠ [] := by
  cases key with
  | nil => exact List.cons_ne_nil _ _
  | cons c rest =>
      rw [splitKey]
      split
      · exact List.cons_ne_nil _ _
      · cases splitKey separator false rest <;> exact List.cons_ne_nil _ _

/-- The components of the option `--path`. -/
def pathOf (option : Str) : List Str := splitKey 45 true (option.drop 2)

section

variable {Ty Job : Type} (register : Register Ty Job)

/-! ### Following a path -/

/-- `Type::argument`. -/
def argumentOf (types : Types Ty Job) (type : TypeRef Ty) (key : Str) : Option (Argument Ty Job) :=
  (types.declarations type).find? fun a => a.name = key

/-- `Type::create`. -/
def createOf : TypeRef Ty → Value Ty Job
  | .array _ => .array {} (.base register.types.any) []
  | .base t =>
      if (register.valueType t).isSome then .scalar {} .unset
      else .map {} (.base register.types.any) none none []

/-- What `getSubValue` returns, with the value it started from afterwards; and the way to what it returns, if
    that is a part of this value. -/
structure SubValue (Ty Job : Type) where
  root : Value Ty Job
  way : Option (List Selector)
  value : Value Ty Job
  type : TypeRef Ty

/-- A result below a child. -/
def SubValue.above (key : Str) (v : Value Ty Job) (below : SubValue Ty Job) : SubValue Ty Job :=
  { below with
    root := v.modifyChild (fun _ => below.root) (.key key)
    way := below.way.map (.key key :: ·) }

/-- A result below a fresh value, a copy of which has been stored. -/
def SubValue.apart (root : Value Ty Job) (below : SubValue Ty Job) : SubValue Ty Job :=
  { below with root := root, way := none }

/-- One round of `getSubValue`: the value under a component, or a fresh one. -/
def subValue (fullkey key : Str) : Value Ty Job → Except Error (SubValue Ty Job)
  | .map flags type task job children =>
      match argumentOf register.types type key with
      | none => .error (.argumentError (str "Cannot find " ++ fullkey))
      | some a =>
          match lookup key children with
          | some child => .ok ⟨.map flags type task job children, some [.key key], child, a.type⟩
          | none =>
              match (Value.map flags type task job children).set register.types key (createOf register a.type) with
              | (_, some e) => .error e
              | (root, none) => .ok ⟨root, none, createOf register a.type, a.type⟩
  | _ => .error (.argumentError (str "value is not a map"))

/-- The rounds of `getSubValue` over the components. -/
def subValues (fullkey : Str) : Str → List Str → Value Ty Job → Except Error (SubValue Ty Job)
  | key, [], v => subValue register fullkey key v
  | key, next :: rest, v =>
      match subValue register fullkey key v with
      | .error e => .error e
      | .ok sub =>
          match subValues fullkey next rest sub.value with
          | .error e => .error e
          | .ok below => .ok (if sub.way.isSome then below.above key v else below.apart sub.root)

/-- `getSubValue`. -/
def getSubValue (separator : UInt8) (fullkey : Str) (v : Value Ty Job) : Except Error (SubValue Ty Job) :=
  match splitKey separator true fullkey with
  | [] => .error (.argumentError (str "Cannot find " ++ fullkey))
  | key :: rest => subValues register fullkey key rest v

/-! ### The loop -/

/-- The loop ends with an exception, or the assertion fails. -/
inductive ParameterFailure where
  | thrown (e : Error)
  | assertion
deriving DecidableEq

/-- `MapValue::type`. -/
def retype (t : TypeRef Ty) : Value Ty Job → Value Ty Job
  | .map flags _ task job children => .map flags t task job children
  | v => v

/-- `isScalar`. -/
def Value.isScalar : Value Ty Job → Bool
  | .scalar _ _ => true
  | _ => false

/-- The configuration after a change of what `getSubValue` has returned. -/
def SubValue.change (sub : SubValue Ty Job) (f : Value Ty Job → Value Ty Job) : Value Ty Job :=
  match sub.way with
  | some way => sub.root.modifyAt f way
  | none => sub.root

variable [DecidableEq Ty] (atof : Str → UInt64) (table : Table Ty)

/-- One round of the loop: a scalar is read from the text, a map is given the type of this name. -/
def setParameter (root : Value Ty Job) (option text : Str) : Except ParameterFailure (Value Ty Job) :=
  if option.take 2 = str "--" then
    match getSubValue register 45 (option.drop 2) root with
    | .error e => .error (.thrown e)
    | .ok sub =>
        if sub.value.isScalar = (register.simple sub.type).isSome then
          if sub.value.isScalar then
            match Scalar.fromString atof register.types text sub.type with
            | .error e => .error (.thrown e)
            | .ok s => .ok (sub.change (assign s))
          else
            match getType table text with
            | none => .error (.thrown (.argumentError (str "Type " ++ text ++ str " does not exist")))
            | some t =>
                if sub.value.isMap then .ok (sub.change (retype t))
                else .error (.thrown (.argumentError (str "Cannot cast to Map")))
        else .error .assertion
  else .error (.thrown (.argumentError (str "Option '" ++ option ++ str "' does not begin by --")))

/-- The loop over the pairs. -/
def parseParameters : List (Str × Str) → Value Ty Job → Except ParameterFailure (Value Ty Job)
  | [], root => .ok root
  | (option, text) :: rest, root =>
      match setParameter register atof table root option text with
      | .error e => .error e
      | .ok root' => parseParameters rest root'

end

/-! ### What is found under a path -/

section

variable {Ty Job : Type}

/-- The scalar of a value, if it is one. -/
def Value.toScalar : Value Ty Job → Option Scalar
  | .scalar _ s => some s
  | _ => none

/-- Nothing, a value that is no scalar, or a scalar at the end of a way. -/
def look (v : Value Ty Job) (way : List Selector) : Option (Option Scalar) := (v.descend way).map toScalar

theorem look_nil (v : Value Ty Job) : look v [] = some v.toScalar := rfl

theorem look_cons (v : Value Ty Job) (s : Selector) (rest : List Selector) :
    look v (s :: rest) = (v.child s).bind fun c => look c rest := by
  unfold look
  rw [Value.descend, Option.map_bind]
  rfl

theorem look_eq_none {v : Value Ty Job} {way : List Selector} : look v way = none ↔ v.descend way = none := by
  rw [look, Option.map_eq_none_iff]

theorem look_scalar {v : Value Ty Job} {way : List Selector} {s : Scalar} :
    look v way = some (some s) ↔ ∃ flags, v.descend way = some (.scalar flags s) := by
  unfold look
  constructor
  · intro found
    obtain ⟨target, reached, isScalar⟩ := Option.map_eq_some_iff.mp found
    cases target with
    | scalar flags s' =>
        cases isScalar
        exact ⟨flags, reached⟩
    | array flags ctype elements => cases isScalar
    | map flags type task job children => cases isScalar
  · rintro ⟨flags, reached⟩
    rw [reached]
    rfl

theorem toScalar_modifyChild (f : Value Ty Job → Value Ty Job) (s : Selector) (v : Value Ty Job) :
    (v.modifyChild f s).toScalar = v.toScalar := by
  cases v <;> cases s <;> rfl

/-- A change at the end of a way that sets one entry sets one entry of the whole. -/
theorem look_modifyAt {f : Value Ty Job → Value Ty Job} {way entry : List Selector} {v target : Value Ty Job}
    {x : Option (Option Scalar)} (reached : v.descend way = some target)
    (here : ∀ q, look (f target) q = if q = entry then x else look target q) :
    ∀ q, look (v.modifyAt f way) q = if q = way ++ entry then x else look v q := by
  induction way generalizing v with
  | nil =>
      cases reached
      exact here
  | cons s rest ih =>
      obtain ⟨c, found, below⟩ := Option.bind_eq_some_iff.mp reached
      intro q
      cases q with
      | nil =>
          rw [List.cons_append, if_neg (List.cons_ne_nil _ _).symm, look_nil, look_nil, Value.modifyAt,
            toScalar_modifyChild]
      | cons s' q =>
          rw [look_cons, look_cons, Value.modifyAt, child_modifyChild, List.cons_append]
          by_cases same : s' = s
          · subst same
            rw [if_pos rfl, found, Option.map_some, Option.bind_some, Option.bind_some, ih below q]
            simp only [List.cons.injEq, true_and]
          · rw [if_neg same, if_neg fun equal => same (List.cons.inj equal).1]

/-- A change at the end of a way that does not show. -/
theorem look_modifyAt_same {f : Value Ty Job → Value Ty Job} {way : List Selector} {v target : Value Ty Job}
    (reached : v.descend way = some target) (here : look (f target) = look target) :
    look (v.modifyAt f way) = look v := by
  have entry (q : List Selector) :
      look (f target) q = if q = [] then some target.toScalar else look target q := by
    rw [here]
    split
    · rename_i empty
      rw [empty]
      rfl
    · rfl
  funext q
  rw [look_modifyAt reached entry, List.append_nil]
  split
  · rename_i there
    rw [there, look, reached]
    rfl
  · rfl

theorem look_retype (t : TypeRef Ty) (v : Value Ty Job) : look (retype t v) = look v := by
  funext q
  cases q with
  | nil => cases v <;> rfl
  | cons s rest =>
      rw [look_cons, look_cons]
      cases v <;> cases s <;> rfl

theorem look_assign {v : Value Ty Job} {s : Scalar} (isScalar : v.isScalar = true) (q : List Selector) :
    look (assign s v) q = if q = [] then some (some s) else look v q := by
  cases v with
  | scalar flags old =>
      cases q with
      | nil => rfl
      | cons selector rest =>
          rw [if_neg (List.cons_ne_nil _ _), look_cons, look_cons]
          cases selector <;> rfl
  | array flags ctype elements => cases isScalar
  | map flags type task job children => cases isScalar

/-- A fresh value has no children. -/
theorem look_createOf (register : Register Ty Job) (type : TypeRef Ty) (f : Flags → Flags) (s : Selector)
    (rest : List Selector) : look ((createOf register type).withFlags f) (s :: rest) = none := by
  rw [look_cons, child_withFlags]
  unfold createOf
  cases type with
  | array component => cases s <;> rfl
  | base t =>
      dsimp only
      split <;> cases s <;> rfl

theorem toScalar_withFlags (f : Flags → Flags) (v : Value Ty Job) : (v.withFlags f).toScalar = v.toScalar := by
  cases v <;> rfl

/-- A copy of a fresh value under a missing key. -/
theorem look_set {register : Register Ty Job} {flags : Flags} {type ctype : TypeRef Ty} {task : Option Str}
    {job : Option Job} {children : List (Str × Value Ty Job)} {key : Str} {root : Value Ty Job}
    (missing : lookup key children = none)
    (stored : (Value.map flags type task job children).set register.types key (createOf register ctype) =
      (root, none)) (q : List Selector) :
    look root q = if q = [.key key] then some (createOf register ctype).toScalar
      else look (.map flags type task job children) q := by
  obtain ⟨raised, marks, rfl⟩ := set_ok register.types stored
  obtain ⟨f, copy⟩ := exists_marked register.types type key (createOf register ctype)
  have copied : raised = (createOf register ctype).withFlags f := by
    rw [← copy, marked, marks]
  cases q with
  | nil => rfl
  | cons s rest =>
      rw [look_cons, look_cons]
      cases s with
      | index i => simp [Value.child]
      | key name =>
          rw [Value.child, Value.child, lookup_insert]
          by_cases here : key = name
          · subst here
            rw [if_pos rfl, Option.bind_some, copied, missing, Option.bind_none]
            cases rest with
            | nil => rw [if_pos rfl, look_nil, toScalar_withFlags]
            | cons s rest => rw [look_createOf, if_neg (by simp)]
          · rw [if_neg here, if_neg (by simp [Ne.symm here])]

/-! ### What a path finds or makes -/

section

variable {register : Register Ty Job}

/-- The keys of a path, as a way. -/
def wayOf (path : List Str) : List Selector := path.map Selector.key

theorem wayOf_append (path rest : List Str) : wayOf (path ++ rest) = wayOf path ++ wayOf rest := List.map_append

theorem wayOf_inj {path path' : List Str} : wayOf path = wayOf path' ↔ path = path' := by
  have injective : Function.Injective Selector.key := fun _ _ same => Selector.key.inj same
  exact (List.map_injective_iff.mpr injective).eq_iff

theorem subValue_cases {fullkey key : Str} {v : Value Ty Job} {sub : SubValue Ty Job}
    (ok : subValue register fullkey key v = .ok sub) :
    (∃ child, v.child (.key key) = some child ∧
        sub.way = some [.key key] ∧ sub.root = v ∧ sub.value = child) ∨
      (v.child (.key key) = none ∧ sub.way = none ∧ sub.value = createOf register sub.type ∧
        ∀ q, look sub.root q =
          if q = [.key key] then some (createOf register sub.type).toScalar else look v q) := by
  cases v with
  | scalar flags s => cases ok
  | array flags ctype elements => cases ok
  | map flags type task job children =>
      unfold subValue at ok
      dsimp only at ok
      split at ok
      · cases ok
      · split at ok
        case h_1 child found =>
            cases ok
            exact Or.inl ⟨child, found, rfl, rfl, rfl⟩
        case h_2 missing =>
            split at ok
            · cases ok
            case h_2 root stored =>
                cases ok
                exact Or.inr ⟨missing, rfl, rfl, look_set missing stored⟩

variable (register) in
/-- What `getSubValue` returns: the value at the end of the path, where the path exists; else a value apart
    from the tree, which has got a copy of a fresh value at the first component that was missing. -/
inductive Walked (v : Value Ty Job) (path : List Str) (sub : SubValue Ty Job) : Prop where
  | found (way : sub.way = some (wayOf path)) (same : look sub.root = look v)
      (reached : sub.root.descend (wayOf path) = some sub.value)
  | made (above below : List Str) (key : Str) (ctype : TypeRef Ty) (split : path = above ++ key :: below)
      (there : look v (wayOf above) ≠ none) (missing : look v (wayOf (above ++ [key])) = none)
      (way : sub.way = none)
      (root : ∀ q, look sub.root q =
        if q = wayOf (above ++ [key]) then some (createOf register ctype).toScalar else look v q)
      (last : below = [] → sub.value = createOf register ctype)
      (goesOn : below ≠ [] → ∃ fullkey next sub',
        subValue register fullkey next (createOf register ctype) = .ok sub') : Walked v path sub

theorem Walked.above {v child : Value Ty Job} {key : Str} {path : List Str} {below : SubValue Ty Job}
    (found : v.child (.key key) = some child) (walked : Walked register child path below) :
    Walked register v (key :: path) (below.above key v) := by
  have reached : v.descend [.key key] = some child := by
    rw [Value.descend, found]
    rfl
  have down (rest : List Selector) : look v (.key key :: rest) = look child rest := by
    rw [look_cons, found]
    rfl
  cases walked with
  | found way same below' =>
      refine .found ?_ (look_modifyAt_same (f := fun _ => below.root) reached same) ?_
      · rw [SubValue.above, way]
        rfl
      · rw [SubValue.above, wayOf, List.map_cons, Value.descend, child_modifyChild, if_pos rfl, found]
        exact below'
  | made above rest key' ctype split there missing way root last goesOn =>
      refine .made (key :: above) rest key' ctype (by rw [split]; rfl) ?_ ?_ ?_ ?_ last goesOn
      · rw [wayOf, List.map_cons, down]
        exact there
      · rw [List.cons_append, wayOf, List.map_cons, down]
        exact missing
      · rw [SubValue.above, way]
        rfl
      · exact look_modifyAt (f := fun _ => below.root) reached root

theorem subValues_walked {fullkey : Str} (rest : List Str) :
    ∀ (key : Str) (v : Value Ty Job) (sub : SubValue Ty Job), subValues register fullkey key rest v = .ok sub →
      Walked register v (key :: rest) sub := by
  have start {key : Str} {v : Value Ty Job} (missing : v.child (.key key) = none) :
      look v (wayOf ([] ++ [key])) = none := by
    rw [List.nil_append, wayOf, List.map_cons, look_cons, missing]
    rfl
  induction rest with
  | nil =>
      intro key v sub ok
      rw [subValues] at ok
      rcases subValue_cases ok with ⟨child, found, way, root, value⟩ | ⟨missing, way, value, root⟩
      · refine .found way (by rw [root]) ?_
        rw [root, value, wayOf, List.map_cons, Value.descend, found]
        rfl
      · exact .made [] [] key sub.type rfl (Option.some_ne_none _) (start missing) way root (fun _ => value)
          fun more => absurd rfl more
  | cons next rest ih =>
      intro key v sub ok
      rw [subValues] at ok
      split at ok
      · cases ok
      case h_2 first stepped =>
          split at ok
          · cases ok
          case h_2 below walks =>
              have walked := ih next first.value below walks
              rcases subValue_cases stepped with
                ⟨child, found, way, _, value⟩ | ⟨missing, way, value, root⟩
              · rw [way, Option.isSome_some, if_pos rfl] at ok
                cases ok
                rw [value] at walked
                exact walked.above found
              · rw [way, Option.isSome_none, if_neg Bool.false_ne_true] at ok
                cases ok
                refine .made [] (next :: rest) key first.type rfl (Option.some_ne_none _) (start missing) rfl root
                  (fun ends => absurd ends (List.cons_ne_nil next rest)) fun _ => ?_
                rw [← value]
                cases rest with
                | nil => exact ⟨fullkey, next, below, walks⟩
                | cons more rest =>
                    rw [subValues] at walks
                    split at walks
                    · cases walks
                    case h_2 second stepped' => exact ⟨fullkey, next, second, stepped'⟩

end

theorem getSubValue_walked {fullkey : Str} {root : Value Ty Job} {sub : SubValue Ty Job}
    (ok : getSubValue register 45 fullkey root = .ok sub) :
    Walked register root (splitKey 45 true fullkey) sub := by
  unfold getSubValue at ok
  split at ok
  · cases ok
  case h_2 key rest components =>
      rw [components]
      exact subValues_walked rest key root sub ok

theorem toScalar_createOf (ctype : TypeRef Ty) (s : Scalar)
    (isScalar : (createOf register ctype).toScalar = some s) : s = .unset := by
  unfold createOf at isScalar
  cases ctype with
  | array component => cases isScalar
  | base t =>
      dsimp only at isScalar
      split at isScalar
      · cases isScalar
        rfl
      · cases isScalar

theorem subValue_createOf {fullkey next : Str} {ctype : TypeRef Ty} {sub : SubValue Ty Job}
    (plain : register.types.declarations (.base register.types.any) = [])
    (ok : subValue register fullkey next (createOf register ctype) = .ok sub) : False := by
  unfold createOf at ok
  cases ctype with
  | array component => cases ok
  | base t =>
      dsimp only at ok
      split at ok
      · cases ok
      · unfold subValue argumentOf at ok
        dsimp only at ok
        rw [plain] at ok
        cases ok

/-! ### What exists -/

/-- The shortest part of a path, from some components on, that is not among these. -/
def missingPart (present : List (List Str)) : List Str → List Str → Option (List Str)
  | _, [] => none
  | above, key :: below =>
      if above ++ [key] ∈ present then missingPart present (above ++ [key]) below else some (above ++ [key])

/-- What exists after one more path has been followed: the shortest part of it that was missing is made. -/
def create1 (present : List (List Str)) (path : List Str) : List (List Str) :=
  present ++ (missingPart present [] path).toList

/-- What exists after the paths of some pairs have been followed. -/
def created (paths : List (List Str)) : List (List Str) := paths.foldl create1 []

/-- These are the paths under which something is found. -/
def Tracks (root : Value Ty Job) (present : List (List Str)) : Prop :=
  ∀ path, path ≠ [] → (look root (wayOf path) ≠ none ↔ path ∈ present)

theorem look_part {root : Value Ty Job} {path rest : List Str}
    (there : look root (wayOf (path ++ rest)) ≠ none) :
    look root (wayOf path) ≠ none := by
  intro missing
  apply there
  rw [look_eq_none] at missing ⊢
  rw [wayOf_append, descend_append, missing]
  rfl

theorem missingPart_none {root : Value Ty Job} {present : List (List Str)} (tracks : Tracks root present)
    (below : List Str) :
    ∀ above, look root (wayOf (above ++ below)) ≠ none → missingPart present above below = none := by
  induction below with
  | nil => exact fun _ _ => rfl
  | cons key below ih =>
      intro above there
      have split : above ++ key :: below = (above ++ [key]) ++ below := by simp
      rw [split] at there
      rw [missingPart, if_pos ((tracks _ (by simp)).mp (look_part there))]
      exact ih _ there

theorem missingPart_some {root : Value Ty Job} {present : List (List Str)} (tracks : Tracks root present)
    {key : Str} {below : List Str} (middle : List Str) :
    ∀ above, look root (wayOf (above ++ middle)) ≠ none →
      look root (wayOf (above ++ middle ++ [key])) = none →
      missingPart present above (middle ++ key :: below) = some (above ++ middle ++ [key]) := by
  induction middle with
  | nil =>
      intro above _ missing
      rw [List.append_nil] at missing ⊢
      have absent : above ++ [key] ∉ present := fun member => (tracks _ (by simp)).mpr member missing
      rw [List.nil_append, missingPart, if_neg absent]
  | cons first middle ih =>
      intro above there missing
      have split (rest : List Str) : above ++ first :: rest = (above ++ [first]) ++ rest := by simp
      rw [split] at there missing ⊢
      rw [List.cons_append, missingPart, if_pos ((tracks _ (by simp)).mp (look_part there))]
      exact ih _ there missing

end

/-! ### One round -/

section

variable {Ty Job : Type} [DecidableEq Ty] {register : Register Ty Job} {atof : Str → UInt64} {table : Table Ty}

variable (register atof) in
/-- What a round of the loop does to what is found under paths. -/
inductive Round (root : Value Ty Job) (path : List Str) (text : Str) (type : TypeRef Ty) (root' : Value Ty Job) :
    Prop where
  | assigned (s : Scalar) (there : look root (wayOf path) ≠ none)
      (read : Scalar.fromString atof register.types text type = .ok s)
      (after : ∀ q, look root' q = if q = wayOf path then some (some s) else look root q) :
      Round root path text type root'
  | retyped (there : look root (wayOf path) ≠ none) (complex : register.simple type = none)
      (after : look root' = look root) : Round root path text type root'
  | made (above below : List Str) (key : Str) (ctype : TypeRef Ty) (split : path = above ++ key :: below)
      (there : look root (wayOf above) ≠ none) (missing : look root (wayOf (above ++ [key])) = none)
      (after : ∀ q, look root' q =
        if q = wayOf (above ++ [key]) then some (createOf register ctype).toScalar else look root q)
      (goesOn : below ≠ [] → ∃ fullkey next sub',
        subValue register fullkey next (createOf register ctype) = .ok sub') : Round root path text type root'

theorem setParameter_round {root root' : Value Ty Job} {option text : Str}
    (ok : setParameter register atof table root option text = .ok root') :
    ∃ sub, getSubValue register 45 (option.drop 2) root = .ok sub ∧
      Round register atof root (pathOf option) text sub.type root' := by
  unfold setParameter at ok
  split at ok
  case isFalse => cases ok
  case isTrue =>
      split at ok
      · cases ok
      case h_2 sub walks =>
          refine ⟨sub, walks, ?_⟩
          have walked : Walked register root (pathOf option) sub := getSubValue_walked walks
          split at ok
          case isFalse => cases ok
          case isTrue same =>
              -- Apart from the tree, nothing that the round does later shows.
              have unchanged (f : Value Ty Job → Value Ty Job) (apart : sub.way = none) :
                  sub.change f = sub.root := by
                rw [SubValue.change, apart]
              have changed (f : Value Ty Job → Value Ty Job) (way : List Selector) (inside : sub.way = some way) :
                  sub.change f = sub.root.modifyAt f way := by
                rw [SubValue.change, inside]
              have there (reached : sub.root.descend (wayOf (pathOf option)) = some sub.value)
                  (shows : look sub.root = look root) : look root (wayOf (pathOf option)) ≠ none := by
                rw [← shows, look, reached]
                exact Option.some_ne_none _
              split at ok
              case isTrue isScalar =>
                  split at ok
                  · cases ok
                  case h_2 s read =>
                      cases ok
                      cases walked with
                      | found way shows reached =>
                          refine .assigned s (there reached shows) read fun q => ?_
                          rw [changed _ _ way, look_modifyAt reached (look_assign isScalar), List.append_nil,
                            shows]
                      | made above below key ctype split there missing way after _ goesOn =>
                          rw [unchanged _ way]
                          exact .made above below key ctype split there missing after goesOn
              case isFalse notScalar =>
                  split at ok
                  · cases ok
                  · split at ok
                    case isFalse => cases ok
                    case isTrue =>
                        cases ok
                        cases walked with
                        | found way shows reached =>
                            refine .retyped (there reached shows) ?_ ?_
                            · rw [Bool.eq_false_iff.mpr notScalar] at same
                              exact Option.isNone_iff_eq_none.mp (Option.isSome_eq_false_iff.mp same.symm)
                            · rw [changed _ _ way, look_modifyAt_same reached (look_retype _ _), shows]
                        | made above below key ctype split there missing way after _ goesOn =>
                            rw [unchanged _ way]
                            exact .made above below key ctype split there missing after goesOn

/-- No text is read as the unset scalar. -/
theorem fromString_ne_unset {text : Str} {type : TypeRef Ty} :
    Scalar.fromString atof register.types text type ≠ .ok .unset := by
  unfold Scalar.fromString
  split
  · exact nofun
  · split
    · exact nofun
    · split
      · split <;> exact nofun
      · split
        · split <;> exact nofun
        · split
          · split <;> exact nofun
          · exact nofun

/-- A round makes what its path misses. -/
theorem Round.tracks {root root' : Value Ty Job} {path : List Str} {text : Str} {type : TypeRef Ty}
    {present : List (List Str)} (round : Round register atof root path text type root')
    (tracks : Tracks root present) : Tracks root' (create1 present path) := by
  intro other nonempty
  cases round with
  | assigned s there read after =>
      rw [create1, missingPart_none tracks path [] there, Option.toList_none, List.append_nil, after]
      split
      · rename_i here
        rw [wayOf_inj.mp here] at nonempty ⊢
        exact iff_of_true nofun ((tracks path nonempty).mp there)
      · exact tracks other nonempty
  | retyped there complex after =>
      rw [create1, missingPart_none tracks path [] there, Option.toList_none, List.append_nil, after]
      exact tracks other nonempty
  | made above below key ctype split there missing after goesOn =>
      have made : missingPart present [] (above ++ key :: below) = some ([] ++ above ++ [key]) :=
        missingPart_some tracks above [] there missing
      rw [create1, split, made, Option.toList_some, List.mem_append, List.mem_singleton, after]
      by_cases here : other = above ++ [key]
      · rw [if_pos (wayOf_inj.mpr here)]
        exact iff_of_true nofun (Or.inr here)
      · rw [if_neg fun same => here (wayOf_inj.mp same), tracks other nonempty]
        exact ⟨Or.inl, fun either => either.resolve_right here⟩

/-- A scalar under another path is not touched. -/
theorem Round.kept {root root' : Value Ty Job} {path other : List Str} {text : Str} {type : TypeRef Ty}
    {s : Scalar} (round : Round register atof root path text type root') (apart : path ≠ other)
    (found : look root (wayOf other) = some (some s)) : look root' (wayOf other) = some (some s) := by
  cases round with
  | assigned s' there read after =>
      rw [after, if_neg fun same => apart (wayOf_inj.mp same).symm]
      exact found
  | retyped there complex after =>
      rw [after]
      exact found
  | made above below key ctype split there missing after goesOn =>
      rw [after]
      split
      · rename_i here
        rw [here, missing] at found
        cases found
      · exact found

/-- A scalar that appears under another path is unset. -/
theorem Round.unset {root root' : Value Ty Job} {path other : List Str} {text : Str} {type : TypeRef Ty}
    (round : Round register atof root path text type root') (apart : path ≠ other)
    (before : ∀ s, look root (wayOf other) = some (some s) → s = .unset) (s : Scalar)
    (found : look root' (wayOf other) = some (some s)) : s = .unset := by
  cases round with
  | assigned s' there read after =>
      rw [after, if_neg fun same => apart (wayOf_inj.mp same).symm] at found
      exact before s found
  | retyped there complex after =>
      rw [after] at found
      exact before s found
  | made above below key ctype split there missing after goesOn =>
      rw [after] at found
      split at found
      · exact toScalar_createOf ctype s (Option.some.inj found)
      · exact before s found

/-! ### The whole loop -/

variable (register atof table) in
/-- The rounds of the loop, one after the other. -/
inductive Rounds : Value Ty Job → List (Str × Str) → Value Ty Job → Prop where
  | nil (root : Value Ty Job) : Rounds root [] root
  | cons {root between root' : Value Ty Job} {option text : Str} {rest : List (Str × Str)} (sub : SubValue Ty Job)
      (walks : getSubValue register 45 (option.drop 2) root = .ok sub)
      (round : Round register atof root (pathOf option) text sub.type between)
      (rounds : Rounds between rest root') : Rounds root ((option, text) :: rest) root'

theorem parseParameters_rounds (pairs : List (Str × Str)) :
    ∀ root root', parseParameters register atof table pairs root = .ok root' →
      Rounds register atof root pairs root' := by
  induction pairs with
  | nil =>
      intro root root' ok
      cases ok
      exact .nil root
  | cons pair rest ih =>
      intro root root' ok
      rw [parseParameters] at ok
      split at ok
      · cases ok
      case h_2 between stepped =>
          obtain ⟨sub, walks, round⟩ := setParameter_round stepped
          exact .cons sub walks round (ih between root' ok)

theorem Rounds.tracks {root root' : Value Ty Job} {pairs : List (Str × Str)} {present : List (List Str)}
    (rounds : Rounds register atof root pairs root') (tracks : Tracks root present) :
    Tracks root' ((pairs.map fun pair => pathOf pair.1).foldl create1 present) := by
  induction rounds generalizing present with
  | nil root => exact tracks
  | cons sub walks round _ ih => exact ih (round.tracks tracks)

theorem Rounds.kept {root root' : Value Ty Job} {pairs : List (Str × Str)} {path : List Str} {s : Scalar}
    (rounds : Rounds register atof root pairs root') (apart : ∀ pair ∈ pairs, pathOf pair.1 ≠ path)
    (found : look root (wayOf path) = some (some s)) : look root' (wayOf path) = some (some s) := by
  induction rounds with
  | nil root => exact found
  | cons sub walks round _ ih =>
      exact ih (fun pair member => apart pair (List.mem_cons_of_mem _ member))
        (round.kept (apart _ List.mem_cons_self) found)

theorem Rounds.unset {root root' : Value Ty Job} {pairs : List (Str × Str)} {path : List Str}
    (rounds : Rounds register atof root pairs root') (apart : ∀ pair ∈ pairs, pathOf pair.1 ≠ path)
    (before : ∀ s, look root (wayOf path) = some (some s) → s = .unset) :
    ∀ s, look root' (wayOf path) = some (some s) → s = .unset := by
  induction rounds with
  | nil root => exact before
  | cons sub walks round _ ih =>
      exact ih (fun pair member => apart pair (List.mem_cons_of_mem _ member))
        (round.unset (apart _ List.mem_cons_self) before)

/-- The loop over some pairs and then others. -/
theorem parseParameters_append {before after : List (Str × Str)} :
    ∀ {root final : Value Ty Job}, parseParameters register atof table (before ++ after) root = .ok final →
      ∃ between, parseParameters register atof table before root = .ok between ∧
        parseParameters register atof table after between = .ok final := by
  induction before with
  | nil => exact fun {root final} ok => ⟨root, rfl, ok⟩
  | cons pair before ih =>
      intro root final ok
      rw [List.cons_append, parseParameters] at ok
      rw [parseParameters]
      split at ok
      · cases ok
      case h_2 next stepped => exact ih ok

/-- Where the type any declares nothing, a path cannot go on below what has just been made. -/
theorem Round.create_iff {root root' : Value Ty Job} {path : List Str} {text : Str} {type : TypeRef Ty}
    {present : List (List Str)} (round : Round register atof root path text type root')
    (tracks : Tracks root present) (nonempty : path ≠ [])
    (plain : register.types.declarations (.base register.types.any) = []) (other : List Str) :
    other ∈ create1 present path ↔ other ∈ present ∨ path = other := by
  have exists_before (there : look root (wayOf path) ≠ none) :
      other ∈ create1 present path ↔ other ∈ present ∨ path = other := by
    rw [create1, missingPart_none tracks path [] there, Option.toList_none, List.append_nil]
    refine ⟨Or.inl, fun either => either.elim id fun same => ?_⟩
    exact same ▸ (tracks path nonempty).mp there
  cases round with
  | assigned s there read after => exact exists_before there
  | retyped there complex after => exact exists_before there
  | made above below key ctype split there missing after goesOn =>
      have made : missingPart present [] (above ++ key :: below) = some ([] ++ above ++ [key]) :=
        missingPart_some tracks above [] there missing
      have ends : below = [] := by
        by_contra more
        obtain ⟨fullkey, next, sub', ok⟩ := goesOn more
        exact subValue_createOf plain ok
      rw [create1, split, made, Option.toList_some, List.mem_append, List.mem_singleton, ends]
      exact or_congr Iff.rfl eq_comm

theorem Rounds.created_iff {root root' : Value Ty Job} {pairs : List (Str × Str)} {present : List (List Str)}
    (rounds : Rounds register atof root pairs root') (tracks : Tracks root present)
    (plain : register.types.declarations (.base register.types.any) = []) (path : List Str) :
    path ∈ (pairs.map fun pair => pathOf pair.1).foldl create1 present ↔
      path ∈ present ∨ ∃ pair ∈ pairs, pathOf pair.1 = path := by
  induction rounds generalizing present with
  | nil root => simp
  | @cons root between root' option text rest sub walks round _ ih =>
      rw [List.map_cons, List.foldl_cons, ih (round.tracks tracks),
        round.create_iff tracks (splitKey_ne_nil 45 true _) plain]
      simp [or_assoc]

variable (register atof table) in
/-- The loop has accepted the pairs, starting from an empty map of a type, and this pair is the last one with
    its path. Where the declared type that `getSubValue` has found for it is scalar, the path ends in the
    scalar that the text is read as, if and only if one of the pairs before has made the value at the path.
    Where the type any declares nothing, that is a pair with the same path. -/
theorem parameters_reach (type : TypeRef Ty) (before after : List (Str × Str)) (option text : Str)
    (final : Value Ty Job)
    (accepted : parseParameters register atof table (before ++ (option, text) :: after)
      (.map {} type none none []) = .ok final)
    (last : ∀ pair ∈ after, pathOf pair.1 ≠ pathOf option) :
    ∃ root sub,
      parseParameters register atof table before (.map {} type none none []) = .ok root ∧
      getSubValue register 45 (option.drop 2) root = .ok sub ∧
      ((register.simple sub.type).isSome = true →
        ((∃ flags s, final.descend (wayOf (pathOf option)) = some (.scalar flags s) ∧
            Scalar.fromString atof register.types text sub.type = .ok s) ↔
          pathOf option ∈ created (before.map fun pair => pathOf pair.1))) ∧
      (register.types.declarations (.base register.types.any) = [] →
        (pathOf option ∈ created (before.map fun pair => pathOf pair.1) ↔
          ∃ pair ∈ before, pathOf pair.1 = pathOf option)) := by
  obtain ⟨root, first, others⟩ := parseParameters_append accepted
  have empty : Tracks (.map {} type none none [] : Value Ty Job) [] := by
    intro path nonempty
    cases path with
    | nil => exact absurd rfl nonempty
    | cons key rest => exact iff_of_false (fun there => there rfl) (List.not_mem_nil)
  have rounds := parseParameters_rounds before _ _ first
  have tracks := rounds.tracks empty
  cases parseParameters_rounds _ _ _ others with
  | @cons _ between _ _ _ _ sub walks round rest =>
      refine ⟨root, sub, first, walks, fun simple => ?_, fun plain => ?_⟩
      · rw [created, ← tracks (pathOf option) (splitKey_ne_nil 45 true _)]
        constructor
        · rintro ⟨flags, s, found, read⟩ missing
          have unset : s = .unset := by
            apply rest.unset last _ s (look_scalar.mpr ⟨flags, found⟩)
            intro s' found'
            cases round with
            | assigned s'' there _ _ => exact absurd missing there
            | retyped there _ _ => exact absurd missing there
            | made above below key ctype _ _ _ made _ =>
                rw [made] at found'
                split at found'
                · exact toScalar_createOf ctype s' (Option.some.inj found')
                · rw [missing] at found'
                  cases found'
          exact fromString_ne_unset (unset ▸ read)
        · intro there
          cases round with
          | assigned s _ read assigned =>
              have found : look between (wayOf (pathOf option)) = some (some s) := by rw [assigned, if_pos rfl]
              obtain ⟨flags, found⟩ := look_scalar.mp (rest.kept last found)
              exact ⟨flags, s, found, read⟩
          | retyped _ complex _ =>
              rw [complex] at simple
              cases simple
          | made above below key ctype split _ missing _ _ =>
              have part : pathOf option = (above ++ [key]) ++ below := by rw [split]; simp
              rw [part] at there
              exact absurd missing (look_part there)
      · rw [created, rounds.created_iff empty plain]
        simp

end

/-! ### One parameter -/

/-- `--y 5`, once: the configuration has an unset scalar under `y`. -/
theorem parameter_lost :
    ∃ final, parseParameters sampleRegister (fun _ => 0) sampleTable [(str "--y", str "5")]
        (.map {} (.base .B) none none []) = .ok final ∧
      ¬ ∃ flags s, final.descend (wayOf (pathOf (str "--y"))) = some (.scalar flags s) ∧
        Scalar.fromString (fun _ => 0) sampleTypes (str "5") (.base .integer) = .ok s := by
  refine ⟨_, rfl, ?_⟩
  rintro ⟨flags, s, found, read⟩
  cases found
  cases read

/-- `--y 5 --y 7`. -/
theorem parameters_reach_twice :
    ∃ final flags s,
      parseParameters sampleRegister (fun _ => 0) sampleTable [(str "--y", str "5"), (str "--y", str "7")]
        (.map {} (.base .B) none none []) = .ok final ∧
      final.descend (wayOf (pathOf (str "--y"))) = some (.scalar flags s) ∧
      Scalar.fromString (fun _ => 0) sampleTypes (str "7") (.base .integer) = .ok s := by
  have accepted : parseParameters sampleRegister (fun _ => 0) sampleTable
      ([(str "--y", str "5")] ++ (str "--y", str "7") :: []) (.map {} (.base .B) none none []) =
        .ok (.map {} (.base .B) none none [(str "y", .scalar {} (.integer (atol (str "7"))))]) := rfl
  obtain ⟨root, sub, first, walks, reaches, plain⟩ :=
    parameters_reach sampleRegister (fun _ => 0) sampleTable _ _ _ _ _ _ accepted nofun
  cases first
  cases walks
  obtain ⟨flags, s, found, read⟩ := (reaches rfl).mpr ((plain rfl).mpr ⟨_, List.mem_cons_self, rfl⟩)
  exact ⟨_, flags, s, accepted, found, read⟩

end Experimaestro.Configuration

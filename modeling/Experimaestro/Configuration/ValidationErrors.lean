/-
Module: Experimaestro.Configuration.ValidationErrors
Layer: Configuration
Purpose: The path that `parameter_error` has gathered when `validate` has thrown. Each level of the value that
  the exception goes through adds one component, so that read backwards they lead from the value down to what
  is wrong: a required argument that is not given, or a value of a type that is not accepted.
Imports: Experimaestro.Configuration.Flags, Experimaestro.Configuration.Places,
  Experimaestro.Configuration.Exposure
Trusted boundary: human-reviewed model of Value::validate in Generation and of parameter_error
Main exports: Lacking, Rejected, Culprit, parameterWhat, validation_error_culprit
Open obligations: none
-/
import Mathlib.Tactic.Common
import Experimaestro.Configuration.Exposure
import Experimaestro.Configuration.Flags
import Experimaestro.Configuration.Places

namespace Experimaestro.Configuration

open Value

/-! ### The text of a path -/

/-- What `addPath` records for one step down. -/
def Selector.text : Selector → Str
  | .key name => name
  | .index position => str ("[" ++ toString position ++ "]")

/-- The loop of `parameter_error::what` over the components, the last one first. -/
def appendPath : Bool → List Str → Str
  | _, [] => []
  | true, component :: rest => component ++ appendPath false rest
  | false, component :: rest => str "." ++ component ++ appendPath false rest

/-- `parameter_error::what`. -/
def parameterWhat (message : Str) (path : List Str) : Str :=
  str "Error with parameter " ++ appendPath true path.reverse ++ str ": " ++ message

theorem appendPath_false (component : Str) (rest : List Str) :
    component ++ appendPath false rest = (str ".").intercalate (component :: rest) := by
  induction rest generalizing component with
  | nil => simp [appendPath, List.intercalate]
  | cons next rest ih =>
      rw [appendPath, List.append_assoc, ih next]
      simp [List.intercalate, List.intersperse]

theorem appendPath_eq_intercalate (path : List Str) : appendPath true path = (str ".").intercalate path := by
  cases path with
  | nil => rfl
  | cons component rest => exact appendPath_false component rest

section

variable {Ty Job : Type} (types : Types Ty Job)

/-! ### The culprit -/

/-- A map without a value, or with null, for a required argument of its hierarchy. -/
inductive Lacking : Value Ty Job → Prop where
  | intro {flags : Flags} {type : TypeRef Ty} {task : Option Str} {job : Option Job}
      {children : List (Str × Value Ty Job)} (a : Argument Ty Job) (declared : a ∈ types.declarations type)
      (required : a.required = true)
      (absent : lookup a.name children = none ∨
        ∃ child, lookup a.name children = some child ∧ child.isNull = true) :
      Lacking (.map flags type task job children)

/-- A child of a map, other than null, has a type that the declared type of an argument does not accept. -/
inductive Rejected : Value Ty Job → Str → Prop where
  | intro {flags : Flags} {type : TypeRef Ty} {task : Option Str} {job : Option Job}
      {children : List (Str × Value Ty Job)} (a : Argument Ty Job) (child : Value Ty Job)
      (declared : a ∈ types.declarations type) (given : lookup a.name children = some child)
      (notNull : child.isNull = false)
      (rejected : types.accepts a.type (child.type types) = false) :
      Rejected (.map flags type task job children) a.name

/-- What a way leads to from a value is wrong. -/
inductive Culprit (v : Value Ty Job) : List Selector → Prop where
  | lacking {way : List Selector} {map : Value Ty Job} (there : v.descend way = some map)
      (lacking : Lacking types map) : Culprit v way
  | rejected {way : List Selector} {map : Value Ty Job} {key : Str} (there : v.descend way = some map)
      (rejected : Rejected types map key) : Culprit v (way ++ [.key key])

variable {types}

/-- A culprit below a child. -/
theorem Culprit.below {v c : Value Ty Job} {selector : Selector} {way : List Selector}
    (child : v.child selector = some c) (culprit : Culprit types c way) : Culprit types v (selector :: way) := by
  have down (rest : List Selector) : v.descend (selector :: rest) = c.descend rest := by
    rw [descend, child, Option.bind_some]
  cases culprit with
  | lacking there lacking => exact .lacking ((down _).trans there) lacking
  | rejected there rejected => exact .rejected ((down _).trans there) rejected

variable (types) in
/-- The exception is a `parameter_error` whose components lead backwards to what is wrong. -/
def Blames (v : Value Ty Job) (e : Error) : Prop :=
  ∃ message path way, e = .parameterError message path ∧ path.reverse = way.map Selector.text ∧
    Culprit types v way

/-- A level adds its component when the exception goes through it. -/
theorem Blames.addPath {v c : Value Ty Job} {e : Error} {selector : Selector}
    (child : v.child selector = some c) (blames : Blames types c e) :
    Blames types v (e.addPath selector.text) := by
  obtain ⟨message, path, way, rfl, components, culprit⟩ := blames
  refine ⟨message, path ++ [selector.text], selector :: way, rfl, ?_, culprit.below child⟩
  rw [List.reverse_append, components]
  rfl

/-! ### The loops -/

theorem validateArgument_blames {flags : Flags} {type : TypeRef Ty} {task : Option Str} {job : Option Job}
    {children : List (Str × Value Ty Job)} {a : Argument Ty Job} {e : Error}
    (declared : a ∈ types.declarations type)
    (below : ∀ child e, lookup a.name children = some child → (validate types child).2 = some e →
      Blames types child e)
    (failed : validateArgument types type a
      ((lookup a.name children).map fun child => (child, validate types child)) = some e) :
    Blames types (.map flags type task job children) e := by
  cases given : lookup a.name children with
  | none =>
      rw [given, Option.map_none, validateArgument] at failed
      split at failed
      · rename_i required
        cases failed
        exact ⟨_, [], [], rfl, rfl, .lacking rfl (.intro a declared required (Or.inl given))⟩
      · cases failed
  | some child =>
      rw [given, Option.map_some, validateArgument] at failed
      split at failed
      · rename_i null
        split at failed
        · rename_i required
          cases failed
          exact ⟨_, [], [], rfl, rfl, .lacking rfl (.intro a declared required (Or.inr ⟨child, given, null⟩))⟩
        · cases failed
      · rename_i notNull
        split at failed
        · rename_i refused
          cases failed
          have rejected : types.accepts a.type (child.type types) = false := by simpa using refused
          exact ⟨_, [a.name], [] ++ [.key a.name], rfl, rfl,
            .rejected rfl (.intro a child declared given (Bool.eq_false_iff.mpr notNull) rejected)⟩
        · obtain ⟨e', thrown, rfl⟩ := Option.map_eq_some_iff.mp failed
          have step : (Value.map flags type task job children).child (.key a.name) = some child := given
          have outcome := (below child e' given thrown).addPath step
          exact outcome

theorem validateArguments_blames {flags : Flags} {type : TypeRef Ty} {task : Option Str} {job : Option Job}
    {original : List (Str × Value Ty Job)} {e : Error}
    (below : ∀ key child e, lookup key original = some child → (validate types child).2 = some e →
      Blames types child e)
    (arguments : List (Argument Ty Job)) :
    ∀ children, (∀ a ∈ arguments, a ∈ types.declarations type) →
      (validateArguments types type (validationTable types original) arguments children).2 = some e →
        Blames types (.map flags type task job original) e := by
  induction arguments with
  | nil => exact fun _ _ failed => nomatch failed
  | cons a rest ih =>
      intro children declared failed
      rw [validateArguments] at failed
      split at failed
      case h_1 e' thrown =>
          cases failed
          rw [lookup_validationTable] at thrown
          exact validateArgument_blames (declared a List.mem_cons_self) (below a.name) thrown
      case h_2 => exact ih _ (fun b member => declared b (List.mem_cons_of_mem a member)) failed

theorem finishValidation_error {v : Value Ty Job} {r : Validated Ty Job} {e : Error}
    (failed : (finishValidation v r).2 = some e) : r.2 = some e := by
  obtain ⟨after, thrown⟩ := r
  unfold finishValidation at failed
  split at failed
  · cases failed
  · cases thrown with
    | none => cases failed
    | some e' => exact failed

mutual

theorem validate_blames : ∀ (v : Value Ty Job) (e : Error), (validate types v).2 = some e → Blames types v e
  | .scalar flags s, e, failed => by
      rw [validate] at failed
      exact nomatch finishValidation_error failed
  | .array flags ctype elements, e, failed => by
      rw [validate] at failed
      obtain ⟨i, element, e', given, blames, rfl⟩ :=
        validateElements_blames elements 0 e (finishValidation_error failed)
      have step : (Value.array flags ctype elements).child (.index i) = some element := given
      have outcome := blames.addPath step
      rw [Nat.zero_add]
      exact outcome
  | .map flags type task job children, e, failed => by
      rw [validate] at failed
      exact validateArguments_blames (validateChildren_blames children) (types.declarations type) children
        (fun _ declared => declared) (finishValidation_error failed)

theorem validateElements_blames :
    ∀ (elements : List (Value Ty Job)) (index : ℕ) (e : Error),
      (validateElements types index elements).2 = some e →
        ∃ i element e', elements[i]? = some element ∧ Blames types element e' ∧
          e = e'.addPath (Selector.index (index + i)).text
  | [], _, _, failed => nomatch failed
  | element :: rest, index, e, failed => by
      rw [validateElements] at failed
      split at failed
      case h_1 v' e' thrown =>
          cases failed
          exact ⟨0, element, e', rfl, validate_blames element e' (congrArg Prod.snd thrown), rfl⟩
      case h_2 =>
          obtain ⟨i, element', e', given, blames, rfl⟩ := validateElements_blames rest (index + 1) e failed
          exact ⟨i + 1, element', e', given, blames, by rw [Nat.add_right_comm, Nat.add_assoc]⟩

theorem validateChildren_blames :
    ∀ (children : List (Str × Value Ty Job)) (key : Str) (child : Value Ty Job) (e : Error),
      lookup key children = some child → (validate types child).2 = some e → Blames types child e
  | [], _, _, _, given, _ => nomatch given
  | (k, v) :: rest, key, child, e, given, thrown => by
      rw [lookup] at given
      split at given
      · cases given
        exact validate_blames v e thrown
      · exact validateChildren_blames rest key child e given thrown

end

/-- An exception of `validate` is a `parameter_error`; its components, the last added first, are the keys and
    the indices of a way from the value to a map without a required argument, or to a value of a type that
    the declared one does not accept, and `what` prints them in this order. -/
theorem validation_error_culprit (v : Value Ty Job) (e : Error) (thrown : (validate types v).2 = some e) :
    ∃ message path way, e = .parameterError message path ∧ path.reverse = way.map Selector.text ∧
      Culprit types v way ∧
      parameterWhat message path =
        str "Error with parameter " ++ (str ".").intercalate (way.map Selector.text) ++ str ": " ++ message := by
  obtain ⟨message, path, way, rfl, components, culprit⟩ := validate_blames v e thrown
  refine ⟨message, path, way, rfl, components, culprit, ?_⟩
  rw [parameterWhat, appendPath_eq_intercalate, components]

end

/-! ### A map in an array -/

/-- The type `A` requires `n`, its subtype `B` declares nothing. -/
def nestedTypes : Types Sample Unit :=
  { sampleTypes with
    arguments := fun
      | .A => [{ name := str "n", type := .base .integer }]
      | _ => []
    nodup := fun t => by cases t <;> first | decide | exact List.nodup_nil }

/-- The second of two maps in an array lacks `n`. -/
theorem validation_error_culprit_nested :
    (validate nestedTypes (.array {} (.base .A)
      [.map {} (.base .B) none none [(str "n", .scalar {} (.integer 1))], .map {} (.base .B) none none []])).2 =
        some (.parameterError (str "Argument n was required but not given for type(B)") [str "[1]"]) ∧
      ∃ way, [str "[1]"] = way.map Selector.text ∧
        Culprit nestedTypes (.array {} (.base .A)
          [.map {} (.base .B) none none [(str "n", .scalar {} (.integer 1))], .map {} (.base .B) none none []])
          way := by
  refine ⟨rfl, ?_⟩
  obtain ⟨message, path, way, same, components, culprit, _⟩ := @validation_error_culprit _ _ nestedTypes
    (.array {} (.base .A)
      [.map {} (.base .B) none none [(str "n", .scalar {} (.integer 1))], .map {} (.base .B) none none []]) _ rfl
  cases same
  exact ⟨way, components, culprit⟩

end Experimaestro.Configuration

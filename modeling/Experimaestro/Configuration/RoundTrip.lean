/-
Module: Experimaestro.Configuration.RoundTrip
Layer: Configuration
Purpose: What `Value::create` makes of the JSON that `toJson` writes for a value that it has read before.
  `Produced` says what such a value looks like. It is read back as it was exactly when it is `Readable`: no
  scalar is unset, no real number is integral, and no map has a placeholder type with the name of an array
  type whose elements are of a type that is known by now.
Imports: Experimaestro.Configuration.Printing, Experimaestro.Configuration.Exposure (the sample),
  Experimaestro.Configuration.Places
Trusted boundary: none (fully proved)
Main exports: Registered, Produced, create_built, Readable, read_back, readable_of_read_back,
  json_round_trip
Open obligations: none
-/
import Mathlib.Tactic.Common
import Experimaestro.Configuration.Printing
import Experimaestro.Configuration.Exposure
import Experimaestro.Configuration.Places

namespace Experimaestro.Configuration

open Value

variable {Ty Job : Type} (register : Register Ty Job)

/-! ### The register -/

/-- What a `Register` keeps: types and tasks are stored under their own names, and the types of the source
    are there from the beginning. -/
structure Registered (table : Table Ty) : Prop where
  keyed : ∀ name t, lookup name table = some t → register.types.name t = name
  any : lookup (str "any") table = some register.types.any
  path : lookup (str "path") table = some register.types.path
  task : ∀ name identifier, register.task name = some identifier → register.task identifier = some identifier

/-- A later table has all the types of an earlier one. -/
def Preserves (table later : Table Ty) : Prop :=
  ∀ name t, componentName name = none → lookup name table = some t → lookup name later = some t

theorem Preserves.refl (table : Table Ty) : Preserves table table := fun _ _ _ => id

theorem Preserves.trans {first second third : Table Ty} (one : Preserves first second) (two : Preserves second third) :
    Preserves first third :=
  fun name t simple found => two name t simple (one name t simple found)

/-- A type that a map has got from its name: the one in the table, or a placeholder with the name of an
    array type. -/
def Known (table : Table Ty) (t : Ty) : Prop :=
  (componentName (register.types.name t) = none ∧ lookup (register.types.name t) table = some t) ∨
    (componentName (register.types.name t) ≠ none ∧ t = register.placeholder (register.types.name t))

theorem Known.grows {table later : Table Ty} {t : Ty} (known : Known register table t)
    (grows : Preserves table later) : Known register later t :=
  known.imp_left fun plain => ⟨plain.1, grows _ _ plain.1 plain.2⟩

theorem getTypeIn_base {table : Table Ty} {t : Ty} :
    ∀ {n : ℕ} {name : Str}, name.length ≤ n → getTypeIn table n name = some (.base t) →
      componentName name = none ∧ lookup name table = some t
  | 0, name, short, found => by
      have empty : name = [] := List.eq_nil_of_length_eq_zero (Nat.le_zero.mp short)
      subst empty
      rw [getTypeIn, Option.map_eq_some_iff] at found
      obtain ⟨_, found, same⟩ := found
      cases same
      exact ⟨rfl, found⟩
  | n + 1, name, _, found => by
      rw [getTypeIn] at found
      cases component : componentName name with
      | some _ =>
          simp only [component, Option.map_eq_some_iff] at found
          obtain ⟨_, _, same⟩ := found
          cases same
      | none =>
          simp only [component, Option.map_eq_some_iff] at found
          obtain ⟨_, found, same⟩ := found
          cases same
          exact ⟨rfl, found⟩

/-- Resolving a name keeps the register in order. -/
theorem resolve_registered {table : Table Ty} (registered : Registered register table) (name : Str) :
    Registered register (resolve register table name).2 ∧ Preserves table (resolve register table name).2 ∧
      ∀ t, (resolve register table name).1 = .base t → Known register (resolve register table name).2 t := by
  unfold resolve
  cases found : getType table name with
  | some type =>
      refine ⟨registered, Preserves.refl table, fun t base => ?_⟩
      simp only at base
      subst base
      obtain ⟨simple, there⟩ := getTypeIn_base (Nat.le_refl _) found
      have named := registered.keyed name t there
      exact Or.inl ⟨named.symm ▸ simple, named.symm ▸ there⟩
  | none =>
      have missing (plain : componentName name = none) : lookup name table = none := by
        rw [getType, getTypeIn_of_simple plain, Option.map_eq_none_iff] at found
        exact found
      have kept {key : Str} {t : Ty} (simple : componentName key = none) (there : lookup key table = some t) :
          lookup key ((name, register.placeholder name) :: table) = some t := by
        rw [lookup, if_neg ?_]
        · exact there
        · rintro rfl
          rw [missing simple] at there
          cases there
      refine ⟨⟨?_, ?_, ?_, registered.task⟩, fun key t => kept, fun t base => ?_⟩
      · intro key t there
        rw [lookup] at there
        split at there
        · next same =>
          cases there
          exact (register.name_placeholder name).trans same
        · exact registered.keyed key t there
      · exact kept (by decide) registered.any
      · exact kept (by decide) registered.path
      · cases base
        rw [Known, register.name_placeholder]
        by_cases simple : componentName name = none
        · exact Or.inl ⟨simple, by rw [lookup, if_pos rfl]⟩
        · exact Or.inr ⟨simple, rfl⟩

theorem objectType_registered {table : Table Ty} (registered : Registered register table)
    (members : List (Str × Json)) :
    Registered register (objectType register members table).2 ∧
      Preserves table (objectType register members table).2 ∧
      ∀ t, (objectType register members table).1 = .ok (.base t) →
        Known register (objectType register members table).2 t := by
  unfold objectType
  split
  · refine ⟨registered, Preserves.refl _, fun t base => ?_⟩
    cases base
    have named := register.name_any
    exact Or.inl ⟨by rw [named]; decide, by rw [named]; exact registered.any⟩
  · obtain ⟨kept, grows, known⟩ := resolve_registered register registered _
    exact ⟨kept, grows, fun t base => known t (Except.ok.inj base)⟩
  · exact ⟨registered, Preserves.refl _, nofun⟩

/-! ### Values that were read -/

/-- A value without its own flags. -/
def Value.unflagged (v : Value Ty Job) : Value Ty Job := v.withFlags fun _ => {}

/-- A value as `create` leaves it: the children of a map are in order, marked as `set` marks them, and its
    type and its task come from the register. -/
inductive Produced (table : Table Ty) : Value Ty Job → Prop
  | scalar {flags : Flags} {s : Scalar} : Produced table (.scalar flags s)
  | array {flags : Flags} {ctype : TypeRef Ty} {elements : List (Value Ty Job)}
      (fresh : ∀ e ∈ elements, e.flags = {}) (each : ∀ e ∈ elements, Produced table e) :
      Produced table (.array flags ctype elements)
  | map {flags : Flags} {t : Ty} {task : Option Str} {job : Option Job}
      {children : List (Str × Value Ty Job)} (known : Known register table t)
      (structured : register.valueType t = none)
      (tasked : ∀ identifier, task = some identifier → register.task identifier = some identifier)
      (ordered : Ordered children) (free : ∀ entry ∈ children, entry.1 ∉ restrictedKeys)
      (marked : ∀ entry ∈ children,
        markFor (ownArgument register.types (.base t) entry.1) entry.2.unflagged = .ok entry.2)
      (each : ∀ entry ∈ children, Produced table entry.2) :
      Produced table (.map flags (.base t) task job children)

variable {register}

theorem Produced.grows {table later : Table Ty} {v : Value Ty Job} (produced : Produced register table v)
    (grows : Preserves table later) : Produced register later v := by
  induction produced with
  | scalar => exact .scalar
  | array fresh _ ih => exact .array fresh ih
  | map known structured tasked ordered free marked _ ih =>
      exact .map (known.grows register grows) structured tasked ordered free marked ih

theorem Produced.withFlags {table : Table Ty} {v : Value Ty Job} (produced : Produced register table v)
    (f : Flags → Flags) : Produced register table (v.withFlags f) := by
  cases produced with
  | scalar => exact .scalar
  | array fresh each => exact .array fresh each
  | map known structured tasked ordered free marked each =>
      exact .map known structured tasked ordered free marked each

theorem unflagged_of_fresh {v : Value Ty Job} (fresh : v.flags = {}) : v.unflagged = v := by
  cases v <;> cases fresh <;> rfl

theorem unflagged_withFlags (f : Flags → Flags) (v : Value Ty Job) : (v.withFlags f).unflagged = v.unflagged := by
  cases v <;> rfl

variable (register)

/-- What holds while the members of an object are read. -/
structure Reading (type : TypeRef Ty) (table : Table Ty) (p : Value Ty Job) : Prop where
  fresh : p.flags = {}
  typed : p.isMap → p.type register.types = type
  produced : Produced register table p

variable {register}

/-- `set` changes flags only. -/
theorem markFor_withFlags {a : Option (Argument Ty Job)} {v m : Value Ty Job}
    (marks : markFor a v = .ok m) : ∃ f, m = v.withFlags f := by
  cases a with
  | none =>
      cases marks
      exact ⟨id, by cases v <;> rfl⟩
  | some argument =>
      obtain ⟨isDefault, _, rfl⟩ := except_map_eq_ok.mp marks
      exact ⟨_, rfl⟩

theorem keyword_scalar {type : TypeRef Ty} {key : Str} {j : Json} {flags : Flags} {s : Scalar}
    {q : Value Ty Job} (read : keyword register type key j (.scalar flags s) = .ok q) :
    ∃ s', q = .scalar flags s' := by
  unfold keyword at read
  split at read
  · obtain ⟨s', _, rfl⟩ := except_map_eq_ok.mp read
    exact ⟨s', rfl⟩
  · split at read
    · cases read
    · split at read
      · cases read
      · cases read
        exact ⟨s, rfl⟩

theorem keyword_array {type : TypeRef Ty} {key : Str} {j : Json} {flags : Flags} {ctype : TypeRef Ty}
    {elements : List (Value Ty Job)} {q : Value Ty Job}
    (read : keyword register type key j (.array flags ctype elements) = .ok q) :
    q = .array flags ctype elements := by
  unfold keyword at read
  split at read
  · cases read
  · split at read
    · cases read
    · split at read
      · cases read
      · cases read
        rfl

/-- A keyword of a map gives it its type again, and a job or a task of the register. -/
theorem keyword_links {type : TypeRef Ty} {key : Str} {j : Json} {flags : Flags} {task : Option Str}
    {job : Option Job} {children : List (Str × Value Ty Job)} {q : Value Ty Job}
    (read : keyword register type key j (.map flags type task job children) = .ok q) :
    ∃ task' job', q = .map flags type task' job' children ∧
      (task' = task ∨ ∃ name, task' = register.task name) := by
  unfold keyword at read
  split at read
  · cases read
  · split at read
    · obtain ⟨job', _, rfl⟩ := except_map_eq_ok.mp read
      exact ⟨task, some job', rfl, Or.inl rfl⟩
    · split at read
      · cases j with
        | string name =>
            cases read
            exact ⟨register.task name, job, rfl, Or.inr ⟨name, rfl⟩⟩
        | _ => cases read
      · cases read
        exact ⟨task, job, rfl, Or.inl rfl⟩

theorem Reading.keyword {type : TypeRef Ty} {table : Table Ty} {key : Str} {j : Json} {p q : Value Ty Job}
    (registered : Registered register table) (reading : Reading register type table p)
    (read : keyword register type key j p = .ok q) : Reading register type table q := by
  obtain ⟨fresh, typed, produced⟩ := reading
  cases produced with
  | scalar =>
      obtain ⟨s', rfl⟩ := keyword_scalar read
      exact ⟨fresh, nofun, .scalar⟩
  | array fresh' each =>
      obtain rfl := keyword_array read
      exact ⟨fresh, nofun, .array fresh' each⟩
  | map known structured tasked ordered free marked each =>
      obtain rfl := typed rfl
      obtain ⟨task', job', rfl, tasks⟩ := keyword_links read
      refine ⟨fresh, fun _ => rfl, .map known structured ?_ ordered free marked each⟩
      rcases tasks with rfl | ⟨name, rfl⟩
      · exact tasked
      · exact registered.task name

/-- A value that was read is stored in a map that is being read. -/
theorem Reading.set {type : TypeRef Ty} {table : Table Ty} {key : Str} {p q v : Value Ty Job}
    (reading : Reading register type table p) (fresh : v.flags = {}) (produced : Produced register table v)
    (stored : p.set register.types key v = (q, none)) : Reading register type table q := by
  obtain ⟨p_fresh, typed, p_produced⟩ := reading
  cases p_produced with
  | scalar => cases stored
  | array => cases stored
  | @map flags t task job children known structured tasked ordered free marked each =>
      obtain rfl := typed rfl
      unfold Value.set at stored
      dsimp only at stored
      split at stored
      · cases stored
      · split at stored
        · cases stored
        · next unrestricted =>
          split at stored
          · next m marks =>
            cases stored
            obtain ⟨f, raised⟩ := markFor_withFlags marks
            have remark : markFor (ownArgument register.types (.base t) key) m.unflagged = .ok m := by
              rw [raised, unflagged_withFlags, unflagged_of_fresh fresh, marks, raised]
            refine ⟨p_fresh, fun _ => rfl, .map known structured tasked (ordered_insert m ordered) ?_ ?_ ?_⟩
            · intro entry member
              rcases mem_insert member with rfl | there
              · exact unrestricted
              · exact free entry there
            · intro entry member
              rcases mem_insert member with rfl | there
              · exact remark
              · exact marked entry there
            · intro entry member
              rcases mem_insert member with rfl | there
              · exact raised ▸ produced.withFlags f
              · exact each entry there
          · cases stored

theorem Reading.initial {table : Table Ty} (type : TypeRef Ty) (hasValue : Bool)
    (known : ∀ t, type = .base t → Known register table t) :
    Reading register type table (initialValue register type hasValue) := by
  unfold initialValue
  split
  · exact ⟨rfl, fun isMap => absurd isMap Bool.false_ne_true, .scalar⟩
  · next plain =>
    cases type with
    | array component =>
        exact ⟨rfl, fun isMap => absurd isMap Bool.false_ne_true, .array (List.forall_mem_nil _) (List.forall_mem_nil _)⟩
    | base t =>
        have structured : register.valueType t = none := by
          simp only [Register.simple, Bool.or_eq_true, not_or, Option.not_isSome_iff_eq_none] at plain
          exact plain.1
        refine ⟨rfl, fun _ => rfl, .map (known t rfl) structured (fun _ given => ?_) List.Pairwise.nil
          (List.forall_mem_nil _) (List.forall_mem_nil _) (List.forall_mem_nil _)⟩
        cases given

theorem Reading.grows {type : TypeRef Ty} {table later : Table Ty} {p : Value Ty Job}
    (reading : Reading register type table p) (grows : Preserves table later) :
    Reading register type later p :=
  ⟨reading.fresh, reading.typed, reading.produced.grows grows⟩

variable (register)

/-- The table after reading, and what is read. -/
structure Built (table : Table Ty) (result : Except Error (Value Ty Job) × Table Ty) : Prop where
  registered : Registered register result.2
  grows : Preserves table result.2
  produced : ∀ v, result.1 = .ok v → v.flags = {} ∧ Produced register result.2 v

theorem Built.scalar {table : Table Ty} (registered : Registered register table) (s : Scalar) :
    Built register table ((.ok (.scalar {} s), table) : Except Error (Value Ty Job) × Table Ty) where
  registered := registered
  grows := Preserves.refl table
  produced := by
    rintro _ ⟨⟩
    exact ⟨rfl, .scalar⟩

theorem Built.error {table later : Table Ty} (registered : Registered register later)
    (grows : Preserves table later) (e : Error) :
    Built register table ((.error e, later) : Except Error (Value Ty Job) × Table Ty) where
  registered := registered
  grows := grows
  produced := nofun

mutual

/-- Reading keeps the register in order and gives values of the kind described. -/
theorem create_built : ∀ (j : Json) {table : Table Ty}, Registered register table →
    Built register table (create register j table)
  | .object members, table, registered => by
      rw [create]
      have typed := objectType_registered register registered members
      cases outcome : objectType register members table with
      | mk result later =>
          rw [outcome] at typed
          obtain ⟨kept, grows, known⟩ := typed
          cases result with
          | error e => exact .error register kept grows e
          | ok type =>
              have starts := Reading.initial type (lookup (str "$value") members).isSome
                fun t base => known t (congrArg Except.ok base)
              have built := createMembers_built type members kept starts
              exact ⟨built.registered, grows.trans built.grows, built.produced⟩
  | .array elements, table, registered => by
      rw [create]
      obtain ⟨kept, grows, produced⟩ :=
        createElements_built elements (.base register.types.any, []) registered nofun
      cases outcome : createElements register elements table (.base register.types.any, []) with
      | mk result later =>
          rw [outcome] at kept grows produced
          cases result with
          | error e => exact .error register kept grows e
          | ok built =>
              refine ⟨kept, grows, ?_⟩
              rintro _ ⟨⟩
              have each := produced built rfl
              exact ⟨rfl, .array (fun e member => (each e member).1) fun e member => (each e member).2⟩
  | .null, table, registered => by
      rw [create]
      exact .scalar register registered _
  | .boolean b, table, registered => by
      rw [create]
      exact .scalar register registered _
  | .integer n, table, registered => by
      rw [create]
      exact .scalar register registered _
  | .float bits, table, registered => by
      rw [create]
      cases scalarOf register.conversions (.float bits) with
      | error e => exact .error register registered (Preserves.refl table) e
      | ok s => exact .scalar register registered s
  | .string text, table, registered => by
      rw [create]
      exact .scalar register registered _

theorem createMembers_built (type : TypeRef Ty) : ∀ (members : List (Str × Json)) {table : Table Ty}
    {p : Value Ty Job}, Registered register table → Reading register type table p →
      Built register table (createMembers register type members table p)
  | [], table, p, registered, reading => by
      rw [createMembers]
      refine ⟨registered, Preserves.refl table, ?_⟩
      rintro _ ⟨⟩
      exact ⟨reading.fresh, reading.produced⟩
  | (key, j) :: rest, table, p, registered, reading => by
      rw [createMembers]
      split
      · cases read : keyword register type key j p with
        | error e => exact .error register registered (Preserves.refl table) e
        | ok q => exact createMembers_built type rest registered (reading.keyword registered read)
      · split
        · exact .error register registered (Preserves.refl table) _
        · have built := create_built j registered
          cases outcome : create register j table with
          | mk result later =>
              rw [outcome] at built
              cases result with
              | error e => exact .error register built.registered built.grows e
              | ok v =>
                  obtain ⟨fresh, produced⟩ := built.produced v rfl
                  dsimp only
                  cases stored : p.set register.types key v with
                  | mk q failure =>
                      cases failure with
                      | some e => exact .error register built.registered built.grows e
                      | none =>
                          have others := createMembers_built type rest built.registered
                            ((reading.grows built.grows).set fresh produced stored)
                          exact ⟨others.registered, built.grows.trans others.grows, others.produced⟩

theorem createElements_built : ∀ (elements : List Json) {table : Table Ty}
    (start : TypeRef Ty × List (Value Ty Job)), Registered register table →
      (∀ e ∈ start.2, e.flags = {} ∧ Produced register table e) →
        Registered register (createElements register elements table start).2 ∧
          Preserves table (createElements register elements table start).2 ∧
          ∀ result, (createElements register elements table start).1 = .ok result →
            ∀ e ∈ result.2, e.flags = {} ∧ Produced register (createElements register elements table start).2 e
  | [], table, start, registered, each => by
      rw [createElements]
      refine ⟨registered, Preserves.refl table, ?_⟩
      rintro _ ⟨⟩
      exact each
  | j :: rest, table, start, registered, each => by
      rw [createElements]
      have built := create_built j registered
      cases outcome : create register j table with
      | mk result later =>
          rw [outcome] at built
          cases result with
          | error e => exact ⟨built.registered, built.grows, nofun⟩
          | ok v =>
              have pushed : ∀ e ∈ (pushBack register start v).2, e.flags = {} ∧ Produced register later e := by
                intro e member
                rcases List.mem_append.mp member with old | new
                · exact ⟨(each e old).1, (each e old).2.grows built.grows⟩
                · exact List.mem_singleton.mp new ▸ built.produced v rfl
              obtain ⟨kept, grows, produced⟩ := createElements_built rest _ built.registered pushed
              exact ⟨kept, built.grows.trans grows, produced⟩

end

/-! ### The members of a written object -/

/-- The members for the children. -/
def childMembers {α : Type} (members : List (Str × α)) : List (Str × α) :=
  members.filter fun member => member.1 ∉ restrictedKeys

/-- Other members than those for the children are `$type`, and `$task` with a text. -/
def Annotated (members : List (Str × Json)) : Prop :=
  ∀ member ∈ members, member.1 ∈ restrictedKeys →
    member.1 = str "$type" ∨ member.1 = str "$task" ∧ ∃ name, member.2 = .string name

/-- The task that the members give to a map. -/
def taskAfter : List (Str × Json) → Option Str → Option Str
  | [], task => task
  | (key, .string name) :: rest, task =>
      taskAfter rest (if key = str "$task" then register.task name else task)
  | (_, _) :: rest, task => taskAfter rest task

theorem taskAfter_skip {key : Str} {j : Json} {rest : List (Str × Json)} (other : key ≠ str "$task")
    (task : Option Str) : taskAfter register ((key, j) :: rest) task = taskAfter register rest task := by
  cases j with
  | string name => rw [taskAfter, if_neg other]
  | _ => rfl

/-- The loop over the members for the children, on the children of the map under construction. -/
def readMembers (type : TypeRef Ty) : List (Str × Json) → Table Ty → List (Str × Value Ty Job) →
    Except Error (List (Str × Value Ty Job)) × Table Ty
  | [], table, children => (.ok children, table)
  | (key, j) :: rest, table, children =>
      match create register j table with
      | (.error e, table) => (.error e, table)
      | (.ok v, table) =>
          match markFor (ownArgument register.types type key) v with
          | .error e => (.error e, table)
          | .ok m => readMembers type rest table (insert key m children)

/-- Reading the members of a written object into a map. -/
theorem createMembers_eq (type : TypeRef Ty) (job : Option Job) {members : List (Str × Json)}
    (annotated : Annotated members) (table : Table Ty) (task : Option Str)
    (children : List (Str × Value Ty Job)) :
    createMembers register type members table (.map {} type task job children) =
      match readMembers register type (childMembers members) table children with
      | (.error e, later) => (.error e, later)
      | (.ok children, later) => (.ok (.map {} type (taskAfter register members task) job children), later) := by
  induction members generalizing table task children with
  | nil => rfl
  | cons member rest ih =>
      obtain ⟨key, j⟩ := member
      have others : Annotated rest := fun member there => annotated member (List.mem_cons_of_mem _ there)
      by_cases restricted : key ∈ restrictedKeys
      · have dropped : childMembers ((key, j) :: rest) = childMembers rest := by
          simp [childMembers, restricted]
        rw [createMembers, if_pos restricted, dropped]
        rcases annotated (key, j) List.mem_cons_self restricted with rfl | ⟨rfl, name, rfl⟩
        · rw [keyword_type, taskAfter_skip register (by decide)]
          exact ih others table task children
        · have given : keyword register type (str "$task") (.string name) (.map {} type task job children) =
              .ok (.map {} type (register.task name) job children) := by
            unfold keyword
            rw [if_neg (by decide), if_neg (by decide), if_pos rfl]
          rw [given, taskAfter, if_pos rfl]
          exact ih others table (register.task name) children
      · have kept : childMembers ((key, j) :: rest) = (key, j) :: childMembers rest := by
          simp [childMembers, restricted]
        have other : key ≠ str "$task" := fun same => restricted (same ▸ by decide)
        rw [createMembers, if_neg restricted, kept, readMembers, taskAfter_skip register other]
        cases create register j table with
        | mk result later =>
            cases result with
            | error e => rfl
            | ok v =>
                simp only [Value.set, restricted]
                cases marks : markFor (ownArgument register.types type key) v with
                | error e => simp [Value.isMap]
                | ok m => simpa [Value.isMap] using ih others later task (insert key m children)

variable {register}

/-- What `toJson` adds to the members for the children. -/
theorem childMembers_insert {key : Str} {j : Json} {members : List (Str × Json)}
    (restricted : key ∈ restrictedKeys) (fresh : ∀ member ∈ members, member.1 ≠ key) :
    childMembers (insert key j members) = childMembers members := by
  induction members with
  | nil => simp [insert, childMembers, restricted]
  | cons member rest ih =>
      obtain ⟨k, v⟩ := member
      have other : k ≠ key := fresh (k, v) List.mem_cons_self
      rw [insert, if_neg other]
      split
      · simp [childMembers, restricted]
      · have later := ih fun member there => fresh member (List.mem_cons_of_mem _ there)
        simp only [childMembers, List.filter_cons] at later ⊢
        rw [later]

theorem taskAfter_free {members : List (Str × Json)} (free : ∀ member ∈ members, member.1 ≠ str "$task")
    (task : Option Str) : taskAfter register members task = task := by
  induction members with
  | nil => rfl
  | cons member rest ih =>
      obtain ⟨key, j⟩ := member
      rw [taskAfter_skip register (free (key, j) List.mem_cons_self)]
      exact ih fun member there => free member (List.mem_cons_of_mem _ there)

theorem taskAfter_insert {name : Str} {members : List (Str × Json)}
    (free : ∀ member ∈ members, member.1 ≠ str "$task") (task : Option Str) :
    taskAfter register (insert (str "$task") (.string name) members) task = register.task name := by
  induction members with
  | nil => rw [insert, taskAfter, if_pos rfl, taskAfter]
  | cons member rest ih =>
      obtain ⟨key, j⟩ := member
      have other := free (key, j) List.mem_cons_self
      rw [insert, if_neg other]
      split
      · rw [taskAfter, if_pos rfl]
        exact taskAfter_free free _
      · rw [taskAfter_skip register other]
        exact ih fun member there => free member (List.mem_cons_of_mem _ there)

variable (register)

/-- The members of a written object, for members for the children. -/
structure Written (type : TypeRef Ty) (task : Option Str) (members object : List (Str × Json)) : Prop where
  children : childMembers object = members
  annotated : Annotated object
  task_eq : taskAfter register object none = task.bind register.task
  type_eq : lookup (str "$type") object = some (.string (register.types.nameOf type))
  no_value : lookup (str "$value") object = none

theorem lookup_free_eq_none {key : Str} {members : List (Str × Json)} (restricted : key ∈ restrictedKeys)
    (free : ∀ member ∈ members, member.1 ∉ restrictedKeys) : lookup key members = none := by
  apply lookup_eq_none_of_not_mem
  intro listed
  obtain ⟨member, there, same⟩ := List.mem_map.mp listed
  exact free member there (same ▸ restricted)

theorem written_objectMembers (type : TypeRef Ty) (task : Option Str) {members : List (Str × Json)}
    (free : ∀ member ∈ members, member.1 ∉ restrictedKeys) :
    Written register type task members (objectMembers register.types type task members) := by
  have fresh {key : Str} (restricted : key ∈ restrictedKeys) : ∀ member ∈ members, member.1 ≠ key :=
    fun member there same => free member there (same ▸ restricted)
  have typed_fresh : ∀ member ∈ insert (str "$type") (.string (register.types.nameOf type)) members,
      member.1 ≠ str "$task" := by
    intro member there
    rcases mem_insert there with rfl | child
    · change str "$type" ≠ str "$task"
      decide
    · exact fresh (by decide) member child
  have kept : childMembers members = members := by
    simpa [childMembers] using free
  have typed_kept : childMembers (insert (str "$type") (.string (register.types.nameOf type)) members) =
      members := by
    rw [childMembers_insert (by decide) (fresh (by decide)), kept]
  have typed_annotated : ∀ member ∈ insert (str "$type") (.string (register.types.nameOf type)) members,
      member.1 ∈ restrictedKeys → member.1 = str "$type" := by
    intro member there restricted
    rcases mem_insert there with rfl | child
    · rfl
    · exact absurd restricted (free member child)
  cases task with
  | none =>
      refine ⟨typed_kept, fun member there restricted => ?_, ?_, ?_, ?_⟩
      · exact Or.inl (typed_annotated member there restricted)
      · exact taskAfter_free typed_fresh _
      · rw [objectMembers, lookup_insert, if_pos rfl]
      · rw [objectMembers, lookup_insert, if_neg (by decide), lookup_free_eq_none (by decide) free]
  | some identifier =>
      refine ⟨?_, fun member there restricted => ?_, ?_, ?_, ?_⟩
      · rw [objectMembers, childMembers_insert (by decide) typed_fresh, typed_kept]
      · rcases mem_insert there with rfl | other
        · exact Or.inr ⟨rfl, identifier, rfl⟩
        · exact Or.inl (typed_annotated member other restricted)
      · exact taskAfter_insert typed_fresh none
      · rw [objectMembers, lookup_insert, if_neg (by decide), lookup_insert, if_pos rfl]
      · rw [objectMembers, lookup_insert, if_neg (by decide), lookup_insert, if_neg (by decide),
          lookup_free_eq_none (by decide) free]

/-! ### The type of a written object -/

variable {register}

/-- Two tables that agree on all names but those of array types. -/
def Agree (table later : Table Ty) : Prop :=
  ∀ name, componentName name = none → lookup name later = lookup name table

variable (register)

/-- The placeholder of an array type whose elements are known would be read as an array. -/
def NameReadable (table : Table Ty) (name : Str) : Prop :=
  componentName name ≠ none → lookup (elementName name) table = none

variable {register}

theorem Agree.elementName {table later : Table Ty} (agree : Agree table later) (name : Str) :
    lookup (elementName name) later = lookup (elementName name) table :=
  agree _ (componentName_elementNameIn name.length name (Nat.le_refl _))

/-- The type of a map is found again, unless it is taken for an array type. -/
theorem resolve_known {table later : Table Ty} {t : Ty} (known : Known register table t)
    (agree : Agree table later) :
    (NameReadable table (register.types.name t) →
        (resolve register later (register.types.name t)).1 = .base t ∧
          Agree table (resolve register later (register.types.name t)).2) ∧
      (¬ NameReadable table (register.types.name t) →
        ∃ component, resolve register later (register.types.name t) = (.array component, later)) := by
  constructor
  · intro readable
    rcases known with ⟨simple, there⟩ | ⟨bracketed, placeholder⟩
    · have found : getType later (register.types.name t) = some (.base t) := by
        rw [getType, getTypeIn_of_simple simple, agree _ simple, there]
        rfl
      rw [resolve, found]
      exact ⟨rfl, agree⟩
    · have missing : getType later (register.types.name t) = none :=
        getType_unknown ((agree.elementName _).trans (readable bracketed))
      rw [resolve, missing]
      refine ⟨congrArg TypeRef.base placeholder.symm, fun name simple => ?_⟩
      rw [lookup, if_neg ?_]
      · exact agree name simple
      · rintro rfl
        exact bracketed simple
  · intro unreadable
    rw [NameReadable, not_forall] at unreadable
    obtain ⟨bracketed, there⟩ := unreadable
    cases found : getType later (register.types.name t) with
    | none =>
        have missing := (getTypeIn_eq_none _ _).mp found
        rw [← elementName, agree.elementName] at missing
        exact absurd missing there
    | some type =>
        cases type with
        | base s => exact absurd (getTypeIn_base (Nat.le_refl _) found).1 bracketed
        | array component => exact ⟨component, by rw [resolve, found]⟩

/-- The object that `toJson` writes for a map is read as the children of a map, if the type is found. -/
theorem create_written {table later : Table Ty} {t : Ty} {task : Option Str} {members object : List (Str × Json)}
    (written : Written register (.base t) task members object) (known : Known register table t)
    (structured : register.valueType t = none) (agree : Agree table later)
    (readable : NameReadable table (register.types.name t)) :
    ∃ typed, Agree table typed ∧ create register (.object object) later =
      match readMembers register (.base t) members typed [] with
      | (.error e, after) => (.error e, after)
      | (.ok children, after) => (.ok (.map {} (.base t) (task.bind register.task) none children), after) := by
  obtain ⟨found, kept⟩ := (resolve_known known agree).1 readable
  refine ⟨_, kept, ?_⟩
  have typed : objectType register object later =
      (.ok (.base t), (resolve register later (register.types.name t)).2) := by
    rw [objectType, written.type_eq]
    simp only [Types.nameOf, found]
  have starts : initialValue register (.base t) (lookup (str "$value") object).isSome =
      .map {} (.base t) none none [] := by
    simp [initialValue, Register.simple, structured, written.no_value]
  rw [create, typed]
  dsimp only
  rw [starts, createMembers_eq register (.base t) none written.annotated, written.children, written.task_eq]

theorem createMembers_array {type ctype : TypeRef Ty} {flags : Flags} {elements : List (Value Ty Job)}
    {members : List (Str × Json)} {table : Table Ty} {w : Value Ty Job}
    (built : (createMembers register type members table (.array flags ctype elements)).1 = .ok w) :
    w = .array flags ctype elements := by
  induction members with
  | nil => exact (Except.ok.inj built).symm
  | cons member rest ih =>
      obtain ⟨key, j⟩ := member
      by_cases restricted : key ∈ restrictedKeys
      · obtain ⟨q, read, others⟩ := createMembers_keyword register restricted built
        obtain rfl := keyword_array read
        exact ih others
      · obtain ⟨isMap, _⟩ := createMembers_store register restricted built
        cases isMap

/-- The object is read as an array without elements, or not at all, if the type is not found. -/
theorem create_unreadable {table later after : Table Ty} {t : Ty} {task : Option Str}
    {members object : List (Str × Json)} {w : Value Ty Job}
    (written : Written register (.base t) task members object) (known : Known register table t)
    (agree : Agree table later) (unreadable : ¬ NameReadable table (register.types.name t))
    (created : create register (.object object) later = (.ok w, after)) :
    ∃ component, w = .array {} component [] := by
  obtain ⟨component, found⟩ := (resolve_known known agree).2 unreadable
  have typed : objectType register object later = (.ok (.array component), later) := by
    rw [objectType, written.type_eq]
    simp only [Types.nameOf, found]
  have starts : initialValue register (.array component) (lookup (str "$value") object).isSome =
      .array {} component [] := by
    simp [initialValue, Register.simple, written.no_value]
  rw [create, typed] at created
  dsimp only at created
  rw [starts] at created
  exact ⟨component, createMembers_array (congrArg Prod.fst created)⟩

/-! ### Reading back -/

variable (register)

/-- A value that is read back as it was: no scalar is unset, no real number is integral, and no map has a
    placeholder type that would be taken for an array type. -/
inductive Readable (table : Table Ty) : Value Ty Job → Prop
  | scalar {flags : Flags} {s : Scalar} (isSet : s ≠ .unset)
      (fractional : ∀ bits, s = .real bits → register.conversions.integral bits = none) :
      Readable table (.scalar flags s)
  | array {flags : Flags} {ctype : TypeRef Ty} {elements : List (Value Ty Job)}
      (each : ∀ e ∈ elements, Readable table e) : Readable table (.array flags ctype elements)
  | map {flags : Flags} {type : TypeRef Ty} {task : Option Str} {job : Option Job}
      {children : List (Str × Value Ty Job)} (name : NameReadable table (register.types.nameOf type))
      (each : ∀ entry ∈ children, Readable table entry.2) : Readable table (.map flags type task job children)

/-- What is written for the value is read as a value with the same output. -/
def ReadBack (table : Table Ty) (v : Value Ty Job) : Prop :=
  ∃ j, v.toJson register.types = .ok j ∧ ∀ later, Agree table later →
    ∃ w after, create register j later = (.ok w, after) ∧ Agree table after ∧
      Matches register v.unflagged w ∧ w.toJson register.types = .ok j

variable {register}

theorem readBack_scalar {table : Table Ty} (registered : Registered register table) {flags : Flags}
    {s : Scalar} (isSet : s ≠ .unset)
    (fractional : ∀ bits, s = .real bits → register.conversions.integral bits = none) :
    ReadBack register table (.scalar flags s : Value Ty Job) := by
  have same : Matches register (Value.unflagged (.scalar flags s) : Value Ty Job) (.scalar {} s) :=
    Matches.refl register _
  cases s with
  | unset => exact absurd rfl isSet
  | none => exact ⟨_, rfl, fun later agree => ⟨_, later, by rw [create], agree, same, rfl⟩⟩
  | integer n => exact ⟨_, rfl, fun later agree => ⟨_, later, by rw [create], agree, same, rfl⟩⟩
  | string text => exact ⟨_, rfl, fun later agree => ⟨_, later, by rw [create], agree, same, rfl⟩⟩
  | boolean b => exact ⟨_, rfl, fun later agree => ⟨_, later, by rw [create], agree, same, rfl⟩⟩
  | real bits =>
      refine ⟨_, rfl, fun later agree => ⟨_, later, ?_, agree, same, rfl⟩⟩
      rw [create, scalarOf, fractional bits rfl]
      rfl
  | path text =>
      refine ⟨_, rfl, fun later agree => ⟨_, later, ?_, agree, same, rfl⟩⟩
      exact create_path_eq register ((agree _ (by decide)).trans registered.path) text

theorem createElements_step {j : Json} {rest : List Json} {later mid : Table Ty} {w : Value Ty Job}
    (start : TypeRef Ty × List (Value Ty Job)) (created : create register j later = (.ok w, mid)) :
    createElements register (j :: rest) later start = createElements register rest mid (pushBack register start w) := by
  rw [createElements, created]

theorem readMembers_step {type : TypeRef Ty} {key : Str} {j : Json} {rest : List (Str × Json)}
    {later mid : Table Ty} {w m : Value Ty Job} (children : List (Str × Value Ty Job))
    (created : create register j later = (.ok w, mid))
    (marks : markFor (ownArgument register.types type key) w = .ok m) :
    readMembers register type ((key, j) :: rest) later children =
      readMembers register type rest mid (insert key m children) := by
  rw [readMembers, created]
  dsimp only
  rw [marks]

/-- The elements of an array, one after the other. -/
theorem readBack_elements {table : Table Ty} {elements : List (Value Ty Job)}
    (fresh : ∀ e ∈ elements, e.flags = {}) (each : ∀ e ∈ elements, ReadBack register table e) :
    ∃ js, elementsJson register.types elements = .ok js ∧ ∀ later start, Agree table later →
      ∃ ctype ws after, createElements register js later start = (.ok (ctype, start.2 ++ ws), after) ∧
        Agree table after ∧ List.Forall₂ (Matches register) elements ws ∧
        elementsJson register.types ws = .ok js := by
  induction elements with
  | nil =>
      refine ⟨[], rfl, fun later start agree => ⟨start.1, [], later, ?_, agree, .nil, rfl⟩⟩
      rw [createElements, List.append_nil]
  | cons e rest ih =>
      obtain ⟨j, written, reads⟩ := each e List.mem_cons_self
      obtain ⟨js, all_written, read_all⟩ := ih
        (fun e' member => fresh e' (List.mem_cons_of_mem _ member))
        (fun e' member => each e' (List.mem_cons_of_mem _ member))
      refine ⟨j :: js, elementsJson_cons.mpr ⟨j, js, written, all_written, rfl⟩, fun later start agree => ?_⟩
      obtain ⟨w, mid, created, agree_mid, same, rewritten⟩ := reads later agree
      obtain ⟨ctype, ws, after, others, agree_after, all_same, all_rewritten⟩ :=
        read_all mid (pushBack register start w) agree_mid
      rw [unflagged_of_fresh (fresh e List.mem_cons_self)] at same
      refine ⟨ctype, w :: ws, after, ?_, agree_after, .cons same all_same,
        elementsJson_cons.mpr ⟨j, js, rewritten, all_rewritten, rfl⟩⟩
      rw [createElements_step start created, others, pushBack, List.append_assoc, List.singleton_append]

/-- The children of a map, in the order of their keys; each is marked again as it was. -/
theorem readBack_children {table : Table Ty} {type : TypeRef Ty} {children : List (Str × Value Ty Job)}
    (ordered : Ordered children)
    (marked : ∀ entry ∈ children,
      markFor (ownArgument register.types type entry.1) entry.2.unflagged = .ok entry.2)
    (each : ∀ entry ∈ children, ReadBack register table entry.2) :
    ∃ members, childrenJson register.types children = .ok members ∧ ∀ later earlier, Agree table later →
      (∀ entry ∈ earlier, ∀ child ∈ children, keyLess entry.1 child.1 = true) →
        ∃ ws after, readMembers register type members later earlier = (.ok (earlier ++ ws), after) ∧
          Agree table after ∧ updateChildren register.types children = updateChildren register.types ws ∧
          childrenJson register.types ws = .ok members := by
  induction children with
  | nil =>
      refine ⟨[], rfl, fun later earlier agree _ => ⟨[], later, ?_, agree, rfl, rfl⟩⟩
      rw [readMembers, List.append_nil]
  | cons entry rest ih =>
      obtain ⟨key, child⟩ := entry
      obtain ⟨j, written, reads⟩ := each (key, child) List.mem_cons_self
      obtain ⟨members, all_written, read_all⟩ := ih (List.pairwise_cons.mp ordered).2
        (fun entry member => marked entry (List.mem_cons_of_mem _ member))
        (fun entry member => each entry (List.mem_cons_of_mem _ member))
      refine ⟨(key, j) :: members, childrenJson_cons.mpr ⟨j, members, written, all_written, rfl⟩,
        fun later earlier agree before => ?_⟩
      obtain ⟨w, mid, created, agree_mid, same, rewritten⟩ := reads later agree
      obtain ⟨m, marks, ignorable, digest⟩ := same.markFor register (marked (key, child) List.mem_cons_self)
      have last : insert key m earlier = earlier ++ [(key, m)] :=
        insert_last m fun entry member => before entry member (key, child) List.mem_cons_self
      obtain ⟨ws, after, others, agree_after, all_same, all_rewritten⟩ :=
        read_all mid (earlier ++ [(key, m)]) agree_mid (before_store ordered before)
      have again : m.toJson register.types = .ok j := by
        obtain ⟨f, raised⟩ := markFor_withFlags marks
        rw [raised, toJson_withFlags, rewritten]
      refine ⟨(key, m) :: ws, after, ?_, agree_after, ?_,
        childrenJson_cons.mpr ⟨j, members, again, all_rewritten, rfl⟩⟩
      · rw [readMembers_step earlier created marks, last, others, List.append_assoc, List.singleton_append]
      · simp only [updateChildren, ignorable, digest, all_same]

/-- The task that is read back is the task of the map. -/
theorem task_again {task : Option Str}
    (tasked : ∀ identifier, task = some identifier → register.task identifier = some identifier) :
    task.bind register.task = task := by
  cases task with
  | none => rfl
  | some identifier => exact tasked identifier rfl

/-- The keys of the children of a map that was read are free. -/
theorem members_free {children : List (Str × Value Ty Job)} {members : List (Str × Json)}
    (free : ∀ entry ∈ children, entry.1 ∉ restrictedKeys)
    (written : childrenJson register.types children = .ok members) :
    ∀ member ∈ members, member.1 ∉ restrictedKeys := by
  intro member there
  have key : member.1 ∈ children.map Prod.fst := childrenJson_keys written ▸ List.mem_map_of_mem there
  obtain ⟨entry, inside, same⟩ := List.mem_map.mp key
  exact same ▸ free entry inside

/-- A readable value is read back. -/
theorem read_back {table : Table Ty} (registered : Registered register table) {v : Value Ty Job}
    (produced : Produced register table v) (readable : Readable register table v) :
    ReadBack register table v := by
  induction produced with
  | scalar =>
      cases readable with
      | scalar isSet fractional => exact readBack_scalar registered isSet fractional
  | array fresh _ ih =>
      cases readable with
      | array each =>
          obtain ⟨js, written, reads⟩ := readBack_elements fresh fun e member => ih e member (each e member)
          refine ⟨.array js, by rw [toJson, written]; rfl, fun later agree => ?_⟩
          obtain ⟨ctype, ws, after, created, agree_after, same, rewritten⟩ :=
            reads later (.base register.types.any, []) agree
          refine ⟨.array {} ctype ws, after, ?_, agree_after, Matches.array register same, ?_⟩
          · rw [create, created]
            rfl
          · rw [toJson, rewritten]
            rfl
  | @map _ t task _ _ known structured tasked ordered free marked _ ih =>
      cases readable with
      | map name each =>
          obtain ⟨members, written, reads⟩ := readBack_children ordered marked fun entry member =>
            ih entry member (each entry member)
          refine ⟨_, by rw [toJson, written]; rfl, fun later agree => ?_⟩
          have object := written_objectMembers register (.base t) task (members_free free written)
          obtain ⟨typed, agree_typed, creates⟩ := create_written object known structured agree name
          obtain ⟨ws, after, read, agree_after, same, rewritten⟩ := reads typed [] agree_typed nofun
          rw [read, task_again tasked] at creates
          refine ⟨_, after, creates, agree_after, Matches.map register same, ?_⟩
          rw [toJson, List.nil_append, rewritten]
          rfl

/-! ### Values that are not read back -/

theorem createElements_appends {js : List Json} {later after : Table Ty}
    {start result : TypeRef Ty × List (Value Ty Job)}
    (created : createElements register js later start = (.ok result, after)) :
    ∃ ws, result.2 = start.2 ++ ws := by
  induction js generalizing later start with
  | nil =>
      rw [createElements] at created
      cases created
      exact ⟨[], (List.append_nil _).symm⟩
  | cons j rest ih =>
      rw [createElements] at created
      split at created
      · cases created
      · next w mid _ =>
        obtain ⟨ws, appended⟩ := ih created
        exact ⟨w :: ws, by rw [appended, pushBack, List.append_assoc, List.singleton_append]⟩

/-- The members of an object come after the children that are there, under their own keys. -/
theorem readMembers_appends {type : TypeRef Ty} {members : List (Str × Json)} {later after : Table Ty}
    {earlier result : List (Str × Value Ty Job)} (ordered : Ordered members)
    (before : ∀ entry ∈ earlier, ∀ member ∈ members, keyLess entry.1 member.1 = true)
    (read : readMembers register type members later earlier = (.ok result, after)) :
    ∃ ws, result = earlier ++ ws ∧ ws.map Prod.fst = members.map Prod.fst := by
  induction members generalizing later earlier with
  | nil =>
      rw [readMembers] at read
      cases read
      exact ⟨[], (List.append_nil _).symm, rfl⟩
  | cons member rest ih =>
      obtain ⟨key, j⟩ := member
      rw [readMembers] at read
      split at read
      · cases read
      · split at read
        · cases read
        · next m _ =>
          have last : insert key m earlier = earlier ++ [(key, m)] :=
            insert_last m fun entry member => before entry member (key, j) List.mem_cons_self
          rw [last] at read
          obtain ⟨ws, appended, keys⟩ :=
            ih (List.pairwise_cons.mp ordered).2 (before_store ordered before) read
          exact ⟨(key, m) :: ws, by rw [appended, List.append_assoc, List.singleton_append], by
            rw [List.map_cons, List.map_cons, keys]⟩

variable (register)

/-- If what is written for the value is read as a value with the same output, then the value is readable. -/
def OnlyReadable (table : Table Ty) (v : Value Ty Job) : Prop :=
  ∀ {j later w after}, v.toJson register.types = .ok j → Agree table later →
    create register j later = (.ok w, after) → w.toJson register.types = .ok j →
      Agree table after ∧ Readable register table v

variable {register}

theorem onlyReadable_scalar {table : Table Ty} (registered : Registered register table) {flags : Flags}
    {s : Scalar} : OnlyReadable register table (.scalar flags s : Value Ty Job) := by
  intro j later w after written agree created rewritten
  cases s with
  | unset => cases written
  | real bits =>
      cases written
      rw [create] at created
      cases fractional : register.conversions.integral bits with
      | none =>
          simp only [scalarOf, fractional, Except.map, Prod.mk.injEq] at created
          refine ⟨created.2 ▸ agree, .scalar (fun unset => ?_) fun _ same => ?_⟩
          · cases unset
          · cases same
            exact fractional
      | some n =>
          -- an integral number comes back as an integer
          simp only [scalarOf, fractional, Except.map, Prod.mk.injEq, Except.ok.injEq] at created
          rw [← created.1] at rewritten
          cases rewritten
  | path text =>
      cases written
      rw [create_path_eq register ((agree _ (by decide)).trans registered.path) text] at created
      cases created
      refine ⟨agree, .scalar (fun unset => ?_) fun _ real => ?_⟩
      · cases unset
      · cases real
  | _ =>
      cases written
      rw [create] at created
      cases created
      refine ⟨agree, .scalar (fun unset => ?_) fun _ real => ?_⟩
      · cases unset
      · cases real

theorem onlyReadable_elements {table : Table Ty} {elements ws : List (Value Ty Job)} {js : List Json}
    {later after : Table Ty} {start result : TypeRef Ty × List (Value Ty Job)}
    (each : ∀ e ∈ elements, OnlyReadable register table e)
    (written : elementsJson register.types elements = .ok js) (agree : Agree table later)
    (created : createElements register js later start = (.ok result, after))
    (appended : result.2 = start.2 ++ ws) (rewritten : elementsJson register.types ws = .ok js) :
    Agree table after ∧ ∀ e ∈ elements, Readable register table e := by
  induction elements generalizing js later start ws with
  | nil =>
      cases written
      rw [createElements] at created
      cases created
      exact ⟨agree, nofun⟩
  | cons e rest ih =>
      obtain ⟨j, others, first, tail, rfl⟩ := elementsJson_cons.mp written
      rw [createElements] at created
      split at created
      · cases created
      · next w mid outcome =>
        obtain ⟨later_ws, later_appended⟩ := createElements_appends created
        have splits : ws = w :: later_ws := by
          rw [later_appended, pushBack, List.append_assoc, List.singleton_append] at appended
          exact (List.append_cancel_left appended).symm
        subst splits
        obtain ⟨j', others', first', tail', same⟩ := elementsJson_cons.mp rewritten
        obtain ⟨rfl, rfl⟩ := List.cons.inj same
        obtain ⟨agree_mid, readable⟩ := each e List.mem_cons_self first agree outcome first'
        obtain ⟨agree_after, all_readable⟩ := ih
          (fun e' member => each e' (List.mem_cons_of_mem _ member)) tail agree_mid created later_appended tail'
        refine ⟨agree_after, fun e' member => ?_⟩
        rcases List.mem_cons.mp member with rfl | there
        · exact readable
        · exact all_readable e' there

theorem onlyReadable_children {table : Table Ty} {type : TypeRef Ty}
    {children ws earlier : List (Str × Value Ty Job)} {members : List (Str × Json)} {later after : Table Ty}
    (ordered : Ordered members)
    (before : ∀ entry ∈ earlier, ∀ member ∈ members, keyLess entry.1 member.1 = true)
    (each : ∀ entry ∈ children, OnlyReadable register table entry.2)
    (written : childrenJson register.types children = .ok members) (agree : Agree table later)
    (read : readMembers register type members later earlier = (.ok (earlier ++ ws), after))
    (rewritten : childrenJson register.types ws = .ok members) :
    Agree table after ∧ ∀ entry ∈ children, Readable register table entry.2 := by
  induction children generalizing members later earlier ws with
  | nil =>
      cases written
      rw [readMembers, Prod.mk.injEq] at read
      exact ⟨read.2 ▸ agree, nofun⟩
  | cons entry rest ih =>
      obtain ⟨key, child⟩ := entry
      obtain ⟨j, others, first, tail, rfl⟩ := childrenJson_cons.mp written
      have others_ordered := (List.pairwise_cons.mp ordered).2
      rw [readMembers] at read
      split at read
      · cases read
      · next w mid outcome =>
        split at read
        · cases read
        · next m marks =>
          have last : insert key m earlier = earlier ++ [(key, m)] :=
            insert_last m fun entry member => before entry member (key, j) List.mem_cons_self
          have before_others := before_store (m := m) ordered before
          rw [last] at read
          obtain ⟨later_ws, appended, _⟩ := readMembers_appends others_ordered before_others read
          have splits : ws = (key, m) :: later_ws := by
            rw [List.append_assoc, List.singleton_append] at appended
            exact List.append_cancel_left appended
          subst splits
          obtain ⟨j', others', first', tail', same⟩ := childrenJson_cons.mp rewritten
          obtain ⟨same_head, rfl⟩ := List.cons.inj same
          obtain rfl := congrArg Prod.snd same_head
          have unmarked : w.toJson register.types = .ok j := by
            obtain ⟨f, raised⟩ := markFor_withFlags marks
            rw [← first', raised, toJson_withFlags]
          obtain ⟨agree_mid, readable⟩ := each (key, child) List.mem_cons_self first agree outcome unmarked
          obtain ⟨agree_after, all_readable⟩ := ih others_ordered before_others
            (fun entry member => each entry (List.mem_cons_of_mem _ member)) tail agree_mid
            (by rw [read, appended]) tail'
          refine ⟨agree_after, fun entry member => ?_⟩
          rcases List.mem_cons.mp member with rfl | there
          · exact readable
          · exact all_readable entry there

theorem ordered_keys {α β : Type} {entries : List (Str × α)} {others : List (Str × β)}
    (keys : others.map Prod.fst = entries.map Prod.fst) (ordered : Ordered entries) : Ordered others := by
  have entry_keys : (entries.map Prod.fst).Pairwise fun a b => keyLess a b = true :=
    List.pairwise_map.mpr ordered
  exact List.pairwise_map.mp (keys ▸ entry_keys)

/-- The members of a written object can be told. -/
theorem objectMembers_inj {type : TypeRef Ty} {task task' : Option Str} {members members' : List (Str × Json)}
    (free : ∀ member ∈ members, member.1 ∉ restrictedKeys)
    (free' : ∀ member ∈ members', member.1 ∉ restrictedKeys)
    (same : objectMembers register.types type task members = objectMembers register.types type task' members') :
    members = members' := by
  rw [← (written_objectMembers register type task free).children,
    ← (written_objectMembers register type task' free').children, same]

/-- A value that is read back is readable. -/
theorem readable_of_read_back {table : Table Ty} (registered : Registered register table) {v : Value Ty Job}
    (produced : Produced register table v) : OnlyReadable register table v := by
  induction produced with
  | scalar => exact onlyReadable_scalar registered
  | array _ _ ih =>
      intro j later w after written agree created rewritten
      obtain ⟨js, elements_written, rfl⟩ := except_map_eq_ok.mp (by rwa [toJson] at written)
      rw [create] at created
      split at created
      · cases created
      · next ctype ws _ outcome =>
        cases created
        obtain ⟨js', elements_rewritten, same⟩ := except_map_eq_ok.mp (by rwa [toJson] at rewritten)
        cases same
        obtain ⟨agree_after, each⟩ := onlyReadable_elements ih elements_written agree outcome
          (List.nil_append _).symm elements_rewritten
        exact ⟨agree_after, .array each⟩
  | @map _ t task _ children known structured tasked ordered free _ _ ih =>
      intro j later w after written agree created rewritten
      obtain ⟨members, children_written, rfl⟩ := except_map_eq_ok.mp (by rwa [toJson] at written)
      have members_ordered := ordered_keys (childrenJson_keys children_written) ordered
      have free_members := members_free free children_written
      have nothing : ∀ entry ∈ ([] : List (Str × Value Ty Job)), ∀ member ∈ members,
          keyLess entry.1 member.1 = true := List.forall_mem_nil _
      have object := written_objectMembers register (.base t) task free_members
      by_cases name : NameReadable table (register.types.name t)
      · obtain ⟨typed, agree_typed, creates⟩ := create_written object known structured agree name
        rw [created] at creates
        split at creates
        · cases creates
        · next ws _ read =>
          cases creates
          obtain ⟨_, rfl, keys⟩ := readMembers_appends members_ordered nothing read
          obtain ⟨members', children_rewritten, same⟩ := except_map_eq_ok.mp (by rwa [toJson] at rewritten)
          have free' := members_free (fun entry inside restricted => by
            have key := keys ▸ List.mem_map_of_mem inside
            obtain ⟨member, there, same_key⟩ := List.mem_map.mp key
            exact free_members member there (same_key ▸ restricted)) children_rewritten
          obtain rfl := objectMembers_inj free_members free' (Json.object.inj same).symm
          obtain ⟨agree_after, each⟩ := onlyReadable_children members_ordered nothing ih children_written
            agree_typed read children_rewritten
          exact ⟨agree_after, .map name each⟩
      · obtain ⟨component, rfl⟩ := create_unreadable object known agree name created
        cases rewritten

/-! ### The round trip -/

/-- What `create` has made of a JSON document is written, read again and written again: the value that is
    read has the same digest and is written as the same document, exactly when the first value is
    readable. -/
theorem json_round_trip (register : Register Ty Job) {table later : Table Ty} {j : Json} {v : Value Ty Job}
    (registered : Registered register table) (created : create register j table = (.ok v, later)) :
    (∃ written, v.toJson register.types = .ok written ∧
      ∃ w after, create register written later = (.ok w, after) ∧
        w.updateDigest register.types = v.updateDigest register.types ∧
        w.toJson register.types = .ok written) ↔ Readable register later v := by
  have built := create_built register j registered
  rw [created] at built
  obtain ⟨fresh, produced⟩ := built.produced v rfl
  constructor
  · rintro ⟨written, output, w, after, again, _, rewritten⟩
    exact (readable_of_read_back built.registered produced output (fun _ _ => rfl) again rewritten).2
  · intro readable
    obtain ⟨written, output, reads⟩ := read_back built.registered produced readable
    obtain ⟨w, after, again, _, same, rewritten⟩ := reads later fun _ _ => rfl
    rw [unflagged_of_fresh fresh] at same
    exact ⟨written, output, w, after, again, same.digest.symm, rewritten⟩

/-- The register of the samples, where one number is integral. -/
def unitRegister : Register Sample Unit :=
  { sampleRegister with
    conversions :=
      { sampleRegister.conversions with
        integral := fun bits => if bits = 0x3FF0000000000000 then some 1 else none } }

theorem sample_registered {register : Register Sample Unit} (types : register.types = sampleTypes)
    (task : register.task = some) : Registered register sampleTable where
  keyed := by
    intro name t found
    have each : ∀ entry ∈ sampleTable, sampleTypes.name entry.2 = entry.1 := by decide
    rw [types]
    exact each _ (mem_of_lookup found)
  any := by rw [types]; rfl
  path := by rw [types]; rfl
  task name identifier _ := by rw [task]

/-- A configuration with a path, a text, an array and a map of an unknown type. -/
def sampleDocument : Json :=
  ofB [(str "m", .object [(str "$type", .string (str "M")), (str "a", .array [.null])]),
    (str "note", .string (str "n")), (str "out", ofPath (str "p"))]

def sampleValue : Value Sample Unit :=
  .map {} (.base .B) none none
    [(str "m", .map {} (.base (.placeholder (str "M"))) none none
        [(str "a", .array {} (.base .any) [.scalar {} .none])]),
      (str "note", .scalar { ignore := true } (.string (str "n"))), (str "out", .scalar {} (.path (str "p")))]

theorem json_round_trip_sample : ∃ later,
    create sampleRegister sampleDocument sampleTable = (.ok sampleValue, later) ∧
      ∃ written, sampleValue.toJson sampleTypes = .ok written ∧
        ∃ w after, create sampleRegister written later = (.ok w, after) ∧
          w.updateDigest sampleTypes = sampleValue.updateDigest sampleTypes ∧
          w.toJson sampleTypes = .ok written := by
  have created : create sampleRegister sampleDocument sampleTable =
      (.ok sampleValue, (str "M", .placeholder (str "M")) :: sampleTable) := rfl
  have readable : Readable sampleRegister ((str "M", .placeholder (str "M")) :: sampleTable) sampleValue := by
    apply Readable.map (fun bracketed => absurd rfl bracketed)
    have scalar {flags : Flags} {s : Scalar} (isSet : s ≠ .unset) :
        Readable sampleRegister ((str "M", .placeholder (str "M")) :: sampleTable) (.scalar flags s) :=
      .scalar isSet fun _ _ => rfl
    simp only [List.forall_mem_cons]
    refine ⟨.map (fun bracketed => absurd rfl bracketed) ?_, scalar nofun, scalar nofun, nofun⟩
    simp only [List.forall_mem_cons]
    exact ⟨.array fun e member => List.mem_singleton.mp member ▸ scalar nofun, nofun⟩
  exact ⟨_, created, (json_round_trip sampleRegister (sample_registered rfl rfl) created).mpr readable⟩

/-- A scalar without `$value`, an integral number made from a Boolean, and a placeholder with the name of an
    array type are not read back. -/
theorem json_not_read_back :
    Registered unitRegister sampleTable ∧
      (∃ v later, create unitRegister (.object [(str "$type", .string (str "integer"))]) sampleTable =
          (.ok v, later) ∧ ∀ written, v.toJson sampleTypes ≠ .ok written) ∧
      (∃ v later written w after, create unitRegister (.object [(str "$type", .string (str "real")),
          (str "$value", .boolean true)]) sampleTable = (.ok v, later) ∧
        v.toJson sampleTypes = .ok written ∧ create unitRegister written later = (.ok w, after) ∧
        w.toJson sampleTypes ≠ .ok written) ∧
      ∃ v later written w after, create unitRegister (.object [
          (str "a", .object [(str "$type", .string (str "X[]"))]),
          (str "b", .object [(str "$type", .string (str "X"))])]) sampleTable = (.ok v, later) ∧
        v.toJson sampleTypes = .ok written ∧ create unitRegister written later = (.ok w, after) ∧
        w.toJson sampleTypes ≠ .ok written := by
  refine ⟨sample_registered rfl rfl, ⟨_, _, rfl, nofun⟩, ⟨_, _, _, _, _, rfl, rfl, rfl, nofun⟩,
    _, _, _, _, _, rfl, rfl, rfl, ?_⟩
  intro same
  injection same with same
  injection same with same
  injection (List.cons.inj (List.cons.inj same).2).1 with _ placeholder
  cases placeholder

end Experimaestro.Configuration

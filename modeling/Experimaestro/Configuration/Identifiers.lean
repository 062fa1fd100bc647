/-
Module: Experimaestro.Configuration.Identifiers
Layer: Configuration
Purpose: The identifier of a value before and after `configure`. What generation stores can be ignored,
  except for a constant, so that the identifier stays unless a constant is filled in where the digest
  reads; then the stream grows. The paths are computed from the root in the middle of generation: in
  each of its states the root is similar to the one that was passed.
Imports: Experimaestro.Configuration.GenerationRule
Trusted boundary: none
Main exports: hashedConstant, Under, Similar, generate_similar, generate_grows, one_identifier,
  one_identifier_defaults, constant_changes_identifier
Open obligations: none
-/
import Experimaestro.Configuration.GenerationRule

namespace Experimaestro.Configuration

open Value

section

variable {Ty Job : Type} (types : Types Ty Job) (ws : Workspace)

/-! ### Constants that the digest reads -/

/-- Whether a missing argument is a constant that cannot be ignored. -/
def hashesConstant (type : TypeRef Ty) (a : Argument Ty Job) : Bool :=
  a.generator.isNone &&
    match a.constant with
    | some c => !ignoredAt types type a.name c
    | none => false

/-- Whether the first declaration that supplies something for a missing key is such a constant. -/
def constantMissing (type : TypeRef Ty) : (Str → Bool) → List (Argument Ty Job) → Bool
  | _, [] => false
  | present, a :: rest =>
      if present a.name || a.idle then constantMissing type present rest
      else hashesConstant types type a || constantMissing type (fun key => a.name == key || present key) rest

namespace Value

mutual

/-- Whether generation stores a constant where the digest of the value reads. -/
def hashedConstant : Value Ty Job → Bool
  | .scalar _ _ => false
  | .array flags _ elements => !flags.generated && hashedConstantElements elements
  | .map flags type _ _ children =>
      !flags.generated &&
        (hashedConstantChildren children ||
          constantMissing types type (fun key => (lookup key children).isSome) (types.declarations type))

def hashedConstantElements : List (Value Ty Job) → Bool
  | [] => false
  | element :: rest => hashedConstant element || hashedConstantElements rest

def hashedConstantChildren : List (Str × Value Ty Job) → Bool
  | [] => false
  | (_, child) :: rest => (!child.canIgnore types && hashedConstant child) || hashedConstantChildren rest

end

end Value

/-! ### Generation without exception -/

theorem Generated.next_ok {α β : Type} {r : Generated α} {wrap : α → β} {rest : α → Generated β}
    (ok : (r.next wrap rest).error = none) :
    r.error = none ∧ (rest r.result).error = none ∧
      (r.next wrap rest).result = (rest r.result).result ∧
      (r.next wrap rest).paths = r.paths ++ (rest r.result).paths := by
  unfold Generated.next at ok ⊢
  cases failed : r.error with
  | none =>
      rw [failed] at ok
      exact ⟨rfl, ok, rfl, rfl⟩
  | some e =>
      rw [failed] at ok
      cases ok

theorem Generated.finish_ok {r : Generated (Value Ty Job)} (ok : r.finish.error = none) :
    r.error = none ∧ r.finish.result.core = r.result.core ∧ r.finish.paths = r.paths := by
  unfold Generated.finish at ok ⊢
  cases failed : r.error with
  | none =>
      refine ⟨rfl, ?_, rfl⟩
      apply core_withFlags
      intro flags
      rfl
  | some e =>
      rw [failed] at ok
      exact absurd (failed.symm.trans ok) (by simp)

/-- The value is generated already, or it is neither generated nor sealed. -/
theorem generateStop_ok {v : Value Ty Job} {r : Generated (Value Ty Job)}
    (ok : ((Value.generateStop v).getD r).error = none) :
    (v.flags.generated = true ∧ (Value.generateStop v).getD r = ⟨v, [], none⟩) ∨
      (v.flags.generated = false ∧ (Value.generateStop v).getD r = r) := by
  unfold Value.generateStop at ok ⊢
  cases before : v.flags.generated with
  | true => exact Or.inl ⟨rfl, rfl⟩
  | false =>
      rw [before] at ok
      cases closed : v.flags.isSealed with
      | true =>
          rw [closed] at ok
          cases ok
      | false => exact Or.inr ⟨rfl, rfl⟩

theorem set_ok {flags : Flags} {type : TypeRef Ty} {task : Option Str} {job : Option Job}
    {children : List (Str × Value Ty Job)} {key : Str} {value v' : Value Ty Job}
    (stored : Value.set types (.map flags type task job children) key value = (v', none)) :
    ∃ marked, markFor (ownArgument types type key) value = .ok marked ∧
      v' = .map flags type task job (insert key marked children) := by
  rw [Value.set] at stored
  split at stored
  · cases stored
  · split at stored
    · cases stored
    · split at stored
      case h_1 marked ok =>
          cases stored
          exact ⟨marked, ok, rfl⟩
      case h_2 e failed => cases stored

/-- One round of the loop of `_generate`. -/
theorem fill_cons_ok {within : Value Ty Job → Value Ty Job} {a : Argument Ty Job}
    {rest : List (Argument Ty Job)} {flags : Flags} {type : TypeRef Ty} {task : Option Str}
    {job : Option Job} {children : List (Str × Value Ty Job)}
    (ok : (fill types ws within (a :: rest) (.map flags type task job children)).error = none) :
    (((lookup a.name children).isSome || a.idle) = true ∧
        fill types ws within (a :: rest) (.map flags type task job children) =
          fill types ws within rest (.map flags type task job children)) ∨
      ∃ value paths marked, ((lookup a.name children).isSome || a.idle) = false ∧
        missingValue types ws (within (.map flags type task job children)) a = .ok (some (value, paths)) ∧
        markFor (ownArgument types type a.name) value = .ok marked ∧
        let r := fill types ws within rest (.map flags type task job (insert a.name marked children))
        r.error = none ∧
          fill types ws within (a :: rest) (.map flags type task job children) =
            ⟨r.result, paths ++ r.paths, r.error⟩ := by
  rw [fill, hasKey] at ok ⊢
  cases present : (lookup a.name children).isSome with
  | true => exact Or.inl ⟨rfl, rfl⟩
  | false =>
      rw [present, if_neg Bool.false_ne_true] at ok
      rw [if_neg Bool.false_ne_true]
      cases missing : missingValue types ws (within (.map flags type task job children)) a with
      | error e =>
          rw [missing] at ok
          cases ok
      | ok supplied =>
          rw [missing] at ok
          have supplies := missingValue_ok types ws missing
          cases supplied with
          | none =>
              cases supplies with
              | nothing idle => exact Or.inl ⟨idle, rfl⟩
          | some pair =>
              obtain ⟨value, paths⟩ := pair
              dsimp only at ok ⊢
              cases stored : Value.set types (.map flags type task job children) a.name value with
              | mk v' e =>
                  rw [stored] at ok
                  cases e with
                  | some e => cases ok
                  | none =>
                      obtain ⟨marked, marks, rfl⟩ := set_ok types stored
                      exact Or.inr ⟨value, paths, marked, supplies.not_idle, rfl, marks, ok, rfl⟩

/-! ### Similar values -/

/-- `u` has taken the place of `v` in a root: it can be ignored or not just the same, and, where the digest
    of the root reads, its digest is the same. -/
structure Similar (hashed : Bool) (v u : Value Ty Job) : Prop where
  canIgnore : u.canIgnore types = v.canIgnore types
  task : u.task = v.task
  isMap : u.isMap = v.isMap
  digest : hashed = true → u.updateDigest types = v.updateDigest types

theorem Similar.refl (hashed : Bool) (v : Value Ty Job) : Similar types hashed v v :=
  ⟨rfl, rfl, rfl, fun _ => rfl⟩

theorem Similar.trans {hashed : Bool} {v u w : Value Ty Job} (first : Similar types hashed v u)
    (second : Similar types hashed u w) : Similar types hashed v w where
  canIgnore := second.canIgnore.trans first.canIgnore
  task := second.task.trans first.task
  isMap := second.isMap.trans first.isMap
  digest read := (second.digest read).trans (first.digest read)

theorem Similar.of_core {hashed : Bool} {v u : Value Ty Job} (same : u.core = v.core) :
    Similar types hashed v u where
  canIgnore := canIgnore_eq_of_core types same
  task := by
    cases v <;> cases u <;> simp only [core, mapFlags, reduceCtorEq, Value.map.injEq] at same <;> try rfl
    exact same.2.2.1
  isMap := by
    cases v <;> cases u <;> simp only [core, mapFlags, reduceCtorEq] at same <;> rfl
  digest _ := updateDigest_eq_of_core types same

/-- Elements of an array, one by one. -/
def SimilarElements (hashed : Bool) (elements elements' : List (Value Ty Job)) : Prop :=
  List.Forall₂ (Similar types hashed) elements elements'

/-- Children of a map, one by one; the digest reads those that cannot be ignored. -/
def SimilarChildren (hashed : Bool) (children children' : List (Str × Value Ty Job)) : Prop :=
  List.Forall₂
    (fun entry entry' => entry'.1 = entry.1 ∧
      Similar types (hashed && !entry.2.canIgnore types) entry.2 entry'.2)
    children children'

theorem SimilarElements.refl (hashed : Bool) (elements : List (Value Ty Job)) :
    SimilarElements types hashed elements elements :=
  List.forall₂_same.mpr fun _ _ => Similar.refl types hashed _

theorem SimilarChildren.refl (hashed : Bool) (children : List (Str × Value Ty Job)) :
    SimilarChildren types hashed children children :=
  List.forall₂_same.mpr fun _ _ => ⟨rfl, Similar.refl types _ _⟩

theorem SimilarElements.updateElements {elements elements' : List (Value Ty Job)}
    (similar : SimilarElements types true elements elements') :
    updateElements types elements' = updateElements types elements := by
  induction similar with
  | nil => rfl
  | cons head _ ih => rw [Value.updateElements, Value.updateElements, head.digest rfl, ih]

theorem SimilarChildren.updateChildren {children children' : List (Str × Value Ty Job)}
    (similar : SimilarChildren types true children children') :
    updateChildren types children' = updateChildren types children := by
  induction similar with
  | nil => rfl
  | cons head _ ih =>
      obtain ⟨key, child⟩ := head
      rw [Value.updateChildren, Value.updateChildren, child.canIgnore, ih, key]
      split
      · rfl
      · rename_i read
        rw [child.digest (by simpa using read)]

theorem SimilarChildren.keys {hashed : Bool} {children children' : List (Str × Value Ty Job)}
    (similar : SimilarChildren types hashed children children') (key : Str) :
    (lookup key children).isSome = (lookup key children').isSome :=
  (isSome_lookup (List.Forall₂.imp (fun _ _ same => same.1) similar) key).symm

theorem SimilarElements.array {hashed : Bool} {elements elements' : List (Value Ty Job)}
    (similar : SimilarElements types hashed elements elements') (flags : Flags) (ctype : TypeRef Ty) :
    Similar types hashed (.array flags ctype elements) (.array flags ctype elements') where
  canIgnore := rfl
  task := rfl
  isMap := rfl
  digest read := by
    subst hashed
    rw [updateDigest, updateDigest, similar.updateElements, similar.length_eq]

theorem SimilarChildren.map {hashed : Bool} {children children' : List (Str × Value Ty Job)}
    (similar : SimilarChildren types hashed children children') (flags : Flags) (type : TypeRef Ty)
    (task : Option Str) (job : Option Job) :
    Similar types hashed (.map flags type task job children) (.map flags type task job children') where
  canIgnore := rfl
  task := rfl
  isMap := rfl
  digest read := by
    subst hashed
    rw [updateDigest, updateDigest, similar.updateChildren]

/-! ### What is filled in -/

/-- What is stored for a missing argument can be ignored, unless it is a hashed constant. -/
theorem canIgnore_supplied {root : Value Ty Job} {type : TypeRef Ty} {a : Argument Ty Job}
    {value marked : Value Ty Job} {paths : List Str}
    (supplies : Supplies types ws root a (some (value, paths)))
    (marks : markFor (ownArgument types type a.name) value = .ok marked) :
    marked.canIgnore types = !hashesConstant types type a := by
  rw [canIgnore_markFor types marks, hashesConstant]
  cases supplies with
  | path name path generator made =>
      have ignorable : ignoredAt types type a.name (.scalar {} (.path path)) = true := by
        rw [ignoredAt]
        exact (congrArg (· || _) types.path_canIgnore).trans (Bool.true_or _)
      rw [generator, ignorable, Bool.or_true]
      rfl
  | default d generator declared =>
      have noConstant : a.constant = none := by
        unfold Argument.defaultValue at declared
        unfold Argument.constant
        cases constant : a.isConstant <;> simp_all
      rw [generator, noConstant, flags_withFlags]
      simp
  | constant c generator declared =>
      rw [generator, declared, flags_withFlags, ignoredAt_withFlags]
      simp
  | null generator value required =>
      rw [generator, Argument.constant, value, ite_self]
      rfl

/-- Storing a child that can be ignored under a new key. -/
theorem updateChildren_insert_ignored {key : Str} {child : Value Ty Job}
    (ignored : child.canIgnore types = true) :
    ∀ children : List (Str × Value Ty Job), lookup key children = none →
      updateChildren types (insert key child children) = updateChildren types children
  | [], _ => by simp only [insert, updateChildren, if_pos ignored]
  | (k, c) :: rest, fresh => by
      rw [lookup] at fresh
      split at fresh
      · cases fresh
      · rename_i other
        rw [insert, if_neg other]
        split
        · rw [updateChildren, if_pos ignored]
        · rw [updateChildren, updateChildren, updateChildren_insert_ignored ignored rest fresh]

/-! ### The paths -/

/-- A path is a directory or lies in it. -/
def Under (directory path : Str) : Prop :=
  path = directory ∨ directory ++ str "/" <+: path

theorem length_joinPath (parent piece : Str) : piece.length < (joinPath parent [piece]).length := by
  rw [joinPath, List.foldl_cons, List.foldl_nil, List.length_append, List.length_append]
  have slash : (str "/").length = 1 := rfl
  omega

/-- The directory of a value that has a task is not the root directory. -/
theorem directory_ne_root {root : Value Ty Job} : directory types ws root ≠ str "/" := by
  intro same
  have slash : (str "/").length = 1 := rfl
  have jobs : (str "jobs").length = 4 := rfl
  have jobsdir : 4 < ws.jobsdir.length := jobs ▸ length_joinPath ws.path (str "jobs")
  have deeper (parent piece : Str) (long : 4 < parent.length) : 4 < (joinPath parent [piece]).length := by
    rw [joinPath, if_neg, List.foldl_cons, List.foldl_nil, List.length_append, List.length_append]
    · omega
    · rintro rfl
      omega
  have long : 4 < (directory types ws root).length := by
    unfold directory
    cases root.task with
    | none => exact deeper _ _ jobsdir
    | some identifier => exact deeper _ _ (deeper _ _ jobsdir)
  rw [same] at long
  omega

theorem directory_eq {v u : Value Ty Job} (similar : Similar types true v u) :
    directory types ws u = directory types ws v := by
  unfold directory
  rw [similar.task, uniqueIdentifier, uniqueIdentifier, similar.digest rfl]

/-- The path made from a root lies in the directory of the root. -/
theorem under_pathGenerator {root : Value Ty Job} {name path : Str}
    (made : pathGenerator types ws root name = .ok path) : Under (directory types ws root) path := by
  unfold pathGenerator at made
  split at made
  · split at made
    · cases made
      exact Or.inl rfl
    · cases made
      right
      rw [joinPath, if_neg (directory_ne_root types ws), List.foldl_cons, List.foldl_nil]
      exact List.prefix_append _ _
  · cases made

theorem under_supplied {root : Value Ty Job} {a : Argument Ty Job} {value : Value Ty Job}
    {paths : List Str} (supplies : Supplies types ws root a (some (value, paths))) :
    ∀ path ∈ paths, Under (directory types ws root) path := by
  intro path member
  cases supplies with
  | path name path' generator made =>
      rw [List.mem_singleton.mp member]
      exact under_pathGenerator types ws made
  | default d generator declared => cases member
  | constant c generator declared => cases member
  | null generator value required => cases member

/-! ### Generation without a hashed constant -/

theorem lookup_absent {present : Str → Bool} {children : List (Str × Value Ty Job)}
    (keys : ∀ key, present key = (lookup key children).isSome) {name : Str} (absent : present name = false) :
    lookup name children = none := by
  rw [keys] at absent
  exact Option.isNone_iff_eq_none.mp (Option.isSome_eq_false_iff.mp absent)

theorem present_insert {present : Str → Bool} {children : List (Str × Value Ty Job)}
    (keys : ∀ key, present key = (lookup key children).isSome) (name : Str) (value : Value Ty Job) (key : Str) :
    (name == key || present key) = (lookup key (insert name value children)).isSome := by
  rw [lookup_insert, keys]
  by_cases here : name = key <;> simp [here]

/-- The loop of `_generate`: the keys present include those stored by the loop. -/
theorem fill_similar {hashed : Bool} {within : Value Ty Job → Value Ty Job} {root : Value Ty Job}
    {flags : Flags} {type : TypeRef Ty} {task : Option Str} {job : Option Job} {v : Value Ty Job}
    (context : ∀ u, Similar types hashed v u → Similar types true root (within u)) :
    ∀ (arguments : List (Argument Ty Job)) (children : List (Str × Value Ty Job)) (present : Str → Bool),
      (∀ key, present key = (lookup key children).isSome) →
      Similar types hashed v (.map flags type task job children) →
      (hashed = true → constantMissing types type present arguments = false) →
      (fill types ws within arguments (.map flags type task job children)).error = none →
        let r := fill types ws within arguments (.map flags type task job children)
        Similar types hashed v r.result ∧ ∀ path ∈ r.paths, Under (directory types ws root) path
  | [], children, present, keys, similar, free, ok => by
      rw [fill]
      exact ⟨similar, by simp⟩
  | a :: rest, children, present, keys, similar, free, ok => by
      have outcome := fill_cons_ok types ws ok
      rw [← keys] at outcome
      rw [constantMissing] at free
      rcases outcome with ⟨skipped, same⟩ | ⟨value, paths, marked, stored, missing, marks, ok', same⟩
      · rw [if_pos skipped] at free
        rw [same] at ok ⊢
        exact fill_similar context rest children present keys similar free ok
      · rw [stored, if_neg Bool.false_ne_true] at free
        have supplies := missingValue_ok types ws missing
        have fresh := lookup_absent keys (Bool.or_eq_false_iff.mp stored).1
        have similar' : Similar types hashed v
            (.map flags type task job (insert a.name marked children)) := by
          refine similar.trans types ⟨rfl, rfl, rfl, fun read => ?_⟩
          have ignored : marked.canIgnore types = true := by
            rw [canIgnore_supplied types ws supplies marks, (Bool.or_eq_false_iff.mp (free read)).1]
            rfl
          rw [updateDigest, updateDigest, updateChildren_insert_ignored types ignored children fresh]
        obtain ⟨result, under⟩ :=
          fill_similar context rest (insert a.name marked children) _ (present_insert keys _ _) similar'
          (fun read => (Bool.or_eq_false_iff.mp (free read)).2) ok'
        rw [same]
        refine ⟨result, fun path member => ?_⟩
        rcases List.mem_append.mp member with here | there
        · rw [← directory_eq types ws (context _ similar)]
          exact under_supplied types ws supplies path here
        · exact under path there

mutual

/-- Generation without a hashed constant, at a place where `within` builds the root. -/
theorem generate_similar {root : Value Ty Job} {hashed : Bool} :
    ∀ (v : Value Ty Job) (within : Value Ty Job → Value Ty Job),
      (∀ u, Similar types hashed v u → Similar types true root (within u)) →
      (hashed = true → v.hashedConstant types = false) →
      (generate types ws within v).error = none →
        Similar types hashed v (generate types ws within v).result ∧
          ∀ path ∈ (generate types ws within v).paths, Under (directory types ws root) path
  | .scalar flags s, within, _, _, ok => by
      rw [generate] at ok ⊢
      rcases generateStop_ok ok with ⟨_, same⟩ | ⟨_, same⟩
      · rw [same]
        exact ⟨Similar.refl types _ _, by simp⟩
      · rw [same] at ok ⊢
        obtain ⟨_, result, paths⟩ := Generated.finish_ok ok
        rw [paths]
        exact ⟨Similar.of_core types result, by simp⟩
  | .array flags ctype elements, within, context, free, ok => by
      rw [generate] at ok ⊢
      rcases generateStop_ok ok with ⟨_, same⟩ | ⟨fresh, same⟩
      · rw [same]
        exact ⟨Similar.refl types _ _, by simp⟩
      · rw [same] at ok ⊢
        obtain ⟨ok', result, paths⟩ := Generated.finish_ok ok
        obtain ⟨okElements, _, resultElements, pathsElements⟩ := Generated.next_ok ok'
        obtain ⟨similar, under⟩ := generateElements_similar elements _
          (fun es similar => context _ (similar.array types flags ctype))
          (fun read => by
            have constant := free read
            rw [hashedConstant, show flags.generated = false from fresh] at constant
            exact constant)
          okElements
        rw [paths, pathsElements, List.append_nil]
        refine ⟨?_, under⟩
        apply (similar.array types flags ctype).trans types
        exact Similar.of_core types (result.trans (congrArg core resultElements))
  | .map flags type task job children, within, context, free, ok => by
      rw [generate] at ok ⊢
      rcases generateStop_ok ok with ⟨_, same⟩ | ⟨fresh, same⟩
      · rw [same]
        exact ⟨Similar.refl types _ _, by simp⟩
      · rw [same] at ok ⊢
        obtain ⟨ok', result, paths⟩ := Generated.finish_ok ok
        obtain ⟨okChildren, okFill, resultFill, pathsFill⟩ := Generated.next_ok ok'
        have free' (read : hashed = true) : hashedConstantChildren types children = false ∧
            constantMissing types type (fun key => (lookup key children).isSome)
              (types.declarations type) = false := by
          have constant := free read
          rw [hashedConstant, show flags.generated = false from fresh] at constant
          exact Bool.or_eq_false_iff.mp constant
        obtain ⟨similar, under⟩ := generateChildren_similar children _
          (fun cs similar => context _ (similar.map types flags type task job))
          (fun read => (free' read).1) okChildren
        obtain ⟨filled, under'⟩ := fill_similar types ws context _ _ _
          (similar.keys types) (similar.map types flags type task job)
          (fun read => (free' read).2) okFill
        rw [paths, pathsFill]
        refine ⟨?_, fun path member => (List.mem_append.mp member).elim (under path) (under' path)⟩
        apply filled.trans types
        exact Similar.of_core types (result.trans (congrArg core resultFill))

theorem generateElements_similar {root : Value Ty Job} {hashed : Bool} :
    ∀ (elements : List (Value Ty Job)) (within : List (Value Ty Job) → Value Ty Job),
      (∀ es, SimilarElements types hashed elements es → Similar types true root (within es)) →
      (hashed = true → hashedConstantElements types elements = false) →
      (generateElements types ws within elements).error = none →
        SimilarElements types hashed elements (generateElements types ws within elements).result ∧
          ∀ path ∈ (generateElements types ws within elements).paths, Under (directory types ws root) path
  | [], _, _, _, _ => by
      rw [generateElements]
      exact ⟨.nil, by simp⟩
  | element :: rest, within, context, free, ok => by
      rw [generateElements] at ok ⊢
      obtain ⟨okElement, ok', result, paths⟩ := Generated.next_ok ok
      obtain ⟨okRest, _, resultRest, pathsRest⟩ := Generated.next_ok ok'
      have free' (read : hashed = true) := Bool.or_eq_false_iff.mp (free read)
      obtain ⟨similar, under⟩ := generate_similar element _
        (fun e similar => context _ (.cons similar (SimilarElements.refl types hashed rest)))
        (fun read => (free' read).1) okElement
      obtain ⟨similarRest, underRest⟩ := generateElements_similar rest _
        (fun es similarRest => context _ (.cons similar similarRest))
        (fun read => (free' read).2) okRest
      rw [result, resultRest, paths, pathsRest, List.append_nil]
      exact ⟨.cons similar similarRest,
        fun path member => (List.mem_append.mp member).elim (under path) (underRest path)⟩

theorem generateChildren_similar {root : Value Ty Job} {hashed : Bool} :
    ∀ (children : List (Str × Value Ty Job)) (within : List (Str × Value Ty Job) → Value Ty Job),
      (∀ cs, SimilarChildren types hashed children cs → Similar types true root (within cs)) →
      (hashed = true → hashedConstantChildren types children = false) →
      (generateChildren types ws within children).error = none →
        SimilarChildren types hashed children (generateChildren types ws within children).result ∧
          ∀ path ∈ (generateChildren types ws within children).paths, Under (directory types ws root) path
  | [], _, _, _, _ => by
      rw [generateChildren]
      exact ⟨.nil, by simp⟩
  | (key, child) :: rest, within, context, free, ok => by
      rw [generateChildren] at ok ⊢
      obtain ⟨okChild, ok', result, paths⟩ := Generated.next_ok ok
      obtain ⟨okRest, _, resultRest, pathsRest⟩ := Generated.next_ok ok'
      have free' (read : hashed = true) := Bool.or_eq_false_iff.mp (free read)
      have freeChild (read : (hashed && !child.canIgnore types) = true) :
          child.hashedConstant types = false := by
        obtain ⟨here, seen⟩ := Bool.and_eq_true_iff.mp read
        have constant := (free' here).1
        rwa [seen, Bool.true_and] at constant
      obtain ⟨similar, under⟩ := generate_similar child (fun c => within ((key, c) :: rest))
        (fun c similar => context _ (.cons ⟨rfl, similar⟩ (SimilarChildren.refl types hashed rest)))
        freeChild okChild
      obtain ⟨similarRest, underRest⟩ := generateChildren_similar rest
        (fun cs =>
          within ((key, (generate types ws (fun c => within ((key, c) :: rest)) child).result) :: cs))
        (fun cs similarRest => context _ (.cons ⟨rfl, similar⟩ similarRest))
        (fun read => (free' read).2) okRest
      rw [result, resultRest, paths, pathsRest, List.append_nil]
      exact ⟨.cons ⟨rfl, similar⟩ similarRest,
        fun path member => (List.mem_append.mp member).elim (under path) (underRest path)⟩

end

/-! ### Generation with a hashed constant -/

/-- The weight of what is fed to the digest of a value. -/
def Value.weight (v : Value Ty Job) : ℕ := streamWeight (v.updateDigest types)

/-- A weight does not shrink, and it grows when a constant is hashed. -/
structure Grows (constant : Bool) (before after : ℕ) : Prop where
  le : before ≤ after
  lt : constant = true → before < after

theorem Grows.refl (n : ℕ) : Grows false n n := ⟨Nat.le_refl n, fun h => by cases h⟩

theorem Grows.add {a b : Bool} {n m n' m' : ℕ} (first : Grows a n m) (second : Grows b n' m') :
    Grows (a || b) (n + n') (m + m') where
  le := Nat.add_le_add first.le second.le
  lt either := by
    rcases Bool.or_eq_true_iff.mp either with here | there
    · exact Nat.add_lt_add_of_lt_of_le (first.lt here) second.le
    · exact Nat.add_lt_add_of_le_of_lt first.le (second.lt there)

theorem Grows.trans {a b : Bool} {n m k : ℕ} (first : Grows a n m) (second : Grows b m k) :
    Grows (a || b) n k where
  le := Nat.le_trans first.le second.le
  lt either := by
    rcases Bool.or_eq_true_iff.mp either with here | there
    · exact Nat.lt_of_lt_of_le (first.lt here) second.le
    · exact Nat.lt_of_le_of_lt first.le (second.lt there)

theorem weight_map (flags : Flags) (type : TypeRef Ty) (task : Option Str) (job : Option Job)
    (children : List (Str × Value Ty Job)) :
    (Value.map flags type task job children).weight types =
      streamWeight (bytes (types.nameOf type) ++ bytes (taskField task)) +
        streamWeight (updateChildren types children) := by
  rw [weight, updateDigest, streamWeight_append]

theorem weight_updateChildren_cons (key : Str) (child : Value Ty Job) (rest : List (Str × Value Ty Job)) :
    streamWeight (updateChildren types ((key, child) :: rest)) =
      (if child.canIgnore types then 0 else streamWeight (bytes key) + 1 + child.weight types) +
        streamWeight (updateChildren types rest) := by
  rw [updateChildren]
  split
  · rw [Nat.zero_add]
  · rw [streamWeight_append, streamWeight, Symbol.weight, weight]
    omega

theorem weight_insert {key : Str} {child : Value Ty Job} :
    ∀ children : List (Str × Value Ty Job), lookup key children = none →
      streamWeight (updateChildren types (insert key child children)) =
        (if child.canIgnore types then 0 else streamWeight (bytes key) + 1 + child.weight types) +
          streamWeight (updateChildren types children)
  | [], _ => by rw [insert, weight_updateChildren_cons]
  | (k, c) :: rest, fresh => by
      rw [lookup] at fresh
      split at fresh
      · cases fresh
      · rename_i other
        rw [insert, if_neg other]
        split
        · rw [weight_updateChildren_cons]
        · rw [weight_updateChildren_cons, weight_updateChildren_cons, weight_insert rest fresh]
          omega

theorem weight_eq_of_core {v u : Value Ty Job} (same : v.core = u.core) : v.weight types = u.weight types :=
  congrArg streamWeight (updateDigest_eq_of_core types same)

/-- The loop of `_generate` adds the constants that are hashed. -/
theorem fill_grows {within : Value Ty Job → Value Ty Job} {flags : Flags} {type : TypeRef Ty}
    {task : Option Str} {job : Option Job} :
    ∀ (arguments : List (Argument Ty Job)) (children : List (Str × Value Ty Job)) (present : Str → Bool),
      (∀ key, present key = (lookup key children).isSome) →
      (fill types ws within arguments (.map flags type task job children)).error = none →
        Similar types false (.map flags type task job children)
            (fill types ws within arguments (.map flags type task job children)).result ∧
          Grows (constantMissing types type present arguments)
            ((Value.map flags type task job children).weight types)
            ((fill types ws within arguments (.map flags type task job children)).result.weight types)
  | [], children, present, keys, ok => by
      rw [fill]
      exact ⟨Similar.refl types _ _, Grows.refl _⟩
  | a :: rest, children, present, keys, ok => by
      have outcome := fill_cons_ok types ws ok
      rw [← keys] at outcome
      rw [constantMissing]
      rcases outcome with ⟨skipped, same⟩ | ⟨value, paths, marked, stored, missing, marks, ok', same⟩
      · rw [if_pos skipped]
        rw [same] at ok ⊢
        exact fill_grows rest children present keys ok
      · rw [stored, if_neg Bool.false_ne_true, same]
        have fresh := lookup_absent keys (Bool.or_eq_false_iff.mp stored).1
        obtain ⟨similar, grows⟩ := fill_grows rest (insert a.name marked children) _ (present_insert keys _ _) ok'
        refine ⟨?_, Grows.trans ?_ grows⟩
        · have first : Similar types false (.map flags type task job children)
              (.map flags type task job (insert a.name marked children)) :=
            ⟨rfl, rfl, rfl, fun read => by cases read⟩
          exact first.trans types similar
        · have ignored := canIgnore_supplied types ws (missingValue_ok types ws missing) marks
          rw [weight_map, weight_map, weight_insert types children fresh, ignored]
          cases hashesConstant types type a with
          | true =>
              rw [Bool.not_true, if_neg Bool.false_ne_true]
              exact ⟨by omega, fun _ => by omega⟩
          | false => exact ⟨by omega, fun h => by cases h⟩

mutual

/-- Generation makes the stream longer where it hashes a constant, and nowhere shorter. -/
theorem generate_grows :
    ∀ (v : Value Ty Job) (within : Value Ty Job → Value Ty Job),
      (generate types ws within v).error = none →
        Similar types false v (generate types ws within v).result ∧
          Grows (v.hashedConstant types) (v.weight types) ((generate types ws within v).result.weight types)
  | .scalar flags s, within, ok => by
      rw [generate] at ok ⊢
      rcases generateStop_ok ok with ⟨_, same⟩ | ⟨_, same⟩
      · rw [same]
        exact ⟨Similar.refl types _ _, Grows.refl _⟩
      · rw [same] at ok ⊢
        obtain ⟨_, result, _⟩ := Generated.finish_ok ok
        rw [weight_eq_of_core types result]
        exact ⟨Similar.of_core types result, Grows.refl _⟩
  | .array flags ctype elements, within, ok => by
      rw [generate] at ok ⊢
      rcases generateStop_ok ok with ⟨done, same⟩ | ⟨fresh, same⟩
      · rw [same, hashedConstant, show flags.generated = true from done]
        exact ⟨Similar.refl types _ _, Grows.refl _⟩
      · rw [same] at ok ⊢
        obtain ⟨ok', result, _⟩ := Generated.finish_ok ok
        obtain ⟨okElements, _, resultElements, _⟩ := Generated.next_ok ok'
        obtain ⟨similar, grows⟩ := generateElements_grows elements _ okElements
        have core := result.trans (congrArg core resultElements)
        rw [weight_eq_of_core types core, hashedConstant, show flags.generated = false from fresh]
        refine ⟨(similar.array types flags ctype).trans types (Similar.of_core types core), ?_⟩
        rw [weight, weight, updateDigest, updateDigest, streamWeight_append, streamWeight_append,
          List.Forall₂.length_eq similar]
        exact Grows.add (Grows.refl _) grows
  | .map flags type task job children, within, ok => by
      rw [generate] at ok ⊢
      rcases generateStop_ok ok with ⟨done, same⟩ | ⟨fresh, same⟩
      · rw [same, hashedConstant, show flags.generated = true from done]
        exact ⟨Similar.refl types _ _, Grows.refl _⟩
      · rw [same] at ok ⊢
        obtain ⟨ok', result, _⟩ := Generated.finish_ok ok
        obtain ⟨okChildren, okFill, resultFill, _⟩ := Generated.next_ok ok'
        obtain ⟨similar, grows⟩ := generateChildren_grows children _ okChildren
        obtain ⟨filled, grows'⟩ := fill_grows types ws _ _ _ (similar.keys types) okFill
        have core := result.trans (congrArg core resultFill)
        rw [weight_eq_of_core types core, hashedConstant, show flags.generated = false from fresh]
        refine ⟨?_, Grows.trans ?_ grows'⟩
        · exact ((similar.map types flags type task job).trans types filled).trans types
            (Similar.of_core types core)
        · rw [weight_map, weight_map]
          exact Grows.add (Grows.refl _) grows

theorem generateElements_grows :
    ∀ (elements : List (Value Ty Job)) (within : List (Value Ty Job) → Value Ty Job),
      (generateElements types ws within elements).error = none →
        SimilarElements types false elements (generateElements types ws within elements).result ∧
          Grows (hashedConstantElements types elements) (streamWeight (updateElements types elements))
            (streamWeight (updateElements types (generateElements types ws within elements).result))
  | [], _, _ => by
      rw [generateElements]
      exact ⟨.nil, Grows.refl _⟩
  | element :: rest, within, ok => by
      rw [generateElements] at ok ⊢
      obtain ⟨okElement, ok', result, _⟩ := Generated.next_ok ok
      obtain ⟨okRest, _, resultRest, _⟩ := Generated.next_ok ok'
      obtain ⟨similar, grows⟩ := generate_grows element _ okElement
      obtain ⟨similarRest, growsRest⟩ := generateElements_grows rest _ okRest
      rw [result, resultRest, updateElements, updateElements, streamWeight_append, streamWeight_append]
      exact ⟨.cons similar similarRest, grows.add growsRest⟩

theorem generateChildren_grows :
    ∀ (children : List (Str × Value Ty Job)) (within : List (Str × Value Ty Job) → Value Ty Job),
      (generateChildren types ws within children).error = none →
        SimilarChildren types false children (generateChildren types ws within children).result ∧
          Grows (hashedConstantChildren types children) (streamWeight (updateChildren types children))
            (streamWeight (updateChildren types (generateChildren types ws within children).result))
  | [], _, _ => by
      rw [generateChildren]
      exact ⟨.nil, Grows.refl _⟩
  | (key, child) :: rest, within, ok => by
      rw [generateChildren] at ok ⊢
      obtain ⟨okChild, ok', result, _⟩ := Generated.next_ok ok
      obtain ⟨okRest, _, resultRest, _⟩ := Generated.next_ok ok'
      obtain ⟨similar, grows⟩ := generate_grows child _ okChild
      obtain ⟨similarRest, growsRest⟩ := generateChildren_grows rest _ okRest
      rw [result, resultRest, hashedConstantChildren, weight_updateChildren_cons, weight_updateChildren_cons,
        similar.canIgnore]
      refine ⟨.cons ⟨rfl, similar⟩ similarRest, Grows.add ?_ growsRest⟩
      cases child.canIgnore types with
      | true => exact Grows.refl 0
      | false => exact Grows.add (Grows.refl _) grows

end

theorem configure_ok {v : Value Ty Job} (ok : (configure types ws v).error = none) :
    (generate types ws id v).error = none ∧
      (configure types ws v).paths = (generate types ws id v).paths := by
  unfold configure at ok ⊢
  dsimp only at ok ⊢
  split at ok
  · cases ok
  · rename_i generated
    split at ok
    · cases ok
    · exact ⟨generated, rfl⟩

end

/-! ### The result -/

/-- A type `task` that declares an optional argument, a default and a path, after the constant `version`
    when it has one, and a type `plain` below it that declares nothing. -/
def versioned (withConstant : Bool) : Types Str Unit where
  name t := t
  parent t := if t = str "plain" then some (str "task") else none
  arguments t :=
    if t = str "task" then
      (if withConstant then
        [{ name := str "version", type := .base (str "integer"), isConstant := true,
           value := some (.scalar {} (.integer 3)) }]
      else []) ++
      [{ name := str "x", type := .base (str "integer"), required := false,
         value := some (.scalar {} (.integer 1)) },
       { name := str "out", type := .base (str "path"), generator := some (str "out") },
       { name := str "note", type := .base (str "string"), required := false }]
    else []
  canIgnore t := t == str "path"
  any := str "any"
  boolean := str "boolean"
  integer := str "integer"
  real := str "real"
  string := str "string"
  path := str "path"
  level t := if t = str "plain" then 1 else 0
  level_lt t p h := by
    by_cases plain : t = str "plain"
    · rw [if_pos plain, Option.some.injEq] at h
      rw [if_pos plain, ← h]
      decide
    · rw [if_neg plain] at h
      cases h
  nodup t := by
    split
    · cases withConstant <;> decide
    · exact List.nodup_nil
  path_canIgnore := path_beq_path

/-- The task of type `plain` whose type inherits a constant: `configure` returns normally, the identifier
    is another one afterwards, and the path is not under the directory of the job. -/
theorem constant_changes_identifier :
    let v : Value Str Unit := .map {} (.base (str "plain")) (some (str "t")) none []
    let r := configure (versioned true) weighing v
    r.error = none ∧ r.result.uniqueIdentifier (versioned true) ≠ v.uniqueIdentifier (versioned true) ∧
      ∃ path ∈ r.paths, ¬Under (directory (versioned true) weighing v) path := by
  refine ⟨by decide, ?_, ?_⟩
  · intro same
    exact absurd (congrArg Symbol.weight same) (by decide)
  · refine ⟨_, List.mem_cons_self, ?_⟩
    rintro (same | below)
    · exact absurd same (by decide)
    · exact absurd below (by decide)

/-- The identifier is the same before and after `configure` and all paths lie in the directory of the job,
    exactly when generation fills in no constant where the digest reads. -/
theorem one_identifier {Ty Job : Type} (types : Types Ty Job) (ws : Workspace) (flags : Flags)
    (type : TypeRef Ty) (identifier : Str) (job : Option Job) (children : List (Str × Value Ty Job))
    (ok : (configure types ws (.map flags type (some identifier) job children)).error = none) :
    let v := Value.map flags type (some identifier) job children
    let r := configure types ws v
    (r.result.uniqueIdentifier types = v.uniqueIdentifier types ∧
        ∀ path ∈ r.paths,
          Under (joinPath (joinPath ws.jobsdir [identifier]) [ws.hex (v.uniqueIdentifier types)]) path) ↔
      v.hashedConstant types = false := by
  intro v r
  obtain ⟨generated, paths⟩ := configure_ok types ws ok
  have same := core_configure types ws v
  constructor
  · rintro ⟨identifiers, _⟩
    obtain ⟨_, grows⟩ := generate_grows types ws v id generated
    rw [← Bool.not_eq_true]
    intro constant
    have larger := grows.lt constant
    rw [← weight_eq_of_core types same] at larger
    have equal : r.result.weight types = v.weight types :=
      congrArg streamWeight (Symbol.digest.inj identifiers)
    exact absurd larger (by rw [equal]; exact Nat.lt_irrefl _)
  · intro free
    obtain ⟨similar, under⟩ := generate_similar types ws v id (fun u similar => similar) (fun _ => free) generated
    constructor
    · rw [uniqueIdentifier, uniqueIdentifier, updateDigest_eq_of_core types same]
      exact congrArg Symbol.digest (similar.digest rfl)
    · intro path member
      rw [paths] at member
      exact under path member

/-- The task whose type inherits a default, a path and an optional argument. -/
theorem one_identifier_defaults :
    let v : Value Str Unit := .map {} (.base (str "plain")) (some (str "t")) none []
    let r := configure (versioned false) weighing v
    r.error = none ∧ r.paths ≠ [] ∧
      ((r.result.uniqueIdentifier (versioned false) = v.uniqueIdentifier (versioned false) ∧
          ∀ path ∈ r.paths,
            Under (joinPath (joinPath weighing.jobsdir [str "t"])
              [weighing.hex (v.uniqueIdentifier (versioned false))]) path) ↔
        v.hashedConstant (versioned false) = false) ∧
      v.hashedConstant (versioned false) = false :=
  ⟨by decide, by decide,
    one_identifier (versioned false) weighing {} (.base (str "plain")) (str "t") none [] (by decide), by decide⟩

end Experimaestro.Configuration

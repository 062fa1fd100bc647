/-
Module: Experimaestro.Files.RelativePaths
Layer: Files
Purpose: `Path::relativeTo`. It goes up once for each slash of the base behind the common directories, which is once
  too few: the last component of the base is taken for a file. So its result leads back from a base that is an
  ancestor of the path, where it goes up nowhere, and from no other one. For two equal paths, the loop over the
  common prefix runs over the ends of both texts.
Imports: Experimaestro.Files.Paths
Trusted boundary: human-reviewed model of Path::relativeTo
Main exports: commonPrefix, backwards, relativeTo, LeadsBack, Above, relativeTo_leads_back
Open obligations: none
-/
import Experimaestro.Files.Paths

namespace Experimaestro.Files

open Experimaestro.Configuration (Path Str str)
open Separators (intercalate_append not_mem_of_mem_splitOn)

/-! ### The code -/

/-- What ends `relativeTo` otherwise than by a result: an exception, or an access behind the end of a text. -/
inductive PathFailure where
  | argumentError (message : Str)
  | outOfBounds
deriving DecidableEq

/-- The loop over the common prefix, from the position `i` on: the position where the texts differ, and the last
    slash before. At its end, a text has the character NUL; behind this one it must not be read. -/
def commonPrefix : Str → Str → ℕ → ℕ → Option (ℕ × ℕ)
  | [], [], _, _ => none
  | [], c :: _, i, last_slash => if c = 0 then none else some (i, last_slash)
  | c :: _, [], i, last_slash => if c = 0 then none else some (i, last_slash)
  | c :: b, d :: p, i, last_slash =>
      if c = d then commonPrefix b p (i + 1) (if c = slash then i else last_slash) else some (i, last_slash)

/-- The loop over the slashes of the base. -/
def backwards : Str → Str
  | [] => []
  | c :: rest => if c = slash then str "../" ++ backwards rest else backwards rest

/-- `Path::relativeTo`. -/
def relativeTo (path other : Path) : Except PathFailure Path :=
  if isRelative path || isRelative other then
    .error (.argumentError (str "Cannot relativize with relative paths " ++ toText path ++ str " and " ++ toText other))
  else if path.share ≠ other.share then .ok path
  else
    let b := other.localpart
    let p := path.localpart
    match commonPrefix b p 0 0 with
    | none => .error .outOfBounds
    | some (i, last_slash) =>
        if b.length = i ∧ p.length = i then .ok ⟨[], str "."⟩
        else
          let last_slash := if b.length = i ∧ p[i]? = some slash then i else last_slash
          .ok ⟨[], backwards (b.drop (last_slash + 1)) ++ p.drop (last_slash + 1)⟩

/-- What `relativeTo` is for: its result, resolved in the directory, gives the path. -/
def LeadsBack (path base : Path) : Prop :=
  ∃ text, relativeTo path base = .ok ⟨[], text⟩ ∧
    resolve (components base.localpart) text = components path.localpart

/-- The base is a proper ancestor. A component of the root must not begin with NUL, which is what the text of the
    root seems to have at its end. -/
structure Above (base path : Str) : Prop where
  inside : components base <+: components path
  proper : components base ≠ components path
  visible : base = [slash] → path[1]? ≠ some 0

/-! ### The common prefix -/

theorem commonPrefix_append {piece : Str} (apart : slash ∉ piece) (b p : Str) (i last_slash : ℕ) :
    commonPrefix (piece ++ b) (piece ++ p) i last_slash = commonPrefix b p (i + piece.length) last_slash := by
  induction piece generalizing i with
  | nil => rfl
  | cons c rest ih =>
      obtain ⟨other, later⟩ := List.ne_and_not_mem_of_not_mem_cons apart
      rw [List.cons_append, List.cons_append, commonPrefix, if_pos rfl, if_neg (Ne.symm other), ih later,
        List.length_cons]
      congr 1
      omega

/-- Up to a slash that both texts have, the last slash is this one. -/
theorem commonPrefix_slash (front b p : Str) (i last_slash : ℕ) :
    commonPrefix (front ++ slash :: b) (front ++ slash :: p) i last_slash =
      commonPrefix b p (i + front.length + 1) (i + front.length) := by
  induction front generalizing i last_slash with
  | nil => rw [List.nil_append, List.nil_append, commonPrefix, if_pos rfl, if_pos rfl, List.length_nil]; rfl
  | cons c rest ih =>
      rw [List.cons_append, List.cons_append, commonPrefix, if_pos rfl, ih, List.length_cons]
      congr 1 <;> omega

/-- Equal texts are read behind their ends. -/
theorem commonPrefix_self (text : Str) (i last_slash : ℕ) : commonPrefix text text i last_slash = none := by
  induction text generalizing i last_slash with
  | nil => rfl
  | cons c rest ih => rw [commonPrefix, if_pos rfl, ih]

theorem backwards_append (text other : Str) : backwards (text ++ other) = backwards text ++ backwards other := by
  induction text with
  | nil => rfl
  | cons c rest ih =>
      rw [List.cons_append, backwards, backwards, ih]
      split <;> simp

theorem backwards_piece {piece : Str} (apart : slash ∉ piece) : backwards piece = [] := by
  induction piece with
  | nil => rfl
  | cons c rest ih =>
      obtain ⟨other, later⟩ := List.ne_and_not_mem_of_not_mem_cons apart
      rw [backwards, if_neg (Ne.symm other), ih later]

/-- One step up for each component behind the first one. -/
theorem backwards_intercalate {pieces : List Str} (apart : ∀ piece ∈ pieces, slash ∉ piece) :
    backwards ([slash].intercalate pieces) = (List.replicate (pieces.length - 1) (str "../")).flatten := by
  induction pieces with
  | nil => rfl
  | cons first rest ih =>
      obtain ⟨here, later⟩ := List.forall_mem_cons.mp apart
      cases rest with
      | nil => rw [List.intercalate_singleton, backwards_piece here]; rfl
      | cons next rest =>
          rw [List.intercalate_cons_cons, backwards_append, backwards_append, backwards_piece here, ih later]
          simp [backwards, List.replicate_succ]

/-! ### Texts that come apart -/

/-- Two texts whose common prefix ends here, where the second does not go on with a slash behind the end of the
    first. -/
inductive Parts : Str → Str → Prop
  | base {c : UInt8} {rest : Str} (other : c ≠ slash) : Parts [] (c :: rest)
  | path {c : UInt8} {rest : Str} : Parts (c :: rest) []
  | both {c d : UInt8} {rest rest' : Str} (other : c ≠ d) : Parts (c :: rest) (d :: rest')

theorem Parts.commonPrefix {u v : Str} (parts : Parts u v) (i last_slash : ℕ) :
    commonPrefix u v i last_slash = none ∨ commonPrefix u v i last_slash = some (i, last_slash) := by
  cases parts with
  | base other =>
      rw [Files.commonPrefix]
      split
      · exact Or.inl rfl
      · exact Or.inr rfl
  | path =>
      rw [Files.commonPrefix]
      split
      · exact Or.inl rfl
      · exact Or.inr rfl
  | both other =>
      rw [Files.commonPrefix, if_neg other]
      exact Or.inr rfl

theorem Parts.not_both {u v : Str} (parts : Parts u v) : ¬ (u = [] ∧ v = []) := by
  cases parts with
  | base other => exact fun ends => List.cons_ne_nil _ _ ends.2
  | path => exact fun ends => List.cons_ne_nil _ _ ends.1
  | both other => exact fun ends => List.cons_ne_nil _ _ ends.1

theorem Parts.no_slash {u v : Str} (parts : Parts u v) : ¬ (u = [] ∧ v.head? = some slash) := by
  cases parts with
  | base other => exact fun ends => other (Option.some.inj ends.2)
  | path => exact fun ends => List.cons_ne_nil _ _ ends.1
  | both other => exact fun ends => List.cons_ne_nil _ _ ends.1

theorem absolute_not_relative (share : Str) {text : Str} (absolute : text.head? = some slash) :
    isRelative ⟨share, text⟩ = false := by
  simp [isRelative, absolute]

/-- Where two paths come apart behind a slash, the result goes up once for each later slash of the base. -/
theorem relativeTo_parts (share front piece : Str) {u v : Str} (apart : slash ∉ piece) (parts : Parts u v)
    (absolute : (front ++ [slash]).head? = some slash) :
    let b := front ++ slash :: (piece ++ u)
    let p := front ++ slash :: (piece ++ v)
    relativeTo ⟨share, p⟩ ⟨share, b⟩ = .error .outOfBounds ∨
      relativeTo ⟨share, p⟩ ⟨share, b⟩ = .ok ⟨[], backwards (piece ++ u) ++ (piece ++ v)⟩ := by
  intro b p
  have begins (rest : Str) : (front ++ slash :: rest).head? = some slash := by
    cases front with
    | nil => rfl
    | cons c others => exact absolute
  have walk : commonPrefix b p 0 0 = commonPrefix u v (front.length + 1 + piece.length) front.length := by
    rw [commonPrefix_slash, Nat.zero_add, commonPrefix_append apart]
  unfold relativeTo
  rw [absolute_not_relative share (begins _), absolute_not_relative share (begins _)]
  simp only [Bool.or_self, Bool.false_eq_true, if_false, ne_eq, not_true_eq_false]
  rw [walk]
  rcases parts.commonPrefix (front.length + 1 + piece.length) front.length with outside | stops
  · rw [outside]
    exact Or.inl rfl
  · rw [stops]
    have base_ends : b.length = front.length + 1 + piece.length ↔ u = [] := by
      rw [← List.length_eq_zero_iff]
      simp only [b, List.length_append, List.length_cons]
      omega
    have path_ends : p.length = front.length + 1 + piece.length ↔ v = [] := by
      rw [← List.length_eq_zero_iff]
      simp only [p, List.length_append, List.length_cons]
      omega
    have next : p[front.length + 1 + piece.length]? = v.head? := by
      have split : p = (front ++ slash :: piece) ++ v := by simp [p]
      have long : (front ++ slash :: piece).length = front.length + 1 + piece.length := by
        simp only [List.length_append, List.length_cons]
        omega
      rw [split, List.getElem?_append_right (Nat.le_of_eq long), long, Nat.sub_self, List.head?_eq_getElem?]
    have drop (rest : Str) : (front ++ slash :: rest).drop (front.length + 1) = rest := by
      rw [List.drop_append, List.drop_of_length_le (Nat.le_succ _)]
      simp
    have drop_base : b.drop (front.length + 1) = piece ++ u := drop _
    have drop_path : p.drop (front.length + 1) = piece ++ v := drop _
    have not_both : ¬ (b.length = front.length + 1 + piece.length ∧ p.length = front.length + 1 + piece.length) := by
      rw [base_ends, path_ends]
      exact parts.not_both
    have no_slash : ¬ (b.length = front.length + 1 + piece.length ∧
        p[front.length + 1 + piece.length]? = some slash) := by
      rw [base_ends, next]
      exact parts.no_slash
    dsimp only
    rw [if_neg not_both, if_neg no_slash, drop_base, drop_path]
    exact Or.inr rfl

/-- The first components of two paths, which differ, come apart. -/
theorem parts_of_ne {x y : Str} (other : x ≠ y) (apart : slash ∉ x) (apart' : slash ∉ y) (xs ys : List Str) :
    ∃ piece u v, slash ∉ piece ∧ Parts u v ∧ [slash].intercalate (x :: xs) = piece ++ u ∧
      [slash].intercalate (y :: ys) = piece ++ v := by
  have step (c : UInt8) (first : Str) (rest : List Str) :
      [slash].intercalate ((c :: first) :: rest) = c :: [slash].intercalate (first :: rest) := by
    cases rest with
    | nil => rw [List.intercalate_singleton, List.intercalate_singleton]
    | cons next rest => rw [List.intercalate_cons_cons, List.intercalate_cons_cons]; rfl
  induction x generalizing y with
  | nil =>
      cases y with
      | nil => exact absurd rfl other
      | cons d y =>
          have different : d ≠ slash := (List.ne_and_not_mem_of_not_mem_cons apart').1.symm
          refine ⟨[], [slash].intercalate ([] :: xs), _, List.not_mem_nil, ?_, rfl, step d y ys⟩
          cases xs with
          | nil => exact .base different
          | cons next rest => exact .both different.symm
  | cons c x ih =>
      obtain ⟨different, later⟩ := List.ne_and_not_mem_of_not_mem_cons apart
      cases y with
      | nil =>
          refine ⟨[], _, [slash].intercalate ([] :: ys), List.not_mem_nil, ?_, step c x xs, rfl⟩
          cases ys with
          | nil => exact .path
          | cons next rest => exact .both different.symm
      | cons d y =>
          obtain ⟨_, later'⟩ := List.ne_and_not_mem_of_not_mem_cons apart'
          by_cases same : c = d
          · subst same
            obtain ⟨piece, u, v, free, parts, split, split'⟩ := ih (fun equal => other (equal ▸ rfl)) later later'
            refine ⟨c :: piece, u, v, ?_, parts, ?_, ?_⟩
            · exact List.not_mem_cons_of_ne_of_not_mem different free
            · rw [step, split, List.cons_append]
            · rw [step, split', List.cons_append]
          · exact ⟨[], _, _, List.not_mem_nil, .both same, step c x xs, step d y ys⟩

/-! ### Components -/

/-- The positions of two lists to each other. -/
theorem compare_lists {α : Type} [DecidableEq α] (one two : List α) :
    one = two ∨ (∃ rest, rest ≠ [] ∧ two = one ++ rest) ∨ (∃ rest, rest ≠ [] ∧ one = two ++ rest) ∨
      ∃ shared x xs y ys, x ≠ y ∧ one = shared ++ x :: xs ∧ two = shared ++ y :: ys := by
  induction one generalizing two with
  | nil =>
      cases two with
      | nil => exact Or.inl rfl
      | cons y ys => exact Or.inr (Or.inl ⟨y :: ys, List.cons_ne_nil y ys, rfl⟩)
  | cons x xs ih =>
      cases two with
      | nil => exact Or.inr (Or.inr (Or.inl ⟨x :: xs, List.cons_ne_nil x xs, rfl⟩))
      | cons y ys =>
          by_cases same : x = y
          · subst same
            rcases ih ys with rfl | ⟨rest, filled, rfl⟩ | ⟨rest, filled, rfl⟩ | ⟨shared, a, as, b, bs, other, rfl, rfl⟩
            · exact Or.inl rfl
            · exact Or.inr (Or.inl ⟨rest, filled, rfl⟩)
            · exact Or.inr (Or.inr (Or.inl ⟨rest, filled, rfl⟩))
            · exact Or.inr (Or.inr (Or.inr ⟨x :: shared, a, as, b, bs, other, rfl, rfl⟩))
          · exact Or.inr (Or.inr (Or.inr ⟨[], x, xs, y, ys, same, rfl, rfl⟩))

/-- The text of a path, divided at a slash. -/
theorem rooted_append (shared : List Str) {rest : List Str} (filled : rest ≠ []) :
    rooted (shared ++ rest) = shared.flatMap (slash :: ·) ++ rooted rest := by
  induction shared with
  | nil => rfl
  | cons first others ih =>
      have more : others ++ rest ≠ [] := by simp [filled]
      rw [List.cons_append, List.flatMap_cons, List.append_assoc, ← ih, rooted, rooted,
        List.intercalate_cons_of_ne_nil more]
      simp

theorem rooted_flatMap {pieces : List Str} (filled : pieces ≠ []) : rooted pieces = pieces.flatMap (slash :: ·) := by
  rw [← List.dropLast_append_getLast filled, rooted_append _ (List.cons_ne_nil _ _), List.flatMap_append,
    List.flatMap_singleton, rooted, List.intercalate_singleton]

theorem head_flatMap (shared : List Str) : (shared.flatMap (slash :: ·) ++ [slash]).head? = some slash := by
  cases shared with
  | nil => rfl
  | cons first rest => rfl

/-- A base that is no ancestor of the path: the result goes up to one directory below the shared ones. -/
theorem relativeTo_apart (share : Str) {path base : List Str}
    (normal : ∀ component ∈ path, NormalComponent component)
    (normal' : ∀ component ∈ base, NormalComponent component) (above : ¬ base <+: path) :
    ∃ shared back down, back ≠ [] ∧ base = shared ++ back ∧ path = shared ++ down ∧
      (relativeTo ⟨share, rooted path⟩ ⟨share, rooted base⟩ = .error .outOfBounds ∨
        relativeTo ⟨share, rooted path⟩ ⟨share, rooted base⟩ =
          .ok ⟨[], backwards ([slash].intercalate back) ++ [slash].intercalate down⟩) := by
  rcases compare_lists base path with rfl | ⟨rest, _, rfl⟩ | ⟨rest, filled, rfl⟩ |
    ⟨shared, x, xs, y, ys, other, rfl, rfl⟩
  · exact absurd (List.prefix_refl _) above
  · exact absurd (List.prefix_append _ _) above
  · -- the path is an ancestor of the base
    rcases List.eq_nil_or_concat' path with rfl | ⟨shared, last, rfl⟩
    · obtain ⟨first, others, rfl⟩ := List.exists_cons_of_ne_nil filled
      have text : [slash].intercalate (first :: others) ≠ [] := by
        intro empty
        have back := List.splitOn_intercalate slash (fun piece member => (normal' piece member).apart) filled
        rw [List.nil_append, empty] at back
        exact (normal' first List.mem_cons_self).filled (List.cons.inj back).1.symm
      obtain ⟨c, tail, split⟩ := List.exists_cons_of_ne_nil text
      refine ⟨[], first :: others, [], filled, rfl, rfl, ?_⟩
      have ends : Parts (c :: tail) [] := .path
      have result := relativeTo_parts share [] [] List.not_mem_nil ends rfl
      rwa [← split] at result
    · have apart : slash ∉ last := (normal last (by simp)).apart
      have text : [slash].intercalate (last :: rest) = last ++ slash :: [slash].intercalate rest := by
        have split := intercalate_append slash (List.cons_ne_nil last []) filled
        rwa [List.singleton_append, List.intercalate_singleton] at split
      have ends : Parts (slash :: [slash].intercalate rest) [] := .path
      have result := relativeTo_parts share (shared.flatMap (slash :: ·)) last apart ends (head_flatMap shared)
      refine ⟨shared, last :: rest, [last], List.cons_ne_nil _ _, by simp, rfl, ?_⟩
      rw [List.append_assoc, List.singleton_append, rooted_append shared (List.cons_ne_nil last rest),
        rooted_append shared (List.cons_ne_nil last []), rooted, rooted, text, List.intercalate_singleton]
      simpa only [List.append_nil] using result
  · -- the components differ behind the shared ones
    obtain ⟨piece, u, v, free, parts, split, split'⟩ :=
      parts_of_ne other (normal' x (by simp)).apart (normal y (by simp)).apart xs ys
    refine ⟨shared, x :: xs, y :: ys, List.cons_ne_nil _ _, rfl, rfl, ?_⟩
    rw [rooted_append shared (List.cons_ne_nil x xs), rooted_append shared (List.cons_ne_nil y ys), rooted, rooted,
      split, split']
    exact relativeTo_parts share (shared.flatMap (slash :: ·)) piece free parts (head_flatMap shared)

/-- A result that goes up to one directory too low does not lead back. -/
theorem not_back (shared down : List Str) {back : List Str} (filled : back ≠ [])
    (normal : ∀ component ∈ down, NormalComponent component)
    (normal' : ∀ component ∈ shared ++ back, NormalComponent component) :
    resolve (shared ++ back) (backwards ([slash].intercalate back) ++ [slash].intercalate down) ≠ shared ++ down := by
  rw [backwards_intercalate fun piece member => (normal' piece (List.mem_append_right _ member)).apart, resolve_ups,
    resolve_components normal]
  intro same
  have lengths := congrArg List.length same
  have positive := List.length_pos_iff.mpr filled
  simp only [List.length_append, List.length_take] at lengths
  omega

theorem commonPrefix_prefix (text rest : Str) (i last_slash : ℕ) :
    ∃ last, commonPrefix text (text ++ rest) i last_slash = commonPrefix [] rest (i + text.length) last := by
  induction text generalizing i last_slash with
  | nil => exact ⟨last_slash, rfl⟩
  | cons c others ih =>
      obtain ⟨last, same⟩ := ih (i + 1) (if c = slash then i else last_slash)
      refine ⟨last, ?_⟩
      rw [List.cons_append, commonPrefix, if_pos rfl, same, List.length_cons]
      congr 1
      omega

/-- A base whose text the text of the path begins with. -/
theorem relativeTo_prefix (share base rest : Str) {last : ℕ} (absolute : base.head? = some slash) (filled : rest ≠ [])
    (walk : commonPrefix base (base ++ rest) 0 0 = some (base.length, last)) {last_slash : ℕ}
    (behind : (if rest.head? = some slash then base.length else last) = last_slash) :
    relativeTo ⟨share, base ++ rest⟩ ⟨share, base⟩ =
      .ok ⟨[], backwards (base.drop (last_slash + 1)) ++ (base ++ rest).drop (last_slash + 1)⟩ := by
  have absolute' : (base ++ rest).head? = some slash := by
    rw [List.head?_append, absolute, Option.some_or]
  have longer : ¬ (base.length = base.length ∧ (base ++ rest).length = base.length) := by
    intro ends
    have positive := List.length_pos_iff.mpr filled
    rw [List.length_append] at ends
    omega
  have next : (base ++ rest)[base.length]? = rest.head? := by
    rw [List.getElem?_append_right (Nat.le_refl _), Nat.sub_self, List.head?_eq_getElem?]
  unfold relativeTo
  rw [absolute_not_relative share absolute, absolute_not_relative share absolute']
  simp only [Bool.or_self, Bool.false_eq_true, if_false, ne_eq, not_true_eq_false]
  rw [walk]
  dsimp only
  rw [if_neg longer]
  simp only [next, true_and, behind]

theorem relativeTo_outside (share : Str) {base path : Str} (absolute : base.head? = some slash)
    (absolute' : path.head? = some slash) (outside : commonPrefix base path 0 0 = none) :
    relativeTo ⟨share, path⟩ ⟨share, base⟩ = .error .outOfBounds := by
  unfold relativeTo
  rw [absolute_not_relative share absolute, absolute_not_relative share absolute']
  simp only [Bool.or_self, Bool.false_eq_true, if_false, ne_eq, not_true_eq_false]
  rw [outside]

/-- The text of some components begins with a character of the first one. -/
theorem intercalate_cons {rest : List Str} (filled : rest ≠ [])
    (normal : ∀ component ∈ rest, NormalComponent component) :
    ∃ c tail, [slash].intercalate rest = c :: tail ∧ c ≠ slash := by
  obtain ⟨first, others, rfl⟩ := List.exists_cons_of_ne_nil filled
  have here := normal first List.mem_cons_self
  obtain ⟨c, letters, rfl⟩ := List.exists_cons_of_ne_nil here.filled
  have other : c ≠ slash := (List.ne_and_not_mem_of_not_mem_cons here.apart).1.symm
  cases others with
  | nil => exact ⟨c, letters, List.intercalate_singleton, other⟩
  | cons next others => exact ⟨c, _, by rw [List.intercalate_cons_cons]; rfl, other⟩

/-- The root as the base: the text of the path must not seem to end behind the slash. -/
theorem relativeTo_root (share : Str) {rest : List Str} (filled : rest ≠ [])
    (normal : ∀ component ∈ rest, NormalComponent component) :
    relativeTo ⟨share, rooted rest⟩ ⟨share, [slash]⟩ =
      if (rooted rest)[1]? = some 0 then .error .outOfBounds else .ok ⟨[], [slash].intercalate rest⟩ := by
  obtain ⟨c, tail, text, other⟩ := intercalate_cons filled normal
  rw [rooted, text]
  have walk : commonPrefix [slash] (slash :: c :: tail) 0 0 = if c = 0 then none else some (1, 0) := rfl
  by_cases zero : c = 0
  · rw [if_pos zero] at walk
    have second : (slash :: c :: tail)[1]? = some 0 := congrArg some zero
    rw [if_pos second, relativeTo_outside share rfl rfl walk]
  · rw [if_neg zero] at walk
    have second : ¬ (slash :: c :: tail)[1]? = some 0 := fun same => zero (Option.some.inj same)
    have head : ¬ (c :: tail).head? = some slash := fun same => other (Option.some.inj same)
    rw [if_neg second]
    exact relativeTo_prefix share [slash] (c :: tail) rfl (List.cons_ne_nil c tail) walk (if_neg head)

/-- Another base that is a proper ancestor of the path. -/
theorem relativeTo_above (share : Str) {base rest : List Str} (below : base ≠ []) (filled : rest ≠ []) :
    relativeTo ⟨share, rooted (base ++ rest)⟩ ⟨share, rooted base⟩ = .ok ⟨[], [slash].intercalate rest⟩ := by
  have split : rooted (base ++ rest) = rooted base ++ rooted rest := by
    rw [rooted_append base filled, rooted_flatMap below]
  obtain ⟨last, walk⟩ := commonPrefix_prefix (rooted base) (rooted rest) 0 0
  have ends : commonPrefix [] (rooted rest) (0 + (rooted base).length) last = some ((rooted base).length, last) := by
    rw [rooted, commonPrefix, if_neg (by decide), Nat.zero_add]
  have result := relativeTo_prefix share (rooted base) (rooted rest) rfl (List.cons_ne_nil _ _) (walk.trans ends)
    (if_pos rfl)
  have ahead : (rooted base ++ rooted rest).drop ((rooted base).length + 1) = [slash].intercalate rest := by
    rw [← List.drop_drop, List.drop_left]
    rfl
  rw [List.drop_of_length_le (Nat.le_succ _), ahead] at result
  rw [split, result]
  rfl

/-! ### The result -/

/-- For two paths in normal form on one share, `relativeTo` leads back exactly if the base is a proper ancestor of the
    path. -/
theorem relativeTo_leads_back (share : Str) {path base : Str} (normal : NormalForm path) (normal' : NormalForm base) :
    LeadsBack ⟨share, path⟩ ⟨share, base⟩ ↔ Above base path := by
  have text := rooted_components normal.absolute
  have text' := rooted_components normal'.absolute
  constructor
  · rintro ⟨relative, result, back⟩
    by_cases inside : components base <+: components path
    · obtain ⟨rest, split⟩ := inside
      by_cases filled : rest = []
      · have same : path = base := by
          rw [← text, ← text', ← split, filled, List.append_nil]
        subst same
        rw [relativeTo_outside share normal.absolute normal.absolute (commonPrefix_self path 0 0)] at result
        cases result
      · refine ⟨⟨rest, split⟩, fun same => filled (by simpa [same] using split), ?_⟩
        rintro rfl zero
        have whole : rest = components path := split
        have outside := relativeTo_root share (whole ▸ filled) normal.normal
        rw [text, if_pos zero, result] at outside
        cases outside
    · exfalso
      obtain ⟨shared, up, down, filled, split, split', results⟩ :=
        relativeTo_apart share normal.normal normal'.normal inside
      rw [text, text', result] at results
      rcases results with outside | same
      · cases outside
      · cases same
        have low := not_back shared down filled
          (fun component member => normal.normal component (split' ▸ List.mem_append_right _ member))
          (fun component member => normal'.normal component (split ▸ member))
        rw [← split, ← split'] at low
        exact low back
  · intro above
    obtain ⟨rest, split⟩ := above.inside
    have filled : rest ≠ [] := by
      rintro rfl
      exact above.proper (by simpa using split)
    have normal_rest : ∀ component ∈ rest, NormalComponent component := fun component member =>
      normal.normal component (split ▸ List.mem_append_right _ member)
    refine ⟨[slash].intercalate rest, ?_, ?_⟩
    · by_cases root : components base = []
      · have base_eq : base = [slash] := by
          rw [← text', root]
          rfl
        rw [root, List.nil_append] at split
        have result := relativeTo_root share filled normal_rest
        rw [split, text, if_neg (above.visible base_eq)] at result
        rw [base_eq, split]
        exact result
      · have result := relativeTo_above share root filled
        rwa [split, text, text'] at result
    · rw [resolve_components normal_rest, split]

/-- `/a/b` relative to `/a`. -/
theorem relativeTo_child :
    LeadsBack ⟨[], str "/a/b"⟩ ⟨[], str "/a"⟩ := by
  have normal : NormalForm (str "/a/b") := by decide
  have normal' : NormalForm (str "/a") := by decide
  exact (relativeTo_leads_back [] normal normal').mpr ⟨by decide, by decide, by decide⟩

/-- A path relative to itself is read behind its end, and `/a/b` relative to `/a/c` is `b`, in `/a/c`. -/
theorem relativeTo_sibling :
    relativeTo ⟨[], str "/a"⟩ ⟨[], str "/a"⟩ = .error .outOfBounds ∧
      ¬ LeadsBack ⟨[], str "/a"⟩ ⟨[], str "/a"⟩ ∧
      relativeTo ⟨[], str "/a/b"⟩ ⟨[], str "/a/c"⟩ = .ok ⟨[], str "b"⟩ ∧
      ¬ LeadsBack ⟨[], str "/a/b"⟩ ⟨[], str "/a/c"⟩ := by
  refine ⟨rfl, ?_, rfl, ?_⟩
  · rintro ⟨relative, result, _⟩
    cases result
  · rintro ⟨relative, result, back⟩
    cases result
    exact absurd back (by decide)

end Experimaestro.Files

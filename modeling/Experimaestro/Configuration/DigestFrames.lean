/-
Module: Experimaestro.Configuration.DigestFrames
Layer: Configuration
Purpose: Which values the identifier keeps apart. `Frame` is the way a value is cut into fields: kinds of
  nodes, types of scalars, presence of a task, lengths of names, keys and texts, sizes. `layout` lists what
  a frame tells about the symbols of a stream: the bytes that do not depend on the texts, the bytes that
  do, and the digests of the children. The stream holds the fields end to end without lengths, so that two
  frames can be taken for one another when their layouts agree. Values are kept apart where that does not
  happen between different frames; among the frames without arrays, all others belong to values that
  share an identifier.
Imports: Experimaestro.Configuration.Digest, Experimaestro.Configuration.Irrelevance
Trusted boundary: the model of updateDigest
Main exports: Frame, layout, Agrees, encode_inj, Plain, collide, digest_collision, digest_injective
Open obligations: whether frames with arrays whose layouts agree always belong to such values
-/
import Mathlib.Data.List.Zip
import Experimaestro.Configuration.Digest
import Experimaestro.Configuration.Irrelevance

namespace Experimaestro.Configuration

/-! ### Frames -/

/-- How a value is cut into fields. -/
inductive Frame where
  | scalar (type : ScalarType) (length : ℕ)
  | array (elements : List Frame)
  | map (typeLength : ℕ) (taskLength : Option ℕ) (children : List (ℕ × Frame))

namespace Signature

mutual

/-- The frame of a signature: every text is replaced by its length. -/
def frame : Signature → Frame
  | .scalar s => .scalar s.scalarType s.content.length
  | .array elements => .array (elementFrames elements)
  | .map type task children => .map type.length (task.map List.length) (childFrames children)

def elementFrames : List Signature → List Frame
  | [] => []
  | element :: rest => frame element :: elementFrames rest

def childFrames : List (Str × Signature) → List (ℕ × Frame)
  | [] => []
  | (key, child) :: rest => (key.length, frame child) :: childFrames rest

end

end Signature

/-- The frame of a value. -/
def Value.frame {Ty Job : Type} (types : Types Ty Job) (v : Value Ty Job) : Frame :=
  (v.signature types).frame

/-- Texts of the same length at the beginning of a stream can be read off. -/
theorem bytes_append_inj {a b : Str} {rest rest' : List Symbol} (length : a.length = b.length)
    (h : bytes a ++ rest = bytes b ++ rest') : a = b ∧ rest = rest' := by
  have lengths : (bytes a).length = (bytes b).length := by
    rw [bytes, bytes, List.length_map, List.length_map, length]
  obtain ⟨texts, rests⟩ := List.append_inj h lengths
  refine ⟨List.map_injective_iff.mpr ?_ texts, rests⟩
  intro x y same
  exact Symbol.byte.inj same

theorem taskField_inj {a b : Option Str} {rest rest' : List Symbol}
    (length : a.map List.length = b.map List.length)
    (h : bytes (taskField a) ++ rest = bytes (taskField b) ++ rest') : a = b ∧ rest = rest' := by
  cases a with
  | none =>
      cases b with
      | none => exact ⟨rfl, List.append_cancel_left h⟩
      | some b => cases length
  | some a =>
      cases b with
      | none => cases length
      | some b =>
          obtain ⟨rfl, rests⟩ := bytes_append_inj (Option.some.inj length) h
          exact ⟨rfl, rests⟩

namespace Signature

mutual

/-- Streams of signatures with the same frame: the signature and its end can be read off. -/
theorem encode_inj : ∀ (s s' : Signature) (rest rest' : List Symbol), s.frame = s'.frame →
    s.encode ++ rest = s'.encode ++ rest' → s = s' ∧ rest = rest'
  | .scalar a, .scalar b, rest, rest', frames, h => by
      rw [frame, frame, Frame.scalar.injEq] at frames
      rw [encode, encode] at h
      obtain ⟨same, rests⟩ := bytes_append_inj (by simpa [Scalar.updateDigest] using frames.2) h
      exact ⟨congrArg scalar (Scalar.updateDigest_inj same), rests⟩
  | .array as, .array bs, rest, rest', frames, h => by
      rw [frame, frame, Frame.array.injEq] at frames
      rw [encode, encode, List.append_assoc, List.append_assoc] at h
      obtain ⟨_, elements⟩ := bytes_append_inj (by simp [length_littleEndian]) h
      obtain ⟨rfl, rests⟩ := encodeElements_inj as bs rest rest' frames elements
      exact ⟨rfl, rests⟩
  | .map type task children, .map type' task' children', rest, rest', frames, h => by
      rw [frame, frame, Frame.map.injEq] at frames
      obtain ⟨types, tasks, childFrames⟩ := frames
      rw [encode, encode] at h
      simp only [List.append_assoc] at h
      obtain ⟨rfl, afterType⟩ := bytes_append_inj types h
      obtain ⟨rfl, afterTask⟩ := taskField_inj tasks afterType
      obtain ⟨rfl, rests⟩ := encodeChildren_inj children children' rest rest' childFrames afterTask
      exact ⟨rfl, rests⟩
  | .scalar _, .array _, _, _, frames, _ => by simp [frame] at frames
  | .scalar _, .map _ _ _, _, _, frames, _ => by simp [frame] at frames
  | .array _, .scalar _, _, _, frames, _ => by simp [frame] at frames
  | .array _, .map _ _ _, _, _, frames, _ => by simp [frame] at frames
  | .map _ _ _, .scalar _, _, _, frames, _ => by simp [frame] at frames
  | .map _ _ _, .array _, _, _, frames, _ => by simp [frame] at frames

theorem encodeElements_inj : ∀ (as bs : List Signature) (rest rest' : List Symbol),
    elementFrames as = elementFrames bs →
      encodeElements as ++ rest = encodeElements bs ++ rest' → as = bs ∧ rest = rest'
  | [], [], _, _, _, h => ⟨rfl, h⟩
  | a :: as, b :: bs, rest, rest', frames, h => by
      rw [elementFrames, elementFrames, List.cons.injEq] at frames
      rw [encodeElements, encodeElements, List.append_assoc, List.append_assoc] at h
      obtain ⟨rfl, others⟩ := encode_inj a b _ _ frames.1 h
      obtain ⟨rfl, rests⟩ := encodeElements_inj as bs rest rest' frames.2 others
      exact ⟨rfl, rests⟩
  | [], _ :: _, _, _, frames, _ => by simp [elementFrames] at frames
  | _ :: _, [], _, _, frames, _ => by simp [elementFrames] at frames

theorem encodeChildren_inj : ∀ (as bs : List (Str × Signature)) (rest rest' : List Symbol),
    childFrames as = childFrames bs →
      encodeChildren as ++ rest = encodeChildren bs ++ rest' → as = bs ∧ rest = rest'
  | [], [], _, _, _, h => ⟨rfl, h⟩
  | (k, a) :: as, (l, b) :: bs, rest, rest', frames, h => by
      rw [childFrames, childFrames, List.cons.injEq, Prod.mk.injEq] at frames
      obtain ⟨⟨keys, children⟩, others⟩ := frames
      rw [encodeChildren, encodeChildren, List.append_assoc, List.append_assoc] at h
      obtain ⟨rfl, afterKey⟩ := bytes_append_inj keys h
      rw [List.cons_append, List.cons_append, List.cons.injEq, Symbol.digest.injEq] at afterKey
      -- The digest of a child is a symbol of its own, so that the streams of the children agree.
      obtain ⟨rfl, _⟩ := encode_inj a b [] [] children (by rw [afterKey.1])
      obtain ⟨rfl, rests⟩ := encodeChildren_inj as bs rest rest' others afterKey.2
      exact ⟨rfl, rests⟩
  | [], _ :: _, _, _, frames, _ => by simp [childFrames] at frames
  | _ :: _, [], _, _, frames, _ => by simp [childFrames] at frames

end

end Signature

/-! ### Layouts -/

/-- What a frame tells about a symbol of the stream: a byte, which may depend on the texts, or the digest
    of a child. -/
inductive Cell where
  | byte (known : Option UInt8)
  | child (content : List Cell)

/-- Bytes of a stream that follow each other. -/
abbrev Run : Type := List (Option UInt8)

/-- The bytes of a text of this length. -/
def unknown (length : ℕ) : Run := List.replicate length none

@[simp] theorem length_unknown (length : ℕ) : (unknown length).length = length := List.length_replicate

def known (bytes : Str) : Run := bytes.map some

/-- The task field of a map: any identifier, or the `int` zero. -/
def taskRun : Option ℕ → Run
  | some length => unknown length
  | none => known (littleEndian 4 0)

def Run.cells (run : Run) : List Cell := run.map .byte

namespace Frame

mutual

/-- What a frame tells about a stream. -/
def layout : Frame → List Cell
  | .scalar type length => Run.cells (known [type.code] ++ unknown length)
  | .array elements =>
      Run.cells (known (parametersTypesArray :: littleEndian 8 elements.length)) ++ elementLayouts elements
  | .map typeLength taskLength children =>
      Run.cells (unknown typeLength ++ taskRun taskLength) ++ childLayouts children

def elementLayouts : List Frame → List Cell
  | [] => []
  | element :: rest => layout element ++ elementLayouts rest

def childLayouts : List (ℕ × Frame) → List Cell
  | [] => []
  | (keyLength, child) :: rest => Run.cells (unknown keyLength) ++ .child (layout child) :: childLayouts rest

end

end Frame

namespace Cell

mutual

/-- Two cells that one symbol can fill. -/
def Agree : Cell → Cell → Prop
  | .byte known, .byte known' => ∀ b ∈ known, ∀ b' ∈ known', b = b'
  | .child content, .child content' => Agrees content content'
  | _, _ => False

/-- Two layouts that one stream can fill. -/
def Agrees : List Cell → List Cell → Prop
  | [], [] => True
  | cell :: rest, cell' :: rest' => Agree cell cell' ∧ Agrees rest rest'
  | _, _ => False

end

mutual

/-- The symbol is one that the cell tells of. -/
def Covers : Cell → Symbol → Prop
  | .byte known, .byte value => ∀ b ∈ known, b = value
  | .child cells, .digest content => CoversAll cells content
  | _, _ => False

def CoversAll : List Cell → List Symbol → Prop
  | [], [] => True
  | cell :: rest, symbol :: symbols => Covers cell symbol ∧ CoversAll rest symbols
  | _, _ => False

end

mutual

theorem agree_of_covers : ∀ {symbol : Symbol} {cell cell' : Cell}, Covers cell symbol → Covers cell' symbol →
    Agree cell cell'
  | .byte _, .byte known, .byte known', covers, covers' => by
      rw [Covers] at covers covers'
      rw [Agree]
      intro b given b' given'
      rw [covers b given, covers' b' given']
  | .digest _, .child content, .child content', covers, covers' => by
      rw [Covers] at covers covers'
      rw [Agree]
      exact agrees_of_covers covers covers'
  | .byte _, .child _, _, covers, _ => by simp [Covers] at covers
  | .byte _, _, .child _, _, covers' => by simp [Covers] at covers'
  | .digest _, .byte _, _, covers, _ => by simp [Covers] at covers
  | .digest _, _, .byte _, _, covers' => by simp [Covers] at covers'

/-- Layouts of one stream agree. -/
theorem agrees_of_covers : ∀ {stream : List Symbol} {cells cells' : List Cell}, CoversAll cells stream →
    CoversAll cells' stream → Agrees cells cells'
  | [], [], [], _, _ => by
      rw [Agrees]
      trivial
  | symbol :: stream, cell :: rest, cell' :: rest', covers, covers' => by
      rw [CoversAll] at covers covers'
      rw [Agrees]
      exact ⟨agree_of_covers covers.1 covers'.1, agrees_of_covers covers.2 covers'.2⟩
  | [], _ :: _, _, covers, _ => by simp [CoversAll] at covers
  | [], _, _ :: _, _, covers' => by simp [CoversAll] at covers'
  | _ :: _, [], _, covers, _ => by simp [CoversAll] at covers
  | _ :: _, _, [], _, covers' => by simp [CoversAll] at covers'

end

theorem covers_append : ∀ {cells : List Cell} {stream : List Symbol} {cells' : List Cell} {stream' : List Symbol},
    CoversAll cells stream → CoversAll cells' stream' → CoversAll (cells ++ cells') (stream ++ stream')
  | [], [], _, _, _, covers => covers
  | cell :: rest, symbol :: stream, cells', stream', covers, covers' => by
      rw [CoversAll] at covers
      rw [List.cons_append, List.cons_append, CoversAll]
      exact ⟨covers.1, covers_append covers.2 covers'⟩

theorem covers_known : ∀ text : Str, CoversAll (known text).cells (bytes text)
  | [] => trivial
  | b :: rest => by
      have others := covers_known rest
      have first : Covers (.byte (some b)) (.byte b) := by
        rw [Covers]
        intro value given
        exact (Option.some.inj given).symm
      exact ⟨first, others⟩

theorem covers_unknown : ∀ text : Str, CoversAll (unknown text.length).cells (bytes text)
  | [] => trivial
  | b :: rest => by
      have others := covers_unknown rest
      have first : Covers (.byte none) (.byte b) := by
        rw [Covers]
        intro value given
        cases given
      exact ⟨first, others⟩

theorem covers_task (task : Option Str) :
    CoversAll (taskRun (task.map List.length)).cells (bytes (taskField task)) := by
  cases task with
  | none => exact covers_known _
  | some identifier => exact covers_unknown identifier

end Cell

@[simp] theorem Run.cells_append (a b : Run) : (a ++ b : Run).cells = a.cells ++ b.cells := List.map_append

theorem bytes_append (a b : Str) : bytes (a ++ b) = bytes a ++ bytes b := List.map_append

namespace Signature

theorem length_elementFrames : ∀ elements : List Signature, (elementFrames elements).length = elements.length
  | [] => rfl
  | _ :: rest => by rw [elementFrames, List.length_cons, List.length_cons, length_elementFrames rest]

mutual

/-- The layout of a frame tells of the stream. -/
theorem covers_layout : ∀ s : Signature, Cell.CoversAll s.frame.layout s.encode
  | .scalar s => by
      rw [frame, Frame.layout, Run.cells_append, encode]
      exact Cell.covers_append (Cell.covers_known [s.scalarType.code]) (Cell.covers_unknown s.content)
  | .array elements => by
      rw [frame, Frame.layout, encode, length_elementFrames]
      exact Cell.covers_append (Cell.covers_known _) (covers_elements elements)
  | .map type task children => by
      rw [frame, Frame.layout, Run.cells_append, encode]
      exact Cell.covers_append (Cell.covers_append (Cell.covers_unknown type) (Cell.covers_task task))
        (covers_children children)

theorem covers_elements : ∀ elements : List Signature,
    Cell.CoversAll (Frame.elementLayouts (elementFrames elements)) (encodeElements elements)
  | [] => trivial
  | element :: rest => by
      rw [elementFrames, Frame.elementLayouts, encodeElements]
      exact Cell.covers_append (covers_layout element) (covers_elements rest)

theorem covers_children : ∀ children : List (Str × Signature),
    Cell.CoversAll (Frame.childLayouts (childFrames children)) (encodeChildren children)
  | [] => trivial
  | (key, child) :: rest => by
      have inner : Cell.Covers (.child child.frame.layout) (.digest child.encode) := by
        rw [Cell.Covers]
        exact covers_layout child
      rw [childFrames, Frame.childLayouts, encodeChildren]
      exact Cell.covers_append (Cell.covers_unknown key) ⟨inner, covers_children rest⟩

end

/-- The layouts of signatures with one stream agree. -/
theorem agrees_of_encode {s s' : Signature} (same : s.encode = s'.encode) :
    Cell.Agrees s.frame.layout s'.frame.layout := by
  have covered := covers_layout s
  rw [same] at covered
  exact Cell.agrees_of_covers covered (covers_layout s')

end Signature

/-! ### Layouts that agree -/

namespace Cell

variable {content content' rest rest' : List Cell}

/-- The bytes between two digests are as many in both layouts. -/
theorem agrees_run : ∀ (xs ys : Run),
    Agrees (xs.cells ++ .child content :: rest) (ys.cells ++ .child content' :: rest') →
      xs.length = ys.length ∧ Agrees content content' ∧ Agrees rest rest'
  | [], [], agrees => by
      rw [Run.cells, List.map_nil, List.nil_append, List.nil_append, Agrees, Agree] at agrees
      exact ⟨rfl, agrees⟩
  | x :: xs, y :: ys, agrees => by
      obtain ⟨lengths, others⟩ := agrees_run xs ys agrees.2
      exact ⟨congrArg (· + 1) lengths, others⟩
  | [], _ :: _, agrees => by simp [Run.cells, Agrees, Agree] at agrees
  | _ :: _, [], agrees => by simp [Run.cells, Agrees, Agree] at agrees

theorem agrees_end : ∀ {xs ys : Run}, Agrees xs.cells ys.cells → xs.length = ys.length
  | [], [], _ => rfl
  | _ :: _, _ :: _, agrees => congrArg (· + 1) (agrees_end agrees.2)
  | [], _ :: _, agrees => by simp [Run.cells, Agrees] at agrees
  | _ :: _, [], agrees => by simp [Run.cells, Agrees] at agrees

/-- Bytes do not reach over a digest. -/
theorem not_agrees_left : ∀ (xs ys : Run), ¬ Agrees xs.cells (ys.cells ++ .child content :: rest)
  | [], [], agrees => by simp [Run.cells, Agrees] at agrees
  | [], _ :: _, agrees => by simp [Run.cells, Agrees] at agrees
  | _ :: _, [], agrees => by simp [Run.cells, Agrees, Agree] at agrees
  | _ :: xs, _ :: ys, agrees => not_agrees_left xs ys agrees.2

theorem not_agrees_right : ∀ (xs ys : Run), ¬ Agrees (xs.cells ++ .child content :: rest) ys.cells
  | [], [], agrees => by simp [Run.cells, Agrees] at agrees
  | _ :: _, [], agrees => by simp [Run.cells, Agrees] at agrees
  | [], _ :: _, agrees => by simp [Run.cells, Agrees, Agree] at agrees
  | _ :: xs, _ :: ys, agrees => not_agrees_right xs ys agrees.2

end Cell

namespace Frame

/-- The number of bytes of the task field. -/
def taskSize (task : Option ℕ) : ℕ := task.getD 4

theorem length_taskRun (task : Option ℕ) : (taskRun task).length = taskSize task := by
  cases task with
  | none => rfl
  | some length => exact length_unknown length

/-- What precedes the children of a map. -/
theorem length_mapRun (t : ℕ) (task : Option ℕ) : (unknown t ++ taskRun task).length = t + taskSize task := by
  rw [List.length_append, length_unknown, length_taskRun]

/-- What precedes the first digest. -/
theorem length_firstRun (t k : ℕ) (task : Option ℕ) :
    (unknown t ++ taskRun task ++ unknown k).length = t + taskSize task + k := by
  rw [List.length_append, length_mapRun, length_unknown]

/-- Children whose layouts agree have keys of the same lengths and agree one by one. -/
theorem agrees_children : ∀ {children children' : List (ℕ × Frame)},
    Cell.Agrees (childLayouts children) (childLayouts children') →
      children.map Prod.fst = children'.map Prod.fst ∧
        List.Forall₂ (fun c c' => Cell.Agrees c.2.layout c'.2.layout) children children'
  | [], [], _ => ⟨rfl, .nil⟩
  | (k, c) :: rest, (l, c') :: rest', agrees => by
      rw [childLayouts, childLayouts] at agrees
      obtain ⟨lengths, inner, others⟩ := Cell.agrees_run _ _ agrees
      obtain ⟨keys, each⟩ := agrees_children others
      rw [length_unknown, length_unknown] at lengths
      exact ⟨congrArg₂ List.cons lengths keys, .cons inner each⟩
  | [], (l, c') :: rest', agrees => by
      rw [childLayouts, childLayouts] at agrees
      exact absurd agrees (Cell.not_agrees_left [] _)
  | (k, c) :: rest, [], agrees => by
      rw [childLayouts, childLayouts] at agrees
      exact absurd agrees (Cell.not_agrees_right _ [])

end Frame

/-! ### Frames of one stream -/

/-- Names of types that `bareTypes` does not ignore. -/
def Unreserved (name : Str) : Prop := name ≠ str "path"

/-- A frame that is not ignored below a map for being that of a path. -/
def Frame.Hashed (f : Frame) : Prop := ∀ length, f ≠ .scalar .path length

namespace Signature

mutual

/-- No arrays, names of types as given, keys in order, and no paths as children. -/
def Plain (named : Str → Prop) : Signature → Prop
  | .scalar _ => True
  | .array _ => False
  | .map type _ children => named type ∧ Ordered children ∧ PlainChildren named children

def PlainChildren (named : Str → Prop) : List (Str × Signature) → Prop
  | [] => True
  | (_, child) :: rest => (Plain named child ∧ child.frame.Hashed) ∧ PlainChildren named rest

end

theorem plainChildren_of_forall {named : Str → Prop} :
    ∀ {children : List (Str × Signature)}, (∀ c ∈ children, Plain named c.2 ∧ c.2.frame.Hashed) →
      PlainChildren named children
  | [], _ => trivial
  | (key, child) :: rest, each => by
      rw [PlainChildren]
      constructor
      · exact each (key, child) List.mem_cons_self
      · exact plainChildren_of_forall fun c mem => each c (List.mem_cons_of_mem _ mem)

theorem childFrames_eq_map : ∀ children : List (Str × Signature),
    childFrames children = children.map fun c => (c.1.length, c.2.frame)
  | [] => rfl
  | (key, child) :: rest => by rw [childFrames, childFrames_eq_map rest, List.map_cons]

/-- The keys decide how many children are fed, and their streams what is fed. -/
theorem encodeChildren_zip : ∀ {keys : List Str} {ds ds' : List Signature}, ds.map encode = ds'.map encode →
    encodeChildren (keys.zip ds) = encodeChildren (keys.zip ds')
  | [], _, _, _ => rfl
  | _ :: _, [], [], _ => rfl
  | key :: keys, d :: ds, d' :: ds', same => by
      rw [List.map_cons, List.map_cons, List.cons.injEq] at same
      rw [List.zip_cons_cons, List.zip_cons_cons, encodeChildren, encodeChildren, same.1,
        encodeChildren_zip same.2]
  | _ :: _, [], _ :: _, same => by simp at same
  | _ :: _, _ :: _, [], same => by simp at same

/-- Two plain signatures with these frames and one stream. -/
def Collide (f f' : Frame) : Prop :=
  ∃ d d' : Signature, d.frame = f ∧ d'.frame = f' ∧ d.Plain Unreserved ∧ d'.Plain Unreserved ∧
    d.encode = d'.encode

theorem Collide.symm {f f' : Frame} (h : Collide f f') : Collide f' f := by
  obtain ⟨d, d', frame, frame', plain, plain', same⟩ := h
  exact ⟨d', d, frame', frame, plain', plain, same.symm⟩

/-- Frames that collide one by one, as two lists. -/
theorem collide_lists {fs fs' : List Frame} (h : List.Forall₂ Collide fs fs') :
    ∃ ds ds' : List Signature, ds.map frame = fs ∧ ds'.map frame = fs' ∧ (∀ d ∈ ds, d.Plain Unreserved) ∧
      (∀ d ∈ ds', d.Plain Unreserved) ∧ ds.map encode = ds'.map encode := by
  induction h with
  | nil =>
      refine ⟨[], [], rfl, rfl, ?_, ?_, rfl⟩
      · intro d mem
        cases mem
      · intro d mem
        cases mem
  | cons first _ ih =>
      obtain ⟨d, d', frame, frame', plain, plain', same⟩ := first
      obtain ⟨ds, ds', frames, frames', plains, plains', sames⟩ := ih
      refine ⟨d :: ds, d' :: ds', ?_, ?_, ?_, ?_, ?_⟩
      · rw [List.map_cons, frame, frames]
      · rw [List.map_cons, frame', frames']
      · exact List.forall_mem_cons.mpr ⟨plain, plains⟩
      · exact List.forall_mem_cons.mpr ⟨plain', plains'⟩
      · rw [List.map_cons, List.map_cons, same, sames]

end Signature

/-- A text of zero bytes. -/
def blank (length : ℕ) : Str := List.replicate length 0

@[simp] theorem length_blank (length : ℕ) : (blank length).length = length := List.length_replicate

theorem bytes_blank (a b : ℕ) (rest : List Symbol) :
    bytes (blank a) ++ (bytes (blank b) ++ rest) = bytes (blank (a + b)) ++ rest := by
  rw [← List.append_assoc, ← bytes_append, blank, blank, List.replicate_append_replicate, blank]

theorem taskField_blank (task : Option ℕ) : taskField (task.map blank) = blank (Frame.taskSize task) := by
  cases task with
  | none => rfl
  | some length => rfl

theorem length_task_blank (task : Option ℕ) : (task.map blank).map List.length = task := by
  cases task with
  | none => rfl
  | some length => exact congrArg some (length_blank length)

theorem blank_unreserved (length : ℕ) : Unreserved (blank length) := by
  intro same
  have first : (112 : UInt8) ∈ blank length := by
    rw [same]
    decide
  exact absurd (List.eq_of_mem_replicate first) (by decide)

/-- Zero bytes are before whatever comes after a text that is not shorter. -/
theorem keyLess_blank {length : ℕ} {key other : Str} (shorter : length ≤ key.length)
    (less : keyLess key other = true) : keyLess (blank length) other = true := by
  induction length generalizing key other with
  | zero =>
      cases other with
      | nil =>
          rw [keyLess] at less
          cases less
      | cons b other => rfl
  | succ length ih =>
      cases key with
      | nil => exact absurd shorter (Nat.not_succ_le_zero length)
      | cons a key =>
          cases other with
          | nil =>
              rw [keyLess] at less
              cases less
          | cons b other =>
              rw [keyLess, Bool.or_eq_true, Bool.and_eq_true, decide_eq_true_iff, beq_iff_eq] at less
              change (decide ((0 : UInt8) < b) || ((0 : UInt8) == b && keyLess (blank length) other)) = true
              rw [Bool.or_eq_true, Bool.and_eq_true, decide_eq_true_iff, beq_iff_eq]
              by_cases zero : b = 0
              · subst zero
                apply Or.inr
                obtain below | ⟨_, others⟩ := less
                · exact absurd below UInt8.not_lt_zero
                · exact ⟨rfl, ih (Nat.le_of_succ_le_succ shorter) others⟩
              · exact Or.inl (UInt8.pos_iff_ne_zero.mpr zero)

/-- A scalar of the same type and size, with zero bytes as content. -/
def Scalar.blank : Scalar → Scalar
  | .unset => .unset
  | .none => .none
  | .integer _ => .integer 0
  | .real _ => .real 0
  | .string text => .string (Configuration.blank text.length)
  | .path text => .path (Configuration.blank text.length)
  | .boolean _ => .boolean false

theorem Scalar.blank_type (s : Scalar) : s.blank.scalarType = s.scalarType := by
  cases s <;> rfl

theorem Scalar.blank_content (s : Scalar) : s.blank.content = Configuration.blank s.content.length := by
  cases s with
  | string text => exact (congrArg Configuration.blank rfl)
  | path text => exact (congrArg Configuration.blank rfl)
  | integer value =>
      rw [content, length_littleEndian]
      rfl
  | real bits =>
      rw [content, length_littleEndian]
      rfl
  | _ => rfl

namespace Signature

/-- Two maps without children, with as many bytes each. -/
theorem collide_empty {t t' : ℕ} {task task' : Option ℕ}
    (total : t + Frame.taskSize task = t' + Frame.taskSize task') :
    Collide (.map t task []) (.map t' task' []) := by
  refine ⟨.map (blank t) (task.map blank) [], .map (blank t') (task'.map blank) [], ?_, ?_, ?_, ?_, ?_⟩
  · rw [frame, length_blank, length_task_blank, childFrames]
  · rw [frame, length_blank, length_task_blank, childFrames]
  · exact ⟨blank_unreserved t, List.Pairwise.nil, trivial⟩
  · exact ⟨blank_unreserved t', List.Pairwise.nil, trivial⟩
  · rw [encode, encode, taskField_blank, taskField_blank, encodeChildren, List.append_assoc, List.append_assoc,
      bytes_blank, bytes_blank, total]

/-- A map of zero bytes, with children to come. -/
def blankMap (t : ℕ) (task : Option ℕ) (k : ℕ) (d : Signature) (keys : List Str) (ds : List Signature) :
    Signature :=
  .map (blank t) (task.map blank) ((blank k, d) :: keys.zip ds)

theorem frame_blankMap (t : ℕ) (task : Option ℕ) (k : ℕ) (d : Signature) (keys : List Str) (ds : List Signature) :
    (blankMap t task k d keys ds).frame =
      .map t task ((k, d.frame) :: (keys.map List.length).zip (ds.map frame)) := by
  rw [blankMap, frame, length_blank, length_task_blank, childFrames, length_blank, childFrames_eq_map,
    List.zip_map]
  rfl

theorem encode_blankMap (t : ℕ) (task : Option ℕ) (k : ℕ) (d : Signature) (keys : List Str) (ds : List Signature) :
    (blankMap t task k d keys ds).encode =
      bytes (blank (t + Frame.taskSize task + k)) ++ .digest d.encode :: encodeChildren (keys.zip ds) := by
  rw [blankMap, encode, encodeChildren, taskField_blank, List.append_assoc, bytes_blank, bytes_blank]

theorem plain_blankMap {t : ℕ} {task : Option ℕ} {k : ℕ} {d : Signature} {keys : List Str}
    {ds : List Signature} (size : keys.length = ds.length)
    (sorted : (blank k :: keys).Pairwise fun a b => keyLess a b = true)
    (plain : ∀ e ∈ d :: ds, e.Plain Unreserved) (hashed : ∀ e ∈ d :: ds, e.frame.Hashed) :
    (blankMap t task k d keys ds).Plain Unreserved := by
  refine ⟨blank_unreserved t, ?_, ?_⟩
  · have names : ((blank k, d) :: keys.zip ds).map Prod.fst = blank k :: keys := by
      rw [List.map_cons, List.map_fst_zip (Nat.le_of_eq size)]
    rw [← names] at sorted
    exact List.pairwise_map.mp sorted
  · apply plainChildren_of_forall
    intro c mem
    have inside : c.2 ∈ d :: ds := by
      rw [← List.zip_cons_cons] at mem
      exact (List.of_mem_zip mem).2
    exact ⟨plain c.2 inside, hashed c.2 inside⟩

/-- Two maps with children that collide one by one: the first key takes what type and task leave of it. -/
theorem collide_map {t t' k l : ℕ} {task task' : Option ℕ} {f f' : Frame} {keys : List Str} {fs fs' : List Frame}
    (total : t + Frame.taskSize task + k = t' + Frame.taskSize task' + l) (first : Collide f f')
    (others : List.Forall₂ Collide fs fs') (size : keys.length = fs.length)
    (hashed : ∀ g ∈ f :: fs, g.Hashed) (hashed' : ∀ g ∈ f' :: fs', g.Hashed)
    (sorted : (blank k :: keys).Pairwise fun a b => keyLess a b = true)
    (sorted' : (blank l :: keys).Pairwise fun a b => keyLess a b = true) :
    Collide (.map t task ((k, f) :: (keys.map List.length).zip fs))
      (.map t' task' ((l, f') :: (keys.map List.length).zip fs')) := by
  obtain ⟨d, d', rfl, rfl, plain, plain', same⟩ := first
  have sizes := others.length_eq
  obtain ⟨ds, ds', rfl, rfl, plains, plains', sames⟩ := collide_lists others
  rw [List.length_map] at size
  rw [List.length_map, List.length_map] at sizes
  rw [← List.map_cons] at hashed hashed'
  refine ⟨blankMap t task k d keys ds, blankMap t' task' l d' keys ds', ?_, ?_, ?_, ?_, ?_⟩
  · exact frame_blankMap t task k d keys ds
  · exact frame_blankMap t' task' l d' keys ds'
  · exact plain_blankMap size sorted (List.forall_mem_cons.mpr ⟨plain, plains⟩) (List.forall_mem_map.mp hashed)
  · exact plain_blankMap (size.trans sizes) sorted' (List.forall_mem_cons.mpr ⟨plain', plains'⟩)
      (List.forall_mem_map.mp hashed')
  · rw [encode_blankMap, encode_blankMap, total, same, encodeChildren_zip sames]

/-- The name of a type that begins with the tag of a scalar. -/
theorem tagged_unreserved (type : ScalarType) (length : ℕ) : Unreserved (type.code :: blank length) := by
  intro same
  have first : type.code = 112 := (List.cons.inj same).1
  cases type <;> exact absurd first (by decide)

/-- A scalar and a map without children: the tag is the beginning of the name of the type, or of the task. -/
theorem collide_scalar (s : Scalar) {t : ℕ} {task : Option ℕ}
    (agrees : Cell.Agrees (Frame.scalar s.scalarType s.content.length).layout (Frame.map t task []).layout) :
    Collide (.scalar s.scalarType s.content.length) (.map t task []) := by
  have total : 1 + s.content.length = t + Frame.taskSize task := by
    rw [Frame.layout, Frame.layout, Frame.childLayouts, List.append_nil] at agrees
    have lengths := Cell.agrees_end agrees
    rwa [List.length_append, known, List.length_map, length_unknown, Frame.length_mapRun] at lengths
  have read (type : Str) (identifier : Option Str) (named : Unreserved type) (length : type.length = t)
      (lengths : identifier.map List.length = task)
      (split : type ++ taskField identifier = s.scalarType.code :: blank s.content.length) :
      Collide (.scalar s.scalarType s.content.length) (.map t task []) := by
    refine ⟨.scalar s.blank, .map type identifier [], ?_, ?_, trivial, ?_, ?_⟩
    · rw [frame, Scalar.blank_type, Scalar.blank_content, length_blank]
    · rw [frame, length, lengths, childFrames]
    · exact ⟨named, List.Pairwise.nil, trivial⟩
    · rw [encode, encode, encodeChildren, List.append_nil, ← bytes_append, split, Scalar.updateDigest,
        Scalar.blank_type, Scalar.blank_content]
  cases t with
  | succ t =>
      apply read (s.scalarType.code :: blank t) (task.map blank)
      · exact tagged_unreserved s.scalarType t
      · rw [List.length_cons, length_blank]
      · exact length_task_blank task
      · have size : s.content.length = t + Frame.taskSize task := by omega
        rw [taskField_blank, size, List.cons_append, blank, blank, List.replicate_append_replicate, blank]
  | zero =>
      cases task with
      | some length =>
          have size : length = 1 + s.content.length := by
            rw [total, Frame.taskSize, Option.getD_some, Nat.zero_add]
          apply read [] (some (s.scalarType.code :: blank s.content.length))
          · exact blank_unreserved 0
          · rfl
          · rw [Option.map_some, List.length_cons, length_blank, size, Nat.add_comm]
          · rfl
      | none =>
          -- The first byte of the missing task would be the tag of an unset scalar, which has no content.
          have tag : s.scalarType.code = ScalarType.unset.code := agrees.1 _ rfl _ rfl
          have type : s.scalarType = .unset := ScalarType.code_inj tag
          cases s <;> cases type
          exact absurd total (by decide)

end Signature

namespace Cell

mutual

theorem Agree.symm : ∀ {cell cell' : Cell}, Agree cell cell' → Agree cell' cell
  | .byte known, .byte known', agree => by
      rw [Agree] at agree ⊢
      intro b given b' given'
      exact (agree b' given' b given).symm
  | .child content, .child content', agree => by
      rw [Agree] at agree ⊢
      exact agree.symm
  | .byte _, .child _, agree => by simp [Agree] at agree
  | .child _, .byte _, agree => by simp [Agree] at agree

theorem Agrees.symm : ∀ {cells cells' : List Cell}, Agrees cells cells' → Agrees cells' cells
  | [], [], agrees => agrees
  | cell :: rest, cell' :: rest', agrees => by
      rw [Agrees] at agrees ⊢
      exact ⟨agrees.1.symm, agrees.2.symm⟩
  | [], _ :: _, agrees => by simp [Agrees] at agrees
  | _ :: _, [], agrees => by simp [Agrees] at agrees

end

end Cell

namespace Signature

theorem hashed_of_plain {named : Str → Prop} : ∀ {children : List (Str × Signature)},
    PlainChildren named children → ∀ g ∈ children.map (fun c => c.2.frame), g.Hashed
  | [], _, _, mem => absurd mem List.not_mem_nil
  | (_, _) :: rest, plain, g, mem => by
      rw [PlainChildren] at plain
      cases mem with
      | head => exact plain.1.2
      | tail _ mem => exact hashed_of_plain plain.2 g mem

/-- Keys that may follow both first keys: those that follow the longer one. -/
theorem exists_keys {k l : Str} {a b : Signature} {as bs : List (Str × Signature)}
    (ordered : Ordered ((k, a) :: as)) (ordered' : Ordered ((l, b) :: bs))
    (lengths : as.map (fun c => c.1.length) = bs.map fun c => c.1.length) :
    ∃ keys : List Str, keys.map List.length = as.map (fun c => c.1.length) ∧
      (blank k.length :: keys).Pairwise (fun a b => keyLess a b = true) ∧
        (blank l.length :: keys).Pairwise fun a b => keyLess a b = true := by
  have follow {k : Str} {a : Signature} {as : List (Str × Signature)} (ordered : Ordered ((k, a) :: as))
      (length : ℕ) (shorter : length ≤ k.length) :
      (blank length :: as.map Prod.fst).Pairwise fun a b => keyLess a b = true := by
    obtain ⟨first, others⟩ := List.pairwise_cons.mp ordered
    constructor
    · intro other mem
      obtain ⟨c, inside, rfl⟩ := List.mem_map.mp mem
      exact keyLess_blank shorter (first c inside)
    · exact List.pairwise_map.mpr others
  obtain shorter | shorter := Nat.le_total k.length l.length
  · refine ⟨bs.map Prod.fst, ?_, follow ordered' _ shorter, follow ordered' _ (Nat.le_refl _)⟩
    rw [List.map_map, lengths]
    rfl
  · refine ⟨as.map Prod.fst, ?_, follow ordered _ (Nat.le_refl _), follow ordered _ shorter⟩
    rw [List.map_map]
    rfl

theorem childFrames_eq_zip {keys : List Str} {children : List (Str × Signature)}
    (lengths : keys.map List.length = children.map fun c => c.1.length) :
    childFrames children = (keys.map List.length).zip (children.map fun c => c.2.frame) := by
  rw [childFrames_eq_map, lengths, List.zip_map']

theorem layout_first {t k : ℕ} {task : Option ℕ} {f : Frame} {children : List (ℕ × Frame)} :
    (Frame.map t task ((k, f) :: children)).layout =
      Run.cells (unknown t ++ taskRun task ++ unknown k) ++ .child f.layout :: Frame.childLayouts children := by
  rw [Frame.layout, Frame.childLayouts, Run.cells_append _ (unknown k), List.append_assoc]

mutual

/-- Plain signatures whose layouts agree have the frames of one stream. -/
theorem collide : ∀ s s' : Signature, s.Plain (fun _ => True) → s'.Plain (fun _ => True) →
    Cell.Agrees s.frame.layout s'.frame.layout → Collide s.frame s'.frame
  | .scalar a, .scalar b, _, _, agrees => by
      have tags : a.scalarType.code = b.scalarType.code := agrees.1 _ rfl _ rfl
      have lengths := Cell.agrees_end agrees
      rw [List.length_append, List.length_append, length_unknown, length_unknown] at lengths
      have sizes : a.content.length = b.content.length := Nat.add_left_cancel lengths
      refine ⟨.scalar a, .scalar a, rfl, ?_, trivial, trivial, rfl⟩
      rw [frame, frame, ScalarType.code_inj tags, sizes]
  | .scalar a, .map type task [], _, _, agrees => collide_scalar a agrees
  | .map type task [], .scalar a, _, _, agrees => (collide_scalar a agrees.symm).symm
  | .map type task [], .map type' task' [], _, _, agrees => by
      rw [frame, frame, childFrames, Frame.layout, Frame.layout, Frame.childLayouts, List.append_nil,
        List.append_nil] at agrees
      have lengths := Cell.agrees_end agrees
      rw [Frame.length_mapRun, Frame.length_mapRun] at lengths
      exact collide_empty lengths
  | .map type task ((k, a) :: as), .map type' task' ((l, b) :: bs), plain, plain', agrees => by
      rw [frame, frame, childFrames, childFrames, layout_first, layout_first] at agrees
      obtain ⟨_, ordered, plains⟩ := plain
      obtain ⟨_, ordered', plains'⟩ := plain'
      obtain ⟨lengths, inner, others⟩ := Cell.agrees_run _ _ agrees
      obtain ⟨keyLengths, each⟩ := Frame.agrees_children others
      rw [Frame.length_firstRun, Frame.length_firstRun] at lengths
      rw [childFrames_eq_map, childFrames_eq_map, List.map_map, List.map_map] at keyLengths
      have hashed := hashed_of_plain plains
      have hashed' := hashed_of_plain plains'
      obtain ⟨⟨plainFirst, _⟩, plainOthers⟩ := plains
      obtain ⟨⟨plainFirst', _⟩, plainOthers'⟩ := plains'
      have first := collide a b plainFirst plainFirst' inner
      have rest := collideChildren as bs plainOthers plainOthers' each
      obtain ⟨keys, sizes, sorted, sorted'⟩ := exists_keys ordered ordered' keyLengths
      rw [frame, frame, childFrames, childFrames, childFrames_eq_zip sizes,
        childFrames_eq_zip (sizes.trans keyLengths)]
      apply collide_map lengths first rest _ hashed hashed' sorted sorted'
      have counts := congrArg List.length sizes
      rw [List.length_map, List.length_map] at counts
      rw [counts, List.length_map]
  | .scalar a, .map type task ((k, b) :: bs), _, _, agrees => by
      rw [frame, frame, childFrames, layout_first] at agrees
      exact absurd agrees (Cell.not_agrees_left _ _)
  | .map type task ((k, a) :: as), .scalar b, _, _, agrees => by
      rw [frame, frame, childFrames, layout_first] at agrees
      exact absurd agrees (Cell.not_agrees_right _ _)
  | .map type task [], .map type' task' ((l, b) :: bs), _, _, agrees => by
      rw [frame, frame, childFrames, childFrames, layout_first, Frame.layout, Frame.childLayouts,
        List.append_nil] at agrees
      exact absurd agrees (Cell.not_agrees_left _ _)
  | .map type task ((k, a) :: as), .map type' task' [], _, _, agrees => by
      rw [frame, frame, childFrames, childFrames, layout_first, Frame.layout, Frame.childLayouts,
        List.append_nil] at agrees
      exact absurd agrees (Cell.not_agrees_right _ _)
  | .array _, _, plain, _, _ => by simp [Plain] at plain
  | _, .array _, _, plain, _ => by simp [Plain] at plain

theorem collideChildren : ∀ as bs : List (Str × Signature), PlainChildren (fun _ => True) as →
    PlainChildren (fun _ => True) bs →
      List.Forall₂ (fun c c' => Cell.Agrees c.2.layout c'.2.layout) (childFrames as) (childFrames bs) →
        List.Forall₂ Collide (as.map fun c => c.2.frame) (bs.map fun c => c.2.frame)
  | [], [], _, _, _ => .nil
  | (k, a) :: as, (l, b) :: bs, plain, plain', agrees => by
      rw [childFrames, childFrames] at agrees
      cases agrees with
      | cons inner others =>
          have first := collide a b plain.1.1 plain'.1.1 inner
          exact .cons first (collideChildren as bs plain.2 plain'.2 others)
  | [], _ :: _, _, _, agrees => by cases agrees
  | _ :: _, [], _, _, agrees => by cases agrees

end

end Signature

/-! ### Values of a frame -/

mutual

/-- No arrays. -/
def Frame.Flat : Frame → Prop
  | .scalar _ _ => True
  | .array _ => False
  | .map _ _ children => Frame.FlatChildren children

def Frame.FlatChildren : List (ℕ × Frame) → Prop
  | [] => True
  | (_, child) :: rest => child.Flat ∧ Frame.FlatChildren rest

end

namespace Value

mutual

/-- The keys of every map are in the order of `std::map`. -/
def Sorted {Ty Job : Type} : Value Ty Job → Prop
  | .scalar _ _ => True
  | .array _ _ elements => SortedElements elements
  | .map _ _ _ _ children => Ordered children ∧ SortedChildren children

def SortedElements {Ty Job : Type} : List (Value Ty Job) → Prop
  | [] => True
  | element :: rest => Sorted element ∧ SortedElements rest

def SortedChildren {Ty Job : Type} : List (Str × Value Ty Job) → Prop
  | [] => True
  | (_, child) :: rest => Sorted child ∧ SortedChildren rest

end

section

variable {Ty Job : Type} (types : Types Ty Job)

/-- The frame of a child that is not ignored is not that of a path. -/
theorem hashed_of_canIgnore {v : Value Ty Job} (kept : ¬ v.canIgnore types = true) :
    (v.signature types).frame.Hashed := by
  intro length same
  apply kept
  cases v with
  | scalar flags s =>
      rw [signature, Signature.frame] at same
      have path := (Frame.scalar.inj same).1
      have ignorable : types.canIgnoreOf (type types (.scalar flags s)) = true := by
        rw [type, path]
        exact types.path_canIgnore
      rw [canIgnore, ignorable, Bool.or_true, Bool.true_or]
  | array flags ctype elements =>
      rw [signature, Signature.frame] at same
      cases same
  | map flags type task job children =>
      rw [signature, Signature.frame] at same
      cases same

theorem childSignatures_sublist (children : List (Str × Value Ty Job)) :
    ((childSignatures types children).map Prod.fst).Sublist (children.map Prod.fst) := by
  induction children with
  | nil => exact .slnil
  | cons entry rest ih =>
      rw [childSignatures, List.map_cons]
      split
      · exact ih.cons entry.1
      · exact ih.cons_cons entry.1

mutual

theorem plain_of_sorted : ∀ v : Value Ty Job, v.Sorted → (v.signature types).frame.Flat →
    (v.signature types).Plain fun _ => True
  | .scalar _ _, _, _ => trivial
  | .array _ _ _, _, flat => by simp [signature, Signature.frame, Frame.Flat] at flat
  | .map _ type task _ children, sorted, flat => by
      rw [Sorted] at sorted
      rw [signature, Signature.frame, Frame.Flat] at flat
      rw [signature, Signature.Plain]
      refine ⟨trivial, ?_, plain_children children sorted.2 flat⟩
      have keys : (children.map Prod.fst).Pairwise fun a b => keyLess a b = true :=
        List.pairwise_map.mpr sorted.1
      exact List.pairwise_map.mp (keys.sublist (childSignatures_sublist types children))

theorem plain_children : ∀ children : List (Str × Value Ty Job), SortedChildren children →
    Frame.FlatChildren (Signature.childFrames (childSignatures types children)) →
      Signature.PlainChildren (fun _ => True) (childSignatures types children)
  | [], _, _ => trivial
  | (key, child) :: rest, sorted, flat => by
      rw [SortedChildren] at sorted
      rw [childSignatures] at flat ⊢
      by_cases ignored : child.canIgnore types = true
      · rw [if_pos ignored] at flat ⊢
        exact plain_children rest sorted.2 flat
      · rw [if_neg ignored] at flat ⊢
        rw [Signature.childFrames, Frame.FlatChildren] at flat
        rw [Signature.PlainChildren]
        exact ⟨⟨plain_of_sorted child sorted.1 flat.1, hashed_of_canIgnore types ignored⟩,
          plain_children rest sorted.2 flat.2⟩

end

end

end Value

namespace Signature

section

variable (Job : Type)

mutual

/-- A value with this signature, over types that are given by their names. -/
def toValue : Signature → Value Str Job
  | .scalar s => .scalar {} s
  | .array elements => .array {} (.base (str "any")) (toValues elements)
  | .map type task children => .map {} (.base type) task none (toChildren children)

def toValues : List Signature → List (Value Str Job)
  | [] => []
  | element :: rest => toValue element :: toValues rest

def toChildren : List (Str × Signature) → List (Str × Value Str Job)
  | [] => []
  | (key, child) :: rest => (key, toValue child) :: toChildren rest

end

/-- A plain child is hashed. -/
theorem canIgnore_toValue {s : Signature} (plain : s.Plain Unreserved) (hashed : s.frame.Hashed) :
    ¬ (toValue Job s).canIgnore (bareTypes Job) = true := by
  cases s with
  | scalar s =>
      cases s with
      | path text => exact absurd rfl (hashed text.length)
      | _ => exact Bool.false_ne_true
  | array elements => simp [Plain] at plain
  | map type task children =>
      have other : (type == str "path") = false := beq_eq_false_iff_ne.mpr plain.1
      intro ignored
      change (false || type == str "path" || false) = true at ignored
      rw [other] at ignored
      cases ignored

mutual

theorem signature_toValue : ∀ s : Signature, s.Plain Unreserved →
    (toValue Job s).signature (bareTypes Job) = s
  | .scalar _, _ => rfl
  | .array _, plain => by simp [Plain] at plain
  | .map type task children, plain => by
      rw [Plain] at plain
      rw [toValue, Value.signature, signature_toChildren children plain.2.2]
      rfl

theorem signature_toChildren : ∀ children : List (Str × Signature), PlainChildren Unreserved children →
    Value.childSignatures (bareTypes Job) (toChildren Job children) = children
  | [], _ => rfl
  | (key, child) :: rest, plain => by
      rw [PlainChildren] at plain
      rw [toChildren, Value.childSignatures, if_neg (canIgnore_toValue Job plain.1.1 plain.1.2),
        signature_toValue child plain.1.1, signature_toChildren rest plain.2]

end

theorem keys_toChildren : ∀ children : List (Str × Signature),
    (toChildren Job children).map Prod.fst = children.map Prod.fst
  | [] => rfl
  | (key, child) :: rest => by rw [toChildren, List.map_cons, List.map_cons, keys_toChildren rest]

mutual

theorem sorted_toValue : ∀ s : Signature, s.Plain Unreserved → (toValue Job s).Sorted
  | .scalar _, _ => trivial
  | .array _, plain => by simp [Plain] at plain
  | .map type task children, plain => by
      rw [Plain] at plain
      rw [toValue, Value.Sorted]
      have keys : ((toChildren Job children).map Prod.fst).Pairwise fun a b => keyLess a b = true := by
        rw [keys_toChildren]
        exact List.pairwise_map.mpr plain.2.1
      exact ⟨List.pairwise_map.mp keys, sorted_toChildren children plain.2.2⟩

theorem sorted_toChildren : ∀ children : List (Str × Signature), PlainChildren Unreserved children →
    Value.SortedChildren (toChildren Job children)
  | [], _ => trivial
  | (key, child) :: rest, plain => by
      rw [PlainChildren] at plain
      rw [toChildren, Value.SortedChildren]
      exact ⟨sorted_toValue child plain.1.1, sorted_toChildren rest plain.2⟩

end

end

end Signature

/-! ### The result -/

/-- The type `ab` of task `c` and the type `a` of task `bc`: one identifier for two configurations. -/
theorem digest_collision :
    let v : Value Str Unit := .map {} (.base (str "ab")) (some (str "c")) none []
    let w : Value Str Unit := .map {} (.base (str "a")) (some (str "bc")) none []
    v.updateDigest (bareTypes Unit) = w.updateDigest (bareTypes Unit) ∧
      v.uniqueIdentifier (bareTypes Unit) = w.uniqueIdentifier (bareTypes Unit) ∧
      v.signature (bareTypes Unit) ≠ w.signature (bareTypes Unit) := by
  refine ⟨rfl, rfl, fun same => ?_⟩
  rw [Value.signature, Value.signature, Signature.map.injEq] at same
  exact absurd same.1 (by decide)

/-- The array `["a\x04b", "c"]` reads as the array `["a", "b\x04c"]`: the byte 4 is the tag of a string. -/
example :
    (Value.array {} (.base (str "string"))
      [.scalar {} (.string [97, 4, 98]), .scalar {} (.string [99])] : Value Str Unit).updateDigest
        (bareTypes Unit) =
    (Value.array {} (.base (str "string"))
      [.scalar {} (.string [97]), .scalar {} (.string [98, 4, 99])] : Value Str Unit).updateDigest
        (bareTypes Unit) := rfl

/-- The two frames cannot be taken for one another, unless they are the same. -/
def Frame.Apart (f f' : Frame) : Prop := Cell.Agrees f.layout f'.layout → f = f'

/-- Values whose frames are apart have different streams or the same signature; and the frames of two values
    without arrays that are not apart are those of two values with one stream and different signatures. -/
theorem digest_injective {Ty Job : Type} (types : Types Ty Job) (v w : Value Ty Job) :
    ((v.frame types).Apart (w.frame types) → v.updateDigest types = w.updateDigest types →
      v.signature types = w.signature types) ∧
    (v.Sorted → w.Sorted → (v.frame types).Flat → (w.frame types).Flat →
      ¬ (v.frame types).Apart (w.frame types) → ∃ v' w' : Value Str Job,
        v'.frame (bareTypes Job) = v.frame types ∧ w'.frame (bareTypes Job) = w.frame types ∧
          v'.Sorted ∧ w'.Sorted ∧ v'.updateDigest (bareTypes Job) = w'.updateDigest (bareTypes Job) ∧
            v'.signature (bareTypes Job) ≠ w'.signature (bareTypes Job)) := by
  constructor
  · intro apart same
    have streams : (v.signature types).encode = (w.signature types).encode := by
      rw [← Value.updateDigest_eq_encode, ← Value.updateDigest_eq_encode, same]
    apply (Signature.encode_inj _ _ [] [] (apart (Signature.agrees_of_encode streams)) _).1
    rw [streams]
  · intro sorted sorted' flat flat' confused
    obtain ⟨agrees, other⟩ := Classical.not_imp.mp confused
    obtain ⟨d, d', frame, frame', plain, plain', same⟩ :=
      Signature.collide _ _ (Value.plain_of_sorted types v sorted flat)
        (Value.plain_of_sorted types w sorted' flat') agrees
    have written := Signature.signature_toValue Job d plain
    have written' := Signature.signature_toValue Job d' plain'
    refine ⟨d.toValue Job, d'.toValue Job, ?_, ?_, Signature.sorted_toValue Job d plain,
      Signature.sorted_toValue Job d' plain', ?_, ?_⟩
    · rw [Value.frame, written, frame]
      rfl
    · rw [Value.frame, written', frame']
      rfl
    · rw [Value.updateDigest_eq_encode, Value.updateDigest_eq_encode, written, written', same]
    · rw [written, written']
      intro equal
      apply other
      rw [Value.frame, Value.frame, ← frame, ← frame', equal]

/-- A default that is ignored, and the two maps of `digest_collision`. -/
theorem digest_injective_pair :
    let plain : Value Str Unit := .map {} (.base (str "ab")) none none []
    let filled : Value Str Unit :=
      .map {} (.base (str "ab")) none none [(str "x", .scalar ({ isDefault := true } : Flags) (.integer 3))]
    let v : Value Str Unit := .map {} (.base (str "ab")) (some (str "c")) none []
    let w : Value Str Unit := .map {} (.base (str "a")) (some (str "bc")) none []
    plain.signature (bareTypes Unit) = filled.signature (bareTypes Unit) ∧
      ∃ v' w' : Value Str Unit,
        v'.frame (bareTypes Unit) = v.frame (bareTypes Unit) ∧
          w'.frame (bareTypes Unit) = w.frame (bareTypes Unit) ∧ v'.Sorted ∧ w'.Sorted ∧
            v'.updateDigest (bareTypes Unit) = w'.updateDigest (bareTypes Unit) ∧
              v'.signature (bareTypes Unit) ≠ w'.signature (bareTypes Unit) := by
  intro plain filled v w
  have apart : (plain.frame (bareTypes Unit)).Apart (filled.frame (bareTypes Unit)) := fun _ => rfl
  have confused : ¬ (v.frame (bareTypes Unit)).Apart (w.frame (bareTypes Unit)) := by
    intro apart
    have agrees : Cell.Agrees (v.frame (bareTypes Unit)).layout (w.frame (bareTypes Unit)).layout := by
      simp [v, w, Value.frame, Value.signature, Value.childSignatures, Signature.frame, Signature.childFrames,
        Frame.layout, Frame.childLayouts, taskRun, unknown, Run.cells, Cell.Agrees, Cell.Agree, Types.nameOf,
        bareTypes, str]
    have lengths := (Frame.map.inj (apart agrees)).1
    exact absurd lengths (by decide)
  have leaf (type task : Str) : (Value.map {} (.base type) (some task) none [] : Value Str Unit).Sorted :=
    ⟨List.Pairwise.nil, trivial⟩
  exact ⟨(digest_injective (bareTypes Unit) plain filled).1 apart rfl,
    (digest_injective (bareTypes Unit) v w).2 (leaf _ _) (leaf _ _) trivial trivial confused⟩

end Experimaestro.Configuration

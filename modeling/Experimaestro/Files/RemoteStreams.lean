/-
Module: Experimaestro.Files.RemoteStreams
Layer: Files
Purpose: The output stream of a remote file. Bytes are buffered, and a full buffer is written before the next byte is
  put into it. A write that fails throws, and a short one makes the stream bad; but the destructor, which writes what
  is left, does not look at what the write returns.
Imports: Mathlib.Tactic.Common
Trusted boundary: human-reviewed model of sftpstreambuf and osftpstream over a stream that sets its badbit when a byte
  is refused or an exception is thrown
Main exports: RemoteStream, flush, overflow, put, destroy, Complete, remote_file_complete
Open obligations: none
-/
import Mathlib.Tactic.Common

namespace Experimaestro.Files

/-! ### The stream -/

/-- The size of the buffer. -/
def capacity : ℕ := 1024

/-- What the calls of `sftp_write` do, one after the other: fail, or write a number of bytes up to the size. -/
abbrev WriteOutcomes := ℕ → Option ℕ

/-- `osftpstream` with its `sftpstreambuf`. -/
structure RemoteStream where
  /-- The remote file. -/
  file : List UInt8
  /-- The bytes of the buffer before the offset. -/
  buffer : List UInt8
  /-- How many writes there have been. -/
  writes : ℕ
  /-- The badbit. -/
  bad : Bool
deriving DecidableEq, Repr

/-- A stream on a file that has been truncated. -/
def RemoteStream.opened : RemoteStream where
  file := []
  buffer := []
  writes := 0
  bad := false

/-- How `flush` ends: with a value, or by throwing `io_error`. -/
inductive Flushed where
  | returned (complete : Bool)
  | thrown
deriving DecidableEq, Repr

variable (outcomes : WriteOutcomes)

namespace RemoteStream

/-- `sftpstreambuf::flush`. -/
def flush (s : RemoteStream) : Flushed × RemoteStream :=
  let written := { s with buffer := [], writes := s.writes + 1 }
  match outcomes s.writes with
  | none => (.thrown, written)
  | some n =>
      (.returned (min n s.buffer.length = s.buffer.length), { written with file := s.file ++ s.buffer.take n })

/-- `sftpstreambuf::overflow`, with whether the byte is taken. -/
def overflow (s : RemoteStream) (c : UInt8) : Bool × RemoteStream :=
  if s.buffer.length = capacity then
    match s.flush outcomes with
    | (.returned true, s) => (true, { s with buffer := s.buffer ++ [c] })
    | (_, s) => (false, s)
  else (true, { s with buffer := s.buffer ++ [c] })

/-- A byte is put into the stream: nothing happens if the stream is bad, and it gets bad if the byte is refused. -/
def put (s : RemoteStream) (c : UInt8) : RemoteStream :=
  if s.bad then s
  else
    match s.overflow outcomes c with
    | (true, s) => s
    | (false, s) => { s with bad := true }

/-- The destructor: it writes what is left, and an exception of `flush` ends the program. -/
def destroy (s : RemoteStream) : Flushed × RemoteStream := s.flush outcomes

/-- The stream after some bytes. -/
def putAll (s : RemoteStream) (bytes : List UInt8) : RemoteStream := bytes.foldl (put outcomes) s

end RemoteStream

/-- When the stream has been destroyed, the stream or its destruction has reported an error, or the file has the bytes
that were put. -/
def Complete (bytes : List UInt8) : Prop :=
  let s := RemoteStream.opened.putAll outcomes bytes
  s.bad = true ∨ (s.destroy outcomes).1 = .thrown ∨ (s.destroy outcomes).2.file = bytes

/-! ### Writes -/

/-- The write takes all the bytes. -/
def Full (outcome : Option ℕ) (size : ℕ) : Prop := ∃ n, outcome = some n ∧ size ≤ n

/-- The number of the last write, which the destructor makes: before it, full buffers are written. -/
def lastWrite (length : ℕ) : ℕ := (length - 1) / capacity

/-- The number of bytes that are left for the destructor. -/
def remaining (length : ℕ) : ℕ := length - capacity * lastWrite length

/-- Some write of a full buffer fails or is short, or the last write fails or is not short. -/
def NoticedOrFull (length : ℕ) : Prop :=
  (∃ k < lastWrite length, ¬Full (outcomes k) capacity) ∨ outcomes (lastWrite length) = none ∨
    Full (outcomes (lastWrite length)) (remaining length)

/-- All writes so far were complete: the bytes are in the file, in full buffers, and in the buffer. -/
structure Buffered (done : List UInt8) (s : RemoteStream) : Prop where
  good : s.bad = false
  full : ∀ k < s.writes, Full (outcomes k) capacity
  content : s.file ++ s.buffer = done
  aligned : s.file.length = capacity * s.writes
  bounded : s.buffer.length ≤ capacity
  begun : s.writes = 0 ∨ s.buffer ≠ []

/-- Some write before the last one was not complete, and the stream has got bad. -/
structure Broken (done : List UInt8) (s : RemoteStream) : Prop where
  bad : s.bad = true
  reported : ∃ k < lastWrite done.length, ¬Full (outcomes k) capacity

variable {outcomes} {done : List UInt8} {s : RemoteStream}

theorem capacity_pos : 0 < capacity := by decide

theorem lastWrite_mono {m n : ℕ} (le : m ≤ n) : lastWrite m ≤ lastWrite n :=
  Nat.div_le_div_right (Nat.sub_le_sub_right le 1)

/-- The destructor makes the next write. -/
theorem Buffered.lastWrite_eq (buffered : Buffered outcomes done s) : lastWrite done.length = s.writes := by
  have total : done.length = capacity * s.writes + s.buffer.length := by
    rw [← buffered.content, List.length_append, buffered.aligned]
  have bounded := buffered.bounded
  unfold lastWrite
  cases buffered.begun with
  | inl first =>
      rw [total, first, Nat.mul_zero, Nat.zero_add]
      apply Nat.div_eq_of_lt
      exact Nat.lt_of_le_of_lt (Nat.sub_le_sub_right bounded 1) (by decide)
  | inr filled =>
      have some_left : 0 < s.buffer.length := List.length_pos_iff.mpr filled
      have rest : s.buffer.length - 1 < capacity := by omega
      rw [total, Nat.add_sub_assoc some_left, Nat.mul_add_div capacity_pos, Nat.div_eq_of_lt rest, Nat.add_zero]

theorem Buffered.remaining_eq (buffered : Buffered outcomes done s) : remaining done.length = s.buffer.length := by
  rw [remaining, buffered.lastWrite_eq, ← buffered.content, List.length_append, buffered.aligned]
  omega

/-! ### Putting bytes -/

theorem buffered_opened : Buffered outcomes [] RemoteStream.opened where
  good := rfl
  full k before := absurd before (Nat.not_lt_zero k)
  content := rfl
  aligned := rfl
  bounded := Nat.zero_le _
  begun := .inl rfl

/-- A byte that finds room is buffered. -/
theorem Buffered.push (buffered : Buffered outcomes done s) (room : s.buffer.length < capacity) (c : UInt8) :
    Buffered outcomes (done ++ [c]) { s with buffer := s.buffer ++ [c] } where
  good := buffered.good
  full := buffered.full
  content := by rw [← List.append_assoc, buffered.content]
  aligned := buffered.aligned
  bounded := by
    rw [List.length_append, List.length_singleton]
    exact room
  begun := .inr (List.append_ne_nil_of_right_ne_nil _ (List.cons_ne_nil c []))

/-- A full buffer that is written completely leaves room for a byte. -/
theorem Buffered.write (buffered : Buffered outcomes done s) (filled : s.buffer.length = capacity) {n : ℕ}
    (outcome : outcomes s.writes = some n) (complete : capacity ≤ n) (c : UInt8) :
    Buffered outcomes (done ++ [c])
      { s with file := s.file ++ s.buffer.take n, buffer := [c], writes := s.writes + 1 } where
  good := buffered.good
  full k before := by
    cases Nat.lt_succ_iff_lt_or_eq.mp before with
    | inl earlier => exact buffered.full k earlier
    | inr now => exact now ▸ ⟨n, outcome, complete⟩
  content := by rw [List.take_of_length_le (filled ▸ complete), buffered.content]
  aligned := by
    rw [List.take_of_length_le (filled ▸ complete), List.length_append, buffered.aligned, filled, Nat.mul_succ]
  bounded := capacity_pos
  begun := .inr (List.cons_ne_nil c [])

/-- A full buffer that is not written completely breaks the stream: another write was to come. -/
theorem Buffered.broken (buffered : Buffered outcomes done s) (filled : s.buffer.length = capacity)
    (incomplete : ¬Full (outcomes s.writes) capacity) (c : UInt8) {s' : RemoteStream} (bad : s'.bad = true) :
    Broken outcomes (done ++ [c]) s' where
  bad := bad
  reported := by
    refine ⟨s.writes, ?_, incomplete⟩
    have total : (done ++ [c]).length - 1 = capacity * (s.writes + 1) := by
      rw [← buffered.content, List.length_append, List.length_append, buffered.aligned, filled, Nat.mul_succ]
      exact Nat.add_sub_cancel _ 1
    rw [lastWrite, total, Nat.mul_div_cancel_left _ capacity_pos]
    exact Nat.lt_succ_self _

/-- One byte. -/
theorem Buffered.put (buffered : Buffered outcomes done s) (c : UInt8) :
    Buffered outcomes (done ++ [c]) (s.put outcomes c) ∨ Broken outcomes (done ++ [c]) (s.put outcomes c) := by
  have good : ¬s.bad = true := Bool.eq_false_iff.mp buffered.good
  unfold RemoteStream.put RemoteStream.overflow RemoteStream.flush
  rw [if_neg good]
  by_cases filled : s.buffer.length = capacity
  · rw [if_pos filled]
    cases outcome : outcomes s.writes with
    | none =>
        right
        apply buffered.broken filled _ c rfl
        rintro ⟨n, written, _⟩
        exact nomatch outcome.symm.trans written
    | some n =>
        by_cases complete : capacity ≤ n
        · left
          have all : min n s.buffer.length = s.buffer.length := by omega
          simp only [all, decide_true]
          exact buffered.write filled outcome complete c
        · right
          have few : ¬min n s.buffer.length = s.buffer.length := by omega
          simp only [few, decide_false]
          apply buffered.broken filled _ c rfl
          rintro ⟨m, written, enough⟩
          cases outcome.symm.trans written
          exact complete enough
  · left
    rw [if_neg filled]
    exact buffered.push (Nat.lt_of_le_of_ne buffered.bounded filled) c

theorem Broken.put (broken : Broken outcomes done s) (c : UInt8) :
    Broken outcomes (done ++ [c]) (s.put outcomes c) where
  bad := by
    rw [RemoteStream.put, broken.bad, if_pos rfl]
    exact broken.bad
  reported := by
    obtain ⟨k, before, incomplete⟩ := broken.reported
    refine ⟨k, Nat.lt_of_lt_of_le before (lastWrite_mono ?_), incomplete⟩
    rw [List.length_append]
    exact Nat.le_add_right _ _

/-- After any bytes, they are buffered, or the stream is bad. -/
theorem putAll_opened (bytes : List UInt8) :
    Buffered outcomes bytes (RemoteStream.opened.putAll outcomes bytes) ∨
      Broken outcomes bytes (RemoteStream.opened.putAll outcomes bytes) := by
  have run (done : List UInt8) (s : RemoteStream) (before : Buffered outcomes done s ∨ Broken outcomes done s) :
      Buffered outcomes (done ++ bytes) (s.putAll outcomes bytes) ∨
        Broken outcomes (done ++ bytes) (s.putAll outcomes bytes) := by
    induction bytes generalizing done s with
    | nil =>
        rw [List.append_nil]
        exact before
    | cons c rest ih =>
        rw [show done ++ c :: rest = (done ++ [c]) ++ rest by simp]
        apply ih
        cases before with
        | inl buffered => exact buffered.put c
        | inr broken => exact .inr (broken.put c)
  exact run [] RemoteStream.opened (.inl buffered_opened)

/-! ### Destroying the stream -/

/-- A short last write loses the end of the bytes. -/
theorem Buffered.destroy_iff (buffered : Buffered outcomes done s) {n : ℕ} (outcome : outcomes s.writes = some n) :
    (s.destroy outcomes).2.file = done ↔ s.buffer.length ≤ n := by
  unfold RemoteStream.destroy RemoteStream.flush
  rw [outcome, ← buffered.content]
  dsimp only
  rw [List.append_cancel_left_eq]
  constructor
  · intro all
    have lengths := congrArg List.length all
    rw [List.length_take] at lengths
    omega
  · exact List.take_of_length_le

theorem destroy_thrown_iff (s : RemoteStream) :
    (s.destroy outcomes).1 = .thrown ↔ outcomes s.writes = none := by
  unfold RemoteStream.destroy RemoteStream.flush
  cases outcomes s.writes with
  | none => exact iff_of_true rfl rfl
  | some n => exact iff_of_false nofun nofun

variable (outcomes) in
/-- A remote file is complete, or an error is reported, unless the only write that is not complete is the one of the
destructor, and it is short. -/
theorem remote_file_complete (bytes : List UInt8) : Complete outcomes bytes ↔ NoticedOrFull outcomes bytes.length := by
  unfold Complete NoticedOrFull
  dsimp only
  cases @putAll_opened outcomes bytes with
  | inr broken => exact iff_of_true (.inl broken.bad) (.inl broken.reported)
  | inl buffered =>
      have none_before : ¬∃ k < lastWrite bytes.length, ¬Full (outcomes k) capacity := by
        rintro ⟨k, before, incomplete⟩
        rw [buffered.lastWrite_eq] at before
        exact incomplete (buffered.full k before)
      rw [or_iff_right none_before, buffered.lastWrite_eq, buffered.remaining_eq, destroy_thrown_iff, buffered.good,
        or_iff_right Bool.false_ne_true]
      cases outcome : outcomes (RemoteStream.opened.putAll outcomes bytes).writes with
      | none => exact iff_of_true (.inl rfl) (.inl rfl)
      | some n =>
          rw [buffered.destroy_iff outcome, Full]
          simp

/-- One byte is put, and the write of the destructor takes none. -/
theorem remote_file_cut : ¬∀ (outcomes : WriteOutcomes) (bytes : List UInt8), Complete outcomes bytes := by
  intro always
  cases always (fun _ => some 0) [65] with
  | inl bad => exact nomatch bad
  | inr destroyed =>
      cases destroyed with
      | inl thrown => exact nomatch thrown
      | inr all => exact nomatch all

end Experimaestro.Files

/-
Module: Experimaestro.Configuration.Places
Layer: Configuration
Purpose: Pointers into values. `MapValue::get` and `operator[]` return the child itself, so that a client
  changes a value in place, inside all values around it. A `Handle` is such a pointer: a value that is no
  child of another one, and the way down from it.
Imports: Experimaestro.Configuration.Values
Trusted boundary: human-reviewed model of MapValue::get and ArrayValue::operator[]
Main exports: Selector, descend, modifyAt, Handle, follow, update, mem_update
Open obligations: none
-/
import Experimaestro.Configuration.Values

namespace Experimaestro.Configuration

/-- One step down: `get(key)` or `operator[](index)`. -/
inductive Selector where
  | key (name : Str)
  | index (position : ℕ)
deriving DecidableEq, Repr

section

variable {Ty Job : Type}

namespace Value

/-- The child that a selector gives. -/
def child : Selector → Value Ty Job → Option (Value Ty Job)
  | .key name, .map _ _ _ _ children => lookup name children
  | .index position, .array _ _ elements => elements[position]?
  | _, _ => none

/-- The value at the end of a way down. -/
def descend : List Selector → Value Ty Job → Option (Value Ty Job)
  | [], v => some v
  | selector :: rest, v => (v.child selector).bind (descend rest)

/-- Change the child that a selector gives. -/
def modifyChild (f : Value Ty Job → Value Ty Job) : Selector → Value Ty Job → Value Ty Job
  | .key name, .map flags type task job children => .map flags type task job (adjust name f children)
  | .index position, .array flags ctype elements => .array flags ctype (elements.modify position f)
  | _, v => v

/-- Change the value at the end of a way down. -/
def modifyAt (f : Value Ty Job → Value Ty Job) : List Selector → Value Ty Job → Value Ty Job
  | [], v => f v
  | selector :: rest, v => v.modifyChild (modifyAt f rest) selector

end Value

/-- A pointer to a value: the number of a root and the way down. -/
structure Handle where
  root : ℕ
  way : List Selector
deriving DecidableEq, Repr

/-- What a pointer points to. -/
def follow (handle : Handle) (values : List (Value Ty Job)) : Option (Value Ty Job) :=
  values[handle.root]?.bind (Value.descend handle.way)

/-- Change what a pointer points to. -/
def update (handle : Handle) (f : Value Ty Job → Value Ty Job) (values : List (Value Ty Job)) :
    List (Value Ty Job) :=
  values.modify handle.root (Value.modifyAt f handle.way)

theorem mem_modify {α : Type} {f : α → α} {x : α} :
    ∀ {position : ℕ} {entries : List α}, x ∈ entries.modify position f →
      x ∈ entries ∨ ∃ y, entries[position]? = some y ∧ x = f y
  | 0, [], member => by cases member
  | 0, y :: rest, member => by
      rcases List.mem_cons.mp member with here | there
      · exact Or.inr ⟨y, rfl, here⟩
      · exact Or.inl (List.mem_cons_of_mem y there)
  | position + 1, [], member => by cases member
  | position + 1, y :: rest, member => by
      rcases List.mem_cons.mp member with here | there
      · exact Or.inl (here ▸ List.mem_cons_self)
      · exact (mem_modify there).imp_left (List.mem_cons_of_mem y)

theorem mem_adjust {α : Type} {key : Str} {f : α → α} {entry : Str × α} :
    ∀ {entries : List (Str × α)}, entry ∈ adjust key f entries →
      entry ∈ entries ∨ ∃ v, lookup key entries = some v ∧ (key, v) ∈ entries ∧ entry = (key, f v)
  | [], member => by cases member
  | (k, v) :: rest, member => by
      rw [adjust] at member
      rw [lookup]
      by_cases here : k = key
      · rw [if_pos here] at member ⊢
        rcases List.mem_cons.mp member with same | there
        · exact Or.inr ⟨v, rfl, here ▸ List.mem_cons_self, here ▸ same⟩
        · exact Or.inl (List.mem_cons_of_mem _ there)
      · rw [if_neg here] at member ⊢
        rcases List.mem_cons.mp member with same | there
        · exact Or.inl (same ▸ List.mem_cons_self)
        · rcases mem_adjust there with other | ⟨w, found, stored, same⟩
          · exact Or.inl (List.mem_cons_of_mem _ other)
          · exact Or.inr ⟨w, found, List.mem_cons_of_mem _ stored, same⟩

theorem mem_of_lookup {α : Type} {key : Str} {v : α} :
    ∀ {entries : List (Str × α)}, lookup key entries = some v → (key, v) ∈ entries
  | [], found => by cases found
  | (k, w) :: rest, found => by
      rw [lookup] at found
      split at found
      · rename_i here
        cases found
        exact here ▸ List.mem_cons_self
      · exact List.mem_cons_of_mem _ (mem_of_lookup found)

/-- Among entries of distinct keys, each one is found. -/
theorem lookup_of_mem {α : Type} {entries : List (Str × α)} (distinct : (entries.map Prod.fst).Nodup)
    {entry : Str × α} (member : entry ∈ entries) : lookup entry.1 entries = some entry.2 := by
  induction entries with
  | nil => cases member
  | cons first rest ih =>
      obtain ⟨k, v⟩ := first
      rw [List.map_cons, List.nodup_cons] at distinct
      rw [lookup]
      rcases List.mem_cons.mp member with rfl | there
      · rw [if_pos rfl]
      · have other : k ≠ entry.1 := by
          intro same
          exact distinct.1 (List.mem_map.mpr ⟨entry, there, same.symm⟩)
        rw [if_neg other]
        exact ih distinct.2 there

/-- A root after a change is a root before, or the one that was changed. -/
theorem mem_update {handle : Handle} {f : Value Ty Job → Value Ty Job} {values : List (Value Ty Job)}
    {v : Value Ty Job} (member : v ∈ update handle f values) :
    v ∈ values ∨ ∃ root, values[handle.root]? = some root ∧ v = root.modifyAt f handle.way :=
  mem_modify member

end

end Experimaestro.Configuration

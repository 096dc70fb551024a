import Mathlib.Data.Finmap

/-! Maps with a bound on their number of entries. Inserting a new key into a full map fails and
changes nothing; overwriting an entry never fails. -/
namespace Interaction

structure BoundedMap (κ ν : Type) (capacity : ℕ) where
  entries : Finmap fun _ : κ => ν
  bounded : entries.keys.card ≤ capacity

namespace BoundedMap

variable {κ ν : Type} [DecidableEq κ] {capacity : ℕ}

def empty : BoundedMap κ ν capacity := ⟨∅, by simp⟩

def get (m : BoundedMap κ ν capacity) (k : κ) : Option ν := m.entries.lookup k

def keys (m : BoundedMap κ ν capacity) : Finset κ := m.entries.keys

/-- There is no room for the key: the map is full and the key is new. -/
def Full (m : BoundedMap κ ν capacity) (k : κ) : Prop := k ∉ m.keys ∧ m.keys.card = capacity

instance (m : BoundedMap κ ν capacity) (k : κ) : Decidable (m.Full k) := by
  unfold Full
  infer_instance

theorem keys_insert_eq (m : BoundedMap κ ν capacity) (k : κ) (v : ν) :
    (m.entries.insert k v).keys = insert k m.keys := by
  ext k'
  simp [keys, Finmap.mem_keys, Finmap.mem_insert]

def insert (m : BoundedMap κ ν capacity) (k : κ) (v : ν) : BoundedMap κ ν capacity :=
  if h : m.Full k then m
  else ⟨m.entries.insert k v, by
    rw [keys_insert_eq]
    by_cases hk : k ∈ m.keys
    · rw [Finset.insert_eq_of_mem hk]
      exact m.bounded
    · have hne : m.keys.card ≠ capacity := fun hc => h ⟨hk, hc⟩
      have hle : m.keys.card ≤ capacity := m.bounded
      rw [Finset.card_insert_of_notMem hk]
      omega⟩

def remove (m : BoundedMap κ ν capacity) (k : κ) : BoundedMap κ ν capacity :=
  ⟨m.entries.erase k, by
    rw [Finmap.keys_erase]
    exact (Finset.card_erase_le).trans m.bounded⟩

variable {m : BoundedMap κ ν capacity} {k k' : κ} {v : ν}

theorem mem_keys : k ∈ m.keys ↔ (m.get k).isSome := by
  rw [keys, Finmap.mem_keys, get, Finmap.lookup_isSome]

@[simp] theorem get_empty : (empty : BoundedMap κ ν capacity).get k = none := Finmap.lookup_empty k

theorem insert_full (h : m.Full k) : m.insert k v = m := by
  unfold insert
  rw [dif_pos h]

theorem get_insert_self (h : ¬ m.Full k) : (m.insert k v).get k = some v := by
  unfold insert get
  rw [dif_neg h]
  exact Finmap.lookup_insert _

/-- After an insertion the key has the value inserted, or nothing where there was no room. -/
theorem eq_of_get_insert_self {v' : ν} (h : (m.insert k v).get k = some v') : v' = v := by
  by_cases hfull : m.Full k
  · rw [insert_full hfull] at h
    exact absurd (mem_keys.mpr (h ▸ rfl)) hfull.1
  · rw [get_insert_self hfull] at h
    exact (Option.some.inj h).symm

theorem get_insert_of_ne (h : k' ≠ k) : (m.insert k v).get k' = m.get k' := by
  unfold insert
  split_ifs with hf
  · rfl
  · exact Finmap.lookup_insert_of_ne _ h

theorem keys_insert (h : ¬ m.Full k) : (m.insert k v).keys = Insert.insert k m.keys := by
  unfold insert
  rw [dif_neg h]
  exact keys_insert_eq m k v

@[simp] theorem get_remove_self : (m.remove k).get k = none := Finmap.lookup_erase _ _

theorem get_remove_of_ne (h : k' ≠ k) : (m.remove k).get k' = m.get k' := Finmap.lookup_erase_ne h

end BoundedMap

end Interaction

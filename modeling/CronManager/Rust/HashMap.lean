import Mathlib.Data.List.AList
import Mathlib.Data.Finset.Card

/-!
# Hash maps

A `HashMap<K, V>` is a finite map together with the order in which it happens to be iterated:
Mathlib's `AList`, whose entries are a list without duplicate keys.
-/

namespace CronManager.Rust

/-- `HashMap<K, V>`. -/
abbrev HashMap (K V : Type*) := AList fun _ : K => V

namespace HashMap

variable {K V : Type*} [DecidableEq K]

/-- `values()`, in iteration order. -/
def values (m : HashMap K V) : List V := m.entries.map (·.2)

/-- `len()`. -/
def len (m : HashMap K V) : ℕ := m.entries.length

/-- `retain`. -/
def retain (m : HashMap K V) (p : K → V → Bool) : HashMap K V :=
  ⟨m.entries.filter fun e => p e.1 e.2, m.nodupKeys.sublist List.filter_sublist⟩

theorem mem_values {m : HashMap K V} {v : V} : v ∈ m.values ↔ ∃ k, m.lookup k = some v := by
  simp only [values, List.mem_map]
  constructor
  · rintro ⟨⟨k, v⟩, hmem, rfl⟩
    exact ⟨k, AList.mem_lookup_iff.2 hmem⟩
  · rintro ⟨k, hk⟩
    exact ⟨⟨k, v⟩, AList.mem_lookup_iff.1 hk, rfl⟩

theorem lookup_insert_eq {m : HashMap K V} {k k' : K} {v : V} :
    (m.insert k v).lookup k' = if k' = k then some v else m.lookup k' := by
  split_ifs with h
  · subst h
    exact AList.lookup_insert m
  · exact AList.lookup_insert_ne h

theorem lookup_erase_eq {m : HashMap K V} {k k' : K} :
    (m.erase k).lookup k' = if k' = k then none else m.lookup k' := by
  split_ifs with h
  · subst h
    exact AList.lookup_erase k' m
  · exact AList.lookup_erase_ne h

theorem lookup_retain {m : HashMap K V} {p : K → V → Bool} {k : K} {v : V} :
    (m.retain p).lookup k = some v ↔ m.lookup k = some v ∧ p k v = true := by
  have hmem : ⟨k, v⟩ ∈ (m.retain p).entries ↔ ⟨k, v⟩ ∈ m.entries ∧ p k v = true := List.mem_filter
  exact AList.mem_lookup_iff.trans (hmem.trans (and_congr_left' AList.mem_lookup_iff.symm))

omit [DecidableEq K] in
theorem len_eq_length_keys {m : HashMap K V} : m.len = m.keys.length :=
  (List.length_map Sigma.fst).symm

theorem len_insert_of_mem {m : HashMap K V} {k : K} {v : V} (h : k ∈ m) :
    len (m.insert k v) = m.len := by
  have hpos := List.length_pos_of_mem (AList.mem_keys.1 h)
  rw [len_eq_length_keys, len_eq_length_keys, AList.keys_insert, List.length_cons,
    List.length_erase_of_mem (AList.mem_keys.1 h)]
  omega

theorem len_insert_of_notMem {m : HashMap K V} {k : K} {v : V} (h : k ∉ m) :
    len (m.insert k v) = m.len + 1 := by
  rw [len_eq_length_keys, len_eq_length_keys, AList.keys_insert, List.length_cons,
    List.erase_of_not_mem (mt AList.mem_keys.2 h)]

theorem len_insert_le {m : HashMap K V} {k : K} {v : V} : len (m.insert k v) ≤ m.len + 1 := by
  rw [len_eq_length_keys, len_eq_length_keys, AList.keys_insert, List.length_cons]
  exact Nat.succ_le_succ List.length_erase_le

theorem len_erase {m : HashMap K V} {k : K} (h : k ∈ m) : len (m.erase k) = m.len - 1 := by
  rw [len_eq_length_keys, len_eq_length_keys, AList.keys_erase,
    List.length_erase_of_mem (AList.mem_keys.1 h)]

omit [DecidableEq K] in
theorem len_retain_le {m : HashMap K V} {p : K → V → Bool} : (m.retain p).len ≤ m.len :=
  List.length_filter_le _ _

theorem len_le_card {m : HashMap K V} {names : Finset K} (h : ∀ k ∈ m, k ∈ names) :
    m.len ≤ names.card := by
  have hlen : m.len = m.keys.toFinset.card := by
    rw [List.toFinset_card_of_nodup m.keys_nodup, len_eq_length_keys]
  rw [hlen]
  refine Finset.card_le_card fun k hk => h k ?_
  exact AList.mem_keys.2 (List.mem_toFinset.1 hk)

end HashMap

end CronManager.Rust

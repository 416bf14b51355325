import Mathlib.Data.List.Pairwise
import Mathlib.Data.List.Sort
import Mathlib.Order.Basic
import Mathlib.Order.Lattice

/-!
# Ordered maps

`BTreeMap K V` is `std::collections::BTreeMap`: entries in strictly increasing key order, which
is the order in which the source iterates over them.  The order is a field, so that every value
of the type has distinct keys.

`upsert` changes the value of one key and `pushAll` sorts values into lists by a key, as
`entry(k).or_default().push(v)` does in a loop; `get_pushAll` says what the lists are.  Two maps
that hold the same under every key are equal (`ext_get`).
-/

namespace CronManager

namespace Rust

/-! ### Association lists -/

section AssociationLists

variable {K V : Type*} [DecidableEq K] {k : K}

theorem lookup_cons_eq {k₁ : K} {v : V} {l : List (K × V)} :
    ((k₁, v) :: l).lookup k = if k = k₁ then some v else l.lookup k := by
  rw [List.lookup_cons]
  split <;> simp_all

theorem lookup_filter (p : K → Bool) {l : List (K × V)} :
    (l.filter fun e => p e.1).lookup k = if p k then l.lookup k else none := by
  induction l with
  | nil => exact (ite_self none).symm
  | cons e l ih =>
    obtain ⟨k₁, v⟩ := e
    by_cases hp : p k₁ = true
    · rw [List.filter_cons, if_pos hp, lookup_cons_eq, lookup_cons_eq, ih]
      by_cases hk : k = k₁
      · rw [if_pos hk, if_pos hk, hk, if_pos hp]
      · rw [if_neg hk, if_neg hk]
    · rw [List.filter_cons, if_neg hp, lookup_cons_eq, ih]
      by_cases hk : k = k₁
      · rw [hk, if_neg hp, if_neg hp]
      · rw [if_neg hk]

end AssociationLists

/-! ### The maps -/

/-- `std::collections::BTreeMap`. -/
structure BTreeMap (K V : Type*) [LT K] where
  /-- The entries, in iteration order. -/
  entries : List (K × V)
  sorted : entries.Pairwise fun a b => a.1 < b.1

namespace BTreeMap

variable {K V W : Type*} [LT K]

/-- The empty map. -/
def empty : BTreeMap K V := ⟨[], .nil⟩

/-- `BTreeMap::get`. -/
def get [DecidableEq K] (m : BTreeMap K V) (k : K) : Option V := m.entries.lookup k

/-- `BTreeMap::is_empty`. -/
def isEmpty (m : BTreeMap K V) : Bool := m.entries.isEmpty

/-- Keep the entries for which `f` gives a value. -/
def filterMap (f : K → V → Option W) (m : BTreeMap K V) : BTreeMap K W where
  entries := m.entries.filterMap fun e => (f e.1 e.2).map fun w => (e.1, w)
  sorted := by
    refine m.sorted.filterMap _ fun a a' h b hb b' hb' => ?_
    obtain ⟨w, -, rfl⟩ := Option.map_eq_some_iff.1 hb
    obtain ⟨w', -, rfl⟩ := Option.map_eq_some_iff.1 hb'
    exact h

/-- The one-entry map. -/
def singleton (k : K) (v : V) : BTreeMap K V := ⟨[(k, v)], List.pairwise_singleton _ _⟩

theorem eq_empty_of_isEmpty {m : BTreeMap K V} (h : m.isEmpty = true) : m = empty := by
  obtain ⟨entries, sorted⟩ := m
  obtain rfl : entries = [] := List.isEmpty_iff.1 h
  rfl

theorem nodup_keys (m : BTreeMap K V) [Std.Irrefl (α := K) (· < ·)] :
    (m.entries.map Prod.fst).Nodup := by
  refine List.pairwise_map.2 (m.sorted.imp fun {a b} h he => ?_)
  rw [he] at h
  exact Std.Irrefl.irrefl _ h

end BTreeMap

/-! ### Changing the value of a key -/

namespace BTreeMap

variable {K V W A : Type*} [LinearOrder K] {k k' : K}

/-- The entries with the value of `k` changed by `f`. -/
def upsertEntries (k : K) (f : Option V → V) : List (K × V) → List (K × V)
  | [] => [(k, f none)]
  | (k', v) :: rest =>
    if k < k' then (k, f none) :: (k', v) :: rest
    else if k' < k then (k', v) :: upsertEntries k f rest
    else (k', f (some v)) :: rest

theorem keys_upsertEntries {f : Option V → V} {l : List (K × V)} :
    ∀ e ∈ upsertEntries k f l, e.1 = k ∨ ∃ e' ∈ l, e'.1 = e.1 := by
  induction l with
  | nil => simp [upsertEntries]
  | cons hd rest ih =>
    obtain ⟨k', v⟩ := hd
    intro e he
    simp only [upsertEntries] at he
    split_ifs at he with hlt hgt
    · rcases List.mem_cons.1 he with rfl | he
      · exact .inl rfl
      · exact .inr ⟨e, he, rfl⟩
    · rcases List.mem_cons.1 he with rfl | he
      · exact .inr ⟨_, List.mem_cons_self, rfl⟩
      · exact (ih e he).imp id fun ⟨e', he', heq⟩ => ⟨e', List.mem_cons_of_mem _ he', heq⟩
    · rcases List.mem_cons.1 he with rfl | he
      · exact .inr ⟨_, List.mem_cons_self, rfl⟩
      · exact .inr ⟨e, List.mem_cons_of_mem _ he, rfl⟩

theorem sorted_upsertEntries {f : Option V → V} {l : List (K × V)}
    (h : l.Pairwise fun a b => a.1 < b.1) :
    (upsertEntries k f l).Pairwise fun a b => a.1 < b.1 := by
  induction l with
  | nil => exact List.pairwise_singleton _ _
  | cons hd rest ih =>
    obtain ⟨k', v⟩ := hd
    obtain ⟨hfirst, hrest⟩ := List.pairwise_cons.1 h
    simp only [upsertEntries]
    split_ifs with hlt hgt
    · refine List.pairwise_cons.2 ⟨fun e he => ?_, h⟩
      rcases List.mem_cons.1 he with rfl | he
      · exact hlt
      · exact hlt.trans (hfirst e he)
    · refine List.pairwise_cons.2 ⟨fun e he => ?_, ih hrest⟩
      rcases keys_upsertEntries e he with hk | ⟨e', he', heq⟩
      · rw [hk]
        exact hgt
      · rw [← heq]
        exact hfirst e' he'
    · exact List.pairwise_cons.2 ⟨hfirst, hrest⟩

/-- Change the value of `k` by `f`, which gets `none` when there is no entry yet. -/
def upsert (m : BTreeMap K V) (k : K) (f : Option V → V) : BTreeMap K V :=
  ⟨upsertEntries k f m.entries, sorted_upsertEntries m.sorted⟩

/-- Change every value by `f`: a loop over `values_mut`. -/
def mapValues (f : V → W) (m : BTreeMap K V) : BTreeMap K W where
  entries := m.entries.map fun e => (e.1, f e.2)
  sorted := List.pairwise_map.2 m.sorted

theorem lookup_eq_none {l : List (K × V)} (h : ∀ e ∈ l, k < e.1) : l.lookup k = none := by
  rw [List.lookup_eq_none_iff]
  intro e he
  exact bne_iff_ne.2 (h e he).ne

theorem lookup_upsertEntries {f : Option V → V} {l : List (K × V)}
    (h : l.Pairwise fun a b => a.1 < b.1) :
    (upsertEntries k f l).lookup k' =
      if k' = k then some (f (l.lookup k)) else l.lookup k' := by
  induction l with
  | nil => exact lookup_cons_eq
  | cons hd rest ih =>
    obtain ⟨k₁, v⟩ := hd
    obtain ⟨hfirst, hrest⟩ := List.pairwise_cons.1 h
    rcases lt_trichotomy k k₁ with hlt | rfl | hgt
    · have hnone : ((k₁, v) :: rest).lookup k = none := by
        refine lookup_eq_none fun e he => ?_
        rcases List.mem_cons.1 he with rfl | he
        · exact hlt
        · exact hlt.trans (hfirst e he)
      rw [upsertEntries, if_pos hlt, hnone, lookup_cons_eq]
    · rw [upsertEntries, if_neg (lt_irrefl k), if_neg (lt_irrefl k), lookup_cons_eq,
        lookup_cons_eq, lookup_cons_eq, if_pos rfl]
      split_ifs <;> rfl
    · rw [upsertEntries, if_neg hgt.not_gt, if_pos hgt, lookup_cons_eq, ih hrest,
        lookup_cons_eq, lookup_cons_eq, if_neg hgt.ne']
      split_ifs with hk₁ hk
      · exact absurd (hk₁.symm.trans hk) hgt.ne
      all_goals rfl

@[simp] theorem get_empty : (empty : BTreeMap K V).get k = none := rfl

theorem get_upsert {m : BTreeMap K V} {f : Option V → V} :
    (m.upsert k f).get k' = if k' = k then some (f (m.get k)) else m.get k' :=
  lookup_upsertEntries m.sorted

theorem get_mapValues {m : BTreeMap K V} {f : V → W} :
    (m.mapValues f).get k = (m.get k).map f := by
  obtain ⟨entries, sorted⟩ := m
  show (entries.map fun e => (e.1, f e.2)).lookup k = (entries.lookup k).map f
  clear sorted
  induction entries with
  | nil => rfl
  | cons e rest ih =>
    rw [List.map_cons, lookup_cons_eq, ih, ← Prod.eta e, lookup_cons_eq]
    split_ifs <;> rfl

/-- The part of a map under the keys that satisfy `p`. -/
def retain (p : K → Bool) (m : BTreeMap K V) : BTreeMap K V where
  entries := m.entries.filter fun e => p e.1
  sorted := m.sorted.filter _

theorem get_eq_some_iff {m : BTreeMap K V} {v : V} : m.get k = some v ↔ (k, v) ∈ m.entries := by
  rw [get, List.lookup_eq_some_iff]
  constructor
  · rintro ⟨front, back, heq, -⟩
    rw [heq]
    exact List.mem_append_right _ List.mem_cons_self
  · intro hmem
    obtain ⟨front, back, heq⟩ := List.append_of_mem hmem
    have hsorted := m.sorted
    rw [heq] at hsorted
    -- the keys in front are smaller
    exact ⟨front, back, heq, fun e he => bne_iff_ne.2
      (List.pairwise_append.1 hsorted |>.2.2 e he _ List.mem_cons_self).ne'⟩

theorem ext_get {m m' : BTreeMap K V} (h : ∀ k, m.get k = m'.get k) : m = m' := by
  have hmem : ∀ e, e ∈ m.entries ↔ e ∈ m'.entries := fun e => by
    rw [← Prod.eta e, ← get_eq_some_iff, h, get_eq_some_iff]
  have hirrefl : Std.Irrefl fun a b : K × V => a.1 < b.1 := ⟨fun a => lt_irrefl a.1⟩
  have hantisymm : Std.Antisymm fun a b : K × V => a.1 < b.1 :=
    ⟨fun a b hab hba => absurd hab hba.asymm⟩
  have hentries := m.sorted.eq_of_mem_iff m'.sorted hmem
  obtain ⟨entries, sorted⟩ := m
  obtain ⟨entries', sorted'⟩ := m'
  obtain rfl : entries = entries' := hentries
  rfl

theorem get_retain {p : K → Bool} {m : BTreeMap K V} :
    (m.retain p).get k = if p k then m.get k else none := lookup_filter p

/-- `for x in xs { m.entry(key(x)).or_default().push(val(x)) }`. -/
def pushAll (key : A → K) (val : A → V) (m : BTreeMap K (List V)) (xs : List A) :
    BTreeMap K (List V) :=
  xs.foldl (fun m x => m.upsert (key x) fun vs => vs.getD [] ++ [val x]) m

/-- The list of a key holds the values pushed under it, in their order; a key under which nothing
was pushed stays as it was. -/
theorem get_pushAll {key : A → K} {val : A → V} {m : BTreeMap K (List V)} {xs : List A} :
    (pushAll key val m xs).get k =
      if (xs.filter fun x => key x = k) = [] then m.get k
      else some ((m.get k).getD [] ++ (xs.filter fun x => key x = k).map val) := by
  induction xs generalizing m with
  | nil => rfl
  | cons x xs ih =>
    rw [pushAll, List.foldl_cons, ← pushAll, ih, get_upsert]
    by_cases hx : key x = k
    · simp [hx]
    · simp [hx, Ne.symm hx]

end BTreeMap

end Rust

end CronManager

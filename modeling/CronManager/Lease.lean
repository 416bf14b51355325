import Mathlib.Logic.Function.Basic

/-!
# Leases

A table of slots, each empty or holding the identity of a lease, and tasks that hold leases.
`Exclusive` says that the table and the holders agree: a held lease is the one in its slot, every
lease in the table is held, and no two tasks hold leases on one slot.  It is kept by the three
things that can happen to a lease: a task acquires a free slot, hands its lease to a task that
holds none, or releases it and empties the slot.
-/

namespace CronManager

variable {K ι T : Type*}

/-- The slots of the table are exactly what the tasks hold, each slot by one task. -/
structure Exclusive (slots : K → Option ι) (held : T → Option (K × ι)) : Prop where
  slot_of_held : ∀ {t k n}, held t = some (k, n) → slots k = some n
  held_of_slot : ∀ {k n}, slots k = some n → ∃ t, held t = some (k, n)
  unique : ∀ {t u k n m}, held t = some (k, n) → held u = some (k, m) → t = u

namespace Exclusive

variable {slots : K → Option ι} {held : T → Option (K × ι)} {t u : T} {k : K} {n : ι}

theorem empty : Exclusive (fun _ : K => (none : Option ι)) (fun _ : T => none) where
  slot_of_held := by rintro t k n ⟨⟩
  held_of_slot := by rintro k n ⟨⟩
  unique := by rintro t u k n m ⟨⟩

variable [DecidableEq T]

theorem transfer (h : Exclusive slots held) (ht : held t = some (k, n)) (hu : held u = none) :
    Exclusive slots (Function.update (Function.update held t none) u (some (k, n))) := by
  -- as tasks go, `u` now stands where `t` stood
  have hcases {v x}
      (hv : Function.update (Function.update held t none) u (some (k, n)) v = some x) :
      (v = u ∧ x = (k, n)) ∨ (v ≠ u ∧ v ≠ t ∧ held v = some x) := by
    by_cases hvu : v = u
    · subst hvu
      rw [Function.update_self] at hv
      exact .inl ⟨rfl, (Option.some.inj hv).symm⟩
    · rw [Function.update_of_ne hvu] at hv
      by_cases hvt : v = t
      · subst hvt
        rw [Function.update_self] at hv
        cases hv
      · rw [Function.update_of_ne hvt] at hv
        exact .inr ⟨hvu, hvt, hv⟩
  constructor
  · intro v k' m hv
    rcases hcases hv with ⟨-, hx⟩ | ⟨-, -, hv⟩
    · cases hx
      exact h.slot_of_held ht
    · exact h.slot_of_held hv
  · intro k' m hk'
    obtain ⟨v, hv⟩ := h.held_of_slot hk'
    by_cases hvt : v = t
    · subst hvt
      rw [ht] at hv
      exact ⟨u, by rw [Function.update_self, hv]⟩
    · have hvu : v ≠ u := by
        rintro rfl
        rw [hu] at hv
        cases hv
      exact ⟨v, by rw [Function.update_of_ne hvu, Function.update_of_ne hvt, hv]⟩
  · intro v w k' m m' hv hw
    rcases hcases hv with ⟨hvu, hx⟩ | ⟨-, hvt, hv'⟩ <;>
      rcases hcases hw with ⟨hwu, hy⟩ | ⟨-, hwt, hw'⟩
    · rw [hvu, hwu]
    · cases hx
      exact absurd (h.unique hw' ht) hwt
    · cases hy
      exact absurd (h.unique hv' ht) hvt
    · exact h.unique hv' hw'

variable [DecidableEq K]

theorem acquire (h : Exclusive slots held) (ht : held t = none) (hk : slots k = none) :
    Exclusive (Function.update slots k (some n)) (Function.update held t (some (k, n))) := by
  -- every lease held so far is another task's, on another slot
  have hne {u k' m} (hu : held u = some (k', m)) : u ≠ t ∧ k' ≠ k := by
    constructor
    · rintro rfl
      rw [ht] at hu
      cases hu
    · rintro rfl
      rw [h.slot_of_held hu] at hk
      cases hk
  constructor
  · intro u k' m hu
    by_cases hut : u = t
    · subst hut
      rw [Function.update_self] at hu
      cases hu
      exact Function.update_self ..
    · rw [Function.update_of_ne hut] at hu
      rw [Function.update_of_ne (hne hu).2]
      exact h.slot_of_held hu
  · intro k' m hk'
    by_cases hkk : k' = k
    · subst hkk
      rw [Function.update_self] at hk'
      cases hk'
      exact ⟨t, Function.update_self ..⟩
    · rw [Function.update_of_ne hkk] at hk'
      obtain ⟨u, hu⟩ := h.held_of_slot hk'
      exact ⟨u, by rw [Function.update_of_ne (hne hu).1, hu]⟩
  · intro u v k' m m' hu hv
    by_cases hut : u = t <;> by_cases hvt : v = t
    · rw [hut, hvt]
    · subst hut
      rw [Function.update_self] at hu
      cases hu
      rw [Function.update_of_ne hvt] at hv
      exact absurd rfl (hne hv).2
    · subst hvt
      rw [Function.update_self] at hv
      cases hv
      rw [Function.update_of_ne hut] at hu
      exact absurd rfl (hne hu).2
    · rw [Function.update_of_ne hut] at hu
      rw [Function.update_of_ne hvt] at hv
      exact h.unique hu hv

theorem release (h : Exclusive slots held) (ht : held t = some (k, n)) :
    Exclusive (Function.update slots k none) (Function.update held t none) := by
  -- what is held afterwards was held before, by another task
  have hother {u x} (hu : Function.update held t none u = some x) : u ≠ t ∧ held u = some x := by
    by_cases hut : u = t
    · subst hut
      rw [Function.update_self] at hu
      cases hu
    · rw [Function.update_of_ne hut] at hu
      exact ⟨hut, hu⟩
  constructor
  · intro u k' m hu
    obtain ⟨hut, hu⟩ := hother hu
    have hkk : k' ≠ k := by
      rintro rfl
      exact hut (h.unique hu ht)
    rw [Function.update_of_ne hkk]
    exact h.slot_of_held hu
  · intro k' m hk'
    by_cases hkk : k' = k
    · subst hkk
      rw [Function.update_self] at hk'
      cases hk'
    · rw [Function.update_of_ne hkk] at hk'
      obtain ⟨u, hu⟩ := h.held_of_slot hk'
      have hut : u ≠ t := by
        rintro rfl
        rw [ht] at hu
        cases hu
        exact hkk rfl
      exact ⟨u, by rw [Function.update_of_ne hut, hu]⟩
  · intro u v k' m m' hu hv
    exact h.unique (hother hu).2 (hother hv).2

end Exclusive

end CronManager

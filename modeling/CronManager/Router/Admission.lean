import CronManager.Router.Handlers

/-!
# The bounds of the throttle

`ReloadGate::admit` over any sequence of calls, for any groups and intervals, with a clock that
does not run backwards (`Reachable`).

* `Bounded.admits` : a call keeps the map within `MAX_ENTRIES`, and its times in the past;
* `admits_error_iff` : when a call is refused, and for how long;
* `admits_bounded_tight` : the map never grows beyond its bound, a call that is refused or not
  limited leaves it alone, and the time to wait is exact.
-/

namespace CronManager

open Rust

namespace ReloadGate

/-! ### Runs -/

/-- The gates that a sequence of calls leaves, with the time of the last one.  Between two calls
nothing fixes the order in which the map is iterated over. -/
inductive Reachable : ReloadGate → ℕ → Prop
  | new (now : ℕ) : Reachable ∅ now
  | rehash {gate gate' : ReloadGate} {now : ℕ} (h : Reachable gate now)
      (hperm : gate'.entries.Perm gate.entries) : Reachable gate' now
  | call {gate : ReloadGate} {now now' : ℕ} (h : Reachable gate now) (group : String)
      (minIntervalSecs : UInt64) (hle : now ≤ now') :
      Reachable (gate.admits group minIntervalSecs.toNat now').1 now'

/-- There are at most `MAX_ENTRIES` entries, and no admission is noted for the future. -/
structure Bounded (gate : ReloadGate) (now : ℕ) : Prop where
  len_le : gate.len ≤ maxEntries
  past : ∀ g t, gate.lookup g = some t → t ≤ now

variable {gate : ReloadGate} {group : String} {m now now' last w : ℕ}

/-! ### Making room -/

/-- The map without the stale entries. -/
def dropStale (gate : ReloadGate) (m now : ℕ) : ReloadGate :=
  let staleAfter := saturatingMul m evictStaleMultiplier
  if 0 < staleAfter then gate.retain fun _ last => elapsedSecs now last < staleAfter else gate

/-- What `admit` leaves of the map before it notes an admission. -/
def makeRoom (gate : ReloadGate) (group : String) (m now : ℕ) : ReloadGate :=
  let kept := gate.dropStale m now
  if maxEntries ≤ kept.len ∧ group ∉ kept then dropOldest kept else kept

theorem lookup_dropStale {g : String} {t : ℕ} (h : (gate.dropStale m now).lookup g = some t) :
    gate.lookup g = some t := by
  simp only [dropStale] at h
  split_ifs at h
  · exact (HashMap.lookup_retain.1 h).1
  · exact h

theorem lookup_dropOldest {g : String} {t : ℕ} (h : (dropOldest gate).lookup g = some t) :
    gate.lookup g = some t := by
  unfold dropOldest at h
  split at h
  · rw [HashMap.lookup_erase_eq] at h
    split_ifs at h
    exact h
  · exact h

theorem lookup_makeRoom {g : String} {t : ℕ} (h : (gate.makeRoom group m now).lookup g = some t) :
    gate.lookup g = some t := by
  simp only [makeRoom] at h
  split_ifs at h
  · exact lookup_dropStale (lookup_dropOldest h)
  · exact lookup_dropStale h

theorem len_dropStale_le : (gate.dropStale m now).len ≤ gate.len := by
  simp only [dropStale]
  split_ifs
  · exact HashMap.len_retain_le
  · exact le_refl _

theorem len_dropOldest (h : gate.len ≠ 0) : (dropOldest gate).len = gate.len - 1 := by
  unfold dropOldest
  cases hmin : gate.entries.argmin fun e => e.2 with
  | none => exact absurd (congrArg List.length (List.argmin_eq_none.1 hmin)) h
  | some oldest =>
    have hmem : oldest.1 ∈ gate := List.mem_keys_of_mem (List.argmin_mem hmin)
    exact HashMap.len_erase hmem

/-- There is room for the entry of the group: it is not a new one, the map is not full, or the
oldest entry makes way. -/
theorem len_insert_makeRoom (hlen : gate.len ≤ maxEntries) (t : ℕ) :
    HashMap.len ((gate.makeRoom group m now).insert group t) ≤ maxEntries := by
  have hkept : (gate.dropStale m now).len ≤ maxEntries := len_dropStale_le.trans hlen
  simp only [makeRoom]
  generalize gate.dropStale m now = kept at hkept ⊢
  split_ifs with hfull
  · have hne : kept.len ≠ 0 := by
      have hpos : 0 < maxEntries := by decide
      omega
    have hdrop := len_dropOldest hne
    have hinsert := @HashMap.len_insert_le _ _ _ (dropOldest kept) group t
    omega
  · by_cases hmem : group ∈ kept
    · rw [HashMap.len_insert_of_mem hmem]
      exact hkept
    · have hinsert := @HashMap.len_insert_le _ _ _ kept group t
      have hroom : kept.len < maxEntries := Nat.not_le.1 fun hle => hfull ⟨hle, hmem⟩
      omega

/-! ### One call -/

/-- The last admission of the group does not lie a full interval back. -/
def TooSoon (gate : ReloadGate) (group : String) (m now last : ℕ) : Prop :=
  gate.lookup group = some last ∧ elapsedSecs now last < m

/-- **What a call does**: nothing when there is no interval, a refusal that leaves the map alone,
or an admission. -/
theorem admits_cases (gate : ReloadGate) (group : String) (m now : ℕ) :
    (m = 0 ∧ gate.admits group m now = (gate, .ok ())) ∨
      (∃ last, gate.TooSoon group m now last ∧
        gate.admits group m now = (gate, .error (m - elapsedSecs now last))) ∨
      (m ≠ 0 ∧ (∀ last, ¬ gate.TooSoon group m now last) ∧
        gate.admits group m now = ((gate.makeRoom group m now).insert group now, .ok ())) := by
  unfold admits
  by_cases hm : m = 0
  · exact .inl ⟨hm, if_pos hm⟩
  · rw [if_neg hm]
    cases hlast : (gate.lookup group).filter fun last => elapsedSecs now last < m with
    | some last =>
      obtain ⟨hlookup, hsoon⟩ := Option.filter_eq_some_iff.1 hlast
      exact .inr (.inl ⟨last, ⟨hlookup, of_decide_eq_true hsoon⟩, rfl⟩)
    | none =>
      refine .inr (.inr ⟨hm, fun last hsoon => ?_, rfl⟩)
      have hnone := Option.filter_eq_none_iff.1 hlast last hsoon.1
      exact hnone (decide_eq_true hsoon.2)

theorem admits_error_iff : (gate.admits group m now).2 = .error w ↔
    ∃ last, gate.TooSoon group m now last ∧ w = m - elapsedSecs now last := by
  rcases admits_cases gate group m now with ⟨rfl, heq⟩ | ⟨last, hsoon, heq⟩ | ⟨-, hnot, heq⟩
  · rw [heq]
    refine iff_of_false (by rintro ⟨⟩) ?_
    rintro ⟨last, hsoon, -⟩
    exact absurd hsoon.2 (Nat.not_lt_zero _)
  · rw [heq]
    constructor
    · rintro ⟨⟩
      exact ⟨last, hsoon, rfl⟩
    · rintro ⟨last', hsoon', rfl⟩
      rw [Option.some.inj (hsoon'.1.symm.trans hsoon.1)]
  · rw [heq]
    refine iff_of_false (by rintro ⟨⟩) ?_
    rintro ⟨last, hsoon, -⟩
    exact hnot last hsoon

theorem admits_ok_iff : (gate.admits group m now).2 = .ok () ↔
    ∀ last, ¬ gate.TooSoon group m now last := by
  constructor
  · intro hok last hsoon
    rw [admits_error_iff.2 ⟨last, hsoon, rfl⟩] at hok
    cases hok
  · intro hnot
    cases hresult : (gate.admits group m now).2 with
    | ok => rfl
    | error w =>
      obtain ⟨last, hsoon, -⟩ := admits_error_iff.1 hresult
      exact absurd hsoon (hnot last)

theorem admits_fst_eq_self (h : m = 0 ∨ ∃ w, (gate.admits group m now).2 = .error w) :
    (gate.admits group m now).1 = gate := by
  rcases admits_cases gate group m now with ⟨-, heq⟩ | ⟨last, -, heq⟩ | ⟨hm, -, heq⟩
  · rw [heq]
  · rw [heq]
  · rcases h with rfl | ⟨w, hw⟩
    · exact absurd rfl hm
    · rw [heq] at hw
      cases hw

/-! ### Runs stay within the bounds -/

theorem bounded_empty (now : ℕ) : Bounded ∅ now where
  len_le := Nat.zero_le _
  past := by
    intro g t h
    rw [AList.lookup_empty] at h
    cases h

theorem Bounded.perm {gate' : ReloadGate} (h : gate.Bounded now)
    (hperm : gate'.entries.Perm gate.entries) : gate'.Bounded now where
  len_le := hperm.length_eq.trans_le h.len_le
  past := fun g t ht => h.past g t (by rwa [AList.perm_lookup hperm] at ht)

/-- **One call keeps the bounds.** -/
theorem Bounded.admits (h : gate.Bounded now) (hle : now ≤ now') (group : String) (m : ℕ) :
    Bounded (gate.admits group m now').1 now' := by
  have hlater : gate.Bounded now' := ⟨h.len_le, fun g t ht => (h.past g t ht).trans hle⟩
  rcases admits_cases gate group m now' with ⟨-, heq⟩ | ⟨last, -, heq⟩ | ⟨-, -, heq⟩
  · rw [heq]
    exact hlater
  · rw [heq]
    exact hlater
  · rw [heq]
    refine ⟨len_insert_makeRoom h.len_le now', fun g t ht => ?_⟩
    rw [HashMap.lookup_insert_eq] at ht
    split_ifs at ht with hg
    · exact (Option.some.inj ht).ge
    · exact hlater.past g t (lookup_makeRoom ht)

theorem Reachable.bounded (h : Reachable gate now) : gate.Bounded now := by
  induction h with
  | new now => exact bounded_empty now
  | rehash _ hperm ih => exact ih.perm hperm
  | call _ group minIntervalSecs hle ih => exact ih.admits hle group minIntervalSecs.toNat

/-! ### The time to wait -/

theorem elapsedSecs_add (h : last ≤ now) (k : ℕ) :
    elapsedSecs (now + k * 1000000000) last = elapsedSecs now last + k := by
  rw [elapsedSecs, elapsedSecs, Nat.sub_add_comm h, Nat.add_mul_div_right _ _ (by decide)]

/-- The map never grows beyond its bound, a call that is refused or not limited leaves it alone,
and the time to wait is exact: it is a second up to the interval, and the same call is refused one
second earlier and admitted then. -/
theorem admits_bounded_tight (hgate : Reachable gate now) (hle : now ≤ now') (group : String)
    (minIntervalSecs : UInt64) :
    gate.len ≤ maxEntries ∧
      (minIntervalSecs = 0 ∨
          (∃ w, (gate.admits group minIntervalSecs.toNat now').2 = .error w) →
        (gate.admits group minIntervalSecs.toNat now').1 = gate) ∧
      ∀ w, (gate.admits group minIntervalSecs.toNat now').2 = .error w →
        1 ≤ w ∧ w ≤ minIntervalSecs.toNat ∧
          (∃ w', ((gate.admits group minIntervalSecs.toNat now').1.admits group
            minIntervalSecs.toNat (now' + (w - 1) * 1000000000)).2 = .error w') ∧
          ((gate.admits group minIntervalSecs.toNat now').1.admits group
            minIntervalSecs.toNat (now' + w * 1000000000)).2 = .ok () := by
  have hbounded := hgate.bounded
  refine ⟨hbounded.len_le, ?_, fun w hw => ?_⟩
  · rintro (rfl | hrefused)
    · exact admits_fst_eq_self (.inl rfl)
    · exact admits_fst_eq_self (.inr hrefused)
  · rw [admits_fst_eq_self (.inr ⟨w, hw⟩)]
    obtain ⟨last, hsoon, rfl⟩ := admits_error_iff.1 hw
    have hpast : last ≤ now' := (hbounded.past group last hsoon.1).trans hle
    have hlt := hsoon.2
    refine ⟨by omega, Nat.sub_le _ _, ⟨_, admits_error_iff.2 ⟨last, ⟨hsoon.1, ?_⟩, rfl⟩⟩, ?_⟩
    · rw [elapsedSecs_add hpast]
      omega
    · refine admits_ok_iff.2 fun last' hsoon' => ?_
      obtain rfl := Option.some.inj (hsoon'.1.symm.trans hsoon.1)
      have hnot := hsoon'.2
      rw [elapsedSecs_add hpast] at hnot
      omega

/-- The gate that has just admitted the group `a`. -/
def gateOfA : ReloadGate := (ReloadGate.admits ∅ "a" 60 0).1

/-- 58 seconds after an admission the wait is two seconds, and it is exact. -/
theorem admits_bounded_tight_minute :
    (gateOfA.admits "a" 60 58999999999).2 = .error 2 ∧
      gateOfA.len ≤ maxEntries ∧ (gateOfA.admits "a" 60 58999999999).1 = gateOfA ∧
      (∃ w', ((gateOfA.admits "a" 60 58999999999).1.admits "a" 60 59999999999).2 = .error w') ∧
      ((gateOfA.admits "a" 60 58999999999).1.admits "a" 60 60999999999).2 = .ok () := by
  have hrefused : (gateOfA.admits "a" 60 58999999999).2 = .error 2 := by decide
  obtain ⟨hlen, hsame, htight⟩ := admits_bounded_tight
    ((Reachable.new 0).call "a" 60 (le_refl 0)) (Nat.zero_le 58999999999) "a" 60
  exact ⟨hrefused, hlen, hsame (.inr ⟨2, hrefused⟩), (htight 2 hrefused).2.2⟩

end ReloadGate

end CronManager

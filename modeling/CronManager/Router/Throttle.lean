import CronManager.Router.Admission

/-!
# What the throttle forgets

`ReloadGate::admit` drops entries in two places when it admits a group: those of any group that
are older than ten intervals, and the oldest one when the map is full.  Neither is seen from
outside.  `verdicts_eq_reference` compares the gate with one that keeps the last admission of
every group for ever: with a clock that does not run backwards and at most `MAX_ENTRIES` groups the
two answer every call alike, with the same time to wait.
-/

namespace CronManager

open Rust

namespace ReloadGate

/-! ### The reference -/

/-- When each group was last admitted, for ever. -/
abbrev Admissions := String → Option ℕ

/-- The gate that never forgets. -/
def Admissions.admits (last : Admissions) (group : String) (minIntervalSecs now : ℕ) :
    Admissions × Except ℕ Unit :=
  match (last group).filter fun t => elapsedSecs now t < minIntervalSecs with
  | some t => (last, .error (minIntervalSecs - elapsedSecs now t))
  | none => (Function.update last group (some now), .ok ())

/-- The answers of a gate to a sequence of calls, each for a group and at a time. -/
def verdicts {S : Type} (call : S → String → ℕ → S × Except ℕ Unit) :
    S → List (String × ℕ) → List (Except ℕ Unit)
  | _, [] => []
  | s, (group, now) :: calls => (call s group now).2 :: verdicts call (call s group now).1 calls

/-! ### The simulation -/

variable {gate : ReloadGate} {last : Admissions} {names : Finset String} {group : String}
  {m now now' : ℕ}

/-- At time `now` the gate has forgotten only what can no longer refuse a call. -/
structure Follows (m : ℕ) (names : Finset String) (now : ℕ) (gate : ReloadGate)
    (last : Admissions) : Prop where
  kept : ∀ g t, gate.lookup g = some t → last g = some t
  forgotten : ∀ g t, last g = some t → gate.lookup g = some t ∨ m ≤ elapsedSecs now t
  named : ∀ g ∈ gate, g ∈ names

theorem elapsedSecs_mono (h : now ≤ now') (t : ℕ) : elapsedSecs now t ≤ elapsedSecs now' t :=
  Nat.div_le_div_right (Nat.sub_le_sub_right h t)

theorem follows_empty (m : ℕ) (names : Finset String) (now : ℕ) :
    Follows m names now ∅ fun _ => none where
  kept := by
    intro g t h
    rw [AList.lookup_empty] at h
    cases h
  forgotten := by rintro g t ⟨⟩
  named := fun g h => absurd h (AList.notMem_empty g)

theorem Follows.later (h : Follows m names now gate last) (hle : now ≤ now') :
    Follows m names now' gate last where
  kept := h.kept
  forgotten := fun g t ht => (h.forgotten g t ht).imp id fun hold =>
    hold.trans (elapsedSecs_mono hle t)
  named := h.named

theorem Follows.tooSoon_iff (h : Follows m names now gate last) (group : String) (t : ℕ) :
    gate.TooSoon group m now t ↔ last group = some t ∧ elapsedSecs now t < m := by
  constructor
  · rintro ⟨hlookup, hsoon⟩
    exact ⟨h.kept group t hlookup, hsoon⟩
  · rintro ⟨hlast, hsoon⟩
    rcases h.forgotten group t hlast with hkept | hold
    · exact ⟨hkept, hsoon⟩
    · exact absurd hsoon (Nat.not_lt.2 hold)

theorem le_saturatingMul (h : m < 2 ^ 64) : m ≤ saturatingMul m evictStaleMultiplier := by
  rw [saturatingMul, evictStaleMultiplier, Nat.le_min]
  omega

/-- Dropping the stale entries leaves nothing behind that could refuse a call. -/
theorem Follows.retain (h : Follows m names now gate last) {staleAfter : ℕ}
    (hle : m ≤ staleAfter) :
    Follows m names now (gate.retain fun _ t => elapsedSecs now t < staleAfter) last where
  kept := fun g t ht => h.kept g t (HashMap.lookup_retain.1 ht).1
  forgotten := by
    intro g t ht
    rcases h.forgotten g t ht with hgate | hold
    · by_cases hstale : elapsedSecs now t < staleAfter
      · exact .inl (HashMap.lookup_retain.2 ⟨hgate, decide_eq_true hstale⟩)
      · exact .inr (hle.trans (Nat.not_lt.1 hstale))
    · exact .inr hold
  named := by
    intro g hg
    obtain ⟨t, ht⟩ := Option.isSome_iff_exists.1 (AList.lookup_isSome.2 hg)
    exact h.named g (AList.lookup_isSome.1 (by rw [(HashMap.lookup_retain.1 ht).1]; rfl))

/-- With room for every group, a group that is not in the map finds it not full. -/
theorem Follows.not_full (h : Follows m names now gate last) (hgroup : group ∈ names)
    (hnames : names.card ≤ maxEntries) : ¬ (maxEntries ≤ gate.len ∧ group ∉ gate) := by
  rintro ⟨hfull, hnew⟩
  have hothers : ∀ g ∈ gate, g ∈ names.erase group := by
    intro g hg
    refine Finset.mem_erase.2 ⟨?_, h.named g hg⟩
    rintro rfl
    exact hnew hg
  have hlen := HashMap.len_le_card hothers
  have hpos : 0 < names.card := Finset.card_pos.2 ⟨group, hgroup⟩
  rw [Finset.card_erase_of_mem hgroup] at hlen
  omega

theorem Follows.insert (h : Follows m names now gate last) (hgroup : group ∈ names) (t : ℕ) :
    Follows m names now (gate.insert group t) (Function.update last group (some t)) where
  kept := by
    intro g t' ht
    rw [HashMap.lookup_insert_eq] at ht
    split_ifs at ht with hg
    · rw [hg, Function.update_self, ht]
    · rw [Function.update_of_ne hg]
      exact h.kept g t' ht
  forgotten := by
    intro g t' ht
    rw [HashMap.lookup_insert_eq]
    by_cases hg : g = group
    · rw [hg, Function.update_self] at ht
      rw [if_pos hg]
      exact .inl ht
    · rw [Function.update_of_ne hg] at ht
      rw [if_neg hg]
      exact h.forgotten g t' ht
  named := by
    intro g hg
    rcases (AList.mem_insert _).1 hg with rfl | hg
    · exact hgroup
    · exact h.named g hg

/-- With room for every group, only stale entries make way for a new one. -/
theorem Follows.makeRoom (h : Follows m names now gate last) (hpos : 0 < m) (hm : m < 2 ^ 64)
    (hgroup : group ∈ names) (hnames : names.card ≤ maxEntries) :
    Follows m names now (gate.makeRoom group m now) last := by
  have hstale := le_saturatingMul hm
  have hdrop : Follows m names now (gate.dropStale m now) last := by
    simp only [dropStale, if_pos (hpos.trans_le hstale)]
    exact h.retain hstale
  simp only [ReloadGate.makeRoom, if_neg (hdrop.not_full hgroup hnames)]
  exact hdrop

/-- **One call**: the two gates answer alike and stay together. -/
theorem Follows.admits (h : Follows m names now gate last) (hpos : 0 < m) (hm : m < 2 ^ 64)
    (hgroup : group ∈ names) (hnames : names.card ≤ maxEntries) :
    (gate.admits group m now).2 = (last.admits group m now).2 ∧
      Follows m names now (gate.admits group m now).1 (last.admits group m now).1 := by
  rw [Admissions.admits]
  rcases admits_cases gate group m now with ⟨rfl, -⟩ | ⟨t, hsoon, heq⟩ | ⟨-, hnot, heq⟩
  · exact absurd hpos (lt_irrefl 0)
  · obtain ⟨hlast, hlt⟩ := (h.tooSoon_iff group t).1 hsoon
    rw [heq, hlast, Option.filter_some, decide_eq_true hlt]
    exact ⟨rfl, h⟩
  · have hnone : ((last group).filter fun t => elapsedSecs now t < m) = none := by
      refine Option.filter_eq_none_iff.2 fun t hlast hlt => hnot t ?_
      exact (h.tooSoon_iff group t).2 ⟨hlast, of_decide_eq_true hlt⟩
    rw [heq, hnone]
    exact ⟨rfl, (h.makeRoom hpos hm hgroup hnames).insert hgroup now⟩

theorem Follows.verdicts_eq {calls : List (String × ℕ)} (h : Follows m names now gate last)
    (hpos : 0 < m) (hm : m < 2 ^ 64) (hnames : names.card ≤ maxEntries)
    (hcalls : ∀ call ∈ calls, call.1 ∈ names ∧ now ≤ call.2)
    (hclock : calls.Pairwise fun call call' => call.2 ≤ call'.2) :
    verdicts (fun gate group now => gate.admits group m now) gate calls =
      verdicts (fun last group now => last.admits group m now) last calls := by
  induction calls generalizing gate last now with
  | nil => rfl
  | cons call calls ih =>
    obtain ⟨hgroup, hnow⟩ := hcalls call List.mem_cons_self
    obtain ⟨hfirst, hrest⟩ := List.pairwise_cons.1 hclock
    obtain ⟨hanswer, hnext⟩ := (h.later hnow).admits hpos hm hgroup hnames
    rw [verdicts, verdicts, hanswer]
    refine congrArg _ (ih hnext (fun call' hcall' => ?_) hrest)
    exact ⟨(hcalls call' (List.mem_cons_of_mem _ hcall')).1, hfirst call' hcall'⟩

/-- **The throttle behaves as if it never forgot**: for a positive interval, a clock that does not
run backwards and at most `MAX_ENTRIES` groups, from the empty gate on. -/
theorem verdicts_eq_reference (minIntervalSecs : UInt64) (calls : List (String × ℕ))
    (hpos : 0 < minIntervalSecs) (hclock : calls.Pairwise fun call call' => call.2 ≤ call'.2)
    (hnames : (calls.map (·.1)).toFinset.card ≤ maxEntries) :
    verdicts (fun gate group now => ReloadGate.admits gate group minIntervalSecs.toNat now) ∅
        calls =
      verdicts (fun last group now => Admissions.admits last group minIntervalSecs.toNat now)
        (fun _ => none) calls := by
  refine (follows_empty minIntervalSecs.toNat (calls.map (·.1)).toFinset 0).verdicts_eq
    hpos minIntervalSecs.toNat_lt hnames (fun call hcall => ⟨?_, Nat.zero_le _⟩) hclock
  exact List.mem_toFinset.2 (List.mem_map_of_mem hcall)

/-- Two groups at an interval of a minute: an entry that is eleven minutes old is dropped on the
way, and the answers are those of the reference. -/
theorem verdicts_eq_reference_minute :
    verdicts (fun gate group now => ReloadGate.admits gate group 60 now) ∅
        [("a", 0), ("a", 59999999999), ("b", 660000000000), ("a", 660000000000)] =
      [.ok (), .error 1, .ok (), .ok ()] ∧
    verdicts (fun gate group now => ReloadGate.admits gate group 60 now) ∅
        [("a", 0), ("a", 59999999999), ("b", 660000000000), ("a", 660000000000)] =
      verdicts (fun last group now => Admissions.admits last group 60 now) (fun _ => none)
        [("a", 0), ("a", 59999999999), ("b", 660000000000), ("a", 660000000000)] :=
  ⟨by decide, verdicts_eq_reference 60 _ (by decide) (by decide) (by decide)⟩

end ReloadGate

end CronManager

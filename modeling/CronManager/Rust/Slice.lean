import CronManager.Rust.Str

/-!
# Slices of a text at byte offsets

Rust addresses a `str` by bytes: `len` counts the bytes of its UTF-8 form and a slice
`&s[..n]` panics unless `n` lies on a character boundary.  Here a slice is an `Option`, `none`
standing for the panic.

A character has one to four bytes, so that every offset inside a text has a character around it
(`exists_char_around`) and hence a boundary at most three bytes below and above it.
-/

namespace CronManager

namespace Rust

variable {s a b : List Char} {n : ℕ}

/-! ### Lengths -/

@[simp] theorem byteLen_nil : byteLen [] = 0 := rfl

@[simp] theorem byteLen_append (a b : List Char) : byteLen (a ++ b) = byteLen a + byteLen b := by
  simp only [byteLen, bytes, List.flatMap_append, List.length_append]

theorem byteLen_cons (c : Char) (s : List Char) : byteLen (c :: s) = byteLen [c] + byteLen s :=
  byteLen_append [c] s

theorem byteLen_singleton (c : Char) : byteLen [c] = c.utf8Size := by
  simp only [byteLen, bytes, List.flatMap_cons, List.flatMap_nil, List.append_nil,
    String.length_utf8EncodeChar]

theorem byteLen_singleton_pos (c : Char) : 0 < byteLen [c] := by
  rw [byteLen_singleton]
  exact c.utf8Size_pos

theorem byteLen_singleton_le (c : Char) : byteLen [c] ≤ 4 := by
  rw [byteLen_singleton]
  exact c.utf8Size_le_four

theorem length_le_byteLen (s : List Char) : s.length ≤ byteLen s := by
  induction s with
  | nil => exact le_rfl
  | cons c s ih =>
    have hpos := byteLen_singleton_pos c
    rw [List.length_cons, byteLen_cons]
    omega

/-! ### Cutting at a byte -/

theorem splitAtByte_append (a b : List Char) : splitAtByte (a ++ b) (byteLen a) = some (a, b) := by
  induction a with
  | nil => cases b <;> rfl
  | cons c a ih =>
    obtain ⟨n, hn⟩ := Nat.exists_eq_add_of_lt (byteLen_singleton_pos c)
    have hlen : byteLen (c :: a) = n + byteLen a + 1 := by
      rw [byteLen_cons, hn]
      omega
    have hfits : byteLen [c] ≤ n + byteLen a + 1 := by omega
    have hrest : n + byteLen a + 1 - byteLen [c] = byteLen a := by omega
    rw [hlen, List.cons_append, splitAtByte, if_pos hfits, hrest, ih, Option.map_some]

/-- **A cut divides the text at its offset.** -/
theorem splitAtByte_eq_some : splitAtByte s n = some (a, b) ↔ s = a ++ b ∧ byteLen a = n := by
  constructor
  · intro h
    fun_induction splitAtByte s n generalizing a with
    | case1 s =>
      obtain ⟨rfl, rfl⟩ := Prod.mk.inj (Option.some.inj h)
      exact ⟨rfl, rfl⟩
    | case2 n => cases h
    | case3 c s n hfits ih =>
      obtain ⟨ab, hab, heq⟩ := Option.map_eq_some_iff.1 h
      obtain ⟨rfl, rfl⟩ := Prod.mk.inj heq
      obtain ⟨hs, hlen⟩ := ih hab
      refine ⟨congrArg (c :: ·) hs, ?_⟩
      rw [byteLen_cons, hlen]
      omega
    | case4 c s n hfits => cases h
  · rintro ⟨rfl, rfl⟩
    exact splitAtByte_append a b

/-- `str::is_char_boundary`. -/
def isCharBoundary (s : List Char) (n : ℕ) : Bool := (splitAtByte s n).isSome

/-- `&s[..n]`. -/
def sliceTo (s : List Char) (n : ℕ) : Option (List Char) := (splitAtByte s n).map (·.1)

/-- `&s[n..]`. -/
def sliceFrom (s : List Char) (n : ℕ) : Option (List Char) := (splitAtByte s n).map (·.2)

theorem isCharBoundary_iff : isCharBoundary s n = true ↔ ∃ a b, s = a ++ b ∧ byteLen a = n := by
  rw [isCharBoundary, Option.isSome_iff_exists]
  constructor
  · rintro ⟨⟨a, b⟩, h⟩
    exact ⟨a, b, splitAtByte_eq_some.1 h⟩
  · rintro ⟨a, b, h⟩
    exact ⟨(a, b), splitAtByte_eq_some.2 h⟩

theorem isCharBoundary_append (a b : List Char) : isCharBoundary (a ++ b) (byteLen a) = true :=
  isCharBoundary_iff.2 ⟨a, b, rfl, rfl⟩

theorem sliceTo_append (a b : List Char) : sliceTo (a ++ b) (byteLen a) = some a := by
  rw [sliceTo, splitAtByte_append, Option.map_some]

theorem sliceFrom_append (a b : List Char) : sliceFrom (a ++ b) (byteLen a) = some b := by
  rw [sliceFrom, splitAtByte_append, Option.map_some]

theorem isCharBoundary_zero (s : List Char) : isCharBoundary s 0 = true :=
  isCharBoundary_append [] s

theorem isCharBoundary_byteLen (s : List Char) : isCharBoundary s (byteLen s) = true := by
  simpa using isCharBoundary_append s []

theorem exists_parts_of_boundaries {i j : ℕ} (hij : i ≤ j) (hi : isCharBoundary s i = true)
    (hj : isCharBoundary s j = true) :
    ∃ head mid tail, s = head ++ mid ++ tail ∧ byteLen head = i ∧ byteLen (head ++ mid) = j := by
  obtain ⟨head, rest, hs, hhead⟩ := isCharBoundary_iff.1 hi
  obtain ⟨front, tail, hs', hfront⟩ := isCharBoundary_iff.1 hj
  have hcmp := hs.symm.trans hs'
  rcases List.append_eq_append_iff.1 hcmp with ⟨mid, rfl, -⟩ | ⟨mid, rfl, rfl⟩
  · exact ⟨head, mid, tail, hs', hhead, hfront⟩
  · -- the second cut is not before the first, so nothing lies between them
    have hmid : byteLen mid = 0 := by
      rw [byteLen_append] at hhead
      omega
    refine ⟨front ++ mid, [], rest, by simpa using hs, hhead, ?_⟩
    rw [List.append_nil, byteLen_append, hmid]
    omega

/-! ### Boundaries around an offset -/

theorem exists_char_around (h : n < byteLen s) :
    ∃ a c b, s = a ++ c :: b ∧ byteLen a ≤ n ∧ n < byteLen a + byteLen [c] := by
  induction s generalizing n with
  | nil => exact absurd h (Nat.not_lt_zero n)
  | cons c s ih =>
    by_cases hc : n < byteLen [c]
    · exact ⟨[], c, s, rfl, Nat.zero_le n, by simpa using hc⟩
    · rw [byteLen_cons] at h
      obtain ⟨a, d, b, rfl, hle, hlt⟩ := ih (n := n - byteLen [c]) (by omega)
      refine ⟨c :: a, d, b, rfl, ?_, ?_⟩
      · rw [byteLen_cons]
        omega
      · rw [byteLen_cons]
        omega

theorem exists_boundary_below (h : n < byteLen s) :
    ∃ k, k ≤ n ∧ n ≤ k + 3 ∧ isCharBoundary s k = true := by
  obtain ⟨a, c, b, rfl, hle, hlt⟩ := exists_char_around h
  have hc := byteLen_singleton_le c
  exact ⟨byteLen a, hle, by omega, isCharBoundary_append a (c :: b)⟩

theorem exists_boundary_above (h : n < byteLen s) :
    ∃ k, n ≤ k ∧ k ≤ n + 3 ∧ isCharBoundary s k = true := by
  obtain ⟨a, c, b, rfl, hle, hlt⟩ := exists_char_around h
  have hc := byteLen_singleton_le c
  rcases hle.eq_or_lt with heq | hlt'
  · -- the offset is itself a boundary
    exact ⟨n, le_rfl, by omega, heq ▸ isCharBoundary_append a (c :: b)⟩
  · have hbound := isCharBoundary_append (a ++ [c]) b
    rw [List.append_assoc, List.singleton_append] at hbound
    refine ⟨byteLen (a ++ [c]), ?_, ?_, hbound⟩
    · rw [byteLen_append]
      omega
    · rw [byteLen_append]
      omega

end Rust

end CronManager

import CronManager.Rust.Slice
import CronManager.Security

/-!
# Stored and logged text

The rest of the sanitisers of `src/security.rs`: `sanitize_for_persistence`, which escapes like
`sanitize_for_log` but has no cap, and `truncate_response_body`, which keeps the head and the
tail of the escaped body around a marker.

Slices, the two boundary loops and the subtractions return an `Option`, `none` standing for a
panic, so that `truncateResponseBody_eq` also says that none of them happens.

`LogLine` is the loop of `sanitize_for_log` with the byte count it keeps by hand; the count is the
length of what it has written (`LogLine.Counted`), so that the capped and the uncapped text agree
(`sanitizeForLog_eq_or_truncated`).
-/

namespace CronManager

open Rust

/-! ### The model -/

/-- `sanitize_for_persistence`. -/
def sanitizeForPersistence (s : List Char) : List Char := s.flatMap escapeChar

/-- `while !s.is_char_boundary(idx) { idx -= 1 }`; `none` when the subtraction underflows. -/
def floorLoop (s : List Char) : ℕ → Option ℕ
  | 0 => if isCharBoundary s 0 then some 0 else none
  | idx + 1 => if isCharBoundary s (idx + 1) then some (idx + 1) else floorLoop s idx

/-- `char_boundary_floor`. -/
def charBoundaryFloor (s : List Char) (idx : ℕ) : Option ℕ :=
  if byteLen s ≤ idx then some (byteLen s) else floorLoop s idx

/-- `while !s.is_char_boundary(idx) { idx += 1 }`, for `fuel` rounds at most. -/
def ceilLoop (s : List Char) : ℕ → ℕ → Option ℕ
  | 0, _ => none
  | fuel + 1, idx => if isCharBoundary s idx then some idx else ceilLoop s fuel (idx + 1)

/-- `char_boundary_ceil`.  The loop has one round for every offset up to the end of the text:
past it no offset is a boundary and the loop would not return. -/
def charBoundaryCeil (s : List Char) (idx : ℕ) : Option ℕ :=
  if byteLen s ≤ idx then some (byteLen s) else ceilLoop s (byteLen s - idx + 1) idx

/-- `a - b` on `usize`; `none` when it underflows. -/
def checkedSub (a b : ℕ) : Option ℕ := if b ≤ a then some (a - b) else none

/-- `"\n… [{} bytes truncated] …\n"`. -/
def truncationMarker (truncated : ℕ) : List Char :=
  "\n… [".toList ++ decimal truncated ++ " bytes truncated] …\n".toList

/-- `truncate_response_body`. -/
def truncateResponseBody (s : List Char) (max : ℕ) : Option (List Char) :=
  let clean := sanitizeForPersistence s
  if byteLen clean ≤ max then some clean
  else do
    let half := max / 2
    let headEnd ← charBoundaryFloor clean half
    -- `saturating_sub`
    let tailStart ← charBoundaryCeil clean (byteLen clean - half)
    let kept ← checkedSub (byteLen clean) tailStart
    let truncated ← checkedSub (byteLen clean) (headEnd + kept)
    let head ← sliceTo clean headEnd
    let tail ← sliceFrom clean tailStart
    return head ++ truncationMarker truncated ++ tail

/-! ### The boundary loops -/

variable {s : List Char} {idx k : ℕ}

theorem floorLoop_eq_some (hk : k ≤ idx) (hbound : isCharBoundary s k = true) :
    ∃ i, floorLoop s idx = some i ∧ k ≤ i ∧ i ≤ idx ∧ isCharBoundary s i = true := by
  induction idx with
  | zero =>
    have hzero : isCharBoundary s 0 = true := isCharBoundary_zero s
    exact ⟨0, by rw [floorLoop, if_pos hzero], hk, le_rfl, hzero⟩
  | succ idx ih =>
    by_cases hi : isCharBoundary s (idx + 1) = true
    · exact ⟨idx + 1, by rw [floorLoop, if_pos hi], hk, le_rfl, hi⟩
    · have hne : k ≠ idx + 1 := fun hk' => hi (hk' ▸ hbound)
      obtain ⟨i, hloop, hki, hile, hib⟩ := ih (by omega)
      exact ⟨i, by rw [floorLoop, if_neg hi, hloop], hki, by omega, hib⟩

theorem ceilLoop_eq_some {fuel : ℕ} (hk : idx ≤ k) (hfuel : k < idx + fuel)
    (hbound : isCharBoundary s k = true) :
    ∃ i, ceilLoop s fuel idx = some i ∧ idx ≤ i ∧ i ≤ k ∧ isCharBoundary s i = true := by
  induction fuel generalizing idx with
  | zero => exact absurd hfuel (by omega)
  | succ fuel ih =>
    by_cases hi : isCharBoundary s idx = true
    · exact ⟨idx, by rw [ceilLoop, if_pos hi], le_rfl, hk, hi⟩
    · have hne : idx ≠ k := fun hk' => hi (hk' ▸ hbound)
      obtain ⟨i, hloop, hle, hik, hib⟩ := @ih (idx + 1) (by omega) (by omega)
      exact ⟨i, by rw [ceilLoop, if_neg hi, hloop], by omega, hik, hib⟩

theorem charBoundaryFloor_eq_some (h : idx < byteLen s) :
    ∃ i, charBoundaryFloor s idx = some i ∧ i ≤ idx ∧ idx ≤ i + 3 ∧
      isCharBoundary s i = true := by
  obtain ⟨k, hk, hnear, hbound⟩ := exists_boundary_below h
  obtain ⟨i, hloop, hki, hile, hib⟩ := floorLoop_eq_some hk hbound
  exact ⟨i, by rw [charBoundaryFloor, if_neg (by omega), hloop], hile, by omega, hib⟩

theorem charBoundaryCeil_eq_some (h : idx ≤ byteLen s) :
    ∃ i, charBoundaryCeil s idx = some i ∧ idx ≤ i ∧ i ≤ idx + 3 ∧
      isCharBoundary s i = true := by
  rcases h.eq_or_lt with rfl | hlt
  · exact ⟨byteLen s, by rw [charBoundaryCeil, if_pos le_rfl], le_rfl, by omega,
      isCharBoundary_byteLen s⟩
  · obtain ⟨k, hk, hnear, hbound⟩ := exists_boundary_above hlt
    have hend : k ≤ byteLen s := by
      obtain ⟨a, b, rfl, rfl⟩ := isCharBoundary_iff.1 hbound
      rw [byteLen_append]
      omega
    obtain ⟨i, hloop, hle, hik, hib⟩ :=
      @ceilLoop_eq_some s idx k (byteLen s - idx + 1) hk (by omega) hbound
    exact ⟨i, by rw [charBoundaryCeil, if_neg (by omega), hloop], hle, by omega, hib⟩

/-! ### What is kept of a long body -/

/-- The last part of the function, from the two cut points on. -/
theorem truncateResponseBody_of_cuts {max : ℕ} {head mid tail : List Char}
    (hclean : sanitizeForPersistence s = head ++ mid ++ tail)
    (hlong : max < byteLen (head ++ mid ++ tail))
    (hfloor : charBoundaryFloor (head ++ mid ++ tail) (max / 2) = some (byteLen head))
    (hceil : charBoundaryCeil (head ++ mid ++ tail)
      (byteLen (head ++ mid ++ tail) - max / 2) = some (byteLen (head ++ mid))) :
    truncateResponseBody s max = some (head ++ truncationMarker (byteLen mid) ++ tail) := by
  have hkept : checkedSub (byteLen (head ++ mid ++ tail)) (byteLen (head ++ mid)) =
      some (byteLen tail) := by
    rw [byteLen_append (head ++ mid), checkedSub, if_pos (Nat.le_add_right _ _),
      Nat.add_sub_cancel_left]
  have htruncated : checkedSub (byteLen (head ++ mid ++ tail)) (byteLen head + byteLen tail) =
      some (byteLen mid) := by
    rw [byteLen_append, byteLen_append, checkedSub, if_pos (by omega)]
    congr 1
    omega
  have hhead : sliceTo (head ++ mid ++ tail) (byteLen head) = some head := by
    rw [List.append_assoc]
    exact sliceTo_append head (mid ++ tail)
  have htail : sliceFrom (head ++ mid ++ tail) (byteLen (head ++ mid)) = some tail :=
    sliceFrom_append (head ++ mid) tail
  simp only [truncateResponseBody, hclean, if_neg (Nat.not_le.2 hlong), hfloor, hceil, hkept,
    htruncated, hhead, htail, Option.bind_eq_bind, Option.bind_some, Option.pure_def]

theorem truncateResponseBody_of_le {max : ℕ} (h : byteLen (sanitizeForPersistence s) ≤ max) :
    truncateResponseBody s max = some (sanitizeForPersistence s) := by
  simp only [truncateResponseBody, if_pos h]

/-- A body over the cap is cut on both sides, at most three bytes short of `max / 2`. -/
theorem truncateResponseBody_of_lt {max : ℕ} (h : max < byteLen (sanitizeForPersistence s)) :
    ∃ head mid tail, sanitizeForPersistence s = head ++ mid ++ tail ∧
      truncateResponseBody s max = some (head ++ truncationMarker (byteLen mid) ++ tail) ∧
      (byteLen head ≤ max / 2 ∧ max / 2 ≤ byteLen head + 3) ∧
      (byteLen tail ≤ max / 2 ∧ max / 2 ≤ byteLen tail + 3) := by
  obtain ⟨i, hfloor, hile, hinear, hib⟩ :=
    @charBoundaryFloor_eq_some (sanitizeForPersistence s) (max / 2) (by omega)
  obtain ⟨j, hceil, hjle, hjnear, hjb⟩ :=
    @charBoundaryCeil_eq_some (sanitizeForPersistence s)
      (byteLen (sanitizeForPersistence s) - max / 2) (Nat.sub_le _ _)
  obtain ⟨head, mid, tail, hclean, rfl, rfl⟩ := exists_parts_of_boundaries (by omega) hib hjb
  have hlen : byteLen (sanitizeForPersistence s) = byteLen (head ++ mid) + byteLen tail := by
    rw [hclean, byteLen_append]
  refine ⟨head, mid, tail, hclean, ?_, ⟨hile, hinear⟩, by omega, by omega⟩
  rw [hclean] at h hfloor hceil
  exact truncateResponseBody_of_cuts hclean h hfloor hceil

/-- **The stored body.**  Up to `max` bytes it is the escaped body; beyond that it is a head and
a tail of it around the marker.  The cuts lie on character boundaries, at most three bytes short
of `max / 2` on either side, and at least one byte lies between them. -/
theorem truncateResponseBody_eq (s : List Char) (max : ℕ) :
    (byteLen (sanitizeForPersistence s) ≤ max ∧
      truncateResponseBody s max = some (sanitizeForPersistence s)) ∨
    (max < byteLen (sanitizeForPersistence s) ∧ ∃ head mid tail,
      sanitizeForPersistence s = head ++ mid ++ tail ∧
      truncateResponseBody s max = some (head ++ truncationMarker (byteLen mid) ++ tail) ∧
      byteLen head + byteLen tail ≤ max ∧
      (byteLen head ≤ max / 2 ∧ max / 2 ≤ byteLen head + 3) ∧
      (byteLen tail ≤ max / 2 ∧ max / 2 ≤ byteLen tail + 3) ∧
      byteLen mid = byteLen (sanitizeForPersistence s) - byteLen head - byteLen tail ∧
      0 < byteLen mid) := by
  by_cases hfits : byteLen (sanitizeForPersistence s) ≤ max
  · exact .inl ⟨hfits, truncateResponseBody_of_le hfits⟩
  · rw [Nat.not_le] at hfits
    obtain ⟨head, mid, tail, hclean, hout, hhead, htail⟩ := truncateResponseBody_of_lt hfits
    have hlen : byteLen (sanitizeForPersistence s) =
        byteLen head + byteLen mid + byteLen tail := by
      rw [hclean, byteLen_append, byteLen_append]
    exact .inr ⟨hfits, head, mid, tail, hclean, hout, by omega, hhead, htail, by omega, by omega⟩

/-! ### Control characters -/

/-- `char::is_control`: the Unicode category Cc. -/
def isControl (c : Char) : Bool := c.toNat < 0x20 || (0x7f ≤ c.toNat && c.toNat ≤ 0x9f)

/-- The C1 half of the category. -/
def isC1Control (c : Char) : Bool := 0x80 ≤ c.toNat && c.toNat ≤ 0x9f

/-- A C0 control character other than a tab, or DEL. -/
def isRawControl (c : Char) : Bool := (c.toNat < 0x20 && c != '\t') || c.toNat == 0x7f

/-- How many bytes a character takes once it is escaped. -/
def escapedLen (c : Char) : ℕ :=
  if c = '\r' ∨ c = '\n' then 2
  else if c = '\t' then 1
  else if c.toNat < 0x20 ∨ c.toNat = 0x7f then 6
  else c.utf8Size

/-- How many bytes a text takes once it is escaped. -/
def escapedSize : List Char → ℕ
  | [] => 0
  | c :: s => escapedLen c + escapedSize s

theorem unicodeEscape_ascii {n : ℕ} (h : n < 0x80) :
    byteLen (unicodeEscape n) = 6 ∧
      ∀ x ∈ unicodeEscape n, 0x20 ≤ x.toNat ∧ x.toNat < 0x7f := by
  have hcheck : ∀ n < 0x80, byteLen (unicodeEscape n) = 6 ∧
      (unicodeEscape n).all (fun x => 0x20 ≤ x.toNat && x.toNat < 0x7f) = true := by
    decide +kernel
  obtain ⟨hlen, hall⟩ := hcheck n h
  refine ⟨hlen, fun x hx => ?_⟩
  simpa using List.all_eq_true.1 hall x hx

/-- What the escape of a character is made of: a tab, printable ASCII, or the character itself
when it is not ASCII. -/
theorem mem_escapeChar {x c : Char} (h : x ∈ escapeChar c) :
    x = '\t' ∨ (0x20 ≤ x.toNat ∧ x.toNat < 0x7f) ∨ (x = c ∧ 0x80 ≤ c.toNat) := by
  unfold escapeChar at h
  split_ifs at h with hr hn ht hctl
  · right; left
    rcases List.mem_pair.1 h with rfl | rfl <;> decide
  · right; left
    rcases List.mem_pair.1 h with rfl | rfl <;> decide
  · exact .inl (List.mem_singleton.1 h)
  · have hlt : c.toNat < 0x80 := by
      simp only [Bool.or_eq_true, decide_eq_true_eq, beq_iff_eq] at hctl
      omega
    exact .inr (.inl ((unicodeEscape_ascii hlt).2 x h))
  · obtain rfl := List.mem_singleton.1 h
    simp only [Bool.or_eq_true, decide_eq_true_eq, beq_iff_eq, not_or] at hctl
    rcases Nat.lt_or_ge x.toNat 0x80 with hlt | hge
    · exact .inr (.inl (by omega))
    · exact .inr (.inr ⟨rfl, hge⟩)

theorem escapeChar_of_le {c : Char} (h : 0x80 ≤ c.toNat) : escapeChar c = [c] := by
  have hctl : ¬ (c.toNat < 0x20 || c.toNat == 0x7f) = true := by
    simp only [Bool.or_eq_true, decide_eq_true_eq, beq_iff_eq]
    omega
  have hr : c ≠ '\r' := by rintro rfl; exact absurd h (by decide)
  have hn : c ≠ '\n' := by rintro rfl; exact absurd h (by decide)
  have ht : c ≠ '\t' := by rintro rfl; exact absurd h (by decide)
  rw [escapeChar, if_neg hr, if_neg hn, if_neg ht, if_neg hctl]

theorem byteLen_escapeChar (c : Char) : byteLen (escapeChar c) = escapedLen c := by
  unfold escapeChar escapedLen
  by_cases hr : c = '\r'
  · subst hr; decide
  by_cases hn : c = '\n'
  · subst hn; decide
  by_cases ht : c = '\t'
  · subst ht; decide
  by_cases hctl : c.toNat < 0x20 ∨ c.toNat = 0x7f
  · have hlt : c.toNat < 0x80 := by omega
    simp [hr, hn, ht, hctl, (unicodeEscape_ascii hlt).1]
  · simp [hr, hn, ht, hctl, byteLen_singleton]

theorem byteLen_sanitizeForPersistence (s : List Char) :
    byteLen (sanitizeForPersistence s) = escapedSize s := by
  induction s with
  | nil => rfl
  | cons c s ih =>
    rw [sanitizeForPersistence, List.flatMap_cons, byteLen_append, byteLen_escapeChar,
      escapedSize, ← ih, sanitizeForPersistence]

theorem isRawControl_of_mem_escapeChar {x c : Char} (h : x ∈ escapeChar c) :
    isRawControl x = false := by
  have hrange : x = '\t' ∨ (0x20 ≤ x.toNat ∧ x.toNat ≠ 0x7f) := by
    rcases mem_escapeChar h with htab | hprint | ⟨rfl, hge⟩
    · exact .inl htab
    · exact .inr (by omega)
    · exact .inr (by omega)
  rcases hrange with rfl | ⟨hlow, hdel⟩
  · rfl
  · simp [isRawControl, Nat.not_lt.2 hlow, hdel]

/-- **A stored body has no raw control character exactly when it was not truncated**: the marker
starts and ends with a line feed, so that the tail of a truncated body begins a line. -/
theorem truncateResponseBody_isRawControl_iff (s : List Char) (max : ℕ) :
    (∃ out, truncateResponseBody s max = some out ∧ ∀ c ∈ out, isRawControl c = false) ↔
      escapedSize s ≤ max := by
  rw [← byteLen_sanitizeForPersistence]
  constructor
  · rintro ⟨out, hout, hclean⟩
    by_contra hlong
    obtain ⟨head, mid, tail, -, hcut, -⟩ := truncateResponseBody_of_lt (Nat.not_le.1 hlong)
    have hmem : '\n' ∈ truncationMarker (byteLen mid) :=
      List.mem_append_left _ (List.mem_append_left _ (by decide))
    obtain rfl : head ++ truncationMarker (byteLen mid) ++ tail = out :=
      Option.some.inj (hcut.symm.trans hout)
    exact absurd (hclean '\n' (List.mem_append_left _ (List.mem_append_right _ hmem))) (by decide)
  · intro hfits
    refine ⟨_, truncateResponseBody_of_le hfits, fun x hx => ?_⟩
    obtain ⟨c, -, hxc⟩ := List.mem_flatMap.1 hx
    exact isRawControl_of_mem_escapeChar hxc

/-- Three letters under a cap of two bytes: the last one is stored on a line of its own. -/
theorem truncateResponseBody_line_feed :
    truncateResponseBody "aaa".toList 2 = some "a\n… [1 bytes truncated] …\na".toList ∧
      ¬ ∃ out, truncateResponseBody "aaa".toList 2 = some out ∧
        ∀ c ∈ out, isRawControl c = false := by
  have hval : truncateResponseBody "aaa".toList 2 =
      some "a\n… [1 bytes truncated] …\na".toList := by decide +kernel
  refine ⟨hval, ?_⟩
  rintro ⟨out, hout, hclean⟩
  obtain rfl := Option.some.inj (hval.symm.trans hout)
  exact absurd (hclean '\n' (by decide)) (by decide)

/-- The only control character of a text is the tab. -/
def NoControl (out : List Char) : Prop := ∀ c ∈ out, isControl c = true → c = '\t'

/-- Escaping leaves a control character only where it finds one of the C1 range. -/
theorem eq_tab_or_isC1Control {x c : Char} (h : x ∈ escapeChar c) (hctl : isControl x = true) :
    x = '\t' ∨ (x = c ∧ isC1Control c = true) := by
  rcases mem_escapeChar h with rfl | hprint | ⟨rfl, hge⟩
  · exact .inl rfl
  · simp only [isControl, Bool.or_eq_true, Bool.and_eq_true, decide_eq_true_eq] at hctl
    omega
  · simp only [isControl, Bool.or_eq_true, Bool.and_eq_true, decide_eq_true_eq] at hctl
    refine .inr ⟨rfl, ?_⟩
    simp only [isC1Control, Bool.and_eq_true, decide_eq_true_eq]
    omega

theorem mem_sanitizeForLogFrom {x : Char} {written : ℕ} (h : x ∈ sanitizeForLogFrom written s) :
    (∃ c ∈ s, x ∈ escapeChar c) ∨ x ∈ "…[truncated]".toList := by
  induction s generalizing written with
  | nil => cases h
  | cons c s ih =>
    unfold sanitizeForLogFrom at h
    split_ifs at h with hcap
    · exact .inr h
    · rcases List.mem_append.1 h with hx | hx
      · exact .inl ⟨c, List.mem_cons_self, hx⟩
      · rcases ih hx with ⟨d, hd, hxd⟩ | hmark
        · exact .inl ⟨d, List.mem_cons_of_mem c hd, hxd⟩
        · exact .inr hmark

/-- **The sanitisers let exactly the C1 control characters through.** -/
theorem sanitize_noControl_iff (s : List Char) :
    (NoControl (sanitizeForLog s) ∧ NoControl (sanitizeForPersistence s)) ↔
      ∀ c ∈ s, isC1Control c = false := by
  constructor
  · rintro ⟨-, hstored⟩ c hc
    by_contra hc1
    rw [Bool.not_eq_false] at hc1
    simp only [isC1Control, Bool.and_eq_true, decide_eq_true_eq] at hc1
    have hmem : c ∈ sanitizeForPersistence s :=
      List.mem_flatMap.2 ⟨c, hc, by rw [escapeChar_of_le hc1.1]; exact List.mem_singleton_self c⟩
    have hctl : isControl c = true := by
      simp only [isControl, Bool.or_eq_true, Bool.and_eq_true, decide_eq_true_eq]
      omega
    obtain rfl := hstored c hmem hctl
    exact absurd hc1.1 (by decide)
  · intro hs
    have hescaped : ∀ x, (∃ c ∈ s, x ∈ escapeChar c) → isControl x = true → x = '\t' := by
      rintro x ⟨c, hc, hxc⟩ hctl
      rcases eq_tab_or_isC1Control hxc hctl with htab | ⟨-, hc1⟩
      · exact htab
      · exact absurd hc1 (by simp [hs c hc])
    refine ⟨fun x hx hctl => ?_, fun x hx => hescaped x (List.mem_flatMap.1 hx)⟩
    rcases mem_sanitizeForLogFrom hx with hsrc | hmark
    · exact hescaped x hsrc hctl
    · have hprint : "…[truncated]".toList.all (fun x => !isControl x) = true := by decide +kernel
      exact absurd hctl (by simpa using List.all_eq_true.1 hprint x hmark)

/-- U+009B, the one-character form of `ESC [`, reaches the log and the row as it is. -/
theorem sanitize_csi :
    sanitizeForLog ['\u009b', '2', 'J'] = ['\u009b', '2', 'J'] ∧
      sanitizeForPersistence ['\u009b', '2', 'J'] = ['\u009b', '2', 'J'] ∧
      ¬ (NoControl (sanitizeForLog ['\u009b', '2', 'J']) ∧
        NoControl (sanitizeForPersistence ['\u009b', '2', 'J'])) := by
  have hlog : sanitizeForLog ['\u009b', '2', 'J'] = ['\u009b', '2', 'J'] := by decide
  have hstored : sanitizeForPersistence ['\u009b', '2', 'J'] = ['\u009b', '2', 'J'] := by decide
  refine ⟨hlog, hstored, ?_⟩
  rintro ⟨-, h⟩
  exact absurd (h '\u009b' (by rw [hstored]; exact List.mem_cons_self) (by decide)) (by decide)

/-! ### The cap of the log line -/

/-- What `sanitize_for_log` carries from one character to the next: the text it has written and
the byte count it keeps beside it. -/
structure LogLine where
  out : List Char
  written : ℕ
  deriving DecidableEq, Repr

namespace LogLine

/-- The `match` of the loop: what is pushed for a character and what is added to the count. -/
def push (l : LogLine) (c : Char) : LogLine :=
  if c = '\r' then ⟨l.out ++ "\\r".toList, l.written + 2⟩
  else if c = '\n' then ⟨l.out ++ "\\n".toList, l.written + 2⟩
  else if c = '\t' then ⟨l.out ++ ['\t'], l.written + 1⟩
  else if c.toNat < 0x20 || c.toNat == 0x7f then
    ⟨l.out ++ unicodeEscape c.toNat, l.written + 6⟩
  else ⟨l.out ++ [c], l.written + c.utf8Size⟩

/-- The loop as it is written, with its own count of the bytes. -/
def loop : LogLine → List Char → List Char
  | l, [] => l.out
  | l, c :: s => if 4096 < l.written + 6 then l.out ++ "…[truncated]".toList else (l.push c).loop s

/-- The states in which the loop takes a character or ends. -/
def heads : LogLine → List Char → List LogLine
  | l, [] => [l]
  | l, c :: s => if 4096 < l.written + 6 then [l] else l :: (l.push c).heads s

/-- The count is the length of the text. -/
def Counted (l : LogLine) : Prop := l.written = byteLen l.out

variable {l : LogLine}

theorem push_eq (l : LogLine) (c : Char) :
    l.push c = ⟨l.out ++ escapeChar c, l.written + escapedLen c⟩ := by
  unfold push escapeChar escapedLen
  by_cases hr : c = '\r'
  · simp [hr]
  by_cases hn : c = '\n'
  · simp [hn]
  by_cases ht : c = '\t'
  · simp [ht]
  by_cases hctl : c.toNat < 0x20 ∨ c.toNat = 0x7f
  · simp [hr, hn, ht, hctl]
  · simp [hr, hn, ht, hctl]

theorem Counted.push (h : l.Counted) (c : Char) : (l.push c).Counted := by
  rw [push_eq, Counted, byteLen_append, byteLen_escapeChar, h]

/-- The count is right whenever the loop looks at it. -/
theorem Counted.heads (h : l.Counted) : ∀ l' ∈ l.heads s, l'.Counted := by
  induction s generalizing l with
  | nil =>
    intro l' hl'
    rwa [List.mem_singleton.1 hl']
  | cons c s ih =>
    intro l' hl'
    unfold LogLine.heads at hl'
    split_ifs at hl' with hcap
    · rwa [List.mem_singleton.1 hl']
    · rcases List.mem_cons.1 hl' with rfl | hl'
      · exact h
      · exact ih (h.push c) l' hl'

/-- With a right count the loop computes what `sanitizeForLogFrom` does. -/
theorem Counted.loop_eq (h : l.Counted) :
    l.loop s = l.out ++ sanitizeForLogFrom l.written s := by
  induction s generalizing l with
  | nil => rw [loop, sanitizeForLogFrom, List.append_nil]
  | cons c s ih =>
    rw [loop, sanitizeForLogFrom]
    split_ifs with hcap
    · rfl
    · rw [ih (h.push c), push_eq, byteLen_escapeChar, List.append_assoc]

end LogLine

theorem escapedLen_pos (c : Char) : 0 < escapedLen c := by
  unfold escapedLen
  split_ifs
  · omega
  · omega
  · omega
  · exact c.utf8Size_pos

theorem escapedLen_le (c : Char) : escapedLen c ≤ 6 := by
  unfold escapedLen
  split_ifs
  · omega
  · omega
  · omega
  · exact le_trans c.utf8Size_le_four (by omega)

/-- The loop ends at the end of the text, or after a part of it that brings the line within six
bytes of the cap. -/
theorem sanitizeForLogFrom_eq {written : ℕ} (h : written ≤ 4096) (s : List Char) :
    sanitizeForLogFrom written s = sanitizeForPersistence s ∨
      ∃ a c b, s = a ++ c :: b ∧
        sanitizeForLogFrom written s = sanitizeForPersistence a ++ "…[truncated]".toList ∧
        4091 ≤ written + escapedSize a ∧ written + escapedSize a ≤ 4096 := by
  induction s generalizing written with
  | nil => exact .inl rfl
  | cons c s ih =>
    rw [sanitizeForLogFrom]
    split_ifs with hcap
    · exact .inr ⟨[], c, s, rfl, rfl, by rw [escapedSize]; omega, by rw [escapedSize]; omega⟩
    · have hlen : escapedLen c ≤ 6 := escapedLen_le c
      rw [byteLen_escapeChar]
      rcases ih (show written + escapedLen c ≤ 4096 by omega) with hall | hcut
      · left
        rw [hall, sanitizeForPersistence, sanitizeForPersistence, List.flatMap_cons]
      · obtain ⟨a, d, b, rfl, hout, hlow, hhigh⟩ := hcut
        refine .inr ⟨c :: a, d, b, rfl, ?_, ?_, ?_⟩
        · rw [hout, sanitizeForPersistence, sanitizeForPersistence, List.flatMap_cons,
            List.append_assoc]
        · rw [escapedSize]; omega
        · rw [escapedSize]; omega

/-- **The two sanitisers agree up to the cap.**  The log line is the stored text, or the stored
form of a part of the input that fills it to within six bytes of the cap, and the mark.  The
byte count of the loop is right whenever it is compared with the cap. -/
theorem sanitizeForLog_eq_or_truncated (s : List Char) :
    (sanitizeForLog s = sanitizeForPersistence s ∨
      ∃ a b q, s = a ++ b ∧ q = sanitizeForPersistence a ∧
        q <+: sanitizeForPersistence s ∧ q ≠ sanitizeForPersistence s ∧
        4091 ≤ byteLen q ∧ byteLen q ≤ 4096 ∧
        sanitizeForLog s = q ++ "…[truncated]".toList) ∧
    sanitizeForLog s = LogLine.loop ⟨[], 0⟩ s ∧
    ∀ l ∈ LogLine.heads ⟨[], 0⟩ s, l.written = byteLen l.out := by
  have hcounted : LogLine.Counted ⟨[], 0⟩ := rfl
  refine ⟨?_, hcounted.loop_eq.symm, hcounted.heads⟩
  rcases sanitizeForLogFrom_eq (Nat.zero_le 4096) s with hall | ⟨a, c, b, rfl, hout, hlow, hhigh⟩
  · exact .inl hall
  · have hp : sanitizeForPersistence (a ++ c :: b) =
        sanitizeForPersistence a ++ sanitizeForPersistence (c :: b) := List.flatMap_append
    rw [Nat.zero_add, ← byteLen_sanitizeForPersistence] at hlow hhigh
    refine .inr ⟨a, c :: b, _, rfl, rfl, ⟨_, hp.symm⟩, fun heq => ?_, hlow, hhigh, hout⟩
    -- the character at the cap has an escape of at least one byte
    have hrest : byteLen (sanitizeForPersistence (c :: b)) = 0 := by
      have hlen := congrArg byteLen (heq.trans hp)
      rw [byteLen_append] at hlen
      omega
    rw [byteLen_sanitizeForPersistence, escapedSize] at hrest
    have hpos : 0 < escapedLen c := escapedLen_pos c
    omega

end CronManager

import Mathlib.Data.List.Infix
import Mathlib.Data.List.DropRight

/-!
# String slices of the Rust standard library

A `&str` is a list of characters here: cutting a slice at a byte offset that a search returned
is cutting the list at the corresponding character.  Byte lengths and bytes are those of the
UTF-8 encoding (`bytes`, `byteLen`), and `utf8Chunks` reads bytes back the way
`String::from_utf8_lossy` does, one character or one invalid sequence at a time.
-/

namespace CronManager

namespace Rust

/-! ### Characters -/

/-- `char::is_whitespace`: the Unicode property `White_Space`. -/
def isWhitespace (c : Char) : Bool :=
  let n := c.toNat
  (9 ≤ n && n ≤ 13) || n == 0x20 || n == 0x85 || n == 0xA0 || n == 0x1680 ||
    (0x2000 ≤ n && n ≤ 0x200A) || n == 0x2028 || n == 0x2029 || n == 0x202F || n == 0x205F ||
    n == 0x3000

/-- `char::is_ascii_alphanumeric`. -/
def isAsciiAlphanumeric (c : Char) : Bool :=
  let n := c.toNat
  (0x30 ≤ n && n ≤ 0x39) || (0x41 ≤ n && n ≤ 0x5A) || (0x61 ≤ n && n ≤ 0x7A)

/-- `char::is_ascii_digit`. -/
def isAsciiDigit (c : Char) : Bool := 0x30 ≤ c.toNat && c.toNat ≤ 0x39

/-- `str::to_ascii_lowercase`. -/
def toAsciiLowercase (s : List Char) : List Char := s.map Char.toLower

/-- `str::to_ascii_uppercase`. -/
def toAsciiUppercase (s : List Char) : List Char := s.map Char.toUpper

/-- `str::eq_ignore_ascii_case`. -/
def eqIgnoreAsciiCase (s t : List Char) : Bool := toAsciiLowercase s == toAsciiLowercase t

theorem toLower_cases (c : Char) :
    (c.toLower = c ∧ ¬ (0x41 ≤ c.toNat ∧ c.toNat ≤ 0x5A)) ∨
      (0x41 ≤ c.toNat ∧ c.toNat ≤ 0x5A) ∧ c.toLower.toNat = c.toNat + 32 := by
  unfold Char.toLower
  by_cases h : c.val ≥ 'A'.val ∧ c.val ≤ 'Z'.val
  · rw [dif_pos h]
    have hrange : 0x41 ≤ c.toNat ∧ c.toNat ≤ 0x5A := by
      simpa [UInt32.le_iff_toNat_le] using h
    refine .inr ⟨hrange, ?_⟩
    show (c.val + 32).toNat = c.toNat + 32
    rw [UInt32.toNat_add]
    exact Nat.mod_eq_of_lt (show c.toNat + 32 < 2 ^ 32 by omega)
  · rw [dif_neg h]
    refine .inl ⟨rfl, fun hrange => h ?_⟩
    simpa [UInt32.le_iff_toNat_le] using hrange

theorem toUpper_cases (c : Char) :
    (c.toUpper = c ∧ ¬ (0x61 ≤ c.toNat ∧ c.toNat ≤ 0x7A)) ∨
      (0x61 ≤ c.toNat ∧ c.toNat ≤ 0x7A) ∧ c.toUpper.toNat + 32 = c.toNat := by
  unfold Char.toUpper
  by_cases h : c.val ≥ 'a'.val ∧ c.val ≤ 'z'.val
  · rw [dif_pos h]
    have hrange : 0x61 ≤ c.toNat ∧ c.toNat ≤ 0x7A := by
      simpa [UInt32.le_iff_toNat_le] using h
    refine .inr ⟨hrange, ?_⟩
    show (c.val + 4294967264).toNat + 32 = c.toNat
    rw [UInt32.toNat_add]
    show (c.toNat + 4294967264) % 2 ^ 32 + 32 = c.toNat
    omega
  · rw [dif_neg h]
    refine .inl ⟨rfl, fun hrange => h ?_⟩
    simpa [UInt32.le_iff_toNat_le] using hrange

theorem toUpper_toLower (c : Char) : c.toLower.toUpper = c.toUpper := by
  rcases toLower_cases c with ⟨hsame, -⟩ | ⟨hcapital, hlower⟩
  · rw [hsame]
  · rcases toUpper_cases c.toLower with ⟨-, hnot⟩ | ⟨-, hraise⟩
    · exact absurd hlower (by omega)
    · rcases toUpper_cases c with ⟨hsame, -⟩ | ⟨hsmall, -⟩
      · rw [hsame]
        exact Char.toNat_inj.1 (by omega)
      · omega

theorem toUpper_of_le {ch : Char} (h : 0x80 ≤ ch.toNat) : ch.toUpper = ch := by
  rcases toUpper_cases ch with ⟨hsame, -⟩ | ⟨hsmall, -⟩
  · exact hsame
  · omega

theorem toAsciiUppercase_of_eqIgnoreAsciiCase {s t : List Char}
    (h : eqIgnoreAsciiCase s t = true) : toAsciiUppercase s = toAsciiUppercase t := by
  have hlower : toAsciiLowercase s = toAsciiLowercase t := by simpa [eqIgnoreAsciiCase] using h
  have hupper (u : List Char) : toAsciiUppercase u = toAsciiUppercase (toAsciiLowercase u) := by
    simp only [toAsciiUppercase, toAsciiLowercase, List.map_map]
    refine List.map_congr_left fun c _ => ?_
    rw [Function.comp_apply, toUpper_toLower]
  rw [hupper s, hupper t, hlower]

theorem toLower_toLower (c : Char) : c.toLower.toLower = c.toLower := by
  rcases toLower_cases c with ⟨hsame, -⟩ | ⟨hcapital, hlower⟩
  · rw [hsame, hsame]
  · rcases toLower_cases c.toLower with ⟨hsame, -⟩ | ⟨hcapital', -⟩
    · exact hsame
    · omega

theorem toLower_beq_dot (c : Char) : (c.toLower == '.') = (c == '.') := by
  rcases toLower_cases c with ⟨hsame, -⟩ | ⟨hcapital, hlower⟩
  · rw [hsame]
  · have hdot {ch : Char} (h : 0x41 ≤ ch.toNat) : (ch == '.') = false := by
      refine beq_eq_false_iff_ne.2 ?_
      rintro rfl
      exact absurd h (by decide)
    rw [hdot hcapital.1, hdot (by omega)]

theorem toAsciiLowercase_idem (s : List Char) :
    toAsciiLowercase (toAsciiLowercase s) = toAsciiLowercase s := by
  rw [toAsciiLowercase, toAsciiLowercase, List.map_map]
  exact List.map_congr_left fun c _ => toLower_toLower c

/-! ### Trimming and cutting -/

/-- `str::trim_end_matches` with a character predicate. -/
def trimEndMatches (p : Char → Bool) (s : List Char) : List Char := s.rdropWhile p

/-- `str::trim_matches` with a character predicate. -/
def trimMatches (p : Char → Bool) (s : List Char) : List Char :=
  trimEndMatches p (s.dropWhile p)

/-- `str::trim`. -/
def trim (s : List Char) : List Char := trimMatches isWhitespace s

/-- `str::strip_prefix`. -/
def stripPrefix (pat s : List Char) : Option (List Char) :=
  if pat.isPrefixOf s then some (s.drop pat.length) else none

/-- `str::contains` with a string pattern. -/
def contains (s pat : List Char) : Bool := decide (pat <:+: s)

/-- `str::replace` of single characters. -/
def replaceChars (p : Char → Bool) (sub : Char) (s : List Char) : List Char :=
  s.map fun c => if p c then sub else c

/-- Cut at the first element satisfying `p`, which is dropped (`str::split_once`). -/
def splitOnce {α : Type*} (p : α → Bool) : List α → Option (List α × List α)
  | [] => none
  | c :: s => if p c then some ([], s) else (splitOnce p s).map fun ab => (c :: ab.1, ab.2)

/-- Cut at the last element satisfying `p`, which is dropped (`str::rsplit_once`). -/
def rsplitOnce {α : Type*} (p : α → Bool) : List α → Option (List α × List α)
  | [] => none
  | c :: s => match rsplitOnce p s with
    | some ab => some (c :: ab.1, ab.2)
    | none => if p c then some ([], s) else none

/-- Cut before the first occurrence of a non-empty pattern (`str::find` and `split_at`). -/
def splitBefore (pat : List Char) : List Char → Option (List Char × List Char)
  | [] => none
  | c :: s => if pat.isPrefixOf (c :: s) then some ([], c :: s)
    else (splitBefore pat s).map fun ab => (c :: ab.1, ab.2)

/-- `str::splitn` with a character separator. -/
def splitn : ℕ → Char → List Char → List (List Char)
  | 0, _, _ => []
  | 1, _, s => [s]
  | n + 2, sep, s => match splitOnce (· == sep) s with
    | none => [s]
    | some ab => ab.1 :: splitn (n + 1) sep ab.2

/-- `str::split_whitespace`. -/
def splitWhitespace (s : List Char) : List (List Char) :=
  (s.splitOnP isWhitespace).filter fun w => !w.isEmpty

variable {α : Type*}

theorem splitOnce_eq_none {p : α → Bool} {s : List α} :
    splitOnce p s = none ↔ ∀ c ∈ s, p c = false := by
  induction s with
  | nil => simp [splitOnce]
  | cons c s ih =>
    cases hc : p c with
    | true => simp [splitOnce, hc]
    | false => simp [splitOnce, hc, ih]

theorem rsplitOnce_eq_none {p : α → Bool} {s : List α} :
    rsplitOnce p s = none ↔ ∀ c ∈ s, p c = false := by
  induction s with
  | nil => simp [rsplitOnce]
  | cons c s ih =>
    simp only [rsplitOnce]
    cases h : rsplitOnce p s with
    | none =>
      cases hc : p c with
      | true => simp [hc]
      | false => simpa [hc] using ih.1 h
    | some ab =>
      simp only [reduceCtorEq, List.mem_cons, forall_eq_or_imp, false_iff, not_and]
      intro _ hs
      rw [ih.2 hs] at h
      cases h

theorem rsplitOnce_append {p : α → Bool} {a b : List α} {c : α}
    (hb : ∀ x ∈ b, p x = false) (hc : p c = true) :
    rsplitOnce p (a ++ c :: b) = some (a, b) := by
  induction a with
  | nil => simp [rsplitOnce, rsplitOnce_eq_none.2 hb, hc]
  | cons x a ih => simp [rsplitOnce, ih]

theorem rsplitOnce_eq_some {p : α → Bool} {s a b : List α} (h : rsplitOnce p s = some (a, b)) :
    ∃ c, p c = true ∧ s = a ++ c :: b ∧ ∀ x ∈ b, p x = false := by
  induction s generalizing a with
  | nil => cases h
  | cons x s ih =>
    rw [rsplitOnce] at h
    cases hs : rsplitOnce p s with
    | some ab =>
      rw [hs] at h
      obtain ⟨rfl, rfl⟩ := Prod.mk.inj (Option.some.inj h)
      obtain ⟨c, hc, rfl, hb⟩ := ih hs
      exact ⟨c, hc, rfl, hb⟩
    | none =>
      rw [hs] at h
      simp only [Option.ite_none_right_eq_some, Option.some.injEq, Prod.mk.injEq] at h
      obtain ⟨hx, rfl, rfl⟩ := h
      exact ⟨x, hx, rfl, rsplitOnce_eq_none.1 hs⟩

theorem trimEndMatches_eq_self_iff {p : Char → Bool} {s : List Char} :
    trimEndMatches p s = s ↔ ∀ c, s.getLast? = some c → p c = false := by
  rw [trimEndMatches, List.rdropWhile_eq_self_iff]
  constructor
  · intro h c hc
    have hne : s ≠ [] := by rintro rfl; cases hc
    rw [List.getLast?_eq_some_getLast hne] at hc
    simpa [← Option.some.inj hc] using h hne
  · intro h hne
    simpa using h _ (List.getLast?_eq_some_getLast hne)

/-- Trimming at the end does not see the case of letters when the predicate does not. -/
theorem trimEndMatches_toAsciiLowercase {p : Char → Bool} (h : ∀ c, p c.toLower = p c)
    (s : List Char) :
    trimEndMatches p (toAsciiLowercase s) = toAsciiLowercase (trimEndMatches p s) := by
  have hp : p ∘ Char.toLower = p := funext h
  simp only [trimEndMatches, toAsciiLowercase, List.rdropWhile, ← List.map_reverse,
    List.dropWhile_map, hp]

theorem trimMatches_eq_self_iff {p : Char → Bool} {s : List Char} :
    trimMatches p s = s ↔
      (∀ c, s.head? = some c → p c = false) ∧ ∀ c, s.getLast? = some c → p c = false := by
  have hdrop : s.dropWhile p = s ↔ ∀ c, s.head? = some c → p c = false := by
    rw [List.dropWhile_eq_self_iff]
    cases s with
    | nil => simp
    | cons c s => simp
  rw [← hdrop, ← trimEndMatches_eq_self_iff]
  unfold trimMatches trimEndMatches
  constructor
  · intro h
    have hd : s.dropWhile p = s := by
      refine (List.dropWhile_suffix p).eq_of_length_le ?_
      rw [← congrArg List.length h]
      exact (List.rdropWhile_prefix p _).length_le
    rw [hd] at h
    exact ⟨hd, h⟩
  · rintro ⟨hd, hr⟩
    rw [hd, hr]

theorem trimMatches_trimMatches (p : Char → Bool) (s : List Char) :
    trimMatches p (trimMatches p s) = trimMatches p s := by
  have hhead : (trimMatches p s).dropWhile p = trimMatches p s := by
    obtain ⟨t, ht⟩ := List.rdropWhile_prefix p (s.dropWhile p)
    have hdrop := List.dropWhile_idempotent p s
    unfold trimMatches trimEndMatches
    cases hr : (s.dropWhile p).rdropWhile p with
    | nil => rfl
    | cons c r =>
      -- the first character left is that of `dropWhile`
      rw [hr] at ht
      rw [← ht, List.dropWhile_eq_self_iff] at hdrop
      have hc : ¬ p c = true := hdrop (Nat.succ_pos _)
      rw [List.dropWhile_cons_of_neg hc]
  rw [trimMatches, hhead, trimEndMatches, trimMatches, trimEndMatches]
  exact List.rdropWhile_idempotent p _

theorem trimMatches_cons {p : Char → Bool} {c : Char} (h : p c = true) (s : List Char) :
    trimMatches p (c :: s) = trimMatches p s := by
  rw [trimMatches, List.dropWhile_cons_of_pos h, trimMatches]

theorem stripPrefix_append (pat s : List Char) : stripPrefix pat (pat ++ s) = some s := by
  rw [stripPrefix, if_pos (List.isPrefixOf_iff_prefix.2 (List.prefix_append pat s)),
    List.drop_left]

theorem splitOnce_fst_getD {p : α → Bool} {s : List α} :
    ((splitOnce p s).map (·.1)).getD s = s.takeWhile fun c => !p c := by
  induction s with
  | nil => rfl
  | cons c s ih =>
    by_cases hc : p c = true
    · simp [splitOnce, hc]
    · rw [Bool.not_eq_true] at hc
      rw [List.takeWhile_cons, hc, ← ih]
      cases hs : splitOnce p s with
      | none => simp [splitOnce, hc, hs]
      | some ab => simp [splitOnce, hc, hs]

theorem splitBefore_append_of_notMem {c : Char} {pat a s : List Char} (h : c ∉ a) :
    splitBefore (c :: pat) (a ++ s) =
      (splitBefore (c :: pat) s).map fun ab => (a ++ ab.1, ab.2) := by
  induction a with
  | nil => simp
  | cons x a ih =>
    have hx : c ≠ x := fun hcx => h (hcx ▸ List.mem_cons_self)
    have ha : c ∉ a := fun hmem => h (List.mem_cons_of_mem x hmem)
    simp [splitBefore, List.isPrefixOf, hx, ih ha, Option.map_map, Function.comp_def]

theorem splitBefore_char {c : Char} {a b : List Char} (h : c ∉ a) :
    splitBefore [c] (a ++ c :: b) = some (a, c :: b) := by
  rw [splitBefore_append_of_notMem h]
  simp [splitBefore]

theorem splitBefore_of_append {pat j s a b : List Char}
    (h : splitBefore pat (j ++ s) = some (j ++ a, b)) : splitBefore pat s = some (a, b) := by
  induction j with
  | nil => exact h
  | cons c j ih =>
    simp only [List.cons_append, splitBefore] at h
    split_ifs at h with hpre
    · simp at h
    · obtain ⟨ab, hab, heq⟩ := Option.map_eq_some_iff.1 h
      obtain ⟨hfst, rfl⟩ := Prod.mk.inj heq
      apply ih
      rw [hab, ← (List.cons.inj hfst).2]

theorem append_of_splitBefore {pat s a b : List Char} (h : splitBefore pat s = some (a, b)) :
    s = a ++ b ∧ pat <+: b := by
  induction s generalizing a with
  | nil => cases h
  | cons c s ih =>
    simp only [splitBefore] at h
    split_ifs at h with hpre
    · obtain ⟨rfl, rfl⟩ := Prod.mk.inj (Option.some.inj h)
      exact ⟨rfl, List.isPrefixOf_iff_prefix.1 hpre⟩
    · obtain ⟨ab, hab, heq⟩ := Option.map_eq_some_iff.1 h
      obtain ⟨rfl, rfl⟩ := Prod.mk.inj heq
      obtain ⟨hs, hb⟩ := ih hab
      exact ⟨congrArg (c :: ·) hs, hb⟩

/-- What follows the first occurrence of a pattern has no part in finding it. -/
theorem splitBefore_congr {pat a x y : List Char} (hpat : pat ≠ [])
    (h : splitBefore pat (a ++ pat ++ x) = some (a, pat ++ x)) :
    splitBefore pat (a ++ pat ++ y) = some (a, pat ++ y) := by
  induction a with
  | nil =>
    obtain ⟨c, pat, rfl⟩ := List.exists_cons_of_ne_nil hpat
    simp [splitBefore]
  | cons c a ih =>
    have hrest := ih
      (@splitBefore_of_append pat [c] (a ++ pat ++ x) a (pat ++ x) (by simpa using h))
    have hnot : ¬ pat.isPrefixOf (c :: (a ++ pat ++ y)) = true := by
      intro hpre
      have hle : pat.length ≤ (c :: (a ++ pat)).length := by simp; omega
      -- the first `pat.length` characters lie within `c :: a ++ pat`
      have hshort : pat <+: c :: (a ++ pat) :=
        List.prefix_of_prefix_length_le (List.isPrefixOf_iff_prefix.1 hpre)
          ⟨y, by simp⟩ hle
      have hlong : pat.isPrefixOf (c :: (a ++ pat ++ x)) = true :=
        List.isPrefixOf_iff_prefix.2 (hshort.trans ⟨x, by simp⟩)
      simp only [List.cons_append, splitBefore, hlong, if_true] at h
      simp at h
    simp only [List.cons_append, splitBefore, hnot, hrest, Option.map_some]
    simp

theorem splitOn_of_splitOnce {sep : Char} {s a b : List Char}
    (h : splitOnce (· == sep) s = some (a, b)) : s.splitOn sep = a :: b.splitOn sep := by
  induction s generalizing a with
  | nil => cases h
  | cons c s ih =>
    rw [List.splitOn_cons_eq_if_modifyHead]
    cases hc : c == sep with
    | true =>
      simp only [splitOnce, hc, if_true, Option.some.injEq, Prod.mk.injEq] at h
      rw [if_pos rfl, ← h.1, ← h.2]
    | false =>
      simp only [splitOnce, hc, Bool.false_eq_true, if_false, Option.map_eq_some_iff] at h
      obtain ⟨ab, hab, heq⟩ := h
      obtain ⟨rfl, rfl⟩ := Prod.mk.inj heq
      rw [if_neg Bool.false_ne_true, ih hab, List.modifyHead_cons]

theorem splitOn_of_splitOnce_none {sep : Char} {s : List Char}
    (h : splitOnce (· == sep) s = none) : s.splitOn sep = [s] := by
  induction s with
  | nil => rfl
  | cons c s ih =>
    have hall := splitOnce_eq_none.1 h
    rw [List.splitOn_cons_eq_if_modifyHead, hall c List.mem_cons_self, if_neg Bool.false_ne_true,
      ih (splitOnce_eq_none.2 fun x hx => hall x (List.mem_cons_of_mem _ hx)),
      List.modifyHead_cons]

theorem mem_of_mem_splitOn {sep c : Char} {s part : List Char} (hpart : part ∈ s.splitOn sep)
    (hc : c ∈ part) : c ∈ s ∧ c ≠ sep := by
  induction s generalizing part with
  | nil =>
    obtain rfl := List.mem_singleton.1 hpart
    cases hc
  | cons x s ih =>
    have hlater {part : List Char} (hpart : part ∈ s.splitOn sep) (hc : c ∈ part) :
        c ∈ x :: s ∧ c ≠ sep := (ih hpart hc).imp (List.mem_cons_of_mem x) id
    rw [List.splitOn_cons_eq_if_modifyHead] at hpart
    split_ifs at hpart with hx
    · rcases List.mem_cons.1 hpart with rfl | hpart
      · cases hc
      · exact hlater hpart hc
    · obtain ⟨first, rest, hsplit⟩ := List.exists_cons_of_ne_nil (List.splitOn_ne_nil sep s)
      rw [hsplit, List.modifyHead_cons] at hpart
      rw [hsplit] at hlater
      rcases List.mem_cons.1 hpart with rfl | hpart
      · -- the first part begins with `x`, which is no separator
        rcases List.mem_cons.1 hc with rfl | hc
        · exact ⟨List.mem_cons_self, fun heq => hx (beq_iff_eq.2 heq)⟩
        · exact hlater List.mem_cons_self hc
      · exact hlater (List.mem_cons_of_mem first hpart) hc

theorem splitn_eq_splitOn {sep : Char} {n : ℕ} {s : List Char}
    (h : (s.splitOn sep).length ≤ n) : splitn n sep s = s.splitOn sep := by
  induction n generalizing s with
  | zero =>
    cases hs : splitOnce (· == sep) s with
    | none => simp [splitOn_of_splitOnce_none hs] at h
    | some ab => simp [splitOn_of_splitOnce hs] at h
  | succ n ih =>
    cases hs : splitOnce (· == sep) s with
    | none =>
      rw [splitOn_of_splitOnce_none hs]
      cases n with
      | zero => rfl
      | succ n => simp only [splitn, hs]
    | some ab =>
      rw [splitOn_of_splitOnce hs] at h ⊢
      have hrest := ih (Nat.le_of_succ_le_succ h)
      cases n with
      | zero => exact absurd hrest.symm (List.splitOn_ne_nil _ _)
      | succ n => simp only [splitn, hs, hrest]

/-- The second part of a text that is cut at most twice lies between two separators. -/
theorem getElem?_one_splitn {sep : Char} {s : List Char} :
    (splitn 3 sep s)[1]? = (s.splitOn sep)[1]? := by
  cases hs : splitOnce (· == sep) s with
  | none => simp [splitn, hs, splitOn_of_splitOnce_none hs]
  | some ab =>
    cases hb : splitOnce (· == sep) ab.2 with
    | none => simp [splitn, hs, hb, splitOn_of_splitOnce hs, splitOn_of_splitOnce_none hb]
    | some cd => simp [splitn, hs, hb, splitOn_of_splitOnce hs, splitOn_of_splitOnce hb]

/-! ### Bytes -/

/-- `str::as_bytes`. -/
def bytes (s : List Char) : List UInt8 := s.flatMap String.utf8EncodeChar

theorem bytes_injective {s t : List Char} (h : bytes s = bytes t) : s = t := by
  apply String.ofList_injective
  rw [← String.toByteArray_inj, String.toByteArray_ofList, String.toByteArray_ofList,
    List.utf8Encode, List.utf8Encode]
  exact congrArg List.toByteArray h

/-- `str::len`. -/
def byteLen (s : List Char) : ℕ := (bytes s).length

/-- Cut a text after `n` bytes; `none` when that is not a character boundary (a slice panics). -/
def splitAtByte : List Char → ℕ → Option (List Char × List Char)
  | s, 0 => some ([], s)
  | [], _ + 1 => none
  | c :: s, n + 1 =>
    if byteLen [c] ≤ n + 1 then
      (splitAtByte s (n + 1 - byteLen [c])).map fun ab => (c :: ab.1, ab.2)
    else none

/-- The value of a hexadecimal digit. -/
def hexDigitVal (b : UInt8) : Option ℕ :=
  let n := b.toNat
  if 0x30 ≤ n && n ≤ 0x39 then some (n - 0x30)
  else if 0x41 ≤ n && n ≤ 0x46 then some (n - 0x41 + 10)
  else if 0x61 ≤ n && n ≤ 0x66 then some (n - 0x61 + 10)
  else none

/-- Percent-decoding of bytes: a `%` with two hexadecimal digits is one byte. -/
def percentDecodeBytes : List UInt8 → List UInt8
  | [] => []
  | [b] => [b]
  | [b, b'] => [b, b']
  | b :: hi :: lo :: rest =>
    if b = 0x25 then
      match hexDigitVal hi, hexDigitVal lo with
      | some h, some l => (h * 16 + l).toUInt8 :: percentDecodeBytes rest
      | _, _ => b :: percentDecodeBytes (hi :: lo :: rest)
    else b :: percentDecodeBytes (hi :: lo :: rest)

theorem percentDecodeBytes_cons {b : UInt8} (h : b ≠ 0x25) (bs : List UInt8) :
    percentDecodeBytes (b :: bs) = b :: percentDecodeBytes bs := by
  match bs with
  | [] => rfl
  | [_] => rfl
  | _ :: _ :: _ => rw [percentDecodeBytes, if_neg h]

/-- A byte in a range. -/
def inRange (lo hi b : UInt8) : Bool := lo ≤ b && b ≤ hi

/-- The bytes allowed after the first byte of a multi-byte sequence that starts with `b`. -/
def secondOk (b b' : UInt8) : Bool :=
  if b == 0xE0 then inRange 0xA0 0xBF b'
  else if b == 0xED then inRange 0x80 0x9F b'
  else if b == 0xF0 then inRange 0x90 0xBF b'
  else if b == 0xF4 then inRange 0x80 0x8F b'
  else inRange 0x80 0xBF b'

/-- The payload bits of a continuation byte. -/
def contBits (b : UInt8) : ℕ := b.toNat % 64

/-- Read one character, or skip one maximal invalid sequence (`none`). -/
def utf8Next (b : UInt8) (rest : List UInt8) : Option Char × List UInt8 :=
  if b < 0x80 then (some (Char.ofNat b.toNat), rest)
  else if inRange 0xC2 0xDF b then
    match rest with
    | c :: rest' => if inRange 0x80 0xBF c then
        (some (Char.ofNat (b.toNat % 32 * 64 + contBits c)), rest') else (none, rest)
    | [] => (none, rest)
  else if inRange 0xE0 0xEF b then
    match rest with
    | c :: d :: rest' => if secondOk b c then
        if inRange 0x80 0xBF d then
          (some (Char.ofNat ((b.toNat % 16 * 64 + contBits c) * 64 + contBits d)), rest')
        else (none, d :: rest')
      else (none, rest)
    | [c] => if secondOk b c then (none, []) else (none, rest)
    | [] => (none, rest)
  else if inRange 0xF0 0xF4 b then
    match rest with
    | c :: d :: e :: rest' => if secondOk b c then
        if inRange 0x80 0xBF d then
          if inRange 0x80 0xBF e then
            (some (Char.ofNat (((b.toNat % 8 * 64 + contBits c) * 64 + contBits d) * 64 +
              contBits e)), rest')
          else (none, e :: rest')
        else (none, d :: e :: rest')
      else (none, rest)
    | [c, d] => if secondOk b c then
        if inRange 0x80 0xBF d then (none, []) else (none, [d])
      else (none, rest)
    | [c] => if secondOk b c then (none, []) else (none, rest)
    | [] => (none, rest)
  else (none, rest)

/-- The characters and invalid sequences of the first `n` steps through a byte string. -/
def utf8ChunksAux : ℕ → List UInt8 → List (Option Char)
  | 0, _ => []
  | _, [] => []
  | n + 1, b :: rest => (utf8Next b rest).1 :: utf8ChunksAux n (utf8Next b rest).2

/-- The characters and invalid sequences (`none`) of a byte string. -/
def utf8Chunks (bs : List UInt8) : List (Option Char) := utf8ChunksAux bs.length bs

/-- `String::from_utf8_lossy`: U+FFFD stands for each invalid sequence. -/
def fromUtf8Lossy (bs : List UInt8) : List Char :=
  (utf8Chunks bs).map fun c => c.getD (Char.ofNat 0xFFFD)

/-- `String::from_utf8`: `none` when the bytes are not valid UTF-8. -/
def fromUtf8 (bs : List UInt8) : Option (List Char) := (utf8Chunks bs).mapM id

/-- Percent-decoding of a text; `none` when the result is not valid UTF-8. -/
def percentDecode (s : String) : Option String :=
  (fromUtf8 (percentDecodeBytes (bytes s.toList))).map String.ofList

end Rust

end CronManager

import CronManager.Rust.Str
import Mathlib.Data.List.TakeWhile

/-!
# IP addresses of the Rust standard library

`Ipv4Addr`, `Ipv6Addr` and `IpAddr` with the classification methods of `std::net` and the
grammar of `IpAddr::from_str` (`parseIpAddr`): four decimal octets without superfluous leading
zeros, or IPv6 groups with at most one `::` and an optional embedded IPv4 tail.

The two facts about the grammar that the rest of the development uses are that the text of an
IPv4 address parses (`parseIpAddr_display`) and that a bracketed text never does
(`parseIpAddr_bracket`).
-/

namespace CronManager

namespace Rust

/-- `std::net::Ipv4Addr`, by its octets. -/
structure Ipv4Addr where
  o0 : UInt8
  o1 : UInt8
  o2 : UInt8
  o3 : UInt8
  deriving DecidableEq, Repr

/-- `std::net::Ipv6Addr`, by its segments. -/
structure Ipv6Addr where
  s0 : UInt16
  s1 : UInt16
  s2 : UInt16
  s3 : UInt16
  s4 : UInt16
  s5 : UInt16
  s6 : UInt16
  s7 : UInt16
  deriving DecidableEq, Repr

/-- `std::net::IpAddr`. -/
inductive IpAddr where
  | v4 (a : Ipv4Addr)
  | v6 (a : Ipv6Addr)
  deriving DecidableEq, Repr

namespace Ipv4Addr

variable (a : Ipv4Addr)

/-- 127.0.0.0/8. -/
def isLoopback : Bool := a.o0 == 127

/-- 169.254.0.0/16. -/
def isLinkLocal : Bool := a.o0 == 169 && a.o1 == 254

/-- 10.0.0.0/8, 172.16.0.0/12 and 192.168.0.0/16. -/
def isPrivate : Bool :=
  a.o0 == 10 || (a.o0 == 172 && (16 ≤ a.o1 && a.o1 ≤ 31)) || (a.o0 == 192 && a.o1 == 168)

/-- 0.0.0.0. -/
def isUnspecified : Bool := a == ⟨0, 0, 0, 0⟩

/-- 224.0.0.0/4. -/
def isMulticast : Bool := 224 ≤ a.o0 && a.o0 ≤ 239

/-- 255.255.255.255. -/
def isBroadcast : Bool := a == ⟨255, 255, 255, 255⟩

end Ipv4Addr

namespace Ipv6Addr

variable (a : Ipv6Addr)

/-- `Ipv6Addr::segments`. -/
def segments : List UInt16 := [a.s0, a.s1, a.s2, a.s3, a.s4, a.s5, a.s6, a.s7]

/-- ::1. -/
def isLoopback : Bool := a == ⟨0, 0, 0, 0, 0, 0, 0, 1⟩

/-- ::. -/
def isUnspecified : Bool := a == ⟨0, 0, 0, 0, 0, 0, 0, 0⟩

/-- ff00::/8. -/
def isMulticast : Bool := a.s0 &&& 0xff00 == 0xff00

/-- `Ipv6Addr::to_ipv4_mapped`: the IPv4 address of `::ffff:a.b.c.d`. -/
def toIpv4Mapped : Option Ipv4Addr :=
  if a.s0 == 0 && a.s1 == 0 && a.s2 == 0 && a.s3 == 0 && a.s4 == 0 && a.s5 == 0xffff then
    some ⟨(a.s6 >>> 8).toUInt8, a.s6.toUInt8, (a.s7 >>> 8).toUInt8, a.s7.toUInt8⟩
  else none

end Ipv6Addr

/-- `IpAddr::is_loopback`. -/
def IpAddr.isLoopback : IpAddr → Bool
  | .v4 a => a.isLoopback
  | .v6 a => a.isLoopback

/-! ### Text -/

/-- The decimal digits of a number. -/
def decimal (n : ℕ) : List Char := Nat.toDigits 10 n

/-- `Ipv4Addr` as text: `a.b.c.d`. -/
def Ipv4Addr.display (a : Ipv4Addr) : List Char :=
  decimal a.o0.toNat ++ '.' :: decimal a.o1.toNat ++ '.' :: decimal a.o2.toNat ++
    '.' :: decimal a.o3.toNat

/-- The longest run of zero segments, the first one on a tie: its start and its length. -/
def zeroRun : ℕ → List UInt16 → ℕ × ℕ
  | _, [] => (0, 0)
  | i, s :: ss =>
    let here := ((s :: ss).takeWhile (· == 0)).length
    let later := zeroRun (i + 1) ss
    if later.2 ≤ here then (i, here) else later

/-- Lower-case hexadecimal groups separated by colons. -/
def hexGroups (ss : List UInt16) : List Char :=
  List.intercalate [':'] (ss.map fun s => Nat.toDigits 16 s.toNat)

/-- `Ipv6Addr` as text: an IPv4-mapped address keeps its dotted form, otherwise the longest run
of at least two zero segments is written `::`. -/
def Ipv6Addr.display (a : Ipv6Addr) : List Char :=
  match a.toIpv4Mapped with
  | some v4 => "::ffff:".toList ++ v4.display
  | none =>
    let z := zeroRun 0 a.segments
    if 1 < z.2 then
      hexGroups (a.segments.take z.1) ++ "::".toList ++ hexGroups (a.segments.drop (z.1 + z.2))
    else hexGroups a.segments

/-- `IpAddr` as text. -/
def IpAddr.display : IpAddr → List Char
  | .v4 a => a.display
  | .v6 a => a.display

/-! ### Parsing -/

/-- The value of a digit in the given radix (10 or 16). -/
def digitVal (radix : ℕ) (c : Char) : Option ℕ :=
  let n := c.toNat
  let v := if 0x30 ≤ n && n ≤ 0x39 then some (n - 0x30)
    else if 0x61 ≤ n && n ≤ 0x66 then some (n - 0x61 + 10)
    else if 0x41 ≤ n && n ≤ 0x46 then some (n - 0x41 + 10)
    else none
  v.filter (· < radix)

/-- The value of a run of digits. -/
def digitsVal (radix : ℕ) (ds : List Char) : ℕ :=
  ds.foldl (fun v c => v * radix + (digitVal radix c).getD 0) 0

/-- `Parser::read_number`: a run of at most `maxDigits` digits with a value below `bound`. -/
def readNumber (radix maxDigits : ℕ) (allowZeroStart : Bool) (bound : ℕ) (s : List Char) :
    Option (ℕ × List Char) :=
  let ds := s.takeWhile fun c => (digitVal radix c).isSome
  if ds.isEmpty || maxDigits < ds.length || (!allowZeroStart && ds.head? == some '0' &&
      1 < ds.length) || bound ≤ digitsVal radix ds then none
  else some (digitsVal radix ds, s.dropWhile fun c => (digitVal radix c).isSome)

/-- `Parser::read_given_char`. -/
def readGivenChar (c : Char) : List Char → Option (List Char)
  | [] => none
  | d :: s => if d = c then some s else none

/-- One octet, after a dot unless it is the first. -/
def readOctet (first : Bool) (s : List Char) : Option (ℕ × List Char) := do
  let s ← if first then some s else readGivenChar '.' s
  readNumber 10 3 false 256 s

/-- `Parser::read_ipv4_addr`. -/
def readIpv4Addr (s : List Char) : Option (Ipv4Addr × List Char) := do
  let (a, s) ← readOctet true s
  let (b, s) ← readOctet false s
  let (c, s) ← readOctet false s
  let (d, s) ← readOctet false s
  return (⟨.ofNat a, .ofNat b, .ofNat c, .ofNat d⟩, s)

/-- `read_groups`: at most `n` more groups, the `i`-th next.  Returns the groups, whether they
end in an embedded IPv4 address, and the rest of the text. -/
def readGroups : ℕ → ℕ → List Char → List UInt16 × Bool × List Char
  | 0, _, s => ([], false, s)
  | n + 1, i, s =>
    let after := if i = 0 then some s else readGivenChar ':' s
    match (if 0 < n then after.bind readIpv4Addr else none) with
    | some (a, s') =>
      ([.ofNat (a.o0.toNat * 256 + a.o1.toNat), .ofNat (a.o2.toNat * 256 + a.o3.toNat)], true, s')
    | none => match after.bind (readNumber 16 4 true 65536) with
      | none => ([], false, s)
      | some (g, s') =>
        let r := readGroups n (i + 1) s'
        (.ofNat g :: r.1, r.2.1, r.2.2)

/-- Eight segments as an address. -/
def Ipv6Addr.ofSegments : List UInt16 → Option Ipv6Addr
  | [a, b, c, d, e, f, g, h] => some ⟨a, b, c, d, e, f, g, h⟩
  | _ => none

/-- `Parser::read_ipv6_addr`. -/
def readIpv6Addr (s : List Char) : Option (Ipv6Addr × List Char) :=
  let (head, headV4, s) := readGroups 8 0 s
  if head.length = 8 then (Ipv6Addr.ofSegments head).map fun a => (a, s)
  else if headV4 then none
  else do
    let s ← readGivenChar ':' s
    let s ← readGivenChar ':' s
    let (tail, _, s) := readGroups (7 - head.length) 0 s
    let a ← Ipv6Addr.ofSegments
      (head ++ List.replicate (8 - head.length - tail.length) 0 ++ tail)
    return (a, s)

/-- `IpAddr::from_str`: the whole text must be one address. -/
def parseIpAddr (s : List Char) : Option IpAddr :=
  match readIpv4Addr s with
  | some (a, rest) => if rest.isEmpty then some (.v4 a) else none
  | none => match readIpv6Addr s with
    | some (a, rest) => if rest.isEmpty then some (.v6 a) else none
    | none => none

/-! ### What the grammar accepts -/

theorem digitVal_ten {c : Char} (h : c.isDigit = true) : digitVal 10 c = some (c.toNat - 48) := by
  have hrange : 48 ≤ c.toNat ∧ c.toNat ≤ 57 := Char.isDigit_iff_toNat.1 h
  have hsmall : c.toNat - 48 < 10 := by omega
  simp [digitVal, hrange, hsmall]

theorem isDigit_decimal {n : ℕ} {c : Char} (h : c ∈ decimal n) : c.isDigit = true :=
  Nat.isDigit_of_mem_toDigits (by decide) (by decide) h

theorem head_decimal {n : ℕ} (hn : 0 < n) : (decimal n).head? ≠ some '0' := by
  induction n using Nat.strong_induction_on with
  | _ n ih =>
    by_cases hlt : n < 10
    · rw [decimal, Nat.toDigits_of_lt_base hlt]
      simp only [List.head?_cons, ne_eq, Option.some.injEq]
      intro h
      have hval := Nat.toNat_digitChar_sub_48_of_lt_ten hlt
      rw [h] at hval
      exact hn.ne hval
    · rw [decimal, Nat.toDigits_of_base_le (by decide) (by omega),
        List.head?_append_of_ne_nil _ Nat.toDigits_ne_nil]
      exact ih _ (by omega) (by omega)

theorem digitsVal_decimal (n : ℕ) : digitsVal 10 (decimal n) = n := by
  have hfold : ∀ (ds : List Char) (v : ℕ), (∀ c ∈ ds, c.isDigit = true) →
      ds.foldl (fun v c => v * 10 + (digitVal 10 c).getD 0) v = Nat.ofDigitChars 10 ds v := by
    intro ds
    induction ds with
    | nil =>
      intro v _
      simp
    | cons d ds ih =>
      intro v h
      rw [List.foldl_cons, Nat.ofDigitChars_cons, digitVal_ten (h d (by simp)),
        ih _ fun c hc => h c (by simp [hc]), Nat.mul_comm]
      rfl
  rw [digitsVal, hfold _ _ fun c => isDigit_decimal]
  exact Nat.ofDigitChars_ten_toDigits

theorem decimal_octet {n : ℕ} (hn : n < 256) : (decimal n).length ≤ 3 ∧
    ((decimal n).head? = some '0' → (decimal n).length = 1) := by
  refine ⟨(Nat.length_toDigits_le_iff (by decide) (by decide)).2 (by omega), fun hzero => ?_⟩
  obtain rfl | hpos := Nat.eq_zero_or_pos n
  · rfl
  · exact absurd hzero (head_decimal hpos)

theorem readNumber_decimal {n : ℕ} (hn : n < 256) {rest : List Char}
    (hr : ∀ c, rest.head? = some c → (digitVal 10 c).isSome = false) :
    readNumber 10 3 false 256 (decimal n ++ rest) = some (n, rest) := by
  obtain ⟨hlen, hzero⟩ := decimal_octet hn
  have hdig : ∀ c ∈ decimal n, (digitVal 10 c).isSome = true := by
    intro c hc
    rw [digitVal_ten (isDigit_decimal hc), Option.isSome_some]
  have hne : decimal n ≠ [] := Nat.toDigits_ne_nil
  have hval := digitsVal_decimal n
  have htake : (decimal n ++ rest).takeWhile (fun c => (digitVal 10 c).isSome) = decimal n := by
    rw [List.takeWhile_append_of_pos hdig]
    cases rest with
    | nil => simp
    | cons c rest => simp [hr c rfl]
  have hdrop : (decimal n ++ rest).dropWhile (fun c => (digitVal 10 c).isSome) = rest := by
    rw [List.dropWhile_append_of_pos hdig]
    cases rest with
    | nil => simp
    | cons c rest => simp [hr c rfl]
  have hcond : ((decimal n).isEmpty || decide (3 < (decimal n).length) ||
      (!false && (decimal n).head? == some '0' && decide (1 < (decimal n).length)) ||
      decide (256 ≤ digitsVal 10 (decimal n))) = false := by
    rw [hval]
    have h0 : ((decimal n).head? == some '0' && decide (1 < (decimal n).length)) = false := by
      by_cases h : (decimal n).head? = some '0'
      · simp [h, hzero h]
      · simp [h]
    simp only [Bool.not_false, Bool.true_and, h0, Bool.or_false, Bool.or_eq_false_iff,
      decide_eq_false_iff_not, not_lt, not_le]
    exact ⟨⟨by simpa using hne, hlen⟩, hn⟩
  simp only [readNumber, htake, hdrop, hcond, Bool.false_eq_true, if_false]
  rw [hval]

theorem parseIpAddr_display (a : Ipv4Addr) : parseIpAddr a.display = some (.v4 a) := by
  have hdot : ∀ (rest : List Char) (c : Char), ('.' :: rest).head? = some c →
      (digitVal 10 c).isSome = false := by
    intro rest c h
    simp only [List.head?_cons, Option.some.injEq] at h
    subst h
    decide
  have hend : ∀ c, ([] : List Char).head? = some c → (digitVal 10 c).isSome = false := by simp
  have hlast := readNumber_decimal a.o3.toNat_lt hend
  rw [List.append_nil] at hlast
  have hread : readIpv4Addr a.display = some (a, []) := by
    simp only [readIpv4Addr, readOctet, Ipv4Addr.display, List.append_assoc, List.cons_append,
      if_true, Bool.false_eq_true, if_false, Option.bind_eq_bind, Option.bind_some,
      readNumber_decimal a.o0.toNat_lt (hdot _), readNumber_decimal a.o1.toNat_lt (hdot _),
      readNumber_decimal a.o2.toNat_lt (hdot _), hlast, readGivenChar, Option.pure_def,
      UInt8.ofNat_toNat]
  simp [parseIpAddr, hread]

theorem parseIpAddr_bracket (s : List Char) : parseIpAddr ('[' :: s) = none := by
  have hnum : ∀ radix m z b, readNumber radix m z b ('[' :: s) = none := by
    intro radix m z b
    have : (digitVal radix '[').isSome = false := by simp [digitVal]
    simp [readNumber, this]
  have h4 : readIpv4Addr ('[' :: s) = none := by
    simp [readIpv4Addr, readOctet, hnum]
  have hg : readGroups 8 0 ('[' :: s) = ([], false, '[' :: s) := by
    simp [readGroups, h4, hnum]
  have h6 : readIpv6Addr ('[' :: s) = none := by
    simp [readIpv6Addr, hg, readGivenChar]
  simp [parseIpAddr, h4, h6]

end Rust

end CronManager

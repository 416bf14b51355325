import CronManager.Rust.Net
import Mathlib.Data.Nat.Bitwise

/-!
# Address blocks

An address as a number, the CIDR block of a network (`InNet`: the leading `len` bits agree) and
the IPv4-mapped form of an IPv4 address.  The classifications of `std::net` and of its users test
octets, segments and bit masks; the lemmas here turn each of these tests into membership in a
block.
-/

namespace CronManager

namespace Rust

/-! ### Leading parts of a number -/

theorem mul_two_pow_add_lt {h l m k : ℕ} (hh : h < 2 ^ k) (hl : l < 2 ^ m) :
    h * 2 ^ m + l < 2 ^ (m + k) := by
  calc h * 2 ^ m + l < (h + 1) * 2 ^ m := by rw [Nat.succ_mul]; omega
    _ ≤ 2 ^ k * 2 ^ m := Nat.mul_le_mul_right _ hh
    _ = 2 ^ (m + k) := by rw [← pow_add, Nat.add_comm]

theorem div_two_pow_add {h l m : ℕ} (hl : l < 2 ^ m) (k : ℕ) :
    (h * 2 ^ m + l) / 2 ^ (m + k) = h / 2 ^ k := by
  rw [pow_add, ← Nat.div_div_eq_div_mul, Nat.mul_comm h, Nat.mul_add_div (Nat.two_pow_pos m),
    Nat.div_eq_of_lt hl, Nat.add_zero]

/-- Two numbers agree down to a bit of their low parts when their high parts agree and the low
parts do down to that bit. -/
theorem div_two_pow_eq_iff {h h' l l' m k : ℕ} (hl : l < 2 ^ m) (hl' : l' < 2 ^ m) (hk : k ≤ m) :
    (h * 2 ^ m + l) / 2 ^ k = (h' * 2 ^ m + l') / 2 ^ k ↔
      h = h' ∧ l / 2 ^ k = l' / 2 ^ k := by
  obtain ⟨j, rfl⟩ := Nat.exists_eq_add_of_le hk
  have hsplit (x y : ℕ) : (x * 2 ^ (k + j) + y) / 2 ^ k = x * 2 ^ j + y / 2 ^ k := by
    rw [pow_add, Nat.mul_comm (2 ^ k), ← Nat.mul_assoc, Nat.add_comm,
      Nat.add_mul_div_right _ _ (Nat.two_pow_pos k), Nat.add_comm]
  have hlow {y : ℕ} (hy : y < 2 ^ (k + j)) : y / 2 ^ k < 2 ^ j :=
    Nat.div_lt_of_lt_mul (by rwa [← pow_add])
  -- both quotients are again a high part in front of a low part, now of `j` bits
  rw [hsplit, hsplit]
  constructor
  · intro heq
    have hhigh (x : ℕ) {y : ℕ} (hy : y < 2 ^ (k + j)) : (x * 2 ^ j + y / 2 ^ k) / 2 ^ j = x := by
      simpa using @div_two_pow_add x (y / 2 ^ k) j (hlow hy) 0
    obtain rfl : h = h' := by rw [← hhigh h hl, heq, hhigh h' hl']
    exact ⟨rfl, Nat.add_left_cancel heq⟩
  · rintro ⟨rfl, hlow⟩
    rw [hlow]

theorem and_two_pow_sub_two_pow {x w k : ℕ} (hx : x < 2 ^ w) (hk : k ≤ w) :
    x &&& (2 ^ w - 2 ^ k) = x / 2 ^ k * 2 ^ k := by
  obtain ⟨j, rfl⟩ := Nat.exists_eq_add_of_le hk
  have hmask : 2 ^ (k + j) - 2 ^ k = (2 ^ j - 1) <<< k := by
    rw [Nat.shiftLeft_eq, Nat.sub_mul, one_mul, ← pow_add, Nat.add_comm j k]
  rw [hmask, ← Nat.shiftRight_eq_div_pow, ← Nat.shiftLeft_eq]
  refine Nat.eq_of_testBit_eq fun i => ?_
  rw [Nat.testBit_and, Nat.testBit_shiftLeft, Nat.testBit_shiftLeft, Nat.testBit_shiftRight,
    Nat.testBit_two_pow_sub_one]
  by_cases hi : k ≤ i
  · by_cases hlt : i < k + j
    · simp [hi, show i - k < j by omega]
    · -- the mask has no bit here, and neither has `x`
      have hzero : x.testBit i = false :=
        Nat.testBit_lt_two_pow (hx.trans_le (Nat.pow_le_pow_right Nat.two_pos (by omega)))
      simp [hi, hzero]
  · simp [hi]

theorem uint16_and_eq_iff {x mask val : UInt16} {k : ℕ} (hk : k ≤ 16)
    (hmask : mask.toNat = 2 ^ 16 - 2 ^ k) (hval : val.toNat / 2 ^ k * 2 ^ k = val.toNat) :
    x &&& mask = val ↔ x.toNat / 2 ^ k = val.toNat / 2 ^ k := by
  rw [← UInt16.toNat_inj, UInt16.toNat_and, hmask, and_two_pow_sub_two_pow x.toNat_lt hk]
  constructor
  · intro h
    rw [← h, Nat.mul_div_cancel _ (Nat.two_pow_pos k)]
  · intro h
    rw [h, hval]

/-! ### IPv4 blocks -/

namespace Ipv4Addr

variable {a net : Ipv4Addr} {len : ℕ}

/-- `u32::from`. -/
def toNat (a : Ipv4Addr) : ℕ :=
  a.o0.toNat * 2 ^ 24 + (a.o1.toNat * 2 ^ 16 + (a.o2.toNat * 2 ^ 8 + a.o3.toNat))

/-- The address lies in the block `net/len`. -/
def InNet (net : Ipv4Addr) (len : ℕ) (a : Ipv4Addr) : Prop :=
  a.toNat / 2 ^ (32 - len) = net.toNat / 2 ^ (32 - len)

instance : Decidable (InNet net len a) := inferInstanceAs (Decidable (_ = _))

/-- The address lies in one of the blocks. -/
def InNets (nets : List (Ipv4Addr × ℕ)) (a : Ipv4Addr) : Prop := ∃ net ∈ nets, InNet net.1 net.2 a

instance (nets : List (Ipv4Addr × ℕ)) : Decidable (InNets nets a) :=
  inferInstanceAs (Decidable (∃ net ∈ nets, InNet net.1 net.2 a))

theorem low16_lt (a : Ipv4Addr) : a.o2.toNat * 2 ^ 8 + a.o3.toNat < 2 ^ 16 :=
  mul_two_pow_add_lt a.o2.toNat_lt a.o3.toNat_lt

theorem low24_lt (a : Ipv4Addr) :
    a.o1.toNat * 2 ^ 16 + (a.o2.toNat * 2 ^ 8 + a.o3.toNat) < 2 ^ 24 :=
  mul_two_pow_add_lt a.o1.toNat_lt a.low16_lt

theorem inNet_of_le_eight (hlen : len ≤ 8) :
    InNet net len a ↔ a.o0.toNat / 2 ^ (8 - len) = net.o0.toNat / 2 ^ (8 - len) := by
  have hbits : 32 - len = 24 + (8 - len) := by omega
  rw [InNet, hbits, toNat, toNat, div_two_pow_add a.low24_lt, div_two_pow_add net.low24_lt]

theorem inNet_of_le_sixteen (hlow : 8 ≤ len) (hlen : len ≤ 16) :
    InNet net len a ↔
      a.o0 = net.o0 ∧ a.o1.toNat / 2 ^ (16 - len) = net.o1.toNat / 2 ^ (16 - len) := by
  have hbits : 32 - len = 16 + (16 - len) := by omega
  rw [InNet, toNat, toNat, div_two_pow_eq_iff a.low24_lt net.low24_lt (by omega), hbits,
    div_two_pow_add a.low16_lt, div_two_pow_add net.low16_lt, UInt8.toNat_inj]

theorem inNet_twentyFour :
    InNet net 24 a ↔ a.o0 = net.o0 ∧ a.o1 = net.o1 ∧ a.o2 = net.o2 := by
  have hlow (x : Ipv4Addr) : (x.o2.toNat * 2 ^ 8 + x.o3.toNat) / 2 ^ 8 = x.o2.toNat := by
    simpa using @div_two_pow_add x.o2.toNat x.o3.toNat 8 x.o3.toNat_lt 0
  rw [InNet, toNat, toNat, div_two_pow_eq_iff a.low24_lt net.low24_lt (by decide),
    div_two_pow_eq_iff a.low16_lt net.low16_lt (by decide)]
  rw [show 32 - 24 = 8 from rfl, hlow a, hlow net]
  simp only [UInt8.toNat_inj]

theorem inNet_eight : InNet net 8 a ↔ a.o0 = net.o0 := by
  rw [inNet_of_le_eight le_rfl, Nat.sub_self, pow_zero, Nat.div_one, Nat.div_one, UInt8.toNat_inj]

theorem inNet_sixteen : InNet net 16 a ↔ a.o0 = net.o0 ∧ a.o1 = net.o1 := by
  rw [inNet_of_le_sixteen (by decide) le_rfl, Nat.sub_self, pow_zero, Nat.div_one, Nat.div_one,
    UInt8.toNat_inj]

theorem isLoopback_iff : a.isLoopback = true ↔ InNet ⟨127, 0, 0, 0⟩ 8 a := by
  rw [inNet_eight, isLoopback, beq_iff_eq]

theorem isLinkLocal_iff : a.isLinkLocal = true ↔ InNet ⟨169, 254, 0, 0⟩ 16 a := by
  rw [inNet_sixteen, isLinkLocal, Bool.and_eq_true, beq_iff_eq, beq_iff_eq]

theorem isMulticast_iff : a.isMulticast = true ↔ InNet ⟨224, 0, 0, 0⟩ 4 a := by
  rw [inNet_of_le_eight (by decide), isMulticast, Bool.and_eq_true, decide_eq_true_eq,
    decide_eq_true_eq, UInt8.le_iff_toNat_le, UInt8.le_iff_toNat_le]
  show 224 ≤ a.o0.toNat ∧ a.o0.toNat ≤ 239 ↔ a.o0.toNat / 16 = 14
  omega

theorem inNet_range (net : Ipv4Addr) (len : ℕ) {lo hi : UInt8} (hlow : 8 ≤ len) (hlen : len ≤ 16)
    (hrange : ∀ n : ℕ, n / 2 ^ (16 - len) = net.o1.toNat / 2 ^ (16 - len) ↔
      lo.toNat ≤ n ∧ n ≤ hi.toNat) :
    (a.o0 == net.o0 && (lo ≤ a.o1 && a.o1 ≤ hi)) = true ↔ InNet net len a := by
  rw [inNet_of_le_sixteen hlow hlen, hrange, Bool.and_eq_true, Bool.and_eq_true, beq_iff_eq,
    decide_eq_true_eq, decide_eq_true_eq, UInt8.le_iff_toNat_le, UInt8.le_iff_toNat_le]

theorem isPrivate_iff : a.isPrivate = true ↔
    InNet ⟨10, 0, 0, 0⟩ 8 a ∨ InNet ⟨172, 16, 0, 0⟩ 12 a ∨ InNet ⟨192, 168, 0, 0⟩ 16 a := by
  have htwelve : (a.o0 == 172 && (16 ≤ a.o1 && a.o1 ≤ 31)) = true ↔
      InNet ⟨172, 16, 0, 0⟩ 12 a := by
    refine inNet_range ⟨172, 16, 0, 0⟩ 12 (by decide) (by decide) fun n => ?_
    show n / 16 = 1 ↔ 16 ≤ n ∧ n ≤ 31
    omega
  rw [isPrivate, Bool.or_eq_true, Bool.or_eq_true, or_assoc, htwelve, inNet_eight, inNet_sixteen,
    Bool.and_eq_true, beq_iff_eq, beq_iff_eq, beq_iff_eq]

/-- The shared address space of RFC 6598. -/
theorem isShared_iff : (a.o0 == 100 && (64 ≤ a.o1 && a.o1 ≤ 127)) = true ↔
    InNet ⟨100, 64, 0, 0⟩ 10 a := by
  refine inNet_range ⟨100, 64, 0, 0⟩ 10 (by decide) (by decide) fun n => ?_
  show n / 64 = 1 ↔ 64 ≤ n ∧ n ≤ 127
  omega

end Ipv4Addr

/-! ### IPv6 blocks -/

namespace Ipv6Addr

variable {a net : Ipv6Addr} {len : ℕ}

/-- The number of the segments behind the first. -/
def tailNat (a : Ipv6Addr) : ℕ :=
  a.s1.toNat * 2 ^ 96 + a.s2.toNat * 2 ^ 80 + a.s3.toNat * 2 ^ 64 + a.s4.toNat * 2 ^ 48 +
    a.s5.toNat * 2 ^ 32 + a.s6.toNat * 2 ^ 16 + a.s7.toNat

/-- `u128::from`. -/
def toNat (a : Ipv6Addr) : ℕ := a.s0.toNat * 2 ^ 112 + a.tailNat

/-- The address lies in the block `net/len`. -/
def InNet (net : Ipv6Addr) (len : ℕ) (a : Ipv6Addr) : Prop :=
  a.toNat / 2 ^ (128 - len) = net.toNat / 2 ^ (128 - len)

instance : Decidable (InNet net len a) := inferInstanceAs (Decidable (_ = _))

theorem tailNat_lt (a : Ipv6Addr) : a.tailNat < 2 ^ 112 := by
  have h1 := a.s1.toNat_lt
  have h2 := a.s2.toNat_lt
  have h3 := a.s3.toNat_lt
  have h4 := a.s4.toNat_lt
  have h5 := a.s5.toNat_lt
  have h6 := a.s6.toNat_lt
  have h7 := a.s7.toNat_lt
  unfold tailNat
  omega

theorem inNet_of_le_sixteen (hlen : len ≤ 16) :
    InNet net len a ↔ a.s0.toNat / 2 ^ (16 - len) = net.s0.toNat / 2 ^ (16 - len) := by
  have hbits : 128 - len = 112 + (16 - len) := by omega
  rw [InNet, hbits, toNat, toNat, div_two_pow_add a.tailNat_lt, div_two_pow_add net.tailNat_lt]

theorem mask_iff (net : Ipv6Addr) (len : ℕ) {mask : UInt16} (hlen : len ≤ 16)
    (hmask : mask.toNat = 2 ^ 16 - 2 ^ (16 - len))
    (hnet : net.s0.toNat / 2 ^ (16 - len) * 2 ^ (16 - len) = net.s0.toNat) :
    (a.s0 &&& mask == net.s0) = true ↔ InNet net len a := by
  rw [beq_iff_eq, uint16_and_eq_iff (Nat.sub_le 16 len) hmask hnet, inNet_of_le_sixteen hlen]

theorem isMulticast_iff : a.isMulticast = true ↔ InNet ⟨0xff00, 0, 0, 0, 0, 0, 0, 0⟩ 8 a :=
  mask_iff ⟨0xff00, 0, 0, 0, 0, 0, 0, 0⟩ 8 (by decide) rfl rfl

theorem linkLocal_iff : (a.s0 &&& 0xffc0 == 0xfe80) = true ↔
    InNet ⟨0xfe80, 0, 0, 0, 0, 0, 0, 0⟩ 10 a :=
  mask_iff ⟨0xfe80, 0, 0, 0, 0, 0, 0, 0⟩ 10 (by decide) rfl rfl

theorem uniqueLocal_iff : (a.s0 &&& 0xfe00 == 0xfc00) = true ↔
    InNet ⟨0xfc00, 0, 0, 0, 0, 0, 0, 0⟩ 7 a :=
  mask_iff ⟨0xfc00, 0, 0, 0, 0, 0, 0, 0⟩ 7 (by decide) rfl rfl

end Ipv6Addr

/-! ### IPv4-mapped addresses -/

/-- `Ipv4Addr::to_ipv6_mapped`: `::ffff:a.b.c.d`. -/
def Ipv4Addr.toIpv6Mapped (a : Ipv4Addr) : Ipv6Addr :=
  ⟨0, 0, 0, 0, 0, 0xffff, .ofNat (a.o0.toNat * 256 + a.o1.toNat),
    .ofNat (a.o2.toNat * 256 + a.o3.toNat)⟩

theorem segment_eq_iff {s : UInt16} {hi lo : UInt8} :
    ((s >>> 8).toUInt8 = hi ∧ s.toUInt8 = lo) ↔ s = .ofNat (hi.toNat * 256 + lo.toNat) := by
  have hs := s.toNat_lt
  have hhi := hi.toNat_lt
  have hlo := lo.toNat_lt
  have hshift : (s >>> 8).toNat = s.toNat / 256 := by
    rw [UInt16.toNat_shiftRight]
    exact Nat.shiftRight_eq_div_pow _ _
  rw [← UInt8.toNat_inj, ← UInt8.toNat_inj, ← UInt16.toNat_inj, UInt16.toNat_toUInt8,
    UInt16.toNat_toUInt8, hshift, UInt16.toNat_ofNat']
  omega

/-- **An address has an IPv4 address inside exactly when it is the mapped form of it.** -/
theorem Ipv6Addr.toIpv4Mapped_eq_some {a : Ipv6Addr} {v4 : Ipv4Addr} :
    a.toIpv4Mapped = some v4 ↔ a = v4.toIpv6Mapped := by
  obtain ⟨s0, s1, s2, s3, s4, s5, s6, s7⟩ := a
  obtain ⟨o0, o1, o2, o3⟩ := v4
  simp only [toIpv4Mapped, Ipv4Addr.toIpv6Mapped, Ipv6Addr.mk.injEq, Option.ite_none_right_eq_some,
    Option.some.injEq, Ipv4Addr.mk.injEq, Bool.and_eq_true, beq_iff_eq]
  rw [← segment_eq_iff, ← segment_eq_iff]
  tauto

namespace Ipv6Addr

variable {p : Ipv4Addr → Prop} {a : Ipv6Addr}

/-- The address is the mapped form of an IPv4 address that satisfies `p`. -/
def Mapped (p : Ipv4Addr → Prop) (a : Ipv6Addr) : Prop :=
  ∃ v4 : Ipv4Addr, a = v4.toIpv6Mapped ∧ p v4

theorem mapped_of_some {v4 : Ipv4Addr} (h : a.toIpv4Mapped = some v4) : Mapped p a ↔ p v4 := by
  constructor
  · rintro ⟨v4', hv4', hp⟩
    have heq := toIpv4Mapped_eq_some.2 hv4'
    rw [h] at heq
    rwa [Option.some.inj heq]
  · intro hp
    exact ⟨v4, toIpv4Mapped_eq_some.1 h, hp⟩

theorem not_mapped_of_none (h : a.toIpv4Mapped = none) : ¬ Mapped p a := by
  rintro ⟨v4, hv4, -⟩
  rw [toIpv4Mapped_eq_some.2 hv4] at h
  cases h

/-- The two segments that tell mapped addresses from the rest. -/
theorem segments_of_some {v4 : Ipv4Addr} (h : a.toIpv4Mapped = some v4) :
    a.s0 = 0 ∧ a.s5 = 0xffff := by
  rw [toIpv4Mapped_eq_some.1 h]
  exact ⟨rfl, rfl⟩

end Ipv6Addr

end Rust

end CronManager

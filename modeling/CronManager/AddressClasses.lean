import CronManager.Rust.Cidr
import CronManager.Security
import Mathlib.Data.Set.Basic

/-!
# The address classes as blocks

`is_private_or_local` and `is_always_blocked` of `src/security.rs` test octets, flags of
`std::net` and masked segments, and unwrap IPv4-mapped addresses at different places.  Here both
are compared with lists of CIDR blocks:

* `allowlist_opens` : what an allow-list entry opens, the private addresses that are not always
  blocked;
* `isPrivateOrLocal_iff_contract` : the list in the comment of `is_private_or_local`, which also
  names the documentation ranges.
-/

namespace CronManager

open Rust

/-! ### Lists of blocks -/

/-- The loopback, private and shared blocks of IPv4. -/
def localNets : List (Ipv4Addr × ℕ) :=
  [(⟨127, 0, 0, 0⟩, 8), (⟨10, 0, 0, 0⟩, 8), (⟨172, 16, 0, 0⟩, 12), (⟨192, 168, 0, 0⟩, 16),
    (⟨100, 64, 0, 0⟩, 10)]

/-- The link-local and multicast blocks of IPv4. -/
def specialNets : List (Ipv4Addr × ℕ) := [(⟨169, 254, 0, 0⟩, 16), (⟨224, 0, 0, 0⟩, 4)]

/-- The documentation ranges. -/
def documentationNets : List (Ipv4Addr × ℕ) :=
  [(⟨192, 0, 2, 0⟩, 24), (⟨198, 51, 100, 0⟩, 24), (⟨203, 0, 113, 0⟩, 24)]

/-! ### The IPv4 arms -/

variable {a : Ipv4Addr}

theorem inNets_localNets : Ipv4Addr.InNets localNets a ↔
    a.isLoopback = true ∨ a.isPrivate = true ∨
      (a.o0 == 100 && (64 ≤ a.o1 && a.o1 ≤ 127)) = true := by
  rw [Ipv4Addr.isLoopback_iff, Ipv4Addr.isPrivate_iff, Ipv4Addr.isShared_iff]
  simp [Ipv4Addr.InNets, localNets, or_assoc]

theorem inNets_specialNets : Ipv4Addr.InNets specialNets a ↔
    a.isLinkLocal = true ∨ a.isMulticast = true := by
  rw [Ipv4Addr.isLinkLocal_iff, Ipv4Addr.isMulticast_iff]
  simp [Ipv4Addr.InNets, specialNets]

theorem isAlwaysBlockedV4_iff : isAlwaysBlockedV4 a = true ↔
    Ipv4Addr.InNets specialNets a ∨ a = ⟨0, 0, 0, 0⟩ ∨ a = ⟨255, 255, 255, 255⟩ := by
  rw [inNets_specialNets]
  simp only [isAlwaysBlockedV4, Ipv4Addr.isUnspecified, Ipv4Addr.isBroadcast, Bool.or_eq_true,
    beq_iff_eq]
  tauto

theorem isPrivateOrLocalV4_iff : isPrivateOrLocalV4 a = true ↔
    Ipv4Addr.InNets localNets a ∨ isAlwaysBlockedV4 a = true := by
  rw [inNets_localNets]
  simp only [isPrivateOrLocalV4, isAlwaysBlockedV4, Bool.or_eq_true]
  tauto

theorem not_isAlwaysBlockedV4_of_localNets (h : Ipv4Addr.InNets localNets a) :
    isAlwaysBlockedV4 a = false := by
  have hlocal : a.o0 = 127 ∨ a.o0 = 10 ∨ a.o0 = 172 ∨ a.o0 = 192 ∨ a.o0 = 100 := by
    rw [inNets_localNets] at h
    simp only [Ipv4Addr.isLoopback, Ipv4Addr.isPrivate, Bool.or_eq_true, Bool.and_eq_true,
      beq_iff_eq] at h
    tauto
  obtain ⟨o0, o1, o2, o3⟩ := a
  simp only at hlocal
  rcases hlocal with rfl | rfl | rfl | rfl | rfl <;>
    simp [isAlwaysBlockedV4, Ipv4Addr.isLinkLocal, Ipv4Addr.isUnspecified, Ipv4Addr.isMulticast,
      Ipv4Addr.isBroadcast]

theorem not_isPrivateOrLocalV4_of_documentationNets (h : Ipv4Addr.InNets documentationNets a) :
    isPrivateOrLocalV4 a = false := by
  obtain ⟨o0, o1, o2, o3⟩ := a
  simp only [Ipv4Addr.InNets, documentationNets, List.mem_cons, List.not_mem_nil, or_false,
    exists_eq_or_imp, exists_eq_left, Ipv4Addr.inNet_twentyFour] at h
  rcases h with ⟨rfl, rfl, rfl⟩ | ⟨rfl, rfl, rfl⟩ | ⟨rfl, rfl, rfl⟩ <;>
    simp [isPrivateOrLocalV4, Ipv4Addr.isLoopback, Ipv4Addr.isLinkLocal, Ipv4Addr.isPrivate,
      Ipv4Addr.isUnspecified, Ipv4Addr.isMulticast, Ipv4Addr.isBroadcast]

/-! ### The IPv6 arms -/

/-- `::1`. -/
def localhostV6 : Ipv6Addr := ⟨0, 0, 0, 0, 0, 0, 0, 1⟩

/-- `::`. -/
def unspecifiedV6 : Ipv6Addr := ⟨0, 0, 0, 0, 0, 0, 0, 0⟩

/-- `fd00:ec2::254`, the metadata service. -/
def metadataV6 : Ipv6Addr := ⟨0xfd00, 0x0ec2, 0, 0, 0, 0, 0, 0x0254⟩

/-- Multicast, `ff00::/8`. -/
def MulticastV6 : Ipv6Addr → Prop := Ipv6Addr.InNet ⟨0xff00, 0, 0, 0, 0, 0, 0, 0⟩ 8

/-- Link-local, `fe80::/10`. -/
def LinkLocalV6 : Ipv6Addr → Prop := Ipv6Addr.InNet ⟨0xfe80, 0, 0, 0, 0, 0, 0, 0⟩ 10

/-- Unique local, `fc00::/7`. -/
def UniqueLocalV6 : Ipv6Addr → Prop := Ipv6Addr.InNet ⟨0xfc00, 0, 0, 0, 0, 0, 0, 0⟩ 7

variable {b : Ipv6Addr}

theorem multicastV6_iff : MulticastV6 b ↔ b.s0.toNat / 256 = 255 :=
  Ipv6Addr.inNet_of_le_sixteen (by decide)

theorem linkLocalV6_iff : LinkLocalV6 b ↔ b.s0.toNat / 64 = 1018 :=
  Ipv6Addr.inNet_of_le_sixteen (by decide)

theorem uniqueLocalV6_iff : UniqueLocalV6 b ↔ b.s0.toNat / 512 = 126 :=
  Ipv6Addr.inNet_of_le_sixteen (by decide)

theorem not_special_of_some {v4 : Ipv4Addr} (h : b.toIpv4Mapped = some v4) :
    b ≠ unspecifiedV6 ∧ b ≠ localhostV6 ∧ b ≠ metadataV6 ∧ ¬ MulticastV6 b ∧ ¬ LinkLocalV6 b ∧
      ¬ UniqueLocalV6 b := by
  obtain ⟨hs0, hs5⟩ := Ipv6Addr.segments_of_some h
  have hzero : b.s0.toNat = 0 := by rw [hs0]; rfl
  have hne {x : Ipv6Addr} (hx : x.s5 ≠ 0xffff) : b ≠ x := by
    rintro rfl
    exact hx hs5
  rw [multicastV6_iff, linkLocalV6_iff, uniqueLocalV6_iff, hzero]
  exact ⟨hne (by decide), hne (by decide), hne (by decide), by decide, by decide, by decide⟩

theorem isPrivateOrLocal_v6_iff : isPrivateOrLocal (.v6 b) = true ↔
    b = unspecifiedV6 ∨ b = localhostV6 ∨ MulticastV6 b ∨ LinkLocalV6 b ∨ UniqueLocalV6 b ∨
      b.Mapped (fun v4 => isPrivateOrLocalV4 v4 = true) := by
  have hloopback : b.isLoopback = true ↔ b = localhostV6 := beq_iff_eq
  have hunspecified : b.isUnspecified = true ↔ b = unspecifiedV6 := beq_iff_eq
  have hmulticast : b.isMulticast = true ↔ MulticastV6 b := Ipv6Addr.isMulticast_iff
  simp only [isPrivateOrLocal]
  split_ifs with h
  · simp only [Bool.or_eq_true, hloopback, hunspecified, hmulticast] at h
    rcases h with (h | h) | h <;> simp [h]
  · simp only [Bool.or_eq_true, hloopback, hunspecified, hmulticast, not_or] at h
    simp only [h, false_or]
    cases hm : b.toIpv4Mapped with
    | some v4 =>
      simp only [not_special_of_some hm, Ipv6Addr.mapped_of_some hm, false_or]
    | none =>
      -- what is left are the two masks
      simp only [Ipv6Addr.not_mapped_of_none hm, or_false, Bool.or_eq_true,
        Ipv6Addr.linkLocal_iff, Ipv6Addr.uniqueLocal_iff]
      exact Iff.rfl

theorem isAlwaysBlocked_v6_iff : isAlwaysBlocked (.v6 b) = true ↔
    b = unspecifiedV6 ∨ MulticastV6 b ∨ LinkLocalV6 b ∨ b = metadataV6 ∨
      b.Mapped (fun v4 => isAlwaysBlockedV4 v4 = true) := by
  simp only [isAlwaysBlocked]
  cases hm : b.toIpv4Mapped with
  | some v4 =>
    simp only [not_special_of_some hm, Ipv6Addr.mapped_of_some hm, false_or]
  | none =>
    have hunspecified : b.isUnspecified = true ↔ b = unspecifiedV6 := beq_iff_eq
    have hmetadata : b.segments = [0xfd00, 0x0ec2, 0, 0, 0, 0, 0, 0x0254] ↔ b = metadataV6 := by
      obtain ⟨s0, s1, s2, s3, s4, s5, s6, s7⟩ := b
      simp [Ipv6Addr.segments, metadataV6]
    simp only [Ipv6Addr.not_mapped_of_none hm, or_false, Bool.or_eq_true, hunspecified,
      Ipv6Addr.isMulticast_iff, Ipv6Addr.linkLocal_iff, or_assoc]
    rw [beq_iff_eq, hmetadata]
    exact Iff.rfl

/-! ### What an allow-list entry opens -/

/-- The addresses that are refused to every host but the listed ones. -/
def Opened : IpAddr → Prop
  | .v4 a => Ipv4Addr.InNets localNets a
  | .v6 b => b.Mapped (Ipv4Addr.InNets localNets) ∨ b = localhostV6 ∨
      (UniqueLocalV6 b ∧ b ≠ metadataV6)

theorem opened_v4 : (isPrivateOrLocal (.v4 a) = true ∧ isAlwaysBlocked (.v4 a) = false) ↔
    Opened (.v4 a) := by
  show (isPrivateOrLocalV4 a = true ∧ isAlwaysBlockedV4 a = false) ↔ Ipv4Addr.InNets localNets a
  rw [isPrivateOrLocalV4_iff]
  constructor
  · rintro ⟨hlocal | hblocked, hnot⟩
    · exact hlocal
    · rw [hblocked] at hnot
      cases hnot
  · intro h
    exact ⟨.inl h, not_isAlwaysBlockedV4_of_localNets h⟩

theorem not_blocked_of_uniqueLocal (h : UniqueLocalV6 b) :
    b ≠ unspecifiedV6 ∧ ¬ MulticastV6 b ∧ ¬ LinkLocalV6 b := by
  rw [uniqueLocalV6_iff] at h
  rw [multicastV6_iff, linkLocalV6_iff]
  refine ⟨?_, by omega, by omega⟩
  rintro rfl
  exact absurd h (by decide)

theorem opened_v6 : (isPrivateOrLocal (.v6 b) = true ∧ isAlwaysBlocked (.v6 b) = false) ↔
    Opened (.v6 b) := by
  rw [← Bool.not_eq_true, isPrivateOrLocal_v6_iff, isAlwaysBlocked_v6_iff]
  simp only [Opened]
  cases hm : b.toIpv4Mapped with
  | some v4 =>
    simp only [not_special_of_some hm, Ipv6Addr.mapped_of_some hm, false_or, or_false, false_and,
      Bool.not_eq_true]
    exact opened_v4
  | none =>
    simp only [Ipv6Addr.not_mapped_of_none hm, or_false, false_or]
    constructor
    · rintro ⟨rfl | hlocal | hmulti | hlink | hulocal, hnot⟩
      · exact absurd (.inl rfl) hnot
      · exact .inl hlocal
      · exact absurd (.inr (.inl hmulti)) hnot
      · exact absurd (.inr (.inr (.inl hlink))) hnot
      · exact .inr ⟨hulocal, fun hmeta => hnot (.inr (.inr (.inr hmeta)))⟩
    · -- neither `::1` nor a unique local address is in a block that stays refused
      rintro (rfl | ⟨hulocal, hmeta⟩)
      · rw [multicastV6_iff, linkLocalV6_iff]
        exact ⟨.inr (.inl rfl), by decide⟩
      · refine ⟨.inr (.inr (.inr (.inr hulocal))), ?_⟩
        simp only [not_blocked_of_uniqueLocal hulocal, hmeta, or_self, not_false_eq_true]

/-- **What an allow-list entry opens**: the always-blocked addresses are among the private ones,
and the rest of these are the loopback, private, shared and unique local blocks without the
metadata service. -/
theorem allowlist_opens :
    {ip | isAlwaysBlocked ip = true} ⊆ {ip | isPrivateOrLocal ip = true} ∧
      {ip | isPrivateOrLocal ip = true ∧ isAlwaysBlocked ip = false} = {ip | Opened ip} := by
  constructor
  · intro ip h
    exact isPrivateOrLocal_of_isAlwaysBlocked h
  · ext ip
    cases ip with
    | v4 a => exact opened_v4
    | v6 b => exact opened_v6

/-! ### The ranges the comment lists -/

/-- The IPv4 ranges of the contract. -/
def ContractV4 (a : Ipv4Addr) : Prop :=
  Ipv4Addr.InNets localNets a ∨ Ipv4Addr.InNets specialNets a ∨
    Ipv4Addr.InNets documentationNets a ∨ a = ⟨0, 0, 0, 0⟩ ∨ a = ⟨255, 255, 255, 255⟩

/-- The contract of `is_private_or_local`. -/
def Contract : IpAddr → Prop
  | .v4 a => ContractV4 a
  | .v6 b => b = unspecifiedV6 ∨ b = localhostV6 ∨ MulticastV6 b ∨ LinkLocalV6 b ∨
      UniqueLocalV6 b ∨ b.Mapped ContractV4

/-- A documentation address, or the mapped form of one. -/
def Documentation : IpAddr → Prop
  | .v4 a => Ipv4Addr.InNets documentationNets a
  | .v6 b => b.Mapped (Ipv4Addr.InNets documentationNets)

theorem contractV4_iff : ContractV4 a ↔
    isPrivateOrLocalV4 a = true ∨ Ipv4Addr.InNets documentationNets a := by
  rw [isPrivateOrLocalV4_iff, isAlwaysBlockedV4_iff, ContractV4]
  tauto

/-- **`is_private_or_local` keeps its contract outside the documentation ranges, and only
there.** -/
theorem isPrivateOrLocal_iff_contract (ip : IpAddr) :
    (isPrivateOrLocal ip = true ↔ Contract ip) ↔ ¬ Documentation ip := by
  have hv4 (a : Ipv4Addr) : (isPrivateOrLocalV4 a = true ↔ ContractV4 a) ↔
      ¬ Ipv4Addr.InNets documentationNets a := by
    rw [contractV4_iff]
    have hdisjoint := @not_isPrivateOrLocalV4_of_documentationNets a
    rw [← Bool.not_eq_true] at hdisjoint
    tauto
  cases ip with
  | v4 a => exact hv4 a
  | v6 b =>
    simp only [isPrivateOrLocal_v6_iff, Contract, Documentation]
    cases hm : b.toIpv4Mapped with
    | some v4 =>
      simp only [not_special_of_some hm, Ipv6Addr.mapped_of_some hm, false_or]
      exact hv4 v4
    | none => simp only [Ipv6Addr.not_mapped_of_none hm, not_false_eq_true]

/-- 192.0.2.1 is a documentation address that passes for a public one. -/
theorem isPrivateOrLocal_documentation :
    isPrivateOrLocal (.v4 ⟨192, 0, 2, 1⟩) = false ∧ Contract (.v4 ⟨192, 0, 2, 1⟩) := by
  refine ⟨by decide, .inr (.inr (.inl ⟨(⟨192, 0, 2, 0⟩, 24), List.mem_cons_self, ?_⟩))⟩
  show Ipv4Addr.InNet ⟨192, 0, 2, 0⟩ 24 ⟨192, 0, 2, 1⟩
  decide

end CronManager

import CronManager.Rust.Net

/-!
# Security helpers

The pure helpers of `src/security.rs`: the dangerous-environment blacklist, the two address
classes of the SSRF pre-flight, the normalisation of allow-listed hosts and the log sanitiser.

`isPrivateOrLocal_of_isAlwaysBlocked` is the fact the pre-flight relies on: what stays refused
for an allow-listed host is refused for every host.
-/

namespace CronManager

open Rust

/-! ### Environment overrides -/

/-- `DANGEROUS_ENVS`. -/
def dangerousEnvs : List String :=
  ["PATH", "LD_PRELOAD", "LD_LIBRARY_PATH", "LD_AUDIT", "DYLD_INSERT_LIBRARIES",
    "DYLD_LIBRARY_PATH", "DYLD_FALLBACK_LIBRARY_PATH", "PYTHONPATH", "PYTHONHOME",
    "PYTHONSTARTUP", "NODE_OPTIONS", "NODE_PATH", "RUBYOPT", "RUBYLIB", "PERL5OPT", "PERL5LIB",
    "JAVA_TOOL_OPTIONS", "_JAVA_OPTIONS", "MallocPreloadClass"]

/-- `is_dangerous_env`: on the list, or with one of the two loader prefixes, in any case. -/
def isDangerousEnv (key : String) : Bool :=
  let upper := toAsciiUppercase key.toList
  dangerousEnvs.any (fun d => eqIgnoreAsciiCase d.toList upper) ||
    "LD_".toList.isPrefixOf upper || "DYLD_".toList.isPrefixOf upper

theorem isDangerousEnv_of_eqIgnoreAsciiCase {key key' : String}
    (h : eqIgnoreAsciiCase key.toList key'.toList = true) :
    isDangerousEnv key = isDangerousEnv key' := by
  simp only [isDangerousEnv, toAsciiUppercase_of_eqIgnoreAsciiCase h]

/-! ### Address classes -/

/-- The IPv4 arm of `is_private_or_local`. -/
def isPrivateOrLocalV4 (a : Ipv4Addr) : Bool :=
  a.isLoopback || a.isLinkLocal || a.isPrivate || a.isUnspecified ||
    -- carrier-grade NAT, RFC 6598
    (a.o0 == 100 && (64 ≤ a.o1 && a.o1 ≤ 127)) || a.isMulticast || a.isBroadcast

/-- `is_private_or_local`. -/
def isPrivateOrLocal : IpAddr → Bool
  | .v4 a => isPrivateOrLocalV4 a
  | .v6 a =>
    if a.isLoopback || a.isUnspecified || a.isMulticast then true
    else match a.toIpv4Mapped with
      | some v4 => isPrivateOrLocalV4 v4
      | none => a.s0 &&& 0xffc0 == 0xfe80 || a.s0 &&& 0xfe00 == 0xfc00

/-- The IPv4 arm of `is_always_blocked`. -/
def isAlwaysBlockedV4 (a : Ipv4Addr) : Bool :=
  a.isLinkLocal || a.isUnspecified || a.isMulticast || a.isBroadcast

/-- `is_always_blocked`: refused even for an allow-listed host. -/
def isAlwaysBlocked : IpAddr → Bool
  | .v4 a => isAlwaysBlockedV4 a
  | .v6 a => match a.toIpv4Mapped with
    | some v4 => isAlwaysBlockedV4 v4
    | none => a.isUnspecified || a.isMulticast || a.s0 &&& 0xffc0 == 0xfe80 ||
        a.segments == [0xfd00, 0x0ec2, 0, 0, 0, 0, 0, 0x0254]

theorem isPrivateOrLocalV4_of_isAlwaysBlockedV4 {a : Ipv4Addr}
    (h : isAlwaysBlockedV4 a = true) : isPrivateOrLocalV4 a = true := by
  simp only [isAlwaysBlockedV4, Bool.or_eq_true] at h
  simp only [isPrivateOrLocalV4, Bool.or_eq_true]
  tauto

/-- **The always-blocked addresses are private or local.** -/
theorem isPrivateOrLocal_of_isAlwaysBlocked {ip : IpAddr} (h : isAlwaysBlocked ip = true) :
    isPrivateOrLocal ip = true := by
  cases ip with
  | v4 a => exact isPrivateOrLocalV4_of_isAlwaysBlockedV4 h
  | v6 a =>
    simp only [isAlwaysBlocked] at h
    simp only [isPrivateOrLocal]
    split_ifs with hspecial
    · rfl
    · cases hm : a.toIpv4Mapped with
      | some v4 =>
        rw [hm] at h
        exact isPrivateOrLocalV4_of_isAlwaysBlockedV4 h
      | none =>
        rw [hm] at h
        simp only [Bool.or_eq_true, not_or] at hspecial h
        rcases h with ((h | h) | h) | h
        · exact absurd h hspecial.1.2
        · exact absurd h hspecial.2
        · simp only [h, Bool.true_or]
        · -- the IPv6 metadata address is a unique local address
          simp only [Ipv6Addr.segments, beq_iff_eq, List.cons.injEq] at h
          rw [h.1]
          decide

/-! ### Allow-listed hosts -/

/-- `normalize_allowed_host`. -/
def normalizeAllowedHost (entry : String) : Option String :=
  let host := toAsciiLowercase (trimEndMatches (· == '.') (trim entry.toList))
  if host.isEmpty || (parseIpAddr host).isSome then none
  else if host.all fun c => isAsciiAlphanumeric c || c == '-' || c == '.' || c == '_' then
    some (String.ofList host)
  else none

/-! ### Log text -/

/-- `format!("\\u{:04x}", n)`. -/
def unicodeEscape (n : ℕ) : List Char :=
  let ds := Nat.toDigits 16 n
  '\\' :: 'u' :: (List.replicate (4 - ds.length) '0' ++ ds)

/-- What the sanitisers emit for one character. -/
def escapeChar (c : Char) : List Char :=
  if c = '\r' then ['\\', 'r']
  else if c = '\n' then ['\\', 'n']
  else if c = '\t' then ['\t']
  else if c.toNat < 0x20 || c.toNat == 0x7f then unicodeEscape c.toNat
  else [c]

/-- The loop of `sanitize_for_log`, `written` bytes into the output. -/
def sanitizeForLogFrom : ℕ → List Char → List Char
  | _, [] => []
  | written, c :: s =>
    if 4096 < written + 6 then "…[truncated]".toList
    else escapeChar c ++ sanitizeForLogFrom (written + byteLen (escapeChar c)) s

/-- `sanitize_for_log`. -/
def sanitizeForLog (s : List Char) : List Char := sanitizeForLogFrom 0 s

end CronManager

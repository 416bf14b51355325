import CronManager.Config
import CronManager.Executor.Ssrf

/-!
# The verdict of the pre-flight

For a job that the loader has accepted, the SSRF pre-flight of the executor that a configuration
builds is decided by the host, the allow-list of the configuration and the answer of the lookup
alone.  IPv4 literals pass without a lookup and were screened by the loader; IPv6 literals and
domains are looked up.
-/

namespace CronManager

open Rust

/-- The host without trailing dots is, in any case, a normalised entry of
`security.allowed_private_hosts`. -/
def SecurityConfig.Lists (sec : SecurityConfig) (host : String) : Prop :=
  ∃ entry ∈ sec.allowedPrivateHosts, ∃ name, normalizeAllowedHost entry = some name ∧
    eqIgnoreAsciiCase name.toList (trimEndMatches (· == '.') host.toList) = true

variable {c : Crates} {env env' : ProcEnv} {policy : LoadPolicy} {root : OsStr} {cfg : AppConfig}
  {method url : String} {headers : List HttpHeader} {u : Url} {host : Host}

theorem isAllowlisted_bundle (name : String) :
    isAllowlisted name (cfg.bundle env').http.allowedPrivateHosts = true ↔
      cfg.security.Lists name := by
  show isAllowlisted name (cfg.security.allowedPrivateHosts.filterMap normalizeAllowedHost) = true
    ↔ _
  simp only [isAllowlisted, List.any_eq_true, List.mem_filterMap, SecurityConfig.Lists]
  constructor
  · rintro ⟨norm, ⟨entry, hentry, hnorm⟩, heq⟩
    exact ⟨entry, hentry, norm, hnorm, heq⟩
  · rintro ⟨entry, hentry, norm, hnorm, heq⟩
    exact ⟨norm, ⟨entry, hentry, hnorm⟩, heq⟩

theorem preflight_bundle (hcfg : cfg.security.blockPrivateNetworks = true)
    (lookup : String → Except String (List IpAddr)) :
    (cfg.bundle env').http.preflight c url lookup =
      (cfg.bundle env').http.rejectPrivateDns c url lookup := by
  rw [HttpExecutor.preflight]
  exact if_pos hcfg

theorem rejectPrivateDns_of_lookup {x : HttpExecutor} (hu : c.urlParse url = .ok u)
    (hhost : u.host = some host) {lookup : String → Except String (List IpAddr)}
    {addrs : List IpAddr} (hlookup : lookup (lookupTarget u host.text) = .ok addrs) :
    x.rejectPrivateDns c url lookup = .ok () ↔
      (∃ a, host = .ipv4 a) ∨
        ∀ ip ∈ addrs, ssrfRefuses ip (isAllowlisted host.text x.allowedPrivateHosts) = false := by
  have hiff := @rejectPrivateDns_eq_ok c x url ⟨lookup, fun _ => [], fun _ => none, .timeout⟩ u
    host hu hhost
  rw [hiff]
  refine or_congr_right ?_
  constructor
  · rintro ⟨addrs', haddrs', hpublic⟩
    obtain rfl := Except.ok.inj (hlookup.symm.trans haddrs')
    exact listsRefused_eq_false.1 hpublic
  · intro hpublic
    exact ⟨addrs, hlookup, listsRefused_eq_false.2 hpublic⟩

/-- **The verdict of the pre-flight**, with `block_private_networks` on for the loader and the
executor: for every accepted HTTP job and every successful lookup the fire gets past it if and
only if the host is an IPv4 literal or no address is refused, where a host counts as allow-listed
exactly when the configuration lists it.  The IPv4 literals are public. -/
theorem preflight_verdict {tree : Option FsNode} {jobs : List LoadedJob} {job : LoadedJob}
    (hload : loadAllWithPolicy c env policy root tree = .ok jobs) (hjob : job ∈ jobs)
    (hkind : job.spec.kind = .http method url headers)
    (hpolicy : policy.blockPrivateNetworks = true)
    (hcfg : cfg.security.blockPrivateNetworks = true) :
    ∃ u host, c.urlParse url = .ok u ∧ u.host = some host ∧
      (∀ (lookup : String → Except String (List IpAddr)) (addrs : List IpAddr),
        lookup (lookupTarget u host.text) = .ok addrs →
        (cfg.bundle env').http.preflight c url lookup =
            (cfg.bundle env').http.rejectPrivateDns c url lookup ∧
          ((cfg.bundle env').http.rejectPrivateDns c url lookup = .ok () ↔
            (∃ a, host = .ipv4 a) ∨
              ∀ ip ∈ addrs, ssrfRefuses ip
                (isAllowlisted host.text (cfg.bundle env').http.allowedPrivateHosts) = false)) ∧
      (isAllowlisted host.text (cfg.bundle env').http.allowedPrivateHosts = true ↔
        cfg.security.Lists host.text) ∧
      ∀ a, host = .ipv4 a → isPrivateOrLocal (.v4 a) = false := by
  obtain ⟨u, host, hu, hhost, hliteral⟩ := mem_loadAll_http hload hjob hkind hpolicy
  refine ⟨u, host, hu, hhost, fun lookup addrs hlookup => ?_, isAllowlisted_bundle _, ?_⟩
  · exact ⟨preflight_bundle hcfg lookup, rejectPrivateDns_of_lookup hu hhost hlookup⟩
  · rintro a rfl
    exact hliteral (.v4 a) rfl

/-- The defaults with one allow-listed host. -/
def listedConfig : AppConfig :=
  { AppConfig.default with
    security := { SecurityConfig.default with allowedPrivateHosts := [" Rebind.Example. "] } }

/-- A listed host may resolve to a private address. -/
theorem preflight_verdict_listed :
    pingLoad = .ok [pingJob] ∧ listedConfig.security.Lists "rebind.example" ∧
      (listedConfig.bundle fun _ => none).http.rejectPrivateDns pingCrates
        "http://rebind.example/" (fun _ => .ok [.v4 ⟨10, 0, 0, 7⟩]) = .ok () := by
  have hload : pingLoad = .ok [pingJob] := by decide +kernel
  obtain ⟨u, host, hu, hhost, hverdict, hlisted, -⟩ :=
    @preflight_verdict pingCrates _ (fun _ => none) _ _ listedConfig _ _ _ _ _ _ hload
      (List.mem_singleton_self _) rfl rfl rfl
  obtain rfl := Except.ok.inj hu
  cases hhost
  obtain ⟨-, hiff⟩ := hverdict (fun _ => .ok [.v4 ⟨10, 0, 0, 7⟩]) _ rfl
  exact ⟨hload, hlisted.1 (by decide), hiff.2 (.inr (by decide))⟩

end CronManager

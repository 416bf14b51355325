import CronManager.Dsl.Loader
import CronManager.Executor.Http

/-!
# Where an HTTP job connects

With `security.block_private_networks` the guard against private targets has three parts: the
loader refuses the literals of private addresses, the executor looks the host up before it sends
and refuses the fire if an answer is private, and then the client resolves the host itself.  The
two lookups are separate, so the resolver may give the second one another answer.

* `mem_loadAll_http` : what holds of the URL of every HTTP job that the loader accepts;
* `prepare_eq_ok` and `rejectPrivateDns_eq_ok` : when a request is sent;
* `connects_safely_iff` : the exact condition under which no refused address can be reached;
* `rebound_to_loopback` : a domain whose second answer is `127.0.0.1`.
-/

namespace CronManager

open Rust

variable {c : Crates} {env : ProcEnv} {policy : LoadPolicy} {root : OsStr} {x : HttpExecutor}
  {method url : String} {headers : List HttpHeader} {w : HttpWorld} {u : Url} {host : Host}

/-! ### Accepted jobs -/

theorem mem_jobs_intoSpec {f : DslFile} {job : LoadedJob} (h : job ∈ f.jobs c env policy root) :
    ∃ (raw : RawJob) (key : JobKey),
      raw.intoSpec c env policy (f.path root) key = .ok job.spec := by
  obtain ⟨entries, -, hentries⟩ := @jobs_entries c env policy root f
  obtain ⟨i, hi, rfl⟩ := List.getElem_of_mem h
  have hi' : i < entries.length := hentries.length_eq ▸ hi
  exact ⟨_, _, hentries.get hi' hi⟩

theorem mem_loadAll_http {tree : Option FsNode} {jobs : List LoadedJob} {job : LoadedJob}
    (hload : loadAllWithPolicy c env policy root tree = .ok jobs) (hjob : job ∈ jobs)
    (hkind : job.spec.kind = .http method url headers)
    (hblock : policy.blockPrivateNetworks = true) :
    ∃ u host, c.urlParse url = .ok u ∧ u.host = some host ∧
      ∀ ip, host.literal = some ip → isPrivateOrLocal ip = false := by
  obtain ⟨f, -, hf⟩ := mem_loadAll hload hjob
  obtain ⟨raw, key, hspec⟩ := mem_jobs_intoSpec hf
  obtain ⟨-, hurl, -⟩ := intoSpec_http hspec hkind
  obtain ⟨u, host, hu, -, hhost, hliteral⟩ := validateHttpUrl_ok hurl
  exact ⟨u, host, hu, hhost, hliteral hblock⟩

/-! ### When a request is sent -/

/-- An address list with an address that the pre-flight refuses for this host. -/
def HttpExecutor.listsRefused (x : HttpExecutor) (host : String) (addrs : List IpAddr) : Bool :=
  addrs.any fun ip => ssrfRefuses ip (isAllowlisted host x.allowedPrivateHosts)

theorem prepare_ok_iff {req : HttpRequest} :
    x.prepare c method url headers w = .ok req ↔
      ∃ m hs, c.methodFromBytes method = some m ∧ x.preflight c url w.lookup = .ok () ∧
        resolveHeaders c w.env headers = .ok hs ∧
        req = ⟨m, url, hs, connectTargets w.clientLookup (match c.urlParse url with
          | .ok u => u.host
          | .error _ => none)⟩ := by
  unfold HttpExecutor.prepare HttpExecutor.prepareAs
  cases c.methodFromBytes method with
  | none => simp
  | some m =>
    cases x.preflight c url w.lookup with
    | error e => simp
    | ok _ =>
      cases resolveHeaders c w.env headers with
      | error e => simp
      | ok hs =>
        cases c.urlParse url with
        | error e => simp [eq_comm]
        | ok u => simp [eq_comm]

theorem prepare_eq_ok {req : HttpRequest} (hu : c.urlParse url = .ok u) :
    x.prepare c method url headers w = .ok req ↔
      ∃ m hs, c.methodFromBytes method = some m ∧ x.preflight c url w.lookup = .ok () ∧
        resolveHeaders c w.env headers = .ok hs ∧
        req = ⟨m, url, hs, connectTargets w.clientLookup u.host⟩ := by
  rw [prepare_ok_iff, hu]

/-- Only the text of an IPv4 literal reads back as an address: that of an IPv6 literal is
bracketed. -/
theorem parseIpAddr_text (host : Host) :
    (parseIpAddr host.text.toList).isSome = true ↔ ∃ a, host = .ipv4 a := by
  cases host with
  | domain d => simp [Host.text, d.notIp]
  | ipv4 a => simp [Host.text, parseIpAddr_display]
  | ipv6 a => simp [Host.text, parseIpAddr_bracket]

/-- The pre-flight passes for an IPv4 literal without a lookup, and for every other host when the
lookup succeeds and lists no refused address. -/
theorem rejectPrivateDns_eq_ok (hu : c.urlParse url = .ok u) (hhost : u.host = some host) :
    x.rejectPrivateDns c url w.lookup = .ok () ↔
      (∃ a, host = .ipv4 a) ∨ ∃ addrs, w.lookup (lookupTarget u host.text) = .ok addrs ∧
        x.listsRefused host.text addrs = false := by
  have hstr : u.hostStr = some host.text := by rw [Url.hostStr, hhost]; rfl
  unfold HttpExecutor.rejectPrivateDns
  simp only [hu, hstr, HttpExecutor.rejectHost]
  by_cases hv4 : (parseIpAddr host.text.toList).isSome = true
  · rw [if_pos hv4]
    exact iff_of_true rfl (.inl ((parseIpAddr_text host).1 hv4))
  · rw [if_neg hv4, or_iff_right (mt (parseIpAddr_text host).2 hv4)]
    cases w.lookup (lookupTarget u host.text) with
    | error e => simp
    | ok addrs =>
      simp only [HttpExecutor.listsRefused]
      cases hfind : addrs.find? fun ip =>
          ssrfRefuses ip (isAllowlisted host.text x.allowedPrivateHosts) with
      | none =>
        have hnone := List.find?_eq_none.1 hfind
        simpa using hnone
      | some ip =>
        have hrefused := List.find?_some hfind
        simpa using ⟨ip, List.mem_of_find?_eq_some hfind, hrefused⟩

/-! ### The exact condition -/

/-- The request is stopped before `send()`, or nothing that the client may connect to is refused:
the host is an IP literal, the method or a header is refused, the pre-flight's lookup fails or
lists a refused address, or the client's own lookup lists none. -/
def HttpExecutor.ConnectsSafely (c : Crates) (x : HttpExecutor) (method : String)
    (headers : List HttpHeader) (w : HttpWorld) (u : Url) (host : Host) : Prop :=
  host.literal.isSome ∨ c.methodFromBytes method = none ∨
    (∀ hs, resolveHeaders c w.env headers ≠ .ok hs) ∨
    (∀ addrs, w.lookup (lookupTarget u host.text) = .ok addrs →
      x.listsRefused host.text addrs = true) ∨
    x.listsRefused host.text (w.clientLookup host.text) = false

theorem ssrfRefuses_of_public {ip : IpAddr} (h : isPrivateOrLocal ip = false) (listed : Bool) :
    ssrfRefuses ip listed = false := by
  cases listed with
  | false => exact h
  | true =>
    by_contra hblocked
    have := isPrivateOrLocal_of_isAlwaysBlocked (Bool.not_eq_false _ ▸ hblocked)
    rw [h] at this
    cases this

theorem sent_eq_some {req : HttpRequest} :
    (x.execute c method url headers w).sent = some req ↔
      x.prepare c method url headers w = .ok req := by
  unfold HttpExecutor.execute
  cases x.prepare c method url headers w with
  | error e => simp
  | ok req' => simp

theorem listsRefused_eq_false {name : String} {addrs : List IpAddr} :
    x.listsRefused name addrs = false ↔
      ∀ ip ∈ addrs, ssrfRefuses ip (isAllowlisted name x.allowedPrivateHosts) = false := by
  simp [HttpExecutor.listsRefused]

theorem targets_literal {ip ip' : IpAddr} {req : HttpRequest} (hu : c.urlParse url = .ok u)
    (hhost : u.host = some host) (hlit : host.literal = some ip)
    (hsent : (x.execute c method url headers w).sent = some req) (hip : ip' ∈ req.targets) :
    ip' = ip := by
  obtain ⟨m, hs, -, -, -, rfl⟩ := (prepare_eq_ok hu).1 (sent_eq_some.1 hsent)
  rw [hhost] at hip
  cases host with
  | domain d => cases hlit
  | ipv4 a =>
    cases hlit
    exact List.mem_singleton.1 hip
  | ipv6 a =>
    cases hlit
    exact List.mem_singleton.1 hip

/-- A fire at a domain: the pre-flight and the client look it up separately. -/
theorem connects_domain {d : DomainName} (hu : c.urlParse url = .ok u)
    (hhost : u.host = some (.domain d)) (hx : x.blockPrivateNetworks = true) :
    (∀ req, (x.execute c method url headers w).sent = some req → ∀ ip ∈ req.targets,
        ssrfRefuses ip (isAllowlisted d.text x.allowedPrivateHosts) = false) ↔
      x.ConnectsSafely c method headers w u (.domain d) := by
  have hpre : x.preflight c url w.lookup = .ok () ↔
      ∃ addrs, w.lookup (lookupTarget u d.text) = .ok addrs ∧
        x.listsRefused d.text addrs = false := by
    unfold HttpExecutor.preflight
    rw [if_pos hx, rejectPrivateDns_eq_ok hu hhost]
    simp [Host.text]
  constructor
  · intro h
    by_contra hunsafe
    simp only [HttpExecutor.ConnectsSafely, Host.literal, Host.text, not_or, not_forall,
      Bool.not_eq_true, Bool.not_eq_false] at hunsafe
    obtain ⟨-, hm, ⟨hs, hheaders⟩, ⟨addrs, hlookup, hpublic⟩, hclient⟩ := hunsafe
    obtain ⟨m, hm⟩ := Option.ne_none_iff_exists'.1 hm
    have hsent := sent_eq_some.2 ((prepare_eq_ok (x := x) (w := w) hu).2
      ⟨m, hs, hm, hpre.2 ⟨addrs, hlookup, hpublic⟩, not_not.1 hheaders, rfl⟩)
    -- the request is sent, and the client connects to what its own lookup lists
    have hall := h _ hsent
    simp only [hhost, connectTargets] at hall
    rw [listsRefused_eq_false.2 hall] at hclient
    cases hclient
  · intro h req hsent ip hip
    obtain ⟨m, hs, hm, hok, hheaders, rfl⟩ := (prepare_eq_ok hu).1 (sent_eq_some.1 hsent)
    obtain ⟨addrs, hlookup, hpublic⟩ := hpre.1 hok
    simp only [hhost, connectTargets] at hip
    rcases h with hlit | hnone | hno | hrefused | hclient
    · cases hlit
    · rw [hm] at hnone
      cases hnone
    · exact absurd hheaders (hno hs)
    · have := hrefused addrs hlookup
      simp only [Host.text, hpublic, Bool.false_eq_true] at this
    · exact listsRefused_eq_false.1 hclient ip hip

/-- **Where an HTTP job connects.**  For every HTTP job that the loader accepts and every
behaviour of the outside world, no address that the client may connect to is a refused one, if
and only if the fire `ConnectsSafely`. -/
theorem connects_safely_iff {tree : Option FsNode} {jobs : List LoadedJob} {job : LoadedJob}
    (hload : loadAllWithPolicy c env policy root tree = .ok jobs) (hjob : job ∈ jobs)
    (hkind : job.spec.kind = .http method url headers)
    (hpolicy : policy.blockPrivateNetworks = true) (hx : x.blockPrivateNetworks = true) :
    ∃ u host, c.urlParse url = .ok u ∧ u.host = some host ∧
      ((∀ req, (x.execute c method url headers w).sent = some req → ∀ ip ∈ req.targets,
          ssrfRefuses ip (isAllowlisted host.text x.allowedPrivateHosts) = false) ↔
        x.ConnectsSafely c method headers w u host) := by
  obtain ⟨u, host, hu, hhost, hliteral⟩ := mem_loadAll_http hload hjob hkind hpolicy
  refine ⟨u, host, hu, hhost, ?_⟩
  cases hlit : host.literal with
  | some ip =>
    have hsafe : x.ConnectsSafely c method headers w u host := .inl (by rw [hlit]; rfl)
    refine iff_of_true (fun req hsent ip' hip' => ?_) hsafe
    rw [targets_literal hu hhost hlit hsent hip']
    exact ssrfRefuses_of_public (hliteral ip hlit) _
  | none =>
    cases host with
    | domain d => exact connects_domain hu hhost hx
    | ipv4 a => cases hlit
    | ipv6 a => cases hlit

/-! ### A domain that is rebound -/

/-- The host of the job below. -/
def pingHost : DomainName := ⟨"rebind.example", by decide⟩

/-- A file with one manual HTTP job. -/
def pingBody : String :=
  "ping:\n  trigger: off\n  type: http\n  method: GET\n  url: http://rebind.example/\n"

/-- That job as the YAML parser returns it. -/
def pingRaw : RawJob where
  trigger := .str "off"
  ty := "http"
  startDate := none
  endDate := none
  retryCount := none
  retryDelayMs := none
  ignoreFailures := none
  method := some "GET"
  url := some "http://rebind.example/"
  headers := none
  headerEnvs := none
  command := none
  allowedEnvs := none

/-- The crates on what this job uses. -/
def pingCrates : Crates where
  __ := noCrates
  yamlFromStr body := if body = pingBody then .ok (.singleton "ping" pingRaw) else .error "unused"
  urlParse url :=
    if url = "http://rebind.example/" then .ok ⟨"http", some (.domain pingHost), none⟩
    else .error "unused"
  methodFromBytes method := if method = "GET" then some "GET" else none

/-- Load the directory that holds this one file, with `block_private_networks` on. -/
def pingLoad : Except CronManagerError (List LoadedJob) :=
  loadAllWithPolicy pingCrates (fun _ => none)
    { LoadPolicy.permissive with blockPrivateNetworks := true } (bytes "DSL".toList)
    (some (.dir (bytes "DSL".toList) none
      [.file (bytes "probe.yaml".toList) (.ok pingBody.utf8ByteSize) (.ok pingBody)]))

/-- The loaded job. -/
def pingJob : LoadedJob :=
  ⟨⟨⟨"probe", "ping"⟩, .manual, ⟨none, none⟩, .default,
    .http "GET" "http://rebind.example/" []⟩, "DSL/probe.yaml"⟩

/-- The executor with `block_private_networks` on and nothing allow-listed. -/
def pingExecutor : HttpExecutor := ⟨1048576, 30, true, []⟩

/-- The pre-flight's lookup answers `8.8.8.8`, the client's lookup answers `second`. -/
def pingWorld (second : Ipv4Addr) : HttpWorld where
  lookup _ := .ok [.v4 ⟨8, 8, 8, 8⟩]
  clientLookup _ := [.v4 second]
  env _ := none
  send := .response 200 ⟨[], none⟩

theorem connects_safely_ping :
    pingLoad = .ok [pingJob] ∧ ∀ req,
      (pingExecutor.execute pingCrates "GET" "http://rebind.example/" []
        (pingWorld ⟨8, 8, 8, 8⟩)).sent = some req →
      ∀ ip ∈ req.targets, ssrfRefuses ip (isAllowlisted "rebind.example" []) = false := by
  have hload : pingLoad = .ok [pingJob] := by decide +kernel
  obtain ⟨u, host, hu, hhost, hiff⟩ := connects_safely_iff (x := pingExecutor)
    (w := pingWorld ⟨8, 8, 8, 8⟩) hload (List.mem_singleton_self _) rfl rfl rfl
  have hu' : u = ⟨"http", some (.domain pingHost), none⟩ := (Except.ok.inj hu).symm
  subst hu'
  cases hhost
  exact ⟨hload, hiff.2 (.inr (.inr (.inr (.inr (by decide)))))⟩

/-- The pre-flight sees `8.8.8.8`, and the client connects to `127.0.0.1`. -/
theorem rebound_to_loopback :
    pingLoad = .ok [pingJob] ∧
      ((pingExecutor.execute pingCrates "GET" "http://rebind.example/" []
        (pingWorld ⟨127, 0, 0, 1⟩)).sent.map (·.targets)) = some [.v4 ⟨127, 0, 0, 1⟩] ∧
      ssrfRefuses (.v4 ⟨127, 0, 0, 1⟩) (isAllowlisted "rebind.example" []) = true := by
  refine ⟨by decide +kernel, by decide, by decide⟩

end CronManager

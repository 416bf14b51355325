import CronManager.Dsl.Raw
import CronManager.EnvSafety
import CronManager.Error
import CronManager.Rust.Result
import CronManager.Security

/-!
# From a YAML job to a validated job

`RawJob::into_spec` of `src/dsl/loader.rs` with everything it calls: the trigger, the cron check,
the retry cap, the HTTP method, the URL and the headers, the command.  `source` is the text of
the file's path as it stands in the errors.

`intoSpec_http` says what the loader has checked of an HTTP job that it accepts.
-/

namespace CronManager

open Rust

/-- Per-load hardening knobs. -/
structure LoadPolicy where
  maxFileBytes : ℕ
  maxRetryCount : UInt32
  minCronIntervalSecs : ℤ
  blockPrivateNetworks : Bool
  devFixtureAction : DevFixtureAction
  deriving DecidableEq, Repr

/-- `LoadPolicy::permissive`. -/
def LoadPolicy.permissive : LoadPolicy where
  maxFileBytes := 8 * 1024 * 1024
  maxRetryCount := 0xffffffff
  minCronIntervalSecs := 0
  blockPrivateNetworks := false
  devFixtureAction := .ignore

/-- The errors of a job: its name and what is wrong. -/
def badJob (source : String) (key : JobKey) (reason : String) : CronManagerError :=
  let name := key.name
  .invalidJobDefinition source s!"job '{name}' {reason}"

variable (c : Crates) (env : ProcEnv)

/-! ### Trigger -/

/-- `normalise_trigger`. -/
def normaliseTrigger (source : String) : RawTrigger → Except CronManagerError Trigger
  | .bool false => .ok .manual
  | .bool true => .error (.invalidJobDefinition source
      "trigger: true is not a valid schedule; use a cron string or `off`")
  | .str s =>
    if String.ofList (toAsciiLowercase s.toList) ∈ ["off", "false", "no", "disabled"] then
      .ok .manual
    else .ok (.cron s)

/-- The cron check of `into_spec`. -/
def checkCron : Trigger → Except CronManagerError Unit
  | .manual => .ok ()
  | .cron expr => match c.cronFromStr expr with
    | .ok () => .ok ()
    | .error e => .error (.invalidCron expr e)

/-! ### HTTP jobs -/

/-- `KNOWN_METHODS`. -/
def knownMethods : List String := ["GET", "POST", "PUT", "DELETE", "PATCH", "HEAD", "OPTIONS"]

/-- `FORBIDDEN_HEADERS`. -/
def forbiddenHeaders : List String :=
  ["host", "content-length", "transfer-encoding", "connection", "upgrade", "te", "trailer"]

/-- `private_ip_error`. -/
def privateIpError (source : String) (key : JobKey) (ip : List Char) : CronManagerError :=
  let text := String.ofList ip
  badJob source key (s!"url host '{text}' is a non-routable / private IP; set " ++
    "security.block_private_networks=false to allow (danger: SSRF against cloud metadata)")

/-- The literal-address check of `validate_http_url`. -/
def checkLiteralHost (source : String) (key : JobKey) : Host → Except CronManagerError Unit
  | .ipv4 a =>
    if isPrivateOrLocal (.v4 a) then .error (privateIpError source key a.display) else .ok ()
  | .ipv6 a =>
    if isPrivateOrLocal (.v6 a) then .error (privateIpError source key a.display) else .ok ()
  | .domain _ => .ok ()

/-- `validate_http_url`. -/
def validateHttpUrl (policy : LoadPolicy) (source : String) (key : JobKey) (url : String) :
    Except CronManagerError Unit :=
  match c.urlParse url with
  | .error e => .error (badJob source key s!"url '{url}' is not a valid URL: {e}")
  | .ok u =>
    if u.scheme = "http" ∨ u.scheme = "https" then
      match u.host with
      | none => .error (badJob source key s!"url '{url}' has no host component")
      | some host =>
        if policy.blockPrivateNetworks then checkLiteralHost source key host else .ok ()
    else
      let scheme := u.scheme
      .error (badJob source key s!"url uses scheme '{scheme}' — only http and https are allowed")

/-- `check_name` of `build_http_headers`. -/
def checkHeaderName (source : String) (key : JobKey) (name : String) :
    Except CronManagerError String :=
  match c.headerName name with
  | none => .error (badJob source key s!"has invalid header name '{name}'")
  | some parsed =>
    if parsed ∈ forbiddenHeaders then .error (badJob source key s!"may not set header '{name}'")
    else .ok parsed

/-- One entry of `headers:`. -/
def literalHeader (source : String) (key : JobKey) (entry : String × String) :
    Except CronManagerError HttpHeader :=
  match checkHeaderName c source key entry.1 with
  | .error e => .error e
  | .ok name =>
    if c.headerValueOk entry.2 then .ok ⟨name, .literal entry.2⟩
    else .error (badJob source key s!"has invalid value for header '{name}'")

/-- The shape of an environment variable's name. -/
def validEnvName (name : String) : Bool :=
  !name.toList.isEmpty && !(name.toList.head?.any isAsciiDigit) &&
    name.toList.all fun ch => isAsciiAlphanumeric ch || ch == '_'

/-- One entry of `headerEnvs:`, after the headers `out`. -/
def envHeader (source : String) (key : JobKey) (out : List HttpHeader)
    (entry : String × String) : Except CronManagerError HttpHeader :=
  match checkHeaderName c source key entry.1 with
  | .error e => .error e
  | .ok name =>
    let var := entry.2
    if out.any (·.name == name) then
      .error (badJob source key s!"sets header '{name}' in both headers and headerEnvs")
    else if !validEnvName var then
      .error (badJob source key s!"headerEnvs['{name}'] is not a valid env-var name")
    else match env var with
      | some v =>
        if v ≠ "" ∧ c.headerValueOk v = true then .ok ⟨name, .env var⟩
        else .error (badJob source key
          s!"env var '{var}' (header '{name}') is empty or not a valid header value")
      | none => .error (badJob source key
          s!"header '{name}' needs env var '{var}', which is not set")

/-- `build_http_headers`. -/
def buildHttpHeaders (source : String) (key : JobKey)
    (literal envs : BTreeMap String String) : Except CronManagerError (List HttpHeader) :=
  match literal.entries.mapM (literalHeader c source key) with
  | .error e => .error e
  | .ok out => envs.entries.foldlM
    (fun out entry => (envHeader c env source key out entry).map fun h => out ++ [h]) out

/-- The `http` branch of `into_spec`. -/
def RawJob.httpKind (raw : RawJob) (policy : LoadPolicy) (source : String) (key : JobKey) :
    Except CronManagerError JobKind :=
  match raw.method, raw.url with
  | none, _ => .error (badJob source key "has type: http but no method field")
  | some _, none => .error (badJob source key "has type: http but no url field")
  | some method, some url =>
    if String.ofList (toAsciiUppercase method.toList) ∈ knownMethods then
      match validateHttpUrl c policy source key url with
      | .error e => .error e
      | .ok () => (buildHttpHeaders c env source key (raw.headers.getD .empty)
          (raw.headerEnvs.getD .empty)).map fun headers => .http method url headers
    else .error (badJob source key s!"has unknown HTTP method '{method}'")

/-! ### Shell jobs -/

/-- `RawCommand::into_argv`. -/
def RawCommand.intoArgv (source : String) (key : JobKey) (cmd : RawCommand) :
    Except CronManagerError (List String) :=
  let argv := match cmd with
    | .string s => (splitWhitespace s.toList).map String.ofList
    | .list v => v
  match argv with
  -- an empty program name counts as no command
  | [] | "" :: _ => .error (badJob source key
      "has type: exec but the command field is empty; specify at least the program name")
  | argv => .ok argv

/-- The `exec` branch of `into_spec`. -/
def RawJob.execKind (raw : RawJob) (source : String) (key : JobKey) :
    Except CronManagerError JobKind :=
  match raw.command with
  | none => .error (badJob source key "has type: exec but no command field")
  | some cmd => (cmd.intoArgv source key).map fun argv => .exec argv (raw.allowedEnvs.getD [])

/-! ### The whole job -/

/-- The retry policy, within the cap. -/
def RawJob.retryPolicy (raw : RawJob) (policy : LoadPolicy) (source : String) (key : JobKey) :
    Except CronManagerError RetryPolicy :=
  let count := raw.retryCount.getD 0
  if policy.maxRetryCount < count then
    let cap := policy.maxRetryCount.toNat
    let wanted := count.toNat
    .error (badJob source key
      s!"has retryCount {wanted} which exceeds security.max_retry_count cap {cap}")
  else .ok ⟨count, raw.retryDelayMs.getD 1000, raw.ignoreFailures.getD false⟩

/-- The kind of a job, by its type. -/
def RawJob.kindOf (raw : RawJob) (policy : LoadPolicy) (source : String) (key : JobKey) :
    Except CronManagerError JobKind :=
  if raw.ty = "http" then raw.httpKind c env policy source key
  else if raw.ty = "exec" then raw.execKind source key
  else
    let other := raw.ty
    .error (badJob source key s!"has unknown type: '{other}'")

/-- `RawJob::into_spec`. -/
def RawJob.intoSpec (raw : RawJob) (policy : LoadPolicy) (source : String) (key : JobKey) :
    Except CronManagerError JobSpec := do
  let trigger ← normaliseTrigger source raw.trigger
  checkCron c trigger
  let retry ← raw.retryPolicy policy source key
  let kind ← raw.kindOf c env policy source key
  return ⟨key, trigger, ⟨raw.startDate, raw.endDate⟩, retry, kind⟩

/-! ### What the loader has checked -/

variable {c env} {policy : LoadPolicy} {source : String} {key : JobKey}

theorem checkLiteralHost_ok {host : Host} (h : checkLiteralHost source key host = .ok ()) :
    ∀ ip, host.literal = some ip → isPrivateOrLocal ip = false := by
  intro ip hip
  cases host with
  | domain d => cases hip
  | ipv4 a =>
    cases hip
    by_contra hprivate
    simp [checkLiteralHost, hprivate] at h
  | ipv6 a =>
    cases hip
    by_contra hprivate
    simp [checkLiteralHost, hprivate] at h

/-- A URL that passes: it parses, has an `http` or `https` scheme and a host, and with
`block_private_networks` the host is not the literal of a private address. -/
theorem validateHttpUrl_ok {url : String} (h : validateHttpUrl c policy source key url = .ok ()) :
    ∃ u host, c.urlParse url = .ok u ∧ (u.scheme = "http" ∨ u.scheme = "https") ∧
      u.host = some host ∧ (policy.blockPrivateNetworks = true →
        ∀ ip, host.literal = some ip → isPrivateOrLocal ip = false) := by
  unfold validateHttpUrl at h
  split at h
  · cases h
  rename_i u hu
  split at h
  · rename_i hscheme
    split at h
    · cases h
    rename_i host hhost
    refine ⟨u, host, hu, hscheme, hhost, fun hblock => ?_⟩
    rw [if_pos hblock] at h
    exact checkLiteralHost_ok h
  · cases h

theorem intoSpec_ok {raw : RawJob} {spec : JobSpec}
    (h : raw.intoSpec c env policy source key = .ok spec) :
    spec.key = key ∧ normaliseTrigger source raw.trigger = .ok spec.trigger ∧
      checkCron c spec.trigger = .ok () ∧ spec.window = ⟨raw.startDate, raw.endDate⟩ ∧
      raw.retryPolicy policy source key = .ok spec.retry ∧
      raw.kindOf c env policy source key = .ok spec.kind := by
  unfold RawJob.intoSpec at h
  obtain ⟨trigger, htrigger, h⟩ := bind_eq_ok h
  obtain ⟨⟨⟩, hcron, h⟩ := bind_eq_ok h
  obtain ⟨retry, hretry, h⟩ := bind_eq_ok h
  obtain ⟨kind, hkind, h⟩ := bind_eq_ok h
  cases h
  exact ⟨rfl, htrigger, hcron, rfl, hretry, hkind⟩

/-- **What the loader has checked of an HTTP job** that it accepts. -/
theorem intoSpec_http {raw : RawJob} {spec : JobSpec} {method url : String}
    {headers : List HttpHeader} (h : raw.intoSpec c env policy source key = .ok spec)
    (hkind : spec.kind = .http method url headers) :
    String.ofList (toAsciiUppercase method.toList) ∈ knownMethods ∧
      validateHttpUrl c policy source key url = .ok () ∧
      buildHttpHeaders c env source key (raw.headers.getD .empty)
        (raw.headerEnvs.getD .empty) = .ok headers := by
  obtain ⟨-, -, -, -, -, hk⟩ := intoSpec_ok h
  rw [hkind] at hk
  unfold RawJob.kindOf at hk
  split at hk
  · unfold RawJob.httpKind at hk
    split at hk
    · cases hk
    · cases hk
    split at hk
    · rename_i hmethod
      split at hk
      · cases hk
      rename_i hurl
      obtain ⟨hs, hheaders, heq⟩ := map_eq_ok hk
      cases heq
      exact ⟨hmethod, hurl, hheaders⟩
    · cases hk
  · -- a job of another type is not an HTTP job
    split at hk
    · unfold RawJob.execKind at hk
      split at hk
      · cases hk
      · obtain ⟨argv, -, heq⟩ := map_eq_ok hk
        cases heq
    · cases hk

theorem intoArgv_ok {cmd : RawCommand} {argv : List String}
    (h : cmd.intoArgv source key = .ok argv) :
    ∃ program args, argv = program :: args ∧ program ≠ "" := by
  unfold RawCommand.intoArgv at h
  simp only at h
  split at h
  · cases h
  · cases h
  · rename_i hnil hempty
    rw [Except.ok.inj h] at hnil hempty
    cases argv with
    | nil => exact absurd rfl hnil
    | cons program args => exact ⟨program, args, rfl, fun hp => hempty args (by rw [hp])⟩

theorem intoSpec_exec {raw : RawJob} {spec : JobSpec} {argv allowedEnvs : List String}
    (h : raw.intoSpec c env policy source key = .ok spec)
    (hkind : spec.kind = .exec argv allowedEnvs) :
    ∃ cmd, raw.command = some cmd ∧ cmd.intoArgv source key = .ok argv := by
  obtain ⟨-, -, -, -, -, hk⟩ := intoSpec_ok h
  rw [hkind] at hk
  unfold RawJob.kindOf at hk
  split at hk
  · -- a job of type `http` is not a shell job
    unfold RawJob.httpKind at hk
    split at hk
    · cases hk
    · cases hk
    split at hk
    · split at hk
      · cases hk
      · obtain ⟨hs, -, heq⟩ := map_eq_ok hk
        cases heq
    · cases hk
  · split at hk
    · unfold RawJob.execKind at hk
      split at hk
      · cases hk
      rename_i cmd hcmd
      obtain ⟨argv', hargv, heq⟩ := map_eq_ok hk
      cases heq
      exact ⟨cmd, hcmd, hargv⟩
    · cases hk

theorem intoSpec_retry_count {raw : RawJob} {spec : JobSpec}
    (h : raw.intoSpec c env policy source key = .ok spec) :
    spec.retry.count = raw.retryCount.getD 0 ∧
      (raw.retryCount.getD 0).toNat ≤ policy.maxRetryCount.toNat := by
  obtain ⟨-, -, -, -, hretry, -⟩ := intoSpec_ok h
  unfold RawJob.retryPolicy at hretry
  simp only at hretry
  split_ifs at hretry with hcap
  rw [Except.ok.injEq] at hretry
  refine ⟨by rw [← hretry], ?_⟩
  rw [UInt32.lt_iff_toNat_lt] at hcap
  omega

end CronManager

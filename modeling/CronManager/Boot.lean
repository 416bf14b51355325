import CronManager.Router.Handlers

/-!
# Boot

`main` of `src/main.rs`, from a configuration to the point where it serves requests: the boot gates
on credentials and posture, the refusal to listen without an admin token, the database DSN, the
HTTP client, the jobs, the wiring of the tokens into `AppState`, and `build`, which panics on an
origin that `AllowOrigin::list` does not take.  Whether the database answers does not matter: `main`
falls back to a recorder that drops the rows.

* `boot_adminToken` : a server that `main` starts without `admin.trust_network` has a non-empty
  admin token in its state;
* `boot_authorized` : hence no request reaches a state-changing handler without a valid token.
-/

namespace CronManager

open Rust

/-- `refuse_to_start_without_token`. -/
def refuseToStartWithoutToken (cfg : AppConfig) (bind : List Char) (tokenPresent : Bool) :
    Except String Unit :=
  if tokenPresent then .ok ()
  else if cfg.admin.trustNetwork then .ok ()
  else if bindIsLoopback bind then .ok ()
  else
    let address := String.ofList bind
    let var := cfg.admin.bearerTokenEnv
    .error (s!"refusing to start on non-loopback bind {address} without an admin token: set env " ++
      s!"var {var} to enable the /execute + /stop + /reload gate, or set " ++
      "admin.trust_network=true if a reverse proxy / service mesh authenticates every request " ++
      "before it reaches this process")

/-- What the outside world does while `main` boots. -/
structure BootWorld where
  /-- Building the HTTP client. -/
  client : Except String Unit
  load : LoadEnd
  /-- `TcpListener::bind`. -/
  listen : Except String Unit

/-- Why `main` stops before it serves. -/
inductive BootError where
  | refused (message : String)
  | error (e : CronManagerError)
  | listen (message : String)
  | panicked
  deriving DecidableEq, Repr

/-- What `main` serves with. -/
structure Booted where
  state : AppState
  bundle : ExecutorBundle
  environment : Environment
  server : Server

/-- The `AppState` of `main`. -/
def AppConfig.appState (cfg : AppConfig) (env : ProcEnv) : AppState :=
  let st := AppState.new cfg
  let st := match cfg.resolveAdminToken env with
    | some token => st.withAdminToken token
    | none => st
  let tokens := cfg.resolvePerGroupTokens env
  if tokens.isEmpty then st else st.withPerGroupTokens tokens

/-- `build_cors`: the origins of the layer, if there is one; the outer `none` is a panic of
`AllowOrigin::list`. -/
def buildCors (c : Crates) (origins : List String) : Option (Option (List (List UInt8))) :=
  let list := origins.filterMap fun o => headerFromStr o.toList
  if origins.isEmpty ∨ list.isEmpty then some none
  else if c.allowOriginList list then some (some list)
  else none

/-- The verdict of `enforce_creds`. -/
def credGate : Option (Except String Unit) → Except BootError Unit
  | none => .error .panicked
  | some verdict => verdict.mapError .refused

/-- The boot gates of `main`, up to the refusal to listen without a token. -/
def AppConfig.bootGates (cfg : AppConfig) (env : ProcEnv) : Except BootError Unit := do
  let environment := Environment.fromEnv env
  credGate (enforceCreds environment (credChecksFor cfg env))
  (enforcePosture environment (postureChecksFor cfg)).mapError .refused
  (refuseToStartWithoutToken cfg cfg.bind (cfg.resolveAdminToken env).isSome).mapError .refused

/-- `main`, up to `axum::serve`. -/
def boot (c : Crates) (env : ProcEnv) (cfg : AppConfig) (w : BootWorld) :
    Except BootError Booted := do
  cfg.bootGates env
  -- a DSN without its password is an error, an unreachable database is not
  let _ ← (cfg.databaseDsn env).mapError .error
  w.client.mapError fun e => .error (.internal s!"reqwest client build: {e}")
  let environment := Environment.fromEnv env
  let jobs ← (loadAllBounded c env (cfg.security.loadPolicy environment) cfg.dslPath
    cfg.security.dslLoadTimeoutSecs w.load).mapError .error
  let sched := Shared.init.registerAll (jobs.map (·.spec))
  -- of what `build` does, only the CORS layer can stop `main`
  let _ ← (buildCors c cfg.allowedOrigins).elim (.error .panicked) .ok
  w.listen.mapError .listen
  return ⟨cfg.appState env, cfg.bundle env, environment, ⟨sched, ∅⟩⟩

/-! ### Origins -/

/-- `AllowOrigin::list` panics on the wildcard, and on nothing else. -/
def Crates.PanicsOnWildcard (c : Crates) : Prop :=
  ∀ origins, c.allowOriginList origins = true ↔ bytes "*".toList ∉ origins

theorem panicsOnWildcard_noCrates : noCrates.PanicsOnWildcard := by
  intro origins
  have hwild : bytes "*".toList = [0x2A] := by decide
  rw [hwild]
  simp [noCrates]

theorem buildCors_eq_none_iff {c : Crates} {origins : List String} (hc : c.PanicsOnWildcard) :
    buildCors c origins = none ↔ "*" ∈ origins := by
  have hwild : bytes "*".toList ∈ (origins.filterMap fun o => headerFromStr o.toList) ↔
      "*" ∈ origins := by
    rw [List.mem_filterMap]
    constructor
    · rintro ⟨o, ho, hvalue⟩
      unfold headerFromStr at hvalue
      split at hvalue
      · have htext : o.toList = "*".toList := bytes_injective (Option.some.inj hvalue)
        rwa [← String.toList_inj.1 htext]
      · cases hvalue
    · intro hmem
      exact ⟨"*", hmem, by decide⟩
  simp only [buildCors]
  split_ifs with hempty hlist
  · refine iff_of_false (by rintro ⟨⟩) fun hmem => ?_
    rcases hempty with hempty | hempty
    · rw [List.isEmpty_iff.1 hempty] at hmem
      exact List.not_mem_nil hmem
    · have hkept := hwild.2 hmem
      rw [List.isEmpty_iff.1 hempty] at hkept
      exact List.not_mem_nil hkept
  · exact iff_of_false (by rintro ⟨⟩) fun hmem => (hc _).1 hlist (hwild.2 hmem)
  · exact iff_of_true rfl (hwild.1 (not_not.1 (mt (hc _).2 hlist)))

/-! ### What a served configuration has passed -/

variable {c : Crates} {env : ProcEnv} {cfg : AppConfig} {w : BootWorld} {booted : Booted}

theorem boot_ok (h : boot c env cfg w = .ok booted) :
    cfg.bootGates env = .ok () ∧ booted.state = cfg.appState env := by
  unfold boot at h
  obtain ⟨⟨⟩, hgates, h⟩ := bind_eq_ok h
  obtain ⟨dsn, -, h⟩ := bind_eq_ok h
  obtain ⟨⟨⟩, -, h⟩ := bind_eq_ok h
  obtain ⟨jobs, -, h⟩ := bind_eq_ok h
  obtain ⟨cors, -, h⟩ := bind_eq_ok h
  obtain ⟨⟨⟩, -, h⟩ := bind_eq_ok h
  cases h
  exact ⟨hgates, rfl⟩

theorem bootGates_ok (h : cfg.bootGates env = .ok ()) :
    refuseToStartWithoutToken cfg cfg.bind (cfg.resolveAdminToken env).isSome = .ok () := by
  unfold AppConfig.bootGates at h
  obtain ⟨⟨⟩, -, h⟩ := bind_eq_ok h
  obtain ⟨⟨⟩, -, h⟩ := bind_eq_ok h
  exact mapError_eq_ok h

/-- Without `admin.trust_network` the refusal is lifted by a token only. -/
theorem token_of_not_refused {tokenPresent : Bool} (htrust : cfg.admin.trustNetwork = false)
    (h : refuseToStartWithoutToken cfg cfg.bind tokenPresent = .ok ()) : tokenPresent = true := by
  cases tokenPresent with
  | true => rfl
  | false => simp [refuseToStartWithoutToken, htrust, bindIsLoopback_bind] at h

/-- **A server started without `admin.trust_network` has an admin token**, the non-empty value of
its environment variable, and the tokens of the groups. -/
theorem boot_adminToken (h : boot c env cfg w = .ok booted)
    (htrust : cfg.admin.trustNetwork = false) :
    ∃ master, cfg.resolveAdminToken env = some master ∧ master ≠ "" ∧
      booted.state.adminToken = some master ∧
      booted.state.perGroupTokens = cfg.resolvePerGroupTokens env := by
  obtain ⟨hgates, hstate⟩ := boot_ok h
  obtain ⟨master, hmaster⟩ := Option.isSome_iff_exists.1
    (token_of_not_refused htrust (bootGates_ok hgates))
  have hnonempty : master ≠ "" := by
    have hfilter := (Option.filter_eq_some_iff.1 hmaster).2
    simpa using hfilter
  refine ⟨master, hmaster, hnonempty, ?_⟩
  rw [hstate, AppConfig.appState, hmaster]
  simp only
  split
  · rename_i hempty
    exact ⟨rfl, (BTreeMap.eq_empty_of_isEmpty hempty).symm⟩
  · exact ⟨rfl, rfl⟩

/-! ### Who reaches a state-changing handler -/

/-- The request carries a well-formed `Bearer` header with the resolved master token, which is not
empty, or with the token of the group segment of its raw path. -/
def AppConfig.Authorized (cfg : AppConfig) (env : ProcEnv) (req : Request) : Prop :=
  ∃ master token, cfg.resolveAdminToken env = some master ∧ master ≠ "" ∧
    presentedToken req.authorization = some token ∧
    (token = bytes master.toList ∨
      ∃ raw t, groupSegment req.path = some raw ∧
        (cfg.resolvePerGroupTokens env).get raw = some t ∧ token = bytes t.toList)

/-- A request that reaches a state-changing handler is authorized. -/
theorem route_authorized {k : UriCrates} (h : boot c env cfg w = .ok booted)
    (htrust : cfg.admin.trustNetwork = false) {req : Request} {handler : Handler} {group : String}
    (hroute : booted.state.route k req = .ok handler) (hgroup : handler.group = some group) :
    cfg.Authorized env req := by
  obtain ⟨master, hmaster, hnonempty, hadmin, htokens⟩ := boot_adminToken h htrust
  obtain ⟨-, -, -, -, -, hgate⟩ := route_group k hroute hgroup
  obtain ⟨token, htoken, hor⟩ := (adminGate_eq_ok hadmin).1 hgate
  refine ⟨master, token, hmaster, hnonempty, htoken, hor.imp_right ?_⟩
  rintro ⟨g, t, hg, hget, heq⟩
  exact ⟨g, t, (groupSegment_of_extract hg).1, htokens ▸ hget, heq⟩

/-- **No request reaches a state-changing handler without a valid token.**  For every
configuration and environment with which `main` comes to serve and `admin.trust_network` is off, and
however the router matches paths: a request that reaches `execute_job`, `stop_job` or `reload_jobs`
is authorized, and a request that is not authorized changes nothing. -/
theorem boot_authorized (h : boot c env cfg w = .ok booted)
    (htrust : cfg.admin.trustNetwork = false) (k : UriCrates) (req : Request) :
    (∀ handler group, booted.state.route k req = .ok handler → handler.group = some group →
        cfg.Authorized env req) ∧
      (¬cfg.Authorized env req → ∀ env' environment s sw,
        (booted.state.serve k c env' environment s req sw).1 = s) := by
  have hauth : ∀ handler group, booted.state.route k req = .ok handler →
      handler.group = some group → cfg.Authorized env req :=
    fun _ _ hroute hgroup => route_authorized h htrust hroute hgroup
  -- what an unauthorized request reaches, if anything, only reads
  refine ⟨hauth, ?_⟩
  intro hnot env' environment s sw
  unfold AppState.serve
  cases hroute : booted.state.route k req with
  | error r => rfl
  | ok handler =>
    cases handler with
    | readOnly ep => rfl
    | executeJob group job params => exact absurd (hauth _ group hroute rfl) hnot
    | stopJob group job => exact absurd (hauth _ group hroute rfl) hnot
    | reloadJobs group => exact absurd (hauth _ group hroute rfl) hnot

/-- An environment with the admin token set. -/
def demoEnv : ProcEnv := fun var =>
  if var = "CRONMANAGER_ADMIN_TOKEN" then some "7f3b9c1e5a8d4e6fb2a0c4d8e1f37a95" else none

/-- A boot in which nothing fails and `dsl_path` does not exist. -/
def demoBoot : BootWorld := ⟨.ok (), .finished none, .ok ()⟩

theorem boot_authorized_default :
    ∃ booted, boot noCrates demoEnv .default demoBoot = .ok booted ∧
      ∀ s sw, (booted.state.serve demoUri noCrates demoEnv .dev s
        ⟨.post, "/stop/nightly/backup", none, none, none⟩ sw).1 = s := by
  have hboot : (boot noCrates demoEnv .default demoBoot).isOk = true := by decide
  obtain ⟨booted, hbooted⟩ : ∃ booted, boot noCrates demoEnv .default demoBoot = .ok booted := by
    cases hok : boot noCrates demoEnv .default demoBoot with
    | error e =>
      rw [hok] at hboot
      cases hboot
    | ok booted => exact ⟨booted, rfl⟩
  refine ⟨booted, hbooted, fun s sw => ?_⟩
  refine (boot_authorized hbooted rfl demoUri _).2 ?_ _ _ s sw
  rintro ⟨master, token, -, -, htoken, -⟩
  cases htoken

end CronManager

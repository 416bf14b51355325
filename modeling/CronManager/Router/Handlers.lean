import CronManager.Router.Gate
import CronManager.Scheduler.Api
import CronManager.Scheduler.Identity
import Mathlib.Data.List.MinMax

/-!
# The handlers behind the gate

The rest of `src/router.rs`: the extractors, the three state-changing handlers with the throttle
of `/reload`, and `serve`, which routes a request and runs its handler.  The read-only handlers
and the snapshot of the running jobs that `/execute` and `/stop` add to their answers change
nothing and are left out.

* `sameOutside_triggerNow`, `sameOutside_stop` and `sameOutside_reloadFrom` : when a call of the
  scheduler leaves all groups but one alone;
* `group_token_confined_iff` : the exact condition under which a request that is admitted by a
  group token does so;
* `reload_reaches_other_group` : a `/reload` with a group token that replaces the job of another
  group;
* `dev_fixture_gate` : which trees a refusing policy loads, and that a failed load changes nothing.
-/

namespace CronManager

open Rust

/-! ### The throttle -/

/-- `ReloadGate`: when each group was last admitted, in nanoseconds. -/
abbrev ReloadGate := HashMap String ℕ

namespace ReloadGate

/-- `EVICT_STALE_MULTIPLIER`. -/
def evictStaleMultiplier : ℕ := 10

/-- `MAX_ENTRIES`. -/
def maxEntries : ℕ := 1024

/-- `now.duration_since(last).as_secs()`. -/
def elapsedSecs (now last : ℕ) : ℕ := (now - last) / 1000000000

/-- `u64::saturating_mul`. -/
def saturatingMul (a b : ℕ) : ℕ := min (a * b) (2 ^ 64 - 1)

/-- Drop the oldest entry. -/
def dropOldest (gate : ReloadGate) : ReloadGate :=
  match gate.entries.argmin fun e => e.2 with
  | some oldest => gate.erase oldest.1
  | none => gate

/-- `ReloadGate::admit`. -/
def admits (gate : ReloadGate) (group : String) (minIntervalSecs now : ℕ) :
    ReloadGate × Except ℕ Unit :=
  if minIntervalSecs = 0 then (gate, .ok ())
  else match (gate.lookup group).filter fun last => elapsedSecs now last < minIntervalSecs with
    | some last => (gate, .error (minIntervalSecs - elapsedSecs now last))
    | none =>
      let staleAfter := saturatingMul minIntervalSecs evictStaleMultiplier
      let gate := if 0 < staleAfter then
          gate.retain fun _ last => elapsedSecs now last < staleAfter
        else gate
      let gate := if maxEntries ≤ gate.len ∧ group ∉ gate then dropOldest gate else gate
      (gate.insert group now, .ok ())

end ReloadGate

/-! ### Extractors -/

/-- A handler with what its extractors hand to it. -/
inductive Handler where
  /-- A handler that only reads. -/
  | readOnly (ep : Endpoint)
  | executeJob (group job : String) (params : List (String × String))
  | stopJob (group job : String)
  | reloadJobs (group : String)

/-- The answers that do not come from a handler. -/
inductive Refusal where
  | notFound
  | methodNotAllowed
  /-- A path parameter is not valid UTF-8 once decoded. -/
  | invalidPath
  | error (e : CronManagerError)
  deriving DecidableEq, Repr

/-- The group that a state-changing handler gets. -/
def Handler.group : Handler → Option String
  | .readOnly _ => none
  | .executeJob group _ _ | .stopJob group _ | .reloadJobs group => some group

variable (k : UriCrates)

/-- One segment of the `Path` extractor. -/
def pathParam (segment : String) : Except Refusal String :=
  match k.percentDecode segment with
  | some text => .ok text
  | none => .error .invalidPath

/-- `BoundedQuery`. -/
def AppState.boundedQuery (st : AppState) (query : Option String) :
    Except Refusal (List (String × String)) :=
  let pairs := k.formUrlencoded (query.getD "")
  let cap := st.cfg.security.maxQueryParams
  if cap < pairs.length then .error (.error (.tooManyQueryParams pairs.length cap)) else .ok pairs

/-- The extractors of an endpoint's handler. -/
def AppState.extract (st : AppState) (query : Option String) : Endpoint → Except Refusal Handler
  | .executeJob group job => do
    let group ← pathParam k group
    let job ← pathParam k job
    let params ← st.boundedQuery k query
    return .executeJob group job params
  | .stopJob group job => do
    let group ← pathParam k group
    let job ← pathParam k job
    return .stopJob group job
  | .reloadJobs group => do
    let group ← pathParam k group
    return .reloadJobs group
  | .jobsGroup group => (pathParam k group).map fun group => .readOnly (.jobsGroup group)
  | .runningGroup group => (pathParam k group).map fun group => .readOnly (.runningGroup group)
  | ep => .ok (.readOnly ep)

/-- The gate, on the endpoints it protects. -/
def AppState.gateFor (st : AppState) (ep : Endpoint) (req : Request) :
    Except CronManagerError Unit :=
  if ep.gated st.cfg.security then st.adminGate req.path req.authorization else .ok ()

/-- The handler that a request reaches. -/
def AppState.route (st : AppState) (req : Request) : Except Refusal Handler :=
  let limit := st.cfg.limits.maxRequestBytes
  if req.contentLength.any fun n => decide (limit < n) then .error (.error (.requestTooLarge limit))
  else match k.matchPath req.path with
    -- `merge` takes over the fallback of the gated tree, which the gate wraps as well
    | none => match st.adminGate req.path req.authorization with
      | .error e => .error (.error e)
      | .ok () => .error .notFound
    -- the gate wraps the route, so it answers before the method is looked at
    | some ep => match st.gateFor ep req with
      | .error e => .error (.error e)
      | .ok () =>
        if ep.allows req.method then st.extract k req.query ep else .error .methodNotAllowed

/-! ### State-changing handlers -/

/-- What the server changes while it runs. -/
structure Server where
  sched : Shared
  gate : ReloadGate

/-- What the outside world does during one request. -/
structure ServeWorld where
  /-- `Instant::now()`, in nanoseconds. -/
  now : ℕ
  load : LoadEnd

/-- What a handler answers. -/
inductive Body where
  | snapshot
  | stopped (aborted : Bool)
  | reloaded (count : ℕ)
  deriving DecidableEq, Repr

/-- The dangerous override that `execute_job` refuses. -/
def AppState.refusedOverride (st : AppState) (params : List (String × String)) : Option String :=
  if st.cfg.security.allowDangerousEnvOverrides then none
  else (params.find? fun kv => isDangerousEnv kv.1).map (·.1)

/-- `execute_job`. -/
def AppState.executeJob (st : AppState) (m : Shared) (group job : String)
    (params : List (String × String)) : Shared × Except CronManagerError Unit :=
  match st.refusedOverride params with
  | some var => (m, .error (.forbidden (s!"env override '{var}' matches the dangerous-env " ++
      "blacklist (PATH, LD_*, DYLD_*, PYTHONPATH, NODE_OPTIONS, …); refusing to fire " ++
      s!"{group}/{job}")))
  | none => m.triggerNow ⟨group, job⟩

variable (c : Crates) (env : ProcEnv) (environment : Environment)

/-- The jobs that `reload_jobs` loads. -/
def AppState.loadJobs (st : AppState) (load : LoadEnd) :
    Except CronManagerError (List LoadedJob) :=
  loadAllBounded c env (st.cfg.security.loadPolicy environment) st.cfg.dslPath
    st.cfg.security.dslLoadTimeoutSecs load

/-- `reload_jobs`. -/
def AppState.reloadJobs (st : AppState) (s : Server) (group : String) (w : ServeWorld) :
    Server × Except CronManagerError ℕ :=
  match s.gate.admits group st.cfg.security.reloadMinIntervalSecs w.now with
  | (gate, .error wait) => (⟨s.sched, gate⟩, .error (.tooManyRequests wait))
  -- the group has no further effect: the whole tree is loaded
  | (gate, .ok ()) => match st.loadJobs c env environment w.load with
    | .error e => (⟨s.sched, gate⟩, .error e)
    | .ok jobs => (⟨(s.sched.reloadFrom jobs).1, gate⟩, .ok (s.sched.reloadFrom jobs).2)

/-- Run a handler. -/
def AppState.handle (st : AppState) (s : Server) (w : ServeWorld) :
    Handler → Server × Except CronManagerError Body
  | .readOnly _ => (s, .ok .snapshot)
  | .executeJob group job params =>
    let r := st.executeJob s.sched group job params
    (⟨r.1, s.gate⟩, r.2.map fun _ => .snapshot)
  | .stopJob group job =>
    let r := s.sched.stop ⟨group, job⟩
    (⟨r.1, s.gate⟩, r.2.map .stopped)
  | .reloadJobs group =>
    let r := st.reloadJobs c env environment s group w
    (r.1, r.2.map .reloaded)

/-- Route a request and run its handler. -/
def AppState.serve (st : AppState) (s : Server) (req : Request) (w : ServeWorld) :
    Server × Except Refusal Body :=
  match st.route k req with
  | .error r => (s, .error r)
  | .ok h =>
    let r := st.handle c env environment s w h
    (r.1, match r.2 with
      | .ok body => .ok body
      | .error e => .error (.error e))

/-! ### How a request reaches a handler -/

theorem pathParam_ok {segment text : String} (h : pathParam k segment = .ok text) :
    k.percentDecode segment = some text := by
  unfold pathParam at h
  split at h <;> cases h
  assumption

theorem extract_group {st : AppState} {query : Option String} {ep : Endpoint} {h : Handler}
    {group : String} (hextract : st.extract k query ep = .ok h) (hgroup : h.group = some group) :
    ∃ raw, ep.adminGroup = some raw ∧ k.percentDecode raw = some group := by
  cases ep with
  | executeJob raw job =>
    obtain ⟨g, hg, hextract⟩ := bind_eq_ok hextract
    obtain ⟨j, -, hextract⟩ := bind_eq_ok hextract
    obtain ⟨params, -, hextract⟩ := bind_eq_ok hextract
    cases hextract
    cases hgroup
    exact ⟨raw, rfl, pathParam_ok k hg⟩
  | stopJob raw job =>
    obtain ⟨g, hg, hextract⟩ := bind_eq_ok hextract
    obtain ⟨j, -, hextract⟩ := bind_eq_ok hextract
    cases hextract
    cases hgroup
    exact ⟨raw, rfl, pathParam_ok k hg⟩
  | reloadJobs raw =>
    obtain ⟨g, hg, hextract⟩ := bind_eq_ok hextract
    cases hextract
    cases hgroup
    exact ⟨raw, rfl, pathParam_ok k hg⟩
  | jobsGroup raw =>
    obtain ⟨g, -, rfl⟩ := map_eq_ok hextract
    cases hgroup
  | runningGroup raw =>
    obtain ⟨g, -, rfl⟩ := map_eq_ok hextract
    cases hgroup
  | _ =>
    cases hextract
    cases hgroup

/-- **How a request reaches a state-changing handler**: its path is routed, the gate has admitted
it, and the handler gets the decoded group segment. -/
theorem route_group {st : AppState} {req : Request} {h : Handler} {group : String}
    (hroute : st.route k req = .ok h) (hgroup : h.group = some group) :
    ∃ ep raw, k.matchPath req.path = some ep ∧ ep.adminGroup = some raw ∧
      k.percentDecode raw = some group ∧ st.adminGate req.path req.authorization = .ok () := by
  simp only [AppState.route] at hroute
  split at hroute
  · cases hroute
  split at hroute
  · split at hroute <;> cases hroute
  rename_i ep hmatch
  split at hroute
  · cases hroute
  rename_i hgate
  split at hroute
  · -- the endpoints with a group for a state-changing handler are all behind the gate
    obtain ⟨raw, hraw, hdecode⟩ := extract_group k hroute hgroup
    have hgated : ep.gated st.cfg.security = true := by
      cases ep <;> first | rfl | cases hraw
    unfold AppState.gateFor at hgate
    rw [if_pos hgated] at hgate
    exact ⟨ep, raw, hmatch, hraw, hdecode, hgate⟩
  · cases hroute

/-! ### What a call leaves alone -/

/-- The registry entries, runtime states and running instances of all groups but `g` are the same,
and none of these instances was signalled. -/
structure Shared.SameOutside (g : String) (m m' : Shared) : Prop where
  jobs : ∀ key, key.group ≠ g → m'.jobs.lookup key = m.jobs.lookup key
  states : ∀ key job, key.group ≠ g → m.jobs.lookup key = some job →
    m'.states job.state = m.states job.state
  running : ∀ key, key.group ≠ g → m'.running.lookup key = m.running.lookup key
  signals : ∀ key inst, key.group ≠ g → m.running.lookup key = some inst →
    m'.signals inst.cancel = m.signals inst.cancel

variable {g : String} {m m' : Shared} {key : JobKey}

theorem Shared.SameOutside.refl (g : String) (m : Shared) : m.SameOutside g m :=
  ⟨fun _ _ => rfl, fun _ _ _ _ => rfl, fun _ _ => rfl, fun _ _ _ _ => rfl⟩

theorem triggerNow_cases (m : Shared) (key : JobKey) :
    ((m.jobs.lookup key = none ∨ (m.running.lookup key).isSome) ∧ (m.triggerNow key).1 = m) ∨
      ∃ inst, m.running.lookup key = none ∧ (m.jobs.lookup key).isSome ∧
        (m.triggerNow key).1 = { m with
          running := m.running.insert key inst
          fresh := m.fresh + 2 } := by
  unfold Shared.triggerNow
  cases hjob : m.jobs.lookup key with
  | none => exact .inl ⟨.inl rfl, rfl⟩
  | some job =>
    cases hrun : m.running.lookup key with
    | some inst => exact .inl ⟨.inr rfl, by simp [Shared.startRun, Shared.beginRunning, hrun]⟩
    | none =>
      refine .inr ⟨⟨m.now, job.spec.trigger.scheduleStr, m.fresh⟩, rfl, rfl, ?_⟩
      simp [Shared.startRun, Shared.beginRunning, hrun, Shared.alloc]

/-- `trigger_now` leaves the other groups alone, unless it begins an instance of another group. -/
theorem sameOutside_triggerNow : m.SameOutside g (m.triggerNow key).1 ↔
    key.group = g ∨ m.jobs.lookup key = none ∨ (m.running.lookup key).isSome := by
  rcases triggerNow_cases m key with ⟨hnone, heq⟩ | ⟨inst, hrun, hjob, heq⟩
  · rw [heq]
    exact iff_of_true (.refl g m) (.inr hnone)
  · rw [heq]
    have hnot : ¬(m.jobs.lookup key = none ∨ (m.running.lookup key).isSome) := by
      rintro (h | h)
      · rw [h] at hjob
        cases hjob
      · rw [hrun] at h
        cases h
    rw [or_iff_left hnot]
    constructor
    · intro h
      by_contra hne
      have hsame := h.running key hne
      simp only [AList.lookup_insert, hrun] at hsame
      cases hsame
    · rintro rfl
      refine ⟨fun _ _ => rfl, fun _ _ _ _ => rfl, fun key' hne => ?_, fun _ _ _ _ => rfl⟩
      exact AList.lookup_insert_ne fun heq => hne (heq ▸ rfl)

theorem sameOutside_stop {σ : Sched} (hid : Identified σ) :
    σ.mem.SameOutside g (σ.mem.stop key).1 ↔
      key.group = g ∨ σ.mem.jobs.lookup key = none ∨ σ.mem.running.lookup key = none := by
  unfold Shared.stop
  cases hjob : σ.mem.jobs.lookup key with
  | none => exact iff_of_true (.refl g _) (.inr (.inl rfl))
  | some job =>
    simp only [Shared.signal]
    cases hrun : σ.mem.running.lookup key with
    | none => exact iff_of_true (.refl g _) (.inr (.inr rfl))
    | some inst =>
      simp only [reduceCtorEq, or_false]
      constructor
      · intro h
        by_contra hne
        have hsignals := h.signals key inst hne hrun
        simp [Shared.countSignals] at hsignals
      · rintro rfl
        refine ⟨fun _ _ => rfl, fun _ _ _ _ => rfl, fun _ _ => rfl, fun key' inst' hne hrun' => ?_⟩
        have hcancel : inst.cancel ≠ inst'.cancel := fun h =>
          hne (key_eq_of_cancel hid hrun hrun' h ▸ rfl)
        simp [Shared.countSignals, hcancel]

/-! ### What a reload leaves alone -/

theorem running_registerAll (specs : List JobSpec) :
    (m.registerAll specs).running = m.running ∧ (m.registerAll specs).signals = m.signals := by
  induction specs generalizing m with
  | nil => exact ⟨rfl, rfl⟩
  | cons spec specs ih => exact ih (m := m.register spec)

theorem state_registerAll {specs : List JobSpec} {job : RegisteredJob}
    (h : (m.registerAll specs).jobs.lookup key = some job) :
    m.jobs.lookup key = some job ∨ m.fresh ≤ job.state := by
  induction specs generalizing m with
  | nil => exact .inl h
  | cons spec specs ih =>
    rcases ih (m := m.register spec) h with hone | hfresh
    · rw [lookup_register] at hone
      split_ifs at hone
      · cases hone
        exact .inr (le_refl _)
      · exact .inl hone
    · exact .inr ((Nat.le_add_right m.fresh 2).trans hfresh)

theorem lookup_reloadFrom_eq_none {jobs : List LoadedJob} :
    (m.reloadFrom jobs).1.jobs.lookup key = none ↔ ∀ job ∈ jobs, job.spec.key ≠ key := by
  rw [← Option.map_eq_none_iff (f := RegisteredJob.spec)]
  have hspec := @specAt_reloadFrom m jobs key
  unfold Shared.specAt at hspec
  rw [hspec, lastAt, List.getLast?_eq_none_iff, List.filter_eq_nil_iff]
  simp

theorem signals_reloadFrom {jobs : List LoadedJob} (n : NotifyId) :
    (m.reloadFrom jobs).1.signals n =
      m.signals n + (m.running.values.map (·.cancel)).count n := by
  unfold Shared.reloadFrom
  rw [(running_registerAll _).2]
  rfl

/-- A reload leaves the other groups alone only if they have nothing registered, nothing running
and nothing loaded. -/
theorem sameOutside_reloadFrom {σ : Sched} (hid : Identified σ) {jobs : List LoadedJob} :
    σ.mem.SameOutside g (σ.mem.reloadFrom jobs).1 ↔
      (∀ key, key.group ≠ g →
        σ.mem.jobs.lookup key = none ∧ σ.mem.running.lookup key = none) ∧
        ∀ job ∈ jobs, job.spec.key.group = g := by
  constructor
  · intro h
    have hjobs : ∀ key, key.group ≠ g → σ.mem.jobs.lookup key = none := by
      intro key hne
      by_contra hsome
      obtain ⟨job, hjob⟩ := Option.ne_none_iff_exists'.1 hsome
      -- after the reload the entry of `key`, if any, has another runtime state
      have hafter := (h.jobs key hne).trans hjob
      rcases state_registerAll hafter with hcleared | hfresh
      · cases hcleared
      · exact absurd (hid.jobs key job hjob) (not_lt.2 hfresh)
    constructor
    · intro key hne
      refine ⟨hjobs key hne, ?_⟩
      by_contra hsome
      obtain ⟨inst, hinst⟩ := Option.ne_none_iff_exists'.1 hsome
      have hsame := h.signals key inst hne hinst
      have hmem : inst.cancel ∈ σ.mem.running.values.map (·.cancel) :=
        List.mem_map_of_mem (HashMap.mem_values.2 ⟨key, hinst⟩)
      rw [signals_reloadFrom] at hsame
      exact absurd (List.count_pos_iff.2 hmem) (by omega)
    · intro job hjob
      by_contra hne
      have hnone := (h.jobs job.spec.key hne).trans (hjobs job.spec.key hne)
      exact lookup_reloadFrom_eq_none.1 hnone job hjob rfl
  · rintro ⟨hempty, hloaded⟩
    constructor
    · intro key hne
      rw [(hempty key hne).1, lookup_reloadFrom_eq_none]
      rintro job hjob rfl
      exact hne (hloaded job hjob)
    · intro key job hne hjob
      rw [(hempty key hne).1] at hjob
      cases hjob
    · intro key hne
      unfold Shared.reloadFrom
      rw [(running_registerAll _).1]
      rfl
    · intro key inst hne hinst
      rw [(hempty key hne).2] at hinst
      cases hinst

/-! ### Requests with a group token -/

/-- The gate admits the request only because of the token of group `g`: it is presented, and it is
not the master token. -/
def AppState.AdmittedByGroup (st : AppState) (req : Request) (g : String) : Prop :=
  ∃ master token, st.adminToken = some master ∧ presentedToken req.authorization = some token ∧
    token ≠ bytes master.toList ∧ extractGroupFromPath req.path = some g ∧
    st.GroupToken (some g) token

/-- The handler stays within group `g`: `/execute` and `/stop` got this group, or do nothing; and
`/reload` is refused, or there is nothing of another group. -/
def AppState.Confined (st : AppState) (s : Server) (w : ServeWorld) (g : String) : Handler → Prop
  | .readOnly _ => True
  | .executeJob group job params =>
    group = g ∨ (st.refusedOverride params).isSome ∨ s.sched.jobs.lookup ⟨group, job⟩ = none ∨
      (s.sched.running.lookup ⟨group, job⟩).isSome
  | .stopJob group job =>
    group = g ∨ s.sched.jobs.lookup ⟨group, job⟩ = none ∨
      s.sched.running.lookup ⟨group, job⟩ = none
  | .reloadJobs group =>
    (∃ wait, (s.gate.admits group st.cfg.security.reloadMinIntervalSecs w.now).2 = .error wait) ∨
      (∃ e, st.loadJobs c env environment w.load = .error e) ∨
      (∀ key, key.group ≠ g →
        s.sched.jobs.lookup key = none ∧ s.sched.running.lookup key = none) ∧
        ∀ jobs, st.loadJobs c env environment w.load = .ok jobs →
          ∀ job ∈ jobs, job.spec.key.group = g

variable {k c env environment} {st : AppState} {s : Server} {req : Request} {w : ServeWorld}
  {b : ExecutorBundle} {σ : Sched}

theorem sameOutside_reloadJobs {group : String} (hid : Identified σ) (hs : s.sched = σ.mem) :
    s.sched.SameOutside g (st.reloadJobs c env environment s group w).1.sched ↔
      st.Confined c env environment s w g (.reloadJobs group) := by
  simp only [AppState.reloadJobs, AppState.Confined]
  obtain ⟨gate, hgate⟩ : ∃ gate,
      gate = s.gate.admits group st.cfg.security.reloadMinIntervalSecs w.now := ⟨_, rfl⟩
  rw [← hgate]
  obtain ⟨gate, verdict⟩ := gate
  cases verdict with
  | error wait => exact iff_of_true (.refl g _) (.inl ⟨wait, rfl⟩)
  | ok _ =>
    cases hload : st.loadJobs c env environment w.load with
    | error e => exact iff_of_true (.refl g _) (.inr (.inl ⟨e, rfl⟩))
    | ok jobs =>
      simp only [hs, sameOutside_reloadFrom hid, reduceCtorEq, exists_false, false_or,
        Except.ok.injEq, forall_eq']

/-- A handler leaves the other groups alone exactly when it is confined. -/
theorem sameOutside_handle (hid : Identified σ) (hs : s.sched = σ.mem) (h : Handler) :
    s.sched.SameOutside g (st.handle c env environment s w h).1.sched ↔
      st.Confined c env environment s w g h := by
  cases h with
  | readOnly ep => exact iff_of_true (.refl g _) trivial
  | executeJob group job params =>
    simp only [AppState.handle, AppState.executeJob, AppState.Confined]
    cases hover : st.refusedOverride params with
    | some var => exact iff_of_true (.refl g _) (.inr (.inl rfl))
    | none =>
      simp only [sameOutside_triggerNow, Option.isSome_none, Bool.false_eq_true, false_or]
  | stopJob group job =>
    simp only [AppState.handle, AppState.Confined, hs, sameOutside_stop hid]
  | reloadJobs group => exact sameOutside_reloadJobs hid hs

/-- **The reach of a group token.**  In every reachable state of the scheduler and for every
request that the gate admits only because of the token of `g`: the gate does admit it, and
handling it leaves the registry entries, the runtime states and the running instances of all other
groups alone, if and only if the handler it reaches is confined to `g`. -/
theorem group_token_confined_iff (hreach : (schedMachine c b).Reaches Sched.init σ)
    (hs : s.sched = σ.mem) (hgroup : st.AdmittedByGroup req g) :
    st.adminGate req.path req.authorization = .ok () ∧
      (s.sched.SameOutside g (st.serve k c env environment s req w).1.sched ↔
        ∀ h, st.route k req = .ok h → st.Confined c env environment s w g h) := by
  have hid := identified_reaches hreach
  constructor
  · obtain ⟨master, token, hmaster, htoken, -, hextract, hmatch⟩ := hgroup
    exact (adminGate_eq_ok hmaster).2 ⟨token, htoken, .inr (hextract ▸ hmatch)⟩
  · unfold AppState.serve
    cases hroute : st.route k req with
    | error r => exact iff_of_true (.refl g _) nofun
    | ok h =>
      simp only [Except.ok.injEq, forall_eq']
      exact sameOutside_handle hid hs h

/-! ### Two requests with a group token -/

/-- The steps that register `nightly/backup`. -/
def demoRegister : List Act :=
  .call (.register demoSpec) :: List.replicate 4 (.run 0 (demoWorld .timeout))

/-- The scheduler after them. -/
def demoRegistered : Sched :=
  ((schedMachine noCrates demoBundle).run Sched.init demoRegister).getD Sched.init

theorem reaches_demoRegistered :
    (schedMachine noCrates demoBundle).Reaches Sched.init demoRegistered := by
  have hrun : (schedMachine noCrates demoBundle).run Sched.init demoRegister =
      some demoRegistered := eq_some_getD (by decide)
  exact Machine.reaches_of_run hrun

/-- A `POST` with the group token of `demoState`. -/
def demoPost (path : String) : Request := ⟨.post, path, none, demoAuthorization, none⟩

/-- The state after a request, with `nightly/backup` registered and an empty `dsl_path`. -/
def demoServe (group path : String) : Shared :=
  ((demoState group).serve demoUri noCrates (fun _ => none) .dev ⟨demoRegistered.mem, ∅⟩
    (demoPost path) ⟨0, .finished none⟩).1.sched

theorem group_token_confined_stop :
    demoRegistered.mem.SameOutside "nightly" (demoServe "nightly" "/stop/nightly/backup") := by
  have hgroup : (demoState "nightly").AdmittedByGroup (demoPost "/stop/nightly/backup") "nightly" :=
    ⟨"master-secret", bytes "shift-secret".toList, rfl, by decide, by decide, by decide,
      "nightly", "shift-secret", rfl, by decide, rfl⟩
  have hiff := (@group_token_confined_iff demoUri noCrates (fun _ => none) .dev "nightly"
    (demoState "nightly") ⟨demoRegistered.mem, ∅⟩ (demoPost "/stop/nightly/backup")
    ⟨0, .finished none⟩ demoBundle demoRegistered reaches_demoRegistered rfl hgroup).2
  refine hiff.2 fun h hroute => ?_
  have hstop : (demoState "nightly").route demoUri (demoPost "/stop/nightly/backup") =
      .ok (.stopJob "nightly" "backup") := rfl
  cases hstop.symm.trans hroute
  exact .inl rfl

/-- A `/reload/weekly` with the token of `weekly` removes the job of `nightly`. -/
theorem reload_reaches_other_group :
    ¬ ∀ (c : Crates) (b : ExecutorBundle) (k : UriCrates) (env : ProcEnv)
        (environment : Environment) (st : AppState) (s : Server) (req : Request)
        (w : ServeWorld) (g : String) (σ : Sched),
      (schedMachine c b).Reaches Sched.init σ → s.sched = σ.mem → st.AdmittedByGroup req g →
        s.sched.SameOutside g (st.serve k c env environment s req w).1.sched := by
  intro h
  have hgroup : (demoState "weekly").AdmittedByGroup (demoPost "/reload/weekly") "weekly" :=
    ⟨"master-secret", bytes "shift-secret".toList, rfl, by decide, by decide, by decide,
      "weekly", "shift-secret", rfl, by decide, rfl⟩
  have hsame := h noCrates demoBundle demoUri (fun _ => none) .dev (demoState "weekly")
    ⟨demoRegistered.mem, ∅⟩ (demoPost "/reload/weekly") ⟨0, .finished none⟩ "weekly"
    demoRegistered reaches_demoRegistered rfl hgroup
  have hbefore : (demoRegistered.mem.jobs.lookup demoSpec.key).isSome = true := by decide
  have hafter : (demoServe "weekly" "/reload/weekly").jobs.lookup demoSpec.key = none := by
    decide
  rw [← hsame.jobs demoSpec.key (by decide)] at hbefore
  exact absurd (hafter ▸ hbefore) (by decide)

/-! ### Refused reloads -/

theorem reloadJobs_of_load_error {st : AppState} {s : Server} {group : String} {w : ServeWorld}
    {e : CronManagerError} (h : st.loadJobs c env environment w.load = .error e) :
    (st.reloadJobs c env environment s group w).1.sched = s.sched := by
  simp only [AppState.reloadJobs, h]
  split <;> rfl

/-- **The dev-fixture gate.**  A refusing policy loads a readable tree exactly if no YAML file of
it matches a dev-fixture pattern; and a load that fails changes nothing in the scheduler. -/
theorem dev_fixture_gate {policy : LoadPolicy} (hpolicy : policy.devFixtureAction = .refuse) :
    (∀ (root : OsStr) (tree : Option FsNode), treeReadable tree = true →
      ((∃ jobs, loadAllWithPolicy c env policy root tree = .ok jobs) ↔
        ∀ f, TreeHolds tree f → f.isYaml = true → devFixturePattern (f.path root) = none)) ∧
    ∀ (st : AppState) (s : Server) (group : String) (w : ServeWorld),
      (∃ e, st.loadJobs c env environment w.load = .error e) →
        (st.reloadJobs c env environment s group w).1.sched = s.sched := by
  constructor
  · intro root tree hread
    rw [loadAll_ok_iff, and_iff_right hread]
    have hrefused (f : DslFile) :
        ¬ Refused policy root f ↔ devFixturePattern (f.path root) = none := by
      simp [Refused, hpolicy]
    simp only [hrefused, mem_dslFiles]
    constructor
    · intro h f hf hyaml
      exact h f ⟨hyaml, hf⟩
    · rintro h f ⟨hyaml, hf⟩
      exact h f hf hyaml
  · rintro st s group w ⟨e, he⟩
    exact reloadJobs_of_load_error he

/-- What production loads from `nightly.yaml` and a second file. -/
def demoProdLoad (second : String) : Except CronManagerError (List LoadedJob) :=
  loadAllWithPolicy demoCrates (fun _ => none) (SecurityConfig.default.loadPolicy .production)
    (bytes "./DSL".toList) (demoTree "nightly.yaml" second)

theorem loadJobs_demoTree (second : String) :
    (demoState "weekly").loadJobs demoCrates (fun _ => none) .production
      (.finished (demoTree "nightly.yaml" second)) = demoProdLoad second := rfl

/-- In production `mock-weekly.yml` is refused, and the reload leaves `nightly/backup` alone. -/
theorem dev_fixture_gate_mock :
    (∃ jobs, demoProdLoad "weekly.yml" = .ok jobs) ∧
      (¬ ∃ jobs, demoProdLoad "mock-weekly.yml" = .ok jobs) ∧
      ((demoState "weekly").reloadJobs demoCrates (fun _ => none) .production
        ⟨demoRegistered.mem, ∅⟩ "weekly"
        ⟨0, .finished (demoTree "nightly.yaml" "mock-weekly.yml")⟩).1.sched =
          demoRegistered.mem := by
  have hpolicy : (SecurityConfig.default.loadPolicy .production).devFixtureAction = .refuse := rfl
  obtain ⟨hload, hreload⟩ :=
    @dev_fixture_gate demoCrates (fun _ => none) .production _ hpolicy
  have hiff (second : String) := hload (bytes "./DSL".toList) (demoTree "nightly.yaml" second)
    (by simp [demoTree, treeReadable, FsNode.readable, readableAll, demoFile])
  have hmock : ¬ ∃ jobs, demoProdLoad "mock-weekly.yml" = .ok jobs := by
    intro h
    rw [demoProdLoad, hiff] at h
    have hfile : FsNode.Holds [] (demoFile "mock-weekly.yml" "/opt/quick.sh")
      ⟨[bytes "mock-weekly.yml".toList], _, _⟩ := .file
    have hnone := h _ ⟨_, by simp [treeEntries, demoTree], hfile⟩ (by decide)
    exact absurd hnone (by decide +kernel)
  refine ⟨?_, hmock, hreload _ _ _ _ ?_⟩
  · rw [demoProdLoad, hiff]
    intro f hf hyaml
    have hall : ∀ f ∈ dslFiles (demoTree "nightly.yaml" "weekly.yml"),
        devFixturePattern (f.path (bytes "./DSL".toList)) = none := by
      decide +kernel
    exact hall f (mem_dslFiles.2 ⟨hyaml, hf⟩)
  · rw [loadJobs_demoTree]
    cases hjobs : demoProdLoad "mock-weekly.yml" with
    | error e => exact ⟨e, rfl⟩
    | ok jobs => exact absurd ⟨jobs, hjobs⟩ hmock

end CronManager

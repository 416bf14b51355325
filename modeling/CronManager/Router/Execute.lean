import CronManager.Router.Handlers
import CronManager.Scheduler.Causes

/-!
# The environment of a manual run

What a `POST /execute/:group/:job?…` can put into the environment of a child.  The query reaches
the executor as the overrides of the run; the executor applies those whose names the job's
`allowedEnvs` lists, after the values of `shell_environment`.

* `lastValue_childEnv` : the value that the child sees;
* `loyal_kept` : a dispatch works with the job and the overrides of its run, through every step of
  every interleaving; these are the overrides of the call whose task began the run
  (`manual_of_asked`), and so those of the request that the task serves (`manual_of_request`);
* `child_env_of_request` : together, for every run that the `/execute` requests of a server start.
-/

namespace CronManager

open Rust

/-! ### The environment of a child -/

/-- The last value given for a key. -/
def lastValue (pairs : List (String × String)) (key : String) : Option String :=
  pairs.reverse.lookup key

/-- The value of a variable in the child, which sees the last assignment. -/
def ShellCommand.valueOf (cmd : ShellCommand) (key : String) : Option String :=
  lastValue cmd.env key

theorem lastValue_append {l r : List (String × String)} {key : String} :
    lastValue (l ++ r) key = (lastValue r key).or (lastValue l key) := by
  rw [lastValue, List.reverse_append, List.lookup_append]
  rfl

theorem lookup_filterMap_get {get : String → Option String} {names : List String} {key : String} :
    (names.filterMap fun n => (get n).map fun v => (n, v)).lookup key =
      if key ∈ names then get key else none := by
  induction names with
  | nil => simp
  | cons n names ih =>
    by_cases hn : key = n
    · subst hn
      cases hget : get key with
      | none => simp [hget, ih]
      | some v => simp [hget]
    · have hne : (key == n) = false := by simpa using hn
      cases hget : get n with
      | none => simp [hget, ih, hn]
      | some v => simp [hget, ih, hn, hne, List.lookup_cons]

theorem mem_childEnv {x : ShellExecutor} {allowed : List String}
    {overrides : List (String × String)} :
    ∀ kv ∈ x.childEnv allowed overrides, kv.1 ∈ allowed := by
  intro kv hkv
  rcases List.mem_append.1 hkv with hkv | hkv
  · obtain ⟨n, hn, hget⟩ := List.mem_filterMap.1 hkv
    obtain ⟨v, -, rfl⟩ := Option.map_eq_some_iff.1 hget
    exact hn
  · simpa using (List.mem_filter.1 hkv).2

/-- **The value of a variable in the child**: for an allowed one the last override, or else the
value of `shell_environment`. -/
theorem lastValue_childEnv {x : ShellExecutor} {allowed : List String}
    {overrides : List (String × String)} {key : String} :
    lastValue (x.childEnv allowed overrides) key =
      if key ∈ allowed then (lastValue overrides key).or (x.baselineEnv.get key) else none := by
  rw [ShellExecutor.childEnv, lastValue_append]
  simp only [lastValue, ← List.filter_reverse, ← List.filterMap_reverse, lookup_filterMap_get,
    lookup_filter fun name => allowed.contains name, List.mem_reverse, List.contains_iff_mem]
  by_cases hkey : key ∈ allowed
  · simp [hkey]
  · simp [hkey]

/-! ### The child of each attempt -/

/-- The command that attempt `a` of a dispatch spawns. -/
def ExecutorBundle.spawnedAt (b : ExecutorBundle) (spec : JobSpec) (extras : DispatchExtras)
    (w : DispatchWorld) (a : ℕ) : Option ShellCommand :=
  match spec.kind with
  | .http .. => none
  | .exec argv allowed =>
    (b.shell.execute argv allowed extras.envOverrides (w.attempt a).shell).spawned

variable {b : ExecutorBundle} {spec : JobSpec} {w : DispatchWorld}

/-- The spawned command: the assignments are those of `childEnv`, and whether it is spawned does
not depend on the overrides. -/
theorem spawnedAt_eq_some {extras : DispatchExtras} {a : ℕ} {cmd : ShellCommand}
    {argv allowed : List String} (hkind : spec.kind = .exec argv allowed)
    (h : b.spawnedAt spec extras w a = some cmd) :
    cmd.env = b.shell.childEnv allowed extras.envOverrides ∧ ∀ extras' : DispatchExtras,
      b.spawnedAt spec extras' w a =
        some { cmd with env := b.shell.childEnv allowed extras'.envOverrides } := by
  simp only [ExecutorBundle.spawnedAt, hkind] at h ⊢
  cases argv with
  | nil => cases h
  | cons program args =>
    simp only [ShellExecutor.execute, ShellExecutor.runProgram] at h ⊢
    cases hspawn : spawnLoop (w.attempt a).shell.spawn 5 0 with
    | error e =>
      rw [hspawn] at h
      cases h
    | ok u =>
      rw [hspawn] at h
      obtain rfl := Option.some.inj h
      exact ⟨rfl, fun _ => rfl⟩

/-! ### What a dispatch works with -/

/-- A dispatch works with the job and the overrides of its run. -/
def Pc.Loyal : Pc → Prop
  | .dispatching run _ d => d.spec = run.spec ∧ d.extras = run.extras
  | _ => True

variable {c : Crates}

theorem loyal_kept : Pc.Kept c b Pc.Loyal where
  next := by
    intro m pc w e h he
    have hgoes := step_goes he
    generalize e.next = next at hgoes ⊢
    cases hgoes with
    | fetchCron run cancel => exact ⟨rfl, rfl⟩
    | advance run cancel d d' hd =>
      obtain ⟨hspec, hextras, -⟩ := Dispatch.step_fixed hd
      exact ⟨hspec.trans h.1, hextras.trans h.2⟩
    | _ => trivial
  spawn := by
    intro m pc w e _ he v p hv
    rcases (step_does he).spawn_cases hv with ⟨spec, todo, reply, expr, -, -, -, -, rfl⟩ |
      ⟨run, cancel, rfl, -, -, rfl⟩
    · trivial
    · exact ⟨rfl, rfl⟩
  notify := by
    intro pc h ns
    cases pc with
    | dispatching run cancel d =>
      simp only [Pc.notify]
      split_ifs
      · exact h
      · exact h
    | _ => trivial

/-! ### Requests -/

variable {k : UriCrates} {st : AppState}

/-- The scheduler call that a handler makes to start a run. -/
def AppState.triggerOf (st : AppState) : Handler → Option Call
  | .executeJob group job params =>
    if (st.refusedOverride params).isSome then none
    else some (.triggerNow ⟨group, job⟩ ⟨params⟩)
  | _ => none

theorem extract_executeJob {query : Option String} {ep : Endpoint} {group job : String}
    {params : List (String × String)}
    (h : st.extract k query ep = .ok (.executeJob group job params)) :
    params = k.formUrlencoded (query.getD "") := by
  cases ep with
  | executeJob rawGroup rawJob =>
    obtain ⟨g, -, h⟩ := bind_eq_ok h
    obtain ⟨j, -, h⟩ := bind_eq_ok h
    obtain ⟨pairs, hpairs, h⟩ := bind_eq_ok h
    cases h
    simp only [AppState.boundedQuery] at hpairs
    split_ifs at hpairs
    exact (Except.ok.inj hpairs).symm
  | stopJob rawGroup rawJob =>
    obtain ⟨g, -, h⟩ := bind_eq_ok h
    obtain ⟨j, -, h⟩ := bind_eq_ok h
    cases h
  | reloadJobs raw =>
    obtain ⟨g, -, h⟩ := bind_eq_ok h
    cases h
  | jobsGroup raw =>
    obtain ⟨g, -, h⟩ := map_eq_ok h
    cases h
  | runningGroup raw =>
    obtain ⟨g, -, h⟩ := map_eq_ok h
    cases h
  | _ => cases h

theorem route_executeJob {req : Request} {group job : String} {params : List (String × String)}
    (h : st.route k req = .ok (.executeJob group job params)) :
    params = k.formUrlencoded (req.query.getD "") := by
  simp only [AppState.route] at h
  split at h
  · cases h
  split at h
  · split at h <;> cases h
  split at h
  · cases h
  split at h
  · exact extract_executeJob h
  · cases h

theorem refusedOverride_of_dangerous (hsafe : st.cfg.security.allowDangerousEnvOverrides = false)
    {params : List (String × String)} {key key' : String} (hkey : isDangerousEnv key = true)
    (hcase : eqIgnoreAsciiCase key'.toList key.toList = true) (hmem : key' ∈ params.map (·.1)) :
    (st.refusedOverride params).isSome = true := by
  obtain ⟨kv, hkv, rfl⟩ := List.mem_map.1 hmem
  have hdangerous : isDangerousEnv kv.1 = true :=
    (isDangerousEnv_of_eqIgnoreAsciiCase hcase).trans hkey
  simp only [AppState.refusedOverride, hsafe, Bool.false_eq_true, if_false, Option.isSome_map,
    List.find?_isSome]
  exact ⟨kv, hkv, hdangerous⟩

/-- Every `trigger_now` call is what `execute_job` does for a request; `origin` is the request that
the task of a call serves. -/
def AppState.FromRequests (st : AppState) (k : UriCrates) (origin : TaskId → Request) (s : Sched)
    (a : Act) : Prop :=
  ∀ key extras, a = .call (.triggerNow key extras) →
    ∃ h, st.route k (origin s.mem.fresh) = .ok h ∧
      st.triggerOf h = some (.triggerNow key extras)

theorem triggerOf_eq_some {h : Handler} {key : JobKey} {extras : DispatchExtras} {req : Request}
    (hroute : st.route k req = .ok h) (hcall : st.triggerOf h = some (.triggerNow key extras)) :
    let query := k.formUrlencoded (req.query.getD "")
    st.route k req = .ok (.executeJob key.group key.name query) ∧ extras = ⟨query⟩ ∧
      st.refusedOverride query = none := by
  cases h with
  | executeJob group job params =>
    simp only [AppState.triggerOf] at hcall
    split_ifs at hcall with hrefused
    obtain rfl := route_executeJob hroute
    cases hcall
    exact ⟨hroute, rfl, by simpa using hrefused⟩
  | _ => cases hcall

theorem lastValue_of_not_refused (hsafe : st.cfg.security.allowDangerousEnvOverrides = false)
    {params : List (String × String)} (h : st.refusedOverride params = none) {key : String}
    (hkey : isDangerousEnv key = true) : lastValue params key = none := by
  rw [lastValue, List.lookup_eq_none_iff]
  intro kv hkv
  simp only [AppState.refusedOverride, hsafe, Bool.false_eq_true, if_false, Option.map_eq_none_iff,
    List.find?_eq_none] at h
  have hne : ¬ key = kv.1 := by
    rintro rfl
    exact h kv (List.mem_reverse.1 hkv) hkey
  simpa using hne

/-- The request that the task of a `trigger_now` call serves makes this call. -/
theorem route_of_asked {origin : TaskId → Request} {as : List Act} {s : Sched}
    (hruns : (schedMachine c b).Runs (st.FromRequests k origin) Sched.init as s) {u : TaskId}
    {key : JobKey} {extras : DispatchExtras} (h : (u, .triggerNow key extras) ∈ asked c b as) :
    ∃ handler, st.route k (origin u) = .ok handler ∧
      st.triggerOf handler = some (.triggerNow key extras) := by
  let I (_ : Sched) (calls : List (TaskId × Call)) := ∀ u key extras,
    (u, Call.triggerNow key extras) ∈ calls → ∃ handler, st.route k (origin u) = .ok handler ∧
      st.triggerOf handler = some (.triggerNow key extras)
  refine hruns.outputs_invariant (I := I) Sched.asked [] (by rintro u key extras ⟨⟩) ?_ u key
    extras h
  intro s a s' calls hI hfrom _ u key extras hmem
  rcases List.mem_append.1 hmem with hold | hnew
  · exact hI u key extras hold
  · cases a with
    | call api =>
      obtain ⟨rfl, rfl⟩ := Prod.mk.inj (List.mem_singleton.1 hnew)
      exact hfrom key extras rfl
    | run | clock => cases hnew

/-- Along a run whose `trigger_now` calls come from requests, a manual dispatch works with the query
of the request that is served by the task that began its run. -/
theorem manual_of_request {origin : TaskId → Request} {as : List Act} {s : Sched} {t : TaskId}
    {run : Run} {cancel : NotifyId} {d : Dispatch}
    (hruns : (schedMachine c b).Runs (st.FromRequests k origin) Sched.init as s)
    (ht : s.tasks t = some (.dispatching run cancel d)) (hmanual : run.origin = .manual) :
    ∃ u, let query := k.formUrlencoded ((origin u).query.getD "")
      (run.mine, .began u) ∈ milestones c b as ∧
      (u, .triggerNow run.key ⟨query⟩) ∈ asked c b as ∧
      st.route k (origin u) = .ok (.executeJob run.key.group run.key.name query) ∧
      st.refusedOverride query = none ∧ d.spec = run.spec ∧ d.extras = ⟨query⟩ := by
  obtain ⟨u, hbegan, hcall⟩ := manual_of_asked (Machine.run_of_runs hruns) ht rfl hmanual
  obtain ⟨handler, hroute, htrigger⟩ := route_of_asked hruns hcall
  obtain ⟨hexecute, hquery, hrefused⟩ := triggerOf_eq_some hroute htrigger
  obtain ⟨hspec, hextras⟩ : d.spec = run.spec ∧ d.extras = run.extras :=
    loyal_kept.runs hruns (fun _ call _ => by cases call <;> trivial) (by rintro _ _ ⟨⟩) t _ ht
  exact ⟨u, hbegan, hquery ▸ hcall, hexecute, hrefused, hspec, hextras.trans hquery⟩

/-- **The environment of a manual run.**  Whatever the tasks of the scheduler do, a manual run in
progress was begun by the task of a request for its key, and in each of its attempts the child has
allowed variables only, each with the last value of the query of this request, or else the one of
`shell_environment`; a variable of the blacklist has the value that it has with an empty query, and
a request that carries one, in any letter case, starts no run. -/
theorem child_env_of_request {env : ProcEnv} :
    (∀ origin as s,
      (schedMachine c (st.cfg.bundle env)).Runs (st.FromRequests k origin) Sched.init as s →
      ∀ t run cancel d, s.tasks t = some (.dispatching run cancel d) → run.origin = .manual →
      ∃ u, let query := k.formUrlencoded ((origin u).query.getD "")
        (run.mine, .began u) ∈ milestones c (st.cfg.bundle env) as ∧
        (u, .triggerNow run.key ⟨query⟩) ∈ asked c (st.cfg.bundle env) as ∧
        st.route k (origin u) = .ok (.executeJob run.key.group run.key.name query) ∧
        ∀ argv allowed, run.spec.kind = .exec argv allowed → ∀ a cmd,
          (st.cfg.bundle env).spawnedAt d.spec d.extras d.world a = some cmd →
          (∀ kv ∈ cmd.env, kv.1 ∈ allowed) ∧
          (∀ key ∈ allowed, cmd.valueOf key =
            (lastValue query key).or (st.cfg.shellEnvironment.get key)) ∧
          (st.cfg.security.allowDangerousEnvOverrides = false → ∀ key, isDangerousEnv key = true →
            ((st.cfg.bundle env).spawnedAt d.spec ⟨[]⟩ d.world a).map (·.valueOf key) =
              some (cmd.valueOf key))) ∧
    (st.cfg.security.allowDangerousEnvOverrides = false → ∀ params key key',
      isDangerousEnv key = true → eqIgnoreAsciiCase key'.toList key.toList = true →
      key' ∈ params.map (·.1) → ∀ m group job,
        (st.executeJob m group job params).1 = m ∧
          ∃ e, (st.executeJob m group job params).2 = .error e) := by
  constructor
  · intro origin as s hruns t run cancel d ht hmanual
    obtain ⟨u, hbegan, hcall, hexecute, hrefused, hspec, hextras⟩ :=
      manual_of_request hruns ht hmanual
    refine ⟨u, hbegan, hcall, hexecute, ?_⟩
    intro argv allowed hkind a cmd hcmd
    rw [← hspec] at hkind
    obtain ⟨henv, hempty⟩ := spawnedAt_eq_some hkind hcmd
    rw [hextras] at henv
    have hvalue (key : String) : cmd.valueOf key = if key ∈ allowed then
        (lastValue (k.formUrlencoded ((origin u).query.getD "")) key).or
          (st.cfg.shellEnvironment.get key) else none := by
      rw [ShellCommand.valueOf, henv, lastValue_childEnv]
      rfl
    refine ⟨?_, ?_, ?_⟩
    · rw [henv]
      exact mem_childEnv
    · intro key hkey
      rw [hvalue, if_pos hkey]
    · intro hsafe key hkey
      rw [hempty, Option.map_some, hvalue, lastValue_of_not_refused hsafe hrefused hkey,
        ShellCommand.valueOf, lastValue_childEnv]
      rfl
  · intro hsafe params key key' hkey hcase hmem m group job
    have hrefused := refusedOverride_of_dangerous hsafe hkey hcase hmem
    obtain ⟨var, hvar⟩ := Option.isSome_iff_exists.1 hrefused
    simp only [AppState.executeJob, hvar]
    exact ⟨trivial, _, rfl⟩

/-- A server whose `shell_environment` has `MODE=full`. -/
def modeState : AppState :=
  { demoState "nightly" with
    cfg := { AppConfig.default with shellEnvironment := .singleton "MODE" "full" } }

/-- `form_urlencoded::parse` on the query of the request. -/
def modeUri : UriCrates :=
  { demoUri with
    formUrlencoded := fun q =>
      if q = "MODE=fast&MODE=slow" then [("MODE", "fast"), ("MODE", "slow")] else [] }

/-- `POST /execute/nightly/backup?MODE=fast&MODE=slow`. -/
def modeRequest : Request :=
  { demoPost "/execute/nightly/backup" with query := some "MODE=fast&MODE=slow" }

/-- `backup.sh`, which may be given `MODE`. -/
def modeSpec : JobSpec := { demoSpec with kind := .exec ["/opt/backup.sh"] ["MODE"] }

/-- Register the job and serve the request, up to the dispatch. -/
def modeSteps : List Act :=
  .call (.register modeSpec) :: List.replicate 4 (.run 0 (demoWorld .timeout)) ++
    .call (.triggerNow modeSpec.key ⟨[("MODE", "fast"), ("MODE", "slow")]⟩) ::
      List.replicate 4 (.run 3 (demoWorld .timeout))

/-- The scheduler after them. -/
def modeSched : Sched :=
  ((schedMachine noCrates (modeState.cfg.bundle fun _ => none)).run Sched.init
    modeSteps).getD Sched.init

/-- The child of the first attempt sees `MODE=slow`, the last of the two values. -/
theorem child_env_of_request_mode :
    ∃ run cancel d cmd, modeSched.tasks 5 = some (.dispatching run cancel d) ∧
      (modeState.cfg.bundle fun _ => none).spawnedAt d.spec d.extras d.world 1 = some cmd ∧
      cmd.valueOf "MODE" = some "slow" := by
  have hrun : (schedMachine noCrates (modeState.cfg.bundle fun _ => none)).run Sched.init
      modeSteps = some modeSched := eq_some_getD (by decide)
  obtain ⟨run, cancel, d, ht, hmanual, hkind, cmd, hcmd⟩ : ∃ run cancel d,
      modeSched.tasks 5 = some (.dispatching run cancel d) ∧ run.origin = .manual ∧
        run.spec.kind = .exec ["/opt/backup.sh"] ["MODE"] ∧ ∃ cmd,
          (modeState.cfg.bundle fun _ => none).spawnedAt d.spec d.extras d.world 1 = some cmd :=
    ⟨_, _, _, rfl, rfl, rfl, _, rfl⟩
  have hroute : modeState.route modeUri modeRequest =
      .ok (.executeJob "nightly" "backup" [("MODE", "fast"), ("MODE", "slow")]) := by rfl
  have hfrom : ∀ s, ∀ a ∈ modeSteps, True →
      modeState.FromRequests modeUri (fun _ => modeRequest) s a := by
    rintro s a ha - key extras rfl
    obtain ⟨rfl, rfl⟩ : key = modeSpec.key ∧
        extras = ⟨[("MODE", "fast"), ("MODE", "slow")]⟩ := by
      simpa [modeSteps] using ha
    exact ⟨_, hroute, by rfl⟩
  obtain ⟨u, -, -, -, hchild⟩ := (@child_env_of_request noCrates modeUri modeState
    (fun _ => none)).1 _ _ _ ((Machine.runs_of_run hrun).imp_mem hfrom) 5 run cancel d ht hmanual
  refine ⟨run, cancel, d, cmd, ht, hcmd, ?_⟩
  rw [(hchild _ _ hkind 1 cmd hcmd).2.1 "MODE" (by decide)]
  decide

end CronManager

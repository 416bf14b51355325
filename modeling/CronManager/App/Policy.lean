import CronManager.App.Step
import CronManager.Executor.Preconditions
import CronManager.Scheduler.Firing

/-!
# What a served process works with

Jobs reach the scheduler through the load of `main` and through those behind reload requests, and
all of them run under the one policy that is built from the configuration.  So whatever the trees
on the disk look like by then, and however the tasks interleave, what is registered, what loops and
what runs was accepted under that policy.

* `Accepted` : the loader accepts the job under a policy;
* `sound_served` : every job that the process works with is accepted;
* `served_loops` : so no expression fails to parse, and every registered cron job has its own loop
  for as long as its schedule has instants;
* `served_jobs_accepted` : hence every second check of the executors passes, no dispatch records
  more rows than the cap of the configuration allows, and a private address is targeted only
  through a domain whose pre-flight lookup listed no refused one.
-/

namespace CronManager

open Rust

/-- The loader accepts the job under the policy, from some file and in some environment. -/
def Accepted (c : Crates) (policy : LoadPolicy) (spec : JobSpec) : Prop :=
  ∃ (env : ProcEnv) (raw : RawJob) (source : String) (key : JobKey),
    raw.intoSpec c env policy source key = .ok spec

/-- The policy of every load of the process. -/
def Booted.policy (b : Booted) : LoadPolicy := b.state.cfg.security.loadPolicy b.environment

variable {k : UriCrates} {c : Crates} {b : Booted} {a : App} {es : List Event}
  {jobs : List LoadedJob} {env : ProcEnv} {cfg : AppConfig} {w : BootWorld} {policy : LoadPolicy}
  {spec : JobSpec}

/-! ### Every job is accepted -/

theorem accepted_of_load {root : OsStr} {secs : ℕ} {load : LoadEnd}
    (h : loadAllBounded c env policy root secs load = .ok jobs) :
    ∀ job ∈ jobs, Accepted c policy job.spec := by
  intro job hjob
  cases load with
  | finished tree =>
    obtain ⟨f, -, hf⟩ := mem_loadAll h hjob
    obtain ⟨raw, key, hspec⟩ := mem_jobs_intoSpec hf
    exact ⟨env, raw, f.path root, key, hspec⟩
  | timedOut => cases h
  | panicked e => cases h

/-- Every call of the process hands over accepted jobs only. -/
theorem accepted_acts (hboots : Boots c b env cfg w jobs) :
    ∀ act ∈ appActs k c b jobs es, ∀ spec ∈ act.specs, Accepted c b.policy spec := by
  intro act hact spec hspec
  cases act with
  | call api =>
    rcases call_of_acts hact with rfl | ⟨req, now, -, hcall⟩ | ⟨env', load, jobs', -, hload, rfl⟩
    · obtain ⟨job, hjob, rfl⟩ := List.mem_map.1 hspec
      exact accepted_of_load hboots.load job hjob
    · -- no request hands over jobs: only a load does
      rcases requestCall_eq_some hcall with ⟨group, job, params, -, -, rfl⟩ | ⟨group, job, -, rfl⟩
      · cases hspec
      · cases hspec
    · obtain ⟨job, hjob, rfl⟩ := List.mem_map.1 hspec
      exact accepted_of_load hload job hjob
  | run t w' => cases hspec
  | clock now => cases hspec

/-- **The process works with accepted jobs only**, each under its own key. -/
theorem sound_served (hboots : Boots c b env cfg w jobs)
    (hrun : (appMachine k c b).run (.start jobs) es = some a) :
    a.sched.Sound c b.bundle (Accepted c b.policy) :=
  sound_of_specs (sched_run hrun) (accepted_acts hboots)

/-! ### What follows for the loops -/

theorem Accepted.parses {expr : String} (h : Accepted c policy spec)
    (htrigger : spec.trigger = .cron expr) : c.cronFromStr expr = .ok () := by
  obtain ⟨env, raw, source, key, hspec⟩ := h
  obtain ⟨-, -, hcron, -⟩ := intoSpec_ok hspec
  rw [htrigger, checkCron] at hcron
  split at hcron
  · assumption
  · cases hcron

/-- **Every cron job of a served process keeps its loop.**  In every state that a process comes to,
through any requests and reloads, the task in the entry of a registered cron job runs the loop of
this very entry, unless at some moment its schedule had no further instant. -/
theorem served_loops {key : JobKey} {job : RegisteredJob} {expr : String}
    (hboots : Boots c b env cfg w jobs)
    (hrun : (appMachine k c b).run (.start jobs) es = some a)
    (hjob : a.sched.mem.jobs.lookup key = some job) (htrigger : job.spec.trigger = .cron expr) :
    ∃ u, job.task = some u ∧ (a.sched.LiveLoop u ⟨job.spec, expr, job.state⟩ ∨
      a.sched.tasks u = some .ended ∧ (schedMachine c b.bundle).During Sched.init
        (appActs k c b jobs es) fun s => c.cronUpcoming expr s.mem.now = none) := by
  obtain ⟨u, htask, hserved⟩ := registered_loops (sched_run hrun) hjob htrigger
  refine ⟨u, htask, hserved.imp_right fun ⟨hended, hover⟩ => ⟨hended, hover.resolve_left ?_⟩⟩
  rintro ⟨e, he⟩
  rw [((sound_served hboots hrun).jobs key job hjob).1.parses htrigger] at he
  cases he

/-! ### What follows for the executors -/

theorem Accepted.covered (p : MethodFunctions c) (h : Accepted c policy spec) :
    ExecutorsCovered c policy spec := by
  obtain ⟨env, raw, source, key, hspec⟩ := h
  exact executorsCovered_of_intoSpec p hspec

/-- A dispatch records at most one row for each attempt that the retry cap allows. -/
theorem rows_length_le {bundle : ExecutorBundle} {extras : DispatchExtras} {w : DispatchWorld}
    (h : Accepted c policy spec) :
    (bundle.dispatch c spec extras w).rows.length ≤ policy.maxRetryCount.toNat + 1 := by
  obtain ⟨env, raw, source, key, hspec⟩ := h
  obtain ⟨hcount, hcap⟩ := intoSpec_retry_count hspec
  cases hoff : bundle.offlineMode with
  | true =>
    simp only [ExecutorBundle.dispatch, hoff, if_true, offlineStub, List.length_singleton]
    omega
  | false =>
    obtain ⟨-, hlen, -, -, hrows, -⟩ := @dispatch_rows c bundle spec extras w hoff
    have hmax : spec.retry.maxAttempts ≤ spec.retry.count.toNat + 1 := by
      rw [RetryPolicy.maxAttempts, UInt32.toNat_add]
      exact Nat.mod_le _ _
    rw [hcount] at hmax
    omega

/-- **Where an accepted HTTP job can connect.**  A target that is private was found through a
domain, and the pre-flight of the same attempt looked that domain up and got no refused address. -/
theorem Accepted.private_target {x : HttpExecutor} {method url : String}
    {headers : List HttpHeader} {w : HttpWorld} {req : HttpRequest} {ip : IpAddr}
    (h : Accepted c policy spec) (hkind : spec.kind = .http method url headers)
    (hpolicy : policy.blockPrivateNetworks = true) (hx : x.blockPrivateNetworks = true)
    (hsent : (x.execute c method url headers w).sent = some req) (hip : ip ∈ req.targets)
    (hprivate : isPrivateOrLocal ip = true) :
    ∃ u d addrs, c.urlParse url = .ok u ∧ u.host = some (.domain d) ∧
      w.lookup (lookupTarget u d.text) = .ok addrs ∧ x.listsRefused d.text addrs = false := by
  obtain ⟨env, raw, source, key, hspec⟩ := h
  obtain ⟨-, hurl, -⟩ := intoSpec_http hspec hkind
  obtain ⟨u, host, hu, -, hhost, hliteral⟩ := validateHttpUrl_ok hurl
  have hpublic : host.literal = none := by
    by_contra hsome
    obtain ⟨ip', hlit⟩ := Option.ne_none_iff_exists'.1 hsome
    rw [targets_literal hu hhost hlit hsent hip, hliteral hpolicy ip' hlit] at hprivate
    cases hprivate
  cases host with
  | domain d =>
    obtain ⟨m, hs, -, hpre, -⟩ := (prepare_eq_ok hu).1 (sent_eq_some.1 hsent)
    rw [HttpExecutor.preflight, if_pos hx, rejectPrivateDns_eq_ok hu hhost] at hpre
    rcases hpre with ⟨v4, hv4⟩ | ⟨addrs, hlookup, hrefused⟩
    · cases hv4
    · exact ⟨u, d, addrs, hu, hhost, hlookup, hrefused⟩
  | ipv4 v4 => cases hpublic
  | ipv6 v6 => cases hpublic

/-- **What a served process works with.**  In every state that a process comes to, from the load of
`main` on and through any number of reloads, whatever is on the disk by then: the registered jobs,
those of the loops and those of the runs pass every second check of the executors; a dispatch has
recorded at most one row more than the cap on retries; and with `block_private_networks` on, a
request targets a private address only through a domain whose pre-flight lookup, in the same
attempt, listed no refused one. -/
theorem served_jobs_accepted (p : MethodFunctions c) (hboots : Boots c b env cfg w jobs)
    (hrun : (appMachine k c b).run (.start jobs) es = some a) :
    (∀ key job, a.sched.mem.jobs.lookup key = some job →
        job.spec.key = key ∧ ExecutorsCovered c b.policy job.spec) ∧
      (∀ t pc l, a.sched.tasks t = some pc → pc.loopOf = some l →
        ExecutorsCovered c b.policy l.spec) ∧
      ∀ t run cancel d, a.sched.tasks t = some (.dispatching run cancel d) →
        run.spec.key = run.key ∧ ExecutorsCovered c b.policy run.spec ∧
        d.rows.length ≤ cfg.security.maxRetryCount.toNat + 1 ∧
        (cfg.security.blockPrivateNetworks = true →
          ∀ method url headers, run.spec.kind = .http method url headers → ∀ n req,
          (b.bundle.http.execute c method url headers (d.world.attempt n).http).sent = some req →
          ∀ ip ∈ req.targets, isPrivateOrLocal ip = true →
            ∃ u dn addrs, c.urlParse url = .ok u ∧ u.host = some (.domain dn) ∧
              (d.world.attempt n).http.lookup (lookupTarget u dn.text) = .ok addrs ∧
              b.bundle.http.listsRefused dn.text addrs = false) := by
  obtain ⟨hstate, hbundle, -⟩ := boot_fields hboots.boot
  have hsecurity : b.state.cfg.security = cfg.security := by rw [hstate, cfg_appState]
  have hsound := sound_served hboots hrun
  refine ⟨?_, ?_, ?_⟩
  · intro key job hjob
    obtain ⟨haccepted, hkey⟩ := hsound.jobs key job hjob
    exact ⟨hkey, haccepted.covered p⟩
  · intro t pc l ht hloop
    exact (hsound.of_loopOf ht hloop).covered p
  · intro t run cancel d ht
    obtain ⟨hrunSound, hof⟩ := hsound.tasks t _ ht
    refine ⟨hrunSound.key, hrunSound.spec.covered p, ?_, ?_⟩
    · refine hof.prefix_rows.length_le.trans ?_
      have hlen := @rows_length_le c b.policy run.spec b.bundle run.extras d.world hrunSound.spec
      simpa only [Booted.policy, SecurityConfig.loadPolicy, hsecurity] using hlen
    · intro hblock method url headers hkind n req hsent ip hip hprivate
      have hpolicy : b.policy.blockPrivateNetworks = true := by
        simp only [Booted.policy, SecurityConfig.loadPolicy, hsecurity, hblock]
      have hx : b.bundle.http.blockPrivateNetworks = true := by
        rw [hbundle]
        exact hblock
      exact hrunSound.spec.private_target hkind hpolicy hx hsent hip hprivate

/-! ### A process that has loaded one job -/

theorem boots_of_isOk (hok : (boot c env cfg w).isOk = true)
    (hload : (cfg.appState env).loadJobs c env (.fromEnv env) w.load = .ok jobs) :
    Boots c ⟨cfg.appState env, cfg.bundle env, .fromEnv env,
      ⟨Shared.init.registerAll (jobs.map (·.spec)), ∅⟩⟩ env cfg w jobs := by
  cases hboot : boot c env cfg w with
  | error e =>
    rw [hboot] at hok
    cases hok
  | ok b =>
    obtain ⟨hstate, hbundle, henvironment⟩ := boot_fields hboot
    obtain ⟨jobs', hboots, hserver⟩ := boots_of_boot hboot
    obtain ⟨state, bundle, environment, server⟩ := b
    simp only at hstate hbundle henvironment hserver
    subst hstate hbundle henvironment
    obtain rfl := Except.ok.inj (hboots.load.symm.trans hload)
    subst hserver
    exact hboots

/-- The boot of a process whose `dsl_path` holds one file. -/
def pingBoot : BootWorld where
  client := .ok ()
  load := .finished (some (.dir (bytes "DSL".toList) none
    [.file (bytes "probe.yaml".toList) (.ok getBody.utf8ByteSize) (.ok getBody)]))
  listen := .ok ()

/-- What it serves with. -/
def pingBooted : Booted where
  state := AppConfig.default.appState demoEnv
  bundle := AppConfig.default.bundle demoEnv
  environment := .fromEnv demoEnv
  server := ⟨Shared.init.registerAll [getJob.spec], ∅⟩

/-- The job of the file. -/
def pingJobs : List LoadedJob := [{ getJob with sourcePath := "./DSL/probe.yaml" }]

theorem boots_ping : Boots getCrates pingBooted demoEnv .default pingBoot pingJobs :=
  @boots_of_isOk getCrates pingJobs demoEnv .default pingBoot (by decide +kernel)
    (by decide +kernel)

/-- A `POST` with the admin token of `demoEnv`. -/
def adminPost (path : String) : Request :=
  ⟨.post, path, none, some (bytes "Bearer 7f3b9c1e5a8d4e6fb2a0c4d8e1f37a95".toList), none⟩

/-- Every attempt looks the host up and is answered `8.8.8.8`, and the client's own lookup is
answered `127.0.0.1`. -/
def pingRebound : DispatchWorld where
  __ := demoWorld .timeout
  attempt a := { (demoWorld .timeout).attempt a with http := pingWorld ⟨127, 0, 0, 1⟩ }

/-- `main` registers the job, and a request starts it. -/
def pingEvents : List Event :=
  List.replicate 4 (.run 0 pingRebound) ++ .request (adminPost "/execute/probe/ping") 0 ::
    List.replicate 4 (.run 3 pingRebound)

/-- The process after them. -/
def pingApp : App :=
  ((appMachine demoUri getCrates pingBooted).run (.start pingJobs) pingEvents).getD (.start [])

theorem run_ping : (appMachine demoUri getCrates pingBooted).run (.start pingJobs) pingEvents =
    some pingApp := eq_some_getD (by decide +kernel)

/-- The client of the run in progress would be sent to `127.0.0.1`, by a domain that was looked up
before. -/
theorem served_jobs_accepted_ping :
    ∃ run cancel d, pingApp.sched.tasks 5 = some (.dispatching run cancel d) ∧
      ∃ u dn addrs, getCrates.urlParse "http://rebind.example/" = .ok u ∧
        u.host = some (.domain dn) ∧
        (d.world.attempt 1).http.lookup (lookupTarget u dn.text) = .ok addrs ∧
        pingBooted.bundle.http.listsRefused dn.text addrs = false := by
  obtain ⟨run, cancel, d, ht, hkind, req, hsent, htargets⟩ : ∃ run cancel d,
      pingApp.sched.tasks 5 = some (.dispatching run cancel d) ∧
        run.spec.kind = .http "get" "http://rebind.example/" [] ∧ ∃ req,
          (pingBooted.bundle.http.execute getCrates "get" "http://rebind.example/" []
            (d.world.attempt 1).http).sent = some req ∧ req.targets = [.v4 ⟨127, 0, 0, 1⟩] :=
    ⟨_, _, _, rfl, rfl, _, rfl, rfl⟩
  obtain ⟨-, -, -, hprivate⟩ :=
    (served_jobs_accepted getMethods boots_ping run_ping).2.2 5 run cancel d ht
  exact ⟨run, cancel, d, ht, hprivate rfl _ _ _ hkind 1 req hsent (.v4 ⟨127, 0, 0, 1⟩)
    (htargets ▸ List.mem_singleton_self _) (by decide)⟩

/-! ### A process that has loaded a cron job -/

/-- The crates for a file whose job fires every second. -/
def tickCrates : Crates where
  __ := getCrates
  yamlFromStr body :=
    if body = getBody then
      .ok (.singleton "ping" { pingRaw with method := some "get", trigger := .str "* * * * * *" })
    else .error "unused"
  cronFromStr _ := .ok ()
  cronUpcoming := everySecond.cronUpcoming

/-- The job of the file. -/
def tickJobs : List LoadedJob :=
  [{ getJob with
    spec := { getJob.spec with trigger := .cron "* * * * * *" }
    sourcePath := "./DSL/probe.yaml" }]

/-- What `main` serves with. -/
def tickBooted : Booted where
  state := AppConfig.default.appState demoEnv
  bundle := AppConfig.default.bundle demoEnv
  environment := .fromEnv demoEnv
  server := ⟨Shared.init.registerAll (tickJobs.map (·.spec)), ∅⟩

theorem boots_tick : Boots tickCrates tickBooted demoEnv .default pingBoot tickJobs :=
  @boots_of_isOk tickCrates tickJobs demoEnv .default pingBoot (by decide +kernel)
    (by decide +kernel)

/-- `main` registers the job, and its loop gets to its first sleep. -/
def tickEvents : List Event :=
  List.replicate 4 (.run 0 pingRebound) ++ List.replicate 3 (.run 2 pingRebound)

/-- The process after them. -/
def tickApp : App :=
  ((appMachine demoUri tickCrates tickBooted).run (.start tickJobs) tickEvents).getD (.start [])

theorem served_loops_tick :
    ∃ job, tickApp.sched.mem.jobs.lookup ⟨"probe", "ping"⟩ = some job ∧ ∃ u, job.task = some u ∧
      tickApp.sched.LiveLoop u ⟨job.spec, "* * * * * *", job.state⟩ := by
  have hrun : (appMachine demoUri tickCrates tickBooted).run (.start tickJobs) tickEvents =
      some tickApp := eq_some_getD (by decide +kernel)
  have hjob : ((tickApp.sched.mem.jobs.lookup ⟨"probe", "ping"⟩).map (·.spec.trigger)) =
      some (.cron "* * * * * *") := by decide +kernel
  obtain ⟨job, hlookup, htrigger⟩ := Option.map_eq_some_iff.1 hjob
  obtain ⟨u, htask, hserved⟩ := served_loops boots_tick hrun hlookup htrigger
  refine ⟨job, hlookup, u, htask, hserved.resolve_right ?_⟩
  rintro ⟨-, as, s, -, -, hnone⟩
  cases hnone

end CronManager

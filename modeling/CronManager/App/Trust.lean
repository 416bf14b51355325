import CronManager.App.Policy
import CronManager.Scheduler.Causes

/-!
# What a process does without a valid token

The process of a configuration that does not trust the network, over whole runs: requests of
anyone, tasks that interleave with them, and loads of whatever is on the disk.

* `unauthorized_erased` : a run is the same without the requests that have no valid token;
* `caller_of_asked` : each call of the scheduler is that of `main`, of a request, which the task of
  the call serves (`served`), or of a load;
* `effects_authorized` : whatever a request can bring about was brought about by an authorized one.
  A manual run has the key and the query of the authorized `/execute` served by the task that began
  it, a signal to a running instance was sent by the task of an authorized `/stop` of its own key or
  of a reload, and a registered job that `main` did not load comes from a reload; and every load
  has an authorized `/reload` of its own.
-/

namespace CronManager

open Rust

variable {k : UriCrates} {c : Crates} {b : Booted} {a a' : App} {ev : Event} {es : List Event}
  {jobs : List LoadedJob} {env : ProcEnv} {cfg : AppConfig} {w : BootWorld}

/-! ### Requests that leave no trace -/

/-- A request without a valid token. -/
def Event.Unauthorized (cfg : AppConfig) (env : ProcEnv) : Event → Prop
  | .request req _ => ¬ cfg.Authorized env req
  | _ => False

/-- A request without a valid token changes nothing. -/
theorem step_unauthorized (hboot : boot c env cfg w = .ok b)
    (htrust : cfg.admin.trustNetwork = false) (hev : ev.Unauthorized cfg env)
    (h : (appMachine k c b).step a ev = some a') : a' = a := by
  cases ev with
  | request req now =>
    simp only [appMachine] at h
    split at h
    · obtain rfl := Option.some.inj h
      cases hroute : b.state.route k req with
      | error r => rfl
      | ok handler =>
        cases handler with
        | readOnly ep => rfl
        | executeJob group job params => exact absurd (route_authorized hboot htrust hroute rfl) hev
        | stopJob group job => exact absurd (route_authorized hboot htrust hroute rfl) hev
        | reloadJobs group => exact absurd (route_authorized hboot htrust hroute rfl) hev
    · cases h
  | _ => exact hev.elim

open Classical in
/-- **Requests without a valid token are invisible.**  From any state of a process that does not
trust the network, any run ends in the very state in which it ends without them: they do not
register, start or stop anything, and do not use up the throttle of `/reload`. -/
theorem unauthorized_erased (hboot : boot c env cfg w = .ok b)
    (htrust : cfg.admin.trustNetwork = false) (hrun : (appMachine k c b).run a es = some a') :
    (appMachine k c b).run a (es.filter fun ev => ¬ ev.Unauthorized cfg env) = some a' := by
  refine Machine.run_filter (fun a ev a' hev h => ?_) hrun
  refine step_unauthorized hboot htrust ?_ h
  simpa using hev

/-- `main` registers its job, and then a request without a token asks for it. -/
def refusedEvents : List Event :=
  List.replicate 4 (.run 0 pingRebound) ++
    [.request { adminPost "/execute/probe/ping" with authorization := none } 0]

theorem unauthorized_erased_ping :
    ∃ a, (appMachine demoUri getCrates pingBooted).run (.start pingJobs) refusedEvents = some a ∧
      (appMachine demoUri getCrates pingBooted).run (.start pingJobs)
        (List.replicate 4 (.run 0 pingRebound)) = some a := by
  obtain ⟨a, hrun⟩ := Option.isSome_iff_exists.1 (show ((appMachine demoUri getCrates
    pingBooted).run (.start pingJobs) refusedEvents).isSome = true by decide +kernel)
  refine ⟨a, hrun, ?_⟩
  have herased := unauthorized_erased boots_ping.boot rfl hrun
  have hnot : ¬ AppConfig.default.Authorized demoEnv
      { adminPost "/execute/probe/ping" with authorization := none } := by
    rintro ⟨master, token, -, -, htoken, -⟩
    cases htoken
  simpa [refusedEvents, Event.Unauthorized, hnot] using herased

/-! ### Whose call it is -/

section

variable (k : UriCrates) (c : Crates) (b : Booted)

/-- The request whose call an event makes, with the task that serves it. -/
def App.served (a : App) : Event → List (TaskId × Request)
  | .request req _ => (b.state.requestCall k req).toList.map fun _ => (a.sched.mem.fresh, req)
  | _ => []

/-- The requests of a run of the process that have called the scheduler, with their tasks. -/
def served (jobs : List LoadedJob) (es : List Event) : List (TaskId × Request) :=
  (appMachine k c b).outputs (App.served k b) (.start jobs) es

end

/-- The end of a load. -/
def Event.isLoad : Event → Bool
  | .loaded _ _ => true
  | _ => false

/-- An authorized request reaches `reload_jobs`. -/
def Event.Reloads (k : UriCrates) (b : Booted) (cfg : AppConfig) (env : ProcEnv) (ev : Event) :
    Prop :=
  ∃ req now group, ev = .request req now ∧ cfg.Authorized env req ∧
    b.state.route k req = .ok (.reloadJobs group)

open Classical in
/-- These jobs are those of a load, and before it more authorized requests had reached `reload_jobs`
than loads had ended. -/
def LoadedFor (k : UriCrates) (c : Crates) (b : Booted) (cfg : AppConfig) (env : ProcEnv)
    (es : List Event) (loaded : List LoadedJob) : Prop :=
  ∃ es₁ env' load, es₁ ++ [.loaded env' load] <+: es ∧
    b.state.loadJobs c env' b.environment load = .ok loaded ∧
    es₁.countP Event.isLoad < es₁.countP fun ev => ev.Reloads k b cfg env

theorem asked_acts {a : App} {u : TaskId} {api : Call}
    (hrun : (appMachine k c b).run (.start jobs) es = some a)
    (h : (u, api) ∈ asked c b.bundle (appActs k c b jobs (es ++ [ev]))) :
    (u, api) ∈ asked c b.bundle (appActs k c b jobs es) ∨
      (u, api) ∈ (schedMachine c b.bundle).outputs Sched.asked a.sched (ev.acts k c b) := by
  have hacts : appActs k c b jobs (es ++ [ev]) = appActs k c b jobs es ++ ev.acts k c b := by
    simp only [appActs, List.flatMap_append, List.flatMap_singleton, List.cons_append]
  rw [asked, hacts, (Machine.runs_of_run (sched_run hrun)).outputs_append] at h
  exact List.mem_append.1 h

/-- **Whose call it is**: that of `main`, of the request that the task of the call serves, or of a
load. -/
theorem caller_of_asked (hrun : (appMachine k c b).run (.start jobs) es = some a) {u : TaskId}
    {api : Call} (h : (u, api) ∈ asked c b.bundle (appActs k c b jobs es)) :
    api = .registerAll (jobs.map (·.spec)) ∨
      (∃ req, (u, req) ∈ served k c b jobs es ∧ b.state.requestCall k req = some api) ∨
      ∃ env' load loaded, .loaded env' load ∈ es ∧
        b.state.loadJobs c env' b.environment load = .ok loaded ∧ api = .reloadFrom loaded := by
  refine (Machine.runs_of_run hrun).invariant_snoc (I := fun es _ => ∀ u api,
    (u, api) ∈ asked c b.bundle (appActs k c b jobs es) →
    api = .registerAll (jobs.map (·.spec)) ∨
      (∃ req, (u, req) ∈ served k c b jobs es ∧ b.state.requestCall k req = some api) ∨
      ∃ env' load loaded, .loaded env' load ∈ es ∧
        b.state.loadJobs c env' b.environment load = .ok loaded ∧ api = .reloadFrom loaded)
    ?_ ?_ u api h
  · intro u api hmem
    obtain ⟨-, rfl⟩ := Prod.mk.inj (List.mem_singleton.1 hmem)
    exact .inl rfl
  · intro es₁ a₁ ev a₂ hruns hI _ hs u api hmem
    have hserved : served k c b jobs (es₁ ++ [ev]) = served k c b jobs es₁ ++ a₁.served k b ev :=
      hruns.outputs_snoc
    rcases asked_acts (Machine.run_of_runs hruns) hmem with hold | hnew
    · refine (hI u api hold).imp_right (Or.imp ?_ ?_)
      · rintro ⟨req, hmem, hcall⟩
        exact ⟨req, hserved ▸ List.mem_append_left _ hmem, hcall⟩
      · rintro ⟨env', load, loaded, hmem, hload⟩
        exact ⟨env', load, loaded, List.mem_append_left _ hmem, hload⟩
    · cases ev with
      | request req now =>
        simp only [Event.acts] at hnew
        cases hcall : b.state.requestCall k req with
        | none =>
          rw [hcall] at hnew
          cases hnew
        | some api' =>
          rw [hcall] at hnew
          obtain ⟨rfl, rfl⟩ := Prod.mk.inj (List.mem_singleton.1 hnew)
          refine .inr (.inl ⟨req, ?_, hcall⟩)
          rw [hserved, App.served, hcall]
          exact List.mem_append_right _ List.mem_cons_self
      | loaded env' load =>
        simp only [Event.acts] at hnew
        split at hnew
        · cases hnew
        · rename_i loaded hload
          obtain ⟨-, rfl⟩ := Prod.mk.inj (List.mem_singleton.1 hnew)
          exact .inr (.inr ⟨env', load, loaded, by simp, hload, rfl⟩)
      | dropped => cases hnew
      | run t w' =>
        simp only [Event.acts, Machine.outputs, Sched.asked, List.nil_append] at hnew
        cases hstep : (schedMachine c b.bundle).step a₁.sched (.run t w') <;>
          rw [hstep] at hnew <;> cases hnew
      | clock now => cases hnew

/-! ### Reloads -/

open Classical in
/-- **No load without a request of its own**: the loads that have ended and those that requests
wait for are no more than the authorized requests that have reached `reload_jobs`. -/
theorem loads_le (hboot : boot c env cfg w = .ok b) (htrust : cfg.admin.trustNetwork = false)
    (hrun : (appMachine k c b).run (.start jobs) es = some a) :
    es.countP Event.isLoad + a.loading ≤ es.countP fun ev => ev.Reloads k b cfg env := by
  refine (Machine.runs_of_run hrun).invariant_snoc (I := fun es a =>
    es.countP Event.isLoad + a.loading ≤ es.countP fun ev => ev.Reloads k b cfg env)
    (le_refl 0) ?_
  intro es₁ a₁ ev a₂ _ hI _ hs
  rw [List.countP_append, List.countP_append, List.countP_singleton, List.countP_singleton]
  cases hgroup : ev.reloadGroup k b with
  | some group =>
    obtain ⟨req, now, rfl, hroute⟩ := reloadGroup_eq_some hgroup
    have hreloads : Event.Reloads k b cfg env (.request req now) :=
      ⟨req, now, group, rfl, route_authorized hboot htrust hroute rfl, hroute⟩
    have hle : a₂.loading ≤ a₁.loading + 1 := by
      simp only [appMachine, hroute] at hs
      split at hs
      · obtain rfl := Option.some.inj hs
        simp only [App.handle]
        split
        · exact Nat.le_succ _
        · exact le_refl _
      · cases hs
    simp only [Event.isLoad, hreloads, decide_true, if_true]
    simp only [Bool.false_eq_true, if_false]
    omega
  | none =>
    have hle : (if ev.isLoad then 1 else 0) + a₂.loading ≤ a₁.loading := by
      cases ev with
      | loaded env' load =>
        simp only [appMachine] at hs
        split at hs
        · rename_i hpos
          obtain rfl := Option.some.inj hs
          simp only [Event.isLoad, if_true]
          cases b.state.loadJobs c env' b.environment load with
          | error e => exact (Nat.add_comm _ _).trans_le (Nat.sub_add_cancel hpos).le
          | ok loaded => exact (Nat.add_comm _ _).trans_le (Nat.sub_add_cancel hpos).le
        · cases hs
      | request | dropped | run | clock =>
        have := (step_of_reloadGroup_none hgroup hs).2
        simp only [Event.isLoad, Bool.false_eq_true, if_false]
        omega
    omega

theorem loadedFor_of_mem (hboot : boot c env cfg w = .ok b)
    (htrust : cfg.admin.trustNetwork = false)
    (hrun : (appMachine k c b).run (.start jobs) es = some a) {env' : ProcEnv} {load : LoadEnd}
    {loaded : List LoadedJob} (hmem : Event.loaded env' load ∈ es)
    (hload : b.state.loadJobs c env' b.environment load = .ok loaded) :
    LoadedFor k c b cfg env es loaded := by
  obtain ⟨es₁, es₂, rfl⟩ := List.append_of_mem hmem
  obtain ⟨a₁, h₁, h₂⟩ := (Machine.runs_of_run hrun).split
  refine ⟨es₁, env', load, ⟨es₂, by simp⟩, hload, ?_⟩
  have hle := loads_le hboot htrust (Machine.run_of_runs h₁)
  -- a load ends only while a request waits for it
  cases h₂ with
  | cons _ hs _ =>
    simp only [appMachine] at hs
    split at hs
    · omega
    · cases hs

/-! ### Effects -/

theorem manual_authorized (hboot : boot c env cfg w = .ok b)
    (htrust : cfg.admin.trustNetwork = false)
    (hrun : (appMachine k c b).run (.start jobs) es = some a) {t : TaskId} {pc : Pc} {run : Run}
    (hpc : a.sched.tasks t = some pc) (hrunOf : pc.runOf = some run)
    (hmanual : run.origin = .manual) :
    ∃ u req query, (run.mine, .began u) ∈ milestones c b.bundle (appActs k c b jobs es) ∧
      (u, req) ∈ served k c b jobs es ∧ cfg.Authorized env req ∧
      b.state.route k req = .ok (.executeJob run.key.group run.key.name query) ∧
      b.state.refusedOverride query = none ∧ run.extras = ⟨query⟩ := by
  obtain ⟨u, hbegan, hasked⟩ := manual_of_asked (sched_run hrun) hpc hrunOf hmanual
  rcases caller_of_asked hrun hasked with hmain | ⟨req, hserved, hcall⟩ |
    ⟨env', load, loaded, -, -, hload⟩
  · cases hmain
  · rcases requestCall_eq_some hcall with ⟨group, job, query, hroute, hsafe, heq⟩ |
      ⟨group, job, -, heq⟩
    · obtain ⟨hkey, hextras⟩ := Call.triggerNow.inj heq
      rw [hkey]
      exact ⟨u, req, query, hbegan, hserved, route_authorized hboot htrust hroute rfl, hroute,
        hsafe, hextras⟩
    · cases heq
  · cases hload

theorem signal_authorized (hboot : boot c env cfg w = .ok b)
    (htrust : cfg.admin.trustNetwork = false)
    (hrun : (appMachine k c b).run (.start jobs) es = some a) {key : JobKey}
    {inst : RunningInstance} (hkey : a.sched.mem.running.lookup key = some inst) {u : TaskId}
    (hsent : (inst.cancel, u) ∈ signalled c b.bundle (appActs k c b jobs es)) :
    (∃ req, (u, req) ∈ served k c b jobs es ∧ cfg.Authorized env req ∧
        b.state.route k req = .ok (.stopJob key.group key.name)) ∨
      ∃ loaded, (u, .reloadFrom loaded) ∈ asked c b.bundle (appActs k c b jobs es) ∧
        LoadedFor k c b cfg env es loaded := by
  obtain ⟨api, hasked, hstops⟩ := (signal_of_asked (sched_run hrun) hkey).2 u hsent
  rcases caller_of_asked hrun hasked with rfl | ⟨req, hserved, hcall⟩ |
    ⟨env', load, loaded, hmem, hload, rfl⟩
  · exact hstops.elim
  · rcases requestCall_eq_some hcall with ⟨group, job, query, -, -, rfl⟩ |
      ⟨group, job, hroute, rfl⟩
    · exact hstops.elim
    · obtain rfl : (⟨group, job⟩ : JobKey) = key := hstops
      exact .inl ⟨req, hserved, route_authorized hboot htrust hroute rfl, hroute⟩
  · exact .inr ⟨loaded, hasked, loadedFor_of_mem hboot htrust hrun hmem hload⟩

theorem job_authorized (hboot : boot c env cfg w = .ok b)
    (htrust : cfg.admin.trustNetwork = false)
    (hrun : (appMachine k c b).run (.start jobs) es = some a) {key : JobKey} {job : RegisteredJob}
    (hjob : a.sched.mem.jobs.lookup key = some job) (hnot : job.spec ∉ jobs.map (·.spec)) :
    ∃ loaded, job.spec ∈ loaded.map (·.spec) ∧ LoadedFor k c b cfg env es loaded := by
  have hmem := ((sound_run (sched_run hrun)).jobs key job hjob).1
  obtain ⟨act, hact, hspec⟩ := List.mem_flatMap.1 hmem
  cases act with
  | call api =>
    rcases call_of_acts hact with rfl | ⟨req, now, -, hcall⟩ |
      ⟨env', load, loaded, hmem', hload, rfl⟩
    · exact absurd hspec hnot
    · rcases requestCall_eq_some hcall with ⟨group, job', query, -, -, rfl⟩ |
        ⟨group, job', -, rfl⟩
      · cases hspec
      · cases hspec
    · exact ⟨loaded, hspec, loadedFor_of_mem hboot htrust hrun hmem' hload⟩
  | run t w' => cases hspec
  | clock now => cases hspec

/-- **Every effect of a request is that of an authorized one.**  In every run of a process that
does not trust the network: a manual run in progress has the key and the query, which is not
refused, of an authorized `/execute` request, served by the task that began the run; every signal
that a running instance has got was sent by the task of an authorized `/stop` request for its key,
or of a reload; a registered job that `main` has not loaded is one of those of a load; and before
each load more authorized requests had reached `reload_jobs` than loads had ended. -/
theorem effects_authorized (hboot : boot c env cfg w = .ok b)
    (htrust : cfg.admin.trustNetwork = false)
    (hrun : (appMachine k c b).run (.start jobs) es = some a) :
    (∀ t pc run, a.sched.tasks t = some pc → pc.runOf = some run → run.origin = .manual →
        ∃ u req query, (run.mine, .began u) ∈ milestones c b.bundle (appActs k c b jobs es) ∧
          (u, req) ∈ served k c b jobs es ∧ cfg.Authorized env req ∧
          b.state.route k req = .ok (.executeJob run.key.group run.key.name query) ∧
          b.state.refusedOverride query = none ∧ run.extras = ⟨query⟩) ∧
      (∀ key inst, a.sched.mem.running.lookup key = some inst →
        a.sched.mem.signals inst.cancel =
          ((signalled c b.bundle (appActs k c b jobs es)).map Prod.fst).count inst.cancel ∧
        ∀ u, (inst.cancel, u) ∈ signalled c b.bundle (appActs k c b jobs es) →
          (∃ req, (u, req) ∈ served k c b jobs es ∧ cfg.Authorized env req ∧
            b.state.route k req = .ok (.stopJob key.group key.name)) ∨
          ∃ loaded, (u, .reloadFrom loaded) ∈ asked c b.bundle (appActs k c b jobs es) ∧
            LoadedFor k c b cfg env es loaded) ∧
      ∀ key job, a.sched.mem.jobs.lookup key = some job → job.spec ∉ jobs.map (·.spec) →
        ∃ loaded, job.spec ∈ loaded.map (·.spec) ∧ LoadedFor k c b cfg env es loaded :=
  ⟨fun _ _ _ => manual_authorized hboot htrust hrun,
    fun _ _ hkey => ⟨(signal_of_asked (sched_run hrun) hkey).1, fun _ =>
      signal_authorized hboot htrust hrun hkey⟩,
    fun _ _ => job_authorized hboot htrust hrun⟩

/-- The manual run of `probe/ping` was begun by the task of a request with the admin token. -/
theorem effects_authorized_ping :
    ∃ run cancel d, pingApp.sched.tasks 5 = some (.dispatching run cancel d) ∧
      ∃ u req query, (u, req) ∈ served demoUri getCrates pingBooted pingJobs pingEvents ∧
        AppConfig.default.Authorized demoEnv req ∧
        pingBooted.state.route demoUri req =
          .ok (.executeJob run.key.group run.key.name query) := by
  obtain ⟨run, cancel, d, ht, hmanual⟩ : ∃ run cancel d,
      pingApp.sched.tasks 5 = some (.dispatching run cancel d) ∧ run.origin = .manual :=
    ⟨_, _, _, rfl, rfl⟩
  obtain ⟨u, req, query, -, hserved, hauth, hroute, -⟩ :=
    (effects_authorized boots_ping.boot rfl run_ping).1 5 _ run ht rfl hmanual
  exact ⟨run, cancel, d, ht, u, req, query, hserved, hauth, hroute⟩

end CronManager

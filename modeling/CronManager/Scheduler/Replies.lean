import CronManager.Scheduler.Reload
import CronManager.Scheduler.Stop

/-!
# What the replies of the API say

`trigger_now`, `stop`, `register` and `reload_from` take several steps each, and other calls, loops
and dispatches run in between.  A reply therefore speaks of the past: what it says of the registry
or of the running instances was so at some moment after the call and before the reply.

`Call.Justifies` says this of every reply, and `replies_justified` that every reply of every
interleaving is justified.  What a call has already found out is carried from step to step
(`Pc.Justified`).
-/

namespace CronManager

open Rust

/-- `past Q` says that `Q` held at some moment since the call. -/
abbrev Past := (Sched → Prop) → Prop

/-- A manual run of the registered job is in progress. -/
def Sched.RunsManual (s : Sched) (key : JobKey) (extras : DispatchExtras) (job : RegisteredJob) :
    Prop :=
  ∃ t run, s.InProgress t run ∧ run.key = key ∧ run.spec = job.spec ∧ run.state = job.state ∧
    run.extras = extras ∧ run.origin = .manual

/-- What the reply to a call says was so at some moment of the call. -/
def Call.Justifies (past : Past) (reply : Reply) : Call → Prop
  | .register spec => reply = .registered ∧ past (·.mem.specAt spec.key = some spec)
  | .registerAll specs =>
    reply = .registered ∧ ∀ spec ∈ specs, past (·.mem.specAt spec.key = some spec)
  | .reloadFrom loaded =>
    reply = .reloaded loaded.length ∧ past (·.mem.jobs = ∅) ∧
      ∀ job ∈ loaded, past (·.mem.specAt job.spec.key = some job.spec)
  | .triggerNow key extras =>
    (reply = .triggered (.error (.jobNotFound key.group key.name)) ∧ past (key ∉ ·.mem.jobs)) ∨
      (reply = .triggered (.error (.jobAlreadyRunning key.group key.name)) ∧
        past (key ∈ ·.mem.running) ∧ ∃ job, past (·.mem.jobs.lookup key = some job)) ∨
      (reply = .triggered (.ok ()) ∧ ∃ job, past (·.mem.jobs.lookup key = some job) ∧
        past (key ∉ ·.mem.running) ∧ past (·.RunsManual key extras job))
  | .stop key =>
    (reply = .stopped (.error (.jobNotFound key.group key.name)) ∧ past (key ∉ ·.mem.jobs)) ∨
      (reply = .stopped (.ok false) ∧ past (key ∈ ·.mem.jobs) ∧ past (key ∉ ·.mem.running)) ∨
      (reply = .stopped (.ok true) ∧ past (key ∈ ·.mem.jobs) ∧ ∃ inst n,
        past (fun s => s.mem.running.lookup key = some inst ∧ s.mem.signals inst.cancel = n) ∧
        past (fun s => s.mem.running.lookup key = some inst ∧ s.mem.signals inst.cancel = n + 1))

/-- A call that registers jobs has registered all but `todo` of them. -/
def Call.Registered (past : Past) (reply : Reply) (todo : List JobSpec) : Call → Prop
  | .register spec => reply = .registered ∧ ∃ done, [spec] = done ++ todo ∧
    ∀ spec ∈ done, past (·.mem.specAt spec.key = some spec)
  | .registerAll specs => reply = .registered ∧ ∃ done, specs = done ++ todo ∧
    ∀ spec ∈ done, past (·.mem.specAt spec.key = some spec)
  | .reloadFrom loaded => reply = .reloaded loaded.length ∧ past (·.mem.jobs = ∅) ∧
    ∃ done, loaded.map (·.spec) = done ++ todo ∧
      ∀ spec ∈ done, past (·.mem.specAt spec.key = some spec)
  | _ => False

/-- A call that triggers a job has begun its run. -/
def Call.Started (past : Past) (run : Run) : Call → Prop
  | .triggerNow key extras => run.origin = .manual ∧ ∃ job,
    past (·.mem.jobs.lookup key = some job) ∧ past (key ∉ ·.mem.running) ∧
      past (·.RunsManual key extras job)
  | _ => False

/-- What a call has found out, seen from its task. -/
def Pc.Justified (past : Past) (call : Call) : Pc → Prop
  | .registering todo reply => call.Registered past reply todo
  | .spawning spec todo reply => call.Registered past reply (spec :: todo)
  | .inserting job todo reply => call.Registered past reply (job.spec :: todo)
  | .reloadSignal loaded | .reloadClear loaded => call = .reloadFrom loaded
  | .triggerLookup key extras => call = .triggerNow key extras
  | .triggerBegin key extras job =>
    call = .triggerNow key extras ∧ past (·.mem.jobs.lookup key = some job)
  | .fetch run | .spawnRun run _ => call.Started past run
  | .stopCheck key => call = .stop key
  | .stopSignal key => call = .stop key ∧ past (key ∈ ·.mem.jobs)
  | .returned reply => call.Justifies past reply
  | _ => False

variable {c : Crates} {b : ExecutorBundle} {s s' : Sched} {t : TaskId} {m : Shared} {pc : Pc}
  {w : DispatchWorld} {e : Effect Shared Pc} {call : Call} {past past' : Past}

/-! ### The past grows -/

theorem Call.Registered.mono {reply : Reply} {todo : List JobSpec}
    (h : call.Registered past reply todo) (hpast : ∀ Q, past Q → past' Q) :
    call.Registered past' reply todo := by
  cases call with
  | register | registerAll =>
    obtain ⟨hreply, done, hspecs, hdone⟩ := h
    exact ⟨hreply, done, hspecs, fun spec hspec => hpast _ (hdone spec hspec)⟩
  | reloadFrom =>
    obtain ⟨hreply, hclear, done, hspecs, hdone⟩ := h
    exact ⟨hreply, hpast _ hclear, done, hspecs, fun spec hspec => hpast _ (hdone spec hspec)⟩
  | _ => exact h

theorem Call.Started.mono {run : Run} (h : call.Started past run)
    (hpast : ∀ Q, past Q → past' Q) : call.Started past' run := by
  cases call with
  | triggerNow key extras =>
    obtain ⟨horigin, job, hjob, hfree, hrun⟩ := h
    exact ⟨horigin, job, hpast _ hjob, hpast _ hfree, hpast _ hrun⟩
  | _ => exact h

theorem Call.Justifies.mono {reply : Reply} (h : call.Justifies past reply)
    (hpast : ∀ Q, past Q → past' Q) : call.Justifies past' reply := by
  cases call with
  | register => exact ⟨h.1, hpast _ h.2⟩
  | registerAll => exact ⟨h.1, fun spec hspec => hpast _ (h.2 spec hspec)⟩
  | reloadFrom => exact ⟨h.1, hpast _ h.2.1, fun job hjob => hpast _ (h.2.2 job hjob)⟩
  | triggerNow =>
    rcases h with ⟨hreply, hjob⟩ | ⟨hreply, hbusy, job, hjob⟩ | ⟨hreply, job, hjob, hfree, hrun⟩
    · exact .inl ⟨hreply, hpast _ hjob⟩
    · exact .inr (.inl ⟨hreply, hpast _ hbusy, job, hpast _ hjob⟩)
    · exact .inr (.inr ⟨hreply, job, hpast _ hjob, hpast _ hfree, hpast _ hrun⟩)
  | stop =>
    rcases h with ⟨hreply, hjob⟩ | ⟨hreply, hjob, hfree⟩ | ⟨hreply, hjob, inst, n, hold, hnew⟩
    · exact .inl ⟨hreply, hpast _ hjob⟩
    · exact .inr (.inl ⟨hreply, hpast _ hjob, hpast _ hfree⟩)
    · exact .inr (.inr ⟨hreply, hpast _ hjob, inst, n, hpast _ hold, hpast _ hnew⟩)

theorem Pc.Justified.mono (h : pc.Justified past call) (hpast : ∀ Q, past Q → past' Q) :
    pc.Justified past' call := by
  cases pc with
  | registering | spawning | inserting => exact Call.Registered.mono h hpast
  | triggerBegin | stopSignal => exact ⟨h.1, hpast _ h.2⟩
  | fetch | spawnRun => exact Call.Started.mono h hpast
  | returned => exact Call.Justifies.mono h hpast
  | _ => exact h

theorem justified_notify {ns : List NotifyId} (h : pc.Justified past call) :
    (pc.notify ns).Justified past call := by
  cases pc <;> exact h

theorem justified_entry : call.entry.Justified past call := by
  cases call with
  | register spec => exact ⟨rfl, [], rfl, by rintro spec ⟨⟩⟩
  | registerAll specs => exact ⟨rfl, [], rfl, by rintro spec ⟨⟩⟩
  | _ => rfl

/-! ### One step of the call -/

theorem justifies_of_registered {reply : Reply} (h : call.Registered past reply []) :
    call.Justifies past reply := by
  cases call with
  | register spec =>
    obtain ⟨hreply, done, hspecs, hdone⟩ := h
    rw [List.append_nil] at hspecs
    exact ⟨hreply, hdone spec (hspecs ▸ List.mem_singleton_self spec)⟩
  | registerAll specs =>
    obtain ⟨hreply, done, hspecs, hdone⟩ := h
    rw [List.append_nil] at hspecs
    exact ⟨hreply, hspecs ▸ hdone⟩
  | reloadFrom loaded =>
    obtain ⟨hreply, hclear, done, hspecs, hdone⟩ := h
    rw [List.append_nil] at hspecs
    refine ⟨hreply, hclear, fun job hjob => hdone job.spec ?_⟩
    rw [← hspecs]
    exact List.mem_map_of_mem hjob
  | _ => exact h.elim

theorem Call.Registered.insert {reply : Reply} {spec : JobSpec} {todo : List JobSpec}
    (h : call.Registered past reply (spec :: todo))
    (hspec : past (·.mem.specAt spec.key = some spec)) : call.Registered past reply todo := by
  have hmore {done : List JobSpec}
      (hdone : ∀ x ∈ done, past (·.mem.specAt x.key = some x)) :
      ∀ x ∈ done ++ [spec], past (·.mem.specAt x.key = some x) := by
    intro x hx
    rcases List.mem_append.1 hx with hx | hx
    · exact hdone x hx
    · obtain rfl := List.mem_singleton.1 hx
      exact hspec
  have hsplit (done : List JobSpec) : done ++ spec :: todo = done ++ [spec] ++ todo := by
    rw [List.append_assoc, List.singleton_append]
  cases call with
  | register | registerAll =>
    obtain ⟨hreply, done, hspecs, hdone⟩ := h
    exact ⟨hreply, done ++ [spec], hspecs.trans (hsplit done), hmore hdone⟩
  | reloadFrom =>
    obtain ⟨hreply, hclear, done, hspecs, hdone⟩ := h
    exact ⟨hreply, hclear, done ++ [spec], hspecs.trans (hsplit done), hmore hdone⟩
  | _ => exact h.elim

theorem beginRunning_eq_error {key : JobKey} {schedule : String} {err : CronManagerError}
    (h : m.beginRunning key schedule = .error err) :
    err = .jobAlreadyRunning key.group key.name ∧ key ∈ m.running := by
  simp only [Shared.beginRunning] at h
  split_ifs at h with hrun
  exact ⟨(Except.error.inj h).symm, AList.lookup_isSome.1 hrun⟩

theorem notMem_of_lookup_eq_none {V : Type*} {map : HashMap JobKey V} {key : JobKey}
    (h : map.lookup key = none) : key ∉ map := by
  intro hmem
  have hsome := AList.lookup_isSome.2 hmem
  rw [h] at hsome
  cases hsome

theorem mem_of_lookup_eq_some {V : Type*} {map : HashMap JobKey V} {key : JobKey} {v : V}
    (h : map.lookup key = some v) : key ∈ map :=
  AList.lookup_isSome.1 (Option.isSome_iff_exists.2 ⟨v, h⟩)

/-- `begin_running` of a manual trigger: the key is free and the run is in progress, or the key is
taken. -/
theorem justified_begin {key : JobKey} {extras : DispatchExtras} {job : RegisteredJob}
    (hjob : past (·.mem.jobs.lookup key = some job))
    (he : (Pc.triggerBegin key extras job).step c b s.mem w = some e)
    (hnow : ∀ Q, Q s → past Q) (hpast : ∀ Q, past Q → past' Q)
    (hnow' : ∀ Q, Q (s.apply t e) → past' Q) :
    e.next.Justified past' (.triggerNow key extras) := by
  obtain rfl := Option.some.inj he
  simp only [beginStep] at hnow' ⊢
  cases hbegin : s.mem.beginRunning key job.spec.trigger.scheduleStr with
  | ok r =>
    obtain ⟨m', n⟩ := r
    rw [hbegin] at hnow'
    obtain ⟨hfree, -, -⟩ := Shared.beginRunning_eq_ok.1 hbegin
    refine ⟨rfl, job, hpast _ hjob, hpast _ (hnow _ (notMem_of_lookup_eq_none hfree)), hnow' _ ?_⟩
    exact ⟨t, _, ⟨_, Pool.tasks_apply_self, rfl⟩, rfl, rfl, rfl, rfl, rfl⟩
  | error err =>
    obtain ⟨rfl, hrun⟩ := beginRunning_eq_error hbegin
    exact .inr (.inl ⟨rfl, hpast _ (hnow _ hrun), job, hpast _ hjob⟩)

theorem justified_signal {key : JobKey} (hkey : past (key ∈ ·.mem.jobs))
    (he : (Pc.stopSignal key).step c b s.mem w = some e)
    (hnow : ∀ Q, Q s → past Q) (hpast : ∀ Q, past Q → past' Q)
    (hnow' : ∀ Q, Q (s.apply t e) → past' Q) : e.next.Justified past' (.stop key) := by
  simp only [Pc.step] at he
  split at he <;> rename_i hinst <;> obtain rfl := Option.some.inj he
  · exact .inr (.inl ⟨rfl, hpast _ hkey, hpast _ (hnow _ (notMem_of_lookup_eq_none hinst))⟩)
  · rename_i inst
    refine .inr (.inr ⟨rfl, hpast _ hkey, inst, _, hpast _ (hnow _ ⟨hinst, rfl⟩),
      hnow' _ ⟨hinst, ?_⟩⟩)
    simp [signalStep, Shared.countSignals]

/-- **What one step of the call finds out.** -/
theorem justified_next (ho : Owned s) (hpc : s.tasks t = some pc) (h : pc.Justified past call)
    (he : pc.step c b s.mem w = some e) (hnow : ∀ Q, Q s → past Q)
    (hpast : ∀ Q, past Q → past' Q) (hnow' : ∀ Q, Q (s.apply t e) → past' Q) :
    e.next.Justified past' call := by
  cases pc with
  | registering todo reply =>
    cases todo with
    | nil =>
      obtain rfl := Option.some.inj he
      exact (justifies_of_registered h).mono hpast
    | cons spec todo =>
      obtain rfl := Option.some.inj he
      exact Call.Registered.mono h hpast
  | spawning spec todo reply =>
    obtain rfl := Option.some.inj he
    exact Call.Registered.mono h hpast
  | inserting job todo reply =>
    obtain rfl := Option.some.inj he
    refine (Call.Registered.mono h hpast).insert (hnow' _ ?_)
    simp [move, specAt_insertJob]
  | reloadSignal loaded =>
    obtain rfl := Option.some.inj he
    exact h
  | reloadClear loaded =>
    obtain rfl := Option.some.inj he
    obtain rfl : call = .reloadFrom loaded := h
    exact ⟨rfl, hnow' _ rfl, [], rfl, by rintro spec ⟨⟩⟩
  | triggerLookup key extras =>
    obtain rfl : call = .triggerNow key extras := h
    simp only [Pc.step] at he
    split at he <;> rename_i hjob <;> obtain rfl := Option.some.inj he
    · exact .inl ⟨rfl, hpast _ (hnow _ (notMem_of_lookup_eq_none hjob))⟩
    · exact ⟨rfl, hpast _ (hnow _ hjob)⟩
  | triggerBegin key extras job =>
    obtain ⟨rfl, hjob⟩ := h
    exact justified_begin hjob he hnow hpast hnow'
  | fetch run =>
    obtain rfl := Option.some.inj he
    obtain ⟨inst, hinst, -⟩ := lookup_of_lease ho hpc rfl
    cases call with
    | triggerNow key extras =>
      have horigin := h.1
      have hnext : (fetchStep b s.mem run w).next = .spawnRun run inst.cancel := by
        simp only [fetchStep, hinst, horigin, move]
      rw [hnext]
      have hstarted : Call.Started past run (.triggerNow key extras) := h
      exact hstarted.mono hpast
    | _ => exact h.elim
  | spawnRun run cancel =>
    obtain rfl := Option.some.inj he
    cases call with
    | triggerNow key extras =>
      obtain ⟨-, job, hjob, hfree, hrun⟩ := h
      exact .inr (.inr ⟨rfl, job, hpast _ hjob, hpast _ hfree, hpast _ hrun⟩)
    | _ => exact h.elim
  | stopCheck key =>
    obtain rfl : call = .stop key := h
    simp only [Pc.step] at he
    split at he <;> rename_i hjob <;> obtain rfl := Option.some.inj he
    · exact .inl ⟨rfl, hpast _ (hnow _ (notMem_of_lookup_eq_none hjob))⟩
    · exact ⟨rfl, hpast _ (hnow _ (mem_of_lookup_eq_some hjob))⟩
  | stopSignal key =>
    obtain ⟨rfl, hkey⟩ := h
    exact justified_signal hkey he hnow hpast hnow'
  | returned reply => cases he
  | _ => exact h.elim

/-- The call's task, and what it has found out. -/
def Sched.Asks (t : TaskId) (call : Call) (past : Past) (s : Sched) : Prop :=
  Owned s ∧ ∃ pc, s.tasks t = some pc ∧ pc.Justified past call

theorem asks_step {a : Act} (h : s.Asks t call past) (hs : (schedMachine c b).step s a = some s')
    (hnow : ∀ Q, Q s → past Q) (hpast : ∀ Q, past Q → past' Q) (hnow' : ∀ Q, Q s' → past' Q) :
    s'.Asks t call past' := by
  obtain ⟨ho, pc, hpc, hjust⟩ := h
  refine ⟨owned_step ho hs, ?_⟩
  cases a with
  | call other =>
    obtain rfl := Option.some.inj hs
    exact ⟨pc, Pool.tasks_add_of_some (tasks_fresh_eq_none ho.tasksFresh) hpc, hjust.mono hpast⟩
  | clock now =>
    obtain rfl := Option.some.inj hs
    exact ⟨pc, hpc, hjust.mono hpast⟩
  | run u w =>
    obtain ⟨q, e, hq, he, rfl⟩ := run_step hs
    by_cases htu : t = u
    · subst htu
      rw [hpc] at hq
      obtain rfl := Option.some.inj hq
      exact ⟨e.next, Pool.tasks_apply_self, justified_next ho hpc hjust he hnow hpast hnow'⟩
    · obtain ⟨ns, hns⟩ := (step_does he).touch_eq
      refine ⟨e.touch pc, Pool.tasks_apply_of_some htu hpc fun v p hv =>
        tasks_spawn_eq_none ho.tasksFresh (step_does he) hv, ?_⟩
      rw [hns]
      exact justified_notify (hjust.mono hpast)

/-- **Replies are justified.**  A call that returns, whatever other calls, loops and dispatches did
in the meantime, says of the registry and of the running instances what was so at some moment
between the call and its reply. -/
theorem replies_justified {as₁ as₂ : List Act} {s₀ s₁ : Sched} {reply : Reply}
    (h₁ : (schedMachine c b).run Sched.init as₁ = some s₀)
    (hcall : (schedMachine c b).step s₀ (.call call) = some s₁)
    (h₂ : (schedMachine c b).run s₁ as₂ = some s)
    (hreply : s.tasks s₀.mem.fresh = some (.returned reply)) :
    call.Justifies ((schedMachine c b).During s₁ as₂) reply := by
  have ho := owned_reaches (Machine.reaches_of_run h₁)
  have hasks : s.Asks s₀.mem.fresh call ((schedMachine c b).During s₁ as₂) := by
    refine Machine.during_invariant (I := Sched.Asks s₀.mem.fresh call) h₂ (fun past _ => ?_)
      fun past past' s a s' h hnow hpast hnow' hs => asks_step h hs hnow hpast hnow'
    refine ⟨owned_step ho hcall, call.entry, ?_, justified_entry⟩
    obtain rfl := Option.some.inj hcall
    simp [Pool.add]
  obtain ⟨-, pc, hpc, hjust⟩ := hasks
  rw [hreply] at hpc
  obtain rfl := Option.some.inj hpc
  exact hjust

/-- The lookup of a trigger, a reload of nothing, and the rest of the trigger. -/
def reloadMeanwhile : List Act :=
  demoSteps .timeout 3 1 ++ .call (.reloadFrom []) :: demoSteps .timeout 4 3 ++
    demoSteps .timeout 3 3

/-- `trigger_now` returns `Ok(())` for a job that a reload has dropped since its lookup: the job was
registered at some moment of the call. -/
theorem replies_justified_reloaded :
    ∃ s₀ s₁ s, demoSched.run Sched.init (.call (.register demoSpec) :: demoSteps .timeout 0 4) =
        some s₀ ∧ demoSched.step s₀ (.call (.triggerNow demoSpec.key noExtras)) = some s₁ ∧
      demoSched.run s₁ reloadMeanwhile = some s ∧ demoSpec.key ∉ s.mem.jobs ∧
      (Call.triggerNow demoSpec.key noExtras).Justifies (demoSched.During s₁ reloadMeanwhile)
        (.triggered (.ok ())) := by
  let as := .call (.register demoSpec) :: demoSteps .timeout 0 4
  let s₀ := (demoSched.run Sched.init as).getD Sched.init
  let s₁ := (demoSched.step s₀ (.call (.triggerNow demoSpec.key noExtras))).getD Sched.init
  let s := (demoSched.run s₁ reloadMeanwhile).getD Sched.init
  have h₀ : demoSched.run Sched.init as = some s₀ := eq_some_getD (by decide)
  have h₁ : demoSched.step s₀ (.call (.triggerNow demoSpec.key noExtras)) = some s₁ :=
    eq_some_getD (by decide)
  have h₂ : demoSched.run s₁ reloadMeanwhile = some s := eq_some_getD (by decide)
  exact ⟨s₀, s₁, s, h₀, h₁, h₂, by decide, replies_justified h₀ h₁ h₂ rfl⟩

end CronManager

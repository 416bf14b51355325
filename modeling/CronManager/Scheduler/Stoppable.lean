import CronManager.Scheduler.Api
import CronManager.Scheduler.Flow

/-!
# What is running can be stopped

`stop` looks a key up in `jobs` before it looks at `running`: an instance whose key is not
registered cannot be stopped, although `describe_running` lists it.  `register` and `reload_from`
take entries out of `jobs` while instances run, and `begin_running` does not look at `jobs`.

`keepsStoppable` is the condition that a step takes the entry of no running key away and begins no
run of a key without one.  It is exact: everything that runs can be stopped in all the states of a
run if and only if all its steps meet it (`running_stoppable_iff`).  A reload while an instance
runs breaks it (`running_unregistered`).
-/

namespace CronManager

open Rust

namespace Shared

/-- The rows of `describe_running`, as they are taken under the lock of `running`: the key, the
start and the schedule of each instance of the group, or of every group. -/
def snapshotRunning (m : Shared) (groupFilter : Option String) : List (JobKey × ℤ × String) :=
  (m.running.entries.filter fun e => groupFilter.all (e.1.group = ·)).map fun e =>
    (e.1, e.2.startedAtMs, e.2.schedule)

/-- Everything that is running, and everything that `describe_running` lists, is registered, and
`stop` returns `Ok(true)` on it. -/
structure Stoppable (m : Shared) : Prop where
  running : ∀ key ∈ m.running, key ∈ m.jobs ∧ (m.stop key).2 = .ok true
  listed : ∀ groupFilter, ∀ row ∈ m.snapshotRunning groupFilter,
    row.1 ∈ m.jobs ∧ (m.stop row.1).2 = .ok true

/-- Every running key is registered. -/
def Registered (m : Shared) : Prop := ∀ key ∈ m.running, key ∈ m.jobs

end Shared

/-- The step takes the entry of `key` out of the registry. -/
def Pc.drops (key : JobKey) : Pc → Bool
  | .registering (spec :: _) _ => spec.key = key
  | .reloadClear _ => true
  | _ => false

/-- The key whose `begin_running` comes next. -/
def Pc.begins : Pc → Option JobKey
  | .triggerBegin key _ _ => some key
  | .loopBegin l _ => some l.spec.key
  | _ => none

/-- The step drops the entry of no running key, and a key that is about to begin is registered,
or it is running already and does not begin again. -/
def Pc.keepsStoppable (m : Shared) (pc : Pc) : Bool :=
  m.running.keys.all (fun key => !pc.drops key) &&
    pc.begins.all fun key => key ∈ m.jobs ∨ key ∈ m.running

/-- The action drops the entry of no running key and begins no unregistered key. -/
def keepsStoppable (s : Sched) : Act → Bool
  | .run t _ => (s.tasks t).all fun pc => pc.keepsStoppable s.mem
  | _ => true

variable {c : Crates} {b : ExecutorBundle} {m : Shared} {pc : Pc} {w : DispatchWorld}
  {e : Effect Shared Pc} {key : JobKey}

/-- `stop` at one moment: the key has to be registered, and then the instance hears of it. -/
theorem stop_eq_ok_true (hjob : key ∈ m.jobs) (hrun : key ∈ m.running) :
    (m.stop key).2 = .ok true := by
  obtain ⟨job, hjob⟩ := Option.isSome_iff_exists.1 (AList.lookup_isSome.2 hjob)
  obtain ⟨inst, hinst⟩ := Option.isSome_iff_exists.1 (AList.lookup_isSome.2 hrun)
  simp only [Shared.stop, Shared.signal, hjob, hinst]

theorem mem_running_of_snapshot {groupFilter : Option String} {row : JobKey × ℤ × String}
    (h : row ∈ m.snapshotRunning groupFilter) : row.1 ∈ m.running := by
  obtain ⟨e, he, rfl⟩ := List.mem_map.1 h
  exact List.mem_keys_of_mem (List.mem_of_mem_filter he)

theorem stoppable_iff : m.Stoppable ↔ m.Registered := by
  constructor
  · intro h key hkey
    exact (h.running key hkey).1
  · intro h
    have hstop : ∀ key ∈ m.running, key ∈ m.jobs ∧ (m.stop key).2 = .ok true :=
      fun key hkey => ⟨h key hkey, stop_eq_ok_true (h key hkey) hkey⟩
    exact ⟨hstop, fun _ row hrow => hstop row.1 (mem_running_of_snapshot hrow)⟩

/-! ### What a step does to the two maps -/

theorem begins_of_runOf {run : Run} (h : pc.step c b m w = some e) (hpc : pc.runOf = none)
    (hrun : e.next.runOf = some run) : pc.begins = some run.key := by
  rcases begin_cases h hpc hrun with ⟨extras, job, rfl, -⟩ | ⟨l, tick, rfl, hkey, -⟩
  · rfl
  · exact congrArg some hkey.symm

theorem mem_running_step (h : pc.step c b m w = some e) (hkey : key ∈ e.mem.running) :
    key ∈ m.running ∨ pc.begins = some key := by
  have hbegins {run : Run} := @begins_of_runOf c b m pc w e run h
  cases step_does h with
  | quiet jobs running => exact .inl (running ▸ hkey)
  | begin schedule hrun hjob hloop hspec hbegin =>
    obtain ⟨-, -, rfl⟩ := Shared.beginRunning_eq_ok.1 hbegin
    rcases (AList.mem_insert _).1 hkey with rfl | hkey
    · exact .inr (hbegins hrun rfl)
    · exact .inl hkey
  | fetch run =>
    rw [Does.mem_fetchStep] at hkey
    exact .inl hkey
  | finish run => exact .inl (AList.mem_erase.1 hkey).2
  | _ => exact .inl hkey

theorem mem_jobs_step (h : pc.step c b m w = some e) (hdrop : pc.drops key = false)
    (hkey : key ∈ m.jobs) : key ∈ e.mem.jobs := by
  cases step_does h with
  | quiet jobs => exact jobs ▸ hkey
  | remove spec todo reply =>
    refine AList.mem_erase.2 ⟨?_, hkey⟩
    exact fun heq => of_decide_eq_false hdrop heq.symm
  | insert job todo reply => exact (AList.mem_insert _).2 (.inr hkey)
  | clear loaded => cases hdrop
  | begin schedule hrun hjob hloop hspec hbegin =>
    obtain ⟨-, -, rfl⟩ := Shared.beginRunning_eq_ok.1 hbegin
    exact hkey
  | fetch run => rwa [Does.mem_fetchStep]
  | _ => exact hkey

/-- A step that drops the entry of a key leaves its instance running. -/
theorem stranded_of_drops (h : pc.step c b m w = some e) (hdrop : pc.drops key = true)
    (hkey : key ∈ m.running) : key ∈ e.mem.running ∧ key ∉ e.mem.jobs := by
  cases pc with
  | registering todo reply =>
    cases todo with
    | nil => cases hdrop
    | cons spec todo =>
      obtain rfl := Option.some.inj h
      obtain rfl := of_decide_eq_true hdrop
      exact ⟨hkey, fun hmem => (AList.mem_erase.1 hmem).1 rfl⟩
  | reloadClear loaded =>
    obtain rfl := Option.some.inj h
    exact ⟨hkey, AList.notMem_empty key⟩
  | _ => cases hdrop

theorem mem_beginStep {schedule : String} {run : NotifyId → Run}
    {failed : CronManagerError → Pc} :
    key ∈ (beginStep m key schedule run failed).mem.running ∧
      (beginStep m key schedule run failed).mem.jobs = m.jobs := by
  by_cases hkey : key ∈ m.running
  · simp only [beginStep, Shared.beginRunning, AList.lookup_isSome.2 hkey, if_true, move]
    exact ⟨hkey, trivial⟩
  · have hfree : ¬ (m.running.lookup key).isSome := fun h => hkey (AList.lookup_isSome.1 h)
    simp only [beginStep, Shared.beginRunning, hfree, move]
    exact ⟨(AList.mem_insert _).2 (.inl rfl), rfl⟩

theorem mem_running_of_begins (h : pc.step c b m w = some e) (hbegins : pc.begins = some key) :
    key ∈ e.mem.running ∧ e.mem.jobs = m.jobs := by
  cases pc with
  | triggerBegin key' extras job =>
    obtain rfl := Option.some.inj h
    obtain rfl := Option.some.inj hbegins
    exact mem_beginStep
  | loopBegin l tick =>
    obtain rfl := Option.some.inj h
    obtain rfl := Option.some.inj hbegins
    exact mem_beginStep
  | _ => cases hbegins

theorem drops_of_begins {key' : JobKey} (h : pc.begins = some key) : pc.drops key' = false := by
  cases pc with
  | triggerBegin | loopBegin => rfl
  | _ => cases h

/-- The condition, in words: no running key is dropped, and a key that begins is registered or
running. -/
theorem keepsStoppable_iff : pc.keepsStoppable m = true ↔
    (∀ key ∈ m.running, pc.drops key = false) ∧
      ∀ key, pc.begins = some key → key ∈ m.jobs ∨ key ∈ m.running := by
  simp only [Pc.keepsStoppable, Bool.and_eq_true, List.all_eq_true, Bool.not_eq_true',
    Option.all_eq_true, decide_eq_true_eq]
  rfl

/-- **Exactly the steps that meet the condition keep the running keys registered.** -/
theorem registered_step_iff (hm : m.Registered) (h : pc.step c b m w = some e) :
    e.mem.Registered ↔ pc.keepsStoppable m = true := by
  rw [keepsStoppable_iff]
  constructor
  · intro he
    refine ⟨?_, ?_⟩
    · intro key hkey
      by_contra hdrop
      obtain ⟨hrun, hjob⟩ := stranded_of_drops h (by simpa using hdrop) hkey
      exact hjob (he key hrun)
    · intro key hbegins
      obtain ⟨hrun, hjobs⟩ := mem_running_of_begins h hbegins
      exact .inl (hjobs ▸ he key hrun)
  · rintro ⟨hdrops, hbegin⟩ key hkey
    rcases mem_running_step h hkey with hrun | hbegins
    · exact mem_jobs_step h (hdrops key hrun) (hm key hrun)
    · have hjob : key ∈ m.jobs := (hbegin key hbegins).elim id (hm key)
      exact mem_jobs_step h (drops_of_begins hbegins) hjob

theorem registered_act_iff {s s' : Sched} {a : Act} (hs : s.mem.Registered)
    (h : (schedMachine c b).step s a = some s') :
    s'.mem.Registered ↔ keepsStoppable s a = true := by
  cases a with
  | call call =>
    obtain rfl := Option.some.inj h
    exact iff_of_true hs rfl
  | clock now =>
    obtain rfl := Option.some.inj h
    exact iff_of_true hs rfl
  | run t w =>
    obtain ⟨pc, e, hpc, he, rfl⟩ := run_step h
    rw [keepsStoppable, hpc, Option.all_some]
    exact registered_step_iff hs he

/-! ### Whole runs -/

/-- **Everything that runs can be stopped**, in all the states that a run goes through, if and
only if none of its steps takes the entry of a running key away or begins a run of a key without
an entry. -/
theorem running_stoppable_iff {as : List Act} {s : Sched}
    (h : (schedMachine c b).run Sched.init as = some s) :
    (∀ as₁ s₁, as₁ <+: as → (schedMachine c b).run Sched.init as₁ = some s₁ →
        s₁.mem.Stoppable) ↔
      (schedMachine c b).Runs (fun s a => keepsStoppable s a = true) Sched.init as s := by
  rw [Machine.runs_iff_forall_prefix h (I := fun s => s.mem.Stoppable)]
  · exact stoppable_iff.2 fun key hkey => absurd hkey (AList.notMem_empty key)
  · intro s a s' hs hstep
    rw [stoppable_iff, registered_act_iff (stoppable_iff.1 hs) hstep]

/-- A triggered run of a registered job: nothing takes its entry away, so it can be stopped. -/
theorem running_stoppable_triggered :
    ∃ s, (schedMachine noCrates demoBundle).run Sched.init
        (demoTriggered (demoWorld .timeout)) = some s ∧
      demoSpec.key ∈ s.mem.running ∧ s.mem.Stoppable := by
  have hrun : ((schedMachine noCrates demoBundle).runIf keepsStoppable Sched.init
      (demoTriggered (demoWorld .timeout))).map
        (fun s => decide (demoSpec.key ∈ s.mem.running)) = some true := by decide
  obtain ⟨s, hs, hmem⟩ := Option.map_eq_some_iff.1 hrun
  have hruns := Machine.runs_of_runIf hs
  have hplain := Machine.run_of_runs hruns
  exact ⟨s, hplain, of_decide_eq_true hmem,
    (running_stoppable_iff hplain).2 hruns _ s List.prefix_rfl hplain⟩

/-- After a reload without the job the instance is still running, and `stop` does not know it. -/
theorem running_unregistered :
    ¬ ∀ c b s, (schedMachine c b).Reaches Sched.init s → s.mem.Stoppable := by
  intro h
  have hrun : ((schedMachine noCrates demoBundle).run Sched.init
      (demoTriggered (demoWorld .timeout) ++
        .call (.reloadFrom []) :: List.replicate 3 (.run 6 (demoWorld .timeout)))).map
      (fun s => decide (demoSpec.key ∈ s.mem.running ∧ demoSpec.key ∉ s.mem.jobs)) =
        some true := by decide
  obtain ⟨s, hs, hfacts⟩ := Option.map_eq_some_iff.1 hrun
  obtain ⟨hrunning, hjobs⟩ := of_decide_eq_true hfacts
  exact hjobs ((h _ _ s (Machine.reaches_of_run hs)).running _ hrunning).1

end CronManager

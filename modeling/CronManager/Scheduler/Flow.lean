import CronManager.Scheduler.Step

/-!
# Where a task of the scheduler goes

`Does` says what a step does to the maps; `Goes` says where it leads: the edges of the control flow
of `register`, `reload_from`, `trigger_now`, `stop`, the scheduling loop and the runs.  What a step
makes of a task, whatever the maps hold, is a case analysis on these edges (`step_goes`).
`Becomes` says where an action leaves any one task, and `step_becomes` that these are all the ways.
-/

namespace CronManager

open Rust

variable (c : Crates) (b : ExecutorBundle)

/-- The edges of the control flow, with what the step has found out. -/
inductive Goes (m : Shared) (w : DispatchWorld) : Pc → Pc → Prop
  | returnReply (reply : Reply) : Goes m w (.registering [] reply) (.returned reply)
  | remove (spec : JobSpec) (todo : List JobSpec) (reply : Reply) :
      Goes m w (.registering (spec :: todo) reply) (.spawning spec todo reply)
  | spawn (spec : JobSpec) (todo : List JobSpec) (reply : Reply) :
      Goes m w (.spawning spec todo reply) (.inserting (m.prepareJob spec).2 todo reply)
  | insert (job : RegisteredJob) (todo : List JobSpec) (reply : Reply) :
      Goes m w (.inserting job todo reply) (.registering todo reply)
  | signalRunning (loaded : List LoadedJob) : Goes m w (.reloadSignal loaded) (.reloadClear loaded)
  | clear (loaded : List LoadedJob) :
      Goes m w (.reloadClear loaded)
        (.registering (loaded.map (·.spec)) (.reloaded loaded.length))
  | lookup (key : JobKey) (extras : DispatchExtras) (job : RegisteredJob)
      (hjob : m.jobs.lookup key = some job) :
      Goes m w (.triggerLookup key extras) (.triggerBegin key extras job)
  | notFound (key : JobKey) (extras : DispatchExtras) (e : CronManagerError) :
      Goes m w (.triggerLookup key extras) (.returned (.triggered (.error e)))
  | beginManual (key : JobKey) (extras : DispatchExtras) (job : RegisteredJob) (n : NotifyId) :
      Goes m w (.triggerBegin key extras job)
        (.fetch ⟨key, job.spec, extras, job.state, n, .manual⟩)
  | refuse (key : JobKey) (extras : DispatchExtras) (job : RegisteredJob) (e : CronManagerError) :
      Goes m w (.triggerBegin key extras job) (.returned (.triggered (.error e)))
  | fetchManual (run : Run) (cancel : NotifyId) (horigin : run.origin = .manual) :
      Goes m w (.fetch run) (.spawnRun run cancel)
  | fetchCron (run : Run) (cancel : NotifyId) :
      Goes m w (.fetch run) (.dispatching run cancel (.init b run.spec run.extras w))
  | fetchFail (run : Run) : Goes m w (.fetch run) .panicked
  | handOver (run : Run) (cancel : NotifyId) :
      Goes m w (.spawnRun run cancel) (.returned (.triggered (.ok ())))
  | advance (run : Run) (cancel : NotifyId) (d d' : Dispatch) (hd : d.step c b = some d') :
      Goes m w (.dispatching run cancel d) (.dispatching run cancel d')
  | complete (run : Run) (cancel : NotifyId) (d : Dispatch) (outcome : DispatchOutcome) :
      Goes m w (.dispatching run cancel d) (.recordOutcome run outcome)
  | recordOutcome (run : Run) (outcome : DispatchOutcome) :
      Goes m w (.recordOutcome run outcome) (.finish run)
  | finishManual (run : Run) (horigin : run.origin = .manual) : Goes m w (.finish run) .ended
  | finishCron (run : Run) (l : Loop) (horigin : run.origin = .cron l) :
      Goes m w (.finish run) (.loopNow l)
  | stopCheck (key : JobKey) : Goes m w (.stopCheck key) (.stopSignal key)
  | stopNotFound (key : JobKey) (e : CronManagerError) :
      Goes m w (.stopCheck key) (.returned (.stopped (.error e)))
  | stopSignal (key : JobKey) (found : Bool) :
      Goes m w (.stopSignal key) (.returned (.stopped (.ok found)))
  | loopParse (l : Loop) : Goes m w (.loopParse l) (.loopNow l)
  | loopUnparsed (l : Loop) : Goes m w (.loopParse l) .ended
  | loopNow (l : Loop) : Goes m w (.loopNow l) (.loopNext l m.now)
  | loopNext (l : Loop) (now tick deadline : ℤ) :
      Goes m w (.loopNext l now) (.loopSleep l tick deadline)
  | loopOver (l : Loop) (now : ℤ) : Goes m w (.loopNext l now) .ended
  | loopWake (l : Loop) (tick deadline : ℤ) :
      Goes m w (.loopSleep l tick deadline) (.loopWindow l tick)
  | loopFire (l : Loop) (tick : ℤ) (hallows : l.spec.window.allows m.now = true) :
      Goes m w (.loopWindow l tick) (.loopBegin l tick)
  | loopSkip (l : Loop) (tick : ℤ) : Goes m w (.loopWindow l tick) (.loopSkipRow l m.now)
  | loopSkipRow (l : Loop) (now : ℤ) : Goes m w (.loopSkipRow l now) (.loopRecordSkip l now)
  | loopRecordSkip (l : Loop) (now : ℤ) : Goes m w (.loopRecordSkip l now) (.loopNow l)
  | beginCron (l : Loop) (tick : ℤ) (n : NotifyId) :
      Goes m w (.loopBegin l tick) (.fetch ⟨l.spec.key, l.spec, ⟨[]⟩, l.state, n, .cron l⟩)
  | loopBusy (l : Loop) (tick : ℤ) : Goes m w (.loopBegin l tick) (.loopNow l)

variable {c b} {m : Shared} {pc : Pc} {w : DispatchWorld} {e : Effect Shared Pc}

/-- **Every step goes along one of these edges.** -/
theorem step_goes (h : pc.step c b m w = some e) : Goes c b m w pc e.next := by
  cases pc with
  | registering todo reply =>
    cases todo with
    | nil => obtain rfl := Option.some.inj h; exact .returnReply reply
    | cons spec todo => obtain rfl := Option.some.inj h; exact .remove spec todo reply
  | spawning spec todo reply => obtain rfl := Option.some.inj h; exact .spawn spec todo reply
  | inserting job todo reply => obtain rfl := Option.some.inj h; exact .insert job todo reply
  | reloadSignal loaded => obtain rfl := Option.some.inj h; exact .signalRunning loaded
  | reloadClear loaded => obtain rfl := Option.some.inj h; exact .clear loaded
  | triggerLookup key extras =>
    simp only [Pc.step] at h
    split at h <;> rename_i hjob <;> obtain rfl := Option.some.inj h
    · exact .notFound key extras _
    · exact .lookup key extras _ hjob
  | triggerBegin key extras job =>
    obtain rfl := Option.some.inj h
    simp only [beginStep]
    split
    · exact .beginManual key extras job _
    · exact .refuse key extras job _
  | fetch run =>
    obtain rfl := Option.some.inj h
    simp only [fetchStep]
    split
    · exact .fetchFail run
    · split
      · rename_i horigin
        exact .fetchManual run _ horigin
      · exact .fetchCron run _
  | spawnRun run cancel => obtain rfl := Option.some.inj h; exact .handOver run cancel
  | dispatching run cancel d =>
    simp only [Pc.step, dispatchStep] at h
    split at h
    · obtain rfl := Option.some.inj h
      exact .complete run cancel d _
    · obtain ⟨d', hd, rfl⟩ := Option.map_eq_some_iff.1 h
      exact .advance run cancel d d' hd
  | recordOutcome run outcome => obtain rfl := Option.some.inj h; exact .recordOutcome run outcome
  | finish run =>
    obtain rfl := Option.some.inj h
    simp only [move]
    cases horigin : run.origin with
    | manual => exact .finishManual run horigin
    | cron l => exact .finishCron run l horigin
  | stopCheck key =>
    simp only [Pc.step] at h
    split at h <;> obtain rfl := Option.some.inj h
    · exact .stopNotFound key _
    · exact .stopCheck key
  | stopSignal key =>
    simp only [Pc.step] at h
    split at h <;> obtain rfl := Option.some.inj h
    · exact .stopSignal key false
    · exact .stopSignal key true
  | loopParse l =>
    simp only [Pc.step] at h
    split at h <;> obtain rfl := Option.some.inj h
    · exact .loopUnparsed l
    · exact .loopParse l
  | loopNow l => obtain rfl := Option.some.inj h; exact .loopNow l
  | loopNext l now =>
    simp only [Pc.step] at h
    split at h <;> obtain rfl := Option.some.inj h
    · exact .loopOver l now
    · exact .loopNext l now _ _
  | loopSleep l tick deadline => obtain rfl := Option.some.inj h; exact .loopWake l tick deadline
  | loopWindow l tick =>
    simp only [Pc.step] at h
    split at h <;> rename_i hallows <;> obtain rfl := Option.some.inj h
    · exact .loopFire l tick hallows
    · exact .loopSkip l tick
  | loopSkipRow l now => obtain rfl := Option.some.inj h; exact .loopSkipRow l now
  | loopRecordSkip l now => obtain rfl := Option.some.inj h; exact .loopRecordSkip l now
  | loopBegin l tick =>
    obtain rfl := Option.some.inj h
    simp only [beginStep]
    split
    · exact .beginCron l tick _
    · exact .loopBusy l tick
  | returned => cases h
  | ended => cases h
  | panicked => cases h

/-- A run begins at one of the two calls of `begin_running`, with the spec of the job that was
looked up or of the loop. -/
theorem begin_cases {run : Run} (h : pc.step c b m w = some e) (hpc : pc.runOf = none)
    (hrun : e.next.runOf = some run) :
    (∃ extras job, pc = .triggerBegin run.key extras job ∧ run.spec = job.spec) ∨
      ∃ l tick, pc = .loopBegin l tick ∧ run.key = l.spec.key ∧ run.spec = l.spec := by
  have hgoes := step_goes h
  generalize e.next = next at hgoes hrun
  cases hgoes with
  | beginManual key extras job n =>
    obtain rfl := Option.some.inj hrun
    exact .inl ⟨extras, job, rfl, rfl⟩
  | beginCron l tick n =>
    obtain rfl := Option.some.inj hrun
    exact .inr ⟨l, tick, rfl, rfl, rfl⟩
  | fetchManual | fetchCron | advance | complete | recordOutcome => cases hpc
  | _ => cases hrun

/-! ### What an action makes of one task -/

variable (c b) in
/-- Where task `u` is after an action: it moved, it stayed and may have been notified, or it is
new. -/
inductive Becomes (s : Sched) (u : TaskId) : Act → Pc → Prop
  | moved {pc : Pc} {e : Effect Shared Pc} (w : DispatchWorld) (hpc : s.tasks u = some pc)
      (he : pc.step c b s.mem w = some e) : Becomes s u (.run u w) e.next
  | stayed {pc : Pc} {a : Act} (ns : List NotifyId) (hpc : s.tasks u = some pc)
      (ha : ∀ w, a ≠ .run u w) : Becomes s u a (pc.notify ns)
  | called (call : Call) (hu : u = s.mem.fresh) : Becomes s u (.call call) call.entry
  | looped {t : TaskId} (w : DispatchWorld) (spec : JobSpec) (expr : String) (ht : t ≠ u)
      (hu : u = s.mem.fresh + 1) :
      Becomes s u (.run t w) (.loopParse ⟨spec, expr, s.mem.fresh⟩)
  | handed {t : TaskId} (w : DispatchWorld) (run : Run) (cancel : NotifyId) (d : Dispatch)
      (ht : t ≠ u) (hu : u = s.mem.fresh) (hpc : s.tasks t = some (.spawnRun run cancel)) :
      Becomes s u (.run t w) (.dispatching run cancel d)

/-- **Every task of the next state has come about in one of these ways.** -/
theorem step_becomes {s s' : Sched} {u : TaskId} {a : Act} {p : Pc}
    (h : (schedMachine c b).step s a = some s') (hp : s'.tasks u = some p) :
    Becomes c b s u a p := by
  have hsame {q : Pc} : q = q.notify [] := by rw [notify_nil, id]
  cases a with
  | call call =>
    obtain rfl := Option.some.inj h
    rcases Pool.tasks_add_cases hp with ⟨hu, rfl⟩ | ⟨-, hq⟩
    · exact .called call hu
    · rw [hsame (q := p)]
      exact .stayed [] hq (by rintro w ⟨⟩)
  | clock now =>
    obtain rfl := Option.some.inj h
    rw [hsame (q := p)]
    exact .stayed [] hp (by rintro w ⟨⟩)
  | run t w =>
    obtain ⟨pc, e, hpc, he, rfl⟩ := run_step h
    rcases Pool.tasks_apply_cases hp with ⟨rfl, rfl⟩ | ⟨hu, hsp⟩ | ⟨hu, q, hq, rfl⟩
    · exact .moved w hpc he
    · rcases (step_does he).spawn_cases hsp with ⟨spec, todo, reply, expr, -, -, -, hv, rfl⟩ |
        ⟨run, cancel, rfl, -, hv, rfl⟩
      · exact .looped w spec expr (Ne.symm hu) hv
      · exact .handed w run cancel _ (Ne.symm hu) hv hpc
    · obtain ⟨ns, hns⟩ := (step_does he).touch_eq
      rw [hns]
      refine .stayed ns hq ?_
      rintro w' hw
      exact hu (Act.run.inj hw).1.symm

end CronManager

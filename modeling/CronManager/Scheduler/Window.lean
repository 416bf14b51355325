import CronManager.Scheduler.Flow
import CronManager.Scheduler.Ownership

/-!
# Fires and the time window of their job

A job may have a time window.  `scheduling_loop` checks it before it begins a run: a fire outside
the window is recorded as `SKIPPED` and nothing else happens.  `trigger_now` has no such check.

`keepsWindows` is the condition that `trigger_now` begins no run outside the window of its job, and
that the clock does not leave the window of a fire that has passed the check and has not begun.  In
every run that meets it each run of a job, and so each attempt, belongs to a dispatch that began
inside the window (`fires_inside_window`).  A manual trigger outside the window breaks it
(`trigger_outside_window`).
-/

namespace CronManager

open Rust

/-- What a loop does with a fire that it checks at `now`, whatever the other tasks do to the memory
between its steps: it begins no run, records one `SKIPPED` row of its job, sets the job's result to
`SKIPPED` and turns to the next fire. -/
structure Loop.SkipsFire (c : Crates) (b : ExecutorBundle) (l : Loop) (tick now : ℤ) : Prop where
  check : ∀ m w, m.now = now →
    Pc.step c b m (.loopWindow l tick) w = some (move m (.loopSkipRow l now))
  row : ∀ m w, ∃ row, row.status = .skipped ∧ row.jobGroup = l.spec.key.group ∧
    row.jobName = l.spec.key.name ∧ Pc.step c b m (.loopSkipRow l now) w =
      some (move (m.record [row]) (.loopRecordSkip l now))
  state : ∀ m w, ∃ m', m'.states l.state = ⟨some now, "SKIPPED"⟩ ∧
    m' = { m with states := m'.states } ∧
    Pc.step c b m (.loopRecordSkip l now) w = some (move m' (.loopNow l))

/-- The dispatch of the run began, at the time of its entry in `running`, inside the window of its
job. -/
def Sched.BegunInside (s : Sched) (run : Run) : Prop :=
  ∃ inst, s.mem.running.lookup run.key = some inst ∧ inst.cancel = run.mine ∧
    run.spec.window.allows inst.startedAtMs = true

/-- The fires keep to the windows of their jobs: a dispatch that has started an attempt, or that
leaves another outcome than `SKIPPED`, began inside the window, and a fire of a loop outside the
window is only skipped. -/
structure WindowKept (c : Crates) (b : ExecutorBundle) (s : Sched) : Prop where
  attempts : ∀ t run cancel d, s.tasks t = some (.dispatching run cancel d) → d.started ≠ [] →
    s.BegunInside run
  outcomes : ∀ t run outcome, s.tasks t = some (.recordOutcome run outcome) →
    outcome.status ≠ .skipped → s.BegunInside run
  skipped : ∀ t l tick, s.tasks t = some (.loopWindow l tick) →
    l.spec.window.allows s.mem.now = false → l.SkipsFire c b tick s.mem.now

/-- A fire that has passed the check of the window is still inside it at `now`. -/
def Pc.firesInside (now : ℤ) : Pc → Bool
  | .loopBegin l _ => l.spec.window.allows now
  | _ => true

/-- `trigger_now` begins a run only inside the window of the job, and the clock leaves the window
of no fire between the check and the beginning of its run. -/
def keepsWindows (s : Sched) : Act → Bool
  | .run t _ => match s.tasks t with
    | some (.triggerBegin key _ job) => key ∈ s.mem.running ∨ job.spec.window.allows s.mem.now
    | _ => true
  | .clock now => (List.range s.mem.fresh).all fun u => (s.tasks u).all (Pc.firesInside now)
  | .call _ => true

/-- The runs in progress began inside the windows of their jobs, and the fires that are past the
check are inside. -/
structure Inside (s : Sched) : Prop where
  owned : Owned s
  begun : ∀ t run inst, s.InProgress t run → s.mem.running.lookup run.key = some inst →
    run.spec.window.allows inst.startedAtMs = true
  checked : ∀ t pc, s.tasks t = some pc → pc.firesInside s.mem.now = true

variable {c : Crates} {b : ExecutorBundle} {s s' : Sched} {t u : TaskId} {m : Shared} {pc : Pc}
  {w : DispatchWorld} {e : Effect Shared Pc}

/-! ### What a step does to the runs -/

theorem now_step (h : pc.step c b m w = some e) : e.mem.now = m.now := by
  cases pc with
  | registering todo reply => cases todo <;> cases h <;> rfl
  | triggerBegin | loopBegin =>
    obtain rfl := Option.some.inj h
    simp only [beginStep]
    split
    · rename_i hbegin
      obtain ⟨-, -, rfl⟩ := Shared.beginRunning_eq_ok.1 hbegin
      rfl
    · rfl
  | fetch run =>
    obtain rfl := Option.some.inj h
    rw [Does.mem_fetchStep]
  | dispatching run cancel d =>
    simp only [Pc.step, dispatchStep] at h
    split at h
    · cases h
      rfl
    · obtain ⟨d', -, rfl⟩ := Option.map_eq_some_iff.1 h
      rfl
  | triggerLookup | stopCheck | stopSignal | loopParse | loopNext | loopWindow =>
    simp only [Pc.step] at h
    split at h <;> cases h <;> rfl
  | _ => cases h <;> rfl

theorem runOf_next {run : Run} (hdoes : Does c b m w pc e) (h : e.next.runOf = some run) :
    pc.runOf = some run ∨ pc.runOf = none := by
  cases hdoes with
  | quiet _ _ _ _ _ _ hrun => exact .inl (hrun ▸ h)
  | begin schedule hrun => exact .inr hrun
  | fetch run' =>
    simp only [fetchStep] at h
    split at h
    · cases h
    · split at h <;> exact .inl h
  | advance run' cancel d d' => exact .inl h
  | finish run' =>
    simp only [move] at h
    cases hrun : run'.origin <;> rw [hrun] at h <;> cases h
  | _ => cases h

theorem inProgress_apply {run : Run} (hpc : s.tasks t = some pc)
    (hdoes : Does c b s.mem w pc e) (h : Sched.InProgress (s.apply t e) u run) :
    (∃ u', s.InProgress u' run) ∨ (pc.runOf = none ∧ e.next.runOf = some run) := by
  obtain ⟨p, hp, hrun⟩ := h
  rcases Pool.tasks_apply_cases hp with ⟨-, rfl⟩ | ⟨-, hsp⟩ | ⟨-, q, hq, rfl⟩
  · rcases runOf_next hdoes hrun with hsame | hnone
    · exact .inl ⟨t, pc, hpc, hsame⟩
    · exact .inr ⟨hnone, hrun⟩
  · rcases hdoes.spawn_cases hsp with ⟨spec, todo, reply, expr, -, -, -, -, rfl⟩ |
      ⟨run', cancel, rfl, -, -, rfl⟩
    · cases hrun
    · exact .inl ⟨t, _, hpc, hrun⟩
  · obtain ⟨ns, hns⟩ := hdoes.touch_eq
    rw [hns, runOf_notify] at hrun
    exact .inl ⟨u, q, hq, hrun⟩

theorem startedAt_of_begin {run : Run} (hdoes : Does c b m w pc e) (hnone : pc.runOf = none)
    (hrun : e.next.runOf = some run) :
    m.running.lookup run.key = none ∧
      ∀ inst, e.mem.running.lookup run.key = some inst → inst.startedAtMs = m.now := by
  cases hdoes with
  | quiet _ _ _ _ _ _ hsame =>
    rw [hsame, hnone] at hrun
    cases hrun
  | begin schedule _ hjob hloop hspec hbegin =>
    obtain rfl := Option.some.inj hrun
    obtain ⟨hfree, -, rfl⟩ := Shared.beginRunning_eq_ok.1 hbegin
    refine ⟨hfree, fun inst hinst => ?_⟩
    simp only [move, HashMap.lookup_insert_eq, if_true] at hinst
    exact (Option.some.inj hinst) ▸ rfl
  | fetch | advance | finish | handOver => cases hnone
  | _ => cases hrun

theorem lookup_running_step {k : JobKey} {inst inst' : RunningInstance}
    (hdoes : Does c b m w pc e) (hk : m.running.lookup k = some inst)
    (h : e.mem.running.lookup k = some inst') : inst' = inst := by
  have hsame : e.mem.running.lookup k = m.running.lookup k → inst' = inst := by
    intro heq
    rw [heq, hk] at h
    exact (Option.some.inj h).symm
  cases hdoes with
  | quiet jobs running => exact hsame (by rw [running])
  | begin schedule hrun hjob hloop hspec hbegin =>
    obtain ⟨hfree, -, rfl⟩ := Shared.beginRunning_eq_ok.1 hbegin
    refine hsame ?_
    simp only [move, HashMap.lookup_insert_eq]
    split_ifs with heq
    · rw [heq, hfree] at hk
      cases hk
    · rfl
  | fetch run => exact hsame (by rw [Does.mem_fetchStep])
  | finish run =>
    refine hsame ?_
    simp only [move, Shared.removeRunning, HashMap.lookup_erase_eq] at h ⊢
    split_ifs at h ⊢
    rfl
  | _ => exact hsame rfl

/-- A fire gets past the check only inside the window. -/
theorem firesInside_next (h : pc.step c b m w = some e) :
    e.next.firesInside m.now = true := by
  have hgoes := step_goes h
  generalize e.next = next at hgoes ⊢
  cases hgoes with
  | loopFire l tick hallows => exact hallows
  | _ => rfl

theorem firesInside_notify {ns : List NotifyId} {now : ℤ} :
    (pc.notify ns).firesInside now = pc.firesInside now := by
  cases pc <;> rfl

/-! ### One step -/

/-- A run that a step begins is inside its window: `scheduling_loop` has checked it, and the
condition says so of `trigger_now`. -/
theorem allows_of_begin {run : Run} (h : Inside s) (hg : keepsWindows s (.run t w) = true)
    (hpc : s.tasks t = some pc) (he : pc.step c b s.mem w = some e) (hnone : pc.runOf = none)
    (hrun : e.next.runOf = some run) (hfree : s.mem.running.lookup run.key = none) :
    run.spec.window.allows s.mem.now = true := by
  rcases begin_cases he hnone hrun with ⟨extras, job, rfl, hspec⟩ | ⟨l, tick, rfl, -, hspec⟩
  · simp only [keepsWindows, hpc, decide_eq_true_eq] at hg
    rcases hg with hmem | hallows
    · have hsome := AList.lookup_isSome.2 hmem
      rw [hfree] at hsome
      cases hsome
    · exact hspec ▸ hallows
  · exact hspec ▸ h.checked t _ hpc

theorem inside_run (h : Inside s) (hg : keepsWindows s (.run t w) = true)
    (hpc : s.tasks t = some pc) (he : pc.step c b s.mem w = some e)
    (howned : Owned (s.apply t e)) : Inside (s.apply t e) := by
  have hdoes := step_does he
  refine ⟨howned, ?_, ?_⟩
  · intro u run inst hprog hinst
    rw [Pool.mem_apply] at hinst
    rcases inProgress_apply hpc hdoes hprog with ⟨u', p, hp, hrun⟩ | ⟨hnone, hrun⟩
    · obtain ⟨inst', hinst', -⟩ := lookup_of_lease h.owned hp hrun
      obtain rfl := lookup_running_step hdoes hinst' hinst
      exact h.begun u' run inst ⟨p, hp, hrun⟩ hinst'
    · obtain ⟨hfree, hnow⟩ := startedAt_of_begin hdoes hnone hrun
      rw [hnow inst hinst]
      exact allows_of_begin h hg hpc he hnone hrun hfree
  · rw [Pool.mem_apply, now_step he]
    refine Pool.forall_tasks_apply (firesInside_next he) ?_ ?_
    · intro v p hv
      rcases hdoes.spawn_cases hv with ⟨spec, todo, reply, expr, -, -, -, -, rfl⟩ |
        ⟨run, cancel, -, -, -, rfl⟩
      · rfl
      · rfl
    · intro u q hq
      obtain ⟨ns, hns⟩ := hdoes.touch_eq
      rw [hns, firesInside_notify]
      exact h.checked u q hq

/-- **A step that meets the condition keeps the fires inside the windows.** -/
theorem inside_step {a : Act} (h : Inside s) (hg : keepsWindows s a = true)
    (hs : (schedMachine c b).step s a = some s') : Inside s' := by
  have howned := owned_step h.owned hs
  cases a with
  | call call =>
    obtain rfl := Option.some.inj hs
    refine ⟨howned, ?_, ?_⟩
    · rintro u run inst ⟨p, hp, hrun⟩ hinst
      rcases Pool.tasks_add_cases hp with ⟨-, rfl⟩ | ⟨-, hq⟩
      · cases call <;> cases hrun
      · exact h.begun u run inst ⟨p, hq, hrun⟩ hinst
    · intro u p hp
      rcases Pool.tasks_add_cases hp with ⟨-, rfl⟩ | ⟨-, hq⟩
      · cases call <;> rfl
      · exact h.checked u p hq
  | run t w =>
    obtain ⟨pc, e, hpc, he, rfl⟩ := run_step hs
    exact inside_run h hg hpc he howned
  | clock now =>
    obtain rfl := Option.some.inj hs
    refine ⟨howned, h.begun, ?_⟩
    intro u p hp
    have hu : u ∈ List.range s.mem.fresh := List.mem_range.2 (h.owned.tasksFresh u p hp)
    have hall := List.all_eq_true.1 hg u hu
    rwa [hp, Option.all_some] at hall

/-! ### Whole runs -/

/-- A loop only skips a fire outside the window. -/
theorem skipsFire_of_not_allows {l : Loop} {tick now : ℤ}
    (h : l.spec.window.allows now = false) : l.SkipsFire c b tick now where
  check := by
    rintro m w rfl
    simp [Pc.step, h]
  row m w := ⟨windowSkipRow l.spec m.now, rfl, rfl, rfl, rfl⟩
  state m w := ⟨m.recordSkip l.state now, by simp [Shared.recordSkip], rfl, rfl⟩

/-- **Fires keep to the windows of their jobs.**  In every run in which `trigger_now` begins no run
outside the window of its job and the clock leaves the window of no fire between its check and its
beginning, a dispatch that starts an attempt or leaves another outcome than `SKIPPED` began inside
the window, and a fire of a loop outside the window is only skipped. -/
theorem fires_inside_window {as : List Act}
    (h : (schedMachine c b).Runs (fun s a => keepsWindows s a = true) Sched.init as s) :
    WindowKept c b s := by
  have hinit : Inside Sched.init := by
    refine ⟨owned_init, ?_, ?_⟩
    · rintro t run inst ⟨pc, ⟨⟩, -⟩
    · rintro t pc ⟨⟩
  have hin := h.invariant hinit fun _ _ _ hi hg hs => inside_step hi hg hs
  have hbegun {t run} (hprog : s.InProgress t run) : s.BegunInside run := by
    obtain ⟨pc, hpc, hrun⟩ := hprog
    obtain ⟨inst, hinst, hcancel⟩ := lookup_of_lease hin.owned hpc hrun
    exact ⟨inst, hinst, hcancel, hin.begun t run inst ⟨pc, hpc, hrun⟩ hinst⟩
  refine ⟨?_, ?_, fun t l tick _ => skipsFire_of_not_allows⟩
  · intro t run cancel d ht _
    exact hbegun ⟨_, ht, rfl⟩
  · intro t run outcome ht _
    exact hbegun ⟨_, ht, rfl⟩

/-! ### A trigger inside the window, and one outside -/

/-- `demoSpec` until time 1000. -/
def windowSpec : JobSpec := { demoSpec with window := ⟨none, some 1000⟩ }

/-- At time `now`, register `windowSpec`, trigger it and let its dispatch start an attempt. -/
def triggerAt (now : ℤ) : List Act :=
  .clock now :: .call (.register windowSpec) :: List.replicate 4 (.run 0 (demoWorld .timeout)) ++
    .call (.triggerNow windowSpec.key noExtras) ::
      List.replicate 4 (.run 3 (demoWorld .timeout)) ++ [.run 5 (demoWorld .timeout)]

/-- The run of a task whose dispatch has started an attempt. -/
def Pc.attempting : Pc → Option Run
  | .dispatching run _ d => if d.started ≠ [] then some run else none
  | _ => none

theorem attempting_eq_some {run : Run} (h : pc.attempting = some run) :
    ∃ cancel d, pc = .dispatching run cancel d ∧ d.started ≠ [] := by
  cases pc with
  | dispatching run' cancel d =>
    simp only [Pc.attempting] at h
    split_ifs at h with hd
    obtain rfl := Option.some.inj h
    exact ⟨cancel, d, rfl, hd⟩
  | _ => cases h

/-- A manual run inside the window: its attempt belongs to a dispatch begun inside. -/
theorem fires_inside_window_manual :
    ∃ s t run, (schedMachine noCrates demoBundle).Reaches Sched.init s ∧
      (s.tasks t).bind Pc.attempting = some run ∧ run.spec = windowSpec ∧
      s.BegunInside run := by
  let m := schedMachine noCrates demoBundle
  let s := (m.runIf keepsWindows Sched.init (triggerAt 500)).getD Sched.init
  have hs : m.runIf keepsWindows Sched.init (triggerAt 500) = some s := eq_some_getD (by decide)
  have hspec : ((s.tasks 5).bind Pc.attempting).map (·.spec) = some windowSpec := by decide
  obtain ⟨run, hrun, hwin⟩ := Option.map_eq_some_iff.1 hspec
  obtain ⟨pc, hpc, hatt⟩ := Option.bind_eq_some_iff.1 hrun
  obtain ⟨cancel, d, rfl, hd⟩ := attempting_eq_some hatt
  have hruns := Machine.runs_of_runIf hs
  exact ⟨s, 5, run, hruns.reaches, hrun, hwin,
    (fires_inside_window hruns).attempts 5 run cancel d hpc hd⟩

/-- A manual trigger after the window has closed starts an attempt all the same. -/
theorem trigger_outside_window :
    ¬ ∀ c b s, (schedMachine c b).Reaches Sched.init s → WindowKept c b s := by
  intro h
  let m := schedMachine noCrates demoBundle
  let s := (m.run Sched.init (triggerAt 2000)).getD Sched.init
  have hs : m.run Sched.init (triggerAt 2000) = some s := eq_some_getD (by decide)
  have hspec : ((s.tasks 5).bind Pc.attempting).map (fun run => (run.spec, run.key)) =
      some (windowSpec, windowSpec.key) := by decide
  obtain ⟨run, hrun, hwin⟩ := Option.map_eq_some_iff.1 hspec
  obtain ⟨pc, hpc, hatt⟩ := Option.bind_eq_some_iff.1 hrun
  obtain ⟨cancel, d, rfl, hd⟩ := attempting_eq_some hatt
  obtain ⟨inst, hinst, -, hallows⟩ :=
    (h _ _ s (Machine.reaches_of_run hs)).attempts 5 run cancel d hpc hd
  rw [(Prod.mk.inj hwin).2] at hinst
  rw [(Prod.mk.inj hwin).1] at hallows
  have hstart : (s.mem.running.lookup windowSpec.key).map (·.startedAtMs) = some 2000 := by decide
  rw [hinst, Option.map_some] at hstart
  rw [Option.some.inj hstart] at hallows
  exact absurd hallows (by decide)

end CronManager

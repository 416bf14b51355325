import CronManager.Scheduler.Describe
import CronManager.Scheduler.Identity
import CronManager.Scheduler.Ticks

/-!
# The last execution that `describe` reports

Two writers set the runtime state of a job: the end of a dispatch, which reads the clock as it
writes, and a skip outside the window, which writes the time at which it checked the window and
awaits the history in between.  A manual run has no window, so it may end while a skip waits.

`outcomeAfterSkips` is the condition that no outcome is recorded for one job while an older skip of
this job waits to be recorded.  In every run that meets it the `lastExecution` of the job, as long
as it is not registered again, never decreases (`lastExecution_le`).  An outcome recorded during a
skip breaks it (`skip_overwrites`), and whatever is recorded then the skip overwrites
(`outcome_overwritten`).
-/

namespace CronManager

open Rust

/-- A skip that is not recorded yet: the runtime state it will write, and the time it will write. -/
def Pc.skipping : Pc → Option (ArcId × ℤ)
  | .loopSkipRow l nowMs | .loopRecordSkip l nowMs => some (l.state, nowMs)
  | _ => none

/-- No outcome is recorded in a runtime state for which an older skip waits to be recorded. -/
def outcomeAfterSkips (arc : ArcId) (s : Sched) : Act → Bool
  | .run t _ => match s.tasks t with
    | some (.recordOutcome run _) => run.state ≠ arc || (List.range s.mem.fresh).all fun u =>
      ((s.tasks u).bind Pc.skipping).all fun skip => skip.1 ≠ arc ∨ s.mem.now ≤ skip.2
    | _ => true
  | _ => true

/-- The action enters no new registration of `key`. -/
def notRegistered (key : JobKey) (s : Sched) : Act → Bool
  | .run t _ => match s.tasks t with
    | some (.inserting job _ _) => job.spec.key ≠ key
    | _ => true
  | _ => true

/-- The runtime states and the loops that write to them: each loop has a state of its own, no time
stamp is in the future, and a skip that waits for `arc` is no older than what `arc` holds. -/
structure Stamped (arc : ArcId) (s : Sched) : Prop where
  identified : Identified s
  handsOver : ∀ u pc, s.tasks u = some pc → pc.HandsOverManual
  loopFresh : ∀ u l, s.LiveLoop u l → l.state < s.mem.fresh
  loopUnique : ∀ u u' l l', s.LiveLoop u l → s.LiveLoop u' l' → l.state = l'.state → u = u'
  epoch : 0 ≤ s.mem.now
  stored : ∀ arc v, (s.mem.states arc).lastExecutionMs = some v → 0 ≤ v ∧ v ≤ s.mem.now
  waiting : ∀ u arc' nowMs, (s.tasks u).bind Pc.skipping = some (arc', nowMs) →
    0 ≤ nowMs ∧ nowMs ≤ s.mem.now
  skips : ∀ u nowMs, (s.tasks u).bind Pc.skipping = some (arc, nowMs) →
    ∀ v, (s.mem.states arc).lastExecutionMs = some v → v ≤ nowMs

variable {c : Crates} {b : ExecutorBundle} {s s' : Sched} {t u : TaskId} {a : Act} {m : Shared}
  {pc : Pc} {w : DispatchWorld} {e : Effect Shared Pc} {l : Loop} {arc arc' : ArcId} {nowMs : ℤ}

/-! ### The runtime states -/

/-- What an action does to the time of a runtime state. -/
inductive Stamps (s : Sched) (a : Act) (s' : Sched) (arc : ArcId) : Prop
  | same (h : s'.mem.states arc = s.mem.states arc)
  | outcome (t : TaskId) (w : DispatchWorld) (run : Run) (outcome : DispatchOutcome)
      (ha : a = .run t w) (hpc : s.tasks t = some (.recordOutcome run outcome))
      (harc : run.state = arc) (h : (s'.mem.states arc).lastExecutionMs = some s.mem.now)
  | skip (t : TaskId) (w : DispatchWorld) (l : Loop) (nowMs : ℤ) (ha : a = .run t w)
      (hpc : s.tasks t = some (.loopRecordSkip l nowMs)) (harc : l.state = arc)
      (h : (s'.mem.states arc).lastExecutionMs = some nowMs)
  | new (harc : arc = s.mem.fresh) (h : (s'.mem.states arc).lastExecutionMs = none)

/-- **Only the end of a dispatch and a skip set a time.** -/
theorem step_stamps (hs : (schedMachine c b).step s a = some s') (arc : ArcId) :
    Stamps s a s' arc := by
  cases a with
  | call | clock =>
    obtain rfl := Option.some.inj hs
    exact .same rfl
  | run t w =>
    obtain ⟨pc, e, hpc, he, rfl⟩ := run_step hs
    cases pc with
    | registering todo reply => cases todo <;> cases he <;> exact .same rfl
    | spawning spec todo reply =>
      obtain rfl := Option.some.inj he
      by_cases harc : arc = s.mem.fresh
      · exact .new harc (by simp [spawnStep, Shared.prepareJob, harc, JobRuntimeState.default])
      · exact .same (by simp [spawnStep, Shared.prepareJob, harc])
    | recordOutcome run outcome =>
      obtain rfl := Option.some.inj he
      by_cases harc : arc = run.state
      · exact .outcome t w run outcome rfl hpc harc.symm
          (by simp [move, Shared.recordOutcome, harc])
      · exact .same (by simp [move, Shared.recordOutcome, harc])
    | loopRecordSkip l nowMs =>
      obtain rfl := Option.some.inj he
      by_cases harc : arc = l.state
      · exact .skip t w l nowMs rfl hpc harc.symm (by simp [move, Shared.recordSkip, harc])
      · exact .same (by simp [move, Shared.recordSkip, harc])
    | triggerBegin | loopBegin =>
      obtain rfl := Option.some.inj he
      refine .same ?_
      simp only [Pool.mem_apply, beginStep]
      split
      · rename_i hbegin
        obtain ⟨-, -, rfl⟩ := Shared.beginRunning_eq_ok.1 hbegin
        rfl
      · rfl
    | fetch run =>
      obtain rfl := Option.some.inj he
      exact .same (by rw [Pool.mem_apply, Does.mem_fetchStep])
    | dispatching run cancel d =>
      simp only [Pc.step, dispatchStep] at he
      split at he
      · cases he
        exact .same rfl
      · obtain ⟨d', -, rfl⟩ := Option.map_eq_some_iff.1 he
        exact .same rfl
    | triggerLookup | stopCheck | stopSignal | loopParse | loopNext | loopWindow =>
      simp only [Pc.step] at he
      split at he <;> cases he <;> exact .same rfl
    | _ => cases he <;> exact .same rfl

/-! ### The loops -/

/-- Only manual runs get to the step that hands them over. -/
theorem handsOver_kept : Pc.Kept c b Pc.HandsOverManual where
  next := by
    intro m pc w e _ he
    have hgoes := step_goes he
    generalize e.next = next at hgoes ⊢
    cases hgoes with
    | fetchManual run cancel horigin => exact horigin
    | _ => trivial
  spawn := by
    intro m pc w e _ he v p hv
    rcases (step_does he).spawn_cases hv with ⟨spec, todo, reply, expr, -, -, -, -, rfl⟩ |
      ⟨run, cancel, -, -, -, rfl⟩
    · trivial
    · trivial
  notify := by
    intro pc h ns
    cases pc <;> exact h

theorem liveLoop_step (hhands : ∀ u pc, s.tasks u = some pc → pc.HandsOverManual)
    (hs : (schedMachine c b).step s a = some s') (h : s'.LiveLoop u l) :
    s.LiveLoop u l ∨ (u = s.mem.fresh + 1 ∧ l.state = s.mem.fresh) := by
  cases a with
  | call call =>
    obtain rfl := Option.some.inj hs
    exact .inl (liveLoop_add h)
  | clock now =>
    obtain rfl := Option.some.inj hs
    exact .inl h
  | run t w =>
    obtain ⟨pc, e, hpc, hdoes, rfl⟩ := run_does hs
    rcases liveLoop_apply hhands hpc hdoes h with hlive | ⟨hu, hstate, -⟩
    · exact .inl hlive
    · exact .inr ⟨hu, hstate⟩

theorem liveLoop_of_skipping (h : (s.tasks u).bind Pc.skipping = some (arc, nowMs)) :
    ∃ l, s.LiveLoop u l ∧ l.state = arc := by
  obtain ⟨pc, hpc, hskip⟩ := Option.bind_eq_some_iff.1 h
  cases pc with
  | loopSkipRow l now | loopRecordSkip l now =>
    obtain ⟨rfl, -⟩ := Prod.mk.inj (Option.some.inj hskip)
    exact ⟨l, ⟨_, hpc, rfl⟩, rfl⟩
  | _ => cases hskip

theorem Stamped.loopFresh_step (h : Stamped arc s) (hs : (schedMachine c b).step s a = some s') :
    ∀ u l, s'.LiveLoop u l → l.state < s'.mem.fresh := by
  intro u l hl
  rcases liveLoop_step h.handsOver hs hl with hlive | ⟨hu, hstate⟩
  · exact (h.loopFresh u l hlive).trans_le (fresh_le hs)
  · obtain ⟨p, hp, -⟩ := hl
    have hlt := (identified_step h.identified hs).owned.tasksFresh u p hp
    rw [hu] at hlt
    rw [hstate]
    exact (Nat.lt_succ_self _).trans hlt

theorem Stamped.loopUnique_step (h : Stamped arc s) (hs : (schedMachine c b).step s a = some s') :
    ∀ u u' l l', s'.LiveLoop u l → s'.LiveLoop u' l' → l.state = l'.state → u = u' := by
  intro u u' l l' hl hl' hstate
  rcases liveLoop_step h.handsOver hs hl with hlive | ⟨hu, hnew⟩
  · rcases liveLoop_step h.handsOver hs hl' with hlive' | ⟨-, hnew'⟩
    · exact h.loopUnique u u' l l' hlive hlive' hstate
    · exact absurd (h.loopFresh u l hlive) (hstate.trans hnew').not_lt
  · rcases liveLoop_step h.handsOver hs hl' with hlive' | ⟨hu', -⟩
    · exact absurd (h.loopFresh u' l' hlive') (hstate.symm.trans hnew).not_lt
    · rw [hu, hu']

/-! ### The time stamps -/

theorem Stamped.stored_step (h : Stamped arc s) (hs : (schedMachine c b).step s a = some s') {v : ℤ}
    (hv : (s'.mem.states arc').lastExecutionMs = some v) : 0 ≤ v ∧ v ≤ s.mem.now := by
  cases step_stamps hs arc' with
  | same hsame => exact h.stored arc' v (hsame ▸ hv)
  | outcome t w run outcome ha hpc harc hnew =>
    rw [hnew] at hv
    obtain rfl := Option.some.inj hv
    exact ⟨h.epoch, le_refl _⟩
  | skip t w l nowMs ha hpc harc hnew =>
    rw [hnew] at hv
    obtain rfl := Option.some.inj hv
    exact h.waiting t l.state nowMs (by rw [hpc]; rfl)
  | new harc hnone =>
    rw [hnone] at hv
    cases hv

theorem skipping_step (hs : (schedMachine c b).step s a = some s')
    (h : (s'.tasks u).bind Pc.skipping = some (arc, nowMs)) :
    (s.tasks u).bind Pc.skipping = some (arc, nowMs) ∨ nowMs = s.mem.now := by
  obtain ⟨p, hp, hskip⟩ := Option.bind_eq_some_iff.1 h
  cases step_becomes hs hp with
  | @moved pc e w hpc he =>
    have hgoes := step_goes he
    generalize e.next = next at hgoes hskip
    cases hgoes with
    | loopSkip l tick => exact .inr (Prod.mk.inj (Option.some.inj hskip)).2.symm
    | loopSkipRow l now => exact .inl (by rw [hpc]; exact hskip)
    | _ => cases hskip
  | @stayed pc a ns hpc =>
    refine .inl ?_
    rw [hpc]
    cases pc <;> exact hskip
  | called call => cases call <;> cases hskip
  | looped | handed => cases hskip

theorem skipping_recorded (hs : (schedMachine c b).step s (.run t w) = some s')
    (hpc : s.tasks t = some (.loopRecordSkip l nowMs)) :
    (s'.tasks t).bind Pc.skipping = none := by
  obtain ⟨pc, e, hpc', he, rfl⟩ := run_step hs
  rw [hpc] at hpc'
  obtain rfl := Option.some.inj hpc'
  obtain rfl := Option.some.inj he
  rw [Pool.tasks_apply_self]
  rfl

theorem le_of_outcomeAfterSkips (hfresh : s.TasksFresh) {run : Run} {outcome : DispatchOutcome}
    (hg : outcomeAfterSkips run.state s (.run t w) = true)
    (hpc : s.tasks t = some (.recordOutcome run outcome))
    (hskip : (s.tasks u).bind Pc.skipping = some (run.state, nowMs)) : s.mem.now ≤ nowMs := by
  obtain ⟨p, hp, -⟩ := Option.bind_eq_some_iff.1 hskip
  simp only [outcomeAfterSkips, hpc, ne_eq, not_true_eq_false, decide_false, Bool.false_or] at hg
  have hu := List.all_eq_true.1 hg u (List.mem_range.2 (hfresh u p hp))
  rw [hskip, Option.all_some, decide_eq_true_eq] at hu
  exact hu.resolve_left fun hne => hne rfl

theorem Stamped.waiting_step (h : Stamped arc s) (hnow : s.mem.now ≤ s'.mem.now)
    (hs : (schedMachine c b).step s a = some s') :
    ∀ u arc' nowMs, (s'.tasks u).bind Pc.skipping = some (arc', nowMs) →
      0 ≤ nowMs ∧ nowMs ≤ s'.mem.now := by
  intro u arc' nowMs hskip
  rcases skipping_step hs hskip with hold | rfl
  · exact (h.waiting u arc' nowMs hold).imp_right fun hle => hle.trans hnow
  · exact ⟨h.epoch, hnow⟩

/-- A skip that waits stays no older than what its job has recorded. -/
theorem Stamped.skips_step (h : Stamped arc s) (hg : outcomeAfterSkips arc s a = true)
    (hs : (schedMachine c b).step s a = some s') :
    ∀ u nowMs, (s'.tasks u).bind Pc.skipping = some (arc, nowMs) →
      ∀ v, (s'.mem.states arc).lastExecutionMs = some v → v ≤ nowMs := by
  intro u nowMs hskip v hv
  rcases skipping_step hs hskip with hold | rfl
  · cases step_stamps hs arc with
    | same hsame => exact h.skips u nowMs hold v (hsame ▸ hv)
    | outcome t w run outcome ha hpc harc hnew =>
      subst ha harc
      rw [hnew] at hv
      obtain rfl := Option.some.inj hv
      exact le_of_outcomeAfterSkips h.identified.owned.tasksFresh hg hpc hold
    | skip t w l nowMs' ha hpc harc hnew =>
      -- the loop of the state is the one that waits, and it does not any more
      subst ha
      obtain ⟨l', hlive, hstate⟩ := liveLoop_of_skipping hold
      obtain rfl := h.loopUnique t u l l' ⟨_, hpc, rfl⟩ hlive (harc.trans hstate.symm)
      rw [skipping_recorded hs hpc] at hskip
      cases hskip
    | new harc hnone =>
      rw [hnone] at hv
      cases hv
  · exact (h.stored_step hs hv).2

/-- The clock does not run backwards, and no outcome is recorded in `arc` while an older skip waits
for it. -/
def keepsStamps (arc : ArcId) (s : Sched) (a : Act) : Bool :=
  clockForward s a && outcomeAfterSkips arc s a

theorem stamped_init : Stamped arc Sched.init where
  identified := identified_init
  handsOver := by rintro u pc ⟨⟩
  loopFresh := by rintro u l ⟨pc, ⟨⟩, -⟩
  loopUnique := by rintro u u' l l' ⟨pc, ⟨⟩, -⟩
  epoch := le_refl 0
  stored := by rintro arc v ⟨⟩
  waiting := by rintro u arc' nowMs ⟨⟩
  skips := by rintro u nowMs ⟨⟩

/-- **A step that meets the condition keeps the time stamps in order.** -/
theorem stamped_step (h : Stamped arc s) (hg : keepsStamps arc s a = true)
    (hs : (schedMachine c b).step s a = some s') : Stamped arc s' := by
  obtain ⟨hclock, hout⟩ := Bool.and_eq_true_iff.1 hg
  have hnow := now_le hclock hs
  refine ⟨identified_step h.identified hs, ?_, h.loopFresh_step hs, h.loopUnique_step hs,
    h.epoch.trans hnow, ?_, h.waiting_step hnow hs, h.skips_step hout hs⟩
  · have hone : (schedMachine c b).Runs (fun _ _ => True) s [a] s' :=
      .cons trivial hs (.nil s')
    exact handsOver_kept.runs hone (fun _ call _ => by cases call <;> trivial) h.handsOver
  · intro arc v hv
    obtain ⟨hpos, hle⟩ := h.stored_step hs hv
    exact ⟨hpos, hle.trans hnow⟩

/-- What `describe` reports of a runtime state. -/
def Sched.lastExecution (s : Sched) (arc : ArcId) : ℤ :=
  (s.mem.states arc).lastExecutionMs.getD 0

/-- **One step** does not take the time of a state back: an outcome writes the current time, and
the state holds nothing newer than a skip that is recorded. -/
theorem lastExecution_step (h : Stamped arc s) (harc : arc < s.mem.fresh)
    (hs : (schedMachine c b).step s a = some s') : s.lastExecution arc ≤ s'.lastExecution arc := by
  have hold {v : ℤ} (hpos : 0 ≤ v)
      (hle : ∀ x, (s.mem.states arc).lastExecutionMs = some x → x ≤ v) :
      s.lastExecution arc ≤ v := by
    rw [Sched.lastExecution]
    cases hlast : (s.mem.states arc).lastExecutionMs with
    | none => exact hpos
    | some x => exact hle x hlast
  cases step_stamps hs arc with
  | same hsame => rw [Sched.lastExecution, Sched.lastExecution, hsame]
  | outcome t w run outcome ha hpc harc hnew =>
    rw [Sched.lastExecution.eq_1 s', hnew]
    exact hold h.epoch fun x hx => (h.stored arc x hx).2
  | skip t w l nowMs ha hpc harc hnew =>
    subst harc
    have hskip : (s.tasks t).bind Pc.skipping = some (l.state, nowMs) := by rw [hpc]; rfl
    rw [Sched.lastExecution.eq_1 s', hnew]
    exact hold (h.waiting t l.state nowMs hskip).1 (h.skips t nowMs hskip)
  | new harc' => exact absurd harc harc'.not_lt

theorem lookup_jobs_step {key : JobKey} {job' : RegisteredJob}
    (hg : notRegistered key s a = true) (hs : (schedMachine c b).step s a = some s')
    (hjob : s'.mem.jobs.lookup key = some job') : s.mem.jobs.lookup key = some job' := by
  cases a with
  | call | clock =>
    obtain rfl := Option.some.inj hs
    exact hjob
  | run t w =>
    obtain ⟨pc, e, hpc, hdoes, rfl⟩ := run_does hs
    rcases hdoes.lookup_jobs hjob with hold | ⟨hins, hkey⟩
    · exact hold
    · simp only [notRegistered, hpc] at hg
      cases pc with
      | inserting job todo reply =>
        obtain rfl := Option.some.inj hins
        simp [hkey] at hg
      | _ => cases hins

/-! ### Whole runs -/

/-- A run that does not register the key again keeps its registration, or drops it, and the time
does not go back. -/
theorem lastExecution_runs {as : List Act} {key : JobKey} {job : RegisteredJob}
    (h₀ : Stamped job.state s)
    (h : (schedMachine c b).Runs
      (fun s a => keepsStamps job.state s a = true ∧ notRegistered key s a = true) s as s')
    (hjob : s.mem.jobs.lookup key = some job) :
    (∀ job', s'.mem.jobs.lookup key = some job' → job' = job) ∧
      s.lastExecution job.state ≤ s'.lastExecution job.state := by
  have hall := h.invariant (I := fun x => Stamped job.state x ∧ job.state < x.mem.fresh ∧
    (∀ job', x.mem.jobs.lookup key = some job' → job' = job) ∧
    s.lastExecution job.state ≤ x.lastExecution job.state) ?_ ?_
  · exact hall.2.2
  · refine ⟨h₀, h₀.identified.jobs key job hjob, fun job' hjob' => ?_, le_refl _⟩
    exact Option.some.inj (hjob'.symm.trans hjob)
  · rintro x a x' ⟨hx, hfresh, hsame, hle⟩ ⟨hkeep, hnot⟩ hs
    exact ⟨stamped_step hx hkeep hs, hfresh.trans_le (fresh_le hs),
      fun job' hjob' => hsame job' (lookup_jobs_step hnot hs hjob'),
      hle.trans (lastExecution_step hx hfresh hs)⟩

/-- A skip that waits can be recorded, whatever has been recorded since. -/
theorem skip_recorded (w : DispatchWorld)
    (hskip : (s.tasks u).bind Pc.skipping = some (arc, nowMs)) :
    ∃ as s', (schedMachine c b).run s as = some s' ∧ s'.lastExecution arc = nowMs := by
  obtain ⟨pc, hpc, hskip⟩ := Option.bind_eq_some_iff.1 hskip
  have hrecord {x : Sched} {l : Loop} (hx : x.tasks u = some (.loopRecordSkip l nowMs)) :
      ∃ x', (schedMachine c b).step x (.run u w) = some x' ∧ x'.lastExecution l.state = nowMs := by
    refine ⟨x.apply u (move (x.mem.recordSkip l.state nowMs) (.loopNow l)), ?_, ?_⟩
    · simp only [schedMachine, hx, Option.bind_some, Pc.step, Option.map_some]
    · simp [Sched.lastExecution, move, Shared.recordSkip]
  cases pc with
  | loopRecordSkip l now =>
    obtain ⟨rfl, rfl⟩ := Prod.mk.inj (Option.some.inj hskip)
    obtain ⟨x', hx', hlast⟩ := hrecord hpc
    exact ⟨[.run u w], x', by rw [Machine.run, hx']; rfl, hlast⟩
  | loopSkipRow l now =>
    obtain ⟨rfl, rfl⟩ := Prod.mk.inj (Option.some.inj hskip)
    -- the row first
    let x : Sched := s.apply u (move (s.mem.record [windowSkipRow l.spec s.mem.now])
      (.loopRecordSkip l now))
    have hx : (schedMachine c b).step s (.run u w) = some x := by
      simp only [schedMachine, hpc, Option.bind_some, Pc.step, Option.map_some, x]
    obtain ⟨x', hx', hlast⟩ := hrecord (x := x) Pool.tasks_apply_self
    refine ⟨[.run u w, .run u w], x', ?_, hlast⟩
    rw [Machine.run, hx, Option.bind_some, Machine.run, hx']
    rfl
  | _ => cases hskip

/-- The condition leaves out only what loses an update: an outcome that is recorded while an older
skip of its job waits can be overwritten by the skip. -/
theorem outcome_overwritten {run : Run} {outcome : DispatchOutcome} (w : DispatchWorld)
    (ht : s.tasks t = some (.recordOutcome run outcome))
    (hskip : (s.tasks u).bind Pc.skipping = some (run.state, nowMs)) (hlt : nowMs < s.mem.now) :
    ∃ s₁ as s₂, (schedMachine c b).step s (.run t w) = some s₁ ∧
      (schedMachine c b).run s₁ as = some s₂ ∧
      s₂.lastExecution run.state < s₁.lastExecution run.state := by
  let s₁ : Sched := s.apply t (move (s.mem.recordOutcome run.state outcome) (.finish run))
  have hs₁ : (schedMachine c b).step s (.run t w) = some s₁ := by
    simp only [schedMachine, ht, Option.bind_some, Pc.step, Option.map_some, s₁]
  have hut : u ≠ t := by
    rintro rfl
    rw [ht] at hskip
    cases hskip
  have htask : s₁.tasks u = s.tasks u := by
    rw [Pool.tasks_apply_other hut (by rintro p ⟨⟩)]
    exact Option.map_id'
  have hskip₁ : (s₁.tasks u).bind Pc.skipping = some (run.state, nowMs) := by rw [htask, hskip]
  obtain ⟨as, s₂, hrun, hlast⟩ := skip_recorded (c := c) (b := b) w hskip₁
  refine ⟨s₁, as, s₂, hs₁, hrun, ?_⟩
  have hnow : s₁.lastExecution run.state = s.mem.now := by
    simp [s₁, Sched.lastExecution, move, Shared.recordOutcome]
  rw [hlast, hnow]
  exact hlt

/-- **`lastExecution` never decreases.**  In every run in which the clock does not run backwards
and no outcome is recorded for one job while an older skip of it waits to be recorded, whatever
happens to other jobs, what `describe` reports for this job does not decrease as long as it is not
registered again. -/
theorem lastExecution_le {as₁ as₂ : List Act} {s₁ s₂ : Sched} {key : JobKey} {job : RegisteredJob}
    {f₁ f₂ : Option String} {d₁ d₂ : JobDescriptor} (hjob : s₁.mem.jobs.lookup key = some job)
    (h₁ : (schedMachine c b).Runs (fun s a => keepsStamps job.state s a = true) Sched.init as₁ s₁)
    (h₂ : (schedMachine c b).Runs
      (fun s a => keepsStamps job.state s a = true ∧ notRegistered key s a = true) s₁ as₂ s₂)
    (hd₁ : s₁.mem.Describes c f₁ key d₁) (hd₂ : s₂.mem.Describes c f₂ key d₂) :
    d₁.lastExecution ≤ d₂.lastExecution := by
  have hstamped := h₁.invariant stamped_init fun _ _ _ h hg hs => stamped_step h hg hs
  obtain ⟨-, job₁, hjob₁, rfl⟩ := Shared.describes_iff.1 hd₁
  obtain ⟨-, job₂, hjob₂, rfl⟩ := Shared.describes_iff.1 hd₂
  obtain rfl := Option.some.inj (hjob.symm.trans hjob₁)
  obtain ⟨hsame, hle⟩ := lastExecution_runs hstamped h₂ hjob
  obtain rfl := hsame job₂ hjob₂
  exact hle

/-! ### A manual run after a skip, and one during it -/

/-- An hourly job whose window has closed at time 500. -/
def closedSpec : JobSpec := { hourlySpec with window := ⟨none, some 500⟩ }

/-- Register `closedSpec`, and let its loop skip the fire at 1000, up to the recording. -/
def skipFire : List Act :=
  .call (.register closedSpec) :: List.replicate 4 (.run 0 (demoWorld .timeout)) ++
    List.replicate 3 (.run 2 (demoWorld .timeout)) ++
    .clock 1000 :: List.replicate 3 (.run 2 (demoWorld .timeout))

/-- Trigger `closedSpec`, and let the run end at 2000. -/
def manualRun : List Act :=
  .call (.triggerNow closedSpec.key noExtras) ::
    List.replicate 4 (.run 3 (demoWorld (.exited (some 0)))) ++
    .clock 2000 :: List.replicate 7 (.run 5 (demoWorld (.exited (some 0))))

/-- The skip is recorded. -/
def recordSkip : List Act := [.run 2 (demoWorld .timeout)]

theorem describes_closedSpec (s : Sched) (last : ℤ)
    (h : (s.mem.jobs.lookup closedSpec.key).map (fun job => s.lastExecution job.state) =
      some last) : ∃ d, s.mem.Describes everySecond none closedSpec.key d ∧
        d.lastExecution = last := by
  obtain ⟨job, hjob, hlast⟩ := Option.map_eq_some_iff.1 h
  exact ⟨_, Shared.describes_iff.2 ⟨rfl, job, hjob, rfl⟩, hlast⟩

/-- A run that is triggered after the skip has been recorded. -/
theorem lastExecution_le_manual :
    let m := schedMachine everySecond demoBundle
    ∃ s₁ s₂ d₁ d₂, m.run Sched.init (skipFire ++ recordSkip) = some s₁ ∧
      m.run s₁ manualRun = some s₂ ∧ s₁.mem.Describes everySecond none closedSpec.key d₁ ∧
      s₂.mem.Describes everySecond none closedSpec.key d₂ ∧ d₁.lastExecution = 1000 ∧
      d₂.lastExecution = 2000 ∧ d₁.lastExecution ≤ d₂.lastExecution := by
  intro m
  -- the state of the job is the first one that is allocated
  let g (s : Sched) (a : Act) : Bool := keepsStamps 1 s a && notRegistered closedSpec.key s a
  let s₁ := (m.runIf (keepsStamps 1) Sched.init (skipFire ++ recordSkip)).getD Sched.init
  let s₂ := (m.runIf g s₁ manualRun).getD Sched.init
  have hs₁ : m.runIf (keepsStamps 1) Sched.init (skipFire ++ recordSkip) = some s₁ :=
    eq_some_getD (by decide)
  have hs₂ : m.runIf g s₁ manualRun = some s₂ := eq_some_getD (by decide)
  obtain ⟨job, hjob, hstate⟩ : ∃ job, s₁.mem.jobs.lookup closedSpec.key = some job ∧
      job.state = 1 :=
    Option.map_eq_some_iff.1
      (show (s₁.mem.jobs.lookup closedSpec.key).map (·.state) = some 1 by decide)
  have h₁ := Machine.runs_of_runIf hs₁
  have h₂ := (Machine.runs_of_runIf hs₂).mono fun s a h => Bool.and_eq_true_iff.1 h
  obtain ⟨d₁, hd₁, hlast₁⟩ := describes_closedSpec s₁ 1000 (by decide)
  obtain ⟨d₂, hd₂, hlast₂⟩ := describes_closedSpec s₂ 2000 (by decide)
  exact ⟨s₁, s₂, d₁, d₂, Machine.run_of_runs h₁, Machine.run_of_runs h₂, hd₁, hd₂, hlast₁, hlast₂,
    lastExecution_le hjob (hstate ▸ h₁) (hstate ▸ h₂) hd₁ hd₂⟩

/-- A run that ends while the skip waits to be recorded: the older skip overwrites its result. -/
theorem skip_overwrites :
    ¬ ∀ (c : Crates) (b : ExecutorBundle) (as₁ as₂ : List Act) (s₁ s₂ : Sched) (key : JobKey)
        (f₁ f₂ : Option String) (d₁ d₂ : JobDescriptor),
      (schedMachine c b).Runs (fun s a => clockForward s a = true) Sched.init as₁ s₁ →
      (schedMachine c b).Runs (fun s a => clockForward s a = true ∧ notRegistered key s a = true)
        s₁ as₂ s₂ →
      s₁.mem.Describes c f₁ key d₁ → s₂.mem.Describes c f₂ key d₂ →
      d₁.lastExecution ≤ d₂.lastExecution := by
  intro h
  let m := schedMachine everySecond demoBundle
  let g (s : Sched) (a : Act) : Bool := clockForward s a && notRegistered closedSpec.key s a
  let s₁ := (m.runIf clockForward Sched.init (skipFire ++ manualRun)).getD Sched.init
  let s₂ := (m.runIf g s₁ recordSkip).getD Sched.init
  have hs₁ : m.runIf clockForward Sched.init (skipFire ++ manualRun) = some s₁ :=
    eq_some_getD (by decide)
  have hs₂ : m.runIf g s₁ recordSkip = some s₂ := eq_some_getD (by decide)
  have h₁ := Machine.runs_of_runIf hs₁
  have h₂ := (Machine.runs_of_runIf hs₂).mono fun s a h => Bool.and_eq_true_iff.1 h
  obtain ⟨d₁, hd₁, hlast₁⟩ := describes_closedSpec s₁ 2000 (by decide)
  obtain ⟨d₂, hd₂, hlast₂⟩ := describes_closedSpec s₂ 1000 (by decide)
  have hle := h _ _ _ _ s₁ s₂ _ none none d₁ d₂ h₁ h₂ hd₁ hd₂
  rw [hlast₁, hlast₂] at hle
  exact absurd hle (by decide)

end CronManager

import CronManager.Scheduler.LastExecution
import CronManager.Scheduler.Progress
import CronManager.Scheduler.Replies

/-!
# Cron jobs keep firing

The loop of a cron job is spawned by `register`, which keeps its task in the entry.  No other task
ends it: a run that fails, is stopped or is refused because the job runs already leads back to the
top of the loop, and so does a skip outside the window.

* `loop_goes_on` : a step of a loop goes on with it, unless its expression does not parse or its
  schedule has no further instant;
* `registered_loops` : hence every registered cron job has its own loop, live or ended for one of
  these two reasons;
* `loop_keeps_turning` : once it has slept, a loop decides about its tick within two steps, and is
  asleep again, or finds that there is no further instant, within `6 * max_attempts + 10`, whatever
  the other tasks do.
-/

namespace CronManager

open Rust

/-! ### The loop of a registered job -/

/-- The entry is in the registry, or about to be inserted. -/
def Sched.Holds (s : Sched) (job : RegisteredJob) : Prop :=
  (∃ key, s.mem.jobs.lookup key = some job) ∨ ∃ t pc, s.tasks t = some pc ∧ pc.jobOf = some job

/-- A loop ends: its expression does not parse, or at some moment it had no further instant. -/
def Over (c : Crates) (past : Past) (expr : String) : Prop :=
  (∃ e, c.cronFromStr expr = .error e) ∨ past fun s => c.cronUpcoming expr s.mem.now = none

/-- The task runs the loop, or has ended it. -/
def Pc.Serves (c : Crates) (past : Past) (l : Loop) (pc : Pc) : Prop :=
  pc.loopOf = some l ∨ pc = .ended ∧ Over c past l.expr

/-- Every entry of a cron job has a task that serves it. -/
structure Looped (c : Crates) (past : Past) (s : Sched) : Prop where
  owned : Owned s
  handsOver : ∀ u pc, s.tasks u = some pc → pc.HandsOverManual
  served : ∀ job expr, s.Holds job → job.spec.trigger = .cron expr → ∃ u pc,
    job.task = some u ∧ s.tasks u = some pc ∧ pc.Serves c past ⟨job.spec, expr, job.state⟩

variable {c : Crates} {b : ExecutorBundle} {past past' : Past} {s s' : Sched} {t u : TaskId}
  {m : Shared} {pc : Pc} {w : DispatchWorld} {e : Effect Shared Pc} {a : Act} {l : Loop}
  {tick : ℤ} {job : RegisteredJob}

theorem Over.mono {expr : String} (h : Over c past expr) (hpast : ∀ Q, past Q → past' Q) :
    Over c past' expr := h.imp_right (hpast _)

theorem Pc.Serves.mono (h : pc.Serves c past l) (hpast : ∀ Q, past Q → past' Q) :
    pc.Serves c past' l := h.imp_right fun h => ⟨h.1, h.2.mono hpast⟩

theorem serves_notify {ns : List NotifyId} (h : pc.Serves c past l) :
    (pc.notify ns).Serves c past l := by
  rcases h with hloop | ⟨rfl, hover⟩
  · exact .inl (loopOf_notify.trans hloop)
  · exact .inr ⟨rfl, hover⟩

/-- **A loop goes on**, unless its expression does not parse or there is no further instant. -/
theorem loop_goes_on (ho : Owned s) (hhands : pc.HandsOverManual) (hpc : s.tasks t = some pc)
    (hloop : pc.loopOf = some l) (he : pc.step c b s.mem w = some e) :
    e.next.loopOf = some l ∨ e.next = .ended ∧
      ((pc = .loopParse l ∧ ∃ err, c.cronFromStr l.expr = .error err) ∨
        (∃ now, pc = .loopNext l now) ∧ c.cronUpcoming l.expr s.mem.now = none) := by
  cases pc with
  | fetch run =>
    obtain ⟨inst, hinst, -⟩ := lookup_of_lease ho hpc rfl
    obtain rfl := Option.some.inj he
    rcases fetchStep_next (b := b) (w := w) hinst with hnext | ⟨d, hnext⟩ <;> rw [hnext]
    · exact .inl hloop
    · exact .inl hloop
  | spawnRun run cancel =>
    -- a loop awaits its dispatch, it does not hand it over
    have horigin : run.origin = .manual := hhands
    rw [Pc.loopOf, horigin] at hloop
    cases hloop
  | dispatching run cancel d =>
    simp only [Pc.step, dispatchStep] at he
    split at he
    · obtain rfl := Option.some.inj he
      exact .inl hloop
    · obtain ⟨d', -, rfl⟩ := Option.map_eq_some_iff.1 he
      exact .inl hloop
  | recordOutcome run outcome =>
    obtain rfl := Option.some.inj he
    exact .inl hloop
  | finish run =>
    obtain rfl := Option.some.inj he
    exact .inl (loopOf_afterRun.trans hloop)
  | loopParse l' =>
    obtain rfl := Option.some.inj hloop
    simp only [Pc.step] at he
    split at he <;> rename_i hparse <;> obtain rfl := Option.some.inj he
    · exact .inr ⟨rfl, .inl ⟨rfl, _, hparse⟩⟩
    · exact .inl rfl
  | loopNext l' now =>
    obtain rfl := Option.some.inj hloop
    simp only [Pc.step] at he
    split at he <;> rename_i hnext <;> obtain rfl := Option.some.inj he
    · exact .inr ⟨rfl, .inr ⟨⟨now, rfl⟩, hnext⟩⟩
    · exact .inl rfl
  | loopWindow l' tick =>
    simp only [Pc.step] at he
    split at he <;> obtain rfl := Option.some.inj he <;> exact .inl hloop
  | loopBegin l' tick =>
    obtain rfl := Option.some.inj he
    simp only [beginStep]
    split <;> exact .inl hloop
  | loopNow | loopSleep | loopSkipRow | loopRecordSkip =>
    obtain rfl := Option.some.inj he
    exact .inl hloop
  | _ => cases hloop

/-! ### Where the entries come from -/

theorem Does.jobOf_eq (h : Does c b m w pc e) (hjob : e.next.jobOf = some job) :
    ∃ spec todo reply, pc = .spawning spec todo reply ∧ e = spawnStep m spec todo reply ∧
      job = (m.prepareJob spec).2 := by
  cases h with
  | quiet _ _ _ _ _ _ _ _ job' =>
    rw [job'] at hjob
    cases hjob
  | spawn spec todo reply => exact ⟨spec, todo, reply, rfl, rfl, (Option.some.inj hjob).symm⟩
  | fetch run =>
    simp only [fetchStep] at hjob
    split at hjob
    · cases hjob
    · split at hjob <;> cases hjob
  | finish run =>
    cases horigin : run.origin <;> simp [move, horigin, Origin.afterRun, Pc.jobOf] at hjob
  | _ => cases hjob

theorem holds_apply (hpc : s.tasks t = some pc) (hdoes : Does c b s.mem w pc e)
    (h : Sched.Holds (s.apply t e) job) :
    s.Holds job ∨ ∃ spec todo reply, pc = .spawning spec todo reply ∧
      e = spawnStep s.mem spec todo reply ∧ job = (s.mem.prepareJob spec).2 := by
  rcases h with ⟨key, hkey⟩ | ⟨v, p, hp, hjob⟩
  · rcases hdoes.lookup_jobs hkey with hold | ⟨hjob, -⟩
    · exact .inl (.inl ⟨key, hold⟩)
    · exact .inl (.inr ⟨t, pc, hpc, hjob⟩)
  · rcases Pool.tasks_apply_cases hp with ⟨-, rfl⟩ | ⟨-, hsp⟩ | ⟨-, q, hq, rfl⟩
    · exact .inr (hdoes.jobOf_eq hjob)
    · rw [hdoes.jobOf_spawn v p hsp] at hjob
      cases hjob
    · obtain ⟨ns, hns⟩ := hdoes.touch_eq
      rw [hns, jobOf_notify] at hjob
      exact .inl (.inr ⟨v, q, hq, hjob⟩)

/-! ### What becomes of one task -/

/-- The action is a step of the task. -/
def Act.isStepOf (u : TaskId) : Act → Bool
  | .run t _ => t = u
  | .call _ | .clock _ => false

theorem task_next (hfresh : s.TasksFresh) (hpc : s.tasks u = some pc)
    (hs : (schedMachine c b).step s a = some s') :
    (∃ w e, a = .run u w ∧ pc.step c b s.mem w = some e ∧ s'.tasks u = some e.next) ∨
      (a.isStepOf u = false ∧ ∃ ns, s'.tasks u = some (pc.notify ns)) := by
  have hsame : pc.notify [] = pc := by rw [notify_nil, id]
  cases a with
  | call call =>
    obtain rfl := Option.some.inj hs
    refine .inr ⟨rfl, [], ?_⟩
    rw [hsame]
    exact Pool.tasks_add_of_some (tasks_fresh_eq_none hfresh) hpc
  | clock now =>
    obtain rfl := Option.some.inj hs
    refine .inr ⟨rfl, [], ?_⟩
    rw [hsame]
    exact hpc
  | run t w =>
    obtain ⟨pc', e, hpc', he, rfl⟩ := run_step hs
    by_cases ht : t = u
    · subst ht
      obtain rfl := Option.some.inj (hpc.symm.trans hpc')
      exact .inl ⟨w, e, rfl, he, Pool.tasks_apply_self⟩
    · obtain ⟨ns, hns⟩ := (step_does he).touch_eq
      refine .inr ⟨decide_eq_false ht, ns, ?_⟩
      rw [← hns]
      exact Pool.tasks_apply_of_some (Ne.symm ht) hpc
        fun v p hv => tasks_spawn_eq_none hfresh (step_does he) hv

theorem looped_step (h : Looped c past s) (hnow : ∀ Q : Sched → Prop, Q s → past Q)
    (hpast : ∀ Q, past Q → past' Q) (hs : (schedMachine c b).step s a = some s') :
    Looped c past' s' := by
  have hone : (schedMachine c b).Runs (fun _ _ => True) s [a] s' := .cons trivial hs (.nil _)
  refine ⟨owned_step h.owned hs,
    handsOver_kept.runs hone (fun _ call _ => by cases call <;> trivial) h.handsOver, ?_⟩
  -- the task that serves an entry goes on with it
  have hkeep {job : RegisteredJob} {expr : String} (hheld : s.Holds job)
      (htrigger : job.spec.trigger = .cron expr) : ∃ u pc, job.task = some u ∧
        s'.tasks u = some pc ∧ pc.Serves c past' ⟨job.spec, expr, job.state⟩ := by
    obtain ⟨u, pc, htask, hpc, hserves⟩ := h.served job expr hheld htrigger
    rcases task_next h.owned.tasksFresh hpc hs with ⟨w, e, -, he, hu⟩ | ⟨-, ns, hu⟩
    · refine ⟨u, e.next, htask, hu, ?_⟩
      rcases hserves with hloop | ⟨rfl, -⟩
      · rcases loop_goes_on h.owned (h.handsOver u pc hpc) hpc hloop he with
          hnext | ⟨hended, ⟨-, herr⟩ | ⟨-, hnone⟩⟩
        · exact .inl hnext
        · exact .inr ⟨hended, .inl herr⟩
        · exact .inr ⟨hended, .inr (hpast _ (hnow _ hnone))⟩
      · cases he
    · exact ⟨u, _, htask, hu, (serves_notify hserves).mono hpast⟩
  intro job expr hheld htrigger
  cases a with
  | call call =>
    obtain rfl := Option.some.inj hs
    refine hkeep ?_ htrigger
    rcases hheld with hjob | ⟨v, p, hp, hjob⟩
    · exact .inl hjob
    · rcases Pool.tasks_add_cases hp with ⟨-, rfl⟩ | ⟨-, hq⟩
      · cases call <;> cases hjob
      · exact .inr ⟨v, p, hq, hjob⟩
  | clock now =>
    obtain rfl := Option.some.inj hs
    exact hkeep hheld htrigger
  | run t w =>
    obtain ⟨pc, e, hpc, he, rfl⟩ := run_step hs
    have hdoes := step_does he
    rcases holds_apply hpc hdoes hheld with hold | ⟨spec, todo, reply, rfl, rfl, rfl⟩
    · exact hkeep hold htrigger
    · have htrigger' : spec.trigger = .cron expr := htrigger
      refine ⟨s.mem.fresh + 1, .loopParse ⟨spec, expr, s.mem.fresh⟩, ?_, ?_, .inl rfl⟩
      · simp only [Shared.prepareJob, htrigger']
      · refine Pool.tasks_apply_spawn ?_ (by simp only [spawnStep, htrigger'])
        exact ((h.owned.tasksFresh t _ hpc).trans (Nat.lt_succ_self _)).ne'

/-- **Every registered cron job has its loop.**  In every run, whatever is registered, replaced,
triggered and stopped: the task in the entry of a cron job runs the loop of this very entry, or has
ended because the expression does not parse, or because at some moment the schedule had no further
instant. -/
theorem registered_loops {as : List Act} {key : JobKey} {expr : String}
    (h : (schedMachine c b).run Sched.init as = some s) (hjob : s.mem.jobs.lookup key = some job)
    (htrigger : job.spec.trigger = .cron expr) :
    ∃ u, job.task = some u ∧ (s.LiveLoop u ⟨job.spec, expr, job.state⟩ ∨
      s.tasks u = some .ended ∧ ((∃ e, c.cronFromStr expr = .error e) ∨
        (schedMachine c b).During Sched.init as fun s =>
          c.cronUpcoming expr s.mem.now = none)) := by
  have hlooped : Looped c ((schedMachine c b).During Sched.init as) s := by
    refine Machine.during_invariant (I := Looped c) h ?_ ?_
    · intro past _
      refine ⟨owned_init, by rintro u pc ⟨⟩, ?_⟩
      rintro job expr (⟨key, ⟨⟩⟩ | ⟨t, pc, ⟨⟩, -⟩)
    · intro past past' s a s' hi hnow hpast _ hs
      exact looped_step hi hnow hpast hs
  obtain ⟨u, pc, htask, hpc, hserves⟩ := hlooped.served job expr (.inl ⟨key, hjob⟩) htrigger
  rcases hserves with hloop | ⟨rfl, hover⟩
  · exact ⟨u, htask, .inl ⟨pc, hpc, hloop⟩⟩
  · exact ⟨u, htask, .inr ⟨hpc, hover⟩⟩

/-! ### How long a loop takes -/

/-- A bound on the steps that a loop still takes before it sleeps. -/
def Pc.toSleep : Pc → ℕ
  | .loopWindow l _ => 6 * l.spec.retry.maxAttempts + 10
  | .loopBegin l _ => 6 * l.spec.retry.maxAttempts + 9
  | .loopSkipRow _ _ => 4
  | .loopParse _ | .loopRecordSkip _ _ => 3
  | .loopNow _ => 2
  | .loopNext _ _ => 1
  | .fetch run => (Pc.fetch run).left + 2
  | .spawnRun run cancel => (Pc.spawnRun run cancel).left + 2
  | .dispatching run cancel d => (Pc.dispatching run cancel d).left + 2
  | .recordOutcome run outcome => (Pc.recordOutcome run outcome).left + 2
  | .finish run => (Pc.finish run).left + 2
  | _ => 0

/-- The loop sleeps until its next fire. -/
def Sched.Sleeps (s : Sched) (u : TaskId) (l : Loop) : Prop :=
  ∃ tick deadline, s.tasks u = some (.loopSleep l tick deadline)

/-- The loop finds that its schedule has no further instant. -/
def Sched.RunsOut (s : Sched) (c : Crates) (u : TaskId) (l : Loop) : Prop :=
  (∃ now, s.tasks u = some (.loopNext l now)) ∧ c.cronUpcoming l.expr s.mem.now = none

/-- What a loop makes of the tick that it has slept for: its run has begun, its skip is in the
history, or it finds its job running. -/
def Sched.Decides (s : Sched) (u : TaskId) (l : Loop) (tick : ℤ) : Prop :=
  (∃ run, s.InProgress u run ∧ run.origin = .cron l) ∨
    (∃ now, s.tasks u = some (.loopRecordSkip l now) ∧ l.spec.window.allows now = false) ∨
    s.tasks u = some (.loopBegin l tick) ∧ l.spec.key ∈ s.mem.running

theorem toSleep_of_run {run : Run} (h : pc.runOf = some run) : pc.toSleep = pc.left + 2 := by
  cases pc <;> first | rfl | cases h

theorem toSleep_notify {ns : List NotifyId} : (pc.notify ns).toSleep = pc.toSleep := by
  cases hrun : pc.runOf with
  | some run => rw [toSleep_of_run hrun, toSleep_of_run (runOf_notify.trans hrun), pcLeft_notify]
  | none => cases pc <;> first | rfl | cases hrun

theorem sleeps_of_toSleep (hpc : s.tasks u = some pc) (hloop : pc.loopOf = some l)
    (hzero : pc.toSleep = 0) : s.Sleeps u l := by
  cases pc with
  | loopSleep l' tick deadline =>
    obtain rfl := Option.some.inj hloop
    exact ⟨tick, deadline, hpc⟩
  | registering | spawning | inserting | reloadSignal | reloadClear | triggerLookup | triggerBegin
  | stopCheck | stopSignal | returned | ended | panicked => cases hloop
  | _ => exact absurd hzero (Nat.succ_ne_zero _)

/-- **Every step of a loop brings it closer to its sleep.** -/
theorem toSleep_next {P : JobSpec → Prop} (hsound : pc.Sound c b P) (hloop : pc.loopOf = some l)
    (hawake : pc.toSleep ≠ 0) (he : pc.step c b m w = some e) : e.next.toSleep < pc.toSleep := by
  cases hrun : pc.runOf with
  | some run =>
    rw [toSleep_of_run hrun]
    cases hrun' : e.next.runOf with
    | some run' =>
      rw [toSleep_of_run hrun']
      exact Nat.add_lt_add_right (left_next hsound he hrun hrun').2 2
    | none =>
      -- the run ends, and the loop reads the clock
      have hgoes := step_goes he
      generalize e.next = next at hgoes hrun'
      cases hgoes with
      | finishCron | finishManual | fetchFail | handOver => simp [Pc.toSleep, Pc.left]
      | fetchManual | fetchCron | advance | complete | recordOutcome => cases hrun'
      | _ => cases hrun
  | none =>
    have hgoes := step_goes he
    generalize e.next = next at hgoes
    cases hgoes with
    | loopParse | loopUnparsed | loopNow | loopNext | loopOver | loopFire | loopSkip | loopSkipRow
    | loopRecordSkip => simp [Pc.toSleep]
    | loopWake => exact absurd rfl hawake
    | beginCron l' tick n => simp [Pc.toSleep, Pc.left]
    | loopBusy => simp [Pc.toSleep]
    | fetchManual | fetchCron | fetchFail | handOver | advance | complete | recordOutcome
    | finishManual | finishCron => cases hrun
    | _ => cases hloop

/-! ### Between two sleeps -/

/-- What holds of a loop that has parsed its expression. -/
structure Turning (c : Crates) (b : ExecutorBundle) (u : TaskId) (l : Loop) (s : Sched) : Prop where
  owned : Owned s
  sound : s.Sound c b fun _ => True
  handsOver : ∀ u pc, s.tasks u = some pc → pc.HandsOverManual
  live : ∃ pc, s.tasks u = some pc ∧ pc.loopOf = some l ∧ ∀ l', pc ≠ .loopParse l'

theorem ne_loopParse_next (he : pc.step c b m w = some e) : ∀ l, e.next ≠ .loopParse l := by
  have hgoes := step_goes he
  generalize e.next = next at hgoes ⊢
  intro l hnext
  subst hnext
  cases hgoes

theorem ne_loopParse_notify {ns : List NotifyId} (h : ∀ l, pc ≠ .loopParse l) :
    ∀ l, pc.notify ns ≠ .loopParse l := by
  intro l
  cases pc with
  | loopParse l' => exact absurd rfl (h l')
  | _ => rintro ⟨⟩

/-- The bound on the steps of the task, in a state. -/
def Sched.toSleep (s : Sched) (u : TaskId) : ℕ := (s.tasks u).elim 0 Pc.toSleep

/-- A loop that neither sleeps nor runs out goes on, and its own steps bring it closer to its
sleep. -/
theorem turning_step (h : Turning c b u l s) (hawake : ¬ (s.Sleeps u l ∨ s.RunsOut c u l))
    (hs : (schedMachine c b).step s a = some s') :
    Turning c b u l s' ∧ s'.toSleep u + (if a.isStepOf u then 1 else 0) ≤ s.toSleep u := by
  have hone : (schedMachine c b).Runs (fun _ _ => True) s [a] s' := .cons trivial hs (.nil _)
  have howned := owned_step h.owned hs
  have hsound := sound_step h.sound (fun _ _ => trivial) hs
  have hhands := handsOver_kept.runs hone (fun _ call _ => by cases call <;> trivial) h.handsOver
  obtain ⟨pc, hpc, hloop, hparsed⟩ := h.live
  have hrank : s.toSleep u = pc.toSleep := by rw [Sched.toSleep, hpc, Option.elim_some]
  rcases task_next h.owned.tasksFresh hpc hs with ⟨w, e, rfl, he, hu⟩ | ⟨hother, ns, hu⟩
  · have hnext : e.next.loopOf = some l := by
      rcases loop_goes_on h.owned (h.handsOver u pc hpc) hpc hloop he with
        hnext | ⟨-, ⟨hpc', -⟩ | ⟨⟨now, rfl⟩, hnone⟩⟩
      · exact hnext
      · exact absurd hpc' (hparsed l)
      · exact absurd (.inr ⟨⟨now, hpc⟩, hnone⟩) hawake
    refine ⟨⟨howned, hsound, hhands, e.next, hu, hnext, ne_loopParse_next he⟩, ?_⟩
    have hlt : e.next.toSleep < pc.toSleep :=
      toSleep_next (h.sound.tasks u pc hpc) hloop
        (fun hzero => hawake (.inl (sleeps_of_toSleep hpc hloop hzero))) he
    rw [hrank, Sched.toSleep, hu, Option.elim_some, Act.isStepOf, if_pos (decide_eq_true rfl)]
    exact hlt
  · refine ⟨⟨howned, hsound, hhands, _, hu, loopOf_notify.trans hloop,
      ne_loopParse_notify hparsed⟩, ?_⟩
    rw [hrank, Sched.toSleep, hu, Option.elim_some, toSleep_notify, hother]
    exact le_refl _

theorem turning_of_run {as : List Act} {pc : Pc} (h : (schedMachine c b).run Sched.init as = some s)
    (hpc : s.tasks u = some pc) (hloop : pc.loopOf = some l) (hparsed : ∀ l', pc ≠ .loopParse l') :
    Turning c b u l s where
  owned := owned_reaches (Machine.reaches_of_run h)
  sound := sound_of_specs h fun _ _ _ _ => trivial
  handsOver := handsOver_kept.runs (Machine.runs_of_run h)
    (fun _ call _ => by cases call <;> trivial) (by rintro u pc ⟨⟩)
  live := ⟨pc, hpc, hloop, hparsed⟩

/-- **A loop gets back to its sleep**, or runs out, within as many steps of its own as it has
left. -/
theorem sleeps_again {as : List Act} (h : Turning c b u l s)
    (hrun : (schedMachine c b).run s as = some s')
    (hsteps : s.toSleep u ≤ as.countP (Act.isStepOf u)) :
    (schedMachine c b).During s as fun s => s.Sleeps u l ∨ s.RunsOut c u l := by
  rcases Machine.runs_or_during hrun fun s => s.Sleeps u l ∨ s.RunsOut c u l with hclear | hduring
  · -- all its steps were taken awake, so it has none left
    have hleft : Turning c b u l s' ∧
        as.countP (Act.isStepOf u) + s'.toSleep u ≤ s.toSleep u :=
      hclear.countP_add_le h fun _ _ _ hi hg hs => turning_step hi hg hs
    obtain ⟨hturning, hcount⟩ := hleft
    obtain ⟨pc, hpc, hloop, -⟩ := hturning.live
    have hzero : s'.toSleep u = 0 := by omega
    rw [Sched.toSleep, hpc, Option.elim_some] at hzero
    exact .last hrun (.inl (sleeps_of_toSleep hpc hloop hzero))
  · exact hduring

/-! ### What becomes of a tick -/

/-- The steps that a loop takes at most before it decides about its tick. -/
def Pc.toDecide : Pc → ℕ
  | .loopWindow _ _ => 2
  | .loopBegin _ _ | .loopSkipRow _ _ => 1
  | _ => 0

/-- The bound on them, in a state. -/
def Sched.toDecide (s : Sched) (u : TaskId) : ℕ := (s.tasks u).elim 0 Pc.toDecide

/-- The loop has woken up for its tick and has not decided yet. -/
def Pc.Deciding (l : Loop) (tick : ℤ) (pc : Pc) : Prop :=
  pc = .loopWindow l tick ∨ pc = .loopBegin l tick ∨
    ∃ now, pc = .loopSkipRow l now ∧ l.spec.window.allows now = false

theorem deciding_notify {ns : List NotifyId} (h : pc.Deciding l tick) : pc.notify ns = pc := by
  rcases h with rfl | rfl | ⟨now, rfl, -⟩ <;> rfl

/-- A step of a loop that decides: it looks at its window, and begins its run or writes its skip,
unless its job is running. -/
theorem deciding_next (h : pc.Deciding l tick) (he : pc.step c b m w = some e) :
    (e.next.Deciding l tick ∧ e.next.toDecide < pc.toDecide) ∨
      (e.next.toDecide < pc.toDecide ∧ ((∃ run, e.next.runOf = some run ∧ run.origin = .cron l) ∨
        ∃ now, e.next = .loopRecordSkip l now ∧ l.spec.window.allows now = false)) ∨
      pc = .loopBegin l tick ∧ l.spec.key ∈ m.running := by
  rcases h with rfl | rfl | ⟨now, rfl, hclosed⟩
  · simp only [Pc.step] at he
    split at he <;> rename_i hallows <;> obtain rfl := Option.some.inj he
    · exact .inl ⟨.inr (.inl rfl), Nat.lt_succ_self 1⟩
    · exact .inl ⟨.inr (.inr ⟨_, rfl, Bool.not_eq_true _ ▸ hallows⟩), Nat.lt_succ_self 1⟩
  · obtain rfl := Option.some.inj he
    cases hbegin : m.beginRunning l.spec.key l.expr with
    | ok mn =>
      refine .inr (.inl ?_)
      simp only [beginStep, hbegin, move]
      exact ⟨Nat.lt_succ_self 0, .inl ⟨_, rfl, rfl⟩⟩
    | error err => exact .inr (.inr ⟨rfl, (beginRunning_eq_error hbegin).2⟩)
  · obtain rfl := Option.some.inj he
    exact .inr (.inl ⟨Nat.lt_succ_self 0, .inr ⟨now, rfl, hclosed⟩⟩)

theorem deciding_step (hfresh : s.TasksFresh) (hpc : s.tasks u = some pc)
    (h : pc.Deciding l tick) (hundecided : ¬ s.Decides u l tick)
    (hs : (schedMachine c b).step s a = some s') :
    ((∃ pc', s'.tasks u = some pc' ∧ pc'.Deciding l tick) ∨ s'.Decides u l tick) ∧
      s'.toDecide u + (if a.isStepOf u then 1 else 0) ≤ s.toDecide u := by
  have hrank : s.toDecide u = pc.toDecide := by rw [Sched.toDecide, hpc, Option.elim_some]
  rcases task_next hfresh hpc hs with ⟨w, e, rfl, he, hu⟩ | ⟨hother, ns, hu⟩
  · have hrank' : s'.toDecide u = e.next.toDecide := by rw [Sched.toDecide, hu, Option.elim_some]
    rw [hrank, hrank', Act.isStepOf, if_pos (decide_eq_true rfl)]
    rcases deciding_next h he with
      ⟨hnext, hlt⟩ | ⟨hlt, ⟨run, hrun, horigin⟩ | ⟨now, hnext, hclosed⟩⟩ | ⟨rfl, hbusy⟩
    · exact ⟨.inl ⟨_, hu, hnext⟩, hlt⟩
    · exact ⟨.inr (.inl ⟨run, ⟨_, hu, hrun⟩, horigin⟩), hlt⟩
    · exact ⟨.inr (.inr (.inl ⟨now, hnext ▸ hu, hclosed⟩)), hlt⟩
    · exact absurd (.inr (.inr ⟨hpc, hbusy⟩)) hundecided
  · rw [deciding_notify h] at hu
    have hrank' : s'.toDecide u = pc.toDecide := by rw [Sched.toDecide, hu, Option.elim_some]
    rw [hrank, hrank', hother]
    exact ⟨.inl ⟨pc, hu, h⟩, le_refl _⟩

/-- **Two steps decide about a tick.** -/
theorem tick_decided {as : List Act} (ho : Owned s) (hwake : s.tasks u = some (.loopWindow l tick))
    (hrun : (schedMachine c b).run s as = some s')
    (hsteps : 2 ≤ as.countP (Act.isStepOf u)) :
    (schedMachine c b).During s as (·.Decides u l tick) := by
  rcases Machine.runs_or_during hrun (·.Decides u l tick) with hclear | hduring
  · let I (s : Sched) : Prop := Owned s ∧
      ((∃ pc, s.tasks u = some pc ∧ pc.Deciding l tick) ∨ s.Decides u l tick)
    have hinit : I s := ⟨ho, .inl ⟨_, hwake, .inl rfl⟩⟩
    have hleft : I s' ∧ as.countP (Act.isStepOf u) + s'.toDecide u ≤ s.toDecide u := by
      refine @Machine.Runs.countP_add_le _ _ _ _ _ _ _ I (fun s => s.toDecide u)
        (Act.isStepOf u) hclear hinit ?_
      rintro s a s' ⟨ho, hdeciding⟩ hundecided hs
      obtain ⟨pc, hpc, hd⟩ := hdeciding.resolve_right hundecided
      obtain ⟨hnext, hle⟩ := deciding_step ho.tasksFresh hpc hd hundecided hs
      exact ⟨⟨owned_step ho hs, hnext⟩, hle⟩
    obtain ⟨⟨-, hend⟩, hcount⟩ := hleft
    have hstart : s.toDecide u = 2 := by rw [Sched.toDecide, hwake, Option.elim_some, Pc.toDecide]
    refine .last hrun (hend.resolve_left ?_)
    -- an undecided loop has a step left
    rintro ⟨pc, hpc, hd⟩
    have hpos : 0 < s'.toDecide u := by
      rw [Sched.toDecide, hpc, Option.elim_some]
      rcases hd with rfl | rfl | ⟨now, rfl, -⟩ <;> exact Nat.succ_pos _
    omega
  · exact hduring

/-! ### Nothing stops a loop -/

/-- A loop takes its next step, or its dispatch waits for the stop signal or for an await that
never ends. -/
theorem loop_moves (ho : Owned s) (hfits : ∀ t pc, s.tasks t = some pc → pc.Fits)
    (hlive : s.LiveLoop u l) (w : DispatchWorld) :
    (∃ s', (schedMachine c b).step s (.run u w) = some s') ∨
      ∃ run d, s.tasks u = some (.dispatching run run.mine d) ∧
        (d.Waits ∧ (d.notify.step c b).isSome = true ∨ d.hangs c b = true) := by
  obtain ⟨pc, hpc, hloop⟩ := hlive
  cases hrun : pc.runOf with
  | some run => exact (run_moves ho hfits hpc hrun w).imp_right fun ⟨d, hd⟩ => ⟨run, d, hd⟩
  | none =>
    refine .inl ?_
    have hstep : (pc.step c b s.mem w).isSome = true := by
      cases pc with
      | loopParse | loopNext | loopWindow =>
        simp only [Pc.step]
        split <;> rfl
      | loopNow | loopSleep | loopSkipRow | loopRecordSkip | loopBegin => rfl
      | fetch | spawnRun | dispatching | recordOutcome | finish => cases hrun
      | _ => cases hloop
    obtain ⟨e, he⟩ := Option.isSome_iff_exists.1 hstep
    exact ⟨s.apply u e, by simp only [schedMachine, hpc, Option.bind_some, he, Option.map_some]⟩

/-- **Loops keep turning.**  Take any moment at which a loop has slept until its tick, and whatever
happens then.  Two steps of its own later its run has begun, its skip outside the window is in the
history, or it has found its job running; after `6 * max_attempts + 10` steps of its own it is
asleep again, or has found that its schedule has no further instant.  And as long as it lives it can
take its next step, except in a select that ends only through a stop signal, which then lets it go
on, in an await of its dispatch that never ends, and while the row of a skipped fire is written. -/
theorem loop_keeps_turning {as₁ as₂ : List Act} {s₁ s₂ : Sched}
    (h₁ : (schedMachine c b).run Sched.init as₁ = some s₁)
    (hwake : s₁.tasks u = some (.loopWindow l tick))
    (h₂ : (schedMachine c b).run s₁ as₂ = some s₂) :
    (2 ≤ as₂.countP (Act.isStepOf u) →
        (schedMachine c b).During s₁ as₂ (·.Decides u l tick)) ∧
      (6 * l.spec.retry.maxAttempts + 10 ≤ as₂.countP (Act.isStepOf u) →
        (schedMachine c b).During s₁ as₂ fun s => s.Sleeps u l ∨ s.RunsOut c u l) ∧
      (s₂.LiveLoop u l → (∀ nowMs, s₂.tasks u ≠ some (.loopSkipRow l nowMs)) →
        ∀ w, (∃ s', (schedMachine c b).step s₂ (.run u w) = some s') ∨
          ∃ run d, s₂.tasks u = some (.dispatching run run.mine d) ∧
            (d.Waits ∧ (d.notify.step c b).isSome = true ∨ d.hangs c b = true)) := by
  have hturning : Turning c b u l s₁ := turning_of_run h₁ hwake rfl (by rintro l' ⟨⟩)
  refine ⟨tick_decided hturning.owned hwake h₂, fun hsteps => ?_, fun hlive _ w => ?_⟩
  · refine sleeps_again hturning h₂ (le_trans (le_of_eq ?_) hsteps)
    rw [Sched.toSleep, hwake, Option.elim_some, Pc.toSleep]
  · have hruns := Machine.runs_of_run h₂
    have hfits₁ : ∀ t pc, s₁.tasks t = some pc → pc.Fits :=
      pcFits_kept.runs (Machine.runs_of_run h₁) (fun _ call _ => by cases call <;> trivial)
        (by rintro t pc ⟨⟩)
    have hfits₂ := pcFits_kept.runs hruns (fun _ call _ => by cases call <;> trivial) hfits₁
    have hreaches := (Machine.reaches_of_run h₁).trans hruns.reaches
    exact loop_moves (owned_reaches hreaches) hfits₂ hlive w

/-- The dispatch of the fire at 1000 takes two and a half seconds, and the loop sleeps again. -/
theorem loop_keeps_turning_everySecond :
    let m := schedMachine everySecond demoBundle
    let l : Loop := ⟨hourlySpec, "0 0 * * * *", 1⟩
    let later := firstFire.drop 10 ++ secondFire ++
      List.replicate 7 (.run 2 (demoWorld (.exited (some 0))))
    ∃ s₁, m.run Sched.init (firstFire.take 10) = some s₁ ∧
      s₁.tasks 2 = some (.loopWindow l 1000) ∧ m.During s₁ later (·.Decides 2 l 1000) ∧
      m.During s₁ later fun s => s.Sleeps 2 l ∨ s.RunsOut everySecond 2 l := by
  intro m l later
  let s₁ := (m.run Sched.init (firstFire.take 10)).getD Sched.init
  let s₂ := (m.run s₁ later).getD Sched.init
  have h₁ : m.run Sched.init (firstFire.take 10) = some s₁ := eq_some_getD (by decide)
  have h₂ : m.run s₁ later = some s₂ := eq_some_getD (by decide)
  have hwake : s₁.tasks 2 = some (.loopWindow l 1000) := rfl
  obtain ⟨hdecides, hsleeps, -⟩ := loop_keeps_turning h₁ hwake h₂
  exact ⟨s₁, h₁, hwake, hdecides (by decide), hsleeps (by decide)⟩

end CronManager

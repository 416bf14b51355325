import CronManager.Scheduler.Ownership

/-!
# Scheduling loops and the registry

`register` drops the entry it replaces and `reload_from` clears the registry, on the assumption
that dropping the `JoinHandle` of an entry ends its scheduling loop.  A dropped handle detaches
its task: the loop of the old entry goes on, with the old spec.

`keepsLoops` is the condition that a step drops no entry whose loop is still live.  In every run
that meets it, once no registration is in progress, each live loop is the loop of the registered
entry of its key, with that entry's spec (`loops_registered`).  A second `register` of a cron job
breaks it (`two_loops`).
-/

namespace CronManager

open Rust

/-- Task `u` is a live `scheduling_loop` that runs `l`. -/
def Sched.LiveLoop (s : Sched) (u : TaskId) (l : Loop) : Prop :=
  ∃ pc, s.tasks u = some pc ∧ pc.loopOf = some l

/-- Task `u` is a live `scheduling_loop`. -/
def Sched.isLive (s : Sched) (u : TaskId) : Bool := ((s.tasks u).bind Pc.loopOf).isSome

/-- The loop of the entry is still live: dropping the entry would leave it behind. -/
def Sched.hasLiveLoop (s : Sched) (job : RegisteredJob) : Bool := job.task.any s.isLive

/-- The action drops no entry of the registry whose loop is still live. -/
def keepsLoops (s : Sched) : Act → Bool
  | .run t _ => match s.tasks t with
    | some (.registering (spec :: _) _) => !(s.mem.jobs.lookup spec.key).any s.hasLiveLoop
    | some (.inserting job _ _) => !(s.mem.jobs.lookup job.spec.key).any s.hasLiveLoop
    | some (.reloadClear _) => !s.mem.jobs.values.any s.hasLiveLoop
    | _ => true
  | _ => true

/-- The task is in `register`, `register_all` or `reload_from`. -/
def Pc.isRegistering : Pc → Bool
  | .registering _ _ | .spawning _ _ _ | .inserting _ _ _ | .reloadSignal _ | .reloadClear _ => true
  | _ => false

/-- No call of `register`, `register_all` or `reload_from` is in progress. -/
def Sched.Settled (s : Sched) : Prop := ∀ u pc, s.tasks u = some pc → pc.isRegistering = false

/-- The live loops are those of the registry: at most one for a key, each for a registered cron
job and with its spec, and so every run that a loop has started has the registered spec. -/
structure LoopsMatch (s : Sched) : Prop where
  unique : ∀ u u' l l', s.LiveLoop u l → s.LiveLoop u' l' → l.spec.key = l'.spec.key → u = u'
  registered : ∀ u l, s.LiveLoop u l → ∃ job expr, s.mem.jobs.lookup l.spec.key = some job ∧
    job.spec = l.spec ∧ job.spec.trigger = .cron expr
  fires : ∀ t r l, s.InProgress t r → r.origin = .cron l → ∃ job,
    s.mem.jobs.lookup r.key = some job ∧ job.spec = r.spec

/-! ### The invariant -/

/-- Only manual runs are handed over to a task of their own. -/
def Pc.HandsOverManual : Pc → Prop
  | .spawnRun run _ => run.origin = .manual
  | _ => True

/-- A run of a loop has the loop's key and spec, and only manual runs are handed over. -/
def Pc.CronOk (pc : Pc) : Prop :=
  (∀ run l, pc.runOf = some run → run.origin = .cron l →
    run.key = l.spec.key ∧ run.spec = l.spec) ∧ pc.HandsOverManual

/-- The entry of task `u`'s loop is in the registry. -/
def Sched.Entered (s : Sched) (u : TaskId) (l : Loop) : Prop :=
  ∃ job, s.mem.jobs.lookup l.spec.key = some job ∧ job.task = some u ∧ job.spec = l.spec

/-- The entry of task `u`'s loop is about to be inserted. -/
def Sched.Pending (s : Sched) (u : TaskId) (l : Loop) : Prop :=
  ∃ t job todo reply, s.tasks t = some (.inserting job todo reply) ∧ job.task = some u ∧
    job.spec = l.spec

/-- Every live loop has its entry in the registry or about to be inserted. -/
structure LoopsOk (s : Sched) : Prop where
  tasksFresh : s.TasksFresh
  loops : ∀ u l, s.LiveLoop u l → s.Entered u l ∨ s.Pending u l
  cron : ∀ u l, s.LiveLoop u l → l.spec.trigger = .cron l.expr
  cronOk : ∀ u pc, s.tasks u = some pc → pc.CronOk

variable {c : Crates} {b : ExecutorBundle} {s s' : Sched} {t u : TaskId} {pc : Pc}
  {w : DispatchWorld} {e : Effect Shared Pc} {l : Loop}

theorem isLive_of_liveLoop (h : s.LiveLoop u l) : s.isLive u = true := by
  obtain ⟨pc, hpc, hl⟩ := h
  simp [Sched.isLive, hpc, hl]

theorem hasLiveLoop_of_liveLoop (h : s.LiveLoop u l) {job : RegisteredJob}
    (hjob : job.task = some u) : s.hasLiveLoop job = true := by
  simp [Sched.hasLiveLoop, hjob, isLive_of_liveLoop h]

/-! ### Where a live loop comes from -/

theorem loopOf_afterRun {o : Origin} : o.afterRun.loopOf = o.loopOf := by
  cases o <;> rfl

theorem loopOf_next (hdoes : Does c b s.mem w pc e) (h : e.next.loopOf = some l) :
    pc.loopOf = some l := by
  cases hdoes with
  | quiet _ _ _ _ _ _ _ _ _ loop => exact loop l h
  | begin schedule hrun hjob hloop => exact hloop.symm.trans h
  | fetch run =>
    simp only [fetchStep] at h
    split at h
    · cases h
    · split at h <;> exact h
  | advance run cancel d d' => exact h
  | finish run => exact loopOf_afterRun.symm.trans h
  | spawn | remove | insert | clear | handOver => cases h

theorem liveLoop_apply (hhands : ∀ u pc, s.tasks u = some pc → pc.HandsOverManual)
    (hpc : s.tasks t = some pc) (hdoes : Does c b s.mem w pc e)
    (h : Sched.LiveLoop (s.apply t e) u l) :
    s.LiveLoop u l ∨ (u = s.mem.fresh + 1 ∧ l.state = s.mem.fresh ∧
      l.spec.trigger = .cron l.expr ∧ Sched.Pending (s.apply t e) u l) := by
  obtain ⟨p, hp, hl⟩ := h
  rcases Pool.tasks_apply_cases hp with ⟨rfl, rfl⟩ | ⟨-, hsp⟩ | ⟨-, q, hq, rfl⟩
  · exact .inl ⟨pc, hpc, loopOf_next hdoes hl⟩
  · rcases hdoes.spawn_cases hsp with ⟨spec, todo, reply, expr, -, rfl, htrigger, rfl, rfl⟩ |
      ⟨run, cancel, rfl, -, -, rfl⟩
    · cases hl
      refine .inr ⟨rfl, rfl, htrigger, t, (s.mem.prepareJob spec).2, todo, reply,
        Pool.tasks_apply_self, ?_, rfl⟩
      simp only [Shared.prepareJob, htrigger]
    · -- only manual runs are handed over, and they belong to no loop
      have horigin : run.origin = .manual := hhands t _ hpc
      simp only [Pc.loopOf, horigin, Origin.loopOf] at hl
      cases hl
  · obtain ⟨ns, hns⟩ := hdoes.touch_eq
    rw [hns, loopOf_notify] at hl
    exact .inl ⟨q, hq, hl⟩

theorem liveLoop_add {call : Call}
    (h : Sched.LiveLoop (s.add s.mem.alloc s.mem.fresh call.entry) u l) : s.LiveLoop u l := by
  obtain ⟨pc, hpc, hl⟩ := h
  rcases Pool.tasks_add_cases hpc with ⟨-, rfl⟩ | ⟨-, hq⟩
  · cases call <;> cases hl
  · exact ⟨pc, hq, hl⟩

/-! ### Where its entry goes -/

/-- A live loop's entry stays: the steps that drop entries do not drop this one. -/
theorem entered_apply (hg : keepsLoops s (.run t w) = true) (hpc : s.tasks t = some pc)
    (hdoes : Does c b s.mem w pc e) (hlive : s.LiveLoop u l) (h : s.Entered u l) :
    Sched.Entered (s.apply t e) u l := by
  obtain ⟨job, hjob, htask, hspec⟩ := h
  -- the guard rules out the steps that would drop or overwrite this entry
  have hlive' := hasLiveLoop_of_liveLoop hlive htask
  have keep (hjobs : e.mem.jobs.lookup l.spec.key = s.mem.jobs.lookup l.spec.key) :
      Sched.Entered (s.apply t e) u l :=
    ⟨job, by rw [Pool.mem_apply, hjobs, hjob], htask, hspec⟩
  simp only [keepsLoops, hpc] at hg
  cases hdoes with
  | quiet jobs => exact keep (by rw [jobs])
  | remove spec todo reply =>
    refine keep ?_
    simp only [move, Shared.removeJob, HashMap.lookup_erase_eq]
    split_ifs with hkey
    · simp only at hg
      rw [← hkey, hjob] at hg
      simp [hlive'] at hg
    · rfl
  | insert job' todo reply =>
    refine keep ?_
    simp only [move, Shared.insertJob, HashMap.lookup_insert_eq]
    split_ifs with hkey
    · simp only at hg
      rw [← hkey, hjob] at hg
      simp [hlive'] at hg
    · rfl
  | clear loaded =>
    simp only [Bool.not_eq_true', List.any_eq_false] at hg
    exact absurd hlive' (hg job (HashMap.mem_values.2 ⟨_, hjob⟩))
  | begin schedule hrun hjob' hloop hspec' hbegin =>
    obtain ⟨-, -, rfl⟩ := Shared.beginRunning_eq_ok.1 hbegin
    exact keep rfl
  | fetch run => exact keep (by rw [Does.mem_fetchStep])
  | _ => exact keep rfl

/-- An entry about to be inserted is still that, or it has been inserted. -/
theorem pending_apply (hok : LoopsOk s) (hpc : s.tasks t = some pc)
    (hdoes : Does c b s.mem w pc e) (h : s.Pending u l) :
    Sched.Entered (s.apply t e) u l ∨ Sched.Pending (s.apply t e) u l := by
  obtain ⟨t', job, todo, reply, ht', htask, hspec⟩ := h
  by_cases heq : t' = t
  · subst heq
    rw [hpc] at ht'
    obtain rfl := Option.some.inj ht'
    cases hdoes with
    | quiet _ _ _ _ _ _ _ job' => cases job'
    | begin schedule hrun hjob' => cases hjob'
    | insert =>
      refine .inl ⟨job, ?_, htask, hspec⟩
      simp only [Pool.mem_apply, move, Shared.insertJob, HashMap.lookup_insert_eq, hspec, if_true]
  · refine .inr ⟨t', job, todo, reply, ?_, htask, hspec⟩
    obtain ⟨ns, hns⟩ := hdoes.touch_eq
    rw [Pool.tasks_apply_of_some heq ht' fun v p => tasks_spawn_eq_none hok.tasksFresh hdoes, hns]
    rfl

theorem cronOk_of_runOf_eq_none (hrun : pc.runOf = none) : pc.CronOk := by
  constructor
  · intro run l h
    rw [hrun] at h
    cases h
  · cases pc <;> trivial

theorem cronOk_notify {ns : List NotifyId} (h : pc.CronOk) : (pc.notify ns).CronOk := by
  refine ⟨fun run l hrun => h.1 run l (by rwa [runOf_notify] at hrun), ?_⟩
  cases pc <;> exact h.2

theorem cronOk_of_runOf_eq {next : Pc} (h : pc.CronOk) (hrun : next.runOf = pc.runOf)
    (hhand : next.HandsOverManual) : next.CronOk :=
  ⟨fun run l hr => h.1 run l (hrun ▸ hr), hhand⟩

theorem cronOk_step (hok : LoopsOk s) (hpc : s.tasks t = some pc)
    (hdoes : Does c b s.mem w pc e) :
    ∀ u p, (s.apply t e).tasks u = some p → p.CronOk := by
  have hcur := hok.cronOk t pc hpc
  have hnext : e.next.CronOk := by
    cases hdoes with
    | quiet _ _ _ _ _ _ run _ _ _ calm =>
      refine cronOk_of_runOf_eq hcur run ?_
      cases hn : e.next <;> rw [hn] at calm <;> trivial
    | begin schedule hrun hjob hloop hspec =>
      refine ⟨fun run l hr => ?_, trivial⟩
      obtain rfl := Option.some.inj hr
      exact hspec l
    | fetch run =>
      simp only [fetchStep]
      split
      · exact cronOk_of_runOf_eq_none rfl
      · split
        · rename_i horigin
          exact ⟨hcur.1, horigin⟩
        · exact cronOk_of_runOf_eq hcur rfl trivial
    | advance run cancel d d' => exact cronOk_of_runOf_eq hcur rfl trivial
    | finish run =>
      refine cronOk_of_runOf_eq_none ?_
      simp only [move]
      cases run.origin <;> rfl
    | _ => exact cronOk_of_runOf_eq_none rfl
  refine Pool.forall_tasks_apply hnext ?_ ?_
  · intro v p hv
    rcases hdoes.spawn_cases hv with ⟨spec, todo, reply, expr, -, -, -, -, rfl⟩ |
      ⟨run, cancel, rfl, -, -, rfl⟩
    · exact cronOk_of_runOf_eq_none rfl
    · exact cronOk_of_runOf_eq hcur rfl trivial
  · intro u q hq
    obtain ⟨ns, hns⟩ := hdoes.touch_eq
    rw [hns]
    exact cronOk_notify (hok.cronOk u q hq)

/-! ### Whole runs -/

theorem loopsOk_init : LoopsOk Sched.init where
  tasksFresh := by rintro u p ⟨⟩
  loops := by rintro u l ⟨pc, ⟨⟩, -⟩
  cron := by rintro u l ⟨pc, ⟨⟩, -⟩
  cronOk := by rintro u pc ⟨⟩

theorem loopsOk_congr (h : LoopsOk s) (htasks : s'.tasks = s.tasks)
    (hjobs : s'.mem.jobs = s.mem.jobs) (hfresh : s'.mem.fresh = s.mem.fresh) : LoopsOk s' := by
  obtain ⟨mem, tasks⟩ := s'
  simp only at htasks hjobs hfresh
  subst htasks
  exact {
    tasksFresh := fun u p hp => hfresh ▸ h.tasksFresh u p hp
    loops := fun u l hl => (h.loops u l hl).imp
      (fun ⟨job, hjob, hrest⟩ => ⟨job, by rw [hjobs]; exact hjob, hrest⟩) id
    cron := h.cron
    cronOk := h.cronOk }

theorem loopsOk_call (h : LoopsOk s) (call : Call) :
    LoopsOk (s.add s.mem.alloc s.mem.fresh call.entry) := by
  have hfree := tasks_fresh_eq_none h.tasksFresh
  refine ⟨tasksFresh_call h.tasksFresh _, ?_, fun u l hl => h.cron u l (liveLoop_add hl), ?_⟩
  · intro u l hl
    rcases h.loops u l (liveLoop_add hl) with hent | ⟨t, job, todo, reply, ht, hrest⟩
    · exact .inl hent
    · exact .inr ⟨t, job, todo, reply, Pool.tasks_add_of_some hfree ht, hrest⟩
  · intro u p hp
    rcases Pool.tasks_add_cases hp with ⟨-, rfl⟩ | ⟨-, hq⟩
    · cases call <;> exact cronOk_of_runOf_eq_none rfl
    · exact h.cronOk u p hq

/-- **A step that drops no live loop's entry keeps every live loop with its entry.** -/
theorem loopsOk_step {a : Act} (h : LoopsOk s) (hg : keepsLoops s a = true)
    (hs : (schedMachine c b).step s a = some s') : LoopsOk s' := by
  cases a with
  | call call =>
    obtain rfl := Option.some.inj hs
    exact loopsOk_call h call
  | clock now =>
    obtain rfl := Option.some.inj hs
    exact loopsOk_congr h rfl rfl rfl
  | run t w =>
    obtain ⟨pc, e, hpc, hdoes, rfl⟩ := run_does hs
    have hhands u pc (hpc : s.tasks u = some pc) := (h.cronOk u pc hpc).2
    refine ⟨tasksFresh_apply h.tasksFresh hpc hdoes, ?_, ?_, cronOk_step h hpc hdoes⟩
    · intro u l hl
      rcases liveLoop_apply hhands hpc hdoes hl with hlive | ⟨-, -, -, hpend⟩
      · rcases h.loops u l hlive with hent | hpend
        · exact .inl (entered_apply hg hpc hdoes hlive hent)
        · exact pending_apply h hpc hdoes hpend
      · exact .inr hpend
    · intro u l hl
      rcases liveLoop_apply hhands hpc hdoes hl with hlive | ⟨-, -, hcron, -⟩
      · exact h.cron u l hlive
      · exact hcron

/-- Once no registration is in progress, the live loops are those of the registry. -/
theorem loopsMatch_of_settled (h : LoopsOk s) (hset : s.Settled) : LoopsMatch s := by
  -- with no `register` in progress nothing is about to be inserted
  have hentered {u l} (hl : s.LiveLoop u l) : s.Entered u l := by
    rcases h.loops u l hl with hent | ⟨t, job, todo, reply, ht, -⟩
    · exact hent
    · cases hset t _ ht
  constructor
  · intro u u' l l' hl hl' hkey
    obtain ⟨job, hjob, htask, -⟩ := hentered hl
    obtain ⟨job', hjob', htask', -⟩ := hentered hl'
    rw [hkey, hjob'] at hjob
    obtain rfl := Option.some.inj hjob
    rw [htask'] at htask
    exact (Option.some.inj htask).symm
  · intro u l hl
    obtain ⟨job, hjob, -, hspec⟩ := hentered hl
    exact ⟨job, l.expr, hjob, hspec, by rw [hspec]; exact h.cron u l hl⟩
  · intro t r l hr horigin
    obtain ⟨pc, hpc, hrun⟩ := hr
    obtain ⟨hkey, hspec⟩ := (h.cronOk t pc hpc).1 r l hrun horigin
    have hlive : s.LiveLoop t l := by
      refine ⟨pc, hpc, ?_⟩
      have hloop : ∀ o : Origin, o = .cron l → o.loopOf = some l := by rintro o rfl; rfl
      cases pc <;> cases hrun <;> exact hloop _ horigin
    obtain ⟨job, hjob, -, hspec'⟩ := hentered hlive
    exact ⟨job, by rw [hkey]; exact hjob, hspec'.trans hspec.symm⟩

/-- **Live loops are registered.**  In every run in which no step drops an entry whose loop is
still live, whenever no registration is in progress there is at most one live loop for a key, and
it is the loop of a registered cron job with that job's spec. -/
theorem loops_registered {as : List Act}
    (h : (schedMachine c b).Runs (fun s a => keepsLoops s a = true) Sched.init as s)
    (hset : s.Settled) : LoopsMatch s :=
  loopsMatch_of_settled
    (h.invariant loopsOk_init fun _ _ _ hok hg hs => loopsOk_step hok hg hs) hset

/-! ### Registering a cron job once, and twice -/

/-- `demoSpec` on an hourly schedule. -/
def hourlySpec : JobSpec := { demoSpec with trigger := .cron "0 0 * * * *" }

/-- A call of `register` with `hourlySpec`, as task `t`, and all its steps. -/
def registerHourly (t : TaskId) : List Act :=
  .call (.register hourlySpec) :: List.replicate 4 (.run t (demoWorld .timeout))

theorem settled_of_lt (h : s.TasksFresh)
    (hlt : ∀ u < s.mem.fresh, (s.tasks u).any Pc.isRegistering = false) : s.Settled := by
  intro u pc hpc
  have := hlt u (h u pc hpc)
  rwa [hpc, Option.any_some] at this

/-- After one registration the loop of the job is that of its entry. -/
theorem loops_registered_once :
    ∃ s, (schedMachine noCrates demoBundle).Runs (fun s a => keepsLoops s a = true) Sched.init
        (registerHourly 0) s ∧ s.Settled ∧
      ∃ u l, s.LiveLoop u l ∧ (s.mem.jobs.lookup l.spec.key).map (·.spec) = some l.spec := by
  have hrun : ((schedMachine noCrates demoBundle).runIf keepsLoops Sched.init
      (registerHourly 0)).map (fun s => decide (
        (∀ u < s.mem.fresh, (s.tasks u).any Pc.isRegistering = false) ∧
        (s.tasks 2).bind Pc.loopOf = some ⟨hourlySpec, "0 0 * * * *", 1⟩)) = some true := by
    decide
  obtain ⟨s, hs, hfacts⟩ := Option.map_eq_some_iff.1 hrun
  obtain ⟨hlt, hloop⟩ := of_decide_eq_true hfacts
  have hruns := Machine.runs_of_runIf hs
  have hset := settled_of_lt (owned_reaches hruns.reaches).tasksFresh hlt
  have hlive := Option.bind_eq_some_iff.1 hloop
  obtain ⟨job, expr, hjob, hspec, -⟩ := (loops_registered hruns hset).registered 2 _ hlive
  exact ⟨s, hruns, hset, 2, _, hlive, by rw [hjob, Option.map_some, hspec]⟩

/-- A second registration of the job leaves the loop of the first one running. -/
theorem two_loops :
    ¬ ∀ c b s, (schedMachine c b).Reaches Sched.init s → s.Settled → LoopsMatch s := by
  intro h
  have hrun : ((schedMachine noCrates demoBundle).run Sched.init
      (registerHourly 0 ++ registerHourly 3)).map (fun s => decide (
        (∀ u < s.mem.fresh, (s.tasks u).any Pc.isRegistering = false) ∧
        (s.tasks 2).bind Pc.loopOf = some ⟨hourlySpec, "0 0 * * * *", 1⟩ ∧
        (s.tasks 5).bind Pc.loopOf = some ⟨hourlySpec, "0 0 * * * *", 4⟩)) = some true := by
    decide
  obtain ⟨s, hs, hfacts⟩ := Option.map_eq_some_iff.1 hrun
  obtain ⟨hlt, hloop, hloop'⟩ := of_decide_eq_true hfacts
  have hreach := Machine.reaches_of_run hs
  have hset := settled_of_lt (owned_reaches hreach).tasksFresh hlt
  have := (h _ _ s hreach hset).unique 2 5 _ _ (Option.bind_eq_some_iff.1 hloop)
    (Option.bind_eq_some_iff.1 hloop') rfl
  exact absurd this (by decide)

end CronManager

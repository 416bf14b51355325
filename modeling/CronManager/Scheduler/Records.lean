import CronManager.Executor.Outcome
import CronManager.Scheduler.Identity
import CronManager.Scheduler.Stop
import CronManager.Scheduler.Window

/-!
# What the history holds

Rows reach the history from two places: the steps of a dispatch and the fires that a scheduling
loop skips.  Two dispatches of one key are never in progress together, so the rows that the runs
of a job leave behind do not interleave.

* `history_step` : a step appends the rows that `Pc.records` says, and no others;
* `sound_run` : every task works with a job that was handed to the scheduler, under its own key,
  and its dispatch does what `ExecutorBundle.dispatch` says for that job;
* `history_serial` : hence the history of a job is that of the dispatches that came to their end in
  this run of the scheduler (`completed`), one after the other, and then what the dispatch in
  progress has recorded.
-/

namespace CronManager

open Rust

/-- The jobs that a call hands to the scheduler. -/
def Call.specs : Call → List JobSpec
  | .register spec => [spec]
  | .registerAll specs => specs
  | .reloadFrom loaded => loaded.map (·.spec)
  | .triggerNow _ _ | .stop _ => []

/-- The jobs that an action hands to the scheduler. -/
def Act.specs : Act → List JobSpec
  | .call api => api.specs
  | .run _ _ | .clock _ => []

/-- The row belongs to a run of the job, and not to a skipped fire. -/
def JobKey.ranRow (k : JobKey) (row : HistoryEntry) : Bool :=
  row.jobGroup = k.group ∧ row.jobName = k.name ∧ row.status ≠ .skipped

section

variable (c : Crates) (b : ExecutorBundle) (P : JobSpec → Prop)

/-- The rows that the next step of a task appends to the history. -/
def Pc.records (m : Shared) : Pc → List HistoryEntry
  | .dispatching _ _ d => (d.step c b).elim [] fun d' => d'.rows.drop d.rows.length
  | .loopSkipRow l _ => [windowSkipRow l.spec m.now]
  | _ => []

/-- A run of one of the jobs, under the key of the job. -/
structure Run.Sound (run : Run) : Prop where
  spec : P run.spec
  key : run.spec.key = run.key
  loop : ∀ l, run.origin = .cron l → P l.spec

/-- The dispatch does what `dispatch` says for the job of the run. -/
structure Dispatch.Of (run : Run) (d : Dispatch) : Prop where
  valid : d.Valid
  total : d.total c b = b.dispatch c run.spec run.extras d.world

/-- The task works with the given jobs only. -/
def Pc.Sound : Pc → Prop
  | .registering todo _ => ∀ spec ∈ todo, P spec
  | .spawning spec todo _ => P spec ∧ ∀ spec ∈ todo, P spec
  | .inserting job todo _ => P job.spec ∧ ∀ spec ∈ todo, P spec
  | .reloadSignal loaded | .reloadClear loaded => ∀ job ∈ loaded, P job.spec
  | .triggerBegin key _ job => P job.spec ∧ job.spec.key = key
  | .fetch run | .spawnRun run _ | .finish run => run.Sound P
  | .dispatching run _ d => run.Sound P ∧ d.Of c b run
  | .recordOutcome run outcome => run.Sound P ∧
    ∃ w, outcome = (b.dispatch c run.spec run.extras w).outcome
  | .loopParse l | .loopNow l | .loopNext l _ | .loopSleep l _ _ | .loopWindow l _
  | .loopBegin l _ => P l.spec
  | .loopSkipRow l now | .loopRecordSkip l now => P l.spec ∧ l.spec.window.allows now = false
  | .triggerLookup _ _ | .stopCheck _ | .stopSignal _ | .returned _ | .ended | .panicked => True

/-- The registry and the tasks hold the given jobs only, each under its own key. -/
structure Sched.Sound (s : Sched) : Prop where
  jobs : ∀ k job, s.mem.jobs.lookup k = some job → P job.spec ∧ job.spec.key = k
  tasks : ∀ t pc, s.tasks t = some pc → pc.Sound c b P

/-- The dispatch of the job that has come to its end, when its task takes the next step: its run,
and the world it ran in. -/
def Pc.completes (k : JobKey) : Pc → List (Run × DispatchWorld)
  | .dispatching run _ d => match d.phase with
    | .done _ => if run.key = k then [(run, d.world)] else []
    | _ => []
  | _ => []

/-- The dispatch of the job that comes to its end in an action. -/
def Sched.completes (k : JobKey) (s : Sched) : Act → List (Run × DispatchWorld)
  | .run t _ => (s.tasks t).elim [] (Pc.completes k)
  | .call _ | .clock _ => []

/-- The dispatches of the job that come to their end in a run of the scheduler, in order. -/
def completed (k : JobKey) (as : List Act) : List (Run × DispatchWorld) :=
  (schedMachine c b).outputs (Sched.completes k) Sched.init as

/-- The rows of the dispatch of a run in a world. -/
def ExecutorBundle.rowsOf (x : Run × DispatchWorld) : List HistoryEntry :=
  (b.dispatch c x.1.spec x.1.extras x.2).rows

/-- The rows that the run in progress has recorded, seen from its task, when the dispatches in `log`
have come to their end. -/
def Pc.RunRows (log : List (Run × DispatchWorld)) (current : List HistoryEntry) : Pc → Prop
  | .fetch _ | .spawnRun _ _ | .finish _ => current = []
  | .dispatching _ _ d => current = d.rows
  | .recordOutcome run outcome => current = [] ∧ ∃ before w, log = before ++ [(run, w)] ∧
    outcome = (b.dispatch c run.spec run.extras w).outcome
  | _ => True

/-- The rows of the runs of a job: those of the dispatches that have come to their end, then those
that the one in progress has recorded so far. -/
structure Serial (k : JobKey) (s : Sched) (log : List (Run × DispatchWorld))
    (current : List HistoryEntry) : Prop where
  completed : ∀ x ∈ log, P x.1.spec ∧ x.1.spec.key = k
  history : s.mem.history.filter k.ranRow = log.flatMap (b.rowsOf c) ++ current
  inRun : ∀ t pc run, s.tasks t = some pc → pc.runOf = some run → run.key = k →
    pc.RunRows c b log current
  idle : (∀ t run, s.InProgress t run → run.key ≠ k) → current = []

end

variable {c : Crates} {b : ExecutorBundle} {P : JobSpec → Prop} {s s' : Sched} {t u : TaskId}
  {m : Shared} {pc : Pc} {w : DispatchWorld} {e : Effect Shared Pc} {run : Run}

/-! ### The rows of a dispatch -/

theorem rows_step {d d' : Dispatch} (h : d.step c b = some d') : d.rows <+: d'.rows := by
  replace h := Dispatch.next_of_step h
  simp only [Dispatch.next] at h
  split at h
  case h_2 | h_3 | h_5 | h_6 =>
    obtain ⟨p, -, rfl⟩ := Option.map_eq_some_iff.1 h
    exact List.prefix_refl _
  case h_9 | h_11 =>
    obtain rfl := Option.some.inj h
    exact List.prefix_append _ _
  case h_10 =>
    split_ifs at h
    all_goals
      obtain rfl := Option.some.inj h
      exact List.prefix_refl _
  case h_12 => cases h
  all_goals
    obtain rfl := Option.some.inj h
    exact List.prefix_refl _

theorem ranRow_of_mem_dispatch {spec : JobSpec} {extras : DispatchExtras} {row : HistoryEntry}
    (h : row ∈ (b.dispatch c spec extras w).rows) :
    row.jobGroup = spec.key.group ∧ row.jobName = spec.key.name ∧ row.status ≠ .skipped := by
  cases hoff : b.offlineMode with
  | true =>
    simp only [ExecutorBundle.dispatch, hoff, if_true, offlineStub, List.mem_singleton] at h
    subst h
    exact ⟨rfl, rfl, by rintro ⟨⟩⟩
  | false =>
    simp only [ExecutorBundle.dispatch, hoff, Bool.false_eq_true, if_false,
      (dispatchLoop_rows _ _ _).rows, List.mem_map] at h
    obtain ⟨a, -, rfl⟩ := h
    refine ⟨rfl, rfl, ?_⟩
    simp only [ExecutorBundle.rowAt, attemptRow, rowStatus]
    split
    · rintro ⟨⟩
    · split_ifs <;> rintro ⟨⟩

theorem jobKey_eq_iff {k k' : JobKey} : k = k' ↔ k.group = k'.group ∧ k.name = k'.name := by
  obtain ⟨group, name⟩ := k
  obtain ⟨group', name'⟩ := k'
  exact JobKey.mk.injEq .. ▸ Iff.rfl

/-- The rows of a dispatch are rows of its own job, and of no other. -/
theorem filter_ranRow {spec : JobSpec} {extras : DispatchExtras} {rows : List HistoryEntry}
    (h : ∀ row ∈ rows, row ∈ (b.dispatch c spec extras w).rows) (k : JobKey) :
    rows.filter k.ranRow = if spec.key = k then rows else [] := by
  split_ifs with hk
  · subst hk
    refine List.filter_eq_self.2 fun row hrow => ?_
    simpa [JobKey.ranRow] using ranRow_of_mem_dispatch (h row hrow)
  · refine List.filter_eq_nil_iff.2 fun row hrow hran => hk ?_
    obtain ⟨hgroup, hname, -⟩ := ranRow_of_mem_dispatch (h row hrow)
    simp only [JobKey.ranRow, decide_eq_true_eq] at hran
    exact jobKey_eq_iff.2 ⟨hgroup ▸ hran.1, hname ▸ hran.2.1⟩

namespace Dispatch.Of

theorem init : Dispatch.Of c b run (.init b run.spec run.extras w) := by
  obtain ⟨htotal, hvalid⟩ := init_total (c := c) (b := b) run.spec run.extras w
  refine ⟨hvalid, htotal.trans ?_⟩
  rfl

theorem step {d d' : Dispatch} (h : d.Of c b run) (hd : d.step c b = some d') :
    d'.Of c b run := by
  obtain ⟨htotal, hvalid⟩ := step_total h.valid hd
  refine ⟨hvalid, ?_⟩
  rw [htotal, h.total, (step_fixed hd).2.2]

theorem notify {d : Dispatch} (h : d.Of c b run) : d.notify.Of c b run :=
  ⟨notify_valid h.valid, (notify_total d).trans h.total⟩

/-- The rows recorded so far are a first part of the rows of `dispatch`. -/
theorem prefix_rows {d : Dispatch} (h : d.Of c b run) :
    d.rows <+: (b.dispatch c run.spec run.extras d.world).rows := by
  rw [← h.total]
  exact List.prefix_append _ _

theorem done {d : Dispatch} {outcome : DispatchOutcome} (h : d.Of c b run)
    (hd : d.phase = .done outcome) :
    d.rows = (b.dispatch c run.spec run.extras d.world).rows ∧
      outcome = (b.dispatch c run.spec run.extras d.world).outcome := by
  rw [← h.total]
  simp only [Dispatch.total, Dispatch.remaining, hd, List.append_nil, and_self]

end Dispatch.Of

/-! ### What a step appends -/

/-- **A step appends its rows**, and leaves the rest of the history alone. -/
theorem history_step (h : pc.step c b m w = some e) :
    e.mem.history = m.history ++ pc.records c b m := by
  have hnil : m.history = m.history ++ [] := (List.append_nil _).symm
  cases pc with
  | registering todo reply => cases todo <;> cases h <;> exact hnil
  | triggerBegin | loopBegin =>
    obtain rfl := Option.some.inj h
    simp only [beginStep]
    split
    · rename_i hbegin
      obtain ⟨-, -, rfl⟩ := Shared.beginRunning_eq_ok.1 hbegin
      exact hnil
    · exact hnil
  | fetch run =>
    obtain rfl := Option.some.inj h
    rw [Does.mem_fetchStep]
    exact hnil
  | dispatching run cancel d =>
    simp only [Pc.step, dispatchStep] at h
    split at h
    · rename_i hd
      cases h
      simp only [Pc.records, Dispatch.step_done hd, move]
      exact hnil
    · obtain ⟨d', hd, rfl⟩ := Option.map_eq_some_iff.1 h
      simp only [Pc.records, hd, Option.elim_some]
      rfl
  | triggerLookup | stopCheck | stopSignal | loopParse | loopNext | loopWindow =>
    simp only [Pc.step] at h
    split at h <;> cases h <;> exact hnil
  | loopSkipRow l nowMs =>
    cases h
    rfl
  | _ => cases h <;> exact hnil

/-! ### The jobs a task works with -/

theorem done_of_next {cancel : NotifyId} {d : Dispatch} {outcome : DispatchOutcome}
    (h : (Pc.dispatching run cancel d).step c b m w = some e)
    (hnext : e.next = .recordOutcome run outcome) : d.phase = .done outcome := by
  simp only [Pc.step, dispatchStep] at h
  split at h
  · rename_i outcome' hd
    obtain rfl := Option.some.inj h
    rw [hd, (Pc.recordOutcome.inj hnext).2]
  · obtain ⟨d', hd, rfl⟩ := Option.map_eq_some_iff.1 h
    cases hnext

theorem not_allows_of_next {l : Loop} {tick nowMs : ℤ}
    (h : (Pc.loopWindow l tick).step c b m w = some e) (hnext : e.next = .loopSkipRow l nowMs) :
    l.spec.window.allows nowMs = false := by
  simp only [Pc.step] at h
  split at h <;> rename_i hallows <;> obtain rfl := Option.some.inj h
  · cases hnext
  · rw [← (Pc.loopSkipRow.inj hnext).2]
    simpa using hallows

theorem sound_next (hs : s.Sound c b P) (hpc : pc.Sound c b P)
    (h : pc.step c b s.mem w = some e) : e.next.Sound c b P := by
  have hgoes := step_goes h
  generalize hnext : e.next = next at hgoes ⊢
  cases hgoes with
  | remove spec todo reply =>
    exact ⟨hpc spec List.mem_cons_self, fun x hx => hpc x (List.mem_cons_of_mem _ hx)⟩
  | insert job todo reply => exact hpc.2
  | clear loaded =>
    intro spec hspec
    obtain ⟨job, hjob, rfl⟩ := List.mem_map.1 hspec
    exact hpc job hjob
  | lookup key extras job hjob => exact hs.jobs key job hjob
  | beginManual key extras job n => exact ⟨hpc.1, hpc.2, by rintro l ⟨⟩⟩
  | fetchCron run cancel => exact ⟨hpc, .init⟩
  | advance run cancel d d' hd => exact ⟨hpc.1, hpc.2.step hd⟩
  | complete run cancel d outcome => exact ⟨hpc.1, _, (hpc.2.done (done_of_next h hnext)).2⟩
  | finishCron run l horigin => exact hpc.loop l horigin
  | loopSkip l tick => exact ⟨hpc, not_allows_of_next h hnext⟩
  | beginCron l tick n => exact ⟨hpc, rfl, by rintro l ⟨⟩; exact hpc⟩
  | recordOutcome | loopRecordSkip => exact hpc.1
  | _ => first | exact hpc | trivial

theorem sound_spawn (hpc : pc.Sound c b P) (h : pc.step c b m w = some e) :
    ∀ v p, e.spawn = some (v, p) → p.Sound c b P := by
  intro v p hv
  rcases (step_does h).spawn_cases hv with ⟨spec, todo, reply, expr, rfl, -, -, -, rfl⟩ |
    ⟨run, cancel, rfl, -, -, rfl⟩
  · exact hpc.1
  · exact ⟨hpc, .init⟩

theorem sound_notify {ns : List NotifyId} (h : pc.Sound c b P) : (pc.notify ns).Sound c b P := by
  cases pc with
  | dispatching run cancel d =>
    simp only [Pc.notify]
    split_ifs
    · exact ⟨h.1, h.2.notify⟩
    · exact h
  | _ => exact h

theorem sound_entry {call : Call} (h : ∀ spec ∈ call.specs, P spec) : call.entry.Sound c b P := by
  cases call with
  | reloadFrom loaded => exact fun job hjob => h job.spec (List.mem_map_of_mem hjob)
  | register | registerAll => exact h
  | _ => trivial

theorem sound_step {a : Act} (h : s.Sound c b P) (ha : ∀ spec ∈ a.specs, P spec)
    (hs : (schedMachine c b).step s a = some s') : s'.Sound c b P := by
  cases a with
  | call call =>
    obtain rfl := Option.some.inj hs
    refine ⟨h.jobs, fun u p hu => ?_⟩
    rcases Pool.tasks_add_cases hu with ⟨-, rfl⟩ | ⟨-, hq⟩
    · exact sound_entry ha
    · exact h.tasks u p hq
  | run t w =>
    obtain ⟨pc, e, hpc, he, rfl⟩ := run_step hs
    have hsound := h.tasks t pc hpc
    refine ⟨fun k job hk => ?_, ?_⟩
    · rcases (step_does he).lookup_jobs hk with hold | ⟨hjob, hkey⟩
      · exact h.jobs k job hold
      · cases pc with
        | inserting job' todo reply =>
          obtain rfl := Option.some.inj hjob
          exact ⟨hsound.1, hkey⟩
        | _ => cases hjob
    · refine Pool.forall_tasks_apply (sound_next h hsound he) (sound_spawn hsound he) ?_
      intro u q hq
      obtain ⟨ns, hns⟩ := (step_does he).touch_eq
      rw [hns]
      exact sound_notify (h.tasks u q hq)
  | clock now =>
    obtain rfl := Option.some.inj hs
    exact ⟨h.jobs, h.tasks⟩

theorem sound_init : Sched.init.Sound c b P := by
  refine ⟨?_, ?_⟩
  · rintro k job ⟨⟩
  · rintro t pc ⟨⟩

theorem runs_specs {as : List Act} (h : (schedMachine c b).run Sched.init as = some s) :
    (schedMachine c b).Runs (fun _ a => ∀ spec ∈ a.specs, spec ∈ as.flatMap Act.specs)
      Sched.init as s := by
  refine (Machine.runs_of_run h).imp_mem fun s a ha _ spec hspec => ?_
  exact List.mem_flatMap.2 ⟨a, ha, hspec⟩

/-- **In every run the tasks work with the jobs that were handed over**, each under its own key. -/
theorem sound_run {as : List Act} (h : (schedMachine c b).run Sched.init as = some s) :
    s.Sound c b (· ∈ as.flatMap Act.specs) :=
  (runs_specs h).invariant sound_init fun _ _ _ hi hg hs => sound_step hi hg hs

/-- Hence what holds of every job that is handed over holds of every job that is worked with. -/
theorem sound_of_specs {as : List Act} (h : (schedMachine c b).run Sched.init as = some s)
    (hP : ∀ a ∈ as, ∀ spec ∈ a.specs, P spec) : s.Sound c b P :=
  ((Machine.runs_of_run h).imp_mem fun _ a ha _ => hP a ha).invariant sound_init
    fun _ _ _ hi hg hs => sound_step hi hg hs

/-! ### The rows of one job -/

variable {k : JobKey} {log log' : List (Run × DispatchWorld)}
  {current current' : List HistoryEntry}

theorem runRows_notify {ns : List NotifyId} (h : pc.RunRows c b log current) :
    (pc.notify ns).RunRows c b log current := by
  cases pc with
  | dispatching run cancel d =>
    simp only [Pc.notify]
    split_ifs <;> exact h
  | _ => exact h

/-- Where a task in a run comes from: it has just moved, the task of the run has just spawned it, or
it was in the run before, and is notified at most. -/
theorem runner_cases {p : Pc} (hdoes : Does c b s.mem w pc e)
    (hu : (s.apply t e).tasks u = some p) (hrun : p.runOf = some run) :
    (u = t ∧ p = e.next) ∨
      (∃ cancel, pc = .spawnRun run cancel ∧ e.spawn = some (u, p) ∧
        p = .dispatching run cancel (.init b run.spec run.extras w)) ∨
      (u ≠ t ∧ ∃ q ns, s.tasks u = some q ∧ q.runOf = some run ∧ p = q.notify ns) := by
  rcases Pool.tasks_apply_cases hu with hself | ⟨-, hsp⟩ | ⟨hut, q, hq, rfl⟩
  · exact .inl hself
  · rcases hdoes.spawn_cases hsp with ⟨spec, todo, reply, expr, -, -, -, -, rfl⟩ |
      ⟨run', cancel, rfl, -, -, rfl⟩
    · cases hrun
    · obtain rfl := Option.some.inj hrun
      exact .inr (.inl ⟨cancel, rfl, hsp, rfl⟩)
  · obtain ⟨ns, hns⟩ := hdoes.touch_eq
    rw [hns, runOf_notify] at hrun
    exact .inr (.inr ⟨hut, q, ns, hq, hrun, by rw [hns]⟩)

theorem inProgress_of_runOf_ne (ho : Owned s) (hpc : s.tasks t = some pc)
    (hdoes : Does c b s.mem w pc e) (hne : pc.runOf ≠ some run) (h : s.InProgress u run) :
    Sched.InProgress (s.apply t e) u run := by
  obtain ⟨q, hq, hrun⟩ := h
  have hut : u ≠ t := by
    rintro rfl
    rw [hpc] at hq
    obtain rfl := Option.some.inj hq
    exact hne hrun
  obtain ⟨ns, hns⟩ := hdoes.touch_eq
  refine ⟨e.touch q, Pool.tasks_apply_of_some hut hq ?_, ?_⟩
  · exact fun v p hv => tasks_spawn_eq_none ho.tasksFresh hdoes hv
  · rw [hns, runOf_notify, hrun]

theorem eq_of_inProgress {run' : Run} (ho : Owned s) (ht : s.InProgress t run)
    (hu : s.InProgress u run') (hkey : run.key = k) (hkey' : run'.key = k) : u = t := by
  have hu' := held_of_inProgress hu
  rw [hkey', ← hkey] at hu'
  exact ho.exclusive.unique hu' (held_of_inProgress ht)

/-- A step of the task that is in a run of the job. -/
theorem serial_own (ho : Owned s) (hpc : s.tasks t = some pc) (hrun : pc.runOf = some run)
    (hkey : run.key = k) (hdoes : Does c b s.mem w pc e)
    (hlog : ∀ x ∈ log', P x.1.spec ∧ x.1.spec.key = k)
    (hhistory : e.mem.history.filter k.ranRow = log'.flatMap (b.rowsOf c) ++ current')
    (hnext : e.next.RunRows c b log' current')
    (hspawn : ∀ run' cancel, pc = .spawnRun run' cancel → current' = [])
    (hidle : current' = [] ∨ e.next.runOf = some run) :
    Serial c b P k (s.apply t e) log' current' := by
  refine ⟨hlog, hhistory, ?_, ?_⟩
  · intro u p run' hu hrun' hkey'
    rcases runner_cases hdoes hu hrun' with ⟨-, rfl⟩ | ⟨cancel, hspawning, -, rfl⟩ |
      ⟨hut, q, ns, hq, hqrun, -⟩
    · exact hnext
    · exact hspawn run' cancel hspawning
    · exact absurd (eq_of_inProgress ho ⟨pc, hpc, hrun⟩ ⟨q, hq, hqrun⟩ hkey hkey') hut
  · intro hall
    rcases hidle with hnil | hsame
    · exact hnil
    · exact absurd hkey (hall t run ⟨e.next, Pool.tasks_apply_self, hsame⟩)

theorem Serial.ownQuiet (h : Serial c b P k s log current) (ho : Owned s)
    (hpc : s.tasks t = some pc) (hrun : pc.runOf = some run) (hkey : run.key = k)
    (he : pc.step c b s.mem w = some e) (hrecords : pc.records c b s.mem = [])
    (hnext : e.next.RunRows c b log current)
    (hspawn : ∀ run' cancel, pc = .spawnRun run' cancel → current = [])
    (hidle : current = [] ∨ e.next.runOf = some run) :
    Serial c b P k (s.apply t e) log current := by
  refine serial_own ho hpc hrun hkey (step_does he) h.completed ?_ hnext hspawn hidle
  rw [history_step he, hrecords, List.append_nil]
  exact h.history

theorem records_advance {cancel : NotifyId} {d d' : Dispatch} {new : List HistoryEntry}
    (hd : d.step c b = some d') (hnew : d.rows ++ new = d'.rows) :
    (Pc.dispatching run cancel d).records c b m = new := by
  simp only [Pc.records, hd, Option.elim_some, ← hnew, List.drop_left]

theorem completes_advance {cancel : NotifyId} {d d' : Dispatch} (hd : d.step c b = some d') :
    (Pc.dispatching run cancel d).completes k = [] := by
  simp only [Pc.completes]
  split
  · rename_i hdone
    rw [Dispatch.step_done hdone] at hd
    cases hd
  · rfl

theorem records_done {cancel : NotifyId} {d : Dispatch} {outcome : DispatchOutcome}
    (hd : d.phase = .done outcome) : (Pc.dispatching run cancel d).records c b m = [] := by
  simp only [Pc.records, Dispatch.step_done hd, Option.elim_none]

theorem completes_done {cancel : NotifyId} {d : Dispatch} {outcome : DispatchOutcome}
    (hd : d.phase = .done outcome) (hkey : run.key = k) :
    (Pc.dispatching run cancel d).completes k = [(run, d.world)] := by
  simp only [Pc.completes, hd, hkey, if_true]

/-- **A step of the run of the job**: it records the next row, keeps what is recorded, or comes to
the end of its dispatch, with all the rows of it. -/
theorem Serial.step_own (h : Serial c b P k s log current) (ho : Owned s)
    (hsound : s.Sound c b P) (hpc : s.tasks t = some pc) (hrun : pc.runOf = some run)
    (hkey : run.key = k) (he : pc.step c b s.mem w = some e) :
    ∃ current', Serial c b P k (s.apply t e) (log ++ pc.completes k) current' := by
  have hrows := h.inRun t pc run hpc hrun hkey
  have hpcSound := hsound.tasks t pc hpc
  have hpanic : e.next ≠ .panicked := by
    intro hnext
    have hfaithful := faithful_step ho hpc (step_does he) t e.next Pool.tasks_apply_self
    rw [hnext] at hfaithful
    exact hfaithful
  have hquiet := h.ownQuiet ho hpc hrun hkey he
  have quiet (hnil : pc.completes k = []) (hrecords : pc.records c b s.mem = [])
      (hnext : e.next.RunRows c b log current)
      (hspawn : ∀ run' cancel, pc = .spawnRun run' cancel → current = [])
      (hidle : current = [] ∨ e.next.runOf = some run) :
      ∃ current', Serial c b P k (s.apply t e) (log ++ pc.completes k) current' := by
    rw [hnil, List.append_nil]
    exact ⟨current, hquiet hrecords hnext hspawn hidle⟩
  have own {log' current'} := @serial_own c b P s t pc w e run k log' current' ho hpc hrun hkey
    (step_does he)
  have hhistory := history_step he
  have hgoes := step_goes he
  generalize hnext : e.next = next at hgoes quiet own hpanic
  cases hgoes with
  | fetchManual run' cancel | fetchCron run' cancel =>
    exact quiet rfl rfl hrows (by rintro run' cancel ⟨⟩) (.inl hrows)
  | fetchFail => exact absurd rfl hpanic
  | handOver run' cancel => exact quiet rfl rfl trivial (fun _ _ _ => hrows) (.inl hrows)
  | advance run' cancel d d' hd =>
    obtain rfl := Option.some.inj hrun
    obtain ⟨new, hnew⟩ := rows_step hd
    have hmem : ∀ row ∈ new, row ∈ (b.dispatch c run'.spec run'.extras d'.world).rows := by
      intro row hrow
      refine (hpcSound.2.step hd).prefix_rows.subset ?_
      rw [← hnew]
      exact List.mem_append_right _ hrow
    rw [completes_advance hd, List.append_nil]
    refine ⟨d'.rows, own h.completed ?_ rfl (by rintro run' cancel ⟨⟩) (.inr rfl)⟩
    rw [hhistory, records_advance hd hnew, List.filter_append, h.history, filter_ranRow hmem,
      if_pos (hpcSound.1.key.trans hkey), ← hnew, hrows, List.append_assoc]
  | complete run' cancel d outcome =>
    obtain rfl := Option.some.inj hrun
    have hd := done_of_next he hnext
    obtain ⟨hdrows, houtcome⟩ := hpcSound.2.done hd
    rw [completes_done hd hkey]
    refine ⟨[], own ?_ ?_ ⟨rfl, log, d.world, rfl, houtcome⟩ (fun _ _ _ => rfl) (.inl rfl)⟩
    · intro x hx
      rcases List.mem_append.1 hx with hx | hx
      · exact h.completed x hx
      · rw [List.mem_singleton.1 hx]
        exact ⟨hpcSound.1.spec, hpcSound.1.key.trans hkey⟩
    · -- what the dispatch has recorded are all its rows
      rw [hhistory, records_done hd, List.append_nil, h.history, List.flatMap_append, List.flatMap_singleton,
        List.append_nil, hrows, hdrows]
      rfl
  | recordOutcome run' outcome =>
    exact quiet rfl rfl hrows.1 (by rintro run' cancel ⟨⟩) (.inl hrows.1)
  | finishManual run' | finishCron run' =>
    exact quiet rfl rfl trivial (by rintro run' cancel ⟨⟩) (.inl hrows)
  | _ => cases hrun

theorem completes_other (hother : ∀ run, pc.runOf = some run → run.key ≠ k) :
    pc.completes k = [] := by
  cases pc with
  | dispatching run cancel d =>
    simp only [Pc.completes]
    split
    · rw [if_neg (hother run rfl)]
    · rfl
  | _ => rfl

theorem filter_records_other (hpc : pc.Sound c b P) (hother : ∀ run, pc.runOf = some run →
    run.key ≠ k) : (pc.records c b m).filter k.ranRow = [] := by
  cases pc with
  | dispatching run cancel d =>
    simp only [Pc.records]
    cases hd : d.step c b with
    | none => rfl
    | some d' =>
      have hmem : ∀ row ∈ d'.rows.drop d.rows.length,
          row ∈ (b.dispatch c run.spec run.extras d'.world).rows := fun row hrow =>
        (hpc.2.step hd).prefix_rows.subset (List.drop_subset _ _ hrow)
      rw [Option.elim_some, filter_ranRow hmem, if_neg]
      rw [hpc.1.key]
      exact hother run rfl
  | loopSkipRow l now => simp [Pc.records, JobKey.ranRow, windowSkipRow]
  | _ => rfl

theorem fetch_of_begin (h : pc.step c b m w = some e) (hpc : pc.runOf = none)
    (hrun : e.next.runOf = some run) : e.next = .fetch run := by
  have hgoes := step_goes h
  generalize e.next = next at hgoes hrun ⊢
  cases hgoes with
  | beginManual | beginCron =>
    obtain rfl := Option.some.inj hrun
    rfl
  | fetchManual | fetchCron | advance | complete | recordOutcome => cases hpc
  | _ => cases hrun

/-- **A step of any other task** leaves the rows of the job alone; it may begin a run of the job,
when none is in progress. -/
theorem Serial.step_other (h : Serial c b P k s log current) (ho : Owned s)
    (hsound : s.Sound c b P) (hpc : s.tasks t = some pc)
    (hother : ∀ run, pc.runOf = some run → run.key ≠ k) (he : pc.step c b s.mem w = some e) :
    Serial c b P k (s.apply t e) log current := by
  have hdoes := step_does he
  refine ⟨h.completed, ?_, ?_, ?_⟩
  · rw [Pool.mem_apply, history_step he, List.filter_append,
      filter_records_other (hsound.tasks t pc hpc) hother, List.append_nil]
    exact h.history
  · intro u p run hu hrun hkey
    rcases runner_cases hdoes hu hrun with ⟨-, rfl⟩ | ⟨cancel, rfl, -⟩ | ⟨-, q, ns, hq, hqrun, rfl⟩
    · rcases runOf_next hdoes hrun with hsame | hnone
      · exact absurd hkey (hother run hsame)
      · -- the key was free, so no run of the job has left rows behind
        obtain ⟨hfree, -⟩ := startedAt_of_begin hdoes hnone hrun
        rw [fetch_of_begin he hnone hrun]
        refine h.idle fun u' run' hprog hkey' => ?_
        obtain ⟨p', hp', hrun'⟩ := hprog
        obtain ⟨inst, hinst, -⟩ := lookup_of_lease ho hp' hrun'
        rw [hkey', ← hkey, hfree] at hinst
        cases hinst
    · exact absurd hkey (hother run rfl)
    · exact runRows_notify (h.inRun u q run hq hqrun hkey)
  · intro hall
    refine h.idle fun u run hprog hkey => ?_
    have hne : pc.runOf ≠ some run := fun hrun => hother run hrun hkey
    exact hall u run (inProgress_of_runOf_ne ho hpc hdoes hne hprog) hkey

/-- **Every action keeps the runs of the job in a row.** -/
theorem Serial.step {a : Act} (h : Serial c b P k s log current) (ho : Owned s)
    (hsound : s.Sound c b P) (hs : (schedMachine c b).step s a = some s') :
    ∃ current', Serial c b P k s' (log ++ s.completes k a) current' := by
  cases a with
  | call call =>
    obtain rfl := Option.some.inj hs
    rw [show s.completes k (.call call) = [] from rfl, List.append_nil]
    refine ⟨current, h.completed, h.history, ?_, ?_⟩
    · intro u p run hu hrun hkey
      rcases Pool.tasks_add_cases hu with ⟨-, rfl⟩ | ⟨-, hq⟩
      · cases call <;> cases hrun
      · exact h.inRun u p run hq hrun hkey
    · intro hall
      refine h.idle fun u run hprog => ?_
      obtain ⟨q, hq, hrun⟩ := hprog
      refine hall u run ⟨q, ?_, hrun⟩
      exact Pool.tasks_add_of_some (tasks_fresh_eq_none ho.tasksFresh) hq
  | run t w =>
    obtain ⟨pc, e, hpc, he, rfl⟩ := run_step hs
    rw [show s.completes k (.run t w) = pc.completes k by
      rw [Sched.completes, hpc, Option.elim_some]]
    by_cases hown : ∃ run, pc.runOf = some run ∧ run.key = k
    · obtain ⟨run, hrun, hkey⟩ := hown
      exact h.step_own ho hsound hpc hrun hkey he
    · have hother run (hrun : pc.runOf = some run) : run.key ≠ k :=
        fun hkey => hown ⟨run, hrun, hkey⟩
      rw [completes_other hother, List.append_nil]
      exact ⟨current, h.step_other ho hsound hpc hother he⟩
  | clock now =>
    obtain rfl := Option.some.inj hs
    rw [show s.completes k (.clock now) = [] from rfl, List.append_nil]
    exact ⟨current, h.completed, h.history, h.inRun, h.idle⟩

/-! ### The whole history -/

/-- The history of a job after the actions `as`: the rows of the dispatches that have come to their
end, one after the other, and then those that the dispatch in progress has recorded, a first part of
its rows. -/
structure SerialHistory (c : Crates) (b : ExecutorBundle) (as : List Act) (s : Sched) (k : JobKey)
    (current : List HistoryEntry) : Prop where
  rows : s.mem.history.filter k.ranRow = (completed c b k as).flatMap (b.rowsOf c) ++ current
  completed : ∀ x ∈ completed c b k as, x.1.spec ∈ as.flatMap Act.specs ∧ x.1.spec.key = k
  dispatching : ∀ t run cancel d, s.tasks t = some (.dispatching run cancel d) → run.key = k →
    run.spec ∈ as.flatMap Act.specs ∧ run.spec.key = k ∧ current = d.rows ∧
      d.rows <+: b.rowsOf c (run, d.world)
  idle : (∀ t run cancel d, s.tasks t = some (.dispatching run cancel d) → run.key ≠ k) →
    current = []

theorem Sched.Sound.of_runOf (hs : s.Sound c b P) (hpc : s.tasks t = some pc)
    (hrun : pc.runOf = some run) : run.Sound P := by
  have hsound := hs.tasks t pc hpc
  cases pc with
  | fetch | spawnRun | finish =>
    obtain rfl := Option.some.inj hrun
    exact hsound
  | dispatching | recordOutcome =>
    obtain rfl := Option.some.inj hrun
    exact hsound.1
  | _ => cases hrun

theorem Sched.Sound.of_loopOf {l : Loop} (hs : s.Sound c b P) (hpc : s.tasks t = some pc)
    (hloop : pc.loopOf = some l) : P l.spec := by
  have hsound := hs.tasks t pc hpc
  cases pc with
  | fetch run | spawnRun run | dispatching run | recordOutcome run | finish run =>
    have hrun := hs.of_runOf hpc rfl
    cases horigin : run.origin with
    | manual =>
      rw [Pc.loopOf, horigin] at hloop
      cases hloop
    | cron l' =>
      rw [Pc.loopOf, horigin] at hloop
      obtain rfl := Option.some.inj hloop
      exact hrun.loop l' horigin
  | loopSkipRow | loopRecordSkip =>
    obtain rfl := Option.some.inj hloop
    exact hsound.1
  | loopParse | loopNow | loopNext | loopSleep | loopWindow | loopBegin =>
    obtain rfl := Option.some.inj hloop
    exact hsound
  | _ => cases hloop

theorem skip_of_mem_records {row : HistoryEntry} (hpc : pc.Sound c b P)
    (h : row ∈ pc.records c b m) (hskip : row.status = .skipped) :
    ∃ spec checked, P spec ∧ spec.window.allows checked = false ∧
      row = windowSkipRow spec m.now := by
  cases pc with
  | dispatching run cancel d =>
    simp only [Pc.records] at h
    cases hd : d.step c b with
    | none =>
      rw [hd] at h
      cases h
    | some d' =>
      rw [hd] at h
      have hmem := (hpc.2.step hd).prefix_rows.subset (List.drop_subset _ _ h)
      exact absurd hskip (ranRow_of_mem_dispatch hmem).2.2
  | loopSkipRow l checked => exact ⟨l.spec, checked, hpc.1, hpc.2, List.mem_singleton.1 h⟩
  | _ => cases h

/-- Every skip is that of a job outside its window. -/
def Sched.SkipsOutside (P : JobSpec → Prop) (s : Sched) : Prop :=
  ∀ row ∈ s.mem.history, row.status = .skipped → ∃ spec, P spec ∧
    ∃ checked now, spec.window.allows checked = false ∧ row = windowSkipRow spec now

theorem skipsOutside_step {a : Act} (h : s.SkipsOutside P) (hsound : s.Sound c b P)
    (hs : (schedMachine c b).step s a = some s') : s'.SkipsOutside P := by
  cases a with
  | call | clock =>
    obtain rfl := Option.some.inj hs
    exact h
  | run t w =>
    obtain ⟨pc, e, hpc, he, rfl⟩ := run_step hs
    intro row hrow hskip
    rw [Pool.mem_apply, history_step he] at hrow
    rcases List.mem_append.1 hrow with hold | hnew
    · exact h row hold hskip
    · obtain ⟨spec, checked, hspec, hallows, rfl⟩ :=
        skip_of_mem_records (hsound.tasks t pc hpc) hnew hskip
      exact ⟨spec, hspec, checked, _, hallows, rfl⟩

theorem serial_run {as : List Act} (h : (schedMachine c b).run Sched.init as = some s)
    (k : JobKey) : ∃ current,
      Serial c b (· ∈ as.flatMap Act.specs) k s (completed c b k as) current := by
  let I (s : Sched) (log : List (Run × DispatchWorld)) := Owned s ∧
    s.Sound c b (· ∈ as.flatMap Act.specs) ∧
      ∃ current, Serial c b (· ∈ as.flatMap Act.specs) k s log current
  have hinit : I Sched.init [] := by
    refine ⟨owned_init, sound_init, [], ⟨?_, rfl, ?_, fun _ => rfl⟩⟩
    · rintro x ⟨⟩
    · rintro t pc run ⟨⟩
  refine ((runs_specs h).outputs_invariant (I := I) (Sched.completes k) [] hinit ?_).2.2
  rintro s a s' log ⟨ho, hsound, current, hserial⟩ hg hs
  exact ⟨owned_step ho hs, sound_step hsound hg hs, hserial.step ho hsound hs⟩

theorem skipsOutside_run {as : List Act} (h : (schedMachine c b).run Sched.init as = some s) :
    s.SkipsOutside (· ∈ as.flatMap Act.specs) := by
  let I (s : Sched) := s.Sound c b (· ∈ as.flatMap Act.specs) ∧
    s.SkipsOutside (· ∈ as.flatMap Act.specs)
  have hinit : I Sched.init := ⟨sound_init, by rintro row ⟨⟩⟩
  refine ((runs_specs h).invariant (I := I) hinit ?_).2
  rintro s a s' ⟨hsound, hskips⟩ hg hs
  exact ⟨sound_step hsound hg hs, skipsOutside_step hskips hsound hs⟩

theorem mem_running_of_inProgress (ho : Owned s) (h : s.InProgress t run) :
    run.key ∈ s.mem.running := by
  obtain ⟨pc, hpc, hrun⟩ := h
  obtain ⟨inst, hinst, -⟩ := lookup_of_lease ho hpc hrun
  exact AList.lookup_isSome.1 (Option.isSome_iff_exists.2 ⟨inst, hinst⟩)

theorem Serial.eq_nil (h : Serial c b P k s log current)
    (hall : ∀ t run cancel d, s.tasks t = some (.dispatching run cancel d) → run.key ≠ k) :
    current = [] := by
  by_cases hprog : ∃ t run, s.InProgress t run ∧ run.key = k
  · obtain ⟨t, run, ⟨pc, hpc, hrun⟩, hkey⟩ := hprog
    have hrows := h.inRun t pc run hpc hrun hkey
    cases pc with
    | fetch | spawnRun | finish => exact hrows
    | recordOutcome => exact hrows.1
    | dispatching run' cancel d =>
      obtain rfl := Option.some.inj hrun
      exact absurd hkey (hall t _ cancel d hpc)
    | _ => cases hrun
  · exact h.idle fun t run hrun hkey => hprog ⟨t, run, hrun, hkey⟩

theorem serialHistory_of_run {as : List Act} (h : (schedMachine c b).run Sched.init as = some s)
    (k : JobKey) : ∃ current, SerialHistory c b as s k current := by
  obtain ⟨current, hserial⟩ := serial_run h k
  refine ⟨current, hserial.history, hserial.completed, ?_, hserial.eq_nil⟩
  intro t run cancel d ht hkey
  obtain ⟨hrun, hof⟩ := (sound_run h).tasks t _ ht
  exact ⟨hrun.spec, hrun.key.trans hkey, hserial.inRun t _ run ht rfl hkey, hof.prefix_rows⟩

/-- **The history is serial.**  In every run, whatever the order of the steps, the rows of the
runs of a job are those of its dispatches that have come to their end in this run, each as
`dispatch` says, one after the other, and then those that the dispatch in progress has recorded;
and the other rows are skips of jobs handed over, each found outside its window. -/
theorem history_serial {as : List Act} (h : (schedMachine c b).run Sched.init as = some s) :
    (∀ k, ∃ current, SerialHistory c b as s k current) ∧
      ∀ row ∈ s.mem.history, row.status = .skipped → ∃ spec ∈ as.flatMap Act.specs,
        ∃ checked now, spec.window.allows checked = false ∧ row = windowSkipRow spec now :=
  ⟨serialHistory_of_run h, skipsOutside_run h⟩

/-- A run of `demoSpec` whose first attempt exits with code 1, and a second one up to its first
row. -/
def demoTwice : List Act :=
  demoTriggered (demoWorld (.exited (some 1))) ++ demoSteps (.exited (some 1)) 5 14 ++
    .call (.triggerNow demoSpec.key noExtras) :: demoSteps (.exited (some 1)) 6 4 ++
      demoSteps (.exited (some 1)) 8 5

/-- The two rows of the first run come before the row of the second, which is in progress. -/
theorem history_serial_twice :
    ∃ s, (schedMachine noCrates demoBundle).run Sched.init demoTwice = some s ∧
      (completed noCrates demoBundle demoSpec.key demoTwice).length = 1 ∧
      ∃ current, (s.mem.history.filter demoSpec.key.ranRow).map (·.status) =
          [.retrying, .success, .retrying] ∧
        SerialHistory noCrates demoBundle demoTwice s demoSpec.key current := by
  let s := ((schedMachine noCrates demoBundle).run Sched.init demoTwice).getD Sched.init
  have hs : (schedMachine noCrates demoBundle).run Sched.init demoTwice = some s :=
    eq_some_getD (by decide)
  obtain ⟨current, hserial⟩ := (history_serial hs).1 demoSpec.key
  exact ⟨s, hs, by decide, current, by decide, hserial⟩

/-- **The history tells the outcome.**  In every run, the outcome that a task is about to write to
the runtime state of a job, which `describe` then lists, is the one that the last rows of the job in
the history tell, and these are the rows of this run. -/
theorem history_tells_outcome {as : List Act}
    (h : (schedMachine c b).run Sched.init as = some s) {outcome : DispatchOutcome}
    (ht : s.tasks t = some (.recordOutcome run outcome)) :
    SerialHistory c b as s run.key [] ∧
      ∃ before w, completed c b run.key as = before ++ [(run, w)] ∧
        s.mem.history.filter run.key.ranRow = before.flatMap (b.rowsOf c) ++ b.rowsOf c (run, w) ∧
        outcome = outcomeOf run.spec (b.rowsOf c (run, w)) := by
  obtain ⟨current, hserial⟩ := serial_run h run.key
  obtain ⟨rfl, before, w, hlog, houtcome⟩ := hserial.inRun t _ run ht rfl rfl
  obtain ⟨current', hhistory⟩ := serialHistory_of_run h run.key
  have hrows : s.mem.history.filter run.key.ranRow =
      before.flatMap (b.rowsOf c) ++ b.rowsOf c (run, w) := by
    rw [hserial.history, hlog, List.flatMap_append, List.flatMap_singleton, List.append_nil]
  -- what is recorded are the rows of the dispatches that are done
  obtain rfl : current' = [] := by
    have hboth := hhistory.rows.symm.trans hserial.history
    simpa using hboth
  refine ⟨hhistory, before, w, hlog, hrows, ?_⟩
  rw [houtcome]
  exact dispatch_outcomeOf

/-- The outcome a task is about to write. -/
def Pc.outcome : Pc → Option (Run × DispatchOutcome)
  | .recordOutcome run outcome => some (run, outcome)
  | _ => none

/-- Two rows, the second a success: two attempts, and `SUCCESS`. -/
theorem history_tells_outcome_success :
    let as := demoTriggered (demoWorld (.exited (some 1))) ++ demoSteps (.exited (some 1)) 5 12
    ∃ s run, demoSched.run Sched.init as = some s ∧
      s.tasks 5 = some (.recordOutcome run ⟨.success, 2, none⟩) ∧
      ∃ before w, completed noCrates demoBundle run.key as = before ++ [(run, w)] ∧
        ⟨.success, 2, none⟩ = outcomeOf run.spec (demoBundle.rowsOf noCrates (run, w)) := by
  intro as
  let s := (demoSched.run Sched.init as).getD Sched.init
  have hs : demoSched.run Sched.init as = some s := eq_some_getD (by decide)
  have hout : ((s.tasks 5).bind Pc.outcome).map (·.2) = some ⟨.success, 2, none⟩ := by decide
  obtain ⟨⟨run, outcome⟩, hrun, rfl⟩ := Option.map_eq_some_iff.1 hout
  obtain ⟨pc, hpc, hpcOut⟩ := Option.bind_eq_some_iff.1 hrun
  cases pc with
  | recordOutcome run' outcome' =>
    obtain ⟨rfl, rfl⟩ := Prod.mk.inj (Option.some.inj hpcOut)
    obtain ⟨-, before, w, hlog, -, htold⟩ := history_tells_outcome hs hpc
    exact ⟨s, run', hs, hpc, before, w, hlog, htold⟩
  | _ => cases hpcOut

end CronManager

import CronManager.Scheduler.Loops
import CronManager.Scheduler.Window

/-!
# The ticks of a scheduling loop

A scheduling loop reads the clock, asks `upcoming` for the next instant of its schedule, sleeps and
handles the fire: it skips it, finds the job running, or dispatches it and waits for the end.  Then
it starts over with the clock as it is by then.

`ticks_in_order` says what comes of it in any run of the scheduler in which the clock does not run
backwards and no sleep is short.  The ticks that one loop handles are strictly increasing, so each
is handled at most once; each is an instant of the schedule and handled when it is due or later;
and an instant that passes during a dispatch of the loop is never handled.
-/

namespace CronManager

open Rust

/-- A fire that a loop handles at `time`. -/
structure Fire where
  expr : String
  tick : ℤ
  time : ℤ
  deriving DecidableEq, Repr

/-- The fire that the next step handles. -/
def Pc.fire (now : ℤ) : Pc → Option Fire
  | .loopWindow l tick => some ⟨l.expr, tick, now⟩
  | _ => none

/-- The fire that task `u` handles in a step. -/
def handles (u : TaskId) (s : Sched) : Act → List Fire
  | .run t _ => if t = u then ((s.tasks u).bind (Pc.fire s.mem.now)).toList else []
  | _ => []

/-- The clock does not run backwards. -/
def clockForward (s : Sched) : Act → Bool
  | .clock now => s.mem.now ≤ now
  | _ => true

/-- A sleep returns no earlier than asked for. -/
def sleepsFull (s : Sched) : Act → Bool
  | .run t _ => match s.tasks t with
    | some (.loopSleep _ _ deadline) => deadline ≤ s.mem.now
    | _ => true
  | _ => true

/-- `upcoming` yields the least instant of the schedule strictly after the current time. -/
def Crates.UpcomingOf (c : Crates) (instants : String → Set ℤ) : Prop :=
  ∀ expr now next, c.cronUpcoming expr now = some next ↔
    IsLeast {x | x ∈ instants expr ∧ now < x} next

/-- The fires of a loop, in the order in which it handles them. -/
structure InOrder (instants : String → Set ℤ) (fires : List Fire) : Prop where
  increasing : fires.Pairwise fun f f' => f.tick < f'.tick
  scheduled : ∀ f ∈ fires, f.tick ∈ instants f.expr
  due : ∀ f ∈ fires, f.tick ≤ f.time

/-- The run began at the time of its entry in `running`, and no fire is for an instant after that
and up to `now`. -/
def Sched.Drops (s : Sched) (run : Run) (fires : List Fire) : Prop :=
  ∃ inst, s.mem.running.lookup run.key = some inst ∧ inst.cancel = run.mine ∧
    ∀ f ∈ fires, f.tick ≤ inst.startedAtMs ∨ s.mem.now < f.tick

variable {c : Crates} {b : ExecutorBundle} {instants : String → Set ℤ} {s s' : Sched}
  {t u : TaskId} {a : Act} {m : Shared} {pc : Pc} {w : DispatchWorld} {e : Effect Shared Pc}
  {T : ℤ}

/-! ### The clock -/

theorem now_act (hs : (schedMachine c b).step s a = some s') (ha : ∀ now, a ≠ .clock now) :
    s'.mem.now = s.mem.now := by
  cases a with
  | call call =>
    obtain rfl := Option.some.inj hs
    rfl
  | run t w =>
    obtain ⟨pc, e, -, he, rfl⟩ := run_step hs
    exact now_step he
  | clock now => exact absurd rfl (ha now)

theorem now_le (hg : clockForward s a = true) (hs : (schedMachine c b).step s a = some s') :
    s.mem.now ≤ s'.mem.now := by
  cases a with
  | clock now =>
    obtain rfl := Option.some.inj hs
    exact of_decide_eq_true hg
  | call | run => exact (now_act hs (by rintro now ⟨⟩)).ge

theorem fresh_le (hs : (schedMachine c b).step s a = some s') : s.mem.fresh ≤ s'.mem.fresh := by
  cases a with
  | run t w =>
    obtain ⟨pc, e, -, hdoes, rfl⟩ := run_does hs
    exact hdoes.fresh_le
  | call call =>
    obtain rfl := Option.some.inj hs
    exact Nat.le_succ _
  | clock now =>
    obtain rfl := Option.some.inj hs
    exact le_refl _

theorem lookup_running_act {k : JobKey} {inst inst' : RunningInstance}
    (hs : (schedMachine c b).step s a = some s') (hk : s.mem.running.lookup k = some inst)
    (h : s'.mem.running.lookup k = some inst') : inst' = inst := by
  cases a with
  | run t w =>
    obtain ⟨pc, e, -, hdoes, rfl⟩ := run_does hs
    exact lookup_running_step hdoes hk h
  | call | clock =>
    obtain rfl := Option.some.inj hs
    exact Option.some.inj (h.symm.trans hk)

/-! ### What a loop waits for -/

/-- The tick that a loop sleeps for or is about to handle, if there is one, comes after `T`. -/
def Pc.After (T : ℤ) : Pc → Prop
  | .loopSleep _ tick _ | .loopWindow _ tick => T < tick
  | _ => True

/-- A loop has read the clock, sleeps at least until its tick, and handles it no earlier. -/
def Pc.OnTime (instants : String → Set ℤ) (now : ℤ) : Pc → Prop
  | .loopNext _ read => read ≤ now
  | .loopSleep l tick deadline => tick ∈ instants l.expr ∧ tick ≤ deadline
  | .loopWindow l tick => tick ∈ instants l.expr ∧ tick ≤ now
  | _ => True

theorem after_notify {ns : List NotifyId} (h : pc.After T) : (pc.notify ns).After T := by
  cases pc <;> exact h

theorem onTime_notify {ns : List NotifyId} {now : ℤ} (h : pc.OnTime instants now) :
    (pc.notify ns).OnTime instants now := by
  cases pc <;> exact h

theorem onTime_later {now now' : ℤ} (h : pc.OnTime instants now) (hle : now ≤ now') :
    pc.OnTime instants now' := by
  cases pc with
  | loopNext l read => exact le_trans h hle
  | loopWindow l tick => exact ⟨h.1, h.2.trans hle⟩
  | _ => exact h

theorem loopNext_cases {l : Loop} {read : ℤ}
    (h : Pc.step c b m (.loopNext l read) w = some e) :
    e.next = .ended ∨ ∃ next, c.cronUpcoming l.expr m.now = some next ∧
      e.next = .loopSleep l next (m.now + max 0 (next - read)) := by
  simp only [Pc.step] at h
  split at h
  · obtain rfl := Option.some.inj h
    exact .inl rfl
  · rename_i next hnext
    obtain rfl := Option.some.inj h
    exact .inr ⟨next, hnext, rfl⟩

theorem after_next (hc : c.UpcomingOf instants) (hT : T ≤ m.now) (h : pc.After T)
    (he : pc.step c b m w = some e) : e.next.After T := by
  cases pc with
  | loopNext l read =>
    rcases loopNext_cases he with hended | ⟨next, hnext, hsleep⟩
    · rw [hended]
      trivial
    · rw [hsleep]
      exact hT.trans_lt ((hc _ _ _).1 hnext).1.2
  | _ =>
    have hgoes := step_goes he
    generalize e.next = next at hgoes ⊢
    cases hgoes <;> first | exact h | trivial

/-- A loop goes on in time: the deadline is computed from the reading before `upcoming`, which is
no later than the current time. -/
theorem onTime_next (hc : c.UpcomingOf instants) (h : pc.OnTime instants m.now)
    (hsleep : ∀ l tick deadline, pc = .loopSleep l tick deadline → deadline ≤ m.now)
    (he : pc.step c b m w = some e) : e.next.OnTime instants m.now := by
  cases pc with
  | loopNext l read =>
    rcases loopNext_cases he with hended | ⟨next, hnext, hnext'⟩
    · rw [hended]
      trivial
    · rw [hnext']
      refine ⟨((hc _ _ _).1 hnext).1.1, ?_⟩
      have hread : read ≤ m.now := h
      have hmax : next - read ≤ max 0 (next - read) := le_max_right _ _
      omega
  | loopSleep l tick deadline =>
    obtain rfl := Option.some.inj he
    exact ⟨h.1, h.2.trans (hsleep l tick deadline rfl)⟩
  | loopNow l =>
    obtain rfl := Option.some.inj he
    exact le_refl m.now
  | _ =>
    have hgoes := step_goes he
    generalize e.next = next at hgoes ⊢
    cases hgoes <;> trivial

/-- Task `u` waits for no tick up to `T`. -/
def Sched.Later (s : Sched) (u : TaskId) (T : ℤ) : Prop :=
  ∀ pc, s.tasks u = some pc → pc.After T

theorem later_step (hc : c.UpcomingOf instants) (hT : T ≤ s.mem.now) (h : s.Later u T)
    (hs : (schedMachine c b).step s a = some s') : s'.Later u T := by
  intro p hp
  cases step_becomes hs hp with
  | moved w hpc he => exact after_next hc hT (h _ hpc) he
  | stayed ns hpc => exact after_notify (h _ hpc)
  | called call => cases call <;> trivial
  | looped | handed => trivial

/-! ### The fires so far -/

theorem handles_eq_nil (ha : ∀ w, a ≠ .run u w) : handles u s a = [] := by
  cases a with
  | run t w =>
    refine if_neg ?_
    rintro rfl
    exact ha w rfl
  | _ => rfl

theorem mem_handles {f : Fire} : f ∈ handles u s a ↔ ∃ l tick w, a = .run u w ∧
    s.tasks u = some (.loopWindow l tick) ∧ f = ⟨l.expr, tick, s.mem.now⟩ := by
  constructor
  · intro hf
    by_cases ha : ∃ w, a = .run u w
    · obtain ⟨w, rfl⟩ := ha
      simp only [handles, if_true, Option.mem_toList] at hf
      obtain ⟨pc, hpc, hfire⟩ := Option.bind_eq_some_iff.1 hf
      cases pc with
      | loopWindow l tick => exact ⟨l, tick, w, rfl, hpc, (Option.some.inj hfire).symm⟩
      | _ => cases hfire
    · rw [handles_eq_nil (not_exists.1 ha)] at hf
      cases hf
  · rintro ⟨l, tick, w, rfl, hpc, rfl⟩
    simp [handles, hpc, Pc.fire]

theorem handles_pairwise {R : Fire → Fire → Prop} : (handles u s a).Pairwise R := by
  cases a with
  | run t w =>
    simp only [handles]
    split_ifs
    · cases (s.tasks u).bind (Pc.fire s.mem.now) with
      | none => exact .nil
      | some f => exact List.pairwise_singleton R f
    · exact .nil
  | _ => exact .nil

/-- What holds of task `u` and the fires it has handled. -/
structure Handled (instants : String → Set ℤ) (u : TaskId) (s : Sched) (fires : List Fire) :
    Prop where
  owned : Owned s
  onTime : ∀ pc, s.tasks u = some pc → pc.OnTime instants s.mem.now
  inOrder : InOrder instants fires
  past : ∀ f ∈ fires, f.time ≤ s.mem.now
  later : ∀ f ∈ fires, s.Later u f.tick
  born : ∀ f ∈ fires, u < s.mem.fresh
  /-- The run in progress began after these fires. -/
  begun : ∀ run inst, s.InProgress u run → s.mem.running.lookup run.key = some inst →
    ∀ f ∈ fires, f.tick ≤ inst.startedAtMs

theorem handled_init : Handled instants u Sched.init [] where
  owned := owned_init
  onTime := by rintro pc ⟨⟩
  inOrder := ⟨.nil, by rintro f ⟨⟩, by rintro f ⟨⟩⟩
  past := by rintro f ⟨⟩
  later := by rintro f ⟨⟩
  born := by rintro f ⟨⟩
  begun := by rintro run inst - - f ⟨⟩

variable {fires : List Fire}

theorem onTime_step (hc : c.UpcomingOf instants)
    (hg : clockForward s a = true ∧ sleepsFull s a = true)
    (h : ∀ pc, s.tasks u = some pc → pc.OnTime instants s.mem.now)
    (hs : (schedMachine c b).step s a = some s') :
    ∀ pc, s'.tasks u = some pc → pc.OnTime instants s'.mem.now := by
  intro p hp
  refine onTime_later ?_ (now_le hg.1 hs)
  cases step_becomes hs hp with
  | moved w hpc he =>
    refine onTime_next hc (h _ hpc) ?_ he
    rintro l tick deadline rfl
    have hfull := hg.2
    simp only [sleepsFull, hpc, decide_eq_true_eq] at hfull
    exact hfull
  | stayed ns hpc => exact onTime_notify (h _ hpc)
  | called call => cases call <;> trivial
  | looped | handed => trivial

/-- A fire that is handled is due, and no earlier one has the same tick or a later one. -/
theorem Handled.inOrder_step (h : Handled instants u s fires) :
    InOrder instants (fires ++ handles u s a) := by
  have hmem {Q : Fire → Prop} (hold : ∀ f ∈ fires, Q f)
      (hnew : ∀ l tick, s.tasks u = some (.loopWindow l tick) → Q ⟨l.expr, tick, s.mem.now⟩) :
      ∀ f ∈ fires ++ handles u s a, Q f := by
    intro f hf
    rcases List.mem_append.1 hf with hf | hf
    · exact hold f hf
    · obtain ⟨l, tick, w, -, hpc, rfl⟩ := mem_handles.1 hf
      exact hnew l tick hpc
  refine ⟨List.pairwise_append.2 ⟨h.inOrder.increasing, handles_pairwise, ?_⟩,
    hmem h.inOrder.scheduled fun l tick hpc => (h.onTime _ hpc).1,
    hmem h.inOrder.due fun l tick hpc => (h.onTime _ hpc).2⟩
  intro f hf f' hf'
  obtain ⟨l, tick, w, -, hpc, rfl⟩ := mem_handles.1 hf'
  exact h.later f hf _ hpc

theorem Handled.begun_step (h : Handled instants u s fires)
    (hs : (schedMachine c b).step s a = some s')
    (hpast : ∀ f ∈ fires ++ handles u s a, f.tick ≤ s.mem.now) {run : Run}
    {inst : RunningInstance} (hprog : s'.InProgress u run)
    (hinst : s'.mem.running.lookup run.key = some inst) :
    ∀ f ∈ fires ++ handles u s a, f.tick ≤ inst.startedAtMs := by
  obtain ⟨p, hp, hrun⟩ := hprog
  -- a run that was in progress before keeps its entry
  have hkeep (hprog : s.InProgress u run) : ∀ f ∈ fires, f.tick ≤ inst.startedAtMs := by
    obtain ⟨pc, hpc, hrun⟩ := hprog
    obtain ⟨inst', hinst', -⟩ := lookup_of_lease h.owned hpc hrun
    obtain rfl := lookup_running_act hs hinst' hinst
    exact h.begun run inst ⟨pc, hpc, hrun⟩ hinst'
  cases step_becomes hs hp with
  | @moved pc e w hpc he =>
    obtain ⟨pc', e', hpc', he', rfl⟩ := run_step hs
    obtain rfl : pc = pc' := Option.some.inj (hpc.symm.trans hpc')
    obtain rfl : e = e' := Option.some.inj (he.symm.trans he')
    have hdoes := step_does he
    rcases runOf_next hdoes hrun with hsame | hnone
    · intro f hf
      rcases List.mem_append.1 hf with hf | hf
      · exact hkeep ⟨pc, hpc, hsame⟩ f hf
      · obtain ⟨l, tick, w', -, hwin, -⟩ := mem_handles.1 hf
        rw [hpc] at hwin
        obtain rfl := Option.some.inj hwin
        cases hsame
    · obtain ⟨-, hnow⟩ := startedAt_of_begin hdoes hnone hrun
      rw [hnow inst hinst]
      exact hpast
  | stayed ns hpc ha =>
    rw [handles_eq_nil ha, List.append_nil]
    rw [runOf_notify] at hrun
    exact hkeep ⟨_, hpc, hrun⟩
  | called call => cases call <;> cases hrun
  | looped => cases hrun
  | handed w run' cancel d ht hu hpc =>
    have hstill : ∀ w', Act.run _ w ≠ .run u w' := fun w' hw => ht (Act.run.inj hw).1
    rw [handles_eq_nil hstill, List.append_nil]
    exact fun f hf => absurd (h.born f hf) hu.not_lt

/-- **One step** keeps the fires in order. -/
theorem handled_step (hc : c.UpcomingOf instants)
    (hg : clockForward s a = true ∧ sleepsFull s a = true) (h : Handled instants u s fires)
    (hs : (schedMachine c b).step s a = some s') :
    Handled instants u s' (fires ++ handles u s a) := by
  have hnow := now_le hg.1 hs
  have hpast : ∀ f ∈ fires ++ handles u s a, f.time ≤ s.mem.now := by
    intro f hf
    rcases List.mem_append.1 hf with hf | hf
    · exact h.past f hf
    · obtain ⟨l, tick, w, -, -, rfl⟩ := mem_handles.1 hf
      exact le_refl _
  have horder := h.inOrder_step (a := a)
  have htick : ∀ f ∈ fires ++ handles u s a, f.tick ≤ s.mem.now :=
    fun f hf => (horder.due f hf).trans (hpast f hf)
  refine ⟨owned_step h.owned hs, onTime_step hc hg h.onTime hs, horder,
    fun f hf => (hpast f hf).trans hnow, ?_, ?_, fun run inst => h.begun_step hs htick⟩
  · intro f hf
    rcases List.mem_append.1 hf with hold | hnew
    · exact later_step hc (htick f hf) (h.later f hold) hs
    · -- a fire that has just been handled is not waited for any more
      obtain ⟨l, tick, w, rfl, hpc, rfl⟩ := mem_handles.1 hnew
      obtain ⟨pc, e, hpc', he, rfl⟩ := run_step hs
      rw [hpc] at hpc'
      obtain rfl := Option.some.inj hpc'
      intro p hp
      rw [Pool.tasks_apply_self] at hp
      obtain rfl := Option.some.inj hp
      have hgoes := step_goes he
      generalize e.next = next at hgoes ⊢
      cases hgoes <;> trivial
  · intro f hf
    refine lt_of_lt_of_le ?_ (fresh_le hs)
    rcases List.mem_append.1 hf with hold | hnew
    · exact h.born f hold
    · obtain ⟨l, tick, w, -, hpc, -⟩ := mem_handles.1 hnew
      exact h.owned.tasksFresh u _ hpc

/-- What comes after `T` once the clock has reached it and no tick up to it is waited for. -/
theorem later_handles (hc : c.UpcomingOf instants) {as : List Act}
    (h : (schedMachine c b).Runs (fun s a => clockForward s a = true ∧ sleepsFull s a = true)
      s as s') (hT : T ≤ s.mem.now) (hlater : s.Later u T) :
    ∀ f ∈ (schedMachine c b).outputs (handles u) s as, T < f.tick := by
  have hall := h.outputs_invariant
    (I := fun s log => T ≤ s.mem.now ∧ s.Later u T ∧ ∀ f ∈ log, T < f.tick)
    (handles u) [] ⟨hT, hlater, by rintro f ⟨⟩⟩ ?_
  · exact hall.2.2
  · rintro s a s' log ⟨hT, hlater, hlog⟩ hg hs
    refine ⟨hT.trans (now_le hg.1 hs), later_step hc hT hlater hs, fun f hf => ?_⟩
    rcases List.mem_append.1 hf with hf | hf
    · exact hlog f hf
    · obtain ⟨l, tick, w, -, hpc, rfl⟩ := mem_handles.1 hf
      exact hlater _ hpc

theorem later_of_inProgress {run : Run} (h : s.InProgress u run) : s.Later u T := by
  obtain ⟨pc, hpc, hrun⟩ := h
  intro p hp
  rw [hpc] at hp
  obtain rfl := Option.some.inj hp
  cases pc <;> trivial

/-- A run in progress drops every tick from its beginning to now, in what its task has handled and
in what it will handle. -/
theorem drops_of_inProgress (hc : c.UpcomingOf instants) {as₁ as₂ : List Act} {s₁ : Sched}
    {run : Run}
    (h₁ : (schedMachine c b).Runs (fun s a => clockForward s a = true ∧ sleepsFull s a = true)
      Sched.init as₁ s₁)
    (h₂ : (schedMachine c b).Runs (fun s a => clockForward s a = true ∧ sleepsFull s a = true)
      s₁ as₂ s) (hprog : s₁.InProgress u run) :
    s₁.Drops run ((schedMachine c b).outputs (handles u) Sched.init (as₁ ++ as₂)) := by
  have hhandled : Handled instants u s₁ ((schedMachine c b).outputs (handles u) Sched.init as₁) :=
    h₁.outputs_invariant (handles u) [] handled_init
      fun s a s' log h hg hs => handled_step hc hg h hs
  have hprog' := hprog
  obtain ⟨pc, hpc, hrun⟩ := hprog'
  obtain ⟨inst, hinst, hcancel⟩ := lookup_of_lease hhandled.owned hpc hrun
  refine ⟨inst, hinst, hcancel, fun f hf => ?_⟩
  rw [h₁.outputs_append] at hf
  rcases List.mem_append.1 hf with hbefore | hafter
  · exact .inl (hhandled.begun run inst hprog hinst f hbefore)
  · exact .inr (later_handles hc h₂ (le_refl _) (later_of_inProgress hprog) f hafter)

/-- **The ticks of a loop.**  In every run in which the clock does not run backwards and no sleep
is short, the ticks that a task handles are strictly increasing instants of its schedule, each
handled when it is due or later, and none of them passes while a run of the task is in progress. -/
theorem ticks_in_order (hc : c.UpcomingOf instants) {as : List Act}
    (h : (schedMachine c b).Runs (fun s a => clockForward s a = true ∧ sleepsFull s a = true)
      Sched.init as s) (u : TaskId) :
    InOrder instants ((schedMachine c b).outputs (handles u) Sched.init as) ∧
      ∀ as₁ as₂ s₁ run, as = as₁ ++ as₂ → (schedMachine c b).run Sched.init as₁ = some s₁ →
        s₁.InProgress u run →
        s₁.Drops run ((schedMachine c b).outputs (handles u) Sched.init as) := by
  constructor
  · have hhandled : Handled instants u s ((schedMachine c b).outputs (handles u) Sched.init as) :=
      h.outputs_invariant (handles u) [] handled_init
        fun s a s' log h hg hs => handled_step hc hg h hs
    exact hhandled.inOrder
  · rintro as₁ as₂ s₁ run rfl hrun hprog
    obtain ⟨s₁', h₁, h₂⟩ := h.split
    rw [Machine.run_of_runs h₁] at hrun
    obtain rfl := Option.some.inj hrun
    exact drops_of_inProgress hc h₁ h₂ hprog

/-! ### A dispatch of two and a half seconds on a schedule of seconds -/

/-- A `cron` whose schedules all fire every second. -/
def everySecond : Crates :=
  { noCrates with
    cronFromStr := fun _ => .ok ()
    cronUpcoming := fun _ now => some ((now / 1000 + 1) * 1000) }

theorem upcomingOf_everySecond : everySecond.UpcomingOf fun _ => {x | 1000 ∣ x} := by
  intro expr now next
  have hleast : IsLeast {x : ℤ | 1000 ∣ x ∧ now < x} ((now / 1000 + 1) * 1000) := by
    refine ⟨⟨dvd_mul_left _ _, by omega⟩, ?_⟩
    rintro x ⟨⟨k, rfl⟩, hlt⟩
    omega
  constructor
  · intro h
    rw [← Option.some.inj h]
    exact hleast
  · intro h
    exact congrArg some (hleast.unique h)

/-- Register a cron job, let its loop sleep until 1000 and dispatch, and let 2500 ms pass. -/
def firstFire : List Act :=
  .call (.register hourlySpec) :: List.replicate 4 (.run 0 (demoWorld .timeout)) ++
    List.replicate 3 (.run 2 (demoWorld .timeout)) ++
    .clock 1000 :: List.replicate 6 (.run 2 (demoWorld (.exited (some 0)))) ++ [.clock 3500]

/-- The dispatch ends, and the loop sleeps and handles the next fire. -/
def secondFire : List Act :=
  List.replicate 8 (.run 2 (demoWorld .timeout)) ++
    .clock 4000 :: List.replicate 2 (.run 2 (demoWorld .timeout))

/-- The dispatch of the fire at 1000 is still in progress at 3500.  The next fire is the one at
4000. -/
theorem ticks_in_order_everySecond :
    let m := schedMachine everySecond demoBundle
    let fires := m.outputs (handles 2) Sched.init (firstFire ++ secondFire)
    fires.map (·.tick) = [1000, 4000] ∧ InOrder (fun _ => {x | 1000 ∣ x}) fires ∧
      ∃ s₁ run, m.run Sched.init firstFire = some s₁ ∧ s₁.mem.now = 3500 ∧
        s₁.InProgress 2 run ∧ s₁.Drops run fires := by
  intro m fires
  let g (s : Sched) (a : Act) : Bool := clockForward s a && sleepsFull s a
  let s₁ := (m.run Sched.init firstFire).getD Sched.init
  let s := (m.runIf g Sched.init (firstFire ++ secondFire)).getD Sched.init
  have hs₁ : m.run Sched.init firstFire = some s₁ := eq_some_getD (by decide)
  have hs : m.runIf g Sched.init (firstFire ++ secondFire) = some s := eq_some_getD (by decide)
  have hruns : m.Runs (fun s a => clockForward s a = true ∧ sleepsFull s a = true) Sched.init
      (firstFire ++ secondFire) s :=
    (Machine.runs_of_runIf hs).mono fun s a h => Bool.and_eq_true_iff.1 h
  obtain ⟨horder, hdrops⟩ := ticks_in_order upcomingOf_everySecond hruns 2
  have hprog : ((s₁.tasks 2).bind Pc.runOf).isSome = true := by decide
  obtain ⟨run, hrun⟩ := Option.isSome_iff_exists.1 hprog
  have hin : s₁.InProgress 2 run := Option.bind_eq_some_iff.1 hrun
  exact ⟨by decide, horder, s₁, run, hs₁, by decide, hin,
    hdrops firstFire secondFire s₁ run rfl hs₁ hin⟩

end CronManager

import CronManager.Scheduler.Ownership

/-!
# Whether a stop is heard

`Scheduler::stop` calls `notify_waiters` on the cancel handle of the running instance and returns
`Ok(true)`.  The call wakes a dispatch that is in one of its three listening selects; everywhere
else it leaves no trace, and the dispatch goes on to its next phase as if nothing had happened.

A stop takes effect when its instance is where the signal reaches it (`stopHeard`: in a listening
select, or with no phase left to begin), and when no other branch of the notified select is ready
before the select is polled, since `select!` may take that one, or the attempt is the last
(`selectYields`).  Both are about the stopped instance alone.

* `past_step`, `notified_step` : what one step of such a dispatch can do;
* `cancels_of_notified` : a notified select whose other branches are not ready takes its cancel
  branch;
* `stop_not_lost` : a stop that meets the two conditions is not lost, however the run goes on;
* `stop_lost_while_spawning` : a stop that arrives while the child is being spawned is lost.
-/

namespace CronManager

namespace Dispatch

/-- In an attempt after which no other is made. -/
def inLastAttempt (d : Dispatch) : Bool :=
  d.phase.inAttempt && decide (d.spec.retry.maxAttempts ≤ d.attempt)

/-- The dispatch begins no further attempt, send, child wait or retry delay. -/
def isPast (d : Dispatch) : Bool :=
  match d.phase with
  | .offline | .done _ => true
  | .readingBody | .killing | .collecting | .recording => d.inLastAttempt
  | .starting | .preparing | .sending _ | .spawning | .waiting _ | .delaying _ => false

/-- Where the cancel branch of a select leads. -/
def afterCancel (d : Dispatch) : Option Phase :=
  match d.phase with
  | .sending _ => some .recording
  | .waiting _ => some .killing
  | .delaying _ => some (.done (delayAborted d.attempt))
  | _ => none

variable {c : Crates} {b : ExecutorBundle} {d d' : Dispatch}

theorem maxAttempts_le_of_inLastAttempt (hd : d.inLastAttempt = true) :
    d.spec.retry.maxAttempts ≤ d.attempt :=
  of_decide_eq_true (Bool.and_eq_true _ _ ▸ hd).2

theorem isPast_enter {p : Phase} (hd : d.inLastAttempt = true)
    (hp : p = .readingBody ∨ p = .killing ∨ p = .collecting ∨ p = .recording) :
    (d.enter p).isPast = true ∧ p.begins = false := by
  have hmax := maxAttempts_le_of_inLastAttempt hd
  rcases hp with rfl | rfl | rfl | rfl <;> simp [isPast, enter, inLastAttempt, hmax,
    Phase.inAttempt, Phase.begins]

theorem isPast_recordRow (hd : d.inLastAttempt = true) :
    (d.recordRow c b).isPast = true ∧ (d.recordRow c b).phase.begins = false := by
  have hmax := maxAttempts_le_of_inLastAttempt hd
  have hphase : (d.recordRow c b).phase = d.afterRecording c b := rfl
  cases hr : d.result c b with
  | ok r =>
    simp only [afterRecording, hr] at hphase
    simp only [isPast, hphase, Phase.begins, and_self]
  | error r =>
    simp only [afterRecording, hr] at hphase
    split_ifs at hphase with ht hlt
    · simp only [isPast, hphase, Phase.begins, and_self]
    · omega
    · simp only [isPast, hphase, Phase.begins, and_self]

theorem past_step (hd : d.isPast = true) (h : d.step c b = some d') :
    d'.isPast = true ∧ d'.phase.begins = false := by
  replace h := next_of_step h
  cases hp : d.phase with
  | offline =>
    simp only [next, hp, Option.some.injEq] at h
    subst h
    exact ⟨rfl, rfl⟩
  | recording =>
    simp only [isPast, hp] at hd
    simp only [next, hp, Option.some.injEq] at h
    subst h
    exact isPast_recordRow hd
  | readingBody | killing | collecting =>
    simp only [isPast, hp] at hd
    simp only [next, hp, Option.some.injEq] at h
    subst h
    exact isPast_enter hd (.inr (.inr (.inr rfl)))
  | done outcome => simp [next, hp] at h
  | starting | preparing | spawning | sending | waiting | delaying => simp [isPast, hp] at hd

/-- A select that does not take its cancel branch goes on within the attempt. -/
theorem notified_step (hn : d.phase.notified = true) (hcancel : d.takesCancel = false)
    (hd : d.inLastAttempt = true) (h : d.step c b = some d') :
    d'.isPast = true ∧ d'.phase.begins = false := by
  replace h := next_of_step h
  simp only [takesCancel, hn, Bool.true_and] at hcancel
  cases hp : d.phase with
  | sending n =>
    simp only [othersPending, hp, decide_eq_false_iff_not] at hcancel
    simp only [next, hp, afterSending] at h
    split at h
    · rename_i hsend
      exact absurd hsend hcancel
    all_goals
      obtain rfl := Option.some.inj h
      exact isPast_enter hd (by simp)
  | waiting n =>
    simp only [othersPending, hp, decide_eq_false_iff_not] at hcancel
    simp only [next, hp, afterWaiting] at h
    split at h
    · rename_i hwait
      exact absurd hwait hcancel
    all_goals
      obtain rfl := Option.some.inj h
      exact isPast_enter hd (by simp)
  | delaying n => simp [inLastAttempt, hp, Phase.inAttempt] at hd
  | _ => simp [Phase.notified, hp] at hn

/-- **A notified select whose other branches are not ready takes its cancel branch.** -/
theorem cancels_of_notified (hn : d.phase.notified = true) (hothers : d.othersPending = true) :
    ∃ d', d.step c b = some d' ∧ some d'.phase = d.afterCancel ∧ d.takesCancel = true := by
  have hcancel : d.takesCancel = true := by rw [takesCancel, hn, hothers]; rfl
  cases hp : d.phase with
  | sending n =>
    simp only [Phase.notified, hp] at hn
    simp only [othersPending, hp, decide_eq_true_eq] at hothers
    refine ⟨d.enter .recording, ?_, by simp [afterCancel, hp, enter], hcancel⟩
    simp [step, hangs, awaits, next, hp, afterSending, hothers, hn]
  | waiting n =>
    simp only [Phase.notified, hp] at hn
    simp only [othersPending, hp, decide_eq_true_eq] at hothers
    refine ⟨d.enter .killing, ?_, by simp [afterCancel, hp, enter], hcancel⟩
    simp [step, hangs, awaits, next, hp, afterWaiting, hothers, hn]
  | delaying n =>
    simp only [Phase.notified, hp] at hn
    simp only [othersPending, hp] at hothers
    refine ⟨d.enter (.done (delayAborted d.attempt)), ?_, by simp [afterCancel, hp, enter],
      hcancel⟩
    simp [step, hangs, awaits, next, hp, hothers, hn]
  | _ => simp [Phase.notified, hp] at hn

end Dispatch

variable (c : Crates) (b : ExecutorBundle)

/-- A run that has not reached its first await point begins no phase. -/
def neverStarts (run : Run) : Bool := b.offlineMode || run.spec.retry.maxAttempts == 0

/-- A notification of `n` reaches the task, if it is in the run that `n` belongs to. -/
def Pc.hears (n : NotifyId) : Pc → Bool
  | .fetch run | .spawnRun run _ => run.mine != n || neverStarts b run
  | .dispatching _ cancel d => cancel != n || d.phase.listening || d.isPast
  | _ => true

/-- A notification of `n` reaches every task that is in the run that `n` belongs to. -/
def stopHeard (n : NotifyId) (s : Sched) : Bool :=
  (List.range s.mem.fresh).all fun u => (s.tasks u).all (Pc.hears b n)

/-- As long as only `taken` cancel branches were taken on `n`, the other branches of a select that
was notified through `n` are not ready when it is polled, or its attempt is the last. -/
def selectYields (n : NotifyId) (taken : ℕ) (s : Sched) : Act → Bool
  | .run t _ => match s.tasks t with
    | some (.dispatching _ cancel d) =>
        cancel != n || s.mem.taken n != taken || !d.phase.notified || d.othersPending ||
          d.inLastAttempt
    | _ => true
  | _ => true

/-- After a notification of `n`: the task begins no phase before it has taken a cancel branch. -/
def Pc.Heard (n : NotifyId) : Pc → Prop
  | .fetch run | .spawnRun run _ => run.mine = n → neverStarts b run = true
  | .dispatching _ cancel d => cancel = n → d.phase.notified = true ∨ d.isPast = true
  | _ => True

/-- Since a notification of `n` at which `begun` phases had begun and `taken` cancel branches had
been taken: a cancel branch has been taken, or no phase has begun and none will. -/
def Sched.Heeds (n : NotifyId) (begun taken : ℕ) (s : Sched) : Prop :=
  taken < s.mem.taken n ∨
    (s.mem.begun n = begun ∧ s.mem.taken n = taken ∧ n < s.mem.fresh ∧
      ∀ u pc, s.tasks u = some pc → pc.Heard b n)

/-- The next step of this dispatch is the one of the cancel branch of its select. -/
def Sched.Cancels (s : Sched) (u : TaskId) (run : Run) (n : NotifyId) (d : Dispatch) : Prop :=
  ∀ w, ∃ s' d', (schedMachine c b).step s (.run u w) = some s' ∧
    s'.tasks u = some (.dispatching run n d') ∧ some d'.phase = d.afterCancel ∧
    s'.mem.taken n = s.mem.taken n + 1

variable {c b} {s s' : Sched} {t : TaskId} {pc : Pc} {w : DispatchWorld} {e : Effect Shared Pc}
  {n : NotifyId} {begun taken : ℕ}

theorem isPast_notify {d : Dispatch} : d.notify.isPast = d.isPast := by
  obtain ⟨spec, extras, world, attempt, phase, started, rows⟩ := d
  cases phase <;> rfl

theorem notified_notify {d : Dispatch} (h : d.phase.listening = true) :
    d.notify.phase.notified = true := by
  obtain ⟨spec, extras, world, attempt, phase, started, rows⟩ := d
  cases phase <;> first | rfl | cases h

theorem heard_notify {ns : List NotifyId} (h : pc.Heard b n) : (pc.notify ns).Heard b n := by
  cases pc with
  | dispatching run cancel d =>
    intro heq
    by_cases hmem : cancel ∈ ns
    · simp only [hmem, if_true]
      rcases h heq with hn | hpast
      · refine .inl (notified_notify ?_)
        cases hp : d.phase <;> rw [hp] at hn <;> first | rfl | cases hn
      · exact .inr (isPast_notify.trans hpast)
    · simpa only [hmem, if_false] using h heq
  | _ => exact h

theorem heard_of_hears (h : pc.hears b n = true) : (pc.notify [n]).Heard b n := by
  cases pc with
  | dispatching run cancel d =>
    rintro rfl
    simp only [List.mem_singleton, if_true]
    simp only [Pc.hears, bne_self_eq_false, Bool.false_or, Bool.or_eq_true] at h
    rcases h with hl | hpast
    · exact .inl (notified_notify hl)
    · exact .inr (isPast_notify.trans hpast)
  | fetch run | spawnRun run _ =>
    intro heq
    simpa only [Pc.hears, heq, bne_self_eq_false, Bool.false_or] using h
  | _ => trivial

theorem isPast_init {run : Run} (h : neverStarts b run = true) :
    (Dispatch.init b run.spec run.extras w).isPast = true := by
  simp only [neverStarts, Bool.or_eq_true, beq_iff_eq] at h
  cases hoff : b.offlineMode with
  | true => simp [Dispatch.init, Dispatch.isPast, hoff]
  | false =>
    have hmax : run.spec.retry.maxAttempts = 0 := by simpa [hoff] using h
    simp [Dispatch.init, Dispatch.isPast, hoff, hmax]

theorem heard_of_calm (h : pc.calm = true) : pc.Heard b n := by
  cases pc <;> trivial

theorem taken_le {m : Shared} (hdoes : Does c b m w pc e) : m.taken n ≤ e.mem.taken n := by
  cases hdoes with
  | quiet _ _ _ _ taken => exact (congrFun taken n).ge
  | begin schedule hrun hjob hloop hspec hbegin =>
    obtain ⟨-, -, rfl⟩ := Shared.beginRunning_eq_ok.1 hbegin
    exact le_refl _
  | fetch run => rw [Does.mem_fetchStep]
  | advance run cancel d d' =>
    simp only [move, Shared.advance, Function.update_apply]
    split_ifs with hn
    · rw [hn]
      exact Nat.le_add_right _ _
    · exact le_refl _
  | _ => exact le_refl _

theorem heard_advance {run : Run} {d d' : Dispatch}
    (hpc : s.tasks t = some (.dispatching run n d))
    (hg : selectYields n taken s (.run t w) = true) (htaken : s.mem.taken n = taken)
    (hheard : (Pc.dispatching run n d).Heard b n) (hd : d.step c b = some d') :
    d.takesCancel = true ∨
      (d.takesCancel = false ∧ d'.isPast = true ∧ d'.phase.begins = false) := by
  by_cases hcancel : d.takesCancel = true
  · exact .inl hcancel
  refine .inr ⟨by simpa using hcancel, ?_⟩
  rcases hheard rfl with hn | hpast
  · -- the notified select took another branch, in the last attempt
    have hothers : d.othersPending = false := by
      simpa [Dispatch.takesCancel, hn] using hcancel
    have hlast : d.inLastAttempt = true := by
      simpa [selectYields, hpc, htaken, hn, hothers] using hg
    exact Dispatch.notified_step hn (by simpa using hcancel) hlast hd
  · exact Dispatch.past_step hpast hd

/-- A step that neither begins a phase of the run nor takes a cancel branch of it. -/
theorem heeds_keep (hdoes : Does c b s.mem w pc e)
    (h : s.mem.begun n = begun ∧ s.mem.taken n = taken ∧ n < s.mem.fresh ∧
      ∀ u pc, s.tasks u = some pc → pc.Heard b n)
    (hbegun : e.mem.begun n = s.mem.begun n) (htaken : e.mem.taken n = s.mem.taken n)
    (hnext : e.next.Heard b n) (hspawn : ∀ v p, e.spawn = some (v, p) → p.Heard b n) :
    Sched.Heeds b n begun taken (s.apply t e) := by
  obtain ⟨hb, ht, hfresh, hheard⟩ := h
  refine .inr ⟨hbegun.trans hb, htaken.trans ht, hfresh.trans_le hdoes.fresh_le,
    Pool.forall_tasks_apply hnext hspawn fun u q hq => ?_⟩
  obtain ⟨ns, hns⟩ := hdoes.touch_eq
  rw [hns]
  exact heard_notify (hheard u q hq)

/-- **A step keeps a heard notification heard**, until a cancel branch is taken. -/
theorem heeds_apply (ho : Owned s) (hpc : s.tasks t = some pc) (hdoes : Does c b s.mem w pc e)
    (hg : selectYields n taken s (.run t w) = true) (h : s.Heeds b n begun taken) :
    Sched.Heeds b n begun taken (s.apply t e) := by
  rcases h with htaken | h
  · exact .inl (htaken.trans_le (taken_le hdoes))
  have hcur := h.2.2.2 t pc hpc
  have keep := heeds_keep (t := t) hdoes h
  have spawned {v p} := @Does.spawn_cases c b s.mem pc w e v p hdoes
  cases hdoes with
  | quiet _ _ _ hbegun htaken spawn _ _ _ _ calm =>
    exact keep (congrFun hbegun n) (congrFun htaken n) (heard_of_calm calm)
      (Does.of_spawn_eq_none spawn)
  | spawn spec todo reply =>
    refine keep rfl rfl trivial fun v p hv => ?_
    rcases spawned hv with ⟨spec, todo, reply, expr, -, -, -, -, rfl⟩ | ⟨run, cancel, hpc', -⟩
    · trivial
    · cases hpc'
  | begin schedule hrun hjob hloop hspec hbegin =>
    obtain ⟨-, hmine, rfl⟩ := Shared.beginRunning_eq_ok.1 hbegin
    -- a run that begins now has a `Notify` of its own
    refine keep rfl rfl (fun heq => ?_) (Does.of_spawn_eq_none rfl)
    exact absurd (heq.symm.trans hmine) (h.2.2.1.ne)
  | fetch run =>
    obtain ⟨inst, hinst, hmine⟩ := lookup_of_lease ho hpc rfl
    refine keep (by rw [Does.mem_fetchStep]) (by rw [Does.mem_fetchStep]) ?_
      (Does.of_spawn_eq_none Does.spawn_fetchStep)
    simp only [fetchStep, hinst]
    split
    · exact hcur
    · exact fun heq => .inr (isPast_init (hcur (hmine.symm.trans heq)))
  | handOver run cancel =>
    have hmine : cancel = run.mine := ho.faithful t _ hpc
    refine keep rfl rfl trivial fun v p hv => ?_
    cases hv
    exact fun heq => .inr (isPast_init (hcur (hmine.symm.trans heq)))
  | advance run cancel d d' hd =>
    by_cases hn : cancel = n
    · subst hn
      rcases heard_advance hpc hg h.2.1 hcur hd with hcancel | ⟨hcancel, hpast, hbegins⟩
      · left
        simp only [Pool.mem_apply, move, Shared.advance, Function.update_self, hcancel,
          Bool.toNat_true, h.2.1]
        exact Nat.lt_succ_self _
      · refine keep ?_ ?_ (fun _ => .inr hpast) (Does.of_spawn_eq_none rfl)
        · simp [move, Shared.advance, hbegins]
        · simp [move, Shared.advance, hcancel]
    · have hne : n ≠ cancel := Ne.symm hn
      refine keep ?_ ?_ (fun heq => absurd heq hn) (Does.of_spawn_eq_none rfl)
      · simp [move, Shared.advance, hne]
      · simp [move, Shared.advance, hne]
  | finish run =>
    refine keep rfl rfl ?_ (Does.of_spawn_eq_none rfl)
    simp only [move]
    cases run.origin <;> trivial
  | _ => exact keep rfl rfl trivial (Does.of_spawn_eq_none rfl)

theorem heeds_step {a : Act} (ho : Owned s) (hg : selectYields n taken s a = true)
    (hs : (schedMachine c b).step s a = some s') (h : s.Heeds b n begun taken) :
    s'.Heeds b n begun taken := by
  cases a with
  | call call =>
    obtain rfl := Option.some.inj hs
    refine h.imp id fun ⟨hb, ht, hfresh, hheard⟩ =>
      ⟨hb, ht, hfresh.trans (Nat.lt_succ_self _), fun u p hu => ?_⟩
    rcases Pool.tasks_add_cases hu with ⟨-, rfl⟩ | ⟨-, hq⟩
    · cases call <;> trivial
    · exact hheard u p hq
  | clock now =>
    obtain rfl := Option.some.inj hs
    exact h
  | run t w =>
    obtain ⟨pc, e, hpc, hdoes, rfl⟩ := run_does hs
    exact heeds_apply ho hpc hdoes hg h

theorem heeds_of_stop {key : JobKey} {inst : RunningInstance} (ho : Owned s)
    (hpc : s.tasks t = some (.stopSignal key)) (hinst : s.mem.running.lookup key = some inst)
    (hheard : stopHeard b inst.cancel s = true)
    (hs : (schedMachine c b).step s (.run t w) = some s') :
    s'.Heeds b inst.cancel (s.mem.begun inst.cancel) (s.mem.taken inst.cancel) := by
  have hfresh : inst.cancel < s.mem.fresh :=
    ho.slotsFresh key inst.cancel (by rw [Shared.slots, hinst, Option.map_some])
  simp only [stopHeard, List.all_eq_true, List.mem_range] at hheard
  simp only [schedMachine, hpc, Option.bind_some, Pc.step, hinst, Option.map_some,
    Option.some.injEq] at hs
  subst hs
  refine .inr ⟨rfl, rfl, hfresh, Pool.forall_tasks_apply trivial
    (Does.of_spawn_eq_none rfl) fun u q hq => ?_⟩
  have hhears := hheard u (ho.tasksFresh u q hq)
  rw [hq, Option.all_some] at hhears
  exact heard_of_hears hhears

/-- The reply `Ok(true)` of a stop means that it found a running instance. -/
theorem lookup_of_stopped {key : JobKey} (hpc : s.tasks t = some (.stopSignal key))
    (hs : (schedMachine c b).step s (.run t w) = some s')
    (hreply : s'.tasks t = some (.returned (.stopped (.ok true)))) :
    ∃ inst, s.mem.running.lookup key = some inst := by
  cases hinst : s.mem.running.lookup key with
  | some inst => exact ⟨inst, rfl⟩
  | none =>
    simp only [schedMachine, hpc, Option.bind_some, Pc.step, hinst, Option.map_some,
      Option.some.injEq] at hs
    subst hs
    rw [Pool.tasks_apply_self] at hreply
    cases hreply

/-- The step of a dispatch in a notified select whose other branches are not ready. -/
theorem cancels_of_heard {run : Run} {d : Dispatch}
    (hpc : s.tasks t = some (.dispatching run n d)) (hn : d.phase.notified = true)
    (hothers : d.othersPending = true) : s.Cancels c b t run n d := by
  intro w
  obtain ⟨d', hd, hphase, hcancel⟩ := Dispatch.cancels_of_notified (c := c) (b := b) hn hothers
  have he : (Pc.dispatching run n d).step c b s.mem w =
      some (move (s.mem.advance n d d') (.dispatching run n d')) := by
    simp only [Pc.step, dispatchStep]
    split
    · rename_i outcome hdone
      rw [hdone] at hn
      cases hn
    · rw [hd, Option.map_some]
  refine ⟨_, d', by simp only [schedMachine, hpc, Option.bind_some, he, Option.map_some]; rfl,
    Pool.tasks_apply_self, hphase, ?_⟩
  simp only [Pool.mem_apply, move, Shared.advance, Function.update_self, hcancel, Bool.toNat_true]

/-- **No lost stop.**  When `stop(key)` returns `Ok(true)` it has found a running instance.  If its
signal reaches the dispatch of that instance, then in every run in which the selects of that
dispatch yield to it: a dispatch that begins another phase has taken a cancel branch first, and
until then it is past its last phase or in a notified select, which takes its cancel branch as soon
as no other branch is ready. -/
theorem stop_not_lost {s₁ s₂ : Sched} {key : JobKey}
    (h₁ : (schedMachine c b).Reaches Sched.init s₁)
    (hpc : s₁.tasks t = some (.stopSignal key))
    (hs : (schedMachine c b).step s₁ (.run t w) = some s₂)
    (hreply : s₂.tasks t = some (.returned (.stopped (.ok true)))) :
    ∃ inst, s₁.mem.running.lookup key = some inst ∧
      (stopHeard b inst.cancel s₁ = true → ∀ as s₃, (schedMachine c b).Runs
          (fun s a => selectYields inst.cancel (s₁.mem.taken inst.cancel) s a = true) s₂ as s₃ →
        (s₁.mem.begun inst.cancel < s₃.mem.begun inst.cancel →
          s₁.mem.taken inst.cancel < s₃.mem.taken inst.cancel) ∧
        (s₃.mem.taken inst.cancel = s₁.mem.taken inst.cancel →
          ∀ u run d, s₃.tasks u = some (.dispatching run inst.cancel d) →
            d.isPast = true ∨
              d.phase.notified = true ∧
                (d.othersPending = true → s₃.Cancels c b u run inst.cancel d))) := by
  obtain ⟨inst, hinst⟩ := lookup_of_stopped hpc hs hreply
  refine ⟨inst, hinst, fun hheard as s₃ h₂ => ?_⟩
  have ho₁ := owned_reaches h₁
  have hheeds := heeds_of_stop ho₁ hpc hinst hheard hs
  have hend := h₂.invariant (I := fun s => Owned s ∧ s.Heeds b inst.cancel
      (s₁.mem.begun inst.cancel) (s₁.mem.taken inst.cancel)) ⟨owned_step ho₁ hs, hheeds⟩
    fun s a s' ⟨ho, hh⟩ hga hsa => ⟨owned_step ho hsa, heeds_step ho hga hsa hh⟩
  refine ⟨fun hbegun => ?_, fun hsame u run d hu => ?_⟩
  · rcases hend.2 with htaken | ⟨hsame, -⟩
    · exact htaken
    · exact absurd hbegun (by omega)
  · rcases hend.2 with htaken | ⟨-, -, -, hall⟩
    · exact absurd htaken (by omega)
    · exact (hall u _ hu rfl).symm.imp_right fun hn => ⟨hn, cancels_of_heard hu hn⟩

/-! ### A stop that is heard, and one that is lost -/

/-- The scheduler of the demo runs. -/
abbrev demoSched : Machine Sched Act := schedMachine noCrates demoBundle

/-- Steps of task `t`, in the world in which the first child's wait ends as `first` says. -/
def demoSteps (first : WaitEnd) (t : TaskId) (k : ℕ) : List Act :=
  List.replicate k (.run t (demoWorld first))

/-- Trigger `demoSpec`, let its dispatch take `k` steps, and call `stop`, up to its signal. -/
def demoStop (first : WaitEnd) (k : ℕ) : List Act :=
  demoTriggered (demoWorld first) ++ demoSteps first 5 k ++
    .call (.stop demoSpec.key) :: demoSteps first 6 1

/-- A stop while the dispatch waits for its child: the child is killed before the retry delay
begins. -/
theorem stop_not_lost_waiting :
    ∃ (s₁ s₂ s₃ : Sched) (inst : RunningInstance), demoSched.Reaches Sched.init s₁ ∧
      demoSched.step s₁ (.run 6 (demoWorld .cancelled)) = some s₂ ∧
      s₂.tasks 6 = some (.returned (.stopped (.ok true))) ∧ demoSched.Reaches s₂ s₃ ∧
      s₁.mem.running.lookup demoSpec.key = some inst ∧
      s₁.mem.begun inst.cancel < s₃.mem.begun inst.cancel ∧
      s₁.mem.taken inst.cancel < s₃.mem.taken inst.cancel := by
  let g := selectYields 4 0
  let s₁ := (demoSched.run Sched.init (demoStop .cancelled 2)).getD Sched.init
  let s₂ := (demoSched.step s₁ (.run 6 (demoWorld .cancelled))).getD Sched.init
  let s₃ := (demoSched.runIf g s₂ (demoSteps .cancelled 5 3)).getD Sched.init
  have h₁ : demoSched.run Sched.init (demoStop .cancelled 2) = some s₁ :=
    eq_some_getD (by decide)
  have h₂ : demoSched.step s₁ (.run 6 (demoWorld .cancelled)) = some s₂ :=
    eq_some_getD (by decide)
  have h₃ : demoSched.runIf g s₂ (demoSteps .cancelled 5 3) = some s₃ :=
    eq_some_getD (by decide)
  have hreach := Machine.reaches_of_run h₁
  obtain ⟨inst, hinst, hkept⟩ :=
    stop_not_lost (c := noCrates) (b := demoBundle) (t := 6) hreach rfl h₂ rfl
  have hcancel : inst.cancel = 4 := by
    have : (s₁.mem.running.lookup demoSpec.key).map (·.cancel) = some 4 := by decide
    rw [hinst] at this
    exact Option.some.inj this
  rw [hcancel] at hkept
  have hbegun : s₁.mem.begun 4 < s₃.mem.begun 4 := by decide
  have htaken := (hkept (by decide) _ s₃ (Machine.runs_of_runIf h₃)).1 hbegun
  refine ⟨s₁, s₂, s₃, inst, hreach, h₂, rfl, (Machine.runs_of_runIf h₃).reaches, hinst, ?_⟩
  rw [hcancel]
  exact ⟨hbegun, htaken⟩

/-- A stop that arrives while the child is being spawned returns `Ok(true)`, and the dispatch
goes on to wait for the child. -/
theorem stop_lost_while_spawning :
    ¬ ∀ c b s₁ s₂ s₃ t w key, (schedMachine c b).Reaches Sched.init s₁ →
      s₁.tasks t = some (.stopSignal key) → (schedMachine c b).step s₁ (.run t w) = some s₂ →
      s₂.tasks t = some (.returned (.stopped (.ok true))) → (schedMachine c b).Reaches s₂ s₃ →
      ∃ inst, s₁.mem.running.lookup key = some inst ∧
        (s₁.mem.begun inst.cancel < s₃.mem.begun inst.cancel →
          s₁.mem.taken inst.cancel < s₃.mem.taken inst.cancel) := by
  intro h
  let s₁ := (demoSched.run Sched.init (demoStop .timeout 1)).getD Sched.init
  let s₂ := (demoSched.step s₁ (.run 6 (demoWorld .timeout))).getD Sched.init
  let s₃ := (demoSched.run s₂ (demoSteps .timeout 5 1)).getD Sched.init
  have h₁ : demoSched.run Sched.init (demoStop .timeout 1) = some s₁ := eq_some_getD (by decide)
  have h₂ : demoSched.step s₁ (.run 6 (demoWorld .timeout)) = some s₂ := eq_some_getD (by decide)
  have h₃ : demoSched.run s₂ (demoSteps .timeout 5 1) = some s₃ := eq_some_getD (by decide)
  obtain ⟨inst, hinst, hlost⟩ := h noCrates demoBundle s₁ s₂ s₃ 6 _ demoSpec.key
    (Machine.reaches_of_run h₁) rfl h₂ rfl (Machine.reaches_of_run h₃)
  have hcancel : inst.cancel = 4 := by
    have : (s₁.mem.running.lookup demoSpec.key).map (·.cancel) = some 4 := by decide
    rw [hinst] at this
    exact Option.some.inj this
  rw [hcancel] at hlost
  exact absurd (hlost (by decide)) (by decide)

end CronManager

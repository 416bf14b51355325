import CronManager.Lease
import CronManager.Scheduler.Step

/-!
# Who owns an entry of `running`

`begin_running` inserts the entry of a run, a second lock acquisition looks the cancel handle up
again, and a third removes the entry when the dispatch has completed.  The entries of `running`
are leases of the runs: a run acquires the slot of its key when it begins, `trigger_now` hands it
to the dispatch task it spawns, and the task releases it.  No step of another task touches it,
also not `reload_from`, which clears `jobs` only.

* `owned_reaches` : in every reachable state the entries of `running` are exactly the leases of
  the runs in progress, one for each key;
* `running_exclusive` : hence one dispatch at most is in progress for a key, a completing
  dispatch removes its own entry, and the lookups of the cancel handle never fail.
-/

namespace CronManager

open Rust

/-- The leases in the table `running`. -/
def Shared.slots (m : Shared) (k : JobKey) : Option NotifyId :=
  (m.running.lookup k).map (·.cancel)

/-- The lease a task holds. -/
def Pc.lease (pc : Pc) : Option (JobKey × NotifyId) := pc.runOf.map fun r => (r.key, r.mine)

/-- The leases the tasks hold. -/
def Sched.held (s : Sched) (t : TaskId) : Option (JobKey × NotifyId) := (s.tasks t).bind Pc.lease

/-- The cancel handle a task works with is that of its own run, and it has not panicked. -/
def Pc.Faithful : Pc → Prop
  | .spawnRun run cancel | .dispatching run cancel _ => cancel = run.mine
  | .panicked => False
  | _ => True

/-- Leases and holders agree, all identities in use were handed out, and every task works with
its own cancel handle. -/
structure Owned (s : Sched) : Prop where
  tasksFresh : s.TasksFresh
  slotsFresh : ∀ k n, s.mem.slots k = some n → n < s.mem.fresh
  exclusive : Exclusive s.mem.slots s.held
  faithful : ∀ u p, s.tasks u = some p → p.Faithful

variable {c : Crates} {b : ExecutorBundle} {s s' : Sched} {t : TaskId} {pc : Pc}
  {w : DispatchWorld} {e : Effect Shared Pc}

theorem lease_notify {ns : List NotifyId} : (pc.notify ns).lease = pc.lease := by
  simp [Pc.lease]

theorem faithful_of_calm (h : pc.calm = true) : pc.Faithful := by
  cases pc <;> trivial

theorem faithful_notify {ns : List NotifyId} (h : pc.Faithful) : (pc.notify ns).Faithful := by
  cases pc <;> exact h

theorem held_eq (hpc : s.tasks t = some pc) : s.held t = pc.lease := by
  rw [Sched.held, hpc, Option.bind_some]

/-! ### The leases after a step -/

theorem held_apply_at (htouch : ∃ ns, e.touch = Pc.notify ns) (u : TaskId) :
    Sched.held (s.apply t e) u =
      if u = t then e.next.lease
      else match e.spawn with
        | some (v, p) => if u = v then p.lease else s.held u
        | none => s.held u := by
  obtain ⟨ns, hns⟩ := htouch
  have hlease (p : Pc) : (e.touch p).lease = p.lease := by rw [hns, lease_notify]
  have hview := @Pool.bind_tasks_apply Shared Pc (JobKey × NotifyId) s t u e Pc.lease hlease
  cases hspawn : e.spawn with
  | none =>
    rw [hspawn] at hview
    exact hview
  | some vp =>
    rw [hspawn] at hview
    exact hview

theorem held_apply (htouch : ∃ ns, e.touch = Pc.notify ns) (hspawn : e.spawn = none) :
    Sched.held (s.apply t e) = Function.update s.held t e.next.lease := by
  funext u
  rw [held_apply_at htouch, hspawn, Function.update_apply]

theorem held_apply_spawn {v : TaskId} {p : Pc} (htouch : ∃ ns, e.touch = Pc.notify ns)
    (hspawn : e.spawn = some (v, p)) (hv : v ≠ t) :
    Sched.held (s.apply t e) =
      Function.update (Function.update s.held t e.next.lease) v p.lease := by
  funext u
  rw [held_apply_at htouch, hspawn, Function.update_apply, Function.update_apply]
  by_cases hut : u = t
  · subst hut
    simp [Ne.symm hv]
  · simp [hut]

theorem exclusive_keep (h : Owned s) (hpc : s.tasks t = some pc) (hdoes : Does c b s.mem w pc e)
    (hslots : e.mem.slots = s.mem.slots) (hnext : e.next.lease = pc.lease)
    (hspawn : ∀ v p, e.spawn = some (v, p) → p.lease = none) :
    Exclusive (s.apply t e).mem.slots (Sched.held (s.apply t e)) := by
  have hsame : Function.update s.held t e.next.lease = s.held := by
    rw [hnext, ← held_eq hpc, Function.update_eq_self]
  rw [Pool.mem_apply, hslots]
  cases hsp : e.spawn with
  | none =>
    rw [held_apply hdoes.touch_eq hsp, hsame]
    exact h.exclusive
  | some vp =>
    obtain ⟨v, p⟩ := vp
    have hnew : s.tasks v = none := tasks_spawn_eq_none h.tasksFresh hdoes hsp
    have hvt : v ≠ t := by
      rintro rfl
      rw [hpc] at hnew
      cases hnew
    have hheld : s.held v = p.lease := by rw [hspawn v p hsp, Sched.held, hnew, Option.bind_none]
    rw [held_apply_spawn hdoes.touch_eq hsp hvt, hsame, ← hheld, Function.update_eq_self]
    exact h.exclusive

theorem lookup_of_lease (h : Owned s) (hpc : s.tasks t = some pc) {run : Run}
    (hrun : pc.runOf = some run) :
    ∃ inst, s.mem.running.lookup run.key = some inst ∧ inst.cancel = run.mine := by
  have hheld : s.held t = some (run.key, run.mine) := by
    rw [held_eq hpc, Pc.lease, hrun, Option.map_some]
  exact Option.map_eq_some_iff.1 (h.exclusive.slot_of_held hheld)

theorem fetchStep_next {m : Shared} {run : Run} {inst : RunningInstance}
    (hinst : m.running.lookup run.key = some inst) :
    (fetchStep b m run w).next = .spawnRun run inst.cancel ∨
      ∃ d, (fetchStep b m run w).next = .dispatching run inst.cancel d := by
  cases horigin : run.origin with
  | manual => exact .inl (by simp only [fetchStep, hinst, horigin, move])
  | cron l =>
    exact .inr ⟨.init b run.spec run.extras w, by simp only [fetchStep, hinst, horigin, move]⟩

theorem slots_begin {m m' : Shared} {key : JobKey} {schedule : String} {n : NotifyId}
    (h : m.beginRunning key schedule = .ok (m', n)) :
    m.slots key = none ∧ n = m.fresh ∧ m'.slots = Function.update m.slots key (some n) := by
  obtain ⟨hnone, rfl, rfl⟩ := Shared.beginRunning_eq_ok.1 h
  refine ⟨by rw [Shared.slots, hnone, Option.map_none], rfl, ?_⟩
  funext k
  simp only [Shared.slots, HashMap.lookup_insert_eq, Function.update_apply]
  split_ifs <;> rfl

theorem slots_removeRunning {m : Shared} {key : JobKey} :
    (m.removeRunning key).slots = Function.update m.slots key none := by
  funext k
  simp only [Shared.slots, Shared.removeRunning, HashMap.lookup_erase_eq, Function.update_apply]
  split_ifs <;> rfl

theorem slots_congr {m m' : Shared} (h : m'.running = m.running) : m'.slots = m.slots := by
  funext k
  rw [Shared.slots, Shared.slots, h]

theorem exclusive_step (h : Owned s) (hpc : s.tasks t = some pc)
    (hdoes : Does c b s.mem w pc e) :
    Exclusive (s.apply t e).mem.slots (Sched.held (s.apply t e)) := by
  have keep := exclusive_keep h hpc hdoes
  have spawned {v p} := @Does.spawn_cases c b s.mem pc w e v p hdoes
  cases hdoes with
  | quiet jobs running fresh begun taken spawn run =>
    refine keep (slots_congr running) ?_ (Does.of_spawn_eq_none spawn)
    rw [Pc.lease, Pc.lease, run]
  | spawn spec todo reply =>
    refine keep rfl rfl fun v p hv => ?_
    rcases spawned hv with ⟨spec, todo, reply, expr, -, -, -, -, rfl⟩ | ⟨run, cancel, hpc', -⟩
    · rfl
    · cases hpc'
  | begin schedule hrun hjob hloop hspec hbegin =>
    -- the run acquires the free slot of its key
    obtain ⟨hfree, -, hslots⟩ := slots_begin hbegin
    have hnone : s.held t = none := by rw [held_eq hpc, Pc.lease, hrun, Option.map_none]
    rw [held_apply ⟨[], notify_nil.symm⟩ rfl, Pool.mem_apply, move, hslots]
    exact h.exclusive.acquire hnone hfree
  | fetch run =>
    -- the lookup cannot fail: the task holds the lease of its key
    obtain ⟨inst, hinst, -⟩ := lookup_of_lease h hpc rfl
    refine keep (slots_congr (by rw [Does.mem_fetchStep])) ?_
      (Does.of_spawn_eq_none Does.spawn_fetchStep)
    rcases fetchStep_next (b := b) (w := w) hinst with hnext | ⟨d, hnext⟩ <;> rw [hnext] <;> rfl
  | handOver run cancel =>
    -- `trigger_now` hands its lease to the dispatch task
    have hnew : s.tasks s.mem.fresh = none := tasks_spawn_eq_none h.tasksFresh
      (.handOver (c := c) (b := b) (w := w) run cancel) rfl
    have hvt : s.mem.fresh ≠ t := by
      intro heq
      rw [heq, hpc] at hnew
      cases hnew
    have hfree : s.held s.mem.fresh = none := by rw [Sched.held, hnew, Option.bind_none]
    rw [held_apply_spawn ⟨[], notify_nil.symm⟩ rfl hvt, Pool.mem_apply]
    exact h.exclusive.transfer (held_eq hpc) hfree
  | finish run =>
    -- the entry that the removal finds under the key is the task's own lease
    rw [held_apply ⟨[], notify_nil.symm⟩ rfl, Pool.mem_apply, move, slots_removeRunning]
    have hnext : run.origin.afterRun.lease = none := by cases run.origin <;> rfl
    rw [hnext]
    exact h.exclusive.release (held_eq hpc)
  | _ => exact keep rfl rfl (Does.of_spawn_eq_none rfl)

/-- What a step can do to the leases: nothing, fill a free slot with a new identity, or empty a
slot. -/
theorem Does.slots_cases {m : Shared} (h : Does c b m w pc e) :
    e.mem.slots = m.slots ∨
      (∃ key, e.mem.slots = Function.update m.slots key (some m.fresh) ∧
        m.fresh < e.mem.fresh) ∨
      ∃ key, e.mem.slots = Function.update m.slots key none := by
  cases h with
  | quiet jobs running => exact .inl (slots_congr running)
  | begin schedule hrun hjob hloop hspec hbegin =>
    obtain ⟨-, hn, hslots⟩ := slots_begin hbegin
    obtain ⟨-, -, rfl⟩ := Shared.beginRunning_eq_ok.1 hbegin
    exact .inr (.inl ⟨_, hn ▸ hslots, Nat.lt_succ_self _⟩)
  | fetch run => exact .inl (slots_congr (by rw [Does.mem_fetchStep]))
  | finish run => exact .inr (.inr ⟨run.key, slots_removeRunning⟩)
  | _ => exact .inl rfl

theorem slotsFresh_step (h : Owned s) (hdoes : Does c b s.mem w pc e) :
    ∀ k n, e.mem.slots k = some n → n < e.mem.fresh := by
  intro k n hk
  rcases hdoes.slots_cases with hsame | ⟨key, hnew, hlt⟩ | ⟨key, hgone⟩
  · rw [hsame] at hk
    exact (h.slotsFresh k n hk).trans_le hdoes.fresh_le
  · rw [hnew, Function.update_apply] at hk
    split_ifs at hk
    · cases hk
      exact hlt
    · exact (h.slotsFresh k n hk).trans hlt
  · rw [hgone, Function.update_apply] at hk
    split_ifs at hk
    exact (h.slotsFresh k n hk).trans_le hdoes.fresh_le

theorem faithful_step (h : Owned s) (hpc : s.tasks t = some pc)
    (hdoes : Does c b s.mem w pc e) :
    ∀ u p, (s.apply t e).tasks u = some p → p.Faithful := by
  have hnext : e.next.Faithful := by
    cases hdoes with
    | quiet _ _ _ _ _ _ _ _ _ _ calm => exact faithful_of_calm calm
    | fetch run =>
      obtain ⟨inst, hinst, hmine⟩ := lookup_of_lease h hpc rfl
      rcases fetchStep_next (b := b) (w := w) hinst with hnext | ⟨d, hnext⟩ <;> rw [hnext]
      · exact hmine
      · exact hmine
    | advance run cancel d d' =>
      have hmine : cancel = run.mine := h.faithful t _ hpc
      exact hmine
    | finish run => simp only [move]; cases run.origin <;> trivial
    | _ => trivial
  refine Pool.forall_tasks_apply hnext ?_ ?_
  · intro v p hv
    rcases hdoes.spawn_cases hv with ⟨spec, todo, reply, expr, -, -, -, -, rfl⟩ |
      ⟨run, cancel, rfl, -, -, rfl⟩
    · trivial
    · have hmine : cancel = run.mine := h.faithful t _ hpc
      exact hmine
  · intro u q hq
    obtain ⟨ns, hns⟩ := hdoes.touch_eq
    rw [hns]
    exact faithful_notify (h.faithful u q hq)

theorem owned_init : Owned Sched.init where
  tasksFresh := by rintro u p ⟨⟩
  slotsFresh := by rintro k n ⟨⟩
  exclusive := Exclusive.empty
  faithful := by rintro u p ⟨⟩

theorem owned_step {a : Act} (h : Owned s) (hs : (schedMachine c b).step s a = some s') :
    Owned s' := by
  cases a with
  | call call =>
    obtain rfl := Option.some.inj hs
    have hlease : call.entry.lease = none := by cases call <;> rfl
    have hheld : Sched.held (s.add s.mem.alloc s.mem.fresh call.entry) = s.held :=
      funext fun u => Pool.bind_tasks_add hlease (tasks_fresh_eq_none h.tasksFresh)
    refine ⟨tasksFresh_call h.tasksFresh _, ?_, ?_, ?_⟩
    · intro k n hk
      exact (h.slotsFresh k n hk).trans (Nat.lt_succ_self _)
    · rw [hheld]
      exact h.exclusive
    · intro u p hu
      rcases Pool.tasks_add_cases hu with ⟨-, rfl⟩ | ⟨-, hq⟩
      · cases call <;> trivial
      · exact h.faithful u p hq
  | run t w =>
    obtain ⟨pc, e, hpc, hdoes, rfl⟩ := run_does hs
    exact ⟨tasksFresh_apply h.tasksFresh hpc hdoes, slotsFresh_step h hdoes,
      exclusive_step h hpc hdoes, faithful_step h hpc hdoes⟩
  | clock now =>
    obtain rfl := Option.some.inj hs
    exact ⟨h.tasksFresh, h.slotsFresh, h.exclusive, h.faithful⟩

/-- **In every reachable state the entries of `running` are the leases of the runs.** -/
theorem owned_reaches (h : (schedMachine c b).Reaches Sched.init s) : Owned s :=
  h.invariant owned_init fun _ _ _ => owned_step

/-- Task `t` is in run `r`: after its `begin_running` and before the removal of its entry. -/
def Sched.InProgress (s : Sched) (t : TaskId) (r : Run) : Prop :=
  ∃ pc, s.tasks t = some pc ∧ pc.runOf = some r

theorem held_of_inProgress {r : Run} (h : s.InProgress t r) : s.held t = some (r.key, r.mine) := by
  obtain ⟨pc, hpc, hrun⟩ := h
  rw [held_eq hpc, Pc.lease, hrun, Option.map_some]

theorem inProgress_of_held {k : JobKey} {n : NotifyId} (h : s.held t = some (k, n)) :
    ∃ r, s.InProgress t r ∧ r.key = k ∧ r.mine = n := by
  obtain ⟨pc, hpc, hlease⟩ := Option.bind_eq_some_iff.1 h
  obtain ⟨r, hrun, hr⟩ := Option.map_eq_some_iff.1 hlease
  obtain ⟨rfl, rfl⟩ := Prod.mk.inj hr
  exact ⟨r, ⟨pc, hpc, hrun⟩, rfl, rfl⟩

/-- **Running instances are exclusive.**  In every reachable state: at most one dispatch of a key
is in progress; a key is in `running` exactly while one is; a completing dispatch removes the
entry that its own `begin_running` inserted, and only that; and no `expect("just inserted")` has
failed. -/
theorem running_exclusive (h : (schedMachine c b).Reaches Sched.init s) :
    (∀ t u r r', s.InProgress t r → s.InProgress u r' → r.key = r'.key → t = u) ∧
      (∀ k, k ∈ s.mem.running ↔ ∃ t r, s.InProgress t r ∧ r.key = k) ∧
      (∀ t r w s', s.tasks t = some (.finish r) →
        (schedMachine c b).step s (.run t w) = some s' →
          (∃ inst, s.mem.running.lookup r.key = some inst ∧ inst.cancel = r.mine) ∧
            s'.mem.running = s.mem.running.erase r.key) ∧
      ∀ t, s.tasks t ≠ some .panicked := by
  have ho := owned_reaches h
  refine ⟨?_, ?_, ?_, ?_⟩
  · intro t u r r' hr hr' hkey
    have hu := held_of_inProgress hr'
    rw [← hkey] at hu
    exact ho.exclusive.unique (held_of_inProgress hr) hu
  · intro k
    constructor
    · intro hk
      obtain ⟨inst, hinst⟩ := Option.isSome_iff_exists.1 (AList.lookup_isSome.2 hk)
      have hslot : s.mem.slots k = some inst.cancel := by rw [Shared.slots, hinst, Option.map_some]
      obtain ⟨t, ht⟩ := ho.exclusive.held_of_slot hslot
      obtain ⟨r, hr, hkey, -⟩ := inProgress_of_held ht
      exact ⟨t, r, hr, hkey⟩
    · rintro ⟨t, r, ⟨pc, hpc, hrun⟩, rfl⟩
      obtain ⟨inst, hinst, -⟩ := lookup_of_lease ho hpc hrun
      exact AList.lookup_isSome.1 (Option.isSome_iff_exists.2 ⟨inst, hinst⟩)
  · intro t r w s' ht hs
    refine ⟨lookup_of_lease ho ht rfl, ?_⟩
    simp only [schedMachine, ht, Option.bind_some, Pc.step, Option.map_some,
      Option.some.injEq] at hs
    rw [← hs]
    rfl
  · intro t ht
    exact ho.faithful t _ ht

/-- Register `demoSpec` and trigger it, up to the spawned dispatch. -/
def demoTriggered (w : DispatchWorld) : List Act :=
  .call (.register demoSpec) :: List.replicate 4 (.run 0 w) ++
    .call (.triggerNow demoSpec.key noExtras) :: List.replicate 4 (.run 3 w)

theorem running_exclusive_triggered :
    ∃ s, (schedMachine noCrates demoBundle).run Sched.init
        (demoTriggered (demoWorld .timeout)) = some s ∧
      demoSpec.key ∈ s.mem.running ∧ ∃ t r, s.InProgress t r ∧ r.key = demoSpec.key := by
  have hrun : ((schedMachine noCrates demoBundle).run Sched.init
      (demoTriggered (demoWorld .timeout))).map
        (fun s => decide (demoSpec.key ∈ s.mem.running)) = some true := by decide
  obtain ⟨s, hs, hmem⟩ := Option.map_eq_some_iff.1 hrun
  have hkey : demoSpec.key ∈ s.mem.running := of_decide_eq_true hmem
  exact ⟨s, hs, hkey, ((running_exclusive (Machine.reaches_of_run hs)).2.1 _).1 hkey⟩

end CronManager

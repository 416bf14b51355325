import CronManager.Scheduler.Ownership

/-!
# The objects behind the entries of the maps

Every entry of the registry has a runtime state of its own and every running instance a `Notify`
of its own: `register` and `begin_running` create them, and no step hands one on.  The invariant
`Identified` says that the identities in use were handed out and that no two keys of `running`
share a `Notify`, so that a signal sent to one instance is not sent to another.
-/

namespace CronManager

open Rust

variable {c : Crates} {b : ExecutorBundle} {s s' : Sched} {t : TaskId} {pc : Pc}
  {w : DispatchWorld} {e : Effect Shared Pc}

/-- Identities of runtime states were handed out, and each `Notify` belongs to one key. -/
structure Identified (s : Sched) : Prop where
  owned : Owned s
  jobs : ∀ k job, s.mem.jobs.lookup k = some job → job.state < s.mem.fresh
  inserting : ∀ u p job, s.tasks u = some p → p.jobOf = some job → job.state < s.mem.fresh
  distinct : ∀ k k' n, s.mem.slots k = some n → s.mem.slots k' = some n → k = k'

namespace Does

theorem lookup_jobs {m : Shared} (h : Does c b m w pc e) {k : JobKey} {job : RegisteredJob}
    (hk : e.mem.jobs.lookup k = some job) :
    m.jobs.lookup k = some job ∨ (pc.jobOf = some job ∧ job.spec.key = k) := by
  cases h with
  | quiet jobs =>
    rw [jobs] at hk
    exact .inl hk
  | remove spec todo reply =>
    simp only [move, Shared.removeJob, HashMap.lookup_erase_eq] at hk
    split_ifs at hk
    exact .inl hk
  | insert job' todo reply =>
    simp only [move, Shared.insertJob, HashMap.lookup_insert_eq] at hk
    split_ifs at hk with hkey
    · obtain rfl := Option.some.inj hk
      exact .inr ⟨rfl, hkey.symm⟩
    · exact .inl hk
  | clear loaded => cases hk
  | begin schedule hrun hjob hloop hspec hbegin =>
    obtain ⟨-, -, rfl⟩ := Shared.beginRunning_eq_ok.1 hbegin
    exact .inl hk
  | fetch run =>
    rw [mem_fetchStep] at hk
    exact .inl hk
  | _ => exact .inl hk

/-- The entry that a task is about to insert has a state that was handed out. -/
theorem jobOf_next {m : Shared} (h : Does c b m w pc e) {job : RegisteredJob}
    (hjob : e.next.jobOf = some job) : job.state < e.mem.fresh := by
  cases h with
  | quiet _ _ _ _ _ _ _ _ job' =>
    rw [job'] at hjob
    cases hjob
  | spawn spec todo reply =>
    cases hjob
    exact Nat.lt_add_of_pos_right (by decide)
  | fetch run =>
    simp only [fetchStep] at hjob
    split at hjob
    · cases hjob
    · split at hjob <;> cases hjob
  | finish run =>
    cases horigin : run.origin <;> simp [move, horigin, Origin.afterRun, Pc.jobOf] at hjob
  | _ => cases hjob

theorem jobOf_spawn {m : Shared} (h : Does c b m w pc e) :
    ∀ v p, e.spawn = some (v, p) → p.jobOf = none := by
  intro v p hv
  rcases h.spawn_cases hv with ⟨spec, todo, reply, expr, -, -, -, -, rfl⟩ |
    ⟨run, cancel, -, -, -, rfl⟩
  · rfl
  · rfl

end Does

theorem distinct_step (h : Identified s) (hdoes : Does c b s.mem w pc e) :
    ∀ k k' n, e.mem.slots k = some n → e.mem.slots k' = some n → k = k' := by
  have hold {k n} (hk : s.mem.slots k = some n) : n ≠ s.mem.fresh :=
    (h.owned.slotsFresh k n hk).ne
  intro k k' n hk hk'
  rcases hdoes.slots_cases with hsame | ⟨key, hnew, -⟩ | ⟨key, hgone⟩
  · rw [hsame] at hk hk'
    exact h.distinct k k' n hk hk'
  · -- the new identity is in no other slot
    rw [hnew, Function.update_apply] at hk hk'
    split_ifs at hk hk' with hkey hkey' hkey'
    · rw [hkey, hkey']
    · cases hk
      exact absurd rfl (hold hk')
    · cases hk'
      exact absurd rfl (hold hk)
    · exact h.distinct k k' n hk hk'
  · rw [hgone, Function.update_apply] at hk hk'
    split_ifs at hk hk'
    exact h.distinct k k' n hk hk'

theorem inserting_step (h : Identified s) (hdoes : Does c b s.mem w pc e) :
    ∀ u p job, (s.apply t e).tasks u = some p → p.jobOf = some job →
      job.state < e.mem.fresh := by
  intro u p job hu hjob
  rcases Pool.tasks_apply_cases hu with ⟨-, rfl⟩ | ⟨-, hsp⟩ | ⟨-, q, hq, rfl⟩
  · exact hdoes.jobOf_next hjob
  · rw [hdoes.jobOf_spawn u p hsp] at hjob
    cases hjob
  · obtain ⟨ns, hns⟩ := hdoes.touch_eq
    rw [hns, jobOf_notify] at hjob
    exact (h.inserting u q job hq hjob).trans_le hdoes.fresh_le

theorem identified_init : Identified Sched.init where
  owned := owned_init
  jobs := by rintro k job ⟨⟩
  inserting := by rintro u p job ⟨⟩
  distinct := by rintro k k' n ⟨⟩

theorem identified_step {a : Act} (h : Identified s)
    (hs : (schedMachine c b).step s a = some s') : Identified s' := by
  have howned := owned_step h.owned hs
  cases a with
  | call call =>
    obtain rfl := Option.some.inj hs
    have hlt {n : ℕ} (hn : n < s.mem.fresh) : n < s.mem.alloc.fresh :=
      hn.trans (Nat.lt_succ_self _)
    refine ⟨howned, fun k job hk => hlt (h.jobs k job hk), ?_, h.distinct⟩
    intro u p job hu hjob
    rcases Pool.tasks_add_cases hu with ⟨-, rfl⟩ | ⟨-, hq⟩
    · cases call <;> cases hjob
    · exact hlt (h.inserting u p job hq hjob)
  | run t w =>
    obtain ⟨pc, e, hpc, hdoes, rfl⟩ := run_does hs
    refine ⟨howned, ?_, inserting_step h hdoes, distinct_step h hdoes⟩
    intro k job hk
    rcases hdoes.lookup_jobs hk with hold | ⟨hjob, -⟩
    · exact (h.jobs k job hold).trans_le hdoes.fresh_le
    · exact (h.inserting t pc job hpc hjob).trans_le hdoes.fresh_le
  | clock now =>
    obtain rfl := Option.some.inj hs
    exact ⟨howned, h.jobs, h.inserting, h.distinct⟩

/-- **In every reachable state the identities in use were handed out**, and each `Notify` belongs
to one key. -/
theorem identified_reaches (h : (schedMachine c b).Reaches Sched.init s) : Identified s :=
  h.invariant identified_init fun _ _ _ => identified_step

theorem key_eq_of_cancel (h : Identified s) {k k' : JobKey} {inst inst' : RunningInstance}
    (hk : s.mem.running.lookup k = some inst) (hk' : s.mem.running.lookup k' = some inst')
    (hcancel : inst.cancel = inst'.cancel) : k = k' := by
  refine h.distinct k k' inst.cancel ?_ ?_
  · rw [Shared.slots, hk, Option.map_some]
  · rw [Shared.slots, hk', Option.map_some, hcancel]

end CronManager

import CronManager.Machine
import Mathlib.Data.Nat.Notation
import Mathlib.Data.Set.Defs
import Mathlib.Tactic.SplitIfs

/-!
# Pools of tasks over a shared memory

A `Pool` is a shared memory and any number of tasks, each at a program point.  One step of a task
reads and writes the memory, moves the task on, may spawn one more task, and may touch the program
points of the other tasks (as a wake-up does): an `Effect`.  A step is what the task does
atomically, so the runs of the pool are the interleavings of the steps of its tasks.

* `Pool.apply` performs an effect; `tasks_apply_cases` says where each task of the result comes
  from, and `tasks_apply_self`, `tasks_apply_spawn` and `tasks_apply_other` compute it;
* `forall_tasks_apply` is the rule for what holds of every task: it holds of the one that moved,
  of the one it spawned, and touching keeps it;
* `bind_tasks_apply` computes a view of the tasks that touching does not change: it is the old
  view, updated at the task that moved and at the task it spawned;
* `Pool.add` adds a task, as a caller from outside does;
* `LastWrites` is the rule for a cell that several tasks write, each ending with a value of its
  own: once none of them will write again, the cell holds one of these values;
* `Alone` runs one task on the memory with no other task in between.
-/

namespace CronManager

/-- What one step of a task does. -/
structure Effect (M P : Type*) where
  mem : M
  /-- Where the task goes. -/
  next : P
  /-- The task it spawns. -/
  spawn : Option (ℕ × P)
  /-- What it does to the program points of the other tasks. -/
  touch : P → P

/-- A shared memory with tasks. -/
structure Pool (M P : Type*) where
  mem : M
  tasks : ℕ → Option P

namespace Pool

variable {M P V : Type*} {s : Pool M P} {t u : ℕ} {e : Effect M P}

/-- The pool after task `t` has taken a step with effect `e`. -/
def apply (s : Pool M P) (t : ℕ) (e : Effect M P) : Pool M P where
  mem := e.mem
  tasks u :=
    if u = t then some e.next
    else match e.spawn with
      | some (v, p) => if u = v then some p else (s.tasks u).map e.touch
      | none => (s.tasks u).map e.touch

@[simp] theorem mem_apply : (s.apply t e).mem = e.mem := rfl

@[simp] theorem tasks_apply_self : (s.apply t e).tasks t = some e.next := by
  simp [apply]

theorem tasks_apply_spawn {v : ℕ} {p : P} (hv : v ≠ t) (hspawn : e.spawn = some (v, p)) :
    (s.apply t e).tasks v = some p := by
  simp [apply, hv, hspawn]

theorem tasks_apply_other (hu : u ≠ t) (hspawn : ∀ p, e.spawn ≠ some (u, p)) :
    (s.apply t e).tasks u = (s.tasks u).map e.touch := by
  cases hsp : e.spawn with
  | none => simp [apply, hu, hsp]
  | some vp =>
    obtain ⟨v, p⟩ := vp
    have huv : u ≠ v := by
      rintro rfl
      exact hspawn p hsp
    simp [apply, hu, hsp, huv]

theorem tasks_apply_cases {p : P} (h : (s.apply t e).tasks u = some p) :
    (u = t ∧ p = e.next) ∨ (u ≠ t ∧ e.spawn = some (u, p)) ∨
      (u ≠ t ∧ ∃ q, s.tasks u = some q ∧ p = e.touch q) := by
  by_cases hu : u = t
  · subst hu
    rw [tasks_apply_self] at h
    exact .inl ⟨rfl, (Option.some.inj h).symm⟩
  by_cases hspawn : ∃ q, e.spawn = some (u, q)
  · obtain ⟨q, hq⟩ := hspawn
    rw [tasks_apply_spawn hu hq] at h
    exact .inr (.inl ⟨hu, by rw [hq, Option.some.inj h]⟩)
  · rw [tasks_apply_other hu (not_exists.1 hspawn), Option.map_eq_some_iff] at h
    obtain ⟨q, hq, rfl⟩ := h
    exact .inr (.inr ⟨hu, q, hq, rfl⟩)

/-- What holds of every task: of the one that moved, of the one it spawned, and of every other
one after it was touched. -/
theorem forall_tasks_apply {Q : P → Prop} (hnext : Q e.next)
    (hspawn : ∀ v p, e.spawn = some (v, p) → Q p)
    (htouch : ∀ u p, s.tasks u = some p → Q (e.touch p)) :
    ∀ u p, (s.apply t e).tasks u = some p → Q p := by
  intro u p hu
  rcases tasks_apply_cases hu with ⟨-, rfl⟩ | ⟨-, hsp⟩ | ⟨-, q, hq, rfl⟩
  · exact hnext
  · exact hspawn u p hsp
  · exact htouch u q hq

theorem tasks_apply_of_some {q : P} (hu : u ≠ t) (hq : s.tasks u = some q)
    (hspawn : ∀ v p, e.spawn = some (v, p) → s.tasks v = none) :
    (s.apply t e).tasks u = some (e.touch q) := by
  have hnot : ∀ p, e.spawn ≠ some (u, p) := by
    intro p hp
    rw [hspawn u p hp] at hq
    cases hq
  rw [tasks_apply_other hu hnot, hq, Option.map_some]

theorem bind_tasks_apply {view : P → Option V} (htouch : ∀ p, view (e.touch p) = view p) :
    ((s.apply t e).tasks u).bind view =
      if u = t then view e.next
      else match e.spawn with
        | some (v, p) => if u = v then view p else (s.tasks u).bind view
        | none => (s.tasks u).bind view := by
  have hmap : ((s.tasks u).map e.touch).bind view = (s.tasks u).bind view := by
    cases s.tasks u with
    | none => rfl
    | some p => exact htouch p
  by_cases hu : u = t
  · simp [apply, hu]
  · cases hsp : e.spawn with
    | none => simpa [apply, hu, hsp] using hmap
    | some vp =>
      obtain ⟨v, p⟩ := vp
      by_cases huv : u = v
      · subst huv
        simp [apply, hu, hsp]
      · simpa [apply, hu, hsp, huv] using hmap

/-- The pool with one more task, at `v`. -/
def add (s : Pool M P) (mem : M) (v : ℕ) (p : P) : Pool M P :=
  ⟨mem, fun u => if u = v then some p else s.tasks u⟩

theorem tasks_add_cases {mem : M} {v : ℕ} {p q : P} (h : (s.add mem v p).tasks u = some q) :
    (u = v ∧ q = p) ∨ (u ≠ v ∧ s.tasks u = some q) := by
  simp only [add] at h
  split_ifs at h with hu
  · exact .inl ⟨hu, (Option.some.inj h).symm⟩
  · exact .inr ⟨hu, h⟩

theorem tasks_add_of_some {mem : M} {v : ℕ} {p q : P} (hv : s.tasks v = none)
    (h : s.tasks u = some q) : (s.add mem v p).tasks u = some q := by
  have huv : u ≠ v := by
    rintro rfl
    rw [hv] at h
    cases h
  simp [add, huv, h]

theorem bind_tasks_add {mem : M} {v : ℕ} {p : P} {view : P → Option V} (hp : view p = none)
    (hv : s.tasks v = none) : ((s.add mem v p).tasks u).bind view = (s.tasks u).bind view := by
  by_cases hu : u = v
  · subst hu
    simp [add, hv, hp]
  · simp [add, hu]

/-! ### Last writes -/

/-- `will p` is the value with which a task at `p` ends its writes to a cell, if it will write to it
at all.  Each task ends with a value of its own set, and a cell that no task will write holds a
value of one of these sets. -/
structure LastWrites (will : P → Option V) (cell : M → V) (W : ℕ → Set V) (s : Pool M P) :
    Prop where
  promised : ∀ u p v, s.tasks u = some p → will p = some v → v ∈ W u
  settled : (∀ u p, s.tasks u = some p → will p = none) → ∃ u, cell s.mem ∈ W u

variable {will : P → Option V} {cell : M → V} {W : ℕ → Set V}

/-- A step of a task that goes on with its writes, or makes the last one. -/
theorem LastWrites.apply {p : P} (h : LastWrites will cell W s) (hp : s.tasks t = some p)
    (hstep : (will e.next = will p ∧ (will p = none → cell e.mem = cell s.mem)) ∨
      (will e.next = none ∧ will p = some (cell e.mem)))
    (hspawn : ∀ v q, e.spawn = some (v, q) → s.tasks v = none ∧ will q = none)
    (htouch : ∀ q, will (e.touch q) = will q) : LastWrites will cell W (s.apply t e) := by
  constructor
  · intro u q v hq hv
    rcases tasks_apply_cases hq with ⟨rfl, rfl⟩ | ⟨-, hsp⟩ | ⟨-, q', hq', rfl⟩
    · rcases hstep with ⟨hsame, -⟩ | ⟨hnone, -⟩
      · exact h.promised u p v hp (hsame ▸ hv)
      · rw [hnone] at hv
        cases hv
    · rw [(hspawn u q hsp).2] at hv
      cases hv
    · exact h.promised u q' v hq' (htouch q' ▸ hv)
  · intro hall
    rw [mem_apply]
    rcases hstep with ⟨hsame, hkeep⟩ | ⟨-, hlast⟩
    · have hpnone : will p = none := by
        rw [← hsame]
        exact hall t e.next tasks_apply_self
      rw [hkeep hpnone]
      refine h.settled fun u q hq => ?_
      by_cases hu : u = t
      · subst hu
        rw [hp] at hq
        exact Option.some.inj hq ▸ hpnone
      · have := hall u _ (tasks_apply_of_some hu hq fun v q' hv => (hspawn v q' hv).1)
        rwa [htouch] at this
    · exact ⟨t, h.promised t p _ hp hlast⟩

theorem LastWrites.add {mem : M} {v : ℕ} {p : P} (h : LastWrites will cell W s)
    (hmem : cell mem = cell s.mem) (hp : will p = none) (hv : s.tasks v = none) :
    LastWrites will cell W (s.add mem v p) := by
  constructor
  · intro u q x hq hx
    rcases tasks_add_cases hq with ⟨-, rfl⟩ | ⟨-, hq'⟩
    · rw [hp] at hx
      cases hx
    · exact h.promised u q x hq' hx
  · intro hall
    have hmem' : cell (s.add mem v p).mem = cell s.mem := hmem
    rw [hmem']
    exact h.settled fun u q hq => hall u q (tasks_add_of_some hv hq)

end Pool

/-- The runs of one task, with no step of another task in between. -/
def Alone {M P I : Type*} (step : M → P → I → Option (Effect M P)) : Machine (M × P) I where
  step mp i := (step mp.1 mp.2 i).map fun e => (e.mem, e.next)

end CronManager

import Mathlib.Logic.Basic
import Mathlib.Data.List.Induction
import Mathlib.Data.Option.Basic

/-!
# Machines with an executable step function

The concurrent parts of the development are *machines*: a step function `S → A → Option S`,
where an action `A` says which participant moves and what the outside world hands to it, and
`none` means that the action is not possible in that state.  A run is a list of actions.

* `Machine.run` executes a list of actions, so that a concrete run is checked by evaluation, and
  `Machine.runIf` does so under an executable guard;
* `Machine.Runs G` is the relation "some actions lead from `s` to `s'`, and each of them meets
  the guard `G` in the state it is taken in"; the unguarded runs are `Machine.Reaches`;
* `Runs.invariant` proves that what holds initially and is kept by every guarded step holds at
  the end of every guarded run, and `runs_iff_forall_prefix` that the guard is exact where it
  says of each step whether it keeps the invariant;
* `run_flatMap` is the rule for simulations: the view of a run is a run of another machine; and
  `run_filter` the one for actions that change nothing;
* `Machine.outputs` collects what the steps of a run put out, and `Runs.outputs_invariant` is the
  rule for invariants that speak of what has been put out so far; `Runs.invariant_snoc` is the one
  for invariants that speak of several such logs;
* `Runs.countP_add_le` bounds the actions of a kind that lower a rank;
* `Machine.During` says that something held at some moment of a run, and `during_invariant` is the
  rule for invariants that speak of what has held so far.
-/

namespace CronManager

theorem eq_some_getD {α : Type*} {o : Option α} {x : α} (h : o.isSome = true) :
    o = some (o.getD x) := by
  obtain ⟨a, rfl⟩ := Option.isSome_iff_exists.1 h
  rfl

/-- A machine with states `S` and actions `A`. -/
structure Machine (S A : Type*) where
  /-- The state after an action, if the action is possible. -/
  step : S → A → Option S

namespace Machine

variable {S A : Type*} (M : Machine S A)

/-- Execute a list of actions. -/
def run : S → List A → Option S
  | s, [] => some s
  | s, a :: as => (M.step s a).bind fun s' => run s' as

/-- Execute a list of actions as long as each meets a guard. -/
def runIf (g : S → A → Bool) : S → List A → Option S
  | s, [] => some s
  | s, a :: as => if g s a then (M.step s a).bind fun s' => runIf g s' as else none

/-- What the actions of a list put out, one after the other. -/
def outputs {V : Type*} (out : S → A → List V) : S → List A → List V
  | _, [] => []
  | s, a :: as => out s a ++ (M.step s a).elim [] fun s' => outputs out s' as

/-- `Runs G s as s'` : the actions `as` lead from `s` to `s'`, each meeting the guard `G` in the
state in which it is taken. -/
inductive Runs (G : S → A → Prop) : S → List A → S → Prop
  | nil (s : S) : Runs G s [] s
  | cons {s s' s'' : S} {a : A} {as : List A} (hg : G s a) (hs : M.step s a = some s')
      (hr : Runs G s' as s'') : Runs G s (a :: as) s''

/-- Some run, its actions unrestricted, leads from `s` to `s'`. -/
def Reaches (s s' : S) : Prop := ∃ as, M.Runs (fun _ _ => True) s as s'

variable {M} {G : S → A → Prop} {s s' s'' : S} {as : List A}

namespace Runs

theorem append {as' : List A} (h : M.Runs G s as s') (h' : M.Runs G s' as' s'') :
    M.Runs G s (as ++ as') s'' := by
  induction h with
  | nil => exact h'
  | cons hg hs _ ih => exact .cons hg hs (ih h')

theorem snoc {a : A} (h : M.Runs G s as s') (hg : G s' a) (hs : M.step s' a = some s'') :
    M.Runs G s (as ++ [a]) s'' :=
  h.append (.cons hg hs (.nil _))

theorem split {as' : List A} (h : M.Runs G s (as ++ as') s') :
    ∃ s₁, M.Runs G s as s₁ ∧ M.Runs G s₁ as' s' := by
  induction as generalizing s with
  | nil => exact ⟨s, .nil s, h⟩
  | cons a as ih =>
    cases h with
    | cons hg hs hr =>
      obtain ⟨s₁, h₁, h₂⟩ := ih hr
      exact ⟨s₁, .cons hg hs h₁, h₂⟩

theorem mono {G' : S → A → Prop} (hG : ∀ s a, G s a → G' s a) (h : M.Runs G s as s') :
    M.Runs G' s as s' := by
  induction h with
  | nil => exact .nil _
  | cons hg hs _ ih => exact .cons (hG _ _ hg) hs ih

/-- Each action meets another guard if it does so as an action of this run. -/
theorem imp_mem {G' : S → A → Prop} (h : M.Runs G s as s')
    (hG : ∀ s, ∀ a ∈ as, G s a → G' s a) : M.Runs G' s as s' := by
  induction h with
  | nil => exact .nil _
  | cons hg hs _ ih =>
    refine .cons (hG _ _ List.mem_cons_self hg) hs (ih ?_)
    intro s a ha
    exact hG s a (List.mem_cons_of_mem _ ha)

theorem reaches (h : M.Runs G s as s') : M.Reaches s s' :=
  ⟨as, h.mono fun _ _ _ => trivial⟩

/-- **Inductive invariants.**  What holds at the start and is kept by every guarded step holds
at the end. -/
theorem invariant {I : S → Prop} (h : M.Runs G s as s') (h₀ : I s)
    (hstep : ∀ s a s', I s → G s a → M.step s a = some s' → I s') : I s' := by
  induction h with
  | nil => exact h₀
  | cons hg hs _ ih => exact ih (hstep _ _ _ h₀ hg hs)

theorem outputs_append {V : Type*} {out : S → A → List V} {as' : List A}
    (h : M.Runs G s as s') :
    M.outputs out s (as ++ as') = M.outputs out s as ++ M.outputs out s' as' := by
  induction h with
  | nil => rfl
  | cons _ hs _ ih =>
    simp only [List.cons_append, outputs, hs, Option.elim_some, ih, List.append_assoc]

/-- **Invariants with a log.**  What holds at the start and is kept by every guarded step, as the
log grows by what the step puts out, holds at the end with the whole log. -/
theorem outputs_invariant {V : Type*} {I : S → List V → Prop} (h : M.Runs G s as s')
    (out : S → A → List V) (log : List V) (h₀ : I s log)
    (hstep : ∀ s a s' log, I s log → G s a → M.step s a = some s' → I s' (log ++ out s a)) :
    I s' (log ++ M.outputs out s as) := by
  induction h generalizing log with
  | nil =>
    rw [outputs, List.append_nil]
    exact h₀
  | cons hg hs _ ih =>
    simp only [outputs, hs, Option.elim_some]
    rw [← List.append_assoc]
    exact ih _ (hstep _ _ _ _ h₀ hg hs)

theorem outputs_snoc {V : Type*} {out : S → A → List V} {a : A} (h : M.Runs G s as s') :
    M.outputs out s (as ++ [a]) = M.outputs out s as ++ out s' a := by
  rw [h.outputs_append, outputs]
  cases M.step s' a <;> simp [outputs]

/-- **Invariants with the actions so far.**  What holds at the start and is kept by every guarded
step, as the list of the actions taken grows by its own, holds at the end with the whole list. -/
theorem invariant_snoc {I : List A → S → Prop} (h : M.Runs G s as s') (h₀ : I [] s)
    (hstep : ∀ as₁ s₁ a s₂, M.Runs G s as₁ s₁ → I as₁ s₁ → G s₁ a → M.step s₁ a = some s₂ →
      I (as₁ ++ [a]) s₂) : I as s' := by
  induction as using List.reverseRecOn generalizing s' with
  | nil =>
    cases h
    exact h₀
  | append_singleton as a ih =>
    obtain ⟨s₁, h₁, h₂⟩ := h.split
    cases h₂ with
    | cons hg hs hnil =>
      cases hnil
      exact hstep as s₁ a s' h₁ (ih h₁) hg hs

/-- **Ranks.**  Where every action leaves a rank no higher, and one of a kind leaves it lower, a run
takes no more actions of this kind than its rank allows. -/
theorem countP_add_le {I : S → Prop} {rank : S → ℕ} {p : A → Bool} (h : M.Runs G s as s')
    (h₀ : I s) (hstep : ∀ s a s', I s → G s a → M.step s a = some s' →
      I s' ∧ rank s' + (if p a then 1 else 0) ≤ rank s) :
    I s' ∧ as.countP p + rank s' ≤ rank s := by
  induction h with
  | nil => exact ⟨h₀, Nat.le_of_eq (Nat.zero_add _)⟩
  | cons hg hs _ ih =>
    obtain ⟨h₁, hle⟩ := hstep _ _ _ h₀ hg hs
    obtain ⟨h₂, hcount⟩ := ih h₁
    refine ⟨h₂, ?_⟩
    rw [List.countP_cons]
    omega

end Runs

namespace Reaches

theorem refl (s : S) : M.Reaches s s := ⟨[], .nil s⟩

theorem tail {a : A} (h : M.Reaches s s') (hs : M.step s' a = some s'') : M.Reaches s s'' := by
  obtain ⟨as, h⟩ := h
  exact ⟨_, h.snoc trivial hs⟩

theorem trans (h : M.Reaches s s') (h' : M.Reaches s' s'') : M.Reaches s s'' := by
  obtain ⟨as, h⟩ := h
  obtain ⟨as', h'⟩ := h'
  exact ⟨_, h.append h'⟩

theorem invariant {I : S → Prop} (h : M.Reaches s s') (h₀ : I s)
    (hstep : ∀ s a s', I s → M.step s a = some s' → I s') : I s' := by
  obtain ⟨as, h⟩ := h
  exact h.invariant h₀ fun s a s' hi _ hs => hstep s a s' hi hs

end Reaches

theorem runs_of_run (h : M.run s as = some s') : M.Runs (fun _ _ => True) s as s' := by
  induction as generalizing s with
  | nil =>
    simp only [run, Option.some.injEq] at h
    subst h
    exact .nil _
  | cons a as ih =>
    simp only [run, Option.bind_eq_some_iff] at h
    obtain ⟨s₁, hs, hr⟩ := h
    exact .cons trivial hs (ih hr)

theorem runs_of_runIf {g : S → A → Bool} (h : M.runIf g s as = some s') :
    M.Runs (fun s a => g s a = true) s as s' := by
  induction as generalizing s with
  | nil =>
    simp only [runIf, Option.some.injEq] at h
    subst h
    exact .nil _
  | cons a as ih =>
    simp only [runIf] at h
    by_cases hg : g s a = true
    · rw [if_pos hg] at h
      obtain ⟨s₁, hs, hr⟩ := Option.bind_eq_some_iff.1 h
      exact .cons hg hs (ih hr)
    · rw [if_neg hg] at h
      cases h

theorem run_of_runs (h : M.Runs G s as s') : M.run s as = some s' := by
  induction h with
  | nil => rfl
  | cons _ hs _ ih => rw [run, hs, Option.bind_some, ih]

theorem reaches_of_run (h : M.run s as = some s') : M.Reaches s s' := ⟨as, runs_of_run h⟩

theorem run_append {as' : List A} : M.run s (as ++ as') = (M.run s as).bind (M.run · as') := by
  induction as generalizing s with
  | nil => rfl
  | cons a as ih =>
    rw [List.cons_append, run, run, Option.bind_assoc]
    exact congrArg _ (funext fun _ => ih)

/-- **Simulation.**  Where the view of each step is a run of another machine, the view of a run is
one too. -/
theorem run_flatMap {S' A' : Type*} {M' : Machine S' A'} {view : S → S'} {acts : A → List A'}
    (hstep : ∀ s a s', M.step s a = some s' → M'.run (view s) (acts a) = some (view s'))
    (h : M.run s as = some s') : M'.run (view s) (as.flatMap acts) = some (view s') := by
  induction as generalizing s with
  | nil =>
    obtain rfl := Option.some.inj h
    rfl
  | cons a as ih =>
    obtain ⟨s₁, hs, hr⟩ := Option.bind_eq_some_iff.1 h
    rw [List.flatMap_cons, run_append, hstep s a s₁ hs, Option.bind_some]
    exact ih hr

/-- **Erasure.**  A run is the same without actions that change nothing. -/
theorem run_filter {p : A → Bool} (hskip : ∀ s a s', p a = false → M.step s a = some s' → s' = s)
    (h : M.run s as = some s') : M.run s (as.filter p) = some s' := by
  induction as generalizing s with
  | nil => exact h
  | cons a as ih =>
    obtain ⟨s₁, hs, hr⟩ := Option.bind_eq_some_iff.1 h
    cases hp : p a with
    | true => rw [List.filter_cons_of_pos hp, run, hs, Option.bind_some, ih hr]
    | false =>
      rw [List.filter_cons_of_neg (by rw [hp]; exact Bool.false_ne_true)]
      rw [hskip s a s₁ hp hs] at hr
      exact ih hr

/-- **Exact guards.**  Where the guard says of each step whether it keeps the invariant, the
invariant holds in every state of a run exactly when each of its steps meets the guard. -/
theorem runs_iff_forall_prefix {I : S → Prop} (h : M.run s as = some s') (h₀ : I s)
    (hstep : ∀ s a s', I s → M.step s a = some s' → (I s' ↔ G s a)) :
    M.Runs G s as s' ↔ ∀ as₁ s₁, as₁ <+: as → M.run s as₁ = some s₁ → I s₁ := by
  induction as generalizing s with
  | nil =>
    obtain rfl := Option.some.inj h
    constructor
    · intro _ as₁ s₁ hpre hrun
      rw [List.prefix_nil.1 hpre] at hrun
      obtain rfl := Option.some.inj hrun
      exact h₀
    · exact fun _ => .nil _
  | cons a as ih =>
    obtain ⟨s₂, hs, hr⟩ := Option.bind_eq_some_iff.1 h
    constructor
    · intro hruns as₁ s₁ hpre hrun
      cases hruns with
      | cons hg hs' hrest =>
        have hs₂ : I s₂ := (hstep s a s₂ h₀ hs).2 hg
        rw [hs] at hs'
        obtain rfl := Option.some.inj hs'
        rcases List.prefix_cons_iff.1 hpre with rfl | ⟨as₂, rfl, hpre'⟩
        · obtain rfl := Option.some.inj hrun
          exact h₀
        · simp only [run, hs, Option.bind_some] at hrun
          exact (ih hr hs₂).1 hrest as₂ s₁ hpre' hrun
    · intro hall
      have hs₂ : I s₂ := by
        refine hall [a] s₂ (List.prefix_append [a] as) ?_
        simp only [run, hs, Option.bind_some]
      refine .cons ((hstep s a s₂ h₀ hs).1 hs₂) hs ((ih hr hs₂).2 ?_)
      intro as₁ s₁ hpre hrun
      refine hall (a :: as₁) s₁ ((List.prefix_cons_inj a).2 hpre) ?_
      simp only [run, hs, Option.bind_some]
      exact hrun

/-! ### What held at some moment -/

variable (M) in
/-- `Q` holds at some moment of the run of `as` from `s`. -/
def During (s : S) (as : List A) (Q : S → Prop) : Prop :=
  ∃ as₁ s₁, as₁ <+: as ∧ M.run s as₁ = some s₁ ∧ Q s₁

theorem During.mono {as' : List A} {Q : S → Prop} (h : M.During s as Q) (hpre : as <+: as') :
    M.During s as' Q := by
  obtain ⟨as₁, s₁, hpre₁, hrun, hQ⟩ := h
  exact ⟨as₁, s₁, hpre₁.trans hpre, hrun, hQ⟩

theorem During.last {Q : S → Prop} (h : M.run s as = some s') (hQ : Q s') : M.During s as Q :=
  ⟨as, s', List.prefix_refl as, h, hQ⟩

/-- A run either keeps clear of `Q` or comes to it. -/
theorem runs_or_during (h : M.run s as = some s') (Q : S → Prop) :
    M.Runs (fun s _ => ¬ Q s) s as s' ∨ M.During s as Q := by
  induction as generalizing s with
  | nil =>
    obtain rfl := Option.some.inj h
    exact .inl (.nil s)
  | cons a as ih =>
    obtain ⟨s₁, hs, hr⟩ := Option.bind_eq_some_iff.1 h
    by_cases hQ : Q s
    · exact .inr ⟨[], s, List.nil_prefix, rfl, hQ⟩
    · rcases ih hr with hruns | ⟨as₁, s₂, hpre, hrun, hQ₂⟩
      · exact .inl (.cons hQ hs hruns)
      · refine .inr ⟨a :: as₁, s₂, (List.prefix_cons_inj a).2 hpre, ?_, hQ₂⟩
        rw [run, hs, Option.bind_some, hrun]

/-- **Invariants with a past.**  What holds at the start and is kept by every step, as the past
grows by the state the step leads to, holds at the end with all that has held. -/
theorem during_invariant {I : ((S → Prop) → Prop) → S → Prop} (h : M.run s as = some s')
    (h₀ : ∀ past : (S → Prop) → Prop, (∀ Q, Q s → past Q) → I past s)
    (hstep : ∀ (past past' : (S → Prop) → Prop) (s : S) (a : A) (s' : S), I past s →
      (∀ Q, Q s → past Q) → (∀ Q, past Q → past' Q) → (∀ Q, Q s' → past' Q) →
      M.step s a = some s' → I past' s') : I (M.During s as) s' := by
  induction as using List.reverseRecOn generalizing s' with
  | nil =>
    obtain rfl := Option.some.inj h
    exact h₀ _ fun Q hQ => .last rfl hQ
  | append_singleton as a ih =>
    obtain ⟨s₁, h₁, h₂⟩ := (runs_of_run h).split
    have hrun := run_of_runs h₁
    cases h₂ with
    | cons _ hs hnil =>
      cases hnil
      exact hstep _ _ s₁ a s' (ih hrun) (fun Q => .last hrun)
        (fun Q hQ => hQ.mono (List.prefix_append as [a])) (fun Q => .last h) hs

end Machine

end CronManager

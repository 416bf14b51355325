import CronManager.App.Policy
import CronManager.Router.Throttle

/-!
# How often a process reloads

The throttle of `/reload` lets a group pass once per interval, and a load starts only behind a
request that it let pass.  Over a whole run of the process, with a clock that does not run
backwards and no more groups than the throttle has entries for, two admitted requests of one group
are an interval apart, and `reload_from` is called at most once for each admitted request
(`reloads_spaced`).  Beyond that number of groups the throttle forgets its oldest entry, and does
not promise this.
-/

namespace CronManager

open Rust

/-- When a request arrives. -/
def Event.time : Event → Option ℕ
  | .request _ now => some now
  | _ => none

variable (k : UriCrates) (b : Booted)

/-- The interval of the throttle. -/
def Booted.interval : ℕ := b.state.cfg.security.reloadMinIntervalSecs

/-- The reload that the throttle admits: its group and its time. -/
def App.admission (a : App) (ev : Event) : List (String × ℕ) :=
  match ev.reloadGroup k b, ev.time with
  | some group, some now => match (a.gate.admits group b.interval now).2 with
    | .ok () => [(group, now)]
    | .error _ => []
  | _, _ => []

/-- Two admissions of one group are an interval apart. -/
def Spaced (m : ℕ) (first second : String × ℕ) : Prop :=
  first.1 = second.1 → m ≤ ReloadGate.elapsedSecs second.2 first.2

variable {k b} {c : Crates} {a a' : App} {ev : Event} {es : List Event} {jobs : List LoadedJob}
  {names : Finset String} {now m : ℕ} {last : ReloadGate.Admissions}

/-! ### One event -/

theorem step_of_reloadGroup {group : String} {t : ℕ} (hgroup : ev.reloadGroup k b = some group)
    (ht : ev.time = some t) (h : (appMachine k c b).step a ev = some a') :
    a'.gate = (a.gate.admits group b.interval t).1 ∧
      a'.loading = a.loading + (a.admission k b ev).length := by
  obtain ⟨req, now, rfl, hroute⟩ := reloadGroup_eq_some hgroup
  obtain rfl := Option.some.inj ht
  simp only [App.admission, hgroup, ht, Booted.interval]
  simp only [appMachine, hroute, App.handle] at h
  split at h
  · obtain rfl := Option.some.inj h
    cases a.gate.admits group b.state.cfg.security.reloadMinIntervalSecs now with
    | mk gate verdict => cases verdict <;> exact ⟨rfl, rfl⟩
  · cases h

/-- What comes of an admission: a request that asked for it, and a throttle that let it pass. -/
theorem admission_cases (a : App) (ev : Event) : a.admission k b ev = [] ∨
    ∃ group t, ev.reloadGroup k b = some group ∧ ev.time = some t ∧
      (a.gate.admits group b.interval t).2 = .ok () ∧ a.admission k b ev = [(group, t)] := by
  unfold App.admission
  split
  · rename_i group t hgroup ht
    split
    · rename_i hok
      exact .inr ⟨group, t, hgroup, ht, hok, rfl⟩
    · exact .inl rfl
  · exact .inl rfl

theorem time_of_reloadGroup {group : String} (h : ev.reloadGroup k b = some group) :
    ∃ t, ev.time = some t := by
  obtain ⟨req, now, rfl, -⟩ := reloadGroup_eq_some h
  exact ⟨now, rfl⟩

/-! ### The spacing -/

/-- A throttle that follows the one that never forgets admits a group an interval after its last
admission. -/
theorem le_elapsed_of_admits {gate : ReloadGate} {group : String} {t t₀ : ℕ}
    (h : gate.Follows m names now last) (hok : (gate.admits group m t).2 = .ok ())
    (hle : now ≤ t) (hlast : last group = some t₀) : m ≤ ReloadGate.elapsedSecs t t₀ := by
  by_contra hlt
  have hsoon := ((h.later hle).tooSoon_iff group t₀).2 ⟨hlast, Nat.not_le.1 hlt⟩
  exact ReloadGate.admits_ok_iff.1 hok t₀ hsoon

theorem admissions_ok {group : String} {t : ℕ} (hok : (last.admits group m t).2 = .ok ()) :
    (last.admits group m t).1 = Function.update last group (some t) := by
  unfold ReloadGate.Admissions.admits at hok ⊢
  split at hok
  · cases hok
  · rfl

theorem admissions_error {group : String} {t : ℕ} (hok : (last.admits group m t).2 ≠ .ok ()) :
    (last.admits group m t).1 = last := by
  unfold ReloadGate.Admissions.admits at hok ⊢
  split at hok
  · rfl
  · exact absurd rfl hok

/-- The admissions from a moment on are an interval apart from each other and from the last ones
before, which the throttle that never forgets still knows. -/
structure Apart (m : ℕ) (now : ℕ) (last : ReloadGate.Admissions) (out : List (String × ℕ)) :
    Prop where
  spaced : out.Pairwise (Spaced m)
  later : ∀ e ∈ out, now ≤ e.2
  since : ∀ e ∈ out, ∀ t, last e.1 = some t → m ≤ ReloadGate.elapsedSecs e.2 t

theorem Apart.nil : Apart m now last [] where
  spaced := .nil
  later := fun _ h => absurd h List.not_mem_nil
  since := fun _ h => absurd h List.not_mem_nil

theorem Apart.earlier {now' : ℕ} {out : List (String × ℕ)} (h : Apart m now' last out)
    (hle : now ≤ now') : Apart m now last out where
  spaced := h.spaced
  later := fun e he => hle.trans (h.later e he)
  since := h.since

theorem Apart.cons {group : String} {t : ℕ} {out : List (String × ℕ)}
    (h : Apart m t (Function.update last group (some t)) out) (hle : now ≤ t)
    (hfirst : ∀ t₀, last group = some t₀ → m ≤ ReloadGate.elapsedSecs t t₀) :
    Apart m now last ((group, t) :: out) where
  spaced := by
    refine List.pairwise_cons.2 ⟨fun e he heq => ?_, h.spaced⟩
    refine h.since e he t ?_
    rw [← show group = e.1 from heq, Function.update_self]
  later := by
    intro e he
    rcases List.mem_cons.1 he with rfl | he
    · exact hle
    · exact hle.trans (h.later e he)
  since := by
    intro e he t₀ hlast
    rcases List.mem_cons.1 he with rfl | he
    · exact hfirst t₀ hlast
    by_cases hg : e.1 = group
    · -- the admission in front is later than the one the throttle knew
      rw [hg] at hlast
      exact (hfirst t₀ hlast).trans (ReloadGate.elapsedSecs_mono (h.later e he) t₀)
    · refine h.since e he t₀ ?_
      rw [Function.update_of_ne hg, hlast]

/-- **The admissions of a run**, from a throttle that follows the one that never forgets. -/
theorem apart_of_run (hpos : 0 < b.interval) (hm : b.interval < 2 ^ 64)
    (hnames : names.card ≤ ReloadGate.maxEntries)
    (hrun : (appMachine k c b).run a es = some a')
    (hfollows : a.gate.Follows b.interval names now last)
    (hclock : (es.filterMap Event.time).Pairwise (· ≤ ·))
    (hnow : ∀ t ∈ es.filterMap Event.time, now ≤ t)
    (hgroups : ∀ g ∈ es.filterMap (Event.reloadGroup k b), g ∈ names) :
    Apart b.interval now last ((appMachine k c b).outputs (App.admission k b) a es) := by
  induction es generalizing a last now with
  | nil => exact .nil
  | cons ev es ih =>
    obtain ⟨a₁, hs, hr⟩ := Option.bind_eq_some_iff.1 hrun
    simp only [Machine.outputs, hs, Option.elim_some]
    cases hgroup : ev.reloadGroup k b with
    | none =>
      have hnone : a.admission k b ev = [] := by
        rcases admission_cases (k := k) (b := b) a ev with h | ⟨group, t, h, -⟩
        · exact h
        · rw [hgroup] at h
          cases h
      rw [hnone, List.nil_append]
      rw [← (step_of_reloadGroup_none hgroup hs).1] at hfollows
      rw [List.filterMap_cons, hgroup] at hgroups
      refine ih hr hfollows ?_ (fun t ht => hnow t ?_) hgroups
      · exact hclock.sublist ((List.sublist_cons_self ev es).filterMap _)
      · exact ((List.sublist_cons_self ev es).filterMap _).subset ht
    | some group =>
      obtain ⟨t, ht⟩ := time_of_reloadGroup hgroup
      rw [List.filterMap_cons, ht] at hclock hnow
      rw [List.filterMap_cons, hgroup] at hgroups
      obtain ⟨hfirst, hclock⟩ := List.pairwise_cons.1 hclock
      have hle : now ≤ t := hnow t List.mem_cons_self
      have hmem : group ∈ names := hgroups group List.mem_cons_self
      obtain ⟨hsame, hnext⟩ := (hfollows.later hle).admits hpos hm hmem hnames
      rw [← (step_of_reloadGroup hgroup ht hs).1] at hnext
      have hrest := ih hr hnext hclock hfirst fun g hg => hgroups g (List.mem_cons_of_mem _ hg)
      rcases admission_cases (k := k) (b := b) a ev with hnone | ⟨g', t', hg', ht', hok, hout⟩
      · have hrefused : (last.admits group b.interval t).2 ≠ .ok () := by
          intro hok
          rw [← hsame] at hok
          simp only [App.admission, hgroup, ht, hok] at hnone
          cases hnone
        rw [admissions_error hrefused] at hrest
        rw [hnone, List.nil_append]
        exact hrest.earlier hle
      · rw [hgroup] at hg'
        rw [ht] at ht'
        obtain rfl := Option.some.inj hg'
        obtain rfl := Option.some.inj ht'
        rw [hsame] at hok
        rw [admissions_ok hok] at hrest
        rw [hout]
        rw [← hsame] at hok
        exact hrest.cons hle fun t₀ => le_elapsed_of_admits hfollows hok hle

/-! ### The loads -/

/-- A request that waits for its load was admitted, and its load reloads at most once. -/
theorem reloads_step (h : (appMachine k c b).step a ev = some a') :
    (ev.acts k c b).countP Act.isReload + a'.loading ≤
      a.loading + (a.admission k b ev).length := by
  cases hgroup : ev.reloadGroup k b with
  | none => exact (step_of_reloadGroup_none hgroup h).2.trans (Nat.le_add_right _ _)
  | some group =>
    obtain ⟨t, ht⟩ := time_of_reloadGroup hgroup
    have hloading := (step_of_reloadGroup hgroup ht h).2
    obtain ⟨req, now, rfl, -⟩ := reloadGroup_eq_some hgroup
    rw [not_isReload_of_request, Nat.zero_add, hloading]

/-- Every `reload_from` of a run, and every request that still waits for its load at the end, has
an admission of its own. -/
theorem reloads_le (hrun : (appMachine k c b).run a es = some a') :
    (es.flatMap (Event.acts k c b)).countP Act.isReload + a'.loading ≤
      a.loading + ((appMachine k c b).outputs (App.admission k b) a es).length := by
  induction es generalizing a with
  | nil =>
    obtain rfl := Option.some.inj hrun
    exact (Nat.zero_add _).le
  | cons ev es ih =>
    obtain ⟨a₁, hs, hr⟩ := Option.bind_eq_some_iff.1 hrun
    have hfirst := reloads_step hs
    have hrest := ih hr
    simp only [Machine.outputs, hs, Option.elim_some, List.flatMap_cons, List.countP_append,
      List.length_append]
    omega

/-- **Reloads are spaced.**  While the clock of the requests does not run backwards, and no more
groups are asked for than the throttle has entries, two admitted reloads of one group are an
interval apart, whatever else the process does in between; and `reload_from` is not called more
often than a request was admitted. -/
theorem reloads_spaced (hpos : 0 < b.interval) (hm : b.interval < 2 ^ 64)
    (hrun : (appMachine k c b).run (.start jobs) es = some a)
    (hclock : (es.filterMap Event.time).Pairwise (· ≤ ·))
    (hgroups : (es.filterMap (Event.reloadGroup k b)).toFinset.card ≤ ReloadGate.maxEntries) :
    ((appMachine k c b).outputs (App.admission k b) (.start jobs) es).Pairwise
        (Spaced b.interval) ∧
      (appActs k c b jobs es).countP Act.isReload ≤
        ((appMachine k c b).outputs (App.admission k b) (.start jobs) es).length := by
  constructor
  · refine (apart_of_run hpos hm hgroups hrun (ReloadGate.follows_empty _ _ 0) hclock
      (fun t _ => Nat.zero_le t) fun g hg => List.mem_toFinset.2 hg).spaced
  · have hle := reloads_le hrun
    simp only [App.start, App.call, Nat.zero_add] at hle
    exact (Nat.le_add_right _ _).trans hle

/-- Requests to reload the group `probe` at 0, 59 and 60 seconds.  The loads of the two that are let
pass find the same directory. -/
def reloadEvents : List Event :=
  List.replicate 4 (.run 0 pingRebound) ++
    [.request (adminPost "/reload/probe") 0, .loaded demoEnv pingBoot.load,
      .request (adminPost "/reload/probe") 59000000000,
      .request (adminPost "/reload/probe") 60000000000, .loaded demoEnv pingBoot.load]

/-- The second of them is refused. -/
theorem reloads_spaced_probe :
    (appMachine demoUri getCrates pingBooted).outputs (App.admission demoUri pingBooted)
        (.start pingJobs) reloadEvents = [("probe", 0), ("probe", 60000000000)] ∧
      [("probe", 0), ("probe", 60000000000)].Pairwise (Spaced 60) ∧
      (appActs demoUri getCrates pingBooted pingJobs reloadEvents).countP Act.isReload ≤ 2 := by
  have hout : (appMachine demoUri getCrates pingBooted).outputs (App.admission demoUri pingBooted)
      (.start pingJobs) reloadEvents = [("probe", 0), ("probe", 60000000000)] := by
    decide +kernel
  obtain ⟨a, hrun⟩ := Option.isSome_iff_exists.1 (show ((appMachine demoUri getCrates
    pingBooted).run (.start pingJobs) reloadEvents).isSome = true by decide +kernel)
  obtain ⟨hspaced, hcount⟩ :=
    reloads_spaced (by decide) (by decide) hrun (by decide) (by decide +kernel)
  rw [hout] at hspaced hcount
  exact ⟨hout, hspaced, hcount⟩

end CronManager

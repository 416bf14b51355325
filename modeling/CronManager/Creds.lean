import CronManager.EnvSafety
import CronManager.Rust.Result
import CronManager.Rust.Slice

/-!
# The credential gate

`enforce_creds` of `src/env_safety.rs` builds a line for every weak credential, in a dev
environment too, and shows the credential in it through `redact`: the first two and the last two
**bytes** of the trimmed value.  The reason next to it names the weak pattern that the value
contains, which shows the characters of that part as well.

* `redact_isSome_iff` : `redact` returns exactly when both cuts fall on character boundaries, and
  then it shows a start and an end of at most two characters (`redact_showsEnds`);
* `reason_showsEnds_iff` : a reason shows no more exactly if it names no pattern, or the value has
  at most four characters;
* `credGate_iff` : `enforce_creds` keeps its contract exactly on the lists whose weak credentials
  can be cut so and have such a reason;
* `credGate_umlaut` : a password with an umlaut as its second letter.
-/

namespace CronManager

open Rust

/-! ### Redaction -/

/-- The two cuts of `redact` fall on character boundaries, or it makes none. -/
def CutsOnBoundaries (v : List Char) : Prop :=
  byteLen v ≤ 4 ∨ (isCharBoundary v 2 = true ∧ isCharBoundary v (byteLen v - 2) = true)

/-- The text shows nothing of `v`, or a start and an end of it of at most two characters each. -/
def ShowsEnds (v shown : List Char) : Prop :=
  shown = "****".toList ∨ ∃ first mid last, v = first ++ mid ++ last ∧
    first.length ≤ 2 ∧ last.length ≤ 2 ∧ shown = first ++ "****".toList ++ last

variable {v shown : List Char}

theorem redact_of_boundaries (hlen : 4 < byteLen v) (hfirst : isCharBoundary v 2 = true)
    (hlast : isCharBoundary v (byteLen v - 2) = true) :
    ∃ first mid last, v = first ++ mid ++ last ∧ byteLen first = 2 ∧ byteLen last = 2 ∧
      redact v = some (first ++ "****".toList ++ last) := by
  obtain ⟨first, mid, last, hv, hf, hm⟩ := exists_parts_of_boundaries (by omega) hfirst hlast
  have hl : byteLen last = 2 := by
    have htotal := congrArg byteLen hv
    rw [byteLen_append, hm] at htotal
    omega
  have hcut : splitAtByte v 2 = some (first, mid ++ last) :=
    splitAtByte_eq_some.2 ⟨by rw [hv, List.append_assoc], hf⟩
  have hcut' : splitAtByte v (byteLen v - 2) = some (first ++ mid, last) :=
    splitAtByte_eq_some.2 ⟨hv, hm⟩
  refine ⟨first, mid, last, hv, hf, hl, ?_⟩
  rw [redact, if_neg (by omega), hcut, hcut']

/-- `redact` returns exactly when its cuts fall on character boundaries. -/
theorem redact_isSome_iff : (redact v).isSome = true ↔ CutsOnBoundaries v := by
  by_cases hlen : byteLen v ≤ 4
  · rw [redact, if_pos hlen]
    exact iff_of_true rfl (.inl hlen)
  · constructor
    · intro h
      rw [redact, if_neg hlen] at h
      refine .inr ⟨?_, ?_⟩
      · by_contra hcut
        rw [isCharBoundary, Bool.not_eq_true, Option.isSome_eq_false_iff,
          Option.isNone_iff_eq_none] at hcut
        simp [hcut] at h
      · by_contra hcut
        rw [isCharBoundary, Bool.not_eq_true, Option.isSome_eq_false_iff,
          Option.isNone_iff_eq_none] at hcut
        cases hfirst : splitAtByte v 2 <;> simp [hcut, hfirst] at h
    · rintro (h | ⟨hfirst, hlast⟩)
      · exact absurd h hlen
      · obtain ⟨first, mid, last, -, -, -, hred⟩ :=
          redact_of_boundaries (Nat.not_le.1 hlen) hfirst hlast
        rw [hred]
        rfl

theorem redact_showsEnds (h : redact v = some shown) : ShowsEnds v shown := by
  have hcuts : CutsOnBoundaries v := redact_isSome_iff.1 (by rw [h]; rfl)
  by_cases hlen : byteLen v ≤ 4
  · rw [redact, if_pos hlen] at h
    exact .inl (Option.some.inj h).symm
  · rcases hcuts with hle | ⟨hfirst, hlast⟩
    · exact absurd hle hlen
    · obtain ⟨first, mid, last, hv, hf, hl, hred⟩ :=
        redact_of_boundaries (Nat.not_le.1 hlen) hfirst hlast
      refine .inr ⟨first, mid, last, hv, ?_, ?_, Option.some.inj (h.symm.trans hred)⟩
      · exact hf ▸ length_le_byteLen first
      · exact hl ▸ length_le_byteLen last

/-! ### The reason -/

/-- The reason shows no character of `v` but the first two and the last two: where a pattern that it
names stands in `v`, letter case aside, there are no others. -/
def WeakReason.ShowsEnds (reason : WeakReason) (v : List Char) : Prop :=
  ∀ p pre mid post, reason = .pattern p → v = pre ++ mid ++ post →
    toAsciiLowercase mid = p.toList →
      ∀ i < mid.length, pre.length + i < 2 ∨ v.length ≤ pre.length + i + 2

theorem isWeak_cases (c : CredCheck) :
    (trim c.value.toList = [] ∧ c.isWeak = some .empty) ∨
      (byteLen (trim c.value.toList) < c.minLen ∧ c.isWeak = some .tooShort) ∨
      (¬ (trim c.value.toList = [] ∨ byteLen (trim c.value.toList) < c.minLen) ∧
        c.isWeak = (weakPatterns.find? fun pat =>
          contains (toAsciiLowercase (trim c.value.toList)) pat.toList).map .pattern) := by
  by_cases hempty : trim c.value.toList = []
  · refine .inl ⟨hempty, ?_⟩
    simp [CredCheck.isWeak, hempty]
  · by_cases hshort : byteLen (trim c.value.toList) < c.minLen
    · refine .inr (.inl ⟨hshort, ?_⟩)
      simp [CredCheck.isWeak, hempty, hshort]
    · refine .inr (.inr ⟨not_or.2 ⟨hempty, hshort⟩, ?_⟩)
      simp [CredCheck.isWeak, hempty, hshort]

/-- A pattern that makes a value weak stands in it, and the value is not weak for its length. -/
theorem exists_of_pattern {c : CredCheck} {p : String} (h : c.isWeak = some (.pattern p)) :
    ¬ (trim c.value.toList = [] ∨ byteLen (trim c.value.toList) < c.minLen) ∧
      p ∈ weakPatterns ∧ ∃ pre mid post, trim c.value.toList = pre ++ mid ++ post ∧
        toAsciiLowercase mid = p.toList := by
  obtain ⟨-, hweak⟩ | ⟨-, hweak⟩ | ⟨hlong, hweak⟩ := isWeak_cases c
  · rw [hweak] at h
    cases h
  · rw [hweak] at h
    cases h
  · rw [hweak] at h
    obtain ⟨p', hfind, hp⟩ := Option.map_eq_some_iff.1 h
    obtain rfl := WeakReason.pattern.inj hp
    refine ⟨hlong, List.mem_of_find?_eq_some hfind, ?_⟩
    have hcontains : contains (toAsciiLowercase (trim c.value.toList)) p'.toList = true := by
      simpa using List.find?_some hfind
    obtain ⟨pre, post, heq⟩ := of_decide_eq_true hcontains
    obtain ⟨v₁, post', hv, hleft, -⟩ := List.map_eq_append_iff.1 heq.symm
    obtain ⟨pre', mid, hv₁, -, hmid⟩ := List.map_eq_append_iff.1 hleft
    exact ⟨pre', mid, post', by rw [hv, hv₁], hmid⟩

theorem reason_showsEnds_iff {c : CredCheck} {reason : WeakReason}
    (h : c.isWeak = some reason) : reason.ShowsEnds (trim c.value.toList) ↔
      trim c.value.toList = [] ∨ byteLen (trim c.value.toList) < c.minLen ∨
        (trim c.value.toList).length ≤ 4 := by
  have hlength (hreason : ∀ p, reason ≠ .pattern p) :
      trim c.value.toList = [] ∨ byteLen (trim c.value.toList) < c.minLen := by
    obtain ⟨hempty, -⟩ | ⟨hshort, -⟩ | ⟨-, hweak⟩ := isWeak_cases c
    · exact .inl hempty
    · exact .inr hshort
    · rw [hweak] at h
      obtain ⟨p, -, hp⟩ := Option.map_eq_some_iff.1 h
      exact absurd hp.symm (hreason p)
  rw [← or_assoc]
  cases reason with
  | empty => exact iff_of_true (by rintro p pre mid post ⟨⟩) (.inl (hlength (by rintro p ⟨⟩)))
  | tooShort => exact iff_of_true (by rintro p pre mid post ⟨⟩) (.inl (hlength (by rintro p ⟨⟩)))
  | pattern p =>
    obtain ⟨hlong, hp, pre, mid, post, hv, hmid⟩ := exists_of_pattern h
    have hthree : ∀ p ∈ weakPatterns, 3 ≤ p.toList.length := by decide
    have hlen : 3 ≤ mid.length := by
      have := hthree p hp
      rwa [← hmid, toAsciiLowercase, List.length_map] at this
    rw [or_iff_right hlong]
    have htotal : (trim c.value.toList).length = pre.length + mid.length + post.length := by
      rw [hv, List.length_append, List.length_append]
    constructor
    · -- the first three characters of the pattern leave no room for a fifth one in the value
      intro hshows
      have hfirst := hshows p pre mid post rfl hv hmid 0 (by omega)
      have hsecond := hshows p pre mid post rfl hv hmid 1 (by omega)
      have hthird := hshows p pre mid post rfl hv hmid 2 (by omega)
      omega
    · intro hfour p' pre' mid' post' _ hv' _ i hi
      have htotal' := congrArg List.length hv'
      rw [List.length_append, List.length_append] at htotal'
      omega

/-! ### The gate -/

/-- The weak credentials, each with the reason. -/
def weakCreds (checks : List CredCheck) : List (CredCheck × WeakReason) :=
  checks.filterMap fun c => c.isWeak.map fun reason => (c, reason)

/-- The text of the refusal. -/
def credRefusal (env : Environment) (failures : List String) : String :=
  let name := env.debug
  let count := failures.length
  let lines := "\n".intercalate failures
  s!"REFUSING TO START in {name}: {count} weak/default credential(s) detected:\n" ++
    s!"{lines}\nRotate these before starting in a non-dev environment. Set APP_ENV=dev " ++
    "(or ENVIRONMENT=dev, DEPLOY_ENV=dev) to permit dev defaults locally."

/-- A line names the field and the reason, and shows the ends of the value at most, in the redacted
value as in the reason. -/
def LineShowsEnds (cr : CredCheck × WeakReason) (line : String) : Prop :=
  cr.2.ShowsEnds (trim cr.1.value.toList) ∧
    ∃ shown, ShowsEnds (trim cr.1.value.toList) shown ∧
      line = "  - " ++ cr.1.context ++ "." ++ cr.1.field ++ " = " ++ String.ofList shown ++
        " (weak: " ++ cr.2.display ++ ")"

/-- The contract of `enforce_creds`: it returns, it refuses exactly a weak credential outside a dev
environment, and the lines that its error and its warnings are made of show the ends of the values
at most. -/
structure CredGate (env : Environment) (checks : List CredCheck) : Prop where
  returns : (enforceCreds env checks).isSome = true
  refuses : (∃ msg, enforceCreds env checks = some (.error msg)) ↔
    env ≠ .dev ∧ ∃ c ∈ checks, c.isWeak.isSome = true
  shows : ∃ lines, credFailures checks = some lines ∧
    List.Forall₂ LineShowsEnds (weakCreds checks) lines ∧
    ∀ msg, enforceCreds env checks = some (.error msg) → msg = credRefusal env lines

variable {env : Environment} {checks : List CredCheck} {lines : List String}

theorem enforceCreds_eq (env : Environment) (checks : List CredCheck) :
    enforceCreds env checks = (credFailures checks).map fun failures =>
      if failures.isEmpty || !env.requiresProdCreds then .ok ()
      else .error (credRefusal env failures) := rfl

theorem mem_weakCreds {cr : CredCheck × WeakReason} :
    cr ∈ weakCreds checks ↔ cr.1 ∈ checks ∧ cr.1.isWeak = some cr.2 := by
  obtain ⟨c, reason⟩ := cr
  simp only [weakCreds, List.mem_filterMap, Option.map_eq_some_iff, Prod.mk.injEq]
  constructor
  · rintro ⟨c', hc', reason', hweak, rfl, rfl⟩
    exact ⟨hc', hweak⟩
  · rintro ⟨hc, hweak⟩
    exact ⟨c, hc, reason, hweak, rfl, rfl⟩

theorem credFailures_isSome_iff : (credFailures checks).isSome = true ↔
    ∀ c ∈ checks, c.isWeak.isSome = true → CutsOnBoundaries (trim c.value.toList) := by
  have hline (cr : CredCheck × WeakReason) :
      (credLine cr.1 cr.2).isSome = true ↔ CutsOnBoundaries (trim cr.1.value.toList) := by
    rw [credLine, Option.isSome_map, redact_isSome_iff]
  show ((weakCreds checks).mapM fun cr => credLine cr.1 cr.2).isSome = true ↔ _
  simp only [isSome_mapM_iff, hline]
  constructor
  · intro h c hc hweak
    obtain ⟨reason, hreason⟩ := Option.isSome_iff_exists.1 hweak
    exact h (c, reason) (mem_weakCreds.2 ⟨hc, hreason⟩)
  · intro h cr hcr
    obtain ⟨hc, hweak⟩ := mem_weakCreds.1 hcr
    exact h cr.1 hc (by rw [hweak]; rfl)

/-- What the lines show, where no reason shows more. -/
theorem credFailures_showsEnds (h : credFailures checks = some lines)
    (hreason : ∀ cr ∈ weakCreds checks, cr.2.ShowsEnds (trim cr.1.value.toList)) :
    List.Forall₂ LineShowsEnds (weakCreds checks) lines := by
  refine (List.forall₂_and_left _ _).2 ⟨hreason, (mapM_eq_some_iff.1 h).imp fun cr line hline => ?_⟩
  obtain ⟨shown, hshown, rfl⟩ := Option.map_eq_some_iff.1 hline
  exact ⟨shown, redact_showsEnds hshown, rfl⟩

theorem reason_of_showsEnds {creds : List (CredCheck × WeakReason)}
    (h : List.Forall₂ LineShowsEnds creds lines) :
    ∀ cr ∈ creds, cr.2.ShowsEnds (trim cr.1.value.toList) := by
  induction h with
  | nil => exact fun cr hcr => absurd hcr List.not_mem_nil
  | cons hline _ ih => exact List.forall_mem_cons.2 ⟨hline.1, ih⟩

theorem credFailures_ne_nil (h : credFailures checks = some lines) :
    lines ≠ [] ↔ ∃ c ∈ checks, c.isWeak.isSome = true := by
  have hlen : (weakCreds checks).length = lines.length := (mapM_eq_some_iff.1 h).length_eq
  have hlines : lines ≠ [] ↔ weakCreds checks ≠ [] := by
    rw [← List.length_pos_iff, ← List.length_pos_iff, hlen]
  rw [hlines]
  constructor
  · intro hne
    obtain ⟨cr, hcr⟩ := List.exists_mem_of_ne_nil _ hne
    obtain ⟨hc, hweak⟩ := mem_weakCreds.1 hcr
    exact ⟨cr.1, hc, by rw [hweak]; rfl⟩
  · rintro ⟨c, hc, hweak⟩
    obtain ⟨reason, hreason⟩ := Option.isSome_iff_exists.1 hweak
    have hmem : (c, reason) ∈ weakCreds checks := mem_weakCreds.2 ⟨hc, hreason⟩
    exact List.ne_nil_of_mem hmem

theorem requiresProdCreds_iff : env.requiresProdCreds = true ↔ env ≠ .dev := by
  cases env <;> simp [Environment.requiresProdCreds]

/-- **When the gate keeps its contract**: exactly if every weak credential has at most four bytes
or character boundaries after its first two and before its last two bytes, and is weak for its
length or has at most four characters. -/
theorem credGate_iff (env : Environment) (checks : List CredCheck) :
    CredGate env checks ↔
      ∀ c ∈ checks, c.isWeak.isSome = true → CutsOnBoundaries (trim c.value.toList) ∧
        (trim c.value.toList = [] ∨ byteLen (trim c.value.toList) < c.minLen ∨
          (trim c.value.toList).length ≤ 4) := by
  constructor
  · intro h c hc hweak
    have hsome := h.returns
    rw [enforceCreds_eq, Option.isSome_map] at hsome
    refine ⟨credFailures_isSome_iff.1 hsome c hc hweak, ?_⟩
    obtain ⟨reason, hreason⟩ := Option.isSome_iff_exists.1 hweak
    obtain ⟨lines, -, hshows, -⟩ := h.shows
    exact (reason_showsEnds_iff hreason).1
      (reason_of_showsEnds hshows (c, reason) (mem_weakCreds.2 ⟨hc, hreason⟩))
  · intro h
    have hreason : ∀ cr ∈ weakCreds checks, cr.2.ShowsEnds (trim cr.1.value.toList) := by
      intro cr hcr
      obtain ⟨hc, hweak⟩ := mem_weakCreds.1 hcr
      exact (reason_showsEnds_iff hweak).2 (h cr.1 hc (by rw [hweak]; rfl)).2
    obtain ⟨lines, hlines⟩ := Option.isSome_iff_exists.1
      (credFailures_isSome_iff.2 fun c hc hweak => (h c hc hweak).1)
    have hgate : enforceCreds env checks = some
        (if lines.isEmpty || !env.requiresProdCreds then .ok ()
          else .error (credRefusal env lines)) := by
      rw [enforceCreds_eq, hlines, Option.map_some]
    refine ⟨by rw [hgate]; rfl, ?_, lines, hlines, credFailures_showsEnds hlines hreason, ?_⟩
    · rw [hgate, ← credFailures_ne_nil hlines, ← requiresProdCreds_iff]
      by_cases hnil : lines = []
      · simp [hnil]
      · cases env.requiresProdCreds <;> simp [hnil]
    · intro msg hmsg
      rw [hgate] at hmsg
      split_ifs at hmsg with hok
      · cases hmsg
      · exact (Except.error.inj (Option.some.inj hmsg)).symm

/-- The reason of this password names the middle of it. -/
example : credFailures [⟨"database", "password", "mypassword12", 12⟩] =
    some ["  - database.password = my****12 (weak: weak-pattern:password)"] := by decide +kernel

/-- A password with an umlaut as its second letter panics, also where it would be permitted. -/
theorem credGate_umlaut :
    enforceCreds .dev [⟨"database", "password", "hässlich", 12⟩] = none ∧
      ¬ ∀ (env : Environment) (checks : List CredCheck), CredGate env checks := by
  have hpanic : enforceCreds .dev [⟨"database", "password", "hässlich", 12⟩] = none := by
    decide +kernel
  refine ⟨hpanic, fun h => ?_⟩
  have hreturns := (h .dev [⟨"database", "password", "hässlich", 12⟩]).returns
  rw [hpanic] at hreturns
  cases hreturns

end CronManager

import CronManager.Executor.Preflight

/-!
# The allow-list of private hosts

The entries of `security.allowed_private_hosts` are brought into a canonical form when the
configuration is read (`normalize_allowed_host`), and the host of a URL is brought into one when
it is compared with them (`is_allowlisted`).  The two are written apart: the first one trims,
lower-cases and looks at every character, the second one only drops dots and ignores the case.

`normalizeAllowedHost_eq_some` says what a canonical name is.  On these the two agree
(`allowlist_canonical`), so the exception for private hosts is open for the listed names and for
no other (`isAllowlisted_split`).
-/

namespace CronManager

open Rust

/-- What `normalize_allowed_host` makes of a text before it looks at it. -/
def foldHost (s : List Char) : List Char :=
  toAsciiLowercase (trimEndMatches (· == '.') s)

/-- A canonical host name. -/
structure CanonicalHost (name : List Char) : Prop where
  ne_nil : name ≠ []
  not_ip : parseIpAddr name = none
  chars : ∀ c ∈ name, (isAsciiAlphanumeric c || c == '-' || c == '.' || c == '_') = true
  folded : foldHost name = name

variable {entry name host : String} {s : List Char}

/-! ### Folding -/

theorem foldHost_eq (s : List Char) :
    foldHost s = trimEndMatches (· == '.') (toAsciiLowercase s) :=
  (trimEndMatches_toAsciiLowercase (fun c => toLower_beq_dot c) s).symm

theorem foldHost_foldHost (s : List Char) : foldHost (foldHost s) = foldHost s := by
  rw [foldHost_eq (foldHost s), foldHost, toAsciiLowercase_idem, ← foldHost, foldHost_eq s]
  exact List.rdropWhile_idempotent _ _

theorem folded_iff : foldHost s = s ↔ toAsciiLowercase s = s ∧ s.getLast? ≠ some '.' := by
  have hdot : trimEndMatches (· == '.') s = s ↔ s.getLast? ≠ some '.' := by
    rw [trimEndMatches_eq_self_iff]
    constructor
    · intro h hlast
      exact absurd (h '.' hlast) (by decide)
    · intro h c hc
      refine beq_eq_false_iff_ne.2 ?_
      rintro rfl
      exact h hc
  rw [← hdot]
  constructor
  · intro h
    have hlower : toAsciiLowercase s = s := by
      rw [← h, foldHost, toAsciiLowercase_idem]
    refine ⟨hlower, ?_⟩
    rw [foldHost_eq, hlower] at h
    exact h
  · rintro ⟨hlower, hdot⟩
    rw [foldHost, hdot, hlower]

/-! ### Canonical names -/

theorem isWhitespace_of_hostChar {c : Char}
    (h : (isAsciiAlphanumeric c || c == '-' || c == '.' || c == '_') = true) :
    isWhitespace c = false := by
  simp only [Bool.or_eq_true, beq_iff_eq] at h
  rcases h with ((h | rfl) | rfl) | rfl
  · simp only [isAsciiAlphanumeric, Bool.or_eq_true, Bool.and_eq_true, decide_eq_true_eq] at h
    simp only [isWhitespace, Bool.or_eq_false_iff, Bool.and_eq_false_iff, decide_eq_false_iff_not,
      beq_eq_false_iff_ne]
    omega
  all_goals decide

theorem CanonicalHost.trim_eq (h : CanonicalHost s) : trim s = s := by
  rw [trim, trimMatches_eq_self_iff]
  exact ⟨fun c hc => isWhitespace_of_hostChar (h.chars c (List.mem_of_head? hc)),
    fun c hc => isWhitespace_of_hostChar (h.chars c (List.mem_of_getLast? hc))⟩

/-- **What `normalize_allowed_host` returns**: the folded text, when it is a canonical name. -/
theorem normalizeAllowedHost_eq_some : normalizeAllowedHost entry = some name ↔
    foldHost (trim entry.toList) = name.toList ∧ CanonicalHost name.toList := by
  show (if (foldHost (trim entry.toList)).isEmpty ||
      (parseIpAddr (foldHost (trim entry.toList))).isSome then none
    else if (foldHost (trim entry.toList)).all fun c =>
        isAsciiAlphanumeric c || c == '-' || c == '.' || c == '_' then
      some (String.ofList (foldHost (trim entry.toList)))
    else none) = some name ↔ _
  have hfolded := foldHost_foldHost (trim entry.toList)
  generalize foldHost (trim entry.toList) = folded at hfolded ⊢
  constructor
  · intro h
    split_ifs at h with hbad hchars
    obtain rfl := Option.some.inj h
    rw [Bool.or_eq_true, not_or] at hbad
    rw [String.toList_ofList]
    refine ⟨rfl, ?_, ?_, List.all_eq_true.1 hchars, hfolded⟩
    · exact fun hnil => hbad.1 (List.isEmpty_iff.2 hnil)
    · exact Option.not_isSome_iff_eq_none.1 hbad.2
  · rintro ⟨rfl, hname⟩
    have hbad : ¬ (name.toList.isEmpty || (parseIpAddr name.toList).isSome) = true := by
      rw [hname.not_ip, Option.isSome_none, Bool.or_false, List.isEmpty_iff]
      exact hname.ne_nil
    rw [if_neg hbad, if_pos (List.all_eq_true.2 hname.chars), String.ofList_toList]

theorem CanonicalHost.normalize (h : CanonicalHost name.toList) :
    normalizeAllowedHost name = some name :=
  normalizeAllowedHost_eq_some.2 ⟨by rw [h.trim_eq, h.folded], h⟩

/-! ### The comparison -/

theorem isAllowlisted_singleton (h : CanonicalHost name.toList) :
    isAllowlisted host [name] = true ↔ foldHost host.toList = name.toList := by
  have hlower : toAsciiLowercase name.toList = name.toList := (folded_iff.1 h.folded).1
  rw [isAllowlisted, List.any_cons, List.any_nil, Bool.or_false, eqIgnoreAsciiCase, hlower,
    beq_iff_eq, eq_comm]
  exact Iff.rfl

/-- **The two canonical forms agree.**  What an entry is normalised to is normalised to itself, has
lower-case letters only, does not end with a dot and is no IP address; and a host without
white space around it is taken for it exactly when it is normalised to it. -/
theorem allowlist_canonical (entry name host : String)
    (hentry : normalizeAllowedHost entry = some name) (hhost : trim host.toList = host.toList) :
    normalizeAllowedHost name = some name ∧ toAsciiLowercase name.toList = name.toList ∧
      name.toList.getLast? ≠ some '.' ∧ parseIpAddr name.toList = none ∧
      (isAllowlisted host [name] = true ↔ normalizeAllowedHost host = some name) := by
  obtain ⟨-, hname⟩ := normalizeAllowedHost_eq_some.1 hentry
  obtain ⟨hlower, hdot⟩ := folded_iff.1 hname.folded
  refine ⟨hname.normalize, hlower, hdot, hname.not_ip, ?_⟩
  rw [isAllowlisted_singleton hname, normalizeAllowedHost_eq_some, hhost]
  exact ⟨fun heq => ⟨heq, hname⟩, fun heq => heq.1⟩

/-- An entry with white space, capitals and dots, a host it is meant for and one below it. -/
theorem allowlist_canonical_service :
    normalizeAllowedHost " Svc.Local.. " = some "svc.local" ∧
      isAllowlisted "SVC.local." ["svc.local"] = true ∧
      isAllowlisted "a.svc.local" ["svc.local"] = false := by
  have hentry : normalizeAllowedHost " Svc.Local.. " = some "svc.local" := by decide
  obtain ⟨-, -, -, -, hmatch⟩ :=
    allowlist_canonical " Svc.Local.. " "svc.local" "SVC.local." hentry (by decide)
  obtain ⟨-, -, -, -, hbelow⟩ :=
    allowlist_canonical " Svc.Local.. " "svc.local" "a.svc.local" hentry (by decide)
  refine ⟨hentry, hmatch.2 (by decide), ?_⟩
  rw [← Bool.not_eq_true, hbelow]
  decide

/-- Against a whole configuration: a host without white space around it is allow-listed exactly
when it has the canonical form of an entry. -/
theorem isAllowlisted_split {sec : SecurityConfig} (hhost : trim host.toList = host.toList) :
    isAllowlisted host sec.splitAllowedPrivateHosts.1 = true ↔
      ∃ entry ∈ sec.allowedPrivateHosts, ∃ name,
        normalizeAllowedHost entry = some name ∧ normalizeAllowedHost host = some name := by
  have hsingle {name : String} : isAllowlisted host [name] =
      eqIgnoreAsciiCase name.toList (trimEndMatches (· == '.') host.toList) := Bool.or_false _
  rw [isAllowlisted, List.any_eq_true]
  constructor
  · rintro ⟨name, hname, heq⟩
    obtain ⟨entry, hentry, hnorm⟩ := List.mem_filterMap.1 hname
    obtain ⟨-, hcanonical⟩ := normalizeAllowedHost_eq_some.1 hnorm
    rw [← hsingle, isAllowlisted_singleton hcanonical, ← hhost] at heq
    exact ⟨entry, hentry, name, hnorm, normalizeAllowedHost_eq_some.2 ⟨heq, hcanonical⟩⟩
  · rintro ⟨entry, hentry, name, hnorm, hsame⟩
    obtain ⟨hfold, hcanonical⟩ := normalizeAllowedHost_eq_some.1 hsame
    refine ⟨name, List.mem_filterMap.2 ⟨entry, hentry, hnorm⟩, ?_⟩
    rw [← hsingle, isAllowlisted_singleton hcanonical, ← hhost]
    exact hfold

end CronManager

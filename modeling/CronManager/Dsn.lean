import CronManager.Config

/-!
# The logged DSN

`main` logs the DSN that `splice_password` builds, after `redact_password` has taken the password
out again.  The two functions cut a URL apart on their own: `splice_password` takes the user to
end at the **last** `@` of the authority, `redact_password` at the **first** `@` behind the scheme,
and `redact_password` alone knows of a `jdbc:` in front.

`redact_splice_iff` says for which URLs the logged text does not depend on the password: those
without a scheme (nothing is spliced in), and those whose scheme is not just `jdbc` and whose user
has no `@` in it.
-/

namespace CronManager

open Rust

/-- `redact_password`. -/
def redactPassword (dsn : List Char) : List Char :=
  let (pre, rest) := match stripPrefix "jdbc:".toList dsn with
    | some inner => ("jdbc:".toList, inner)
    | none => ([], dsn)
  match splitBefore "://".toList rest with
  | none => dsn
  | some (scheme, sepAfter) =>
    match splitBefore ['@'] (sepAfter.drop 3) with
    | none => dsn
    | some (userinfo, tail) =>
      let user := ((splitOnce (· == ':') userinfo).map (·.1)).getD userinfo
      pre ++ scheme ++ "://".toList ++ user ++ ":***".toList ++ tail

/-! ### What is spliced -/

/-- The authority of a URL, from what follows `://`. -/
def dsnAuthority (after : List Char) : List Char × List Char :=
  (splitBefore ['/'] after).getD (after, [])

/-- The user of a URL, from what follows `://`: the authority up to its last `@`, and of that the
part up to the first `:`. -/
def dsnUser (after : List Char) : List Char :=
  let userinfo := ((rsplitOnce (· == '@') (dsnAuthority after).1).map (·.1)).getD []
  userinfo.takeWhile (· != ':')

/-- What follows the password: the host and the rest of the URL. -/
def dsnHost (after : List Char) : List Char :=
  let authority := dsnAuthority after
  ((rsplitOnce (· == '@') authority.1).map (·.2)).getD authority.1 ++ authority.2

theorem splicePassword_of_none {url : List Char} (h : splitBefore "://".toList url = none)
    (password : List Char) : splicePassword url password = url := by
  simp only [splicePassword, h]

theorem splicePassword_of_some {url scheme sepAfter : List Char}
    (h : splitBefore "://".toList url = some (scheme, sepAfter)) (password : List Char) :
    splicePassword url password =
      scheme ++ "://".toList ++ (dsnUser (sepAfter.drop 3) ++ ':' :: (percentEncode password ++
        '@' :: dsnHost (sepAfter.drop 3))) := by
  simp only [splicePassword, h, splitOnce_fst_getD, dsnUser, dsnHost, dsnAuthority]
  cases rsplitOnce (· == '@') ((splitBefore ['/'] (sepAfter.drop 3)).getD
    (sepAfter.drop 3, [])).1 with
  | none => simp
  | some ab => simp [bne]

theorem colon_notMem_dsnUser (after : List Char) : ':' ∉ dsnUser after := by
  intro h
  have := List.mem_takeWhile_imp h
  simp at this

/-- The characters that cut a URL apart. -/
def dsnMarks : List Char := ['@', ':', '/']

theorem digitChar_toUpper_notMem_dsnMarks : ∀ n < 16, (Nat.digitChar n).toUpper ∉ dsnMarks := by
  decide

theorem isAsciiAlphanumeric_dsnMarks : ∀ ch ∈ dsnMarks, isAsciiAlphanumeric ch = false := by
  intro ch hch
  simp only [dsnMarks, List.mem_cons, List.not_mem_nil, or_false] at hch
  rcases hch with rfl | rfl | rfl <;> rfl

/-- **An encoded password holds none of the characters that cut a URL apart.** -/
theorem percentEncode_notMem_dsnMarks {password : List Char} :
    ∀ ch ∈ percentEncode password, ch ∉ dsnMarks := by
  intro ch hch hmark
  obtain ⟨b, -, hb⟩ := List.mem_flatMap.1 hch
  have hlt : b.toNat < 256 := b.toNat_lt
  simp only [percentEncodeByte] at hb
  split_ifs at hb with hplain
  · -- an unreserved character stands for itself
    obtain rfl := List.mem_singleton.1 hb
    rw [isAsciiAlphanumeric_dsnMarks _ hmark, Bool.false_or, decide_eq_true_iff] at hplain
    have hdisjoint : ∀ ch ∈ dsnMarks, ch ∉ ['-', '.', '_', '~'] := by simp [dsnMarks]
    exact hdisjoint _ hmark hplain
  · simp only [List.mem_cons, List.not_mem_nil, or_false] at hb
    rcases hb with rfl | rfl | rfl
    · exact absurd hmark (by decide)
    · exact digitChar_toUpper_notMem_dsnMarks _ (by omega) hmark
    · exact digitChar_toUpper_notMem_dsnMarks _ (by omega) hmark

/-! ### What is redacted -/

/-- A text that starts with `jdbc:` and has a scheme: either `jdbc` is the scheme, or `jdbc:`
stands in front of it. -/
theorem jdbc_prefix_cases {scheme x : List Char}
    (h : "jdbc:".toList <+: scheme ++ "://".toList ++ x) :
    scheme = "jdbc".toList ∨ ∃ inner, scheme = "jdbc:".toList ++ inner := by
  rw [List.append_assoc, show "jdbc:".toList = ['j', 'd', 'b', 'c', ':'] from rfl,
    show "://".toList = [':', '/', '/'] from rfl] at h
  match scheme with
  | [] => simp at h
  | [a] => simp at h
  | [a, b] => simp at h
  | [a, b, c] => simp at h
  | [a, b, c, d] =>
    simp only [List.cons_append, List.nil_append, List.cons_prefix_cons] at h
    obtain ⟨rfl, rfl, rfl, rfl, -⟩ := h
    exact Or.inl rfl
  | a :: b :: c :: d :: e :: inner =>
    simp only [List.cons_append, List.cons_prefix_cons] at h
    obtain ⟨rfl, rfl, rfl, rfl, rfl, -⟩ := h
    exact Or.inr ⟨inner, rfl⟩

theorem redactPassword_of_scheme {scheme after userinfo tail : List Char}
    (hfind : splitBefore "://".toList (scheme ++ "://".toList ++ after) =
      some (scheme, "://".toList ++ after)) (hjdbc : scheme ≠ "jdbc".toList)
    (hat : splitBefore ['@'] after = some (userinfo, tail)) :
    redactPassword (scheme ++ "://".toList ++ after) =
      scheme ++ "://".toList ++ userinfo.takeWhile (· != ':') ++ ":***".toList ++ tail := by
  have hafter : ("://".toList ++ after).drop 3 = after := rfl
  unfold redactPassword
  by_cases hpre : "jdbc:".toList <+: scheme ++ "://".toList ++ after
  · obtain rfl | ⟨inner, rfl⟩ := jdbc_prefix_cases hpre
    · exact absurd rfl hjdbc
    · -- the rest of the search is the same behind the `jdbc:`
      rw [List.append_assoc "jdbc:".toList, List.append_assoc "jdbc:".toList] at hfind ⊢
      have hinner := splitBefore_of_append hfind
      simp only [stripPrefix_append, hinner, hafter, hat, splitOnce_fst_getD]
      simp only [List.append_assoc, bne]
  · have hstrip : stripPrefix "jdbc:".toList (scheme ++ "://".toList ++ after) = none := by
      rw [stripPrefix, if_neg (fun h => hpre (List.isPrefixOf_iff_prefix.1 h))]
    simp only [hstrip, hfind, hafter, hat, splitOnce_fst_getD, List.nil_append, bne]

/-- **A user without `@`**: the password is cut out. -/
theorem redactPassword_hides {scheme user encoded host : List Char}
    (hfind : splitBefore "://".toList
      (scheme ++ "://".toList ++ (user ++ ':' :: (encoded ++ '@' :: host))) =
        some (scheme, "://".toList ++ (user ++ ':' :: (encoded ++ '@' :: host))))
    (hjdbc : scheme ≠ "jdbc".toList) (huser : ':' ∉ user) (hat : '@' ∉ user)
    (hencoded : ∀ ch ∈ encoded, ch ∉ dsnMarks) :
    redactPassword (scheme ++ "://".toList ++ (user ++ ':' :: (encoded ++ '@' :: host))) =
      scheme ++ "://".toList ++ user ++ ":***".toList ++ '@' :: host := by
  have hnotMem : '@' ∉ user ++ ':' :: encoded := by
    intro h
    rcases List.mem_append.1 h with h | h
    · exact hat h
    · rcases List.mem_cons.1 h with h | h
      · exact absurd h (by decide)
      · exact hencoded _ h (by decide)
  have hcut : splitBefore ['@'] (user ++ ':' :: (encoded ++ '@' :: host)) =
      some (user ++ ':' :: encoded, '@' :: host) := by
    have := splitBefore_char (b := host) hnotMem
    simpa only [List.append_assoc, List.cons_append] using this
  have htake : (user ++ ':' :: encoded).takeWhile (· != ':') = user := by
    rw [List.takeWhile_append_of_pos]
    · simp
    · intro ch hch
      rw [bne_iff_ne]
      rintro rfl
      exact huser hch
  rw [redactPassword_of_scheme hfind hjdbc hcut, htake]

/-- The redacted text still holds the encoded password. -/
def Leaks (url : List Char) : Prop :=
  ∃ front back, ∀ password, redactPassword (splicePassword url password) =
    front ++ percentEncode password ++ back

theorem Leaks.distinguishes {url : List Char} (h : Leaks url) :
    redactPassword (splicePassword url []) ≠ redactPassword (splicePassword url ['a']) := by
  obtain ⟨front, back, h⟩ := h
  rw [h, h]
  intro heq
  have hnil : (percentEncode []).length = 0 := rfl
  have hone : (percentEncode ['a']).length = 1 := by decide
  have hlength := congrArg List.length heq
  simp only [List.length_append, hnil, hone] at hlength
  omega

/-- **A user with an `@`**: what is cut out ends before the password. -/
theorem leaks_of_at {url scheme sepAfter : List Char}
    (hurl : splitBefore "://".toList url = some (scheme, sepAfter))
    (hfind : ∀ x, splitBefore "://".toList (scheme ++ "://".toList ++ x) =
      some (scheme, "://".toList ++ x))
    (hjdbc : scheme ≠ "jdbc".toList) (hat : '@' ∈ dsnUser (sepAfter.drop 3)) : Leaks url := by
  obtain ⟨user, more, huser, hfirst⟩ := List.eq_append_cons_of_mem hat
  refine ⟨scheme ++ "://".toList ++ user.takeWhile (· != ':') ++ ":***".toList ++
    '@' :: more ++ [':'], '@' :: dsnHost (sepAfter.drop 3), ?_⟩
  intro password
  rw [splicePassword_of_some hurl, huser, List.append_assoc user, List.cons_append,
    redactPassword_of_scheme (hfind _) hjdbc (splitBefore_char hfirst)]
  simp only [List.append_assoc, List.cons_append, List.nil_append]

/-- Behind `jdbc:`, what is left of the scheme `jdbc` is not one: the search for `://` runs past
the password. -/
theorem splitBefore_jdbc {user encoded host : List Char} (huser : ':' ∉ user)
    (hencoded : ∀ ch ∈ encoded, ch ∉ dsnMarks) :
    splitBefore "://".toList ("//".toList ++ (user ++ ':' :: (encoded ++ '@' :: host))) =
      (splitBefore "://".toList host).map fun ab =>
        ("//".toList ++ (user ++ ':' :: (encoded ++ '@' :: ab.1)), ab.2) := by
  have hslashes : ':' ∉ "//".toList := by decide
  have hpast : ':' ∉ encoded ++ ['@'] := by
    intro h
    rcases List.mem_append.1 h with h | h
    · exact hencoded _ h (by decide)
    · exact absurd h (by decide)
  -- the `:` in front of the password is followed by the password or by `@`
  have hcolon : ¬ "://".toList.isPrefixOf (':' :: ((encoded ++ ['@']) ++ host)) = true := by
    rw [List.isPrefixOf_iff_prefix, show "://".toList = [':', '/', '/'] from rfl,
      List.cons_prefix_cons]
    rintro ⟨-, hslash⟩
    cases encoded with
    | nil => simp at hslash
    | cons ch encoded =>
      simp only [List.cons_append, List.cons_prefix_cons] at hslash
      exact hencoded ch List.mem_cons_self (hslash.1 ▸ by decide)
  have hstep : splitBefore "://".toList (':' :: (encoded ++ '@' :: host)) =
      (splitBefore "://".toList host).map fun ab => (':' :: (encoded ++ '@' :: ab.1), ab.2) := by
    have hassoc : encoded ++ '@' :: host = (encoded ++ ['@']) ++ host := by simp
    rw [hassoc, splitBefore, if_neg hcolon, show "://".toList = ':' :: ['/', '/'] from rfl,
      splitBefore_append_of_notMem hpast, Option.map_map]
    simp [Function.comp_def]
  have hpat : "://".toList = ':' :: ['/', '/'] := rfl
  rw [hpat] at hstep ⊢
  rw [splitBefore_append_of_notMem hslashes, splitBefore_append_of_notMem huser, hstep]
  simp only [Option.map_map, Function.comp_def]

/-- **The scheme `jdbc`**: the DSN is logged as it is, or cut behind the password. -/
theorem leaks_of_jdbc {url sepAfter : List Char}
    (hurl : splitBefore "://".toList url = some ("jdbc".toList, sepAfter)) : Leaks url := by
  set user := dsnUser (sepAfter.drop 3) with huser
  set host := dsnHost (sepAfter.drop 3) with hhost
  have hsplit (password : List Char) := @splitBefore_jdbc user (percentEncode password) host
    (colon_notMem_dsnUser _) percentEncode_notMem_dsnMarks
  have hspliced (password : List Char) : splicePassword url password =
      "jdbc:".toList ++ ("//".toList ++ (user ++ ':' :: (percentEncode password ++
        '@' :: host))) := splicePassword_of_some hurl password
  by_cases hshown : ∀ a b, splitBefore "://".toList host = some (a, b) →
      splitBefore ['@'] (b.drop 3) = none
  · refine ⟨"jdbc:".toList ++ ("//".toList ++ (user ++ [':'])), '@' :: host, ?_⟩
    intro password
    rw [hspliced]
    simp only [redactPassword, stripPrefix_append, hsplit]
    cases hfind : splitBefore "://".toList host with
    | none => simp
    | some ab => simp [hshown ab.1 ab.2 hfind]
  · push Not at hshown
    obtain ⟨a, b, hfind, hat⟩ := hshown
    obtain ⟨cut, hcut⟩ := Option.ne_none_iff_exists'.1 hat
    refine ⟨"jdbc:".toList ++ ("//".toList ++ (user ++ [':'])), '@' :: a ++ "://".toList ++
      cut.1.takeWhile (· != ':') ++ ":***".toList ++ cut.2, ?_⟩
    intro password
    rw [hspliced]
    simp only [redactPassword, stripPrefix_append, hsplit, hfind, Option.map_some, hcut,
      splitOnce_fst_getD, bne]
    simp

/-! ### The logged text and the password -/

/-- The URL has no scheme, or a scheme other than just `jdbc` and a user without `@`. -/
def RedactableUrl (url : List Char) : Prop :=
  ∀ scheme sepAfter, splitBefore "://".toList url = some (scheme, sepAfter) →
    scheme ≠ "jdbc".toList ∧ '@' ∉ dsnUser (sepAfter.drop 3)

/-- The scheme of a URL is found again, whatever follows it. -/
theorem splitBefore_scheme {url scheme sepAfter : List Char}
    (h : splitBefore "://".toList url = some (scheme, sepAfter)) (x : List Char) :
    splitBefore "://".toList (scheme ++ "://".toList ++ x) = some (scheme, "://".toList ++ x) := by
  obtain ⟨heq, after, rfl⟩ := append_of_splitBefore h
  rw [heq, ← List.append_assoc] at h
  exact splitBefore_congr (by decide) h

/-- **When the logged DSN is independent of the password.** -/
theorem redact_splice_iff {url : List Char} :
    (∀ p q, redactPassword (splicePassword url p) = redactPassword (splicePassword url q)) ↔
      RedactableUrl url := by
  cases hurl : splitBefore "://".toList url with
  | none =>
    constructor
    · intro _ scheme sepAfter hsome
      rw [hurl] at hsome
      cases hsome
    · intro _ p q
      rw [splicePassword_of_none hurl, splicePassword_of_none hurl]
  | some parts =>
    obtain ⟨scheme, sepAfter⟩ := parts
    -- whatever is spliced in behind it, the scheme is found again
    have hfind := splitBefore_scheme hurl
    constructor
    · intro hsame scheme' sepAfter' hurl'
      obtain ⟨rfl, rfl⟩ := Prod.mk.inj (Option.some.inj (hurl.symm.trans hurl'))
      by_cases hjdbc : scheme = "jdbc".toList
      · subst hjdbc
        exact absurd (hsame [] ['a']) (leaks_of_jdbc hurl).distinguishes
      · refine ⟨hjdbc, ?_⟩
        intro hat
        exact (leaks_of_at hurl hfind hjdbc hat).distinguishes (hsame [] ['a'])
    · intro hok p q
      obtain ⟨hjdbc, hat⟩ := hok scheme sepAfter hurl
      rw [splicePassword_of_some hurl, splicePassword_of_some hurl,
        redactPassword_hides (hfind _) hjdbc (colon_notMem_dsnUser _) hat
          percentEncode_notMem_dsnMarks,
        redactPassword_hides (hfind _) hjdbc (colon_notMem_dsnUser _) hat
          percentEncode_notMem_dsnMarks]

/-- With the user `svc@srv` the password is in the log. -/
theorem redact_splice_shows_password :
    ¬ ∀ url p q,
      redactPassword (splicePassword url p) = redactPassword (splicePassword url q) := by
  intro h
  have := h "postgres://svc@srv@db/cron".toList "hunter2".toList "swordfish".toList
  exact absurd this (by decide)

end CronManager

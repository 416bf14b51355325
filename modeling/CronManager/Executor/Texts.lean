import CronManager.Executor.Attempts
import CronManager.Sanitize

/-!
# What error texts are made of

The text of a failed attempt ends up in its history row.  Answers of upstream servers and output of
children get into it only through the sanitisers, the rest are texts of the job itself and messages
of other crates and of the operating system.  So none of the bytes that come from outside puts a
NUL into a row, which is the one character that Postgres cannot store (`nulFree_attempt`).
-/

namespace CronManager

open Rust

/-- The text has no NUL. -/
def NulFree (s : String) : Prop := '\x00' ∉ s.toList

instance : DecidablePred NulFree := fun s => inferInstanceAs (Decidable ('\x00' ∉ s.toList))

@[simp] theorem nulFree_append {s t : String} : NulFree (s ++ t) ↔ NulFree s ∧ NulFree t := by
  simp only [NulFree, String.toList_append, List.mem_append, not_or]

@[simp] theorem nulFree_toString {s : String} : NulFree (toString s) ↔ NulFree s := Iff.rfl

theorem nulFree_ofList {s : List Char} : NulFree (String.ofList s) ↔ '\x00' ∉ s := by
  rw [NulFree, String.toList_ofList]

@[simp] theorem nulFree_toString_nat (n : ℕ) : NulFree (toString n) := by
  intro h
  have hdigit : ('\x00').isDigit = true := by
    refine isDigit_decimal (n := n) ?_
    simpa [decimal, toString, Nat.repr] using h
  cases hdigit

@[simp] theorem nulFree_toString_int (n : ℤ) : NulFree (toString n) := by
  cases n with
  | ofNat n => exact nulFree_toString_nat n
  | negSucc n => exact nulFree_append.2 ⟨by decide, nulFree_toString_nat _⟩

/-! ### Errors -/

theorem nulFree_display {m : String} (h : NulFree m) :
    NulFree (CronManagerError.internal m).display ∧
      NulFree (CronManagerError.badRequest m).display ∧
      NulFree (CronManagerError.shellFailed m).display ∧
      NulFree (CronManagerError.io m).display :=
  ⟨nulFree_append.2 ⟨by decide, h⟩, nulFree_append.2 ⟨by decide, h⟩,
    nulFree_append.2 ⟨by decide, h⟩, nulFree_append.2 ⟨by decide, h⟩⟩

theorem nulFree_display_nat (n : ℕ) :
    NulFree (CronManagerError.upstreamTimeout n).display ∧
      NulFree (CronManagerError.upstreamBodyTooLarge n).display ∧
      NulFree (CronManagerError.shellTimeout n).display := by
  refine ⟨?_, ?_, ?_⟩
  · exact nulFree_append.2 ⟨nulFree_append.2 ⟨by decide, nulFree_toString_nat n⟩, by decide⟩
  · exact nulFree_append.2 ⟨nulFree_append.2 ⟨by decide, nulFree_toString_nat n⟩, by decide⟩
  · exact nulFree_append.2 ⟨nulFree_append.2 ⟨by decide, nulFree_toString_nat n⟩, by decide⟩

/-! ### Sanitised text -/

theorem mem_takeBytes {ch : Char} {max : ℕ} {s : List Char} (h : ch ∈ takeBytes max s) :
    ch ∈ s := by
  induction s generalizing max with
  | nil => cases h
  | cons x s ih =>
    unfold takeBytes at h
    split_ifs at h
    · rcases List.mem_cons.1 h with rfl | h
      · exact List.mem_cons_self
      · exact List.mem_cons_of_mem x (ih h)
    · cases h

theorem ne_nul_of_mem_escapeChar {x ch : Char} (h : x ∈ escapeChar ch) : x ≠ '\x00' := by
  rintro rfl
  exact absurd (isRawControl_of_mem_escapeChar h) (by decide)

theorem nulFree_sanitizeForLog (s : List Char) : '\x00' ∉ sanitizeForLog s := by
  intro h
  rcases mem_sanitizeForLogFrom h with ⟨ch, -, hch⟩ | hmark
  · exact ne_nul_of_mem_escapeChar hch rfl
  · exact absurd hmark (by decide)

theorem nulFree_sanitizeForPersistence (s : List Char) : '\x00' ∉ sanitizeForPersistence s := by
  intro h
  obtain ⟨ch, -, hch⟩ := List.mem_flatMap.1 h
  exact ne_nul_of_mem_escapeChar hch rfl

theorem nulFree_truncate {marker : String} {s : List Char} (max : ℕ) (hmarker : NulFree marker)
    (hs : '\x00' ∉ s) : NulFree (truncate marker s max) := by
  unfold truncate
  split_ifs
  · exact nulFree_ofList.2 hs
  · refine nulFree_ofList.2 fun h => ?_
    rcases List.mem_append.1 h with htext | hmark
    · exact hs (mem_takeBytes htext)
    · exact hmarker hmark

/-- **A stored body has no NUL**, whatever the body and the cap. -/
theorem nulFree_truncateResponseBody {s out : List Char} {max : ℕ}
    (h : truncateResponseBody s max = some out) : '\x00' ∉ out := by
  have hclean := nulFree_sanitizeForPersistence s
  rcases truncateResponseBody_eq s max with ⟨-, hout⟩ | ⟨-, head, mid, tail, heq, hout, -⟩
  · obtain rfl := Option.some.inj (h.symm.trans hout)
    exact hclean
  · obtain rfl := Option.some.inj (h.symm.trans hout)
    have hmarker : '\x00' ∉ truncationMarker (byteLen mid) := by
      have hfront : '\x00' ∉ "\n… [".toList := by decide
      have hback : '\x00' ∉ " bytes truncated] …\n".toList := by decide
      have hdigits : '\x00' ∉ decimal (byteLen mid) := fun h => by cases isDigit_decimal h
      simp only [truncationMarker, List.mem_append, not_or]
      exact ⟨⟨hfront, hdigits⟩, hback⟩
    rw [heq] at hclean
    simp only [List.mem_append, not_or] at hclean ⊢
    exact ⟨⟨hclean.1.1, hmarker⟩, hclean.2⟩

/-! ### Addresses -/

theorem nulFree_hexDigits (n : ℕ) : '\x00' ∉ Nat.toDigits 16 n := by
  have hdigit : ∀ d < 16, Nat.digitChar d ≠ '\x00' := by decide
  induction n using Nat.strongRecOn with
  | ind n ih =>
    rcases Nat.lt_or_ge n 16 with hlt | hge
    · rw [Nat.toDigits_of_lt_base hlt, List.mem_singleton]
      exact (hdigit n hlt).symm
    · rw [Nat.toDigits_of_base_le (by decide) hge, List.mem_append, List.mem_singleton]
      rintro (h | h)
      · exact ih (n / 16) (by omega) h
      · exact hdigit (n % 16) (by omega) h.symm

theorem nulFree_hexGroups (ss : List UInt16) : '\x00' ∉ hexGroups ss := by
  unfold hexGroups
  induction ss with
  | nil => exact List.not_mem_nil
  | cons s ss ih =>
    cases ss with
    | nil =>
      rw [List.map_singleton, List.intercalate_singleton]
      exact nulFree_hexDigits s.toNat
    | cons s' ss =>
      rw [List.map_cons, List.map_cons, List.intercalate_cons_cons]
      simp only [List.mem_append, List.mem_singleton, not_or]
      exact ⟨⟨nulFree_hexDigits s.toNat, by decide⟩, ih⟩

theorem nulFree_ipv4 (a : Ipv4Addr) : '\x00' ∉ a.display := by
  have hdigits (n : ℕ) : '\x00' ∉ decimal n := fun h => by cases isDigit_decimal h
  have hdot : '\x00' ≠ '.' := by decide
  simp only [Ipv4Addr.display, List.mem_append, List.mem_cons, not_or]
  exact ⟨⟨⟨hdigits _, hdot, hdigits _⟩, hdot, hdigits _⟩, hdot, hdigits _⟩

theorem nulFree_ip (ip : IpAddr) : '\x00' ∉ ip.display := by
  cases ip with
  | v4 a => exact nulFree_ipv4 a
  | v6 a =>
    simp only [IpAddr.display, Ipv6Addr.display]
    split
    · rename_i v4 _
      have hprefix : '\x00' ∉ "::ffff:".toList := by decide
      exact fun h => (List.mem_append.1 h).elim hprefix (nulFree_ipv4 v4)
    · have hcolons : '\x00' ∉ "::".toList := by decide
      split_ifs
      · simp only [List.mem_append, not_or]
        exact ⟨⟨nulFree_hexGroups _, hcolons⟩, nulFree_hexGroups _⟩
      · exact nulFree_hexGroups _

/-! ### Attempts -/

/-- The messages of the resolver, the client and the transport have no NUL. -/
structure HttpWorld.NulFree (w : HttpWorld) : Prop where
  lookup : ∀ target e, w.lookup target = .error e → CronManager.NulFree e
  send : ∀ e, w.send = .failed e → CronManager.NulFree e
  body : ∀ status body e, w.send = .response status body → body.error = some e →
    CronManager.NulFree e

/-- The messages of the operating system have no NUL. -/
structure ShellWorld.NulFree (w : ShellWorld) : Prop where
  spawn : ∀ n e, w.spawn n = .busy e ∨ w.spawn n = .failed e → CronManager.NulFree e
  wait : ∀ e, w.waitEnd = .failed e → CronManager.NulFree e
  pipes : ∀ e, w.stdout.error = some e ∨ w.stderr.error = some e → CronManager.NulFree e

/-- The messages that the attempts of a dispatch get from other code have no NUL. -/
structure DispatchWorld.NulFree (w : DispatchWorld) : Prop where
  http : ∀ n, (w.attempt n).http.NulFree
  shell : ∀ n, (w.attempt n).shell.NulFree

/-- `url` has no NUL in its messages and its domains. -/
structure Crates.NulFree (c : Crates) : Prop where
  error : ∀ url e, c.urlParse url = .error e → CronManager.NulFree e
  domain : ∀ url u d, c.urlParse url = .ok u → u.host = some (.domain d) →
    CronManager.NulFree d.text

/-- The names in the headers of a job have no NUL. -/
def JobKind.NamesNulFree : JobKind → Prop
  | .http _ _ headers => ∀ h ∈ headers, NulFree h.name ∧ ∀ var, h.source = .env var → NulFree var
  | .exec _ _ => True

/-- The method and the URL of a job have no NUL. -/
def JobKind.TargetNulFree : JobKind → Prop
  | .http method url _ => NulFree method ∧ NulFree url
  | .exec _ _ => True

variable {c : Crates} {b : ExecutorBundle} {err : CronManagerError}

theorem nulFree_preflight {x : HttpExecutor} {url : String} {w : HttpWorld} (hc : c.NulFree)
    (hw : w.NulFree) (hurl : NulFree url) (h : x.preflight c url w.lookup = .error err) :
    NulFree err.display := by
  unfold HttpExecutor.preflight at h
  split_ifs at h
  unfold HttpExecutor.rejectPrivateDns at h
  split at h
  · rename_i e hparse
    obtain rfl := Except.error.inj h
    refine (nulFree_display ?_).1
    simp only [nulFree_append, nulFree_toString, hurl, hc.error url e hparse]
    decide
  rename_i u hparse
  split at h
  · cases h
  rename_i host hhost
  simp only [HttpExecutor.rejectHost] at h
  split_ifs at h with hliteral
  -- an IPv4 literal is not looked up, so the host is a domain or the text of an IPv6 literal
  have hhost' : NulFree host := by
    obtain ⟨hst, hsome, rfl⟩ := Option.map_eq_some_iff.1 hhost
    cases hst with
    | domain d => exact hc.domain url u d hparse hsome
    | ipv4 a => exact nulFree_ofList.2 (nulFree_ipv4 a)
    | ipv6 a =>
      refine nulFree_ofList.2 fun hmem => ?_
      have hbrackets : '\x00' ≠ '[' ∧ '\x00' ≠ ']' := by decide
      rcases List.mem_append.1 hmem with htext | hclose
      · rcases List.mem_cons.1 htext with hopen | htext
        · exact hbrackets.1 hopen
        · exact nulFree_ip (.v6 a) htext
      · exact hbrackets.2 (List.mem_singleton.1 hclose)
  have htarget : NulFree (lookupTarget u host) := by
    simp only [lookupTarget, nulFree_append, nulFree_toString, nulFree_toString_nat, hhost']
    decide
  split at h
  · rename_i e hlookup
    obtain rfl := Except.error.inj h
    refine (nulFree_display ?_).1
    simp only [nulFree_append, nulFree_toString, htarget, hw.lookup _ e hlookup]
    decide
  · split at h
    · rename_i ip _
      obtain rfl := Except.error.inj h
      refine (nulFree_display ?_).2.1
      simp only [nulFree_append, nulFree_toString, nulFree_ofList.2 (nulFree_ip ip), hhost']
      decide
    · cases h

theorem nulFree_headers {env : ProcEnv} {headers : List HttpHeader}
    (hnames : ∀ h ∈ headers, NulFree h.name ∧ ∀ var, h.source = .env var → NulFree var)
    (h : resolveHeaders c env headers = .error err) : NulFree err.display := by
  obtain ⟨header, hmem, h⟩ := mapM_eq_error h
  obtain ⟨hname, hvar⟩ := hnames header hmem
  unfold headerValue at h
  split at h
  · rename_i e hsource
    obtain rfl := Except.error.inj h
    unfold sourceText at hsource
    split at hsource
    · cases hsource
    · rename_i var hheader
      split at hsource
      · cases hsource
      · obtain rfl := Except.error.inj hsource
        refine (nulFree_display ?_).1
        simp only [nulFree_append, nulFree_toString, hname, hvar var hheader]
        decide
  · split_ifs at h
    obtain rfl := Except.error.inj h
    refine (nulFree_display ?_).1
    simp only [nulFree_append, nulFree_toString, hname]
    decide

theorem readBoundedFrom_error {limit : ℕ} {error : Option String} {buf : List UInt8}
    {chunks : List (List UInt8)} (h : readBoundedFrom limit error buf chunks = .error err) :
    err = .upstreamBodyTooLarge limit ∨
      ∃ e, error = some e ∧ err = .internal s!"reading upstream body chunk: {e}" := by
  induction chunks generalizing buf with
  | nil =>
    unfold readBoundedFrom at h
    split at h
    · rename_i e
      exact .inr ⟨e, rfl, (Except.error.inj h).symm⟩
    · cases h
  | cons chunk chunks ih =>
    unfold readBoundedFrom at h
    split_ifs at h
    · exact .inl (Except.error.inj h).symm
    · exact ih h

/-- What comes back over the wire is sanitised before it gets into an error. -/
theorem nulFree_finishSend {x : HttpExecutor} {w : HttpWorld} (hw : w.NulFree)
    (h : x.finishSend w.send = .error err) : NulFree err.display := by
  unfold HttpExecutor.finishSend at h
  split at h
  · obtain rfl := Except.error.inj h
    decide +kernel
  · obtain rfl := Except.error.inj h
    exact (nulFree_display_nat _).1
  · rename_i e hsend
    obtain rfl := Except.error.inj h
    refine (nulFree_display ?_).1
    simp only [nulFree_append, nulFree_toString, hw.send e hsend]
    decide
  · rename_i status body hsend
    split at h
    · rename_i e hread
      obtain rfl := Except.error.inj h
      rcases readBoundedFrom_error (map_eq_error hread) with rfl | ⟨msg, hbody, rfl⟩
      · exact (nulFree_display_nat _).2.1
      · refine (nulFree_display ?_).1
        simp only [nulFree_append, nulFree_toString, hw.body status body msg hsend hbody]
        decide
    · split_ifs at h
      obtain rfl := Except.error.inj h
      refine nulFree_append.2 ⟨?_, nulFree_truncate 1024 (by decide) (nulFree_sanitizeForLog _)⟩
      exact nulFree_append.2 ⟨nulFree_append.2 ⟨by decide, nulFree_toString_nat _⟩, by decide⟩

theorem nulFree_httpExecute {x : HttpExecutor} {method url : String} {headers : List HttpHeader}
    {w : HttpWorld} (hc : c.NulFree) (hw : w.NulFree) (hmethod : NulFree method)
    (hurl : NulFree url)
    (hnames : ∀ h ∈ headers, NulFree h.name ∧ ∀ var, h.source = .env var → NulFree var)
    (h : (x.execute c method url headers w).result = .error err) : NulFree err.display := by
  unfold HttpExecutor.execute at h
  split at h
  · rename_i e hprepare
    obtain rfl := Except.error.inj h
    unfold HttpExecutor.prepare at hprepare
    split at hprepare
    · obtain rfl := Except.error.inj hprepare
      refine (nulFree_display ?_).1
      simp only [nulFree_append, nulFree_toString, hmethod]
      decide
    · unfold HttpExecutor.prepareAs at hprepare
      split at hprepare
      · rename_i e' hpre
        obtain rfl := Except.error.inj hprepare
        exact nulFree_preflight hc hw hurl hpre
      · split at hprepare
        · rename_i e' hheaders
          obtain rfl := Except.error.inj hprepare
          exact nulFree_headers hnames hheaders
        · cases hprepare
  · exact nulFree_finishSend hw h

theorem nulFree_spawnLoop {w : ShellWorld} (hw : w.NulFree) {n attempt : ℕ}
    (h : spawnLoop w.spawn n attempt = .error err) : NulFree err.display := by
  induction n generalizing attempt with
  | zero =>
    obtain rfl := Except.error.inj h
    exact (nulFree_display (by decide)).2.2.2
  | succ n ih =>
    unfold spawnLoop at h
    split at h
    · cases h
    · rename_i e hspawn
      split_ifs at h
      · exact ih h
      · obtain rfl := Except.error.inj h
        exact (nulFree_display (hw.spawn attempt e (.inl hspawn))).2.2.2
    · rename_i e hspawn
      obtain rfl := Except.error.inj h
      exact (nulFree_display (hw.spawn attempt e (.inr hspawn))).2.2.2

theorem capOutputFrom_error {limit : ℕ} {error : Option String} {buf : List UInt8}
    {chunks : List (List UInt8)} (h : capOutputFrom limit error buf chunks = .error err) :
    ∃ e, error = some e ∧ err = .internal s!"reading child pipe: {e}" := by
  induction chunks generalizing buf with
  | nil =>
    unfold capOutputFrom at h
    split at h
    · rename_i e
      exact ⟨e, rfl, (Except.error.inj h).symm⟩
    · cases h
  | cons chunk chunks ih =>
    unfold capOutputFrom at h
    split_ifs at h
    exact ih h

theorem nulFree_capOutput {limit : ℕ} {stream : ByteStream}
    (hstream : ∀ e, stream.error = some e → NulFree e)
    (h : capOutput limit stream = .error err) : NulFree err.display := by
  obtain ⟨e, herror, rfl⟩ := capOutputFrom_error h
  refine (nulFree_display ?_).1
  simp only [nulFree_append, nulFree_toString, hstream e herror]
  decide

theorem nulFree_shellExecute {x : ShellExecutor} {argv allowedEnvs : List String}
    {overrides : List (String × String)} {w : ShellWorld} (hw : w.NulFree)
    (h : (x.execute argv allowedEnvs overrides w).result = .error err) : NulFree err.display := by
  unfold ShellExecutor.execute ShellExecutor.runProgram at h
  split at h
  · obtain rfl := Except.error.inj h
    exact (nulFree_display (by decide)).2.1
  split at h
  · rename_i e hspawn
    obtain rfl := Except.error.inj h
    exact nulFree_spawnLoop hw hspawn
  unfold ShellExecutor.finishWait at h
  split at h
  · rename_i e hwait
    obtain rfl := Except.error.inj h
    exact (nulFree_display (hw.wait e hwait)).2.2.2
  · obtain rfl := Except.error.inj h
    exact (nulFree_display_nat _).2.2
  · obtain rfl := Except.error.inj h
    exact (nulFree_display (by decide)).2.2.1
  · unfold ShellExecutor.finishExit at h
    split at h
    · rename_i e hout
      obtain rfl := Except.error.inj h
      exact nulFree_capOutput (fun e he => hw.pipes e (.inl he)) hout
    split at h
    · rename_i e herr
      obtain rfl := Except.error.inj h
      exact nulFree_capOutput (fun e he => hw.pipes e (.inr he)) herr
    split_ifs at h
    obtain rfl := Except.error.inj h
    refine (nulFree_display ?_).2.2.1
    refine nulFree_append.2 ⟨?_, nulFree_truncate 512 (by decide) (nulFree_sanitizeForLog _)⟩
    simp only [nulFree_append, nulFree_toString, nulFree_toString_int]
    decide

/-- **The error text of an attempt has no NUL**, whatever an upstream server answers and whatever
a child writes. -/
theorem nulFree_attempt {spec : JobSpec} {extras : DispatchExtras} {w : AttemptWorld}
    {r : HttpDispatchResult} (hc : c.NulFree) (hhttp : w.http.NulFree) (hshell : w.shell.NulFree)
    (hnames : spec.kind.NamesNulFree) (htarget : spec.kind.TargetNulFree)
    (h : b.attempt c spec extras w = .error r) : ∀ text, r.errorMessage = some text →
      NulFree text := by
  rintro text htext
  unfold ExecutorBundle.attempt at h
  cases hkind : spec.kind with
  | http method url headers =>
    rw [hkind] at h hnames htarget
    simp only at h
    split at h
    · cases h
    · rename_i e hresult
      obtain rfl := Except.error.inj h
      obtain rfl := Option.some.inj htext
      exact nulFree_httpExecute hc hhttp htarget.1 htarget.2 hnames hresult
  | exec argv allowedEnvs =>
    rw [hkind] at h
    simp only at h
    split at h
    · cases h
    · rename_i e hresult
      obtain rfl := Except.error.inj h
      obtain rfl := Option.some.inj htext
      exact nulFree_shellExecute hshell hresult

end CronManager

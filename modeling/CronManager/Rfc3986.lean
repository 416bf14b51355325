import CronManager.Rust.Net

/-!
# The generic URI syntax

The grammar of RFC 3986, sections 3.1 to 3.4, for URIs of the form

  `scheme ":" "//" [ userinfo "@" ] host [ ":" port ] path-abempty [ "?" query ]`

where the user information is read as `user [ ":" password ]`.  A `Uri` holds the components, its
`text` is put together from them, and `Uri.Valid` says which characters each of them may have.
`Derives url u` : the grammar derives the text `url` from the components `u`.

The characters that separate two components are not allowed in the one in front of them, so that
the grammar is unambiguous (`derives_unique`): a text has one set of components at most.
-/

namespace CronManager

namespace Rfc3986

open Rust

/-! ### Characters -/

/-- `unreserved`. -/
def isUnreserved (c : Char) : Bool := isAsciiAlphanumeric c || ['-', '.', '_', '~'].contains c

/-- `sub-delims`. -/
def isSubDelim (c : Char) : Bool := "!$&'()*+,;=".toList.contains c

/-- `HEXDIG`, which the RFC allows in both cases. -/
def isHexDigit (c : Char) : Bool :=
  isAsciiDigit c || (0x41 ≤ c.toNat && c.toNat ≤ 0x46) || (0x61 ≤ c.toNat && c.toNat ≤ 0x66)

/-- The characters of a registered name and of a user. -/
def isNameChar (c : Char) : Bool := isUnreserved c || isSubDelim c

/-- The characters of a password: the user information may have further colons. -/
def isUserinfoChar (c : Char) : Bool := isNameChar c || c == ':'

/-- `pchar`, without the percent-encoded ones. -/
def isPchar (c : Char) : Bool := isNameChar c || c == ':' || c == '@'

/-- A text of allowed characters and percent-encoded ones. -/
def encodedText (allowed : Char → Bool) : List Char → Bool
  | [] => true
  | c :: s =>
    if c = '%' then
      match s with
      | hi :: lo :: s => isHexDigit hi && isHexDigit lo && encodedText allowed s
      | _ => false
    else allowed c && encodedText allowed s

/-! ### Components -/

/-- The components of a URI. -/
structure Uri where
  scheme : List Char
  /-- The user and the password, if there is user information at all. -/
  userinfo : Option (List Char × Option (List Char))
  host : List Char
  port : Option (List Char)
  path : List Char
  query : Option (List Char)
  deriving DecidableEq, Repr

namespace Uri

/-- The user, empty without user information. -/
def user (u : Uri) : List Char := (u.userinfo.map (·.1)).getD []

/-- The password. -/
def password (u : Uri) : Option (List Char) := u.userinfo.bind (·.2)

/-- `user [ ":" password ]`. -/
def userinfoText : List Char × Option (List Char) → List Char
  | (user, none) => user
  | (user, some password) => user ++ ':' :: password

/-- `[ ":" port ]`. -/
def portText : Option (List Char) → List Char
  | none => []
  | some port => ':' :: port

/-- `host [ ":" port ]`. -/
def hostport (u : Uri) : List Char := u.host ++ portText u.port

/-- `authority`. -/
def authority (u : Uri) : List Char :=
  match u.userinfo with
  | none => u.hostport
  | some info => userinfoText info ++ '@' :: u.hostport

/-- What follows the path. -/
def queryText (u : Uri) : List Char :=
  match u.query with
  | none => []
  | some query => '?' :: query

/-- The text of a URI. -/
def text (u : Uri) : List Char :=
  u.scheme ++ "://".toList ++ (u.authority ++ (u.path ++ u.queryText))

end Uri

/-- `scheme`. -/
def schemeOk : List Char → Bool
  | [] => false
  | c :: s => (isAsciiAlphanumeric c && !isAsciiDigit c) &&
    s.all fun c => isAsciiAlphanumeric c || ['+', '-', '.'].contains c

/-- `IPvFuture`. -/
def ipvFutureOk : List Char → Bool
  | [] => false
  | v :: s => (v == 'v' || v == 'V') && match splitOnce (· == '.') s with
    | none => false
    | some (version, address) => !version.isEmpty && version.all isHexDigit && !address.isEmpty &&
      address.all isUserinfoChar

/-- What stands in the brackets of an `IP-literal`. -/
def ipLiteralOk (s : List Char) : Bool :=
  s.all isUserinfoChar && (ipvFutureOk s || match parseIpAddr s with
    | some (.v6 _) => true
    | _ => false)

/-- `host`: a literal in brackets, or a name, which an IPv4 address is too. -/
def HostOk (host : List Char) : Prop :=
  (∃ literal, host = '[' :: (literal ++ [']']) ∧ ipLiteralOk literal = true) ∨
    encodedText isNameChar host = true

/-- The components are made of the characters the grammar has for them. -/
structure Uri.Valid (u : Uri) : Prop where
  scheme : schemeOk u.scheme = true
  user : encodedText isNameChar u.user = true
  password : ∀ password, u.password = some password → encodedText isUserinfoChar password = true
  host : HostOk u.host
  port : ∀ port, u.port = some port → port.all isAsciiDigit = true
  path : encodedText (fun c => isPchar c || c == '/') u.path = true
  /-- A path after an authority is empty or absolute. -/
  absolute : ∀ c, u.path.head? = some c → c = '/'
  query : ∀ query, u.query = some query →
    encodedText (fun c => isPchar c || c == '/' || c == '?') query = true

/-- The grammar derives the text from the components. -/
def Derives (url : List Char) (u : Uri) : Prop := u.Valid ∧ url = u.text

/-! ### Separators -/

variable {allowed : Char → Bool} {s : List Char} {u v : Uri}

theorem encodedText_cons {c : Char} (hc : c ≠ '%') :
    encodedText allowed (c :: s) = (allowed c && encodedText allowed s) := by
  rw [encodedText.eq_def]
  simp only [if_neg hc]

theorem encodedText_percent {hi lo : Char} :
    encodedText allowed ('%' :: hi :: lo :: s) =
      (isHexDigit hi && isHexDigit lo && encodedText allowed s) := rfl

theorem of_mem_encodedText (h : encodedText allowed s = true) {c : Char} (hc : c ∈ s) :
    allowed c = true ∨ c = '%' ∨ isHexDigit c = true := by
  fun_induction encodedText allowed s with
  | case1 => cases hc
  | case2 hi lo s ih =>
    simp only [Bool.and_eq_true] at h
    rcases List.mem_cons.1 hc with rfl | hc
    · exact .inr (.inl rfl)
    rcases List.mem_cons.1 hc with rfl | hc
    · exact .inr (.inr h.1.1)
    rcases List.mem_cons.1 hc with rfl | hc
    · exact .inr (.inr h.1.2)
    · exact ih h.2 hc
  | case3 s hs => cases h
  | case4 x s hx ih =>
    simp only [Bool.and_eq_true] at h
    rcases List.mem_cons.1 hc with rfl | hc
    · exact .inl h.1
    · exact ih h.2 hc

/-- A separator: none of the characters that stand for themselves everywhere. -/
def isSeparator (c : Char) : Bool := [':', '/', '?', '#', '[', ']', '@'].contains c

theorem notMem_encodedText (h : encodedText allowed s = true) {c : Char}
    (hsep : isSeparator c = true) (hc : allowed c = false) : c ∉ s := by
  intro hmem
  rcases of_mem_encodedText h hmem with hallowed | rfl | hhex
  · rw [hc] at hallowed
    cases hallowed
  · exact absurd hsep (by decide)
  · have hall : [':', '/', '?', '#', '[', ']', '@'].all (fun c => !isHexDigit c) = true := by
      decide
    have hnot := List.all_eq_true.1 hall c (by simpa [isSeparator] using hsep)
    rw [hhex] at hnot
    cases hnot

/-- A text is cut in one way only where a class of characters ends. -/
theorem append_unique {α : Type*} {p : α → Prop} {a a' t t' : List α} (ha : ∀ x ∈ a, p x)
    (ha' : ∀ x ∈ a', p x) (ht : ∀ x, t.head? = some x → ¬ p x)
    (ht' : ∀ x, t'.head? = some x → ¬ p x) (h : a ++ t = a' ++ t') : a = a' ∧ t = t' := by
  induction a generalizing a' with
  | nil =>
    cases a' with
    | nil => exact ⟨rfl, h⟩
    | cons x a' =>
      rw [List.nil_append] at h
      exact absurd (ha' x List.mem_cons_self) (ht x (by rw [h]; rfl))
  | cons x a ih =>
    cases a' with
    | nil =>
      rw [List.nil_append] at h
      exact absurd (ha x List.mem_cons_self) (ht' x (by rw [← h]; rfl))
    | cons y a' =>
      obtain ⟨rfl, hrest⟩ := List.cons.inj h
      obtain ⟨rfl, rfl⟩ := ih (fun z hz => ha z (List.mem_cons_of_mem _ hz))
        (fun z hz => ha' z (List.mem_cons_of_mem _ hz)) hrest
      exact ⟨rfl, rfl⟩

theorem append_cons_unique {c : Char} {a a' t t' : List Char} (ha : c ∉ a) (ha' : c ∉ a')
    (h : a ++ c :: t = a' ++ c :: t') : a = a' ∧ t = t' := by
  have hhead : ∀ (t : List Char) (x : Char), (c :: t).head? = some x → ¬ x ≠ c := by
    intro t x hx
    simpa using (Option.some.inj hx).symm
  obtain ⟨rfl, htail⟩ := append_unique (p := (· ≠ c)) (fun x hx hxc => ha (hxc ▸ hx))
    (fun x hx hxc => ha' (hxc ▸ hx)) (hhead t) (hhead t') h
  exact ⟨rfl, (List.cons.inj htail).2⟩

/-! ### Which separators a component does not have -/

/-- The characters that end an authority, and the one that ends its user information. -/
def endsPart (c : Char) : Bool := ['/', '?', '#', '@'].contains c

theorem isSeparator_of_endsPart {c : Char} (h : endsPart c = true) : isSeparator c = true := by
  simp only [endsPart, List.contains_iff_mem, List.mem_cons, List.not_mem_nil, or_false] at h
  rcases h with rfl | rfl | rfl | rfl <;> decide

theorem isUserinfoChar_of_endsPart {c : Char} (h : endsPart c = true) :
    isUserinfoChar c = false := by
  simp only [endsPart, List.contains_iff_mem, List.mem_cons, List.not_mem_nil, or_false] at h
  rcases h with rfl | rfl | rfl | rfl <;> decide

theorem isNameChar_of_endsPart {c : Char} (h : endsPart c = true) : isNameChar c = false := by
  have hinfo := isUserinfoChar_of_endsPart h
  rw [isUserinfoChar, Bool.or_eq_false_iff] at hinfo
  exact hinfo.1

theorem notMem_scheme {scheme : List Char} (h : schemeOk scheme = true) : ':' ∉ scheme := by
  intro hmem
  cases scheme with
  | nil => cases hmem
  | cons c s =>
    simp only [schemeOk, Bool.and_eq_true, List.all_eq_true] at h
    rcases List.mem_cons.1 hmem with rfl | hmem
    · exact absurd h.1.1 (by decide)
    · exact absurd (h.2 ':' hmem) (by decide)

theorem notMem_host {host : List Char} (h : HostOk host) {c : Char} (hc : endsPart c = true) :
    c ∉ host := by
  rcases h with ⟨literal, rfl, hliteral⟩ | hname
  · simp only [ipLiteralOk, Bool.and_eq_true, List.all_eq_true] at hliteral
    intro hmem
    rcases List.mem_cons.1 hmem with rfl | hmem
    · exact absurd hc (by decide)
    rcases List.mem_append.1 hmem with hmem | hmem
    · have hallowed := hliteral.1 c hmem
      rw [isUserinfoChar_of_endsPart hc] at hallowed
      cases hallowed
    · rw [List.mem_singleton.1 hmem] at hc
      exact absurd hc (by decide)
  · exact notMem_encodedText hname (isSeparator_of_endsPart hc) (isNameChar_of_endsPart hc)

namespace Uri.Valid

theorem notMem_hostport (h : u.Valid) {c : Char} (hc : endsPart c = true) : c ∉ u.hostport := by
  intro hmem
  rcases List.mem_append.1 hmem with hmem | hmem
  · exact notMem_host h.host hc hmem
  · cases hport : u.port with
    | none =>
      rw [hport] at hmem
      cases hmem
    | some port =>
      rw [hport] at hmem
      rcases List.mem_cons.1 hmem with rfl | hmem
      · exact absurd hc (by decide)
      · have hdigit := List.all_eq_true.1 (h.port port hport) c hmem
        simp only [endsPart, List.contains_iff_mem, List.mem_cons, List.not_mem_nil,
          or_false] at hc
        rcases hc with rfl | rfl | rfl | rfl <;> exact absurd hdigit (by decide)

theorem colon_notMem_user (h : u.Valid) : ':' ∉ u.user :=
  notMem_encodedText h.user (by decide) (by decide)

theorem notMem_userinfo (h : u.Valid) {info : List Char × Option (List Char)}
    (hinfo : u.userinfo = some info) {c : Char} (hc : endsPart c = true) :
    c ∉ Uri.userinfoText info := by
  have huser : info.1 = u.user := by rw [Uri.user, hinfo]; rfl
  have hpassword : info.2 = u.password := by rw [Uri.password, hinfo]; rfl
  have hfirst : c ∉ info.1 := by
    rw [huser]
    exact notMem_encodedText h.user (isSeparator_of_endsPart hc) (isNameChar_of_endsPart hc)
  obtain ⟨user, password⟩ := info
  cases password with
  | none => exact hfirst
  | some password =>
    intro hmem
    rcases List.mem_append.1 hmem with hmem | hmem
    · exact hfirst hmem
    rcases List.mem_cons.1 hmem with rfl | hmem
    · exact absurd hc (by decide)
    · exact notMem_encodedText (h.password password hpassword.symm) (isSeparator_of_endsPart hc)
        (isUserinfoChar_of_endsPart hc) hmem

theorem notMem_authority (h : u.Valid) {c : Char} (hc : endsPart c = true) (hat : c ≠ '@') :
    c ∉ u.authority := by
  rw [Uri.authority]
  cases hinfo : u.userinfo with
  | none => exact h.notMem_hostport hc
  | some info =>
    intro hmem
    rcases List.mem_append.1 hmem with hmem | hmem
    · exact h.notMem_userinfo hinfo hc hmem
    rcases List.mem_cons.1 hmem with rfl | hmem
    · exact hat rfl
    · exact h.notMem_hostport hc hmem

end Uri.Valid

/-! ### The grammar is unambiguous -/

theorem portText_injective {p q : Option (List Char)} (h : Uri.portText p = Uri.portText q) :
    p = q := by
  cases p with
  | none =>
    cases q with
    | none => rfl
    | some q => cases h
  | some p =>
    cases q with
    | none => cases h
    | some q => rw [(List.cons.inj h).2]

theorem head_portText {port : Option (List Char)} {c : Char}
    (h : (Uri.portText port).head? = some c) : c = ':' := by
  cases port with
  | none => cases h
  | some port => exact (Option.some.inj h).symm

theorem name_ne_literal {name literal rest : List Char} {port : Option (List Char)}
    (h : encodedText isNameChar name = true) :
    name ++ Uri.portText port ≠ '[' :: literal ++ rest := by
  intro heq
  cases name with
  | nil =>
    rw [List.nil_append] at heq
    exact absurd (head_portText (c := '[') (by rw [heq]; rfl)) (by decide)
  | cons c name =>
    obtain ⟨rfl, -⟩ := List.cons.inj heq
    exact notMem_encodedText h (by decide) (by decide) List.mem_cons_self

theorem hostport_injective {host host' : List Char} {port port' : Option (List Char)}
    (h : HostOk host) (h' : HostOk host')
    (heq : host ++ Uri.portText port = host' ++ Uri.portText port') :
    host = host' ∧ port = port' := by
  rcases h with ⟨literal, rfl, hliteral⟩ | hname
  · rcases h' with ⟨literal', rfl, hliteral'⟩ | hname'
    · -- two literals: both end at the first bracket
      have hbracket : ∀ {l : List Char}, ipLiteralOk l = true → ']' ∉ l := by
        intro l hl hmem
        simp only [ipLiteralOk, Bool.and_eq_true, List.all_eq_true] at hl
        exact absurd (hl.1 ']' hmem) (by decide)
      simp only [List.cons_append, List.append_assoc, List.nil_append, List.cons.injEq,
        true_and] at heq
      obtain ⟨rfl, hport⟩ := append_cons_unique (hbracket hliteral) (hbracket hliteral') heq
      exact ⟨rfl, portText_injective hport⟩
    · exact absurd heq.symm (name_ne_literal hname')
  · rcases h' with ⟨literal', rfl, -⟩ | hname'
    · exact absurd heq (name_ne_literal hname)
    · have hcolon : ∀ {s : List Char}, encodedText isNameChar s = true → ∀ x ∈ s, x ≠ ':' := by
        rintro s hs x hx rfl
        exact notMem_encodedText hs (by decide) (by decide) hx
      obtain ⟨rfl, hport⟩ := append_unique (hcolon hname) (hcolon hname')
        (fun x hx => not_not.2 (head_portText hx)) (fun x hx => not_not.2 (head_portText hx)) heq
      exact ⟨rfl, portText_injective hport⟩

theorem userinfoText_injective {info info' : List Char × Option (List Char)}
    (h : ':' ∉ info.1) (h' : ':' ∉ info'.1)
    (heq : Uri.userinfoText info = Uri.userinfoText info') : info = info' := by
  obtain ⟨user, password⟩ := info
  obtain ⟨user', password'⟩ := info'
  cases password with
  | none =>
    cases password' with
    | none => exact congrArg (·, none) heq
    | some password' =>
      rw [show user = user' ++ ':' :: password' from heq] at h
      exact absurd (List.mem_append_right _ List.mem_cons_self) h
  | some password =>
    cases password' with
    | none =>
      rw [show user' = user ++ ':' :: password from heq.symm] at h'
      exact absurd (List.mem_append_right _ List.mem_cons_self) h'
    | some password' =>
      obtain ⟨rfl, rfl⟩ := append_cons_unique h h' heq
      rfl

namespace Uri.Valid

theorem colon_notMem_userinfo (h : u.Valid) {info : List Char × Option (List Char)}
    (hinfo : u.userinfo = some info) : ':' ∉ info.1 := by
  have huser : info.1 = u.user := by rw [Uri.user, hinfo]; rfl
  rw [huser]
  exact h.colon_notMem_user

theorem authority_injective (hu : u.Valid) (hv : v.Valid) (h : u.authority = v.authority) :
    u.userinfo = v.userinfo ∧ u.host = v.host ∧ u.port = v.port := by
  have hat : endsPart '@' = true := by decide
  rw [Uri.authority, Uri.authority] at h
  cases hinfo : u.userinfo with
  | none =>
    cases hinfo' : v.userinfo with
    | none =>
      rw [hinfo, hinfo'] at h
      exact ⟨rfl, hostport_injective hu.host hv.host h⟩
    | some info' =>
      rw [hinfo, hinfo'] at h
      have hmem : '@' ∈ u.hostport := by
        rw [show u.hostport = _ from h]
        exact List.mem_append_right _ List.mem_cons_self
      exact absurd hmem (hu.notMem_hostport hat)
  | some info =>
    cases hinfo' : v.userinfo with
    | none =>
      rw [hinfo, hinfo'] at h
      have hmem : '@' ∈ v.hostport := by
        rw [show v.hostport = _ from h.symm]
        exact List.mem_append_right _ List.mem_cons_self
      exact absurd hmem (hv.notMem_hostport hat)
    | some info' =>
      rw [hinfo, hinfo'] at h
      obtain ⟨htext, hhost⟩ := append_cons_unique (hu.notMem_userinfo hinfo hat)
        (hv.notMem_userinfo hinfo' hat) h
      rw [userinfoText_injective (hu.colon_notMem_userinfo hinfo)
        (hv.colon_notMem_userinfo hinfo') htext]
      exact ⟨rfl, hostport_injective hu.host hv.host hhost⟩

theorem head_tail (h : u.Valid) {c : Char} (hc : (u.path ++ u.queryText).head? = some c) :
    ¬ (c ≠ '/' ∧ c ≠ '?') := by
  rintro ⟨hslash, hmark⟩
  cases hpath : u.path with
  | nil =>
    rw [hpath, List.nil_append, Uri.queryText] at hc
    cases hquery : u.query with
    | none =>
      rw [hquery] at hc
      cases hc
    | some query =>
      rw [hquery] at hc
      exact hmark (Option.some.inj hc).symm
  | cons x path =>
    rw [hpath] at hc
    obtain rfl := Option.some.inj hc
    exact hslash (h.absolute x (by rw [hpath]; rfl))

theorem path_query_injective (hu : u.Valid) (hv : v.Valid)
    (h : u.path ++ u.queryText = v.path ++ v.queryText) :
    u.path = v.path ∧ u.query = v.query := by
  have hmark : ∀ {w : Uri}, w.Valid → ∀ x ∈ w.path, x ≠ '?' := by
    rintro w hw x hx rfl
    exact notMem_encodedText hw.path (by decide) (by decide) hx
  have hhead : ∀ {w : Uri} (x : Char), w.queryText.head? = some x → ¬ x ≠ '?' := by
    intro w x hx
    rw [Uri.queryText] at hx
    cases hquery : w.query with
    | none =>
      rw [hquery] at hx
      cases hx
    | some query =>
      rw [hquery] at hx
      exact not_not.2 (Option.some.inj hx).symm
  obtain ⟨hpath, hquery⟩ := append_unique (hmark hu) (hmark hv) hhead hhead h
  refine ⟨hpath, ?_⟩
  rw [Uri.queryText, Uri.queryText] at hquery
  cases hq : u.query <;> cases hq' : v.query <;> simp_all

theorem text_injective (hu : u.Valid) (hv : v.Valid) (h : u.text = v.text) : u = v := by
  simp only [Uri.text, List.append_assoc] at h
  obtain ⟨hscheme, hafter⟩ := append_cons_unique (notMem_scheme hu.scheme)
    (notMem_scheme hv.scheme) h
  have hafter' : u.authority ++ (u.path ++ u.queryText) =
      v.authority ++ (v.path ++ v.queryText) := by simpa using hafter
  have hends : ∀ {w : Uri}, w.Valid → ∀ x ∈ w.authority, x ≠ '/' ∧ x ≠ '?' := by
    intro w hw x hx
    constructor
    · rintro rfl
      exact hw.notMem_authority (by decide) (by decide) hx
    · rintro rfl
      exact hw.notMem_authority (by decide) (by decide) hx
  obtain ⟨hauthority, htail⟩ := append_unique (hends hu) (hends hv) (fun _ => hu.head_tail)
    (fun _ => hv.head_tail) hafter'
  obtain ⟨hinfo, hhost, hport⟩ := authority_injective hu hv hauthority
  obtain ⟨hpath, hquery⟩ := path_query_injective hu hv htail
  cases u
  cases v
  simp_all

end Uri.Valid

/-- **A text has one set of components at most.** -/
theorem derives_unique {url : List Char} (hu : Derives url u) (hv : Derives url v) : u = v :=
  hu.1.text_injective hv.1 (hu.2.symm.trans hv.2)

end Rfc3986

end CronManager

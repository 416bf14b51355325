import CronManager.Router.Token

/-!
# Trace ids

`src/traceparent.rs` and `src/access_log.rs`: the two outer layers of the router that read the
inbound `traceparent` header.  The inner one sends a trace id back with the response, the outer one
writes one to the access log.  Each has its own parser of the header and makes up an id of its own
where it does not accept it.

* `extract_eq_iff` : for which header and which random ids the two agree;
* `log_correlates_iff` : they agree whatever the random ids are exactly for the headers that the
  response side accepts;
* `log_uncorrelated` : without a header, and for another version, they differ.
-/

namespace CronManager

open Rust

/-! ### UUIDs -/

/-- `Uuid::new_v4()`: 16 bytes with the version and the variant of a random UUID. -/
structure Uuid where
  bytes : List UInt8
  size : bytes.length = 16
  version : bytes.getD 6 0 >>> 4 = 4
  variant : bytes.getD 8 0 >>> 6 = 2

/-- `simple()`: 32 lower-case hexadecimal digits. -/
def Uuid.simple (u : Uuid) : List Char :=
  u.bytes.flatMap fun b => [Nat.digitChar (b.toNat / 16), Nat.digitChar (b.toNat % 16)]

/-- `full[..16]`. -/
def Uuid.short (u : Uuid) : List Char := u.simple.take 16

/-! ### Messages -/

/-- `HeaderMap`: the fields of a message in their order, with names in lower case. -/
abbrev HeaderMap := List (String × List UInt8)

namespace HeaderMap

/-- `get`: the first value of a name. -/
def get (headers : HeaderMap) (name : String) : Option (List UInt8) := headers.lookup name

/-- `contains_key`. -/
def containsKey (headers : HeaderMap) (name : String) : Bool := (headers.get name).isSome

/-- `insert`: the only value of a name from now on. -/
def insert (headers : HeaderMap) (name : String) (value : List UInt8) : HeaderMap :=
  headers.filter (fun field => field.1 != name) ++ [(name, value)]

end HeaderMap

/-- What the two layers read off a request. -/
structure TracedRequest where
  method : String
  /-- `MatchedPath`: the pattern of the route. -/
  matchedPath : Option String
  headers : HeaderMap

/-- A response, without its body. -/
structure Response where
  status : ℕ
  headers : HeaderMap

/-- `u8::is_ascii_hexdigit`. -/
def isAsciiHexdigit (b : UInt8) : Bool :=
  inRange 0x30 0x39 b || inRange 0x41 0x46 b || inRange 0x61 0x66 b

/-- `parts[1].len() == 32` and all bytes are hexadecimal digits. -/
def isTraceId (id : List Char) : Bool := byteLen id == 32 && (bytes id).all isAsciiHexdigit

/-- The parts of the `traceparent` header, when it is text. -/
def TracedRequest.parts (req : TracedRequest) : Option (List (List Char)) :=
  ((req.headers.get "traceparent").bind headerToStr).map fun tp => tp.splitOn '-'

/-! ### The response side -/

/-- `extract_or_generate_trace_id`, with the UUID it would make up. -/
def extractOrGenerateTraceId (req : TracedRequest) (fresh : Uuid) : List Char :=
  match req.parts with
  | some [version, id, _, _] =>
    if version == "00".toList && isTraceId id &&
      id != "00000000000000000000000000000000".toList then id else fresh.simple
  | _ => fresh.simple

/-- Set a header that is not there yet, if the value is one. -/
def HeaderMap.setAbsent (headers : HeaderMap) (name : String) (value : List Char) : HeaderMap :=
  if headers.containsKey name then headers
  else match headerFromStr value with
    | some hv => headers.insert name hv
    | none => headers

/-- `traceparent_middleware`. -/
def traceparentMiddleware (traceUuid spanUuid : Uuid) (next : TracedRequest → Response)
    (req : TracedRequest) : Response :=
  let traceId := extractOrGenerateTraceId req traceUuid
  let spanId := spanUuid.short
  let response := next req
  let headers := response.headers.setAbsent "traceparent"
    ("00-".toList ++ traceId ++ '-' :: spanId ++ "-01".toList)
  { response with headers := headers.setAbsent "x-trace-id" traceId }

/-! ### The access log -/

/-- The line `http_request_completed`. -/
structure AccessLine where
  method : String
  route : String
  status : ℕ
  durationUs : ℕ
  traceId : List Char
  deriving DecidableEq, Repr

/-- `extract_trace_id`, with the UUID it would make up. -/
def extractTraceId (req : TracedRequest) (fresh : Uuid) : List Char :=
  match req.parts with
  | some [_, id, _, _] => if isTraceId id then id else fresh.short
  | _ => fresh.short

/-- `access_log_middleware`: the response and the line it writes. -/
def accessLogMiddleware (logUuid : Uuid) (durationUs : ℕ) (next : TracedRequest → Response)
    (req : TracedRequest) : Response × AccessLine :=
  let response := next req
  (response, {
    method := req.method
    route := req.matchedPath.getD "<unmatched>"
    status := response.status
    durationUs := durationUs
    traceId := extractTraceId req logUuid })

/-- What the outside world does during one request. -/
structure TraceWorld where
  logUuid : Uuid
  traceUuid : Uuid
  spanUuid : Uuid
  durationUs : ℕ

/-- The two layers as `build` puts them around the rest of the router. -/
def tracedCall (w : TraceWorld) (next : TracedRequest → Response) (req : TracedRequest) :
    Response × AccessLine :=
  accessLogMiddleware w.logUuid w.durationUs (traceparentMiddleware w.traceUuid w.spanUuid next) req

/-! ### Ids that a header carries -/

/-- A text that a header value can hold and that is one part of `traceparent`. -/
structure HeaderId (id : List Char) : Prop where
  text : ∀ ch ∈ id, isHeaderText ch = true
  no_dash : '-' ∉ id

variable {req : TracedRequest} {next : TracedRequest → Response} {w : TraceWorld}
  {id : List Char}

theorem toNat_ofNat_of_lt : ∀ n < 128, (Char.ofNat n).toNat = n := by decide

theorem isHeaderText_of_headerToStr {value : List UInt8} {text : List Char}
    (h : headerToStr value = some text) : ∀ ch ∈ text, isHeaderText ch = true := by
  unfold headerToStr at h
  split_ifs at h with hvisible
  obtain rfl := Option.some.inj h
  intro ch hch
  obtain ⟨b, hb, rfl⟩ := List.mem_map.1 hch
  have hok := List.all_eq_true.1 hvisible b hb
  simp only [Bool.or_eq_true, Bool.and_eq_true, decide_eq_true_eq, beq_iff_eq,
    UInt8.le_iff_toNat_le, UInt8.lt_iff_toNat_lt] at hok
  rcases hok with hrange | rfl
  · have hlt : b.toNat < 127 := hrange.2
    have hnat := toNat_ofNat_of_lt b.toNat (by omega)
    simp only [isHeaderText, hnat, Bool.or_eq_true, Bool.and_eq_true, decide_eq_true_eq]
    exact .inl hrange
  · decide

theorem headerFromStr_text (h : ∀ ch ∈ id, isHeaderText ch = true) :
    headerFromStr id = some (bytes id) := by
  refine if_pos (List.all_eq_true.2 fun b hb => ?_)
  rw [bytes_headerText h] at hb
  obtain ⟨ch, hch, rfl⟩ := List.mem_map.1 hb
  have hok := h ch hch
  have hnat := toNat_headerByte hok
  simp only [isHeaderText, Bool.or_eq_true, Bool.and_eq_true, decide_eq_true_eq, beq_iff_eq] at hok
  simp only [Bool.or_eq_true, Bool.and_eq_true, decide_eq_true_eq, beq_iff_eq, bne_iff_ne, ne_eq,
    UInt8.le_iff_toNat_le, ← UInt8.toNat_inj, hnat]
  rcases hok with hrange | rfl
  · exact .inl ⟨hrange.1, hrange.2.ne⟩
  · exact .inr rfl

theorem headerId_of_parts {parts : List (List Char)} (h : req.parts = some parts)
    (hid : id ∈ parts) : HeaderId id := by
  obtain ⟨tp, htp, rfl⟩ := Option.map_eq_some_iff.1 h
  obtain ⟨value, -, hvalue⟩ := Option.bind_eq_some_iff.1 htp
  constructor
  · intro ch hch
    exact isHeaderText_of_headerToStr hvalue ch (mem_of_mem_splitOn hid hch).1
  · exact fun hdash => (mem_of_mem_splitOn hid hdash).2 rfl

theorem digitChar_spec : ∀ n < 16, isHeaderText (Nat.digitChar n) = true ∧
    Nat.digitChar n ≠ '-' := by decide

theorem headerId_simple (u : Uuid) : HeaderId u.simple := by
  have hdigit : ∀ ch ∈ u.simple, ∃ n < 16, ch = Nat.digitChar n := by
    intro ch hch
    obtain ⟨b, -, hb⟩ := List.mem_flatMap.1 hch
    have hlt := b.toNat_lt
    rcases List.mem_cons.1 hb with rfl | hb
    · exact ⟨b.toNat / 16, by omega, rfl⟩
    · exact ⟨b.toNat % 16, by omega, List.mem_singleton.1 hb⟩
  constructor
  · intro ch hch
    obtain ⟨n, hn, rfl⟩ := hdigit ch hch
    exact (digitChar_spec n hn).1
  · intro hdash
    obtain ⟨n, hn, heq⟩ := hdigit '-' hdash
    exact (digitChar_spec n hn).2 heq.symm

theorem length_simple (u : Uuid) : u.simple.length = 32 := by
  rw [Uuid.simple, List.length_flatMap]
  simp [u.size]

theorem length_short (u : Uuid) : u.short.length = 16 := by
  rw [Uuid.short, List.length_take, length_simple]
  rfl

theorem headerId_short (u : Uuid) : HeaderId u.short where
  text := fun ch hch => (headerId_simple u).text ch (List.mem_of_mem_take hch)
  no_dash := fun hdash => (headerId_simple u).no_dash (List.mem_of_mem_take hdash)

/-! ### What the two sides make of the header -/

/-- The header has four parts, and the second one is a trace id. -/
def TracedRequest.Inherits (req : TracedRequest) (version id : List Char) : Prop :=
  ∃ span flags, req.parts = some [version, id, span, flags] ∧ isTraceId id = true

/-- The header is one that the response side takes over: four parts, of which the first is `00` and
the second 32 hexadecimal digits that are not all zero. -/
def TracedRequest.WellFormed (req : TracedRequest) : Prop :=
  ∃ id, req.Inherits "00".toList id ∧ id ≠ "00000000000000000000000000000000".toList

theorem extractTraceId_of_inherits {version : List Char} (h : req.Inherits version id) (u : Uuid) :
    extractTraceId req u = id := by
  obtain ⟨span, flags, hparts, hid⟩ := h
  unfold extractTraceId
  rw [hparts]
  exact if_pos hid

theorem extractTraceId_of_not (h : ∀ version id, ¬ req.Inherits version id) (u : Uuid) :
    extractTraceId req u = u.short := by
  unfold extractTraceId
  split
  · rename_i version id span flags hparts
    exact if_neg fun hid => h version id ⟨span, flags, hparts, hid⟩
  · rfl

theorem extractOrGenerate_of_inherits (h : req.Inherits "00".toList id)
    (hzero : id ≠ "00000000000000000000000000000000".toList) (u : Uuid) :
    extractOrGenerateTraceId req u = id := by
  obtain ⟨span, flags, hparts, hid⟩ := h
  unfold extractOrGenerateTraceId
  rw [hparts]
  refine if_pos ?_
  rw [hid, Bool.and_true, Bool.and_eq_true]
  exact ⟨beq_self_eq_true _, bne_iff_ne.2 hzero⟩

theorem extractOrGenerate_of_not (h : ¬ req.WellFormed) (u : Uuid) :
    extractOrGenerateTraceId req u = u.simple := by
  unfold extractOrGenerateTraceId
  split
  · rename_i version id span flags hparts
    refine if_neg fun hok => h ?_
    simp only [Bool.and_eq_true, beq_iff_eq, bne_iff_ne] at hok
    obtain ⟨⟨rfl, hid⟩, hzero⟩ := hok
    exact ⟨id, ⟨span, flags, hparts, hid⟩, hzero⟩
  · rfl

theorem headerId_extractOrGenerate (req : TracedRequest) (u : Uuid) :
    HeaderId (extractOrGenerateTraceId req u) := by
  by_cases h : req.WellFormed
  · obtain ⟨id, hinherits, hzero⟩ := h
    rw [extractOrGenerate_of_inherits hinherits hzero]
    obtain ⟨span, flags, hparts, -⟩ := hinherits
    exact headerId_of_parts hparts (by simp)
  · rw [extractOrGenerate_of_not h]
    exact headerId_simple u

/-- **For which header and which random ids the two sides agree**: the header is well-formed, or
the response side has by chance made up the id that only the log takes over. -/
theorem extract_eq_iff (req : TracedRequest) (logUuid traceUuid : Uuid) :
    extractTraceId req logUuid = extractOrGenerateTraceId req traceUuid ↔
      req.WellFormed ∨ ∃ version, req.Inherits version traceUuid.simple := by
  by_cases hformed : req.WellFormed
  · refine iff_of_true ?_ (.inl hformed)
    obtain ⟨id, hinherits, hzero⟩ := hformed
    rw [extractTraceId_of_inherits hinherits, extractOrGenerate_of_inherits hinherits hzero]
  · rw [extractOrGenerate_of_not hformed, or_iff_right hformed]
    by_cases hinherits : ∃ version id, req.Inherits version id
    · obtain ⟨version, id, hinherits⟩ := hinherits
      rw [extractTraceId_of_inherits hinherits]
      constructor
      · rintro rfl
        exact ⟨version, hinherits⟩
      · rintro ⟨version', hchance⟩
        exact (extractTraceId_of_inherits hinherits logUuid).symm.trans
          (extractTraceId_of_inherits hchance logUuid)
    · have hnone : ∀ version id, ¬ req.Inherits version id :=
        fun version id h => hinherits ⟨version, id, h⟩
      rw [extractTraceId_of_not hnone]
      refine iff_of_false (fun heq => ?_) fun ⟨version, h⟩ => hnone version _ h
      -- 16 digits are not 32
      have hlen := congrArg List.length heq
      rw [length_short, length_simple] at hlen
      cases hlen

/-! ### What the response carries -/

namespace HeaderMap

variable {headers : HeaderMap} {name name' : String} {value : List UInt8}

theorem get_insert : (headers.insert name value).get name' =
    if name' = name then some value else headers.get name' := by
  rw [get, get, insert, List.lookup_append, lookup_filter fun n => n != name, lookup_cons_eq]
  by_cases hname : name' = name
  · rw [hname, if_neg (by simp), if_pos rfl, if_pos rfl]
    rfl
  · rw [if_neg hname, if_neg hname, if_pos (bne_iff_ne.2 hname)]
    exact Option.or_none

theorem get_setAbsent {text : List Char} (habsent : headers.containsKey name = false)
    (htext : ∀ ch ∈ text, isHeaderText ch = true) :
    (headers.setAbsent name text).get name' =
      if name' = name then some (bytes text) else headers.get name' := by
  rw [setAbsent, habsent, headerFromStr_text htext]
  exact get_insert

end HeaderMap

/-- `x-trace-id` of a response. -/
def Response.xTraceId (r : Response) : Option (List Char) :=
  (r.headers.get "x-trace-id").bind headerToStr

/-- The second part of the `traceparent` of a response. -/
def Response.traceparentId (r : Response) : Option (List Char) :=
  ((r.headers.get "traceparent").bind headerToStr).bind fun tp => (tp.splitOn '-')[1]?

/-- The handler has set neither header. -/
def Response.Untraced (r : Response) : Prop :=
  r.headers.containsKey "traceparent" = false ∧ r.headers.containsKey "x-trace-id" = false

/-- Both headers of the response carry the id that the log line has. -/
def Correlated (r : Response × AccessLine) : Prop :=
  r.1.traceparentId = some r.2.traceId ∧ r.1.xTraceId = some r.2.traceId

theorem traceparent_eq (id span : List Char) :
    "00-".toList ++ id ++ '-' :: span ++ "-01".toList =
      ['-'].intercalate ["00".toList, id, span, "01".toList] := by
  simp [List.intercalate]

theorem traceparent_text {span : List Char} (hid : HeaderId id) (hspan : HeaderId span) :
    ∀ ch ∈ "00-".toList ++ id ++ '-' :: span ++ "-01".toList, isHeaderText ch = true := by
  have hfront : "00-".toList.all isHeaderText = true := by decide
  have hback : "-01".toList.all isHeaderText = true := by decide
  intro ch hch
  simp only [List.append_assoc, List.cons_append, List.mem_append, List.mem_cons] at hch
  rcases hch with h | h | rfl | h | h
  · exact List.all_eq_true.1 hfront ch h
  · exact hid.text ch h
  · decide
  · exact hspan.text ch h
  · exact List.all_eq_true.1 hback ch h

theorem splitOn_traceparent {span : List Char} (hid : HeaderId id) (hspan : HeaderId span) :
    ("00-".toList ++ id ++ '-' :: span ++ "-01".toList).splitOn '-' =
      ["00".toList, id, span, "01".toList] := by
  rw [traceparent_eq]
  refine List.splitOn_intercalate '-' (fun part hpart => ?_) (List.cons_ne_nil _ _)
  simp only [List.mem_cons, List.not_mem_nil, or_false] at hpart
  rcases hpart with rfl | rfl | rfl | rfl
  · decide
  · exact hid.no_dash
  · exact hspan.no_dash
  · decide

/-- **What the response carries**: the id of the response side, in both headers. -/
theorem ids_of_response (hnext : (next req).Untraced) (traceUuid spanUuid : Uuid) :
    (traceparentMiddleware traceUuid spanUuid next req).traceparentId =
        some (extractOrGenerateTraceId req traceUuid) ∧
      (traceparentMiddleware traceUuid spanUuid next req).xTraceId =
        some (extractOrGenerateTraceId req traceUuid) := by
  have hid := headerId_extractOrGenerate req traceUuid
  have hspan := headerId_short spanUuid
  have htext := traceparent_text hid hspan
  have hheaders : (traceparentMiddleware traceUuid spanUuid next req).headers =
      ((next req).headers.setAbsent "traceparent" ("00-".toList ++
        extractOrGenerateTraceId req traceUuid ++ '-' :: spanUuid.short ++
          "-01".toList)).setAbsent "x-trace-id" (extractOrGenerateTraceId req traceUuid) := rfl
  -- setting the first header does not bring in the second one
  have habsent : ((next req).headers.setAbsent "traceparent" ("00-".toList ++
      extractOrGenerateTraceId req traceUuid ++ '-' :: spanUuid.short ++
        "-01".toList)).containsKey "x-trace-id" = false := by
    rw [HeaderMap.containsKey, HeaderMap.get_setAbsent hnext.1 htext, if_neg (by decide)]
    exact hnext.2
  constructor
  · rw [Response.traceparentId, hheaders, HeaderMap.get_setAbsent habsent hid.text,
      if_neg (by decide), HeaderMap.get_setAbsent hnext.1 htext, if_pos rfl, Option.bind_some,
      headerToStr_bytes htext, Option.bind_some, splitOn_traceparent hid hspan]
    rfl
  · rw [Response.xTraceId, hheaders, HeaderMap.get_setAbsent habsent hid.text, if_pos rfl,
      Option.bind_some, headerToStr_bytes hid.text]

/-- A log line can be correlated with its response when the two parsers agree. -/
theorem correlated_iff (hnext : (next req).Untraced) : Correlated (tracedCall w next req) ↔
    extractTraceId req w.logUuid = extractOrGenerateTraceId req w.traceUuid := by
  obtain ⟨htraceparent, hxTraceId⟩ := ids_of_response hnext w.traceUuid w.spanUuid
  have htraceparent' : (tracedCall w next req).1.traceparentId = _ := htraceparent
  have hxTraceId' : (tracedCall w next req).1.xTraceId = _ := hxTraceId
  rw [Correlated, htraceparent', hxTraceId', and_self, Option.some.injEq, eq_comm]
  exact Iff.rfl

/-! ### The result -/

/-- A UUID with a given first byte. -/
def uuidFrom (first : UInt8) : Uuid where
  bytes := [first, 0, 0, 0, 0, 0, 0x40, 0, 0x80, 0, 0, 0, 0, 0, 0, 0]
  size := rfl
  version := by
    show (0x40 : UInt8) >>> 4 = 4
    decide
  variant := by
    show (0x80 : UInt8) >>> 6 = 2
    decide

/-- **A log line can be correlated with its response**, whatever the random ids, exactly when the
inbound header is well-formed, for every handler that sets no trace headers. -/
theorem log_correlates_iff (req : TracedRequest) (next : TracedRequest → Response)
    (hnext : (next req).Untraced) :
    (∀ w, Correlated (tracedCall w next req)) ↔ req.WellFormed := by
  constructor
  · intro h
    by_contra hformed
    -- two draws of the response side would have to give the same id
    have hchance (u : Uuid) : ∃ version, req.Inherits version u.simple := by
      have hw := (correlated_iff hnext).1 (h ⟨u, u, u, 0⟩)
      exact ((extract_eq_iff req u u).1 hw).resolve_left hformed
    obtain ⟨version, h₀⟩ := hchance (uuidFrom 0)
    obtain ⟨version', h₁⟩ := hchance (uuidFrom 1)
    have heq := (extractTraceId_of_inherits h₀ (uuidFrom 0)).symm.trans
      (extractTraceId_of_inherits h₁ (uuidFrom 0))
    exact absurd heq (by decide)
  · intro h w
    exact (correlated_iff hnext).2 ((extract_eq_iff req w.logUuid w.traceUuid).2 (.inl h))

/-- A request for `/health` with the given headers. -/
def healthRequest (headers : HeaderMap) : TracedRequest := ⟨"GET", some "/health", headers⟩

/-- A handler that sets no headers. -/
def plainHandler (_ : TracedRequest) : Response := ⟨200, []⟩

/-- A request with the given `traceparent`. -/
def tracedRequest (traceparent : String) : TracedRequest :=
  healthRequest [("traceparent", bytes traceparent.toList)]

/-- Random ids. -/
def demoTraces : TraceWorld := ⟨uuidFrom 1, uuidFrom 2, uuidFrom 3, 1234⟩

/-- A request with a well-formed header. -/
def inheritingRequest : TracedRequest :=
  tracedRequest "00-0af7651916cd43dd8448eb211c80319c-b7ad6b7169203331-01"

theorem log_correlates_inherited :
    inheritingRequest.WellFormed ∧
      ∀ w, Correlated (tracedCall w plainHandler inheritingRequest) := by
  have hformed : inheritingRequest.WellFormed :=
    ⟨"0af7651916cd43dd8448eb211c80319c".toList,
      ⟨"b7ad6b7169203331".toList, "01".toList, by decide +kernel, by decide +kernel⟩, by decide⟩
  exact ⟨hformed, (log_correlates_iff inheritingRequest plainHandler ⟨rfl, rfl⟩).2 hformed⟩

/-- Without a header the log makes up 16 digits and the response 32; a header of another version
is inherited by the log alone. -/
theorem log_uncorrelated :
    (plainHandler (healthRequest [])).Untraced ∧
      ((tracedCall demoTraces plainHandler (healthRequest [])).2.traceId =
          "0100000000004000".toList ∧
        (tracedCall demoTraces plainHandler (healthRequest [])).1.xTraceId =
          some "02000000000040008000000000000000".toList) ∧
      ((tracedCall demoTraces plainHandler (tracedRequest
            "01-0af7651916cd43dd8448eb211c80319c-b7ad6b7169203331-01")).2.traceId =
          "0af7651916cd43dd8448eb211c80319c".toList ∧
        (tracedCall demoTraces plainHandler (tracedRequest
            "01-0af7651916cd43dd8448eb211c80319c-b7ad6b7169203331-01")).1.xTraceId =
          some "02000000000040008000000000000000".toList) ∧
      ¬ ∀ (w : TraceWorld) (next : TracedRequest → Response) (req : TracedRequest),
        (next req).Untraced → Correlated (tracedCall w next req) := by
  refine ⟨⟨rfl, rfl⟩, by decide +kernel, by decide +kernel, fun h => ?_⟩
  have hx := (h demoTraces plainHandler (healthRequest []) ⟨rfl, rfl⟩).2
  exact absurd hx (by decide +kernel)

end CronManager

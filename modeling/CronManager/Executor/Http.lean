import CronManager.Dsl.Raw
import CronManager.Error
import CronManager.Security

/-!
# The HTTP executor

`HttpExecutor::execute` of `src/executor/http.rs`, as a function of what the outside world does
during one attempt (`HttpWorld`): the answers of the resolver, the process environment, how
`send()` ends and the bytes of the body.

`prepare` is everything before `send()`: the method, the SSRF pre-flight and the headers.  Only
when it succeeds is a request sent, and then `finishSend` maps what comes back.
-/

namespace CronManager

open Rust

/-- `HttpExecutor`, without the client handle. -/
structure HttpExecutor where
  maxResponseBytes : ℕ
  timeoutSecs : ℕ
  blockPrivateNetworks : Bool
  allowedPrivateHosts : List String
  deriving DecidableEq, Repr

/-- A single successful attempt. -/
structure HttpAttempt where
  status : ℕ
  body : String
  deriving DecidableEq, Repr

/-- A stream of byte chunks that ends normally or with a read error. -/
structure ByteStream where
  chunks : List (List UInt8)
  error : Option String
  deriving DecidableEq, Repr

/-- How the select of `send()` against `cancel.notified()` ends. -/
inductive SendEnd where
  | response (status : ℕ) (body : ByteStream)
  | timeout
  | failed (error : String)
  | cancelled
  deriving DecidableEq, Repr

/-- What the outside world does during one HTTP attempt. -/
structure HttpWorld where
  /-- The answer of the pre-flight's own lookup of a target `host:port`. -/
  lookup : String → Except String (List IpAddr)
  /-- The addresses the client's own resolution of a domain gives at `send()`. -/
  clientLookup : String → List IpAddr
  env : ProcEnv
  send : SendEnd

/-- The request handed to the client: its headers are resolved, and `targets` are the addresses
the client may connect to. -/
structure HttpRequest where
  method : String
  url : String
  headers : List (String × String)
  targets : List IpAddr
  deriving DecidableEq, Repr

/-- What one attempt sent and returned. -/
structure HttpRun where
  sent : Option HttpRequest
  result : Except CronManagerError HttpAttempt

/-! ### The SSRF pre-flight -/

/-- `is_allowlisted`. -/
def isAllowlisted (host : String) (allowed : List String) : Bool :=
  allowed.any fun a => eqIgnoreAsciiCase a.toList (trimEndMatches (· == '.') host.toList)

/-- `ssrf_refuses`. -/
def ssrfRefuses (ip : IpAddr) (allowlisted : Bool) : Bool :=
  if allowlisted then isAlwaysBlocked ip else isPrivateOrLocal ip

variable (c : Crates) (x : HttpExecutor)

/-- The `host:port` text that the pre-flight looks up. -/
def lookupTarget (u : Url) (host : String) : String :=
  let port := u.port.getD (if u.scheme = "https" then 443 else 80)
  s!"{host}:{port}"

/-- `reject_private_dns`, once the URL has been parsed and has a host. -/
def HttpExecutor.rejectHost (u : Url) (host : String)
    (lookup : String → Except String (List IpAddr)) : Except CronManagerError Unit :=
  -- an IPv4 literal: the text of an IPv6 one is bracketed and is looked up
  if (parseIpAddr host.toList).isSome then .ok ()
  else
    let target := lookupTarget u host
    match lookup target with
    | .error e => .error (.internal s!"dns lookup {target}: {e}")
    | .ok addrs =>
      match addrs.find? fun ip => ssrfRefuses ip (isAllowlisted host x.allowedPrivateHosts) with
      | some ip =>
        let text := String.ofList ip.display
        .error (.badRequest (s!"hostname '{host}' resolves to non-routable IP {text} " ++
          "(SSRF pre-flight); list the host in security.allowed_private_hosts to allow"))
      | none => .ok ()

/-- `reject_private_dns`. -/
def HttpExecutor.rejectPrivateDns (url : String)
    (lookup : String → Except String (List IpAddr)) : Except CronManagerError Unit :=
  match c.urlParse url with
  | .error e => .error (.internal s!"re-parsing url '{url}': {e}")
  | .ok u => match u.hostStr with
    | none => .ok ()
    | some host => x.rejectHost u host lookup

/-! ### Headers -/

/-- The text a header source stands for at fire time. -/
def sourceText (env : ProcEnv) (h : HttpHeader) : Except CronManagerError String :=
  match h.source with
  | .literal v => .ok v
  | .env var => match env var with
    | some v => .ok v
    | none => .error (.internal s!"header '{h.name}' needs env var '{var}', which is not set")

/-- The name and value of one header at fire time. -/
def headerValue (env : ProcEnv) (h : HttpHeader) : Except CronManagerError (String × String) :=
  match sourceText env h with
  | .error e => .error e
  | .ok v => if c.headerValueOk v then .ok (h.name, v)
    else .error (.internal s!"header '{h.name}' has an invalid value")

/-- The header loop of `execute`. -/
def resolveHeaders (env : ProcEnv) (headers : List HttpHeader) :
    Except CronManagerError (List (String × String)) :=
  headers.mapM (headerValue c env)

/-! ### Reading and mapping the response -/

/-- The loop of `read_bounded`, with `buf` read so far. -/
def readBoundedFrom (limit : ℕ) (error : Option String) :
    List UInt8 → List (List UInt8) → Except CronManagerError (List UInt8)
  | buf, [] => match error with
    | some e => .error (.internal s!"reading upstream body chunk: {e}")
    | none => .ok buf
  | buf, chunk :: chunks =>
    if limit < buf.length + chunk.length then .error (.upstreamBodyTooLarge limit)
    else readBoundedFrom limit error (buf ++ chunk) chunks

/-- `read_bounded`: the body as text, or an error as soon as it crosses `limit`. -/
def readBounded (limit : ℕ) (body : ByteStream) : Except CronManagerError String :=
  (readBoundedFrom limit body.error [] body.chunks).map fun bs => String.ofList (fromUtf8Lossy bs)

/-- The longest start of a text that has at most `max` bytes. -/
def takeBytes : ℕ → List Char → List Char
  | _, [] => []
  | max, ch :: s => if byteLen [ch] ≤ max then ch :: takeBytes (max - byteLen [ch]) s else []

/-- `truncate`, with the marker its caller appends. -/
def truncate (marker : String) (s : List Char) (max : ℕ) : String :=
  if byteLen s ≤ max then String.ofList s
  else String.ofList (takeBytes max s ++ marker.toList)

/-- What `execute` does once the select on `send()` has ended. -/
def HttpExecutor.finishSend : SendEnd → Except CronManagerError HttpAttempt
  | .cancelled => .error (.internal "aborted by /stop before response")
  | .timeout => .error (.upstreamTimeout x.timeoutSecs)
  | .failed e => .error (.internal s!"upstream request: {e}")
  | .response status body => match readBounded x.maxResponseBytes body with
    | .error e => .error e
    | .ok text =>
      -- redirects are not followed: a 3xx answer is an error too
      if 200 ≤ status ∧ status < 300 then .ok ⟨status, text⟩
      else .error (.upstreamHttpError status
        (truncate "… (truncated)" (sanitizeForLog text.toList) 1024))

/-! ### One attempt -/

/-- The addresses the client may connect to: it resolves a domain itself. -/
def connectTargets (clientLookup : String → List IpAddr) : Option Host → List IpAddr
  | some (.ipv4 a) => [.v4 a]
  | some (.ipv6 a) => [.v6 a]
  | some (.domain d) => clientLookup d.text
  | none => []

/-- The pre-flight, when `security.block_private_networks` is on. -/
def HttpExecutor.preflight (url : String) (lookup : String → Except String (List IpAddr)) :
    Except CronManagerError Unit :=
  if x.blockPrivateNetworks then x.rejectPrivateDns c url lookup else .ok ()

/-- What comes before `send()` once the method is known. -/
def HttpExecutor.prepareAs (m url : String) (headers : List HttpHeader) (w : HttpWorld) :
    Except CronManagerError HttpRequest :=
  match x.preflight c url w.lookup with
  | .error e => .error e
  | .ok () => match resolveHeaders c w.env headers with
    | .error e => .error e
    | .ok hs =>
      let host := match c.urlParse url with
        | .ok u => u.host
        | .error _ => none
      .ok ⟨m, url, hs, connectTargets w.clientLookup host⟩

/-- Everything before `send()`. -/
def HttpExecutor.prepare (method url : String) (headers : List HttpHeader) (w : HttpWorld) :
    Except CronManagerError HttpRequest :=
  match c.methodFromBytes method with
  | none => .error (.internal s!"unknown HTTP method '{method}'")
  | some m => x.prepareAs c m url headers w

/-- `HttpExecutor::execute`. -/
def HttpExecutor.execute (method url : String) (headers : List HttpHeader) (w : HttpWorld) :
    HttpRun :=
  match x.prepare c method url headers w with
  | .error e => ⟨none, .error e⟩
  | .ok req => ⟨some req, x.finishSend w.send⟩

end CronManager

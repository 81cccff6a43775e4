import DataQ.Foundations.Text
import DataQ.Foundations.Windows
import Mathlib.Data.List.Basic

/-! # The rate limit middleware

`core/rate_limit.py`: the address that a request is taken to come from, the class and the bucket
that it is counted in, and whether it is let through. The counters are there; the minute is in their
keys. -/

namespace DataQ.RateLimit
open DataQ.Windows
set_option autoImplicit false

def windowSeconds : ℕ := 60

/-- What the middleware takes of `ipaddress` and `hashlib`. -/
structure Library (Address : Type) where
  ipAddress : Text → Option Address
  version : Address → ℕ
  ipv4Mapped : Address → Option Address
  network : Address → ℕ → Text
  sha256 : Text → Text

structure Settings where
  enabled : Bool
  authenticatedPerMinute : ℕ
  unauthenticatedPerMinute : ℕ
  webhookPerMinute : ℕ
  webhookIpPerMinute : ℕ
  authPerMinute : ℕ
  llmPerMinute : ℕ
  llmIpPerMinute : ℕ
  ipPerMinute : ℕ
  telemetryPerMinute : ℕ
  xffTrustedHops : ℕ
  ipv4Prefix : ℕ
  ipv6Prefix : ℕ

/-- A request, with the headers that are read of it and the host of its peer. -/
structure Request where
  method : Text
  path : Text
  origin : Bool
  accessControlRequestMethod : Bool
  authorization : Text
  forwardedFor : Option Text
  client : Option Text

inductive Class
  | webhook | auth | llm | telemetry | default | unauth
  deriving DecidableEq

def Class.name : Class → Text
  | .webhook => "webhook".toList
  | .auth => "auth".toList
  | .llm => "llm".toList
  | .telemetry => "telemetry".toList
  | .default => "default".toList
  | .unauth => "unauth".toList

def exemptPaths : List Text := ["/healthz".toList]
def webhookPrefix : Text := "/api/v1/orchestration/events/".toList
def authPrefix : Text := "/api/v1/auth/".toList
def llmPrefix : Text := "/api/v1/llm".toList
def llmExtraPaths : List Text := ["/api/v1/admin/llm/test".toList]
def telemetryPrefix : Text := "/api/v1/telemetry".toList
def mutatingMethods : List Text := ["POST".toList, "PUT".toList, "PATCH".toList, "DELETE".toList]
def webhookProviders : List Text := ["adf".toList, "airflow".toList, "dbt".toList]

/-- `_bearer_token`. -/
def bearerToken (request : Request) : Option Text :=
  let scheme := request.authorization.takeWhile fun c => c ≠ ' '
  let token := pyStrip ((request.authorization.dropWhile fun c => c ≠ ' ').drop 1)
  if lower scheme = "bearer".toList ∧ token ≠ [] then some token else none

section Address
variable {Address : Type} (library : Library Address) (settings : Settings)

/-- `_IPV4_PORT_RE`, of ASCII digits: an address has no others. -/
def stripIpv4Port (host : Text) : Text :=
  let address := host.takeWhile fun c => c ≠ ':'
  let port := (host.dropWhile fun c => c ≠ ':').drop 1
  let parts := address.splitOn '.'
  if parts.length = 4 ∧ (∀ part ∈ parts, part ≠ [] ∧ part.length ≤ 3 ∧ part.all Char.isDigit) ∧
      port ≠ [] ∧ port.all Char.isDigit then address
  else host

def forwardedEntries (header : Text) : List Text := (header.splitOn ',').map pyStrip

/-- The entry that the outermost trusted proxy appended, where it is an address. -/
def trustedEntry (header : Option Text) : Option Text :=
  match header with
  | none => none
  | some header =>
    if header = [] ∨ settings.xffTrustedHops = 0 then none
    else
      let entries := forwardedEntries header
      if settings.xffTrustedHops ≤ entries.length then
        let candidate := stripIpv4Port (entries.getD (entries.length - settings.xffTrustedHops) [])
        if candidate ≠ [] ∧ (library.ipAddress candidate).isSome then some candidate else none
      else none

def peerHost : Option Text → Text
  | some (c :: host) => c :: host
  | _ => "unknown".toList

/-- `_client_ip`. -/
def clientIp (request : Request) : Text :=
  match trustedEntry library settings request.forwardedFor with
  | some candidate => candidate
  | none => peerHost request.client

/-- `_bucket_ip`. -/
def bucketIp (ip : Text) : Text :=
  match library.ipAddress ip with
  | none => ip
  | some address =>
    let address :=
      if library.version address = 6 then (library.ipv4Mapped address).getD address else address
    let length := if library.version address = 4 then settings.ipv4Prefix else settings.ipv6Prefix
    library.network address length

/-- The bucket of a request's address. -/
def addressBucket (request : Request) : Text :=
  bucketIp library settings (clientIp library settings request)

end Address

section Policy
variable {Address : Type} (library : Library Address) (settings : Settings)

/-- The class of a request, its limit and its bucket. -/
structure Policy where
  cls : Class
  limit : ℕ
  key : Text

def tokenKey (bearer : Text) : Text := "tok:".toList ++ (library.sha256 bearer).take 32

def addressKey (ip : Text) : Text := "ip:".toList ++ ip

/-- The bucket of a bearer, or of the address where there is none. -/
def bearerKey (bearer : Option Text) (ip : Text) : Text :=
  match bearer with
  | some bearer => tokenKey library bearer
  | none => addressKey ip

/-- The segment of a webhook's path that names a known provider. -/
def webhookProvider (path : Text) : Option Text :=
  let provider := (path.drop webhookPrefix.length).takeWhile fun c => c ≠ '/'
  if provider ∈ webhookProviders then some provider else none

def webhookKey (provider : Option Text) (ip : Text) : Text :=
  match provider with
  | some provider => provider ++ ":".toList ++ addressKey ip
  | none => addressKey ip

/-- `_resolve_policy`. -/
def resolvePolicy (path method : Text) (bearer : Option Text) (ip : Text) : Policy :=
  if webhookPrefix.isPrefixOf path then
    ⟨.webhook, settings.webhookPerMinute, webhookKey (webhookProvider path) ip⟩
  else if authPrefix.isPrefixOf path then ⟨.auth, settings.authPerMinute, addressKey ip⟩
  else if (llmPrefix.isPrefixOf path || path ∈ llmExtraPaths) && method ∈ mutatingMethods then
    ⟨.llm, settings.llmPerMinute, bearerKey library bearer ip⟩
  else if telemetryPrefix.isPrefixOf path && method ∈ mutatingMethods then
    ⟨.telemetry, settings.telemetryPerMinute, bearerKey library bearer ip⟩
  else
    match bearer with
    | some bearer => ⟨.default, settings.authenticatedPerMinute, tokenKey library bearer⟩
    | none => ⟨.unauth, settings.unauthenticatedPerMinute, addressKey ip⟩

/-- What the middleware passes through without a policy. -/
def exempt (request : Request) : Bool :=
  !settings.enabled ||
    (request.method = "OPTIONS".toList && request.origin && request.accessControlRequestMethod) ||
    request.path ∈ exemptPaths

def policyOf (request : Request) : Policy :=
  resolvePolicy library settings request.path request.method (bearerToken request)
    (addressBucket library settings request)

/-- The class whose counter of all of an address's requests the class counts up, and its ceiling. -/
def ceiling : Class → Option (Class × ℕ)
  | .default | .telemetry => some (.default, settings.ipPerMinute)
  | .webhook => some (.webhook, settings.webhookIpPerMinute)
  | .llm => some (.llm, settings.llmIpPerMinute)
  | .auth | .unauth => none

def bucketKey (cls : Class) (key : Text) (window : ℕ) : Text :=
  "rl:".toList ++ cls.name ++ ":".toList ++ key ++ ":".toList ++ Nat.toDigits 10 window

def ceilingKey (cls : Class) (ip : Text) (window : ℕ) : Text :=
  bucketKey cls ("ipall:".toList ++ ip) window

/-- The keys of a request, its bucket first. -/
def keysOf (policy : Policy) (ip : Text) (window : ℕ) : List Text :=
  bucketKey policy.cls policy.key window ::
    ((ceiling settings policy.cls).map fun c => ceilingKey c.1 ip window).toList

/-- The limit that the counts exceed, if any: the bucket's is looked at first. -/
def exceededLimit (policy : Policy) (counts : List ℕ) : Option ℕ :=
  if policy.limit < counts.getD 0 0 then some policy.limit
  else
    match ceiling settings policy.cls with
    | some (_, ceiling) => if ceiling < counts.getD 1 0 then some ceiling else none
    | none => none

inductive Outcome
  | exempt
  | admitted
  | refused (limit retryAfter : ℕ)
  deriving DecidableEq

/-- `rate_limit_middleware`, of a request and the second that it comes in. -/
def rateLimit (counts : Counts Text) (arrival : ℕ × Request) : Outcome × Counts Text :=
  let (now, request) := arrival
  if exempt settings request then (.exempt, counts)
  else
    let policy := policyOf library settings request
    let window := now / windowSeconds
    let served := incrAll counts
      (keysOf settings policy (addressBucket library settings request) window)
    match exceededLimit settings policy served.1 with
    | some limit => (.refused limit (max 1 ((window + 1) * windowSeconds - now)), served.2)
    | none => (.admitted, served.2)

end Policy

end DataQ.RateLimit

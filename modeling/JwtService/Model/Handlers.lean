import JwtService.Model.Token

/-!
# The HTTP API (`handlers.rs`, `issuer.rs`, `error.rs`, `auth.rs`, `main.rs`)

The handlers of the endpoints, the errors they answer with, and the layers
each route wraps around its handler: access control with the reservation of
TOTP codes, and the rate limit. What the configured secrets make of the
headers of a request, and what the limiter decides, is part of the request
here (`Admission`).

`serve` is a request as a program. A service that handles several requests
is a pool of such programs (`Interaction/Pool.lean`).
-/

namespace JwtService

open Interaction

/-! ## Responses -/

inductive Body where
  | empty
  | token (token : String) (refreshToken : Option String)
  | claims (c : TokenClaims)
  | revoked (n : Nat)
  | error (msg : String)
  | readiness (status : String) (redis jwks jwksStale : Bool)

structure HttpResponse where
  status : Nat
  body : Body

/-- An error of the HTTP layer. -/
inductive Error where
  | validation (msg : String)
  | unprocessable (msg : String)
  | jwt (e : JwtError)
  | store (e : JtiError)
  | internal (msg : String)
  | unauthorized (msg : String)
  | forbidden (msg : String)
  | notFound (msg : String)
deriving DecidableEq, Repr

/-- An internal cause is never exposed. -/
def Error.errorResponse : Error → HttpResponse
  | .validation msg => ⟨400, .error msg⟩
  | .unprocessable msg => ⟨422, .error msg⟩
  | .unauthorized msg => ⟨401, .error msg⟩
  | .forbidden msg => ⟨403, .error msg⟩
  | .notFound msg => ⟨404, .error msg⟩
  | .jwt _ | .store _ | .internal _ => ⟨500, .error "Internal server error"⟩

/-- The response to a handler that returns a response or an error. -/
def respond (p : M (Except Error HttpResponse)) : M HttpResponse := do
  match ← p with
  | .ok r => pure r
  | .error e => pure e.errorResponse

/-! ## The issuer -/

namespace Issuer

def parse (raw : String) : List String :=
  ((Text.split ',' raw).map fun s => Text.toAsciiLowercase (Text.trim s)).filter (· ≠ "")

def allowedBy (allowed : List String) (host : String) : Bool :=
  allowed.isEmpty || allowed.any fun a => a == Text.toAsciiLowercase host

/-- Whether a host is allowed as an issuer. -/
def isAllowed (env : Env) (host : String) : Bool :=
  allowedBy (parse ((env "TOKEN_ISSUER_ALLOWLIST").getD "")) host

end Issuer

/-- The `Host` header: not there, not ASCII, or a text. -/
inductive HostHeader where
  | missing
  | invalid
  | text (s : String)
deriving DecidableEq, Repr

def hostHeader : HostHeader → Except Error String
  | .missing => .error (.validation "Missing Host header")
  | .invalid => .error (.validation "Invalid Host header")
  | .text s => .ok s

def issuerForIssuance (env : Env) (host : HostHeader) : Except Error String := do
  let host ← hostHeader host
  if Issuer.isAllowed env host then pure host
  else throw (.forbidden "Issuer not allowed")

/-! ## Handlers -/

structure TokenRequest where
  sub : String
  aud : List String
  ttl : Option Nat
  refresh : Bool
  claims : List (String × Json)

structure TokenVerifyRequest where
  token : String
  audience : String

section Handlers

variable (env : Env) (libs : Libs) (store : JtiStore)

/-- What an issue request issues: a token, or a token and a refresh token. -/
def issue (host : String) (req : TokenRequest) :
    ExceptT JwtError M (String × Option String) := do
  if req.refresh then
    let (token, refresh) ← JwtManager.generateTokenPair env libs store host req.sub req.aud
      req.ttl req.claims
    pure (token, some refresh)
  else
    let token ← JwtManager.generateToken env libs store host req.sub req.aud req.ttl req.claims
    pure (token, none)

/-- `POST /tokens`. -/
def createToken (host : HostHeader) (req : TokenRequest) : ExceptT Error M HttpResponse := do
  let host ← Prog.ofExcept (issuerForIssuance env host)
  match ← Prog.liftE (issue env libs store host req) with
  | .ok (token, refresh) => do
    callE (.metric .tokenIssued)
    pure ⟨200, .token token refresh⟩
  | .error .unprocessableEntity => throw (.unprocessable "Invalid token request parameters")
  | .error e => throw (.internal e.text)

/-- `POST /tokens/verify`. -/
def verifyToken (host : HostHeader) (req : TokenVerifyRequest) :
    ExceptT Error M HttpResponse := do
  let host ← Prog.ofExcept (hostHeader host)
  if Issuer.isAllowed env host then
    match ← Prog.liftE (JwtManager.verifyToken env libs store req.token host req.audience) with
    | .ok claims => do
      callE (.metric (.tokenVerified true))
      pure ⟨200, .claims claims⟩
    | .error _ => do
      callE (.metric (.tokenVerified false))
      throw (.unauthorized "Invalid or expired token")
  else throw (.unauthorized "Invalid or expired token")

/-- `DELETE /tokens/{jti}`. -/
def revokeToken (jti : String) : ExceptT Error M HttpResponse := do
  match ← Prog.liftE (store.deleteJti jti) with
  | .ok () => do
    callE (.metric .tokenRevoked)
    pure ⟨204, .empty⟩
  | .error _ => throw (.internal "Failed to revoke token")

/-- Counts `n` revoked tokens. -/
def recordRevoked : Nat → ExceptT Error M Unit
  | 0 => pure ()
  | n + 1 => do
    callE (.metric .tokenRevoked)
    recordRevoked n

/-- `DELETE /subjects/{sub}/tokens`. -/
def revokeSubjectTokens (sub : String) : ExceptT Error M HttpResponse := do
  match ← Prog.liftE (store.revokeGroup (subjectGroup sub)) with
  | .ok revoked => do
    recordRevoked revoked
    pure ⟨200, .revoked revoked⟩
  | .error _ => throw (.internal "Failed to revoke subject tokens")

/-- `POST /tokens/refresh`. -/
def refreshToken (host : HostHeader) (token : String) : ExceptT Error M HttpResponse := do
  let host ← Prog.ofExcept (issuerForIssuance env host)
  match ← Prog.liftE (JwtManager.refreshTokenPair env libs store token host) with
  | .ok (token, refresh) => do
    callE (.metric .tokenIssued)
    pure ⟨200, .token token (some refresh)⟩
  | .error .notValid => throw (.unauthorized "Invalid refresh token")
  | .error e => throw (.internal e.text)

/-- Whether the snapshot in memory stands in for a key service that did not
answer. -/
def snapshotServes (jwksLive : Bool) : M Bool :=
  if jwksLive then pure false else call (.cache .hasServableSnapshot)

/-- `GET /readyz`. -/
def readyz : M HttpResponse := do
  let storeOk := (← store.ping).isOk
  let jwksLive := Except.isOk (← (KeyManager.checkJwks : M (Except KeyError Unit)))
  let jwksStale ← snapshotServes jwksLive
  let jwksOk := jwksLive || jwksStale
  let ready := storeOk && jwksOk
  let status := if ready then (if jwksStale then "degraded" else "ok") else "unavailable"
  pure ⟨if ready then 200 else 503, .readiness status storeOk jwksOk jwksStale⟩

end Handlers

/-! ## Layers -/

inductive AuthLevel where
  | openAccess
  | proxySecret
  | totp
  | metricsToken
deriving DecidableEq, Repr

def AuthLevel.asStr : AuthLevel → String
  | .openAccess => "open"
  | .proxySecret => "proxy_secret"
  | .totp => "totp"
  | .metricsToken => "metrics_token"

/-- What the configuration makes of a request: whether its headers authorize
it, the reservation of its TOTP code where replay protection is on, and the
number of seconds to wait where the limiter rejects it. -/
structure Admission where
  authorized : Bool
  replayProtection : Bool
  replayClaim : Option (String × Nat)
  limited : Option Nat
deriving DecidableEq, Repr

/-- The reservation of a TOTP code; an error of the store lets the request
through. -/
def claimCode (store : JtiStore) : Option (String × Nat) → M Bool
  | none => pure true
  | some (fingerprint, ttl) => do
    match ← store.claimTotpCode fingerprint ttl with
    | .ok first => pure first
    | .error _ => pure true

/-- `AuthMiddleware::call`. -/
def auth (store : JtiStore) (level : AuthLevel) (a : Admission) (service : M HttpResponse) :
    M HttpResponse := do
  let claim := if a.authorized && level == .totp && a.replayProtection then a.replayClaim else none
  let first ← claimCode store claim
  if a.authorized && first then service
  else do
    let _ ← call (.metric (.authDenied level.asStr))
    pure ⟨401, .error "Unauthorized"⟩

/-- `RateLimitMiddleware::call`. -/
def rateLimit (a : Admission) (service : M HttpResponse) : M HttpResponse := do
  match a.limited with
  | none => service
  | some _ => do
    let _ ← call (.metric .rateLimited)
    pure ⟨429, .error "Too Many Requests"⟩

inductive Request where
  | createToken (host : HostHeader) (req : TokenRequest)
  | verifyToken (host : HostHeader) (req : TokenVerifyRequest)
  | refreshToken (host : HostHeader) (token : String)
  | revokeToken (jti : String)
  | revokeSubjectTokens (sub : String)
  | livez
  | readyz

/-- The handler of a request. -/
def handle (env : Env) (libs : Libs) (store : JtiStore) : Request → M HttpResponse
  | .createToken host req => respond (createToken env libs store host req)
  | .verifyToken host req => respond (verifyToken env libs store host req)
  | .refreshToken host token => respond (refreshToken env libs store host token)
  | .revokeToken jti => respond (revokeToken store jti)
  | .revokeSubjectTokens sub => respond (revokeSubjectTokens store sub)
  | .livez => pure ⟨200, .empty⟩
  | .readyz => readyz store

/-- A request with the layers of its route (`configure_api`): the limit of
the internal endpoints stands behind access control, the limit of
verification before it. -/
def serve (env : Env) (libs : Libs) (store : JtiStore) (a : Admission) (r : Request) :
    M HttpResponse :=
  match r with
  | .verifyToken .. => rateLimit a (auth store .proxySecret a (handle env libs store r))
  | .livez | .readyz => auth store .openAccess a (handle env libs store r)
  | _ => auth store .totp a (rateLimit a (handle env libs store r))

end JwtService

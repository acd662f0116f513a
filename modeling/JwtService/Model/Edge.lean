import JwtService.Model.Auth

/-!
# The layers of the routes (`auth.rs`, `rate_limit.rs`, `main.rs`)

`configureApi` wraps the handler of an endpoint in its layers, the last one
outermost, as `configure_api` does, and `api` is a request to the service with
these layers. A layer makes two calls of its own: it evaluates the access level
at the present time (`authorize`) and asks a limiter (`check`). A limiter is
kept behind a reference, which its clones share (`LimiterRef`).

The limiters of the `governor` crate are a parameter (`Governor`): a state
for each key, and the answer to a check at a moment of the monotonic clock.
CORS, the outermost layer everywhere, answers preflight requests only and is
left out. `layered` puts the layers over a system of the service.
-/

namespace JwtService

open Interaction

/-- A limiter that its clones share (`Arc`). -/
structure LimiterRef where
  id : Nat
deriving DecidableEq, Repr

/-- What a keyed limiter is asked about: the address of a client. -/
abbrev LimiterKey := List UInt8

inductive EdgeEff where
  | svc (e : Eff)
  | authorize (level : AuthLevel) (headers : HeaderMap)
  | check (limiter : LimiterRef) (key : Option LimiterKey)

/-- A check replies nothing, or the moment before which nothing is admitted. -/
@[reducible] def EdgeEff.Reply : EdgeEff → Type
  | .svc e => e.Reply
  | .authorize .. => Bool
  | .check .. => Option Nat

abbrev edge : Iface := ⟨EdgeEff, EdgeEff.Reply⟩

/-- Programs of the service with its layers. -/
abbrev E := Prog edge

def callEdge (e : EdgeEff) : E e.Reply := @Prog.perform edge e

/-- A program of the service, as a program with layers. -/
def embed {α : Type} : M α → E α
  | .ret a => .ret a
  | .call e k => @Prog.call edge α (.svc e) fun r => embed (k r)

/-- A request as it arrives: its headers, and the address the limiter of
verification takes it to come from. -/
structure Incoming where
  headers : HeaderMap
  clientIp : Option LimiterKey

/-! ## Rate limits -/

/-- The limiter of verification, by address. -/
structure PerIpLimiter where
  limiter : LimiterRef

/-- The limiter of the internal endpoints. -/
structure GlobalLimiter where
  limiter : LimiterRef

inductive Strategy where
  | disabled
  | perIp (limiter : LimiterRef)
  | global (limiter : LimiterRef)

/-- Whether to let a request through. A request whose address is not known is
let through. -/
def Strategy.check (req : Incoming) : Strategy → E (Option Nat)
  | .disabled => pure none
  | .global limiter => callEdge (.check limiter none)
  | .perIp limiter =>
    match req.clientIp with
    | some ip => callEdge (.check limiter (some ip))
    | none => pure none

namespace RateLimit

def perIp : Option PerIpLimiter → Strategy
  | some l => .perIp l.limiter
  | none => .disabled

def global : Option GlobalLimiter → Strategy
  | some l => .global l.limiter
  | none => .disabled

/-- `RateLimitMiddleware::call`. -/
def call (strategy : Strategy) (req : Incoming) (service : E HttpResponse) : E HttpResponse := do
  match ← strategy.check req with
  | none => service
  | some _ => do
    let _ ← embed (JwtService.call (.metric .rateLimited))
    pure ⟨429, .error "Too Many Requests"⟩

end RateLimit

/-! ## Access control -/

namespace Auth

variable (ssl : Hmac) (auth : AuthConfig) (store : JtiStore)

/-- The reservation a request makes, once its access level has let it through. -/
def replayClaim (level : AuthLevel) (authorized : Bool) (req : Incoming) : Option (String × Nat) :=
  if authorized && level == .totp && auth.totpReplayProtection then
    auth.totpReplayClaim ssl req.headers
  else none

/-- `AuthMiddleware::call`. -/
def call (level : AuthLevel) (req : Incoming) (service : E HttpResponse) : E HttpResponse := do
  let authorized : Bool ← callEdge (.authorize level req.headers)
  let first ← embed (claimCode store (replayClaim ssl auth level authorized req))
  if authorized && first then service
  else do
    let _ ← embed (JwtService.call (.metric (.authDenied level.asStr)))
    pure ⟨401, .error "Unauthorized"⟩

end Auth

/-! ## Routes -/

inductive Wrap where
  | rateLimit (strategy : Strategy)
  | auth (level : AuthLevel)

inductive Endpoint where
  | tokens
  | tokensVerify
  | tokensRefresh
  | tokensJti
  | subjectTokens
  | openScope
deriving DecidableEq, Repr

def Request.endpoint : Request → Endpoint
  | .createToken .. => .tokens
  | .verifyToken .. => .tokensVerify
  | .refreshToken .. => .tokensRefresh
  | .revokeToken _ => .tokensJti
  | .revokeSubjectTokens _ => .subjectTokens
  | .livez | .readyz => .openScope

/-- The layers of each endpoint, in the order they are wrapped; the limiters
are cloned. -/
def configureApi (verifyLimiter : Option PerIpLimiter) (internalLimiter : Option GlobalLimiter) :
    Endpoint → List Wrap
  | .tokens => [.rateLimit (RateLimit.global internalLimiter), .auth .totp]
  | .tokensVerify => [.auth .proxySecret, .rateLimit (RateLimit.perIp verifyLimiter)]
  | .tokensRefresh => [.rateLimit (RateLimit.global internalLimiter), .auth .totp]
  | .tokensJti => [.rateLimit (RateLimit.global internalLimiter), .auth .totp]
  | .subjectTokens => [.rateLimit (RateLimit.global internalLimiter), .auth .totp]
  | .openScope => [.auth .openAccess]

/-- What the layers of the service are configured with. -/
structure EdgeConfig where
  hmac : Hmac
  auth : AuthConfig
  verifyLimiter : Option PerIpLimiter
  internalLimiter : Option GlobalLimiter

def wrap (cfg : EdgeConfig) (store : JtiStore) (req : Incoming) (service : E HttpResponse) :
    Wrap → E HttpResponse
  | .rateLimit strategy => RateLimit.call strategy req service
  | .auth level => Auth.call cfg.hmac cfg.auth store level req service

/-- A request to the service. -/
def api (cfg : EdgeConfig) (env : Env) (libs : Libs) (store : JtiStore) (req : Incoming)
    (r : Request) : E HttpResponse :=
  (configureApi cfg.verifyLimiter cfg.internalLimiter r.endpoint).foldl (wrap cfg store req)
    (embed (handle env libs store r))

/-! ## The system -/

/-- The limiters of `governor`: what a limiter keeps for one key, and its
answer to a check at a moment of the monotonic clock. -/
structure Governor where
  State : Type
  check : Nat → State → Option Nat × State

/-- The world of the service, its monotonic clock in nanoseconds, and what the
limiters keep for each key. -/
structure EdgeWorld (σ : Type) where
  world : World
  clock : Nat
  limiters : LimiterRef → Option LimiterKey → σ

/-- A limiter is asked at a moment. -/
def EdgeWorld.asked {g : Governor} (w : EdgeWorld g.State) (l : LimiterRef)
    (key : Option LimiterKey) : EdgeWorld g.State :=
  ⟨w.world, w.clock, Function.update w.limiters l
    (Function.update (w.limiters l) key (g.check w.clock (w.limiters l key)).2)⟩

/-- The service behind its layers. Time passes on both clocks. -/
def layered (g : Governor) (cfg : EdgeConfig) (S : System svc World Nat) :
    System edge (EdgeWorld g.State) (Nat × Nat) where
  call w e r w' :=
    match e, r with
    | .svc e, r => S.call w.world e r w'.world ∧ w' = { w with world := w'.world }
    | .authorize level headers, r =>
      r = cfg.auth.authorize cfg.hmac level headers (timestamp w.world.now) ∧ w' = w
    | .check l key, r => r = (g.check w.clock (w.limiters l key)).1 ∧ w' = w.asked l key
  env w l w' := S.env w.world l.1 w'.world ∧
    w' = { w with world := w'.world, clock := w.clock + l.2 }

end JwtService

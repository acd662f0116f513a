import JwtService.Limiter.Gcra
import JwtService.Model.ClientIp

/-!
# The configuration of the limiters (`rate_limit.rs`)

`RateLimitConfig.fromEnv` and the limiters that `buildVerify` and
`buildInternal` set up, with their quotas; an error is a panic there. The
quotas of the `governor` crate are a parameter (`QuotaLib`), as its limiters
are. `Strategy.verdict` is what becomes of the answer of a limiter.
-/

namespace JwtService

/-- A cell is refilled each `period`, and `burst` of them fit. -/
structure Quota where
  period : Nat
  burst : Nat
deriving DecidableEq

/-- `Quota::with_period` and `Quota::allow_burst` of `governor`: an interval of
no length makes no quota, any other the quota of a cell each interval, and a
quota takes any burst. -/
structure QuotaLib where
  withPeriod : Nat → Option Quota
  allowBurst : Quota → Nat → Quota
  withPeriod_zero : withPeriod 0 = none
  withPeriod_pos : ∀ p, 0 < p → ∃ q, withPeriod p = some q ∧ q.period = p
  allowBurst_eq : ∀ q burst, allowBurst q burst = ⟨q.period, burst⟩

/-- `quota`: the burst is never zero, the interval may be. -/
def quota (lib : QuotaLib) (perSecond burst : Nat) : Except String Quota :=
  let perSecond := max perSecond 1
  let burst := max burst 1
  match lib.withPeriod (1000000000 / perSecond) with
  | some q => .ok (lib.allowBurst q burst)
  | none => .error "period > 0"

/-- `retry_after_secs`, at the moment `now`: whole seconds, and one at least. -/
def retryAfterSecs (earliest now : Nat) : Nat := max ((earliest - now) / 1000000000) 1

/-- What `Strategy::check` makes of the answer of a limiter; the clock shows
`now` by then. -/
def Strategy.verdict (now : Nat) : Option Nat → Except Nat Unit
  | none => .ok ()
  | some earliest => .error (retryAfterSecs earliest now)

/-! ## The environment -/

/-- `env_u64` of `rate_limit.rs`, the same as that of the key service. -/
def envU64 (env : Env) (key : String) (default : Nat) : Nat := JwkService.envSeconds env key default

def envU32 (env : Env) (key : String) (default : Nat) : Nat :=
  ((env key).bind fun v => (Text.parseU64 (Text.trim v)).filter (· < 2 ^ 32)).getD default

def envBool (env : Env) (key : String) (default : Bool) : Bool :=
  match env key with
  | none => default
  | some v =>
    let v := Text.toAsciiLowercase (Text.trim v)
    if ["1", "true", "yes", "on"].contains v then true
    else if ["0", "false", "no", "off", ""].contains v then false
    else default

structure RateLimitConfig where
  verifyEnabled : Bool
  verifyPerSecond : Nat
  verifyBurst : Nat
  internalEnabled : Bool
  internalPerSecond : Nat
  internalBurst : Nat
  trusted : List Cidr
  forwardedHeader : String

/-- A new limiter by address: its quota, and how a request gets its address. -/
structure VerifyLimit where
  quota : Quota
  trusted : List Cidr
  forwardedHeader : String

/-- A new limiter of the internal endpoints. -/
structure InternalLimit where
  quota : Quota

namespace RateLimitConfig

def fromEnv (env : Env) : RateLimitConfig where
  verifyEnabled := envBool env "RATE_LIMIT_VERIFY_ENABLED" true
  verifyPerSecond := envU64 env "RATE_LIMIT_VERIFY_PER_SECOND" 10
  verifyBurst := envU32 env "RATE_LIMIT_VERIFY_BURST" 20
  internalEnabled := envBool env "RATE_LIMIT_INTERNAL_ENABLED" false
  internalPerSecond := envU64 env "RATE_LIMIT_INTERNAL_PER_SECOND" 50
  internalBurst := envU32 env "RATE_LIMIT_INTERNAL_BURST" 100
  trusted := trustedProxies env
  forwardedHeader := JwtService.forwardedHeader env

variable (lib : QuotaLib) (c : RateLimitConfig)

def buildVerify : Except String (Option VerifyLimit) :=
  if !c.verifyEnabled then .ok none
  else (quota lib c.verifyPerSecond c.verifyBurst).map fun q => some ⟨q, c.trusted, c.forwardedHeader⟩

def buildInternal : Except String (Option InternalLimit) :=
  if !c.internalEnabled then .ok none
  else (quota lib c.internalPerSecond c.internalBurst).map fun q => some ⟨q⟩

end RateLimitConfig

end JwtService

import JwtService.Interaction.Fallible
import JwtService.Interaction.Pool
import JwtService.Redis.Db
import JwtService.Model.Claims

/-!
# The environment of the service

The calls the service makes to what is around it (`Eff`): Redis commands,
the clock, the UUID generator, HTTP requests to the key service, and the
state its requests share in memory (the current key id, the cache of public
keys with its refresh lock, the metrics). Each call is one indivisible
action; between two calls of a request anything else may happen.

`World` is the state behind these calls, and `World.act` answers a call.
What the outside decides is a `Choice`: the next UUID, whether a Redis
command or its answer is lost, what the key service answers. `service` is
the system of all of these, with time passing at any moment; `faultless`
keeps the choices in which no Redis command fails.

The cache of public keys is `CacheState` of `jwk.rs`; the sections of the
code that hold its lock are the operations of `CacheOp`. Times are in
milliseconds, on one clock shared by the service and Redis.
-/

namespace JwtService

open Interaction

/-! ## Keys -/

/-- A public key (`models::Jwk`). -/
structure Jwk where
  kty : String
  alg : String
  kid : String
  crv : Option String
  x : Option String
  y : Option String
  n : Option String
  e : Option String
deriving DecidableEq, Repr

/-- A set of public keys (`models::Jwks`). -/
structure Jwks where
  keys : List Jwk
deriving DecidableEq, Repr

/-- A key with its private part (`models::JwkData`). -/
structure JwkData where
  id : String
  kty : String
  alg : String
  kid : String
  crv : Option String
  x : Option String
  y : Option String
  n : Option String
  e : Option String
  privateKey : String
deriving DecidableEq, Repr

def Jwks.find (s : Jwks) (kid : String) : Option Jwk := s.keys.find? fun jwk => jwk.kid == kid

/-- How the key service answered: not at all, or with a status and a body
that may not parse. -/
inductive HttpReply (α : Type) where
  | unreachable
  | response (status : Nat) (body : Option α)

/-! ## The cache of public keys -/

/-- `CacheState` of `jwk.rs`, with its instants in milliseconds. -/
structure CacheState where
  entry : Option (Jwks × Nat)
  lastAttempt : Option Nat
  lastFailure : Option Nat
deriving DecidableEq, Repr

def CacheState.empty : CacheState := ⟨none, none, none⟩

/-- The durations of `JwkService`, in milliseconds. -/
structure JwkService where
  cacheTtl : Nat
  missRefreshInterval : Nat
  staleGrace : Nat
deriving Repr

namespace JwkService

variable (s : JwkService)

/-- `env_u64` of `jwk.rs`: unlike the one of the tokens it trims the value. -/
def envSeconds (env : Env) (name : String) (default : Nat) : Nat :=
  ((env name).bind fun raw => Text.parseU64 (Text.trim raw)).getD default

def new (env : Env) : JwkService where
  cacheTtl := 1000 * envSeconds env "JWKS_CACHE_TTL_SECONDS" 300
  missRefreshInterval := 1000 * envSeconds env "JWKS_CACHE_MISS_REFRESH_SECONDS" 10
  staleGrace := 1000 * envSeconds env "JWKS_CACHE_STALE_GRACE_SECONDS" 10

/-- The longest a snapshot serves. The addition saturates at durations no
clock reaches, so it is modelled as an addition. -/
def servableMaxAge : Nat := if s.cacheTtl = 0 then 0 else s.cacheTtl + s.staleGrace

def lookupFresh (now : Nat) (st : CacheState) (kid : String) : Option Jwk :=
  match st.entry with
  | none => none
  | some (jwks, fetchedAt) => if now - fetchedAt ≥ s.cacheTtl then none else jwks.find kid

/-- The key and the age of the snapshot it comes from. -/
def lookupStale (now : Nat) (st : CacheState) (kid : String) : Option (Jwk × Nat) :=
  match st.entry with
  | none => none
  | some (jwks, fetchedAt) =>
    if now - fetchedAt ≥ s.servableMaxAge then none
    else (jwks.find kid).map fun jwk => (jwk, now - fetchedAt)

def cacheIsFresh (now : Nat) (st : CacheState) : Bool :=
  match st.entry with
  | none => false
  | some (_, fetchedAt) => now - fetchedAt < s.cacheTtl

def hasServableSnapshot (now : Nat) (st : CacheState) : Bool :=
  match st.entry with
  | none => false
  | some (jwks, fetchedAt) => !jwks.keys.isEmpty && now - fetchedAt < s.servableMaxAge

def refreshRecentlyFailed (now : Nat) (st : CacheState) : Bool :=
  match st.lastFailure with
  | none => false
  | some at_ => now - at_ < s.missRefreshInterval

/-- Whether a refresh after a miss is allowed; if so the attempt is recorded. -/
def allowRefreshOnMiss (now : Nat) (st : CacheState) : Bool × CacheState :=
  match st.lastAttempt with
  | some at_ =>
    if now - at_ < s.missRefreshInterval then (false, st)
    else (true, { st with lastAttempt := some now })
  | none => (true, { st with lastAttempt := some now })

end JwkService

/-- The sections of `jwk.rs` that hold the lock of the cache. -/
inductive CacheOp where
  | lookupFresh (kid : String)
  | lookupStale (kid : String)
  | cacheIsFresh
  | hasServableSnapshot
  | refreshRecentlyFailed
  | allowRefreshOnMiss
  | recordAttempt
  | recordFailure
  | store (jwks : Jwks)

@[reducible] def CacheOp.Reply : CacheOp → Type
  | .lookupFresh _ => Option Jwk
  | .lookupStale _ => Option (Jwk × Nat)
  | .cacheIsFresh | .hasServableSnapshot | .refreshRecentlyFailed | .allowRefreshOnMiss => Bool
  | .recordAttempt | .recordFailure | .store _ => Unit

def CacheOp.exec (s : JwkService) (now : Nat) (st : CacheState) :
    (op : CacheOp) → op.Reply × CacheState
  | .lookupFresh kid => (s.lookupFresh now st kid, st)
  | .lookupStale kid => (s.lookupStale now st kid, st)
  | .cacheIsFresh => (s.cacheIsFresh now st, st)
  | .hasServableSnapshot => (s.hasServableSnapshot now st, st)
  | .refreshRecentlyFailed => (s.refreshRecentlyFailed now st, st)
  | .allowRefreshOnMiss => s.allowRefreshOnMiss now st
  | .recordAttempt => ((), { st with lastAttempt := some now })
  | .recordFailure => ((), { st with lastFailure := some now })
  | .store jwks => ((), { st with entry := some (jwks, now), lastFailure := none })

/-! ## Calls -/

/-- The counters of `metrics.rs` the handlers record. -/
inductive Metric where
  | tokenIssued
  | tokenVerified (valid : Bool)
  | tokenRevoked
  | jwksCache (result : String)
  | authDenied (level : String)
  | rateLimited
deriving DecidableEq, Repr

/-- The calls a request makes. -/
inductive Eff where
  | redis (c : Redis.Cmd)
  | utcNow
  | newUuid
  | readKeyId
  | writeKeyId (id : String)
  | fetchKeys
  | getKey (id : String)
  | createKey (alg : String)
  | cache (op : CacheOp)
  | lockRefresh
  | unlockRefresh
  | metric (m : Metric)
  | panic (msg : String)

@[reducible] def Eff.Reply : Eff → Type
  | .redis c => Except Redis.Err c.Reply
  | .utcNow => Nat
  | .newUuid | .readKeyId => String
  | .fetchKeys => HttpReply Jwks
  | .getKey _ | .createKey _ => HttpReply JwkData
  | .cache op => op.Reply
  | .panic _ => Empty
  | _ => Unit

abbrev svc : Iface := ⟨Eff, Eff.Reply⟩

/-- Programs of the service. -/
abbrev M := Prog svc

/-- A call, as a program and as a program that may fail but does not. -/
def call (e : Eff) : M e.Reply := @Prog.perform svc e
def callE {ε : Type} (e : Eff) : ExceptT ε M e.Reply := @Prog.performE svc _ e

/-- A panic: the request is never answered. -/
def panic {α : Type} (msg : String) : M α := .call (.panic msg) Empty.elim

/-! ## The world -/

structure World where
  now : Nat
  db : Redis.Db
  /-- The UUIDs generated so far. -/
  drawn : List String
  /-- `current_key_id` of `KeyManager`. -/
  keyId : String
  cache : CacheState
  /-- Whether the refresh lock is held. -/
  refreshLock : Bool

def World.empty : World := ⟨0, fun _ => none, [], "", .empty, false⟩

/-- What becomes of a Redis command: it is executed and answered, or it
fails, before or after it was executed. -/
inductive Outcome where
  | answered
  | lost (e : Redis.Err)
  | answerLost (e : Redis.Err)
deriving DecidableEq, Repr

/-- What the outside decides about a call. -/
inductive Choice where
  | plain
  | redis (o : Outcome)
  | uuid (u : String)
  | keys (r : HttpReply Jwks)
  | key (r : HttpReply JwkData)

namespace World

/-- Whether an error is one of the connection, not an answer of the server. -/
def connectionErr : Redis.Err → Bool
  | .timeout | .connectionDropped | .connectionRefused => true
  | .wrongType | .invalidExpire => false

/-- The answer to a call under a choice, and the world after it; `none` where
the choice does not fit the call. -/
def act (s : JwkService) (w : World) : (e : Eff) → Choice → Option (e.Reply × World)
  | .redis c, .redis .answered =>
    some ((Redis.exec w.now w.db c).1, { w with db := (Redis.exec w.now w.db c).2 })
  | .redis _, .redis (.lost e) => if connectionErr e then some (.error e, w) else none
  | .redis c, .redis (.answerLost e) =>
    if connectionErr e then some (.error e, { w with db := (Redis.exec w.now w.db c).2 }) else none
  | .utcNow, .plain => some (w.now, w)
  | .newUuid, .uuid u =>
    if Text.isUuid u ∧ u ∉ w.drawn then some (u, { w with drawn := u :: w.drawn }) else none
  | .readKeyId, .plain => some (w.keyId, w)
  | .writeKeyId id, .plain => some ((), { w with keyId := id })
  | .fetchKeys, .keys r => some (r, w)
  | .getKey _, .key r => some (r, w)
  | .createKey _, .key r => some (r, w)
  | .cache op, .plain =>
    some ((op.exec s w.now w.cache).1, { w with cache := (op.exec s w.now w.cache).2 })
  | .lockRefresh, .plain => if w.refreshLock then none else some ((), { w with refreshLock := true })
  | .unlockRefresh, .plain => some ((), { w with refreshLock := false })
  | .metric _, .plain => some ((), w)
  | _, _ => none

/-- A call takes no time. -/
theorem act_now {s : JwkService} {w w' : World} {e : Eff} {ch : Choice} {r : e.Reply}
    (h : w.act s e ch = some (r, w')) : w'.now = w.now := by
  cases e with
  | redis c =>
    cases ch with
    | redis o =>
      cases o with
      | answered =>
        simp only [act, Option.some.injEq, Prod.mk.injEq] at h
        rw [← h.2]
      | lost e | answerLost e =>
        simp only [act, Option.ite_none_right_eq_some, Option.some.injEq, Prod.mk.injEq] at h
        rw [← h.2.2]
    | _ => cases h
  | newUuid =>
    cases ch with
    | uuid u =>
      simp only [act, Option.ite_none_right_eq_some, Option.some.injEq, Prod.mk.injEq] at h
      rw [← h.2.2]
    | _ => cases h
  | lockRefresh =>
    cases ch with
    | plain =>
      simp only [act, Option.ite_none_left_eq_some, Option.some.injEq, Prod.mk.injEq] at h
      rw [← h.2.2]
    | _ => cases h
  | panic msg => exact r.elim
  | _ =>
    cases ch <;> first
      | (cases h; done)
      | (simp only [act, Option.some.injEq, Prod.mk.injEq] at h
         rw [← h.2])

/-- Time passes. -/
def tick (w : World) (d : Nat) : World := { w with now := w.now + d }

end World

/-- The service and its environment, where Redis commands may fail. -/
def service (s : JwkService) : System svc World Nat where
  call w e r w' := ∃ c, w.act s e c = some (r, w')
  env w d w' := w' = w.tick d

/-- The choices in which no Redis command fails. -/
def Choice.faultless : Choice → Bool
  | .redis .answered => true
  | .redis _ => false
  | _ => true

/-- The service and its environment, with no failing Redis command. -/
def faultless (s : JwkService) : System svc World Nat where
  call w e r w' := ∃ c, c.faultless = true ∧ w.act s e c = some (r, w')
  env w d w' := w' = w.tick d

end JwtService

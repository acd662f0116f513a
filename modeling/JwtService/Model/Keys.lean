import JwtService.Model.World

/-!
# The key service and the keys (`jwk.rs`, `key.rs`)

`JwkService` requests keys from the key service and keeps the public ones in
a cache; `KeyManager` turns them into OpenSSL keys and remembers which key
signs. OpenSSL itself is a parameter (`OpenSsl`).

`publicKey` follows the five steps its source describes: a hit in the fresh
cache, the same check again under the refresh lock, the throttled exits, the
trip to the key service, and the stale snapshot when that trip fails.
-/

namespace JwtService

open Interaction

inductive JwkError where
  | badConnection
  | badResponse
  | notFound
deriving DecidableEq, Repr

inductive KeyError where
  | notFound
  | invalidKey
  | unsupported
deriving DecidableEq, Repr

/-- The messages of the errors (`#[error(..)]`). -/
def JwkError.text : JwkError → String
  | .badConnection => "Bad connection"
  | .badResponse => "Bad response"
  | .notFound => "NotFound"

def KeyError.text : KeyError → String
  | .notFound => "Key not found"
  | .invalidKey => "Key is invalid"
  | .unsupported => "Key is unsupported"

inductive Digest where
  | sha256
  | sha384
  | sha512
deriving DecidableEq, Repr

inductive Curve where
  | p256
  | p384
  | p521
deriving DecidableEq, Repr

inductive EdId where
  | ed25519
  | ed448
deriving DecidableEq, Repr

/-- What the service uses of OpenSSL. A signature is made and checked with a
digest, or without one for EdDSA; `none` is an error of the library. -/
structure OpenSsl where
  PrivateKey : Type
  PublicKey : Type
  privateKeyFromPkcs8 : List UInt8 → Option PrivateKey
  rsaPublicKey : List UInt8 → List UInt8 → Option PublicKey
  ecPublicKey : Curve → List UInt8 → List UInt8 → Option PublicKey
  edPublicKey : EdId → List UInt8 → Option PublicKey
  sign : Option Digest → PrivateKey → List UInt8 → Option (List UInt8)
  verify : Option Digest → PublicKey → List UInt8 → List UInt8 → Option Bool

/-- `URL_SAFE_NO_PAD.decode` of a string. -/
def decodeBase64 (s : String) : Option (List UInt8) := Base64Url.decode s.toList

namespace JwkService

/-- Fetches every key. The status of the response is not looked at. -/
def publicKeys : M (Except JwkError Jwks) := do
  match ← call .fetchKeys with
  | .unreachable => pure (.error .badConnection)
  | .response _ none => pure (.error .badResponse)
  | .response _ (some jwks) => pure (.ok jwks)

/-- Requests the key set and puts it into the cache. -/
def fetchAndStore : M (Except JwkError Jwks) := do
  let _ ← call (.cache .recordAttempt)
  match ← publicKeys with
  | .error e => do
    let _ ← call (.cache .recordFailure)
    pure (.error e)
  | .ok jwks => do
    let _ ← call (.cache (.store jwks))
    pure (.ok jwks)

def serveStale (kid : String) : M (Option Jwk) := do
  match ← call (.cache (.lookupStale kid)) with
  | none => pure none
  | some (jwk, _) => do
    let _ ← call (.metric (.jwksCache "stale"))
    pure (some jwk)

/-- The trip to the key service, and the stale snapshot when it fails. -/
def refresh (kid : String) : M (Except JwkError Jwk) := do
  match ← fetchAndStore with
  | .error e => do
    match ← serveStale kid with
    | some jwk => pure (.ok jwk)
    | none => do
      let _ ← call (.metric (.jwksCache "miss"))
      pure (.error e)
  | .ok jwks => do
    let _ ← call (.metric (.jwksCache "miss"))
    match jwks.find kid with
    | some jwk => pure (.ok jwk)
    | none => pure (.error .notFound)

/-- The stale snapshot, when the last trip failed recently. -/
def serveStaleIfFailed (kid : String) : M (Option Jwk) := do
  match ← call (.cache .refreshRecentlyFailed) with
  | true => serveStale kid
  | false => pure none

/-- What happens when it is too early to refresh. -/
def throttled (kid : String) : M (Except JwkError Jwk) := do
  match ← serveStaleIfFailed kid with
  | some jwk => pure (.ok jwk)
  | none => do
    match ← call (.cache .cacheIsFresh) with
    | true => do
      let _ ← call (.metric (.jwksCache "throttled"))
      pure (.error .notFound)
    | false => refresh kid

/-- What is done under the refresh lock. -/
def publicKeyLocked (kid : String) : M (Except JwkError Jwk) := do
  match ← call (.cache (.lookupFresh kid)) with
  | some jwk => do
    let _ ← call (.metric (.jwksCache "hit"))
    pure (.ok jwk)
  | none => do
    match ← call (.cache .allowRefreshOnMiss) with
    | true => refresh kid
    | false => throttled kid

/-- The public key for a `kid`, from the cache where possible. -/
def publicKey (kid : String) : M (Except JwkError Jwk) := do
  match ← call (.cache (.lookupFresh kid)) with
  | some jwk => do
    let _ ← call (.metric (.jwksCache "hit"))
    pure (.ok jwk)
  | none => do
    let _ ← call .lockRefresh
    let r ← publicKeyLocked kid
    let _ ← call .unlockRefresh
    pure r

/-- Creates a key; EdDSA is asked for by the name of its curve. -/
def createKey (alg : String) : M (Except JwkError JwkData) := do
  match ← call (.createKey (if alg = "EdDSA" then "Ed25519" else alg)) with
  | .unreachable => pure (.error .badConnection)
  | .response _ none => pure (.error .badResponse)
  | .response _ (some key) => pure (.ok key)

def getKey (id : String) : M (Except JwkError JwkData) := do
  match ← call (.getKey id) with
  | .unreachable => pure (.error .badConnection)
  | .response status body =>
    if status = 404 then pure (.error .notFound)
    else if ¬ (200 ≤ status ∧ status < 300) then pure (.error .badResponse)
    else match body with
      | none => pure (.error .badResponse)
      | some key => pure (.ok key)

/-- The private key with an id; a new one where there is none. -/
def privateKey (id alg : String) : M (Except JwkError JwkData) := do
  if id = "" then createKey alg
  else match ← getKey id with
    | .ok key => pure (.ok key)
    | .error .notFound => createKey alg
    | .error e => pure (.error e)

end JwkService

namespace KeyManager

/-- The data of the current key, which becomes the one that is remembered. -/
def getJwkData (algorithm : String) : ExceptT KeyError M JwkData := do
  let keyId : String ← callE .readKeyId
  let jwk ← Prog.mapError (fun _ => KeyError.notFound) (JwkService.privateKey keyId algorithm)
  let _ ← callE (.writeKeyId jwk.id)
  pure jwk

def getJwk (kid : String) : ExceptT KeyError M Jwk :=
  Prog.mapError (fun _ => KeyError.notFound) (JwkService.publicKey kid)

/-- The health check of the key service (`GET /readyz`). -/
def checkJwks : ExceptT KeyError M Unit := do
  let _ ← Prog.mapError (fun _ => KeyError.notFound) JwkService.publicKeys
  pure ()

variable (ssl : OpenSsl)

/-- The private key in a key of the key service. -/
def privateKeyOf (jwk : JwkData) : Except KeyError ssl.PrivateKey :=
  match (decodeBase64 jwk.privateKey).bind ssl.privateKeyFromPkcs8 with
  | none => .error .invalidKey
  | some key => .ok key

def getPrivateKey (algorithm : String) : ExceptT KeyError M (JwkData × ssl.PrivateKey) := do
  let jwk ← getJwkData algorithm
  let key ← Prog.ofExcept (privateKeyOf ssl jwk)
  pure (jwk, key)

/-- The bytes of a number in a component of a key. -/
def bigNum (component : Option String) : Option (List UInt8) := component.bind decodeBase64

def publicKeyFromRs (jwk : Jwk) : Except KeyError ssl.PublicKey :=
  match bigNum jwk.n, bigNum jwk.e with
  | some n, some e =>
    match ssl.rsaPublicKey n e with
    | none => .error .invalidKey
    | some key => .ok key
  | _, _ => .error .invalidKey

def curveOf : String → Option Curve
  | "ES256" => some .p256
  | "ES384" => some .p384
  | "ES512" => some .p521
  | _ => none

def publicKeyFromEs (jwk : Jwk) : Except KeyError ssl.PublicKey :=
  match curveOf jwk.alg with
  | none => .error .unsupported
  | some curve =>
    match bigNum jwk.x, bigNum jwk.y with
    | some x, some y =>
      match ssl.ecPublicKey curve x y with
      | none => .error .invalidKey
      | some key => .ok key
    | _, _ => .error .invalidKey

def edIdOf : String → Option EdId
  | "Ed25519" => some .ed25519
  | "Ed448" => some .ed448
  | _ => none

def publicKeyFromDsa (jwk : Jwk) : Except KeyError ssl.PublicKey :=
  match bigNum jwk.x, jwk.crv with
  | none, _ | _, none => .error .invalidKey
  | some x, some crv =>
    match edIdOf crv with
    | none => .error .unsupported
    | some id =>
      match ssl.edPublicKey id x with
      | none => .error .invalidKey
      | some key => .ok key

/-- The OpenSSL key a JWK denotes; its `alg` selects how it is assembled. -/
def publicKeyOf (jwk : Jwk) : Except KeyError ssl.PublicKey :=
  if ["RS256", "RS384", "RS512"].contains jwk.alg then publicKeyFromRs ssl jwk
  else if ["ES256", "ES384", "ES512"].contains jwk.alg then publicKeyFromEs ssl jwk
  else if jwk.alg = "EdDSA" then publicKeyFromDsa ssl jwk
  else .error .unsupported

def getPublicKey (kid : String) : ExceptT KeyError M ssl.PublicKey := do
  let jwk ← getJwk kid
  Prog.ofExcept (publicKeyOf ssl jwk)

end KeyManager

end JwtService

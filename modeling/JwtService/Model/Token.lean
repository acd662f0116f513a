import JwtService.Model.Keys
import JwtService.Model.Store

/-!
# Tokens (`models/jwt.rs`, `jwt.rs`)

Issuing and verifying tokens, and `JwtManager`, the facade the handlers call:
a single token, a pair of an access and a refresh token, the exchange of a
refresh token with its reuse detector, and verification. Everything is
generic over the store, as in the source.
-/

namespace JwtService

open Interaction

/-- What the service uses of other libraries. -/
structure Libs where
  json : JsonText
  ssl : OpenSsl

/-- The timestamp of `Utc::now() + Duration::seconds(secs)`; `none` where
`chrono` panics, outside the range of `Duration` or of `DateTime`. -/
def chronoAdd (now : Nat) (secs : Int) : Option Int :=
  if secs.natAbs ≤ (2 ^ 63 - 1) / 1000 ∧ -8334601228800 ≤ (now / 1000 : Nat) + secs ∧
      (now / 1000 : Nat) + secs ≤ 8210266876799 then
    some ((now / 1000 : Nat) + secs)
  else none

/-- Runs an operation of the store; any error of it becomes `storeError`. -/
def orStoreError {α : Type} (p : M (Except JtiError α)) : ExceptT JwtError M α :=
  Prog.mapError (fun _ => JwtError.storeError) p

namespace TokenClaims

/-- Validates the claims against the issuer, the audience, the clock and the
store. An error of the store counts as "not valid". -/
def isVerify (store : JtiStore) (c : TokenClaims) (issuer audience : String) : M Bool := do
  let now : Nat ← call .utcNow
  if c.iss = issuer ∧ audience ∈ c.aud ∧ c.nbf ≤ asUsize (timestamp now) ∧
      c.iat ≤ asUsize (timestamp now) ∧ asUsize (timestamp now) < c.exp then
    match ← store.checkJti c.jti with
    | .ok found => pure found
    | .error _ => pure false
  else pure false

/-- The lifetime of a new token. -/
def expirationSeconds (env : Env) : Option Nat → Except JwtError Nat
  | some requested =>
    if requested < env.u64 "TOKEN_TTL_MIN_SECONDS" 1 ∨
        env.u64 "TOKEN_TTL_MAX_SECONDS" 86400 < requested then
      .error .unprocessableEntity
    else .ok requested
  | none =>
    match Text.parseU64 ((env "TOKEN_EXPIRATION_SECONDS").getD "3600") with
    | none => .error .unprocessableEntity
    | some v => .ok v

/-- Forms a new set of claims and registers its `jti` in the store. -/
def createNew (env : Env) (json : JsonText) (store : JtiStore) (issuer subject : String)
    (audience : List String) (ttl : Option Nat) (extra : List (String × Json)) :
    ExceptT JwtError M TokenClaims := do
  Prog.ofExcept (validateCustomClaims env json extra)
  let seconds ← Prog.ofExcept (expirationSeconds env ttl)
  match audience with
  | [] => throw .unprocessableEntity
  | firstAudience :: _ => do
    let now : Nat ← callE .utcNow
    match chronoAdd now (asI64 seconds) with
    | none => (panic "DateTime + TimeDelta overflowed" : M (Except JwtError TokenClaims))
    | some exp => do
      let jti : String ← callE .newUuid
      orStoreError (store.storeJti jti seconds)
      orStoreError (store.addToGroup (subjectGroup subject) jti exp)
      let jwt : TokenClaims :=
        { iss := issuer, sub := subject, aud := audience, exp := asUsize exp,
          iat := asUsize (timestamp now), nbf := asUsize (timestamp now), jti, extra }
      match ← Prog.liftE (jwt.isVerify store issuer firstAudience) with
      | true => pure jwt
      | false => throw .storeError

end TokenClaims

namespace JsonWebToken

/-- The digest a signature is made and checked with. -/
def digestOf (alg : String) : Option Digest :=
  if ["RS256", "ES256"].contains alg then some .sha256
  else if ["RS384", "ES384"].contains alg then some .sha384
  else if ["RS512", "ES512"].contains alg then some .sha512
  else none

/-- Signs a token and writes it as `header.payload.signature`. -/
def toString (libs : Libs) (headers : TokenHeaders) (claims : TokenClaims)
    (key : libs.ssl.PrivateKey) : Except JwtError String := do
  let headers64 ← headers.toBase64 libs.json
  let claims64 ← claims.toBase64 libs.json
  match libs.ssl.sign (digestOf headers.alg) key (Text.utf8 (headers64 ++ "." ++ claims64)) with
  | none => .error .badSignature
  | some signature =>
    .ok (headers64 ++ "." ++ claims64 ++ "." ++ String.ofList (Base64Url.encode signature))

/-- Checks the signature segment over the first two segments. -/
def checkSignature (ssl : OpenSsl) (alg : String) (key : ssl.PublicKey)
    (headersSegment claimsSegment signatureSegment : String) : Except JwtError Unit :=
  match decodeBase64 signatureSegment with
  | none => .error .broken
  | some signature =>
    match ssl.verify (digestOf alg) key signature
        (Text.utf8 (headersSegment ++ "." ++ claimsSegment)) with
    | some true => .ok ()
    | _ => .error .badSignature

/-- Parses a token and verifies it fully. -/
def fromString (env : Env) (libs : Libs) (store : JtiStore) (token issuer audience : String) :
    ExceptT JwtError M (TokenHeaders × TokenClaims) :=
  match Text.split '.' token with
  | headersSegment :: claimsSegment :: signatureSegment :: _ => do
    let headers ← Prog.ofExcept (TokenHeaders.fromBase64 libs.json headersSegment)
    let key ← Prog.mapError (fun _ => JwtError.badSignature)
      (KeyManager.getPublicKey libs.ssl headers.kid)
    Prog.ofExcept (checkSignature libs.ssl headers.alg key headersSegment claimsSegment
      signatureSegment)
    let claims ← Prog.ofExcept (TokenClaims.fromBase64 libs.json claimsSegment)
    if headers.isVerify env then
      match ← Prog.liftE (claims.isVerify store issuer audience) with
      | true => pure (headers, claims)
      | false => throw .notValid
    else throw .notValid
  | _ => throw .broken

end JsonWebToken

namespace JwtManager

variable (env : Env) (libs : Libs) (store : JtiStore)

/-- `TOKEN_ALGORITHM`, as read at the start of the process. -/
def algorithm : String := (env "TOKEN_ALGORITHM").getD "RS256"

/-- Generates and signs a new token. -/
def generateToken (issuer subject : String) (audience : List String) (ttl : Option Nat)
    (extra : List (String × Json)) : ExceptT JwtError M String := do
  let (jwk, privateKey) ← Prog.mapError (fun _ => JwtError.keyError)
    (KeyManager.getPrivateKey libs.ssl (algorithm env))
  let claims ← TokenClaims.createNew env libs.json store issuer subject audience ttl extra
  Prog.ofExcept (JsonWebToken.toString libs (TokenHeaders.createNew env jwk.kid) claims privateKey)

/-- The claims in the second segment of a token. -/
def claimsSegmentOf (access : String) : Except JwtError TokenClaims :=
  match (Text.split '.' access)[1]? with
  | none => .error .broken
  | some segment => TokenClaims.fromBase64 libs.json segment

/-- Registers an access token in the group of its family. -/
def registerAccessInFamily (access family : String) : ExceptT JwtError M Unit := do
  let claims ← Prog.ofExcept (claimsSegmentOf libs access)
  orStoreError (store.addToGroup (familyGroup family) claims.jti (asI64 claims.exp))

/-- Issues a refresh token and registers it in its family. -/
def issueRefresh (subject : String) (audience : List String) (family : String) :
    ExceptT JwtError M String := do
  let ttl := env.u64 "REFRESH_TOKEN_TTL_SECONDS" 2592000
  let id : String ← callE .newUuid
  orStoreError (store.storeRefresh id { subject, audience, family } ttl)
  let now : Nat ← callE .utcNow
  -- The sum of two `i64` wraps in a release build.
  let expiresAt := asI64 (asUsize (timestamp now + asI64 ttl))
  orStoreError (store.addToGroup (familyGroup family) (refreshKey id) expiresAt)
  pure id

/-- Issues an access token together with a refresh token of a new family. -/
def generateTokenPair (issuer subject : String) (audience : List String) (ttl : Option Nat)
    (extra : List (String × Json)) : ExceptT JwtError M (String × String) := do
  let family : String ← callE .newUuid
  let access ← generateToken env libs store issuer subject audience ttl extra
  registerAccessInFamily libs store access family
  let refresh ← issueRefresh env store subject audience family
  pure (access, refresh)

/-- What an exchange does once its mark is set: a new pair of the family. -/
def exchange (issuer : String) (record : RefreshRecord) :
    ExceptT JwtError M (String × String) := do
  let access ← generateToken env libs store issuer record.subject record.audience none []
  registerAccessInFamily libs store access record.family
  let refresh ← issueRefresh env store record.subject record.audience record.family
  pure (access, refresh)

/-- Exchanges a refresh token for a new pair; one used before kills its
family. -/
def refreshTokenPair (refreshToken issuer : String) : ExceptT JwtError M (String × String) := do
  match ← orStoreError (store.getRefresh refreshToken) with
  | none => throw .notValid
  | some record => do
    match ← orStoreError (store.markRefreshUsed refreshToken) with
    | false => do
      let _ ← orStoreError (store.revokeGroup (familyGroup record.family))
      throw .notValid
    | true => exchange env libs store issuer record

/-- Verifies a token and returns its claims. -/
def verifyToken (token issuer audience : String) : ExceptT JwtError M TokenClaims := do
  let (_, claims) ← JsonWebToken.fromString env libs store token issuer audience
  pure claims

end JwtManager

end JwtService

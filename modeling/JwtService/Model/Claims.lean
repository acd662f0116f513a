import JwtService.Codec.Base64Url
import JwtService.Codec.Json
import JwtService.Codec.Text

/-!
# The header and the claims of a token (`models/jwt.rs`)

`TokenClaims` and `TokenHeaders`, their encoding as JSON and base64url, and
the checks made on them that need neither the store nor the clock. The text
of a JSON value is the business of `serde_json`, which is a parameter here
(`Libs`); what the derived implementations of `Serialize` and `Deserialize`
do with the value is modelled by `toJson` and `ofJson`.

Configuration is read from the environment of the process (`Env`) at each
use, as in the source.
-/

namespace JwtService

/-- The environment variables of the process. -/
abbrev Env := String → Option String

/-- `env_u64` of `models/jwt.rs` and `jwt.rs`. -/
def Env.u64 (env : Env) (key : String) (default : Nat) : Nat :=
  ((env key).bind Text.parseU64).getD default

inductive JwtError where
  | unprocessableEntity
  | storeError
  | badSignature
  | notValid
  | broken
  | keyError
  | serialization
deriving DecidableEq, Repr

/-- The message of an error (`#[error(..)]`). -/
def JwtError.text : JwtError → String
  | .unprocessableEntity => "Unprocessable entity"
  | .storeError => "Store error"
  | .badSignature => "Bad signature"
  | .notValid => "Not valid"
  | .broken => "Broken"
  | .keyError => "Key error"
  | .serialization => "Serialization failed"

/-- `x as usize` of an `i64`. -/
def asUsize (x : Int) : Nat := (x % 2 ^ 64).toNat

/-- `x as i64` of a `u64`. -/
def asI64 (x : Nat) : Int := if x < 2 ^ 63 then x else x - 2 ^ 64

/-! ## Reading fields -/

/-- A field that has to be there exactly once. -/
def uniqueField (fs : List (String × Json)) (name : String) : Option Json :=
  match fs.filter fun f => f.1 = name with
  | [f] => some f.2
  | _ => none

/-- A field of type `Option`: it may be missing, but not twice there. -/
def optionalField (fs : List (String × Json)) (name : String) : Option Json :=
  match fs.filter fun f => f.1 = name with
  | [] => some .null
  | [f] => some f.2
  | _ => none

/-- Adds an entry to a `serde_json::Map`, which is ordered by name; a name
already there gets the new value. -/
def mapInsert : List (String × Json) → String × Json → List (String × Json)
  | [], f => [f]
  | g :: m, f =>
    if f.1 < g.1 then f :: g :: m
    else if f.1 = g.1 then f :: m
    else g :: mapInsert m f

/-! ## Claims -/

structure TokenClaims where
  iss : String
  sub : String
  aud : List String
  exp : Nat
  iat : Nat
  nbf : Nat
  jti : String
  extra : List (String × Json)

def reservedClaims : List String := ["iss", "sub", "aud", "exp", "iat", "nbf", "jti"]

/-- The checks on custom claims before a token is issued. -/
def validateCustomClaims (env : Env) (t : JsonText) (claims : List (String × Json)) :
    Except JwtError Unit :=
  if claims = [] then .ok ()
  else if claims.length > env.u64 "TOKEN_CLAIMS_MAX_COUNT" 32 then .error .unprocessableEntity
  else if claims.any fun f => reservedClaims.contains f.1 then .error .unprocessableEntity
  else match t.print (.obj claims) with
    | none => .error .serialization
    | some s =>
      if (Text.utf8 s).length > env.u64 "TOKEN_CLAIMS_MAX_BYTES" 4096 then
        .error .unprocessableEntity
      else .ok ()

namespace TokenClaims

def toJson (c : TokenClaims) : List (String × Json) :=
  [("iss", .str c.iss), ("sub", .str c.sub), ("aud", .arr (c.aud.map .str)), ("exp", .int c.exp),
    ("iat", .int c.iat), ("nbf", .int c.nbf), ("jti", .str c.jti)] ++ c.extra

def ofJson : Json → Option TokenClaims
  | .obj fs => do
    let iss ← (← uniqueField fs "iss").asStr
    let sub ← (← uniqueField fs "sub").asStr
    let aud ← (← uniqueField fs "aud").asStrs
    let exp ← (← uniqueField fs "exp").asUsize
    let iat ← (← uniqueField fs "iat").asUsize
    let nbf ← (← uniqueField fs "nbf").asUsize
    let jti ← (← uniqueField fs "jti").asStr
    let extra := (fs.filter fun f => ¬ reservedClaims.contains f.1).foldl mapInsert []
    some { iss, sub, aud, exp, iat, nbf, jti, extra }
  | _ => none

def toBase64 (t : JsonText) (c : TokenClaims) : Except JwtError String :=
  match t.print (.obj c.toJson) with
  | none => .error .serialization
  | some s => .ok (String.ofList (Base64Url.encode (Text.utf8 s)))

def fromBase64 (t : JsonText) (segment : String) : Except JwtError TokenClaims :=
  match Base64Url.decode segment.toList with
  | none => .error .broken
  | some bytes =>
    match Text.fromUtf8 bytes with
    | none => .error .broken
    | some json =>
      match (t.parse json).bind ofJson with
      | none => .error .broken
      | some c => .ok c

end TokenClaims

/-! ## Headers -/

structure TokenHeaders where
  alg : String
  kid : String
  typ : String
  jku : Option String
deriving DecidableEq, Repr

def supportedAlgorithms : List String :=
  ["RS256", "RS384", "RS512", "ES256", "ES384", "ES512", "EdDSA"]

namespace TokenHeaders

def createNew (env : Env) (kid : String) : TokenHeaders :=
  { alg := (env "TOKEN_ALGORITHM").getD "RS256", kid, typ := "JWT", jku := env "TOKEN_JKU" }

def toJson (h : TokenHeaders) : List (String × Json) :=
  [("alg", .str h.alg), ("kid", .str h.kid), ("typ", .str h.typ)] ++
    h.jku.toList.map fun u => ("jku", .str u)

/-- Unlike the claims, a header may also be written as the array of its
fields. -/
def ofJson : Json → Option TokenHeaders
  | .obj fs => do
    let alg ← (← uniqueField fs "alg").asStr
    let kid ← (← uniqueField fs "kid").asStr
    let typ ← (← uniqueField fs "typ").asStr
    let jku ← (← optionalField fs "jku").asOptionStr
    some { alg, kid, typ, jku }
  | .arr [a, k, y, u] => do
    some { alg := ← a.asStr, kid := ← k.asStr, typ := ← y.asStr, jku := ← u.asOptionStr }
  | _ => none

def toBase64 (t : JsonText) (h : TokenHeaders) : Except JwtError String :=
  match t.print (.obj h.toJson) with
  | none => .error .serialization
  | some s => .ok (String.ofList (Base64Url.encode (Text.utf8 s)))

def fromBase64 (t : JsonText) (segment : String) : Except JwtError TokenHeaders :=
  match Base64Url.decode segment.toList with
  | none => .error .broken
  | some bytes =>
    match Text.fromUtf8 bytes with
    | none => .error .broken
    | some json =>
      match (t.parse json).bind ofJson with
      | none => .error .broken
      | some h => .ok h

def isVerify (env : Env) (h : TokenHeaders) : Bool :=
  supportedAlgorithms.contains h.alg && h.jku == env "TOKEN_JKU" && h.typ == "JWT"

end TokenHeaders

end JwtService

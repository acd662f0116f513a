import JwtService.Model.Handlers

/-!
# Access control (`auth.rs`)

What the access levels make of the headers of a request: the validators of
the proxy secret, of the TOTP codes and of the metrics token, and `AuthConfig`
with the level's validator and the reservation of a code. The HMAC of OpenSSL
is a parameter (`Hmac`). `authorize` gets the time from its caller.
-/

namespace JwtService

/-- The headers of a request, with their names in lower case. -/
abbrev HeaderMap := List (String × List UInt8)

/-- The first value of a header. -/
def HeaderMap.get (h : HeaderMap) (name : String) : Option (List UInt8) :=
  h.lookup (Text.toAsciiLowercase name)

/-- The characters of a header value; `none` unless it is visible ASCII. -/
def headerText (value : List UInt8) : Option (List Char) :=
  if value.all fun b => b == 9 || (32 ≤ b && b < 127) then
    some (value.map fun b => Char.ofNat b.toNat)
  else none

inductive MessageDigest where
  | sha1
  | sha256
  | sha512
deriving DecidableEq, Repr

/-- The bytes of a digest. -/
def MessageDigest.size : MessageDigest → Nat
  | .sha1 => 20
  | .sha256 => 32
  | .sha512 => 64

/-- The HMAC of OpenSSL under a digest: of a key and the data; `none` is an
error of the library. -/
structure Hmac where
  mac : MessageDigest → List UInt8 → List UInt8 → Option (List UInt8)
  size : ∀ d key data m, mac d key data = some m → m.length = d.size

/-- `u64::to_be_bytes`. -/
def toBeBytes (x : Nat) : List UInt8 :=
  (List.range 8).map fun i => UInt8.ofNat (x / 2 ^ (8 * (7 - i)))

/-- `format!("{:0width$}")` of a number. -/
def zeroPadded (width n : Nat) : String := String.ofList ((Nat.toDigits 10 n).leftpad width '0')

section

variable (ssl : Hmac)

/-- Computes the HOTP code for a secret and a counter. -/
def hotp (secret : List UInt8) (counter digits : Nat) (digest : MessageDigest) : Option String := do
  let hs ← ssl.mac digest secret (toBeBytes counter)
  -- Dynamic truncation; the HMAC is long enough for every offset.
  let offset := (hs.getLastD 0 &&& 0x0f).toNat
  let bin := ((hs.getD offset 0).toNat &&& 0x7f) <<< 24 ||| (hs.getD (offset + 1) 0).toNat <<< 16 |||
    (hs.getD (offset + 2) 0).toNat <<< 8 ||| (hs.getD (offset + 3) 0).toNat
  some (zeroPadded digits (bin % 10 ^ digits))

/-- `u32::pow`; no result where it overflows. -/
def u32Pow (base : UInt32) (exp : Nat) : Option UInt32 :=
  if base.toNat ^ exp < 2 ^ 32 then some (UInt32.ofNat (base.toNat ^ exp)) else none

/-- `hotp` with the indices and the `u32` of the source, which panics where this
has no result. -/
def hotpChecked (secret : List UInt8) (counter digits : Nat) (digest : MessageDigest) :
    Option (Option String) :=
  match ssl.mac digest secret (toBeBytes counter) with
  | none => some none
  | some hs => do
    -- Of an empty MAC there is no last byte at index 0 either.
    let last ← hs[hs.length - 1]?
    let offset := (last &&& 0x0f).toNat
    let b₀ ← hs[offset]?
    let b₁ ← hs[offset + 1]?
    let b₂ ← hs[offset + 2]?
    let b₃ ← hs[offset + 3]?
    let bin := (b₀.toUInt32 &&& 0x7f) <<< 24 ||| b₁.toUInt32 <<< 16 ||| b₂.toUInt32 <<< 8 |||
      b₃.toUInt32
    -- A power of ten that does not overflow is not zero.
    let modulus ← u32Pow 10 digits
    some (some (zeroPadded digits (bin % modulus).toNat))

/-! ## The validators -/

structure ProxyValidator where
  header : String
  secret : List UInt8

def ProxyValidator.validate (v : ProxyValidator) (headers : HeaderMap) : Bool :=
  match headers.get v.header with
  | some provided => provided.length == v.secret.length && provided == v.secret
  | none => false

structure MetricsValidator where
  token : Option (List UInt8)

/-- `str::split_once` at a space. -/
def splitOnce (cs : List Char) : Option (List Char × List Char) :=
  match cs.dropWhile (· ≠ ' ') with
  | [] => none
  | _ :: rest => some (cs.takeWhile (· ≠ ' '), rest)

/-- Checks `Authorization: Bearer <token>`. Without a token it rejects
everything. -/
def MetricsValidator.validate (v : MetricsValidator) (headers : HeaderMap) : Bool :=
  match v.token, (headers.get "Authorization").bind headerText with
  | some expected, some value =>
    match splitOnce value with
    | none => false
    | some (scheme, provided) =>
      scheme.map Char.toLower == "bearer".toList &&
        Text.utf8 (Text.trim (String.ofList provided)) == expected
  | _, _ => false

structure TotpValidator where
  header : String
  /-- One or two secrets; the second is needed during a rotation. -/
  secrets : List (List UInt8)
  step : Nat
  digits : Nat
  skew : Nat
  digest : MessageDigest

namespace TotpValidator

variable (v : TotpValidator)

/-- Two hexadecimal digits. -/
def hexByte (b : UInt8) : List Char := (Nat.toDigits 16 b.toNat).leftpad 2 '0'

/-- The fingerprint of the presented code, under the first secret. -/
def codeFingerprint (headers : HeaderMap) : Option String := do
  let provided ← headers.get v.header
  let secret ← v.secrets.head?
  let digest ← ssl.mac .sha256 secret provided
  some (String.ofList (digest.flatMap hexByte))

/-- How many seconds the fingerprint of a code is kept. The product wraps in a
release build. -/
def replayWindowSeconds : Nat := v.step * ((2 * v.skew + 1) % 2 ^ 64) % 2 ^ 64

/-- The windows whose codes are accepted at `now`; the bounds saturate. -/
def windows (now : Nat) : List Nat :=
  let counter := now / v.step
  let low := counter - v.skew
  let high := min (counter + v.skew) (2 ^ 64 - 1)
  List.range' low (high + 1 - low)

/-- Validates the code from the header as of `now`, in seconds: it is the code
of a secret in one of the windows. -/
def validate (headers : HeaderMap) (now : Nat) : Bool :=
  match headers.get v.header with
  | none => false
  | some provided => v.secrets.any fun secret => (v.windows now).any fun c =>
    match hotp ssl secret c v.digits v.digest with
    | none => false
    | some code => provided == Text.utf8 code

end TotpValidator

/-! ## The configuration -/

structure AuthConfig where
  proxy : ProxyValidator
  totp : TotpValidator
  metrics : MetricsValidator
  totpReplayProtection : Bool

namespace AuthConfig

variable (auth : AuthConfig)

/-- The fingerprint of the presented code and how long it lives in the store. -/
def totpReplayClaim (headers : HeaderMap) : Option (String × Nat) := do
  let fingerprint ← auth.totp.codeFingerprint ssl headers
  some (fingerprint, auth.totp.replayWindowSeconds)

/-- Allows or rejects a request for a level, at a time in seconds. -/
def authorize (level : AuthLevel) (headers : HeaderMap) (now : Nat) : Bool :=
  match level with
  | .openAccess => true
  | .proxySecret => auth.proxy.validate headers
  | .totp => auth.totp.validate ssl headers now
  | .metricsToken => auth.metrics.validate headers

end AuthConfig

end

end JwtService

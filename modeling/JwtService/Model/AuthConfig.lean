import JwtService.Model.Auth

/-!
# The secrets of the access levels (`auth.rs`)

`AuthConfig::from_env`, which refuses to start the service without the proxy
secret and a TOTP secret, and `base32_decode`, which reads a TOTP secret. The
loop of `base32_decode` is one step (`base32Step`) for each character.
-/

namespace JwtService

/-! ## Base32 -/

/-- `b"ABCDEFGHIJKLMNOPQRSTUVWXYZ234567"`. -/
def base32Alphabet : List UInt8 := Text.utf8 "ABCDEFGHIJKLMNOPQRSTUVWXYZ234567"

/-- The variables of the loop of `base32_decode`. The counter stays below 13. -/
structure Base32State where
  buffer : UInt64
  bits : Nat
  out : List UInt8

/-- One character. The cast to a byte keeps the low bits of the character, and
the shift drops the high bits of the buffer. -/
def base32Step (s : Base32State) (ch : Char) : Option Base32State :=
  if Text.isWhite ch || ch == '=' then some s
  else do
    let up := UInt8.ofNat ch.toUpper.toNat
    let value ← base32Alphabet.idxOf? up
    let buffer := s.buffer <<< 5 ||| UInt64.ofNat value
    let bits := s.bits + 5
    if bits ≥ 8 then
      some ⟨buffer, bits - 8, s.out ++ [(buffer >>> UInt64.ofNat (bits - 8)).toUInt8]⟩
    else some ⟨buffer, bits, s.out⟩

/-- Decodes a base32 string into bytes. -/
def base32Decode (input : String) : Option (List UInt8) :=
  (input.toList.foldlM base32Step ⟨0, 0, []⟩).map Base32State.out

/-! ## The configuration -/

/-- The digest of a hash name; SHA-1 by default. -/
def digestByName (name : String) : MessageDigest :=
  let name := Text.toAsciiUppercase (Text.trim name)
  if ["SHA256", "SHA-256"].contains name then .sha256
  else if ["SHA512", "SHA-512"].contains name then .sha512
  else .sha1

namespace AuthConfig

/-- The problems found so far, and the TOTP secrets read so far. -/
structure Reading where
  errors : List String
  secrets : List (List UInt8)

/-- One turn of the loop over the variables of the TOTP secrets. A variable
that is not set or blank is passed over. -/
def readSecret (env : Env) (r : Reading) (var : String) : Reading :=
  match env var with
  | none => r
  | some raw =>
    if Text.trim raw = "" then r
    else match (base32Decode raw).filter (· ≠ []) with
      | some bytes => { r with secrets := r.secrets ++ [bytes] }
      | none => { r with errors := r.errors ++ [var ++ " is not valid base32"] }

/-- Assembles the configuration from environment variables, or lists the
problems. -/
def fromEnv (env : Env) : Except String AuthConfig :=
  let proxyHeader := (env "AUTH_PROXY_SECRET_HEADER").getD "X-Proxy-Secret"
  let proxySecret := (env "AUTH_PROXY_SECRET").filter (· ≠ "")
  let errors := if proxySecret = none then
    ["AUTH_PROXY_SECRET is not set (mandatory for level 2 — the proxy secret)"] else []
  let totpHeader := (env "AUTH_TOTP_HEADER").getD "X-TOTP-Code"
  let read := ["AUTH_TOTP_SECRET", "AUTH_TOTP_SECRET_NEXT"].foldl (readSecret env) ⟨errors, []⟩
  let errors := if read.secrets = [] then
    read.errors ++ ["AUTH_TOTP_SECRET is not set (mandatory for level 3 — TOTP)"] else read.errors
  let metricsToken := ((env "AUTH_METRICS_TOKEN").map Text.trim).filter (· ≠ "")
  if errors ≠ [] then .error ("; ".intercalate errors)
  else
    let digits := max 6 (min 8 (env.u64 "AUTH_TOTP_DIGITS" 6))
    let step := max (env.u64 "AUTH_TOTP_STEP_SECONDS" 30) 1
    let skew := env.u64 "AUTH_TOTP_SKEW_STEPS" 1
    let digest := digestByName ((env "AUTH_TOTP_ALGORITHM").getD "SHA1")
    let totpReplayProtection := ((env "AUTH_TOTP_REPLAY_PROTECTION").map fun v =>
      ["1", "true", "yes"].contains (Text.toAsciiLowercase (Text.trim v))).getD false
    match proxySecret with
    -- The panic of `expect`; there is an error then.
    | none => .error "proxy secret present"
    | some secret => .ok
      { proxy := ⟨proxyHeader, Text.utf8 secret⟩
        totp := ⟨totpHeader, read.secrets, step, digits, skew, digest⟩
        metrics := ⟨metricsToken.map Text.utf8⟩
        totpReplayProtection }

end AuthConfig

end JwtService

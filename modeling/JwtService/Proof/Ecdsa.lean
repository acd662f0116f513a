import JwtService.Codec.Der
import JwtService.Proof.TokenForm

/-!
# ECDSA signatures

The signature segment of a token is what OpenSSL's signer returns and what its
verifier is given. With an elliptic-curve key both are the DER SEQUENCE of the
two numbers (`Ecdsa`), and JWS has them in two fields of fixed length: no token
that is issued has that form, and one that has it is not accepted for the pair
of numbers it carries (`ecdsa_never_raw`).
-/

namespace JwtService

open Interaction

/-- The bytes of a field of a signature: 64, 96 or 132 for both. -/
def Curve.octets : Curve → Nat
  | .p256 => 32
  | .p384 => 48
  | .p521 => 66

theorem Curve.octets_range (c : Curve) : 8 ≤ c.octets ∧ c.octets ≤ 66 := by
  cases c <;> decide

/-- Both numbers fit into their fields. -/
def Curve.Fits (c : Curve) (r s : Nat) : Prop := r < 256 ^ c.octets ∧ s < 256 ^ c.octets

/-- What OpenSSL's signer emits and its verifier expects with an
elliptic-curve key. -/
structure Ecdsa (ssl : OpenSsl) (curve : ssl.PrivateKey → Option Curve) : Prop where
  emits {digest : Option Digest} {key : ssl.PrivateKey} {message signature : List UInt8} {c : Curve} :
    curve key = some c → ssl.sign digest key message = some signature →
    ∃ r s, c.Fits r s ∧ signature = Der.signature r s
  expects {digest : Option Digest} {c : Curve} {x y message signature : List UInt8}
    {key : ssl.PublicKey} : ssl.ecPublicKey c x y = some key →
    ssl.verify digest key signature message = some true →
    ∃ r s, c.Fits r s ∧ signature = Der.signature r s

/-- The curve of a JWK that is published for an `ES*` algorithm. -/
theorem publicKeyOf_es {ssl : OpenSsl} {jwk : Jwk} {key : ssl.PublicKey} {c : Curve}
    (hc : KeyManager.curveOf jwk.alg = some c) (h : KeyManager.publicKeyOf ssl jwk = .ok key) :
    ∃ x y, ssl.ecPublicKey c x y = some key := by
  have halg : jwk.alg = "ES256" ∨ jwk.alg = "ES384" ∨ jwk.alg = "ES512" := by
    unfold KeyManager.curveOf at hc
    split at hc
    · exact .inl ‹_›
    · exact .inr (.inl ‹_›)
    · exact .inr (.inr ‹_›)
    · cases hc
  have hes : KeyManager.publicKeyOf ssl jwk = KeyManager.publicKeyFromEs ssl jwk := by
    unfold KeyManager.publicKeyOf
    rcases halg with ha | ha | ha <;> rw [ha] <;> rfl
  rw [hes, KeyManager.publicKeyFromEs, hc] at h
  dsimp only at h
  split at h
  · rename_i x y _ _
    split at h
    · cases h
    · rename_i found
      cases h
      exact ⟨x, y, found⟩
  · cases h

section

variable {env : Env} {libs : Libs} {store : JtiStore} {curve : libs.ssl.PrivateKey → Option Curve}
  {headers : TokenHeaders} {claims : TokenClaims} {key : libs.ssl.PrivateKey} {token : String}
  {c : Curve}

/-- The signature of an issued token decodes to a SEQUENCE, never to the two
fields of JWS. A token in the form of JWS is accepted only if its bytes are by
chance the SEQUENCE of another pair of numbers. -/
theorem ecdsa_never_raw (ecdsa : Ecdsa libs.ssl curve) (hc : curve key = some c)
    (hs : JsonWebToken.toString libs headers claims key = .ok token) :
    (∃ s₁ s₂ s₃ signature, Text.split '.' token = [s₁, s₂, s₃] ∧ decodeBase64 s₃ = some signature ∧
      (∃ r s, c.Fits r s ∧ signature = Der.signature r s) ∧
      ∀ r s, c.Fits r s → signature = Der.signature r s → signature ≠ Der.raw c.octets r s) ∧
    ∀ {received issuer audience s₁ s₂ s₃ : String} {rest : List String} {h : TokenHeaders}
      {accepted : TokenClaims} {jwk : Jwk} {pub : libs.ssl.PublicKey} {ks es : List (Call svc)}
      {r s : Nat}, KeyManager.curveOf jwk.alg = some c →
      Text.split '.' received = s₁ :: s₂ :: s₃ :: rest → c.Fits r s →
      decodeBase64 s₃ = some (Der.raw c.octets r s) →
      Accepts env libs store received issuer audience h accepted jwk pub ks es →
      ∃ r' s', (r', s') ≠ (r, s) ∧ Der.raw c.octets r s = Der.signature r' s' := by
  obtain ⟨hlow, hhigh⟩ := c.octets_range
  constructor
  · obtain ⟨s₁, s₂, signature, -, -, hsig, hsplit⟩ := toString_segments hs
    refine ⟨s₁, s₂, _, signature, hsplit, ?_, ecdsa.emits hc hsig, ?_⟩
    · rw [decodeBase64, String.toList_ofList, Base64Url.decode_encode]
    · rintro r s ⟨hr, hs⟩ rfl
      exact Der.signature_ne_raw hlow hhigh hr hs
  · intro received issuer audience s₁ s₂ s₃ rest h accepted jwk pub ks es r s hjwk hsplit hfit hraw ha
    obtain ⟨x, y, hpub⟩ := publicKeyOf_es hjwk ha.assembled
    obtain ⟨_, _, _, _, signature, hsplit', -, hdec, hver, -⟩ := ha.split
    rw [hsplit] at hsplit'
    cases hsplit'
    rw [hraw] at hdec
    cases hdec
    obtain ⟨r', s', -, he⟩ := ecdsa.expects hpub hver
    refine ⟨r', s', ?_, he⟩
    intro hpair
    cases hpair
    exact Der.signature_ne_raw hlow hhigh hfit.1 hfit.2 he.symm

end

/-- An OpenSSL whose keys are curves, and that always signs with the same two
numbers. -/
def fixedPairSsl : OpenSsl where
  PrivateKey := Curve
  PublicKey := Curve
  privateKeyFromPkcs8 _ := none
  rsaPublicKey _ _ := none
  ecPublicKey c _ _ := some c
  edPublicKey _ _ := none
  sign _ _ _ := some (Der.signature (2 ^ 255) (2 ^ 255 + 1))
  verify _ _ signature _ := some (signature == Der.signature (2 ^ 255) (2 ^ 255 + 1))

theorem fixedPairSsl_ecdsa : Ecdsa fixedPairSsl some := by
  have hfits : ∀ c : Curve, c.Fits (2 ^ 255) (2 ^ 255 + 1) := by
    intro c
    cases c <;> exact ⟨by decide, by decide⟩
  constructor
  · intro digest key message signature c _ hs
    cases hs
    exact ⟨_, _, hfits c, rfl⟩
  · intro digest c x y message signature key _ hv
    have he : (signature == Der.signature (2 ^ 255) (2 ^ 255 + 1)) = true := Option.some.inj hv
    exact ⟨_, _, hfits c, beq_iff_eq.mp he⟩

theorem fixedPair_token : ∃ token, JsonWebToken.toString ⟨.compact, fixedPairSsl⟩
    ⟨"ES256", "key-1", "JWT", none⟩ (newClaims "host" "user" ["api"] 0 60 uuidA []) Curve.p256 =
      .ok token :=
  ⟨_, rfl⟩

theorem ecdsa_never_raw_es256 : ∃ token s₁ s₂ s₃ signature,
    JsonWebToken.toString ⟨.compact, fixedPairSsl⟩ ⟨"ES256", "key-1", "JWT", none⟩
      (newClaims "host" "user" ["api"] 0 60 uuidA []) Curve.p256 = .ok token ∧
    Text.split '.' token = [s₁, s₂, s₃] ∧ decodeBase64 s₃ = some signature ∧
    ∀ r s, Curve.p256.Fits r s → signature = Der.signature r s → signature ≠ Der.raw 32 r s := by
  obtain ⟨token, hs⟩ := fixedPair_token
  obtain ⟨⟨s₁, s₂, s₃, signature, hsplit, hdec, -, hne⟩, -⟩ := @ecdsa_never_raw bareEnv
    ⟨.compact, fixedPairSsl⟩ (redisClient .compact) some _ _ Curve.p256 token .p256
    fixedPairSsl_ecdsa rfl hs
  exact ⟨token, s₁, s₂, s₃, signature, hs, hsplit, hdec, hne⟩

/-- An ES256 token whose signature has 72 bytes. -/
theorem ecdsa_signature_length : ∃ token s₁ s₂ s₃ signature,
    JsonWebToken.toString ⟨.compact, fixedPairSsl⟩ ⟨"ES256", "key-1", "JWT", none⟩
      (newClaims "host" "user" ["api"] 0 60 uuidA []) Curve.p256 = .ok token ∧
    Text.split '.' token = [s₁, s₂, s₃] ∧ decodeBase64 s₃ = some signature ∧
    signature.length = 72 ∧ ∀ r s, (Der.raw Curve.p256.octets r s).length = 64 := by
  obtain ⟨token, hs⟩ := fixedPair_token
  obtain ⟨s₁, s₂, signature, -, -, hsig, hsplit⟩ := toString_segments hs
  cases hsig
  refine ⟨token, s₁, s₂, _, Der.signature (2 ^ 255) (2 ^ 255 + 1), hs, hsplit, ?_, by decide, ?_⟩
  · rw [decodeBase64, String.toList_ofList, Base64Url.decode_encode]
  · intro r s
    rw [Der.raw, List.length_append, Der.length_fixed, Der.length_fixed]
    rfl

end JwtService

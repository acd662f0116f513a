import JwtService.Proof.Past
import JwtService.Proof.Verification

/-!
# What an accepted token looks like

`fromString_ok_iff` says which strings `from_string` accepts, and on which
answers. Only the first three segments count (`fromString_congr`), so whatever
is appended to an accepted token is accepted with it. The alg of the header
selects the digest and the alg of the JWK the key, and nothing compares them.
-/

namespace JwtService

open Interaction

section FromString

variable {env : Env} {libs : Libs} {store : JtiStore} {token issuer audience : String}
  {headers : TokenHeaders} {claims : TokenClaims} {cs : List (Call svc)}

/-- Strings with the same first three segments are one to the parser. -/
theorem fromString_congr {token' s₁ s₂ s₃ : String} {rest rest' : List String}
    (h : Text.split '.' token = s₁ :: s₂ :: s₃ :: rest)
    (h' : Text.split '.' token' = s₁ :: s₂ :: s₃ :: rest') :
    JsonWebToken.fromString env libs store token issuer audience =
      JsonWebToken.fromString env libs store token' issuer audience := by
  unfold JsonWebToken.fromString
  rw [h, h']

theorem checkSignature_of {ssl : OpenSsl} {alg : String} {key : ssl.PublicKey} {s₁ s₂ s₃ : String}
    {signature : List UInt8} (hs : decodeBase64 s₃ = some signature)
    (hv : ssl.verify (JsonWebToken.digestOf alg) key signature (Text.utf8 (s₁ ++ "." ++ s₂)) =
      some true) : JsonWebToken.checkSignature ssl alg key s₁ s₂ s₃ = .ok () := by
  unfold JsonWebToken.checkSignature
  simp only [hs, hv]

/-- The path of a key. -/
theorem getPublicKey_ok_iff {ssl : OpenSsl} {kid : String} {key : ssl.PublicKey} :
    Prog.Path (KeyManager.getPublicKey ssl kid) cs (.ret (.ok key)) ↔
      ∃ jwk, Prog.Path (JwkService.publicKey kid) cs (.ret (.ok jwk)) ∧
        KeyManager.publicKeyOf ssl jwk = .ok key := by
  constructor
  · intro h
    obtain ⟨jwk, ks, cs', rfl, h₁, h₂⟩ := Prog.path_tryBind_ok h
    obtain ⟨rfl, hk⟩ := Prog.path_ofExcept h₂
    rw [List.append_nil]
    exact ⟨jwk, Prog.path_mapError_ok h₁, hk.symm⟩
  · rintro ⟨jwk, h, hk⟩
    rw [← List.append_nil cs]
    exact Prog.path_tryBind_of (Prog.path_mapError_of h) (Prog.path_ofExcept_of hk)

/-- All that a string has to pass to be accepted as a token. -/
structure Accepts (env : Env) (libs : Libs) (store : JtiStore) (token issuer audience : String)
    (headers : TokenHeaders) (claims : TokenClaims) (jwk : Jwk) (key : libs.ssl.PublicKey)
    (ks es : List (Call svc)) : Prop where
  split : ∃ s₁ s₂ s₃ rest signature, Text.split '.' token = s₁ :: s₂ :: s₃ :: rest ∧
    TokenHeaders.fromBase64 libs.json s₁ = .ok headers ∧ decodeBase64 s₃ = some signature ∧
    libs.ssl.verify (JsonWebToken.digestOf headers.alg) key signature
      (Text.utf8 (s₁ ++ "." ++ s₂)) = some true ∧
    TokenClaims.fromBase64 libs.json s₂ = .ok claims
  found : Prog.Path (JwkService.publicKey headers.kid) ks (.ret (.ok jwk))
  assembled : KeyManager.publicKeyOf libs.ssl jwk = .ok key
  header : headers.isVerify env = true
  valid : Prog.Path (claims.isVerify store issuer audience) es (.ret true)

/-- The last steps of the verification. -/
theorem path_checked (hv : headers.isVerify env = true)
    (hb : Prog.Path (claims.isVerify store issuer audience) es (.ret true)) :
    Prog.Path (if headers.isVerify env then
        (do match ← Prog.liftE (claims.isVerify store issuer audience) with
          | true => pure (headers, claims)
          | false => throw JwtError.notValid : ExceptT JwtError M (TokenHeaders × TokenClaims))
        else (throw JwtError.notValid : ExceptT JwtError M (TokenHeaders × TokenClaims)))
      es (.ret (.ok (headers, claims))) := by
  rw [if_pos hv, ← List.append_nil es]
  exact Prog.path_tryBind_of (Prog.path_liftE_of hb) (.nil _)

theorem fromString_ok_iff :
    Prog.Path (JsonWebToken.fromString env libs store token issuer audience) cs
      (.ret (.ok (headers, claims))) ↔
      ∃ jwk key ks es, Accepts env libs store token issuer audience headers claims jwk key ks es ∧
        cs = ks ++ es := by
  constructor
  · intro h
    obtain ⟨s₁, s₂, s₃, rest, key, signature, ks, es, hsplit, hhd, hkey, hs, hver, hcl, hv, hb, rfl⟩ :=
      fromString_steps h
    obtain ⟨jwk, hjwk, hkey⟩ := getPublicKey_ok_iff.mp hkey
    exact ⟨jwk, key, ks, es, ⟨⟨s₁, s₂, s₃, rest, signature, hsplit, hhd, hs, hver, hcl⟩, hjwk, hkey, hv,
      hb⟩, rfl⟩
  · rintro ⟨jwk, key, ks, es, ⟨⟨s₁, s₂, s₃, rest, signature, hsplit, hhd, hs, hver, hcl⟩, hjwk, hkey,
      hv, hb⟩, rfl⟩
    unfold JsonWebToken.fromString
    rw [hsplit]
    show Prog.Path _ ([] ++ (ks ++ ([] ++ ([] ++ es)))) _
    refine Prog.path_tryBind_of (Prog.path_ofExcept_of hhd) ?_
    refine Prog.path_tryBind_of (Prog.path_mapError_of (getPublicKey_ok_iff.mpr ⟨jwk, hjwk, hkey⟩)) ?_
    refine Prog.path_tryBind_of (Prog.path_ofExcept_of (checkSignature_of hs hver)) ?_
    exact Prog.path_tryBind_of (Prog.path_ofExcept_of hcl) (path_checked hv hb)

theorem split_suffix (token suffix : String) :
    Text.split '.' (token ++ "." ++ suffix) = Text.split '.' token ++ Text.split '.' suffix := by
  have h : token ++ "." ++ suffix = String.ofList (token.toList ++ '.' :: suffix.toList) := by
    apply String.toList_injective
    simp
  rw [h, Text.split_append_cons, String.ofList_toList, String.ofList_toList]

theorem isVerify_path {t : JsonText} {now : Nat} (hv : claims.Valid issuer audience now) :
    Prog.Path (claims.isVerify (redisClient t) issuer audience)
      [⟨.utcNow, now⟩, ⟨.redis (.exists claims.jti), .ok true⟩] (.ret true) := by
  refine Prog.Path.cons ?_
  show Prog.Path (if claims.Valid issuer audience now then _ else _) _ _
  rw [if_pos hv]
  exact .cons (.nil _)

/-- A token that was signed is accepted, on the answers that accept its parts. -/
theorem signed_accepted (ht : libs.json.Faithful) {key : libs.ssl.PrivateKey}
    {pub : libs.ssl.PublicKey} {jwk : Jwk} {ks : List (Call svc)} {now : Nat}
    (hs : JsonWebToken.toString libs headers claims key = .ok token)
    (hextra : NoReserved claims.extra) (hexp : claims.exp < 2 ^ 64) (hiat : claims.iat < 2 ^ 64)
    (hnbf : claims.nbf < 2 ^ 64) (hh : headers.isVerify env = true)
    (hk : Prog.Path (JwkService.publicKey headers.kid) ks (.ret (.ok jwk)))
    (hpub : KeyManager.publicKeyOf libs.ssl jwk = .ok pub)
    (hpair : ∀ m sig, libs.ssl.sign (JsonWebToken.digestOf headers.alg) key m = some sig →
      libs.ssl.verify (JsonWebToken.digestOf headers.alg) pub sig m = some true)
    (hv : claims.Valid issuer audience now) :
    ∃ x, Prog.Path (JsonWebToken.fromString env libs (redisClient libs.json) token issuer audience)
      (ks ++ [⟨.utcNow, now⟩, ⟨.redis (.exists claims.jti), .ok true⟩])
      (.ret (.ok (headers, { claims with extra := x }))) := by
  obtain ⟨s₁, s₂, signature, hs₁, hs₂, hsig, hsplit⟩ := toString_segments hs
  obtain ⟨c, hc, he⟩ := TokenClaims.claims_decode ht hextra hexp hiat hnbf hs₂
  rw [he] at hc
  have hdecode : decodeBase64 (String.ofList (Base64Url.encode signature)) = some signature := by
    rw [decodeBase64, String.toList_ofList, Base64Url.decode_encode]
  refine ⟨c.extra, fromString_ok_iff.mpr ⟨jwk, pub, ks, _, ⟨⟨s₁, s₂, _, [], signature, hsplit,
    TokenHeaders.headers_decode ht hs₁, hdecode, hpair _ _ hsig, hc⟩, hk, hpub, hh, ?_⟩, rfl⟩⟩
  exact @isVerify_path issuer audience { claims with extra := c.extra } libs.json now hv

end FromString

/-! ## A small instance -/

/-- An OpenSSL whose signature of a message is the digest and the message. -/
def taggingSsl : OpenSsl where
  PrivateKey := Unit
  PublicKey := Unit
  privateKeyFromPkcs8 _ := some ()
  rsaPublicKey _ _ := some ()
  ecPublicKey _ _ _ := some ()
  edPublicKey _ _ := some ()
  sign d _ message := some (tag d :: message)
  verify d _ signature message := some (signature == tag d :: message)
where
  tag : Option Digest → UInt8
    | none => 0
    | some .sha256 => 1
    | some .sha384 => 2
    | some .sha512 => 3

def taggingLibs : Libs := ⟨.compact, taggingSsl⟩

/-- A key published for RS256. -/
def rs256Key : Jwk := ⟨"RSA", "RS256", "key-1", none, none, none, some "AQAB", some "AQAB"⟩

/-- What a token of the key is answered with. -/
def accepting : Calls :=
  [⟨.cache (.lookupFresh "key-1"), some rs256Key⟩, ⟨.metric (.jwksCache "hit"), ()⟩, ⟨.utcNow, 0⟩,
    ⟨.redis (.exists uuidA), .ok true⟩]

/-- A token signed with the digest of its header. -/
theorem tagged_accepted {alg : String} (ha : alg ∈ supportedAlgorithms) :
    ∃ token x, JsonWebToken.toString taggingLibs ⟨alg, "key-1", "JWT", none⟩
        (newClaims "host" "user" ["api"] 0 60 uuidA []) () = .ok token ∧
      Prog.Path (JsonWebToken.fromString bareEnv taggingLibs (redisClient .compact) token "host" "api")
        accepting (.ret (.ok (⟨alg, "key-1", "JWT", none⟩,
          newClaims "host" "user" ["api"] 0 60 uuidA x))) := by
  obtain ⟨token, hs⟩ : ∃ token, JsonWebToken.toString taggingLibs ⟨alg, "key-1", "JWT", none⟩
      (newClaims "host" "user" ["api"] 0 60 uuidA []) () = .ok token := ⟨_, rfl⟩
  have hkey : Prog.Path (JwkService.publicKey "key-1")
      [⟨.cache (.lookupFresh "key-1"), some rs256Key⟩, ⟨.metric (.jwksCache "hit"), ()⟩]
      (.ret (.ok rs256Key)) := .cons (.cons (.nil _))
  have hheader : (⟨alg, "key-1", "JWT", none⟩ : TokenHeaders).isVerify bareEnv = true := by
    rw [TokenHeaders.isVerify, List.contains_iff_mem.mpr ha]
    rfl
  have hpair : ∀ m sig, taggingSsl.sign (JsonWebToken.digestOf alg) () m = some sig →
      taggingSsl.verify (JsonWebToken.digestOf alg) () sig m = some true := by
    rintro m sig h
    cases h
    exact congrArg some (beq_self_eq_true _)
  obtain ⟨x, hx⟩ := @signed_accepted bareEnv taggingLibs token "host" "api" ⟨alg, "key-1", "JWT", none⟩
    (newClaims "host" "user" ["api"] 0 60 uuidA []) JsonText.compact_faithful () () rs256Key _ 0
    hs (fun _ hf => absurd hf List.not_mem_nil) (by decide) (by decide) (by decide) hheader hkey rfl hpair
    (by decide)
  exact ⟨token, x, hs, hx⟩

/-! ## Segments -/

section Segments

variable {env : Env} {libs : Libs} {store : JtiStore} {token issuer audience : String}
  {headers : TokenHeaders} {claims : TokenClaims} {cs : List (Call svc)}

/-- What is appended to an accepted token behind a dot is not looked at: the
longer string is accepted as well, on the same answers, and gives the same
claims. -/
theorem suffix_accepted {r : TokenHeaders × TokenClaims}
    (h : Prog.Path (JsonWebToken.fromString env libs store token issuer audience) cs (.ret (.ok r)))
    (suffix : String) :
    Prog.Path (JsonWebToken.fromString env libs store (token ++ "." ++ suffix) issuer audience) cs
        (.ret (.ok r)) ∧ 3 < (Text.split '.' (token ++ "." ++ suffix)).length := by
  obtain ⟨headers, claims⟩ := r
  obtain ⟨jwk, key, ks, es, ha, -⟩ := fromString_ok_iff.mp h
  obtain ⟨s₁, s₂, s₃, rest, signature, hsplit, -⟩ := ha.split
  have hlong := split_suffix token suffix
  rw [hsplit, List.cons_append, List.cons_append, List.cons_append] at hlong
  refine ⟨fromString_congr hsplit hlong ▸ h, ?_⟩
  have hne : Text.split '.' suffix ≠ [] := by
    rw [Text.split, ne_eq, List.map_eq_nil_iff]
    exact List.splitOn_ne_nil '.' suffix.toList
  have hpos := List.length_pos_iff.mpr hne
  rw [hlong, List.length_cons, List.length_cons, List.length_cons, List.length_append]
  omega

theorem suffix_accepted_tagged : ∃ (token : String) (r : TokenHeaders × TokenClaims),
    Prog.Path (JsonWebToken.fromString bareEnv taggingLibs (redisClient .compact) (token ++ "." ++ "x.y")
      "host" "api") accepting (.ret (.ok r)) := by
  obtain ⟨token, x, hs, hx⟩ := @tagged_accepted "ES256" (by decide)
  exact ⟨token, _, (suffix_accepted hx "x.y").1⟩

/-- A fourth segment behind an accepted token. -/
theorem fourth_segment_accepted : ∃ (token : String) (r : TokenHeaders × TokenClaims),
    Prog.Path (JsonWebToken.fromString bareEnv taggingLibs (redisClient .compact) token "host" "api")
      accepting (.ret (.ok r)) ∧
    Prog.Path (JsonWebToken.fromString bareEnv taggingLibs (redisClient .compact) (token ++ "." ++ "x")
      "host" "api") accepting (.ret (.ok r)) ∧
    (Text.split '.' (token ++ "." ++ "x")).length = 4 := by
  obtain ⟨token, x, hs, hx⟩ := @tagged_accepted "RS256" (by decide)
  obtain ⟨s₁, s₂, signature, -, -, -, hsplit⟩ := toString_segments hs
  have hlong := split_suffix token "x"
  rw [hsplit] at hlong
  exact ⟨token, _, hx, fromString_congr hsplit hlong ▸ hx, congrArg List.length hlong⟩

end Segments

/-! ## Algorithms -/

section Algorithms

variable {env : Env} {libs : Libs} {store : JtiStore} {token issuer audience : String}
  {headers : TokenHeaders} {claims : TokenClaims} {cs : List (Call svc)}

/-- The algorithms a key is assembled for. -/
theorem publicKeyOf_alg {ssl : OpenSsl} {jwk : Jwk} {key : ssl.PublicKey}
    (h : KeyManager.publicKeyOf ssl jwk = .ok key) : jwk.alg ∈ supportedAlgorithms := by
  have hrs : ["RS256", "RS384", "RS512"] ⊆ supportedAlgorithms := by decide
  have hes : ["ES256", "ES384", "ES512"] ⊆ supportedAlgorithms := by decide
  unfold KeyManager.publicKeyOf at h
  split at h
  · rename_i hc
    exact hrs (List.contains_iff_mem.mp hc)
  · split at h
    · rename_i hc
      exact hes (List.contains_iff_mem.mp hc)
    · split at h
      · rename_i hc
        rw [hc]
        decide
      · cases h

/-- `verify_token` returns claims exactly when the string passes every check.
Both algorithms are supported ones: that of the JWK selects how the key is
assembled, that of the header the digest. -/
theorem verifyToken_ok_iff :
    Prog.Path (JwtManager.verifyToken env libs store token issuer audience) cs
      (.ret (.ok claims)) ↔
      ∃ headers jwk key ks es, Accepts env libs store token issuer audience headers claims jwk key
        ks es ∧ headers.alg ∈ supportedAlgorithms ∧ jwk.alg ∈ supportedAlgorithms ∧ cs = ks ++ es := by
  constructor
  · intro h
    obtain ⟨⟨headers, c⟩, c₁, c₂, rfl, h₁, h₂⟩ := Prog.path_tryBind_ok h
    obtain ⟨rfl, he⟩ := Prog.path_pure_ok h₂
    cases he
    obtain ⟨jwk, key, ks, es, ha, rfl⟩ := fromString_ok_iff.mp h₁
    exact ⟨headers, jwk, key, ks, es, ha, (headers_isVerify ha.header).1,
      publicKeyOf_alg ha.assembled, List.append_nil _⟩
  · rintro ⟨headers, jwk, key, ks, es, ha, -, -, rfl⟩
    rw [← List.append_nil (ks ++ es)]
    exact Prog.path_tryBind_of (fromString_ok_iff.mpr ⟨jwk, key, ks, es, ha, rfl⟩) (.nil _)

/-- The header says RS512, and the key of its `kid` is published for RS256. -/
theorem other_algorithm_accepted : ∃ (token s₁ : String) (rest : List String) (headers : TokenHeaders)
    (claims : TokenClaims), Text.split '.' token = s₁ :: rest ∧
      TokenHeaders.fromBase64 taggingLibs.json s₁ = .ok headers ∧ headers.alg = "RS512" ∧
      headers.kid = rs256Key.kid ∧ rs256Key.alg = "RS256" ∧
      Prog.Path (JwtManager.verifyToken bareEnv taggingLibs (redisClient .compact) token "host" "api")
        accepting (.ret (.ok claims)) := by
  obtain ⟨token, x, hs, hx⟩ := @tagged_accepted "RS512" (by decide)
  obtain ⟨s₁, s₂, signature, hs₁, -, -, hsplit⟩ := toString_segments hs
  exact ⟨token, s₁, _, _, _, hsplit, TokenHeaders.headers_decode JsonText.compact_faithful hs₁, rfl, rfl,
    rfl, Prog.path_tryBind_of hx (.nil _)⟩

end Algorithms

end JwtService

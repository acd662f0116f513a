import JwtService.Proof.Rules

/-!
# Verification fails closed

`verify_ok_inv` lists all that was checked when `POST /tokens/verify`
answers 200, whatever the store, the key service and the cache answered on
the way: the calls of such a request are the lookup of the public key, which
succeeded, the clock, and the check of the `jti`, which was answered with
yes. An error at any of these points, in the store, in the key lookup or in
a decoder, is therefore on no path to a 200.

The facts are collected along the code: `isVerify_inv` of the claims,
`fromString_steps` and `fromString_inv` of the token, `verifyToken_inv` of the handler.
-/

namespace JwtService

open Interaction

/-- The `i64` seconds of a clock as the code compares them. -/
theorem asUsize_timestamp {now : Nat} (h : timestamp now < 2 ^ 63) :
    asUsize (timestamp now) = timestamp now := by
  unfold asUsize
  omega

theorem asUsize_timestamp_le (now : Nat) : asUsize (timestamp now) ≤ timestamp now := by
  unfold asUsize
  omega

/-- The claims hold for the issuer and the audience at the moment `now`. -/
structure ValidAt (c : TokenClaims) (issuer audience : String) (now : Nat) : Prop where
  iss : c.iss = issuer
  aud : audience ∈ c.aud
  nbf : c.nbf ≤ timestamp now
  iat : c.iat ≤ timestamp now
  /-- The timestamps of `chrono` are `i64`. -/
  exp : timestamp now < 2 ^ 63 → timestamp now < c.exp

theorem isVerify_inv {store : JtiStore} {c : TokenClaims} {issuer audience : String}
    {cs : List (Call svc)} (h : Prog.Path (c.isVerify store issuer audience) cs (.ret true)) :
    ∃ (now : Nat) (es : List (Call svc)), cs = ⟨.utcNow, now⟩ :: es ∧
      ValidAt c issuer audience now ∧ Prog.Path (store.checkJti c.jti) es (.ret (.ok true)) := by
  obtain ⟨now, cs₁, es, rfl, h₁, h₂⟩ := Prog.Path.bind_ret_inv h
  have hcs : cs₁ = [⟨.utcNow, now⟩] := by
    cases h₁ with
    | cons h => obtain ⟨rfl, he⟩ := h.ret_inv; cases he; rfl
  subst hcs
  split at h₂
  · rename_i hv
    obtain ⟨hiss, haud, hnbf, hiat, hexp⟩ := hv
    obtain ⟨r, es₁, es₂, rfl, h₃, h₄⟩ := Prog.Path.bind_ret_inv h₂
    have hle := asUsize_timestamp_le now
    cases r with
    | error e => obtain ⟨-, he⟩ := h₄.ret_inv; cases he
    | ok found =>
      obtain ⟨rfl, he⟩ := h₄.ret_inv
      cases he
      refine ⟨_, _, rfl, ⟨hiss, haud, Nat.le_trans hnbf hle, Nat.le_trans hiat hle, fun hb => ?_⟩, ?_⟩
      · rwa [asUsize_timestamp hb] at hexp
      · rwa [List.append_nil]
  · obtain ⟨-, he⟩ := h₂.ret_inv
    cases he

/-- All that is checked of a token before its claims are returned. -/
def Checked (env : Env) (libs : Libs) (store : JtiStore) (token issuer audience : String)
    (claims : TokenClaims) (cs : List (Call svc)) : Prop :=
  ∃ segment₁ segment₂ segment₃ rest headers key signature now ks es,
    Text.split '.' token = segment₁ :: segment₂ :: segment₃ :: rest ∧
    TokenHeaders.fromBase64 libs.json segment₁ = .ok headers ∧
    (headers.alg ∈ supportedAlgorithms ∧ headers.typ = "JWT" ∧ headers.jku = env "TOKEN_JKU") ∧
    Prog.Path (KeyManager.getPublicKey libs.ssl headers.kid) ks (.ret (.ok key)) ∧
    decodeBase64 segment₃ = some signature ∧
    libs.ssl.verify (JsonWebToken.digestOf headers.alg) key signature
      (Text.utf8 (segment₁ ++ "." ++ segment₂)) = some true ∧
    TokenClaims.fromBase64 libs.json segment₂ = .ok claims ∧
    ValidAt claims issuer audience now ∧
    Prog.Path (store.checkJti claims.jti) es (.ret (.ok true)) ∧
    cs = ks ++ ⟨.utcNow, now⟩ :: es

theorem checkSignature_inv {ssl : OpenSsl} {alg : String} {key : ssl.PublicKey}
    {s₁ s₂ s₃ : String} (h : JsonWebToken.checkSignature ssl alg key s₁ s₂ s₃ = .ok ()) :
    ∃ signature, decodeBase64 s₃ = some signature ∧
      ssl.verify (JsonWebToken.digestOf alg) key signature (Text.utf8 (s₁ ++ "." ++ s₂)) =
        some true := by
  unfold JsonWebToken.checkSignature at h
  split at h
  · cases h
  · rename_i signature hs
    split at h
    · rename_i hv
      exact ⟨signature, hs, hv⟩
    · cases h

theorem headers_isVerify {env : Env} {h : TokenHeaders} (hv : h.isVerify env = true) :
    h.alg ∈ supportedAlgorithms ∧ h.typ = "JWT" ∧ h.jku = env "TOKEN_JKU" := by
  simp only [TokenHeaders.isVerify, Bool.and_eq_true, List.contains_iff_mem, beq_iff_eq] at hv
  exact ⟨hv.1.1, hv.2, hv.1.2⟩

section FromString

variable {env : Env} {libs : Libs} {store : JtiStore} {token issuer audience : String}
  {headers : TokenHeaders} {claims : TokenClaims} {cs : List (Call svc)}

/-- The steps of an accepted token. -/
theorem fromString_steps
    (h : Prog.Path (JsonWebToken.fromString env libs store token issuer audience) cs
      (.ret (.ok (headers, claims)))) :
    ∃ s₁ s₂ s₃ rest key signature ks es, Text.split '.' token = s₁ :: s₂ :: s₃ :: rest ∧
      TokenHeaders.fromBase64 libs.json s₁ = .ok headers ∧
      Prog.Path (KeyManager.getPublicKey libs.ssl headers.kid) ks (.ret (.ok key)) ∧
      decodeBase64 s₃ = some signature ∧
      libs.ssl.verify (JsonWebToken.digestOf headers.alg) key signature
        (Text.utf8 (s₁ ++ "." ++ s₂)) = some true ∧
      TokenClaims.fromBase64 libs.json s₂ = .ok claims ∧ headers.isVerify env = true ∧
      Prog.Path (claims.isVerify store issuer audience) es (.ret true) ∧ cs = ks ++ es := by
  unfold JsonWebToken.fromString at h
  split at h
  · rename_i s₁ s₂ s₃ rest hsplit
    -- Each step returned a value: an error at any of them would be the result.
    obtain ⟨hd, c₁, cs₁, rfl, h₁, t₁⟩ := Prog.path_tryBind_ok h
    obtain ⟨rfl, hhd⟩ := Prog.path_ofExcept h₁
    obtain ⟨key, ks, cs₂, rfl, h₂, t₂⟩ := Prog.path_tryBind_ok t₁
    have hkey := Prog.path_mapError_ok h₂
    obtain ⟨_, c₃, cs₃, rfl, h₃, t₃⟩ := Prog.path_tryBind_ok t₂
    obtain ⟨rfl, hsig⟩ := Prog.path_ofExcept h₃
    obtain ⟨cl, c₄, cs₄, rfl, h₄, t₄⟩ := Prog.path_tryBind_ok t₃
    obtain ⟨rfl, hcl⟩ := Prog.path_ofExcept h₄
    split at t₄
    · rename_i hv
      obtain ⟨b, es, cs₅, rfl, h₅, t₅⟩ := Prog.path_tryBind_ok t₄
      obtain ⟨b', hb, hbb⟩ := Prog.path_liftE h₅
      cases hbb
      cases b with
      | false => exact (Prog.path_throw_ok t₅).elim
      | true =>
        obtain ⟨rfl, he⟩ := Prog.path_pure_ok t₅
        cases he
        obtain ⟨signature, hs, hver⟩ := checkSignature_inv hsig.symm
        refine ⟨s₁, s₂, s₃, rest, key, signature, ks, es, hsplit, hhd.symm, hkey, hs, hver, hcl.symm,
          hv, hb, ?_⟩
        simp only [List.nil_append, List.append_nil]
    · exact (Prog.path_throw_ok t₄).elim
  · exact (Prog.path_throw_ok h).elim

theorem fromString_inv
    (h : Prog.Path (JsonWebToken.fromString env libs store token issuer audience) cs
      (.ret (.ok (headers, claims)))) :
    Checked env libs store token issuer audience claims cs := by
  obtain ⟨s₁, s₂, s₃, rest, key, signature, ks, es, hsplit, hhd, hkey, hs, hver, hcl, hv, hb, rfl⟩ :=
    fromString_steps h
  obtain ⟨now, es, rfl, hvalid, hjti⟩ := isVerify_inv hb
  exact ⟨s₁, s₂, s₃, rest, headers, key, signature, now, ks, es, hsplit, hhd, headers_isVerify hv, hkey,
    hs, hver, hcl, hvalid, hjti, rfl⟩

end FromString

theorem errorResponse_status (e : Error) : e.errorResponse.status ≠ 200 := by
  cases e <;> exact nofun

/-- When the handler answers 200: the host is allowed, and the token is
accepted for it as the issuer. -/
theorem verifyToken_handler_iff {env : Env} {libs : Libs} {store : JtiStore} {host : HostHeader}
    {req : TokenVerifyRequest} {cs : List (Call svc)} {resp : HttpResponse} :
    Prog.Path (verifyToken env libs store host req) cs (.ret (.ok resp)) ↔
      ∃ issuer claims cs', host = .text issuer ∧ Issuer.isAllowed env issuer = true ∧
        Prog.Path (JwtManager.verifyToken env libs store req.token issuer req.audience) cs'
          (.ret (.ok claims)) ∧
        resp = ⟨200, .claims claims⟩ ∧ cs = cs' ++ [⟨.metric (.tokenVerified true), ()⟩] := by
  constructor
  · intro h
    obtain ⟨issuer, c₁, cs₁, rfl, h₁, t₁⟩ := Prog.path_tryBind_ok h
    obtain ⟨rfl, hi⟩ := Prog.path_ofExcept h₁
    have hhost : host = .text issuer := by
      cases host with
      | text s => cases hi; rfl
      | _ => cases hi
    split at t₁
    · rename_i hallowed
      obtain ⟨r, c₂, cs₂, rfl, h₂, t₂⟩ := Prog.path_tryBind_ok t₁
      obtain ⟨r', hr, hrr⟩ := Prog.path_liftE h₂
      cases hrr
      cases r with
      | error e =>
        obtain ⟨_, c₃, cs₃, -, -, t₃⟩ := Prog.path_tryBind_ok t₂
        exact (Prog.path_throw_ok t₃).elim
      | ok claims =>
        obtain ⟨_, c₃, cs₃, rfl, h₃, t₃⟩ := Prog.path_tryBind_ok t₂
        obtain ⟨_, rfl, -⟩ := Prog.path_performE h₃
        obtain ⟨rfl, he⟩ := Prog.path_pure_ok t₃
        cases he
        exact ⟨issuer, claims, c₂, hhost, hallowed, hr, rfl, by simp only [List.nil_append, List.append_nil]⟩
    · exact (Prog.path_throw_ok t₁).elim
  · rintro ⟨issuer, claims, cs', rfl, hallowed, hr, rfl, rfl⟩
    show Prog.Path _ ([] ++ (cs' ++ [⟨.metric (.tokenVerified true), ()⟩])) _
    refine Prog.path_tryBind_of (Prog.path_ofExcept_of rfl) ?_
    rw [if_pos hallowed]
    exact Prog.path_tryBind_of (Prog.path_liftE_of hr) (.cons (.nil _))

/-- What a 200 of the handler says. -/
theorem verifyToken_inv {env : Env} {libs : Libs} {store : JtiStore} {host : HostHeader}
    {req : TokenVerifyRequest} {cs : List (Call svc)} {resp : HttpResponse}
    (h : Prog.Path (verifyToken env libs store host req) cs (.ret (.ok resp))) :
    ∃ issuer claims cs', host = .text issuer ∧ Issuer.isAllowed env issuer = true ∧
      Checked env libs store req.token issuer req.audience claims cs' ∧
      resp = ⟨200, .claims claims⟩ ∧ cs = cs' ++ [⟨.metric (.tokenVerified true), ()⟩] := by
  obtain ⟨issuer, claims, cs', hhost, hallowed, hr, rfl, rfl⟩ := verifyToken_handler_iff.mp h
  obtain ⟨⟨headers, cl⟩, c₁, cs₁, rfl, h₁, h₂⟩ := Prog.path_tryBind_ok hr
  obtain ⟨rfl, he⟩ := Prog.path_pure_ok h₂
  cases he
  exact ⟨issuer, claims, _, hhost, hallowed, by rw [List.append_nil]; exact fromString_inv h₁, rfl, rfl⟩

/-- Whatever the store, the key service and the cache answer: when `POST
/tokens/verify` answers 200, the request passed its layers, the host is
allowed, everything that `Checked` lists was checked of the token, nothing
else was asked, and the response holds the claims that were checked. -/
theorem verify_fails_closed (env : Env) (libs : Libs) (store : JtiStore) (a : Admission)
    (host : HostHeader) (req : TokenVerifyRequest) :
    Prog.wp (fun _ _ => True) [] (serve env libs store a (.verifyToken host req))
      fun cs resp => resp.status = 200 →
        (a.limited = none ∧ a.authorized = true) ∧
        ∃ issuer claims cs', host = .text issuer ∧ Issuer.isAllowed env issuer = true ∧
          Checked env libs store req.token issuer req.audience claims cs' ∧
          resp.body = .claims claims ∧ cs = cs' ++ [⟨.metric (.tokenVerified true), ()⟩] := by
  refine Prog.wp_of_path fun cs resp h hst => ?_
  rw [List.nil_append]
  have refused : ∀ {e : Eff} {k : e.Reply → M HttpResponse} {status : Nat} {body : Body},
      Prog.Path (.call e k) cs (.ret resp) → (∀ r, k r = .ret ⟨status, body⟩) → status = 200 := by
    intro e k status body hp hk
    cases hp with
    | cons hp =>
      rw [hk] at hp
      obtain ⟨-, he⟩ := hp.ret_inv
      cases he
      exact hst
  cases hl : a.limited with
  | some secs =>
    simp only [serve, rateLimit, hl] at h
    exact absurd (refused h fun _ => rfl) (by decide)
  | none =>
    cases ha : a.authorized with
    | false =>
      simp only [serve, rateLimit, hl, auth, ha] at h
      exact absurd (refused h fun _ => rfl) (by decide)
    | true =>
      have hs : serve env libs store a (.verifyToken host req) =
          respond (verifyToken env libs store host req) := by
        simp only [serve, rateLimit, hl, auth, ha, handle]
        rfl
      rw [hs] at h
      obtain ⟨r, cs₁, cs₂, rfl, h₁, h₂⟩ := Prog.Path.bind_ret_inv h
      cases r with
      | error e =>
        obtain ⟨rfl, he⟩ := h₂.ret_inv
        cases he
        exact absurd hst (errorResponse_status e)
      | ok resp' =>
        obtain ⟨rfl, he⟩ := h₂.ret_inv
        cases he
        obtain ⟨issuer, claims, cs', hh, hi, hc, rfl, rfl⟩ := verifyToken_inv h₁
        exact ⟨⟨rfl, rfl⟩, issuer, claims, cs', hh, hi, hc, rfl, List.append_nil _⟩

end JwtService

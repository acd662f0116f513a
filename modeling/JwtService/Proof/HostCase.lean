import JwtService.Proof.TokenForm

/-!
# Two spellings of a host

The allowlist takes hosts that differ in case for one (`isAllowed_congr`), and
so does the permission to issue. The issuer of a token is compared as it is
spelled (`verifyToken_issuer_iff`): of two spellings, verification accepts a
token under the one it was issued with only, so the verdicts differ as soon as
all the other checks pass (`host_case_iff`).
-/

namespace JwtService

open Interaction

variable {env : Env} {libs : Libs} {store : JtiStore} {h₁ h₂ : String} {req : TokenVerifyRequest}
  {cs : List (Call svc)} {claims : TokenClaims}

/-- `POST /tokens/verify` answers 200 with the claims, on these answers. -/
def AcceptedUnder (env : Env) (libs : Libs) (store : JtiStore) (req : TokenVerifyRequest) (host : String)
    (cs : List (Call svc)) (claims : TokenClaims) : Prop :=
  Prog.Path (verifyToken env libs store (.text host) req) cs (.ret (.ok ⟨200, .claims claims⟩))

/-- Every check passes, on these answers, for the issuer that the token itself
names. -/
def PassesOwn (env : Env) (libs : Libs) (store : JtiStore) (req : TokenVerifyRequest)
    (cs : List (Call svc)) (claims : TokenClaims) : Prop :=
  ∃ cs', Prog.Path (JwtManager.verifyToken env libs store req.token claims.iss req.audience) cs'
      (.ret (.ok claims)) ∧ cs = cs' ++ [⟨.metric (.tokenVerified true), ()⟩]

theorem isAllowed_congr (h : Text.toAsciiLowercase h₁ = Text.toAsciiLowercase h₂) :
    Issuer.isAllowed env h₁ = Issuer.isAllowed env h₂ := by
  simp only [Issuer.isAllowed, Issuer.allowedBy, h]

theorem issuerForIssuance_isOk (host : String) :
    (issuerForIssuance env (.text host)).isOk = Issuer.isAllowed env host := by
  show (if Issuer.isAllowed env host then Except.ok host else _).isOk = _
  split <;> simp_all [Except.isOk, Except.toBool, throw, throwThe, MonadExceptOf.throw]

/-- The issuer is the host as it is spelled. -/
theorem verifyToken_issuer_iff {token issuer audience : String} :
    Prog.Path (JwtManager.verifyToken env libs store token issuer audience) cs (.ret (.ok claims)) ↔
      claims.iss = issuer ∧
        Prog.Path (JwtManager.verifyToken env libs store token claims.iss audience) cs (.ret (.ok claims)) := by
  constructor
  · intro h
    obtain ⟨headers, jwk, key, ks, es, ha, -⟩ := verifyToken_ok_iff.mp h
    obtain ⟨now, es', -, hvalid, -⟩ := isVerify_inv ha.valid
    have hiss : claims.iss = issuer := hvalid.iss
    exact ⟨hiss, by rwa [hiss]⟩
  · rintro ⟨rfl, h⟩
    exact h

theorem acceptedUnder_iff (host : String) : AcceptedUnder env libs store req host cs claims ↔
    Issuer.isAllowed env host = true ∧ claims.iss = host ∧ PassesOwn env libs store req cs claims := by
  refine verifyToken_handler_iff.trans ⟨?_, ?_⟩
  · rintro ⟨issuer, claims', cs', hhost, hallowed, hpath, hresp, hcs⟩
    cases hhost
    cases hresp
    obtain ⟨hiss, hown⟩ := verifyToken_issuer_iff.mp hpath
    exact ⟨hallowed, hiss, cs', hown, hcs⟩
  · rintro ⟨hallowed, hiss, cs', hown, hcs⟩
    exact ⟨host, claims, cs', rfl, hallowed, verifyToken_issuer_iff.mpr ⟨hiss, hown⟩, rfl, hcs⟩

/-- For two spellings of a host: issuing is permitted under both or neither.
Verification answers the same under both, on whatever answers, if and only if
they are one, or the host is not allowed, or the token is of neither, or it
fails a check other than the one of its issuer. -/
theorem host_case_iff (env : Env) (libs : Libs) (store : JtiStore) (req : TokenVerifyRequest)
    (h : Text.toAsciiLowercase h₁ = Text.toAsciiLowercase h₂) :
    (issuerForIssuance env (.text h₁)).isOk = (issuerForIssuance env (.text h₂)).isOk ∧
      ∀ cs claims,
        ((AcceptedUnder env libs store req h₁ cs claims ↔ AcceptedUnder env libs store req h₂ cs claims) ↔
          h₁ = h₂ ∨ Issuer.isAllowed env h₁ = false ∨ (claims.iss ≠ h₁ ∧ claims.iss ≠ h₂) ∨
            ¬ PassesOwn env libs store req cs claims) := by
  have hallowed : Issuer.isAllowed env h₁ = Issuer.isAllowed env h₂ := isAllowed_congr h
  refine ⟨by rw [issuerForIssuance_isOk, issuerForIssuance_isOk, hallowed], fun cs claims => ?_⟩
  rw [acceptedUnder_iff, acceptedUnder_iff, ← hallowed]
  by_cases hsame : h₁ = h₂
  · subst hsame
    simp
  · cases hok : Issuer.isAllowed env h₁ with
    | false => simp
    | true =>
      by_cases hown : PassesOwn env libs store req cs claims
      · -- One of the spellings is the issuer, or none of them.
        simp only [hown, hsame, and_true, true_and, not_true_eq_false, or_false, false_or, reduceCtorEq]
        constructor
        · intro hiff
          refine ⟨fun h₁' => hsame (h₁'.symm.trans (hiff.mp h₁')), fun h₂' => hsame ((hiff.mpr h₂').symm.trans h₂')⟩
        · rintro ⟨hne₁, hne₂⟩
          exact iff_of_false hne₁ hne₂
      · simp [hown]

/-- A token of `host`. -/
theorem host_accepted : ∃ token claims,
    AcceptedUnder bareEnv taggingLibs (redisClient .compact) ⟨token, "api"⟩ "host"
        (accepting ++ [⟨.metric (.tokenVerified true), ()⟩]) claims ∧
      claims.iss = "host" := by
  obtain ⟨token, x, -, hx⟩ := @tagged_accepted "RS256" (by decide)
  have hverify : Prog.Path (JwtManager.verifyToken bareEnv taggingLibs (redisClient .compact) token "host" "api")
      accepting (.ret (.ok (newClaims "host" "user" ["api"] 0 60 uuidA x))) :=
    Prog.path_tryBind_of hx (.nil _)
  exact ⟨token, _, verifyToken_handler_iff.mpr ⟨"host", _, accepting, rfl, rfl, hverify, rfl, rfl⟩, rfl⟩

/-- Under the same host in capitals the verdict is another one. -/
theorem host_case_iff_capitals : ∃ token claims,
    ¬ (AcceptedUnder bareEnv taggingLibs (redisClient .compact) ⟨token, "api"⟩ "host"
        (accepting ++ [⟨.metric (.tokenVerified true), ()⟩]) claims ↔
      AcceptedUnder bareEnv taggingLibs (redisClient .compact) ⟨token, "api"⟩ "HOST"
        (accepting ++ [⟨.metric (.tokenVerified true), ()⟩]) claims) := by
  obtain ⟨token, claims, haccepted, hiss⟩ := host_accepted
  obtain ⟨-, -, hown⟩ := (acceptedUnder_iff "host").mp haccepted
  have hspelled : Text.toAsciiLowercase "host" = Text.toAsciiLowercase "HOST" := by decide
  refine ⟨token, claims, fun hiff => ?_⟩
  have hcases :=
    ((host_case_iff bareEnv taggingLibs (redisClient .compact) ⟨token, "api"⟩ hspelled).2 _ claims).mp hiff
  rcases hcases with hsame | hclosed | hother | hfails
  · exact absurd hsame (by decide)
  · exact absurd hclosed (by decide)
  · exact hother.1 hiss
  · exact hfails hown

/-- A token of `host` is refused under `HOST`, for which tokens may be issued
as well. -/
theorem host_case_refused : ∃ token claims,
    AcceptedUnder bareEnv taggingLibs (redisClient .compact) ⟨token, "api"⟩ "host"
        (accepting ++ [⟨.metric (.tokenVerified true), ()⟩]) claims ∧
      (issuerForIssuance bareEnv (.text "HOST")).isOk = true ∧
      Text.toAsciiLowercase "host" = Text.toAsciiLowercase "HOST" ∧
      ∀ cs, ¬ AcceptedUnder bareEnv taggingLibs (redisClient .compact) ⟨token, "api"⟩ "HOST" cs claims := by
  obtain ⟨token, claims, haccepted, hiss⟩ := host_accepted
  refine ⟨token, claims, haccepted, by decide, by decide, fun cs hcapitals => ?_⟩
  have hcapital := ((acceptedUnder_iff "HOST").mp hcapitals).2.1
  exact absurd (hiss.symm.trans hcapital) (by decide)

end JwtService

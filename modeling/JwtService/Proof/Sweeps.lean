import JwtService.Proof.Isolation

/-!
# Issues and revocations, command by command

What a request keeps to with the indexes of subjects, whatever it is answered
(`Tidy`): it adds to such an index once, it cuts off the members up to a
moment it has read from the clock, and what it deletes is the key it was
given, a member it was told of, or a group that it has swept, that is, whose
members it was told and has deleted (`Swept`). A revocation that succeeds has
swept its group, and a token that is handed out is in the index of its subject
with its own expiry (`Indexes`).
-/

namespace JwtService

open Interaction Redis

/-- The request was told the members of the group, and has deleted them. -/
def Swept (g : String) (h : Calls) : Prop :=
  ∃ (a b : Calls) (ms : List String), h = a ++ ⟨.redis (.zrange g), .ok ms⟩ :: b ∧
    (ms = [] ∨ (⟨.redis (.del ms), .ok ()⟩ : Call svc) ∈ b)

/-- The request has added nothing to the index of a subject. -/
def Unindexed (h : Calls) : Prop :=
  ∀ x ∈ h, ∀ sub m score, x.eff ≠ .redis (.zadd (subjectGroup sub) m score)

/-- The request has stored the token and added it to the index of its subject,
with its own expiry. -/
def Indexes (c : TokenClaims) (h : Calls) : Prop :=
  ∃ (now secs : Nat) (score : Int) (v : String), chronoAdd now (asI64 secs) = some score ∧
    c.exp = asUsize score ∧ (⟨.redis (.setEx c.jti v secs), .ok ()⟩ : Call svc) ∈ h ∧
      (⟨.redis (.zadd (subjectGroup c.sub) c.jti score), .ok ()⟩ : Call svc) ∈ h

/-- What a request keeps to with the indexes of subjects and with deletions,
after the calls `h`. -/
def Tidy (rq : Request) (h : Calls) : Eff → Prop
  | .redis (.zadd g _ _) => (∃ sub, g = subjectGroup sub) → Unindexed h
  | .redis (.zremRangeByScore _ max) =>
    ∃ now : Nat, (⟨.utcNow, now⟩ : Call svc) ∈ h ∧ max = timestamp now
  | .redis (.del ks) => ∀ k ∈ ks, rq = .revokeToken k ∨ Swept k h ∨
      ∃ g ms, (⟨.redis (.zrange g), .ok ms⟩ : Call svc) ∈ h ∧ k ∈ ms
  | _ => True

/-- A call that adds to no index of a subject, cuts nothing off and deletes
nothing. -/
def Eff.Tame : Eff → Prop
  | .redis (.zadd g _ _) => ∀ sub, g ≠ subjectGroup sub
  | .redis (.zremRangeByScore ..) => False
  | .redis (.del ks) => ks = []
  | _ => True

section Tidy

variable {env : Env} {libs : Libs} {t : JsonText} {rq : Request} {h : Calls} {α : Type}

theorem Eff.Tame.tidy {e : Eff} (he : e.Tame) : Tidy rq h e := by
  cases e with
  | redis c =>
    cases c with
    | zadd g m score => exact fun ⟨sub, hg⟩ => absurd hg (he sub)
    | zremRangeByScore g max => exact he.elim
    | del ks =>
      rw [show ks = [] from he]
      exact nofun
    | _ => trivial
  | _ => trivial

theorem Eff.Tame.unindexed {e : Eff} (he : e.Tame) (sub m : String) (score : Int) :
    e ≠ .redis (.zadd (subjectGroup sub) m score) := by
  rintro rfl
  exact he sub rfl

theorem Unindexed.snoc (hu : Unindexed h) {e : Eff} (he : e.Tame) (r : e.Reply) :
    Unindexed (h ++ [⟨e, r⟩]) := by
  intro x hx
  rcases List.mem_append.mp hx with hx | hx
  · exact hu x hx
  · rw [List.mem_singleton.mp hx]
    exact he.unindexed

theorem Indexes.append {c : TokenClaims} (hi : Indexes c h) (cs : Calls) : Indexes c (h ++ cs) := by
  obtain ⟨now, secs, score, v, hc, he, hs, hz⟩ := hi
  exact ⟨now, secs, score, v, hc, he, List.mem_append_left _ hs, List.mem_append_left _ hz⟩

theorem swept_of {g : String} {ms : List String} (a : Calls) {b : Calls}
    (hb : ms = [] ∨ (⟨.redis (.del ms), .ok ()⟩ : Call svc) ∈ b) :
    Swept g (a ++ [⟨.redis (.zrange g), .ok ms⟩] ++ b) := by
  refine ⟨a, b, ms, ?_, hb⟩
  rw [List.append_assoc]
  rfl

theorem Swept.append {g : String} (hs : Swept g h) (cs : Calls) : Swept g (h ++ cs) := by
  obtain ⟨a, b, ms, rfl, hb⟩ := hs
  exact ⟨a, b ++ cs, ms, by rw [List.append_assoc, List.cons_append],
    hb.imp_right fun hm => List.mem_append_left _ hm⟩

/-- A program that makes tame calls only. -/
abbrev TameOnly {α : Type} (p : M α) : Prop := @Prog.Only svc α Eff.Tame p

theorem Quiet.tame {p : M α} (hp : Quiet p) : TameOnly p :=
  Prog.Only.mono (fun e he => by cases e <;> trivial) hp

theorem Reads.tame {p : M α} (hp : Reads p) : TameOnly p := by
  refine Prog.Only.mono (fun e he => ?_) hp
  cases e with
  | redis c =>
    cases c with
    | del ks => exact List.eq_nil_iff_forall_not_mem.mpr fun k hk => he _ rfl k hk
    | zadd | zremRangeByScore => exact (he _ rfl _ (List.mem_singleton.mpr rfl)).elim
    | _ => trivial
  | _ => trivial

/-- Tame calls add to the calls, and to no index of a subject. -/
theorem tame_tidy {p : M α} (hp : TameOnly p) :
    Prog.wp (Tidy rq) h p fun h' _ => h <+: h' ∧ (Unindexed h → Unindexed h') := by
  refine Prog.Only.wp hp (fun _ _ _ he => he.tidy) fun cs _ hcs =>
    ⟨List.prefix_append h cs, fun hu x hx => ?_⟩
  rcases List.mem_append.mp hx with hx | hx
  · exact hu x hx
  · exact (hcs x hx).unindexed

theorem tame_addToFamily (f m : String) (score : Int) :
    (Eff.redis (.zadd (familyGroup f) m score)).Tame := fun sub hs => subject_ne_family sub f hs.symm

theorem tame_registerAccess (access f : String) :
    TameOnly (JwtManager.registerAccessInFamily libs (redisClient libs.json) access f) :=
  only_registerAccess (tame_addToFamily f) fun _ => trivial

theorem tame_issueRefresh (subject : String) (audience : List String) (f : String) :
    TameOnly (JwtManager.issueRefresh env (redisClient t) subject audience f) :=
  only_issueRefresh trivial trivial (fun _ _ => trivial) (fun _ _ => trivial) (tame_addToFamily f)
    fun _ => trivial

/-! ## Revocations -/

theorem deleteMembers_tidy {g : String} {ms : List String}
    (hm : (⟨.redis (.zrange g), .ok ms⟩ : Call svc) ∈ h) :
    Prog.wp (Tidy rq) h (RedisClient.deleteMembers ms) fun h' r =>
      ∃ b, h' = h ++ b ∧ (r = .ok () → ms = [] ∨ (⟨.redis (.del ms), .ok ()⟩ : Call svc) ∈ b) := by
  show Prog.wp _ _ (ite _ _ _) _
  split
  · rename_i he
    exact ⟨[], (List.append_nil h).symm, fun _ => .inl he⟩
  · simp only [wp_run]
    exact ⟨fun k hk => .inr (.inr ⟨g, ms, hm, hk⟩), fun _ => ⟨_, rfl, fun _ => .inr List.mem_cons_self⟩,
      fun _ => ⟨_, rfl, by simp⟩⟩

/-- A revocation that succeeds has swept the group. -/
theorem revokeGroup_tidy (g : String) :
    Prog.wp (Tidy rq) h (RedisClient.revokeGroup g) fun h' r => ∀ n, r = .ok n → Swept g h' := by
  simp only [RedisClient.revokeGroup, Prog.wp_tryBind, wp_callE, wp_run]
  refine ⟨trivial, fun now => ⟨⟨now, by simp, rfl⟩, fun _ => ⟨trivial, fun ms => ?_, by simp⟩,
    by simp⟩⟩
  refine Prog.wp_imp (deleteMembers_tidy (g := g) (by simp)) fun h₁ r hr => ?_
  obtain ⟨b, rfl, hb⟩ := hr
  cases r with
  | error e => simp
  | ok u =>
    have hs := swept_of (g := g) (h ++ [⟨.utcNow, now⟩] ++ [⟨.redis (.zremRangeByScore g (timestamp now)),
      .ok ()⟩]) (hb rfl)
    refine ⟨fun k hk => .inr (.inl ?_), fun _ _ _ => hs.append _, by simp⟩
    rw [List.mem_singleton.mp hk]
    exact hs

/-! ## Issues -/

/-- The claims of a new token, from the calls that made it. -/
theorem createNew_claims {issuer subject : String} {audience : List String} {ttl : Option Nat}
    {extra : List (String × Json)} {cs : Calls} {c : TokenClaims}
    (hp : Prog.Path (TokenClaims.createNew env libs.json (redisClient libs.json) issuer subject
      audience ttl extra) cs (.ret (.ok c))) : NewClaims issuer subject audience c := by
  have hn : ∀ x ∈ ([] : Calls), x.eff.isSetEx = false := nofun
  exact ((hp.wp_ret (createNew_ok env libs hn issuer subject audience ttl extra)).2 c rfl).1

theorem createNew_tidy (hu : Unindexed h) (issuer subject : String) (audience : List String)
    (ttl : Option Nat) (extra : List (String × Json)) :
    Prog.wp (Tidy rq) h (TokenClaims.createNew env libs.json (redisClient libs.json) issuer subject
      audience ttl extra) fun h' r => ∀ c, r = .ok c → Indexes c h' := by
  simp only [TokenClaims.createNew, Prog.wp_tryBind, Prog.wp_ofExcept]
  cases validateCustomClaims env libs.json extra with
  | error e => simp
  | ok _ =>
    cases TokenClaims.expirationSeconds env ttl with
    | error e => simp
    | ok seconds =>
      cases audience with
      | nil => simp
      | cons firstAudience rest =>
        simp only [Prog.wp_tryBind, wp_callE]
        refine ⟨trivial, fun now => ?_⟩
        cases hexp : chronoAdd now (asI64 seconds) with
        | none => exact ⟨trivial, fun r => r.elim⟩
        | some exp =>
          simp only [Prog.wp_tryBind, wp_callE, orStoreError, Prog.wp_mapError, redisClient,
            RedisClient.storeJti, RedisClient.addToGroup, wp_run]
          refine ⟨trivial, fun jti => ⟨trivial, fun _ => ⟨fun _ => ?_, fun _ => ⟨trivial, fun _ => ?_,
            by simp⟩, by simp⟩, by simp⟩⟩
          · have hu₁ := hu.snoc (e := .utcNow) trivial now
            have hu₂ := hu₁.snoc (e := .newUuid) trivial jti
            exact hu₂.snoc (e := .redis (.setEx jti "1" seconds)) trivial _
          · simp only [Prog.wp_liftE]
            refine Prog.wp_imp (tame_tidy (reads_isVerify libs.json _ _ _).tame) fun h₁ b hp => ?_
            obtain ⟨⟨cs, rfl⟩, -⟩ := hp
            cases b with
            | false => simp
            | true =>
              intro c hc
              cases hc
              exact ⟨now, seconds, exp, "1", hexp, rfl, by simp, by simp⟩

theorem generateToken_tidy (ht : libs.json.Faithful) (hu : Unindexed h) (issuer subject : String)
    (audience : List String) (ttl : Option Nat) (extra : List (String × Json)) :
    Prog.wp (Tidy rq) h (JwtManager.generateToken env libs (redisClient libs.json) issuer subject
      audience ttl extra) fun h' r => ∀ token, r = .ok token →
        Carries libs token fun c => Indexes c h' := by
  simp only [JwtManager.generateToken, Prog.wp_tryBind, Prog.wp_mapError]
  refine Prog.wp_imp (tame_tidy (KeyManager.quiet_getPrivateKey libs.ssl _).tame) fun h₁ r hp => ?_
  rcases r with e | ⟨jwk, key⟩
  · simp
  · have hclaims : Prog.wp (fun _ _ => True) h₁ (TokenClaims.createNew env libs.json
        (redisClient libs.json) issuer subject audience ttl extra) fun _ r =>
          ∀ c, r = .ok c → NewClaims issuer subject audience c :=
      Prog.wp_of_path fun cs r hr c hc => createNew_claims (hc ▸ hr)
    refine Prog.wp_mono (fun _ _ he => he.1) (fun h₂ r hr => ?_)
      (Prog.wp_and (createNew_tidy (hp.2 hu) issuer subject audience ttl extra) hclaims)
    obtain ⟨hidx, hnew⟩ := hr
    cases r with
    | error e => simp
    | ok claims =>
      obtain ⟨-, -, -, hx, he, hi, hb⟩ := hnew claims rfl
      intro token htoken
      obtain ⟨c, hc, hcc⟩ := claimsSegmentOf_toString ht hx he hi hb htoken
      exact ⟨c, hc, hcc ▸ hidx claims rfl⟩

theorem issuePair_tidy (ht : libs.json.Faithful) (hu : Unindexed h) (issuer subject f : String)
    (audience : List String) (ttl : Option Nat) (extra : List (String × Json)) :
    Prog.wp (Tidy rq) h (issuePair env libs issuer subject audience ttl extra f) fun h' r =>
      ∀ access refresh, r = .ok (access, refresh) → Carries libs access fun c => Indexes c h' := by
  rw [issuePair, Prog.wp_tryBind]
  refine Prog.wp_imp (generateToken_tidy ht hu issuer subject audience ttl extra) fun h₁ r hr => ?_
  cases r with
  | error e => simp
  | ok access =>
    obtain ⟨c, hc, hi⟩ := hr access rfl
    have hrest : TameOnly (do
        JwtManager.registerAccessInFamily libs (redisClient libs.json) access f
        let refresh ← JwtManager.issueRefresh env (redisClient libs.json) subject audience f
        pure (access, refresh) : ExceptT JwtError M (String × String)) :=
      Prog.only_tryBind (tame_registerAccess access f) fun _ =>
        Prog.only_tryBind (tame_issueRefresh subject audience f) fun _ => Prog.only_pure_ok _
    have hsame : Prog.wp (fun _ _ => True) h₁ (do
        JwtManager.registerAccessInFamily libs (redisClient libs.json) access f
        let refresh ← JwtManager.issueRefresh env (redisClient libs.json) subject audience f
        pure (access, refresh) : ExceptT JwtError M (String × String)) fun _ r =>
          ∀ a b, r = .ok (a, b) → a = access := by
      refine Prog.wp_of_path fun cs r hp a b he => ?_
      subst he
      obtain ⟨_, _, _, -, -, h₂⟩ := Prog.path_tryBind_ok hp
      obtain ⟨_, _, _, -, -, h₃⟩ := Prog.path_tryBind_ok h₂
      obtain ⟨-, he⟩ := Prog.path_pure_ok h₃
      cases he
      rfl
    refine Prog.wp_mono (fun _ _ he => he.1) (fun h₂ r hr => ?_) (Prog.wp_and (tame_tidy hrest) hsame)
    obtain ⟨⟨⟨cs, rfl⟩, -⟩, hsame⟩ := hr
    intro a b he
    rw [hsame a b he]
    exact ⟨c, hc, hi.append cs⟩

/-! ## Every request -/

/-- What a request has done when it answers: a bulk revocation that succeeds
has swept the index of its subject, and a token that an issue hands out is in
the index of its subject. -/
def Done (libs : Libs) (rq : Request) (h : Calls) (resp : HttpResponse) : Prop :=
  (∀ sub, rq = .revokeSubjectTokens sub → resp.status = 200 → Swept (subjectGroup sub) h) ∧
    ((subjectOf libs.json rq h).isSome = true → ∀ token refresh, resp.body = .token token refresh →
      Carries libs token fun c => Indexes c h)

theorem Done.error (e : Error) : Done libs rq h e.errorResponse :=
  ⟨fun _ _ hs => (by cases e <;> cases hs), fun _ _ _ hb => (by cases e <;> cases hb)⟩

theorem respond_tidy {p : ExceptT Error M HttpResponse}
    (hp : Prog.wp (Tidy rq) h p fun h' r => ∀ resp, r = .ok resp → Done libs rq h' resp) :
    Prog.wp (Tidy rq) h (respond p) (Done libs rq) := by
  refine (Prog.wp_bind h p _).mpr (Prog.wp_imp hp fun h' r hr => ?_)
  cases r with
  | ok resp => exact hr resp rfl
  | error e => exact .error e

/-- A request that is no bulk revocation and issues nothing. -/
theorem tame_done {p : M HttpResponse} (hp : TameOnly p) (hrq : ∀ sub, rq ≠ .revokeSubjectTokens sub)
    (hs : ∀ h, subjectOf libs.json rq h = none) : Prog.wp (Tidy rq) h p (Done libs rq) :=
  Prog.wp_imp (tame_tidy hp) fun h₁ _ _ =>
    ⟨fun sub he => absurd he (hrq sub), fun hi => by rw [hs h₁] at hi; cases hi⟩

theorem createToken_tidy (ht : libs.json.Faithful) {host : HostHeader} {req : TokenRequest}
    (hu : Unindexed h) : Prog.wp (Tidy (.createToken host req)) h
      (createToken env libs (redisClient libs.json) host req) fun h' r =>
        ∀ resp, r = .ok resp → Done libs (.createToken host req) h' resp := by
  simp only [createToken, Prog.wp_tryBind, Prog.wp_ofExcept]
  cases issuerForIssuance env host with
  | error e => simp
  | ok issuer =>
    have hi : Prog.wp (Tidy (.createToken host req)) h
        (issue env libs (redisClient libs.json) issuer req) fun h' r =>
          ∀ token refresh, r = .ok (token, refresh) → Carries libs token fun c => Indexes c h' := by
      cases hr : req.refresh with
      | true =>
        simp only [issue, hr, if_true, Prog.wp_tryBind]
        have hp : Prog.wp (Tidy (.createToken host req)) h (JwtManager.generateTokenPair env libs
            (redisClient libs.json) issuer req.sub req.aud req.ttl req.claims) fun h' r =>
              ∀ access refresh, r = .ok (access, refresh) → Carries libs access fun c => Indexes c h' := by
          rw [JwtManager.generateTokenPair, Prog.wp_tryBind, wp_callE]
          exact ⟨trivial, fun family => issuePair_tidy ht (hu.snoc (e := .newUuid) trivial family) _ _ _ _ _ _⟩
        refine Prog.wp_imp hp fun h₁ r hr => ?_
        rcases r with e | ⟨access, refresh⟩
        · simp
        · intro token _ he
          cases he
          exact hr _ _ rfl
      | false =>
        simp only [issue, hr, Bool.false_eq_true, if_false, Prog.wp_tryBind]
        refine Prog.wp_imp (generateToken_tidy ht hu _ _ _ _ _) fun h₁ r hr => ?_
        cases r with
        | error e => simp
        | ok access =>
          intro token _ he
          cases he
          exact hr _ rfl
    simp only [Prog.wp_liftE]
    refine Prog.wp_imp hi fun h₁ r hr => ?_
    rcases r with e | ⟨token, refresh⟩
    · cases e <;> simp
    · refine ⟨trivial, fun _ resp he => ?_⟩
      cases he
      refine ⟨by simp, fun _ _ _ he => ?_⟩
      cases he
      obtain ⟨c, hc, hi⟩ := hr _ _ rfl
      exact ⟨c, hc, hi.append _⟩

theorem refreshToken_tidy (ht : libs.json.Faithful) {host : HostHeader} {token : String}
    (hu : Unindexed h) : Prog.wp (Tidy (.refreshToken host token)) h
      (refreshToken env libs (redisClient libs.json) host token) fun h' r =>
        ∀ resp, r = .ok resp → Done libs (.refreshToken host token) h' resp := by
  simp only [refreshToken, Prog.wp_tryBind, Prog.wp_ofExcept]
  cases issuerForIssuance env host with
  | error e => simp
  | ok issuer =>
    have hp : Prog.wp (Tidy (.refreshToken host token)) h (JwtManager.refreshTokenPair env libs
        (redisClient libs.json) token issuer) fun h' r => ∀ access refresh,
          r = .ok (access, refresh) → Carries libs access fun c => Indexes c h' := by
      refine wp_refreshTokenPair trivial (by simp) (by simp)
        fun h₁ fs record h₁_eq _ _ => ⟨trivial, by simp, ?_, ?_⟩
      · refine issuePair_tidy ht ?_ _ _ _ _ _ _
        rw [h₁_eq]
        exact (hu.snoc (e := .redis (.hgetAll _)) trivial _).snoc (e := .redis (.hsetNx _ _ _))
          trivial _
      · exact Prog.wp_imp (revokeGroup_tidy _) (by simp)
    simp only [Prog.wp_liftE]
    refine Prog.wp_imp hp fun h₁ r hr => ?_
    rcases r with e | ⟨access, refresh⟩
    · cases e <;> simp
    · refine ⟨trivial, fun _ resp he => ?_⟩
      cases he
      refine ⟨by simp, fun _ _ _ he => ?_⟩
      cases he
      obtain ⟨c, hc, hi⟩ := hr _ _ rfl
      exact ⟨c, hc, hi.append _⟩

theorem handle_tidy (ht : libs.json.Faithful) (rq : Request) (hu : Unindexed h) :
    Prog.wp (Tidy rq) h (handle env libs (redisClient libs.json) rq) (Done libs rq) := by
  cases rq with
  | createToken host req => exact respond_tidy (createToken_tidy ht hu)
  | refreshToken host token => exact respond_tidy (refreshToken_tidy ht hu)
  | verifyToken host req => exact tame_done (reads_verifyToken req).tame (by simp) fun _ => rfl
  | revokeToken jti =>
    refine respond_tidy ?_
    simp only [revokeToken, Prog.wp_tryBind, Prog.wp_liftE, redisClient, RedisClient.deleteJti,
      wp_run]
    refine ⟨fun k hk => .inl (by rw [List.mem_singleton.mp hk]), fun _ => ⟨trivial, fun _ resp he => ?_⟩,
      by simp⟩
    cases he
    exact ⟨by simp, by simp⟩
  | revokeSubjectTokens sub =>
    refine respond_tidy ?_
    simp only [revokeSubjectTokens, Prog.wp_tryBind, Prog.wp_liftE, redisClient]
    refine Prog.wp_imp (revokeGroup_tidy _) fun h₁ r hr => ?_
    cases r with
    | error e => simp
    | ok n =>
      refine (Prog.wp_tryBind _ _).mpr (Prog.wp_imp (tame_tidy (quiet_recordRevoked n).tame) fun h₂ r hp => ?_)
      obtain ⟨⟨cs, rfl⟩, -⟩ := hp
      cases r with
      | error e => simp
      | ok _ =>
        intro resp he
        cases he
        refine ⟨fun sub' hs _ => ?_, by simp⟩
        cases hs
        exact (hr n rfl).append cs
  | livez => exact tame_done (p := handle env libs _ .livez) trivial (by simp) fun _ => rfl
  | readyz => exact tame_done (reads_readyz libs.json).tame (by simp) fun _ => rfl

/-- What every request does with the indexes of subjects. -/
theorem serve_tidy (ht : libs.json.Faithful) (a : Admission) (rq : Request) :
    Prog.wp (Tidy rq) [] (serve env libs (redisClient libs.json) a rq) (Done libs rq) := by
  refine wp_serve (I := Unindexed) a rq nofun (fun h hash ttl hu _ => ⟨trivial, fun r => ?_⟩)
    (fun _ _ _ status _ _ hs => ⟨trivial, fun _ _ h200 => ?_, fun _ _ _ => nofun⟩)
    fun h hu => handle_tidy ht rq hu
  · exact hu.snoc (e := .redis (.setNxEx _ _ _)) trivial r
  · have h200 : status = 200 := h200
    omega

end Tidy

end JwtService

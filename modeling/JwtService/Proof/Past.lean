import JwtService.Proof.Exchange

/-!
# Sequential histories

What a request that runs alone does with the store, when it does not answer
500 (`Effect`): it leaves the store alone, it hands out a token or a pair, it
kills a family, or it revokes a token or a subject. `alone_handle` finds the
effect of every request.

A `Past` is a world with what was handed out in it so far, the newest first.
Each step of it is such a request, or time passing.
-/

namespace JwtService

open Interaction Redis

/-! ## Effects -/

/-- The store is the same; UUIDs may have been drawn. -/
structure Idle (w w' : World) : Prop where
  db : w'.db = w.db
  now : w'.now = w.now
  drawn : ∀ u ∈ w.drawn, u ∈ w'.drawn

/-- A response that hands out no token. -/
def HttpResponse.Tokenless (resp : HttpResponse) : Prop :=
  ∀ access refresh, resp.body ≠ .token access refresh

/-- A response hands out an access token, which is now in the store. -/
structure Minted (libs : Libs) (w w' : World) (resp : HttpResponse) (sub : String) (c : TokenClaims)
    (seconds : Nat) (refresh : Option String) : Prop where
  body : ∃ access, resp.body = .token access refresh ∧
    JwtManager.claimsSegmentOf libs access = .ok c
  sub : c.sub = sub
  exp : c.exp = w.now / 1000 + seconds
  positive : 0 < seconds
  bounded : w.now / 1000 + seconds ≤ maxSeconds
  fresh : w.Fresh c.jti
  now : w'.now = w.now
  drawn : c.jti ∈ w'.drawn
  kept : ∀ u ∈ w.drawn, u ∈ w'.drawn
  db : ∀ k, ¬ FamilyKey k → w'.db k = issueDb w.db w.now c.sub c.jti seconds k

/-- A refresh token is handed out with an access token. -/
structure Paired (env : Env) (w : World) (db db' : Db) (jti : String) (seconds : Nat) (id : String)
    (record : RefreshRecord) : Prop where
  fresh : w.Fresh id
  ne : id ≠ jti
  /-- A lifetime that is negative as an `i64` leaves no record. -/
  void : 2 ^ 63 ≤ refreshTtl env → ∀ x, db.get w.now (refreshKey x) = none →
    db'.get w.now (refreshKey x) = none
  db : 0 < refreshTtl env → refreshTtl env < 2 ^ 63 → ∃ text,
    ((w.now + 1000 * refreshTtl env : Nat) : Int) ≤ maxTime ∧
      db' = pairDb db w.now jti seconds id record text (refreshTtl env)

/-- What a request does that runs alone and does not fail. -/
inductive Effect (env : Env) (libs : Libs) (w : World) : Request → HttpResponse → World → Prop
  | idle {r : Request} {resp : HttpResponse} {w' : World} (h : Idle w w') (hb : resp.Tokenless) :
      Effect env libs w r resp w'
  | access {host : HostHeader} {req : TokenRequest} {resp : HttpResponse} {w' : World}
      {c : TokenClaims} {seconds : Nat} (hm : Minted libs w w' resp req.sub c seconds none)
      (hdb : w'.db = issueDb w.db w.now req.sub c.jti seconds) :
      Effect env libs w (.createToken host req) resp w'
  | pair {host : HostHeader} {req : TokenRequest} {resp : HttpResponse} {w' : World}
      {c : TokenClaims} {seconds : Nat} {id family : String}
      (hm : Minted libs w w' resp req.sub c seconds (some id)) (hf : w.Fresh family)
      (hfn : family ∈ w'.drawn)
      (hp : Paired env w w.db w'.db c.jti seconds id ⟨req.sub, req.aud, family⟩) :
      Effect env libs w (.createToken host req) resp w'
  | exchange {host : HostHeader} {token : String} {resp : HttpResponse} {w' : World}
      {c : TokenClaims} {seconds : Nat} {id : String} {record : RefreshRecord}
      (hr : w.record libs.json token = some record) (hu : w.used token = false)
      (hm : Minted libs w w' resp record.subject c seconds (some id))
      (hp : Paired env w (w.markUsed token).db w'.db c.jti seconds id record) :
      Effect env libs w (.refreshToken host token) resp w'
  | kill {host : HostHeader} {token : String} {resp : HttpResponse} {record : RefreshRecord}
      (hr : w.record libs.json token = some record) (hu : w.used token = true)
      (hb : resp.Tokenless) :
      Effect env libs w (.refreshToken host token) resp (w.killFamily record.family)
  | revoke (jti : String) {resp : HttpResponse} (hb : resp.Tokenless) :
      Effect env libs w (.revokeToken jti) resp (w.setDb (w.db.delAll [jti]))
  | revokeSubject (sub : String) :
      Effect env libs w (.revokeSubjectTokens sub)
        ⟨200, .revoked (w.db.listed w.now (subjectGroup sub) (timestamp w.now)).length⟩
        (w.setDb (w.db.delAll
          (subjectGroup sub :: w.db.listed w.now (subjectGroup sub) (timestamp w.now))))

theorem issueDb_congr {db db' : Db} {now seconds : Nat} {sub u : String}
    (h : ∀ k, ¬ FamilyKey k → db' k = db k) {k : String} (hk : ¬ FamilyKey k) :
    issueDb db' now sub u seconds k = issueDb db now sub u seconds k :=
  Db.register_congr (Db.put_congr (h _ (not_familyKey_subject sub)) _) (Db.put_congr (h k hk) _)

/-! ## Handlers -/

section Handlers

variable {S : Prog.Sem svc World} [Orderly S] {w w' : World} {env : Env} {libs : Libs}
  {host : HostHeader} {resp : HttpResponse}

/-- The response to the outcome of a handler. -/
def responseOf : Except Error HttpResponse → HttpResponse
  | .ok r => r
  | .error e => e.errorResponse

omit [Orderly S] in
theorem alone_respond {p : ExceptT Error M HttpResponse} :
    Alone S (respond p) w resp w' ↔ ∃ x, Alone S p w x w' ∧ resp = responseOf x := by
  refine Prog.eval_bind.trans ?_
  constructor
  · rintro ⟨x, w₁, hx, h⟩
    cases x with
    | ok r => obtain ⟨rfl, rfl⟩ := h; exact ⟨_, hx, rfl⟩
    | error e => obtain ⟨rfl, rfl⟩ := h; exact ⟨_, hx, rfl⟩
  · rintro ⟨x, hx, rfl⟩
    refine ⟨x, w', hx, ?_⟩
    cases x <;> exact ⟨rfl, rfl⟩

theorem tokenless_error (e : Error) : e.errorResponse.Tokenless := by
  intro access refresh h
  cases e <;> cases h

theorem Idle.refl (w : World) : Idle w w := ⟨rfl, rfl, fun _ h => h⟩

theorem SameStore.idle (h : SameStore w w') : Idle w w' :=
  ⟨h.db, h.now, fun _ hu => h.drawn ▸ hu⟩

theorem World.Sound.draw (hw : w.Sound) (u : String) : (w.draw u).Sound := fun k e he =>
  (hw k e he).mono fun _ hc => ⟨hc.1, List.mem_cons_of_mem _ hc.2⟩

theorem World.Fresh.of_draw {u v : String} (h : (w.draw v).Fresh u) : w.Fresh u :=
  ⟨h.1, fun hm => h.2 (List.mem_cons_of_mem _ hm)⟩

/-- A request that fails before it issues leaves the store alone. -/
theorem idle_of_unissued {w₁ : World} (hs : SameStore w w₁)
    (h : w' = w₁ ∨ ∃ x, w.Fresh x ∧ w' = w₁.draw x) : Idle w w' := by
  rcases h with rfl | ⟨_, -, rfl⟩
  · exact hs.idle
  · exact ⟨hs.db, hs.now, fun x hx => List.mem_cons_of_mem _ (hs.drawn ▸ hx)⟩

/-- Counting in a metric. -/
theorem alone_metric_bind {α : Type} {m : Metric} {f : Unit → ExceptT Error M α} {r : Except Error α} :
    Alone S (callE (.metric m) >>= f : ExceptT Error M α) w r w' ↔ Alone S (f ()) w r w' := by
  rw [alone_callE_bind]
  constructor
  · rintro ⟨v, w₁, hm, h⟩
    obtain rfl := Orderly.metric.mp hm
    exact h
  · exact fun h => ⟨(), w, Orderly.metric.mpr rfl, h⟩

/-- A single token that is issued. -/
theorem minted_of_token (ht : libs.json.Faithful) {issuer sub access u : String}
    {audience : List String} {ttl : Option Nat} {extra : List (String × Json)} {seconds : Nat}
    {jwk : JwkData} {key : libs.ssl.PrivateKey} {refresh : Option String} {r : HttpResponse}
    (hi : Issuable env libs.json audience ttl extra w.now seconds) (hu : w.Fresh u)
    (hsig : signed env libs jwk key (newClaims issuer sub audience w.now seconds u extra) = .ok access)
    (hb : r.body = .token access refresh) (hnow : w'.now = w.now) (hdrawn : u ∈ w'.drawn)
    (hkept : ∀ u ∈ w.drawn, u ∈ w'.drawn)
    (hdb : ∀ k, ¬ FamilyKey k → w'.db k = issueDb w.db w.now sub u seconds k) :
    ∃ c, c.jti = u ∧ Minted libs w w' r sub c seconds refresh := by
  obtain ⟨x, hc⟩ := signed_claims ht hi hsig
  exact ⟨_, rfl, ⟨access, hb, hc⟩, rfl, rfl, hi.positive, hi.bounded, hu, hnow, hdrawn, hkept, hdb⟩

theorem frame_issueDb {w₁ : World} {u sub : String} {seconds : Nat} (hs : SameStore w w₁)
    (hf : Frame FamilyKey ((w₁.draw u).setDb (issueDb w.db w.now sub u seconds)) w') :
    w'.now = w.now ∧ u ∈ w'.drawn ∧ (∀ x ∈ w.drawn, x ∈ w'.drawn) ∧
      ∀ k, ¬ FamilyKey k → w'.db k = issueDb w.db w.now sub u seconds k := by
  refine ⟨hf.now.trans hs.now, hf.drawn u List.mem_cons_self, fun x hx => ?_, hf.db⟩
  exact hf.drawn x (List.mem_cons_of_mem _ (hs.drawn ▸ hx))

/-- What `POST /tokens` does. -/
theorem alone_createToken (ht : libs.json.Faithful) (hw : w.Sound) {req : TokenRequest}
    (h : Alone S (respond (createToken env libs (redisClient libs.json) host req)) w resp w')
    (hok : resp.status ≠ 500) : Effect env libs w (.createToken host req) resp w' := by
  obtain ⟨x, hprog, rfl⟩ := alone_respond.mp h
  rw [createToken] at hprog
  obtain ⟨issuer, r, w₁, hy, hx⟩ | ⟨e, rfl, rfl⟩ := alone_forIssuer hprog
  swap
  · exact .idle (.refl _) (tokenless_error e)
  -- A refusal is only answered otherwise than with 500 when nothing was issued.
  have herr : ∀ e, r = .error e → Idle w w₁ ∨ e ≠ .unprocessableEntity →
      Effect env libs w (.createToken host req) (responseOf x) w' := by
    intro e he hidle
    rw [he] at hx
    cases e with
    | unprocessableEntity =>
      obtain ⟨rfl, rfl⟩ := hx
      rcases hidle with hidle | hne
      · exact .idle hidle (tokenless_error _)
      · exact absurd rfl hne
    | _ =>
      obtain ⟨rfl, -⟩ := hx
      exact absurd rfl hok
  cases hreq : req.refresh with
  | true =>
    rw [issue, if_pos hreq] at hy
    rcases alone_bind.mp hy with ⟨⟨access, id⟩, w₂, hp, hy⟩ | ⟨e, hp, he⟩
    · obtain ⟨hr', hw₂⟩ := hy
      rw [hr', hw₂] at hx
      obtain ⟨hx, hw'⟩ := alone_metric_bind.mp hx
      rw [hx, hw']
      rw [JwtManager.generateTokenPair, alone_newUuid_bind] at hp
      obtain ⟨family, hf, hp⟩ := hp
      replace hp : Alone S (issuePair env libs issuer req.sub req.aud req.ttl req.claims family)
        (w.draw family) (.ok (access, id)) w₂ := hp
      obtain ⟨w₃, u, text, seconds, jwk, key, hs, hpi, hfr, hdb, hvoid⟩ :=
        alone_issuePair_ok ht (hw.draw family) hp
      obtain ⟨h₁, h₂, h₃, h₄⟩ := frame_issueDb hs hfr
      obtain ⟨c, rfl, hm⟩ := minted_of_token (w := w) (r := ⟨200, .token access (some id)⟩) ht
        hpi.issuable
        hpi.fresh.of_draw hpi.signed rfl h₁ h₂ (fun x hx => h₃ x (List.mem_cons_of_mem _ hx)) h₄
      refine .pair hm hf (h₃ _ List.mem_cons_self) ⟨hpi.freshId.of_draw.of_draw, ?_, hvoid, ?_⟩
      · exact fun h => hpi.freshId.2 (h ▸ List.mem_cons_self)
      · intro h₀ hlt
        obtain ⟨hr, hdb⟩ := hdb h₀ hlt
        exact ⟨text, hr.bounded, by rw [hdb]; rfl⟩
    · refine herr e he ?_
      rw [JwtManager.generateTokenPair, alone_newUuid_bind] at hp
      obtain ⟨family, -, hp⟩ := hp
      replace hp : Alone S (issuePair env libs issuer req.sub req.aud req.ttl req.claims family)
        (w.draw family) (.error e) w₁ := hp
      rcases alone_issuePair_inv ((hw.draw family).subject_isSet req.sub) hp with
        ⟨e', w₂, he', -, hs, hw₂⟩ | ⟨_, _, _, _, _, -, -, -, -, -, ⟨e', he', -, hne⟩ | ⟨_, _, he', -⟩⟩
      · have hi := idle_of_unissued hs hw₂
        exact .inl ⟨hi.db, hi.now, fun x hx => hi.drawn x (List.mem_cons_of_mem _ hx)⟩
      · cases he'
        exact .inr hne
      · cases he'
  | false =>
    rw [issue, if_neg (by rw [hreq]; exact Bool.false_ne_true)] at hy
    rcases alone_bind.mp hy with ⟨access, w₂, hp, hy⟩ | ⟨e, hp, he⟩
    · obtain ⟨hr', hw₂⟩ := hy
      rw [hr', hw₂] at hx
      obtain ⟨hx, hw'⟩ := alone_metric_bind.mp hx
      rw [hx, hw']
      rcases alone_generateToken_inv (hw.subject_isSet req.sub) hp with ⟨_, _, he, -⟩ |
        ⟨seconds, u, jwk, key, w₃, hi, hu, -, hs, hsig, hw₃⟩
      · cases he
      · have hfr := Frame.refl (K := FamilyKey) w₂
        rw [hw₃] at hfr
        obtain ⟨h₁, h₂, h₃, h₄⟩ := frame_issueDb hs hfr
        rw [← hw₃] at h₁ h₂ h₃ h₄
        obtain ⟨c, rfl, hm⟩ := minted_of_token (r := ⟨200, .token access none⟩) ht hi hu hsig.symm
          rfl h₁ h₂ h₃ h₄
        exact .access hm (by rw [hw₃]; rfl)
    · refine herr e he ?_
      rcases alone_generateToken_inv (hw.subject_isSet req.sub) hp with ⟨e', w₂, he', -, hs, hw₂⟩ |
        ⟨seconds, u, jwk, key, w₃, hi, hu, -, hs, hsig, hw₃⟩
      · exact .inl (idle_of_unissued hs hw₂)
      · refine .inr ?_
        rcases signed_error hsig.symm with rfl | rfl <;> simp

/-- A mark is a key of families. -/
theorem markUsed_db (token : String) {k : String} (hk : ¬ FamilyKey k) :
    (w.markUsed token).db k = w.db k :=
  Db.mark_ne fun h => hk (.inr ⟨token, h⟩)

/-- What `POST /tokens/refresh` does. -/
theorem alone_refreshToken (ht : libs.json.Faithful) (hw : w.Sound) {token : String}
    (h : Alone S (respond (refreshToken env libs (redisClient libs.json) host token)) w resp w')
    (hok : resp.status ≠ 500) : Effect env libs w (.refreshToken host token) resp w' := by
  obtain ⟨x, hprog, rfl⟩ := alone_respond.mp h
  rw [refreshToken] at hprog
  obtain ⟨issuer, r, w₁, hy, hx⟩ | ⟨e, rfl, rfl⟩ := alone_forIssuer hprog
  swap
  · exact .idle (.refl _) (tokenless_error e)
  replace hy := (alone_refreshTokenPair hw _ _).mp hy
  cases hrec : w.record libs.json token with
  | none =>
    rw [hrec] at hy
    obtain ⟨rfl, rfl⟩ := hy
    obtain ⟨rfl, rfl⟩ := hx
    exact .idle (.refl _) (tokenless_error _)
  | some record =>
    rw [hrec] at hy
    cases hu : w.used token with
    | true =>
      rw [hu] at hy
      obtain ⟨hr', hw₁⟩ := hy
      rw [hr'] at hx
      obtain ⟨hx, hw'⟩ := hx
      rw [hx, hw', hw₁]
      exact .kill hrec hu (tokenless_error _)
    | false =>
      rw [hu] at hy
      have hm := hw.markUsed hrec
      replace hy : Alone S (issuePair env libs issuer record.subject record.audience none []
        record.family) (w.markUsed token) r w₁ := hy
      rcases r with e | ⟨access, id⟩
      · -- An exchange that fails after the mark is answered with 500.
        have hne : e ≠ .notValid := by
          rcases alone_issuePair_inv (hm.subject_isSet record.subject) hy with ⟨e', _, he', hne, -⟩ |
            ⟨_, _, _, _, _, -, -, -, -, -, ⟨e', he', hne, -⟩ | ⟨_, _, he', -⟩⟩
          · cases he'
            exact hne
          · cases he'
            exact hne
          · cases he'
        cases e with
        | notValid => exact absurd rfl hne
        | _ =>
          obtain ⟨rfl, -⟩ := hx
          exact absurd rfl hok
      · obtain ⟨hx, hw'⟩ := alone_metric_bind.mp hx
        rw [hx, hw']
        obtain ⟨w₃, u, text, seconds, jwk, key, hs, hpi, hfr, hdb, hvoid⟩ :=
          alone_issuePair_ok ht hm hy
        obtain ⟨h₁, h₂, h₃, h₄⟩ := frame_issueDb hs hfr
        have h₅ : ∀ k, ¬ FamilyKey k → w₁.db k = issueDb w.db w.now record.subject u seconds k :=
          fun k hk => (h₄ k hk).trans (issueDb_congr (fun _ => markUsed_db token) hk)
        obtain ⟨c, rfl, hmint⟩ := minted_of_token (w := w) (r := ⟨200, .token access (some id)⟩) ht
          hpi.issuable hpi.fresh hpi.signed rfl h₁ h₂ h₃ h₅
        refine .exchange hrec hu hmint ⟨World.Fresh.of_draw (w := w) hpi.freshId, ?_, hvoid, ?_⟩
        · exact fun h => hpi.freshId.2 (h ▸ List.mem_cons_self)
        · intro h₀ hlt
          obtain ⟨hr, hdb⟩ := hdb h₀ hlt
          exact ⟨text, hr.bounded, by rw [hdb]; rfl⟩

/-- What `DELETE /tokens/{jti}` does. -/
theorem alone_revokeToken {j : String} :
    Alone S (respond (revokeToken (redisClient libs.json) j)) w resp w' ↔
      resp = ⟨204, .empty⟩ ∧ w' = w.setDb (w.db.delAll [j]) := by
  have hdel : ∀ r w', Alone S ((redisClient libs.json).deleteJti j) w r w' ↔
      r = .ok () ∧ w' = w.setDb (w.db.delAll [j]) := alone_run_ok (c := .del [j]) rfl
  have hh : ∀ x w', Alone S (revokeToken (redisClient libs.json) j) w x w' ↔
      x = .ok ⟨204, .empty⟩ ∧ w' = w.setDb (w.db.delAll [j]) := fun x w' => by
    rw [revokeToken, alone_bind_of (alone_liftE_ok hdel)]
    exact alone_metric_bind
  rw [alone_respond]
  simp only [hh]
  constructor
  · rintro ⟨x, ⟨rfl, rfl⟩, rfl⟩
    exact ⟨rfl, rfl⟩
  · rintro ⟨rfl, rfl⟩
    exact ⟨_, ⟨rfl, rfl⟩, rfl⟩

theorem alone_recordRevoked (n : Nat) (r : Except Error Unit) (w' : World) :
    Alone S (recordRevoked n) w r w' ↔ r = .ok () ∧ w' = w := by
  induction n with
  | zero => exact Iff.rfl
  | succ n ih => exact alone_metric_bind.trans ih

/-- What `DELETE /subjects/{sub}/tokens` does. -/
theorem alone_revokeSubjectTokens (hw : w.Sound) {sub : String} :
    Alone S (respond (revokeSubjectTokens (redisClient libs.json) sub)) w resp w' ↔
      resp = ⟨200, .revoked (w.db.listed w.now (subjectGroup sub) (timestamp w.now)).length⟩ ∧
        w' = w.setDb (w.db.delAll
          (subjectGroup sub :: w.db.listed w.now (subjectGroup sub) (timestamp w.now))) := by
  have hrev : ∀ r w', Alone S ((redisClient libs.json).revokeGroup (subjectGroup sub)) w r w' ↔ _ ∧ _ :=
    alone_revokeGroup (hw.subject_isSet sub)
  have hh : ∀ x w', Alone S (revokeSubjectTokens (redisClient libs.json) sub) w x w' ↔
      x = .ok ⟨200, .revoked (w.db.listed w.now (subjectGroup sub) (timestamp w.now)).length⟩ ∧ _ :=
    fun x w' => by
      rw [revokeSubjectTokens, alone_bind_of (alone_liftE_ok hrev)]
      show Alone S (recordRevoked _ >>= _ : ExceptT Error M HttpResponse) _ _ _ ↔ _
      rw [alone_bind_of (alone_recordRevoked _)]
      exact Iff.rfl
  rw [alone_respond]
  simp only [hh]
  constructor
  · rintro ⟨x, ⟨rfl, rfl⟩, rfl⟩
    exact ⟨rfl, rfl⟩
  · rintro ⟨rfl, rfl⟩
    exact ⟨_, ⟨rfl, rfl⟩, rfl⟩

/-- A program that writes no key. -/
abbrev Reads {α : Type} (p : M α) : Prop := Within (fun _ => False) p

theorem Reads.idle {α : Type} {p : M α} (hp : Reads p) {a : α} (h : Alone S p w a w') : Idle w w' := by
  have hf := alone_within hp h
  exact ⟨funext fun k => hf.db k id, hf.now, hf.drawn⟩

theorem reads_isVerify (t : JsonText) (c : TokenClaims) (issuer audience : String) :
    Reads (c.isVerify (redisClient t) issuer audience) := by
  refine Prog.only_bind ⟨fun _ hc => (nomatch hc), fun _ => trivial⟩ fun now => ?_
  show Prog.Only _ (ite _ _ _)
  split
  · refine Prog.only_bind (within_run fun k hk => nomatch hk) fun r => ?_
    cases r <;> trivial
  · trivial

theorem reads_verifyToken (req : TokenVerifyRequest) :
    Reads (respond (verifyToken env libs (redisClient libs.json) host req)) := by
  show Reads (handle env libs (redisClient libs.json) (.verifyToken host req))
  apply only_verifyToken
  · intro e he c hc
    subst hc
    cases he
  · intro j c hc k hk
    cases hc
    cases hk

theorem reads_readyz (t : JsonText) : Reads (readyz (redisClient t)) := by
  refine Prog.only_bind (within_run (c := .ping) fun k hk => nomatch hk) fun r => ?_
  refine Prog.only_bind KeyManager.quiet_checkJwks.within fun r => ?_
  refine Prog.only_bind ?_ fun _ => trivial
  unfold snapshotServes
  split
  · trivial
  · exact ⟨fun _ hc => (nomatch hc), fun _ => trivial⟩

/-- A verification answers with claims or with an error. -/
theorem tokenless_verifyToken {req : TokenVerifyRequest}
    (h : Alone S (respond (verifyToken env libs (redisClient libs.json) host req)) w resp w') :
    resp.Tokenless := by
  obtain ⟨x, hx, rfl⟩ := alone_respond.mp h
  cases x with
  | error e => exact tokenless_error e
  | ok r =>
    rw [verifyToken, alone_bind] at hx
    rcases hx with ⟨issuer, w₁, -, hx⟩ | ⟨e, -, he⟩
    · split at hx
      · rcases alone_bind.mp hx with ⟨y, w₂, -, hx⟩ | ⟨e, -, he⟩
        · cases y with
          | ok c =>
            obtain ⟨hr, -⟩ := alone_metric_bind.mp hx
            cases hr
            simp [HttpResponse.Tokenless, responseOf]
          | error e =>
            obtain ⟨hr, -⟩ := alone_metric_bind.mp hx
            cases hr
        · cases he
      · cases hx.1
    · cases he

omit [Orderly S] in
theorem tokenless_readyz {t : JsonText} (h : Alone S (readyz (redisClient t)) w resp w') :
    resp.Tokenless := by
  obtain ⟨_, _, -, h⟩ := Prog.eval_bind.mp h
  obtain ⟨_, _, -, h⟩ := Prog.eval_bind.mp h
  obtain ⟨_, _, -, h⟩ := Prog.eval_bind.mp h
  obtain ⟨rfl, -⟩ := h
  exact fun _ _ => nofun

/-- What a request that runs alone and does not answer 500 does. -/
theorem alone_handle (ht : libs.json.Faithful) (hw : w.Sound) {r : Request}
    (h : Alone S (handle env libs (redisClient libs.json) r) w resp w') (hok : resp.status ≠ 500) :
    Effect env libs w r resp w' := by
  cases r with
  | createToken host req => exact alone_createToken ht hw h hok
  | refreshToken host token => exact alone_refreshToken ht hw h hok
  | revokeToken jti =>
    obtain ⟨rfl, rfl⟩ := alone_revokeToken.mp h
    exact .revoke jti fun _ _ => nofun
  | revokeSubjectTokens sub =>
    obtain ⟨rfl, rfl⟩ := (alone_revokeSubjectTokens hw).mp h
    exact .revokeSubject sub
  | verifyToken host req => exact .idle ((reads_verifyToken req).idle h) (tokenless_verifyToken h)
  | livez =>
    obtain ⟨rfl, rfl⟩ := h
    exact .idle (.refl _) fun _ _ => nofun
  | readyz => exact .idle ((reads_readyz libs.json).idle h) (tokenless_readyz h)

/-! ## Requests that succeed -/

/-- The key service answers with a key that OpenSSL takes. -/
theorem alone_getPrivateKey {s : JwkService} {ssl : OpenSsl} {alg : String} {key : JwkData}
    {pk : ssl.PrivateKey} (hk : KeyManager.privateKeyOf ssl key = .ok pk) :
    Alone (faultless s).call (KeyManager.getPrivateKey ssl alg) w (.ok (key, pk))
      { w with keyId := key.id } := by
  have hkey : Alone (faultless s).call (JwkService.privateKey w.keyId alg) w (.ok key) w := by
    show Alone _ (ite _ _ _) _ _ _
    split
    · exact ⟨.response 200 (some key), w, ⟨.key _, rfl, rfl⟩, rfl, rfl⟩
    · refine Prog.eval_bind.mpr ⟨.ok key, w, ?_, rfl, rfl⟩
      exact ⟨.response 200 (some key), w, ⟨.key _, rfl, rfl⟩, rfl, rfl⟩
  refine alone_bind.mpr (.inl ⟨key, { w with keyId := key.id }, ?_, ?_⟩)
  · refine alone_callE_bind.mpr ⟨w.keyId, w, ⟨.plain, rfl, rfl⟩, ?_⟩
    refine alone_bind.mpr (.inl ⟨key, w, Prog.eval_mapError.mpr ⟨_, hkey, rfl⟩, ?_⟩)
    exact alone_callE_bind.mpr ⟨(), _, ⟨.plain, rfl, rfl⟩, rfl, rfl⟩
  · exact alone_bind.mpr (.inl ⟨pk, _, alone_ofExcept.mpr ⟨hk.symm, rfl⟩, rfl, rfl⟩)

/-- A single token is issued. -/
theorem alone_createToken_of {req : TokenRequest} {issuer access u : String} {seconds : Nat}
    {jwk : JwkData} {key : libs.ssl.PrivateKey} {w₁ : World} (hw : w.Sound)
    (hh : issuerForIssuance env host = .ok issuer) (hr : req.refresh = false)
    (hi : Issuable env libs.json req.aud req.ttl req.claims w.now seconds) (hu : w.Fresh u)
    (hk : Alone S (KeyManager.getPrivateKey libs.ssl (JwtManager.algorithm env)) w (.ok (jwk, key)) w₁)
    (hs : signed env libs jwk key (newClaims issuer req.sub req.aud w.now seconds u req.claims) =
      .ok access) :
    Alone S (handle env libs (redisClient libs.json) (.createToken host req)) w
      ⟨200, .token access none⟩ ((w₁.draw u).setDb (issueDb w.db w.now req.sub u seconds)) := by
  have hgen := @alone_generateToken S _ w env libs issuer req.sub req.aud req.ttl req.claims seconds u
    jwk key w₁ hi (hw.subject_isSet req.sub) hu hk
  rw [hs] at hgen
  have hissue : Alone S (issue env libs (redisClient libs.json) issuer req) w (.ok (access, none))
      ((w₁.draw u).setDb (issueDb w.db w.now req.sub u seconds)) := by
    rw [issue, if_neg (by rw [hr]; exact Bool.false_ne_true)]
    exact alone_bind.mpr (.inl ⟨access, _, hgen, rfl, rfl⟩)
  refine alone_respond.mpr ⟨.ok ⟨200, .token access none⟩, ?_, rfl⟩
  refine alone_bind.mpr (.inl ⟨issuer, w, alone_ofExcept.mpr ⟨hh.symm, rfl⟩, ?_⟩)
  refine alone_bind.mpr (.inl ⟨_, _, Prog.eval_liftE.mpr ⟨_, hissue, rfl⟩, ?_⟩)
  exact alone_metric_bind.mpr ⟨rfl, rfl⟩

/-- A request for a pair is answered with the pair of a new family. -/
theorem alone_createPair {req : TokenRequest} {issuer access id family : String}
    (hh : issuerForIssuance env host = .ok issuer) (hr : req.refresh = true) (hf : w.Fresh family)
    (hp : Alone S (issuePair env libs issuer req.sub req.aud req.ttl req.claims family)
      (w.draw family) (.ok (access, id)) w') :
    Alone S (handle env libs (redisClient libs.json) (.createToken host req)) w
      ⟨200, .token access (some id)⟩ w' := by
  have hissue : Alone S (issue env libs (redisClient libs.json) issuer req) w
      (.ok (access, some id)) w' := by
    rw [issue, if_pos hr]
    refine alone_bind.mpr (.inl ⟨(access, id), _, ?_, rfl, rfl⟩)
    exact alone_newUuid_bind.mpr ⟨family, hf, hp⟩
  refine alone_respond.mpr ⟨.ok ⟨200, .token access (some id)⟩, ?_, rfl⟩
  refine alone_bind.mpr (.inl ⟨issuer, w, alone_ofExcept.mpr ⟨hh.symm, rfl⟩, ?_⟩)
  refine alone_bind.mpr (.inl ⟨_, _, Prog.eval_liftE.mpr ⟨_, hissue, rfl⟩, ?_⟩)
  exact alone_metric_bind.mpr ⟨rfl, rfl⟩

/-- A command that is answered. -/
theorem path_run (c : Cmd) (a : c.Reply) : @Prog.Path svc _ (RedisClient.run c) [⟨.redis c, .ok a⟩] (.ret (.ok a)) :=
  .cons (.nil _)

/-- A record that is read. -/
theorem path_getRefresh {token : String} {fs : List (String × String)} {record : RefreshRecord}
    (hne : fs ≠ []) (hf : RedisClient.recordOfFields libs.json fs = some record) :
    @Prog.Path svc _ (RedisClient.getRefresh libs.json token)
      [⟨.redis (.hgetAll (refreshKey token)), .ok fs⟩] (.ret (.ok (some record))) := by
  rw [← List.append_nil [_]]
  refine Prog.path_tryBind_of (path_run (.hgetAll (refreshKey token)) fs) ?_
  rw [if_neg hne, hf]
  exact .nil _

/-- The calls of an exchange that is answered with a pair. -/
theorem path_refreshToken {token issuer access id : String} {fs : List (String × String)}
    {record : RefreshRecord} {cs : Calls} (hh : issuerForIssuance env host = .ok issuer) (hne : fs ≠ [])
    (hf : RedisClient.recordOfFields libs.json fs = some record)
    (hp : Prog.Path (JwtManager.exchange env libs (redisClient libs.json) issuer record) cs
      (.ret (.ok (access, id)))) :
    Prog.Path (handle env libs (redisClient libs.json) (.refreshToken host token))
      ([⟨.redis (.hgetAll (refreshKey token)), .ok fs⟩,
        ⟨.redis (.hsetNx (refreshKey token) "used" "1"), .ok true⟩] ++
        (cs ++ [⟨.metric .tokenIssued, ()⟩])) (.ret ⟨200, .token access (some id)⟩) := by
  have hpair : @Prog.Path svc _ (JwtManager.refreshTokenPair env libs (redisClient libs.json) token issuer)
      ([⟨.redis (.hgetAll (refreshKey token)), .ok fs⟩] ++
        ([⟨.redis (.hsetNx (refreshKey token) "used" "1"), .ok true⟩] ++ cs)) (.ret (.ok (access, id))) :=
    Prog.path_tryBind_of (Prog.path_mapError_of (path_getRefresh hne hf)) (Prog.path_tryBind_of
      (Prog.path_mapError_of (path_run (.hsetNx (refreshKey token) "used" "1") true)) hp)
  have hhandler : @Prog.Path svc _ (refreshToken env libs (redisClient libs.json) host token) _
      (.ret (.ok ⟨200, .token access (some id)⟩)) :=
    Prog.path_tryBind_of (Prog.path_ofExcept_of hh) (Prog.path_tryBind_of (Prog.path_liftE_of hpair)
      (.cons (r := ()) (.nil _)))
  exact hhandler.bind _

/-- The calls of an exchange that finds the mark, and is refused. -/
theorem path_reuse {token issuer : String} {fs : List (String × String)} {record : RefreshRecord} {n : Nat}
    {cs : Calls} (hh : issuerForIssuance env host = .ok issuer) (hne : fs ≠ [])
    (hf : RedisClient.recordOfFields libs.json fs = some record)
    (hp : Prog.Path (RedisClient.revokeGroup (familyGroup record.family)) cs (.ret (.ok n))) :
    Prog.Path (handle env libs (redisClient libs.json) (.refreshToken host token))
      ([⟨.redis (.hgetAll (refreshKey token)), .ok fs⟩,
        ⟨.redis (.hsetNx (refreshKey token) "used" "1"), .ok false⟩] ++ cs)
      (.ret (Error.unauthorized "Invalid refresh token").errorResponse) := by
  have hrevoke : @Prog.Path svc _ (do
      let _ ← orStoreError (RedisClient.revokeGroup (familyGroup record.family))
      throw .notValid : ExceptT JwtError M (String × String)) cs (.ret (.error .notValid)) := by
    rw [← List.append_nil cs]
    exact Prog.path_tryBind_of (Prog.path_mapError_of hp) (.nil _)
  have hkill : @Prog.Path svc _ (JwtManager.refreshTokenPair env libs (redisClient libs.json) token issuer)
      ([⟨.redis (.hgetAll (refreshKey token)), .ok fs⟩] ++
        ([⟨.redis (.hsetNx (refreshKey token) "used" "1"), .ok false⟩] ++ cs)) (.ret (.error .notValid)) :=
    Prog.path_tryBind_of (Prog.path_mapError_of (path_getRefresh hne hf)) (Prog.path_tryBind_of
      (Prog.path_mapError_of (path_run (.hsetNx (refreshKey token) "used" "1") false)) hrevoke)
  have hhandler : @Prog.Path svc _ (refreshToken env libs (redisClient libs.json) host token) _
      (.ret (.error (.unauthorized "Invalid refresh token"))) :=
    Prog.path_tryBind_of (Prog.path_ofExcept_of hh) (Prog.path_tryBind_of (Prog.path_liftE_of hkill) (.nil _))
  rw [List.append_nil] at hhandler
  exact hhandler.bind _

/-- An exchange is answered with the pair. -/
theorem alone_refreshToken_of {token issuer access id : String}
    (hh : issuerForIssuance env host = .ok issuer)
    (h : Alone S (JwtManager.refreshTokenPair env libs (redisClient libs.json) token issuer) w
      (.ok (access, id)) w') :
    Alone S (handle env libs (redisClient libs.json) (.refreshToken host token)) w
      ⟨200, .token access (some id)⟩ w' := by
  refine alone_respond.mpr ⟨.ok ⟨200, .token access (some id)⟩, ?_, rfl⟩
  refine alone_bind.mpr (.inl ⟨issuer, w, alone_ofExcept.mpr ⟨hh.symm, rfl⟩, ?_⟩)
  refine alone_bind.mpr (.inl ⟨_, _, Prog.eval_liftE.mpr ⟨_, h, rfl⟩, ?_⟩)
  exact alone_metric_bind.mpr ⟨rfl, rfl⟩

end Handlers

/-! ## Histories -/

/-- A token that was handed out, with its refresh token if it came with one.
`chain` is the first refresh token of the chain of exchanges it belongs to. -/
structure Grant where
  claims : TokenClaims
  refresh : Option String
  chain : Option String

/-- The chain of what a request hands out. -/
def chainOf (past : List Grant) (refresh : Option String) : Request → Option String
  | .refreshToken _ token => (past.find? fun g => g.refresh = some token).bind Grant.chain
  | _ => refresh

/-- What a response hands out. -/
def granted (libs : Libs) (past : List Grant) (r : Request) (resp : HttpResponse) : List Grant :=
  match resp.body with
  | .token access refresh =>
    match JwtManager.claimsSegmentOf libs access with
    | .ok c => [⟨c, refresh, chainOf past refresh r⟩]
    | .error _ => []
  | _ => []

/-- A world with what was handed out in it, the newest first. -/
structure Past where
  world : World
  grants : List Grant

/-- The histories of the service: requests one after the other, none of which
fails, and time passing as `T` permits. Only tokens that were handed out are
revoked one by one. -/
inductive Past.Reached (env : Env) (libs : Libs) (s : JwkService) (T : Past → Nat → Prop) : Past → Prop
  | start : Reached env libs s T ⟨World.empty, []⟩
  | request {p : Past} {r : Request} {resp : HttpResponse} {w' : World}
      (hp : Reached env libs s T p)
      (h : Alone (faultless s).call (handle env libs (redisClient libs.json) r) p.world resp w')
      (hok : resp.status ≠ 500)
      (hdel : ∀ jti, r = .revokeToken jti → ∃ g ∈ p.grants, g.claims.jti = jti) :
      Reached env libs s T ⟨w', granted libs p.grants r resp ++ p.grants⟩
  | tick {p : Past} {d : Nat} (hp : Reached env libs s T p) (hd : T p d) :
      Reached env libs s T ⟨p.world.tick d, p.grants⟩

section Past

variable {env : Env} {libs : Libs} {s : JwkService} {T : Past → Nat → Prop} {p : Past}

theorem granted_tokenless {past : List Grant} {r : Request} {resp : HttpResponse}
    (h : resp.Tokenless) : granted libs past r resp = [] := by
  obtain ⟨status, body⟩ := resp
  cases body with
  | token access refresh => exact absurd rfl (h access refresh)
  | _ => rfl

theorem Minted.granted {w w' : World} {resp : HttpResponse} {sub : String} {c : TokenClaims}
    {seconds : Nat} {refresh : Option String} (h : Minted libs w w' resp sub c seconds refresh)
    (past : List Grant) (r : Request) :
    granted libs past r resp = [⟨c, refresh, chainOf past refresh r⟩] := by
  obtain ⟨access, hb, hc⟩ := h.body
  rw [JwtService.granted, hb]
  simp only [hc]

section Minted

variable {w w' : World} {resp : HttpResponse} {sub : String} {c : TokenClaims} {seconds : Nat}
  {refresh : Option String}

/-- The key of a new token. -/
theorem Minted.get (hm : Minted libs w w' resp sub c seconds refresh) :
    w'.db.get w'.now c.jti = some ⟨.str "1", some (w.now + 1000 * seconds)⟩ := by
  have hpos := hm.positive
  rw [hm.now, Db.get_congr (hm.db _ (not_familyKey_uuid hm.fresh.1)),
    issueDb_jti hm.fresh.1 (by omega)]

/-- The key of an older token stays as it is. -/
theorem Minted.older (hm : Minted libs w w' resp sub c seconds refresh) {j : String}
    (hk : w.Knows (.access j)) : w'.db j = w.db j :=
  (hm.db _ (not_familyKey_uuid hk.1)).trans
    (issueDb_ne (fun e => hm.fresh.2 (e ▸ hk.2)) (Ne.symm (subject_ne_uuid hk.1 c.sub)))

/-- The group of the subject of a new token. -/
theorem Minted.group (hm : Minted libs w w' resp sub c seconds refresh) :
    w'.db.get w'.now (subjectGroup c.sub) =
      some ⟨.zset (zinsert c.jti c.exp (w.db.members w.now (subjectGroup c.sub))),
        some (1000 * c.exp)⟩ := by
  have hexp := hm.exp
  have hpos := hm.positive
  rw [hm.now, Db.get_congr (hm.db _ (not_familyKey_subject _)), issueDb_group hm.fresh.1 (by omega), hexp]

/-- The groups of other subjects stay as they are. -/
theorem Minted.otherGroup (hm : Minted libs w w' resp sub c seconds refresh) {sub' : String}
    (hne : sub' ≠ c.sub) : w'.db (subjectGroup sub') = w.db (subjectGroup sub') :=
  (hm.db _ (not_familyKey_subject _)).trans
    (issueDb_ne (subject_ne_uuid hm.fresh.1 sub') fun e => hne (subjectGroup_inj e))

theorem Minted.knows (hm : Minted libs w w' resp sub c seconds refresh) {a : Credential}
    (hk : w.Knows a) : w'.Knows a :=
  ⟨hk.1, hm.kept _ hk.2⟩

end Minted

theorem World.Sound.handle (ht : libs.json.Faithful) {S : Prog.Sem svc World} [Orderly S]
    {w w' : World} (hw : w.Sound) {r : Request} {resp : HttpResponse}
    (h : Alone S (handle env libs (redisClient libs.json) r) w resp w') : w'.Sound :=
  (hw.alone (handle_ok env libs ht (by exact nofun) (by exact nofun) r) h).1

theorem World.Sound.tick {w : World} (hw : w.Sound) (d : Nat) : (w.tick d).Sound := hw

theorem Past.Reached.sound (ht : libs.json.Faithful) (hp : p.Reached env libs s T) :
    p.world.Sound := by
  induction hp with
  | start => exact sound_empty
  | request _ h _ _ ih => exact ih.handle ht h
  | tick _ _ ih => exact ih.tick _

end Past

/-! ## A small instance -/

/-- An OpenSSL whose signature of a message is the message. -/
def echoSsl : OpenSsl where
  PrivateKey := Unit
  PublicKey := Unit
  privateKeyFromPkcs8 _ := some ()
  rsaPublicKey _ _ := some ()
  ecPublicKey _ _ _ := some ()
  edPublicKey _ _ := some ()
  sign _ _ message := some message
  verify _ _ signature message := some (signature == message)

def echoLibs : Libs := ⟨.compact, echoSsl⟩

def echoKey : JwkData where
  id := "key-1"
  kty := "RSA"
  alg := "RS256"
  kid := "key-1"
  crv := none
  x := none
  y := none
  n := some "AQAB"
  e := some "AQAB"
  privateKey := "AQAB"

/-- No variable is set. -/
def bareEnv : Env := fun _ => none

/-- A few UUIDs. -/
def uuidA : String := "00000000-0000-4000-8000-00000000000a"
def uuidB : String := "00000000-0000-4000-8000-00000000000b"
def uuidC : String := "00000000-0000-4000-8000-00000000000c"
def uuidD : String := "00000000-0000-4000-8000-00000000000d"
def uuidE : String := "00000000-0000-4000-8000-00000000000e"

theorem echo_privateKey : KeyManager.privateKeyOf echoSsl echoKey = .ok () := rfl

theorem echo_signed (env : Env) (c : TokenClaims) :
    ∃ access, signed env echoLibs echoKey () c = .ok access := ⟨_, rfl⟩

theorem echo_faithful : echoLibs.json.Faithful := JsonText.compact_faithful

section Echo

variable {s : JwkService} {T : Past → Nat → Prop} {p : Past}

/-- What can be issued without custom claims, when no variable is set. -/
theorem bare_issuable {audience : List String} {now seconds : Nat} (t : JsonText)
    (ha : audience ≠ []) (h₁ : 1 ≤ seconds) (h₂ : seconds ≤ 86400)
    (hn : now / 1000 + seconds ≤ maxSeconds) :
    Issuable bareEnv t audience (some seconds) [] now seconds where
  claims := rfl
  ttl := by
    have hmin : bareEnv.u64 "TOKEN_TTL_MIN_SECONDS" 1 = 1 := rfl
    have hmax : bareEnv.u64 "TOKEN_TTL_MAX_SECONDS" 86400 = 86400 := rfl
    rw [TokenClaims.expirationSeconds, hmin, hmax, if_neg (by omega)]
  audience := ha
  positive := h₁
  bounded := hn

/-- The instance answers a request for a token. -/
theorem echo_createToken {w : World} (hw : w.Sound) (sub : String) {seconds : Nat} {u : String}
    (hu : w.Fresh u) (h₁ : 1 ≤ seconds) (h₂ : seconds ≤ 86400)
    (hn : w.now / 1000 + seconds ≤ maxSeconds) :
    ∃ access x, JwtManager.claimsSegmentOf echoLibs access =
        .ok (newClaims "host" sub ["api"] w.now seconds u x) ∧
      Alone (faultless s).call (handle bareEnv echoLibs (redisClient .compact)
        (.createToken (.text "host") ⟨sub, ["api"], some seconds, false, []⟩)) w
        ⟨200, .token access none⟩
        (({ w with keyId := echoKey.id }.draw u).setDb (issueDb w.db w.now sub u seconds)) := by
  have hi : Issuable bareEnv echoLibs.json ["api"] (some seconds) [] w.now seconds :=
    bare_issuable _ (List.cons_ne_nil _ _) h₁ h₂ hn
  obtain ⟨access, hs⟩ := echo_signed bareEnv (newClaims "host" sub ["api"] w.now seconds u [])
  obtain ⟨x, hc⟩ := signed_claims echo_faithful hi hs
  have hk : Alone (faultless s).call (KeyManager.getPrivateKey echoSsl (JwtManager.algorithm bareEnv))
    w (.ok (echoKey, ())) { w with keyId := echoKey.id } := alone_getPrivateKey echo_privateKey
  exact ⟨access, x, hc, @alone_createToken_of (faultless s).call _ w bareEnv echoLibs (.text "host")
    ⟨sub, ["api"], some seconds, false, []⟩ "host" access u seconds echoKey ()
    { w with keyId := echoKey.id } hw rfl rfl hi hu hk hs⟩

/-- What the instance hands out for a single token. -/
theorem echo_granted {past : List Grant} {host : HostHeader} {req : TokenRequest} {access : String}
    {c : TokenClaims} (hc : JwtManager.claimsSegmentOf echoLibs access = .ok c) :
    granted echoLibs past (.createToken host req) ⟨200, .token access none⟩ = [⟨c, none, none⟩] := by
  simp only [granted, hc, chainOf]

/-- The instance issues a token. -/
theorem echo_issue (hp : p.Reached bareEnv echoLibs s T) (sub : String) {seconds : Nat} {u : String}
    (hu : p.world.Fresh u) (h₁ : 1 ≤ seconds) (h₂ : seconds ≤ 86400)
    (hn : p.world.now / 1000 + seconds ≤ maxSeconds) :
    ∃ x, Past.Reached bareEnv echoLibs s T
      ⟨({ p.world with keyId := echoKey.id }.draw u).setDb
        (issueDb p.world.db p.world.now sub u seconds),
      ⟨newClaims "host" sub ["api"] p.world.now seconds u x, none, none⟩ :: p.grants⟩ := by
  obtain ⟨access, x, hc, hstep⟩ := @echo_createToken s p.world (hp.sound echo_faithful) sub seconds u hu
    h₁ h₂ hn
  have hr := Past.Reached.request hp hstep (show 200 ≠ 500 by decide) (by exact fun _ h => nomatch h)
  rw [echo_granted hc] at hr
  exact ⟨x, hr⟩

/-- The audience of the instance, as it is written down. -/
def apiText : String := String.ofList (Json.arr [.str "api"]).print

theorem apiText_parse : (JsonText.compact.parse apiText).bind Json.asStrs = some ["api"] := by
  rw [apiText, JsonText.compact_parse]
  rfl

/-- The instance issues a pair of a family. -/
theorem echo_issuePair {w : World} (hw : w.Sound) (sub family : String) {ttl : Option Nat}
    {seconds : Nat} {u id : String} (hi : Issuable bareEnv echoLibs.json ["api"] ttl [] w.now seconds)
    (hu : w.Fresh u) (hid : (w.draw u).Fresh id) (hn : w.now / 1000 + 2592000 ≤ maxSeconds) :
    ∃ access x w', JwtManager.claimsSegmentOf echoLibs access =
        .ok (newClaims "host" sub ["api"] w.now seconds u x) ∧
      Alone (faultless s).call (issuePair bareEnv echoLibs "host" sub ["api"] ttl [] family) w
        (.ok (access, id)) w' ∧
      w'.now = w.now ∧ w'.drawn = id :: u :: w.drawn ∧ w'.db = pairDb w.db w.now u seconds id
        ⟨sub, ["api"], family⟩ apiText 2592000 := by
  simp only [maxSeconds] at hn
  obtain ⟨access, hs⟩ := echo_signed bareEnv (newClaims "host" sub ["api"] w.now seconds u [])
  obtain ⟨x, hc⟩ := signed_claims echo_faithful hi hs
  have hk : Alone (faultless s).call (KeyManager.getPrivateKey echoSsl (JwtManager.algorithm bareEnv))
    w (.ok (echoKey, ())) { w with keyId := echoKey.id } := alone_getPrivateKey echo_privateKey
  have hre : Refreshable bareEnv echoLibs.json ["api"] w.now apiText :=
    ⟨rfl, show 0 < 2592000 by decide, by
      have hmax : maxTime = 9223372036854775807 := rfl
      show ((w.now + 1000 * 2592000 : Nat) : Int) ≤ maxTime
      omega⟩
  have hstep := @alone_issuePair (faultless s).call _ w bareEnv echoLibs "host" sub ["api"] ttl []
    family access echo_faithful hw _ id u apiText seconds echoKey () ⟨hi, hu, hid, hk, hs, rfl⟩ hre
  exact ⟨access, x, _, hc, hstep, rfl, rfl, rfl⟩

/-- The instance answers a request for a pair. -/
theorem echo_createPair {w : World} (hw : w.Sound) (sub : String) {seconds : Nat}
    {f u i : String} (hf : w.Fresh f) (hu : (w.draw f).Fresh u) (hid : ((w.draw f).draw u).Fresh i)
    (h₁ : 1 ≤ seconds) (h₂ : seconds ≤ 86400) (hn : w.now / 1000 + 2592000 ≤ maxSeconds) :
    ∃ access x w', JwtManager.claimsSegmentOf echoLibs access =
        .ok (newClaims "host" sub ["api"] w.now seconds u x) ∧
      Alone (faultless s).call (handle bareEnv echoLibs (redisClient .compact)
        (.createToken (.text "host") ⟨sub, ["api"], some seconds, true, []⟩)) w
        ⟨200, .token access (some i)⟩ w' ∧
      w'.now = w.now ∧ w'.drawn = i :: u :: f :: w.drawn ∧
      w'.db = pairDb w.db w.now u seconds i ⟨sub, ["api"], f⟩ apiText 2592000 := by
  have hi : Issuable bareEnv echoLibs.json ["api"] (some seconds) [] (w.draw f).now seconds :=
    bare_issuable _ (List.cons_ne_nil _ _) h₁ h₂ (by
      simp only [maxSeconds] at hn ⊢
      show w.now / 1000 + seconds ≤ _
      omega)
  obtain ⟨access, x, w', hc, hp, hrest⟩ := @echo_issuePair s (w.draw f) (hw.draw f) sub f (some seconds)
    seconds u i hi hu hid hn
  refine ⟨access, x, w', hc, ?_, hrest⟩
  apply alone_createPair rfl rfl hf
  exact hp

/-- The instance issues a pair. -/
theorem echo_pair (hp : p.Reached bareEnv echoLibs s T) (sub : String) {seconds : Nat}
    {f u i : String} (hf : p.world.Fresh f) (hu : (p.world.draw f).Fresh u)
    (hid : ((p.world.draw f).draw u).Fresh i) (h₁ : 1 ≤ seconds) (h₂ : seconds ≤ 86400)
    (hn : p.world.now / 1000 + 2592000 ≤ maxSeconds) :
    ∃ x w', Past.Reached bareEnv echoLibs s T
        ⟨w', ⟨newClaims "host" sub ["api"] p.world.now seconds u x, some i, some i⟩ :: p.grants⟩ ∧
      w'.now = p.world.now ∧ w'.drawn = i :: u :: f :: p.world.drawn ∧
      w'.db = pairDb p.world.db p.world.now u seconds i ⟨sub, ["api"], f⟩ apiText 2592000 := by
  obtain ⟨access, x, w', hc, hstep, hrest⟩ := @echo_createPair s p.world (hp.sound echo_faithful) sub
    seconds f u i hf hu hid h₁ h₂ hn
  have hr := Past.Reached.request hp hstep (show 200 ≠ 500 by decide) (by exact fun _ h => nomatch h)
  have hg : granted echoLibs p.grants (.createToken (.text "host")
      ⟨sub, ["api"], some seconds, true, []⟩) ⟨200, .token access (some i)⟩ =
      [⟨newClaims "host" sub ["api"] p.world.now seconds u x, some i, some i⟩] := by
    simp only [granted, hc, chainOf]
  rw [hg] at hr
  exact ⟨x, w', hr, hrest⟩

/-- What the instance issues in an exchange. -/
theorem bare_exchangeable {now : Nat} (t : JsonText) (hn : now / 1000 + 2592000 ≤ maxSeconds) :
    Issuable bareEnv t ["api"] none [] now 3600 :=
  ⟨rfl, rfl, List.cons_ne_nil _ _, by decide, by simp only [maxSeconds] at hn ⊢; omega⟩

/-- The instance exchanges a refresh token. -/
theorem echo_exchange {w : World} (hw : w.Sound) {token family u id sub : String}
    (hr : w.record .compact token = some ⟨sub, ["api"], family⟩) (hused : w.used token = false)
    (hu : w.Fresh u) (hid : (w.draw u).Fresh id) (hn : w.now / 1000 + 2592000 ≤ maxSeconds) :
    ∃ access x w', JwtManager.claimsSegmentOf echoLibs access =
        .ok (newClaims "host" sub ["api"] w.now 3600 u x) ∧
      Alone (faultless s).call
        (JwtManager.refreshTokenPair bareEnv echoLibs (redisClient .compact) token "host") w
        (.ok (access, id)) w' ∧
      w'.now = w.now ∧ w'.drawn = id :: u :: w.drawn ∧ w'.db = pairDb (w.markUsed token).db w.now u 3600 id
        ⟨sub, ["api"], family⟩ apiText 2592000 := by
  have hr' : w.record echoLibs.json token = some ⟨sub, ["api"], family⟩ := hr
  have hw₁ : (w.markUsed token).Sound := World.Sound.markUsed hw hr'
  obtain ⟨access, x, w', hc, hp, hrest⟩ := @echo_issuePair s (w.markUsed token) hw₁ sub family none 3600
    u id (bare_exchangeable _ hn) hu hid hn
  refine ⟨access, x, w', hc, ?_, hrest⟩
  apply (alone_refreshTokenPair hw _ _).mpr
  rw [hr']
  simp only [hused, Bool.false_eq_true, if_false]
  exact hp

/-- The record of a refresh token, before and after its exchange. -/
theorem echo_record {w : World} {id sub family : String} {t : Option Nat}
    (hg : w.db.get w.now (refreshKey id) =
      some ⟨.hash (recordFields ⟨sub, ["api"], family⟩ apiText), t⟩) :
    w.record .compact id = some ⟨sub, ["api"], family⟩ ∧ w.used id = false := by
  rw [World.record, World.used, Db.fields_of_get hg]
  exact ⟨recordOfFields_of apiText_parse, show decide ("used" ∈ ["sub", "aud", "family"]) = false by decide⟩

theorem echo_usedRecord {w : World} {id sub family : String} {t : Option Nat}
    (hg : w.db.get w.now (refreshKey id) =
      some ⟨.hash (("used", "1") :: recordFields ⟨sub, ["api"], family⟩ apiText), t⟩) :
    w.record .compact id = some ⟨sub, ["api"], family⟩ ∧ w.used id = true := by
  rw [World.record, World.used, Db.fields_of_get hg]
  exact ⟨recordOfFields_of apiText_parse,
    show decide ("used" ∈ ["used", "sub", "aud", "family"]) = true by decide⟩

/-- The instance ends a family. -/
theorem echo_reuse {w : World} (hw : w.Sound) {token : String} {record : RefreshRecord}
    (hr : w.record .compact token = some record) (hu : w.used token = true) :
    Alone (faultless s).call
      (handle bareEnv echoLibs (redisClient .compact) (.refreshToken (.text "host") token)) w
      (Error.unauthorized "Invalid refresh token").errorResponse (w.killFamily record.family) := by
  have hr' : w.record echoLibs.json token = some record := hr
  have hkill : Alone (faultless s).call (JwtManager.refreshTokenPair bareEnv echoLibs
      (redisClient echoLibs.json) token "host") w (.error .notValid) (w.killFamily record.family) := by
    apply (alone_refreshTokenPair hw _ _).mpr
    rw [hr']
    simp only [hu, if_true, and_self]
  refine alone_respond.mpr ⟨.error (.unauthorized "Invalid refresh token"), ?_, rfl⟩
  refine alone_bind.mpr (.inl ⟨"host", w, alone_ofExcept.mpr ⟨rfl, rfl⟩, ?_⟩)
  exact alone_bind.mpr (.inl ⟨_, _, Prog.eval_liftE.mpr ⟨_, hkill, rfl⟩, rfl, rfl⟩)

/-- The first pair of the instance. -/
theorem echo_firstPair (s : JwkService) : ∃ access x w,
    JwtManager.claimsSegmentOf echoLibs access =
        .ok (newClaims "host" "user" ["api"] 0 60 uuidA x) ∧
      Alone (faultless s).call (handle bareEnv echoLibs (redisClient .compact)
        (.createToken (.text "host") ⟨"user", ["api"], some 60, true, []⟩)) World.empty
        ⟨200, .token access (some uuidB)⟩ w ∧
      w.Sound ∧ w.now = 0 ∧ w.drawn = [uuidB, uuidA, uuidC] ∧
      w.db = pairDb World.empty.db 0 uuidA 60 uuidB ⟨"user", ["api"], uuidC⟩ apiText 2592000 ∧
      w.db (refreshKey uuidB) = some ⟨.hash (recordFields ⟨"user", ["api"], uuidC⟩ apiText),
        some (0 + 1000 * 2592000)⟩ := by
  obtain ⟨access, x, w, hc, hissue, hnow, hdrawn, hdb⟩ := @echo_createPair s World.empty sound_empty
    "user" 60 uuidC uuidA uuidB ⟨by decide, nofun⟩ ⟨by decide, show uuidA ∉ [uuidC] by decide⟩
    ⟨by decide, show uuidB ∉ [uuidA, uuidC] by decide⟩ (by decide) (by decide)
    (show 0 / 1000 + 2592000 ≤ maxSeconds by decide)
  have hw : w.Sound :=
    @World.Sound.handle bareEnv echoLibs echo_faithful _ _ _ _ sound_empty _ _ hissue
  refine ⟨access, x, w, hc, hissue, hw, hnow, hdrawn, hdb, ?_⟩
  rw [hdb]
  exact pairDb_refresh

/-- The instance revokes a subject. -/
theorem echo_revokeSubject {w : World} (hw : w.Sound) (sub : String) : Alone (faultless s).call
    (handle bareEnv echoLibs (redisClient .compact) (.revokeSubjectTokens sub)) w
    ⟨200, .revoked (w.db.listed w.now (subjectGroup sub) (timestamp w.now)).length⟩
    (w.setDb (w.db.delAll
      (subjectGroup sub :: w.db.listed w.now (subjectGroup sub) (timestamp w.now)))) :=
  (@alone_revokeSubjectTokens _ _ w _ echoLibs _ hw sub).mpr ⟨rfl, rfl⟩

end Echo

end JwtService

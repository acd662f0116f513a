import JwtService.Proof.Addressed
import JwtService.Proof.Survivors

/-!
# Repeating an exchange that has failed

An exchange marks its refresh token before it issues the new pair, and nothing
takes the mark back. An exchange that fails at the reading of the record, or
at the mark before Redis has executed it, can be repeated; after any other
failure the repetition counts as a reuse and kills the family
(`failed_exchange_repeatable_iff`).
-/

namespace JwtService

open Interaction Redis

/-! ## What issuing a pair writes -/

/-- The command writes indexes only, and keys of credentials whose UUID the calls
have drawn. -/
def WritesNew (h : Calls) (e : Eff) : Prop :=
  ∀ d, e = .redis d → ∀ k ∈ d.writes, IsGroup k ∨ ∃ c : Credential, k = c.key ∧ Drew c.uuid h

section Writes

variable {env : Env} {libs : Libs} {t : JsonText} {issuer subject family : String} {audience : List String}
  {ttl : Option Nat} {extra : List (String × Json)} {α : Type} {h : Calls}

theorem within_writesNew {K : String → Prop} {p : M α} (hp : Within K p)
    (hK : ∀ k, K k → IsGroup k ∨ ∃ c : Credential, k = c.key ∧ Drew c.uuid h) :
    Prog.wp WritesNew h p fun _ _ => True := by
  refine Prog.Only.wp hp (fun cs e _ he d hd k hk => ?_) fun _ _ _ => trivial
  exact (hK k (he d hd k hk)).imp id fun ⟨c, hc, hdrew⟩ => ⟨c, hc, List.mem_append_left _ hdrew⟩

theorem quiet_writesNew {p : M α} (hp : Quiet p) : Prog.wp WritesNew h p fun _ _ => True :=
  within_writesNew (K := IsGroup) hp.within fun _ hk => .inl hk

/-- Adding to an index. -/
theorem within_group {g m : String} {score : Int} {K : String → Prop} (hg : K g) :
    Within K (orStoreError (RedisClient.addToGroup g m score)) :=
  within_orStoreError (Prog.only_tryBind
    (within_run fun _ hk => by cases List.mem_singleton.mp hk; exact hg)
    fun _ => within_run fun _ hk => by cases List.mem_singleton.mp hk; exact hg)

theorem createNew_writesNew : Prog.wp WritesNew h
    (TokenClaims.createNew env t (redisClient t) issuer subject audience ttl extra) fun _ _ => True := by
  simp only [TokenClaims.createNew, Prog.wp_tryBind, Prog.wp_ofExcept]
  cases validateCustomClaims env t extra with
  | error e => trivial
  | ok _ =>
    cases TokenClaims.expirationSeconds env ttl with
    | error e => trivial
    | ok seconds =>
      cases audience with
      | nil => trivial
      | cons first rest =>
        simp only [Prog.wp_tryBind, wp_callE]
        refine ⟨(fun _ hd => by cases hd), fun now => ?_⟩
        cases chronoAdd now (asI64 seconds) with
        | none => exact ⟨(fun _ hd => by cases hd), fun r => r.elim⟩
        | some exp =>
          rw [Prog.wp_tryBind, wp_callE]
          refine ⟨(fun _ hd => by cases hd), fun jti => ?_⟩
          -- What follows the draw writes the key of the token and the index.
          refine within_writesNew (K := fun k => k = jti ∨ IsGroup k) ?_ fun k hk => ?_
          · refine Prog.only_tryBind (within_orStoreError (within_run fun k hk => .inl (List.mem_singleton.mp hk)))
              fun _ => ?_
            refine Prog.only_tryBind (within_group (.inr (isGroup_subject subject))) fun _ => ?_
            refine Prog.only_tryBind (Prog.only_liftE (Prog.Only.mono
              (fun _ he d hd k hk => (he d hd k hk).elim) (reads_isVerify t _ _ _))) fun b => ?_
            cases b <;> trivial
          · rcases hk with rfl | hk
            · exact .inr ⟨.access k, rfl, by simp [Drew, Credential.uuid]⟩
            · exact .inl hk

theorem generateToken_writesNew : Prog.wp WritesNew h
    (JwtManager.generateToken env libs (redisClient libs.json) issuer subject audience ttl extra)
      fun _ _ => True := by
  rw [JwtManager.generateToken, Prog.wp_tryBind, Prog.wp_mapError]
  refine Prog.wp_imp (quiet_writesNew (KeyManager.quiet_getPrivateKey libs.ssl _)) fun h₁ r _ => ?_
  rcases r with e | ⟨jwk, key⟩
  · trivial
  · refine (Prog.wp_tryBind _ _).mpr (Prog.wp_imp createNew_writesNew fun h₂ r _ => ?_)
    cases r <;> trivial

theorem issueRefresh_writesNew : Prog.wp WritesNew h
    (JwtManager.issueRefresh env (redisClient t) subject audience family) fun _ _ => True := by
  rw [JwtManager.issueRefresh, Prog.wp_tryBind, wp_callE]
  refine ⟨(fun _ hd => by cases hd), fun id => ?_⟩
  refine within_writesNew (K := fun k => k = refreshKey id ∨ IsGroup k) ?_ fun k hk => ?_
  · refine Prog.only_tryBind (within_orStoreError ?_) fun _ => ?_
    · show Within _ (RedisClient.storeRefresh t id _ _)
      unfold RedisClient.storeRefresh
      split
      · trivial
      · exact Prog.only_tryBind (within_run fun k hk => .inl (List.mem_singleton.mp hk)) fun _ =>
          within_run fun k hk => .inl (List.mem_singleton.mp hk)
    · refine Prog.only_tryBind (within_callE fun _ hd => by cases hd) fun now => ?_
      exact Prog.only_tryBind (within_group (.inr (isGroup_family family))) fun _ => Prog.only_pure_ok _
  · rcases hk with rfl | hk
    · exact .inr ⟨.refresh id, rfl, by simp [Drew, Credential.uuid]⟩
    · exact .inl hk

theorem issuePair_writesNew : Prog.wp WritesNew h
    (issuePair env libs issuer subject audience ttl extra family) fun _ _ => True := by
  rw [issuePair, Prog.wp_tryBind]
  refine Prog.wp_imp generateToken_writesNew fun h₁ r _ => ?_
  cases r with
  | error e => trivial
  | ok access =>
    refine (Prog.wp_tryBind _ _).mpr ?_
    have hreg : Within IsGroup (JwtManager.registerAccessInFamily libs (redisClient libs.json) access family) :=
      Prog.only_tryBind (Prog.only_ofExcept _) fun _ => within_group (isGroup_family family)
    refine Prog.wp_imp (within_writesNew hreg fun _ hk => .inl hk) fun h₂ r _ => ?_
    cases r with
    | error e => trivial
    | ok _ =>
      refine (Prog.wp_tryBind _ _).mpr (Prog.wp_imp issueRefresh_writesNew fun h₃ r _ => ?_)
      cases r <;> trivial

end Writes

/-! ## What issuing a pair leaves -/

/-- Since `w₀` the calls `h` have left every credential that was known then. -/
structure LeftAlone (w₀ : World) (h : Calls) (w : World) : Prop where
  now : w.now = w₀.now
  db : ∀ c : Credential, w₀.Knows c → w.db c.key = w₀.db c.key
  drawn : ∀ u ∈ w₀.drawn, u ∈ w.drawn
  fresh : ∀ u, Drew u h → w₀.Fresh u

section Left

variable {s : JwkService} {w₀ w w' : World} {h : Calls}

/-- What was drawn stays drawn. -/
theorem call_drawn {e : Eff} {r : e.Reply} (hs : (service s).call w e r w') : ∀ u ∈ w.drawn, u ∈ w'.drawn := by
  intro u hu
  cases hq : e.quiet with
  | true =>
    rw [(call_quiet hq hs).2.1]
    exact hu
  | false =>
    cases e with
    | redis c => rcases call_redis hs with ⟨rfl, -⟩ | ⟨rfl, -⟩ <;> exact hu
    | newUuid =>
      obtain ⟨-, -, rfl⟩ := call_newUuid hs
      exact List.mem_cons_of_mem _ hu
    | _ => cases hq

theorem LeftAlone.refl (w : World) : LeftAlone w [] w :=
  ⟨rfl, fun _ _ => rfl, fun _ hu => hu, fun _ hu => absurd hu List.not_mem_nil⟩

theorem LeftAlone.step (hk : LeftAlone w₀ h w) {e : Eff} {r : e.Reply} (he : WritesNew h e)
    (hs : (service s).call w e r w') : LeftAlone w₀ (h ++ [⟨e, r⟩]) w' := by
  refine ⟨(call_now hs).trans hk.now, fun c hc => ?_, fun u hu => ?_, fun u hu => ?_⟩
  · refine (call_of_not_writes hs fun d hd hw => ?_).trans (hk.db c hc)
    rcases he d hd _ hw with (⟨sub, hg⟩ | ⟨f, hg⟩) | ⟨c', hkey, hdrew⟩
    · exact c.key_ne_subject hc.1 sub hg
    · exact c.key_ne_family hc.1 f hg
    · have hfresh := hk.fresh _ hdrew
      cases Credential.key_inj hc.1 hfresh.1 hkey
      exact hfresh.2 hc.2
  · exact call_drawn hs u (hk.drawn u hu)
  · rcases List.mem_append.mp hu with hu | hu
    · exact hk.fresh u hu
    · cases List.mem_singleton.mp hu
      obtain ⟨h₁, h₂, -⟩ := call_newUuid hs
      exact ⟨h₁, fun h => h₂ (hk.drawn u h)⟩

/-- Issuing a pair leaves the credentials that were there, also where it fails. -/
theorem issuePair_keeps {S : Prog.Sem svc World} (hS : ∀ w e r w', S w e r w' → ∃ s, (service s).call w e r w')
    {env : Env} {libs : Libs} {issuer subject family : String} {audience : List String} {ttl : Option Nat}
    {extra : List (String × Json)} {r : Except JwtError (String × String)}
    (hr : Alone S (issuePair env libs issuer subject audience ttl extra family) w r w') :
    ∃ h, LeftAlone w h w' := by
  obtain ⟨cs, hk, -⟩ := Prog.Eval.inv (I := LeftAlone w)
    (fun _ _ _ _ _ hk he hs => hk.step he (hS _ _ _ _ hs).choose_spec)
    issuePair_writesNew (.refl w) hr
  exact ⟨_, hk⟩

end Left

/-! ## A run with given failures -/

/-- The exchange fails at the reading of its record, or at its mark before
Redis has executed it. -/
def SparesMark : List Choice → Prop
  | .redis (.lost _) :: _ | .redis (.answerLost _) :: _ | _ :: .redis (.lost _) :: _ => True
  | _ => False

section Exec

variable {s : JwkService} {env : Env} {libs : Libs} {token issuer : String} {record : RefreshRecord}
  {w w' : World}

/-- What an exchange does after its mark. -/
def afterMark (env : Env) (libs : Libs) (issuer : String) (record : RefreshRecord) :
    Except Redis.Err Bool → ExceptT JwtError M (String × String)
  | .error _ => throw .storeError
  | .ok false => do
    let _ ← orStoreError ((redisClient libs.json).revokeGroup (familyGroup record.family))
    throw .notValid
  | .ok true => JwtManager.exchange env libs (redisClient libs.json) issuer record

/-- What an exchange does after the reading of its record. -/
def afterRead (env : Env) (libs : Libs) (token issuer : String) :
    Except Redis.Err (List (String × String)) → ExceptT JwtError M (String × String)
  | .error _ => throw .storeError
  | .ok fields =>
    match if fields = [] then none else RedisClient.recordOfFields libs.json fields with
    | none => throw .notValid
    | some record => (Prog.call (.redis (.hsetNx (refreshKey token) "used" "1"))
        (afterMark env libs issuer record) : M (Except JwtError (String × String)))

theorem markRefreshUsed_bind : (do
    match ← orStoreError ((redisClient libs.json).markRefreshUsed token) with
    | false => do
      let _ ← orStoreError ((redisClient libs.json).revokeGroup (familyGroup record.family))
      throw .notValid
    | true => JwtManager.exchange env libs (redisClient libs.json) issuer record :
      ExceptT JwtError M (String × String)) =
    (Prog.call (.redis (.hsetNx (refreshKey token) "used" "1")) (afterMark env libs issuer record) :
      M (Except JwtError (String × String))) := by
  refine congrArg (@Prog.call svc _ (.redis (.hsetNx (refreshKey token) "used" "1"))) (funext fun r => ?_)
  rcases r with e | _ | _ <;> rfl

theorem refreshTokenPair_call : JwtManager.refreshTokenPair env libs (redisClient libs.json) token issuer =
    (Prog.call (.redis (.hgetAll (refreshKey token))) (afterRead env libs token issuer) :
      M (Except JwtError (String × String))) := by
  refine congrArg (@Prog.call svc _ (.redis (.hgetAll (refreshKey token)))) (funext fun r => ?_)
  cases r with
  | error e => rfl
  | ok fields =>
    by_cases hf : fields = []
    · subst hf
      rfl
    · show (Prog.bind (Prog.bind (if fields = [] then pure none else
        pure (RedisClient.recordOfFields libs.json fields) : ExceptT JtiError M (Option RefreshRecord)) _) _ :
          M (Except JwtError (String × String))) = _
      rw [if_neg hf, afterRead, if_neg hf]
      cases RedisClient.recordOfFields libs.json fields with
      | none => rfl
      | some record => exact markRefreshUsed_bind

/-- The outcomes of a command whose fate is chosen. -/
theorem exec_redis {α : Type} {d : Cmd} {k : Except Redis.Err d.Reply → M α} {chs : List Choice} {a : α}
    (h : Prog.exec (World.act s) (Prog.call (.redis d) k : M α) chs w = some (a, w')) :
    ∃ o cs, chs = .redis o :: cs ∧
      match o with
      | .answered => Prog.exec (World.act s) (k (Redis.exec w.now w.db d).1) cs
          (w.setDb (Redis.exec w.now w.db d).2) = some (a, w')
      | .lost e => Prog.exec (World.act s) (k (.error e)) cs w = some (a, w')
      | .answerLost e => Prog.exec (World.act s) (k (.error e)) cs
          (w.setDb (Redis.exec w.now w.db d).2) = some (a, w') := by
  cases chs with
  | nil => cases h
  | cons c cs =>
    obtain ⟨⟨r, w₁⟩, ha, h⟩ := Option.bind_eq_some_iff.mp h
    cases c with
    | redis o =>
      refine ⟨o, cs, rfl, ?_⟩
      cases o with
      | answered =>
        cases ha
        exact h
      | lost e | answerLost e =>
        obtain ⟨-, ha⟩ := Option.ite_none_right_eq_some.mp ha
        cases ha
        exact h
    | _ => cases ha

/-- The record is read, and the mark comes next. -/
theorem exec_reading (hw : w.Sound) (hr : w.record libs.json token = some record) (cs : List Choice) :
    Prog.exec (World.act s) (JwtManager.refreshTokenPair env libs (redisClient libs.json) token issuer)
      (.redis .answered :: cs) w =
    Prog.exec (World.act s) (Prog.call (.redis (.hsetNx (refreshKey token) "used" "1"))
      (afterMark env libs issuer record) : M (Except JwtError (String × String))) cs w := by
  have hne : w.db.fields w.now (refreshKey token) ≠ [] := by
    intro hnil
    rw [World.record, hnil, recordOfFields_nil] at hr
    cases hr
  replace hr : RedisClient.recordOfFields libs.json (w.db.fields w.now (refreshKey token)) = some record := hr
  have hafter : afterRead env libs token issuer (.ok (w.db.fields w.now (refreshKey token))) =
      (Prog.call (.redis (.hsetNx (refreshKey token) "used" "1")) (afterMark env libs issuer record) :
        M (Except JwtError (String × String))) := by
    simp only [afterRead, if_neg hne, hr]
  rw [refreshTokenPair_call, ← hafter]
  show Prog.exec (World.act s) (afterRead env libs token issuer (Redis.exec w.now w.db (.hgetAll _)).1) cs
    (w.setDb (Redis.exec w.now w.db (.hgetAll _)).2) = _
  rw [exec_hgetAll (hw.refresh_isHash token)]
  rfl

/-- The mark of an unused token. -/
theorem exec_marking (hw : w.Sound) (hu : w.used token = false) :
    Redis.exec w.now w.db (.hsetNx (refreshKey token) "used" "1") = (.ok true, (w.markUsed token).db) := by
  have hmark := @exec_hsetNx _ _ _ "used" "1" (hw.refresh_isHash token)
  rwa [if_neg (of_decide_eq_false hu)] at hmark

theorem exec_marked (hw : w.Sound) (hu : w.used token = false) (cs : List Choice) :
    Prog.exec (World.act s) (Prog.call (.redis (.hsetNx (refreshKey token) "used" "1"))
      (afterMark env libs issuer record) : M (Except JwtError (String × String))) (.redis .answered :: cs) w =
    Prog.exec (World.act s) (JwtManager.exchange env libs (redisClient libs.json) issuer record :
      M (Except JwtError (String × String))) cs (w.markUsed token) := by
  show Prog.exec (World.act s) (afterMark env libs issuer record (Redis.exec w.now w.db (.hsetNx _ _ _)).1) cs
    (w.setDb (Redis.exec w.now w.db (.hsetNx _ _ _)).2) = _
  rw [exec_marking hw hu]
  rfl

/-- An exchange of an unused token that fails: it was not marked, or it was
marked and failed later. -/
theorem exec_refreshTokenPair (hw : w.Sound) (hr : w.record libs.json token = some record)
    (hu : w.used token = false) {chs : List Choice} {e : JwtError}
    (h : Prog.exec (World.act s) (JwtManager.refreshTokenPair env libs (redisClient libs.json) token issuer)
      chs w = some (.error e, w')) :
    (SparesMark chs ∧ w' = w) ∨ ¬ SparesMark chs ∧ (w' = w.markUsed token ∨
      Alone (service s).call (JwtManager.exchange env libs (redisClient libs.json) issuer record)
        (w.markUsed token) (.error e) w') := by
  have hcall := h
  rw [refreshTokenPair_call] at hcall
  obtain ⟨o, cs, rfl, hx⟩ := exec_redis hcall
  clear hcall
  cases o with
  | lost e₀ =>
    cases hx
    exact .inl ⟨trivial, rfl⟩
  | answerLost e₀ =>
    rw [exec_hgetAll (hw.refresh_isHash token)] at hx
    cases hx
    exact .inl ⟨trivial, rfl⟩
  | answered =>
    rw [exec_reading hw hr] at h
    obtain ⟨o, cs, rfl, hy⟩ := exec_redis h
    rw [exec_marking hw hu] at hy
    cases o with
    | lost e₀ =>
      cases hy
      exact .inl ⟨trivial, rfl⟩
    | answerLost e₀ =>
      cases hy
      exact .inr ⟨id, .inl rfl⟩
    | answered =>
      exact .inr ⟨id, .inr (Prog.exec_eval (fun _ _ c _ _ hc => ⟨c, hc⟩) hy)⟩

/-- The key service is not reachable. -/
theorem exec_unreachable : Prog.exec (World.act s)
    (JwtManager.exchange env libs (redisClient libs.json) issuer record : M (Except JwtError (String × String)))
      [.plain, .key .unreachable] w = some (.error .keyError, w) := by
  show Prog.exec (World.act s) (Prog.bind (Prog.bind (Prog.bind (Prog.bind (Prog.bind (Prog.bind
    (JwkService.privateKey w.keyId (JwtManager.algorithm env)) _) _) _) _) _) _) [.key .unreachable] w = _
  unfold JwkService.privateKey
  split
  · rfl
  · rfl

end Exec

/-! ## The repetition -/

/-- The key loads, and signs what the service issues without custom claims. -/
def Signs (env : Env) (libs : Libs) (jwk : JwkData) : Prop :=
  ∃ key, KeyManager.privateKeyOf libs.ssl jwk = .ok key ∧
    ∀ c : TokenClaims, c.extra = [] → ∃ access, signed env libs jwk key c = .ok access

/-- The key service answers, with keys that sign; a key that is asked for by its id
may be unknown to it. -/
structure Working (S : Prog.Sem svc World) (env : Env) (libs : Libs) : Prop where
  getKey : ∀ w id r w', S w (.getKey id) r w' → (∃ body, r = .response 404 body) ∨
    ∃ status jwk, r = .response status (some jwk) ∧ 200 ≤ status ∧ status < 300 ∧ Signs env libs jwk
  createKey : ∀ w alg r w', S w (.createKey alg) r w' →
    ∃ status jwk, r = .response status (some jwk) ∧ Signs env libs jwk
  answers : ∀ w e, (∃ id, e = .getKey id) ∨ (∃ alg, e = .createKey alg) → ∃ r w', S w e r w'

/-- A pair can be issued for the record at this moment: the configured lifetimes
are ones that the clock and Redis take, and the audience can be written down. -/
def Reissuable (env : Env) (t : JsonText) (record : RefreshRecord) (now : Nat) : Prop :=
  ∃ seconds text, Issuable env t record.audience none [] now seconds ∧
    Refreshable env t record.audience now text

section Working

variable {S : Prog.Sem svc World} [Orderly S] {env : Env} {libs : Libs} {w w' : World}

omit [Orderly S] in
theorem Working.getKey_ok (hs : Working S env libs) {id : String} {r : Except JwkError JwkData}
    (h : Alone S (JwkService.getKey id) w r w') :
    r = .error .notFound ∨ ∃ jwk, r = .ok jwk ∧ Signs env libs jwk := by
  obtain ⟨x, w₁, hx, h⟩ := h
  rcases hs.getKey _ _ _ _ hx with ⟨body, rfl⟩ | ⟨status, jwk, rfl, h₁, h₂, hsig⟩
  · exact .inl h.1
  · replace h : Alone S (if status = 404 then pure (.error .notFound)
      else if ¬ (200 ≤ status ∧ status < 300) then pure (.error .badResponse) else pure (.ok jwk) :
        M (Except JwkError JwkData)) w₁ r w' := h
    rw [if_neg (by omega), if_neg (by omega)] at h
    exact .inr ⟨jwk, h.1, hsig⟩

omit [Orderly S] in
theorem Working.createKey_ok (hs : Working S env libs) {alg : String} {r : Except JwkError JwkData}
    (h : Alone S (JwkService.createKey alg) w r w') : ∃ jwk, r = .ok jwk ∧ Signs env libs jwk := by
  obtain ⟨x, w₁, hx, h⟩ := h
  obtain ⟨status, jwk, rfl, hsig⟩ := hs.createKey _ _ _ _ hx
  exact ⟨jwk, h.1, hsig⟩

omit [Orderly S] in
theorem Working.privateKey_ok (hs : Working S env libs) {id alg : String} {r : Except JwkError JwkData}
    (h : Alone S (JwkService.privateKey id alg) w r w') : ∃ jwk, r = .ok jwk ∧ Signs env libs jwk := by
  unfold JwkService.privateKey at h
  split at h
  · exact hs.createKey_ok h
  · obtain ⟨x, w₁, hx, h⟩ := Prog.eval_bind.mp h
    rcases hs.getKey_ok hx with rfl | ⟨jwk, rfl, hsig⟩
    · exact hs.createKey_ok h
    · exact ⟨jwk, h.1, hsig⟩

omit [Orderly S] in
/-- There is a key to sign with. -/
theorem Working.getPrivateKey_ok (hs : Working S env libs) {alg : String}
    {r : Except KeyError (JwkData × libs.ssl.PrivateKey)}
    (h : Alone S (KeyManager.getPrivateKey libs.ssl alg) w r w') : ∃ jwk key, r = .ok (jwk, key) ∧
      ∀ c : TokenClaims, c.extra = [] → ∃ access, signed env libs jwk key c = .ok access := by
  have hdata : ∀ {x w₁}, Alone S (KeyManager.getJwkData alg) w x w₁ → ∃ jwk, x = .ok jwk ∧ Signs env libs jwk := by
    intro x w₁ h
    obtain ⟨id, w₂, -, h⟩ := alone_callE_bind.mp h
    rcases alone_bind.mp h with ⟨jwk, w₃, hk, h⟩ | ⟨e, hk, -⟩
    · obtain ⟨y, hy, he⟩ := Prog.eval_mapError.mp hk
      obtain ⟨jwk', rfl, hsig⟩ := hs.privateKey_ok hy
      cases he
      obtain ⟨_, w₄, -, h⟩ := alone_callE_bind.mp h
      exact ⟨_, h.1, hsig⟩
    · obtain ⟨y, hy, he⟩ := Prog.eval_mapError.mp hk
      obtain ⟨jwk', rfl, -⟩ := hs.privateKey_ok hy
      cases he
  rcases alone_bind.mp h with ⟨jwk, w₁, hj, h⟩ | ⟨e, hj, -⟩
  · obtain ⟨jwk', he, key, hload, hsig⟩ := hdata hj
    cases he
    rcases alone_bind.mp h with ⟨key', w₂, hk, h⟩ | ⟨e, hk, -⟩
    · obtain ⟨he, -⟩ := alone_ofExcept.mp hk
      rw [hload] at he
      cases he
      exact ⟨_, _, h.1, hsig⟩
    · obtain ⟨he, -⟩ := alone_ofExcept.mp hk
      rw [hload] at he
      cases he
  · obtain ⟨jwk', he, -⟩ := hdata hj
    cases he

/-- Issuing a token that can be issued, with a key service that works. -/
theorem Working.generateToken_ok (hs : Working S env libs) {issuer subject : String}
    {audience : List String} {seconds : Nat} (hg : w.db.IsSet w.now (subjectGroup subject))
    (hi : Issuable env libs.json audience none [] w.now seconds) {r : Except JwtError String}
    (h : Alone S (JwtManager.generateToken env libs (redisClient libs.json) issuer subject audience none [])
      w r w') : ∃ u jwk key w₁ access, r = .ok access ∧ w.Fresh u ∧ SameStore w w₁ ∧
        signed env libs jwk key (newClaims issuer subject audience w.now seconds u []) = .ok access ∧
        w' = (w₁.draw u).setDb (issueDb w.db w.now subject u seconds) := by
  rcases alone_bind.mp h with ⟨⟨jwk, key⟩, w₁, hk, h⟩ | ⟨e, hk, -⟩
  swap
  · obtain ⟨x, hx, he⟩ := Prog.eval_mapError.mp hk
    obtain ⟨jwk, key, rfl, -⟩ := hs.getPrivateKey_ok hx
    cases he
  obtain ⟨x, hx, he⟩ := Prog.eval_mapError.mp hk
  obtain ⟨jwk', key', rfl, hsig⟩ := hs.getPrivateKey_ok hx
  cases he
  have hsame := alone_quiet (KeyManager.quiet_getPrivateKey libs.ssl _) hx
  rw [← hsame.now] at hi
  have hnew := @alone_createNew S _ w₁ env libs.json issuer subject audience none [] seconds hi
    (by rw [hsame.db, hsame.now]; exact hg)
  rcases alone_bind.mp h with ⟨c, w₂, hc, h⟩ | ⟨e, hc, -⟩
  · obtain ⟨u, hu, he, rfl⟩ := (hnew _ _).mp hc
    cases he
    obtain ⟨rfl, rfl⟩ := alone_ofExcept.mp h
    obtain ⟨access, ha⟩ := hsig (newClaims issuer subject audience w₁.now seconds u []) rfl
    have hfresh : w.Fresh u := by rwa [World.Fresh, hsame.drawn] at hu
    rw [hsame.now] at ha ⊢
    rw [hsame.db]
    exact ⟨u, jwk, key, w₁, access, ha, hfresh, hsame, ha, rfl⟩
  · obtain ⟨u, -, he, -⟩ := (hnew _ _).mp hc
    cases he

/-- Issuing a pair that can be issued, with a key service that works. -/
theorem Working.issuePair_ok (hs : Working S env libs) (ht : libs.json.Faithful) (hw : w.Sound)
    {issuer : String} {record : RefreshRecord} (hre : Reissuable env libs.json record w.now)
    {r : Except JwtError (String × String)} (h : Alone S (issuePair env libs issuer record.subject
      record.audience none [] record.family) w r w') : ∃ pair, r = .ok pair := by
  obtain ⟨seconds, text, hi, hr⟩ := hre
  have hset := hw.subject_isSet record.subject
  rcases alone_bind.mp h with ⟨access, w₁, ha, h⟩ | ⟨e, ha, -⟩
  swap
  · obtain ⟨u, jwk, key, w₂, access, he, -⟩ := hs.generateToken_ok hset hi ha
    cases he
  obtain ⟨u, jwk, key, w₂, access, he, hu, hsame, hsig, rfl⟩ := hs.generateToken_ok hset hi ha
  cases he
  obtain ⟨x, hc⟩ := signed_claims ht hi hsig
  have hreg := @registered_of w record.subject record.family u seconds w₂ hw hsame hu hi.positive
  rw [alone_register_bind hw hsame hu hc rfl rfl hi.positive hi.bounded] at h
  have href := @alone_issueRefresh S _ _ env libs.json record.subject record.family text record.audience
    (by rw [hreg.now]; exact hr) hreg.isSet hreg.absent
  rcases alone_bind.mp h with ⟨id, w₃, hid, h⟩ | ⟨e, hid, -⟩
  · exact ⟨_, h.1⟩
  · obtain ⟨id, -, he, -⟩ := (href _ _).mp hid
    cases he

theorem only_getPrivateKey {E : Eff → Prop} {ssl : OpenSsl} {alg : String} (hread : E .readKeyId)
    (hwrite : ∀ id, E (.writeKeyId id)) (hget : ∀ id, E (.getKey id)) (hcreate : ∀ alg, E (.createKey alg)) :
    @Prog.Only svc _ E (KeyManager.getPrivateKey ssl alg) := by
  have hnew : @Prog.Only svc _ E (JwkService.createKey alg) :=
    ⟨hcreate _, fun r => by rcases r with _ | ⟨_, _ | _⟩ <;> trivial⟩
  refine Prog.only_tryBind (Prog.only_tryBind (only_callE hread) fun id => ?_) fun jwk =>
    Prog.only_tryBind (Prog.only_ofExcept _) fun _ => trivial
  refine Prog.only_tryBind (Prog.only_mapError ?_) fun jwk =>
    Prog.only_tryBind (only_callE (hwrite _)) fun _ => trivial
  show Prog.Only _ (ite _ _ _)
  split
  · exact hnew
  · refine Prog.only_bind ⟨hget _, fun r => ?_⟩ fun r => ?_
    · rcases r with _ | ⟨status, body⟩
      · trivial
      · show Prog.Only _ (ite _ _ _)
        split
        · trivial
        · split
          · trivial
          · cases body <;> trivial
    · rcases r with (_ | _ | _) | key
      · trivial
      · trivial
      · exact hnew
      · trivial

omit [Orderly S] in
/-- Where every call of a program is answered, it returns. -/
theorem only_total {α : Type} {p : M α} (hp : @Prog.Only svc α (fun e => ∀ w, ∃ r w', S w e r w') p) (w : World) :
    ∃ a w', Alone S p w a w' := by
  induction p generalizing w with
  | ret a => exact ⟨a, w, rfl, rfl⟩
  | call e k ih =>
    obtain ⟨r, w₁, hr⟩ := hp.1 w
    obtain ⟨a, w', h⟩ := ih r (hp.2 r) w₁
    exact ⟨a, w', r, w₁, hr, h⟩

/-- A pair that can be issued is issued. -/
theorem Working.issues (hs : Working S env libs) (ht : libs.json.Faithful) (hw : w.Sound)
    (issuer : String) {record : RefreshRecord} (hre : Reissuable env libs.json record w.now)
    {u id : String} (hu : w.Fresh u) (hid : (w.draw u).Fresh id) : ∃ pair w', Alone S (issuePair env libs issuer
      record.subject record.audience none [] record.family) w (.ok pair) w' := by
  obtain ⟨seconds, text, hi, hr⟩ := hre
  have honly : @Prog.Only svc _ (fun e => ∀ w, ∃ r w', S w e r w')
      (KeyManager.getPrivateKey libs.ssl (JwtManager.algorithm env)) := by
    apply only_getPrivateKey
    · exact fun w => ⟨_, _, Orderly.readKeyId.mpr ⟨rfl, rfl⟩⟩
    · exact fun id w => ⟨(), _, Orderly.writeKeyId.mpr rfl⟩
    · exact fun id w => hs.answers w _ (.inl ⟨id, rfl⟩)
    · exact fun alg w => hs.answers w _ (.inr ⟨alg, rfl⟩)
  obtain ⟨x, w₁, hx⟩ := only_total honly w
  obtain ⟨jwk, key, rfl, hsig⟩ := hs.getPrivateKey_ok hx
  obtain ⟨access, ha⟩ := hsig (newClaims issuer record.subject record.audience w.now seconds u []) rfl
  exact ⟨_, _, alone_issuePair ht hw ⟨hi, hu, hid, hx, ha, hr.print⟩ hr⟩

end Working

/-- The refresh token can be exchanged when the dependencies work again, as long as its
record has not expired: an exchange is not refused and takes no credential but
its own, and where the key service works it is answered with a pair. -/
structure Repeatable (env : Env) (libs : Libs) (token : String) (record : RefreshRecord) (w : World) : Prop where
  accepted : ∀ (S : Prog.Sem svc World) [Orderly S] (issuer : String) (d : Nat)
    (r : Except JwtError (String × String)) (w' : World), (w.tick d).record libs.json token = some record →
      Alone S (JwtManager.refreshTokenPair env libs (redisClient libs.json) token issuer) (w.tick d) r w' →
        r ≠ .error .notValid ∧
          ∀ c : Credential, w.Knows c → c ≠ .refresh token → w'.db c.key = w.db c.key
  succeeds : ∀ (S : Prog.Sem svc World) [Orderly S], Working S env libs → ∀ (issuer : String) (d : Nat),
    (w.tick d).record libs.json token = some record → Reissuable env libs.json record (w.tick d).now →
      (∀ r w', Alone S (JwtManager.refreshTokenPair env libs (redisClient libs.json) token issuer)
        (w.tick d) r w' → ∃ pair, r = .ok pair) ∧
      ∀ u id, w.Fresh u → (w.draw u).Fresh id → ∃ pair w', Alone S
        (JwtManager.refreshTokenPair env libs (redisClient libs.json) token issuer) (w.tick d) (.ok pair) w'

section Repeatable

variable {s : JwkService} {env : Env} {libs : Libs} {token issuer : String} {record : RefreshRecord}
  {w w' : World}

/-- A mark is not part of the record. -/
theorem recordOfFields_used (t : JsonText) (fs : List (String × String)) :
    RedisClient.recordOfFields t (("used", "1") :: fs) = RedisClient.recordOfFields t fs := rfl

theorem get_of_record (hr : w.record libs.json token = some record) :
    ∃ e, w.db.get w.now (refreshKey token) = some e := by
  cases hg : w.db.get w.now (refreshKey token) with
  | none =>
    rw [World.record, Db.fields_of_none hg, recordOfFields_nil] at hr
    cases hr
  | some e => exact ⟨e, rfl⟩

/-- A mark keeps the record. -/
theorem record_markUsed (hr : w.record libs.json token = some record) :
    (w.markUsed token).record libs.json token = some record ∧ (w.markUsed token).used token = true := by
  obtain ⟨e, hg⟩ := get_of_record hr
  have hfields : (w.markUsed token).db.fields (w.markUsed token).now (refreshKey token) =
      ("used", "1") :: w.db.fields w.now (refreshKey token) :=
    Db.fields_of_get (Db.get_mark (Nat.le_refl _) hg)
  rw [World.record, World.used, hfields, recordOfFields_used]
  exact ⟨hr, decide_eq_true List.mem_cons_self⟩

/-- A record that is still there is marked or not as before. -/
theorem used_of_later {d : Nat} (hr : (w.tick d).record libs.json token = some record) :
    (w.tick d).used token = w.used token := by
  obtain ⟨e, hg⟩ := get_of_record hr
  replace hg : w.db.get (w.now + d) (refreshKey token) = some e := hg
  have hsame : w.db.fields (w.now + d) (refreshKey token) = w.db.fields w.now (refreshKey token) := by
    rw [Db.fields, Db.fields, hg, Db.get_of_later (Nat.le_add_right _ _) hg]
  exact congrArg (fun fs : List (String × String) => decide ("used" ∈ fs.map Prod.fst)) hsame

/-- The record is that of a token whose id was drawn. -/
theorem knows_of_record (hw : w.Sound) (hr : w.record libs.json token = some record) :
    w.Knows (.refresh token) := by
  obtain ⟨e, hg⟩ := get_of_record hr
  exact (Db.Shape.get hw hg).refresh_inv.choose_spec.2

theorem markUsed_ne {c : Credential} (hk : w.Knows (.refresh token)) (hc : w.Knows c)
    (hne : c ≠ .refresh token) : (w.markUsed token).db c.key = w.db c.key :=
  Db.mark_ne fun h => hne (Credential.key_inj hc.1 hk.1 h)

theorem repeatable_of_unused (ht : libs.json.Faithful) (hw : w.Sound) (hu : w.used token = false) :
    Repeatable env libs token record w where
  accepted S _ issuer d r w' hr h := by
    have hwd : (w.tick d).Sound := hw
    have hrun := (alone_refreshTokenPair hwd r w').mp h
    rw [hr] at hrun
    simp only [used_of_later hr, hu, Bool.false_eq_true, if_false] at hrun
    replace hrun : Alone S (issuePair env libs issuer record.subject record.audience none [] record.family)
      ((w.tick d).markUsed token) r w' := hrun
    have hm : ((w.tick d).markUsed token).Sound := hwd.markUsed hr
    constructor
    · rcases alone_issuePair_inv (hm.subject_isSet _) hrun with ⟨e, _, rfl, hne, -⟩ |
        ⟨_, _, _, _, _, -, -, -, -, -, ⟨e, rfl, hne, -⟩ | ⟨_, _, rfl, -⟩⟩
      · exact fun h => hne (Except.error.inj h)
      · exact fun h => hne (Except.error.inj h)
      · exact nofun
    · intro c hc hne
      obtain ⟨_, hk⟩ := issuePair_keeps (fun _ _ _ _ h => Orderly.service h) hrun
      exact (hk.db c hc).trans (markUsed_ne (knows_of_record hwd hr) hc hne)
  succeeds S _ hs issuer d hr hre := by
    have hwd : (w.tick d).Sound := hw
    have hm : ((w.tick d).markUsed token).Sound := hwd.markUsed hr
    have hrun : ∀ r w', Alone S (JwtManager.refreshTokenPair env libs (redisClient libs.json) token issuer)
        (w.tick d) r w' ↔ Alone S (issuePair env libs issuer record.subject record.audience none []
          record.family) ((w.tick d).markUsed token) r w' := by
      intro r w'
      rw [alone_refreshTokenPair hwd, hr]
      simp only [used_of_later hr, hu, Bool.false_eq_true, if_false]
      exact Iff.rfl
    constructor
    · exact fun r w' h => hs.issuePair_ok ht hm hre ((hrun r w').mp h)
    · intro u id hfu hfid
      obtain ⟨pair, w', h⟩ := hs.issues ht hm issuer hre hfu hfid
      exact ⟨pair, w', (hrun _ _).mpr h⟩

theorem not_repeatable_of_used (hw : w.Sound) (hr : w.record libs.json token = some record)
    (hu : w.used token = true) : ¬ Repeatable env libs token record w := by
  intro h
  let s : JwkService := ⟨0, 0, 0⟩
  have hkill : Alone (faultless s).call (JwtManager.refreshTokenPair env libs (redisClient libs.json) token "")
      w (.error .notValid) (w.killFamily record.family) := by
    refine (alone_refreshTokenPair hw _ _).mpr ?_
    rw [hr]
    simp only [hu, if_true]
    exact ⟨trivial, trivial⟩
  exact (h.accepted (faultless s).call "" 0 _ _ hr hkill).1 rfl

variable {ι : Type} [DecidableEq ι] {adm : ι → Admission} {rq : ι → Request}

/-- In every state that the service reaches: an exchange of an unused refresh
token that fails can be repeated exactly when its failures spare the mark. -/
theorem failed_exchange_repeatable_iff (ht : libs.json.Faithful) {tr : Events ι}
    {P : Pool svc World ι HttpResponse} (hr : (service s).Run (start env libs adm rq) tr P)
    (hrec : P.st.record libs.json token = some record) (hu : P.st.used token = false) {chs : List Choice}
    {e : JwtError} (h : Prog.exec (World.act s)
      (JwtManager.refreshTokenPair env libs (redisClient libs.json) token issuer) chs P.st =
        some (.error e, w')) :
    Repeatable env libs token record w' ↔ SparesMark chs := by
  have hw : P.st.Sound := (answered_run ht hr).1.sound
  rcases exec_refreshTokenPair hw hrec hu h with ⟨hs, rfl⟩ | ⟨hs, hmarked⟩
  · exact ⟨fun _ => hs, fun _ => repeatable_of_unused ht hw hu⟩
  · -- The mark is set, and what comes after it leaves it.
    refine ⟨fun hrep => ?_, fun h => absurd h hs⟩
    obtain ⟨hrec', hused⟩ := record_markUsed hrec
    have hm : (P.st.markUsed token).Sound := hw.markUsed hrec
    rcases hmarked with rfl | hrun
    · exact absurd hrep (not_repeatable_of_used hm hrec' hused)
    · have hservice : ∀ w e r w', (service s).call w e r w' → ∃ s, (service s).call w e r w' :=
        fun _ _ _ _ h => ⟨s, h⟩
      replace hrun : Alone (service s).call (issuePair env libs issuer record.subject record.audience none []
        record.family) (P.st.markUsed token) (.error e) w' := hrun
      have hissue := @issuePair_ok env libs ht [] (by exact nofun) (by exact nofun) issuer record.subject
        record.audience none [] record.family
      have hw' : w'.Sound := (hm.eval hservice hissue hrun).1
      obtain ⟨_, hk⟩ := issuePair_keeps hservice hrun
      have hfields : w'.db.fields w'.now (refreshKey token) =
          (P.st.markUsed token).db.fields (P.st.markUsed token).now (refreshKey token) := by
        have hget : w'.db.get (P.st.markUsed token).now (refreshKey token) =
            (P.st.markUsed token).db.get (P.st.markUsed token).now (refreshKey token) :=
          Db.get_congr (hk.db (.refresh token) (knows_of_record hm hrec'))
        rw [Db.fields, Db.fields, hk.now, hget]
      have hrec₁ : w'.record libs.json token = some record := by
        rw [World.record, hfields]
        exact hrec'
      have hused₁ : w'.used token = true := by
        rw [World.used, hfields]
        exact hused
      exact absurd hrep (not_repeatable_of_used hw' hrec₁ hused₁)

/-- The key service answers with this key. -/
def answering (s : JwkService) (jwk : JwkData) : Prog.Sem svc World := fun w e r w' =>
  (faultless s).call w e r w' ∧ match e, r with
    | .getKey _, r => r = .response 200 (some jwk)
    | .createKey _, r => r = .response 201 (some jwk)
    | _, _ => True

instance (s : JwkService) (jwk : JwkData) : Orderly (answering s jwk) where
  service h := Orderly.service h.1
  redis := (and_iff_left trivial).trans Orderly.redis
  utcNow := (and_iff_left trivial).trans Orderly.utcNow
  newUuid := (and_iff_left trivial).trans Orderly.newUuid
  metric := (and_iff_left trivial).trans Orderly.metric
  readKeyId := (and_iff_left trivial).trans Orderly.readKeyId
  writeKeyId := (and_iff_left trivial).trans Orderly.writeKeyId

theorem echo_working (s : JwkService) : Working (answering s echoKey) bareEnv echoLibs where
  getKey w id r w' h := .inr ⟨200, echoKey, h.2, by decide, by decide, (), echo_privateKey,
    fun c _ => echo_signed bareEnv c⟩
  createKey w alg r w' h := ⟨201, echoKey, h.2, (), echo_privateKey, fun c _ => echo_signed bareEnv c⟩
  answers w e he := by
    rcases he with ⟨id, rfl⟩ | ⟨alg, rfl⟩
    · exact ⟨_, w, ⟨.key _, rfl, rfl⟩, rfl⟩
    · exact ⟨_, w, ⟨.key _, rfl, rfl⟩, rfl⟩

/-- A pair for a user, by the only request. -/
def issuePairForUser : Unit → Request := fun _ => .createToken (.text "host") ⟨"user", ["api"], some 60, true, []⟩

/-- After the issue the refresh token is there, and unused. -/
theorem echo_issuePairForUser : ∃ (tr : Events Unit) (P : Pool svc World Unit HttpResponse),
    (service ⟨300000, 10000, 10000⟩).Run (start bareEnv echoLibs (fun _ => admitted) issuePairForUser) tr P ∧
      P.st.Sound ∧ P.st.now = 0 ∧ P.st.drawn = [uuidB, uuidA, uuidC] ∧
      P.st.db = pairDb World.empty.db 0 uuidA 60 uuidB ⟨"user", ["api"], uuidC⟩ apiText 2592000 ∧
      P.st.record .compact uuidB = some ⟨"user", ["api"], uuidC⟩ ∧ P.st.used uuidB = false := by
  obtain ⟨access, x, w, -, hissue, hs, hnow, hdrawn, hdb, hentry⟩ := echo_firstPair ⟨300000, 10000, 10000⟩
  obtain ⟨tr, hr, -⟩ := System.Run.of_eval (S := service ⟨300000, 10000, 10000⟩) (i := ())
    (P := start bareEnv echoLibs (fun _ => admitted) issuePairForUser) (Prog.Eval.mono faultless_service hissue)
  have hget : w.db.get w.now (refreshKey uuidB) =
      some ⟨.hash (recordFields ⟨"user", ["api"], uuidC⟩ apiText), some (0 + 1000 * 2592000)⟩ :=
    Db.get_eq_some.mpr ⟨hentry, by rw [hnow]; rfl⟩
  obtain ⟨hrec, hused⟩ := echo_record hget
  exact ⟨tr, _, hr, hs, hnow, hdrawn, hdb, hrec, hused⟩

/-- The mark is lost: the exchange is answered with an error, and its
repetition with a pair. -/
theorem failed_exchange_repeatable_lost : ∃ (tr : Events Unit) (P : Pool svc World Unit HttpResponse),
    (service ⟨300000, 10000, 10000⟩).Run (start bareEnv echoLibs (fun _ => admitted) issuePairForUser) tr P ∧
      Prog.exec (World.act ⟨300000, 10000, 10000⟩)
        (JwtManager.refreshTokenPair bareEnv echoLibs (redisClient .compact) uuidB "host")
        [.redis .answered, .redis (.lost .timeout)] P.st = some (.error .storeError, P.st) ∧
      ∃ pair w', Alone (answering ⟨300000, 10000, 10000⟩ echoKey)
        (JwtManager.refreshTokenPair bareEnv echoLibs (redisClient .compact) uuidB "host") P.st (.ok pair) w' := by
  obtain ⟨tr, P, hr, hs, hnow, hdrawn, -, hrec, hused⟩ := echo_issuePairForUser
  have hexec : Prog.exec (World.act ⟨300000, 10000, 10000⟩)
      (JwtManager.refreshTokenPair bareEnv echoLibs (redisClient .compact) uuidB "host")
      [.redis .answered, .redis (.lost .timeout)] P.st = some (.error .storeError, P.st) := by
    exact (@exec_reading _ bareEnv echoLibs _ _ _ _ hs hrec _).trans rfl
  have hre : Reissuable bareEnv .compact ⟨"user", ["api"], uuidC⟩ P.st.now :=
    ⟨3600, apiText, bare_exchangeable _ (by rw [hnow]; decide), rfl, by decide, by rw [hnow]; decide⟩
  have hrep := (failed_exchange_repeatable_iff echo_faithful hr hrec hused hexec).mpr trivial
  refine ⟨tr, P, hr, hexec, (hrep.succeeds (answering _ echoKey) (echo_working _) "host" 0 hrec hre).2 uuidD uuidE
    ⟨by decide, ?_⟩ ⟨by decide, ?_⟩⟩
  · rw [hdrawn]
    decide
  · rw [World.draw_drawn, hdrawn]
    decide

/-- The key service is not reachable: the exchange is answered with an error, and
its repetition is refused and ends the family. -/
theorem failed_exchange_kills_family : ∃ (tr : Events Unit) (P : Pool svc World Unit HttpResponse) (w₁ w₂ : World),
    (service ⟨300000, 10000, 10000⟩).Run (start bareEnv echoLibs (fun _ => admitted) issuePairForUser) tr P ∧
      P.st.record .compact uuidB = some ⟨"user", ["api"], uuidC⟩ ∧ P.st.used uuidB = false ∧
      Prog.exec (World.act ⟨300000, 10000, 10000⟩)
        (JwtManager.refreshTokenPair bareEnv echoLibs (redisClient .compact) uuidB "host")
        [.redis .answered, .redis .answered, .plain, .key .unreachable] P.st = some (.error .keyError, w₁) ∧
      (w₁.db.get w₁.now uuidA).isSome = true ∧
      Alone (answering ⟨300000, 10000, 10000⟩ echoKey)
        (JwtManager.refreshTokenPair bareEnv echoLibs (redisClient .compact) uuidB "host") w₁ (.error .notValid) w₂ ∧
      w₂.db.get w₂.now uuidA = none := by
  obtain ⟨tr, P, hr, hs, hnow, hdrawn, hdb, hrec, hused⟩ := echo_issuePairForUser
  have hrec' : P.st.record echoLibs.json uuidB = some ⟨"user", ["api"], uuidC⟩ := hrec
  have hs₁ : (P.st.markUsed uuidB).Sound := hs.markUsed hrec'
  obtain ⟨hrec₁, hused₁⟩ := record_markUsed hrec'
  have hnow₁ : (P.st.markUsed uuidB).now = 0 := hnow
  have hdb₁ : (P.st.markUsed uuidB).db =
      (pairDb World.empty.db 0 uuidA 60 uuidB ⟨"user", ["api"], uuidC⟩ apiText 2592000).mark 0
        (refreshKey uuidB) "used" "1" := by
    rw [World.markUsed, World.setDb_db, hdb, hnow]
  have hlisted : uuidA ∈ (P.st.markUsed uuidB).db.listed (P.st.markUsed uuidB).now (familyGroup uuidC)
      (timestamp (P.st.markUsed uuidB).now) := by
    rw [hdb₁, hnow₁]
    decide
  refine ⟨tr, P, P.st.markUsed uuidB, (P.st.markUsed uuidB).killFamily uuidC, hr, hrec, hused, ?_, ?_, ?_, ?_⟩
  · exact (@exec_reading _ bareEnv echoLibs _ _ _ _ hs hrec _).trans
      ((exec_marked hs hused _).trans exec_unreachable)
  · rw [hdb₁, hnow₁]
    decide
  · refine (@alone_refreshTokenPair _ _ _ bareEnv echoLibs _ _ hs₁ _ _).mpr ?_
    rw [hrec₁]
    simp only [hused₁, if_true]
    exact ⟨trivial, trivial⟩
  · rw [World.killFamily, World.setDb_db, Db.get_delAll, if_pos (List.mem_cons_of_mem _ hlisted)]

end Repeatable

end JwtService

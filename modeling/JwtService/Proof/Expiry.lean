import JwtService.Proof.FailOpen

/-!
# Every key expires

A group and the record of a refresh token are created without an expiry, which
a second command of the same request sets. In between the request `owes` the
key its expiry, and makes no other call (`serve_pays`). While no command fails
and no mark is set on a record that is gone, a key without an expiry is owed
one by some request (`Pending`), so none is left once no request is in flight
(`keys_expire`). A mark on a record that is gone makes a key that nobody owes
anything.
-/

namespace JwtService

open Interaction Redis

/-! ## What a request owes -/

/-- The key a call leaves without an expiry. -/
def owed : Call svc → Option String
  | ⟨.redis (.zadd k _ _), .ok _⟩ => some k
  | ⟨.redis (.hset k _), .ok _⟩ => some k
  | _ => none

/-- The key a request has to set the expiry of, after the calls `h`. -/
def owes (h : Calls) : Option String := h.getLast?.bind owed

/-- A request that owes a key its expiry sets it. -/
def Pays (h : Calls) (e : Eff) : Prop := ∀ k, owes h = some k →
  (∃ secs, e = .redis (.expire k secs)) ∨ ∃ ts, e = .redis (.expireAt k ts)

/-- The request owes nothing. -/
abbrev Settled (h : Calls) : Prop := owes h = none

@[simp] theorem owes_snoc (h : Calls) (c : Call svc) : owes (h ++ [c]) = owed c := by
  rw [owes, List.getLast?_append]
  rfl

theorem Settled.pays {h : Calls} (hs : Settled h) (e : Eff) : Pays h e := fun k hk => by
  rw [hs] at hk
  cases hk

/-- A call that opens no key. -/
def Eff.Closed (e : Eff) : Prop := ∀ r, owed ⟨e, r⟩ = none

theorem closed_quiet {e : Eff} (he : e.quiet = true) : e.Closed := by
  cases e with
  | redis c => cases he
  | _ => exact fun _ => rfl

theorem closed_of_opens {c : Cmd} (hc : ∀ k, c.opens = some k → ∃ f v, c = .hsetNx k f v) :
    (Eff.redis c).Closed := by
  intro r
  cases c with
  | zadd k m score => obtain ⟨f, v, h⟩ := hc k rfl; cases h
  | hset k fs => obtain ⟨f, v, h⟩ := hc k rfl; cases h
  | _ => rfl

/-- A program that owes nothing before and after it, and pays what it owes. -/
abbrev Solvent {α : Type} (p : M α) : Prop := @Prog.Maintains svc α Pays Settled p

section Solvent

variable {env : Env} {libs : Libs} {t : JsonText} {α : Type}

theorem solvent_of_only {p : M α} (hp : @Prog.Only svc α Eff.Closed p) : Solvent p :=
  Prog.Only.maintains hp (fun _ e hs _ => hs.pays e) fun h e r _ he => by
    rw [Settled, owes_snoc]
    exact he r

theorem Quiet.solvent {p : M α} (hp : Quiet p) : Solvent p :=
  solvent_of_only (Prog.Only.mono (fun _ he => closed_quiet he) hp)

theorem Reads.solvent {p : M α} (hp : Reads p) : Solvent p := by
  refine solvent_of_only (Prog.Only.mono (fun e he => ?_) hp)
  cases e with
  | redis c =>
    refine closed_of_opens fun k hk => (he c rfl k ?_).elim
    cases c <;> cases hk
    all_goals exact List.mem_singleton.mpr rfl
  | _ => exact fun _ => rfl

theorem solvent_run {c : Cmd} (hc : c.opens = none) : Solvent (RedisClient.run c) :=
  solvent_of_only (only_run (closed_of_opens fun k hk => by rw [hc] at hk; cases hk))

theorem solvent_callE {ε : Type} {e : Eff} (he : e.Closed) :
    @Solvent (Except ε e.Reply) (callE e) := solvent_of_only (only_callE he)

theorem solvent_addToGroup (g m : String) (score : Int) :
    Solvent (RedisClient.addToGroup g m score) := by
  intro h hs
  simp only [RedisClient.addToGroup, Prog.wp_tryBind, wp_run]
  refine ⟨hs.pays _, fun _ => ⟨fun k hk => ?_, fun _ => owes_snoc _ _, fun _ => owes_snoc _ _⟩,
    fun _ => owes_snoc _ _⟩
  rw [owes_snoc] at hk
  cases hk
  exact .inr ⟨score, rfl⟩

theorem solvent_storeRefresh (id : String) (record : RefreshRecord) (ttl : Nat) :
    Solvent (RedisClient.storeRefresh t id record ttl) := by
  intro h hs
  unfold RedisClient.storeRefresh
  split
  · exact hs
  · simp only [Prog.wp_tryBind, wp_run]
    refine ⟨hs.pays _, fun _ => ⟨fun k hk => ?_, fun _ => owes_snoc _ _, fun _ => owes_snoc _ _⟩,
      fun _ => owes_snoc _ _⟩
    rw [owes_snoc] at hk
    cases hk
    exact .inl ⟨_, rfl⟩

theorem solvent_revokeGroup (g : String) : Solvent (RedisClient.revokeGroup g) :=
  solvent_of_only (only_revokeGroup (fun _ => rfl) (fun _ _ => rfl) (fun _ => rfl) fun _ _ => rfl)

/-! ## Every request -/

theorem solvent_createNew (issuer subject : String) (audience : List String) (ttl : Option Nat)
    (extra : List (String × Json)) : Solvent
      (TokenClaims.createNew env t (redisClient t) issuer subject audience ttl extra) := by
  refine Prog.maintains_tryBind (Prog.maintains_ofExcept _) fun _ => ?_
  refine Prog.maintains_tryBind (Prog.maintains_ofExcept _) fun seconds => ?_
  cases audience with
  | nil => exact Prog.maintains_ret _
  | cons firstAudience rest =>
    refine Prog.maintains_tryBind (solvent_callE fun _ => rfl) fun now => ?_
    cases chronoAdd now (asI64 seconds) with
    | none => exact (quiet_panic _).solvent
    | some exp =>
      refine Prog.maintains_tryBind (solvent_callE fun _ => rfl) fun jti => ?_
      refine Prog.maintains_tryBind (Prog.maintains_mapError (solvent_run rfl)) fun _ => ?_
      refine Prog.maintains_tryBind (Prog.maintains_mapError (solvent_addToGroup _ _ _)) fun _ => ?_
      refine Prog.maintains_tryBind
        (Prog.maintains_liftE (reads_isVerify t _ issuer firstAudience).solvent) fun b => ?_
      cases b <;> exact Prog.maintains_ret _

theorem solvent_generateToken (issuer subject : String) (audience : List String) (ttl : Option Nat)
    (extra : List (String × Json)) : Solvent
      (JwtManager.generateToken env libs (redisClient libs.json) issuer subject audience ttl extra) := by
  refine Prog.maintains_tryBind
    (Prog.maintains_mapError (KeyManager.quiet_getPrivateKey libs.ssl _).solvent) fun _ => ?_
  exact Prog.maintains_tryBind (solvent_createNew _ _ _ _ _) fun _ => Prog.maintains_ofExcept _

theorem solvent_issueRefresh (subject : String) (audience : List String) (family : String) :
    Solvent (JwtManager.issueRefresh env (redisClient t) subject audience family) := by
  refine Prog.maintains_tryBind (solvent_callE fun _ => rfl) fun id => ?_
  refine Prog.maintains_tryBind (Prog.maintains_mapError (solvent_storeRefresh _ _ _)) fun _ => ?_
  refine Prog.maintains_tryBind (solvent_callE fun _ => rfl) fun now => ?_
  refine Prog.maintains_tryBind (Prog.maintains_mapError (solvent_addToGroup _ _ _)) fun _ => ?_
  exact Prog.maintains_ret _

theorem solvent_issuePair (issuer subject : String) (audience : List String) (ttl : Option Nat)
    (extra : List (String × Json)) (family : String) :
    Solvent (issuePair env libs issuer subject audience ttl extra family) := by
  refine Prog.maintains_tryBind (solvent_generateToken _ _ _ _ _) fun access => ?_
  refine Prog.maintains_tryBind (Prog.maintains_tryBind (Prog.maintains_ofExcept _) fun _ =>
    Prog.maintains_mapError (solvent_addToGroup _ _ _)) fun _ => ?_
  exact Prog.maintains_tryBind (solvent_issueRefresh _ _ _) fun _ => Prog.maintains_ret _

theorem solvent_refreshTokenPair (token issuer : String) : Solvent
    (JwtManager.refreshTokenPair env libs (redisClient libs.json) token issuer) := by
  refine Prog.maintains_tryBind (Prog.maintains_mapError (Prog.maintains_tryBind (solvent_run rfl)
    fun fields => ?_)) fun o => ?_
  · show @Solvent (Except JtiError (Option RefreshRecord)) (ite _ _ _)
    split <;> exact Prog.maintains_ret _
  · cases o with
    | none => exact Prog.maintains_ret _
    | some record =>
      refine Prog.maintains_tryBind (Prog.maintains_mapError (solvent_of_only (only_run
        (closed_of_opens fun k hk => by cases hk; exact ⟨_, _, rfl⟩)))) fun first => ?_
      cases first with
      | true => exact solvent_issuePair _ _ _ _ _ _
      | false =>
        refine Prog.maintains_tryBind (Prog.maintains_mapError (solvent_revokeGroup _)) fun _ => ?_
        exact Prog.maintains_ret _

theorem solvent_respond {p : ExceptT Error M HttpResponse} (hp : Solvent p) : Solvent (respond p) :=
  Prog.maintains_bind hp fun r => by cases r <;> exact Prog.maintains_ret _

/-- The end of a handler: the answer is counted, or an error chosen. -/
theorem solvent_counted {m : Metric} {resp : HttpResponse} :
    @Solvent (Except Error HttpResponse) (do
      callE (.metric m)
      pure resp : ExceptT Error M HttpResponse) :=
  Prog.maintains_tryBind (solvent_callE fun _ => rfl) fun _ => Prog.maintains_ret _

theorem solvent_handle (rq : Request) : Solvent (handle env libs (redisClient libs.json) rq) := by
  cases rq with
  | createToken host req =>
    refine solvent_respond (Prog.maintains_tryBind (Prog.maintains_ofExcept _) fun issuer => ?_)
    refine Prog.maintains_tryBind (Prog.maintains_liftE ?_) fun r => ?_
    · show @Solvent (Except JwtError (String × Option String)) (ite _ _ _)
      split
      · refine Prog.maintains_tryBind (Prog.maintains_tryBind (solvent_callE fun _ => rfl) fun family =>
          solvent_issuePair _ _ _ _ _ _) fun _ => Prog.maintains_ret _
      · exact Prog.maintains_tryBind (solvent_generateToken _ _ _ _ _) fun _ => Prog.maintains_ret _
    · rcases r with e | ⟨token, refresh⟩
      · cases e <;> exact Prog.maintains_ret _
      · exact solvent_counted
  | refreshToken host token =>
    refine solvent_respond (Prog.maintains_tryBind (Prog.maintains_ofExcept _) fun issuer => ?_)
    refine Prog.maintains_tryBind (Prog.maintains_liftE (solvent_refreshTokenPair _ _)) fun r => ?_
    rcases r with e | ⟨token, refresh⟩
    · cases e <;> exact Prog.maintains_ret _
    · exact solvent_counted
  | verifyToken host req => exact (reads_verifyToken req).solvent
  | revokeToken jti =>
    refine solvent_respond (Prog.maintains_tryBind (Prog.maintains_liftE (solvent_run rfl)) fun r => ?_)
    cases r with
    | error e => exact Prog.maintains_ret _
    | ok _ => exact solvent_counted
  | revokeSubjectTokens sub =>
    refine solvent_respond (Prog.maintains_tryBind (Prog.maintains_liftE (solvent_revokeGroup _))
      fun r => ?_)
    cases r with
    | error e => exact Prog.maintains_ret _
    | ok n =>
      exact Prog.maintains_tryBind (quiet_recordRevoked n).solvent fun _ => Prog.maintains_ret _
  | livez => exact Prog.maintains_ret _
  | readyz => exact (reads_readyz libs.json).solvent

/-- Every request pays what it owes before it does anything else. -/
theorem serve_pays (a : Admission) (rq : Request) :
    Prog.wp Pays [] (serve env libs (redisClient libs.json) a rq) fun h _ => Settled h := by
  refine wp_serve (I := Settled) a rq rfl (fun h hash ttl hs _ => ⟨hs.pays _, fun r => ?_⟩)
    (fun h m r status msg hs _ => ⟨hs.pays _, ?_⟩) fun h hs => solvent_handle rq h hs
  · exact owes_snoc _ _
  · exact owes_snoc _ _

end Solvent

/-! ## Runs -/

/-- Every key of the store has an expiry. -/
def Expires (w : World) : Prop := ∀ k e, w.db.get w.now k = some e → e.expireAt ≠ none

/-- The request has made a call and has not ended. A panic ends it too. -/
def InFlight (h : Calls) (p : M HttpResponse) : Prop :=
  h ≠ [] ∧ ∃ e k, p = .call e k ∧ ∀ msg, e ≠ .panic msg

section Runs

variable {ι : Type} {w w' : World} {s : JwkService}

/-- No command fails. -/
def Unfailing (ev : Event svc ι Nat) : Prop :=
  ∀ i c r, ev = .call i ⟨.redis c, r⟩ → ∃ a, r = .ok a

/-- A mark is set only on a record that is there. -/
def MarksRecord (w : World) (ev : Event svc ι Nat) : Prop :=
  ∀ i k f v r, ev = .call i ⟨.redis (.hsetNx k f v), r⟩ → (w.db.get w.now k).isSome = true

variable [DecidableEq ι] {h : List (Event svc ι Nat)} {i : ι}

/-- A key without an expiry is owed one. -/
def Pending (h : List (Event svc ι Nat)) (w : World) : Prop :=
  ∀ k e, w.db.get w.now k = some e → e.expireAt = none → ∃ i, owes (callsOf i h) = some k

/-- What is owed to a key is owed still, unless the request that owes it pays. -/
theorem owed_still {k : String} {j : ι} (hj : owes (callsOf j h) = some k) {e : Eff} {r : e.Reply}
    (hp : Pays (callsOf i h) e) (he : ∀ c, e = .redis c → c.limits ≠ some k) :
    ∃ j, owes (callsOf j (h ++ [.call i ⟨e, r⟩])) = some k := by
  by_cases hij : i = j
  · subst hij
    rcases hp k hj with ⟨secs, rfl⟩ | ⟨ts, rfl⟩
    · exact absurd rfl (he _ rfl)
    · exact absurd rfl (he _ rfl)
  · refine ⟨j, ?_⟩
    rw [callsOf_append, callsOf_call_ne hij, callsOf_nil, List.append_nil]
    exact hj

theorem Pending.call (hp : Pending h w) {e : Eff} {r : e.Reply} (ho : Pays (callsOf i h) e)
    (hu : Unfailing (.call i ⟨e, r⟩ : Event svc ι Nat))
    (hm : MarksRecord w (.call i ⟨e, r⟩ : Event svc ι Nat)) (hs : (service s).call w e r w') :
    Pending (h ++ [.call i ⟨e, r⟩]) w' := by
  intro k x hx hx₀
  rw [call_now hs] at hx
  cases e with
  | redis c =>
    obtain ⟨a, rfl⟩ := hu i c r rfl
    rcases call_redis hs with ⟨-, e, he⟩ | ⟨rfl, hr⟩
    · cases he
    · have hok : (Redis.exec w.now w.db c).1 = .ok a := by
        rcases hr with hr | ⟨e, he⟩
        · exact hr.symm
        · cases he
      rcases exec_endless hok hx hx₀ with ⟨hnone, hopen⟩ | ⟨hl, x₀, hget, hend⟩
      · -- The command has just created the key.
        refine ⟨i, ?_⟩
        rw [callsOf_append, callsOf_call_self, callsOf_nil, owes_snoc]
        cases c with
        | zadd g m score => cases hopen; rfl
        | hset j fs => cases hopen; rfl
        | hsetNx j f v =>
          cases hopen
          have := hm i _ f v _ rfl
          rw [hnone] at this
          cases this
        | _ => cases hopen
      · obtain ⟨j, hj⟩ := hp k x₀ hget hend
        refine owed_still hj ho fun c' he => ?_
        cases he
        exact hl
  | newUuid =>
    obtain ⟨-, -, rfl⟩ := call_newUuid hs
    obtain ⟨j, hj⟩ := hp k x hx hx₀
    exact owed_still hj ho nofun
  | _ =>
    rw [(call_quiet rfl hs).1] at hx
    obtain ⟨j, hj⟩ := hp k x hx hx₀
    exact owed_still hj ho nofun

theorem Pending.env (hp : Pending h w) (d : Nat) : Pending (h ++ [.env d]) (w.tick d) := by
  intro k x hx hx₀
  obtain ⟨j, hj⟩ := hp k x (Db.get_of_later (Nat.le_add_right _ _) hx) hx₀
  refine ⟨j, ?_⟩
  rw [callsOf_append, callsOf_env, callsOf_nil, List.append_nil]
  exact hj

variable {env : Env} {libs : Libs} {adm : ι → Admission} {req : ι → Request}
  {tr : List (Event svc ι Nat)} {P : Pool svc World ι HttpResponse}

theorem pending_of_run (h₀ : Expires w) (hr : (service s).RunWhere
      (fun _ w ev => Unfailing ev ∧ MarksRecord w ev) []
      ⟨w, fun i => serve env libs (redisClient libs.json) (adm i) (req i)⟩ tr P) :
    Pending tr P.st := by
  have hw : ∀ i, Prog.wp Pays (callsOf i ([] : List (Event svc ι Nat)))
      (serve env libs (redisClient libs.json) (adm i) (req i)) fun h _ => Settled h :=
    fun i => serve_pays (adm i) (req i)
  refine hr.inv (I := Pending) (R := fun _ => Pays) (Q := fun _ h _ => Settled h)
    (fun h w i e r w' hp ho hg hs => hp.call ho hg.1 hg.2 hs) (fun h w d w' hp _ hs => ?_) hw
    fun k e he h => absurd h (h₀ k e he)
  cases hs
  exact hp.env d

/-- While no command fails and every mark finds its record, each key has an
expiry whenever no request is in flight; a mark that finds no record makes a
key without one. -/
theorem keys_expire :
    (∀ (w : World) (tr : List (Event svc ι Nat)) (P : Pool svc World ι HttpResponse), Expires w →
      (service s).RunWhere (fun _ w ev => Unfailing ev ∧ MarksRecord w ev) []
        ⟨w, fun i => serve env libs (redisClient libs.json) (adm i) (req i)⟩ tr P →
      (∀ i, ¬ InFlight (callsOf i tr) (P.prog i)) → Expires P.st) ∧
    ∀ (w w' : World) (k f v : String) (first : Bool), w.db.get w.now k = none →
      (service s).call w (.redis (.hsetNx k f v)) (.ok first) w' → ¬ Expires w' := by
  refine ⟨fun w tr P h₀ hr hrest k e he hend => ?_, fun w w' k f v first hnone hs hall => ?_⟩
  · obtain ⟨i, hi⟩ := pending_of_run h₀ hr k e he hend
    have hpath := hr.run.path i
    refine hrest i ⟨fun hnil => ?_, ?_⟩
    · rw [hnil] at hi
      cases hi
    · cases hp : P.prog i with
      | ret resp =>
        rw [hp] at hpath
        have hsettled : Settled (callsOf i tr) := hpath.wp_ret (serve_pays (adm i) (req i))
        rw [hsettled] at hi
        cases hi
      | call e k =>
        rw [hp] at hpath
        refine ⟨e, k, rfl, fun msg he => ?_⟩
        have ho := hpath.wp_call (serve_pays (adm i) (req i))
        rcases ho _ hi with ⟨_, h⟩ | ⟨_, h⟩ <;> rw [he] at h <;> cases h
  · rcases call_redis hs with ⟨-, e, he⟩ | ⟨rfl, hr⟩
    · cases he
    · refine hall k ⟨.hash [(f, v)], none⟩ ?_ rfl
      simp only [Redis.exec, hnone]
      exact Db.get_put_some _

end Runs

/-! ## Two runs -/

/-- Where every request has succeeded, no command has failed. -/
theorem unfailing_of_success {ι : Type} [DecidableEq ι] {env : Env} {libs : Libs} {req : ι → Request}
    {tr : List (Event svc ι Nat)} (h : ∀ i, (req i).internal = true ∧ ∃ resp : HttpResponse,
      resp.success ∧ Prog.Path (handle env libs (redisClient libs.json) (req i)) (callsOf i tr)
        (.ret resp)) : ∀ ev ∈ tr, Unfailing ev := by
  rintro ev hev i c r rfl
  obtain ⟨hi, resp, hs, hp⟩ := h i
  cases r with
  | ok a => exact ⟨a, rfl⟩
  | error e =>
    obtain ⟨hu, -⟩ := (handle_progress hi hp).2 resp rfl hs
    exact absurd (mem_callsOf.mpr hev) (hu c e)

theorem not_inFlight_of_ret {h : Calls} {p : M HttpResponse} {resp : HttpResponse}
    (hp : p = .ret resp) : ¬ InFlight h p := by
  rintro ⟨-, e, k, he, -⟩
  rw [hp] at he
  cases he

/-- An issue of a pair, and an exchange of its refresh token. -/
def pairAndExchange : Bool → Request
  | false => .createToken (.text "host") ⟨"user", ["api"], some 60, true, []⟩
  | true => .refreshToken (.text "host") uuidB

theorem marksRecord_of_no_mark {ι : Type} {w : World} {i : ι} {e : Eff} {r : e.Reply}
    (he : ∀ k f v, e ≠ .redis (.hsetNx k f v)) :
    MarksRecord w (.call i ⟨e, r⟩ : Event svc ι Nat) := by
  intro j k f v r' h
  injection h with _ h
  injection h with h
  exact absurd h (he k f v)

/-- An issue leaves keys that all expire. -/
theorem keys_expire_issue : ∃ (tr : List (Event svc Bool Nat)) (P : Pool svc World Bool HttpResponse),
    (service ⟨300000, 10000, 10000⟩).RunWhere (fun _ w ev => Unfailing ev ∧ MarksRecord w ev) []
      (start bareEnv echoLibs (fun _ => admitted) issueAndRevoke) tr P ∧
    (P.st.db.get P.st.now uuidA).isSome = true ∧ Expires P.st ∧
    ∀ w', (service ⟨300000, 10000, 10000⟩).call World.empty
      (.redis (.hsetNx (refreshKey uuidA) "used" "1")) (.ok true) w' → ¬ Expires w' := by
  let s : JwkService := ⟨300000, 10000, 10000⟩
  let P := start bareEnv echoLibs (fun _ => admitted) issueAndRevoke
  obtain ⟨access, x, -, hissue⟩ := @echo_createToken s World.empty sound_empty "user" 60 uuidA
    ⟨by decide, nofun⟩ (by decide) (by decide) (by decide)
  -- An issue sets no mark, and succeeds.
  have hno : @Prog.Only svc _ (fun e => ∀ k f v, e ≠ Eff.redis (.hsetNx k f v))
      (handle bareEnv echoLibs (redisClient echoLibs.json) (issueAndRevoke false)) := by
    have hq : ∀ e : Eff, e.quiet = true → e.isLookup = false → ∀ k f v, e ≠ .redis (.hsetNx k f v) :=
      fun e he _ k f v h => by
      rw [h] at he
      cases he
    refine only_createToken hq fun issuer => only_issue rfl ?_
    apply only_generateToken hq
    exact only_createNew hq nofun nofun nofun (fun _ _ _ _ _ => nofun) nofun
  obtain ⟨tr, hr, hall⟩ := System.RunWhere.of_eval (S := service s) (i := false) (P := P)
    (G := fun _ w ev => MarksRecord w ev) (I := fun _ => True)
    (fun h w e r w' _ he _ => ⟨marksRecord_of_no_mark he, trivial⟩) hno trivial (Prog.Eval.mono faultless_service hissue) []
  have hunfailing : ∀ ev ∈ tr, Unfailing ev := by
    have hpath := hr.run.path false
    rintro ev hev i c r rfl
    obtain ⟨_, h⟩ := hall _ hev
    cases h
    cases r with
    | ok a => exact ⟨a, rfl⟩
    | error e =>
      have hi : (issueAndRevoke false).internal = true := rfl
      obtain ⟨hu, -⟩ := (handle_progress hi hpath).2 _ rfl
        ⟨show 200 ≤ 200 by decide, show 200 < 300 by decide⟩
      exact absurd (mem_callsOf.mpr hev) (hu c e)
  have hrun : (service s).RunWhere (fun _ w ev => Unfailing ev ∧ MarksRecord w ev) [] P tr _ :=
    (hr.also hunfailing).mono fun _ _ _ h => ⟨h.2, h.1⟩
  have hexpire := @keys_expire Bool s _ bareEnv echoLibs (fun _ => admitted) issueAndRevoke
  refine ⟨tr, _, hrun, rfl, hexpire.1 World.empty tr _ nofun hrun fun i => ?_, fun w' =>
    hexpire.2 World.empty w' _ _ _ true rfl⟩
  cases i with
  | false => exact not_inFlight_of_ret rfl
  | true =>
    rintro ⟨hne, -⟩
    exact hne (System.callsOf_of_alone (show false ≠ true by decide) hall)

/-- The record expires between its reading and its mark: the mark creates it
without an expiry. -/
theorem mark_without_record : ∃ (tr : List (Event svc Bool Nat)) (P : Pool svc World Bool HttpResponse),
    (faultless ⟨300000, 10000, 10000⟩).Run
      (start bareEnv echoLibs (fun _ => admitted) pairAndExchange) tr P ∧
    (∀ ev ∈ tr, Unfailing ev) ∧ (∀ i, ¬ InFlight (callsOf i tr) (P.prog i)) ∧ ¬ Expires P.st := by
  let s : JwkService := ⟨300000, 10000, 10000⟩
  obtain ⟨access, x, w₁, -, hissue, hs₁, hnow, hdrawn, -, hentry⟩ := echo_firstPair s
  let w₂ := (w₁.tick 2592000000).setDb
    (w₁.db.put (refreshKey uuidB) (some ⟨.hash [("used", "1")], none⟩))
  have hs₂ : w₂.Sound := Db.Shape.put hs₁ fun e he => by
    cases he
    exact .refresh ⟨by decide, show uuidB ∈ w₁.drawn by rw [hdrawn]; decide⟩
  obtain ⟨access', y, w₃, -, hpair, -, -, hdb₃⟩ := @echo_issuePair s w₂ hs₂ "user" uuidC none 3600 uuidD
    uuidE (bare_exchangeable _ (show (w₁.now + 2592000000) / 1000 + 2592000 ≤ maxSeconds by
      rw [hnow]; decide))
    ⟨by decide, show uuidD ∉ w₁.drawn by rw [hdrawn]; decide⟩
    ⟨by decide, show uuidE ∉ uuidD :: w₁.drawn by rw [hdrawn]; decide⟩
    (show (w₁.now + 2592000000) / 1000 + 2592000 ≤ maxSeconds by rw [hnow]; decide)
  obtain ⟨cs₁, hpath₁, ht₁⟩ := System.Trace.of_eval (S := faultless s) hissue false
  obtain ⟨cs₂, hpath₂, ht₂⟩ := System.Trace.of_eval (S := faultless s) hpair true
  let k := refreshKey uuidB
  let fs := recordFields ⟨"user", ["api"], uuidC⟩ apiText
  let tr : List (Event svc Bool Nat) := cs₁.map (.call false) ++ ([.call true ⟨.redis (.hgetAll k), .ok fs⟩,
    .env 2592000000, .call true ⟨.redis (.hsetNx k "used" "1"), .ok true⟩] ++
      (cs₂.map (.call true) ++ [.call true ⟨.metric .tokenIssued, ()⟩]))
  have hread : (faultless s).call w₁ (.redis (.hgetAll k)) (.ok fs) w₁ := by
    refine Orderly.redis.mpr ?_
    have hget : w₁.db.get w₁.now k = _ := Db.get_eq_some.mpr ⟨hentry, by rw [hnow]; rfl⟩
    rw [exec_hgetAll (hs₁.refresh_isHash uuidB), Db.fields_of_get hget]
    exact ⟨rfl, rfl⟩
  have hmark : (faultless s).call (w₁.tick 2592000000) (.redis (.hsetNx k "used" "1")) (.ok true) w₂ := by
    refine Orderly.redis.mpr ?_
    have hget : (w₁.tick 2592000000).db.get (w₁.tick 2592000000).now k = none := by
      show w₁.db.get (w₁.now + 2592000000) k = none
      rw [Db.get, hentry, hnow]
      rfl
    have hexec : Redis.exec (w₁.tick 2592000000).now (w₁.tick 2592000000).db (.hsetNx k "used" "1") =
        (.ok true, w₁.db.put k (some ⟨.hash [("used", "1")], none⟩)) := by
      simp only [Redis.exec, hget]
      rfl
    rw [hexec]
    exact ⟨rfl, rfl⟩
  have htrace : (faultless s).Trace World.empty tr w₃ :=
    ht₁.trans (.call hread (.env rfl (.call hmark (ht₂.trans (.call ⟨.plain, rfl, rfl⟩ (.nil _))))))
  have hfalse : callsOf false tr = cs₁ := by
    rw [callsOf_append, callsOf_map_self, callsOf_append, callsOf_append, callsOf_map_ne (by decide)]
    exact List.append_nil cs₁
  have htrue : callsOf true tr = [⟨.redis (.hgetAll k), .ok fs⟩,
      ⟨.redis (.hsetNx k "used" "1"), .ok true⟩] ++ (cs₂ ++ [⟨.metric .tokenIssued, ()⟩]) := by
    rw [callsOf_append, callsOf_map_ne (by decide), callsOf_append, callsOf_append, callsOf_map_self]
    rfl
  have hrec : RedisClient.recordOfFields echoLibs.json fs = some ⟨"user", ["api"], uuidC⟩ :=
    recordOfFields_of apiText_parse
  have hexchange : Prog.Path (handle bareEnv echoLibs (redisClient echoLibs.json) (pairAndExchange true))
      (callsOf true tr) (.ret ⟨200, .token access' (some uuidE)⟩) := by
    rw [htrue]
    exact path_refreshToken rfl (List.cons_ne_nil _ _) hrec hpath₂
  have hrun : (faultless s).Run (start bareEnv echoLibs (fun _ => admitted) pairAndExchange) tr
      ⟨w₃, fun i => .ret (if i then ⟨200, .token access' (some uuidE)⟩
        else ⟨200, .token access (some uuidB)⟩)⟩ := by
    refine htrace.run fun i => ?_
    cases i with
    | false => rw [hfalse]; exact hpath₁
    | true => exact hexchange
  refine ⟨tr, _, hrun, ?_, fun i => not_inFlight_of_ret rfl, fun hall => ?_⟩
  · apply @unfailing_of_success Bool _ bareEnv echoLibs pairAndExchange
    intro i
    cases i with
    | false => exact ⟨rfl, _, ⟨show 200 ≤ 200 by decide, show 200 < 300 by decide⟩, hfalse ▸ hpath₁⟩
    | true => exact ⟨rfl, _, ⟨show 200 ≤ 200 by decide, show 200 < 300 by decide⟩, hexchange⟩
  · have hk₂ : w₂.db k = some ⟨.hash [("used", "1")], none⟩ := by
      show (w₁.tick 2592000000).db.put k _ k = _
      exact Function.update_self ..
    have hk₃ : w₃.db k = some ⟨.hash [("used", "1")], none⟩ := by
      rw [hdb₃, pairDb_ne (by decide) (by decide) (by decide) (by decide)]
      exact hk₂
    exact hall k _ (Db.get_eq_some.mpr ⟨hk₃, rfl⟩) rfl

end JwtService

import JwtService.Proof.Listed

/-!
# Revocations are kept apart

Requests of all kinds side by side, with any subjects, any path strings and
any failures of Redis. A bulk revocation of a subject changes no refresh
record, no index of another subject and no key of an access token that was
issued for another subject; a family kill deletes nothing but the index of the
family and tokens that were issued in it (`revocations_isolated`).

A token belongs to the subject and the family its request issues for
(`subjectOf`, `familyOf`), and the `sub` of a token that was handed out is that
subject (`handed_out_subject`).
-/

namespace JwtService

open Interaction Redis

/-! ## The subject of a token -/

section Subject

variable {env : Env} {libs : Libs} {cs : Calls}

theorem generateToken_claims (ht : libs.json.Faithful) {issuer subject : String}
    {audience : List String} {ttl : Option Nat} {extra : List (String × Json)} {token : String}
    (h : Prog.Path (JwtManager.generateToken env libs (redisClient libs.json) issuer subject audience
      ttl extra) cs (.ret (.ok token))) : Carries libs token fun c => c.sub = subject := by
  obtain ⟨⟨jwk, key⟩, _, cs₁, -, -, h₁⟩ := Prog.path_tryBind_ok h
  obtain ⟨claims, cs₂, _, -, hc, h₂⟩ := Prog.path_tryBind_ok h₁
  obtain ⟨-, htoken⟩ := Prog.path_ofExcept h₂
  have hn : ∀ x ∈ ([] : Calls), x.eff.isSetEx = false := nofun
  obtain ⟨⟨-, hsub, -, hx, he, hi, hb⟩, -⟩ :=
    (hc.wp_ret (createNew_ok env libs hn issuer subject audience ttl extra)).2 claims rfl
  obtain ⟨c, hseg, hcc⟩ := claimsSegmentOf_toString ht hx he hi hb htoken.symm
  exact ⟨c, hseg, by rw [hcc]; exact hsub⟩

theorem issuePair_claims (ht : libs.json.Faithful) {issuer subject family access refresh : String}
    {audience : List String} {ttl : Option Nat} {extra : List (String × Json)}
    (h : Prog.Path (issuePair env libs issuer subject audience ttl extra family) cs
      (.ret (.ok (access, refresh)))) : Carries libs access fun c => c.sub = subject := by
  obtain ⟨access', cs₁, _, -, h₁, h₂⟩ := Prog.path_tryBind_ok h
  obtain ⟨_, _, _, -, -, h₃⟩ := Prog.path_tryBind_ok h₂
  obtain ⟨refresh', _, _, -, -, h₄⟩ := Prog.path_tryBind_ok h₃
  obtain ⟨-, he⟩ := Prog.path_pure_ok h₄
  cases he
  exact generateToken_claims ht h₁

theorem issue_claims (ht : libs.json.Faithful) {issuer token : String} {req : TokenRequest}
    {refresh : Option String}
    (h : Prog.Path (issue env libs (redisClient libs.json) issuer req) cs
      (.ret (.ok (token, refresh)))) : Carries libs token fun c => c.sub = req.sub := by
  unfold issue at h
  split at h
  · obtain ⟨⟨access, id⟩, cs₁, _, -, h₁, h₂⟩ := Prog.path_tryBind_ok h
    obtain ⟨-, he⟩ := Prog.path_pure_ok h₂
    cases he
    obtain ⟨family, _, cs₂, -, -, h₃⟩ := Prog.path_tryBind_ok h₁
    exact issuePair_claims ht h₃
  · obtain ⟨access, cs₁, _, -, h₁, h₂⟩ := Prog.path_tryBind_ok h
    obtain ⟨-, he⟩ := Prog.path_pure_ok h₂
    cases he
    exact generateToken_claims ht h₁

/-- An exchange that succeeds issues for the subject of the record it read. -/
theorem refreshTokenPair_claims (ht : libs.json.Faithful) {h : Calls} (hb : Blank h)
    (token issuer : String) : Prog.wp (fun _ _ => True) h
      (JwtManager.refreshTokenPair env libs (redisClient libs.json) token issuer) fun h' r =>
        ∀ access refresh, r = .ok (access, refresh) → ∃ record, recordRead libs.json h' = some record ∧
          Carries libs access fun c => c.sub = record.subject := by
  simp only [JwtManager.refreshTokenPair, Prog.wp_tryBind, orStoreError, Prog.wp_mapError,
    redisClient, RedisClient.getRefresh, wp_run]
  refine ⟨trivial, fun fields => ?_, by simp⟩
  by_cases hf : fields = []
  · rw [if_pos hf]; simp
  · rw [if_neg hf]
    cases hr : RedisClient.recordOfFields libs.json fields with
    | none => simp
    | some record =>
      simp only [Prog.wp_pure_ok, Prog.wp_tryBind, Prog.wp_mapError, RedisClient.markRefreshUsed,
        wp_run]
      refine ⟨trivial, fun marked => ?_, by simp⟩
      cases marked with
      | true =>
        refine Prog.wp_of_path fun cs r hp access refresh he => ?_
        subst he
        refine ⟨record, ?_, issuePair_claims ht hp⟩
        rw [List.append_assoc]
        exact findSome_append (recordRead_snoc hb hr) _
      | false =>
        refine Prog.wp_of_path fun cs r hp access refresh he => ?_
        subst he
        obtain ⟨_, _, _, -, -, h₁⟩ := Prog.path_tryBind_ok hp
        exact (Prog.path_throw_ok h₁).elim

/-- What a response hands out is a token whose `sub` is the subject the request
issues for. -/
def ForSubject (libs : Libs) (rq : Request) (h : Calls) (resp : HttpResponse) : Prop :=
  ∀ token refresh, resp.body = .token token refresh →
    Carries libs token fun c => subjectOf libs.json rq h = some c.sub

theorem ForSubject.of_tokenless {rq : Request} {h : Calls} {resp : HttpResponse}
    (hr : ∀ token refresh, resp.body ≠ .token token refresh) : ForSubject libs rq h resp :=
  fun token refresh he => absurd he (hr token refresh)

theorem ForSubject.respond {rq : Request} {h : Calls} {p : ExceptT Error M HttpResponse}
    (hp : Prog.wp (fun _ _ => True) h p fun h' r => ∀ resp, r = .ok resp →
      ForSubject libs rq h' resp) :
    Prog.wp (fun _ _ => True) h (respond p) (ForSubject libs rq) := by
  refine (Prog.wp_bind h p _).mpr (Prog.wp_imp hp fun h' r hr => ?_)
  cases r with
  | ok resp => exact hr resp rfl
  | error e => exact .of_tokenless fun _ _ => by cases e <;> exact nofun

/-- A token that a request hands out carries the subject it issues for. -/
theorem handed_out_subject (ht : libs.json.Faithful) (a : Admission) (rq : Request) :
    Prog.wp (fun _ _ => True) [] (serve env libs (redisClient libs.json) a rq)
      (ForSubject libs rq) := by
  refine wp_serve (I := Blank) a rq (fun _ => ⟨rfl, rfl⟩) (fun _ _ _ hb _ => ⟨trivial, fun _ => hb.claim⟩)
    (fun _ _ _ _ _ _ _ => ⟨trivial, .of_tokenless (by simp)⟩) fun h hb => ?_
  cases rq with
  | createToken host req =>
    refine ForSubject.respond ?_
    simp only [createToken, Prog.wp_tryBind, Prog.wp_ofExcept]
    cases issuerForIssuance env host with
    | error e => simp
    | ok issuer =>
      simp only [Prog.wp_liftE]
      refine Prog.wp_imp (Prog.wp_of_path (Q := fun _ r => ∀ token refresh, r = .ok (token, refresh) →
        Carries libs token fun c => c.sub = req.sub) fun _ r hp _ _ he => ?_) fun h' r hr => ?_
      · subst he
        exact issue_claims ht hp
      · rcases r with e | ⟨token, refresh⟩
        · cases e <;> simp
        · simp only [Prog.wp_tryBind, wp_callE]
          refine ⟨trivial, fun _ resp hresp => ?_⟩
          cases hresp
          intro _ _ he
          cases he
          obtain ⟨c, hc, hsub⟩ := hr _ _ rfl
          exact ⟨c, hc, congrArg some hsub.symm⟩
  | refreshToken host token =>
    refine ForSubject.respond ?_
    simp only [refreshToken, Prog.wp_tryBind, Prog.wp_ofExcept]
    cases issuerForIssuance env host with
    | error e => simp
    | ok issuer =>
      simp only [Prog.wp_liftE]
      refine Prog.wp_imp (refreshTokenPair_claims ht hb token issuer) fun h' r hr => ?_
      rcases r with e | ⟨access, refresh⟩
      · cases e <;> simp
      · simp only [Prog.wp_tryBind, wp_callE]
        refine ⟨trivial, fun _ resp hresp => ?_⟩
        cases hresp
        intro _ _ he
        cases he
        obtain ⟨record, hread, c, hc, hsub⟩ := hr _ _ rfl
        refine ⟨c, hc, ?_⟩
        rw [subjectOf, recordRead, findSome_append hread]
        exact congrArg some hsub.symm
  | verifyToken host req =>
    refine ForSubject.respond (Prog.wp_of_path fun cs r hp resp he => ?_)
    subst he
    obtain ⟨_, _, _, -, -, -, rfl, -⟩ := verifyToken_inv hp
    exact .of_tokenless (by simp)
  | revokeToken jti =>
    refine ForSubject.respond ?_
    simp only [revokeToken, Prog.wp_tryBind, Prog.wp_liftE, redisClient, RedisClient.deleteJti,
      wp_run]
    refine ⟨trivial, fun _ => ?_, fun e => by simp⟩
    simp only [wp_callE]
    refine ⟨trivial, fun _ resp hresp => ?_⟩
    cases hresp
    exact .of_tokenless (by simp)
  | revokeSubjectTokens sub =>
    refine ForSubject.respond (Prog.wp_of_path fun cs r hp resp he => ?_)
    subst he
    obtain ⟨x, _, _, -, -, h₁⟩ := Prog.path_tryBind_ok hp
    cases x with
    | error e => exact (Prog.path_throw_ok h₁).elim
    | ok n =>
      obtain ⟨_, _, _, -, -, h₂⟩ := Prog.path_tryBind_ok h₁
      obtain ⟨-, rfl⟩ := Prog.path_pure_ok h₂
      exact .of_tokenless (by simp)
  | livez => exact .of_tokenless (by simp)
  | readyz =>
    refine Prog.wp_of_path fun cs resp hp => ?_
    obtain ⟨_, _, _, -, -, h₁⟩ := hp.bind_ret_inv
    obtain ⟨_, _, _, -, -, h₂⟩ := h₁.bind_ret_inv
    obtain ⟨_, _, _, -, -, h₃⟩ := h₂.bind_ret_inv
    obtain ⟨-, he⟩ := h₃.ret_inv
    cases he
    exact .of_tokenless (by simp)

end Subject

/-! ## Runs -/

section Runs

variable {ι : Type} [DecidableEq ι] {env : Env} {libs : Libs} {adm : ι → Admission}
  {req : ι → Request} {s : JwkService} {tr : Events ι} {P P' : Pool svc World ι HttpResponse}

theorem Stored.append {c : Credential} {h : Calls} (hs : Stored c h) (cs : Calls) :
    Stored c (h ++ cs) :=
  Adds.stored (E := fun _ => true) ⟨cs, rfl, fun _ _ => rfl⟩ hs

/-- What was added to a group: an access token to the group of its subject, or
a token to the group of its family. -/
theorem AddedBy.origin (ht : libs.json.Faithful)
    (hr : (service s).Run (start env libs adm req) tr P) {j : ι} {g m : String}
    (ha : AddedBy g m (callsOf j tr)) :
    (∃ sub, g = subjectGroup sub ∧ Stored (.access m) (callsOf j tr) ∧
        subjectOf libs.json (req j) (callsOf j tr) = some sub) ∨
      ∃ f c, g = familyGroup f ∧ m = c.key ∧ Stored c (callsOf j tr) ∧
        familyOf libs.json (req j) (callsOf j tr) = some f := by
  obtain ⟨score, x, hx, he⟩ := ha
  obtain ⟨cs₁, cs₂, hsplit⟩ := List.append_of_mem hx
  have hpath := hr.path j
  have hd := (hpath.wp (serve_disciplined env libs ht (adm j) (req j))).2 cs₁ x cs₂ hsplit
  have hc := (hpath.wp (serve_confined (adm j) (req j))).2 cs₁ x cs₂ hsplit
  rw [List.nil_append, he] at hd hc
  rw [hsplit]
  rcases hd with ⟨sub, rfl, hs⟩ | ⟨f, c, rfl, hm, hs⟩
  · rcases hc with ⟨sub', hg, hsub⟩ | ⟨f, hg, -⟩
    · rw [← subjectGroup_inj hg] at hsub
      exact .inl ⟨sub, rfl, hs.append _, subjectOf_append hsub _⟩
    · exact absurd hg (subject_ne_family _ _)
  · rcases hc with ⟨sub', hg, -⟩ | ⟨f', hg, hfam⟩
    · exact absurd hg.symm (subject_ne_family _ _)
    · rw [← familyGroup_inj hg] at hfam
      exact .inr ⟨f, c, rfl, hm, hs.append _, familyOf_append hfam _⟩

/-- A command that writes the keys it removes, or the reservation of a code. -/
def RemovesOrClaims : Eff → Prop
  | .redis c => c.writes = c.removes ∨ ∃ hash, c.writes = [totpCodeKey hash]
  | _ => True

/-- A bulk revocation writes no key but those it removes, and the reservation
of its code. -/
theorem revokeSubject_writes (a : Admission) (sub : String) :
    Prog.wp (fun _ e => RemovesOrClaims e) []
      (serve env libs (redisClient libs.json) a (.revokeSubjectTokens sub)) fun _ _ => True := by
  have hquiet : ∀ {α : Type} {p : M α}, Quiet p → @Prog.Only svc α RemovesOrClaims p :=
    fun hp => Prog.Only.mono (fun e he => by cases e <;> trivial) hp
  have hrun : ∀ {c : Cmd}, c.writes = c.removes →
      @Prog.Only svc _ RemovesOrClaims (RedisClient.run c) :=
    fun hc => Prog.only_mapError (p := call (.redis _)) ⟨.inl hc, fun _ => trivial⟩
  refine wp_serve (I := fun _ => True) a _ trivial
    (fun _ hash _ _ _ => ⟨.inr ⟨hash, rfl⟩, fun _ => trivial⟩) (fun _ _ _ _ _ _ _ => ⟨trivial, trivial⟩)
    fun h _ => Prog.Only.wp (E := RemovesOrClaims) ?_ (fun _ _ _ he => he) fun _ _ _ => trivial
  refine Prog.only_bind (Prog.only_tryBind (Prog.only_liftE ?_) fun r => ?_) fun r => ?_
  · -- The four commands of `revoke_group`.
    refine Prog.only_tryBind (hquiet (quiet_call _ rfl)) fun now => ?_
    refine Prog.only_tryBind (hrun rfl) fun _ => ?_
    refine Prog.only_tryBind (hrun rfl) fun ms => ?_
    refine Prog.only_tryBind ?_ fun _ => ?_
    · show Prog.Only _ (ite _ _ _)
      split
      · trivial
      · exact hrun rfl
    · exact Prog.only_tryBind (hrun rfl) fun _ => Prog.only_pure_ok _
  · cases r with
    | error e => trivial
    | ok n =>
      exact Prog.only_tryBind (hquiet (quiet_recordRevoked n)) fun _ => trivial
  · cases r <;> trivial

/-- What a request may delete with the group of a subject: tokens of that
subject. -/
theorem Cleared.subject (ht : libs.json.Faithful)
    (hr : (service s).Run (start env libs adm req) tr P) {i : ι} {sub k : String}
    (hk : Cleared (subjectGroup sub) (callsOf i tr) k) : k = subjectGroup sub ∨
      ∃ j, Stored (.access k) (callsOf j tr) ∧
        subjectOf libs.json (req j) (callsOf j tr) = some sub := by
  rcases hk with hk | ⟨ms, hm, hk⟩
  · exact .inl hk
  · obtain ⟨j, ha⟩ := (listed_empty.run hr).told i _ ms hm k hk
    rcases ha.origin ht hr with ⟨sub', hg, hs, hsub⟩ | ⟨f, c, hg, -⟩
    · rw [← subjectGroup_inj hg] at hsub
      exact .inr ⟨j, hs, hsub⟩
    · exact absurd hg (subject_ne_family _ _)

/-- What a request may delete with the group of a family: tokens of that
family. -/
theorem Cleared.family (ht : libs.json.Faithful)
    (hr : (service s).Run (start env libs adm req) tr P) {i : ι} {f k : String}
    (hk : Cleared (familyGroup f) (callsOf i tr) k) : k = familyGroup f ∨
      ∃ j c, k = c.key ∧ Stored c (callsOf j tr) ∧
        familyOf libs.json (req j) (callsOf j tr) = some f := by
  rcases hk with hk | ⟨ms, hm, hk⟩
  · exact .inl hk
  · obtain ⟨j, ha⟩ := (listed_empty.run hr).told i _ ms hm k hk
    rcases ha.origin ht hr with ⟨sub, hg, -⟩ | ⟨f', c, hg, hc, hs, hfam⟩
    · exact absurd hg.symm (subject_ne_family _ _)
    · rw [← familyGroup_inj hg] at hfam
      exact .inr ⟨j, c, hc, hs, hfam⟩

/-- A key that a call of a bulk revocation may change. -/
theorem revokeSubject_changes (ht : libs.json.Faithful)
    (hr : (service s).Run (start env libs adm req) tr P) {i : ι} {x : Call svc}
    (hs : (service s).Step P (.call i x) P') {sub : String}
    (hi : req i = .revokeSubjectTokens sub) {k : String} (hk : P'.st.db k ≠ P.st.db k) :
    (∃ hash, k = totpCodeKey hash) ∨ k = subjectGroup sub ∨
      ∃ j, Stored (.access k) (callsOf j tr) ∧
        subjectOf libs.json (req j) (callsOf j tr) = some sub := by
  cases hs with
  | @call _ e _ r w' hp hc =>
    have hpath := hr.path i
    rw [hp] at hpath
    have hwrites := @revokeSubject_writes env libs (adm i) sub
    rw [← hi] at hwrites
    have hw := hpath.wp_call hwrites
    have hconf := hpath.wp_call (serve_confined (adm i) (req i))
    have hmem : ∃ c, e = .redis c ∧ k ∈ c.writes := by
      by_contra hn
      exact hk (call_of_not_writes hc fun c he hm => hn ⟨c, he, hm⟩)
    obtain ⟨c, rfl, hm⟩ := hmem
    rcases hw with hw | ⟨hash, hw⟩
    · rw [hw] at hm
      have hrem := hconf.removes k hm
      rw [hi] at hrem
      exact .inr (Cleared.subject ht hr hrem)
    · rw [hw] at hm
      exact .inl ⟨hash, List.mem_singleton.mp hm⟩

/-- A call of a bulk revocation of `sub` changes no refresh record, no index of
another subject, and no key of an access token that was issued for another
subject, handed out already or not. What a call of an exchange deletes is the
index of the family of its refresh token, or a token that was issued in this
family. -/
theorem revocations_isolated (ht : libs.json.Faithful)
    (hr : (service s).Run (start env libs adm req) tr P) {i : ι} {x : Call svc}
    (hs : (service s).Step P (.call i x) P') :
    (∀ sub, req i = .revokeSubjectTokens sub →
      (∀ id, P'.st.db (refreshKey id) = P.st.db (refreshKey id)) ∧
      (∀ sub', sub' ≠ sub → P'.st.db (subjectGroup sub') = P.st.db (subjectGroup sub')) ∧
      (∀ j jti sub', Stored (.access jti) (callsOf j tr) →
        subjectOf libs.json (req j) (callsOf j tr) = some sub' → sub' ≠ sub →
          P'.st.db jti = P.st.db jti) ∧
      ∀ j status token refresh c, P.prog j = .ret ⟨status, .token token refresh⟩ →
        JwtManager.claimsSegmentOf libs token = .ok c → c.sub ≠ sub →
          P'.st.db c.jti = P.st.db c.jti) ∧
    ∀ host token, req i = .refreshToken host token → ∀ d, x.eff = .redis d → ∀ k ∈ d.removes,
      ∃ f, familyOf libs.json (req i) (callsOf i tr) = some f ∧
        (k = familyGroup f ∨ ∃ j c, k = c.key ∧ Stored c (callsOf j tr) ∧
          familyOf libs.json (req j) (callsOf j tr) = some f) := by
  have hrun := (start_running ht).run hr
  have hco : Coherent tr P.st := hrun.coherent
  refine ⟨fun sub hi => ?_, fun host token hi d hd k hk => ?_⟩
  · have huuid : ∀ {j jti}, Stored (.access jti) (callsOf j tr) → Text.isUuid jti = true :=
      fun hst => (hco.drawn _ _ hst.1).1
    have htoken : ∀ j jti sub', Stored (.access jti) (callsOf j tr) →
        subjectOf libs.json (req j) (callsOf j tr) = some sub' → sub' ≠ sub →
          P'.st.db jti = P.st.db jti := by
      intro j jti sub' hst hsub hne
      by_contra hk
      rcases revokeSubject_changes ht hr hs hi hk with ⟨hash, rfl⟩ | rfl | ⟨j', hst', hsub'⟩
      · exact absurd (huuid hst) (by rw [not_uuid_totp]; exact Bool.false_ne_true)
      · exact absurd rfl (subject_ne_uuid (huuid hst) sub)
      · -- Only one request has drawn the `jti`.
        rw [← hco.owner j j' jti hst.1 hst'.1, hsub] at hsub'
        exact hne (Option.some.inj hsub')
    refine ⟨fun id => ?_, fun sub' hne => ?_, htoken, fun j status token refresh c hp hc hne => ?_⟩
    · by_contra hk
      rcases revokeSubject_changes ht hr hs hi hk with ⟨hash, he⟩ | he | ⟨j', hst', -⟩
      · exact refresh_ne_totp id hash he
      · exact subject_ne_refresh sub id he.symm
      · exact refresh_ne_uuid (huuid hst') id rfl
    · by_contra hk
      rcases revokeSubject_changes ht hr hs hi hk with ⟨hash, he⟩ | he | ⟨j', hst', -⟩
      · exact subject_ne_totp sub' hash he
      · exact hne (subjectGroup_inj he)
      · exact subject_ne_uuid (huuid hst') sub' rfl
    · -- A token that was handed out was stored by its request, for its `sub`.
      have hpath := hr.path j
      rw [hp] at hpath
      obtain ⟨c₁, hc₁, hst⟩ := hpath.wp_ret (serve_disciplined env libs ht (adm j) (req j)) _ _ rfl
      obtain ⟨c₂, hc₂, hsub⟩ := hpath.wp_ret (handed_out_subject ht (adm j) (req j)) _ _ rfl
      rw [hc] at hc₁ hc₂
      cases hc₁
      cases hc₂
      exact htoken j c.jti c.sub hst hsub hne
  · cases hs with
    | @call _ e _ r w' hp hc =>
      have hpath := hr.path i
      rw [hp] at hpath
      have hconf := hpath.wp_call (serve_confined (adm i) (req i))
      rw [show e = .redis d from hd] at hconf
      have hrem := hconf.removes k hk
      rw [hi] at hrem ⊢
      obtain ⟨f, hf, hcl⟩ := hrem
      exact ⟨f, hf, Cleared.family ht hr hcl⟩

end Runs

/-- An issue for a user (`false`) and a revocation of another (`true`). -/
def issueAndRevokeOther : Bool → Request
  | false => .createToken (.text "host") ⟨"user", ["api"], some 60, false, []⟩
  | true => .revokeSubjectTokens "other"

/-- The index of the other is deleted, and the token of the user stays. -/
theorem revocations_isolated_other : ∃ (tr : Events Bool) (P P' : Pool svc World Bool HttpResponse)
    (r : Except Redis.Err Unit), (service ⟨300000, 10000, 10000⟩).Run
        (start bareEnv echoLibs (fun _ => admitted) issueAndRevokeOther) tr P ∧
      (service ⟨300000, 10000, 10000⟩).Step P
        (.call true ⟨.redis (.del [subjectGroup "other"]), r⟩) P' ∧
      (P.st.db uuidA).isSome = true ∧ P'.st.db uuidA = P.st.db uuidA := by
  let s : JwkService := ⟨300000, 10000, 10000⟩
  obtain ⟨access, x, hc, hissue⟩ := @echo_createToken s World.empty sound_empty "user" 60 uuidA
    ⟨by decide, by exact nofun⟩ (by decide) (by decide) (by decide)
  obtain ⟨t₁, h₁, -⟩ := System.Run.of_eval (S := service s) (i := false)
    (P := start bareEnv echoLibs (fun _ => admitted) issueAndRevokeOther)
    (Prog.Eval.mono faultless_service hissue)
  let w₁ := ({ World.empty with keyId := echoKey.id }.draw uuidA).setDb
    (issueDb World.empty.db World.empty.now "user" uuidA 60)
  let P₁ : Pool svc World Bool HttpResponse := ⟨w₁, Function.update
    (start bareEnv echoLibs (fun _ => admitted) issueAndRevokeOther).prog false
    (.ret ⟨200, .token access none⟩)⟩
  -- The revocation up to its last command, and that command.
  obtain ⟨t₂, P, P', h₂, h₃, hprog, hkey⟩ : ∃ t₂ P P',
      System.play (World.act s) (fun w d => some (w.tick d)) (fun _ _ => true)
        [.call true .plain, .call true (.redis .answered), .call true (.redis .answered)] P₁ =
          some (t₂, P) ∧
      System.playStep (World.act s) (fun w d => some (w.tick d)) P (.call true (.redis .answered)) =
        some (.call true ⟨.redis (.del [subjectGroup "other"]), .ok ()⟩, P') ∧
      P.prog false = .ret ⟨200, .token access none⟩ ∧ (P.st.db uuidA).isSome = true :=
    ⟨_, _, _, rfl, rfl, rfl, rfl⟩
  have hrun₂ : (service s).RunWhere (fun _ _ _ => True) [] P₁ t₂ P :=
    System.play_run (fun _ _ c _ _ h => ⟨c, h⟩) (fun _ _ _ h => (Option.some.inj h).symm)
      (fun _ _ _ _ => trivial) h₂
  have hstep : (service s).Step P (.call true ⟨.redis (.del [subjectGroup "other"]), .ok ()⟩) P' := by
    refine System.playStep_step (S := service s) (fun w e c r w' h => ?_) (fun _ _ _ h => ?_) h₃
    · exact ⟨c, h⟩
    · exact (Option.some.inj h).symm
  have hrun := h₁.trans hrun₂.run
  obtain ⟨-, -, -, h⟩ := (revocations_isolated echo_faithful hrun hstep).1 "other" rfl
  exact ⟨_, P, P', .ok (), hrun, hstep, hkey, h false 200 access none _ hprog hc
    (show "user" ≠ "other" by decide)⟩

end JwtService

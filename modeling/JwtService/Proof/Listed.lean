import JwtService.Proof.Revocation

/-!
# Who is listed in a group

What a revocation deletes it has read from a group, so what it may delete is
decided by who adds to the group. `Listed` says that of every member of a
group, and of every member a request was told of, some request has added it;
it holds after any run, whatever the requests do. `Confined` says what a
request does with the groups: it adds only to the group of its own subject and
to the group of its own family, and what it deletes is the key it was given,
the group it revokes, or what it was told is in that group.

Together they keep revocations apart (`revocations_isolated`).
-/

namespace JwtService

open Interaction Redis

/-! ## Members -/

section Members

variable {ι : Type} [DecidableEq ι] {h : Events ι} {w w' : World} {s : JwkService} {i : ι}

/-- A request has added the member to the group. -/
def AddedBy (g m : String) (cs : Calls) : Prop := ∃ score, ∃ x ∈ cs, x.eff = .redis (.zadd g m score)

/-- Every member of a group was added by a request, and so was every member a
request was told of. -/
structure Listed (h : Events ι) (w : World) : Prop where
  member : ∀ g, ∀ x ∈ w.db.members w.now g, ∃ j, AddedBy g x.1 (callsOf j h)
  told : ∀ i g (ms : List String), (⟨.redis (.zrange g), .ok ms⟩ : Call svc) ∈ callsOf i h →
    ∀ m ∈ ms, ∃ j, AddedBy g m (callsOf j h)

theorem AddedBy.append {g m : String} {cs : Calls} (ha : AddedBy g m cs) (ds : Calls) :
    AddedBy g m (cs ++ ds) := by
  obtain ⟨score, x, hx, he⟩ := ha
  exact ⟨score, x, List.mem_append_left _ hx, he⟩

theorem AddedBy.event {g m : String} {j : ι} (ha : AddedBy g m (callsOf j h))
    (ev : Event svc ι Nat) : AddedBy g m (callsOf j (h ++ [ev])) := by
  rw [callsOf_append]
  exact ha.append _

theorem members_told {g : String} {r : Except Redis.Err (List String)} {ms : List String}
    (hs : (service s).call w (.redis (.zrange g)) r w') (hr : r = .ok ms) {m : String} (hm : m ∈ ms) :
    ∃ x ∈ w.db.members w.now g, x.1 = m := by
  subst hr
  rcases call_redis hs with ⟨-, e, he⟩ | ⟨-, he | ⟨e, he⟩⟩
  · cases he
  · simp only [Redis.exec] at he
    split at he
    · cases he
      cases hm
    · rename_i hg
      cases he
      rw [Db.members_of_get hg]
      simpa using hm
    · cases he
  · cases he

/-- A member of a group after a call was there before, or has just been added. -/
theorem mem_members_call {e : Eff} {r : e.Reply} (hs : (service s).call w e r w') {g : String}
    {x : String × Int} (hx : x ∈ w'.db.members w'.now g) :
    x ∈ w.db.members w.now g ∨ e = .redis (.zadd g x.1 x.2) := by
  rw [call_now hs] at hx
  cases hq : e.quiet with
  | true =>
    rw [(call_quiet hq hs).1] at hx
    exact .inl hx
  | false =>
    cases e with
    | newUuid =>
      obtain ⟨-, -, rfl⟩ := call_newUuid hs
      exact .inl hx
    | redis c =>
      rcases call_redis hs with ⟨rfl, -⟩ | ⟨rfl, -⟩
      · exact .inl hx
      · rcases mem_members_exec hx with hx | rfl
        · exact .inl hx
        · exact .inr rfl
    | _ => cases hq

theorem Listed.step (hl : Listed h w) {e : Eff} {r : e.Reply} (hs : (service s).call w e r w') :
    Listed (h ++ [.call i ⟨e, r⟩]) w' := by
  have hold : ∀ g m, (∃ j, AddedBy g m (callsOf j h)) →
      ∃ j, AddedBy g m (callsOf j (h ++ [.call i ⟨e, r⟩])) := fun g m ⟨j, ha⟩ => ⟨j, ha.event _⟩
  refine ⟨fun g x hx => ?_, fun j g ms hm m hmem => ?_⟩
  · rcases mem_members_call hs hx with hx | rfl
    · exact hold _ _ (hl.member g x hx)
    · exact ⟨i, x.2, ⟨_, r⟩, mem_callsOf_snoc.mpr (.inr ⟨rfl, rfl⟩), rfl⟩
  · rcases mem_callsOf_snoc.mp hm with hm | ⟨-, he⟩
    · exact hold _ _ (hl.told j g ms hm m hmem)
    · cases he
      obtain ⟨x, hx, rfl⟩ := members_told hs rfl hmem
      exact hold _ _ (hl.member g x hx)

theorem Listed.env (hl : Listed h w) {l : Nat} : Listed (h ++ [.env l]) (w.tick l) := by
  refine ⟨fun g x hx => ?_, fun i g ms hm m hmem => ?_⟩
  · obtain ⟨j, ha⟩ := hl.member g x (Db.mem_members_of_later (Nat.le_add_right _ _) hx)
    exact ⟨j, ha.event _⟩
  · rw [callsOf_append, callsOf_env, callsOf_nil, List.append_nil] at hm
    obtain ⟨j, ha⟩ := hl.told i g ms hm m hmem
    exact ⟨j, ha.event _⟩

theorem Listed.run {α : Type} {P P' : Pool svc World ι α} {tr : Events ι} (hl : Listed h P.st)
    (hr : (service s).Run P tr P') : Listed (h ++ tr) P'.st := by
  have hw : ∀ i, Prog.wp (fun _ _ => True) (callsOf i h) (P.prog i) fun _ _ => True :=
    fun i => Prog.wp_of_path fun _ _ _ => trivial
  exact hr.inv (I := Listed) (fun _ _ _ _ _ _ hl _ hs => hl.step hs)
    (fun _ _ _ _ hl hs => by cases hs; exact hl.env) hw hl

theorem listed_empty : Listed ([] : Events ι) World.empty := ⟨by simp [Db.members, Db.get, World.empty], nofun⟩

end Members

/-! ## What a request does with the groups -/

/-- The record an exchange has read. -/
def recordRead (t : JsonText) (h : Calls) : Option RefreshRecord :=
  h.findSome? fun
    | ⟨.redis (.hgetAll _), .ok fs⟩ => RedisClient.recordOfFields t fs
    | _ => none

/-- The first UUID a request drew. -/
def firstDrawn (h : Calls) : Option String :=
  h.findSome? fun
    | ⟨.newUuid, u⟩ => some u
    | _ => none

/-- The subject a request issues tokens for. -/
def subjectOf (t : JsonText) : Request → Calls → Option String
  | .createToken _ req, _ => some req.sub
  | .refreshToken .., h => (recordRead t h).map RefreshRecord.subject
  | _, _ => none

/-- The family a request issues tokens in: a new one, or that of the record. -/
def familyOf (t : JsonText) : Request → Calls → Option String
  | .createToken _ req, h => if req.refresh then firstDrawn h else none
  | .refreshToken .., h => (recordRead t h).map RefreshRecord.family
  | _, _ => none

/-- The key is the group, or the request was told that it is in it. -/
def Cleared (g : String) (h : Calls) (k : String) : Prop :=
  k = g ∨ ∃ ms : List String, (⟨.redis (.zrange g), .ok ms⟩ : Call svc) ∈ h ∧ k ∈ ms

/-- A key the request may delete. -/
def Removes (t : JsonText) (rq : Request) (h : Calls) (k : String) : Prop :=
  match rq with
  | .revokeToken jti => k = jti
  | .revokeSubjectTokens sub => Cleared (subjectGroup sub) h k
  | .refreshToken .. => ∃ f, familyOf t rq h = some f ∧ Cleared (familyGroup f) h k
  | _ => False

/-- What a request keeps to with groups, deletions and reservations, after the
calls `h`. -/
def Confined (t : JsonText) (a : Admission) (rq : Request) (h : Calls) : Eff → Prop
  | .redis (.setNxEx k _ ttl) => ∃ hash, a.replayClaim = some (hash, ttl) ∧ k = totpCodeKey hash
  | .redis (.zadd g _ _) => (∃ sub, g = subjectGroup sub ∧ subjectOf t rq h = some sub) ∨
      ∃ f, g = familyGroup f ∧ familyOf t rq h = some f
  | .redis (.expireAt k _) => (∃ sub, k = subjectGroup sub) ∨ ∃ f, k = familyGroup f
  | .redis c => ∀ k ∈ c.removes, Removes t rq h k
  | _ => True

section Confined

variable {t : JsonText} {a : Admission} {rq : Request} {h h' : Calls} {α : Type}

theorem findSome_append {β : Type} {p : Call svc → Option β} {b : β} (hb : h.findSome? p = some b)
    (cs : Calls) : (h ++ cs).findSome? p = some b := by
  rw [List.findSome?_append, hb]
  rfl

theorem subjectOf_append {sub : String} (hs : subjectOf t rq h = some sub) (cs : Calls) :
    subjectOf t rq (h ++ cs) = some sub := by
  cases rq with
  | createToken host req => exact hs
  | refreshToken host token =>
    obtain ⟨record, hr, rfl⟩ := Option.map_eq_some_iff.mp hs
    exact Option.map_eq_some_iff.mpr ⟨record, findSome_append hr cs, rfl⟩
  | _ => cases hs

theorem familyOf_append {f : String} (hf : familyOf t rq h = some f) (cs : Calls) :
    familyOf t rq (h ++ cs) = some f := by
  cases rq with
  | createToken host req =>
    obtain ⟨hr, hf⟩ := Option.ite_none_right_eq_some.mp hf
    exact Option.ite_none_right_eq_some.mpr ⟨hr, findSome_append hf cs⟩
  | refreshToken host token =>
    obtain ⟨record, hr, rfl⟩ := Option.map_eq_some_iff.mp hf
    exact Option.map_eq_some_iff.mpr ⟨record, findSome_append hr cs, rfl⟩
  | _ => cases hf

theorem Confined.removes {d : Cmd} (hc : Confined t a rq h (.redis d)) :
    ∀ k ∈ d.removes, Removes t rq h k := by
  cases d with
  | zadd | expireAt | setNxEx => exact nofun
  | _ => exact hc

/-- A call that reserves and deletes nothing and adds to the group of `sub`
only. -/
def Mild (sub : Option String) : Eff → Prop
  | .redis (.setNxEx ..) => False
  | .redis (.zadd g _ _) => ∃ s, g = subjectGroup s ∧ sub = some s
  | .redis (.expireAt k _) => (∃ s, k = subjectGroup s) ∨ ∃ f, k = familyGroup f
  | .redis c => c.removes = []
  | _ => True

theorem Mild.confined {sub : Option String} {e : Eff} (he : Mild sub e)
    (hs : ∀ s, sub = some s → subjectOf t rq h = some s) : Confined t a rq h e := by
  cases e with
  | redis c =>
    cases c with
    | zadd g m score =>
      obtain ⟨s, hg, hsub⟩ := he
      exact .inl ⟨s, hg, hs s hsub⟩
    | expireAt k ts => exact he
    | setNxEx k v ttl => exact he.elim
    | _ => exact fun k hk => absurd hk (by rw [show Cmd.removes _ = [] from he]; exact List.not_mem_nil)
  | _ => trivial

/-- A program that makes mild calls only. -/
abbrev MildOnly {α : Type} (sub : Option String) (p : M α) : Prop := @Prog.Only svc α (Mild sub) p

theorem Quiet.mild {p : M α} (hp : Quiet p) (sub : Option String) : MildOnly sub p :=
  Prog.Only.mono (fun e he => by cases e <;> trivial) hp

theorem Reads.mild {p : M α} (hp : Reads p) (sub : Option String) : MildOnly sub p := by
  refine Prog.Only.mono (fun e he => ?_) hp
  cases e with
  | redis c =>
    cases c with
    | del ks => exact List.eq_nil_iff_forall_not_mem.mpr fun k hk => he _ rfl k hk
    | ping | «exists» | zrange | hgetAll => rfl
    | _ => exact (he _ rfl _ (List.mem_singleton.mpr rfl)).elim
  | _ => trivial

/-- Mild calls are confined, and only add to the calls. -/
theorem mild_ok {sub : Option String} {p : M α} (hp : MildOnly sub p)
    (hs : ∀ s, sub = some s → subjectOf t rq h = some s) :
    Prog.wp (Confined t a rq) h p fun h' _ => h <+: h' :=
  Prog.Only.wp hp (fun _ _ _ he => he.confined fun s hsub => subjectOf_append (hs s hsub) _)
    fun cs _ _ => List.prefix_append h cs

theorem mild_createNew {env : Env} (issuer subject : String) (audience : List String)
    (ttl : Option Nat) (extra : List (String × Json)) : MildOnly (some subject)
      (TokenClaims.createNew env t (redisClient t) issuer subject audience ttl extra) := by
  apply only_createNew
  · exact fun e he _ => by cases e <;> trivial
  · trivial
  · exact fun _ _ => rfl
  · exact fun _ _ => ⟨_, rfl, rfl⟩
  · exact fun _ _ _ _ _ => .inl ⟨_, rfl⟩
  · exact fun _ => rfl

theorem mild_generateToken {env : Env} {libs : Libs} (issuer subject : String)
    (audience : List String) (ttl : Option Nat) (extra : List (String × Json)) :
    MildOnly (some subject) (JwtManager.generateToken env libs (redisClient libs.json) issuer subject
      audience ttl extra) :=
  only_generateToken (fun e he _ => by cases e <;> trivial)
    (mild_createNew issuer subject audience ttl extra)

/-- Adding to the group of the family. -/
theorem addToFamily_ok {f m : String} (score : Int) (hf : familyOf t rq h = some f) :
    Prog.wp (Confined t a rq) h (RedisClient.addToGroup (familyGroup f) m score)
      fun h' _ => h <+: h' := by
  simp only [RedisClient.addToGroup, Prog.wp_tryBind, wp_run]
  refine ⟨.inr ⟨f, rfl, hf⟩, fun _ => ⟨.inr ⟨f, rfl⟩, fun _ => ?_, fun _ => ?_⟩, fun _ => ?_⟩
  · rw [List.append_assoc]; exact List.prefix_append _ _
  · rw [List.append_assoc]; exact List.prefix_append _ _
  · exact List.prefix_append _ _

theorem registerAccess_confined {libs : Libs} {access f : String}
    (hf : familyOf libs.json rq h = some f) :
    Prog.wp (Confined libs.json a rq) h
      (JwtManager.registerAccessInFamily libs (redisClient libs.json) access f)
      fun h' _ => h <+: h' := by
  simp only [JwtManager.registerAccessInFamily, Prog.wp_tryBind, Prog.wp_ofExcept, orStoreError,
    Prog.wp_mapError, redisClient]
  cases JwtManager.claimsSegmentOf libs access with
  | error e => exact List.prefix_rfl
  | ok claims =>
    refine Prog.wp_imp (addToFamily_ok _ hf) fun h₁ r hp => ?_
    cases r <;> exact hp

theorem issueRefresh_confined {env : Env} {subject f : String} {audience : List String}
    (hf : familyOf t rq h = some f) :
    Prog.wp (Confined t a rq) h (JwtManager.issueRefresh env (redisClient t) subject audience f)
      fun _ _ => True := by
  simp only [JwtManager.issueRefresh, Prog.wp_tryBind, wp_callE, orStoreError, Prog.wp_mapError,
    redisClient, RedisClient.storeRefresh]
  refine ⟨trivial, fun id => ?_⟩
  split
  · trivial
  · simp only [Prog.wp_tryBind, wp_run]
    refine ⟨nofun, fun _ => ⟨nofun, fun _ => ⟨trivial, fun now => ?_⟩, fun _ => trivial⟩,
      fun _ => trivial⟩
    refine Prog.wp_imp (addToFamily_ok _ (familyOf_append (familyOf_append (familyOf_append
      (familyOf_append hf _) _) _) _)) fun _ r _ => ?_
    cases r <;> trivial

theorem issuePair_confined {env : Env} {libs : Libs} {issuer subject f : String}
    {audience : List String} {ttl : Option Nat} {extra : List (String × Json)}
    (hs : subjectOf libs.json rq h = some subject) (hf : familyOf libs.json rq h = some f) :
    Prog.wp (Confined libs.json a rq) h (issuePair env libs issuer subject audience ttl extra f)
      fun _ _ => True := by
  rw [issuePair, Prog.wp_tryBind]
  refine Prog.wp_imp (mild_ok (mild_generateToken issuer subject audience ttl extra)
    fun s e => by cases e; exact hs) fun h₁ r hp => ?_
  obtain ⟨cs, rfl⟩ := hp
  cases r with
  | error e => trivial
  | ok access =>
    simp only [Prog.wp_tryBind]
    refine Prog.wp_imp (registerAccess_confined (familyOf_append hf cs)) fun h₂ r hp => ?_
    obtain ⟨ds, rfl⟩ := hp
    cases r with
    | error e => trivial
    | ok _ =>
      refine Prog.wp_imp (issueRefresh_confined (familyOf_append (familyOf_append hf cs) ds))
        fun _ r _ => ?_
      cases r <;> trivial

theorem deleteMembers_confined {ms : List String} (hm : ∀ k ∈ ms, Removes t rq h k) :
    Prog.wp (Confined t a rq) h (RedisClient.deleteMembers ms) fun h' _ => h <+: h' := by
  show Prog.wp _ _ (ite _ _ _) _
  split
  · exact List.prefix_rfl
  · simp only [wp_run]
    exact ⟨hm, fun _ => List.prefix_append _ _, fun _ => List.prefix_append _ _⟩

/-- A revocation deletes the group and what it was told is in it. -/
theorem revokeGroup_confined {g : String}
    (hg : ∀ cs k, Cleared g (h ++ cs) k → Removes t rq (h ++ cs) k) :
    Prog.wp (Confined t a rq) h (RedisClient.revokeGroup g) fun h' _ => h <+: h' := by
  have hgroup : ∀ cs, ∀ k ∈ [g], Removes t rq (h ++ cs) k :=
    fun cs k hk => hg cs k (.inl (List.mem_singleton.mp hk))
  have hpre : ∀ cs, h <+: h ++ cs := List.prefix_append h
  simp only [RedisClient.revokeGroup, Prog.wp_tryBind, wp_callE, wp_run, List.append_assoc]
  refine ⟨trivial, fun now => ⟨hgroup _, fun _ => ⟨fun _ hk => absurd hk List.not_mem_nil, fun ms => ?_,
    fun _ => hpre _⟩, fun _ => hpre _⟩⟩
  refine Prog.wp_imp (deleteMembers_confined fun k hk => hg _ k (.inr ⟨ms, by simp, hk⟩))
    fun h₁ r hp => ?_
  obtain ⟨cs, rfl⟩ := hp
  simp only [List.append_assoc]
  cases r with
  | error e => exact hpre _
  | ok _ => exact ⟨hgroup _, fun _ => hpre _, fun _ => hpre _⟩

end Confined

/-! ## Every request -/

section Requests

variable {env : Env} {libs : Libs} {a : Admission} {h : Calls} {α : Type}

/-- No UUID was drawn and no record read so far. -/
def Blank (h : Calls) : Prop := ∀ t, firstDrawn h = none ∧ recordRead t h = none

/-- A reservation leaves a request blank. -/
theorem Blank.claim (hb : Blank h) {k v : String} {ttl : Nat} {r : Except Redis.Err Bool} :
    Blank (h ++ [⟨.redis (.setNxEx k v ttl), r⟩]) := fun t => by
  rw [firstDrawn, recordRead, List.findSome?_append, List.findSome?_append,
    show h.findSome? _ = none from (hb t).1, show h.findSome? _ = none from (hb t).2]
  exact ⟨rfl, rfl⟩

theorem firstDrawn_snoc (hb : Blank h) (u : String) :
    firstDrawn (h ++ [⟨.newUuid, u⟩]) = some u := by
  rw [firstDrawn, List.findSome?_append, show h.findSome? _ = none from (hb .compact).1]
  rfl

theorem recordRead_snoc {t : JsonText} {k : String} {fields : List (String × String)}
    {record : RefreshRecord} (hb : Blank h) (hr : RedisClient.recordOfFields t fields = some record) :
    recordRead t (h ++ [⟨.redis (.hgetAll k), .ok fields⟩]) = some record := by
  rw [recordRead, List.findSome?_append, show h.findSome? _ = none from (hb t).2]
  simp only [List.findSome?_cons, hr, Option.none_or]

theorem createToken_confined {host : HostHeader} {req : TokenRequest} (hb : Blank h) :
    Prog.wp (Confined libs.json a (.createToken host req)) h
      (createToken env libs (redisClient libs.json) host req) fun _ _ => True := by
  simp only [createToken, Prog.wp_tryBind, Prog.wp_ofExcept]
  cases issuerForIssuance env host with
  | error e => trivial
  | ok issuer =>
    have hi : Prog.wp (Confined libs.json a (.createToken host req)) h
        (issue env libs (redisClient libs.json) issuer req) fun _ _ => True := by
      cases hr : req.refresh with
      | true =>
        simp only [issue, hr, if_true, Prog.wp_tryBind]
        have hf : ∀ family, familyOf libs.json (.createToken host req) (h ++ [⟨.newUuid, family⟩]) =
            some family := fun family => by rw [familyOf, if_pos hr, firstDrawn_snoc hb]
        have hp : Prog.wp (Confined libs.json a (.createToken host req)) h
            (JwtManager.generateTokenPair env libs (redisClient libs.json) issuer req.sub req.aud
              req.ttl req.claims) fun _ _ => True := by
          rw [JwtManager.generateTokenPair, Prog.wp_tryBind, wp_callE]
          exact ⟨trivial, fun family => issuePair_confined rfl (hf family)⟩
        refine Prog.wp_imp hp fun _ r _ => ?_
        cases r <;> trivial
      | false =>
        simp only [issue, hr, Bool.false_eq_true, if_false, Prog.wp_tryBind]
        refine Prog.wp_imp (mild_ok (mild_generateToken issuer req.sub req.aud req.ttl req.claims)
          fun s e => by cases e; rfl) fun _ r _ => ?_
        cases r <;> trivial
    simp only [Prog.wp_liftE]
    refine Prog.wp_imp hi fun _ r _ => ?_
    rcases r with e | ⟨token, refresh⟩
    · cases e <;> trivial
    · exact ⟨trivial, fun _ => trivial⟩

theorem refreshToken_confined {host : HostHeader} {token : String} (hb : Blank h) :
    Prog.wp (Confined libs.json a (.refreshToken host token)) h
      (refreshToken env libs (redisClient libs.json) host token) fun _ _ => True := by
  simp only [refreshToken, Prog.wp_tryBind, Prog.wp_ofExcept]
  cases issuerForIssuance env host with
  | error e => trivial
  | ok issuer =>
    have hp : Prog.wp (Confined libs.json a (.refreshToken host token)) h
        (JwtManager.refreshTokenPair env libs (redisClient libs.json) token issuer)
        fun _ _ => True := by
      simp only [JwtManager.refreshTokenPair, Prog.wp_tryBind, orStoreError, Prog.wp_mapError,
        redisClient, RedisClient.getRefresh, wp_run]
      refine ⟨fun _ hk => absurd hk List.not_mem_nil, fun fields => ?_, fun e => trivial⟩
      by_cases hf : fields = []
      · rw [if_pos hf]; trivial
      · rw [if_neg hf]
        cases hr : RedisClient.recordOfFields libs.json fields with
        | none => trivial
        | some record =>
          have hread : ∀ cs, recordRead libs.json
              (h ++ [⟨.redis (.hgetAll (refreshKey token)), .ok fields⟩] ++ cs) = some record :=
            findSome_append (recordRead_snoc hb hr)
          have hsub : ∀ cs, subjectOf libs.json (.refreshToken host token)
              (h ++ [⟨.redis (.hgetAll (refreshKey token)), .ok fields⟩] ++ cs) =
                some record.subject := fun cs => by rw [subjectOf, hread]; rfl
          have hfam : ∀ cs, familyOf libs.json (.refreshToken host token)
              (h ++ [⟨.redis (.hgetAll (refreshKey token)), .ok fields⟩] ++ cs) =
                some record.family := fun cs => by rw [familyOf, hread]; rfl
          simp only [Prog.wp_pure_ok, Prog.wp_tryBind, Prog.wp_mapError,
            RedisClient.markRefreshUsed, wp_run]
          refine ⟨fun _ hk => absurd hk List.not_mem_nil, fun marked => ?_, fun e => trivial⟩
          cases marked with
          | true => exact issuePair_confined (hsub _) (hfam _)
          | false =>
            simp only [Prog.wp_tryBind, Prog.wp_mapError]
            refine Prog.wp_imp (revokeGroup_confined fun cs k hk => ?_) fun _ r _ => ?_
            · rw [List.append_assoc] at hk ⊢
              exact ⟨_, hfam _, hk⟩
            · cases r <;> trivial
    simp only [Prog.wp_liftE]
    refine Prog.wp_imp hp fun _ r _ => ?_
    rcases r with e | ⟨token, refresh⟩
    · cases e <;> trivial
    · exact ⟨trivial, fun _ => trivial⟩

theorem handle_confined (rq : Request) (hb : Blank h) :
    Prog.wp (Confined libs.json a rq) h (handle env libs (redisClient libs.json) rq)
      fun _ _ => True := by
  have hrespond : ∀ {p : ExceptT Error M HttpResponse}, Prog.wp (Confined libs.json a rq) h p
      (fun _ _ => True) → Prog.wp (Confined libs.json a rq) h (respond p) fun _ _ => True :=
    fun hp => (Prog.wp_bind h _ _).mpr (Prog.wp_imp hp fun _ r _ => by cases r <;> trivial)
  have hmild : ∀ {p : M HttpResponse}, MildOnly none p →
      Prog.wp (Confined libs.json a rq) h p fun _ _ => True :=
    fun hp => Prog.wp_imp (mild_ok hp nofun) fun _ _ _ => trivial
  cases rq with
  | createToken host req => exact hrespond (createToken_confined hb)
  | refreshToken host token => exact hrespond (refreshToken_confined hb)
  | verifyToken host req => exact hmild ((reads_verifyToken req).mild none)
  | revokeToken jti =>
    refine hrespond ?_
    simp only [revokeToken, Prog.wp_tryBind, Prog.wp_liftE, redisClient, RedisClient.deleteJti,
      wp_run]
    exact ⟨fun k hk => List.mem_singleton.mp hk, fun _ => ⟨trivial, fun _ => trivial⟩, fun _ => trivial⟩
  | revokeSubjectTokens sub =>
    refine hrespond ?_
    simp only [revokeSubjectTokens, Prog.wp_tryBind, Prog.wp_liftE, redisClient]
    refine Prog.wp_imp (revokeGroup_confined fun _ _ hk => hk) fun h₁ r _ => ?_
    cases r with
    | error e => trivial
    | ok n =>
      refine (Prog.wp_tryBind _ _).mpr (Prog.wp_imp (mild_ok ((quiet_recordRevoked n).mild none) nofun) fun _ r _ => ?_)
      cases r <;> trivial
  | livez => trivial
  | readyz => exact hmild ((reads_readyz libs.json).mild none)

/-- Every request keeps to its own groups. -/
theorem serve_confined (a : Admission) (rq : Request) :
    Prog.wp (Confined libs.json a rq) [] (serve env libs (redisClient libs.json) a rq)
      fun _ _ => True := by
  exact wp_serve (I := Blank) a rq (fun _ => ⟨rfl, rfl⟩) (fun h hash ttl hb he => ⟨⟨hash, he, rfl⟩, fun _ => hb.claim⟩)
    (fun _ _ _ _ _ _ _ => ⟨trivial, trivial⟩) fun h hb => handle_confined rq hb

end Requests

end JwtService

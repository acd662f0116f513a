import JwtService.Proof.Survivors
import JwtService.Proof.Winners

/-!
# What a request does with the index of a family

A request that hands out a pair has added both tokens to the index of a family,
each with its own moment, and has added nothing else to one (`serve_enrolled`).
A request that finds the mark of its refresh token adds nothing, and if it
answers that the token is not valid it has swept the family (`serve_killed`).
-/

namespace JwtService

open Interaction Redis

/-! ## What a pair adds to its family -/

/-- The calls add the two tokens of a pair to the index of the family, each with
its own moment, and nothing else to the index of a family. -/
structure Enrolled (env : Env) (f jti id : String) (exp rexp : Int) (h : Calls) : Prop where
  access : (⟨.redis (.zadd (familyGroup f) jti exp), .ok ()⟩ : Call svc) ∈ h
  refresh : (⟨.redis (.zadd (familyGroup f) (refreshKey id) rexp), .ok ()⟩ : Call svc) ∈ h
  adds : ∀ x ∈ h, ∀ f' m score, x.eff = .redis (.zadd (familyGroup f') m score) →
    (m, score) = (jti, exp) ∨ (m, score) = (refreshKey id, rexp)
  expires : ∀ x ∈ h, ∀ f' ts, x.eff = .redis (.expireAt (familyGroup f') ts) → ts = exp ∨ ts = rexp
  moment : ∃ now : Nat, (⟨.utcNow, now⟩ : Call svc) ∈ h ∧
    rexp = asI64 (asUsize (timestamp now + asI64 (refreshTtl env)))

/-- The index a call adds to, or sets the expiry of. -/
def Eff.extended : Eff → Option String
  | .redis (.zadd g _ _) | .redis (.expireAt g _) => some g
  | _ => none

/-- A call that adds to no index of a family, and does not set its expiry. -/
def Apart (e : Eff) : Prop := ∀ f, e.extended ≠ some (familyGroup f)

theorem apart_of_none {e : Eff} (he : e.extended = none) : Apart e := by
  intro f h
  rw [he] at h
  cases h

theorem apart_quiet {e : Eff} (he : e.quiet = true) : Apart e := by
  cases e with
  | redis c => cases he
  | _ => exact apart_of_none rfl

theorem Apart.not_zadd {e : Eff} (ha : Apart e) (f m : String) (score : Int) :
    e ≠ .redis (.zadd (familyGroup f) m score) := by
  rintro rfl
  exact ha f rfl

theorem Apart.not_expireAt {e : Eff} (ha : Apart e) (f : String) (ts : Int) :
    e ≠ .redis (.expireAt (familyGroup f) ts) := by
  rintro rfl
  exact ha f rfl

section Enrolled

variable {env : Env} {libs : Libs} {issuer subject family access id : String} {audience : List String}
  {ttl : Option Nat} {extra : List (String × Json)} {cs ds : Calls} {f jti : String} {exp rexp : Int}

theorem Enrolled.append (he : Enrolled env f jti id exp rexp cs) (hd : ∀ x ∈ ds, Apart x.eff) :
    Enrolled env f jti id exp rexp (cs ++ ds) where
  access := List.mem_append_left _ he.access
  refresh := List.mem_append_left _ he.refresh
  adds x hx f' m score hz := by
    rcases List.mem_append.mp hx with hx | hx
    · exact he.adds x hx f' m score hz
    · exact absurd hz ((hd x hx).not_zadd f' m score)
  expires x hx f' ts hz := by
    rcases List.mem_append.mp hx with hx | hx
    · exact he.expires x hx f' ts hz
    · exact absurd hz ((hd x hx).not_expireAt f' ts)
  moment := by
    obtain ⟨now, hn, hr⟩ := he.moment
    exact ⟨now, List.mem_append_left _ hn, hr⟩

theorem Enrolled.prepend (he : Enrolled env f jti id exp rexp cs) (hd : ∀ x ∈ ds, Apart x.eff) :
    Enrolled env f jti id exp rexp (ds ++ cs) where
  access := List.mem_append_right _ he.access
  refresh := List.mem_append_right _ he.refresh
  adds x hx f' m score hz := by
    rcases List.mem_append.mp hx with hx | hx
    · exact absurd hz ((hd x hx).not_zadd f' m score)
    · exact he.adds x hx f' m score hz
  expires x hx f' ts hz := by
    rcases List.mem_append.mp hx with hx | hx
    · exact absurd hz ((hd x hx).not_expireAt f' ts)
    · exact he.expires x hx f' ts hz
  moment := by
    obtain ⟨now, hn, hr⟩ := he.moment
    exact ⟨now, List.mem_append_right _ hn, hr⟩

/-- An access token is added to the index of its subject only. -/
theorem apart_generateToken : @Prog.Only svc _ Apart
    (JwtManager.generateToken env libs (redisClient libs.json) issuer subject audience ttl extra) := by
  refine only_generateToken (fun _ he _ => apart_quiet he) (only_createNew (fun _ he _ => apart_quiet he) ?_ ?_ ?_ ?_ ?_)
  · exact apart_of_none rfl
  · exact fun _ _ => apart_of_none rfl
  · exact fun _ _ f h => subject_ne_family _ f (Option.some.inj h)
  · exact fun _ _ _ _ _ f h => subject_ne_family _ f (Option.some.inj h)
  · exact fun _ => apart_of_none rfl

theorem path_addToGroup {g m : String} {score : Int} {u : Unit}
    (h : Prog.Path (orStoreError (RedisClient.addToGroup g m score)) cs (.ret (.ok u))) :
    cs = [⟨.redis (.zadd g m score), .ok ()⟩, ⟨.redis (.expireAt g score), .ok ()⟩] := by
  obtain ⟨_, cs₁, cs₂, rfl, h₁, h₂⟩ := Prog.path_tryBind_ok (Prog.path_mapError_ok h)
  rw [path_run_ok h₁, path_run_ok h₂]
  rfl

/-- The calls of a new refresh token. -/
theorem path_issueRefresh {t : JsonText}
    (h : Prog.Path (JwtManager.issueRefresh env (redisClient t) subject audience family) cs (.ret (.ok id))) :
    ∃ (fs : List (String × String)) (ttl rexp : Int) (now : Nat),
      rexp = asI64 (asUsize (timestamp now + asI64 (refreshTtl env))) ∧
      cs = [⟨.newUuid, id⟩, ⟨.redis (.hset (refreshKey id) fs), .ok ()⟩,
        ⟨.redis (.expire (refreshKey id) ttl), .ok ()⟩, ⟨.utcNow, now⟩,
        ⟨.redis (.zadd (familyGroup family) (refreshKey id) rexp), .ok ()⟩,
        ⟨.redis (.expireAt (familyGroup family) rexp), .ok ()⟩] := by
  obtain ⟨u, cs₁, cs₂, rfl, hu, h₁⟩ := Prog.path_tryBind_ok h
  obtain ⟨_, rfl, he⟩ := Prog.path_performE hu
  cases he
  obtain ⟨_, cs₃, cs₄, rfl, hstore, h₂⟩ := Prog.path_tryBind_ok h₁
  obtain ⟨now, cs₅, cs₆, rfl, hnow, h₃⟩ := Prog.path_tryBind_ok h₂
  obtain ⟨_, rfl, he⟩ := Prog.path_performE hnow
  cases he
  obtain ⟨_, cs₇, cs₈, rfl, hadd, h₄⟩ := Prog.path_tryBind_ok h₃
  obtain ⟨rfl, rfl⟩ := Prog.path_pure_ok h₄
  have hrecord : Prog.Path (RedisClient.storeRefresh t id ⟨subject, audience, family⟩ (refreshTtl env)) cs₃
    (.ret (.ok _)) := Prog.path_mapError_ok hstore
  rw [RedisClient.storeRefresh] at hrecord
  split at hrecord
  · exact (Prog.path_throw_ok hrecord).elim
  · obtain ⟨_, _, _, rfl, hset, hexpire⟩ := Prog.path_tryBind_ok hrecord
    rw [path_run_ok hset, path_run_ok hexpire, path_addToGroup hadd]
    exact ⟨_, _, _, now, rfl, rfl⟩

/-- A pair that is issued is enrolled in its family. -/
theorem issuePair_enrolled (h : Prog.Path (issuePair env libs issuer subject audience ttl extra family) cs
    (.ret (.ok (access, id)))) : ∃ c rexp, JwtManager.claimsSegmentOf libs access = .ok c ∧
      Enrolled env family c.jti id (asI64 c.exp) rexp cs := by
  obtain ⟨a, cs₁, ds₁, rfl, hgen, h₁⟩ := Prog.path_tryBind_ok h
  obtain ⟨_, cs₂, ds₂, rfl, hreg, h₂⟩ := Prog.path_tryBind_ok h₁
  obtain ⟨i, cs₃, ds₃, rfl, hrefresh, h₃⟩ := Prog.path_tryBind_ok h₂
  obtain ⟨rfl, he⟩ := Prog.path_pure_ok h₃
  cases he
  obtain ⟨c, es, es', rfl, hclaims, hadd⟩ := Prog.path_tryBind_ok hreg
  obtain ⟨rfl, hc⟩ := Prog.path_ofExcept hclaims
  obtain ⟨fs, secs, rexp, now, hrexp, rfl⟩ := path_issueRefresh hrefresh
  rw [path_addToGroup hadd, List.append_nil, List.nil_append]
  refine ⟨c, rexp, hc.symm, Enrolled.prepend ?_ (apart_generateToken.path hgen)⟩
  constructor
  · simp
  · simp
  · intro x hx f' m score hz
    simp only [List.cons_append, List.nil_append, List.mem_cons, List.not_mem_nil, or_false] at hx
    rcases hx with rfl | rfl | rfl | rfl | rfl | rfl | rfl | rfl <;>
      simp only [Eff.redis.injEq, Cmd.zadd.injEq, reduceCtorEq] at hz
    · exact .inl (Prod.ext hz.2.1.symm hz.2.2.symm)
    · exact .inr (Prod.ext hz.2.1.symm hz.2.2.symm)
  · intro x hx f' ts hz
    simp only [List.cons_append, List.nil_append, List.mem_cons, List.not_mem_nil, or_false] at hx
    rcases hx with rfl | rfl | rfl | rfl | rfl | rfl | rfl | rfl <;>
      simp only [Eff.redis.injEq, Cmd.expireAt.injEq, reduceCtorEq] at hz
    · exact .inl hz.2.symm
    · exact .inr hz.2.symm
  · exact ⟨now, by simp, hrexp⟩

/-- What a request hands out as a pair is enrolled in a family. -/
def Joined (env : Env) (libs : Libs) (h : Calls) (resp : HttpResponse) : Prop :=
  ∀ access id, resp.body = .token access (some id) → ∃ f c rexp, JwtManager.claimsSegmentOf libs access = .ok c ∧
    Enrolled env f c.jti id (asI64 c.exp) rexp h

theorem Joined.of_pairless {h : Calls} {resp : HttpResponse}
    (hr : ∀ access id, resp.body ≠ .token access (some id)) : Joined env libs h resp :=
  fun access id he => absurd he (hr access id)

theorem Joined.respond {h : Calls} {p : ExceptT Error M HttpResponse}
    (hp : Prog.wp (fun _ _ => True) h p fun h' r => ∀ resp, r = .ok resp → Joined env libs h' resp) :
    Prog.wp (fun _ _ => True) h (respond p) (Joined env libs) := by
  refine (Prog.wp_bind h p _).mpr (Prog.wp_imp hp fun h' r hr => ?_)
  cases r with
  | ok resp => exact hr resp rfl
  | error e => exact .of_pairless fun _ _ h => by cases e <;> cases h

/-- A token that is handed out is one that was issued, and counted. -/
theorem joined_of {h : Calls} {m : Metric} {token : String} {refresh : Option String}
    (hp : ∀ id, refresh = some id → ∃ f c rexp, JwtManager.claimsSegmentOf libs token = .ok c ∧
      Enrolled env f c.jti id (asI64 c.exp) rexp h) :
    Joined env libs (h ++ [⟨.metric m, ()⟩]) ⟨200, .token token refresh⟩ := by
  intro access id he
  cases he
  obtain ⟨f, c, rexp, hc, he⟩ := hp id rfl
  refine ⟨f, c, rexp, hc, he.append fun x hx => ?_⟩
  rw [List.mem_singleton.mp hx]
  exact apart_quiet rfl

theorem issue_enrolled {req : TokenRequest} {token : String}
    (h : Prog.Path (issue env libs (redisClient libs.json) issuer req) cs (.ret (.ok (token, some id)))) :
    ∃ f c rexp, JwtManager.claimsSegmentOf libs token = .ok c ∧
      Enrolled env f c.jti id (asI64 c.exp) rexp cs := by
  unfold issue at h
  split at h
  · obtain ⟨⟨access, i⟩, cs₁, _, rfl, hpair, h₁⟩ := Prog.path_tryBind_ok h
    obtain ⟨rfl, he⟩ := Prog.path_pure_ok h₁
    cases he
    obtain ⟨f, _, cs₂, rfl, hf, h₂⟩ := Prog.path_tryBind_ok hpair
    obtain ⟨_, rfl, he⟩ := Prog.path_performE hf
    cases he
    obtain ⟨c, rexp, hc, he⟩ := issuePair_enrolled h₂
    refine ⟨f, c, rexp, hc, ?_⟩
    rw [List.append_nil]
    refine he.prepend fun x hx => ?_
    rw [List.mem_singleton.mp hx]
    exact apart_of_none rfl
  · obtain ⟨access, cs₁, _, rfl, -, h₁⟩ := Prog.path_tryBind_ok h
    obtain ⟨-, he⟩ := Prog.path_pure_ok h₁
    cases he

theorem refreshTokenPair_enrolled {h : Calls} (hh : ∀ x ∈ h, Apart x.eff) (token : String) :
    Prog.wp (fun _ _ => True) h (JwtManager.refreshTokenPair env libs (redisClient libs.json) token issuer)
      fun h' r => ∀ access id, r = .ok (access, id) → ∃ f c rexp,
        JwtManager.claimsSegmentOf libs access = .ok c ∧ Enrolled env f c.jti id (asI64 c.exp) rexp h' := by
  refine wp_refreshTokenPair trivial (by simp) (by simp) fun h₁ fs record h₁_eq _ _ =>
    ⟨trivial, by simp, ?_, ?_⟩
  · refine Prog.wp_of_path fun cs r hp access id he => ?_
    subst he
    obtain ⟨c, rexp, hc, he⟩ := issuePair_enrolled hp
    refine ⟨record.family, c, rexp, hc, he.prepend fun x hx => ?_⟩
    rw [h₁_eq, List.append_assoc, List.mem_append, List.cons_append, List.nil_append, List.mem_cons,
      List.mem_singleton] at hx
    rcases hx with hx | rfl | rfl
    · exact hh x hx
    · exact apart_of_none rfl
    · exact apart_of_none rfl
  · exact Prog.Only.wp (Prog.only_true _) (fun _ _ _ _ => trivial) fun _ _ _ => by simp

/-- A pair that a request of a family hands out is enrolled. -/
theorem serve_enrolled (a : Admission) {rq : Request} {h₀ : Calls} (hf : familyOf libs.json rq h₀ = some f) :
    Prog.wp (fun _ _ => True) [] (serve env libs (redisClient libs.json) a rq) (Joined env libs) := by
  refine wp_serve (I := fun h => ∀ x ∈ h, Apart x.eff) a rq (by simp)
    (fun h hash ttl hh _ => ⟨trivial, fun r x hx => ?_⟩)
    (fun _ _ _ _ _ _ _ => ⟨trivial, .of_pairless (by simp)⟩) fun h hh => ?_
  · rcases List.mem_append.mp hx with hx | hx
    · exact hh x hx
    · rw [List.mem_singleton.mp hx]
      exact apart_of_none rfl
  cases rq with
  | createToken host req =>
    refine Joined.respond ?_
    simp only [createToken, Prog.wp_tryBind, Prog.wp_ofExcept]
    cases issuerForIssuance env host with
    | error e => simp
    | ok issuer =>
      simp only [Prog.wp_liftE]
      refine Prog.wp_imp (Prog.wp_of_path (Q := fun h' r => ∀ token id, r = .ok (token, some id) →
        ∃ f c rexp, JwtManager.claimsSegmentOf libs token = .ok c ∧
          Enrolled env f c.jti id (asI64 c.exp) rexp h') fun cs r hp token id he => ?_) fun h' r hr => ?_
      · subst he
        obtain ⟨f, c, rexp, hc, he⟩ := issue_enrolled hp
        exact ⟨f, c, rexp, hc, he.prepend hh⟩
      · rcases r with e | ⟨token, refresh⟩
        · cases e <;> simp
        · simp only [Prog.wp_tryBind, wp_callE]
          refine ⟨trivial, fun _ resp hresp => ?_⟩
          cases hresp
          exact joined_of fun id he => hr token id (by rw [he])
  | refreshToken host token =>
    refine Joined.respond ?_
    simp only [refreshToken, Prog.wp_tryBind, Prog.wp_ofExcept]
    cases issuerForIssuance env host with
    | error e => simp
    | ok issuer =>
      simp only [Prog.wp_liftE]
      refine Prog.wp_imp (refreshTokenPair_enrolled hh token) fun h' r hr => ?_
      rcases r with e | ⟨access, refresh⟩
      · cases e <;> simp
      · simp only [Prog.wp_tryBind, wp_callE]
        refine ⟨trivial, fun _ resp hresp => ?_⟩
        cases hresp
        refine joined_of fun id he => ?_
        cases he
        exact hr access _ rfl
  | _ => cases hf

end Enrolled

/-! ## What a reuse does -/

section Reuse

variable {env : Env} {libs : Libs} {issuer token : String} {h : Calls}

/-- The request has found the mark of the token. -/
def Lost (token : String) (h : Calls) : Prop :=
  (⟨.redis (.hsetNx (refreshKey token) "used" "1"), .ok false⟩ : Call svc) ∈ h

/-- The request has not looked at a mark, and adds to no index of a family. -/
def Unmarked (h : Calls) : Prop := ∀ x ∈ h, NoMark x.eff ∧ Apart x.eff

theorem Unmarked.not_lost (hu : Unmarked h) {cs : Calls}
    (hc : (⟨.redis (.hsetNx (refreshKey token) "used" "1"), .ok false⟩ : Call svc) ∉ cs) :
    ¬ Lost token (h ++ cs) := by
  intro hl
  rcases List.mem_append.mp hl with hl | hl
  · exact (hu _ hl).1 _ _ _ rfl
  · exact hc hl

/-- What a reuse is told and does: a request that finds the mark of its token adds
nothing to a family, and if the answer is that the token is not valid it has swept
the family of the record. -/
def Killed (libs : Libs) (token : String) (invalid : Prop) (h : Calls) : Prop :=
  Lost token h → (∀ x ∈ h, Apart x.eff) ∧ (invalid → ∃ record,
    recordRead libs.json h = some record ∧ Swept (familyGroup record.family) h)

theorem refreshTokenPair_killed (hb : Blank h) (hu : Unmarked h) : Prog.wp (fun _ _ => True) h
    (JwtManager.refreshTokenPair env libs (redisClient libs.json) token issuer) fun h' r =>
      Killed libs token (r = .error .notValid) h' := by
  refine wp_refreshTokenPair trivial (fun e hl => ?_) (fun fs hl => ?_) fun h₁ fs record h₁_eq hne hr => ?_
  · exact absurd hl (hu.not_lost (by simp))
  · exact absurd hl (hu.not_lost (by simp))
  subst h₁_eq
  refine ⟨trivial, fun e hl => ?_, ?_, ?_⟩
  · rw [List.append_assoc] at hl
    exact absurd hl (hu.not_lost (by simp))
  · -- Who has set the mark looks at no other.
    refine Prog.Only.wp issuing_issuePair (fun _ _ _ _ => trivial) fun cs r hcs hl => ?_
    rw [List.append_assoc, List.append_assoc] at hl
    refine absurd hl (hu.not_lost fun hm => ?_)
    rcases List.mem_cons.mp hm with he | hm
    · cases he
    · rcases List.mem_cons.mp hm with he | hm
      · simp at he
      · exact hcs _ hm
  · let h₁ := h ++ [⟨.redis (.hgetAll (refreshKey token)), .ok fs⟩] ++
      [⟨.redis (.hsetNx (refreshKey token) "used" "1"), .ok false⟩]
    have honly : @Prog.Only svc _ Apart (RedisClient.revokeGroup (familyGroup record.family)) :=
      only_revokeGroup (apart_of_none rfl) (fun _ => apart_of_none rfl) (apart_of_none rfl)
        fun _ => apart_of_none rfl
    have hcalls : Prog.wp (fun _ _ => True) h₁ (RedisClient.revokeGroup (familyGroup record.family))
        fun h₂ _ => ∃ cs, h₂ = h₁ ++ cs ∧ ∀ c ∈ cs, Apart c.eff :=
      honly.wp (fun _ _ _ _ => trivial) fun cs _ hcs => ⟨cs, rfl, hcs⟩
    refine Prog.wp_mono (fun _ _ _ => trivial) (fun h₂ r hr₂ => ?_)
      (Prog.wp_and (@revokeGroup_tidy .livez h₁ _) hcalls)
    obtain ⟨hs, cs, rfl, hcs⟩ := hr₂
    refine fun _ => ⟨fun x hx => ?_, fun hv => ⟨record, ?_, ?_⟩⟩
    · simp only [h₁, List.mem_append, List.mem_singleton] at hx
      rcases hx with ((hx | rfl) | rfl) | hx
      · exact (hu x hx).2
      · exact apart_of_none rfl
      · exact apart_of_none rfl
      · exact hcs x hx
    · exact findSome_append (findSome_append (recordRead_snoc hb hr) _) _
    · cases r with
      | ok n => exact hs n rfl
      | error e => cases hv

theorem Killed.append {invalid : Prop} {ds : Calls} (hk : Killed libs token invalid h)
    (hd : ∀ x ∈ ds, NoMark x.eff ∧ Apart x.eff) : Killed libs token invalid (h ++ ds) := by
  intro hl
  have hl' : Lost token h := (List.mem_append.mp hl).resolve_right fun hm => (hd _ hm).1 _ _ _ rfl
  obtain ⟨ha, hs⟩ := hk hl'
  refine ⟨fun x hx => ?_, fun hi => ?_⟩
  · rcases List.mem_append.mp hx with hx | hx
    · exact ha x hx
    · exact (hd x hx).2
  · obtain ⟨record, hr, hs⟩ := hs hi
    exact ⟨record, findSome_append hr ds, hs.append ds⟩

/-- An exchange that finds the mark and is answered that the token is not valid
has swept the family. -/
theorem serve_killed (a : Admission) (host : HostHeader) (token : String) : Prog.wp (fun _ _ => True) []
    (serve env libs (redisClient libs.json) a (.refreshToken host token)) fun h resp =>
      Killed libs token (resp.status = 401) h := by
  refine wp_serve (I := fun h => Blank h ∧ Unmarked h) a _ ⟨fun _ => ⟨rfl, rfl⟩, by simp [Unmarked]⟩
    (fun h hash ttl hh _ => ⟨trivial, fun r => ⟨hh.1.claim, fun x hx => ?_⟩⟩)
    (fun h m r status msg hh _ => ⟨trivial, fun hl => absurd hl (hh.2.not_lost (by simp))⟩) fun h hh => ?_
  · rcases List.mem_append.mp hx with hx | hx
    · exact hh.2 x hx
    · rw [List.mem_singleton.mp hx]
      exact ⟨fun _ _ _ h => (by cases h), apart_of_none rfl⟩
  have hnone : ∀ r : HttpResponse, Killed libs token (r.status = 401) h := fun r hl =>
    absurd rfl ((hh.2 _ hl).1 _ _ _)
  refine (Prog.wp_bind h _ _).mpr ?_
  simp only [refreshToken, Prog.wp_tryBind, Prog.wp_ofExcept]
  cases issuerForIssuance env host with
  | error e => exact hnone _
  | ok issuer =>
    simp only [Prog.wp_liftE]
    refine Prog.wp_imp (refreshTokenPair_killed hh.1 hh.2) fun h₁ r hr => ?_
    rcases r with e | ⟨access, refresh⟩
    · cases e with
      | notValid => exact fun hl => ⟨(hr hl).1, fun _ => (hr hl).2 rfl⟩
      | _ => exact fun hl => ⟨(hr hl).1, fun h => (by cases h)⟩
    · refine ⟨trivial, fun _ => ?_⟩
      refine Killed.append (fun hl => ⟨(hr hl).1, fun h => (by cases h)⟩) fun x hx => ?_
      rw [List.mem_singleton.mp hx]
      exact ⟨fun _ _ _ h => (by cases h), apart_of_none rfl⟩

end Reuse

end JwtService

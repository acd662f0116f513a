import JwtService.Proof.Coherent
import JwtService.Redis.Frame

/-!
# The keys requests look at

The store has one space of keys. A request looks at a key that has one of the
prefixes only in the way of that prefix, and at any other key only by asking
for a token (`Addressed`). So where two worlds differ in a key without a prefix,
or in what has expired, a run from the one is a run from the other
(`run_agree`).
-/

namespace JwtService

open Interaction Redis

/-- The key of an index. -/
def IsGroup (g : String) : Prop := (∃ s, g = subjectGroup s) ∨ ∃ f, g = familyGroup f

/-- A key with one of the prefixes. -/
def Prefixed (k : String) : Prop :=
  IsGroup k ∨ (∃ id, k = refreshKey id) ∨ ∃ hash, k = totpCodeKey hash

theorem not_prefixed_uuid {u : String} (hu : Text.isUuid u = true) : ¬ Prefixed u := by
  rintro ((⟨s, rfl⟩ | ⟨f, rfl⟩) | ⟨id, rfl⟩ | ⟨hash, rfl⟩)
  · rw [not_uuid_subject] at hu
    cases hu
  · rw [not_uuid_family] at hu
    cases hu
  · rw [not_uuid_refresh] at hu
    cases hu
  · rw [not_uuid_totp] at hu
    cases hu

/-- The command looks at keys with a prefix, or asks for a token. -/
def Addressed : Eff → Prop
  | .redis (.exists _) => True
  | .redis c => ∀ k ∈ c.looks, Prefixed k
  | _ => True

theorem addressed_quiet (e : Eff) (he : e.quiet = true) : Addressed e := by
  cases e with
  | redis c => cases he
  | _ => trivial

theorem addressed_of_looks {c : Cmd} (h : ∀ k ∈ c.looks, Prefixed k) : Addressed (.redis c) := by
  cases c with
  | «exists» => trivial
  | _ => exact h

theorem addressed_group {g : String} (hg : IsGroup g) {c : Cmd} (hc : c.looks = [g]) :
    Addressed (.redis c) :=
  addressed_of_looks fun k hk => by
    rw [hc] at hk
    exact .inl (List.mem_singleton.mp hk ▸ hg)

theorem addressed_refresh {id : String} {c : Cmd} (hc : c.looks = [refreshKey id]) :
    Addressed (.redis c) :=
  addressed_of_looks fun k hk => by
    rw [hc] at hk
    exact .inr (.inl ⟨id, List.mem_singleton.mp hk⟩)

theorem addressed_blind {c : Cmd} (hc : c.looks = []) : Addressed (.redis c) :=
  addressed_of_looks fun k hk => by
    rw [hc] at hk
    cases hk

theorem isGroup_subject (s : String) : IsGroup (subjectGroup s) := .inl ⟨s, rfl⟩

theorem isGroup_family (f : String) : IsGroup (familyGroup f) := .inr ⟨f, rfl⟩

/-! ## Requests -/

section Requests

variable {env : Env} {libs : Libs} {issuer subject family : String} {audience : List String}
  {ttl : Option Nat} {extra : List (String × Json)}

/-- `E` holds of every call a request makes, but for the lookup of a public key. -/
structure Covers (E : Eff → Prop) : Prop where
  quiet : ∀ e : Eff, e.quiet = true → e.isLookup = false → E e
  uuid : E .newUuid
  addressed : ∀ c, Addressed (.redis c) → E (.redis c)

theorem covers_addressed : Covers Addressed :=
  ⟨fun e he _ => addressed_quiet e he, trivial, fun _ h => h⟩

namespace Covers

variable {E : Eff → Prop} (hE : Covers E)

include hE

theorem group {g : String} (hg : IsGroup g) {c : Cmd} (hc : c.looks = [g]) : E (.redis c) :=
  hE.addressed c (addressed_group hg hc)

theorem refresh {id : String} {c : Cmd} (hc : c.looks = [refreshKey id]) : E (.redis c) :=
  hE.addressed c (addressed_refresh hc)

theorem blind {c : Cmd} (hc : c.looks = []) : E (.redis c) :=
  hE.addressed c (addressed_blind hc)

theorem generateToken : @Prog.Only svc _ E (JwtManager.generateToken env libs
    (redisClient libs.json) issuer subject audience ttl extra) := by
  apply only_generateToken hE.quiet
  apply only_createNew hE.quiet
  · exact hE.uuid
  · exact fun _ _ => hE.blind rfl
  · exact fun _ _ => hE.group (isGroup_subject _) rfl
  · exact fun _ _ _ _ _ => hE.group (isGroup_subject _) rfl
  · exact fun _ => hE.addressed _ trivial

theorem issuePair : @Prog.Only svc _ E
    (JwtService.issuePair env libs issuer subject audience ttl extra family) := by
  apply only_issuePair
  · exact hE.uuid
  · exact hE.quiet _ rfl rfl
  · exact hE.generateToken
  · exact fun _ _ => hE.refresh rfl
  · exact fun _ _ => hE.refresh rfl
  · exact fun _ _ => hE.group (isGroup_family _) rfl
  · exact fun _ => hE.group (isGroup_family _) rfl

theorem revokeGroup {g : String} (hg : IsGroup g) : @Prog.Only svc _ E (RedisClient.revokeGroup g) :=
  only_revokeGroup (hE.quiet _ rfl rfl) (fun _ => hE.group hg rfl) (hE.group hg rfl)
    fun _ => hE.blind rfl

theorem issue {req : TokenRequest} :
    @Prog.Only svc _ E (JwtService.issue env libs (redisClient libs.json) issuer req) := by
  cases hr : req.refresh with
  | false => exact only_issue hr hE.generateToken
  | true =>
    rw [JwtService.issue, if_pos hr]
    refine Prog.only_tryBind ?_ fun _ => trivial
    exact Prog.only_tryBind (only_callE hE.uuid) fun family => hE.issuePair

theorem refreshTokenPair {token : String} : @Prog.Only svc _ E
    (JwtManager.refreshTokenPair env libs (redisClient libs.json) token issuer) := by
  refine Prog.only_tryBind (Prog.only_mapError ?_) fun record => ?_
  · refine Prog.only_tryBind (only_run (hE.refresh rfl)) fun fields => ?_
    show Prog.Only _ (ite _ _ _)
    split <;> trivial
  · cases record with
    | none => trivial
    | some record =>
      refine Prog.only_tryBind (Prog.only_mapError (only_run (hE.refresh rfl))) fun first => ?_
      cases first with
      | true => exact hE.issuePair
      | false =>
        exact Prog.only_tryBind (Prog.only_mapError (hE.revokeGroup (isGroup_family _))) fun _ => trivial

/-- The calls of every handler but that of verification. -/
theorem handle {rq : Request} (hrq : ∀ host req, rq ≠ .verifyToken host req) :
    @Prog.Only svc _ E (JwtService.handle env libs (redisClient libs.json) rq) := by
  have hrespond : ∀ {p : ExceptT Error M HttpResponse}, @Prog.Only svc _ E p →
      @Prog.Only svc _ E (respond p) :=
    fun hp => Prog.only_bind hp fun r => by cases r <;> trivial
  have hmetric : ∀ {m : Metric} {resp : HttpResponse}, @Prog.Only svc _ E
      (do callE (.metric m); pure resp : ExceptT Error M HttpResponse) :=
    fun {_ _} => Prog.only_tryBind (only_callE (hE.quiet _ rfl rfl)) fun _ => trivial
  cases rq with
  | createToken host req => exact only_createToken hE.quiet fun _ => hE.issue
  | verifyToken host req => exact absurd rfl (hrq host req)
  | refreshToken host token =>
    refine hrespond (Prog.only_tryBind (Prog.only_ofExcept _) fun issuer => ?_)
    refine Prog.only_tryBind (Prog.only_liftE hE.refreshTokenPair) fun r => ?_
    rcases r with e | ⟨token, refresh⟩
    · cases e <;> trivial
    · exact hmetric
  | revokeToken jti =>
    refine hrespond (Prog.only_tryBind (Prog.only_liftE (only_run (hE.blind rfl))) fun r => ?_)
    cases r with
    | error e => trivial
    | ok _ => exact hmetric
  | revokeSubjectTokens sub =>
    exact only_revokeSubject (hE.quiet _ rfl rfl) (hE.quiet _ rfl rfl)
      (fun _ => hE.group (isGroup_subject sub) rfl) (hE.group (isGroup_subject sub) rfl)
      fun _ => hE.blind rfl
  | livez => trivial
  | readyz =>
    refine Prog.only_bind (only_run (hE.blind rfl)) fun r => ?_
    refine Prog.only_bind (KeyManager.only_checkJwks (hE.quiet _ rfl rfl)) fun r => ?_
    refine Prog.only_bind ?_ fun _ => trivial
    unfold snapshotServes
    split
    · trivial
    · exact ⟨hE.quiet _ rfl rfl, fun _ => trivial⟩

end Covers

/-- The commands of every handler are addressed. -/
theorem addressed_handle (rq : Request) :
    @Prog.Only svc _ Addressed (handle env libs (redisClient libs.json) rq) := by
  cases rq with
  | verifyToken host req => exact only_verifyToken addressed_quiet fun _ => trivial
  | _ => exact covers_addressed.handle nofun

/-- The commands of every request are addressed. -/
theorem serve_addressed (a : Admission) (rq : Request) :
    Prog.wp (fun _ e => Addressed e) [] (serve env libs (redisClient libs.json) a rq) fun _ _ => True := by
  refine wp_serve (I := fun _ => True) a rq trivial (fun _ hash _ _ _ => ⟨?_, fun _ => trivial⟩)
    (fun _ _ _ _ _ _ _ => ⟨trivial, trivial⟩) fun h _ => ?_
  · exact addressed_of_looks fun k hk => .inr (.inr ⟨hash, List.mem_singleton.mp hk⟩)
  · exact Prog.Only.wp (addressed_handle rq) (fun _ _ _ he => he) fun _ _ _ => trivial

end Requests

/-! ## Runs from two worlds -/

/-- The worlds differ in the store only, and there under keys of `K` or in what
has expired. -/
def World.Agree (K : String → Prop) (w w' : World) : Prop :=
  ∃ db, w' = { w with db := db } ∧ Db.Agree K w.now w.db db

section Runs

variable {s : JwkService} {w w' w₁ : World} {K : String → Prop}

theorem World.Agree.symm (h : World.Agree K w w') : World.Agree K w' w := by
  obtain ⟨db, rfl, h⟩ := h
  exact ⟨w.db, rfl, h.symm⟩

/-- A call other than a command does not depend on the store. -/
theorem act_withDb {e : Eff} {ch : Choice} {r : e.Reply} (he : ∀ c, e ≠ .redis c) (db : Db)
    (h : w.act s e ch = some (r, w₁)) :
    ({ w with db := db } : World).act s e ch = some (r, { w₁ with db := db }) ∧ w₁.db = w.db := by
  cases e with
  | redis c => exact absurd rfl (he c)
  | newUuid =>
    cases ch with
    | uuid u =>
      simp only [World.act, Option.ite_none_right_eq_some, Option.some.injEq, Prod.mk.injEq] at h
      obtain ⟨hu, rfl, rfl⟩ := h
      exact ⟨if_pos hu, rfl⟩
    | _ => cases h
  | lockRefresh =>
    cases ch with
    | plain =>
      obtain ⟨hl, h⟩ := Option.ite_none_left_eq_some.mp h
      cases h
      exact ⟨if_neg hl, rfl⟩
    | _ => cases h
  | panic msg => exact r.elim
  | _ =>
    cases ch with
    | plain | keys | key =>
      cases h <;> exact ⟨rfl, rfl⟩
    | _ => cases h

/-- A call that looks at no key of `K`. -/
def LooksAway (K : String → Prop) (e : Eff) : Prop := ∀ c, e = .redis c → ∀ k ∈ c.looks, ¬ K k

/-- A call that looks at no key of `K` is answered the same way in both worlds. -/
theorem call_agree {e : Eff} {r : e.Reply} (he : LooksAway K e)
    (hw : World.Agree K w w') (h : (service s).call w e r w₁) :
    ∃ w₁', (service s).call w' e r w₁' ∧ World.Agree K w₁ w₁' := by
  obtain ⟨db, rfl, hdb⟩ := hw
  obtain ⟨ch, h⟩ := h
  by_cases hr : ∃ c, e = .redis c
  · obtain ⟨c, rfl⟩ := hr
    obtain ⟨hans, hnext⟩ := exec_agree hdb (he c rfl)
    cases ch with
    | redis o =>
      cases o with
      | answered =>
        simp only [World.act, Option.some.injEq, Prod.mk.injEq] at h
        obtain ⟨rfl, rfl⟩ := h
        exact ⟨_, ⟨.redis .answered, congrArg some (Prod.ext hans rfl)⟩, _, rfl, hnext⟩
      | lost e =>
        simp only [World.act, Option.ite_none_right_eq_some, Option.some.injEq, Prod.mk.injEq] at h
        obtain ⟨hc, rfl, rfl⟩ := h
        exact ⟨_, ⟨.redis (.lost e), if_pos hc⟩, _, rfl, hdb⟩
      | answerLost e =>
        simp only [World.act, Option.ite_none_right_eq_some, Option.some.injEq, Prod.mk.injEq] at h
        obtain ⟨hc, rfl, rfl⟩ := h
        exact ⟨_, ⟨.redis (.answerLost e), if_pos hc⟩, _, rfl, hnext⟩
    | _ => cases h
  · obtain ⟨h', hsame⟩ := act_withDb (fun c hc => hr ⟨c, hc⟩) db h
    have hnow : w₁.now = w.now := World.act_now h
    exact ⟨_, ⟨ch, h'⟩, db, rfl, by rw [hnow, hsame]; exact hdb⟩

variable {ι : Type} [DecidableEq ι] {env : Env} {libs : Libs} {adm : ι → Admission}
  {rq : ι → Request} {P P' : Pool svc World ι HttpResponse} {h₀ tr : Events ι}

/-- The events ask for no token of `K`. -/
def NotAsked (K : String → Prop) (tr : Events ι) : Prop :=
  ∀ i k r, .call i ⟨.redis (.exists k), r⟩ ∈ tr → ¬ K k

/-- From a world that differs in keys without a prefix the requests run the
same way, as long as none asks for one of these. -/
theorem run_agree (hK : ∀ k, K k → ¬ Prefixed k)
    (hp : ∀ i, Prog.wp (fun _ e => Addressed e) (callsOf i h₀) (P.prog i) fun _ _ => True)
    (hr : (service s).Run P tr P') (hq : NotAsked K tr) (hw : World.Agree K P.st w) :
    ∃ w', (service s).Run ⟨w, P.prog⟩ tr ⟨w', P'.prog⟩ ∧ World.Agree K P'.st w' := by
  refine hr.simulate (E := LooksAway K)
    (fun w e r w₁ w' he hw h => call_agree he hw h) (fun w d w₁ w' hw h => ?_) (fun i c hc => ?_) hw
  · obtain ⟨db, rfl, hdb⟩ := hw
    cases h
    exact ⟨_, rfl, db, rfl, hdb.later (Nat.le_add_right _ _)⟩
  · rintro c' he k hk hK'
    obtain ⟨e, r⟩ := c
    cases he
    obtain ⟨cs₁, cs₂, hsplit⟩ := List.append_of_mem (mem_callsOf.mpr hc)
    have haddr : Addressed (.redis c') := ((hr.path i).wp (hp i)).2 cs₁ _ cs₂ hsplit
    cases c' with
    | «exists» j =>
      cases List.mem_singleton.mp hk
      exact hq i k r hc hK'
    | _ => exact hK k hK' (haddr k hk)

end Runs

end JwtService

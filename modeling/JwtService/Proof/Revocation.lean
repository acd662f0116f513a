import JwtService.Proof.Past
import JwtService.Proof.Verification

/-!
# Single revocation is final

The service is a pool of requests of all kinds, started on an empty store
(`start`). Once `DELETE /tokens/{jti}` for a token that was handed out has
answered 204, the key `jti` is absent in every later state, whatever requests
run and however they interleave, and no verification whose store check comes
later answers 200 for that token (`revocation_final`).

A handed out token carries a `jti` that is spent, and the deletion made it
gone, so `Running.gone` keeps it gone. A verification that answers 200 was
told by the store that the key exists (`verify_exists`).
-/

namespace JwtService

open Interaction Redis

variable {ι : Type} [DecidableEq ι]

/-- The service before its first request. -/
def start (env : Env) (libs : Libs) (adm : ι → Admission) (req : ι → Request) :
    Pool svc World ι HttpResponse :=
  ⟨World.empty, fun i => serve env libs (redisClient libs.json) (adm i) (req i)⟩

variable {env : Env} {libs : Libs} {adm : ι → Admission} {req : ι → Request} {s : JwkService}

theorem start_running (ht : libs.json.Faithful) :
    Running (fun _ => StoredToken libs) [] (start env libs adm req) :=
  ⟨fun i => serve_disciplined env libs ht (adm i) (req i), coherent_empty⟩

/-- A 204 was preceded by a deletion that was carried out. -/
theorem revoke_deletes (a : Admission) (jti : String) :
    Prog.wp (fun _ _ => True) [] (serve env libs (redisClient libs.json) a (.revokeToken jti))
      fun cs resp => resp.status = 204 →
        (⟨.redis (.del [jti]), .ok ()⟩ : Call svc) ∈ cs := by
  refine wp_serve (I := fun _ => True) a _ trivial (fun _ _ _ _ _ => ⟨trivial, fun _ => trivial⟩)
    (fun _ _ _ status _ _ hs => ⟨trivial, fun he => ?_⟩) fun h _ => ?_
  · have he : status = 204 := he
    omega
  · refine (Prog.wp_bind h _ _).mpr ?_
    simp only [revokeToken, Prog.wp_tryBind, Prog.wp_liftE, redisClient, RedisClient.deleteJti,
      wp_run]
    refine ⟨trivial, fun _ => ?_, fun e hst => nomatch hst⟩
    simp only [wp_callE]
    exact ⟨trivial, fun _ _ => by simp⟩

/-- A verification that answers 200 was told that the key exists. -/
theorem verify_exists (a : Admission) (host : HostHeader) (rq : TokenVerifyRequest) :
    Prog.wp (fun _ _ => True) [] (serve env libs (redisClient libs.json) a (.verifyToken host rq))
      fun cs resp => ∀ claims, resp = ⟨200, .claims claims⟩ → ∀ c r,
        (⟨.redis c, r⟩ : Call svc) ∈ cs →
          (⟨.redis c, r⟩ : Call svc) = ⟨.redis (.exists claims.jti), .ok true⟩ := by
  refine Prog.wp_imp (verify_fails_closed env libs _ a host rq) fun cs resp hv claims hresp c r hm => ?_
  subst hresp
  obtain ⟨-, issuer, claims', cs', -, -, hc, hb, rfl⟩ := hv rfl
  cases hb
  obtain ⟨_, _, _, _, _, _, _, now, ks, es, -, -, -, hk, -, -, -, -, hj, rfl⟩ := hc
  have hes : es = [⟨.redis (.exists claims.jti), .ok true⟩] := by
    have := Prog.path_mapError_ok hj
    cases this with
    | cons h => obtain ⟨rfl, he⟩ := h.ret_inv; cases he; rfl
  have hq := (KeyManager.quiet_getPublicKey libs.ssl _).path hk
  subst hes
  simp only [List.append_assoc, List.mem_append, List.mem_cons, List.not_mem_nil, or_false] at hm
  rcases hm with hm | (hm | hm) | hm
  · have := hq _ hm
    cases this
  · cases hm
  · exact hm
  · cases hm

/-- After `DELETE /tokens/{jti}` has answered 204 for a token that was handed
out before the request, the key is absent for ever, and a verification that
answers 200 for the token made its store check before. -/
theorem revocation_final (ht : libs.json.Faithful) {t₁ t₂ t₃ : Events ι}
    {P₁ P₂ P₃ : Pool svc World ι HttpResponse} {i d : ι} {status : Nat} {token : String}
    {refresh : Option String} {c : TokenClaims} {body : Body}
    (h₁ : (service s).Run (start env libs adm req) t₁ P₁)
    (hout : P₁.prog i = .ret ⟨status, .token token refresh⟩)
    (hc : JwtManager.claimsSegmentOf libs token = .ok c)
    (hd : req d = .revokeToken c.jti) (hnew : callsOf d t₁ = [])
    (h₂ : (service s).Run P₁ t₂ P₂) (hans : P₂.prog d = .ret ⟨204, body⟩)
    (h₃ : (service s).Run P₂ t₃ P₃) :
    P₃.st.db.get P₃.st.now c.jti = none ∧
      ∀ v host rq claims, req v = .verifyToken host rq →
        P₃.prog v = .ret ⟨200, .claims claims⟩ → claims.jti = c.jti →
          ∀ x ∈ callsOf v t₃, x.eff ≠ .redis (.exists c.jti) := by
  have hrun := (start_running ht).run h₁
  -- The token carries a `jti` its request has stored.
  obtain ⟨c', hc', hs⟩ : Carries libs token fun c => Stored (.access c.jti) (callsOf i t₁) := by
    have := hrun.requests i
    rw [List.nil_append, hout] at this
    exact this _ _ rfl
  rw [hc] at hc'
  cases hc'
  -- The deletion stands among the events of `t₂`.
  have hdel : (⟨.redis (.del [c.jti]), .ok ()⟩ : Call svc) ∈ callsOf d t₂ := by
    have hp := (h₁.trans h₂).path d
    rw [callsOf_append, hnew, List.nil_append, hans] at hp
    have hw := @revoke_deletes env libs (adm d) c.jti
    rw [← hd] at hw
    exact hp.wp_ret hw rfl
  obtain ⟨ds₁, ds₂, hsplit⟩ := List.append_of_mem hdel
  obtain ⟨u₁, u₂, rfl, -, -⟩ := callsOf_split hsplit
  obtain ⟨Q, Q', hu₁, hstep, hu₂⟩ := h₂.split_at
  have hrunQ := hrun.run hu₁
  have hspent : Spent ([] ++ t₁ ++ u₁) Q.st (.access c.jti) := by
    refine hrunQ.coherent.spent_of_stored (i := i) ?_
    rw [List.nil_append, callsOf_append]
    exact (Adds.stored (E := fun _ => true) ⟨_, rfl, fun _ _ => rfl⟩ hs)
  have hrunQ' := hrunQ.run (.cons hstep (.nil _))
  have hgone : Spent ([] ++ t₁ ++ u₁ ++ [.call d ⟨.redis (.del [c.jti]), .ok ()⟩]) Q'.st
      (.access c.jti) ∧ Gone Q'.st (.access c.jti) := by
    cases hstep with
    | call hp hcall =>
      refine ⟨hspent.step hcall, ?_⟩
      rcases call_redis hcall with ⟨-, e, he⟩ | ⟨rfl, -⟩
      · cases he
      · show (Db.delAll Q.st.db [c.jti]).get Q.st.now c.jti = none
        rw [Db.get_delAll, if_pos List.mem_cons_self]
  have hafter : ∀ {t P}, (service s).Run Q' t P → P.st.db.get P.st.now c.jti = none :=
    fun hr => hrunQ'.gone hgone.1 hgone.2 hr
  refine ⟨hafter (hu₂.trans h₃), fun v host rq claims hv hprog hj x hx he => ?_⟩
  obtain ⟨e, r⟩ := x
  subst he
  -- The check of this verification was answered with yes.
  have hyes : (⟨.redis (.exists c.jti), r⟩ : Call svc) = ⟨.redis (.exists c.jti), .ok true⟩ := by
    have hp := ((h₁.trans h₂).trans h₃).path v
    rw [hprog] at hp
    have hw := @verify_exists env libs (adm v) host rq
    rw [← hv] at hw
    rw [← hj]
    refine hp.wp_ret hw claims rfl _ _ ?_
    rw [callsOf_append, hj]
    exact List.mem_append_right _ hx
  cases hyes
  obtain ⟨xs₁, xs₂, hxs⟩ := List.append_of_mem hx
  obtain ⟨v₁, v₂, rfl, -, -⟩ := callsOf_split hxs
  obtain ⟨R, R', hv₁, hstep', -⟩ := h₃.split_at
  have habsent := hafter (hu₂.trans hv₁)
  cases hstep' with
  | call hp hcall =>
    rcases call_redis hcall with ⟨-, e, he⟩ | ⟨-, he | ⟨e, he⟩⟩
    · cases he
    · simp only [Redis.exec, habsent] at he
      cases he
    · cases he

/-- A request that is admitted. -/
def admitted : Admission := ⟨true, false, none, none⟩

/-- An issue (`false`) and the revocation of its token (`true`). -/
def issueAndRevoke : Bool → Request
  | false => .createToken (.text "host") ⟨"user", ["api"], some 60, false, []⟩
  | true => .revokeToken uuidA

theorem revocation_final_user : ∃ (t₁ t₂ : Events Bool) (P₁ P₂ : Pool svc World Bool HttpResponse)
    (token : String), (service ⟨300000, 10000, 10000⟩).Run
        (start bareEnv echoLibs (fun _ => admitted) issueAndRevoke) t₁ P₁ ∧
      P₁.prog false = .ret ⟨200, .token token none⟩ ∧
      (P₁.st.db.get P₁.st.now uuidA).isSome = true ∧
      (service ⟨300000, 10000, 10000⟩).Run P₁ t₂ P₂ ∧ P₂.prog true = .ret ⟨204, .empty⟩ ∧
      P₂.st.db.get P₂.st.now uuidA = none := by
  let s : JwkService := ⟨300000, 10000, 10000⟩
  obtain ⟨access, x, hc, hissue⟩ := @echo_createToken s World.empty sound_empty "user" 60 uuidA
    ⟨by decide, by exact nofun⟩ (by decide) (by decide) (by decide)
  obtain ⟨t₁, h₁, ha₁⟩ := System.Run.of_eval (S := service s) (i := false)
    (P := start bareEnv echoLibs (fun _ => admitted) issueAndRevoke)
    (Prog.Eval.mono faultless_service hissue)
  let w₁ := ({ World.empty with keyId := echoKey.id }.draw uuidA).setDb
    (issueDb World.empty.db World.empty.now "user" uuidA 60)
  have hrevoke := (@alone_revokeToken (faultless s).call _ w₁ _ echoLibs _ uuidA).mpr ⟨rfl, rfl⟩
  obtain ⟨t₂, h₂, -⟩ := System.Run.of_eval (S := service s) (i := true) (P := ⟨w₁, Function.update
    (start bareEnv echoLibs (fun _ => admitted) issueAndRevoke).prog false
    (.ret ⟨200, .token access none⟩)⟩) (Prog.Eval.mono faultless_service hrevoke)
  have hlive : (w₁.db.get w₁.now uuidA).isSome = true := by decide
  refine ⟨t₁, t₂, _, _, access, h₁, rfl, hlive, h₂, rfl, ?_⟩
  exact (revocation_final (d := true) (i := false) (c := newClaims "host" "user" ["api"] 0 60 uuidA x)
    echo_faithful h₁ rfl hc rfl (System.callsOf_of_alone Bool.false_ne_true ha₁) h₂ rfl (.nil _)).1

end JwtService

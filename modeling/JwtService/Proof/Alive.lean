import JwtService.Proof.Addressed
import JwtService.Proof.Handed

/-!
# The key of a token that was handed out

A token is in the store under its `jti`. Its request has put it there, with the
lifetime that the claims tell. From then on the key holds what was put there
until a deletion that names it: no command of any request writes the key of an
access token otherwise (`access_step`), in whatever order the requests run
(`access_run`). So a token that nobody revokes is alive to the end of its
lifetime and no longer.
-/

namespace JwtService

open Interaction Redis

variable {ι : Type} [DecidableEq ι] {env : Env} {libs : Libs} {adm : ι → Admission}
  {req : ι → Request} {s : JwkService} {jti : String}

/-- Somebody has sent a deletion that names the key. -/
def DeletionSent (k : String) (tr : Events ι) : Prop :=
  ∃ j ks r, Event.call j (⟨.redis (.del ks), r⟩ : Call svc) ∈ tr ∧ k ∈ ks

omit [DecidableEq ι] in
theorem DeletionSent.mono {k : String} {t u : Events ι} (h : DeletionSent k t) (hu : t ⊆ u) :
    DeletionSent k u := by
  obtain ⟨j, ks, r, hm, hk⟩ := h
  exact ⟨j, ks, r, hu hm, hk⟩

/-- Only a deletion writes the key of a spent access token. -/
theorem writes_access {h : Events ι} {w : World} {i : ι} {d : Cmd} (hs : Spent h w (.access jti))
    (hd : Disciplined (callsOf i h) (.redis d)) (ha : Addressed (.redis d)) (hw : jti ∈ d.writes) :
    ∃ ks, d = .del ks ∧ jti ∈ ks := by
  have hlooks : ∀ {k}, Prefixed k → k ≠ jti := fun hp hj => not_prefixed_uuid hs.1 (hj ▸ hp)
  cases d with
  | setEx k v secs =>
    cases List.mem_singleton.mp hw
    exact absurd rfl (not_created hs hd)
  | del ks => exact ⟨ks, rfl, hw⟩
  | ping | «exists» | zrange | hgetAll => cases hw
  | _ =>
    have hk := List.mem_singleton.mp hw
    exact absurd hk.symm (hlooks (ha _ List.mem_cons_self))

/-- One call leaves the key of a spent access token as it is, or deletes it by its name. -/
theorem access_step {h : Events ι} {w w' : World} {i : ι} {e : Eff} {r : e.Reply}
    (hs : Spent h w (.access jti)) (hd : Disciplined (callsOf i h) e) (ha : Addressed e)
    (hstep : (service s).call w e r w') :
    w'.db jti = w.db jti ∨ w'.db jti = none ∧ ∃ ks, e = .redis (.del ks) ∧ jti ∈ ks := by
  by_cases hdel : ∃ ks, e = .redis (.del ks) ∧ jti ∈ ks
  · obtain ⟨ks, rfl, hk⟩ := hdel
    rcases call_redis hstep with ⟨rfl, -⟩ | ⟨rfl, -⟩
    · exact .inl rfl
    · exact .inr ⟨if_pos hk, ks, rfl, hk⟩
  · refine .inl (call_of_not_writes hstep fun c hc hw => hdel ?_)
    subst hc
    obtain ⟨ks, rfl, hk⟩ := writes_access hs hd ha hw
    exact ⟨ks, rfl, hk⟩

/-- The key of a spent access token holds what it held, or was deleted since. -/
theorem access_run (ht : libs.json.Faithful) {t₁ t₂ : Events ι} {P₁ P₂ : Pool svc World ι HttpResponse}
    (h₁ : (service s).Run (start env libs adm req) t₁ P₁) (hs : Spent t₁ P₁.st (.access jti))
    (h₂ : (service s).Run P₁ t₂ P₂) :
    P₂.st.db jti = P₁.st.db jti ∨ P₂.st.db jti = none ∧ DeletionSent jti t₂ := by
  let I : Events ι → World → Prop := fun h w => Spent h w (.access jti) ∧
    ∃ t, h = t₁ ++ t ∧ (w.db jti = P₁.st.db jti ∨ w.db jti = none ∧ DeletionSent jti t)
  have hw : ∀ i, Prog.wp (fun h e => Disciplined h e ∧ Addressed e) (callsOf i t₁) (P₁.prog i)
      fun h resp => StoredToken libs h resp ∧ True := by
    have hstart : ∀ i, Prog.wp (fun h e => Disciplined h e ∧ Addressed e) (callsOf i ([] : Events ι))
        ((start env libs adm req).prog i) fun h resp => StoredToken libs h resp ∧ True :=
      fun i => Prog.wp_and (serve_disciplined env libs ht (adm i) (req i)) (serve_addressed (adm i) (req i))
    exact h₁.wp hstart
  obtain ⟨-, t, he, hdb⟩ : I (t₁ ++ t₂) P₂.st := by
    refine h₂.inv (fun h w i e r w' hI hd hstep => ?_) (fun h w l w' hI hstep => ?_) hw
      ⟨hs, [], (List.append_nil t₁).symm, .inl rfl⟩
    · obtain ⟨hs, t, rfl, hdb⟩ := hI
      refine ⟨hs.step hstep, t ++ [.call i ⟨e, r⟩], List.append_assoc .., ?_⟩
      rcases access_step hs hd.1 hd.2 hstep with hsame | ⟨hnone, ks, rfl, hk⟩
      · rw [hsame]
        exact hdb.imp_right fun h => ⟨h.1, h.2.mono (List.subset_append_left _ _)⟩
      · exact .inr ⟨hnone, i, ks, r, by simp, hk⟩
    · obtain ⟨hs, t, rfl, hdb⟩ := hI
      cases hstep
      exact ⟨hs.env, t ++ [.env l], List.append_assoc ..,
        hdb.imp_right fun h => ⟨h.1, h.2.mono (List.subset_append_left _ _)⟩⟩
  cases List.append_cancel_left he
  exact hdb

/-- A command that sets a key and is answered has set it. -/
theorem call_setEx {w w' : World} {k v : String} {secs : Nat}
    (h : (service s).call w (.redis (.setEx k v secs)) (.ok ()) w') :
    w'.db k = some ⟨.str v, some (w.now + 1000 * secs)⟩ := by
  rcases call_redis h with ⟨-, e, he⟩ | ⟨rfl, he | ⟨e, he⟩⟩
  · cases he
  · simp only [Redis.exec] at he ⊢
    split at he
    · cases he
    · rename_i db' hdb
      show db' k = _
      rw [(setWithExpiry_eq_some hdb).2]
      exact Function.update_self ..
  · cases he

theorem call_utcNow {w w' : World} {now : Nat} (h : (service s).call w .utcNow now w') : now = w.now := by
  obtain ⟨ch, h⟩ := h
  cases ch with
  | plain => exact (congrArg Prod.fst (Option.some.inj h)).symm
  | _ => cases h

/-- From when its request has stored it, at a moment that is not before that of
its claims, the key of a token holds what was stored, or has been deleted since. -/
theorem Makes.alive (ht : libs.json.Faithful) {tr : Events ι} {P : Pool svc World ι HttpResponse}
    (hr : (service s).Run (start env libs adm req) tr P) {i : ι} {key : JwkData} {c : TokenClaims}
    {now secs : Nat} {token : String} (hm : Makes env libs key c now secs token (callsOf i tr)) :
    ∃ t₁ t₂ P₁, tr = t₁ ++ .call i ⟨.redis (.setEx c.jti "1" secs), .ok ()⟩ :: t₂ ∧
      (service s).Run (start env libs adm req) t₁ P₁ ∧ now ≤ P₁.st.now ∧
      (P.st.db c.jti = some ⟨.str "1", some (P₁.st.now + 1000 * secs)⟩ ∨
        P.st.db c.jti = none ∧ DeletionSent c.jti t₂) := by
  let set : Call svc := ⟨.redis (.setEx c.jti "1" secs), .ok ()⟩
  obtain ⟨as, bs, hmade, -⟩ := hm.calls
  have hcs : callsOf i tr = (as ++ [⟨.utcNow, now⟩, ⟨.newUuid, c.jti⟩]) ++ set :: bs := by
    rw [hmade, List.append_assoc]
    rfl
  obtain ⟨t₁, t₂, rfl, hbefore, -⟩ := callsOf_split hcs
  obtain ⟨P₁, P₂, h₁, hstep, h₂⟩ := hr.split_at
  have hput := h₁.trans (.cons hstep (.nil _))
  have hclock : now ≤ P₁.st.now := by
    have hread : Event.call i (⟨.utcNow, now⟩ : Call svc) ∈ t₁ := mem_callsOf.mp (by rw [hbefore]; simp)
    obtain ⟨u₁, u₂, rfl⟩ := List.append_of_mem hread
    obtain ⟨Q, Q', -, hs, hrest⟩ := h₁.split_at
    cases hs with
    | call _ hc =>
      rw [call_utcNow hc, run_now hrest]
      exact (call_now hc) ▸ Nat.le_add_right ..
  have hspent : Spent (t₁ ++ [.call i set]) P₂.st (.access c.jti) := by
    refine ((start_running ht).run hput).coherent.spent_of_stored (i := i) ?_
    have hcalls : callsOf i ([] ++ (t₁ ++ [Event.call i set])) =
        as ++ [⟨.utcNow, now⟩, ⟨.newUuid, c.jti⟩, set] := by
      rw [List.nil_append, callsOf_append, hbefore, List.append_assoc, callsOf_call_self]
      rfl
    rw [hcalls]
    exact ⟨by simp [Drew, Credential.uuid], set, by simp, "1", secs, rfl⟩
  refine ⟨t₁, t₂, P₁, rfl, h₁, hclock, ?_⟩
  have hdb : P₂.st.db c.jti = some ⟨.str "1", some (P₁.st.now + 1000 * secs)⟩ := by
    cases (show (service s).Step P₁ (.call i ⟨.redis (.setEx c.jti "1" secs), .ok ()⟩) P₂ from hstep) with
    | call _ hc => exact call_setEx hc
  rw [← hdb]
  exact access_run ht hput hspent h₂

/-- The claims in a token are those that are signed. -/
theorem SignedBy.claims {key : JwkData} {c c' : TokenClaims} {token : String}
    (h : SignedBy env libs key c token) (hc : JwtManager.claimsSegmentOf libs token = .ok c') :
    c' = { c with extra := c'.extra } := by
  obtain ⟨s₁, s₂, signature, sk, x, hsplit, -, hclaims, -⟩ := h
  rw [JwtManager.claimsSegmentOf, hsplit] at hc
  cases hclaims.symm.trans hc
  rfl

/-- From when its request has stored it, the key of a token that was handed out
holds what was stored, for a lifetime that ends no earlier than the claims say,
or has been deleted since. Nothing else ends, extends or restores it. -/
theorem token_alive (ht : libs.json.Faithful) {tr : Events ι} {P : Pool svc World ι HttpResponse}
    (hr : (service s).Run (start env libs adm req) tr P) (hnow : P.st.now / 1000 ≤ maxSeconds) {i : ι}
    {status : Nat} {token : String} {refresh : Option String} {c : TokenClaims}
    (hi : P.prog i = .ret ⟨status, .token token refresh⟩)
    (hc : JwtManager.claimsSegmentOf libs token = .ok c) :
    ∃ t₁ t₂ P₁ secs, tr = t₁ ++ .call i ⟨.redis (.setEx c.jti "1" secs), .ok ()⟩ :: t₂ ∧
      (service s).Run (start env libs adm req) t₁ P₁ ∧ 1000 * c.exp ≤ P₁.st.now + 1000 * secs ∧
      (P.st.db c.jti = some ⟨.str "1", some (P₁.st.now + 1000 * secs)⟩ ∨
        P.st.db c.jti = none ∧ DeletionSent c.jti t₂) := by
  obtain ⟨key, c₀, now, secs, hm, -, hclaims⟩ := made_of_handed_out ht hr hnow hi
  obtain ⟨t₁, t₂, P₁, htr, h₁, hle, hdb⟩ := hm.alive ht hr
  have he := (hm.signedBy ht).claims hc
  have hj : c.jti = c₀.jti := by rw [he]
  have hexp : c.exp = now / 1000 + secs := by rw [he, hclaims]; rfl
  rw [hj]
  exact ⟨t₁, t₂, P₁, secs, htr, h₁, by omega, hdb⟩

theorem token_alive_user : ∃ (tr t₁ t₂ : Events Unit) (P P₁ : Pool svc World Unit HttpResponse)
    (access : String) (secs : Nat), (service ⟨300000, 10000, 10000⟩).Run
        (start bareEnv echoLibs (fun _ => admitted) issueForUser) tr P ∧
      P.prog () = .ret ⟨200, .token access none⟩ ∧
      tr = t₁ ++ .call () ⟨.redis (.setEx uuidA "1" secs), .ok ()⟩ :: t₂ ∧
      60000 ≤ P₁.st.now + 1000 * secs ∧
      (P.st.db uuidA = some ⟨.str "1", some (P₁.st.now + 1000 * secs)⟩ ∨
        P.st.db uuidA = none ∧ DeletionSent uuidA t₂) := by
  obtain ⟨tr, P, access, x, hr, hi, hnow, hc⟩ := issueForUser_run
  obtain ⟨t₁, t₂, P₁, secs, htr, -, hle, hdb⟩ := token_alive echo_faithful hr (by rw [hnow]; decide) hi hc
  exact ⟨tr, t₁, t₂, P, P₁, access, secs, hr, hi, htr, hle, hdb⟩

end JwtService

import JwtService.Proof.Addressed
import JwtService.Proof.Subjects
import JwtService.Proof.Survivors

/-!
# What a single revocation touches

`DELETE /tokens/{jti}` deletes the key that its path names. The `jti` of a
token is a key of its own, but so are the indexes, the refresh records and the
reserved codes, and the path may name any of them. `TouchesOnly` says what a
revocation is to leave alone, and `single_revocation_iff` that it does so
exactly when the path does not name one of these keys that still serves
(`World.Serves`).
-/

namespace JwtService

open Interaction Redis

/-- A hash keeps its fields until it expires. -/
theorem Db.fields_mono {db : Db} {now now' : Nat} {k : String} (h : now ≤ now') :
    db.fields now' k = db.fields now k ∨ db.fields now' k = [] := by
  cases hg : db.get now' k with
  | none => exact .inr (Db.fields_of_none hg)
  | some e =>
    left
    rw [Db.fields, Db.fields, hg, Db.get_of_later h hg]

theorem Db.isSome_of_later {db : Db} {now now' : Nat} {k : String} (h : now ≤ now')
    (hk : (db.get now' k).isSome = true) : (db.get now k).isSome = true := by
  obtain ⟨e, he⟩ := Option.isSome_iff_exists.mp hk
  rw [Db.get_of_later h he]
  rfl

/-! ## What is to be left alone -/

/-- The code of this fingerprint is reserved. -/
def World.Claimed (w : World) (hash : String) : Prop := (w.db.get w.now (totpCodeKey hash)).isSome = true

/-- The key is there, and a revocation of the group ends it. -/
def Ends (S : Prog.Sem svc World) (w : World) (g j : String) : Prop :=
  (w.db.get w.now j).isSome = true ∧
    ∃ r w', Alone S (RedisClient.revokeGroup g) w r w' ∧ w'.db.get w.now j = none

/-- What the revocation of `jti` that makes `w'` of `w` is to leave alone, now
and at every later moment. -/
structure TouchesOnly (S : Prog.Sem svc World) (t : JsonText) (w w' : World) (jti : String) : Prop where
  /-- Every other token is verified as before. -/
  verify : ∀ (c : TokenClaims) (issuer audience : String) (d : Nat) (b : Bool), c.jti ≠ jti →
    ((∃ x, Alone S (c.isVerify (redisClient t) issuer audience) (w'.tick d) b x) ↔
      ∃ x, Alone S (c.isVerify (redisClient t) issuer audience) (w.tick d) b x)
  /-- Every refresh record is there as before, and marked as before. -/
  refresh : ∀ id d, (w'.tick d).record t id = (w.tick d).record t id ∧
    (w'.tick d).used id = (w.tick d).used id
  totp : ∀ hash d, (w.tick d).Claimed hash → (w'.tick d).Claimed hash
  /-- Every bulk revocation and every kill of a family ends the same keys. -/
  groups : ∀ g, IsGroup g → ∀ d j, j ≠ jti → (Ends S (w'.tick d) g j ↔ Ends S (w.tick d) g j)

/-- The string names a key of the store that is no access token's and still
serves: a refresh record or the mark of one, a reserved code, or an index that
lists a token or a record that is there. -/
def World.Serves (w : World) (t : JsonText) (jti : String) : Prop :=
  (∃ id, jti = refreshKey id ∧ (w.record t id ≠ none ∨ w.used id = true)) ∨
    (∃ hash, jti = totpCodeKey hash ∧ w.Claimed hash) ∨
      IsGroup jti ∧ ∃ j ∈ w.db.listed w.now jti (timestamp w.now), (w.db.get w.now j).isSome = true

/-! ## A revocation -/

section Alone

variable {S : Prog.Sem svc World} [Orderly S] {t : JsonText} {w w' : World} {jti g j : String}

theorem World.Sound.group_isSet (hw : w.Sound) (hg : IsGroup g) : w.db.IsSet w.now g := by
  rcases hg with ⟨s, rfl⟩ | ⟨f, rfl⟩
  · exact hw.subject_isSet s
  · exact hw.family_isSet f

/-- The members of an index are credentials. -/
theorem listed_credential (hw : w.Sound) (hg : IsGroup g) {max : Int}
    (hj : j ∈ w.db.listed w.now g max) : ∃ c : Credential, j = c.key ∧ w.Knows c := by
  rcases hg with ⟨s, rfl⟩ | ⟨f, rfl⟩
  · exact ⟨.access j, rfl, listed_in_subject hw hj⟩
  · obtain ⟨x, hx, rfl⟩ := List.mem_map.mp hj
    have hx := List.mem_of_mem_filter hx
    rcases (hw.family_isSet f).cases with hg | ⟨ms, t, hg⟩
    · rw [Db.members_of_none hg] at hx
      cases hx
    · obtain ⟨ms', hv, hc⟩ := (Db.Shape.get hw hg).family_inv
      cases hv
      rw [Db.members_of_get hg] at hx
      exact hc x hx

/-- A revocation of the group ends the members that are listed, and the index. -/
theorem ends_iff (hw : w.Sound) (hg : IsGroup g) : Ends S w g j ↔
    (w.db.get w.now j).isSome = true ∧ j ∈ g :: w.db.listed w.now g (timestamp w.now) := by
  refine and_congr_right fun hlive => ?_
  constructor
  · rintro ⟨r, w', h, hgone⟩
    obtain ⟨-, rfl⟩ := (alone_revokeGroup (hw.group_isSet hg) r w').mp h
    rw [World.setDb_db, Db.get_delAll] at hgone
    by_contra hj
    rw [if_neg hj] at hgone
    rw [hgone] at hlive
    cases hlive
  · intro hj
    refine ⟨_, _, (alone_revokeGroup (hw.group_isSet hg) _ _).mpr ⟨rfl, rfl⟩, ?_⟩
    rw [World.setDb_db, Db.get_delAll, if_pos hj]

/-- What is listed later is listed now. -/
theorem mem_listed_of_later {db : Db} {now : Nat} {d : Nat}
    (h : j ∈ db.listed (now + d) g (timestamp (now + d))) : j ∈ db.listed now g (timestamp now) := by
  obtain ⟨x, hx, rfl⟩ := List.mem_map.mp h
  obtain ⟨hx, hscore⟩ := List.mem_filter.mp hx
  refine List.mem_map.mpr ⟨x, List.mem_filter.mpr
    ⟨Db.mem_members_of_later (Nat.le_add_right now d) hx, ?_⟩, rfl⟩
  have hle : timestamp now ≤ timestamp (now + d) := Nat.div_le_div_right (Nat.le_add_right now d)
  have hlt : (timestamp (now + d) : Int) < x.2 := of_decide_eq_true hscore
  exact decide_eq_true (show (timestamp now : Int) < x.2 by omega)

omit [Orderly S] in
theorem touchesOnly_refl : TouchesOnly S t w w jti :=
  ⟨fun _ _ _ _ _ _ => Iff.rfl, fun _ _ => ⟨rfl, rfl⟩, fun _ _ h => h, fun _ _ _ _ _ => Iff.rfl⟩

/-- The world after the key was deleted. -/
abbrev World.without (w : World) (k : String) : World := w.setDb (w.db.delAll [k])

theorem World.without_ne (h : j ≠ jti) : (w.without jti).db j = w.db j :=
  Db.delAll_of_not_mem (by simpa using h)

theorem World.without_get_self (now : Nat) : (w.without jti).db.get now jti = none := by
  rw [World.setDb_db, Db.get_delAll, if_pos List.mem_cons_self]

theorem World.without_get_ne (h : j ≠ jti) (now : Nat) : (w.without jti).db.get now j = w.db.get now j :=
  Db.get_congr (World.without_ne h)

theorem touchesOnly_without (hw : w.Sound) (hs : ¬ w.Serves t jti) :
    TouchesOnly S t w (w.without jti) jti where
  verify c issuer audience d b hj := by
    have hget : ((w.without jti).tick d).db.get (w.now + d) c.jti = (w.tick d).db.get (w.now + d) c.jti :=
      World.without_get_ne hj _
    constructor
    · rintro ⟨x, h⟩
      obtain ⟨rfl, -⟩ := (alone_isVerify b x).mp h
      exact ⟨_, (alone_isVerify _ _).mpr ⟨congrArg (_ && Option.isSome ·) hget, rfl⟩⟩
    · rintro ⟨x, h⟩
      obtain ⟨rfl, -⟩ := (alone_isVerify b x).mp h
      exact ⟨_, (alone_isVerify _ _).mpr ⟨congrArg (_ && Option.isSome ·) hget.symm, rfl⟩⟩
  refresh id d := by
    by_cases hk : refreshKey id = jti
    · -- What is not there stays away.
      have hrec : w.record t id = none ∧ w.used id = false := by
        constructor
        · by_contra h
          exact hs (.inl ⟨id, hk.symm, .inl h⟩)
        · by_contra h
          exact hs (.inl ⟨id, hk.symm, .inr (by simpa using h)⟩)
      have hgone : (w.without jti).db.fields (w.now + d) (refreshKey id) = [] :=
        Db.fields_of_none (hk ▸ World.without_get_self _)
      have hlater := @Db.fields_mono w.db w.now (w.now + d) (refreshKey id) (Nat.le_add_right _ _)
      have hnil : RedisClient.recordOfFields t [] = none := rfl
      simp only [World.record, World.used] at hrec ⊢
      show RedisClient.recordOfFields t ((w.without jti).db.fields (w.now + d) (refreshKey id)) =
          RedisClient.recordOfFields t (w.db.fields (w.now + d) (refreshKey id)) ∧
        decide ("used" ∈ ((w.without jti).db.fields (w.now + d) (refreshKey id)).map Prod.fst) =
          decide ("used" ∈ (w.db.fields (w.now + d) (refreshKey id)).map Prod.fst)
      rcases hlater with h | h
      · rw [hgone, h, hrec.1, hrec.2]
        exact ⟨hnil, rfl⟩
      · rw [hgone, h]
        exact ⟨rfl, rfl⟩
    · have hfields : (w.without jti).db.fields (w.now + d) (refreshKey id) =
          w.db.fields (w.now + d) (refreshKey id) := by
        rw [Db.fields, Db.fields, World.without_get_ne hk]
      constructor
      · exact congrArg (RedisClient.recordOfFields t) hfields
      · exact congrArg (fun fs => decide ("used" ∈ fs.map Prod.fst)) hfields
  totp hash d h := by
    have hne : totpCodeKey hash ≠ jti := by
      intro hk
      have hlive : (w.db.get (w.now + d) (totpCodeKey hash)).isSome = true := h
      exact hs (.inr (.inl ⟨hash, hk.symm, Db.isSome_of_later (Nat.le_add_right w.now d) hlive⟩))
    show ((w.without jti).db.get (w.now + d) (totpCodeKey hash)).isSome = true
    rw [World.without_get_ne hne]
    exact h
  groups g hg d j hj := by
    have hw' : ((w.without jti).tick d).Sound := hw.delAll _
    rw [ends_iff hw' hg, ends_iff (hw.tick d) hg]
    show ((w.without jti).db.get (w.now + d) j).isSome = true ∧
        j ∈ g :: (w.without jti).db.listed (w.now + d) g (timestamp (w.now + d)) ↔
      (w.db.get (w.now + d) j).isSome = true ∧ j ∈ g :: w.db.listed (w.now + d) g (timestamp (w.now + d))
    rw [World.without_get_ne hj]
    refine and_congr_right fun hlive => ?_
    by_cases hk : g = jti
    · subst hk
      rw [Db.listed, Db.members_of_none (World.without_get_self _)]
      constructor
      · intro h
        exact absurd (List.mem_singleton.mp h) hj
      · intro h
        have hlisted := mem_listed_of_later ((List.mem_cons.mp h).resolve_left hj)
        exact absurd (.inr (.inr ⟨hg, j, hlisted, Db.isSome_of_later (Nat.le_add_right w.now d) hlive⟩)) hs
    · rw [Db.listed, Db.listed, Db.members_congr (World.without_ne hk)]

/-- A key that serves is missed. -/
theorem not_touchesOnly_without (hw : w.Sound) (hs : w.Serves t jti) :
    ¬ TouchesOnly S t w (w.without jti) jti := by
  intro h
  rcases hs with ⟨id, rfl, hserve⟩ | ⟨hash, rfl, hserve⟩ | ⟨hg, j, hj, hlive⟩
  · have hgone : (w.without (refreshKey id)).db.fields w.now (refreshKey id) = [] :=
      Db.fields_of_none (World.without_get_self _)
    obtain ⟨hrec, hused⟩ := h.refresh id 0
    rcases hserve with hserve | hserve
    · refine hserve (hrec.symm.trans ?_)
      exact congrArg (RedisClient.recordOfFields t) hgone
    · have hnone : ((w.without (refreshKey id)).tick 0).used id = false :=
        congrArg (fun fs : List (String × String) => decide ("used" ∈ fs.map Prod.fst)) hgone
      have : w.used id = false := hused.symm.trans hnone
      rw [this] at hserve
      cases hserve
  · have hstill : ((w.without (totpCodeKey hash)).db.get w.now (totpCodeKey hash)).isSome = true :=
      h.totp hash 0 hserve
    rw [World.without_get_self] at hstill
    cases hstill
  · have hne : j ≠ jti := by
      rintro rfl
      obtain ⟨c, hc, hk⟩ := listed_credential hw hg hj
      rcases hg with ⟨s, rfl⟩ | ⟨f, rfl⟩
      · exact c.key_ne_subject hk.1 s hc.symm
      · exact c.key_ne_family hk.1 f hc.symm
    have hends : Ends S (w.tick 0) jti j := (ends_iff hw hg).mpr ⟨hlive, List.mem_cons_of_mem _ hj⟩
    have hends := (h.groups jti hg 0 j hne).mpr hends
    obtain ⟨-, hmem⟩ := (ends_iff (show ((w.without jti).tick 0).Sound from hw.delAll _) hg).mp hends
    have hnil : (w.without jti).db.listed w.now jti (timestamp w.now) = [] := by
      rw [Db.listed, Db.members_of_none (World.without_get_self _)]
      rfl
    rcases List.mem_cons.mp hmem with h | h
    · exact hne h
    · have h : j ∈ (w.without jti).db.listed w.now jti (timestamp w.now) := h
      rw [hnil] at h
      cases h

/-- A revocation deletes the key, or a lost command leaves everything as it was. -/
theorem revokeToken_outcomes {s : JwkService} {env : Env} {libs : Libs} {resp : HttpResponse}
    (h : Alone (service s).call (handle env libs (redisClient libs.json) (.revokeToken jti)) w resp w') :
    w' = w ∨ w' = w.without jti := by
  have honly : @Prog.Only svc _ (fun e => e = .redis (.del [jti]) ∨ ∃ m, e = .metric m)
      (handle env libs (redisClient libs.json) (.revokeToken jti)) := by
    refine Prog.only_bind (Prog.only_bind ?_ fun r => ?_) fun r => ?_
    · exact Prog.only_liftE (Prog.only_mapError ⟨.inl rfl, fun _ => trivial⟩)
    · match r with
      | .ok (.ok ()) => exact ⟨.inr ⟨_, rfl⟩, fun _ => trivial⟩
      | .ok (.error _) => exact trivial
      | .error _ => exact trivial
    · cases r <;> exact trivial
  refine Prog.Only.keeps (I := fun x => x = w ∨ x = w.without jti) honly (fun x e r y he hc hx => ?_) h (.inl rfl)
  rcases he with rfl | ⟨m, rfl⟩
  · rcases call_redis hc with ⟨rfl, -⟩ | ⟨rfl, -⟩
    · exact hx
    · right
      rcases hx with rfl | rfl
      · rfl
      · have hdel : (w.db.delAll [jti]).delAll [jti] = w.db.delAll [jti] :=
          Db.delAll_of_eq fun k hk => Db.delAll_of_not_mem hk
        exact congrArg w.setDb hdel
  · rw [call_metric hc]
    exact hx

theorem World.Serves.prefixed (h : w.Serves t jti) : Prefixed jti := by
  rcases h with ⟨id, h, -⟩ | ⟨hash, h, -⟩ | ⟨h, -⟩
  · exact .inr (.inl ⟨id, h⟩)
  · exact .inr (.inr ⟨hash, h⟩)
  · exact .inl h

/-- A key without a prefix, or one that is not there. -/
theorem agree_without (h : ¬ Prefixed jti ∨ w.db.get w.now jti = none) :
    World.Agree (fun k => k = jti ∧ ¬ Prefixed k) w (w.without jti) := by
  refine ⟨_, rfl, fun k hk d hd => ?_⟩
  by_cases hkj : k = jti
  · subst hkj
    have hgone : w.db.get w.now k = none := h.resolve_left fun hp => hk ⟨rfl, hp⟩
    rw [Db.get_delAll, if_pos List.mem_cons_self, Db.get_none_mono hd hgone]
  · exact World.without_get_ne hkj d

end Alone

section Runs

variable {ι : Type} [DecidableEq ι] {env : Env} {libs : Libs} {adm : ι → Admission} {rq : ι → Request}
  {s : JwkService}

/-- What the requests do from `w` they do from `w'`, as long as none asks for the
token `jti`: they are answered the same and leave the same, but for the key `jti`. -/
def SameLater (s : JwkService) (prog : ι → M HttpResponse) (jti : String) (w w' : World) : Prop :=
  ∀ (t : Events ι) (Q : Pool svc World ι HttpResponse), NotAsked (· = jti) t →
    (service s).Run ⟨w, prog⟩ t Q →
      ∃ x, (service s).Run ⟨w', prog⟩ t ⟨x, Q.prog⟩ ∧ World.Agree (· = jti) Q.st x

theorem sameLater_of_agree {h₀ : Events ι} {prog : ι → M HttpResponse} {jti : String} {w w' : World}
    (hp : ∀ i, Prog.wp (fun _ e => Addressed e) (callsOf i h₀) (prog i) fun _ _ => True)
    (hw : World.Agree (fun k => k = jti ∧ ¬ Prefixed k) w w') : SameLater s prog jti w w' := by
  intro t Q hq hr
  obtain ⟨x, hx, db, rfl, hdb⟩ := run_agree (fun _ hk => hk.2) hp hr (fun i k r hm hk => hq i k r hm hk.1) hw
  exact ⟨_, hx, db, rfl, fun k hk => hdb k fun h => hk h.1⟩

/-- In every state that the service reaches, a single revocation leaves alone
what it is to leave alone exactly when its path does not name a key that
serves. Of a key without a prefix, and of one that is not there, no later
request sees more than that the token `jti` is gone. -/
theorem single_revocation_iff (ht : libs.json.Faithful) {tr : Events ι}
    {P : Pool svc World ι HttpResponse} (hr : (service s).Run (start env libs adm rq) tr P) (jti : String) :
    ((∀ resp w', Alone (service s).call (handle env libs (redisClient libs.json) (.revokeToken jti))
      P.st resp w' → TouchesOnly (faultless s).call libs.json P.st w' jti) ↔ ¬ P.st.Serves libs.json jti) ∧
    (¬ Prefixed jti ∨ P.st.db.get P.st.now jti = none → ∀ resp w', Alone (service s).call
      (handle env libs (redisClient libs.json) (.revokeToken jti)) P.st resp w' →
        SameLater s P.prog jti P.st w' ∧ SameLater s P.prog jti w' P.st) := by
  have hw := (answered_run ht hr).1.sound
  refine ⟨⟨fun h hs => ?_, fun hs resp w' h => ?_⟩, fun hk resp w' h => ?_⟩
  · have hrevoke := (@alone_revokeToken (faultless s).call _ P.st _ libs _ jti).mpr ⟨rfl, rfl⟩
    exact not_touchesOnly_without hw hs (h _ _ (Prog.Eval.mono faultless_service hrevoke))
  · rcases revokeToken_outcomes h with rfl | rfl
    · exact touchesOnly_refl
    · exact touchesOnly_without hw hs
  · have hp : ∀ i, Prog.wp (fun _ e => Addressed e) (callsOf i ([] ++ tr)) (P.prog i) fun _ _ => True :=
      System.Run.wp (P := start env libs adm rq) (fun i => serve_addressed (adm i) (rq i)) hr
    have hagree : World.Agree (fun k => k = jti ∧ ¬ Prefixed k) P.st w' := by
      rcases revokeToken_outcomes h with rfl | rfl
      · exact ⟨_, rfl, .refl _⟩
      · exact agree_without hk
    exact ⟨sameLater_of_agree hp hagree, sameLater_of_agree hp hagree.symm⟩

/-- An issue for a user, by the only request. -/
def issueUser : Unit → Request := fun _ => .createToken (.text "host") ⟨"user", ["api"], some 60, false, []⟩

/-- After an issue the token is there, and listed for the user. -/
theorem echo_issueUser : ∃ (tr : Events Unit) (P : Pool svc World Unit HttpResponse),
    (service ⟨300000, 10000, 10000⟩).Run (start bareEnv echoLibs (fun _ => admitted) issueUser) tr P ∧
      P.st.Sound ∧ (P.st.db.get P.st.now uuidA).isSome = true ∧
      P.st.db.listed P.st.now (subjectGroup "user") (timestamp P.st.now) = [uuidA] := by
  obtain ⟨access, x, -, hissue⟩ := @echo_createToken ⟨300000, 10000, 10000⟩ World.empty sound_empty "user" 60
    uuidA ⟨by decide, nofun⟩ (by decide) (by decide) (by decide)
  obtain ⟨tr, hr, -⟩ := System.Run.of_eval (S := service ⟨300000, 10000, 10000⟩) (i := ())
    (P := start bareEnv echoLibs (fun _ => admitted) issueUser) (Prog.Eval.mono faultless_service hissue)
  let db := issueDb World.empty.db 0 "user" uuidA 60
  have hlive : (db.get 0 uuidA).isSome = true := by decide
  have hlisted : db.listed 0 (subjectGroup "user") (timestamp 0) = [uuidA] := by decide
  exact ⟨tr, _, hr, (answered_run echo_faithful hr).1.sound, hlive, hlisted⟩

/-- The token of the user is revoked, and nothing else is touched. -/
theorem single_revocation_iff_user : ∃ (tr : Events Unit) (P : Pool svc World Unit HttpResponse),
    (service ⟨300000, 10000, 10000⟩).Run (start bareEnv echoLibs (fun _ => admitted) issueUser) tr P ∧
      (P.st.db.get P.st.now uuidA).isSome = true ∧
      ∀ resp w', Alone (service ⟨300000, 10000, 10000⟩).call
        (handle bareEnv echoLibs (redisClient .compact) (.revokeToken uuidA)) P.st resp w' →
          TouchesOnly (faultless ⟨300000, 10000, 10000⟩).call .compact P.st w' uuidA := by
  obtain ⟨tr, P, hr, hs, hlive, -⟩ := echo_issueUser
  exact ⟨tr, P, hr, hlive, (single_revocation_iff echo_faithful hr uuidA).1.mpr fun h =>
    not_prefixed_uuid (by decide) h.prefixed⟩

/-- The path names the index of the user: the token is still there, and a bulk
revocation of the user, which would have ended it, ends it no more. -/
theorem single_revocation_takes_index : ∃ (tr : Events Unit) (P : Pool svc World Unit HttpResponse) (w' : World),
    (service ⟨300000, 10000, 10000⟩).Run (start bareEnv echoLibs (fun _ => admitted) issueUser) tr P ∧
      Alone (service ⟨300000, 10000, 10000⟩).call
        (handle bareEnv echoLibs (redisClient .compact) (.revokeToken "group:sub:user")) P.st ⟨204, .empty⟩ w' ∧
      Ends (faultless ⟨300000, 10000, 10000⟩).call P.st (subjectGroup "user") uuidA ∧
      (w'.db.get w'.now uuidA).isSome = true ∧
      ¬ Ends (faultless ⟨300000, 10000, 10000⟩).call w' (subjectGroup "user") uuidA := by
  obtain ⟨tr, P, hr, hs, hlive, hlisted⟩ := echo_issueUser
  have hrevoke := (@alone_revokeToken (faultless ⟨300000, 10000, 10000⟩).call _ P.st _ echoLibs _
    (subjectGroup "user")).mpr ⟨rfl, rfl⟩
  have hne : uuidA ≠ subjectGroup "user" := by decide
  refine ⟨tr, P, P.st.without (subjectGroup "user"), hr, Prog.Eval.mono faultless_service hrevoke, ?_, ?_, ?_⟩
  · refine (ends_iff hs (isGroup_subject "user")).mpr ⟨hlive, ?_⟩
    rw [hlisted]
    decide
  · rw [World.setDb_now, World.without_get_ne hne]
    exact hlive
  · intro h
    have hs' : (P.st.without (subjectGroup "user")).Sound := hs.delAll _
    obtain ⟨-, hmem⟩ := (ends_iff hs' (isGroup_subject "user")).mp h
    rw [Db.listed, Db.members_of_none (World.without_get_self _)] at hmem
    exact hne (List.mem_singleton.mp hmem)

end Runs

end JwtService

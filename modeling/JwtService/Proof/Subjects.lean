import JwtService.Proof.Past

/-!
# Bulk revocation of a subject

The group of a subject is to list every access token of the subject that can
still be used (`Indexed`). Each issue sets the expiry of the group to the
expiry of its own token, so the group of a subject vanishes with the token
issued last, and takes the tokens that live longer out of the index: the
property is kept exactly as long as no usable token of a subject outlives the
one issued last (`LastOutlives`).
-/

namespace JwtService

open Interaction Redis

/-- The token issued last for a subject. -/
def newest (gs : List Grant) (sub : String) : Option TokenClaims :=
  (gs.find? fun g => g.claims.sub = sub).map Grant.claims

/-- The token is neither expired nor revoked. -/
def Usable (w : World) (c : TokenClaims) : Prop :=
  w.now / 1000 < c.exp ∧ (w.db.get w.now c.jti).isSome = true

/-- Every usable token is in the group of its subject. -/
def Indexed (p : Past) : Prop :=
  ∀ g ∈ p.grants, Usable p.world g.claims →
    (g.claims.jti, (g.claims.exp : Int)) ∈
      p.world.db.members p.world.now (subjectGroup g.claims.sub)

/-- Time may pass by `d`: where the token issued last for a subject is over by
then, no other token of the subject is usable. -/
def LastOutlives (p : Past) (d : Nat) : Prop :=
  ∀ sub last, newest p.grants sub = some last → last.exp ≤ (p.world.now + d) / 1000 →
    ∀ g ∈ p.grants, g.claims.sub = sub → ¬ Usable (p.world.tick d) g.claims

/-- What holds in every history. -/
structure SubjectsOk (p : Past) : Prop where
  sound : p.world.Sound
  known : ∀ g ∈ p.grants, p.world.Knows (.access g.claims.jti)
  /-- A group expires with the token issued last for its subject. -/
  expiry : ∀ sub e, p.world.db.get p.world.now (subjectGroup sub) = some e →
    ∃ last, newest p.grants sub = some last ∧ e.expireAt = some (1000 * last.exp)
  /-- The key of a token goes within a second of the expiry of the token. -/
  lifetime : ∀ g ∈ p.grants, g.claims.exp ≤ maxSeconds ∧
    ∀ e, p.world.db.get p.world.now g.claims.jti = some e →
      ∃ t, e.expireAt = some t ∧ t < 1000 * (g.claims.exp + 1)
  indexed : Indexed p

section Subjects

variable {env : Env} {libs : Libs} {s : JwkService} {p : Past}

theorem newest_cons_eq {g : Grant} {gs : List Grant} {sub : String} (h : g.claims.sub = sub) :
    newest (g :: gs) sub = some g.claims := by
  simp [newest, h]

theorem newest_cons_ne {g : Grant} {gs : List Grant} {sub : String} (h : g.claims.sub ≠ sub) :
    newest (g :: gs) sub = newest gs sub := by
  simp [newest, h]

theorem Usable.of_later {w : World} {d : Nat} {c : TokenClaims} (h : Usable (w.tick d) c) :
    Usable w c := by
  obtain ⟨h₁, h₂⟩ := h
  refine ⟨Nat.lt_of_le_of_lt (Nat.div_le_div_right (Nat.le_add_right _ _)) h₁, ?_⟩
  obtain ⟨e, he⟩ := Option.isSome_iff_exists.mp h₂
  exact Option.isSome_iff_exists.mpr ⟨e, Db.get_of_later (Nat.le_add_right _ _) he⟩

/-- The members of a live group stay, until it expires. -/
theorem members_tick {w : World} {d : Nat} {k : String} {e : Entry} {t : Nat}
    (hg : w.db.get w.now k = some e) (ht : e.expireAt = some t) (hd : w.now + d < t) :
    w.db.members (w.now + d) k = w.db.members w.now k := by
  have hlater : w.db.get (w.now + d) k = some e := by
    refine Db.get_eq_some.mpr ⟨(Db.get_eq_some.mp hg).1, ?_⟩
    rw [Entry.liveAt, ht]
    exact decide_eq_true hd
  rw [Db.members, Db.members, hg, hlater]

/-- Time keeps the index exactly if it may pass. -/
theorem SubjectsOk.indexed_tick (h : SubjectsOk p) (d : Nat) :
    Indexed ⟨p.world.tick d, p.grants⟩ ↔ LastOutlives p d := by
  constructor
  · intro hi sub last hn hl g hg hs hu
    -- The group is live, so it has not reached the expiry of the last token.
    have hm := hi g hg hu
    rw [hs] at hm
    cases hget : p.world.db.get (p.world.now + d) (subjectGroup sub) with
    | none =>
      have hnone : p.world.db.members (p.world.now + d) (subjectGroup sub) = [] :=
        Db.members_of_none hget
      have hm' : (g.claims.jti, (g.claims.exp : Int)) ∈
        p.world.db.members (p.world.now + d) (subjectGroup sub) := hm
      rw [hnone] at hm'
      cases hm'
    | some e =>
      obtain ⟨last', hn', he⟩ := h.expiry sub e (Db.get_of_later (Nat.le_add_right _ _) hget)
      rw [hn] at hn'
      cases hn'
      have hlive := (Db.get_eq_some.mp hget).2
      rw [Entry.liveAt, he] at hlive
      have hlt := of_decide_eq_true hlive
      omega
  · intro hl g hg hu
    have hm := h.indexed g hg hu.of_later
    cases hget : p.world.db.get p.world.now (subjectGroup g.claims.sub) with
    | none =>
      rw [Db.members_of_none hget] at hm
      cases hm
    | some e =>
      obtain ⟨last, hn, he⟩ := h.expiry _ e hget
      have hlt : (p.world.now + d) / 1000 < last.exp := by
        by_contra hle
        exact hl _ last hn (by omega) g hg rfl hu
      show _ ∈ p.world.db.members (p.world.now + d) _
      rw [members_tick hget he (by omega)]
      exact hm

theorem SubjectsOk.tick (h : SubjectsOk p) {d : Nat} (hd : LastOutlives p d) :
    SubjectsOk ⟨p.world.tick d, p.grants⟩ :=
  ⟨h.sound.tick d, h.known, fun sub e he => h.expiry sub e (Db.get_of_later (Nat.le_add_right _ _) he),
    fun g hg => ⟨(h.lifetime g hg).1, fun e he =>
      (h.lifetime g hg).2 e (Db.get_of_later (Nat.le_add_right _ _) he)⟩,
    (h.indexed_tick d).mpr hd⟩

/-- A request that hands out nothing and leaves the groups of subjects alone,
or deletes a group with the tokens in it. -/
theorem SubjectsOk.removes (h : SubjectsOk p) {w' : World} (hs : w'.Sound) (hnow : w'.now = p.world.now)
    (hdrawn : ∀ u ∈ p.world.drawn, u ∈ w'.drawn) {ks : List String}
    (hdb : w'.db = p.world.db.delAll ks)
    (hks : ∀ sub, subjectGroup sub ∈ ks → ∀ g ∈ p.grants, g.claims.sub = sub →
      Usable p.world g.claims → g.claims.jti ∈ ks) : SubjectsOk ⟨w', p.grants⟩ := by
  have hget : ∀ k, w'.db.get w'.now k = if k ∈ ks then none else p.world.db.get p.world.now k := by
    intro k
    rw [hdb, hnow, Db.get_delAll]
  refine ⟨hs, fun g hg => ⟨(h.known g hg).1, hdrawn _ (h.known g hg).2⟩, fun sub e he => ?_,
    fun g hg => ⟨(h.lifetime g hg).1, fun e he => ?_⟩, fun g hg hu => ?_⟩
  · have he' : w'.db.get w'.now (subjectGroup sub) = some e := he
    rw [hget] at he'
    split at he'
    · cases he'
    · exact h.expiry sub e he'
  · have he' : w'.db.get w'.now g.claims.jti = some e := he
    rw [hget] at he'
    split at he'
    · cases he'
    · exact (h.lifetime g hg).2 e he'
  · obtain ⟨h₁, h₂⟩ : w'.now / 1000 < g.claims.exp ∧ (w'.db.get w'.now g.claims.jti).isSome = true := hu
    rw [hget] at h₂
    split at h₂
    · cases h₂
    · rename_i hj
      have hu' : Usable p.world g.claims := ⟨hnow ▸ h₁, h₂⟩
      have hn : subjectGroup g.claims.sub ∉ ks := fun hk => hj (hks _ hk g hg rfl hu')
      show _ ∈ w'.db.members w'.now _
      rw [hdb, hnow, Db.members_congr (Db.delAll_of_not_mem hn)]
      exact h.indexed g hg hu'

theorem SubjectsOk.idle (h : SubjectsOk p) {w' : World} (hs : w'.Sound) (hi : Idle p.world w') :
    SubjectsOk ⟨w', p.grants⟩ :=
  h.removes hs hi.now hi.drawn (show w'.db = p.world.db.delAll [] by rw [hi.db, Db.delAll_nil]) nofun

/-- A request that hands out a token. -/
theorem SubjectsOk.minted (h : SubjectsOk p) {w' : World} (hs : w'.Sound) {resp : HttpResponse}
    {sub : String} {c : TokenClaims} {seconds : Nat} {refresh : Option String}
    (hm : Minted libs p.world w' resp sub c seconds refresh) (chain : Option String) :
    SubjectsOk ⟨w', ⟨c, refresh, chain⟩ :: p.grants⟩ := by
  have hu := hm.fresh.1
  have hexp := hm.exp
  have hpos := hm.positive
  have hgroup := hm.group
  have hother : ∀ sub', sub' ≠ c.sub → w'.db (subjectGroup sub') = p.world.db (subjectGroup sub') :=
    fun _ => hm.otherGroup
  have hkey : ∀ g ∈ p.grants, w'.db g.claims.jti = p.world.db g.claims.jti :=
    fun g hg => hm.older (h.known g hg)
  refine ⟨hs, fun g hg => ?_, fun sub' e he => ?_, fun g hg => ?_, fun g hg hus => ?_⟩
  · rcases List.mem_cons.mp hg with rfl | hg
    · exact ⟨hu, hm.drawn⟩
    · exact hm.knows (h.known g hg)
  · have he' : w'.db.get w'.now (subjectGroup sub') = some e := he
    by_cases hne : sub' = c.sub
    · rw [hne, hgroup] at he'
      cases he'
      exact ⟨c, newest_cons_eq hne.symm, rfl⟩
    · rw [hm.now, Db.get_congr (hother _ hne)] at he'
      obtain ⟨last, hl, hx⟩ := h.expiry sub' e he'
      refine ⟨last, ?_, hx⟩
      show newest (⟨c, refresh, chain⟩ :: p.grants) sub' = _
      rw [newest_cons_ne fun e => hne e.symm]
      exact hl
  · have hb := hm.bounded
    rcases List.mem_cons.mp hg with rfl | hg
    · refine ⟨by show c.exp ≤ _; omega, fun e he => ?_⟩
      have he' : w'.db.get w'.now c.jti = some e := he
      rw [hm.get] at he'
      cases he'
      exact ⟨_, rfl, by show _ < 1000 * (c.exp + 1); omega⟩
    · refine ⟨(h.lifetime g hg).1, fun e he => (h.lifetime g hg).2 e ?_⟩
      have he' : w'.db.get w'.now g.claims.jti = some e := he
      rwa [hm.now, Db.get_congr (hkey g hg)] at he'
  · obtain ⟨h₁, h₂⟩ : w'.now / 1000 < g.claims.exp ∧ (w'.db.get w'.now g.claims.jti).isSome = true := hus
    show _ ∈ w'.db.members w'.now (subjectGroup g.claims.sub)
    rcases List.mem_cons.mp hg with rfl | hg
    · rw [Db.members_of_get hgroup]
      exact List.mem_cons_self
    · -- An older token was usable before, and has another `jti`.
      have hj : g.claims.jti ≠ c.jti := fun e => hm.fresh.2 (e ▸ (h.known g hg).2)
      rw [hm.now] at h₁ h₂
      rw [Db.get_congr (hkey g hg)] at h₂
      have hold := h.indexed g hg ⟨h₁, h₂⟩
      by_cases hne : g.claims.sub = c.sub
      · rw [hne, Db.members_of_get hgroup]
        rw [hne] at hold
        exact mem_zinsert.mpr (.inr ⟨hold, hj⟩)
      · rw [hm.now, Db.members_congr (hother _ hne)]
        exact hold

/-- The members of a family are no groups of subjects. -/
theorem not_listed_in_family {w : World} (hw : w.Sound) (family sub : String) (max : Int) :
    subjectGroup sub ∉ w.db.listed w.now (familyGroup family) max := by
  intro hm
  obtain ⟨x, hx, he⟩ := List.mem_map.mp hm
  have hx := List.mem_of_mem_filter hx
  rcases (hw.family_isSet family).cases with hg | ⟨ms, t, hg⟩
  · rw [Db.members_of_none hg] at hx
    cases hx
  · obtain ⟨ms', hv, hc⟩ := (Db.Shape.get hw hg).family_inv
    cases hv
    rw [Db.members_of_get hg] at hx
    obtain ⟨c, hk, hc⟩ := hc x hx
    exact c.key_ne_subject hc.1 sub (hk.symm.trans he)

/-- The members of a subject are access tokens. -/
theorem listed_in_subject {w : World} (hw : w.Sound) {sub m : String} {max : Int}
    (hm : m ∈ w.db.listed w.now (subjectGroup sub) max) : w.Knows (.access m) := by
  obtain ⟨x, hx, rfl⟩ := List.mem_map.mp hm
  have hx := List.mem_of_mem_filter hx
  rcases (hw.subject_isSet sub).cases with hg | ⟨ms, t, hg⟩
  · rw [Db.members_of_none hg] at hx
    cases hx
  · obtain ⟨ms', hv, hc⟩ := (Db.Shape.get hw hg).subject_inv
    cases hv
    rw [Db.members_of_get hg] at hx
    exact hc x hx

theorem SubjectsOk.step (h : SubjectsOk p) {r : Request} {resp : HttpResponse} {w' : World}
    (hs : w'.Sound) (he : Effect env libs p.world r resp w')
    (hdel : ∀ jti, r = .revokeToken jti → ∃ g ∈ p.grants, g.claims.jti = jti) :
    SubjectsOk ⟨w', granted libs p.grants r resp ++ p.grants⟩ := by
  cases he with
  | idle hi hb =>
    rw [granted_tokenless hb]
    exact h.idle hs hi
  | access hm _ =>
    rw [hm.granted]
    exact h.minted hs hm _
  | pair hm _ _ _ =>
    rw [hm.granted]
    exact h.minted hs hm _
  | exchange _ _ hm _ =>
    rw [hm.granted]
    exact h.minted hs hm _
  | kill _ _ hb =>
    rw [granted_tokenless hb]
    refine h.removes hs rfl (fun _ hu => hu) rfl fun sub hk => ?_
    rcases List.mem_cons.mp hk with hk | hk
    · exact absurd hk (subject_ne_family _ _)
    · exact absurd hk (not_listed_in_family h.sound _ _ _)
  | revoke jti hb =>
    rw [granted_tokenless hb]
    refine h.removes hs rfl (fun _ hu => hu) rfl fun sub hk => ?_
    obtain ⟨g, hg, hj⟩ := hdel jti rfl
    have hu := (h.known g hg).1
    exact absurd ((List.mem_singleton.mp hk).trans hj.symm) (subject_ne_uuid hu sub)
  | revokeSubject sub =>
    rw [granted_tokenless (by exact fun _ _ => nofun)]
    refine h.removes hs rfl (fun _ hu => hu) rfl fun sub' hk g hg hsub hu => ?_
    rcases List.mem_cons.mp hk with hk | hk
    · have hm := h.indexed g hg hu
      rw [hsub, hk] at hm
      refine List.mem_cons_of_mem _ (List.mem_map.mpr ⟨_, List.mem_filter.mpr ⟨hm, ?_⟩, rfl⟩)
      have := hu.1
      exact decide_eq_true (by unfold timestamp; omega)
    · have := (listed_in_subject h.sound hk).1
      exact absurd rfl (subject_ne_uuid this sub')

/-- In every history in which time passes only as it may, the index of every
subject is complete. -/
theorem Past.Reached.subjectsOk (ht : libs.json.Faithful)
    (hp : p.Reached env libs s LastOutlives) : SubjectsOk p := by
  induction hp with
  | start => exact ⟨sound_empty, (by exact nofun), (by exact fun _ _ h => nomatch h), (by exact nofun),
      (by exact nofun)⟩
  | request hp h hok hdel ih =>
    exact ih.step (ih.sound.handle ht h) (alone_handle ht ih.sound h hok) hdel
  | tick _ hd ih => exact ih.tick hd

/-- A token that is not usable does not pass verification, now or later. -/
theorem not_verified {w w' : World} {c : TokenClaims} (hu : ¬ Usable w c) (hmax : c.exp ≤ maxSeconds)
    (hlife : ∀ e, w.db.get w.now c.jti = some e →
      ∃ t, e.expireAt = some t ∧ t < 1000 * (c.exp + 1)) {t : JsonText} {issuer audience : String}
    {d : Nat} {b : Bool} {S : Prog.Sem svc World} [Orderly S]
    (h : Alone S (c.isVerify (redisClient t) issuer audience) (w.tick d) b w') : b = false := by
  obtain ⟨rfl, -⟩ := (alone_isVerify b w').mp h
  show (decide (c.Valid issuer audience (w.now + d)) && (w.db.get (w.now + d) c.jti).isSome) = false
  cases hget : w.db.get (w.now + d) c.jti with
  | none => rw [Option.isSome_none, Bool.and_false]
  | some e =>
    -- The key is there, so the token is over.
    have hbefore := Db.get_of_later (Nat.le_add_right _ _) hget
    have hle : c.exp ≤ w.now / 1000 := by
      by_contra hlt
      exact hu ⟨by omega, by rw [hbefore]; rfl⟩
    obtain ⟨t, ht, hlt⟩ := hlife e hbefore
    have hlive := (Db.get_eq_some.mp hget).2
    rw [Entry.liveAt, ht] at hlive
    have hnow := of_decide_eq_true hlive
    have hv : ¬ c.Valid issuer audience (w.now + d) := by
      rintro ⟨-, -, -, -, hv⟩
      rw [asUsize_timestamp_of (by omega)] at hv
      omega
    rw [decide_eq_false hv, Bool.false_and]

/-- No token of a subject is usable after a bulk revocation. -/
theorem SubjectsOk.revoked (h : SubjectsOk p) {sub : String} {w' : World}
    (hw' : w' = p.world.setDb (p.world.db.delAll (subjectGroup sub ::
      p.world.db.listed p.world.now (subjectGroup sub) (timestamp p.world.now)))) {g : Grant}
    (hg : g ∈ p.grants) (hs : g.claims.sub = sub) {t : JsonText} {issuer audience : String} {d : Nat}
    {b : Bool} {w'' : World} {S : Prog.Sem svc World} [Orderly S]
    (hb : Alone S (g.claims.isVerify (redisClient t) issuer audience) (w'.tick d) b w'') : b = false := by
  obtain ⟨hmax, hlife⟩ := h.lifetime g hg
  refine not_verified (fun hu => ?_) hmax (fun e he => ?_) hb
  · obtain ⟨hlt, hsome⟩ := hu
    rw [hw', World.setDb_now] at hlt
    rw [hw', World.setDb_now, World.setDb_db, Db.get_delAll] at hsome
    split at hsome
    · cases hsome
    · -- A usable token is listed, so it was deleted.
      rename_i hn
      have hm := h.indexed g hg ⟨hlt, hsome⟩
      rw [hs] at hm
      exact hn (List.mem_cons_of_mem _ (List.mem_map.mpr ⟨_, List.mem_filter.mpr
        ⟨hm, decide_eq_true (by unfold timestamp; omega)⟩, rfl⟩))
  · rw [hw', World.setDb_now, World.setDb_db, Db.get_delAll] at he
    split at he
    · cases he
    · exact hlife e he

/-- After a bulk revocation in such a history no token that was issued for the
subject passes verification. The index stays complete exactly as long as time
passes only as it may. -/
theorem subject_revocation_complete (ht : libs.json.Faithful)
    (hp : p.Reached env libs s LastOutlives) :
    Indexed p ∧ (∀ d, Indexed ⟨p.world.tick d, p.grants⟩ ↔ LastOutlives p d) ∧
      ∀ sub resp w', Alone (faultless s).call
          (handle env libs (redisClient libs.json) (.revokeSubjectTokens sub)) p.world resp w' →
        resp.status = 200 ∧ ∀ g ∈ p.grants, g.claims.sub = sub → ∀ issuer audience b w'',
          Alone (faultless s).call (g.claims.isVerify (redisClient libs.json) issuer audience) w' b w'' →
            b = false := by
  have hok := hp.subjectsOk ht
  refine ⟨hok.indexed, hok.indexed_tick, fun sub resp w' h => ?_⟩
  obtain ⟨rfl, hw'⟩ := (alone_revokeSubjectTokens hok.sound).mp h
  exact ⟨rfl, fun g hg hs issuer audience b w'' hb => hok.revoked (d := 0) hw' hg hs hb⟩

/-- A single token of a user is revoked with the user. -/
theorem subject_revocation_complete_user : ∃ (p : Past) (g : Grant) (resp : HttpResponse) (w' : World),
    p.Reached bareEnv echoLibs ⟨300000, 10000, 10000⟩ LastOutlives ∧ g ∈ p.grants ∧
      Alone (faultless ⟨300000, 10000, 10000⟩).call
        (handle bareEnv echoLibs (redisClient .compact) (.revokeSubjectTokens "user")) p.world resp w' ∧
      resp.status = 200 ∧ ∀ b w'', Alone (faultless ⟨300000, 10000, 10000⟩).call
        (g.claims.isVerify (redisClient .compact) "host" "api") w' b w'' → b = false := by
  have h₀ : Past.Reached bareEnv echoLibs ⟨300000, 10000, 10000⟩ LastOutlives ⟨World.empty, []⟩ := .start
  obtain ⟨x, h₁⟩ := echo_issue h₀ "user" (u := uuidA) ⟨by decide, nofun⟩
    (show 1 ≤ 60 by decide) (by decide) (by decide)
  have hrev := @echo_revokeSubject ⟨300000, 10000, 10000⟩ _ (h₁.sound echo_faithful) "user"
  obtain ⟨hst, hall⟩ := (subject_revocation_complete echo_faithful h₁).2.2 "user" _ _ hrev
  exact ⟨_, _, _, _, h₁, List.mem_cons_self, hrev, hst,
    fun b w'' hb => hall _ List.mem_cons_self rfl "host" "api" b w'' hb⟩

/-- A token of a day and, after it, a token of a second for the same user: two
seconds later the group is gone, and a bulk revocation leaves the first token
valid. -/
theorem subject_revocation_incomplete : ∃ (p : Past) (g : Grant) (resp : HttpResponse) (w' : World),
    p.Reached bareEnv echoLibs ⟨300000, 10000, 10000⟩ (fun _ _ => True) ∧ g ∈ p.grants ∧
      g.claims.sub = "user" ∧
      Alone (faultless ⟨300000, 10000, 10000⟩).call
        (handle bareEnv echoLibs (redisClient .compact) (.revokeSubjectTokens "user")) p.world resp w' ∧
      resp.status = 200 ∧ Alone (faultless ⟨300000, 10000, 10000⟩).call
        (g.claims.isVerify (redisClient .compact) "host" "api") w' true w' := by
  have h₀ : Past.Reached bareEnv echoLibs ⟨300000, 10000, 10000⟩ (fun _ _ => True)
    ⟨World.empty, []⟩ := .start
  obtain ⟨x, h₁⟩ := echo_issue h₀ "user" (u := uuidA) ⟨by decide, nofun⟩
    (show 1 ≤ 86400 by decide) (by decide) (by decide)
  obtain ⟨y, h₂⟩ := echo_issue h₁ "user" (u := uuidB) ⟨by decide, show uuidB ∉ [uuidA] by decide⟩
    (show 1 ≤ 1 by decide) (by decide) (show 0 / 1000 + 1 ≤ maxSeconds by decide)
  let db := issueDb (issueDb World.empty.db 0 "user" uuidA 86400) 0 "user" uuidB 1
  obtain ⟨p, hp, hdb, hnow, hg⟩ : ∃ p : Past,
      p.Reached bareEnv echoLibs ⟨300000, 10000, 10000⟩ (fun _ _ => True) ∧ p.world.db = db ∧
        p.world.now = 2000 ∧
        ⟨newClaims "host" "user" ["api"] 0 86400 uuidA x, none, none⟩ ∈ p.grants :=
    ⟨_, h₂.tick (d := 2000) trivial, rfl, rfl, List.mem_cons_of_mem _ List.mem_cons_self⟩
  have hrev := @echo_revokeSubject ⟨300000, 10000, 10000⟩ _ (hp.sound echo_faithful) "user"
  refine ⟨p, _, _, _, hp, hg, rfl, hrev, rfl, ?_⟩
  -- The group has expired, and the first token has not.
  have hlisted : db.listed 2000 (subjectGroup "user") (timestamp 2000) = [] := by decide
  have hkey : ((db.delAll [subjectGroup "user"]).get 2000 uuidA).isSome = true := by decide
  have hvalid : (newClaims "host" "user" ["api"] 0 86400 uuidA x).Valid "host" "api" 2000 :=
    newClaims_valid List.mem_cons_self (by decide) (by decide) (by decide)
  have hjti : (newClaims "host" "user" ["api"] 0 86400 uuidA x).jti = uuidA := rfl
  refine (alone_isVerify true _).mpr ⟨?_, rfl⟩
  simp only [World.setDb_now, World.setDb_db, hdb, hnow, hlisted, hjti, hkey, hvalid, decide_true,
    Bool.and_true]

/-! ## Refresh tokens -/

/-- A bulk revocation leaves the refresh records alone. -/
theorem revoked_refresh {w : World} (hw : w.Sound) (sub id : String) (max : Int) :
    w.db.delAll (subjectGroup sub :: w.db.listed w.now (subjectGroup sub) max) (refreshKey id) =
      w.db (refreshKey id) := by
  refine Db.delAll_of_not_mem fun hm => ?_
  rcases List.mem_cons.mp hm with hm | hm
  · exact subject_ne_refresh sub id hm.symm
  · have := (listed_in_subject hw hm).1
    exact refresh_ne_uuid this id rfl

/-- A bulk revocation ends the access tokens of the subject, for good, and
leaves every refresh record as it was. -/
theorem subject_revocation_spares_refresh (ht : libs.json.Faithful)
    (hp : p.Reached env libs s LastOutlives) {sub : String} {resp : HttpResponse} {w' : World}
    (h : Alone (faultless s).call (handle env libs (redisClient libs.json) (.revokeSubjectTokens sub))
      p.world resp w') :
    resp.status = 200 ∧
      (∀ g ∈ p.grants, g.claims.sub = sub → ∀ d issuer audience b w'', Alone (faultless s).call
        (g.claims.isVerify (redisClient libs.json) issuer audience) (w'.tick d) b w'' → b = false) ∧
      ∀ id, w'.db (refreshKey id) = p.world.db (refreshKey id) := by
  have hok := hp.subjectsOk ht
  obtain ⟨rfl, hw'⟩ := (alone_revokeSubjectTokens hok.sound).mp h
  refine ⟨rfl, fun g hg hs d issuer audience b w'' hb => hok.revoked hw' hg hs hb, fun id => ?_⟩
  rw [hw', World.setDb_db]
  exact revoked_refresh hok.sound sub id _

/-- The access token of a user's pair is revoked with the user. -/
theorem subject_revocation_spares_refresh_user : ∃ (p : Past) (g : Grant) (w' : World),
    p.Reached bareEnv echoLibs ⟨300000, 10000, 10000⟩ LastOutlives ∧ g ∈ p.grants ∧
      g.refresh = some uuidB ∧
      (∀ d b w'', Alone (faultless ⟨300000, 10000, 10000⟩).call
        (g.claims.isVerify (redisClient .compact) "host" "api") (w'.tick d) b w'' → b = false) ∧
      w'.db (refreshKey uuidB) = p.world.db (refreshKey uuidB) := by
  have h₀ : Past.Reached bareEnv echoLibs ⟨300000, 10000, 10000⟩ LastOutlives ⟨World.empty, []⟩ := .start
  obtain ⟨x, w, h₁, -⟩ := echo_pair h₀ "user" (u := uuidA) (f := uuidC) (i := uuidB)
    ⟨by decide, nofun⟩ ⟨by decide, show uuidA ∉ [uuidC] by decide⟩
    ⟨by decide, show uuidB ∉ [uuidA, uuidC] by decide⟩ (show 1 ≤ 60 by decide) (by decide)
    (show 0 / 1000 + 2592000 ≤ maxSeconds by decide)
  have hrev := @echo_revokeSubject ⟨300000, 10000, 10000⟩ _ (h₁.sound echo_faithful) "user"
  obtain ⟨-, hall, hrec⟩ := subject_revocation_spares_refresh echo_faithful h₁ hrev
  exact ⟨_, _, _, h₁, List.mem_cons_self, rfl,
    fun d b w'' hb => hall _ List.mem_cons_self rfl d "host" "api" b w'' hb, hrec uuidB⟩

/-- A refresh token of a user is exchanged after a bulk revocation of the user. -/
theorem subject_revocation_misses_refresh : ∃ (p : Past) (g : Grant) (resp : HttpResponse) (w' : World)
    (access id : String) (c : TokenClaims) (w'' : World),
    p.Reached bareEnv echoLibs ⟨300000, 10000, 10000⟩ LastOutlives ∧ g ∈ p.grants ∧
      g.claims.sub = "user" ∧ g.refresh = some uuidB ∧
      Alone (faultless ⟨300000, 10000, 10000⟩).call
        (handle bareEnv echoLibs (redisClient .compact) (.revokeSubjectTokens "user")) p.world resp w' ∧
      resp.status = 200 ∧ Alone (faultless ⟨300000, 10000, 10000⟩).call
        (JwtManager.refreshTokenPair bareEnv echoLibs (redisClient .compact) uuidB "host") w'
        (.ok (access, id)) w'' ∧
      JwtManager.claimsSegmentOf echoLibs access = .ok c ∧ c.sub = "user" := by
  have h₀ : Past.Reached bareEnv echoLibs ⟨300000, 10000, 10000⟩ LastOutlives ⟨World.empty, []⟩ := .start
  obtain ⟨x, w, h₁, hnow, hdrawn, hdb⟩ := echo_pair h₀ "user" (u := uuidA) (f := uuidC) (i := uuidB)
    ⟨by decide, nofun⟩ ⟨by decide, show uuidA ∉ [uuidC] by decide⟩
    ⟨by decide, show uuidB ∉ [uuidA, uuidC] by decide⟩ (show 1 ≤ 60 by decide) (by decide)
    (show 0 / 1000 + 2592000 ≤ maxSeconds by decide)
  have hsound := h₁.sound echo_faithful
  have hrev := @echo_revokeSubject ⟨300000, 10000, 10000⟩ _ hsound "user"
  let w' := w.setDb (w.db.delAll (subjectGroup "user" ::
    w.db.listed w.now (subjectGroup "user") (timestamp w.now)))
  have hs' : w'.Sound := Db.Shape.delAll hsound _
  -- The record is still there.
  have hget : w'.db.get w'.now (refreshKey uuidB) =
      some ⟨.hash (recordFields ⟨"user", ["api"], uuidC⟩ apiText), some (0 + 1000 * 2592000)⟩ := by
    refine Db.get_eq_some.mpr ⟨?_, ?_⟩
    · show w.db.delAll _ _ = _
      rw [revoked_refresh hsound, hdb]
      exact pairDb_refresh
    · rw [World.setDb_now, hnow]
      rfl
  have hrec : w'.record .compact uuidB = some ⟨"user", ["api"], uuidC⟩ := by
    rw [World.record, Db.fields_of_get hget]
    exact recordOfFields_of apiText_parse
  have hused : w'.used uuidB = false := by
    rw [World.used, Db.fields_of_get hget]
    decide
  have hdrawn' : w'.drawn = [uuidB, uuidA, uuidC] := hdrawn
  obtain ⟨access, y, w'', hc, hex, -⟩ := @echo_exchange ⟨300000, 10000, 10000⟩ w' hs' uuidB uuidC uuidD
    uuidE "user" hrec hused ⟨by decide, by rw [hdrawn']; decide⟩
    ⟨by decide, by rw [World.draw_drawn, hdrawn']; decide⟩ (by rw [World.setDb_now, hnow]; decide)
  exact ⟨_, _, _, w', access, uuidE, _, w'', h₁, List.mem_cons_self, rfl, rfl, hrev, rfl, hex, hc, rfl⟩

end Subjects

end JwtService

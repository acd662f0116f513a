import Mathlib.Data.List.Nodup
import JwtService.Proof.Subjects

/-!
# The count a bulk revocation reports

A bulk revocation counts the members of the index of its subject that have
not expired. Every one of them was handed out for the subject (`Listing`), and
those of them that still have their key are the tokens the revocation ends
(`ended_perm`): the count is true exactly when none has lost its key before.
It stays true in a history in which only bulk revocations take the keys of
listed tokens (`Past.Run`, `Spares`).
-/

namespace JwtService

open Interaction Redis

instance (w : World) (c : TokenClaims) : Decidable (Usable w c) :=
  inferInstanceAs (Decidable (_ ∧ _))

/-- The tokens of a subject that were usable in `w` and have no key in `w'`. -/
def ended (gs : List Grant) (w w' : World) (sub : String) : List Grant :=
  gs.filter fun g => g.claims.sub = sub ∧ Usable w g.claims ∧ (w'.db.get w'.now g.claims.jti).isSome = false

/-- The unexpired members of the index of a subject. -/
def World.subjectListed (w : World) (sub : String) : List String :=
  w.db.listed w.now (subjectGroup sub) (timestamp w.now)

/-- The histories of the service with requests that meet `G`, none of which
fails, and any time passing. -/
inductive Past.Run (env : Env) (libs : Libs) (s : JwkService) (G : Past → Request → Prop) : Past → Prop
  | start : Run env libs s G ⟨World.empty, []⟩
  | request {p : Past} {r : Request} {resp : HttpResponse} {w' : World} (hp : Run env libs s G p)
      (h : Alone (faultless s).call (handle env libs (redisClient libs.json) r) p.world resp w')
      (hok : resp.status ≠ 500) (hg : G p r) :
      Run env libs s G ⟨w', granted libs p.grants r resp ++ p.grants⟩
  | tick {p : Past} (hp : Run env libs s G p) (d : Nat) : Run env libs s G ⟨p.world.tick d, p.grants⟩

/-- No request meets only some of a weaker condition. -/
theorem Past.Run.mono {env : Env} {libs : Libs} {s : JwkService} {G G' : Past → Request → Prop} {p : Past}
    (hG : ∀ p r, G p r → G' p r) (hp : p.Run env libs s G) : p.Run env libs s G' := by
  induction hp with
  | start => exact .start
  | request _ h hok hg ih => exact .request ih h hok (hG _ _ hg)
  | tick _ d ih => exact .tick ih d

/-- The members of the index of every subject were handed out for it. -/
structure Listing (p : Past) : Prop where
  sound : p.world.Sound
  known : ∀ g ∈ p.grants, p.world.Knows (.access g.claims.jti)
  distinct : (p.grants.map fun g => g.claims.jti).Nodup
  member : ∀ sub x, x ∈ p.world.db.members p.world.now (subjectGroup sub) →
    ∃ g ∈ p.grants, g.claims.jti = x.1 ∧ g.claims.sub = sub ∧ (g.claims.exp : Int) = x.2
  names : ∀ sub, ((p.world.db.members p.world.now (subjectGroup sub)).map Prod.fst).Nodup

/-- An unexpired member of an index has its key until it expires. -/
def Keyed (p : Past) : Prop :=
  ∀ sub x, x ∈ p.world.db.members p.world.now (subjectGroup sub) → (p.world.now / 1000 : Nat) < x.2 →
    ∃ e t, p.world.db.get p.world.now x.1 = some e ∧ e.expireAt = some t ∧ 1000 * x.2 ≤ t

/-- A request that takes no key of a listed token, but with its index. -/
def Spares (libs : Libs) (p : Past) : Request → Prop
  | .revokeToken jti => ∀ sub, jti ∉ p.world.subjectListed sub
  | .refreshToken _ token => ∀ record, p.world.record libs.json token = some record →
      p.world.used token = true →
      ∀ m ∈ p.world.db.listed p.world.now (familyGroup record.family) (timestamp p.world.now),
        ∀ sub, m ∉ p.world.subjectListed sub
  | _ => True

section Counting

variable {env : Env} {libs : Libs} {s : JwkService} {p : Past} {w' : World} {sub : String}

/-! ## What time and deletions leave -/

theorem Listing.tick (h : Listing p) (d : Nat) : Listing ⟨p.world.tick d, p.grants⟩ := by
  have hle : p.world.now ≤ p.world.now + d := Nat.le_add_right _ _
  refine ⟨h.sound.tick d, h.known, h.distinct, fun sub x hx => h.member sub x ?_, fun sub => ?_⟩
  · exact Db.mem_members_of_later hle hx
  · show ((p.world.db.members (p.world.now + d) _).map Prod.fst).Nodup
    rcases @Db.members_mono p.world.db _ (subjectGroup sub) _ hle with he | he <;> rw [he]
    · exact h.names sub
    · exact List.nodup_nil

theorem Keyed.tick (h : Keyed p) (d : Nat) : Keyed ⟨p.world.tick d, p.grants⟩ := by
  intro sub x hx hlt
  have hx' : x ∈ p.world.db.members (p.world.now + d) (subjectGroup sub) := hx
  have hlt' : ((p.world.now + d) / 1000 : Nat) < x.2 := hlt
  obtain ⟨e, t, he, ht, hle⟩ := h sub x (Db.mem_members_of_later (Nat.le_add_right _ _) hx') (by omega)
  refine ⟨e, t, Db.get_eq_some.mpr ⟨(Db.get_eq_some.mp he).1, ?_⟩, ht, hle⟩
  rw [Entry.liveAt, ht]
  show decide (p.world.now + d < t) = true
  exact decide_eq_true (by omega)

theorem Listing.removes (h : Listing p) (hs : w'.Sound) (hnow : w'.now = p.world.now)
    (hdrawn : ∀ u ∈ p.world.drawn, u ∈ w'.drawn) {ks : List String}
    (hdb : w'.db = p.world.db.delAll ks) : Listing ⟨w', p.grants⟩ := by
  have hm : ∀ sub, (subjectGroup sub ∉ ks ∧ w'.db.members w'.now (subjectGroup sub) =
      p.world.db.members p.world.now (subjectGroup sub)) ∨
      w'.db.members w'.now (subjectGroup sub) = [] := by
    intro sub
    rw [hdb, hnow]
    exact Db.members_delAll ks
  refine ⟨hs, fun g hg => ⟨(h.known g hg).1, hdrawn _ (h.known g hg).2⟩, h.distinct, fun sub x hx => ?_,
    fun sub => ?_⟩
  · have hx' : x ∈ w'.db.members w'.now (subjectGroup sub) := hx
    rcases hm sub with ⟨-, he⟩ | he <;> rw [he] at hx'
    · exact h.member sub x hx'
    · cases hx'
  · show ((w'.db.members w'.now (subjectGroup sub)).map Prod.fst).Nodup
    rcases hm sub with ⟨-, he⟩ | he <;> rw [he]
    · exact h.names sub
    · exact List.nodup_nil

/-- Keys are deleted that are not listed, or are with their index. -/
theorem Keyed.removes (h : Keyed p) (hnow : w'.now = p.world.now) {ks : List String}
    (hdb : w'.db = p.world.db.delAll ks)
    (hks : ∀ sub, subjectGroup sub ∉ ks → ∀ m ∈ p.world.subjectListed sub, m ∉ ks) :
    Keyed ⟨w', p.grants⟩ := by
  intro sub x hx hlt
  have hx' : x ∈ w'.db.members w'.now (subjectGroup sub) := hx
  have hlt' : (w'.now / 1000 : Nat) < x.2 := hlt
  rw [hdb, hnow] at hx'
  rw [hnow] at hlt'
  rcases @Db.members_delAll p.world.db p.world.now (subjectGroup sub) ks with ⟨hn, he⟩ | he <;> rw [he] at hx'
  · obtain ⟨e, t, hget, ht, hle⟩ := h sub x hx' hlt'
    refine ⟨e, t, ?_, ht, hle⟩
    show w'.db.get w'.now x.1 = some e
    rw [hdb, hnow, Db.get_delAll, if_neg ?_]
    · exact hget
    · apply hks sub hn
      exact List.mem_map.mpr ⟨x, List.mem_filter.mpr ⟨hx', decide_eq_true hlt'⟩, rfl⟩
  · cases hx'

/-! ## What an issue adds -/

section Minted

variable {resp : HttpResponse} {owner : String} {c : TokenClaims} {seconds : Nat} {refresh : Option String}

/-- The members of an index after an issue. -/
theorem mem_members_minted (hm : Minted libs p.world w' resp owner c seconds refresh) {x : String × Int}
    (hx : x ∈ w'.db.members w'.now (subjectGroup sub)) :
    (sub = c.sub ∧ x = (c.jti, (c.exp : Int))) ∨ x ∈ p.world.db.members p.world.now (subjectGroup sub) := by
  by_cases he : sub = c.sub
  · rw [he, Db.members_of_get hm.group] at hx
    rcases mem_zinsert.mp hx with hx | ⟨hx, -⟩
    · exact .inl ⟨he, hx⟩
    · exact .inr (he ▸ hx)
  · rw [hm.now, Db.members_congr (hm.otherGroup he)] at hx
    exact .inr hx

theorem Listing.minted (h : Listing p) (hs : w'.Sound)
    (hm : Minted libs p.world w' resp owner c seconds refresh) (chain : Option String) :
    Listing ⟨w', ⟨c, refresh, chain⟩ :: p.grants⟩ := by
  refine ⟨hs, fun g hg => ?_, ?_, fun sub x hx => ?_, fun sub => ?_⟩
  · rcases List.mem_cons.mp hg with rfl | hg
    · exact ⟨hm.fresh.1, hm.drawn⟩
    · exact hm.knows (h.known g hg)
  · refine List.nodup_cons.mpr ⟨?_, h.distinct⟩
    intro hmem
    obtain ⟨g, hg, he⟩ := List.mem_map.mp hmem
    have hj : g.claims.jti = c.jti := he
    exact hm.fresh.2 (hj ▸ (h.known g hg).2)
  · rcases mem_members_minted hm hx with ⟨he, rfl⟩ | hx
    · exact ⟨_, List.mem_cons_self, rfl, he.symm, rfl⟩
    · obtain ⟨g, hg, hall⟩ := h.member sub x hx
      exact ⟨g, List.mem_cons_of_mem _ hg, hall⟩
  · show ((w'.db.members w'.now (subjectGroup sub)).map Prod.fst).Nodup
    by_cases he : sub = c.sub
    · rw [he, Db.members_of_get hm.group]
      exact nodup_zinsert (h.names c.sub)
    · rw [hm.now, Db.members_congr (hm.otherGroup he)]
      exact h.names sub

theorem Keyed.minted (h : Keyed p) (hl : Listing p)
    (hm : Minted libs p.world w' resp owner c seconds refresh) (chain : Option String) :
    Keyed ⟨w', ⟨c, refresh, chain⟩ :: p.grants⟩ := by
  intro sub x hx hlt
  rcases mem_members_minted hm hx with ⟨-, rfl⟩ | hx
  · have hexp := hm.exp
    exact ⟨_, _, hm.get, rfl, by omega⟩
  · have hlt' : (p.world.now / 1000 : Nat) < x.2 := by
      rw [← hm.now]
      exact hlt
    obtain ⟨e, t, he, ht, hle⟩ := h sub x hx hlt'
    obtain ⟨g, hg, hj, -⟩ := hl.member sub x hx
    refine ⟨e, t, ?_, ht, hle⟩
    show w'.db.get w'.now x.1 = some e
    rw [hm.now, ← hj, Db.get_congr (hm.older (hl.known g hg)), hj]
    exact he

end Minted

/-! ## Histories -/

theorem Listing.step (h : Listing p) {r : Request} {resp : HttpResponse} (hs : w'.Sound)
    (he : Effect env libs p.world r resp w') :
    Listing ⟨w', granted libs p.grants r resp ++ p.grants⟩ := by
  cases he with
  | idle hi hb =>
    rw [granted_tokenless hb]
    exact h.removes hs hi.now hi.drawn (show w'.db = p.world.db.delAll [] by rw [hi.db, Db.delAll_nil])
  | access hm _ =>
    rw [hm.granted]
    exact h.minted hs hm _
  | pair hm _ _ _ =>
    rw [hm.granted]
    exact h.minted hs hm _
  | exchange _ _ hm _ =>
    rw [hm.granted]
    exact h.minted hs hm _
  | kill _ _ hb =>
    rw [granted_tokenless hb]
    exact h.removes hs rfl (fun _ hu => hu) rfl
  | revoke _ hb =>
    rw [granted_tokenless hb]
    exact h.removes hs rfl (fun _ hu => hu) rfl
  | revokeSubject sub =>
    rw [granted_tokenless (by exact fun _ _ => nofun)]
    exact h.removes hs rfl (fun _ hu => hu) rfl

/-- A listed member was handed out for the subject and has not expired. -/
theorem Listing.listed (h : Listing p) {m : String} (hm : m ∈ p.world.subjectListed sub) :
    ∃ g ∈ p.grants, g.claims.jti = m ∧ g.claims.sub = sub ∧ p.world.now / 1000 < g.claims.exp := by
  obtain ⟨x, hx, rfl⟩ := List.mem_map.mp hm
  obtain ⟨hx, hlt⟩ := List.mem_filter.mp hx
  obtain ⟨g, hg, hj, hs, he⟩ := h.member sub x hx
  have hlt := of_decide_eq_true hlt
  exact ⟨g, hg, hj, hs, by unfold timestamp at hlt; omega⟩

/-- No token is in the index of two subjects. -/
theorem Listing.subject_unique (h : Listing p) {m sub' : String} (hm : m ∈ p.world.subjectListed sub)
    (hm' : m ∈ p.world.subjectListed sub') : sub = sub' := by
  obtain ⟨g, hg, hj, rfl, -⟩ := h.listed hm
  obtain ⟨g', hg', hj', rfl, -⟩ := h.listed hm'
  rw [List.inj_on_of_nodup_map h.distinct hg hg' (hj.trans hj'.symm)]

theorem Listing.listed_uuid (h : Listing p) {m : String} (hm : m ∈ p.world.subjectListed sub) :
    Text.isUuid m = true := by
  obtain ⟨g, hg, rfl, -⟩ := h.listed hm
  exact (h.known g hg).1

theorem Keyed.step (h : Keyed p) (hl : Listing p) {r : Request} {resp : HttpResponse}
    (he : Effect env libs p.world r resp w') (hg : Spares libs p r) :
    Keyed ⟨w', granted libs p.grants r resp ++ p.grants⟩ := by
  cases he with
  | idle hi hb =>
    rw [granted_tokenless hb]
    exact h.removes hi.now (show w'.db = p.world.db.delAll [] by rw [hi.db, Db.delAll_nil])
      fun _ _ _ _ => List.not_mem_nil
  | access hm _ =>
    rw [hm.granted]
    exact h.minted hl hm _
  | pair hm _ _ _ =>
    rw [hm.granted]
    exact h.minted hl hm _
  | exchange _ _ hm _ =>
    rw [hm.granted]
    exact h.minted hl hm _
  | kill hr hu hb =>
    rw [granted_tokenless hb]
    refine h.removes rfl rfl fun sub _ m hm hk => ?_
    rcases List.mem_cons.mp hk with rfl | hk
    · exact not_familyKey_uuid (hl.listed_uuid hm) (.inl ⟨_, rfl⟩)
    · exact hg _ hr hu m hk sub hm
  | revoke jti hb =>
    rw [granted_tokenless hb]
    refine h.removes rfl rfl fun sub _ m hm hk => ?_
    exact hg sub (List.mem_singleton.mp hk ▸ hm)
  | revokeSubject sub =>
    rw [granted_tokenless (by exact fun _ _ => nofun)]
    refine h.removes rfl rfl fun sub' hn m hm hk => ?_
    rcases List.mem_cons.mp hk with rfl | hk
    · exact subject_ne_uuid (hl.listed_uuid hm) sub rfl
    · exact hn (hl.subject_unique hm hk ▸ List.mem_cons_self)

theorem Past.Run.listing {G : Past → Request → Prop} (ht : libs.json.Faithful) (hp : p.Run env libs s G) :
    Listing p := by
  induction hp with
  | start => exact ⟨sound_empty, (by exact nofun), List.nodup_nil, (by exact fun _ _ h => nomatch h),
      fun _ => List.nodup_nil⟩
  | request _ h hok _ ih => exact ih.step (ih.sound.handle ht h) (alone_handle ht ih.sound h hok)
  | tick _ d ih => exact ih.tick d

theorem Past.Run.keyed (ht : libs.json.Faithful) (hp : p.Run env libs s (Spares libs)) : Keyed p := by
  induction hp with
  | start => exact fun _ _ h => nomatch h
  | request hp h hok hg ih =>
    have hl := hp.listing ht
    exact ih.step hl (alone_handle ht hl.sound h hok) hg
  | tick _ d ih => exact ih.tick d

/-! ## The count -/

/-- The tokens a bulk revocation ends are the listed ones that still have their
key. -/
theorem Listing.ended_perm (h : Listing p) (hw' : w' = p.world.setDb (p.world.db.delAll
    (subjectGroup sub :: p.world.subjectListed sub))) :
    ((ended p.grants p.world w' sub).map fun g => g.claims.jti).Perm
      ((p.world.subjectListed sub).filter fun m => (p.world.db.get p.world.now m).isSome) := by
  have hlisted : (p.world.subjectListed sub).Nodup :=
    (h.names sub).sublist (List.Sublist.map _ List.filter_sublist)
  have hended : ((ended p.grants p.world w' sub).map fun g => g.claims.jti).Nodup :=
    h.distinct.sublist (List.Sublist.map _ List.filter_sublist)
  rw [List.perm_ext_iff_of_nodup hended (hlisted.sublist List.filter_sublist)]
  intro m
  rw [List.mem_map, List.mem_filter]
  constructor
  · rintro ⟨g, hg, rfl⟩
    obtain ⟨hg, hcond⟩ := List.mem_filter.mp hg
    obtain ⟨hs, hu, hgone⟩ := of_decide_eq_true hcond
    refine ⟨?_, hu.2⟩
    -- The key was there and is gone, so the revocation has deleted it.
    rw [hw', World.setDb_db, World.setDb_now, Db.get_delAll] at hgone
    split at hgone
    · rename_i hk
      rcases List.mem_cons.mp hk with hk | hk
      · exact absurd hk.symm (subject_ne_uuid (h.known g hg).1 sub)
      · exact hk
    · rw [hu.2] at hgone
      cases hgone
  · rintro ⟨hm, hsome⟩
    obtain ⟨g, hg, rfl, hs, hlt⟩ := h.listed hm
    refine ⟨g, List.mem_filter.mpr ⟨hg, decide_eq_true ⟨hs, ⟨hlt, hsome⟩, ?_⟩⟩, rfl⟩
    rw [hw', World.setDb_db, World.setDb_now, Db.get_delAll, if_pos (List.mem_cons_of_mem _ hm)]
    rfl

/-- The count is the number of tokens that end exactly when no listed token has
lost its key. -/
theorem Listing.count_iff (h : Listing p) (hw' : w' = p.world.setDb (p.world.db.delAll
    (subjectGroup sub :: p.world.subjectListed sub))) :
    (p.world.subjectListed sub).length = (ended p.grants p.world w' sub).length ↔
      ∀ m ∈ p.world.subjectListed sub, (p.world.db.get p.world.now m).isSome = true := by
  have hlen := (h.ended_perm hw').length_eq
  rw [List.length_map] at hlen
  rw [hlen, eq_comm, List.length_filter_eq_length_iff]

/-! ## The metric -/

/-- Whether a call counts a revoked token. -/
def Eff.isRevoked : Eff → Bool
  | .metric .tokenRevoked => true
  | _ => false

/-- By how much `jwt_tokens_revoked_total` grows. -/
def revokedIn (cs : List (Call svc)) : Nat := cs.countP fun c => c.eff.isRevoked

theorem revokedIn_of_only {α : Type} {prog : M α} {q : M α} {cs : List (Call svc)}
    (hp : @Prog.Only svc α (fun e => e.isRevoked = false) prog) (h : Prog.Path prog cs q) :
    revokedIn cs = 0 := by
  rw [revokedIn, List.countP_eq_zero]
  intro c hc
  rw [hp.path h c hc]
  exact Bool.false_ne_true

theorem revokedIn_recordRevoked {n : Nat} {u : Unit} {cs : List (Call svc)}
    (h : @Prog.Path svc (Except Error Unit) (recordRevoked n) cs (.ret (.ok u))) : revokedIn cs = n := by
  induction n generalizing cs with
  | zero =>
    obtain ⟨rfl, -⟩ := Prog.path_pure_ok h
    rfl
  | succ n ih =>
    obtain ⟨_, c₁, cs₁, rfl, h₁, t₁⟩ := Prog.path_tryBind_ok h
    obtain ⟨_, rfl, -⟩ := Prog.path_performE h₁
    rw [revokedIn, List.countP_append, ← revokedIn, ← revokedIn, ih t₁]
    exact Nat.add_comm 1 n

theorem path_respond {prog : M (Except Error HttpResponse)} {resp : HttpResponse} {cs : List (Call svc)}
    (h : Prog.Path (respond prog) cs (.ret resp)) :
    ∃ x, Prog.Path prog cs (.ret x) ∧ resp = responseOf x := by
  obtain ⟨x, c₁, c₂, rfl, h₁, h₂⟩ := Prog.Path.bind_ret_inv h
  cases x with
  | ok r =>
    obtain ⟨rfl, he⟩ := Prog.Path.ret_inv h₂
    cases he
    exact ⟨_, by rwa [List.append_nil], rfl⟩
  | error e =>
    obtain ⟨rfl, he⟩ := Prog.Path.ret_inv h₂
    cases he
    exact ⟨_, by rwa [List.append_nil], rfl⟩

/-- The metric grows by the count that is reported. -/
theorem revokedIn_revokeSubjectTokens {n : Nat} {cs : List (Call svc)}
    (h : Prog.Path (handle env libs (redisClient libs.json) (.revokeSubjectTokens sub)) cs
      (.ret ⟨200, .revoked n⟩)) : revokedIn cs = n := by
  obtain ⟨x, hx, he⟩ := path_respond h
  cases x with
  | error e => cases e <;> cases he
  | ok r =>
    cases he
    obtain ⟨y, c₁, cs₁, rfl, h₁, t₁⟩ := Prog.path_tryBind_ok hx
    obtain ⟨m, hm, hy⟩ := Prog.path_liftE h₁
    cases hy
    cases y with
    | error e => exact (Prog.path_throw_ok t₁).elim
    | ok m =>
      obtain ⟨u, c₂, cs₂, rfl, h₂, t₂⟩ := Prog.path_tryBind_ok t₁
      obtain ⟨rfl, hr⟩ := Prog.path_pure_ok t₂
      cases hr
      have hzero : revokedIn c₁ = 0 := revokedIn_of_only
        (only_revokeGroup rfl (fun _ => rfl) rfl fun _ => rfl) hm
      rw [List.append_nil, revokedIn, List.countP_append, ← revokedIn, ← revokedIn, hzero,
        revokedIn_recordRevoked h₂, Nat.zero_add]

/-! ## The claim of the response -/

/-- In every history the count of a bulk revocation is the number of tokens it
ends, and so is the growth of the metric, exactly when no unexpired token of
the index has lost its key before. In a history in which only bulk revocations
take the keys of listed tokens, the count is always true. -/
theorem revocation_count_iff (ht : libs.json.Faithful) :
    (∀ {p : Past}, p.Run env libs s (fun _ _ => True) → ∀ {sub : String} {resp : HttpResponse}
      {w' : World}, Alone (faultless s).call
        (handle env libs (redisClient libs.json) (.revokeSubjectTokens sub)) p.world resp w' →
      (resp = ⟨200, .revoked (ended p.grants p.world w' sub).length⟩ ↔
        ∀ m ∈ p.world.subjectListed sub, (p.world.db.get p.world.now m).isSome = true)) ∧
    (∀ {p : Past}, p.Run env libs s (Spares libs) → ∀ {sub : String} {resp : HttpResponse}
      {w' : World}, Alone (faultless s).call
        (handle env libs (redisClient libs.json) (.revokeSubjectTokens sub)) p.world resp w' →
      resp = ⟨200, .revoked (ended p.grants p.world w' sub).length⟩) ∧
    ∀ {sub : String} {n : Nat} {cs : List (Call svc)}, Prog.Path
      (handle env libs (redisClient libs.json) (.revokeSubjectTokens sub)) cs (.ret ⟨200, .revoked n⟩) →
      revokedIn cs = n := by
  have hiff : ∀ {p : Past}, p.Run env libs s (fun _ _ => True) → ∀ {sub : String}
      {resp : HttpResponse} {w' : World}, Alone (faultless s).call
        (handle env libs (redisClient libs.json) (.revokeSubjectTokens sub)) p.world resp w' →
      (resp = ⟨200, .revoked (ended p.grants p.world w' sub).length⟩ ↔
        ∀ m ∈ p.world.subjectListed sub, (p.world.db.get p.world.now m).isSome = true) := by
    intro p hp sub resp w' h
    have hl := hp.listing ht
    obtain ⟨rfl, hw'⟩ := (alone_revokeSubjectTokens hl.sound).mp h
    rw [← hl.count_iff hw']
    simp only [HttpResponse.mk.injEq, Body.revoked.injEq, true_and]
    exact Iff.rfl
  refine ⟨hiff, ?_, revokedIn_revokeSubjectTokens⟩
  intro p hp sub resp w' h
  refine (hiff (hp.mono fun _ _ _ => trivial) h).mpr fun m hm => ?_
  obtain ⟨x, hx, rfl⟩ := List.mem_map.mp hm
  obtain ⟨hx, hlt⟩ := List.mem_filter.mp hx
  obtain ⟨e, -, he, -⟩ := hp.keyed ht _ x hx (of_decide_eq_true hlt)
  rw [he]
  rfl

/-- A history in which one token was issued. -/
theorem one_issued {s : JwkService} {G : Past → Request → Prop}
    (hG : ∀ p host req, G p (.createToken host req)) : ∃ (p : Past) (x : List (String × Json)),
      p.Run bareEnv echoLibs s G ∧ p.world.db = issueDb World.empty.db 0 "user" uuidA 60 ∧
        p.world.now = 0 ∧ p.grants = [⟨newClaims "host" "user" ["api"] 0 60 uuidA x, none, none⟩] := by
  obtain ⟨access, x, hc, hstep⟩ := @echo_createToken s World.empty sound_empty "user" 60 uuidA
    ⟨by decide, nofun⟩ (by decide) (by decide) (by decide)
  have hp := Past.Run.request (G := G) .start hstep (show 200 ≠ 500 by decide) (hG _ _ _)
  rw [echo_granted hc] at hp
  exact ⟨_, x, hp, rfl, rfl, rfl⟩

/-- A token is issued and revoked with its subject. -/
theorem revocation_count_one : ∃ (p : Past) (w' : World),
    p.Run bareEnv echoLibs ⟨300000, 10000, 10000⟩ (Spares echoLibs) ∧
      Alone (faultless ⟨300000, 10000, 10000⟩).call
        (handle bareEnv echoLibs (redisClient .compact) (.revokeSubjectTokens "user")) p.world
        ⟨200, .revoked 1⟩ w' ∧ (ended p.grants p.world w' "user").length = 1 := by
  obtain ⟨p, x, hp, hdb, hnow, hg⟩ := @one_issued ⟨300000, 10000, 10000⟩ (Spares echoLibs)
    fun _ _ _ => trivial
  have hrev := @echo_revokeSubject ⟨300000, 10000, 10000⟩ _ (hp.listing echo_faithful).sound "user"
  have hone : (p.world.db.listed p.world.now (subjectGroup "user") (timestamp p.world.now)).length = 1 := by
    rw [hdb, hnow]
    decide
  rw [hone] at hrev
  have hcount := (revocation_count_iff echo_faithful).2.1 hp hrev
  simp only [HttpResponse.mk.injEq, Body.revoked.injEq, true_and] at hcount
  exact ⟨p, _, hp, hrev, hcount.symm⟩

/-- A token is issued and revoked, and then its subject is: the count is one,
and no token is ended. -/
theorem revocation_counts_revoked : ∃ (p : Past) (w' : World),
    p.Run bareEnv echoLibs ⟨300000, 10000, 10000⟩ (fun _ _ => True) ∧
      Alone (faultless ⟨300000, 10000, 10000⟩).call
        (handle bareEnv echoLibs (redisClient .compact) (.revokeSubjectTokens "user")) p.world
        ⟨200, .revoked 1⟩ w' ∧ ended p.grants p.world w' "user" = [] := by
  obtain ⟨p, x, hp, hdb, hnow, hg⟩ := @one_issued ⟨300000, 10000, 10000⟩ (fun _ _ => True)
    fun _ _ _ => trivial
  have hdel : Alone (faultless ⟨300000, 10000, 10000⟩).call
      (handle bareEnv echoLibs (redisClient .compact) (.revokeToken uuidA)) p.world ⟨204, .empty⟩
      (p.world.setDb (p.world.db.delAll [uuidA])) :=
    (@alone_revokeToken _ _ p.world _ echoLibs _ uuidA).mpr ⟨rfl, rfl⟩
  have hp' := hp.request hdel (show 204 ≠ 500 by decide) trivial
  have hrev := @echo_revokeSubject ⟨300000, 10000, 10000⟩ _ (hp'.listing echo_faithful).sound "user"
  have hone : ((p.world.db.delAll [uuidA]).listed p.world.now (subjectGroup "user")
      (timestamp p.world.now)).length = 1 := by
    rw [hdb, hnow]
    decide
  -- The token has lost its key before.
  have hgone : ∀ w', ended p.grants (p.world.setDb (p.world.db.delAll [uuidA])) w' "user" = [] := by
    intro w'
    rw [hg, ended, List.filter_eq_nil_iff]
    intro g hmem hcond
    obtain rfl := List.mem_singleton.mp hmem
    obtain ⟨-, ⟨-, hsome⟩, -⟩ := of_decide_eq_true hcond
    have hdel : uuidA ∈ [uuidA] := List.mem_singleton_self _
    rw [World.setDb_db, Db.get_delAll, show (newClaims "host" "user" ["api"] 0 60 uuidA x).jti = uuidA
      from rfl, if_pos hdel] at hsome
    cases hsome
  obtain ⟨w', hrev'⟩ : ∃ w', Alone (faultless ⟨300000, 10000, 10000⟩).call
      (handle bareEnv echoLibs (redisClient .compact) (.revokeSubjectTokens "user"))
      (p.world.setDb (p.world.db.delAll [uuidA])) ⟨200, .revoked 1⟩ w' := by
    rw [← hone]
    exact ⟨_, hrev⟩
  exact ⟨⟨p.world.setDb (p.world.db.delAll [uuidA]), p.grants⟩, w', hp', hrev', hgone w'⟩

end Counting

end JwtService

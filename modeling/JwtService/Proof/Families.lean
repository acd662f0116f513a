import JwtService.Proof.Subjects

/-!
# Reuse of a refresh token

The group of a family is to list the access tokens and the refresh records of
one chain of exchanges (`FamiliesOk`). Each pair sets the expiry of the group
twice, and last to that of its refresh record; all records live equally long,
so the group outlives every record of the family, and while it is there it
lists every access token of the chain that is still in the store. Where a
record is there, the group is complete, so the reuse of its token ends the
chain and nothing else (`reuse_kills_chain`).
-/

namespace JwtService

open Interaction Redis

/-- Time passes in whole seconds. -/
def WholeSeconds (_ : Past) (d : Nat) : Prop := 1000 ∣ d

/-- The members of a group that stand for a grant. -/
def Grant.Holds (g : Grant) (m : String) : Prop :=
  m = g.claims.jti ∨ ∃ id, g.refresh = some id ∧ m = refreshKey id

/-- An entry is the record of a refresh token of the family, which is in the
group, and the group expires no earlier. -/
structure Recorded (env : Env) (w : World) (family id : String) (e : Entry) (fs : List (String × String))
    (seconds : Nat) (group : Entry) (expiry : Nat) : Prop where
  entry : e = ⟨.hash fs, some (1000 * seconds)⟩
  named : fs.lookup "family" = some family
  bounded : seconds ≤ w.now / 1000 + refreshTtl env
  there : w.db.get w.now (familyGroup family) = some group
  expires : group.expireAt = some expiry
  outlived : 1000 * seconds ≤ expiry
  listed : (refreshKey id, (seconds : Int)) ∈ w.db.members w.now (familyGroup family)

/-- What holds in every history, where `fam` names the family of a chain. -/
structure FamiliesOk (env : Env) (fam : String → String) (p : Past) : Prop where
  sound : p.world.Sound
  whole : 1000 ∣ p.world.now
  /-- The key of an access token goes when the token expires. -/
  access : ∀ g ∈ p.grants, p.world.Knows (.access g.claims.jti) ∧
    ∀ e, p.world.db.get p.world.now g.claims.jti = some e → e.expireAt = some (1000 * g.claims.exp)
  refresh : ∀ g ∈ p.grants, ∀ id, g.refresh = some id → p.world.Knows (.refresh id)
  chain : ∀ g ∈ p.grants, ∀ c, g.chain = some c → c ∈ p.world.drawn ∧ fam c ∈ p.world.drawn
  /-- Two grants with a credential in common are of one chain. -/
  apart : ∀ g ∈ p.grants, ∀ g' ∈ p.grants, ∀ m, g.Holds m → g'.Holds m → g.chain = g'.chain
  /-- Two chains have two families. -/
  families : ∀ g ∈ p.grants, ∀ g' ∈ p.grants, ∀ c c', g.chain = some c → g'.chain = some c' →
    fam c = fam c' → c = c'
  record : ∀ id e, p.world.db.get p.world.now (refreshKey id) = some e →
    ∃ g ∈ p.grants, ∃ c, g.refresh = some id ∧ g.chain = some c ∧
      ∃ fs seconds group expiry, Recorded env p.world (fam c) id e fs seconds group expiry
  /-- A group lists the access tokens of its chain that are in the store. -/
  listed : ∀ g ∈ p.grants, ∀ c, g.chain = some c →
    (p.world.db.get p.world.now (familyGroup (fam c))).isSome = true →
      (p.world.db.get p.world.now g.claims.jti).isSome = true →
        (g.claims.jti, (g.claims.exp : Int)) ∈ p.world.db.members p.world.now (familyGroup (fam c))
  /-- A group lists nothing else. -/
  member : ∀ f, ∀ x ∈ p.world.db.members p.world.now (familyGroup f),
    ∃ g ∈ p.grants, ∃ c, g.chain = some c ∧ f = fam c ∧ g.Holds x.1

section Families

variable {env : Env} {libs : Libs} {s : JwkService} {p : Past} {fam : String → String}

theorem familiesOk_start (fam : String → String) : FamiliesOk env fam ⟨World.empty, []⟩ :=
  ⟨sound_empty, ⟨0, rfl⟩, (by exact nofun), (by exact nofun), (by exact nofun), (by exact nofun),
    (by exact nofun), (by exact fun _ _ h => nomatch h), (by exact nofun), (by exact fun _ _ h => nomatch h)⟩

/-- Only the families of chains that were handed out matter. -/
theorem FamiliesOk.congr (h : FamiliesOk env fam p) {fam' : String → String}
    (hf : ∀ c ∈ p.world.drawn, fam' c = fam c) : FamiliesOk env fam' p := by
  have hc : ∀ g ∈ p.grants, ∀ c, g.chain = some c → fam' c = fam c :=
    fun g hg c hc => hf c (h.chain g hg c hc).1
  refine ⟨h.sound, h.whole, h.access, h.refresh, fun g hg c he => ?_, h.apart,
    fun g hg g' hg' c c' he he' heq => ?_, fun id e he => ?_, fun g hg c he => ?_, fun f x hx => ?_⟩
  · rw [hc g hg c he]
    exact h.chain g hg c he
  · rw [hc g hg c he, hc g' hg' c' he'] at heq
    exact h.families g hg g' hg' c c' he he' heq
  · obtain ⟨g, hg, c, hr, he', hrec⟩ := h.record id e he
    exact ⟨g, hg, c, hr, he', by rw [hc g hg c he']; exact hrec⟩
  · rw [hc g hg c he]
    exact h.listed g hg c he
  · obtain ⟨g, hg, c, he, hf', hx⟩ := h.member f x hx
    exact ⟨g, hg, c, he, hf'.trans (hc g hg c he).symm, hx⟩

/-- A group that is there later had the same members before. -/
theorem members_later {w : World} {d : Nat} {k : String} {e : Entry}
    (hg : w.db.get (w.now + d) k = some e) :
    w.db.members (w.now + d) k = w.db.members w.now k := by
  rw [Db.members, Db.members, hg, Db.get_of_later (Nat.le_add_right _ _) hg]

/-- A record that is there later is recorded in its group. -/
theorem Recorded.tick {w : World} {d : Nat} {family id : String} {e : Entry}
    {fs : List (String × String)} {seconds : Nat} {group : Entry} {expiry : Nat}
    (h : Recorded env w family id e fs seconds group expiry)
    (he : w.db.get (w.now + d) (refreshKey id) = some e) :
    Recorded env (w.tick d) family id e fs seconds group expiry := by
  -- The record is live, so the group is.
  have hlive := (Db.get_eq_some.mp he).2
  rw [h.entry] at hlive
  have hlt : w.now + d < 1000 * seconds := of_decide_eq_true hlive
  have hb := h.bounded
  have ho := h.outlived
  have hgroup : w.db.get (w.now + d) (familyGroup family) = some group := by
    refine Db.get_eq_some.mpr ⟨(Db.get_eq_some.mp h.there).1, ?_⟩
    rw [Entry.liveAt, h.expires]
    exact decide_eq_true (by omega)
  refine ⟨h.entry, h.named, ?_, hgroup, h.expires, ho, ?_⟩
  · show seconds ≤ (w.now + d) / 1000 + refreshTtl env
    omega
  · show _ ∈ w.db.members (w.now + d) (familyGroup family)
    rw [members_later hgroup]
    exact h.listed

theorem FamiliesOk.tick (h : FamiliesOk env fam p) {d : Nat} (hd : 1000 ∣ d) :
    FamiliesOk env fam ⟨p.world.tick d, p.grants⟩ := by
  have hle : p.world.now ≤ p.world.now + d := Nat.le_add_right _ _
  refine ⟨h.sound.tick d, Nat.dvd_add h.whole hd, fun g hg => ⟨(h.access g hg).1, fun e he => ?_⟩,
    h.refresh, h.chain, h.apart, h.families, fun id e he => ?_, fun g hg c hc hgr hj => ?_,
    fun f x hx => h.member f x (Db.mem_members_of_later hle hx)⟩
  · exact (h.access g hg).2 e (Db.get_of_later hle he)
  · obtain ⟨g, hg, c, hr, hc, fs, seconds, group, expiry, hrec⟩ :=
      h.record id e (Db.get_of_later hle he)
    exact ⟨g, hg, c, hr, hc, fs, seconds, group, expiry, hrec.tick he⟩
  · obtain ⟨e, he⟩ := Option.isSome_iff_exists.mp hgr
    obtain ⟨e', he'⟩ := Option.isSome_iff_exists.mp hj
    show _ ∈ p.world.db.members (p.world.now + d) _
    rw [members_later he]
    exact h.listed g hg c hc (Option.isSome_iff_exists.mpr ⟨e, Db.get_of_later hle he⟩)
      (Option.isSome_iff_exists.mpr ⟨e', Db.get_of_later hle he'⟩)

/-- The group of a family is no member of a group. -/
theorem Grant.Holds.ne_family {g : Grant} {m : String} (h : g.Holds m)
    (hu : Text.isUuid g.claims.jti = true) (family : String) : familyGroup family ≠ m := by
  rcases h with rfl | ⟨id, -, rfl⟩
  · exact family_ne_uuid hu family
  · exact family_ne_refresh family id

/-- A request that hands out nothing and deletes some keys: with the group of
a family, the records of the family. -/
theorem FamiliesOk.removes (h : FamiliesOk env fam p) {w' : World} (hs : w'.Sound)
    (hnow : w'.now = p.world.now) (hdrawn : ∀ u ∈ p.world.drawn, u ∈ w'.drawn) {ks : List String}
    (hdb : w'.db = p.world.db.delAll ks)
    (hks : ∀ g ∈ p.grants, ∀ c id, g.chain = some c → g.refresh = some id → familyGroup (fam c) ∈ ks →
      (p.world.db.get p.world.now (refreshKey id)).isSome = true → refreshKey id ∈ ks) :
    FamiliesOk env fam ⟨w', p.grants⟩ := by
  have hget : ∀ k e, w'.db.get w'.now k = some e → k ∉ ks ∧ p.world.db.get p.world.now k = some e := by
    intro k e he
    rw [hdb, hnow, Db.get_delAll] at he
    split at he
    · cases he
    · rename_i hk
      exact ⟨hk, he⟩
  have hmembers : ∀ k, k ∉ ks → w'.db.members w'.now k = p.world.db.members p.world.now k := by
    intro k hk
    rw [hdb, hnow, Db.members_congr (Db.delAll_of_not_mem hk)]
  have hisSome : ∀ k, (w'.db.get w'.now k).isSome = true →
      k ∉ ks ∧ (p.world.db.get p.world.now k).isSome = true := by
    intro k hk
    obtain ⟨e, he⟩ := Option.isSome_iff_exists.mp hk
    obtain ⟨hn, he⟩ := hget k e he
    exact ⟨hn, Option.isSome_iff_exists.mpr ⟨e, he⟩⟩
  refine ⟨hs, hnow ▸ h.whole, fun g hg => ⟨⟨(h.access g hg).1.1, hdrawn _ (h.access g hg).1.2⟩,
    fun e he => (h.access g hg).2 e (hget _ e he).2⟩, fun g hg id hr => ?_, fun g hg c hc => ?_, h.apart,
    h.families, fun id e he => ?_, fun g hg c hc hgr hj => ?_, fun f x hx => ?_⟩
  · exact ⟨(h.refresh g hg id hr).1, hdrawn _ (h.refresh g hg id hr).2⟩
  · exact ⟨hdrawn _ (h.chain g hg c hc).1, hdrawn _ (h.chain g hg c hc).2⟩
  · obtain ⟨hn, he⟩ := hget _ e he
    obtain ⟨g, hg, c, hr, hc, fs, seconds, group, expiry, hrec⟩ := h.record id e he
    -- The record was not deleted, so its group was not.
    have hgroup : familyGroup (fam c) ∉ ks := fun hm =>
      hn (hks g hg c id hc hr hm (Option.isSome_iff_exists.mpr ⟨e, he⟩))
    refine ⟨g, hg, c, hr, hc, fs, seconds, group, expiry, hrec.entry, hrec.named, hnow ▸ hrec.bounded, ?_,
      hrec.expires, hrec.outlived, ?_⟩
    · rw [hdb, hnow, Db.get_congr (Db.delAll_of_not_mem hgroup)]
      exact hrec.there
    · rw [hmembers _ hgroup]
      exact hrec.listed
  · obtain ⟨hn, hgr⟩ := hisSome _ hgr
    show _ ∈ w'.db.members w'.now _
    rw [hmembers _ hn]
    exact h.listed g hg c hc hgr (hisSome _ hj).2
  · have hx : x ∈ w'.db.members w'.now (familyGroup f) := hx
    by_cases hn : familyGroup f ∈ ks
    · rw [hdb, Db.members_of_none (by rw [Db.get_delAll, if_pos hn])] at hx
      cases hx
    · rw [hmembers _ hn] at hx
      exact h.member f x hx

theorem FamiliesOk.idle (h : FamiliesOk env fam p) {w' : World} (hs : w'.Sound) (hi : Idle p.world w') :
    FamiliesOk env fam ⟨w', p.grants⟩ :=
  h.removes hs hi.now hi.drawn (show w'.db = p.world.db.delAll [] by rw [hi.db, Db.delAll_nil])
    fun _ _ _ _ _ _ hk => nomatch hk

/-- The members of a group of a subject are no groups of families. -/
theorem family_not_listed_in_subject {w : World} (hw : w.Sound) (family sub : String) (max : Int) :
    familyGroup family ∉ w.db.listed w.now (subjectGroup sub) max := fun hm =>
  family_ne_uuid (listed_in_subject hw hm).1 family rfl

/-- The members of a group are no groups. -/
theorem FamiliesOk.not_listed (h : FamiliesOk env fam p) (family f : String) (max : Int) :
    familyGroup family ∉ p.world.db.listed p.world.now (familyGroup f) max := by
  intro hm
  obtain ⟨x, hx, he⟩ := List.mem_map.mp hm
  obtain ⟨g, hg, c, -, -, hh⟩ := h.member f x (List.mem_of_mem_filter hx)
  exact hh.ne_family (h.access g hg).1.1 family he.symm

/-- The members whose moment has not passed are listed. -/
theorem mem_listed {w : World} {k m : String} {n : Nat} (hm : (m, (n : Int)) ∈ w.db.members w.now k)
    (hn : w.now / 1000 < n) : m ∈ w.db.listed w.now k (timestamp w.now) :=
  List.mem_map.mpr ⟨_, List.mem_filter.mpr ⟨hm, decide_eq_true (by unfold timestamp; omega)⟩, rfl⟩

/-- The records of a family are listed in its group. -/
theorem FamiliesOk.record_listed (h : FamiliesOk env fam p) {g : Grant} {c id : String}
    (hg : g ∈ p.grants) (hc : g.chain = some c) (hr : g.refresh = some id)
    (hid : (p.world.db.get p.world.now (refreshKey id)).isSome = true) :
    refreshKey id ∈ p.world.db.listed p.world.now (familyGroup (fam c)) (timestamp p.world.now) := by
  obtain ⟨e, he⟩ := Option.isSome_iff_exists.mp hid
  obtain ⟨g', hg', c', hr', hc', fs, seconds, group, expiry, hrec⟩ := h.record id e he
  have hcc : g.chain = g'.chain := h.apart g hg g' hg' _ (.inr ⟨id, hr, rfl⟩) (.inr ⟨id, hr', rfl⟩)
  rw [hc, hc'] at hcc
  cases hcc
  have hlive := (Db.get_eq_some.mp he).2
  rw [hrec.entry] at hlive
  have hlt : p.world.now < 1000 * seconds := of_decide_eq_true hlive
  exact mem_listed hrec.listed (by omega)

/-- The access tokens of a family that are in the store are listed in its
group, if it is there. -/
theorem FamiliesOk.access_listed (h : FamiliesOk env fam p) {g : Grant} {c : String}
    (hg : g ∈ p.grants) (hc : g.chain = some c)
    (hgroup : (p.world.db.get p.world.now (familyGroup (fam c))).isSome = true)
    (hj : (p.world.db.get p.world.now g.claims.jti).isSome = true) :
    g.claims.jti ∈ p.world.db.listed p.world.now (familyGroup (fam c)) (timestamp p.world.now) := by
  obtain ⟨e, he⟩ := Option.isSome_iff_exists.mp hj
  have hlive := (Db.get_eq_some.mp he).2
  rw [Entry.liveAt, (h.access g hg).2 e he] at hlive
  have hlt : p.world.now < 1000 * g.claims.exp := of_decide_eq_true hlive
  exact mem_listed (h.listed g hg c hc hgroup hj) (by omega)

/-- The death of a family. -/
theorem FamiliesOk.kill (h : FamiliesOk env fam p) (family : String) :
    FamiliesOk env fam ⟨p.world.killFamily family, p.grants⟩ := by
  refine h.removes (Db.Shape.delAll h.sound _) rfl (fun _ hu => hu) rfl fun g hg c id hc hr hk hid => ?_
  rcases List.mem_cons.mp hk with hk | hk
  · rw [← familyGroup_inj hk]
    exact List.mem_cons_of_mem _ (h.record_listed hg hc hr hid)
  · exact absurd hk (h.not_listed _ _ _)

/-- A record that is marked stays in its group. -/
theorem FamiliesOk.mark (h : FamiliesOk env fam p) {token : String} {record : RefreshRecord}
    (hr : p.world.record libs.json token = some record) :
    FamiliesOk env fam ⟨p.world.markUsed token, p.grants⟩ := by
  have hother : ∀ k, k ≠ refreshKey token → (p.world.markUsed token).db k = p.world.db k :=
    fun k hk => Db.mark_ne hk
  have hgroup : ∀ f, (p.world.markUsed token).db (familyGroup f) = p.world.db (familyGroup f) :=
    fun f => hother _ (family_ne_refresh f token)
  have hkey : ∀ g ∈ p.grants, (p.world.markUsed token).db g.claims.jti = p.world.db g.claims.jti :=
    fun g hg => hother _ (refresh_ne_uuid (h.access g hg).1.1 token).symm
  refine ⟨h.sound.markUsed hr, h.whole, fun g hg => ⟨(h.access g hg).1, fun e he => ?_⟩, h.refresh, h.chain,
    h.apart, h.families, fun id e he => ?_, fun g hg c hc hgr hj => ?_, fun f x hx => ?_⟩
  · have he' : (p.world.markUsed token).db.get p.world.now g.claims.jti = some e := he
    rw [Db.get_congr (hkey g hg)] at he'
    exact (h.access g hg).2 e he'
  · have he' : (p.world.markUsed token).db.get p.world.now (refreshKey id) = some e := he
    have hrec : ∃ g ∈ p.grants, ∃ c, g.refresh = some id ∧ g.chain = some c ∧
        ∃ fs seconds group expiry, Recorded env p.world (fam c) id e fs seconds group expiry := by
      by_cases hid : id = token
      · -- The mark keeps the fields and the expiry of the record.
        subst hid
        cases hg : p.world.db.get p.world.now (refreshKey id) with
        | none =>
          rw [World.record, Db.fields_of_none hg] at hr
          cases hr
        | some e₀ =>
          obtain ⟨g, hg', c, hgr, hc, fs, seconds, group, expiry, hrec⟩ := h.record id e₀ hg
          have hfs : p.world.db.fields p.world.now (refreshKey id) = fs := by
            rw [hrec.entry] at hg
            exact Db.fields_of_get hg
          rw [World.markUsed, World.setDb_db, Db.get_mark (Nat.le_refl _) hg, hfs, hrec.entry] at he'
          cases he'
          exact ⟨g, hg', c, hgr, hc, _, seconds, group, expiry, rfl, hrec.named, hrec.bounded,
            hrec.there, hrec.expires, hrec.outlived, hrec.listed⟩
      · rw [Db.get_congr (hother _ fun e => hid (refreshKey_inj e))] at he'
        exact h.record id e he'
    obtain ⟨g, hg, c, hgr, hc, fs, seconds, group, expiry, hrec⟩ := hrec
    refine ⟨g, hg, c, hgr, hc, fs, seconds, group, expiry, hrec.entry, hrec.named, hrec.bounded, ?_,
      hrec.expires, hrec.outlived, ?_⟩
    · show (p.world.markUsed token).db.get p.world.now _ = _
      rw [Db.get_congr (hgroup _)]
      exact hrec.there
    · show _ ∈ (p.world.markUsed token).db.members p.world.now _
      rw [Db.members_congr (hgroup _)]
      exact hrec.listed
  · have hgr' : ((p.world.markUsed token).db.get p.world.now (familyGroup (fam c))).isSome = true := hgr
    have hj' : ((p.world.markUsed token).db.get p.world.now g.claims.jti).isSome = true := hj
    rw [Db.get_congr (hgroup _)] at hgr'
    rw [Db.get_congr (hkey g hg)] at hj'
    show _ ∈ (p.world.markUsed token).db.members p.world.now _
    rw [Db.members_congr (hgroup _)]
    exact h.listed g hg c hc hgr' hj'
  · have hx' : x ∈ (p.world.markUsed token).db.members p.world.now (familyGroup f) := hx
    rw [Db.members_congr (hgroup _)] at hx'
    exact h.member f x hx'

/-! ## New tokens -/

section New

variable {w' : World} {resp : HttpResponse} {sub : String} {c : TokenClaims} {seconds : Nat}

theorem FamiliesOk.access_cons (h : FamiliesOk env fam p) {refresh : Option String}
    (hm : Minted libs p.world w' resp sub c seconds refresh) (chain : Option String) :
    ∀ g ∈ ⟨c, refresh, chain⟩ :: p.grants, w'.Knows (.access g.claims.jti) ∧
      ∀ e, w'.db.get w'.now g.claims.jti = some e → e.expireAt = some (1000 * g.claims.exp) := by
  intro g hg
  rcases List.mem_cons.mp hg with rfl | hg
  · refine ⟨⟨hm.fresh.1, hm.drawn⟩, fun e he => ?_⟩
    have he' : w'.db.get w'.now c.jti = some e := he
    rw [hm.get] at he'
    cases he'
    have hexp := hm.exp
    have hw := Nat.mul_div_cancel' h.whole
    show some (p.world.now + 1000 * seconds) = some (1000 * c.exp)
    congr 1
    omega
  · refine ⟨hm.knows (h.access g hg).1, fun e he => (h.access g hg).2 e ?_⟩
    rwa [hm.now, Db.get_congr (hm.older (h.access g hg).1)] at he

theorem FamiliesOk.apart_cons (h : FamiliesOk env fam p) {g₁ : Grant}
    (hj : p.world.Fresh g₁.claims.jti) (hid : ∀ id, g₁.refresh = some id → p.world.Fresh id) :
    ∀ g ∈ g₁ :: p.grants, ∀ g' ∈ g₁ :: p.grants, ∀ m, g.Holds m → g'.Holds m → g.chain = g'.chain := by
  -- A new grant has no credential of an older one.
  have hnew : ∀ g ∈ p.grants, ∀ m, g₁.Holds m → g.Holds m → False := by
    intro g hg m h₁ h₂
    have hu := (h.access g hg).1
    rcases h₁ with rfl | ⟨id, hr, rfl⟩ <;> rcases h₂ with he | ⟨id', hr', he⟩
    · exact hj.2 (he ▸ hu.2)
    · exact refresh_ne_uuid hj.1 id' he.symm
    · exact refresh_ne_uuid hu.1 id he
    · cases refreshKey_inj he
      exact (hid id hr).2 (h.refresh g hg id hr').2
  intro g hg g' hg' m h₁ h₂
  rcases List.mem_cons.mp hg with e | hold <;> rcases List.mem_cons.mp hg' with e' | hold'
  · rw [e, e']
  · exact (hnew g' hold' m (e ▸ h₁) h₂).elim
  · exact (hnew g hold m (e' ▸ h₂) h₁).elim
  · exact h.apart g hold g' hold' m h₁ h₂

/-- A single token belongs to no family. -/
theorem FamiliesOk.single (h : FamiliesOk env fam p) (hs : w'.Sound)
    (hm : Minted libs p.world w' resp sub c seconds none)
    (hdb : ∀ k, FamilyKey k → w'.db k = p.world.db k) :
    FamiliesOk env fam ⟨w', ⟨c, none, none⟩ :: p.grants⟩ := by
  have hgroup : ∀ f, w'.db (familyGroup f) = p.world.db (familyGroup f) := fun f => hdb _ (.inl ⟨f, rfl⟩)
  have hold : ∀ g ∈ ⟨c, none, none⟩ :: p.grants, ∀ c', g.chain = some c' → g ∈ p.grants := by
    intro g hg c' hc
    rcases List.mem_cons.mp hg with rfl | hg
    · cases hc
    · exact hg
  refine ⟨hs, hm.now ▸ h.whole, h.access_cons hm none, fun g hg id hr => ?_, fun g hg c' hc => ?_,
    h.apart_cons hm.fresh (by exact fun _ h => nomatch h), fun g hg g' hg' c₁ c₂ h₁ h₂ => ?_,
    fun id e he => ?_, fun g hg c' hc hgr hj => ?_, fun f x hx => ?_⟩
  · rcases List.mem_cons.mp hg with rfl | hg
    · cases hr
    · exact hm.knows (h.refresh g hg id hr)
  · obtain ⟨h₁, h₂⟩ := h.chain g (hold g hg c' hc) c' hc
    exact ⟨hm.kept _ h₁, hm.kept _ h₂⟩
  · exact h.families g (hold g hg c₁ h₁) g' (hold g' hg' c₂ h₂) c₁ c₂ h₁ h₂
  · have he' : w'.db.get w'.now (refreshKey id) = some e := he
    rw [hm.now, Db.get_congr (hdb _ (.inr ⟨id, rfl⟩))] at he'
    obtain ⟨g, hg, c', hr, hc, fs, secs, group, expiry, hrec⟩ := h.record id e he'
    refine ⟨g, List.mem_cons_of_mem _ hg, c', hr, hc, fs, secs, group, expiry, hrec.entry, hrec.named,
      hm.now ▸ hrec.bounded, ?_, hrec.expires, hrec.outlived, ?_⟩
    · show w'.db.get w'.now _ = _
      rw [hm.now, Db.get_congr (hgroup _)]
      exact hrec.there
    · show _ ∈ w'.db.members w'.now _
      rw [hm.now, Db.members_congr (hgroup _)]
      exact hrec.listed
  · have hg := hold g hg c' hc
    have hgr' : (w'.db.get w'.now (familyGroup (fam c'))).isSome = true := hgr
    have hj' : (w'.db.get w'.now g.claims.jti).isSome = true := hj
    rw [hm.now, Db.get_congr (hgroup _)] at hgr'
    rw [hm.now, Db.get_congr (hm.older (h.access g hg).1)] at hj'
    show _ ∈ w'.db.members w'.now _
    rw [hm.now, Db.members_congr (hgroup _)]
    exact h.listed g hg c' hc hgr' hj'
  · have hx' : x ∈ w'.db.members w'.now (familyGroup f) := hx
    rw [hm.now, Db.members_congr (hgroup _)] at hx'
    obtain ⟨g, hg, c', hc, hf, hh⟩ := h.member f x hx'
    exact ⟨g, List.mem_cons_of_mem _ hg, c', hc, hf, hh⟩

/-- A pair of the chain `ch` is handed out. If the family has tokens already,
they are of that chain and its group is there. -/
structure NewPair (env : Env) (fam : String → String) (p : Past) (w' : World) (c : TokenClaims)
    (seconds : Nat) (id ch text : String) (record : RefreshRecord) : Prop where
  minted : ∃ (libs : Libs) (resp : HttpResponse) (sub : String),
    Minted libs p.world w' resp sub c seconds (some id)
  fresh : p.world.Fresh id
  positive : 0 < refreshTtl env
  db : w'.db = pairDb p.world.db p.world.now c.jti seconds id record text (refreshTtl env)
  family : fam ch = record.family
  drawn : ch ∈ w'.drawn ∧ record.family ∈ w'.drawn
  old : ∀ g ∈ p.grants, ∀ c', g.chain = some c' → fam c' = record.family → c' = ch ∧
    (p.world.db.get p.world.now (familyGroup record.family)).isSome = true

namespace NewPair

variable {id ch text : String} {record : RefreshRecord}

/-- The group lists the new tokens, and expires with the new record. -/
theorem group (hn : NewPair env fam p w' c seconds id ch text record) :
    w'.db.get w'.now (familyGroup record.family) =
      some ⟨.zset (zinsert (refreshKey id) (p.world.now / 1000 + refreshTtl env : Nat)
        (zinsert c.jti (c.exp : Nat) (p.world.db.members p.world.now (familyGroup record.family)))),
        some (1000 * (p.world.now / 1000 + refreshTtl env))⟩ := by
  obtain ⟨libs, resp, sub, hm⟩ := hn.minted
  have h₀ := hn.positive
  rw [hn.db, hm.now, hm.exp, pairDb_group hm.fresh.1 hm.positive (by omega)]

/-- The other groups are as before. -/
theorem other (hn : NewPair env fam p w' c seconds id ch text record) {f : String}
    (hf : f ≠ record.family) : w'.db (familyGroup f) = p.world.db (familyGroup f) := by
  obtain ⟨libs, resp, sub, hm⟩ := hn.minted
  rw [hn.db]
  exact pairDb_ne (family_ne_uuid hm.fresh.1 f) (family_ne_refresh f id) (subject_ne_family _ f).symm
    fun e => hf (familyGroup_inj e)

theorem now (hn : NewPair env fam p w' c seconds id ch text record) : w'.now = p.world.now := by
  obtain ⟨libs, resp, sub, hm⟩ := hn.minted
  exact hm.now

/-- An older member of the group of the family stays. -/
theorem mem_group (hn : NewPair env fam p w' c seconds id ch text record) {x : String × Int}
    (hx : x ∈ p.world.db.members p.world.now (familyGroup record.family)) (hid : x.1 ≠ refreshKey id)
    (hj : x.1 ≠ c.jti) : x ∈ w'.db.members w'.now (familyGroup record.family) := by
  rw [Db.members_of_get hn.group]
  exact mem_zinsert.mpr (.inr ⟨mem_zinsert.mpr (.inr ⟨hx, hj⟩), hid⟩)

/-- The new record is in its group. -/
theorem recorded_new (hn : NewPair env fam p w' c seconds id ch text record)
    (hwhole : 1000 ∣ p.world.now) {e : Entry} (he : w'.db.get w'.now (refreshKey id) = some e) :
    ∃ fs seconds group expiry, Recorded env w' (fam ch) id e fs seconds group expiry := by
  have hw := Nat.mul_div_cancel' hwhole
  have h₀ := hn.positive
  have hrefresh : w'.db (refreshKey id) =
      some ⟨.hash (recordFields record text), some (1000 * (p.world.now / 1000 + refreshTtl env))⟩ := by
    rw [hn.db, pairDb_refresh, show 1000 * (p.world.now / 1000 + refreshTtl env) =
      p.world.now + 1000 * refreshTtl env by omega]
  rw [(Db.get_eq_some.mp he).1] at hrefresh
  refine ⟨_, p.world.now / 1000 + refreshTtl env, _, _, Option.some.inj hrefresh, hn.family ▸ rfl, ?_,
    hn.family ▸ hn.group, rfl, Nat.le_refl _, ?_⟩
  · exact Nat.le_of_eq (congrArg (· / 1000 + refreshTtl env) hn.now.symm)
  · rw [hn.family, Db.members_of_get hn.group]
    exact mem_zinsert.mpr (.inl rfl)

/-- An older record stays in its group. -/
theorem recorded_old (hn : NewPair env fam p w' c seconds id ch text record) {x family : String}
    {e : Entry} {fs : List (String × String)} {secs : Nat} {group : Entry} {expiry : Nat}
    (hx : x ≠ id) (hrec : Recorded env p.world family x e fs secs group expiry) :
    ∃ fs secs group expiry, Recorded env w' family x e fs secs group expiry := by
  by_cases hf : family = record.family
  · subst hf
    have hb := hrec.bounded
    obtain ⟨libs, resp, sub, hm⟩ := hn.minted
    exact ⟨fs, secs, _, _, hrec.entry, hrec.named, hn.now ▸ hb, hn.group, rfl, by omega,
      hn.mem_group hrec.listed (fun e => hx (refreshKey_inj e)) (refresh_ne_uuid hm.fresh.1 x)⟩
  · refine ⟨fs, secs, group, expiry, hrec.entry, hrec.named, hn.now ▸ hrec.bounded, ?_, hrec.expires,
      hrec.outlived, ?_⟩
    · rw [hn.now, Db.get_congr (hn.other hf)]
      exact hrec.there
    · rw [hn.now, Db.members_congr (hn.other hf)]
      exact hrec.listed

/-- The records after a new pair. -/
theorem recorded (hn : NewPair env fam p w' c seconds id ch text record) (h : FamiliesOk env fam p)
    {x : String} {e : Entry} (he : w'.db.get w'.now (refreshKey x) = some e) :
    ∃ g ∈ ⟨c, some id, some ch⟩ :: p.grants, ∃ c', g.refresh = some x ∧ g.chain = some c' ∧
      ∃ fs secs group expiry, Recorded env w' (fam c') x e fs secs group expiry := by
  by_cases hx : x = id
  · subst hx
    exact ⟨_, List.mem_cons_self, ch, rfl, rfl, hn.recorded_new h.whole he⟩
  · obtain ⟨libs, resp, sub, hm⟩ := hn.minted
    have hkey : w'.db (refreshKey x) = p.world.db (refreshKey x) := by
      rw [hn.db]
      exact pairDb_ne (refresh_ne_uuid hm.fresh.1 x) (fun e => hx (refreshKey_inj e))
        (subject_ne_refresh _ x).symm (family_ne_refresh _ x).symm
    rw [hn.now, Db.get_congr hkey] at he
    obtain ⟨g, hg, c', hr, hc, fs, secs, group, expiry, hrec⟩ := h.record x e he
    exact ⟨g, List.mem_cons_of_mem _ hg, c', hr, hc, hn.recorded_old hx hrec⟩

/-- An older access token stays listed. -/
theorem listed_old (hn : NewPair env fam p w' c seconds id ch text record) (h : FamiliesOk env fam p)
    {g : Grant} {c' : String} (hg : g ∈ p.grants) (hc : g.chain = some c')
    (hgr : (w'.db.get w'.now (familyGroup (fam c'))).isSome = true)
    (hj : (w'.db.get w'.now g.claims.jti).isSome = true) :
    (g.claims.jti, (g.claims.exp : Int)) ∈ w'.db.members w'.now (familyGroup (fam c')) := by
  obtain ⟨libs, resp, sub, hm⟩ := hn.minted
  have hk := (h.access g hg).1
  rw [hn.now, Db.get_congr (hm.older hk)] at hj
  by_cases hf : fam c' = record.family
  · -- The group was there, so it listed the token.
    have hl := h.listed g hg c' hc (hf ▸ (hn.old g hg c' hc hf).2) hj
    rw [hf] at hl ⊢
    exact hn.mem_group hl (refresh_ne_uuid hk.1 id).symm fun e => hm.fresh.2 (e ▸ hk.2)
  · rw [hn.now, Db.get_congr (hn.other hf)] at hgr
    rw [hn.now, Db.members_congr (hn.other hf)]
    exact h.listed g hg c' hc hgr hj

/-- The members of the groups after a new pair. -/
theorem member (hn : NewPair env fam p w' c seconds id ch text record) (h : FamiliesOk env fam p)
    {f : String} {x : String × Int} (hx : x ∈ w'.db.members w'.now (familyGroup f)) :
    ∃ g ∈ ⟨c, some id, some ch⟩ :: p.grants, ∃ c', g.chain = some c' ∧ f = fam c' ∧ g.Holds x.1 := by
  by_cases hf : f = record.family
  · rw [hf, Db.members_of_get hn.group] at hx
    rcases mem_zinsert.mp hx with rfl | ⟨hx, -⟩
    · exact ⟨_, List.mem_cons_self, ch, rfl, hf.trans hn.family.symm, .inr ⟨id, rfl, rfl⟩⟩
    rcases mem_zinsert.mp hx with rfl | ⟨hx, -⟩
    · exact ⟨_, List.mem_cons_self, ch, rfl, hf.trans hn.family.symm, .inl rfl⟩
    · obtain ⟨g, hg, c', hc, hfc, hh⟩ := h.member _ x hx
      exact ⟨g, List.mem_cons_of_mem _ hg, c', hc, hf.trans hfc, hh⟩
  · rw [hn.now, Db.members_congr (hn.other hf)] at hx
    obtain ⟨g, hg, c', hc, hfc, hh⟩ := h.member f x hx
    exact ⟨g, List.mem_cons_of_mem _ hg, c', hc, hfc, hh⟩

/-- The refresh token of the pair is known: it is in the store. -/
theorem knows (hn : NewPair env fam p w' c seconds id ch text record) (hs : w'.Sound) :
    w'.Knows (.refresh id) := by
  have hrefresh := (congrFun hn.db (refreshKey id)).trans pairDb_refresh
  obtain ⟨_, -, hk⟩ := (hs _ _ hrefresh).refresh_inv
  exact hk

end NewPair

theorem FamiliesOk.paired (h : FamiliesOk env fam p) (hs : w'.Sound) {id ch text : String}
    {record : RefreshRecord} (hn : NewPair env fam p w' c seconds id ch text record) :
    FamiliesOk env fam ⟨w', ⟨c, some id, some ch⟩ :: p.grants⟩ := by
  obtain ⟨libs, resp, sub, hm⟩ := hn.minted
  refine ⟨hs, hn.now ▸ h.whole, h.access_cons hm _, fun g hg x hx => ?_, fun g hg c' hc => ?_,
    h.apart_cons hm.fresh fun x hx => Option.some.inj hx ▸ hn.fresh,
    fun g hg g' hg' c₁ c₂ h₁ h₂ he => ?_, fun x e he => hn.recorded h he,
    fun g hg c' hc hgr hj => ?_, fun f x hx => hn.member h hx⟩
  · rcases List.mem_cons.mp hg with rfl | hg
    · cases hx
      exact hn.knows hs
    · exact hm.knows (h.refresh g hg x hx)
  · rcases List.mem_cons.mp hg with rfl | hg
    · cases hc
      exact ⟨hn.drawn.1, hn.family.symm ▸ hn.drawn.2⟩
    · exact ⟨hm.kept _ (h.chain g hg c' hc).1, hm.kept _ (h.chain g hg c' hc).2⟩
  · rcases List.mem_cons.mp hg with rfl | hg <;> rcases List.mem_cons.mp hg' with rfl | hg'
    · cases h₁
      cases h₂
      rfl
    · cases h₁
      exact (hn.old g' hg' c₂ h₂ (he.symm.trans hn.family)).1.symm
    · cases h₂
      exact (hn.old g hg c₁ h₁ (he.trans hn.family)).1
    · exact h.families g hg g' hg' c₁ c₂ h₁ h₂ he
  · rcases List.mem_cons.mp hg with rfl | hg
    · cases hc
      show (c.jti, (c.exp : Int)) ∈ w'.db.members w'.now _
      rw [hn.family, Db.members_of_get hn.group]
      exact mem_zinsert.mpr (.inr ⟨mem_zinsert.mpr (.inl rfl), (refresh_ne_uuid hm.fresh.1 id).symm⟩)
    · exact hn.listed_old h hg hc hgr hj

end New

/-! ## Histories -/

theorem recordOfFields_family {t : JsonText} {fs : List (String × String)} {record : RefreshRecord}
    (h : RedisClient.recordOfFields t fs = some record) : fs.lookup "family" = some record.family := by
  simp only [RedisClient.recordOfFields, Option.bind_eq_bind, Option.bind_eq_some_iff] at h
  obtain ⟨_, -, _, -, family, hf, _, -, he⟩ := h
  cases he
  exact hf

/-- A record that is there is that of a grant, and its group is there. -/
theorem FamiliesOk.record_of (h : FamiliesOk env fam p) {t : JsonText} {token : String}
    {record : RefreshRecord} (hr : p.world.record t token = some record) :
    ∃ g ∈ p.grants, ∃ c, g.refresh = some token ∧ g.chain = some c ∧ fam c = record.family ∧
      (p.world.db.get p.world.now (familyGroup record.family)).isSome = true := by
  cases he : p.world.db.get p.world.now (refreshKey token) with
  | none =>
    rw [World.record, Db.fields_of_none he] at hr
    cases hr
  | some e =>
    obtain ⟨g, hg, c, hgr, hc, fs, seconds, group, expiry, hrec⟩ := h.record token e he
    rw [hrec.entry] at he
    rw [World.record, Db.fields_of_get he] at hr
    have hf : fam c = record.family :=
      Option.some.inj (hrec.named.symm.trans (recordOfFields_family hr))
    exact ⟨g, hg, c, hgr, hc, hf, hf ▸ Option.isSome_iff_exists.mpr ⟨group, hrec.there⟩⟩

/-- The chain of an exchange is that of the refresh token. -/
theorem FamiliesOk.chainOf_eq (h : FamiliesOk env fam p) {host : HostHeader} {token id : String}
    {g : Grant} (hg : g ∈ p.grants) (hr : g.refresh = some token) :
    chainOf p.grants (some id) (.refreshToken host token) = g.chain := by
  show (p.grants.find? fun g => g.refresh = some token).bind Grant.chain = _
  cases hf : p.grants.find? fun g => g.refresh = some token with
  | none => exact absurd hr (by simpa using List.find?_eq_none.mp hf g hg)
  | some g' =>
    have hr' : g'.refresh = some token := by simpa using List.find?_some hf
    exact h.apart g' (List.mem_of_find?_eq_some hf) g hg _ (.inr ⟨token, hr', rfl⟩) (.inr ⟨token, hr, rfl⟩)

/-- A token minted by an exchange is minted after the mark, too. -/
theorem Minted.mark {w w' : World} {resp : HttpResponse} {sub token : String} {c : TokenClaims}
    {seconds : Nat} {refresh : Option String} (hm : Minted libs w w' resp sub c seconds refresh) :
    Minted libs (w.markUsed token) w' resp sub c seconds refresh :=
  ⟨hm.body, hm.sub, hm.exp, hm.positive, hm.bounded, hm.fresh, hm.now, hm.drawn, hm.kept,
    fun k hk => (hm.db k hk).trans (issueDb_congr (fun _ hk => (markUsed_db token hk).symm) hk)⟩

theorem FamiliesOk.step (h : FamiliesOk env fam p) (h₀ : 0 < refreshTtl env)
    (hlt : refreshTtl env < 2 ^ 63) {r : Request} {resp : HttpResponse} {w' : World} (hs : w'.Sound)
    (he : Effect env libs p.world r resp w')
    (hdel : ∀ jti, r = .revokeToken jti → ∃ g ∈ p.grants, g.claims.jti = jti) :
    ∃ fam', FamiliesOk env fam' ⟨w', granted libs p.grants r resp ++ p.grants⟩ := by
  cases he with
  | idle hi hb =>
    rw [granted_tokenless hb]
    exact ⟨fam, h.idle hs hi⟩
  | access hm hdb =>
    rw [hm.granted]
    refine ⟨fam, h.single hs hm fun k hk => ?_⟩
    rw [hdb]
    exact issueDb_ne (fun e => not_familyKey_uuid hm.fresh.1 (e ▸ hk))
      (fun e => not_familyKey_subject _ (e ▸ hk))
  | @pair host req _ _ c seconds id family hm hf hfn hp =>
    rw [hm.granted]
    obtain ⟨text, -, hdb⟩ := hp.db h₀ hlt
    -- The chain is new, and so is its family.
    have hfam : ∀ c ∈ p.world.drawn, Function.update fam id family c = fam c := by
      intro c hc
      apply Function.update_of_ne
      rintro rfl
      exact hp.fresh.2 hc
    have hch : Function.update fam id family id = family := Function.update_self _ _ _
    have h' := h.congr hfam
    have hid : id ∈ w'.drawn := by
      have hrefresh := (congrFun hdb (refreshKey id)).trans pairDb_refresh
      obtain ⟨_, -, hk⟩ := (hs _ _ hrefresh).refresh_inv
      exact hk.2
    refine ⟨_, h'.paired hs ⟨⟨libs, _, _, hm⟩, hp.fresh, h₀, hdb, hch, ⟨hid, hfn⟩, fun g hg c' hc' he => ?_⟩⟩
    have hd := (h'.chain g hg c' hc').2
    rw [he] at hd
    exact absurd hd hf.2
  | @exchange host token _ _ c seconds id record hr hu hm hp =>
    rw [hm.granted]
    obtain ⟨text, -, hdb⟩ := hp.db h₀ hlt
    obtain ⟨g, hg, c₀, hgr, hc, hf, hgroup⟩ := h.record_of hr
    rw [h.chainOf_eq hg hgr, hc]
    have hd := h.chain g hg c₀ hc
    refine ⟨fam, (h.mark hr).paired hs ⟨⟨libs, _, _, hm.mark⟩, hp.fresh, h₀, hdb, hf,
      ⟨hm.kept _ hd.1, hf ▸ hm.kept _ hd.2⟩, fun g' hg' c' hc' he => ⟨?_, ?_⟩⟩⟩
    · exact h.families g' hg' g hg c' c₀ hc' hc (he.trans hf.symm)
    · show ((p.world.markUsed token).db.get p.world.now _).isSome = true
      rw [World.markUsed, World.setDb_db, Db.get_congr (Db.mark_ne (family_ne_refresh _ token))]
      exact hgroup
  | kill _ _ hb =>
    rw [granted_tokenless hb]
    exact ⟨fam, h.kill _⟩
  | revoke jti hb =>
    rw [granted_tokenless hb]
    refine ⟨fam, h.removes hs rfl (fun _ hu => hu) rfl fun g hg c id hc hr hk => ?_⟩
    obtain ⟨g', hg', hj⟩ := hdel jti rfl
    exact absurd ((List.mem_singleton.mp hk).trans hj.symm) (family_ne_uuid (h.access g' hg').1.1 _)
  | revokeSubject sub =>
    rw [granted_tokenless (by exact fun _ _ => nofun)]
    refine ⟨fam, h.removes hs rfl (fun _ hu => hu) rfl fun g hg c id hc hr hk => ?_⟩
    rcases List.mem_cons.mp hk with hk | hk
    · exact absurd hk.symm (subject_ne_family _ _)
    · exact absurd hk (family_not_listed_in_subject h.sound _ _ _)

/-- In every history in whole seconds the groups of families are complete. -/
theorem Past.Reached.familiesOk (ht : libs.json.Faithful) (h₀ : 0 < refreshTtl env)
    (hlt : refreshTtl env < 2 ^ 63) (hp : p.Reached env libs s WholeSeconds) :
    ∃ fam, FamiliesOk env fam p := by
  induction hp with
  | start => exact ⟨id, familiesOk_start id⟩
  | request _ h hok hdel ih =>
    obtain ⟨fam, hf⟩ := ih
    exact hf.step h₀ hlt (hf.sound.handle ht h) (alone_handle ht hf.sound h hok) hdel
  | tick _ hd ih =>
    obtain ⟨fam, hf⟩ := ih
    exact ⟨fam, hf.tick hd⟩

/-- Without a record nothing is exchanged. -/
theorem record_none {w : World} {t : JsonText} {token : String}
    (h : w.db.get w.now (refreshKey token) = none) : w.record t token = none := by
  rw [World.record, Db.fields_of_none h]
  rfl

/-- Where the lifetime of refresh tokens is negative as an `i64`, there are no
records. -/
theorem Past.Reached.no_record {T : Past → Nat → Prop} (ht : libs.json.Faithful)
    (hneg : 2 ^ 63 ≤ refreshTtl env) (hp : p.Reached env libs s T) (x : String) :
    p.world.db.get p.world.now (refreshKey x) = none := by
  induction hp generalizing x with
  | start => rfl
  | @request p r resp w' hp h hok hdel ih =>
    show w'.db.get w'.now _ = none
    cases alone_handle ht (hp.sound ht) h hok with
    | idle hi _ =>
      rw [hi.db, hi.now]
      exact ih x
    | access hm hdb =>
      rw [hdb, hm.now, Db.get_congr (issueDb_ne (refresh_ne_uuid hm.fresh.1 x) (subject_ne_refresh _ x).symm)]
      exact ih x
    | pair hm _ _ hpair =>
      rw [hm.now]
      exact hpair.void hneg x (ih x)
    | @exchange _ token _ _ _ _ _ _ hr _ _ _ =>
      rw [record_none (ih token)] at hr
      cases hr
    | @kill _ token _ _ hr _ _ =>
      rw [record_none (ih token)] at hr
      cases hr
    | revoke | revokeSubject =>
      rw [World.setDb_db, World.setDb_now, Db.get_delAll]
      split
      · rfl
      · exact ih x
  | tick _ _ ih => exact Db.get_none_mono (Nat.le_add_right _ _) (ih x)

/-! ## The end of a chain -/

/-- No verification of the access token succeeds in the world, and no exchange
of the refresh token. -/
def Grant.Refused (env : Env) (libs : Libs) (s : JwkService) (g : Grant) (w : World) : Prop :=
  (∀ issuer audience b w', Alone (faultless s).call
    (g.claims.isVerify (redisClient libs.json) issuer audience) w b w' → b = false) ∧
  ∀ id, g.refresh = some id → ∀ issuer r w', Alone (faultless s).call
    (JwtManager.refreshTokenPair env libs (redisClient libs.json) id issuer) w r w' →
      r = .error .notValid

/-- The access token of a grant verifies in one world as in the other, and its
refresh token has the same record, in the same group. -/
structure Grant.Untouched (libs : Libs) (s : JwkService) (g : Grant) (w w' : World) : Prop where
  verify : ∀ issuer audience b,
    (∃ w₁, Alone (faultless s).call (g.claims.isVerify (redisClient libs.json) issuer audience) w b w₁) ↔
      ∃ w₁, Alone (faultless s).call (g.claims.isVerify (redisClient libs.json) issuer audience) w' b w₁
  exchange : ∀ id, g.refresh = some id → w'.db (refreshKey id) = w.db (refreshKey id) ∧
    ∀ record, w.record libs.json id = some record →
      w'.db (familyGroup record.family) = w.db (familyGroup record.family)

theorem Gone.refused {g : Grant} {w : World} (hw : w.Sound) (hj : Gone w (.access g.claims.jti))
    (hr : ∀ id, g.refresh = some id → Gone w (.refresh id)) : g.Refused env libs s w := by
  refine ⟨fun issuer audience b w' h => ?_, fun id hid issuer r w' h => ?_⟩
  · obtain ⟨rfl, -⟩ := (alone_isVerify b w').mp h
    have hnone : w.db.get w.now g.claims.jti = none := hj
    rw [hnone, Option.isSome_none, Bool.and_false]
  · have hrec : w.record libs.json id = none := by
      cases he : w.db.get w.now (refreshKey id) with
      | none => exact record_none he
      | some e =>
        obtain ⟨v, t⟩ := e
        obtain ⟨fs, hv, hl⟩ := hr id hid _ he
        cases hv
        rw [World.record, Db.fields_of_get he, RedisClient.recordOfFields, hl]
        rfl
    have h := (alone_refreshTokenPair hw r w').mp h
    rw [hrec] at h
    exact h.1

/-- Every credential of the chain is gone when its family has been killed. -/
theorem FamiliesOk.killed (h : FamiliesOk env fam p) {g : Grant} {c : String} (hg : g ∈ p.grants)
    (hc : g.chain = some c) (hgroup : (p.world.db.get p.world.now (familyGroup (fam c))).isSome = true) :
    Gone (p.world.killFamily (fam c)) (.access g.claims.jti) ∧
      ∀ id, g.refresh = some id → Gone (p.world.killFamily (fam c)) (.refresh id) := by
  have hgone : ∀ a : Credential, ((p.world.db.get p.world.now a.key).isSome = true →
      a.key ∈ p.world.db.listed p.world.now (familyGroup (fam c)) (timestamp p.world.now)) →
        Gone (p.world.killFamily (fam c)) a := by
    intro a ha
    apply Gone.of_none
    show (Db.delAll _ _).get p.world.now _ = none
    rw [Db.get_delAll]
    split
    · rfl
    · rename_i hn
      cases he : p.world.db.get p.world.now a.key with
      | none => rfl
      | some e => exact absurd (List.mem_cons_of_mem _ (ha (by rw [he]; rfl))) hn
  exact ⟨hgone (.access _) (h.access_listed hg hc hgroup),
    fun id hr => hgone (.refresh id) (h.record_listed hg hc hr)⟩

/-- The tokens of the other chains are as before. -/
theorem FamiliesOk.spared (h : FamiliesOk env fam p) {g₀ g : Grant} {c : String} (hg₀ : g₀ ∈ p.grants)
    (hc₀ : g₀.chain = some c) (hg : g ∈ p.grants) (hne : g.chain ≠ some c) :
    g.Untouched libs s p.world (p.world.killFamily (fam c)) := by
  -- What is deleted belongs to the chain.
  have hheld : ∀ m, g.Holds m → (p.world.killFamily (fam c)).db m = p.world.db m := by
    intro m hm
    refine Db.delAll_of_not_mem fun hk => ?_
    rcases List.mem_cons.mp hk with hk | hk
    · exact hm.ne_family (h.access g hg).1.1 _ hk.symm
    · obtain ⟨x, hx, rfl⟩ := List.mem_map.mp hk
      obtain ⟨g', hg', c', hc', hf, hh⟩ := h.member _ x (List.mem_of_mem_filter hx)
      have hcc := h.families g₀ hg₀ g' hg' c c' hc₀ hc' hf
      exact hne ((h.apart g hg g' hg' _ hm hh).trans (hc'.trans (congrArg some hcc.symm)))
  refine ⟨fun issuer audience b => ?_, fun id hr => ⟨hheld _ (.inr ⟨id, hr, rfl⟩), fun record hrec => ?_⟩⟩
  · simp only [alone_isVerify]
    show (∃ w₁, b = (_ && (p.world.db.get p.world.now _).isSome) ∧ _) ↔
      ∃ w₁, b = (_ && ((p.world.killFamily (fam c)).db.get p.world.now _).isSome) ∧ _
    rw [Db.get_congr (hheld _ (.inl rfl))]
    exact ⟨fun ⟨_, hb, _⟩ => ⟨_, hb, rfl⟩, fun ⟨_, hb, _⟩ => ⟨_, hb, rfl⟩⟩
  · obtain ⟨g', hg', c', hr', hc', hf, -⟩ := h.record_of hrec
    have hcc : g.chain = g'.chain := h.apart g hg g' hg' _ (.inr ⟨id, hr, rfl⟩) (.inr ⟨id, hr', rfl⟩)
    rw [← hf]
    refine Db.delAll_of_not_mem fun hk => ?_
    rcases List.mem_cons.mp hk with hk | hk
    · have := h.families g' hg' g₀ hg₀ c' c hc' hc₀ (familyGroup_inj hk)
      exact hne (hcc.trans (hc'.trans (congrArg some this)))
    · exact h.not_listed _ _ _ hk

/-- A credential that is gone after a history is gone in every state the
service reaches from there. -/
theorem gone_forever (ht : libs.json.Faithful) {w : World} (hw : w.Sound) {a : Credential}
    (hk : w.Knows a) (hg : Gone w a) {adm : Nat → Admission} {req : Nat → Request} {tr : Events Nat}
    {P : Pool svc World Nat HttpResponse}
    (hr : (service s).Run ⟨w, fun i => serve env libs (redisClient libs.json) (adm i) (req i)⟩ tr P) :
    P.st.Sound ∧ Gone P.st a := by
  have hrun : Running (fun _ => StoredToken libs) ([] : Events Nat)
      ⟨w, fun i => serve env libs (redisClient libs.json) (adm i) (req i)⟩ :=
    ⟨fun i => serve_disciplined env libs ht (adm i) (req i), hw.coherent⟩
  exact ⟨(hrun.run hr).coherent.sound, hrun.gone ⟨hk.1, hk.2, fun _ hd => nomatch hd⟩ hg hr⟩

/-- In a history in whole seconds a refresh token is presented that was used
and whose record is there. The exchange answers `NotValid`, and in every state
the service reaches from there, with whatever requests at once, every token of
the chain is refused. The tokens of the other chains are untouched. -/
theorem reuse_kills_chain (ht : libs.json.Faithful) (h₀ : 0 < refreshTtl env)
    (hp : p.Reached env libs s WholeSeconds) {token issuer : String} {record : RefreshRecord}
    (hrec : p.world.record libs.json token = some record) (hused : p.world.used token = true)
    {r : Except JwtError (String × String)} {w' : World}
    (h : Alone (faultless s).call
      (JwtManager.refreshTokenPair env libs (redisClient libs.json) token issuer) p.world r w') :
    r = .error .notValid ∧ ∃ g₀ ∈ p.grants, ∃ c, g₀.refresh = some token ∧ g₀.chain = some c ∧
      (∀ g ∈ p.grants, g.chain = some c → ∀ (adm : Nat → Admission) (req : Nat → Request)
        (tr : Events Nat) (P : Pool svc World Nat HttpResponse), (service s).Run
          ⟨w', fun i => serve env libs (redisClient libs.json) (adm i) (req i)⟩ tr P →
            g.Refused env libs s P.st) ∧
      ∀ g ∈ p.grants, g.chain ≠ some c → g.Untouched libs s p.world w' := by
  rcases Nat.lt_or_ge (refreshTtl env) (2 ^ 63) with hlt | hneg
  swap
  · rw [record_none (hp.no_record ht hneg token)] at hrec
    cases hrec
  obtain ⟨fam, hf⟩ := hp.familiesOk ht h₀ hlt
  have h := (alone_refreshTokenPair hf.sound r w').mp h
  rw [hrec] at h
  simp only [hused, if_true] at h
  obtain ⟨rfl, rfl⟩ := h
  obtain ⟨g₀, hg₀, c, hr₀, hc₀, hfam, hgroup⟩ := hf.record_of hrec
  rw [← hfam] at hgroup ⊢
  refine ⟨rfl, g₀, hg₀, c, hr₀, hc₀, fun g hg hc adm req tr P hrun => ?_,
    fun g hg hne => hf.spared hg₀ hc₀ hg hne⟩
  obtain ⟨hj, hr⟩ := hf.killed hg hc hgroup
  have hk := hf.kill (fam c)
  obtain ⟨hs, hgone⟩ := gone_forever ht hk.sound (hf.access g hg).1 hj hrun
  exact Gone.refused hs hgone fun id hid =>
    (gone_forever ht hk.sound (hf.refresh g hg id hid) (hr id hid) hrun).2

/-- A pair is exchanged, and its refresh token presented again: the tokens of
the exchange are refused. -/
theorem reuse_kills_chain_twice : ∃ (p : Past) (g : Grant) (w' : World),
    p.Reached bareEnv echoLibs ⟨300000, 10000, 10000⟩ WholeSeconds ∧ g ∈ p.grants ∧
      g.refresh = some uuidE ∧ (p.world.db.get p.world.now g.claims.jti).isSome = true ∧
      Alone (faultless ⟨300000, 10000, 10000⟩).call
        (JwtManager.refreshTokenPair bareEnv echoLibs (redisClient .compact) uuidB "host") p.world
        (.error .notValid) w' ∧
      g.Refused bareEnv echoLibs ⟨300000, 10000, 10000⟩ w' := by
  have hstart : Past.Reached bareEnv echoLibs ⟨300000, 10000, 10000⟩ WholeSeconds
    ⟨World.empty, []⟩ := .start
  obtain ⟨x, w₁, h₁, hnow, hdrawn, hdb⟩ := echo_pair hstart "user" (u := uuidA) (f := uuidC) (i := uuidB)
    ⟨by decide, nofun⟩ ⟨by decide, show uuidA ∉ [uuidC] by decide⟩
    ⟨by decide, show uuidB ∉ [uuidA, uuidC] by decide⟩ (show 1 ≤ 60 by decide) (by decide)
    (show 0 / 1000 + 2592000 ≤ maxSeconds by decide)
  have hs₁ := h₁.sound echo_faithful
  have hdrawn₁ : w₁.drawn = [uuidB, uuidA, uuidC] := hdrawn
  have hget : w₁.db.get w₁.now (refreshKey uuidB) =
      some ⟨.hash (recordFields ⟨"user", ["api"], uuidC⟩ apiText), some (0 + 1000 * 2592000)⟩ := by
    refine Db.get_eq_some.mpr ⟨?_, by rw [hnow]; rfl⟩
    rw [hdb]
    exact pairDb_refresh
  obtain ⟨hrec, hused⟩ := echo_record hget
  obtain ⟨access, y, w₂, hc, hex, hnow₂, -, hdb₂⟩ := @echo_exchange ⟨300000, 10000, 10000⟩ w₁ hs₁ uuidB
    uuidC uuidD uuidE "user" hrec hused ⟨by decide, by rw [hdrawn₁]; decide⟩
    ⟨by decide, by rw [World.draw_drawn, hdrawn₁]; decide⟩ (by rw [hnow]; decide)
  have hrefresh := @alone_refreshToken_of (faultless ⟨300000, 10000, 10000⟩).call _ w₁ w₂ bareEnv echoLibs
    (.text "host") uuidB _ access uuidE rfl hex
  have h₂ := h₁.request hrefresh (show 200 ≠ 500 by decide) (by exact fun _ h => nomatch h)
  let first : Grant := ⟨newClaims "host" "user" ["api"] 0 60 uuidA x, some uuidB, some uuidB⟩
  have hg : granted echoLibs [first] (.refreshToken (.text "host") uuidB)
      ⟨200, .token access (some uuidE)⟩ = [⟨newClaims "host" "user" ["api"] w₁.now 3600 uuidD y, some uuidE, some uuidB⟩] := by
    simp only [granted, hc]
    rfl
  replace h₂ : Past.Reached bareEnv echoLibs ⟨300000, 10000, 10000⟩ WholeSeconds ⟨w₂, granted echoLibs
    [first] (.refreshToken (.text "host") uuidB) ⟨200, .token access (some uuidE)⟩ ++ [first]⟩ := h₂
  rw [hg] at h₂
  -- The record is still there, and marked.
  have hget₂ : w₂.db.get w₂.now (refreshKey uuidB) = some ⟨.hash (("used", "1") ::
      recordFields ⟨"user", ["api"], uuidC⟩ apiText), some (0 + 1000 * 2592000)⟩ := by
    rw [hnow₂, hdb₂, Db.get_congr (pairDb_ne (by decide) (by decide) (by decide) (by decide)),
      World.markUsed, World.setDb_db, Db.get_mark (Nat.le_refl _) hget, Db.fields_of_get hget]
  have hrec₂ : w₂.record echoLibs.json uuidB = some ⟨"user", ["api"], uuidC⟩ := (echo_usedRecord hget₂).1
  have hused₂ := (echo_usedRecord hget₂).2
  have hkill : Alone (faultless ⟨300000, 10000, 10000⟩).call (JwtManager.refreshTokenPair bareEnv echoLibs
      (redisClient echoLibs.json) uuidB "host") w₂ (.error .notValid) (w₂.killFamily uuidC) := by
    refine (alone_refreshTokenPair (h₂.sound echo_faithful) _ _).mpr ?_
    rw [hrec₂]
    simp only [hused₂, if_true, and_self]
  obtain ⟨-, g₀, hg₀, c, hr₀, hc₀, hall, -⟩ := reuse_kills_chain echo_faithful
    (show 0 < refreshTtl bareEnv by decide) h₂ hrec₂ hused₂ hkill
  have hc : c = uuidB := by
    rcases List.mem_cons.mp hg₀ with rfl | hg₀
    · cases hc₀
      rfl
    · cases List.mem_singleton.mp hg₀
      cases hc₀
      rfl
  refine ⟨_, _, _, h₂, List.mem_cons_self, rfl, ?_, hkill, ?_⟩
  · show (w₂.db.get w₂.now uuidD).isSome = true
    rw [hnow₂, hdb₂, pairDb, refreshDb, Db.get_congr (Db.register_ne (by decide)),
      Db.get_put_ne (by decide), accessDb, Db.get_congr (Db.register_ne (by decide)),
      issueDb_jti (by decide) (by omega)]
    rfl
  · exact hall _ List.mem_cons_self (congrArg some hc.symm) (fun _ => ⟨true, false, none, none⟩) (fun _ => .livez) [] _
      (.nil _)

end Families

end JwtService

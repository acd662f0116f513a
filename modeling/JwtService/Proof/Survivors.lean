import JwtService.Proof.Sweeps

/-!
# What a bulk revocation leaves to the next one

Issues and bulk revocations of a subject, command by command and in any
interleaving. A revocation reads the index of the subject and later deletes
it, so a token that is added in between is in no index any more
(`SlipsThrough`), and the next revocation misses it. Every other token stays
in the index, as long as the index does not expire before it (`IndexLasts`):
the next revocation that succeeds has swept it (`second_revocation_catches`).
-/

namespace JwtService

open Interaction Redis

/-! ## Replies -/

section Replies

variable {ι : Type} [DecidableEq ι] {h : Events ι} {w w' : World} {s : JwkService} {i : ι}
  {t : JsonText} {a : Admission} {rq : Request}

/-- What a reply told holds: the clock has not passed a moment it was read
later, Redis can keep the expiries it took, and no index of a subject is a
member of a group. The key of a token has an expiry. -/
structure Answered (h : Events ι) (w : World) : Prop where
  clock : ∀ i (n : Nat), (⟨.utcNow, n⟩ : Call svc) ∈ callsOf i h → n ≤ w.now
  taken : ∀ i k v secs, (⟨.redis (.setEx k v secs), .ok ()⟩ : Call svc) ∈ callsOf i h →
    (1000 * secs : Int) ≤ maxTime
  told : ∀ i g (ms : List String), (⟨.redis (.zrange g), .ok ms⟩ : Call svc) ∈ callsOf i h →
    ∀ sub, subjectGroup sub ∉ ms
  lifetime : ∀ k e, Text.isUuid k = true → w.db k = some e →
    ∃ t, e.expireAt = some t ∧ (t : Int) ≤ maxTime

theorem answered_empty : Answered ([] : Events ι) World.empty := ⟨nofun, nofun, nofun, nofun⟩

/-- The members of a group are keys of credentials. -/
theorem Coherent.member (hc : Coherent h w) {g : String} {x : String × Int}
    (hx : x ∈ w.db.members w.now g) : ∃ c : Credential, x.1 = c.key ∧ Spent h w c := by
  cases he : w.db.get w.now g with
  | none =>
    rw [Db.members_of_none he] at hx
    cases hx
  | some e =>
    obtain ⟨v, t⟩ := e
    have hfit : Fits (Spent h w) g v := hc.shape.get he
    cases hfit with
    | subject hm =>
      rw [Db.members_of_get he] at hx
      exact ⟨.access x.1, rfl, hm x hx⟩
    | family hm =>
      rw [Db.members_of_get he] at hx
      exact hm x hx
    | _ =>
      rw [Db.members, he] at hx
      cases hx

/-- They are no indexes of subjects. -/
theorem Coherent.no_index (hc : Coherent h w) {g : String} {x : String × Int}
    (hx : x ∈ w.db.members w.now g) (sub : String) : x.1 ≠ subjectGroup sub := by
  obtain ⟨c, hk, hs⟩ := hc.member hx
  exact fun h => c.key_ne_subject hs.1 sub (hk.symm.trans h)

/-- A command that does not set the expiry of a key leaves the one it has. -/
theorem exec_lifetime {db : Db} {now : Nat} {c : Cmd} {k : String} {e : Entry}
    (hd : Disciplined (callsOf i h) (.redis c)) (hconf : Confined t a rq (callsOf i h) (.redis c))
    (hu : Text.isUuid k = true) (he : (Redis.exec now db c).2 k = some e) :
    (∃ e₀, db k = some e₀ ∧ e.expireAt = e₀.expireAt) ∨
      ∃ t, e.expireAt = some t ∧ (t : Int) ≤ maxTime := by
  by_cases hw : k ∈ c.writes
  · cases c with
    | setEx k' v secs =>
      cases List.mem_singleton.mp hw
      simp only [Redis.exec] at he
      split at he
      · exact .inl ⟨e, he, rfl⟩
      · rename_i db' hs
        replace he : db' k = some e := he
        rw [(setWithExpiry_eq_some hs).2, Db.put, Function.update_self] at he
        cases he
        exact .inr ⟨_, rfl, setWithExpiry_le hs⟩
    | setNxEx k' v secs =>
      obtain ⟨hash, rfl⟩ := hd
      cases List.mem_singleton.mp hw
      rw [not_uuid_totp] at hu
      cases hu
    | del ks =>
      have hk : k ∈ ks := hw
      have he' : db.delAll ks k = some e := he
      simp only [Db.delAll, if_pos hk] at he'
      cases he'
    | zadd g m score =>
      cases List.mem_singleton.mp hw
      rcases hd with ⟨s, hg, -⟩ | ⟨f, c, hg, -⟩
      · exact absurd hg.symm (subject_ne_uuid hu s)
      · exact absurd hg.symm (family_ne_uuid hu f)
    | zremRangeByScore g max =>
      cases List.mem_singleton.mp hw
      simp only [Redis.exec] at he
      split at he
      · exact .inl ⟨e, he, rfl⟩
      · rename_i ms t hg
        replace he : db.put k (if ms.filter (fun x => max < x.2) = [] then none else
          some ⟨.zset (ms.filter fun x => max < x.2), t⟩) k = some e := he
        rw [Db.put, Function.update_self] at he
        split at he
        · cases he
        · cases he
          exact .inl ⟨_, (Db.get_eq_some.mp hg).1, rfl⟩
      · exact .inl ⟨e, he, rfl⟩
    | expire k' secs =>
      obtain ⟨id, rfl⟩ := hd
      cases List.mem_singleton.mp hw
      exact absurd rfl (refresh_ne_uuid hu id)
    | expireAt k' ts =>
      cases List.mem_singleton.mp hw
      rcases hconf with ⟨s, hg⟩ | ⟨f, hg⟩
      · exact absurd hg.symm (subject_ne_uuid hu s)
      · exact absurd hg.symm (family_ne_uuid hu f)
    | hset k' fs =>
      obtain ⟨id, rfl, -⟩ := hd
      cases List.mem_singleton.mp hw
      exact absurd rfl (refresh_ne_uuid hu id)
    | hsetNx k' f v =>
      obtain ⟨id, fs, rfl, -⟩ := hd
      cases List.mem_singleton.mp hw
      exact absurd rfl (refresh_ne_uuid hu id)
    | _ => cases hw
  · rw [exec_of_not_writes hw] at he
    exact .inl ⟨e, he, rfl⟩

theorem Answered.step (ha : Answered h w) (hc : Coherent h w) {e : Eff} {r : e.Reply}
    (hd : Disciplined (callsOf i h) e) (hconf : Confined t a rq (callsOf i h) e)
    (hs : (service s).call w e r w') : Answered (h ++ [.call i ⟨e, r⟩]) w' := by
  have hnow := call_now hs
  refine ⟨fun j n hm => ?_, fun j k v secs hm => ?_, fun j g ms hm sub hmem => ?_, fun k e' hu he => ?_⟩
  · rcases mem_callsOf_snoc.mp hm with hm | ⟨-, he⟩
    · rw [hnow]
      exact ha.clock j n hm
    · cases he
      obtain ⟨ch, hs⟩ := hs
      cases ch with
      | plain =>
        cases hs
        exact Nat.le_refl _
      | _ => cases hs
  · rcases mem_callsOf_snoc.mp hm with hm | ⟨-, he⟩
    · exact ha.taken j k v secs hm
    · cases he
      rcases call_redis hs with ⟨-, x, hx⟩ | ⟨-, hx | ⟨x, hx⟩⟩
      · cases hx
      · simp only [Redis.exec] at hx
        split at hx
        · cases hx
        · rename_i db' hset
          have := setWithExpiry_le hset
          omega
      · cases hx
  · rcases mem_callsOf_snoc.mp hm with hm | ⟨-, he⟩
    · exact ha.told j g ms hm sub hmem
    · cases he
      obtain ⟨x, hx, hxm⟩ := members_told hs rfl hmem
      exact hc.no_index hx sub hxm
  · cases hq : e.quiet with
    | true =>
      rw [(call_quiet hq hs).1] at he
      exact ha.lifetime k e' hu he
    | false =>
      cases e with
      | newUuid =>
        obtain ⟨-, -, rfl⟩ := call_newUuid hs
        exact ha.lifetime k e' hu he
      | redis c =>
        rcases call_redis hs with ⟨rfl, -⟩ | ⟨rfl, -⟩
        · exact ha.lifetime k e' hu he
        · rcases exec_lifetime hd hconf hu he with ⟨e₀, h₀, ht⟩ | ht
          · rw [ht]
            exact ha.lifetime k e₀ hu h₀
          · exact ht
      | _ => cases hq

theorem Answered.env (ha : Answered h w) {d : Nat} : Answered (h ++ [.env d]) (w.tick d) := by
  have hcalls : ∀ j : ι, callsOf j (h ++ [.env d]) = callsOf j h := fun j => by
    rw [callsOf_append, callsOf_env, callsOf_nil, List.append_nil]
  refine ⟨fun j n hm => ?_, fun j k v secs hm => ?_, fun j g ms hm => ?_, ha.lifetime⟩
  · rw [hcalls] at hm
    exact Nat.le_trans (ha.clock j n hm) (Nat.le_add_right _ _)
  · rw [hcalls] at hm
    exact ha.taken j k v secs hm
  · rw [hcalls] at hm
    exact ha.told j g ms hm

end Replies

/-! ## Tokens in the index -/

/-- The member is added to the group between the moments at which a request
reads the group and deletes it. -/
def SlipsThrough {ι : Type} [DecidableEq ι] (g m : String) (tr : Events ι) : Prop :=
  ∃ (u v : Events ι) (i : ι) (score : Int) (r : Except Redis.Err Unit) (j : ι) (ms ks : List String)
    (q : Except Redis.Err Unit), tr = u ++ .call i ⟨.redis (.zadd g m score), r⟩ :: v ∧
      (⟨.redis (.zrange g), .ok ms⟩ : Call svc) ∈ callsOf j u ∧
      (⟨.redis (.del ks), q⟩ : Call svc) ∈ callsOf j v ∧ g ∈ ks

/-- The index of the subject does not expire while a token in it has not:
neither as time passes, nor by an expiry that is set in the past. -/
def IndexLasts {ι : Type} (sub : String) (_ : Events ι) (w : World) : Event svc ι Nat → Prop
  | .env d => ∀ x ∈ w.db.members w.now (subjectGroup sub), ((w.now + d : Nat) : Int) < 1000 * x.2 →
      x ∈ w.db.members (w.now + d) (subjectGroup sub)
  | .call _ c => ∀ ts, c.eff = .redis (.expireAt (subjectGroup sub) ts) →
      ∀ x ∈ w.db.members w.now (subjectGroup sub), (w.now : Int) < 1000 * x.2 → (w.now : Int) < 1000 * ts

section Group

variable {ι : Type} [DecidableEq ι] {h h₀ h' : Events ι} {w w' : World} {s : JwkService} {i : ι}
  {g : String} {x : String × Int}

/-- After the events `h` since the member was added: it is in the group, every
request that has read the group was told of it, and none has deleted its key. -/
structure InGroup (g : String) (x : String × Int) (h : Events ι) (w : World) : Prop where
  member : x ∈ w.db.members w.now g
  told : ∀ i (ms : List String), (⟨.redis (.zrange g), .ok ms⟩ : Call svc) ∈ callsOf i h → x.1 ∈ ms
  kept : ∀ i (ms : List String), (⟨.redis (.del ms), .ok ()⟩ : Call svc) ∈ callsOf i h → x.1 ∉ ms

/-- A request that has swept the group since the member was added has deleted
its key. -/
theorem InGroup.not_swept (hi : InGroup g x h' w)
    (hold : ∀ ms, (⟨.redis (.zrange g), .ok ms⟩ : Call svc) ∉ callsOf i h₀)
    (hs : Swept g (callsOf i (h₀ ++ h'))) : False := by
  obtain ⟨b, d, ms, he, hdel⟩ := hs
  rw [callsOf_append] at he
  -- The request was told the members after `h₀`.
  obtain ⟨c, hc⟩ : ∃ c, callsOf i h' = c ++ ⟨.redis (.zrange g), .ok ms⟩ :: d := by
    rcases List.append_eq_append_iff.mp he with ⟨c, -, hc⟩ | ⟨c, hc, hc'⟩
    · exact ⟨c, hc⟩
    · cases c with
      | nil => exact ⟨[], hc'.symm⟩
      | cons y c =>
        have hy := (List.cons_eq_cons.mp hc').1
        exact absurd (by rw [hc, ← hy]; simp) (hold ms)
  have hm : x.1 ∈ ms := hi.told i ms (by rw [hc]; simp)
  rcases hdel with rfl | hdel
  · cases hm
  · exact hi.kept i ms (by rw [hc]; exact List.mem_append_right _ (List.mem_cons_of_mem _ hdel)) hm

/-- A call that does not take the member out of the group, and does not delete
its key. -/
theorem InGroup.step (hi : InGroup g x h w) {e : Eff} {r : e.Reply}
    (hdrop : ∀ c, e = .redis c → ¬ c.Drops w.now g x)
    (hdel : ∀ ms, (⟨e, r⟩ : Call svc) = ⟨.redis (.del ms), .ok ()⟩ → x.1 ∉ ms)
    (hs : (service s).call w e r w') : InGroup g x (h ++ [.call i ⟨e, r⟩]) w' := by
  refine ⟨?_, fun p ms hm => ?_, fun p ms hm => ?_⟩
  · rw [call_now hs]
    cases hq : e.quiet with
    | true =>
      rw [(call_quiet hq hs).1]
      exact hi.member
    | false =>
      cases e with
      | newUuid =>
        obtain ⟨-, -, rfl⟩ := call_newUuid hs
        exact hi.member
      | redis c =>
        rcases call_redis hs with ⟨rfl, -⟩ | ⟨rfl, -⟩
        · exact hi.member
        · exact mem_members_of_not_drops hi.member (hdrop c rfl)
      | _ => cases hq
  · rcases mem_callsOf_snoc.mp hm with hm | ⟨-, he⟩
    · exact hi.told p ms hm
    · -- Who reads the group now is told of the member.
      cases he
      rcases call_redis hs with ⟨-, y, hy⟩ | ⟨-, hy | ⟨y, hy⟩⟩
      · cases hy
      · rw [exec_zrange (Db.isSet_of_mem hi.member)] at hy
        cases hy
        exact List.mem_map.mpr ⟨_, hi.member, rfl⟩
      · cases hy
  · rcases mem_callsOf_snoc.mp hm with hm | ⟨-, he⟩
    · exact hi.kept p ms hm
    · exact hdel ms he.symm

theorem InGroup.env (hi : InGroup g x h w) {d : Nat} (hlast : x ∈ w.db.members (w.now + d) g) :
    InGroup g x (h ++ [.env d]) (w.tick d) := by
  refine ⟨hlast, fun i ms hm => hi.told i ms ?_, fun i ms hm => hi.kept i ms ?_⟩
  all_goals rwa [callsOf_append, callsOf_env, callsOf_nil, List.append_nil] at hm

end Group

section Index

variable {ι : Type} [DecidableEq ι] {h h' : Events ι} {w w' : World} {s : JwkService} {i : ι}
  {rq : Request} {sub j : String} {exp : Nat}

/-- The key of the token is there, and the token is not over. -/
def LiveToken (w : World) (j : String) (exp : Nat) : Prop :=
  w.now / 1000 < exp ∧ (w.db.get w.now j).isSome = true

/-- After the events `h` since the token was added: it is in the index, every
request that has read the index was told of it, and none has deleted it. -/
structure InIndex (sub j : String) (exp : Nat) (h : Events ι) (w : World) : Prop where
  member : (j, (exp : Int)) ∈ w.db.members w.now (subjectGroup sub)
  told : ∀ i (ms : List String),
    (⟨.redis (.zrange (subjectGroup sub)), .ok ms⟩ : Call svc) ∈ callsOf i h → j ∈ ms
  kept : ∀ i (ms : List String), (⟨.redis (.del ms), .ok ()⟩ : Call svc) ∈ callsOf i h → j ∉ ms

/-- Who adds the token to the index again has added it before. -/
theorem not_added_again (hc : Coherent h w) {m : String} {score : Int} {k : ι}
    (hz : ∃ sc r, (⟨.redis (.zadd (subjectGroup sub) j sc), r⟩ : Call svc) ∈ callsOf k h)
    (hdrew : Drew j (callsOf k h)) (hd : Disciplined (callsOf i h) (.redis (.zadd (subjectGroup sub) m score)))
    (ht : Tidy rq (callsOf i h) (.redis (.zadd (subjectGroup sub) m score))) : m ≠ j := by
  rintro rfl
  rcases hd with ⟨s, -, hs⟩ | ⟨f, c, hg, -⟩
  · obtain ⟨sc, r, hz⟩ := hz
    rw [hc.owner k i m hdrew hs.1] at hz
    exact ht ⟨sub, rfl⟩ _ hz sub m sc rfl
  · exact subject_ne_family sub f hg

/-- The token was added to the index by `k`, and `h₀` is what happened until
then. -/
structure Watched (sub j : String) (exp : Nat) (k : ι) (h₀ h : Events ι) (w : World) : Prop where
  coherent : Coherent h w
  answered : Answered h w
  spent : Spent h w (.access j)
  drew : Drew j (callsOf k h)
  added : ∃ score r, (⟨.redis (.zadd (subjectGroup sub) j score), r⟩ : Call svc) ∈ callsOf k h
  since : ∃ h', h = h₀ ++ h' ∧ (LiveToken w j exp → InIndex sub j exp h' w)

/-- The event deletes the index only if its request had not read it before. -/
def SweptSince (sub : String) (h₀ : Events ι) (ev : Event svc ι Nat) : Prop :=
  ∀ i ks q, ev = .call i ⟨.redis (.del ks), q⟩ → subjectGroup sub ∈ ks →
    ∀ ms, (⟨.redis (.zrange (subjectGroup sub)), .ok ms⟩ : Call svc) ∉ callsOf i h₀

variable {h₀ : Events ι} {k : ι} {t : JsonText} {a : Admission}

theorem inIndex_iff : InIndex sub j exp h w ↔ InGroup (subjectGroup sub) (j, (exp : Int)) h w :=
  ⟨fun hi => ⟨hi.member, hi.told, hi.kept⟩, fun hi => ⟨hi.member, hi.told, hi.kept⟩⟩

/-- A request takes a live token out of the index only if it has swept the index
before the token was added. -/
theorem InIndex.not_drops (hi : InIndex sub j exp h' w) (hw : Watched sub j exp k h₀ (h₀ ++ h') w)
    (hexp : w.now / 1000 < exp) {c : Cmd} {q : Except Redis.Err c.Reply}
    (hd : Disciplined (callsOf i (h₀ ++ h')) (.redis c)) (ht : Tidy rq (callsOf i (h₀ ++ h')) (.redis c))
    (hrq : rq ≠ .revokeToken (subjectGroup sub))
    (hlast : IndexLasts sub (h₀ ++ h') w (.call i ⟨.redis c, q⟩))
    (hsince : SweptSince sub h₀ (.call i ⟨.redis c, q⟩)) :
    ¬ c.Drops w.now (subjectGroup sub) (j, (exp : Int)) := by
  intro hc
  cases c with
  | setEx g v secs =>
    cases hc
    exact subject_ne_uuid (hw.coherent.drawn i _ hd.1).1 sub rfl
  | setNxEx g v secs =>
    obtain ⟨hash, rfl⟩ := hd
    exact subject_ne_totp sub hash hc.symm
  | del ks =>
    have hg : subjectGroup sub ∈ ks := hc
    rcases ht _ hg with hr | hs | ⟨g, ms, hm, hmem⟩
    · exact hrq hr
    · exact (inIndex_iff.mp hi).not_swept (hsince i ks q rfl hg) hs
    · exact hw.answered.told i g ms hm sub hmem
  | zadd g m score =>
    obtain ⟨rfl, hm, -⟩ := hc
    exact not_added_again hw.coherent hw.added hw.drew hd ht hm
  | zremRangeByScore g max =>
    obtain ⟨-, hle⟩ := hc
    obtain ⟨now, hm, rfl⟩ := ht
    have hnow := hw.answered.clock i now hm
    have hle : (exp : Int) ≤ timestamp now := hle
    unfold timestamp at hle
    omega
  | expire g secs =>
    obtain ⟨id, rfl⟩ := hd
    exact subject_ne_refresh sub id hc.symm
  | expireAt g ts =>
    obtain ⟨rfl, hle⟩ := hc
    have hlt : (w.now : Int) < 1000 * ts :=
      hlast ts rfl _ hi.member (by show (w.now : Int) < 1000 * exp; omega)
    omega
  | hset g fs =>
    obtain ⟨id, rfl, -⟩ := hd
    exact subject_ne_refresh sub id hc.symm
  | hsetNx g f v =>
    obtain ⟨id, fs, rfl, -⟩ := hd
    exact subject_ne_refresh sub id hc.symm
  | _ => cases hc

/-- A token that is live after a call was live before. -/
theorem LiveToken.before (hc : Coherent h w) (hs : Spent h w (.access j)) {e : Eff} {r : e.Reply}
    (hd : Disciplined (callsOf i h) e) (hcall : (service s).call w e r w') (hl : LiveToken w' j exp) :
    LiveToken w j exp := by
  refine ⟨call_now hcall ▸ hl.1, ?_⟩
  cases hg : w.db.get w.now j with
  | some e => rfl
  | none =>
    have hgone : Gone w' (.access j) := Gone.step hc hs hd (show Gone w (.access j) from hg) hcall
    have hnone : w'.db.get w'.now j = none := hgone
    obtain ⟨-, hsome⟩ := hl
    rw [hnone] at hsome
    cases hsome

theorem Watched.step (hw : Watched sub j exp k h₀ h w) {e : Eff} {r : e.Reply}
    (hd : Disciplined (callsOf i h) e) (hconf : Confined t a rq (callsOf i h) e)
    (ht : Tidy rq (callsOf i h) e) (hrq : rq ≠ .revokeToken (subjectGroup sub))
    (hlast : IndexLasts sub h w (.call i ⟨e, r⟩)) (hsince : SweptSince sub h₀ (.call i ⟨e, r⟩))
    (hs : (service s).call w e r w') : Watched sub j exp k h₀ (h ++ [.call i ⟨e, r⟩]) w' := by
  have hmono : ∀ x, x ∈ callsOf k h → x ∈ callsOf k (h ++ [.call i ⟨e, r⟩]) :=
    fun x hx => mem_callsOf_snoc.mpr (.inl hx)
  obtain ⟨score, q, hz⟩ := hw.added
  obtain ⟨h', rfl, hi⟩ := hw.since
  refine ⟨hw.coherent.step hd hs, hw.answered.step hw.coherent hd hconf hs, hw.spent.step hs,
    hmono _ hw.drew, ⟨score, q, hmono _ hz⟩, h' ++ [.call i ⟨e, r⟩], List.append_assoc .., fun hl => ?_⟩
  have hl₀ := hl.before hw.coherent hw.spent hd hs
  have hi := hi hl₀
  refine inIndex_iff.mpr ((inIndex_iff.mp hi).step ?_ (fun ms he hj => ?_) hs)
  · rintro c rfl
    exact hi.not_drops hw hl₀.1 hd ht hrq hlast hsince
  · cases he
    rcases call_redis hs with ⟨-, x, hx⟩ | ⟨rfl, -⟩
    · cases hx
    · obtain ⟨-, hsome⟩ := hl
      have hdel : (w.db.delAll ms).get w.now j = none := by rw [Db.get_delAll, if_pos hj]
      have hsome' : ((w.db.delAll ms).get w.now j).isSome = true := hsome
      rw [hdel] at hsome'
      cases hsome'

theorem Watched.env (hw : Watched sub j exp k h₀ h w) {d : Nat} (hlast : IndexLasts sub h w (.env d)) :
    Watched sub j exp k h₀ (h ++ [.env d]) (w.tick d) := by
  have hcalls : ∀ (g : Events ι) (i : ι), callsOf i (g ++ [.env d]) = callsOf i g := fun g i => by
    rw [callsOf_append, callsOf_env, callsOf_nil, List.append_nil]
  obtain ⟨h', rfl, hi⟩ := hw.since
  refine ⟨hw.coherent.env, hw.answered.env, hw.spent.env, by rw [hcalls]; exact hw.drew,
    by rw [hcalls]; exact hw.added, h' ++ [.env d], List.append_assoc .., fun hl => ?_⟩
  obtain ⟨hexp, hsome⟩ : (w.now + d) / 1000 < exp ∧ (w.db.get (w.now + d) j).isSome = true := hl
  obtain ⟨e, he⟩ := Option.isSome_iff_exists.mp hsome
  have hi := hi ⟨by omega, by rw [Db.get_of_later (Nat.le_add_right _ _) he]; rfl⟩
  exact inIndex_iff.mpr ((inIndex_iff.mp hi).env
    (hlast _ hi.member (by show ((w.now + d : Nat) : Int) < 1000 * exp; omega)))

end Index

/-! ## Runs -/

section Runs

variable {ι : Type} [DecidableEq ι] {env : Env} {libs : Libs} {adm : ι → Admission}
  {req : ι → Request} {s : JwkService}

/-- What every request keeps to. -/
def Keeps (libs : Libs) (adm : ι → Admission) (req : ι → Request) (i : ι) (h : Calls) (e : Eff) : Prop :=
  Disciplined h e ∧ Confined libs.json (adm i) (req i) h e ∧ Tidy (req i) h e

omit [DecidableEq ι] in
theorem serve_keeps (ht : libs.json.Faithful) (i : ι) : Prog.wp (Keeps libs adm req i) []
    (serve env libs (redisClient libs.json) (adm i) (req i)) fun _ _ => True :=
  Prog.wp_mono (fun _ _ h => h) (fun _ _ _ => trivial) (Prog.wp_and
    (serve_disciplined env libs ht (adm i) (req i))
    (Prog.wp_and (serve_confined (adm i) (req i)) (serve_tidy ht (adm i) (req i))))

theorem keeps_after (ht : libs.json.Faithful) {tr : Events ι} {P : Pool svc World ι HttpResponse}
    (hr : (service s).Run (start env libs adm req) tr P) (i : ι) :
    Prog.wp (Keeps libs adm req i) (callsOf i tr) (P.prog i) fun _ _ => True :=
  ((hr.path i).wp (serve_keeps ht i)).1

theorem answered_run (ht : libs.json.Faithful) {tr : Events ι} {P : Pool svc World ι HttpResponse}
    (hr : (service s).Run (start env libs adm req) tr P) : Coherent tr P.st ∧ Answered tr P.st := by
  show Coherent ([] ++ tr) P.st ∧ Answered ([] ++ tr) P.st
  refine hr.inv (I := fun h w => Coherent h w ∧ Answered h w)
    (fun h w i e r w' hI hk hs => ⟨hI.1.step hk.1 hs, hI.2.step hI.1 hk.1 hk.2.1 hs⟩)
    (fun h w l w' hI hs => ?_) (serve_keeps ht) ⟨coherent_empty, answered_empty⟩
  cases hs
  exact ⟨hI.1.env, hI.2.env⟩

/-- A token that is not live stays so. -/
theorem not_live_after (ht : libs.json.Faithful) {t₁ t₂ : Events ι}
    {P₁ P₂ : Pool svc World ι HttpResponse} (h₁ : (service s).Run (start env libs adm req) t₁ P₁)
    {j : String} {exp : Nat} (hs : Spent t₁ P₁.st (.access j)) (hl : ¬ LiveToken P₁.st j exp)
    (h₂ : (service s).Run P₁ t₂ P₂) : ¬ LiveToken P₂.st j exp := by
  refine (h₂.inv (I := fun h w => Coherent h w ∧ Spent h w (.access j) ∧ ¬ LiveToken w j exp)
    (fun h w i e r w' hI hk hs => ?_) (fun h w l w' hI hs => ?_) (keeps_after ht h₁)
    ⟨(answered_run ht h₁).1, hs, hl⟩).2.2
  · exact ⟨hI.1.step hk.1 hs, hI.2.1.step hs, fun hl => hI.2.2 (hl.before hI.1 hI.2.1 hk.1 hs)⟩
  · cases hs
    refine ⟨hI.1.env, hI.2.1.env, fun hl => hI.2.2 ?_⟩
    obtain ⟨hexp, hsome⟩ : (w.now + l) / 1000 < exp ∧ (w.db.get (w.now + l) j).isSome = true := hl
    obtain ⟨e, he⟩ := Option.isSome_iff_exists.mp hsome
    exact ⟨by omega, by rw [Db.get_of_later (Nat.le_add_right _ _) he]; rfl⟩

/-- A token that is not live does not pass verification. -/
theorem not_live_not_verified {w w' : World} {h : Events ι} (ha : Answered h w) {c : TokenClaims}
    (hu : Text.isUuid c.jti = true) (hl : ¬ LiveToken w c.jti c.exp) {t : JsonText}
    {issuer audience : String} {b : Bool} {S : Prog.Sem svc World} [Orderly S]
    (hb : Alone S (c.isVerify (redisClient t) issuer audience) w b w') : b = false := by
  obtain ⟨rfl, -⟩ := (alone_isVerify b w').mp hb
  cases hget : w.db.get w.now c.jti with
  | none => rw [Option.isSome_none, Bool.and_false]
  | some e =>
    -- The key is there, so the token is over, and the clock has not run out.
    have hle : c.exp ≤ w.now / 1000 := by
      by_contra hlt
      exact hl ⟨by omega, by rw [hget]; rfl⟩
    obtain ⟨hdb, hlive⟩ := Db.get_eq_some.mp hget
    obtain ⟨t, ht, hmax⟩ := ha.lifetime _ e hu hdb
    rw [Entry.liveAt, ht] at hlive
    have hlt := of_decide_eq_true hlive
    have hm : maxTime = 9223372036854775807 := rfl
    have hv : ¬ c.Valid issuer audience w.now := by
      rintro ⟨-, -, -, -, hv⟩
      rw [asUsize_timestamp (by unfold timestamp; omega)] at hv
      have hv : w.now / 1000 < c.exp := hv
      omega
    rw [decide_eq_false hv, Bool.false_and]

/-- The expiry in the index is that of the token, and fits the clock. -/
theorem Indexes.exp_eq {c : TokenClaims} {i : ι} {h : Events ι} {w : World} (ha : Answered h w)
    (hi : Indexes c (callsOf i h)) : c.exp < 2 ^ 63 ∧
      (⟨.redis (.zadd (subjectGroup c.sub) c.jti c.exp), .ok ()⟩ : Call svc) ∈ callsOf i h := by
  obtain ⟨now, secs, score, v, hc, he, hset, hz⟩ := hi
  have htaken := ha.taken i _ v secs hset
  have hm : maxTime = 9223372036854775807 := rfl
  rw [asI64_of_lt (by omega)] at hc
  simp only [chronoAdd, Option.ite_none_right_eq_some, Option.some.injEq] at hc
  obtain ⟨⟨-, -, hb⟩, rfl⟩ := hc
  have hexp : (c.exp : Int) = (now / 1000 : Nat) + (secs : Nat) := by
    rw [he]
    unfold asUsize
    omega
  refine ⟨by omega, ?_⟩
  rw [hexp]
  exact hz

/-- A token is handed out, and later a bulk revocation of its subject starts
and succeeds. If the token did not slip through another revocation, and the
index did not expire before a token in it, the token does not pass
verification any more. Nobody deletes the index under its own name. -/
theorem second_revocation_catches (ht : libs.json.Faithful) {t₁ t₂ t₃ : Events ι}
    {P₁ P₂ P₃ : Pool svc World ι HttpResponse} {i d : ι} {status : Nat} {token : String}
    {refresh : Option String} {c : TokenClaims} {body : Body}
    (hnamed : ∀ k, req k ≠ .revokeToken (subjectGroup c.sub))
    (h₁ : (service s).RunWhere (IndexLasts c.sub) [] (start env libs adm req) t₁ P₁)
    (hout : P₁.prog i = .ret ⟨status, .token token refresh⟩)
    (hc : JwtManager.claimsSegmentOf libs token = .ok c)
    (hd : req d = .revokeSubjectTokens c.sub) (hnew : callsOf d t₁ = [])
    (h₂ : (service s).RunWhere (IndexLasts c.sub) t₁ P₁ t₂ P₂) (hans : P₂.prog d = .ret ⟨200, body⟩)
    (hslip : ¬ SlipsThrough (subjectGroup c.sub) c.jti (t₁ ++ t₂))
    (h₃ : (service s).Run P₂ t₃ P₃) {issuer audience : String} {b : Bool} {w' : World}
    (hb : Alone (faultless s).call (c.isVerify (redisClient libs.json) issuer audience) P₃.st b w') :
    b = false := by
  have hrun₁ := h₁.run
  -- The token was added to the index of its subject.
  have hadded : (⟨.redis (.zadd (subjectGroup c.sub) c.jti c.exp), .ok ()⟩ : Call svc) ∈
      callsOf i t₁ := by
    have hpath := hrun₁.path i
    rw [hout] at hpath
    obtain ⟨c₁, hc₁, hsub⟩ := hpath.wp_ret (handed_out_subject ht (adm i) (req i)) _ _ rfl
    obtain ⟨c₂, hc₂, hidx⟩ := (hpath.wp_ret (serve_tidy ht (adm i) (req i))).2 (by rw [hsub]; rfl) _ _ rfl
    rw [hc] at hc₁ hc₂
    cases hc₁
    cases hc₂
    exact (hidx.exp_eq (answered_run ht hrun₁).2).2
  obtain ⟨xs, ys, hsplit⟩ := List.append_of_mem hadded
  obtain ⟨u, v, rfl, -, -⟩ := callsOf_split hsplit
  obtain ⟨Q, Q', hu, hstep, -, hv⟩ := h₁.split_at
  rw [List.nil_append] at hv
  have hrunQ := hu.run
  obtain ⟨hco, hanswered⟩ := answered_run ht hrunQ
  have hrunQ' := hrunQ.trans (.cons hstep (.nil _))
  obtain ⟨hco', hanswered'⟩ := answered_run ht hrunQ'
  have hwatched : Watched c.sub c.jti c.exp i
      (u ++ [.call i ⟨.redis (.zadd (subjectGroup c.sub) c.jti c.exp), .ok ()⟩])
      (u ++ [.call i ⟨.redis (.zadd (subjectGroup c.sub) c.jti c.exp), .ok ()⟩]) Q'.st := by
    have hz : (⟨.redis (.zadd (subjectGroup c.sub) c.jti c.exp), .ok ()⟩ : Call svc) ∈
        callsOf i (u ++ [.call i ⟨.redis (.zadd (subjectGroup c.sub) c.jti c.exp), .ok ()⟩]) :=
      mem_callsOf_snoc.mpr (.inr ⟨rfl, rfl⟩)
    cases hstep with
    | @call _ _ _ _ _ hp hcall =>
      have hk := keeps_after ht hrunQ i
      rw [hp] at hk
      obtain ⟨hdis, -, -⟩ := hk.1
      have hst : Stored (.access c.jti) (callsOf i u) := by
        rcases hdis with ⟨_, -, hst⟩ | ⟨f, _, hg, -⟩
        · exact hst
        · exact absurd hg (subject_ne_family _ f)
      refine ⟨hco', hanswered', (hco.spent_of_stored hst).step hcall,
        mem_callsOf_snoc.mpr (.inl hst.1), ⟨_, _, hz⟩, [], (List.append_nil _).symm, fun _ => ?_⟩
      refine ⟨?_, nofun, nofun⟩
      rcases call_redis hcall with ⟨-, e, he⟩ | ⟨rfl, he | ⟨e, he⟩⟩
      · cases he
      · exact mem_members_zadd he.symm
      · cases he
  -- No request deletes the index that has read it before the token was added.
  have hsince : ∀ ev ∈ v ++ t₂, SweptSince c.sub
      (u ++ [.call i ⟨.redis (.zadd (subjectGroup c.sub) c.jti c.exp), .ok ()⟩]) ev := by
    rintro ev hev p ks q rfl hks ms hm
    rcases mem_callsOf_snoc.mp hm with hm | ⟨-, he⟩
    · refine hslip ⟨u, v ++ t₂, i, c.exp, .ok (), p, ms, ks, q, ?_, hm, ?_, hks⟩
      · rw [List.append_assoc]
        rfl
      · obtain ⟨v₁, v₂, he⟩ := List.append_of_mem hev
        rw [he, callsOf_append, callsOf_call_self]
        exact List.mem_append_right _ List.mem_cons_self
    · cases he
  rw [List.append_cons, List.append_assoc _ _ v] at h₂
  have hrest := (hv.trans (List.append_assoc .. ▸ h₂)).also hsince
  have hend := hrest.inv (I := Watched c.sub c.jti c.exp i _)
    (fun h w p e r w' hI hk hg hs => hI.step hk.1 hk.2.1 hk.2.2 (hnamed p) hg.1 hg.2 hs)
    (fun h w l w' hI hg hs => by cases hs; exact hI.env hg.1) (keeps_after ht hrunQ') hwatched
  have hrun₂ := hrun₁.trans h₂.run
  -- The last revocation has swept the index since.
  have hnot : ¬ LiveToken P₂.st c.jti c.exp := by
    intro hl
    obtain ⟨h', he, hi⟩ := hend.since
    have hswept : Swept (subjectGroup c.sub) (callsOf d
        ((u ++ .call i ⟨.redis (.zadd (subjectGroup c.sub) c.jti c.exp), .ok ()⟩ :: v) ++ t₂)) := by
      have hpath := hrun₂.path d
      rw [hans] at hpath
      exact (hpath.wp_ret (serve_tidy ht (adm d) (req d))).1 c.sub hd rfl
    rw [List.append_cons, List.append_assoc _ v] at hswept
    have he := List.append_cancel_left he
    rw [he] at hswept
    refine (inIndex_iff.mp (hi hl)).not_swept (fun ms hm => ?_) hswept
    -- It had made no call yet when the token was added.
    rw [List.append_cons, callsOf_append, List.append_eq_nil_iff] at hnew
    rw [hnew.1] at hm
    cases hm
  have hspent := hend.spent
  rw [← List.append_assoc, ← List.append_cons] at hspent
  exact not_live_not_verified (answered_run ht (hrun₂.trans h₃)).2 hspent.1
    (not_live_after ht hrun₂ hspent hnot h₃) hb

end Runs

/-! ## Two runs -/

/-- An issue for a user, and two revocations of the user. -/
inductive Caller where
  | issuer
  | first
  | last
deriving DecidableEq

def issueAndRevokeTwice : Caller → Request
  | .issuer => .createToken (.text "host") ⟨"user", ["api"], some 60, false, []⟩
  | .first | .last => .revokeSubjectTokens "user"

/-- No expiry that is set lies before the start of the clock. -/
def SetsLater : Eff → Prop
  | .redis (.expireAt _ ts) => 0 < ts
  | _ => True

theorem setsLater_quiet {e : Eff} (he : e.quiet = true) : SetsLater e := by
  cases e <;> trivial

/-- An issue with a positive lifetime. -/
theorem setsLater_createToken {env : Env} {libs : Libs} {host : HostHeader} {req : TokenRequest}
    {n : Nat} (hr : req.refresh = false) (ht : req.ttl = some n) (h₀ : 0 < n) (hn : n < 2 ^ 63) :
    @Prog.Only svc _ SetsLater (handle env libs (redisClient libs.json) (.createToken host req)) := by
  refine only_createToken (fun _ he _ => setsLater_quiet he) fun issuer => only_issue hr ?_
  apply only_generateToken (fun _ he _ => setsLater_quiet he)
  apply only_createNew (fun _ he _ => setsLater_quiet he) trivial (fun _ _ => trivial) (fun _ _ => trivial)
    _ fun _ => trivial
  intro now seconds exp hs hc
  rw [ht, TokenClaims.expirationSeconds] at hs
  split at hs
  · cases hs
  · cases hs
    obtain ⟨rfl, -⟩ := chronoAdd_eq_some hc
    show (0 : Int) < _
    rw [asI64_of_lt hn]
    omega

theorem setsLater_revokeSubject {env : Env} {libs : Libs} {sub : String} :
    @Prog.Only svc _ SetsLater (handle env libs (redisClient libs.json) (.revokeSubjectTokens sub)) :=
  only_revokeSubject trivial trivial (fun _ => trivial) trivial fun _ => trivial

/-- An issue deletes nothing. -/
theorem createToken_no_del {env : Env} {libs : Libs} {host : HostHeader} {req : TokenRequest}
    (hr : req.refresh = false) : @Prog.Only svc _ (fun e => ∀ ks, e ≠ Eff.redis (.del ks))
      (handle env libs (redisClient libs.json) (.createToken host req)) := by
  have hq : ∀ e : Eff, e.quiet = true → e.isLookup = false → ∀ ks, e ≠ .redis (.del ks) := fun e he _ ks h => by
    rw [h] at he
    cases he
  refine only_createToken hq fun issuer => only_issue hr ?_
  apply only_generateToken hq
  exact only_createNew hq nofun nofun nofun nofun nofun

/-- A revocation adds nothing. -/
theorem revokeSubject_no_zadd {env : Env} {libs : Libs} {sub : String} :
    @Prog.Only svc _ (fun e => ∀ g m score, e ≠ Eff.redis (.zadd g m score))
      (handle env libs (redisClient libs.json) (.revokeSubjectTokens sub)) := by
  apply only_revokeSubject
  all_goals exact nofun

/-- A call at the start of the clock that sets no expiry before it keeps the
index. -/
theorem indexLasts_of_setsLater {s : JwkService} {sub : String} {ι : Type} {i : ι} {h : Events ι}
    {w : World} {e : Eff} {r : e.Reply} {w' : World} (hw : w.now = 0) (he : SetsLater e)
    (hs : (service s).call w e r w') : IndexLasts sub h w (.call i ⟨e, r⟩) ∧ w'.now = 0 := by
  refine ⟨?_, (call_now hs).trans hw⟩
  rintro ts rfl x - -
  replace he : 0 < ts := he
  omega

theorem second_revocation_catches_user : ∃ (t₁ t₂ : Events Caller)
    (P₁ P₂ : Pool svc World Caller HttpResponse) (token : String) (c : TokenClaims),
      (service ⟨300000, 10000, 10000⟩).RunWhere (IndexLasts "user") []
        (start bareEnv echoLibs (fun _ => admitted) issueAndRevokeTwice) t₁ P₁ ∧
      P₁.prog .issuer = .ret ⟨200, .token token none⟩ ∧ (P₁.st.db.get P₁.st.now c.jti).isSome = true ∧
      (service ⟨300000, 10000, 10000⟩).RunWhere (IndexLasts "user") t₁ P₁ t₂ P₂ ∧
      P₂.prog .last = .ret ⟨200, .revoked 1⟩ ∧
      ∀ b w', Alone (faultless ⟨300000, 10000, 10000⟩).call
        (c.isVerify (redisClient echoLibs.json) "host" "api") P₂.st b w' → b = false := by
  let s : JwkService := ⟨300000, 10000, 10000⟩
  let P := start bareEnv echoLibs (fun _ => admitted) issueAndRevokeTwice
  obtain ⟨access, x, hc, hissue⟩ := @echo_createToken s World.empty sound_empty "user" 60 uuidA
    ⟨by decide, by exact nofun⟩ (by decide) (by decide) (by decide)
  obtain ⟨t₁, h₁, ha₁⟩ := System.RunWhere.of_eval (S := service s) (i := Caller.issuer) (P := P)
    (E := SetsLater) (I := fun w => w.now = 0) (fun _ _ _ _ _ => indexLasts_of_setsLater)
    (setsLater_createToken rfl rfl (show 0 < 60 by decide) (by decide)) rfl
    (Prog.Eval.mono faultless_service hissue) []
  let w₁ := ({ World.empty with keyId := echoKey.id }.draw uuidA).setDb
    (issueDb World.empty.db World.empty.now "user" uuidA 60)
  let P₁ : Pool svc World Caller HttpResponse :=
    ⟨w₁, Function.update P.prog .issuer (.ret ⟨200, .token access none⟩)⟩
  have hsound := (answered_run echo_faithful h₁.run).1.sound
  have hrevoke := (@alone_revokeSubjectTokens (faultless s).call _ w₁ _ echoLibs _ hsound "user").mpr
    ⟨rfl, rfl⟩
  rw [show (w₁.db.listed w₁.now (subjectGroup "user") (timestamp w₁.now)).length = 1 by decide] at hrevoke
  obtain ⟨t₂, h₂, ha₂⟩ := System.RunWhere.of_eval (S := service s) (i := Caller.last) (P := P₁)
    (E := SetsLater) (I := fun w => w.now = 0) (fun _ _ _ _ _ => indexLasts_of_setsLater)
    (@setsLater_revokeSubject bareEnv echoLibs "user") rfl (Prog.Eval.mono faultless_service hrevoke) t₁
  refine ⟨t₁, t₂, P₁, _, access, newClaims "host" "user" ["api"] 0 60 uuidA x, h₁, rfl,
    show (w₁.db.get w₁.now uuidA).isSome = true by decide, h₂, rfl, fun b w' hb => ?_⟩
  refine second_revocation_catches (i := .issuer) (d := .last) echo_faithful (fun k => ?_) h₁ rfl hc rfl
    (System.callsOf_of_alone (show Caller.issuer ≠ .last by decide) ha₁) h₂ rfl ?_ (.nil _) hb
  · cases k <;> exact nofun
  · -- The issue deletes nothing, and the revocation adds nothing.
    rintro ⟨u, v, k, score, r, j, ms, ks, q, he, hread, hdel, -⟩
    have hdeleted : Event.call j (⟨.redis (.del ks), q⟩ : Call svc) ∈ t₁ ++ t₂ := by
      rw [he]
      exact List.mem_append_right _ (List.mem_cons_of_mem _ (mem_callsOf.mp hdel))
    have hfirst : j ≠ .issuer := by
      rintro rfl
      rcases List.mem_append.mp hdeleted with hm | hm
      · have hpath := (createToken_no_del rfl).path (h₁.run.path .issuer)
        exact hpath _ (mem_callsOf.mpr hm) ks rfl
      · obtain ⟨_, h⟩ := ha₂ _ hm
        cases h
    rcases List.append_eq_append_iff.mp he with ⟨x, rfl, h⟩ | ⟨x, rfl, h⟩
    · have hz : Event.call k (⟨.redis (.zadd (subjectGroup "user") uuidA score), r⟩ : Call svc) ∈ t₂ := by
        rw [h]
        exact List.mem_append_right _ List.mem_cons_self
      obtain ⟨_, h⟩ := ha₂ _ hz
      cases h
      have hpath := (@revokeSubject_no_zadd bareEnv echoLibs "user").path (h₂.run.path .last)
      exact hpath _ (mem_callsOf.mpr hz) _ _ _ rfl
    · obtain ⟨_, h⟩ := ha₁ _ (List.mem_append_left _ (mem_callsOf.mp hread))
      cases h
      exact hfirst rfl

/-- The first revocation reads the index, the token is issued, and the first
revocation deletes the index: the last one, with nobody else at work, finds no
token, and the token passes verification. -/
theorem survivor_of_two_revocations : ∃ (t₁ t₂ t₃ t₄ : Events Caller)
    (P₁ P₂ P₃ P₄ : Pool svc World Caller HttpResponse) (token : String) (c : TokenClaims) (w' : World),
      (faultless ⟨300000, 10000, 10000⟩).Run
        (start bareEnv echoLibs (fun _ => admitted) issueAndRevokeTwice) t₁ P₁ ∧
      (faultless ⟨300000, 10000, 10000⟩).Run P₁ t₂ P₂ ∧
      P₂.prog .issuer = .ret ⟨200, .token token none⟩ ∧
      JwtManager.claimsSegmentOf echoLibs token = .ok c ∧ c.sub = "user" ∧
      (faultless ⟨300000, 10000, 10000⟩).Run P₂ t₃ P₃ ∧ P₃.prog .first = .ret ⟨200, .revoked 0⟩ ∧
      callsOf .last (t₁ ++ t₂ ++ t₃) = [] ∧
      (faultless ⟨300000, 10000, 10000⟩).Run P₃ t₄ P₄ ∧ P₄.prog .last = .ret ⟨200, .revoked 0⟩ ∧
      Alone (faultless ⟨300000, 10000, 10000⟩).call
        (c.isVerify (redisClient echoLibs.json) "host" "api") P₄.st true w' := by
  let s : JwkService := ⟨300000, 10000, 10000⟩
  let P := start bareEnv echoLibs (fun _ => admitted) issueAndRevokeTwice
  -- The first revocation up to its reading of the index.
  obtain ⟨t₁, P₁, k, hplay, hst, hissuer, hfirst, hk, hlast, hcalls⟩ : ∃ t P' k,
      System.play (fun w e c => if c.faultless = true then World.act s w e c else none)
        (fun w d => some (w.tick d)) (fun _ _ => true) [.call .first .plain,
          .call .first (.redis .answered), .call .first (.redis .answered)] P = some (t, P') ∧
      P'.st = World.empty ∧ P'.prog .issuer = P.prog .issuer ∧
      P'.prog .first = .call (.redis (.del [subjectGroup "user"])) k ∧
      k (.ok ()) = .ret ⟨200, .revoked 0⟩ ∧ P'.prog .last = P.prog .last ∧ callsOf .last t = [] :=
    ⟨_, _, _, rfl, rfl, rfl, rfl, rfl, rfl, rfl⟩
  have h₁ : (faultless s).RunWhere (fun _ _ _ => True) [] P t₁ P₁ := by
    refine System.play_run (fun w e c r w' h => ?_) (fun _ _ _ h => (Option.some.inj h).symm)
      (fun _ _ _ _ => trivial) hplay
    rw [Option.ite_none_right_eq_some] at h
    exact ⟨c, h⟩
  -- The issue.
  obtain ⟨access, x, hc, hissue⟩ := @echo_createToken s World.empty sound_empty "user" 60 uuidA
    ⟨by decide, by exact nofun⟩ (by decide) (by decide) (by decide)
  let w₁ := ({ World.empty with keyId := echoKey.id }.draw uuidA).setDb
    (issueDb World.empty.db World.empty.now "user" uuidA 60)
  have hsound : w₁.Sound := (sound_empty.alone (serve_disciplined bareEnv echoLibs echo_faithful admitted
    (issueAndRevokeTwice .issuer)) hissue).1
  obtain ⟨t₂, h₂, ha₂⟩ := System.Run.of_eval (S := faultless s) (i := Caller.issuer) (P := P₁)
    (by rw [hissuer, hst]; exact hissue)
  -- The first revocation deletes the index.
  let w₂ := w₁.setDb (w₁.db.delAll [subjectGroup "user"])
  let P₂ : Pool svc World Caller HttpResponse :=
    ⟨w₁, Function.update P₁.prog .issuer (.ret ⟨200, .token access none⟩)⟩
  have hdel : (faultless s).Step P₂ (.call .first ⟨.redis (.del [subjectGroup "user"]), .ok ()⟩)
      ⟨w₂, Function.update P₂.prog .first (k (.ok ()))⟩ := .call hfirst ⟨.redis .answered, rfl, rfl⟩
  -- The last revocation finds nothing.
  have hrevoke := (@alone_revokeSubjectTokens (faultless s).call _ w₂ _ echoLibs _
    (show w₂.Sound from hsound.delAll _) "user").mpr ⟨rfl, rfl⟩
  rw [show (w₂.db.listed w₂.now (subjectGroup "user") (timestamp w₂.now)).length = 0 by decide] at hrevoke
  obtain ⟨t₄, h₄, -⟩ := System.Run.of_eval (S := faultless s) (i := Caller.last)
    (P := ⟨w₂, Function.update P₂.prog .first (k (.ok ()))⟩)
    (by
      show Prog.Eval (faultless s).call (P₁.prog .last) w₂ _ _
      rw [hlast]
      exact hrevoke)
  refine ⟨t₁, t₂, _, t₄, P₁, P₂, _, _, access, newClaims "host" "user" ["api"] 0 60 uuidA x, _, h₁.run, h₂,
    rfl, hc, rfl, .cons hdel (.nil _), hk, ?_, h₄, rfl, alone_isVerify _ _ |>.mpr ⟨?_, rfl⟩⟩
  · rw [callsOf_append, callsOf_append, hcalls,
      System.callsOf_of_alone (show Caller.issuer ≠ .last by decide) ha₂]
    rfl
  · have hvalid : (newClaims "host" "user" ["api"] 0 60 uuidA x).Valid "host" "api" 0 :=
      newClaims_valid List.mem_cons_self (Nat.le_refl 0) (by decide) (by decide)
    show true = (decide ((newClaims "host" "user" ["api"] 0 60 uuidA x).Valid "host" "api" 0) && true)
    rw [decide_eq_true hvalid]
    rfl

end JwtService

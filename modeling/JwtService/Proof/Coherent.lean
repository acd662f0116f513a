import JwtService.Proof.Discipline

/-!
# What the store holds in every reachable state

`Coherent h w` is the invariant of the whole service: after the events `h`,
each key of the store has the type of its namespace, a group lists only
credentials, and a credential in the store is `Spent`: whoever drew its UUID
has stored it already and stores nothing again. It holds in every state that
any requests reach in any interleaving, with Redis failing in any way
(`Running.run`), because each request is disciplined.

From it follow the two facts the claims about revocation rest on: a command
never brings back the key of a spent access token (`not_created`), and of a spent refresh token only a
mark without its record (`created_refresh`); so a credential that is gone
stays gone (`Running.gone`).
-/

namespace JwtService

open Interaction Redis

/-! ## The shape of the store -/

/-- What a key may hold, where `S` says which credentials may be there. -/
inductive Fits (S : Credential → Prop) : String → Value → Prop
  | access {jti v : String} (hu : Text.isUuid jti = true) (hs : S (.access jti)) :
      Fits S jti (.str v)
  | reservation (hash v : String) : Fits S (totpCodeKey hash) (.str v)
  | subject {s : String} {ms : List (String × Int)} (hm : ∀ m ∈ ms, S (.access m.1)) :
      Fits S (subjectGroup s) (.zset ms)
  | family {f : String} {ms : List (String × Int)} (hm : ∀ m ∈ ms, ∃ c, m.1 = c.key ∧ S c) :
      Fits S (familyGroup f) (.zset ms)
  | refresh {id : String} {fs : List (String × String)} (hs : S (.refresh id)) :
      Fits S (refreshKey id) (.hash fs)

namespace Fits

variable {S T : Credential → Prop} {k : String} {v : Value}

theorem mono (h : ∀ c, S c → T c) (hf : Fits S k v) : Fits T k v := by
  cases hf with
  | access hu hs => exact .access hu (h _ hs)
  | reservation hash v => exact .reservation hash v
  | subject hm => exact .subject fun m hx => h _ (hm m hx)
  | family hm =>
    refine .family fun m hx => ?_
    obtain ⟨c, hc, hs⟩ := hm m hx
    exact ⟨c, hc, h _ hs⟩
  | refresh hs => exact .refresh (h _ hs)

theorem subject_inv {s : String} (h : Fits S (subjectGroup s) v) :
    ∃ ms, v = .zset ms ∧ ∀ m ∈ ms, S (.access m.1) := by
  generalize hk : subjectGroup s = k at h
  cases h with
  | access hu hs => rw [← hk, not_uuid_subject] at hu; cases hu
  | reservation hash v => exact absurd hk (subject_ne_totp s hash)
  | subject hm => exact ⟨_, rfl, hm⟩
  | family hm => exact absurd hk (subject_ne_family s _)
  | refresh hs => exact absurd hk (subject_ne_refresh s _)

theorem family_inv {f : String} (h : Fits S (familyGroup f) v) :
    ∃ ms, v = .zset ms ∧ ∀ m ∈ ms, ∃ c, m.1 = c.key ∧ S c := by
  generalize hk : familyGroup f = k at h
  cases h with
  | access hu hs => rw [← hk, not_uuid_family] at hu; cases hu
  | reservation hash v => exact absurd hk (family_ne_totp f hash)
  | subject hm => exact absurd hk.symm (subject_ne_family _ f)
  | family hm => exact ⟨_, rfl, hm⟩
  | refresh hs => exact absurd hk (family_ne_refresh f _)

theorem refresh_inv {id : String} (h : Fits S (refreshKey id) v) :
    ∃ fs, v = .hash fs ∧ S (.refresh id) := by
  generalize hk : refreshKey id = k at h
  cases h with
  | access hu hs => rw [← hk, not_uuid_refresh] at hu; cases hu
  | reservation hash v => exact absurd hk (refresh_ne_totp id hash)
  | subject hm => exact absurd hk.symm (subject_ne_refresh _ id)
  | family hm => exact absurd hk.symm (family_ne_refresh _ id)
  | refresh hs => rw [refreshKey_inj hk]; exact ⟨_, rfl, hs⟩

end Fits

/-- Every key of a database holds what it may. -/
def Db.Shape (S : Credential → Prop) (db : Db) : Prop := ∀ k e, db k = some e → Fits S k e.value

/-- A command that keeps the shape: it stores credentials of `S` only. -/
def Allowed (S : Credential → Prop) : Cmd → Prop
  | .setEx k _ _ => Text.isUuid k = true ∧ S (.access k)
  | .setNxEx k _ _ => ∃ hash, k = totpCodeKey hash
  | .zadd g m _ => (∃ s, g = subjectGroup s ∧ S (.access m)) ∨
      ∃ f c, g = familyGroup f ∧ m = c.key ∧ S c
  | .hset k _ | .hsetNx k _ _ => ∃ id, k = refreshKey id ∧ S (.refresh id)
  | _ => True

section Shape

variable {S : Credential → Prop} {db : Db} {now : Nat}

theorem Db.Shape.get (h : Db.Shape S db) {k : String} {e : Entry} (hg : db.get now k = some e) :
    Fits S k e.value :=
  h k e (Db.get_eq_some.mp hg).1

theorem Db.Shape.put (h : Db.Shape S db) {k : String} {o : Option Entry}
    (ho : ∀ e, o = some e → Fits S k e.value) : Db.Shape S (db.put k o) := by
  intro k' e he
  by_cases hk : k' = k
  · subst hk
    rw [Db.put, Function.update_self] at he
    exact ho e he
  · rw [Db.put_ne hk] at he
    exact h k' e he

theorem Db.Shape.delAll (h : Db.Shape S db) (ks : List String) : Db.Shape S (db.delAll ks) := by
  intro k e he
  simp only [Db.delAll] at he
  split at he
  · cases he
  · exact h k e he

theorem Db.Shape.setExpiry (h : Db.Shape S db) (k : String) (base : Nat) (secs : Int) :
    Db.Shape S (Redis.setExpiry now db k base secs).2 := by
  unfold Redis.setExpiry
  split
  · exact h
  · split
    · exact h
    · rename_i e hg
      split
      · exact h.put fun _ he => nomatch he
      · have hv := h.get hg
        exact h.put fun e' he => by cases he; exact hv

theorem Fits.zinsert {g m : String} {score : Int} {ms : List (String × Int)}
    (hg : (∃ s, g = subjectGroup s ∧ S (.access m)) ∨ ∃ f c, g = familyGroup f ∧ m = c.key ∧ S c)
    (hf : ∀ v : Value, v = .zset ms → Fits S g v ∨ ms = []) :
    Fits S g (.zset (Redis.zinsert m score ms)) := by
  have mem : ∀ x ∈ Redis.zinsert m score ms, x = (m, score) ∨ x ∈ ms := fun x hx => by
    simp only [Redis.zinsert, List.mem_cons, List.mem_filter] at hx
    exact hx.imp_right And.left
  rcases hg with ⟨s, rfl, hs⟩ | ⟨f, c, rfl, rfl, hs⟩
  · refine .subject fun x hx => ?_
    rcases mem x hx with rfl | hx
    · exact hs
    · rcases hf _ rfl with hf | rfl
      · obtain ⟨ms', e, hm⟩ := hf.subject_inv
        cases e
        exact hm x hx
      · cases hx
  · refine .family fun x hx => ?_
    rcases mem x hx with rfl | hx
    · exact ⟨c, rfl, hs⟩
    · rcases hf _ rfl with hf | rfl
      · obtain ⟨ms', e, hm⟩ := hf.family_inv
        cases e
        exact hm x hx
      · cases hx

theorem Fits.zfilter {g : String} {ms : List (String × Int)} (hf : Fits S g (.zset ms))
    (p : String × Int → Bool) : Fits S g (.zset (ms.filter p)) := by
  cases hf with
  | subject hm => exact .subject fun m hx => hm m (List.mem_of_mem_filter hx)
  | family hm => exact .family fun m hx => hm m (List.mem_of_mem_filter hx)

/-- An allowed command keeps the shape of the store. -/
theorem exec_shape (h : Db.Shape S db) {c : Cmd} (hc : Allowed S c) :
    Db.Shape S (Redis.exec now db c).2 := by
  cases c with
  | ping => exact h
  | «exists» k => exact h
  | setEx k v secs =>
    simp only [Redis.exec]
    split
    · exact h
    · rename_i db' he
      rw [(setWithExpiry_eq_some he).2]
      exact h.put fun e he => by cases he; exact .access hc.1 hc.2
  | setNxEx k v secs =>
    obtain ⟨hash, rfl⟩ := hc
    simp only [Redis.exec]
    split
    · exact h
    · rename_i db' he
      split
      · exact h
      · rw [(setWithExpiry_eq_some he).2]
        exact h.put fun e he => by cases he; exact .reservation hash v
  | del ks => exact h.delAll ks
  | zadd g m score =>
    simp only [Redis.exec]
    split
    · refine h.put fun e he => ?_
      cases he
      show Fits S g (.zset (Redis.zinsert m score []))
      exact Fits.zinsert hc fun _ _ => .inr rfl
    · rename_i ms t hg
      refine h.put fun e he => ?_
      cases he
      exact Fits.zinsert hc fun v hv => .inl (hv ▸ h.get hg)
    · exact h
  | zremRangeByScore g max =>
    simp only [Redis.exec]
    split
    · exact h
    · rename_i ms t hg
      refine h.put fun e he => ?_
      split at he
      · cases he
      · cases he
        exact (h.get hg).zfilter _
    · exact h
  | zrange k =>
    simp only [Redis.exec]
    split <;> exact h
  | expire k secs => exact h.setExpiry k _ _
  | expireAt k ts => exact h.setExpiry k _ _
  | hset k fs =>
    obtain ⟨id, rfl, hs⟩ := hc
    simp only [Redis.exec]
    split
    · exact h.put fun e he => by cases he; exact .refresh hs
    · exact h.put fun e he => by cases he; exact .refresh hs
    · exact h
  | hsetNx k f v =>
    obtain ⟨id, rfl, hs⟩ := hc
    simp only [Redis.exec]
    split
    · exact h.put fun e he => by cases he; exact .refresh hs
    · split
      · exact h
      · exact h.put fun e he => by cases he; exact .refresh hs
    · exact h
  | hgetAll k =>
    simp only [Redis.exec]
    split <;> exact h

end Shape

/-! ## Spent credentials -/

section Spent

variable {ι : Type} [DecidableEq ι]

/-- What happened so far, in order. -/
abbrev Events (ι : Type) := List (Event svc ι Nat)

/-- The UUID is drawn, and whoever drew it has stored the credential. -/
def Spent (h : Events ι) (w : World) (c : Credential) : Prop :=
  Text.isUuid c.uuid = true ∧ c.uuid ∈ w.drawn ∧
    ∀ i, Drew c.uuid (callsOf i h) → ∃ x ∈ callsOf i h, c.StoredBy x.eff

/-- The invariant of the service after the events `h`. -/
structure Coherent (h : Events ι) (w : World) : Prop where
  shape : Db.Shape (Spent h w) w.db
  drawn : ∀ i u, Drew u (callsOf i h) → Text.isUuid u = true ∧ u ∈ w.drawn
  owner : ∀ i j u, Drew u (callsOf i h) → Drew u (callsOf j h) → i = j
  read : ∀ i id (fs : List (String × String)), fs ≠ [] →
    (⟨.redis (.hgetAll (refreshKey id)), .ok fs⟩ : Call svc) ∈ callsOf i h →
      Spent h w (.refresh id)

variable {h : Events ι} {w w' : World} {s : JwkService} {i : ι} {c : Credential}

theorem callsOf_snoc (j : ι) (x : Call svc) (h : Events ι) :
    callsOf j (h ++ [.call i x]) = callsOf j h ++ if i = j then [x] else [] := by
  rw [callsOf_append]
  rfl

theorem mem_callsOf_snoc {j : ι} {x y : Call svc} {h : Events ι} :
    y ∈ callsOf j (h ++ [.call i x]) ↔ y ∈ callsOf j h ∨ i = j ∧ y = x := by
  rw [callsOf_snoc, List.mem_append]
  split <;> simp_all

theorem Coherent.spent_of_stored (hc : Coherent h w) (hs : Stored c (callsOf i h)) :
    Spent h w c := by
  obtain ⟨hd, hx⟩ := hs
  obtain ⟨hu, hm⟩ := hc.drawn i _ hd
  refine ⟨hu, hm, fun j hj => ?_⟩
  rwa [hc.owner j i _ hj hd]

/-- A credential that is spent stays so. -/
theorem Spent.step {e : Eff} {r : e.Reply} (hs : Spent h w c)
    (hstep : (service s).call w e r w') : Spent (h ++ [.call i ⟨e, r⟩]) w' c := by
  obtain ⟨hu, hm, hd⟩ := hs
  have hdraw : c.uuid ∈ w'.drawn ∧ (⟨.newUuid, c.uuid⟩ : Call svc) ≠ ⟨e, r⟩ := by
    cases hq : e.quiet with
    | true =>
      refine ⟨(call_quiet hq hstep).2.1 ▸ hm, fun he => ?_⟩
      cases he
      cases hq
    | false =>
      cases e with
      | redis d => rcases call_redis hstep with ⟨rfl, -⟩ | ⟨rfl, -⟩ <;> exact ⟨hm, nofun⟩
      | newUuid =>
        obtain ⟨-, hr, rfl⟩ := call_newUuid hstep
        refine ⟨List.mem_cons_of_mem _ hm, fun he => ?_⟩
        cases he
        exact hr hm
      | _ => cases hq
  refine ⟨hu, hdraw.1, fun j hj => ?_⟩
  rcases mem_callsOf_snoc.mp hj with hj | ⟨-, he⟩
  · obtain ⟨x, hx, hb⟩ := hd j hj
    exact ⟨x, mem_callsOf_snoc.mpr (.inl hx), hb⟩
  · exact absurd he hdraw.2

theorem Spent.env {l : Nat} (hs : Spent h w c) : Spent (h ++ [.env l]) (w.tick l) c := by
  obtain ⟨hu, hm, hd⟩ := hs
  refine ⟨hu, hm, fun j hj => ?_⟩
  rw [callsOf_append, callsOf_env, callsOf_nil, List.append_nil] at hj ⊢
  exact hd j hj

/-! ## The invariant -/

/-- The call of a disciplined request that stores a credential makes it
spent. -/
theorem Coherent.spent_by (hc : Coherent h w) {e : Eff} {r : e.Reply} (hd : Drew c.uuid (callsOf i h))
    (hb : c.StoredBy e) (hq : e ≠ .newUuid) (hstep : (service s).call w e r w')
    (hdrawn : w'.drawn = w.drawn) : Spent (h ++ [.call i ⟨e, r⟩]) w' c := by
  obtain ⟨hu, hm⟩ := hc.drawn i _ hd
  refine ⟨hu, hdrawn ▸ hm, fun j hj => ?_⟩
  rcases mem_callsOf_snoc.mp hj with hj | ⟨-, he⟩
  · rw [hc.owner j i _ hj hd]
    exact ⟨⟨e, r⟩, mem_callsOf_snoc.mpr (.inr ⟨rfl, rfl⟩), hb⟩
  · cases he
    exact absurd rfl hq

/-- A disciplined command stores spent credentials only. -/
theorem Coherent.allowed (hc : Coherent h w) {d : Cmd} {r : Except Redis.Err d.Reply}
    (hd : Disciplined (callsOf i h) (.redis d)) (hstep : (service s).call w (.redis d) r w') :
    Allowed (Spent (h ++ [.call i ⟨.redis d, r⟩]) w') d := by
  have hdrawn : w'.drawn = w.drawn := by
    rcases call_redis hstep with ⟨rfl, -⟩ | ⟨rfl, -⟩ <;> rfl
  cases d with
  | setEx k v secs =>
    exact ⟨(hc.drawn i _ hd.1).1,
      hc.spent_by (c := .access k) hd.1 ⟨v, secs, rfl⟩ nofun hstep hdrawn⟩
  | setNxEx k v secs => exact hd
  | zadd g m score =>
    rcases hd with ⟨u, hg, hs⟩ | ⟨f, c, hg, hm, hs⟩
    · exact .inl ⟨u, hg, (hc.spent_of_stored hs).step hstep⟩
    · exact .inr ⟨f, c, hg, hm, (hc.spent_of_stored hs).step hstep⟩
  | hset k fs =>
    obtain ⟨id, rfl, hid, -⟩ := hd
    exact ⟨id, rfl, hc.spent_by (c := .refresh id) hid ⟨fs, rfl⟩ nofun hstep hdrawn⟩
  | hsetNx k f v =>
    obtain ⟨id, fs, rfl, -, hne, hm⟩ := hd
    exact ⟨id, rfl, (hc.read i id fs hne hm).step hstep⟩
  | _ => trivial

theorem Coherent.step (hc : Coherent h w) {e : Eff} {r : e.Reply}
    (hd : Disciplined (callsOf i h) e) (hstep : (service s).call w e r w') :
    Coherent (h ++ [.call i ⟨e, r⟩]) w' := by
  have hmono : ∀ c, Spent h w c → Spent (h ++ [.call i ⟨e, r⟩]) w' c := fun c hs => hs.step hstep
  have hshape : Db.Shape (Spent (h ++ [.call i ⟨e, r⟩]) w') w.db :=
    fun k x hx => (hc.shape k x hx).mono hmono
  have hread : ∀ j id (fs : List (String × String)), fs ≠ [] →
      (⟨.redis (.hgetAll (refreshKey id)), .ok fs⟩ : Call svc) ∈ callsOf j (h ++ [.call i ⟨e, r⟩]) →
        Spent (h ++ [.call i ⟨e, r⟩]) w' (.refresh id) := fun j id fs hne hm => by
    rcases mem_callsOf_snoc.mp hm with hm | ⟨-, he⟩
    · exact hmono _ (hc.read j id fs hne hm)
    · -- The reply shows that the record is there.
      cases he
      refine hmono _ ?_
      rcases call_redis hstep with ⟨-, x, hx⟩ | ⟨-, hx | ⟨x, hx⟩⟩
      · cases hx
      · simp only [Redis.exec] at hx
        split at hx
        · cases hx
          exact absurd rfl hne
        · rename_i gs t hg
          obtain ⟨fs', -, hs⟩ := (hc.shape.get hg).refresh_inv
          exact hs
        · cases hx
      · cases hx
  -- What is left depends on whether the call draws a UUID.
  by_cases hq : e = .newUuid
  · subst hq
    obtain ⟨hu, hn, hw⟩ := call_newUuid hstep
    have hnew : ∀ j, ¬ Drew r (callsOf j h) := fun j hj => hn (hc.drawn j r hj).2
    refine ⟨by rw [hw] at hshape ⊢; exact hshape, fun j u hj => ?_, fun j k u hj hk => ?_, hread⟩
    · rw [hw]
      rcases mem_callsOf_snoc.mp hj with hj | ⟨-, he⟩
      · exact ⟨(hc.drawn j u hj).1, List.mem_cons_of_mem _ (hc.drawn j u hj).2⟩
      · cases he
        exact ⟨hu, List.mem_cons_self⟩
    · rcases mem_callsOf_snoc.mp hj with hj | ⟨hij, he⟩ <;>
        rcases mem_callsOf_snoc.mp hk with hk | ⟨hik, he'⟩
      · exact hc.owner j k u hj hk
      · cases he'
        exact absurd hj (hnew j)
      · cases he
        exact absurd hk (hnew k)
      · exact hij.symm.trans hik
  · have hold : ∀ j u, Drew u (callsOf j (h ++ [.call i ⟨e, r⟩])) → Drew u (callsOf j h) :=
      fun j u hj => by
        rcases mem_callsOf_snoc.mp hj with hj | ⟨-, he⟩
        · exact hj
        · cases he
          exact absurd rfl hq
    have hw : w'.drawn = w.drawn ∧ Db.Shape (Spent (h ++ [.call i ⟨e, r⟩]) w') w'.db := by
      cases hqt : e.quiet with
      | true =>
        obtain ⟨h₁, h₂, -⟩ := call_quiet hqt hstep
        exact ⟨h₂, by rw [h₁]; exact hshape⟩
      | false =>
        cases e with
        | redis d =>
          have ha := hc.allowed hd hstep
          rcases call_redis hstep with ⟨rfl, -⟩ | ⟨rfl, -⟩
          · exact ⟨rfl, hshape⟩
          · exact ⟨rfl, exec_shape hshape ha⟩
        | newUuid => exact absurd rfl hq
        | _ => cases hqt
    refine ⟨hw.2, fun j u hj => ?_, fun j k u hj hk => ?_, hread⟩
    · rw [hw.1]
      exact hc.drawn j u (hold j u hj)
    · exact hc.owner j k u (hold j u hj) (hold k u hk)

theorem Coherent.env (hc : Coherent h w) {l : Nat} : Coherent (h ++ [.env l]) (w.tick l) := by
  have hcalls : ∀ j : ι, callsOf j (h ++ [.env l]) = callsOf j h := fun j => by
    rw [callsOf_append, callsOf_env, callsOf_nil, List.append_nil]
  refine ⟨fun k e he => (hc.shape k e he).mono fun c hs => hs.env, fun j u hj => ?_,
    fun j k u hj hk => ?_, fun j id fs hne hm => ?_⟩
  · rw [hcalls] at hj
    exact hc.drawn j u hj
  · rw [hcalls] at hj hk
    exact hc.owner j k u hj hk
  · rw [hcalls] at hm
    exact (hc.read j id fs hne hm).env

/-! ## What cannot come back -/

/-- No disciplined command makes the key of a spent access token exist. -/
theorem not_created {j : String} {d : Cmd} (hs : Spent h w (.access j))
    (hd : Disciplined (callsOf i h) (.redis d)) : d.creates ≠ some j := by
  intro hj
  have hu : Text.isUuid j = true := hs.1
  cases d with
  | setEx k v secs =>
    cases hj
    obtain ⟨x, hx, v', secs', he⟩ := hs.2.2 i hd.1
    have := hd.2 x hx
    rw [he] at this
    cases this
  | setNxEx k v secs =>
    obtain ⟨hash, rfl⟩ := hd
    cases hj
    rw [not_uuid_totp] at hu
    cases hu
  | zadd g m score =>
    cases hj
    rcases hd with ⟨u, rfl, -⟩ | ⟨f, c, rfl, -⟩
    · rw [not_uuid_subject] at hu; cases hu
    · rw [not_uuid_family] at hu; cases hu
  | hset k fs =>
    obtain ⟨id, rfl, -⟩ := hd
    cases hj
    rw [not_uuid_refresh] at hu
    cases hu
  | hsetNx k f v =>
    obtain ⟨id, fs, rfl, -⟩ := hd
    cases hj
    rw [not_uuid_refresh] at hu
    cases hu
  | _ => cases hj

/-- Only a mark makes the key of a spent refresh token exist. -/
theorem created_refresh (hc : Coherent h w) {id : String} {d : Cmd} (hs : Spent h w (.refresh id))
    (hd : Disciplined (callsOf i h) (.redis d)) (hj : d.creates = some (refreshKey id)) :
    ∃ v, d = .hsetNx (refreshKey id) "used" v := by
  cases d with
  | setEx k v secs =>
    cases hj
    have hu := (hc.drawn i _ hd.1).1
    rw [not_uuid_refresh] at hu
    cases hu
  | setNxEx k v secs =>
    obtain ⟨hash, rfl⟩ := hd
    exact absurd (Option.some.inj hj).symm (refresh_ne_totp id hash)
  | zadd g m score =>
    rcases hd with ⟨u, rfl, -⟩ | ⟨f, c, rfl, -⟩
    · exact absurd (Option.some.inj hj) (subject_ne_refresh u id)
    · exact absurd (Option.some.inj hj) (family_ne_refresh f id)
  | hset k fs =>
    obtain ⟨id', rfl, hid, hn⟩ := hd
    cases refreshKey_inj (Option.some.inj hj)
    obtain ⟨x, hx, fs', he⟩ := hs.2.2 i hid
    have := hn x hx
    rw [he] at this
    cases this
  | hsetNx k f v =>
    obtain ⟨id', fs, rfl, rfl, -⟩ := hd
    cases refreshKey_inj (Option.some.inj hj)
    exact ⟨v, rfl⟩
  | _ => cases hj

/-- The credential can no longer be used: the key of an access token is not
there, and what is left of a refresh record is not a record. -/
def Gone (w : World) : Credential → Prop
  | .access j => w.db.get w.now j = none
  | .refresh id => ∀ e, w.db.get w.now (refreshKey id) = some e →
      ∃ fs, e.value = .hash fs ∧ fs.lookup "sub" = none

theorem Gone.of_none (hn : w.db.get w.now c.key = none) : Gone w c := by
  cases c with
  | access j => exact hn
  | refresh id =>
    intro e he
    rw [show (Credential.refresh id).key = refreshKey id from rfl] at hn
    rw [hn] at he
    cases he

theorem Gone.tick (hg : Gone w c) (l : Nat) : Gone (w.tick l) c := by
  cases c with
  | access j => exact Db.get_none_mono (Nat.le_add_right _ _) hg
  | refresh id => exact fun e he => hg e (Db.get_of_later (Nat.le_add_right _ _) he)

/-- A command that leaves a key alone, or does not bring it back. -/
theorem exec_gone (hc : Coherent h w) (hs : Spent h w c) {d : Cmd}
    (hd : Disciplined (callsOf i h) (.redis d)) (hg : Gone w c) :
    Gone { w with db := (Redis.exec w.now w.db d).2 } c := by
  cases c with
  | access j => exact exec_get_none hg (not_created hs hd)
  | refresh id =>
    by_cases hcr : d.creates = some (refreshKey id)
    · obtain ⟨v, rfl⟩ := created_refresh hc hs hd hcr
      intro e he
      simp only [Redis.exec] at he
      split at he
      · rw [Db.get_put_some] at he
        split at he
        · cases he; exact ⟨_, rfl, rfl⟩
        · cases he
      · rename_i gs t hk
        obtain ⟨fs, hf, hl⟩ := hg _ hk
        cases hf
        split at he
        · rw [hk] at he
          cases he
          exact ⟨_, rfl, hl⟩
        · rw [Db.get_put_some] at he
          split at he
          · cases he; exact ⟨_, rfl, hl⟩
          · cases he
      · exact hg e he
    · intro e he
      obtain ⟨e₀, h₀, hv⟩ := exec_get_some hcr he
      obtain ⟨fs, hf, hl⟩ := hg e₀ h₀
      rcases hv with hv | ⟨ms, ms', hz, -⟩
      · exact ⟨fs, hv.trans hf, hl⟩
      · rw [hf] at hz
        cases hz

theorem Gone.congr {w w' : World} (hdb : w'.db = w.db) (hnow : w'.now = w.now) (hg : Gone w c) :
    Gone w' c := by
  cases c with
  | access j => rw [Gone, hdb, hnow]; exact hg
  | refresh id => rw [Gone, hdb, hnow]; exact hg

theorem Gone.step (hc : Coherent h w) (hs : Spent h w c) {e : Eff} {r : e.Reply}
    (hd : Disciplined (callsOf i h) e) (hg : Gone w c) (hstep : (service s).call w e r w') :
    Gone w' c := by
  cases hq : e.quiet with
  | true =>
    obtain ⟨hdb, -, hnow⟩ := call_quiet hq hstep
    exact hg.congr hdb hnow
  | false =>
    cases e with
    | redis d =>
      rcases call_redis hstep with ⟨rfl, -⟩ | ⟨rfl, -⟩
      · exact hg
      · exact exec_gone hc hs hd hg
    | newUuid =>
      obtain ⟨-, -, rfl⟩ := call_newUuid hstep
      exact hg.congr rfl rfl
    | _ => cases hq

/-! ## Runs -/

variable {α : Type} {P P' : Pool svc World ι α} {tr : Events ι}

/-- The service after the events `h`: what is left of its requests is
disciplined, and the state is coherent. -/
structure Running (Q : ι → Calls → α → Prop) (h : Events ι) (P : Pool svc World ι α) : Prop where
  requests : ∀ i, Prog.wp Disciplined (callsOf i h) (P.prog i) (Q i)
  coherent : Coherent h P.st

variable {Q : ι → Calls → α → Prop}

/-- Disciplined requests keep the invariant, in any interleaving and with any
failures of Redis. -/
theorem Running.run (hp : Running Q h P) (hr : (service s).Run P tr P') :
    Running Q (h ++ tr) P' :=
  ⟨hr.wp hp.requests, hr.inv (I := Coherent) (fun _ _ _ _ _ _ hc hd hs => hc.step hd hs)
    (fun _ _ _ _ hc hs => by cases hs; exact hc.env) hp.requests hp.coherent⟩

/-- A spent credential that is gone stays gone. -/
theorem Running.gone (hp : Running Q h P) (hs : Spent h P.st c) (hg : Gone P.st c)
    (hr : (service s).Run P tr P') : Gone P'.st c := by
  refine (hr.inv (I := fun h w => Coherent h w ∧ Spent h w c ∧ Gone w c)
    (fun h w i e r w' hI hd hs => ?_) (fun h w l w' hI hs => ?_) hp.requests
    ⟨hp.coherent, hs, hg⟩).2.2
  · exact ⟨hI.1.step hd hs, hI.2.1.step hs, hI.2.2.step hI.1 hI.2.1 hd hs⟩
  · cases hs
    exact ⟨hI.1.env, hI.2.1.env, hI.2.2.tick l⟩

/-- The state a process starts in. -/
theorem coherent_empty : Coherent ([] : Events ι) World.empty :=
  ⟨nofun, nofun, nofun, nofun⟩

end Spent

end JwtService

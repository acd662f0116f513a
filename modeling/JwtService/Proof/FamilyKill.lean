import JwtService.Proof.Enrolled

/-!
# What is left of a family that was ended

A reuse reads the index of the family and deletes what it was told, and an
exchange that has set the mark goes on to issue its pair. So a pair that is
added to the index after it was read lives on (`pair_outlives_family`). Where
nothing is added after that, and the index has lasted (`FamilyLasts`), no
token of the family can be used any more (`family_over`).
-/

namespace JwtService

open Interaction Redis

/-! ## Tokens in the index of their family -/

/-- The credential can still be used: it is not gone, and an access token is not
over. -/
def Lives (w : World) (c : Credential) (exp : Int) : Prop :=
  ¬ Gone w c ∧ ∀ j, c = .access j → (w.now : Int) < 1000 * exp

/-- The index of the family keeps the tokens that can still be used: it does not
expire before them, neither as time passes nor by an expiry that is set in the
past, and none of them is cut off with the expired ones. -/
def FamilyLasts {ι : Type} (f : String) (_ : Events ι) (w : World) : Event svc ι Nat → Prop
  | .env d => ∀ (c : Credential) exp, (c.key, exp) ∈ w.db.members w.now (familyGroup f) →
      Lives (w.tick d) c exp → (c.key, exp) ∈ w.db.members (w.now + d) (familyGroup f)
  | .call _ x => ∀ (c : Credential) exp, (c.key, exp) ∈ w.db.members w.now (familyGroup f) → Lives w c exp →
      (∀ ts, x.eff = .redis (.expireAt (familyGroup f) ts) → (w.now : Int) < 1000 * ts) ∧
        ∀ max, x.eff = .redis (.zremRangeByScore (familyGroup f) max) → max < exp

section Retained

variable {ι : Type} [DecidableEq ι] {h h₀ h' : Events ι} {w w' : World} {s : JwkService} {i : ι}
  {t : JsonText} {a : Admission} {rq : Request} {f : String} {c : Credential} {exp : Int}

/-- The credential was added to the family, and `h₀` is what happened until then. -/
structure Retained (f : String) (c : Credential) (exp : Int) (h₀ h : Events ι) (w : World) : Prop where
  coherent : Coherent h w
  spent : Spent h w c
  unlisted : ∀ i g (ms : List String), (⟨.redis (.zrange g), .ok ms⟩ : Call svc) ∈ callsOf i h →
    familyGroup f ∉ ms
  since : ∃ h', h = h₀ ++ h' ∧ (Lives w c exp → InGroup (familyGroup f) (c.key, exp) h' w)

/-- The event deletes the index only if its request had not read it before, and adds
the credential with its own moment only. -/
structure Harmless (f : String) (c : Credential) (exp : Int) (h₀ : Events ι) (ev : Event svc ι Nat) : Prop where
  swept : ∀ i ks q, ev = .call i ⟨.redis (.del ks), q⟩ → familyGroup f ∈ ks →
    ∀ ms, (⟨.redis (.zrange (familyGroup f)), .ok ms⟩ : Call svc) ∉ callsOf i h₀
  moment : ∀ i score r, ev = .call i ⟨.redis (.zadd (familyGroup f) c.key score), r⟩ → score = exp

/-- What can be used after a call could be used before. -/
theorem Lives.before (hc : Coherent h w) (hs : Spent h w c) {e : Eff} {r : e.Reply}
    (hd : Disciplined (callsOf i h) e) (hcall : (service s).call w e r w') (hu : Lives w' c exp) :
    Lives w c exp :=
  ⟨fun hg => hu.1 (hg.step hc hs hd hcall), fun j hj => call_now hcall ▸ hu.2 j hj⟩

theorem Lives.earlier {d : Nat} (hu : Lives (w.tick d) c exp) : Lives w c exp := by
  refine ⟨fun hg => hu.1 (hg.tick d), fun j hj => ?_⟩
  have hlt : ((w.now + d : Nat) : Int) < 1000 * exp := hu.2 j hj
  omega

/-- A credential whose key is deleted is gone. -/
theorem not_lives_of_del {ks : List String} (hk : c.key ∈ ks) :
    ¬ Lives (w.setDb (w.db.delAll ks)) c exp := by
  refine fun hu => hu.1 (.of_none ?_)
  show (w.db.delAll ks).get w.now c.key = none
  rw [Db.get_delAll, if_pos hk]

/-- A request takes a credential out of the index of the family only if it has
swept the index before the credential was added. -/
theorem Retained.not_drops (hw : Retained f c exp h₀ (h₀ ++ h') w)
    (hi : InGroup (familyGroup f) (c.key, exp) h' w) (hu : Lives w c exp) {d : Cmd}
    {q : Except Redis.Err d.Reply} (hd : Disciplined (callsOf i (h₀ ++ h')) (.redis d))
    (ht : Tidy rq (callsOf i (h₀ ++ h')) (.redis d)) (hrq : rq ≠ .revokeToken (familyGroup f))
    (hlast : FamilyLasts f (h₀ ++ h') w (.call i ⟨.redis d, q⟩))
    (hev : Harmless f c exp h₀ (.call i ⟨.redis d, q⟩)) :
    ¬ d.Drops w.now (familyGroup f) (c.key, exp) := by
  intro hdrop
  obtain ⟨hexpire, hcut⟩ := hlast c exp hi.member hu
  cases d with
  | setEx g v secs =>
    cases hdrop
    exact family_ne_uuid (hw.coherent.drawn i _ hd.1).1 f rfl
  | setNxEx g v secs =>
    obtain ⟨hash, rfl⟩ := hd
    exact family_ne_totp f hash hdrop.symm
  | del ks =>
    have hg : familyGroup f ∈ ks := hdrop
    rcases ht _ hg with hr | hs | ⟨g, ms, hm, hmem⟩
    · exact hrq hr
    · exact hi.not_swept (hev.swept i ks q rfl hg) hs
    · exact hw.unlisted i g ms hm hmem
  | zadd g m score =>
    obtain ⟨rfl, rfl, hne⟩ := hdrop
    exact hne (hev.moment i score q rfl)
  | zremRangeByScore g max =>
    obtain ⟨rfl, hle⟩ := hdrop
    exact absurd (hcut max rfl) (Int.not_lt.mpr hle)
  | expire g secs =>
    obtain ⟨id, rfl⟩ := hd
    exact family_ne_refresh f id hdrop.symm
  | expireAt g ts =>
    obtain ⟨rfl, hle⟩ := hdrop
    have hlt := hexpire ts rfl
    omega
  | hset g fs =>
    obtain ⟨id, rfl, -⟩ := hd
    exact family_ne_refresh f id hdrop.symm
  | hsetNx g k v =>
    obtain ⟨id, fs, rfl, -⟩ := hd
    exact family_ne_refresh f id hdrop.symm
  | _ => cases hdrop

theorem Retained.step (hw : Retained f c exp h₀ h w) {e : Eff} {r : e.Reply}
    (hd : Disciplined (callsOf i h) e) (ht : Tidy rq (callsOf i h) e)
    (hrq : rq ≠ .revokeToken (familyGroup f)) (hlast : FamilyLasts f h w (.call i ⟨e, r⟩))
    (hev : Harmless f c exp h₀ (.call i ⟨e, r⟩)) (hs : (service s).call w e r w') :
    Retained f c exp h₀ (h ++ [.call i ⟨e, r⟩]) w' := by
  obtain ⟨h', rfl, hi⟩ := hw.since
  refine ⟨hw.coherent.step hd hs, hw.spent.step hs, fun j g ms hm hmem => ?_, h' ++ [.call i ⟨e, r⟩],
    List.append_assoc .., fun hu => ?_⟩
  · rcases mem_callsOf_snoc.mp hm with hm | ⟨-, he⟩
    · exact hw.unlisted j g ms hm hmem
    · cases he
      obtain ⟨x, hx, hxm⟩ := members_told hs rfl hmem
      obtain ⟨c', hk, hc'⟩ := hw.coherent.member hx
      exact c'.key_ne_family hc'.1 f (hk.symm.trans hxm)
  · have hu₀ := hu.before hw.coherent hw.spent hd hs
    have hi := hi hu₀
    refine hi.step ?_ (fun ms he hk => ?_) hs
    · rintro d rfl
      exact hw.not_drops hi hu₀ hd ht hrq hlast hev
    · cases he
      rcases call_redis hs with ⟨-, x, hx⟩ | ⟨rfl, -⟩
      · cases hx
      · exact not_lives_of_del hk hu

theorem Retained.env (hw : Retained f c exp h₀ h w) {d : Nat} (hlast : FamilyLasts f h w (.env d)) :
    Retained f c exp h₀ (h ++ [.env d]) (w.tick d) := by
  obtain ⟨h', rfl, hi⟩ := hw.since
  refine ⟨hw.coherent.env, hw.spent.env, fun j g ms hm => ?_, h' ++ [.env d], List.append_assoc ..,
    fun hu => ?_⟩
  · rw [callsOf_append, callsOf_env, callsOf_nil, List.append_nil] at hm
    exact hw.unlisted j g ms hm
  · have hi := hi hu.earlier
    exact hi.env (hlast c exp hi.member hu)

end Retained

/-! ## Runs -/

/-- Nothing is added to the family after `d` has read who is in it, nor between the
moments at which another request reads that and deletes it. -/
structure FamilySettled {ι : Type} [DecidableEq ι] (f : String) (d : ι) (tr : Events ι) : Prop where
  after : ∀ u v i m score r, tr = u ++ .call i ⟨.redis (.zadd (familyGroup f) m score), r⟩ :: v →
    ∀ ms, (⟨.redis (.zrange (familyGroup f)), .ok ms⟩ : Call svc) ∉ callsOf d u
  between : ∀ m, ¬ SlipsThrough (familyGroup f) m tr

section Runs

variable {ι : Type} [DecidableEq ι] {env : Env} {libs : Libs} {adm : ι → Admission} {req : ι → Request}
  {s : JwkService} {tr : Events ι} {P : Pool svc World ι HttpResponse} {f : String} {i d : ι}
  {c : Credential} {exp : Int}

/-- A credential that was added to a family cannot be used once a request has swept
the family. -/
theorem not_lives_after (ht : libs.json.Faithful) (hnamed : ∀ k, req k ≠ .revokeToken (familyGroup f))
    (hr : (service s).RunWhere (FamilyLasts f) [] (start env libs adm req) tr P) (hset : FamilySettled f d tr)
    (hswept : Swept (familyGroup f) (callsOf d tr)) (hst : Stored c (callsOf i tr))
    (hadd : (⟨.redis (.zadd (familyGroup f) c.key exp), .ok ()⟩ : Call svc) ∈ callsOf i tr)
    (honly : ∀ x ∈ callsOf i tr, ∀ score, x.eff = .redis (.zadd (familyGroup f) c.key score) → score = exp) :
    ¬ Lives P.st c exp := by
  have hrun := hr.run
  have hc := (answered_run ht hrun).1
  have huuid := (hc.drawn i _ hst.1).1
  -- Who adds the credential has stored it.
  have howner : ∀ p score r, (⟨.redis (.zadd (familyGroup f) c.key score), r⟩ : Call svc) ∈ callsOf p tr →
      Stored c (callsOf p tr) := by
    intro p score r hz
    rcases AddedBy.origin ht hrun ⟨score, _, hz, rfl⟩ with ⟨sub, hg, -⟩ | ⟨f', c', -, hk, hs, -⟩
    · exact absurd hg.symm (subject_ne_family sub f)
    · cases Credential.key_inj huuid (hc.drawn p _ hs.1).1 hk
      exact hs
  obtain ⟨xs, ys, hsplit⟩ := List.append_of_mem hadd
  obtain ⟨u, v, rfl, -, -⟩ := callsOf_split hsplit
  obtain ⟨Q, Q', hu, hstep, -, hv⟩ := hr.split_at
  rw [List.nil_append] at hv
  let h₀ : Events ι := u ++ [.call i ⟨.redis (.zadd (familyGroup f) c.key exp), .ok ()⟩]
  have hrunQ' : (service s).Run (start env libs adm req) h₀ Q' := hu.run.trans (.cons hstep (.nil _))
  have hread : ∀ j ms, (⟨.redis (.zrange (familyGroup f)), .ok ms⟩ : Call svc) ∈ callsOf j h₀ →
      (⟨.redis (.zrange (familyGroup f)), .ok ms⟩ : Call svc) ∈ callsOf j u := by
    intro j ms hm
    rcases mem_callsOf_snoc.mp hm with hm | ⟨-, he⟩
    · exact hm
    · cases he
  have hretained : Retained f c exp h₀ h₀ Q'.st := by
    have hco := (answered_run ht hu.run).1
    have hco' := (answered_run ht hrunQ').1
    cases hstep with
    | @call _ _ _ _ _ hp hcall =>
      have hk := keeps_after ht hu.run i
      rw [hp] at hk
      have hst' : Stored c (callsOf i u) := by
        rcases hk.1.1 with ⟨sub, hg, -⟩ | ⟨f', c', -, hkey, hs⟩
        · exact absurd hg.symm (subject_ne_family sub f)
        · cases Credential.key_inj huuid (hco.drawn i _ hs.1).1 hkey
          exact hs
      refine ⟨hco', (hco.spent_of_stored hst').step hcall, fun j g ms hm hmem => ?_, [],
        (List.append_nil _).symm, fun _ => ⟨?_, fun _ _ h => (by cases h), fun _ _ h => (by cases h)⟩⟩
      · -- What is in a group is a credential that was added to it.
        obtain ⟨k, hadded⟩ := (listed_empty.run hrunQ').told j g ms hm _ hmem
        rcases AddedBy.origin ht hrunQ' hadded with ⟨sub, -, hs, -⟩ | ⟨f', c', -, hkey, hs, -⟩
        · exact family_ne_uuid (hco'.drawn k _ hs.1).1 f rfl
        · exact c'.key_ne_family (hco'.drawn k _ hs.1).1 f hkey.symm
      · rcases call_redis hcall with ⟨-, e, he⟩ | ⟨rfl, he | ⟨e, he⟩⟩
        · cases he
        · exact mem_members_zadd he.symm
        · cases he
  have hharmless : ∀ ev ∈ v, Harmless f c exp h₀ ev := by
    intro ev hev
    constructor
    · rintro p ks q rfl hks ms hm
      refine hset.between c.key ⟨u, v, i, exp, .ok (), p, ms, ks, q, rfl, hread p ms hm, ?_, hks⟩
      exact mem_callsOf.mpr hev
    · rintro p score r rfl
      have hz : (⟨.redis (.zadd (familyGroup f) c.key score), r⟩ : Call svc) ∈
          callsOf p (u ++ .call i ⟨.redis (.zadd (familyGroup f) c.key exp), .ok ()⟩ :: v) :=
        mem_callsOf.mpr (List.mem_append_right _ (List.mem_cons_of_mem _ hev))
      obtain rfl := hc.owner p i _ (howner p score r hz).1 hst.1
      exact honly _ hz score rfl
  have hend := (hv.also hharmless).inv (I := Retained f c exp h₀)
    (fun h w p e r w' hI hk hg hs => hI.step hk.1 hk.2.2 (hnamed p) hg.1 hg.2 hs)
    (fun h w l w' hI hg hs => by cases hs; exact hI.env hg.1) (keeps_after ht hrunQ') hretained
  intro hlives
  obtain ⟨h', he, hi⟩ := hend.since
  obtain rfl := List.append_cancel_left he
  have hswept : Swept (familyGroup f) (callsOf d (h₀ ++ v)) := by rwa [List.append_cons] at hswept
  exact (hi hlives).not_swept (fun ms hm => hset.after u v i c.key exp _ rfl ms (hread d ms hm)) hswept

theorem record_of_gone {w : World} {t : JsonText} {id : String} (hg : Gone w (.refresh id)) :
    w.record t id = none := by
  cases he : w.db.get w.now (refreshKey id) with
  | none =>
    rw [World.record, Db.fields_of_none he]
    rfl
  | some e =>
    obtain ⟨v, ttl⟩ := e
    obtain ⟨fs, hv, hl⟩ := hg _ he
    obtain rfl : v = .hash fs := hv
    rw [World.record, Db.fields_of_get he, RedisClient.recordOfFields, hl]
    rfl

/-- A reuse has found the mark of its token, and is answered that the token is not
valid. Of the pairs that the family has handed out until any later moment no access
token passes verification, and no refresh token can be exchanged, if nothing was
added to the family behind the back of a reuse and the index of the family lasted.
Nobody deletes the index under its own name. -/
theorem family_over (ht : libs.json.Faithful) {host : HostHeader} {token : String} {resp : HttpResponse}
    (hnamed : ∀ k, req k ≠ .revokeToken (familyGroup f))
    (hr : (service s).RunWhere (FamilyLasts f) [] (start env libs adm req) tr P)
    (hd : req d = .refreshToken host token) (hlost : Lost token (callsOf d tr))
    (hout : P.prog d = .ret resp) (hinvalid : resp.status = 401)
    (hf : familyOf libs.json (req d) (callsOf d tr) = some f) (hset : FamilySettled f d tr) {status : Nat}
    {access id : String} (hpair : P.prog i = .ret ⟨status, .token access (some id)⟩)
    (hif : familyOf libs.json (req i) (callsOf i tr) = some f) :
    (∀ c, JwtManager.claimsSegmentOf libs access = .ok c → ∀ issuer audience b w',
      Alone (faultless s).call (c.isVerify (redisClient libs.json) issuer audience) P.st b w' → b = false) ∧
    ∀ issuer r w', Alone (faultless s).call
      (JwtManager.refreshTokenPair env libs (redisClient libs.json) id issuer) P.st r w' →
        r = .error .notValid := by
  have hrun := hr.run
  obtain ⟨hc, ha⟩ := answered_run ht hrun
  have hswept : Swept (familyGroup f) (callsOf d tr) := by
    have hpath : Prog.Path (serve env libs (redisClient libs.json) (adm d) (req d)) (callsOf d tr) (P.prog d) :=
      hrun.path d
    rw [hd, hout] at hpath
    obtain ⟨-, hs⟩ := hpath.wp_ret (serve_killed (adm d) host token) hlost
    obtain ⟨record, hrecord, hs⟩ := hs hinvalid
    rw [hd, familyOf, hrecord] at hf
    cases hf
    exact hs
  have hpath : Prog.Path (serve env libs (redisClient libs.json) (adm i) (req i)) (callsOf i tr) (P.prog i) :=
    hrun.path i
  rw [hpair] at hpath
  obtain ⟨f', c, rexp, hclaims, henrolled⟩ := hpath.wp_ret (serve_enrolled (adm i) hif) _ _ rfl
  -- It is the family of the pair.
  obtain rfl : f' = f := by
    rcases AddedBy.origin ht hrun ⟨_, _, henrolled.access, rfl⟩ with ⟨sub, hg, -⟩ | ⟨f'', c', hg, -, -, hf'⟩
    · exact absurd hg.symm (subject_ne_family sub f')
    · cases hif.symm.trans hf'
      exact familyGroup_inj hg
  have hjti : Stored (.access c.jti) (callsOf i tr) := by
    obtain ⟨c₁, hc₁, hst⟩ := hpath.wp_ret (serve_disciplined env libs ht (adm i) (req i)) _ _ rfl
    cases hclaims.symm.trans hc₁
    exact hst
  have huuid := (hc.drawn i _ hjti.1).1
  have hid : Stored (.refresh id) (callsOf i tr) := by
    rcases AddedBy.origin ht hrun ⟨_, _, henrolled.refresh, rfl⟩ with ⟨sub, hg, -⟩ | ⟨_, c', -, hk, hst, -⟩
    · exact absurd hg.symm (subject_ne_family sub f')
    · cases c' with
      | access j => exact absurd hk (refresh_ne_uuid (hc.drawn i _ hst.1).1 id)
      | refresh id' =>
        cases refreshKey_inj hk
        exact hst
  have haccess : ¬ Lives P.st (.access c.jti) (asI64 c.exp) := by
    refine not_lives_after ht hnamed hr hset hswept hjti henrolled.access fun x hx score hz => ?_
    rcases henrolled.adds x hx _ _ score hz with he | he
    · exact (Prod.mk.inj he).2
    · exact absurd (Prod.mk.inj he).1.symm (refresh_ne_uuid huuid id)
  have hrefresh : ¬ Lives P.st (.refresh id) rexp := by
    refine not_lives_after ht hnamed hr hset hswept hid henrolled.refresh fun x hx score hz => ?_
    rcases henrolled.adds x hx _ _ score hz with he | he
    · exact absurd (Prod.mk.inj he).1 (refresh_ne_uuid huuid id)
    · exact (Prod.mk.inj he).2
  refine ⟨fun c₁ hc₁ issuer audience b w' hb => ?_, fun issuer r w' hx => ?_⟩
  · cases hclaims.symm.trans hc₁
    have hexp : c.exp < 2 ^ 63 := by
      obtain ⟨c₁, hc₁, hsub⟩ := hpath.wp_ret (handed_out_subject ht (adm i) (req i)) _ _ rfl
      obtain ⟨c₂, hc₂, hidx⟩ := (hpath.wp_ret (serve_tidy ht (adm i) (req i))).2 (by rw [hsub]; rfl) _ _ rfl
      cases hclaims.symm.trans hc₂
      exact (hidx.exp_eq ha).1
    refine not_live_not_verified ha huuid (fun hl => haccess ⟨fun hg => ?_, fun _ _ => ?_⟩) hb
    · have hnone : P.st.db.get P.st.now c.jti = none := hg
      have hsome := hl.2
      rw [hnone] at hsome
      cases hsome
    · have hlt := hl.1
      rw [asI64_of_lt hexp]
      omega
  · have hgone : Gone P.st (.refresh id) := by
      by_contra hg
      exact hrefresh ⟨hg, fun j hj => (by cases hj)⟩
    have hout := (alone_refreshTokenPair hc.sound _ _).mp hx
    rw [record_of_gone hgone] at hout
    exact hout.1

end Runs

/-! ## Two runs -/

section Lasting

variable {ι : Type} [DecidableEq ι] {env : Env} {libs : Libs} {adm : ι → Admission} {req : ι → Request}
  {s : JwkService} {tr : Events ι} {P : Pool svc World ι HttpResponse} {f : String} {i : ι}

/-- No sweep cuts off what is not over at the end of the run. -/
theorem zrem_le_now (ht : libs.json.Faithful) (hr : (service s).Run (start env libs adm req) tr P)
    {g : String} {max : Int} {r : Except Redis.Err Unit}
    (hm : (⟨.redis (.zremRangeByScore g max), r⟩ : Call svc) ∈ callsOf i tr) : max ≤ timestamp P.st.now := by
  obtain ⟨cs₁, cs₂, hsplit⟩ := List.append_of_mem hm
  obtain ⟨now, hnow, rfl⟩ := ((hr.path i).wp (serve_tidy ht (adm i) (req i))).2 cs₁ _ cs₂ hsplit
  rw [List.nil_append] at hnow
  have hle := (answered_run ht hr).2.clock i now (by rw [hsplit]; exact List.mem_append_left _ hnow)
  unfold timestamp
  omega

/-- What is added to the index of the family, and the expiry that is set, lie after
the start of the clock, and what is cut off before it. -/
structure Lasting (f : String) (e : Eff) : Prop where
  adds : ∀ m score, e = .redis (.zadd (familyGroup f) m score) → 0 < score
  expires : ∀ ts, e = .redis (.expireAt (familyGroup f) ts) → 0 < ts
  cuts : ∀ max, e = .redis (.zremRangeByScore (familyGroup f) max) → max ≤ 0

/-- With such calls the index lasts at the start of the clock. -/
theorem familyLasts_of_lasting (hr : (service s).Run (start env libs adm req) tr P)
    (hl : ∀ ev ∈ tr, ∃ i x, ev = .call i x ∧ Lasting f x.eff) :
    (service s).RunWhere (FamilyLasts f) [] (start env libs adm req) tr P := by
  refine hr.where_of (K := fun ev => ∃ i x, ev = .call i x ∧ Lasting f x.eff)
    (I := fun w => w.now = 0 ∧ ∀ x ∈ w.db.members w.now (familyGroup f), 0 < x.2)
    (fun h w i e r w' hI hK hs => ?_) (fun h w l w' hI hK hs => ?_) hl ⟨rfl, ?_⟩
  · obtain ⟨_, _, hev, hK⟩ := hK
    cases hev
    obtain ⟨hnow, hscore⟩ := hI
    refine ⟨fun c exp hm _ => ⟨fun ts he => ?_, fun max he => ?_⟩, (call_now hs).trans hnow, fun x hx => ?_⟩
    · have := hK.expires ts he
      omega
    · exact Int.lt_of_le_of_lt (hK.cuts max he) (hscore _ hm)
    · rcases mem_members_call hs hx with hx | he
      · exact hscore x hx
      · exact hK.adds _ _ he
  · obtain ⟨_, _, hev, -⟩ := hK
    cases hev
  · intro x hx
    rw [Db.members_of_none rfl] at hx
    cases hx

/-- Where the index is read only after everything was added to it. -/
theorem familySettled_of_last {t₁ t₂ : Events ι} {d : ι}
    (h₁ : ∀ i ms, Event.call i (⟨.redis (.zrange (familyGroup f)), .ok ms⟩ : Call svc) ∉ t₁)
    (h₂ : ∀ i m score r, Event.call i (⟨.redis (.zadd (familyGroup f) m score), r⟩ : Call svc) ∉ t₂) :
    FamilySettled f d (t₁ ++ t₂) := by
  have hnone : ∀ u v i m score r, t₁ ++ t₂ = u ++ .call i ⟨.redis (.zadd (familyGroup f) m score), r⟩ :: v →
      ∀ j ms, (⟨.redis (.zrange (familyGroup f)), .ok ms⟩ : Call svc) ∉ callsOf j u := by
    intro u v i m score r he j ms hm
    rcases List.append_eq_append_iff.mp he with ⟨x, rfl, hx⟩ | ⟨x, rfl, -⟩
    · exact h₂ i m score r (by rw [hx]; exact List.mem_append_right _ List.mem_cons_self)
    · exact h₁ j ms (List.mem_append_left _ (mem_callsOf.mp hm))
  refine ⟨fun u v i m score r he => hnone u v i m score r he d, fun m hslip => ?_⟩
  obtain ⟨u, v, i, score, r, j, ms, ks, q, he, hread, -, -⟩ := hslip
  exact hnone u v i m score r he j ms hread

/-- The calls of a request that is answered with a pair of the instance, at the
start of the clock. -/
theorem Enrolled.lasting {f' jti id : String} {exp rexp : Int} (ht : libs.json.Faithful)
    (hrun : (service s).Run (start env libs adm req) tr P) (hnow : P.st.now = 0)
    (he : Enrolled bareEnv f' jti id exp rexp (callsOf i tr)) (hexp : 0 < exp) {x : Call svc}
    (hx : x ∈ callsOf i tr) : Lasting f x.eff := by
  have hrexp : 0 < rexp := by
    obtain ⟨now, hm, hr⟩ := he.moment
    have hle := (answered_run ht hrun).2.clock i now hm
    rw [hnow] at hle
    obtain rfl := Nat.le_zero.mp hle
    rw [hr]
    have hsum : (timestamp 0 : Int) + asI64 (refreshTtl bareEnv) = (2592000 : Nat) := rfl
    rw [hsum, asUsize_of_lt (by decide), asI64_of_lt (by decide)]
    decide
  refine ⟨fun m score hz => ?_, fun ts hz => ?_, fun max hz => ?_⟩
  · rcases he.adds x hx f m score hz with h | h
    · rwa [(Prod.mk.inj h).2]
    · rwa [(Prod.mk.inj h).2]
  · rcases he.expires x hx f ts hz with rfl | rfl
    · exact hexp
    · exact hrexp
  · obtain ⟨e, r⟩ := x
    subst hz
    have hle := zrem_le_now ht hrun hx
    rw [hnow] at hle
    exact hle

theorem lasting_of_apart (ht : libs.json.Faithful) (hr : (service s).Run (start env libs adm req) tr P)
    (hnow : P.st.now = 0) {x : Call svc} (hx : x ∈ callsOf i tr) (ha : Apart x.eff) : Lasting f x.eff := by
  refine ⟨fun m score hz => absurd hz (ha.not_zadd f m score), fun ts hz => absurd hz (ha.not_expireAt f ts),
    fun max hz => ?_⟩
  obtain ⟨e, r⟩ := x
  subst hz
  have hle := zrem_le_now ht hr hx
  rw [hnow] at hle
  exact hle

end Lasting

/-- A reuse with nobody else at work. -/
theorem trace_reuse {ι : Type} {s : JwkService} {env : Env} {libs : Libs} {host : HostHeader}
    {issuer token : String} {w : World} {record : RefreshRecord} (hw : w.Sound)
    (hh : issuerForIssuance env host = .ok issuer) (hr : w.record libs.json token = some record)
    (hu : w.used token = true) (i : ι) : ∃ cs : Calls,
      Prog.Path (handle env libs (redisClient libs.json) (.refreshToken host token)) cs
        (.ret (Error.unauthorized "Invalid refresh token").errorResponse) ∧
      (faultless s).Trace w (cs.map (Event.call i) : Events ι) (w.killFamily record.family) ∧
      Lost token cs ∧ recordRead libs.json cs = some record := by
  have hrevoke := (@alone_revokeGroup (faultless s).call w _ _ (hw.family_isSet record.family) _ _).mpr ⟨rfl, rfl⟩
  obtain ⟨cs, hpath, ht⟩ := System.Trace.of_eval (S := faultless s) hrevoke i
  have hne : w.db.fields w.now (refreshKey token) ≠ [] := by
    intro h
    rw [World.used, h] at hu
    cases hu
  refine ⟨_, path_reuse hh hne hr hpath, .call (call_hgetAll hw) (.call (call_hsetNx_used hw hu) ht), ?_, ?_⟩
  · exact List.mem_cons_of_mem _ List.mem_cons_self
  · exact findSome_append (recordRead_snoc (h := []) (fun _ => ⟨rfl, rfl⟩) hr) (_ :: cs)


theorem recordRead_exchangeCalls (cs : Calls) :
    recordRead echoLibs.json (exchangeCalls cs) = some ⟨"user", ["api"], uuidC⟩ := by
  have hf : RedisClient.recordOfFields echoLibs.json firstRecord = some ⟨"user", ["api"], uuidC⟩ :=
    recordOfFields_of apiText_parse
  exact findSome_append (recordRead_snoc (h := []) (fun _ => ⟨rfl, rfl⟩) hf) (_ :: _)

/-- An exchange that is answered with a pair reads no index. -/
theorem no_zrange_exchangeCalls {p : M (Except JwtError (String × String))} {cs : Calls}
    (hp : Prog.Path (JwtManager.exchange bareEnv echoLibs (redisClient echoLibs.json) "host"
      ⟨"user", ["api"], uuidC⟩) cs p) : ∀ c ∈ exchangeCalls cs, ∀ g, c.eff ≠ .redis (.zrange g) := by
  intro c hc g he
  simp only [exchangeCalls, List.cons_append, List.nil_append, List.mem_cons, List.mem_append,
    List.not_mem_nil, or_false] at hc
  rcases hc with rfl | rfl | hc | rfl
  · cases he
  · cases he
  · have hissuing := issuing_issuePair.path hp c hc
    rw [he] at hissuing
    exact hissuing
  · cases he

/-- A pair is exchanged, and its refresh token is presented again. -/
theorem family_over_reuser : ∃ (tr : Events Presenter) (P : Pool svc World Presenter HttpResponse)
    (access id : String), (service ⟨300000, 10000, 10000⟩).RunWhere (FamilyLasts uuidC) []
      (start bareEnv echoLibs (fun _ => admitted) exchanges) tr P ∧ Lost uuidB (callsOf .reuser tr) ∧
    P.prog .reuser = .ret (Error.unauthorized "Invalid refresh token").errorResponse ∧
    P.prog .first = .ret ⟨200, .token access (some id)⟩ ∧
    (∀ c, JwtManager.claimsSegmentOf echoLibs access = .ok c → ∀ issuer audience b w',
      Alone (faultless ⟨300000, 10000, 10000⟩).call (c.isVerify (redisClient echoLibs.json) issuer audience)
        P.st b w' → b = false) ∧
    ∀ issuer r w', Alone (faultless ⟨300000, 10000, 10000⟩).call
      (JwtManager.refreshTokenPair bareEnv echoLibs (redisClient echoLibs.json) id issuer) P.st r w' →
        r = .error .notValid := by
  let s : JwkService := ⟨300000, 10000, 10000⟩
  obtain ⟨access, x₁, w₁, cs, hc₁, hpath, ht, hs₁, hnow, hdrawn, -, hget⟩ := echo_issued s Presenter.issuer
  obtain ⟨access₂, x₂, w₂, cs₁, hc₂, hpath₁, ht₁, hs₂, hnow₂, -, -, hget₂⟩ :=
    @echo_exchanged _ s w₁ hs₁ hnow hdrawn hget Presenter.first
  obtain ⟨hrec, hused⟩ := echo_usedRecord hget₂
  obtain ⟨cs₂, hpath₂, ht₂, hlost, hread⟩ :=
    @trace_reuse _ s bareEnv echoLibs (.text "host") "host" uuidB w₂ _ hs₂ rfl hrec hused Presenter.reuser
  let tr : Events Presenter := cs.map (.call .issuer) ++ (exchangeCalls cs₁).map (.call .first) ++
    cs₂.map (.call .reuser)
  let P : Pool svc World Presenter HttpResponse := ⟨w₂.killFamily uuidC, fun
    | .issuer => .ret ⟨200, .token access (some uuidB)⟩
    | .first => .ret ⟨200, .token access₂ (some uuidE)⟩
    | .reuser => .ret (Error.unauthorized "Invalid refresh token").errorResponse
    | i => serve bareEnv echoLibs (redisClient echoLibs.json) admitted (exchanges i)⟩
  have htrace : (service s).Trace World.empty tr P.st :=
    ((ht.trans ht₁).trans ht₂).mono faultless_service fun _ _ _ h => h
  have hissuer : callsOf .issuer tr = cs := by
    simp only [tr, callsOf_append, callsOf_map, reduceCtorEq, if_true, if_false, List.append_nil]
  have hfirst : callsOf .first tr = exchangeCalls cs₁ := by
    simp only [tr, callsOf_append, callsOf_map, reduceCtorEq, if_true, if_false, List.nil_append, List.append_nil]
  have hreuser : callsOf .reuser tr = cs₂ := by
    simp only [tr, callsOf_append, callsOf_map, reduceCtorEq, if_true, if_false, List.nil_append]
  have hlate : callsOf .late tr = [] := by
    simp only [tr, callsOf_append, callsOf_map, reduceCtorEq, if_false, List.append_nil]
  have hexchange := path_exchangeCalls hpath₁
  have hrecord : familyOf echoLibs.json (exchanges .first) (exchangeCalls cs₁) = some uuidC :=
    congrArg (Option.map RefreshRecord.family) (recordRead_exchangeCalls cs₁)
  have hrun : (service s).Run (start bareEnv echoLibs (fun _ => admitted) exchanges) tr P := by
    refine htrace.run fun i => ?_
    cases i with
    | issuer => exact hissuer ▸ hpath
    | first => exact hfirst ▸ hexchange
    | reuser => exact hreuser ▸ hpath₂
    | late => exact hlate ▸ .nil _
  have hkilled : Killed echoLibs uuidB _ (callsOf .reuser tr) :=
    Prog.Path.wp_ret (hrun.path .reuser) (serve_killed admitted (.text "host") uuidB)
  have hapart : ∀ x ∈ callsOf .reuser tr, Apart x.eff := (hkilled (hreuser ▸ hlost)).1
  -- The index lasts.
  have hlasting : ∀ i, ∀ x ∈ callsOf i tr, Lasting uuidC x.eff := by
    intro i x hx
    cases i with
    | issuer =>
      obtain ⟨f, c, rexp, hc, he⟩ := Prog.Path.wp_ret (hrun.path .issuer)
        (@serve_enrolled bareEnv echoLibs uuidC admitted (exchanges .issuer) [⟨.newUuid, uuidC⟩] rfl) _ _ rfl
      cases hc₁.symm.trans hc
      exact he.lasting echo_faithful hrun hnow₂ (show 0 < asI64 (0 / 1000 + 60) by decide) hx
    | first =>
      obtain ⟨f, c, rexp, hc, he⟩ := Prog.Path.wp_ret (hrun.path .first)
        (@serve_enrolled bareEnv echoLibs uuidC admitted (exchanges .first) (exchangeCalls cs₁) hrecord) _ _ rfl
      cases hc₂.symm.trans hc
      exact he.lasting echo_faithful hrun hnow₂ (show 0 < asI64 (0 / 1000 + 3600) by decide) hx
    | reuser => exact lasting_of_apart echo_faithful hrun hnow₂ hx (hapart x hx)
    | late =>
      rw [hlate] at hx
      cases hx
  have hlasts : (service s).RunWhere (FamilyLasts uuidC) [] (start bareEnv echoLibs (fun _ => admitted) exchanges)
      tr P := by
    refine familyLasts_of_lasting hrun fun ev hev => ?_
    cases ev with
    | call i x => exact ⟨i, x, rfl, hlasting i x (mem_callsOf.mpr hev)⟩
    | env d => simp [tr] at hev
  have hsettled : FamilySettled uuidC .reuser tr := by
    refine familySettled_of_last (fun i ms hm => ?_) fun i m score r hm => ?_
    · rcases List.mem_append.mp hm with hm | hm
      · obtain ⟨x, hx, he⟩ := List.mem_map.mp hm
        cases he
        exact issuing_createToken.path hpath _ hx
      · obtain ⟨x, hx, he⟩ := List.mem_map.mp hm
        cases he
        exact no_zrange_exchangeCalls hpath₁ _ hx _ rfl
    · obtain ⟨x, hx, he⟩ := List.mem_map.mp hm
      cases he
      exact (hapart _ (hreuser ▸ hx)).not_zadd _ _ _ rfl
  have hover := family_over (d := .reuser) (i := .first) echo_faithful (fun k h => by cases k <;> cases h) hlasts
    rfl (hreuser ▸ hlost) rfl rfl (hreuser ▸ congrArg (Option.map RefreshRecord.family) hread) hsettled rfl
    (hfirst ▸ hrecord)
  exact ⟨tr, P, access₂, uuidE, hlasts, hreuser ▸ hlost, rfl, rfl, hover⟩

/-- The exchange has set the mark when the reuse ends the family, and then issues
its pair: the access token passes verification, and the refresh token can be
exchanged. -/
theorem pair_outlives_family : ∃ (tr : Events Presenter) (P : Pool svc World Presenter HttpResponse)
    (access : String) (c : TokenClaims) (pair : String × String) (w₁ w₂ : World),
    (faultless ⟨300000, 10000, 10000⟩).Run (start bareEnv echoLibs (fun _ => admitted) exchanges) tr P ∧
    (∀ i, ¬ InFlight (callsOf i tr) (P.prog i)) ∧ Lost uuidB (callsOf .reuser tr) ∧
    P.prog .reuser = .ret (Error.unauthorized "Invalid refresh token").errorResponse ∧
    familyOf echoLibs.json (exchanges .reuser) (callsOf .reuser tr) = some uuidC ∧
    P.prog .first = .ret ⟨200, .token access (some uuidE)⟩ ∧
    familyOf echoLibs.json (exchanges .first) (callsOf .first tr) = some uuidC ∧
    JwtManager.claimsSegmentOf echoLibs access = .ok c ∧
    Alone (faultless ⟨300000, 10000, 10000⟩).call (c.isVerify (redisClient echoLibs.json) "host" "api") P.st true w₁ ∧
    Alone (faultless ⟨300000, 10000, 10000⟩).call
      (JwtManager.refreshTokenPair bareEnv echoLibs (redisClient echoLibs.json) uuidE "host") P.st (.ok pair) w₂ := by
  let s : JwkService := ⟨300000, 10000, 10000⟩
  obtain ⟨access, -, w₁, cs, -, hpath, ht, hs₁, hnow, hdrawn, hdb, hget⟩ := echo_issued s Presenter.issuer
  obtain ⟨-, hunused⟩ := echo_record hget
  have hs₂ : (w₁.markUsed uuidB).Sound := hs₁.mark ⟨by decide, by rw [hdrawn]; decide⟩
  obtain ⟨hrec, hused⟩ := @echo_usedRecord (w₁.markUsed uuidB) _ _ _ _ (get_markUsed hget)
  obtain ⟨cs₂, hpath₂, ht₂, hlost, hread⟩ :=
    @trace_reuse _ s bareEnv echoLibs (.text "host") "host" uuidB _ _ hs₂ rfl hrec hused Presenter.reuser
  let w₃ := (w₁.markUsed uuidB).killFamily uuidC
  have hs₃ : w₃.Sound := hs₂.delAll _
  obtain ⟨access₃, x, w₄, cs₃, hc, hpath₃, ht₃, hs₄, hnow₄, hdrawn₄, hdb₄⟩ :=
    @echo_markedExchange _ s w₃ hs₃ hnow hdrawn Presenter.first
  let tr : Events Presenter := cs.map (.call .issuer) ++
    ([⟨.redis (.hgetAll (refreshKey uuidB)), .ok firstRecord⟩,
      ⟨.redis (.hsetNx (refreshKey uuidB) "used" "1"), .ok true⟩].map (.call .first) ++
      (cs₂.map (.call .reuser) ++ (cs₃ ++ [⟨.metric .tokenIssued, ()⟩] : Calls).map (.call .first)))
  let P : Pool svc World Presenter HttpResponse := ⟨w₄, fun
    | .issuer => .ret ⟨200, .token access (some uuidB)⟩
    | .first => .ret ⟨200, .token access₃ (some uuidE)⟩
    | .reuser => .ret (Error.unauthorized "Invalid refresh token").errorResponse
    | i => serve bareEnv echoLibs (redisClient echoLibs.json) admitted (exchanges i)⟩
  have htrace : (faultless s).Trace World.empty tr w₄ :=
    ht.trans (.call (call_read hs₁ hget) (.call (call_hsetNx hs₁ hunused) (ht₂.trans ht₃)))
  have hissuer : callsOf .issuer tr = cs := by
    simp only [tr, callsOf_append, callsOf_map, reduceCtorEq, if_true, if_false, List.append_nil]
  have hfirst : callsOf .first tr = exchangeCalls cs₃ := by
    simp only [tr, callsOf_append, callsOf_map, reduceCtorEq, if_true, if_false, List.nil_append]
    rfl
  have hreuser : callsOf .reuser tr = cs₂ := by
    simp only [tr, callsOf_append, callsOf_map, reduceCtorEq, if_true, if_false, List.nil_append, List.append_nil]
  have hlate : callsOf .late tr = [] := by
    simp only [tr, callsOf_append, callsOf_map, reduceCtorEq, if_false, List.append_nil]
  have hexchange := path_exchangeCalls hpath₃
  have hrun : (faultless s).Run (start bareEnv echoLibs (fun _ => admitted) exchanges) tr P := by
    refine htrace.run fun i => ?_
    cases i with
    | issuer => exact hissuer ▸ hpath
    | first => exact hfirst ▸ hexchange
    | reuser => exact hreuser ▸ hpath₂
    | late => exact hlate ▸ .nil _
  have hflight : ∀ i, ¬ InFlight (callsOf i tr) (P.prog i) := by
    intro i
    cases i with
    | late => exact fun h => h.1 hlate
    | _ => exact not_inFlight_of_ret rfl
  -- The new pair is there.
  have hkey : (w₄.db.get w₄.now uuidD).isSome = true := by
    rw [hnow₄, hdb₄]
    rfl
  have hget₄ : w₄.db.get w₄.now (refreshKey uuidE) =
      some ⟨.hash (recordFields ⟨"user", ["api"], uuidC⟩ apiText), some (0 + 1000 * 2592000)⟩ :=
    Db.get_eq_some.mpr ⟨by rw [hdb₄]; exact pairDb_refresh, by rw [hnow₄]; rfl⟩
  obtain ⟨hrec₄, hunused₄⟩ := echo_record hget₄
  obtain ⟨access₅, -, w₅, -, hagain, -⟩ := @echo_exchange s w₄ hs₄ uuidE uuidC uuidF uuidG "user" hrec₄ hunused₄
    ⟨by decide, by rw [hdrawn₄]; decide⟩ ⟨by decide, by rw [World.draw_drawn, hdrawn₄]; decide⟩
    (by rw [hnow₄]; decide)
  have hvalid : (newClaims "host" "user" ["api"] 0 3600 uuidD x).Valid "host" "api" w₄.now := by
    rw [hnow₄]
    exact newClaims_valid List.mem_cons_self (Nat.le_refl 0) (by decide) (by decide)
  have hverify : Alone (faultless s).call ((newClaims "host" "user" ["api"] 0 3600 uuidD x).isVerify
      (redisClient echoLibs.json) "host" "api") w₄ true w₄ := by
    refine (alone_isVerify _ _).mpr ⟨?_, rfl⟩
    rw [decide_eq_true hvalid, Bool.true_and]
    exact hkey.symm
  exact ⟨tr, P, access₃, _, _, w₄, w₅, hrun, hflight, hreuser ▸ hlost, rfl,
    hreuser ▸ congrArg (Option.map RefreshRecord.family) hread, rfl,
    hfirst ▸ congrArg (Option.map RefreshRecord.family) (recordRead_exchangeCalls cs₃), hc, hverify, hagain⟩

end JwtService

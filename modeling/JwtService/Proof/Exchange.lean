import JwtService.Proof.Coherent
import JwtService.Proof.Issuing
import JwtService.Redis.Hash

/-!
# What pairs and exchanges do

The rest of a request that hands out a pair of tokens, run alone: the access
token is registered in the group of its family, a refresh token is stored
and registered there too. An exchange first reads the record of the refresh
token and marks it; a record that was marked before costs the family its
members.

`Sound` is what a request that runs alone needs of the store, and keeps.
-/

namespace JwtService

open Interaction Redis

/-! ## Sound worlds -/

/-- The UUID of the credential was drawn. -/
def World.Knows (w : World) (c : Credential) : Prop :=
  Text.isUuid c.uuid = true ∧ c.uuid ∈ w.drawn

/-- Each key of the store holds what it may, and is about a UUID that was
drawn. -/
def World.Sound (w : World) : Prop := Db.Shape w.Knows w.db

theorem Coherent.sound {ι : Type} [DecidableEq ι] {h : Events ι} {w : World} (hc : Coherent h w) :
    w.Sound :=
  fun k e he => (hc.shape k e he).mono fun _ hs => ⟨hs.1, hs.2.1⟩

/-- A sound world is coherent when no request has made a call. -/
theorem World.Sound.coherent {ι : Type} [DecidableEq ι] {w : World} (hw : w.Sound) :
    Coherent ([] : Events ι) w :=
  ⟨fun k e he => (hw k e he).mono fun _ hs => ⟨hs.1, hs.2, fun _ hd => nomatch hd⟩, nofun, nofun,
    nofun⟩

/-- The calls of a request that runs alone, as events. -/
def solo (cs : Calls) : Events Unit := cs.map (.call ())

theorem callsOf_solo (cs : Calls) : callsOf () (solo cs) = cs := callsOf_map_self () cs

theorem sound_empty : World.empty.Sound := nofun

namespace World.Sound

variable {w w' : World} {S : Prog.Sem svc World} [Orderly S] {α : Type}

theorem subject_isSet (hw : w.Sound) (sub : String) : w.db.IsSet w.now (subjectGroup sub) :=
  fun e he => by
    obtain ⟨ms, hv, -⟩ := (Db.Shape.get hw he).subject_inv
    exact ⟨ms, hv⟩

theorem family_isSet (hw : w.Sound) (f : String) : w.db.IsSet w.now (familyGroup f) :=
  fun e he => by
    obtain ⟨ms, hv, -⟩ := (Db.Shape.get hw he).family_inv
    exact ⟨ms, hv⟩

theorem refresh_isHash (hw : w.Sound) (id : String) : w.db.IsHash w.now (refreshKey id) :=
  fun e he => by
    obtain ⟨fs, hv, -⟩ := (Db.Shape.get hw he).refresh_inv
    exact ⟨fs, hv⟩

/-- There is nothing about a refresh token whose id was not drawn. -/
theorem refresh_absent (hw : w.Sound) {id : String} (hid : id ∉ w.drawn) :
    w.db (refreshKey id) = none := by
  cases he : w.db (refreshKey id) with
  | none => rfl
  | some e =>
    obtain ⟨fs, -, hs⟩ := (hw _ e he).refresh_inv
    exact absurd hs.2 hid

theorem same (hw : w.Sound) (hs : SameStore w w') : w'.Sound := by
  intro k e he
  rw [hs.db] at he
  exact (hw k e he).mono fun c hc => ⟨hc.1, hs.drawn ▸ hc.2⟩

omit [Orderly S] in
/-- A disciplined program that runs alone keeps the world sound, also where its
calls fail. -/
theorem eval (hS : ∀ w e r w', S w e r w' → ∃ s, (service s).call w e r w') (hw : w.Sound) {p : M α}
    {Q : Calls → α → Prop} (hp : Prog.wp Disciplined [] p Q) {a : α} (h : Alone S p w a w') :
    w'.Sound ∧ ∃ cs, Q cs a := by
  have hstep : ∀ (cs : List (Call svc)) (w₁ : World) (e : svc.Eff) (r : svc.Reply e) (w₂ : World),
      Coherent (solo cs) w₁ → Disciplined cs e → S w₁ e r w₂ →
        Coherent (solo (cs ++ [⟨e, r⟩])) w₂ := by
    intro cs w₁ e r w₂ hc hd hs
    obtain ⟨s, hs⟩ := hS _ _ _ _ hs
    have hsolo : solo (cs ++ [⟨e, r⟩]) = solo cs ++ [.call () ⟨e, r⟩] := List.map_append
    rw [hsolo]
    exact hc.step (by rw [callsOf_solo]; exact hd) hs
  have hc : Coherent (solo []) w := hw.coherent
  obtain ⟨cs, hc, hq⟩ := Prog.Eval.inv (I := fun cs w => Coherent (solo cs) w) hstep hp hc h
  exact ⟨hc.sound, cs, hq⟩

/-- A disciplined program that runs alone keeps the world sound. -/
theorem alone (hw : w.Sound) {p : M α} {Q : Calls → α → Prop} (hp : Prog.wp Disciplined [] p Q)
    {a : α} (h : Alone S p w a w') : w'.Sound ∧ ∃ cs, Q cs a :=
  hw.eval (fun _ _ _ _ => Orderly.service) hp h

end World.Sound

/-! ## Frames -/

section Within

variable {S : Prog.Sem svc World} [Orderly S] {w w' : World} {α : Type} {K : String → Prop}

/-- The program writes keys of `K` only. -/
abbrev Within (K : String → Prop) (p : M α) : Prop :=
  @Prog.Only svc α (fun e => ∀ c, e = .redis c → ∀ k ∈ c.writes, K k) p

theorem Quiet.within {p : M α} (hp : Quiet p) : Within K p :=
  Prog.Only.mono (fun e he c hc => by subst hc; cases he) hp

theorem within_run {c : Cmd} (h : ∀ k ∈ c.writes, K k) : Within K (RedisClient.run c) :=
  Prog.only_mapError (p := call (.redis c)) ⟨fun _ he => by cases he; exact h, fun _ => trivial⟩

theorem within_callE {ε : Type} {e : Eff} (h : ∀ c, e ≠ .redis c) :
    @Within (Except ε e.Reply) K (callE e) :=
  ⟨fun c hc => absurd hc (h c), fun _ => trivial⟩

theorem within_orStoreError {p : M (Except JtiError α)} (h : Within K p) :
    Within K (orStoreError p) :=
  Prog.only_mapError h

/-- The keys a program does not write are as before. -/
structure Frame (K : String → Prop) (w w' : World) : Prop where
  db : ∀ k, ¬ K k → w'.db k = w.db k
  now : w'.now = w.now
  drawn : ∀ u ∈ w.drawn, u ∈ w'.drawn

theorem Frame.refl (w : World) : Frame K w w := ⟨fun _ _ => rfl, rfl, fun _ h => h⟩

theorem Frame.trans {w₁ : World} (h₁ : Frame K w w₁) (h₂ : Frame K w₁ w') : Frame K w w' :=
  ⟨fun k hk => (h₂.db k hk).trans (h₁.db k hk), h₂.now.trans h₁.now,
    fun u hu => h₂.drawn u (h₁.drawn u hu)⟩

theorem SameStore.frame (h : SameStore w w') : Frame K w w' :=
  ⟨fun _ _ => by rw [h.db], h.now, fun u hu => h.drawn ▸ hu⟩

theorem alone_within {p : M α} (hp : Within K p) {a : α} (h : Alone S p w a w') :
    Frame K w w' := by
  refine Prog.Only.keeps (I := Frame K w) hp (fun w₁ e r w₂ he hc hf => ?_) h (.refl w)
  refine hf.trans ?_
  cases hq : e.quiet with
  | true =>
    obtain ⟨s, hs⟩ := Orderly.service hc
    obtain ⟨h₁, h₂, h₃⟩ := call_quiet hq hs
    exact SameStore.frame ⟨h₁, h₂, h₃⟩
  | false =>
    cases e with
    | redis c =>
      obtain ⟨-, rfl⟩ := Orderly.redis.mp hc
      exact ⟨fun k hk => exec_of_not_writes fun hw => hk (he c rfl k hw), rfl, fun _ h => h⟩
    | newUuid =>
      obtain ⟨-, rfl⟩ := Orderly.newUuid.mp hc
      exact ⟨fun _ _ => rfl, rfl, fun _ h => List.mem_cons_of_mem _ h⟩
    | _ => cases hq

end Within

/-! ## Families -/

section Family

variable {S : Prog.Sem svc World} [Orderly S] {w w' : World} {env : Env} {libs : Libs}

/-- The keys of families: their groups and the refresh records. -/
def FamilyKey (k : String) : Prop := (∃ f, k = familyGroup f) ∨ ∃ id, k = refreshKey id

theorem not_familyKey_uuid {k : String} (hu : Text.isUuid k = true) : ¬ FamilyKey k := by
  rintro (⟨f, rfl⟩ | ⟨id, rfl⟩)
  · rw [not_uuid_family] at hu
    cases hu
  · rw [not_uuid_refresh] at hu
    cases hu

theorem not_familyKey_subject (sub : String) : ¬ FamilyKey (subjectGroup sub) := by
  rintro (⟨f, h⟩ | ⟨id, h⟩)
  · exact subject_ne_family sub f h
  · exact subject_ne_refresh sub id h

theorem within_addToGroup (g m : String) (score : Int) :
    Within (fun k => k = g) (RedisClient.addToGroup g m score) :=
  Prog.only_tryBind (within_run fun _ hk => List.mem_singleton.mp hk) fun _ =>
    within_run fun _ hk => List.mem_singleton.mp hk

theorem within_addToFamily (family m : String) (score : Int) :
    Within FamilyKey (RedisClient.addToGroup (familyGroup family) m score) :=
  (within_addToGroup _ m score).mono fun _ he c hc k hk => .inl ⟨family, he c hc k hk⟩

theorem within_registerAccess (access family : String) :
    Within FamilyKey
      (JwtManager.registerAccessInFamily libs (redisClient libs.json) access family) :=
  Prog.only_tryBind (Prog.only_ofExcept _) fun _ => within_orStoreError (within_addToFamily _ _ _)

theorem within_storeRefresh (t : JsonText) (id : String) (record : RefreshRecord) (ttl : Nat) :
    Within FamilyKey (RedisClient.storeRefresh t id record ttl) := by
  unfold RedisClient.storeRefresh
  split
  · trivial
  · refine Prog.only_tryBind (within_run ?_) fun _ => within_run ?_
    all_goals
      intro k hk
      rw [List.mem_singleton.mp hk]
      exact .inr ⟨id, rfl⟩

theorem within_issueRefresh (t : JsonText) (subject : String) (audience : List String)
    (family : String) :
    Within FamilyKey (JwtManager.issueRefresh env (redisClient t) subject audience family) := by
  refine Prog.only_tryBind (within_callE nofun) fun id => ?_
  refine Prog.only_tryBind (within_orStoreError (within_storeRefresh t id _ _)) fun _ => ?_
  refine Prog.only_tryBind (within_callE nofun) fun now => ?_
  exact Prog.only_tryBind (within_orStoreError (within_addToFamily _ _ _)) fun _ =>
    Prog.only_pure_ok _

/-- The store with a new refresh token, issued at `now` for `ttl` seconds. -/
def refreshDb (db : Db) (now : Nat) (id : String) (record : RefreshRecord) (audience : String)
    (ttl : Nat) : Db :=
  (db.put (refreshKey id) (some ⟨.hash [("sub", record.subject), ("aud", audience),
    ("family", record.family)], some (now + 1000 * ttl)⟩)).register now (familyGroup record.family)
      (refreshKey id) (now / 1000 + ttl : Nat)

/-- The lifetime of a refresh token. -/
def refreshTtl (env : Env) : Nat := env.u64 "REFRESH_TOKEN_TTL_SECONDS" 2592000

/-- A refresh token can be issued: its audience can be written down, and its
lifetime is one the clocks can add. -/
structure Refreshable (env : Env) (t : JsonText) (audience : List String) (now : Nat)
    (text : String) : Prop where
  print : t.print (.arr (audience.map .str)) = some text
  positive : 0 < refreshTtl env
  bounded : ((now + 1000 * refreshTtl env : Nat) : Int) ≤ maxTime

/-- Issuing a refresh token that can be issued. -/
theorem alone_issueRefresh {t : JsonText} {subject family text : String} {audience : List String}
    (h : Refreshable env t audience w.now text) (hf : w.db.IsSet w.now (familyGroup family))
    (hn : ∀ id, w.Fresh id → w.db.get w.now (refreshKey id) = none) (r : Except JwtError String)
    (w' : World) :
    Alone S (JwtManager.issueRefresh env (redisClient t) subject audience family) w r w' ↔
      ∃ id, w.Fresh id ∧ r = .ok id ∧ w' = (w.draw id).setDb
        (refreshDb w.db w.now id ⟨subject, audience, family⟩ text (refreshTtl env)) := by
  obtain ⟨hp, h₀, hm⟩ := h
  have hmax : maxTime = 9223372036854775807 := rfl
  have hi : asI64 (refreshTtl env) = refreshTtl env := asI64_of_lt (by omega)
  rw [JwtManager.issueRefresh, show env.u64 "REFRESH_TOKEN_TTL_SECONDS" 2592000 = refreshTtl env from rfl]
  simp only []
  rw [alone_newUuid_bind]
  refine exists_congr fun id => and_congr_right fun hid => ?_
  let fs := [("sub", subject), ("aud", text), ("family", family)]
  let db₁ := w.db.put (refreshKey id) (some ⟨.hash fs, some (w.now + 1000 * refreshTtl env)⟩)
  have hset : exec w.now w.db (.hset (refreshKey id) fs) =
      (.ok (), w.db.put (refreshKey id) (some ⟨.hash fs, none⟩)) := exec_hset_of_none (hn id hid)
  have hexpire : exec w.now (w.db.put (refreshKey id) (some ⟨.hash fs, none⟩))
      (.expire (refreshKey id) (refreshTtl env)) = (.ok (), db₁) := exec_expire h₀ (by omega)
  have hstore : ∀ r w', Alone S ((redisClient t).storeRefresh id ⟨subject, audience, family⟩
      (refreshTtl env)) (w.draw id) r w' ↔ r = .ok () ∧ w' = (w.draw id).setDb db₁ := by
    intro r w'
    show Alone S (RedisClient.storeRefresh t id _ _) _ _ _ ↔ _
    rw [RedisClient.storeRefresh, hp, hi]
    simp only []
    rw [alone_bind_of (alone_run_ok (w := w.draw id) hset)]
    exact alone_run_ok (w := (w.draw id).setDb _) hexpire r w'
  -- The group is still a set, and the moments are as `issueRefresh` computes them.
  have hf₁ : db₁.IsSet w.now (familyGroup family) :=
    hf.congr (Db.put_ne (family_ne_refresh family id) _)
  have hexp : asI64 (asUsize ((timestamp w.now : Nat) + (refreshTtl env : Nat) : Int)) =
      (w.now / 1000 + refreshTtl env : Nat) := by
    rw [show ((timestamp w.now : Nat) + (refreshTtl env : Nat) : Int) =
      ((w.now / 1000 + refreshTtl env : Nat) : Int) from rfl, asUsize_of_lt (by omega)]
    exact asI64_of_lt (by omega)
  have hadd : ∀ r w', Alone S ((redisClient t).addToGroup (familyGroup family) (refreshKey id)
      (w.now / 1000 + refreshTtl env : Nat)) ((w.draw id).setDb db₁) r w' ↔ r = .ok () ∧
        w' = (w.draw id).setDb (refreshDb w.db w.now id ⟨subject, audience, family⟩ text
          (refreshTtl env)) :=
    alone_addToGroup hf₁ (by rw [World.setDb_now, World.draw_now]; omega) (by omega)
  rw [alone_bind_of (alone_orStoreError_ok hstore), alone_utcNow_bind, World.setDb_now,
    World.draw_now, hi, hexp, alone_bind_of (alone_orStoreError_ok hadd)]
  exact Iff.rfl

/-- A refresh token is issued only if its audience can be written down, and
Redis takes its lifetime, or the lifetime is negative as an `i64`. -/
theorem alone_issueRefresh_ok {t : JsonText} {subject family id : String} {audience : List String}
    (hn : ∀ id, w.Fresh id → w.db.get w.now (refreshKey id) = none)
    (h : Alone S (JwtManager.issueRefresh env (redisClient t) subject audience family) w (.ok id) w') :
    w.Fresh id ∧ ∃ text, t.print (.arr (audience.map .str)) = some text ∧
      (w.now + 1000 * asI64 (refreshTtl env) : Int) ≤ maxTime := by
  rw [JwtManager.issueRefresh, alone_newUuid_bind] at h
  obtain ⟨u, hu, h⟩ := h
  rcases alone_bind.mp h with ⟨_, w₁, hstore, h⟩ | ⟨e, -, he⟩
  swap
  · cases he
  have hid : id = u := by
    rw [alone_utcNow_bind] at h
    rcases alone_bind.mp h with ⟨_, w₂, -, h⟩ | ⟨e, -, he⟩
    · exact Except.ok.inj h.1
    · cases he
  rw [hid]
  obtain ⟨x, hx, he⟩ := alone_orStoreError.mp hstore
  rcases x with x | x
  · cases he
  replace hx : Alone S (RedisClient.storeRefresh t u ⟨subject, audience, family⟩ (refreshTtl env))
    (w.draw u) (.ok x) w₁ := hx
  rw [RedisClient.storeRefresh] at hx
  cases hp : t.print (.arr (audience.map .str)) with
  | none =>
    rw [hp] at hx
    cases hx.1
  | some text =>
    rw [hp] at hx
    refine ⟨hu, text, rfl, ?_⟩
    have hset := @exec_hset_of_none _ _ _ [("sub", subject), ("aud", text), ("family", family)] (hn u hu)
    rw [alone_bind_of (alone_run_ok (w := w.draw u) hset), alone_run] at hx
    -- Redis refuses an expiry it cannot keep.
    by_contra hlt
    have hgt : maxTime < (w.now + 1000 * asI64 (refreshTtl env) : Int) := by omega
    have hexp : ∀ db, exec w.now db (.expire (refreshKey u) (asI64 (refreshTtl env))) =
        (.error .invalidExpire, db) := fun db => if_pos (.inr hgt)
    rw [World.setDb_now, World.draw_now, hexp] at hx
    cases hx.1

theorem refreshTtl_lt (env : Env) : refreshTtl env < 2 ^ 64 := by
  show ((env "REFRESH_TOKEN_TTL_SECONDS").bind Text.parseU64).getD 2592000 < _
  cases h : (env "REFRESH_TOKEN_TTL_SECONDS").bind Text.parseU64 with
  | none => exact (by decide : 2592000 < 2 ^ 64)
  | some n =>
    obtain ⟨raw, -, hn⟩ := Option.bind_eq_some_iff.mp h
    exact Text.parseU64_lt hn

/-- A refresh token whose lifetime is negative as an `i64` is not there when
it is handed out: setting its expiry deleted it. -/
theorem alone_issueRefresh_void {t : JsonText} {subject family id : String} {audience : List String}
    (hneg : 2 ^ 63 ≤ refreshTtl env) (hn : ∀ id, w.Fresh id → w.db.get w.now (refreshKey id) = none)
    (h : Alone S (JwtManager.issueRefresh env (redisClient t) subject audience family) w (.ok id) w')
    {x : String} (hx : w.db.get w.now (refreshKey x) = none) :
    w'.db.get w.now (refreshKey x) = none := by
  rw [JwtManager.issueRefresh, alone_newUuid_bind] at h
  obtain ⟨u, hu, h⟩ := h
  rcases alone_bind.mp h with ⟨_, w₁, hstore, h⟩ | ⟨e, -, he⟩
  swap
  · cases he
  have hgone : w₁.now = w.now ∧ w₁.db.get w.now (refreshKey x) = none := by
    obtain ⟨y, hy, he⟩ := alone_orStoreError.mp hstore
    rcases y with y | y
    · cases he
    replace hy : Alone S (RedisClient.storeRefresh t u ⟨subject, audience, family⟩ (refreshTtl env))
      (w.draw u) (.ok y) w₁ := hy
    rw [RedisClient.storeRefresh] at hy
    cases hp : t.print (.arr (audience.map .str)) with
    | none =>
      rw [hp] at hy
      cases hy.1
    | some text =>
      rw [hp] at hy
      have hset := @exec_hset_of_none _ _ _ [("sub", subject), ("aud", text), ("family", family)] (hn u hu)
      rw [alone_bind_of (alone_run_ok (w := w.draw u) hset), alone_run] at hy
      obtain ⟨hok, rfl⟩ := hy
      have hlt := refreshTtl_lt env
      have hi : asI64 (refreshTtl env) = refreshTtl env - 2 ^ 64 := if_neg (by omega)
      refine ⟨rfl, ?_⟩
      rw [World.setDb_now, World.draw_now, World.setDb_db] at hok
      rcases @exec_expire_past w.db w.now (refreshKey u) _ (.hash [("sub", subject), ("aud", text),
        ("family", family)]) (show asI64 (refreshTtl env) < 0 by omega) with he | he
      · rw [he] at hok
        cases hok
      show (exec w.now _ _).2.get w.now _ = none
      rw [World.setDb_db, he]
      by_cases hxu : x = u
      · rw [hxu, Db.get_put_none]
      · rw [Db.get_put_ne fun e => hxu (refreshKey_inj e)]
        exact hx
  rw [alone_utcNow_bind] at h
  rcases alone_bind.mp h with ⟨_, w₂, hadd, h⟩ | ⟨e, -, he⟩
  swap
  · cases he
  have hf := alone_within (within_orStoreError (within_addToGroup _ _ _)) hadd
  rw [h.2, Db.get_congr (hf.db _ fun e => family_ne_refresh _ _ e.symm)]
  exact hgone.2

end Family

/-! ## Pairs -/

/-- An error of the store is `storeError`. -/
theorem orStoreError_error {α : Type} (p : M (Except JtiError α)) (h : Calls) :
    Prog.wp (fun _ _ => True) h (orStoreError p) fun _ r => ∀ e, r = .error e → e = .storeError := by
  rw [orStoreError, Prog.wp_mapError]
  refine Prog.wp_of_path fun cs a _ => ?_
  cases a with
  | ok a => simp
  | error e => exact fun e' he => by cases he; rfl

section Pair

variable {S : Prog.Sem svc World} [Orderly S] {w w' : World} {env : Env} {libs : Libs}
  {issuer subject : String} {audience : List String} {ttl : Option Nat} {extra : List (String × Json)}
  {family access : String}

theorem fromBase64_error {t : JsonText} {segment : String} {e : JwtError}
    (h : TokenClaims.fromBase64 t segment = .error e) : e = .broken := by
  unfold TokenClaims.fromBase64 at h
  repeat' split at h
  all_goals cases h <;> rfl

theorem registerAccess_error (h : Calls) :
    Prog.wp (fun _ _ => True) h
      (JwtManager.registerAccessInFamily libs (redisClient libs.json) access family)
      fun _ r => ∀ e, r = .error e → e = .broken ∨ e = .storeError := by
  rw [JwtManager.registerAccessInFamily, Prog.wp_tryBind, Prog.wp_ofExcept]
  cases hc : JwtManager.claimsSegmentOf libs access with
  | ok c => exact Prog.wp_imp (orStoreError_error _ h) fun _ _ hr e he => .inr (hr e he)
  | error e =>
    intro e' he
    cases he
    unfold JwtManager.claimsSegmentOf at hc
    split at hc
    · cases hc
      exact .inl rfl
    · exact .inl (fromBase64_error hc)

theorem issueRefresh_error (t : JsonText) (h : Calls) :
    Prog.wp (fun _ _ => True) h
      (JwtManager.issueRefresh env (redisClient t) subject audience family)
      fun _ r => ∀ e, r = .error e → e = .storeError := by
  simp only [JwtManager.issueRefresh, Prog.wp_tryBind, wp_callE]
  refine ⟨trivial, fun id => ?_⟩
  refine Prog.wp_imp (orStoreError_error _ _) fun h₁ r₁ he => ?_
  cases r₁ with
  | error e => exact fun e' h' => by cases h'; exact he _ rfl
  | ok _ =>
    refine ⟨trivial, fun now => ?_⟩
    refine Prog.wp_imp (orStoreError_error _ _) fun h₂ r₂ he => ?_
    cases r₂ with
    | error e => exact fun e' h' => by cases h'; exact he _ rfl
    | ok _ => simp

/-- Issuing a pair fails before the access token is stored, or it stores the
access token and goes on with keys of families only. -/
theorem alone_issuePair_inv (hg : w.db.IsSet w.now (subjectGroup subject))
    {r : Except JwtError (String × String)}
    (h : Alone S (issuePair env libs issuer subject audience ttl extra family) w r w') :
    (∃ e w₁, r = .error e ∧ e ≠ .notValid ∧ SameStore w w₁ ∧
      (w' = w₁ ∨ ∃ u, w.Fresh u ∧ w' = w₁.draw u)) ∨
    ∃ seconds u jwk key w₁, Issuable env libs.json audience ttl extra w.now seconds ∧ w.Fresh u ∧
      Alone S (KeyManager.getPrivateKey libs.ssl (JwtManager.algorithm env)) w (.ok (jwk, key)) w₁ ∧
      SameStore w w₁ ∧
      Frame FamilyKey ((w₁.draw u).setDb (issueDb w.db w.now subject u seconds)) w' ∧
      ((∃ e, r = .error e ∧ e ≠ .notValid ∧ e ≠ .unprocessableEntity) ∨
        ∃ access refresh, r = .ok (access, refresh) ∧
          signed env libs jwk key (newClaims issuer subject audience w.now seconds u extra) =
            .ok access) := by
  rw [issuePair, alone_bind] at h
  rcases h with ⟨access, w₂, ha, h⟩ | ⟨e, ha, rfl⟩
  swap
  · rcases alone_generateToken_inv hg ha with ⟨e', w₁, he, hne, hs, hw⟩ |
      ⟨seconds, u, jwk, key, w₁, hi, hu, hk, hs, hr, rfl⟩
    · cases he
      exact .inl ⟨_, w₁, rfl, hne, hs, hw⟩
    · refine .inr ⟨seconds, u, jwk, key, w₁, hi, hu, hk, hs, .refl _, .inl ⟨e, rfl, ?_⟩⟩
      rcases signed_error hr.symm with rfl | rfl
      · exact ⟨by simp, by simp⟩
      · exact ⟨by simp, by simp⟩
  rcases alone_generateToken_inv hg ha with ⟨e', w₁, he, -⟩ |
    ⟨seconds, u, jwk, key, w₁, hi, hu, hk, hs, hr, rfl⟩
  · cases he
  refine .inr ⟨seconds, u, jwk, key, w₁, hi, hu, hk, hs, ?_⟩
  rw [alone_bind] at h
  rcases h with ⟨_, w₃, hreg, h⟩ | ⟨e, hreg, rfl⟩
  swap
  · refine ⟨alone_within (within_registerAccess _ _) hreg, .inl ⟨e, rfl, ?_⟩⟩
    rcases hreg.post (registerAccess_error _) e rfl with rfl | rfl
    · exact ⟨by simp, by simp⟩
    · exact ⟨by simp, by simp⟩
  have hf := alone_within (within_registerAccess _ _) hreg
  rw [alone_bind] at h
  rcases h with ⟨id, w₄, href, h⟩ | ⟨e, href, rfl⟩
  swap
  · refine ⟨hf.trans (alone_within (within_issueRefresh _ _ _ _) href), .inl ⟨e, rfl, ?_⟩⟩
    rw [href.post (issueRefresh_error _ _) e rfl]
    exact ⟨by simp, by simp⟩
  obtain ⟨rfl, rfl⟩ := h
  exact ⟨hf.trans (alone_within (within_issueRefresh _ _ _ _) href),
    .inr ⟨access, id, rfl, hr.symm⟩⟩

/-- Registering an access token in the group of its family. -/
theorem alone_registerAccess {c : TokenClaims} (hc : JwtManager.claimsSegmentOf libs access = .ok c)
    (hf : w.db.IsSet w.now (familyGroup family)) (hn : w.now < 1000 * c.exp)
    (hm : c.exp ≤ maxSeconds) (r : Except JwtError Unit) (w' : World) :
    Alone S (JwtManager.registerAccessInFamily libs (redisClient libs.json) access family) w r w' ↔
      r = .ok () ∧ w' = w.setDb (w.db.register w.now (familyGroup family) c.jti c.exp) := by
  simp only [maxSeconds] at hm
  have hmax : maxTime = 9223372036854775807 := rfl
  have hadd : ∀ r w', Alone S ((redisClient libs.json).addToGroup (familyGroup family) c.jti c.exp) w
      r w' ↔ r = .ok () ∧ w' = w.setDb (w.db.register w.now (familyGroup family) c.jti c.exp) :=
    alone_addToGroup hf (by omega) (by omega)
  rw [JwtManager.registerAccessInFamily, hc, alone_bind_of (fun _ _ => alone_ofExcept),
    asI64_of_lt (by omega)]
  exact alone_orStoreError_ok hadd r w'

/-- The store with a new access token of a family. -/
def accessDb (db : Db) (now : Nat) (subject u : String) (seconds : Nat) (family : String) : Db :=
  (issueDb db now subject u seconds).register now (familyGroup family) u (now / 1000 + seconds : Nat)

/-- The store with a new pair of a family. -/
def pairDb (db : Db) (now : Nat) (u : String) (seconds : Nat) (id : String) (record : RefreshRecord)
    (text : String) (ttl : Nat) : Db :=
  refreshDb (accessDb db now record.subject u seconds record.family) now id record text ttl

/-- The fields of a refresh record. -/
def recordFields (record : RefreshRecord) (text : String) : List (String × String) :=
  [("sub", record.subject), ("aud", text), ("family", record.family)]

/-- The record of a new refresh token. -/
theorem pairDb_refresh {db : Db} {now seconds ttl : Nat} {u id text : String}
    {record : RefreshRecord} : pairDb db now u seconds id record text ttl (refreshKey id) =
      some ⟨.hash (recordFields record text), some (now + 1000 * ttl)⟩ := by
  rw [pairDb, refreshDb, Db.register_ne (family_ne_refresh _ _).symm, Db.put, Function.update_self]
  rfl

theorem recordOfFields_of {t : JsonText} {record : RefreshRecord} {text : String}
    (h : (t.parse text).bind Json.asStrs = some record.audience) :
    RedisClient.recordOfFields t (recordFields record text) = some record := by
  show ((t.parse text).bind Json.asStrs >>= fun audience =>
    some (RefreshRecord.mk record.subject audience record.family)) = _
  rw [h]
  rfl

theorem family_ne_uuid {u : String} (hu : Text.isUuid u = true) (family : String) :
    familyGroup family ≠ u := fun h => by
  rw [← h, not_uuid_family] at hu
  cases hu

theorem refresh_ne_uuid {u : String} (hu : Text.isUuid u = true) (id : String) :
    refreshKey id ≠ u := fun h => by
  rw [← h, not_uuid_refresh] at hu
  cases hu

/-- A new access token of a family changes its key and two groups. -/
theorem accessDb_ne {db : Db} {now seconds : Nat} {u k : String} (hk : k ≠ u)
    (hs : k ≠ subjectGroup subject) (hf : k ≠ familyGroup family) :
    accessDb db now subject u seconds family k = db k :=
  (Db.register_ne hf).trans (issueDb_ne hk hs)

/-- A new pair changes two keys and two groups. -/
theorem pairDb_ne {db : Db} {now seconds ttl : Nat} {u id text k : String} {record : RefreshRecord}
    (hk : k ≠ u) (hid : k ≠ refreshKey id) (hs : k ≠ subjectGroup record.subject)
    (hf : k ≠ familyGroup record.family) :
    pairDb db now u seconds id record text ttl k = db k := by
  rw [pairDb, refreshDb, Db.register_ne hf, Db.put_ne hid]
  exact accessDb_ne hk hs hf

/-- The group of a family with a new pair: it expires with the refresh token. -/
theorem pairDb_group {db : Db} {now now' seconds ttl : Nat} {u id text : String}
    {record : RefreshRecord} (hu : Text.isUuid u = true) (h₀ : 0 < seconds)
    (h : now' < 1000 * (now / 1000 + ttl)) :
    (pairDb db now u seconds id record text ttl).get now' (familyGroup record.family) =
      some ⟨.zset (zinsert (refreshKey id) (now / 1000 + ttl : Nat)
        (zinsert u (now / 1000 + seconds : Nat) (db.members now (familyGroup record.family)))),
        some (1000 * (now / 1000 + ttl))⟩ := by
  have hissue : (issueDb db now record.subject u seconds).members now (familyGroup record.family) =
      db.members now (familyGroup record.family) :=
    Db.members_congr (issueDb_ne (family_ne_uuid hu _) (subject_ne_family _ _).symm)
  have haccess : (accessDb db now record.subject u seconds record.family).members now
      (familyGroup record.family) = zinsert u (now / 1000 + seconds : Nat)
        (db.members now (familyGroup record.family)) := by
    rw [accessDb, Db.members_of_get (Db.get_register (by omega)), hissue]
  rw [pairDb, refreshDb, Db.get_register (by omega),
    Db.members_congr (Db.put_ne (family_ne_refresh _ _) _), haccess]
  congr 2

/-- The world after an access token of a family was stored, where the refresh
token is issued. -/
structure Registered (w wB : World) (u family : String) : Prop where
  now : wB.now = w.now
  isSet : wB.db.IsSet wB.now (familyGroup family)
  fresh : ∀ x, wB.Fresh x ↔ (w.draw u).Fresh x
  absent : ∀ x, wB.Fresh x → wB.db.get wB.now (refreshKey x) = none

theorem registered_of {u : String} {seconds : Nat} {w₁ : World} (hw : w.Sound) (hs : SameStore w w₁)
    (hu : w.Fresh u) (h₀ : 0 < seconds) :
    Registered w ((w₁.draw u).setDb (accessDb w.db w.now subject u seconds family)) u family where
  now := hs.now
  isSet := fun e hg => by
    have hnow : ((w₁.draw u).setDb (accessDb w.db w.now subject u seconds family)).now = w.now := hs.now
    rw [hnow, World.setDb_db, accessDb, Db.get_register (by omega)] at hg
    cases hg
    exact ⟨_, rfl⟩
  fresh := fun x => by
    show Text.isUuid x = true ∧ x ∉ u :: w₁.drawn ↔ _
    rw [hs.drawn]
    rfl
  absent := fun x hx => by
    have hx' : x ∉ w.drawn := fun h => hx.2 (List.mem_cons_of_mem _ (hs.drawn ▸ h))
    have hdb : accessDb w.db w.now subject u seconds family (refreshKey x) = w.db (refreshKey x) :=
      accessDb_ne (refresh_ne_uuid hu.1 x) (subject_ne_refresh _ _).symm (family_ne_refresh _ _).symm
    rw [World.setDb_db, Db.get, hdb, hw.refresh_absent hx']
    rfl

/-- Issuing a pair, once its access token was signed: it is registered. -/
theorem alone_register_bind {α : Type} {u : String} {seconds : Nat} {c : TokenClaims} {w₁ : World}
    (hw : w.Sound) (hs : SameStore w w₁) (hu : w.Fresh u)
    (hc : JwtManager.claimsSegmentOf libs access = .ok c) (hj : c.jti = u)
    (he : c.exp = w.now / 1000 + seconds) (h₀ : 0 < seconds) (hm : w.now / 1000 + seconds ≤ maxSeconds)
    (f : Unit → ExceptT JwtError M α) (r : Except JwtError α) (w' : World) :
    Alone S (JwtManager.registerAccessInFamily libs (redisClient libs.json) access family >>= f :
      ExceptT JwtError M α) ((w₁.draw u).setDb (issueDb w.db w.now subject u seconds)) r w' ↔
    Alone S (f ()) ((w₁.draw u).setDb (accessDb w.db w.now subject u seconds family)) r w' := by
  have hf : (issueDb w.db w.now subject u seconds).IsSet w.now (familyGroup family) :=
    (hw.family_isSet family).congr (issueDb_ne (family_ne_uuid hu.1 _) (subject_ne_family _ _).symm)
  let wA := (w₁.draw u).setDb (issueDb w.db w.now subject u seconds)
  have hA : wA.now = w.now := hs.now
  have hreg := @alone_registerAccess S _ wA libs family access c hc (by rw [hA]; exact hf)
    (by rw [hA, he]; omega) (by rw [he]; exact hm)
  rw [alone_bind_of hreg, hj, he, hA]
  exact Iff.rfl

/-- A signed token carries the claims it was made from. -/
theorem signed_claims (ht : libs.json.Faithful) {jwk : JwkData} {key : libs.ssl.PrivateKey}
    {seconds : Nat} {u : String} {now : Nat}
    (hi : Issuable env libs.json audience ttl extra now seconds)
    (hs : signed env libs jwk key (newClaims issuer subject audience now seconds u extra) = .ok access) :
    ∃ x, JwtManager.claimsSegmentOf libs access =
      .ok (newClaims issuer subject audience now seconds u x) := by
  have hm := hi.bounded
  simp only [maxSeconds] at hm
  obtain ⟨c, hc, he⟩ := claimsSegmentOf_toString ht (validateCustomClaims_ok hi.claims)
    (show now / 1000 + seconds < 2 ^ 64 by omega) (show now / 1000 < 2 ^ 64 by omega)
    (show now / 1000 < 2 ^ 64 by omega) hs
  exact ⟨c.extra, by rw [hc, he]; rfl⟩

/-- A pair that is issued. -/
structure PairIssued (S : Prog.Sem svc World) (env : Env) (libs : Libs) (issuer subject : String)
    (audience : List String) (ttl : Option Nat) (extra : List (String × Json)) (w w₁ : World)
    (access id u text : String) (seconds : Nat) (jwk : JwkData) (key : libs.ssl.PrivateKey) : Prop where
  issuable : Issuable env libs.json audience ttl extra w.now seconds
  fresh : w.Fresh u
  freshId : (w.draw u).Fresh id
  signer : Alone S (KeyManager.getPrivateKey libs.ssl (JwtManager.algorithm env)) w (.ok (jwk, key)) w₁
  signed : signed env libs jwk key (newClaims issuer subject audience w.now seconds u extra) = .ok access
  print : libs.json.print (.arr (audience.map .str)) = some text

/-- A pair that can be issued is issued. -/
theorem alone_issuePair (ht : libs.json.Faithful) (hw : w.Sound) {w₁ : World} {id u text : String}
    {seconds : Nat} {jwk : JwkData} {key : libs.ssl.PrivateKey}
    (hp : PairIssued S env libs issuer subject audience ttl extra w w₁ access id u text seconds jwk key)
    (hr : Refreshable env libs.json audience w.now text) :
    Alone S (issuePair env libs issuer subject audience ttl extra family) w (.ok (access, id))
      (((w₁.draw u).draw id).setDb
        (pairDb w.db w.now u seconds id ⟨subject, audience, family⟩ text (refreshTtl env))) := by
  have hs := alone_quiet (KeyManager.quiet_getPrivateKey libs.ssl _) hp.signer
  have hgen := @alone_generateToken S _ w env libs issuer subject audience ttl extra seconds u jwk key
    w₁ hp.issuable (hw.subject_isSet subject) hp.fresh hp.signer
  rw [hp.signed] at hgen
  obtain ⟨x, hc⟩ := signed_claims ht hp.issuable hp.signed
  have hreg := @registered_of w subject family u seconds w₁ hw hs hp.fresh hp.issuable.positive
  refine alone_bind.mpr (.inl ⟨access, _, hgen, ?_⟩)
  rw [alone_register_bind hw hs hp.fresh hc rfl rfl hp.issuable.positive hp.issuable.bounded]
  refine alone_bind.mpr (.inl ⟨id, _, ?_, rfl, rfl⟩)
  refine (alone_issueRefresh (by rw [hreg.now]; exact hr) hreg.isSet hreg.absent _ _).mpr
    ⟨id, (hreg.fresh id).mpr hp.freshId, rfl, ?_⟩
  rw [hreg.now]
  rfl

/-- A pair that was issued. Where the lifetime of refresh tokens is negative as
an `i64`, there is no new record. -/
theorem alone_issuePair_ok (ht : libs.json.Faithful) (hw : w.Sound) {id : String}
    (h : Alone S (issuePair env libs issuer subject audience ttl extra family) w (.ok (access, id)) w') :
    ∃ w₁ u text seconds jwk key, SameStore w w₁ ∧
      PairIssued S env libs issuer subject audience ttl extra w w₁ access id u text seconds jwk key ∧
      Frame FamilyKey ((w₁.draw u).setDb (issueDb w.db w.now subject u seconds)) w' ∧
      (0 < refreshTtl env → refreshTtl env < 2 ^ 63 →
        Refreshable env libs.json audience w.now text ∧ w' = ((w₁.draw u).draw id).setDb
          (pairDb w.db w.now u seconds id ⟨subject, audience, family⟩ text (refreshTtl env))) ∧
      (2 ^ 63 ≤ refreshTtl env → ∀ x, w.db.get w.now (refreshKey x) = none →
        w'.db.get w.now (refreshKey x) = none) := by
  rcases alone_bind.mp h with ⟨a, wA, ha, h⟩ | ⟨e, -, he⟩
  swap
  · cases he
  rcases alone_generateToken_inv (hw.subject_isSet subject) ha with ⟨_, _, he, -⟩ |
    ⟨seconds, u, jwk, key, w₁, hi, hu, hk, hs, hsig, hwA⟩
  · cases he
  rw [hwA] at h
  have hrest : Within FamilyKey (do
      JwtManager.registerAccessInFamily libs (redisClient libs.json) a family
      let refresh ← JwtManager.issueRefresh env (redisClient libs.json) subject audience family
      pure (a, refresh) : ExceptT JwtError M (String × String)) :=
    Prog.only_tryBind (within_registerAccess _ _) fun _ =>
      Prog.only_tryBind (within_issueRefresh _ _ _ _) fun _ => Prog.only_pure_ok _
  have hframe := alone_within hrest h
  obtain ⟨x, hc⟩ := signed_claims ht hi hsig.symm
  have hreg := @registered_of w subject family u seconds w₁ hw hs hu hi.positive
  rw [alone_register_bind hw hs hu hc rfl rfl hi.positive hi.bounded] at h
  rcases alone_bind.mp h with ⟨id', w₂, hid, h⟩ | ⟨e, -, he⟩
  swap
  · cases he
  obtain ⟨hret, hw₂⟩ := h
  cases hret
  obtain ⟨hfr, text, hp, hb⟩ := alone_issueRefresh_ok hreg.absent hid
  refine ⟨w₁, u, text, seconds, jwk, key, hs,
    ⟨hi, hu, (hreg.fresh _).mp hfr, hk, hsig.symm, hp⟩, hframe, fun h₀ hlt => ?_, fun hneg x hx => ?_⟩
  swap
  · have hvoid := @alone_issueRefresh_void S _ _ _ env _ _ _ _ _ hneg hreg.absent hid x
    rw [hreg.now, World.setDb_db, Db.get_congr (accessDb_ne (refresh_ne_uuid hu.1 x)
      (subject_ne_refresh _ _).symm (family_ne_refresh _ _).symm)] at hvoid
    rw [hw₂]
    exact hvoid hx
  rw [asI64_of_lt hlt] at hb
  have hr : Refreshable env libs.json audience w.now text :=
    ⟨hp, h₀, by rw [hreg.now] at hb; omega⟩
  obtain ⟨x, -, he, hw₃⟩ := (alone_issueRefresh (by rw [hreg.now]; exact hr) hreg.isSet hreg.absent
    _ _).mp hid
  cases he
  refine ⟨hr, hw₂.trans (hw₃.trans ?_)⟩
  rw [hreg.now]
  rfl

end Pair

/-! ## Exchanges -/

/-- The record of a refresh token, where it is there. -/
def World.record (w : World) (t : JsonText) (token : String) : Option RefreshRecord :=
  RedisClient.recordOfFields t (w.db.fields w.now (refreshKey token))

/-- Whether a refresh token was exchanged. -/
def World.used (w : World) (token : String) : Bool :=
  "used" ∈ (w.db.fields w.now (refreshKey token)).map Prod.fst

def World.markUsed (w : World) (token : String) : World :=
  w.setDb (w.db.mark w.now (refreshKey token) "used" "1")

def World.killFamily (w : World) (family : String) : World :=
  w.setDb (w.db.delAll
    (familyGroup family :: w.db.listed w.now (familyGroup family) (timestamp w.now)))

section Refresh

variable {S : Prog.Sem svc World} [Orderly S] {w w' : World} {env : Env} {libs : Libs}
  {token issuer : String}

theorem recordOfFields_nil (t : JsonText) : RedisClient.recordOfFields t [] = none := rfl

/-- An exchange alone: a token without a record is refused, a used one costs
its family, and an unused one is marked and exchanged. -/
theorem alone_refreshTokenPair (hw : w.Sound) (r : Except JwtError (String × String)) (w' : World) :
    Alone S (JwtManager.refreshTokenPair env libs (redisClient libs.json) token issuer) w r w' ↔
      match w.record libs.json token with
      | none => r = .error .notValid ∧ w' = w
      | some record =>
        if w.used token then r = .error .notValid ∧ w' = w.killFamily record.family
        else Alone S (JwtManager.exchange env libs (redisClient libs.json) issuer record)
          (w.markUsed token) r w' := by
  have hash := hw.refresh_isHash token
  have hget : ∀ r w', Alone S ((redisClient libs.json).getRefresh token) w r w' ↔
      r = .ok (w.record libs.json token) ∧ w' = w := by
    intro r w'
    show Alone S (RedisClient.getRefresh libs.json token) w r w' ↔ _
    rw [RedisClient.getRefresh, alone_bind_of (alone_run_ok (exec_hgetAll hash)), World.record]
    split
    · rename_i hf
      rw [hf, recordOfFields_nil]
      exact Iff.rfl
    · exact Iff.rfl
  rw [JwtManager.refreshTokenPair, alone_bind_of (alone_orStoreError_ok hget)]
  cases w.record libs.json token with
  | none => exact Iff.rfl
  | some record =>
    have hx := @exec_hsetNx _ _ _ "used" "1" hash
    have hmark : ∀ r w', Alone S ((redisClient libs.json).markRefreshUsed token) w r w' ↔
        r = .ok (!w.used token) ∧ w' = if w.used token then w else w.markUsed token := by
      intro r w'
      refine (@alone_run_ok S w _ (.hsetNx (refreshKey token) "used" "1") (!w.used token)
        (if w.used token then w else w.markUsed token).db ?_ r w').trans ?_
      · rw [hx, World.used]
        by_cases hu : "used" ∈ (w.db.fields w.now (refreshKey token)).map Prod.fst
        · simp only [hu, if_true, decide_true, Bool.not_true]
        · simp only [hu, if_false, decide_false, Bool.not_false]
          rfl
      · split <;> rfl
    show Alone S (orStoreError ((redisClient libs.json).markRefreshUsed token) >>= _ :
      ExceptT JwtError M (String × String)) w r w' ↔ _
    rw [alone_bind_of (alone_orStoreError_ok hmark)]
    cases w.used token with
    | true =>
      have hkill : ∀ r w', Alone S ((redisClient libs.json).revokeGroup (familyGroup record.family)) w r
          w' ↔ r = .ok (w.db.listed w.now (familyGroup record.family) (timestamp w.now)).length ∧
            w' = w.killFamily record.family := alone_revokeGroup (hw.family_isSet record.family)
      show Alone S (orStoreError ((redisClient libs.json).revokeGroup (familyGroup record.family)) >>= _ :
        ExceptT JwtError M (String × String)) w r w' ↔ _
      rw [alone_bind_of (alone_orStoreError_ok hkill)]
      exact Iff.rfl
    | false => exact Iff.rfl

/-- The mark of a token whose id was drawn keeps the world sound. -/
theorem World.Sound.mark (hw : w.Sound) (hk : w.Knows (.refresh token)) : (w.markUsed token).Sound :=
  Db.Shape.put hw fun _ he => by cases he; exact .refresh hk

/-- A record is that of a token whose id was drawn. -/
theorem World.Sound.markUsed (hw : w.Sound) {record : RefreshRecord}
    (hr : w.record libs.json token = some record) : (w.markUsed token).Sound := by
  cases hg : w.db.get w.now (refreshKey token) with
  | none =>
    rw [World.record, Db.fields_of_none hg, recordOfFields_nil] at hr
    cases hr
  | some e =>
    obtain ⟨fs, -, hs⟩ := (Db.Shape.get hw hg).refresh_inv
    exact hw.mark hs

/-- The two store calls of an exchange, one by one. -/
theorem call_hgetAll (hw : w.Sound) : S w (.redis (.hgetAll (refreshKey token)))
    (.ok (w.db.fields w.now (refreshKey token))) w := by
  refine Orderly.redis.mpr ?_
  rw [exec_hgetAll (hw.refresh_isHash token)]
  exact ⟨rfl, rfl⟩

theorem call_hsetNx (hw : w.Sound) (hu : w.used token = false) :
    S w (.redis (.hsetNx (refreshKey token) "used" "1")) (.ok true) (w.markUsed token) := by
  refine Orderly.redis.mpr ?_
  rw [exec_hsetNx (hw.refresh_isHash token), if_neg (of_decide_eq_false hu)]
  exact ⟨rfl, rfl⟩

theorem call_hsetNx_used (hw : w.Sound) (hu : w.used token = true) :
    S w (.redis (.hsetNx (refreshKey token) "used" "1")) (.ok false) w := by
  refine Orderly.redis.mpr ?_
  rw [exec_hsetNx (hw.refresh_isHash token), if_pos (of_decide_eq_true hu)]
  exact ⟨rfl, rfl⟩

end Refresh

end JwtService

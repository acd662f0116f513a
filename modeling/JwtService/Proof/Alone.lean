import JwtService.Model.Token
import JwtService.Proof.Names
import JwtService.Proof.Rules
import JwtService.Redis.Group

/-!
# Requests that run alone

`Alone s p w r w'`: the program `p` runs from the world `w` with no other
request beside it, no time passing and no failing Redis command, returns `r`
and leaves `w'`. The rules here say so for the calls and for the operations
of the store: which answer each gives, and what it makes of the database.
-/

namespace JwtService

open Interaction Redis

/-- The program returns `r` in the world `w'`, run alone from `w`. -/
abbrev Alone {α : Type} (S : Prog.Sem svc World) (p : M α) (w : World) (r : α) (w' : World) : Prop :=
  @Prog.Eval svc α World S p w r w'

/-- The world with another database. -/
def World.setDb (w : World) (db : Db) : World := { w with db := db }

namespace World

variable (w : World) (db db' : Db)

@[simp] theorem setDb_db : (w.setDb db).db = db := rfl
@[simp] theorem setDb_now : (w.setDb db).now = w.now := rfl
@[simp] theorem setDb_drawn : (w.setDb db).drawn = w.drawn := rfl
@[simp] theorem setDb_keyId : (w.setDb db).keyId = w.keyId := rfl
@[simp] theorem setDb_self : w.setDb w.db = w := rfl
@[simp] theorem setDb_cache : (w.setDb db).cache = w.cache := rfl
@[simp] theorem setDb_lock : (w.setDb db).refreshLock = w.refreshLock := rfl
@[simp] theorem setDb_setDb : (w.setDb db).setDb db' = w.setDb db' := rfl

/-- The world after a UUID was drawn. -/
def draw (u : String) : World := { w with drawn := u :: w.drawn }

variable (u : String)

@[simp] theorem draw_db : (w.draw u).db = w.db := rfl
@[simp] theorem draw_now : (w.draw u).now = w.now := rfl
@[simp] theorem draw_drawn : (w.draw u).drawn = u :: w.drawn := rfl
@[simp] theorem draw_keyId : (w.draw u).keyId = w.keyId := rfl
@[simp] theorem draw_cache : (w.draw u).cache = w.cache := rfl
@[simp] theorem draw_lock : (w.draw u).refreshLock = w.refreshLock := rfl

/-- A UUID that can be drawn. -/
def Fresh (u : String) : Prop := Text.isUuid u = true ∧ u ∉ w.drawn

end World

/-- A semantics of the calls without faults: what the store, the clock and
the UUIDs answer is fixed, while the key service may answer anything. -/
class Orderly (S : Prog.Sem svc World) : Prop where
  service : ∀ {w e r w'}, S w e r w' → ∃ s, (service s).call w e r w'
  redis : ∀ {w} {c : Cmd} {r : Except Redis.Err c.Reply} {w'}, S w (.redis c) r w' ↔
    r = (exec w.now w.db c).1 ∧ w' = w.setDb (exec w.now w.db c).2
  utcNow : ∀ {w r w'}, S w .utcNow r w' ↔ r = w.now ∧ w' = w
  newUuid : ∀ {w u w'}, S w .newUuid u w' ↔ w.Fresh u ∧ w' = w.draw u
  metric : ∀ {w m r w'}, S w (.metric m) r w' ↔ w' = w
  readKeyId : ∀ {w id w'}, S w .readKeyId id w' ↔ id = w.keyId ∧ w' = w
  writeKeyId : ∀ {w id r w'}, S w (.writeKeyId id) r w' ↔ w' = { w with keyId := id }

/-- A call that has one outcome, which only the choice `plain` gives. -/
theorem faultless_plain {s : JwkService} {e : Eff} {v : e.Reply} {w x : World}
    (h : ∀ c, w.act s e c = if c matches .plain then some (v, x) else none) {r : e.Reply}
    {w' : World} : (faultless s).call w e r w' ↔ r = v ∧ w' = x := by
  constructor
  · rintro ⟨c, -, hc⟩
    rw [h] at hc
    simp only [Option.ite_none_right_eq_some, Option.some.injEq, Prod.mk.injEq] at hc
    exact ⟨hc.2.1.symm, hc.2.2.symm⟩
  · rintro ⟨rfl, rfl⟩
    exact ⟨.plain, rfl, h .plain⟩

theorem faultless_service {s : JwkService} (w : World) (e : Eff) (r : e.Reply) (w' : World)
    (h : (faultless s).call w e r w') : (service s).call w e r w' := by
  obtain ⟨c, -, h⟩ := h
  exact ⟨c, h⟩

instance (s : JwkService) : Orderly (faultless s).call where
  service := fun ⟨c, _, h⟩ => ⟨s, c, h⟩
  redis := by
    intro w c r w'
    constructor
    · rintro ⟨ch, hf, h⟩
      cases ch with
      | redis o =>
        cases o with
        | answered =>
          simp only [World.act, Option.some.injEq, Prod.mk.injEq] at h
          exact ⟨h.1.symm, h.2.symm⟩
        | _ => cases hf
      | _ => cases h
    · rintro ⟨rfl, rfl⟩
      exact ⟨.redis .answered, rfl, rfl⟩
  utcNow := faultless_plain fun c => by cases c <;> rfl
  newUuid := by
    intro w u w'
    constructor
    · rintro ⟨c, -, h⟩
      obtain ⟨h₁, h₂, h₃⟩ := call_newUuid ⟨c, h⟩
      exact ⟨⟨h₁, h₂⟩, h₃⟩
    · rintro ⟨h, rfl⟩
      exact ⟨.uuid u, rfl, if_pos h⟩
  metric := fun {w m r w'} =>
    (faultless_plain (v := ()) (x := w) fun c => by cases c <;> rfl).trans
      ⟨And.right, fun h => ⟨rfl, h⟩⟩
  readKeyId := faultless_plain fun c => by cases c <;> rfl
  writeKeyId := fun {w id r w'} =>
    (faultless_plain (v := ()) (x := { w with keyId := id }) fun c => by cases c <;> rfl).trans
      ⟨And.right, fun h => ⟨rfl, h⟩⟩

variable {S : Prog.Sem svc World} {w w' : World} {α β ε : Type}

/-! ## Programs -/

theorem alone_callE {e : Eff} {r : Except ε e.Reply} :
    @Alone (no_index (Except ε e.Reply)) S (callE e) w r w' ↔
      ∃ v, S w e v w' ∧ r = .ok v :=
  Prog.eval_performE

/-- A sequence goes on after a value and stops at an error. -/
theorem alone_bind {p : ExceptT ε M α} {f : α → ExceptT ε M β} {r : Except ε β} :
    Alone S (p >>= f : ExceptT ε M β) w r w' ↔
      (∃ a w₁, Alone S p w (.ok a) w₁ ∧ Alone S (f a) w₁ r w') ∨
        ∃ e, Alone S p w (.error e) w' ∧ r = .error e :=
  Prog.eval_tryBind

theorem alone_ofExcept {x r : Except ε α} :
    Alone S (Prog.ofExcept x : ExceptT ε M α) w r w' ↔ r = x ∧ w' = w := Iff.rfl

/-- A handler that works for the issuer of its host. -/
theorem alone_forIssuer {a : Except Error String} {p : String → M β}
    {k : β → ExceptT Error M α} {x : Except Error α}
    (h : Alone S (do let issuer ← Prog.ofExcept a; let y ← Prog.liftE (p issuer); k y :
      ExceptT Error M α) w x w') :
    (∃ issuer y w₁, Alone S (p issuer) w y w₁ ∧ Alone S (k y) w₁ x w') ∨
      ∃ e, x = .error e ∧ w' = w := by
  rcases alone_bind.mp h with ⟨issuer, w₀, h₀, h₁⟩ | ⟨e, h₀, hx⟩
  · obtain ⟨-, rfl⟩ := alone_ofExcept.mp h₀
    rcases alone_bind.mp h₁ with ⟨r, w₁, hr, h₂⟩ | ⟨e, he, -⟩
    · obtain ⟨y, hy, he⟩ := Prog.eval_liftE.mp hr
      cases he
      exact .inl ⟨issuer, r, w₁, hy, h₂⟩
    · obtain ⟨_, -, he⟩ := Prog.eval_liftE.mp he
      cases he
  · exact .inr ⟨e, hx, (alone_ofExcept.mp h₀).2⟩

/-- A program with one outcome, a value, and what comes after it. -/
theorem alone_bind_of {p : ExceptT ε M α} {f : α → ExceptT ε M β} {a : α} {w₁ : World}
    {r : Except ε β} (h : ∀ x w₂, Alone S p w x w₂ ↔ x = .ok a ∧ w₂ = w₁) :
    Alone S (p >>= f : ExceptT ε M β) w r w' ↔ Alone S (f a) w₁ r w' := by
  rw [alone_bind]
  constructor
  · rintro (⟨b, w₂, hb, hf⟩ | ⟨e, he, -⟩)
    · obtain ⟨hb, rfl⟩ := (h _ _).mp hb
      cases hb
      exact hf
    · obtain ⟨he, -⟩ := (h _ _).mp he
      cases he
  · intro hf
    exact .inl ⟨a, w₁, (h _ _).mpr ⟨rfl, rfl⟩, hf⟩

theorem alone_callE_bind {e : Eff} {f : e.Reply → ExceptT ε M β} {r : Except ε β} :
    Alone S (callE e >>= f : ExceptT ε M β) w r w' ↔
      ∃ v w₁, S w e v w₁ ∧ Alone S (f v) w₁ r w' := by
  rw [alone_bind]
  simp only [alone_callE]
  constructor
  · rintro (⟨a, w₁, ⟨v, hv, ha⟩, hf⟩ | ⟨e, ⟨_, -, he⟩, -⟩)
    · cases ha
      exact ⟨_, w₁, hv, hf⟩
    · cases he
  · rintro ⟨v, w₁, hv, hf⟩
    exact .inl ⟨v, w₁, ⟨v, hv, rfl⟩, hf⟩

theorem alone_orStoreError {p : M (Except JtiError α)} {r : Except JwtError α} :
    Alone S (orStoreError p) w r w' ↔
      ∃ x, Alone S p w x w' ∧ r = x.mapError fun _ => .storeError :=
  Prog.eval_mapError

theorem alone_orStoreError_ok {p : M (Except JtiError α)} {a : α} {w₁ : World}
    (h : ∀ x w₂, Alone S p w x w₂ ↔ x = .ok a ∧ w₂ = w₁) (r : Except JwtError α) (w' : World) :
    Alone S (orStoreError p) w r w' ↔ r = .ok a ∧ w' = w₁ := by
  rw [alone_orStoreError]
  constructor
  · rintro ⟨x, hx, rfl⟩
    obtain ⟨rfl, rfl⟩ := (h _ _).mp hx
    exact ⟨rfl, rfl⟩
  · rintro ⟨rfl, rfl⟩
    exact ⟨_, (h _ _).mpr ⟨rfl, rfl⟩, rfl⟩

theorem alone_liftE_ok {p : M α} {a : α} {w₁ : World}
    (h : ∀ x w₂, Alone S p w x w₂ ↔ x = a ∧ w₂ = w₁) (r : Except ε α) (w' : World) :
    Alone S (Prog.liftE p : ExceptT ε M α) w r w' ↔ r = .ok a ∧ w' = w₁ := by
  refine Prog.eval_liftE.trans ?_
  constructor
  · rintro ⟨x, hx, rfl⟩
    obtain ⟨rfl, rfl⟩ := (h _ _).mp hx
    exact ⟨rfl, rfl⟩
  · rintro ⟨rfl, rfl⟩
    exact ⟨_, (h _ _).mpr ⟨rfl, rfl⟩, rfl⟩

variable [Orderly S]

theorem alone_run {c : Cmd} {r : Except JtiError c.Reply} :
    @Alone (no_index (Except JtiError c.Reply)) S (RedisClient.run c) w r w' ↔
      r = (exec w.now w.db c).1.mapError classify ∧
        w' = w.setDb (exec w.now w.db c).2 := by
  refine Prog.eval_mapError.trans ?_
  constructor
  · rintro ⟨x, ⟨v, w₁, h, rfl, rfl⟩, rfl⟩
    obtain ⟨rfl, rfl⟩ := Orderly.redis.mp h
    exact ⟨rfl, rfl⟩
  · rintro ⟨rfl, rfl⟩
    exact ⟨_, ⟨_, _, Orderly.redis.mpr ⟨rfl, rfl⟩, rfl, rfl⟩, rfl⟩

/-- Reading the clock. -/
theorem alone_utcNow_bind {f : Nat → ExceptT ε M β} {r : Except ε β} :
    Alone S (callE .utcNow >>= f : ExceptT ε M β) w r w' ↔ Alone S (f w.now) w r w' := by
  rw [alone_callE_bind]
  simp only [Orderly.utcNow]
  constructor
  · rintro ⟨v, w₁, ⟨rfl, rfl⟩, h⟩
    exact h
  · intro h
    exact ⟨_, _, ⟨rfl, rfl⟩, h⟩

/-- Drawing a UUID. -/
theorem alone_newUuid_bind {f : String → ExceptT ε M β} {r : Except ε β} :
    Alone S (callE .newUuid >>= f : ExceptT ε M β) w r w' ↔
      ∃ u, w.Fresh u ∧ Alone S (f u) (w.draw u) r w' := by
  rw [alone_callE_bind]
  simp only [Orderly.newUuid]
  constructor
  · rintro ⟨u, w₁, ⟨hu, rfl⟩, h⟩
    exact ⟨u, hu, h⟩
  · rintro ⟨u, hu, h⟩
    exact ⟨u, _, ⟨hu, rfl⟩, h⟩

/-- A command that does not fail. -/
theorem alone_run_ok {c : Cmd} {v : c.Reply} {db' : Db} (hc : exec w.now w.db c = (.ok v, db')) :
    ∀ x w₂, @Alone (no_index (Except JtiError c.Reply)) S (RedisClient.run c) w x w₂ ↔
      x = .ok v ∧ w₂ = w.setDb db' := by
  intro x w₂
  rw [alone_run, hc]
  rfl

/-- The store, the UUIDs and the clock are the same. -/
structure SameStore (w w' : World) : Prop where
  db : w'.db = w.db
  drawn : w'.drawn = w.drawn
  now : w'.now = w.now

/-- A quiet program leaves the store alone. -/
theorem alone_quiet {p : M α} (hp : Quiet p) {a : α} (h : Alone S p w a w') : SameStore w w' := by
  refine Prog.Only.keeps (I := SameStore w) hp (fun w₁ e r w₂ he hc hs => ?_) h ⟨rfl, rfl, rfl⟩
  obtain ⟨s, hc⟩ := Orderly.service hc
  obtain ⟨h₁, h₂, h₃⟩ := call_quiet he hc
  exact ⟨h₁.trans hs.db, h₂.trans hs.drawn, h₃.trans hs.now⟩

/-! ## Operations of the store -/

/-- Adding to a group, when the moment is to come and Redis can keep it. -/
theorem alone_addToGroup {g m : String} {score : Int} (hg : w.db.IsSet w.now g)
    (hn : (w.now : Int) < 1000 * score) (hm : 1000 * score ≤ maxTime) (r : Except JtiError Unit)
    (w' : World) : Alone S (RedisClient.addToGroup g m score) w r w' ↔
      r = .ok () ∧ w' = w.setDb (w.db.register w.now g m score) := by
  obtain ⟨h₁, h₂⟩ := exec_register (m := m) hg hn hm
  rw [RedisClient.addToGroup, alone_bind_of (alone_run_ok (Prod.ext h₁ rfl)), alone_run]
  simp only [World.setDb_now, World.setDb_db, World.setDb_setDb, h₂]
  rfl

theorem alone_deleteMembers (ks : List String) (r : Except JtiError Unit) (w' : World) :
    Alone S (RedisClient.deleteMembers ks) w r w' ↔
      r = .ok () ∧ w' = w.setDb (w.db.delAll ks) := by
  rw [RedisClient.deleteMembers]
  split
  · rename_i hk
    rw [hk, Db.delAll_nil]
    exact Iff.rfl
  · exact alone_run

/-- Revoking a group deletes its members that have not expired, and the group. -/
theorem alone_revokeGroup {g : String} (hg : w.db.IsSet w.now g) (r : Except JtiError Nat)
    (w' : World) : Alone S (RedisClient.revokeGroup g) w r w' ↔
      r = .ok (w.db.listed w.now g (timestamp w.now)).length ∧
        w' = w.setDb (w.db.delAll (g :: w.db.listed w.now g (timestamp w.now))) := by
  obtain ⟨h₁, h₂, h₃⟩ := @exec_zremRangeByScore _ _ _ (timestamp w.now : Int) hg
  have hrest : ∀ k, k ∉ g :: w.db.listed w.now g (timestamp w.now) →
      (exec w.now w.db (.zremRangeByScore g (timestamp w.now : Int))).2 k = w.db k := by
    intro k hk
    refine exec_of_not_writes fun hw => hk ?_
    rw [List.mem_singleton.mp hw]
    exact List.mem_cons_self
  have hr := exec_zrange h₂
  rw [h₃] at hr
  generalize hdb : (exec w.now w.db (.zremRangeByScore g (timestamp w.now : Int))).2 = db₁ at hr hrest
  rw [RedisClient.revokeGroup, alone_utcNow_bind, alone_bind_of (alone_run_ok (Prod.ext h₁ hdb)),
    alone_bind_of (alone_run_ok hr), alone_bind_of (alone_deleteMembers _),
    alone_bind_of (alone_run_ok rfl)]
  show r = .ok _ ∧ w' = _ ↔ _
  simp only [World.setDb_db, World.setDb_setDb]
  rw [Db.delAll_delAll, List.singleton_append, ← Db.delAll_of_eq hrest]
  rfl

/-- The checks of the claims that do not need the store. -/
def TokenClaims.Valid (c : TokenClaims) (issuer audience : String) (now : Nat) : Prop :=
  c.iss = issuer ∧ audience ∈ c.aud ∧ c.nbf ≤ asUsize (timestamp now) ∧
    c.iat ≤ asUsize (timestamp now) ∧ asUsize (timestamp now) < c.exp

instance (c : TokenClaims) (issuer audience : String) (now : Nat) :
    Decidable (c.Valid issuer audience now) :=
  inferInstanceAs (Decidable (_ ∧ _))

/-- The answer of the store about a `jti` decides about claims that are valid
otherwise. -/
theorem alone_isVerify {t : JsonText} {c : TokenClaims} {issuer audience : String} (b : Bool)
    (w' : World) : Alone S (c.isVerify (redisClient t) issuer audience) w b w' ↔
      b = (decide (c.Valid issuer audience w.now) && (w.db.get w.now c.jti).isSome) ∧ w' = w := by
  refine Prog.eval_bind.trans ?_
  constructor
  · rintro ⟨now, w₁, ⟨_, _, hc, rfl, rfl⟩, h⟩
    obtain ⟨rfl, rfl⟩ := Orderly.utcNow.mp hc
    split at h
    · rename_i hv
      rw [decide_eq_true (p := c.Valid issuer audience _) hv, Bool.true_and]
      obtain ⟨x, w₂, hx, h⟩ := Prog.eval_bind.mp h
      obtain ⟨rfl, rfl⟩ := (alone_run_ok (c := .exists c.jti) rfl x w₂).mp hx
      exact h
    · rename_i hv
      rw [decide_eq_false (p := c.Valid issuer audience _) hv, Bool.false_and]
      exact h
  · rintro ⟨rfl, rfl⟩
    refine ⟨_, _, ⟨_, _, Orderly.utcNow.mpr ⟨rfl, rfl⟩, rfl, rfl⟩, ?_⟩
    split
    · rename_i hv
      rw [decide_eq_true (p := c.Valid issuer audience _) hv, Bool.true_and]
      exact Prog.eval_bind.mpr
        ⟨_, _, (alone_run_ok (c := .exists c.jti) rfl _ _).mpr ⟨rfl, rfl⟩, rfl, rfl⟩
    · rename_i hv
      rw [decide_eq_false (p := c.Valid issuer audience _) hv, Bool.false_and]
      exact ⟨rfl, rfl⟩

end JwtService

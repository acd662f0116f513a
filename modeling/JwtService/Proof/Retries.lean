import JwtService.Proof.Past

/-!
# Retrying a bulk revocation

A revocation of a group can stop at each of its four commands, which may have
been executed. Until its key is gone a member stays in the group (`Held`): the
first command takes only members whose moment has passed, and the group is
deleted after its members. So an attempt that returns completes all that
failed before it (`retries_complete`).
-/

namespace JwtService

open Interaction Redis

/-- A call some time later, which may fail if it is a command. -/
def Sometime : Prog.Sem svc World := fun w e r w' => ∃ d s, (service s).call (w.tick d) e r w'

/-- Attempts to revoke a group, whatever they return. -/
inductive Attempts (g : String) : World → World → Prop
  | none (w : World) : Attempts g w w
  | more {w w₁ w₂ : World} {r : Except JtiError Nat} (h : Attempts g w w₁)
      (ha : @Prog.Eval svc _ World Sometime (RedisClient.revokeGroup g) w₁ r w₂) : Attempts g w w₂

/-- The key of a group expires no earlier than its members. -/
def Outlasts (w : World) (g : String) : Prop :=
  ∀ e t, w.db.get w.now g = some e → e.expireAt = some t →
    ∀ x ∈ w.db.members w.now g, 1000 * x.2 ≤ t

variable {g : String} {x : String × Int} {w w' : World}

/-- The moment of a member has passed, or its key is gone. -/
def Over (x : String × Int) (w : World) : Prop :=
  x.2 ≤ (w.now / 1000 : Nat) ∨ w.db.get w.now x.1 = none

/-- A member that is not over is in the group. -/
def Held (g : String) (x : String × Int) (w : World) : Prop :=
  Over x w ∨ ∃ ms t, w.db g = some ⟨.zset ms, t⟩ ∧ x ∈ ms ∧ ∀ t₀, t = some t₀ → 1000 * x.2 ≤ (t₀ : Nat)

theorem Over.tick (h : Over x w) (d : Nat) : Over x (w.tick d) := by
  rcases h with h | h
  · left
    show x.2 ≤ ((w.now + d) / 1000 : Nat)
    omega
  · exact .inr (Db.get_none_mono (Nat.le_add_right _ _) h)

theorem Held.tick (h : Held g x w) (d : Nat) : Held g x (w.tick d) :=
  h.imp (fun h => h.tick d) id

/-- A member that is not over is one of the members Redis lists. -/
theorem Held.mem (h : Held g x w) : Over x w ∨ x ∈ w.db.members w.now g := by
  by_cases ho : Over x w
  · exact .inl ho
  · obtain ⟨ms, t, hg, hx, ht⟩ := h.resolve_left ho
    right
    have hlt : ¬x.2 ≤ (w.now / 1000 : Nat) := fun hle => ho (.inl hle)
    rw [Db.members_of_get (Db.get_eq_some.mpr ⟨hg, ?_⟩)]
    · exact hx
    · unfold Entry.liveAt
      cases t with
      | none => rfl
      | some t₀ =>
        have := ht t₀ rfl
        exact decide_eq_true (by omega)

theorem held_of_mem (hg : Outlasts w g) (hx : x ∈ w.db.members w.now g) : Held g x w := by
  right
  cases he : w.db.get w.now g with
  | none =>
    rw [Db.members_of_none he] at hx
    cases hx
  | some e =>
    obtain ⟨v, t⟩ := e
    cases v with
    | zset ms =>
      have hx' := hx
      rw [Db.members_of_get he] at hx'
      exact ⟨ms, t, (Db.get_eq_some.mp he).1, hx', fun t₀ ht => hg _ t₀ he ht x hx⟩
    | _ =>
      rw [Db.members, he] at hx
      cases hx

/-- A command that makes no key does not bring a member back. -/
theorem Over.kept (h : Over x w) {c : Cmd} (hc : c.creates = none) :
    Over x (w.setDb (exec w.now w.db c).2) :=
  h.imp id fun h => exec_get_none h (by rw [hc]; exact nofun)

/-- Taking members whose moment has passed. -/
theorem Held.cut {max : Nat} (h : Held g x w) (hmax : max ≤ w.now / 1000) :
    Held g x (w.setDb (exec w.now w.db (.zremRangeByScore g max)).2) := by
  rcases h with h | ⟨ms, t, hg, hx, ht⟩
  · exact .inl (h.kept rfl)
  · by_cases hlt : (max : Int) < x.2
    · right
      have hmem : x ∈ ms.filter fun y => (max : Int) < y.2 :=
        List.mem_filter.mpr ⟨hx, decide_eq_true hlt⟩
      simp only [exec, World.setDb_db]
      cases hget : w.db.get w.now g with
      | none => exact ⟨ms, t, hg, hx, ht⟩
      | some e =>
        obtain ⟨he, -⟩ := Db.get_eq_some.mp hget
        rw [hg] at he
        cases he
        refine ⟨_, t, ?_, hmem, ht⟩
        simp only [List.ne_nil_of_mem hmem, if_false, Db.put, Function.update_self]
    · left
      left
      show x.2 ≤ (w.now / 1000 : Nat)
      omega

/-- Deleting keys with the member among them, or after it. -/
theorem Over.del {ks : List String} (h : Over x w ∨ x.1 ∈ ks) :
    Over x (w.setDb (exec w.now w.db (.del ks)).2) := by
  rcases h with h | h
  · exact h.kept rfl
  · right
    show (w.db.delAll ks).get w.now x.1 = none
    rw [Db.get_delAll, if_pos h]

/-- The members are listed. -/
theorem mem_of_zrange {db : Db} {now : Nat} {ms : List String}
    (h : (exec now db (.zrange g)).1 = .ok ms) (hx : x ∈ db.members now g) : x.1 ∈ ms := by
  unfold Db.members at hx
  simp only [exec] at h
  split at hx
  · rename_i ms' t hget
    rw [hget] at h
    cases h
    exact List.mem_map_of_mem hx
  · cases hx

/-! ## An attempt -/

/-- A command is executed some time later, or is not. -/
theorem sometime_run {c : Cmd} {r : Except JtiError c.Reply}
    (h : @Prog.Eval svc _ World Sometime (RedisClient.run c) w r w') : ∃ d,
      (w' = w.tick d ∧ ∃ e, r = .error e) ∨
        (w' = (w.tick d).setDb (exec (w.tick d).now (w.tick d).db c).2 ∧
          ∀ a, r = .ok a → (exec (w.tick d).now (w.tick d).db c).1 = .ok a) := by
  obtain ⟨y, hy, rfl⟩ := Prog.eval_mapError.mp h
  obtain ⟨v, w₁, ⟨d, s, hc⟩, rfl, rfl⟩ := hy
  refine ⟨d, ?_⟩
  rcases call_redis hc with ⟨rfl, e, rfl⟩ | ⟨rfl, rfl | ⟨e, rfl⟩⟩
  · exact .inl ⟨rfl, classify e, rfl⟩
  · refine .inr ⟨rfl, fun a ha => ?_⟩
    cases he : (exec (w.tick d).now (w.tick d).db c).1 with
    | error e =>
      rw [he] at ha
      cases ha
    | ok b =>
      rw [he] at ha
      cases ha
      rfl
  · exact .inr ⟨rfl, fun a ha => nomatch ha⟩

/-- An attempt leaves the member in the group or over; it is over if the
attempt returns. -/
theorem Held.attempt {r : Except JtiError Nat} (h : Held g x w)
    (ha : @Prog.Eval svc _ World Sometime (RedisClient.revokeGroup g) w r w') :
    Held g x w' ∧ ∀ n, r = .ok n → Over x w' := by
  have herr : ∀ {w₁ : World} {e : JtiError}, Held g x w₁ → Held g x w₁ ∧
      ∀ n, (Except.error e : Except JtiError Nat) = .ok n → Over x w₁ :=
    fun hw => ⟨hw, fun _ hn => nomatch hn⟩
  rcases Prog.eval_tryBind.mp ha with ⟨now, w₁, h₁, ha⟩ | ⟨e, he, rfl⟩
  swap
  · obtain ⟨_, -, he⟩ := Prog.eval_performE.mp he
    cases he
  -- The clock.
  obtain ⟨_, ⟨d, s, ch, hclock⟩, he⟩ := Prog.eval_performE.mp h₁
  cases he
  obtain ⟨rfl, rfl⟩ : now = (w.tick d).now ∧ w₁ = w.tick d := by
    cases ch with
    | plain =>
      cases hclock
      exact ⟨rfl, rfl⟩
    | redis | uuid | keys | key => cases hclock
  -- The members that are over are taken.
  have hcut : ∀ {r : Except JtiError Unit} {w₂ : World}, @Prog.Eval svc _ World Sometime
      (RedisClient.run (.zremRangeByScore g (timestamp (w.tick d).now : Nat))) (w.tick d) r w₂ → Held g x w₂ := by
    intro r w₂ hr
    obtain ⟨d₂, ⟨rfl, -⟩ | ⟨rfl, -⟩⟩ := sometime_run hr
    · exact (h.tick d).tick d₂
    · apply ((h.tick d).tick d₂).cut
      exact Nat.div_le_div_right (Nat.le_add_right _ _)
  rcases Prog.eval_tryBind.mp ha with ⟨_, w₂, h₂, ha⟩ | ⟨e, he, rfl⟩
  swap
  · exact herr (hcut he)
  have hw₂ := hcut h₂
  -- The rest are listed.
  have hlist : ∀ {r : Except JtiError (List String)} {w₃ : World}, @Prog.Eval svc _ World Sometime
      (RedisClient.run (.zrange g)) w₂ r w₃ → Held g x w₃ ∧
        ∀ ms, r = .ok ms → Over x w₃ ∨ x.1 ∈ ms := by
    intro r w₃ hr
    obtain ⟨d₃, ⟨rfl, e, rfl⟩ | ⟨rfl, hok⟩⟩ := sometime_run hr
    · exact ⟨hw₂.tick d₃, fun _ h => nomatch h⟩
    · have hsame : (exec (w₂.tick d₃).now (w₂.tick d₃).db (.zrange g)).2 = (w₂.tick d₃).db :=
        funext fun k => exec_of_not_writes List.not_mem_nil
      rw [hsame, World.setDb_self]
      refine ⟨hw₂.tick d₃, fun ms hms => ?_⟩
      exact (hw₂.tick d₃).mem.imp id (mem_of_zrange (hok ms hms))
  rcases Prog.eval_tryBind.mp ha with ⟨jtis, w₃, h₃, ha⟩ | ⟨e, he, rfl⟩
  swap
  · exact herr (hlist he).1
  obtain ⟨hw₃, hjtis⟩ := hlist h₃
  have hjtis := hjtis jtis rfl
  -- The members are deleted, then the group.
  have hmembers : ∀ {r : Except JtiError Unit} {w₄ : World}, @Prog.Eval svc _ World Sometime
      (RedisClient.deleteMembers jtis) w₃ r w₄ → Held g x w₄ ∧ (r = .ok () → Over x w₄) := by
    intro r w₄ hr
    unfold RedisClient.deleteMembers at hr
    split at hr
    · rename_i hnil
      obtain ⟨rfl, rfl⟩ := hr
      rw [hnil] at hjtis
      exact ⟨hw₃, fun _ => hjtis.resolve_right List.not_mem_nil⟩
    · obtain ⟨d₄, ⟨rfl, e, rfl⟩ | ⟨rfl, -⟩⟩ := sometime_run hr
      · exact ⟨hw₃.tick d₄, fun h => nomatch h⟩
      · have hover : Over x _ := Over.del (hjtis.imp (fun h => h.tick d₄) id)
        exact ⟨.inl hover, fun _ => hover⟩
  rcases Prog.eval_tryBind.mp ha with ⟨_, w₄, h₄, ha⟩ | ⟨e, he, rfl⟩
  swap
  · exact herr (hmembers he).1
  have hw₄ := (hmembers h₄).2 rfl
  have hgroup : ∀ {r : Except JtiError Unit} {w₅ : World}, @Prog.Eval svc _ World Sometime
      (RedisClient.run (.del [g])) w₄ r w₅ → Over x w₅ := by
    intro r w₅ hr
    obtain ⟨d₅, ⟨rfl, -⟩ | ⟨rfl, -⟩⟩ := sometime_run hr
    · exact hw₄.tick d₅
    · exact Over.del (.inl (hw₄.tick d₅))
  rcases Prog.eval_tryBind.mp ha with ⟨_, w₅, h₅, ha⟩ | ⟨e, he, rfl⟩
  · obtain ⟨rfl, rfl⟩ := ha
    exact ⟨.inl (hgroup h₅), fun _ _ => hgroup h₅⟩
  · exact herr (.inl (hgroup he))

/-- A revocation that returns, after any number of attempts that may have
failed at any of their commands, leaves no member of the group that has not
expired; and no attempt takes such a member from the group before its key is
gone. -/
theorem retries_complete (hg : Outlasts w g) (hx : x ∈ w.db.members w.now g) {w₁ : World}
    (ha : Attempts g w w₁) :
    ((w₁.now / 1000 : Nat) < x.2 → w₁.db.get w₁.now x.1 = none ∨ x ∈ w₁.db.members w₁.now g) ∧
      ∀ n w₂, @Prog.Eval svc _ World Sometime (RedisClient.revokeGroup g) w₁ (.ok n) w₂ →
        (w₂.now / 1000 : Nat) < x.2 → w₂.db.get w₂.now x.1 = none := by
  have hheld : Held g x w₁ := by
    induction ha with
    | none => exact held_of_mem hg hx
    | more _ hr ih => exact (ih.attempt hr).1
  constructor
  · intro hlt
    rcases hheld.mem with (ho | ho) | hm
    · omega
    · exact .inl ho
    · exact .inr hm
  · intro n w₂ hr hlt
    rcases (hheld.attempt hr).2 n rfl with ho | ho
    · omega
    · exact ho

/-- A run with given choices, with no time passing. -/
theorem sometime_exec {α : Type} {prog : M α} {cs : List Choice} {a : α}
    (h : Prog.exec (World.act ⟨300000, 10000, 10000⟩) prog cs w = some (a, w')) :
    @Prog.Eval svc _ World Sometime prog w a w' :=
  Prog.exec_eval (fun _ _ c _ _ hc => ⟨0, ⟨300000, 10000, 10000⟩, c, hc⟩) h

/-- A world with one token, of a user. -/
def oneToken : World := World.empty.setDb (issueDb World.empty.db 0 "user" uuidA 60)

/-- The members are deleted but the answer is lost; the next attempt returns. -/
theorem retries_complete_user : ∃ w₁ w₂ : World,
    (oneToken.db.get oneToken.now uuidA).isSome = true ∧ Attempts (subjectGroup "user") oneToken w₁ ∧
      @Prog.Eval svc _ World Sometime (RedisClient.revokeGroup (subjectGroup "user")) w₁ (.ok 1) w₂ ∧
      w₂.db.get w₂.now uuidA = none := by
  obtain ⟨w₁, h₁, w₂, h₂, hnow⟩ : ∃ w₁, Prog.exec (World.act ⟨300000, 10000, 10000⟩)
      (RedisClient.revokeGroup (subjectGroup "user")) [.plain, .redis .answered, .redis .answered,
        .redis (.answerLost .timeout)] oneToken = some (.error .badConnection, w₁) ∧
      ∃ w₂, Prog.exec (World.act ⟨300000, 10000, 10000⟩) (RedisClient.revokeGroup (subjectGroup "user"))
        [.plain, .redis .answered, .redis .answered, .redis .answered, .redis .answered] w₁ =
          some (.ok 1, w₂) ∧ w₂.now = 0 :=
    ⟨_, rfl, _, rfl, rfl⟩
  have hget : oneToken.db.get oneToken.now (subjectGroup "user") =
      some ⟨.zset [(uuidA, 60)], some 60000⟩ := rfl
  have hg : Outlasts oneToken (subjectGroup "user") := by
    rintro e t he ht x hx
    rw [hget] at he
    cases he
    cases ht
    rw [Db.members_of_get hget] at hx
    rw [List.mem_singleton.mp hx]
    decide
  have hx : (uuidA, (60 : Int)) ∈ oneToken.db.members oneToken.now (subjectGroup "user") := by
    rw [Db.members_of_get hget]
    exact List.mem_singleton_self _
  have ha : Attempts (subjectGroup "user") oneToken w₁ := .more (.none _) (sometime_exec h₁)
  refine ⟨w₁, w₂, by decide, ha, sometime_exec h₂, ?_⟩
  exact (retries_complete hg hx ha).2 1 w₂ (sometime_exec h₂) (by rw [hnow]; decide)

end JwtService

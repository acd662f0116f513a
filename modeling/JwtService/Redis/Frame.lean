import JwtService.Redis.Db

/-!
# Databases that agree on some keys

`Db.Agree K now db db'`: from `now` on the two databases show the same under
every key but those of `K`. Where a command does not look at a key of `K`, its
answer on both is the same, and they agree afterwards (`exec_agree`): a key
that no command looks at is of no consequence.
-/

namespace Redis

/-- The keys whose entries decide the answer of a command or what it makes of
them. -/
def Cmd.looks : Cmd → List String
  | .ping | .setEx .. | .del _ => []
  | .setNxEx k .. | .exists k | .zadd k .. | .zremRangeByScore k _ | .zrange k | .expire k _
  | .expireAt k _ | .hset k _ | .hsetNx k .. | .hgetAll k => [k]

/-- From `now` on the databases show the same under every key but those of `K`. -/
def Db.Agree (K : String → Prop) (now : Nat) (db db' : Db) : Prop :=
  ∀ k, ¬ K k → ∀ t, now ≤ t → db'.get t k = db.get t k

variable {K : String → Prop} {now : Nat} {db db' : Db} {k : String}

namespace Db.Agree

theorem refl (db : Db) : Db.Agree K now db db := fun _ _ _ _ => rfl

theorem symm (h : Db.Agree K now db db') : Db.Agree K now db' db := fun k hk t ht => (h k hk t ht).symm

theorem later (h : Db.Agree K now db db') {now' : Nat} (hle : now ≤ now') : Db.Agree K now' db db' :=
  fun k hk t ht => h k hk t (Nat.le_trans hle ht)

theorem get_eq (h : Db.Agree K now db db') (hk : ¬ K k) : db'.get now k = db.get now k :=
  h k hk now (Nat.le_refl now)

/-- The same entry is written to both. -/
theorem put (h : Db.Agree K now db db') (k : String) (e : Option Entry) :
    Db.Agree K now (db.put k e) (db'.put k e) := by
  intro j hj t ht
  by_cases hjk : j = k
  · subst hjk
    rw [Db.get, Db.get, Db.put, Db.put, Function.update_self, Function.update_self]
  · rw [Db.get_put_ne hjk, Db.get_put_ne hjk]
    exact h j hj t ht

theorem delAll (h : Db.Agree K now db db') (ks : List String) :
    Db.Agree K now (db.delAll ks) (db'.delAll ks) := by
  intro j hj t ht
  rw [Db.get_delAll, Db.get_delAll]
  split
  · rfl
  · exact h j hj t ht

end Db.Agree

/-- Both give the same answer and agree afterwards. -/
abbrev Matches {α : Type} (K : String → Prop) (now : Nat) (x y : Except Err α × Db) : Prop :=
  y.1 = x.1 ∧ Db.Agree K now x.2 y.2

theorem setExpiry_agree (h : Db.Agree K now db db') (hk : ¬ K k) (base : Nat) (secs : Int) :
    Matches K now (setExpiry now db k base secs) (setExpiry now db' k base secs) := by
  rw [setExpiry, setExpiry, h.get_eq hk]
  split
  · exact ⟨rfl, h⟩
  · split
    · exact ⟨rfl, h⟩
    · split
      · exact ⟨rfl, h.put _ _⟩
      · exact ⟨rfl, h.put _ _⟩

/-- What is set with an expiry is set in both, or in none. -/
theorem setWithExpiry_agree (h : Db.Agree K now db db') (k v : String) (secs : Nat) :
    (setWithExpiry now db k v secs = none ∧ setWithExpiry now db' k v secs = none) ∨
      ∃ x x', setWithExpiry now db k v secs = some x ∧ setWithExpiry now db' k v secs = some x' ∧
        Db.Agree K now x x' := by
  rw [setWithExpiry, setWithExpiry]
  split
  · exact .inl ⟨rfl, rfl⟩
  · exact .inr ⟨_, _, rfl, rfl, h.put _ _⟩

/-- A command that looks at no key of `K` does the same in both. -/
theorem exec_agree (h : Db.Agree K now db db') {c : Cmd} (hc : ∀ k ∈ c.looks, ¬ K k) :
    Matches K now (exec now db c) (exec now db' c) := by
  cases c with
  | ping => exact ⟨rfl, h⟩
  | setEx k v secs =>
    simp only [exec]
    rcases setWithExpiry_agree h k v secs with ⟨h₁, h₂⟩ | ⟨x, x', h₁, h₂, hx⟩
    · rw [h₁, h₂]
      exact ⟨rfl, h⟩
    · rw [h₁, h₂]
      exact ⟨rfl, hx⟩
  | setNxEx k v secs =>
    have hget := h.get_eq (hc k List.mem_cons_self)
    simp only [exec]
    rcases setWithExpiry_agree h k v secs with ⟨h₁, h₂⟩ | ⟨x, x', h₁, h₂, hx⟩
    · rw [h₁, h₂]
      exact ⟨rfl, h⟩
    · rw [h₁, h₂, hget]
      dsimp only
      split
      · exact ⟨rfl, h⟩
      · exact ⟨rfl, hx⟩
  | del ks => exact ⟨rfl, h.delAll ks⟩
  | expire k secs => exact setExpiry_agree h (hc k List.mem_cons_self) now secs
  | expireAt k ts => exact setExpiry_agree h (hc k List.mem_cons_self) 0 ts
  | «exists» k =>
    simp only [exec, h.get_eq (hc k List.mem_cons_self)]
    exact ⟨rfl, h⟩
  | zadd k m score | zremRangeByScore k max | hset k fs =>
    simp only [exec, h.get_eq (hc k List.mem_cons_self)]
    split
    · first | exact ⟨rfl, h⟩ | exact ⟨rfl, h.put _ _⟩
    · exact ⟨rfl, h.put _ _⟩
    · exact ⟨rfl, h⟩
  | zrange k | hgetAll k =>
    simp only [exec, h.get_eq (hc k List.mem_cons_self)]
    split <;> exact ⟨rfl, h⟩
  | hsetNx k f v =>
    simp only [exec, h.get_eq (hc k List.mem_cons_self)]
    split
    · exact ⟨rfl, h.put _ _⟩
    · split
      · exact ⟨rfl, h⟩
      · exact ⟨rfl, h.put _ _⟩
    · exact ⟨rfl, h⟩

end Redis

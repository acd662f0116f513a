import JwtService.Redis.Db

/-!
# Sorted sets as indexes

A sorted set whose scores are moments, and which expires itself, serves as an
index of other keys. What the commands on such a set do in the two sequences
its users run: adding a member and setting the expiry of the set
(`Db.register`), and reading the members whose moment has not passed
(`Db.listed`) to delete them and the set.
-/

namespace Redis

variable {db : Db} {now : Nat} {g k m : String} {score max : Int}

/-- The key is absent or holds a sorted set. -/
def Db.IsSet (db : Db) (now : Nat) (k : String) : Prop :=
  ∀ e, db.get now k = some e → ∃ ms, e.value = .zset ms

/-- The members of a sorted set; an absent one is empty. -/
def Db.members (db : Db) (now : Nat) (k : String) : List (String × Int) :=
  match db.get now k with
  | some ⟨.zset ms, _⟩ => ms
  | _ => []

/-- The members with a score above `max`. -/
def Db.listed (db : Db) (now : Nat) (k : String) (max : Int) : List String :=
  ((db.members now k).filter fun x => max < x.2).map Prod.fst

/-- The database with `m` in the set `g`, which expires at the moment of `m`. -/
def Db.register (db : Db) (now : Nat) (g m : String) (score : Int) : Db :=
  db.put g (some ⟨.zset (zinsert m score (db.members now g)), some (1000 * score).toNat⟩)

theorem Db.members_of_get {ms : List (String × Int)} {t : Option Nat}
    (h : db.get now k = some ⟨.zset ms, t⟩) : db.members now k = ms := by
  rw [members, h]

theorem Db.members_of_none (h : db.get now k = none) : db.members now k = [] := by
  rw [members, h]

theorem Db.members_congr {db' : Db} (h : db' k = db k) : db'.members now k = db.members now k := by
  rw [members, members, Db.get_congr h]

theorem Db.IsSet.cases (h : db.IsSet now k) :
    db.get now k = none ∨ ∃ ms t, db.get now k = some ⟨.zset ms, t⟩ := by
  cases hg : db.get now k with
  | none => exact .inl rfl
  | some e =>
    obtain ⟨ms, hv⟩ := h e hg
    obtain ⟨v, t⟩ := e
    exact .inr ⟨ms, t, by rw [← hv]⟩

theorem Db.IsSet.congr {db' : Db} (h : db.IsSet now k) (hk : db' k = db k) : db'.IsSet now k := by
  intro e he
  rw [Db.get_congr hk] at he
  exact h e he

/-! ## Adding -/

theorem exec_zadd (h : db.IsSet now g) :
    exec now db (.zadd g m score) = (.ok (), db.put g (some ⟨.zset (zinsert m score (db.members now g)),
      (db.get now g).bind Entry.expireAt⟩)) := by
  rcases h.cases with hg | ⟨ms, t, hg⟩
  · rw [Db.members_of_none hg]
    simp only [exec, hg]
    rfl
  · rw [Db.members_of_get hg]
    simp only [exec, hg]
    rfl

/-- Adding a member and setting the expiry of the set to its moment. -/
theorem exec_register (h : db.IsSet now g) (hn : (now : Int) < 1000 * score)
    (hm : 1000 * score ≤ maxTime) :
    (exec now db (.zadd g m score)).1 = .ok () ∧
      exec now (exec now db (.zadd g m score)).2 (.expireAt g score) =
        (.ok (), db.register now g m score) := by
  rw [exec_zadd h]
  refine ⟨rfl, ?_⟩
  have hlive : ∀ v, Entry.liveAt now ⟨v, (db.get now g).bind Entry.expireAt⟩ = true := fun v => by
    cases hg : db.get now g with
    | none => rfl
    | some e => exact (Db.get_eq_some.mp hg).2
  simp only [exec, setExpiry, Db.get_put_some, hlive, if_true]
  have hmax : maxTime = 9223372036854775807 := rfl
  have hbase : ((0 : Nat) : Int) + 1000 * score = 1000 * score := Int.zero_add _
  rw [hbase, if_neg (by omega), if_neg (by omega), Db.register]
  simp only [Db.put, Function.update_idem]

theorem Db.register_ne (h : k ≠ g) : db.register now g m score k = db k :=
  Db.put_ne h _

theorem Db.register_congr {db' : Db} (hg : db' g = db g) (hk : db' k = db k) :
    db'.register now g m score k = db.register now g m score k := by
  rw [register, register, Db.members_congr hg]
  exact Db.put_congr hk _

/-- The set after the addition, as long as it has not expired. -/
theorem Db.get_register {now' : Nat} (h : (now' : Int) < 1000 * score) :
    (db.register now g m score).get now' g =
      some ⟨.zset (zinsert m score (db.members now g)), some (1000 * score).toNat⟩ := by
  rw [register, Db.get_put_some, if_pos]
  simp only [Entry.liveAt, decide_eq_true_eq]
  omega

theorem mem_zinsert {ms : List (String × Int)} {x : String × Int} :
    x ∈ zinsert m score ms ↔ x = (m, score) ∨ x ∈ ms ∧ x.1 ≠ m := by
  simp [zinsert]

theorem nodup_zinsert {ms : List (String × Int)} (h : (ms.map Prod.fst).Nodup) :
    ((zinsert m score ms).map Prod.fst).Nodup := by
  rw [zinsert, List.map_cons, List.nodup_cons]
  constructor
  · intro hm
    obtain ⟨x, hx, he⟩ := List.mem_map.mp hm
    exact of_decide_eq_true (List.mem_filter.mp hx).2 he
  · exact h.sublist (List.Sublist.map _ List.filter_sublist)

/-! ## Reading and deleting -/

theorem exec_zremRangeByScore (h : db.IsSet now g) :
    (exec now db (.zremRangeByScore g max)).1 = .ok () ∧
      (exec now db (.zremRangeByScore g max)).2.IsSet now g ∧
      (exec now db (.zremRangeByScore g max)).2.members now g =
        (db.members now g).filter fun x => max < x.2 := by
  rcases h.cases with hg | ⟨ms, t, hg⟩
  · simp only [exec, hg]
    rw [Db.members_of_none hg]
    exact ⟨trivial, h, rfl⟩
  · have hlive : Entry.liveAt now ⟨.zset (ms.filter fun x => max < x.2), t⟩ = true :=
      (Db.get_eq_some.mp hg).2
    simp only [exec, hg]
    rw [Db.members_of_get hg]
    refine ⟨trivial, fun e he => ?_, ?_⟩
    · split at he
      · rw [Db.get_put_none] at he
        cases he
      · rw [Db.get_put_some, if_pos hlive] at he
        cases he
        exact ⟨_, rfl⟩
    · split
      · rename_i hn
        rw [Db.members_of_none Db.get_put_none, hn]
      · refine Db.members_of_get (t := t) ?_
        rw [Db.get_put_some, if_pos hlive]

theorem exec_zrange (h : db.IsSet now g) :
    exec now db (.zrange g) = (.ok ((db.members now g).map Prod.fst), db) := by
  rcases h.cases with hg | ⟨ms, t, hg⟩
  · rw [Db.members_of_none hg]
    simp only [exec, hg]
    rfl
  · rw [Db.members_of_get hg]
    simp only [exec, hg]

theorem Db.delAll_of_eq {db' : Db} {ks : List String} (h : ∀ k, k ∉ ks → db' k = db k) :
    db'.delAll ks = db.delAll ks := by
  funext k
  by_cases hk : k ∈ ks
  · simp [Db.delAll, hk]
  · simp [Db.delAll, hk, h k hk]

theorem Db.delAll_delAll (ks ls : List String) : (db.delAll ks).delAll ls = db.delAll (ls ++ ks) := by
  funext k
  by_cases hk : k ∈ ls <;> by_cases hk' : k ∈ ks <;> simp [Db.delAll, hk, hk']

theorem Db.delAll_nil : db.delAll [] = db := by
  funext k
  simp [Db.delAll]

theorem Db.delAll_of_not_mem {ks : List String} (h : k ∉ ks) : db.delAll ks k = db k := by
  simp [Db.delAll, h]

/-! ## Where members come from -/

/-- Time takes members, and brings none. -/
theorem Db.mem_members_of_later {now' : Nat} {x : String × Int} (h : now ≤ now')
    (hx : x ∈ db.members now' k) : x ∈ db.members now k := by
  cases hg : db.get now' k with
  | none => simp [Db.members_of_none hg] at hx
  | some e => simpa [Db.members, hg, Db.get_of_later h hg] using hx

/-- A set keeps its members until it expires. -/
theorem Db.members_mono {now' : Nat} (h : now ≤ now') :
    db.members now' k = db.members now k ∨ db.members now' k = [] := by
  cases hg : db.get now' k with
  | none => exact .inr (members_of_none hg)
  | some e =>
    left
    rw [members, members, hg, get_of_later h hg]

/-- A set keeps its members, or is deleted. -/
theorem Db.members_delAll (ks : List String) :
    (k ∉ ks ∧ (db.delAll ks).members now k = db.members now k) ∨ (db.delAll ks).members now k = [] := by
  by_cases hk : k ∈ ks
  · right
    apply members_of_none
    rw [get_delAll, if_pos hk]
  · exact .inl ⟨hk, members_congr (delAll_of_not_mem hk)⟩

/-- A member after a command was one before, or has just been added. -/
theorem mem_members_exec {c : Cmd} {x : String × Int}
    (hx : x ∈ (exec now db c).2.members now k) : x ∈ db.members now k ∨ c = .zadd k x.1 x.2 := by
  by_cases hw : k ∈ c.writes
  · by_cases hc : c.creates = some k
    · -- Of the commands that create a key only one makes a sorted set.
      cases c with
      | zadd g m score =>
        obtain rfl : g = k := Option.some.inj hc
        simp only [exec] at hx
        split at hx <;> rename_i hg
        · simp only [Db.members, Db.get_put_some, Entry.liveAt, if_true, List.mem_singleton] at hx
          exact .inr (by rw [hx])
        · rename_i ms t
          have hlive : Entry.liveAt now ⟨.zset (zinsert m score ms), t⟩ = true :=
            (Db.get_eq_some.mp hg).2
          rw [Db.members, Db.get_put_some, if_pos hlive] at hx
          rw [Db.members_of_get hg]
          rcases mem_zinsert.mp hx with rfl | ⟨hx, -⟩
          · exact .inr rfl
          · exact .inl hx
        · exact .inl hx
      | setEx g v secs =>
        obtain rfl : g = k := Option.some.inj hc
        simp only [exec] at hx
        split at hx
        · exact .inl hx
        · rename_i hs
          rw [(setWithExpiry_eq_some hs).2, Db.members, Db.get_put_some] at hx
          split at hx <;> simp_all
      | setNxEx g v secs =>
        obtain rfl : g = k := Option.some.inj hc
        simp only [exec] at hx
        split at hx
        · exact .inl hx
        · rename_i hs
          split at hx
          · exact .inl hx
          · rw [(setWithExpiry_eq_some hs).2, Db.members, Db.get_put_some] at hx
            split at hx <;> simp_all
      | hset g fs =>
        obtain rfl : g = k := Option.some.inj hc
        simp only [exec] at hx
        split at hx
        · simp [Db.members, Entry.liveAt] at hx
        · rw [Db.members, Db.get_put_some] at hx
          split at hx <;> simp_all
        · exact .inl hx
      | hsetNx g f v =>
        obtain rfl : g = k := Option.some.inj hc
        simp only [exec] at hx
        split at hx
        · simp [Db.members, Entry.liveAt] at hx
        · split at hx
          · exact .inl hx
          · rw [Db.members, Db.get_put_some] at hx
            split at hx <;> simp_all
        · exact .inl hx
      | _ => cases hc
    · -- Every other command at most takes members.
      cases hg : (exec now db c).2.get now k with
      | none => simp [Db.members_of_none hg] at hx
      | some e =>
        obtain ⟨v, t⟩ := e
        obtain ⟨⟨v₀, t₀⟩, h₀, hv⟩ := exec_get_some hc hg
        left
        rcases hv with hv | ⟨ms, ms', rfl, rfl, hsub⟩
        · obtain rfl : v = v₀ := hv
          rw [Db.members, hg] at hx
          rw [Db.members, h₀]
          cases v with
          | zset ms => exact hx
          | _ => cases hx
        · rw [Db.members_of_get hg] at hx
          rw [Db.members_of_get h₀]
          exact hsub hx
  · rw [Db.members_congr (exec_of_not_writes hw)] at hx
    exact .inl hx

/-! ## Where members stay -/

/-- A member that has been added is there. -/
theorem mem_members_zadd (h : (exec now db (.zadd g m score)).1 = .ok ()) :
    (m, score) ∈ (exec now db (.zadd g m score)).2.members now g := by
  simp only [exec] at h ⊢
  split at h <;> rename_i hg
  · have hlive : Entry.liveAt now ⟨.zset [(m, score)], none⟩ = true := rfl
    show _ ∈ (db.put g _).members now g
    rw [Db.members_of_get (by rw [Db.get_put_some, if_pos hlive])]
    exact List.mem_singleton_self _
  · rename_i ms t
    have hlive : Entry.liveAt now ⟨.zset (zinsert m score ms), t⟩ = true := (Db.get_eq_some.mp hg).2
    show _ ∈ (db.put g _).members now g
    rw [Db.members_of_get (by rw [Db.get_put_some, if_pos hlive])]
    exact mem_zinsert.mpr (.inl rfl)
  · cases h

/-- What has a member is a set. -/
theorem Db.isSet_of_mem {x : String × Int} (hx : x ∈ db.members now g) : db.IsSet now g := by
  intro e he
  obtain ⟨v, t⟩ := e
  cases v with
  | zset ms => exact ⟨ms, rfl⟩
  | _ =>
    rw [Db.members, he] at hx
    cases hx

/-- A member stays when another one is added, or itself with its score. -/
theorem mem_members_zadd_of {x : String × Int} (hx : x ∈ db.members now g) (hm : m = x.1 → score = x.2) :
    x ∈ (exec now db (.zadd g m score)).2.members now g := by
  have hlive : Entry.liveAt now ⟨.zset (zinsert m score (db.members now g)),
      (db.get now g).bind Entry.expireAt⟩ = true := by
    cases hg : db.get now g with
    | none => rfl
    | some e => exact (Db.get_eq_some.mp hg).2
  rw [exec_zadd (Db.isSet_of_mem hx)]
  show x ∈ (db.put g _).members now g
  rw [Db.members_of_get (by rw [Db.get_put_some, if_pos hlive])]
  by_cases h : m = x.1
  · exact mem_zinsert.mpr (.inl (Prod.ext h.symm (hm h).symm))
  · exact mem_zinsert.mpr (.inr ⟨hx, fun he => h he.symm⟩)

/-- Setting an expiry that has not passed keeps the members. -/
theorem members_expireAt {ts : Int} (h : (now : Int) < 1000 * ts) :
    (exec now db (.expireAt g ts)).2.members now g = db.members now g := by
  have hbase : ((0 : Nat) : Int) + 1000 * ts = 1000 * ts := Int.zero_add _
  simp only [exec, setExpiry, hbase]
  split
  · rfl
  · split
    · rfl
    · rename_i e hg
      rw [if_neg (by omega)]
      have hlive : Entry.liveAt now { e with expireAt := some (1000 * ts).toNat } = true :=
        decide_eq_true (by omega)
      show (db.put g _).members now g = _
      rw [Db.members, Db.members, Db.get_put_some, if_pos hlive, hg]
      obtain ⟨v, t⟩ := e
      cases v <;> rfl

/-- The command may take the member `x` out of the set `g`. -/
def Cmd.Drops (now : Nat) (g : String) (x : String × Int) : Cmd → Prop
  | .del ks => g ∈ ks
  | .zadd k m score => k = g ∧ m = x.1 ∧ score ≠ x.2
  | .zremRangeByScore k max => k = g ∧ x.2 ≤ max
  | .expireAt k ts => k = g ∧ 1000 * ts ≤ now
  | .setEx k .. | .setNxEx k .. | .hset k _ | .hsetNx k .. | .expire k _ => k = g
  | _ => False

/-- Any other command leaves it there. -/
theorem mem_members_of_not_drops {c : Cmd} {x : String × Int} (hx : x ∈ db.members now g)
    (hc : ¬ c.Drops now g x) : x ∈ (exec now db c).2.members now g := by
  by_cases hw : g ∈ c.writes
  swap
  · rw [Db.members_congr (exec_of_not_writes hw)]
    exact hx
  cases c with
  | del ks => exact absurd hw hc
  | zadd k m score =>
    cases List.mem_singleton.mp hw
    refine mem_members_zadd_of hx fun hm => ?_
    by_contra hs
    exact hc ⟨rfl, hm, hs⟩
  | zremRangeByScore k max =>
    cases List.mem_singleton.mp hw
    rw [(exec_zremRangeByScore (Db.isSet_of_mem hx)).2.2]
    refine List.mem_filter.mpr ⟨hx, decide_eq_true ?_⟩
    by_contra hlt
    exact hc ⟨rfl, by omega⟩
  | expireAt k ts =>
    cases List.mem_singleton.mp hw
    rw [members_expireAt (by by_contra hlt; exact hc ⟨rfl, by omega⟩)]
    exact hx
  | setEx | setNxEx | hset | hsetNx | expire => exact absurd (List.mem_singleton.mp hw).symm hc
  | _ => cases hw

end Redis

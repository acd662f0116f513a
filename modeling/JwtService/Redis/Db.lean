import Mathlib.Algebra.Group.Int.Defs
import Mathlib.Algebra.Group.Nat.Defs
import Mathlib.Data.List.Basic
import Mathlib.Logic.Function.Basic

/-!
# A store of keys with expiry: the Redis commands used

The database maps keys to values with an optional moment of expiry. Times are
in milliseconds. An entry past its expiry is as good as absent: every command
looks at the database through `Db.get`, which hides it, so it does not matter
when Redis reclaims it.

`exec` gives the documented meaning of each command on a database at a
moment. `exec_of_not_writes` and `exec_get_none` are the two facts the users
of the store need of all of them at once: a command changes only the keys it
names, and only the commands of `Cmd.creates` can make an absent key exist.
-/

namespace Redis

/-- What a key holds. The order of the members of a sorted set is not kept. -/
inductive Value where
  | str (s : String)
  | zset (ms : List (String × Int))
  | hash (fs : List (String × String))
deriving DecidableEq, Repr

structure Entry where
  value : Value
  /-- The moment the key vanishes; `none` for a key without an expiry. -/
  expireAt : Option Nat
deriving DecidableEq, Repr

/-- Why a command may fail: the connection, or the answer of the server. -/
inductive Err where
  | timeout
  | connectionDropped
  | connectionRefused
  | wrongType
  | invalidExpire
deriving DecidableEq, Repr

abbrev Db := String → Option Entry

inductive Cmd where
  | ping
  | setEx (k v : String) (secs : Nat)
  | setNxEx (k v : String) (secs : Nat)
  | exists (k : String)
  | del (ks : List String)
  | zadd (k m : String) (score : Int)
  | zremRangeByScore (k : String) (max : Int)
  | zrange (k : String)
  | expire (k : String) (secs : Int)
  | expireAt (k : String) (ts : Int)
  | hset (k : String) (fs : List (String × String))
  | hsetNx (k f v : String)
  | hgetAll (k : String)
deriving DecidableEq, Repr

/-- What a client reads from a successful reply. -/
@[reducible] def Cmd.Reply : Cmd → Type
  | .exists _ | .setNxEx .. | .hsetNx .. => Bool
  | .zrange _ => List String
  | .hgetAll _ => List (String × String)
  | _ => Unit

def Entry.liveAt (now : Nat) (e : Entry) : Bool :=
  match e.expireAt with
  | none => true
  | some t => now < t

/-- The entry of a key at a moment, with expired entries hidden. -/
def Db.get (db : Db) (now : Nat) (k : String) : Option Entry := (db k).filter (Entry.liveAt now)

def Db.put (db : Db) (k : String) (e : Option Entry) : Db := Function.update db k e

def Db.delAll (db : Db) (ks : List String) : Db := fun k => if k ∈ ks then none else db k

/-- Redis keeps expiries as signed 64-bit milliseconds. -/
def maxTime : Int := 2 ^ 63 - 1

/-- Sets a key to expire some seconds after `base`; a moment that has passed
deletes it. -/
def setExpiry (now : Nat) (db : Db) (k : String) (base : Nat) (secs : Int) : Except Err Unit × Db :=
  if 1000 * secs < -maxTime - 1 ∨ maxTime < base + 1000 * secs then (.error .invalidExpire, db)
  else match db.get now k with
    | none => (.ok (), db)
    | some e =>
      if base + 1000 * secs ≤ now then (.ok (), db.put k none)
      else (.ok (), db.put k (some { e with expireAt := some (base + 1000 * secs).toNat }))

/-- The value of a key set with an expiry. -/
def setWithExpiry (now : Nat) (db : Db) (k v : String) (secs : Nat) : Option Db :=
  if secs = 0 ∨ maxTime < (now + 1000 * secs : Nat) then none
  else some (db.put k (some ⟨.str v, some (now + 1000 * secs)⟩))

/-- Adds a member to a sorted set, or gives it a new score. -/
def zinsert (m : String) (score : Int) (ms : List (String × Int)) : List (String × Int) :=
  (m, score) :: ms.filter fun x => x.1 ≠ m

/-- Sets fields of a hash. -/
def hinsert (fs gs : List (String × String)) : List (String × String) :=
  fs ++ gs.filter fun x => x.1 ∉ fs.map Prod.fst

def exec (now : Nat) (db : Db) : (c : Cmd) → Except Err c.Reply × Db
  | .ping => (.ok (), db)
  | .setEx k v secs =>
    match setWithExpiry now db k v secs with
    | none => (.error .invalidExpire, db)
    | some db' => (.ok (), db')
  | .setNxEx k v secs =>
    match setWithExpiry now db k v secs with
    | none => (.error .invalidExpire, db)
    | some db' => if (db.get now k).isSome then (.ok false, db) else (.ok true, db')
  | .exists k => (.ok (db.get now k).isSome, db)
  | .del ks => (.ok (), db.delAll ks)
  | .zadd k m score =>
    match db.get now k with
    | none => (.ok (), db.put k (some ⟨.zset [(m, score)], none⟩))
    | some ⟨.zset ms, t⟩ => (.ok (), db.put k (some ⟨.zset (zinsert m score ms), t⟩))
    | some _ => (.error .wrongType, db)
  | .zremRangeByScore k max =>
    match db.get now k with
    | none => (.ok (), db)
    | some ⟨.zset ms, t⟩ =>
      let ms' := ms.filter fun x => max < x.2
      (.ok (), db.put k (if ms' = [] then none else some ⟨.zset ms', t⟩))
    | some _ => (.error .wrongType, db)
  | .zrange k =>
    match db.get now k with
    | none => (.ok [], db)
    | some ⟨.zset ms, _⟩ => (.ok (ms.map Prod.fst), db)
    | some _ => (.error .wrongType, db)
  | .expire k secs => setExpiry now db k now secs
  | .expireAt k ts => setExpiry now db k 0 ts
  | .hset k fs =>
    match db.get now k with
    | none => (.ok (), db.put k (some ⟨.hash fs, none⟩))
    | some ⟨.hash gs, t⟩ => (.ok (), db.put k (some ⟨.hash (hinsert fs gs), t⟩))
    | some _ => (.error .wrongType, db)
  | .hsetNx k f v =>
    match db.get now k with
    | none => (.ok true, db.put k (some ⟨.hash [(f, v)], none⟩))
    | some ⟨.hash gs, t⟩ =>
      if f ∈ gs.map Prod.fst then (.ok false, db)
      else (.ok true, db.put k (some ⟨.hash ((f, v) :: gs), t⟩))
    | some _ => (.error .wrongType, db)
  | .hgetAll k =>
    match db.get now k with
    | none => (.ok [], db)
    | some ⟨.hash gs, _⟩ => (.ok gs, db)
    | some _ => (.error .wrongType, db)

/-! ## Looking at the database -/

variable {db : Db} {now : Nat} {k k' : String}

theorem Db.get_eq_some {e : Entry} : db.get now k = some e ↔ db k = some e ∧ e.liveAt now = true :=
  Option.filter_eq_some_iff

@[simp] theorem Db.get_put_none : (db.put k none).get now k = none := by simp [Db.get, Db.put]

@[simp] theorem Db.get_put_some (e : Entry) :
    (db.put k (some e)).get now k = if e.liveAt now then some e else none := by
  simp [Db.get, Db.put, Option.filter]

theorem Db.put_ne (h : k' ≠ k) (e : Option Entry) : db.put k e k' = db k' := by
  simp [Db.put, h]

theorem Db.put_congr {db' : Db} (h : db' k' = db k') (e : Option Entry) :
    db'.put k e k' = db.put k e k' := by
  by_cases hk : k' = k
  · rw [hk, put, put, Function.update_self, Function.update_self]
  · rw [put_ne hk, put_ne hk, h]

theorem Db.get_put_ne (h : k' ≠ k) (e : Option Entry) :
    (db.put k e).get now k' = db.get now k' := by
  simp [Db.get, Db.put_ne h]

theorem Db.get_congr {db' : Db} (h : db' k = db k) : db'.get now k = db.get now k := by
  simp [Db.get, h]

@[simp] theorem Db.get_delAll {ks : List String} :
    (db.delAll ks).get now k = if k ∈ ks then none else db.get now k := by
  by_cases h : k ∈ ks <;> simp [Db.get, Db.delAll, h]

theorem Entry.liveAt_mono {e : Entry} {now' : Nat} (h : now ≤ now') (he : e.liveAt now' = true) :
    e.liveAt now = true := by
  unfold Entry.liveAt at he ⊢
  split <;> simp_all
  omega

/-- What has expired stays expired. -/
theorem Db.get_none_mono {now' : Nat} (h : now ≤ now') (hk : db.get now k = none) :
    db.get now' k = none := by
  cases hg : db.get now' k with
  | none => rfl
  | some e =>
    obtain ⟨h₁, h₂⟩ := Db.get_eq_some.mp hg
    rw [Db.get_eq_some.mpr ⟨h₁, Entry.liveAt_mono h h₂⟩] at hk
    cases hk

/-- A key seen later was there before, when nothing is written in between. -/
theorem Db.get_of_later {now' : Nat} {e : Entry} (h : now ≤ now')
    (hk : db.get now' k = some e) : db.get now k = some e := by
  obtain ⟨h₁, h₂⟩ := Db.get_eq_some.mp hk
  exact Db.get_eq_some.mpr ⟨h₁, Entry.liveAt_mono h h₂⟩

/-! ## What a command changes -/

/-- The keys a command may change. -/
def Cmd.writes : Cmd → List String
  | .ping | .exists _ | .zrange _ | .hgetAll _ => []
  | .setEx k .. | .setNxEx k .. | .zadd k .. | .zremRangeByScore k _ | .expire k _
  | .expireAt k _ | .hset k _ | .hsetNx k .. => [k]
  | .del ks => ks

/-- The key a command may make exist. -/
def Cmd.creates : Cmd → Option String
  | .setEx k .. | .setNxEx k .. | .zadd k .. | .hset k _ | .hsetNx k .. => some k
  | _ => none

/-- The key a command makes exist without an expiry. -/
def Cmd.opens : Cmd → Option String
  | .zadd k .. | .hset k _ | .hsetNx k .. => some k
  | _ => none

/-- The key a command sets the expiry of. -/
def Cmd.limits : Cmd → Option String
  | .expire k _ | .expireAt k _ => some k
  | _ => none

/-- The keys a command is there to delete, or to take members from. -/
def Cmd.removes : Cmd → List String
  | .del ks => ks
  | .zremRangeByScore k _ => [k]
  | _ => []

theorem setExpiry_of_ne (h : k' ≠ k) (base : Nat) (secs : Int) :
    (setExpiry now db k base secs).2 k' = db k' := by
  unfold setExpiry
  repeat' split
  all_goals first | rfl | exact Db.put_ne h _

theorem setWithExpiry_eq_some {v : String} {secs : Nat} {db' : Db}
    (h : setWithExpiry now db k v secs = some db') :
    secs ≠ 0 ∧ db' = db.put k (some ⟨.str v, some (now + 1000 * secs)⟩) := by
  simp only [setWithExpiry, Option.ite_none_left_eq_some, not_or, Option.some.injEq] at h
  exact ⟨h.1.1, h.2.symm⟩

theorem setWithExpiry_le {v : String} {secs : Nat} {db' : Db}
    (h : setWithExpiry now db k v secs = some db') : ((now + 1000 * secs : Nat) : Int) ≤ maxTime := by
  simp only [setWithExpiry, Option.ite_none_left_eq_some, not_or] at h
  omega

theorem setWithExpiry_of_ne {v : String} {secs : Nat} {db' : Db}
    (h : setWithExpiry now db k v secs = some db') (hk : k' ≠ k) : db' k' = db k' := by
  rw [(setWithExpiry_eq_some h).2]; exact Db.put_ne hk _

/-- A command changes only the keys it names. -/
theorem exec_of_not_writes {c : Cmd} (h : k ∉ c.writes) : (exec now db c).2 k = db k := by
  cases c <;> simp only [Cmd.writes, List.mem_singleton] at h <;> simp only [exec]
  case del => simp [Db.delAll, h]
  case expire => exact setExpiry_of_ne h _ _
  case expireAt => exact setExpiry_of_ne h _ _
  all_goals repeat' split
  all_goals first | rfl | exact Db.put_ne h _ | exact setWithExpiry_of_ne ‹_› h

/-- What a command may leave of a value that it does not create: the value,
or fewer members of a sorted set. -/
def Value.Shrinks (v v' : Value) : Prop :=
  v' = v ∨ ∃ ms ms', v = .zset ms ∧ v' = .zset ms' ∧ ms' ⊆ ms

theorem setExpiry_get_some {j : String} {base : Nat} {secs : Int} {e : Entry}
    (h : (setExpiry now db j base secs).2.get now k = some e) :
    ∃ e₀, db.get now k = some e₀ ∧ e.value = e₀.value := by
  by_cases hk : k = j
  · subst hk
    unfold setExpiry at h
    split at h
    · exact ⟨e, h, rfl⟩
    · split at h
      · exact ⟨e, h, rfl⟩
      · rename_i e₀ hg
        split at h
        · rw [Db.get_put_none] at h
          cases h
        · rw [Db.get_put_some, Option.ite_none_right_eq_some] at h
          cases h.2
          exact ⟨e₀, hg, rfl⟩
  · rw [Db.get_congr (setExpiry_of_ne hk base secs)] at h
    exact ⟨e, h, rfl⟩

/-- A command that does not create a key at most shrinks what it holds. -/
theorem exec_get_some {c : Cmd} {e : Entry} (hc : c.creates ≠ some k)
    (h : (exec now db c).2.get now k = some e) :
    ∃ e₀, db.get now k = some e₀ ∧ e₀.value.Shrinks e.value := by
  by_cases hw : k ∈ c.writes
  · cases c with
    | del ks =>
      have hk : k ∈ ks := hw
      simp only [exec, Db.get_delAll] at h
      rw [if_pos hk] at h
      cases h
    | zremRangeByScore g max =>
      cases List.mem_singleton.mp hw
      simp only [exec] at h
      split at h
      · exact ⟨e, h, .inl rfl⟩
      · rename_i ms t hg
        split at h
        · rw [Db.get_put_none] at h
          cases h
        · rw [Db.get_put_some, Option.ite_none_right_eq_some] at h
          cases h.2
          exact ⟨_, hg, .inr ⟨ms, _, rfl, rfl, List.filter_subset_self _⟩⟩
      · exact ⟨e, h, .inl rfl⟩
    | expire g secs =>
      obtain ⟨e₀, h₀, he⟩ := setExpiry_get_some h
      exact ⟨e₀, h₀, .inl he⟩
    | expireAt g ts =>
      obtain ⟨e₀, h₀, he⟩ := setExpiry_get_some h
      exact ⟨e₀, h₀, .inl he⟩
    | setEx | setNxEx | zadd | hset | hsetNx =>
      cases List.mem_singleton.mp hw
      exact absurd rfl hc
    | _ => cases hw
  · rw [Db.get_congr (exec_of_not_writes hw)] at h
    exact ⟨e, h, .inl rfl⟩

/-- Only the commands of `Cmd.creates` make an absent key exist. -/
theorem exec_get_none {c : Cmd} (h : db.get now k = none) (hc : c.creates ≠ some k) :
    (exec now db c).2.get now k = none := by
  rw [Option.eq_none_iff_forall_ne_some]
  intro e he
  obtain ⟨e₀, h₀, -⟩ := exec_get_some hc he
  rw [h] at h₀
  cases h₀

/-- A key whose expiry was set has one. -/
theorem setExpiry_expires {base : Nat} {secs : Int} {e : Entry}
    (hok : (setExpiry now db k base secs).1 = .ok ())
    (h : (setExpiry now db k base secs).2.get now k = some e) : e.expireAt ≠ none := by
  unfold setExpiry at hok h
  split at hok
  · cases hok
  · rename_i hr
    rw [if_neg hr] at h
    split at h
    · rename_i hg
      rw [hg] at h
      cases h
    · split at h
      · rw [Db.get_put_none] at h
        cases h
      · rw [Db.get_put_some, Option.ite_none_right_eq_some] at h
        cases h.2
        exact nofun

/-- A command that opens an absent key keeps the expiry of a present one. -/
theorem exec_opens_expiry {c : Cmd} {e₀ e : Entry} (hc : c.opens = some k)
    (hg : db.get now k = some e₀) (h : (exec now db c).2.get now k = some e) :
    e.expireAt = e₀.expireAt := by
  obtain ⟨v, t⟩ := e₀
  cases c with
  | zadd | hset | hsetNx =>
    cases hc
    cases v <;> simp only [exec, hg] at h
    all_goals try split at h
    all_goals first
      | cases h
        rfl
      | rw [hg] at h
        cases h
        rfl
      | rw [Db.get_put_some, Option.ite_none_right_eq_some] at h
        cases h.2
        rfl
  | _ => cases hc

/-- A key has no expiry after a command that was answered only if the command
has opened it, or if it had none before and the command did not set one. -/
theorem exec_endless {c : Cmd} {a : c.Reply} {e : Entry} (hok : (exec now db c).1 = .ok a)
    (h : (exec now db c).2.get now k = some e) (he : e.expireAt = none) :
    (db.get now k = none ∧ c.opens = some k) ∨
      c.limits ≠ some k ∧ ∃ e₀, db.get now k = some e₀ ∧ e₀.expireAt = none := by
  by_cases hw : k ∈ c.writes
  swap
  · rw [Db.get_congr (exec_of_not_writes hw)] at h
    refine .inr ⟨fun hl => hw ?_, e, h, he⟩
    cases c <;> simp_all [Cmd.limits, Cmd.writes]
  cases c with
  | del ks =>
    have hk : k ∈ ks := hw
    simp only [exec, Db.get_delAll, if_pos hk] at h
    cases h
  | setEx j v secs =>
    cases List.mem_singleton.mp hw
    simp only [exec] at hok h
    split at hok
    · cases hok
    · rename_i db' hs
      rw [hs] at h
      obtain ⟨-, rfl⟩ := setWithExpiry_eq_some hs
      rw [Db.get_put_some, Option.ite_none_right_eq_some] at h
      cases h.2
      cases he
  | setNxEx j v secs =>
    cases List.mem_singleton.mp hw
    simp only [exec] at hok h
    split at hok
    · cases hok
    · rename_i db' hs
      simp only [hs] at h
      split at h
      · exact .inr ⟨nofun, e, h, he⟩
      · obtain ⟨-, rfl⟩ := setWithExpiry_eq_some hs
        rw [Db.get_put_some, Option.ite_none_right_eq_some] at h
        cases h.2
        cases he
  | expire j secs =>
    cases List.mem_singleton.mp hw
    exact absurd he (setExpiry_expires hok h)
  | expireAt j ts =>
    cases List.mem_singleton.mp hw
    exact absurd he (setExpiry_expires hok h)
  | zremRangeByScore g max =>
    cases List.mem_singleton.mp hw
    refine .inr ⟨nofun, ?_⟩
    simp only [exec] at h
    split at h
    · exact ⟨e, h, he⟩
    · rename_i ms t hg
      split at h
      · rw [Db.get_put_none] at h
        cases h
      · rw [Db.get_put_some, Option.ite_none_right_eq_some] at h
        cases h.2
        exact ⟨_, hg, he⟩
    · exact ⟨e, h, he⟩
  | zadd | hset | hsetNx =>
    cases List.mem_singleton.mp hw
    cases hg : db.get now k with
    | none => exact .inl ⟨rfl, rfl⟩
    | some e₀ => exact .inr ⟨nofun, e₀, rfl, (exec_opens_expiry rfl hg h).symm.trans he⟩
  | _ => cases hw

/-- A reservation that fails changes nothing. -/
theorem exec_setNxEx_false {v : String} {secs : Nat}
    (h : (exec now db (.setNxEx k v secs)).1 = .ok false) :
    (exec now db (.setNxEx k v secs)).2 = db := by
  simp only [exec] at h ⊢
  cases hs : setWithExpiry now db k v secs with
  | none => rfl
  | some db' =>
    simp only [hs] at h ⊢
    by_cases hn : (db.get now k).isSome = true
    · rw [if_pos hn]
    · rw [if_neg hn] at h
      cases h

end Redis

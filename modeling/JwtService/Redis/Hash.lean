import JwtService.Redis.Db

/-!
# Hashes with a mark

A hash whose record is written once, and to which one more field is added by
whoever comes first (`Db.mark`). The mark keeps the fields and the expiry of
the record; on a key that is absent it makes a hash of its own that does not
expire.
-/

namespace Redis

variable {db : Db} {now : Nat} {k k' f v : String}

/-- The key is absent or holds a hash. -/
def Db.IsHash (db : Db) (now : Nat) (k : String) : Prop :=
  ∀ e, db.get now k = some e → ∃ fs, e.value = .hash fs

/-- The fields of a hash; an absent one has none. -/
def Db.fields (db : Db) (now : Nat) (k : String) : List (String × String) :=
  match db.get now k with
  | some ⟨.hash fs, _⟩ => fs
  | _ => []

/-- The database with the field `f` added to the hash `k`. -/
def Db.mark (db : Db) (now : Nat) (k f v : String) : Db :=
  db.put k (some ⟨.hash ((f, v) :: db.fields now k), (db.get now k).bind Entry.expireAt⟩)

theorem Db.fields_of_get {fs : List (String × String)} {t : Option Nat}
    (h : db.get now k = some ⟨.hash fs, t⟩) : db.fields now k = fs := by
  rw [fields, h]

theorem Db.fields_of_none (h : db.get now k = none) : db.fields now k = [] := by
  rw [fields, h]

theorem Db.IsHash.cases (h : db.IsHash now k) :
    db.get now k = none ∨ ∃ fs t, db.get now k = some ⟨.hash fs, t⟩ := by
  cases hg : db.get now k with
  | none => exact .inl rfl
  | some e =>
    obtain ⟨fs, hv⟩ := h e hg
    obtain ⟨v, t⟩ := e
    exact .inr ⟨fs, t, by rw [← hv]⟩

theorem exec_hgetAll (h : db.IsHash now k) : exec now db (.hgetAll k) = (.ok (db.fields now k), db) := by
  rcases h.cases with hg | ⟨fs, t, hg⟩
  · rw [Db.fields_of_none hg]
    simp only [exec, hg]
  · rw [Db.fields_of_get hg]
    simp only [exec, hg]

/-- The first to add the field succeeds, the others do not. -/
theorem exec_hsetNx (h : db.IsHash now k) : exec now db (.hsetNx k f v) =
    if f ∈ (db.fields now k).map Prod.fst then (.ok false, db) else (.ok true, db.mark now k f v) := by
  rcases h.cases with hg | ⟨fs, t, hg⟩
  · rw [Db.mark, Db.fields_of_none hg, hg]
    simp only [exec, hg]
    rfl
  · rw [Db.mark, Db.fields_of_get hg, hg]
    simp only [exec, hg]
    split <;> rfl

theorem Db.mark_ne (h : k' ≠ k) : db.mark now k f v k' = db k' := Db.put_ne h _

/-- A hash that was marked has the field. -/
theorem Db.field_of_mark {e : Entry} {now' : Nat} (h : (db.mark now k f v).get now' k = some e) :
    ∃ fs, e.value = .hash fs ∧ f ∈ fs.map Prod.fst := by
  rw [mark, Db.get_put_some] at h
  split at h
  · cases h
    exact ⟨_, rfl, List.mem_cons_self⟩
  · cases h

/-- A mark leaves the moment a key vanishes. -/
theorem Db.get_mark {e : Entry} {now' : Nat} (hn : now ≤ now') (h : db.get now' k = some e) :
    (db.mark now k f v).get now' k = some ⟨.hash ((f, v) :: db.fields now k), e.expireAt⟩ := by
  have hlive : Entry.liveAt now' ⟨.hash ((f, v) :: db.fields now k), e.expireAt⟩ = true :=
    (Db.get_eq_some.mp h).2
  rw [mark, Db.get_of_later hn h, Option.bind_some, Db.get_put_some, if_pos hlive]

theorem exec_hset_of_none {fs : List (String × String)} (h : db.get now k = none) :
    exec now db (.hset k fs) = (.ok (), db.put k (some ⟨.hash fs, none⟩)) := by
  simp only [exec, h]

/-- Setting the expiry of a key that has none. -/
theorem exec_expire {ttl : Nat} {v : Value} (h₀ : 0 < ttl) (hm : (now + 1000 * ttl : Int) ≤ maxTime) :
    exec now (db.put k (some ⟨v, none⟩)) (.expire k ttl) =
      (.ok (), db.put k (some ⟨v, some (now + 1000 * ttl)⟩)) := by
  have hlive : Entry.liveAt now ⟨v, none⟩ = true := rfl
  simp only [exec, setExpiry, Db.get_put_some, hlive, if_true]
  have hmax : maxTime = 9223372036854775807 := rfl
  rw [if_neg (by omega), if_neg (by omega)]
  simp only [Db.put, Function.update_idem]
  rfl

/-- Redis refuses an expiry in the past, or deletes the key. -/
theorem exec_expire_past {secs : Int} {v : Value} (h : secs < 0) :
    exec now (db.put k (some ⟨v, none⟩)) (.expire k secs) =
        (.error .invalidExpire, db.put k (some ⟨v, none⟩)) ∨
      exec now (db.put k (some ⟨v, none⟩)) (.expire k secs) = (.ok (), db.put k none) := by
  have hlive : Entry.liveAt now ⟨v, none⟩ = true := rfl
  simp only [exec, setExpiry, Db.get_put_some, hlive, if_true]
  by_cases hb : 1000 * secs < -maxTime - 1 ∨ maxTime < now + 1000 * secs
  · exact .inl (if_pos hb)
  · rw [if_neg hb, if_pos (by omega)]
    simp only [Db.put, Function.update_idem, or_true]

/-! ## The fields of a key -/

/-- Time takes all the fields or none. -/
theorem Db.fields_later {now' : Nat} (h : now ≤ now') :
    db.fields now' k = db.fields now k ∨ db.fields now' k = [] := by
  cases hg : db.get now' k with
  | none => exact .inr (fields_of_none hg)
  | some e =>
    left
    rw [fields, fields, hg, Db.get_of_later h hg]

/-- A command that does not create the key leaves the fields or deletes them. -/
theorem fields_exec {c : Cmd} (hc : c.creates ≠ some k) :
    (exec now db c).2.fields now k = db.fields now k ∨ (exec now db c).2.fields now k = [] := by
  cases hg : (exec now db c).2.get now k with
  | none => exact .inr (Db.fields_of_none hg)
  | some e =>
    obtain ⟨⟨v₀, t₀⟩, he₀, hv⟩ := exec_get_some hc hg
    obtain ⟨v, t⟩ := e
    rcases hv with hv | ⟨ms, ms', -, hz, -⟩
    · left
      obtain rfl : v = v₀ := hv
      rw [Db.fields, Db.fields, hg, he₀]
      cases v <;> rfl
    · right
      obtain rfl : v = .zset ms' := hz
      rw [Db.fields, hg]

/-- The fields that are set come first. -/
theorem fields_hset (gs : List (String × String)) :
    (∃ hs, (exec now db (.hset k gs)).2.fields now k = gs ++ hs) ∨
      (exec now db (.hset k gs)).2.fields now k = [] := by
  simp only [exec]
  split
  · refine .inl ⟨[], ?_⟩
    rw [List.append_nil]
    exact Db.fields_of_get (Db.get_put_some _)
  · rename_i hs t hg
    have hlive : Entry.liveAt now ⟨.hash (hinsert gs hs), t⟩ = true := (Db.get_eq_some.mp hg).2
    have hget : (db.put k (some ⟨.hash (hinsert gs hs), t⟩)).get now k = some ⟨.hash (hinsert gs hs), t⟩ := by
      rw [Db.get_put_some, if_pos hlive]
    exact .inl ⟨_, Db.fields_of_get hget⟩
  · rename_i e hne hg
    right
    obtain ⟨v, t⟩ := e
    rw [Db.fields, hg]
    cases v with
    | hash fs => exact absurd rfl (hne fs t)
    | _ => rfl

/-- A field that is not there yet is put in front of the others. -/
theorem fields_hsetNx (h : db.IsHash now k) :
    (exec now db (.hsetNx k f v)).2.fields now k = db.fields now k ∨
      (exec now db (.hsetNx k f v)).2.fields now k = (f, v) :: db.fields now k := by
  rw [exec_hsetNx h]
  split
  · exact .inl rfl
  · have hlive : Entry.liveAt now ⟨.hash ((f, v) :: db.fields now k), (db.get now k).bind Entry.expireAt⟩ =
        true := by
      cases hg : db.get now k with
      | none => rfl
      | some e => exact (Db.get_eq_some.mp hg).2
    have hget : (db.mark now k f v).get now k = some ⟨.hash ((f, v) :: db.fields now k),
        (db.get now k).bind Entry.expireAt⟩ := by
      rw [Db.mark, Db.get_put_some, if_pos hlive]
    exact .inr (Db.fields_of_get hget)

end Redis

import JwtService.Proof.Outage
import JwtService.Proof.Past

/-!
# How many signing keys are created

Requests for the signing key side by side, with a key service that keeps the
keys it created until it drops them (`keyed`). A request reads the current id,
asks the key service, and writes the id of the key it was given, so between
its answer and its write it holds an id the others do not know of (`held`).

Where keys are created only while there is none, current or held, and no
dropped id replaces a current one, the keys are as many as the current key was
dropped, and one (`keys_not_multiplied`). Nothing in the code sees to this: two
first requests create a key each (`keys_multiplied`).
-/

namespace JwtService

open Interaction

/-! ## The key service -/

/-- The world of the service, and the ids of the keys the key service has. -/
structure KeyedWorld where
  world : World
  keys : List String

/-- Time passes, or the key service drops a key. -/
inductive KeyMove where
  | pass (d : Nat)
  | drop (id : String)

/-- What the key service answers, and the keys it has afterwards. -/
def KeyReply (keys : List String) : (e : Eff) → e.Reply → List String → Prop
  | .createKey _, .response status (some key), keys' =>
    (200 ≤ status ∧ status < 300) ∧ keys' = key.id :: keys
  | .createKey _, _, _ => False
  | .getKey id, .response status body, keys' =>
    keys' = keys ∧ if id ∈ keys then (200 ≤ status ∧ status < 300) ∧ ∃ key, body = some key ∧ key.id = id
      else status = 404
  | .getKey _, .unreachable, _ => False
  | _, _, keys' => keys' = keys

/-- The service with a key service that never fails. -/
def keyed (s : JwkService) : System svc KeyedWorld KeyMove where
  call w e r w' := (service s).call w.world e r w'.world ∧ KeyReply w.keys e r w'.keys
  env w l w' :=
    match l with
    | .pass d => w' = { w with world := w.world.tick d }
    | .drop id => id ∈ w.keys ∧ w' = { w with keys := w.keys.filter (· ≠ id) }

/-! ## What a request holds -/

/-- The id a call was given. -/
def Call.gives : Call svc → Option String
  | ⟨.createKey _, .response _ (some key)⟩ => some key.id
  | ⟨.getKey _, .response status (some key)⟩ =>
    if 200 ≤ status ∧ status < 300 then some key.id else none
  | _ => none

/-- The id a request was given and has not written yet. -/
def held (h : Calls) : Option String := h.getLast?.bind Call.gives

@[simp] theorem held_nil : held [] = none := rfl

@[simp] theorem held_snoc (h : Calls) (x : Call svc) : held (h ++ [x]) = Call.gives x := by
  simp [held]

/-- A request writes the id it holds, at once, and no other. -/
def WritesHeld (h : Calls) (e : Eff) : Prop := ∀ id, e = .writeKeyId id ↔ held h = some id

theorem WritesHeld.of_none {h : Calls} {e : Eff} (hh : held h = none) (he : ∀ id, e ≠ .writeKeyId id) :
    WritesHeld h e := fun id => by
  rw [hh]
  exact ⟨fun h => absurd h (he id), nofun⟩

section

variable {h : Calls}

end

/-! ## Counting -/

section Counting

variable {ι : Type}

/-- The events of requests, time, and dropped keys. -/
abbrev KeyEvents (ι : Type) := List (Event svc ι KeyMove)

def Event.creates : Event svc ι KeyMove → Bool
  | .call _ ⟨.createKey _, _⟩ => true
  | _ => false

/-- How many keys were asked for (`POST /jwks`). -/
def creations (tr : KeyEvents ι) : Nat := tr.countP Event.creates

/-- The current id after an event. -/
def Event.keyId (id : String) : Event svc ι KeyMove → String
  | .call _ ⟨.writeKeyId id', _⟩ => id'
  | _ => id

/-- How often the key service dropped the key that was current, where the
current id is `id` before the events. -/
def activeDrops (id : String) : KeyEvents ι → Nat
  | [] => 0
  | .env (.drop id') :: tr => (if id' = id then 1 else 0) + activeDrops id tr
  | ev :: tr => activeDrops (Event.keyId id ev) tr

/-- The current id after the events. -/
def currentId (id : String) (tr : KeyEvents ι) : String := tr.foldl Event.keyId id

theorem activeDrops_append (id : String) (t₁ t₂ : KeyEvents ι) :
    activeDrops id (t₁ ++ t₂) = activeDrops id t₁ + activeDrops (currentId id t₁) t₂ := by
  induction t₁ generalizing id with
  | nil => exact (Nat.zero_add _).symm
  | cons ev t₁ ih =>
    cases ev with
    | env l =>
      cases l with
      | pass d => exact ih id
      | drop id' =>
        simp only [List.cons_append, activeDrops, ih, Nat.add_assoc]
        rfl
    | call i c => exact ih _

variable [DecidableEq ι] {s : JwkService} {id₀ : String} {h : KeyEvents ι} {w w' : KeyedWorld}

/-- There is no key: neither a current one nor one that a request holds. -/
def Keyless (h : KeyEvents ι) (w : KeyedWorld) : Prop :=
  w.world.keyId ∉ w.keys ∧ ∀ j id, held (callsOf j h) = some id → id ∉ w.keys

/-- A key is asked for where there is none, no dropped id replaces a current
one, and no key that is held is dropped before it is current. -/
def InTurn (h : KeyEvents ι) (w : KeyedWorld) : Event svc ι KeyMove → Prop
  | .call _ ⟨.createKey _, _⟩ => Keyless h w
  | .call _ ⟨.writeKeyId id, _⟩ => w.world.keyId ∈ w.keys → id ∈ w.keys
  | .env (.drop id) => id = w.world.keyId ∨ ∀ j, held (callsOf j h) ≠ some id
  | _ => True

/-- The keys created and dropped so far. -/
structure Counted (id₀ : String) (h : KeyEvents ι) (w : KeyedWorld) : Prop where
  current : w.world.keyId = currentId id₀ h
  bound : creations h ≤ 1 + activeDrops id₀ h
  keyless : Keyless h w → creations h ≤ activeDrops id₀ h

theorem Counted.env (hc : Counted id₀ h w) {l : KeyMove} (hs : (keyed s).env w l w')
    (hg : InTurn h w (.env l)) : Counted id₀ (h ++ [.env l]) w' := by
  have hcr : creations (h ++ [.env l]) = creations h := by
    simp [creations, Event.creates]
  have hcalls : ∀ j : ι, callsOf j (h ++ [.env l]) = callsOf j h := fun j => by
    rw [callsOf_append, callsOf_env, callsOf_nil, List.append_nil]
  have hcur : currentId id₀ (h ++ [.env l]) = currentId id₀ h := by
    rw [currentId, List.foldl_append]
    rfl
  cases l with
  | pass d =>
    obtain rfl : w' = { w with world := w.world.tick d } := hs
    have hdr : activeDrops id₀ (h ++ [.env (.pass d)]) = activeDrops id₀ h :=
      activeDrops_append id₀ h _
    refine ⟨hc.current.trans hcur.symm, by rw [hcr, hdr]; exact hc.bound, fun hk => ?_⟩
    rw [hcr, hdr]
    exact hc.keyless ⟨hk.1, fun j id hj => hk.2 j id (by rw [hcalls]; exact hj)⟩
  | drop id =>
    obtain ⟨hid, rfl⟩ := hs
    have hdr : activeDrops id₀ (h ++ [.env (.drop id)]) =
        activeDrops id₀ h + if id = w.world.keyId then 1 else 0 := by
      rw [activeDrops_append, ← hc.current]
      rfl
    refine ⟨hc.current.trans hcur.symm, ?_, fun hk => ?_⟩
    · rw [hcr, hdr]
      exact Nat.le_trans hc.bound (by omega)
    · rw [hcr, hdr]
      by_cases hid' : id = w.world.keyId
      · rw [if_pos hid', Nat.add_comm]
        exact hc.bound
      · -- The current key stays, and so does every key that is held.
        rw [if_neg hid', Nat.add_zero]
        have hmem : ∀ x, x ≠ id → (x ∈ w.keys.filter (· ≠ id) ↔ x ∈ w.keys) := fun x hx => by
          simp [hx]
        refine hc.keyless ⟨fun hcur => hk.1 ((hmem _ (Ne.symm hid')).mpr hcur), fun j x hj hx => ?_⟩
        have hne : x ≠ id := fun he => by
          rw [he] at hj
          exact hg.elim hid' fun hno => hno j hj
        exact hk.2 j x (by rw [hcalls]; exact hj) ((hmem x hne).mpr hx)

/-- Only a write changes the current id. -/
theorem call_keyId {w w' : World} {e : Eff} {r : e.Reply} (h : (service s).call w e r w')
    (he : ∀ id, e ≠ .writeKeyId id) : w'.keyId = w.keyId := by
  obtain ⟨c, h⟩ := h
  cases e with
  | writeKeyId id => exact absurd rfl (he id)
  | redis d => rcases call_redis ⟨c, h⟩ with ⟨rfl, -⟩ | ⟨rfl, -⟩ <;> rfl
  | newUuid => obtain ⟨-, -, rfl⟩ := call_newUuid ⟨c, h⟩; rfl
  | lockRefresh => rw [(call_lockRefresh ⟨c, h⟩).2]
  | unlockRefresh => rw [call_unlockRefresh ⟨c, h⟩]
  | cache op => rw [(call_cache ⟨c, h⟩).2]
  | fetchKeys => rw [call_fetchKeys ⟨c, h⟩]
  | metric m => rw [call_metric ⟨c, h⟩]
  | panic msg => exact r.elim
  | utcNow | readKeyId | getKey | createKey =>
    cases c <;> first
      | (cases h; done)
      | (cases Option.some.inj h; rfl)

theorem call_writeKeyId {w w' : World} {id : String} {r : (Eff.writeKeyId id).Reply}
    (h : (service s).call w (.writeKeyId id) r w') : w'.keyId = id := by
  obtain ⟨c, h⟩ := h
  cases c with
  | plain => cases Option.some.inj h; rfl
  | _ => cases h

/-- Only a creation changes the keys. -/
theorem KeyReply.keys {keys keys' : List String} {e : Eff} {r : e.Reply}
    (h : KeyReply keys e r keys') (he : ∀ alg, e ≠ .createKey alg) : keys' = keys := by
  cases e with
  | createKey alg => exact absurd rfl (he alg)
  | getKey id =>
    cases r with
    | unreachable => exact h.elim
    | response status body => exact h.1
  | _ => exact h

theorem KeyReply.created {keys keys' : List String} {alg : String} {r : (Eff.createKey alg).Reply}
    (h : KeyReply keys (.createKey alg) r keys') :
    ∃ status key, r = .response status (some key) ∧ keys' = key.id :: keys := by
  rcases r with _ | ⟨status, _ | key⟩
  · exact h.elim
  · exact h.elim
  · exact ⟨status, key, rfl, h.2⟩

theorem Counted.call (hc : Counted id₀ h w) {i : ι} {e : Eff} {r : e.Reply}
    (hw : WritesHeld (callsOf i h) e) (hg : InTurn h w (.call i ⟨e, r⟩))
    (hs : (keyed s).call w e r w') : Counted id₀ (h ++ [.call i ⟨e, r⟩]) w' := by
  have hself : held (callsOf i (h ++ [.call i ⟨e, r⟩])) = Call.gives ⟨e, r⟩ := by
    rw [callsOf_append, callsOf_call_self, callsOf_nil, held_snoc]
  have hother : ∀ j, j ≠ i → callsOf j (h ++ [.call i ⟨e, r⟩]) = callsOf j h := fun j hj => by
    rw [callsOf_append, callsOf_call_ne hj.symm, callsOf_nil, List.append_nil]
  have hdr : activeDrops id₀ (h ++ [.call i ⟨e, r⟩]) = activeDrops id₀ h :=
    activeDrops_append id₀ h _
  have hcur : currentId id₀ (h ++ [.call i ⟨e, r⟩]) =
      Event.keyId (currentId id₀ h) (.call i (⟨e, r⟩ : Call svc)) := by
    rw [currentId, List.foldl_append]
    rfl
  by_cases hcreate : ∃ alg, e = .createKey alg
  · -- There was no key, and now the request holds one.
    obtain ⟨alg, rfl⟩ := hcreate
    obtain ⟨status, key, rfl, hkeys⟩ := hs.2.created
    have hcr : creations (h ++ [.call i ⟨.createKey alg, .response status (some key)⟩]) =
        creations h + 1 := by
      simp [creations, Event.creates]
    refine ⟨(call_keyId hs.1 nofun).trans (hc.current.trans hcur.symm), ?_, fun hk => ?_⟩
    · rw [hcr, hdr, Nat.add_comm]
      exact Nat.add_le_add_left (hc.keyless hg) 1
    · refine absurd ?_ (hk.2 i key.id hself)
      rw [hkeys]
      exact List.mem_cons_self
  · have hcr : creations (h ++ [.call i ⟨e, r⟩]) = creations h := by
      have : Event.creates (.call i (⟨e, r⟩ : Call svc)) = false := by
        cases e with
        | createKey alg => exact absurd ⟨alg, rfl⟩ hcreate
        | _ => rfl
      simp [creations, this]
    have hkeys : w'.keys = w.keys := hs.2.keys fun alg he => hcreate ⟨alg, he⟩
    by_cases hwrite : ∃ id, e = .writeKeyId id
    · obtain ⟨id, rfl⟩ := hwrite
      have hid := call_writeKeyId hs.1
      refine ⟨hid.trans hcur.symm, by rw [hcr, hdr]; exact hc.bound, fun hk => ?_⟩
      rw [hcr, hdr]
      obtain ⟨hk₁, hk₂⟩ := hk
      rw [hid, hkeys] at hk₁
      refine hc.keyless ⟨fun hlive => hk₁ (hg hlive), fun j x hj hx => ?_⟩
      by_cases hji : j = i
      · subst hji
        rw [(hw id).mp rfl] at hj
        cases hj
        exact hk₁ hx
      · refine hk₂ j x ?_ (by rw [hkeys]; exact hx)
        rw [hother j hji]
        exact hj
    · -- The request holds nothing before this call.
      have hid := call_keyId hs.1 fun id he => hwrite ⟨id, he⟩
      have hnext : Event.keyId (currentId id₀ h) (.call i (⟨e, r⟩ : Call svc)) = currentId id₀ h := by
        cases e with
        | writeKeyId id => exact absurd ⟨id, rfl⟩ hwrite
        | _ => rfl
      refine ⟨hid.trans (hc.current.trans (hcur.trans hnext).symm), by rw [hcr, hdr]; exact hc.bound,
        fun hk => ?_⟩
      rw [hcr, hdr]
      obtain ⟨hk₁, hk₂⟩ := hk
      rw [hid, hkeys] at hk₁
      refine hc.keyless ⟨hk₁, fun j x hj hx => ?_⟩
      by_cases hji : j = i
      · subst hji
        exact hwrite ⟨x, (hw x).mpr hj⟩
      · refine hk₂ j x ?_ (by rw [hkeys]; exact hx)
        rw [hother j hji]
        exact hj

end Counting

/-! ## Two first requests -/

end JwtService

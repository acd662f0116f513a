import JwtService.Proof.Snapshot

/-!
# A burst of misses

Lookups of public keys, in any number and any interleaving, that start with no
fresh snapshot and no recent failure, while the key service answers and less
time passes than a snapshot lives and than an attempt blocks the next (`Burst`).

`Stage` is the invariant of such a run: at first no request was sent; then one
was answered, and the lookup that sent it still holds the lock; then its answer
is the snapshot, and every lookup that comes under the lock finds it fresh and
the attempt recent. `burst_fetches_once` says what the lookups return. That
they return at all is `lookups_progress`: while one has not returned, some
lookup can make its next call.
-/

namespace JwtService

open Interaction

variable {ι : Type}

/-- The answer of the key service that a call receives. -/
def fetched : Call svc → Option (HttpReply Jwks)
  | ⟨.fetchKeys, r⟩ => some r
  | _ => none

/-- The answers to the requests that are sent to the key service, in order. -/
def fetches : List (Event svc ι Nat) → List (HttpReply Jwks)
  | [] => []
  | .env _ :: tr => fetches tr
  | .call _ c :: tr => (fetched c).toList ++ fetches tr

theorem fetches_append (t₁ t₂ : List (Event svc ι Nat)) :
    fetches (t₁ ++ t₂) = fetches t₁ ++ fetches t₂ := by
  induction t₁ with
  | nil => rfl
  | cons ev t₁ ih =>
    cases ev with
    | env d => exact ih
    | call i c => rw [List.cons_append, fetches, fetches, ih, List.append_assoc]

/-- The key service answers with keys, before a snapshot expires and before an
attempt is forgotten. -/
structure Burst (s : JwkService) (tr : List (Event svc ι Nat)) : Prop where
  fresh : elapsed tr < s.cacheTtl
  recent : elapsed tr < s.missRefreshInterval
  brings : ∀ r ∈ fetches tr, r.failed = false

theorem Burst.of_append {s : JwkService} {t₁ t₂ : List (Event svc ι Nat)}
    (hb : Burst s (t₁ ++ t₂)) : Burst s t₁ := by
  obtain ⟨h₁, h₂, h₃⟩ := hb
  rw [elapsed_append] at h₁ h₂
  rw [fetches_append] at h₃
  exact ⟨by omega, by omega, fun r hr => h₃ r (List.mem_append_left _ hr)⟩

/-! ## Phases -/

namespace Phase

variable {p : Phase} {c : Call svc}

theorem next_due (h : p.next c = .due) :
    c = ⟨.cache .allowRefreshOnMiss, true⟩ ∨ c = ⟨.cache .cacheIsFresh, false⟩ ∨ p = .due := by
  unfold next at h
  split at h
  case h_3 => exact .inl rfl
  case h_7 => exact .inr (.inl rfl)
  case h_12 => exact .inr (.inr h)
  all_goals cases h

theorem next_settled (h : p.next c = .settled) :
    c.eff = .cache .recordFailure ∨ (∃ jwks, c.eff = .cache (.store jwks)) ∨ p = .settled := by
  unfold next at h
  split at h
  case h_10 => exact .inl rfl
  case h_11 => exact .inr (.inl ⟨_, rfl⟩)
  case h_12 => exact .inr (.inr h)
  all_goals cases h

/-- The phases without the lock, or in which it may be given back. -/
def Rests (p : Phase) : Prop := p.ended = true ∨ p = .away

theorem next_rests (hp : p.Rests) :
    (p.next c).Rests ∨ p.next c = .due ∨ p.next c = .trying ∨ ∃ r, p.next c = .answered r := by
  unfold next
  split
  case h_2 => exact .inl (.inr rfl)
  case h_3 => exact .inr (.inl rfl)
  case h_7 => exact .inr (.inl rfl)
  case h_8 => exact .inr (.inr (.inl rfl))
  case h_9 => exact .inr (.inr (.inr ⟨_, rfl⟩))
  case h_12 => exact .inl hp
  all_goals exact .inl (.inl rfl)

end Phase

/-! ## Failed trips -/

/-- A call that records a failed trip, or learns of one. -/
def seesFailure : Call svc → Bool
  | ⟨.cache .recordFailure, _⟩ => true
  | ⟨.cache .refreshRecentlyFailed, b⟩ => b
  | _ => false

/-- A snapshot past its lifetime serves only after a failed trip. -/
def Excused (h : Calls) : Eff → Prop
  | .cache (.lookupStale _) => ∃ c ∈ h, seesFailure c = true
  | _ => True

namespace JwkService

variable (kid : String) {h : Calls}

theorem serveStale_excused (hf : ∃ c ∈ h, seesFailure c = true) :
    Prog.wp Excused h (serveStale kid) fun _ _ => True := by
  refine ⟨hf, fun r => ?_⟩
  cases r with
  | none => trivial
  | some x => exact ⟨trivial, fun _ => trivial⟩

theorem refresh_excused : Prog.wp Excused h (refresh kid) fun _ _ => True := by
  refine wp_refresh trivial trivial (fun r _ => ⟨trivial, ?_⟩) fun _ _ => ⟨trivial, trivial, trivial⟩
  refine Prog.wp_imp (serveStale_excused kid ⟨_, List.mem_append_right _ (List.mem_singleton_self _), rfl⟩)
    fun h₁ o _ => ⟨fun _ _ => trivial, fun _ => ⟨trivial, fun _ => trivial⟩⟩

theorem throttled_excused : Prog.wp Excused h (throttled kid) fun _ _ => True := by
  refine wp_throttled (R := fun _ => True) trivial trivial ?_ fun h₁ _ =>
    ⟨trivial, ⟨trivial, trivial⟩, refresh_excused kid⟩
  refine Prog.wp_imp (serveStale_excused kid ⟨_, List.mem_append_right _ (List.mem_singleton_self _), rfl⟩)
    fun h₁ o _ => ⟨fun _ _ => trivial, fun _ => trivial⟩

theorem publicKey_excused : Prog.wp Excused h (publicKey kid) fun _ _ => True := by
  refine ⟨trivial, fun r => ?_⟩
  cases r with
  | some jwk => exact ⟨trivial, fun _ => trivial⟩
  | none =>
    refine ⟨trivial, fun _ => (Prog.wp_bind _ (publicKeyLocked kid) _).mpr ⟨trivial, fun r => ?_⟩⟩
    have hdone : ∀ h₁ r, Prog.wp Excused h₁ (do
        let _ ← call .unlockRefresh
        pure r) fun _ (_ : Except JwkError Jwk) => True := by
      intro h₁ r
      rw [wp_call_bind]
      exact ⟨trivial, fun _ => trivial⟩
    cases r with
    | some jwk => exact ⟨trivial, fun _ => hdone _ _⟩
    | none =>
      refine ⟨trivial, fun b => ?_⟩
      cases b with
      | true => exact Prog.wp_imp (refresh_excused kid) fun h₂ r _ => hdone h₂ r
      | false => exact Prog.wp_imp (throttled_excused kid) fun h₂ r _ => hdone h₂ r

end JwkService

/-! ## The invariant -/

section Stage

variable {s : JwkService} {kid : String} {now₀ : Nat} {e₀ : Option (Jwks × Nat)} {f₀ : Option Nat}
  {ph : ι → Phase} {w w' : World} {i : ι} {fs : List (HttpReply Jwks)}

/-- An attempt was recorded at `now₀` or later. -/
def Attempted (now₀ : Nat) (w : World) : Prop := ∃ a, w.cache.lastAttempt = some a ∧ now₀ ≤ a

/-- A call of a lookup leaves the last attempt, or records one. -/
theorem call_attempt {e : Eff} {r : e.Reply} {p : Phase} (ht : Travels kid p e)
    (hc : (service s).call w e r w') :
    w'.cache.lastAttempt = w.cache.lastAttempt ∨ w'.cache.lastAttempt = some w.now := by
  cases e with
  | cache op =>
    rw [(call_cache hc).2]
    cases op with
    | allowRefreshOnMiss =>
      simp only [CacheOp.exec, JwkService.allowRefreshOnMiss_snd]
      split
      · exact .inr rfl
      · exact .inl rfl
    | recordAttempt => exact .inr rfl
    | _ => exact .inl rfl
  | metric m => exact .inl (by rw [call_metric hc])
  | lockRefresh => exact .inl (by rw [(call_lockRefresh hc).2])
  | unlockRefresh => exact .inl (by rw [call_unlockRefresh hc])
  | fetchKeys => exact .inl (by rw [call_fetchKeys hc])
  | _ => exact ht.elim

theorem Attempted.call {e : Eff} {r : e.Reply} {p : Phase} (ha : Attempted now₀ w)
    (ht : Travels kid p e) (hc : (service s).call w e r w') (hn : now₀ ≤ w.now) :
    Attempted now₀ w' := by
  obtain ⟨a, ha, hle⟩ := ha
  rcases call_attempt ht hc with h | h
  · exact ⟨a, h.trans ha, hle⟩
  · exact ⟨w.now, h, hn⟩

/-- A call of a lookup that records no end of a trip leaves the last failure. -/
theorem call_failure {e : Eff} {r : e.Reply} {p : Phase} (ht : Travels kid p e)
    (hc : (service s).call w e r w') (hf : e ≠ .cache .recordFailure) (hs : e.stored = none) :
    w'.cache.lastFailure = w.cache.lastFailure := by
  cases e with
  | cache op =>
    rw [(call_cache hc).2]
    cases op with
    | allowRefreshOnMiss =>
      simp only [CacheOp.exec, JwkService.allowRefreshOnMiss_snd]
      split <;> rfl
    | recordFailure => exact absurd rfl hf
    | store jwks => cases hs
    | _ => rfl
  | metric m => rw [call_metric hc]
  | lockRefresh => rw [(call_lockRefresh hc).2]
  | unlockRefresh => rw [call_unlockRefresh hc]
  | fetchKeys => rw [call_fetchKeys hc]
  | _ => exact ht.elim

/-- How far a burst is, by the answers received so far. -/
inductive Stage (now₀ : Nat) (e₀ : Option (Jwks × Nat)) (f₀ : Option Nat) (ph : ι → Phase)
    (w : World) : List (HttpReply Jwks) → Prop
  /-- No request was sent. -/
  | before (he : w.cache.entry = e₀) (hf : w.cache.lastFailure = f₀)
    (hp : ∀ i, ph i ≠ .settled ∧ ∀ r, ph i ≠ .answered r)
    (ha : ∀ i, ph i = .trying → Attempted now₀ w) : Stage now₀ e₀ f₀ ph w []
  /-- A lookup has the answer, and the lock. -/
  | brought {i : ι} {status : Nat} {jwks : Jwks} (hi : ph i = .answered (.response status (some jwks)))
    (he : w.cache.entry = e₀) (ha : Attempted now₀ w) :
    Stage now₀ e₀ f₀ ph w [.response status (some jwks)]
  /-- The answer is the snapshot. -/
  | stored {status : Nat} {jwks : Jwks} {t : Nat} (he : w.cache.entry = some (jwks, t)) (ht : now₀ ≤ t)
    (hf : w.cache.lastFailure = none) (ha : Attempted now₀ w) (hp : ∀ i, (ph i).Rests) :
    Stage now₀ e₀ f₀ ph w [.response status (some jwks)]

namespace Stage

theorem tick (hs : Stage now₀ e₀ f₀ ph w fs) (d : Nat) : Stage now₀ e₀ f₀ ph (w.tick d) fs := by
  cases hs with
  | before he hf hp ha => exact .before he hf hp ha
  | brought hi he ha => exact .brought hi he ha
  | stored he ht hf ha hp => exact .stored he ht hf ha hp

/-- A lookup that has an answer has the only one. -/
theorem answered (hs : Stage now₀ e₀ f₀ ph w fs) (hx : Excludes ph w) {r : HttpReply Jwks}
    (hi : ph i = .answered r) :
    ∃ status jwks, r = .response status (some jwks) ∧ fs = [r] ∧ Attempted now₀ w := by
  cases hs with
  | before he hf hp ha => exact absurd hi ((hp i).2 r)
  | @brought j status jwks hj he ha =>
    obtain rfl : i = j := hx.alone i j (by rw [hi]; exact nofun) (by rw [hj]; exact nofun)
    rw [hj] at hi
    cases hi
    exact ⟨status, jwks, rfl, rfl, ha⟩
  | stored he ht hf ha hp =>
    have := hp i
    rw [hi] at this
    rcases this with h | h <;> cases h

/-- What a lookup that stores keys has is the answer. -/
theorem of_stored (hs : Stage now₀ e₀ f₀ ph w fs) (hx : Excludes ph w) {e : Eff} {jwks : Jwks}
    (ht : Travels kid (ph i) e) (he : e.stored = some jwks) :
    (∃ status, fs = [.response status (some jwks)]) ∧ Attempted now₀ w := by
  unfold Eff.stored at he
  split at he
  · cases he
    obtain ⟨status, hi⟩ := ht
    obtain ⟨-, -, -, hfs, ha⟩ := hs.answered hx hi
    exact ⟨⟨status, hfs⟩, ha⟩
  · cases he

/-- No lookup has a failed trip to record. -/
theorem no_failure (hs : Stage now₀ e₀ f₀ ph w fs) (hx : Excludes ph w) {e : Eff}
    (ht : Travels kid (ph i) e) : e ≠ .cache .recordFailure := by
  rintro rfl
  obtain ⟨r, hi, hr⟩ := ht
  obtain ⟨status, jwks, rfl, -, -⟩ := hs.answered hx hi
  cases hr

theorem length_le (hs : Stage now₀ e₀ f₀ ph w fs) : fs.length ≤ 1 := by
  cases hs with
  | before => exact Nat.zero_le _
  | brought | stored => exact Nat.le_refl _

/-- A fresh snapshot is the answer. -/
theorem snapshot (hs : Stage now₀ e₀ f₀ ph w fs)
    (hold : ∀ jwks t, e₀ = some (jwks, t) → s.cacheTtl ≤ w.now - t) {jwks : Jwks} {t : Nat}
    (he : w.cache.entry = some (jwks, t)) (hf : w.now - t < s.cacheTtl) :
    ∃ status, fs = [.response status (some jwks)] := by
  cases hs with
  | before he' | brought _ he' =>
    have := hold jwks t (he'.symm.trans he)
    omega
  | stored he' =>
    rw [he] at he'
    cases he'
    exact ⟨_, rfl⟩

/-- No lookup sees a failed trip. -/
theorem unseen (hs : Stage now₀ e₀ f₀ ph w fs) (hx : Excludes ph w) {e : Eff} {r : e.Reply}
    (ht : Travels kid (ph i) e) (hc : (service s).call w e r w')
    (hf₀ : ∀ f, f₀ = some f → s.missRefreshInterval ≤ w.now - f) :
    seesFailure ⟨e, r⟩ = false := by
  unfold seesFailure
  split
  · rename_i h
    cases h
    exact absurd rfl (hs.no_failure hx ht)
  · rename_i b h
    cases h
    have hr := (call_cache hc).1
    have hi : ph i = .early := ht
    rw [hr]
    simp only [CacheOp.exec, JwkService.refreshRecentlyFailed]
    cases hs with
    | before he hf hp ha =>
      rw [hf]
      split
      · rfl
      · exact decide_eq_false (by have := hf₀ _ rfl; omega)
    | brought hj he ha =>
      have := hx.alone _ _ (show ph i ≠ .away by rw [hi]; simp)
        (by rw [hj]; simp)
      rw [this, hj] at hi
      cases hi
    | stored he ht hf ha hp => rw [hf]
  · rfl

variable [DecidableEq ι]

/-- The first request is sent. -/
theorem fetch (hs : Stage now₀ e₀ f₀ ph w fs) (hx : Excludes ph w) {r : HttpReply Jwks}
    (hi : ph i = .trying) (hr : r.failed = false) :
    Stage now₀ e₀ f₀ (Function.update ph i ((ph i).next ⟨.fetchKeys, r⟩)) w (fs ++ [r]) := by
  cases hs with
  | before he hf hp ha =>
    rcases r with _ | ⟨status, _ | jwks⟩
    · cases hr
    · cases hr
    · refine .brought (i := i) ?_ he (ha i hi)
      rw [Function.update_self, hi]
      rfl
  | @brought j status jwks hj he ha =>
    obtain rfl : i = j := hx.alone i j (by rw [hi]; exact nofun) (by rw [hj]; exact nofun)
    rw [hi] at hj
    cases hj
  | stored he ht hf ha hp =>
    have := hp i
    rw [hi] at this
    rcases this with h | h <;> cases h

/-- The answer becomes the snapshot. -/
theorem store (hs : Stage now₀ e₀ f₀ ph w fs) (hx : Excludes ph w) {jwks : Jwks}
    (ht : Travels kid (ph i) (.cache (.store jwks)))
    (hc : (service s).call w (.cache (.store jwks)) () w') (hn : now₀ ≤ w.now) :
    Stage now₀ e₀ f₀ (Function.update ph i ((ph i).next ⟨.cache (.store jwks), ()⟩)) w' fs := by
  obtain ⟨⟨status, rfl⟩, ha⟩ := hs.of_stored hx ht rfl
  obtain ⟨-, rfl⟩ := call_cache hc
  obtain ⟨_, hi⟩ := ht
  refine .stored rfl hn rfl ha fun j => ?_
  rcases update_cases ph i _ j with ⟨h, -⟩ | ⟨h, hj⟩ <;> rw [h]
  · exact .inl rfl
  · exact .inr (hx.others (by rw [hi]; exact nofun) hj)

/-- Once the answer is the snapshot, no lookup is allowed to refresh it. -/
theorem not_due {jwks : Jwks} {t : Nat} (he : w.cache.entry = some (jwks, t)) (ht : now₀ ≤ t)
    (ha : Attempted now₀ w) (httl : w.now - now₀ < s.cacheTtl)
    (hint : w.now - now₀ < s.missRefreshInterval) {e : Eff} {r : e.Reply}
    (hc : (service s).call w e r w') :
    (⟨e, r⟩ : Call svc) ≠ ⟨.cache .allowRefreshOnMiss, true⟩ ∧
      (⟨e, r⟩ : Call svc) ≠ ⟨.cache .cacheIsFresh, false⟩ := by
  refine ⟨fun h => ?_, fun h => ?_⟩ <;> cases h
  · obtain ⟨a, ha, hle⟩ := ha
    have hr := (call_cache hc).1
    simp only [CacheOp.exec, JwkService.allowRefreshOnMiss, ha] at hr
    rw [if_pos (by omega)] at hr
    cases hr
  · have hr := (call_cache hc).1
    simp only [CacheOp.exec, JwkService.cacheIsFresh, he] at hr
    have := of_decide_eq_false hr.symm
    omega

/-- A call that brings no answer and stores none. -/
theorem other (hs : Stage now₀ e₀ f₀ ph w fs) (hx : Excludes ph w) {e : Eff} {r : e.Reply}
    (ht : Travels kid (ph i) e) (hc : (service s).call w e r w') (hn : now₀ ≤ w.now)
    (httl : w.now - now₀ < s.cacheTtl) (hint : w.now - now₀ < s.missRefreshInterval)
    (hk : e ≠ .fetchKeys) (hst : e.stored = none) :
    Stage now₀ e₀ f₀ (Function.update ph i ((ph i).next ⟨e, r⟩)) w' fs := by
  have hnf := hs.no_failure hx ht
  have hentry : w'.cache.entry = w.cache.entry := by
    rw [call_entry hc, hst]
    rfl
  have hfail := call_failure ht hc hnf hst
  have hcases := update_cases ph i ((ph i).next ⟨e, r⟩)
  cases hs with
  | before he hf hp ha =>
    refine .before (hentry.trans he) (hfail.trans hf) (fun j => ?_) fun j hj => ?_
    · rcases hcases j with ⟨h, rfl⟩ | ⟨h, -⟩ <;> rw [h]
      · refine ⟨fun h => ?_, fun r' h => ?_⟩
        · rcases Phase.next_settled h with h | ⟨jwks, h⟩ | h
          · exact hnf h
          · subst h
            cases hst
          · exact (hp j).1 h
        · exact (Phase.next_answered h).elim (fun h => hk (congrArg Call.eff h)) ((hp j).2 r')
      · exact hp j
    · rcases hcases j with ⟨h, rfl⟩ | ⟨h, -⟩ <;> rw [h] at hj
      · rcases Phase.next_trying hj with h | ⟨h, -⟩
        · cases h
          obtain ⟨-, rfl⟩ := call_cache hc
          exact ⟨w.now, rfl, hn⟩
        · exact (ha j h).call ht hc hn
      · exact (ha j hj).call ht hc hn
  | @brought i₀ status jwks hi he ha =>
    refine .brought (i := i₀) ?_ (hentry.trans he) (ha.call ht hc hn)
    rcases hcases i₀ with ⟨h, rfl⟩ | ⟨h, -⟩ <;> rw [h]
    · -- With the answer in hand, the lookup can but store it.
      rw [hi] at ht ⊢
      cases e with
      | cache op =>
        cases op with
        | lookupFresh k => rfl
        | lookupStale k => rcases ht.2 with h | h <;> cases h
        | cacheIsFresh => rcases ht with h | h <;> cases h
        | recordFailure => exact absurd rfl hnf
        | store jwks => cases hst
        | _ => cases ht
      | metric m => rfl
      | _ => cases ht
    · exact hi
  | stored he htl hf ha hp =>
    refine .stored (hentry.trans he) htl (hfail.trans hf) (ha.call ht hc hn) fun j => ?_
    rcases hcases j with ⟨h, rfl⟩ | ⟨h, -⟩ <;> rw [h]
    · obtain ⟨h₁, h₂⟩ := not_due he htl ha httl hint hc
      have hno : ∀ p : Phase, p.Rests → p ≠ .due ∧ p ≠ .trying ∧ ∀ r, p ≠ .answered r := by
        rintro _ h
        refine ⟨?_, ?_, fun r => ?_⟩ <;> rintro rfl <;> rcases h with h | h <;> cases h
      obtain ⟨hd, htr, han⟩ := hno _ (hp j)
      rcases Phase.next_rests (c := ⟨e, r⟩) (hp j) with h | h | h | ⟨r', h⟩
      · exact h
      · rcases Phase.next_due h with h | h | h
        · exact absurd h h₁
        · exact absurd h h₂
        · exact absurd h hd
      · rcases Phase.next_trying h with h | ⟨h, -⟩
        · cases h
          exact absurd ht hd
        · exact absurd h htr
      · exact (Phase.next_answered h).elim (fun h => absurd (congrArg Call.eff h) hk) fun h => absurd h (han r')
    · exact hp j

/-- What a call makes of the stage. -/
theorem call (hs : Stage now₀ e₀ f₀ ph w fs) (hx : Excludes ph w) {e : Eff} {r : e.Reply}
    (ht : Travels kid (ph i) e) (hc : (service s).call w e r w') (hn : now₀ ≤ w.now)
    (httl : w.now - now₀ < s.cacheTtl) (hint : w.now - now₀ < s.missRefreshInterval)
    (hb : ∀ r' ∈ fetched ⟨e, r⟩, r'.failed = false) :
    Stage now₀ e₀ f₀ (Function.update ph i ((ph i).next ⟨e, r⟩)) w'
      (fs ++ (fetched ⟨e, r⟩).toList) := by
  by_cases hk : e = .fetchKeys
  · subst hk
    rw [call_fetchKeys hc]
    exact hs.fetch hx ht (hb r rfl)
  · have hno : fetched ⟨e, r⟩ = none := by
      unfold fetched
      split
      · rename_i h
        cases h
        exact absurd rfl hk
      · rfl
    rw [hno, Option.toList_none, List.append_nil]
    cases hst : e.stored with
    | none => exact hs.other hx ht hc hn httl hint hk hst
    | some jwks =>
      unfold Eff.stored at hst
      split at hst
      · cases hst
        exact hs.store hx ht hc hn
      · cases hst

end Stage

end Stage

/-! ## Runs -/

section Runs

variable [DecidableEq ι] {s : JwkService} {kid : ι → String} {w : World}
  {tr : List (Event svc ι Nat)} {P' : Pool svc World ι (Except JwkError Jwk)}

/-- No lookup of these events has seen a failed trip. -/
def Calm (tr : List (Event svc ι Nat)) : Prop := ∀ i c, Event.call i c ∈ tr → seesFailure c = false

/-- A lookup does not serve a snapshot past its lifetime while all is calm. -/
theorem Calm.not_stale (hc : Calm tr) {i : ι} {k : String}
    (he : Excused (callsOf i tr) (.cache (.lookupStale k))) : False := by
  obtain ⟨c, hm, hs⟩ := he
  rw [hc i c (mem_callsOf.mp hm)] at hs
  cases hs

theorem burst_stage (hcalm : s.refreshRecentlyFailed w.now w.cache = false)
    (hr : (service s).Run (lookups w kid) tr P') (hb : Burst s tr) :
    Stage w.now w.cache.entry w.cache.lastFailure (fun i => Phase.after (callsOf i tr)) P'.st
      (fetches tr) ∧ Calm tr := by
  have hinv := hr.inv (I := fun h w₁ => Kept s kid w.now w.cache.entry h w₁ ∧ (Burst s h →
      Stage w.now w.cache.entry w.cache.lastFailure (fun i => Phase.after (callsOf i h)) w₁
        (fetches h) ∧ Calm h))
    (fun h w₁ i e r w₂ hI hp hc => ⟨hI.1.call (fun _ => hp) hc, fun hb => ?_⟩)
    (fun h w₁ d w₂ hI hc => ?_) lookups_decide ⟨?_, fun _ => ⟨?_, by simp [Calm]⟩⟩
  · exact hinv.2 hb
  · have hb' := hb.of_append
    obtain ⟨hs, hcl⟩ := hI.2 hb'
    have hclock := hI.1.clock
    have hfresh := hb'.fresh
    have hrecent := hb'.recent
    refine ⟨?_, fun j c hj => ?_⟩
    · rw [after_callsOf, fetches_append]
      show Stage _ _ _ _ _ (fetches h ++ ((fetched ⟨e, r⟩).toList ++ []))
      rw [List.append_nil]
      refine hs.call hI.1.excludes hp.1 hc (by omega) (by omega) (by omega) fun r' hr' => ?_
      refine hb.brings r' ?_
      rw [fetches_append, fetches, Option.mem_def.mp hr']
      exact List.mem_append_right _ List.mem_cons_self
    · rcases List.mem_append.mp hj with hj | hj
      · exact hcl j c hj
      · cases List.mem_singleton.mp hj
        refine hs.unseen hI.1.excludes hp.1 hc fun f hf => ?_
        simp only [JwkService.refreshRecentlyFailed, hf, decide_eq_false_iff_not] at hcalm
        omega
  · cases hc
    refine ⟨hI.1.env d, fun hb => ?_⟩
    obtain ⟨hs, hcl⟩ := hI.2 hb.of_append
    refine ⟨?_, fun j c hj => ?_⟩
    · have hf : fetches (h ++ [.env d]) = fetches h := by
        rw [fetches_append]
        exact List.append_nil _
      simp only [hf, callsOf_append, callsOf_env, callsOf_nil, List.append_nil]
      exact hs.tick d
    · rcases List.mem_append.mp hj with hj | hj
      · exact hcl j c hj
      · cases List.mem_singleton.mp hj
  · exact (lookups_kept (.nil (lookups w kid)) :)
  · exact .before rfl rfl (fun i => by simp) fun i => by simp

/-- What a lookup returns of an answer of the key service. -/
def Answers (jwks : Jwks) (kid : String) (r : Except JwkError Jwk) : Prop :=
  (∀ jwk, jwks.find kid = some jwk → r = .ok jwk) ∧ (jwks.find kid = none → r = .error .notFound)

/-- A lookup decides on a fresh snapshot. -/
theorem decides_fresh (hr : (service s).Run (lookups w kid) tr P') (hcalm : Calm tr)
    (httl : 0 < s.cacheTtl) {i : ι} {r : Except JwkError Jwk} (hi : P'.prog i = .ret r) :
    ∃ t₁ c Q jwks t, Decision s (lookups w kid) tr P' i t₁ c Q ∧
      Q.st.cache.entry = some (jwks, t) ∧ Q.st.now - t < s.cacheTtl ∧ Answers jwks (kid i) r := by
  obtain ⟨t₁, c, Q₀, Q, hd, hv, hc, htrip, hk₀, -⟩ := decision_of_ret hr hi
  obtain ⟨t₂, rfl, -, -⟩ := hd.after
  have hcalm₁ : Calm t₁ := fun j x hj => hcalm j x (List.mem_append_left _ hj)
  have hexcused : Excused (callsOf i t₁) c.eff := by
    have h := ((hr.path i).wp (JwkService.publicKey_excused (kid i) (h := []))).2 (callsOf i t₁) c
      (callsOf i t₂)
    exact h (by rw [callsOf_append, callsOf_call_self])
  refine ⟨t₁, c, Q, ?_⟩
  cases hv with
  | fresh jwk =>
    obtain ⟨ho, hQ⟩ := call_cache hc
    simp only [CacheOp.exec, JwkService.lookupFresh] at ho
    split at ho
    · cases ho
    · rename_i jwks t he
      split at ho
      · cases ho
      · refine ⟨jwks, t, hd, by rw [hQ]; exact he, ?_, fun jwk' hf => ?_, fun hf => ?_⟩
        · rw [hQ]
          show Q₀.now - t < _
          omega
        · rw [hf] at ho
          cases ho
          rfl
        · rw [hf] at ho
          cases ho
  | stale | unserved => exact (hcalm₁.not_stale hexcused).elim
  | @fetched jwks jwk hf =>
    obtain ⟨-, hQ⟩ := call_cache hc
    refine ⟨jwks, Q₀.now, hd, by rw [hQ]; rfl, ?_, fun jwk' hf' => ?_, fun hf' => ?_⟩
    · rw [hQ]
      show Q₀.now - Q₀.now < _
      omega
    · rw [hf] at hf'
      cases hf'
      rfl
    · rw [hf] at hf'
      cases hf'
  | @absent jwks hf =>
    obtain ⟨-, hQ⟩ := call_cache hc
    refine ⟨jwks, Q₀.now, hd, by rw [hQ]; rfl, ?_, fun jwk' hf' => ?_, fun _ => rfl⟩
    · rw [hQ]
      show Q₀.now - Q₀.now < _
      omega
    · rw [hf] at hf'
      cases hf'
  | throttled =>
    obtain ⟨ho, hQ⟩ := call_cache hc
    simp only [CacheOp.exec, JwkService.cacheIsFresh] at ho
    split at ho
    · cases ho
    · rename_i jwks t he
      have hlt := of_decide_eq_true ho.symm
      refine ⟨jwks, t, hd, by rw [hQ]; exact he, ?_, fun jwk' hf => ?_, fun _ => rfl⟩
      · rw [hQ]
        exact hlt
      · -- Under the lock, the key was missed in this snapshot.
        rcases hk₀.missed i (.inr (.inr htrip)) jwks t he with h | h
        · rw [h] at hf
          cases hf
        · omega

/-- A call other than for the lock can be answered. -/
theorem can_call {e : Eff} {p : Phase} {k : String} (ht : Travels k p e)
    (hl : e = .lockRefresh → w.refreshLock = false) : ∃ r w', (service s).call w e r w' := by
  cases e with
  | cache op => exact ⟨_, _, .plain, rfl⟩
  | metric m => exact ⟨(), w, .plain, rfl⟩
  | lockRefresh => exact ⟨(), { w with refreshLock := true }, .plain, by simp [World.act, hl rfl]⟩
  | unlockRefresh => exact ⟨(), { w with refreshLock := false }, .plain, rfl⟩
  | fetchKeys => exact ⟨.unreachable, w, .keys .unreachable, rfl⟩
  | _ => exact ht.elim

/-- A lock that is held is held by one of the lookups. -/
theorem lock_held (hfree : w.refreshLock = false) (hr : (service s).Run (lookups w kid) tr P')
    (hl : P'.st.refreshLock = true) : ∃ i, Phase.after (callsOf i tr) ≠ .away := by
  have hw : ∀ i, Prog.wp (JwkService.Trip (kid i)) (callsOf i ([] : List (Event svc ι Nat)))
      ((lookups w kid).prog i) fun h' _ => Phase.after h' = .away := fun i =>
    @JwkService.publicKey_travels [] (kid i) rfl
  refine hr.inv (I := fun h w₁ => Attended (fun i => Phase.after (callsOf i h)) w₁)
    (fun h w₁ i e r w₂ hI ht hc => ?_) (fun h w₁ d w₂ hI hc => ?_) hw (fun h => ?_) hl
  · rw [after_callsOf]
    exact hI.call hc
  · cases hc
    rw [after_env]
    exact hI
  · rw [show (lookups w kid).st = w from rfl, hfree] at h
    cases h

/-- While a lookup has not returned, some lookup can make its next call. -/
theorem lookups_progress (hfree : w.refreshLock = false)
    (hr : (service s).Run (lookups w kid) tr P') {i : ι} (hi : returned (P'.prog i) = none) :
    ∃ j c Q, (service s).Step P' (.call j c) Q := by
  -- A lookup that has not returned makes its next call, if it can be answered.
  have hnext : ∀ j e k, P'.prog j = .call e k →
      JwkService.Trip (kid j) (callsOf j tr) e ∧
        ((e = .lockRefresh → P'.st.refreshLock = false) →
          ∃ j c Q, (service s).Step P' (.call j c) Q) := fun j e k hp => by
    have hpath := hr.path j
    rw [hp] at hpath
    have ht := hpath.wp_call (@JwkService.publicKey_travels [] (kid j) rfl)
    refine ⟨ht, fun hl => ?_⟩
    obtain ⟨r, w', hc⟩ := can_call (s := s) ht hl
    exact ⟨j, ⟨e, r⟩, _, .call hp hc⟩
  cases hl : P'.st.refreshLock with
  | false =>
    cases hp : P'.prog i with
    | ret r => rw [hp] at hi; cases hi
    | call e k => exact (hnext i e k hp).2 fun _ => hl
  | true =>
    -- The lookup that holds the lock does not wait for it.
    obtain ⟨j, hj⟩ := lock_held hfree hr hl
    cases hp : P'.prog j with
    | ret r =>
      have hpath := hr.path j
      rw [hp] at hpath
      exact absurd (hpath.wp_ret (@JwkService.publicKey_travels [] (kid j) rfl)) hj
    | call e k =>
      obtain ⟨ht, hgo⟩ := hnext j e k hp
      refine hgo fun he => ?_
      subst he
      exact absurd ht hj

/-- In a burst of misses one request is sent, its answer decides every lookup,
and no lookup is left waiting. -/
theorem burst_fetches_once (hstale : s.cacheIsFresh w.now w.cache = false)
    (hcalm : s.refreshRecentlyFailed w.now w.cache = false) (hb : Burst s tr)
    (hr : (service s).Run (lookups w kid) tr P') :
    (fetches tr).length ≤ 1 ∧
      (∀ i r, P'.prog i = .ret r → ∃ status jwks, fetches tr = [.response status (some jwks)] ∧
        (∀ jwk, jwks.find (kid i) = some jwk → r = .ok jwk) ∧
        (jwks.find (kid i) = none → r = .error .notFound)) ∧
      (w.refreshLock = false → ∀ i, returned (P'.prog i) = none →
        ∃ j c Q, (service s).Step P' (.call j c) Q) := by
  obtain ⟨hstage, hcl⟩ := burst_stage hcalm hr hb
  have hlen := hstage.length_le
  refine ⟨hlen, fun i r hi => ?_, fun hfree i hi => lookups_progress hfree hr hi⟩
  obtain ⟨t₁, c, Q, jwks, t, hd, he, hf, hans⟩ :=
    decides_fresh hr hcl (Nat.zero_lt_of_lt hb.fresh) hi
  obtain ⟨t₂, rfl, -, -⟩ := hd.after
  rw [List.append_cons] at hb hlen ⊢
  -- At the decision the snapshot is fresh, so it is the answer.
  have hclock := (lookups_kept hd.before).clock
  have hold : ∀ jwks₀ t₀, w.cache.entry = some (jwks₀, t₀) → s.cacheTtl ≤ Q.st.now - t₀ := by
    intro jwks₀ t₀ he₀
    simp only [JwkService.cacheIsFresh, he₀, decide_eq_false_iff_not] at hstale
    omega
  obtain ⟨status, hfs⟩ := (burst_stage hcalm hd.before hb.of_append).1.snapshot hold he hf
  refine ⟨status, jwks, ?_, hans⟩
  rw [fetches_append, hfs] at hlen ⊢
  have hrest : fetches t₂ = [] := List.eq_nil_of_length_eq_zero (by
    rw [List.length_append, List.length_singleton] at hlen
    omega)
  rw [hrest]
  rfl

end Runs

/-! ## Two lookups side by side -/

/-- The moves of a lookup that fetches the keys, and of one that comes under
the lock a second later. -/
def fetchThenMiss : List (System.Move Bool Choice Nat) :=
  List.replicate 5 (.call false .plain) ++ .call false (.keys (.response 200 (some agedKeys))) ::
    List.replicate 3 (.call false .plain) ++ .env 1000 :: List.replicate 8 (.call true .plain)

instance (s : JwkService) (tr : List (Event svc ι Nat)) : Decidable (Burst s tr) :=
  decidable_of_iff (elapsed tr < s.cacheTtl ∧ elapsed tr < s.missRefreshInterval ∧
    ∀ r ∈ fetches tr, r.failed = false) ⟨fun h => ⟨h.1, h.2.1, h.2.2⟩, fun h => ⟨h.fresh, h.recent, h.brings⟩⟩

/-- A lookup of a key and one of a key that does not exist, on a cold cache. -/
theorem burst_fetches_once_two :
    ∃ tr P' status jwks, (service agedService).Run (lookups World.empty
        fun i : Bool => if i then "junk" else "known") tr P' ∧
      Burst agedService tr ∧ fetches tr = [.response status (some jwks)] ∧
      P'.prog true = .ret (.error .notFound) ∧ jwks.find "junk" = none := by
  obtain ⟨⟨tr, P'⟩, hplay, hret⟩ := (Option.any_eq_true _ _).mp (show (System.play
    (World.act agedService) (fun w d => some (w.tick d)) (fun _ _ => true) fetchThenMiss
    (lookups World.empty fun i : Bool => if i then "junk" else "known")).any
      (fun x => decide (Burst agedService x.1 ∧
        returned (x.2.prog true) = some (.error .notFound))) = true by decide)
  obtain ⟨hb, hret⟩ := of_decide_eq_true hret
  have hret := prog_of_returned hret
  have hwhere : (service agedService).RunWhere (fun _ _ _ => True) [] (lookups World.empty
      fun i : Bool => if i then "junk" else "known") tr P' :=
    System.play_run (fun _ _ c _ _ h => ⟨c, h⟩) (fun _ _ _ h => (Option.some.inj h).symm)
      (fun _ _ _ _ => trivial) hplay
  obtain ⟨-, h, -⟩ := burst_fetches_once rfl rfl hb hwhere.run
  obtain ⟨status, jwks, hf, hin, -⟩ := h true _ hret
  refine ⟨tr, P', status, jwks, hwhere.run, hb, hf, hret, ?_⟩
  cases hj : jwks.find "junk" with
  | none => rfl
  | some jwk => cases hin jwk hj

end JwtService

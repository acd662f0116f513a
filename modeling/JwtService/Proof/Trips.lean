import Mathlib.Data.List.Induction
import JwtService.Proof.Rules

/-!
# Trips to the key service

Where a request stands with the refresh lock and the key service is a
`Phase`, which its calls and their answers move. `Travels` says which calls
a lookup of a public key makes in each phase: it goes to the key service
only with the lock, and only when it is due, that is when it was allowed to
or when it found the snapshot past its lifetime; it records how the trip
ended and gives the lock back. `publicKey_travels` is the proof that the
code keeps to it, whatever it is answered.

`Excludes` is what this means for requests side by side: only the request
that holds the lock is in a phase other than `away`.
-/

namespace JwtService

open Interaction

/-- Where a request stands with the refresh lock and the key service. -/
inductive Phase where
  /-- Without the lock. -/
  | away
  /-- With the lock, nothing decided yet. -/
  | inside
  /-- It is too early for a refresh. -/
  | early
  /-- Too early, and no trip failed recently. -/
  | unfailed
  /-- Too early, and the stale snapshot does not have the key. -/
  | unserved
  /-- About to make the trip. -/
  | due
  | trying
  | answered (r : HttpReply Jwks)
  /-- The end of the trip is recorded. -/
  | settled

namespace Phase

def next : Phase → Call svc → Phase
  | _, ⟨.lockRefresh, _⟩ => .inside
  | _, ⟨.unlockRefresh, _⟩ => .away
  | _, ⟨.cache .allowRefreshOnMiss, true⟩ => .due
  | _, ⟨.cache .allowRefreshOnMiss, false⟩ => .early
  | .early, ⟨.cache .refreshRecentlyFailed, false⟩ => .unfailed
  | .early, ⟨.cache (.lookupStale _), none⟩ => .unserved
  | _, ⟨.cache .cacheIsFresh, false⟩ => .due
  | _, ⟨.cache .recordAttempt, _⟩ => .trying
  | .trying, ⟨.fetchKeys, r⟩ => .answered r
  | _, ⟨.cache .recordFailure, _⟩ => .settled
  | _, ⟨.cache (.store _), _⟩ => .settled
  | p, _ => p

/-- The phase after the calls of a request. -/
def after (h : Calls) : Phase := h.foldl next .away

@[simp] theorem after_nil : after [] = .away := rfl

@[simp] theorem after_snoc (h : Calls) (c : Call svc) : after (h ++ [c]) = (after h).next c := by
  rw [after, List.foldl_append]
  rfl

theorem next_away {p : Phase} {c : Call svc} (h : p.next c = .away) : c.eff = .unlockRefresh ∨ p = .away := by
  unfold next at h
  split at h
  case h_2 => exact .inl rfl
  case h_12 => exact .inr h
  all_goals cases h

theorem next_answered {p : Phase} {c : Call svc} {r : HttpReply Jwks} (h : p.next c = .answered r) :
    c = ⟨.fetchKeys, r⟩ ∨ p = .answered r := by
  unfold next at h
  split at h
  case h_9 => cases h; exact .inl rfl
  case h_12 => exact .inr h
  all_goals cases h

theorem next_trying {p : Phase} {c : Call svc} (h : p.next c = .trying) :
    c = ⟨.cache .recordAttempt, ()⟩ ∨ p = .trying ∧ c.eff ≠ .fetchKeys := by
  unfold next at h
  split at h
  case h_8 => exact .inl rfl
  case h_12 hf =>
    refine .inr ⟨h, fun he => ?_⟩
    obtain ⟨e, r⟩ := c
    cases he
    exact hf r h rfl
  all_goals cases h

/-- A request that is on its way has recorded its attempt, and has not been
answered since. -/
theorem after_trying {h : Calls} (ht : after h = .trying) :
    ∃ h₁ h₂, h = h₁ ++ ⟨.cache .recordAttempt, ()⟩ :: h₂ ∧ ∀ c ∈ h₂, c.eff ≠ .fetchKeys := by
  induction h using List.reverseRecOn with
  | nil => cases ht
  | append_singleton h c ih =>
    rw [after_snoc] at ht
    rcases next_trying ht with rfl | ⟨hp, hc⟩
    · exact ⟨h, [], rfl, nofun⟩
    · obtain ⟨h₁, h₂, rfl, hn⟩ := ih hp
      refine ⟨h₁, h₂ ++ [c], by rw [List.append_assoc, List.cons_append], fun x hx => ?_⟩
      rcases List.mem_append.mp hx with hx | hx
      · exact hn x hx
      · rw [List.mem_singleton.mp hx]
        exact hc

/-- A call outside the lookup does not move it, but for the answer to its trip. -/
theorem next_of_other {p : Phase} {e : Eff} {r : e.Reply} (he : e.isLookup = false) :
    p.next ⟨e, r⟩ = p ∨ p = .trying ∧ ∃ r', p.next ⟨e, r⟩ = .answered r' ∧ e = .fetchKeys ∧
      (⟨e, r⟩ : Call svc) = ⟨.fetchKeys, r'⟩ := by
  cases e with
  | fetchKeys =>
    cases p with
    | trying => exact .inr ⟨rfl, r, rfl, rfl, rfl⟩
    | _ => exact .inl rfl
  | cache op =>
    cases op with
    | hasServableSnapshot => cases p <;> exact .inl rfl
    | _ => cases he
  | lockRefresh | unlockRefresh => cases he
  | _ => cases p <;> exact .inl rfl

/-- The phases in which the lock is given back. -/
def ended : Phase → Bool
  | .inside | .early | .unfailed | .unserved | .settled => true
  | _ => false

end Phase

/-- The answer to a trip has no keys. -/
def HttpReply.failed {α : Type} : HttpReply α → Bool
  | .response _ (some _) => false
  | _ => true

/-- The calls of a lookup of `kid` in each phase. -/
def Travels (kid : String) : Phase → Eff → Prop
  | p, .lockRefresh => p = .away
  | p, .unlockRefresh => p.ended = true
  | p, .fetchKeys => p = .trying
  | p, .cache .allowRefreshOnMiss => p = .inside
  | p, .cache .refreshRecentlyFailed => p = .early
  | p, .cache (.lookupStale k) => k = kid ∧ (p = .early ∨ p = .settled)
  | p, .cache .cacheIsFresh => p = .unfailed ∨ p = .unserved
  | p, .cache .recordAttempt => p = .due
  | p, .cache .recordFailure => ∃ r, p = .answered r ∧ r.failed = true
  | p, .cache (.store jwks) => ∃ status, p = .answered (.response status (some jwks))
  | _, .cache (.lookupFresh k) => k = kid
  | _, .metric _ => True
  | _, _ => False

namespace JwkService

section wp

variable {h : Calls} {kid : String} {P : Calls → Eff → Prop} {Q : Calls → Except JwkError Jwk → Prop}

/-- The calls of a trip up to its answer. -/
abbrev trip (h : Calls) (r : HttpReply Jwks) : Calls :=
  h ++ [⟨.cache .recordAttempt, ()⟩] ++ [⟨.fetchKeys, r⟩]

/-- A trip that failed is recorded, and the stale snapshot may serve. -/
theorem wp_failedTrip {e : JwkError} (hfail : P h (.cache .recordFailure) ∧
      Prog.wp P (h ++ [⟨.cache .recordFailure, ()⟩]) (serveStale kid) fun h₁ o =>
        (∀ jwk, o = some jwk → Q h₁ (.ok jwk)) ∧
        (o = none → P h₁ (.metric (.jwksCache "miss")) ∧
          ∀ e, Q (h₁ ++ [⟨.metric (.jwksCache "miss"), ()⟩]) (.error e))) :
    Prog.wp P h (do
      let _ ← call (.cache .recordFailure)
      match ← serveStale kid with
      | some jwk => pure (.ok jwk)
      | none => do
        let _ ← call (.metric (.jwksCache "miss"))
        pure (.error e)) Q := by
  rw [wp_call_bind]
  refine ⟨hfail.1, fun _ => (Prog.wp_bind _ _ _).mpr (Prog.wp_imp hfail.2 fun h₁ o ho => ?_)⟩
  cases o with
  | some jwk => exact ho.1 jwk rfl
  | none => exact ⟨(ho.2 rfl).1, fun _ => (ho.2 rfl).2 _⟩

theorem wp_refresh (hattempt : P h (.cache .recordAttempt))
    (hfetch : P (h ++ [⟨.cache .recordAttempt, ()⟩]) .fetchKeys)
    (hfail : ∀ r : HttpReply Jwks, r.failed = true → P (trip h r) (.cache .recordFailure) ∧
      Prog.wp P (trip h r ++ [⟨.cache .recordFailure, ()⟩]) (serveStale kid) fun h₁ o =>
        (∀ jwk, o = some jwk → Q h₁ (.ok jwk)) ∧
        (o = none → P h₁ (.metric (.jwksCache "miss")) ∧
          ∀ e, Q (h₁ ++ [⟨.metric (.jwksCache "miss"), ()⟩]) (.error e)))
    (hstore : ∀ status jwks, P (trip h (.response status (some jwks))) (.cache (.store jwks)) ∧
      P (trip h (.response status (some jwks)) ++ [⟨.cache (.store jwks), ()⟩]) (.metric (.jwksCache "miss")) ∧
      Q (trip h (.response status (some jwks)) ++ [⟨.cache (.store jwks), ()⟩] ++
        [⟨.metric (.jwksCache "miss"), ()⟩]) ((jwks.find kid).elim (.error .notFound) .ok)) :
    Prog.wp P h (refresh kid) Q := by
  refine (Prog.wp_bind h _ _).mpr ⟨hattempt, fun _ => (Prog.wp_bind _ _ _).mpr ⟨hfetch, fun r => ?_⟩⟩
  rcases r with _ | ⟨status, _ | jwks⟩
  · exact wp_failedTrip (hfail .unreachable rfl)
  · exact wp_failedTrip (hfail (.response status none) rfl)
  · obtain ⟨hcall, hmetric, hq⟩ := hstore status jwks
    refine ⟨hcall, fun _ => ⟨hmetric, fun _ => ?_⟩⟩
    cases hj : jwks.find kid <;> rw [hj] at hq <;> exact hq

/-- Where no snapshot served, `R` holds. -/
theorem wp_throttled {R : Calls → Prop} (hasked : P h (.cache .refreshRecentlyFailed))
    (hunfailed : R (h ++ [⟨.cache .refreshRecentlyFailed, false⟩]))
    (hserve : Prog.wp P (h ++ [⟨.cache .refreshRecentlyFailed, true⟩]) (serveStale kid) fun h₁ o =>
      (∀ jwk, o = some jwk → Q h₁ (.ok jwk)) ∧ (o = none → R h₁))
    (hrest : ∀ h₁, R h₁ → P h₁ (.cache .cacheIsFresh) ∧
      (P (h₁ ++ [⟨.cache .cacheIsFresh, true⟩]) (.metric (.jwksCache "throttled")) ∧
        Q (h₁ ++ [⟨.cache .cacheIsFresh, true⟩] ++ [⟨.metric (.jwksCache "throttled"), ()⟩]) (.error .notFound)) ∧
      Prog.wp P (h₁ ++ [⟨.cache .cacheIsFresh, false⟩]) (refresh kid) Q) :
    Prog.wp P h (throttled kid) Q := by
  refine (Prog.wp_bind h _ _).mpr (Prog.wp_imp (Q := fun h₁ o =>
    (∀ jwk, o = some jwk → Q h₁ (.ok jwk)) ∧ (o = none → R h₁)) ?_ fun h₁ o ho => ?_)
  · refine (Prog.wp_bind h _ _).mpr ⟨hasked, fun b => ?_⟩
    cases b with
    | false => exact ⟨by simp, fun _ => hunfailed⟩
    | true => exact hserve
  · cases o with
    | some jwk => exact ho.1 jwk rfl
    | none =>
      obtain ⟨hfresh, hthrottled, hrefresh⟩ := hrest h₁ (ho.2 rfl)
      refine ⟨hfresh, fun fresh => ?_⟩
      cases fresh with
      | true => exact ⟨hthrottled.1, fun _ => hthrottled.2⟩
      | false => exact hrefresh

end wp

variable {h : Calls}

/-- `Travels`, of a call after the calls of its request. -/
abbrev Trip (kid : String) (h : Calls) (e : Eff) : Prop := Travels kid (.after h) e

theorem serveStale_trip (kid : String) (hp : Phase.after h = .early ∨ Phase.after h = .settled) :
    Prog.wp (Trip kid) h (serveStale kid) fun h' r =>
      (Phase.after h = .settled → Phase.after h' = .settled) ∧
      (Phase.after h = .early → r = none → Phase.after h' = .unserved) ∧
      (Phase.after h = .early → ∀ jwk, r = some jwk → Phase.after h' = .early) := by
  refine ⟨⟨rfl, hp⟩, fun r => ?_⟩
  rcases r with _ | ⟨jwk, age⟩
  · refine ⟨fun h₁ => ?_, fun h₁ _ => ?_, fun _ _ hr => (nomatch hr)⟩ <;>
      rw [Phase.after_snoc, h₁] <;> rfl
  · refine ⟨trivial, fun _ => ⟨fun h₁ => ?_, fun _ hr => (nomatch hr), fun h₁ _ _ => ?_⟩⟩ <;>
      rw [Phase.after_snoc, Phase.after_snoc, h₁] <;> rfl

theorem refresh_trip (kid : String) (hp : Phase.after h = .due) :
    Prog.wp (Trip kid) h (refresh kid) fun h' _ => Phase.after h' = .settled := by
  have h₁ : Phase.after (h ++ [⟨.cache .recordAttempt, ()⟩]) = .trying := by
    rw [Phase.after_snoc]
    rfl
  have h₂ : ∀ r, Phase.after (trip h r) = .answered r := by
    intro r
    rw [Phase.after_snoc, h₁]
    rfl
  refine wp_refresh hp h₁ (fun r hr => ⟨⟨r, h₂ r, hr⟩, ?_⟩) fun status jwks => ⟨⟨status, h₂ _⟩, trivial, ?_⟩
  · have h₃ := Phase.after_snoc (trip h r) ⟨.cache .recordFailure, ()⟩
    rw [h₂] at h₃
    refine Prog.wp_imp (serveStale_trip kid (.inr h₃)) fun h₄ o ho => ⟨fun _ _ => ho.1 h₃, fun _ => ⟨trivial, ?_⟩⟩
    intro e
    rw [Phase.after_snoc, ho.1 h₃]
    rfl
  · rw [Phase.after_snoc, Phase.after_snoc]
    rfl

theorem throttled_trip (kid : String) (hp : Phase.after h = .early) :
    Prog.wp (Trip kid) h (throttled kid) fun h' _ => (Phase.after h').ended = true := by
  have h₁ : ∀ b, Phase.after (h ++ [⟨.cache .refreshRecentlyFailed, b⟩]) =
      Phase.next .early ⟨.cache .refreshRecentlyFailed, b⟩ := by
    intro b
    rw [Phase.after_snoc, hp]
  refine wp_throttled (R := fun h₂ => Phase.after h₂ = .unfailed ∨ Phase.after h₂ = .unserved) hp (.inl (h₁ false))
    ?_ fun h₂ hp₂ => ⟨hp₂, ⟨trivial, ?_⟩, ?_⟩
  · refine Prog.wp_imp (serveStale_trip kid (.inl (h₁ true))) fun h₂ o ho => ⟨fun jwk hj => ?_, fun hn => ?_⟩
    · rw [ho.2.2 (h₁ true) jwk hj]
      rfl
    · exact .inr (ho.2.1 (h₁ true) hn)
  · rcases hp₂ with hp₂ | hp₂ <;> rw [Phase.after_snoc, Phase.after_snoc, hp₂] <;> rfl
  · refine Prog.wp_imp (refresh_trip kid ?_) fun h₃ _ h₃' => ?_
    · rcases hp₂ with hp₂ | hp₂ <;> rw [Phase.after_snoc, hp₂] <;> rfl
    · rw [h₃']
      rfl

theorem publicKeyLocked_trip (kid : String) (hp : Phase.after h = .inside) :
    Prog.wp (Trip kid) h (publicKeyLocked kid) fun h' _ => (Phase.after h').ended = true := by
  refine ⟨rfl, fun r => ?_⟩
  have h₁ := Phase.after_snoc h ⟨.cache (.lookupFresh kid), r⟩
  rw [hp] at h₁
  cases r with
  | some jwk =>
    refine ⟨trivial, fun _ => ?_⟩
    show (Phase.after _).ended = true
    rw [Phase.after_snoc, h₁]
    rfl
  | none =>
    refine ⟨h₁, fun b => ?_⟩
    have h₂ := Phase.after_snoc (h ++ [⟨.cache (.lookupFresh kid), none⟩])
      ⟨.cache .allowRefreshOnMiss, b⟩
    cases b with
    | true =>
      refine Prog.wp_imp (refresh_trip kid h₂) fun h₃ _ h₃' => ?_
      rw [h₃']
      rfl
    | false => exact throttled_trip kid h₂

/-- A lookup keeps to the discipline of the lock and of the trips. -/
theorem publicKey_travels (kid : String) (hp : Phase.after h = .away) :
    Prog.wp (Trip kid) h (publicKey kid) fun h' _ => Phase.after h' = .away := by
  refine ⟨rfl, fun r => ?_⟩
  have h₁ := Phase.after_snoc h ⟨.cache (.lookupFresh kid), r⟩
  rw [hp] at h₁
  cases r with
  | some jwk =>
    refine ⟨trivial, fun _ => ?_⟩
    show Phase.after _ = _
    rw [Phase.after_snoc, h₁]
    rfl
  | none =>
    refine ⟨h₁, fun _ => (Prog.wp_bind _ (publicKeyLocked kid) _).mpr ?_⟩
    have h₂ := Phase.after_snoc (h ++ [⟨.cache (.lookupFresh kid), none⟩]) ⟨.lockRefresh, ()⟩
    refine Prog.wp_imp (publicKeyLocked_trip kid h₂) fun h₃ _ h₃' => ?_
    rw [wp_call_bind]
    refine ⟨h₃', fun _ => ?_⟩
    show Phase.after _ = _
    rw [Phase.after_snoc]
    rfl

end JwkService

/-! ## Side by side -/

section Excludes

variable {ι : Type} {ph : ι → Phase} {w w' : World} {s : JwkService} {kid : String}

/-- Only the request that holds the lock is not `away`. -/
structure Excludes (ph : ι → Phase) (w : World) : Prop where
  lock : ∀ i, ph i ≠ .away → w.refreshLock = true
  alone : ∀ i j, ph i ≠ .away → ph j ≠ .away → i = j

/-- The other requests are away while one is not. -/
theorem Excludes.others (hx : Excludes ph w) {i j : ι} (hi : ph i ≠ .away) (hj : j ≠ i) :
    ph j = .away := by
  by_contra h
  exact hj (hx.alone j i h hi)

/-- Only taking the lock leaves the phase `away`. -/
theorem Travels.away {e : Eff} {r : e.Reply} (h : e.isLookup = true → Travels kid .away e)
    (hl : e ≠ .lockRefresh) : Phase.next .away ⟨e, r⟩ = .away := by
  cases hb : e.isLookup with
  | false =>
    rcases Phase.next_of_other (p := .away) (r := r) hb with hn | ⟨ha, -⟩
    · exact hn
    · cases ha
  | true =>
    have h := h hb
    cases e with
    | lockRefresh => exact absurd rfl hl
    | unlockRefresh => rfl
    | cache op =>
      cases op with
      | lookupFresh k => rfl
      | lookupStale k => rcases h.2 with h | h <;> cases h
      | cacheIsFresh => rcases h with h | h <;> cases h
      | recordFailure => obtain ⟨_, h, -⟩ := h; cases h
      | store jwks => obtain ⟨_, h⟩ := h; cases h
      | _ => cases h
    | _ => cases hb

/-- Only the calls for the lock change whether it is held. -/
theorem call_refreshLock {e : Eff} {r : e.Reply} (hs : (service s).call w e r w')
    (hl : e ≠ .lockRefresh) (hu : e ≠ .unlockRefresh) : w'.refreshLock = w.refreshLock := by
  cases e with
  | lockRefresh => exact absurd rfl hl
  | unlockRefresh => exact absurd rfl hu
  | redis c => rcases call_redis hs with ⟨rfl, -⟩ | ⟨rfl, -⟩ <;> rfl
  | newUuid => obtain ⟨-, -, rfl⟩ := call_newUuid hs; rfl
  | fetchKeys => rw [call_fetchKeys hs]
  | metric m => rw [call_metric hs]
  | cache op => rw [(call_cache hs).2]
  | panic msg => exact r.elim
  | utcNow | readKeyId | writeKeyId | getKey | createKey =>
    obtain ⟨c, hs⟩ := hs
    cases c <;> first
      | (cases hs; done)
      | (cases Option.some.inj hs; rfl)

theorem Excludes.tick (hx : Excludes ph w) (d : Nat) : Excludes ph (w.tick d) :=
  ⟨hx.lock, hx.alone⟩

variable [DecidableEq ι]

/-- A call moves one request to its next phase. -/
theorem update_cases (ph : ι → Phase) (i : ι) (p : Phase) (j : ι) :
    Function.update ph i p j = p ∧ j = i ∨ Function.update ph i p j = ph j ∧ j ≠ i := by
  by_cases hj : j = i
  · subst hj
    exact .inl ⟨Function.update_self .., rfl⟩
  · exact .inr ⟨Function.update_of_ne hj .., hj⟩

/-- The lock keeps all but one request away. -/
theorem Excludes.call (hx : Excludes ph w) {i : ι} {e : Eff} {r : e.Reply}
    (ht : e.isLookup = true → Travels kid (ph i) e) (hs : (service s).call w e r w') :
    Excludes (Function.update ph i ((ph i).next ⟨e, r⟩)) w' := by
  by_cases hl : e = .lockRefresh
  · subst hl
    obtain ⟨hfree, rfl⟩ := call_lockRefresh hs
    have hall : ∀ j, ph j = .away := fun j => by
      by_contra h
      rw [hx.lock j h] at hfree
      cases hfree
    have honly : ∀ j, Function.update ph i ((ph i).next ⟨.lockRefresh, r⟩) j ≠ .away → j = i :=
      fun j hj => by
        by_contra hji
        rw [Function.update_of_ne hji] at hj
        exact hj (hall j)
    exact ⟨fun _ _ => rfl, fun j k hj hk => (honly j hj).trans (honly k hk).symm⟩
  · have hold : ∀ j, Function.update ph i ((ph i).next ⟨e, r⟩) j ≠ .away → ph j ≠ .away := by
      intro j hj hja
      by_cases hji : j = i
      · subst hji
        rw [Function.update_self, hja] at hj
        rw [hja] at ht
        exact hj (Travels.away ht hl)
      · rw [Function.update_of_ne hji] at hj
        exact hj hja
    refine ⟨fun j hj => ?_, fun j k hj hk => hx.alone j k (hold j hj) (hold k hk)⟩
    have hlock := hx.lock j (hold j hj)
    by_cases hu : e = .unlockRefresh
    · -- The lock was held by the request that gives it back.
      subst hu
      have hi : ph i ≠ .away := fun hi => by
        rw [hi] at ht
        cases ht rfl
      have hji := hx.alone j i (hold j hj) hi
      subst hji
      rw [Function.update_self] at hj
      exact absurd rfl hj
    · rw [call_refreshLock hs hl hu]
      exact hlock

/-- The lock is held, if at all, by a request that is not `away`. -/
def Attended (ph : ι → Phase) (w : World) : Prop := w.refreshLock = true → ∃ i, ph i ≠ .away

theorem Attended.call (ha : Attended ph w) {i : ι} {e : Eff} {r : e.Reply}
    (hs : (service s).call w e r w') :
    Attended (Function.update ph i ((ph i).next ⟨e, r⟩)) w' := by
  intro hl
  by_cases hk : e = .lockRefresh
  · subst hk
    refine ⟨i, ?_⟩
    rw [Function.update_self]
    exact nofun
  · by_cases hu : e = .unlockRefresh
    · subst hu
      rw [call_unlockRefresh hs] at hl
      cases hl
    · obtain ⟨j, hj⟩ := ha (call_refreshLock hs hk hu ▸ hl)
      refine ⟨j, ?_⟩
      rcases update_cases ph i ((ph i).next ⟨e, r⟩) j with ⟨h, rfl⟩ | ⟨h, -⟩
      · rw [h]
        exact fun hn => (Phase.next_away hn).elim hu hj
      · rw [h]
        exact hj

/-- The phases after a call of a request. -/
theorem after_callsOf {Λ : Type} (h : List (Event svc ι Λ)) (i : ι) (c : Call svc) :
    (fun j => Phase.after (callsOf j (h ++ [.call i c]))) =
      Function.update (fun j => Phase.after (callsOf j h)) i ((Phase.after (callsOf i h)).next c) := by
  funext j
  by_cases hj : j = i
  · subst hj
    rw [Function.update_self, callsOf_append, callsOf_call_self, callsOf_nil, Phase.after_snoc]
  · rw [Function.update_of_ne hj, callsOf_append, callsOf_call_ne (Ne.symm hj), callsOf_nil,
      List.append_nil]

/-- Time moves no request. -/
theorem after_env {Λ : Type} (h : List (Event svc ι Λ)) (d : Λ) :
    (fun j => Phase.after (callsOf j (h ++ [.env d]))) = fun j => Phase.after (callsOf j h) := by
  funext j
  rw [callsOf_append, callsOf_env, callsOf_nil, List.append_nil]

end Excludes

end JwtService

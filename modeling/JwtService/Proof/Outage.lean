import JwtService.Proof.Trips

/-!
# The key service during an outage

Lookups of public keys, in any number and any interleaving, while no trip to
the key service brings keys and the memory holds a usable snapshot
(`Outage`). A refresh starts when its attempt is recorded, and `requests`
are the moments at which one starts. They are at least the refresh interval
apart in every run in which no lookup of a key outside the snapshot finds
the snapshot past its lifetime while it is too early for a refresh
(`outage_not_hammered`); such a lookup goes to the key service every time
(`outage_hammered`).
-/

namespace JwtService

open Interaction

variable {ι : Type}

/-- The call that stands at the start of a trip. -/
def Eff.startsTrip : Eff → Bool
  | .cache .recordAttempt => true
  | _ => false

/-- The moments at which trips start, in order, on a clock that shows `now`
before the events. -/
def requests (now : Nat) : List (Event svc ι Nat) → List Nat
  | [] => []
  | .env d :: tr => requests (now + d) tr
  | .call _ c :: tr => if c.eff.startsTrip then now :: requests now tr else requests now tr

/-- The time that passes during the events. -/
def elapsed : List (Event svc ι Nat) → Nat
  | [] => 0
  | .env d :: tr => d + elapsed tr
  | .call _ _ :: tr => elapsed tr

/-- A trip ends without keys. -/
def failsTrip : Event svc ι Nat → Bool
  | .call _ ⟨.fetchKeys, r⟩ => r.failed
  | _ => true

/-- No trip brings keys, and the memory holds a usable snapshot: `jwks`,
fetched at the moment `fetchedAt`. -/
structure Outage (s : JwkService) (jwks : Jwks) (fetchedAt : Nat) (w : World)
    (ev : Event svc ι Nat) : Prop where
  snapshot : w.cache.entry = some (jwks, fetchedAt)
  usable : w.now - fetchedAt < s.servableMaxAge
  fails : failsTrip ev = true

instance (s : JwkService) (jwks : Jwks) (fetchedAt : Nat) (w : World) (ev : Event svc ι Nat) :
    Decidable (Outage s jwks fetchedAt w ev) :=
  decidable_of_iff (w.cache.entry = some (jwks, fetchedAt) ∧ w.now - fetchedAt < s.servableMaxAge ∧
    failsTrip ev = true) ⟨fun h => ⟨h.1, h.2.1, h.2.2⟩, fun h => ⟨h.snapshot, h.usable, h.fails⟩⟩

/-- No lookup of a key that is not in the snapshot finds the snapshot past its
lifetime while it is too early for a refresh. -/
def spares (s : JwkService) (kid : ι → String) (jwks : Jwks) (w : World) :
    Event svc ι Nat → Bool
  | .call i ⟨.cache .cacheIsFresh, _⟩ =>
    (jwks.find (kid i)).isSome || s.cacheIsFresh w.now w.cache ||
      (s.allowRefreshOnMiss w.now w.cache).1
  | _ => true

theorem requests_append (now : Nat) (t₁ t₂ : List (Event svc ι Nat)) :
    requests now (t₁ ++ t₂) = requests now t₁ ++ requests (now + elapsed t₁) t₂ := by
  induction t₁ generalizing now with
  | nil => rfl
  | cons ev t₁ ih =>
    cases ev with
    | env d => rw [List.cons_append, requests, ih, requests, elapsed, Nat.add_assoc]
    | call i c =>
      rw [List.cons_append, requests, requests, elapsed, ih]
      split <;> rfl

theorem elapsed_append (t₁ t₂ : List (Event svc ι Nat)) :
    elapsed (t₁ ++ t₂) = elapsed t₁ + elapsed t₂ := by
  induction t₁ with
  | nil => exact (Nat.zero_add _).symm
  | cons ev t₁ ih =>
    cases ev with
    | env d => rw [List.cons_append, elapsed, elapsed, ih, Nat.add_assoc]
    | call i c => rw [List.cons_append, elapsed, elapsed, ih]

theorem run_now [DecidableEq ι] {α : Type} {s : JwkService} {P P' : Pool svc World ι α}
    {tr : List (Event svc ι Nat)} (hr : (service s).Run P tr P') : P'.st.now = P.st.now + elapsed tr := by
  induction hr with
  | nil => rfl
  | cons hs _ ih =>
    cases hs with
    | env hs =>
      cases hs
      rw [ih, elapsed]
      exact Nat.add_assoc ..
    | call _ hs =>
      rw [ih, elapsed, ← call_now hs]

/-- An attempt is recorded when it is allowed. -/
theorem JwkService.allowRefreshOnMiss_snd (s : JwkService) (now : Nat) (st : CacheState) :
    (s.allowRefreshOnMiss now st).2 =
      if (s.allowRefreshOnMiss now st).1 then { st with lastAttempt := some now } else st := by
  unfold allowRefreshOnMiss
  split
  · split <;> rfl
  · rfl

/-! ## The invariant -/

/-- What the requests know of the trips so far, `ts`, in their phases. -/
structure Spaced (s : JwkService) (kid : ι → String) (jwks : Jwks) (ph : ι → Phase)
    (ts : List Nat) (w : World) : Prop where
  excludes : Excludes ph w
  apart : ts.Pairwise fun t t' => t + s.missRefreshInterval ≤ t'
  past : ∀ t ∈ ts, t ≤ w.now
  attempt : ∀ t ∈ ts, ∃ a, w.cache.lastAttempt = some a ∧ t ≤ a
  /-- The end of the last trip is recorded, unless it is under way. -/
  failure : (∀ i, (ph i).ended = true ∨ ph i = .away ∨ ph i = .due) →
    ∀ t ∈ ts, ∃ f, w.cache.lastFailure = some f ∧ t ≤ f
  answered : ∀ i r, ph i = .answered r → r.failed = true
  unserved : ∀ i, ph i = .unserved → jwks.find (kid i) = none
  due : ∀ i, ph i = .due ∨ ph i = .unfailed → ∀ t ∈ ts, t + s.missRefreshInterval ≤ w.now

namespace Spaced

variable {s : JwkService} {kid : ι → String} {jwks : Jwks} {ph : ι → Phase} {ts : List Nat}
  {w w' : World} {i : ι} {f₀ : Nat}

/-- Before the first call no trip was made. -/
theorem start (w : World) : Spaced s kid jwks (fun _ => .away) [] w where
  excludes := ⟨by simp, by simp⟩
  apart := List.Pairwise.nil
  past := by simp
  attempt := by simp
  failure := by simp
  answered := by simp
  unserved := by simp
  due := by simp

theorem tick (hs : Spaced s kid jwks ph ts w) (d : Nat) : Spaced s kid jwks ph ts (w.tick d) :=
  { hs with
    excludes := hs.excludes.tick d
    past := fun t ht => Nat.le_add_right_of_le (hs.past t ht)
    due := fun i hi t ht => Nat.le_add_right_of_le (hs.due i hi t ht) }

/-- A refresh is allowed only long enough after every trip. -/
theorem allowed (hs : Spaced s kid jwks ph ts w)
    (ha : (s.allowRefreshOnMiss w.now w.cache).1 = true) :
    ∀ t ∈ ts, t + s.missRefreshInterval ≤ w.now := by
  intro t ht
  obtain ⟨a, ha', hta⟩ := hs.attempt t ht
  have hp := hs.past t ht
  simp only [JwkService.allowRefreshOnMiss, ha'] at ha
  split at ha
  · cases ha
  · omega

/-- A recorded attempt is later than every trip. -/
theorem attempted (hs : Spaced s kid jwks ph ts w) : Spaced s kid jwks ph ts
    { w with cache := { w.cache with lastAttempt := some w.now } } :=
  { hs with
    excludes := ⟨hs.excludes.lock, hs.excludes.alone⟩
    attempt := fun t ht => ⟨w.now, rfl, hs.past t ht⟩ }

variable [DecidableEq ι]

/-- A request moves on within its own phase, and the cache stays. -/
theorem move (hs : Spaced s kid jwks ph ts w) {p : Phase} (hx : Excludes (Function.update ph i p) w')
    (hc : w'.cache.lastAttempt = w.cache.lastAttempt) (hn : w'.now = w.now)
    (hover : p.ended = true ∨ p = .away ∨ p = .due → w'.cache.lastFailure = w.cache.lastFailure ∧
      ((ph i).ended = true ∨ ph i = .away ∨ ph i = .due) ∨
      ∀ t ∈ ts, ∃ f, w'.cache.lastFailure = some f ∧ t ≤ f)
    (hanswered : ∀ r, p = .answered r → r.failed = true)
    (hunserved : p = .unserved → jwks.find (kid i) = none)
    (hdue : p = .due ∨ p = .unfailed → ∀ t ∈ ts, t + s.missRefreshInterval ≤ w.now) :
    Spaced s kid jwks (Function.update ph i p) ts w' := by
  have hcases := update_cases ph i p
  refine ⟨hx, hs.apart, hn ▸ hs.past, hc ▸ hs.attempt, fun hall t ht => ?_, fun j r hr => ?_,
    fun j hj => ?_, fun j hj => ?_⟩
  · have hi := hall i
    rw [Function.update_self] at hi
    rcases hover hi with ⟨hl, hi'⟩ | h
    · rw [hl]
      refine hs.failure (fun j => ?_) t ht
      by_cases hji : j = i
      · rw [hji]
        exact hi'
      · have := hall j
        rwa [Function.update_of_ne hji] at this
    · exact h t ht
  · rcases hcases j with ⟨he, -⟩ | ⟨he, -⟩ <;> rw [he] at hr
    · exact hanswered r hr
    · exact hs.answered j r hr
  · rcases hcases j with ⟨he, hji⟩ | ⟨he, -⟩ <;> rw [he] at hj
    · rw [hji]
      exact hunserved hj
    · exact hs.unserved j hj
  · rw [hn]
    rcases hcases j with ⟨he, -⟩ | ⟨he, -⟩ <;> rw [he] at hj
    · exact hdue hj
    · exact hs.due j hj

/-- The move of a request that is not on a trip, to a phase that asks for
nothing but what `hu` and `hd` give. -/
theorem shift (hs : Spaced s kid jwks ph ts w) {p : Phase} (hi : (ph i).ended = true ∨ ph i = .away)
    (hx : Excludes (Function.update ph i p) w') (hn : w'.now = w.now)
    (hc : w'.cache.lastAttempt = w.cache.lastAttempt ∧
      w'.cache.lastFailure = w.cache.lastFailure) (hp : ∀ r, p ≠ .answered r)
    (hu : p = .unserved → jwks.find (kid i) = none)
    (hd : p = .due ∨ p = .unfailed → ∀ t ∈ ts, t + s.missRefreshInterval ≤ w.now) :
    Spaced s kid jwks (Function.update ph i p) ts w' :=
  hs.move hx hc.1 hn (fun _ => .inl ⟨hc.2, hi.imp_right .inl⟩) (fun r hr => absurd hr (hp r)) hu hd

/-- A call that changes nothing. -/
theorem stay (hs : Spaced s kid jwks ph ts w) {p : Phase} (hp : p = ph i) (hw : w' = w) :
    Spaced s kid jwks (Function.update ph i p) ts w' := by
  subst hw hp
  rwa [Function.update_eq_self]

/-- No trip has started within the interval, when none failed within it and
none is under way. -/
theorem unfailed (hs : Spaced s kid jwks ph ts w) (hi : ph i = .early)
    (hl : s.refreshRecentlyFailed w.now w.cache = false) :
    ∀ t ∈ ts, t + s.missRefreshInterval ≤ w.now := by
  intro t ht
  have hp := hs.past t ht
  have hall : ∀ j, (ph j).ended = true ∨ ph j = .away ∨ ph j = .due := fun j => by
    by_cases hj : j = i
    · rw [hj, hi]
      exact .inl rfl
    · exact .inr (.inl (hs.excludes.others (by rw [hi]; exact nofun) hj))
  obtain ⟨f, hf, htf⟩ := hs.failure hall t ht
  simp only [JwkService.refreshRecentlyFailed, hf, decide_eq_false_iff_not] at hl
  omega

/-- The start of a trip. -/
theorem starts (hs : Spaced s kid jwks ph ts w) (hi : ph i = .due)
    (hx : Excludes (Function.update ph i .trying) w')
    (hw : w' = { w with cache := { w.cache with lastAttempt := some w.now } }) :
    Spaced s kid jwks (Function.update ph i .trying) (ts ++ [w.now]) w' := by
  subst hw
  have hdue := hs.due i (.inl hi)
  have hne : ph i ≠ .away := by
    rw [hi]
    exact nofun
  have hother : ∀ j, j ≠ i → Function.update ph i .trying j = .away := fun j hj => by
    rw [Function.update_of_ne hj]
    exact hs.excludes.others hne hj
  have hself : Function.update ph i .trying i = .trying := Function.update_self ..
  have hnot : ∀ j p, p ≠ .away → p ≠ .trying → Function.update ph i .trying j ≠ p :=
    fun j p h₁ h₂ he => by
      by_cases hj : j = i
      · subst hj
        exact h₂ (he.symm.trans hself)
      · exact h₁ (he.symm.trans (hother j hj))
  refine ⟨hx, ?_, fun t ht => ?_, fun t ht => ⟨w.now, rfl, ?_⟩, fun hall => ?_, fun j r hr => ?_,
    fun j hj => ?_, fun j hj => ?_⟩
  · refine List.pairwise_append.mpr ⟨hs.apart, List.pairwise_singleton _ _, fun t ht t' ht' => ?_⟩
    rw [List.mem_singleton.mp ht']
    exact hdue t ht
  · rcases List.mem_append.mp ht with ht | ht
    · exact hs.past t ht
    · exact Nat.le_of_eq (List.mem_singleton.mp ht)
  · rcases List.mem_append.mp ht with ht | ht
    · exact hs.past t ht
    · exact Nat.le_of_eq (List.mem_singleton.mp ht)
  · have := hall i
    rw [hself] at this
    rcases this with h | h | h <;> cases h
  · exact absurd hr (hnot j _ nofun nofun)
  · exact absurd hj (hnot j _ nofun nofun)
  · rcases hj with hj | hj <;> exact absurd hj (hnot j _ nofun nofun)

/-- What an operation of the cache makes of it. -/
theorem cacheOp (hs : Spaced s kid jwks ph ts w) {op : CacheOp} {r : op.Reply}
    (ht : Travels (kid i) (ph i) (.cache op)) (hc : (service s).call w (.cache op) r w')
    (ho : Outage s jwks f₀ w (.call i ⟨.cache op, r⟩))
    (hsp : spares s kid jwks w (.call i ⟨.cache op, r⟩) = true) (hne : op ≠ .recordAttempt) :
    Spaced s kid jwks (Function.update ph i ((ph i).next ⟨.cache op, r⟩)) ts w' := by
  have hx := hs.excludes.call (fun _ => ht) hc
  obtain ⟨hr, rfl⟩ := call_cache hc
  cases op with
  | lookupFresh k => exact hs.stay rfl rfl
  | lookupStale k =>
    obtain ⟨rfl, hi | hi⟩ := ht
    · have hover : (ph i).ended = true := by rw [hi]; rfl
      rw [hi] at hx ⊢
      cases r with
      | none =>
        refine hs.shift (.inl hover) hx rfl ⟨rfl, rfl⟩ (by exact nofun) (fun _ => ?_) (by simp [Phase.next])
        have husable := ho.usable
        have hl : s.lookupStale w.now w.cache (kid i) = none := hr.symm
        simp only [JwkService.lookupStale, ho.snapshot] at hl
        rw [if_neg (by omega)] at hl
        simpa using hl
      | some x =>
        exact hs.shift (.inl hover) hx rfl ⟨rfl, rfl⟩ (by exact nofun) (by exact nofun) (by simp [Phase.next])
    · exact hs.stay (by rw [hi]; cases r <;> rfl) rfl
  | cacheIsFresh =>
    have hover : (ph i).ended = true := by rcases ht with ht | ht <;> rw [ht] <;> rfl
    cases r with
    | true => exact hs.stay rfl rfl
    | false =>
      refine hs.shift (.inl hover) hx rfl ⟨rfl, rfl⟩ (by exact nofun) (by exact nofun) fun _ => ?_
      rcases ht with ht | ht
      · exact hs.due i (.inr ht)
      · have hf : s.cacheIsFresh w.now w.cache = false := hr.symm
        refine hs.allowed ?_
        simpa only [spares, hs.unserved i ht, hf, Option.isSome_none, Bool.false_or] using hsp
  | hasServableSnapshot => cases ht
  | refreshRecentlyFailed =>
    have hi : ph i = .early := ht
    have hover : (ph i).ended = true := by rw [hi]; rfl
    rw [hi] at hx ⊢
    cases r with
    | true => exact hs.shift (.inl hover) hx rfl ⟨rfl, rfl⟩ (by exact nofun) (by exact nofun) (by simp [Phase.next])
    | false =>
      exact hs.shift (.inl hover) hx rfl ⟨rfl, rfl⟩ (by exact nofun) (by exact nofun) fun _ => hs.unfailed hi hr.symm
  | allowRefreshOnMiss =>
    have hi : ph i = .inside := ht
    have hover : (ph i).ended = true := by rw [hi]; rfl
    have hw := s.allowRefreshOnMiss_snd w.now w.cache
    cases r with
    | true =>
      have ha : (s.allowRefreshOnMiss w.now w.cache).1 = true := hr.symm
      rw [ha] at hw
      refine hs.attempted.shift (.inl hover) hx rfl ?_ (by exact nofun) (by exact nofun)
        fun _ => hs.allowed ha
      exact ⟨congrArg CacheState.lastAttempt hw, congrArg CacheState.lastFailure hw⟩
    | false =>
      have ha : (s.allowRefreshOnMiss w.now w.cache).1 = false := hr.symm
      rw [ha] at hw
      refine hs.shift (.inl hover) hx rfl ?_ (by exact nofun) (by exact nofun)
        (by simp [Phase.next])
      exact ⟨congrArg CacheState.lastAttempt hw, congrArg CacheState.lastFailure hw⟩
  | recordAttempt => exact absurd rfl hne
  | recordFailure =>
    refine hs.move hx rfl rfl (fun _ => .inr fun t htt => ⟨w.now, rfl, hs.past t htt⟩)
      (by exact nofun) (by exact nofun) (by simp [Phase.next])
  | store jwks' =>
    obtain ⟨status, hi⟩ := ht
    cases hs.answered i _ hi

/-- What a call of a lookup makes of it. -/
theorem call (hs : Spaced s kid jwks ph ts w) {e : Eff} {r : e.Reply}
    (ht : Travels (kid i) (ph i) e) (hc : (service s).call w e r w')
    (ho : Outage s jwks f₀ w (.call i ⟨e, r⟩)) (hsp : spares s kid jwks w (.call i ⟨e, r⟩) = true) :
    Spaced s kid jwks (Function.update ph i ((ph i).next ⟨e, r⟩))
      (ts ++ if e.startsTrip then [w.now] else []) w' := by
  have hx := hs.excludes.call (fun _ => ht) hc
  by_cases he : e = .cache .recordAttempt
  · subst he
    exact hs.starts ht hx (call_cache hc).2
  · have hno : e.startsTrip = false := by
      unfold Eff.startsTrip
      split
      · exact absurd rfl he
      · rfl
    rw [hno, if_neg nofun, List.append_nil]
    cases e with
    | cache op => exact hs.cacheOp ht hc ho hsp fun h => he (congrArg Eff.cache h)
    | metric m => exact hs.stay rfl (call_metric hc)
    | lockRefresh =>
      obtain ⟨-, rfl⟩ := call_lockRefresh hc
      exact hs.shift (.inr ht) hx rfl ⟨rfl, rfl⟩ (by exact nofun) (by exact nofun)
        (by simp [Phase.next])
    | unlockRefresh =>
      have hw := call_unlockRefresh hc
      subst hw
      exact hs.shift (.inl ht) hx rfl ⟨rfl, rfl⟩ (by exact nofun) (by exact nofun)
        (by simp [Phase.next])
    | fetchKeys =>
      have hw := call_fetchKeys hc
      subst hw
      have hi : ph i = .trying := ht
      rw [hi] at hx ⊢
      refine hs.move hx rfl rfl ?_ ?_ (by exact nofun) (by simp [Phase.next])
      · rintro (h | h | h) <;> cases h
      · intro r' hr
        cases hr
        exact ho.fails
    | _ => cases ht

end Spaced

/-! ## Runs -/

variable [DecidableEq ι] {s : JwkService} {kid : ι → String} {jwks : Jwks} {fetchedAt : Nat}
  {w : World} {tr : List (Event svc ι Nat)} {P' : Pool svc World ι (Except JwkError Jwk)}

/-- The lookups before their first call. -/
def lookups (w : World) (kid : ι → String) : Pool svc World ι (Except JwkError Jwk) :=
  ⟨w, fun i => JwkService.publicKey (kid i)⟩

/-- Trips to a key service that does not answer start at least the refresh
interval apart, and the network is used on these trips only, once on each. -/
theorem outage_not_hammered
    (hr : (service s).RunWhere (fun _ w ev => Outage s jwks fetchedAt w ev ∧
      spares s kid jwks w ev = true) [] (lookups w kid) tr P') :
    (requests w.now tr).Pairwise (fun t t' => t + s.missRefreshInterval ≤ t') ∧
      ∀ i cs₁ r cs₂, callsOf i tr = cs₁ ++ ⟨.fetchKeys, r⟩ :: cs₂ → ∃ h₁ h₂,
        cs₁ = h₁ ++ ⟨.cache .recordAttempt, ()⟩ :: h₂ ∧ ∀ c ∈ h₂, c.eff ≠ .fetchKeys := by
  have hw : ∀ i, Prog.wp (JwkService.Trip (kid i)) [] ((lookups w kid).prog i)
      fun h' _ => Phase.after h' = .away := fun i =>
    @JwkService.publicKey_travels [] (kid i) rfl
  refine ⟨?_, fun i cs₁ r cs₂ h => Phase.after_trying ?_⟩
  · have hinv := hr.inv (I := fun h w' => w'.now = w.now + elapsed h ∧
      Spaced s kid jwks (fun i => Phase.after (callsOf i h)) (requests w.now h) w')
      (fun h w₁ i e r w₂ hI ht hg hc => ?_) (fun h w₁ d w₂ hI hg hc => ?_) hw ?_
    · exact hinv.2.apart
    · refine ⟨?_, ?_⟩
      · rw [elapsed_append, call_now hc, hI.1]
        rfl
      · have hs := hI.2.call ht hc hg.1 hg.2
        rw [after_callsOf, requests_append, ← hI.1]
        exact hs
    · cases hc
      refine ⟨?_, ?_⟩
      · rw [elapsed_append, ← Nat.add_assoc, ← hI.1]
        rfl
      · have hs := hI.2.tick d
        rw [requests_append]
        simp only [callsOf_append, callsOf_env, callsOf_nil, List.append_nil]
        rw [show requests (w.now + elapsed h) ([.env d] : List (Event svc ι Nat)) = [] from rfl,
          List.append_nil]
        exact hs
    · exact ⟨rfl, .start w⟩
  · have := ((hr.run.path i).wp (hw i)).2 cs₁ ⟨.fetchKeys, r⟩ cs₂ h
    rwa [List.nil_append] at this

/-! ## Two lookups side by side -/

/-- A snapshot of one key. -/
def agedKeys : Jwks := ⟨[⟨"RSA", "RS256", "known", none, none, none, none, none⟩]⟩

/-- The snapshot was fetched at the moment 0, and its lifetime has just ended. -/
def agedWorld : World :=
  { World.empty with now := 300000, cache := ⟨some (agedKeys, 0), some 0, none⟩ }

/-- A lifetime of 300 s, an interval of 5 s and a grace of 10 s. -/
def agedService : JwkService := ⟨300000, 5000, 10000⟩

/-- Plays two lookups of `kid` at a key service that is down. -/
def playLookups (kid : String) (ok : World → Event svc Bool Nat → Bool) :
    List (System.Move Bool Choice Nat) →
      Option (List (Event svc Bool Nat) × Pool svc World Bool (Except JwkError Jwk)) := fun ms =>
  System.play (World.act agedService) (fun w d => some (w.tick d)) ok ms
    (lookups agedWorld fun _ => kid)

/-- A lookup that goes to the key service after `before` calls. -/
def lookupMoves (i : Bool) (before after : Nat) : List (System.Move Bool Choice Nat) :=
  List.replicate before (.call i .plain) ++ .call i (.keys .unreachable) ::
    List.replicate after (.call i .plain)

theorem playLookups_run {kid : String} {ok : World → Event svc Bool Nat → Bool}
    {ms : List (System.Move Bool Choice Nat)} {tr : List (Event svc Bool Nat)}
    {P' : Pool svc World Bool (Except JwkError Jwk)} (h : playLookups kid ok ms = some (tr, P')) :
    (service agedService).RunWhere (fun _ w ev => ok w ev = true) [] (lookups agedWorld fun _ => kid)
      tr P' :=
  System.play_run (fun _ _ c _ _ h => ⟨c, h⟩) (fun _ _ _ h => (Option.some.inj h).symm)
    (fun _ _ _ h => h) h

/-- Two lookups of the key in the snapshot, an interval apart. -/
theorem outage_not_hammered_known :
    ∃ tr P', (requests agedWorld.now tr).length = 2 ∧
      (service agedService).RunWhere (fun _ w (ev : Event svc Bool Nat) =>
        Outage agedService agedKeys 0 w ev ∧
          spares agedService (fun _ => "known") agedKeys w ev = true) []
        (lookups agedWorld fun _ => "known") tr P' ∧
      (requests agedWorld.now tr).Pairwise (fun t t' => t + 5000 ≤ t') := by
  obtain ⟨⟨tr, P'⟩, hplay, hlen⟩ := (Option.any_eq_true _ _).mp (show (playLookups "known"
    (fun w ev => decide (Outage agedService agedKeys 0 w ev ∧
      spares agedService (fun _ => "known") agedKeys w ev = true))
    (lookupMoves false 5 4 ++ .env 5000 :: lookupMoves true 5 4)).any
      (fun x => decide ((requests agedWorld.now x.1).length = 2)) = true by decide)
  have hrun := (playLookups_run hplay).mono fun _ _ _ h => of_decide_eq_true h
  exact ⟨tr, P', of_decide_eq_true hlen, hrun, (outage_not_hammered hrun).1⟩

/-- Two lookups of a key outside the snapshot, at the same moment: each goes
to the key service. -/
theorem outage_hammered :
    ∃ tr P', (service agedService).RunWhere (fun _ w (ev : Event svc Bool Nat) =>
        Outage agedService agedKeys 0 w ev) [] (lookups agedWorld fun _ => "junk") tr P' ∧
      agedWorld.now - 0 < agedService.servableMaxAge ∧ 0 < agedService.cacheTtl ∧
      0 < agedService.missRefreshInterval ∧ requests agedWorld.now tr = [300000, 300000] ∧
      ¬ (requests agedWorld.now tr).Pairwise
        (fun t t' => t + agedService.missRefreshInterval ≤ t') := by
  obtain ⟨⟨tr, P'⟩, hplay, hreq⟩ := (Option.any_eq_true _ _).mp (show (playLookups "junk"
    (fun w ev => decide (Outage agedService agedKeys 0 w ev))
    (lookupMoves false 5 4 ++ lookupMoves true 8 4)).any
      (fun x => decide (requests agedWorld.now x.1 = [300000, 300000])) = true by decide)
  have hreq : requests agedWorld.now tr = [300000, 300000] := of_decide_eq_true hreq
  refine ⟨tr, P', (playLookups_run hplay).mono fun _ _ _ h => of_decide_eq_true h, by decide,
    by decide, by decide, hreq, ?_⟩
  rw [hreq]
  decide

end JwtService

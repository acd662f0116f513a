import JwtService.Proof.Addressed
import JwtService.Proof.Revocation
import JwtService.Proof.Snapshot

/-!
# The cache of public keys in the service

Requests of all kinds side by side, as in `start`. Only verifications look up
public keys, each the key its token names (`kidOf`), and they keep to the
discipline of the lock and of the trips (`serve_rides`). So what `Snapshot.lean`
says of lookups holds of the whole service (`service_kept`).

From the moment on at which every set the key service answers with has a key,
the cache catches up with it (`Catching`): no refresh was attempted since, one
is under way, or the snapshot has the key. A lookup that is throttled later than
an interval after that moment does not miss the key (`not_throttled`).
-/

namespace JwtService

open Interaction

/-! ## The lookups of requests -/

/-- The `kid` a token names. -/
def tokenKid (libs : Libs) (token : String) : String :=
  match Text.split '.' token with
  | [] => ""
  | segment :: _ =>
    match TokenHeaders.fromBase64 libs.json segment with
    | .ok headers => headers.kid
    | .error _ => ""

/-- The `kid` a request looks up, if it looks up any. -/
def kidOf (libs : Libs) : Request → String
  | .verifyToken _ req => tokenKid libs req.token
  | _ => ""

section Rides

variable {env : Env} {libs : Libs} {kid : String} {α : Type} {P : Calls → Eff → Prop}

/-- The request is not under the refresh lock. -/
def Away (h : Calls) : Prop := Phase.after h = .away

/-- A program that looks up no key. -/
theorem away_other (hP : ∀ h e, e.isLookup = false → Away h → P h e) {p : M α}
    (hp : @Prog.Only svc α (fun e => Eff.isLookup e = false) p) : p.Maintains P Away := by
  refine Prog.Only.maintains hp (fun h e hi he => hP h e he hi) fun h e r hi he => ?_
  rw [Away, Phase.after_snoc]
  rcases Phase.next_of_other (p := Phase.after h) (r := r) he with hn | ⟨ht, -⟩
  · rw [hn]
    exact hi
  · rw [hi] at ht
    cases ht

theorem away_fromString (hP : ∀ h e, e.isLookup = false → Away h → P h e) {token issuer audience : String}
    (hk : (JwkService.publicKey (tokenKid libs token)).Maintains P Away) :
    @Prog.Maintains svc _ P Away
      (JsonWebToken.fromString env libs (redisClient libs.json) token issuer audience) := by
  unfold JsonWebToken.fromString
  split
  · rename_i s₁ s₂ s₃ rest hsplit
    refine Prog.maintains_ofExcept_bind fun headers hh => ?_
    have hkid : tokenKid libs token = headers.kid := by rw [tokenKid, hsplit]; simp only [hh]
    rw [hkid] at hk
    refine Prog.maintains_tryBind (Prog.maintains_mapError (Prog.maintains_tryBind
      (Prog.maintains_mapError hk) fun _ => Prog.maintains_ofExcept _)) fun key => ?_
    refine Prog.maintains_tryBind (Prog.maintains_ofExcept _) fun _ => ?_
    refine Prog.maintains_tryBind (Prog.maintains_ofExcept _) fun claims => ?_
    split
    · refine Prog.maintains_tryBind (Prog.maintains_liftE
        (away_other hP (only_isVerify rfl rfl))) fun b => ?_
      cases b <;> exact away_other hP trivial
    · exact away_other hP trivial
  · exact away_other hP trivial

theorem away_handle (hP : ∀ h e, e.isLookup = false → Away h → P h e) {rq : Request}
    (hk : (JwkService.publicKey (kidOf libs rq)).Maintains P Away) :
    (handle env libs (redisClient libs.json) rq).Maintains P Away := by
  cases rq with
  | verifyToken host req =>
    refine Prog.maintains_bind (Prog.maintains_tryBind (Prog.maintains_ofExcept _) fun issuer => ?_)
      fun r => ?_
    · show Prog.Maintains _ _ (ite _ _ _)
      split
      · refine Prog.maintains_tryBind (Prog.maintains_liftE
          (Prog.maintains_tryBind (away_fromString hP hk) fun _ => Prog.maintains_ret _)) fun r => ?_
        cases r <;> exact away_other hP (Prog.only_tryBind (only_callE rfl) fun _ => trivial)
      · exact away_other hP trivial
    · cases r <;> exact Prog.maintains_ret _
  | _ => exact away_other hP (Covers.handle ⟨fun _ _ h => h, rfl, fun _ _ => rfl⟩ nofun)

/-- What holds of the other calls of a request without the lock, and of those of
the lookup of its key, holds of each of its calls. It does not have the lock
when it returns. -/
theorem serve_away (hP : ∀ h e, e.isLookup = false → Away h → P h e) (a : Admission) (rq : Request)
    (hk : (JwkService.publicKey (kidOf libs rq)).Maintains P Away) :
    Prog.wp P [] (serve env libs (redisClient libs.json) a rq) fun h _ => Away h := by
  have hother : ∀ {e : Eff} {h : Calls}, e.isLookup = false → Away h →
      P h e ∧ ∀ r, Away (h ++ [⟨e, r⟩]) := fun {e h} he hi =>
    away_other hP (p := .call e fun r => .ret r) ⟨he, fun _ => trivial⟩ h hi
  exact wp_serve (I := Away) a rq rfl (fun _ _ _ hi _ => hother rfl hi)
    (fun _ _ r _ _ hi _ => ⟨(hother rfl hi).1, (hother rfl hi).2 r⟩) (away_handle hP hk)

/-- A request keeps to the discipline of the lock and of the trips, and is not
under the lock when it returns. -/
theorem serve_rides (a : Admission) (rq : Request) : Prog.wp (Rides (kidOf libs rq)) []
    (serve env libs (redisClient libs.json) a rq) fun h _ => Away h := by
  refine serve_away (fun h e he _ hb => ?_) a rq fun h hi => ?_
  · rw [he] at hb
    cases hb
  · exact Prog.wp_mono (fun h e he => show Rides (kidOf libs rq) h e from fun _ => he) (fun _ _ hq => hq.1)
      (Prog.wp_and (JwkService.publicKey_travels (kidOf libs rq) hi)
        (JwkService.publicKey_decided (kidOf libs rq) h))

/-- Under the lock a request does nothing but the lookup. -/
theorem serve_attentive (a : Admission) (rq : Request) :
    Prog.wp (fun h e => Away h ∨ Travels (kidOf libs rq) (Phase.after h) e) []
      (serve env libs (redisClient libs.json) a rq) fun h _ => Away h := by
  refine serve_away (fun _ _ _ hi => .inl hi) a rq fun h hi => ?_
  exact Prog.wp_mono (fun _ _ he => .inr he) (fun _ _ hq => hq)
    (JwkService.publicKey_travels (kidOf libs rq) hi)

end Rides

/-! ## The snapshot of the service -/

section Runs

variable {ι : Type} [DecidableEq ι] {env : Env} {libs : Libs} {adm : ι → Admission}
  {req : ι → Request} {s : JwkService} {tr : Events ι} {P : Pool svc World ι HttpResponse}

/-- The snapshot is the last answer of the key service that was stored, and the
refresh lock is held by a verification, if at all. -/
theorem service_kept (hr : (service s).Run (start env libs adm req) tr P) :
    Kept s (fun i => kidOf libs (req i)) 0 none tr P.st ∧
      Attended (fun i => Phase.after (callsOf i tr)) P.st := by
  have hw : ∀ i, Prog.wp (Rides (kidOf libs (req i))) (callsOf i ([] : Events ι))
      ((start env libs adm req).prog i) fun h _ => Away h := fun i => serve_rides (adm i) (req i)
  refine hr.inv (I := fun h w => Kept s (fun i => kidOf libs (req i)) 0 none h w ∧
      Attended (fun i => Phase.after (callsOf i h)) w)
    (fun h w i e r w' hk ht hc => ⟨hk.1.call ht hc, ?_⟩) (fun h w d w' hk hc => ?_) hw ⟨?_, nofun⟩
  · rw [after_callsOf]
    exact hk.2.call hc
  · cases hc
    refine ⟨hk.1.env d, ?_⟩
    rw [after_env]
    exact hk.2
  · refine ⟨rfl, ⟨fun _ hi => absurd rfl hi, fun _ _ hi => absurd rfl hi⟩, rfl, nofun, fun i hi => ?_⟩
    exact absurd rfl hi.not_away

end Runs

/-! ## Catching up with a key -/

section Catching

variable {ι : Type} {kid k : String} {t : Nat} {ph : ι → Phase} {w w' : World} {s : JwkService}

/-- The answer is a set that has the key. -/
def HttpReply.brings (kid : String) (r : HttpReply Jwks) : Prop :=
  ∃ status jwks, r = .response status (some jwks) ∧ (jwks.find kid).isSome = true

theorem HttpReply.brings.not_failed {r : HttpReply Jwks} (h : r.brings kid) : r.failed = false := by
  obtain ⟨status, jwks, rfl, -⟩ := h
  rfl

/-- The snapshot has the key, and so has every answer that is not stored yet. -/
structure Caught (kid : String) (ph : ι → Phase) (w : World) : Prop where
  snapshot : ∃ jwks fetchedAt, w.cache.entry = some (jwks, fetchedAt) ∧ (jwks.find kid).isSome = true
  pending : ∀ i r, ph i = .answered r → r.brings kid

/-- How far the cache is with a key that has been published since the moment
`t`: no refresh was attempted later, one is under way, or it has the key. -/
inductive Catching (kid : String) (t : Nat) (ph : ι → Phase) (w : World) : Prop
  | untried (h : ∀ a, w.cache.lastAttempt = some a → a ≤ t)
  | underWay (i : ι) (h : ph i = .due ∨ ph i = .trying ∨ ∃ r, ph i = .answered r ∧ r.brings kid)
  | caught (h : Caught kid ph w)

/-- A call leaves the last attempt, unless it is one. -/
theorem call_lastAttempt {e : Eff} {r : e.Reply} (hs : (service s).call w e r w') :
    w'.cache.lastAttempt = w.cache.lastAttempt ∨ w'.cache.lastAttempt = some w.now ∧
      ((⟨e, r⟩ : Call svc) = ⟨.cache .allowRefreshOnMiss, true⟩ ∨
        (⟨e, r⟩ : Call svc) = ⟨.cache .recordAttempt, ()⟩) := by
  cases e with
  | cache op =>
    obtain ⟨hr, rfl⟩ := call_cache hs
    cases op with
    | allowRefreshOnMiss =>
      simp only [CacheOp.exec] at hr ⊢
      rw [JwkService.allowRefreshOnMiss_snd, ← hr]
      cases r with
      | true => exact .inr ⟨rfl, .inl rfl⟩
      | false => exact .inl rfl
    | recordAttempt => exact .inr ⟨rfl, .inr rfl⟩
    | _ => exact .inl rfl
  | _ => exact .inl (by rw [call_cacheState hs fun _ he => by cases he])

theorem Catching.tick (hc : Catching kid t ph w) (d : Nat) : Catching kid t ph (w.tick d) := by
  cases hc with
  | untried h => exact .untried h
  | underWay i h => exact .underWay i h
  | caught h => exact .caught ⟨h.snapshot, h.pending⟩

variable [DecidableEq ι] {i : ι} {e : Eff} {r : e.Reply}

theorem Caught.call (hc : Caught kid ph w) (ht : e.isLookup = true → Travels k (ph i) e)
    (hs : (service s).call w e r w') (hb : ∀ x, (⟨e, r⟩ : Call svc) = ⟨.fetchKeys, x⟩ → x.brings kid) :
    Caught kid (Function.update ph i ((ph i).next ⟨e, r⟩)) w' := by
  obtain ⟨jwks, fetchedAt, he, hf⟩ := hc.snapshot
  refine ⟨?_, fun j x hj => ?_⟩
  · rw [call_entry hs]
    cases hst : e.stored with
    | none => exact ⟨jwks, fetchedAt, he, hf⟩
    | some jwks' =>
      obtain rfl := stored_eq_some.mp hst
      obtain ⟨status, hp⟩ := ht rfl
      obtain ⟨_, _, hx, hf'⟩ := hc.pending i _ hp
      cases hx
      exact ⟨jwks', w.now, rfl, hf'⟩
  · rcases update_cases ph i ((ph i).next ⟨e, r⟩) j with ⟨hu, rfl⟩ | ⟨hu, -⟩
    · rw [hu] at hj
      exact (Phase.next_answered hj).elim (hb x) (hc.pending j x)
    · rw [hu] at hj
      exact hc.pending j x hj

/-- The set that brings the key is stored. -/
theorem Caught.store (hx : Excludes ph w) {x : HttpReply Jwks} (hi : ph i = .answered x)
    (hb : x.brings kid) {jwks : Jwks} {u : Unit} (ht : Travels k (ph i) (.cache (.store jwks)))
    (hs : (service s).call w (.cache (.store jwks)) u w') :
    Caught kid (Function.update ph i .settled) w' := by
  obtain ⟨status, hp⟩ := ht
  obtain ⟨status', jwks', rfl, hf⟩ := hb
  rw [hi] at hp
  cases hp
  refine ⟨⟨jwks, w.now, by rw [call_entry hs]; rfl, hf⟩, fun j y hj => ?_⟩
  rcases update_cases ph i .settled j with ⟨hu, -⟩ | ⟨hu, hji⟩
  · rw [hu] at hj
    cases hj
  · rw [hu, hx.others (by rw [hi]; exact nofun) hji] at hj
    cases hj

/-- The refresh that is under way goes on until it has stored its answer. -/
theorem Catching.call_underWay (hx : Excludes ph w) (ht : e.isLookup = true → Travels k (ph i) e)
    (hs : (service s).call w e r w') (hb : ∀ x, (⟨e, r⟩ : Call svc) = ⟨.fetchKeys, x⟩ → x.brings kid)
    (hi : ph i = .due ∨ ph i = .trying ∨ ∃ x, ph i = .answered x ∧ x.brings kid) :
    Catching kid t (Function.update ph i ((ph i).next ⟨e, r⟩)) w' := by
  -- The refresh stays under way where the phase does.
  have hstay : (ph i).next ⟨e, r⟩ = ph i →
      Catching kid t (Function.update ph i ((ph i).next ⟨e, r⟩)) w' := fun hn =>
    .underWay i (by rwa [Function.update_self, hn])
  cases hl : e.isLookup with
  | false =>
    rcases Phase.next_of_other (p := ph i) (r := r) hl with hn | ⟨-, x, hn, -, hc⟩
    · exact hstay hn
    · exact .underWay i (.inr (.inr ⟨x, by rw [Function.update_self, hn], hb x hc⟩))
  | true =>
    have ht := ht hl
    cases e with
    | cache op =>
      cases op with
      | lookupFresh k' => exact hstay (by cases ph i <;> rfl)
      | recordAttempt => exact .underWay i (.inr (.inl (by rw [Function.update_self]; rfl)))
      | recordFailure =>
        obtain ⟨x, hp, hf⟩ := ht
        rcases hi with h | h | ⟨y, h, hy⟩ <;> rw [h] at hp <;> cases hp
        rw [hy.not_failed] at hf
        cases hf
      | store jwks =>
        have hn : (ph i).next ⟨.cache (.store jwks), r⟩ = .settled := by cases ph i <;> rfl
        rw [hn]
        rcases hi with h | h | ⟨x, h, hy⟩
        · obtain ⟨_, hp⟩ := ht
          rw [h] at hp
          cases hp
        · obtain ⟨_, hp⟩ := ht
          rw [h] at hp
          cases hp
        · exact .caught (.store hx h hy ht hs)
      | lookupStale k' =>
        rcases hi with h | h | ⟨_, h, -⟩ <;> rw [h] at ht <;> rcases ht.2 with ht | ht <;> cases ht
      | cacheIsFresh => rcases hi with h | h | ⟨_, h, -⟩ <;> rw [h] at ht <;> rcases ht with ht | ht <;> cases ht
      | hasServableSnapshot => cases hl
      | _ => rcases hi with h | h | ⟨_, h, -⟩ <;> rw [h] at ht <;> cases ht
    | lockRefresh | unlockRefresh => rcases hi with h | h | ⟨_, h, -⟩ <;> rw [h] at ht <;> cases ht
    | _ => cases hl

theorem Catching.call (hc : Catching kid t ph w) (hx : Excludes ph w)
    (ht : e.isLookup = true → Travels k (ph i) e) (hs : (service s).call w e r w')
    (hb : ∀ x, (⟨e, r⟩ : Call svc) = ⟨.fetchKeys, x⟩ → x.brings kid) :
    Catching kid t (Function.update ph i ((ph i).next ⟨e, r⟩)) w' := by
  cases hc with
  | untried h =>
    rcases call_lastAttempt hs with ha | ⟨-, ha | ha⟩
    · exact .untried (by rw [ha]; exact h)
    · cases ha
      exact .underWay i (.inl (by rw [Function.update_self]; rfl))
    · cases ha
      exact .underWay i (.inr (.inl (by rw [Function.update_self]; rfl)))
  | underWay j hj =>
    by_cases hji : j = i
    · subst hji
      exact .call_underWay hx ht hs hb hj
    · exact .underWay j (by rwa [Function.update_of_ne hji])
  | caught h => exact .caught (h.call ht hs hb)

end Catching

/-! ## From the publication of a key on -/

section Published

variable {ι : Type} [DecidableEq ι] {env : Env} {libs : Libs} {adm : ι → Admission}
  {req : ι → Request} {s : JwkService} {tr₁ tr₂ : Events ι} {P₁ P₂ : Pool svc World ι HttpResponse}
  {kid : String}

end Published

end JwtService

import JwtService.Interaction.Fair
import JwtService.Proof.Bursts
import JwtService.Proof.FailedExchange
import JwtService.Proof.RoundTrip

/-!
# Every request comes to its end

The requests wait for one another at one place only, the refresh lock of the
cache of public keys. A request that holds it does nothing but its lookup
(`serve_attentive`), and each call of a lookup can be made, so it gives the
lock back (`lock_released`). A lock that is free again and again is taken in
the end by each that waits for it, so no request waits for ever
(`every_request_ends`), however many there are.
-/

namespace JwtService

open Interaction

variable {ι : Type} {env : Env} {libs : Libs} {adm : ι → Admission}
  {req : ι → Request} {s : JwkService} {w w' : World} {tr : Events ι}
  {P P' : Pool svc World ι HttpResponse} {i : ι}

/-! ## What can be called -/

/-- The calls that are answered in a state. -/
def Answerable (w : World) : Eff → Prop
  | .panic _ => False
  | .newUuid => ∃ u, Text.isUuid u = true ∧ u ∉ w.drawn
  | .lockRefresh => w.refreshLock = false
  | _ => True

theorem Answerable.call {e : Eff} (h : Answerable w e) : ∃ r w', (service s).call w e r w' := by
  cases e with
  | redis c => exact ⟨_, _, .redis .answered, rfl⟩
  | utcNow => exact ⟨w.now, w, .plain, rfl⟩
  | newUuid =>
    obtain ⟨u, hu, hnew⟩ := h
    exact ⟨u, { w with drawn := u :: w.drawn }, .uuid u, by simp [World.act, hu, hnew]⟩
  | readKeyId => exact ⟨w.keyId, w, .plain, rfl⟩
  | writeKeyId id => exact ⟨(), { w with keyId := id }, .plain, rfl⟩
  | fetchKeys => exact ⟨.unreachable, w, .keys .unreachable, rfl⟩
  | getKey id | createKey alg => exact ⟨.unreachable, w, .key .unreachable, rfl⟩
  | cache op => exact ⟨_, _, .plain, rfl⟩
  | lockRefresh => exact ⟨(), { w with refreshLock := true }, .plain, by
    simp [World.act, show w.refreshLock = false from h]⟩
  | unlockRefresh => exact ⟨(), { w with refreshLock := false }, .plain, rfl⟩
  | metric m => exact ⟨(), w, .plain, rfl⟩
  | panic msg => exact h.elim

/-- The request has been answered, has panicked, or there is no UUID left for it. -/
def Ended (P : Pool svc World ι HttpResponse) (i : ι) : Prop :=
  (∃ a, P.prog i = .ret a) ∨ (∃ msg k, P.prog i = .call (.panic msg) k) ∨
    ∃ k, P.prog i = .call .newUuid k ∧ ∀ u, Text.isUuid u = true → u ∈ P.st.drawn

/-- A request that has not ended makes its next call if it does not wait for
the lock. -/
theorem can_go_on (hi : ¬ Ended P i) (hl : ∀ k, P.prog i = .call .lockRefresh k → P.st.refreshLock = false) :
    (service s).CanCall P i := by
  cases hp : P.prog i with
  | ret a => exact absurd (.inl ⟨a, hp⟩) hi
  | call e k =>
    have ha : Answerable P.st e := by
      cases e with
      | panic msg => exact absurd (.inr (.inl ⟨msg, k, hp⟩)) hi
      | lockRefresh => exact hl k hp
      | newUuid =>
        by_contra hnone
        refine hi (.inr (.inr ⟨k, hp, fun u hu => ?_⟩))
        by_contra hnew
        exact hnone ⟨u, hu, hnew⟩
      | _ => trivial
    obtain ⟨r, w', hc⟩ := ha.call (s := s)
    exact ⟨e, k, r, w', hp, hc⟩

variable [DecidableEq ι]

/-- A request that has ended stays so. -/
theorem Ended.step {ev : Event svc ι Nat} (hi : Ended P i) (hs : (service s).Step P ev P') : Ended P' i := by
  cases hs with
  | env hs =>
    cases hs
    exact hi
  | @call j e k r w' hp hs =>
    by_cases hj : i = j
    · subst hj
      -- An ended request makes no call.
      rcases hi with ⟨a, hret⟩ | ⟨msg, k', hpanic⟩ | ⟨k', huuid, hnone⟩
      · rw [hret] at hp
        cases hp
      · rw [hpanic] at hp
        cases hp
        exact r.elim
      · rw [huuid] at hp
        cases hp
        obtain ⟨hu, hnew, -⟩ := call_newUuid hs
        exact absurd (hnone _ hu) hnew
    · have hprog : Function.update P.prog j (k r) i = P.prog i := Function.update_of_ne hj _ _
      rcases hi with ⟨a, hret⟩ | ⟨msg, k', hpanic⟩ | ⟨k', huuid, hnone⟩
      · exact .inl ⟨a, hprog.trans hret⟩
      · exact .inr (.inl ⟨msg, k', hprog.trans hpanic⟩)
      · exact .inr (.inr ⟨k', hprog.trans huuid, fun u hu => call_drawn hs u (hnone u hu)⟩)

/-! ## The lock is given back -/

section Courses

variable {ρ : (service s).Course (start env libs adm req)} {n m : ℕ}

/-- The request that has the lock can make its next call. -/
theorem holder_goes_on (hr : (service s).Run (start env libs adm req) tr P)
    (hi : Phase.after (callsOf i tr) ≠ .away) : (service s).CanCall P i := by
  have hw := ((hr.path i).wp (serve_attentive (adm i) (req i))).1
  cases hp : P.prog i with
  | ret a =>
    rw [hp] at hw
    exact absurd hw hi
  | call e k =>
    rw [hp] at hw
    have ht : Travels (kidOf libs (req i)) (Phase.after (callsOf i tr)) e := hw.1.resolve_left hi
    obtain ⟨r, w', hc⟩ := can_call (s := s) (w := P.st) ht fun he => by
      subst he
      exact absurd ht hi
    exact ⟨e, k, r, w', hp, hc⟩

theorem lock_free_after {e : Eff} {r : e.Reply} (hs : (service s).Step P (.call i ⟨e, r⟩) P')
    (he : e = .unlockRefresh) : P'.st.refreshLock = false := by
  subst he
  cases hs with
  | call _ hc =>
    obtain ⟨c, hc⟩ := hc
    cases c <;> cases hc
    rfl

theorem lock_released (hf : ρ.Fair) (n : ℕ) : ∃ m, n ≤ m ∧ (ρ.pool m).st.refreshLock = false := by
  cases hl : (ρ.pool n).st.refreshLock with
  | false => exact ⟨n, le_rfl, hl⟩
  | true =>
    obtain ⟨i, hi⟩ := (service_kept (ρ.run n)).2 hl
    -- Each call of the holder brings it nearer to giving the lock back.
    refine ρ.eventually (i := i) (K := fun n => Phase.after (callsOf i (ρ.upto n)) ≠ .away)
      (fun n hi => ?_) hi
    obtain ⟨m, ⟨e, r⟩, hm, he, hstays⟩ := hf.moves (n := n) (i := i) fun m hm hs =>
      ⟨m, le_rfl, fun _ => holder_goes_on (ρ.run m) (hs.2 ▸ hi)⟩
    have hphase : Phase.after (callsOf i (ρ.upto (m + 1))) = (Phase.after (callsOf i (ρ.upto n))).next ⟨e, r⟩ := by
      rw [ρ.upto_succ, he, callsOf_append, callsOf_call_self, callsOf_nil, Phase.after_snoc, hstays.2]
    by_cases hnext : Phase.after (callsOf i (ρ.upto (m + 1))) = .away
    · refine .inl ⟨m + 1, Nat.le_succ_of_le hm, ?_⟩
      rw [hphase] at hnext
      exact lock_free_after (he ▸ ρ.step m) ((Phase.next_away hnext).resolve_right hi)
    · exact .inr ⟨m, ⟨e, r⟩, hm, he, hnext⟩

/-- In every fair course each request comes to its end and stays there. -/
theorem every_request_ends (hf : ρ.Fair) (i : ι) : ∃ n, ∀ m, n ≤ m → Ended (ρ.pool m) i := by
  have hends : ∃ n, 0 ≤ n ∧ Ended (ρ.pool n) i := by
    refine ρ.eventually (i := i) (K := fun _ => True) (fun n _ => ?_) trivial
    by_cases hlater : ∃ m, n ≤ m ∧ Ended (ρ.pool m) i
    · exact .inl hlater
    · obtain ⟨m, c, hm, he, -⟩ := hf.moves (n := n) (i := i) fun m hm _ => by
        obtain ⟨m', hm', hl⟩ := lock_released hf m
        exact ⟨m', hm', fun _ => can_go_on (fun hi => hlater ⟨m', hm.trans hm', hi⟩) fun _ _ => hl⟩
      exact .inr ⟨m, c, hm, he, trivial⟩
  obtain ⟨n, -, hn⟩ := hends
  refine ⟨n, fun m hm => ?_⟩
  induction m, hm using Nat.le_induction with
  | base => exact hn
  | succ m _ ih => exact ih.step (ρ.step m)

end Courses

/-- A token is issued, and verified with a lookup under the lock. -/
theorem every_request_ends_verified : ∃ (access : String) (ρ : (service ⟨300000, 10000, 10000⟩).Course
    (start bareEnv echoLibs (fun _ => admitted) (issueThenVerify access))),
    ρ.Fair ∧ ∀ i, ∃ n, ∀ m, n ≤ m → Ended (ρ.pool m) i := by
  obtain ⟨access, x, w, tr, p, hr₀, hfalse, htrue, hs, -, ⟨db, rfl, hlive⟩, -⟩ := issueThenVerify_issues
  obtain ⟨resp, hpath⟩ := verifying_path hs
  rw [← htrue] at hpath
  obtain ⟨w, q, -, hans, hr₂⟩ := issueThenVerify_verifies hlive hpath
  have hr₁ : (service ⟨300000, 10000, 10000⟩).Run ⟨⟨0, db, [uuidA], echoKey.id, .empty, false⟩, p⟩ [.env 10000]
      ⟨⟨10000, db, [uuidA], echoKey.id, .empty, false⟩, p⟩ :=
    .cons (.env (show _ = World.tick _ 10000 by simp [World.tick])) (.nil _)
  have hissued : q false = .ret ⟨200, .token access none⟩ := by
    have hq := hr₂.path false
    rw [callsOf_map_ne (by decide)] at hq
    exact hq.nil_inv.trans hfalse
  obtain ⟨ρ, hf, -⟩ := ((hr₀.trans hr₁).trans hr₂).fair_course (l := 0) (fun _ => rfl) (fun i => by
    rintro ⟨e, k, r, w', hp, -⟩
    cases i with
    | false =>
      rw [show Pool.prog _ false = q false from rfl, hissued] at hp
      cases hp
    | true =>
      rw [show Pool.prog _ true = q true from rfl, hans] at hp
      cases hp)
  exact ⟨access, ρ, hf, every_request_ends hf⟩

end JwtService

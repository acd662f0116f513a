import JwtService.Proof.Limits
import JwtService.Proof.Quotas

/-!
# Waiting as long as `Retry-After` says

Where the limiters are buckets of the generic cell rate algorithm
(`Governor.Buckets`), a rejected check waits for one interval of its quota at
most, which is no longer than the second that `Retry-After` names at least. So
whoever waits is admitted, as long as nobody else was in between
(`retry_after_obeyed`).
-/

namespace JwtService

open Interaction

/-- What a limiter keeps for a key is a bucket, and its checks are those of the
bucket. -/
structure Governor.Buckets (g : Governor) where
  bucket : g.State → Gcra
  answer (now : Nat) (st : g.State) : (g.check now st).1 = ((bucket st).check now).1
  next (now : Nat) (st : g.State) : bucket (g.check now st).2 = ((bucket st).check now).2

namespace Governor

variable {g : Governor} (hg : g.Buckets) {st : g.State}

/-- The run lemma of `Gcra.Sound.check`. -/
theorem Buckets.sound_after {ts : List Nat} {m n : Nat} (h : (hg.bucket st).Sound m)
    (hs : ts.Pairwise (· ≤ ·)) (hts : ∀ t ∈ ts, m ≤ t ∧ t ≤ n) (hm : m ≤ n) :
    (hg.bucket (g.after st ts)).Sound n := by
  induction ts generalizing st m with
  | nil => exact h.mono hm
  | cons t ts ih =>
    obtain ⟨ht, hts⟩ := List.forall_mem_cons.mp hts
    obtain ⟨hle, hs⟩ := List.pairwise_cons.mp hs
    have hstep : (hg.bucket (g.check t st).2).Sound t := by
      rw [hg.next]
      exact h.check ht.1
    exact ih hstep hs (fun t' ht' => ⟨hle t' ht', (hts t' ht').2⟩) ht.2

theorem Buckets.interval_after (ts : List Nat) :
    (hg.bucket (g.after st ts)).interval = (hg.bucket st).interval := by
  induction ts using List.reverseRecOn with
  | nil => rfl
  | append_singleton ts t ih => rw [after_snoc, hg.next, Gcra.check_interval, ih]

/-- Checks that are all rejected leave the bucket alone. -/
theorem Buckets.after_rejected {ts : List Nat} (h : ∀ a ∈ g.answers st ts, a ≠ none) :
    hg.bucket (g.after st ts) = hg.bucket st := by
  induction ts generalizing st with
  | nil => rfl
  | cons t ts ih =>
    obtain ⟨ht, hts⟩ := List.forall_mem_cons.mp h
    rw [hg.answer] at ht
    have hrest : hg.bucket (g.after (g.check t st).2 ts) = hg.bucket (g.check t st).2 := ih hts
    exact hrest.trans ((hg.next t st).trans (Gcra.check_rejected ht))

variable {ι : Type} {us ms vs : List (Asked ι)} {x y : Asked ι}

/-- One check among the checks of a key. -/
theorem answers_split
    (h : (us ++ x :: vs).map Asked.answer = g.answers st ((us ++ x :: vs).map Asked.clock)) :
    us.map Asked.answer = g.answers st (us.map Asked.clock) ∧
      x.answer = (g.check x.clock (g.after st (us.map Asked.clock))).1 ∧
      vs.map Asked.answer =
        g.answers (g.check x.clock (g.after st (us.map Asked.clock))).2 (vs.map Asked.clock) := by
  rw [List.map_append, List.map_append, answers_append] at h
  obtain ⟨hus, hrest⟩ := List.append_inj h (by simp [length_answers])
  obtain ⟨hx, hvs⟩ := List.cons.inj hrest
  exact ⟨hus, hx, hvs⟩

/-- A check is rejected until a moment that is one interval ahead at most, from
which on the next check is admitted. -/
theorem Buckets.rejected (hsound : (hg.bucket st).Sound 0)
    (ha : (us ++ x :: (ms ++ y :: vs)).map Asked.answer =
      g.answers st ((us ++ x :: (ms ++ y :: vs)).map Asked.clock))
    (hs : ((us ++ x :: (ms ++ y :: vs)).map Asked.clock).Pairwise (· ≤ ·))
    (hms : ∀ z ∈ ms, z.answer ≠ none) {e : Nat} (he : x.answer = some e) :
    e ≤ x.clock + (hg.bucket st).interval ∧ (e ≤ y.clock → y.answer = none) := by
  obtain ⟨-, hx, hrest⟩ := answers_split ha
  obtain ⟨hmid, hy, -⟩ := answers_split hrest
  rw [he, hg.answer] at hx
  -- The bucket when `x` asks is the one of all the checks before it,
  rw [List.map_append, List.pairwise_append, List.map_cons] at hs
  have hx_sound : (hg.bucket (g.after st (us.map Asked.clock))).Sound x.clock :=
    hg.sound_after hsound hs.1 (fun t ht => ⟨Nat.zero_le _, hs.2.2 t ht _ List.mem_cons_self⟩) (Nat.zero_le _)
  -- and it is the same when `y` asks.
  have hsame : hg.bucket (g.after (g.check x.clock (g.after st (us.map Asked.clock))).2 (ms.map Asked.clock)) =
      hg.bucket (g.after st (us.map Asked.clock)) := by
    rw [hg.after_rejected, hg.next, Gcra.check_rejected (by rw [← hx]; exact nofun)]
    intro a haa
    rw [← hmid] at haa
    obtain ⟨z, hz, rfl⟩ := List.mem_map.mp haa
    exact hms z hz
  constructor
  · have hwait := hx_sound.wait (Nat.le_refl _) hx.symm
    rwa [hg.interval_after] at hwait
  · intro hle
    rw [hy, hg.answer, hsame]
    exact hx_sound.check_later hx.symm hle

end Governor

theorem verdict_error {now s : Nat} {answer : Option Nat} (h : Strategy.verdict now answer = .error s) :
    ∃ e, answer = some e ∧ 1 ≤ s := by
  cases answer with
  | none => cases h
  | some e =>
    have hs : retryAfterSecs e now = s := Except.error.inj h
    exact ⟨e, rfl, hs ▸ Nat.le_max_right ..⟩

/-- A limiter with a quota of the service, whose bucket of a key is new. When a
check of the key is rejected with `Retry-After: s`, whatever the clock shows by
the time the header is computed, a check of the key from `s` seconds later on
is admitted, unless another one was admitted in between. -/
theorem retry_after_obeyed (lib : QuotaLib) {perSecond : Nat} (burst : Nat) (h : perSecond ≤ 1000000000) :
    ∃ q, quota lib perSecond burst = .ok q ∧
      ∀ {ι : Type} [DecidableEq ι] {g : Governor} (hg : g.Buckets) {cfg : EdgeConfig}
        {S : System svc World Nat} {P P' : Pool edge (EdgeWorld g.State) ι HttpResponse}
        {tr : List (Event edge ι (Nat × Nat))} {l : LimiterRef} {key : Option LimiterKey},
        (layered g cfg S).Run P tr P' →
        hg.bucket (P.st.limiters l key) = Gcra.new q.period q.burst →
        ∀ (us ms vs : List (Asked ι)) (x y : Asked ι),
          onKey l key (asked P.st.clock tr) = us ++ x :: (ms ++ y :: vs) →
          (∀ z ∈ ms, z.answer ≠ none) →
          ∀ now s, x.clock ≤ now → Strategy.verdict now x.answer = .error s →
            x.clock + 1000000000 * s ≤ y.clock → y.answer = none := by
  refine ⟨_, quota_ok lib perSecond burst h, ?_⟩
  intro ι _ g hg cfg S P P' tr l key hr hnew us ms vs x y hxs hms now s _ hverdict hwait
  obtain ⟨e, he, hs⟩ := verdict_error hverdict
  have hanswers := asked_answers_at l key hr.trace
  have hsorted : ((onKey l key (asked P.st.clock tr)).map Asked.clock).Pairwise (· ≤ ·) :=
    (asked_sorted hr.trace).1.sublist (List.filter_sublist.map Asked.clock)
  have hburst : 0 < max burst 1 := by omega
  have hsound : (hg.bucket (P.st.limiters l key)).Sound 0 := by
    rw [hnew]
    exact Gcra.sound_new _ 0 hburst
  rw [hxs] at hanswers
  obtain ⟨hle, hadmit⟩ := hg.rejected hsound hanswers (hxs ▸ hsorted) hms he
  -- The interval is a second at most.
  have hperiod : 1000000000 / max perSecond 1 ≤ 1000000000 := Nat.div_le_self ..
  rw [hnew] at hle
  refine hadmit (Nat.le_trans hle ?_)
  simp only [Gcra.new]
  omega

/-! ## A limiter of one cell, refilled each second -/

/-- The limiters of the algorithm itself. -/
abbrev bucketLimiters : Governor := ⟨Gcra, fun now b => b.check now⟩

def bucketLimiters_buckets : bucketLimiters.Buckets := ⟨id, fun _ _ => rfl, fun _ _ => rfl⟩

/-- Three revocations. -/
def threeRevocations : Pool edge (EdgeWorld bucketLimiters.State) (Fin 3) HttpResponse :=
  arrivals ⟨World.empty, 0, fun _ _ => Gcra.new 1000000000 1⟩ cappedConfig bareEnv echoLibs
    (fun _ => withCode) (fun _ => .revokeToken "jti")

/-- The second one is told to wait for a second, and the third, a second later,
is admitted. -/
theorem retry_after_obeyed_second : ∃ tr P' x y,
    (layered bucketLimiters cappedConfig (service agedService)).Run threeRevocations tr P' ∧
      (asked 0 tr).map Asked.who = [(0, 0), (1, 0), (2, 1000000000)] ∧
      x ∈ asked 0 tr ∧ y ∈ asked 0 tr ∧
      Strategy.verdict 0 x.answer = .error 1 ∧ Strategy.verdict 0 y.answer = .ok () := by
  obtain ⟨P', hplay⟩ : ∃ P', System.play (EdgeWorld.act cappedConfig agedService) (fun v l => some (v.pass l))
    (fun _ _ => true) [.call 0 .plain, .call 0 .plain, .call 1 .plain, .call 1 .plain, .env (1000, 1000000000),
      .call 2 .plain, .call 2 .plain] threeRevocations =
      some ([.call 0 ⟨.authorize .totp withCode.headers, true⟩, .call 0 ⟨.check ⟨0⟩ none, none⟩,
        .call 1 ⟨.authorize .totp withCode.headers, true⟩, .call 1 ⟨.check ⟨0⟩ none, some 1000000000⟩,
        .env (1000, 1000000000),
        .call 2 ⟨.authorize .totp withCode.headers, true⟩, .call 2 ⟨.check ⟨0⟩ none, none⟩], P') := ⟨_, rfl⟩
  obtain ⟨q, hq, hobeyed⟩ := @retry_after_obeyed crateQuotas 1 1 (by decide)
  obtain rfl : (⟨1000000000, 1⟩ : Quota) = q := Except.ok.inj hq
  have hnew : bucketLimiters_buckets.bucket (threeRevocations.st.limiters ⟨0⟩ none) = Gcra.new 1000000000 1 := rfl
  have hadmitted := hobeyed bucketLimiters_buckets (playEdge_run hplay) hnew
    [⟨0, 0, ⟨0⟩, none, none⟩] [] [] ⟨1, 0, ⟨0⟩, none, some 1000000000⟩ ⟨2, 1000000000, ⟨0⟩, none, none⟩
    rfl nofun 0 1 (Nat.le_refl _) rfl (by decide)
  refine ⟨_, P', ⟨1, 0, ⟨0⟩, none, some 1000000000⟩, ⟨2, 1000000000, ⟨0⟩, none, none⟩, playEdge_run hplay, rfl,
    ?_, ?_, rfl, congrArg (Strategy.verdict 0) hadmitted⟩
  · exact .tail _ (.head _)
  · exact .tail _ (.tail _ (.head _))

end JwtService

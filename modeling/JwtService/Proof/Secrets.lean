import JwtService.Proof.Base32

/-!
# The secrets the service starts with

Each of the two variables of the TOTP secrets adds its secret, if it holds one
(`readSecret_secrets`), and an error unless it is unset or holds one
(`readSecret_errors`). The service starts if there is no error and there is a
secret at all (`fromEnv_isOk`). That secret may come from the second variable
alone, which is the one case in which the service starts without
`AUTH_TOTP_SECRET` (`starts_with_secrets_iff`).
-/

namespace JwtService

namespace AuthConfig

variable {env : Env} {var : String}

/-- The variable is not set, or blank. -/
def Unset (env : Env) (var : String) : Prop := ∀ raw, env var = some raw → Text.trim raw = ""

/-- The secret in a variable: not blank, and at least one byte in base32. -/
def secretOf (env : Env) (var : String) : Option (List UInt8) :=
  (env var).bind fun raw =>
    if Text.trim raw = "" then none else (base32Decode raw).filter (· ≠ [])

/-- The proxy secret is set and not empty. -/
def ProxySet (env : Env) : Prop := ∃ secret, env "AUTH_PROXY_SECRET" = some secret ∧ secret ≠ ""

theorem secretOf_unset (h : Unset env var) : secretOf env var = none := by
  unfold secretOf
  cases hv : env var with
  | none => rfl
  | some raw => exact if_pos (h raw hv)

/-- A turn of the loop adds the secret of its variable. -/
theorem readSecret_secrets (r : Reading) :
    (readSecret env r var).secrets = r.secrets ++ (secretOf env var).toList := by
  unfold readSecret secretOf
  cases env var with
  | none => exact (List.append_nil _).symm
  | some raw =>
    simp only [Option.bind_some]
    split
    · exact (List.append_nil _).symm
    · cases (base32Decode raw).filter (· ≠ []) with
      | none => exact (List.append_nil _).symm
      | some bytes => rfl

/-- It adds an error unless the variable is unset or holds a secret. -/
theorem readSecret_errors (r : Reading) : (readSecret env r var).errors = [] ↔
    r.errors = [] ∧ (Unset env var ∨ (secretOf env var).isSome = true) := by
  unfold readSecret secretOf Unset
  cases env var with
  | none => simp
  | some raw =>
    simp only [Option.bind_some, Option.some.injEq, forall_eq']
    split
    · rename_i hblank
      exact ⟨fun h => ⟨h, .inl hblank⟩, And.left⟩
    · rename_i hraw
      cases (base32Decode raw).filter (· ≠ []) with
      | none => simp [hraw]
      | some bytes => exact ⟨fun h => ⟨h, .inr rfl⟩, And.left⟩

/-- What the loop leaves. -/
def readSecrets (env : Env) : Reading :=
  ["AUTH_TOTP_SECRET", "AUTH_TOTP_SECRET_NEXT"].foldl (readSecret env)
    ⟨if (env "AUTH_PROXY_SECRET").filter (· ≠ "") = none then
      ["AUTH_PROXY_SECRET is not set (mandatory for level 2 — the proxy secret)"] else [], []⟩

theorem readSecrets_secrets : (readSecrets env).secrets =
    (secretOf env "AUTH_TOTP_SECRET").toList ++ (secretOf env "AUTH_TOTP_SECRET_NEXT").toList := by
  simp only [readSecrets, List.foldl_cons, List.foldl_nil, readSecret_secrets, List.nil_append]

theorem proxySet_iff : ProxySet env ↔ (env "AUTH_PROXY_SECRET").filter (· ≠ "") ≠ none := by
  unfold ProxySet
  cases env "AUTH_PROXY_SECRET" with
  | none => simp
  | some secret => simp [Option.filter]

theorem readSecrets_errors : (readSecrets env).errors = [] ↔ ProxySet env ∧
    (Unset env "AUTH_TOTP_SECRET" ∨ (secretOf env "AUTH_TOTP_SECRET").isSome = true) ∧
    (Unset env "AUTH_TOTP_SECRET_NEXT" ∨ (secretOf env "AUTH_TOTP_SECRET_NEXT").isSome = true) := by
  simp only [readSecrets, List.foldl_cons, List.foldl_nil, readSecret_errors, proxySet_iff, and_assoc]
  refine and_congr_left fun _ => ?_
  split <;> simp_all

/-- The service starts where the loop leaves no error and a secret, and has the
secrets that it leaves. -/
theorem fromEnv_cases (env : Env) :
    (∃ cfg, fromEnv env = .ok cfg ∧ cfg.totp.secrets = (readSecrets env).secrets ∧
      (readSecrets env).errors = [] ∧ (readSecrets env).secrets ≠ []) ∨
    ∃ e, fromEnv env = .error e ∧ ((readSecrets env).errors ≠ [] ∨ (readSecrets env).secrets = []) := by
  have hproxy := @readSecrets_errors env
  rw [proxySet_iff] at hproxy
  unfold fromEnv
  simp only
  rw [← readSecrets.eq_def]
  by_cases hs : (readSecrets env).secrets = []
  · exact .inr ⟨_, if_pos (by simp [hs]), .inr hs⟩
  · rw [if_neg hs]
    by_cases herr : (readSecrets env).errors = []
    · rw [if_neg (not_not_intro herr)]
      split
      · rename_i hnone
        exact absurd hnone (hproxy.mp herr).1
      · exact .inl ⟨_, rfl, rfl, herr, hs⟩
    · exact .inr ⟨_, if_pos herr, .inl herr⟩

theorem fromEnv_isOk : (fromEnv env).isOk = true ↔
    (readSecrets env).errors = [] ∧ (readSecrets env).secrets ≠ [] := by
  rcases fromEnv_cases env with ⟨cfg, h, -, herr, hs⟩ | ⟨e, h, hor⟩
  · rw [h]
    exact ⟨fun _ => ⟨herr, hs⟩, fun _ => rfl⟩
  · rw [h]
    refine ⟨nofun, fun hok => ?_⟩
    rcases hor with hor | hor
    · exact absurd hok.1 hor
    · exact absurd hor hok.2

theorem fromEnv_secrets {cfg : AuthConfig} (h : fromEnv env = .ok cfg) :
    cfg.totp.secrets = (readSecrets env).secrets := by
  rcases fromEnv_cases env with ⟨cfg', h', hs, -⟩ | ⟨e, h', -⟩
  · rw [h] at h'
    rwa [Except.ok.inj h']
  · rw [h] at h'
    cases h'

/-- The service starts exactly with all its mandatory secrets, and then has the
secrets of the two variables in their order, unless only the second variable
holds one. -/
theorem starts_with_secrets_iff (env : Env) :
    (((fromEnv env).isOk = true ↔ ProxySet env ∧ (secretOf env "AUTH_TOTP_SECRET").isSome = true ∧
        (Unset env "AUTH_TOTP_SECRET_NEXT" ∨
          (secretOf env "AUTH_TOTP_SECRET_NEXT").isSome = true)) ∧
      ∀ cfg, fromEnv env = .ok cfg → ∃ bytes, secretOf env "AUTH_TOTP_SECRET" = some bytes ∧
        cfg.totp.secrets = bytes :: (secretOf env "AUTH_TOTP_SECRET_NEXT").toList) ↔
      ¬ (ProxySet env ∧ Unset env "AUTH_TOTP_SECRET" ∧
        (secretOf env "AUTH_TOTP_SECRET_NEXT").isSome = true) := by
  have hsecrets := @readSecrets_secrets env
  have hok := @fromEnv_isOk env
  rw [readSecrets_errors, hsecrets] at hok
  cases hT : secretOf env "AUTH_TOTP_SECRET" with
  | some bytes =>
    have hset : ¬ Unset env "AUTH_TOTP_SECRET" := fun h => by
      rw [secretOf_unset h] at hT
      cases hT
    refine iff_of_true ⟨hok.trans ?_, fun cfg h => ⟨bytes, rfl, ?_⟩⟩ fun h => hset h.2.1
    · simp [hT]
    · rw [fromEnv_secrets h, hsecrets, hT]
      rfl
  | none =>
    -- The service has to refuse, and does so unless the second variable holds a secret.
    have hstarts : (fromEnv env).isOk = true ↔ ProxySet env ∧ Unset env "AUTH_TOTP_SECRET" ∧
        (secretOf env "AUTH_TOTP_SECRET_NEXT").isSome = true := by
      rw [hok, hT, Option.toList_none, List.nil_append, ne_eq, Option.toList_eq_nil_iff, ← ne_eq,
        ← Option.isSome_iff_ne_none]
      constructor
      · rintro ⟨⟨hproxy, hunset, -⟩, hnext⟩
        exact ⟨hproxy, hunset.resolve_right Bool.false_ne_true, hnext⟩
      · rintro ⟨hproxy, hunset, hnext⟩
        exact ⟨⟨hproxy, .inl hunset, .inr hnext⟩, hnext⟩
    rw [hstarts]
    constructor
    · exact fun h hc => Bool.false_ne_true (h.1.mp hc).2.1
    · exact fun h => ⟨iff_of_false h fun hc => Bool.false_ne_true hc.2.1,
        fun cfg hcfg => absurd (hstarts.mp (by rw [hcfg]; rfl)) h⟩

/-- Only the proxy secret and the second TOTP secret are set. -/
def nextOnly : Env
  | "AUTH_PROXY_SECRET" => some "s3cr3t"
  | "AUTH_TOTP_SECRET_NEXT" => some "MZXW6"
  | _ => none

/-- The service starts, without the first TOTP secret. -/
theorem starts_without_secret : (fromEnv nextOnly).isOk = true ∧
    secretOf nextOnly "AUTH_TOTP_SECRET" = none :=
  ⟨by decide, rfl⟩

end AuthConfig

end JwtService

import JwtService.Proof.Isolation
import JwtService.Proof.Limits

/-!
# One TOTP code, one request

With replay protection a code is reserved in the store after it was checked.
The reservation lives as long as the code can be accepted (`accepted_in_window`),
so of the requests that reserve the code while the reservation before them
lives one is let through (`code_lets_one_through`). Between the check and the
reservation of a request any time may pass: a request that was checked at the
end of the window and reserves after it finds the reservation gone
(`code_lets_two_through`).
-/

namespace JwtService

open Interaction Redis

/-! ## The windows of a code -/

namespace TotpValidator

variable {ssl : Hmac} {v : TotpValidator} {headers : HeaderMap} {code : List UInt8}

/-- The code is that of a secret at a counter. -/
def Matches (ssl : Hmac) (v : TotpValidator) (code : List UInt8) (c : Nat) : Prop :=
  ∃ secret ∈ v.secrets, ∃ text, hotp ssl secret c v.digits v.digest = some text ∧
    code = Text.utf8 text

theorem mem_windows {now c : Nat} : c ∈ v.windows now ↔
    now / v.step ≤ c + v.skew ∧ c ≤ now / v.step + v.skew ∧ c < 2 ^ 64 := by
  simp only [windows, List.mem_range'_1]
  omega

/-- A code is accepted where it matches one of the windows. -/
theorem validate_iff (hc : headers.get v.header = some code) {now : Nat} :
    v.validate ssl headers now = true ↔ ∃ c ∈ v.windows now, v.Matches ssl code c := by
  simp only [validate, hc, List.any_eq_true, Matches]
  constructor
  · rintro ⟨secret, hs, c, hw, h⟩
    split at h
    · cases h
    · rename_i text ht
      exact ⟨c, hw, secret, hs, text, ht, beq_iff_eq.mp h⟩
  · rintro ⟨c, hw, secret, hs, text, ht, rfl⟩
    refine ⟨secret, hs, c, hw, ?_⟩
    rw [ht]
    exact beq_self_eq_true _

/-- In the windows at a moment the code matches at most the counter `c`. -/
def MatchesOnly (ssl : Hmac) (v : TotpValidator) (code : List UInt8) (c now : Nat) : Prop :=
  ∀ c' ∈ v.windows now, v.Matches ssl code c' → c' = c

/-- A code of one counter is accepted exactly within `skew` of it. -/
theorem validate_iff_near (hc : headers.get v.header = some code) {c now : Nat}
    (hm : v.Matches ssl code c) (hlt : c < 2 ^ 64) (ho : v.MatchesOnly ssl code c now) :
    v.validate ssl headers now = true ↔ now / v.step ≤ c + v.skew ∧ c ≤ now / v.step + v.skew := by
  rw [validate_iff hc]
  constructor
  · rintro ⟨c', hw, hm'⟩
    obtain rfl := ho c' hw hm'
    obtain ⟨h₁, h₂, -⟩ := mem_windows.mp hw
    exact ⟨h₁, h₂⟩
  · rintro ⟨h₁, h₂⟩
    exact ⟨c, mem_windows.mpr ⟨h₁, h₂, hlt⟩, hm⟩

/-- The fingerprint of a code. -/
def fingerprintOf (ssl : Hmac) (v : TotpValidator) (code : List UInt8) : Option String := do
  let secret ← v.secrets.head?
  let digest ← ssl.mac .sha256 secret code
  some (String.ofList (digest.flatMap hexByte))

theorem codeFingerprint_eq (hc : headers.get v.header = some code) :
    v.codeFingerprint ssl headers = v.fingerprintOf ssl code := by
  rw [codeFingerprint, hc]
  rfl

theorem replayWindowSeconds_eq (h : v.step * (2 * v.skew + 1) < 2 ^ 64) (hs : 0 < v.step) :
    v.replayWindowSeconds = v.step * (2 * v.skew + 1) := by
  have hskew : 2 * v.skew + 1 < 2 ^ 64 :=
    Nat.lt_of_le_of_lt (Nat.le_mul_of_pos_left _ hs) h
  rw [replayWindowSeconds, Nat.mod_eq_of_lt hskew, Nat.mod_eq_of_lt h]

/-- Two moments, in milliseconds, at which a code is accepted are less than its
reservation apart. -/
theorem accepted_in_window (hc : headers.get v.header = some code) (hs : 0 < v.step)
    (hfit : v.step * (2 * v.skew + 1) < 2 ^ 64) {c t t' : Nat}
    (ho : v.MatchesOnly ssl code c (timestamp t)) (ho' : v.MatchesOnly ssl code c (timestamp t'))
    (h : v.validate ssl headers (timestamp t) = true)
    (h' : v.validate ssl headers (timestamp t') = true) : t' < t + 1000 * v.replayWindowSeconds := by
  obtain ⟨c₁, hw, hm⟩ := (validate_iff hc).mp h
  obtain ⟨c₂, hw', hm'⟩ := (validate_iff hc).mp h'
  obtain rfl := ho c₁ hw hm
  obtain rfl := ho' c₂ hw' hm'
  obtain ⟨-, hlow, -⟩ := mem_windows.mp hw
  obtain ⟨hhigh, -, -⟩ := mem_windows.mp hw'
  -- The end of the window after the first moment, in seconds.
  have hend : timestamp t' < v.step * (timestamp t / v.step + (2 * v.skew + 1)) := by
    have := Nat.lt_mul_div_succ (timestamp t') hs
    have hle : timestamp t' / v.step + 1 ≤ timestamp t / v.step + (2 * v.skew + 1) := by omega
    have := Nat.mul_le_mul_left v.step hle
    omega
  have hstart := Nat.mul_div_le (timestamp t) v.step
  rw [replayWindowSeconds_eq hfit hs]
  rw [Nat.mul_add] at hend
  simp only [timestamp] at hend hstart
  omega

end TotpValidator

/-! ## Reservations of a key -/

section Reservations

variable {ι : Type} [DecidableEq ι] {s : JwkService} {key : String} {ttl : Nat} {tr : Events ι}

/-- The call reserves the key. -/
def Call.reserves (key : String) : Call svc → Bool
  | ⟨.redis (.setNxEx k _ _), .ok true⟩ => k = key
  | _ => false

/-- The reservations of a key that succeeded: whose, and when, on a clock that
shows `now` before the events. -/
def reservations (key : String) (now : Nat) : Events ι → List (ι × Nat)
  | [] => []
  | .env d :: tr => reservations key (now + d) tr
  | .call i c :: tr =>
    if Call.reserves key c then (i, now) :: reservations key now tr else reservations key now tr

/-- Each reservation of the key is answered, and made before those before it
are over. -/
def ReservedInTime (key : String) (ttl now : Nat) (tr : Events ι) : Prop :=
  ∀ t₁ i v n r t₂, tr = t₁ ++ .call i ⟨.redis (.setNxEx key v n), r⟩ :: t₂ →
    (∃ b, r = .ok b) ∧ ∀ x ∈ reservations key now t₁, now + elapsed t₁ < x.2 + 1000 * ttl

omit [DecidableEq ι] in
theorem reservations_append (now : Nat) (t₁ t₂ : Events ι) : reservations key now (t₁ ++ t₂) =
    reservations key now t₁ ++ reservations key (now + elapsed t₁) t₂ := by
  induction t₁ generalizing now with
  | nil => rfl
  | cons ev t₁ ih =>
    cases ev with
    | env d =>
      simp only [List.cons_append, reservations, elapsed, ih, Nat.add_assoc]
    | call i c =>
      simp only [List.cons_append, reservations, elapsed, ih]
      split <;> rfl

/-- The state of the key after its reservations. -/
structure Reserved (key : String) (ttl now : Nat) (tr : Events ι) (w : World) : Prop where
  once : (reservations key now tr).length ≤ 1
  past : ∀ x ∈ reservations key now tr, x.2 ≤ w.now
  held : ∀ x ∈ reservations key now tr, w.now < x.2 + 1000 * ttl →
    ∃ e, w.db key = some e ∧ e.expireAt = some (x.2 + 1000 * ttl)

/-- A reservation that is answered. -/
theorem call_setNxEx {w w' : World} {v : String} {b : Bool}
    (h : (service s).call w (.redis (.setNxEx key v ttl)) (.ok b) w') :
    (b = false ∧ (w.db.get w.now key).isSome = true ∧ w' = w) ∨
      (b = true ∧ w.db.get w.now key = none ∧
        w' = { w with db := w.db.put key (some ⟨.str v, some (w.now + 1000 * ttl)⟩) }) := by
  rcases call_redis h with ⟨-, e, he⟩ | ⟨rfl, he | ⟨e, he⟩⟩
  · cases he
  · simp only [Redis.exec] at he ⊢
    cases hset : setWithExpiry w.now w.db key v ttl with
    | none => rw [hset] at he; cases he
    | some db' =>
      rw [hset] at he
      obtain ⟨-, rfl⟩ := setWithExpiry_eq_some hset
      by_cases hk : (w.db.get w.now key).isSome = true
      · simp only [if_pos hk] at he ⊢
        exact .inl ⟨Except.ok.inj he, hk, trivial⟩
      · simp only [if_neg hk] at he ⊢
        exact .inr ⟨Except.ok.inj he, by simpa using hk, trivial⟩
  · cases he

/-- The key is written by reservations only. -/
def ReservedOnly (key : String) (ttl : Nat) (tr : Events ι) : Prop :=
  ∀ i (c : Cmd) (r : Except Redis.Err c.Reply), Event.call i ⟨Eff.redis c, r⟩ ∈ tr →
    key ∈ c.writes → ∃ v, c = .setNxEx key v ttl

omit [DecidableEq ι] in
theorem Reserved.env {w : World} {now : Nat} (h : Reserved key ttl now tr w) (d : Nat) :
    Reserved key ttl now (tr ++ [.env d]) (w.tick d) := by
  have hres : reservations key now (tr ++ [.env d]) = reservations key now tr := by
    rw [reservations_append]
    exact List.append_nil _
  refine ⟨by rw [hres]; exact h.once, fun x hx => ?_, fun x hx hlt => ?_⟩
  · rw [hres] at hx
    exact Nat.le_trans (h.past x hx) (Nat.le_add_right _ _)
  · rw [hres] at hx
    exact h.held x hx (Nat.lt_of_le_of_lt (Nat.le_add_right _ _) hlt)

omit [DecidableEq ι] in
theorem Reserved.call {w w' : World} {now : Nat} (h : Reserved key ttl now tr w)
    (hnow : w.now = now + elapsed tr) {i : ι} {e : Eff} {r : e.Reply}
    (hs : (service s).call w e r w')
    (honly : ∀ c : Cmd, e = .redis c → key ∈ c.writes → ∃ v, c = .setNxEx key v ttl)
    (hin : ∀ v n (r' : Except Redis.Err Bool), (⟨e, r⟩ : Call svc) = ⟨.redis (.setNxEx key v n), r'⟩ →
      (∃ b, r' = .ok b) ∧ ∀ x ∈ reservations key now tr, now + elapsed tr < x.2 + 1000 * ttl) :
    Reserved key ttl now (tr ++ [.call i ⟨e, r⟩]) w' := by
  have hres : reservations key now (tr ++ [.call i ⟨e, r⟩]) = reservations key now tr ++
      if Call.reserves key ⟨e, r⟩ then [(i, w.now)] else [] := by
    rw [reservations_append, ← hnow]
    simp only [reservations]
  -- A call that is no reservation, or one that finds the key.
  have hsame : Call.reserves key ⟨e, r⟩ = false → w'.db key = w.db key →
      Reserved key ttl now (tr ++ [.call i ⟨e, r⟩]) w' := by
    intro hno hdb
    rw [hno, if_neg Bool.false_ne_true, List.append_nil] at hres
    refine ⟨by rw [hres]; exact h.once, fun x hx => ?_, fun x hx hlt => ?_⟩
    · rw [hres] at hx
      rw [call_now hs]
      exact h.past x hx
    · rw [hres] at hx
      rw [call_now hs] at hlt
      rw [hdb]
      exact h.held x hx hlt
  by_cases hw : ∃ c, e = .redis c ∧ key ∈ c.writes
  · obtain ⟨c, rfl, hk⟩ := hw
    obtain ⟨v, rfl⟩ := honly c rfl hk
    obtain ⟨⟨b, rfl⟩, htime⟩ := hin _ _ _ rfl
    rcases call_setNxEx hs with ⟨rfl, -, rfl⟩ | ⟨rfl, hget, rfl⟩
    · exact hsame rfl rfl
    · -- The key is absent, so no reservation before is alive.
      have hnone : reservations key now tr = [] := by
        refine List.eq_nil_iff_forall_not_mem.mpr fun x hx => ?_
        have hlt := htime x hx
        rw [← hnow] at hlt
        obtain ⟨e, he, ht⟩ := h.held x hx hlt
        have hlive : w.db.get w.now key = some e := by
          refine Db.get_eq_some.mpr ⟨he, ?_⟩
          rw [Entry.liveAt, ht]
          exact decide_eq_true hlt
        rw [hget] at hlive
        cases hlive
      have hyes : Call.reserves key ⟨.redis (.setNxEx key v ttl), .ok true⟩ = true := by
        simp [Call.reserves]
      rw [hnone, hyes, if_pos rfl, List.nil_append] at hres
      refine ⟨by rw [hres]; exact Nat.le_refl _, fun x hx => ?_, fun x hx _ => ?_⟩
      · rw [hres, List.mem_singleton] at hx
        exact Nat.le_of_eq (by rw [hx])
      · rw [hres, List.mem_singleton] at hx
        rw [hx]
        exact ⟨_, Function.update_self .., rfl⟩
  · refine hsame ?_ (call_of_not_writes hs fun c he hk => hw ⟨c, he, hk⟩)
    by_contra hyes
    unfold Call.reserves at hyes
    split at hyes
    · rename_i k v n he
      cases he
      have hk : k = key := by simpa using hyes
      exact hw ⟨_, rfl, List.mem_singleton.mpr hk.symm⟩
    · exact hyes rfl

/-- A key that is written by reservations only, each in time, is reserved at
most once. -/
theorem reserved_once {α : Type} {P P' : Pool svc World ι α} (hr : (service s).Run P tr P')
    (honly : ReservedOnly key ttl tr) (hin : ReservedInTime key ttl P.st.now tr) :
    Reserved key ttl P.st.now tr P'.st := by
  induction tr using List.reverseRecOn generalizing P' with
  | nil =>
    cases hr
    exact ⟨Nat.zero_le _, nofun, nofun⟩
  | append_singleton tr ev ih =>
    obtain ⟨Q, Q', hr₁, hs, hr₂⟩ := hr.split_at
    cases hr₂
    have hi := ih hr₁ (fun i c r hm => honly i c r (List.mem_append_left _ hm))
      fun t₁ i v n r t₂ he => hin t₁ i v n r (t₂ ++ [ev]) (by rw [he, List.append_assoc, List.cons_append])
    cases hs with
    | env hs =>
      cases hs
      exact hi.env _
    | @call i e k r w' hp hs =>
      refine hi.call (run_now hr₁) hs (fun c he hk => ?_) fun v n r' he => ?_
      · subst he
        exact honly i c r (List.mem_append_right _ List.mem_cons_self) hk
      · cases he
        exact hin tr i v n r' [] rfl

end Reservations

/-! ## Requests that carry the code -/

section Requests

variable {ι : Type} [DecidableEq ι] {env : Env} {libs : Libs} {s : JwkService}

/-- Only a revocation of the reservation as a token deletes it. -/
theorem Removes.reservation {adm : ι → Admission} {req : ι → Request} {tr : Events ι}
    {P : Pool svc World ι HttpResponse} (ht : libs.json.Faithful)
    (hr : (service s).Run (start env libs adm req) tr P) {i : ι} {hash : String}
    (h : Removes libs.json (req i) (callsOf i tr) (totpCodeKey hash)) :
    req i = .revokeToken (totpCodeKey hash) := by
  have hco : Coherent tr P.st := ((start_running ht).run hr).coherent
  cases hi : req i with
  | revokeToken jti =>
    rw [hi] at h
    exact congrArg _ h.symm
  | revokeSubjectTokens sub =>
    rw [hi] at h
    rcases Cleared.subject ht hr h with he | ⟨j, hs, -⟩
    · exact absurd he.symm (subject_ne_totp _ _)
    · exact absurd rfl (Credential.key_ne_totp (hco.drawn _ _ hs.1).1 hash)
  | refreshToken host token =>
    rw [hi] at h
    obtain ⟨f, -, hc⟩ := h
    rcases Cleared.family ht hr hc with he | ⟨j, c, he, hs, -⟩
    · exact absurd he.symm (family_ne_totp _ _)
    · exact absurd he.symm (Credential.key_ne_totp (hco.drawn _ _ hs.1).1 hash)
  | createToken | verifyToken | livez | readyz =>
    rw [hi] at h
    exact h.elim

/-- The reservation of a code is written by the requests that reserve it. -/
theorem reservedOnly_of_run {adm : ι → Admission} {req : ι → Request} {tr : Events ι}
    {P : Pool svc World ι HttpResponse} (ht : libs.json.Faithful)
    (hr : (service s).Run (start env libs adm req) tr P) {hash : String} {ttl : Nat}
    (hadm : ∀ i x, (adm i).replayClaim = some x → x.2 = ttl)
    (hdel : ∀ i, req i ≠ .revokeToken (totpCodeKey hash)) :
    ReservedOnly (totpCodeKey hash) ttl tr := by
  intro i c r hm hk
  obtain ⟨t₁, t₂, rfl⟩ := List.append_of_mem hm
  obtain ⟨P₁, P₂, h₁, hs, -⟩ := hr.split_at
  have hco : Coherent t₁ P₁.st := ((start_running ht).run h₁).coherent
  cases hs with
  | call hp hc =>
    have hpath := h₁.path i
    rw [hp] at hpath
    have hd := hpath.wp_call (serve_disciplined env libs ht (adm i) (req i))
    have hconf := hpath.wp_call (serve_confined (adm i) (req i))
    have hremoves : totpCodeKey hash ∉ c.removes := fun hkr =>
      hdel i (Removes.reservation ht h₁ (hconf.removes _ hkr))
    cases c with
    | ping | «exists» | zrange | hgetAll => cases hk
    | del ks => exact absurd hk hremoves
    | zremRangeByScore g max => exact absurd hk hremoves
    | setNxEx k v ttl' =>
      obtain ⟨hash', hx, hke⟩ := hconf
      obtain rfl : totpCodeKey hash = k := List.mem_singleton.mp hk
      exact ⟨v, congrArg _ (hadm i _ hx)⟩
    | setEx k v secs =>
      obtain rfl : totpCodeKey hash = k := List.mem_singleton.mp hk
      exact absurd rfl (Credential.key_ne_totp (c := .access _) (hco.drawn _ _ hd.1).1 hash)
    | zadd g m score =>
      obtain rfl : totpCodeKey hash = g := List.mem_singleton.mp hk
      rcases hd with ⟨sub, he, -⟩ | ⟨f, -, he, -⟩
      · exact absurd he.symm (subject_ne_totp _ _)
      · exact absurd he.symm (family_ne_totp _ _)
    | hset k fs =>
      obtain rfl : totpCodeKey hash = k := List.mem_singleton.mp hk
      obtain ⟨id, he, -⟩ := hd
      exact absurd he.symm (refresh_ne_totp _ _)
    | hsetNx k f v =>
      obtain rfl : totpCodeKey hash = k := List.mem_singleton.mp hk
      obtain ⟨id, -, he, -⟩ := hd
      exact absurd he.symm (refresh_ne_totp _ _)
    | expire k secs =>
      obtain rfl : totpCodeKey hash = k := List.mem_singleton.mp hk
      obtain ⟨id, he⟩ := hd
      exact absurd he.symm (refresh_ne_totp _ _)
    | expireAt k ts =>
      obtain rfl : totpCodeKey hash = k := List.mem_singleton.mp hk
      rcases hconf with ⟨sub, he⟩ | ⟨f, he⟩
      · exact absurd he.symm (subject_ne_totp _ _)
      · exact absurd he.symm (family_ne_totp _ _)

/-- Access control has let the request, whose calls are `cs`, through. -/
def LetThrough (cfg : EdgeConfig) (store : JtiStore) (inc : Incoming) (cs : List (Call edge)) : Prop :=
  ∃ cs₁ cs₂, cs = cs₁ ++ cs₂ ∧
    Prog.Path (Auth.decision cfg.hmac cfg.auth store .totp inc) cs₁ (.ret true)

/-- A request that is let through has reserved its code, or the store has
failed to answer it. -/
theorem LetThrough.reserves {cfg : EdgeConfig} {inc : Incoming} {cs : List (Call edge)}
    {t : JsonText} {hash : String} {ttl : Nat} (hp : cfg.auth.totpReplayProtection = true)
    (hc : cfg.auth.totpReplayClaim cfg.hmac inc.headers = some (hash, ttl))
    (h : LetThrough cfg (redisClient t) inc cs) :
    ∃ r : Except Redis.Err Bool,
      (⟨.redis (.setNxEx (totpCodeKey hash) "1" ttl), r⟩ : Call svc) ∈ cs.filterMap svcOf ∧
        ∀ b, r = .ok b → b = true := by
  obtain ⟨cs₁, cs₂, rfl, h⟩ := h
  obtain ⟨authorized, ds₁, ds₂, rfl, h₁, h₂⟩ := h.bind_ret_inv
  cases h₁ with
  | cons h₁ =>
    obtain ⟨rfl, ha⟩ := h₁.ret_inv
    cases ha
    obtain ⟨first, es₁, es₂, rfl, h₃, h₄⟩ := h₂.bind_ret_inv
    obtain ⟨-, hf⟩ := h₄.ret_inv
    obtain ⟨ha, hfirst⟩ : authorized = true ∧ first = true :=
      Bool.and_eq_true_iff.mp (Prog.ret.inj hf).symm
    subst ha hfirst
    obtain ⟨ds, rfl, hd⟩ := path_embed_ret h₃
    have hclaim : Auth.replayClaim cfg.hmac cfg.auth .totp true inc = some (hash, ttl) := by
      simp [Auth.replayClaim, hp, hc]
    rw [hclaim] at hd
    obtain ⟨r, fs₁, fs₂, rfl, hr, hr'⟩ := hd.bind_ret_inv
    obtain ⟨x, hx, rfl⟩ := Prog.path_mapError hr
    cases hx with
    | cons hx =>
      obtain ⟨rfl, hx⟩ := hx.ret_inv
      cases hx
      refine ⟨x, ?_, fun b hb => ?_⟩
      · simp [svcOf, svcCall]
      · subst hb
        obtain ⟨-, hb⟩ := hr'.ret_inv
        exact (Prog.ret.inj hb).symm

omit [DecidableEq ι] in
theorem mem_reservations {key : String} {now : Nat} {tr : Events ι} {i : ι} {c : Call svc}
    (hc : Call.reserves key c = true) (hm : Event.call i c ∈ tr) :
    ∃ t, (i, t) ∈ reservations key now tr := by
  obtain ⟨t₁, t₂, rfl⟩ := List.append_of_mem hm
  refine ⟨now + elapsed t₁, ?_⟩
  rw [reservations_append]
  refine List.mem_append_right _ ?_
  rw [reservations, if_pos hc]
  exact List.mem_cons_self

variable {g : Governor} {cfg : EdgeConfig} {w : EdgeWorld g.State} {inc : ι → Incoming}
  {req : ι → Request} {tr : List (Event edge ι (Nat × Nat))}
  {P : Pool edge (EdgeWorld g.State) ι HttpResponse}

/-- Of the requests that carry a code one is let through, where each of its
reservations is made before those before it are over, and none is deleted as a
token. A code of one counter is accepted exactly within `skew` of it, and not
after a reservation that was made while it was accepted is over. -/
theorem code_lets_one_through (ht : libs.json.Faithful) (hw : w.world = World.empty)
    (hp : cfg.auth.totpReplayProtection = true) (hstep : 0 < cfg.auth.totp.step)
    (hfit : cfg.auth.totp.step * (2 * cfg.auth.totp.skew + 1) < 2 ^ 64)
    (hr : (layered g cfg (service s)).Run (arrivals w cfg env libs inc req) tr P)
    {code : List UInt8} {hash : String} (hf : cfg.auth.totp.fingerprintOf cfg.hmac code = some hash)
    (hdel : ∀ i, req i ≠ .revokeToken (totpCodeKey hash))
    (hin : ReservedInTime (totpCodeKey hash) cfg.auth.totp.replayWindowSeconds w.world.now
      (svcEvents tr)) :
    (∀ i j, (inc i).headers.get cfg.auth.totp.header = some code →
      (inc j).headers.get cfg.auth.totp.header = some code →
      LetThrough cfg (redisClient libs.json) (inc i) (callsOf i tr) →
      LetThrough cfg (redisClient libs.json) (inc j) (callsOf j tr) → i = j) ∧
    ∀ headers : HeaderMap, headers.get cfg.auth.totp.header = some code →
      ∀ c < 2 ^ 64, cfg.auth.totp.Matches cfg.hmac code c →
      ∀ t, cfg.auth.totp.MatchesOnly cfg.hmac code c (timestamp t) →
        (cfg.auth.totp.validate cfg.hmac headers (timestamp t) = true ↔
          timestamp t / cfg.auth.totp.step ≤ c + cfg.auth.totp.skew ∧
            c ≤ timestamp t / cfg.auth.totp.step + cfg.auth.totp.skew) ∧
        ∀ t', cfg.auth.totp.MatchesOnly cfg.hmac code c (timestamp t') →
          cfg.auth.totp.validate cfg.hmac headers (timestamp t) = true →
          cfg.auth.totp.validate cfg.hmac headers (timestamp t') = true →
          t' < t + 1000 * cfg.auth.totp.replayWindowSeconds := by
  refine ⟨fun i j hi hj hli hlj => ?_, fun headers hc c hlt hm t ho =>
    ⟨TotpValidator.validate_iff_near hc hm hlt ho, fun t' ho' h h' =>
      TotpValidator.accepted_in_window hc hstep hfit ho ho' h h'⟩⟩
  obtain ⟨adm, q, hrun, hadm, -⟩ := arrivals_serve hr
  rw [hw] at hrun hin
  -- A reservation under the code's key lives as long as the window is.
  have hclaim : ∀ i, (inc i).headers.get cfg.auth.totp.header = some code →
      cfg.auth.totpReplayClaim cfg.hmac (inc i).headers =
        some (hash, cfg.auth.totp.replayWindowSeconds) := fun i hi => by
    rw [AuthConfig.totpReplayClaim, TotpValidator.codeFingerprint_eq hi, hf]
    rfl
  have honly : ReservedOnly (totpCodeKey hash) cfg.auth.totp.replayWindowSeconds (svcEvents tr) := by
    refine reservedOnly_of_run ht hrun (fun i x hx => ?_) hdel
    rw [hadm] at hx
    obtain ⟨_, -, hx⟩ := Option.bind_eq_some_iff.mp hx
    rw [← Option.some.inj hx]
  have honce := (reserved_once hrun honly hin).once
  have hreserved : ∀ i, (inc i).headers.get cfg.auth.totp.header = some code →
      LetThrough cfg (redisClient libs.json) (inc i) (callsOf i tr) →
      ∃ t, (i, t) ∈ reservations (totpCodeKey hash) World.empty.now (svcEvents tr) := by
    intro i hi hl
    obtain ⟨r, hm, hok⟩ := hl.reserves hp (hclaim i hi)
    rw [← callsOf_svcEvents, mem_callsOf] at hm
    obtain ⟨t₁, t₂, hsplit⟩ := List.append_of_mem hm
    obtain ⟨⟨b, rfl⟩, -⟩ := hin _ _ _ _ _ _ hsplit
    rw [hok b rfl] at hm
    exact mem_reservations (by simp [Call.reserves]) hm
  obtain ⟨t, hit⟩ := hreserved i hi hli
  obtain ⟨t', hjt⟩ := hreserved j hj hlj
  generalize hres : reservations (totpCodeKey hash) World.empty.now (svcEvents tr) = xs at hit hjt
  rw [show reservations _ _ (svcEvents tr) = xs from hres] at honce
  obtain ⟨x, rfl⟩ := List.length_eq_one_iff.mp (Nat.le_antisymm honce (List.length_pos_of_mem hit))
  rw [List.mem_singleton] at hit hjt
  exact congrArg Prod.fst (hit.trans hjt.symm)

end Requests

/-! ## A code at the end of its window -/

/-- The secret of the test vectors of HOTP. -/
def vectorSecret : List UInt8 := Text.utf8 "12345678901234567890"

/-- Keyed hashes under that secret: of the counters 0 to 3, and of the code of
counter 1. -/
def vectors (d : MessageDigest) (data : List UInt8) : List UInt8 :=
  if d = .sha1 ∧ data = toBeBytes 0 then
    [204, 147, 207, 24, 80, 141, 148, 147, 76, 100, 182, 93, 139, 167, 102, 127, 183, 205, 228, 176]
  else if d = .sha1 ∧ data = toBeBytes 1 then
    [117, 164, 138, 25, 212, 203, 225, 0, 100, 78, 138, 193, 57, 126, 234, 116, 122, 45, 51, 171]
  else if d = .sha1 ∧ data = toBeBytes 2 then
    [11, 172, 183, 250, 8, 47, 239, 48, 120, 34, 17, 147, 139, 193, 197, 231, 4, 22, 255, 68]
  else if d = .sha1 ∧ data = toBeBytes 3 then
    [102, 194, 130, 39, 208, 58, 45, 85, 41, 38, 47, 240, 22, 161, 230, 239, 118, 85, 126, 206]
  else if d = .sha256 ∧ data = Text.utf8 "287082" then
    [145, 39, 58, 181, 62, 83, 247, 97, 61, 135, 253, 185, 223, 11, 16, 45, 231, 87, 14, 216, 109,
      82, 37, 158, 226, 141, 232, 54, 55, 38, 51, 122]
  else List.replicate d.size 0

theorem length_vectors (d : MessageDigest) (data : List UInt8) : (vectors d data).length = d.size := by
  unfold vectors
  split_ifs with h₀ h₁ h₂ h₃ h₄
  · rw [h₀.1]; rfl
  · rw [h₁.1]; rfl
  · rw [h₂.1]; rfl
  · rw [h₃.1]; rfl
  · rw [h₄.1]; rfl
  · exact List.length_replicate

def vectorHmac : Hmac :=
  ⟨fun d _ data => some (vectors d data), fun d _ data m h => by
    cases Option.some.inj h; exact length_vectors d data⟩

/-- One TOTP secret with replay protection: steps of 30 seconds, one of them
accepted on each side. -/
def replayConfig : EdgeConfig where
  hmac := vectorHmac
  auth := ⟨⟨"x-proxy-secret", [0]⟩, ⟨"x-totp-code", [vectorSecret], 30, 6, 1, .sha1⟩, ⟨none⟩, true⟩
  verifyLimiter := none
  internalLimiter := none

/-- A request with the code of counter 1. -/
def withVector : Incoming := ⟨[("x-totp-code", Text.utf8 "287082")], none⟩

theorem toBeBytes_inj {x y : Nat} (hx : x < 2 ^ 64) (hy : y < 2 ^ 64)
    (h : toBeBytes x = toBeBytes y) : x = y := by
  have hb : ∀ i ∈ List.range 8, x / 2 ^ (8 * (7 - i)) % 256 = y / 2 ^ (8 * (7 - i)) % 256 :=
    fun i hi => by
      have := congrArg UInt8.toNat (List.map_inj_left.mp h i hi)
      simpa only [UInt8.toNat_ofNat'] using this
  have h₀ := hb 0 (by decide)
  have h₁ := hb 1 (by decide)
  have h₂ := hb 2 (by decide)
  have h₃ := hb 3 (by decide)
  have h₄ := hb 4 (by decide)
  have h₅ := hb 5 (by decide)
  have h₆ := hb 6 (by decide)
  have h₇ := hb 7 (by decide)
  omega

/-- The code is that of counter 1 alone. -/
theorem vector_matches {c : Nat} (hc : c < 2 ^ 64) :
    replayConfig.auth.totp.Matches vectorHmac (Text.utf8 "287082") c ↔ c = 1 := by
  constructor
  · rintro ⟨secret, -, text, ht, hcode⟩
    have ht : hotp vectorHmac secret c 6 .sha1 = some text := ht
    simp only [hotp, vectorHmac, vectors, Option.bind_eq_bind, Option.bind_some] at ht
    split_ifs at ht with h₀ h₁ h₂ h₃ h₄
    · obtain rfl := Option.some.inj ht
      exact absurd hcode (by decide +kernel)
    · exact toBeBytes_inj hc (by decide) h₁.2
    · obtain rfl := Option.some.inj ht
      exact absurd hcode (by decide +kernel)
    · obtain rfl := Option.some.inj ht
      exact absurd hcode (by decide +kernel)
    · exact absurd h₄.1 (by decide)
    · obtain rfl := Option.some.inj ht
      exact absurd hcode (by decide +kernel)
  · rintro rfl
    exact ⟨vectorSecret, List.mem_singleton_self _, "287082", by decide +kernel, rfl⟩

/-- An issue and a revocation with the code. -/
def withOneCode : Pool edge (EdgeWorld (gcra ⟨1000000000, 1⟩).State) Bool HttpResponse :=
  arrivals (cappedWorld 1) replayConfig bareEnv echoLibs (fun _ => withVector) issueOrRevoke

/-- The fingerprint of the code. -/
def vectorHash : String := "91273ab53e53f7613d87fdb9df0b102de7570ed86d52259ee28de8363726337a"

def vectorClaim : Cmd := .setNxEx (totpCodeKey vectorHash) "1" 90

/-- The issue is checked and reserves the code at once, and the revocation is
checked 89 seconds later; its reservation takes `delay` milliseconds. -/
def useTwice (delay : Nat) (second : Bool) : List (Event edge Bool (Nat × Nat)) :=
  [.call false ⟨.authorize .totp withVector.headers, true⟩,
    .call false ⟨.svc (.redis vectorClaim), .ok true⟩,
    .env (89000, 89000000000),
    .call true ⟨.authorize .totp withVector.headers, true⟩,
    .env (delay, 1000000 * delay),
    .call true ⟨.svc (.redis vectorClaim), .ok second⟩]

theorem useTwice_first (delay : Nat) (second : Bool) :
    LetThrough replayConfig (redisClient echoLibs.json) withVector
      (callsOf false (useTwice delay second)) :=
  ⟨[_, _], [], rfl, .cons (.cons (.nil _))⟩

/-- The first use is let through, and the second, which reserves the code in its
window, is not. -/
theorem code_lets_one_through_twice : ∃ P,
    (layered (gcra ⟨1000000000, 1⟩) replayConfig (service agedService)).Run withOneCode
      (useTwice 0 false) P ∧
    LetThrough replayConfig (redisClient echoLibs.json) withVector (callsOf false (useTwice 0 false)) ∧
    ¬ LetThrough replayConfig (redisClient echoLibs.json) withVector (callsOf true (useTwice 0 false)) := by
  obtain ⟨P, hplay⟩ : ∃ P, System.play (EdgeWorld.act replayConfig agedService)
    (fun v l => some (v.pass l)) (fun _ _ => true) [.call false .plain, .call false (.redis .answered),
      .env (89000, 89000000000), .call true .plain, .env (0, 0), .call true (.redis .answered)]
      withOneCode = some (useTwice 0 false, P) := ⟨_, rfl⟩
  have hrun := playEdge_run hplay
  refine ⟨P, hrun, useTwice_first 0 false, fun h => ?_⟩
  have hf : replayConfig.auth.totp.fingerprintOf replayConfig.hmac (Text.utf8 "287082") =
      some vectorHash := by decide +kernel
  have hdel : ∀ i, issueOrRevoke i ≠ .revokeToken (totpCodeKey vectorHash) := fun i => by
    cases i with
    | false => exact nofun
    | true => exact fun he => absurd (Request.revokeToken.inj he) (by decide)
  have hin : ReservedInTime (totpCodeKey vectorHash) replayConfig.auth.totp.replayWindowSeconds
      (cappedWorld 1).world.now (svcEvents (useTwice 0 false)) := by
    intro t₁ i v n r t₂ he
    have he : ([.call false ⟨.redis vectorClaim, .ok true⟩, .env 89000, .env 0,
        .call true ⟨.redis vectorClaim, .ok false⟩] : Events Bool) =
          t₁ ++ .call i ⟨.redis (.setNxEx (totpCodeKey vectorHash) v n), r⟩ :: t₂ := he
    rcases t₁ with _ | ⟨_, _ | ⟨_, _ | ⟨_, _ | ⟨_, t₁⟩⟩⟩⟩
    · cases he
      exact ⟨⟨true, rfl⟩, nofun⟩
    · cases he
    · cases he
    · cases he
      exact ⟨⟨false, rfl⟩, by decide⟩
    · exact absurd (congrArg List.length he) (by simp)
  have hone := (code_lets_one_through echo_faithful rfl rfl (by decide) (by decide) hrun hf hdel
    hin).1 false true rfl rfl (useTwice_first 0 false) h
  cases hone

/-- The second use was checked in the window of the code and reserves it after
the first reservation is over. -/
theorem code_lets_two_through : ∃ P,
    (layered (gcra ⟨1000000000, 1⟩) replayConfig (service agedService)).Run withOneCode
      (useTwice 1000 true) P ∧
    (∀ c < 2 ^ 64, replayConfig.auth.totp.Matches vectorHmac (Text.utf8 "287082") c ↔ c = 1) ∧
    withVector.headers.get "x-totp-code" = some (Text.utf8 "287082") ∧
    ∀ i, LetThrough replayConfig (redisClient echoLibs.json) withVector
      (callsOf i (useTwice 1000 true)) := by
  obtain ⟨P, hplay⟩ : ∃ P, System.play (EdgeWorld.act replayConfig agedService)
    (fun v l => some (v.pass l)) (fun _ _ => true) [.call false .plain, .call false (.redis .answered),
      .env (89000, 89000000000), .call true .plain, .env (1000, 1000000000),
      .call true (.redis .answered)] withOneCode = some (useTwice 1000 true, P) := ⟨_, rfl⟩
  refine ⟨P, playEdge_run hplay, fun c => vector_matches, rfl, fun i => ?_⟩
  cases i with
  | false => exact useTwice_first _ _
  | true => exact ⟨[_, _], [], rfl, .cons (.cons (.nil _))⟩

end JwtService

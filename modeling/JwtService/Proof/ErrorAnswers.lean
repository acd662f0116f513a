import JwtService.Proof.Snapshot
import JwtService.Proof.TokenForm

/-!
# Error answers of the key service

`get_key` looks at the status of the answer, `public_keys` and `create_key` do
not. So an error answer whose body does not parse is an error of all three, and
one whose body does is taken for data by the latter two: its keys become the
snapshot (`publicKey_error_iff`), the probe counts the key service as live
(`readyz_error_iff`), and its key becomes the one that signs
(`getPrivateKey_created_iff`). `error_answers_iff` puts these together.
-/

namespace JwtService

open Interaction

variable {cs : List (Call svc)} {status : Nat} {keys : Option Jwks} {key : Option JwkData}

/-! ## What is made of an answer -/

/-- An answer by its body, whatever its status. -/
def HttpReply.parsed {α : Type} : HttpReply α → Except JwkError α
  | .unreachable => .error .badConnection
  | .response _ none => .error .badResponse
  | .response _ (some a) => .ok a

/-- An answer by its status and then by its body. -/
def HttpReply.found : HttpReply JwkData → Except JwkError JwkData
  | .unreachable => .error .badConnection
  | .response status body =>
    if status = 404 then .error .notFound
    else if ¬ (200 ≤ status ∧ status < 300) then .error .badResponse
    else match body with
      | none => .error .badResponse
      | some key => .ok key

theorem HttpReply.parsed_isOk {α : Type} (reply : HttpReply α) : reply.parsed.isOk = !reply.failed := by
  rcases reply with _ | ⟨status, _ | a⟩ <;> rfl

theorem HttpReply.found_error {b : Option JwkData} (h : ¬ (200 ≤ status ∧ status < 300)) :
    (HttpReply.response status b).found.isOk = false := by
  simp only [found, if_pos h]
  split <;> rfl

/-- A program that makes one call. -/
theorem path_call_map {e : Eff} {β : Type} {f : e.Reply → β} {b : β} :
    Prog.Path (call e >>= fun r => pure (f r)) cs (.ret b) ↔ ∃ r, cs = [⟨e, r⟩] ∧ b = f r := by
  constructor
  · intro h
    cases h with
    | @cons _ _ r _ _ h =>
      obtain ⟨rfl, he⟩ := h.ret_inv
      cases he
      exact ⟨r, rfl, rfl⟩
  · rintro ⟨r, rfl, rfl⟩
    exact .cons (.nil _)

namespace JwkService

theorem publicKeys_eq : publicKeys = (call .fetchKeys >>= fun reply => pure reply.parsed) :=
  congrArg (call .fetchKeys >>= ·) (funext fun reply => by rcases reply with _ | ⟨status, _ | jwks⟩ <;> rfl)

theorem createKey_eq (alg : String) : createKey alg =
    (call (.createKey (if alg = "EdDSA" then "Ed25519" else alg)) >>= fun reply => pure reply.parsed) :=
  congrArg (call (.createKey _) >>= ·) (funext fun reply => by rcases reply with _ | ⟨status, _ | key⟩ <;> rfl)

theorem getKey_eq (id : String) : getKey id = (call (.getKey id) >>= fun reply => pure reply.found) := by
  refine congrArg (call (.getKey id) >>= ·) (funext fun reply => ?_)
  cases reply with
  | unreachable => rfl
  | response status body =>
    simp only [HttpReply.found]
    split
    · rfl
    · split
      · rfl
      · cases body <;> rfl

end JwkService

/-! ## Trips -/

/-- A call that neither fetches keys nor records how a trip ended. -/
def Aside : Eff → Prop
  | .fetchKeys | .cache .recordFailure | .cache (.store _) => False
  | _ => True

/-- The call that records how a trip ended. -/
def tripEnd : HttpReply Jwks → Call svc
  | .response _ (some jwks) => ⟨.cache (.store jwks), ()⟩
  | _ => ⟨.cache .recordFailure, ()⟩

/-- One trip at most, and its end is recorded. -/
def OneTrip (cs : List (Call svc)) : Prop :=
  (∀ c ∈ cs, Aside c.eff) ∨ ∃ pre reply post, cs = pre ++ ⟨.fetchKeys, reply⟩ :: tripEnd reply :: post ∧
    ∀ c ∈ pre ++ post, Aside c.eff

def MakesOneTrip {α : Type} (p : M α) : Prop := ∀ cs a, Prog.Path p cs (.ret a) → OneTrip cs

section MakesOneTrip

variable {α β : Type} {p : M α} {f : α → M β}

theorem aside_call (e : Eff) (he : Aside e) : (call e).Only Aside := ⟨he, fun _ => trivial⟩

theorem oneTrip_aside (hp : p.Only Aside) : MakesOneTrip p := fun _ _ h => .inl (hp.path h)

theorem oneTrip_aside_bind (hp : p.Only Aside) (hf : ∀ a, MakesOneTrip (f a)) : MakesOneTrip (p >>= f) := by
  intro cs b h
  obtain ⟨a, cs₁, cs₂, rfl, h₁, h₂⟩ := h.bind_ret_inv
  have haside := hp.path h₁
  rcases hf a cs₂ b h₂ with hall | ⟨pre, reply, post, rfl, hrest⟩
  · exact .inl (List.forall_mem_append.mpr ⟨haside, hall⟩)
  · refine .inr ⟨cs₁ ++ pre, reply, post, by rw [List.append_assoc], ?_⟩
    rw [List.append_assoc]
    exact List.forall_mem_append.mpr ⟨haside, hrest⟩

theorem oneTrip_bind_aside (hp : MakesOneTrip p) (hf : ∀ a, (f a).Only Aside) : MakesOneTrip (p >>= f) := by
  intro cs b h
  obtain ⟨a, cs₁, cs₂, rfl, h₁, h₂⟩ := h.bind_ret_inv
  have haside := (hf a).path h₂
  rcases hp cs₁ a h₁ with hall | ⟨pre, reply, post, rfl, hrest⟩
  · exact .inl (List.forall_mem_append.mpr ⟨hall, haside⟩)
  · refine .inr ⟨pre, reply, post ++ cs₂, by simp, ?_⟩
    rw [← List.append_assoc]
    exact List.forall_mem_append.mpr ⟨hrest, haside⟩

end MakesOneTrip

namespace JwkService

theorem oneTrip_fetchAndStore : MakesOneTrip fetchAndStore := by
  intro cs a h
  cases h with
  | cons h =>
    cases h with
    | @cons _ _ reply _ _ h =>
      refine .inr ⟨[⟨.cache .recordAttempt, ()⟩], reply, [], ?_, by simp [Aside]⟩
      rcases reply with _ | ⟨status, _ | jwks⟩
      all_goals
        cases h with
        | cons h =>
          rw [h.ret_inv.1]
          rfl

theorem aside_serveStale (kid : String) : (serveStale kid).Only Aside := by
  refine Prog.only_bind (aside_call _ trivial) fun r => ?_
  rcases r with _ | ⟨jwk, age⟩
  · trivial
  · exact Prog.only_bind (aside_call _ trivial) fun _ => trivial

theorem oneTrip_refresh (kid : String) : MakesOneTrip (refresh kid) := by
  refine oneTrip_bind_aside oneTrip_fetchAndStore fun r => ?_
  cases r with
  | error e =>
    refine Prog.only_bind (aside_serveStale kid) fun r => ?_
    cases r with
    | some jwk => trivial
    | none => exact Prog.only_bind (aside_call _ trivial) fun _ => trivial
  | ok jwks =>
    refine Prog.only_bind (aside_call _ trivial) fun _ => ?_
    cases jwks.find kid <;> trivial

theorem oneTrip_throttled (kid : String) : MakesOneTrip (throttled kid) := by
  have hstale : (serveStaleIfFailed kid).Only Aside := by
    refine Prog.only_bind (aside_call _ trivial) fun r => ?_
    cases r with
    | true => exact aside_serveStale kid
    | false => trivial
  refine oneTrip_aside_bind hstale fun r => ?_
  cases r with
  | some jwk => exact oneTrip_aside trivial
  | none =>
    refine oneTrip_aside_bind (aside_call _ trivial) fun fresh => ?_
    cases fresh with
    | true => exact oneTrip_aside (Prog.only_bind (aside_call _ trivial) fun _ => trivial)
    | false => exact oneTrip_refresh kid

theorem oneTrip_publicKeyLocked (kid : String) : MakesOneTrip (publicKeyLocked kid) := by
  refine oneTrip_aside_bind (aside_call _ trivial) fun r => ?_
  cases r with
  | some jwk => exact oneTrip_aside (Prog.only_bind (aside_call _ trivial) fun _ => trivial)
  | none =>
    refine oneTrip_aside_bind (aside_call _ trivial) fun allowed => ?_
    cases allowed with
    | true => exact oneTrip_refresh kid
    | false => exact oneTrip_throttled kid

theorem oneTrip_publicKey (kid : String) : MakesOneTrip (publicKey kid) := by
  refine oneTrip_aside_bind (aside_call _ trivial) fun r => ?_
  cases r with
  | some jwk => exact oneTrip_aside (Prog.only_bind (aside_call _ trivial) fun _ => trivial)
  | none =>
    refine oneTrip_aside_bind (aside_call _ trivial) fun _ => ?_
    exact oneTrip_bind_aside (oneTrip_publicKeyLocked kid) fun r =>
      Prog.only_bind (aside_call _ trivial) fun _ => trivial

end JwkService

/-! ## The public keys -/

/-- In whatever state, the call leaves the snapshot and its moment alone. -/
def LeavesSnapshot (s : JwkService) (c : Call svc) : Prop :=
  ∀ w w', (service s).call w c.eff c.reply w' → w'.cache.entry = w.cache.entry

theorem leavesSnapshot_of_stored (s : JwkService) {c : Call svc} (h : c.eff.stored = none) :
    LeavesSnapshot s c := by
  intro w w' hc
  rw [call_entry hc, h]
  rfl

theorem not_leavesSnapshot_store (s : JwkService) (jwks : Jwks) :
    ¬ LeavesSnapshot s ⟨.cache (.store jwks), ()⟩ := by
  intro h
  have hentry := h World.empty { World.empty with cache := ⟨some (jwks, 0), none, none⟩ } ⟨.plain, rfl⟩
  cases hentry

/-- The answer is an error if and only if its body does not parse. -/
theorem publicKeys_error_iff :
    (∀ r, Prog.Path JwkService.publicKeys [⟨.fetchKeys, .response status keys⟩] (.ret r) → r.isOk = false) ↔
      keys = none := by
  rw [JwkService.publicKeys_eq]
  constructor
  · intro h
    have herr := h _ (path_call_map.mpr ⟨_, rfl, rfl⟩)
    cases keys with
    | none => rfl
    | some jwks => cases herr
  · rintro rfl r hr
    obtain ⟨reply, hcs, rfl⟩ := path_call_map.mp hr
    cases hcs
    rfl

/-- A lookup leaves the snapshot alone and records a failure if and only if the
body of the answer does not parse. -/
theorem publicKey_error_iff (s : JwkService) {kid : String} {r : Except JwkError Jwk}
    (h : Prog.Path (JwkService.publicKey kid) cs (.ret r))
    (hf : (⟨.fetchKeys, .response status keys⟩ : Call svc) ∈ cs) :
    (∀ c ∈ cs, LeavesSnapshot s c) ∧ (⟨.cache .recordFailure, ()⟩ : Call svc) ∈ cs ↔ keys = none := by
  rcases JwkService.oneTrip_publicKey kid cs r h with hall | ⟨pre, reply, post, rfl, hrest⟩
  · exact (hall _ hf).elim
  · -- The trip that was answered so is the only one.
    obtain rfl : reply = .response status keys := by
      simp only [List.mem_append, List.mem_cons] at hf
      rcases hf with hf | hf | hf | hf
      · exact (hrest _ (List.mem_append_left _ hf)).elim
      · cases hf
        rfl
      · rcases reply with _ | ⟨status', _ | jwks⟩ <;> cases hf
      · exact (hrest _ (List.mem_append_right _ hf)).elim
    have haside : ∀ c : Call svc, Aside c.eff → LeavesSnapshot s c := by
      intro c hc
      refine leavesSnapshot_of_stored s ?_
      obtain ⟨e, r⟩ := c
      cases e with
      | cache op => cases op <;> first | rfl | exact hc.elim
      | _ => rfl
    cases keys with
    | none =>
      refine iff_of_true ⟨fun c hc => ?_, by simp [tripEnd]⟩ rfl
      simp only [List.mem_append, List.mem_cons] at hc
      rcases hc with hc | rfl | rfl | hc
      · exact haside c (hrest _ (List.mem_append_left _ hc))
      · exact leavesSnapshot_of_stored s rfl
      · exact leavesSnapshot_of_stored s rfl
      · exact haside c (hrest _ (List.mem_append_right _ hc))
    | some jwks =>
      refine iff_of_false (fun hkeeps => ?_) nofun
      exact not_leavesSnapshot_store s jwks (hkeeps.1 _ (by simp [tripEnd]))

/-- The probe counts the key service as live: not on the snapshot. -/
def CountsLive (resp : HttpResponse) : Prop :=
  ∃ state storeOk, resp.body = .readiness state storeOk true false

/-- What `checkJwks` makes of the answer. -/
theorem checkJwks_path {r : Except KeyError Unit}
    (h : Prog.Path (KeyManager.checkJwks : M (Except KeyError Unit)) cs (.ret r)) :
    ∃ reply : HttpReply Jwks, cs = [⟨.fetchKeys, reply⟩] ∧ r.isOk = !reply.failed := by
  have hkeys : ∀ {cs : List (Call svc)} {x : Except KeyError Jwks},
      Prog.Path (Prog.mapError (fun _ => KeyError.notFound) JwkService.publicKeys) cs (.ret x) →
      ∃ reply : HttpReply Jwks, cs = [⟨.fetchKeys, reply⟩] ∧ x.isOk = !reply.failed := by
    intro cs x hx
    obtain ⟨y, hy, rfl⟩ := Prog.path_mapError hx
    rw [JwkService.publicKeys_eq] at hy
    obtain ⟨reply, rfl, rfl⟩ := path_call_map.mp hy
    refine ⟨reply, rfl, ?_⟩
    rw [← reply.parsed_isOk]
    cases reply.parsed <;> rfl
  rcases Prog.path_tryBind h with ⟨jwks, cs₁, cs₂, rfl, h₁, h₂⟩ | ⟨e, h₁, rfl⟩
  · obtain ⟨reply, rfl, hok⟩ := hkeys h₁
    obtain ⟨rfl, he⟩ := h₂.ret_inv
    cases he
    exact ⟨reply, rfl, hok⟩
  · exact hkeys h₁

/-- The probe does not count the key service as live if and only if the body of
the answer does not parse. -/
theorem readyz_error_iff (t : JsonText) {resp : HttpResponse}
    (h : Prog.Path (readyz (redisClient t)) cs (.ret resp))
    (hf : (⟨.fetchKeys, .response status keys⟩ : Call svc) ∈ cs) : ¬ CountsLive resp ↔ keys = none := by
  obtain ⟨pinged, cs₁, cs₂, rfl, h₁, h₂⟩ := h.bind_ret_inv
  obtain ⟨live, cs₃, cs₄, rfl, h₃, h₄⟩ := h₂.bind_ret_inv
  obtain ⟨stale, cs₅, cs₆, rfl, h₅, h₆⟩ := h₄.bind_ret_inv
  obtain ⟨rfl, hresp⟩ := h₆.ret_inv
  cases hresp
  obtain ⟨reply, rfl, hlive⟩ := checkJwks_path h₃
  -- Neither the ping nor the look at the snapshot fetches keys.
  have hcommand : (call (.redis .ping)).Only Aside := aside_call _ trivial
  have hping : ((redisClient t).ping).Only Aside := Prog.only_mapError hcommand
  have hserves : (snapshotServes live.isOk).Only Aside := by
    unfold snapshotServes
    split
    · trivial
    · exact aside_call _ trivial
  obtain rfl : reply = .response status keys := by
    simp only [List.mem_append, List.mem_cons, List.not_mem_nil, or_false] at hf
    rcases hf with hf | hf | hf
    · exact (hping.path h₁ _ hf).elim
    · cases hf
      rfl
    · exact (hserves.path h₅ _ hf).elim
  -- A live key service leaves no room for the snapshot.
  have hstale : live.isOk = true → stale = false := by
    intro hl
    rw [snapshotServes, if_pos hl] at h₅
    exact Prog.ret.inj h₅.ret_inv.2
  have hcounts : ∀ code state redis, CountsLive ⟨code, .readiness state redis (live.isOk || stale) stale⟩ ↔
      live.isOk = true := by
    intro code state redis
    constructor
    · rintro ⟨state', redis', hbody⟩
      injection hbody with _ _ hok hno
      simpa [hno] using hok
    · intro hl
      exact ⟨state, redis, by rw [hstale hl, hl]; rfl⟩
  rw [hcounts, hlive]
  cases keys <;> simp [HttpReply.failed]

/-! ## The private key -/

/-- The answer is an error if and only if its body does not parse. -/
theorem createKey_error_iff {alg : String} :
    (∀ r, Prog.Path (JwkService.createKey alg)
        [⟨.createKey (if alg = "EdDSA" then "Ed25519" else alg), .response status key⟩] (.ret r) → r.isOk = false) ↔
      key = none := by
  rw [JwkService.createKey_eq]
  constructor
  · intro h
    have herr := h _ (path_call_map.mpr ⟨_, rfl, rfl⟩)
    cases key with
    | none => rfl
    | some key => cases herr
  · rintro rfl r hr
    obtain ⟨reply, hcs, rfl⟩ := path_call_map.mp hr
    cases hcs
    rfl

/-- The key that signs comes from the answer to a creation, after that to the
request for it if there was one, or from the answer to the request. -/
theorem privateKey_path {id alg : String} {r : Except JwkError JwkData}
    (h : Prog.Path (JwkService.privateKey id alg) cs (.ret r)) :
    (∃ (pre : List (Call svc)) (a : String) (reply : HttpReply JwkData),
      cs = pre ++ [⟨.createKey a, reply⟩] ∧ r = reply.parsed ∧
        ∀ c ∈ pre, ∃ reply : HttpReply JwkData, c = ⟨.getKey id, reply⟩) ∨
    ∃ reply : HttpReply JwkData, cs = [⟨.getKey id, reply⟩] ∧ r = reply.found := by
  have hcreate : ∀ {cs : List (Call svc)}, Prog.Path (JwkService.createKey alg) cs (.ret r) →
      ∃ (a : String) (reply : HttpReply JwkData), cs = [⟨.createKey a, reply⟩] ∧ r = reply.parsed := by
    intro cs h
    rw [JwkService.createKey_eq] at h
    obtain ⟨reply, hcs, hr⟩ := path_call_map.mp h
    exact ⟨_, reply, hcs, hr⟩
  unfold JwkService.privateKey at h
  split at h
  · obtain ⟨a, reply, rfl, hr⟩ := hcreate h
    exact .inl ⟨[], a, reply, rfl, hr, nofun⟩
  · obtain ⟨x, cs₁, cs₂, rfl, h₁, h₂⟩ := h.bind_ret_inv
    rw [JwkService.getKey_eq] at h₁
    obtain ⟨reply, rfl, rfl⟩ := path_call_map.mp h₁
    split at h₂
    · rename_i hok
      obtain ⟨rfl, he⟩ := h₂.ret_inv
      cases he
      exact .inr ⟨reply, rfl, hok.symm⟩
    · obtain ⟨a, reply', rfl, hr⟩ := hcreate h₂
      exact .inl ⟨_, a, reply', rfl, hr, by simp⟩
    · rename_i herr
      obtain ⟨rfl, he⟩ := h₂.ret_inv
      cases he
      exact .inr ⟨reply, rfl, herr.symm⟩

/-- The id of a key becomes that of the current key. -/
def Adopts (cs : List (Call svc)) (id : String) : Prop := (⟨.writeKeyId id, ()⟩ : Call svc) ∈ cs

/-- The call that adopts a key. -/
def adoption : Except JwkError JwkData → List (Call svc)
  | .ok key => [⟨.writeKeyId key.id, ()⟩]
  | .error _ => []

/-- The key that `privateKey` finds is adopted. -/
theorem getPrivateKey_path {ssl : OpenSsl} {alg : String} {r : Except KeyError (JwkData × ssl.PrivateKey)}
    (h : Prog.Path (KeyManager.getPrivateKey ssl alg) cs (.ret r)) :
    ∃ (id : String) (ks : List (Call svc)) (x : Except JwkError JwkData),
      cs = ⟨.readKeyId, id⟩ :: (ks ++ adoption x) ∧ Prog.Path (JwkService.privateKey id alg) ks (.ret x) := by
  -- The calls are those of `getJwkData`.
  have hdata : ∃ y, Prog.Path (KeyManager.getJwkData alg) cs (.ret y) := by
    rcases Prog.path_tryBind h with ⟨jwk, cs₁, cs₂, rfl, h₁, h₂⟩ | ⟨e, h₁, -⟩
    · rcases Prog.path_tryBind h₂ with ⟨k, cs₃, cs₄, rfl, h₃, h₄⟩ | ⟨e, h₃, -⟩
      · obtain ⟨rfl, -⟩ := Prog.path_ofExcept h₃
        rw [h₄.ret_inv.1, List.append_nil, List.append_nil]
        exact ⟨_, h₁⟩
      · rw [(Prog.path_ofExcept h₃).1, List.append_nil]
        exact ⟨_, h₁⟩
    · exact ⟨_, h₁⟩
  obtain ⟨y, hy⟩ := hdata
  rcases Prog.path_tryBind hy with ⟨id, cs₁, cs₂, rfl, h₁, h₂⟩ | ⟨e, h₁, -⟩
  · obtain ⟨_, rfl, he⟩ := Prog.path_performE h₁
    cases he
    rcases Prog.path_tryBind h₂ with ⟨jwk, ks, cs₄, rfl, h₃, h₄⟩ | ⟨e, h₃, -⟩
    · have hx := Prog.path_mapError_ok h₃
      rcases Prog.path_tryBind h₄ with ⟨u, cs₅, cs₆, rfl, h₅, h₆⟩ | ⟨e, h₅, -⟩
      · obtain ⟨_, rfl, -⟩ := Prog.path_performE h₅
        obtain ⟨rfl, -⟩ := h₆.ret_inv
        exact ⟨id, ks, .ok jwk, rfl, hx⟩
      · obtain ⟨_, -, he⟩ := Prog.path_performE h₅
        cases he
    · obtain ⟨x, hx, hxe⟩ := Prog.path_mapError h₃
      cases x with
      | ok key => cases hxe
      | error e => exact ⟨id, cs₂, .error e, by rw [adoption, List.append_nil]; rfl, hx⟩
  · obtain ⟨_, -, he⟩ := Prog.path_performE h₁
    cases he

theorem mem_adoption {x : Except JwkError JwkData} {c : Call svc} :
    c ∈ adoption x ↔ ∃ key, x = .ok key ∧ c = ⟨.writeKeyId key.id, ()⟩ := by
  cases x <;> simp [adoption]

section GetPrivateKey

variable {ssl : OpenSsl} {alg : String} {r : Except KeyError (JwkData × ssl.PrivateKey)}

/-- Which answer decides about the key: that to a creation, or that to the
request for the current one. What is adopted is the key of this answer. -/
theorem getPrivateKey_decided (h : Prog.Path (KeyManager.getPrivateKey ssl alg) cs (.ret r)) :
    (∃ (a : String) (reply : HttpReply JwkData), (∀ a' reply', (⟨.createKey a', reply'⟩ : Call svc) ∈ cs ↔
        a' = a ∧ reply' = reply) ∧ ∀ id, Adopts cs id ↔ ∃ key, reply.parsed = .ok key ∧ id = key.id) ∨
      ∃ reply : HttpReply JwkData, (∀ a reply', (⟨.createKey a, reply'⟩ : Call svc) ∉ cs) ∧
        (∀ id reply', (⟨.getKey id, reply'⟩ : Call svc) ∈ cs → reply' = reply) ∧
        ∀ id, Adopts cs id ↔ ∃ key, reply.found = .ok key ∧ id = key.id := by
  obtain ⟨id₀, ks, x, rfl, hks⟩ := getPrivateKey_path h
  rcases privateKey_path hks with ⟨pre, a, reply, rfl, rfl, hpre⟩ | ⟨reply, rfl, rfl⟩
  · refine .inl ⟨a, reply, fun a' reply' => ?_, fun id => ?_⟩
    · have hnot : (⟨.createKey a', reply'⟩ : Call svc) ∉ pre := by
        intro hc
        obtain ⟨_, hc⟩ := hpre _ hc
        cases hc
      simp [hnot, mem_adoption]
    · have hnot : (⟨.writeKeyId id, ()⟩ : Call svc) ∉ pre := by
        intro hc
        obtain ⟨_, hc⟩ := hpre _ hc
        cases hc
      simp [Adopts, hnot, mem_adoption]
  · refine .inr ⟨reply, fun a reply' => ?_, fun id reply' => ?_, fun id => ?_⟩
    · simp [mem_adoption]
    · simp [mem_adoption]
    · simp [Adopts, mem_adoption]

/-- No key is adopted if and only if the body of the answer to the creation does
not parse. -/
theorem getPrivateKey_created_iff {a : String} (h : Prog.Path (KeyManager.getPrivateKey ssl alg) cs (.ret r))
    (hf : (⟨.createKey a, .response status key⟩ : Call svc) ∈ cs) : (∀ id, ¬ Adopts cs id) ↔ key = none := by
  rcases getPrivateKey_decided h with ⟨a', reply, hreply, hadopts⟩ | ⟨reply, hnone, -⟩
  · obtain ⟨-, rfl⟩ := (hreply _ _).mp hf
    cases key with
    | none =>
      refine iff_of_true (fun id hid => ?_) rfl
      obtain ⟨_, hparsed, -⟩ := (hadopts id).mp hid
      cases hparsed
    | some key => exact iff_of_false (fun hno => hno key.id ((hadopts _).mpr ⟨key, rfl, rfl⟩)) nofun
  · exact (hnone _ _ hf).elim

/-- What is adopted after an error answer to the request for the key was
created. -/
theorem getPrivateKey_got {id id' : String} (hs : ¬ (200 ≤ status ∧ status < 300))
    (h : Prog.Path (KeyManager.getPrivateKey ssl alg) cs (.ret r))
    (hf : (⟨.getKey id, .response status key⟩ : Call svc) ∈ cs) (hid : Adopts cs id') :
    ∃ (a : String) (status' : Nat) (key' : JwkData),
      (⟨.createKey a, .response status' (some key')⟩ : Call svc) ∈ cs ∧ id' = key'.id := by
  rcases getPrivateKey_decided h with ⟨a, reply, hreply, hadopts⟩ | ⟨reply, -, hgot, hadopts⟩
  · obtain ⟨key', hparsed, rfl⟩ := (hadopts id').mp hid
    rcases reply with _ | ⟨status', _ | _⟩ <;> cases hparsed
    exact ⟨a, status', key', (hreply _ _).mpr ⟨rfl, rfl⟩, rfl⟩
  · obtain rfl := hgot _ _ hf
    obtain ⟨key', hfound, -⟩ := (hadopts id').mp hid
    have herr := HttpReply.found_error (b := key) hs
    rw [hfound] at herr
    cases herr

end GetPrivateKey

/-! ## The law -/

/-- An error answer is not taken for data if and only if its body does not
parse: as a key set by `publicKeys`, a lookup and the probe, as a key by
`createKey` and the signer. The answer to `getKey` never is. -/
theorem error_answers_iff (s : JwkService) (ssl : OpenSsl) (t : JsonText)
    (h : ¬ (200 ≤ status ∧ status < 300)) (keys : Option Jwks) (key : Option JwkData) :
    ((∀ r, Prog.Path JwkService.publicKeys [⟨.fetchKeys, .response status keys⟩] (.ret r) → r.isOk = false) ↔
      keys = none) ∧
    (∀ kid cs r, Prog.Path (JwkService.publicKey kid) cs (.ret r) →
      (⟨.fetchKeys, .response status keys⟩ : Call svc) ∈ cs →
      ((∀ c ∈ cs, LeavesSnapshot s c) ∧ (⟨.cache .recordFailure, ()⟩ : Call svc) ∈ cs ↔ keys = none)) ∧
    (∀ cs resp, Prog.Path (readyz (redisClient t)) cs (.ret resp) →
      (⟨.fetchKeys, .response status keys⟩ : Call svc) ∈ cs → (¬ CountsLive resp ↔ keys = none)) ∧
    (∀ alg, (∀ r, Prog.Path (JwkService.createKey alg)
        [⟨.createKey (if alg = "EdDSA" then "Ed25519" else alg), .response status key⟩] (.ret r) →
        r.isOk = false) ↔ key = none) ∧
    (∀ alg cs r a, Prog.Path (KeyManager.getPrivateKey ssl alg) cs (.ret r) →
      (⟨.createKey a, .response status key⟩ : Call svc) ∈ cs → ((∀ id, ¬ Adopts cs id) ↔ key = none)) ∧
    ∀ alg cs r id id', Prog.Path (KeyManager.getPrivateKey ssl alg) cs (.ret r) →
      (⟨.getKey id, .response status key⟩ : Call svc) ∈ cs → Adopts cs id' →
      ∃ (a : String) (status' : Nat) (key' : JwkData),
        (⟨.createKey a, .response status' (some key')⟩ : Call svc) ∈ cs ∧ id' = key'.id := by
  refine ⟨publicKeys_error_iff, ?_, ?_, fun _ => createKey_error_iff, ?_, ?_⟩
  · intro kid cs r hp hf
    exact publicKey_error_iff s hp hf
  · intro cs resp hp hf
    exact readyz_error_iff t hp hf
  · intro alg cs r a hp hf
    exact getPrivateKey_created_iff hp hf
  · intro alg cs r id id' hp hf hid
    exact getPrivateKey_got h hp hf hid

/-- An empty answer with status 500 is no key set, and a key that comes with
status 500 is not adopted. -/
theorem error_answers_500 :
    (∀ r, Prog.Path JwkService.publicKeys [⟨.fetchKeys, .response 500 none⟩] (.ret r) → r.isOk = false) ∧
    ∀ id, ¬ Adopts [⟨.readKeyId, "key-1"⟩, ⟨.getKey "key-1", .response 500 (some echoKey)⟩] id := by
  obtain ⟨hkeys, -, -, -, -, hgot⟩ :=
    @error_answers_iff 500 ⟨300000, 10000, 10000⟩ echoSsl .compact (by decide) none (some echoKey)
  refine ⟨hkeys.mpr rfl, fun id hid => ?_⟩
  have hpath : Prog.Path (KeyManager.getPrivateKey echoSsl "RS256")
      [⟨.readKeyId, "key-1"⟩, ⟨.getKey "key-1", .response 500 (some echoKey)⟩] (.ret (.error .notFound)) :=
    .cons (.cons (.nil _))
  obtain ⟨a, status', key', hc, -⟩ := hgot "RS256" _ _ "key-1" id hpath (by simp) hid
  simp at hc

/-- A key set that comes with status 500 is one, it becomes the snapshot, and a
key that comes with status 500 is adopted. -/
theorem error_answer_with_keys :
    Prog.Path JwkService.publicKeys [⟨.fetchKeys, .response 500 (some ⟨[rs256Key]⟩)⟩]
      (.ret (.ok ⟨[rs256Key]⟩)) ∧
    Prog.Path (JwkService.publicKey "key-1")
      [⟨.cache (.lookupFresh "key-1"), none⟩, ⟨.lockRefresh, ()⟩, ⟨.cache (.lookupFresh "key-1"), none⟩,
        ⟨.cache .allowRefreshOnMiss, true⟩, ⟨.cache .recordAttempt, ()⟩,
        ⟨.fetchKeys, .response 500 (some ⟨[rs256Key]⟩)⟩, ⟨.cache (.store ⟨[rs256Key]⟩), ()⟩,
        ⟨.metric (.jwksCache "miss"), ()⟩, ⟨.unlockRefresh, ()⟩]
      (.ret (.ok rs256Key)) ∧
    Prog.Path (KeyManager.getPrivateKey echoSsl "RS256")
      [⟨.readKeyId, ""⟩, ⟨.createKey "RS256", .response 500 (some echoKey)⟩, ⟨.writeKeyId "key-1", ()⟩]
      (.ret (.ok (echoKey, ()))) :=
  ⟨.cons (.nil _), .cons (.cons (.cons (.cons (.cons (.cons (.cons (.cons (.cons (.nil _))))))))),
    .cons (.cons (.cons (.nil _)))⟩

end JwtService

import JwtService.Proof.Replay

/-!
# No handler runs unasked, and nothing changes without a code

Each call of a handler, at any endpoint and in any run, comes after the layers
of its endpoint have let the request through (`Admitted`): access control found
its credentials valid at an earlier moment of the run, the limiter of the
endpoint admitted it, and its code was not known to be used
(`handler_mediated`).

The endpoints that ask for no code only look: what is stored, the UUIDs that
were drawn and the current key change by a call of a request to an internal
endpoint alone, and that request has presented a code that was valid then
(`changes_need_code`).
-/

namespace JwtService

open Interaction

/-! ## What lets a request through -/

/-- The calls of the layers. -/
def Eff.ofLayers : Eff → Bool
  | .redis (.setNxEx ..) | .metric (.authDenied _) | .metric .rateLimited => true
  | _ => false

/-- The calls of the handlers. -/
def EdgeEff.ofHandler : EdgeEff → Bool
  | .svc e => !e.ofLayers
  | _ => false

/-- What a limiter is asked about a request. -/
def Strategy.asks (inc : Incoming) : Strategy → Option (LimiterRef × Option LimiterKey)
  | .disabled => none
  | .global l => some (l, none)
  | .perIp l => inc.clientIp.map fun ip => (l, some ip)

/-- The access level of each endpoint. -/
def Request.level : Request → AuthLevel
  | .verifyToken .. => .proxySecret
  | .livez | .readyz => .openAccess
  | _ => .totp

/-- The limit of each endpoint. -/
def Request.limit (cfg : EdgeConfig) : Request → Strategy
  | .verifyToken .. => RateLimit.perIp cfg.verifyLimiter
  | .livez | .readyz => .disabled
  | _ => RateLimit.global cfg.internalLimiter

/-- The code of the request was not found used: its reservation succeeded, or the
store could not answer it. -/
def Unused (cfg : EdgeConfig) (inc : Incoming) (level : AuthLevel) (h : List (Call edge)) : Prop :=
  level = .totp → cfg.auth.totpReplayProtection = true →
    ∀ hash ttl, cfg.auth.totpReplayClaim cfg.hmac inc.headers = some (hash, ttl) →
      ∃ r : Except Redis.Err Bool,
        (⟨.svc (.redis (.setNxEx (totpCodeKey hash) "1" ttl)), r⟩ : Call edge) ∈ h ∧ r ≠ .ok false

/-- The layers of its endpoint have let the request, whose calls are `h`, through. -/
structure Admitted (cfg : EdgeConfig) (inc : Incoming) (rq : Request) (h : List (Call edge)) : Prop where
  authorized : (⟨.authorize rq.level inc.headers, true⟩ : Call edge) ∈ h
  unused : Unused cfg inc rq.level h
  inLimit : ∀ l key, (rq.limit cfg).asks inc = some (l, key) → (⟨.check l key, none⟩ : Call edge) ∈ h

/-- What has happened before a call of a request: a call of the handler comes after
all its layers, a command to the store after access control at least. -/
structure Mediated (cfg : EdgeConfig) (inc : Incoming) (rq : Request) (h : List (Call edge)) (e : EdgeEff) :
    Prop where
  handler : e.ofHandler = true → Admitted cfg inc rq h
  redis : ∀ d, e = .svc (.redis d) → (⟨.authorize rq.level inc.headers, true⟩ : Call edge) ∈ h

section Layers

variable {cfg : EdgeConfig} {env : Env} {libs : Libs} {inc : Incoming} {rq : Request} {t : JsonText}
  {h h' : List (Call edge)} {α : Type}

theorem Unused.mono {level : AuthLevel} (hu : Unused cfg inc level h) (hs : h ⊆ h') :
    Unused cfg inc level h' := fun hl hp hash ttl hc => by
  obtain ⟨r, hr, hne⟩ := hu hl hp hash ttl hc
  exact ⟨r, hs hr, hne⟩

theorem Admitted.mono (ha : Admitted cfg inc rq h) (hs : h ⊆ h') : Admitted cfg inc rq h' :=
  ⟨hs ha.authorized, ha.unused.mono hs, fun l key hl => hs (ha.inLimit l key hl)⟩

variable {R : List (Call edge) → EdgeEff → Prop} {Q : List (Call edge) → α → Prop}

/-- An embedded program, from what holds of its own calls. -/
theorem wp_embed {p : M α} (hp : Prog.wp (fun cs e => R (h ++ cs.map svcCall) (.svc e)) [] p
      fun cs a => Q (h ++ cs.map svcCall) a) : Prog.wp R h (embed p) Q := by
  suffices hs : ∀ (p : M α) (cs : Calls), Prog.wp (fun cs e => R (h ++ cs.map svcCall) (.svc e)) cs p
      (fun cs a => Q (h ++ cs.map svcCall) a) → Prog.wp R (h ++ cs.map svcCall) (embed p) Q by
    have hembed := hs p [] hp
    rwa [List.map_nil, List.append_nil] at hembed
  intro p
  induction p with
  | ret a => exact fun _ hp => hp
  | call e k ih =>
    refine fun cs hp => ⟨hp.1, fun r => ?_⟩
    have hnext := ih r _ (hp.2 r)
    rwa [List.map_append, ← List.append_assoc] at hnext

/-- A code is let through if its reservation was not refused. -/
theorem wp_claimCode_unused {claim : Option (String × Nat)} :
    Prog.wp (fun _ e => Eff.ofLayers e = true ∧ claim.isSome = true) []
      (claimCode (redisClient t) claim) fun cs first =>
      first = true → ∀ hash ttl, claim = some (hash, ttl) → ∃ r : Except Redis.Err Bool,
        (⟨.redis (.setNxEx (totpCodeKey hash) "1" ttl), r⟩ : Call svc) ∈ cs ∧ r ≠ .ok false := by
  rcases claim with _ | ⟨hash, ttl⟩
  · intro _ hash ttl hc
    cases hc
  · have hstore : Prog.wp (fun _ e => Eff.ofLayers e = true ∧ (some (hash, ttl)).isSome = true) []
        (RedisClient.claimTotpCode hash ttl) fun cs r => r ≠ .ok false → ∃ x : Except Redis.Err Bool,
          (⟨.redis (.setNxEx (totpCodeKey hash) "1" ttl), x⟩ : Call svc) ∈ cs ∧ x ≠ .ok false := by
      rw [RedisClient.claimTotpCode, wp_run]
      refine ⟨⟨rfl, rfl⟩, fun b hb => ⟨.ok b, List.mem_singleton_self _, fun hf => ?_⟩, fun e _ => ⟨.error e,
        List.mem_singleton_self _, by simp⟩⟩
      cases hf
      exact hb rfl
    refine (Prog.wp_bind _ _ _).mpr (Prog.wp_imp hstore fun cs r hr => ?_)
    cases r with
    | ok b =>
      rintro rfl hash ttl hc
      cases hc
      exact hr (by simp)
    | error e =>
      intro _ hash ttl hc
      cases hc
      exact hr (by simp)

section

variable {service : E HttpResponse} {Q : List (Call edge) → HttpResponse → Prop} {level : AuthLevel}
  (hR : ∀ h e, e.ofHandler = false → (∀ d, e = .svc (.redis d) →
    (⟨.authorize level inc.headers, true⟩ : Call edge) ∈ h) → R h e)

include hR

theorem wp_rateLimit {strategy : Strategy} (hs : ∀ h', h ⊆ h' →
      (∀ l key, strategy.asks inc = some (l, key) → (⟨.check l key, none⟩ : Call edge) ∈ h') →
      Prog.wp R h' service Q)
    (hdeny : ∀ h', Q h' ⟨429, .error "Too Many Requests"⟩) :
    Prog.wp R h (RateLimit.call strategy inc service) Q := by
  have hcheck : Prog.wp R h (strategy.check inc) fun h' limited => limited = none → h ⊆ h' ∧
      ∀ l key, strategy.asks inc = some (l, key) → (⟨.check l key, none⟩ : Call edge) ∈ h' := by
    have hasked : ∀ l key, Prog.wp R h (callEdge (.check l key)) fun h' limited => limited = none →
        h ⊆ h' ∧ ∀ l' key', some (l, key) = some (l', key') → (⟨.check l' key', none⟩ : Call edge) ∈ h' := by
      refine fun l key => ⟨hR _ _ rfl (fun d hd => by cases hd), fun r hr => ⟨List.subset_append_left _ _, fun l' key' he => ?_⟩⟩
      cases he
      rw [show r = none from hr]
      exact List.mem_append_right _ (List.mem_singleton_self _)
    cases strategy with
    | disabled => exact fun _ => ⟨List.Subset.refl _, fun _ _ hn => by cases hn⟩
    | global l => exact hasked l none
    | perIp l =>
      unfold Strategy.check Strategy.asks
      cases inc.clientIp with
      | none => exact fun _ => ⟨List.Subset.refl _, fun _ _ hn => by cases hn⟩
      | some ip => exact hasked l (some ip)
  refine (Prog.wp_bind _ _ _).mpr (Prog.wp_imp hcheck fun h' limited hl => ?_)
  cases limited with
  | none => exact hs h' (hl rfl).1 (hl rfl).2
  | some secs => exact ⟨hR _ _ rfl (fun d hd => by cases hd), fun _ => hdeny _⟩

theorem wp_auth (hs : ∀ h', h ⊆ h' →
      (⟨.authorize level inc.headers, true⟩ : Call edge) ∈ h' → Unused cfg inc level h' →
      Prog.wp R h' service Q)
    (hdeny : ∀ h', Q h' ⟨401, .error "Unauthorized"⟩) :
    Prog.wp R h (Auth.call cfg.hmac cfg.auth (redisClient t) level inc service) Q := by
  refine ⟨hR _ _ rfl (fun d hd => by cases hd), fun authorized => ?_⟩
  have hclaim : Prog.wp R (h ++ [⟨.authorize level inc.headers, authorized⟩])
      (embed (claimCode (redisClient t) (Auth.replayClaim cfg.hmac cfg.auth level authorized inc)))
      fun h' first => h ++ [⟨.authorize level inc.headers, authorized⟩] ⊆ h' ∧
        (authorized = true → first = true → Unused cfg inc level h') := by
    refine wp_embed (Prog.wp_mono (fun cs e he => hR _ (.svc e) (by rw [EdgeEff.ofHandler, he.1]; rfl)
      fun d _ => ?_) (fun cs first hfirst => ⟨List.subset_append_left _ _, fun ha hf hl hp hash ttl hc => ?_⟩)
      wp_claimCode_unused)
    · -- There is a reservation only if access control was answered true.
      have ha : authorized = true := by
        cases authorized with
        | true => rfl
        | false => exact absurd he.2 (by simp [Auth.replayClaim])
      rw [ha]
      exact List.mem_append_left _ (List.mem_append_right _ (List.mem_singleton_self _))
    obtain ⟨r, hr, hne⟩ := hfirst hf hash ttl (by simp [Auth.replayClaim, ha, hl, hp, hc])
    exact ⟨r, List.mem_append_right _ (List.mem_map_of_mem hr), hne⟩
  show Prog.wp R _ (embed _ >>= fun first : Bool => if authorized && first then service else
    Auth.deny level) Q
  refine (Prog.wp_bind _ _ _).mpr (Prog.wp_imp hclaim fun h' first hfirst => ?_)
  obtain ⟨hsub, hunused⟩ := hfirst
  by_cases hboth : (authorized && first) = true
  · obtain ⟨rfl, rfl⟩ := Bool.and_eq_true_iff.mp hboth
    exact hs h' (fun c hc => hsub (List.mem_append_left _ hc))
      (hsub (List.mem_append_right _ (List.mem_singleton_self _))) (hunused rfl rfl)
  · rw [if_neg hboth]
    exact ⟨hR _ _ rfl (fun d hd => by cases hd), fun _ => hdeny _⟩

end

/-- No call of a handler comes before its layers are passed, whatever the calls
are answered. -/
theorem api_mediated : Prog.wp (Mediated cfg inc rq) [] (api cfg env libs (redisClient t) inc rq)
    fun h resp => Admitted cfg inc rq h ∨ resp = ⟨401, .error "Unauthorized"⟩ ∨
      resp = ⟨429, .error "Too Many Requests"⟩ := by
  have hR : ∀ (h : List (Call edge)) (e : EdgeEff), e.ofHandler = false → (∀ d, e = .svc (.redis d) →
      (⟨.authorize rq.level inc.headers, true⟩ : Call edge) ∈ h) → Mediated cfg inc rq h e := fun h e he hd =>
    ⟨fun hh => absurd (he.symm.trans hh) Bool.false_ne_true, hd⟩
  have hhandle : ∀ h, Admitted cfg inc rq h → Prog.wp (Mediated cfg inc rq) h
      (embed (handle env libs (redisClient t) rq)) fun h resp => Admitted cfg inc rq h ∨
        resp = ⟨401, .error "Unauthorized"⟩ ∨ resp = ⟨429, .error "Too Many Requests"⟩ := fun h ha =>
    Prog.wp_imp ((Prog.only_true _).maintains (fun h e hi _ => ⟨fun _ => hi, fun _ _ => hi.authorized⟩)
      (fun h e r hi _ => hi.mono (List.subset_append_left _ _)) h ha) fun _ _ hi => .inl hi
  cases hi : rq.internal with
  | true =>
    obtain ⟨hlevel, hlimit⟩ : rq.level = .totp ∧ rq.limit cfg = RateLimit.global cfg.internalLimiter := by
      cases rq <;> first | exact ⟨rfl, rfl⟩ | cases hi
    rw [api_internal hi, ← hlevel, ← hlimit]
    exact wp_auth hR (fun h _ ha hu => wp_rateLimit hR (fun h' hs hl => hhandle h' ⟨hs ha, hu.mono hs, hl⟩)
      fun _ => .inr (.inr rfl)) fun _ => .inr (.inl rfl)
  | false =>
    cases rq with
    | verifyToken host vr =>
      rw [api_verify]
      exact wp_rateLimit hR (fun h _ hl => wp_auth hR (fun h' hs ha hu => hhandle h' ⟨ha, hu,
        fun l key he => hs (hl l key he)⟩) fun _ => .inr (.inl rfl)) fun _ => .inr (.inr rfl)
    | livez | readyz =>
      exact wp_auth hR (fun h _ ha hu => hhandle h ⟨ha, hu, fun l key he => by cases he⟩)
        fun _ => .inr (.inl rfl)
    | _ => cases hi

end Layers

/-! ## What may change -/

/-- The calls that may change what is stored, which UUIDs were drawn or the current
key, here or at the key service. -/
def Eff.alters : Eff → Bool
  | .redis c => !c.writes.isEmpty
  | .newUuid | .writeKeyId _ | .createKey _ => true
  | _ => false

theorem call_not_alters {s : JwkService} {w w' : World} {e : Eff} {r : e.Reply} (he : e.alters = false)
    (hs : (service s).call w e r w') : w'.db = w.db ∧ w'.drawn = w.drawn ∧ w'.keyId = w.keyId := by
  have hdb : w'.db = w.db := funext fun k => call_of_not_writes hs fun c hc => by
    subst hc
    have hnone : c.writes = [] := by simpa [Eff.alters] using he
    rw [hnone]
    exact List.not_mem_nil
  cases e with
  | redis c => rcases call_redis hs with ⟨rfl, -⟩ | ⟨rfl, -⟩ <;> exact ⟨hdb, rfl, rfl⟩
  | cache op =>
    obtain ⟨-, rfl⟩ := call_cache hs
    exact ⟨hdb, rfl, rfl⟩
  | lockRefresh =>
    obtain ⟨-, rfl⟩ := call_lockRefresh hs
    exact ⟨hdb, rfl, rfl⟩
  | panic msg => exact r.elim
  | newUuid | writeKeyId id | createKey alg => cases he
  | _ =>
    obtain ⟨c, hc⟩ := hs
    cases c <;> cases hc
    exact ⟨hdb, rfl, rfl⟩

/-- The endpoints that ask for no code only look. -/
theorem only_looks {env : Env} {libs : Libs} {rq : Request} (hl : rq.level ≠ .totp) :
    @Prog.Only svc _ (fun e => Eff.alters e = false) (handle env libs (redisClient libs.json) rq) := by
  cases rq with
  | verifyToken host req =>
    refine only_verify (fun kid => ?_) rfl (fun _ => rfl) fun _ => rfl
    exact Prog.Only.mono (fun e he => by cases e <;> first | rfl | cases he) (JwkService.looksUp_publicKey kid)
  | livez => trivial
  | readyz =>
    refine Prog.only_bind (only_run rfl) fun r => ?_
    refine Prog.only_bind (KeyManager.only_checkJwks rfl) fun r => ?_
    refine Prog.only_bind ?_ fun _ => trivial
    unfold snapshotServes
    split
    · trivial
    · exact ⟨rfl, fun _ => trivial⟩
  | _ => exact absurd rfl hl

def EdgeEff.Looks : EdgeEff → Prop
  | .svc e => e.alters = false
  | _ => True

section

variable {cfg : EdgeConfig} {env : Env} {libs : Libs} {store : JtiStore} {inc : Incoming} {rq : Request}

theorem looks_embed {α : Type} {p : M α} (hp : @Prog.Only svc α (fun e => Eff.alters e = false) p) :
    @Prog.Only edge α EdgeEff.Looks (embed p) := by
  induction p with
  | ret a => trivial
  | call e k ih => exact ⟨hp.1, fun r => ih r (hp.2 r)⟩

/-- Access control that asks for no code reserves none. -/
theorem looks_auth {level : AuthLevel} (hl : level ≠ .totp) {service : E HttpResponse}
    (hs : @Prog.Only edge _ EdgeEff.Looks service) :
    @Prog.Only edge _ EdgeEff.Looks (Auth.call cfg.hmac cfg.auth store level inc service) := by
  refine ⟨trivial, fun authorized => ?_⟩
  have hnone : Auth.replayClaim cfg.hmac cfg.auth level authorized inc = none := by
    cases level <;> simp [Auth.replayClaim] at hl ⊢
  show @Prog.Only edge _ EdgeEff.Looks (embed (claimCode store (Auth.replayClaim cfg.hmac cfg.auth level
    authorized inc)) >>= fun first : Bool => if authorized && first then service else Auth.deny level)
  rw [hnone]
  show @Prog.Only edge _ EdgeEff.Looks (if authorized && true then service else Auth.deny level)
  split
  · exact hs
  · exact ⟨rfl, fun _ => trivial⟩

theorem api_looks (hl : rq.level ≠ .totp) :
    @Prog.Only edge _ EdgeEff.Looks (api cfg env libs (redisClient libs.json) inc rq) := by
  have hhandle := looks_embed (@only_looks env libs rq hl)
  cases rq with
  | verifyToken host vr =>
    refine Prog.only_bind (p := Strategy.check inc _) ?_ fun limited => ?_
    · unfold Strategy.check
      split
      · trivial
      · exact ⟨trivial, fun _ => trivial⟩
      · split
        · exact ⟨trivial, fun _ => trivial⟩
        · trivial
    · cases limited with
      | none => exact looks_auth (by decide) hhandle
      | some secs => exact ⟨rfl, fun _ => trivial⟩
  | livez | readyz => exact looks_auth (by decide) hhandle
  | _ => exact absurd rfl hl

end

/-! ## In every run -/

section Runs

variable {ι : Type} {g : Governor} {cfg : EdgeConfig} {env : Env} {libs : Libs} {inc : ι → Incoming}
  {req : ι → Request} {w : EdgeWorld g.State} {s : JwkService} {tr : List (Event edge ι (Nat × Nat))}
  {P P' : Pool edge (EdgeWorld g.State) ι HttpResponse}

/-- At an earlier moment access control has found the credentials of the request
valid. -/
def Vouched (S : System edge (EdgeWorld g.State) (Nat × Nat)) (cfg : EdgeConfig) (inc : Incoming)
    (rq : Request) (w : EdgeWorld g.State) (tr : List (Event edge ι (Nat × Nat))) (i : ι) : Prop :=
  ∃ t₁ t₂ v, tr = t₁ ++ .call i ⟨.authorize rq.level inc.headers, true⟩ :: t₂ ∧ S.Trace w t₁ v ∧
    cfg.auth.authorize cfg.hmac rq.level inc.headers (timestamp v.world.now) = true

variable [DecidableEq ι]

theorem vouched {i : ι} (hr : (layered g cfg (service s)).Run (arrivals w cfg env libs inc req) tr P)
    (hm : (⟨.authorize (req i).level (inc i).headers, true⟩ : Call edge) ∈ callsOf i tr) :
    Vouched (layered g cfg (service s)) cfg (inc i) (req i) w tr i := by
  obtain ⟨t₁, t₂, rfl⟩ := List.append_of_mem (mem_callsOf.mp hm)
  obtain ⟨Q, Q', h₁, hs, -⟩ := hr.split_at
  cases hs with
  | call _ hc => exact ⟨t₁, t₂, Q.st, rfl, h₁.trace, hc.1.symm⟩

/-- What has happened before the next call of a request. -/
theorem mediated_next {i : ι} {e : EdgeEff} {k : e.Reply → E HttpResponse}
    (hr : (layered g cfg (service s)).Run (arrivals w cfg env libs inc req) tr P)
    (hp : P.prog i = .call e k) : Mediated cfg (inc i) (req i) (callsOf i tr) e := by
  have hpath := hr.path i
  rw [hp] at hpath
  exact hpath.wp_call api_mediated

/-- What is stored, the UUIDs drawn and the current key change, and a key is
created, by a call of a request to an internal endpoint alone, whose code was
valid at an earlier moment; and unless the call reserves that code, all layers
of the endpoint have let the request through. -/
theorem changes_need_code {ev : Event edge ι (Nat × Nat)}
    (hr : (layered g cfg (service s)).Run (arrivals w cfg env libs inc req) tr P)
    (hs : (layered g cfg (service s)).Step P ev P') :
    (P'.st.world.db = P.st.world.db ∧ P'.st.world.drawn = P.st.world.drawn ∧
      P'.st.world.keyId = P.st.world.keyId ∧ ∀ i alg r, ev ≠ .call i ⟨.svc (.createKey alg), r⟩) ∨
    ∃ i c, ev = .call i c ∧ (req i).level = .totp ∧
      Vouched (layered g cfg (service s)) cfg (inc i) (req i) w tr i ∧
      (c.eff.ofHandler = true → Admitted cfg (inc i) (req i) (callsOf i tr)) := by
  cases hs with
  | env hs =>
    obtain ⟨hw, -⟩ := hs
    rw [show _ = World.tick _ _ from hw]
    exact .inl ⟨rfl, rfl, rfl, fun _ _ _ he => by cases he⟩
  | @call i e k r v hp hs =>
    cases e with
    | authorize level headers =>
      obtain ⟨-, rfl⟩ := hs
      exact .inl ⟨rfl, rfl, rfl, fun _ _ _ he => by cases he⟩
    | check l key =>
      obtain ⟨-, rfl⟩ := hs
      exact .inl ⟨rfl, rfl, rfl, fun _ _ _ he => by cases he⟩
    | svc e =>
      cases ha : e.alters with
      | false =>
        obtain ⟨hdb, hdrawn, hkey⟩ := call_not_alters ha hs.1
        refine .inl ⟨hdb, hdrawn, hkey, fun _ _ _ he => ?_⟩
        cases he
        cases ha
      | true =>
        have hlevel : (req i).level = .totp := by
          by_contra hl
          have hpath := hr.path i
          rw [hp] at hpath
          exact absurd ((api_looks hl).stop hpath) (by simp [EdgeEff.Looks, ha])
        have hm := mediated_next hr hp
        have hauth : (⟨.authorize (req i).level (inc i).headers, true⟩ : Call edge) ∈ callsOf i tr := by
          cases e with
          | redis d => exact hm.redis d rfl
          | newUuid | writeKeyId | createKey => exact (hm.handler rfl).authorized
          | _ => cases ha
        exact .inr ⟨i, _, rfl, hlevel, vouched hr hauth, hm.handler⟩

end Runs

/-! ## A run -/

/-- Replay protection and an internal limiter. -/
def guardedConfig : EdgeConfig := { replayConfig with internalLimiter := some ⟨⟨0⟩⟩ }

/-- An issue that creates the first key: its code is checked and reserved, the
limiter asked, and no key is known. -/
def creation : List (Event edge Bool (Nat × Nat)) :=
  [.call false ⟨.authorize .totp withVector.headers, true⟩,
    .call false ⟨.svc (.redis vectorClaim), .ok true⟩,
    .call false ⟨.check ⟨0⟩ none, none⟩,
    .call false ⟨.svc .readKeyId, ""⟩]

theorem creation_run : ∃ P, (layered (gcra ⟨1000000000, 1⟩) guardedConfig (service agedService)).Run
    (arrivals (cappedWorld 1) guardedConfig bareEnv echoLibs (fun _ => withVector) issueOrRevoke)
    (creation ++ [.call false ⟨.svc (.createKey "RS256"), .unreachable⟩]) P := by
  obtain ⟨P, hplay⟩ : ∃ P, System.play (EdgeWorld.act guardedConfig agedService)
    (fun v l => some (v.pass l)) (fun _ _ => true) [.call false .plain, .call false (.redis .answered),
      .call false .plain, .call false .plain, .call false (.key .unreachable)]
      (arrivals (cappedWorld 1) guardedConfig bareEnv echoLibs (fun _ => withVector) issueOrRevoke) =
      some (creation ++ [.call false ⟨.svc (.createKey "RS256"), .unreachable⟩], P) := ⟨_, rfl⟩
  exact ⟨P, playEdge_run hplay⟩

theorem changes_need_code_creation : ∃ (P : Pool edge (EdgeWorld (gcra ⟨1000000000, 1⟩).State) Bool HttpResponse),
    (layered (gcra ⟨1000000000, 1⟩) guardedConfig (service agedService)).Run
      (arrivals (cappedWorld 1) guardedConfig bareEnv echoLibs (fun _ => withVector) issueOrRevoke) creation P ∧
    Vouched (layered (gcra ⟨1000000000, 1⟩) guardedConfig (service agedService)) guardedConfig withVector
      (issueOrRevoke false) (cappedWorld 1) creation false := by
  obtain ⟨P, hr⟩ := creation_run
  obtain ⟨Q, Q', h₁, hs, -⟩ := hr.split_at
  obtain ⟨i, c, he, -, hv, -⟩ := (changes_need_code h₁ hs).resolve_left fun h => h.2.2.2 _ _ _ rfl
  cases he
  exact ⟨Q, h₁, hv⟩

end JwtService

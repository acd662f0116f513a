import JwtService.Proof.Replay

/-!
# A request behind a reservation that failed

A request whose TOTP code could not be reserved is let through. Its handler
makes its store commands one after the other and stops at the first that fails
(`Strict`), and it makes at least one before it answers with success
(`Commands`). So such a request achieves nothing while the store stays down
(`failed_open_needs_store`), and does all it asks for where the store is back
for its next commands (`failed_open_once`).
-/

namespace JwtService

open Interaction Redis

/-! ## Handlers stop at a command that fails -/

/-- No store command has failed. -/
def Unfailed (h : Calls) : Prop :=
  ∀ (c : Cmd) (e : Redis.Err), (⟨.redis c, .error e⟩ : Call svc) ∉ h

/-- A store command is made where none has failed. -/
def AtUnfailed (h : Calls) (e : Eff) : Prop := (∃ c, e = .redis c) → Unfailed h

theorem unfailed_append {h₁ h₂ : Calls} : Unfailed (h₁ ++ h₂) ↔ Unfailed h₁ ∧ Unfailed h₂ := by
  simp only [Unfailed, List.mem_append, not_or, forall_and]

theorem Unfailed.quiet {h : Calls} (hu : Unfailed h) {e : Eff} (r : e.Reply)
    (he : ∀ c, e ≠ .redis c) : Unfailed (h ++ [⟨e, r⟩]) := by
  refine unfailed_append.mpr ⟨hu, fun c err hm => ?_⟩
  cases List.mem_singleton.mp hm
  exact he c rfl

theorem Unfailed.answered {h : Calls} (hu : Unfailed h) (c : Cmd) (a : c.Reply) :
    Unfailed (h ++ [⟨.redis c, .ok a⟩]) := by
  refine unfailed_append.mpr ⟨hu, fun c err hm => ?_⟩
  cases List.mem_singleton.mp hm

section Strict

variable {ε α β : Type}

/-- The program makes no store command after one that failed, and succeeds only
where none has failed. -/
def Strict (p : M (Except ε α)) : Prop :=
  ∀ h, Unfailed h → Prog.wp AtUnfailed h p fun h' r => (∃ a, r = .ok a) → Unfailed h'

theorem strict_tryBind {x : ExceptT ε M α} {f : α → ExceptT ε M β} (hx : Strict (x : M (Except ε α)))
    (hf : ∀ a, Strict (f a : M (Except ε β))) : Strict (x >>= f : ExceptT ε M β) := by
  intro h hu
  rw [Prog.wp_tryBind]
  refine Prog.wp_imp (hx h hu) fun h' r hr => ?_
  cases r with
  | ok a => exact hf a h' (hr ⟨a, rfl⟩)
  | error e => exact nofun

theorem strict_mapError {ε' : Type} {f : ε → ε'} {p : M (Except ε α)} (hp : Strict p) :
    Strict (Prog.mapError f p) := by
  intro h hu
  rw [Prog.wp_mapError]
  refine Prog.wp_imp (hp h hu) fun h' r hr => ?_
  cases r with
  | ok a => exact fun _ => hr ⟨a, rfl⟩
  | error e => exact nofun

theorem strict_ofExcept (x : Except ε α) : Strict (Prog.ofExcept x : ExceptT ε M α) :=
  fun _ hu _ => hu

theorem strict_run (c : Cmd) : Strict (RedisClient.run c) := by
  intro h hu
  rw [wp_run]
  exact ⟨fun _ => hu, fun a _ => hu.answered c a, fun _ => nofun⟩

/-- A program without store commands. -/
theorem strict_quiet {p : M (Except ε α)} (hp : @Prog.Only svc _ (fun e => ∀ c, e ≠ .redis c) p) :
    Strict p := by
  intro h hu
  refine Prog.Only.wp hp (fun cs e hcs he => fun ⟨c, hc⟩ => absurd hc (he c)) fun cs r hcs _ =>
    unfailed_append.mpr ⟨hu, fun c err hm => hcs _ hm c rfl⟩

theorem Quiet.strict {p : M (Except ε α)} (hp : Quiet p) : Strict p :=
  strict_quiet (Prog.Only.mono (fun e he c hc => by rw [hc] at he; cases he) hp)

theorem strict_callE {e : Eff} (he : ∀ c, e ≠ .redis c) : Strict (callE e : M (Except ε e.Reply)) :=
  strict_quiet ⟨he, fun _ => trivial⟩

theorem strict_addToGroup (g m : String) (score : Int) : Strict (RedisClient.addToGroup g m score) :=
  strict_tryBind (strict_run _) fun _ => strict_run _

theorem strict_revokeGroup (g : String) : Strict (RedisClient.revokeGroup g) := by
  refine strict_tryBind (strict_callE nofun) fun now => ?_
  refine strict_tryBind (strict_run _) fun _ => strict_tryBind (strict_run _) fun ms => ?_
  refine strict_tryBind ?_ fun _ => strict_tryBind (strict_run _) fun _ => strict_ofExcept (.ok _)
  show Strict (ite _ _ _)
  split
  · exact strict_ofExcept (.ok ())
  · exact strict_run _

/-- A token is verified only where the store has answered. -/
theorem isVerify_strict {t : JsonText} {claims : TokenClaims} {issuer audience : String} {h : Calls}
    (hu : Unfailed h) : Prog.wp AtUnfailed h (claims.isVerify (redisClient t) issuer audience)
      fun h' b => b = true → Unfailed h' := by
  unfold TokenClaims.isVerify
  rw [wp_call_bind]
  refine ⟨nofun, fun now => ?_⟩
  have hu' := hu.quiet (e := .utcNow) now nofun
  split
  · refine (Prog.wp_bind _ _ _).mpr (Prog.wp_imp (strict_run _ _ hu') fun h' r hr => ?_)
    cases r with
    | ok b => exact fun _ => hr ⟨b, rfl⟩
    | error e => exact nofun
  · exact fun _ => hu'

section

variable {env : Env} {libs : Libs}

theorem strict_createNew (issuer subject : String) (audience : List String) (ttl : Option Nat)
    (extra : List (String × Json)) : Strict (TokenClaims.createNew env libs.json
      (redisClient libs.json) issuer subject audience ttl extra) := by
  refine strict_tryBind (strict_ofExcept _) fun _ => strict_tryBind (strict_ofExcept _) fun seconds => ?_
  cases audience with
  | nil => exact strict_ofExcept (.error _)
  | cons firstAudience rest =>
    refine strict_tryBind (strict_callE nofun) fun now => ?_
    cases chronoAdd now (asI64 seconds) with
    | none => exact (quiet_panic _).strict
    | some exp =>
      refine strict_tryBind (strict_callE nofun) fun jti => ?_
      refine strict_tryBind (strict_mapError (strict_run _)) fun _ => ?_
      refine strict_tryBind (strict_mapError (strict_addToGroup _ _ _)) fun _ h hu => ?_
      rw [Prog.wp_tryBind, Prog.wp_liftE]
      refine Prog.wp_imp (isVerify_strict hu) fun h' b hb => ?_
      cases b with
      | true => exact fun _ => hb rfl
      | false => exact nofun

theorem strict_generateToken (issuer subject : String) (audience : List String) (ttl : Option Nat)
    (extra : List (String × Json)) : Strict (JwtManager.generateToken env libs
      (redisClient libs.json) issuer subject audience ttl extra) := by
  refine strict_tryBind (strict_mapError (KeyManager.quiet_getPrivateKey _ _).strict) fun key => ?_
  exact strict_tryBind (strict_createNew issuer subject audience ttl extra) fun _ => strict_ofExcept _

theorem strict_registerAccess (access family : String) :
    Strict (JwtManager.registerAccessInFamily libs (redisClient libs.json) access family) :=
  strict_tryBind (strict_ofExcept _) fun _ => strict_mapError (strict_addToGroup _ _ _)

theorem strict_issueRefresh (subject : String) (audience : List String) (family : String) :
    Strict (JwtManager.issueRefresh env (redisClient libs.json) subject audience family) := by
  refine strict_tryBind (strict_callE (by simp)) fun id => ?_
  refine strict_tryBind (strict_mapError ?_) fun _ => strict_tryBind (strict_callE (by simp)) fun now => ?_
  · simp only [redisClient, RedisClient.storeRefresh]
    split
    · exact strict_ofExcept (.error _)
    · exact strict_tryBind (strict_run _) fun _ => strict_run _
  · exact strict_tryBind (strict_mapError (strict_addToGroup _ _ _)) fun _ => strict_ofExcept (.ok _)

theorem strict_issuePair (issuer subject : String) (audience : List String) (ttl : Option Nat)
    (extra : List (String × Json)) (family : String) :
    Strict (issuePair env libs issuer subject audience ttl extra family) := by
  refine strict_tryBind (strict_generateToken issuer subject audience ttl extra) fun access => ?_
  refine strict_tryBind (strict_registerAccess access family) fun _ => ?_
  exact strict_tryBind (strict_issueRefresh subject audience family) fun _ => strict_ofExcept (.ok _)

theorem strict_issue (host : String) (req : TokenRequest) :
    Strict (issue env libs (redisClient libs.json) host req) := by
  show Strict (ite _ _ _)
  split
  · refine strict_tryBind (strict_tryBind (strict_callE nofun) fun family =>
      strict_issuePair host req.sub req.aud req.ttl req.claims family) fun _ => strict_ofExcept (.ok _)
  · exact strict_tryBind (strict_generateToken host req.sub req.aud req.ttl req.claims) fun _ =>
      strict_ofExcept (.ok _)

theorem strict_refreshTokenPair (token issuer : String) :
    Strict (JwtManager.refreshTokenPair env libs (redisClient libs.json) token issuer) := by
  refine strict_tryBind (strict_mapError ?_) fun record => ?_
  · refine strict_tryBind (strict_run _) fun fs => ?_
    show Strict (ite _ _ _)
    split <;> exact strict_ofExcept (.ok _)
  · cases record with
    | none => exact strict_ofExcept (.error _)
    | some record =>
      refine strict_tryBind (strict_mapError (strict_run _)) fun first => ?_
      cases first with
      | false => exact strict_tryBind (strict_mapError (strict_revokeGroup _)) fun _ =>
          strict_ofExcept (.error _)
      | true =>
        exact strict_issuePair issuer record.subject record.audience none [] record.family

end

end Strict

/-! ## A success takes a store command -/

section Commands

variable {ε α β : Type}

/-- A store command was made. -/
def Commanded (h : Calls) : Prop := ∃ (c : Cmd) (r : Except Redis.Err c.Reply),
  (⟨.redis c, r⟩ : Call svc) ∈ h

/-- The program makes a store command before it succeeds. -/
def Commands (p : M (Except ε α)) : Prop := ∀ cs a, Prog.Path p cs (.ret (.ok a)) → Commanded cs

theorem commands_first {x : ExceptT ε M α} {f : α → ExceptT ε M β}
    (hx : Commands (x : M (Except ε α))) : Commands (x >>= f : ExceptT ε M β) := by
  intro cs b hp
  obtain ⟨a, cs₁, cs₂, rfl, h₁, -⟩ := Prog.path_tryBind_ok hp
  obtain ⟨c, r, hm⟩ := hx cs₁ a h₁
  exact ⟨c, r, List.mem_append_left _ hm⟩

theorem commands_then {x : ExceptT ε M α} {f : α → ExceptT ε M β}
    (hf : ∀ a, Commands (f a : M (Except ε β))) : Commands (x >>= f : ExceptT ε M β) := by
  intro cs b hp
  obtain ⟨a, cs₁, cs₂, rfl, -, h₂⟩ := Prog.path_tryBind_ok hp
  obtain ⟨c, r, hm⟩ := hf a cs₂ b h₂
  exact ⟨c, r, List.mem_append_right _ hm⟩

theorem commands_mapError {ε' : Type} {f : ε → ε'} {p : M (Except ε α)} (hp : Commands p) :
    Commands (Prog.mapError f p) := fun cs a h => hp cs a (Prog.path_mapError_ok h)

theorem commands_run (c : Cmd) : Commands (RedisClient.run c) := by
  refine commands_mapError fun cs a h => ?_
  cases h with
  | cons h =>
    obtain ⟨rfl, -⟩ := h.ret_inv
    exact ⟨c, _, List.mem_cons_self⟩

theorem commands_throw (e : ε) : Commands (throw e : ExceptT ε M α) :=
  fun _ _ h => (Prog.path_throw_ok h).elim

variable {env : Env} {libs : Libs}

theorem commands_generateToken (issuer subject : String) (audience : List String) (ttl : Option Nat)
    (extra : List (String × Json)) : Commands (JwtManager.generateToken env libs
      (redisClient libs.json) issuer subject audience ttl extra) := by
  refine commands_then fun key => commands_first (commands_then fun _ => commands_then fun seconds => ?_)
  cases audience with
  | nil => exact commands_throw _
  | cons firstAudience rest =>
    refine commands_then fun now => ?_
    cases chronoAdd now (asI64 seconds) with
    | none => exact fun _ _ h => by cases h with | @cons _ _ r _ _ _ => exact r.elim
    | some exp => exact commands_then fun jti => commands_first (commands_mapError (commands_run _))

theorem commands_issue (host : String) (req : TokenRequest) :
    Commands (issue env libs (redisClient libs.json) host req) := by
  show Commands (ite _ _ _)
  split
  · exact commands_first (commands_then fun family => commands_first (commands_generateToken _ _ _ _ _))
  · exact commands_first (commands_generateToken _ _ _ _ _)

theorem commands_refreshTokenPair (token issuer : String) :
    Commands (JwtManager.refreshTokenPair env libs (redisClient libs.json) token issuer) :=
  commands_first (commands_mapError (commands_first (commands_run _)))

end Commands

/-! ## Level 3 -/

section Internal

variable {env : Env} {libs : Libs} {rq : Request} {a : Admission}

/-- The answer is a success. -/
def HttpResponse.success (r : HttpResponse) : Prop := 200 ≤ r.status ∧ r.status < 300

/-- What a handler has done where `p` is left of it: a store command comes next
only where none has failed, and so does a success, after one at least. -/
def Progress (cs : Calls) (p : M HttpResponse) : Prop :=
  (∀ c k, p = .call (.redis c) k → Unfailed cs) ∧
    ∀ resp, p = .ret resp → resp.success → Unfailed cs ∧ Commanded cs

theorem unfailed_nil : Unfailed [] := fun _ _ => List.not_mem_nil

theorem errorResponse_not_success (e : Error) : ¬ e.errorResponse.success := by
  cases e <;> simp [HttpResponse.success, Error.errorResponse]

theorem respond_progress {p : ExceptT Error M HttpResponse} (hs : Strict (p : M (Except Error _)))
    (hc : Commands (p : M (Except Error _))) {cs : Calls} {q : M HttpResponse}
    (h : Prog.Path (respond p) cs q) : Progress cs q := by
  rcases h.bind_inv with ⟨e, k, h₁, rfl⟩ | ⟨r, cs₁, cs₂, rfl, h₁, h₂⟩
  · refine ⟨fun c k' hq => ?_, nofun⟩
    cases hq
    exact h₁.wp_call (hs [] unfailed_nil) ⟨c, rfl⟩
  · cases r with
    | ok resp =>
      obtain ⟨rfl, rfl⟩ := h₂.ret_inv
      rw [List.append_nil]
      exact ⟨nofun, fun _ _ _ => ⟨h₁.wp_ret (hs [] unfailed_nil) ⟨resp, rfl⟩, hc cs₁ resp h₁⟩⟩
    | error e =>
      obtain ⟨rfl, rfl⟩ := h₂.ret_inv
      exact ⟨nofun, fun _ hr h => by cases hr; exact absurd h (errorResponse_not_success e)⟩

/-- What a handler makes of the result of a program: it goes on after a value,
and fails with an error. -/
theorem strict_match {ε β : Type} {x : M (Except ε β)} {f : Except ε β → ExceptT Error M HttpResponse}
    (hx : Strict x) (hok : ∀ b, Strict (f (.ok b) : M (Except Error _)))
    (herr : ∀ e cs, ∃ e', Prog.wp AtUnfailed cs (f (.error e)) fun _ r => r = .error e') :
    Strict (Prog.liftE x >>= f : ExceptT Error M HttpResponse) := by
  intro h hu
  rw [Prog.wp_tryBind, Prog.wp_liftE]
  refine Prog.wp_imp (hx h hu) fun h' r hr => ?_
  cases r with
  | ok b => exact hok b h' (hr ⟨b, rfl⟩)
  | error e =>
    obtain ⟨e', he⟩ := herr e h'
    refine Prog.wp_imp he fun _ r hr => ?_
    rw [hr]
    exact nofun

theorem commands_match {ε β : Type} {x : M (Except ε β)}
    {f : Except ε β → ExceptT Error M HttpResponse} (hx : Commands x)
    (herr : ∀ e, Commands (f (.error e) : M (Except Error _))) :
    Commands (Prog.liftE x >>= f : ExceptT Error M HttpResponse) := by
  intro cs b hp
  obtain ⟨r, cs₁, cs₂, rfl, h₁, h₂⟩ := Prog.path_tryBind_ok hp
  obtain ⟨r', h₁, he⟩ := Prog.path_liftE h₁
  obtain rfl := Except.ok.inj he
  cases r with
  | ok a =>
    obtain ⟨c, r, hm⟩ := hx cs₁ a h₁
    exact ⟨c, r, List.mem_append_left _ hm⟩
  | error e =>
    obtain ⟨c, r, hm⟩ := herr e cs₂ b h₂
    exact ⟨c, r, List.mem_append_right _ hm⟩

/-- A handler of level 3. -/
theorem handle_progress (hi : rq.internal = true) {cs : Calls} {q : M HttpResponse}
    (h : Prog.Path (handle env libs (redisClient libs.json) rq) cs q) : Progress cs q := by
  have hpure : ∀ resp : HttpResponse, Strict (pure resp : ExceptT Error M HttpResponse) :=
    fun resp => strict_ofExcept (.ok resp)
  have hmetric : ∀ (m : Metric) (resp : HttpResponse),
      Strict (callE (.metric m) >>= fun _ => pure resp : ExceptT Error M HttpResponse) :=
    fun m resp => strict_tryBind (strict_callE nofun) fun _ => hpure resp
  cases rq with
  | createToken host req =>
    refine respond_progress (strict_tryBind (strict_ofExcept _) fun host => strict_match
      (strict_issue host req) (fun b => hmetric _ _) fun e cs => ?_)
      (commands_then fun host => commands_match (commands_issue host req) fun e => ?_) h
    · cases e <;> exact ⟨_, rfl⟩
    · cases e <;> exact commands_throw _
  | refreshToken host token =>
    refine respond_progress (strict_tryBind (strict_ofExcept _) fun host => strict_match
      (strict_refreshTokenPair token host) (fun b => hmetric _ _) fun e cs => ?_)
      (commands_then fun host => commands_match (commands_refreshTokenPair token host) fun e => ?_) h
    · cases e <;> exact ⟨_, rfl⟩
    · cases e <;> exact commands_throw _
  | revokeToken jti =>
    refine respond_progress (strict_match (strict_run _) (fun _ => hmetric _ _) fun e cs => ?_)
      (commands_match (commands_run _) fun e => commands_throw _) h
    exact ⟨_, rfl⟩
  | revokeSubjectTokens sub =>
    refine respond_progress (strict_match (strict_revokeGroup _) (fun n => ?_) fun e cs => ?_)
      (commands_match (commands_then fun now => commands_first (commands_run _)) fun e =>
        commands_throw _) h
    · exact strict_tryBind (quiet_recordRevoked n).strict fun _ => hpure _
    · exact ⟨_, rfl⟩
  | verifyToken | livez | readyz => cases hi

theorem claimCode_pending {claim : Option (String × Nat)} {t : JsonText} {cs : Calls} {e : Eff}
    {k : e.Reply → M Bool} (h : Prog.Path (claimCode (redisClient t) claim) cs (.call e k)) :
    cs = [] := by
  rcases claim with _ | ⟨hash, ttl⟩
  · exact h.ret_inv.1
  · cases h with
    | nil => rfl
    | @cons _ _ r _ _ h => rcases r with e | b <;> cases h.ret_inv.2

theorem claimCode_returned {claim : Option (String × Nat)} {t : JsonText} {cs : Calls} {b : Bool}
    (h : Prog.Path (claimCode (redisClient t) claim) cs (.ret b)) : cs = [] ∨ ∃ x, cs = [x] := by
  rcases claim with _ | ⟨hash, ttl⟩
  · exact .inl h.ret_inv.1
  · cases h with
    | @cons _ _ r _ _ h =>
      rcases r with e | b <;> exact .inr ⟨_, congrArg _ h.ret_inv.1⟩

/-- A request of level 3 after the reservation of its code has failed. -/
theorem serve_progress (hi : rq.internal = true) {cs₁ cs₂ : Calls} {k v : String} {n : Nat}
    {e : Redis.Err} {q : M HttpResponse}
    (h : Prog.Path (serve env libs (redisClient libs.json) a rq)
      (cs₁ ++ ⟨.redis (.setNxEx k v n), .error e⟩ :: cs₂) q) : Progress cs₂ q := by
  -- A program whose calls hold the failed command makes no progress.
  have hfailed : ∀ ds₁, Progress (ds₁ ++ ⟨.redis (.setNxEx k v n), .error e⟩ :: cs₂) q →
      Progress cs₂ q := fun ds₁ hp => by
    have hno : ¬ Unfailed (ds₁ ++ ⟨.redis (.setNxEx k v n), .error e⟩ :: cs₂) := fun hu =>
      hu _ e (List.mem_append_right _ List.mem_cons_self)
    exact ⟨fun c k' hq => absurd (hp.1 c k' hq) hno, fun resp hr hs => absurd (hp.2 resp hr hs).1 hno⟩
  have hlimit : ∀ {ds}, Prog.Path (rateLimit a (handle env libs (redisClient libs.json) rq)) ds q →
      Progress ds q := fun hp => by
    unfold rateLimit at hp
    split at hp
    · exact handle_progress hi hp
    · cases hp with
      | nil => exact ⟨nofun, nofun⟩
      | cons hp =>
        obtain ⟨-, rfl⟩ := hp.ret_inv
        exact ⟨nofun, fun _ hr hs => by cases hr; exact absurd hs.2 (by decide)⟩
  have hserve : serve env libs (redisClient libs.json) a rq = auth (redisClient libs.json) .totp a
      (rateLimit a (handle env libs (redisClient libs.json) rq)) := by
    cases rq <;> first | rfl | cases hi
  rw [hserve] at h
  rcases h.bind_inv with ⟨e', k', h₁, rfl⟩ | ⟨first, ds₁, ds₂, hcs, h₁, h₂⟩
  · exact absurd (congrArg List.length (claimCode_pending h₁)) (by simp)
  · have hinner : Progress ds₂ q := by
      change Prog.Path (ite _ _ _) ds₂ q at h₂
      split at h₂
      · exact hlimit h₂
      · cases h₂ with
        | nil => exact ⟨nofun, nofun⟩
        | cons h₂ =>
          obtain ⟨-, rfl⟩ := h₂.ret_inv
          exact ⟨nofun, fun _ hr hs => by cases hr; exact absurd hs.2 (by decide)⟩
    -- The failed command is the reservation, or one of the handler.
    rcases claimCode_returned h₁ with rfl | ⟨x, rfl⟩
    · rw [List.nil_append] at hcs
      rw [← hcs] at hinner
      exact hfailed cs₁ hinner
    · rcases cs₁ with _ | ⟨x', cs₁⟩
      · obtain ⟨-, rfl⟩ := List.cons.inj hcs
        exact hinner
      · obtain ⟨-, rfl⟩ := List.cons.inj hcs
        exact hfailed cs₁ hinner

end Internal

section Runs

variable {ι : Type} [DecidableEq ι] {g : Governor} {cfg : EdgeConfig} {env : Env} {libs : Libs}
  {s : JwkService} {w : EdgeWorld g.State} {inc : ι → Incoming} {req : ι → Request}
  {tr : List (Event edge ι (Nat × Nat))} {P P' : Pool edge (EdgeWorld g.State) ι HttpResponse}

/-- A call of the service that changes the store is a store command. -/
theorem call_redis_of_changed {w w' : World} {e : Eff} {r : e.Reply}
    (h : (service s).call w e r w') (hne : w'.db ≠ w.db) : ∃ c, e = .redis c := by
  by_contra hno
  exact hne (funext fun k => call_of_not_writes h fun c hc => absurd ⟨c, hc⟩ hno)

/-- A request of level 3 whose reservation has failed, so that it was let
through, succeeds only after further store commands none of which has failed,
and it changes the store only as long as none has. -/
theorem failed_open_needs_store
    (hr : (layered g cfg (service s)).Run (arrivals w cfg env libs inc req) tr P) {i : ι}
    (hi : (req i).internal = true) {cs₁ cs₂ : Calls} {k v : String} {n : Nat} {e : Redis.Err}
    (hc : callsOf i (svcEvents tr) = cs₁ ++ ⟨.redis (.setNxEx k v n), .error e⟩ :: cs₂) :
    (∀ resp, P.prog i = .ret resp → resp.success → Unfailed cs₂ ∧ Commanded cs₂) ∧
    ∀ x P', (layered g cfg (service s)).Step P (.call i x) P' →
      P'.st.world.db ≠ P.st.world.db → Unfailed cs₂ := by
  constructor
  · intro resp hp hsucc
    obtain ⟨adm, q, hrun, -, hret⟩ := arrivals_serve hr
    have hpath := hrun.path i
    rw [hc] at hpath
    exact (serve_progress hi hpath).2 resp (hret i resp hp) hsucc
  · intro x P' hs hne
    obtain ⟨adm, q, hrun, -, -⟩ := arrivals_serve (hr.trans (.cons hs (.nil _)))
    have hpath := hrun.path i
    cases hs with
    | @call _ e' _ r w' hp hcall =>
      cases e' with
      | svc e' =>
        obtain ⟨c, rfl⟩ := call_redis_of_changed hcall.1 hne
        rw [callsOf_svcEvents, callsOf_append, callsOf_call_self, List.filterMap_append,
          ← callsOf_svcEvents, hc] at hpath
        obtain ⟨m, h₁, h₂⟩ := hpath.append_inv
        cases h₂ with
        | cons h₂ => exact (serve_progress hi h₁).1 c _ rfl
      | authorize => exact absurd (congrArg (fun v => v.world.db) hcall.2) hne
      | check => exact absurd (congrArg (fun v => v.world.db) hcall.2) hne

end Runs

/-! ## A reservation that fails alone -/

/-- The issue reserves the code. The reservation of the revocation, with the
same code, times out, and its next command is `next`. -/
def useAgain (next : Event edge Bool (Nat × Nat)) : List (Event edge Bool (Nat × Nat)) :=
  [.call false ⟨.authorize .totp withVector.headers, true⟩,
    .call false ⟨.svc (.redis vectorClaim), .ok true⟩,
    .call true ⟨.authorize .totp withVector.headers, true⟩,
    .call true ⟨.svc (.redis vectorClaim), .error .timeout⟩, next]

/-- With the store still down, the revocation is not answered with success. -/
theorem failed_open_needs_store_down : ∃ P,
    (layered (gcra ⟨1000000000, 1⟩) replayConfig (service agedService)).Run withOneCode
      (useAgain (.call true ⟨.svc (.redis (.del ["jti"])), .error .timeout⟩)) P ∧
    ∀ resp, P.prog true = .ret resp → ¬ resp.success := by
  obtain ⟨P, hplay⟩ : ∃ P, System.play (EdgeWorld.act replayConfig agedService)
    (fun v l => some (v.pass l)) (fun _ _ => true) [.call false .plain, .call false (.redis .answered),
      .call true .plain, .call true (.redis (.lost .timeout)), .call true (.redis (.lost .timeout))]
      withOneCode = some (useAgain (.call true ⟨.svc (.redis (.del ["jti"])), .error .timeout⟩), P) :=
    ⟨_, rfl⟩
  have hrun := playEdge_run hplay
  refine ⟨P, hrun, fun resp hp hs => ?_⟩
  have hcalls : callsOf true (svcEvents (useAgain
      (.call true ⟨.svc (.redis (.del ["jti"])), .error .timeout⟩))) =
        [] ++ ⟨.redis vectorClaim, .error .timeout⟩ :: [⟨.redis (.del ["jti"]), .error .timeout⟩] := rfl
  have h := (failed_open_needs_store hrun (i := true) rfl hcalls).1 resp hp hs
  exact h.1 (.del ["jti"]) .timeout List.mem_cons_self

/-- Where only the reservation times out, the code is used a second time: the
token is deleted, and the answer is a success. -/
theorem failed_open_once : ∃ tr P,
    (layered (gcra ⟨1000000000, 1⟩) replayConfig (service agedService)).Run withOneCode tr P ∧
    callsOf false (svcEvents tr) = [⟨.redis vectorClaim, .ok true⟩] ∧
    callsOf true (svcEvents tr) = [⟨.redis vectorClaim, .error .timeout⟩,
      ⟨.redis (.del ["jti"]), .ok ()⟩, ⟨.metric .tokenRevoked, ()⟩] ∧
    P.prog true = .ret ⟨204, .empty⟩ := by
  obtain ⟨P, hplay, hprog⟩ : ∃ P, System.play (EdgeWorld.act replayConfig agedService)
    (fun v l => some (v.pass l)) (fun _ _ => true) [.call false .plain, .call false (.redis .answered),
      .call true .plain, .call true (.redis (.lost .timeout)), .call true (.redis .answered),
      .call true .plain] withOneCode = some (useAgain (.call true ⟨.svc (.redis (.del ["jti"])), .ok ()⟩) ++
        [.call true ⟨.svc (.metric .tokenRevoked), ()⟩], P) ∧ P.prog true = .ret ⟨204, .empty⟩ :=
    ⟨_, rfl, rfl⟩
  exact ⟨_, P, playEdge_run hplay, rfl, rfl, hprog⟩

end JwtService

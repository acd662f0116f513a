import JwtService.Proof.Encoding
import JwtService.Proof.Names
import JwtService.Proof.Rules

/-!
# What a request does with the store, whatever it is answered

`Disciplined h e` says of a call `e`, made after the calls `h` of the same
request, what every request keeps to: a credential is stored only under a
UUID the request drew itself, and only once; a group gets only credentials
the request has stored; a refresh token is marked only after its record was
read; nothing else creates a key but the reservation of a TOTP code.

`serve_disciplined` is the result: every request is disciplined, and a token
it answers with carries a `jti` it has stored. The other theorems follow the
code from the inside out.
-/

namespace JwtService

open Interaction Redis

/-- The request drew the UUID. -/
def Drew (u : String) (h : Calls) : Prop := (⟨Eff.newUuid, u⟩ : Call svc) ∈ h

/-- The call stores the credential. -/
def Credential.StoredBy (c : Credential) (e : Eff) : Prop :=
  match c with
  | .access jti => ∃ v secs, e = .redis (.setEx jti v secs)
  | .refresh id => ∃ fs, e = .redis (.hset (refreshKey id) fs)

/-- The request drew the UUID of the credential and stored it. -/
def Stored (c : Credential) (h : Calls) : Prop := Drew c.uuid h ∧ ∃ x ∈ h, c.StoredBy x.eff

def Eff.isSetEx : Eff → Bool
  | .redis (.setEx ..) => true
  | _ => false

def Eff.isHset : Eff → Bool
  | .redis (.hset ..) => true
  | _ => false

/-- What a call keeps to, after the calls `h` of its request. -/
def Disciplined (h : Calls) : Eff → Prop
  | .redis (.setEx k _ _) => Drew k h ∧ ∀ x ∈ h, x.eff.isSetEx = false
  | .redis (.hset k _) => ∃ id, k = refreshKey id ∧ Drew id h ∧ ∀ x ∈ h, x.eff.isHset = false
  | .redis (.setNxEx k _ _) => ∃ hash, k = totpCodeKey hash
  | .redis (.zadd g m _) =>
    (∃ s, g = subjectGroup s ∧ Stored (.access m) h) ∨
      ∃ f c, g = familyGroup f ∧ m = c.key ∧ Stored c h
  | .redis (.hsetNx k f _) =>
    ∃ id fs, k = refreshKey id ∧ f = "used" ∧ fs ≠ [] ∧
      (⟨.redis (.hgetAll k), .ok fs⟩ : Call svc) ∈ h
  | .redis (.expire k _) => ∃ id, k = refreshKey id
  | _ => True

/-! ## Calls that keep to it by themselves -/

/-- A call that creates no key and sets no expiry. -/
def Eff.plain : Eff → Bool
  | .redis (.setEx ..) | .redis (.setNxEx ..) | .redis (.zadd ..) | .redis (.hset ..)
  | .redis (.hsetNx ..) | .redis (.expire ..) => false
  | _ => true

theorem disciplined_of_plain {h : Calls} {e : Eff} (he : e.plain = true) : Disciplined h e := by
  cases e with
  | redis c =>
    cases c
    case setEx | setNxEx | zadd | hset | hsetNx | expire => cases he
    all_goals trivial
  | _ => trivial

theorem Eff.isSetEx_of_plain {e : Eff} (he : e.plain = true) : e.isSetEx = false := by
  cases e with
  | redis c => cases c <;> first | rfl | cases he
  | _ => rfl

theorem Eff.isHset_of_plain {e : Eff} (he : e.plain = true) : e.isHset = false := by
  cases e with
  | redis c => cases c <;> first | rfl | cases he
  | _ => rfl

theorem Eff.plain_of_quiet {e : Eff} (he : e.quiet = true) : e.plain = true := by
  cases e with
  | redis c => cases he
  | _ => rfl

/-- `h'` is `h` with further calls, all of the kind `E`. -/
def Adds (E : Eff → Bool) (h h' : Calls) : Prop := ∃ cs, h' = h ++ cs ∧ ∀ x ∈ cs, E x.eff = true

namespace Adds

variable {E D : Eff → Bool} {h h₁ h₂ : Calls}

theorem refl (E : Eff → Bool) (h : Calls) : Adds E h h := ⟨[], by rw [List.append_nil], by simp⟩

theorem trans (a : Adds E h h₁) (b : Adds E h₁ h₂) : Adds E h h₂ := by
  obtain ⟨cs, rfl, hc⟩ := a
  obtain ⟨ds, rfl, hd⟩ := b
  refine ⟨cs ++ ds, List.append_assoc .., fun x hx => ?_⟩
  rcases List.mem_append.mp hx with hx | hx
  · exact hc x hx
  · exact hd x hx

theorem one (h : Calls) {x : Call svc} (hx : E x.eff = true) : Adds E h (h ++ [x]) :=
  ⟨[x], rfl, by simpa using hx⟩

theorem mono (hE : ∀ e, E e = true → D e = true) (a : Adds E h h₁) : Adds D h h₁ := by
  obtain ⟨cs, rfl, hc⟩ := a
  exact ⟨cs, rfl, fun x hx => hE _ (hc x hx)⟩

theorem mem (a : Adds E h h₁) {x : Call svc} (hx : x ∈ h) : x ∈ h₁ := by
  obtain ⟨cs, rfl, -⟩ := a
  exact List.mem_append_left _ hx

theorem stored (a : Adds E h h₁) {c : Credential} (hs : Stored c h) : Stored c h₁ := by
  obtain ⟨hd, x, hx, he⟩ := hs
  exact ⟨a.mem hd, x, a.mem hx, he⟩

/-- What no call did before, no call did after further calls that do not. -/
theorem none {K : Eff → Bool} (hE : ∀ e, E e = true → K e = false) (a : Adds E h h₁)
    (hn : ∀ x ∈ h, K x.eff = false) : ∀ x ∈ h₁, K x.eff = false := by
  obtain ⟨cs, rfl, hc⟩ := a
  intro x hx
  rcases List.mem_append.mp hx with hx | hx
  · exact hn x hx
  · exact hE _ (hc x hx)

end Adds

/-- A program that makes plain calls only. -/
abbrev Plain {α : Type} (p : M α) : Prop := @Prog.Only svc α (fun e => Eff.plain e = true) p

theorem Quiet.plain {α : Type} {p : M α} (hp : Quiet p) : Plain p :=
  Prog.Only.mono (fun _ he => Eff.plain_of_quiet he) hp

theorem plain_ok {α : Type} {p : M α} (hp : Plain p) (h : Calls) :
    Prog.wp Disciplined h p fun h' _ => Adds Eff.plain h h' :=
  Prog.Only.wp hp (fun _ _ _ he => disciplined_of_plain he) fun cs _ hcs => ⟨cs, rfl, hcs⟩

/-! ## The store -/

section Store

variable (t : JsonText)

theorem plain_run {c : Cmd} (hc : (Eff.redis c).plain = true) : Plain (RedisClient.run c) :=
  Prog.only_mapError (p := call (.redis c)) ⟨hc, fun _ => trivial⟩

theorem plain_isVerify (c : TokenClaims) (issuer audience : String) :
    Plain (c.isVerify (redisClient t) issuer audience) := by
  refine Prog.only_bind ⟨rfl, fun _ => trivial⟩ fun now => ?_
  show Prog.Only _ (ite _ _ _)
  split
  · refine Prog.only_bind (plain_run rfl) fun r => ?_
    cases r <;> trivial
  · trivial

theorem plain_deleteMembers (jtis : List String) : Plain (RedisClient.deleteMembers jtis) := by
  show Prog.Only _ (ite _ _ _)
  split
  · trivial
  · exact plain_run rfl

theorem plain_revokeGroup (g : String) : Plain (RedisClient.revokeGroup g) := by
  refine Prog.only_tryBind ⟨rfl, fun _ => trivial⟩ fun now => ?_
  refine Prog.only_tryBind (plain_run rfl) fun _ => ?_
  refine Prog.only_tryBind (plain_run rfl) fun jtis => ?_
  refine Prog.only_tryBind (plain_deleteMembers jtis) fun _ => ?_
  refine Prog.only_tryBind (plain_run rfl) fun _ => ?_
  exact Prog.only_pure_ok _

/-- Registering a credential that the request has stored. -/
theorem addToGroup_ok {h : Calls} {g m : String} (score : Int)
    (hd : Disciplined h (.redis (.zadd g m score))) :
    Prog.wp Disciplined h (RedisClient.addToGroup g m score) fun h' _ =>
      Adds (fun e => !e.isSetEx && !e.isHset) h h' := by
  simp only [RedisClient.addToGroup, Prog.wp_tryBind, wp_run]
  refine ⟨hd, fun _ => ⟨disciplined_of_plain rfl, fun _ => ?_, fun _ => ?_⟩, fun _ => ?_⟩
  · exact (Adds.one h rfl).trans (Adds.one _ rfl)
  · exact (Adds.one h rfl).trans (Adds.one _ rfl)
  · exact Adds.one h rfl

end Store

/-! ## Issuing -/

section Issue

variable (env : Env) (libs : Libs)

/-- What the claims of a new token are. -/
def NewClaims (issuer subject : String) (audience : List String) (c : TokenClaims) : Prop :=
  c.iss = issuer ∧ c.sub = subject ∧ c.aud = audience ∧ NoReserved c.extra ∧
    c.exp < 2 ^ 64 ∧ c.iat < 2 ^ 64 ∧ c.nbf < 2 ^ 64

theorem asUsize_lt (x : Int) : asUsize x < 2 ^ 64 := by
  have := Int.emod_lt_of_pos x (show (0 : Int) < 2 ^ 64 by decide)
  have := Int.emod_nonneg x (show (2 ^ 64 : Int) ≠ 0 by decide)
  unfold asUsize
  omega

theorem createNew_ok {h : Calls} (hn : ∀ x ∈ h, x.eff.isSetEx = false) (issuer subject : String)
    (audience : List String) (ttl : Option Nat) (extra : List (String × Json)) :
    Prog.wp Disciplined h
      (TokenClaims.createNew env libs.json (redisClient libs.json) issuer subject audience ttl extra)
      fun h' r => Adds (fun e => !e.isHset) h h' ∧
        ∀ c, r = .ok c → NewClaims issuer subject audience c ∧ Stored (.access c.jti) h' := by
  have err : ∀ {h' : Calls} {e : JwtError}, Adds (fun e => !e.isHset) h h' →
      Adds (fun e => !e.isHset) h h' ∧ ∀ c, (Except.error e : Except JwtError TokenClaims) = .ok c →
        NewClaims issuer subject audience c ∧ Stored (.access c.jti) h' :=
    fun ha => ⟨ha, fun c hc => nomatch hc⟩
  simp only [TokenClaims.createNew, Prog.wp_tryBind, Prog.wp_ofExcept]
  cases hv : validateCustomClaims env libs.json extra with
  | error e => exact err (.refl _ _)
  | ok u =>
    cases TokenClaims.expirationSeconds env ttl with
    | error e => exact err (.refl _ _)
    | ok seconds =>
      cases audience with
      | nil => exact err (.refl _ _)
      | cons firstAudience rest =>
        simp only [Prog.wp_tryBind, wp_callE]
        refine ⟨trivial, fun now => ?_⟩
        cases chronoAdd now (asI64 seconds) with
        | none => exact ⟨trivial, fun r => r.elim⟩
        | some exp =>
          simp only [Prog.wp_tryBind, wp_callE, orStoreError, Prog.wp_mapError, redisClient,
            RedisClient.storeJti, wp_run]
          refine ⟨trivial, fun jti => ?_⟩
          -- The two calls so far, then the command that stores the `jti`.
          have a₀ : Adds (fun e => !e.isSetEx && !e.isHset) h
              (h ++ [⟨.utcNow, now⟩] ++ [⟨.newUuid, jti⟩]) :=
            (Adds.one h rfl).trans (Adds.one _ rfl)
          have hd : Drew jti (h ++ [⟨.utcNow, now⟩] ++ [⟨.newUuid, jti⟩]) := by simp [Drew]
          have hn₀ := a₀.none (K := Eff.isSetEx) (fun e he => by
            simp only [Bool.and_eq_true, Bool.not_eq_eq_eq_not, Bool.not_true] at he; exact he.1) hn
          have a₁ := a₀.mono (D := fun e => !e.isHset) fun e he => by
            simp only [Bool.and_eq_true] at he; exact he.2
          refine ⟨⟨hd, hn₀⟩, fun _ => ?_, fun _ => err (a₁.trans (Adds.one _ rfl))⟩
          have hs : Stored (.access jti) (h ++ [⟨.utcNow, now⟩] ++ [⟨.newUuid, jti⟩] ++
              [⟨.redis (.setEx jti "1" seconds), .ok ()⟩]) :=
            ⟨List.mem_append_left _ hd, _, List.mem_append_right _ List.mem_cons_self, _, _, rfl⟩
          have a₂ := a₁.trans (Adds.one _ (x := ⟨.redis (.setEx jti "1" seconds), .ok ()⟩) rfl)
          refine Prog.wp_imp (addToGroup_ok exp (.inl ⟨_, rfl, hs⟩)) fun h₃ r₃ a₃ => ?_
          have a₃' := a₂.trans (a₃.mono fun e he => by
            simp only [Bool.and_eq_true] at he; exact he.2)
          cases r₃ with
          | error e => exact err a₃'
          | ok _ =>
            simp only [Prog.wp_liftE]
            refine Prog.wp_imp (plain_ok (plain_isVerify libs.json _ _ _) h₃) fun h₄ b a₄ => ?_
            have a₄' := a₃'.trans (a₄.mono fun e he => by simp [Eff.isHset_of_plain he])
            cases b with
            | false => exact err a₄'
            | true =>
              refine ⟨a₄', fun c hc => ?_⟩
              cases hc
              have hu : ∀ x : Int, asUsize x < 2 ^ 64 := asUsize_lt
              exact ⟨⟨rfl, rfl, rfl, validateCustomClaims_ok hv, hu exp, hu (timestamp now),
                hu (timestamp now)⟩, a₄.stored (a₃.stored hs)⟩

/-- Whether a token carries claims that meet `p`. -/
def Carries (token : String) (p : TokenClaims → Prop) : Prop :=
  ∃ c, JwtManager.claimsSegmentOf libs token = .ok c ∧ p c

theorem generateToken_ok (ht : libs.json.Faithful) {h : Calls}
    (hn : ∀ x ∈ h, x.eff.isSetEx = false) (issuer subject : String) (audience : List String)
    (ttl : Option Nat) (extra : List (String × Json)) :
    Prog.wp Disciplined h
      (JwtManager.generateToken env libs (redisClient libs.json) issuer subject audience ttl extra)
      fun h' r => Adds (fun e => !e.isHset) h h' ∧ ∀ token, r = .ok token →
        Carries libs token fun c => Stored (.access c.jti) h' := by
  simp only [JwtManager.generateToken, Prog.wp_tryBind, Prog.wp_mapError]
  refine Prog.wp_imp (plain_ok (KeyManager.quiet_getPrivateKey libs.ssl _).plain h)
    fun h₁ r₁ a₁ => ?_
  have a₁' : Adds (fun e => !e.isHset) h h₁ :=
    a₁.mono fun e he => by simp [Eff.isHset_of_plain he]
  rcases r₁ with e | ⟨jwk, key⟩
  · exact ⟨a₁', by simp⟩
  · have hn₁ := a₁.none (K := Eff.isSetEx) (fun _ => Eff.isSetEx_of_plain) hn
    refine Prog.wp_imp (createNew_ok env libs hn₁ issuer subject audience ttl extra)
      fun h₂ r₂ hr₂ => ?_
    obtain ⟨a₂, hc⟩ := hr₂
    cases r₂ with
    | error e => exact ⟨a₁'.trans a₂, by simp⟩
    | ok claims =>
      obtain ⟨⟨-, -, -, hx, he, hi, hb⟩, hs⟩ := hc claims rfl
      refine ⟨a₁'.trans a₂, fun token htok => ?_⟩
      obtain ⟨c, hc, hcc⟩ := claimsSegmentOf_toString ht hx he hi hb htok
      exact ⟨c, hc, by rwa [hcc]⟩

theorem registerAccessInFamily_ok {h : Calls} {access : String} (family : String)
    (hc : Carries libs access fun c => Stored (.access c.jti) h) :
    Prog.wp Disciplined h
      (JwtManager.registerAccessInFamily libs (redisClient libs.json) access family)
      fun h' _ => Adds (fun e => !e.isHset) h h' := by
  obtain ⟨c, hc, hs⟩ := hc
  simp only [JwtManager.registerAccessInFamily, Prog.wp_tryBind, Prog.wp_ofExcept, hc,
    orStoreError, Prog.wp_mapError, redisClient]
  refine Prog.wp_imp (addToGroup_ok _ (.inr ⟨family, .access c.jti, rfl, rfl, hs⟩))
    fun h' r a => ?_
  have a' := a.mono (D := fun e => !e.isHset) fun e he => by
    simp only [Bool.and_eq_true] at he; exact he.2
  cases r <;> exact a'

theorem issueRefresh_ok {h : Calls} (hn : ∀ x ∈ h, x.eff.isHset = false) (subject : String)
    (audience : List String) (family : String) :
    Prog.wp Disciplined h
      (JwtManager.issueRefresh env (redisClient libs.json) subject audience family)
      fun h' r => (∀ x ∈ h, x ∈ h') ∧ ∀ id, r = .ok id → Stored (.refresh id) h' := by
  simp only [JwtManager.issueRefresh, Prog.wp_tryBind, wp_callE, orStoreError, Prog.wp_mapError,
    redisClient, RedisClient.storeRefresh]
  refine ⟨trivial, fun id => ?_⟩
  split
  · exact ⟨fun x hx => List.mem_append_left _ hx, by simp⟩
  · rename_i aud _
    simp only [Prog.wp_tryBind, wp_run]
    have hd : Drew id (h ++ [⟨.newUuid, id⟩]) := by simp [Drew]
    have hn' := (Adds.one (E := fun e => !e.isHset) h (x := ⟨.newUuid, id⟩) rfl).none
      (K := Eff.isHset) (fun e he => by simpa using he) hn
    have hs : ∀ (fs : List (String × String)) (r : Except Redis.Err Unit),
        Stored (.refresh id) (h ++ [⟨.newUuid, id⟩] ++ [⟨.redis (.hset (refreshKey id) fs), r⟩]) :=
      fun fs r => ⟨List.mem_append_left _ hd, _, List.mem_append_right _ List.mem_cons_self, _, rfl⟩
    have mem : ∀ (h' : Calls) (e : JwtError), (∀ x ∈ h, x ∈ h') → (∀ x ∈ h, x ∈ h') ∧
        ∀ i, (Except.error e : Except JwtError String) = .ok i → Stored (.refresh i) h' :=
      fun _ _ hm => ⟨hm, by simp⟩
    refine ⟨⟨id, rfl, hd, hn'⟩, fun r₁ => ⟨⟨id, rfl⟩, fun r₂ => ⟨trivial, fun now => ?_⟩, fun e => ?_⟩,
      fun e => ?_⟩
    · refine Prog.wp_imp (addToGroup_ok _ (.inr ⟨family, .refresh id, rfl, rfl,
        (Adds.one (E := fun _ => true) _ rfl).stored
          ((Adds.one (E := fun _ => true) _ rfl).stored (hs _ _))⟩)) fun h₂ r₃ a₂ => ?_
      have hm : ∀ x ∈ h, x ∈ h₂ := fun x hx => a₂.mem (by simp [hx])
      cases r₃ with
      | error e => exact mem _ _ hm
      | ok _ =>
        refine ⟨hm, fun i hi => ?_⟩
        cases hi
        exact a₂.stored ((Adds.one (E := fun _ => true) _ rfl).stored
          ((Adds.one (E := fun _ => true) _ rfl).stored (hs _ _)))
    · exact mem _ _ fun x hx => by simp [hx]
    · exact mem _ _ fun x hx => by simp [hx]

/-- What a pair of tokens is: an access token the request has stored. -/
def StoredPair (h : Calls) (r : Except JwtError (String × String)) : Prop :=
  ∀ access refresh, r = .ok (access, refresh) →
    Carries libs access fun c => Stored (.access c.jti) h

theorem storedPair_error (h : Calls) (e : JwtError) : StoredPair libs h (.error e) := by
  intro access refresh hr
  cases hr

/-- What an issue and an exchange have in common: a new pair of a family. -/
def issuePair (issuer subject : String) (audience : List String) (ttl : Option Nat)
    (extra : List (String × Json)) (family : String) : ExceptT JwtError M (String × String) := do
  let access ← JwtManager.generateToken env libs (redisClient libs.json) issuer subject audience
    ttl extra
  JwtManager.registerAccessInFamily libs (redisClient libs.json) access family
  let refresh ← JwtManager.issueRefresh env (redisClient libs.json) subject audience family
  pure (access, refresh)

/-- The calls of a pair, from those of its access token. -/
theorem only_issuePair {E : Eff → Prop} {issuer subject family : String} {audience : List String}
    {ttl : Option Nat} {extra : List (String × Json)} (hu : E .newUuid) (hnow : E .utcNow)
    (hgen : @Prog.Only svc _ E (JwtManager.generateToken env libs (redisClient libs.json) issuer subject
      audience ttl extra))
    (hset : ∀ id fs, E (.redis (.hset (refreshKey id) fs)))
    (hlive : ∀ id secs, E (.redis (.expire (refreshKey id) secs)))
    (hadd : ∀ m score, E (.redis (.zadd (familyGroup family) m score)))
    (hexp : ∀ score, E (.redis (.expireAt (familyGroup family) score))) :
    @Prog.Only svc _ E (issuePair env libs issuer subject audience ttl extra family) :=
  Prog.only_tryBind hgen fun _ => Prog.only_tryBind (only_registerAccess hadd hexp) fun _ =>
    Prog.only_tryBind (only_issueRefresh hu hnow hset hlive hadd hexp) fun _ => Prog.only_pure_ok _

theorem issuePair_ok (ht : libs.json.Faithful) {h : Calls} (hn : ∀ x ∈ h, x.eff.isSetEx = false)
    (hn' : ∀ x ∈ h, x.eff.isHset = false) (issuer subject : String) (audience : List String)
    (ttl : Option Nat) (extra : List (String × Json)) (family : String) :
    Prog.wp Disciplined h (issuePair env libs issuer subject audience ttl extra family)
      fun h' r => StoredPair libs h' r := by
  rw [issuePair, Prog.wp_tryBind]
  refine Prog.wp_imp (generateToken_ok env libs ht hn issuer subject audience ttl extra)
    fun h₁ r₁ hr₁ => ?_
  obtain ⟨a₁, hc⟩ := hr₁
  cases r₁ with
  | error e => exact storedPair_error libs _ e
  | ok access =>
    obtain ⟨c, hc, hs⟩ := hc access rfl
    simp only [Prog.wp_tryBind]
    refine Prog.wp_imp (registerAccessInFamily_ok libs family ⟨c, hc, hs⟩) fun h₂ r₂ a₂ => ?_
    cases r₂ with
    | error e => exact storedPair_error libs _ e
    | ok _ =>
      have hn₂ := (a₁.trans a₂).none (K := Eff.isHset) (fun e he => by simpa using he) hn'
      refine Prog.wp_imp (issueRefresh_ok env libs hn₂ subject audience family)
        fun h₃ r₃ hr₃ => ?_
      have hm := hr₃.1
      cases r₃ with
      | error e => exact storedPair_error libs _ e
      | ok id =>
        refine fun a b he => ?_
        cases he
        obtain ⟨hd, x, hx, hb⟩ := a₂.stored hs
        exact ⟨c, hc, hm _ hd, x, hm _ hx, hb⟩

theorem generateTokenPair_ok (ht : libs.json.Faithful) {h : Calls}
    (hn : ∀ x ∈ h, x.eff.isSetEx = false) (hn' : ∀ x ∈ h, x.eff.isHset = false)
    (issuer subject : String) (audience : List String) (ttl : Option Nat)
    (extra : List (String × Json)) :
    Prog.wp Disciplined h
      (JwtManager.generateTokenPair env libs (redisClient libs.json) issuer subject audience ttl
        extra)
      fun h' r => StoredPair libs h' r := by
  rw [JwtManager.generateTokenPair, Prog.wp_tryBind, wp_callE]
  refine ⟨trivial, fun family => ?_⟩
  have a := Adds.one (E := fun e => !e.isSetEx && !e.isHset) h (x := ⟨.newUuid, family⟩) rfl
  refine issuePair_ok env libs ht (a.none (K := Eff.isSetEx) (fun e he => ?_) hn)
    (a.none (K := Eff.isHset) (fun e he => ?_) hn') issuer subject audience ttl extra family
  · simp only [Bool.and_eq_true] at he; simpa using he.1
  · simp only [Bool.and_eq_true] at he; simpa using he.2

theorem refreshTokenPair_ok (ht : libs.json.Faithful) {h : Calls}
    (hn : ∀ x ∈ h, x.eff.isSetEx = false) (hn' : ∀ x ∈ h, x.eff.isHset = false)
    (token issuer : String) :
    Prog.wp Disciplined h
      (JwtManager.refreshTokenPair env libs (redisClient libs.json) token issuer)
      fun h' r => StoredPair libs h' r := by
  have err : ∀ (h' : Calls) (e : JwtError), StoredPair libs h' (.error e) :=
    fun _ _ _ _ he => nomatch he
  -- An empty hash is no record, so a record comes from fields that are there.
  refine wp_refreshTokenPair trivial (fun _ => err _ _) (fun _ => err _ _) fun h₁ fs record h₁_eq hne _ =>
    ⟨⟨token, fs, rfl, rfl, hne, by rw [h₁_eq]; simp⟩, fun _ => err _ _, ?_, ?_⟩
  · have a : Adds (fun e => !e.isSetEx && !e.isHset) h
        (h₁ ++ [⟨.redis (.hsetNx (refreshKey token) "used" "1"), .ok true⟩]) := by
      rw [h₁_eq]
      exact (Adds.one h rfl).trans (Adds.one _ rfl)
    refine issuePair_ok env libs ht (a.none (K := Eff.isSetEx) (fun e he => ?_) hn)
      (a.none (K := Eff.isHset) (fun e he => ?_) hn') issuer _ _ _ _ _
    · simp only [Bool.and_eq_true] at he; simpa using he.1
    · simp only [Bool.and_eq_true] at he; simpa using he.2
  · exact Prog.wp_imp (plain_ok (plain_revokeGroup _) _) fun _ _ _ => err _ _

end Issue

/-! ## Requests -/

section Requests

variable (env : Env) (libs : Libs)

/-- What a response hands out: an access token the request has stored. -/
def StoredToken (h : Calls) (resp : HttpResponse) : Prop :=
  ∀ token refresh, resp.body = .token token refresh →
    Carries libs token fun c => Stored (.access c.jti) h

theorem storedToken_error (h : Calls) (e : Error) : StoredToken libs h e.errorResponse := by
  intro token refresh hb
  cases e <;> cases hb

/-- A response without a token. -/
theorem storedToken_of {h : Calls} {status : Nat} {body : Body}
    (hb : ∀ token refresh, body ≠ .token token refresh) : StoredToken libs h ⟨status, body⟩ :=
  fun token refresh h => absurd h (hb token refresh)

theorem respond_ok {h : Calls} {p : ExceptT Error M HttpResponse}
    (hp : Prog.wp Disciplined h p fun h' r => ∀ resp, r = .ok resp → StoredToken libs h' resp) :
    Prog.wp Disciplined h (respond p) (StoredToken libs) := by
  refine (Prog.wp_bind h p _).mpr (Prog.wp_imp hp fun h' r hr => ?_)
  cases r with
  | ok resp => exact hr resp rfl
  | error e => exact storedToken_error libs h' e

theorem createToken_ok (ht : libs.json.Faithful) {h : Calls}
    (hn : ∀ x ∈ h, x.eff.isSetEx = false) (hn' : ∀ x ∈ h, x.eff.isHset = false)
    (host : HostHeader) (req : TokenRequest) :
    Prog.wp Disciplined h (createToken env libs (redisClient libs.json) host req)
      fun h' r => ∀ resp, r = .ok resp → StoredToken libs h' resp := by
  simp only [createToken, Prog.wp_tryBind, Prog.wp_ofExcept]
  cases issuerForIssuance env host with
  | error e => simp
  | ok host =>
    simp only [Prog.wp_liftE]
    have hi : Prog.wp Disciplined h (issue env libs (redisClient libs.json) host req) fun h' r =>
        ∀ token refresh, r = .ok (token, refresh) →
          Carries libs token fun c => Stored (.access c.jti) h' := by
      cases hr : req.refresh with
      | true =>
        simp only [issue, hr, if_true, Prog.wp_tryBind]
        refine Prog.wp_imp (generateTokenPair_ok env libs ht hn hn' host _ _ _ _) fun h' r hp => ?_
        rcases r with e | ⟨token, refresh⟩
        · simp
        · intro _ _ hc
          cases hc
          exact hp _ _ rfl
      | false =>
        simp only [issue, hr, Bool.false_eq_true, if_false, Prog.wp_tryBind]
        refine Prog.wp_imp (generateToken_ok env libs ht hn host _ _ _ _) fun h' r hr' => ?_
        have hp := hr'.2
        cases r with
        | error e => simp
        | ok token =>
          intro _ _ hc
          cases hc
          exact hp _ rfl
    refine Prog.wp_imp hi fun h' r hr => ?_
    rcases r with e | ⟨token, refresh⟩
    · cases e <;> simp
    · simp only [Prog.wp_tryBind, wp_callE]
      refine ⟨trivial, fun _ resp hresp => ?_⟩
      cases hresp
      intro _ _ hb
      cases hb
      obtain ⟨c, hc, hs⟩ := hr _ _ rfl
      exact ⟨c, hc, (Adds.one (E := fun _ => true) h' rfl).stored hs⟩

theorem refreshToken_ok (ht : libs.json.Faithful) {h : Calls}
    (hn : ∀ x ∈ h, x.eff.isSetEx = false) (hn' : ∀ x ∈ h, x.eff.isHset = false)
    (host : HostHeader) (token : String) :
    Prog.wp Disciplined h (refreshToken env libs (redisClient libs.json) host token)
      fun h' r => ∀ resp, r = .ok resp → StoredToken libs h' resp := by
  simp only [refreshToken, Prog.wp_tryBind, Prog.wp_ofExcept]
  cases issuerForIssuance env host with
  | error e => simp
  | ok host =>
    simp only [Prog.wp_liftE]
    refine Prog.wp_imp (refreshTokenPair_ok env libs ht hn hn' token host) fun h' r hr => ?_
    rcases r with e | ⟨token, refresh⟩
    · cases e <;> simp
    · simp only [Prog.wp_tryBind, wp_callE]
      refine ⟨trivial, fun _ resp hresp => ?_⟩
      cases hresp
      intro _ _ hb
      cases hb
      obtain ⟨c, hc, hs⟩ := hr _ _ rfl
      exact ⟨c, hc, (Adds.one (E := fun _ => true) h' rfl).stored hs⟩

theorem plain_fromString (token issuer audience : String) :
    Plain (JsonWebToken.fromString env libs (redisClient libs.json) token issuer audience) := by
  unfold JsonWebToken.fromString
  split
  · refine Prog.only_tryBind (Prog.only_ofExcept _) fun headers => ?_
    refine Prog.only_tryBind
      (Prog.only_mapError (KeyManager.quiet_getPublicKey libs.ssl headers.kid).plain) fun key => ?_
    refine Prog.only_tryBind (Prog.only_ofExcept _) fun _ => ?_
    refine Prog.only_tryBind (Prog.only_ofExcept _) fun claims => ?_
    split
    · refine Prog.only_tryBind (Prog.only_liftE (plain_isVerify libs.json claims issuer audience))
        fun b => ?_
      cases b <;> trivial
    · trivial
  · trivial

theorem plain_managerVerifyToken (token issuer audience : String) :
    Plain (JwtManager.verifyToken env libs (redisClient libs.json) token issuer audience) :=
  Prog.only_tryBind (plain_fromString env libs token issuer audience) fun _ =>
    Prog.only_pure_ok _

theorem verifyToken_ok (h : Calls) (host : HostHeader) (req : TokenVerifyRequest) :
    Prog.wp Disciplined h (verifyToken env libs (redisClient libs.json) host req)
      fun h' r => ∀ resp, r = .ok resp → StoredToken libs h' resp := by
  simp only [verifyToken, Prog.wp_tryBind, Prog.wp_ofExcept]
  cases hostHeader host with
  | error e => simp
  | ok host =>
    show Prog.wp Disciplined h (ite _ _ _) _
    split
    · simp only [Prog.wp_tryBind, Prog.wp_liftE]
      refine Prog.wp_imp (plain_ok (plain_managerVerifyToken env libs _ _ _) h) fun h' r _ => ?_
      cases r with
      | ok c =>
        simp only [Prog.wp_tryBind, wp_callE]
        refine ⟨trivial, fun _ resp hresp => ?_⟩
        cases hresp
        exact storedToken_of libs (by simp)
      | error e =>
        refine ⟨trivial, fun _ resp hresp => ?_⟩
        cases hresp
    · simp

theorem revokeToken_ok (h : Calls) (jti : String) :
    Prog.wp Disciplined h (revokeToken (redisClient libs.json) jti)
      fun h' r => ∀ resp, r = .ok resp → StoredToken libs h' resp := by
  simp only [revokeToken, Prog.wp_tryBind, Prog.wp_liftE, redisClient, RedisClient.deleteJti,
    wp_run]
  refine ⟨trivial, fun _ => ?_, by simp⟩
  simp only [wp_callE]
  refine ⟨trivial, fun _ resp hresp => ?_⟩
  cases hresp
  exact storedToken_of libs (by simp)

theorem revokeSubjectTokens_ok (h : Calls) (sub : String) :
    Prog.wp Disciplined h (revokeSubjectTokens (redisClient libs.json) sub)
      fun h' r => ∀ resp, r = .ok resp → StoredToken libs h' resp := by
  simp only [revokeSubjectTokens, Prog.wp_tryBind, Prog.wp_liftE, redisClient]
  refine Prog.wp_imp (plain_ok (plain_revokeGroup _) h) fun h₁ r₁ _ => ?_
  cases r₁ with
  | error e => simp
  | ok n =>
    simp only [Prog.wp_tryBind]
    refine Prog.wp_imp (plain_ok (quiet_recordRevoked n).plain h₁) fun h₂ r₂ _ => ?_
    cases r₂ with
    | error e => simp
    | ok _ =>
      intro resp hresp
      cases hresp
      exact storedToken_of libs (by simp)

theorem readyz_ok (h : Calls) :
    Prog.wp Disciplined h (readyz (redisClient libs.json)) (StoredToken libs) := by
  refine (Prog.wp_bind h _ _).mpr ?_
  refine Prog.wp_imp (plain_ok (plain_run (c := .ping) rfl) h) fun h₁ r₁ _ => ?_
  refine (Prog.wp_bind h₁ _ _).mpr ?_
  refine Prog.wp_imp (plain_ok KeyManager.quiet_checkJwks.plain h₁) fun h₂ r₂ _ => ?_
  refine (Prog.wp_bind h₂ _ _).mpr ?_
  have hp : ∀ live, Plain (snapshotServes live) := fun live => by
    unfold snapshotServes
    split
    · trivial
    · exact ⟨rfl, fun _ => trivial⟩
  refine Prog.wp_imp (plain_ok (hp _) h₂) fun h₃ r₃ _ => ?_
  exact storedToken_of libs fun _ _ => nofun

theorem handle_ok (ht : libs.json.Faithful) {h : Calls} (hn : ∀ x ∈ h, x.eff.isSetEx = false)
    (hn' : ∀ x ∈ h, x.eff.isHset = false) (r : Request) :
    Prog.wp Disciplined h (handle env libs (redisClient libs.json) r) (StoredToken libs) := by
  cases r with
  | createToken host req => exact respond_ok libs (createToken_ok env libs ht hn hn' host req)
  | verifyToken host req => exact respond_ok libs (verifyToken_ok env libs h host req)
  | refreshToken host token => exact respond_ok libs (refreshToken_ok env libs ht hn hn' host token)
  | revokeToken jti => exact respond_ok libs (revokeToken_ok libs h jti)
  | revokeSubjectTokens sub => exact respond_ok libs (revokeSubjectTokens_ok libs h sub)
  | livez => exact storedToken_of libs fun _ _ => nofun
  | readyz => exact readyz_ok libs h

/-! ## Layers -/

/-- Neither kind of credential was stored so far. -/
def Fresh (h : Calls) : Prop := (∀ x ∈ h, x.eff.isSetEx = false) ∧ ∀ x ∈ h, x.eff.isHset = false

theorem Fresh.snoc {h : Calls} (hf : Fresh h) {x : Call svc} (hx : x.eff.isSetEx = false)
    (hx' : x.eff.isHset = false) : Fresh (h ++ [x]) := by
  refine ⟨fun y hy => ?_, fun y hy => ?_⟩ <;> rcases List.mem_append.mp hy with hy | hy
  · exact hf.1 y hy
  · rw [List.mem_singleton.mp hy]; exact hx
  · exact hf.2 y hy
  · rw [List.mem_singleton.mp hy]; exact hx'

/-- Every request keeps to the discipline, and a token it answers with
carries a `jti` that it drew and stored. -/
theorem serve_disciplined (ht : libs.json.Faithful) (a : Admission) (r : Request) :
    Prog.wp Disciplined [] (serve env libs (redisClient libs.json) a r) (StoredToken libs) := by
  refine wp_serve (I := Fresh) a r ⟨nofun, nofun⟩ (fun h hash ttl hf _ => ?_)
    (fun h m _ _ _ hf _ => ?_) fun h hf => handle_ok env libs ht hf.1 hf.2 r
  · exact ⟨⟨hash, rfl⟩, fun _ => hf.snoc rfl rfl⟩
  · exact ⟨trivial, storedToken_of libs fun _ _ => nofun⟩

end Requests

end JwtService

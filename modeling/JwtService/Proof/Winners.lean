import JwtService.Proof.Expiry

/-!
# At most one exchange of a refresh token

An exchange answers with a pair only if it has set the mark of the token
(`refreshToken_won`). While the record of a token that was exchanged is there
it carries the mark (`Marked`), so a second exchange does not set it. A mark
on a record that is gone is set again: no two exchanges win while that does
not happen (`exchanged_at_most_once`).
-/

namespace JwtService

open Interaction Redis

/-- The request has set the mark of the token. -/
def Won (token : String) (h : Calls) : Prop :=
  (⟨.redis (.hsetNx (refreshKey token) "used" "1"), .ok true⟩ : Call svc) ∈ h

/-- The request exchanges the token, and has answered with a pair. -/
def Exchanged (token : String) (rq : Request) (p : M HttpResponse) : Prop :=
  ∃ host resp, rq = .refreshToken host token ∧ p = .ret resp ∧ resp.success

section Exchange

variable {env : Env} {libs : Libs} {h : Calls}

theorem Won.maintains {α : Type} {token : String} (p : M α) :
    @Prog.Maintains svc α (fun _ _ => True) (Won token) p :=
  Prog.Only.maintains (Prog.only_true p) (fun _ _ _ _ => trivial)
    fun _ _ _ hw _ => List.mem_append_left _ hw

/-- An exchange that returns a pair has set the mark. -/
theorem refreshTokenPair_won (token issuer : String) : Prog.wp (fun _ _ => True) h
    (JwtManager.refreshTokenPair env libs (redisClient libs.json) token issuer)
    fun h' r => ∀ pair, r = .ok pair → Won token h' := by
  refine wp_refreshTokenPair trivial (fun _ _ => nofun) (fun _ _ => nofun) fun h₁ fs record _ _ _ =>
    ⟨trivial, fun _ _ => nofun, ?_, ?_⟩
  · refine Prog.wp_imp (Won.maintains _ _ ?_) fun _ _ hw _ _ => hw
    exact List.mem_append_right _ (List.mem_singleton.mpr rfl)
  · exact Prog.Only.wp (Prog.only_true _) (fun _ _ _ _ => trivial) fun _ _ _ _ => nofun

/-- An exchange answers with a pair only if it has set the mark. -/
theorem refreshToken_won (a : Admission) (host : HostHeader) (token : String) :
    Prog.wp (fun _ _ => True) [] (serve env libs (redisClient libs.json) a (.refreshToken host token))
      fun h resp => resp.success → Won token h := by
  refine wp_serve (I := fun _ => True) a _ trivial (fun _ _ _ _ _ => ⟨trivial, fun _ => trivial⟩)
    (fun _ _ _ status _ _ hs => ⟨trivial, fun he => ?_⟩) fun h _ => ?_
  · obtain ⟨-, hlt⟩ : 200 ≤ status ∧ status < 300 := he
    omega
  · refine (Prog.wp_bind h _ _).mpr ?_
    simp only [refreshToken, Prog.wp_tryBind, Prog.wp_ofExcept]
    cases issuerForIssuance env host with
    | error e => exact fun hs => absurd hs (errorResponse_not_success e)
    | ok issuer =>
      simp only [Prog.wp_liftE]
      refine Prog.wp_imp (refreshTokenPair_won token issuer) fun h₁ r hr => ?_
      rcases r with e | ⟨access, refresh⟩
      · cases e <;> exact fun hs => absurd hs (errorResponse_not_success _)
      · exact ⟨trivial, fun _ _ => List.mem_append_left _ (hr _ rfl)⟩

end Exchange

/-! ## The mark -/

section Marks

variable {ι : Type} [DecidableEq ι] {s : JwkService} {token : String} {h : Events ι} {w w' : World}
  {i : ι}

/-- Where the record of the token is there, it carries the mark. -/
def Marked (token : String) (w : World) : Prop :=
  ∀ e, w.db.get w.now (refreshKey token) = some e →
    ∃ fs, e.value = .hash fs ∧ "used" ∈ fs.map Prod.fst

/-- A mark of a token that was exchanged finds the record. -/
def FindsRecord (token : String) (h : Events ι) (w : World) (ev : Event svc ι Nat) : Prop :=
  ∀ i f v first, ev = .call i ⟨.redis (.hsetNx (refreshKey token) f v), .ok first⟩ →
    (∃ j, Won token (callsOf j h)) → (w.db.get w.now (refreshKey token)).isSome = true

theorem Marked.tick (hm : Marked token w) (d : Nat) : Marked token (w.tick d) :=
  fun e he => hm e (Db.get_of_later (Nat.le_add_right _ _) he)

theorem Marked.congr (hdb : w'.db = w.db) (hnow : w'.now = w.now) (hm : Marked token w) :
    Marked token w' := by
  rw [Marked, hdb, hnow]
  exact hm

/-- The mark is set when the command has been executed. -/
theorem marked_of_hsetNx (hh : w.db.IsHash w.now (refreshKey token)) (v : String) :
    Marked token { w with db := (Redis.exec w.now w.db (.hsetNx (refreshKey token) "used" v)).2 } := by
  intro e he
  rw [exec_hsetNx hh] at he
  split at he
  · rename_i hu
    obtain ⟨fs, hfs⟩ := hh e he
    obtain ⟨v, t⟩ := e
    obtain rfl : v = .hash fs := hfs
    have he : w.db.get w.now (refreshKey token) = some ⟨.hash fs, t⟩ := he
    rw [Db.fields_of_get he] at hu
    exact ⟨fs, rfl, hu⟩
  · exact Db.field_of_mark he

/-- A spent record is a hash. -/
theorem Coherent.isHash (hc : Coherent h w) (token : String) : w.db.IsHash w.now (refreshKey token) := by
  intro e he
  obtain ⟨fs, hfs, -⟩ := (hc.shape.get he).refresh_inv
  exact ⟨fs, hfs⟩

theorem Marked.step (hc : Coherent h w) (hs : Spent h w (.refresh token)) {e : Eff} {r : e.Reply}
    (hd : Disciplined (callsOf i h) e) (hm : Marked token w) (hstep : (service s).call w e r w') :
    Marked token w' := by
  by_cases hq : e.quiet = true
  · obtain ⟨hdb, -, hnow⟩ := call_quiet hq hstep
    exact hm.congr hdb hnow
  · cases e with
    | newUuid =>
      obtain ⟨-, -, rfl⟩ := call_newUuid hstep
      exact hm.congr rfl rfl
    | redis d =>
      rcases call_redis hstep with ⟨rfl, -⟩ | ⟨rfl, -⟩
      · exact hm
      by_cases hcr : d.creates = some (refreshKey token)
      · obtain ⟨v, rfl⟩ := created_refresh hc hs hd hcr
        exact marked_of_hsetNx (hc.isHash token) v
      · intro e he
        obtain ⟨e₀, he₀, hv⟩ := exec_get_some hcr he
        obtain ⟨fs, hfs, hu⟩ := hm e₀ he₀
        rcases hv with hv | ⟨ms, ms', hz, -⟩
        · exact ⟨fs, hv.trans hfs, hu⟩
        · rw [hfs] at hz
          cases hz
    | _ => exact absurd rfl hq

/-! ## Runs -/

/-- What holds after the events `h`: whoever has won the mark has set it, and
nobody else has. -/
structure OneWinner (token : String) (h : Events ι) (w : World) : Prop where
  coherent : Coherent h w
  spent : ∀ i, Won token (callsOf i h) → Spent h w (.refresh token)
  marked : ∀ i, Won token (callsOf i h) → Marked token w
  unique : ∀ i j, Won token (callsOf i h) → Won token (callsOf j h) → i = j

theorem won_snoc {j : ι} {e : Eff} {r : e.Reply} : Won token (callsOf j (h ++ [.call i ⟨e, r⟩])) ↔
    Won token (callsOf j h) ∨ i = j ∧
      (⟨.redis (.hsetNx (refreshKey token) "used" "1"), .ok true⟩ : Call svc) = ⟨e, r⟩ :=
  mem_callsOf_snoc

/-- A mark that is set finds no mark. -/
theorem OneWinner.nobody (ho : OneWinner token h w) {v : String}
    (hg : FindsRecord token h w (.call i ⟨.redis (.hsetNx (refreshKey token) "used" v), .ok true⟩))
    (hstep : (service s).call w (.redis (.hsetNx (refreshKey token) "used" v)) (.ok true) w') (j : ι) :
    ¬ Won token (callsOf j h) := by
  intro hj
  obtain ⟨e, he⟩ := Option.isSome_iff_exists.mp (hg i _ _ _ rfl ⟨j, hj⟩)
  obtain ⟨fs, hfs, hu⟩ := ho.marked j hj e he
  obtain ⟨v', t⟩ := e
  obtain rfl : v' = .hash fs := hfs
  rcases call_redis hstep with ⟨-, x, hx⟩ | ⟨-, hx | ⟨x, hx⟩⟩
  · cases hx
  · rw [exec_hsetNx (ho.coherent.isHash token), Db.fields_of_get he, if_pos hu] at hx
    cases hx
  · cases hx

theorem OneWinner.step (ho : OneWinner token h w) {e : Eff} {r : e.Reply}
    (hd : Disciplined (callsOf i h) e) (hg : FindsRecord token h w (.call i ⟨e, r⟩))
    (hstep : (service s).call w e r w') : OneWinner token (h ++ [.call i ⟨e, r⟩]) w' := by
  have hc := ho.coherent.step hd hstep
  by_cases hwin : (⟨.redis (.hsetNx (refreshKey token) "used" "1"), .ok true⟩ : Call svc) = ⟨e, r⟩
  · -- The first to set the mark.
    cases hwin
    have hnone := ho.nobody hg hstep
    have hw : ∀ j, Won token (callsOf j (h ++ [.call i
        ⟨.redis (.hsetNx (refreshKey token) "used" "1"), .ok true⟩])) → i = j := fun j hj =>
      (won_snoc.mp hj).elim (fun hj => absurd hj (hnone j)) And.left
    have hs : Spent h w (.refresh token) := by
      obtain ⟨id, fs, hk, -, hne, hread⟩ := hd
      cases refreshKey_inj hk
      exact ho.coherent.read i token fs hne hread
    refine ⟨hc, fun _ _ => hs.step hstep, fun _ _ => ?_, fun j k hj hk => (hw j hj).symm.trans (hw k hk)⟩
    rcases call_redis hstep with ⟨-, x, hx⟩ | ⟨rfl, -⟩
    · cases hx
    · exact marked_of_hsetNx (ho.coherent.isHash token) "1"
  · have hold : ∀ j, Won token (callsOf j (h ++ [.call i ⟨e, r⟩])) → Won token (callsOf j h) :=
      fun j hj => (won_snoc.mp hj).elim id fun hj => absurd hj.2 hwin
    exact ⟨hc, fun j hj => (ho.spent j (hold j hj)).step hstep,
      fun j hj => (ho.marked j (hold j hj)).step ho.coherent (ho.spent j (hold j hj)) hd hstep,
      fun j k hj hk => ho.unique j k (hold j hj) (hold k hk)⟩

theorem OneWinner.env (ho : OneWinner token h w) {d : Nat} :
    OneWinner token (h ++ [.env d]) (w.tick d) := by
  have hcalls : ∀ j : ι, callsOf j (h ++ [.env d]) = callsOf j h := fun j => by
    rw [callsOf_append, callsOf_env, callsOf_nil, List.append_nil]
  refine ⟨ho.coherent.env, fun j hj => ?_, fun j hj => ?_, fun j k hj hk => ?_⟩
  · rw [hcalls] at hj
    exact (ho.spent j hj).env
  · rw [hcalls] at hj
    exact (ho.marked j hj).tick d
  · rw [hcalls] at hj hk
    exact ho.unique j k hj hk

variable {env : Env} {libs : Libs} {adm : ι → Admission} {req : ι → Request}

/-- While no mark of a token that was exchanged misses its record, at most one
exchange of the token succeeds; a mark that misses it is set again. -/
theorem exchanged_at_most_once (ht : libs.json.Faithful) :
    (∀ (tr : Events ι) (P : Pool svc World ι HttpResponse),
      (service s).RunWhere (FindsRecord token) [] (start env libs adm req) tr P →
        ∀ i j, Exchanged token (req i) (P.prog i) → Exchanged token (req j) (P.prog j) → i = j) ∧
    ∀ (w w' : World) (f v : String) (first : Bool), w.db.get w.now (refreshKey token) = none →
      (service s).call w (.redis (.hsetNx (refreshKey token) f v)) (.ok first) w' → first = true := by
  refine ⟨fun tr P hr => ?_, fun w w' f v first hnone hs => ?_⟩
  · have hw : ∀ i, Prog.wp Disciplined (callsOf i ([] : Events ι))
        ((start env libs adm req).prog i) fun h resp => StoredToken libs h resp :=
      (start_running ht).requests
    have ho : OneWinner token tr P.st := by
      refine hr.inv (I := OneWinner token) (R := fun _ => Disciplined)
        (Q := fun _ h resp => StoredToken libs h resp) (fun h w i e r w' ho hd hg hs => ho.step hd hg hs)
        (fun h w d w' ho _ hs => ?_) hw ⟨coherent_empty, nofun, nofun, nofun⟩
      cases hs
      exact ho.env
    have hwon : ∀ i, Exchanged token (req i) (P.prog i) → Won token (callsOf i tr) := by
      rintro i ⟨host, resp, hreq, hp, hsuccess⟩
      have hpath : Prog.Path (serve env libs (redisClient libs.json) (adm i) (req i)) (callsOf i tr)
          (P.prog i) := hr.run.path i
      rw [hp, hreq] at hpath
      exact hpath.wp_ret (refreshToken_won (adm i) host token) hsuccess
    exact fun i j hi hj => ho.unique i j (hwon i hi) (hwon j hj)
  · rcases call_redis hs with ⟨-, e, he⟩ | ⟨-, hx | ⟨e, he⟩⟩
    · cases he
    · simp only [Redis.exec, hnone] at hx
      cases hx
      rfl
    · cases he

end Marks

/-! ## Exchanges of one token -/

/-- Who presents the refresh token of the pair that `issuer` is handed. -/
inductive Presenter where
  | issuer | first | reuser | late
deriving DecidableEq

def exchanges : Presenter → Request
  | .issuer => .createToken (.text "host") ⟨"user", ["api"], some 60, true, []⟩
  | _ => .refreshToken (.text "host") uuidB

def uuidF : String := "00000000-0000-4000-8000-00000000000f"
def uuidG : String := "00000000-0000-4000-8000-0000000000f0"

/-- The effects other than a mark. -/
def NoMark (e : Eff) : Prop := ∀ k f v, e ≠ .redis (.hsetNx k f v)

/-- The effects of issuing a pair. -/
def Eff.Issuing : Eff → Prop
  | .redis (.exists _) | .redis (.setEx ..) | .redis (.zadd ..) | .redis (.expireAt ..) | .redis (.hset ..)
  | .redis (.expire ..) => True
  | .redis _ => False
  | _ => True

theorem issuing_quiet {e : Eff} (he : e.quiet = true) : e.Issuing := by
  cases e with
  | redis c => cases he
  | _ => trivial

theorem issuing_generateToken {env : Env} {libs : Libs} {issuer subject : String} {audience : List String}
    {ttl : Option Nat} {extra : List (String × Json)} : @Prog.Only svc _ Eff.Issuing
      (JwtManager.generateToken env libs (redisClient libs.json) issuer subject audience ttl extra) := by
  apply only_generateToken fun _ he _ => issuing_quiet he
  exact only_createNew (fun _ he _ => issuing_quiet he) trivial (fun _ _ => trivial) (fun _ _ => trivial)
    (fun _ _ _ _ _ => trivial) fun _ => trivial

theorem issuing_issuePair {env : Env} {libs : Libs} {issuer subject family : String}
    {audience : List String} {ttl : Option Nat} {extra : List (String × Json)} :
    @Prog.Only svc _ Eff.Issuing (issuePair env libs issuer subject audience ttl extra family) :=
  only_issuePair env libs trivial trivial issuing_generateToken (fun _ _ => trivial) (fun _ _ => trivial)
    (fun _ _ => trivial) fun _ => trivial

theorem issuing_createToken {env : Env} {libs : Libs} {host : HostHeader} {req : TokenRequest} :
    @Prog.Only svc _ Eff.Issuing (handle env libs (redisClient libs.json) (.createToken host req)) := by
  refine only_createToken (fun _ he _ => issuing_quiet he) fun issuer => ?_
  show @Prog.Only svc (Except JwtError (String × Option String)) Eff.Issuing (ite _ _ _)
  split
  · exact Prog.only_tryBind (Prog.only_tryBind (only_callE trivial) fun _ => issuing_issuePair)
      fun _ => trivial
  · exact Prog.only_tryBind issuing_generateToken fun _ => trivial

/-- A pair is issued without a mark. -/
theorem noMark_issuing {e : Eff} (he : e.Issuing) : NoMark e := by
  rintro k f v rfl
  exact he

def isMark : Event svc Presenter Nat → Bool
  | .call _ ⟨.redis (.hsetNx ..), _⟩ => true
  | _ => false

theorem countP_noMark {i : Presenter} {cs : Calls} (h : ∀ c ∈ cs, NoMark c.eff) :
    (cs.map (Event.call i) : Events Presenter).countP isMark = 0 := by
  refine List.countP_eq_zero.mpr fun ev hev hm => ?_
  obtain ⟨⟨e, r⟩, hc, rfl⟩ := List.mem_map.mp hev
  have hne := h _ hc
  cases e with
  | redis c =>
    cases c with
    | hsetNx k f v => exact hne k f v rfl
    | _ => cases hm
  | _ => cases hm

/-- A run with one mark. -/
theorem findsRecord_of_one {s : JwkService} {token : String} {tr : Events Presenter}
    {P P' : Pool svc World Presenter HttpResponse} (hr : (service s).Run P tr P')
    (h₁ : tr.countP isMark = 1) : (service s).RunWhere (FindsRecord token) [] P tr P' := by
  refine hr.where fun t₁ ev t₂ w htr => ?_
  rintro i f v first rfl ⟨j, hj⟩
  have hpos : 0 < t₁.countP isMark := List.countP_pos_iff.mpr ⟨_, mem_callsOf.mp hj, rfl⟩
  rw [htr, List.countP_append, List.countP_cons_of_pos rfl] at h₁
  omega

/-- The record of the token, before it is exchanged. -/
def firstRecord : List (String × String) := recordFields ⟨"user", ["api"], uuidC⟩ apiText

/-- The calls of an exchange of the token; `cs` are those of the pair it issues. -/
def exchangeCalls (cs : Calls) : Calls :=
  [⟨.redis (.hgetAll (refreshKey uuidB)), .ok firstRecord⟩,
    ⟨.redis (.hsetNx (refreshKey uuidB) "used" "1"), .ok true⟩] ++ (cs ++ [⟨.metric .tokenIssued, ()⟩])

/-- The pair is issued. -/
theorem echo_issued {ι : Type} (s : JwkService) (i : ι) : ∃ (access : String) (x : List (String × Json))
    (w : World) (cs : Calls),
    JwtManager.claimsSegmentOf echoLibs access = .ok (newClaims "host" "user" ["api"] 0 60 uuidA x) ∧
    Prog.Path (handle bareEnv echoLibs (redisClient echoLibs.json) (exchanges .issuer)) cs
      (.ret ⟨200, .token access (some uuidB)⟩) ∧
    (faultless s).Trace World.empty (cs.map (Event.call i) : List (Event svc ι Nat)) w ∧
    w.Sound ∧ w.now = 0 ∧ w.drawn = [uuidB, uuidA, uuidC] ∧
    w.db = pairDb World.empty.db 0 uuidA 60 uuidB ⟨"user", ["api"], uuidC⟩ apiText 2592000 ∧
    w.db.get w.now (refreshKey uuidB) = some ⟨.hash firstRecord, some (0 + 1000 * 2592000)⟩ := by
  obtain ⟨access, x, w, hc, hissue, hs, hnow, hdrawn, hdb, hentry⟩ := echo_firstPair s
  obtain ⟨cs, hpath, ht⟩ := System.Trace.of_eval (S := faultless s) hissue i
  exact ⟨access, x, w, cs, hc, hpath, ht, hs, hnow, hdrawn, hdb, Db.get_eq_some.mpr ⟨hentry, by rw [hnow]; rfl⟩⟩

theorem call_read {s : JwkService} {w : World} (hs : w.Sound) {t : Option Nat}
    (hget : w.db.get w.now (refreshKey uuidB) = some ⟨.hash firstRecord, t⟩) :
    (faultless s).call w (.redis (.hgetAll (refreshKey uuidB))) (.ok firstRecord) w := by
  have h := @call_hgetAll (faultless s).call _ w uuidB hs
  rw [Db.fields_of_get hget] at h
  exact h

/-- The calls of an exchange, whatever happens between them. -/
theorem path_exchangeCalls {access id : String} {cs : Calls} (hp : Prog.Path (JwtManager.exchange bareEnv
    echoLibs (redisClient echoLibs.json) "host" ⟨"user", ["api"], uuidC⟩) cs (.ret (.ok (access, id)))) :
    Prog.Path (handle bareEnv echoLibs (redisClient echoLibs.json) (exchanges .first)) (exchangeCalls cs)
      (.ret ⟨200, .token access (some id)⟩) :=
  path_refreshToken rfl (List.cons_ne_nil _ _) (recordOfFields_of apiText_parse) hp

/-- What is left of an exchange once the mark is set, with nobody else at work. -/
theorem echo_markedExchange {ι : Type} {s : JwkService} {w : World} (hs : w.Sound) (hnow : w.now = 0)
    (hdrawn : w.drawn = [uuidB, uuidA, uuidC]) (i : ι) :
    ∃ (access : String) (x : List (String × Json)) (w' : World) (cs : Calls),
      JwtManager.claimsSegmentOf echoLibs access = .ok (newClaims "host" "user" ["api"] 0 3600 uuidD x) ∧
      Prog.Path (JwtManager.exchange bareEnv echoLibs (redisClient echoLibs.json) "host"
        ⟨"user", ["api"], uuidC⟩) cs (.ret (.ok (access, uuidE))) ∧
      (faultless s).Trace w
        ((cs ++ [⟨.metric .tokenIssued, ()⟩] : Calls).map (Event.call i) : List (Event svc ι Nat)) w' ∧
      w'.Sound ∧ w'.now = 0 ∧ w'.drawn = [uuidE, uuidD, uuidB, uuidA, uuidC] ∧
      w'.db = pairDb w.db 0 uuidD 3600 uuidE ⟨"user", ["api"], uuidC⟩ apiText 2592000 := by
  obtain ⟨access, x, w', hc, hpair, hnow', hdrawn', hdb'⟩ := @echo_issuePair s w hs
    "user" uuidC none 3600 uuidD uuidE (bare_exchangeable _ (by rw [hnow]; decide))
    ⟨by decide, by rw [hdrawn]; decide⟩ ⟨by decide, by rw [World.draw_drawn, hdrawn]; decide⟩
    (by rw [hnow]; decide)
  rw [hnow] at hc hnow' hdb'
  obtain ⟨cs, hpath, ht⟩ := System.Trace.of_eval (S := faultless s) hpair i
  have hs' : w'.Sound := (hs.alone (@issuePair_ok bareEnv echoLibs echo_faithful [] (by exact nofun)
    (by exact nofun) "host" "user" ["api"] none [] uuidC) hpair).1
  have hmetric : (faultless s).call w' (.metric .tokenIssued) () w' := ⟨.plain, rfl, rfl⟩
  refine ⟨access, x, w', cs, hc, hpath, ?_, hs', hnow', by rw [hdrawn', hdrawn], hdb'⟩
  rw [List.map_append]
  exact ht.trans (.call hmetric (.nil _))

theorem get_markUsed {w : World} {t : Option Nat}
    (hget : w.db.get w.now (refreshKey uuidB) = some ⟨.hash firstRecord, t⟩) :
    (w.markUsed uuidB).db.get w.now (refreshKey uuidB) = some ⟨.hash (("used", "1") :: firstRecord), t⟩ := by
  rw [World.markUsed, World.setDb_db, Db.get_mark (Nat.le_refl _) hget, Db.fields_of_get hget]

/-- The pair is exchanged with nobody else at work. -/
theorem echo_exchanged {ι : Type} {s : JwkService} {w : World} (hs : w.Sound) (hnow : w.now = 0)
    (hdrawn : w.drawn = [uuidB, uuidA, uuidC]) (hget : w.db.get w.now (refreshKey uuidB) =
      some ⟨.hash firstRecord, some (0 + 1000 * 2592000)⟩) (i : ι) :
    ∃ (access : String) (x : List (String × Json)) (w' : World) (cs : Calls),
      JwtManager.claimsSegmentOf echoLibs access = .ok (newClaims "host" "user" ["api"] 0 3600 uuidD x) ∧
      Prog.Path (JwtManager.exchange bareEnv echoLibs (redisClient echoLibs.json) "host"
        ⟨"user", ["api"], uuidC⟩) cs (.ret (.ok (access, uuidE))) ∧
      (faultless s).Trace w ((exchangeCalls cs).map (Event.call i) : List (Event svc ι Nat)) w' ∧
      w'.Sound ∧ w'.now = 0 ∧ w'.drawn = [uuidE, uuidD, uuidB, uuidA, uuidC] ∧
      w'.db = pairDb (w.markUsed uuidB).db 0 uuidD 3600 uuidE ⟨"user", ["api"], uuidC⟩ apiText 2592000 ∧
      w'.db.get w'.now (refreshKey uuidB) =
        some ⟨.hash (("used", "1") :: firstRecord), some (0 + 1000 * 2592000)⟩ := by
  obtain ⟨hrec, hused⟩ := echo_record hget
  have hmarked : (w.markUsed uuidB).Sound := hs.mark ⟨by decide, by rw [hdrawn]; decide⟩
  obtain ⟨access, x, w', cs, hc, hpath, ht, hs', hnow', hdrawn', hdb'⟩ :=
    @echo_markedExchange _ s _ hmarked hnow hdrawn i
  have hused' := get_markUsed hget
  rw [hnow] at hused'
  refine ⟨access, x, w', cs, hc, hpath, .call (call_read hs hget) (.call (call_hsetNx hs hused) ht), hs', hnow',
    hdrawn', hdb', ?_⟩
  rw [hnow', hdb', Db.get_congr (pairDb_ne (by decide) (by decide) (by decide) (by decide)), hused']

/-- An exchange of the token, once it was issued. -/
theorem exchanged_at_most_once_first : ∃ (tr : Events Presenter)
    (P : Pool svc World Presenter HttpResponse),
    (service ⟨300000, 10000, 10000⟩).RunWhere (FindsRecord uuidB) []
      (start bareEnv echoLibs (fun _ => admitted) exchanges) tr P ∧
    ∀ i, Exchanged uuidB (exchanges i) (P.prog i) ↔ i = .first := by
  let s : JwkService := ⟨300000, 10000, 10000⟩
  obtain ⟨access, -, w₁, cs, -, hpath, ht, hs₁, hnow, hdrawn, -, hget⟩ := echo_issued s Presenter.issuer
  obtain ⟨access₂, -, w₂, cs₁, -, hpair, ht₁, -⟩ := @echo_exchanged _ s w₁ hs₁ hnow hdrawn hget Presenter.first
  let tr : Events Presenter := cs.map (.call .issuer) ++ (exchangeCalls cs₁).map (.call .first)
  have htrace : (service s).Trace World.empty tr w₂ :=
    (ht.trans ht₁).mono faultless_service fun _ _ _ h => h
  have hrun : (service s).Run (start bareEnv echoLibs (fun _ => admitted) exchanges) tr
      ⟨w₂, fun
        | .issuer => .ret ⟨200, .token access (some uuidB)⟩
        | .first => .ret ⟨200, .token access₂ (some uuidE)⟩
        | i => serve bareEnv echoLibs (redisClient echoLibs.json) admitted (exchanges i)⟩ := by
    refine htrace.run fun i => ?_
    cases i <;> simp only [tr, callsOf_append, callsOf_map, reduceCtorEq, if_true, if_false,
      List.nil_append, List.append_nil]
    · exact hpath
    · exact path_exchangeCalls hpair
    · exact .nil _
    · exact .nil _
  have hone : tr.countP isMark = 1 := by
    have h₀ := @countP_noMark .issuer cs fun c hc => noMark_issuing (issuing_createToken.path hpath c hc)
    have h₁ := @countP_noMark .first cs₁ fun c hc => noMark_issuing (issuing_issuePair.path hpair c hc)
    simp only [tr, exchangeCalls, List.map_append, List.countP_append, h₀, h₁]
    rfl
  have hwhere := @findsRecord_of_one s uuidB _ _ _ hrun hone
  have hfirst : Exchanged uuidB (exchanges .first) (.ret ⟨200, .token access₂ (some uuidE)⟩) :=
    ⟨_, _, rfl, rfl, show 200 ≤ 200 by decide, show 200 < 300 by decide⟩
  refine ⟨tr, _, hwhere, fun i => ⟨fun hi => ?_, fun hi => hi ▸ hfirst⟩⟩
  exact (exchanged_at_most_once echo_faithful).1 tr _ hwhere i .first hi hfirst

/-- What the requests are answered with; the access tokens are the parameters. -/
def answered (issued first late : String) : Presenter → M HttpResponse
  | .issuer => .ret ⟨200, .token issued (some uuidB)⟩
  | .first => .ret ⟨200, .token first (some uuidE)⟩
  | .reuser => .ret (Error.unauthorized "Invalid refresh token").errorResponse
  | .late => .ret ⟨200, .token late (some uuidG)⟩

/-- Three exchanges of one token: the second ends the family after the third
has read the record, and the third is answered with a pair like the first. -/
theorem exchanged_twice : ∃ (tr : Events Presenter) (P : Pool svc World Presenter HttpResponse),
    (faultless ⟨300000, 10000, 10000⟩).Run
      (start bareEnv echoLibs (fun _ => admitted) exchanges) tr P ∧
    Exchanged uuidB (exchanges .first) (P.prog .first) ∧
    Exchanged uuidB (exchanges .late) (P.prog .late) := by
  let s : JwkService := ⟨300000, 10000, 10000⟩
  obtain ⟨access, -, w₁, cs, -, hpath, ht, hs₁, hnow, hdrawn, hdb, hget⟩ := echo_issued s Presenter.issuer
  -- The first exchange.
  obtain ⟨access₂, -, w₂, cs₁, -, hpath₁, ht₁, hs₂, hnow₂, hdrawn₂, hdb₂, hget₂⟩ :=
    @echo_exchanged _ s w₁ hs₁ hnow hdrawn hget Presenter.first
  -- The second ends the family.
  obtain ⟨hrec₂, hused₂⟩ := echo_usedRecord hget₂
  have hreuse := @echo_reuse s w₂ hs₂ uuidB _ hrec₂ hused₂
  let w₃ := w₂.killFamily uuidC
  have hs₃ : w₃.Sound := @World.Sound.handle bareEnv echoLibs echo_faithful _ _ _ _ hs₂ _ _ hreuse
  have hgone : w₃.db.get w₃.now (refreshKey uuidB) = none := by
    have hlisted : refreshKey uuidB ∈
        w₂.db.listed w₂.now (familyGroup uuidC) (timestamp w₂.now) := by
      rw [hnow₂, hdb₂, World.markUsed, World.setDb_db, hdb, hnow]
      decide
    show (w₂.killFamily uuidC).db.get w₂.now (refreshKey uuidB) = none
    rw [World.killFamily, World.setDb_db, Db.get_delAll, if_pos (List.mem_cons_of_mem _ hlisted)]
  -- The third goes on with the record it has read.
  have hused₃ : w₃.used uuidB = false := by
    rw [World.used, Db.fields_of_none hgone]
    rfl
  have hs₄ : (w₃.markUsed uuidB).Sound := hs₃.mark ⟨by decide, show uuidB ∈ w₂.drawn by rw [hdrawn₂]; decide⟩
  have hdrawn₃ : (w₃.markUsed uuidB).drawn = [uuidE, uuidD, uuidB, uuidA, uuidC] := hdrawn₂
  have hnow₃ : (w₃.markUsed uuidB).now = 0 := hnow₂
  obtain ⟨access₃, -, w₅, -, hpair, -, -, -⟩ := @echo_issuePair s (w₃.markUsed uuidB) hs₄ "user" uuidC
    none 3600 uuidF uuidG (bare_exchangeable _ (by rw [hnow₃]; decide))
    ⟨by decide, by rw [hdrawn₃]; decide⟩ ⟨by decide, by rw [World.draw_drawn, hdrawn₃]; decide⟩
    (by rw [hnow₃]; decide)
  obtain ⟨cs₂, hpath₂, ht₂⟩ := System.Trace.of_eval (S := faultless s) hreuse Presenter.reuser
  obtain ⟨cs₃, hpath₃, ht₃⟩ := System.Trace.of_eval (S := faultless s) hpair Presenter.late
  let tr : Events Presenter := cs.map (.call .issuer) ++
    ([⟨.redis (.hgetAll (refreshKey uuidB)), .ok firstRecord⟩].map (.call .late) ++
      ((exchangeCalls cs₁).map (.call .first) ++ (cs₂.map (.call .reuser) ++
        ([⟨.redis (.hsetNx (refreshKey uuidB) "used" "1"), .ok true⟩].map (.call .late) ++
          (cs₃.map (.call .late) ++ [⟨.metric .tokenIssued, ()⟩].map (.call .late))))))
  have htrace : (faultless s).Trace World.empty tr w₅ :=
    ht.trans (.call (call_read hs₁ hget) (ht₁.trans (ht₂.trans (.call (call_hsetNx hs₃ hused₃)
      (ht₃.trans (.call ⟨.plain, rfl, rfl⟩ (.nil _)))))))
  have hrun : (faultless s).Run (start bareEnv echoLibs (fun _ => admitted) exchanges) tr
      ⟨w₅, answered access access₂ access₃⟩ := by
    refine htrace.run fun i => ?_
    cases i <;> simp only [tr, callsOf_append, callsOf_map, reduceCtorEq, if_true, if_false,
      List.nil_append, List.append_nil]
    · exact hpath
    · exact path_exchangeCalls hpath₁
    · exact hpath₂
    · exact path_exchangeCalls hpath₃
  have hok : (⟨200, .token access₂ (some uuidE)⟩ : HttpResponse).success :=
    ⟨show 200 ≤ 200 by decide, show 200 < 300 by decide⟩
  exact ⟨tr, _, hrun, ⟨_, _, rfl, rfl, hok⟩, ⟨_, _, rfl, rfl, hok⟩⟩

end JwtService

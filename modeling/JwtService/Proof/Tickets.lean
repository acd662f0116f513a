import JwtService.Proof.FailedExchange
import JwtService.Proof.Families
import JwtService.Proof.Winners

/-!
# One refresh token for each family

A family of refresh tokens has one place, which is held by a token that was
stored and not exchanged, or by the request that is about to store one: the
issue that drew the family, or the exchange that has set the mark of the token
before (`Bears`). Each call of each request hands the place on or leaves it
where it is (`Tickets.step`), whatever fails and in whatever order the calls of
the requests fall. So two refresh tokens of one family are never usable at one
time (`one_usable_refresh`).

As for a single token (`exchanged_at_most_once`), a mark that misses its record
gives the place away twice.
-/

namespace JwtService

open Interaction Redis

/-! ## What a request does -/

/-- The request read a record of the token, one of the family. -/
def ReadIn (token family : String) (h : Calls) : Prop :=
  ∃ fs : List (String × String), (⟨.redis (.hgetAll (refreshKey token)), .ok fs⟩ : Call svc) ∈ h ∧
    fs.lookup "family" = some family

/-- The request drew the family, or exchanges a token of it. -/
def MayStore (family : String) (h : Calls) : Prop :=
  Drew family h ∨ ∃ token, ReadIn token family h ∧ Won token h

/-- A record names a family in which the request may store it, and a mark is of
a token whose record named one. -/
def Ticketed (h : Calls) : Eff → Prop
  | .redis (.hset _ fs) => ∃ family, fs.lookup "family" = some family ∧ MayStore family h
  | .redis (.hsetNx k _ _) => ∃ token family, k = refreshKey token ∧ ReadIn token family h
  | _ => True

theorem ReadIn.append {token family : String} {h : Calls} (hr : ReadIn token family h) (cs : Calls) :
    ReadIn token family (h ++ cs) := by
  obtain ⟨fs, hm, hf⟩ := hr
  exact ⟨fs, List.mem_append_left _ hm, hf⟩

theorem MayStore.append {family : String} {h : Calls} (hm : MayStore family h) (cs : Calls) :
    MayStore family (h ++ cs) := by
  rcases hm with hd | ⟨token, hr, hw⟩
  · exact .inl (List.mem_append_left _ hd)
  · exact .inr ⟨token, hr.append cs, List.mem_append_left _ hw⟩

section Requests

variable {env : Env} {libs : Libs} {family : String} {α : Type}

/-- A program that stores and marks as it may. -/
abbrev Regular (p : M α) : Prop := @Prog.Maintains svc α Ticketed (fun _ => True) p

/-- The call neither stores nor marks a refresh token. -/
def Eff.Idle : Eff → Prop
  | .redis (.hset ..) | .redis (.hsetNx ..) => False
  | _ => True

theorem Eff.Idle.ticketed {e : Eff} (he : e.Idle) (h : Calls) : Ticketed h e := by
  cases e with
  | redis c => cases c <;> trivial
  | _ => trivial

theorem idle_quiet {e : Eff} (he : e.quiet = true) : e.Idle := by
  cases e with
  | redis c => cases he
  | _ => trivial

theorem regular_of_idle {p : M α} (hp : @Prog.Only svc α Eff.Idle p) : Regular p :=
  Prog.Only.maintains hp (fun h _ _ he => he.ticketed h) fun _ _ _ _ _ => trivial

theorem regular_quiet {p : M α} (hp : Quiet p) : Regular p :=
  regular_of_idle (Prog.Only.mono (fun _ he => idle_quiet he) hp)

theorem idle_generateToken {issuer subject : String} {audience : List String} {ttl : Option Nat}
    {extra : List (String × Json)} : @Prog.Only svc _ Eff.Idle
      (JwtManager.generateToken env libs (redisClient libs.json) issuer subject audience ttl extra) := by
  apply only_generateToken fun _ he _ => idle_quiet he
  exact only_createNew (fun _ he _ => idle_quiet he) trivial (fun _ _ => trivial) (fun _ _ => trivial)
    (fun _ _ _ _ _ => trivial) fun _ => trivial

theorem idle_revokeGroup (g : String) : @Prog.Only svc _ Eff.Idle (RedisClient.revokeGroup g) :=
  only_revokeGroup trivial (fun _ => trivial) trivial fun _ => trivial

/-- The call may be made by a request that may store in the family. -/
def Stores (family : String) (e : Eff) : Prop := ∀ h, MayStore family h → Ticketed h e

theorem Eff.Idle.stores {e : Eff} (he : e.Idle) : Stores family e := fun h _ => he.ticketed h

theorem stores_issueRefresh {subject : String} {audience : List String} : @Prog.Only svc _ (Stores family)
    (JwtManager.issueRefresh env (redisClient libs.json) subject audience family) := by
  have hidle : ∀ {e : Eff}, e.Idle → Stores family e := Eff.Idle.stores
  refine Prog.only_tryBind (only_callE (hidle trivial)) fun id => ?_
  refine Prog.only_tryBind (Prog.only_mapError ?_) fun _ => ?_
  · show @Prog.Only svc _ _ (RedisClient.storeRefresh libs.json id _ _)
    unfold RedisClient.storeRefresh
    split
    · trivial
    · exact Prog.only_tryBind (only_run fun h hm => ⟨family, rfl, hm⟩) fun _ => only_run (hidle trivial)
  · refine Prog.only_tryBind (only_callE (hidle trivial)) fun now => ?_
    refine Prog.only_tryBind (Prog.only_mapError ?_) fun _ => Prog.only_pure_ok _
    exact only_addToGroup (hidle trivial) (hidle trivial)

/-- A pair is stored by a request that may store in the family. -/
theorem issuePair_stores {issuer subject : String} {audience : List String} {ttl : Option Nat}
    {extra : List (String × Json)} {h : Calls} (hm : MayStore family h) : Prog.wp Ticketed h
      (issuePair env libs issuer subject audience ttl extra family) fun _ _ => True := by
  have hpair : @Prog.Only svc _ (Stores family)
      (issuePair env libs issuer subject audience ttl extra family) := by
    refine Prog.only_tryBind (Prog.Only.mono (fun _ he => he.stores) idle_generateToken) fun access => ?_
    refine Prog.only_tryBind (only_registerAccess (fun _ _ => Eff.Idle.stores trivial)
      fun _ => Eff.Idle.stores trivial) fun _ => ?_
    exact Prog.only_tryBind stores_issueRefresh fun _ => Prog.only_pure_ok _
  have hkept : @Prog.Maintains svc _ Ticketed (MayStore family)
      (issuePair env libs issuer subject audience ttl extra family) :=
    Prog.Only.maintains hpair (fun h _ hm he => he h hm) fun _ _ _ hm _ => hm.append _
  exact Prog.wp_imp (hkept h hm) fun _ _ _ => trivial

theorem regular_refreshTokenPair (token issuer : String) :
    Regular (JwtManager.refreshTokenPair env libs (redisClient libs.json) token issuer) := by
  refine fun h _ => wp_refreshTokenPair trivial (fun _ => trivial) (fun _ => trivial)
    fun h₁ fs record heq _ hrecord => ⟨?_, fun _ => trivial, ?_, ?_⟩
  all_goals
    have hread : ReadIn token record.family h₁ := ⟨fs, by rw [heq]; simp, recordOfFields_family hrecord⟩
  · exact ⟨token, record.family, rfl, hread⟩
  · refine issuePair_stores (.inr ⟨token, hread.append _, ?_⟩)
    exact List.mem_append_right _ List.mem_cons_self
  · exact regular_of_idle (idle_revokeGroup _) _ trivial

theorem regular_respond {p : ExceptT Error M HttpResponse} (hp : Regular p) : Regular (respond p) :=
  Prog.maintains_bind hp fun r => by cases r <;> exact Prog.maintains_ret _

theorem regular_counted {m : Metric} {resp : HttpResponse} : @Regular (Except Error HttpResponse) (do
    callE (.metric m)
    pure resp : ExceptT Error M HttpResponse) :=
  regular_of_idle (Prog.only_tryBind (only_callE trivial) fun _ => trivial)

theorem regular_handle (rq : Request) : Regular (handle env libs (redisClient libs.json) rq) := by
  cases rq with
  | createToken host req =>
    refine regular_respond (Prog.maintains_tryBind (Prog.maintains_ofExcept _) fun issuer => ?_)
    refine Prog.maintains_tryBind (Prog.maintains_liftE ?_) fun r => ?_
    · show @Regular (Except JwtError (String × Option String)) (ite _ _ _)
      split
      · refine Prog.maintains_tryBind (fun h _ => ?_) fun _ => Prog.maintains_ret _
        rw [JwtManager.generateTokenPair, Prog.wp_tryBind, wp_callE]
        refine ⟨trivial, fun family => issuePair_stores (.inl ?_)⟩
        exact List.mem_append_right _ List.mem_cons_self
      · exact Prog.maintains_tryBind (regular_of_idle idle_generateToken) fun _ => Prog.maintains_ret _
    · rcases r with e | ⟨token, refresh⟩
      · cases e <;> exact Prog.maintains_ret _
      · exact regular_counted
  | refreshToken host token =>
    refine regular_respond (Prog.maintains_tryBind (Prog.maintains_ofExcept _) fun issuer => ?_)
    refine Prog.maintains_tryBind (Prog.maintains_liftE (regular_refreshTokenPair _ _)) fun r => ?_
    rcases r with e | ⟨token, refresh⟩
    · cases e <;> exact Prog.maintains_ret _
    · exact regular_counted
  | verifyToken host req =>
    exact regular_of_idle (only_verifyToken (fun _ he => idle_quiet he) fun _ => trivial)
  | revokeToken jti =>
    refine regular_respond (Prog.maintains_tryBind (Prog.maintains_liftE
      (regular_of_idle (only_run trivial))) fun r => ?_)
    cases r with
    | error e => exact Prog.maintains_ret _
    | ok _ => exact regular_counted
  | revokeSubjectTokens sub =>
    exact regular_of_idle (only_revokeSubject trivial trivial (fun _ => trivial) trivial fun _ => trivial)
  | livez => exact Prog.maintains_ret _
  | readyz =>
    refine Prog.maintains_bind (regular_of_idle (only_run trivial)) fun _ => ?_
    refine Prog.maintains_bind (regular_quiet KeyManager.quiet_checkJwks) fun _ => ?_
    refine Prog.maintains_bind ?_ fun _ => Prog.maintains_ret _
    unfold snapshotServes
    split
    · exact Prog.maintains_ret _
    · exact regular_quiet (quiet_call _ rfl)

/-- Every request stores and marks as it may. -/
theorem serve_ticketed (a : Admission) (rq : Request) :
    Prog.wp Ticketed [] (serve env libs (redisClient libs.json) a rq) fun _ _ => True :=
  wp_serve (I := fun _ => True) a rq trivial (fun _ _ _ _ _ => ⟨trivial, fun _ => trivial⟩)
    (fun _ _ _ _ _ _ _ => ⟨trivial, trivial⟩) fun h _ => regular_handle rq h trivial

end Requests

/-! ## The place of a family -/

section Tickets

variable {ι : Type} [DecidableEq ι] {s : JwkService} {h : Events ι} {w w' : World} {i : ι}
  {token family : String}

/-- The request has sent a refresh token to the store. -/
def HasStored (h : Calls) : Prop := ∃ x ∈ h, x.eff.isHset = true

/-- The token was sent to the store with a record of the family. -/
def BornIn (token family : String) (h : Events ι) : Prop :=
  ∃ i fs r, (⟨.redis (.hset (refreshKey token) fs), r⟩ : Call svc) ∈ callsOf i h ∧
    fs.lookup "family" = some family

/-- What may hold the place of a family. -/
inductive Holder (ι : Type) where
  | request (i : ι)
  | token (id : String)

/-- A request holds the place until it stores a token, and a token until it is
exchanged. -/
def Bears (family : String) (h : Events ι) : Holder ι → Prop
  | .request i => (∀ x ∈ callsOf i h, x.eff.isHset = false) ∧
      (Drew family (callsOf i h) ∨ ∃ token, BornIn token family h ∧ Won token (callsOf i h))
  | .token id => BornIn id family h ∧ ∀ i, ¬ Won id (callsOf i h)

/-- The invariant of the families after the events `h`. -/
structure Tickets (h : Events ι) (w : World) : Prop where
  winner : ∀ token, OneWinner token h w
  /-- A request stores one refresh token at most, under a UUID it drew. -/
  once : ∀ i, ∀ x ∈ callsOf i h, ∀ y ∈ callsOf i h, x.eff.isHset = true → y.eff.isHset = true → x = y
  drew : ∀ i id fs r, (⟨.redis (.hset (refreshKey id) fs), r⟩ : Call svc) ∈ callsOf i h →
    Drew id (callsOf i h)
  /-- A family is founded by the request that drew it. -/
  founded : ∀ token family, BornIn token family h → family ∈ w.drawn ∧
    ∀ i, Drew family (callsOf i h) → HasStored (callsOf i h)
  record : ∀ token family, (w.db.fields w.now (refreshKey token)).lookup "family" = some family →
    BornIn token family h
  read : ∀ i token family, ReadIn token family (callsOf i h) → BornIn token family h
  won : ∀ i token, Won token (callsOf i h) → ∃ family, BornIn token family h
  one : ∀ family a b, Bears family h a → Bears family h b → a = b

theorem bornIn_snoc {e : Eff} {r : e.Reply} : BornIn token family (h ++ [.call i ⟨e, r⟩]) ↔
    BornIn token family h ∨
      ∃ fs, e = .redis (.hset (refreshKey token) fs) ∧ fs.lookup "family" = some family := by
  constructor
  · rintro ⟨j, fs, r', hm, hf⟩
    rcases mem_callsOf_snoc.mp hm with hm | ⟨-, he⟩
    · exact .inl ⟨j, fs, r', hm, hf⟩
    · cases he
      exact .inr ⟨fs, rfl, hf⟩
  · rintro (⟨j, fs, r', hm, hf⟩ | ⟨fs, rfl, hf⟩)
    · exact ⟨j, fs, r', mem_callsOf_snoc.mpr (.inl hm), hf⟩
    · exact ⟨i, fs, r, mem_callsOf_snoc.mpr (.inr ⟨rfl, rfl⟩), hf⟩

theorem BornIn.snoc (hb : BornIn token family h) (x : Call svc) :
    BornIn token family (h ++ [.call i x]) := bornIn_snoc.mpr (.inl hb)

theorem bornIn_env {d : Nat} : BornIn token family (h ++ [.env d]) ↔ BornIn token family h := by
  have hcalls : ∀ j : ι, callsOf j (h ++ [.env d]) = callsOf j h := fun j => by
    rw [callsOf_append, callsOf_env, callsOf_nil, List.append_nil]
  simp only [BornIn, hcalls]

theorem Drew.of_snoc {u : String} {j : ι} {e : Eff} {r : e.Reply}
    (hd : Drew u (callsOf j (h ++ [.call i ⟨e, r⟩]))) (he : e ≠ .newUuid) : Drew u (callsOf j h) := by
  rcases mem_callsOf_snoc.mp hd with hd | ⟨-, heq⟩
  · exact hd
  · cases heq
    exact absurd rfl he

theorem won_mark {token' : String} {j : ι} : Won token' (callsOf j (h ++ [.call i
      ⟨.redis (.hsetNx (refreshKey token) "used" "1"), .ok true⟩])) ↔
    Won token' (callsOf j h) ∨ i = j ∧ token' = token := by
  refine won_snoc.trans (or_congr_right (and_congr_right fun _ => ⟨fun he => ?_, fun he => by rw [he]⟩))
  exact refreshKey_inj (Cmd.hsetNx.inj (Eff.redis.inj (congrArg Call.eff he))).1

/-- A token is of one family. -/
theorem Tickets.family_unique (ht : Tickets h w) {f g : String} (hf : BornIn token f h)
    (hg : BornIn token g h) : f = g := by
  obtain ⟨i, fs, r, hm, hf⟩ := hf
  obtain ⟨j, gs, r', hm', hg⟩ := hg
  have hij : i = j := (ht.winner token).coherent.owner i j token (ht.drew _ _ _ _ hm) (ht.drew _ _ _ _ hm')
  subst hij
  cases ht.once i _ hm _ hm' rfl rfl
  rw [hf] at hg
  exact Option.some.inj hg

/-- A record is created by a request that stores it, or by a mark. -/
theorem created_record (hc : Coherent h w) {d : Cmd} (hd : Disciplined (callsOf i h) (.redis d))
    (hj : d.creates = some (refreshKey token)) :
    (∃ fs, d = .hset (refreshKey token) fs) ∨ ∃ v, d = .hsetNx (refreshKey token) "used" v := by
  cases d with
  | setEx k v secs =>
    have hu := (hc.drawn i _ hd.1).1
    rw [Option.some.inj hj, not_uuid_refresh] at hu
    cases hu
  | setNxEx k v secs =>
    obtain ⟨hash, rfl⟩ := hd
    exact absurd (Option.some.inj hj).symm (refresh_ne_totp token hash)
  | zadd g m score =>
    rcases hd with ⟨u, rfl, -⟩ | ⟨f, c, rfl, -⟩
    · exact absurd (Option.some.inj hj) (subject_ne_refresh u token)
    · exact absurd (Option.some.inj hj) (family_ne_refresh f token)
  | hset k fs => exact .inl ⟨fs, by rw [Option.some.inj hj]⟩
  | hsetNx k f v =>
    obtain ⟨id, fs, -, rfl, -⟩ := hd
    exact .inr ⟨v, by rw [Option.some.inj hj]⟩
  | _ => cases hj

/-- A command leaves the family of a record, or is the one that gives it. -/
theorem Tickets.record_exec (ht : Tickets h w) {d : Cmd} (hd : Disciplined (callsOf i h) (.redis d))
    (hk : Ticketed (callsOf i h) (.redis d))
    (hf : ((Redis.exec w.now w.db d).2.fields w.now (refreshKey token)).lookup "family" = some family) :
    BornIn token family h ∨
      ∃ fs, d = .hset (refreshKey token) fs ∧ fs.lookup "family" = some family := by
  have hc := (ht.winner token).coherent
  by_cases hcr : d.creates = some (refreshKey token)
  · rcases created_record hc hd hcr with ⟨fs, rfl⟩ | ⟨v, rfl⟩
    · obtain ⟨f, hl, -⟩ := hk
      rcases @fields_hset w.db w.now (refreshKey token) fs with ⟨gs, he⟩ | he
      · rw [he, List.lookup_append, hl] at hf
        exact .inr ⟨fs, rfl, hl.trans hf⟩
      · rw [he] at hf
        cases hf
    · rcases fields_hsetNx (hc.isHash token) (f := "used") (v := v) with he | he
      · exact .inl (ht.record token family (by rwa [he] at hf))
      · exact .inl (ht.record token family (by rwa [he] at hf))
  · rcases @fields_exec w.db w.now _ _ hcr with he | he
    · exact .inl (ht.record token family (by rwa [he] at hf))
    · rw [he] at hf
      cases hf

theorem Tickets.record_step (ht : Tickets h w) {e : Eff} {r : e.Reply} (hd : Disciplined (callsOf i h) e)
    (hk : Ticketed (callsOf i h) e) (hstep : (service s).call w e r w')
    (hf : (w'.db.fields w'.now (refreshKey token)).lookup "family" = some family) :
    BornIn token family (h ++ [.call i ⟨e, r⟩]) := by
  have hsame : w'.db = w.db → w'.now = w.now → BornIn token family (h ++ [.call i ⟨e, r⟩]) :=
    fun hdb hnow => (ht.record token family (by rwa [hdb, hnow] at hf)).snoc _
  cases hq : e.quiet with
  | true =>
    obtain ⟨hdb, -, hnow⟩ := call_quiet hq hstep
    exact hsame hdb hnow
  | false =>
    cases e with
    | redis d =>
      rcases call_redis hstep with ⟨rfl, -⟩ | ⟨rfl, -⟩
      · exact hsame rfl rfl
      · refine bornIn_snoc.mpr ((ht.record_exec hd hk hf).imp_right ?_)
        rintro ⟨fs, rfl, hl⟩
        exact ⟨fs, rfl, hl⟩
    | newUuid =>
      obtain ⟨-, -, rfl⟩ := call_newUuid hstep
      exact hsame rfl rfl
    | _ => cases hq

/-- What is read of a record is there. -/
theorem Tickets.read_step (ht : Tickets h w) {e : Eff} {r : e.Reply} (hstep : (service s).call w e r w')
    {j : ι} (hr : ReadIn token family (callsOf j (h ++ [.call i ⟨e, r⟩]))) :
    BornIn token family (h ++ [.call i ⟨e, r⟩]) := by
  obtain ⟨fs, hm, hf⟩ := hr
  rcases mem_callsOf_snoc.mp hm with hm | ⟨-, he⟩
  · exact (ht.read j token family ⟨fs, hm, hf⟩).snoc _
  · cases he
    rcases call_redis hstep with ⟨-, x, hx⟩ | ⟨-, hx | ⟨x, hx⟩⟩
    · cases hx
    · rw [exec_hgetAll ((ht.winner token).coherent.isHash token)] at hx
      cases hx
      exact (ht.record token family hf).snoc _
    · cases hx

theorem Tickets.founded_step (ht : Tickets h w) {e : Eff} {r : e.Reply}
    (hk : Ticketed (callsOf i h) e) (hstep : (service s).call w e r w')
    (hb : BornIn token family (h ++ [.call i ⟨e, r⟩])) : family ∈ w'.drawn ∧
      ∀ j, Drew family (callsOf j (h ++ [.call i ⟨e, r⟩])) →
        HasStored (callsOf j (h ++ [.call i ⟨e, r⟩])) := by
  have hold : ∀ {token}, BornIn token family h → family ∈ w'.drawn ∧
      ∀ j, Drew family (callsOf j (h ++ [.call i ⟨e, r⟩])) →
        HasStored (callsOf j (h ++ [.call i ⟨e, r⟩])) := fun hb => by
    obtain ⟨hdrawn, hfounded⟩ := ht.founded _ family hb
    refine ⟨call_drawn hstep _ hdrawn, fun j hj => ?_⟩
    rcases mem_callsOf_snoc.mp hj with hj | ⟨-, he⟩
    · obtain ⟨x, hx, hset⟩ := hfounded j hj
      exact ⟨x, mem_callsOf_snoc.mpr (.inl hx), hset⟩
    · cases he
      exact absurd hdrawn (call_newUuid hstep).2.1
  rcases bornIn_snoc.mp hb with hb | ⟨fs, rfl, hf⟩
  · exact hold hb
  · obtain ⟨f, hl, hm⟩ := hk
    obtain rfl : f = family := Option.some.inj (hl.symm.trans hf)
    rcases hm with hd | ⟨token', hread, -⟩
    · have hc := (ht.winner token).coherent
      refine ⟨call_drawn hstep _ (hc.drawn i f hd).2, fun j hj => ?_⟩
      have hji : j = i := hc.owner j i f (hj.of_snoc nofun) hd
      exact ⟨_, mem_callsOf_snoc.mpr (.inr ⟨hji.symm, rfl⟩), rfl⟩
    · exact hold (ht.read i token' f hread)

theorem Tickets.won_step (ht : Tickets h w) {e : Eff} {r : e.Reply} (hk : Ticketed (callsOf i h) e) {j : ι}
    (hw : Won token (callsOf j (h ++ [.call i ⟨e, r⟩]))) :
    ∃ family, BornIn token family (h ++ [.call i ⟨e, r⟩]) := by
  rcases won_snoc.mp hw with hw | ⟨-, he⟩
  · obtain ⟨f, hb⟩ := ht.won j token hw
    exact ⟨f, hb.snoc _⟩
  · cases he
    obtain ⟨id, f, hid, hread⟩ := hk
    cases refreshKey_inj hid
    exact ⟨f, (ht.read i token f hread).snoc _⟩

/-- Nothing but a draw, a mark that is set and a record that is stored gives the
place to anyone. -/
theorem Bears.of_snoc {e : Eff} {r : e.Reply} (he : e.isHset = false) (hu : e ≠ .newUuid)
    (hw : ∀ token, (⟨.redis (.hsetNx (refreshKey token) "used" "1"), .ok true⟩ : Call svc) ≠ ⟨e, r⟩)
    {a : Holder ι} (ha : Bears family (h ++ [.call i ⟨e, r⟩]) a) : Bears family h a := by
  have hborn : ∀ {token}, BornIn token family (h ++ [.call i ⟨e, r⟩]) → BornIn token family h := fun hb =>
    (bornIn_snoc.mp hb).elim id fun ⟨fs, heq, _⟩ => by rw [heq] at he; cases he
  cases a with
  | request j =>
    refine ⟨fun x hx => ha.1 x (mem_callsOf_snoc.mpr (.inl hx)), ha.2.imp (Drew.of_snoc · hu) ?_⟩
    rintro ⟨token, hb, hwon⟩
    exact ⟨token, hborn hb, (won_snoc.mp hwon).elim id fun hn => absurd hn.2 (hw token)⟩
  | token id => exact ⟨hborn ha.1, fun j hj => ha.2 j (won_snoc.mpr (.inl hj))⟩

/-- A family that is drawn is new: whoever drew it is alone. -/
theorem Tickets.one_draw (ht : Tickets h w) {u : String} (hstep : (service s).call w .newUuid u w')
    {a b : Holder ι} (ha : Bears family (h ++ [.call i ⟨.newUuid, u⟩]) a)
    (hb : Bears family (h ++ [.call i ⟨.newUuid, u⟩]) b) : a = b := by
  have hborn : ∀ {token f}, BornIn token f (h ++ [.call i ⟨.newUuid, u⟩]) → BornIn token f h := fun hb =>
    (bornIn_snoc.mp hb).elim id fun ⟨_, heq, _⟩ => by cases heq
  have hold : ∀ {c}, Bears family (h ++ [.call i ⟨.newUuid, u⟩]) c →
      Bears family h c ∨ c = .request i ∧ family = u := fun {c} hc => by
    cases c with
    | request j =>
      have hnone : ∀ x ∈ callsOf j h, x.eff.isHset = false := fun x hx =>
        hc.1 x (mem_callsOf_snoc.mpr (.inl hx))
      rcases hc.2 with hd | ⟨token, hb, hw⟩
      · rcases mem_callsOf_snoc.mp hd with hd | ⟨rfl, he⟩
        · exact .inl ⟨hnone, .inl hd⟩
        · cases he
          exact .inr ⟨rfl, rfl⟩
      · refine .inl ⟨hnone, .inr ⟨token, hborn hb, (won_snoc.mp hw).elim id fun hn => ?_⟩⟩
        cases hn.2
    | token id => exact .inl ⟨hborn hc.1, fun j hj => hc.2 j (won_snoc.mpr (.inl hj))⟩
  have hfresh : family = u → ∀ c, ¬ Bears family h c := fun hf c hc => by
    have hn : family ∉ w.drawn := hf ▸ (call_newUuid hstep).2.1
    cases c with
    | request j =>
      rcases hc.2 with hd | ⟨token, hb, -⟩
      · exact hn ((ht.winner family).coherent.drawn j family hd).2
      · exact hn (ht.founded token family hb).1
    | token id => exact hn (ht.founded id family hc.1).1
  rcases hold ha with ha | ⟨rfl, hf⟩
  · rcases hold hb with hb | ⟨-, hf⟩
    · exact ht.one family a b ha hb
    · exact absurd ha (hfresh hf a)
  · rcases hold hb with hb | ⟨rfl, -⟩
    · exact absurd hb (hfresh hf b)
    · rfl

/-- A mark takes the place from the token it is set on. -/
theorem Tickets.one_mark (ht : Tickets h w)
    (hk : Ticketed (callsOf i h) (.redis (.hsetNx (refreshKey token) "used" "1")))
    (hnobody : ∀ j, ¬ Won token (callsOf j h)) {a b : Holder ι}
    (ha : Bears family (h ++ [.call i ⟨.redis (.hsetNx (refreshKey token) "used" "1"), .ok true⟩]) a)
    (hb : Bears family (h ++ [.call i ⟨.redis (.hsetNx (refreshKey token) "used" "1"), .ok true⟩]) b) :
    a = b := by
  obtain ⟨id, f, hid, hread⟩ := hk
  cases refreshKey_inj hid
  have hplace : Bears f h (Holder.token token : Holder ι) := ⟨ht.read i token f hread, hnobody⟩
  have hborn : ∀ {token' f}, BornIn token' f (h ++ [.call i
      ⟨.redis (.hsetNx (refreshKey token) "used" "1"), .ok true⟩]) → BornIn token' f h := fun hb =>
    (bornIn_snoc.mp hb).elim id fun ⟨_, heq, _⟩ => by cases heq
  have hold : ∀ {c}, Bears family (h ++ [.call i
      ⟨.redis (.hsetNx (refreshKey token) "used" "1"), .ok true⟩]) c →
      (Bears family h c ∧ c ≠ .token token) ∨ c = .request i ∧ family = f := fun {c} hc => by
    cases c with
    | request j =>
      have hnone : ∀ x ∈ callsOf j h, x.eff.isHset = false := fun x hx =>
        hc.1 x (mem_callsOf_snoc.mpr (.inl hx))
      rcases hc.2 with hd | ⟨token', hb, hw⟩
      · exact .inl ⟨⟨hnone, .inl (hd.of_snoc nofun)⟩, nofun⟩
      · rcases won_mark.mp hw with hw | ⟨rfl, rfl⟩
        · exact .inl ⟨⟨hnone, .inr ⟨token', hborn hb, hw⟩⟩, nofun⟩
        · exact .inr ⟨rfl, ht.family_unique (hborn hb) hplace.1⟩
    | token id =>
      refine .inl ⟨⟨hborn hc.1, fun j hj => hc.2 j (won_snoc.mpr (.inl hj))⟩, ?_⟩
      rintro ⟨⟩
      exact hc.2 i (won_mark.mpr (.inr ⟨rfl, rfl⟩))
  have hgone : family = f → ∀ c, Bears family h c → c ≠ .token token → False := fun hf c hc hne =>
    hne (ht.one family c _ hc (hf ▸ hplace))
  rcases hold ha with ⟨ha, hna⟩ | ⟨rfl, hf⟩
  · rcases hold hb with ⟨hb, -⟩ | ⟨-, hf⟩
    · exact ht.one family a b ha hb
    · exact (hgone hf a ha hna).elim
  · rcases hold hb with ⟨hb, hnb⟩ | ⟨rfl, -⟩
    · exact (hgone hf b hb hnb).elim
    · rfl

/-- A request that stores a token hands the place on to it. -/
theorem Tickets.one_store (ht : Tickets h w) {k : String} {fs : List (String × String)}
    {r : Except Redis.Err Unit} (hd : Disciplined (callsOf i h) (.redis (.hset k fs)))
    (hk : Ticketed (callsOf i h) (.redis (.hset k fs))) {a b : Holder ι}
    (ha : Bears family (h ++ [.call i ⟨.redis (.hset k fs), r⟩]) a)
    (hb : Bears family (h ++ [.call i ⟨.redis (.hset k fs), r⟩]) b) : a = b := by
  obtain ⟨id, rfl, hdrew, hnone⟩ := hd
  obtain ⟨f, hl, hmay⟩ := hk
  have hc := (ht.winner id).coherent
  have hplace : Bears f h (.request i) := by
    refine ⟨hnone, hmay.imp_right ?_⟩
    rintro ⟨token, hread, hw⟩
    exact ⟨token, ht.read i token f hread, hw⟩
  -- The token is new.
  have hunborn : ∀ {g}, ¬ BornIn id g h := by
    rintro g ⟨j, gs, r', hm, -⟩
    have hji : j = i := hc.owner j i id (ht.drew _ _ _ _ hm) hdrew
    subst hji
    have := hnone _ hm
    cases this
  have hborn : ∀ {token g}, BornIn token g (h ++ [.call i ⟨.redis (.hset (refreshKey id) fs), r⟩]) →
      BornIn token g h ∨ token = id ∧ g = f := fun hb => by
    rcases bornIn_snoc.mp hb with hb | ⟨gs, heq, hg⟩
    · exact .inl hb
    · injection heq with heq
      injection heq with hkey hfs
      subst hfs
      exact .inr ⟨(refreshKey_inj hkey).symm, Option.some.inj (hg.symm.trans hl)⟩
  have hold : ∀ {c}, Bears family (h ++ [.call i ⟨.redis (.hset (refreshKey id) fs), r⟩]) c →
      (Bears family h c ∧ c ≠ .request i) ∨ c = .token id ∧ family = f := fun {c} hc => by
    cases c with
    | request j =>
      have hji : (Holder.request j : Holder ι) ≠ .request i := by
        rintro ⟨⟩
        have := hc.1 _ (mem_callsOf_snoc.mpr (.inr ⟨rfl, rfl⟩))
        cases this
      refine .inl ⟨⟨fun x hx => hc.1 x (mem_callsOf_snoc.mpr (.inl hx)), ?_⟩, hji⟩
      rcases hc.2 with hd | ⟨token, hb, hw⟩
      · exact .inl (hd.of_snoc nofun)
      · have hwon : Won token (callsOf j h) := (won_snoc.mp hw).elim (fun hw => hw) fun hn => by cases hn.2
        rcases hborn hb with hb | ⟨rfl, -⟩
        · exact .inr ⟨token, hb, hwon⟩
        · obtain ⟨g, hg⟩ := ht.won j token hwon
          exact absurd hg hunborn
    | token id' =>
      rcases hborn hc.1 with hb | ⟨rfl, hf⟩
      · exact .inl ⟨⟨hb, fun j hj => hc.2 j (won_snoc.mpr (.inl hj))⟩, nofun⟩
      · exact .inr ⟨rfl, hf⟩
  have hgone : family = f → ∀ c, Bears family h c → c ≠ .request i → False := fun hf c hc hne =>
    hne (ht.one family c _ hc (hf ▸ hplace))
  rcases hold ha with ⟨ha, hna⟩ | ⟨rfl, hf⟩
  · rcases hold hb with ⟨hb, -⟩ | ⟨-, hf⟩
    · exact ht.one family a b ha hb
    · exact (hgone hf a ha hna).elim
  · rcases hold hb with ⟨hb, hnb⟩ | ⟨rfl, -⟩
    · exact (hgone hf b hb hnb).elim
    · rfl

theorem Tickets.one_step (ht : Tickets h w) {e : Eff} {r : e.Reply} (hd : Disciplined (callsOf i h) e)
    (hk : Ticketed (callsOf i h) e) (hg : ∀ token, FindsRecord token h w (.call i ⟨e, r⟩))
    (hstep : (service s).call w e r w') {a b : Holder ι} (ha : Bears family (h ++ [.call i ⟨e, r⟩]) a)
    (hb : Bears family (h ++ [.call i ⟨e, r⟩]) b) : a = b := by
  by_cases hu : e = .newUuid
  · subst hu
    exact ht.one_draw hstep ha hb
  by_cases hw : ∃ token, (⟨.redis (.hsetNx (refreshKey token) "used" "1"), .ok true⟩ : Call svc) = ⟨e, r⟩
  · obtain ⟨token, hw⟩ := hw
    cases hw
    exact ht.one_mark hk ((ht.winner token).nobody (hg token) hstep) ha hb
  cases hs : e.isHset with
  | false =>
    have hold : ∀ c, Bears family (h ++ [.call i ⟨e, r⟩]) c → Bears family h c := fun c hc =>
      hc.of_snoc hs hu fun token he => hw ⟨token, he⟩
    exact ht.one family a b (hold a ha) (hold b hb)
  | true =>
    cases e with
    | redis c =>
      cases c with
      | hset k fs => exact ht.one_store hd hk ha hb
      | _ => cases hs
    | _ => cases hs

/-- A call keeps the invariant, unless it is a mark that misses its record. -/
theorem Tickets.step (ht : Tickets h w) {e : Eff} {r : e.Reply} (hd : Disciplined (callsOf i h) e)
    (hk : Ticketed (callsOf i h) e) (hg : ∀ token, FindsRecord token h w (.call i ⟨e, r⟩))
    (hstep : (service s).call w e r w') : Tickets (h ++ [.call i ⟨e, r⟩]) w' where
  winner token := (ht.winner token).step hd (hg token) hstep
  once j x hx y hy hxs hys := by
    have hlate : ∀ z ∈ callsOf j h, i = j → z.eff.isHset = true → e.isHset = false := by
      rintro z hz rfl hzs
      cases e with
      | redis c =>
        cases c with
        | hset k fs =>
          obtain ⟨id, -, -, hnone⟩ := hd
          rw [hnone z hz] at hzs
          cases hzs
        | _ => rfl
      | _ => rfl
    rcases mem_callsOf_snoc.mp hx with hx | ⟨hij, rfl⟩ <;> rcases mem_callsOf_snoc.mp hy with hy | ⟨hij', rfl⟩
    · exact ht.once j x hx y hy hxs hys
    · rw [hlate x hx hij' hxs] at hys
      cases hys
    · rw [hlate y hy hij hys] at hxs
      cases hxs
    · rfl
  drew j id fs r' hm := by
    rcases mem_callsOf_snoc.mp hm with hm | ⟨rfl, he⟩
    · exact mem_callsOf_snoc.mpr (.inl (ht.drew j id fs r' hm))
    · cases he
      obtain ⟨id', hkey, hdrew, -⟩ := hd
      cases refreshKey_inj hkey
      exact mem_callsOf_snoc.mpr (.inl hdrew)
  founded token family hb := ht.founded_step hk hstep hb
  record token family hf := ht.record_step hd hk hstep hf
  read j token family hr := ht.read_step hstep hr
  won j token hw := ht.won_step hk hw
  one family a b ha hb := ht.one_step hd hk hg hstep ha hb

theorem Tickets.env (ht : Tickets h w) {d : Nat} : Tickets (h ++ [.env d]) (w.tick d) := by
  have hcalls : ∀ j : ι, callsOf j (h ++ [.env d]) = callsOf j h := fun j => by
    rw [callsOf_append, callsOf_env, callsOf_nil, List.append_nil]
  have hholds : ∀ family a, Bears family (h ++ [.env d]) a → Bears family h a := fun family a ha => by
    cases a <;> simpa only [Bears, hcalls, bornIn_env] using ha
  refine ⟨fun token => (ht.winner token).env, ?_, ?_, ?_, fun token family hf => ?_, ?_, ?_,
    fun family a b ha hb => ht.one family a b (hholds family a ha) (hholds family b hb)⟩
  · simpa only [hcalls] using ht.once
  · simpa only [hcalls] using ht.drew
  · simp only [hcalls, bornIn_env]
    exact ht.founded
  · refine bornIn_env.mpr (ht.record token family ?_)
    rcases @Db.fields_later w.db _ (refreshKey token) _ (Nat.le_add_right w.now d) with he | he
    · rwa [← he]
    · rw [show (w.tick d).db.fields (w.tick d).now (refreshKey token) = [] from he] at hf
      cases hf
  · simpa only [hcalls, bornIn_env] using ht.read
  · simpa only [hcalls, bornIn_env] using ht.won

theorem tickets_empty : Tickets ([] : Events ι) World.empty := by
  have hborn : ∀ token family, ¬ BornIn token family ([] : Events ι) := by
    rintro token family ⟨i, fs, r, hm, -⟩
    cases hm
  refine ⟨fun token => ⟨coherent_empty, nofun, nofun, nofun⟩, nofun, nofun,
    fun token family hb => absurd hb (hborn token family), nofun, ?_, nofun, fun family a b ha _ => ?_⟩
  · rintro i token family ⟨fs, hm, -⟩
    cases hm
  · cases a with
    | request i =>
      rcases ha.2 with hd | ⟨token, hb, -⟩
      · cases hd
      · exact absurd hb (hborn token family)
    | token id => exact absurd ha.1 (hborn id family)

/-! ## Runs -/

/-- The refresh token is there, and was not used. -/
def Exchangeable (t : JsonText) (w : World) (token : String) (record : RefreshRecord) : Prop :=
  w.record t token = some record ∧ w.used token = false

theorem Exchangeable.bears (ht : Tickets h w) {t : JsonText} {record : RefreshRecord}
    (hx : Exchangeable t w token record) : Bears record.family h (Holder.token token : Holder ι) := by
  obtain ⟨hrecord, hused⟩ := hx
  have hf := recordOfFields_family hrecord
  refine ⟨ht.record token _ hf, fun i hi => ?_⟩
  cases hg : w.db.get w.now (refreshKey token) with
  | none =>
    rw [Db.fields_of_none hg] at hf
    cases hf
  | some e =>
    obtain ⟨v, t⟩ := e
    obtain ⟨fs, hfs, hu⟩ := (ht.winner token).marked i hi _ hg
    obtain rfl : v = .hash fs := hfs
    rw [World.used, Db.fields_of_get hg] at hused
    exact of_decide_eq_false hused hu

variable {env : Env} {libs : Libs} {adm : ι → Admission} {req : ι → Request} {tr : Events ι}
  {P : Pool svc World ι HttpResponse}

theorem tickets_run (ht : libs.json.Faithful)
    (hr : (service s).RunWhere (fun h w ev => ∀ token, FindsRecord token h w ev) []
      (start env libs adm req) tr P) : Tickets tr P.st := by
  have hw : ∀ i, Prog.wp (fun h e => Disciplined h e ∧ Ticketed h e) (callsOf i ([] : Events ι))
      ((start env libs adm req).prog i) fun h resp => StoredToken libs h resp ∧ True := fun i =>
    Prog.wp_and (serve_disciplined env libs ht (adm i) (req i)) (serve_ticketed (adm i) (req i))
  refine hr.inv (I := Tickets) (R := fun _ h e => Disciplined h e ∧ Ticketed h e)
    (fun h w i e r w' hi hd hg hs => hi.step hd.1 hd.2 hg hs) (fun h w d w' hi _ hs => ?_) hw tickets_empty
  cases hs
  exact hi.env

/-- While no mark of a token that was exchanged misses its record, one refresh token
of a family can be exchanged at a time; and none can between the mark of an
exchange and the record of the token it hands out. -/
theorem one_usable_refresh (ht : libs.json.Faithful)
    (hr : (service s).RunWhere (fun h w ev => ∀ token, FindsRecord token h w ev) []
      (start env libs adm req) tr P) :
    (∀ a b r r', Exchangeable libs.json P.st a r → Exchangeable libs.json P.st b r' →
      r.family = r'.family → a = b) ∧
    ∀ i token family, Won token (callsOf i tr) → ReadIn token family (callsOf i tr) →
      ¬ HasStored (callsOf i tr) → ∀ a r, Exchangeable libs.json P.st a r → r.family ≠ family := by
  have hi := tickets_run ht hr
  refine ⟨fun a b r r' ha hb hf => ?_, fun i token family hw hread hn a r ha hf => ?_⟩
  · have hsame := hi.one r.family _ _ (ha.bears hi) (hf ▸ hb.bears hi)
    exact Holder.token.inj hsame
  · have hrequest : Bears family tr (.request i) := by
      refine ⟨fun x hx => ?_, .inr ⟨token, hi.read i token family hread, hw⟩⟩
      rw [← Bool.not_eq_true]
      exact fun hs => hn ⟨x, hx, hs⟩
    cases hi.one family _ _ hrequest (hf ▸ ha.bears hi)

end Tickets

/-- A pair is issued, and its refresh token exchanged. -/
theorem one_usable_refresh_exchanged : ∃ (tr : Events Presenter) (P : Pool svc World Presenter HttpResponse),
    (service ⟨300000, 10000, 10000⟩).RunWhere (fun h w ev => ∀ token, FindsRecord token h w ev) []
      (start bareEnv echoLibs (fun _ => admitted) exchanges) tr P ∧
    Exchangeable .compact P.st uuidE ⟨"user", ["api"], uuidC⟩ ∧ P.st.used uuidB = true ∧
    ∀ a r, Exchangeable .compact P.st a r → r.family = uuidC → a = uuidE := by
  let s : JwkService := ⟨300000, 10000, 10000⟩
  obtain ⟨access, -, w₁, cs, -, hpath, ht, hs₁, hnow, hdrawn, -, hget⟩ := echo_issued s Presenter.issuer
  obtain ⟨access₂, -, w₂, cs₁, -, hpair, ht₁, -, hnow₂, -, hdb, hused⟩ :=
    @echo_exchanged _ s w₁ hs₁ hnow hdrawn hget Presenter.first
  let tr : Events Presenter := cs.map (.call .issuer) ++ (exchangeCalls cs₁).map (.call .first)
  have htrace : (service s).Trace World.empty tr w₂ :=
    (ht.trans ht₁).mono faultless_service fun _ _ _ h => h
  obtain ⟨q, hrun⟩ : ∃ q, (service s).Run (start bareEnv echoLibs (fun _ => admitted) exchanges) tr ⟨w₂, q⟩ := by
    refine ⟨fun i => if i = .issuer then .ret ⟨200, .token access (some uuidB)⟩ else
      if i = .first then .ret ⟨200, .token access₂ (some uuidE)⟩ else
      serve bareEnv echoLibs (redisClient echoLibs.json) admitted (exchanges i), htrace.run fun i => ?_⟩
    cases i <;> simp only [tr, callsOf_append, callsOf_map, reduceCtorEq, if_true, if_false,
      List.nil_append, List.append_nil]
    · exact hpath
    · exact path_exchangeCalls hpair
    · exact .nil _
    · exact .nil _
  have hone : tr.countP isMark = 1 := by
    have h₀ := @countP_noMark .issuer cs fun c hc => noMark_issuing (issuing_createToken.path hpath c hc)
    have h₁ := @countP_noMark .first cs₁ fun c hc => noMark_issuing (issuing_issuePair.path hpair c hc)
    simp only [tr, exchangeCalls, List.map_append, List.countP_append, h₀, h₁]
    rfl
  have hwhere : (service s).RunWhere (fun h w ev => ∀ token, FindsRecord token h w ev) []
      (start bareEnv echoLibs (fun _ => admitted) exchanges) tr ⟨w₂, q⟩ := by
    refine hrun.where fun t₁ ev t₂ w htr token => ?_
    rintro i f v first rfl ⟨j, hj⟩
    have hpos : 0 < t₁.countP isMark := List.countP_pos_iff.mpr ⟨_, mem_callsOf.mp hj, rfl⟩
    rw [htr, List.countP_append, List.countP_cons_of_pos rfl] at hone
    omega
  have hnew : Exchangeable .compact w₂ uuidE ⟨"user", ["api"], uuidC⟩ := by
    refine echo_record (t := some (0 + 1000 * 2592000)) (Db.get_eq_some.mpr ⟨?_, ?_⟩)
    · rw [hdb]
      exact pairDb_refresh
    · rw [hnow₂]
      decide
  refine ⟨tr, _, hwhere, hnew, ?_, fun a r ha hf => ?_⟩
  · rw [World.used, Db.fields_of_get hused]
    rfl
  · exact (one_usable_refresh echo_faithful hwhere).1 a uuidE r _ ha hnew hf

end JwtService

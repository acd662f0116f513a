import JwtService.Proof.Outage

/-!
# What a lookup of a public key rests on

Lookups of public keys, in any number and any interleaving, with a key
service that answers or fails as it likes. A lookup decides at its last look
at the cache (`Decision`); `publicKey_decided` says which looks those are and
what the lookup returns after each (`Verdict`). `Kept` is the invariant of
such runs: the snapshot is the last answer of the key service that was stored
(`answers`), with the moment of the store, and a lookup that holds the lock
and is not allowed to refresh has missed its key in it.

From it, at the moment of the decision: a lookup fails only when the snapshot
does not have the key or is too old to serve (`outage_survived`), and it
returns a key only from an answer it has just fetched itself, or from a
snapshot that is young enough (`withdrawn_key_expires`).
-/

namespace JwtService

open Interaction

/-- A section that holds the lock of the cache. -/
def Eff.isCache : Eff → Bool
  | .cache _ => true
  | _ => false

/-- The last look at the cache among the calls `h` is `c`. -/
def LastLook (c : Call svc) (h : Calls) : Prop :=
  ∃ cs ds, h = cs ++ c :: ds ∧ c.eff.isCache = true ∧ ∀ x ∈ ds, x.eff.isCache = false

theorem LastLook.intro (h : Calls) {c : Call svc} (hc : c.eff.isCache = true) :
    LastLook c (h ++ [c]) :=
  ⟨h, [], rfl, hc, nofun⟩

theorem LastLook.snoc {c : Call svc} {h : Calls} (hl : LastLook c h) {x : Call svc}
    (hx : x.eff.isCache = false) : LastLook c (h ++ [x]) := by
  obtain ⟨cs, ds, rfl, hc, hds⟩ := hl
  refine ⟨cs, ds ++ [x], by rw [List.append_assoc, List.cons_append], hc, fun y hy => ?_⟩
  rcases List.mem_append.mp hy with hy | hy
  · exact hds y hy
  · rw [List.mem_singleton.mp hy]
    exact hx

/-- What a lookup of `kid` returns after its last look at the cache. -/
inductive Verdict (kid : String) : Call svc → Except JwkError Jwk → Prop
  | fresh (jwk : Jwk) : Verdict kid ⟨.cache (.lookupFresh kid), some jwk⟩ (.ok jwk)
  | stale (jwk : Jwk) (age : Nat) :
    Verdict kid ⟨.cache (.lookupStale kid), some (jwk, age)⟩ (.ok jwk)
  | fetched {jwks : Jwks} {jwk : Jwk} (h : jwks.find kid = some jwk) :
    Verdict kid ⟨.cache (.store jwks), ()⟩ (.ok jwk)
  | absent {jwks : Jwks} (h : jwks.find kid = none) :
    Verdict kid ⟨.cache (.store jwks), ()⟩ (.error .notFound)
  | unserved (e : JwkError) : Verdict kid ⟨.cache (.lookupStale kid), none⟩ (.error e)
  | throttled : Verdict kid ⟨.cache .cacheIsFresh, true⟩ (.error .notFound)

def Decided (kid : String) (h : Calls) (r : Except JwkError Jwk) : Prop :=
  ∃ c, LastLook c h ∧ Verdict kid c r

theorem Decided.snoc {kid : String} {h : Calls} {r : Except JwkError Jwk} (hd : Decided kid h r)
    {x : Call svc} (hx : x.eff.isCache = false) : Decided kid (h ++ [x]) r := by
  obtain ⟨c, hl, hv⟩ := hd
  exact ⟨c, hl.snoc hx, hv⟩

/-- Whether a refresh is allowed is asked right after a miss. -/
def Asks (kid : String) (h : Calls) : Eff → Prop
  | .cache .allowRefreshOnMiss => ∃ cs, h = cs ++ [⟨.cache (.lookupFresh kid), none⟩]
  | _ => True

namespace JwkService

variable (kid : String) (h : Calls)

theorem serveStale_decided :
    Prog.wp (Asks kid) h (serveStale kid) fun h' r =>
      (∀ jwk, r = some jwk → Decided kid h' (.ok jwk)) ∧
      (r = none → ∀ e, Decided kid h' (.error e)) := by
  refine ⟨trivial, fun r => ?_⟩
  have hl := LastLook.intro h (c := ⟨.cache (.lookupStale kid), r⟩) rfl
  rcases r with _ | ⟨jwk, age⟩
  · exact ⟨fun _ hr => (nomatch hr), fun _ e => ⟨_, hl, .unserved e⟩⟩
  · refine ⟨trivial, fun _ => ⟨fun jwk' hr => ?_, fun hr => (nomatch hr)⟩⟩
    cases hr
    exact ⟨_, hl.snoc rfl, .stale jwk age⟩

theorem refresh_decided : Prog.wp (Asks kid) h (refresh kid) (Decided kid) := by
  refine wp_refresh trivial trivial (fun r _ => ⟨trivial, ?_⟩) fun status jwks => ⟨trivial, trivial, ?_⟩
  · refine Prog.wp_imp (serveStale_decided kid _) fun h₁ o ho => ⟨ho.1, fun hn => ⟨trivial, fun e => ?_⟩⟩
    exact (ho.2 hn e).snoc rfl
  · refine ⟨_, (LastLook.intro (c := ⟨.cache (.store jwks), ()⟩) _ rfl).snoc rfl, ?_⟩
    cases hf : jwks.find kid with
    | some jwk => exact .fetched hf
    | none => exact .absent hf

theorem throttled_decided : Prog.wp (Asks kid) h (throttled kid) (Decided kid) := by
  refine wp_throttled (R := fun _ => True) trivial trivial ?_ fun h₁ _ =>
    ⟨trivial, ⟨trivial, _, (LastLook.intro h₁ rfl).snoc rfl, .throttled⟩, refresh_decided kid _⟩
  exact Prog.wp_imp (serveStale_decided kid _) fun h₁ o ho => ⟨ho.1, fun _ => trivial⟩

theorem publicKeyLocked_decided : Prog.wp (Asks kid) h (publicKeyLocked kid) (Decided kid) := by
  refine ⟨trivial, fun r => ?_⟩
  cases r with
  | some jwk => exact ⟨trivial, fun _ => ⟨_, (LastLook.intro h rfl).snoc rfl, .fresh jwk⟩⟩
  | none =>
    refine ⟨⟨h, rfl⟩, fun b => ?_⟩
    cases b with
    | true => exact refresh_decided kid _
    | false => exact throttled_decided kid _

/-- What a lookup returns is decided by its last look at the cache. -/
theorem publicKey_decided : Prog.wp (Asks kid) h (publicKey kid) (Decided kid) := by
  refine ⟨trivial, fun r => ?_⟩
  cases r with
  | some jwk => exact ⟨trivial, fun _ => ⟨_, (LastLook.intro h rfl).snoc rfl, .fresh jwk⟩⟩
  | none =>
    refine ⟨trivial, fun _ => (Prog.wp_bind _ (publicKeyLocked kid) _).mpr ?_⟩
    refine Prog.wp_imp (publicKeyLocked_decided kid _) fun h₁ r hr => ?_
    rw [wp_call_bind]
    exact ⟨trivial, fun _ => hr.snoc rfl⟩

end JwkService

/-! ## The snapshot -/

section Kept

variable {ι : Type}

/-- The answer of the key service that a call stores. -/
def Eff.stored : Eff → Option Jwks
  | .cache (.store jwks) => some jwks
  | _ => none

theorem stored_eq_some {e : Eff} {jwks : Jwks} : e.stored = some jwks ↔ e = .cache (.store jwks) := by
  constructor
  · intro h
    unfold Eff.stored at h
    split at h
    · cases h; rfl
    · cases h
  · rintro rfl
    rfl

/-- The answers of the key service that are stored, in order, each with the
moment of the store, on a clock that shows `now` before the events. -/
def answers (now : Nat) : List (Event svc ι Nat) → List (Jwks × Nat)
  | [] => []
  | .env d :: tr => answers (now + d) tr
  | .call _ c :: tr => (c.eff.stored.map (·, now)).toList ++ answers now tr

theorem answers_append (now : Nat) (t₁ t₂ : List (Event svc ι Nat)) :
    answers now (t₁ ++ t₂) = answers now t₁ ++ answers (now + elapsed t₁) t₂ := by
  induction t₁ generalizing now with
  | nil => rfl
  | cons ev t₁ ih =>
    cases ev with
    | env d => rw [List.cons_append, answers, ih, answers, elapsed, Nat.add_assoc]
    | call i c => rw [List.cons_append, answers, answers, elapsed, ih, List.append_assoc]

/-- A section of the cache leaves the snapshot, unless it stores one. -/
theorem cache_entry (s : JwkService) (now : Nat) (st : CacheState) (op : CacheOp) :
    (op.exec s now st).2.entry = ((Eff.cache op).stored.map (·, now)).or st.entry := by
  cases op with
  | allowRefreshOnMiss =>
    simp only [CacheOp.exec, JwkService.allowRefreshOnMiss_snd]
    split <;> rfl
  | _ => rfl

/-- The key is not in the snapshot, or the snapshot is past its lifetime. -/
def Missed (s : JwkService) (kid : String) (w : World) : Prop :=
  ∀ jwks fetchedAt, w.cache.entry = some (jwks, fetchedAt) →
    jwks.find kid = none ∨ s.cacheTtl ≤ w.now - fetchedAt

theorem Missed.of_lookup {s : JwkService} {kid : String} {w : World}
    (h : s.lookupFresh w.now w.cache kid = none) : Missed s kid w := by
  intro jwks fetchedAt he
  simp only [JwkService.lookupFresh, he] at h
  split at h
  · exact .inr ‹_›
  · exact .inl h

theorem Missed.later {s : JwkService} {kid : String} {w w' : World} (h : Missed s kid w)
    (he : w'.cache.entry = w.cache.entry) (hn : w.now ≤ w'.now) : Missed s kid w' := by
  intro jwks fetchedAt he'
  rw [he] at he'
  rcases h jwks fetchedAt he' with h | h
  · exact .inl h
  · exact .inr (by omega)

/-- A lookup that is under the lock and has missed its key. -/
def Waits (kid : String) (h : Calls) : Prop :=
  (Phase.after h = .inside ∧ ∃ cs, h = cs ++ [⟨.cache (.lookupFresh kid), none⟩]) ∨
    Phase.after h = .early ∨ Phase.after h = .unfailed ∨ Phase.after h = .unserved

theorem Waits.not_away {kid : String} {h : Calls} (hw : Waits kid h) : Phase.after h ≠ .away := by
  rcases hw with ⟨h, -⟩ | h | h | h <;> rw [h] <;> exact nofun

/-- A trip that was answered. -/
theorem after_answered {h : Calls} {r : HttpReply Jwks} (ha : Phase.after h = .answered r) :
    (⟨.fetchKeys, r⟩ : Call svc) ∈ h := by
  induction h using List.reverseRecOn with
  | nil => cases ha
  | append_singleton h c ih =>
    rw [Phase.after_snoc] at ha
    unfold Phase.next at ha
    split at ha
    case h_9 => cases ha; simp
    case h_12 => exact List.mem_append_left _ (ih ha)
    all_goals cases ha

/-- A request keeps to the discipline of the lock and of the trips in its lookup
of `kid`, and asks for a refresh after a miss only. -/
def Rides (kid : String) (h : Calls) (e : Eff) : Prop :=
  e.isLookup = true → JwkService.Trip kid h e ∧ Asks kid h e

/-- A lookup that waits has just missed its key, or has waited before. -/
theorem Waits.of_snoc {kid : String} {h : Calls} {e : Eff} {r : e.Reply}
    (hr : Rides kid h e) (hw : Waits kid (h ++ [⟨e, r⟩])) :
    Waits kid h ∧ e.stored = none ∨
      (⟨e, r⟩ : Call svc) = ⟨.cache (.lookupFresh kid), none⟩ := by
  -- But for the miss itself, only the phase can say that the lookup waits.
  have hphase : (⟨e, r⟩ : Call svc) = ⟨.cache (.lookupFresh kid), none⟩ ∨
      ((Phase.after h).next ⟨e, r⟩ = .early ∨ (Phase.after h).next ⟨e, r⟩ = .unfailed ∨
        (Phase.after h).next ⟨e, r⟩ = .unserved) := by
    rcases hw with ⟨-, cs, hcs⟩ | hw
    · exact .inl (List.append_inj_right' hcs rfl |> List.cons.inj |>.1)
    · rw [Phase.after_snoc] at hw
      exact .inr hw
  rcases hphase with hx | hp
  · exact .inr hx
  · cases hb : e.isLookup with
    | false =>
      refine .inl ⟨.inr ?_, ?_⟩
      · rcases Phase.next_of_other (p := Phase.after h) (r := r) hb with hn | ⟨-, r', hn, -⟩
        · rwa [hn] at hp
        · rw [hn] at hp
          rcases hp with hp | hp | hp <;> cases hp
      · cases e with
        | cache op => cases op <;> first | rfl | cases hb
        | _ => rfl
    | true =>
      obtain ⟨ht, ha⟩ := hr hb
      cases e with
      | cache op =>
        cases op with
        | lookupFresh k => exact .inl ⟨.inr hp, rfl⟩
        | lookupStale k =>
          rcases ht.2 with ht | ht
          · exact .inl ⟨.inr (.inl ht), rfl⟩
          · rw [ht] at hp
            cases r <;> rcases hp with hp | hp | hp <;> cases hp
        | cacheIsFresh => exact .inl ⟨.inr (.inr ht), rfl⟩
        | allowRefreshOnMiss => exact .inl ⟨.inl ⟨ht, ha⟩, rfl⟩
        | refreshRecentlyFailed => exact .inl ⟨.inr (.inl ht), rfl⟩
        | hasServableSnapshot => exact ht.elim
        | _ => rcases hp with hp | hp | hp <;> cases hp
      | lockRefresh | unlockRefresh => rcases hp with hp | hp | hp <;> cases hp
      | _ => cases hb

variable {s : JwkService} {kid : ι → String} {now₀ : Nat} {e₀ : Option (Jwks × Nat)}
  {h : List (Event svc ι Nat)} {w w' : World} {i : ι}

/-- Only the sections that hold the lock of the cache change it. -/
theorem call_cacheState {e : Eff} {r : e.Reply} (hc : (service s).call w e r w')
    (he : ∀ op, e ≠ .cache op) : w'.cache = w.cache := by
  cases e with
  | cache op => exact absurd rfl (he op)
  | redis d => rcases call_redis hc with ⟨rfl, -⟩ | ⟨rfl, -⟩ <;> rfl
  | newUuid => obtain ⟨-, -, rfl⟩ := call_newUuid hc; rfl
  | metric m => rw [call_metric hc]
  | lockRefresh => rw [(call_lockRefresh hc).2]
  | unlockRefresh => rw [call_unlockRefresh hc]
  | fetchKeys => rw [call_fetchKeys hc]
  | panic msg => exact r.elim
  | utcNow | readKeyId | writeKeyId | getKey | createKey =>
    obtain ⟨c, h⟩ := hc
    cases c <;> first
      | (cases h; done)
      | (cases Option.some.inj h; rfl)

/-- A call leaves the snapshot, unless it stores one. -/
theorem call_entry {e : Eff} {r : e.Reply} (hc : (service s).call w e r w') :
    w'.cache.entry = (e.stored.map (·, w.now)).or w.cache.entry := by
  cases e with
  | cache op => rw [(call_cache hc).2]; exact cache_entry s w.now w.cache op
  | _ => rw [call_cacheState hc nofun]; rfl

variable [DecidableEq ι]

/-- What holds of the snapshot after the events `h` of some lookups that start
with the snapshot `e₀` at the moment `now₀`. -/
structure Kept (s : JwkService) (kid : ι → String) (now₀ : Nat) (e₀ : Option (Jwks × Nat))
    (h : List (Event svc ι Nat)) (w : World) : Prop where
  clock : w.now = now₀ + elapsed h
  excludes : Excludes (fun i => Phase.after (callsOf i h)) w
  entry : w.cache.entry = (answers now₀ h).getLast?.or e₀
  fetched : ∀ x ∈ answers now₀ h, ∃ j status,
    Event.call j (⟨Eff.fetchKeys, .response status (some x.1)⟩ : Call svc) ∈ h
  missed : ∀ i, Waits (kid i) (callsOf i h) → Missed s (kid i) w

namespace Kept

theorem call (hk : Kept s kid now₀ e₀ h w) {e : Eff} {r : e.Reply}
    (ht : Rides (kid i) (callsOf i h) e) (hc : (service s).call w e r w') :
    Kept s kid now₀ e₀ (h ++ [.call i ⟨e, r⟩]) w' := by
  have hn := call_now hc
  have he := call_entry hc
  have hans : answers now₀ (h ++ [.call i ⟨e, r⟩]) =
      answers now₀ h ++ (e.stored.map (·, w.now)).toList := by
    rw [answers_append, ← hk.clock, answers, answers, List.append_nil]
  refine ⟨?_, ?_, ?_, fun x hx => ?_, fun j hj => ?_⟩
  · rw [hn, elapsed_append, hk.clock]
    rfl
  · rw [after_callsOf]
    exact hk.excludes.call (fun hb => (ht hb).1) hc
  · rw [he, hans, List.getLast?_append, hk.entry]
    cases e.stored <;> rfl
  · rw [hans] at hx
    rcases List.mem_append.mp hx with hx | hx
    · obtain ⟨j, status, hj⟩ := hk.fetched x hx
      exact ⟨j, status, List.mem_append_left _ hj⟩
    · -- The answer that is stored is the one the trip has brought.
      obtain ⟨jwks, hs, rfl⟩ : ∃ jwks, e.stored = some jwks ∧ x = (jwks, w.now) := by
        cases hs : e.stored with
        | none => rw [hs] at hx; cases hx
        | some jwks => rw [hs] at hx; exact ⟨jwks, rfl, List.mem_singleton.mp hx⟩
      obtain rfl := stored_eq_some.mp hs
      obtain ⟨status, hp⟩ := (ht rfl).1
      exact ⟨i, status, List.mem_append_left _ (mem_callsOf.mp (after_answered hp))⟩
  · by_cases hji : j = i
    · subst hji
      rw [callsOf_append, callsOf_call_self, callsOf_nil] at hj
      rcases hj.of_snoc ht with ⟨hw, hs⟩ | hx
      · refine (hk.missed j hw).later ?_ (Nat.le_of_eq hn.symm)
        rw [he, hs]
        rfl
      · cases hx
        obtain ⟨hr, hw⟩ := call_cache hc
        subst hw
        exact Missed.of_lookup hr.symm
    · rw [callsOf_append, callsOf_call_ne (Ne.symm hji), callsOf_nil, List.append_nil] at hj
      -- While `j` is under the lock, no other lookup stores anything.
      have hi := hk.excludes.others hj.not_away (Ne.symm hji)
      refine (hk.missed j hj).later ?_ (Nat.le_of_eq hn.symm)
      rw [he]
      cases hs : e.stored with
      | none => rfl
      | some jwks =>
        obtain rfl := stored_eq_some.mp hs
        obtain ⟨status, hp⟩ := (ht rfl).1
        rw [hi] at hp
        cases hp

theorem env (hk : Kept s kid now₀ e₀ h w) (d : Nat) :
    Kept s kid now₀ e₀ (h ++ [.env d]) (w.tick d) := by
  have hcalls : ∀ j, callsOf j (h ++ [.env d]) = callsOf j h := fun j => by
    rw [callsOf_append, callsOf_env, callsOf_nil, List.append_nil]
  have hans : answers now₀ (h ++ [.env d]) = answers now₀ h := by
    rw [answers_append, answers, answers, List.append_nil]
  refine ⟨?_, ?_, ?_, fun x hx => ?_, fun j hj => ?_⟩
  · rw [elapsed_append, ← Nat.add_assoc, ← hk.clock]
    rfl
  · simp only [hcalls]
    exact hk.excludes.tick d
  · rw [hans]
    exact hk.entry
  · rw [hans] at hx
    obtain ⟨j, status, hj⟩ := hk.fetched x hx
    exact ⟨j, status, List.mem_append_left _ hj⟩
  · rw [hcalls] at hj
    exact (hk.missed j hj).later rfl (Nat.le_add_right _ _)

end Kept

/-! ## Decisions -/

/-- In the run `tr`, the lookup `i` looks at the cache for the last time by the
call `c`, after the events `t₁`; `Q` is the pool right after it. -/
structure Decision (s : JwkService) (P : Pool svc World ι (Except JwkError Jwk))
    (tr : List (Event svc ι Nat)) (P' : Pool svc World ι (Except JwkError Jwk)) (i : ι)
    (t₁ : List (Event svc ι Nat)) (c : Call svc) (Q : Pool svc World ι (Except JwkError Jwk)) :
    Prop where
  before : (service s).Run P (t₁ ++ [.call i c]) Q
  look : c.eff.isCache = true
  after : ∃ t₂, tr = t₁ ++ .call i c :: t₂ ∧ (service s).Run Q t₂ P' ∧
    ∀ x ∈ callsOf i t₂, x.eff.isCache = false

variable {tr : List (Event svc ι Nat)} {P' : Pool svc World ι (Except JwkError Jwk)}

/-- Each lookup makes its trip and decides by the cache. -/
theorem lookups_decide (i : ι) :
    Prog.wp (fun h e => JwkService.Trip (kid i) h e ∧ Asks (kid i) h e)
      (callsOf i ([] : List (Event svc ι Nat))) ((lookups w kid).prog i)
      fun h r => Phase.after h = .away ∧ Decided (kid i) h r :=
  Prog.wp_and (@JwkService.publicKey_travels [] (kid i) rfl) (JwkService.publicKey_decided (kid i) [])

theorem lookups_kept (hr : (service s).Run (lookups w kid) tr P') :
    Kept s kid w.now w.cache.entry tr P'.st := by
  refine hr.inv (I := Kept s kid w.now w.cache.entry)
    (fun h w₁ i e r w₂ hk hp hc => hk.call (fun _ => hp) hc) (fun h w₁ d w₂ hk hc => ?_) lookups_decide ?_
  · cases hc
    exact hk.env d
  · refine ⟨rfl, ⟨fun _ hi => absurd rfl hi, fun _ _ hi => absurd rfl hi⟩, rfl, nofun, fun i hi => ?_⟩
    exact absurd rfl hi.not_away

/-- A lookup that has returned has decided, and its decision is the answer of
the cache to its last look. -/
theorem decision_of_ret (hr : (service s).Run (lookups w kid) tr P') {r : Except JwkError Jwk}
    (hi : P'.prog i = .ret r) :
    ∃ t₁ c Q₀ Q, Decision s (lookups w kid) tr P' i t₁ c Q ∧ Verdict (kid i) c r ∧
      (service s).call Q₀ c.eff c.reply Q.st ∧ JwkService.Trip (kid i) (callsOf i t₁) c.eff ∧
      Kept s kid w.now w.cache.entry t₁ Q₀ ∧
      Kept s kid w.now w.cache.entry (t₁ ++ [.call i c]) Q.st := by
  have hp := hr.path i
  rw [hi] at hp
  obtain ⟨c, ⟨cs, ds, hcs, hlook, hds⟩, hv⟩ := hp.wp_ret (JwkService.publicKey_decided (kid i) [])
  have htrip := (hp.wp (@JwkService.publicKey_travels [] (kid i) rfl)).2 cs c ds hcs
  obtain ⟨t₁, t₂, rfl, rfl, rfl⟩ := callsOf_split hcs
  obtain ⟨Q₀, Q, h₁, hstep, h₂⟩ := hr.split_at
  have hQ := h₁.trans (.cons hstep (.nil Q))
  refine ⟨t₁, c, Q₀.st, Q, ⟨hQ, hlook, t₂, rfl, h₂, hds⟩, hv, ?_, htrip, lookups_kept h₁,
    lookups_kept hQ⟩
  cases hstep with
  | call _ hc => exact hc

/-- A snapshot that cannot serve the key: it does not have it, or it is too
old. -/
def Unservable (s : JwkService) (kid : String) (w : World) : Prop :=
  ∀ jwks fetchedAt, w.cache.entry = some (jwks, fetchedAt) →
    jwks.find kid = none ∨ s.servableMaxAge ≤ w.now - fetchedAt

/-- A lookup fails only when, at its decision, the last answer of the key
service that was stored does not have the key or is too old to serve. So while
the snapshot counts as servable, the lookups of its keys succeed. -/
theorem outage_survived (hr : (service s).Run (lookups w kid) tr P') {r : Except JwkError Jwk}
    (hi : P'.prog i = .ret r) :
    ∃ t₁ c Q, Decision s (lookups w kid) tr P' i t₁ c Q ∧
      Q.st.cache.entry = (answers w.now (t₁ ++ [.call i c])).getLast?.or w.cache.entry ∧
      ((∃ e, r = .error e) → Unservable s (kid i) Q.st) ∧
      (s.hasServableSnapshot Q.st.now Q.st.cache = true →
        (∀ jwks fetchedAt, Q.st.cache.entry = some (jwks, fetchedAt) →
          (jwks.find (kid i)).isSome = true) → ∃ jwk, r = .ok jwk) := by
  obtain ⟨t₁, c, Q₀, Q, hd, hv, hc, htrip, hk₀, hk⟩ := decision_of_ret hr hi
  have hun : (∃ e, r = .error e) → Unservable s (kid i) Q.st := by
    rintro ⟨e, rfl⟩ jwks fetchedAt he
    cases hv with
    | absent hf =>
      obtain ⟨-, hQ⟩ := call_cache hc
      rw [hQ] at he
      cases he
      exact .inl hf
    | unserved =>
      obtain ⟨ho, hQ⟩ := call_cache hc
      rw [hQ] at he ⊢
      have he : Q₀.cache.entry = some (jwks, fetchedAt) := he
      simp only [CacheOp.exec, JwkService.lookupStale, he] at ho
      split at ho
      · exact .inr ‹_›
      · exact .inl (Option.map_eq_none_iff.mp ho.symm)
    | throttled =>
      obtain ⟨ho, hQ⟩ := call_cache hc
      rw [hQ] at he ⊢
      have he : Q₀.cache.entry = some (jwks, fetchedAt) := he
      -- The cache is fresh, so the miss under the lock was of the key.
      simp only [CacheOp.exec, JwkService.cacheIsFresh, he] at ho
      rcases hk₀.missed i (.inr (.inr htrip)) jwks fetchedAt he with hm | hm
      · exact .inl hm
      · have := of_decide_eq_true ho.symm
        omega
  refine ⟨t₁, c, Q, hd, hk.entry, hun, fun hs hin => ?_⟩
  cases r with
  | ok jwk => exact ⟨jwk, rfl⟩
  | error e =>
    unfold JwkService.hasServableSnapshot at hs
    split at hs
    · cases hs
    · rename_i jwks fetchedAt he
      simp only [Bool.and_eq_true, decide_eq_true_eq] at hs
      rcases hun ⟨e, rfl⟩ jwks fetchedAt he with hf | hf
      · have := hin jwks fetchedAt he
        rw [hf] at this
        cases this
      · omega

/-- A key is returned only from the last stored answer of the key service,
which the lookup has just fetched itself or which is younger than the lifetime
and the grace together. So a key that no answer stored since a moment has is
not returned once this much time has passed since then. -/
theorem withdrawn_key_expires (he : w.cache.entry = none)
    (hr : (service s).Run (lookups w kid) tr P') {jwk : Jwk} (hi : P'.prog i = .ret (.ok jwk)) :
    ∃ t₁ c Q jwks fetchedAt, Decision s (lookups w kid) tr P' i t₁ c Q ∧
      (answers w.now (t₁ ++ [.call i c])).getLast? = some (jwks, fetchedAt) ∧
      (∃ j status, Event.call j (⟨Eff.fetchKeys, .response status (some jwks)⟩ : Call svc) ∈ t₁) ∧
      jwks.find (kid i) = some jwk ∧
      ((∃ status, (⟨Eff.fetchKeys, .response status (some jwks)⟩ : Call svc) ∈ callsOf i t₁ ∧
          c = ⟨.cache (.store jwks), ()⟩) ∨
        s.cacheTtl ≠ 0 ∧ Q.st.now - fetchedAt < s.cacheTtl + s.staleGrace) ∧
      ∀ t, (∀ x ∈ answers w.now tr, t ≤ x.2 → x.1.find (kid i) = none) →
        Q.st.now < t + s.cacheTtl + s.staleGrace := by
  obtain ⟨t₁, c, Q₀, Q, hd, hv, hc, htrip, hk₀, hk⟩ := decision_of_ret hr hi
  obtain ⟨t₂, rfl, -, -⟩ := hd.after
  rw [he] at hk₀ hk
  -- What the answer is, and how old it is at the decision.
  obtain ⟨jwks, fetchedAt, hentry, hfetched, hf, hage⟩ : ∃ jwks fetchedAt,
      Q.st.cache.entry = some (jwks, fetchedAt) ∧
      (∃ j status, Event.call j (⟨Eff.fetchKeys, .response status (some jwks)⟩ : Call svc) ∈ t₁) ∧
      jwks.find (kid i) = some jwk ∧
      ((∃ status, (⟨Eff.fetchKeys, .response status (some jwks)⟩ : Call svc) ∈ callsOf i t₁ ∧
          c = ⟨.cache (.store jwks), ()⟩ ∧ fetchedAt = Q.st.now) ∨
        s.cacheTtl ≠ 0 ∧ Q.st.now - fetchedAt < s.cacheTtl + s.staleGrace) := by
    -- An answer that was in the cache before.
    have hold : ∀ jwks fetchedAt, Q₀.cache.entry = some (jwks, fetchedAt) → ∃ j status,
        Event.call j (⟨Eff.fetchKeys, .response status (some jwks)⟩ : Call svc) ∈ t₁ := by
      intro jwks fetchedAt h₀
      rw [hk₀.entry, Option.or_none] at h₀
      exact hk₀.fetched _ (List.mem_of_getLast? h₀)
    cases hv with
    | fresh =>
      obtain ⟨ho, hQ⟩ := call_cache hc
      rw [hQ]
      simp only [CacheOp.exec, JwkService.lookupFresh] at ho
      split at ho
      · cases ho
      · rename_i jwks fetchedAt h₀
        split at ho
        · cases ho
        · exact ⟨jwks, fetchedAt, h₀, hold _ _ h₀, ho.symm, .inr ⟨by omega, by
            show Q₀.now - fetchedAt < _
            omega⟩⟩
    | stale _ age =>
      obtain ⟨ho, hQ⟩ := call_cache hc
      rw [hQ]
      simp only [CacheOp.exec, JwkService.lookupStale] at ho
      split at ho
      · cases ho
      · rename_i jwks fetchedAt h₀
        split at ho
        · cases ho
        · obtain ⟨jwk', hf, hj⟩ := Option.map_eq_some_iff.mp ho.symm
          cases hj
          rename_i hlt
          unfold JwkService.servableMaxAge at hlt
          split at hlt
          · omega
          · exact ⟨jwks, fetchedAt, h₀, hold _ _ h₀, hf, .inr ⟨‹_›, by
              show Q₀.now - fetchedAt < _
              omega⟩⟩
    | @fetched jwks _ hf =>
      obtain ⟨-, hQ⟩ := call_cache hc
      obtain ⟨status, hp⟩ := htrip
      have hm := after_answered hp
      rw [hQ]
      exact ⟨jwks, Q₀.now, rfl, ⟨i, status, mem_callsOf.mp hm⟩, hf, .inl ⟨status, hm, rfl, rfl⟩⟩
  have hlast : (answers w.now (t₁ ++ [.call i c])).getLast? = some (jwks, fetchedAt) := by
    rw [← hentry, hk.entry, Option.or_none]
  refine ⟨t₁, c, Q, jwks, fetchedAt, hd, hlast, hfetched, hf, ?_, fun t ht => ?_⟩
  · rcases hage with ⟨status, hm, hc, -⟩ | hage
    · exact .inl ⟨status, hm, hc⟩
    · exact .inr hage
  · -- An answer with the key was stored before `t`.
    have hmem : (jwks, fetchedAt) ∈ answers w.now (t₁ ++ .call i c :: t₂) := by
      rw [List.append_cons, answers_append]
      exact List.mem_append_left _ (List.mem_of_getLast? hlast)
    have hlt : fetchedAt < t := by
      by_contra hle
      have := ht _ hmem (by omega)
      rw [hf] at this
      cases this
    rcases hage with ⟨-, -, -, rfl⟩ | ⟨-, hage⟩ <;> omega

end Kept

/-! ## Two lookups side by side -/

/-- What a program has returned. -/
def returned {F : Iface} {α : Type} : Prog F α → Option α
  | .ret a => some a
  | .call _ _ => none

theorem prog_of_returned {F : Iface} {α : Type} {p : Prog F α} {a : α} (h : returned p = some a) : p = .ret a := by
  cases p with
  | ret b => exact congrArg _ (Option.some.inj h)
  | call e k => cases h

/-- A lookup of a key outside the snapshot fails in an outage. -/
theorem outage_survived_junk :
    ∃ tr P' t₁ c Q, (service agedService).Run (lookups agedWorld fun _ : Bool => "junk") tr P' ∧
      P'.prog false = .ret (.error .badConnection) ∧
      Decision agedService (lookups agedWorld fun _ => "junk") tr P' false t₁ c Q ∧
      Unservable agedService "junk" Q.st := by
  obtain ⟨⟨tr, P'⟩, hplay, hret⟩ := (Option.any_eq_true _ _).mp (show (playLookups "junk"
    (fun _ _ => true) (lookupMoves false 5 4)).any
      (fun x => decide (returned (x.2.prog false) = some (.error .badConnection))) = true by decide)
  have hret := prog_of_returned (of_decide_eq_true hret)
  have hrun := (playLookups_run hplay).run
  obtain ⟨t₁, c, Q, hd, -, hun, -⟩ := outage_survived hrun hret
  exact ⟨tr, P', t₁, c, Q, hrun, hret, hd, hun ⟨_, rfl⟩⟩

/-- The moves of a lookup that fetches the keys, and of one that finds its key
in the cache five seconds later. -/
def fetchThenHit : List (System.Move Bool Choice Nat) :=
  List.replicate 5 (.call false .plain) ++ .call false (.keys (.response 200 (some agedKeys))) ::
    List.replicate 3 (.call false .plain) ++ .env 5000 :: List.replicate 2 (.call true .plain)

theorem withdrawn_key_expires_hit :
    ∃ tr P' t₁ c Q jwks fetchedAt,
      (service agedService).Run (lookups World.empty fun _ : Bool => "known") tr P' ∧
      P'.prog true = .ret (.ok ⟨"RSA", "RS256", "known", none, none, none, none, none⟩) ∧
      Decision agedService (lookups World.empty fun _ => "known") tr P' true t₁ c Q ∧
      (answers 0 (t₁ ++ [.call true c])).getLast? = some (jwks, fetchedAt) ∧
      ∀ t, (∀ x ∈ answers 0 tr, t ≤ x.2 → x.1.find "known" = none) → Q.st.now < t + 300000 + 10000 := by
  obtain ⟨⟨tr, P'⟩, hplay, hret⟩ := (Option.any_eq_true _ _).mp (show (System.play
    (World.act agedService) (fun w d => some (w.tick d)) (fun _ _ => true) fetchThenHit
    (lookups World.empty fun _ => "known")).any (fun x => decide (returned (x.2.prog true) =
      some (.ok ⟨"RSA", "RS256", "known", none, none, none, none, none⟩))) = true by decide)
  have hret := prog_of_returned (of_decide_eq_true hret)
  have hwhere : (service agedService).RunWhere (fun _ _ _ => True) [] (lookups World.empty
      fun _ => "known") tr P' :=
    System.play_run (fun _ _ c _ _ h => ⟨c, h⟩) (fun _ _ _ h => (Option.some.inj h).symm)
      (fun _ _ _ _ => trivial) hplay
  have hrun := hwhere.run
  obtain ⟨t₁, c, Q, jwks, fetchedAt, hd, hlast, -, -, -, ht⟩ := withdrawn_key_expires rfl hrun hret
  exact ⟨tr, P', t₁, c, Q, jwks, fetchedAt, hrun, hret, hd, hlast, ht⟩

end JwtService

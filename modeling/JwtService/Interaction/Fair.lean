import Mathlib.Data.Nat.Find
import Mathlib.Order.Nat
import JwtService.Interaction.Pool

/-!
# Runs without an end

A `Course` of a pool is a run that goes on for ever. It is fair (`Fair`) if a
party that can make its next call again and again makes it at some time: a
lock that is free again and again is taken in the end by each that waits for
it. `Fair.moves` is how fairness is used: a party that waits long enough is
seen to make its call, with nothing of it changed until then.

A program makes finitely many calls along each path, so what a party comes
nearer to with each of its calls is reached (`Course.eventually`). A run that
ends where no party can go on is a fair course (`Run.fair_course`), so
courses exist where there are such runs.
-/

namespace Interaction

namespace System

variable {F : Iface} {σ ι Λ α : Type} [DecidableEq ι] {S : System F σ Λ} {P P' : Pool F σ ι α}

/-- A run without an end. -/
structure Course (S : System F σ Λ) (P : Pool F σ ι α) where
  pool : ℕ → Pool F σ ι α
  event : ℕ → Event F ι Λ
  start : pool 0 = P
  step : ∀ n, S.Step (pool n) (event n) (pool (n + 1))

variable (S) in
/-- The party can make its next call. -/
def CanCall (P : Pool F σ ι α) (i : ι) : Prop :=
  ∃ e k r s, P.prog i = .call e k ∧ S.call P.st e r s

namespace Course

variable (ρ : S.Course P) {i : ι} {n m : ℕ}

/-- The first `n` events. -/
def upto (n : ℕ) : List (Event F ι Λ) := (List.range n).map ρ.event

/-- No party is kept waiting for ever while it can go on again and again. -/
def Fair : Prop := ∀ i n, (∀ m, n ≤ m → ∃ m', m ≤ m' ∧ S.CanCall (ρ.pool m') i) →
  ∃ m c, n ≤ m ∧ ρ.event m = .call i c

theorem upto_succ (n : ℕ) : ρ.upto (n + 1) = ρ.upto n ++ [ρ.event n] := by
  rw [upto, upto, List.range_succ, List.map_append, List.map_singleton]

/-- The part of a course before a moment is a run. -/
theorem run (n : ℕ) : S.Run P (ρ.upto n) (ρ.pool n) := by
  induction n with
  | zero =>
    rw [ρ.start]
    exact .nil P
  | succ n ih =>
    rw [ρ.upto_succ]
    exact ih.trans (.cons (ρ.step n) (.nil _))

/-- The calls of a party from one moment to a later one. -/
theorem path (i : ι) (h : n ≤ m) : ∃ cs, Prog.Path ((ρ.pool n).prog i) cs ((ρ.pool m).prog i) := by
  induction m, h using Nat.le_induction with
  | base => exact ⟨[], .nil _⟩
  | succ m _ ih =>
    obtain ⟨cs, hp⟩ := ih
    exact ⟨_, hp.trans ((ρ.step m).path i)⟩

/-- The party is where it was. -/
def Stays (i : ι) (n m : ℕ) : Prop :=
  (ρ.pool m).prog i = (ρ.pool n).prog i ∧ callsOf i (ρ.upto m) = callsOf i (ρ.upto n)

theorem stays (h : n ≤ m) (hn : ∀ l c, n ≤ l → l < m → ρ.event l ≠ .call i c) : ρ.Stays i n m := by
  induction m, h using Nat.le_induction with
  | base => exact ⟨rfl, rfl⟩
  | succ m hm ih =>
    have hcalls : callsOf i [ρ.event m] = [] := by
      cases he : ρ.event m with
      | env l => rfl
      | call j c =>
        have hj : j ≠ i := fun hj => hn m c hm (Nat.lt_succ_self m) (hj ▸ he)
        rw [callsOf_call_ne hj, callsOf_nil]
    have hpath := (ρ.step m).path i
    rw [hcalls] at hpath
    obtain ⟨hp, hc⟩ := ih fun l c hl hlm => hn l c hl (Nat.lt_succ_of_lt hlm)
    exact ⟨hpath.nil_inv.trans hp, by rw [ρ.upto_succ, callsOf_append, hcalls, List.append_nil, hc]⟩

/-- The first call of a party that makes one. -/
theorem first_call (h : ∃ m c, n ≤ m ∧ ρ.event m = .call i c) :
    ∃ m c, n ≤ m ∧ ρ.event m = .call i c ∧ ρ.Stays i n m := by
  classical
  have hex : ∃ m, n ≤ m ∧ ∃ c, ρ.event m = .call i c := by
    obtain ⟨m, c, hm, he⟩ := h
    exact ⟨m, hm, c, he⟩
  obtain ⟨hm, c, he⟩ := Nat.find_spec hex
  exact ⟨Nat.find hex, c, hm, he, ρ.stays hm fun l d hl hlt hd => Nat.find_min hex hlt ⟨hl, d, hd⟩⟩

/-- The goal `G` is reached if, whenever `K` holds, it is reached or the party
makes a call after which `K` holds again: the party runs out of calls. -/
theorem eventually {K G : ℕ → Prop} (h : ∀ n, K n → (∃ m, n ≤ m ∧ G m) ∨
      ∃ m c, n ≤ m ∧ ρ.event m = .call i c ∧ K (m + 1)) (hk : K n) : ∃ m, n ≤ m ∧ G m := by
  suffices hs : ∀ (p : Prog F α) (n : ℕ) (cs : List (Call F)), Prog.Path p cs ((ρ.pool n).prog i) →
      K n → ∃ m, n ≤ m ∧ G m from hs _ n [] (.nil _) hk
  intro p
  -- By induction on a program that the party is some calls into.
  induction p with
  | ret a =>
    intro n cs hp hk
    rcases h n hk with hg | ⟨m, c, hm, he, -⟩
    · exact hg
    · obtain ⟨-, hret⟩ := hp.ret_inv
      obtain ⟨ds, hd⟩ := ρ.path i hm
      rw [hret] at hd
      have hstep := (ρ.step m).path i
      rw [he, callsOf_call_self, callsOf_nil, hd.ret_inv.2] at hstep
      cases hstep
  | call e k ih =>
    intro n cs hp hk
    -- Past its first call, what is left is less.
    have hlater : ∀ n c cs, Prog.Path (.call e k) (c :: cs) ((ρ.pool n).prog i) → K n →
        ∃ m, n ≤ m ∧ G m := fun n c cs hp hk => by
      cases hp with
      | cons hp => exact ih _ n cs hp hk
    rcases h n hk with hg | ⟨m, c, hm, he, hk'⟩
    · exact hg
    · obtain ⟨ds, hd⟩ := ρ.path i hm
      have hstep := (ρ.step m).path i
      rw [he, callsOf_call_self, callsOf_nil] at hstep
      have hall := hp.trans (hd.trans hstep)
      obtain ⟨d, ds', hcs⟩ := List.exists_cons_of_ne_nil (l := cs ++ (ds ++ [c])) (by simp)
      rw [hcs] at hall
      obtain ⟨m', hm', hg⟩ := hlater (m + 1) d ds' hall hk'
      exact ⟨m', (Nat.le_succ_of_le hm).trans hm', hg⟩

variable {ρ}

/-- A party that is seen, whenever it still is where it was, to be able to go on
at some later moment at which it still is there, makes its call. -/
theorem Fair.moves (hf : ρ.Fair) (h : ∀ m, n ≤ m → ρ.Stays i n m →
      ∃ m', m ≤ m' ∧ (ρ.Stays i n m' → S.CanCall (ρ.pool m') i)) :
    ∃ m c, n ≤ m ∧ ρ.event m = .call i c ∧ ρ.Stays i n m := by
  by_contra hno
  have hnever : ∀ m c, n ≤ m → ρ.event m ≠ .call i c := fun m c hm he =>
    hno (ρ.first_call ⟨m, c, hm, he⟩)
  have hstays : ∀ m, n ≤ m → ρ.Stays i n m := fun m hm => ρ.stays hm fun l c hl _ => hnever l c hl
  obtain ⟨m, c, hm, he⟩ := hf i n fun m hm => by
    obtain ⟨m', hm', hcan⟩ := h m hm (hstays m hm)
    exact ⟨m', hm', hcan (hstays m' (hm.trans hm'))⟩
  exact hnever m c hm he

end Course

/-- A run that ends where no party can go on, and the environment may stand
still, goes on as a fair course. -/
theorem Run.fair_course {tr : List (Event F ι Λ)} {l : Λ} (hidle : ∀ s, S.env s l s)
    (h : S.Run P tr P') (hend : ∀ i, ¬ S.CanCall P' i) :
    ∃ ρ : S.Course P, ρ.Fair ∧ ∀ n, tr.length ≤ n → ρ.pool n = P' := by
  suffices hs : ∃ ρ : S.Course P, ∀ n, tr.length ≤ n → ρ.pool n = P' by
    obtain ⟨ρ, hρ⟩ := hs
    refine ⟨ρ, fun i n hcan => ?_, hρ⟩
    obtain ⟨m, hm, hc⟩ := hcan (max n tr.length) (Nat.le_max_left _ _)
    rw [hρ m ((Nat.le_max_right _ _).trans hm)] at hc
    exact absurd hc (hend i)
  induction h with
  | nil P => exact ⟨⟨fun _ => P, fun _ => .env l, rfl, fun _ => .env (hidle _)⟩, fun _ _ => rfl⟩
  | @cons P P₁ P' ev tr hs _ ih =>
    obtain ⟨ρ, hρ⟩ := ih hend
    refine ⟨⟨fun n => n.casesOn P ρ.pool, fun n => n.casesOn ev ρ.event, rfl, fun n => ?_⟩, fun n hn => ?_⟩
    · cases n with
      | zero =>
        show S.Step P ev (ρ.pool 0)
        rw [ρ.start]
        exact hs
      | succ n => exact ρ.step n
    · cases n with
      | zero => exact absurd hn (Nat.not_succ_le_zero _)
      | succ n => exact hρ n (Nat.le_of_succ_le_succ hn)

end System

end Interaction

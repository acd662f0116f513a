import Mathlib.Data.List.Basic

/-!
# Programs over an interface of effects

A program (`Prog`) either returns a value or makes a call to its environment
and goes on with the reply. What the replies may be is not part of the
program: `Path` lists the calls a program makes when it is given any replies
at all, and `Eval` runs it alone in a state, under a semantics of the calls.
The rest of a program after some calls is a program again, so the programs of
several parties can be interleaved call by call (`Pool.lean`).

`wp` is the logic of what a program does whatever it is answered: each call
it makes satisfies `P` at the calls made before it, and the value it returns
satisfies `Q` at all its calls. `wp_bind` follows the structure of the
program, and `Path.wp` gives the facts about a path. Where only the kind of
the calls matters, `Only` is enough, and `Only.wp` carries it into `wp`.
-/

namespace Interaction

/-- The calls a program may make, and what each is answered with. -/
structure Iface where
  Eff : Type
  Reply : Eff → Type

/-- A call together with its reply. -/
structure Call (F : Iface) where
  eff : F.Eff
  reply : F.Reply eff

/-- A program that makes calls of `F` and returns a value of `α`. -/
inductive Prog (F : Iface) (α : Type) where
  | ret (a : α)
  | call (e : F.Eff) (k : F.Reply e → Prog F α)

namespace Prog

variable {F : Iface} {α β γ : Type}

def bind : Prog F α → (α → Prog F β) → Prog F β
  | .ret a, f => f a
  | .call e k, f => .call e fun r => (k r).bind f

instance : Monad (Prog F) where
  pure := .ret
  bind := bind

/-- The program that makes the single call `e`. -/
def perform (e : F.Eff) : Prog F (F.Reply e) := .call e .ret

@[simp] theorem ret_bind (a : α) (f : α → Prog F β) : (Prog.ret a >>= f) = f a := rfl

@[simp] theorem call_bind (e : F.Eff) (k : F.Reply e → Prog F α) (f : α → Prog F β) :
    (Prog.call e k >>= f) = .call e fun r => k r >>= f := rfl

@[simp] theorem perform_bind (e : F.Eff) (f : F.Reply e → Prog F β) :
    (perform e >>= f) = .call e f := rfl

theorem bind_ret (p : Prog F α) : (p >>= Prog.ret) = p := by
  induction p with
  | ret a => rfl
  | call e k ih => simp only [call_bind, ih]

theorem bind_assoc (p : Prog F α) (f : α → Prog F β) (g : β → Prog F γ) :
    (p >>= f >>= g) = p >>= fun a => f a >>= g := by
  induction p with
  | ret a => rfl
  | call e k ih => simp only [call_bind, ih]

instance : LawfulMonad (Prog F) :=
  LawfulMonad.mk' (Prog F) (fun p => bind_ret p) (fun _ _ => rfl) bind_assoc

/-! ## Paths -/

/-- `Path p cs q`: answered as in `cs`, the program `p` makes the calls of
`cs` in this order, and `q` is what is left of it. -/
inductive Path : Prog F α → List (Call F) → Prog F α → Prop
  | nil (p : Prog F α) : Path p [] p
  | cons {e : F.Eff} {k : F.Reply e → Prog F α} {r : F.Reply e} {cs : List (Call F)}
      {q : Prog F α} (h : Path (k r) cs q) : Path (.call e k) (⟨e, r⟩ :: cs) q

theorem Path.trans {p q r : Prog F α} {cs ds : List (Call F)} (h₁ : Path p cs q)
    (h₂ : Path q ds r) : Path p (cs ++ ds) r := by
  induction h₁ with
  | nil => exact h₂
  | cons _ ih => exact .cons (ih h₂)

theorem Path.nil_inv {p q : Prog F α} (h : Path p [] q) : q = p := by
  cases h
  rfl

/-- One more call at the end of a path. -/
theorem Path.snoc {p : Prog F α} {cs : List (Call F)} {e : F.Eff} {k : F.Reply e → Prog F α}
    (h : Path p cs (.call e k)) (r : F.Reply e) : Path p (cs ++ [⟨e, r⟩]) (k r) :=
  h.trans (.cons (.nil _))

theorem Path.ret_inv {a : α} {cs : List (Call F)} {q : Prog F α} (h : Path (.ret a) cs q) :
    cs = [] ∧ q = .ret a := by
  cases h; exact ⟨rfl, rfl⟩

theorem Path.bind {p q : Prog F α} {cs : List (Call F)} (h : Path p cs q) (f : α → Prog F β) :
    Path (p >>= f) cs (q >>= f) := by
  induction h with
  | nil => exact .nil _
  | cons _ ih => exact .cons ih

/-- A path of `p >>= f` that returns is a path of `p` that returns, then one
of `f`. -/
theorem Path.bind_ret_inv {p : Prog F α} {f : α → Prog F β} {cs : List (Call F)} {b : β}
    (h : Path (p >>= f) cs (.ret b)) :
    ∃ a cs₁ cs₂, cs = cs₁ ++ cs₂ ∧ Path p cs₁ (.ret a) ∧ Path (f a) cs₂ (.ret b) := by
  induction p generalizing cs with
  | ret a => exact ⟨a, [], cs, rfl, .nil _, h⟩
  | call e k ih =>
    cases h with
    | cons h =>
      obtain ⟨a, cs₁, cs₂, rfl, h₁, h₂⟩ := ih _ h
      exact ⟨a, _ :: cs₁, cs₂, rfl, .cons h₁, h₂⟩

/-- A path of `p >>= f` stops at a call of `p`, or is a path of `p` that
returns, then one of `f`. -/
theorem Path.bind_inv {p : Prog F α} {f : α → Prog F β} {cs : List (Call F)} {q : Prog F β}
    (h : Path (p >>= f) cs q) :
    (∃ e k, Path p cs (.call e k) ∧ q = .call e fun r => k r >>= f) ∨
      ∃ a cs₁ cs₂, cs = cs₁ ++ cs₂ ∧ Path p cs₁ (.ret a) ∧ Path (f a) cs₂ q := by
  induction p generalizing cs with
  | ret a => exact .inr ⟨a, [], cs, rfl, .nil _, h⟩
  | call e k ih =>
    cases h with
    | nil => exact .inl ⟨e, k, .nil _, rfl⟩
    | cons h =>
      rcases ih _ h with ⟨e', k', h₁, hq⟩ | ⟨a, cs₁, cs₂, rfl, h₁, h₂⟩
      · exact .inl ⟨e', k', .cons h₁, hq⟩
      · exact .inr ⟨a, _ :: cs₁, cs₂, rfl, .cons h₁, h₂⟩

/-- A path stops on its way. -/
theorem Path.append_inv {p q : Prog F α} {cs ds : List (Call F)} (h : Path p (cs ++ ds) q) :
    ∃ m, Path p cs m ∧ Path m ds q := by
  induction cs generalizing p with
  | nil => exact ⟨p, .nil p, h⟩
  | cons c cs ih =>
    cases h with
    | cons h =>
      obtain ⟨m, h₁, h₂⟩ := ih h
      exact ⟨m, .cons h₁, h₂⟩

/-- The calls of a path lead to one program only. -/
theorem Path.rest {p q r : Prog F α} {cs ds : List (Call F)} (h₁ : Path p cs q)
    (h₂ : Path p (cs ++ ds) r) : Path q ds r := by
  induction h₁ with
  | nil => exact h₂
  | cons _ ih =>
    cases h₂ with
    | cons h₂ => exact ih h₂

/-! ## What a program does whatever it is answered -/

/-- After the calls `h`, along every path of the program each call it makes
satisfies `P` at the calls before it, and a value it returns satisfies `Q`
at all the calls. -/
def wp (P : List (Call F) → F.Eff → Prop) :
    List (Call F) → Prog F α → (List (Call F) → α → Prop) → Prop
  | h, .ret a, Q => Q h a
  | h, .call e k, Q => P h e ∧ ∀ r, wp P (h ++ [⟨e, r⟩]) (k r) Q

variable {P : List (Call F) → F.Eff → Prop} {Q : List (Call F) → α → Prop}

@[simp] theorem wp_ret (h : List (Call F)) (a : α) : wp P h (.ret a) Q ↔ Q h a := Iff.rfl

@[simp] theorem wp_call (h : List (Call F)) (e : F.Eff) (k : F.Reply e → Prog F α) :
    wp P h (.call e k) Q ↔ P h e ∧ ∀ r, wp P (h ++ [⟨e, r⟩]) (k r) Q := Iff.rfl

theorem wp_bind {Q : List (Call F) → β → Prop} (h : List (Call F)) (p : Prog F α)
    (f : α → Prog F β) :
    wp P h (p >>= f) Q ↔ wp P h p fun h' a => wp P h' (f a) Q := by
  induction p generalizing h with
  | ret a => exact Iff.rfl
  | call e k ih => simp only [call_bind, wp_call, ih]

theorem wp_mono {P' : List (Call F) → F.Eff → Prop} {Q' : List (Call F) → α → Prop}
    (hP : ∀ h e, P h e → P' h e) (hQ : ∀ h a, Q h a → Q' h a) {h : List (Call F)}
    {p : Prog F α} (hp : wp P h p Q) : wp P' h p Q' := by
  induction p generalizing h with
  | ret a => exact hQ _ _ hp
  | call e k ih => exact ⟨hP _ _ hp.1, fun r => ih r (hp.2 r)⟩

/-- A weaker postcondition. -/
theorem wp_imp {Q' : List (Call F) → α → Prop} {h : List (Call F)} {p : Prog F α}
    (hp : wp P h p Q) (hQ : ∀ h a, Q h a → Q' h a) : wp P h p Q' :=
  wp_mono (fun _ _ h => h) hQ hp

/-- Two facts about the same program. -/
theorem wp_and {P' : List (Call F) → F.Eff → Prop} {Q' : List (Call F) → α → Prop}
    {h : List (Call F)} {p : Prog F α} (hp : wp P h p Q) (hp' : wp P' h p Q') :
    wp (fun h e => P h e ∧ P' h e) h p fun h a => Q h a ∧ Q' h a := by
  induction p generalizing h with
  | ret a => exact ⟨hp, hp'⟩
  | call e k ih => exact ⟨⟨hp.1, hp'.1⟩, fun r => ih r (hp.2 r) (hp'.2 r)⟩

/-- What `wp` says of a path: the calls of the path, and the rest of the
program. -/
theorem Path.wp {p q : Prog F α} {cs h : List (Call F)} (hp : Path p cs q)
    (hw : Prog.wp P h p Q) :
    Prog.wp P (h ++ cs) q Q ∧ ∀ cs₁ c cs₂, cs = cs₁ ++ c :: cs₂ → P (h ++ cs₁) c.eff := by
  induction hp generalizing h with
  | nil p => exact ⟨by rwa [List.append_nil], fun cs₁ c cs₂ e => by simp at e⟩
  | @cons e k r cs q _ ih =>
    obtain ⟨h₁, h₂⟩ := ih (hw.2 r)
    rw [List.append_assoc] at h₁
    refine ⟨h₁, fun cs₁ c cs₂ e => ?_⟩
    rcases cs₁ with _ | ⟨c₁, cs₁⟩
    · obtain ⟨rfl, -⟩ := List.cons.inj e
      rw [List.append_nil]; exact hw.1
    · obtain ⟨rfl, e'⟩ := List.cons.inj e
      have := h₂ cs₁ c cs₂ e'
      rwa [List.append_assoc] at this

/-- The postcondition of a path that returns. -/
theorem Path.wp_ret {p : Prog F α} {cs : List (Call F)} {a : α} (hp : Path p cs (.ret a))
    (hw : Prog.wp P [] p Q) : Q cs a :=
  (hp.wp hw).1

/-- The call a path is about to make. -/
theorem Path.wp_call {p : Prog F α} {cs : List (Call F)} {e : F.Eff} {k : F.Reply e → Prog F α}
    (hp : Path p cs (.call e k)) (hw : Prog.wp P [] p Q) : P cs e :=
  (hp.wp hw).1.1

/-- What holds of every path that returns, `wp` gives. -/
theorem wp_of_path {h : List (Call F)} {p : Prog F α}
    (hp : ∀ cs a, Path p cs (.ret a) → Q (h ++ cs) a) : wp (fun _ _ => True) h p Q := by
  induction p generalizing h with
  | ret a =>
    have := hp [] a (.nil _)
    rwa [List.append_nil] at this
  | call e k ih =>
    refine ⟨trivial, fun r => ih r fun cs a hcs => ?_⟩
    have := hp _ a (.cons hcs)
    rwa [← List.append_cons]

/-! ## Which calls a program makes -/

/-- Every call the program can make satisfies `E`. -/
def Only (E : F.Eff → Prop) : Prog F α → Prop
  | .ret _ => True
  | .call e k => E e ∧ ∀ r, (k r).Only E

variable {E : F.Eff → Prop}

@[simp] theorem only_ret (a : α) : (Prog.ret a : Prog F α).Only E := trivial

@[simp] theorem only_call (e : F.Eff) (k : F.Reply e → Prog F α) :
    (Prog.call e k).Only E ↔ E e ∧ ∀ r, (k r).Only E := Iff.rfl

theorem only_true (p : Prog F α) : p.Only fun _ => True := by
  induction p with
  | ret a => trivial
  | call e k ih => exact ⟨trivial, ih⟩

theorem only_bind {p : Prog F α} {f : α → Prog F β} (hp : p.Only E) (hf : ∀ a, (f a).Only E) :
    (p >>= f).Only E := by
  induction p with
  | ret a => exact hf a
  | call e k ih => exact ⟨hp.1, fun r => ih r (hp.2 r)⟩

theorem Only.mono {E' : F.Eff → Prop} (hE : ∀ e, E e → E' e) {p : Prog F α} (hp : p.Only E) :
    p.Only E' := by
  induction p with
  | ret a => trivial
  | call e k ih => exact ⟨hE _ hp.1, fun r => ih r (hp.2 r)⟩

theorem Only.path {p q : Prog F α} {cs : List (Call F)} (hp : p.Only E) (h : Path p cs q) :
    ∀ c ∈ cs, E c.eff := by
  induction h with
  | nil => exact nofun
  | cons _ ih => exact List.forall_mem_cons.mpr ⟨hp.1, ih (hp.2 _)⟩

/-- The call a path stops at. -/
theorem Only.stop {p : Prog F α} {cs : List (Call F)} {e : F.Eff} {k : F.Reply e → Prog F α}
    (hp : p.Only E) (h : Path p cs (.call e k)) : E e := by
  generalize hq : Prog.call e k = q at h
  induction h with
  | nil =>
    subst hq
    exact hp.1
  | cons _ ih => exact ih (hp.2 _) hq

/-- A program that makes calls of `E` only, after the calls `h`. -/
theorem Only.wp {h : List (Call F)} {p : Prog F α} (hp : p.Only E)
    (hP : ∀ cs e, (∀ c ∈ cs, E c.eff) → E e → P (h ++ cs) e)
    (hQ : ∀ cs a, (∀ c ∈ cs, E c.eff) → Q (h ++ cs) a) : Prog.wp P h p Q := by
  induction p generalizing h with
  | ret a =>
    have := hQ [] a (by simp)
    rwa [List.append_nil] at this
  | call e k ih =>
    refine ⟨?_, fun r => ih r (hp.2 r) (fun cs e' hcs he => ?_) fun cs a hcs => ?_⟩
    · have := hP [] e (by simp) hp.1
      rwa [List.append_nil] at this
    · rw [List.append_assoc]
      exact hP _ _ (by simpa using ⟨hp.1, hcs⟩) he
    · rw [List.append_assoc]
      exact hQ _ _ (by simpa using ⟨hp.1, hcs⟩)

/-! ## What a program keeps of its calls -/

/-- From calls that satisfy `I` each call of the program satisfies `P`, and
where it returns, the calls satisfy `I` again. -/
def Maintains (P : List (Call F) → F.Eff → Prop) (I : List (Call F) → Prop) (p : Prog F α) : Prop :=
  ∀ h, I h → wp P h p fun h' _ => I h'

section Maintains

variable {I : List (Call F) → Prop}

theorem maintains_ret (a : α) : (Prog.ret a : Prog F α).Maintains P I := fun _ hi => hi

theorem maintains_bind {p : Prog F α} {f : α → Prog F β} (hp : p.Maintains P I)
    (hf : ∀ a, (f a).Maintains P I) : (p >>= f).Maintains P I := fun h hi =>
  (wp_bind h p f).mpr (wp_imp (hp h hi) fun h' a hi' => hf a h' hi')

/-- A program whose calls keep `I` one by one. -/
theorem Only.maintains {p : Prog F α} (hp : p.Only E) (hP : ∀ h e, I h → E e → P h e)
    (hI : ∀ h e r, I h → E e → I (h ++ [⟨e, r⟩])) : p.Maintains P I := by
  induction p with
  | ret a => exact maintains_ret a
  | call e k ih => exact fun h hi => ⟨hP h e hi hp.1, fun r => ih r (hp.2 r) _ (hI h e r hi hp.1)⟩

end Maintains

/-! ## What a program returns to given replies -/

/-- Answered only as `R` allows, the program returns a value of `Q`, if any. -/
def Yields (R : Call F → Prop) (Q : α → Prop) : Prog F α → Prop
  | .ret a => Q a
  | .call e k => ∀ r, R ⟨e, r⟩ → (k r).Yields R Q

section Yields

variable {R : Call F → Prop} {Q : α → Prop}

theorem Yields.mono {Q' : α → Prop} (hQ : ∀ a, Q a → Q' a) {p : Prog F α} (h : p.Yields R Q) :
    p.Yields R Q' := by
  induction p with
  | ret a => exact hQ a h
  | call e k ih => exact fun r hr => ih r (h r hr)

end Yields

/-! ## Running alone in a state -/

variable {σ : Type}

/-- A semantics of the calls on states `σ`: which replies a call may get, and
the state after each. -/
abbrev Sem (F : Iface) (σ : Type) := σ → (e : F.Eff) → F.Reply e → σ → Prop

/-- `p.Eval S s a s'`: run alone from `s`, with the calls answered by `S`,
the program may return `a` in the state `s'`. -/
def Eval (S : Sem F σ) : Prog F α → σ → α → σ → Prop
  | .ret a, s, b, s' => b = a ∧ s' = s
  | .call e k, s, b, s' => ∃ r s₁, S s e r s₁ ∧ (k r).Eval S s₁ b s'

variable {S : Sem F σ}

@[simp] theorem eval_ret {a b : α} {s s' : σ} :
    (Prog.ret a : Prog F α).Eval S s b s' ↔ b = a ∧ s' = s := Iff.rfl

@[simp] theorem eval_call {e : F.Eff} {k : F.Reply e → Prog F α} {s s' : σ} {b : α} :
    (Prog.call e k).Eval S s b s' ↔ ∃ r s₁, S s e r s₁ ∧ (k r).Eval S s₁ b s' := Iff.rfl

theorem eval_bind {p : Prog F α} {f : α → Prog F β} {s s' : σ} {b : β} :
    (p >>= f).Eval S s b s' ↔ ∃ a s₁, p.Eval S s a s₁ ∧ (f a).Eval S s₁ b s' := by
  induction p generalizing s with
  | ret a => simp
  | call e k ih =>
    simp only [call_bind, eval_call, ih]
    constructor
    · rintro ⟨r, s₁, h, a, s₂, h₁, h₂⟩; exact ⟨a, s₂, ⟨r, s₁, h, h₁⟩, h₂⟩
    · rintro ⟨a, s₂, ⟨r, s₁, h, h₁⟩, h₂⟩; exact ⟨r, s₁, h, a, s₂, h₁, h₂⟩

theorem Eval.mono {S' : Sem F σ} (hS : ∀ s e r s', S s e r s' → S' s e r s') {p : Prog F α}
    {s s' : σ} {a : α} (h : p.Eval S s a s') : p.Eval S' s a s' := by
  induction p generalizing s with
  | ret _ => exact h
  | call e k ih => obtain ⟨r, s₁, h₁, h₂⟩ := h; exact ⟨r, s₁, hS _ _ _ _ h₁, ih _ h₂⟩

/-- What the calls of a program keep, the program keeps. -/
theorem Only.keeps {I : σ → Prop} {p : Prog F α} (hp : p.Only E)
    (hI : ∀ s e r s', E e → S s e r s' → I s → I s') {s s' : σ} {a : α} (h : p.Eval S s a s')
    (hs : I s) : I s' := by
  induction p generalizing s with
  | ret _ => obtain ⟨-, rfl⟩ := h; exact hs
  | call e k ih =>
    obtain ⟨r, s₁, h₁, h₂⟩ := h
    exact ih _ (hp.2 r) h₂ (hI _ _ _ _ hp.1 h₁ hs)

/-- An invariant of the calls so far and the state, given what the program
does whatever it is answered. -/
theorem Eval.inv {I : List (Call F) → σ → Prop}
    (hI : ∀ h s e r s', I h s → P h e → S s e r s' → I (h ++ [⟨e, r⟩]) s') {h : List (Call F)}
    {p : Prog F α} (hw : wp P h p Q) {s s' : σ} {a : α} (hi : I h s) (he : p.Eval S s a s') :
    ∃ cs, I (h ++ cs) s' ∧ Q (h ++ cs) a := by
  induction p generalizing h s with
  | ret b =>
    obtain ⟨rfl, rfl⟩ := he
    exact ⟨[], by rwa [List.append_nil], by rw [List.append_nil]; exact hw⟩
  | call e k ih =>
    obtain ⟨r, s₁, h₁, h₂⟩ := he
    obtain ⟨cs, h₃, h₄⟩ := ih r (hw.2 r) (hI _ _ _ _ _ hi hw.1 h₁) h₂
    rw [← List.append_cons] at h₃ h₄
    exact ⟨_, h₃, h₄⟩

/-- A fact about the value alone. -/
theorem Eval.post {Q : α → Prop} {p : Prog F α} (hw : wp (fun _ _ => True) [] p fun _ a => Q a)
    {s s' : σ} {a : α} (he : p.Eval S s a s') : Q a := by
  obtain ⟨cs, -, hq⟩ := Eval.inv (I := fun _ _ => True) (fun _ _ _ _ _ _ _ _ => trivial) hw
    trivial he
  exact hq

/-! ## Running with given choices -/

/-- Runs a program alone, with the choices of the environment listed in
advance: `act s e c` is the reply to `e` in `s` under the choice `c` and the
state after it, or `none` where the choice is impossible. -/
def exec {C : Type} (act : σ → (e : F.Eff) → C → Option (F.Reply e × σ)) :
    Prog F α → List C → σ → Option (α × σ)
  | .ret a, _, s => some (a, s)
  | .call _ _, [], _ => none
  | .call e k, c :: cs, s => (act s e c).bind fun x => (k x.1).exec act cs x.2

/-- A run with given choices is a run of the semantics the choices give. -/
theorem exec_eval {C : Type} {act : σ → (e : F.Eff) → C → Option (F.Reply e × σ)}
    (hS : ∀ s e c r s', act s e c = some (r, s') → S s e r s') {p : Prog F α} {cs : List C}
    {s s' : σ} {a : α} (h : p.exec act cs s = some (a, s')) : p.Eval S s a s' := by
  induction p generalizing cs s with
  | ret b =>
    simp only [exec, Option.some.injEq, Prod.mk.injEq] at h
    exact ⟨h.1.symm, h.2.symm⟩
  | call e k ih =>
    cases cs with
    | nil => simp [exec] at h
    | cons c cs =>
      simp only [exec, Option.bind_eq_some_iff] at h
      obtain ⟨⟨r, s₁⟩, h₁, h₂⟩ := h
      exact ⟨r, s₁, hS _ _ _ _ _ h₁, ih _ h₂⟩

end Prog

end Interaction

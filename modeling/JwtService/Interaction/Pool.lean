import Mathlib.Logic.Function.Basic
import JwtService.Interaction.Prog

/-!
# Programs run side by side

A `Pool` is a shared state and one program for each party. A step (`Step`)
lets one party make its next call, answered by the shared state in one
indivisible action, or lets the environment move (time, for example). A
`Run` is any sequence of such steps, so every interleaving of the calls of
the parties is a run; a party that has made no call yet has not started.

The events of a run are kept in order. `Run.path` takes from them the path
of one party, and `Run.inv` proves an invariant of the events so far and the
state, using of each party only what `wp` says of its program. `play` runs a
pool by a list of choices, and `play_run` says that what it does is a run.
-/

namespace Interaction

/-- How the shared state answers calls, and how the environment moves. -/
structure System (F : Iface) (σ Λ : Type) where
  call : Prog.Sem F σ
  env : σ → Λ → σ → Prop

/-- A call of party `i` with its reply, or a move of the environment. -/
inductive Event (F : Iface) (ι Λ : Type) where
  | call (i : ι) (c : Call F)
  | env (l : Λ)

structure Pool (F : Iface) (σ ι α : Type) where
  st : σ
  prog : ι → Prog F α

variable {F : Iface} {σ ι Λ α : Type} [DecidableEq ι]

/-- The calls of party `i`, in order. -/
def callsOf (i : ι) : List (Event F ι Λ) → List (Call F)
  | [] => []
  | .call j c :: tr => if j = i then c :: callsOf i tr else callsOf i tr
  | .env _ :: tr => callsOf i tr

@[simp] theorem callsOf_nil (i : ι) : callsOf i ([] : List (Event F ι Λ)) = [] := rfl

theorem callsOf_append (i : ι) (t₁ t₂ : List (Event F ι Λ)) :
    callsOf i (t₁ ++ t₂) = callsOf i t₁ ++ callsOf i t₂ := by
  induction t₁ with
  | nil => rfl
  | cons ev t₁ ih =>
    cases ev with
    | env l => exact ih
    | call j c =>
      simp only [List.cons_append, callsOf, ih]
      split <;> rfl

@[simp] theorem callsOf_call_self (i : ι) (c : Call F) (tr : List (Event F ι Λ)) :
    callsOf i (.call i c :: tr) = c :: callsOf i tr := by
  simp [callsOf]

theorem callsOf_call_ne {i j : ι} (h : j ≠ i) (c : Call F) (tr : List (Event F ι Λ)) :
    callsOf i (.call j c :: tr) = callsOf i tr := by
  simp [callsOf, h]

@[simp] theorem callsOf_env (i : ι) (l : Λ) (tr : List (Event F ι Λ)) :
    callsOf i (.env l :: tr) = callsOf i tr := rfl

@[simp] theorem callsOf_map_self (i : ι) (cs : List (Call F)) :
    callsOf i (cs.map (Event.call i) : List (Event F ι Λ)) = cs := by
  induction cs with
  | nil => rfl
  | cons c cs ih => rw [List.map_cons, callsOf_call_self, ih]

theorem callsOf_map_ne {i j : ι} (h : i ≠ j) (cs : List (Call F)) :
    callsOf j (cs.map (Event.call i) : List (Event F ι Λ)) = [] := by
  induction cs with
  | nil => rfl
  | cons c cs ih => rw [List.map_cons, callsOf_call_ne h, ih]

theorem callsOf_map (i j : ι) (cs : List (Call F)) :
    callsOf j (cs.map (Event.call i) : List (Event F ι Λ)) = if i = j then cs else [] := by
  split
  · rename_i h
    rw [h, callsOf_map_self]
  · rename_i h
    exact callsOf_map_ne h cs

theorem mem_callsOf {i : ι} {c : Call F} {tr : List (Event F ι Λ)} :
    c ∈ callsOf i tr ↔ Event.call i c ∈ tr := by
  induction tr with
  | nil => simp
  | cons ev tr ih =>
    cases ev with
    | env l => simp [ih]
    | call j d =>
      by_cases h : j = i
      · subst h; simp [ih]
      · rw [callsOf_call_ne h, ih]
        simp [Ne.symm h]

/-- An element of the calls of `i` splits the events where it splits the
calls. -/
theorem callsOf_split {i : ι} {tr : List (Event F ι Λ)} {cs₁ cs₂ : List (Call F)} {c : Call F}
    (h : callsOf i tr = cs₁ ++ c :: cs₂) :
    ∃ t₁ t₂, tr = t₁ ++ .call i c :: t₂ ∧ callsOf i t₁ = cs₁ ∧ callsOf i t₂ = cs₂ := by
  induction tr generalizing cs₁ with
  | nil => simp at h
  | cons ev tr ih =>
    cases ev with
    | env l =>
      obtain ⟨t₁, t₂, rfl, h₁, h₂⟩ := ih h
      exact ⟨.env l :: t₁, t₂, rfl, h₁, h₂⟩
    | call j d =>
      by_cases hj : j = i
      · subst hj
        rw [callsOf_call_self] at h
        rcases cs₁ with _ | ⟨c₁, cs₁⟩
        · obtain ⟨rfl, h'⟩ := List.cons.inj h
          exact ⟨[], tr, rfl, rfl, h'⟩
        · obtain ⟨rfl, h'⟩ := List.cons.inj h
          obtain ⟨t₁, t₂, rfl, h₁, h₂⟩ := ih h'
          exact ⟨.call j d :: t₁, t₂, rfl, by rw [callsOf_call_self, h₁], h₂⟩
      · rw [callsOf_call_ne hj] at h
        obtain ⟨t₁, t₂, rfl, h₁, h₂⟩ := ih h
        exact ⟨.call j d :: t₁, t₂, rfl, by rw [callsOf_call_ne hj, h₁], h₂⟩

namespace System

variable (S : System F σ Λ)

/-- One call of one party, or one move of the environment. -/
inductive Step : Pool F σ ι α → Event F ι Λ → Pool F σ ι α → Prop
  | call {P : Pool F σ ι α} {i : ι} {e : F.Eff} {k : F.Reply e → Prog F α} {r : F.Reply e}
      {s : σ} (hp : P.prog i = .call e k) (hs : S.call P.st e r s) :
      Step P (.call i ⟨e, r⟩) ⟨s, Function.update P.prog i (k r)⟩
  | env {P : Pool F σ ι α} {l : Λ} {s : σ} (hs : S.env P.st l s) : Step P (.env l) ⟨s, P.prog⟩

/-- Any number of steps, with their events in order. -/
inductive Run : Pool F σ ι α → List (Event F ι Λ) → Pool F σ ι α → Prop
  | nil (P : Pool F σ ι α) : Run P [] P
  | cons {P P₁ P' : Pool F σ ι α} {ev : Event F ι Λ} {tr : List (Event F ι Λ)}
      (h : S.Step P ev P₁) (hr : Run P₁ tr P') : Run P (ev :: tr) P'

variable {S} {P P' : Pool F σ ι α} {tr : List (Event F ι Λ)}

/-- A run splits where its events do. -/
theorem Run.split {t₁ t₂ : List (Event F ι Λ)} (h : S.Run P (t₁ ++ t₂) P') :
    ∃ Q, S.Run P t₁ Q ∧ S.Run Q t₂ P' := by
  induction t₁ generalizing P with
  | nil => exact ⟨P, .nil P, h⟩
  | cons ev t₁ ih =>
    cases h with
    | cons hs hr =>
      obtain ⟨Q, h₁, h₂⟩ := ih hr
      exact ⟨Q, .cons hs h₁, h₂⟩

/-- A run up to one of its events, that event, and the rest. -/
theorem Run.split_at {t₁ t₂ : List (Event F ι Λ)} {ev : Event F ι Λ}
    (h : S.Run P (t₁ ++ ev :: t₂) P') :
    ∃ Q Q', S.Run P t₁ Q ∧ S.Step Q ev Q' ∧ S.Run Q' t₂ P' := by
  obtain ⟨Q, h₁, h₂⟩ := h.split
  cases h₂ with
  | cons hs hr => exact ⟨Q, _, h₁, hs, hr⟩

theorem Run.trans {Q : Pool F σ ι α} {t₁ t₂ : List (Event F ι Λ)} (h₁ : S.Run P t₁ Q)
    (h₂ : S.Run Q t₂ P') : S.Run P (t₁ ++ t₂) P' := by
  induction h₁ with
  | nil => exact h₂
  | cons hs _ ih => exact .cons hs (ih h₂)

theorem Step.path {ev : Event F ι Λ} (h : S.Step P ev P') (i : ι) :
    Prog.Path (P.prog i) (callsOf i [ev]) (P'.prog i) := by
  cases h with
  | env => exact .nil _
  | @call j e k r s hp hs =>
    by_cases hj : j = i
    · subst hj
      simp only [callsOf_call_self, callsOf_nil, hp, Function.update_self]
      exact .cons (.nil _)
    · simp only [callsOf_call_ne hj, callsOf_nil, Function.update_of_ne (Ne.symm hj)]
      exact .nil _

/-- The calls of a party in a run are a path of its program. -/
theorem Run.path (h : S.Run P tr P') (i : ι) :
    Prog.Path (P.prog i) (callsOf i tr) (P'.prog i) := by
  induction h with
  | nil => exact .nil _
  | @cons P P₁ P' ev tr hs _ ih =>
    have := (hs.path i).trans ih
    rwa [← callsOf_append] at this

section Inv

variable {R : ι → List (Call F) → F.Eff → Prop} {Q : ι → List (Call F) → α → Prop}
  {h₀ : List (Event F ι Λ)}

theorem Step.wp {ev : Event F ι Λ}
    (hw : ∀ i, Prog.wp (R i) (callsOf i h₀) (P.prog i) (Q i)) (h : S.Step P ev P') (i : ι) :
    Prog.wp (R i) (callsOf i (h₀ ++ [ev])) (P'.prog i) (Q i) := by
  rw [callsOf_append]
  exact ((h.path i).wp (hw i)).1

/-- What is left of the programs after a run still does what it did. -/
theorem Run.wp (hw : ∀ i, Prog.wp (R i) (callsOf i h₀) (P.prog i) (Q i)) (h : S.Run P tr P')
    (i : ι) : Prog.wp (R i) (callsOf i (h₀ ++ tr)) (P'.prog i) (Q i) := by
  rw [callsOf_append]
  exact ((h.path i).wp (hw i)).1

/-- An invariant of the events so far and the state, given what the
programs of the parties do whatever they are answered: the call a party
makes satisfies `R` at its calls before. -/
theorem Run.inv {I : List (Event F ι Λ) → σ → Prop}
    (hcall : ∀ h s i e r s', I h s → R i (callsOf i h) e → S.call s e r s' →
      I (h ++ [.call i ⟨e, r⟩]) s')
    (henv : ∀ h s l s', I h s → S.env s l s' → I (h ++ [.env l]) s')
    (hw : ∀ i, Prog.wp (R i) (callsOf i h₀) (P.prog i) (Q i)) (hi : I h₀ P.st)
    (h : S.Run P tr P') : I (h₀ ++ tr) P'.st := by
  induction h generalizing h₀ with
  | nil => rwa [List.append_nil]
  | @cons P P₁ P' ev tr hs _ ih =>
    rw [← List.singleton_append, ← List.append_assoc]
    refine ih (hs.wp hw) ?_
    cases hs with
    | env hs => exact henv _ _ _ _ hi hs
    | @call i e k r s hp hs =>
      have hwi := hw i
      rw [hp] at hwi
      exact hcall _ _ _ _ _ _ hi hwi.1 hs

end Inv

/-- What every call and every move of the environment keeps, a run keeps. -/
theorem Run.keeps {I : σ → Prop} (hcall : ∀ s e r s', S.call s e r s' → I s → I s')
    (henv : ∀ s l s', S.env s l s' → I s → I s') (h : S.Run P tr P') (h₀ : I P.st) : I P'.st := by
  induction h with
  | nil => exact h₀
  | cons hs _ ih =>
    cases hs with
    | env hs => exact ih (henv _ _ _ hs h₀)
    | call _ hs => exact ih (hcall _ _ _ _ hs h₀)

/-- From a related state a run goes the same way, where its calls are related
step by step. -/
theorem Run.simulate {R : σ → σ → Prop} {E : F.Eff → Prop}
    (hcall : ∀ s e r s₁ s', E e → R s s' → S.call s e r s₁ → ∃ s₁', S.call s' e r s₁' ∧ R s₁ s₁')
    (henv : ∀ s l s₁ s', R s s' → S.env s l s₁ → ∃ s₁', S.env s' l s₁' ∧ R s₁ s₁')
    (h : S.Run P tr P') (hE : ∀ i c, .call i c ∈ tr → E c.eff) {s' : σ} (hR : R P.st s') :
    ∃ s₁', S.Run ⟨s', P.prog⟩ tr ⟨s₁', P'.prog⟩ ∧ R P'.st s₁' := by
  induction h generalizing s' with
  | nil P => exact ⟨s', .nil _, hR⟩
  | @cons P P₁ P' ev tr hs _ ih =>
    have ih := fun {s'} => @ih (fun i c hm => hE i c (List.mem_cons_of_mem _ hm)) s'
    cases hs with
    | @env l s hs =>
      obtain ⟨x, hx, hR⟩ := henv _ _ _ _ hR hs
      obtain ⟨y, hy, hR⟩ := ih hR
      exact ⟨y, .cons (.env hx) hy, hR⟩
    | @call i e k r s hp hs =>
      obtain ⟨x, hx, hR⟩ := hcall _ _ _ _ _ (hE i ⟨e, r⟩ List.mem_cons_self) hR hs
      obtain ⟨y, hy, hR⟩ := ih hR
      exact ⟨y, .cons (.call hp hx) hy, hR⟩

/-! ## Runs whose steps meet a condition -/

/-- A run, after the events `h`, each step of which meets `G`: at the events
and the state before it. -/
inductive RunWhere (S : System F σ Λ) (G : List (Event F ι Λ) → σ → Event F ι Λ → Prop) :
    List (Event F ι Λ) → Pool F σ ι α → List (Event F ι Λ) → Pool F σ ι α → Prop
  | nil (h : List (Event F ι Λ)) (P : Pool F σ ι α) : RunWhere S G h P [] P
  | cons {h : List (Event F ι Λ)} {P P₁ P' : Pool F σ ι α} {ev : Event F ι Λ}
      {tr : List (Event F ι Λ)} (hs : S.Step P ev P₁) (hg : G h P.st ev)
      (hr : RunWhere S G (h ++ [ev]) P₁ tr P') : RunWhere S G h P (ev :: tr) P'

section Where

variable {G : List (Event F ι Λ) → σ → Event F ι Λ → Prop} {h₀ : List (Event F ι Λ)}

theorem RunWhere.run (h : S.RunWhere G h₀ P tr P') : S.Run P tr P' := by
  induction h with
  | nil h P => exact .nil P
  | cons hs _ _ ih => exact .cons hs ih

/-- A run each step of which meets the condition in any state. -/
theorem Run.where (h : S.Run P tr P')
    (hG : ∀ t₁ ev t₂ s, tr = t₁ ++ ev :: t₂ → G (h₀ ++ t₁) s ev) : S.RunWhere G h₀ P tr P' := by
  induction h generalizing h₀ with
  | nil P => exact .nil h₀ P
  | @cons P P₁ P' ev tr hs _ ih =>
    refine .cons hs ?_ (ih fun t₁ ev' t₂ s he => ?_)
    · have := hG [] ev tr P.st rfl
      rwa [List.append_nil] at this
    · rw [← List.append_cons]
      exact hG (ev :: t₁) ev' t₂ s (by rw [he]; rfl)

/-- A run whose events satisfy `K`, and so meet the condition wherever the state
satisfies `I`. -/
theorem Run.where_of {K : Event F ι Λ → Prop} {I : σ → Prop}
    (hcall : ∀ h s i e r s', I s → K (.call i ⟨e, r⟩) → S.call s e r s' → G h s (.call i ⟨e, r⟩) ∧ I s')
    (henv : ∀ h s l s', I s → K (.env l) → S.env s l s' → G h s (.env l) ∧ I s')
    (h : S.Run P tr P') (hk : ∀ ev ∈ tr, K ev) (hi : I P.st) : S.RunWhere G h₀ P tr P' := by
  induction h generalizing h₀ with
  | nil P => exact .nil h₀ P
  | @cons P P₁ P' ev tr hs _ ih =>
    have hstep : G h₀ P.st ev ∧ I P₁.st := by
      have hev := hk ev List.mem_cons_self
      cases hs with
      | env hs => exact henv _ _ _ _ hi hev hs
      | call _ hs => exact hcall _ _ _ _ _ _ hi hev hs
    exact .cons hs hstep.1 (ih (fun ev hev => hk ev (List.mem_cons_of_mem _ hev)) hstep.2)

theorem RunWhere.mono {G' : List (Event F ι Λ) → σ → Event F ι Λ → Prop}
    (hG : ∀ h s ev, G h s ev → G' h s ev) (h : S.RunWhere G h₀ P tr P') :
    S.RunWhere G' h₀ P tr P' := by
  induction h with
  | nil h P => exact .nil h P
  | cons hs hg _ ih => exact .cons hs (hG _ _ _ hg) ih

theorem RunWhere.trans {t₁ t₂ : List (Event F ι Λ)} {P₁ P₂ : Pool F σ ι α}
    (h₁ : S.RunWhere G h₀ P t₁ P₁) (h₂ : S.RunWhere G (h₀ ++ t₁) P₁ t₂ P₂) :
    S.RunWhere G h₀ P (t₁ ++ t₂) P₂ := by
  induction h₁ with
  | nil h P => rwa [List.append_nil] at h₂
  | cons hs hg _ ih =>
    rw [List.append_cons] at h₂
    exact .cons hs hg (ih h₂)

/-- What holds of each event of a run is a condition its steps meet. -/
theorem RunWhere.also {K : Event F ι Λ → Prop} (h : S.RunWhere G h₀ P tr P')
    (hk : ∀ ev ∈ tr, K ev) : S.RunWhere (fun h s ev => G h s ev ∧ K ev) h₀ P tr P' := by
  induction h with
  | nil h P => exact .nil h P
  | cons hs hg _ ih =>
    exact .cons hs ⟨hg, hk _ List.mem_cons_self⟩ (ih fun ev hev => hk ev (List.mem_cons_of_mem _ hev))

/-- `Run.inv` for a run whose steps meet a condition. -/
theorem RunWhere.inv {R : ι → List (Call F) → F.Eff → Prop} {Q : ι → List (Call F) → α → Prop}
    {I : List (Event F ι Λ) → σ → Prop}
    (hcall : ∀ h s i e r s', I h s → R i (callsOf i h) e → G h s (.call i ⟨e, r⟩) →
      S.call s e r s' → I (h ++ [.call i ⟨e, r⟩]) s')
    (henv : ∀ h s l s', I h s → G h s (.env l) → S.env s l s' → I (h ++ [.env l]) s')
    (hw : ∀ i, Prog.wp (R i) (callsOf i h₀) (P.prog i) (Q i)) (hi : I h₀ P.st)
    (h : S.RunWhere G h₀ P tr P') : I (h₀ ++ tr) P'.st := by
  induction h with
  | nil => rwa [List.append_nil]
  | @cons h P P₁ P' ev tr hs hg _ ih =>
    rw [← List.singleton_append, ← List.append_assoc]
    refine ih (hs.wp hw) ?_
    cases hs with
    | env hs => exact henv _ _ _ _ hi hg hs
    | @call i e k r s hp hs =>
      have hwi := hw i
      rw [hp] at hwi
      exact hcall _ _ _ _ _ _ hi hwi.1 hg hs

/-- A run up to one of its events, that event, and the rest. -/
theorem RunWhere.split_at {t₁ t₂ : List (Event F ι Λ)} {ev : Event F ι Λ}
    (h : S.RunWhere G h₀ P (t₁ ++ ev :: t₂) P') :
    ∃ Q Q', S.RunWhere G h₀ P t₁ Q ∧ S.Step Q ev Q' ∧ G (h₀ ++ t₁) Q.st ev ∧
      S.RunWhere G (h₀ ++ t₁ ++ [ev]) Q' t₂ P' := by
  induction t₁ generalizing P h₀ with
  | nil =>
    cases h with
    | cons hs hg hr => exact ⟨P, _, .nil _ P, hs, by rwa [List.append_nil], by rwa [List.append_nil]⟩
  | cons ev₁ t₁ ih =>
    cases h with
    | cons hs hg hr =>
      obtain ⟨Q, Q', h₁, h₂, h₃, h₄⟩ := ih hr
      rw [← List.append_cons] at h₃ h₄
      exact ⟨Q, Q', .cons hs hg h₁, h₂, h₃, h₄⟩

end Where

/-! ## Letting one party run -/

/-- A party that runs alone to its end, while the others wait. Its calls satisfy
`E`, and so meet the condition of the run wherever the state satisfies `I`. -/
theorem RunWhere.of_eval {G : List (Event F ι Λ) → σ → Event F ι Λ → Prop} {E : F.Eff → Prop}
    {I : σ → Prop} {i : ι} {a : α} {s' : σ}
    (hG : ∀ h s e r s', I s → E e → S.call s e r s' → G h s (.call i ⟨e, r⟩) ∧ I s')
    (ho : (P.prog i).Only E) (hi : I P.st) (h : (P.prog i).Eval S.call P.st a s')
    (h₀ : List (Event F ι Λ)) :
    ∃ tr : List (Event F ι Λ), S.RunWhere G h₀ P tr ⟨s', Function.update P.prog i (.ret a)⟩ ∧
      ∀ ev ∈ tr, ∃ c, ev = .call i c := by
  generalize hp : P.prog i = p at h ho
  induction p generalizing P h₀ with
  | ret b =>
    obtain ⟨rfl, rfl⟩ := h
    rw [← hp, Function.update_eq_self]
    exact ⟨[], .nil h₀ P, nofun⟩
  | call e k ih =>
    obtain ⟨r, s₁, hs, h⟩ := h
    obtain ⟨hg, hi₁⟩ := hG h₀ P.st e r s₁ hi ho.1 hs
    obtain ⟨tr, hr, ht⟩ := ih (P := ⟨s₁, Function.update P.prog i (k r)⟩) r
      hi₁ (h₀ ++ [.call i ⟨e, r⟩]) (Function.update_self ..) h (ho.2 r)
    rw [Function.update_idem] at hr
    refine ⟨.call i ⟨e, r⟩ :: tr, .cons (.call hp hs) hg hr, fun ev hev => ?_⟩
    rcases List.mem_cons.mp hev with rfl | hev
    · exact ⟨_, rfl⟩
    · exact ht ev hev

/-- `RunWhere.of_eval`, under no condition. -/
theorem Run.of_eval {i : ι} {a : α} {s' : σ} (h : (P.prog i).Eval S.call P.st a s') :
    ∃ tr : List (Event F ι Λ), S.Run P tr ⟨s', Function.update P.prog i (.ret a)⟩ ∧
      ∀ ev ∈ tr, ∃ c, ev = .call i c := by
  obtain ⟨tr, hr, ht⟩ := RunWhere.of_eval (S := S) (G := fun _ _ _ => True) (E := fun _ => True)
    (I := fun _ => True) (fun _ _ _ _ _ _ _ _ => ⟨trivial, trivial⟩) (Prog.only_true _) trivial h []
  exact ⟨tr, hr.run, ht⟩

/-- The calls of the others in a stretch where one party runs. -/
theorem callsOf_of_alone {i j : ι} (hij : i ≠ j) {tr : List (Event F ι Λ)}
    (h : ∀ ev ∈ tr, ∃ c, ev = .call i c) : callsOf j tr = [] := by
  induction tr with
  | nil => rfl
  | cons ev tr ih =>
    obtain ⟨c, rfl⟩ := h ev List.mem_cons_self
    rw [callsOf_call_ne hij]
    exact ih fun ev hev => h ev (List.mem_cons_of_mem _ hev)

/-! ## The states of a run -/

/-- The events lead from one state to another, whatever the programs. -/
inductive Trace (S : System F σ Λ) : σ → List (Event F ι Λ) → σ → Prop
  | nil (s : σ) : Trace S s [] s
  | call {s s₁ s' : σ} {i : ι} {c : Call F} {tr : List (Event F ι Λ)}
      (hs : S.call s c.eff c.reply s₁) (ht : Trace S s₁ tr s') : Trace S s (.call i c :: tr) s'
  | env {s s₁ s' : σ} {l : Λ} {tr : List (Event F ι Λ)} (hs : S.env s l s₁)
      (ht : Trace S s₁ tr s') : Trace S s (.env l :: tr) s'

theorem Run.trace (h : S.Run P tr P') : S.Trace P.st tr P'.st := by
  induction h with
  | nil P => exact .nil P.st
  | cons hs _ ih =>
    cases hs with
    | env hs => exact .env hs ih
    | call _ hs => exact .call hs ih

omit [DecidableEq ι] in
theorem Trace.trans {s s₁ s' : σ} {t₁ t₂ : List (Event F ι Λ)} (h₁ : S.Trace s t₁ s₁)
    (h₂ : S.Trace s₁ t₂ s') : S.Trace s (t₁ ++ t₂) s' := by
  induction h₁ with
  | nil => exact h₂
  | call hs _ ih => exact .call hs (ih h₂)
  | env hs _ ih => exact .env hs (ih h₂)

omit [DecidableEq ι] in
theorem Trace.mono {S' : System F σ Λ} {s s' : σ}
    (hcall : ∀ s e r s', S.call s e r s' → S'.call s e r s')
    (henv : ∀ s l s', S.env s l s' → S'.env s l s') (h : S.Trace s tr s') : S'.Trace s tr s' := by
  induction h with
  | nil s => exact .nil s
  | call hs _ ih => exact .call (hcall _ _ _ _ hs) ih
  | env hs _ ih => exact .env (henv _ _ _ hs) ih

omit [DecidableEq ι] in
/-- A program that runs alone, as the events of one party. -/
theorem Trace.of_eval {p : Prog F α} {s s' : σ} {a : α} (h : p.Eval S.call s a s') (i : ι) :
    ∃ cs, Prog.Path p cs (.ret a) ∧ S.Trace s (cs.map (Event.call i)) s' := by
  induction p generalizing s with
  | ret b =>
    obtain ⟨rfl, rfl⟩ := h
    exact ⟨[], .nil _, .nil _⟩
  | call e k ih =>
    obtain ⟨r, s₁, hs, h⟩ := h
    obtain ⟨cs, hp, ht⟩ := ih r h
    exact ⟨⟨e, r⟩ :: cs, .cons hp, .call hs ht⟩

/-- Events that lead from one state to another, and in which each party takes a
path of its program, are a run. -/
theorem Trace.run {s s' : σ} (h : S.Trace s tr s') {p q : ι → Prog F α}
    (hp : ∀ i, Prog.Path (p i) (callsOf i tr) (q i)) : S.Run ⟨s, p⟩ tr ⟨s', q⟩ := by
  induction h generalizing p with
  | nil s =>
    have hq : q = p := funext fun i => (hp i).nil_inv
    rw [hq]
    exact .nil _
  | env hs _ ih => exact .cons (.env hs) (ih hp)
  | @call s s₁ s' i c tr hs _ ih =>
    have hi := hp i
    rw [callsOf_call_self] at hi
    generalize hpi : p i = x at hi
    cases hi with
    | @cons e k r cs q' hk =>
      refine .cons (.call hpi hs) (ih fun j => ?_)
      by_cases hj : j = i
      · subst hj
        rw [Function.update_self]
        exact hk
      · rw [Function.update_of_ne hj]
        have := hp j
        rwa [callsOf_call_ne (Ne.symm hj)] at this

/-! ## Leaving parties out -/

/-- The events that are no calls of the parties in `drop`. -/
def kept (drop : ι → Bool) : Event F ι Λ → Bool
  | .call i _ => !drop i
  | .env _ => true

/-- Parties whose calls leave the state alone may be left out of a run. -/
theorem Run.leave_out {drop : ι → Bool} (h : S.Run P tr P')
    (hd : ∀ s i c s', drop i = true → Event.call i c ∈ tr → S.call s c.eff c.reply s' → s' = s) :
    S.Run P (tr.filter (kept drop)) ⟨P'.st, fun i => if drop i then P.prog i else P'.prog i⟩ := by
  suffices hs : ∀ R : Pool F σ ι α, R.st = P.st → (∀ i, drop i = false → R.prog i = P.prog i) →
      S.Run R (tr.filter (kept drop)) ⟨P'.st, fun i => if drop i then R.prog i else P'.prog i⟩ from
    hs P rfl fun _ _ => rfl
  induction h with
  | nil P =>
    intro R hst hpr
    have hR : R = ⟨P.st, fun i => if drop i then R.prog i else P.prog i⟩ := by
      rw [← hst]
      refine congrArg (Pool.mk R.st) (funext fun i => ?_)
      cases hi : drop i with
      | false => simp [hpr i hi]
      | true => rfl
    rw [← hR]
    exact .nil R
  | @cons P P₁ P' ev tr hs hr ih =>
    intro R hst hpr
    have ih := ih fun s i c s' hi hm => hd s i c s' hi (List.mem_cons_of_mem _ hm)
    cases hs with
    | @env l s hs =>
      have hstep : S.Step R (.env l) ⟨s, R.prog⟩ := .env (hst ▸ hs)
      exact .cons hstep (ih _ rfl hpr)
    | @call i e k r s hp hs =>
      cases hi : drop i with
      | true =>
        rw [List.filter_cons_of_neg (by simp [kept, hi])]
        have hsame : s = P.st := hd P.st i ⟨e, r⟩ s hi List.mem_cons_self hs
        refine ih R (hst.trans hsame.symm) fun j hj => ?_
        have hji : j ≠ i := fun h => by rw [h, hi] at hj; cases hj
        rw [hpr j hj]
        exact (Function.update_of_ne hji _ _).symm
      | false =>
        rw [List.filter_cons_of_pos (by simp [kept, hi])]
        have hRi : R.prog i = .call e k := (hpr i hi).trans hp
        refine .cons (.call hRi (hst ▸ hs)) ?_
        have hrun := ih ⟨s, Function.update R.prog i (k r)⟩ rfl fun j hj => ?_
        · refine cast ?_ hrun
          congr 2
          funext j
          by_cases hj : j = i
          · subst hj
            simp [hi]
          · show (if drop j then Function.update R.prog i (k r) j else _) = _
            rw [Function.update_of_ne hj]
        · show Function.update R.prog i (k r) j = Function.update P.prog i (k r) j
          by_cases hji : j = i
          · subst hji
            rw [Function.update_self, Function.update_self]
          · rw [Function.update_of_ne hji, Function.update_of_ne hji]
            exact hpr j hj

/-! ## Playing a pool -/

/-- A choice of the scheduler: a party and the choice that resolves its
call, or a move of the environment. -/
inductive Move (ι C Λ : Type) where
  | call (i : ι) (c : C)
  | env (l : Λ)

/-- One step by a choice of the scheduler. -/
def playStep {C : Type} (act : σ → (e : F.Eff) → C → Option (F.Reply e × σ))
    (env : σ → Λ → Option σ) (P : Pool F σ ι α) :
    Move ι C Λ → Option (Event F ι Λ × Pool F σ ι α)
  | .call i c =>
    match P.prog i with
    | .ret _ => none
    | .call e k =>
      (act P.st e c).map fun x =>
        (.call i ⟨e, x.1⟩, ⟨x.2, Function.update P.prog i (k x.1)⟩)
  | .env l => (env P.st l).map fun s => (.env l, ⟨s, P.prog⟩)

/-- The events and the end of a run by the choices of a scheduler, each step
of which passes `ok`. -/
def play {C : Type} (act : σ → (e : F.Eff) → C → Option (F.Reply e × σ))
    (env : σ → Λ → Option σ) (ok : σ → Event F ι Λ → Bool) : List (Move ι C Λ) → Pool F σ ι α →
    Option (List (Event F ι Λ) × Pool F σ ι α)
  | [], P => some ([], P)
  | m :: ms, P =>
    (playStep act env P m).bind fun x =>
      if ok P.st x.1 then (play act env ok ms x.2).map fun y => (x.1 :: y.1, y.2) else none

theorem playStep_step {C : Type} {act : σ → (e : F.Eff) → C → Option (F.Reply e × σ)}
    {env : σ → Λ → Option σ} (hact : ∀ s e c r s', act s e c = some (r, s') → S.call s e r s')
    (henv : ∀ s l s', env s l = some s' → S.env s l s') {m : Move ι C Λ} {ev : Event F ι Λ}
    (h : playStep act env P m = some (ev, P')) : S.Step P ev P' := by
  cases m with
  | env l =>
    simp only [playStep, Option.map_eq_some_iff, Prod.mk.injEq] at h
    obtain ⟨s, hs, rfl, rfl⟩ := h
    exact .env (henv _ _ _ hs)
  | call i c =>
    simp only [playStep] at h
    split at h
    · cases h
    · rename_i e k hp
      simp only [Option.map_eq_some_iff, Prod.mk.injEq] at h
      obtain ⟨⟨r, s⟩, hs, rfl, rfl⟩ := h
      exact .call hp (hact _ _ _ _ _ hs)

theorem play_run {C : Type} {act : σ → (e : F.Eff) → C → Option (F.Reply e × σ)}
    {env : σ → Λ → Option σ} {ok : σ → Event F ι Λ → Bool}
    {G : List (Event F ι Λ) → σ → Event F ι Λ → Prop} {h₀ : List (Event F ι Λ)}
    (hact : ∀ s e c r s', act s e c = some (r, s') → S.call s e r s')
    (henv : ∀ s l s', env s l = some s' → S.env s l s') (hok : ∀ h s ev, ok s ev = true → G h s ev)
    {ms : List (Move ι C Λ)} (h : play act env ok ms P = some (tr, P')) :
    S.RunWhere G h₀ P tr P' := by
  induction ms generalizing P tr h₀ with
  | nil =>
    simp only [play, Option.some.injEq, Prod.mk.injEq] at h
    obtain ⟨rfl, rfl⟩ := h
    exact .nil _ P
  | cons m ms ih =>
    simp only [play, Option.bind_eq_some_iff] at h
    obtain ⟨⟨ev, Q⟩, h₁, h₂⟩ := h
    simp only [Option.ite_none_right_eq_some, Option.map_eq_some_iff, Prod.mk.injEq] at h₂
    obtain ⟨hg, ⟨t, Q'⟩, h₃, rfl, rfl⟩ := h₂
    exact .cons (playStep_step hact henv h₁) (hok _ _ _ hg) (ih h₃)

end System

end Interaction

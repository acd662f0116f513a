import JwtService.Interaction.Prog

/-!
# Programs that may fail

Programs that return a value or an error are programs of
`ExceptT ε (Prog F)`. Their sequence stops at the first error; the rules here
say so for each of the notions of `Prog.lean`, so that no proof about such a
program unfolds `ExceptT`.
-/

namespace Interaction

namespace Prog

variable {F : Iface} {ε α β : Type}

/-- A call, as a program that may fail but does not. -/
def performE (e : F.Eff) : ExceptT ε (Prog F) (F.Reply e) :=
  ExceptT.mk (.call e fun r => .ret (.ok r))

/-- A program that returns a value or an error of another type (`map_err`). -/
def mapError {ε' : Type} (f : ε → ε') (p : Prog F (Except ε α)) : ExceptT ε' (Prog F) α :=
  ExceptT.mk (p >>= fun
    | .ok a => .ret (.ok a)
    | .error e => .ret (.error (f e)))

/-- A program that does not fail. -/
def liftE (p : Prog F α) : ExceptT ε (Prog F) α := ExceptT.mk (p >>= fun a => .ret (.ok a))

/-- A computation without calls that may fail. -/
def ofExcept (x : Except ε α) : ExceptT ε (Prog F) α := ExceptT.mk (.ret x)

theorem exceptT_bind_eq (x : ExceptT ε (Prog F) α) (f : α → ExceptT ε (Prog F) β) :
    ((x >>= f : ExceptT ε (Prog F) β) : Prog F (Except ε β)) =
      Prog.bind (x : Prog F (Except ε α)) fun
        | .ok a => f a
        | .error e => .ret (.error e) := by
  show Prog.bind x _ = _
  congr 1

/-! ## `wp` -/

variable {P : List (Call F) → F.Eff → Prop} {Q : List (Call F) → Except ε β → Prop}
  {h : List (Call F)}

@[simp] theorem wp_pure_ok (b : β) :
    wp P h (pure b : ExceptT ε (Prog F) β) Q ↔ Q h (.ok b) := Iff.rfl

@[simp] theorem wp_throw (e : ε) :
    wp P h (throw e : ExceptT ε (Prog F) β) Q ↔ Q h (.error e) := Iff.rfl

@[simp] theorem wp_performE (e : F.Eff) {Q : List (Call F) → Except ε (F.Reply e) → Prop} :
    wp P h (performE e) Q ↔ P h e ∧ ∀ r, Q (h ++ [⟨e, r⟩]) (.ok r) := Iff.rfl

@[simp] theorem wp_liftE (p : Prog F β) :
    wp P h (liftE p) Q ↔ wp P h p fun h' a => Q h' (.ok a) :=
  wp_bind h p _

@[simp] theorem wp_ofExcept (x : Except ε β) : wp P h (ofExcept x) Q ↔ Q h x := Iff.rfl

/-- A sequence goes on after a value and stops at an error. -/
@[simp] theorem wp_tryBind (x : ExceptT ε (Prog F) α) (f : α → ExceptT ε (Prog F) β) :
    wp P h (x >>= f : ExceptT ε (Prog F) β) Q ↔
      wp P h x fun h' r => match r with
        | .ok a => wp P h' (f a) Q
        | .error e => Q h' (.error e) := by
  rw [exceptT_bind_eq]
  refine (wp_bind h x _).trans ?_
  refine iff_of_eq (congrArg (wp P h x) ?_)
  funext h' r
  cases r <;> rfl

@[simp] theorem wp_mapError {ε' : Type} (f : ε → ε') (p : Prog F (Except ε β))
    {Q : List (Call F) → Except ε' β → Prop} :
    wp P h (mapError f p) Q ↔
      wp P h p fun h' r => match r with
        | .ok a => Q h' (.ok a)
        | .error e => Q h' (.error (f e)) := by
  refine (wp_bind h p _).trans ?_
  refine iff_of_eq (congrArg (wp P h p) ?_)
  funext h' r
  cases r <;> rfl

/-! ## `Only` -/

section Only

variable {E : F.Eff → Prop}

@[simp] theorem only_pure_ok (b : β) : Only E (pure b : ExceptT ε (Prog F) β) := trivial

@[simp] theorem only_throw (e : ε) : Only E (throw e : ExceptT ε (Prog F) β) := trivial

@[simp] theorem only_ofExcept (x : Except ε β) : Only E (ofExcept x : ExceptT ε (Prog F) β) :=
  trivial

/-- What follows a value that is there. -/
theorem only_ofExcept_bind {x : Except ε α} {f : α → ExceptT ε (Prog F) β}
    (hf : ∀ a, x = .ok a → Only E (f a)) : Only E (ofExcept x >>= f : ExceptT ε (Prog F) β) := by
  cases x with
  | ok a => exact hf a rfl
  | error e => trivial

@[simp] theorem only_performE (e : F.Eff) :
    Only E (performE e : ExceptT ε (Prog F) (F.Reply e)) ↔ E e :=
  ⟨fun h => h.1, fun h => ⟨h, fun _ => trivial⟩⟩

theorem only_tryBind {x : ExceptT ε (Prog F) α} {f : α → ExceptT ε (Prog F) β} (hx : Only E x)
    (hf : ∀ a, Only E (f a)) : Only E (x >>= f : ExceptT ε (Prog F) β) := by
  rw [exceptT_bind_eq]
  refine only_bind hx fun r => ?_
  cases r with
  | ok a => exact hf a
  | error e => trivial

theorem only_mapError {ε' : Type} {f : ε → ε'} {p : Prog F (Except ε β)} (hp : Only E p) :
    Only E (mapError f p) :=
  only_bind hp fun r => by cases r <;> trivial

theorem only_liftE {p : Prog F β} (hp : Only E p) : Only E (liftE p : ExceptT ε (Prog F) β) :=
  only_bind hp fun _ => trivial

end Only

/-! ## `Maintains` -/

section Maintains

variable {I : List (Call F) → Prop}

theorem maintains_ofExcept (x : Except ε β) :
    Maintains P I (ofExcept x : ExceptT ε (Prog F) β) := fun _ hi => hi

/-- What follows a value that is there. -/
theorem maintains_ofExcept_bind {x : Except ε α} {f : α → ExceptT ε (Prog F) β}
    (hf : ∀ a, x = .ok a → Maintains P I (f a)) :
    Maintains P I (ofExcept x >>= f : ExceptT ε (Prog F) β) := by
  cases x with
  | ok a => exact hf a rfl
  | error e => exact maintains_ret _

theorem maintains_tryBind {x : ExceptT ε (Prog F) α} {f : α → ExceptT ε (Prog F) β}
    (hx : Maintains P I x) (hf : ∀ a, Maintains P I (f a)) :
    Maintains P I (x >>= f : ExceptT ε (Prog F) β) := by
  rw [exceptT_bind_eq]
  refine maintains_bind hx fun r => ?_
  cases r with
  | ok a => exact hf a
  | error e => exact maintains_ret _

theorem maintains_mapError {ε' : Type} {f : ε → ε'} {p : Prog F (Except ε β)}
    (hp : Maintains P I p) : Maintains P I (mapError f p) :=
  maintains_bind hp fun r => by cases r <;> exact maintains_ret _

theorem maintains_liftE {p : Prog F β} (hp : Maintains P I p) :
    Maintains P I (liftE p : ExceptT ε (Prog F) β) :=
  maintains_bind hp fun _ => maintains_ret _

end Maintains

/-! ## `Yields` -/

section Yields

variable {R : Call F → Prop} {Q : Except ε β → Prop}

end Yields

/-! ## `Path` -/

theorem path_tryBind {x : ExceptT ε (Prog F) α} {f : α → ExceptT ε (Prog F) β}
    {cs : List (Call F)} {r : Except ε β}
    (h : Path (x >>= f : ExceptT ε (Prog F) β) cs (.ret r)) :
    (∃ a cs₁ cs₂, cs = cs₁ ++ cs₂ ∧ Path x cs₁ (.ret (.ok a)) ∧ Path (f a) cs₂ (.ret r)) ∨
      ∃ e, Path x cs (.ret (.error e)) ∧ r = .error e := by
  rw [exceptT_bind_eq] at h
  obtain ⟨a | a, cs₁, cs₂, rfl, h₁, h₂⟩ := Path.bind_ret_inv h
  · obtain ⟨rfl, h₂⟩ := h₂.ret_inv
    cases h₂
    exact .inr ⟨a, by rwa [List.append_nil], rfl⟩
  · exact .inl ⟨a, cs₁, cs₂, rfl, h₁, h₂⟩

/-- On a path to a value every step returned a value. -/
theorem path_tryBind_ok {x : ExceptT ε (Prog F) α} {f : α → ExceptT ε (Prog F) β}
    {cs : List (Call F)} {b : β}
    (h : Path (x >>= f : ExceptT ε (Prog F) β) cs (.ret (.ok b))) :
    ∃ a cs₁ cs₂, cs = cs₁ ++ cs₂ ∧ Path x cs₁ (.ret (.ok a)) ∧ Path (f a) cs₂ (.ret (.ok b)) := by
  rcases path_tryBind h with h | ⟨e, -, he⟩
  · exact h
  · cases he

/-- A sequence goes on after a value. -/
theorem path_tryBind_of {x : ExceptT ε (Prog F) α} {f : α → ExceptT ε (Prog F) β} {a : α}
    {cs₁ cs₂ : List (Call F)} {r : Prog F (Except ε β)} (h₁ : Path x cs₁ (.ret (.ok a)))
    (h₂ : Path (f a) cs₂ r) : Path (x >>= f : ExceptT ε (Prog F) β) (cs₁ ++ cs₂) r := by
  rw [exceptT_bind_eq]
  exact (h₁.bind _).trans h₂

theorem path_mapError_of {ε' : Type} {f : ε → ε'} {p : Prog F (Except ε β)} {cs : List (Call F)}
    {b : β} (h : Path p cs (.ret (.ok b))) : Path (mapError f p) cs (.ret (.ok b)) :=
  h.bind _

theorem path_liftE_of {p : Prog F β} {cs : List (Call F)} {b : β} (h : Path p cs (.ret b)) :
    Path (liftE p : ExceptT ε (Prog F) β) cs (.ret (.ok b)) :=
  h.bind _

theorem path_ofExcept_of {x : Except ε β} {b : β} (h : x = .ok b) :
    Path (ofExcept x : ExceptT ε (Prog F) β) [] (.ret (.ok b)) := by
  rw [h]
  exact .nil _

theorem path_mapError_ok {ε' : Type} {f : ε → ε'} {p : Prog F (Except ε β)} {cs : List (Call F)}
    {b : β} (h : Path (mapError f p) cs (.ret (.ok b))) : Path p cs (.ret (.ok b)) := by
  obtain ⟨a | a, cs₁, cs₂, rfl, h₁, h₂⟩ := Path.bind_ret_inv h
  · obtain ⟨-, h₂⟩ := h₂.ret_inv
    cases h₂
  · obtain ⟨rfl, h₂⟩ := h₂.ret_inv
    cases h₂
    rwa [List.append_nil]

theorem path_mapError {ε' : Type} {f : ε → ε'} {p : Prog F (Except ε β)} {cs : List (Call F)}
    {r : Except ε' β} (h : Path (mapError f p) cs (.ret r)) :
    ∃ x, Path p cs (.ret x) ∧ r = x.mapError f := by
  obtain ⟨a | a, cs₁, cs₂, rfl, h₁, h₂⟩ := Path.bind_ret_inv h
  all_goals
    obtain ⟨rfl, h₂⟩ := h₂.ret_inv
    cases h₂
    exact ⟨_, by rwa [List.append_nil], rfl⟩

theorem path_liftE {p : Prog F β} {cs : List (Call F)} {r : Except ε β}
    (h : Path (liftE p) cs (.ret r)) : ∃ b, Path p cs (.ret b) ∧ r = .ok b := by
  obtain ⟨b, cs₁, cs₂, rfl, h₁, h₂⟩ := Path.bind_ret_inv h
  obtain ⟨rfl, h₂⟩ := h₂.ret_inv
  cases h₂
  exact ⟨b, by rwa [List.append_nil], rfl⟩

theorem path_pure_ok {b c : β} {cs : List (Call F)}
    (h : Path (pure b : ExceptT ε (Prog F) β) cs (.ret (.ok c))) : cs = [] ∧ c = b := by
  obtain ⟨rfl, h⟩ := Path.ret_inv h
  cases h
  exact ⟨rfl, rfl⟩

theorem path_throw_ok {e : ε} {c : β} {cs : List (Call F)}
    (h : Path (throw e : ExceptT ε (Prog F) β) cs (.ret (.ok c))) : False := by
  obtain ⟨-, h⟩ := Path.ret_inv h
  cases h

theorem path_ofExcept {x r : Except ε β} {cs : List (Call F)}
    (h : Path (ofExcept x) cs (.ret r)) : cs = [] ∧ r = x := by
  obtain ⟨rfl, h⟩ := Path.ret_inv h
  cases h
  exact ⟨rfl, rfl⟩

theorem path_performE {e : F.Eff} {r : Except ε (F.Reply e)} {cs : List (Call F)}
    (h : Path (performE e) cs (.ret r)) : ∃ v, cs = [⟨e, v⟩] ∧ r = .ok v := by
  cases h with
  | cons h =>
    obtain ⟨rfl, h⟩ := h.ret_inv
    cases h
    exact ⟨_, rfl, rfl⟩

/-! ## `Eval` -/

variable {σ : Type} {S : Sem F σ} {s s' : σ}

@[simp] theorem eval_pure_ok {b : β} {r : Except ε β} :
    Eval S (pure b : ExceptT ε (Prog F) β) s r s' ↔ r = .ok b ∧ s' = s := Iff.rfl

@[simp] theorem eval_throw {e : ε} {r : Except ε β} :
    Eval S (throw e : ExceptT ε (Prog F) β) s r s' ↔ r = .error e ∧ s' = s := Iff.rfl

@[simp] theorem eval_ofExcept {x r : Except ε β} :
    Eval S (ofExcept x) s r s' ↔ r = x ∧ s' = s := Iff.rfl

@[simp] theorem eval_performE {e : F.Eff} {r : Except ε (F.Reply e)} :
    Eval S (performE e) s r s' ↔ ∃ v, S s e v s' ∧ r = .ok v := by
  show (∃ v s₁, S s e v s₁ ∧ r = .ok v ∧ s' = s₁) ↔ _
  constructor
  · rintro ⟨v, s₁, h, rfl, rfl⟩; exact ⟨v, h, rfl⟩
  · rintro ⟨v, h, rfl⟩; exact ⟨v, s', h, rfl, rfl⟩

theorem eval_liftE {p : Prog F β} {r : Except ε β} :
    Eval S (liftE p) s r s' ↔ ∃ b, Eval S p s b s' ∧ r = .ok b := by
  refine (eval_bind (p := p)).trans ?_
  constructor
  · rintro ⟨b, s₁, h, rfl, rfl⟩; exact ⟨b, h, rfl⟩
  · rintro ⟨b, h, rfl⟩; exact ⟨b, s', h, rfl, rfl⟩

theorem eval_tryBind {x : ExceptT ε (Prog F) α} {f : α → ExceptT ε (Prog F) β}
    {r : Except ε β} :
    Eval S (x >>= f : ExceptT ε (Prog F) β) s r s' ↔
      (∃ a s₁, Eval S x s (.ok a) s₁ ∧ Eval S (f a) s₁ r s') ∨
        ∃ e, Eval S x s (.error e) s' ∧ r = .error e := by
  rw [exceptT_bind_eq]
  refine (eval_bind (p := x)).trans ?_
  constructor
  · rintro ⟨a | a, s₁, h₁, h₂⟩
    · obtain ⟨rfl, rfl⟩ := h₂; exact .inr ⟨a, h₁, rfl⟩
    · exact .inl ⟨a, s₁, h₁, h₂⟩
  · rintro (⟨a, s₁, h₁, h₂⟩ | ⟨e, h, rfl⟩)
    · exact ⟨.ok a, s₁, h₁, h₂⟩
    · exact ⟨.error e, s', h, rfl, rfl⟩

theorem eval_mapError {ε' : Type} {f : ε → ε'} {p : Prog F (Except ε β)} {r : Except ε' β} :
    Eval S (mapError f p) s r s' ↔ ∃ x, Eval S p s x s' ∧ r = x.mapError f := by
  refine (eval_bind (p := p)).trans ?_
  constructor
  · rintro ⟨a | a, s₁, h, rfl, rfl⟩ <;> exact ⟨_, h, rfl⟩
  · rintro ⟨a | a, h, rfl⟩ <;> exact ⟨_, _, h, rfl, rfl⟩

end Prog

end Interaction

import Mathlib.Data.List.Basic

/-!
# The generic cell rate algorithm

A bucket into which a cell flows back each `interval` keeps one moment, the
theoretical arrival time of the next cell, and admits a check unless this
moment is further ahead than `tolerance`. What it has admitted so far bounds
how far ahead the moment is (`Sound`), so that a check that is rejected waits
for one interval at most (`Sound.wait`), and no longer than it is told to
(`Sound.check_later`).
-/

structure Gcra where
  interval : Nat
  tolerance : Nat
  /-- The arrival time, from the first check on. -/
  tat : Option Nat
deriving DecidableEq

namespace Gcra

/-- A bucket of `burst` cells before its first check. -/
def new (interval burst : Nat) : Gcra := ⟨interval, burst * interval, none⟩

/-- The arrival time that a check goes by. -/
def arrival (now : Nat) (b : Gcra) : Nat := b.tat.getD (now + b.interval)

/-- A check: no answer where it is admitted, or the moment from which it would
have been. -/
def check (now : Nat) (b : Gcra) : Option Nat × Gcra :=
  if b.arrival now - b.tolerance ≤ now then
    (none, { b with tat := some (max (b.arrival now) now + b.interval) })
  else (some (b.arrival now - b.tolerance), b)

variable {b : Gcra} {m n : Nat}

@[simp] theorem check_interval (now : Nat) (b : Gcra) : (b.check now).2.interval = b.interval := by
  unfold check
  split <;> rfl

@[simp] theorem check_tolerance (now : Nat) (b : Gcra) : (b.check now).2.tolerance = b.tolerance := by
  unfold check
  split <;> rfl

/-- A check is admitted from the moment on that a rejection names. -/
theorem check_eq_none_iff : (b.check n).1 = none ↔ b.arrival n - b.tolerance ≤ n := by
  unfold check
  split <;> simp_all

theorem check_eq_some_iff {e : Nat} :
    (b.check n).1 = some e ↔ n < b.arrival n - b.tolerance ∧ e = b.arrival n - b.tolerance := by
  unfold check
  split
  · simp only [reduceCtorEq, false_iff]
    omega
  · simp only [Option.some.injEq]
    omega

/-- A rejection leaves the bucket alone. -/
theorem check_rejected (h : (b.check n).1 ≠ none) : (b.check n).2 = b := by
  have hlate : ¬ b.arrival n - b.tolerance ≤ n := fun hle => h (check_eq_none_iff.mpr hle)
  rw [check, if_neg hlate]

/-- A bucket with room for a cell, that was last asked at `now`. -/
structure Sound (b : Gcra) (now : Nat) : Prop where
  room : b.interval ≤ b.tolerance
  due : ∀ tat ∈ b.tat, tat ≤ now + b.tolerance + b.interval

theorem sound_new {burst : Nat} (interval now : Nat) (h : 0 < burst) : (new interval burst).Sound now :=
  ⟨Nat.le_mul_of_pos_left interval h, nofun⟩

namespace Sound

theorem mono (h : b.Sound m) (hm : m ≤ n) : b.Sound n :=
  ⟨h.room, fun tat ht => Nat.le_trans (h.due tat ht) (by omega)⟩

theorem arrival_le (h : b.Sound m) (hm : m ≤ n) : b.arrival n ≤ n + b.tolerance + b.interval := by
  unfold arrival
  cases ht : b.tat with
  | none => simp only [Option.getD_none]; omega
  | some tat =>
    have := h.due tat ht
    simp only [Option.getD_some]
    omega

/-- The step lemma of runs. -/
theorem check (h : b.Sound m) (hm : m ≤ n) : (b.check n).2.Sound n := by
  have harrival := h.arrival_le hm
  refine ⟨by simpa using h.room, fun tat ht => ?_⟩
  rw [check_interval, check_tolerance]
  by_cases hle : b.arrival n - b.tolerance ≤ n
  · have hroom := h.room
    rw [Gcra.check, if_pos hle] at ht
    have : max (b.arrival n) n + b.interval = tat := Option.some.inj ht
    omega
  · rw [check_rejected fun hn => hle (check_eq_none_iff.mp hn)] at ht
    have := h.due tat ht
    omega

/-- A rejected check waits for an interval at most. -/
theorem wait (h : b.Sound m) (hm : m ≤ n) {e : Nat} (he : (b.check n).1 = some e) : e ≤ n + b.interval := by
  have harrival := h.arrival_le hm
  have := (check_eq_some_iff.mp he).2
  omega

/-- The bucket admits from the moment on that it has named. -/
theorem check_later (h : b.Sound m) {e k : Nat} (he : (b.check n).1 = some e) (hk : e ≤ k) :
    (b.check k).1 = none := by
  obtain ⟨hlate, rfl⟩ := check_eq_some_iff.mp he
  rw [check_eq_none_iff]
  have hroom := h.room
  unfold arrival at *
  cases ht : b.tat with
  | none =>
    simp only [ht, Option.getD_none] at *
    omega
  | some tat =>
    simp only [ht, Option.getD_some] at *
    omega

end Sound

end Gcra

import Mathlib.Data.List.Basic

/-!
# Base64url without padding

The encoding of RFC 4648, section 5, with the padding left out, on lists of
bytes and lists of characters: three bytes become four characters, a rest of
one byte two and a rest of two bytes three. Decoding is strict: a character
outside the alphabet, a length no encoding has, or bits left over that are
not zero are refused.

`decode_encode` is the round trip, and `mem_encode` says which characters an
encoding may hold.
-/

namespace Base64Url

/-- The character of a digit below 64. -/
def symbol (d : Nat) : Char :=
  if d < 26 then Char.ofNat (65 + d)
  else if d < 52 then Char.ofNat (71 + d)
  else if d < 62 then Char.ofNat (d - 4)
  else if d = 62 then '-' else '_'

/-- The digit of a character of the alphabet. -/
def digit (c : Char) : Option Nat :=
  let n := c.toNat
  if 65 ≤ n ∧ n ≤ 90 then some (n - 65)
  else if 97 ≤ n ∧ n ≤ 122 then some (n - 71)
  else if 48 ≤ n ∧ n ≤ 57 then some (n + 4)
  else if n = 45 then some 62
  else if n = 95 then some 63
  else none

theorem digit_symbol {d : Nat} (h : d < 64) : digit (symbol d) = some d := by
  have : ∀ i : Fin 64, digit (symbol i) = some i.val := by decide
  exact this ⟨d, h⟩

def encode : List UInt8 → List Char
  | a :: b :: c :: bs =>
    let n := a.toNat * 65536 + b.toNat * 256 + c.toNat
    symbol (n / 262144) :: symbol (n / 4096 % 64) :: symbol (n / 64 % 64) :: symbol (n % 64) ::
      encode bs
  | [a, b] =>
    let n := a.toNat * 1024 + b.toNat * 4
    [symbol (n / 4096), symbol (n / 64 % 64), symbol (n % 64)]
  | [a] => [symbol (a.toNat * 16 / 64), symbol (a.toNat * 16 % 64)]
  | [] => []

def decode : List Char → Option (List UInt8)
  | w :: x :: y :: z :: cs => do
    let n := (← digit w) * 262144 + (← digit x) * 4096 + (← digit y) * 64 + (← digit z)
    let bs ← decode cs
    some (UInt8.ofNat (n / 65536) :: UInt8.ofNat (n / 256 % 256) :: UInt8.ofNat (n % 256) :: bs)
  | [w, x, y] => do
    let n := (← digit w) * 4096 + (← digit x) * 64 + (← digit y)
    if n % 4 = 0 then some [UInt8.ofNat (n / 1024), UInt8.ofNat (n / 4 % 256)] else none
  | [w, x] => do
    let n := (← digit w) * 64 + (← digit x)
    if n % 16 = 0 then some [UInt8.ofNat (n / 16)] else none
  | [_] => none
  | [] => some []

theorem ofNat_eq {a : UInt8} {n : Nat} (h : n = a.toNat) : UInt8.ofNat n = a := by
  rw [h, UInt8.ofNat_toNat]

/-- Decoding gives back the bytes that were encoded. -/
theorem decode_encode : ∀ bs : List UInt8, decode (encode bs) = some bs
  | [] => rfl
  | [a] => by
    have ha := a.toNat_lt
    simp only [encode, decode, digit_symbol (show a.toNat * 16 / 64 < 64 by omega),
      digit_symbol (show a.toNat * 16 % 64 < 64 by omega), Option.bind_eq_bind, Option.bind_some]
    rw [if_pos (by omega), ofNat_eq (a := a) (by omega)]
  | [a, b] => by
    have ha := a.toNat_lt
    have hb := b.toNat_lt
    simp only [encode, decode]
    generalize hn : a.toNat * 1024 + b.toNat * 4 = n
    rw [digit_symbol (show n / 4096 < 64 by omega), digit_symbol (show n / 64 % 64 < 64 by omega),
      digit_symbol (show n % 64 < 64 by omega)]
    simp only [Option.bind_eq_bind, Option.bind_some]
    rw [if_pos (by omega), ofNat_eq (a := a) (by omega), ofNat_eq (a := b) (by omega)]
  | a :: b :: c :: bs => by
    have ha := a.toNat_lt
    have hb := b.toNat_lt
    have hc := c.toNat_lt
    simp only [encode, decode]
    generalize hn : a.toNat * 65536 + b.toNat * 256 + c.toNat = n
    rw [digit_symbol (show n / 262144 < 64 by omega),
      digit_symbol (show n / 4096 % 64 < 64 by omega),
      digit_symbol (show n / 64 % 64 < 64 by omega), digit_symbol (show n % 64 < 64 by omega)]
    simp only [decode_encode bs, Option.bind_eq_bind, Option.bind_some]
    rw [ofNat_eq (a := a) (by omega), ofNat_eq (a := b) (by omega), ofNat_eq (a := c) (by omega)]

/-- The characters of the alphabet. -/
def IsSymbol (c : Char) : Prop := ∃ d < 64, c = symbol d

theorem IsSymbol.ne_dot {c : Char} (h : IsSymbol c) : c ≠ '.' := by
  obtain ⟨d, hd, rfl⟩ := h
  have : ∀ i : Fin 64, symbol i ≠ '.' := by decide
  exact this ⟨d, hd⟩

/-- An encoding has only characters of the alphabet. -/
theorem mem_encode : ∀ (bs : List UInt8) {c : Char}, c ∈ encode bs → IsSymbol c
  | [], c, h => by simp [encode] at h
  | [a], c, h => by
    have ha := a.toNat_lt
    simp only [encode, List.mem_cons, List.not_mem_nil, or_false] at h
    rcases h with rfl | rfl <;> exact ⟨_, by omega, rfl⟩
  | [a, b], c, h => by
    have ha := a.toNat_lt
    have hb := b.toNat_lt
    simp only [encode, List.mem_cons, List.not_mem_nil, or_false] at h
    rcases h with rfl | rfl | rfl <;> exact ⟨_, by omega, rfl⟩
  | x :: y :: z :: bs, c, h => by
    have hx := x.toNat_lt
    have hy := y.toNat_lt
    have hz := z.toNat_lt
    simp only [encode, List.mem_cons] at h
    rcases h with rfl | rfl | rfl | rfl | h
    case inr.inr.inr.inr => exact mem_encode bs h
    all_goals exact ⟨_, by omega, rfl⟩

end Base64Url

import JwtService.Codec.Bits
import JwtService.Codec.Text

/-!
# Base32

The encoding of RFC 4648, section 6: the bits of the bytes in groups of five,
zeros filling up the last group, and each group one character of `A–Z2–7`.
`Spells` says which texts are read as an encoding: of either case, with the
padding or without it, and with white space anywhere.

`digits_bits` says that the groups hold the bits of the bytes, followed by the
zeros that filled them up.
-/

namespace Base32

/-- The character of a digit below 32. -/
def symbol (d : Nat) : Char := if d < 26 then Char.ofNat (65 + d) else Char.ofNat (24 + d)

/-- The digit each group of five bits denotes. -/
def digits : List Bool → List Nat
  | [] => []
  | [a] => [Bits.value [a, false, false, false, false]]
  | [a, b] => [Bits.value [a, b, false, false, false]]
  | [a, b, c] => [Bits.value [a, b, c, false, false]]
  | [a, b, c, d] => [Bits.value [a, b, c, d, false]]
  | a :: b :: c :: d :: e :: bs => Bits.value [a, b, c, d, e] :: digits bs

def encode (bytes : List UInt8) : List Char := (digits (Bits.ofBytes bytes)).map symbol

/-- What fills up a text of `n` characters to a multiple of eight. -/
def padding (n : Nat) : List Char := List.replicate ((8 - n % 8) % 8) '='

/-- A text that spells the encoding of bytes. -/
def Spells (s : List Char) (bytes : List UInt8) : Prop :=
  ∃ text pad, (s.filter fun c => !Text.isWhite c) = text ++ pad ∧
    text.map Char.toUpper = encode bytes ∧ (pad = [] ∨ pad = padding text.length)

example : encode [0x66, 0x6f, 0x6f] ++ padding 5 = "MZXW6===".toList := by decide

theorem digits_lt (bs : List Bool) : ∀ d ∈ digits bs, d < 32 := by
  induction bs using digits.induct with
  | case1 => exact nofun
  | case2 | case3 | case4 | case5 => exact List.forall_mem_cons.mpr ⟨Bits.value_lt [_, _, _, _, _], nofun⟩
  | case6 a b c d e bs ih => exact List.forall_mem_cons.mpr ⟨Bits.value_lt [a, b, c, d, e], ih⟩

/-- The groups hold the bits, and fewer than five zeros behind them. -/
theorem digits_bits (bs : List Bool) :
    ∃ n < 5, (digits bs).flatMap (Bits.ofNat 5) = bs ++ List.replicate n false := by
  have single : ∀ a b c d e, [Bits.value [a, b, c, d, e]].flatMap (Bits.ofNat 5) = [a, b, c, d, e] :=
    fun a b c d e => (List.flatMap_singleton ..).trans (Bits.ofNat_value [a, b, c, d, e])
  induction bs using digits.induct with
  | case1 => exact ⟨0, by decide, rfl⟩
  | case2 a => exact ⟨4, by decide, single a false false false false⟩
  | case3 a b => exact ⟨3, by decide, single a b false false false⟩
  | case4 a b c => exact ⟨2, by decide, single a b c false false⟩
  | case5 a b c d => exact ⟨1, by decide, single a b c d false⟩
  | case6 a b c d e bs ih =>
    obtain ⟨n, hn, ih⟩ := ih
    refine ⟨n, hn, ?_⟩
    rw [digits, List.flatMap_cons, ih]
    exact congrArg (· ++ (bs ++ _)) (Bits.ofNat_value [a, b, c, d, e])

end Base32

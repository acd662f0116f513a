import Mathlib.Data.List.Basic
import Mathlib.Tactic.Ring

/-!
# Two numbers as bytes

An ECDSA signature is a pair of numbers below `256 ^ len`. `signature` is its
DER encoding, the ASN.1 SEQUENCE of two INTEGERs, of variable length; `raw` is
the concatenation of two fields of `len` bytes each.

`signature_ne_raw` says that no pair has the same bytes under both.
-/

namespace Der

/-- The big-endian bytes of a number in a field of `len` bytes. -/
def fixed (len n : Nat) : List UInt8 :=
  (List.range len).map fun i => UInt8.ofNat (n / 256 ^ (len - 1 - i))

/-- The bytes an INTEGER needs for a number: one bit more than the number has,
for the sign. -/
def intLen (n : Nat) : Nat := (n.log2 + 1) / 8 + 1

/-- The length octets of a value. -/
def lengthBytes (n : Nat) : List UInt8 :=
  if n < 128 then [UInt8.ofNat n]
  else UInt8.ofNat (128 + (n.log2 / 8 + 1)) :: fixed (n.log2 / 8 + 1) n

/-- An INTEGER. -/
def integer (n : Nat) : List UInt8 := 2 :: lengthBytes (intLen n) ++ fixed (intLen n) n

/-- A SEQUENCE of values that are already encoded. -/
def sequence (content : List UInt8) : List UInt8 := 48 :: lengthBytes content.length ++ content

/-- The SEQUENCE of the two INTEGERs of a signature. -/
def signature (r s : Nat) : List UInt8 := sequence (integer r ++ integer s)

/-- Both numbers in fields of the same length. -/
def raw (len r s : Nat) : List UInt8 := fixed len r ++ fixed len s

example : signature 1 128 = [48, 7, 2, 1, 1, 2, 2, 0, 128] := by decide

@[simp] theorem length_fixed (len n : Nat) : (fixed len n).length = len := by
  simp [fixed]

theorem getElem?_fixed {len i : Nat} (h : i < len) (n : Nat) :
    (fixed len n)[i]? = some (UInt8.ofNat (n / 256 ^ (len - 1 - i))) := by
  simp [fixed, h]

theorem length_lengthBytes {n : Nat} (h : n < 256) :
    (lengthBytes n).length = 1 ∨ (lengthBytes n).length = 2 := by
  unfold lengthBytes
  split
  · exact .inl rfl
  · right
    have hlog : n.log2 < 8 := by
      rw [Nat.log2_lt (by omega)]
      exact h
    simp only [List.length_cons, length_fixed]
    omega

/-- A number fits into the bytes of its INTEGER. -/
theorem lt_of_intLen (n : Nat) : n < 256 ^ intLen n := by
  rcases Nat.eq_zero_or_pos n with rfl | hn
  · exact Nat.pow_pos (by decide)
  · have h : n < 2 ^ (n.log2 + 1) := (Nat.log2_lt (by omega)).mp (Nat.lt_succ_self _)
    refine Nat.lt_of_lt_of_le h ?_
    rw [show 256 = 2 ^ 8 from rfl, ← Nat.pow_mul]
    apply Nat.pow_le_pow_right (by decide)
    unfold intLen
    omega

/-- The bytes of a number with a top byte below 128. -/
theorem intLen_of_top {len n : Nat} (hl : 0 < len) (h₁ : 256 ^ (len - 1) ≤ n)
    (h₂ : n < 128 * 256 ^ (len - 1)) : intLen n = len := by
  have hpow : 256 ^ (len - 1) = 2 ^ (8 * (len - 1)) := by
    rw [show 256 = 2 ^ 8 from rfl, ← Nat.pow_mul]
  have hn : n ≠ 0 := by
    have : 0 < 256 ^ (len - 1) := Nat.pow_pos (by decide)
    omega
  have hlow : 8 * (len - 1) ≤ n.log2 := by
    rw [Nat.le_log2 hn, ← hpow]
    exact h₁
  have hhigh : n.log2 < 8 * (len - 1) + 7 := by
    rw [Nat.log2_lt hn, Nat.pow_add, ← hpow]
    omega
  unfold intLen
  omega

/-- The second INTEGER of a signature begins behind the first. -/
theorem signature_tag {r s : Nat} (h₁ : intLen r < 128) (h₂ : intLen s < 124) :
    ∃ k, (k = 1 ∨ k = 2) ∧ (signature r s).length = 5 + k + intLen r + intLen s ∧
      (signature r s)[0]? = some 48 ∧ (signature r s)[3 + k + intLen r]? = some 2 := by
  have hr : lengthBytes (intLen r) = [UInt8.ofNat (intLen r)] := if_pos (by omega)
  have hs : lengthBytes (intLen s) = [UInt8.ofNat (intLen s)] := if_pos (by omega)
  have hlen : (integer r ++ integer s).length = intLen r + intLen s + 4 := by
    simp only [integer, hr, hs, List.length_append, List.length_cons, length_fixed, List.length_nil]
    omega
  refine ⟨(lengthBytes (intLen r + intLen s + 4)).length, length_lengthBytes (by omega), ?_, rfl, ?_⟩
  · simp only [signature, sequence, hlen, List.length_append, List.length_cons] at hlen ⊢
    omega
  · have hsplit : signature r s = (48 :: lengthBytes (intLen r + intLen s + 4) ++
        (2 :: [UInt8.ofNat (intLen r)] ++ fixed (intLen r) r)) ++ integer s := by
      rw [signature, sequence, hlen, integer, hr]
      simp only [List.append_assoc, List.cons_append]
    rw [hsplit, List.getElem?_append_right]
    · simp only [List.length_append, List.length_cons, length_fixed, List.length_nil]
      rw [show 3 + (lengthBytes (intLen r + intLen s + 4)).length + intLen r -
        ((lengthBytes (intLen r + intLen s + 4)).length + 1 + (0 + 1 + 1 + intLen r)) = 0 by omega]
      rfl
    · simp only [List.length_append, List.length_cons, length_fixed, List.length_nil]
      omega

/-- A number below `256 ^ len` needs at most one byte more, for the sign. -/
theorem intLen_le {len n : Nat} (h : n < 256 ^ len) : intLen n ≤ len + 1 := by
  have hlog : n.log2 ≤ 8 * len := by
    rcases Nat.eq_zero_or_pos n with rfl | hn
    · exact Nat.zero_le _
    · apply Nat.le_of_lt
      rw [Nat.log2_lt (by omega), Nat.pow_mul]
      exact h
  unfold intLen
  omega

theorem ofNat_inj_of_lt {a b : Nat} (ha : a < 256) (hb : b < 256) (h : UInt8.ofNat a = UInt8.ofNat b) :
    a = b := by
  have he := congrArg UInt8.toNat h
  rw [UInt8.toNat_ofNat_of_lt' ha, UInt8.toNat_ofNat_of_lt' hb] at he
  exact he

/-- Where the first byte of a field is the tag of a SEQUENCE, the number fills
its field. -/
theorem intLen_of_head {len r s : Nat} (h : 0 < len) (hr : r < 256 ^ len)
    (hhead : (raw len r s)[0]? = some 48) : intLen r = len := by
  have hpow : 256 ^ len = 256 * 256 ^ (len - 1) := by
    rw [← Nat.pow_succ', Nat.succ_eq_add_one, Nat.sub_add_cancel h]
  have hpos : 0 < 256 ^ (len - 1) := Nat.pow_pos (by decide)
  rw [raw, List.getElem?_append_left (by rw [length_fixed]; exact h), getElem?_fixed h] at hhead
  have htop : r / 256 ^ (len - 1) = 48 := by
    apply ofNat_inj_of_lt
    · rw [Nat.div_lt_iff_lt_mul hpos, ← hpow]
      exact hr
    · decide
    · exact Option.some.inj hhead
  apply intLen_of_top h
  · have := Nat.div_mul_le_self r (256 ^ (len - 1))
    rw [htop] at this
    omega
  · have := Nat.lt_mul_of_div_lt (show r / 256 ^ (len - 1) < 128 by omega) hpos
    exact this

/-- The two encodings of a pair that fits into fields of `len` bytes differ:
the SEQUENCE has a tag where the field has a leading zero. -/
theorem signature_ne_raw {len r s : Nat} (h₁ : 8 ≤ len) (h₂ : len ≤ 66) (hr : r < 256 ^ len)
    (hs : s < 256 ^ len) : signature r s ≠ raw len r s := by
  intro he
  have hrl := intLen_le hr
  have hsl := intLen_le hs
  obtain ⟨k, hk, hlength, hhead, htag⟩ := signature_tag (show intLen r < 128 by omega)
    (show intLen s < 124 by omega)
  rw [he] at hlength hhead htag
  have hfull := intLen_of_head (by omega) hr hhead
  rw [hfull] at hlength htag
  rw [raw, List.length_append, length_fixed, length_fixed] at hlength
  -- The tag of the second INTEGER stands in the second field.
  rw [raw, List.getElem?_append_right (by rw [length_fixed]; omega), length_fixed,
    show 3 + k + len - len = 3 + k by omega, getElem?_fixed (by omega)] at htag
  have hzero : s / 256 ^ (len - 1 - (3 + k)) = 0 := by
    apply Nat.div_eq_of_lt
    refine Nat.lt_of_lt_of_le (lt_of_intLen s) ?_
    apply Nat.pow_le_pow_right (by decide)
    omega
  rw [hzero] at htag
  exact absurd htag (by decide)

end Der

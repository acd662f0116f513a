import JwtService.Codec.Bits

/-!
# HOTP codes

The truncation of RFC 4226, section 5.3. The low half of the last byte of a MAC
gives an offset, the four bytes there a number of 31 bits (`number`), and the
code is that number modulo a power of ten, in decimal with leading zeros.

`IsDecimal` says which characters denote a number with so many digits:
`isDecimal_leftpad` that padding with zeros gives them, and `IsDecimal.unique`
that there are no others.
-/

namespace Hotp

/-- The offset that the last byte gives. -/
def offset (mac : List UInt8) : Nat := (mac.getLastD 0).toNat % 16

/-- The last 31 bits of the four bytes at the offset. -/
def dynamicTruncation (mac : List UInt8) : List Bool :=
  (Bits.ofBytes ((mac.drop (offset mac)).take 4)).tail

def number (mac : List UInt8) : Nat := Bits.value (dynamicTruncation mac)

theorem offset_lt (mac : List UInt8) : offset mac < 16 := Nat.mod_lt _ (by decide)

/-- The four bytes are put together by shifts, the first without its sign bit. -/
theorem number_eq {mac : List UInt8} (h : offset mac + 3 < mac.length) :
    number mac = (mac[offset mac].toNat &&& 0x7f) <<< 24 ||| mac[offset mac + 1].toNat <<< 16 |||
      mac[offset mac + 2].toNat <<< 8 ||| mac[offset mac + 3].toNat := by
  have hbytes : (mac.drop (offset mac)).take 4 =
      [mac[offset mac], mac[offset mac + 1], mac[offset mac + 2], mac[offset mac + 3]] := by
    rw [List.drop_eq_getElem_cons, List.drop_eq_getElem_cons, List.drop_eq_getElem_cons,
      List.drop_eq_getElem_cons]
    rfl
  have hbits : dynamicTruncation mac = Bits.ofNat 7 mac[offset mac].toNat ++
      Bits.ofNat 8 mac[offset mac + 1].toNat ++ Bits.ofNat 8 mac[offset mac + 2].toNat ++
      Bits.ofNat 8 mac[offset mac + 3].toNat := by
    rw [dynamicTruncation, hbytes]
    simp [Bits.ofBytes, Bits.ofNat]
  rw [number, hbits, Bits.value_push, Bits.value_push, Bits.value_push, Bits.value_ofNat,
    ← Nat.and_two_pow_sub_one_eq_mod]
  simp only [Nat.shiftLeft_or_distrib, ← Nat.shiftLeft_add]

/-! ## Decimals -/

/-- The characters are `n` in decimal, with leading zeros up to `width` digits. -/
structure IsDecimal (cs : List Char) (width n : Nat) : Prop where
  length : cs.length = width
  digit : ∀ c ∈ cs, c.isDigit = true
  value : Nat.ofDigitChars 10 cs 0 = n

theorem isDecimal_leftpad {width n : Nat} (hw : 0 < width) (hn : n < 10 ^ width) :
    IsDecimal ((Nat.toDigits 10 n).leftpad width '0') width n := by
  have hlen := (Nat.length_toDigits_le_iff (by decide) hw).mpr hn
  constructor
  · rw [List.length_leftpad, Nat.max_eq_left hlen]
  · intro c hc
    rcases List.mem_append.mp hc with hz | hd
    · rw [List.eq_of_mem_replicate hz]
      rfl
    · exact Nat.isDigit_of_mem_toDigits (by decide) (by decide) hd
  · rw [List.leftpad, Nat.ofDigitChars_append, Nat.ofDigitChars_replicate_zero, Nat.mul_zero,
      Nat.ofDigitChars_ten_toDigits]

theorem digit_bounds {c : Char} (hc : c.isDigit = true) : 48 ≤ c.toNat ∧ c.toNat ≤ 57 := by
  simp only [Char.isDigit, Bool.and_eq_true, decide_eq_true_eq] at hc
  exact hc

/-- The first digit counts for the number of those behind it. -/
theorem ofDigitChars_first (c : Char) (cs : List Char) :
    Nat.ofDigitChars 10 (c :: cs) 0 = 10 ^ cs.length * (c.toNat - 48) + Nat.ofDigitChars 10 cs 0 := by
  rw [Nat.ofDigitChars_cons, Nat.ofDigitChars_eq_ofDigitChars_zero, Nat.mul_zero, Nat.zero_add]
  rfl

theorem ofDigitChars_lt {cs : List Char} (h : ∀ c ∈ cs, c.isDigit = true) :
    Nat.ofDigitChars 10 cs 0 < 10 ^ cs.length := by
  induction cs with
  | nil => simp
  | cons c cs ih =>
    obtain ⟨hc, hcs⟩ := List.forall_mem_cons.mp h
    have hrest := ih hcs
    have hfirst := Nat.mul_le_mul_left (10 ^ cs.length)
      (show c.toNat - 48 ≤ 9 by have := digit_bounds hc; omega)
    rw [ofDigitChars_first, List.length_cons, Nat.pow_succ]
    omega

theorem ofDigitChars_inj {cs ds : List Char} (hc : ∀ c ∈ cs, c.isDigit = true)
    (hd : ∀ d ∈ ds, d.isDigit = true) (hlen : cs.length = ds.length)
    (h : Nat.ofDigitChars 10 cs 0 = Nat.ofDigitChars 10 ds 0) : cs = ds := by
  induction cs generalizing ds with
  | nil => exact (List.length_eq_zero_iff.mp hlen.symm).symm
  | cons c cs ih =>
    cases ds with
    | nil => cases hlen
    | cons d ds =>
      obtain ⟨hc, hcs⟩ := List.forall_mem_cons.mp hc
      obtain ⟨hd, hds⟩ := List.forall_mem_cons.mp hd
      have hlen : cs.length = ds.length := Nat.succ.inj hlen
      have hlt := ofDigitChars_lt hcs
      have hlt' := ofDigitChars_lt hds
      rw [ofDigitChars_first, ofDigitChars_first, ← hlen] at h
      rw [← hlen] at hlt'
      -- The first digits are the quotients, and what is behind them the remainders.
      have hq := congrArg (· / 10 ^ cs.length) h
      have hr := congrArg (· % 10 ^ cs.length) h
      simp only [Nat.mul_add_div (Nat.pow_pos (show 0 < 10 by decide)), Nat.mul_add_mod,
        Nat.div_eq_of_lt hlt, Nat.div_eq_of_lt hlt', Nat.mod_eq_of_lt hlt, Nat.mod_eq_of_lt hlt'] at hq hr
      have hcd : c.toNat = d.toNat := by
        have := digit_bounds hc
        have := digit_bounds hd
        omega
      rw [Char.toNat_inj.mp hcd, ih hcs hds hlen hr]

/-- A number has one decimal of each width. -/
theorem IsDecimal.unique {cs ds : List Char} {width n : Nat} (hc : IsDecimal cs width n)
    (hd : IsDecimal ds width n) : cs = ds :=
  ofDigitChars_inj hc.digit hd.digit (hc.length.trans hd.length.symm) (hc.value.trans hd.value.symm)

end Hotp

import JwtService.Codec.Base32
import JwtService.Model.AuthConfig

/-!
# What `base32_decode` reads

A character that is not ignored is looked up in the alphabet (`base32Step_eq`),
and its five bits are pushed behind those that the bytes so far have left over
(`Holds`): only the low bits of the buffer count, which the shifts keep. So
every text that spells an encoding is decoded to its bytes
(`base32_decode_inverts`).

The lookup is by the low byte of the character. Above Latin-1 a character
outside the alphabet may be taken for one of it (`Aliased`), and `base32_exact_iff`
says that these are the only texts that are wrongly accepted.
-/

namespace JwtService

/-- White space and the padding. -/
def Ignored (c : Char) : Prop := Text.isWhite c = true ∨ c = '='

instance (c : Char) : Decidable (Ignored c) := inferInstanceAs (Decidable (_ ∨ _))

/-- The place in the alphabet that a character is given. -/
def base32Value (c : Char) : Option Nat := base32Alphabet.idxOf? (UInt8.ofNat c.toUpper.toNat)

namespace Base32State

/-- Five more bits, and a byte where there are eight. -/
def push (s : Base32State) (value : Nat) : Base32State :=
  let buffer := s.buffer <<< 5 ||| UInt64.ofNat value
  if s.bits + 5 ≥ 8 then
    ⟨buffer, s.bits + 5 - 8, s.out ++ [(buffer >>> UInt64.ofNat (s.bits + 5 - 8)).toUInt8]⟩
  else ⟨buffer, s.bits + 5, s.out⟩

end Base32State

theorem base32Step_eq (s : Base32State) (c : Char) :
    base32Step s c = if Ignored c then some s else (base32Value c).map s.push := by
  unfold base32Step
  by_cases hc : Ignored c
  · rw [if_pos hc, if_pos (by simpa [Ignored] using hc)]
  · rw [if_neg hc, if_neg (by simpa [Ignored] using hc)]
    show (base32Value c).bind _ = _
    cases base32Value c with
    | none => rfl
    | some v =>
      simp only [Option.bind_some, Option.map_some, Base32State.push]
      split <;> rfl

/-! ## The loop -/

/-- The bits of the digits read so far: those of the bytes, and the ones left
over. -/
structure Holds (ds : List Nat) (s : Base32State) : Prop where
  bits : Bits.ofBytes s.out ++ Bits.ofNat s.bits s.buffer.toNat = ds.flatMap (Bits.ofNat 5)
  few : s.bits < 8

theorem buffer_toNat (b : UInt64) {v : Nat} (hv : v < 32) :
    (b <<< 5 ||| UInt64.ofNat v).toNat = b.toNat % 2 ^ 59 * 32 + v := by
  have hshift : (b <<< 5).toNat = 2 ^ 5 * (b.toNat % 2 ^ 59) := by
    rw [UInt64.toNat_shiftLeft, Nat.shiftLeft_eq]
    show b.toNat * 2 ^ 5 % 2 ^ 64 = _
    omega
  rw [UInt64.toNat_or, hshift, UInt64.toNat_ofNat_of_lt' (show v < 2 ^ 64 by omega),
    ← Nat.two_pow_add_eq_or_of_lt (show v < 2 ^ 5 from hv)]
  omega

/-- The five new bits come behind the old ones. -/
theorem ofNat_buffer (b : UInt64) {k v : Nat} (hk : k ≤ 59) (hv : v < 32) :
    Bits.ofNat (k + 5) (b <<< 5 ||| UInt64.ofNat v).toNat = Bits.ofNat k b.toNat ++ Bits.ofNat 5 v := by
  rw [buffer_toNat b hv, Bits.ofNat_append]
  congr 1
  · rw [show (b.toNat % 2 ^ 59 * 32 + v) / 2 ^ 5 = b.toNat % 2 ^ 59 by omega, Bits.ofNat_mod _ hk]
  · exact Bits.ofNat_eq_iff.mpr (by omega)

theorem ofNat_byte (b : UInt64) {r : Nat} (hr : r < 64) :
    Bits.ofNat 8 (b >>> UInt64.ofNat r).toUInt8.toNat = Bits.ofNat 8 (b.toNat / 2 ^ r) := by
  rw [UInt64.toNat_toUInt8, Bits.ofNat_mod _ (Nat.le_refl 8), UInt64.toNat_shiftRight,
    UInt64.toNat_ofNat_of_lt' (show r < 2 ^ 64 by omega), Nat.mod_eq_of_lt hr, Nat.shiftRight_eq_div_pow]

theorem Holds.push {ds : List Nat} {s : Base32State} (h : Holds ds s) {v : Nat} (hv : v < 32) :
    Holds (ds ++ [v]) (s.push v) := by
  have hfew := h.few
  have hbits : Bits.ofBytes s.out ++
      Bits.ofNat (s.bits + 5) (s.buffer <<< 5 ||| UInt64.ofNat v).toNat =
        (ds ++ [v]).flatMap (Bits.ofNat 5) := by
    rw [ofNat_buffer s.buffer (by omega) hv, ← List.append_assoc, h.bits, List.flatMap_append,
      List.flatMap_singleton]
  rw [Base32State.push]
  by_cases hge : s.bits + 5 ≥ 8
  · obtain ⟨r, hr⟩ := Nat.exists_eq_add_of_le hge
    rw [hr] at hbits
    simp only [hr, Nat.add_sub_cancel_left, if_pos (Nat.le_add_right 8 r)]
    refine ⟨?_, show r < 8 by omega⟩
    rw [← hbits, Bits.ofNat_append 8 r, Bits.ofBytes_append, List.append_assoc, Bits.ofBytes_cons,
      ofNat_byte _ (show r < 64 by omega)]
    rfl
  · rw [if_neg hge]
    exact ⟨hbits, show s.bits + 5 < 8 by omega⟩

/-- The loop passes over the characters that are ignored. -/
theorem foldlM_filter (cs : List Char) (s : Base32State) :
    (cs.filter fun c => ¬ Ignored c).foldlM base32Step s = cs.foldlM base32Step s := by
  induction cs generalizing s with
  | nil => rfl
  | cons c cs ih =>
    by_cases hc : Ignored c
    · rw [List.filter_cons_of_neg (by simpa using hc), ih, List.foldlM_cons, base32Step_eq, if_pos hc]
      rfl
    · rw [List.filter_cons_of_pos (by simpa using hc), List.foldlM_cons, List.foldlM_cons]
      exact congrArg _ (funext ih)

/-- A text of characters with the values `ds`. -/
theorem holds_foldlM {cs : List Char} {ds es : List Nat} {s : Base32State} (h : Holds es s)
    (hc : ∀ c ∈ cs, ¬ Ignored c) (hv : cs.map base32Value = ds.map some) (hd : ∀ d ∈ ds, d < 32) :
    ∃ s', cs.foldlM base32Step s = some s' ∧ Holds (es ++ ds) s' := by
  induction cs generalizing ds es s with
  | nil =>
    cases ds with
    | nil => exact ⟨s, rfl, by rwa [List.append_nil]⟩
    | cons d ds => cases hv
  | cons c cs ih =>
    cases ds with
    | nil => cases hv
    | cons d ds =>
      obtain ⟨hcd, hv⟩ := List.cons.inj hv
      obtain ⟨hlt, hd⟩ := List.forall_mem_cons.mp hd
      obtain ⟨s', hs', hh⟩ := ih (h.push hlt) (fun c h => hc c (List.mem_cons_of_mem _ h)) hv hd
      refine ⟨s', ?_, by rwa [List.append_assoc] at hh⟩
      rw [List.foldlM_cons, base32Step_eq, if_neg (hc c List.mem_cons_self), hcd]
      exact hs'

/-! ## Encodings -/

theorem toUpper_toNat (c : Char) :
    c.toUpper.toNat = if 97 ≤ c.toNat ∧ c.toNat ≤ 122 then c.toNat - 32 else c.toNat := by
  have hcase : ('a'.val ≤ c.val ∧ c.val ≤ 'z'.val) ↔ 97 ≤ c.toNat ∧ c.toNat ≤ 122 := by
    rw [UInt32.le_iff_toNat_le, UInt32.le_iff_toNat_le]
    rfl
  unfold Char.toUpper
  split
  · rename_i h
    rw [if_pos (hcase.mp h)]
    show (c.val + ('A'.val - 'a'.val)).toNat = c.val.toNat - 32
    have hlow : 97 ≤ c.val.toNat := (hcase.mp h).1
    have hhigh : c.val.toNat ≤ 122 := (hcase.mp h).2
    rw [UInt32.toNat_add, show ('A'.val - 'a'.val).toNat = 2 ^ 32 - 32 by decide]
    omega
  · rename_i h
    rw [if_neg (mt hcase.mpr h)]

/-- What is written for a digit, in either case. -/
theorem symbol_value {c : Char} {d : Nat} (hd : d < 32) (h : c.toUpper = Base32.symbol d) :
    ¬ Ignored c ∧ base32Value c = some d := by
  have hall : ∀ i : Fin 32, ¬ Ignored (Base32.symbol i) ∧
      base32Alphabet.idxOf? (UInt8.ofNat (Base32.symbol i).toNat) = some i.val := by decide
  obtain ⟨hi, hv⟩ := hall ⟨d, hd⟩
  refine ⟨fun hc => hi ?_, by rw [base32Value, h]; exact hv⟩
  -- What is ignored is no letter, and so the same in upper case.
  have hup := toUpper_toNat c
  rw [if_neg] at hup
  · rwa [← h, show c.toUpper = c from Char.toNat_inj.mp hup]
  · rcases hc with hc | rfl
    · simp only [Text.isWhite, Bool.or_eq_true, Bool.and_eq_true, decide_eq_true_eq, beq_iff_eq] at hc
      omega
    · decide

theorem symbols_value {text : List Char} {ds : List Nat} (hd : ∀ d ∈ ds, d < 32)
    (h : text.map Char.toUpper = ds.map Base32.symbol) :
    (∀ c ∈ text, ¬ Ignored c) ∧ text.map base32Value = ds.map some := by
  induction text generalizing ds with
  | nil =>
    cases ds with
    | nil => exact ⟨nofun, rfl⟩
    | cons d ds => cases h
  | cons c text ih =>
    cases ds with
    | nil => cases h
    | cons d ds =>
      obtain ⟨hc, h⟩ := List.cons.inj h
      obtain ⟨hlt, hd⟩ := List.forall_mem_cons.mp hd
      obtain ⟨hi, hv⟩ := symbol_value hlt hc
      obtain ⟨his, hvs⟩ := ih hd h
      exact ⟨List.forall_mem_cons.mpr ⟨hi, his⟩, by rw [List.map_cons, List.map_cons, hv, hvs]⟩

/-- Only the characters of the encoding are not ignored. -/
theorem spells_letters {s : List Char} {bytes : List UInt8} (h : Base32.Spells s bytes) :
    (s.filter fun c => ¬ Ignored c).map Char.toUpper = Base32.encode bytes := by
  obtain ⟨text, pad, hs, ht, hpad⟩ := h
  have htext : ∀ c ∈ text, ¬ Ignored c := (symbols_value (Base32.digits_lt _) ht).1
  have hpad : ∀ c ∈ pad, Ignored c := by
    rcases hpad with rfl | rfl
    · exact nofun
    · exact fun c hc => .inr (List.eq_of_mem_replicate hc)
  have hsplit : (s.filter fun c => ¬ Ignored c) =
      (s.filter fun c => !Text.isWhite c).filter fun c => ¬ Ignored c := by
    rw [List.filter_filter]
    refine List.filter_congr fun c _ => ?_
    by_cases hw : Text.isWhite c = true
    · simp [Ignored, hw]
    · simp [Ignored, hw]
  rw [hsplit, hs, List.filter_append, List.filter_eq_self.mpr (by simpa using htext),
    List.filter_eq_nil_iff.mpr (by simpa using hpad), List.append_nil, ht]

/-- Every text that spells the encoding of bytes is decoded to these bytes. -/
theorem base32_decode_inverts {s : String} {bytes : List UInt8} (h : Base32.Spells s.toList bytes) :
    base32Decode s = some bytes := by
  have hd := Base32.digits_lt (Bits.ofBytes bytes)
  obtain ⟨hskip, hvalue⟩ := symbols_value hd (spells_letters h)
  have hstart : Holds [] ⟨0, 0, []⟩ := ⟨rfl, by decide⟩
  obtain ⟨s', hs', hh⟩ := holds_foldlM hstart hskip hvalue hd
  have hdec : base32Decode s = some s'.out := by
    rw [base32Decode, ← foldlM_filter, hs']
    rfl
  -- On either side less than a byte is left over, so the bytes are the same.
  obtain ⟨n, hn, hbits⟩ := Base32.digits_bits (Bits.ofBytes bytes)
  have heq := hh.bits
  rw [List.nil_append, hbits] at heq
  have hlen := congrArg List.length heq
  have hfew := hh.few
  simp only [List.length_append, Bits.length_ofBytes, Bits.length_ofNat, List.length_replicate] at hlen
  have hout := (List.append_inj heq (by rw [Bits.length_ofBytes, Bits.length_ofBytes]; omega)).1
  rw [hdec, Bits.ofBytes_inj hout]

/-- Twenty bytes, in lower case, in groups of four. -/
theorem base32_decode_inverts_secret :
    base32Decode "gezd gnbv gy3t qojq gezd gnbv gy3t qojq" = some (Text.utf8 "12345678901234567890") :=
  base32_decode_inverts ⟨"gezdgnbvgy3tqojqgezdgnbvgy3tqojq".toList, [], by decide, by decide, .inl rfl⟩

/-! ## The alphabet -/

/-- A letter or a digit of base32, in either case. -/
def InAlphabet (c : Char) : Prop :=
  ('A' ≤ c ∧ c ≤ 'Z') ∨ ('a' ≤ c ∧ c ≤ 'z') ∨ ('2' ≤ c ∧ c ≤ '7')

instance (c : Char) : Decidable (InAlphabet c) := inferInstanceAs (Decidable (_ ∨ _ ∨ _))

/-- A character above Latin-1 whose low byte is a letter or a digit of base32. -/
def Aliased (c : Char) : Prop := 256 ≤ c.toNat ∧ UInt8.ofNat c.toNat ∈ base32Alphabet

theorem mem_base32Alphabet (n : Nat) : UInt8.ofNat n ∈ base32Alphabet ↔
    65 ≤ n % 256 ∧ n % 256 ≤ 90 ∨ 50 ≤ n % 256 ∧ n % 256 ≤ 55 := by
  have hall : ∀ i : Fin 256, UInt8.ofNat i.val ∈ base32Alphabet ↔
      65 ≤ i.val ∧ i.val ≤ 90 ∨ 50 ≤ i.val ∧ i.val ≤ 55 := by decide +kernel
  have hmod : UInt8.ofNat n = UInt8.ofNat (n % 256) := by
    rw [← UInt8.toNat_inj, UInt8.toNat_ofNat', UInt8.toNat_ofNat']
    exact (Nat.mod_mod n 256).symm
  rw [hmod]
  exact hall ⟨n % 256, Nat.mod_lt n (by decide)⟩

theorem inAlphabet_iff {c : Char} : InAlphabet c ↔ 65 ≤ c.toNat ∧ c.toNat ≤ 90 ∨
    97 ≤ c.toNat ∧ c.toNat ≤ 122 ∨ 50 ≤ c.toNat ∧ c.toNat ≤ 55 := by
  simp only [InAlphabet, Char.le_def, UInt32.le_iff_toNat_le]
  rfl

theorem Aliased.not_ignored {c : Char} (h : Aliased c) : ¬ Ignored c := by
  obtain ⟨hlarge, hmem⟩ := h
  rw [mem_base32Alphabet] at hmem
  rintro (hw | rfl)
  · simp only [Text.isWhite, Bool.or_eq_true, Bool.and_eq_true, decide_eq_true_eq, beq_iff_eq] at hw
    omega
  · revert hlarge
    decide

theorem Aliased.not_inAlphabet {c : Char} (h : Aliased c) : ¬ InAlphabet c := by
  have hlarge := h.1
  rw [inAlphabet_iff]
  omega

/-- The lookup finds the characters of the alphabet, and their aliases. -/
theorem base32Value_isSome {c : Char} :
    (base32Value c).isSome = true ↔ InAlphabet c ∨ Aliased c := by
  rw [base32Value, List.isSome_idxOf?, Aliased, mem_base32Alphabet, mem_base32Alphabet,
    inAlphabet_iff, toUpper_toNat]
  split <;> omega

theorem base32Decode_isSome (s : String) :
    (base32Decode s).isSome = true ↔ ∀ c ∈ s.toList, ¬ Ignored c → InAlphabet c ∨ Aliased c := by
  have hloop : ∀ (cs : List Char) (st : Base32State), (cs.foldlM base32Step st).isSome = true ↔
      ∀ c ∈ cs, ¬ Ignored c → InAlphabet c ∨ Aliased c := by
    intro cs
    induction cs with
    | nil => exact fun st => ⟨fun _ => nofun, fun _ => rfl⟩
    | cons c cs ih =>
      intro st
      rw [List.foldlM_cons, base32Step_eq, List.forall_mem_cons]
      by_cases hc : Ignored c
      · rw [if_pos hc]
        exact (ih st).trans ⟨fun h => ⟨fun hn => absurd hc hn, h⟩, And.right⟩
      · rw [if_neg hc]
        have hv := @base32Value_isSome c
        cases hval : base32Value c with
        | none =>
          rw [hval] at hv
          exact ⟨nofun, fun h => hv.mpr (h.1 hc)⟩
        | some v =>
          rw [hval] at hv
          exact (ih (st.push v)).trans ⟨fun h => ⟨fun _ => hv.mp rfl, h⟩, And.right⟩
  rw [base32Decode, Option.isSome_map]
  exact hloop _ _

/-- Decoding accepts exactly the texts of base32 as long as no character of the
text is the alias of one, or another character makes it refuse the text. -/
theorem base32_exact_iff (s : String) :
    ((base32Decode s).isSome = true ↔ ∀ c ∈ s.toList, ¬ Ignored c → InAlphabet c) ↔
      (∀ c ∈ s.toList, ¬ Aliased c) ∨
        ∃ c ∈ s.toList, ¬ Ignored c ∧ ¬ InAlphabet c ∧ ¬ Aliased c := by
  rw [base32Decode_isSome]
  constructor
  · intro h
    by_cases hall : ∀ c ∈ s.toList, ¬ Ignored c → InAlphabet c ∨ Aliased c
    · exact .inl fun c hc ha => ha.not_inAlphabet (h.mp hall c hc ha.not_ignored)
    · simp only [not_forall, not_or] at hall
      obtain ⟨c, hc, hi, ha⟩ := hall
      exact .inr ⟨c, hc, hi, ha⟩
  · rintro (h | ⟨c, hc, hi, ha, hl⟩)
    · exact ⟨fun hall c hc hi => (hall c hc hi).resolve_right (h c hc),
        fun hall c hc hi => .inl (hall c hc hi)⟩
    · exact ⟨fun hall => absurd (hall c hc hi) (not_or.mpr ⟨ha, hl⟩), fun hall => absurd (hall c hc hi) ha⟩

/-- `ō` has the low byte of `M`. -/
theorem base32_alias_accepted : base32Decode "ōZXW6" = some (Text.utf8 "foo") ∧
    ¬ ∀ c ∈ "ōZXW6".toList, ¬ Ignored c → InAlphabet c := by
  refine ⟨by decide, fun h => ?_⟩
  exact absurd (h 'ō' (by decide) (by decide)) (by decide)

end JwtService

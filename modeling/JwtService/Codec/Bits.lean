import Mathlib.Data.List.Induction
import Mathlib.Data.Nat.Bitwise

/-!
# Bits, most significant first

The bits of a number of a given width (`ofNat`), of a sequence of bytes
(`ofBytes`), and the number that bits denote (`value`). `ofNat_append` cuts a
number into its high and its low bits, `take_ofBytes` says which bytes the
first bits come from, `value_push` how a number is put together byte by byte,
and `ofBytes_inj` that bytes are determined by their bits.
-/

namespace Bits

/-- The `w` low bits of a number. -/
def ofNat : (w n : Nat) → List Bool
  | 0, _ => []
  | w + 1, n => n.testBit w :: ofNat w n

/-- The number that bits denote. -/
def value (bs : List Bool) : Nat := bs.foldl (fun n b => 2 * n + b.toNat) 0

def ofBytes (bytes : List UInt8) : List Bool := bytes.flatMap fun b => ofNat 8 b.toNat

@[simp] theorem length_ofNat (w n : Nat) : (ofNat w n).length = w := by
  induction w with
  | zero => rfl
  | succ w ih => simp [ofNat, ih]

theorem getElem?_ofNat {w i : Nat} (n : Nat) (h : i < w) :
    (ofNat w n)[i]? = some (n.testBit (w - 1 - i)) := by
  induction w generalizing i with
  | zero => omega
  | succ w ih =>
    cases i with
    | zero => simp [ofNat]
    | succ i =>
      rw [ofNat, List.getElem?_cons_succ, ih (by omega), show w + 1 - 1 - (i + 1) = w - 1 - i by omega]

/-- Only the low bits of the number count. -/
theorem ofNat_congr {w m n : Nat} (h : ∀ i < w, m.testBit i = n.testBit i) : ofNat w m = ofNat w n := by
  induction w with
  | zero => rfl
  | succ w ih => simp only [ofNat, h w (by omega), ih fun i hi => h i (by omega)]

theorem ofNat_mod {w v : Nat} (n : Nat) (h : w ≤ v) : ofNat w (n % 2 ^ v) = ofNat w n := by
  refine ofNat_congr fun i hi => ?_
  rw [Nat.testBit_mod_two_pow, decide_eq_true (by omega), Bool.true_and]

/-- The high bits and the low ones. -/
theorem ofNat_append (v w n : Nat) : ofNat (v + w) n = ofNat v (n / 2 ^ w) ++ ofNat w n := by
  induction v with
  | zero => simp [ofNat]
  | succ v ih =>
    rw [Nat.add_right_comm, ofNat, ih, ofNat, List.cons_append, Nat.testBit_div_two_pow,
      Nat.add_comm v w]

theorem ofNat_eq_iff {w m n : Nat} : ofNat w m = ofNat w n ↔ m % 2 ^ w = n % 2 ^ w := by
  constructor
  · intro h
    refine Nat.eq_of_testBit_eq fun i => ?_
    rw [Nat.testBit_mod_two_pow, Nat.testBit_mod_two_pow]
    by_cases hi : i < w
    · have hb := congrArg (·[w - 1 - i]?) h
      simp only [getElem?_ofNat _ (show w - 1 - i < w by omega), Option.some.injEq,
        show w - 1 - (w - 1 - i) = i by omega] at hb
      rw [hb]
    · rw [decide_eq_false hi, Bool.false_and, Bool.false_and]
  · intro h
    rw [← ofNat_mod m (Nat.le_refl w), h, ofNat_mod n (Nat.le_refl w)]

/-! ## Values -/

theorem value_snoc (bs : List Bool) (b : Bool) : value (bs ++ [b]) = 2 * value bs + b.toNat := by
  simp [value]

theorem value_lt (bs : List Bool) : value bs < 2 ^ bs.length := by
  induction bs using List.reverseRecOn with
  | nil => simp [value]
  | append_singleton bs b ih =>
    have hb := b.toNat_lt
    rw [value_snoc, List.length_append, List.length_singleton, Nat.pow_succ]
    omega

/-- Bits are those of their value. -/
theorem ofNat_value (bs : List Bool) : ofNat bs.length (value bs) = bs := by
  induction bs using List.reverseRecOn with
  | nil => rfl
  | append_singleton bs b ih =>
    have hb := b.toNat_lt
    have hdiv : (2 * value bs + b.toNat) / 2 ^ 1 = value bs := by omega
    rw [value_snoc, List.length_append, List.length_singleton, ofNat_append, hdiv, ih]
    cases b <;> simp [ofNat]

theorem value_ofNat (w n : Nat) : value (ofNat w n) = n % 2 ^ w := by
  have hlt := value_lt (ofNat w n)
  have hbits := ofNat_value (ofNat w n)
  rw [length_ofNat] at hlt hbits
  rw [← ofNat_eq_iff.mp hbits, Nat.mod_eq_of_lt hlt]

theorem value_append (as bs : List Bool) : value (as ++ bs) = value as * 2 ^ bs.length + value bs := by
  induction bs using List.reverseRecOn with
  | nil => simp [value]
  | append_singleton bs b ih =>
    rw [← List.append_assoc, value_snoc, value_snoc, ih, List.length_append, List.length_singleton,
      Nat.pow_succ, ← Nat.mul_assoc, Nat.mul_comm _ 2]
    omega

/-! ## Bytes -/

theorem ofBytes_cons (b : UInt8) (bytes : List UInt8) :
    ofBytes (b :: bytes) = ofNat 8 b.toNat ++ ofBytes bytes := rfl

theorem ofBytes_append (as bs : List UInt8) : ofBytes (as ++ bs) = ofBytes as ++ ofBytes bs := by
  simp [ofBytes]

@[simp] theorem length_ofBytes (bytes : List UInt8) : (ofBytes bytes).length = 8 * bytes.length := by
  induction bytes with
  | nil => rfl
  | cons b bytes ih => rw [ofBytes_cons, List.length_append, length_ofNat, ih, List.length_cons]; omega

/-- A byte is pushed behind the bits by a shift and a disjunction. -/
theorem value_push (bs : List Bool) (b : UInt8) :
    value (bs ++ ofNat 8 b.toNat) = value bs <<< 8 ||| b.toNat := by
  rw [value_append, length_ofNat, value_ofNat, Nat.mod_eq_of_lt b.toNat_lt,
    ← Nat.shiftLeft_add_eq_or_of_lt b.toNat_lt, Nat.shiftLeft_eq]

/-- The bytes that the first bits come from: whole ones, and a part of the next. -/
theorem take_ofBytes {bytes : List UInt8} {k r : Nat} {b : UInt8} (hb : bytes[k]? = some b) (hr : r ≤ 8) :
    (ofBytes bytes).take (8 * k + r) = ofBytes (bytes.take k) ++ ofNat r (b.toNat / 2 ^ (8 - r)) := by
  obtain ⟨hk, hget⟩ := List.getElem?_eq_some_iff.mp hb
  have hsplit : bytes = bytes.take k ++ b :: bytes.drop (k + 1) := by
    rw [← hget, ← List.drop_eq_getElem_cons hk, List.take_append_drop]
  have hlen : (ofBytes (bytes.take k)).length = 8 * k := by
    rw [length_ofBytes, List.length_take, Nat.min_eq_left (by omega)]
  have hbyte : ofNat 8 b.toNat = ofNat r (b.toNat / 2 ^ (8 - r)) ++ ofNat (8 - r) b.toNat := by
    rw [← ofNat_append, Nat.add_sub_cancel' hr]
  conv => lhs; rw [hsplit, ofBytes_append, ofBytes_cons]
  rw [← hlen, List.take_length_add_append, hbyte, List.append_assoc,
    List.take_left' (length_ofNat r _)]

theorem take_ofBytes_whole (bytes : List UInt8) (k : Nat) :
    (ofBytes bytes).take (8 * k) = ofBytes (bytes.take k) := by
  rcases Nat.lt_or_ge k bytes.length with hk | hk
  · have hsplit := take_ofBytes (List.getElem?_eq_getElem hk) (Nat.zero_le 8)
    rwa [Nat.add_zero, ofNat, List.append_nil] at hsplit
  · rw [List.take_of_length_le hk, List.take_of_length_le (by rw [length_ofBytes]; omega)]

theorem take_eq_take_iff {as bs : List Bool} {p : Nat} :
    as.take p = bs.take p ↔ ∀ i < p, as[i]? = bs[i]? := by
  constructor
  · intro h i hi
    rw [← List.getElem?_take_of_lt hi, h, List.getElem?_take_of_lt hi]
  · intro h
    refine List.ext_getElem? fun i => ?_
    rw [List.getElem?_take, List.getElem?_take]
    split
    · exact h i ‹_›
    · rfl

/-- Bytes are determined by their bits. -/
theorem ofBytes_inj {as bs : List UInt8} (h : ofBytes as = ofBytes bs) : as = bs := by
  induction as generalizing bs with
  | nil =>
    have hlen := congrArg List.length h
    rw [length_ofBytes, length_ofBytes, List.length_nil] at hlen
    exact (List.length_eq_zero_iff.mp (by omega)).symm
  | cons a as ih =>
    cases bs with
    | nil =>
      have hlen := congrArg List.length h
      rw [length_ofBytes, length_ofBytes, List.length_nil, List.length_cons] at hlen
      omega
    | cons b bs =>
      obtain ⟨hab, hrest⟩ := List.append_inj h (by rw [length_ofNat, length_ofNat])
      have hnat := ofNat_eq_iff.mp hab
      rw [Nat.mod_eq_of_lt a.toNat_lt, Nat.mod_eq_of_lt b.toNat_lt] at hnat
      rw [UInt8.toNat_inj.mp hnat, ih hrest]

end Bits

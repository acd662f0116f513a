import Mathlib.Algebra.Group.Int.Defs
import Mathlib.Algebra.Group.Nat.Defs
import Mathlib.Data.List.Basic

/-!
# Strings as the Rust standard library treats them

Trimming, splitting at a character, ASCII case, numbers in decimal and the
text of a version 4 UUID, on the characters of a string, and the bytes of a
string in UTF-8.
-/

namespace Text

/-- The Unicode property `White_Space`. -/
def isWhite (c : Char) : Bool :=
  let n := c.toNat
  (9 ≤ n && n ≤ 13) || n == 0x20 || n == 0x85 || n == 0xA0 || n == 0x1680 ||
    (0x2000 ≤ n && n ≤ 0x200A) || n == 0x2028 || n == 0x2029 || n == 0x202F || n == 0x205F ||
    n == 0x3000

/-- `str::trim`. -/
def trim (s : String) : String :=
  String.ofList ((s.toList.dropWhile isWhite).reverse.dropWhile isWhite).reverse

/-- `str::split` at a character. -/
def split (c : Char) (s : String) : List String := (s.toList.splitOn c).map String.ofList

/-- `str::split_once` at a character: what stands before the first one, and
what behind it. -/
def splitOnce (c : Char) (s : String) : Option (String × String) :=
  if c ∈ s.toList then
    some (String.ofList (s.toList.takeWhile (· ≠ c)),
      String.ofList (s.toList.dropWhile (· ≠ c)).tail)
  else none

/-- `str::rsplit_once` at a character: at the last one. -/
def rsplitOnce (c : Char) (s : String) : Option (String × String) :=
  if c ∈ s.toList then
    some (String.ofList (s.toList.reverse.dropWhile (· ≠ c)).tail.reverse,
      String.ofList (s.toList.reverse.takeWhile (· ≠ c)).reverse)
  else none

/-- `str::to_ascii_lowercase`. -/
def toAsciiLowercase (s : String) : String := String.ofList (s.toList.map Char.toLower)

/-- `str::to_ascii_uppercase`. -/
def toAsciiUppercase (s : String) : String := String.ofList (s.toList.map Char.toUpper)

/-- The digits of a decimal number, most significant first. -/
def decimal : List Char → Nat → Option Nat
  | [], n => some n
  | c :: cs, n => if c.isDigit then decimal cs (10 * n + (c.toNat - 48)) else none

/-- `str::parse::<u64>`: an optional `+` and decimal digits, below `2 ^ 64`. -/
def parseU64 (s : String) : Option Nat :=
  let ds := match s.toList with
    | '+' :: cs => cs
    | cs => cs
  if ds = [] then none else (decimal ds 0).filter (· < 2 ^ 64)

theorem parseU64_lt {s : String} {n : Nat} (h : parseU64 s = some n) : n < 2 ^ 64 := by
  simp only [parseU64, Option.ite_none_left_eq_some, Option.filter_eq_some_iff,
    decide_eq_true_eq] at h
  exact h.2.2

/-- The bytes of a string. -/
def utf8 (s : String) : List UInt8 := s.toUTF8.data.toList

/-- `String::from_utf8`. -/
def fromUtf8 (bs : List UInt8) : Option String := String.fromUTF8? ⟨bs.toArray⟩

theorem fromUtf8_utf8 (s : String) : fromUtf8 (utf8 s) = some s := by
  have h : (⟨s.toUTF8.data.toList.toArray⟩ : ByteArray) = s.toUTF8 := by simp
  simp only [fromUtf8, utf8, h, String.fromUTF8?]
  exact dif_pos s.isValidUTF8

theorem utf8_ofList (cs : List Char) :
    utf8 (String.ofList cs) = cs.flatMap String.utf8EncodeChar := by
  simp [utf8, List.utf8Encode]

/-- The bytes of an ASCII string are its characters. -/
theorem utf8_ascii {cs : List Char} (h : ∀ c ∈ cs, c.toNat < 128) :
    utf8 (String.ofList cs) = cs.map fun c => UInt8.ofNat c.toNat := by
  rw [utf8_ofList]
  induction cs with
  | nil => rfl
  | cons c cs ih =>
    rw [List.flatMap_cons, List.map_cons, ih fun c hc => h c (List.mem_cons_of_mem _ hc)]
    have hc : c.toNat < 128 := h c List.mem_cons_self
    have hsize : c.utf8Size = 1 := by
      rw [Char.utf8Size, if_pos]
      apply UInt32.le_iff_toNat_le.mpr
      show c.toNat ≤ 127
      omega
    rw [String.utf8EncodeChar_eq_singleton hsize]
    rfl

/-- Splitting goes on behind the separator. -/
theorem split_append_cons (c : Char) (a b : List Char) :
    split c (String.ofList (a ++ c :: b)) = split c (String.ofList a) ++ split c (String.ofList b) := by
  simp only [split, String.toList_ofList, List.splitOn_append_cons_self, List.map_append]

theorem split_of_not_mem {c : Char} {a : List Char} (h : c ∉ a) :
    split c (String.ofList a) = [String.ofList a] := by
  simp only [split, String.toList_ofList, List.splitOn_eq_singleton h, List.map_cons, List.map_nil]

/-- The last separator is the one behind which there is none. -/
theorem rsplitOnce_append_cons {c : Char} {a b : List Char} (h : c ∉ b) :
    rsplitOnce c (String.ofList (a ++ c :: b)) = some (String.ofList a, String.ofList b) := by
  have hb : ∀ d ∈ b.reverse, decide (d ≠ c) = true := fun d hd =>
    decide_eq_true fun hdc => h (hdc ▸ List.mem_reverse.mp hd)
  have hrev : (a ++ c :: b).reverse = b.reverse ++ c :: a.reverse := by simp
  rw [rsplitOnce, String.toList_ofList, if_pos (by simp), hrev,
    List.takeWhile_append_of_pos hb, List.dropWhile_append_of_pos hb]
  simp

theorem dropWhile_isWhite {cs : List Char} (h : ∀ c ∈ cs, isWhite c = false) :
    cs.dropWhile isWhite = cs := by
  cases cs with
  | nil => rfl
  | cons c cs => exact List.dropWhile_cons_of_neg (by rw [h c List.mem_cons_self]; decide)

theorem trim_eq_self {cs : List Char} (h : ∀ c ∈ cs, isWhite c = false) :
    trim (String.ofList cs) = String.ofList cs := by
  rw [trim, String.toList_ofList, dropWhile_isWhite h,
    dropWhile_isWhite fun c hc => h c (List.mem_reverse.mp hc), List.reverse_reverse]

/-- Trimming takes a blank before a text without white space. -/
theorem trim_blank {cs : List Char} (h : ∀ c ∈ cs, isWhite c = false) :
    trim (String.ofList (' ' :: cs)) = String.ofList cs := by
  rw [← trim_eq_self h, trim, trim, String.toList_ofList, String.toList_ofList,
    List.dropWhile_cons_of_pos (by decide)]

/-- The first separator is the one before which there is none. -/
theorem splitOnce_append_cons {c : Char} {a b : List Char} (h : c ∉ a) :
    splitOnce c (String.ofList (a ++ c :: b)) = some (String.ofList a, String.ofList b) := by
  have ha : ∀ d ∈ a, decide (d ≠ c) = true := fun d hd => decide_eq_true fun hdc => h (hdc ▸ hd)
  rw [splitOnce, String.toList_ofList, if_pos (by simp), List.takeWhile_append_of_pos ha,
    List.dropWhile_append_of_pos ha]
  simp

/-- Joining segments without a dot, and splitting them at the dots. -/
theorem split_three {a b c : List Char} (ha : '.' ∉ a) (hb : '.' ∉ b) (hc : '.' ∉ c) :
    split '.' (String.ofList a ++ "." ++ String.ofList b ++ "." ++ String.ofList c) =
      [String.ofList a, String.ofList b, String.ofList c] := by
  have h := @List.splitOn_intercalate _ [a, b, c] _ _ '.' (by simp [ha, hb, hc]) (by simp)
  simp only [split, String.toList_append, String.toList_ofList, List.append_assoc]
  rw [show a ++ (".".toList ++ (b ++ (".".toList ++ c))) = ['.'].intercalate [a, b, c] by
    simp [List.intercalate], h]
  rfl

/-! ## UUIDs -/

def isHex (c : Char) : Bool := c.isDigit || ('a' ≤ c && c ≤ 'f')

/-- What stands at each place of a version 4 UUID. -/
def uuidPattern : List (Char → Bool) :=
  List.replicate 8 isHex ++ [(· == '-')] ++ List.replicate 4 isHex ++ [(· == '-'), (· == '4')] ++
    List.replicate 3 isHex ++ [(· == '-'), (['8', '9', 'a', 'b'].contains ·)] ++
    List.replicate 3 isHex ++ [(· == '-')] ++ List.replicate 12 isHex

/-- Whether `cs` matches a pattern place by place. -/
def matches_ : List (Char → Bool) → List Char → Bool
  | [], [] => true
  | p :: ps, c :: cs => p c && matches_ ps cs
  | _, _ => false

/-- The text of a version 4 UUID. -/
def isUuid (s : String) : Bool := matches_ uuidPattern s.toList

theorem matches_mem {ps : List (Char → Bool)} {cs : List Char} (h : matches_ ps cs = true) {c : Char}
    (hc : c ∈ cs) : ∃ p ∈ ps, p c = true := by
  induction ps generalizing cs with
  | nil => cases cs <;> simp_all [matches_]
  | cons p ps ih =>
    cases cs with
    | nil => simp at hc
    | cons d cs =>
      simp only [matches_, Bool.and_eq_true] at h
      rcases List.mem_cons.mp hc with rfl | hc
      · exact ⟨p, List.mem_cons_self, h.1⟩
      · obtain ⟨q, hq, hqc⟩ := ih h.2 hc
        exact ⟨q, List.mem_cons_of_mem _ hq, hqc⟩

/-- A UUID has no colon, so it is not one of the prefixed keys. -/
theorem colon_not_mem_uuid {s : String} (h : isUuid s = true) : ':' ∉ s.toList := by
  intro hc
  obtain ⟨p, hp, hpc⟩ := matches_mem h hc
  have : ∀ p ∈ uuidPattern, p ':' = false := by decide
  rw [this p hp] at hpc
  cases hpc

end Text

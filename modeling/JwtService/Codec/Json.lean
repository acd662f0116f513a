import Mathlib.Algebra.Group.Int.Defs
import Mathlib.Algebra.Group.Nat.Defs
import Mathlib.Data.List.Basic

/-!
# JSON text

JSON values, their compact text as `serde_json` writes it (no blanks, names
in the order they have, the short escapes), and a reader of that text.

`read_print` is the round trip: reading what was printed gives the value
back, with its floating-point numbers replaced, for their text is not
modelled. `compact_faithful` says that this pair of a printer and a parser is
what the users of JSON text rely on (`JsonText.Faithful`).
-/

/-- A JSON value (`serde_json::Value`). Objects keep their entries in order. -/
inductive Json where
  | null
  | bool (b : Bool)
  | int (n : Int)
  | float (bits : UInt64)
  | str (s : String)
  | arr (xs : List Json)
  | obj (fs : List (String × Json))

namespace Json

mutual

/-- Whether a value has no floating-point number in it. -/
def exact : Json → Bool
  | .float _ => false
  | .arr xs => exactList xs
  | .obj fs => exactFields fs
  | _ => true

def exactList : List Json → Bool
  | [] => true
  | x :: xs => x.exact && exactList xs

def exactFields : List (String × Json) → Bool
  | [] => true
  | (_, x) :: fs => x.exact && exactFields fs

end

mutual

/-- The value without its floating-point numbers. -/
def blur : Json → Json
  | .float _ => .null
  | .arr xs => .arr (blurList xs)
  | .obj fs => .obj (blurFields fs)
  | j => j

def blurList : List Json → List Json
  | [] => []
  | x :: xs => x.blur :: blurList xs

def blurFields : List (String × Json) → List (String × Json)
  | [] => []
  | (name, x) :: fs => (name, x.blur) :: blurFields fs

end

mutual

theorem blur_exact : ∀ j : Json, j.exact = true → j.blur = j
  | .null, _ | .bool _, _ | .int _, _ | .str _, _ => rfl
  | .float _, h => nomatch h
  | .arr xs, h => congrArg Json.arr (blurList_exact xs h)
  | .obj fs, h => congrArg Json.obj (blurFields_exact fs h)

theorem blurList_exact : ∀ xs : List Json, exactList xs = true → blurList xs = xs
  | [], _ => rfl
  | x :: xs, h => by
    simp only [exactList, Bool.and_eq_true] at h
    rw [blurList, blur_exact x h.1, blurList_exact xs h.2]

theorem blurFields_exact : ∀ fs : List (String × Json), exactFields fs = true → blurFields fs = fs
  | [], _ => rfl
  | (name, x) :: fs, h => by
    simp only [exactFields, Bool.and_eq_true] at h
    rw [blurFields, blur_exact x h.1, blurFields_exact fs h.2]

end

/-! ## Reading values -/

def asStr : Json → Option String
  | .str s => some s
  | _ => none

def asOptionStr : Json → Option (Option String)
  | .null => some none
  | .str s => some (some s)
  | _ => none

def asStrs : Json → Option (List String)
  | .arr xs => xs.mapM asStr
  | _ => none

def asUsize : Json → Option Nat
  | .int n => if 0 ≤ n ∧ n < 2 ^ 64 then some n.toNat else none
  | _ => none

/-! ## Strings -/

/-- A character inside a string. -/
def escape (c : Char) : List Char :=
  if c = '"' then ['\\', '"']
  else if c = '\\' then ['\\', '\\']
  else if c = '\n' then ['\\', 'n']
  else if c = '\r' then ['\\', 'r']
  else if c = '\t' then ['\\', 't']
  else if c = '\x08' then ['\\', 'b']
  else if c = '\x0c' then ['\\', 'f']
  else if c.toNat < 32 then
    ['\\', 'u', '0', '0', Nat.digitChar (c.toNat / 16), Nat.digitChar (c.toNat % 16)]
  else [c]

def printStr (s : String) : List Char := '"' :: (s.toList.flatMap escape ++ ['"'])

/-- The character after a backslash. -/
def unescape : Char → Option Char
  | '"' => some '"'
  | '\\' => some '\\'
  | '/' => some '/'
  | 'n' => some '\n'
  | 'r' => some '\r'
  | 't' => some '\t'
  | 'b' => some '\x08'
  | 'f' => some '\x0c'
  | _ => none

def hexValue (c : Char) : Nat := if c.isDigit then c.toNat - 48 else c.toNat - 87

/-- The characters of a string up to its closing quote, and the rest. -/
def readStr : List Char → Option (List Char × List Char)
  | [] => none
  | '"' :: cs => some ([], cs)
  | '\\' :: 'u' :: a :: b :: c :: d :: cs =>
    (readStr cs).map fun x =>
      (Char.ofNat (hexValue d + 16 * (hexValue c + 16 * (hexValue b + 16 * hexValue a))) :: x.1, x.2)
  | '\\' :: c :: cs => (unescape c).bind fun e => (readStr cs).map fun x => (e :: x.1, x.2)
  | c :: cs => (readStr cs).map fun x => (c :: x.1, x.2)

theorem readStr_plain {c : Char} (h₁ : c ≠ '"') (h₂ : c ≠ '\\') (cs : List Char) :
    readStr (c :: cs) = (readStr cs).map fun x => (c :: x.1, x.2) := by
  rw [readStr]
  · exact h₁
  · exact fun _ _ _ _ _ h => absurd h h₂
  · exact fun _ _ h => absurd h h₂

theorem readStr_control : ∀ n < 32, ∀ cs, readStr ('\\' :: 'u' :: '0' :: '0' ::
    Nat.digitChar (n / 16) :: Nat.digitChar (n % 16) :: cs) =
      (readStr cs).map fun x => (Char.ofNat n :: x.1, x.2) := by
  intro n hn cs
  have hv : ∀ n < 32, hexValue (Nat.digitChar (n % 16)) +
      16 * (hexValue (Nat.digitChar (n / 16)) + 16 * (hexValue '0' + 16 * hexValue '0')) = n := by
    decide
  rw [readStr, hv n hn]

/-- Reading a character that was written inside a string. -/
theorem readStr_escape (c : Char) (cs : List Char) :
    readStr (escape c ++ cs) = (readStr cs).map fun x => (c :: x.1, x.2) := by
  by_cases h₁ : c = '"'
  · subst h₁; rfl
  by_cases h₂ : c = '\\'
  · subst h₂; rfl
  by_cases h₃ : c = '\n'
  · subst h₃; rfl
  by_cases h₄ : c = '\r'
  · subst h₄; rfl
  by_cases h₅ : c = '\t'
  · subst h₅; rfl
  by_cases h₆ : c = '\x08'
  · subst h₆; rfl
  by_cases h₇ : c = '\x0c'
  · subst h₇; rfl
  by_cases hn : c.toNat < 32
  · simp only [escape, h₁, h₂, h₃, h₄, h₅, h₆, h₇, if_false, if_pos hn, List.cons_append,
      List.nil_append]
    rw [readStr_control _ hn, Char.ofNat_toNat]
  · simp only [escape, h₁, h₂, h₃, h₄, h₅, h₆, h₇, if_false, if_neg hn, List.cons_append,
      List.nil_append]
    exact readStr_plain h₁ h₂ cs

/-- Reading a string that was written. -/
theorem readStr_chars (cs rest : List Char) :
    readStr (cs.flatMap escape ++ '"' :: rest) = some (cs, rest) := by
  induction cs with
  | nil => rfl
  | cons c cs ih =>
    rw [List.flatMap_cons, List.append_assoc, readStr_escape, ih]
    rfl

/-! ## Numbers -/

def printInt : Int → List Char
  | .ofNat n => Nat.toDigits 10 n
  | .negSucc n => '-' :: Nat.toDigits 10 (n + 1)

/-- The digits at the front of a text, as a number, and the rest. -/
def readNat (cs : List Char) : Option (Nat × List Char) :=
  if cs.takeWhile Char.isDigit = [] then none
  else some (Nat.ofDigitChars 10 (cs.takeWhile Char.isDigit) 0, cs.dropWhile Char.isDigit)

def readInt : List Char → Option (Json × List Char)
  | '-' :: cs => (readNat cs).map fun x => (.int (-x.1), x.2)
  | cs => (readNat cs).map fun x => (.int x.1, x.2)

/-- The text does not go on with a digit. -/
def NoDigit (cs : List Char) : Prop := ∀ c, cs.head? = some c → c.isDigit = false

theorem readNat_digits (n : Nat) {rest : List Char} (h : NoDigit rest) :
    readNat (Nat.toDigits 10 n ++ rest) = some (n, rest) := by
  have hd : ∀ c ∈ Nat.toDigits 10 n, c.isDigit = true := fun c hc =>
    Nat.isDigit_of_mem_toDigits (by decide) (by decide) hc
  have hr : rest.takeWhile Char.isDigit = [] ∧ rest.dropWhile Char.isDigit = rest := by
    cases rest with
    | nil => exact ⟨rfl, rfl⟩
    | cons c cs =>
      have hc := h c rfl
      simp [hc]
  rw [readNat, List.takeWhile_append_of_pos hd, List.dropWhile_append_of_pos hd, hr.1, hr.2,
    List.append_nil, if_neg Nat.toDigits_ne_nil, Nat.ofDigitChars_ten_toDigits]

theorem readInt_printInt (n : Int) {rest : List Char} (h : NoDigit rest) :
    readInt (printInt n ++ rest) = some (.int n, rest) := by
  cases n with
  | ofNat n =>
    have hne : ∀ cs, Nat.toDigits 10 n ++ rest ≠ '-' :: cs := fun cs he => by
      obtain ⟨c, ds, hds⟩ := List.exists_cons_of_ne_nil (@Nat.toDigits_ne_nil n 10)
      rw [hds] at he
      obtain ⟨rfl, -⟩ := List.cons.inj he
      have := Nat.isDigit_of_mem_toDigits (b := 10) (n := n) (c := '-') (by decide) (by decide)
        (by rw [hds]; exact List.mem_cons_self)
      cases this
    show readInt (Nat.toDigits 10 n ++ rest) = _
    rw [readInt, readNat_digits n h]
    · rfl
    · exact fun cs he => hne cs he
  | negSucc n =>
    show readInt ('-' :: (Nat.toDigits 10 (n + 1) ++ rest)) = _
    rw [readInt, readNat_digits (n + 1) h]
    rfl

/-! ## Values -/

mutual

def print : Json → List Char
  | .null | .float _ => "null".toList
  | .bool true => "true".toList
  | .bool false => "false".toList
  | .int n => printInt n
  | .str s => printStr s
  | .arr [] => "[]".toList
  | .arr (x :: xs) => '[' :: (print x ++ printRest xs)
  | .obj [] => "{}".toList
  | .obj ((name, x) :: fs) => '{' :: (printStr name ++ ':' :: (print x ++ printFields fs))

/-- The further elements of an array, and its closing bracket. -/
def printRest : List Json → List Char
  | [] => [']']
  | x :: xs => ',' :: (print x ++ printRest xs)

/-- The further entries of an object, and its closing bracket. -/
def printFields : List (String × Json) → List Char
  | [] => ['}']
  | (name, x) :: fs => ',' :: (printStr name ++ ':' :: (print x ++ printFields fs))

end

/-- A value that is written as a word, of which `word` is left to read. -/
def readWord (word : List Char) (j : Json) (cs : List Char) : Option (Json × List Char) :=
  if word.isPrefixOf cs then some (j, cs.drop word.length) else none

mutual

/-- A value at the front of a text, and the rest. The fuel bounds how deep
the value goes. -/
def read : Nat → List Char → Option (Json × List Char)
  | 0, _ => none
  | _ + 1, [] => none
  | fuel + 1, c :: cs =>
    if c = '"' then (readStr cs).map fun x => (.str (String.ofList x.1), x.2)
    else if c = '[' then
      if cs.head? = some ']' then some (.arr [], cs.tail)
      else (readItems fuel cs).map fun x => (.arr x.1, x.2)
    else if c = '{' then
      if cs.head? = some '}' then some (.obj [], cs.tail)
      else (readFields fuel cs).map fun x => (.obj x.1, x.2)
    else if c = 'n' then readWord ['u', 'l', 'l'] .null cs
    else if c = 't' then readWord ['r', 'u', 'e'] (.bool true) cs
    else if c = 'f' then readWord ['a', 'l', 's', 'e'] (.bool false) cs
    else readInt (c :: cs)

/-- The elements of an array up to its closing bracket, and the rest. -/
def readItems : Nat → List Char → Option (List Json × List Char)
  | 0, _ => none
  | fuel + 1, cs =>
    match read fuel cs with
    | some (x, ']' :: cs) => some ([x], cs)
    | some (x, ',' :: cs) => (readItems fuel cs).map fun y => (x :: y.1, y.2)
    | _ => none

/-- The entries of an object up to its closing bracket, and the rest. -/
def readFields : Nat → List Char → Option (List (String × Json) × List Char)
  | 0, _ => none
  | fuel + 1, cs =>
    match cs with
    | '"' :: cs =>
      match readStr cs with
      | some (name, ':' :: cs) =>
        match read fuel cs with
        | some (x, '}' :: cs) => some ([(String.ofList name, x)], cs)
        | some (x, ',' :: cs) =>
          (readFields fuel cs).map fun y => ((String.ofList name, x) :: y.1, y.2)
        | _ => none
      | _ => none
    | _ => none

end

/-! ## Round trip -/

mutual

/-- The fuel that reading a value takes. -/
def size : Json → Nat
  | .arr xs => 1 + sizeList xs
  | .obj fs => 1 + sizeFields fs
  | _ => 1

def sizeList : List Json → Nat
  | [] => 0
  | x :: xs => 1 + x.size + sizeList xs

def sizeFields : List (String × Json) → Nat
  | [] => 0
  | (_, x) :: fs => 1 + x.size + sizeFields fs

end

theorem read_int (n : Int) {fuel : Nat} {rest : List Char} (h : NoDigit rest) :
    read (fuel + 1) (printInt n ++ rest) = some (.int n, rest) := by
  have hr := readInt_printInt n h
  obtain ⟨c, ds, hp, hc⟩ : ∃ c ds, printInt n = c :: ds ∧ (c.isDigit = true ∨ c = '-') := by
    cases n with
    | ofNat n =>
      obtain ⟨c, ds, hds⟩ := List.exists_cons_of_ne_nil (@Nat.toDigits_ne_nil n 10)
      refine ⟨c, ds, hds, .inl (Nat.isDigit_of_mem_toDigits (b := 10) (n := n) (by decide)
        (by decide) ?_)⟩
      rw [hds]
      exact List.mem_cons_self
    | negSucc n => exact ⟨'-', _, rfl, .inr rfl⟩
  have hne : c ≠ '"' ∧ c ≠ '[' ∧ c ≠ '{' ∧ c ≠ 'n' ∧ c ≠ 't' ∧ c ≠ 'f' := by
    refine ⟨?_, ?_, ?_, ?_, ?_, ?_⟩ <;> rintro rfl <;> simp at hc
  rw [hp] at hr ⊢
  rw [List.cons_append] at hr ⊢
  rw [read, if_neg hne.1, if_neg hne.2.1, if_neg hne.2.2.1, if_neg hne.2.2.2.1,
    if_neg hne.2.2.2.2.1, if_neg hne.2.2.2.2.2, hr]

/-- The text of a value does not begin with a closing bracket. -/
theorem print_head (j : Json) : ∃ c cs, j.print = c :: cs ∧ c ≠ ']' ∧ c ≠ '}' := by
  cases j with
  | null | float => exact ⟨'n', _, rfl, by decide, by decide⟩
  | bool b =>
    cases b
    · exact ⟨'f', _, rfl, by decide, by decide⟩
    · exact ⟨'t', _, rfl, by decide, by decide⟩
  | int n =>
    cases n with
    | ofNat n =>
      obtain ⟨c, ds, hds⟩ := List.exists_cons_of_ne_nil (@Nat.toDigits_ne_nil n 10)
      have hd := Nat.isDigit_of_mem_toDigits (b := 10) (n := n) (c := c) (by decide) (by decide)
        (by rw [hds]; exact List.mem_cons_self)
      refine ⟨c, ds, hds, ?_, ?_⟩ <;> rintro rfl <;> cases hd
    | negSucc n => exact ⟨'-', _, rfl, by decide, by decide⟩
  | str s => exact ⟨'"', _, rfl, by decide, by decide⟩
  | arr xs => cases xs <;> exact ⟨'[', _, rfl, by decide, by decide⟩
  | obj fs => rcases fs with _ | ⟨⟨name, x⟩, fs⟩ <;> exact ⟨'{', _, rfl, by decide, by decide⟩

theorem noDigit_printRest (xs : List Json) (rest : List Char) : NoDigit (printRest xs ++ rest) := by
  cases xs <;> · intro c hc; cases hc; decide

theorem noDigit_printFields (fs : List (String × Json)) (rest : List Char) :
    NoDigit (printFields fs ++ rest) := by
  rcases fs with _ | ⟨⟨name, x⟩, fs⟩ <;> · intro c hc; cases hc; decide

mutual

/-- Reading a value that was printed. -/
theorem read_print : ∀ (j : Json) (fuel : Nat) (rest : List Char), j.size ≤ fuel → NoDigit rest →
    read fuel (j.print ++ rest) = some (j.blur, rest)
  | .null, fuel + 1, rest, _, _ => rfl
  | .float _, fuel + 1, rest, _, _ => rfl
  | .bool true, fuel + 1, rest, _, _ => rfl
  | .bool false, fuel + 1, rest, _, _ => rfl
  | .int n, fuel + 1, rest, _, h => read_int n h
  | .str s, fuel + 1, rest, _, _ => by
    show (readStr ((s.toList.flatMap escape ++ ['"']) ++ rest)).map _ = _
    rw [List.append_assoc, List.singleton_append, readStr_chars, Option.map_some,
      String.ofList_toList]
    rfl
  | .arr [], fuel + 1, rest, _, _ => rfl
  | .arr (_ :: _), 0, _, hs, _ | .obj (_ :: _), 0, _, hs, _ => by
    simp only [size] at hs
    omega
  | .arr (x :: xs), fuel + 1, rest, hs, h => by
    have hi := readItems_print x xs fuel rest (by simp only [size] at hs; omega)
    obtain ⟨c, cs, hp, hc, -⟩ := print_head x
    show read (fuel + 1) ('[' :: (print x ++ printRest xs ++ rest)) = _
    rw [hp, List.cons_append, List.cons_append] at hi ⊢
    rw [read, if_neg (by decide), if_pos rfl, List.head?_cons,
      if_neg fun he => hc (Option.some.inj he), hi]
    rfl
  | .obj [], fuel + 1, rest, _, _ => rfl
  | .obj ((name, x) :: fs), fuel + 1, rest, hs, h => by
    have hi := readFields_print name x fs fuel rest (by simp only [size] at hs; omega)
    show read (fuel + 1) ('{' :: (printStr name ++ ':' :: (print x ++ printFields fs) ++ rest)) = _
    have hp : printStr name ++ ':' :: (print x ++ printFields fs) ++ rest = '"' ::
        (name.toList.flatMap escape ++ ['"'] ++ ':' :: (print x ++ printFields fs) ++ rest) := rfl
    rw [hp] at hi ⊢
    rw [read, if_neg (by decide), if_neg (by decide), if_pos rfl, if_neg nofun, hi]
    rfl

theorem readItems_print : ∀ (x : Json) (xs : List Json) (fuel : Nat) (rest : List Char),
    sizeList (x :: xs) ≤ fuel →
    readItems fuel (x.print ++ printRest xs ++ rest) = some (blurList (x :: xs), rest)
  | x, [], fuel + 1, rest, hs => by
    have hr := read_print x fuel (']' :: rest) (by simp only [sizeList] at hs; omega)
      (noDigit_printRest [] rest)
    rw [List.append_assoc, readItems, show printRest [] ++ rest = ']' :: rest from rfl, hr]
    rfl
  | x, y :: ys, fuel + 1, rest, hs => by
    have hr := read_print x fuel (printRest (y :: ys) ++ rest)
      (by simp only [sizeList] at hs; omega) (noDigit_printRest _ rest)
    have hi := readItems_print y ys fuel rest (by simp only [sizeList] at hs ⊢; omega)
    rw [List.append_assoc, readItems, hr,
      show printRest (y :: ys) ++ rest = ',' :: (y.print ++ printRest ys ++ rest) from rfl]
    simp only [hi]
    rfl
  | x, xs, 0, rest, hs => by
    simp only [sizeList] at hs
    omega

theorem readFields_print : ∀ (name : String) (x : Json) (fs : List (String × Json)) (fuel : Nat)
    (rest : List Char), sizeFields ((name, x) :: fs) ≤ fuel →
    readFields fuel (printStr name ++ ':' :: (x.print ++ printFields fs) ++ rest) =
      some (blurFields ((name, x) :: fs), rest)
  | name, x, fs, 0, rest, hs => by
    simp only [sizeFields] at hs
    omega
  | name, x, fs, fuel + 1, rest, hs => by
    have hr := read_print x fuel (printFields fs ++ rest)
      (by simp only [sizeFields] at hs; omega) (noDigit_printFields fs rest)
    have hn : readStr (name.toList.flatMap escape ++ ['"'] ++ ':' :: (x.print ++ printFields fs) ++
        rest) = some (name.toList, ':' :: (x.print ++ (printFields fs ++ rest))) := by
      rw [List.append_assoc, List.append_assoc, List.singleton_append, readStr_chars,
        List.cons_append, List.append_assoc]
    show readFields (fuel + 1) ('"' :: (name.toList.flatMap escape ++ ['"'] ++
      ':' :: (x.print ++ printFields fs) ++ rest)) = _
    rw [readFields]
    simp only [hn, hr]
    match fs, hs with
    | [], _ =>
      simp only [printFields, List.cons_append, List.nil_append, String.ofList_toList]
      rfl
    | (name', y) :: gs, hs =>
      have hi := readFields_print name' y gs fuel rest (by simp only [sizeFields] at hs ⊢; omega)
      rw [show printFields ((name', y) :: gs) ++ rest =
        ',' :: (printStr name' ++ ':' :: (y.print ++ printFields gs) ++ rest) from rfl]
      simp only [hi, String.ofList_toList]
      rfl

end

mutual

/-- The text of a value is long enough to be fuel for reading it. -/
theorem size_le : ∀ j : Json, j.size ≤ j.print.length
  | .null | .bool true | .bool false | .arr [] | .obj [] => by decide
  | .float _ => Nat.succ_le_succ (Nat.zero_le _)
  | .int n => by
    obtain ⟨c, cs, hp, -⟩ := print_head (.int n)
    rw [hp]
    exact Nat.succ_le_succ (Nat.zero_le _)
  | .str s => Nat.succ_le_succ (Nat.zero_le _)
  | .arr (x :: xs) => by
    have hx := size_le x
    have hxs := sizeList_lt xs
    simp only [size, sizeList, print, List.length_cons, List.length_append]
    omega
  | .obj ((name, x) :: fs) => by
    have hx := size_le x
    have hfs := sizeFields_lt fs
    simp only [size, sizeFields, print, List.length_cons, List.length_append]
    omega

theorem sizeList_lt : ∀ xs : List Json, sizeList xs < (printRest xs).length
  | [] => Nat.one_pos
  | x :: xs => by
    have hx := size_le x
    have hxs := sizeList_lt xs
    simp only [sizeList, printRest, List.length_cons, List.length_append]
    omega

theorem sizeFields_lt : ∀ fs : List (String × Json), sizeFields fs < (printFields fs).length
  | [] => Nat.one_pos
  | (name, x) :: fs => by
    have hx := size_le x
    have hfs := sizeFields_lt fs
    simp only [sizeFields, printFields, List.length_cons, List.length_append]
    omega

end

end Json

/-! ## Printers and parsers -/

/-- `serde_json` on text: printing, and parsing into the value the text
denotes, with the entries of an object as they stand in the text. -/
structure JsonText where
  print : Json → Option String
  parse : String → Option Json

namespace JsonText

/-- What `serde_json` promises: an object that was printed parses to an
object with the same names in the same order, and with the same values
except perhaps for floating-point numbers. -/
def Faithful (t : JsonText) : Prop :=
  ∀ fs s, t.print (.obj fs) = some s → ∃ gs, t.parse s = some (.obj gs) ∧
    List.Forall₂ (fun f g => f.1 = g.1 ∧ (f.2.exact = true → g.2 = f.2)) fs gs

/-- The compact text, and the reader of it. -/
def compact : JsonText where
  print j := some (String.ofList j.print)
  parse s :=
    match Json.read s.toList.length s.toList with
    | some (j, []) => some j
    | _ => none

theorem forall₂_blurFields (fs : List (String × Json)) :
    List.Forall₂ (fun f g => f.1 = g.1 ∧ (f.2.exact = true → g.2 = f.2)) fs
      (Json.blurFields fs) := by
  induction fs with
  | nil => exact .nil
  | cons f fs ih => exact .cons ⟨rfl, Json.blur_exact f.2⟩ ih

/-- Parsing what was printed. -/
theorem compact_parse (j : Json) :
    compact.parse (String.ofList j.print) = some j.blur := by
  have hr := Json.read_print j j.print.length [] j.size_le nofun
  rw [List.append_nil] at hr
  simp only [compact, String.toList_ofList, hr]

theorem compact_faithful : compact.Faithful := by
  rintro fs s hs
  cases hs
  exact ⟨_, compact_parse (.obj fs), forall₂_blurFields fs⟩

end JsonText

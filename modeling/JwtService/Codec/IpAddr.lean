import Mathlib.Data.List.TakeWhile

/-!
# IP addresses as the Rust standard library reads them

`IpAddr` of `std::net` with its octets, and `IpAddr.parse`, which follows the
parser of `core::net` reader by reader. A reader takes characters off the
front of what is left of the text, and the text of an address has to be read
to its end.

`Consumes` says which characters a reader takes, and `readIpv4_append` that
the four octets are read the same way before any text that does not go on
with a digit. So an address has no comma and no blank in it
(`parse_chars`), and a port behind it is left over (`parse_with_port`).
-/

namespace Net

abbrev Ipv4Addr := Vector UInt8 4

abbrev Ipv6Addr := Vector UInt8 16

inductive IpAddr where
  | v4 (a : Ipv4Addr)
  | v6 (a : Ipv6Addr)
deriving DecidableEq

/-- The octets of an address. -/
def IpAddr.octets : IpAddr → List UInt8
  | .v4 a => a.toList
  | .v6 a => a.toList

/-- `Ipv6Addr::to_ipv4_mapped`: `::ffff:a.b.c.d` as `a.b.c.d`. -/
def Ipv6Addr.toIpv4Mapped (a : Ipv6Addr) : Option Ipv4Addr :=
  match a.toList with
  | [0, 0, 0, 0, 0, 0, 0, 0, 0, 0, 255, 255, b, c, d, e] => some #v[b, c, d, e]
  | _ => none

/-! ## Readers -/

/-- Takes characters off the front of the text, or fails. -/
abbrev Reader := StateT (List Char) Option

/-- `char::to_digit`. -/
def toDigit (radix : Nat) (c : Char) : Option Nat :=
  let n := c.toNat
  let d := if 48 ≤ n ∧ n ≤ 57 then n - 48
    else if 97 ≤ n ∧ n ≤ 122 then n - 87
    else if 65 ≤ n ∧ n ≤ 90 then n - 55
    else radix
  if d < radix then some d else none

def isDigit (radix : Nat) (c : Char) : Bool := (toDigit radix c).isSome

/-- The value of digits, most significant first. -/
def value (radix : Nat) (ds : List Char) : Nat :=
  ds.foldl (fun n c => n * radix + (toDigit radix c).getD 0) 0

/-- `read_number`: all the digits that follow, at least one and at most `max`
of them, with a value below `bound`. -/
def readNumber (radix max bound : Nat) (zeroPrefix : Bool) : Reader Nat := fun s =>
  let ds := s.takeWhile (isDigit radix)
  if ds.length > max ∨ ds = [] ∨ (zeroPrefix = false ∧ ds.head? = some '0' ∧ ds.length > 1) ∨
      bound ≤ value radix ds then
    none
  else some (value radix ds, s.dropWhile (isDigit radix))

/-- `read_given_char`. -/
def readChar (c : Char) : Reader Unit
  | d :: s => if d = c then some ((), s) else none
  | [] => none

/-- `read_separator`: a separator stands before all but the first. -/
def readSeparator {α : Type} (sep : Char) (first : Bool) (inner : Reader α) : Reader α :=
  if first then inner else do
    readChar sep
    inner

/-- `read_atomically`: a reader that fails leaves the text alone. -/
def readAtomically {α : Type} (r : Reader α) : Reader (Option α) := fun s =>
  match r s with
  | some (a, s) => some (some a, s)
  | none => some (none, s)

def readOctet (first : Bool) : Reader Nat := readSeparator '.' first (readNumber 10 3 256 false)

/-- `read_ipv4_addr`. -/
def readIpv4 : Reader Ipv4Addr := do
  let a ← readOctet true
  let b ← readOctet false
  let c ← readOctet false
  let d ← readOctet false
  pure #v[UInt8.ofNat a, UInt8.ofNat b, UInt8.ofNat c, UInt8.ofNat d]

/-- The two groups of an embedded IPv4 address. -/
def groupsOf (a : Ipv4Addr) : List Nat :=
  [a[0].toNat * 256 + a[1].toNat, a[2].toNat * 256 + a[3].toNat]

/-- `read_groups`: as many groups as there are, and whether the last two were
an IPv4 address. `left` groups may still be read. -/
def readGroups : (left : Nat) → (first : Bool) → Reader (List Nat × Bool)
  | 0, _ => pure ([], false)
  | left + 1, first => do
    match ← readAtomically (if 0 < left then readSeparator ':' first readIpv4 else failure) with
    | some a => pure (groupsOf a, true)
    | none => do
      match ← readAtomically (readSeparator ':' first (readNumber 16 4 65536 true)) with
      | some g => do
        let (gs, embedded) ← readGroups left false
        pure (g :: gs, embedded)
      | none => pure ([], false)

/-- The octets of eight groups. -/
def ofGroups (gs : List Nat) : Ipv6Addr :=
  Vector.ofFn fun i => UInt8.ofNat (gs.getD (i / 2) 0 / (if i.val % 2 = 0 then 256 else 1))

/-- `read_ipv6_addr`. -/
def readIpv6 : Reader Ipv6Addr := do
  let (head, embedded) ← readGroups 8 true
  if head.length = 8 then pure (ofGroups head)
  else if embedded then failure
  else do
    readChar ':'
    readChar ':'
    let (tail, _) ← readGroups (8 - (head.length + 1)) true
    pure (ofGroups (head ++ List.replicate (8 - head.length - tail.length) 0 ++ tail))

/-- `read_ip_addr`. -/
def readIp : Reader IpAddr := (.v4 <$> readIpv4) <|> (.v6 <$> readIpv6)

/-- `str::parse::<IpAddr>`: the whole text is an address. -/
def IpAddr.parse (s : String) : Option IpAddr :=
  match readIp s.toList with
  | some (a, []) => some a
  | _ => none

example : IpAddr.parse "10.0.0.255" = some (.v4 #v[10, 0, 0, 255]) := rfl

/-! ## What the readers take -/

/-- What the reader takes off the front are characters of `C`. -/
def Consumes {α : Type} (C : Char → Prop) (r : Reader α) : Prop :=
  ∀ s a rest, r s = some (a, rest) → ∃ pre, s = pre ++ rest ∧ ∀ c ∈ pre, C c

section Consumes

variable {α β : Type} {C D : Char → Prop}

theorem Consumes.mono {r : Reader α} (h : Consumes C r) (hd : ∀ c, C c → D c) : Consumes D r := by
  intro s a rest hs
  obtain ⟨pre, rfl, hp⟩ := h s a rest hs
  exact ⟨pre, rfl, fun c hc => hd c (hp c hc)⟩

theorem consumes_pure (a : α) : Consumes C (pure a) := by
  intro s b rest hs
  obtain ⟨-, rfl⟩ := Prod.mk.inj (Option.some.inj hs)
  exact ⟨[], rfl, nofun⟩

theorem consumes_failure : Consumes C (failure : Reader α) := nofun

/-- One reader after another. -/
theorem Consumes.bind {r : Reader α} {f : α → Reader β} (hr : Consumes C r)
    (hf : ∀ a, Consumes C (f a)) : Consumes C (r >>= f) := by
  intro s b rest hs
  obtain ⟨⟨a, s'⟩, h₁, h₂⟩ := Option.bind_eq_some_iff.mp hs
  obtain ⟨p, rfl, hp⟩ := hr s a s' h₁
  obtain ⟨q, rfl, hq⟩ := hf a s' b rest h₂
  refine ⟨p ++ q, (List.append_assoc ..).symm, fun c hc => ?_⟩
  rcases List.mem_append.mp hc with hc | hc
  · exact hp c hc
  · exact hq c hc

theorem Consumes.map {r : Reader α} (hr : Consumes C r) (f : α → β) : Consumes C (f <$> r) :=
  hr.bind fun a => consumes_pure (f a)

theorem Consumes.orElse {r t : Reader α} (hr : Consumes C r) (ht : Consumes C t) :
    Consumes C (r <|> t) := by
  intro s a rest hs
  replace hs : (r s <|> t s) = some (a, rest) := hs
  cases h : r s with
  | some x =>
    rw [h] at hs
    cases hs
    exact hr s a rest h
  | none =>
    rw [h] at hs
    exact ht s a rest hs

theorem Consumes.atomically {r : Reader α} (hr : Consumes C r) : Consumes C (readAtomically r) := by
  intro s a rest hs
  simp only [readAtomically] at hs
  split at hs
  · rename_i b s' h
    cases hs
    exact hr s b rest h
  · cases hs
    exact ⟨[], rfl, nofun⟩

theorem consumes_number (radix max bound : Nat) (zeroPrefix : Bool)
    (h : ∀ c, isDigit radix c = true → C c) : Consumes C (readNumber radix max bound zeroPrefix) := by
  intro s a rest hs
  simp only [readNumber, Option.ite_none_left_eq_some, Option.some.injEq, Prod.mk.injEq] at hs
  obtain ⟨-, -, rfl⟩ := hs
  refine ⟨s.takeWhile (isDigit radix), List.takeWhile_append_dropWhile.symm, fun c hc => h c ?_⟩
  exact List.mem_takeWhile_imp hc

theorem consumes_char {c : Char} (h : C c) : Consumes C (readChar c) := by
  rintro (_ | ⟨d, s⟩) a rest hs
  · cases hs
  · simp only [readChar, Option.ite_none_right_eq_some, Option.some.injEq, Prod.mk.injEq] at hs
    obtain ⟨rfl, -, rfl⟩ := hs
    exact ⟨[d], rfl, by simpa using h⟩

theorem consumes_separator {sep : Char} {first : Bool} {r : Reader α} (hs : C sep)
    (hr : Consumes C r) : Consumes C (readSeparator sep first r) := by
  cases first with
  | true => exact hr
  | false => exact (consumes_char hs).bind fun _ => hr

end Consumes

/-- The characters of the text of an IPv4 address. -/
def IsOctetChar (c : Char) : Prop := isDigit 10 c = true ∨ c = '.'

/-- The characters of the text of an address. -/
def IsAddrChar (c : Char) : Prop := isDigit 16 c = true ∨ c = '.' ∨ c = ':'

/-- They stand between `.` and `f`. -/
theorem IsAddrChar.range {c : Char} (h : IsAddrChar c) : 46 ≤ c.toNat ∧ c.toNat ≤ 102 := by
  rcases h with h | rfl | rfl
  · simp only [isDigit, toDigit] at h
    grind
  · decide
  · decide

theorem IsOctetChar.isAddrChar {c : Char} (h : IsOctetChar c) : IsAddrChar c := by
  rcases h with h | h
  · left
    simp only [isDigit, toDigit] at h ⊢
    grind
  · exact .inr (.inl h)

theorem consumes_ipv4 : Consumes IsOctetChar readIpv4 := by
  have ho : ∀ first, Consumes IsOctetChar (readOctet first) := fun first =>
    consumes_separator (.inr rfl) (consumes_number 10 3 256 false fun _ h => .inl h)
  exact (ho _).bind fun _ => (ho _).bind fun _ => (ho _).bind fun _ => (ho _).bind fun _ =>
    consumes_pure _

theorem consumes_groups (left : Nat) (first : Bool) : Consumes IsAddrChar (readGroups left first) := by
  induction left generalizing first with
  | zero => exact consumes_pure _
  | succ left ih =>
    have h4 : Consumes IsAddrChar (readSeparator ':' first readIpv4) :=
      consumes_separator (.inr (.inr rfl)) (consumes_ipv4.mono fun _ h => h.isAddrChar)
    have h16 : Consumes IsAddrChar (readSeparator ':' first (readNumber 16 4 65536 true)) :=
      consumes_separator (.inr (.inr rfl)) (consumes_number _ _ _ _ fun _ h => .inl h)
    unfold readGroups
    refine Consumes.bind (Consumes.atomically ?_) fun a => ?_
    · split
      · exact h4
      · exact consumes_failure
    · cases a with
      | some a => exact consumes_pure _
      | none =>
        refine h16.atomically.bind fun g => ?_
        cases g with
        | some g => exact (ih false).bind fun _ => consumes_pure _
        | none => exact consumes_pure _

theorem consumes_ipv6 : Consumes IsAddrChar readIpv6 := by
  have hcolon : Consumes IsAddrChar (readChar ':') := consumes_char (.inr (.inr rfl))
  refine (consumes_groups 8 true).bind fun x => ?_
  show Consumes IsAddrChar (ite _ _ _)
  split
  · exact consumes_pure _
  · split
    · exact consumes_failure
    · exact hcolon.bind fun _ => hcolon.bind fun _ => (consumes_groups _ true).bind fun _ =>
        consumes_pure _

theorem consumes_ip : Consumes IsAddrChar readIp :=
  ((consumes_ipv4.mono fun _ h => h.isAddrChar).map _).orElse (consumes_ipv6.map _)

/-- The characters of the text of an address. -/
theorem parse_chars {s : String} {a : IpAddr} (h : IpAddr.parse s = some a) :
    ∀ c ∈ s.toList, IsAddrChar c := by
  simp only [IpAddr.parse] at h
  split at h
  · rename_i b hb
    obtain ⟨pre, hs, hp⟩ := consumes_ip _ _ _ hb
    rw [hs, List.append_nil]
    exact hp
  · cases h

/-! ## What is left over -/

/-- The reader reads the same before a text that does not go on. -/
def Extends {α : Type} (t : List Char) (r : Reader α) : Prop :=
  ∀ s a rest, r s = some (a, rest) → r (s ++ t) = some (a, rest ++ t)

section Extends

variable {α β : Type} {t : List Char}

theorem extends_pure (a : α) : Extends t (pure a) := by
  intro s b rest hs
  obtain ⟨rfl, rfl⟩ := Prod.mk.inj (Option.some.inj hs)
  rfl

theorem Extends.bind {r : Reader α} {f : α → Reader β} (hr : Extends t r)
    (hf : ∀ a, Extends t (f a)) : Extends t (r >>= f) := by
  intro s b rest hs
  obtain ⟨⟨a, s'⟩, h₁, h₂⟩ := Option.bind_eq_some_iff.mp hs
  exact Option.bind_eq_some_iff.mpr ⟨(a, s' ++ t), hr s a s' h₁, hf a s' b rest h₂⟩

theorem extends_char (c : Char) : Extends t (readChar c) := by
  rintro (_ | ⟨d, s⟩) a rest hs
  · cases hs
  · simp only [readChar, Option.ite_none_right_eq_some, Option.some.injEq, Prod.mk.injEq] at hs
    obtain ⟨rfl, -, rfl⟩ := hs
    exact if_pos rfl

theorem extends_number {radix max bound : Nat} {zeroPrefix : Bool}
    (ht : ∀ c ∈ t.head?, isDigit radix c = false) :
    Extends t (readNumber radix max bound zeroPrefix) := by
  intro s a rest hs
  have htake : t.takeWhile (isDigit radix) = [] := by
    cases t with
    | nil => rfl
    | cons c t => exact List.takeWhile_cons_of_neg (by rw [ht c rfl]; exact Bool.false_ne_true)
  have hdrop : t.dropWhile (isDigit radix) = t := by
    have := List.takeWhile_append_dropWhile (p := isDigit radix) (l := t)
    rwa [htake] at this
  have h₁ : (s ++ t).takeWhile (isDigit radix) = s.takeWhile (isDigit radix) := by
    rw [List.takeWhile_append, htake, List.append_nil]
    split
    · rename_i h
      exact (List.takeWhile_prefix _).eq_of_length h |>.symm
    · rfl
  have h₂ : (s ++ t).dropWhile (isDigit radix) = s.dropWhile (isDigit radix) ++ t := by
    rw [List.dropWhile_append, hdrop]
    split
    · rename_i h
      rw [List.isEmpty_iff.mp h]
      rfl
    · rfl
  simp only [readNumber, Option.ite_none_left_eq_some, Option.some.injEq, Prod.mk.injEq, h₁, h₂] at hs ⊢
  exact ⟨hs.1, hs.2.1, by rw [hs.2.2]⟩

theorem extends_ipv4 (ht : ∀ c ∈ t.head?, isDigit 10 c = false) : Extends t readIpv4 := by
  have ho : ∀ first, Extends t (readOctet first) := by
    intro first
    cases first with
    | true => exact extends_number ht
    | false => exact (extends_char _).bind fun _ => extends_number ht
  exact (ho _).bind fun _ => (ho _).bind fun _ => (ho _).bind fun _ => (ho _).bind fun _ =>
    extends_pure _

end Extends

theorem readIp_of_ipv4 {s rest : List Char} {a : Ipv4Addr} (h : readIpv4 s = some (a, rest)) :
    readIp s = some (.v4 a, rest) := by
  show (((readIpv4 s).bind fun x => some (IpAddr.v4 x.1, x.2)) <|> _) = _
  rw [h]
  rfl

theorem readIp_of_not_ipv4 {s : List Char} (h : readIpv4 s = none) :
    readIp s = (readIpv6 s).bind fun x => some (.v6 x.1, x.2) := by
  show (((readIpv4 s).bind fun x => some (IpAddr.v4 x.1, x.2)) <|> _) = _
  rw [h]
  rfl

theorem parse_of_ipv4 {s : String} {a : Ipv4Addr} (h : IpAddr.parse s = some (.v4 a)) :
    readIpv4 s.toList = some (a, []) := by
  cases h₄ : readIpv4 s.toList with
  | some x =>
    obtain ⟨b, rest⟩ := x
    rw [IpAddr.parse, readIp_of_ipv4 h₄] at h
    cases rest with
    | nil =>
      cases h
      rfl
    | cons c rest => cases h
  | none =>
    -- Then the address was read as one of version 6.
    rw [IpAddr.parse, readIp_of_not_ipv4 h₄] at h
    cases hv : readIpv6 s.toList with
    | none =>
      rw [hv] at h
      cases h
    | some x =>
      obtain ⟨b, rest⟩ := x
      rw [hv] at h
      cases rest <;> cases h

/-- An IPv4 address with a port is no address. -/
theorem parse_with_port {host port : String} {a : Ipv4Addr} (h : IpAddr.parse host = some (.v4 a)) :
    IpAddr.parse (host ++ ":" ++ port) = none := by
  have hread : readIpv4 (host.toList ++ ':' :: port.toList) = some (a, ':' :: port.toList) := by
    refine extends_ipv4 (fun c hc => ?_) _ _ _ (parse_of_ipv4 h)
    cases hc
    decide
  have hs : (host ++ ":" ++ port).toList = host.toList ++ ':' :: port.toList := by
    simp
  rw [IpAddr.parse, hs, readIp_of_ipv4 hread]

/-! ## The texts of addresses -/

/-- An IPv4 address in decimal, with dots. -/
def dotted (a : Ipv4Addr) : List Char :=
  Nat.toDigits 10 a[0].toNat ++ '.' :: (Nat.toDigits 10 a[1].toNat ++ '.' ::
    (Nat.toDigits 10 a[2].toNat ++ '.' :: Nat.toDigits 10 a[3].toNat))

/-- The text of an IPv4 address, as the end of an IPv6 one. -/
def mappedText (a : Ipv4Addr) : List Char := ':' :: ':' :: 'f' :: 'f' :: 'f' :: 'f' :: ':' :: dotted a

theorem bind_reads {α β : Type} {r : Reader α} {f : α → Reader β} {s t : List Char} {a : α}
    (h : r s = some (a, t)) : (r >>= f) s = f a t := by
  show (r s).bind _ = _
  rw [h]
  rfl

theorem atomically_reads {α : Type} {r : Reader α} {s s' : List Char} {a : α} (h : r s = some (a, s')) :
    readAtomically r s = some (some a, s') := by
  rw [readAtomically, h]

theorem readNumber_digits {n : Nat} (hn : n < 256) {rest : List Char}
    (hr : ∀ c ∈ rest.head?, isDigit 10 c = false) :
    readNumber 10 3 256 false (Nat.toDigits 10 n ++ rest) = some (n, rest) := by
  have hall : ∀ n : Fin 256, readNumber 10 3 256 false (Nat.toDigits 10 n.val) = some (n.val, []) := by
    decide +kernel
  exact extends_number hr _ _ _ (hall ⟨n, hn⟩)

theorem ofOctets (a : Ipv4Addr) : #v[a[0], a[1], a[2], a[3]] = a := by
  refine Vector.ext fun i hi => ?_
  match i, hi with
  | 0, _ | 1, _ | 2, _ | 3, _ => rfl

theorem readIpv4_dotted (a : Ipv4Addr) : readIpv4 (dotted a) = some (a, []) := by
  have hdot : ∀ rest : List Char, ∀ c ∈ ('.' :: rest).head?, isDigit 10 c = false := by
    rintro rest c ⟨⟩
    decide
  have hend : ∀ c ∈ ([] : List Char).head?, isDigit 10 c = false := nofun
  have hlast := readNumber_digits a[3].toNat_lt hend
  rw [List.append_nil] at hlast
  have hnext : ∀ {n : Nat} {s rest : List Char}, readNumber 10 3 256 false s = some (n, rest) →
      readOctet false ('.' :: s) = some (n, rest) := fun h => (bind_reads rfl).trans h
  refine (bind_reads (readNumber_digits a[0].toNat_lt (hdot _))).trans ?_
  refine (bind_reads (hnext (readNumber_digits a[1].toNat_lt (hdot _)))).trans ?_
  refine (bind_reads (hnext (readNumber_digits a[2].toNat_lt (hdot _)))).trans ?_
  refine (bind_reads (hnext hlast)).trans ?_
  simp only [UInt8.ofNat_toNat]
  exact congrArg (fun b => some (b, [])) (ofOctets a)

theorem parse_dotted (a : Ipv4Addr) : IpAddr.parse (String.ofList (dotted a)) = some (.v4 a) := by
  rw [IpAddr.parse, String.toList_ofList, readIp_of_ipv4 (readIpv4_dotted a)]

/-- The groups behind `::`. -/
theorem readGroups_mapped (a : Ipv4Addr) :
    readGroups 7 true ('f' :: 'f' :: 'f' :: 'f' :: ':' :: dotted a) =
      some ((65535 :: groupsOf a, true), []) := by
  have hembedded : readGroups 6 false (':' :: dotted a) = some ((groupsOf a, true), []) := by
    have hread : readSeparator ':' false readIpv4 (':' :: dotted a) = some (a, []) :=
      (bind_reads rfl).trans (readIpv4_dotted a)
    rw [readGroups]
    exact bind_reads (atomically_reads hread)
  rw [readGroups]
  refine (bind_reads (a := none) (t := 'f' :: 'f' :: 'f' :: 'f' :: ':' :: dotted a) rfl).trans ?_
  refine (bind_reads (a := some 65535) (t := ':' :: dotted a) rfl).trans ?_
  exact bind_reads hembedded

theorem readIpv6_mapped (a : Ipv4Addr) :
    readIpv6 (mappedText a) = some (ofGroups (List.replicate 5 0 ++ 65535 :: groupsOf a), []) := by
  rw [readIpv6, bind_reads (a := ([], false)) (t := mappedText a) rfl]
  simp only [List.length_nil]
  rw [if_neg (by decide), if_neg (by decide)]
  refine (bind_reads (a := ()) rfl).trans ((bind_reads (a := ()) rfl).trans ?_)
  refine (bind_reads (readGroups_mapped a)).trans ?_
  rfl

theorem ofNat_groups (a b : UInt8) : UInt8.ofNat ((a.toNat * 256 + b.toNat) / 256) = a ∧
    UInt8.ofNat (a.toNat * 256 + b.toNat) = b := by
  have ha := a.toNat_lt
  have hb := b.toNat_lt
  rw [← UInt8.toNat_inj, ← UInt8.toNat_inj, UInt8.toNat_ofNat', UInt8.toNat_ofNat']
  omega

theorem toIpv4Mapped_ofGroups (a : Ipv4Addr) :
    (ofGroups (List.replicate 5 0 ++ 65535 :: groupsOf a)).toIpv4Mapped = some a := by
  have hoctets : (ofGroups (List.replicate 5 0 ++ 65535 :: groupsOf a)).toList =
      ([0, 0, 0, 0, 0, 0, 0, 0, 0, 0, 255, 255, a[0], a[1], a[2], a[3]] : List UInt8) := by
    simp [ofGroups, groupsOf, List.ofFn_succ, ofNat_groups, Vector.toList_ofFn]
  rw [Ipv6Addr.toIpv4Mapped, hoctets]
  exact congrArg some (ofOctets a)

theorem parse_mappedText (a : Ipv4Addr) : IpAddr.parse (String.ofList (mappedText a)) =
    some (.v6 (ofGroups (List.replicate 5 0 ++ 65535 :: groupsOf a))) := by
  rw [IpAddr.parse, String.toList_ofList, readIp_of_not_ipv4 rfl, readIpv6_mapped]
  rfl

end Net

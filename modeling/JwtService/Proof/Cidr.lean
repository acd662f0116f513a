import JwtService.Codec.Bits
import JwtService.Model.ClientIp

/-!
# Address ranges, bit by bit

`prefixMatch` compares whole bytes and masks a part of the next one. It comes
to the comparison of the first bits of the two addresses
(`prefix_match_bitwise`), without an index out of range, so that a range is a
set of bit strings with a common prefix (`Cidr.contains_iff`).
-/

namespace JwtService

open Net

/-! ## The mask of the last byte -/

theorem toNat_and_mask {k : Nat} (x : UInt8) (hk : k < 8) :
    (x &&& ((0xff : UInt8) <<< UInt8.ofNat k)).toNat = x.toNat / 2 ^ k * 2 ^ k := by
  have hall : ∀ (k : Fin 8) (x : Fin 256),
      (UInt8.ofNat x.val &&& ((0xff : UInt8) <<< UInt8.ofNat k.val)).toNat = x.val / 2 ^ k.val * 2 ^ k.val := by
    decide +kernel
  have h := hall ⟨k, hk⟩ ⟨x.toNat, x.toNat_lt⟩
  rwa [UInt8.ofNat_toNat] at h

/-- Masked bytes are equal when their high bits are. -/
theorem and_mask_beq {r : Nat} (x y : UInt8) (h0 : r ≠ 0) (hr : r < 8) :
    ((x &&& ((0xff : UInt8) <<< UInt8.ofNat (8 - r))) == (y &&& ((0xff : UInt8) <<< UInt8.ofNat (8 - r)))) = true ↔
      Bits.ofNat r (x.toNat / 2 ^ (8 - r)) = Bits.ofNat r (y.toNat / 2 ^ (8 - r)) := by
  have hlt : ∀ z : UInt8, z.toNat / 2 ^ (8 - r) < 2 ^ r := fun z => by
    rw [Nat.div_lt_iff_lt_mul (Nat.two_pow_pos _), ← Nat.pow_add, Nat.add_sub_cancel' (by omega)]
    exact z.toNat_lt
  rw [beq_iff_eq, ← UInt8.toNat_inj, toNat_and_mask x (by omega), toNat_and_mask y (by omega),
    Bits.ofNat_eq_iff, Nat.mod_eq_of_lt (hlt x), Nat.mod_eq_of_lt (hlt y),
    Nat.mul_left_inj (Nat.two_pow_pos _).ne']

/-! ## The comparison -/

variable {a b : List UInt8} {p : Nat}

/-- With as many bits as the prefix has, no index is out of range. -/
theorem prefixMatchChecked_eq (hlen : a.length = b.length) (hp : p ≤ 8 * a.length) :
    prefixMatchChecked a b p = some (prefixMatch a b p) := by
  have hin : ¬ (a.length < p / 8 ∨ b.length < p / 8) := by omega
  simp only [prefixMatchChecked, prefixMatch, if_neg hin]
  split
  · rfl
  · split
    · rfl
    · rename_i hrem
      rw [List.getElem?_eq_getElem (by omega : p / 8 < a.length),
        List.getElem?_eq_getElem (by omega : p / 8 < b.length),
        List.getD_eq_getElem _ _ (by omega), List.getD_eq_getElem _ _ (by omega)]

theorem prefixMatch_iff_take (hlen : a.length = b.length) (hp : p ≤ 8 * a.length) :
    prefixMatch a b p = true ↔ (Bits.ofBytes a).take p = (Bits.ofBytes b).take p := by
  have hsplit : p = 8 * (p / 8) + p % 8 := (Nat.div_add_mod p 8).symm
  have hwhole : a.take (p / 8) = b.take (p / 8) ↔
      Bits.ofBytes (a.take (p / 8)) = Bits.ofBytes (b.take (p / 8)) :=
    ⟨fun h => by rw [h], Bits.ofBytes_inj⟩
  unfold prefixMatch
  by_cases hrem : p % 8 = 0
  · have hp8 : p = 8 * (p / 8) := by omega
    conv => rhs; rw [hp8, Bits.take_ofBytes_whole, Bits.take_ofBytes_whole, ← hwhole]
    simp [hrem]
  · have ha : a[p / 8]? = some (a.getD (p / 8) 0) := by
      rw [List.getD_eq_getElem _ _ (by omega), List.getElem?_eq_getElem]
    have hb : b[p / 8]? = some (b.getD (p / 8) 0) := by
      rw [List.getD_eq_getElem _ _ (by omega), List.getElem?_eq_getElem]
    have hlast := and_mask_beq (a.getD (p / 8) 0) (b.getD (p / 8) 0) hrem (Nat.mod_lt p (by decide))
    have hbits : (Bits.ofBytes (a.take (p / 8))).length = (Bits.ofBytes (b.take (p / 8))).length := by
      simp [hlen]
    conv =>
      rhs
      rw [hsplit, Bits.take_ofBytes ha (by omega), Bits.take_ofBytes hb (by omega),
        List.append_eq_append_iff_of_size_eq_left hbits, ← hwhole, ← hlast]
    simp only [hrem, if_false]
    split
    · rename_i hne
      exact ⟨nofun, fun h => absurd h.1 hne⟩
    · rename_i heq
      exact ⟨fun h => ⟨not_not.mp heq, h⟩, And.right⟩

theorem prefixMatch_iff (hlen : a.length = b.length) (hp : p ≤ 8 * a.length) :
    prefixMatch a b p = true ↔ ∀ i < p, (Bits.ofBytes a)[i]? = (Bits.ofBytes b)[i]? :=
  (prefixMatch_iff_take hlen hp).trans Bits.take_eq_take_iff

/-! ## Ranges -/

@[simp] theorem length_octets_v4 (a : Ipv4Addr) : (IpAddr.v4 a).octets.length = 4 := Vector.length_toList

@[simp] theorem length_octets_v6 (a : Ipv6Addr) : (IpAddr.v6 a).octets.length = 16 := Vector.length_toList

/-- Two addresses of one family whose first bits are the same. -/
def SharesPrefix (p : Nat) (a b : IpAddr) : Prop :=
  a.octets.length = b.octets.length ∧ ∀ i < p, (Bits.ofBytes a.octets)[i]? = (Bits.ofBytes b.octets)[i]?

namespace SharesPrefix

variable {a b : IpAddr}

theorem symm (h : SharesPrefix p a b) : SharesPrefix p b a := ⟨h.1.symm, fun i hi => (h.2 i hi).symm⟩

theorem mono {q : Nat} (h : SharesPrefix p a b) (hq : q ≤ p) : SharesPrefix q a b :=
  ⟨h.1, fun i hi => h.2 i (by omega)⟩

end SharesPrefix

namespace Cidr

/-- A range holds the addresses of its family that share its prefix. -/
theorem contains_iff (c : Cidr) (ip : IpAddr) :
    c.contains ip = true ↔ SharesPrefix c.bits c.addr ip := by
  obtain ⟨addr, bits, hle⟩ := c
  cases addr with
  | v4 a =>
    cases ip with
    | v4 b => exact (prefixMatch_iff (by simp) hle).trans ⟨fun h => ⟨by simp, h⟩, And.right⟩
    | v6 b => exact ⟨nofun, fun h => absurd h.1 (by simp)⟩
  | v6 a =>
    cases ip with
    | v4 b => exact ⟨nofun, fun h => absurd h.1 (by simp)⟩
    | v6 b => exact (prefixMatch_iff (by simp) hle).trans ⟨fun h => ⟨by simp, h⟩, And.right⟩

/-- A shorter prefix of the same address holds no fewer addresses. -/
theorem contains_mono {c d : Cidr} {ip : IpAddr} (haddr : c.addr = d.addr) (hbits : d.bits ≤ c.bits)
    (h : c.contains ip = true) : d.contains ip = true := by
  rw [contains_iff] at h ⊢
  rw [← haddr]
  exact h.mono hbits

theorem contains_comm {c d : Cidr} (hbits : c.bits = d.bits) : c.contains d.addr = d.contains c.addr := by
  rw [Bool.eq_iff_iff, contains_iff, contains_iff, hbits]
  exact ⟨SharesPrefix.symm, SharesPrefix.symm⟩

end Cidr

/-- The comparison never leaves the arrays and is the one of the first bits; so
a range is monotone in its prefix and symmetric in the two addresses. -/
theorem prefix_match_bitwise (hlen : a.length = b.length) (hp : p ≤ 8 * a.length) :
    (prefixMatchChecked a b p = some (prefixMatch a b p) ∧
      (prefixMatch a b p = true ↔ ∀ i < p, (Bits.ofBytes a)[i]? = (Bits.ofBytes b)[i]?)) ∧
      (∀ (c d : Cidr) (ip : IpAddr), c.addr = d.addr → d.bits ≤ c.bits →
        c.contains ip = true → d.contains ip = true) ∧
      ∀ c d : Cidr, c.bits = d.bits → c.contains d.addr = d.contains c.addr :=
  ⟨⟨prefixMatchChecked_eq hlen hp, prefixMatch_iff hlen hp⟩,
    fun _ _ _ => Cidr.contains_mono, fun _ _ => Cidr.contains_comm⟩

/-- `10.1.2.3` and `10.1.3.3` share 23 bits, the last seven in a part of a byte. -/
theorem prefix_match_bitwise_private :
    prefixMatchChecked [10, 1, 2, 3] [10, 1, 3, 3] 23 = some true ∧
      ∀ i < 23, (Bits.ofBytes [10, 1, 2, 3])[i]? = (Bits.ofBytes [10, 1, 3, 3])[i]? := by
  obtain ⟨⟨hchecked, hbits⟩, -⟩ := prefix_match_bitwise (a := [10, 1, 2, 3]) (b := [10, 1, 3, 3]) (p := 23)
    (by decide) (by decide)
  exact ⟨hchecked.trans (by decide), hbits.mp (by decide)⟩

/-! ## Ranges written with an IPv4-mapped address -/

/-- The text of a range. -/
def rangeText (addr : List Char) (p : Nat) : String := String.ofList (addr ++ '/' :: Nat.toDigits 10 p)

/-- What the text of a range names, before the address is made canonical. -/
def ReadsRange (s : String) (addr : IpAddr) (p : Nat) : Prop :=
  ∃ x y, Text.splitOnce '/' (Text.trim s) = some (x, y) ∧ IpAddr.parse (Text.trim x) = some addr ∧
    Text.parseU64 (Text.trim y) = some p

/-- The text is an IPv4-mapped form of `a`, with a prefix. -/
def ReadsMapped (s : String) (a : Ipv4Addr) (p : Nat) : Prop :=
  ∃ m, ReadsRange s (.v6 m) p ∧ m.toIpv4Mapped = some a

theorem reads_rangeText {cs : List Char} {addr : IpAddr} {p : Nat}
    (haddr : IpAddr.parse (String.ofList cs) = some addr) (hp : p ≤ 128) : ReadsRange (rangeText cs p) addr p := by
  have hcs : ∀ c ∈ cs, Text.isWhite c = false ∧ c ≠ '/' := by
    intro c hc
    have hchar := parse_chars haddr c (by rwa [String.toList_ofList])
    have hslash : ¬ IsAddrChar '/' := by rw [IsAddrChar]; decide
    refine ⟨?_, fun h => hslash (h ▸ hchar)⟩
    have hrange := hchar.range
    simp only [Text.isWhite]
    grind
  have hds : ∀ p : Fin 129, (Nat.toDigits 10 p.val).all (!Text.isWhite ·) = true ∧
      Text.parseU64 (String.ofList (Nat.toDigits 10 p.val)) = some p.val := by
    decide +kernel
  obtain ⟨hall, hvalue⟩ := hds ⟨p, by omega⟩
  have hwhite : ∀ c ∈ Nat.toDigits 10 p, Text.isWhite c = false := by simpa using hall
  refine ⟨String.ofList cs, String.ofList (Nat.toDigits 10 p), ?_, ?_, ?_⟩
  · rw [rangeText, Text.trim_eq_self, Text.splitOnce_append_cons fun h => (hcs _ h).2 rfl]
    intro c hc
    rcases List.mem_append.mp hc with hc | hc
    · exact (hcs c hc).1
    · rcases List.mem_cons.mp hc with rfl | hc
      · decide
      · exact hwhite c hc
  · rwa [Text.trim_eq_self fun c hc => (hcs c hc).1]
  · rwa [Text.trim_eq_self hwhite]

theorem readsMapped_mappedText (a : Ipv4Addr) {p : Nat} (hp : p ≤ 128) :
    ReadsMapped (rangeText (mappedText a) p) a p :=
  ⟨_, reads_rangeText (parse_mappedText a) hp, toIpv4Mapped_ofGroups a⟩

namespace Cidr

variable {s : String} {addr : IpAddr} {p : Nat}

theorem parse_eq (h : ReadsRange s addr p) (hp : p < 256) :
    parse s = if h : p ≤ 8 * (canonical addr).octets.length then some ⟨canonical addr, p, h⟩ else none := by
  obtain ⟨x, y, hsplit, haddr, hprefix⟩ := h
  have hfilter : (some p).filter (· < 256) = some p := by simp [Option.filter, hp]
  simp only [parse, hsplit, haddr, Option.bind_some, ofParts, hprefix, hfilter]

/-- A prefix of the other family is too long. -/
theorem parse_eq_none (h : ReadsRange s addr p) (hp : p < 256) (hlong : 8 * (canonical addr).octets.length < p) :
    parse s = none := by
  rw [parse_eq h hp, dif_neg (by omega)]

end Cidr

/-- Whether an address is trusted through the entry `s`. -/
def entryTrusts (s : String) (ip : IpAddr) : Bool := ipIsTrusted (canonical ip) ([s].filterMap Cidr.parse)

theorem entryTrusts_of_none {s : String} (h : Cidr.parse s = none) (ip : IpAddr) : entryTrusts s ip = false := by
  simp [entryTrusts, h, ipIsTrusted]

/-- The plain spelling of a range is trusted for what it says. -/
theorem entryTrusts_dotted (a : Ipv4Addr) {q : Nat} (hq : q ≤ 32) (ip : IpAddr) :
    entryTrusts (rangeText (dotted a) q) ip = true ↔ SharesPrefix q (.v4 a) (canonical ip) := by
  have hle : q ≤ 8 * (canonical (.v4 a)).octets.length := by simpa [canonical] using hq
  have hparse := Cidr.parse_eq (reads_rangeText (parse_dotted a) (by omega)) (by omega : q < 256)
  rw [dif_pos hle] at hparse
  simp only [entryTrusts, List.filterMap_cons, hparse, List.filterMap_nil, ipIsTrusted, List.any_cons,
    List.any_nil, Bool.or_false]
  exact Cidr.contains_iff _ _

/-- No entry in the IPv4-mapped form is a range: its address becomes an IPv4
one, for which every prefix from 96 is too long. So it does not trust the
addresses that it names, nor those of the plain spelling. -/
theorem mapped_range_never (a : Ipv4Addr) {p : Nat} (h96 : 96 ≤ p) (h128 : p ≤ 128) :
    ReadsMapped (rangeText (mappedText a) p) a p ∧
      ∀ s, ReadsMapped s a p →
        Cidr.parse s = none ∧
          (¬ ∀ ip, entryTrusts s ip = true ↔ SharesPrefix (p - 96) (.v4 a) (canonical ip)) ∧
          ¬ ∀ ip, entryTrusts s ip = entryTrusts (rangeText (dotted a) (p - 96)) ip := by
  refine ⟨readsMapped_mappedText a h128, fun s ⟨m, hs, hm⟩ => ?_⟩
  have hcanonical : canonical (.v6 m) = .v4 a := by simp only [canonical, hm]
  have hnone : Cidr.parse s = none :=
    Cidr.parse_eq_none hs (by omega) (by rw [hcanonical, length_octets_v4]; omega)
  have hself : SharesPrefix (p - 96) (.v4 a) (canonical (.v4 a)) := ⟨rfl, fun _ _ => rfl⟩
  refine ⟨hnone, fun h => ?_, fun h => ?_⟩
  · exact absurd ((h (.v4 a)).mpr hself) (by rw [entryTrusts_of_none hnone]; decide)
  · have hplain := (entryTrusts_dotted a (by omega) (.v4 a)).mpr hself
    rw [← h, entryTrusts_of_none hnone] at hplain
    cases hplain

theorem mapped_range_never_private : Cidr.parse (rangeText (mappedText #v[10, 0, 0, 0]) 104) = none := by
  obtain ⟨hreads, hnever⟩ := mapped_range_never #v[10, 0, 0, 0] (p := 104) (by decide) (by decide)
  exact (hnever _ hreads).1

/-- The entry is dropped, and the plain spelling is not. -/
theorem mapped_range_dropped : (Cidr.parse "::ffff:10.0.0.0/104").isSome = false ∧
    (Cidr.parse "10.0.0.0/8").map (·.contains (.v4 #v[10, 1, 2, 3])) = some true := by
  decide +kernel

end JwtService

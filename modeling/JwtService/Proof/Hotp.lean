import JwtService.Codec.Hotp
import JwtService.Proof.Replay
import JwtService.Proof.Secrets

/-!
# TOTP codes are those of RFC 4226

A MAC has at least 20 bytes and the offset is below 16, so the four bytes are
there (`hotp_eq`). In 32 bits nothing is lost: the sign bit is cleared before
the first shift (`packed_toNat`), and the powers of ten up to the ninth fit
(`hotpChecked_eq`). So `hotp` gives the code of the RFC for every MAC
(`hotp_conforms`).

The number of digits is from 6 to 8 in every configuration (`fromEnv_digits`).
So what level 3 accepts are the codes of the secrets in the windows, and
nothing else (`totp_accepts_iff`).
-/

namespace JwtService

variable {ssl : Hmac} {secret mac : List UInt8} {counter digits : Nat} {d : MessageDigest}

theorem twenty_le_size (d : MessageDigest) : 20 ≤ d.size := by
  cases d <;> decide

/-- The largest offset is 15, and a MAC has at least 20 bytes. -/
theorem offset_in_range (hmac : ssl.mac d secret (toBeBytes counter) = some mac) :
    Hotp.offset mac + 3 < mac.length := by
  have hlen := ssl.size _ _ _ _ hmac
  have hsize := twenty_le_size d
  have hoff := Hotp.offset_lt mac
  omega

theorem code_offset (last : UInt8) : (last &&& 0x0f).toNat = last.toNat % 16 := by
  rw [UInt8.toNat_and]
  exact Nat.and_two_pow_sub_one_eq_mod last.toNat 4

/-! ## The code of a MAC -/

theorem hotp_eq (hmac : ssl.mac d secret (toBeBytes counter) = some mac) :
    hotp ssl secret counter digits d = some (zeroPadded digits (Hotp.number mac % 10 ^ digits)) := by
  have hin := offset_in_range hmac
  have hoff : (mac.getLastD 0 &&& 0x0f).toNat = Hotp.offset mac := code_offset _
  simp only [hotp, hmac, Option.bind_eq_bind, Option.bind_some, hoff, Option.some.injEq]
  rw [List.getD_eq_getElem _ _ (by omega), List.getD_eq_getElem _ _ (by omega),
    List.getD_eq_getElem _ _ (by omega), List.getD_eq_getElem _ _ (by omega), Hotp.number_eq hin]

/-- In 32 bits the bytes are put together as in the numbers: without the sign
bit nothing is shifted out. -/
theorem packed_toNat (b₀ b₁ b₂ b₃ : UInt8) :
    ((b₀.toUInt32 &&& 0x7f) <<< 24 ||| b₁.toUInt32 <<< 16 ||| b₂.toUInt32 <<< 8 |||
        b₃.toUInt32).toNat =
      (b₀.toNat &&& 0x7f) <<< 24 ||| b₁.toNat <<< 16 ||| b₂.toNat <<< 8 ||| b₃.toNat := by
  have h₀ : b₀.toNat &&& 0x7f ≤ 0x7f := Nat.and_le_right
  have h₁ := b₁.toNat_lt
  have h₂ := b₂.toNat_lt
  simp only [UInt32.toNat_or, UInt32.toNat_shiftLeft, UInt32.toNat_and, UInt8.toNat_toUInt32]
  show (b₀.toNat &&& 0x7f) <<< 24 % 2 ^ 32 ||| b₁.toNat <<< 16 % 2 ^ 32 ||| b₂.toNat <<< 8 % 2 ^ 32 |||
    b₃.toNat = _
  simp only [Nat.shiftLeft_eq]
  rw [Nat.mod_eq_of_lt (by omega), Nat.mod_eq_of_lt (by omega), Nat.mod_eq_of_lt (by omega)]

theorem u32Pow_ten (h : digits ≤ 9) : ∃ m, u32Pow 10 digits = some m ∧ m.toNat = 10 ^ digits := by
  have hle : 10 ^ digits ≤ 10 ^ 9 := Nat.pow_le_pow_right (by decide) h
  have hlt : 10 ^ digits < 2 ^ 32 := by omega
  refine ⟨UInt32.ofNat (10 ^ digits), if_pos hlt, ?_⟩
  rw [UInt32.toNat_ofNat', Nat.mod_eq_of_lt hlt]

/-- No index is out of range and no power overflows. -/
theorem hotpChecked_eq (h : digits ≤ 9) :
    hotpChecked ssl secret counter digits d = some (hotp ssl secret counter digits d) := by
  cases hmac : ssl.mac d secret (toBeBytes counter) with
  | none => simp only [hotpChecked, hotp, hmac, Option.bind_eq_bind, Option.bind_none]
  | some mac =>
    have hin := offset_in_range hmac
    obtain ⟨m, hpow, hm⟩ := u32Pow_ten h
    have hlast : mac[mac.length - 1]? = some (mac.getLastD 0) := by
      rw [List.getLastD_eq_getLast?, List.getLast?_eq_getElem?,
        List.getElem?_eq_getElem (by omega), Option.getD_some]
    have hoff : (mac.getLastD 0 &&& 0x0f).toNat = Hotp.offset mac := code_offset _
    rw [hotp_eq hmac]
    simp only [hotpChecked, hmac, hlast, hpow, Option.bind_eq_bind, Option.bind_some, hoff]
    rw [List.getElem?_eq_getElem (by omega), List.getElem?_eq_getElem (by omega),
      List.getElem?_eq_getElem (by omega), List.getElem?_eq_getElem (by omega)]
    simp only [Option.bind_some, UInt32.toNat_mod, packed_toNat, hm, Hotp.number_eq hin]

theorem zeroPadded_isDecimal {n : Nat} (hw : 0 < digits) (hn : n < 10 ^ digits) :
    Hotp.IsDecimal (zeroPadded digits n).toList digits n := by
  rw [zeroPadded, String.toList_ofList]
  exact Hotp.isDecimal_leftpad hw hn

theorem hotp_isDecimal (hmac : ssl.mac d secret (toBeBytes counter) = some mac) (hw : 0 < digits) :
    ∃ code, hotp ssl secret counter digits d = some code ∧
      Hotp.IsDecimal code.toList digits (Hotp.number mac % 10 ^ digits) :=
  ⟨_, hotp_eq hmac, zeroPadded_isDecimal hw (Nat.mod_lt _ (Nat.pow_pos (by decide)))⟩

/-- For every MAC `hotp` neither leaves it nor overflows, and gives the code of
the RFC: so many decimal digits that denote the truncated number modulo the
power of ten. -/
theorem hotp_conforms (hmac : ssl.mac d secret (toBeBytes counter) = some mac) (h6 : 6 ≤ digits)
    (h8 : digits ≤ 8) :
    ∃ code, hotpChecked ssl secret counter digits d = some (some code) ∧
      hotp ssl secret counter digits d = some code ∧
      Hotp.IsDecimal code.toList digits (Hotp.number mac % 10 ^ digits) := by
  obtain ⟨code, hcode, hdec⟩ := hotp_isDecimal hmac (show 0 < digits by omega)
  refine ⟨code, ?_, hcode, hdec⟩
  rw [hotpChecked_eq (by omega), hcode]

/-- The MAC of counter 37037036, whose code of eight digits begins with a zero. -/
def leadingZeroMac : List UInt8 :=
  [39, 140, 2, 229, 54, 16, 248, 76, 64, 189, 145, 53, 172, 212, 16, 16, 18, 65, 10, 20]

def leadingZeroHmac : Hmac where
  mac d _ data := some <|
    if d = .sha1 ∧ data = toBeBytes 37037036 then leadingZeroMac else List.replicate d.size 0
  size d _ data m h := by
    obtain rfl := Option.some.inj h
    split_ifs with hd
    · rw [hd.1]
      rfl
    · exact List.length_replicate

theorem hotp_conforms_leadingZero :
    hotpChecked leadingZeroHmac vectorSecret 37037036 8 .sha1 = some (some "07081804") ∧
      Hotp.IsDecimal "07081804".toList 8 (907081804 % 10 ^ 8) := by
  have hmac : leadingZeroHmac.mac .sha1 vectorSecret (toBeBytes 37037036) = some leadingZeroMac :=
    congrArg some (if_pos ⟨rfl, rfl⟩)
  have hnumber : Hotp.number leadingZeroMac = 907081804 := by decide +kernel
  obtain ⟨code, hchecked, hcode, hdec⟩ := hotp_conforms hmac (show 6 ≤ 8 by decide) (by decide)
  have hvalue : hotp leadingZeroHmac vectorSecret 37037036 8 .sha1 = some "07081804" := by
    rw [hotp_eq hmac, hnumber]
    decide +kernel
  obtain rfl := Option.some.inj (hcode.symm.trans hvalue)
  rw [hnumber] at hdec
  exact ⟨hchecked, hdec⟩

/-! ## What level 3 accepts -/

namespace TotpValidator

variable {v : TotpValidator} {headers : HeaderMap} {code : List UInt8}

/-- The code of RFC 4226 of a secret at a counter, as the bytes of a header. -/
def IsCode (ssl : Hmac) (v : TotpValidator) (code : List UInt8) (c : Nat) : Prop :=
  ∃ secret ∈ v.secrets, ∃ mac, ssl.mac v.digest secret (toBeBytes c) = some mac ∧
    ∃ cs, Hotp.IsDecimal cs v.digits (Hotp.number mac % 10 ^ v.digits) ∧
      code = Text.utf8 (String.ofList cs)

theorem matches_iff {c : Nat} (hw : 0 < v.digits) : v.Matches ssl code c ↔ v.IsCode ssl code c := by
  constructor
  · rintro ⟨secret, hs, text, htext, rfl⟩
    cases hmac : ssl.mac v.digest secret (toBeBytes c) with
    | none => simp [hotp, hmac] at htext
    | some mac =>
      obtain ⟨text', htext', hdec⟩ := hotp_isDecimal hmac hw
      obtain rfl := Option.some.inj (htext'.symm.trans htext)
      exact ⟨secret, hs, mac, hmac, text'.toList, hdec, by rw [String.ofList_toList]⟩
  · rintro ⟨secret, hs, mac, hmac, cs, hdec, rfl⟩
    obtain ⟨text, htext, hdec'⟩ := hotp_isDecimal hmac hw
    exact ⟨secret, hs, text, htext, by rw [hdec.unique hdec', String.ofList_toList]⟩

end TotpValidator

theorem AuthConfig.fromEnv_digits {env : Env} {cfg : AuthConfig} (h : fromEnv env = .ok cfg) :
    6 ≤ cfg.totp.digits ∧ cfg.totp.digits ≤ 8 := by
  simp only [fromEnv] at h
  rw [← readSecrets.eq_def] at h
  obtain ⟨-, h⟩ | ⟨-, h⟩ := ite_eq_iff.mp h
  · cases h
  · split at h
    · cases h
    · obtain rfl := Except.ok.inj h
      simp only
      omega

/-- A service that has started accepts on level 3 the codes of its secrets in
the windows around the current one. -/
theorem totp_accepts_iff {env : Env} {cfg : AuthConfig} (h : AuthConfig.fromEnv env = .ok cfg)
    {headers : HeaderMap} {now : Nat} :
    cfg.authorize ssl .totp headers now = true ↔
      ∃ code, headers.get cfg.totp.header = some code ∧ ∃ c < 2 ^ 64,
        now / cfg.totp.step ≤ c + cfg.totp.skew ∧ c ≤ now / cfg.totp.step + cfg.totp.skew ∧
          cfg.totp.IsCode ssl code c := by
  have hw : 0 < cfg.totp.digits := by
    have := AuthConfig.fromEnv_digits h
    omega
  rw [AuthConfig.authorize]
  cases hc : headers.get cfg.totp.header with
  | none => simp [TotpValidator.validate, hc]
  | some code =>
    rw [TotpValidator.validate_iff hc]
    constructor
    · rintro ⟨c, hwin, hm⟩
      obtain ⟨hlow, hhigh, hlt⟩ := TotpValidator.mem_windows.mp hwin
      exact ⟨code, rfl, c, hlt, hlow, hhigh, (TotpValidator.matches_iff hw).mp hm⟩
    · rintro ⟨code', hcode, c, hlt, hlow, hhigh, hm⟩
      obtain rfl := Option.some.inj hcode
      exact ⟨c, TotpValidator.mem_windows.mpr ⟨hlow, hhigh, hlt⟩, (TotpValidator.matches_iff hw).mpr hm⟩

end JwtService

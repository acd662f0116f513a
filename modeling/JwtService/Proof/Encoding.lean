import Mathlib.Data.List.Forall2
import JwtService.Model.Token

/-!
# What a token carries

A header and claims that were encoded decode to what they were
(`headers_decode`, `claims_decode`), and a token that was signed splits into
the segments it was made of (`toString_segments`). Only the custom claims
may come back changed, where they hold floating-point numbers: of those
`serde_json` does not promise the same bits.
-/

namespace JwtService

/-- Custom claims with no reserved name. -/
def NoReserved (extra : List (String × Json)) : Prop :=
  ∀ f ∈ extra, f.1 ∉ reservedClaims

theorem validateCustomClaims_ok {env : Env} {t : JsonText} {claims : List (String × Json)}
    {u : Unit} (h : validateCustomClaims env t claims = .ok u) : NoReserved claims := by
  intro f hf hr
  simp only [validateCustomClaims] at h
  split at h
  · rename_i he; subst he; simp at hf
  · split at h
    · cases h
    · split at h
      · cases h
      · rename_i hn
        exact hn (List.any_eq_true.mpr ⟨f, hf, by simpa using hr⟩)

/-! ## Fields of an object that was parsed -/

/-- What a printed object and the parsed one have in common. -/
def SameFields (fs gs : List (String × Json)) : Prop :=
  List.Forall₂ (fun f g => f.1 = g.1 ∧ (f.2.exact = true → g.2 = f.2)) fs gs

theorem SameFields.filter {fs gs : List (String × Json)} (h : SameFields fs gs) (name : String) :
    SameFields (fs.filter fun f => f.1 = name) (gs.filter fun f => f.1 = name) := by
  induction h with
  | nil => exact .nil
  | @cons f g fs gs hfg _ ih =>
    simp only [List.filter_cons, decide_eq_true_eq, ← hfg.1]
    split
    · exact .cons hfg ih
    · exact ih

theorem SameFields.singleton {f : String × Json} {gs : List (String × Json)} (h : SameFields [f] gs) :
    ∃ g, gs = [g] ∧ (f.2.exact = true → g.2 = f.2) := by
  obtain ⟨g, gs', hfg, hnil, rfl⟩ := List.forall₂_cons_left_iff.mp h
  rw [List.forall₂_nil_left_iff.mp hnil]
  exact ⟨g, rfl, hfg.2⟩

theorem SameFields.uniqueField {fs gs : List (String × Json)} (h : SameFields fs gs)
    (name : String) {v : Json} (hf : uniqueField fs name = some v) (hv : v.exact = true) :
    uniqueField gs name = some v := by
  have hs := h.filter name
  unfold JwtService.uniqueField at hf ⊢
  split at hf
  · rename_i f he
    rw [he] at hs
    obtain ⟨g, e, hfg⟩ := hs.singleton
    cases hf
    simp only [e, hfg hv]
  · cases hf

theorem SameFields.optionalField {fs gs : List (String × Json)} (h : SameFields fs gs)
    (name : String) {v : Json} (hf : optionalField fs name = some v) (hv : v.exact = true) :
    optionalField gs name = some v := by
  have hs := h.filter name
  unfold JwtService.optionalField at hf ⊢
  split at hf
  · rename_i he
    rw [he] at hs
    simpa only [List.forall₂_nil_left_iff.mp hs] using hf
  · rename_i f he
    rw [he] at hs
    obtain ⟨g, e, hfg⟩ := hs.singleton
    cases hf
    simp only [e, hfg hv]
  · cases hf

theorem exactList_strs (xs : List String) : Json.exactList (xs.map .str) = true := by
  induction xs with
  | nil => rfl
  | cons x xs ih => simp [Json.exactList, Json.exact, ih]

theorem mapM_asStr (xs : List String) : (xs.map Json.str).mapM Json.asStr = some xs := by
  induction xs with
  | nil => rfl
  | cons x xs ih =>
    rw [List.map_cons, List.mapM_cons, ih]; rfl

theorem asUsize_int {n : Nat} (h : n < 2 ^ 64) : Json.asUsize (.int n) = some n := by
  simp only [Json.asUsize]
  rw [if_pos ⟨by omega, by omega⟩, Int.toNat_natCast]

/-! ## Maps -/

/-- The entries of a `serde_json::Map`. -/
def IsMap (m : List (String × Json)) : Prop := m.Pairwise fun f g => f.1 < g.1

theorem mapInsert_last {m : List (String × Json)} {f : String × Json} (h : ∀ g ∈ m, g.1 < f.1) :
    mapInsert m f = m ++ [f] := by
  induction m with
  | nil => rfl
  | cons g m ih =>
    have hg : g.1 < f.1 := h g (List.mem_cons_self ..)
    have hm : mapInsert m f = m ++ [f] := ih fun g' hg' => h g' (List.mem_cons_of_mem _ hg')
    have hne : ¬f.1 = g.1 := fun he => String.lt_irrefl _ (he ▸ hg)
    rw [mapInsert, if_neg (String.lt_asymm hg), if_neg hne, hm, List.cons_append]

/-- The entries of a map, added in their order, make the map. -/
theorem IsMap.foldl_mapInsert {m : List (String × Json)} : ∀ {acc : List (String × Json)},
    IsMap (acc ++ m) → m.foldl mapInsert acc = acc ++ m := by
  induction m with
  | nil =>
    intro acc _
    rw [List.foldl_nil, List.append_nil]
  | cons f m ih =>
    intro acc h
    have hf : mapInsert acc f = acc ++ [f] := mapInsert_last fun g hg =>
      (List.pairwise_append.mp h).2.2 g hg f (List.mem_cons_self ..)
    have hm : acc ++ f :: m = acc ++ [f] ++ m := by
      rw [List.append_assoc, List.singleton_append]
    rw [List.foldl_cons, hf, hm]
    exact ih (hm ▸ h)

/-! ## Claims -/

namespace TokenClaims

theorem field_of_toJson {c : TokenClaims} (hx : NoReserved c.extra) {name : String} {v : Json}
    (hn : name ∈ reservedClaims)
    (h : uniqueField
      [("iss", .str c.iss), ("sub", .str c.sub), ("aud", .arr (c.aud.map .str)), ("exp", .int c.exp),
        ("iat", .int c.iat), ("nbf", .int c.nbf), ("jti", .str c.jti)] name = some v) :
    uniqueField c.toJson name = some v := by
  have he : c.extra.filter (fun f => f.1 = name) = [] := by
    rw [List.filter_eq_nil_iff]
    intro f hf hfn
    rw [decide_eq_true_eq] at hfn
    exact hx f hf (hfn ▸ hn)
  rw [uniqueField, toJson, List.filter_append, he, List.append_nil]
  exact h

theorem ofJson_of_fields {gs : List (String × Json)} {iss sub jti : String} {aud : List String}
    {exp iat nbf : Nat} {a e i b : Json} (hiss : uniqueField gs "iss" = some (.str iss))
    (hsub : uniqueField gs "sub" = some (.str sub)) (haud : uniqueField gs "aud" = some a)
    (hexp : uniqueField gs "exp" = some e) (hiat : uniqueField gs "iat" = some i)
    (hnbf : uniqueField gs "nbf" = some b) (hjti : uniqueField gs "jti" = some (.str jti))
    (ha : a.asStrs = some aud) (he : e.asUsize = some exp) (hi : i.asUsize = some iat)
    (hb : b.asUsize = some nbf) :
    ofJson (.obj gs) = some
      { iss, sub, aud, exp, iat, nbf, jti,
        extra := (gs.filter fun f => ¬ reservedClaims.contains f.1).foldl mapInsert [] } := by
  simp only [ofJson, hiss, hsub, haud, hexp, hiat, hnbf, hjti, Option.bind_eq_bind,
    Option.bind_some, Json.asStr, ha, he, hi, hb]

theorem ofJson_toJson {c : TokenClaims} {gs : List (String × Json)} (hx : NoReserved c.extra)
    (he : c.exp < 2 ^ 64) (hi : c.iat < 2 ^ 64) (hb : c.nbf < 2 ^ 64)
    (h : SameFields c.toJson gs) :
    ∃ c', ofJson (.obj gs) = some c' ∧ c' = { c with extra := c'.extra } := by
  have hf : ∀ name v, name ∈ reservedClaims → v.exact = true → uniqueField
      [("iss", .str c.iss), ("sub", .str c.sub), ("aud", .arr (c.aud.map .str)), ("exp", .int c.exp),
        ("iat", .int c.iat), ("nbf", .int c.nbf), ("jti", .str c.jti)] name = some v →
      uniqueField gs name = some v := fun name v hn hv h' =>
    h.uniqueField name (field_of_toJson hx hn h') hv
  have hiss := hf "iss" (.str c.iss) (by decide) rfl (by simp [uniqueField])
  have hsub := hf "sub" (.str c.sub) (by decide) rfl (by simp [uniqueField])
  have haud := hf "aud" (.arr (c.aud.map .str)) (by decide) (exactList_strs c.aud)
    (by simp [uniqueField])
  have hexp := hf "exp" (.int c.exp) (by decide) rfl (by simp [uniqueField])
  have hiat := hf "iat" (.int c.iat) (by decide) rfl (by simp [uniqueField])
  have hnbf := hf "nbf" (.int c.nbf) (by decide) rfl (by simp [uniqueField])
  have hjti := hf "jti" (.str c.jti) (by decide) rfl (by simp [uniqueField])
  exact ⟨_, ofJson_of_fields hiss hsub haud hexp hiat hnbf hjti (mapM_asStr c.aud)
    (asUsize_int he) (asUsize_int hi) (asUsize_int hb), rfl⟩

/-- Claims that were encoded decode to the claims they were. -/
theorem claims_decode {t : JsonText} (ht : t.Faithful) {c : TokenClaims} {s : String}
    (hx : NoReserved c.extra) (he : c.exp < 2 ^ 64) (hi : c.iat < 2 ^ 64) (hb : c.nbf < 2 ^ 64)
    (h : c.toBase64 t = .ok s) :
    ∃ c', fromBase64 t s = .ok c' ∧ c' = { c with extra := c'.extra } := by
  simp only [toBase64] at h
  split at h
  · cases h
  · rename_i text hp
    cases h
    obtain ⟨gs, hg, hs⟩ := ht _ _ hp
    obtain ⟨c', h₁, h₂⟩ := ofJson_toJson hx he hi hb hs
    refine ⟨c', ?_, h₂⟩
    simp only [fromBase64, String.toList_ofList, Base64Url.decode_encode, Text.fromUtf8_utf8, hg,
      Option.bind_some, h₁]

theorem toBase64_ne_dot {t : JsonText} {c : TokenClaims} {s : String} (h : c.toBase64 t = .ok s) :
    '.' ∉ s.toList := by
  simp only [toBase64] at h
  split at h
  · cases h
  · cases h
    rw [String.toList_ofList]
    exact fun hd => (Base64Url.mem_encode _ hd).ne_dot rfl

end TokenClaims

/-! ## Headers -/

namespace TokenHeaders

theorem ofJson_toJson {h : TokenHeaders} {gs : List (String × Json)}
    (hs : SameFields h.toJson gs) : ofJson (.obj gs) = some h := by
  obtain ⟨alg, kid, typ, jku⟩ := h
  have ha := @SameFields.uniqueField _ _ hs "alg" (.str alg) (by cases jku <;> rfl) rfl
  have hk := @SameFields.uniqueField _ _ hs "kid" (.str kid) (by cases jku <;> rfl) rfl
  have hy := @SameFields.uniqueField _ _ hs "typ" (.str typ) (by cases jku <;> rfl) rfl
  cases jku with
  | none =>
    have hj := @SameFields.optionalField _ _ hs "jku" .null rfl rfl
    simp only [ofJson, ha, hk, hy, hj, Option.bind_eq_bind, Option.bind_some, Json.asStr,
      Json.asOptionStr]
  | some u =>
    have hj := @SameFields.optionalField _ _ hs "jku" (.str u) rfl rfl
    simp only [ofJson, ha, hk, hy, hj, Option.bind_eq_bind, Option.bind_some, Json.asStr,
      Json.asOptionStr]

/-- A header that was encoded decodes to the header it was. -/
theorem headers_decode {t : JsonText} (ht : t.Faithful) {h : TokenHeaders} {s : String}
    (hb : h.toBase64 t = .ok s) : fromBase64 t s = .ok h := by
  simp only [toBase64] at hb
  split at hb
  · cases hb
  · rename_i text hp
    cases hb
    obtain ⟨gs, hg, hs⟩ := ht _ _ hp
    simp only [fromBase64, String.toList_ofList, Base64Url.decode_encode, Text.fromUtf8_utf8, hg,
      Option.bind_some, ofJson_toJson hs]

theorem toBase64_ne_dot {t : JsonText} {h : TokenHeaders} {s : String}
    (hb : h.toBase64 t = .ok s) : '.' ∉ s.toList := by
  simp only [toBase64] at hb
  split at hb
  · cases hb
  · cases hb
    rw [String.toList_ofList]
    exact fun hd => (Base64Url.mem_encode _ hd).ne_dot rfl

end TokenHeaders

/-! ## Tokens -/

/-- The parts of a signed token. -/
theorem toString_segments {libs : Libs} {headers : TokenHeaders} {claims : TokenClaims}
    {key : libs.ssl.PrivateKey} {token : String}
    (h : JsonWebToken.toString libs headers claims key = .ok token) :
    ∃ headers64 claims64 signature, headers.toBase64 libs.json = .ok headers64 ∧
      claims.toBase64 libs.json = .ok claims64 ∧
      libs.ssl.sign (JsonWebToken.digestOf headers.alg) key
        (Text.utf8 (headers64 ++ "." ++ claims64)) = some signature ∧
      Text.split '.' token =
        [headers64, claims64, String.ofList (Base64Url.encode signature)] := by
  simp only [JsonWebToken.toString] at h
  cases hh : headers.toBase64 libs.json with
  | error e => rw [hh] at h; cases h
  | ok headers64 =>
    cases hc : claims.toBase64 libs.json with
    | error e => rw [hh, hc] at h; cases h
    | ok claims64 =>
      rw [hh, hc] at h
      simp only [bind, Except.bind] at h
      split at h
      · cases h
      · rename_i signature hs
        cases h
        refine ⟨_, _, _, rfl, rfl, hs, ?_⟩
        have hd : '.' ∉ Base64Url.encode signature :=
          fun hd => (Base64Url.mem_encode _ hd).ne_dot rfl
        have := Text.split_three (TokenHeaders.toBase64_ne_dot hh) (TokenClaims.toBase64_ne_dot hc) hd
        simpa only [String.ofList_toList] using this

/-- The claims a reader finds in a signed token. -/
theorem claimsSegmentOf_toString {libs : Libs} (ht : libs.json.Faithful) {headers : TokenHeaders}
    {claims : TokenClaims} {key : libs.ssl.PrivateKey} {token : String}
    (hx : NoReserved claims.extra) (he : claims.exp < 2 ^ 64) (hi : claims.iat < 2 ^ 64)
    (hb : claims.nbf < 2 ^ 64) (h : JsonWebToken.toString libs headers claims key = .ok token) :
    ∃ c, JwtManager.claimsSegmentOf libs token = .ok c ∧ c = { claims with extra := c.extra } := by
  obtain ⟨h64, c64, sig, -, hc, -, hs⟩ := toString_segments h
  obtain ⟨c, h₁, h₂⟩ := TokenClaims.claims_decode ht hx he hi hb hc
  refine ⟨c, ?_, h₂⟩
  rw [JwtManager.claimsSegmentOf, hs]
  exact h₁

end JwtService

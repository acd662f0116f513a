import JwtService.Proof.Past

/-!
# What a client can put into a token

The custom claims of a request stand beside the claims the service forms. With
those that pass `validate_custom_claims` each reserved name is in the payload
once, with the value of the service, every custom claim is there beside it, and
decoding takes them apart again (`custom_claims_round_trip`).
-/

namespace JwtService

namespace TokenClaims

/-- The claims the service forms itself. -/
def registered (c : TokenClaims) : List (String × Json) :=
  [("iss", .str c.iss), ("sub", .str c.sub), ("aud", .arr (c.aud.map .str)), ("exp", .int c.exp),
    ("iat", .int c.iat), ("nbf", .int c.nbf), ("jti", .str c.jti)]

theorem registered_names (c : TokenClaims) : c.registered.map Prod.fst = reservedClaims := rfl

/-- What the types of the fields say. -/
structure Typed (c : TokenClaims) : Prop where
  exp : c.exp < 2 ^ 64
  iat : c.iat < 2 ^ 64
  nbf : c.nbf < 2 ^ 64
  extra : IsMap c.extra

end TokenClaims

theorem SameFields.append_inv {fs₁ fs₂ gs : List (String × Json)} (h : SameFields (fs₁ ++ fs₂) gs) :
    ∃ gs₁ gs₂, gs = gs₁ ++ gs₂ ∧ SameFields fs₁ gs₁ ∧ SameFields fs₂ gs₂ := by
  induction fs₁ generalizing gs with
  | nil => exact ⟨[], gs, rfl, .nil, h⟩
  | cons f fs₁ ih =>
    obtain ⟨g, gs', hfg, hrest, rfl⟩ := List.forall₂_cons_left_iff.mp h
    obtain ⟨gs₁, gs₂, rfl, h₁, h₂⟩ := ih hrest
    exact ⟨g :: gs₁, gs₂, rfl, .cons hfg h₁, h₂⟩

theorem SameFields.names {fs gs : List (String × Json)} (h : SameFields fs gs) :
    gs.map Prod.fst = fs.map Prod.fst := by
  induction h with
  | nil => rfl
  | cons hfg _ ih => rw [List.map_cons, List.map_cons, ih, hfg.1]

/-- Without floating-point numbers a parsed object is the printed one. -/
theorem SameFields.eq {fs gs : List (String × Json)} (h : SameFields fs gs)
    (he : ∀ f ∈ fs, f.2.exact = true) : gs = fs := by
  induction h with
  | nil => rfl
  | @cons f g fs gs hfg _ ih =>
    have hv := hfg.2 (he f (List.mem_cons_self ..))
    rw [ih fun f' hf' => he f' (List.mem_cons_of_mem _ hf'), Prod.ext hfg.1 hv.symm]

theorem SameFields.isMap {fs gs : List (String × Json)} (h : SameFields fs gs) (hm : IsMap fs) :
    IsMap gs := by
  have hnames : (fs.map Prod.fst).Pairwise (· < ·) := List.pairwise_map.mpr hm
  rw [← h.names] at hnames
  exact List.pairwise_map.mp hnames

theorem SameFields.noReserved {fs gs : List (String × Json)} (h : SameFields fs gs)
    (hr : NoReserved fs) : NoReserved gs := by
  intro g hg hres
  have hname : g.1 ∈ gs.map Prod.fst := List.mem_map_of_mem hg
  rw [h.names] at hname
  obtain ⟨f, hf, he⟩ := List.mem_map.mp hname
  exact hr f hf (he ▸ hres)

/-- An entry of an object in which no name is there twice. -/
theorem uniqueField_of_mem {fs : List (String × Json)} {f : String × Json}
    (hn : (fs.map Prod.fst).Nodup) (hf : f ∈ fs) : uniqueField fs f.1 = some f.2 := by
  suffices h : fs.filter (fun g => g.1 = f.1) = [f] by rw [uniqueField, h]
  induction fs with
  | nil => exact absurd hf (List.not_mem_nil)
  | cons g fs ih =>
    obtain ⟨hg, hfs⟩ := List.nodup_cons.mp hn
    rcases List.mem_cons.mp hf with rfl | hmem
    · have hrest : fs.filter (fun g => g.1 = f.1) = [] := by
        rw [List.filter_eq_nil_iff]
        intro g' hg' he
        apply hg
        rw [← of_decide_eq_true he]
        exact List.mem_map_of_mem hg'
      rw [List.filter_cons_of_pos (by simp), hrest]
    · have hne : ¬g.1 = f.1 := fun he => hg (he ▸ List.mem_map_of_mem hmem)
      rw [List.filter_cons_of_neg (by simpa using hne)]
      exact ih hfs hmem

namespace TokenClaims

variable {c : TokenClaims} {x : List (String × Json)}

theorem registered_exact (c : TokenClaims) : ∀ f ∈ c.registered, f.2.exact = true := by
  simp only [registered, List.forall_mem_cons]
  exact ⟨rfl, rfl, exactList_strs c.aud, rfl, rfl, rfl, rfl, by exact nofun⟩

/-- No name is in the payload twice. -/
theorem payload_names (hm : IsMap x) (hr : NoReserved x) :
    ((c.registered ++ x).map Prod.fst).Nodup := by
  rw [List.map_append, registered_names, List.nodup_append]
  refine ⟨by decide, ?_, ?_⟩
  · apply List.Pairwise.imp _ (List.pairwise_map.mpr hm)
    rintro a b hab rfl
    exact String.lt_irrefl _ hab
  · rintro a ha b hb rfl
    obtain ⟨f, hf, rfl⟩ := List.mem_map.mp hb
    exact hr f hf ha

/-- Decoding takes the custom claims apart from those of the service. -/
theorem ofJson_payload (hc : c.Typed) (hm : IsMap x) (hr : NoReserved x) :
    ofJson (.obj (c.registered ++ x)) = some { c with extra := x } := by
  have hf : ∀ f ∈ c.registered, uniqueField (c.registered ++ x) f.1 = some f.2 := fun f hf =>
    uniqueField_of_mem (payload_names hm hr) (List.mem_append_left _ hf)
  simp only [registered, List.forall_mem_cons] at hf
  obtain ⟨hiss, hsub, haud, hexp, hiat, hnbf, hjti, -⟩ := hf
  have hextra : (c.registered ++ x).filter (fun f => ¬reservedClaims.contains f.1) = x := by
    have hx : ∀ f ∈ x, decide (¬reservedClaims.contains f.1) = true := by
      intro f hf
      rw [decide_eq_true_eq, List.contains_iff_mem]
      exact hr f hf
    rw [List.filter_append, List.filter_eq_self.mpr hx]
    rfl
  have hfold := ofJson_of_fields hiss hsub haud hexp hiat hnbf hjti (mapM_asStr c.aud)
    (asUsize_int hc.exp) (asUsize_int hc.iat) (asUsize_int hc.nbf)
  have hmap : x.foldl mapInsert [] = x := @IsMap.foldl_mapInsert x [] hm
  rw [← registered, hextra, hmap] at hfold
  exact hfold

/-- Custom claims that pass the check: in the payload every name of the service
and of the client is there once, with its value, and decoding gives the claims
back. -/
theorem custom_claims_round_trip {env : Env} {t : JsonText} (ht : t.Faithful)
    (hp : ∀ j, (t.print j).isSome) (hc : c.Typed) (hv : validateCustomClaims env t c.extra = .ok ()) :
    ∃ s text x, c.toBase64 t = .ok s ∧ Base64Url.decode s.toList = some (Text.utf8 text) ∧
      t.parse text = some (.obj (c.registered ++ x)) ∧ SameFields c.extra x ∧
      (∀ f ∈ c.registered ++ x, uniqueField (c.registered ++ x) f.1 = some f.2) ∧
      fromBase64 t s = .ok { c with extra := x } ∧
      ((∀ f ∈ c.extra, f.2.exact = true) → fromBase64 t s = .ok c) := by
  obtain ⟨text, htext⟩ := Option.isSome_iff_exists.mp (hp (.obj c.toJson))
  obtain ⟨gs, hparse, hsame⟩ := ht _ _ htext
  obtain ⟨gs₁, x, rfl, h₁, hx⟩ := @SameFields.append_inv c.registered c.extra gs hsame
  cases h₁.eq c.registered_exact
  have hm := hx.isMap hc.extra
  have hr := hx.noReserved (validateCustomClaims_ok hv)
  have hdec : Base64Url.decode (String.ofList (Base64Url.encode (Text.utf8 text))).toList =
      some (Text.utf8 text) := by
    rw [String.toList_ofList, Base64Url.decode_encode]
  have hback : fromBase64 t (String.ofList (Base64Url.encode (Text.utf8 text))) =
      .ok { c with extra := x } := by
    simp only [fromBase64, hdec, Text.fromUtf8_utf8, hparse, Option.bind_some, ofJson_payload hc hm hr]
  refine ⟨_, text, x, ?_, hdec, hparse, hx, ?_, hback, ?_⟩
  · rw [toBase64, htext]
  · intro f hf
    exact uniqueField_of_mem (payload_names hm hr) hf
  · intro he
    rw [hback, hx.eq he]

theorem custom_claims_round_trip_role : ∃ s,
    (newClaims "host" "user" ["api"] 0 60 uuidA [("level", .int 3), ("role", .str "admin")]).toBase64
      .compact = .ok s ∧
    fromBase64 .compact s =
      .ok (newClaims "host" "user" ["api"] 0 60 uuidA [("level", .int 3), ("role", .str "admin")]) := by
  obtain ⟨s, -, -, hs, -, -, -, -, -, hback⟩ := @custom_claims_round_trip
    (newClaims "host" "user" ["api"] 0 60 uuidA [("level", .int 3), ("role", .str "admin")]) bareEnv
    .compact JsonText.compact_faithful (fun _ => rfl)
    ⟨by decide, by decide, by decide, List.pairwise_pair.mpr (by decide)⟩ rfl
  refine ⟨s, hs, hback ?_⟩
  simp only [newClaims, List.forall_mem_cons]
  exact ⟨rfl, rfl, by exact nofun⟩

end TokenClaims

end JwtService

import JwtService.Model.Store

/-!
# The key namespaces

The keys of the store fall into five namespaces that share one key space:
bare UUIDs, and the keys under `group:sub:`, `group:family:`, `refresh:` and
`totp:used:`, whatever stands after the prefix. No key is in two of them, and
in each the key determines what it was built from. A `Credential` is what a
UUID is drawn for: the `jti` of an access token or the id of a refresh token.
-/

namespace JwtService

/-- A key with a colon is not a UUID. -/
theorem isUuid_append {p s : String} (hp : ':' ∈ p.toList) : Text.isUuid (p ++ s) = false := by
  rw [Bool.eq_false_iff]
  intro h
  refine Text.colon_not_mem_uuid h ?_
  rw [String.toList_append]
  exact List.mem_append_left _ hp

theorem not_uuid_subject (s : String) : Text.isUuid (subjectGroup s) = false :=
  isUuid_append (by decide)

theorem not_uuid_family (f : String) : Text.isUuid (familyGroup f) = false :=
  isUuid_append (by decide)

theorem not_uuid_refresh (id : String) : Text.isUuid (refreshKey id) = false :=
  isUuid_append (by decide)

theorem not_uuid_totp (hash : String) : Text.isUuid (totpCodeKey hash) = false :=
  isUuid_append (by decide)

/-- Two keys whose prefixes differ at a place both have. -/
theorem append_ne {p q : String} (s t : String) (n : Nat) (h : p.toList[n]? ≠ q.toList[n]?)
    (hp : n < p.toList.length) (hq : n < q.toList.length) : p ++ s ≠ q ++ t := by
  intro e
  have e' := congrArg (fun x => x.toList[n]?) e
  simp only [String.toList_append] at e'
  rw [List.getElem?_append_left hp, List.getElem?_append_left hq] at e'
  exact h e'

theorem subject_ne_family (s f : String) : subjectGroup s ≠ familyGroup f :=
  append_ne s f 6 (by decide) (by decide) (by decide)

theorem subject_ne_refresh (s id : String) : subjectGroup s ≠ refreshKey id :=
  append_ne s id 0 (by decide) (by decide) (by decide)

theorem subject_ne_totp (s hash : String) : subjectGroup s ≠ totpCodeKey hash :=
  append_ne s hash 0 (by decide) (by decide) (by decide)

theorem family_ne_refresh (f id : String) : familyGroup f ≠ refreshKey id :=
  append_ne f id 0 (by decide) (by decide) (by decide)

theorem family_ne_totp (f hash : String) : familyGroup f ≠ totpCodeKey hash :=
  append_ne f hash 0 (by decide) (by decide) (by decide)

theorem refresh_ne_totp (id hash : String) : refreshKey id ≠ totpCodeKey hash :=
  append_ne id hash 0 (by decide) (by decide) (by decide)

theorem append_inj {p s t : String} (h : p ++ s = p ++ t) : s = t := by
  have h' := congrArg String.toList h
  rw [String.toList_append, String.toList_append] at h'
  exact String.toList_inj.mp (List.append_cancel_left h')

theorem subjectGroup_inj {s t : String} (h : subjectGroup s = subjectGroup t) : s = t :=
  append_inj h

theorem familyGroup_inj {f g : String} (h : familyGroup f = familyGroup g) : f = g := append_inj h

theorem refreshKey_inj {i j : String} (h : refreshKey i = refreshKey j) : i = j := append_inj h

theorem totpCodeKey_inj {a b : String} (h : totpCodeKey a = totpCodeKey b) : a = b := append_inj h

/-! ## Credentials -/

/-- What a UUID is drawn for. -/
inductive Credential where
  | access (jti : String)
  | refresh (id : String)
deriving DecidableEq, Repr

namespace Credential

def uuid : Credential → String
  | .access jti => jti
  | .refresh id => id

/-- The key the store keeps the credential under. -/
def key : Credential → String
  | .access jti => jti
  | .refresh id => refreshKey id

theorem key_inj {c d : Credential} (hc : Text.isUuid c.uuid = true) (hd : Text.isUuid d.uuid = true)
    (h : c.key = d.key) : c = d := by
  cases c with
  | access j =>
    cases d with
    | access k => exact congrArg _ h
    | refresh id =>
      have e : j = refreshKey id := h
      rw [show (Credential.access j).uuid = j from rfl, e, not_uuid_refresh] at hc
      cases hc
  | refresh i =>
    cases d with
    | access k =>
      have e : refreshKey i = k := h
      rw [show (Credential.access k).uuid = k from rfl, ← e, not_uuid_refresh] at hd
      cases hd
    | refresh id => exact congrArg _ (refreshKey_inj h)

/-- A credential is kept outside the two kinds of groups. -/
theorem key_ne_subject {c : Credential} (hc : Text.isUuid c.uuid = true) (s : String) :
    c.key ≠ subjectGroup s := by
  cases c with
  | access j =>
    intro e
    have hj : Text.isUuid j = true := hc
    rw [show j = subjectGroup s from e, not_uuid_subject] at hj
    cases hj
  | refresh id => exact (subject_ne_refresh s id).symm

theorem key_ne_family {c : Credential} (hc : Text.isUuid c.uuid = true) (f : String) :
    c.key ≠ familyGroup f := by
  cases c with
  | access j =>
    intro e
    have hj : Text.isUuid j = true := hc
    rw [show j = familyGroup f from e, not_uuid_family] at hj
    cases hj
  | refresh id => exact (family_ne_refresh f id).symm

theorem key_ne_totp {c : Credential} (hc : Text.isUuid c.uuid = true) (hash : String) :
    c.key ≠ totpCodeKey hash := by
  cases c with
  | access j =>
    intro e
    have hj : Text.isUuid j = true := hc
    rw [show j = totpCodeKey hash from e, not_uuid_totp] at hj
    cases hj
  | refresh id => exact refresh_ne_totp id hash

end Credential

end JwtService

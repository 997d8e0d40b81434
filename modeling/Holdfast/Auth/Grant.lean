/-
  Holdfast.Auth.Grant — connection grants (`crates/auth/src/grant.rs`).

  A grant is `base64url(claims_json) "." base64url(ed25519_sig)`. Base64, ed25519 and JSON
  are parameters (`GrantVerifier`); what is modelled is what `verify` makes of them.

  Proved:
  - `verify_ok`: an accepted grant is signed, names this audience, has not expired and was
    not issued more than the tolerated skew ahead of the clock.
  - `verify_text`: and such a grant is accepted.
-/

import Mathlib.Data.List.TakeDrop
import Mathlib.Data.Option.Basic
import Mathlib.Tactic

namespace Holdfast.Auth

structure GrantClaims where
  /-- Authenticated user id. -/
  sub : String
  aud : String
  servers : List String
  /-- Empty: all operations. -/
  ops : List String
  iatMs : Int
  expMs : Int
  jti : String
  deriving DecidableEq, Repr

inductive GrantError where
  | malformed
  | badSignature
  | wrongAudience (found expected : String)
  | expired (expiresAtMs nowMs : Int)
  | notYetValid (issuedAtMs nowMs : Int)
  deriving DecidableEq, Repr

def GrantClaims.permits (c : GrantClaims) (op : String) : Bool := c.ops.isEmpty || c.ops.contains op

/-- The public key and the codecs around it. -/
structure GrantVerifier where
  decode : String → Option (List UInt8)
  /-- Signature bytes are 64. -/
  verifies : List UInt8 → List UInt8 → Bool
  parseClaims : List UInt8 → Option GrantClaims

/-- `i64::saturating_add`. -/
def saturatingAdd (a b : Int) : Int := max (-(2 ^ 63)) (min (2 ^ 63 - 1) (a + b))

/-- `str::split_once`. -/
def splitOnce (s : String) (c : Char) : Option (String × String) :=
  match s.toList.span (· != c) with
  | (_, []) => none
  | (before, _ :: after) => some (String.ofList before, String.ofList after)

theorem splitOnce_append {a : String} (b : String) {c : Char} (h : c ∉ a.toList) :
    splitOnce (a ++ String.singleton c ++ b) c = some (a, b) := by
  have hne : ∀ x ∈ a.toList, (x != c) = true := by
    intro x hx
    rw [bne_iff_ne]
    rintro rfl
    exact h hx
  unfold splitOnce
  rw [List.span_eq_takeWhile_dropWhile, String.toList_append, String.toList_append, List.append_assoc,
    List.takeWhile_append_of_pos hne, List.dropWhile_append_of_pos hne]
  simp

/-- Small clock-skew tolerance. -/
def clockSkewMs : Int := 60000

def GrantVerifier.verify (K : GrantVerifier) (grant expectedAudience : String) (nowMs : Int) :
    Except GrantError GrantClaims :=
  match splitOnce grant '.' with
  | none => .error .malformed
  | some (payload64, sig64) =>
    match K.decode payload64, K.decode sig64 with
    | none, _ => .error .malformed
    | some _, none => .error .malformed
    | some payload, some sig =>
      if sig.length ≠ 64 then .error .malformed
      else if K.verifies payload sig = false then .error .badSignature
      else
        match K.parseClaims payload with
        | none => .error .malformed
        | some claims =>
          if claims.aud ≠ expectedAudience then .error (.wrongAudience claims.aud expectedAudience)
          else if nowMs ≥ claims.expMs then .error (.expired claims.expMs nowMs)
          else if saturatingAdd nowMs clockSkewMs < claims.iatMs then .error (.notYetValid claims.iatMs nowMs)
          else .ok claims

/-- `ConnectionGrant::from_wire`: UTF-8 text. -/
def grantFromWire (bytes : List UInt8) : Option String := String.fromUTF8? ⟨bytes.toArray⟩

theorem grantFromWire_text (s : String) : grantFromWire s.toByteArray.data.toList = some s := by
  show String.fromUTF8? s.toByteArray = some s
  unfold String.fromUTF8?
  rw [dif_pos s.isValidUTF8]
  rfl

/-- The claims are signed by the issuer's key. -/
def GrantVerifier.Signed (K : GrantVerifier) (claims : GrantClaims) : Prop :=
  ∃ payload sig, sig.length = 64 ∧ K.verifies payload sig = true ∧ K.parseClaims payload = some claims

/-- What makes a grant good for this audience at this time. -/
structure GrantVerifier.Good (K : GrantVerifier) (audience : String) (nowMs : Int) (claims : GrantClaims) : Prop where
  signed : K.Signed claims
  aud : claims.aud = audience
  notExpired : nowMs < claims.expMs
  notEarly : claims.iatMs ≤ saturatingAdd nowMs clockSkewMs

theorem GrantVerifier.verify_ok {K : GrantVerifier} {grant audience : String} {nowMs : Int} {claims : GrantClaims}
    (h : K.verify grant audience nowMs = .ok claims) : K.Good audience nowMs claims := by
  unfold verify at h
  split at h
  · cases h
  · split at h
    · cases h
    · cases h
    · rename_i payload sig _ _
      split at h
      · cases h
      · rename_i hlen
        split at h
        · cases h
        · rename_i hver
          split at h
          · cases h
          · rename_i parsed hparse
            split at h
            · cases h
            · rename_i haud
              split at h
              · cases h
              · rename_i hexp
                split at h
                · cases h
                · rename_i hiat
                  cases h
                  have hsigned : K.verifies payload sig = true := by simpa using hver
                  exact ⟨⟨payload, sig, not_not.mp hlen, hsigned, hparse⟩, not_not.mp haud, by omega, by omega⟩

/-- A grant that is good is accepted. -/
theorem GrantVerifier.verify_text {K : GrantVerifier} {payload64 sig64 audience : String} {payload sig : List UInt8}
    {nowMs : Int} {claims : GrantClaims} (hdot : '.' ∉ payload64.toList) (hpayload : K.decode payload64 = some payload)
    (hsig : K.decode sig64 = some sig) (hlen : sig.length = 64) (hverifies : K.verifies payload sig = true)
    (hparse : K.parseClaims payload = some claims) (haud : claims.aud = audience) (hexp : nowMs < claims.expMs)
    (hiat : claims.iatMs ≤ saturatingAdd nowMs clockSkewMs) :
    K.verify (payload64 ++ String.singleton '.' ++ sig64) audience nowMs = .ok claims := by
  unfold verify
  rw [splitOnce_append _ hdot]
  simp only [hpayload, hsig, hverifies, hparse]
  rw [if_neg (not_not.mpr hlen), if_neg (by simp), if_neg (not_not.mpr haud), if_neg (by omega), if_neg (by omega)]

end Holdfast.Auth

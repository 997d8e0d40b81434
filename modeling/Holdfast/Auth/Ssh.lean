/-
  Holdfast.Auth.Ssh — SSH public-key challenge and response (`crates/auth/src/ssh.rs`).

  Parsing of keys and signatures and the signature check itself are parameters
  (`SshPrimitives`). A security key's signature ends in a flags byte and a counter; a
  signature that does not prove user presence is refused.

  Proved:
  - `verifyResponse_ok`: an accepted response is a signature, in this protocol's namespace,
    by an authorised key over the channel-bound challenge.
-/

import Mathlib.Data.List.Basic

namespace Holdfast.Auth

def sshNamespace : String := "holdfast-auth@v0"

/-- Flags byte and big-endian counter. -/
def skSignatureTrailer : Nat := 5
def fidoFlagUserPresent : UInt8 := 0x01
def fidoFlagUserVerified : UInt8 := 0x04

inductive Algorithm where
  | ed25519
  | rsa
  | ecdsa
  | skEd25519
  | skEcdsaSha2NistP256
  | other
  deriving DecidableEq, Repr

structure KeyData where
  algorithm : Algorithm
  material : List UInt8
  deriving DecidableEq, Repr

structure SshSig where
  namespaceText : String
  publicKey : KeyData
  signatureBytes : List UInt8
  deriving DecidableEq, Repr

structure SshPrimitives where
  /-- `PublicKey::from_openssh` of the offered text. -/
  fromOpenssh : List UInt8 → Option KeyData
  fromPem : List UInt8 → Option SshSig
  verify : KeyData → String → List UInt8 → SshSig → Bool

inductive SshError where
  | noAuthorizedKeys
  | keyNotAuthorized
  | malformedKey
  | malformedSignature
  | badSignature
  | challengeMismatch
  | userPresenceMissing
  deriving DecidableEq, Repr

structure SshVerifier where
  authorized : List KeyData
  deriving DecidableEq, Repr

structure VerifiedIdentity where
  key : KeyData
  /-- Of a security key: whether the human was verified. -/
  securityKey : Option Bool
  deriving DecidableEq, Repr

def isSecurityKey (key : KeyData) : Bool := key.algorithm == .skEd25519 || key.algorithm == .skEcdsaSha2NistP256

def skFlags (sig : SshSig) : Except SshError UInt8 :=
  if sig.signatureBytes.length < skSignatureTrailer then .error .malformedSignature
  else
    match sig.signatureBytes[sig.signatureBytes.length - skSignatureTrailer]? with
    | some flags => .ok flags
    | none => .error .malformedSignature

/-- The exact bytes a client signs: the TLS channel binding, then the nonce. -/
def channelBoundMessage (channelBinding challenge : List UInt8) : List UInt8 := channelBinding ++ challenge

namespace SshVerifier

variable (P : SshPrimitives)

/-- Key material is compared, not comments. -/
def isAuthorized (v : SshVerifier) (offered : List UInt8) : Except SshError Unit :=
  match P.fromOpenssh offered with
  | none => .error .malformedKey
  | some key => if key ∈ v.authorized then .ok () else .error .keyNotAuthorized

/-- The authenticator flags, once the signature that covers them is verified. -/
def attestation (sig : SshSig) : Except SshError (Option Bool) :=
  if isSecurityKey sig.publicKey then
    match skFlags sig with
    | .error e => .error e
    | .ok flags =>
      if flags &&& fidoFlagUserPresent = 0 then .error .userPresenceMissing
      else .ok (some (flags &&& fidoFlagUserVerified != 0))
  else .ok none

def verifyResponse (v : SshVerifier) (channelBinding challenge signaturePem : List UInt8) :
    Except SshError VerifiedIdentity :=
  match P.fromPem signaturePem with
  | none => .error .malformedSignature
  | some sig =>
    if sig.namespaceText ≠ sshNamespace then .error .badSignature
    else if sig.publicKey ∉ v.authorized then .error .keyNotAuthorized
    else if P.verify sig.publicKey sshNamespace (channelBoundMessage channelBinding challenge) sig = false then
      .error .badSignature
    else
      match attestation sig with
      | .error e => .error e
      | .ok a => .ok ⟨sig.publicKey, a⟩

variable {P}

theorem verifyResponse_ok {v : SshVerifier} {channelBinding challenge pem : List UInt8} {id : VerifiedIdentity}
    (h : v.verifyResponse P channelBinding challenge pem = .ok id) :
    ∃ sig, P.fromPem pem = some sig ∧ sig.publicKey ∈ v.authorized ∧
      P.verify sig.publicKey sshNamespace (channelBoundMessage channelBinding challenge) sig = true := by
  unfold verifyResponse at h
  split at h
  · cases h
  · rename_i sig hsig
    split at h
    · cases h
    · split at h
      · cases h
      · rename_i hauth
        split at h
        · cases h
        · rename_i hver
          exact ⟨sig, hsig, not_not.mp hauth, by simpa using hver⟩

end SshVerifier

end Holdfast.Auth

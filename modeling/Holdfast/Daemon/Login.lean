/-
  Holdfast.Daemon.Login — authentication of one connection (`handle_authenticate`,
  `succeed_issuing_grant` and `fail_auth` of `crates/daemon/src/conn.rs` over `AuthState` of
  `crates/daemon/src/auth.rs`).

  `Identity` holds the fields of `Conn` that authentication sets. The rate limiter is shared
  with every other connection from the address, so its answer is an input; so are the
  clock, the drawn challenge and token id, and the password verifier's answer.

  Proved:
  - `handleAuthenticate_cases`: what an `Authenticate` can do to the identity, once for all
    methods: nothing, issue a challenge, use one up, or log in by one of the four ways.
-/

import Holdfast.Auth.Grant
import Holdfast.Auth.Ssh
import Holdfast.Daemon.Wire

namespace Holdfast.Daemon

open Holdfast.Auth

def maxUsernameBytes : Nat := 128
def maxPasswordBytes : Nat := 1024

/-- How the daemon authenticates clients. -/
inductive AuthMode where
  | devInsecure
  | sshKeys (users : String → Option SshVerifier)

structure AuthState where
  mode : AuthMode
  /-- Users allowed to log in by password; `none` is key-only. -/
  password : Option (List String)
  grantVerifier : GrantVerifier
  /-- `GrantSigner::issue`, as bytes on the wire. -/
  issue : GrantClaims → List UInt8
  audience : String
  ssh : SshPrimitives

def AuthState.sshVerifier (A : AuthState) (username : String) : Option SshVerifier :=
  match A.mode with
  | .sshKeys users => users username
  | .devInsecure => none

def AuthState.keyAuthorized (A : AuthState) (username : String) (publicKey : List UInt8) : Bool :=
  match A.sshVerifier username with
  | none => false
  | some v => (v.isAuthorized A.ssh publicKey).isOk

def AuthState.verified (A : AuthState) (channelBinding : List UInt8) (username : String)
    (challenge signature : List UInt8) : Option VerifiedIdentity :=
  (A.sshVerifier username).bind fun v => (v.verifyResponse A.ssh channelBinding challenge signature).toOption

/-- A password verifier is there for allowlisted usernames only. -/
def AuthState.passwordAllowed (A : AuthState) (username : String) : Bool :=
  (A.password.map (·.contains username)).getD false

theorem AuthState.verified_some {A : AuthState} {channelBinding : List UInt8} {username : String}
    {challenge signature : List UInt8} {id : VerifiedIdentity}
    (h : A.verified channelBinding username challenge signature = some id) :
    ∃ v sig, A.sshVerifier username = some v ∧ A.ssh.fromPem signature = some sig ∧ sig.publicKey ∈ v.authorized ∧
      A.ssh.verify sig.publicKey sshNamespace (channelBoundMessage channelBinding challenge) sig = true := by
  obtain ⟨v, hv, hid⟩ := Option.bind_eq_some_iff.mp h
  cases hr : v.verifyResponse A.ssh channelBinding challenge signature with
  | error e =>
    rw [hr] at hid
    cases hid
  | ok id' =>
    obtain ⟨sig, hsig, hkey, hverify⟩ := SshVerifier.verifyResponse_ok hr
    exact ⟨v, sig, hv, hsig, hkey, hverify⟩

inductive AuthMethod where
  | connectionGrant (bytes : List UInt8)
  | sshChallengeRequest (username : String) (publicKey : List UInt8)
  | sshChallengeResponse (challenge signature : List UInt8)
  | passwordRequest (username password : String)
  deriving DecidableEq, Repr

structure AuthenticationResult where
  ok : Bool
  userId : String
  expiresAtMs : Int
  errorCode : Option ErrorCode
  errorMessage : String
  challenge : List UInt8
  deriving DecidableEq, Repr

def authOk (userId : String) (expiresAtMs : Int) : AuthenticationResult := ⟨true, userId, expiresAtMs, none, "", []⟩

def authFailure (code : ErrorCode) (message : String) : AuthenticationResult := ⟨false, "", 0, some code, message, []⟩

/-- What the outside answers during one `Authenticate`. -/
structure AuthEnv where
  /-- `rate_limiter.check`. -/
  admitted : Bool
  nowMs : Int
  challenge : Vector UInt8 32
  /-- The verifier's answer, if it is asked. -/
  password : Bool
  jti : String

/-- The fields of `Conn` that authentication sets. -/
structure Identity where
  authenticated : Bool
  userId : String
  /-- `none` is unrestricted. -/
  opScope : Option (List String)
  /-- Username and challenge of the request that is waiting for its response. -/
  pendingChallenge : Option (String × List UInt8)
  deriving DecidableEq, Repr

/-- The claims of the grant that an `Authenticate` presents, if it is accepted. -/
def AuthState.acceptedGrant (A : AuthState) (method : Option AuthMethod) (env : AuthEnv) : Option GrantClaims :=
  match A.mode, method with
  | .sshKeys _, some (.connectionGrant bytes) =>
    if env.admitted then (grantFromWire bytes).bind fun grant => (A.grantVerifier.verify grant A.audience env.nowMs).toOption
    else none
  | _, _ => none

theorem AuthState.acceptedGrant_method {A : AuthState} {method : Option AuthMethod} {env : AuthEnv} {claims : GrantClaims}
    (h : A.acceptedGrant method env = some claims) : ∃ bytes, method = some (.connectionGrant bytes) := by
  unfold acceptedGrant at h
  split at h
  · exact ⟨_, rfl⟩
  · cases h

namespace Identity

def initial : Identity := ⟨false, "", none, none⟩

def permits (i : Identity) (op : String) : Bool := (i.opScope.map (·.contains op)).getD true

variable (A : AuthState) (channelBinding : List UInt8)

def failAuth (i : Identity) (message : String) : Identity × AuthenticationResult :=
  (i, authFailure .errUnauthenticated message)

/-- The scope is left as it is. -/
def succeedIssuingGrant (i : Identity) (username : String) (env : AuthEnv) : Identity × AuthenticationResult :=
  let expMs := saturatingAdd env.nowMs (12 * 3600 * 1000)
  ({ i with authenticated := true, userId := username },
    { authOk username expMs with
      challenge := A.issue ⟨username, A.audience, [], [], env.nowMs, expMs, env.jti⟩ })

def presentGrant (i : Identity) (bytes : List UInt8) (env : AuthEnv) : Identity × AuthenticationResult :=
  match grantFromWire bytes with
  | none => i.failAuth "malformed grant"
  | some grant =>
    match A.grantVerifier.verify grant A.audience env.nowMs with
    | .error _ => i.failAuth "invalid grant"
    | .ok claims =>
      ({ i with
          authenticated := true
          userId := claims.sub
          opScope := if claims.ops.isEmpty then none else some claims.ops },
        authOk claims.sub claims.expMs)

def requestChallenge (i : Identity) (username : String) (publicKey : List UInt8) (env : AuthEnv) :
    Identity × AuthenticationResult :=
  if A.keyAuthorized username publicKey then
    ({ i with pendingChallenge := some (username, env.challenge.toList) }, ⟨false, "", 0, none, "", env.challenge.toList⟩)
  -- does not reveal whether the user or the key was unknown
  else i.failAuth "authentication failed"

def respondChallenge (i : Identity) (challenge signature : List UInt8) (env : AuthEnv) :
    Identity × AuthenticationResult :=
  match i.pendingChallenge with
  | none => i.failAuth "no challenge in progress"
  | some (username, expected) =>
    let i := { i with pendingChallenge := none }
    if challenge ≠ expected then i.failAuth "challenge mismatch"
    else
      match A.verified channelBinding username expected signature with
      | some _ => i.succeedIssuingGrant A username env
      | none => i.failAuth "authentication failed"

/-- The verifier is asked only about an allowlisted user within the bounds. -/
def passwordAccepted (username password : String) (env : AuthEnv) : Bool :=
  A.passwordAllowed username && !username.isEmpty && decide (username.utf8ByteSize ≤ maxUsernameBytes) &&
    !password.isEmpty && decide (password.utf8ByteSize ≤ maxPasswordBytes) && env.password

def presentPassword (i : Identity) (username password : String) (env : AuthEnv) : Identity × AuthenticationResult :=
  if passwordAccepted A username password env then i.succeedIssuingGrant A username env
  else i.failAuth "authentication failed"

def handleAuthenticate (i : Identity) (method : Option AuthMethod) (env : AuthEnv) : Identity × AuthenticationResult :=
  if env.admitted = false then (i, authFailure .errLimitExceeded "too many attempts")
  else
    match A.mode with
    -- accept anything (loopback-only, enforced at startup)
    | .devInsecure => ({ i with authenticated := true, userId := "dev" }, authOk "dev" 0)
    | .sshKeys _ =>
      match method with
      | some (.connectionGrant bytes) => i.presentGrant A bytes env
      | some (.sshChallengeRequest username publicKey) => i.requestChallenge A username publicKey env
      | some (.sshChallengeResponse challenge signature) => i.respondChallenge A channelBinding challenge signature env
      | some (.passwordRequest username password) => i.presentPassword A username password env
      | none => i.failAuth "no authentication method"

/-! ## What a login can be -/

/-- A login as `user`: by development mode, a good grant, a signature over the pending
    challenge, or an accepted password. -/
inductive Login (i : Identity) (method : Option AuthMethod) (env : AuthEnv) : Identity → Prop where
  | dev (h : A.mode matches .devInsecure) : Login i method env { i with authenticated := true, userId := "dev" }
  | grant (claims : GrantClaims) (hm : A.acceptedGrant method env = some claims)
      (hgood : A.grantVerifier.Good A.audience env.nowMs claims) :
      Login i method env
        { i with
          authenticated := true
          userId := claims.sub
          opScope := if claims.ops.isEmpty then none else some claims.ops }
  | ssh (username : String) (challenge signature : List UInt8) (v : SshVerifier) (sig : SshSig)
      (hm : method = some (.sshChallengeResponse challenge signature))
      (hpending : i.pendingChallenge = some (username, challenge)) (hv : A.sshVerifier username = some v)
      (hsig : A.ssh.fromPem signature = some sig) (hkey : sig.publicKey ∈ v.authorized)
      (hverify : A.ssh.verify sig.publicKey sshNamespace (channelBoundMessage channelBinding challenge) sig = true) :
      Login i method env { i with pendingChallenge := none, authenticated := true, userId := username }
  | password (username password : String) (hm : method = some (.passwordRequest username password))
      (hallowed : A.passwordAllowed username = true) (haccepted : env.password = true) :
      Login i method env { i with authenticated := true, userId := username }

/-- A reply that refuses, as opposed to one that carries a challenge. -/
def Refuses (r : AuthenticationResult) : Prop := r.ok = false ∧ r.errorCode.isSome = true

/-- What one `Authenticate` does and answers: nothing, a login, a challenge issued, a
    challenge used up. -/
inductive Authenticated (i : Identity) (method : Option AuthMethod) (env : AuthEnv) :
    Identity → AuthenticationResult → Prop where
  | same (r : AuthenticationResult) (hr : Refuses r) : Authenticated i method env i r
  | login {i' : Identity} (h : Login A channelBinding i method env i') (r : AuthenticationResult) (hr : r.ok = true) :
      Authenticated i method env i' r
  | issued (username : String) (publicKey : List UInt8) (hmode : ¬(A.mode matches .devInsecure))
      (hm : method = some (.sshChallengeRequest username publicKey)) :
      Authenticated i method env { i with pendingChallenge := some (username, env.challenge.toList) }
        ⟨false, "", 0, none, "", env.challenge.toList⟩
  | usedUp (r : AuthenticationResult) (hr : Refuses r) : Authenticated i method env { i with pendingChallenge := none } r

variable {A channelBinding}

theorem handleAuthenticate_cases (i : Identity) (method : Option AuthMethod) (env : AuthEnv) :
    Authenticated A channelBinding i method env (i.handleAuthenticate A channelBinding method env).1
      (i.handleAuthenticate A channelBinding method env).2 := by
  unfold handleAuthenticate
  split
  · exact .same _ ⟨rfl, rfl⟩
  · rename_i hadmitted
    split
    · rename_i hmode
      exact .login (.dev (by rw [hmode])) _ rfl
    · rename_i users hmode
      split
      · rename_i bytes
        unfold presentGrant
        split
        · exact .same _ ⟨rfl, rfl⟩
        · rename_i grant hgrant
          split
          · exact .same _ ⟨rfl, rfl⟩
          · rename_i claims hclaims
            have haccepted : A.acceptedGrant (some (.connectionGrant bytes)) env = some claims := by
              simp only [AuthState.acceptedGrant, hmode]
              rw [if_pos (by simpa using hadmitted), hgrant, Option.bind_some, hclaims]
              rfl
            exact .login (.grant claims haccepted (GrantVerifier.verify_ok hclaims)) _ rfl
      · rename_i username publicKey
        unfold requestChallenge
        split
        · exact .issued username publicKey (by rw [hmode]; exact nofun) rfl
        · exact .same _ ⟨rfl, rfl⟩
      · rename_i challenge signature
        unfold respondChallenge
        split
        · exact .same _ ⟨rfl, rfl⟩
        · rename_i username expected hpending
          simp only
          split
          · exact .usedUp _ ⟨rfl, rfl⟩
          · rename_i hchallenge
            have hchallenge : challenge = expected := not_not.mp hchallenge
            subst hchallenge
            split
            · rename_i id hid
              obtain ⟨v, sig, hv, hsig, hkey, hverify⟩ := AuthState.verified_some hid
              exact .login (.ssh username challenge signature v sig rfl hpending hv hsig hkey hverify) _ rfl
            · exact .usedUp _ ⟨rfl, rfl⟩
      · rename_i username password
        unfold presentPassword
        split
        · rename_i haccepted
          simp only [passwordAccepted, Bool.and_eq_true] at haccepted
          exact .login (.password username password rfl haccepted.1.1.1.1.1 haccepted.2) _ rfl
        · exact .same _ ⟨rfl, rfl⟩
      · exact .same _ ⟨rfl, rfl⟩

/-- A grant that verifies logs in. -/
theorem handleAuthenticate_grant {i : Identity} {bytes : List UInt8} {grant : String} {claims : GrantClaims} {env : AuthEnv}
    (hadmitted : env.admitted = true) (hmode : ¬(A.mode matches .devInsecure)) (hgrant : grantFromWire bytes = some grant)
    (hclaims : A.grantVerifier.verify grant A.audience env.nowMs = .ok claims) :
    i.handleAuthenticate A channelBinding (some (.connectionGrant bytes)) env =
      ({ i with
          authenticated := true
          userId := claims.sub
          opScope := if claims.ops.isEmpty then none else some claims.ops }, authOk claims.sub claims.expMs) := by
  unfold handleAuthenticate
  rw [if_neg (by rw [hadmitted]; simp)]
  split
  · rename_i hdev
    exact absurd (by rw [hdev]) hmode
  · simp only [presentGrant, hgrant, hclaims]

theorem Authenticated.authenticated_mono {i i' : Identity} {method : Option AuthMethod} {env : AuthEnv}
    {r : AuthenticationResult} (h : Authenticated A channelBinding i method env i' r) (hi : i.authenticated = true) :
    i'.authenticated = true := by
  cases h with
  | login hlogin _ _ =>
    cases hlogin with
    | _ => rfl
  | _ => exact hi

/-- The scope is changed by an accepted grant only, to the grant's own. -/
theorem Authenticated.scope {i i' : Identity} {method : Option AuthMethod} {env : AuthEnv} {r : AuthenticationResult}
    (h : Authenticated A channelBinding i method env i' r) :
    i'.opScope = i.opScope ∨ ∃ claims, A.acceptedGrant method env = some claims ∧ ∀ op, i'.permits op = claims.permits op := by
  cases h with
  | login hlogin _ _ =>
    cases hlogin with
    | grant claims hm _ =>
      refine .inr ⟨claims, hm, ?_⟩
      intro op
      cases hops : claims.ops.isEmpty with
      | true => simp [permits, GrantClaims.permits, hops]
      | false => simp [permits, GrantClaims.permits, hops]
    | _ => exact .inl rfl
  | _ => exact .inl rfl

end Identity

end Holdfast.Daemon

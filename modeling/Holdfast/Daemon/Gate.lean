/-
  Holdfast.Daemon.Gate — what a connection may do before it is authenticated, how it becomes
  so, and what its scope then lets it do.

  The four ways in are the constructors of `Identity.Login`. A challenge is answered at most
  once: a response takes it, right or wrong, and only the last one issued is kept. The scope
  is that of the last accepted grant. It is looked at when a channel is bound; a grant
  accepted later with a narrower scope leaves the channel bound
  (`narrower_grant_keeps_attachment`).

  Proved:
  - `authentication_step`: the identity changes by an `Authenticate` on channel 0 only.
  - `pendingInv_step`: the pending challenge is the last one issued, not yet accepted.
  - `bare_step`: an unauthenticated connection has bound nothing and calls nothing.
  - `scoped_step`: with grants that cover what is bound, every call is within the scope.
  - `authentication_gate`: these, over runs.
-/

import Holdfast.Daemon.Dispatch

namespace Holdfast.Daemon

open Holdfast.Auth Holdfast.Base Holdfast.Protocol Holdfast.Session Holdfast.Upload

/-- The operation of a grant's scope that a call belongs to; looking at a shell and letting
    go of one belong to none. -/
def Call.operation : Call → Option String
  | .listShells _ => some "list"
  | .openShell _ => some "open"
  | .terminate _ => some "terminate"
  | .attach _ _ => some "attach"
  | .writeInput _ => some "attach"
  | .resize _ => some "attach"
  | .history _ => some "attach"
  | .uploadAcquire => some "upload"
  | .uploadBegin _ _ => some "upload"
  | .uploadCommand _ => some "upload"
  | .forwardAcquire => some "tcp-forward"
  | .forwardSpawn => some "tcp-forward"
  | .forwardMessage => some "tcp-forward"
  | .shellInfo _ => none
  | .detach _ => none

/-- The answer to an `Authenticate`, if the step gave one. -/
def authAnswer (x : Input × Output) : Option (Option AuthMethod × AuthenticationResult) :=
  match x.1, x.2.replies with
  | .message 0 e _, [(_, ⟨_, _, _, .authenticationResult r⟩)] => e.authentication.map fun method => (method, r)
  | _, _ => none

/-- The challenge a step issued, with the user it is for. -/
def issuedChallenge (x : Input × Output) : Option (String × List UInt8) :=
  match authAnswer x with
  | some (some (.sshChallengeRequest username _), r) =>
    if r.ok = false ∧ r.errorCode = none then some (username, r.challenge) else none
  | _ => none

/-- The step accepted a response to a challenge. -/
def acceptsResponse (x : Input × Output) : Bool :=
  match authAnswer x with
  | some (some (.sshChallengeResponse _ _), r) => r.ok
  | _ => false

/-- The last challenge of the trace, issued for `user` and not yet accepted. -/
def LastIssued (tr : List (Input × Output)) (user : String) (challenge : List UInt8) : Prop :=
  ∃ before x after, tr = before ++ x :: after ∧ issuedChallenge x = some (user, challenge) ∧
    ∀ y ∈ after, issuedChallenge y = none ∧ acceptsResponse y = false

/-- What proves to be `user`: development mode, a good grant, a signature over the last
    challenge issued to this connection, or an accepted password. -/
inductive Credential (A : AuthState) (channelBinding : List UInt8) (tr : List (Input × Output))
    (method : Option AuthMethod) (env : AuthEnv) : String → Prop where
  | dev (h : A.mode matches .devInsecure) : Credential A channelBinding tr method env "dev"
  | grant (claims : GrantClaims) (hm : A.acceptedGrant method env = some claims)
      (hgood : A.grantVerifier.Good A.audience env.nowMs claims) : Credential A channelBinding tr method env claims.sub
  | ssh (user : String) (challenge signature : List UInt8) (v : SshVerifier) (sig : SshSig)
      (hm : method = some (.sshChallengeResponse challenge signature)) (hlast : LastIssued tr user challenge)
      (hv : A.sshVerifier user = some v) (hsig : A.ssh.fromPem signature = some sig) (hkey : sig.publicKey ∈ v.authorized)
      (hverify : A.ssh.verify sig.publicKey sshNamespace (channelBoundMessage channelBinding challenge) sig = true) :
      Credential A channelBinding tr method env user
  | password (user password : String) (hm : method = some (.passwordRequest user password))
      (hallowed : A.passwordAllowed user = true) (haccepted : env.password = true) :
      Credential A channelBinding tr method env user

/-- Who the connection is, apart from a challenge under way. -/
structure Identity.SameUser (a b : Identity) : Prop where
  authenticated : b.authenticated = a.authenticated
  userId : b.userId = a.userId
  opScope : b.opScope = a.opScope

/-- A login rests on a credential, if the pending challenge is the last one issued. -/
theorem Identity.Login.credential {A : AuthState} {channelBinding : List UInt8} {tr : List (Input × Output)}
    {method : Option AuthMethod} {env : AuthEnv} {a b : Identity} (h : Identity.Login A channelBinding a method env b)
    (hp : ∀ user challenge, a.pendingChallenge = some (user, challenge) → LastIssued tr user challenge) :
    b.authenticated = true ∧ Credential A channelBinding tr method env b.userId := by
  cases h with
  | dev hdev => exact ⟨rfl, .dev hdev⟩
  | grant claims hm hgood => exact ⟨rfl, .grant claims hm hgood⟩
  | ssh username challenge signature v sig hm hpending hv hsig hkey hverify =>
    exact ⟨rfl, .ssh username challenge signature v sig hm (hp username challenge hpending) hv hsig hkey hverify⟩
  | password username password hm hallowed haccepted => exact ⟨rfl, .password username password hm hallowed haccepted⟩

theorem issued_of_no_answer {x : Input × Output} (h : authAnswer x = none) :
    issuedChallenge x = none ∧ acceptsResponse x = false := by
  simp [issuedChallenge, acceptsResponse, h]

theorem issued_of_refused {x : Input × Output} {method : Option AuthMethod} {r : AuthenticationResult}
    (h : authAnswer x = some (method, r)) (hr : Identity.Refuses r) :
    issuedChallenge x = none ∧ acceptsResponse x = false := by
  obtain ⟨hok, hcode⟩ := hr
  have hne : r.errorCode ≠ none := by
    intro hn
    rw [hn] at hcode
    cases hcode
  unfold issuedChallenge acceptsResponse
  rw [h]
  refine ⟨?_, ?_⟩
  · split
    · rename_i heq
      cases heq
      rw [if_neg fun hx => hne hx.2]
    · rfl
  · split
    · rename_i heq
      cases heq
      exact hok
    · rfl

theorem LastIssued.snoc {tr : List (Input × Output)} {user : String} {challenge : List UInt8}
    (h : LastIssued tr user challenge) {x : Input × Output} (hx : issuedChallenge x = none ∧ acceptsResponse x = false) :
    LastIssued (tr ++ [x]) user challenge := by
  obtain ⟨before, y, after, rfl, hy, hafter⟩ := h
  refine ⟨before, y, after ++ [x], by simp, hy, ?_⟩
  intro z hz
  rcases List.mem_append.mp hz with hz | hz
  · exact hafter z hz
  · cases List.mem_singleton.mp hz
    exact hx

namespace World

variable {V : Type} (A : App V)

/-! ## The identity along a step -/

/-- The step is an `Authenticate` that reached its handler. -/
structure Authenticates (w : World V) (i : Input) (s : Step V) (method : Option AuthMethod) (env : AuthEnv) : Prop where
  input : ∃ e denv, i = .message 0 e denv ∧ e.authentication = some method ∧ denv.auth = env
  identity : s.1.conn.identity = (w.conn.identity.handleAuthenticate A.auth w.conn.channelBinding method env).1
  answer : authAnswer (i, s.2) =
    some (method, (w.conn.identity.handleAuthenticate A.auth w.conn.channelBinding method env).2)

variable {A} {w w' : World V} {channel : Nat} {e : Envelope} {env : DispatchEnv}

theorem Change.identity_or (h : Change A w channel e env w') :
    w'.conn.identity = w.conn.identity ∨ e.authentication.isSome = true := by
  cases h with
  | identity method hm => exact .inr (by rw [Envelope.authentication, hm]; rfl)
  | _ => exact .inl rfl

theorem noAnswer_of_not_auth {out : Output} (h : e.authentication = none) :
    authAnswer (.message channel e env, out) = none := by
  unfold authAnswer
  split
  · rename_i hi _
    cases hi
    rw [h]
    rfl
  · rfl

theorem onControl_authenticate (method : Option AuthMethod) :
    w.onControl A env e (.authenticate method) = w.authenticate A env e.requestId method := rfl

theorem onChannel_authenticate (method : Option AuthMethod) :
    w.onChannel A env channel e (.authenticate method) = w.unexpected env channel e.requestId := rfl

/-- A dispatched `Authenticate`: handled, or answered otherwise. -/
theorem dispatchSwept_authenticate {method : Option AuthMethod} (channel : Nat) (env : DispatchEnv)
    (hm : e.message = some (.authenticate method)) :
    Authenticates A w (.message channel e env) (w.dispatchSwept A channel e env) method env.auth ∨
      (w.dispatchSwept A channel e env).1.conn.identity = w.conn.identity ∧
        authAnswer (.message channel e env, (w.dispatchSwept A channel e env).2) = none := by
  have hauth : e.authentication = some method := by rw [Envelope.authentication, hm]
  unfold dispatchSwept
  simp only [hm, ClientMessage.preAuth_authenticate, Bool.true_eq_false, and_false, if_false]
  split
  · rename_i t _
    refine .inr ?_
    unfold forwardMessage
    split
    · exact ⟨rfl, by simp [authAnswer, done]⟩
    · exact ⟨rfl, by simp [authAnswer, answer, errorEnvelope, respond]⟩
  · split
    · rename_i hc
      subst hc
      rw [onControl_authenticate, authenticate]
      split
      · exact .inr ⟨rfl, by simp [authAnswer, refuse, answer, errorEnvelope, respond]⟩
      · refine .inl ⟨⟨e, env, rfl, hauth, rfl⟩, rfl, ?_⟩
        simp [authAnswer, answer, respond, hauth]
    · exact .inr ⟨rfl, by simp [authAnswer, onChannel_authenticate, unexpected, refuse, answer, errorEnvelope, respond]⟩

/-- The identity changes by an `Authenticate` on channel 0 only. -/
theorem authentication_step (hk : w.manager.Keyed) (i : Input) :
    (∃ method env, Authenticates A w i (w.step A i) method env) ∨
      (w.step A i).1.conn.identity = w.conn.identity ∧ authAnswer (i, (w.step A i).2) = none := by
  cases i with
  | message channel e env =>
    simp only [step]
    split
    · exact .inr ⟨rfl, by unfold authAnswer; split <;> first | rfl | (rename_i h; cases h)⟩
    · cases hm : e.authentication with
      | some method =>
        have hmsg : e.message = some (.authenticate method) := by
          unfold Envelope.authentication at hm
          split at hm
          · rename_i hmsg
            cases hm
            exact hmsg
          · cases hm
        rcases dispatchSwept_authenticate (A := A) (w := w.sweep) channel env hmsg with h | h
        · exact .inl ⟨method, env.auth, h.input, h.identity, h.answer⟩
        · exact .inr h
      | none =>
        have hch := (dispatchSwept_outcome (A := A) (w := w.sweep) hk channel e env).change
        refine .inr ⟨?_, ?_⟩
        · rcases hch.identity_or with h | h
          · exact h
          · rw [hm] at h
            cases h
        · exact noAnswer_of_not_auth hm
  | resume env => exact .inr ⟨(step_shrinks rfl).identity, rfl⟩
  | channelClosed channel => exact .inr ⟨(step_shrinks rfl).identity, rfl⟩
  | gone => exact .inr ⟨(step_shrinks rfl).identity, rfl⟩
  | upload a input => exact .inr ⟨(step_shrinks rfl).identity, rfl⟩
  | forwardEnds t => exact .inr ⟨rfl, rfl⟩
  | manager op => exact .inr ⟨rfl, rfl⟩

theorem Change.channelBinding (h : Change A w channel e env w') : w'.conn.channelBinding = w.conn.channelBinding := by
  cases h with
  | _ => rfl

theorem channelBinding_step (hk : w.manager.Keyed) (i : Input) :
    (w.step A i).1.conn.channelBinding = w.conn.channelBinding :=
  step_rule (P := fun w' => w'.conn.channelBinding = w.conn.channelBinding) hk rfl i
    (fun _ _ _ _ _ _ hch => hch.channelBinding) fun hi => (step_shrinks hi).channelBinding

/-! ## The pending challenge -/

variable (A)

/-- What waits for its response is the last challenge issued. -/
def PendingInv (tr : List (Input × Output)) (w : World V) : Prop :=
  ∀ user challenge, w.conn.identity.pendingChallenge = some (user, challenge) →
    ¬(A.auth.mode matches .devInsecure) ∧ LastIssued tr user challenge

variable {A}

theorem pendingInv_snoc {tr : List (Input × Output)} (h : PendingInv A tr w) {x : Input × Output}
    (hp : w'.conn.identity.pendingChallenge = w.conn.identity.pendingChallenge)
    (hx : issuedChallenge x = none ∧ acceptsResponse x = false) : PendingInv A (tr ++ [x]) w' := by
  intro user challenge hpending
  rw [hp] at hpending
  obtain ⟨hmode, hlast⟩ := h user challenge hpending
  exact ⟨hmode, hlast.snoc hx⟩

theorem pendingInv_none {tr : List (Input × Output)} (hp : w'.conn.identity.pendingChallenge = none) :
    PendingInv A tr w' := by
  intro user challenge hpending
  rw [hp] at hpending
  cases hpending

theorem pendingInv_step {tr : List (Input × Output)} (hk : w.manager.Keyed) (h : PendingInv A tr w) (i : Input) :
    PendingInv A (tr ++ [(i, (w.step A i).2)]) (w.step A i).1 := by
  rcases authentication_step (A := A) hk i with ⟨method, env, hauth⟩ | ⟨hid, hnone⟩
  · have hans := hauth.answer
    have hid := hauth.identity
    have hcases : Identity.Authenticated A.auth w.conn.channelBinding w.conn.identity method env _ _ :=
      Identity.handleAuthenticate_cases w.conn.identity method env
    revert hans hid hcases
    generalize w.conn.identity.handleAuthenticate A.auth w.conn.channelBinding method env = res
    obtain ⟨i', r⟩ := res
    intro hans hid hcases
    simp only at hans hid hcases
    cases hcases with
    | same _ hr => exact pendingInv_snoc h (by rw [hid]) (issued_of_refused hans hr)
    | login hlogin _ hr =>
      cases hlogin with
      | dev hdev =>
        intro user challenge hpending
        rw [hid] at hpending
        exact absurd hdev (h user challenge hpending).1
      | grant claims hm hgood =>
        obtain ⟨bytes, rfl⟩ := AuthState.acceptedGrant_method hm
        exact pendingInv_snoc h (by rw [hid]) (by simp [issuedChallenge, acceptsResponse, hans])
      | ssh username challenge signature v sig hm hpending hv hsig hkey hverify =>
        exact pendingInv_none (by rw [hid])
      | password username password hm hallowed haccepted =>
        subst hm
        exact pendingInv_snoc h (by rw [hid]) (by simp [issuedChallenge, acceptsResponse, hans])
    | issued username publicKey hmode hm =>
      subst hm
      intro user challenge hpending
      rw [hid] at hpending
      cases hpending
      refine ⟨hmode, tr, _, [], rfl, ?_, fun y hy => absurd hy List.not_mem_nil⟩
      simp [issuedChallenge, hans]
    | usedUp _ hr => exact pendingInv_none (by rw [hid])
  · exact pendingInv_snoc h (by rw [hid]) (issued_of_no_answer hnone)

/-! ## Before the login -/

/-- Nothing is bound and nothing is waited for. -/
structure Empty (w : World V) : Prop where
  attachments : ∀ channel, w.conn.attachments.lookup channel = none
  uploads : ∀ channel, w.conn.uploads.lookup channel = none
  forwards : ∀ channel, w.conn.forwards.lookup channel = none
  pending : w.pending = none

def Bare (w : World V) : Prop := w.conn.identity.authenticated = false → w.Empty

/-- The step asked nothing of the services and bound nothing. -/
structure Idle (w : World V) (s : Step V) : Prop where
  calls : s.2.calls = []
  manager : s.1.manager = w.manager
  actors : s.1.actors = w.actors
  tasks : s.1.tasks = w.tasks
  pending : s.1.pending = w.pending
  attachments : s.1.conn.attachments = w.conn.attachments
  uploads : s.1.conn.uploads = w.conn.uploads
  forwards : s.1.conn.forwards = w.conn.forwards

theorem clientHello_idle (w : World V) (env : DispatchEnv) (requestId : UInt64) (hello : ClientHello) :
    Idle w (w.clientHello A env requestId hello) := by
  unfold clientHello
  simp only
  split
  · exact ⟨rfl, rfl, rfl, rfl, rfl, rfl, rfl, rfl⟩
  · exact ⟨rfl, rfl, rfl, rfl, rfl, rfl, rfl, rfl⟩

theorem authenticate_idle (w : World V) (env : DispatchEnv) (requestId : UInt64) (method : Option AuthMethod) :
    Idle w (w.authenticate A env requestId method) := by
  unfold authenticate
  split
  · exact ⟨rfl, rfl, rfl, rfl, rfl, rfl, rfl, rfl⟩
  · exact ⟨rfl, rfl, rfl, rfl, rfl, rfl, rfl, rfl⟩

/-- The allowlist reaches no service. -/
theorem dispatchSwept_idle (hu : w.conn.identity.authenticated = false) (hf : w.conn.forwards.lookup channel = none)
    (e : Envelope) (env : DispatchEnv) : Idle w (w.dispatchSwept A channel e env) := by
  have hquiet : ∀ (replies : List (Nat × Reply)) (b : Option Bool), Idle w (w, ⟨replies, b, []⟩) :=
    fun _ _ => ⟨rfl, rfl, rfl, rfl, rfl, rfl, rfl, rfl⟩
  unfold dispatchSwept
  split
  · exact hquiet _ _
  · rename_i m hm
    split
    · exact hquiet _ _
    · rename_i hpre
      rw [hf]
      simp only
      split
      · cases m with
        | clientHello hello => exact clientHello_idle w env e.requestId hello
        | authenticate method => exact authenticate_idle w env e.requestId method
        | ping nonce => exact hquiet _ _
        | pong nonce => exact hquiet _ _
        | close => exact hquiet _ _
        | _ => exact absurd ⟨hu, rfl⟩ hpre
      · cases m with
        | clientHello hello => exact hquiet _ _
        | authenticate method => exact hquiet _ _
        | ping nonce => exact hquiet _ _
        | pong nonce => exact hquiet _ _
        | close => exact hquiet _ _
        | _ => exact absurd ⟨hu, rfl⟩ hpre

theorem Empty.shrinks (h : w.Empty) (hs : Shrinks w w') : w'.Empty := by
  refine ⟨fun k => hs.attachments.lookup_none (h.attachments k), fun k => hs.uploads.lookup_none (h.uploads k),
    fun k => hs.forwards.lookup_none (h.forwards k), ?_⟩
  cases hp : w'.pending with
  | none => rfl
  | some p =>
    have := hs.pending p hp
    rw [h.pending] at this
    cases this

/-- A login is never taken back. -/
theorem authenticated_mono (hk : w.manager.Keyed) (i : Input) (h : w.conn.identity.authenticated = true) :
    (w.step A i).1.conn.identity.authenticated = true := by
  rcases authentication_step (A := A) hk i with ⟨method, env, hauth⟩ | ⟨hid, _⟩
  · have hcases : Identity.Authenticated A.auth w.conn.channelBinding w.conn.identity method env _ _ :=
      Identity.handleAuthenticate_cases w.conn.identity method env
    rw [hauth.identity]
    exact hcases.authenticated_mono h
  · rw [hid]
    exact h

theorem message_idle (he : w.Empty) (hu : w.conn.identity.authenticated = false) (channel : Nat) (e : Envelope)
    (env : DispatchEnv) : Idle w.sweep (w.step A (.message channel e env)) := by
  simp only [step, he.pending, Option.isSome_none, Bool.false_eq_true, if_false]
  exact dispatchSwept_idle (w := w.sweep) hu (he.forwards channel) e env

theorem bare_step (hk : w.manager.Keyed) (h : w.Bare) (i : Input) : (w.step A i).1.Bare := by
  intro hu'
  have hu : w.conn.identity.authenticated = false := by
    cases hw : w.conn.identity.authenticated with
    | false => rfl
    | true =>
      rw [authenticated_mono hk i hw] at hu'
      cases hu'
  have he := h hu
  cases hi : i.isMessage with
  | false => exact he.shrinks (step_shrinks hi)
  | true =>
    cases i with
    | message channel e env =>
      have hidle := message_idle (A := A) he hu channel e env
      have hs := he.shrinks (shrinks_sweep w)
      refine ⟨?_, ?_, ?_, ?_⟩
      · rw [hidle.attachments]
        exact hs.attachments
      · rw [hidle.uploads]
        exact hs.uploads
      · rw [hidle.forwards]
        exact hs.forwards
      · rw [hidle.pending]
        exact hs.pending
    | _ => cases hi

/-- A connection that is not logged in calls nothing. -/
theorem bare_calls (h : w.Bare) (hu : w.conn.identity.authenticated = false) (i : Input) :
    (w.step A i).2.calls = [] := by
  have he := h hu
  cases i with
  | message channel e env => exact (message_idle he hu channel e env).calls
  | resume env =>
    show (w.resume A env).2.calls = []
    unfold resume
    rw [he.pending]
    rfl
  | channelClosed channel =>
    simp only [step, he.pending, Option.isSome_none, Bool.false_eq_true, if_false, channelClosed, detach,
      he.attachments channel]
  | gone =>
    simp only [step, he.pending, Option.isSome_none, Bool.false_eq_true, if_false, detachAll,
      Table.values_of_lookup_none he.attachments, List.map_nil]
  | upload a input =>
    simp only [step]
    split <;> rfl
  | forwardEnds t => rfl
  | manager op => rfl

/-! ## The scope -/

variable (A)

/-- A grant accepted while a channel is bound permits what it is bound to. -/
def ScopeCovers (w : World V) : Input → Prop
  | .message _ e env => ∀ method ∈ e.authentication, ∀ claims ∈ A.auth.acceptedGrant method env.auth,
    (w.conn.attachments.keys ≠ [] → claims.permits "attach" = true) ∧
      (w.sweep.conn.uploads.keys ≠ [] → claims.permits "upload" = true) ∧
      (w.conn.forwards.keys ≠ [] → claims.permits "tcp-forward" = true)
  | _ => True

instance (w : World V) (i : Input) : Decidable (w.ScopeCovers A i) :=
  match i with
  | .message _ e env => inferInstanceAs (Decidable (∀ method ∈ e.authentication,
      ∀ claims ∈ A.auth.acceptedGrant method env.auth,
        (w.conn.attachments.keys ≠ [] → claims.permits "attach" = true) ∧
          (w.sweep.conn.uploads.keys ≠ [] → claims.permits "upload" = true) ∧
          (w.conn.forwards.keys ≠ [] → claims.permits "tcp-forward" = true)))
  | .resume _ => .isTrue trivial
  | .channelClosed _ => .isTrue trivial
  | .gone => .isTrue trivial
  | .upload _ _ => .isTrue trivial
  | .forwardEnds _ => .isTrue trivial
  | .manager _ => .isTrue trivial

/-- The scope permits what each channel is bound to, and what is waited for. -/
structure Scoped (w : World V) : Prop where
  attachments : ∀ channel b, w.conn.attachments.lookup channel = some b → w.conn.identity.permits "attach" = true
  uploads : ∀ channel b, w.conn.uploads.lookup channel = some b → w.conn.identity.permits "upload" = true
  forwards : ∀ channel t, w.conn.forwards.lookup channel = some t → w.conn.identity.permits "tcp-forward" = true
  terminating : ∀ id requestId wireId, w.pending = some (.terminating id requestId wireId) →
    w.conn.identity.permits "terminate" = true

variable {A}

theorem scoped_initial (datagrams : Bool) (channelBinding : List UInt8) :
    Scoped (initial datagrams channelBinding (Manager.empty : Manager V)) := ⟨nofun, nofun, nofun, nofun⟩

theorem Scoped.shrinks (h : Scoped w) (hs : Shrinks w w') : Scoped w' := by
  refine ⟨?_, ?_, ?_, ?_⟩
  · intro k b hb
    rw [hs.identity]
    exact h.attachments k b (hs.attachments k b hb)
  · intro k b hb
    rw [hs.identity]
    exact h.uploads k b (hs.uploads k b hb)
  · intro k t ht
    rw [hs.identity]
    exact h.forwards k t (hs.forwards k t ht)
  · intro id requestId wireId hp
    rw [hs.identity]
    exact h.terminating id requestId wireId (hs.pending _ hp)

/-- A new identity that permits what the bound channels need. -/
theorem Scoped.identity (h : Scoped w) (hp : w.pending = none) (i : Identity)
    (hi : i.opScope = w.conn.identity.opScope ∨ ∃ claims : GrantClaims, (∀ op, i.permits op = claims.permits op) ∧
      (w.conn.attachments.keys ≠ [] → claims.permits "attach" = true) ∧
      (w.conn.uploads.keys ≠ [] → claims.permits "upload" = true) ∧
      (w.conn.forwards.keys ≠ [] → claims.permits "tcp-forward" = true)) :
    Scoped { w with conn := { w.conn with identity := i } } := by
  rcases hi with hsame | ⟨claims, hclaims, ha, hu, hf⟩
  · have hperm : ∀ op, i.permits op = w.conn.identity.permits op := by
      intro op
      rw [Identity.permits, hsame]
      rfl
    exact ⟨fun k b hb => (hperm _).trans (h.attachments k b hb), fun k b hb => (hperm _).trans (h.uploads k b hb),
      fun k t ht => (hperm _).trans (h.forwards k t ht), fun id r wireId hx => (hperm _).trans (h.terminating id r wireId hx)⟩
  · refine ⟨?_, ?_, ?_, ?_⟩
    · intro k b hb
      exact (hclaims _).trans (ha fun hnil => by rw [Table.lookup_of_keys_nil hnil] at hb; cases hb)
    · intro k b hb
      exact (hclaims _).trans (hu fun hnil => by rw [Table.lookup_of_keys_nil hnil] at hb; cases hb)
    · intro k t ht
      exact (hclaims _).trans (hf fun hnil => by rw [Table.lookup_of_keys_nil hnil] at ht; cases ht)
    · intro id requestId wireId hx
      rw [show w.pending = some (.terminating id requestId wireId) from hx] at hp
      cases hp

/-- A binding is made by an operation the scope permits. -/
theorem Change.scoped (hch : Change A w channel e env w') (h : Scoped w) (hp : w.pending = none)
    (hcovers : ∀ method ∈ e.authentication, ∀ claims ∈ A.auth.acceptedGrant method env.auth,
      (w.conn.attachments.keys ≠ [] → claims.permits "attach" = true) ∧
        (w.conn.uploads.keys ≠ [] → claims.permits "upload" = true) ∧
        (w.conn.forwards.keys ≠ [] → claims.permits "tcp-forward" = true)) : Scoped w' := by
  cases hch with
  | identity method hm =>
    refine h.identity hp _ ?_
    have hcases : Identity.Authenticated A.auth w.conn.channelBinding w.conn.identity method env.auth _ _ :=
      Identity.handleAuthenticate_cases w.conn.identity method env.auth
    rcases hcases.scope with hsame | ⟨claims, hclaims, hperm⟩
    · exact .inl hsame
    · exact .inr ⟨claims, hperm, hcovers method (by rw [Envelope.authentication, hm]; rfl) claims hclaims⟩
  | attached id token cols rows attachmentId _ _ _ hm hc ha hf hperm ho =>
    refine ⟨fun _ _ _ => hperm, h.uploads, h.forwards, h.terminating⟩
  | detached b hb => exact ⟨fun k b hb => h.attachments k b (Table.within_erase _ _ k b hb), h.uploads, h.forwards, h.terminating⟩
  | begun id writer d metadata hm hc hu hroom hperm ho hw =>
    exact ⟨h.attachments, fun _ _ _ => hperm, h.forwards, h.terminating⟩
  | sendingLast b command hb =>
    exact ⟨h.attachments, fun k b hb => h.uploads k b (Table.within_erase _ _ k b hb), h.forwards,
      fun _ _ _ hp => by cases hp⟩
  | unbound b hb =>
    exact ⟨h.attachments, fun k b hb => h.uploads k b (Table.within_erase _ _ k b hb), h.forwards, h.terminating⟩
  | sending b c hm hb => exact ⟨h.attachments, h.uploads, h.forwards, fun _ _ _ hp => by cases hp⟩
  | forwarded host port hm hc hu hroom hperm => exact ⟨h.attachments, h.uploads, fun _ _ _ => hperm, h.terminating⟩
  | terminating id hperm ho => exact ⟨h.attachments, h.uploads, h.forwards, fun _ _ _ _ => hperm⟩
  | _ => exact ⟨h.attachments, h.uploads, h.forwards, h.terminating⟩

/-- A justified call is within the scope. -/
theorem Justified.permitted {m : Manager V} {c : Call} (hj : w.Justified m channel c) (h : Scoped w) :
    ∀ op, c.operation = some op → w.conn.identity.permits op = true := by
  have hattached : ∀ id, w.Attached channel id → w.conn.identity.permits "attach" = true := by
    rintro id ⟨b, hb, _⟩
    exact h.attachments channel b hb
  intro op hop
  cases c with
  | listShells shown => cases hop; exact hj.1
  | openShell opened => cases hop; exact hj.1
  | terminate id => cases hop; exact hj.1
  | attach id ok => cases hop; exact hj.1
  | writeInput id => cases hop; exact hattached id hj
  | resize id => cases hop; exact hattached id hj
  | history id => cases hop; exact hattached id hj
  | uploadAcquire => cases hop; exact hj
  | uploadBegin id ok => cases hop; exact hj.1
  | uploadCommand id =>
    cases hop
    obtain ⟨b, _, hb, _, _⟩ := hj
    exact h.uploads channel b hb
  | forwardAcquire => cases hop; exact hj
  | forwardSpawn => cases hop; exact hj
  | forwardMessage =>
    cases hop
    obtain ⟨t, ht⟩ := Option.isSome_iff_exists.mp hj
    exact h.forwards channel t ht
  | shellInfo id => cases hop
  | detach id => cases hop

theorem scoped_step (hk : w.manager.Keyed) (h : Scoped w) {i : Input} (hcovers : ScopeCovers A w i) :
    Scoped (w.step A i).1 := by
  apply step_rule hk h i
  · rintro channel e env w' rfl hp hch
    exact hch.scoped (h.shrinks (shrinks_sweep w)) hp hcovers
  · intro hi
    exact h.shrinks (step_shrinks hi)

theorem scoped_calls (hk : w.manager.Keyed) (h : Scoped w) (i : Input) :
    ∀ c ∈ (w.step A i).2.calls, ∀ op, c.operation = some op → w.conn.identity.permits op = true := by
  have hdetach : ∀ (calls : List Call), (∀ c ∈ calls, c.operation = none) →
      ∀ c ∈ calls, ∀ op, c.operation = some op → w.conn.identity.permits op = true := by
    intro calls hnone c hc op hop
    rw [hnone c hc] at hop
    cases hop
  cases i with
  | message channel e env =>
    simp only [step]
    split
    · exact hdetach [] fun c hc => absurd hc List.not_mem_nil
    · intro c hc
      exact ((dispatchSwept_outcome (A := A) (w := w.sweep) hk channel e env).calls c hc).permitted
        (h.shrinks (shrinks_sweep w))
  | resume env =>
    show ∀ c ∈ (w.resume A env).2.calls, _
    cases (resume_cases env : Resumed A w (w.resume A env)) with
    | waits hs => rw [hs]; exact hdetach [] fun c hc => absurd hc List.not_mem_nil
    | terminated id requestId wireId hp h1 h2 =>
      rw [h2]
      intro c hc op hop
      cases List.mem_singleton.mp hc
      cases hop
      exact h.terminating id requestId wireId hp
    | failed _ _ _ _ hs => rw [hs]; exact hdetach [] fun c hc => absurd hc List.not_mem_nil
    | sent _ _ _ _ _ _ _ hs => rw [hs]; exact hdetach [] fun c hc => absurd hc List.not_mem_nil
  | channelClosed channel =>
    apply hdetach
    simp only [step]
    split
    · exact fun c hc => absurd hc List.not_mem_nil
    · simp only [channelClosed, detach]
      split
      · exact fun c hc => absurd hc List.not_mem_nil
      · intro c hc
        cases List.mem_singleton.mp hc
        rfl
  | gone =>
    apply hdetach
    simp only [step]
    split
    · exact fun c hc => absurd hc List.not_mem_nil
    · intro c hc
      obtain ⟨b, _, rfl⟩ := List.mem_map.mp hc
      rfl
  | upload a input =>
    apply hdetach
    simp only [step]
    split <;> exact fun c hc => absurd hc List.not_mem_nil
  | forwardEnds t => exact hdetach [] fun c hc => absurd hc List.not_mem_nil
  | manager op => exact hdetach [] fun c hc => absurd hc List.not_mem_nil

/-! ## Over runs -/

/-- The step logs the connection in, from `a` to `b`, with what proves it. -/
def LoggedIn (A : App V) (channelBinding : List UInt8) (tr : List (Input × Output)) (i : Input) (a b : Identity) : Prop :=
  ∃ e env method, i = .message 0 e env ∧ e.authentication = some method ∧ b.authenticated = true ∧
    Credential A.auth channelBinding tr method env.auth b.userId ∧
    (b.opScope = a.opScope ∨
      ∃ claims, A.auth.acceptedGrant method env.auth = some claims ∧ ∀ op, b.permits op = claims.permits op)

/-- What holds after every run. -/
structure GateInv (A : App V) (channelBinding : List UInt8) (tr : List (Input × Output)) (w : World V) : Prop where
  keyed : w.manager.Keyed
  channelBinding : w.conn.channelBinding = channelBinding
  pending : PendingInv A tr w
  bare : w.Bare

theorem gateInv_run (A : App V) (datagrams : Bool) (channelBinding : List UInt8) (is : List Input) :
    GateInv A channelBinding ((machine A).trace (initial datagrams channelBinding Manager.empty) is)
      ((machine A).run (initial datagrams channelBinding Manager.empty) is) := by
  apply Machine.trace_induction (P := GateInv A channelBinding) (machine A) _ _ (Machine.admissible_true _ _ is)
  · exact ⟨Manager.idemInv_empty.keyed, rfl, nofun, fun _ => ⟨fun _ => rfl, fun _ => rfl, fun _ => rfl, rfl⟩⟩
  · intro tr w i h _
    exact ⟨step_keyed h.keyed i, (channelBinding_step h.keyed i).trans h.channelBinding, pendingInv_step h.keyed h.pending i,
      bare_step h.keyed h.bare i⟩

/-- Who the connection is changes by a login, and a login rests on a credential. -/
theorem GateInv.loggedIn {channelBinding : List UInt8} {tr : List (Input × Output)} (h : GateInv A channelBinding tr w)
    (i : Input) :
    w.conn.identity.SameUser (w.step A i).1.conn.identity ∨
      LoggedIn A channelBinding tr i w.conn.identity (w.step A i).1.conn.identity := by
  rcases authentication_step (A := A) h.keyed i with ⟨method, aenv, hauth⟩ | ⟨hid, _⟩
  · obtain ⟨e, env, rfl, he, rfl⟩ := hauth.input
    have hcases : Identity.Authenticated A.auth w.conn.channelBinding w.conn.identity method env.auth _ _ :=
      Identity.handleAuthenticate_cases w.conn.identity method env.auth
    rw [← hauth.identity, h.channelBinding] at hcases
    have hscope := hcases.scope
    revert hcases hscope
    generalize (w.step A (.message 0 e env)).1.conn.identity = b
    generalize (w.conn.identity.handleAuthenticate A.auth channelBinding method env.auth).2 = r
    intro hcases hscope
    cases hcases with
    | same _ _ => exact .inl ⟨rfl, rfl, rfl⟩
    | issued _ _ _ _ => exact .inl ⟨rfl, rfl, rfl⟩
    | usedUp _ _ => exact .inl ⟨rfl, rfl, rfl⟩
    | login hlogin _ _ =>
      obtain ⟨hok, hcred⟩ := hlogin.credential fun user challenge hp => (h.pending user challenge hp).2
      exact .inr ⟨e, env, method, rfl, he, hok, hcred, hscope⟩
  · exact .inl ⟨by rw [hid], by rw [hid], by rw [hid]⟩

/-- In every run:
    - the connection's user and scope change by an accepted `Authenticate` only;
    - a connection that is not logged in calls no service, and no message of it changes
      the manager, the uploads or the forwards;
    - if every grant accepted on the way permitted what was bound at the time, every call
      is of an operation the scope permits. -/
theorem authentication_gate (A : App V) (datagrams : Bool) (channelBinding : List UInt8) (is : List Input) (i : Input) :
    let w₀ := initial datagrams channelBinding Manager.empty
    let w := (machine A).run w₀ is
    let w' := (machine A).next w i
    let calls := ((machine A).out w i).calls
    (w.conn.identity.SameUser w'.conn.identity ∨
      LoggedIn A channelBinding ((machine A).trace w₀ is) i w.conn.identity w'.conn.identity) ∧
    (w.conn.identity.authenticated = false →
      calls = [] ∧ (i.isMessage = true → w'.manager = w.manager ∧ w'.actors = w.actors ∧ w'.tasks = w.tasks)) ∧
    ((machine A).Admissible (ScopeCovers A) w₀ is →
      ∀ c ∈ calls, ∀ op, c.operation = some op → w.conn.identity.permits op = true) := by
  intro w₀ w w' calls
  have h : GateInv A channelBinding ((machine A).trace w₀ is) w := gateInv_run A datagrams channelBinding is
  refine ⟨h.loggedIn i, ?_, ?_⟩
  · intro hu
    refine ⟨bare_calls h.bare hu i, ?_⟩
    intro hi
    cases i with
    | message channel e env =>
      have hidle := message_idle (A := A) (h.bare hu) hu channel e env
      exact ⟨hidle.manager, hidle.actors, hidle.tasks⟩
    | _ => cases hi
  · intro hcovers
    have hscoped : w.manager.Keyed ∧ Scoped w :=
      Machine.run_induction (P := fun w => w.manager.Keyed ∧ Scoped w) (machine A)
        (fun w i hw hok => ⟨step_keyed hw.1 i, scoped_step hw.1 hw.2 hok⟩)
        ⟨Manager.idemInv_empty.keyed, scoped_initial datagrams channelBinding⟩ hcovers
    exact scoped_calls h.keyed hscoped.2 i

end World

/-! ## A grant for one operation -/

/-- `{"sub":"alice","aud":"host","servers":[],"ops":["list"],"iat_ms":900,"exp_ms":90000,"jti":"j"}` -/
def listPayload : List UInt8 :=
  [123, 34, 115, 117, 98, 34, 58, 34, 97, 108, 105, 99, 101, 34, 44, 34, 97, 117, 100, 34, 58, 34, 104, 111,
   115, 116, 34, 44, 34, 115, 101, 114, 118, 101, 114, 115, 34, 58, 91, 93, 44, 34, 111, 112, 115, 34, 58, 91,
   34, 108, 105, 115, 116, 34, 93, 44, 34, 105, 97, 116, 95, 109, 115, 34, 58, 57, 48, 48, 44, 34, 101, 120,
   112, 95, 109, 115, 34, 58, 57, 48, 48, 48, 48, 44, 34, 106, 116, 105, 34, 58, 34, 106, 34, 125]

/-- Of the key with the seed `[7; 32]`. -/
def listSignature : List UInt8 :=
  [193, 6, 198, 65, 153, 47, 213, 8, 23, 59, 174, 189, 252, 179, 1, 46, 86, 25, 80, 23, 228, 12, 22, 64, 163,
   86, 148, 12, 140, 141, 0, 183, 246, 20, 4, 150, 36, 205, 54, 44, 115, 115, 7, 14, 250, 156, 37, 130, 189,
   168, 212, 172, 187, 9, 146, 214, 210, 7, 12, 41, 48, 58, 89, 11]

def listPayload64 : String :=
  "eyJzdWIiOiJhbGljZSIsImF1ZCI6Imhvc3QiLCJzZXJ2ZXJzIjpbXSwib3BzIjpbImxpc3QiXSwiaWF0X21zIjo5MDAsImV4cF9tcyI6OTAwMDAsImp0aSI6ImoifQ"

def listSignature64 : String :=
  "wQbGQZkv1QgXO669_LMBLlYZUBfkDBZAo1aUDIyNALf2FASWJM02LHNzBw76nCWCvajUrLsJktbSBwwpMDpZCw"

def listClaims : GrantClaims := ⟨"alice", "host", [], ["list"], 900, 90000, "j"⟩

def listGrant : List UInt8 := (listPayload64 ++ String.singleton '.' ++ listSignature64).toByteArray.data.toList

/-- The issuer of that grant; other texts are none of its own. -/
def listIssuer : GrantVerifier where
  decode s := if s = listPayload64 then some listPayload else if s = listSignature64 then some listSignature else none
  verifies payload sig := decide (payload = listPayload ∧ sig = listSignature)
  parseClaims payload := if payload = listPayload then some listClaims else none

/-- Passwords and grants. -/
def AuthState.granting : AuthState := { AuthState.dev with
  mode := .sshKeys fun _ => none
  password := some ["alice"]
  grantVerifier := listIssuer
  audience := "host" }

set_option maxRecDepth 4000 in
theorem listPayload64_chars : ∃ l, listPayload64 = String.ofList l ∧ '.' ∉ l := ⟨_, rfl, by decide⟩

theorem listGrant_verifies :
    AuthState.granting.grantVerifier.verify (listPayload64 ++ String.singleton '.' ++ listSignature64)
      AuthState.granting.audience (DispatchEnv.sample 0).auth.nowMs = .ok listClaims := by
  have hdot : '.' ∉ listPayload64.toList := by
    obtain ⟨l, hl, hdot⟩ := listPayload64_chars
    rw [hl, String.toList_ofList]
    exact hdot
  have hne : listSignature64 ≠ listPayload64 := by
    unfold listSignature64 listPayload64
    simp
  refine GrantVerifier.verify_text hdot (?_ : _ = some listPayload) (?_ : _ = some listSignature) ?_ ?_ ?_ ?_ ?_ ?_
  · simp only [AuthState.granting, listIssuer, if_true]
  · simp only [AuthState.granting, listIssuer, if_neg hne, if_true]
  · rfl
  · simp [AuthState.granting, listIssuer]
  · simp only [AuthState.granting, listIssuer, if_true]
  · rfl
  · decide
  · decide

theorem list_login (i : Identity) (channelBinding : List UInt8) :
    (i.handleAuthenticate .granting channelBinding (some (.connectionGrant listGrant)) (DispatchEnv.sample 0).auth).1 =
      { i with authenticated := true, userId := "alice", opScope := some ["list"] } := by
  rw [listGrant, Identity.handleAuthenticate_grant rfl (by exact nofun) (grantFromWire_text _) listGrant_verifies]
  rfl

namespace World

theorem authenticate_next (auth : AuthState) {w : World Terminal.Text} (hp : w.pending = none)
    (hf : w.conn.forwards.lookup 0 = none) (hn : w.conn.negotiated.isNone = false) (method : Option AuthMethod) :
    (machine (App.sample auth)).next w (sampleMessage 0 (.authenticate method) 0) =
      { w.sweep with conn := { w.sweep.conn with
        identity := (w.conn.identity.handleAuthenticate auth w.conn.channelBinding method (DispatchEnv.sample 0).auth).1 } } := by
  simp only [Machine.next, machine, sampleMessage, step, hp, Option.isSome_none, Bool.false_eq_true, if_false]
  show (w.sweep.dispatchSwept (App.sample auth) 0 _ _).1 = _
  unfold dispatchSwept
  simp only [sampleEnvelope, ClientMessage.preAuth_authenticate, Bool.true_eq_false, and_false, if_false]
  rw [show w.sweep.conn.forwards.lookup 0 = none from hf]
  simp only [if_true, onControl_authenticate, authenticate]
  rw [if_neg (by rw [show w.sweep.conn.negotiated.isNone = false from hn]; simp)]
  rfl

/-- With a grant for it alone, the shells are listed. -/
theorem authentication_gate_list :
    let A := App.sample .granting
    let w := (machine A).run .sample
      [sampleMessage 0 (.clientHello sampleHello) 0, sampleMessage 0 (.authenticate (some (.connectionGrant listGrant))) 0]
    w.conn.identity = ⟨true, "alice", some ["list"], none⟩ ∧
      ((machine A).out w (sampleMessage 0 .listShells 0)).calls = [.listShells []] ∧
      w.conn.identity.permits "list" = true := by
  intro A w
  have hw : w = _ := authenticate_next .granting
    (w := (machine A).run .sample [sampleMessage 0 (.clientHello sampleHello) 0]) rfl rfl rfl
    (some (.connectionGrant listGrant))
  rw [list_login] at hw
  have hcalls : ((machine A).out w (sampleMessage 0 .listShells 0)).calls = [.listShells []] := by
    rw [hw]
    decide +kernel
  refine ⟨by rw [hw]; rfl, hcalls, ?_⟩
  refine (authentication_gate A false [] _ (sampleMessage 0 .listShells 0)).2.2 ?_ (.listShells []) ?_ "list" rfl
  · exact ⟨by decide, fun _ _ _ _ => ⟨absurd rfl, absurd rfl, absurd rfl⟩, trivial⟩
  · exact hcalls ▸ List.mem_singleton_self _

/-- A grant for listing only, accepted while a shell is attached: input still reaches the
    shell. -/
theorem narrower_grant_keeps_attachment :
    let A := App.sample .granting
    let w := (machine A).run .sample
      (sampleStart (some (.passwordRequest "alice" "secret")) ++
        [sampleMessage 1 (.attachShell (List.replicate 32 1) 80 24) 2,
          sampleMessage 0 (.authenticate (some (.connectionGrant listGrant))) 0])
    let typed := sampleMessage 1 (.terminalInput [108, 115]) 0
    w.conn.identity.authenticated = true ∧ w.conn.identity.opScope = some ["list"] ∧
      ((machine A).out w typed).calls = [.writeInput sampleShell] ∧
      (Call.writeInput sampleShell).operation = some "attach" ∧ w.conn.identity.permits "attach" = false ∧
      ((((machine A).next w typed).manager.find sampleShell).map fun e => e.runtime.pty.map (·.input)) =
        some (some [108, 115]) := by
  intro A w typed
  have hw : w = _ := authenticate_next .granting
    (w := (machine A).run .sample (sampleStart (some (.passwordRequest "alice" "secret")) ++
      [sampleMessage 1 (.attachShell (List.replicate 32 1) 80 24) 2])) (by decide) (by decide) (by decide)
    (some (.connectionGrant listGrant))
  rw [list_login] at hw
  rw [hw]
  decide

end World

end Holdfast.Daemon

/-
  Holdfast.Agent.Authorize — what the agent lets through (`validate_open_request`,
  `validate_attach_request`, `serve_next` and `serve_attachment` of
  `crates/agent/src/lib.rs`), with its grants and the shell manager.

  A stream reaches the manager by one of two validators. An attachment then lives until its
  stream ends or the timer of its grant elapses: the timer is set when the reply has been
  written, the loop selects between it and its other work in no order, and an answer that
  is being written holds the loop up. The clock and the timer are two: one can be set.

  An envelope is read in one step here (`Agent.Streams` reads it byte by byte), and what
  the forwarder hands on is an input. `session` is any other caller of the manager. When
  `serve` returns, its tasks are dropped one by one (`fail`).

  Proved:
  - `checkGrant_ok`: what a request that passes a validator has shown.
  - `inv_step`: the manager's own invariant; each attachment goes back to the step that made
    it, and its shell is that user's.
  - `agent_authorised`: what is opened, attached, called and carried in any run.
  - `input_after_expiry`: the loop takes an envelope that has come when the timer elapses.
-/

import Holdfast.Agent.Streams
import Holdfast.Auth.Grant
import Holdfast.Daemon.HistoryReply
import Holdfast.Protocol.IdText
import Holdfast.Session.Idempotency

namespace Holdfast.Agent.Authorize

open Holdfast.Base Holdfast.Auth Holdfast.Protocol Holdfast.Session Holdfast.Terminal Holdfast.Daemon

/-! ## The validators -/

def agentUserIdBytesMax : Nat := 128
def agentUnixAccountBytesMax : Nat := 128
def agentCommandBytesMax : Nat := 4096
def agentGrantBytesMax : Nat := 8192

/-- The `Display` of a server id. -/
def serverText (id : ServerId) : String :=
  "srv_" ++ String.ofList (id.toWire.flatMap fun b => [Nat.digitChar (b.toNat / 16), Nat.digitChar (b.toNat % 16)])

theorem serverText_display (id : ServerId) : serverText id = String.ofList id.display := by
  have hdigit : ∀ i : Fin 16, Nat.digitChar i = HexText.hexDigit i := by decide
  have hbytes : ∀ bytes : List UInt8,
      bytes.flatMap (fun b => [Nat.digitChar (b.toNat / 16), Nat.digitChar (b.toNat % 16)]) = HexText.hexText bytes := by
    intro bytes
    induction bytes with
    | nil => rfl
    | cons b bytes ih =>
      have hlt := b.toNat_lt
      rw [List.flatMap_cons, ih, hdigit ⟨b.toNat / 16, by omega⟩, hdigit ⟨b.toNat % 16, by omega⟩]
      rfl
  rw [serverText, hbytes, ← String.toList_inj]
  simp [ServerId.display, idText, serverPrefix, ServerId.toWire, toWire]

structure AttachmentAuthorization where
  userId : String
  cols : UInt16
  rows : UInt16
  expiresAtMs : Int
  deriving DecidableEq, Repr

/-- What an agent is set up with. -/
structure Config (V : Type) where
  serverId : ServerId
  grantVerifier : GrantVerifier
  grantAudience : String
  core : Server V

namespace Config

variable {V : Type} (A : Config V)

/-- What both validators make of the grant. -/
def checkGrant (now : Int) (connectionGrant : List UInt8) (userId op : String) : Except OpenValidationError GrantClaims :=
  match grantFromWire connectionGrant with
  | none => .error .unauthenticated
  | some grant =>
    match A.grantVerifier.verify grant A.grantAudience now with
    | .error (.wrongAudience _ _) => .error .forbidden
    | .error _ => .error .unauthenticated
    | .ok claims =>
      if claims.sub ≠ userId ∨ claims.permits op = false ∨ serverText A.serverId ∉ claims.servers then .error .forbidden
      else .ok claims

def validateOpenRequest (now : Int) (r : AgentOpenShell) : Except OpenValidationError OpenShellRequest :=
  if r.userId = "" ∨ r.userId.utf8ByteSize > agentUserIdBytesMax ∨ r.unixAccount.utf8ByteSize > agentUnixAccountBytesMax ∨
      r.command.utf8ByteSize > agentCommandBytesMax ∨ r.connectionGrant = [] ∨
      r.connectionGrant.length > agentGrantBytesMax ∨ r.idempotencyKey.length ≠ 16 ∨ r.initialCols > 65535 ∨
      r.initialRows > 65535 then .error .invalid
  else
    match Protocol.fromWire r.idempotencyKey with
    | none => .error .invalid
    | some idempotencyKey =>
      (A.checkGrant now r.connectionGrant r.userId "open").map fun _ =>
        { user := r.userId
          requestedAccount := if r.unixAccount = "" then none else some r.unixAccount
          command := if r.command = "" then none else some r.command
          args := []
          cols := r.initialCols.toUInt16
          rows := r.initialRows.toUInt16
          idempotencyKey := idempotencyKey }

def validateAttachRequest (now : Int) (r : AgentAttachShell) : Except OpenValidationError AttachmentAuthorization :=
  if r.userId = "" ∨ r.userId.utf8ByteSize > agentUserIdBytesMax ∨ r.connectionGrant = [] ∨
      r.connectionGrant.length > agentGrantBytesMax ∨ r.cols > 65535 ∨ r.rows > 65535 then .error .invalid
  else
    (A.checkGrant now r.connectionGrant r.userId "attach").map fun claims =>
      ⟨r.userId, r.cols.toUInt16, r.rows.toUInt16, claims.expMs⟩

end Config

/-! ## The streams -/

structure AttachmentLease where
  shellId : ShellId
  attachmentId : Nat
  userId : String
  expiresAtMs : Int
  /-- The `Instant` of the timer, once it is set. -/
  expiry : Option Nat
  deriving DecidableEq, Repr

/-- Has its timer elapsed? -/
def AttachmentLease.elapsed (lease : AttachmentLease) (instant : Nat) : Bool :=
  lease.expiry.any fun expiry => expiry ≤ instant

/-- What an attachment writes. -/
inductive Written where
  | reply (envelope : AgentEnvelope)
  | event (message : Msg)
  deriving DecidableEq, Repr

/-- Anything but an error is of the shell. -/
def Written.isOutput : Written → Bool
  | .reply ⟨_, _, _, some (.agentError _ _ _)⟩ => false
  | .event (.error _ _ _) => false
  | _ => true

inductive AttachmentTask where
  | opening
  /-- What is left to write of a refusal. -/
  | refusing (left : List Written)
  /-- What is left to write of the answers; whether the loop goes on then. -/
  | attached (lease : AttachmentLease) (left : List Written) (goesOn : Bool)
  | ended
  deriving DecidableEq, Repr

structure State (V : Type) where
  manager : Manager V
  /-- `unix_time_ms`. -/
  now : Int
  /-- The milliseconds of an `Instant`. -/
  instant : Nat
  /-- `serve` has not returned. -/
  serving : Bool
  tasks : List AttachmentTask

/-- What is left of a refusal is to be written. -/
def State.refuse {V : Type} (s : State V) (k : Nat) (left : List Written) : State V :=
  { s with tasks := s.tasks.set k (if left = [] then .ended else .refusing left) }

/-- What the outside answers while an envelope is handled. -/
structure SessionEnv where
  attach : Runtime.AttachEnv
  write : Runtime.WriteEnv
  resize : Except PtyError Unit

inductive Input where
  /-- Time passes; the clock may have been set. -/
  | tick (elapsed : Nat) (now : Int)
  | session (op : Op)
  /-- `serve_next` has its request. -/
  | control (request : AgentEnvelope) (env : OpenEnv)
  | accept
  /-- The read of the attachment stream `k` completes. -/
  | envelope (k : Nat) (envelope : AgentEnvelope) (env : SessionEnv)
  | event (k : Nat) (event : Option AttachmentEvent)
  | expire (k : Nat)
  /-- The transport takes something of what is written, or the whole of it. -/
  | flush (k : Nat) (whole : Bool)
  /-- A read or a write fails, or the task is dropped. -/
  | fail (k : Nat)

inductive Effect where
  | answered (envelope : AgentEnvelope)
  | opened (request : OpenShellRequest) (opened : OpenedShell)
  | attached (k : Nat) (shell : ShellId) (authorization : AttachmentAuthorization) (attachment : Attachment)
  /-- Input or a size goes to the manager. -/
  | called (k : Nat) (op : Op)
  | carried (k : Nat) (written : Written)

/-- `i64::saturating_sub`. -/
def saturatingSub (a b : Int) : Int := max (-(2 ^ 63)) (min (2 ^ 63 - 1) (a - b))

def openedOf : Res → Except SessionError (ShellId × Bool)
  | .opened o => .ok (o.shellId, o.reused)
  | .err e => .error e
  | _ => .error .shellNotFound

def attachedOf : Res → Except SessionError Attachment
  | .attached a => .ok a
  | .err e => .error e
  | _ => .error .shellNotFound

def unitOf : Res → Except SessionError Unit
  | .err e => .error e
  | _ => .ok ()

/-- What a handler learns from its validator and one call of the manager. -/
def asked (authorized : Except OpenValidationError Unit) (res : Res) : Outside :=
  ⟨authorized, openedOf res, attachedOf res, unitOf res, unitOf res, .error .shellNotFound, .error .shellNotFound⟩

def tokenExpired (server : ServerId) (shell : ShellId) : AgentEnvelope :=
  attachmentReply server shell 0 (.agentError .errTokenExpired "connection grant expired" true)

namespace Config

variable {V : Type} (A : Config V)

def call (m : Manager V) : Option Op → Manager V × Res
  | none => (m, .idle)
  | some op => m.step A.core op

/-- The call of the manager that a control request comes to. -/
def openOp (now : Int) (request : AgentEnvelope) (env : OpenEnv) : Option Op :=
  if ServerId.fromWire request.serverId ≠ some A.serverId then none
  else
    match request.message with
    | some (.agentOpenShell r) => (A.validateOpenRequest now r).toOption.map fun req => .openShell req env
    | _ => none

def openAuthorized (now : Int) (request : AgentEnvelope) : Except OpenValidationError Unit :=
  match request.message with
  | some (.agentOpenShell r) => (A.validateOpenRequest now r).map fun _ => ()
  | _ => .ok ()

def openEffects : Option Op → Res → List Effect
  | some (.openShell req _), .opened o => [.opened req o]
  | _, _ => []

/-- `serve_next`. -/
def control (s : State V) (request : AgentEnvelope) (env : OpenEnv) : State V × List Effect :=
  let op := A.openOp s.now request env
  let called := A.call s.manager op
  let served := serveNext A.serverId request (asked (A.openAuthorized s.now request) called.2)
  ({ s with manager := called.1, serving := served.2 }, openEffects op called.2 ++ served.1.map .answered)

/-- The lease is dropped. -/
def drop (s : State V) (k : Nat) (lease : AttachmentLease) : State V :=
  { s with
    manager := (s.manager.step A.core (.detach lease.shellId lease.attachmentId)).1
    tasks := s.tasks.set k .ended }

/-- Answers are to be written, or have been. After the first the timer is set. -/
def write (s : State V) (k : Nat) (lease : AttachmentLease) (left : List Written) (goesOn : Bool) : State V :=
  if left ≠ [] then { s with tasks := s.tasks.set k (.attached lease left goesOn) }
  else if goesOn then
    let expiry := lease.expiry.getD (s.instant + (max 0 (saturatingSub lease.expiresAtMs s.now)).toNat)
    { s with tasks := s.tasks.set k (.attached { lease with expiry := some expiry } [] true) }
  else A.drop s k lease

/-- The shell that a first envelope may attach to, and as whom. -/
def attachScope (now : Int) (first : AgentEnvelope) : Option (ShellId × AttachmentAuthorization) :=
  match attachmentScope A.serverId first, first.message with
  | some shell, some (.agentAttachShell r) => (A.validateAttachRequest now r).toOption.map fun a => (shell, a)
  | _, _ => none

def attachAuthorized (now : Int) (first : AgentEnvelope) : Except OpenValidationError Unit :=
  match first.message with
  | some (.agentAttachShell r) => (A.validateAttachRequest now r).map fun _ => ()
  | _ => .ok ()

/-- `serve_attachment`, up to its loop. -/
def attach (s : State V) (k : Nat) (first : AgentEnvelope) (env : SessionEnv) : State V × List Effect :=
  match A.attachScope s.now first with
  | none => (s.refuse k ((attachFirst A.serverId first (asked (A.attachAuthorized s.now first) .idle)).1.map .reply), [])
  | some (shell, a) =>
    let called := s.manager.step A.core (.attachAuthorized a.userId shell a.cols a.rows env.attach)
    let answers := (attachFirst A.serverId first (asked (A.attachAuthorized s.now first) called.2)).1.map Written.reply
    match called.2 with
    | .attached attachment =>
      let lease : AttachmentLease := ⟨shell, attachment.attachmentId, a.userId, a.expiresAtMs, none⟩
      (A.write { s with manager := called.1 } k lease answers true, [.attached k shell a attachment])
    | _ => (State.refuse { s with manager := called.1 } k answers, [])

/-- The call of the manager that an envelope of the attached shell comes to. -/
def armOp (shell : ShellId) (envelope : AgentEnvelope) (env : SessionEnv) : Option Op :=
  if attachmentScope A.serverId envelope ≠ some shell then none
  else
    match envelope.message with
    | some (.terminalInput data) =>
      if data.length > agentTerminalInputBytesMax then none else some (.writeInput shell data env.write)
    | some (.terminalResize cols rows) =>
      if cols > 65535 ∨ rows > 65535 then none else some (.resize shell cols.toUInt16 rows.toUInt16 env.resize)
    | _ => none

def armOutside (m : Manager V) (shell : ShellId) (envelope : AgentEnvelope) (res : Res) : Outside :=
  { asked (.ok ()) res with
    history :=
      match envelope.message with
      | some (.requestHistory beforeLineId maximumLines maximumBytes) =>
        m.history shell beforeLineId (min maximumLines agentHistoryLinesMax)
          (min maximumBytes (agentAttachmentFrameBytesMax.toNat / 2))
      | _ => .error .shellNotFound
    oldest :=
      match m.shells.lookup shell with
      | none => .error .shellNotFound
      | some e => .ok e.runtime.model.oldestLineId }

/-- The arm of the loop for an envelope. -/
def arm (s : State V) (k : Nat) (lease : AttachmentLease) (envelope : AgentEnvelope) (env : SessionEnv) : State V × List Effect :=
  let op := A.armOp lease.shellId envelope env
  let called := A.call s.manager op
  let answered := attachmentArm A.serverId lease.shellId envelope (armOutside called.1 lease.shellId envelope called.2)
  (A.write { s with manager := called.1 } k lease (answered.1.map .reply) answered.2, (op.map (Effect.called k)).toList)

/-- The arm for an event. -/
def forward (s : State V) (k : Nat) (lease : AttachmentLease) (event : Option AttachmentEvent) : State V :=
  match eventArm event with
  | none => A.drop s k lease
  | some (message, goesOn) => A.write s k lease [.event message] goesOn

def step (s : State V) : Input → State V × List Effect
  | .tick elapsed now => ({ s with now := now, instant := s.instant + elapsed }, [])
  | .session op => ({ s with manager := (s.manager.step A.core op).1 }, [])
  | .control request env => if s.serving then A.control s request env else (s, [])
  | .accept => if s.serving then ({ s with tasks := s.tasks ++ [.opening] }, []) else (s, [])
  | .envelope k envelope env =>
    match s.tasks[k]? with
    | some .opening => A.attach s k envelope env
    | some (.attached lease [] true) => A.arm s k lease envelope env
    | _ => (s, [])
  | .event k event =>
    match s.tasks[k]? with
    | some (.attached lease [] true) => (A.forward s k lease event, [])
    | _ => (s, [])
  | .expire k =>
    match s.tasks[k]? with
    | some (.attached lease [] true) =>
      if lease.elapsed s.instant then (A.write s k lease [.reply (tokenExpired A.serverId lease.shellId)] false, []) else (s, [])
    | _ => (s, [])
  | .flush k whole =>
    match s.tasks[k]? with
    | some (.refusing (_ :: left)) => (if whole then s.refuse k left else s, [])
    | some (.attached lease (written :: left) goesOn) =>
      (if whole then A.write s k lease left goesOn else s, [.carried k written])
    | _ => (s, [])
  | .fail k =>
    match s.tasks[k]? with
    | some (.attached lease _ _) => (A.drop s k lease, [])
    | some _ => ({ s with tasks := s.tasks.set k .ended }, [])
    | none => (s, [])

def machine : Machine (State V) Input (List Effect) := ⟨fun s i => A.step s i⟩

end Config

def State.start {V : Type} : State V := ⟨.empty, 0, 0, true, []⟩

variable {V : Type} {A : Config V}

/-! ## What a request has shown -/

/-- The grant names this user, this server and the operation, and holds now. -/
structure Granted (A : Config V) (now : Int) (connectionGrant : List UInt8) (userId op : String) (claims : GrantClaims) :
    Prop where
  presented : ∃ grant, grantFromWire connectionGrant = some grant ∧
    A.grantVerifier.verify grant A.grantAudience now = .ok claims
  good : A.grantVerifier.Good A.grantAudience now claims
  subject : claims.sub = userId
  permitted : claims.permits op = true
  server : serverText A.serverId ∈ claims.servers

theorem checkGrant_ok {now : Int} {connectionGrant : List UInt8} {userId op : String} {claims : GrantClaims}
    (h : A.checkGrant now connectionGrant userId op = .ok claims) : Granted A now connectionGrant userId op claims := by
  unfold Config.checkGrant at h
  split at h
  · cases h
  · next grant hgrant =>
    split at h
    · cases h
    · cases h
    · next verified hverify =>
      split at h
      · cases h
      · next hscope =>
        cases h
        simp only [not_or, ne_eq, not_not, Bool.not_eq_false] at hscope
        exact ⟨⟨grant, hgrant, hverify⟩, GrantVerifier.verify_ok hverify, hscope.1, hscope.2.1, hscope.2.2⟩

theorem checkGrant_of_verified {now : Int} {connectionGrant : List UInt8} {grant userId op : String} {claims : GrantClaims}
    (hwire : grantFromWire connectionGrant = some grant)
    (hverify : A.grantVerifier.verify grant A.grantAudience now = .ok claims) (hsubject : claims.sub = userId)
    (hpermitted : claims.permits op = true) (hserver : serverText A.serverId ∈ claims.servers) :
    A.checkGrant now connectionGrant userId op = .ok claims := by
  unfold Config.checkGrant
  simp only [hwire, hverify]
  rw [if_neg]
  simp [hsubject, hpermitted, hserver]

/-- The bounds of `validate_open_request`. -/
structure OpenBounded (r : AgentOpenShell) : Prop where
  user : r.userId ≠ ""
  userId : r.userId.utf8ByteSize ≤ agentUserIdBytesMax
  unixAccount : r.unixAccount.utf8ByteSize ≤ agentUnixAccountBytesMax
  command : r.command.utf8ByteSize ≤ agentCommandBytesMax
  grant : r.connectionGrant ≠ []
  connectionGrant : r.connectionGrant.length ≤ agentGrantBytesMax
  idempotencyKey : r.idempotencyKey.length = 16
  cols : r.initialCols ≤ 65535
  rows : r.initialRows ≤ 65535

theorem validateOpenRequest_ok {now : Int} {r : AgentOpenShell} {req : OpenShellRequest}
    (h : A.validateOpenRequest now r = .ok req) :
    OpenBounded r ∧ req.user = r.userId ∧ ∃ claims, Granted A now r.connectionGrant r.userId "open" claims := by
  unfold Config.validateOpenRequest at h
  split at h
  · cases h
  · next hbounds =>
    split at h
    · cases h
    · cases hgrant : A.checkGrant now r.connectionGrant r.userId "open" with
      | error e =>
        rw [hgrant] at h
        cases h
      | ok claims =>
        rw [hgrant] at h
        cases h
        simp only [not_or, not_lt, ne_eq, not_not, gt_iff_lt] at hbounds
        obtain ⟨huser, huserId, haccount, hcommand, hsome, hlength, hkey, hcols, hrows⟩ := hbounds
        exact ⟨⟨huser, huserId, haccount, hcommand, hsome, hlength, hkey, UInt32.not_lt.mp hcols,
          UInt32.not_lt.mp hrows⟩, rfl, claims, checkGrant_ok hgrant⟩

/-- The bounds of `validate_attach_request`. -/
structure AttachBounded (r : AgentAttachShell) : Prop where
  user : r.userId ≠ ""
  userId : r.userId.utf8ByteSize ≤ agentUserIdBytesMax
  grant : r.connectionGrant ≠ []
  connectionGrant : r.connectionGrant.length ≤ agentGrantBytesMax
  cols : r.cols ≤ 65535
  rows : r.rows ≤ 65535

theorem validateAttachRequest_ok {now : Int} {r : AgentAttachShell} {a : AttachmentAuthorization}
    (h : A.validateAttachRequest now r = .ok a) :
    AttachBounded r ∧ a.userId = r.userId ∧
      ∃ claims, Granted A now r.connectionGrant r.userId "attach" claims ∧ a.expiresAtMs = claims.expMs := by
  unfold Config.validateAttachRequest at h
  split at h
  · cases h
  · next hbounds =>
    cases hgrant : A.checkGrant now r.connectionGrant r.userId "attach" with
    | error e =>
      rw [hgrant] at h
      cases h
    | ok claims =>
      rw [hgrant] at h
      cases h
      simp only [not_or, not_lt, ← ne_eq, gt_iff_lt] at hbounds
      obtain ⟨huser, huserId, hsome, hlength, hcols, hrows⟩ := hbounds
      exact ⟨⟨huser, huserId, hsome, hlength, UInt32.not_lt.mp hcols, UInt32.not_lt.mp hrows⟩, rfl, claims,
        checkGrant_ok hgrant, rfl⟩

/-! ## The manager under the agent -/

/-- `rand::random` does not repeat a shell id. -/
def Fresh (A : Config V) (s : State V) : Input → Prop
  | .session op => Manager.FreshId A.core s.manager op
  | .control request env => ∀ op, A.openOp s.now request env = some op → Manager.FreshId A.core s.manager op
  | _ => True

/-- What no call of the manager ends. -/
def Kept (A : Config V) (P : Manager V → Prop) : Prop :=
  ∀ m op, P m → Manager.FreshId A.core m op → P (m.step A.core op).1

theorem kept_drop {P : Manager V → Prop} (hP : Kept A P) {s : State V} (h : P s.manager) (k : Nat) (lease : AttachmentLease) :
    P (A.drop s k lease).manager := hP _ _ h (Manager.freshId_of_not_open _ rfl)

theorem kept_write {P : Manager V → Prop} (hP : Kept A P) {s : State V} (h : P s.manager) (k : Nat) (lease : AttachmentLease)
    (left : List Written) (goesOn : Bool) : P (A.write s k lease left goesOn).manager := by
  unfold Config.write
  split
  · exact h
  · split
    · exact h
    · exact kept_drop hP h k lease

theorem kept_attach {P : Manager V → Prop} (hP : Kept A P) {s : State V} (h : P s.manager) (k : Nat) (first : AgentEnvelope)
    (env : SessionEnv) : P (A.attach s k first env).1.manager := by
  unfold Config.attach
  split
  · exact h
  · next shell a _ =>
    have hcalled : P (s.manager.step A.core (.attachAuthorized a.userId shell a.cols a.rows env.attach)).1 :=
      hP _ _ h (Manager.freshId_of_not_open _ rfl)
    dsimp only
    split
    · exact kept_write hP hcalled _ _ _ _
    · exact hcalled

theorem armOp_quiet {shell : ShellId} {envelope : AgentEnvelope} {env : SessionEnv} {op : Op}
    (h : A.armOp shell envelope env = some op) :
    (∃ data, op = .writeInput shell data env.write) ∨ ∃ cols rows, op = .resize shell cols rows env.resize := by
  unfold Config.armOp at h
  split at h
  · cases h
  · split at h
    · split at h
      · cases h
      · exact .inl ⟨_, (Option.some.inj h).symm⟩
    · split at h
      · cases h
      · exact .inr ⟨_, _, (Option.some.inj h).symm⟩
    · cases h

theorem kept_arm {P : Manager V → Prop} (hP : Kept A P) {s : State V} (h : P s.manager) (k : Nat) (lease : AttachmentLease)
    (envelope : AgentEnvelope) (env : SessionEnv) : P (A.arm s k lease envelope env).1.manager := by
  unfold Config.arm
  refine kept_write hP ?_ _ _ _ _
  cases hop : A.armOp lease.shellId envelope env with
  | none => exact h
  | some op =>
    refine hP _ _ h (Manager.freshId_of_not_open _ ?_)
    obtain ⟨_, rfl⟩ | ⟨_, _, rfl⟩ := armOp_quiet hop <;> rfl

/-- What every call of the manager keeps, every step of the agent keeps. -/
theorem kept_step {P : Manager V → Prop} (hP : Kept A P) {s : State V} (h : P s.manager) {i : Input} (hf : Fresh A s i) :
    P (A.step s i).1.manager := by
  cases i with
  | tick elapsed now => exact h
  | session op => exact hP _ _ h hf
  | control request env =>
    dsimp only [Config.step]
    split
    · unfold Config.control
      dsimp only
      cases hop : A.openOp s.now request env with
      | none => exact h
      | some op => exact hP _ _ h (hf op hop)
    · exact h
  | accept =>
    dsimp only [Config.step]
    split <;> exact h
  | envelope k envelope env =>
    dsimp only [Config.step]
    split
    · exact kept_attach hP h k envelope env
    · exact kept_arm hP h k _ envelope env
    · exact h
  | event k event =>
    dsimp only [Config.step]
    split
    · unfold Config.forward
      split
      · exact kept_drop hP h _ _
      · exact kept_write hP h _ _ _ _
    · exact h
  | expire k =>
    dsimp only [Config.step]
    split
    · split
      · exact kept_write hP h _ _ _ _
      · exact h
    · exact h
  | flush k whole =>
    dsimp only [Config.step]
    split
    · split <;> exact h
    · split
      · exact kept_write hP h _ _ _ _
      · exact h
    · exact h
  | fail k =>
    dsimp only [Config.step]
    split
    · exact kept_drop hP h _ _
    · exact h
    · exact h

theorem kept_idem : Kept A Manager.IdemInv := fun _ _ h hf => Manager.idemInv_step A.core h hf

/-- The manager's invariant, and a shell of this user. -/
def Owned (shell : ShellId) (user : String) (m : Manager V) : Prop :=
  m.IdemInv ∧ ∃ e, m.find shell = some e ∧ e.owner = user

theorem kept_owned (shell : ShellId) (user : String) : Kept A (Owned shell user) := by
  intro m op h hf
  obtain ⟨hidem, e, he, howner⟩ := h
  refine ⟨Manager.idemInv_step A.core hidem hf, ?_⟩
  cases Manager.find_step A.core hidem.keyed hf shell with
  | kept hkept _ => exact ⟨e, hkept ▸ he, howner⟩
  | changed e₀ e' he₀ hstep he' =>
    rw [he] at he₀
    cases he₀
    exact ⟨e', he', hstep.owner_eq.trans howner⟩
  | created req env account hop hnone _ _ _ =>
    rw [he] at hnone
    cases hnone

/-! ## What a step can do -/

/-- What an attachment is after `write`. -/
inductive Writes (now : Int) (instant : Nat) (lease : AttachmentLease) (left : List Written) (goesOn : Bool) :
    AttachmentLease → List Written → Bool → Prop
  | pending : left ≠ [] → Writes now instant lease left goesOn lease left goesOn
  | selecting (expiry : Nat) : left = [] →
      (lease.expiry = some expiry ∨
        lease.expiry = none ∧ expiry = instant + (max 0 (saturatingSub lease.expiresAtMs now)).toNat) →
      Writes now instant lease left goesOn { lease with expiry := some expiry } [] true

/-- The attachment `j` after a step, and where it comes from. -/
inductive AttachedStep (A : Config V) (s : State V) (i : Input) (j : Nat) (lease : AttachmentLease) (left : List Written)
    (goesOn : Bool) : Prop
  | kept : s.tasks[j]? = some (.attached lease left goesOn) → AttachedStep A s i j lease left goesOn
  | made (shell : ShellId) (a : AttachmentAuthorization) (attachment : Attachment) (answers : List Written) :
      .attached j shell a attachment ∈ (A.step s i).2 →
      Writes s.now s.instant ⟨shell, attachment.attachmentId, a.userId, a.expiresAtMs, none⟩ answers true lease left goesOn →
      AttachedStep A s i j lease left goesOn
  | served (before : AttachmentLease) (answers : List Written) (more : Bool) :
      s.tasks[j]? = some (.attached before [] true) →
      (∃ envelope env, i = .envelope j envelope env) ∨ (∃ event, i = .event j event) →
      Writes s.now s.instant before answers more lease left goesOn → AttachedStep A s i j lease left goesOn
  | expired (before : AttachmentLease) : s.tasks[j]? = some (.attached before [] true) →
      Writes s.now s.instant before [.reply (tokenExpired A.serverId before.shellId)] false lease left goesOn →
      AttachedStep A s i j lease left goesOn
  | flushed (before : AttachmentLease) (written : Written) (rest : List Written) (more : Bool) :
      s.tasks[j]? = some (.attached before (written :: rest) more) →
      Writes s.now s.instant before rest more lease left goesOn → AttachedStep A s i j lease left goesOn

theorem attached_set {tasks : List AttachmentTask} {k j : Nat} {t t' : AttachmentTask} (h : (tasks.set k t)[j]? = some t') :
    j ≠ k ∧ tasks[j]? = some t' ∨ j = k ∧ t = t' := by
  rw [List.getElem?_set] at h
  split at h
  · next hkj =>
    split at h
    · exact .inr ⟨hkj.symm, Option.some.inj h⟩
    · cases h
  · next hkj => exact .inl ⟨fun hjk => hkj hjk.symm, h⟩

theorem write_attached {s : State V} {k j : Nat} {lease lease' : AttachmentLease}
    {left left' : List Written} {goesOn goesOn' : Bool}
    (h : (A.write s k lease left goesOn).tasks[j]? = some (.attached lease' left' goesOn')) :
    j ≠ k ∧ s.tasks[j]? = some (.attached lease' left' goesOn') ∨
      j = k ∧ Writes s.now s.instant lease left goesOn lease' left' goesOn' := by
  unfold Config.write at h
  split at h
  · next hleft =>
    obtain h | ⟨hj, heq⟩ := attached_set h
    · exact .inl h
    · cases heq
      exact .inr ⟨hj, .pending hleft⟩
  · next hleft =>
    split at h
    · obtain h | ⟨hj, heq⟩ := attached_set h
      · exact .inl h
      · cases heq
        refine .inr ⟨hj, .selecting _ (not_not.mp hleft) ?_⟩
        cases hexpiry : lease.expiry with
        | none => exact .inr ⟨rfl, rfl⟩
        | some expiry => exact .inl rfl
    · obtain h | ⟨_, heq⟩ := attached_set h
      · exact .inl h
      · cases heq

theorem refuse_attached {s : State V} {k j : Nat} {left answers : List Written} {lease : AttachmentLease} {goesOn : Bool}
    (h : (s.refuse k answers).tasks[j]? = some (.attached lease left goesOn)) :
    s.tasks[j]? = some (.attached lease left goesOn) := by
  unfold State.refuse at h
  obtain ⟨_, h⟩ | ⟨_, heq⟩ := attached_set h
  · exact h
  · split at heq <;> cases heq

theorem attached_step {s : State V} {i : Input} {j : Nat} {lease : AttachmentLease} {left : List Written} {goesOn : Bool}
    (h : (A.step s i).1.tasks[j]? = some (.attached lease left goesOn)) : AttachedStep A s i j lease left goesOn := by
  cases i with
  | tick elapsed now => exact .kept h
  | session op => exact .kept h
  | control request env =>
    dsimp only [Config.step] at h
    split at h <;> exact .kept h
  | accept =>
    dsimp only [Config.step] at h
    split at h
    · rw [List.getElem?_append] at h
      split at h
      · exact .kept h
      · simp only [List.getElem?_singleton] at h
        split at h <;> cases h
    · exact .kept h
  | envelope k envelope env =>
    cases htask : s.tasks[k]? with
    | none =>
      simp only [Config.step, htask] at h
      exact .kept h
    | some task =>
      cases task with
      | opening =>
        simp only [Config.step, htask, Config.attach] at h
        split at h
        · exact .kept (refuse_attached h)
        · next shell a hscope =>
          split at h
          · next attachment hres =>
            obtain ⟨_, h⟩ | ⟨rfl, hw⟩ := write_attached h
            · exact .kept h
            · refine .made shell a attachment _ ?_ hw
              simp only [Config.step, htask, Config.attach, hscope, hres, List.mem_singleton]
          · exact .kept (refuse_attached h)
      | attached before left₀ goesOn₀ =>
        cases left₀ with
        | cons w rest =>
          simp only [Config.step, htask] at h
          exact .kept h
        | nil =>
          cases goesOn₀ with
          | false =>
            simp only [Config.step, htask] at h
            exact .kept h
          | true =>
            simp only [Config.step, htask, Config.arm] at h
            obtain ⟨_, h⟩ | ⟨rfl, hw⟩ := write_attached h
            · exact .kept h
            · exact .served before _ _ htask (.inl ⟨envelope, env, rfl⟩) hw
      | refusing rest =>
        simp only [Config.step, htask] at h
        exact .kept h
      | ended =>
        simp only [Config.step, htask] at h
        exact .kept h
  | event k event =>
    dsimp only [Config.step] at h
    split at h
    · next before htask =>
      dsimp only [Config.forward] at h
      split at h
      · obtain ⟨_, h⟩ | ⟨_, heq⟩ := attached_set h
        · exact .kept h
        · cases heq
      · obtain ⟨_, h⟩ | ⟨rfl, hw⟩ := write_attached h
        · exact .kept h
        · exact .served before _ _ htask (.inr ⟨event, rfl⟩) hw
    · exact .kept h
  | expire k =>
    dsimp only [Config.step] at h
    split at h
    · next before htask =>
      split at h
      · obtain ⟨_, h⟩ | ⟨rfl, hw⟩ := write_attached h
        · exact .kept h
        · exact .expired before htask hw
      · exact .kept h
    · exact .kept h
  | flush k whole =>
    dsimp only [Config.step] at h
    split at h
    · split at h
      · exact .kept (refuse_attached h)
      · exact .kept h
    · next before written rest more htask =>
      split at h
      · obtain ⟨_, h⟩ | ⟨rfl, hw⟩ := write_attached h
        · exact .kept h
        · exact .flushed before written rest more htask hw
      · exact .kept h
    · exact .kept h
  | fail k =>
    dsimp only [Config.step] at h
    split at h
    · obtain ⟨_, h⟩ | ⟨_, heq⟩ := attached_set h
      · exact .kept h
      · cases heq
    · obtain ⟨_, h⟩ | ⟨_, heq⟩ := attached_set h
      · exact .kept h
      · cases heq
    · exact .kept h

theorem writes_same {now : Int} {instant : Nat} {lease lease' : AttachmentLease}
    {left left' : List Written} {goesOn goesOn' : Bool}
    (h : Writes now instant lease left goesOn lease' left' goesOn') :
    lease'.shellId = lease.shellId ∧ lease'.userId = lease.userId ∧ lease'.expiresAtMs = lease.expiresAtMs := by
  cases h <;> exact ⟨rfl, rfl, rfl⟩

/-! ## What a step shows -/

/-- An open, and what its request has shown. -/
structure OpenSound (A : Config V) (s : State V) (request : AgentEnvelope) (env : OpenEnv) (req : OpenShellRequest)
    (o : OpenedShell) (r : AgentOpenShell) (claims : GrantClaims) : Prop where
  scope : ServerId.fromWire request.serverId = some A.serverId
  message : request.message = some (.agentOpenShell r)
  bounded : OpenBounded r
  granted : Granted A s.now r.connectionGrant r.userId "open" claims
  user : req.user = r.userId
  owner : ∃ e, (A.step s (.control request env)).1.manager.find o.shellId = some e ∧ e.owner = r.userId

/-- An attachment, and what its first envelope has shown. -/
structure AttachSound (A : Config V) (s : State V) (first : AgentEnvelope) (shell : ShellId) (a : AttachmentAuthorization)
    (attachment : Attachment) (r : AgentAttachShell) (claims : GrantClaims) : Prop where
  scope : attachmentScope A.serverId first = some shell
  message : first.message = some (.agentAttachShell r)
  bounded : AttachBounded r
  granted : Granted A s.now r.connectionGrant r.userId "attach" claims
  userId : a.userId = r.userId
  expiresAtMs : a.expiresAtMs = claims.expMs
  attached : attachment.shellId = shell
  owner : ∃ e, s.manager.find shell = some e ∧ e.owner = r.userId

theorem openOp_some {now : Int} {request : AgentEnvelope} {env : OpenEnv} {op : Op} (h : A.openOp now request env = some op) :
    ∃ r req, op = .openShell req env ∧ ServerId.fromWire request.serverId = some A.serverId ∧
      request.message = some (.agentOpenShell r) ∧ A.validateOpenRequest now r = .ok req := by
  unfold Config.openOp at h
  split at h
  · cases h
  · next hscope =>
    split at h
    · next r hmessage =>
      cases hvalid : A.validateOpenRequest now r with
      | error e =>
        rw [hvalid] at h
        cases h
      | ok req =>
        rw [hvalid] at h
        cases h
        exact ⟨r, req, rfl, not_not.mp hscope, hmessage, hvalid⟩
    · cases h

theorem attachScope_some {now : Int} {first : AgentEnvelope} {shell : ShellId} {a : AttachmentAuthorization}
    (h : A.attachScope now first = some (shell, a)) :
    ∃ r, attachmentScope A.serverId first = some shell ∧ first.message = some (.agentAttachShell r) ∧
      A.validateAttachRequest now r = .ok a := by
  unfold Config.attachScope at h
  split at h
  · next shell' r hscope hmessage =>
    cases hvalid : A.validateAttachRequest now r with
    | error e =>
      rw [hvalid] at h
      cases h
    | ok a' =>
      rw [hvalid] at h
      cases h
      exact ⟨r, hscope, hmessage, hvalid⟩
  · cases h

theorem attachScope_of {now : Int} {first : AgentEnvelope} {shell : ShellId} {r : AgentAttachShell} {a : AttachmentAuthorization}
    (hshell : attachmentScope A.serverId first = some shell) (hmessage : first.message = some (.agentAttachShell r))
    (hvalid : A.validateAttachRequest now r = .ok a) : A.attachScope now first = some (shell, a) := by
  simp only [Config.attachScope, hshell, hmessage, hvalid, Except.toOption, Option.map_some]

theorem attachAuthorized_attached {S : Server V} {m : Manager V} {owner : String} {id : ShellId} {cols rows : UInt16}
    {env : Runtime.AttachEnv} {a : Attachment} (h : (m.step S (.attachAuthorized owner id cols rows env)).2 = .attached a) :
    a.shellId = id ∧ ∃ e, m.find id = some e ∧ e.owner = owner := by
  simp only [Manager.step, Manager.attachAuthorized, Manager.withEntry] at h
  split at h
  · cases h
  · next e he =>
    dsimp only at h
    split at h
    · cases h
    · next howner =>
      refine ⟨?_, e, Manager.find_of_lookup he, not_not.mp howner⟩
      obtain ⟨err, herr, _⟩ | ⟨rt', a', hok, hattaches⟩ := Runtime.attachRuntime_cases S id e.runtime cols rows env
      · rw [herr] at h
        cases h
      · rw [hok] at h
        cases h
        exact hattaches.shellId

/-- A step, and what it shows. -/
inductive EffectStep (A : Config V) (s : State V) : Input → Effect → Prop
  | answered (request : AgentEnvelope) (env : OpenEnv) (answer : AgentEnvelope) :
      EffectStep A s (.control request env) (.answered answer)
  | opened (request : AgentEnvelope) (env : OpenEnv) (r : AgentOpenShell) (req : OpenShellRequest) (o : OpenedShell) :
      s.serving = true → ServerId.fromWire request.serverId = some A.serverId → request.message = some (.agentOpenShell r) →
      A.validateOpenRequest s.now r = .ok req → A.openOp s.now request env = some (.openShell req env) →
      (s.manager.openShell A.core req env).2 = .opened o → EffectStep A s (.control request env) (.opened req o)
  | attached (k : Nat) (first : AgentEnvelope) (env : SessionEnv) (shell : ShellId) (r : AgentAttachShell)
      (a : AttachmentAuthorization) (attachment : Attachment) : s.tasks[k]? = some .opening →
      attachmentScope A.serverId first = some shell →
      first.message = some (.agentAttachShell r) → A.validateAttachRequest s.now r = .ok a →
      (s.manager.step A.core (.attachAuthorized a.userId shell a.cols a.rows env.attach)).2 = .attached attachment →
      EffectStep A s (.envelope k first env) (.attached k shell a attachment)
  | called (k : Nat) (lease : AttachmentLease) (envelope : AgentEnvelope) (env : SessionEnv) (op : Op) :
      s.tasks[k]? = some (.attached lease [] true) → A.armOp lease.shellId envelope env = some op →
      EffectStep A s (.envelope k envelope env) (.called k op)
  | carried (k : Nat) (whole : Bool) (lease : AttachmentLease) (written : Written) (rest : List Written) (goesOn : Bool) :
      s.tasks[k]? = some (.attached lease (written :: rest) goesOn) → EffectStep A s (.flush k whole) (.carried k written)

theorem openEffects_mem {op : Option Op} {res : Res} {effect : Effect} (h : effect ∈ Config.openEffects op res) :
    ∃ req env o, op = some (.openShell req env) ∧ res = .opened o ∧ effect = .opened req o := by
  unfold Config.openEffects at h
  split at h
  · next req env o => exact ⟨req, env, o, rfl, rfl, List.mem_singleton.mp h⟩
  · cases h

theorem effect_step {s : State V} {i : Input} {effect : Effect} (h : effect ∈ (A.step s i).2) : EffectStep A s i effect := by
  cases i with
  | tick elapsed now => cases h
  | session op => cases h
  | control request env =>
    dsimp only [Config.step] at h
    split at h
    · next hserving =>
      obtain h | h := List.mem_append.mp h
      · obtain ⟨req, env', o, hop, hres, rfl⟩ := openEffects_mem h
        obtain ⟨r, req', heq, hscope, hmessage, hvalid⟩ := openOp_some hop
        cases heq
        rw [hop] at hres
        exact .opened request env r req o hserving hscope hmessage hvalid hop hres
      · obtain ⟨answer, _, rfl⟩ := List.mem_map.mp h
        exact .answered request env answer
    · cases h
  | accept =>
    dsimp only [Config.step] at h
    split at h <;> cases h
  | envelope k envelope env =>
    dsimp only [Config.step] at h
    split at h
    · next htask =>
      unfold Config.attach at h
      split at h
      · cases h
      · next shell a hscope =>
        dsimp only at h
        split at h
        · next attachment hres =>
          cases List.mem_singleton.mp h
          obtain ⟨r, hshell, hmessage, hvalid⟩ := attachScope_some hscope
          exact .attached k envelope env shell r a attachment htask hshell hmessage hvalid hres
        · cases h
    · next lease htask =>
      obtain ⟨op, hop, rfl⟩ := Option.map_eq_some_iff.mp (Option.mem_toList.mp h)
      exact .called k lease envelope env op htask hop
    · cases h
  | event k event =>
    dsimp only [Config.step] at h
    split at h <;> cases h
  | expire k =>
    dsimp only [Config.step] at h
    split at h
    · split at h <;> cases h
    · cases h
  | flush k whole =>
    dsimp only [Config.step] at h
    split at h
    · cases h
    · next lease written rest goesOn htask =>
      cases List.mem_singleton.mp h
      exact .carried k whole lease written rest goesOn htask
    · cases h
  | fail k =>
    dsimp only [Config.step] at h
    split at h <;> cases h

theorem opened_sound {s : State V} (hidem : s.manager.IdemInv) {i : Input} {req : OpenShellRequest} {o : OpenedShell}
    (h : Effect.opened req o ∈ (A.step s i).2) :
    ∃ request env r claims, i = .control request env ∧ OpenSound A s request env req o r claims := by
  cases effect_step h with
  | opened request env r _ _ hserving hscope hmessage hvalid hop hres =>
    obtain ⟨hbounded, huser, claims, hgranted⟩ := validateOpenRequest_ok hvalid
    refine ⟨request, env, r, claims, rfl, hscope, hmessage, hbounded, hgranted, huser, ?_⟩
    obtain ⟨e, he, howner⟩ := Manager.opened_owner A.core hidem hres
    refine ⟨e, ?_, howner.trans huser⟩
    simp only [Config.step, hserving, if_true, Config.control, hop, Config.call, Manager.step]
    exact he

theorem attached_sound {s : State V} {i : Input} {k : Nat} {shell : ShellId} {a : AttachmentAuthorization}
    {attachment : Attachment}
    (h : Effect.attached k shell a attachment ∈ (A.step s i).2) :
    ∃ first env r claims, i = .envelope k first env ∧ AttachSound A s first shell a attachment r claims := by
  cases effect_step h with
  | attached _ first env _ r _ _ _ hshell hmessage hvalid hres =>
    obtain ⟨hbounded, huser, claims, hgranted, hexpires⟩ := validateAttachRequest_ok hvalid
    obtain ⟨hattached, e, he, howner⟩ := attachAuthorized_attached hres
    exact ⟨first, env, r, claims, rfl, hshell, hmessage, hbounded, hgranted, huser, hexpires, hattached, e, he,
      howner.trans huser⟩

/-- Input and sizes go to the attached shell, and only from the loop. -/
theorem called_sound {s : State V} {i : Input} {k : Nat} {op : Op} (h : Effect.called k op ∈ (A.step s i).2) :
    ∃ envelope env lease, i = .envelope k envelope env ∧ s.tasks[k]? = some (.attached lease [] true) ∧
      ((∃ data write, op = .writeInput lease.shellId data write) ∨ ∃ cols rows resize,
        op = .resize lease.shellId cols rows resize) := by
  cases effect_step h with
  | called _ lease envelope env _ htask hop =>
    refine ⟨envelope, env, lease, rfl, htask, ?_⟩
    obtain ⟨data, rfl⟩ | ⟨cols, rows, rfl⟩ := armOp_quiet hop
    · exact .inl ⟨data, _, rfl⟩
    · exact .inr ⟨cols, rows, _, rfl⟩

theorem carried_sound {s : State V} {i : Input} {k : Nat} {written : Written} (h : Effect.carried k written ∈ (A.step s i).2) :
    ∃ lease rest goesOn, s.tasks[k]? = some (.attached lease (written :: rest) goesOn) := by
  cases effect_step h with
  | carried _ whole lease _ rest goesOn htask => exact ⟨lease, rest, goesOn, htask⟩

/-- Input of the attached shell is for the manager, whatever the time. -/
theorem input_called {s : State V} {k : Nat} {lease : AttachmentLease} (htask : s.tasks[k]? = some (.attached lease [] true))
    {envelope : AgentEnvelope} (hscope : attachmentScope A.serverId envelope = some lease.shellId) {data : List UInt8}
    (hmessage : envelope.message = some (.terminalInput data)) (hlength : data.length ≤ agentTerminalInputBytesMax)
    (env : SessionEnv) : .called k (.writeInput lease.shellId data env.write) ∈ (A.step s (.envelope k envelope env)).2 := by
  have hop : A.armOp lease.shellId envelope env = some (.writeInput lease.shellId data env.write) := by
    simp only [Config.armOp, hscope, hmessage, ne_eq, not_true_eq_false, if_false]
    rw [if_neg (by omega)]
  simp only [Config.step, htask, Config.arm, hop, Option.map_some, Option.toList_some, List.mem_singleton]

/-! ## Runs -/

/-- The run has attached the stream `k` to the shell, by this request with these claims. -/
def Attached (A : Config V) (is : List Input) (k : Nat) (shell : ShellId) (r : AgentAttachShell) (claims : GrantClaims) : Prop :=
  ∃ pre first env post a attachment, is = pre ++ .envelope k first env :: post ∧
    .attached k shell a attachment ∈ (A.step (A.machine.run .start pre) (.envelope k first env)).2 ∧
    AttachSound A (A.machine.run .start pre) first shell a attachment r claims

theorem Attached.snoc {is : List Input} {k : Nat} {shell : ShellId} {r : AgentAttachShell} {claims : GrantClaims}
    (h : Attached A is k shell r claims) (i : Input) : Attached A (is ++ [i]) k shell r claims := by
  obtain ⟨pre, first, env, post, a, attachment, rfl, heffect, hsound⟩ := h
  exact ⟨pre, first, env, post ++ [i], a, attachment, by simp, heffect, hsound⟩

/-- The manager's invariant; and a lease was made in the run, and its shell is its user's. -/
structure Inv (A : Config V) (is : List Input) (s : State V) : Prop where
  idem : s.manager.IdemInv
  attached : ∀ k lease left goesOn, s.tasks[k]? = some (.attached lease left goesOn) →
    (∃ r claims, Attached A is k lease.shellId r claims ∧ lease.userId = r.userId ∧ lease.expiresAtMs = claims.expMs) ∧
      Owned lease.shellId lease.userId s.manager

theorem inv_step {is : List Input} (h : Inv A is (A.machine.run .start is)) {i : Input}
    (hf : Fresh A (A.machine.run .start is) i) : Inv A (is ++ [i]) (A.machine.run .start (is ++ [i])) := by
  rw [Machine.run_snoc]
  refine ⟨kept_step kept_idem h.idem hf, fun k lease left goesOn htask => ?_⟩
  -- a lease that came from an earlier one is that one but for its timer
  have hmoved : ∀ before left' more, (A.machine.run .start is).tasks[k]? = some (.attached before left' more) →
      lease.shellId = before.shellId ∧ lease.userId = before.userId ∧ lease.expiresAtMs = before.expiresAtMs →
      (∃ r claims, Attached A (is ++ [i]) k lease.shellId r claims ∧ lease.userId = r.userId ∧ lease.expiresAtMs = claims.expMs) ∧
        Owned lease.shellId lease.userId (A.step (A.machine.run .start is) i).1.manager := by
    intro before left' more hbefore hsame
    obtain ⟨⟨r, claims, hattached, huser, hexpires⟩, howned⟩ := h.attached k before left' more hbefore
    rw [hsame.1, hsame.2.1, hsame.2.2]
    exact ⟨⟨r, claims, hattached.snoc i, huser, hexpires⟩, kept_step (kept_owned _ _) howned hf⟩
  cases attached_step htask with
  | kept hkept => exact hmoved lease left goesOn hkept ⟨rfl, rfl, rfl⟩
  | made shell a attachment answers heffect hw =>
    obtain ⟨hshell, huser, hexpires⟩ := writes_same hw
    obtain ⟨first, env, r, claims, rfl, hsound⟩ := attached_sound heffect
    rw [hshell, huser, hexpires]
    refine ⟨⟨r, claims, ⟨is, first, env, [], a, attachment, rfl, heffect, hsound⟩, hsound.userId, hsound.expiresAtMs⟩, ?_⟩
    obtain ⟨e, he, howner⟩ := hsound.owner
    exact kept_step (kept_owned _ _) ⟨h.idem, e, he, howner.trans hsound.userId.symm⟩ hf
  | served before answers more hbefore _ hw => exact hmoved before _ _ hbefore (writes_same hw)
  | expired before hbefore hw => exact hmoved before _ _ hbefore (writes_same hw)
  | flushed before written rest more hbefore hw => exact hmoved before _ _ hbefore (writes_same hw)

theorem inv_run {is : List Input} (hf : A.machine.Admissible (Fresh A) .start is) : Inv A is (A.machine.run .start is) := by
  induction is using List.reverseRecOn with
  | nil => exact ⟨Manager.idemInv_empty, fun k lease left goesOn htask => by cases htask⟩
  | append_singleton is i ih =>
    obtain ⟨hinit, hlast⟩ := A.machine.admissible_snoc.mp hf
    exact inv_step (ih hinit) hlast

/-! ## One attachment a stream -/

/-- The stream `k` has had its first envelope. -/
def Begun (s : State V) (k : Nat) : Prop := ∃ task, s.tasks[k]? = some task ∧ task ≠ .opening

theorem Begun.manager {s : State V} {k : Nat} (h : Begun s k) (m : Manager V) : Begun { s with manager := m } k := h

theorem begun_set {s s' : State V} {j k : Nat} {task : AttachmentTask} (h : Begun s k) (hne : task ≠ .opening)
    (htasks : s'.tasks = s.tasks.set j task) : Begun s' k := by
  obtain ⟨t, ht, hbegun⟩ := h
  by_cases hjk : j = k
  · subst hjk
    refine ⟨task, ?_, hne⟩
    rw [htasks, List.getElem?_set_self (List.getElem?_eq_some_iff.mp ht).1]
  · exact ⟨t, by rw [htasks, List.getElem?_set_ne hjk, ht], hbegun⟩

theorem begun_write {s : State V} {k : Nat} (h : Begun s k) (j : Nat) (lease : AttachmentLease) (left : List Written)
    (goesOn : Bool) : Begun (A.write s j lease left goesOn) k := by
  unfold Config.write
  split
  · exact begun_set h (by simp : AttachmentTask.attached lease left goesOn ≠ .opening) rfl
  · split
    · exact begun_set h (AttachmentTask.noConfusion : AttachmentTask.attached _ [] true ≠ .opening) rfl
    · exact begun_set h (by simp : AttachmentTask.ended ≠ .opening) rfl

theorem begun_refuse {s : State V} {k : Nat} (h : Begun s k) (j : Nat) (left : List Written) : Begun (s.refuse j left) k := by
  refine begun_set h ?_ rfl
  split <;> simp

theorem begun_step {s : State V} {k : Nat} (h : Begun s k) (i : Input) : Begun (A.step s i).1 k := by
  cases i with
  | tick elapsed now => exact h
  | session op => exact h
  | control request env =>
    dsimp only [Config.step]
    split <;> exact h
  | accept =>
    dsimp only [Config.step]
    split
    · obtain ⟨task, htask, hne⟩ := h
      exact ⟨task, by rw [List.getElem?_append_left (List.getElem?_eq_some_iff.mp htask).1, htask], hne⟩
    · exact h
  | envelope j envelope env =>
    dsimp only [Config.step]
    split
    · unfold Config.attach
      split
      · exact begun_refuse h _ _
      · dsimp only
        split
        · exact begun_write (h.manager _) _ _ _ _
        · exact begun_refuse (h.manager _) _ _
    · exact begun_write (h.manager _) _ _ _ _
    · exact h
  | event j event =>
    dsimp only [Config.step]
    split
    · unfold Config.forward
      split
      · exact begun_set h (by simp : AttachmentTask.ended ≠ .opening) rfl
      · exact begun_write h _ _ _ _
    · exact h
  | expire j =>
    dsimp only [Config.step]
    split
    · split
      · exact begun_write h _ _ _ _
      · exact h
    · exact h
  | flush j whole =>
    dsimp only [Config.step]
    split
    · split
      · exact begun_refuse h _ _
      · exact h
    · split
      · exact begun_write h _ _ _ _
      · exact h
    · exact h
  | fail j =>
    dsimp only [Config.step]
    split
    · exact begun_set h (by simp : AttachmentTask.ended ≠ .opening) rfl
    · exact begun_set h (by simp : AttachmentTask.ended ≠ .opening) rfl
    · exact h

/-- An attach that has been authorised, and that the manager makes: its reply is to be
    written. -/
theorem attach_accepts {s : State V} {first : AgentEnvelope} {env : SessionEnv} {shell : ShellId} {a : AttachmentAuthorization}
    {attachment : Attachment} (hscope : A.attachScope s.now first = some (shell, a))
    (hres : (s.manager.step A.core (.attachAuthorized a.userId shell a.cols a.rows env.attach)).2 = .attached attachment)
    (k : Nat) : ∃ answer, A.attach s k first env =
      ({ s with
          manager := (s.manager.step A.core (.attachAuthorized a.userId shell a.cols a.rows env.attach)).1
          tasks := s.tasks.set k
            (.attached ⟨shell, attachment.attachmentId, a.userId, a.expiresAtMs, none⟩ [.reply answer] true) },
        [.attached k shell a attachment]) := by
  obtain ⟨r, hshell, hmessage, hvalid⟩ := attachScope_some hscope
  have hauthorized : A.attachAuthorized s.now first = .ok () := by
    simp only [Config.attachAuthorized, hmessage, hvalid]
    rfl
  refine ⟨attachmentReply A.serverId shell first.requestId (.agentShellAttached attachment.snapshot attachment.screenRevision
    attachment.oldestHistoryLineId attachment.newestHistoryLineId), ?_⟩
  simp only [Config.attach, hscope, hres, hauthorized, asked, attachedOf, attachFirst, hshell, hmessage,
    List.map_cons, List.map_nil,
    Config.write, ne_eq, reduceCtorEq, not_false_eq_true, if_true]

/-- When that has been taken, the timer is set and the loop selects. -/
theorem attach_replied {s : State V} {first : AgentEnvelope} {env : SessionEnv} {shell : ShellId} {a : AttachmentAuthorization}
    {attachment : Attachment} {k : Nat} (htask : s.tasks[k]? = some .opening)
    (hscope : A.attachScope s.now first = some (shell, a))
    (hres : (s.manager.step A.core (.attachAuthorized a.userId shell a.cols a.rows env.attach)).2 = .attached attachment) :
    (A.machine.run s [.envelope k first env, .flush k true]).tasks =
        s.tasks.set k (.attached ⟨shell, attachment.attachmentId, a.userId, a.expiresAtMs,
          some (s.instant + (max 0 (saturatingSub a.expiresAtMs s.now)).toNat)⟩ [] true) ∧
      (A.machine.run s [.envelope k first env, .flush k true]).now = s.now ∧
      (A.machine.run s [.envelope k first env, .flush k true]).instant = s.instant := by
  obtain ⟨answer, hattach⟩ := attach_accepts hscope hres k
  have hlength : k < s.tasks.length := (List.getElem?_eq_some_iff.mp htask).1
  simp only [Machine.run_cons, Machine.run_nil, Machine.next, Config.machine, Config.step, htask, hattach,
    List.getElem?_set_self hlength, if_true, Config.write, ne_eq, not_true_eq_false, if_false, Option.getD_none, List.set_set,
    and_true]

/-- An attach is the first thing its stream does, and leaves its lease. -/
theorem attach_begins {s : State V} {i : Input} {k : Nat} {shell : ShellId} {a : AttachmentAuthorization}
    {attachment : Attachment}
    (h : Effect.attached k shell a attachment ∈ (A.step s i).2) :
    ¬ Begun s k ∧ ∃ lease left, (A.step s i).1.tasks[k]? = some (.attached lease left true) ∧ lease.shellId = shell ∧
      lease.expiresAtMs = a.expiresAtMs := by
  cases effect_step h with
  | attached _ first env _ r _ _ htask hshell hmessage hvalid hres =>
    have hscope : A.attachScope s.now first = some (shell, a) := attachScope_of hshell hmessage hvalid
    have hlength : k < s.tasks.length := (List.getElem?_eq_some_iff.mp htask).1
    refine ⟨?_, ?_⟩
    · rintro ⟨task, htask', hne⟩
      rw [htask] at htask'
      exact hne (Option.some.inj htask').symm
    · obtain ⟨answer, hattach⟩ := attach_accepts hscope hres k
      simp only [Config.step, htask, hattach]
      exact ⟨_, _, List.getElem?_set_self hlength, rfl, rfl⟩

theorem attached_once {is : List Input} : ∀ {k : Nat} {shell : ShellId} {r : AgentAttachShell} {claims : GrantClaims},
    Attached A is k shell r claims → Begun (A.machine.run .start is) k ∧
      ∀ lease left goesOn, (A.machine.run .start is).tasks[k]? = some (.attached lease left goesOn) →
        lease.shellId = shell ∧ lease.expiresAtMs = claims.expMs := by
  induction is using List.reverseRecOn with
  | nil =>
    intro k shell r claims h
    obtain ⟨pre, first, env, post, a, attachment, heq, _⟩ := h
    simp at heq
  | append_singleton is i ih =>
    intro k shell r claims h
    obtain ⟨pre, first, env, post, a, attachment, heq, heffect, hsound⟩ := h
    rw [Machine.run_snoc]
    obtain rfl | ⟨post, j, rfl⟩ := post.eq_nil_or_concat
    · obtain ⟨rfl, hi⟩ := List.append_inj' heq rfl
      cases hi
      obtain ⟨_, lease, left, htask, hshell, hexpires⟩ := attach_begins heffect
      refine ⟨⟨_, htask, by simp⟩, fun lease' left' goesOn htask' => ?_⟩
      cases htask.symm.trans htask'
      exact ⟨hshell, hexpires.trans hsound.expiresAtMs⟩
    · rw [List.concat_eq_append, ← List.cons_append, ← List.append_assoc] at heq
      obtain ⟨rfl, hi⟩ := List.append_inj' heq rfl
      obtain ⟨hbegun, hlease⟩ := ih ⟨pre, first, env, post, a, attachment, rfl, heffect, hsound⟩
      refine ⟨begun_step hbegun i, fun lease left goesOn htask => ?_⟩
      cases attached_step htask with
      | kept hkept => exact hlease lease left goesOn hkept
      | made _ _ _ _ hmade _ => exact absurd hbegun (attach_begins hmade).1
      | served before answers more hbefore _ hw =>
        obtain ⟨hshell, _, hexpires⟩ := writes_same hw
        exact ⟨hshell.trans (hlease before _ _ hbefore).1, hexpires.trans (hlease before _ _ hbefore).2⟩
      | expired before hbefore hw =>
        obtain ⟨hshell, _, hexpires⟩ := writes_same hw
        exact ⟨hshell.trans (hlease before _ _ hbefore).1, hexpires.trans (hlease before _ _ hbefore).2⟩
      | flushed before written rest more hbefore hw =>
        obtain ⟨hshell, _, hexpires⟩ := writes_same hw
        exact ⟨hshell.trans (hlease before _ _ hbefore).1, hexpires.trans (hlease before _ _ hbefore).2⟩

/-! ## Nothing else -/

/-- No shell and no attachment that was not there. -/
def NoneNew (m m' : Manager V) : Prop :=
  ∀ id e', m'.find id = some e' → ∃ e, m.find id = some e ∧ e'.runtime.attachments ⊆ e.runtime.attachments

theorem NoneNew.refl (m : Manager V) : NoneNew m m := fun _ e' he' => ⟨e', he', Finset.Subset.refl _⟩

theorem NoneNew.trans {m m' m'' : Manager V} (h : NoneNew m m') (h' : NoneNew m' m'') : NoneNew m m'' := by
  intro id e'' he''
  obtain ⟨e', he', hsub'⟩ := h' id e'' he''
  obtain ⟨e, he, hsub⟩ := h id e' he'
  exact ⟨e, he, hsub'.trans hsub⟩

/-- The calls an attachment makes. -/
inductive Quiet : Op → Prop
  | writeInput (id : ShellId) (data : List UInt8) (env : Runtime.WriteEnv) : Quiet (.writeInput id data env)
  | resize (id : ShellId) (cols rows : UInt16) (outcome : Except PtyError Unit) : Quiet (.resize id cols rows outcome)
  | detach (id : ShellId) (attachmentId : Nat) : Quiet (.detach id attachmentId)

theorem noneNew_quiet {S : Server V} {m : Manager V} (hkeyed : m.Keyed) {op : Op} (hop : Quiet op) :
    NoneNew m (m.step S op).1 := by
  intro id e' he'
  have hfresh : Manager.FreshId S m op := by cases hop <;> exact Manager.freshId_of_not_open _ rfl
  cases Manager.find_step S hkeyed hfresh id with
  | kept hkept _ => exact ⟨e', hkept ▸ he', Finset.Subset.refl _⟩
  | changed e e'' he hstep he'' =>
    rw [he'] at he''
    cases he''
    refine ⟨e, he, ?_⟩
    cases hop with
    | writeInput _ data env =>
      generalize (m.step S (.writeInput _ data env)).2 = res at hstep
      cases hstep with
      | writeInput =>
        obtain ⟨pty, _, heq⟩ := Runtime.writeInput_fst e.runtime data env
        rw [heq]
    | resize _ cols rows outcome =>
      generalize (m.step S (.resize _ cols rows outcome)).2 = res at hstep
      cases hstep with
      | resize =>
        obtain ⟨pty, model, _, heq⟩ := Runtime.resize_fst S e.runtime cols rows outcome
        rw [heq]
    | detach _ attachmentId =>
      generalize (m.step S (.detach _ attachmentId)).2 = res at hstep
      cases hstep with
      | detach => exact Finset.erase_subset _ _
  | created req env account heq _ _ _ _ =>
    subst heq
    cases hop

theorem openShell_same {S : Server V} {m : Manager V} {req : OpenShellRequest} {env : OpenEnv}
    (h : ∀ o, (m.openShell S req env).2 ≠ .opened o) : (m.openShell S req env).1 = m := by
  unfold Manager.openShell at h ⊢
  split
  · next existing entry hr =>
    rw [hr] at h
    exact absurd rfl (h _)
  · next hr =>
    rw [hr] at h
    obtain ⟨err, herr⟩ | ⟨account, _, hopened⟩ := Manager.openFresh_cases (S := S) env hr
    · rw [herr]
    · simp only [hopened] at h
      exact absurd rfl (h _)

theorem attachAuthorized_same {S : Server V} {m : Manager V} {owner : String} {id : ShellId} {cols rows : UInt16}
    {env : Runtime.AttachEnv} (h : ∀ a, (m.step S (.attachAuthorized owner id cols rows env)).2 ≠ .attached a) :
    (m.step S (.attachAuthorized owner id cols rows env)).1 = m := by
  simp only [Manager.step, Manager.attachAuthorized, Manager.withEntry] at h ⊢
  split
  · rfl
  · next e he =>
    rw [he] at h
    dsimp only at h ⊢
    by_cases howner : e.owner = owner
    · simp only [howner, ne_eq, not_true_eq_false, if_false] at h ⊢
      obtain ⟨err, herr, _⟩ | ⟨rt', a, hok, _⟩ := Runtime.attachRuntime_cases S id e.runtime cols rows env
      · rw [herr, Manager.setRuntime_self he]
      · rw [hok] at h
        exact absurd rfl (h a)
    · simp only [ne_eq, howner, not_false_eq_true, if_true, Manager.setRuntime_self he]

theorem noneNew_write {s : State V} (hkeyed : s.manager.Keyed) (k : Nat) (lease : AttachmentLease) (left : List Written)
    (goesOn : Bool) : NoneNew s.manager (A.write s k lease left goesOn).manager := by
  unfold Config.write
  split
  · exact .refl _
  · split
    · exact .refl _
    · exact noneNew_quiet hkeyed (.detach _ _)

/-- A step that shows neither an open nor an attach has done neither. -/
theorem noneNew_step {s : State V} (hidem : s.manager.IdemInv) {i : Input} (hown : ∀ op, i ≠ .session op)
    (hopened : ∀ req o, .opened req o ∉ (A.step s i).2)
    (hattached : ∀ k shell a attachment, .attached k shell a attachment ∉ (A.step s i).2) :
    NoneNew s.manager (A.step s i).1.manager := by
  cases i with
  | tick elapsed now => exact .refl _
  | session op => exact absurd rfl (hown op)
  | control request env =>
    dsimp only [Config.step] at hopened ⊢
    split at hopened
    · next hserving =>
      rw [if_pos hserving]
      unfold Config.control at hopened ⊢
      dsimp only at hopened ⊢
      cases hop : A.openOp s.now request env with
      | none => exact .refl _
      | some op =>
        obtain ⟨r, req, rfl, _⟩ := openOp_some hop
        rw [hop] at hopened
        have hsame : (s.manager.openShell A.core req env).1 = s.manager := by
          refine openShell_same fun o ho => hopened req o (List.mem_append_left _ ?_)
          simp only [Config.call, Manager.step, ho, Config.openEffects, List.mem_singleton]
        simp only [Config.call, Manager.step, hsame]
        exact .refl _
    · next hserving =>
      rw [if_neg hserving]
      exact .refl _
  | accept =>
    dsimp only [Config.step]
    split <;> exact .refl _
  | envelope k envelope env =>
    dsimp only [Config.step] at hattached ⊢
    split at hattached
    · unfold Config.attach at hattached ⊢
      split at hattached
      · exact .refl _
      · next shell a hscope =>
        dsimp only at hattached ⊢
        have hsame : (s.manager.step A.core (.attachAuthorized a.userId shell a.cols a.rows env.attach)).1 = s.manager := by
          refine attachAuthorized_same fun attachment hres => ?_
          rw [hres] at hattached
          exact hattached k shell a attachment (List.mem_singleton.mpr rfl)
        split
        · next attachment hres =>
          rw [hres] at hattached
          exact absurd (List.mem_singleton.mpr rfl) (hattached k shell a attachment)
        · rw [State.refuse, hsame]
          exact .refl _
    · next lease _ =>
      unfold Config.arm
      dsimp only
      cases hop : A.armOp lease.shellId envelope env with
      | none => exact noneNew_write hidem.keyed _ _ _ _
      | some op =>
        have hquiet : Quiet op := by
          obtain ⟨data, rfl⟩ | ⟨cols, rows, rfl⟩ := armOp_quiet hop
          · exact .writeInput _ _ _
          · exact .resize _ _ _ _
        refine (noneNew_quiet (S := A.core) hidem.keyed hquiet).trans ?_
        exact noneNew_write (s := { s with manager := (s.manager.step A.core op).1 })
          (Manager.keyed_step A.core hidem.keyed op) _ _ _ _
    · exact .refl _
  | event k event =>
    dsimp only [Config.step]
    split
    · unfold Config.forward
      split
      · exact noneNew_quiet hidem.keyed (.detach _ _)
      · exact noneNew_write hidem.keyed _ _ _ _
    · exact .refl _
  | expire k =>
    dsimp only [Config.step]
    split
    · split
      · exact noneNew_write hidem.keyed _ _ _ _
      · exact .refl _
    · exact .refl _
  | flush k whole =>
    dsimp only [Config.step]
    split
    · split <;> exact .refl _
    · split
      · exact noneNew_write hidem.keyed _ _ _ _
      · exact .refl _
    · exact .refl _
  | fail k =>
    dsimp only [Config.step]
    split
    · exact noneNew_quiet hidem.keyed (.detach _ _)
    · exact .refl _
    · exact .refl _

/-! ## Time -/

/-- While it lasts the clock is not set forward, and nothing of its shell is being written
    when its grant expires. -/
def AttachmentTask.steady (now : Int) (elapsed : Nat) (now' : Int) : AttachmentTask → Bool
  | .attached lease left _ => decide (now' ≤ now + elapsed) && (!left.any Written.isOutput || decide (now' < lease.expiresAtMs))
  | _ => true

/-- And a timer that has elapsed is taken. -/
def timely (s : State V) : Input → Bool
  | .tick elapsed now => s.tasks.all (·.steady s.now elapsed now)
  | .envelope k _ _ | .event k _ =>
    match s.tasks[k]? with
    | some (.attached lease [] true) => !lease.elapsed s.instant
    | _ => true
  | _ => true

abbrev Timely (s : State V) (i : Input) : Prop := timely s i = true

/-- The timer of a lease is not set for later than its grant expires, it is set when the
    loop selects, and what is being written is written in time. -/
structure OnTime (now : Int) (instant : Nat) (lease : AttachmentLease) (left : List Written) : Prop where
  timer : ∀ expiry, lease.expiry = some expiry → (expiry : Int) ≤ instant + max 0 (lease.expiresAtMs - now)
  set : left = [] → lease.expiry.isSome
  writing : left.any Written.isOutput = true → now < lease.expiresAtMs

theorem OnTime.writes {now : Int} {instant : Nat} {lease lease' : AttachmentLease} {left left' answers : List Written}
    {goesOn goesOn' : Bool} (h : OnTime now instant lease left)
    (hanswers : answers.any Written.isOutput = true → now < lease.expiresAtMs)
    (hw : Writes now instant lease answers goesOn lease' left' goesOn') : OnTime now instant lease' left' := by
  cases hw with
  | pending hne => exact ⟨h.timer, fun hnil => absurd hnil hne, hanswers⟩
  | selecting expiry hnil hexpiry =>
    refine ⟨fun d hd => ?_, fun _ => rfl, fun hw => by cases hw⟩
    cases hd
    obtain hset | ⟨_, rfl⟩ := hexpiry
    · exact h.timer expiry hset
    · have hsat : saturatingSub lease.expiresAtMs now ≤ max 0 (lease.expiresAtMs - now) := by
        unfold saturatingSub
        omega
      dsimp only
      omega

/-- Where the timer has not elapsed, the grant holds. -/
theorem OnTime.holds {now : Int} {instant : Nat} {lease : AttachmentLease} (h : OnTime now instant lease [])
    (helapsed : lease.elapsed instant = false) : now < lease.expiresAtMs := by
  obtain ⟨expiry, hexpiry⟩ := Option.isSome_iff_exists.mp (h.set rfl)
  have htimer := h.timer expiry hexpiry
  simp only [AttachmentLease.elapsed, hexpiry, Option.any_some, decide_eq_false_iff_not, not_le] at helapsed
  omega

/-- Every lease is on time. -/
def AllOnTime (s : State V) : Prop :=
  ∀ (k : Nat) (lease : AttachmentLease) (left : List Written) (goesOn : Bool),
    s.tasks[k]? = some (AttachmentTask.attached lease left goesOn) → OnTime s.now s.instant lease left

theorem write_clock (s : State V) (k : Nat) (lease : AttachmentLease) (left : List Written) (goesOn : Bool) :
    (A.write s k lease left goesOn).now = s.now ∧ (A.write s k lease left goesOn).instant = s.instant := by
  unfold Config.write
  split
  · exact ⟨rfl, rfl⟩
  · split <;> exact ⟨rfl, rfl⟩

theorem step_clock (s : State V) {i : Input} (h : ∀ elapsed now, i ≠ .tick elapsed now) :
    (A.step s i).1.now = s.now ∧ (A.step s i).1.instant = s.instant := by
  cases i with
  | tick elapsed now => exact absurd rfl (h elapsed now)
  | session op => exact ⟨rfl, rfl⟩
  | control request env =>
    dsimp only [Config.step]
    split <;> exact ⟨rfl, rfl⟩
  | accept =>
    dsimp only [Config.step]
    split <;> exact ⟨rfl, rfl⟩
  | envelope k envelope env =>
    dsimp only [Config.step]
    split
    · unfold Config.attach
      split
      · exact ⟨rfl, rfl⟩
      · dsimp only
        split
        · exact write_clock _ _ _ _ _
        · exact ⟨rfl, rfl⟩
    · exact write_clock _ _ _ _ _
    · exact ⟨rfl, rfl⟩
  | event k event =>
    dsimp only [Config.step]
    split
    · unfold Config.forward
      split
      · exact ⟨rfl, rfl⟩
      · exact write_clock _ _ _ _ _
    · exact ⟨rfl, rfl⟩
  | expire k =>
    dsimp only [Config.step]
    split
    · split
      · exact write_clock _ _ _ _ _
      · exact ⟨rfl, rfl⟩
    · exact ⟨rfl, rfl⟩
  | flush k whole =>
    dsimp only [Config.step]
    split
    · split <;> exact ⟨rfl, rfl⟩
    · split
      · exact write_clock _ _ _ _ _
      · exact ⟨rfl, rfl⟩
    · exact ⟨rfl, rfl⟩
  | fail k =>
    dsimp only [Config.step]
    split <;> exact ⟨rfl, rfl⟩

theorem onTime_tick {now now' : Int} {instant elapsed : Nat} {lease : AttachmentLease} {left : List Written} {goesOn : Bool}
    (h : OnTime now instant lease left) (hsteady : (AttachmentTask.attached lease left goesOn).steady now elapsed now' = true) :
    OnTime now' (instant + elapsed) lease left := by
  simp only [AttachmentTask.steady, Bool.and_eq_true, decide_eq_true_eq, Bool.or_eq_true, Bool.not_eq_true'] at hsteady
  refine ⟨fun expiry hexpiry => ?_, h.set, fun hw => ?_⟩
  · have htimer := h.timer expiry hexpiry
    push_cast
    omega
  · obtain hnone | hlt := hsteady.2
    · rw [hw] at hnone
      cases hnone
    · exact hlt

theorem timely_envelope {s : State V} {k : Nat} {lease : AttachmentLease} (htask : s.tasks[k]? = some (.attached lease [] true))
    (helapsed : lease.elapsed s.instant = false) (envelope : AgentEnvelope) (env : SessionEnv) :
    Timely s (.envelope k envelope env) := by
  simp only [Timely, timely, htask, helapsed, Bool.not_false]

theorem timely_holds {s : State V} (h : AllOnTime s) {k : Nat} {lease : AttachmentLease}
    (htask : s.tasks[k]? = some (.attached lease [] true)) {i : Input} (ht : Timely s i)
    (hi : (∃ envelope env, i = .envelope k envelope env) ∨ ∃ event, i = .event k event) : s.now < lease.expiresAtMs := by
  refine (h k lease [] true htask).holds ?_
  obtain ⟨envelope, env, rfl⟩ | ⟨event, rfl⟩ := hi
  · simpa [Timely, timely, htask] using ht
  · simpa [Timely, timely, htask] using ht

theorem allOnTime_step {s : State V} (h : AllOnTime s) {i : Input} (ht : Timely s i) : AllOnTime (A.step s i).1 := by
  intro k lease left goesOn htask
  by_cases htick : ∃ elapsed now, i = .tick elapsed now
  · obtain ⟨elapsed, now, rfl⟩ := htick
    exact onTime_tick (h k lease left goesOn htask) (List.all_eq_true.mp ht _ (List.mem_of_getElem? htask))
  · obtain ⟨hnow, hinstant⟩ := step_clock (A := A) s (i := i) fun elapsed now heq => htick ⟨elapsed, now, heq⟩
    rw [hnow, hinstant]
    cases attached_step htask with
    | kept hkept => exact h k lease left goesOn hkept
    | made shell a attachment answers heffect hw =>
      obtain ⟨_, _, _, claims, _, hsound⟩ := attached_sound heffect
      have hlt : s.now < a.expiresAtMs := hsound.expiresAtMs ▸ hsound.granted.good.notExpired
      -- nothing is set yet, and the reply is all there is
      have hmade : OnTime s.now s.instant ⟨shell, attachment.attachmentId, a.userId, a.expiresAtMs, none⟩
          [.reply (tokenExpired A.serverId shell)] :=
        ⟨fun _ hexpiry => (by cases hexpiry), fun hnil => (by cases hnil), fun _ => hlt⟩
      exact hmade.writes (fun _ => hlt) hw
    | served before answers more hbefore hi hw =>
      exact (h k before [] true hbefore).writes (fun _ => timely_holds h hbefore ht hi) hw
    | expired before hbefore hw =>
      exact (h k before [] true hbefore).writes (fun hout => by cases hout) hw
    | flushed before written rest more hbefore hw =>
      have hon := h k before (written :: rest) more hbefore
      refine hon.writes (fun hout => hon.writing ?_) hw
      rw [List.any_cons, hout, Bool.or_true]

theorem allOnTime_run {is : List Input} (ht : A.machine.Admissible Timely .start is) : AllOnTime (A.machine.run .start is) :=
  A.machine.run_induction (P := AllOnTime) (fun _ _ h ht => allOnTime_step h ht) (fun _ _ _ _ htask => by cases htask) ht

/-! ## The whole -/

/-- What a step shows, after this run. -/
def Sound (A : Config V) (is : List Input) (i : Input) : Effect → Prop
  | .answered _ => True
  | .opened req o =>
    ∃ request env r claims, i = .control request env ∧ OpenSound A (A.machine.run .start is) request env req o r claims
  | .attached k shell a attachment =>
    ∃ first env r claims, i = .envelope k first env ∧ AttachSound A (A.machine.run .start is) first shell a attachment r claims
  | .called k op =>
    ∃ shell r claims, Attached A is k shell r claims ∧ Owned shell r.userId (A.machine.run .start is).manager ∧
      ((∃ data env, op = .writeInput shell data env) ∨ ∃ cols rows resize, op = .resize shell cols rows resize)
  | .carried k _ =>
    ∃ shell r claims, Attached A is k shell r claims ∧ Owned shell r.userId (A.machine.run .start is).manager

/-- And it carries nothing of a shell after the grant of its attachment. -/
def InTime (A : Config V) (is : List Input) : Effect → Prop
  | .called k _ => ∀ shell r claims, Attached A is k shell r claims → (A.machine.run .start is).now < claims.expMs
  | .carried k written =>
    written.isOutput = true → ∀ shell r claims, Attached A is k shell r claims → (A.machine.run .start is).now < claims.expMs
  | _ => True

/-- After any run: a step that shows an open or an attach had a grant for it, within the
    bounds and for this server, whose subject owns the shell; one that does not has made
    none; and what goes in or out belongs to such an attachment. Where no timer that has
    elapsed is passed over, the clock is not set forward while an attachment lasts and no
    output is being written when its grant expires, nothing goes in or out after that. -/
theorem agent_authorised (A : Config V) (is : List Input) (i : Input)
    (hfresh : A.machine.Admissible (Fresh A) .start (is ++ [i])) :
    (∀ effect ∈ (A.step (A.machine.run .start is) i).2, Sound A is i effect) ∧
      ((∀ op, i ≠ .session op) → (∀ req o, .opened req o ∉ (A.step (A.machine.run .start is) i).2) →
        (∀ k shell a attachment, .attached k shell a attachment ∉ (A.step (A.machine.run .start is) i).2) →
        NoneNew (A.machine.run .start is).manager (A.step (A.machine.run .start is) i).1.manager) ∧
      (A.machine.Admissible Timely .start (is ++ [i]) →
        ∀ effect ∈ (A.step (A.machine.run .start is) i).2, InTime A is effect) := by
  obtain ⟨hrun, _⟩ := A.machine.admissible_snoc.mp hfresh
  have hinv := inv_run hrun
  refine ⟨fun effect heffect => ?_, noneNew_step hinv.idem, fun htimely effect heffect => ?_⟩
  · cases effect with
    | answered answer => trivial
    | opened req o => exact opened_sound hinv.idem heffect
    | attached k shell a attachment => exact attached_sound heffect
    | called k op =>
      obtain ⟨_, _, lease, _, htask, hop⟩ := called_sound heffect
      obtain ⟨⟨r, claims, hattached, huser, _⟩, howned⟩ := hinv.attached k lease [] true htask
      exact ⟨lease.shellId, r, claims, hattached, huser ▸ howned, hop⟩
    | carried k written =>
      obtain ⟨lease, rest, goesOn, htask⟩ := carried_sound heffect
      obtain ⟨⟨r, claims, hattached, huser, _⟩, howned⟩ := hinv.attached k lease _ goesOn htask
      exact ⟨lease.shellId, r, claims, hattached, huser ▸ howned⟩
  · obtain ⟨hbefore, hlast⟩ := A.machine.admissible_snoc.mp htimely
    have honTime := allOnTime_run hbefore
    cases effect with
    | answered answer => trivial
    | opened req o => trivial
    | attached k shell a attachment => trivial
    | called k op =>
      obtain ⟨envelope, env, lease, rfl, htask, _⟩ := called_sound heffect
      intro shell r claims hattached
      rw [← ((attached_once hattached).2 lease [] true htask).2]
      exact timely_holds honTime htask hlast (.inl ⟨envelope, env, rfl⟩)
    | carried k written =>
      obtain ⟨lease, rest, goesOn, htask⟩ := carried_sound heffect
      intro hout shell r claims hattached
      rw [← ((attached_once hattached).2 lease _ goesOn htask).2]
      refine (honTime k lease _ goesOn htask).writing ?_
      rw [List.any_cons, hout, Bool.true_or]

/-! ## An attachment with its grant -/

/-- `{"sub":"alice","aud":"host","servers":["srv_07070707070707070707070707070707"],
    "ops":["attach"],"iat_ms":900,"exp_ms":90000,"jti":"j"}` -/
def attachPayload : List UInt8 :=
  [123, 34, 115, 117, 98, 34, 58, 34, 97, 108, 105, 99, 101, 34, 44, 34, 97, 117, 100, 34, 58, 34, 104,
   111, 115, 116, 34, 44, 34, 115, 101, 114, 118, 101, 114, 115, 34, 58, 91, 34, 115, 114, 118, 95, 48, 55,
   48, 55, 48, 55, 48, 55, 48, 55, 48, 55, 48, 55, 48, 55, 48, 55, 48, 55, 48, 55, 48, 55, 48, 55, 48, 55,
   48, 55, 48, 55, 34, 93, 44, 34, 111, 112, 115, 34, 58, 91, 34, 97, 116, 116, 97, 99, 104, 34, 93, 44,
   34, 105, 97, 116, 95, 109, 115, 34, 58, 57, 48, 48, 44, 34, 101, 120, 112, 95, 109, 115, 34, 58, 57, 48,
   48, 48, 48, 44, 34, 106, 116, 105, 34, 58, 34, 106, 34, 125]

/-- Of the key with the seed `[7; 32]`. -/
def attachSignature : List UInt8 :=
  [189, 109, 222, 76, 45, 224, 97, 200, 239, 33, 194, 202, 59, 210, 223, 218, 195, 250, 233, 42, 92, 56,
   20, 64, 85, 186, 61, 26, 115, 186, 82, 231, 180, 255, 62, 114, 235, 199, 197, 88, 160, 244, 135, 23,
   220, 77, 222, 96, 229, 29, 69, 29, 237, 125, 45, 110, 63, 187, 238, 108, 163, 133, 57, 4]

def attachPayload64 : String :=
  "eyJzdWIiOiJhbGljZSIsImF1ZCI6Imhvc3QiLCJzZXJ2ZXJzIjpbInNydl8wNzA3MDcwNzA3MDcwNzA3MDcwNzA3MDcwNzA3MDcwNyJdLCJvcHMiOlsiYXR0YWNoIl0sImlhdF9tcyI6OTAwLCJleHBfbXMiOjkwMDAwLCJqdGkiOiJqIn0"

def attachSignature64 : String :=
  "vW3eTC3gYcjvIcLKO9Lf2sP66SpcOBRAVbo9GnO6Uue0_z5y68fFWKD0hxfcTd5g5R1FHe19LW4_u-5so4U5BA"

def attachClaims : GrantClaims := ⟨"alice", "host", ["srv_07070707070707070707070707070707"], ["attach"], 900, 90000, "j"⟩

def attachGrant : List UInt8 := (attachPayload64 ++ String.singleton '.' ++ attachSignature64).toByteArray.data.toList

/-- The issuer of that grant; other texts are none of its own. -/
def attachIssuer : GrantVerifier where
  decode s :=
    if s = attachPayload64 then some attachPayload else if s = attachSignature64 then some attachSignature else none
  verifies payload sig := decide (payload = attachPayload ∧ sig = attachSignature)
  parseClaims payload := if payload = attachPayload then some attachClaims else none

def Config.sample : Config Text := ⟨⟨Vector.replicate 16 7⟩, attachIssuer, "host", Server.sample⟩

def sampleAttach : AgentAttachShell := ⟨"alice", attachGrant, 80, 24⟩

def sampleEnvelope (message : AgentMessage) : AgentEnvelope :=
  ⟨1, Config.sample.serverId.toWire, sampleShell.toWire, some message⟩

def sampleSession : SessionEnv := ⟨⟨.ok (), .repeated 2, 1000⟩, ⟨0, .ok ()⟩, .ok ()⟩

set_option maxRecDepth 4000 in
theorem attachPayload64_chars : ∃ l, attachPayload64 = String.ofList l ∧ '.' ∉ l := ⟨_, rfl, by decide⟩

theorem attachGrant_verifies :
    attachIssuer.verify (attachPayload64 ++ String.singleton '.' ++ attachSignature64) "host" 1000 = .ok attachClaims := by
  have hdot : '.' ∉ attachPayload64.toList := by
    obtain ⟨l, hl, hdot⟩ := attachPayload64_chars
    rw [hl, String.toList_ofList]
    exact hdot
  have hne : attachSignature64 ≠ attachPayload64 := by
    unfold attachSignature64 attachPayload64
    simp
  refine GrantVerifier.verify_text hdot (?_ : _ = some attachPayload) (?_ : _ = some attachSignature) ?_ ?_ ?_ ?_ ?_ ?_
  · simp only [attachIssuer, if_true]
  · simp only [attachIssuer, if_neg hne, if_true]
  · rfl
  · simp [attachIssuer]
  · simp only [attachIssuer, if_true]
  · rfl
  · decide
  · decide

theorem sampleAttach_authorized : Config.sample.validateAttachRequest 1000 sampleAttach = .ok ⟨"alice", 80, 24, 90000⟩ := by
  have hgrant : Config.sample.checkGrant 1000 sampleAttach.connectionGrant sampleAttach.userId "attach" = .ok attachClaims :=
    checkGrant_of_verified (grantFromWire_text _) attachGrant_verifies rfl (by decide) (by decide)
  have hbounds : ¬(sampleAttach.userId = "" ∨ sampleAttach.userId.utf8ByteSize > agentUserIdBytesMax ∨
      sampleAttach.connectionGrant = [] ∨ sampleAttach.connectionGrant.length > agentGrantBytesMax ∨
      sampleAttach.cols > 65535 ∨ sampleAttach.rows > 65535) := by decide +kernel
  rw [Config.validateAttachRequest, if_neg hbounds, hgrant]
  rfl

/-- A shell of that user, and a stream. -/
def accepted : List Input := [.session (sampleOpen "alice" 1 sampleShell), .tick 0 1000, .accept]

/-- The stream is attached to it, and the reply is written. -/
def attachedOnce : List Input :=
  accepted ++ [.envelope 0 (sampleEnvelope (.agentAttachShell sampleAttach)) sampleSession, .flush 0 true]

theorem attachedOnce_run :
    (Config.sample.machine.run .start attachedOnce).tasks = [.attached ⟨sampleShell, 1, "alice", 90000, some 89000⟩ [] true] ∧
      (Config.sample.machine.run .start attachedOnce).now = 1000 ∧
      (Config.sample.machine.run .start attachedOnce).instant = 0 := by
  obtain ⟨htasks, hnow, hinstant⟩ : (Config.sample.machine.run .start accepted).tasks = [.opening] ∧
      (Config.sample.machine.run .start accepted).now = 1000 ∧ (Config.sample.machine.run .start accepted).instant = 0 := by
    decide +kernel
  obtain ⟨attachment, hres, hid⟩ : ∃ attachment, ((Config.sample.machine.run .start accepted).manager.step Config.sample.core
      (.attachAuthorized "alice" sampleShell 80 24 sampleSession.attach)).2 = .attached attachment ∧
        attachment.attachmentId = 1 :=
    ⟨_, rfl, rfl⟩
  have hscope : Config.sample.attachScope (Config.sample.machine.run .start accepted).now
      (sampleEnvelope (.agentAttachShell sampleAttach)) = some (sampleShell, ⟨"alice", 80, 24, 90000⟩) :=
    attachScope_of rfl rfl (hnow ▸ sampleAttach_authorized)
  have htask : (Config.sample.machine.run .start accepted).tasks[0]? = some .opening := by rw [htasks, List.getElem?_cons_zero]
  have h := attach_replied htask hscope hres
  rw [htasks, hnow, hinstant, hid] at h
  rw [attachedOnce, Machine.run_append]
  exact h

theorem attachedOnce_fresh : Config.sample.machine.Admissible (Fresh Config.sample) .start attachedOnce := by
  refine ⟨?_, trivial, trivial, trivial, trivial, trivial⟩
  exact (by decide +kernel : Manager.FreshId Server.sample .empty (sampleOpen "alice" 1 sampleShell))

theorem attachedOnce_timely : Config.sample.machine.Admissible Timely .start attachedOnce := by
  refine Config.sample.machine.admissible_append.mpr ⟨by decide +kernel, ?_, (rfl : timely _ (.flush 0 true) = true), trivial⟩
  have htasks : (Config.sample.machine.run .start accepted).tasks = [.opening] := by decide +kernel
  simp only [Timely, timely, htasks, List.getElem?_cons_zero]

/-- And then some time passes. -/
def attachedFor (elapsed : Nat) : List Input := attachedOnce ++ [.tick elapsed (1000 + elapsed)]

theorem attachedFor_run (elapsed : Nat) :
    (Config.sample.machine.run .start (attachedFor elapsed)).tasks[0]? =
        some (.attached ⟨sampleShell, 1, "alice", 90000, some 89000⟩ [] true) ∧
      (Config.sample.machine.run .start (attachedFor elapsed)).now = 1000 + elapsed ∧
      (Config.sample.machine.run .start (attachedFor elapsed)).instant = elapsed := by
  obtain ⟨htasks, _, hinstant⟩ := attachedOnce_run
  rw [attachedFor, Machine.run_snoc]
  generalize Config.sample.machine.run .start attachedOnce = s at *
  simp only [Machine.next, Config.machine, Config.step, htasks, hinstant, Nat.zero_add, List.getElem?_cons_zero, and_true]

theorem attachedFor_fresh (elapsed : Nat) : Config.sample.machine.Admissible (Fresh Config.sample) .start (attachedFor elapsed) :=
  Config.sample.machine.admissible_snoc.mpr ⟨attachedOnce_fresh, trivial⟩

theorem attachedFor_timely (elapsed : Nat) : Config.sample.machine.Admissible Timely .start (attachedFor elapsed) := by
  obtain ⟨htasks, hnow, _⟩ := attachedOnce_run
  refine Config.sample.machine.admissible_snoc.mpr ⟨attachedOnce_timely, ?_⟩
  simp [Timely, timely, htasks, hnow, AttachmentTask.steady]

def sampleInput : Input := .envelope 0 (sampleEnvelope (.terminalInput [108, 115])) sampleSession

theorem sampleInput_called (elapsed : Nat) :
    Effect.called 0 (.writeInput sampleShell [108, 115] sampleSession.write) ∈
      (Config.sample.step (Config.sample.machine.run .start (attachedFor elapsed)) sampleInput).2 :=
  input_called (attachedFor_run elapsed).1 rfl rfl (by decide) sampleSession

/-- A second later the input goes to the shell, for the grant holds. -/
theorem agent_authorised_input :
    let call := Effect.called 0 (.writeInput sampleShell [108, 115] sampleSession.write)
    call ∈ (Config.sample.step (Config.sample.machine.run .start (attachedFor 1000)) sampleInput).2 ∧
      Sound Config.sample (attachedFor 1000) sampleInput call ∧ InTime Config.sample (attachedFor 1000) call := by
  have hcall := sampleInput_called 1000
  obtain ⟨htask, _, hinstant⟩ := attachedFor_run 1000
  have hfresh : Config.sample.machine.Admissible (Fresh Config.sample) .start (attachedFor 1000 ++ [sampleInput]) :=
    Config.sample.machine.admissible_snoc.mpr ⟨attachedFor_fresh 1000, trivial⟩
  have htimely : Config.sample.machine.Admissible Timely .start (attachedFor 1000 ++ [sampleInput]) := by
    refine Config.sample.machine.admissible_snoc.mpr ⟨attachedFor_timely 1000, ?_⟩
    exact timely_envelope htask (by rw [hinstant]; decide) _ _
  obtain ⟨hsound, _, hintime⟩ := agent_authorised Config.sample (attachedFor 1000) sampleInput hfresh
  exact ⟨hcall, hsound _ hcall, hintime htimely _ hcall⟩

/-- The timer elapses as the grant expires, and input has come as well: the loop takes the
    input, which goes to the shell. The clock has not been set, and nothing is being written. -/
theorem input_after_expiry :
    Config.sample.machine.Admissible (Fresh Config.sample) .start (attachedFor 89000 ++ [sampleInput]) ∧
      Config.sample.machine.Admissible Timely .start (attachedFor 89000) ∧
      Effect.called 0 (.writeInput sampleShell [108, 115] sampleSession.write) ∈
        (Config.sample.step (Config.sample.machine.run .start (attachedFor 89000)) sampleInput).2 ∧
      ∃ r claims, Attached Config.sample (attachedFor 89000) 0 sampleShell r claims ∧
        claims.expMs ≤ (Config.sample.machine.run .start (attachedFor 89000)).now := by
  obtain ⟨htask, hnow, _⟩ := attachedFor_run 89000
  refine ⟨Config.sample.machine.admissible_snoc.mpr ⟨attachedFor_fresh 89000, trivial⟩, attachedFor_timely 89000,
    sampleInput_called 89000, ?_⟩
  obtain ⟨⟨r, claims, hattached, _, hexpires⟩, _⟩ := (inv_run (attachedFor_fresh 89000)).attached 0 _ _ _ htask
  refine ⟨r, claims, hattached, ?_⟩
  rw [hnow, ← hexpires]
  decide

end Holdfast.Agent.Authorize

/-
  Holdfast.Daemon.Conn — one connection of the daemon as a machine (`Conn` of
  `crates/daemon/src/conn.rs`): its dispatch of client messages over the two kinds of
  channel, with the actors it starts and the manager it shares with every other connection.

  A step (`Input`) is one of
  - a message, dispatched up to its end or to the one place where it waits for another
    party: room in an upload's command queue, or the exit of a shell it terminates; the
    completion of what it waits for (`resume`) is a step of its own, and until then no
    other message is dispatched;
  - a channel close, or the end of the connection;
  - a step of an upload's actor or the end of a forward's task;
  - an operation on the manager by anyone else.

  So a list of inputs is any interleaving of the connection with its actors. Queueing the
  last reply of an actor and the end of its task are one step: nothing is awaited between
  them. What the outside answers during a dispatch (`DispatchEnv`) includes the two permit
  services, which other connections use too, and whether a forward's task is ready for a
  frame. Uploads are the same-uid backend's.

  `Output.calls` lists what a step asked of the manager, the upload service and the
  forward service, `Output.returned` the result of a dispatch (false: close).
-/

import Holdfast.Daemon.Envelope

namespace Holdfast.Daemon

open Holdfast.Base Holdfast.Protocol Holdfast.Session Holdfast.Upload

def keepaliveIntervalMs : UInt32 := 15000
def maxUploadsPerConnection : Nat := 2
def maxForwardsPerConnection : Nat := 16
def uploadCommandQueueMessages : Nat := 4
def uploadAbortReasonBytesMax : Nat := 128
def forwardDataBytesMax : Nat := 8 * 1024

/-! ## State -/

/-- `AppState`: what does not change while the daemon runs. -/
structure App (V : Type) where
  server : Server V
  serverId : ServerId
  auth : AuthState
  /-- `max_file_bytes` of the upload service, if there is one. -/
  uploads : Option UInt64
  forwardUsers : List String
  sha256 : List UInt8 → List UInt8
  isIpAddr : String → Bool

structure Binding where
  shellId : ShellId
  attachmentId : Nat
  deriving DecidableEq, Repr

/-- The bounded sender of an upload actor, named by the actor. -/
structure UploadBinding where
  uploadId : List UInt8
  actor : Nat
  deriving DecidableEq, Repr

structure Conn where
  negotiated : Option Negotiated
  identity : Identity
  channelBinding : List UInt8
  transportDatagrams : Bool
  attachments : Table Nat Binding
  uploads : Table Nat UploadBinding
  /-- The forward's task. -/
  forwards : Table Nat Nat

def Conn.new (transportDatagrams : Bool) (channelBinding : List UInt8) : Conn :=
  ⟨none, .initial, channelBinding, transportDatagrams, ∅, ∅, ∅⟩

def Conn.maxFrameBytes (c : Conn) : UInt32 := (c.negotiated.map (·.maxFrameBytes)).getD Protocol.frameBytesDefault

def Conn.capable (c : Conn) (cap : Capability) : Bool :=
  (c.negotiated.map fun n => decide (cap ∈ n.capabilities)).getD false

/-- `run_upload` with its receiver: the queue holds what was sent and not yet taken. -/
structure UploadActor where
  channel : Nat
  requestId : UInt64
  shellId : ShellId
  task : UploadTask
  queue : List UploadCommand
  deriving DecidableEq, Repr

/-- Its receiver is dropped with it. -/
def UploadActor.running (a : UploadActor) : Bool := a.task.phase != .ended

structure ForwardTask where
  channel : Nat
  aborted : Bool
  ended : Bool
  deriving DecidableEq, Repr

/-- What a dispatch waits for. -/
inductive Pending where
  | sending (actor : Nat) (command : UploadCommand)
  | terminating (id : ShellId) (requestId : UInt64) (wireId : List UInt8)
  deriving DecidableEq, Repr

structure World (V : Type) where
  conn : Conn
  pending : Option Pending
  manager : Manager V
  actors : List UploadActor
  tasks : List ForwardTask

/-! ## Outputs -/

/-- What a dispatch asked of the services behind it. -/
inductive Call where
  | listShells (shown : List ShellId)
  | openShell (opened : Option ShellId)
  | shellInfo (id : ShellId)
  | terminate (id : ShellId)
  | attach (id : ShellId) (ok : Bool)
  | detach (id : ShellId)
  | writeInput (id : ShellId)
  | resize (id : ShellId)
  | history (id : ShellId)
  | uploadAcquire
  | uploadBegin (id : ShellId) (ok : Bool)
  | uploadCommand (id : ShellId)
  | forwardAcquire
  | forwardSpawn
  | forwardMessage
  deriving DecidableEq, Repr

structure Output where
  replies : List (Nat × Reply)
  /-- The result of the dispatch that returned in this step. -/
  returned : Option Bool
  calls : List Call
  deriving DecidableEq, Repr

def Output.none : Output := ⟨[], .none, []⟩

/-- What the outside answers during one dispatch. -/
structure DispatchEnv where
  /-- The connection's writer is still there. -/
  out : Bool
  auth : AuthEnv
  /-- A blocking task that could not run. -/
  worker : Option String
  openShell : OpenEnv
  attach : Runtime.AttachEnv
  write : Runtime.WriteEnv
  resize : Except PtyError Unit
  kill : Except PtyError Unit
  uploadPermit : Bool
  begins : List BeginEnv
  forwardPermit : Bool
  /-- The forward's task expects such a frame. -/
  forwardReady : Bool

abbrev Step (V : Type) := World V × Output

namespace World

variable {V : Type} (A : App V)

def initial (transportDatagrams : Bool) (channelBinding : List UInt8) (m : Manager V) : World V :=
  ⟨.new transportDatagrams channelBinding, none, m, [], []⟩

def actorRunning (w : World V) (a : Nat) : Bool := (w.actors[a]?.map (·.running)).getD false

def taskRunning (w : World V) (t : Nat) : Bool := (w.tasks[t]?.map fun x => !x.ended).getD false

/-- `send(..).await`, as the result of the dispatch. -/
def answer (w : World V) (env : DispatchEnv) (replies : List (Nat × Reply)) (calls : List Call) : Step V :=
  (w, ⟨replies, some env.out, calls⟩)

def refuse (w : World V) (env : DispatchEnv) (channel : Nat) (requestId : UInt64) (code : ErrorCode) (text : String)
    (calls : List Call) : Step V :=
  w.answer env [(channel, errorEnvelope requestId code text false)] calls

/-- Nothing to send: the dispatch returns true. -/
def done (w : World V) (calls : List Call) : Step V := (w, ⟨[], some true, calls⟩)

/-! ## Messages on the control channel -/

def clientHello (w : World V) (env : DispatchEnv) (requestId : UInt64) (hello : ClientHello) : Step V :=
  let capabilities := (if A.uploads.isSome then [Capability.fileTransfer] else []) ++
    (if A.forwardUsers.isEmpty then [] else [Capability.tcpForward])
  match negotiateServer hello capabilities Protocol.frameBytesDefault 1200 w.conn.transportDatagrams with
  | .ok n =>
    { w with conn := { w.conn with negotiated := some n } }.answer env
      [(0, respond requestId (.serverHello (serverHello n keepaliveIntervalMs)))] []
  | .error e => (w, ⟨[(0, errorEnvelope requestId .errVersion e.toText false)], some false, []⟩)

def authenticate (w : World V) (env : DispatchEnv) (requestId : UInt64) (method : Option AuthMethod) : Step V :=
  if w.conn.negotiated.isNone then w.refuse env 0 requestId .errUnknownMessage "hello first" []
  else
    let r := w.conn.identity.handleAuthenticate A.auth w.conn.channelBinding method env.auth
    { w with conn := { w.conn with identity := r.1 } }.answer env
      [(0, respond requestId (.authenticationResult r.2))] []

/-- A client only sees shells it owns. -/
def ownShells (w : World V) : List ShellInfo :=
  w.manager.listShells.filter fun info => info.owner == w.conn.identity.userId

def listShells (w : World V) (env : DispatchEnv) (requestId : UInt64) : Step V :=
  if w.conn.identity.permits "list" = false then
    w.refuse env 0 requestId .errForbidden "grant does not permit list" []
  else
    w.answer env
      [(0, respond requestId (.shellList (w.ownShells.map fun i =>
        ⟨A.serverId.toWire, i.shellId.toWire, i.state, i.createdAtMs, i.lastAttachedAtMs⟩)))]
      [.listShells (w.ownShells.map (·.shellId))]

def nonEmpty (s : String) : Option String := if s.isEmpty then none else some s

def openShell (w : World V) (env : DispatchEnv) (requestId : UInt64) (unixAccount command : String)
    (initialCols initialRows : UInt32) (idempotencyKey : List UInt8) : Step V :=
  if w.conn.identity.permits "open" = false then
    w.refuse env 0 requestId .errForbidden "grant does not permit open" []
  else
    match fromWire idempotencyKey with
    | none => w.refuse env 0 requestId .errUnknownMessage "idempotency_key must be 16 bytes" []
    | some key =>
      match env.worker with
      | some msg => w.answer env [(0, sessionErrorEnvelope requestId (.internal msg))] []
      | none =>
        let r := w.manager.openShell A.server
          ⟨w.conn.identity.userId, nonEmpty unixAccount, nonEmpty command, [], initialCols.toUInt16,
            initialRows.toUInt16, key⟩ env.openShell
        match r.2 with
        | .opened o =>
          { w with manager := r.1 }.answer env
            [(0, ⟨requestId, A.serverId.toWire, o.shellId.toWire, .shellOpened o.resumeToken.bytes.toList 0⟩)]
            [.openShell (some o.shellId)]
        | .err e =>
          { w with manager := r.1 }.answer env [(0, sessionErrorEnvelope requestId e)] [.openShell none]
        | _ => { w with manager := r.1 }.done [.openShell none]

/-- The answer to a `terminate` that ended. -/
def terminated (w : World V) (env : DispatchEnv) (requestId : UInt64) (wireId : List UInt8) (res : Res)
    (calls : List Call) : Step V :=
  match res with
  | .exit e =>
    w.answer env
      [(0, ⟨requestId, [], wireId, .shellExited e.exitCode.toInt32 (!e.success && e.exitCode == 0)⟩)] calls
  | .err e => w.answer env [(0, sessionErrorEnvelope requestId e)] calls
  | _ => w.done calls

/-- Only the shell's owner may terminate it; another's is reported as not found. -/
def terminateShell (w : World V) (env : DispatchEnv) (requestId : UInt64) (wireId : List UInt8) : Step V :=
  if w.conn.identity.permits "terminate" = false then
    w.refuse env 0 requestId .errForbidden "grant does not permit terminate" []
  else
    match ShellId.fromWire wireId with
    | none => w.refuse env 0 requestId .errNotFound "bad shell id" []
    | some id =>
      match w.manager.shellInfo id with
      | .error _ => w.refuse env 0 requestId .errNotFound "no such shell" [.shellInfo id]
      | .ok info =>
        if info.owner ≠ w.conn.identity.userId then
          w.refuse env 0 requestId .errNotFound "no such shell" [.shellInfo id]
        else
          match env.worker with
          | some msg => w.answer env [(0, sessionErrorEnvelope requestId (.internal msg))] [.shellInfo id]
          | none =>
            let r := w.manager.step A.server (.terminate id env.kill)
            let w := { w with manager := r.1 }
            match r.2 with
            | .waiting =>
              ({ w with pending := some (.terminating id requestId wireId) },
                ⟨[], none, [.shellInfo id, .terminate id]⟩)
            | res => w.terminated env requestId wireId res [.shellInfo id, .terminate id]

/-! ## Forwards -/

/-- What `ForwardBinding::message` looks at before the task's own state. -/
def forwardFrame (e : Envelope) : Bool :=
  e.requestId == 0 && e.serverId.isEmpty && e.shellId.isEmpty &&
    match e.message with
    | some (.tcpForwardData data) => !data.isEmpty && decide (data.length ≤ forwardDataBytesMax)
    | some .tcpForwardEof => true
    | some .tcpForwardAck => true
    | _ => false

def abortTask (tasks : List ForwardTask) (t : Nat) : List ForwardTask :=
  tasks.modify t fun x => { x with aborted := true }

/-- A message on a forward's channel; the binding stays whatever it is. -/
def forwardMessage (w : World V) (env : DispatchEnv) (channel t : Nat) (e : Envelope) : Step V :=
  if forwardFrame e && w.taskRunning t && env.forwardReady then w.done [.forwardMessage]
  else
    { w with tasks := abortTask w.tasks t }.answer env
      [(channel, errorEnvelope 0 .errInvalidArgument "invalid TCP forwarding frame" false)] [.forwardMessage]

/-- Why `open_forward` refuses before it asks the service. -/
def forwardRefusal (w : World V) (channel : Nat) (e : Envelope) (host : String) (port : UInt32) :
    Option (ErrorCode × String) :=
  if w.conn.capable .tcpForward = false then some (.errUnknownMessage, "TCP forwarding is not enabled")
  else if w.conn.identity.permits "tcp-forward" = false ∨ w.conn.identity.userId ∉ A.forwardUsers then
    some (.errForbidden, "TCP forwarding is not allowed for this user")
  else if e.requestId = 0 ∨ e.shellId ≠ [] ∨ (e.serverId ≠ [] ∧ e.serverId ≠ A.serverId.toWire) ∨
      (w.conn.attachments.lookup channel).isSome ∨ (w.conn.uploads.lookup channel).isSome ∨
      validDestination A.isIpAddr host port = false then
    some (.errInvalidArgument, "invalid TCP forwarding request")
  else if w.conn.forwards.keys.length ≥ maxForwardsPerConnection then
    some (.errLimitExceeded, "too many TCP forwards")
  else none

def openForward (w : World V) (env : DispatchEnv) (channel : Nat) (e : Envelope) (host : String) (port : UInt32) :
    Step V :=
  match w.forwardRefusal A channel e host port with
  | some (code, text) => w.refuse env channel e.requestId code text []
  | none =>
    if env.forwardPermit = false then
      w.refuse env channel e.requestId .errLimitExceeded "too many TCP forwards" [.forwardAcquire]
    else
      { w with
        conn := { w.conn with forwards := w.conn.forwards.insert channel w.tasks.length }
        tasks := w.tasks ++ [ForwardTask.mk channel false false] }.done [.forwardAcquire, .forwardSpawn]

/-! ## Uploads -/

/-- Headroom for the envelope under even the smallest negotiated frame. -/
def selectedChunkBytes (c : Conn) : UInt32 :=
  min (if c.maxFrameBytes < 512 then 0 else c.maxFrameBytes - 512) (UInt32.ofNat uploadChunkBytesMax)

/-- `UploadService::begin`, same-uid. -/
def serviceBegin (maxFileBytes : UInt64) (metadata : BeginUpload) (maximum : UInt32) (env : DispatchEnv) :
    Except UploadError (UploadWriter × Directory) :=
  match env.worker with
  | some msg => .error (.worker msg)
  | none =>
    match validateBegin metadata maxFileBytes with
    | .error e => .error (.validation e)
    | .ok () =>
      match beginWithChunkLimit maxFileBytes metadata maximum env.begins with
      | (.error e, _) => .error (.store e)
      | (.ok writer, d) => .ok (writer, d)

/-- `begin_upload` once shell and limits are settled. -/
def startUpload (w : World V) (env : DispatchEnv) (channel : Nat) (requestId : UInt64) (id : ShellId)
    (maxFileBytes : UInt64) (metadata : BeginUpload) : Step V :=
  match serviceBegin maxFileBytes metadata (selectedChunkBytes w.conn) env with
  | .error e =>
    w.answer env [(channel, uploadErrorEnvelope requestId e)] [.shellInfo id, .uploadAcquire, .uploadBegin id false]
  | .ok (writer, d) =>
    { w with
      conn := { w.conn with
        uploads := w.conn.uploads.insert channel ⟨writer.uploadId.toWire, w.actors.length⟩ }
      actors := w.actors ++ [UploadActor.mk channel requestId id (.start writer d) []] }.answer env
      [(channel, ⟨requestId, A.serverId.toWire, id.toWire,
        .uploadAccepted writer.uploadId.toWire writer.maximumChunkBytes⟩)]
      [.shellInfo id, .uploadAcquire, .uploadBegin id true]

def beginUpload (w : World V) (env : DispatchEnv) (channel : Nat) (e : Envelope) (metadata : BeginUpload) : Step V :=
  match A.uploads with
  | none => w.refuse env channel e.requestId .errUnknownMessage "file transfer is disabled" []
  | some maxFileBytes =>
    if w.conn.capable .fileTransfer = false then
      w.refuse env channel e.requestId .errUnknownMessage "file transfer was not negotiated" []
    else if w.conn.identity.permits "upload" = false then
      w.refuse env channel e.requestId .errForbidden "grant does not permit upload" []
    else if e.requestId = 0 ∨ (w.conn.attachments.lookup channel).isSome ∨ (w.conn.uploads.lookup channel).isSome then
      w.refuse env channel e.requestId .errInvalidArgument "invalid or reused upload channel" []
    else
      match ShellId.fromWire e.shellId with
      | none => w.refuse env channel e.requestId .errForbidden "upload denied" []
      | some id =>
        match w.manager.shellInfo id with
        | .error _ => w.refuse env channel e.requestId .errForbidden "upload denied" [.shellInfo id]
        | .ok info =>
          if info.owner ≠ w.conn.identity.userId ∨ info.state ≠ .running then
            w.refuse env channel e.requestId .errForbidden "upload denied" [.shellInfo id]
          else if w.conn.uploads.keys.length ≥ maxUploadsPerConnection then
            w.answer env
              [(channel, errorEnvelope e.requestId .errLimitExceeded "too many uploads on this connection" true)]
              [.shellInfo id]
          else if env.uploadPermit = false then
            w.answer env [(channel, uploadErrorEnvelope e.requestId .limitExceeded)] [.shellInfo id, .uploadAcquire]
          else w.startUpload A env channel e.requestId id maxFileBytes metadata

/-- `commands.send(..).await` begins; whether it goes through is seen when it ends. -/
def sendCommand (w : World V) (b : UploadBinding) (command : UploadCommand) : Step V :=
  ({ w with pending := some (.sending b.actor command) },
    ⟨[], none, (w.actors[b.actor]?.map fun a => Call.uploadCommand a.shellId).toList⟩)

def unbindUpload (w : World V) (channel : Nat) : World V :=
  { w with conn := { w.conn with uploads := w.conn.uploads.erase channel } }

/-- A chunk with another id is refused; the upload stays bound. -/
def uploadChunk (w : World V) (env : DispatchEnv) (channel : Nat) (requestId : UInt64) (chunk : UploadChunk) : Step V :=
  match w.conn.uploads.lookup channel with
  | none => w.refuse env channel requestId .errInvalidArgument "no upload on channel" []
  | some b =>
    if chunk.uploadId ≠ b.uploadId then w.refuse env channel requestId .errInvalidArgument "upload id mismatch" []
    else w.sendCommand b (.chunk chunk)

def finishUpload (w : World V) (env : DispatchEnv) (channel : Nat) (requestId : UInt64) (uploadId : List UInt8) :
    Step V :=
  match w.conn.uploads.lookup channel with
  | none => w.refuse env channel requestId .errInvalidArgument "no upload on channel" []
  | some b =>
    if uploadId ≠ b.uploadId then
      (w.unbindUpload channel).refuse env channel requestId .errInvalidArgument "upload id mismatch" []
    else (w.unbindUpload channel).sendCommand b (.finish uploadId)

def abortUpload (w : World V) (env : DispatchEnv) (channel : Nat) (requestId : UInt64) (uploadId : List UInt8)
    (reason : String) : Step V :=
  match w.conn.uploads.lookup channel with
  | none => w.done []
  | some b =>
    if reason.utf8ByteSize > uploadAbortReasonBytesMax ∨ uploadId ≠ b.uploadId then
      (w.unbindUpload channel).refuse env channel requestId .errInvalidArgument "invalid upload abort" []
    else (w.unbindUpload channel).sendCommand b .abort

/-! ## Attachments -/

def tokenFromWire (bytes : List UInt8) : Option ResumeToken :=
  if h : bytes.length = 32 then some ⟨⟨bytes.toArray, by simpa using h⟩⟩ else none

/-- Of the other roles of a channel only an attachment is looked for. -/
def attach (w : World V) (env : DispatchEnv) (channel : Nat) (e : Envelope) (resumeToken : List UInt8)
    (cols rows : UInt32) : Step V :=
  if w.conn.identity.permits "attach" = false then
    w.refuse env channel e.requestId .errForbidden "grant does not permit attach" []
  else if (w.conn.attachments.lookup channel).isSome then
    w.refuse env channel e.requestId .errUnknownMessage "channel already attached" []
  else
    match ShellId.fromWire e.shellId with
    | none => w.refuse env channel e.requestId .errNotFound "bad shell id" []
    | some id =>
      match tokenFromWire resumeToken with
      | none => w.refuse env channel e.requestId .errTokenExpired "malformed resume token" []
      | some token =>
        let r := w.manager.attach A.server w.conn.identity.userId id token cols.toUInt16 rows.toUInt16 env.attach
        match r.2 with
        | .attached a =>
          { w with
            manager := r.1
            conn := { w.conn with attachments := w.conn.attachments.insert channel ⟨id, a.attachmentId⟩ } }.answer env
            [(channel, ⟨e.requestId, A.serverId.toWire, e.shellId, .shellAttached a⟩)] [.attach id true]
        | .err err =>
          { w with manager := r.1 }.answer env [(channel, sessionErrorEnvelope e.requestId err)] [.attach id false]
        | _ => { w with manager := r.1 }.done [.attach id false]

def terminalInput (w : World V) (env : DispatchEnv) (channel : Nat) (requestId : UInt64) (data : List UInt8) : Step V :=
  match w.conn.attachments.lookup channel with
  | none => w.done []
  | some b =>
    let r := w.manager.step A.server (.writeInput b.shellId data env.write)
    match r.2 with
    | .err e => { w with manager := r.1 }.answer env [(channel, sessionErrorEnvelope requestId e)] [.writeInput b.shellId]
    | _ => { w with manager := r.1 }.done [.writeInput b.shellId]

/-- Newest size wins; errors are benign. -/
def terminalResize (w : World V) (env : DispatchEnv) (channel : Nat) (cols rows : UInt32) : Step V :=
  match w.conn.attachments.lookup channel with
  | none => w.done []
  | some b =>
    { w with manager := (w.manager.step A.server (.resize b.shellId cols.toUInt16 rows.toUInt16 env.resize)).1 }.done
      [.resize b.shellId]

def requestHistory (w : World V) (env : DispatchEnv) (channel : Nat) (requestId beforeLineId : UInt64)
    (maximumLines maximumBytes : UInt32) : Step V :=
  match w.conn.attachments.lookup channel with
  | none => w.refuse env channel requestId .errNotFound "no attachment on channel" []
  | some b =>
    match w.manager.history b.shellId beforeLineId.toNat (min maximumLines 10000).toNat
        (min maximumBytes (w.conn.maxFrameBytes / 2)).toNat with
    | .error e => w.answer env [(channel, sessionErrorEnvelope requestId e)] [.history b.shellId]
    | .ok range =>
      let oldest := ((w.manager.shells.lookup b.shellId).map fun e => e.runtime.model.oldestLineId).getD 0
      w.answer env
        [(channel, respond requestId (.historyChunk range)), (channel, respond requestId (.historyEnd oldest))]
        [.history b.shellId]

/-- `attachments.remove`, then `manager.detach`. -/
def detach (w : World V) (channel : Nat) : World V × List Call :=
  match w.conn.attachments.lookup channel with
  | none => (w, [])
  | some b =>
    ({ w with
        conn := { w.conn with attachments := w.conn.attachments.erase channel }
        manager := (w.manager.step A.server (.detach b.shellId b.attachmentId)).1 }, [.detach b.shellId])

/-! ## Dispatch -/

def unexpected (w : World V) (env : DispatchEnv) (channel : Nat) (requestId : UInt64) : Step V :=
  w.refuse env channel requestId .errUnknownMessage "unexpected message for this channel" []

def pong (w : World V) (env : DispatchEnv) (channel : Nat) (requestId nonce : UInt64) : Step V :=
  w.answer env [(channel, respond requestId (.pong nonce))] []

/-- A message on channel 0. -/
def onControl (w : World V) (env : DispatchEnv) (e : Envelope) : ClientMessage → Step V
  | .clientHello hello => w.clientHello A env e.requestId hello
  | .authenticate method => w.authenticate A env e.requestId method
  | .ping nonce => w.pong env 0 e.requestId nonce
  | .close => (w, ⟨[], some false, []⟩)
  | .listServers => w.answer env [(0, respond e.requestId (.serverList A.serverId.toWire "local" true))] []
  | .listShells => w.listShells A env e.requestId
  | .openShell unixAccount command cols rows key => w.openShell A env e.requestId unixAccount command cols rows key
  | .terminateShell => w.terminateShell A env e.requestId e.shellId
  | _ => w.unexpected env 0 e.requestId

/-- A message on a channel the client opened. -/
def onChannel (w : World V) (env : DispatchEnv) (channel : Nat) (e : Envelope) : ClientMessage → Step V
  | .ping nonce => w.pong env channel e.requestId nonce
  | .openTcpForward host port => w.openForward A env channel e host port
  | .beginUpload metadata => w.beginUpload A env channel e metadata
  | .uploadChunk chunk => w.uploadChunk env channel e.requestId chunk
  | .finishUpload uploadId => w.finishUpload env channel e.requestId uploadId
  | .abortUpload uploadId reason => w.abortUpload env channel e.requestId uploadId reason
  | .attachShell resumeToken cols rows => w.attach A env channel e resumeToken cols rows
  | .terminalInput data => w.terminalInput A env channel e.requestId data
  | .terminalResize cols rows => w.terminalResize A env channel cols rows
  | .requestHistory before lines bytes => w.requestHistory env channel e.requestId before lines bytes
  | .detachShell => (w.detach A channel).1.done (w.detach A channel).2
  | _ => w.unexpected env channel e.requestId

/-- Closed senders are no longer live channel bindings. -/
def sweep (w : World V) : World V :=
  { w with conn := { w.conn with uploads := w.conn.uploads.retain fun _ b => w.actorRunning b.actor } }

/-- `dispatch` after the sweep. -/
def dispatchSwept (w : World V) (channel : Nat) (e : Envelope) (env : DispatchEnv) : Step V :=
  match e.message with
  | none => (w, ⟨[(channel, errorEnvelope e.requestId .errUnknownMessage "empty envelope" false)], some false, []⟩)
  | some m =>
    if w.conn.identity.authenticated = false ∧ m.preAuth = false then
      w.refuse env channel e.requestId .errUnauthenticated "authenticate first" []
    else
      match w.conn.forwards.lookup channel with
      | some t => w.forwardMessage env channel t e
      | none => if channel = 0 then w.onControl A env e m else w.onChannel A env channel e m

def dispatch (w : World V) (channel : Nat) (e : Envelope) (env : DispatchEnv) : Step V :=
  w.sweep.dispatchSwept A channel e env

/-! ## What dispatch waits for, and the ends -/

/-- The awaited call, if it can complete now. A send fails when its receiver is gone. -/
def resume (w : World V) (env : DispatchEnv) : Step V :=
  match w.pending with
  | none => (w, .none)
  | some (.terminating id requestId wireId) =>
    let r := w.manager.step A.server (.terminateWake id)
    { w with manager := r.1, pending := none }.terminated env requestId wireId r.2 [.terminate id]
  | some (.sending a command) =>
    if w.actorRunning a = false then ({ w with pending := none }, ⟨[], some false, []⟩)
    else
      match w.actors[a]? with
      | none => (w, .none)
      | some x =>
        if x.queue.length < uploadCommandQueueMessages then
          ({ w with pending := none, actors := w.actors.set a { x with queue := x.queue ++ [command] } },
            ⟨[], some true, []⟩)
        else (w, .none)

def channelClosed (w : World V) (channel : Nat) : Step V :=
  let tasks := ((w.conn.forwards.lookup channel).map (abortTask w.tasks)).getD w.tasks
  let w := { w with
    conn := { w.conn with uploads := w.conn.uploads.erase channel, forwards := w.conn.forwards.erase channel }
    tasks := tasks }
  ((w.detach A channel).1, ⟨[], none, (w.detach A channel).2⟩)

/-- Connection gone: detach everything; shells keep running. -/
def detachAll (w : World V) : Step V :=
  let bindings := w.conn.attachments.values
  ({ w with
      conn := { w.conn with uploads := ∅, forwards := ∅, attachments := ∅ }
      tasks := w.conn.forwards.values.foldl abortTask w.tasks
      manager := bindings.foldl
        (fun m b => (m.step A.server (.detach b.shellId b.attachmentId)).1) w.manager },
    ⟨[], none, bindings.map fun b => .detach b.shellId⟩)

/-! ## Actors -/

inductive ActorInput where
  /-- The actor goes on: the next command, or the end of the queue once no sender is left. -/
  | take (io : UploadIo)
  | timeout
  | sent (drop : DropEnv)
  | cancel (drop : DropEnv)

/-- The binding, or a send that is under way, holds a sender. -/
def hasSender (w : World V) (a : Nat) : Bool :=
  w.conn.uploads.values.any (fun b => b.actor == a) ||
    match w.pending with
    | some (.sending a' _) => a' == a
    | _ => false

def actorReply (a : UploadActor) : List (Nat × Reply) :=
  match a.task.phase with
  | .reporting _ (.error code text retryable) => [(a.channel, errorEnvelope a.requestId code text retryable)]
  | .reporting _ (.finished uploadId path bytes sha) =>
    [(a.channel, ⟨a.requestId, A.serverId.toWire, a.shellId.toWire, .uploadFinished uploadId path bytes sha⟩)]
  | _ => []

/-- One step of the actor `a`, if it can make it. -/
def actorStep (a : UploadActor) (sender : Bool) : ActorInput → UploadActor × List (Nat × Reply)
  | .take io =>
    match a.queue with
    | command :: queue =>
      match a.task.phase with
      | .running _ => ({ a with task := (a.task.step A.sha256 (.recv (some command) io)).1, queue := queue }, [])
      | _ => (a, [])
    | [] => if sender then (a, []) else ({ a with task := (a.task.step A.sha256 (.recv none io)).1 }, [])
  | .timeout => if a.queue.isEmpty then ({ a with task := (a.task.step A.sha256 .timeout).1 }, []) else (a, [])
  | .sent drop => ({ a with task := (a.task.step A.sha256 (.sent drop)).1 }, actorReply A a)
  | .cancel drop => ({ a with task := (a.task.step A.sha256 (.cancel drop)).1 }, [])

end World

/-! ## The machine -/

inductive Input where
  | message (channel : Nat) (envelope : Envelope) (env : DispatchEnv)
  | resume (env : DispatchEnv)
  | channelClosed (channel : Nat)
  | gone
  | upload (actor : Nat) (input : World.ActorInput)
  | forwardEnds (task : Nat)
  | manager (op : Op)

def Input.isMessage : Input → Bool
  | .message _ _ _ => true
  | _ => false

namespace World

variable {V : Type} (A : App V)

/-- While a dispatch waits, the connection takes nothing else. -/
def step (w : World V) : Input → Step V
  | .message channel e env => if w.pending.isSome then (w, .none) else w.dispatch A channel e env
  | .resume env => w.resume A env
  | .channelClosed channel => if w.pending.isSome then (w, .none) else w.channelClosed A channel
  | .gone => if w.pending.isSome then (w, .none) else w.detachAll A
  | .upload a input =>
    match w.actors[a]? with
    | none => (w, .none)
    | some x =>
      let r := actorStep A x (w.hasSender a) input
      ({ w with actors := w.actors.set a r.1 }, ⟨r.2, none, []⟩)
  | .forwardEnds t => ({ w with tasks := w.tasks.modify t fun x => { x with ended := true } }, .none)
  | .manager op => ({ w with manager := (w.manager.step A.server op).1 }, .none)

def machine : Machine (World V) Input Output := ⟨fun w i => w.step A i⟩

end World

/-! ## A daemon to try it on -/

/-- Development mode: no credential is looked at. -/
def AuthState.dev : AuthState :=
  { mode := .devInsecure
    password := none
    grantVerifier := ⟨fun _ => none, fun _ _ => false, fun _ => none⟩
    issue := fun _ => []
    audience := ""
    ssh := ⟨fun _ => none, fun _ => none, fun _ _ _ _ => false⟩ }

def App.sample (auth : AuthState) : App Terminal.Text :=
  { server := .sample
    serverId := ⟨.replicate 16 1⟩
    auth := auth
    uploads := some (256 * 1024 * 1024)
    forwardUsers := ["dev"]
    sha256 := abcDigest
    isIpAddr := fun _ => false }

/-- Everything goes through; `token` is the next token drawn. -/
def DispatchEnv.sample (token : UInt8) : DispatchEnv :=
  { out := true
    auth := ⟨true, 1000, .replicate 32 5, true, "jti"⟩
    worker := none
    openShell := ⟨.ok (), .ok (), .repeated token, sampleShell, 1000⟩
    attach := ⟨.ok (), .repeated token, 2000⟩
    write := ⟨0, .ok ()⟩
    resize := .ok ()
    kill := .ok ()
    uploadPermit := true
    begins := [abcBegin]
    forwardPermit := true
    forwardReady := true }

def sampleHello : ClientHello := ⟨0, 3, [3, 4], 262144, 1200, [1]⟩

def sampleEnvelope (m : ClientMessage) : Envelope := ⟨1, [], sampleShell.toWire, some m⟩

/-- `m` on `channel`, with `token` drawn if one is. -/
def sampleMessage (channel : Nat) (m : ClientMessage) (token : UInt8) : Input :=
  .message channel (sampleEnvelope m) (.sample token)

/-- Hello, login and a shell. -/
def sampleStart (method : Option AuthMethod) : List Input :=
  [sampleMessage 0 (.clientHello sampleHello) 0, sampleMessage 0 (.authenticate method) 0,
    sampleMessage 0 (.openShell "" "" 80 24 (List.replicate 16 9)) 1]

def World.sample : World Terminal.Text := .initial false [] Manager.empty

end Holdfast.Daemon

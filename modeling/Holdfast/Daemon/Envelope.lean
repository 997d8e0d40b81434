/-
  Holdfast.Daemon.Envelope — the envelopes between a client and the daemon
  (`protocol/messages.proto`), with the fields the daemon reads and writes, and the checks
  on a forwarding destination (`crates/protocol/src/forward.rs`).
-/

import Holdfast.Daemon.Login
import Holdfast.Daemon.Uploads
import Holdfast.Protocol.Negotiate

namespace Holdfast.Daemon

open Holdfast.Protocol Holdfast.Session Holdfast.Upload

/-! ## From the client -/

inductive ClientMessage where
  | clientHello (hello : ClientHello)
  | authenticate (method : Option AuthMethod)
  | ping (nonce : UInt64)
  | pong (nonce : UInt64)
  | close
  | listServers
  | listShells
  | openShell (unixAccount command : String) (initialCols initialRows : UInt32) (idempotencyKey : List UInt8)
  | terminateShell
  | openTcpForward (host : String) (port : UInt32)
  | tcpForwardData (data : List UInt8)
  | tcpForwardEof
  | tcpForwardAck
  | beginUpload (metadata : BeginUpload)
  | uploadChunk (chunk : UploadChunk)
  | finishUpload (uploadId : List UInt8)
  | abortUpload (uploadId : List UInt8) (reason : String)
  | attachShell (resumeToken : List UInt8) (cols rows : UInt32)
  | terminalInput (data : List UInt8)
  | terminalResize (cols rows : UInt32)
  | requestHistory (beforeLineId : UInt64) (maximumLines maximumBytes : UInt32)
  | detachShell
  /-- Any other message of the envelope. -/
  | other
  deriving DecidableEq, Repr

structure Envelope where
  requestId : UInt64
  serverId : List UInt8
  shellId : List UInt8
  message : Option ClientMessage
  deriving DecidableEq, Repr

def Envelope.opensShell (e : Envelope) : Bool :=
  match e.message with
  | some (.openShell _ _ _ _ _) => true
  | _ => false

/-- The method of an `Authenticate`, which may be missing. -/
def Envelope.authentication (e : Envelope) : Option (Option AuthMethod) :=
  match e.message with
  | some (.authenticate method) => some method
  | _ => none

/-- The pre-auth allowlist. -/
def ClientMessage.preAuth : ClientMessage → Bool
  | .clientHello _ => true
  | .authenticate _ => true
  | .ping _ => true
  | .pong _ => true
  | .close => true
  | _ => false

theorem ClientMessage.preAuth_authenticate (method : Option AuthMethod) :
    (ClientMessage.authenticate method).preAuth = true := rfl

/-! ## To the client -/

structure ListedShell where
  serverId : List UInt8
  shellId : List UInt8
  state : ShellState
  createdAtMs : Int
  lastAttachedAtMs : Int
  deriving DecidableEq, Repr

inductive ServerMessage where
  | serverHello (hello : ServerHello)
  | authenticationResult (result : AuthenticationResult)
  | pong (nonce : UInt64)
  | serverList (serverId : List UInt8) (displayName : String) (healthy : Bool)
  | shellList (shells : List ListedShell)
  | shellOpened (resumeToken : List UInt8) (expiresAtMs : Int)
  | shellExited (exitCode : Int32) (signaled : Bool)
  | shellAttached (attachment : Attachment)
  | historyChunk (range : Terminal.HistoryRange)
  | historyEnd (oldestAvailableLineId : Nat)
  | uploadAccepted (uploadId : List UInt8) (maximumChunkBytes : UInt32)
  | uploadFinished (uploadId : List UInt8) (remotePath : String) (bytesWritten : UInt64) (sha256 : List UInt8)
  | error (code : ErrorCode) (humanMessage : String) (retryable : Bool)
  deriving DecidableEq, Repr

structure Reply where
  requestId : UInt64
  serverId : List UInt8
  shellId : List UInt8
  message : ServerMessage
  deriving DecidableEq, Repr

def respond (requestId : UInt64) (message : ServerMessage) : Reply := ⟨requestId, [], [], message⟩

def errorEnvelope (requestId : UInt64) (code : ErrorCode) (text : String) (retryable : Bool) : Reply :=
  respond requestId (.error code text retryable)

/-- `session_error`. -/
def sessionErrorEnvelope (requestId : UInt64) (e : SessionError) : Reply :=
  errorEnvelope requestId (sessionErrorCode e).1 e.toText (sessionErrorCode e).2

def uploadErrorEnvelope (requestId : UInt64) (e : UploadError) : Reply :=
  errorEnvelope requestId (uploadErrorCode e).1 e.toText (uploadErrorCode e).2

def ServerMessage.isError : ServerMessage → Bool
  | .error _ _ _ => true
  | _ => false

/-! ## Forwarding destinations -/

def isAsciiAlphanumeric (b : UInt8) : Bool :=
  decide (48 ≤ b ∧ b ≤ 57) || decide (65 ≤ b ∧ b ≤ 90) || decide (97 ≤ b ∧ b ≤ 122)

def validLabel (label : List UInt8) : Bool :=
  !label.isEmpty && decide (label.length ≤ 63) && (label.head?.map isAsciiAlphanumeric).getD false &&
    (label.getLast?.map isAsciiAlphanumeric).getD false && label.all fun b => isAsciiAlphanumeric b || b == 45

def stripTrailingDot (host : List UInt8) : List UInt8 := if host.getLast? = some 46 then host.dropLast else host

/-- `isIpAddr` is `host.parse::<IpAddr>().is_ok()`. -/
def validDestination (isIpAddr : String → Bool) (host : String) (port : UInt32) : Bool :=
  if host.isEmpty ∨ host.utf8ByteSize > 255 ∨ ¬(1 ≤ port ∧ port ≤ 65535) then false
  else if isIpAddr host then true
  else ((stripTrailingDot host.toUTF8.data.toList).splitOn 46).all validLabel

end Holdfast.Daemon

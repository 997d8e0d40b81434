/-
  Holdfast.Daemon.Wire — the messages the daemon sends on an attachment's channel
  (`protocol/messages.proto`, `error_envelope` and `session_error` of
  `crates/daemon/src/conn.rs`).

  Of an envelope only its message is kept: on an attachment's channel the request id and
  the two ids of an envelope carry nothing a reader looks at.
-/

import Holdfast.Session.Manager

namespace Holdfast.Daemon

open Holdfast.Session

inductive ErrorCode where
  | errUnspecified
  | errVersion
  | errUnauthenticated
  | errForbidden
  | errNotFound
  | errFrameTooLarge
  | errUnknownMessage
  | errInputOverflow
  | errTooSlow
  | errNotReady
  | errTokenExpired
  | errTokenReplayed
  | errLimitExceeded
  | errServerUnavailable
  | errInternal
  | errInvalidArgument
  | errChecksumMismatch
  deriving DecidableEq, Repr

inductive Msg where
  | terminalOutput (data : List UInt8)
  | shellExited (exitCode : Int32) (signaled : Bool)
  | ping (nonce : UInt64)
  | historyChunk (firstLineId : Nat) (lines : List String) (truncatedByEviction : Bool)
  | historyEnd (oldestAvailableLineId : Nat)
  | error (code : ErrorCode) (humanMessage : String) (retryable : Bool)
  /-- Any other message. -/
  | other
  deriving DecidableEq, Repr

def sessionErrorCode : SessionError → ErrorCode × Bool
  | .shellNotFound => (.errNotFound, false)
  | .notRunning => (.errNotFound, false)
  | .limitExceeded _ => (.errLimitExceeded, true)
  | .forbidden => (.errForbidden, false)
  | .invalidToken => (.errTokenExpired, false)
  -- distinct from expiry: a superseded-but-once-valid token is a theft signal
  | .tokenReplayed => (.errTokenReplayed, false)
  | .pty _ => (.errInternal, true)
  | .internal _ => (.errInternal, true)

def sessionError (e : SessionError) : Msg := .error (sessionErrorCode e).1 e.toText (sessionErrorCode e).2

end Holdfast.Daemon

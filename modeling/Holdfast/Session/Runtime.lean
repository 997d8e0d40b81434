/-
  Holdfast.Session.Runtime — one shell's runtime: the state behind `ShellEntry::runtime`
  and what each critical section does to it (`crates/session-core/src/lib.rs`).

  Each function here is one section run with the runtime lock held. What the operating
  system or a random generator answers inside a section (the outcome of a PTY call, a
  generated token, the clock) is an argument. The emulator and SHA-256 are parameters,
  with the configuration, in `Server`.

  An attachment is an id in the table `attachments` (whose `SyncSender` the table holds)
  and a channel of the same id (whose `Receiver` the attaching client holds). The
  channels stay after the id left the table: the receiver can still drain what was sent.
-/

import Mathlib.Data.Finset.Card
import Holdfast.Base.SyncChannel
import Holdfast.Terminal.Model

namespace Holdfast.Session

open Holdfast.Base Holdfast.Terminal

/-! ## Data -/

structure ShellId where
  bytes : Vector UInt8 16
  deriving DecidableEq, Repr

structure ResumeToken where
  bytes : Vector UInt8 32
  deriving DecidableEq, Repr

abbrev TokenHash := Vector UInt8 32

abbrev IdempotencyKey := Vector UInt8 16

inductive PtyError where
  | openFailed (msg : String)
  | spawn (msg : String)
  | ioError (msg : String)
  | resize (msg : String)
  deriving DecidableEq, Repr

def PtyError.toText : PtyError → String
  | .openFailed msg => "failed to open PTY: " ++ msg
  | .spawn msg => "failed to spawn child: " ++ msg
  | .ioError msg => "PTY I/O error: " ++ msg
  | .resize msg => "resize failed: " ++ msg

inductive SessionError where
  | shellNotFound
  | notRunning
  | limitExceeded (what : String)
  | forbidden
  | invalidToken
  | tokenReplayed
  | pty (e : PtyError)
  | internal (msg : String)
  deriving DecidableEq, Repr

def SessionError.toText : SessionError → String
  | .shellNotFound => "shell not found"
  | .notRunning => "shell is not running"
  | .limitExceeded what => "limit exceeded: " ++ what
  | .forbidden => "not authorized to run a shell under the requested account"
  | .invalidToken => "invalid, expired or rotated resume token"
  | .tokenReplayed => "resume token already superseded (possible replay)"
  | .pty e => e.toText
  | .internal msg => "internal error: " ++ msg

inductive ShellState where
  | running
  | terminating
  | exited
  deriving DecidableEq, Repr

structure ExitSummary where
  success : Bool
  exitCode : UInt32
  deriving DecidableEq, Repr

inductive AttachmentEvent where
  | output (chunk : List UInt8)
  | exited (exit : ExitSummary)
  deriving DecidableEq, Repr

structure SessionCoreConfig where
  maxShells : Nat
  /-- 0 disables the per-user cap. -/
  maxShellsPerUser : Nat
  maxAttachmentsPerShell : Nat
  maxQueuedChunks : Nat
  scrollbackMaxLines : Nat
  scrollbackMaxBytes : Nat
  deriving DecidableEq, Repr

def SessionCoreConfig.default : SessionCoreConfig := ⟨16, 8, 4, 128, 100000, 64 * 1024 * 1024⟩

/-- `AccessPolicy::resolve`: `none` is `Denied`. -/
abbrev AccessPolicy := String → Option String → Option (Option String)

/-- Development default: allow anything. -/
def allowAll : AccessPolicy := fun _ requested => some (requested.filter (!·.isEmpty))

/-- What does not change while a server runs. -/
structure Server (V : Type) where
  config : SessionCoreConfig
  policy : AccessPolicy
  avt : Avt V
  sha256 : ResumeToken → TokenHash

/-- The PTY as the session sees it: its window size and the input it took so far. -/
structure PtyProcess where
  cols : UInt16
  rows : UInt16
  input : List UInt8
  deriving DecidableEq, Repr

structure Attachment where
  attachmentId : Nat
  shellId : ShellId
  snapshot : List UInt8
  screenRevision : Nat
  rotatedResumeToken : ResumeToken
  oldestHistoryLineId : Nat
  newestHistoryLineId : Nat
  deriving DecidableEq, Repr

def supersededTokenHistory : Nat := 64

structure Runtime (V : Type) where
  state : ShellState
  model : TerminalModel V
  pty : Option PtyProcess
  attachments : Finset Nat
  nextAttachmentId : Nat
  tokenHash : TokenHash
  /-- Hashes of tokens this shell rotated away, newest last (bounded ring). -/
  supersededTokenHashes : List TokenHash
  exit : Option ExitSummary
  lastAttachedAtMs : Int
  channels : Nat → SyncChannel AttachmentEvent

/-- Clamp client-supplied dimensions to the floor the terminal model enforces. -/
def clampDims (cols rows : UInt16) : UInt16 × UInt16 := (max cols minCols, max rows minRows)

/-- Clamping is what the model does again on its own. -/
theorem clampDims_clamped (cols rows : UInt16) :
    (max (clampDims cols rows).1 minCols, max (clampDims cols rows).2 minRows) = clampDims cols rows := by
  have h : ∀ a b : UInt16, max (max a b) b = max a b := by
    intro a b
    simp only [max]
    grind
  simp only [clampDims, h]

namespace Runtime

variable {V : Type} (S : Server V)

/-! ## Tokens -/

/-- Rotate to `token`, remembering the superseded hash for replay detection. -/
def rotateToken (rt : Runtime V) (token : ResumeToken) : Runtime V :=
  let kept :=
    if rt.supersededTokenHashes.length = supersededTokenHistory then rt.supersededTokenHashes.tail
    else rt.supersededTokenHashes
  { rt with
    supersededTokenHashes := kept ++ [rt.tokenHash]
    tokenHash := S.sha256 token }

/-! ## Attaching -/

/-- What the outside answers during an attach. -/
structure AttachEnv where
  resize : Except PtyError Unit
  token : ResumeToken
  now : Int

/-- The PTY and the model resized together, the PTY first. -/
def resizeBoth (rt : Runtime V) (pty : PtyProcess) (cols rows : UInt16) : Runtime V :=
  { rt with pty := some { pty with cols := cols, rows := rows }, model := rt.model.resize S.avt cols rows }

/-- 0 dimensions mean "keep the current size" on reattach. -/
def attachResize (rt : Runtime V) (cols rows : UInt16) (outcome : Except PtyError Unit) :
    Except PtyError (Runtime V) :=
  if cols ≠ 0 ∧ rows ≠ 0 then
    let (cols, rows) := clampDims cols rows
    if rt.model.size ≠ (cols, rows) then
      match rt.pty with
      | some pty =>
        match outcome with
        | .error e => .error e
        | .ok () => .ok (resizeBoth S rt pty cols rows)
      | none => .ok { rt with model := rt.model.resize S.avt cols rows }
    else .ok rt
  else .ok rt

/-- The registration of a new attachment: a rotated token, the next id, a fresh channel. -/
def register (rt : Runtime V) (env : AttachEnv) : Runtime V :=
  let rt := rt.rotateToken S env.token
  let attachmentId := rt.nextAttachmentId
  { rt with
    lastAttachedAtMs := env.now
    nextAttachmentId := attachmentId + 1
    attachments := insert attachmentId rt.attachments
    channels := Function.update rt.channels attachmentId (.new S.config.maxQueuedChunks) }

def attachRuntime (shellId : ShellId) (rt : Runtime V) (cols rows : UInt16) (env : AttachEnv) :
    Runtime V × Except SessionError Attachment :=
  if rt.state ≠ .running then (rt, .error .notRunning)
  else if rt.attachments.card ≥ S.config.maxAttachmentsPerShell then
    (rt, .error (.limitExceeded "max_attachments_per_shell"))
  else
    match rt.attachResize S cols rows env.resize with
    | .error e => (rt, .error (.pty e))
    | .ok rt =>
      let rt' := rt.register S env
      (rt', .ok
        { attachmentId := rt.nextAttachmentId
          shellId := shellId
          snapshot := rt'.model.snapshot S.avt
          screenRevision := rt'.model.revision
          rotatedResumeToken := env.token
          oldestHistoryLineId := rt'.model.oldestLineId
          newestHistoryLineId := rt'.model.newestLineId })

/-- The token check of `attach`, then the attach itself. -/
def attachWithToken (shellId : ShellId) (rt : Runtime V) (token : ResumeToken) (cols rows : UInt16)
    (env : AttachEnv) : Runtime V × Except SessionError Attachment :=
  if rt.tokenHash ≠ S.sha256 token then
    -- A superseded token is distinct from garbage: it *was* valid.
    if S.sha256 token ∈ rt.supersededTokenHashes then (rt, .error .tokenReplayed)
    else (rt, .error .invalidToken)
  else attachRuntime S shellId rt cols rows env

def detach (rt : Runtime V) (attachmentId : Nat) : Runtime V :=
  { rt with attachments := rt.attachments.erase attachmentId }

/-! ## Input, size, termination -/

/-- `write_all` on the PTY: everything, or an error after the first `accepted` bytes. -/
structure WriteEnv where
  accepted : Nat
  result : Except PtyError Unit

def writeInput (rt : Runtime V) (data : List UInt8) (env : WriteEnv) : Runtime V × Except SessionError Unit :=
  match rt.pty with
  | some pty =>
    match env.result with
    | .ok () => ({ rt with pty := some { pty with input := pty.input ++ data } }, .ok ())
    | .error e => ({ rt with pty := some { pty with input := pty.input ++ data.take env.accepted } }, .error (.pty e))
  | none => (rt, .error .notRunning)

/-- `resize` after its check for 0 dimensions. -/
def resize (rt : Runtime V) (cols rows : UInt16) (outcome : Except PtyError Unit) :
    Runtime V × Except SessionError Unit :=
  let (cols, rows) := clampDims cols rows
  match rt.pty with
  | some pty =>
    match outcome with
    | .ok () => (resizeBoth S rt pty cols rows, .ok ())
    | .error e => (rt, .error (.pty e))
  | none => (rt, .error .notRunning)

/-- What `terminate` does before it waits: `none` means it goes on to wait. -/
def terminate (rt : Runtime V) (kill : Except PtyError Unit) : Runtime V × Option (Except SessionError ExitSummary) :=
  match rt.exit with
  | some exit => (rt, some (.ok exit))
  | none =>
    let rt := { rt with state := .terminating }
    match rt.pty with
    | some _ =>
      match kill with
      | .ok () => (rt, none)
      | .error e => (rt, some (.error (.pty e)))
    | none => (rt, none)

/-- The end of `terminate`'s bounded wait for the exit: it times out exactly when the
    exit is still missing. -/
def terminateWake (rt : Runtime V) : Runtime V × Except SessionError ExitSummary :=
  match rt.exit with
  | none => (rt, .error (.internal "shell did not exit after kill"))
  | some exit => ({ rt with state := .exited }, .ok exit)

/-! ## The pump -/

/-- `try_send` of `ev` to every attachment in the table. -/
def fanOut (rt : Runtime V) (ev : AttachmentEvent) : Nat → SyncChannel AttachmentEvent := fun i =>
  if i ∈ rt.attachments then ((rt.channels i).trySend ev).2 else rt.channels i

/-- A full queue (or a dropped receiver) detaches that attachment, never blocking the
    shell. -/
def keptBy (rt : Runtime V) (ev : AttachmentEvent) : Finset Nat :=
  rt.attachments.filter fun i => ((rt.channels i).trySend ev).1.isOk = true

def pumpChunk (rt : Runtime V) (chunk : List UInt8) : Runtime V :=
  { rt with
    model := rt.model.feed S.avt chunk
    channels := rt.fanOut (.output chunk)
    attachments := rt.keptBy (.output chunk) }

/-- The exit recorded at PTY EOF, from the outcome of the PTY's `wait`. -/
def eofExit (rt : Runtime V) (wait : Except PtyError ExitSummary) : ExitSummary :=
  match rt.pty with
  | some _ => wait.toOption.getD ⟨false, 255⟩
  | none => ⟨false, 255⟩

def pumpEof (rt : Runtime V) (wait : Except PtyError ExitSummary) : Runtime V :=
  let exit := rt.eofExit wait
  { rt with
    pty := none
    state := .exited
    exit := some exit
    channels := rt.fanOut (.exited exit)
    attachments := ∅ }

/-! ## Receivers -/

def recv (rt : Runtime V) (attachmentId : Nat) : Runtime V × Option AttachmentEvent :=
  let r := (rt.channels attachmentId).recv
  ({ rt with channels := Function.update rt.channels attachmentId r.2 }, r.1)

def dropReceiver (rt : Runtime V) (attachmentId : Nat) : Runtime V :=
  { rt with channels := Function.update rt.channels attachmentId (rt.channels attachmentId).dropReceiver }

end Runtime

end Holdfast.Session

/-
  Holdfast.Agent.Streams — the agent's streams (`serve`, `serve_next`, `serve_attachment`
  and `read_envelope` of `crates/agent/src/lib.rs`).

  Both loops are a `select!` between the next envelope and other work: terminal output, a
  timer, a stream the gateway opens. `read_envelope` takes its bytes as they arrive, the
  header and then the payload, and keeps them in the future; when another branch completes
  the future is dropped, and what it took is gone. In `serve_attachment` the branch is the
  read alone and its arm runs to its end; in `serve` it is all of `serve_next`, so the
  answer still being written can be dropped too.

  `Serving` is one of the two loops, `Stream` its state; which branch wins, how the bytes
  arrive and what the session core answers are inputs.

  Proved:
  - `readEnvelope_eq`: one poll of the read is one step of the frame decoder on what the
    future took and what has arrived.
  - `streamInv_step` / `streamInv_run`: as long as no other branch completes while a
    frame is half read, the envelopes processed are those whose frames were taken.
  - `streams_lose_nothing`: they are the envelopes written, in order, and all of them
    once everything written has been read.
-/

import Holdfast.Base.Machine
import Holdfast.Daemon.Wire
import Holdfast.Protocol.Framing
import Holdfast.Protocol.Ids

namespace Holdfast.Agent

open Holdfast.Base Holdfast.Protocol Holdfast.Session Holdfast.Terminal Holdfast.Daemon

/-! ## Messages -/

structure AgentOpenShell where
  userId : String
  unixAccount : String
  command : String
  initialCols : UInt32
  initialRows : UInt32
  idempotencyKey : List UInt8
  connectionGrant : List UInt8
  deriving DecidableEq, Repr

structure AgentAttachShell where
  userId : String
  connectionGrant : List UInt8
  cols : UInt32
  rows : UInt32
  deriving DecidableEq, Repr

inductive AgentMessage where
  | agentPing (nonce : UInt64)
  | agentPong (nonce : UInt64)
  | agentError (code : ErrorCode) (humanMessage : String) (retryable : Bool)
  | agentOpenShell (open_ : AgentOpenShell)
  | agentShellOpened (shellId : List UInt8) (reused : Bool)
  | agentAttachShell (request : AgentAttachShell)
  | agentShellAttached (screenSnapshot : List UInt8) (screenRevision oldestHistoryLineId newestHistoryLineId : Nat)
  | terminalInput (data : List UInt8)
  | terminalResize (cols rows : UInt32)
  | detachShell
  | requestHistory (beforeLineId maximumLines maximumBytes : Nat)
  | historyChunk (firstLineId : Nat) (lines : List Text) (truncatedByEviction : Bool)
  | historyEnd (oldestAvailableLineId : Nat)
  /-- Any other message. -/
  | other
  deriving DecidableEq, Repr

structure AgentEnvelope where
  requestId : UInt64
  serverId : List UInt8
  shellId : List UInt8
  message : Option AgentMessage
  deriving DecidableEq, Repr

inductive OpenValidationError where
  | invalid
  | unauthenticated
  | forbidden
  deriving DecidableEq, Repr

def mapOpenValidationError : OpenValidationError → ErrorCode × String
  | .invalid => (.errUnknownMessage, "invalid shell request")
  | .unauthenticated => (.errUnauthenticated, "invalid connection grant")
  | .forbidden => (.errForbidden, "grant scope denied shell")

def mapSessionError : SessionError → ErrorCode × String × Bool
  | .forbidden => (.errForbidden, "local access policy denied shell", false)
  | .limitExceeded _ => (.errLimitExceeded, "local shell limit exceeded", true)
  | .pty _ => (.errInternal, "local PTY launch failed", true)
  | .internal _ => (.errInternal, "invalid shell request", false)
  | .shellNotFound | .notRunning | .invalidToken | .tokenReplayed => (.errInternal, "invalid shell state", false)

/-- Ownership mismatch and unknown ids have the same shape, so that the gateway cannot use
    this as an oracle. -/
def mapAttachmentSessionError : SessionError → ErrorCode × String × Bool
  | .shellNotFound | .forbidden | .invalidToken | .tokenReplayed => (.errForbidden, "shell attachment denied", false)
  | .notRunning => (.errNotReady, "shell is not running", false)
  | .limitExceeded _ => (.errLimitExceeded, "local attachment limit exceeded", true)
  | .pty _ => (.errInternal, "local PTY operation failed", true)
  | .internal _ => (.errInternal, "invalid shell state", false)

/-! ## Handling one envelope -/

/-- What the session core and the grant checks answer while an envelope is handled. -/
structure Outside where
  authorized : Except OpenValidationError Unit
  opened : Except SessionError (ShellId × Bool)
  attached : Except SessionError Attachment
  written : Except SessionError Unit
  resized : Except SessionError Unit
  history : Except SessionError HistoryRange
  oldest : Except SessionError Nat

def agentTerminalInputBytesMax : Nat := 64 * 1024

/-- `serve_next`, from the envelope it read: what it writes, and whether `serve` goes on. -/
def serveNext (server : ServerId) (request : AgentEnvelope) (o : Outside) : List AgentEnvelope × Bool :=
  let reply (message : AgentMessage) : AgentEnvelope := ⟨request.requestId, server.toWire, [], some message⟩
  match ServerId.fromWire request.serverId with
  | none => ([], false)
  | some scope =>
    if scope ≠ server then ([reply (.agentError .errForbidden "server identity mismatch" false)], false)
    else
      match request.message with
      | some (.agentPing nonce) => ([reply (.agentPong nonce)], true)
      | some (.agentOpenShell _) =>
        match o.authorized with
        | .error e => ([reply (.agentError (mapOpenValidationError e).1 (mapOpenValidationError e).2 false)], true)
        | .ok () =>
          match o.opened with
          | .ok (id, reused) => ([reply (.agentShellOpened id.toWire reused)], true)
          | .error e =>
            let (code, message, retryable) := mapSessionError e
            ([reply (.agentError code message retryable)], true)
      | _ => ([reply (.agentError .errUnknownMessage "unexpected agent control message" false)], true)

/-- `validate_attachment_scope`. -/
def attachmentScope (server : ServerId) (envelope : AgentEnvelope) : Option ShellId :=
  if ServerId.fromWire envelope.serverId ≠ some server then none else ShellId.fromWire envelope.shellId

def attachmentReply (server : ServerId) (shell : ShellId) (requestId : UInt64) (message : AgentMessage) : AgentEnvelope :=
  ⟨requestId, server.toWire, shell.toWire, some message⟩

/-- The first envelope of an attachment stream must attach. -/
def attachFirst (server : ServerId) (first : AgentEnvelope) (o : Outside) : List AgentEnvelope × Bool :=
  match attachmentScope server first with
  | none => ([], false)
  | some shell =>
    let reply := attachmentReply server shell first.requestId
    match first.message with
    | some (.agentAttachShell _) =>
      match o.authorized with
      | .error e => ([reply (.agentError (mapOpenValidationError e).1 (mapOpenValidationError e).2 false)], false)
      | .ok () =>
        match o.attached with
        | .error e =>
          let (code, message, retryable) := mapAttachmentSessionError e
          ([reply (.agentError code message retryable)], false)
        | .ok a =>
          ([reply (.agentShellAttached a.snapshot a.screenRevision a.oldestHistoryLineId a.newestHistoryLineId)], true)
    | _ => ([reply (.agentError .errUnknownMessage "attachment stream must begin with attach" false)], false)

/-- The arm of the select loop for an envelope of the attached shell. -/
def attachmentArm (server : ServerId) (shell : ShellId) (envelope : AgentEnvelope) (o : Outside) :
    List AgentEnvelope × Bool :=
  let reply := attachmentReply server shell envelope.requestId
  let failure (e : SessionError) : AgentEnvelope :=
    reply (.agentError (mapAttachmentSessionError e).1 (mapAttachmentSessionError e).2.1 (mapAttachmentSessionError e).2.2)
  if attachmentScope server envelope ≠ some shell then ([], false)
  else
    match envelope.message with
    | some (.terminalInput data) =>
      if data.length > agentTerminalInputBytesMax then
        ([reply (.agentError .errInputOverflow "terminal input frame too large" false)], false)
      else
        match o.written with
        | .error e => ([failure e], false)
        | .ok () => ([], true)
    | some (.terminalResize cols rows) =>
      if cols > 65535 ∨ rows > 65535 then
        ([reply (.agentError .errUnknownMessage "invalid terminal dimensions" false)], false)
      else
        match o.resized with
        | .error e => ([failure e], false)
        | .ok () => ([], true)
    | some (.requestHistory _ _ _) =>
      match o.history with
      | .ok range =>
        ([reply (.historyChunk range.firstLineId range.lines range.truncatedByEviction),
          reply (.historyEnd (match o.oldest with | .ok oldest => oldest | .error _ => 0))], true)
      | .error e => ([failure e], true)
    | some .detachShell => ([], false)
    | _ => ([reply (.agentError .errUnknownMessage "unexpected attachment message" false)], false)

def agentTerminalOutputBytesMax : Nat := 8 * 1024

/-- The arm for an event of the attachment, or for its end: what is written, and whether the loop goes
    on. An output that is too long is an error of the loop. -/
def eventArm : Option AttachmentEvent → Option (Msg × Bool)
  | some (.output data) => if data.length > agentTerminalOutputBytesMax then none else some (.terminalOutput data, true)
  | some (.exited exit) => some (.shellExited exit.exitCode.toInt32 (!exit.success && exit.exitCode == 0), false)
  | none => some (.error .errTooSlow "attachment output queue exceeded" true, false)

/-! ## A loop and its stream -/

/-- One of the two loops. -/
structure Serving (E D A : Type) where
  codec : Codec E D
  maxFrameBytes : UInt32
  /-- What the loop does with an envelope after the earlier ones: what it writes, and
      whether it goes on. -/
  handle : List E → E → A → List E × Bool
  /-- This many envelopes are read before the loop selects. -/
  preamble : Nat
  /-- The handling belongs to the branch, not to its arm. -/
  inBranch : Bool

variable {E D A : Type}

inductive Task where
  /-- `read_envelope` has taken these bytes. -/
  | reading (got : List UInt8)
  /-- Still to be written of the answers; whether the loop goes on then. -/
  | writing (left : List UInt8) (goesOn : Bool)
  | ended
  deriving DecidableEq, Repr

structure Stream (E : Type) where
  /-- Arrived and not taken. -/
  inbox : List UInt8
  finished : Bool
  task : Task
  /-- The envelopes handled so far. -/
  processed : List E
  sent : List UInt8
  deriving DecidableEq, Repr

inductive StreamInput (A : Type) where
  | arrive (bytes : List UInt8)
  /-- The peer finishes or resets the stream. -/
  | finish
  | poll (outside : A)
  | flush (n : Nat)
  /-- Another branch completes; its arm goes on or ends the loop. -/
  | other (goesOn : Bool)

inductive Read (E : Type) where
  | pending (got inbox : List UInt8)
  | done (envelope : E) (inbox : List UInt8)
  | failed
  deriving DecidableEq, Repr

namespace Serving

variable (S : Serving E D A)

/-- `read_exact` up to `n` bytes in all: what it has then, and what is left of the inbox. -/
def readExact (n : Nat) (got inbox : List UInt8) : List UInt8 × List UInt8 :=
  (got ++ inbox.take (n - got.length), inbox.drop (n - got.length))

/-- One poll of `read_envelope`: the header, its check, the payload. -/
def readEnvelope (got inbox : List UInt8) : Read E :=
  let (got, inbox) := readExact lengthPrefixBytes got inbox
  match header got with
  | none => .pending got inbox
  | some len =>
    match checkedPayloadLen (D := D) len S.maxFrameBytes with
    | .error _ => .failed
    | .ok len' =>
      let (got, inbox) := readExact (lengthPrefixBytes + len') got inbox
      if got.length < lengthPrefixBytes + len' then .pending got inbox
      else
        match S.codec.decode (payload got len) with
        | .error _ => .failed
        | .ok envelope => .done envelope inbox

/-- `write_envelope` of each answer: the bytes, and whether every one fits the maximum. -/
def writeEnvelopes : List E → List UInt8 × Bool
  | [] => ([], true)
  | e :: es =>
    match encodeDelimited S.codec e S.maxFrameBytes with
    | .error _ => ([], false)
    | .ok bytes => let r := writeEnvelopes es; (bytes ++ r.1, r.2)

def written (s : Stream E) (left : List UInt8) (goesOn : Bool) : Stream E :=
  { s with task := if left ≠ [] then .writing left goesOn else if goesOn then .reading [] else .ended }

def poll (s : Stream E) (outside : A) : Stream E :=
  match s.task with
  | .reading got =>
    match S.readEnvelope got s.inbox with
    | .failed => { s with task := .ended }
    | .pending got inbox =>
      -- `read_exact` fails when the stream ends inside a frame
      if s.finished then { s with inbox := inbox, task := .ended } else { s with inbox := inbox, task := .reading got }
    | .done envelope inbox =>
      let (answers, goesOn) := S.handle s.processed envelope outside
      let (bytes, fit) := S.writeEnvelopes answers
      written { s with inbox := inbox, processed := s.processed ++ [envelope] } bytes (goesOn && fit)
  | _ => s

def flush (s : Stream E) (n : Nat) : Stream E :=
  match s.task with
  | .writing left goesOn => written { s with sent := s.sent ++ left.take n } (left.drop n) goesOn
  | _ => s

/-- Another branch completes: the pending read is dropped with what it took, and so is the
    pending write where it is part of the branch. -/
def other (s : Stream E) (goesOn : Bool) : Stream E :=
  if s.processed.length < S.preamble then s
  else
    match s.task with
    | .reading _ => { s with task := if goesOn then .reading [] else .ended }
    | .writing _ _ => if S.inBranch then { s with task := if goesOn then .reading [] else .ended } else s
    | .ended => s

def step (s : Stream E) : StreamInput A → Stream E × Unit
  | .arrive bytes => ({ s with inbox := s.inbox ++ bytes }, ())
  | .finish => ({ s with finished := true }, ())
  | .poll outside => (S.poll s outside, ())
  | .flush n => (flush s n, ())
  | .other goesOn => (S.other s goesOn, ())

def machine : Machine (Stream E) (StreamInput A) Unit := ⟨fun s i => S.step s i⟩

end Serving

def Stream.start : Stream E := ⟨[], false, .reading [], [], []⟩

def agentAttachmentFrameBytesMax : UInt32 := 256 * 1024

/-- `serve` and its control stream. -/
def serve (C : Codec AgentEnvelope D) (server : ServerId) (maxFrameBytes : UInt32) : Serving AgentEnvelope D Outside :=
  ⟨C, maxFrameBytes, fun _ => serveNext server, 0, true⟩

/-- `serve_attachment`: the first envelope names the shell. -/
def serveAttachment (C : Codec AgentEnvelope D) (server : ServerId) : Serving AgentEnvelope D Outside where
  codec := C
  maxFrameBytes := agentAttachmentFrameBytesMax
  handle
    | [], envelope, o => attachFirst server envelope o
    | first :: _, envelope, o =>
      match attachmentScope server first with
      | none => ([], false)
      | some shell => attachmentArm server shell envelope o
  preamble := 1
  inBranch := false

/-! ## One read -/

namespace Serving

variable {S : Serving E D A}

theorem readExact_le {n : Nat} {got : List UInt8} (h : got.length ≤ n) (inbox : List UInt8) :
    readExact n got inbox = ((got ++ inbox).take n, (got ++ inbox).drop n) := by
  unfold readExact
  rw [List.take_append, List.take_of_length_le h, List.drop_append, List.drop_of_length_le h, List.nil_append]

/-- The header's part of a read: it stops at the header, or takes all there is. -/
theorem readExact_header {max : UInt32} {got : List UInt8} (inbox : List UInt8)
    (h : ∀ len, header got = some len → len ≤ max ∧ got.length < lengthPrefixBytes + len.toNat) :
    header (readExact lengthPrefixBytes got inbox).1 = header (got ++ inbox) ∧
    (header (got ++ inbox) = none → readExact lengthPrefixBytes got inbox = (got ++ inbox, [])) ∧
    ∀ len, header (got ++ inbox) = some len →
      readExact (lengthPrefixBytes + len.toNat) (readExact lengthPrefixBytes got inbox).1
          (readExact lengthPrefixBytes got inbox).2 =
        ((got ++ inbox).take (lengthPrefixBytes + len.toNat), (got ++ inbox).drop (lengthPrefixBytes + len.toNat)) := by
  cases hg : header got with
  | none =>
    have hshort := header_none hg
    rw [readExact_le (Nat.le_of_lt hshort)]
    refine ⟨header_take, ?_, ?_⟩
    · intro hn
      have hlen := Nat.le_of_lt (header_none hn)
      rw [List.take_of_length_le hlen, List.drop_of_length_le hlen]
    · intro len _
      rw [readExact_le (by rw [List.length_take]; omega), List.take_append_drop]
  | some len =>
    have hlong := header_isSome.mp (show (header got).isSome = true by rw [hg]; rfl)
    have hzero : lengthPrefixBytes - got.length = 0 := by omega
    have hread : readExact lengthPrefixBytes got inbox = (got, inbox) := by
      rw [readExact, hzero, List.take_zero, List.append_nil, List.drop_zero]
    rw [hread]
    refine ⟨by rw [header_append hg]; exact hg, ?_, ?_⟩
    · intro hn
      rw [header_append hg] at hn
      cases hn
    · intro len' hl
      rw [header_append hg] at hl
      cases hl
      exact readExact_le (Nat.le_of_lt (h len hg).2) inbox

theorem payload_take (buf : List UInt8) (len : UInt32) :
    payload (buf.take (lengthPrefixBytes + len.toNat)) len = payload buf len := by
  rw [payload, List.drop_take, Nat.add_sub_cancel_left, List.take_take, Nat.min_self]
  rfl

/-- A poll of the read is the frame decoder's answer to all the bytes it can see. -/
theorem readEnvelope_eq {got inbox : List UInt8} (h : parseFrame S.codec S.maxFrameBytes got = .ok none) :
    S.readEnvelope got inbox =
      match parseFrame S.codec S.maxFrameBytes (got ++ inbox) with
      | .error _ => .failed
      | .ok none => .pending (got ++ inbox) []
      | .ok (some (envelope, left)) => .done envelope left := by
  obtain ⟨hheader, hshort, hrest⟩ := readExact_header inbox (fun len hh => parse_waiting h hh)
  unfold readEnvelope
  simp only [hheader]
  cases hh : header (got ++ inbox) with
  | none =>
    have hn : parseFrame S.codec S.maxFrameBytes (got ++ inbox) = .ok none :=
      parse_incomplete fun len hl => by rw [hh] at hl; cases hl
    simp only [hn, hshort hh]
  | some len =>
    by_cases hlt : len > S.maxFrameBytes
    · simp only [checkedPayloadLen, hlt, if_true, parse_refused hh hlt]
    · have hle := UInt32.not_lt.mp hlt
      simp only [checkedPayloadLen, hlt, if_false, hrest len hh, List.length_take]
      by_cases hwhole : lengthPrefixBytes + len.toNat ≤ (got ++ inbox).length
      · have hc : Complete S.maxFrameBytes (got ++ inbox) len := ⟨hh, hle, hwhole⟩
        rw [if_neg (by omega), payload_take, parse_complete hc]
        cases S.codec.decode (payload (got ++ inbox) len) with
        | error e => rfl
        | ok envelope => rfl
      · have hn : parseFrame S.codec S.maxFrameBytes (got ++ inbox) = .ok none := by
          refine parse_incomplete ?_
          intro len' hl
          rw [hh] at hl
          cases hl
          exact ⟨hle, by omega⟩
        rw [if_pos (by omega), hn, List.take_of_length_le (by omega), List.drop_of_length_le (by omega)]

/-! ## Whole streams -/

end Serving

def Stream.got (s : Stream E) : List UInt8 :=
  match s.task with
  | .reading got => got
  | _ => []

def StreamInput.bytes : StreamInput A → List UInt8
  | .arrive bytes => bytes
  | _ => []

/-- Everything that arrived in a run. -/
def arrived (is : List (StreamInput A)) : List UInt8 := is.flatMap StreamInput.bytes

namespace Serving

variable (S : Serving E D A)

/-- No other branch completes while the pending read has part of a frame. -/
def calm (s : Stream E) : StreamInput A → Bool
  | .other _ => decide (s.processed.length < S.preamble ∨ s.got = [])
  | _ => true

abbrev Calm (s : Stream E) (i : StreamInput A) : Prop := S.calm s i = true

/-- Of the envelopes `es` a prefix is processed; the bytes that arrived are its frames,
    then what the pending read has, which is no whole frame, then the inbox. -/
structure StreamInv (es : List E) (bytes : List UInt8) (s : Stream E) : Prop where
  processed : s.processed <+: es
  bytes_eq : s.task ≠ .ended → bytes = s.processed.flatMap (frameOf S.codec) ++ s.got ++ s.inbox
  half : parseFrame S.codec S.maxFrameBytes s.got = .ok none

variable {S}

theorem parse_frames {es : List E} (hfit : ∀ e ∈ es, (S.codec.encode e).length ≤ S.maxFrameBytes.toNat)
    (hinv : ∀ e ∈ es, S.codec.decode (S.codec.encode e) = .ok e) :
    es = [] ∧ parseFrame S.codec S.maxFrameBytes (es.flatMap (frameOf S.codec)) = .ok none ∨
    ∃ e es', es = e :: es' ∧ parseFrame S.codec S.maxFrameBytes (es.flatMap (frameOf S.codec)) =
      .ok (some (e, es'.flatMap (frameOf S.codec))) := by
  cases es with
  | nil => exact .inl ⟨rfl, rfl⟩
  | cons e es' => exact .inr ⟨e, es', rfl, parse_frameOf (hfit e List.mem_cons_self) (hinv e List.mem_cons_self) _⟩

@[simp] theorem written_processed (s : Stream E) (left : List UInt8) (goesOn : Bool) :
    (written s left goesOn).processed = s.processed := rfl
@[simp] theorem written_inbox (s : Stream E) (left : List UInt8) (goesOn : Bool) :
    (written s left goesOn).inbox = s.inbox := rfl

@[simp] theorem written_got (s : Stream E) (left : List UInt8) (goesOn : Bool) : (written s left goesOn).got = [] := by
  unfold written
  split
  · rfl
  · split <;> rfl

/-- A poll: the read takes all there is and waits, or it takes the next frame. -/
theorem poll_inv {es : List E} {bytes future : List UInt8} {s : Stream E} (h : S.StreamInv es bytes s)
    (hfit : ∀ e ∈ es, (S.codec.encode e).length ≤ S.maxFrameBytes.toNat)
    (hinv : ∀ e ∈ es, S.codec.decode (S.codec.encode e) = .ok e)
    (hwire : bytes ++ future = es.flatMap (frameOf S.codec)) (outside : A) : S.StreamInv es bytes (S.poll s outside) := by
  unfold poll
  cases ht : s.task with
  | writing left goesOn => exact h
  | ended => exact h
  | reading got =>
    have hgot : s.got = got := by simp only [Stream.got, ht]
    obtain ⟨rest, hes⟩ := h.processed
    have hbytes := h.bytes_eq (by rw [ht]; exact nofun)
    have hhalf := h.half
    rw [hgot] at hbytes hhalf
    -- what the peer still has to get through: the pending bytes, the inbox, the future
    have hrest : got ++ s.inbox ++ future = rest.flatMap (frameOf S.codec) := by
      rw [← hes, List.flatMap_append, hbytes, List.append_assoc, List.append_assoc] at hwire
      rw [List.append_assoc]
      exact List.append_cancel_left hwire
    have hmem : ∀ e ∈ rest, e ∈ es := fun e he => by rw [← hes]; exact List.mem_append_right _ he
    have hnext := parse_frames (fun e he => hfit e (hmem e he)) (fun e he => hinv e (hmem e he))
    simp only [readEnvelope_eq hhalf]
    cases hp : parseFrame S.codec S.maxFrameBytes (got ++ s.inbox) with
    | error e =>
      have hfatal := (frames S.codec S.maxFrameBytes).fatal future hp
      rw [hrest] at hfatal
      rcases hnext with ⟨_, hn⟩ | ⟨e', es', _, hn⟩
      · rw [show (frames S.codec S.maxFrameBytes).next _ = _ from hn] at hfatal; cases hfatal
      · rw [show (frames S.codec S.maxFrameBytes).next _ = _ from hn] at hfatal; cases hfatal
    | ok o =>
      cases o with
      | none =>
        simp only
        split
        · exact ⟨h.processed, fun hne => absurd rfl hne, rfl⟩
        · refine ⟨h.processed, ?_, hp⟩
          intro _
          rw [hbytes, List.append_assoc]
          simp [Stream.got]
      | some x =>
        obtain ⟨envelope, left⟩ := x
        have hstable := (frames S.codec S.maxFrameBytes).stable future hp
        rw [hrest] at hstable
        rcases hnext with ⟨_, hn⟩ | ⟨e', es', hcons, hn⟩
        · rw [show (frames S.codec S.maxFrameBytes).next _ = _ from hn] at hstable; cases hstable
        · rw [show (frames S.codec S.maxFrameBytes).next _ = _ from hn] at hstable
          simp only [Except.ok.injEq, Option.some.injEq, Prod.mk.injEq] at hstable
          obtain ⟨rfl, hleft⟩ := hstable
          have htaken : got ++ s.inbox = frameOf S.codec e' ++ left := by
            rw [hcons, List.flatMap_cons, hleft, ← List.append_assoc] at hrest
            exact List.append_cancel_right hrest
          refine ⟨?_, ?_, ?_⟩
          · rw [written_processed, ← hes, hcons]
            exact ⟨es', by simp⟩
          · intro _
            rw [written_processed, written_got, written_inbox, hbytes, List.append_assoc, htaken]
            simp [List.flatMap_append]
          · rw [written_got]
            rfl

/-- Dropping a future that holds nothing. -/
theorem dropped_inv {es : List E} {bytes : List UInt8} {s : Stream E} (h : S.StreamInv es bytes s) (hgot : s.got = [])
    (hne : s.task ≠ .ended) (goesOn : Bool) :
    S.StreamInv es bytes { s with task := if goesOn then .reading [] else .ended } := by
  have hbytes := h.bytes_eq hne
  rw [hgot] at hbytes
  cases goesOn with
  | true => exact ⟨h.processed, fun _ => hbytes, rfl⟩
  | false => exact ⟨h.processed, fun hend => absurd rfl hend, rfl⟩

theorem streamInv_step {es : List E} {bytes future : List UInt8} {s : Stream E} {i : StreamInput A}
    (h : S.StreamInv es bytes s) (hfit : ∀ e ∈ es, (S.codec.encode e).length ≤ S.maxFrameBytes.toNat)
    (hinv : ∀ e ∈ es, S.codec.decode (S.codec.encode e) = .ok e)
    (hwire : bytes ++ i.bytes ++ future = es.flatMap (frameOf S.codec)) (hcalm : S.Calm s i) :
    S.StreamInv es (bytes ++ i.bytes) (S.machine.next s i) := by
  cases i with
  | arrive more =>
    refine ⟨h.processed, ?_, h.half⟩
    intro hne
    rw [h.bytes_eq hne]
    simp [StreamInput.bytes, machine, Machine.next, step, Stream.got]
  | finish =>
    rw [show bytes ++ (StreamInput.finish : StreamInput A).bytes = bytes from List.append_nil _]
    exact ⟨h.processed, h.bytes_eq, h.half⟩
  | poll outside =>
    rw [show bytes ++ (StreamInput.poll outside).bytes = bytes from List.append_nil _] at hwire ⊢
    exact poll_inv h hfit hinv hwire outside
  | flush n =>
    rw [show bytes ++ (StreamInput.flush n : StreamInput A).bytes = bytes from List.append_nil _]
    show S.StreamInv es bytes (flush s n)
    unfold flush
    cases ht : s.task with
    | reading got => exact h
    | ended => exact h
    | writing left goesOn =>
      refine ⟨h.processed, ?_, by rw [written_got]; rfl⟩
      intro _
      rw [h.bytes_eq (by rw [ht]; exact nofun), written_got]
      simp [Stream.got, ht]
  | other goesOn =>
    rw [show bytes ++ (StreamInput.other goesOn : StreamInput A).bytes = bytes from List.append_nil _]
    show S.StreamInv es bytes (S.other s goesOn)
    simp only [Calm, calm, decide_eq_true_eq] at hcalm
    unfold other
    split
    · exact h
    · rename_i hsel
      have hgot : s.got = [] := hcalm.resolve_left hsel
      cases ht : s.task with
      | reading got => exact dropped_inv h hgot (by rw [ht]; exact nofun) goesOn
      | writing left goesOn' =>
        simp only
        split
        · exact dropped_inv h hgot (by rw [ht]; exact nofun) goesOn
        · exact h
      | ended => exact h

theorem streamInv_run {es : List E} (hfit : ∀ e ∈ es, (S.codec.encode e).length ≤ S.maxFrameBytes.toNat)
    (hinv : ∀ e ∈ es, S.codec.decode (S.codec.encode e) = .ok e) {is : List (StreamInput A)}
    (hwire : arrived is <+: es.flatMap (frameOf S.codec)) (hcalm : S.machine.Admissible S.Calm .start is) :
    S.StreamInv es (arrived is) (S.machine.run .start is) := by
  induction is using List.reverseRecOn with
  | nil => exact ⟨List.nil_prefix, fun _ => rfl, rfl⟩
  | append_singleton is i ih =>
    obtain ⟨his, hi⟩ := S.machine.admissible_snoc.mp hcalm
    have hsnoc : arrived (is ++ [i]) = arrived is ++ i.bytes := by simp [arrived]
    rw [hsnoc] at hwire ⊢
    obtain ⟨future, hfuture⟩ := hwire
    rw [Machine.run_snoc]
    refine streamInv_step (ih ⟨i.bytes ++ future, ?_⟩ his) hfit hinv hfuture hi
    rw [← List.append_assoc]
    exact hfuture

/-- Reading goes on as long as there is something to read. -/
theorem poll_progress {es : List E} {bytes : List UInt8} {s : Stream E} (h : S.StreamInv es bytes s) {got : List UInt8}
    (ht : s.task = .reading got) (hne : s.inbox ≠ []) (outside : A) :
    (S.poll s outside).task = .ended ∨ (S.poll s outside).inbox.length < s.inbox.length := by
  have hhalf := h.half
  rw [show s.got = got by simp only [Stream.got, ht]] at hhalf
  have hpos : 0 < s.inbox.length := List.length_pos_iff.mpr hne
  simp only [poll, ht, readEnvelope_eq hhalf]
  cases hp : parseFrame S.codec S.maxFrameBytes (got ++ s.inbox) with
  | error e => exact .inl rfl
  | ok o =>
    cases o with
    | none =>
      simp only
      split
      · exact .inl rfl
      · exact .inr hpos
    | some x =>
      obtain ⟨envelope, left⟩ := x
      obtain ⟨len, hc, _, rfl⟩ := parse_taken hp
      have hshort := waiting_short hhalf hc.header
      right
      simp only [written_inbox, List.length_drop, List.length_append]
      omega

end Serving

/-- On a control stream or an attachment stream, as long as no other branch completes over
    a half read frame: what is processed is a prefix of what the peer writes, the bytes in
    between are all accounted for, and once everything is read everything is processed.
    While there is something to read a poll takes some of it. -/
theorem streams_lose_nothing (C : Codec AgentEnvelope D) (server : ServerId) (S : Serving AgentEnvelope D Outside)
    (hS : S = serveAttachment C server ∨ ∃ max, S = serve C server max) (es : List AgentEnvelope)
    (hinv : ∀ e ∈ es, C.decode (C.encode e) = .ok e)
    (hfit : ∀ e ∈ es, (C.encode e).length ≤ S.maxFrameBytes.toNat) (is : List (StreamInput Outside))
    (hwire : arrived is <+: es.flatMap (frameOf C)) (hcalm : S.machine.Admissible S.Calm .start is) :
    ∃ s, S.machine.run .start is = s ∧ s.processed <+: es ∧
      (s.task ≠ .ended → arrived is = s.processed.flatMap (frameOf C) ++ s.got ++ s.inbox ∧
        (s.inbox = [] → arrived is = es.flatMap (frameOf C) → s.processed = es ∧ s.got = [])) ∧
      ∀ got, s.task = .reading got → s.inbox ≠ [] → ∀ outside,
        (S.poll s outside).task = .ended ∨ (S.poll s outside).inbox.length < s.inbox.length := by
  have hcodec : S.codec = C := by
    rcases hS with rfl | ⟨max, rfl⟩
    · rfl
    · rfl
  subst hcodec
  have h := Serving.streamInv_run hfit hinv hwire hcalm
  refine ⟨_, rfl, h.processed, ?_, fun got ht hne outside => Serving.poll_progress h ht hne outside⟩
  intro hne
  have hbytes := h.bytes_eq hne
  refine ⟨hbytes, ?_⟩
  intro hempty hall
  obtain ⟨rest, hrest⟩ := h.processed
  have hgot : rest.flatMap (frameOf S.codec) = (S.machine.run .start is).got := by
    rw [hall, ← hrest, List.flatMap_append, hempty, List.append_nil] at hbytes
    exact List.append_cancel_left hbytes
  have hhalf := h.half
  rw [← hgot] at hhalf
  have hmem : ∀ e ∈ rest, e ∈ es := fun e he => by rw [← hrest]; exact List.mem_append_right _ he
  rcases Serving.parse_frames (fun e he => hfit e (hmem e he)) (fun e he => hinv e (hmem e he)) with ⟨hnil, _⟩ | ⟨e, es', _, hp⟩
  · subst hnil
    exact ⟨by simpa using hrest, hgot.symm⟩
  · rw [hhalf] at hp
    cases hp

/-! ## A frame cut by another branch -/

def sampleServer : ServerId := ⟨Vector.replicate 16 3⟩

def samplePing : AgentEnvelope := ⟨0, sampleServer.toWire, [], some (.agentPing 7)⟩

def sampleAttach : AgentEnvelope :=
  ⟨1, sampleServer.toWire, sampleShell.toWire, some (.agentAttachShell ⟨"a", [1], 80, 24⟩)⟩

def sampleInput : AgentEnvelope := ⟨0, sampleServer.toWire, sampleShell.toWire, some (.terminalInput [120])⟩

/-- What prost writes for the three sample envelopes. -/
def sampleEncode (e : AgentEnvelope) : List UInt8 :=
  if e = samplePing then [0x12, 0x10] ++ sampleServer.toWire ++ [0x62, 2, 8, 7]
  else if e = sampleAttach then
    [8, 1, 0x12, 0x10] ++ sampleServer.toWire ++ [0x1a, 0x10] ++ sampleShell.toWire ++
      [0x8a, 1, 10, 10, 1, 97, 0x12, 1, 1, 0x18, 80, 0x20, 24]
  else if e = sampleInput then
    [0x12, 0x10] ++ sampleServer.toWire ++ [0x1a, 0x10] ++ sampleShell.toWire ++ [0x9a, 1, 3, 10, 1, 120]
  else []

def sampleCodec : Codec AgentEnvelope Unit where
  encode := sampleEncode
  decode bytes :=
    match [samplePing, sampleAttach, sampleInput].find? (fun e => sampleEncode e == bytes) with
    | some e => .ok e
    | none => .error ()

def sampleOutside : Outside :=
  ⟨.ok (), .ok (sampleShell, false), .ok ⟨1, sampleShell, [], 1, .repeated 1, 0, 0⟩, .ok (), .ok (), .error .shellNotFound,
    .error .shellNotFound⟩

/-- A ping that arrives in two pieces, with output in between but not while it is read. -/
theorem streams_lose_nothing_ping :
    ∃ s, (serve sampleCodec sampleServer 16384).machine.run .start
        [.other true, .arrive ((frameOf sampleCodec samplePing).take 9), .poll sampleOutside,
          .arrive ((frameOf sampleCodec samplePing).drop 9), .poll sampleOutside] = s ∧ s.processed = [samplePing] := by
  obtain ⟨s, hs, _, hbytes, _⟩ := streams_lose_nothing sampleCodec sampleServer (serve sampleCodec sampleServer 16384)
    (.inr ⟨16384, rfl⟩) [samplePing] (by decide) (by decide)
    [.other true, .arrive ((frameOf sampleCodec samplePing).take 9), .poll sampleOutside,
      .arrive ((frameOf sampleCodec samplePing).drop 9), .poll sampleOutside] (by decide) (by decide)
  refine ⟨s, hs, ?_⟩
  have hne : s.task ≠ .ended := by rw [← hs]; decide
  exact ((hbytes hne).2 (by rw [← hs]; decide) (by decide)).1

/-- Output completes after all but one byte of a frame is taken, on the control stream and
    on an attachment stream: everything the peer wrote was read, nothing ended, and the
    envelope is gone. -/
theorem half_read_frame_is_lost :
    (let is : List (StreamInput Outside) :=
      [.arrive ((frameOf sampleCodec samplePing).take 25), .poll sampleOutside, .other true,
        .arrive ((frameOf sampleCodec samplePing).drop 25), .poll sampleOutside]
    let s := (serve sampleCodec sampleServer 16384).machine.run .start is
    arrived is = [samplePing].flatMap (frameOf sampleCodec) ∧ s.inbox = [] ∧ s.task = .reading [7] ∧ s.processed = []) ∧
    (let is : List (StreamInput Outside) :=
      [.arrive (frameOf sampleCodec sampleAttach), .poll sampleOutside, .flush 1000,
        .arrive ((frameOf sampleCodec sampleInput).take 45), .poll sampleOutside, .other true,
        .arrive ((frameOf sampleCodec sampleInput).drop 45), .poll sampleOutside]
    let s := (serveAttachment sampleCodec sampleServer).machine.run .start is
    arrived is = [sampleAttach, sampleInput].flatMap (frameOf sampleCodec) ∧ s.inbox = [] ∧
      s.task = .reading [120] ∧ s.processed = [sampleAttach]) := by
  refine ⟨⟨?_, ?_, ?_, ?_⟩, ⟨?_, ?_, ?_, ?_⟩⟩
  all_goals decide

end Holdfast.Agent

/-
  Holdfast.Daemon.Forward — a TCP forward's end at the daemon (`ForwardBinding` and the
  task of `spawn` in `crates/daemon/src/forward.rs`).

  `ForwardBinding::message` runs in the connection's dispatch: it puts what the peer sent
  into a queue of one, or refuses it, and two flags shared with the task say whether such a
  message is due. The task runs `upstream` and `downstream` side by side; each is where
  its future stands, so that a step is what runs between two awaits.

  A refused message has the task aborted; it goes on until the runtime drops it
  (`cancel`). A timeout and an I/O error are one input (`fail`).

  Proved:
  - `written_accepted`: whatever the peer sends, what is written to the socket is a prefix
    of the data accepted.
  - `accepts_data`: data is accepted only when everything accepted before it has been
    written and none of it was an EOF.
-/

import Holdfast.Base.Machine
import Holdfast.Daemon.Conn

namespace Holdfast.Daemon

open Holdfast.Base

/-! ## Sockets and messages -/

/-- A TCP socket as one end uses it: what its reads gave, and what was done to it. -/
structure TcpSocket where
  given : List UInt8
  /-- A read gave 0 bytes. -/
  givenEof : Bool
  written : List UInt8
  /-- The write half was shut down. -/
  shut : Bool
  deriving DecidableEq, Repr

def TcpSocket.fresh : TcpSocket := ⟨[], false, [], false⟩

def TcpSocket.read (s : TcpSocket) (bytes : List UInt8) : TcpSocket :=
  { s with given := s.given ++ bytes, givenEof := s.givenEof || bytes.isEmpty }

/-- What the daemon sends on a forward's channel. -/
inductive ForwardMessage where
  | opened (boundIp : String) (boundPort : UInt32)
  | data (data : List UInt8)
  | eof
  | ack
  | error (code : ErrorCode) (humanMessage : String) (retryable : Bool)
  /-- Any other message. -/
  | other
  deriving DecidableEq, Repr

structure ForwardReply where
  requestId : UInt64
  serverId : List UInt8
  shellId : List UInt8
  message : Option ForwardMessage
  deriving DecidableEq, Repr

/-- `send` without a request: the identity fields are the defaults. -/
def forwardReply (requestId : UInt64) (m : ForwardMessage) : ForwardReply := ⟨requestId, [], [], some m⟩

def ForwardReply.isError (e : ForwardReply) : Bool :=
  match e.message with
  | some (.error _ _ _) => true
  | _ => false

def ForwardReply.isAck (e : ForwardReply) : Bool :=
  match e.message with
  | some .ack => true
  | _ => false

/-- The data or EOF in a reply. -/
def ForwardReply.payload (e : ForwardReply) : Option (Option (List UInt8)) :=
  match e.message with
  | some (.data data) => some (some data)
  | some .eof => some none
  | _ => none

def Envelope.isForwardAck (e : Envelope) : Bool :=
  match e.message with
  | some .tcpForwardAck => true
  | _ => false

/-- The message a read of the socket becomes; 0 bytes are its end. -/
def ForwardMessage.ofRead (bytes : List UInt8) : ForwardMessage := if bytes.isEmpty then .eof else .data bytes

/-! ## The task -/

inductive Stage where
  | connecting
  /-- Connected; `TcpForwardOpened` is being sent. -/
  | opening
  | relaying
  /-- Returned, failed or dropped. -/
  | ended
  deriving DecidableEq, Repr

inductive Upstream where
  | receiving
  | writing (rest : List UInt8)
  | shutting
  | acking (eof : Bool)
  | finished
  deriving DecidableEq, Repr

inductive Downstream where
  | reading
  | sending (m : ForwardMessage)
  | awaiting (eof : Bool)
  | finished
  deriving DecidableEq, Repr

/-- The binding and its task. `input` and `acks` are the queues of one between them. -/
structure Forward where
  requestId : UInt64
  boundIp : String
  boundPort : UInt32
  inputReady : Bool
  ackExpected : Bool
  /-- `none` in it is an EOF. -/
  input : Option (Option (List UInt8))
  inputClosed : Bool
  acks : Bool
  acksClosed : Bool
  stage : Stage
  upstream : Upstream
  downstream : Downstream
  socket : TcpSocket
  aborted : Bool
  deriving DecidableEq, Repr

inductive TaskInput where
  /-- The connect completes. -/
  | connect
  /-- `TcpForwardOpened` is sent. -/
  | open
  /-- `upstream` goes on; a TCP write takes `accepted + 1` bytes at most. -/
  | upstream (accepted : Nat)
  /-- A TCP read completes. -/
  | read (bytes : List UInt8)
  /-- `downstream` goes on, but for a read. -/
  | downstream
  /-- A timeout, or an error of the socket or the channel. -/
  | fail
  /-- The runtime drops the aborted task. -/
  | cancel
  deriving DecidableEq, Repr

namespace Forward

def spawn (requestId : UInt64) (boundIp : String) (boundPort : UInt32) : Forward :=
  { requestId := requestId, boundIp := boundIp, boundPort := boundPort, inputReady := false, ackExpected := false,
    input := none, inputClosed := false, acks := false, acksClosed := false, stage := .connecting,
    upstream := .receiving, downstream := .reading, socket := .fresh, aborted := false }

/-- A queue whose receiver is there takes a message. -/
def inputOpen (f : Forward) : Bool := f.stage != .ended && !f.inputClosed && f.input.isNone

def acksOpen (f : Forward) : Bool := f.stage != .ended && !f.acksClosed && !f.acks

/-- `input_ready.swap(false) && input.try_send(..)`. -/
def offerInput (f : Forward) (x : Option (List UInt8)) : Forward × Bool :=
  let f' := { f with inputReady := false }
  if f.inputReady && f.inputOpen then ({ f' with input := some x }, true) else (f', false)

/-- `ack_expected.swap(false) && acks.try_send(())`. -/
def offerAck (f : Forward) : Forward × Bool :=
  let f' := { f with ackExpected := false }
  if f.ackExpected && f.acksOpen then ({ f' with acks := true }, true) else (f', false)

/-- `ForwardBinding::message`. -/
def message (f : Forward) (e : Envelope) : Forward × Bool :=
  if e.requestId ≠ 0 ∨ ¬e.serverId.isEmpty ∨ ¬e.shellId.isEmpty then (f, false)
  else
    match e.message with
    | some (.tcpForwardData data) =>
      if !data.isEmpty && decide (data.length ≤ forwardDataBytesMax) then f.offerInput (some data) else (f, false)
    | some .tcpForwardEof => f.offerInput none
    | some .tcpForwardAck => f.offerAck
    | _ => (f, false)

def abort (f : Forward) : Forward := { f with aborted := true }

/-- The task ends with an error, and says so. -/
def failed (f : Forward) : Forward × List ForwardReply :=
  ({ f with stage := .ended },
    [forwardReply f.requestId (.error .errServerUnavailable "TCP forwarding failed or timed out" false)])

/-- `try_join!` returns once both have. -/
def joined (f : Forward) : Forward :=
  if f.upstream = .finished ∧ f.downstream = .finished then { f with stage := .ended } else f

def stepUpstream (f : Forward) (accepted : Nat) : Forward × List ForwardReply :=
  match f.upstream with
  | .receiving =>
    match f.input with
    | none => (f, [])
    | some (some data) => ({ f with input := none, upstream := .writing data }, [])
    | some none => ({ f with input := none, upstream := .shutting }, [])
  | .writing rest =>
    let socket := { f.socket with written := f.socket.written ++ rest.take (accepted + 1) }
    if (rest.drop (accepted + 1)).isEmpty then
      -- ready again before the peer hears of it
      ({ f with socket := socket, inputReady := true, upstream := .acking false }, [])
    else ({ f with socket := socket, upstream := .writing (rest.drop (accepted + 1)) }, [])
  | .shutting => ({ f with socket := { f.socket with shut := true }, upstream := .acking true }, [])
  | .acking false => ({ f with upstream := .receiving }, [forwardReply 0 .ack])
  | .acking true =>
    let f := { f with inputClosed := true }
    -- a message after the EOF
    if f.input.isSome then (f.failed.1, forwardReply 0 .ack :: f.failed.2)
    else ({ f with upstream := .finished }.joined, [forwardReply 0 .ack])
  | .finished => (f, [])

def stepRead (f : Forward) (bytes : List UInt8) : Forward :=
  match f.downstream with
  | .reading =>
    let bytes := bytes.take forwardDataBytesMax
    { f with socket := f.socket.read bytes, ackExpected := true, downstream := .sending (.ofRead bytes) }
  | _ => f

def stepDownstream (f : Forward) : Forward × List ForwardReply :=
  match f.downstream with
  -- unsolicited forward acknowledgement
  | .reading => if f.acks then { f with acks := false }.failed else (f, [])
  | .sending m => ({ f with downstream := .awaiting (m == .eof) }, [forwardReply 0 m])
  | .awaiting eof =>
    if f.acks then
      if eof then ({ f with acks := false, acksClosed := true, downstream := .finished }.joined, [])
      else ({ f with acks := false, downstream := .reading }, [])
    else (f, [])
  | .finished => (f, [])

def step (f : Forward) : TaskInput → Forward × List ForwardReply
  | .connect => if f.stage = .connecting then ({ f with inputReady := true, stage := .opening }, []) else (f, [])
  | .open =>
    if f.stage = .opening then
      ({ f with stage := .relaying }, [forwardReply f.requestId (.opened f.boundIp f.boundPort)])
    else (f, [])
  | .upstream accepted => if f.stage = .relaying then f.stepUpstream accepted else (f, [])
  | .read bytes => if f.stage = .relaying then (f.stepRead bytes, []) else (f, [])
  | .downstream => if f.stage = .relaying then f.stepDownstream else (f, [])
  | .fail => if f.stage = .ended then (f, []) else f.failed
  | .cancel => if f.aborted then ({ f with stage := .ended }, []) else (f, [])

/-! ## Against any peer -/

inductive Input where
  /-- A message on the channel reaches the binding. -/
  | message (e : Envelope)
  | task (i : TaskInput)
  /-- The channel closes: the binding is dropped. -/
  | closed
  deriving DecidableEq, Repr

/-- What a step sends, and what the binding accepted in it. -/
structure Output where
  replies : List ForwardReply
  accepted : Option (Option (List UInt8))
  deriving DecidableEq, Repr

/-- The data or EOF in a message. -/
def payload (e : Envelope) : Option (Option (List UInt8)) :=
  match e.message with
  | some (.tcpForwardData data) => some (some data)
  | some .tcpForwardEof => some none
  | _ => none

/-- The connection's dispatch on a forward's channel. -/
def dispatch (f : Forward) (e : Envelope) : Forward × Output :=
  let r := f.message e
  if r.2 then (r.1, ⟨[], payload e⟩)
  else (r.1.abort, ⟨[forwardReply 0 (.error .errInvalidArgument "invalid TCP forwarding frame" false)], none⟩)

def peerStep (f : Forward) : Input → Forward × Output
  | .message e => f.dispatch e
  | .task i => ((f.step i).1, ⟨(f.step i).2, none⟩)
  | .closed => (f.abort, ⟨[], none⟩)

def machine : Machine Forward Input Output := ⟨peerStep⟩

/-- What was accepted along a run. -/
def accepted (tr : List (Input × Output)) : List (Option (List UInt8)) := tr.filterMap (·.2.accepted)

/-- The bytes of the data among it. -/
def bytesOf (l : List (Option (List UInt8))) : List UInt8 := (l.filterMap id).flatten

@[simp] theorem bytesOf_append (l l' : List (Option (List UInt8))) : bytesOf (l ++ l') = bytesOf l ++ bytesOf l' := by
  simp [bytesOf]

/-- Accepted, and not written yet. -/
def unwritten (f : Forward) : List UInt8 :=
  (match f.upstream with
    | .writing rest => rest
    | _ => []) ++
  (match f.input with
    | some (some data) => data
    | _ => [])

/-- Between two messages. -/
def Upstream.idle (u : Upstream) : Prop := u = .receiving ∨ u = .acking false

/-- The EOF is being dealt with. -/
def Upstream.ending (u : Upstream) : Prop := u = .shutting ∨ u = .acking true ∨ u = .finished

structure Fed (f : Forward) (acc : List (Option (List UInt8))) : Prop where
  bytes : f.socket.written ++ f.unwritten = bytesOf acc
  ready : f.inputReady = true → f.input = none ∧ Upstream.idle f.upstream ∧ none ∉ acc
  full : f.input.isSome = true → Upstream.idle f.upstream ∧ f.inputReady = false
  eof : none ∈ acc → f.inputReady = false ∧ (f.input = some none ∨ Upstream.ending f.upstream)
  connecting : f.stage = .connecting → f.inputReady = false ∧ f.input = none ∧ f.upstream = .receiving ∧ acc = []

variable {f f' : Forward} {acc : List (Option (List UInt8))}

theorem unwritten_congr (hu : f'.upstream = f.upstream) (hi : f'.input = f.input) : f'.unwritten = f.unwritten := by
  unfold unwritten
  rw [hu, hi]

/-- What the socket, the task's upstream half and its queue do not notice. -/
theorem Fed.frame (h : Fed f acc) (hs : f'.socket.written = f.socket.written) (hu : f'.upstream = f.upstream)
    (hi : f'.input = f.input) (hr : f'.inputReady = true → f.inputReady = true)
    (hc : f'.stage = .connecting → f.stage = .connecting) : Fed f' acc := by
  have hunready : f.inputReady = false → f'.inputReady = false := by
    intro hf
    cases hf' : f'.inputReady with
    | false => rfl
    | true =>
      rw [hr hf'] at hf
      cases hf
  refine ⟨?_, ?_, ?_, ?_, ?_⟩
  · rw [hs, unwritten_congr hu hi]
    exact h.bytes
  · intro hready
    rw [hu, hi]
    exact h.ready (hr hready)
  · intro hfull
    rw [hi] at hfull
    rw [hu]
    exact ⟨(h.full hfull).1, hunready (h.full hfull).2⟩
  · intro hmem
    rw [hu, hi]
    exact ⟨hunready (h.eof hmem).1, (h.eof hmem).2⟩
  · intro hstage
    obtain ⟨hready, hrest⟩ := h.connecting (hc hstage)
    rw [hu, hi]
    exact ⟨hunready hready, hrest⟩

theorem fed_spawn (requestId : UInt64) (ip : String) (port : UInt32) : Fed (spawn requestId ip port) [] :=
  ⟨rfl, nofun, nofun, nofun, fun _ => ⟨rfl, rfl, rfl, rfl⟩⟩

/-- What the binding does with a message. -/
inductive Answered (f : Forward) (e : Envelope) : Forward × Bool → Prop
  | refused (ready expected : Bool) (hr : ready = true → f.inputReady = true) :
      Answered f e ({ f with inputReady := ready, ackExpected := expected }, false)
  | input (x : Option (List UInt8)) (hx : payload e = some x) (hr : f.inputReady = true) (ho : f.inputOpen = true) :
      Answered f e ({ f with inputReady := false, input := some x }, true)
  | ack (hx : payload e = none) (he : f.ackExpected = true) (ho : f.acksOpen = true) :
      Answered f e ({ f with ackExpected := false, acks := true }, true)

theorem offerInput_answered {e : Envelope} {x : Option (List UInt8)} (hx : payload e = some x) :
    Answered f e (f.offerInput x) := by
  unfold offerInput
  by_cases h : (f.inputReady && f.inputOpen) = true
  · rw [if_pos h]
    rw [Bool.and_eq_true] at h
    exact .input x hx h.1 h.2
  · rw [if_neg h]
    exact .refused false f.ackExpected nofun

theorem offerAck_answered {e : Envelope} (hx : payload e = none) : Answered f e f.offerAck := by
  unfold offerAck
  by_cases h : (f.ackExpected && f.acksOpen) = true
  · rw [if_pos h]
    rw [Bool.and_eq_true] at h
    exact .ack hx h.1 h.2
  · rw [if_neg h]
    exact .refused f.inputReady false id

theorem message_answered (f : Forward) (e : Envelope) : Answered f e (f.message e) := by
  have hno : Answered f e (f, false) := .refused f.inputReady f.ackExpected id
  unfold message
  split
  · exact hno
  · cases hm : e.message with
    | none => exact hno
    | some m =>
      cases m with
      | tcpForwardData data =>
        simp only
        split
        · exact offerInput_answered (by rw [payload, hm])
        · exact hno
      | tcpForwardEof => exact offerInput_answered (by rw [payload, hm])
      | tcpForwardAck => exact offerAck_answered (by rw [payload, hm])
      | _ => exact hno

theorem unwritten_ready (h : Fed f acc) (hr : f.inputReady = true) : f.unwritten = [] := by
  obtain ⟨hi, hu | hu, _⟩ := h.ready hr <;> simp [unwritten, hi, hu]

/-- Data is accepted only when all that was accepted has been written, and no EOF was. -/
theorem Fed.accepts (h : Fed f acc) (hr : f.inputReady = true) : none ∉ acc ∧ f.socket.written = bytesOf acc := by
  refine ⟨(h.ready hr).2.2, ?_⟩
  rw [← h.bytes, unwritten_ready h hr, List.append_nil]

theorem fed_input (h : Fed f acc) (hr : f.inputReady = true) (x : Option (List UInt8)) :
    Fed { f with inputReady := false, input := some x } (acc ++ [x]) := by
  obtain ⟨hi, hu, hno⟩ := h.ready hr
  refine ⟨?_, nofun, fun _ => ⟨hu, rfl⟩, ?_, ?_⟩
  · rw [bytesOf_append, ← (h.accepts hr).2]
    obtain hu | hu := hu <;> cases x <;> simp [unwritten, bytesOf, hu]
  · intro hmem
    rcases List.mem_append.mp hmem with hmem | hmem
    · exact absurd hmem hno
    · exact ⟨rfl, .inl (by rw [List.mem_singleton.mp hmem])⟩
  · intro hstage
    rw [(h.connecting hstage).1] at hr
    cases hr

theorem fed_dispatch (h : Fed f acc) (e : Envelope) :
    Fed (f.dispatch e).1 (acc ++ (f.dispatch e).2.accepted.toList) := by
  have ha := message_answered f e
  unfold dispatch
  generalize f.message e = r at ha
  cases ha with
  | refused ready expected hr =>
    simp only [Bool.false_eq_true, if_false, Option.toList_none, List.append_nil]
    exact h.frame rfl rfl rfl hr id
  | input x hx hr ho =>
    simp only [if_true, hx, Option.toList_some]
    exact fed_input h hr x
  | ack hx he ho =>
    simp only [if_true, hx, Option.toList_none, List.append_nil]
    exact h.frame rfl rfl rfl id id

theorem dispatch_accepts (h : Fed f acc) {e : Envelope} {x : Option (List UInt8)}
    (ho : (f.dispatch e).2.accepted = some x) : none ∉ acc ∧ f.socket.written = bytesOf acc := by
  have ha := message_answered f e
  unfold dispatch at ho
  generalize f.message e = r at ha ho
  cases ha with
  | refused ready expected hr => cases ho
  | input y hy hr hopen => exact h.accepts hr
  | ack hy he hopen =>
    simp only [if_true, hy] at ho
    cases ho

theorem Fed.joined (h : Fed f acc) : Fed f.joined acc := by
  unfold Forward.joined
  split
  · exact h.frame rfl rfl rfl id nofun
  · exact h

theorem Fed.failed (h : Fed f acc) : Fed f.failed.1 acc := h.frame rfl rfl rfl id nofun

/-- The half that is busy, or done, has no message in its queue, and none is due. -/
theorem Fed.busy (h : Fed f acc) (hu : ¬Upstream.idle f.upstream) : f.input = none ∧ f.inputReady = false := by
  constructor
  · cases hi : f.input with
    | none => rfl
    | some x => exact absurd (h.full (by rw [hi]; rfl)).1 hu
  · cases hr : f.inputReady with
    | false => rfl
    | true => exact absurd (h.ready hr).2.1 hu

theorem Fed.no_eof (h : Fed f acc) (hi : f.input ≠ some none) (hu : ¬Upstream.ending f.upstream) : none ∉ acc := by
  intro hmem
  rcases (h.eof hmem).2 with he | he
  · exact hi he
  · exact hu he

theorem fed_take (h : Fed f acc) (hs : f.stage = .relaying) (hu : f.upstream = .receiving) {x : Option (List UInt8)}
    (hi : f.input = some x) :
    Fed { f with input := none, upstream := x.elim .shutting .writing } acc := by
  have hready := (h.full (by rw [hi]; rfl)).2
  have hbytes := h.bytes
  rw [unwritten, hu, hi] at hbytes
  have hnot : ¬Upstream.ending f.upstream := by
    rw [hu]
    rintro (h | h | h) <;> cases h
  refine ⟨?_, fun hr => absurd hr (by simp [hready]), nofun, ?_, fun hc => absurd hc (by simp [hs])⟩
  · cases x <;> simpa [unwritten] using hbytes
  · intro hmem
    cases x with
    | none => exact ⟨hready, .inr (.inl rfl)⟩
    | some data => exact absurd hmem (h.no_eof (by rw [hi]; simp) hnot)

/-- A write takes some of the bytes, or the last of them. -/
theorem fed_write (h : Fed f acc) (hs : f.stage = .relaying) {rest : List UInt8} (hu : f.upstream = .writing rest)
    (accepted : Nat) : Fed (f.stepUpstream accepted).1 acc := by
  have hidle : ¬Upstream.idle f.upstream := by
    rw [hu]
    rintro (h | h) <;> cases h
  have hending : ¬Upstream.ending f.upstream := by
    rw [hu]
    rintro (h | h | h) <;> cases h
  obtain ⟨hi, hr⟩ := h.busy hidle
  have hno := h.no_eof (by rw [hi]; simp) hending
  have hbytes := h.bytes
  rw [unwritten, hu, hi, List.append_nil, ← List.take_append_drop (accepted + 1) rest, ← List.append_assoc] at hbytes
  simp only [stepUpstream, hu]
  split
  · rename_i hdone
    rw [List.isEmpty_iff.mp hdone, List.append_nil] at hbytes
    refine ⟨by simpa [unwritten, hi] using hbytes, fun _ => ⟨hi, .inr rfl, hno⟩, fun hf => absurd hf (by simp [hi]),
      fun hmem => absurd hmem hno, fun hc => absurd hc (by simp [hs])⟩
  · refine ⟨by simpa [unwritten, hi] using hbytes, fun h => absurd h (by simp [hr]), fun hf => absurd hf (by simp [hi]),
      fun hmem => absurd hmem hno, fun hc => absurd hc (by simp [hs])⟩

/-- On the way from the EOF to the end nothing is accepted or written. -/
theorem fed_ending (h : Fed f acc) (hs : f.stage = .relaying) (hu : Upstream.ending f.upstream)
    (hw : f'.socket.written = f.socket.written) (hu' : Upstream.ending f'.upstream) (hi' : f'.input = f.input)
    (hr' : f'.inputReady = f.inputReady) (hs' : f'.stage = f.stage) : Fed f' acc := by
  have hidle : ¬Upstream.idle f.upstream := by
    rintro (h | h) <;> rcases hu with hu | hu | hu <;> rw [h] at hu <;> cases hu
  obtain ⟨hi, hr⟩ := h.busy hidle
  have hbytes := h.bytes
  refine ⟨?_, fun h => absurd h (by simp [hr', hr]), fun hf => absurd hf (by simp [hi', hi]), ?_,
    fun hc => absurd hc (by simp [hs', hs])⟩
  · rw [hw, ← hbytes]
    congr 1
    rcases hu with hu | hu | hu <;> rcases hu' with hu' | hu' | hu' <;> simp [unwritten, hu, hu', hi, hi']
  · intro _
    rw [hr', hr]
    exact ⟨rfl, .inr hu'⟩

theorem fed_upstream (h : Fed f acc) (hs : f.stage = .relaying) (accepted : Nat) :
    Fed (f.stepUpstream accepted).1 acc := by
  cases hu : f.upstream with
  | receiving =>
    simp only [stepUpstream, hu]
    cases hi : f.input with
    | none => exact h
    | some x => cases x <;> exact fed_take h hs hu hi
  | writing rest => exact fed_write h hs hu accepted
  | shutting =>
    simp only [stepUpstream, hu]
    exact fed_ending h hs (.inl hu) rfl (.inr (.inl rfl)) rfl rfl rfl
  | acking eof =>
    cases eof with
    | false =>
      simp only [stepUpstream, hu]
      have hbytes := h.bytes
      rw [unwritten, hu] at hbytes
      refine ⟨by simpa [unwritten] using hbytes, fun hr => ?_, fun hf => ⟨.inl rfl, (h.full hf).2⟩, ?_,
        fun hc => absurd hc (by simp [hs])⟩
      · obtain ⟨hi, _, hno⟩ := h.ready hr
        exact ⟨hi, .inl rfl, hno⟩
      · intro hmem
        refine ⟨(h.eof hmem).1, ?_⟩
        rcases (h.eof hmem).2 with he | he | he | he
        · exact .inl he
        all_goals
          rw [hu] at he
          cases he
    | true =>
      have hend : Fed { f with inputClosed := true, upstream := .finished } acc :=
        fed_ending h hs (.inr (.inl hu)) rfl (.inr (.inr rfl)) rfl rfl rfl
      simp only [stepUpstream, hu]
      split
      · refine Fed.failed (f := { f with inputClosed := true, upstream := .acking true }) ?_
        exact h.frame rfl hu.symm rfl id id
      · exact hend.joined
  | finished =>
    simp only [stepUpstream, hu]
    exact h

theorem fed_read (h : Fed f acc) (bytes : List UInt8) : Fed (f.stepRead bytes) acc := by
  unfold stepRead
  split
  · exact h.frame rfl rfl rfl id id
  · exact h

theorem fed_downstream (h : Fed f acc) : Fed f.stepDownstream.1 acc := by
  unfold stepDownstream
  split
  · split
    · exact Fed.failed (h.frame rfl rfl rfl id id)
    · exact h
  · exact h.frame rfl rfl rfl id id
  · split
    · split
      · exact Fed.joined (h.frame rfl rfl rfl id id)
      · exact h.frame rfl rfl rfl id id
    · exact h
  · exact h

theorem fed_task (h : Fed f acc) (i : TaskInput) : Fed (f.step i).1 acc := by
  cases i with
  | connect =>
    simp only [step]
    split
    · rename_i hs
      obtain ⟨_, hi, hu, hacc⟩ := h.connecting hs
      have hbytes := h.bytes
      rw [hacc] at hbytes ⊢
      exact ⟨hbytes, fun _ => ⟨hi, .inl hu, nofun⟩, fun hf => absurd hf (by simp [hi]), nofun, nofun⟩
    · exact h
  | «open» =>
    simp only [step]
    split
    · exact h.frame rfl rfl rfl id nofun
    · exact h
  | upstream accepted =>
    simp only [step]
    split
    · rename_i hs
      exact fed_upstream h hs accepted
    · exact h
  | read bytes =>
    simp only [step]
    split
    · exact fed_read h bytes
    · exact h
  | downstream =>
    simp only [step]
    split
    · exact fed_downstream h
    · exact h
  | fail =>
    simp only [step]
    split
    · exact h
    · exact h.failed
  | cancel =>
    simp only [step]
    split
    · exact h.frame rfl rfl rfl id nofun
    · exact h

theorem fed_step (h : Fed f acc) (i : Input) : Fed (f.peerStep i).1 (acc ++ (f.peerStep i).2.accepted.toList) := by
  cases i with
  | message e => exact fed_dispatch h e
  | task i =>
    simp only [peerStep, Option.toList_none, List.append_nil]
    exact fed_task h i
  | closed =>
    simp only [peerStep, Option.toList_none, List.append_nil]
    exact h.frame rfl rfl rfl id id

theorem accepted_snoc (tr : List (Input × Output)) (x : Input × Output) :
    accepted (tr ++ [x]) = accepted tr ++ x.2.accepted.toList := by
  rw [accepted, List.filterMap_append]
  cases h : x.2.accepted <;> simp [accepted, h]

theorem fed_run (requestId : UInt64) (ip : String) (port : UInt32) (is : List Input) :
    Fed (machine.run (spawn requestId ip port) is) (accepted (machine.trace (spawn requestId ip port) is)) := by
  refine machine.trace_induction (P := fun tr f => Fed f (accepted tr)) (fed_spawn requestId ip port) ?_
    (machine.admissible_true _ is)
  intro tr f i h _
  rw [accepted_snoc]
  exact fed_step h i

/-- Whatever the peer sends, the socket gets the data accepted, in order. -/
theorem written_accepted (requestId : UInt64) (ip : String) (port : UInt32) (is : List Input) :
    (machine.run (spawn requestId ip port) is).socket.written <+:
      bytesOf (accepted (machine.trace (spawn requestId ip port) is)) :=
  ⟨_, (fed_run requestId ip port is).bytes⟩

/-- Data is accepted only once all that was accepted before it is written, and no EOF was. -/
theorem accepts_data (requestId : UInt64) (ip : String) (port : UInt32) (is : List Input) (e : Envelope)
    {x : Option (List UInt8)}
    (h : (machine.out (machine.run (spawn requestId ip port) is) (.message e)).accepted = some x) :
    none ∉ accepted (machine.trace (spawn requestId ip port) is) ∧
      (machine.run (spawn requestId ip port) is).socket.written =
        bytesOf (accepted (machine.trace (spawn requestId ip port) is)) := by
  exact dispatch_accepts (fed_run requestId ip port is) h

end Forward

end Holdfast.Daemon

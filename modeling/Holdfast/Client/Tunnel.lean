/-
  Holdfast.Client.Tunnel — the two ends of a TCP forward, joined by their channel
  (`relay` of `crates/native-client/src/socks.rs`, `ForwardBinding` and the task of
  `crates/daemon/src/forward.rs`).

  The channel is two in-order queues of messages. A relay that is over drops its streams:
  when all it sent has been read the daemon drops the binding, and the task with it.

  Each direction sends a message, waits until it is acknowledged, and only then reads its
  socket again. `Phase` says where the message of a direction is, from the read to the
  acknowledgement; what both ends, their flags and the queues hold of that direction is a
  function of its phase (`Up`, `Down`).

  Proved:
  - `inv_step` / `inv_run`: along every run without timeouts and I/O errors each direction is
    in a phase.
  - `stop_and_wait`: what one socket was given the other gets, in order and up to the end;
    one message of a direction is outstanding at most; neither end rejects what the other
    sent; and against any peer an end writes only data it accepted after it had written
    all it accepted before.
-/

import Holdfast.Base.StopAndWait
import Holdfast.Client.Relay

namespace Holdfast.Client

open Holdfast.Base Holdfast.Daemon

/-! ## The system -/

/-- An in-order channel, with what was taken from it. -/
structure Wire (α : Type) where
  received : List α
  queue : List α
  deriving DecidableEq, Repr

namespace Wire

variable {α : Type}

def empty : Wire α := ⟨[], []⟩

def put (c : Wire α) (l : List α) : Wire α := { c with queue := c.queue ++ l }

def pop (c : Wire α) : Wire α := ⟨c.received ++ c.queue.take 1, c.queue.drop 1⟩

/-- All that was ever put on it. -/
def sent (c : Wire α) : List α := c.received ++ c.queue

@[simp] theorem put_nil (c : Wire α) : c.put [] = c := by simp [put]
@[simp] theorem queue_put (c : Wire α) (l : List α) : (c.put l).queue = c.queue ++ l := rfl
@[simp] theorem received_put (c : Wire α) (l : List α) : (c.put l).received = c.received := rfl
@[simp] theorem sent_put (c : Wire α) (l : List α) : (c.put l).sent = c.sent ++ l := by simp [sent]

theorem pop_cons {c : Wire α} {a : α} {q : List α} (h : c.queue = a :: q) : c.pop = ⟨c.received ++ [a], q⟩ := by
  simp [pop, h]

theorem sent_cons {c : Wire α} {a : α} {q : List α} (h : c.queue = a :: q) :
    (⟨c.received ++ [a], q⟩ : Wire α).sent = c.sent := by
  simp [sent, h]

end Wire

structure Tunnel where
  relay : Relay
  forward : Forward
  toDaemon : Wire Envelope
  toClient : Wire ForwardReply
  deriving DecidableEq, Repr

inductive TunnelInput where
  /-- A TCP read at the client. -/
  | read (bytes : List UInt8)
  /-- The relay's arm goes on. -/
  | arm (accepted : Nat)
  /-- The relay takes the next message. -/
  | receive
  /-- The daemon's dispatch takes the next message. -/
  | dispatch
  /-- The daemon's task goes on, TCP reads included. -/
  | task (i : TaskInput)
  /-- The daemon sees the end of the relay's stream. -/
  | close
  /-- A timeout or an I/O error at the client. -/
  | fail
  deriving DecidableEq, Repr

def TunnelInput.fails : TunnelInput → Bool
  | .fail => true
  | .task .fail => true
  | _ => false

/-- The two ends go on with what they have. -/
def TunnelInput.internal : TunnelInput → Bool
  | .arm _ => true
  | .receive => true
  | .dispatch => true
  | .task (.upstream _) => true
  | .task .downstream => true
  | .task .connect => true
  | .task .open => true
  | _ => false

namespace Tunnel

def new (boundIp : String) (boundPort : UInt32) : Tunnel := ⟨.new, .spawn 1 boundIp boundPort, .empty, .empty⟩

/-- One step; `true` when an end rejects a message of the other. -/
def step (w : Tunnel) : TunnelInput → Tunnel × Bool
  | .read bytes => ({ w with relay := (w.relay.step (.read bytes)).1 }, false)
  | .arm accepted =>
    let r := w.relay.step (.arm accepted)
    ({ w with relay := r.1, toDaemon := w.toDaemon.put r.2.sent }, false)
  | .receive =>
    match w.toClient.queue with
    | e :: _ =>
      if w.relay.place = .opening ∨ w.relay.place = .select then
        let r := w.relay.step (.receive e)
        ({ w with relay := r.1, toClient := w.toClient.pop }, decide (r.1.place = .bailed))
      else (w, false)
    | [] => (w, false)
  | .dispatch =>
    match w.toDaemon.queue with
    | e :: _ =>
      let r := w.forward.dispatch e
      ({ w with forward := r.1, toDaemon := w.toDaemon.pop, toClient := w.toClient.put r.2.replies },
        !(w.forward.message e).2)
    | [] => (w, false)
  | .task i =>
    let r := w.forward.step i
    ({ w with forward := r.1, toClient := w.toClient.put r.2 }, r.2.any ForwardReply.isError)
  | .close =>
    if (w.relay.place = .returned ∨ w.relay.place = .bailed) ∧ w.toDaemon.queue = [] then
      ({ w with forward := w.forward.abort }, false)
    else (w, false)
  | .fail => ({ w with relay := (w.relay.step .fail).1 }, false)

def machine : Machine Tunnel TunnelInput Bool := ⟨step⟩

/-! ## The two directions -/

end Tunnel

/-- What an end may send: a piece of at most the maximum, or the end. -/
def Sendable (x : Option (List UInt8)) : Prop := ∀ data, x = some data → data ≠ [] ∧ data.length ≤ forwardDataBytesMax

/-- The message for it, from the client and from the daemon. -/
def clientMessage (x : Option (List UInt8)) : ClientMessage := x.elim .tcpForwardEof .tcpForwardData
def daemonMessage (x : Option (List UInt8)) : ForwardMessage := x.elim .eof .data

namespace Tunnel

/-- What the daemon has of the client's direction. -/
def upHand (f : Forward) : Hand UInt8 :=
  match f.input with
  | some x => .queued x
  | none =>
    match f.upstream with
    | .receiving => .free
    | .writing rest => .writing rest
    | .shutting => .shutting
    | .acking eof => .acking eof
    | .finished => .closed

/-- What the client has of the daemon's direction. -/
def downHand (r : Relay) : Hand UInt8 :=
  match r.place with
  | .writing rest => .writing rest
  | .shutting => .shutting
  | .acking => .acking r.remoteEof
  | _ => if r.remoteEof then .closed else .free

def upHeld (r : Relay) : Option (Option (List UInt8)) :=
  match r.place with
  | .sending m => Forward.payload (plain m)
  | _ => none

def downHeld (f : Forward) : Option (Option (List UInt8)) :=
  match f.downstream with
  | .sending m => (forwardReply 0 m).payload
  | _ => none

def downWaiting (f : Forward) : Bool :=
  match f.downstream with
  | .awaiting _ => true
  | _ => false

/-- From the client's socket to the daemon's. -/
def upLane (w : Tunnel) : Lane UInt8 :=
  { held := upHeld w.relay
    waiting := w.relay.waitingAck
    ended := w.relay.socket.givenEof
    flight := w.toDaemon.queue.filterMap Forward.payload
    hand := upHand w.forward
    acks := w.toClient.queue.countP ForwardReply.isAck
    noted := false
    given := w.relay.socket.given
    written := w.forward.socket.written
    shut := w.forward.socket.shut
    sent := (w.toDaemon.sent.filterMap Forward.payload).length
    acked := w.toClient.received.countP ForwardReply.isAck }

/-- From the daemon's socket to the client's. -/
def downLane (w : Tunnel) : Lane UInt8 :=
  { held := downHeld w.forward
    waiting := downWaiting w.forward
    ended := w.forward.socket.givenEof
    flight := w.toClient.queue.filterMap ForwardReply.payload
    hand := downHand w.relay
    acks := w.toDaemon.queue.countP Envelope.isForwardAck
    noted := w.forward.acks
    given := w.forward.socket.given
    written := w.relay.socket.written
    shut := w.relay.socket.shut
    sent := (w.toClient.sent.filterMap ForwardReply.payload).length
    acked := w.toDaemon.received.countP Envelope.isForwardAck }

/-! ## What holds between steps -/

/-- A message of the client's. -/
def UpFrame (e : Envelope) : Prop := e = plain .tcpForwardAck ∨ ∃ x, Sendable x ∧ e = plain (clientMessage x)

/-- A message of the daemon's. -/
def DownFrame (e : ForwardReply) : Prop :=
  e = forwardReply 0 .ack ∨ ∃ x, Sendable x ∧ e = forwardReply 0 (daemonMessage x)

structure RelayOk (r : Relay) : Prop where
  localEof : r.localEof = r.socket.givenEof
  notBailed : r.place ≠ .bailed
  sending : ∀ m, r.place = .sending m → ∃ x, Sendable x ∧ m = clientMessage x
  writing : ∀ rest, r.place = .writing rest → r.remoteEof = false
  shutting : r.place = .shutting → r.remoteEof = true
  returned : r.place = .returned → r.localEof = true ∧ r.remoteEof = true ∧ r.waitingAck = false
  opening : r.place = .opening → r.localEof = false ∧ r.waitingAck = false

structure ForwardOk (f : Forward) : Prop where
  request : f.requestId = 1
  connecting : f.stage = .connecting → f.inputReady = false
  ready : f.stage ≠ .connecting → (f.inputReady = true ↔ upHand f = .free ∨ upHand f = .acking false)
  input : f.input.isSome = true → f.upstream = .receiving
  inputClosed : f.inputClosed = true → f.upstream = .finished
  expected : ∀ eof, f.downstream = .awaiting eof → f.acks = false → f.ackExpected = true
  acks : f.acks = true → ∃ eof, f.downstream = .awaiting eof
  acksClosed : f.acksClosed = true → f.downstream = .finished
  sending : ∀ m, f.downstream = .sending m → f.ackExpected = true ∧ ∃ x, Sendable x ∧ m = daemonMessage x
  reading : f.downstream = .reading → f.socket.givenEof = false
  awaiting : ∀ eof, f.downstream = .awaiting eof → eof = f.socket.givenEof
  finished : f.downstream = .finished → f.socket.givenEof = true
  early : f.stage = .connecting ∨ f.stage = .opening →
    f.input = none ∧ f.upstream = .receiving ∧ f.downstream = .reading
  ended : f.stage = .ended → f.upstream = .finished

/-- How far the opening exchange is. -/
inductive Opening (w : Tunnel) : Prop
  | before (hp : w.relay.place = .opening) (hs : w.forward.stage = .connecting ∨ w.forward.stage = .opening)
      (hq : w.toClient.queue = [])
  | answered (hp : w.relay.place = .opening) (hs : w.forward.stage = .relaying) (ip : String) (port : UInt32)
      (rest : List ForwardReply) (hq : w.toClient.queue = forwardReply 1 (.opened ip port) :: rest)
      (hrest : ∀ e ∈ rest, DownFrame e)
  | after (hp : w.relay.place ≠ .opening) (hs : w.forward.stage = .relaying ∨ w.forward.stage = .ended)
      (hq : ∀ e ∈ w.toClient.queue, DownFrame e)

structure Sound (w : Tunnel) : Prop where
  up : (upLane w).Tidy
  down : (downLane w).Tidy
  relay : RelayOk w.relay
  forward : ForwardOk w.forward
  frames : ∀ e ∈ w.toDaemon.queue, UpFrame e
  opening : Opening w
  aborted : w.forward.aborted = true ∨ w.forward.stage = .ended ∧ w.forward.downstream ≠ .finished →
    w.relay.place = .returned ∧ w.toDaemon.queue = []

/-! ## Messages and their payloads -/

@[simp] theorem payload_clientMessage (x : Option (List UInt8)) : Forward.payload (plain (clientMessage x)) = some x := by
  cases x <;> rfl

@[simp] theorem payload_clientAck : Forward.payload (plain .tcpForwardAck) = none := rfl

@[simp] theorem isForwardAck_clientMessage (x : Option (List UInt8)) :
    (plain (clientMessage x)).isForwardAck = false := by
  cases x <;> rfl

@[simp] theorem isForwardAck_clientAck : (plain .tcpForwardAck).isForwardAck = true := rfl

@[simp] theorem payload_daemonMessage (id : UInt64) (x : Option (List UInt8)) :
    (forwardReply id (daemonMessage x)).payload = some x := by
  cases x <;> rfl

@[simp] theorem payload_daemonAck (id : UInt64) : (forwardReply id .ack).payload = none := rfl

@[simp] theorem isAck_daemonMessage (id : UInt64) (x : Option (List UInt8)) :
    (forwardReply id (daemonMessage x)).isAck = false := by
  cases x <;> rfl

@[simp] theorem isAck_daemonAck (id : UInt64) : (forwardReply id .ack).isAck = true := rfl

@[simp] theorem payload_opened (id : UInt64) (ip : String) (port : UInt32) :
    (forwardReply id (.opened ip port)).payload = none := rfl

@[simp] theorem isAck_opened (id : UInt64) (ip : String) (port : UInt32) :
    (forwardReply id (.opened ip port)).isAck = false := rfl

/-- A read as a message. -/
def ofBytes (bytes : List UInt8) : Option (List UInt8) := if bytes.isEmpty then none else some bytes

theorem sendable_ofBytes (bytes : List UInt8) : Sendable (ofBytes (bytes.take forwardDataBytesMax)) := by
  intro data h
  unfold ofBytes at h
  split at h
  · cases h
  · rename_i hne
    cases h
    refine ⟨?_, List.length_take_le _ _⟩
    intro hnil
    exact hne (List.isEmpty_iff.mpr hnil)

theorem ofRead_client (bytes : List UInt8) : Relay.ofRead bytes = clientMessage (ofBytes bytes) := by
  unfold Relay.ofRead ofBytes
  split <;> rfl

theorem ofRead_daemon (bytes : List UInt8) : ForwardMessage.ofRead bytes = daemonMessage (ofBytes bytes) := by
  unfold ForwardMessage.ofRead ofBytes
  split <;> rfl

theorem isNone_ofBytes (bytes : List UInt8) : (ofBytes bytes).isNone = bytes.isEmpty := by
  unfold ofBytes
  cases h : bytes.isEmpty <;> simp

theorem bytes_ofBytes (bytes : List UInt8) : Lane.bytes (ofBytes bytes) = bytes := by
  unfold ofBytes
  split
  · rename_i h
    rw [List.isEmpty_iff.mp h]
    rfl
  · rfl

/-! ## Steps of the client -/

variable {w : Tunnel}

theorem Sound.not_aborted (h : Sound w) (hp : w.relay.place ≠ .returned) :
    ¬(w.forward.aborted = true ∨ w.forward.stage = .ended ∧ w.forward.downstream ≠ .finished) :=
  fun ha => hp (h.aborted ha).1

theorem Opening.relaying (h : Opening w) (hp : w.relay.place ≠ .opening) :
    (w.forward.stage = .relaying ∨ w.forward.stage = .ended) ∧ ∀ e ∈ w.toClient.queue, DownFrame e := by
  cases h with
  | before hp' => exact absurd hp' hp
  | answered hp' => exact absurd hp' hp
  | after _ hs hq => exact ⟨hs, hq⟩

theorem sound_read (h : Sound w) (bytes : List UInt8) : Sound (w.step (.read bytes)).1 := by
  simp only [step, Relay.step]
  split
  · rename_i hc
    obtain ⟨hp, hlocal, hwait⟩ := hc
    have hgiven : w.relay.socket.givenEof = false := by rw [← h.relay.localEof, hlocal]
    obtain ⟨hs, hq⟩ := h.opening.relaying (by rw [hp]; simp)
    have hup := Lane.tidy_step h.up
      (.read _ (ofBytes (bytes.take forwardDataBytesMax)) (by simp [upLane, upHeld, hp]) hwait hgiven)
    refine ⟨?_, ?_, ?_, h.forward, h.frames, ?_, ?_⟩
    · convert hup using 1
      simp [upLane, upHeld, TcpSocket.read, ofRead_client, isNone_ofBytes, bytes_ofBytes, hgiven]
    · convert h.down using 1
      simp [downLane, downHand, TcpSocket.read, hp]
    · refine ⟨by simp [TcpSocket.read, hgiven], by simp, ?_, by simp, by simp, by simp, by simp⟩
      intro m hm
      cases hm
      exact ⟨_, sendable_ofBytes bytes, ofRead_client _⟩
    · exact .after (by simp) hs hq
    · intro ha
      exact absurd ha (h.not_aborted (by rw [hp]; simp))
  · exact h

/-- The head of the loop leaves the task in `select`, or done. -/
theorem looped_place (r : Relay) :
    r.looped.place = .select ∨
      r.looped.place = .returned ∧ r.localEof = true ∧ r.remoteEof = true ∧ r.waitingAck = false := by
  unfold Relay.looped
  by_cases hc : (r.localEof && r.remoteEof && !r.waitingAck) = true
  · refine .inr ⟨by rw [if_pos hc], ?_⟩
    simp only [Bool.and_eq_true, Bool.not_eq_true'] at hc
    exact ⟨hc.1.1, hc.1.2, hc.2⟩
  · exact .inl (by rw [if_neg hc])

theorem relayOk_looped {r : Relay} (hlocal : r.localEof = r.socket.givenEof) : RelayOk r.looped := by
  rcases looped_place r with hp | ⟨hp, hdone⟩
  · refine ⟨hlocal, ?_, ?_, ?_, ?_, ?_, ?_⟩ <;> simp [hp]
  · refine ⟨hlocal, ?_, ?_, ?_, ?_, fun _ => hdone, ?_⟩ <;> simp [hp]

theorem downHand_looped (r : Relay) : downHand r.looped = if r.remoteEof then .closed else .free := by
  rcases looped_place r with hp | ⟨hp, _⟩ <;> simp only [downHand, hp] <;> rfl

theorem upHeld_looped (r : Relay) : upHeld r.looped = none := by
  rcases looped_place r with hp | ⟨hp, _⟩ <;> simp [upHeld, hp]

theorem looped_not_opening (r : Relay) : r.looped.place ≠ .opening := by
  rcases looped_place r with hp | ⟨hp, _⟩ <;> simp [hp]

/-- The relay sends what it read. -/
theorem sound_arm_send (h : Sound w) {m : ClientMessage} (hp : w.relay.place = .sending m) :
    Sound { w with relay := { w.relay with waitingAck := true }.looped, toDaemon := w.toDaemon.put [plain m] } := by
  obtain ⟨x, hx, rfl⟩ := h.relay.sending m hp
  obtain ⟨hs, hq⟩ := h.opening.relaying (by rw [hp]; simp)
  have hup := Lane.tidy_step h.up (.send _ x (by simp [upLane, upHeld, hp]))
  refine ⟨?_, ?_, relayOk_looped h.relay.localEof, h.forward, ?_, .after (looped_not_opening _) hs hq, ?_⟩
  · convert hup using 1
    simp [upLane, upHeld_looped]
  · have hhand : downHand w.relay = if w.relay.remoteEof then .closed else .free := by simp [downHand, hp]
    convert h.down using 1
    simp [downLane, downHand_looped, hhand]
  · intro e he
    rcases List.mem_append.mp he with he | he
    · exact h.frames e he
    · exact .inr ⟨x, hx, List.mem_singleton.mp he⟩
  · intro ha
    exact absurd ha (h.not_aborted (by rw [hp]; simp))

/-- The relay writes, or shuts its socket down. -/
theorem sound_arm_socket (h : Sound w) {place : Place} {socket : TcpSocket} (hp : upHeld w.relay = none)
    (hopen : w.relay.place ≠ .opening) (hret : w.relay.place ≠ .returned)
    (hplace : place = .acking ∨ ∃ rest, place = .writing rest ∧ w.relay.remoteEof = false)
    (hgiven : socket.given = w.relay.socket.given) (heof : socket.givenEof = w.relay.socket.givenEof)
    (hlane : (downLane { w with relay := { w.relay with place := place, socket := socket } }).Tidy) :
    Sound { w with relay := { w.relay with place := place, socket := socket } } := by
  obtain ⟨hs, hq⟩ := h.opening.relaying hopen
  have hplace' : place ≠ .opening ∧ place ≠ .bailed ∧ place ≠ .returned ∧ place ≠ .shutting ∧
      upHeld { w.relay with place := place, socket := socket } = none := by
    rcases hplace with rfl | ⟨rest, rfl, _⟩ <;> simp [upHeld]
  refine ⟨?_, hlane, ?_, h.forward, h.frames, .after hplace'.1 hs hq, ?_⟩
  · convert h.up using 1
    simp [upLane, hplace'.2.2.2.2, hp, hgiven, heof]
  · refine ⟨by rw [heof]; exact h.relay.localEof, hplace'.2.1, ?_, ?_, fun hh => absurd hh hplace'.2.2.2.1,
      fun hh => absurd hh hplace'.2.2.1, fun hh => absurd hh hplace'.1⟩
    · rintro m rfl
      rcases hplace with hh | ⟨rest, hh, _⟩ <;> cases hh
    · rintro rest rfl
      rcases hplace with hh | ⟨rest', _, hr⟩
      · cases hh
      · exact hr
  · intro ha
    exact absurd ha (h.not_aborted hret)

/-- The relay acknowledges. -/
theorem sound_arm_ack (h : Sound w) (hp : w.relay.place = .acking) :
    Sound { w with relay := w.relay.looped, toDaemon := w.toDaemon.put [plain .tcpForwardAck] } := by
  obtain ⟨hs, hq⟩ := h.opening.relaying (by rw [hp]; simp)
  have hdown := Lane.tidy_step h.down (.ack _ w.relay.remoteEof (by simp [downLane, downHand, hp]))
  refine ⟨?_, ?_, relayOk_looped h.relay.localEof, h.forward, ?_, .after (looped_not_opening _) hs hq, ?_⟩
  · have hheld : upHeld w.relay = none := by simp [upHeld, hp]
    convert h.up using 1
    simp [upLane, upHeld_looped, hheld]
  · convert hdown using 1
    simp [downLane, downHand_looped]
  · intro e he
    rcases List.mem_append.mp he with he | he
    · exact h.frames e he
    · exact .inl (List.mem_singleton.mp he)
  · intro ha
    exact absurd ha (h.not_aborted (by rw [hp]; simp))

theorem sound_arm (h : Sound w) (accepted : Nat) : Sound (w.step (.arm accepted)).1 := by
  cases hp : w.relay.place with
  | sending m =>
    simp only [step, Relay.step, Relay.stepArm, hp]
    exact sound_arm_send h hp
  | writing rest =>
    have hr := h.relay.writing rest hp
    have hhand : (downLane w).hand = .writing rest := by simp [downLane, downHand, hp]
    simp only [step, Relay.step, Relay.stepArm, hp]
    split
    · rename_i hdone
      have hdown := Lane.tidy_step h.down (.written _ rest hhand)
      simp only [Wire.put_nil]
      refine sound_arm_socket h (by simp [upHeld, hp]) (by simp [hp]) (by simp [hp]) (.inl rfl) rfl rfl ?_
      convert hdown using 1
      have hall : rest.take (accepted + 1) = rest := by
        have := List.take_append_drop (accepted + 1) rest
        rwa [List.isEmpty_iff.mp hdone, List.append_nil] at this
      simp [downLane, downHand, hr, hall]
    · rename_i hleft
      have hdown := Lane.tidy_step h.down (.write _ rest (accepted + 1) hhand (by simpa using hleft))
      simp only [Wire.put_nil]
      refine sound_arm_socket h (by simp [upHeld, hp]) (by simp [hp]) (by simp [hp]) (.inr ⟨_, rfl, hr⟩) rfl rfl ?_
      exact hdown
  | shutting =>
    have hdown := Lane.tidy_step h.down (.shut _ (by simp [downLane, downHand, hp]))
    simp only [step, Relay.step, Relay.stepArm, hp, Wire.put_nil]
    refine sound_arm_socket h (by simp [upHeld, hp]) (by simp [hp]) (by simp [hp]) (.inl rfl) rfl rfl ?_
    convert hdown using 1
    simp [downLane, downHand, h.relay.shutting hp]
  | acking =>
    simp only [step, Relay.step, Relay.stepArm, hp]
    exact sound_arm_ack h hp
  | _ =>
    simp only [step, Relay.step, Relay.stepArm, hp, Wire.put_nil]
    exact h

/-- `serve` hears that the forward is open. -/
theorem sound_opened (h : Sound w) (hp : w.relay.place = .opening) (hs : w.forward.stage = .relaying) {ip : String}
    {port : UInt32} {q : List ForwardReply} (hq : w.toClient.queue = forwardReply 1 (.opened ip port) :: q)
    (hrest : ∀ e ∈ q, DownFrame e) :
    Sound { w with relay := w.relay.looped, toClient := w.toClient.pop } := by
  have hheld : upHeld w.relay = none := by simp [upHeld, hp]
  have hhand : downHand w.relay = if w.relay.remoteEof then .closed else .free := by simp [downHand, hp]
  rw [Wire.pop_cons hq]
  refine ⟨?_, ?_, relayOk_looped h.relay.localEof, h.forward, h.frames, .after (looped_not_opening _) (.inl hs) hrest, ?_⟩
  · convert h.up using 1
    simp [upLane, upHeld_looped, hheld, hq]
  · convert h.down using 1
    simp [downLane, downHand_looped, hhand, hq, List.filterMap_cons, Wire.sent_cons hq]
  · intro ha
    exact absurd ha (h.not_aborted (by rw [hp]; simp))

/-- An acknowledgement arrives at the relay. -/
theorem sound_received_ack (h : Sound w) (hp : w.relay.place = .select) {q : List ForwardReply}
    (hq : w.toClient.queue = forwardReply 0 .ack :: q) :
    Sound { w with relay := { w.relay with waitingAck := false }.looped, toClient := w.toClient.pop } := by
  obtain ⟨hs, hframes⟩ := h.opening.relaying (by rw [hp]; simp)
  have hheld : upHeld w.relay = none := by simp [upHeld, hp]
  have hhand : downHand w.relay = if w.relay.remoteEof then .closed else .free := by simp [downHand, hp]
  have hnote := Lane.tidy_step h.up (.note _ (q.countP ForwardReply.isAck) (by simp [upLane, hq, List.countP_cons]))
  have hup := Lane.tidy_step hnote (.settle _ rfl)
  rw [Wire.pop_cons hq]
  rw [hq] at hframes
  refine ⟨?_, ?_, relayOk_looped h.relay.localEof, h.forward, h.frames,
    .after (looped_not_opening _) hs fun e he => hframes e (List.mem_cons_of_mem _ he), ?_⟩
  · convert hup using 1
    simp [upLane, upHeld_looped, hheld, List.countP_cons]
  · convert h.down using 1
    simp [downLane, downHand_looped, hhand, hq, List.filterMap_cons, Wire.sent_cons hq]
  · intro ha
    exact absurd ha (h.not_aborted (by rw [hp]; simp))

/-- Data or the EOF arrives at the relay. -/
theorem sound_received_payload (h : Sound w) (hp : w.relay.place = .select) {x : Option (List UInt8)}
    {q : List ForwardReply} (hq : w.toClient.queue = forwardReply 0 (daemonMessage x) :: q) :
    Sound { w with
      relay := { w.relay with remoteEof := x.isNone, place := x.elim .shutting .writing }, toClient := w.toClient.pop } := by
  obtain ⟨hs, hframes⟩ := h.opening.relaying (by rw [hp]; simp)
  have hdeliver := Lane.tidy_step h.down (.deliver _ x (q.filterMap ForwardReply.payload) (by simp [downLane, hq]))
  have hdown := Lane.tidy_step hdeliver (.take _ x rfl)
  have hplace : x.elim Place.shutting .writing ≠ .opening := by cases x <;> simp
  rw [Wire.pop_cons hq]
  rw [hq] at hframes
  refine ⟨?_, ?_, ?_, h.forward, h.frames, .after hplace hs fun e he => hframes e (List.mem_cons_of_mem _ he), ?_⟩
  · convert h.up using 1
    cases x <;> simp [upLane, upHeld, hp, hq]
  · convert hdown using 1
    cases x <;> simp [downLane, downHand, Wire.sent_cons hq]
  · refine ⟨h.relay.localEof, ?_, ?_, ?_, ?_, ?_, ?_⟩ <;> cases x <;> simp
  · intro ha
    exact absurd ha (h.not_aborted (by rw [hp]; simp))

/-- The end of the daemon's direction is not here while one of its messages is on the way. -/
theorem Sound.remoteEof (h : Sound w) (hp : w.relay.place = .select) {x : Option (List UInt8)} {q : List ForwardReply}
    (hq : w.toClient.queue = forwardReply 0 (daemonMessage x) :: q) : w.relay.remoteEof = false := by
  obtain ⟨_, hhand, _⟩ := @Lane.Tidy.of_flight _ _ h.down x (q.filterMap ForwardReply.payload) (by simp [downLane, hq])
  cases hr : w.relay.remoteEof with
  | false => rfl
  | true => simp [downLane, downHand, hp, hr] at hhand

/-- The relay takes a message of the daemon's: it is what the relay expects. -/
theorem received_payload (h : Sound w) (hp : w.relay.place = .select) {x : Option (List UInt8)} (hx : Sendable x)
    {q : List ForwardReply} (hq : w.toClient.queue = forwardReply 0 (daemonMessage x) :: q) :
    (w.relay.received (forwardReply 0 (daemonMessage x))).1 =
      { w.relay with remoteEof := x.isNone, place := x.elim .shutting .writing } := by
  have hr := h.remoteEof hp hq
  cases x with
  | none => simp [Relay.received, forwardReply, daemonMessage, hr]
  | some data =>
    obtain ⟨hne, hlen⟩ := hx data rfl
    simp [Relay.received, forwardReply, daemonMessage, hr, hne, hlen]

theorem received_ack (h : Sound w) {q : List ForwardReply} (hq : w.toClient.queue = forwardReply 0 .ack :: q) :
    (w.relay.received (forwardReply 0 .ack)).1 = { w.relay with waitingAck := false }.looped := by
  have hw : w.relay.waitingAck = true :=
    (h.up.of_acks (k := q.countP ForwardReply.isAck) (by simp [upLane, hq, List.countP_cons])).2.2.1
  simp [Relay.received, forwardReply, hw]

theorem sound_receive (h : Sound w) : Sound (w.step .receive).1 ∧ (w.step .receive).2 = false := by
  simp only [step]
  cases hq : w.toClient.queue with
  | nil => exact ⟨h, rfl⟩
  | cons e q =>
    simp only
    split
    · rename_i hplace
      rcases hplace with hp | hp
      · cases h.opening with
        | before _ _ hnil =>
          rw [hq] at hnil
          cases hnil
        | answered _ hs ip port rest hq' hrest =>
          rw [hq] at hq'
          cases hq'
          have hopened : (w.relay.step (.receive (forwardReply 1 (.opened ip port)))).1 = w.relay.looped := by
            simp [Relay.step, hp, Relay.opened, forwardReply]
          rw [hopened]
          refine ⟨sound_opened h hp hs hq hrest, ?_⟩
          simpa using (relayOk_looped h.relay.localEof).notBailed
        | after hp' => exact absurd hp hp'
      · obtain ⟨_, hframes⟩ := h.opening.relaying (by rw [hp]; simp)
        have hstep : (w.relay.step (.receive e)).1 = (w.relay.received e).1 := by simp only [Relay.step, hp]
        rw [hstep]
        rcases hframes e (by rw [hq]; exact List.mem_cons_self) with rfl | ⟨x, hx, rfl⟩
        · rw [received_ack h hq]
          refine ⟨sound_received_ack h hp hq, ?_⟩
          simpa using (relayOk_looped (r := { w.relay with waitingAck := false }) h.relay.localEof).notBailed
        · rw [received_payload h hp hx hq]
          refine ⟨sound_received_payload h hp hq, ?_⟩
          cases x <;> simp
    · exact ⟨h, rfl⟩

/-! ## Steps of the daemon's dispatch -/

theorem upHand_free {f : Forward} : upHand f = .free ↔ f.input = none ∧ f.upstream = .receiving := by
  unfold upHand
  cases f.input <;> cases f.upstream <;> simp

theorem downWaiting_iff {f : Forward} : downWaiting f = true ↔ ∃ eof, f.downstream = .awaiting eof := by
  unfold downWaiting
  cases f.downstream <;> simp

theorem Opening.frame {w' : Tunnel} (h : Opening w) (hp : w'.relay.place = w.relay.place)
    (hs : w'.forward.stage = w.forward.stage) (hq : w'.toClient.queue = w.toClient.queue) : Opening w' := by
  cases h with
  | before hp' hs' hq' => exact .before (hp ▸ hp') (hs ▸ hs') (hq ▸ hq')
  | answered hp' hs' ip port rest hq' hrest => exact .answered (hp ▸ hp') (hs ▸ hs') ip port rest (hq ▸ hq') hrest
  | after hp' hs' hq' => exact .after (hp ▸ hp') (hs ▸ hs') (hq ▸ hq')

theorem Sound.stage_of_waiting (h : Sound w) (hw : w.relay.waitingAck = true) :
    w.forward.stage = .relaying ∨ w.forward.stage = .ended := by
  refine (h.opening.relaying ?_).1
  intro hp
  rw [(h.relay.opening hp).2] at hw
  cases hw

/-- A message of the client's is due: the binding takes it. -/
theorem message_payload (h : Sound w) {x : Option (List UInt8)} (hx : Sendable x) {q : List Envelope}
    (hq : w.toDaemon.queue = plain (clientMessage x) :: q) :
    w.forward.message (plain (clientMessage x)) = ({ w.forward with inputReady := false, input := some x }, true) := by
  obtain ⟨_, hhand, hwait, _⟩ :=
    @Lane.Tidy.of_flight _ _ h.up x (q.filterMap Forward.payload) (by simp [upLane, hq])
  obtain ⟨hinput, hup⟩ := upHand_free.mp hhand
  have hstage : w.forward.stage ≠ .connecting := by
    rcases h.stage_of_waiting hwait with hs | hs <;> simp [hs]
  have hready : w.forward.inputReady = true := (h.forward.ready hstage).mpr (.inl hhand)
  have hended : w.forward.stage ≠ .ended := by
    intro hs
    rw [h.forward.ended hs] at hup
    cases hup
  have hclosed : w.forward.inputClosed = false := by
    cases hc : w.forward.inputClosed with
    | false => rfl
    | true =>
      rw [h.forward.inputClosed hc] at hup
      cases hup
  have hopen : w.forward.inputOpen = true := by simp [Forward.inputOpen, hended, hclosed, hinput]
  have hoffer : w.forward.offerInput x = ({ w.forward with inputReady := false, input := some x }, true) := by
    simp [Forward.offerInput, hready, hopen]
  cases x with
  | none => simpa [Forward.message, plain, clientMessage] using hoffer
  | some data =>
    obtain ⟨hne, hlen⟩ := hx data rfl
    simpa [Forward.message, plain, clientMessage, hne, hlen] using hoffer

theorem message_ack (h : Sound w) {q : List Envelope} (hq : w.toDaemon.queue = plain .tcpForwardAck :: q) :
    w.forward.message (plain .tcpForwardAck) = ({ w.forward with ackExpected := false, acks := true }, true) := by
  obtain ⟨_, _, hwait, _, hnoted, _⟩ :=
    h.down.of_acks (k := q.countP Envelope.isForwardAck) (by simp [downLane, hq, List.countP_cons])
  obtain ⟨eof, hd⟩ := downWaiting_iff.mp hwait
  have hacks : w.forward.acks = false := hnoted
  have hended : w.forward.stage ≠ .ended := by
    intro hs
    have := (h.aborted (.inr ⟨hs, by simp [hd]⟩)).2
    rw [hq] at this
    cases this
  have hclosed : w.forward.acksClosed = false := by
    cases hc : w.forward.acksClosed with
    | false => rfl
    | true =>
      rw [h.forward.acksClosed hc] at hd
      cases hd
  have hopen : w.forward.acksOpen = true := by simp [Forward.acksOpen, hended, hclosed, hacks]
  simp [Forward.message, plain, Forward.offerAck, h.forward.expected eof hd hacks, hopen]

theorem sound_dispatch_payload (h : Sound w) {x : Option (List UInt8)} {q : List Envelope}
    (hq : w.toDaemon.queue = plain (clientMessage x) :: q) :
    Sound { w with
      forward := { w.forward with inputReady := false, input := some x }, toDaemon := w.toDaemon.pop } := by
  have hflight : (upLane w).flight = x :: q.filterMap Forward.payload := by simp [upLane, hq]
  obtain ⟨_, hhand, hwait, _⟩ := h.up.of_flight hflight
  have hup := Lane.tidy_step h.up (.deliver _ x _ hflight)
  have hframes := h.frames
  rw [hq] at hframes
  have hnot : ¬(w.forward.aborted = true ∨ w.forward.stage = .ended ∧ w.forward.downstream ≠ .finished) := by
    intro ha
    have := (h.aborted ha).2
    rw [hq] at this
    cases this
  rw [Wire.pop_cons hq]
  refine ⟨?_, ?_, h.relay, ?_, fun e he => hframes e (List.mem_cons_of_mem _ he), h.opening.frame rfl rfl rfl,
    fun ha => absurd ha hnot⟩
  · convert hup using 1
    simp [upLane, upHand, Wire.sent_cons hq]
  · convert h.down using 1
    simp [downLane, downHeld, downWaiting, hq]
  · refine { h.forward with connecting := fun _ => rfl, ready := ?_, input := ?_, early := ?_ }
    · intro _
      simp [upHand]
    · intro _
      exact (upHand_free.mp hhand).2
    · intro hs
      rcases h.stage_of_waiting hwait with hs' | hs' <;> rcases hs with hs | hs <;> rw [hs] at hs' <;> cases hs'

theorem sound_dispatch_ack (h : Sound w) {q : List Envelope} (hq : w.toDaemon.queue = plain .tcpForwardAck :: q) :
    Sound { w with forward := { w.forward with ackExpected := false, acks := true }, toDaemon := w.toDaemon.pop } := by
  have hacks : (downLane w).acks = q.countP Envelope.isForwardAck + 1 := by simp [downLane, hq, List.countP_cons]
  obtain ⟨_, _, hwait, _, hnoted, _⟩ := h.down.of_acks hacks
  have hdown := Lane.tidy_step h.down (.note _ _ hacks)
  have hframes := h.frames
  rw [hq] at hframes
  have hnot : ¬(w.forward.aborted = true ∨ w.forward.stage = .ended ∧ w.forward.downstream ≠ .finished) := by
    intro ha
    have := (h.aborted ha).2
    rw [hq] at this
    cases this
  rw [Wire.pop_cons hq]
  refine ⟨?_, ?_, h.relay, ?_, fun e he => hframes e (List.mem_cons_of_mem _ he), h.opening.frame rfl rfl rfl,
    fun ha => absurd ha hnot⟩
  · convert h.up using 1
    simp [upLane, upHand, hq, List.filterMap_cons, Wire.sent_cons hq]
  · convert hdown using 1
    simp [downLane, downHeld, downWaiting, List.countP_cons]
  · refine { h.forward with expected := nofun, acks := ?_, sending := ?_ }
    · intro _
      exact downWaiting_iff.mp hwait
    · intro m hm
      obtain ⟨eof, hd⟩ := downWaiting_iff.mp hwait
      rw [show w.forward.downstream = .sending m from hm] at hd
      cases hd

theorem sound_dispatch (h : Sound w) : Sound (w.step .dispatch).1 ∧ (w.step .dispatch).2 = false := by
  simp only [step]
  cases hq : w.toDaemon.queue with
  | nil => exact ⟨h, rfl⟩
  | cons e q =>
    rcases h.frames e (by rw [hq]; exact List.mem_cons_self) with rfl | ⟨x, hx, rfl⟩
    · simp only [Forward.dispatch, message_ack h hq, if_true, Wire.put_nil, Bool.not_true, and_true]
      exact sound_dispatch_ack h hq
    · simp only [Forward.dispatch, message_payload h hx hq, if_true, Wire.put_nil, Bool.not_true, and_true]
      exact sound_dispatch_payload h hq

/-! ## Steps of the daemon's task -/

/-- Replies of the task behind what is on its way. -/
theorem Opening.put {w' : Tunnel} (h : Opening w) (hs : w.forward.stage = .relaying)
    (hs' : w'.forward.stage = .relaying ∨ w'.forward.stage = .ended ∧ w.relay.place ≠ .opening)
    (hp : w'.relay.place = w.relay.place) {l : List ForwardReply} (hq : w'.toClient.queue = w.toClient.queue ++ l)
    (hl : ∀ e ∈ l, DownFrame e) : Opening w' := by
  have happend : ∀ q : List ForwardReply, (∀ e ∈ q, DownFrame e) → ∀ e ∈ q ++ l, DownFrame e := by
    intro q hq e he
    rcases List.mem_append.mp he with he | he
    · exact hq e he
    · exact hl e he
  cases h with
  | before _ hs'' => rcases hs'' with hs'' | hs'' <;> rw [hs] at hs'' <;> cases hs''
  | answered hp' _ ip port rest hq' hrest =>
    rcases hs' with hs' | ⟨_, hne⟩
    · exact .answered (hp ▸ hp') hs' ip port (rest ++ l) (by rw [hq, hq']; rfl) (happend rest hrest)
    · exact absurd hp' hne
  | after hp' _ hq' => exact .after (hp ▸ hp') (hs'.imp_right And.left) (by rw [hq]; exact happend _ hq')

theorem sound_connect (h : Sound w) : Sound (w.step (.task .connect)).1 := by
  simp only [step, Forward.step]
  split
  · rename_i hs
    obtain ⟨hinput, hup, hdown⟩ := h.forward.early (.inl hs)
    rw [Wire.put_nil]
    refine ⟨h.up, h.down, h.relay, ?_, h.frames, ?_, ?_⟩
    · refine { h.forward with connecting := by simp, ready := ?_, early := fun _ => ⟨hinput, hup, hdown⟩, ended := by simp }
      intro _
      simp [upHand, hinput, hup]
    · cases h.opening with
      | before hp _ hq => exact .before hp (.inr rfl) hq
      | answered _ hs' => rw [hs] at hs'; cases hs'
      | after _ hs' => rcases hs' with hs' | hs' <;> rw [hs] at hs' <;> cases hs'
    · rintro (ha | ⟨ha, _⟩)
      · exact h.aborted (.inl ha)
      · cases ha
  · rw [Wire.put_nil]
    exact h

theorem sound_open (h : Sound w) : Sound (w.step (.task .open)).1 := by
  simp only [step, Forward.step]
  split
  · rename_i hs
    refine ⟨?_, ?_, h.relay, ?_, h.frames, ?_, ?_⟩
    · convert h.up using 1
      simp [upLane, upHand]
    · convert h.down using 1
      simp [downLane, downHeld, downWaiting]
    · refine { h.forward with connecting := by simp, ready := ?_, early := ?_, ended := by simp }
      · intro _
        exact h.forward.ready (by simp [hs])
      · rintro (hs | hs) <;> cases hs
    · cases h.opening with
      | before hp _ hq =>
        refine .answered hp rfl w.forward.boundIp w.forward.boundPort [] ?_ (by simp)
        simp [hq, h.forward.request]
      | answered _ hs' => rw [hs] at hs'; cases hs'
      | after _ hs' => rcases hs' with hs' | hs' <;> rw [hs] at hs' <;> cases hs'
    · rintro (ha | ⟨ha, _⟩)
      · exact h.aborted (.inl ha)
      · cases ha
  · rw [Wire.put_nil]
    exact h

/-- The half of the task that serves the client's direction moves; nothing waits in its
    queue afterwards. -/
theorem sound_up_move (h : Sound w) (hs : w.forward.stage = .relaying) {input : Option (Option (List UInt8))}
    {ready closed : Bool} {upstream : Upstream} {socket : TcpSocket} {l : List ForwardReply}
    (hl : l = [] ∨ l = [forwardReply 0 .ack])
    (hinput : input = none) (hgiven : socket.given = w.forward.socket.given)
    (heof : socket.givenEof = w.forward.socket.givenEof)
    (hready : ready = true ↔ upstream = .receiving ∨ upstream = .acking false)
    (hclosed : closed = true → upstream = .finished)
    (hup : (upLane { w with
      forward := { w.forward with
        input := input, inputReady := ready, inputClosed := closed, upstream := upstream, socket := socket }
      toClient := w.toClient.put l }).Tidy) :
    Sound { w with
      forward := { w.forward with
        input := input, inputReady := ready, inputClosed := closed, upstream := upstream, socket := socket }
      toClient := w.toClient.put l } := by
  subst hinput
  have hframe : ∀ e ∈ l, DownFrame e := by
    intro e he
    rcases hl with rfl | rfl
    · cases he
    · exact .inl (List.mem_singleton.mp he)
  refine ⟨hup, ?_, h.relay, ?_, h.frames, h.opening.put hs (.inl hs) rfl rfl hframe, h.aborted⟩
  · convert h.down using 1
    rcases hl with rfl | rfl <;> simp [downLane, downHeld, downWaiting, hgiven, heof]
  · refine { h.forward with
      connecting := ?_, ready := ?_, input := nofun, inputClosed := hclosed, reading := ?_, awaiting := ?_
      finished := ?_, early := ?_, ended := ?_ }
    · intro hc
      rw [show w.forward.stage = .connecting from hc] at hs
      cases hs
    · intro _
      rw [hready]
      cases upstream <;> simp [upHand]
    · rw [heof]
      exact h.forward.reading
    · rw [heof]
      exact h.forward.awaiting
    · rw [heof]
      exact h.forward.finished
    · rintro (hc | hc) <;> rw [show w.forward.stage = _ from hc] at hs <;> cases hs
    · intro hc
      rw [show w.forward.stage = .ended from hc] at hs
      cases hs

/-- The end of the client's direction is through. -/
theorem Sound.localEof (h : Sound w) (hu : w.forward.upstream = .finished) : w.relay.localEof = true := by
  have hinput : w.forward.input = none := by
    cases hi : w.forward.input with
    | none => rfl
    | some x =>
      rw [h.forward.input (by rw [hi]; rfl)] at hu
      cases hu
  rw [h.relay.localEof]
  exact h.up.hand_ended.2.2.2.2 (by simp [upLane, upHand, hinput, hu])

theorem sound_joined (h : Sound w) : Sound { w with forward := w.forward.joined } := by
  unfold Forward.joined
  split
  · rename_i hdone
    obtain ⟨hu, hd⟩ := hdone
    have hlocal := h.localEof hu
    have hplace : w.relay.place ≠ .opening := by
      intro hp
      rw [(h.relay.opening hp).1] at hlocal
      cases hlocal
    obtain ⟨hs, hq⟩ := h.opening.relaying hplace
    refine ⟨h.up, h.down, h.relay, ?_, h.frames, .after hplace (.inr rfl) hq, ?_⟩
    · refine { h.forward with connecting := nofun, ready := ?_, early := ?_, ended := fun _ => hu }
      · intro _
        refine h.forward.ready ?_
        rcases hs with hs | hs <;> simp [hs]
      · rintro (hc | hc) <;> cases hc
    · rintro (ha | ⟨_, ha⟩)
      · exact h.aborted (.inl ha)
      · exact absurd hd ha
  · exact h

theorem ForwardOk.input_none {f : Forward} (h : ForwardOk f) (hu : f.upstream ≠ .receiving) : f.input = none := by
  cases hi : f.input with
  | none => rfl
  | some x => exact absurd (h.input (by rw [hi]; rfl)) hu

theorem ForwardOk.not_ready {f : Forward} (h : ForwardOk f) (hs : f.stage = .relaying) (hf : upHand f ≠ .free)
    (ha : upHand f ≠ .acking false) : f.inputReady = false := by
  cases hr : f.inputReady with
  | false => rfl
  | true =>
    rcases (h.ready (by simp [hs])).mp hr with hh | hh
    · exact absurd hh hf
    · exact absurd hh ha

theorem ForwardOk.not_closed {f : Forward} (h : ForwardOk f) (hu : f.upstream ≠ .finished) : ¬f.inputClosed = true :=
  fun hc => hu (h.inputClosed hc)

theorem sound_upstream (h : Sound w) (hs : w.forward.stage = .relaying) (accepted : Nat) :
    Sound { w with
      forward := (w.forward.stepUpstream accepted).1, toClient := w.toClient.put (w.forward.stepUpstream accepted).2 } ∧
    (w.forward.stepUpstream accepted).2.any ForwardReply.isError = false := by
  have hlive : w.forward.stage ≠ .connecting := by simp [hs]
  cases hu : w.forward.upstream with
  | receiving =>
    cases hi : w.forward.input with
    | none =>
      simp only [Forward.stepUpstream, hu, hi, Wire.put_nil]
      exact ⟨h, rfl⟩
    | some x =>
      have hhand : (upLane w).hand = .queued x := by simp [upLane, upHand, hi]
      have hhand' : upHand w.forward = _ := hhand
      have hready := h.forward.not_ready hs (by simp [hhand']) (by simp [hhand'])
      have hclosed := h.forward.not_closed (by simp [hu])
      have hlane := Lane.tidy_step h.up (.take _ x hhand)
      have hmove := @sound_up_move w h hs none w.forward.inputReady w.forward.inputClosed (x.elim .shutting .writing)
        w.forward.socket [] (.inl rfl) rfl rfl rfl
        (by cases x <;> simp [hready]) (by simp [hclosed])
        (by
          convert hlane using 1
          cases x <;> simp [upLane, upHand])
      cases x with
      | none =>
        simp only [Forward.stepUpstream, hu, hi]
        exact ⟨hmove, rfl⟩
      | some data =>
        simp only [Forward.stepUpstream, hu, hi]
        exact ⟨hmove, rfl⟩
  | writing rest =>
    have hi := h.forward.input_none (by simp [hu])
    have hhand : (upLane w).hand = .writing rest := by simp [upLane, upHand, hi, hu]
    simp only [Forward.stepUpstream, hu]
    split
    · rename_i hdone
      have hlane := Lane.tidy_step h.up (.written _ rest hhand)
      have hall : rest.take (accepted + 1) = rest := by
        have := List.take_append_drop (accepted + 1) rest
        rwa [List.isEmpty_iff.mp hdone, List.append_nil] at this
      refine ⟨sound_up_move h hs (l := []) (.inl rfl) hi rfl rfl (by simp)
        (fun hc => absurd hc (h.forward.not_closed (by simp [hu]))) ?_, rfl⟩
      convert hlane using 1
      simp [upLane, upHand, hi, hall]
    · rename_i hleft
      have hlane := Lane.tidy_step h.up (.write _ rest (accepted + 1) hhand (by simpa using hleft))
      have hhand' : upHand w.forward = _ := hhand
      have hready := h.forward.not_ready hs (by simp [hhand']) (by simp [hhand'])
      refine ⟨sound_up_move h hs (l := []) (.inl rfl) hi rfl rfl (by simp [hready])
        (fun hc => absurd hc (h.forward.not_closed (by simp [hu]))) ?_, rfl⟩
      convert hlane using 1
      simp [upLane, upHand, hi]
  | shutting =>
    have hi := h.forward.input_none (by simp [hu])
    have hhand : (upLane w).hand = .shutting := by simp [upLane, upHand, hi, hu]
    have hlane := Lane.tidy_step h.up (.shut _ hhand)
    have hhand' : upHand w.forward = _ := hhand
    have hready := h.forward.not_ready hs (by simp [hhand']) (by simp [hhand'])
    simp only [Forward.stepUpstream, hu]
    refine ⟨sound_up_move h hs (l := []) (.inl rfl) hi rfl rfl (by simp [hready])
      (fun hc => absurd hc (h.forward.not_closed (by simp [hu]))) ?_, rfl⟩
    convert hlane using 1
    simp [upLane, upHand, hi]
  | acking eof =>
    have hi := h.forward.input_none (by simp [hu])
    have hhand : (upLane w).hand = .acking eof := by simp [upLane, upHand, hi, hu]
    have hlane := Lane.tidy_step h.up (.ack _ eof hhand)
    have hready := h.forward.ready hlive
    rw [show upHand w.forward = _ from hhand] at hready
    cases eof with
    | false =>
      simp only [Forward.stepUpstream, hu]
      refine ⟨sound_up_move h hs (.inr rfl) hi rfl rfl (by simpa using hready)
        (fun hc => absurd hc (h.forward.not_closed (by simp [hu]))) ?_, rfl⟩
      convert hlane using 1
      simp [upLane, upHand, hi]
    | true =>
      have hmove := @sound_up_move w h hs w.forward.input w.forward.inputReady true .finished w.forward.socket _
        (.inr rfl) hi rfl rfl (by simpa using hready) (fun _ => rfl)
        (by
          convert hlane using 1
          simp [upLane, upHand, hi])
      simp only [Forward.stepUpstream, hu, hi, Option.isSome_none, Bool.false_eq_true, if_false]
      rw [hi] at hmove
      exact ⟨sound_joined hmove, rfl⟩
  | finished =>
    simp only [Forward.stepUpstream, hu, Wire.put_nil]
    exact ⟨h, rfl⟩

/-- The half that serves the daemon's direction moves. -/
theorem sound_down_move (h : Sound w) (hs : w.forward.stage = .relaying) {expected acks closed : Bool}
    {downstream : Downstream} {socket : TcpSocket} {l : List ForwardReply} (hl : ∀ e ∈ l, DownFrame e)
    (hack : l.countP ForwardReply.isAck = 0) (hwritten : socket.written = w.forward.socket.written)
    (hshut : socket.shut = w.forward.socket.shut)
    (hexpected : ∀ eof, downstream = .awaiting eof → acks = false → expected = true)
    (hacks : acks = true → ∃ eof, downstream = .awaiting eof) (hclosed : closed = true → downstream = .finished)
    (hsending : ∀ m, downstream = .sending m → expected = true ∧ ∃ x, Sendable x ∧ m = daemonMessage x)
    (hreading : downstream = .reading → socket.givenEof = false)
    (hawaiting : ∀ eof, downstream = .awaiting eof → eof = socket.givenEof)
    (hfinished : downstream = .finished → socket.givenEof = true)
    (hdown : (downLane { w with
      forward := { w.forward with
        ackExpected := expected, acks := acks, acksClosed := closed, downstream := downstream, socket := socket }
      toClient := w.toClient.put l }).Tidy) :
    Sound { w with
      forward := { w.forward with
        ackExpected := expected, acks := acks, acksClosed := closed, downstream := downstream, socket := socket }
      toClient := w.toClient.put l } := by
  refine ⟨?_, hdown, h.relay, ?_, h.frames, h.opening.put hs (.inl hs) rfl rfl hl, ?_⟩
  · convert h.up using 1
    simp [upLane, upHand, hwritten, hshut, hack]
  · refine ⟨h.forward.request, h.forward.connecting, h.forward.ready, h.forward.input, h.forward.inputClosed, hexpected,
      hacks, hclosed, hsending, hreading, hawaiting, hfinished, ?_, h.forward.ended⟩
    rintro (hc | hc) <;> rw [show w.forward.stage = _ from hc] at hs <;> cases hs
  · rintro (ha | ⟨ha, _⟩)
    · exact h.aborted (.inl ha)
    · rw [show w.forward.stage = _ from ha] at hs
      cases hs

theorem sound_task_read (h : Sound w) (bytes : List UInt8) : Sound (w.step (.task (.read bytes))).1 := by
  simp only [step, Forward.step]
  split
  · rename_i hs
    unfold Forward.stepRead
    split
    · rename_i hd
      have hgiven := h.forward.reading hd
      have hacks : w.forward.acks = false := by
        cases ha : w.forward.acks with
        | false => rfl
        | true =>
          obtain ⟨eof, hd'⟩ := h.forward.acks ha
          rw [hd] at hd'
          cases hd'
      have hlane := Lane.tidy_step h.down (.read _ (ofBytes (bytes.take forwardDataBytesMax)) (by simp [downLane, downHeld, hd])
        (by simp [downLane, downWaiting, hd]) hgiven)
      refine sound_down_move h hs (l := []) (by simp) rfl rfl rfl (by simp) (by simp [hacks]) ?_ ?_ (by simp) (by simp)
        (by simp) ?_
      · intro hc
        rw [h.forward.acksClosed hc] at hd
        cases hd
      · rintro m hm
        cases hm
        exact ⟨rfl, _, sendable_ofBytes bytes, ofRead_daemon _⟩
      · convert hlane using 1
        simp [downLane, downHeld, downWaiting, TcpSocket.read, ofRead_daemon, isNone_ofBytes, bytes_ofBytes, hgiven, hd]
    · rw [Wire.put_nil]
      exact h
  · rw [Wire.put_nil]
    exact h

theorem sound_downstream (h : Sound w) (hs : w.forward.stage = .relaying) :
    Sound { w with forward := w.forward.stepDownstream.1, toClient := w.toClient.put w.forward.stepDownstream.2 } ∧
    w.forward.stepDownstream.2.any ForwardReply.isError = false := by
  cases hd : w.forward.downstream with
  | reading =>
    have hacks : w.forward.acks = false := by
      cases ha : w.forward.acks with
      | false => rfl
      | true =>
        obtain ⟨eof, hd'⟩ := h.forward.acks ha
        rw [hd] at hd'
        cases hd'
    simp only [Forward.stepDownstream, hd, hacks, Bool.false_eq_true, if_false, Wire.put_nil]
    exact ⟨h, rfl⟩
  | sending m =>
    obtain ⟨hexp, x, hx, rfl⟩ := h.forward.sending m hd
    have hheld : (downLane w).held = some x := by simp [downLane, downHeld, hd]
    obtain ⟨_, _, _, _, hnoted, hended⟩ := h.down.of_held hheld
    have hacks : w.forward.acks = false := hnoted
    have hlane := Lane.tidy_step h.down (.send _ x hheld)
    have heof : (daemonMessage x == ForwardMessage.eof) = x.isNone := by cases x <;> rfl
    simp only [Forward.stepDownstream, hd, heof]
    refine ⟨?_, by cases x <;> rfl⟩
    refine sound_down_move h hs ?_ (by simp) rfl rfl (fun _ _ _ => hexp) (by simp [hacks]) ?_ nofun nofun ?_ nofun ?_
    · intro e he
      exact .inr ⟨x, hx, List.mem_singleton.mp he⟩
    · intro hc
      rw [h.forward.acksClosed hc] at hd
      cases hd
    · intro eof he
      cases he
      exact hended.symm
    · convert hlane using 1
      simp [downLane, downHeld, downWaiting]
  | awaiting eof =>
    have heof := h.forward.awaiting eof hd
    cases hacks : w.forward.acks with
    | false =>
      simp only [Forward.stepDownstream, hd, hacks, Bool.false_eq_true, if_false, Wire.put_nil]
      exact ⟨h, rfl⟩
    | true =>
      have hlane := Lane.tidy_step h.down (.settle _ hacks)
      cases eof with
      | false =>
        simp only [Forward.stepDownstream, hd, hacks, if_true, Bool.false_eq_true, if_false]
        refine ⟨sound_down_move h hs (l := []) nofun rfl rfl rfl nofun nofun ?_ nofun (fun _ => heof.symm) nofun nofun ?_,
          rfl⟩
        · intro hc
          rw [h.forward.acksClosed hc] at hd
          cases hd
        · convert hlane using 1
          simp [downLane, downHeld, downWaiting, hd]
      | true =>
        have hmove := @sound_down_move w h hs w.forward.ackExpected false true .finished w.forward.socket
          [] nofun rfl rfl rfl nofun nofun (fun _ => rfl)
          nofun nofun nofun (fun _ => heof.symm)
          (by
            convert hlane using 1
            simp [downLane, downHeld, downWaiting, hd])
        simp only [Forward.stepDownstream, hd, hacks, if_true]
        exact ⟨sound_joined hmove, rfl⟩
  | finished =>
    simp only [Forward.stepDownstream, hd, Wire.put_nil]
    exact ⟨h, rfl⟩

theorem sound_close (h : Sound w) : Sound (w.step .close).1 := by
  simp only [step]
  split
  · rename_i hc
    obtain ⟨hp, hq⟩ := hc
    have hreturned : w.relay.place = .returned := by
      rcases hp with hp | hp
      · exact hp
      · exact absurd hp h.relay.notBailed
    refine ⟨h.up, h.down, h.relay, ?_, h.frames, h.opening.frame rfl rfl rfl, fun _ => ⟨hreturned, hq⟩⟩
    exact { h.forward with }
  · exact h

/-- A task that is dropped has served the client's direction. -/
theorem sound_cancel (h : Sound w) : Sound (w.step (.task .cancel)).1 := by
  simp only [step, Forward.step]
  split
  · rename_i ha
    obtain ⟨hp, hq⟩ := h.aborted (.inl ha)
    obtain ⟨hlocal, _, hwait⟩ := h.relay.returned hp
    obtain ⟨hs, hframes⟩ := h.opening.relaying (by rw [hp]; simp)
    obtain ⟨_, _, _, hhand⟩ := h.up.of_idle hwait (by simp [upLane, upHeld, hp])
    have hended : (upLane w).ended = true := by rw [← hlocal, h.relay.localEof]; rfl
    rw [Lane.rest, hended] at hhand
    have hu : w.forward.upstream = .finished := by
      simp only [upLane, upHand] at hhand
      cases hi : w.forward.input with
      | some x => simp [hi] at hhand
      | none => cases hu : w.forward.upstream <;> simp [hi, hu] at hhand ⊢
    rw [Wire.put_nil]
    refine ⟨h.up, h.down, h.relay, ?_, h.frames, .after (by rw [hp]; simp) (.inr rfl) hframes, fun _ => ⟨hp, hq⟩⟩
    refine { h.forward with connecting := by simp, ready := ?_, early := ?_, ended := fun _ => hu }
    · intro _
      refine h.forward.ready ?_
      rcases hs with hs | hs <;> simp [hs]
    · rintro (hc | hc) <;> cases hc
  · rw [Wire.put_nil]
    exact h

/-! ## Over runs -/

theorem sound_new (ip : String) (port : UInt32) : Sound (new ip port) := by
  refine ⟨Lane.tidy_start, Lane.tidy_start, ?_, ?_, nofun, .before rfl (.inl rfl) rfl, ?_⟩
  · exact ⟨rfl, nofun, nofun, nofun, nofun, nofun, fun _ => ⟨rfl, rfl⟩⟩
  · refine ⟨rfl, fun _ => rfl, fun hs => absurd rfl hs, nofun, nofun, nofun, nofun, nofun, nofun, fun _ => rfl, nofun, nofun,
      fun _ => ⟨rfl, rfl, rfl⟩, nofun⟩
  · rintro (ha | ⟨ha, _⟩) <;> cases ha

theorem inv_step (h : Sound w) {i : TunnelInput} (hi : i.fails = false) :
    Sound (w.step i).1 ∧ (w.step i).2 = false := by
  cases i with
  | read bytes => exact ⟨sound_read h bytes, rfl⟩
  | arm accepted => exact ⟨sound_arm h accepted, rfl⟩
  | receive => exact sound_receive h
  | dispatch => exact sound_dispatch h
  | close =>
    refine ⟨sound_close h, ?_⟩
    simp only [step]
    split <;> rfl
  | fail => cases hi
  | task i =>
    cases i with
    | connect =>
      refine ⟨sound_connect h, ?_⟩
      simp only [step, Forward.step]
      split <;> rfl
    | «open» =>
      refine ⟨sound_open h, ?_⟩
      simp only [step, Forward.step]
      split <;> rfl
    | upstream accepted =>
      simp only [step, Forward.step]
      split
      · rename_i hs
        exact sound_upstream h hs accepted
      · rw [Wire.put_nil]
        exact ⟨h, rfl⟩
    | read bytes =>
      refine ⟨sound_task_read h bytes, ?_⟩
      simp only [step, Forward.step]
      split <;> rfl
    | downstream =>
      simp only [step, Forward.step]
      split
      · rename_i hs
        exact sound_downstream h hs
      · rw [Wire.put_nil]
        exact ⟨h, rfl⟩
    | fail => cases hi
    | cancel =>
      refine ⟨sound_cancel h, ?_⟩
      simp only [step, Forward.step]
      split <;> rfl

/-! ## Everything read arrives -/

-- Every internal step lowers the work left, so that the two ends come to rest. A message
-- weighs more the earlier it is on its way, and a byte counts until it is written.

def placeWork : Place → Nat
  | .opening => 1
  | .sending (.tcpForwardData data) => 2 * data.length + 20
  | .sending _ => 20
  | .writing rest => 2 * rest.length + 10
  | .shutting => 10
  | .acking => 6
  | _ => 0

def envelopeWork (e : Envelope) : Nat :=
  match e.message with
  | some (.tcpForwardData data) => 2 * data.length + 18
  | some .tcpForwardEof => 18
  | _ => 4

def replyWork (e : ForwardReply) : Nat :=
  match e.message with
  | some (.data data) => 2 * data.length + 18
  | some .eof => 18
  | some .ack => 4
  | _ => 1

def stageWork : Stage → Nat
  | .connecting => 3
  | .opening => 2
  | _ => 0

def upstreamWork : Upstream → Nat
  | .writing rest => 2 * rest.length + 14
  | .shutting => 14
  | .acking _ => 10
  | _ => 0

def downstreamWork : Downstream → Nat
  | .sending m => replyWork (forwardReply 0 m) + 2
  | _ => 0

def inputWork : Option (Option (List UInt8)) → Nat
  | some (some data) => 2 * data.length + 16
  | some none => 16
  | none => 0

def forwardWork (f : Forward) : Nat :=
  if f.stage = .ended then 0
  else stageWork f.stage + inputWork f.input + upstreamWork f.upstream + downstreamWork f.downstream + 2 * f.acks.toNat

def work (w : Tunnel) : Nat :=
  placeWork w.relay.place + (w.toDaemon.queue.map envelopeWork).sum + forwardWork w.forward +
    (w.toClient.queue.map replyWork).sum

theorem placeWork_looped (r : Relay) : placeWork r.looped.place = 0 := by
  rcases looped_place r with hp | ⟨hp, _⟩ <;> rw [hp] <;> rfl

theorem replyWork_pos (e : ForwardReply) : 0 < replyWork e := by
  unfold replyWork
  split <;> omega

theorem envelopeWork_pos (e : Envelope) : 4 ≤ envelopeWork e := by
  unfold envelopeWork
  split <;> omega

theorem arm_work (r : Relay) (accepted : Nat) :
    r.stepArm accepted = (r, []) ∨
      placeWork (r.stepArm accepted).1.place + ((r.stepArm accepted).2.map envelopeWork).sum < placeWork r.place := by
  unfold Relay.stepArm
  cases hp : r.place with
  | sending m =>
    refine .inr ?_
    simp only [placeWork_looped, List.map_cons, List.map_nil, List.sum_cons, List.sum_nil]
    cases m <;> simp [placeWork, envelopeWork, plain]
  | writing rest =>
    refine .inr ?_
    have hlen := List.length_drop (l := rest) (i := accepted + 1)
    simp only
    split
    · simp only [placeWork, List.map_nil, List.sum_nil]
      omega
    · rename_i hleft
      have hne : rest.drop (accepted + 1) ≠ [] := by simpa using hleft
      have hpos := List.length_pos_of_ne_nil hne
      simp only [placeWork, List.map_nil, List.sum_nil]
      omega
  | shutting => exact .inr (by simp [placeWork])
  | acking =>
    refine .inr ?_
    simp only [placeWork_looped]
    simp [placeWork, envelopeWork, plain]
  | _ => exact .inl rfl

theorem receive_work (r : Relay) (e : ForwardReply) (hp : r.place = .opening ∨ r.place = .select) :
    placeWork (r.step (.receive e)).1.place < placeWork r.place + replyWork e := by
  have hpos := replyWork_pos e
  have hbail : placeWork r.bail.place = 0 := rfl
  rcases hp with hp | hp
  · have hopened : placeWork (r.opened e).place = 0 := by
      unfold Relay.opened
      split
      · split
        · exact placeWork_looped _
        · rfl
      · rfl
    simp only [Relay.step, hp, hopened]
    omega
  · simp only [Relay.step, hp]
    unfold Relay.received
    split
    · simp only [hbail]
      omega
    · cases hm : e.message with
      | none =>
        simp only [hbail]
        omega
      | some m =>
        cases m with
        | ack =>
          simp only
          split
          · simp only [placeWork_looped]
            omega
          · simp only [hbail]
            omega
        | data data =>
          have hwork : replyWork e = 2 * data.length + 18 := by simp [replyWork, hm]
          simp only
          split
          · simp only [placeWork, hwork]
            omega
          · simp only [hbail]
            omega
        | eof =>
          have hwork : replyWork e = 18 := by simp [replyWork, hm]
          simp only
          split
          · simp only [placeWork, hwork]
            omega
          · simp only [hbail]
            omega
        | _ =>
          simp only [hbail]
          omega

theorem inputWork_lt {e : Envelope} {x : Option (List UInt8)} (hx : Forward.payload e = some x) :
    inputWork (some x) < envelopeWork e := by
  unfold Forward.payload at hx
  cases hm : e.message with
  | none => simp [hm] at hx
  | some m =>
    cases m with
    | tcpForwardData data =>
      simp only [hm] at hx
      cases hx
      simp [inputWork, envelopeWork, hm]
    | tcpForwardEof =>
      simp only [hm] at hx
      cases hx
      simp [inputWork, envelopeWork, hm]
    | _ => simp [hm] at hx

theorem dispatch_work (f : Forward) (e : Envelope) :
    forwardWork (f.dispatch e).1 + ((f.dispatch e).2.replies.map replyWork).sum < forwardWork f + envelopeWork e := by
  have hpos := envelopeWork_pos e
  have ha := Forward.message_answered f e
  unfold Forward.dispatch
  generalize f.message e = r at ha
  cases ha with
  | refused ready expected hr =>
    have hsame : forwardWork { f with inputReady := ready, ackExpected := expected, aborted := true } = forwardWork f := rfl
    simp only [Bool.false_eq_true, if_false, Forward.abort, hsame, List.map_cons, List.map_nil, List.sum_cons, List.sum_nil,
      replyWork, forwardReply]
    omega
  | input x hx hr ho =>
    have hlt := inputWork_lt hx
    simp only [Forward.inputOpen, Bool.and_eq_true, bne_iff_ne, Option.isNone_iff_eq_none] at ho
    simp only [if_true, List.map_nil, List.sum_nil, forwardWork, if_neg ho.1.1, ho.2]
    simp only [inputWork] at hlt ⊢
    omega
  | ack hx he ho =>
    simp only [Forward.acksOpen, Bool.and_eq_true, bne_iff_ne, Bool.not_eq_true'] at ho
    simp only [if_true, List.map_nil, List.sum_nil, forwardWork, if_neg ho.1.1, ho.2, Bool.toNat_true, Bool.toNat_false]
    omega

theorem forwardWork_joined (f : Forward) : forwardWork f.joined ≤ forwardWork f := by
  unfold Forward.joined
  split
  · exact Nat.zero_le _
  · exact Nat.le_refl _

theorem upstream_work {f : Forward} (hs : f.stage = .relaying) (accepted : Nat) :
    f.stepUpstream accepted = (f, []) ∨
      forwardWork (f.stepUpstream accepted).1 + ((f.stepUpstream accepted).2.map replyWork).sum < forwardWork f := by
  unfold Forward.stepUpstream
  cases hu : f.upstream with
  | receiving =>
    cases hi : f.input with
    | none => exact .inl rfl
    | some x =>
      refine .inr ?_
      cases x <;> simp [forwardWork, hs, hi, hu, inputWork, upstreamWork]
  | writing rest =>
    refine .inr ?_
    have hlen := List.length_drop (l := rest) (i := accepted + 1)
    simp only
    split
    · simp [forwardWork, hs, hu, upstreamWork]
    · rename_i hleft
      have hne : rest.drop (accepted + 1) ≠ [] := by simpa using hleft
      have hpos := List.length_pos_of_ne_nil hne
      simp only [forwardWork, hs, hu, upstreamWork, List.map_nil, List.sum_nil, reduceCtorEq, if_false]
      omega
  | shutting => exact .inr (by simp [forwardWork, hs, hu, upstreamWork])
  | acking eof =>
    refine .inr ?_
    cases eof with
    | false =>
      simp [forwardWork, hs, hu, upstreamWork, replyWork, forwardReply]
      omega
    | true =>
      simp only
      split
      · simp [Forward.failed, forwardWork, hs, hu, upstreamWork, replyWork, forwardReply]
        omega
      · have hle := forwardWork_joined { f with inputClosed := true, upstream := .finished }
        have hlt : forwardWork { f with inputClosed := true, upstream := .finished } + 4 < forwardWork f := by
          simp [forwardWork, hs, hu, upstreamWork]
          omega
        simp only [List.map_cons, List.map_nil, List.sum_cons, List.sum_nil, replyWork, forwardReply]
        omega
  | finished => exact .inl rfl

theorem downstream_work {f : Forward} (hs : f.stage = .relaying) :
    f.stepDownstream = (f, []) ∨
      forwardWork f.stepDownstream.1 + (f.stepDownstream.2.map replyWork).sum < forwardWork f := by
  unfold Forward.stepDownstream
  cases hd : f.downstream with
  | reading =>
    cases ha : f.acks with
    | false => exact .inl rfl
    | true => exact .inr (by simp [Forward.failed, forwardWork, hs, ha, replyWork, forwardReply])
  | sending m => exact .inr (by simp [forwardWork, hs, hd, downstreamWork]; omega)
  | awaiting eof =>
    cases ha : f.acks with
    | false => exact .inl rfl
    | true =>
      refine .inr ?_
      cases eof with
      | false => simp [forwardWork, hs, hd, ha, downstreamWork]
      | true =>
        have hle := forwardWork_joined { f with acks := false, acksClosed := true, downstream := .finished }
        have hlt : forwardWork { f with acks := false, acksClosed := true, downstream := .finished } < forwardWork f := by
          simp [forwardWork, hs, hd, ha, downstreamWork]
        simp only [if_true, List.map_nil, List.sum_nil]
        omega
  | finished => exact .inl rfl

/-- The two ends come to rest. -/
theorem internal_work (w : Tunnel) {i : TunnelInput} (hi : i.internal = true) :
    (w.step i).1 = w ∨ work (w.step i).1 < work w := by
  have htask : ∀ r : Forward × List ForwardReply,
      r = (w.forward, []) ∨ forwardWork r.1 + (r.2.map replyWork).sum < forwardWork w.forward →
        ({ w with forward := r.1, toClient := w.toClient.put r.2 } : Tunnel) = w ∨
          work { w with forward := r.1, toClient := w.toClient.put r.2 } < work w := by
    rintro r (rfl | hlt)
    · exact .inl (by rw [Wire.put_nil])
    · refine .inr ?_
      simp only [work, Wire.queue_put, List.map_append, List.sum_append]
      omega
  cases i with
  | arm accepted =>
    simp only [step, Relay.step]
    rcases arm_work w.relay accepted with hsame | hlt
    · refine .inl ?_
      rw [hsame, Wire.put_nil]
    · refine .inr ?_
      simp only [work, Wire.queue_put, List.map_append, List.sum_append]
      omega
  | receive =>
    simp only [step]
    cases hq : w.toClient.queue with
    | nil => exact .inl rfl
    | cons e q =>
      simp only
      split
      · rename_i hp
        have hlt := receive_work w.relay e hp
        refine .inr ?_
        simp only [work, Wire.pop_cons hq, hq, List.map_cons, List.sum_cons]
        omega
      · exact .inl rfl
  | dispatch =>
    simp only [step]
    cases hq : w.toDaemon.queue with
    | nil => exact .inl rfl
    | cons e q =>
      have hlt := dispatch_work w.forward e
      refine .inr ?_
      simp only [work, Wire.pop_cons hq, hq, List.map_cons, List.sum_cons, Wire.queue_put, List.map_append, List.sum_append]
      omega
  | task i =>
    refine htask (w.forward.step i) ?_
    cases i with
    | connect =>
      simp only [Forward.step]
      split
      · rename_i hs
        exact .inr (by simp [forwardWork, hs, stageWork])
      · exact .inl rfl
    | «open» =>
      simp only [Forward.step]
      split
      · rename_i hs
        exact .inr (by simp [forwardWork, hs, stageWork, replyWork, forwardReply]; omega)
      · exact .inl rfl
    | upstream accepted =>
      simp only [Forward.step]
      split
      · rename_i hs
        exact upstream_work hs accepted
      · exact .inl rfl
    | downstream =>
      simp only [Forward.step]
      split
      · rename_i hs
        exact downstream_work hs
      · exact .inl rfl
    | _ => cases hi
  | _ => cases hi

/-- Neither end can go on. -/
def Resting (w : Tunnel) : Prop := ∀ i : TunnelInput, i.internal = true → (w.step i).1 = w

theorem comes_to_rest (w : Tunnel) :
    ∃ js : List TunnelInput, (∀ j ∈ js, j.internal = true) ∧ Resting (machine.run w js) := by
  induction hn : work w using Nat.strong_induction_on generalizing w with
  | _ n ih =>
    by_cases hrest : Resting w
    · exact ⟨[], nofun, hrest⟩
    · simp only [Resting, not_forall] at hrest
      obtain ⟨i, hi, hne⟩ := hrest
      have hlt := (internal_work w hi).resolve_left hne
      obtain ⟨js, hjs, hend⟩ := ih _ (hn ▸ hlt) _ rfl
      refine ⟨i :: js, ?_, hend⟩
      intro j hj
      rcases List.mem_cons.mp hj with rfl | hj
      · exact hi
      · exact hjs j hj

theorem resting_arm (hr : Resting w) :
    w.relay.place = .opening ∨ w.relay.place = .select ∨ w.relay.place = .returned ∨ w.relay.place = .bailed := by
  have hsame : (w.relay.stepArm 0).1.place = w.relay.place :=
    congrArg (fun w : Tunnel => w.relay.place) (hr (.arm 0) rfl)
  cases hp : w.relay.place with
  | sending m =>
    simp only [Relay.stepArm, hp] at hsame
    rcases looped_place ⟨true, w.relay.localEof, w.relay.remoteEof, .sending m, w.relay.socket⟩ with h | ⟨h, _⟩ <;>
      rw [h] at hsame <;> cases hsame
  | writing rest =>
    simp only [Relay.stepArm, hp] at hsame
    split at hsame
    · cases hsame
    · rename_i hleft
      have hlen := congrArg List.length (Place.writing.inj hsame)
      have hpos := List.length_pos_of_ne_nil (show rest.drop (0 + 1) ≠ [] by simpa using hleft)
      rw [List.length_drop] at hlen hpos
      omega
  | shutting =>
    simp only [Relay.stepArm, hp] at hsame
    cases hsame
  | acking =>
    simp only [Relay.stepArm, hp] at hsame
    rcases looped_place w.relay with h | ⟨h, _⟩ <;> rw [h] at hsame <;> cases hsame
  | _ => simp

/-- Every message on its way to the daemon is taken. -/
theorem resting_dispatch (hr : Resting w) : w.toDaemon.queue = [] := by
  cases hq : w.toDaemon.queue with
  | nil => rfl
  | cons e q =>
    have hsame := congrArg (fun w : Tunnel => w.toDaemon.queue.length) (hr .dispatch rfl)
    simp only [step, hq, Wire.pop_cons hq, List.length_cons] at hsame
    omega

theorem resting_receive (hr : Resting w) (hp : w.relay.place = .opening ∨ w.relay.place = .select) :
    w.toClient.queue = [] := by
  cases hq : w.toClient.queue with
  | nil => rfl
  | cons e q =>
    have hsame := congrArg (fun w : Tunnel => w.toClient.queue.length) (hr .receive rfl)
    simp only [step, hq, if_pos hp, Wire.pop_cons hq, List.length_cons] at hsame
    omega

theorem resting_stage (hr : Resting w) : w.forward.stage = .relaying ∨ w.forward.stage = .ended := by
  cases hs : w.forward.stage with
  | connecting =>
    have hsame := congrArg (fun w : Tunnel => w.forward.stage) (hr (.task .connect) rfl)
    simp [step, Forward.step, hs] at hsame
  | opening =>
    have hsame := congrArg (fun w : Tunnel => w.forward.stage) (hr (.task .open) rfl)
    simp [step, Forward.step, hs] at hsame
  | _ => simp

theorem joined_upstream (f : Forward) : f.joined.upstream = f.upstream := by
  unfold Forward.joined
  split <;> rfl

theorem resting_upstream (h : Sound w) (hr : Resting w) (hs : w.forward.stage = .relaying) :
    upHand w.forward = .free ∨ upHand w.forward = .closed := by
  have hsame : (w.forward.stepUpstream 0).1 = w.forward := by
    have := congrArg Tunnel.forward (hr (.task (.upstream 0)) rfl)
    simpa only [step, Forward.step, if_pos hs] using this
  cases hi : w.forward.input with
  | some x =>
    have hu := h.forward.input (by rw [hi]; rfl)
    have := congrArg Forward.input hsame
    cases x <;> simp [Forward.stepUpstream, hu, hi] at this
  | none =>
    have hup := congrArg Forward.upstream hsame
    cases hu : w.forward.upstream with
    | receiving => exact .inl (by simp [upHand, hi, hu])
    | finished => exact .inr (by simp [upHand, hi, hu])
    | writing rest =>
      simp only [Forward.stepUpstream, hu] at hup
      split at hup
      · cases hup
      · rename_i hleft
        have hlen := congrArg List.length (Upstream.writing.inj hup)
        have hpos := List.length_pos_of_ne_nil (show rest.drop (0 + 1) ≠ [] by simpa using hleft)
        rw [List.length_drop] at hlen hpos
        omega
    | shutting => simp [Forward.stepUpstream, hu] at hup
    | acking eof => cases eof <;> simp [Forward.stepUpstream, hu, hi, joined_upstream] at hup

theorem resting_downstream (hr : Resting w) (hs : w.forward.stage = .relaying) : downHeld w.forward = none := by
  have hsame : w.forward.stepDownstream.1 = w.forward := by
    have := congrArg Tunnel.forward (hr (.task .downstream) rfl)
    simpa only [step, Forward.step, if_pos hs] using this
  have hdown := congrArg Forward.downstream hsame
  cases hd : w.forward.downstream with
  | sending m => simp [Forward.stepDownstream, hd] at hdown
  | _ => simp [downHeld, hd]

/-- Everything that was read from one socket was written to the other, its end included. -/
def Delivered (source sink : TcpSocket) : Prop := sink.written = source.given ∧ sink.shut = source.givenEof

theorem delivered_of_resting (h : Sound w) (hr : Resting w) :
    Delivered w.relay.socket w.forward.socket ∧ Delivered w.forward.socket w.relay.socket := by
  have hqueue := resting_dispatch hr
  have hstage := resting_stage hr
  have hplace : w.relay.place = .select ∨ w.relay.place = .returned := by
    rcases resting_arm hr with hp | hp | hp | hp
    · cases h.opening with
      | before _ hs => rcases hstage with hs' | hs' <;> rcases hs with hs | hs <;> rw [hs] at hs' <;> cases hs'
      | answered _ _ ip port rest hq =>
        rw [resting_receive hr (.inl hp)] at hq
        cases hq
      | after hp' => exact absurd hp hp'
    · exact .inl hp
    · exact .inr hp
    · exact absurd hp h.relay.notBailed
  have hdownHand : (downLane w).hand = .free ∨ (downLane w).hand = .closed := by
    rcases hplace with hp | hp <;> cases he : w.relay.remoteEof <;> simp [downLane, downHand, hp, he]
  have hclosed : w.relay.place = .returned → (downLane w).hand = .closed := by
    intro hp
    simp [downLane, downHand, hp, (h.relay.returned hp).2.1]
  refine ⟨h.up.quiet ?_ ?_ ?_, h.down.quiet ?_ ?_ hdownHand⟩
  · rcases hplace with hp | hp <;> simp [upLane, upHeld, hp]
  · simp [upLane, hqueue]
  · rcases hstage with hs | hs
    · exact resting_upstream h hr hs
    · have hu := h.forward.ended hs
      exact .inr (by simp [upLane, upHand, h.forward.input_none (by simp [hu]), hu])
  · rcases hstage with hs | hs
    · exact resting_downstream hr hs
    · by_cases hd : w.forward.downstream = .finished
      · simp [downLane, downHeld, hd]
      · exact (h.down.of_closed (hclosed (h.aborted (.inr ⟨hs, hd⟩)).1)).1
  · rcases hplace with hp | hp
    · simp [downLane, resting_receive hr (.inr hp)]
    · exact (h.down.of_closed (hclosed hp)).2

/-- What a socket has given. -/
def read (s : TcpSocket) : List UInt8 × Bool := (s.given, s.givenEof)

theorem read_arm (r : Relay) (accepted : Nat) : read (r.stepArm accepted).1.socket = read r.socket := by
  unfold Relay.stepArm
  split <;> try rfl
  simp only
  split <;> rfl

theorem read_receive (r : Relay) (e : ForwardReply) : read (r.step (.receive e)).1.socket = read r.socket := by
  simp only [Relay.step]
  split
  · unfold Relay.opened
    split
    · split <;> rfl
    · rfl
  · unfold Relay.received
    split
    · rfl
    · split <;> try rfl
      all_goals split <;> rfl
  · rfl

theorem socket_dispatch (f : Forward) (e : Envelope) : (f.dispatch e).1.socket = f.socket := by
  have ha := Forward.message_answered f e
  unfold Forward.dispatch
  generalize f.message e = r at ha
  cases ha <;> rfl

theorem socket_joined (f : Forward) : f.joined.socket = f.socket := by
  unfold Forward.joined
  split <;> rfl

theorem read_upstream (f : Forward) (accepted : Nat) : read (f.stepUpstream accepted).1.socket = read f.socket := by
  unfold Forward.stepUpstream
  cases f.upstream with
  | receiving => cases f.input with
    | none => rfl
    | some x => cases x <;> rfl
  | writing rest =>
    simp only
    split <;> rfl
  | acking eof =>
    cases eof with
    | false => rfl
    | true =>
      simp only
      split
      · rfl
      · rw [socket_joined]
  | _ => rfl

theorem read_downstream (f : Forward) : read f.stepDownstream.1.socket = read f.socket := by
  unfold Forward.stepDownstream
  cases f.downstream with
  | reading =>
    simp only
    split <;> rfl
  | awaiting eof =>
    simp only
    split
    · split
      · rw [socket_joined]
      · rfl
    · rfl
  | _ => rfl

/-- Going on with what is there reads nothing. -/
theorem read_internal (w : Tunnel) {i : TunnelInput} (hi : i.internal = true) :
    read (w.step i).1.relay.socket = read w.relay.socket ∧ read (w.step i).1.forward.socket = read w.forward.socket := by
  cases i with
  | arm accepted => exact ⟨read_arm w.relay accepted, rfl⟩
  | receive =>
    simp only [step]
    split
    · split
      · exact ⟨read_receive _ _, rfl⟩
      · exact ⟨rfl, rfl⟩
    · exact ⟨rfl, rfl⟩
  | dispatch =>
    simp only [step]
    split
    · exact ⟨rfl, by rw [socket_dispatch]⟩
    · exact ⟨rfl, rfl⟩
  | task i =>
    refine ⟨rfl, ?_⟩
    simp only [step]
    cases i with
    | connect =>
      simp only [Forward.step]
      split <;> rfl
    | «open» =>
      simp only [Forward.step]
      split <;> rfl
    | upstream accepted =>
      simp only [Forward.step]
      split
      · exact read_upstream _ _
      · rfl
    | downstream =>
      simp only [Forward.step]
      split
      · exact read_downstream _
      · rfl
    | _ => cases hi
  | _ => cases hi

theorem fails_of_internal {i : TunnelInput} (h : i.internal = true) : i.fails = false := by
  cases i with
  | task i => cases i <;> first | rfl | cases h
  | _ => first | rfl | cases h

theorem internal_run (h : Sound w) {js : List TunnelInput} (hjs : ∀ j ∈ js, j.internal = true) :
    Sound (machine.run w js) ∧ read (machine.run w js).relay.socket = read w.relay.socket ∧
      read (machine.run w js).forward.socket = read w.forward.socket := by
  induction js generalizing w with
  | nil => exact ⟨h, rfl, rfl⟩
  | cons j js ih =>
    have hj := hjs j List.mem_cons_self
    obtain ⟨hs, hrelay, hforward⟩ := ih (inv_step h (fails_of_internal hj)).1 fun i hi => hjs i (List.mem_cons_of_mem _ hi)
    obtain ⟨hr, hf⟩ := read_internal w hj
    exact ⟨hs, hrelay.trans hr, hforward.trans hf⟩

/-- What is read at either end arrives at the other. -/
theorem arrives (h : Sound w) :
    ∃ js : List TunnelInput, (∀ j ∈ js, j.internal = true) ∧
      Delivered w.relay.socket (machine.run w js).forward.socket ∧
      Delivered w.forward.socket (machine.run w js).relay.socket := by
  obtain ⟨js, hjs, hrest⟩ := comes_to_rest w
  obtain ⟨hsound, hrelay, hforward⟩ := internal_run h hjs
  obtain ⟨hup, hdown⟩ := delivered_of_resting hsound hrest
  obtain ⟨hrg, hre⟩ := Prod.mk.inj hrelay
  obtain ⟨hfg, hfe⟩ := Prod.mk.inj hforward
  refine ⟨js, hjs, ?_, ?_⟩
  · exact ⟨hup.1.trans hrg, hup.2.trans hre⟩
  · exact ⟨hdown.1.trans hfg, hdown.2.trans hfe⟩

theorem inv_run (ip : String) (port : UInt32) {is : List TunnelInput} (his : ∀ i ∈ is, i.fails = false) :
    Sound (machine.run (new ip port) is) :=
  machine.run_induction (P := Sound) (fun _ _ h hok => (inv_step h hok).1) (sound_new ip port)
    (machine.admissible_of_forall his _)

theorem never_rejects (ip : String) (port : UInt32) {is : List TunnelInput} (his : ∀ i ∈ is, i.fails = false) :
    ∀ x ∈ machine.trace (new ip port) is, x.2 = false := by
  have hkept := @Machine.trace_induction _ _ _ machine (fun _ i => i.fails = false)
    (fun tr w => Sound w ∧ ∀ x ∈ tr, x.2 = false) _ ⟨sound_new ip port, nofun⟩ ?_ is
    (machine.admissible_of_forall his _)
  · exact hkept.2
  · rintro tr w i ⟨h, htr⟩ hi
    obtain ⟨hsound, hout⟩ := inv_step h hi
    refine ⟨hsound, fun x hx => ?_⟩
    rcases List.mem_append.mp hx with hx | hx
    · exact htr x hx
    · rw [List.mem_singleton.mp hx]
      exact hout

/-- A socket gets what the other was given, in order, and its end after all of it. -/
def Follows (source sink : TcpSocket) : Prop :=
  sink.written <+: source.given ∧ (sink.shut = true → source.givenEof = true ∧ sink.written = source.given)

/-- Both ends without timeouts and I/O errors; and either end against any peer. -/
theorem stop_and_wait :
    (∀ (ip : String) (port : UInt32) (is : List TunnelInput), (∀ i ∈ is, i.fails = false) →
      let w := machine.run (new ip port) is
      Follows w.relay.socket w.forward.socket ∧ Follows w.forward.socket w.relay.socket ∧
      (w.toDaemon.sent.filterMap Forward.payload).length ≤ w.toClient.received.countP ForwardReply.isAck + 1 ∧
      (w.toClient.sent.filterMap ForwardReply.payload).length ≤ w.toDaemon.received.countP Envelope.isForwardAck + 1 ∧
      (∀ x ∈ machine.trace (new ip port) is, x.2 = false) ∧
      ∃ js : List TunnelInput, (∀ j ∈ js, j.internal = true) ∧
        Delivered w.relay.socket (machine.run w js).forward.socket ∧
        Delivered w.forward.socket (machine.run w js).relay.socket) ∧
    (∀ (requestId : UInt64) (ip : String) (port : UInt32) (is : List Forward.Input),
      let f := Forward.machine.run (.spawn requestId ip port) is
      let accepted := Forward.accepted (Forward.machine.trace (.spawn requestId ip port) is)
      f.socket.written <+: Forward.bytesOf accepted ∧
      ∀ e x, (Forward.machine.out f (.message e)).accepted = some x →
        none ∉ accepted ∧ f.socket.written = Forward.bytesOf accepted) ∧
    ∀ is : List RelayInput,
      let r := Relay.machine.run .new is
      let taken := Relay.taken (Relay.machine.trace .new is)
      r.socket.written <+: Forward.bytesOf taken ∧
      ∀ e data, (Relay.machine.out r (.receive e)).taken = some (some data) →
        none ∉ taken ∧ r.socket.written = Forward.bytesOf taken := by
  refine ⟨?_, ?_, ?_⟩
  · intro ip port is his w
    have h : Sound w := inv_run ip port his
    exact ⟨⟨h.up.prefixed, h.up.shut_all⟩, ⟨h.down.prefixed, h.down.shut_all⟩, h.up.one_outstanding,
      h.down.one_outstanding, never_rejects ip port his, arrives h⟩
  · intro requestId ip port is f accepted
    exact ⟨Forward.written_accepted requestId ip port is, fun e x => Forward.accepts_data requestId ip port is e⟩
  · intro is r taken
    exact ⟨Relay.written_taken is, fun e data => Relay.takes_data is e⟩

/-- A client opens the forward and reads two bytes and the end of its socket. -/
theorem stop_and_wait_two_bytes :
    let is : List TunnelInput := [.task .connect, .task .open, .receive, .read [7, 8], .arm 0, .dispatch,
      .task (.upstream 0), .task (.upstream 0), .task (.upstream 0), .task (.upstream 0), .receive, .read []]
    let w := machine.run (new "127.0.0.1" 4000) is
    (∀ i ∈ is, i.fails = false) ∧ w.relay.socket.given = [7, 8] ∧ w.relay.socket.givenEof = true ∧
      w.forward.socket.written = [7, 8] ∧ w.forward.socket.shut = false ∧
      ∃ js : List TunnelInput, (machine.run w js).forward.socket.shut = true := by
  intro is w
  have his : ∀ i ∈ is, i.fails = false := by decide
  obtain ⟨_, _, _, _, _, js, _, hup, _⟩ := stop_and_wait.1 "127.0.0.1" 4000 is his
  exact ⟨his, by decide, by decide, by decide, by decide, js, hup.2⟩

/-- The second message is on the channel before the first was accepted, and it is written
    all the same: the daemon looks at it when the first has been written. -/
theorem early_data_is_written :
    let sent : List Envelope := [plain (.tcpForwardData [1]), plain (.tcpForwardData [2])]
    let w : Tunnel := { machine.run (new "127.0.0.1" 4000) [.task .connect, .task .open] with
      toDaemon := Wire.empty.put sent }
    let w' := machine.run w [.dispatch, .task (.upstream 0), .task (.upstream 0), .dispatch, .task (.upstream 0),
      .task (.upstream 0), .task (.upstream 0)]
    w.toDaemon.queue = sent ∧ w.forward.input = none ∧ w.forward.socket.written = [] ∧
      w'.forward.socket.written = [1, 2] ∧ w'.forward.aborted = false := by
  decide

end Tunnel

end Holdfast.Client

/-
  Holdfast.Client.Relay — a TCP forward's end at the SOCKS client (`relay` of
  `crates/native-client/src/socks.rs`).

  One task serves both directions: a `select!` between a read of the socket, allowed while
  no acknowledgement is awaited, and the next message of the channel; the arm that is
  taken runs to its end before the next round. `Place` is where the task stands, so that a
  step is what runs between two awaits. `opening` is `serve` waiting for
  `TcpForwardOpened`, whose address only goes to the SOCKS client.

  Proved:
  - `written_taken`: whatever the daemon sends, what is written to the socket is a prefix
    of the data taken.
  - `takes_data`: data is taken only when everything taken before it has been written and
    none of it was an EOF.
-/

import Holdfast.Daemon.Forward

namespace Holdfast.Client

open Holdfast.Base Holdfast.Daemon

/-- `plain` of `crates/native-client/src/lib.rs`. -/
def plain (m : ClientMessage) : Envelope := ⟨0, [], [], some m⟩

inductive Place where
  | opening
  | select
  | sending (m : ClientMessage)
  | writing (rest : List UInt8)
  | shutting
  | acking
  | returned
  | bailed
  deriving DecidableEq, Repr

structure Relay where
  waitingAck : Bool
  localEof : Bool
  remoteEof : Bool
  place : Place
  socket : TcpSocket
  deriving DecidableEq, Repr

inductive RelayInput where
  /-- The channel gives the next message. -/
  | receive (e : ForwardReply)
  /-- A TCP read completes. -/
  | read (bytes : List UInt8)
  /-- The arm goes on; a TCP write takes `accepted + 1` bytes at most. -/
  | arm (accepted : Nat)
  /-- A timeout, or an error of the socket or the channel. -/
  | fail
  deriving DecidableEq, Repr

/-- What a step sends, and the data or EOF it took. -/
structure RelayOutput where
  sent : List Envelope
  taken : Option (Option (List UInt8))
  deriving DecidableEq, Repr

namespace Relay

def new : Relay := ⟨false, false, false, .opening, .fresh⟩

/-- The head of the loop. -/
def looped (r : Relay) : Relay :=
  { r with place := if r.localEof && r.remoteEof && !r.waitingAck then .returned else .select }

@[simp] theorem looped_waitingAck (r : Relay) : r.looped.waitingAck = r.waitingAck := rfl
@[simp] theorem looped_localEof (r : Relay) : r.looped.localEof = r.localEof := rfl
@[simp] theorem looped_remoteEof (r : Relay) : r.looped.remoteEof = r.remoteEof := rfl
@[simp] theorem looped_socket (r : Relay) : r.looped.socket = r.socket := rfl

def bail (r : Relay) : Relay := { r with place := .bailed }

/-- The message a read of the socket becomes. -/
def ofRead (bytes : List UInt8) : ClientMessage := if bytes.isEmpty then .tcpForwardEof else .tcpForwardData bytes

/-- The arm of `receive`, up to its first await. -/
def received (r : Relay) (e : ForwardReply) : Relay × RelayOutput :=
  if e.requestId ≠ 0 ∨ ¬e.serverId.isEmpty ∨ ¬e.shellId.isEmpty then (r.bail, ⟨[], none⟩)
  else
    match e.message with
    | some .ack => if r.waitingAck then ({ r with waitingAck := false }.looped, ⟨[], none⟩) else (r.bail, ⟨[], none⟩)
    | some (.data data) =>
      if !r.remoteEof && !data.isEmpty && decide (data.length ≤ forwardDataBytesMax) then
        ({ r with place := .writing data }, ⟨[], some (some data)⟩)
      else (r.bail, ⟨[], none⟩)
    | some .eof =>
      if !r.remoteEof then ({ r with remoteEof := true, place := .shutting }, ⟨[], some none⟩) else (r.bail, ⟨[], none⟩)
    | _ => (r.bail, ⟨[], none⟩)

/-- `serve` has the answer to its `OpenTcpForward`. -/
def opened (r : Relay) (e : ForwardReply) : Relay :=
  match e.message with
  | some (.opened _ _) => if e.requestId = 1 then r.looped else r.bail
  | _ => r.bail

def stepArm (r : Relay) (accepted : Nat) : Relay × List Envelope :=
  match r.place with
  | .sending m => ({ r with waitingAck := true }.looped, [plain m])
  | .writing rest =>
    let socket := { r.socket with written := r.socket.written ++ rest.take (accepted + 1) }
    if (rest.drop (accepted + 1)).isEmpty then ({ r with socket := socket, place := .acking }, [])
    else ({ r with socket := socket, place := .writing (rest.drop (accepted + 1)) }, [])
  | .shutting => ({ r with socket := { r.socket with shut := true }, place := .acking }, [])
  | .acking => (r.looped, [plain .tcpForwardAck])
  | _ => (r, [])

def step (r : Relay) : RelayInput → Relay × RelayOutput
  | .receive e =>
    match r.place with
    | .opening => (r.opened e, ⟨[], none⟩)
    | .select => r.received e
    | _ => (r, ⟨[], none⟩)
  | .read bytes =>
    if r.place = .select ∧ r.localEof = false ∧ r.waitingAck = false then
      let bytes := bytes.take forwardDataBytesMax
      ({ r with socket := r.socket.read bytes, localEof := bytes.isEmpty, place := .sending (ofRead bytes) }, ⟨[], none⟩)
    else (r, ⟨[], none⟩)
  | .arm accepted => ((r.stepArm accepted).1, ⟨(r.stepArm accepted).2, none⟩)
  | .fail => if r.place = .returned then (r, ⟨[], none⟩) else (r.bail, ⟨[], none⟩)

def machine : Machine Relay RelayInput RelayOutput := ⟨step⟩

/-! ## Against any daemon -/

/-- What was taken along a run. -/
def taken (tr : List (RelayInput × RelayOutput)) : List (Option (List UInt8)) := tr.filterMap (·.2.taken)

/-- Taken, and not written yet. -/
def unwritten (r : Relay) : List UInt8 :=
  match r.place with
  | .writing rest => rest
  | _ => []

structure Fed (r : Relay) (acc : List (Option (List UInt8))) : Prop where
  bytes : r.place ≠ .bailed → r.socket.written ++ r.unwritten = Forward.bytesOf acc
  prefixed : r.socket.written <+: Forward.bytesOf acc
  eof : none ∈ acc → r.remoteEof = true

variable {r r' : Relay} {acc : List (Option (List UInt8))}

/-- A move that writes nothing, between places where nothing is left to write. -/
theorem Fed.move (h : Fed r acc) (hu : r.unwritten = []) (hw : r'.socket.written = r.socket.written)
    (hu' : r'.unwritten = []) (hb : r.place ≠ .bailed) (he : r.remoteEof = true → r'.remoteEof = true) : Fed r' acc := by
  have hbytes := h.bytes hb
  rw [hu] at hbytes
  refine ⟨?_, ?_, fun hmem => he (h.eof hmem)⟩
  · intro _
    rw [hw, hu']
    exact hbytes
  · rw [hw]
    exact h.prefixed

theorem Fed.bail (h : Fed r acc) : Fed r.bail acc := ⟨fun hb => absurd rfl hb, h.prefixed, h.eof⟩

theorem unwritten_looped (r : Relay) : r.looped.unwritten = [] := by
  unfold unwritten looped
  cases (r.localEof && r.remoteEof && !r.waitingAck) <;> rfl

/-- All that was taken has been written when the next message is looked at. -/
theorem Fed.select (h : Fed r acc) (hp : r.place = .select) : r.socket.written = Forward.bytesOf acc := by
  have hbytes := h.bytes (by rw [hp]; simp)
  rwa [unwritten, hp, List.append_nil] at hbytes

theorem fed_received (h : Fed r acc) (hp : r.place = .select) (e : ForwardReply) :
    Fed (r.received e).1 (acc ++ (r.received e).2.taken.toList) := by
  have hbail : Fed r.bail (acc ++ []) := by
    rw [List.append_nil]
    exact h.bail
  unfold received
  split
  · exact hbail
  · cases hm : e.message with
    | none => exact hbail
    | some m =>
      cases m with
      | ack =>
        simp only
        split
        · rw [Option.toList_none, List.append_nil]
          exact h.move (by rw [unwritten, hp]) rfl (unwritten_looped _) (by rw [hp]; simp) id
        · exact hbail
      | data data =>
        simp only
        split
        · rename_i hd
          have hno : none ∉ acc := by
            intro hmem
            simp [h.eof hmem] at hd
          refine ⟨?_, ?_, ?_⟩
          · intro _
            rw [Forward.bytesOf_append, ← h.select hp]
            simp [unwritten, Forward.bytesOf]
          · rw [Forward.bytesOf_append, ← h.select hp]
            exact List.prefix_append _ _
          · intro hmem
            rcases List.mem_append.mp hmem with hmem | hmem
            · exact absurd hmem hno
            · cases List.mem_singleton.mp hmem
        · exact hbail
      | eof =>
        simp only
        split
        · refine ⟨?_, ?_, fun _ => rfl⟩
          · intro _
            rw [Forward.bytesOf_append, ← h.select hp]
            simp [unwritten, Forward.bytesOf]
          · rw [Forward.bytesOf_append, ← h.select hp]
            exact List.prefix_append _ _
        · exact hbail
      | _ => exact hbail

theorem fed_arm (h : Fed r acc) (accepted : Nat) : Fed (r.stepArm accepted).1 acc := by
  unfold stepArm
  cases hp : r.place with
  | sending m => exact h.move (by rw [unwritten, hp]) rfl (unwritten_looped _) (by rw [hp]; simp) id
  | writing rest =>
    have hbytes := h.bytes (by rw [hp]; simp)
    rw [unwritten, hp] at hbytes
    simp only at hbytes
    rw [← List.take_append_drop (accepted + 1) rest, ← List.append_assoc] at hbytes
    simp only
    split
    · rename_i hdone
      rw [List.isEmpty_iff.mp hdone, List.append_nil] at hbytes
      exact ⟨fun _ => by simpa [unwritten] using hbytes, ⟨[], by simpa using hbytes⟩, h.eof⟩
    · exact ⟨fun _ => by simpa [unwritten] using hbytes, ⟨_, hbytes⟩, h.eof⟩
  | shutting => exact h.move (by rw [unwritten, hp]) rfl rfl (by rw [hp]; simp) id
  | acking => exact h.move (by rw [unwritten, hp]) rfl (unwritten_looped _) (by rw [hp]; simp) id
  | _ => exact h

theorem fed_step (h : Fed r acc) (i : RelayInput) : Fed (r.step i).1 (acc ++ (r.step i).2.taken.toList) := by
  have hstay : Fed r (acc ++ []) := by
    rw [List.append_nil]
    exact h
  cases i with
  | receive e =>
    cases hp : r.place with
    | opening =>
      simp only [step, hp, Option.toList_none, List.append_nil]
      unfold opened
      split
      · split
        · exact h.move (by rw [unwritten, hp]) rfl (unwritten_looped _) (by rw [hp]; simp) id
        · exact h.bail
      · exact h.bail
    | select =>
      simp only [step, hp]
      exact fed_received h hp e
    | _ =>
      simp only [step, hp]
      exact hstay
  | read bytes =>
    simp only [step]
    split
    · rename_i hp
      rw [Option.toList_none, List.append_nil]
      exact h.move (by rw [unwritten, hp.1]) rfl rfl (by rw [hp.1]; simp) id
    · exact hstay
  | arm accepted =>
    simp only [step, Option.toList_none, List.append_nil]
    exact fed_arm h accepted
  | fail =>
    simp only [step]
    split
    · exact hstay
    · rw [Option.toList_none, List.append_nil]
      exact h.bail

theorem taken_snoc (tr : List (RelayInput × RelayOutput)) (x : RelayInput × RelayOutput) :
    taken (tr ++ [x]) = taken tr ++ x.2.taken.toList := by
  rw [taken, List.filterMap_append]
  cases h : x.2.taken <;> simp [taken, h]

theorem fed_run (is : List RelayInput) : Fed (machine.run new is) (taken (machine.trace new is)) := by
  refine machine.trace_induction (P := fun tr r => Fed r (taken tr)) ⟨fun _ => rfl, List.nil_prefix, nofun⟩ ?_
    (machine.admissible_true _ is)
  intro tr r i h _
  rw [taken_snoc]
  exact fed_step h i

/-- Whatever the daemon sends, the socket gets the data taken, in order. -/
theorem written_taken (is : List RelayInput) :
    (machine.run new is).socket.written <+: Forward.bytesOf (taken (machine.trace new is)) :=
  (fed_run is).prefixed

/-- Data is taken only once all that was taken before it is written, and no EOF was. -/
theorem takes_data (is : List RelayInput) (e : ForwardReply) {data : List UInt8}
    (h : (machine.out (machine.run new is) (.receive e)).taken = some (some data)) :
    none ∉ taken (machine.trace new is) ∧
      (machine.run new is).socket.written = Forward.bytesOf (taken (machine.trace new is)) := by
  have hfed := fed_run is
  generalize machine.run new is = r at h hfed
  simp only [Machine.out, machine, step] at h
  cases hp : r.place with
  | select =>
    refine ⟨?_, hfed.select hp⟩
    intro hmem
    have he := hfed.eof hmem
    simp only [hp] at h
    unfold received at h
    split at h
    · cases h
    · cases hm : e.message with
      | none => simp [hm] at h
      | some m =>
        cases m <;> simp [hm, he] at h
        split at h <;> cases h
  | _ =>
    rw [hp] at h
    cases h

end Relay

end Holdfast.Client

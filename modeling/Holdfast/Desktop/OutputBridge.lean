/-
  Holdfast.Desktop.OutputBridge — how terminal output gets from the core to the webview
  (`attach_shell`, `drain_output_batch` and `ack_terminal_output` of
  `desktop/src-tauri/src/commands.rs`, `OutputAcks` of `main.rs`).

  Each attachment has a task that sends the snapshot as a packet of its own and then the
  chunks of its sink, as many together as fit. At the edges of a small window a packet asks
  for an acknowledgement, and the task waits for it. The acknowledgements of an attachment go
  through a queue of one slot, which is registered from before the core is asked to attach
  until the task ends.

  A chunk may arrive, an acknowledgement be made, a send fail and a wait time out at any
  moment; what the sink holds is not bounded here. The base64 of the packets is left out.

  Proved:
  - `drainOutputBatch_spec`: what one packet takes from the sink.
  - `carried_next`, `registered_next`, `prompt_next`: a step keeps the account of the chunks, the registry,
    and, for a webview that acknowledges each packet that asks for it once, its promptness.
  - `output_bridge`: the packets, the window, the registry and the acknowledgements of every
    run.
-/

import Holdfast.Base.Machine
import Holdfast.Base.Table

namespace Holdfast.Desktop

open Holdfast.Base

def maxActiveOutputAcks : Nat := 256

def outputPacketWindow : Nat := 2

def outputBatchBytes : Nat := 128 * 1024

def outputBatchChunks : Nat := 32

def outputPacketRequiresAck (sequence : Nat) : Bool := sequence == 0 || sequence % outputPacketWindow == 0

/-- `u64::saturating_add(1)`. -/
def saturatingSucc (n : Nat) : Nat := min (n + 1) 18446744073709551615

structure OutputPacket where
  attachmentId : Nat
  sequence : Nat
  requiresAck : Bool
  data : List UInt8
  deriving DecidableEq, Repr

/-! ## One packet -/

/-- The batch and its chunks with `next` in it, or `next` back. -/
def appendToOutputBatch (batch : List UInt8) (chunks : Nat) (next : List UInt8) :
    (List UInt8 × Nat) × Option (List UInt8) :=
  if chunks ≥ outputBatchChunks ∨ next.length > outputBatchBytes - batch.length then ((batch, chunks), some next)
  else ((batch ++ next, chunks + 1), none)

/-- The loop of `drain_output_batch`: the batch, what did not fit, and what was not looked at. -/
def drainLoop (batch : List UInt8) (chunks : Nat) :
    List (List UInt8) → List UInt8 × Option (List UInt8) × List (List UInt8)
  | [] => (batch, none, [])
  | next :: queue =>
    if chunks < outputBatchChunks then
      match appendToOutputBatch batch chunks next with
      | (_, some leftover) => (batch, some leftover, queue)
      | ((batch, chunks), none) => drainLoop batch chunks queue
    else (batch, none, next :: queue)

def drainOutputBatch (first : List UInt8) (queue : List (List UInt8)) : List UInt8 × Option (List UInt8) × List (List UInt8) :=
  drainLoop first 1 queue

/-- Chunks that go into one packet. -/
def Fits (group : List (List UInt8)) : Prop :=
  group.flatten.length ≤ outputBatchBytes ∨ group.flatten ∈ group

theorem drainLoop_spec (batch : List UInt8) (chunks : Nat) (queue : List (List UInt8)) :
    ∃ more, (drainLoop batch chunks queue).1 = batch ++ more.flatten ∧
      more ++ (drainLoop batch chunks queue).2.1.toList ++ (drainLoop batch chunks queue).2.2 = queue ∧
      (batch.length ≤ outputBatchBytes → (batch ++ more.flatten).length ≤ outputBatchBytes) ∧
      (outputBatchBytes < batch.length → more.flatten = []) := by
  induction queue generalizing batch chunks with
  | nil => exact ⟨[], by simp [drainLoop], rfl, by simp, fun _ => rfl⟩
  | cons next queue ih =>
    unfold drainLoop
    by_cases hchunks : chunks < outputBatchChunks
    · by_cases hlong : next.length > outputBatchBytes - batch.length
      · simp only [hchunks, if_true, appendToOutputBatch, hlong, or_true]
        exact ⟨[], by simp, rfl, by simp, fun _ => rfl⟩
      · have hgo : ¬(chunks ≥ outputBatchChunks ∨ next.length > outputBatchBytes - batch.length) := by omega
        simp only [hchunks, if_true, appendToOutputBatch, hgo, if_false]
        obtain ⟨more, hbatch, hqueue, hfits, hempty⟩ := ih (batch ++ next) (chunks + 1)
        refine ⟨next :: more, ?_, ?_, ?_, ?_⟩
        · rw [hbatch, List.flatten_cons, List.append_assoc]
        · rw [List.cons_append, List.cons_append, hqueue]
        · intro hle
          rw [List.flatten_cons, ← List.append_assoc]
          exact hfits (by rw [List.length_append]; omega)
        · intro hlt
          -- nothing but empty chunks is added to a batch above the bound
          have hnil : next = [] := List.eq_nil_of_length_eq_zero (by omega)
          rw [List.flatten_cons, hnil, List.nil_append]
          exact hempty (by rw [hnil, List.append_nil]; exact hlt)
    · simp only [hchunks, if_false]
      exact ⟨[], by simp, rfl, by simp, fun _ => rfl⟩

/-- A packet is a group of chunks off the front, in order. -/
theorem drainOutputBatch_spec (first : List UInt8) (queue : List (List UInt8)) :
    ∃ group, (drainOutputBatch first queue).1 = group.flatten ∧ Fits group ∧
      group ++ (drainOutputBatch first queue).2.1.toList ++ (drainOutputBatch first queue).2.2 = first :: queue := by
  obtain ⟨more, hbatch, hqueue, hfits, hempty⟩ := drainLoop_spec first 1 queue
  refine ⟨first :: more, hbatch, ?_, ?_⟩
  · rw [Fits, List.flatten_cons]
    by_cases hle : first.length ≤ outputBatchBytes
    · exact .inl (hfits hle)
    · right
      rw [hempty (Nat.lt_of_not_le hle), List.append_nil]
      exact List.mem_cons_self
  · rw [List.cons_append, List.cons_append]
    exact congrArg (first :: ·) hqueue

/-! ## One attachment -/

inductive BridgeState where
  /-- The core is asked to attach. -/
  | attaching
  /-- The task is spawned and has sent nothing. -/
  | starting
  /-- It waits for the acknowledgement of the last packet. -/
  | waiting
  /-- `left` turns of the window's loop. -/
  | sending (left : Nat)
  | over
  deriving DecidableEq, Repr

structure Bridge where
  state : BridgeState
  snapshot : List UInt8
  /-- What the sink holds. -/
  queue : List (List UInt8)
  /-- The core has dropped its end of the sink. -/
  sinkClosed : Bool
  pending : Option (List UInt8)
  sequence : Nat
  /-- The queue of its acknowledgements. -/
  slot : Option Nat
  sent : List OutputPacket
  /-- The last acknowledgement that the task has taken. -/
  acked : Option Nat
  /-- All that the webview has acknowledged. -/
  acknowledged : List Nat
  deriving DecidableEq, Repr

namespace Bridge

def start : Bridge := ⟨.attaching, [], [], false, none, 0, none, [], none, []⟩

/-- The task ends, and with it the sink's other end. -/
def stop (b : Bridge) : Bridge := { b with state := .over }

def packet (id sequence : Nat) (data : List UInt8) : OutputPacket := ⟨id, sequence, outputPacketRequiresAck sequence, data⟩

/-- A turn of the window's loop, from the chunk that it starts with. -/
def forward (b : Bridge) (id left : Nat) (delivered : Bool) (first : List UInt8) (queue : List (List UInt8)) : Bridge :=
  let (batch, leftover, queue) := drainOutputBatch first queue
  let sequence := saturatingSucc b.sequence
  if delivered then
    { b with
      pending := leftover
      queue := queue
      sequence := sequence
      sent := b.sent ++ [packet id sequence batch]
      state := if outputPacketRequiresAck sequence then .waiting else .sending left }
  else b.stop

/-- What the task does next, up to the next point where it may wait. -/
def turn (b : Bridge) (id : Nat) (delivered : Bool) : Bridge :=
  match b.state with
  | .starting =>
    if delivered then { b with sent := b.sent ++ [packet id b.sequence b.snapshot], state := .waiting } else b.stop
  | .waiting =>
    match b.slot with
    | some ack =>
      if ack = b.sequence then { b with slot := none, acked := some ack, state := .sending outputPacketWindow }
      else b.stop
    | none => b
  | .sending 0 => { b with state := .waiting }
  | .sending (left + 1) =>
    match b.pending, b.queue with
    | some first, queue => b.forward id left delivered first queue
    | none, first :: queue => b.forward id left delivered first queue
    | none, [] => if b.sinkClosed then b.stop else b
  | _ => b

/-- `OUTPUT_ACK_TIMEOUT` has passed. -/
def timedOut (b : Bridge) : Bridge :=
  match b.state with
  | .waiting => b.stop
  | _ => b

/-- The core has attached. -/
def attached (b : Bridge) (snapshot : List UInt8) : Bridge :=
  match b.state with
  | .attaching => { b with snapshot := snapshot, state := .starting }
  | _ => b

/-- The core has not. -/
def attachFailed (b : Bridge) : Bridge :=
  match b.state with
  | .attaching => b.stop
  | _ => b

def takesChunks (b : Bridge) : Bool := b.state != .over && !b.sinkClosed

end Bridge

/-! ## All of them -/

structure OutputAcks where
  nextId : Nat
  entries : List Nat
  deriving DecidableEq, Repr

def OutputAcks.remove (acks : OutputAcks) (id : Nat) : OutputAcks := { acks with entries := acks.entries.erase id }

structure Bridges where
  acks : OutputAcks
  bridges : Table Nat Bridge

inductive BridgeInput where
  | attachShell
  | attached (id : Nat) (snapshot : List UInt8)
  | attachFailed (id : Nat)
  | chunk (id : Nat) (bytes : List UInt8)
  | closeSink (id : Nat)
  | ack (id sequence : Nat)
  | turn (id : Nat) (delivered : Bool)
  | timedOut (id : Nat)
  deriving DecidableEq, Repr

inductive BridgeReply where
  | registered (id : Nat)
  | failed (message : String)
  | accepted
  | ignored
  deriving DecidableEq, Repr

namespace Bridges

def start : Bridges := ⟨⟨1, []⟩, ∅⟩

/-- A task that has ended has left the registry. -/
def put (s : Bridges) (id : Nat) (b : Bridge) : Bridges :=
  ⟨if b.state = .over then s.acks.remove id else s.acks, s.bridges.adjust id fun _ => b⟩

/-- A move of one attachment. -/
def move (s : Bridges) (id : Nat) (f : Bridge → Bridge) : Bridges :=
  match s.bridges.lookup id with
  | some b => s.put id (f b)
  | none => s

/-- `register`. -/
def register (s : Bridges) : Bridges × BridgeReply :=
  if s.acks.entries.length ≥ maxActiveOutputAcks then (s, .failed "too many active terminal output channels")
  else
    let id := s.acks.nextId
    (⟨⟨id + 1, id :: s.acks.entries⟩, s.bridges.insert id Bridge.start⟩, .registered id)

/-- `acknowledge`. -/
def acknowledge (s : Bridges) (id sequence : Nat) : Bridges × BridgeReply :=
  match s.bridges.lookup id with
  | some b =>
    let noted := { b with acknowledged := b.acknowledged ++ [sequence] }
    if id ∉ s.acks.entries then (s.put id noted, .failed "stale terminal output acknowledgement")
    else
      match b.slot with
      | none => (s.put id { noted with slot := some sequence }, .accepted)
      | some _ => (s.put id noted, .failed "unexpected terminal output acknowledgement")
  | none => (s, .failed "stale terminal output acknowledgement")

/-- A chunk for the sink of an attachment. -/
def offer (s : Bridges) (id : Nat) (bytes : List UInt8) : Bridges × BridgeReply :=
  match s.bridges.lookup id with
  | some b => if b.takesChunks then (s.put id { b with queue := b.queue ++ [bytes] }, .accepted) else (s, .ignored)
  | none => (s, .ignored)

def machine : Machine Bridges BridgeInput BridgeReply where
  step s
    | .attachShell => s.register
    | .attached id snapshot => (s.move id fun b => b.attached snapshot, .ignored)
    | .attachFailed id => (s.move id Bridge.attachFailed, .ignored)
    | .chunk id bytes => s.offer id bytes
    | .closeSink id => (s.move id fun b => { b with sinkClosed := true }, .ignored)
    | .ack id sequence => s.acknowledge id sequence
    | .turn id delivered => (s.move id fun b => b.turn id delivered, .ignored)
    | .timedOut id => (s.move id Bridge.timedOut, .ignored)

end Bridges

/-- The chunks that the sink of an attachment has taken. -/
def chunksOf (id : Nat) (tr : List (BridgeInput × BridgeReply)) : List (List UInt8) :=
  tr.filterMap fun
    | (.chunk id' bytes, .accepted) => if id' = id then some bytes else none
    | _ => none

/-! ## The account of the chunks -/

/-- The number of packet `i`. -/
def numbered (i : Nat) : Nat := min i 18446744073709551615

theorem saturatingSucc_numbered (i : Nat) : saturatingSucc (numbered i) = numbered (i + 1) := by
  unfold saturatingSucc numbered
  omega

/-- The packets of a snapshot and of groups of chunks. -/
def packetsOf (id : Nat) (snapshot : List UInt8) (groups : List (List (List UInt8))) : List OutputPacket :=
  (snapshot :: groups.map List.flatten).mapIdx fun i data => Bridge.packet id (numbered i) data

theorem packetsOf_concat (id : Nat) (snapshot : List UInt8) (groups : List (List (List UInt8))) (group : List (List UInt8)) :
    packetsOf id snapshot (groups ++ [group]) =
      packetsOf id snapshot groups ++ [Bridge.packet id (numbered (groups.length + 1)) group.flatten] := by
  rw [packetsOf, List.map_append, List.map_singleton, ← List.cons_append, List.mapIdx_concat, List.length_cons,
    List.length_map]
  rfl

theorem sequence_le {id : Nat} {snapshot : List UInt8} {groups : List (List (List UInt8))} {p : OutputPacket}
    (hp : p ∈ packetsOf id snapshot groups) : p.sequence ≤ numbered groups.length := by
  obtain ⟨i, hi, rfl⟩ := List.mem_mapIdx.mp hp
  rw [List.length_cons, List.length_map] at hi
  show numbered i ≤ numbered groups.length
  unfold numbered
  omega

namespace Bridge

/-- Is the packet behind the last acknowledgement that was taken? -/
def behind (acked : Option Nat) (p : OutputPacket) : Bool := (acked.map fun a => decide (a < p.sequence)).getD true

/-- The packets that were sent after the last one acknowledged. -/
def unacked (b : Bridge) : List OutputPacket := b.sent.filter (behind b.acked)

/-- What the task may send before it waits. -/
def allowance (b : Bridge) : Nat :=
  match b.state with
  | .sending left => left
  | _ => 0

/-- What holds of an attachment whose sink has taken `chunks`. -/
structure Carried (id : Nat) (chunks : List (List UInt8)) (b : Bridge) : Prop where
  early : b.state = .attaching ∨ b.state = .starting → b.sent = []
  unsent : b.sent = [] → b.pending = none ∧ b.queue = chunks ∧ b.sequence = 0 ∧
    (b.state = .attaching ∨ b.state = .starting ∨ b.state = .over)
  packets : b.sent ≠ [] → ∃ groups, b.sent = packetsOf id b.snapshot groups ∧
    groups.flatten ++ b.pending.toList ++ b.queue = chunks ∧ (∀ group ∈ groups, Fits group) ∧
    b.sequence = numbered groups.length
  window : b.unacked.length + b.allowance ≤ outputPacketWindow

variable {id : Nat} {chunks : List (List UInt8)} {b : Bridge}

theorem carried_start (id : Nat) : Carried id [] start where
  early _ := rfl
  unsent _ := ⟨rfl, rfl, rfl, .inl rfl⟩
  packets h := absurd rfl h
  window := by simp [start, unacked, allowance]

theorem carried_stop (h : Carried id chunks b) : Carried id chunks b.stop where
  early hs := by rcases hs with hs | hs <;> cases hs
  unsent hs := by
    obtain ⟨hp, hq, hseq, _⟩ := h.unsent hs
    exact ⟨hp, hq, hseq, .inr (.inr rfl)⟩
  packets := h.packets
  window := Nat.le_trans (Nat.le_add_right _ _) h.window

theorem Carried.sent_ne (h : Carried id chunks b) (hstate : b.state ≠ .attaching ∧ b.state ≠ .starting ∧ b.state ≠ .over) :
    b.sent ≠ [] := by
  intro hnil
  obtain ⟨-, -, -, hs | hs | hs⟩ := h.unsent hnil
  · exact hstate.1 hs
  · exact hstate.2.1 hs
  · exact hstate.2.2 hs

theorem carried_forward (h : Carried id chunks b) {left : Nat} (hstate : b.state = .sending (left + 1)) (delivered : Bool)
    {first : List UInt8} {queue : List (List UInt8)} (hqueue : b.pending.toList ++ b.queue = first :: queue) :
    Carried id chunks (b.forward id left delivered first queue) := by
  have hsent : b.sent ≠ [] := h.sent_ne (by rw [hstate]; simp)
  obtain ⟨groups, hpackets, hchunks, hfits, hseq⟩ := h.packets hsent
  obtain ⟨group, hbatch, hgroup, hrest⟩ := drainOutputBatch_spec first queue
  unfold forward
  cases delivered with
  | false => exact carried_stop h
  | true =>
    have hnumber : saturatingSucc b.sequence = numbered (groups.length + 1) := by rw [hseq, saturatingSucc_numbered]
    refine ⟨?_, ?_, ?_, ?_⟩
    · intro hs
      simp only [if_true] at hs
      split at hs <;> rcases hs with hs | hs <;> cases hs
    · intro hs
      simp at hs
    · intro _
      refine ⟨groups ++ [group], ?_, ?_, ?_, ?_⟩
      · simp only [if_true]
        rw [hpackets, packetsOf_concat, hnumber, hbatch]
      · simp only [if_true]
        rw [List.append_assoc, ← hchunks, List.flatten_append, List.flatten_singleton, List.append_assoc, List.append_assoc]
        rw [hqueue, ← hrest, List.append_assoc]
      · intro g hg
        rcases List.mem_append.mp hg with hg | hg
        · exact hfits g hg
        · rw [List.mem_singleton.mp hg]
          exact hgroup
      · simp only [if_true]
        rw [hnumber, List.length_append, List.length_singleton]
    · have hwindow := h.window
      have hone : ((b.sent ++ [packet id (saturatingSucc b.sequence) (drainOutputBatch first queue).1]).filter
          (behind b.acked)).length ≤ b.unacked.length + 1 := by
        rw [List.filter_append, List.length_append]
        exact Nat.add_le_add_left (List.length_filter_le _ _) _
      simp only [allowance, hstate] at hwindow
      simp only [if_true, unacked, allowance]
      split
      · rename_i left' hleft
        split at hleft
        · cases hleft
        · cases hleft
          omega
      · omega

theorem carried_turn (h : Carried id chunks b) (delivered : Bool) : Carried id chunks (b.turn id delivered) := by
  unfold turn
  split
  · rename_i hstate
    have hnil := h.early (.inr hstate)
    obtain ⟨hp, hq, hseq, _⟩ := h.unsent hnil
    split
    · refine ⟨?_, ?_, ?_, ?_⟩
      · intro hs
        rcases hs with hs | hs <;> cases hs
      · intro hs
        simp at hs
      · intro _
        refine ⟨[], ?_, ?_, by simp, ?_⟩
        · simp only [hnil, hseq, List.nil_append]
          rfl
        · simpa [hp] using hq
        · exact hseq
      · simp only [unacked, allowance, hnil, List.nil_append, outputPacketWindow]
        have := List.length_filter_le (behind b.acked) [packet id b.sequence b.snapshot]
        simp only [List.length_singleton] at this
        omega
    · exact carried_stop h
  · rename_i hstate
    have hsent : b.sent ≠ [] := h.sent_ne (by rw [hstate]; simp)
    split
    · rename_i ack hslot
      split
      · rename_i hack
        refine ⟨?_, fun hnil => absurd hnil hsent, h.packets, ?_⟩
        · intro hs
          rcases hs with hs | hs <;> cases hs
        · -- everything sent so far is acknowledged
          obtain ⟨groups, hpackets, -, -, hseq⟩ := h.packets hsent
          have hnone : b.sent.filter (behind (some ack)) = [] := by
            apply List.filter_eq_nil_iff.mpr
            intro p hp
            rw [hpackets] at hp
            have hle := sequence_le hp
            rw [← hseq, ← hack] at hle
            simpa [behind] using hle
          simp only [unacked, allowance, hnone, List.length_nil]
          omega
      · exact carried_stop h
    · exact h
  · rename_i hstate
    have hsent : b.sent ≠ [] := h.sent_ne (by rw [hstate]; simp)
    refine ⟨?_, fun hnil => absurd hnil hsent, h.packets, ?_⟩
    · intro hs
      rcases hs with hs | hs <;> cases hs
    · have hwindow := h.window
      simp only [allowance, hstate] at hwindow
      exact hwindow
  · rename_i left hstate
    split
    · rename_i first hpending
      exact carried_forward h hstate delivered (by rw [hpending]; rfl)
    · rename_i first queue hpending hqueue
      exact carried_forward h hstate delivered (by rw [hpending, hqueue]; rfl)
    · split
      · exact carried_stop h
      · exact h
  · exact h

theorem carried_timedOut (h : Carried id chunks b) : Carried id chunks b.timedOut := by
  unfold timedOut
  split
  · exact carried_stop h
  · exact h

theorem carried_attachFailed (h : Carried id chunks b) : Carried id chunks b.attachFailed := by
  unfold attachFailed
  split
  · exact carried_stop h
  · exact h

theorem carried_attached (h : Carried id chunks b) (snapshot : List UInt8) : Carried id chunks (b.attached snapshot) := by
  unfold attached
  split
  · rename_i hstate
    have hnil := h.early (.inl hstate)
    obtain ⟨hp, hq, hseq, _⟩ := h.unsent hnil
    refine ⟨fun _ => hnil, fun _ => ⟨hp, hq, hseq, .inr (.inl rfl)⟩, fun hne => absurd hnil hne, ?_⟩
    exact Nat.le_trans (Nat.le_add_right _ _) h.window
  · exact h

theorem carried_chunk (h : Carried id chunks b) (bytes : List UInt8) :
    Carried id (chunks ++ [bytes]) { b with queue := b.queue ++ [bytes] } where
  early := h.early
  unsent hs := by
    obtain ⟨hp, hq, hseq, hstate⟩ := h.unsent hs
    exact ⟨hp, by rw [hq], hseq, hstate⟩
  packets hs := by
    obtain ⟨groups, hpackets, hchunks, hrest⟩ := h.packets hs
    exact ⟨groups, hpackets, by rw [← List.append_assoc, hchunks], hrest⟩
  window := h.window

/-- The flags and queues that the task's packets do not depend on. -/
theorem Carried.congr (h : Carried id chunks b) {sinkClosed : Bool} {slot : Option Nat} {acknowledged : List Nat} :
    Carried id chunks { b with sinkClosed := sinkClosed, slot := slot, acknowledged := acknowledged } :=
  ⟨h.early, h.unsent, h.packets, h.window⟩

/-! ## A webview that acknowledges what it is asked to -/

/-- A packet that asks for it was sent, and was not acknowledged before. -/
def due (b : Bridge) (sequence : Nat) : Bool :=
  !b.acknowledged.contains sequence && b.sent.any fun p => p.requiresAck && p.sequence == sequence

/-- What then holds while the task runs. -/
structure Prompt (b : Bridge) : Prop where
  settled : b.state ≠ .waiting → b.state ≠ .over →
    b.slot = none ∧ ∀ p ∈ b.sent, p.requiresAck = true → p.sequence ∈ b.acknowledged
  waits : b.state = .waiting → (∀ p ∈ b.sent, p.requiresAck = true → p.sequence ∈ b.acknowledged ∨ p.sequence = b.sequence) ∧
    ∀ a, b.slot = some a → a = b.sequence ∧ a ∈ b.acknowledged

theorem prompt_start : Prompt start where
  settled _ _ := ⟨rfl, by simp [start]⟩
  waits h := by cases h

theorem prompt_over (h : b.state = .over) : Prompt b where
  settled _ hno := absurd h hno
  waits hw := by
    rw [h] at hw
    cases hw

theorem prompt_forward (h : Prompt b) {left left' : Nat} (hstate : b.state = .sending left') (delivered : Bool)
    (first : List UInt8) (queue : List (List UInt8)) : Prompt (b.forward id left delivered first queue) := by
  obtain ⟨hslot, hsent⟩ := h.settled (by rw [hstate]; simp) (by rw [hstate]; simp)
  unfold forward
  cases delivered with
  | false => exact prompt_over rfl
  | true =>
    refine ⟨?_, ?_⟩
    · intro hwaiting hover
      refine ⟨hslot, fun p hp hreq => ?_⟩
      simp only [if_true, List.mem_append, List.mem_singleton] at hp
      rcases hp with hp | rfl
      · exact hsent p hp hreq
      · exact absurd (if_pos hreq) hwaiting
    · intro _
      refine ⟨fun p hp hreq => ?_, fun a ha => ?_⟩
      · simp only [if_true, List.mem_append, List.mem_singleton] at hp
        rcases hp with hp | rfl
        · exact .inl (hsent p hp hreq)
        · exact .inr rfl
      · simp only [if_true, hslot] at ha
        cases ha

theorem prompt_turn (h : Prompt b) (delivered : Bool) : Prompt (b.turn id delivered) := by
  unfold turn
  split
  · rename_i hstate
    obtain ⟨hslot, hsent⟩ := h.settled (by rw [hstate]; simp) (by rw [hstate]; simp)
    split
    · refine ⟨fun hno => absurd rfl hno, fun _ => ⟨fun p hp hreq => ?_, fun a ha => ?_⟩⟩
      · simp only [List.mem_append, List.mem_singleton] at hp
        rcases hp with hp | rfl
        · exact .inl (hsent p hp hreq)
        · exact .inr rfl
      · rw [hslot] at ha
        cases ha
    · exact prompt_over rfl
  · rename_i hstate
    obtain ⟨hsent, htaken⟩ := h.waits hstate
    split
    · rename_i ack hslot
      split
      · -- the acknowledgement in the slot is that of the last packet
        obtain ⟨hack, hmem⟩ := htaken ack hslot
        refine ⟨fun _ _ => ⟨rfl, fun p hp hreq => ?_⟩, fun hno => by cases hno⟩
        rcases hsent p hp hreq with hp | hp
        · exact hp
        · rw [hp, ← hack]
          exact hmem
      · exact prompt_over rfl
    · exact h
  · rename_i hstate
    obtain ⟨hslot, hsent⟩ := h.settled (by rw [hstate]; simp) (by rw [hstate]; simp)
    refine ⟨fun hno => absurd rfl hno, fun _ => ⟨fun p hp hreq => .inl (hsent p hp hreq), fun a ha => ?_⟩⟩
    rw [hslot] at ha
    cases ha
  · rename_i left hstate
    split
    · exact prompt_forward h hstate delivered _ _
    · exact prompt_forward h hstate delivered _ _
    · split
      · exact prompt_over rfl
      · exact h
  · exact h

/-- An acknowledgement that is due finds the slot free, and leaves it as it should be. -/
theorem prompt_due (h : Prompt b) (hover : b.state ≠ .over) {sequence : Nat} (hdue : b.due sequence = true) :
    b.slot = none ∧ Prompt { b with acknowledged := b.acknowledged ++ [sequence], slot := some sequence } := by
  simp only [due, Bool.and_eq_true, Bool.not_eq_true', List.any_eq_true, List.contains_eq_mem, decide_eq_false_iff_not,
    beq_iff_eq] at hdue
  obtain ⟨hnew, p, hp, hreq, rfl⟩ := hdue
  have hwaiting : b.state = .waiting := by
    by_contra hno
    exact hnew ((h.settled hno hover).2 p hp hreq)
  obtain ⟨hsent, htaken⟩ := h.waits hwaiting
  have hlast : p.sequence = b.sequence := by
    rcases hsent p hp hreq with hmem | hlast
    · exact absurd hmem hnew
    · exact hlast
  constructor
  · cases hslot : b.slot with
    | none => rfl
    | some a =>
      obtain ⟨hack, hmem⟩ := htaken a hslot
      rw [hack, ← hlast] at hmem
      exact absurd hmem hnew
  · refine ⟨fun hno => absurd hwaiting hno, fun _ => ⟨fun q hq hreq' => ?_, fun a ha => ?_⟩⟩
    · rcases hsent q hq hreq' with hmem | hlast'
      · exact .inl (List.mem_append_left _ hmem)
      · exact .inr hlast'
    · cases ha
      exact ⟨hlast, List.mem_append_right _ (List.mem_singleton_self _)⟩

theorem prompt_timedOut (h : Prompt b) : Prompt b.timedOut := by
  unfold timedOut
  split
  · exact prompt_over rfl
  · exact h

theorem prompt_attachFailed (h : Prompt b) : Prompt b.attachFailed := by
  unfold attachFailed
  split
  · exact prompt_over rfl
  · exact h

theorem prompt_attached (h : Prompt b) (snapshot : List UInt8) : Prompt (b.attached snapshot) := by
  unfold attached
  split
  · rename_i hstate
    obtain ⟨hslot, hsent⟩ := h.settled (by rw [hstate]; simp) (by rw [hstate]; simp)
    exact ⟨fun _ _ => ⟨hslot, hsent⟩, fun hno => by cases hno⟩
  · exact h

/-- What the sink holds does not matter to it. -/
theorem Prompt.congr (h : Prompt b) {sinkClosed : Bool} {queue : List (List UInt8)} :
    Prompt { b with sinkClosed := sinkClosed, queue := queue } :=
  ⟨h.settled, h.waits⟩

/-! ## The end of a task -/

theorem turn_over (h : b.state = .over) (delivered : Bool) : (b.turn id delivered).state = .over := by
  rw [turn, h]
  exact h

theorem timedOut_over (h : b.state = .over) : b.timedOut.state = .over := by
  rw [timedOut, h]
  exact h

theorem attached_over (h : b.state = .over) (snapshot : List UInt8) : (b.attached snapshot).state = .over := by
  rw [attached, h]
  exact h

theorem attachFailed_over (h : b.state = .over) : b.attachFailed.state = .over := by
  rw [attachFailed, h]
  exact h

end Bridge

/-! ## Runs -/

namespace Bridges

/-- The registry holds the attachments that are not over, and no more than may be. -/
structure Registered (s : Bridges) : Prop where
  nodup : s.acks.entries.Nodup
  mem : ∀ id, id ∈ s.acks.entries ↔ ∃ b, s.bridges.lookup id = some b ∧ b.state ≠ .over
  fresh : ∀ id, s.acks.nextId ≤ id → s.bridges.lookup id = none
  bounded : s.acks.entries.length ≤ maxActiveOutputAcks

variable {s : Bridges} {id : Nat} {old b : Bridge}

theorem lookup_put (hold : s.bridges.lookup id = some old) (b : Bridge) (a : Nat) :
    (s.put id b).bridges.lookup a = if a = id then some b else s.bridges.lookup a := by
  unfold put
  by_cases ha : a = id
  · rw [if_pos ha, ha, Table.lookup_adjust_same, hold, Option.map_some]
  · rw [if_neg ha, Table.lookup_adjust_ne _ _ ha]

theorem nextId_put (s : Bridges) (id : Nat) (b : Bridge) : (s.put id b).acks.nextId = s.acks.nextId := by
  unfold put
  dsimp only
  split <;> rfl

theorem registered_put (h : Registered s) (hold : s.bridges.lookup id = some old) (hover : old.state = .over → b.state = .over) :
    Registered (s.put id b) := by
  have hentries : (s.put id b).acks.entries = if b.state = .over then s.acks.entries.erase id else s.acks.entries := by
    unfold put
    dsimp only
    split <;> rfl
  refine ⟨?_, ?_, ?_, ?_⟩
  · rw [hentries]
    split
    · exact h.nodup.erase id
    · exact h.nodup
  · intro a
    rw [hentries, lookup_put hold]
    by_cases ha : a = id
    · subst ha
      rw [if_pos rfl]
      split
      · rename_i hend
        constructor
        · intro hmem
          exact absurd hmem (h.nodup.not_mem_erase)
        · rintro ⟨b', hb', hrun⟩
          cases hb'
          exact absurd hend hrun
      · rename_i hrun
        constructor
        · intro _
          exact ⟨b, rfl, hrun⟩
        · intro _
          exact (h.mem a).mpr ⟨old, hold, fun hend => hrun (hover hend)⟩
    · rw [if_neg ha, ← h.mem a]
      split
      · exact List.mem_erase_of_ne ha
      · exact Iff.rfl
  · intro a ha
    rw [nextId_put] at ha
    have hnone := h.fresh a ha
    rw [lookup_put hold, if_neg, hnone]
    intro heq
    rw [heq, hold] at hnone
    cases hnone
  · rw [hentries]
    split
    · exact Nat.le_trans List.length_erase_le h.bounded
    · exact h.bounded

theorem registered_register (h : Registered s) : Registered s.register.1 := by
  unfold register
  split
  · exact h
  · rename_i hroom
    have hnew : s.acks.nextId ∉ s.acks.entries := by
      intro hmem
      obtain ⟨b, hb, _⟩ := (h.mem _).mp hmem
      rw [h.fresh _ (Nat.le_refl _)] at hb
      cases hb
    refine ⟨List.nodup_cons.mpr ⟨hnew, h.nodup⟩, ?_, ?_, ?_⟩
    · intro a
      dsimp only
      by_cases ha : a = s.acks.nextId
      · rw [ha, AList.lookup_insert]
        exact ⟨fun _ => ⟨Bridge.start, rfl, by simp [Bridge.start]⟩, fun _ => List.mem_cons_self⟩
      · rw [AList.lookup_insert_ne ha, ← h.mem a]
        simp [ha]
    · intro a ha
      dsimp only at ha ⊢
      rw [AList.lookup_insert_ne (by omega)]
      exact h.fresh a (by omega)
    · simp only [List.length_cons]
      omega

/-- What holds after a run. -/
structure Wired (tr : List (BridgeInput × BridgeReply)) (s : Bridges) : Prop where
  registered : Registered s
  unknown : ∀ id, s.bridges.lookup id = none → chunksOf id tr = []
  carried : ∀ id b, s.bridges.lookup id = some b → b.Carried id (chunksOf id tr)

variable {tr : List (BridgeInput × BridgeReply)} {e : BridgeInput × BridgeReply}

theorem chunksOf_concat (id : Nat) (tr : List (BridgeInput × BridgeReply)) (e : BridgeInput × BridgeReply) :
    chunksOf id (tr ++ [e]) = chunksOf id tr ++ chunksOf id [e] := List.filterMap_append

/-- A step that leaves the attachments alone. -/
theorem Wired.same (h : Wired tr s) (hnone : ∀ a, chunksOf a [e] = []) : Wired (tr ++ [e]) s where
  registered := h.registered
  unknown a ha := by rw [chunksOf_concat, hnone, List.append_nil, h.unknown a ha]
  carried a b hb := by
    rw [chunksOf_concat, hnone, List.append_nil]
    exact h.carried a b hb

/-- A step of one attachment, whose sink alone may take something. -/
theorem Wired.put (h : Wired tr s) (hold : s.bridges.lookup id = some old) (hover : old.state = .over → b.state = .over)
    (hothers : ∀ a, a ≠ id → chunksOf a [e] = [])
    (hb : old.Carried id (chunksOf id tr) → b.Carried id (chunksOf id tr ++ chunksOf id [e])) :
    Wired (tr ++ [e]) (s.put id b) := by
  refine ⟨registered_put h.registered hold hover, ?_, ?_⟩
  · intro a ha
    rw [lookup_put hold] at ha
    split at ha
    · cases ha
    · rename_i hne
      rw [chunksOf_concat, hothers a hne, List.append_nil, h.unknown a ha]
  · intro a c hc
    rw [lookup_put hold] at hc
    rw [chunksOf_concat]
    split at hc
    · rename_i heq
      cases hc
      rw [heq]
      exact hb (h.carried id old hold)
    · rename_i hne
      rw [hothers a hne, List.append_nil]
      exact h.carried a c hc

/-- A move of an attachment that its chunks have no part in. -/
theorem Wired.move (h : Wired tr s) (id : Nat) {f : Bridge → Bridge} (hnone : ∀ a, chunksOf a [e] = [])
    (hover : ∀ b, b.state = .over → (f b).state = .over)
    (hf : ∀ chunks b, Bridge.Carried id chunks b → (f b).Carried id chunks) : Wired (tr ++ [e]) (s.move id f) := by
  unfold Bridges.move
  cases hold : s.bridges.lookup id with
  | none => exact h.same hnone
  | some old =>
    refine h.put hold (hover old) (fun a _ => hnone a) fun hc => ?_
    rw [hnone, List.append_nil]
    exact hf _ _ hc

theorem wired_register (h : Wired tr s) : Wired (tr ++ [(.attachShell, s.register.2)]) s.register.1 := by
  have hnone : ∀ a r, chunksOf a [(.attachShell, r)] = [] := fun _ _ => rfl
  refine ⟨registered_register h.registered, ?_, ?_⟩
  · intro a ha
    rw [chunksOf_concat, hnone, List.append_nil]
    apply h.unknown
    unfold register at ha
    split at ha
    · exact ha
    · dsimp only at ha
      by_cases heq : a = s.acks.nextId
      · rw [heq, AList.lookup_insert] at ha
        cases ha
      · rw [AList.lookup_insert_ne heq] at ha
        exact ha
  · intro a b hb
    rw [chunksOf_concat, hnone, List.append_nil]
    unfold register at hb
    split at hb
    · exact h.carried a b hb
    · dsimp only at hb
      by_cases heq : a = s.acks.nextId
      · rw [heq, AList.lookup_insert] at hb
        cases hb
        rw [h.unknown a (h.registered.fresh a (Nat.le_of_eq heq.symm))]
        exact Bridge.carried_start a
      · rw [AList.lookup_insert_ne heq] at hb
        exact h.carried a b hb

theorem wired_offer (h : Wired tr s) (id : Nat) (bytes : List UInt8) :
    Wired (tr ++ [(.chunk id bytes, (s.offer id bytes).2)]) (s.offer id bytes).1 := by
  unfold offer
  cases hold : s.bridges.lookup id with
  | none => exact h.same fun _ => rfl
  | some old =>
    by_cases htakes : old.takesChunks = true
    · simp only [htakes, if_true]
      refine h.put hold (fun hend => hend) ?_ fun hc => ?_
      · intro a hne
        simp [chunksOf, Ne.symm hne]
      · have hone : chunksOf id [(.chunk id bytes, .accepted)] = [bytes] := by simp [chunksOf]
        rw [hone]
        exact Bridge.carried_chunk hc bytes
    · simp only [htakes, Bool.false_eq_true, if_false]
      exact h.same fun _ => rfl

theorem wired_acknowledge (h : Wired tr s) (id sequence : Nat) :
    Wired (tr ++ [(.ack id sequence, (s.acknowledge id sequence).2)]) (s.acknowledge id sequence).1 := by
  have hput : ∀ {old b : Bridge} {r : BridgeReply}, s.bridges.lookup id = some old →
      (old.state = .over → b.state = .over) → (∀ chunks, old.Carried id chunks → b.Carried id chunks) →
      Wired (tr ++ [(.ack id sequence, r)]) (s.put id b) := by
    intro old b r hold hover hb
    refine h.put hold hover (fun _ _ => rfl) fun hc => ?_
    rw [show chunksOf id [(.ack id sequence, r)] = [] from rfl, List.append_nil]
    exact hb _ hc
  unfold acknowledge
  cases hold : s.bridges.lookup id with
  | none => exact h.same fun _ => rfl
  | some old =>
    dsimp only
    split
    · exact hput hold (fun hend => hend) fun _ hc => hc.congr
    · split
      · exact hput hold (fun hend => hend) fun _ hc => hc.congr
      · exact hput hold (fun hend => hend) fun _ hc => hc.congr

theorem wired_next (tr : List (BridgeInput × BridgeReply)) (s : Bridges) (i : BridgeInput) (h : Wired tr s) :
    Wired (tr ++ [(i, machine.out s i)]) (machine.next s i) := by
  cases i with
  | attachShell => exact wired_register h
  | attached id snapshot =>
    exact h.move id (fun _ => rfl) (fun _ hend => Bridge.attached_over hend _) fun _ _ hc => Bridge.carried_attached hc _
  | attachFailed id =>
    exact h.move id (fun _ => rfl) (fun _ => Bridge.attachFailed_over) fun _ _ => Bridge.carried_attachFailed
  | chunk id bytes => exact wired_offer h id bytes
  | closeSink id => exact h.move id (fun _ => rfl) (fun _ hend => hend) fun _ _ hc => hc.congr
  | ack id sequence => exact wired_acknowledge h id sequence
  | turn id delivered =>
    exact h.move id (fun _ => rfl) (fun _ hend => Bridge.turn_over hend _) fun _ _ hc => Bridge.carried_turn hc _
  | timedOut id => exact h.move id (fun _ => rfl) (fun _ => Bridge.timedOut_over) fun _ _ => Bridge.carried_timedOut

theorem wired_start : Wired [] start where
  registered :=
    { nodup := List.nodup_nil
      mem := fun id => by simp [start]
      fresh := fun _ _ => rfl
      bounded := Nat.zero_le _ }
  unknown _ _ := rfl
  carried _ _ h := by cases h

theorem wired_run (inputs : List BridgeInput) : Wired (machine.trace start inputs) (machine.run start inputs) :=
  machine.trace_induction wired_start (fun tr s i h _ => wired_next tr s i h)
    (machine.admissible_true start inputs)

/-! ## The webview that acknowledges in time -/

/-- Every acknowledgement of the attachment is of a packet that was sent and asks for one, and is made once. -/
def Compliant (id : Nat) (s : Bridges) : BridgeInput → Prop
  | .ack id' sequence => id' = id → ((s.bridges.lookup id).map fun b => b.due sequence).getD false = true
  | _ => True

instance (id : Nat) (s : Bridges) : (i : BridgeInput) → Decidable (Compliant id s i)
  | .ack id' sequence =>
    inferInstanceAs (Decidable (id' = id → ((s.bridges.lookup id).map fun b => b.due sequence).getD false = true))
  | .attachShell => .isTrue trivial
  | .attached _ _ => .isTrue trivial
  | .attachFailed _ => .isTrue trivial
  | .chunk _ _ => .isTrue trivial
  | .closeSink _ => .isTrue trivial
  | .turn _ _ => .isTrue trivial
  | .timedOut _ => .isTrue trivial

/-- An acknowledgement of the attachment is accepted while its task runs. -/
def Heard (id : Nat) (s : Bridges) (i : BridgeInput) : Prop :=
  ∀ sequence, i = .ack id sequence → id ∈ s.acks.entries → machine.out s i = .accepted

structure Prompted (id : Nat) (s : Bridges) : Prop where
  registered : Registered s
  prompt : ∀ b, s.bridges.lookup id = some b → b.Prompt

theorem prompted_put {a : Nat} (h : Prompted id s) (hold : s.bridges.lookup a = some old)
    (hover : old.state = .over → b.state = .over) (hb : a = id → old.Prompt → b.Prompt) : Prompted id (s.put a b) := by
  refine ⟨registered_put h.registered hold hover, fun c hc => ?_⟩
  rw [lookup_put hold] at hc
  split at hc
  · rename_i heq
    cases hc
    exact hb heq.symm (h.prompt old (by rw [heq]; exact hold))
  · exact h.prompt c hc

theorem prompted_move (h : Prompted id s) (a : Nat) {f : Bridge → Bridge} (hover : ∀ b, b.state = .over → (f b).state = .over)
    (hf : ∀ b, Bridge.Prompt b → (f b).Prompt) : Prompted id (s.move a f) := by
  unfold Bridges.move
  cases hold : s.bridges.lookup a with
  | none => exact h
  | some old => exact prompted_put h hold (hover old) fun _ => hf old

theorem prompted_register (h : Prompted id s) : Prompted id s.register.1 := by
  refine ⟨registered_register h.registered, fun b hb => ?_⟩
  unfold register at hb
  split at hb
  · exact h.prompt b hb
  · dsimp only at hb
    by_cases heq : id = s.acks.nextId
    · rw [heq, AList.lookup_insert] at hb
      cases hb
      exact Bridge.prompt_start
    · rw [AList.lookup_insert_ne heq] at hb
      exact h.prompt b hb

theorem prompted_offer (h : Prompted id s) (a : Nat) (bytes : List UInt8) : Prompted id (s.offer a bytes).1 := by
  unfold offer
  cases hold : s.bridges.lookup a with
  | none => exact h
  | some old =>
    dsimp only
    split
    · exact prompted_put h hold (fun hend => hend) fun _ hp => hp.congr
    · exact h

theorem prompted_acknowledge (h : Prompted id s) {a sequence : Nat} (hc : Compliant id s (.ack a sequence)) :
    Heard id s (.ack a sequence) ∧ Prompted id (s.acknowledge a sequence).1 := by
  have hheard : ∀ {r : Bridges × BridgeReply}, s.acknowledge a sequence = r → (a = id → id ∈ s.acks.entries → r.2 = .accepted) →
      Heard id s (.ack a sequence) := by
    intro r hr hacc seq hseq hmem
    cases hseq
    exact (congrArg Prod.snd hr).trans (hacc rfl hmem)
  cases hold : s.bridges.lookup a with
  | none =>
    refine ⟨hheard rfl fun heq hmem => ?_, by rw [acknowledge, hold]; exact h⟩
    obtain ⟨b, hb, _⟩ := (h.registered.mem id).mp hmem
    rw [← heq, hold] at hb
    cases hb
  | some old =>
    by_cases hmem : a ∈ s.acks.entries
    · obtain ⟨b, hb, hover⟩ := (h.registered.mem a).mp hmem
      rw [hold] at hb
      cases hb
      cases hslot : old.slot with
      | none =>
        have hr : s.acknowledge a sequence =
            (s.put a { old with acknowledged := old.acknowledged ++ [sequence], slot := some sequence }, .accepted) := by
          simp only [acknowledge, hold, hmem, not_true_eq_false, if_false, hslot]
        rw [hr]
        refine ⟨hheard hr fun _ _ => rfl, prompted_put h hold (fun hend => hend) fun heq hp => ?_⟩
        have hdue := hc heq
        rw [← heq, hold] at hdue
        exact (Bridge.prompt_due hp hover hdue).2
      | some ack =>
        -- that is not what a compliant webview can find
        have hne : a ≠ id := by
          intro heq
          have hdue := hc heq
          rw [← heq, hold] at hdue
          have hfree := (Bridge.prompt_due (h.prompt old (by rw [← heq]; exact hold)) hover hdue).1
          rw [hslot] at hfree
          cases hfree
        refine ⟨hheard rfl fun heq => absurd heq hne, ?_⟩
        simp only [acknowledge, hold, hmem, not_true_eq_false, if_false, hslot]
        exact prompted_put h hold (fun hend => hend) fun heq => absurd heq hne
    · have hend : old.state = .over := by
        by_contra hrun
        exact hmem ((h.registered.mem a).mpr ⟨old, hold, hrun⟩)
      refine ⟨hheard rfl fun heq hin => absurd (heq ▸ hin) hmem, ?_⟩
      simp only [acknowledge, hold, hmem, not_false_eq_true, if_true]
      exact prompted_put h hold (fun hend => hend) fun _ _ => Bridge.prompt_over hend

theorem prompted_next (s : Bridges) (i : BridgeInput) (h : Prompted id s) (hc : Compliant id s i) :
    Heard id s i ∧ Prompted id (machine.next s i) := by
  cases i with
  | attachShell => exact ⟨fun _ hno => (by cases hno), prompted_register h⟩
  | attached a snapshot =>
    exact ⟨fun _ hno => (by cases hno), prompted_move h a (fun _ hend => Bridge.attached_over hend _) fun _ hp =>
      Bridge.prompt_attached hp _⟩
  | attachFailed a =>
    exact ⟨fun _ hno => (by cases hno), prompted_move h a (fun _ => Bridge.attachFailed_over) fun _ =>
      Bridge.prompt_attachFailed⟩
  | chunk a bytes => exact ⟨fun _ hno => (by cases hno), prompted_offer h a bytes⟩
  | closeSink a => exact ⟨fun _ hno => (by cases hno), prompted_move h a (fun _ hend => hend) fun _ hp => hp.congr⟩
  | ack a sequence => exact prompted_acknowledge h hc
  | turn a delivered =>
    exact ⟨fun _ hno => (by cases hno), prompted_move h a (fun _ hend => Bridge.turn_over hend _) fun _ hp =>
      Bridge.prompt_turn hp _⟩
  | timedOut a =>
    exact ⟨fun _ hno => (by cases hno), prompted_move h a (fun _ => Bridge.timedOut_over) fun _ => Bridge.prompt_timedOut⟩

theorem prompted_start (id : Nat) : Prompted id start := ⟨wired_start.registered, fun _ h => by cases h⟩

end Bridges

namespace Bridge.Carried

variable {id : Nat} {chunks : List (List UInt8)} {b : Bridge}

/-- The packets carry the snapshot and then a part of the chunks, in order. -/
theorem prefixed (h : Carried id chunks b) : (b.sent.map OutputPacket.data).flatten <+: b.snapshot ++ chunks.flatten := by
  by_cases hsent : b.sent = []
  · rw [hsent]
    exact List.nil_prefix
  · obtain ⟨groups, hpackets, hchunks, -, -⟩ := h.packets hsent
    have hdata : b.sent.map OutputPacket.data = b.snapshot :: groups.map List.flatten := by
      rw [hpackets, packetsOf]
      apply List.ext_getElem?
      intro i
      rw [List.getElem?_map, List.getElem?_mapIdx, Option.map_map]
      cases (b.snapshot :: groups.map List.flatten)[i]? <;> rfl
    rw [hdata, List.flatten_cons, ← hchunks, List.append_assoc, List.flatten_append, ← List.flatten_flatten]
    exact (List.prefix_append_right_inj _).mpr (List.prefix_append _ _)

/-- Packet `i` has the number `i`. -/
theorem numbering (h : Carried id chunks b) {i : Nat} {p : OutputPacket} (hp : b.sent[i]? = some p) :
    p.attachmentId = id ∧ p.sequence = numbered i ∧ p.requiresAck = outputPacketRequiresAck (numbered i) ∧
      (i = 0 → p.data = b.snapshot) ∧
      (0 < i → p.data.length ≤ outputBatchBytes ∨ p.data ∈ chunks) := by
  by_cases hsent : b.sent = []
  · rw [hsent] at hp
    cases hp
  · obtain ⟨groups, hpackets, hchunks, hfits, -⟩ := h.packets hsent
    rw [hpackets, packetsOf, List.getElem?_mapIdx, Option.map_eq_some_iff] at hp
    obtain ⟨data, hdata, rfl⟩ := hp
    refine ⟨rfl, rfl, rfl, ?_, ?_⟩
    · rintro rfl
      cases hdata
      rfl
    · intro hi
      obtain ⟨j, rfl⟩ := Nat.exists_eq_add_of_lt hi
      rw [Nat.zero_add, List.getElem?_cons_succ, List.getElem?_map, Option.map_eq_some_iff] at hdata
      obtain ⟨group, hgroup, rfl⟩ := hdata
      have hmem := List.mem_of_getElem? hgroup
      rcases hfits group hmem with hle | hone
      · exact .inl hle
      · right
        rw [← hchunks, List.append_assoc]
        exact List.mem_append_left _ (List.mem_flatten_of_mem hmem hone)

end Bridge.Carried

namespace Bridges

/-- Over every run: of each attachment, what its packets carry, their numbers and sizes, and how many of
    them are behind the last acknowledgement; what the registry holds; and, whatever else happens, a
    webview that acknowledges each packet that asks for it once is heard while the task runs. -/
theorem output_bridge (inputs : List BridgeInput) :
    (∀ id b, (machine.run start inputs).bridges.lookup id = some b →
      (b.sent.map OutputPacket.data).flatten <+: b.snapshot ++ (chunksOf id (machine.trace start inputs)).flatten ∧
      (∀ i p, b.sent[i]? = some p →
        p.attachmentId = id ∧ p.sequence = numbered i ∧ p.requiresAck = outputPacketRequiresAck (numbered i) ∧
          (i = 0 → p.data = b.snapshot) ∧
          (0 < i → p.data.length ≤ outputBatchBytes ∨ p.data ∈ chunksOf id (machine.trace start inputs))) ∧
      b.unacked.length ≤ outputPacketWindow) ∧
    ((∀ id, id ∈ (machine.run start inputs).acks.entries ↔
        ∃ b, (machine.run start inputs).bridges.lookup id = some b ∧ b.state ≠ .over) ∧
      (machine.run start inputs).acks.entries.Nodup ∧
      (machine.run start inputs).acks.entries.length ≤ maxActiveOutputAcks) ∧
    ∀ id, machine.Admissible (Compliant id) start inputs → machine.Admissible (Heard id) start inputs := by
  have h := wired_run inputs
  refine ⟨fun id b hb => ?_, ⟨h.registered.mem, h.registered.nodup, h.registered.bounded⟩, fun id hc => ?_⟩
  · have hcarried := h.carried id b hb
    exact ⟨hcarried.prefixed, fun i p hp => hcarried.numbering hp,
      Nat.le_trans (Nat.le_add_right _ _) hcarried.window⟩
  · exact machine.admissible_of_invariant prompted_next (prompted_start id) hc

/-- A snapshot, three chunks in two packets, and two acknowledgements. -/
theorem output_bridge_two :
    let inputs : List BridgeInput := [.attachShell, .attached 1 [1, 2], .chunk 1 [3], .chunk 1 [4, 5], .turn 1 true, .ack 1 0,
      .turn 1 true, .turn 1 true, .chunk 1 [6], .turn 1 true, .ack 1 2, .turn 1 true, .closeSink 1, .turn 1 true]
    ((machine.run start inputs).bridges.lookup 1).map Bridge.sent =
        some [⟨1, 0, true, [1, 2]⟩, ⟨1, 1, false, [3, 4, 5]⟩, ⟨1, 2, true, [6]⟩] ∧
      (machine.run start inputs).acks.entries.length ≤ maxActiveOutputAcks ∧ machine.Admissible (Heard 1) start inputs :=
  ⟨by decide, (output_bridge _).2.1.2.2, (output_bridge _).2.2 1 (by decide)⟩

/-- The snapshot is sent whole: a long one is longer than any other packet may be, and is no chunk of
    the sink. -/
theorem snapshot_exceeds :
    ¬ ∀ inputs id b, (machine.run start inputs).bridges.lookup id = some b →
      ∀ p ∈ b.sent, p.data.length ≤ outputBatchBytes ∨ p.data ∈ chunksOf id (machine.trace start inputs) := by
  intro h
  have hlong := h [.attachShell, .attached 1 (List.replicate 131073 0), .turn 1 true] 1
    ⟨.waiting, List.replicate 131073 0, [], false, none, 0, none, [⟨1, 0, true, List.replicate 131073 0⟩], none, []⟩ rfl
    ⟨1, 0, true, List.replicate 131073 0⟩ (List.mem_singleton_self _)
  rcases hlong with hlong | hlong
  · rw [List.length_replicate] at hlong
    exact absurd hlong (by decide)
  · cases hlong

end Bridges

end Holdfast.Desktop

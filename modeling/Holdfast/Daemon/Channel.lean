/-
  Holdfast.Daemon.Channel — an attachment's channel from the session's events to the
  bytes on its stream (`Conn::attach` of `crates/daemon/src/conn.rs`, the writer router
  and `WtChannelQueue` of `crates/daemon/src/webtransport.rs`).

  The forwarder thread takes events and hands messages to the connection's `out` queue,
  where the connection's own replies on the channel go too. The router encodes them one
  by one into the channel's bounded queue, and the channel's writer puts them on the
  stream. A queue that overflows throws its frames away for one ERR_TOO_SLOW and ends the
  stream behind it; a connection that ends closes every queue, and one that is lost cuts
  the stream wherever it is. The end of the stream is a frame of its own here (`fin`).

  How long a message's encoding is, is a parameter.

  Proved:
  - `ahead_kept`: what is on its way is delivered, or the stream ends.
  - `stopped_step`: a step that stops the feed puts its reason on the way.
-/

import Holdfast.Daemon.Forwarder

namespace Holdfast.Daemon

open Holdfast.Session

/-! ## The queue of a channel -/

def frameBytesDefault : Nat := 256 * 1024

def lengthPrefixBytes : Nat := 4

def channelQueueMessages : Nat := 128

def channelQueueBytes : Nat := 1024 * 1024

def overloadFrame : Msg := .error .errTooSlow "attachment output exceeded its bounded transport queue" true

/-- `frames` is what the writer has not taken yet. -/
structure WtChannelQueue where
  frames : List Msg
  bytes : Nat
  closing : Bool
  deriving DecidableEq, Repr

namespace WtChannelQueue

def new : WtChannelQueue := ⟨[], 0, false⟩

variable (encodedLen : Msg → Nat)

def frameLen (m : Msg) : Nat := lengthPrefixBytes + encodedLen m

def push (q : WtChannelQueue) (frame : Msg) : WtChannelQueue :=
  if q.closing then q
  else if q.frames.length ≥ channelQueueMessages ∨ frameLen encodedLen frame > channelQueueBytes - q.bytes then
    -- obsolete redraws are disposable: say so, then end the stream
    ⟨[overloadFrame], frameLen encodedLen overloadFrame, true⟩
  else ⟨q.frames ++ [frame], q.bytes + frameLen encodedLen frame, false⟩

def close (q : WtChannelQueue) : WtChannelQueue := { q with closing := true }

/-- `encode_frame`, then `push`: a message over the frame bound is dropped. -/
def route (q : WtChannelQueue) (m : Msg) : WtChannelQueue :=
  if encodedLen m > frameBytesDefault then q else q.push encodedLen m

theorem push_cases (q : WtChannelQueue) (m : Msg) :
    (q.push encodedLen m).closing = true ∨
      q.closing = false ∧ (q.push encodedLen m).closing = false ∧ (q.push encodedLen m).frames = q.frames ++ [m] := by
  unfold push
  split
  · rename_i h; exact .inl h
  · rename_i h
    split
    · exact .inl rfl
    · exact .inr ⟨by simpa using h, rfl, rfl⟩

theorem push_closing {q : WtChannelQueue} (h : q.closing = true) (m : Msg) : q.push encodedLen m = q := by
  unfold push
  rw [if_pos h]

end WtChannelQueue

/-! ## The channel -/

inductive Frame where
  | msg (m : Msg)
  /-- The end of the stream, however it came. -/
  | fin
  deriving DecidableEq, Repr

structure Channel where
  /-- The attachment's events that the forwarder has not taken. -/
  events : List AttachmentEvent
  /-- Session-core let go of the sender. -/
  released : Bool
  forwarder : Forwarder
  /-- The forwarder thread is there. -/
  forwarding : Bool
  out : List Msg
  /-- The connection is gone: `out` has no receiver. -/
  outClosed : Bool
  queue : WtChannelQueue
  /-- On the stream, not yet read. -/
  wire : List Frame
  finished : Bool
  deriving DecidableEq, Repr

inductive ChannelOp where
  | emit (ev : AttachmentEvent)
  | release
  | forward
  | finish
  /-- Anything else the connection sends on the channel: pings, history, errors. -/
  | reply (m : Msg)
  | route
  | write
  /-- The connection ends in good order. -/
  | hangUp
  /-- The connection is lost with all but `n` of the frames on the stream. -/
  | cut (n : Nat)
  deriving DecidableEq, Repr

namespace Channel

def new : Channel := ⟨[], false, .start, true, [], false, .new, [], false⟩

variable (encodedLen : Msg → Nat)

/-- With the connection gone, the thread's `blocking_send` fails and it ends. -/
def forward (c : Channel) : Channel :=
  match c.forwarding, c.events with
  | true, ev :: events =>
    if c.outClosed then { c with events := events, forwarding := false }
    else { c with events := events, forwarder := c.forwarder.event ev, out := c.out ++ [messageOf ev] }
  | _, _ => c

/-- The event channel is empty and closed. -/
def atEnd (c : Channel) : Bool := c.forwarding && c.events.isEmpty && c.released

def finish (c : Channel) : Channel :=
  if c.atEnd then
    if c.forwarder.exited || c.outClosed then { c with forwarding := false }
    else { c with forwarding := false, forwarder := c.forwarder.closed, out := c.out ++ [tooSlow] }
  else c

def isReply : Msg → Bool
  | .terminalOutput _ | .shellExited _ _ => false
  | _ => true

def write (c : Channel) : Channel :=
  if c.finished then c
  else match c.queue.frames with
    | m :: frames =>
      { c with
        queue := { c.queue with frames := frames, bytes := c.queue.bytes - WtChannelQueue.frameLen encodedLen m }
        wire := c.wire ++ [.msg m] }
    | [] => if c.queue.closing then { c with wire := c.wire ++ [.fin], finished := true } else c

def step (c : Channel) : ChannelOp → Channel
  | .emit ev => if c.released then c else { c with events := c.events ++ [ev] }
  | .release => { c with released := true }
  | .forward => c.forward
  | .finish => c.finish
  | .reply m => if isReply m && !c.outClosed then { c with out := c.out ++ [m] } else c
  | .route =>
    match c.out with
    | m :: out => { c with out := out, queue := c.queue.route encodedLen m }
    | [] => c
  | .write => c.write encodedLen
  | .hangUp => { c with out := [], outClosed := true, queue := c.queue.close }
  | .cut n => { c with wire := c.wire.take n ++ [.fin], out := [], outClosed := true, finished := true }

/-- Everything on its way to the reader. -/
def ahead (c : Channel) : List Frame :=
  if c.finished then c.wire
  else c.wire ++ c.queue.frames.map .msg ++ if c.queue.closing then [.fin] else c.out.map .msg

/-- The server will feed this attachment no more: it sent the exit, its forwarder ended,
    or the stream is closing, or over. -/
def stopped (c : Channel) : Bool :=
  c.forwarder.exited || !c.forwarding || c.outClosed || c.queue.closing || c.finished

/-- The client takes the next frame off the stream. -/
def take (c : Channel) : Option Frame × Channel :=
  match c.wire with
  | f :: wire => (some f, { c with wire := wire })
  | [] => (none, c)

/-! ## What is ahead -/

variable {encodedLen}

theorem mem_ahead {c : Channel} {f : Frame} :
    f ∈ c.ahead ↔ f ∈ c.wire ∨ c.finished = false ∧
      (f ∈ c.queue.frames.map .msg ∨ c.queue.closing = true ∧ f = .fin ∨
        c.queue.closing = false ∧ f ∈ c.out.map .msg) := by
  unfold ahead
  cases c.finished <;> cases c.queue.closing <;> simp

theorem take_ahead {c : Channel} {f : Frame} (h : c.take.1 = some f) : c.ahead = f :: c.take.2.ahead := by
  unfold take at h ⊢
  split at h
  · rename_i g wire hw
    cases h
    simp only [ahead, hw]
    split <;> simp
  · cases h

theorem take_head {c : Channel} {f : Frame} (h : c.take.1 = some f) : c.wire.head? = some f := by
  unfold take at h
  split at h
  · rename_i g wire hw
    cases h
    rw [hw]; rfl
  · cases h

@[simp] theorem take_stopped (c : Channel) : c.take.2.stopped = c.stopped := by
  unfold take
  split <;> rfl

/-- A step that leaves the stream, the queue and the outcome alone only adds. -/
theorem ahead_grows {c c' : Channel} {f : Frame} (hf : f ∈ c.ahead) (hwire : c'.wire = c.wire)
    (hfin : c'.finished = c.finished) (hqueue : c'.queue = c.queue) (hout : c.out <+: c'.out) : f ∈ c'.ahead := by
  rw [mem_ahead] at hf ⊢
  rw [hwire, hfin, hqueue]
  rcases hf with h | ⟨h, h' | h' | ⟨hclosing, h'⟩⟩
  · exact .inl h
  · exact .inr ⟨h, .inl h'⟩
  · exact .inr ⟨h, .inr (.inl h')⟩
  · exact .inr ⟨h, .inr (.inr ⟨hclosing, (hout.map _).subset h'⟩)⟩

theorem closing_ahead {c : Channel} (h : c.queue.closing = true) (hfin : c.finished = false) : .fin ∈ c.ahead :=
  mem_ahead.mpr (.inr ⟨hfin, .inr (.inl ⟨h, rfl⟩)⟩)

theorem route_kept {c : Channel} {f : Frame} (hf : f ∈ c.ahead)
    (hlen : ∀ m, f = .msg m → encodedLen m ≤ frameBytesDefault) :
    f ∈ (c.step encodedLen .route).ahead ∨ .fin ∈ (c.step encodedLen .route).ahead := by
  simp only [step]
  cases hout : c.out with
  | nil => exact .inl hf
  | cons m out =>
    simp only
    unfold WtChannelQueue.route
    cases hfin : c.finished with
    | true =>
      left
      rw [mem_ahead] at hf ⊢
      simp only [hfin] at hf ⊢
      simpa using hf
    | false =>
      cases hclosing : c.queue.closing with
      | true =>
        refine .inr (closing_ahead ?_ rfl)
        split
        · exact hclosing
        · rw [WtChannelQueue.push_closing encodedLen hclosing]; exact hclosing
      | false =>
        rw [mem_ahead, hfin, hclosing, hout] at hf
        split
        · -- too long to send, so it was not `f`
          rename_i hlong
          left
          rw [mem_ahead]
          simp only [hclosing]
          rcases hf with h | ⟨-, h | ⟨hno, -⟩ | ⟨-, h⟩⟩
          · exact .inl h
          · exact .inr ⟨trivial, .inl h⟩
          · cases hno
          · rcases List.mem_cons.mp h with rfl | h
            · have := hlen m rfl
              omega
            · exact .inr ⟨trivial, .inr (.inr ⟨trivial, h⟩)⟩
        · rcases c.queue.push_cases encodedLen m with h' | ⟨-, hopen, hframes⟩
          · exact .inr (closing_ahead h' rfl)
          · left
            rw [mem_ahead]
            simp only [hopen, hframes, List.map_append, List.mem_append]
            rcases hf with h | ⟨-, h | ⟨hno, -⟩ | ⟨-, h⟩⟩
            · exact .inl h
            · exact .inr ⟨trivial, .inl (.inl h)⟩
            · cases hno
            · rcases List.mem_cons.mp h with rfl | h
              · exact .inr ⟨trivial, .inl (.inr (List.mem_singleton.mpr rfl))⟩
              · exact .inr ⟨trivial, .inr (.inr ⟨trivial, h⟩)⟩

theorem write_kept {c : Channel} {f : Frame} (hf : f ∈ c.ahead) : f ∈ (c.write encodedLen).ahead := by
  unfold write
  split
  · exact hf
  · rename_i hfin
    have hfin : c.finished = false := by simpa using hfin
    rw [mem_ahead, hfin] at hf
    split
    · rename_i m frames hframes
      rw [hframes] at hf
      rw [mem_ahead]
      simp only [hfin, List.mem_append, List.mem_singleton]
      rcases hf with h | ⟨-, h | h⟩
      · exact .inl (.inl h)
      · rcases List.mem_cons.mp h with rfl | h
        · exact .inl (.inr rfl)
        · exact .inr ⟨trivial, .inl h⟩
      · exact .inr ⟨trivial, .inr h⟩
    · rename_i hframes
      split
      · rename_i hclosing
        rw [hframes, hclosing] at hf
        rw [mem_ahead]
        left
        rcases hf with h | ⟨-, h | ⟨-, rfl⟩ | ⟨hno, -⟩⟩
        · exact List.mem_append_left _ h
        · cases h
        · simp
        · cases hno
      · rw [mem_ahead, hfin]; exact hf

theorem forward_kept {c : Channel} {f : Frame} (hf : f ∈ c.ahead) : f ∈ c.forward.ahead := by
  unfold forward
  split
  · split
    · exact ahead_grows hf rfl rfl rfl List.prefix_rfl
    · exact ahead_grows hf rfl rfl rfl (List.prefix_append _ _)
  · exact hf

theorem finish_kept {c : Channel} {f : Frame} (hf : f ∈ c.ahead) : f ∈ c.finish.ahead := by
  unfold finish
  split
  · split
    · exact ahead_grows hf rfl rfl rfl List.prefix_rfl
    · exact ahead_grows hf rfl rfl rfl (List.prefix_append _ _)
  · exact hf

/-- What is on its way stays on its way, or the end of the stream is. -/
theorem ahead_kept {c : Channel} {f : Frame} (hf : f ∈ c.ahead)
    (hlen : ∀ m, f = .msg m → encodedLen m ≤ frameBytesDefault) (op : ChannelOp) :
    f ∈ (c.step encodedLen op).ahead ∨ .fin ∈ (c.step encodedLen op).ahead := by
  cases op with
  | emit ev =>
    left
    simp only [step]
    split
    · exact hf
    · exact ahead_grows hf rfl rfl rfl List.prefix_rfl
  | release => exact .inl (ahead_grows hf rfl rfl rfl List.prefix_rfl)
  | forward => exact .inl (forward_kept hf)
  | finish => exact .inl (finish_kept hf)
  | reply m =>
    left
    simp only [step]
    split
    · exact ahead_grows hf rfl rfl rfl (List.prefix_append _ _)
    · exact hf
  | route => exact route_kept hf hlen
  | write => exact .inl (write_kept hf)
  | hangUp =>
    cases hfin : c.finished with
    | false => exact .inr (closing_ahead rfl hfin)
    | true =>
      rw [mem_ahead, hfin] at hf
      rcases hf with h | ⟨h, -⟩
      · exact .inl (mem_ahead.mpr (.inl h))
      · cases h
  | cut n => exact .inr (mem_ahead.mpr (.inl (by simp [step])))

/-! ## Stopping -/

theorem running_of_not_stopped {c : Channel} (h : c.stopped = false) :
    c.forwarder.exited = false ∧ c.forwarding = true ∧ c.outClosed = false ∧ c.queue.closing = false ∧
      c.finished = false := by
  simpa [stopped, and_assoc] using h

theorem out_ahead {c : Channel} {m : Msg} (hm : m ∈ c.out) (hclosing : c.queue.closing = false)
    (hfin : c.finished = false) : .msg m ∈ c.ahead :=
  mem_ahead.mpr (.inr ⟨hfin, .inr (.inr ⟨hclosing, List.mem_map_of_mem hm⟩)⟩)

/-- A step that stops the feed puts its reason on the way: the end of the stream, the
    exit, or that the event channel closed without one. -/
theorem stopped_step {c : Channel} {op : ChannelOp} (h : c.stopped = false)
    (h' : (c.step encodedLen op).stopped = true) :
    .fin ∈ (c.step encodedLen op).ahead ∨
      (∃ code signaled, .msg (.shellExited code signaled) ∈ (c.step encodedLen op).ahead) ∨
      op = .finish ∧ c.atEnd = true ∧ .msg tooSlow ∈ (c.step encodedLen op).ahead := by
  obtain ⟨hexited, hforwarding, hopen, hclosing, hfin⟩ := running_of_not_stopped h
  cases op with
  | emit ev =>
    simp only [step] at h'
    split at h'
    · rw [h] at h'; cases h'
    · rw [show stopped { c with events := c.events ++ [ev] } = c.stopped from rfl, h] at h'; cases h'
  | release => rw [show stopped (step encodedLen c .release) = c.stopped from rfl, h] at h'; cases h'
  | forward =>
    right; left
    show ∃ code signaled, .msg (.shellExited code signaled) ∈ c.forward.ahead
    change c.forward.stopped = true at h'
    unfold forward at h' ⊢
    rw [hforwarding] at h' ⊢
    cases hev : c.events with
    | nil => rw [hev] at h'; simp only at h'; rw [h] at h'; cases h'
    | cons ev events =>
      rw [hev] at h'
      simp only [hopen] at h' ⊢
      cases ev with
      | output data => simp [stopped, Forwarder.event, isExit, hexited, hclosing, hfin] at h'
      | exited exit =>
        exact ⟨_, _, out_ahead (List.mem_append_right _ (List.mem_singleton.mpr rfl)) hclosing hfin⟩
  | finish =>
    change c.finish.stopped = true at h'
    right; right
    refine ⟨rfl, ?_⟩
    show c.atEnd = true ∧ .msg tooSlow ∈ c.finish.ahead
    unfold finish at h' ⊢
    split at h'
    · rename_i hend
      rw [if_pos hend, hexited, hopen]
      exact ⟨hend, out_ahead (List.mem_append_right _ (List.mem_singleton.mpr rfl)) hclosing hfin⟩
    · rw [h] at h'; cases h'
  | reply m =>
    simp only [step] at h'
    split at h'
    · rw [show stopped { c with out := c.out ++ [m] } = c.stopped from rfl, h] at h'; cases h'
    · rw [h] at h'; cases h'
  | route =>
    left
    simp only [step] at h' ⊢
    cases hout : c.out with
    | nil => rw [hout] at h'; simp only at h'; rw [h] at h'; cases h'
    | cons m out =>
      rw [hout] at h'
      simp only [stopped, hexited, hforwarding, hopen, hfin] at h'
      exact closing_ahead (by simpa using h') hfin
  | write =>
    change (c.write encodedLen).stopped = true at h'
    unfold write at h'
    rw [hfin, hclosing] at h'
    simp only [Bool.false_eq_true, if_false] at h'
    split at h' <;> simp [stopped, hexited, hforwarding, hopen, hclosing, hfin] at h'
  | hangUp => exact .inl (closing_ahead rfl hfin)
  | cut n => exact .inl (mem_ahead.mpr (.inl (by simp [step])))

end Channel

end Holdfast.Daemon

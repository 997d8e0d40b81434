/-
  Holdfast.Web.Channels — what the browser writes to its channels (`startChannel`, `send` and
  `closeChannel` of `WtTransport` in `web/src/client/transport.ts`).

  A channel is a stream that opens later. Until then its frames are queued; then
  `startChannel` publishes the writer and writes what was queued, and waits for each write
  before the next. A call that comes meanwhile finds the writer and goes straight to it, past
  the frames that still wait.

  The writer accepts frames in the order of the calls until it is told to close; the writes
  complete in that order. Streams that fail, and what is read from them, are not modelled.

  Proved:
  - `ordered_next`: a step keeps a channel's account of its frames, if no call overtakes.
  - `channel_order`: in a run in which no call overtakes, every channel's stream carries the
    frames it was given, in order and each once, and is closed after the last.
  - `send_overtakes`: two queued frames and a third.
-/

import Holdfast.Base.Machine
import Holdfast.Base.Table
import Holdfast.Web.FrameParser

namespace Holdfast.Web

open Holdfast.Base Holdfast.Protocol

/-- A stream's writer. -/
structure WtStream where
  /-- The frames of the accepted writes. -/
  issued : List (List UInt8)
  /-- How many of them are complete. -/
  written : Nat
  closed : Bool
  deriving DecidableEq, Repr

namespace WtStream

def fresh : WtStream := ⟨[], 0, false⟩

/-- A write after the close is rejected. -/
def write (w : WtStream) (frame : List UInt8) : Option WtStream :=
  if w.closed then none else some { w with issued := w.issued ++ [frame] }

def close (w : WtStream) : WtStream := { w with closed := true }

/-- A write whose outcome nobody looks at. -/
def writeVoid (w : WtStream) (frame : List UInt8) : WtStream := (w.write frame).getD w

end WtStream

/-- Where the function that `startChannel` leaves running is. -/
inductive Task where
  | opening
  /-- It waits for the first `upTo` writes, and has `rest` to write. -/
  | flushing (upTo : Nat) (rest : List (List UInt8))
  | reading
  | ended
  deriving DecidableEq, Repr

structure WtChannel where
  /-- Is it in `channels`? -/
  listed : Bool
  writer : Option WtStream
  queue : List (List UInt8)
  closing : Bool
  task : Task
  deriving DecidableEq, Repr

namespace WtChannel

def start : WtChannel := ⟨true, none, [], false, .opening⟩

/-- The rest of the flush, up to its next wait, and what follows it. -/
def flush (ch : WtChannel) (w : WtStream) : List (List UInt8) → WtChannel
  | [] =>
    if ch.closing then { ch with listed := false, writer := some w.close, task := .ended }
    else { ch with writer := some w, task := .reading }
  | queued :: rest =>
    match w.write queued with
    | some w' => { ch with writer := some w', task := .flushing w'.issued.length rest }
    | none => { ch with writer := some w, task := .ended }

/-- The stream has opened. -/
def opened (ch : WtChannel) : WtChannel :=
  match ch.task with
  | .opening => { ch with queue := [] }.flush .fresh ch.queue
  | _ => ch

/-- The oldest write that is not complete completes. -/
def written (ch : WtChannel) : WtChannel :=
  match ch.writer with
  | some w => if w.written < w.issued.length then { ch with writer := some { w with written := w.written + 1 } } else ch
  | none => ch

/-- The flush goes on, once its write is complete. -/
def resumed (ch : WtChannel) : WtChannel :=
  match ch.task, ch.writer with
  | .flushing upTo rest, some w => if upTo ≤ w.written then ch.flush w rest else ch
  | _, _ => ch

/-- `send`, past its checks. -/
def put (ch : WtChannel) (frame : List UInt8) : WtChannel :=
  match ch.writer with
  | some w => { ch with writer := some (w.writeVoid frame) }
  | none => { ch with queue := ch.queue ++ [frame] }

/-- `closeChannel`, past its checks. -/
def shut (ch : WtChannel) (final : Option (List UInt8)) : WtChannel :=
  let queue := ch.queue ++ final.toList
  match ch.writer with
  | some w => { ch with listed := false, writer := some (queue.foldl WtStream.writeVoid w).close, queue := [], closing := true }
  | none => { ch with listed := false, queue := queue, closing := true }

end WtChannel

structure WtTransport where
  nextChannelValue : Nat
  /-- Those that have left `channels` stay here: the functions of `startChannel` still have them. -/
  channels : Table Nat WtChannel

inductive Thrown where
  | unknownChannel (channel : Nat)
  | closingChannel (channel : Nat)
  | frameTooLarge
  deriving DecidableEq, Repr

inductive TransportInput (E : Type) where
  | openChannel
  | send (channel : Nat) (env : E)
  | closeChannel (channel : Nat) (finalEnvelope : Option E)
  | opened (channel : Nat)
  | written (channel : Nat)
  | resumed (channel : Nat)
  deriving DecidableEq, Repr

inductive TransportReply where
  | channel (channel : Nat)
  | threw (e : Thrown)
  | ignored
  | took
  deriving DecidableEq, Repr

section

variable {E D : Type} (C : Codec E D)

/-- `encodeFrame`; nothing where it throws. -/
def encodeFrame (env : E) : Option (List UInt8) :=
  let payload := C.encode env
  if payload.length > maxFrameBytes.toNat then none else some (toBeBytes (UInt32.ofNat payload.length) ++ payload)

/-- The last frame of a channel, if there is to be one; nothing where `encodeFrame` throws. -/
def encodeFinal : Option E → Option (Option (List UInt8))
  | none => some none
  | some env => (encodeFrame C env).map some

namespace WtTransport

/-- A connected transport: the control channel is started. -/
def connected : WtTransport := ⟨1, (∅ : Table Nat WtChannel).insert 0 WtChannel.start⟩

def send (s : WtTransport) (channel : Nat) (env : E) : WtTransport × TransportReply :=
  match s.channels.lookup channel with
  | none => (s, .threw (.unknownChannel channel))
  | some entry =>
    if !entry.listed then (s, .threw (.unknownChannel channel))
    else if entry.closing then (s, .threw (.closingChannel channel))
    else
      match encodeFrame C env with
      | none => (s, .threw .frameTooLarge)
      | some frame => ({ s with channels := s.channels.adjust channel fun entry => entry.put frame }, .took)

def closeChannel (s : WtTransport) (channel : Nat) (finalEnvelope : Option E) : WtTransport × TransportReply :=
  match s.channels.lookup channel with
  | none => (s, .ignored)
  | some entry =>
    if !entry.listed || entry.closing then (s, .ignored)
    else
      match encodeFinal C finalEnvelope with
      | none => (s, .threw .frameTooLarge)
      | some final => ({ s with channels := s.channels.adjust channel fun entry => entry.shut final }, .took)

def machine : Machine WtTransport (TransportInput E) TransportReply where
  step s
    | .openChannel =>
      (⟨s.nextChannelValue + 1, s.channels.insert s.nextChannelValue WtChannel.start⟩, .channel s.nextChannelValue)
    | .send channel env => s.send C channel env
    | .closeChannel channel finalEnvelope => s.closeChannel C channel finalEnvelope
    | .opened channel => ({ s with channels := s.channels.adjust channel WtChannel.opened }, .ignored)
    | .written channel => ({ s with channels := s.channels.adjust channel WtChannel.written }, .ignored)
    | .resumed channel => ({ s with channels := s.channels.adjust channel WtChannel.resumed }, .ignored)

end WtTransport

/-- The frames that were passed to a channel, in the order of the calls. -/
def passed (channel : Nat) (tr : List (TransportInput E × TransportReply)) : List (List UInt8) :=
  tr.flatMap fun
    | (.send c env, .took) => if c = channel then (encodeFrame C env).toList else []
    | (.closeChannel c (some env), .took) => if c = channel then (encodeFrame C env).toList else []
    | _ => []

end

namespace WtChannel

/-- What has been handed to the stream. -/
def issued (ch : WtChannel) : List (List UInt8) := (ch.writer.map WtStream.issued).getD []

/-- Has the stream been told to close? -/
def closed (ch : WtChannel) : Bool := (ch.writer.map WtStream.closed).getD false

/-- What the flush has still to write. -/
def rest (ch : WtChannel) : List (List UInt8) :=
  match ch.task with
  | .flushing _ rest => rest
  | _ => []

/-- Nothing on the stream's side is outstanding. -/
def Settled (ch : WtChannel) : Prop := ch.opened = ch ∧ ch.written = ch ∧ ch.resumed = ch

/-- What holds of a channel that was passed `frames`. -/
structure Ordered (frames : List (List UInt8)) (ch : WtChannel) : Prop where
  all : ch.issued ++ ch.rest ++ ch.queue = frames
  unlisted : ch.listed = !ch.closing
  opening : ch.writer = none ↔ ch.task = .opening
  emptied : ch.writer ≠ none → ch.queue = []
  last : ch.closed = true → ch.closing = true ∧ ch.rest = []
  shut : ch.closing = true → ch.task = .reading ∨ ch.task = .ended → ch.closed = true
  waits : ∀ upTo rest, ch.task = .flushing upTo rest → upTo ≤ ch.issued.length

variable {frames : List (List UInt8)} {ch : WtChannel}

theorem ordered_start : Ordered [] start where
  all := rfl
  unlisted := rfl
  opening := by simp [start]
  emptied _ := rfl
  last h := by cases h
  shut h := by cases h
  waits _ _ h := by cases h

theorem ordered_flush {w : WtStream} {rest : List (List UInt8)} (hqueue : ch.queue = []) (hall : w.issued ++ rest = frames)
    (hlisted : ch.listed = !ch.closing) (hlast : w.closed = true → ch.closing = true ∧ rest = []) :
    Ordered frames (ch.flush w rest) := by
  cases rest with
  | nil =>
    rw [List.append_nil] at hall
    rw [flush]
    by_cases hclosing : ch.closing = true
    · rw [if_pos hclosing]
      exact
        { all := by simpa [issued, WtStream.close, WtChannel.rest, hqueue] using hall
          unlisted := by simp [hclosing]
          opening := by simp
          emptied := fun _ => hqueue
          last := fun _ => ⟨hclosing, rfl⟩
          shut := fun _ _ => rfl
          waits := fun _ _ h => by cases h }
    · rw [if_neg hclosing]
      exact
        { all := by simpa [issued, WtChannel.rest, hqueue] using hall
          unlisted := hlisted
          opening := by simp
          emptied := fun _ => hqueue
          last := fun h => ⟨(hlast h).1, rfl⟩
          shut := fun h _ => absurd h hclosing
          waits := fun _ _ h => by cases h }
  | cons queued rest =>
    have hopen : w.closed = false := by
      cases hw : w.closed with
      | false => rfl
      | true => cases (hlast hw).2
    simp only [flush, WtStream.write, hopen, Bool.false_eq_true, if_false]
    exact
      { all := by simpa [issued, WtChannel.rest, hqueue] using hall
        unlisted := hlisted
        opening := by simp
        emptied := fun _ => hqueue
        last := fun h => by cases h
        shut := fun _ h => by rcases h with h | h <;> cases h
        waits := fun upTo rest' h => by
          cases h
          exact Nat.le_refl _ }

theorem ordered_opened (h : Ordered frames ch) : Ordered frames ch.opened := by
  unfold opened
  split
  · rename_i htask
    have hnone := h.opening.mpr htask
    have hall := h.all
    apply ordered_flush rfl
    · simpa [issued, hnone, WtChannel.rest, htask, WtStream.fresh] using hall
    · exact h.unlisted
    · intro hclosed
      cases hclosed
  · exact h

theorem ordered_written (h : Ordered frames ch) : Ordered frames ch.written := by
  unfold written
  split
  · rename_i w hw
    split
    · exact
        { all := by
            have hall := h.all
            rw [issued, hw] at hall
            exact hall
          unlisted := h.unlisted
          opening := by simpa [hw] using h.opening
          emptied := fun _ => h.emptied (by simp [hw])
          last := fun hc => h.last (by simpa [closed, hw] using hc)
          shut := fun hc ht => by simpa [closed, hw] using h.shut hc ht
          waits := fun upTo rest ht => by simpa [issued, hw] using h.waits upTo rest ht }
    · exact h
  · exact h

theorem ordered_resumed (h : Ordered frames ch) : Ordered frames ch.resumed := by
  unfold resumed
  split
  · rename_i upTo rest w htask hw
    split
    · have hqueue := h.emptied (by simp [hw])
      apply ordered_flush hqueue
      · have hall := h.all
        simpa [issued, hw, WtChannel.rest, htask, hqueue] using hall
      · exact h.unlisted
      · intro hclosed
        have hlast := h.last (by simpa [closed, hw] using hclosed)
        simpa [WtChannel.rest, htask] using hlast
    · exact h
  · exact h

/-- A frame that does not overtake one of the flush. -/
theorem ordered_put (h : Ordered frames ch) (hcalm : ch.rest = []) (hclosing : ch.closing = false) (frame : List UInt8) :
    Ordered (frames ++ [frame]) (ch.put frame) := by
  have hall := h.all
  unfold put
  split
  · rename_i w hw
    have hopen : w.closed = false := by
      by_contra hw'
      have hlast := (h.last (by simpa [closed, hw] using hw')).1
      rw [hclosing] at hlast
      cases hlast
    have hqueue := h.emptied (by simp [hw])
    have hissued : w.writeVoid frame = { w with issued := w.issued ++ [frame] } := by
      simp [WtStream.writeVoid, WtStream.write, hopen]
    rw [hissued]
    exact
      { all := by
          rw [issued, hw, hcalm, hqueue] at hall
          change w.issued ++ [frame] ++ ch.rest ++ ch.queue = frames ++ [frame]
          rw [hcalm, hqueue]
          simpa using hall
        unlisted := h.unlisted
        opening := by simpa [hw] using h.opening
        emptied := fun _ => hqueue
        last := fun hc => by
          rw [closed, Option.map_some, Option.getD_some, hopen] at hc
          cases hc
        shut := fun hc _ => by
          rw [show ch.closing = true from hc] at hclosing
          cases hclosing
        waits := fun upTo rest ht => by
          have hwaits := h.waits upTo rest ht
          simp only [issued, hw, Option.map_some, Option.getD_some] at hwaits
          simp only [issued, Option.map_some, Option.getD_some, List.length_append]
          omega }
  · exact
      { all := by
          rw [← hall]
          simp [issued, WtChannel.rest]
        unlisted := h.unlisted
        opening := h.opening
        emptied := fun hno => absurd ‹ch.writer = none› hno
        last := h.last
        shut := h.shut
        waits := h.waits }

/-- A close that does not overtake the flush. -/
theorem ordered_shut (h : Ordered frames ch) (hcalm : ch.rest = []) (hclosing : ch.closing = false)
    (final : Option (List UInt8)) : Ordered (frames ++ final.toList) (ch.shut final) := by
  have hall := h.all
  unfold shut
  dsimp only
  split
  · rename_i w hw
    have hopen : w.closed = false := by
      by_contra hw'
      have hlast := (h.last (by simpa [closed, hw] using hw')).1
      rw [hclosing] at hlast
      cases hlast
    have hqueue := h.emptied (by simp [hw])
    have hissued : ((ch.queue ++ final.toList).foldl WtStream.writeVoid w) = { w with issued := w.issued ++ final.toList } := by
      rw [hqueue]
      cases final with
      | none => simp
      | some frame => simp [WtStream.writeVoid, WtStream.write, hopen]
    rw [hissued]
    exact
      { all := by
          rw [issued, hw, hcalm, hqueue] at hall
          change w.issued ++ final.toList ++ ch.rest ++ [] = frames ++ final.toList
          rw [hcalm]
          simpa using hall
        unlisted := rfl
        opening := by simpa [hw] using h.opening
        emptied := fun _ => rfl
        last := fun _ => ⟨rfl, hcalm⟩
        shut := fun _ _ => rfl
        waits := fun upTo rest ht => by
          have hwaits := h.waits upTo rest ht
          simp only [issued, hw, Option.map_some, Option.getD_some] at hwaits
          simp only [issued, WtStream.close, Option.map_some, Option.getD_some, List.length_append]
          omega }
  · rename_i hw
    exact
      { all := by
          change ch.issued ++ ch.rest ++ (ch.queue ++ final.toList) = frames ++ final.toList
          rw [← List.append_assoc, hall]
        unlisted := rfl
        opening := h.opening
        emptied := fun hno => absurd hw hno
        last := fun hc => by
          rw [closed, hw] at hc
          cases hc
        shut := fun _ ht => by
          have htask := h.opening.mp hw
          rw [htask] at ht
          rcases ht with ht | ht <;> cases ht
        waits := h.waits }

theorem flush_writer (ch : WtChannel) (w : WtStream) (rest : List (List UInt8)) : (ch.flush w rest).writer ≠ none := by
  cases rest with
  | nil =>
    rw [flush]
    split <;> simp
  | cons queued rest =>
    rw [flush]
    split <;> simp

/-- A flush that can go on does. -/
theorem flush_ne {w : WtStream} {upTo : Nat} {rest : List (List UInt8)} (htask : ch.task = .flushing upTo rest)
    (hw : ch.writer = some w) (hopen : w.closed = true → rest = []) : ch.flush w rest ≠ ch := by
  intro heq
  cases rest with
  | nil =>
    rw [flush] at heq
    split at heq
    · rw [← heq] at htask
      cases htask
    · rw [← heq] at htask
      cases htask
  | cons queued rest =>
    have hclosed : w.closed = false := by
      cases hc : w.closed with
      | false => rfl
      | true => cases hopen hc
    simp only [flush, WtStream.write, hclosed, Bool.false_eq_true, if_false] at heq
    have hwriter := congrArg WtChannel.writer heq
    rw [hw] at hwriter
    have hlen := congrArg (fun w => (w.map fun w => w.issued.length).getD 0) hwriter
    simp at hlen

theorem settled_task (h : Ordered frames ch) (hs : ch.Settled) : ch.task = .reading ∨ ch.task = .ended := by
  obtain ⟨hopened, hwritten, hresumed⟩ := hs
  cases htask : ch.task with
  | opening =>
    have hnone := h.opening.mpr htask
    rw [opened, htask] at hopened
    rw [← hopened] at hnone
    exact absurd hnone (flush_writer _ _ _)
  | flushing upTo rest =>
    cases hw : ch.writer with
    | none =>
      have hopening := h.opening.mp hw
      rw [htask] at hopening
      cases hopening
    | some w =>
      have hdone : w.issued.length ≤ w.written := by
        by_contra hless
        rw [written, hw] at hwritten
        simp only [Nat.not_le.mp hless, if_true] at hwritten
        have hwriter := congrArg WtChannel.writer hwritten
        rw [hw] at hwriter
        have hcount := congrArg (fun w => (w.map WtStream.written).getD 0) hwriter
        simp at hcount
      have hwaits := h.waits upTo rest htask
      simp only [issued, hw, Option.map_some, Option.getD_some] at hwaits
      simp only [resumed, htask, hw, Nat.le_trans hwaits hdone, if_true] at hresumed
      refine absurd hresumed (flush_ne htask hw ?_)
      intro hclosed
      have hlast := (h.last (by simpa [closed, hw] using hclosed)).2
      simpa [WtChannel.rest, htask] using hlast
  | reading => exact .inl rfl
  | ended => exact .inr rfl

/-- What the account says of the stream. -/
theorem Ordered.stream (h : Ordered frames ch) :
    ch.issued <+: frames ∧ (ch.closed = true → ch.issued = frames) ∧
      (ch.Settled → ch.issued = frames ∧ (ch.closing = true → ch.closed = true)) := by
  have hall := h.all
  refine ⟨⟨ch.rest ++ ch.queue, by rw [← List.append_assoc]; exact hall⟩, ?_, ?_⟩
  · intro hclosed
    have hwriter : ch.writer ≠ none := by
      intro hnone
      rw [closed, hnone] at hclosed
      cases hclosed
    rw [(h.last hclosed).2, h.emptied hwriter] at hall
    simpa using hall
  · intro hs
    have htask := settled_task h hs
    have hwriter : ch.writer ≠ none := by
      intro hnone
      rw [h.opening.mp hnone] at htask
      rcases htask with htask | htask <;> cases htask
    have hrest : ch.rest = [] := by
      rcases htask with htask | htask <;> rw [WtChannel.rest, htask]
    rw [hrest, h.emptied hwriter] at hall
    exact ⟨by simpa using hall, fun hclosing => h.shut hclosing htask⟩

end WtChannel

/-! ## Runs -/

section

variable {E D : Type} (C : Codec E D)

namespace WtTransport

/-- What the flush of a channel has still to write. -/
def waiting (s : WtTransport) (channel : Nat) : List (List UInt8) := ((s.channels.lookup channel).map WtChannel.rest).getD []

/-- Does it take calls for the channel? -/
def takes (s : WtTransport) (channel : Nat) : Bool :=
  ((s.channels.lookup channel).map fun entry => entry.listed && !entry.closing).getD false

/-- No frame and no close that the transport takes comes while the channel's flush has frames to write. -/
def Calm (s : WtTransport) : TransportInput E → Prop
  | .send channel env => s.takes channel → (encodeFrame C env).isSome → s.waiting channel = []
  | .closeChannel channel finalEnvelope => s.takes channel → (encodeFinal C finalEnvelope).isSome → s.waiting channel = []
  | _ => True

instance (s : WtTransport) : (i : TransportInput E) → Decidable (Calm C s i)
  | .send channel env => inferInstanceAs (Decidable (s.takes channel → (encodeFrame C env).isSome → s.waiting channel = []))
  | .closeChannel channel finalEnvelope =>
    inferInstanceAs (Decidable (s.takes channel → (encodeFinal C finalEnvelope).isSome → s.waiting channel = []))
  | .openChannel => .isTrue trivial
  | .opened _ => .isTrue trivial
  | .written _ => .isTrue trivial
  | .resumed _ => .isTrue trivial

/-- What holds after a run. -/
structure InOrder (tr : List (TransportInput E × TransportReply)) (s : WtTransport) : Prop where
  fresh : ∀ channel, s.nextChannelValue ≤ channel → s.channels.lookup channel = none
  unknown : ∀ channel, s.channels.lookup channel = none → passed C channel tr = []
  ordered : ∀ channel ch, s.channels.lookup channel = some ch → ch.Ordered (passed C channel tr)

variable {C} {s : WtTransport} {tr : List (TransportInput E × TransportReply)} {e : TransportInput E × TransportReply}

theorem passed_concat (channel : Nat) (tr : List (TransportInput E × TransportReply)) (e : TransportInput E × TransportReply) :
    passed C channel (tr ++ [e]) = passed C channel tr ++ passed C channel [e] := List.flatMap_append

/-- A step that leaves the channels alone and passes nothing. -/
theorem InOrder.same (h : InOrder C tr s) (hnone : ∀ c, passed C c [e] = []) : InOrder C (tr ++ [e]) s where
  fresh := h.fresh
  unknown c hc := by rw [passed_concat, hnone, List.append_nil, h.unknown c hc]
  ordered c ch hc := by
    rw [passed_concat, hnone, List.append_nil]
    exact h.ordered c ch hc

/-- A step of one channel, which alone may be passed something. -/
theorem InOrder.adjust (h : InOrder C tr s) {channel : Nat} {f : WtChannel → WtChannel} {old : WtChannel}
    (hold : s.channels.lookup channel = some old) (hothers : ∀ c, c ≠ channel → passed C c [e] = [])
    (hf : old.Ordered (passed C channel tr) → (f old).Ordered (passed C channel tr ++ passed C channel [e])) :
    InOrder C (tr ++ [e]) { s with channels := s.channels.adjust channel f } := by
  have hlook : ∀ c, (s.channels.adjust channel f).lookup c = if c = channel then some (f old) else s.channels.lookup c := by
    intro c
    by_cases hc : c = channel
    · rw [if_pos hc, hc, Table.lookup_adjust_same, hold, Option.map_some]
    · rw [if_neg hc, Table.lookup_adjust_ne _ _ hc]
  refine ⟨?_, ?_, ?_⟩
  · intro c hc
    have hnone := h.fresh c hc
    have hne : c ≠ channel := by
      intro heq
      rw [heq, hold] at hnone
      cases hnone
    rw [hlook, if_neg hne, hnone]
  · intro c hc
    rw [hlook] at hc
    split at hc
    · cases hc
    · rename_i hne
      rw [passed_concat, hothers c hne, List.append_nil, h.unknown c hc]
  · intro c ch hc
    rw [hlook] at hc
    rw [passed_concat]
    split at hc
    · rename_i heq
      cases hc
      rw [heq]
      exact hf (h.ordered channel old hold)
    · rename_i hne
      rw [hothers c hne, List.append_nil]
      exact h.ordered c ch hc

/-- A turn of a channel's stream. -/
theorem InOrder.turn (h : InOrder C tr s) (channel : Nat) {f : WtChannel → WtChannel} (hnone : ∀ c, passed C c [e] = [])
    (hf : ∀ frames ch, WtChannel.Ordered frames ch → (f ch).Ordered frames) :
    InOrder C (tr ++ [e]) { s with channels := s.channels.adjust channel f } := by
  cases hold : s.channels.lookup channel with
  | none =>
    rw [Table.adjust_eq_self (by rw [hold]; exact fun _ hno => by cases hno)]
    exact h.same hnone
  | some old =>
    refine h.adjust hold (fun c _ => hnone c) fun ho => ?_
    rw [hnone, List.append_nil]
    exact hf _ _ ho

theorem inOrder_open (h : InOrder C tr s) :
    InOrder C (tr ++ [(.openChannel, (machine C).out s .openChannel)]) ((machine C).next s .openChannel) := by
  have hnone : ∀ c, passed C c [(.openChannel, (machine C).out s .openChannel)] = [] := fun _ => rfl
  refine ⟨?_, ?_, ?_⟩
  · intro c hc
    have hle : s.nextChannelValue + 1 ≤ c := hc
    change (s.channels.insert s.nextChannelValue WtChannel.start).lookup c = none
    rw [AList.lookup_insert_ne (by omega)]
    exact h.fresh c (by omega)
  · intro c hc
    change (s.channels.insert s.nextChannelValue WtChannel.start).lookup c = none at hc
    by_cases heq : c = s.nextChannelValue
    · rw [heq, AList.lookup_insert] at hc
      cases hc
    · rw [AList.lookup_insert_ne heq] at hc
      rw [passed_concat, hnone, List.append_nil, h.unknown c hc]
  · intro c ch hc
    change (s.channels.insert s.nextChannelValue WtChannel.start).lookup c = some ch at hc
    rw [passed_concat, hnone, List.append_nil]
    by_cases heq : c = s.nextChannelValue
    · rw [heq, AList.lookup_insert] at hc
      cases hc
      rw [h.unknown c (h.fresh c (Nat.le_of_eq heq.symm))]
      exact WtChannel.ordered_start
    · rw [AList.lookup_insert_ne heq] at hc
      exact h.ordered c ch hc

theorem inOrder_send (h : InOrder C tr s) {channel : Nat} {env : E} (hcalm : Calm C s (.send channel env)) :
    InOrder C (tr ++ [(.send channel env, (s.send C channel env).2)]) (s.send C channel env).1 := by
  unfold send
  cases hold : s.channels.lookup channel with
  | none => exact h.same fun _ => rfl
  | some entry =>
    by_cases hlisted : entry.listed = true
    · by_cases hclosing : entry.closing = true
      · simp only [hlisted, hclosing, Bool.not_true, Bool.false_eq_true, if_false, if_true]
        exact h.same fun _ => rfl
      · simp only [hlisted, hclosing, Bool.not_true, Bool.false_eq_true, if_false]
        cases henc : encodeFrame C env with
        | none => exact h.same fun _ => rfl
        | some frame =>
          have hwaiting : entry.rest = [] := by
            have hcalm := hcalm (by simp [takes, hold, hlisted, hclosing]) (by rw [henc]; rfl)
            simpa [waiting, hold] using hcalm
          refine h.adjust hold ?_ fun ho => ?_
          · intro c hne
            simp [passed, Ne.symm hne]
          · have hframe : passed C channel [(.send channel env, .took)] = [frame] := by simp [passed, henc]
            rw [hframe]
            exact WtChannel.ordered_put ho hwaiting (by simpa using hclosing) frame
    · simp only [hlisted, Bool.not_false, if_true]
      exact h.same fun _ => rfl

theorem inOrder_closeChannel (h : InOrder C tr s) {channel : Nat} {finalEnvelope : Option E}
    (hcalm : Calm C s (.closeChannel channel finalEnvelope)) :
    InOrder C (tr ++ [(.closeChannel channel finalEnvelope, (s.closeChannel C channel finalEnvelope).2)])
      (s.closeChannel C channel finalEnvelope).1 := by
  have hsilent : ∀ r, r ≠ TransportReply.took → ∀ c, passed C c [(.closeChannel channel finalEnvelope, r)] = [] := by
    intro r hr c
    cases r with
    | took => exact absurd rfl hr
    | channel _ => cases finalEnvelope <;> rfl
    | threw _ => cases finalEnvelope <;> rfl
    | ignored => cases finalEnvelope <;> rfl
  unfold closeChannel
  cases hold : s.channels.lookup channel with
  | none => exact h.same (hsilent _ (by simp))
  | some entry =>
    by_cases hopen : (!entry.listed || entry.closing) = true
    · simp only [hopen, if_true]
      exact h.same (hsilent _ (by simp))
    · simp only [hopen, Bool.false_eq_true, if_false]
      simp only [Bool.or_eq_true, Bool.not_eq_true', not_or, Bool.not_eq_false, Bool.not_eq_true] at hopen
      cases henc : encodeFinal C finalEnvelope with
      | none => exact h.same (hsilent _ (by simp))
      | some final =>
        have hwaiting : entry.rest = [] := by
          have hcalm := hcalm (by simp [takes, hold, hopen.1, hopen.2]) (by rw [henc]; rfl)
          simpa [waiting, hold] using hcalm
        have hframe : ∀ c, passed C c [(.closeChannel channel finalEnvelope, .took)] =
            if channel = c then final.toList else [] := by
          intro c
          cases finalEnvelope with
          | none =>
            cases henc
            simp [passed]
          | some env =>
            obtain ⟨frame, hf, rfl⟩ := Option.map_eq_some_iff.mp henc
            simp [passed, hf]
        refine h.adjust hold ?_ fun ho => ?_
        · intro c hne
          rw [hframe, if_neg (Ne.symm hne)]
        · rw [hframe, if_pos rfl]
          exact WtChannel.ordered_shut ho hwaiting hopen.2 final

theorem inOrder_next (tr : List (TransportInput E × TransportReply)) (s : WtTransport) (i : TransportInput E)
    (h : InOrder C tr s) (hcalm : Calm C s i) : InOrder C (tr ++ [(i, (machine C).out s i)]) ((machine C).next s i) := by
  cases i with
  | openChannel => exact inOrder_open h
  | send channel env => exact inOrder_send h hcalm
  | closeChannel channel finalEnvelope => exact inOrder_closeChannel h hcalm
  | opened channel => exact h.turn channel (fun _ => rfl) fun _ _ => WtChannel.ordered_opened
  | written channel => exact h.turn channel (fun _ => rfl) fun _ _ => WtChannel.ordered_written
  | resumed channel => exact h.turn channel (fun _ => rfl) fun _ _ => WtChannel.ordered_resumed

theorem inOrder_connected : InOrder C ([] : List (TransportInput E × TransportReply)) connected where
  fresh c hc := by
    have hle : 1 ≤ c := hc
    change ((∅ : Table Nat WtChannel).insert 0 WtChannel.start).lookup c = none
    rw [AList.lookup_insert_ne (by omega), AList.lookup_empty]
  unknown _ _ := rfl
  ordered c ch hc := by
    change ((∅ : Table Nat WtChannel).insert 0 WtChannel.start).lookup c = some ch at hc
    by_cases heq : c = 0
    · rw [heq, AList.lookup_insert] at hc
      cases hc
      exact WtChannel.ordered_start
    · rw [AList.lookup_insert_ne heq, AList.lookup_empty] at hc
      cases hc

/-- Over every run in which no call that is taken comes while the channel's flush has frames to write, a
    stream carries a prefix of the frames its channel was passed, in the order of the calls; all of them
    once it is closed, and once nothing on its side is outstanding; and a channel that has been shut is
    then closed. -/
theorem channel_order (C : Codec E D) (calls : List (TransportInput E))
    (h : (machine C).Admissible (Calm C) connected calls) (channel : Nat) (ch : WtChannel)
    (hch : ((machine C).run connected calls).channels.lookup channel = some ch) :
    let frames := passed C channel ((machine C).trace connected calls)
    ch.issued <+: frames ∧ (ch.closed = true → ch.issued = frames) ∧
      (ch.Settled → ch.issued = frames ∧ (ch.closing = true → ch.closed = true)) :=
  (((machine C).trace_induction inOrder_connected inOrder_next h).ordered channel ch hch).stream

end WtTransport

end

namespace WtTransport

/-- Two frames before the stream opens, one after, and the close. -/
theorem channel_order_closed :
    let C := Codec.requestIds
    let calls : List (TransportInput (Fin 128)) := [.openChannel, .send 1 5, .send 1 6, .opened 1, .written 1, .resumed 1,
      .send 1 7, .closeChannel 1 (some 8), .written 1, .resumed 1, .written 1, .written 1]
    let frames := [[0, 0, 0, 2, 8, 5], [0, 0, 0, 2, 8, 6], [0, 0, 0, 2, 8, 7], [0, 0, 0, 2, 8, 8]]
    let ch : WtChannel := ⟨false, some ⟨frames, 4, true⟩, [], true, .ended⟩
    passed C 1 ((machine C).trace connected calls) = frames ∧
      ch.issued <+: passed C 1 ((machine C).trace connected calls) ∧
      (ch.closed = true → ch.issued = passed C 1 ((machine C).trace connected calls)) ∧
      (ch.Settled → ch.issued = passed C 1 ((machine C).trace connected calls) ∧ (ch.closing = true → ch.closed = true)) :=
  ⟨by decide, channel_order Codec.requestIds _ (by decide) 1 _ (by decide)⟩

/-- A frame sent while two queued ones are flushed goes between them; a close then loses the second. -/
theorem send_overtakes :
    let C := Codec.requestIds
    let queued : List (TransportInput (Fin 128)) := [.openChannel, .send 1 5, .send 1 6, .opened 1]
    let sent := queued ++ [.send 1 7, .written 1, .resumed 1, .written 1, .written 1, .resumed 1]
    let closed := queued ++ [.closeChannel 1 none, .written 1, .resumed 1]
    passed C 1 ((machine C).trace connected sent) = [[0, 0, 0, 2, 8, 5], [0, 0, 0, 2, 8, 6], [0, 0, 0, 2, 8, 7]] ∧
      ((machine C).run connected sent).channels.lookup 1 =
        some ⟨true, some ⟨[[0, 0, 0, 2, 8, 5], [0, 0, 0, 2, 8, 7], [0, 0, 0, 2, 8, 6]], 3, false⟩, [], false, .reading⟩ ∧
      passed C 1 ((machine C).trace connected closed) = [[0, 0, 0, 2, 8, 5], [0, 0, 0, 2, 8, 6]] ∧
      ((machine C).run connected closed).channels.lookup 1 =
        some ⟨false, some ⟨[[0, 0, 0, 2, 8, 5]], 1, true⟩, [], true, .ended⟩ := by
  decide

end WtTransport

end Holdfast.Web

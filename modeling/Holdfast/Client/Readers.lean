/-
  Holdfast.Client.Readers — the native clients' readers of an attachment, and what each
  makes of its end (`AttachedShell::next_event` and `AttachmentReader::next_event` of
  `crates/native-client/src/lib.rs`, the reader of `spawn_pumps` in
  `crates/client-core/src/shell.rs`).

  A reader takes the frames of one channel and reports to its caller. An attachment can
  end with the exit, with ERR_TOO_SLOW on a stream that stays open, or with the stream.
  All three readers know the first and the last. The two `next_event`s skip every error
  message, so ERR_TOO_SLOW is nothing to them; the pump knows it, but leaves without a
  word when the GUI's sink or the attachment's writer task is gone.

  Proved:
  - `take_end`: a reader that takes an end of its kind reports one.
  - `telling_run`: the end is ahead, or was reported.
  - `end_never_silent`: in the runs in which no `next_event` reader is told ERR_TOO_SLOW
    on an open stream, and no pump finds its sink or writer gone, no end is silent.
  - `slow_end_silent`: a `next_event` reader that waits on after ERR_TOO_SLOW.
-/

import Holdfast.Base.Machine
import Holdfast.Daemon.Channel

namespace Holdfast.Client

open Holdfast.Base Holdfast.Daemon

/-! ## Readers -/

inductive ReaderKind where
  | attachedShell
  | attachmentReader
  | pump
  deriving DecidableEq, Repr

structure HistoryPage where
  lines : List String
  firstLineId : Nat
  truncatedByEviction : Bool
  deriving DecidableEq, Repr

/-- What a reader tells its caller. -/
inductive Report where
  | output (data : List UInt8)
  | ping (nonce : UInt64)
  | history (page : HistoryPage)
  | exited (exitCode : Int32)
  | detached
  | failed
  deriving DecidableEq, Repr

def Report.isEnd : Report → Bool
  | .exited _ | .detached | .failed => true
  | .output _ | .ping _ | .history _ => false

structure Reader where
  reports : List Report
  /-- The caller still asks for events; of a pump, its task is there. -/
  running : Bool
  /-- The GUI's output sink still exists. -/
  sink : Bool
  /-- The writer task of the same attachment is there. -/
  writer : Bool
  /-- History requests waiting for their answer. -/
  pendingHistory : Nat
  deriving DecidableEq, Repr

def maxPendingHistory : Nat := 4

namespace Reader

def start : Reader := ⟨[], true, true, true, 0⟩

def ended (r : Reader) : Bool := r.reports.any Report.isEnd

def report (r : Reader) (x : Report) : Reader := { r with reports := r.reports ++ [x] }

def stop (r : Reader) : Reader := { r with running := false }

def answer (r : Reader) (page : HistoryPage) : Reader :=
  match r.pendingHistory with
  | 0 => r
  | n + 1 => { r.report (.history page) with pendingHistory := n }

/-- `next_event`: everything but output, exits and pings is skipped. -/
def nextEvent (r : Reader) : Frame → Reader
  | .msg (.terminalOutput data) => r.report (.output data)
  | .msg (.shellExited exitCode _) => (r.report (.exited exitCode)).stop
  | .msg (.ping nonce) => r.report (.ping nonce)
  | .msg _ => r
  | .fin => (r.report .failed).stop

/-- The reader task of `spawn_pumps`. -/
def pump (r : Reader) : Frame → Reader
  | .fin => (r.report .detached).stop
  | .msg (.terminalOutput data) => if r.sink then r.report (.output data) else r.stop
  | .msg (.ping nonce) => if r.writer then r.report (.ping nonce) else r.stop
  | .msg (.historyChunk firstLineId lines truncated) => r.answer ⟨lines, firstLineId, truncated⟩
  | .msg (.historyEnd _) => r.answer ⟨[], 0, false⟩
  | .msg (.shellExited exitCode _) => (r.report (.exited exitCode)).stop
  | .msg (.error code _ _) => if code = .errTooSlow then (r.report .detached).stop else r
  | .msg .other => r

def take (kind : ReaderKind) (r : Reader) (f : Frame) : Reader :=
  match kind with
  | .attachedShell | .attachmentReader => r.nextEvent f
  | .pump => r.pump f

end Reader

/-- The frames a reader of a kind knows as the end. -/
def knowsEnd (kind : ReaderKind) : Frame → Bool
  | .fin => true
  | .msg (.shellExited _ _) => true
  | .msg m => kind = .pump && m = tooSlow

/-- The frames that end a pump with a report: ERR_TOO_SLOW in any words. -/
def endsPump : Frame → Bool
  | .fin => true
  | .msg (.shellExited _ _) => true
  | .msg (.error code _ _) => code = .errTooSlow
  | .msg _ => false

/-- The caller can take what the frame is reported as: a pump needs its sink for output
    and its writer task for a ping. -/
def ready (kind : ReaderKind) (r : Reader) : Frame → Bool
  | .msg (.terminalOutput _) => kind != .pump || r.sink
  | .msg (.ping _) => kind != .pump || r.writer
  | _ => true

namespace Reader

@[simp] theorem ended_stop (r : Reader) : r.stop.ended = r.ended := rfl

@[simp] theorem ended_report (r : Reader) (x : Report) : (r.report x).ended = (r.ended || x.isEnd) := by
  simp [ended, report]

@[simp] theorem running_report (r : Reader) (x : Report) : (r.report x).running = r.running := rfl

theorem ended_answer (r : Reader) (page : HistoryPage) : (r.answer page).ended = r.ended := by
  unfold answer
  split
  · rfl
  · show (r.report (.history page)).ended = r.ended
    simp [Report.isEnd]

theorem running_answer (r : Reader) (page : HistoryPage) : (r.answer page).running = r.running := by
  unfold answer
  split <;> rfl

/-- A reader that takes an end it knows reports an end. -/
theorem take_end {kind : ReaderKind} {f : Frame} (h : knowsEnd kind f = true) (r : Reader) :
    (r.take kind f).ended = true := by
  cases f with
  | fin => cases kind <;> simp [take, nextEvent, pump, Report.isEnd]
  | msg m =>
    cases m with
    | shellExited exitCode signaled => cases kind <;> simp [take, nextEvent, pump, Report.isEnd]
    | error code text retryable =>
      simp only [knowsEnd, tooSlow, Bool.and_eq_true, decide_eq_true_eq, Msg.error.injEq] at h
      obtain ⟨rfl, rfl, -⟩ := h
      simp [take, pump, Report.isEnd]
    | terminalOutput data => simp [knowsEnd, tooSlow] at h
    | ping nonce => simp [knowsEnd, tooSlow] at h
    | historyChunk firstLineId lines truncated => simp [knowsEnd, tooSlow] at h
    | historyEnd oldest => simp [knowsEnd, tooSlow] at h
    | other => simp [knowsEnd, tooSlow] at h

/-- What is reported stays reported. -/
theorem take_ended {r : Reader} (h : r.ended = true) (kind : ReaderKind) (f : Frame) : (r.take kind f).ended = true := by
  cases f with
  | fin => cases kind <;> simp [take, nextEvent, pump, h]
  | msg m =>
    cases m <;> cases kind <;> simp only [take, nextEvent, pump, ended_answer] <;>
      first
        | simp [h]
        | (split <;> simp [h])

/-- A reader that is ready for a frame goes on, or has reported an end. -/
theorem take_running {kind : ReaderKind} {r : Reader} {f : Frame} (hrun : r.running = true)
    (hready : ready kind r f = true) : (r.take kind f).running = true ∨ (r.take kind f).ended = true := by
  cases f with
  | fin => exact .inr (take_end rfl r)
  | msg m =>
    cases m with
    | shellExited exitCode signaled => exact .inr (take_end rfl r)
    | terminalOutput data => cases kind <;> simp_all [take, nextEvent, pump, ready]
    | ping nonce => cases kind <;> simp_all [take, nextEvent, pump, ready]
    | historyChunk firstLineId lines truncated =>
      left
      cases kind <;> simp [take, nextEvent, pump, running_answer, hrun]
    | historyEnd oldest =>
      left
      cases kind <;> simp [take, nextEvent, pump, running_answer, hrun]
    | error code text retryable =>
      cases kind with
      | attachedShell => exact .inl hrun
      | attachmentReader => exact .inl hrun
      | pump =>
        simp only [take, pump]
        split
        · right; simp [Report.isEnd]
        · exact .inl hrun
    | other => cases kind <;> exact .inl hrun

/-- What a pump adds to its reports for one frame is an end only for a frame that ends it. -/
theorem pump_reports (r : Reader) (f : Frame) :
    ∃ xs, (r.pump f).reports = r.reports ++ xs ∧ (endsPump f = false → ∀ x ∈ xs, x.isEnd = false) := by
  have hanswer : ∀ page, ∃ xs, (r.answer page).reports = r.reports ++ xs ∧ ∀ x ∈ xs, x.isEnd = false := by
    intro page
    unfold answer
    split
    · exact ⟨[], by simp, by simp⟩
    · exact ⟨[.history page], rfl, by simp [Report.isEnd]⟩
  cases f with
  | fin => exact ⟨[.detached], rfl, by intro h; cases h⟩
  | msg m =>
    cases m with
    | shellExited exitCode signaled => exact ⟨[.exited exitCode], rfl, by intro h; cases h⟩
    | terminalOutput data =>
      simp only [pump]
      split
      · exact ⟨[.output data], rfl, by simp [Report.isEnd]⟩
      · exact ⟨[], by simp [stop], by simp⟩
    | ping nonce =>
      simp only [pump]
      split
      · exact ⟨[.ping nonce], rfl, by simp [Report.isEnd]⟩
      · exact ⟨[], by simp [stop], by simp⟩
    | historyChunk firstLineId lines truncated =>
      obtain ⟨xs, h1, h2⟩ := hanswer ⟨lines, firstLineId, truncated⟩
      exact ⟨xs, h1, fun _ => h2⟩
    | historyEnd oldest =>
      obtain ⟨xs, h1, h2⟩ := hanswer ⟨[], 0, false⟩
      exact ⟨xs, h1, fun _ => h2⟩
    | error code text retryable =>
      simp only [pump]
      split
      · rename_i hslow
        exact ⟨[.detached], rfl, by intro h; simp [endsPump, hslow] at h⟩
      · exact ⟨[], by simp, by simp⟩
    | other => exact ⟨[], by simp [pump], by simp⟩

end Reader

/-! ## A channel and its reader -/

structure Link where
  channel : Channel
  reader : Reader
  deriving DecidableEq, Repr

inductive LinkOp where
  | server (op : ChannelOp)
  | read
  | dropSink
  | endWriter
  | requestHistory
  deriving DecidableEq, Repr

namespace Link

def start : Link := ⟨.new, .start⟩

variable (encodedLen : Msg → Nat) (kind : ReaderKind)

def read (l : Link) : Link :=
  match l.reader.running, l.channel.take with
  | true, (some f, channel) => ⟨channel, l.reader.take kind f⟩
  | _, _ => l

def step (l : Link) : LinkOp → Link
  | .server op => { l with channel := l.channel.step encodedLen op }
  | .read => l.read kind
  | .dropSink => { l with reader := { l.reader with sink := false } }
  | .endWriter => { l with reader := { l.reader with writer := false } }
  | .requestHistory =>
    if l.reader.writer && l.reader.pendingHistory < maxPendingHistory then
      { l with reader := { l.reader with pendingHistory := l.reader.pendingHistory + 1 } }
    else l

def machine : Machine Link LinkOp Unit := ⟨fun l op => (l.step encodedLen kind op, ())⟩

/-- The server feeds the attachment no more, everything it sent is read, and the reader
    has told its caller nothing of it. -/
def Silent (l : Link) : Prop := l.channel.stopped = true ∧ l.channel.ahead = [] ∧ l.reader.ended = false

/-- The event channel of a `next_event` reader does not close without an exit while its
    stream is open, and a pump that reads finds its sink and its writer. -/
def heard (l : Link) : LinkOp → Bool
  | .server .finish => kind == .pump || !l.channel.atEnd || l.channel.stopped
  | .read => !l.reader.running || l.channel.wire.head?.all (ready kind l.reader)
  | _ => true

/-! ## The end is ahead, or was reported -/

/-- How long the two messages are that say the end. -/
structure ShortEnds : Prop where
  exited : ∀ exitCode signaled, encodedLen (.shellExited exitCode signaled) ≤ frameBytesDefault
  slow : encodedLen tooSlow ≤ frameBytesDefault

structure Telling (l : Link) : Prop where
  ahead : l.channel.stopped = true → l.reader.ended = true ∨ ∃ f ∈ l.channel.ahead, knowsEnd kind f = true
  going : l.reader.running = true ∨ l.reader.ended = true

variable {encodedLen kind}

theorem ShortEnds.knowsEnd (h : ShortEnds encodedLen) {f : Frame} (hf : knowsEnd kind f = true) :
    ∀ m, f = .msg m → encodedLen m ≤ frameBytesDefault := by
  intro m hm
  subst hm
  cases m with
  | shellExited exitCode signaled => exact h.exited _ _
  | error code text retryable =>
    simp only [Client.knowsEnd, Bool.and_eq_true, decide_eq_true_eq] at hf
    rw [hf.2]; exact h.slow
  | terminalOutput data => simp [Client.knowsEnd, tooSlow] at hf
  | ping nonce => simp [Client.knowsEnd, tooSlow] at hf
  | historyChunk firstLineId lines truncated => simp [Client.knowsEnd, tooSlow] at hf
  | historyEnd oldest => simp [Client.knowsEnd, tooSlow] at hf
  | other => simp [Client.knowsEnd, tooSlow] at hf

theorem telling_start : Telling kind start := ⟨(by intro h; cases h), .inl rfl⟩

theorem telling_server (hshort : ShortEnds encodedLen) {l : Link} (h : Telling kind l) {op : ChannelOp}
    (hheard : heard kind l (.server op) = true) : Telling kind (l.step encodedLen kind (.server op)) := by
  refine ⟨?_, h.going⟩
  intro hstopped
  change (l.channel.step encodedLen op).stopped = true at hstopped
  show l.reader.ended = true ∨ ∃ f ∈ (l.channel.step encodedLen op).ahead, knowsEnd kind f = true
  cases hbefore : l.channel.stopped with
  | true =>
    rcases h.ahead hbefore with h' | ⟨f, hf, hend⟩
    · exact .inl h'
    · rcases Channel.ahead_kept hf (hshort.knowsEnd hend) op with h' | h'
      · exact .inr ⟨f, h', hend⟩
      · exact .inr ⟨.fin, h', rfl⟩
  | false =>
    right
    rcases Channel.stopped_step hbefore hstopped with h' | ⟨code, signaled, h'⟩ | ⟨rfl, hend, h'⟩
    · exact ⟨.fin, h', rfl⟩
    · exact ⟨_, h', rfl⟩
    · -- the forwarder reports ERR_TOO_SLOW: only a pump is told so here
      simp only [heard, hend, hbefore, Bool.not_true, Bool.or_false, beq_iff_eq] at hheard
      exact ⟨_, h', by simp [knowsEnd, tooSlow, hheard]⟩

theorem telling_read {l : Link} (h : Telling kind l) (hheard : heard kind l .read = true) :
    Telling kind (l.read kind) := by
  unfold read
  split
  · rename_i f channel hrun htake
    have hf : l.channel.take.1 = some f := by rw [htake]
    have hchannel : channel = l.channel.take.2 := by rw [htake]
    have hhead : l.channel.wire.head? = some f := Channel.take_head hf
    simp only [heard, hrun, hhead, Bool.not_true, Bool.false_or, Option.all_some] at hheard
    refine ⟨?_, Reader.take_running hrun hheard⟩
    intro hstopped
    have hstopped : l.channel.stopped = true := by
      rw [hchannel, Channel.take_stopped] at hstopped
      exact hstopped
    rcases h.ahead hstopped with h' | ⟨g, hg, hend⟩
    · exact .inl (Reader.take_ended h' kind f)
    · rw [Channel.take_ahead hf] at hg
      rcases List.mem_cons.mp hg with rfl | hg
      · exact .inl (Reader.take_end hend _)
      · exact .inr ⟨g, hchannel ▸ hg, hend⟩
  · exact h

theorem telling_step (hshort : ShortEnds encodedLen) {l : Link} (h : Telling kind l) {op : LinkOp}
    (hheard : heard kind l op = true) : Telling kind (l.step encodedLen kind op) := by
  cases op with
  | server op => exact telling_server hshort h hheard
  | read => exact telling_read h hheard
  | dropSink => exact ⟨h.ahead, h.going⟩
  | endWriter => exact ⟨h.ahead, h.going⟩
  | requestHistory =>
    simp only [step]
    split
    · exact ⟨h.ahead, h.going⟩
    · exact h

theorem telling_run (hshort : ShortEnds encodedLen) {ops : List LinkOp}
    (hheard : (machine encodedLen kind).Admissible (fun l op => heard kind l op = true) start ops) :
    Telling kind ((machine encodedLen kind).run start ops) :=
  (machine encodedLen kind).run_induction (P := Telling kind) (fun _ _ h ho => telling_step hshort h ho) telling_start
    hheard

/-- In no state of such a run is an end silent. -/
theorem end_never_silent (encodedLen : Msg → Nat) (hshort : ShortEnds encodedLen) (kind : ReaderKind)
    (ops : List LinkOp)
    (hheard : (machine encodedLen kind).Admissible (fun l op => heard kind l op = true) start ops) :
    ∀ pre post, ops = pre ++ post → ¬Silent ((machine encodedLen kind).run start pre) := by
  intro pre post hops hsilent
  obtain ⟨hstopped, hahead, hended⟩ := hsilent
  subst hops
  obtain ⟨hpre, -⟩ := (machine encodedLen kind).admissible_append.mp hheard
  rcases (telling_run hshort hpre).ahead hstopped with h | ⟨f, hf, -⟩
  · rw [hended] at h; cases h
  · rw [hahead] at hf; cases hf

/-! ## An end that is silent, and one that is not -/

/-- `encoded_len` of the messages below: a tag, a length and the field's bytes, twice. -/
def sampleLen : Msg → Nat
  | .terminalOutput data => data.length + 4
  | .shellExited exitCode signaled => 3 + (if exitCode = 0 then 0 else 6) + (if signaled then 2 else 0)
  | .error _ humanMessage retryable => humanMessage.utf8ByteSize + 6 + (if retryable then 2 else 0)
  | _ => 16

/-- Session-core drops an attachment that is too slow; everything it was sent is read. -/
def slowEnd : List LinkOp :=
  [.server (.emit (.output [46])), .server .release, .server .forward, .server .finish,
    .server .route, .server .route, .server .write, .server .write, .read, .read]

/-- Both `next_event`s then wait for more on an open stream. -/
theorem slow_end_silent :
    Silent ((machine sampleLen .attachedShell).run start slowEnd) ∧
      Silent ((machine sampleLen .attachmentReader).run start slowEnd) ∧
      ((machine sampleLen .attachedShell).run start slowEnd).reader.running = true := by
  unfold Silent
  decide

/-- The pump reports a detach for the same frames. -/
theorem end_never_silent_pump :
    ShortEnds sampleLen ∧
      (machine sampleLen .pump).Admissible (fun l op => heard .pump l op = true) start slowEnd ∧
      ¬Silent ((machine sampleLen .pump).run start slowEnd) ∧
      ((machine sampleLen .pump).run start slowEnd).reader.reports = [.output [46], .detached] := by
  have hshort : ShortEnds sampleLen := by
    refine ⟨?_, by decide⟩
    intro exitCode signaled
    simp only [sampleLen, frameBytesDefault]
    split <;> split <;> omega
  refine ⟨hshort, by decide, ?_, by decide⟩
  exact end_never_silent sampleLen hshort .pump slowEnd (by decide) slowEnd [] (by simp)

end Link

end Holdfast.Client

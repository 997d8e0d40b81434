/-
  Holdfast.Desktop.Presentation — how a tab brings its attachment on the screen
  (`desktop/src/tab.ts`, `terminal-render-state.ts` and `terminal-output.ts`).

  A live chunk is kept for the next replay, and shown: by the write queue while the tab is
  presented, else by the replay that is to come. xterm takes one write at a time and calls
  back when it has parsed it; a callback, a microtask and a call of the app are a step each.
  `View` sets beside the tab what it was given for its attachment.

  The scroll position, the promises that `onChannelMessage` returns and the repainting of a
  panel are no part of this. A history line stands as its UTF-8 bytes.

  Proved:
  - `sound_step`: the counters count their queues and stay in their bounds, and one write or
    replay is under way at most.
  - `exact_step`: a step keeps the screen exact, unless a replay starts without its snapshot.
  - `presentation_exact`: in a run without such a step a presented tab shows its attachment,
    and what is not shown yet is in the write queue.
  - `snapshot_unshown`: a render that comes before the snapshot.
-/

import Holdfast.Base.Machine
import Mathlib.Algebra.Order.BigOperators.Group.List
import Mathlib.Algebra.Order.Ring.Nat

namespace Holdfast.Desktop.Presentation

open Holdfast.Base

abbrev Bytes := List UInt8

def liveBufferCap : Nat := 2 * 1024 * 1024
def liveChunkCap : Nat := 4096
def historyRenderLineCap : Nat := 5000
def historyRenderByteCap : Nat := 2 * 1024 * 1024
def terminalWriteQueueCap : Nat := 256 * 1024
def terminalWriteQueueChunkCap : Nat := 256
def terminalReplayCap : Nat := 6 * 1024 * 1024
def terminalReplayRowCap : Nat := 4096

/-! ## `TerminalOutputFilter` -/

def bidiIsolateLead : UInt8 := 0xe2
def bidiIsolateSecond : UInt8 := 0x81
def bidiIsolateMinLast : UInt8 := 0xa6
def bidiIsolateMaxLast : UInt8 := 0xa9

/-- The loop of `filter`: what it lets through, and the prefix that it keeps. -/
def scan : Bytes → Bytes × Bytes
  | [] => ([], [])
  | [b] => if b = bidiIsolateLead then ([], [b]) else ([b], [])
  | [b, c] =>
    if b = bidiIsolateLead ∧ c = bidiIsolateSecond then ([], [b, c]) else (b :: (scan [c]).1, (scan [c]).2)
  | b :: c :: last :: rest =>
    if b = bidiIsolateLead ∧ c = bidiIsolateSecond ∧ bidiIsolateMinLast ≤ last ∧ last ≤ bidiIsolateMaxLast then scan rest
    else (b :: (scan (c :: last :: rest)).1, (scan (c :: last :: rest)).2)

def filter (pending data : Bytes) : Bytes × Bytes := if data = [] then ([], pending) else scan (pending ++ data)

/-- One chunk after the other. -/
def filterAll (pending : Bytes) : List Bytes → Bytes × Bytes
  | [] => ([], pending)
  | data :: rest =>
    ((filter pending data).1 ++ (filterAll (filter pending data).2 rest).1,
      (filterAll (filter pending data).2 rest).2)

theorem filterAll_append (ds es : List Bytes) : ∀ pending,
    filterAll pending (ds ++ es) = ((filterAll pending ds).1 ++ (filterAll (filterAll pending ds).2 es).1,
      (filterAll (filterAll pending ds).2 es).2) := by
  induction ds with
  | nil => intro pending; rfl
  | cons d ds ih =>
    intro pending
    simp only [List.cons_append, filterAll, ih, List.append_assoc]

/-- A byte that starts no isolate goes through. -/
theorem scan_cons {b c : UInt8} (h : ¬(b = bidiIsolateLead ∧ c = bidiIsolateSecond)) (rest : Bytes) :
    scan (b :: c :: rest) = (b :: (scan (c :: rest)).1, (scan (c :: rest)).2) := by
  cases rest with
  | nil => simp only [scan, if_neg h]
  | cons last rest => rw [scan, if_neg fun hi => h ⟨hi.1, hi.2.1⟩]

theorem scan_plain {b : UInt8} (h : b ≠ bidiIsolateLead) (rest : Bytes) :
    scan (b :: rest) = (b :: (scan rest).1, (scan rest).2) := by
  cases rest with
  | nil => simp only [scan, if_neg h]
  | cons c rest => exact scan_cons (fun hi => h hi.1) rest

/-- Where the input is cut makes no difference: what is kept of the first part goes before
    the second. -/
theorem scan_append (first second : Bytes) :
    scan (first ++ second) = ((scan first).1 ++ (scan ((scan first).2 ++ second)).1, (scan ((scan first).2 ++ second)).2) := by
  fun_induction scan first with
  | case1 => rfl
  | case2 => rfl
  | case3 b hlead => exact scan_plain hlead second
  | case4 b c hi => rfl
  | case5 b c hi ih =>
    simp only [List.cons_append, List.nil_append] at ih ⊢
    rw [scan_cons hi, ih]
  | case6 b c last rest hi ih =>
    simp only [List.cons_append]
    rw [scan, if_pos hi, ih]
  | case7 b c last rest hi ih =>
    simp only [List.cons_append] at ih ⊢
    rw [scan, if_neg hi, ih]

theorem scan_kept (input : Bytes) : scan (scan input).2 = ([], (scan input).2) := by
  fun_induction scan input with
  | case1 => rfl
  | case2 => rfl
  | case3 b hlead => rfl
  | case4 b c hi => simp [scan, hi]
  | case5 b c hi ih => exact ih
  | case6 b c last rest hi ih => exact ih
  | case7 b c last rest hi ih => exact ih

/-- What chunks become is what they become in one piece. -/
theorem filterAll_flatten (chunks : List Bytes) : ∀ {pending : Bytes}, scan pending = ([], pending) →
    filterAll pending chunks = scan (pending ++ chunks.flatten) := by
  induction chunks with
  | nil =>
    intro pending hp
    simp [filterAll, hp]
  | cons data rest ih =>
    intro pending hp
    by_cases hd : data = []
    · subst hd
      simpa [filterAll, filter] using ih hp
    · rw [filterAll, filter, if_neg hd, ih (scan_kept _), List.flatten_cons, ← List.append_assoc, scan_append (pending ++ data)]

theorem scan_free {input : Bytes} (h : ∀ b ∈ input, b ≠ bidiIsolateLead) : scan input = (input, []) := by
  induction input with
  | nil => rfl
  | cons b rest ih => rw [scan_plain (h b List.mem_cons_self), ih fun c hc => h c (List.mem_cons_of_mem _ hc)]

/-! ## The replay -/

/-- Blank rows, and the home position; it throws where `rows` is out of range. -/
def snapshotReplayPreamble (rows : Nat) : Option Bytes :=
  if rows = 0 ∨ rows > terminalReplayRowCap then none else some ((List.replicate rows [13, 10]).flatten ++ [27, 91, 72])

/-- The length of the parts, if each fits in what the earlier ones leave. -/
def replayLength (length : Nat) : List Bytes → Option Nat
  | [] => some length
  | part :: parts => if part.length > terminalReplayCap - length then none else replayLength (length + part.length) parts

def composeBoundedReplay (parts : List Bytes) : Option Bytes := (replayLength 0 parts).map fun _ => parts.flatten

inductive Note where
  | displayLimit
  | start
  | more
  deriving DecidableEq, Repr

def Note.text : Note → String
  | .displayLimit => "── local history display limit reached ──"
  | .start => "── start of retained history ──"
  | .more => "── scroll up for older history ──"

/-- The note over the history, dimmed. -/
def Note.line (note : Note) : Bytes := [27, 91, 50, 109] ++ note.text.toUTF8.toList ++ [27, 91, 48, 109, 13, 10]

def historyParts (note : Note) (lines : List Bytes) : List Bytes :=
  if lines = [] then [] else [note.line, [13, 10].intercalate lines ++ [13, 10]]

def replayParts (note : Note) (lines : List Bytes) (preamble snapshot : Bytes) (chunks : List Bytes) : List Bytes :=
  historyParts note lines ++ [preamble, snapshot] ++ chunks

/-! ## The tab -/

structure LiveChunk where
  sequence : Nat
  data : Bytes
  deriving DecidableEq, Repr

/-- What xterm calls back when it has parsed a write. -/
inductive Callback where
  | write
  | replay (generation coveredThrough : Nat)
  deriving DecidableEq, Repr

structure Terminal where
  rows : Nat
  /-- What it was handed since its last reset. -/
  written : Bytes
  callbacks : List Callback
  deriving DecidableEq, Repr

structure Tab where
  term : Terminal
  outputFilter : Bytes
  snapshot : Bytes
  awaitingSnapshot : Bool
  historyLines : List Bytes
  historyBytes : Nat
  historyClientTruncated : Bool
  oldestFetched : Nat
  oldestAvailable : Nat
  historyExhausted : Bool
  attachmentGeneration : Nat
  liveChunks : List LiveChunk
  liveBytes : Nat
  liveOverflowed : Bool
  liveSequence : Nat
  writeQueue : List Bytes
  writeQueueBytes : Nat
  writeInFlight : Bool
  replayInFlight : Bool
  renderPending : Bool
  recoveryRequested : Bool
  presented : Bool
  closing : Bool
  /-- The microtasks that are to pump, and the calls of `recoverTerminal`. -/
  pumps : Nat
  recoveries : Nat
  deriving DecidableEq, Repr

namespace Tab

def new (rows : Nat) : Tab where
  term := ⟨rows, [], []⟩
  outputFilter := []
  snapshot := []
  awaitingSnapshot := true
  historyLines := []
  historyBytes := 0
  historyClientTruncated := false
  oldestFetched := 0
  oldestAvailable := 1
  historyExhausted := false
  attachmentGeneration := 0
  liveChunks := []
  liveBytes := 0
  liveOverflowed := false
  liveSequence := 0
  writeQueue := []
  writeQueueBytes := 0
  writeInFlight := false
  replayInFlight := false
  renderPending := false
  recoveryRequested := false
  presented := false
  closing := false
  pumps := 0
  recoveries := 0

def requestRecovery (t : Tab) : Tab :=
  if t.recoveryRequested || t.closing then t else { t with recoveryRequested := true, recoveries := t.recoveries + 1 }

def clearWriteQueue (t : Tab) : Tab := { t with writeQueue := [], writeQueueBytes := 0 }

def pumpWrites (t : Tab) : Tab :=
  if t.writeInFlight || t.replayInFlight || t.renderPending || t.closing then t
  else
    match t.writeQueue with
    | [] => t
    | data :: rest =>
      let filtered := filter t.outputFilter data
      if filtered.1 = [] then
        { t with
          writeQueue := rest
          writeQueueBytes := t.writeQueueBytes - data.length
          outputFilter := filtered.2
          pumps := t.pumps + 1 }
      else
        { t with
          writeQueue := rest
          writeQueueBytes := t.writeQueueBytes - data.length
          outputFilter := filtered.2
          writeInFlight := true
          term := { t.term with written := t.term.written ++ filtered.1, callbacks := t.term.callbacks ++ [.write] } }

def enqueueWrite (t : Tab) (data : Bytes) : Tab :=
  if data.length > terminalWriteQueueCap - t.writeQueueBytes ∨ t.writeQueue.length ≥ terminalWriteQueueChunkCap then
    { t.clearWriteQueue with presented := false }.requestRecovery
  else { t with writeQueue := t.writeQueue ++ [data], writeQueueBytes := t.writeQueueBytes + data.length }.pumpWrites

/-- The loop that evicts the oldest chunks. -/
def evict (t : Tab) : List LiveChunk → Tab
  | [] => t
  | chunk :: rest =>
    if (t.liveBytes > liveBufferCap ∨ (chunk :: rest).length > liveChunkCap) ∧ rest ≠ [] then
      evict { t with liveChunks := rest, liveBytes := t.liveBytes - chunk.data.length, liveOverflowed := true } rest
    else t

/-- A chunk is kept for the replays. -/
def keep (t : Tab) (data : Bytes) : Tab :=
  let chunks := t.liveChunks ++ [⟨t.liveSequence + 1, data⟩]
  { t with liveSequence := t.liveSequence + 1, liveChunks := chunks, liveBytes := t.liveBytes + data.length }.evict chunks

def appendLive (t : Tab) (data : Bytes) : Tab :=
  if t.closing then t
  else if data.length > liveBufferCap then
    if t.presented then { t with liveOverflowed := true }.requestRecovery else { t with liveOverflowed := true }
  else
    let t := t.keep data
    if t.presented && !t.replayInFlight && !t.renderPending then t.enqueueWrite data else t

def onChannelMessage (t : Tab) (generation : Nat) (bytes : Bytes) : Tab :=
  if t.closing ∨ generation ≠ t.attachmentGeneration then t
  else if t.awaitingSnapshot then { t with awaitingSnapshot := false, snapshot := bytes }
  else t.appendLive bytes

/-- How many of the lines, from the newest, fit; and the bytes with them. -/
def acceptLines (bytes : Nat) : Nat → List Bytes → List Bytes × Nat
  | 0, _ => ([], bytes)
  | _, [] => ([], bytes)
  | remaining + 1, line :: older =>
    if bytes + (line.length + 2) > historyRenderByteCap then ([], bytes)
    else
      let (accepted, bytes) := acceptLines (bytes + (line.length + 2)) remaining older
      (accepted ++ [line], bytes)

/-- `prependBoundedHistory`, and what the tab makes of it. -/
def prependHistory (t : Tab) (lines : List Bytes) : Tab :=
  let (accepted, bytes) := acceptLines t.historyBytes (historyRenderLineCap - t.historyLines.length) lines.reverse
  let t := { t with historyLines := accepted ++ t.historyLines, historyBytes := bytes }
  if accepted.length = lines.length then t else { t with historyClientTruncated := true, historyExhausted := true }

/-- A page of `fetchOlderHistory`, up to its render. -/
def historyPage (t : Tab) (lines : List Bytes) (firstLineId : Nat) (truncatedByEviction : Bool) : Tab :=
  if lines = [] then { t with historyExhausted := true }
  else
    let t := { t.prependHistory lines with oldestFetched := firstLineId }
    if truncatedByEviction ∨ firstLineId ≤ t.oldestAvailable then { t with historyExhausted := true } else t

def resetForAttach (t : Tab) : Tab :=
  { t with
    attachmentGeneration := t.attachmentGeneration + 1
    presented := false
    awaitingSnapshot := true
    snapshot := []
    historyLines := []
    historyBytes := 0
    historyClientTruncated := false
    oldestFetched := 0
    oldestAvailable := 1
    historyExhausted := false
    liveChunks := []
    liveBytes := 0
    liveOverflowed := false
    liveSequence := 0
    writeQueue := []
    writeQueueBytes := 0
    renderPending := false
    recoveryRequested := false
    outputFilter := [] }

def note (t : Tab) : Note :=
  if t.historyClientTruncated then .displayLimit
  else if t.historyExhausted ∨ t.oldestFetched ≤ t.oldestAvailable then .start
  else .more

def buildReplay (t : Tab) (preamble : Bytes) : Option Bytes :=
  composeBoundedReplay (replayParts t.note t.historyLines preamble t.snapshot (t.liveChunks.map (·.data)))

def startRenderIfIdle (t : Tab) : Tab :=
  if !t.renderPending || t.writeInFlight || t.replayInFlight || t.closing then t
  else
    match snapshotReplayPreamble t.term.rows with
    -- the exception leaves everything as it is
    | none => t
    | some preamble =>
      match t.buildReplay preamble with
      | none => { t with renderPending := false }.requestRecovery
      | some replay =>
        let filtered := filter [] replay
        { t with
          renderPending := false
          replayInFlight := true
          outputFilter := filtered.2
          term := ⟨t.term.rows, filtered.1, t.term.callbacks ++ [.replay t.attachmentGeneration t.liveSequence]⟩ }

def render (t : Tab) : Tab :=
  if t.closing then t
  else if t.liveOverflowed then
    if t.presented && !t.replayInFlight && !t.renderPending then t else t.requestRecovery
  else { t.clearWriteQueue with presented := false, renderPending := true }.startRenderIfIdle

/-- The replay is on the screen, and what came meanwhile follows it. -/
def present (t : Tab) (coveredThrough : Nat) : Tab :=
  let t := { t with presented := true }
  if t.liveOverflowed then t.requestRecovery
  else (((t.liveChunks.filter fun chunk => chunk.sequence > coveredThrough).map (·.data)).foldl enqueueWrite t).pumpWrites

def called (t : Tab) : Callback → Tab
  | .write =>
    let t := { t with writeInFlight := false }
    if t.renderPending then t.startRenderIfIdle else t.pumpWrites
  | .replay generation coveredThrough =>
    let t := { t with replayInFlight := false }
    if t.closing then t
    else if generation ≠ t.attachmentGeneration ∨ t.renderPending = true then t.startRenderIfIdle
    else t.present coveredThrough

/-- xterm has parsed its oldest write. -/
def written (t : Tab) : Tab :=
  match t.term.callbacks with
  | [] => t
  | callback :: rest => { t with term := { t.term with callbacks := rest } }.called callback

end Tab

inductive Input where
  | message (generation : Nat) (bytes : Bytes)
  /-- A notice, or a live chunk. -/
  | appendLive (data : Bytes)
  | historyPage (lines : List Bytes) (firstLineId : Nat) (truncatedByEviction : Bool)
  /-- `attach` has its reply. -/
  | attached (oldestHistoryLineId newestHistoryLineId : Nat)
  | render
  | resetForAttach
  | written
  /-- A microtask of `pumpWrites`. -/
  | pump
  | resized (rows : Nat)
  deriving DecidableEq, Repr

/-- A tab, and the live chunks it was given for its attachment. -/
structure View where
  tab : Tab
  received : List Bytes
  deriving DecidableEq, Repr

namespace View

def step (v : View) : Input → View
  | .message generation bytes =>
    ⟨v.tab.onChannelMessage generation bytes,
      if v.tab.closing ∨ generation ≠ v.tab.attachmentGeneration ∨ v.tab.awaitingSnapshot = true then v.received
      else v.received ++ [bytes]⟩
  | .appendLive data => ⟨v.tab.appendLive data, if v.tab.closing then v.received else v.received ++ [data]⟩
  | .historyPage lines firstLineId truncated => { v with tab := v.tab.historyPage lines firstLineId truncated }
  | .attached oldest newest => { v with tab := { v.tab with oldestAvailable := oldest, historyExhausted := newest = 0 } }
  | .render => { v with tab := v.tab.render }
  | .resetForAttach => ⟨v.tab.resetForAttach, []⟩
  | .written => { v with tab := v.tab.written }
  | .pump => if v.tab.pumps = 0 then v else { v with tab := { v.tab with pumps := v.tab.pumps - 1 }.pumpWrites }
  | .resized rows => { v with tab := { v.tab with term := { v.tab.term with rows := rows } } }

end View

def machine : Machine View Input Unit := ⟨fun v i => (v.step i, ())⟩

/-! ## Counters and callbacks -/

/-- The counter is the size of what is queued, and that stays in its bounds. -/
def Counted {α : Type} (size : α → Nat) (byteCap countCap : Nat) (bytes : Nat) (items : List α) : Prop :=
  bytes = (items.map size).sum ∧ bytes ≤ byteCap ∧ items.length ≤ countCap

def sizeOf (chunks : List LiveChunk) : Nat := (chunks.map (·.data.length)).sum

namespace Tab

/-- One write or replay is under way at most, and its callback is still to come. -/
def Flight (t : Tab) : Prop :=
  t.writeInFlight = false ∧ t.replayInFlight = false ∧ t.term.callbacks = [] ∨
    t.writeInFlight = true ∧ t.replayInFlight = false ∧ t.term.callbacks = [.write] ∨
    t.writeInFlight = false ∧ t.replayInFlight = true ∧ ∃ g k, t.term.callbacks = [.replay g k]

structure Counts (t : Tab) : Prop where
  live : Counted (fun chunk : LiveChunk => chunk.data.length) liveBufferCap liveChunkCap t.liveBytes t.liveChunks
  write : Counted List.length terminalWriteQueueCap terminalWriteQueueChunkCap t.writeQueueBytes t.writeQueue
  history : Counted (fun line : Bytes => line.length + 2) historyRenderByteCap historyRenderLineCap t.historyBytes t.historyLines

structure Sound (t : Tab) : Prop where
  flight : t.Flight
  counts : t.Counts

theorem sound_new (rows : Nat) : (new rows).Sound := by
  refine ⟨.inl ⟨rfl, rfl, rfl⟩, ?_⟩
  constructor <;> exact ⟨rfl, Nat.zero_le _, Nat.zero_le _⟩

/-- What `pumpWrites` does. -/
theorem pumpWrites_cases (t : Tab) :
    t.pumpWrites = t ∨
      ∃ data rest, (t.writeInFlight = false ∧ t.replayInFlight = false ∧ t.renderPending = false ∧ t.closing = false) ∧
        t.writeQueue = data :: rest ∧
        ((filter t.outputFilter data).1 = [] ∧ t.pumpWrites = { t with
            writeQueue := rest
            writeQueueBytes := t.writeQueueBytes - data.length
            outputFilter := (filter t.outputFilter data).2
            pumps := t.pumps + 1 } ∨
          t.pumpWrites = { t with
            writeQueue := rest
            writeQueueBytes := t.writeQueueBytes - data.length
            outputFilter := (filter t.outputFilter data).2
            writeInFlight := true
            term := { t.term with
              written := t.term.written ++ (filter t.outputFilter data).1, callbacks := t.term.callbacks ++ [.write] } }) := by
  by_cases hbusy : (t.writeInFlight || t.replayInFlight || t.renderPending || t.closing) = true
  · exact .inl (if_pos hbusy)
  · have hfree : t.writeInFlight = false ∧ t.replayInFlight = false ∧ t.renderPending = false ∧ t.closing = false := by
      simpa [and_assoc] using hbusy
    cases hq : t.writeQueue with
    | nil => exact .inl (by rw [pumpWrites, if_neg hbusy, hq])
    | cons data rest =>
      refine .inr ⟨data, rest, hfree, rfl, ?_⟩
      by_cases hout : (filter t.outputFilter data).1 = []
      · exact .inl ⟨hout, by rw [pumpWrites, if_neg hbusy, hq]; exact if_pos hout⟩
      · exact .inr (by rw [pumpWrites, if_neg hbusy, hq]; exact if_neg hout)

theorem Counts.pumpWrites {t : Tab} (h : t.Counts) : t.pumpWrites.Counts := by
  obtain he | ⟨data, rest, -, hq, hstep⟩ := t.pumpWrites_cases
  · rw [he]
    exact h
  · obtain ⟨hb, hc, hn⟩ := h.write
    rw [hq] at hb hn
    simp only [List.map_cons, List.sum_cons, List.length_cons] at hb hn
    have hrest : Counted List.length terminalWriteQueueCap terminalWriteQueueChunkCap (t.writeQueueBytes - data.length) rest :=
      ⟨by omega, by omega, by omega⟩
    obtain ⟨-, he⟩ | he := hstep <;> rw [he] <;> exact ⟨h.live, hrest, h.history⟩

theorem Flight.pumpWrites {t : Tab} (h : t.Flight) : t.pumpWrites.Flight := by
  obtain he | ⟨data, rest, ⟨hw, hr, -, -⟩, -, hstep⟩ := t.pumpWrites_cases
  · rw [he]
    exact h
  · obtain ⟨-, -, hcb⟩ | ⟨hw', -⟩ | ⟨-, hr', -⟩ := h
    · obtain ⟨-, he⟩ | he := hstep <;> rw [he]
      · exact .inl ⟨hw, hr, hcb⟩
      · exact .inr (.inl ⟨rfl, hr, by simp [hcb]⟩)
    · simp [hw] at hw'
    · simp [hr] at hr'

theorem requestRecovery_cases (t : Tab) :
    t.requestRecovery = t ∧ (t.recoveryRequested = true ∨ t.closing = true) ∨
      t.requestRecovery = { t with recoveryRequested := true, recoveries := t.recoveries + 1 } := by
  by_cases h : (t.recoveryRequested || t.closing) = true
  · exact .inl ⟨if_pos h, by simpa using h⟩
  · exact .inr (if_neg h)

theorem Sound.requestRecovery {t : Tab} (h : t.Sound) : t.requestRecovery.Sound := by
  obtain ⟨he, -⟩ | he := t.requestRecovery_cases <;> rw [he]
  · exact h
  · exact ⟨h.flight, ⟨h.counts.live, h.counts.write, h.counts.history⟩⟩

theorem Sound.pumpWrites {t : Tab} (h : t.Sound) : t.pumpWrites.Sound := ⟨h.flight.pumpWrites, h.counts.pumpWrites⟩

theorem Sound.clearWriteQueue {t : Tab} (h : t.Sound) : t.clearWriteQueue.Sound :=
  ⟨h.flight, ⟨h.counts.live, ⟨rfl, Nat.zero_le _, Nat.zero_le _⟩, h.counts.history⟩⟩

/-- What `enqueueWrite` does. -/
theorem enqueueWrite_cases (t : Tab) (data : Bytes) :
    t.enqueueWrite data = { t.clearWriteQueue with presented := false }.requestRecovery ∨
      (t.writeQueueBytes + data.length ≤ terminalWriteQueueCap ∨ data = []) ∧ t.writeQueue.length < terminalWriteQueueChunkCap ∧
        t.enqueueWrite data =
          { t with writeQueue := t.writeQueue ++ [data], writeQueueBytes := t.writeQueueBytes + data.length }.pumpWrites := by
  by_cases h : data.length > terminalWriteQueueCap - t.writeQueueBytes ∨ t.writeQueue.length ≥ terminalWriteQueueChunkCap
  · exact .inl (if_pos h)
  · refine .inr ⟨?_, by omega, if_neg h⟩
    by_cases hd : data = []
    · exact .inr hd
    · have := List.length_pos_iff.mpr hd
      exact .inl (by omega)

theorem Sound.push {t : Tab} (h : t.Sound) {data : Bytes}
    (hfits : t.writeQueueBytes + data.length ≤ terminalWriteQueueCap ∨ data = [])
    (hroom : t.writeQueue.length < terminalWriteQueueChunkCap) :
    Sound { t with writeQueue := t.writeQueue ++ [data], writeQueueBytes := t.writeQueueBytes + data.length } := by
  refine ⟨h.flight, ⟨h.counts.live, ?_, h.counts.history⟩⟩
  obtain ⟨hb, hc, -⟩ := h.counts.write
  refine ⟨by simp [hb], ?_, by simpa using Nat.succ_le_of_lt hroom⟩
  obtain hfits | rfl := hfits
  · exact hfits
  · exact hc

theorem Sound.enqueueWrite {t : Tab} (h : t.Sound) (data : Bytes) : (t.enqueueWrite data).Sound := by
  obtain he | ⟨hfits, hroom, he⟩ := t.enqueueWrite_cases data <;> rw [he]
  · exact Sound.requestRecovery ⟨h.flight, ⟨h.counts.live, h.clearWriteQueue.counts.write, h.counts.history⟩⟩
  · exact (h.push hfits hroom).pumpWrites

/-- The loop leaves a suffix of the chunks, within the bounds, and tells if it is not all. -/
theorem evict_spec {t : Tab} {chunks : List LiveChunk} (hchunks : t.liveChunks = chunks) (hbytes : t.liveBytes = sizeOf chunks)
    (hsmall : ∀ chunk ∈ chunks, chunk.data.length ≤ liveBufferCap) :
    ∃ kept, t.evict chunks = { t with
        liveChunks := kept, liveBytes := sizeOf kept, liveOverflowed := t.liveOverflowed || decide (kept ≠ chunks) } ∧
      Counted (fun chunk : LiveChunk => chunk.data.length) liveBufferCap liveChunkCap (sizeOf kept) kept ∧ kept <:+ chunks := by
  induction chunks generalizing t with
  | nil =>
    refine ⟨[], ?_, ⟨rfl, Nat.zero_le _, Nat.zero_le _⟩, List.suffix_rfl⟩
    rw [evict, ← hbytes]
    simp [← hchunks]
  | cons chunk rest ih =>
    by_cases hover : (t.liveBytes > liveBufferCap ∨ (chunk :: rest).length > liveChunkCap) ∧ rest ≠ []
    · obtain ⟨kept, he, hc, hs⟩ := ih
        (t := { t with liveChunks := rest, liveBytes := t.liveBytes - chunk.data.length, liveOverflowed := true }) rfl
        (by simp [hbytes, sizeOf]) fun c hc => hsmall c (List.mem_cons_of_mem _ hc)
      refine ⟨kept, ?_, hc, hs.trans (List.suffix_cons _ _)⟩
      have hne : kept ≠ chunk :: rest := by
        intro e
        have := hs.length_le
        rw [e, List.length_cons] at this
        omega
      rw [evict, if_pos hover, he]
      simp [hne]
    · refine ⟨chunk :: rest, ?_, ⟨rfl, ?_⟩, List.suffix_rfl⟩
      · rw [evict, if_neg hover, ← hbytes]
        simp [← hchunks]
      · by_cases hr : rest = []
        · subst hr
          exact ⟨by simpa [sizeOf] using hsmall chunk List.mem_cons_self, by simp [liveChunkCap]⟩
        · rw [← hbytes]
          constructor
          · by_contra hgt
            exact hover ⟨.inl (by omega), hr⟩
          · by_contra hgt
            exact hover ⟨.inr (by omega), hr⟩

/-- What is kept of a chunk that is not too long. -/
theorem keep_spec {t : Tab} (h : t.Counts) {data : Bytes} (hd : data.length ≤ liveBufferCap) :
    ∃ kept, t.keep data = { t with
        liveSequence := t.liveSequence + 1
        liveChunks := kept
        liveBytes := sizeOf kept
        liveOverflowed := t.liveOverflowed || decide (kept ≠ t.liveChunks ++ [⟨t.liveSequence + 1, data⟩]) } ∧
      Counted (fun chunk : LiveChunk => chunk.data.length) liveBufferCap liveChunkCap (sizeOf kept) kept := by
  obtain ⟨hb, hc, -⟩ := h.live
  have hsmall : ∀ chunk ∈ t.liveChunks ++ [⟨t.liveSequence + 1, data⟩], chunk.data.length ≤ liveBufferCap := by
    intro chunk hmem
    obtain hmem | hmem := List.mem_append.mp hmem
    · have hle := List.le_sum_of_mem (List.mem_map_of_mem (f := fun chunk : LiveChunk => chunk.data.length) hmem)
      omega
    · rw [List.mem_singleton.mp hmem]
      exact hd
  obtain ⟨kept, he, hk, -⟩ := evict_spec
    (t := { t with
      liveSequence := t.liveSequence + 1
      liveChunks := t.liveChunks ++ [⟨t.liveSequence + 1, data⟩]
      liveBytes := t.liveBytes + data.length })
    rfl (by simp [hb, sizeOf]) hsmall
  exact ⟨kept, he, hk⟩

theorem Sound.keep {t : Tab} (h : t.Sound) {data : Bytes} (hd : data.length ≤ liveBufferCap) : (t.keep data).Sound := by
  obtain ⟨kept, he, hk⟩ := keep_spec h.counts hd
  rw [he]
  exact ⟨h.flight, ⟨hk, h.counts.write, h.counts.history⟩⟩

theorem Sound.overflow {t : Tab} (h : t.Sound) : Sound { t with liveOverflowed := true } :=
  ⟨h.flight, ⟨h.counts.live, h.counts.write, h.counts.history⟩⟩

theorem Sound.appendLive {t : Tab} (h : t.Sound) (data : Bytes) : (t.appendLive data).Sound := by
  unfold Tab.appendLive
  split
  · exact h
  · split
    · split
      · exact h.overflow.requestRecovery
      · exact h.overflow
    · next hd =>
      have hk : (t.keep data).Sound := h.keep (by omega)
      dsimp only
      split
      · exact hk.enqueueWrite data
      · exact hk

theorem Sound.onChannelMessage {t : Tab} (h : t.Sound) (generation : Nat) (bytes : Bytes) :
    (t.onChannelMessage generation bytes).Sound := by
  unfold Tab.onChannelMessage
  split
  · exact h
  · split
    · exact ⟨h.flight, ⟨h.counts.live, h.counts.write, h.counts.history⟩⟩
    · exact h.appendLive bytes

/-- The lines that are accepted: a suffix, counted. -/
theorem acceptLines_spec (lines : List Bytes) : ∀ bytes remaining, bytes ≤ historyRenderByteCap →
    (acceptLines bytes remaining lines).2 = bytes + ((acceptLines bytes remaining lines).1.map fun line => line.length + 2).sum ∧
      (acceptLines bytes remaining lines).2 ≤ historyRenderByteCap ∧
      (acceptLines bytes remaining lines).1.length ≤ remaining := by
  induction lines with
  | nil =>
    intro bytes remaining hcap
    cases remaining <;> exact ⟨rfl, hcap, Nat.zero_le _⟩
  | cons line older ih =>
    intro bytes remaining hcap
    cases remaining with
    | zero => exact ⟨rfl, hcap, Nat.zero_le _⟩
    | succ remaining =>
      rw [acceptLines]
      by_cases hfull : bytes + (line.length + 2) > historyRenderByteCap
      · rw [if_pos hfull]
        exact ⟨rfl, hcap, Nat.zero_le _⟩
      · rw [if_neg hfull]
        obtain ⟨hb, hc, hn⟩ := ih (bytes + (line.length + 2)) remaining (by omega)
        refine ⟨?_, hc, by simpa using hn⟩
        simp only [List.map_append, List.sum_append, List.map_cons, List.map_nil, List.sum_cons, List.sum_nil]
        omega

theorem Sound.prependHistory {t : Tab} (h : t.Sound) (lines : List Bytes) : (t.prependHistory lines).Sound := by
  obtain ⟨hb, hc, hn⟩ := h.counts.history
  obtain ⟨hb', hc', hn'⟩ := acceptLines_spec lines.reverse t.historyBytes (historyRenderLineCap - t.historyLines.length) hc
  have hcounted : Counted (fun line : Bytes => line.length + 2) historyRenderByteCap historyRenderLineCap
      (acceptLines t.historyBytes (historyRenderLineCap - t.historyLines.length) lines.reverse).2
      ((acceptLines t.historyBytes (historyRenderLineCap - t.historyLines.length) lines.reverse).1 ++ t.historyLines) := by
    refine ⟨?_, hc', ?_⟩
    · rw [List.map_append, List.sum_append]
      omega
    · rw [List.length_append]
      omega
  unfold Tab.prependHistory
  dsimp only
  split <;> exact ⟨h.flight, ⟨h.counts.live, h.counts.write, hcounted⟩⟩

theorem Sound.historyPage {t : Tab} (h : t.Sound) (lines : List Bytes) (firstLineId : Nat) (truncated : Bool) :
    (t.historyPage lines firstLineId truncated).Sound := by
  have hp := h.prependHistory lines
  unfold Tab.historyPage
  split
  · exact ⟨h.flight, ⟨h.counts.live, h.counts.write, h.counts.history⟩⟩
  · dsimp only
    split <;> exact ⟨hp.flight, ⟨hp.counts.live, hp.counts.write, hp.counts.history⟩⟩

theorem Sound.resetForAttach {t : Tab} (h : t.Sound) : t.resetForAttach.Sound :=
  ⟨h.flight, ⟨⟨rfl, Nat.zero_le _, Nat.zero_le _⟩, ⟨rfl, Nat.zero_le _, Nat.zero_le _⟩, ⟨rfl, Nat.zero_le _, Nat.zero_le _⟩⟩⟩

/-- What `startRenderIfIdle` does. -/
theorem startRenderIfIdle_cases (t : Tab) :
    t.startRenderIfIdle = t ∨
      (t.renderPending = true ∧ t.writeInFlight = false ∧ t.replayInFlight = false) ∧
        (t.startRenderIfIdle = { t with renderPending := false }.requestRecovery ∨
          ∃ preamble replay, snapshotReplayPreamble t.term.rows = some preamble ∧ t.buildReplay preamble = some replay ∧
            t.startRenderIfIdle = { t with
              renderPending := false
              replayInFlight := true
              outputFilter := (filter [] replay).2
              term := ⟨t.term.rows, (filter [] replay).1,
                t.term.callbacks ++ [.replay t.attachmentGeneration t.liveSequence]⟩ }) := by
  by_cases hbusy : (!t.renderPending || t.writeInFlight || t.replayInFlight || t.closing) = true
  · exact .inl (if_pos hbusy)
  · have hidle : t.renderPending = true ∧ t.writeInFlight = false ∧ t.replayInFlight = false ∧ t.closing = false := by
      simpa [and_assoc] using hbusy
    cases hpre : snapshotReplayPreamble t.term.rows with
    | none => exact .inl (by rw [startRenderIfIdle, if_neg hbusy, hpre])
    | some preamble =>
      refine .inr ⟨⟨hidle.1, hidle.2.1, hidle.2.2.1⟩, ?_⟩
      cases hrep : t.buildReplay preamble with
      | none => exact .inl (by rw [startRenderIfIdle, if_neg hbusy, hpre]; dsimp only; rw [hrep])
      | some replay =>
        exact .inr ⟨preamble, replay, rfl, hrep, by rw [startRenderIfIdle, if_neg hbusy, hpre]; dsimp only; rw [hrep]⟩

theorem Sound.startRenderIfIdle {t : Tab} (h : t.Sound) : t.startRenderIfIdle.Sound := by
  obtain he | ⟨⟨-, hw, hr⟩, he | ⟨preamble, replay, -, -, he⟩⟩ := t.startRenderIfIdle_cases <;> rw [he]
  · exact h
  · exact Sound.requestRecovery ⟨h.flight, ⟨h.counts.live, h.counts.write, h.counts.history⟩⟩
  · refine ⟨?_, ⟨h.counts.live, h.counts.write, h.counts.history⟩⟩
    obtain ⟨-, -, hcb⟩ | ⟨hw', -⟩ | ⟨-, hr', -⟩ := h.flight
    · exact .inr (.inr ⟨hw, rfl, _, _, by simp [hcb]; exact ⟨rfl, rfl⟩⟩)
    · simp [hw] at hw'
    · simp [hr] at hr'

theorem Sound.render {t : Tab} (h : t.Sound) : t.render.Sound := by
  unfold Tab.render
  split
  · exact h
  · split
    · split
      · exact h
      · exact h.requestRecovery
    · exact Sound.startRenderIfIdle ⟨h.flight, ⟨h.counts.live, h.clearWriteQueue.counts.write, h.counts.history⟩⟩

theorem Sound.enqueueAll {t : Tab} (h : t.Sound) (chunks : List Bytes) : (chunks.foldl Tab.enqueueWrite t).Sound := by
  induction chunks generalizing t with
  | nil => exact h
  | cons data rest ih => exact ih (h.enqueueWrite data)

theorem Sound.present {t : Tab} (h : t.Sound) (coveredThrough : Nat) : (t.present coveredThrough).Sound := by
  have hp : Sound { t with presented := true } := ⟨h.flight, ⟨h.counts.live, h.counts.write, h.counts.history⟩⟩
  unfold Tab.present
  dsimp only
  split
  · exact hp.requestRecovery
  · exact (hp.enqueueAll _).pumpWrites

theorem Sound.written {t : Tab} (h : t.Sound) : t.written.Sound := by
  have hcounts := h.counts
  unfold Tab.written
  obtain ⟨-, -, hcb⟩ | ⟨-, hr, hcb⟩ | ⟨hw, -, g, k, hcb⟩ := h.flight
  · rw [hcb]
    exact h
  · rw [hcb]
    have hidle : Sound { t with term := { t.term with callbacks := [] }, writeInFlight := false } :=
      ⟨.inl ⟨rfl, hr, rfl⟩, ⟨hcounts.live, hcounts.write, hcounts.history⟩⟩
    simp only [called]
    split
    · exact hidle.startRenderIfIdle
    · exact hidle.pumpWrites
  · rw [hcb]
    have hidle : Sound { t with term := { t.term with callbacks := [] }, replayInFlight := false } :=
      ⟨.inl ⟨hw, rfl, rfl⟩, ⟨hcounts.live, hcounts.write, hcounts.history⟩⟩
    simp only [called]
    split
    · exact hidle
    · split
      · exact hidle.startRenderIfIdle
      · exact hidle.present k

end Tab

theorem sound_step {v : View} (h : v.tab.Sound) (i : Input) : (v.step i).tab.Sound := by
  cases i with
  | message generation bytes => exact h.onChannelMessage generation bytes
  | appendLive data => exact h.appendLive data
  | historyPage lines firstLineId truncated => exact h.historyPage lines firstLineId truncated
  | attached oldest newest => exact ⟨h.flight, ⟨h.counts.live, h.counts.write, h.counts.history⟩⟩
  | render => exact h.render
  | resetForAttach => exact h.resetForAttach
  | written => exact h.written
  | pump =>
    unfold View.step
    dsimp only
    split
    · exact h
    · exact Tab.Sound.pumpWrites ⟨h.flight, ⟨h.counts.live, h.counts.write, h.counts.history⟩⟩
  | resized rows => exact ⟨h.flight, ⟨h.counts.live, h.counts.write, h.counts.history⟩⟩

/-! ## What is on the screen -/

/-- The chunks with the sequence numbers they get, if none is left out. -/
def numbered (chunks : List Bytes) : List LiveChunk := chunks.mapIdx fun i data => ⟨i + 1, data⟩

theorem numbered_snoc (chunks : List Bytes) (data : Bytes) :
    numbered (chunks ++ [data]) = numbered chunks ++ [⟨chunks.length + 1, data⟩] := by
  simp [numbered, List.mapIdx_append]

@[simp] theorem map_numbered (chunks : List Bytes) : (numbered chunks).map (·.data) = chunks := by
  induction chunks using List.reverseRecOn with
  | nil => rfl
  | append_singleton chunks data ih => rw [numbered_snoc, List.map_append, ih]; rfl

/-- The chunks that a replay did not cover. -/
theorem later_numbered (covered later : List Bytes) :
    ((numbered (covered ++ later)).filter fun chunk => chunk.sequence > covered.length).map (·.data) = later := by
  induction later using List.reverseRecOn with
  | nil =>
    have : (numbered covered).filter (fun chunk => chunk.sequence > covered.length) = [] := by
      refine List.filter_eq_nil_iff.mpr fun chunk hchunk => ?_
      obtain ⟨i, hi, rfl⟩ := List.mem_mapIdx.mp hchunk
      simp only [decide_eq_true_eq]
      omega
    simp [this]
  | append_singleton later data ih =>
    rw [← List.append_assoc, numbered_snoc, List.filter_append, List.map_append, ih,
      List.filter_cons_of_pos (by simp only [decide_eq_true_eq, List.length_append]; omega)]
    rfl

namespace Tab

/-- What xterm was handed: a replay of the history (a part of it, from its newest line), the
    snapshot and the chunks `covered`, and then the chunks `later`, all through one filter. -/
def Shows (t : Tab) (covered later : List Bytes) : Prop :=
  ∃ note lines rows preamble, lines <:+ t.historyLines ∧ snapshotReplayPreamble rows = some preamble ∧
    (t.term.written, t.outputFilter) =
      filterAll [] ((replayParts note lines preamble t.snapshot covered).flatten :: later)

/-- The chunks that were received are on the screen, but for the last ones, which are in the
    write queue. -/
def Presents (t : Tab) (received : List Bytes) : Prop :=
  ∃ covered later, received = covered ++ later ++ t.writeQueue ∧ t.Shows covered later

/-- The same, unless a recovery was requested. -/
def Follows (t : Tab) (received : List Bytes) : Prop := t.recoveryRequested = false → t.Presents received

/-- What holds whether or not the tab is presented. -/
structure Frame (t : Tab) (received : List Bytes) : Prop where
  sound : t.Sound
  openStill : t.closing = false
  kept : t.liveOverflowed = false → t.liveChunks = numbered received ∧ t.liveSequence = received.length
  hidden : t.presented = true → t.renderPending = false ∧ t.replayInFlight = false ∧ t.awaitingSnapshot = false
  held : t.renderPending = true ∨ t.replayInFlight = true → t.writeQueue = []
  older : ∀ g k, t.term.callbacks = [.replay g k] → g ≤ t.attachmentGeneration
  replay : ∀ k, t.term.callbacks = [.replay t.attachmentGeneration k] → t.awaitingSnapshot = false ∧
    (t.liveOverflowed = false → ∃ covered, covered.length = k ∧ covered <+: received ∧ t.Shows covered [])

theorem Presents.pumpWrites {t : Tab} {received : List Bytes} (h : t.Presents received) : t.pumpWrites.Presents received := by
  obtain he | ⟨data, rest, -, hq, hstep⟩ := t.pumpWrites_cases
  · rw [he]
    exact h
  · obtain ⟨covered, later, hrec, note, lines, rows, preamble, hsuf, hpre, hshown⟩ := h
    have hnext := filterAll_append
      ((replayParts note lines preamble t.snapshot covered).flatten :: later) [data] []
    rw [List.cons_append, ← hshown] at hnext
    simp only [filterAll, List.append_nil] at hnext
    obtain ⟨hout, he⟩ | he := hstep <;> rw [he]
    · refine ⟨covered, later ++ [data], by simp [hrec, hq], note, lines, rows, preamble, hsuf, hpre, ?_⟩
      dsimp only
      rw [filterAll, hnext, hout, List.append_nil]
    · refine ⟨covered, later ++ [data], by simp [hrec, hq], note, lines, rows, preamble, hsuf, hpre, ?_⟩
      dsimp only
      rw [filterAll, hnext]

theorem Frame.pumpWrites {t : Tab} {received : List Bytes} (h : t.Frame received) : t.pumpWrites.Frame received := by
  have hsound := h.sound.pumpWrites
  obtain he | ⟨data, rest, ⟨hw, hr, hp, -⟩, hq, hstep⟩ := t.pumpWrites_cases
  · rw [he]
    exact h
  · have hcb : t.term.callbacks = [] := by
      obtain ⟨-, -, hcb⟩ | ⟨hw', -⟩ | ⟨-, hr', -⟩ := h.sound.flight
      · exact hcb
      · simp [hw] at hw'
      · simp [hr] at hr'
    obtain ⟨-, he⟩ | he := hstep <;> rw [he] at hsound ⊢
    · refine ⟨hsound, h.openStill, h.kept, h.hidden, fun hbusy => by simp [hp, hr] at hbusy, h.older, fun k hk => ?_⟩
      simp [hcb] at hk
    · refine ⟨hsound, h.openStill, h.kept, h.hidden, fun hbusy => by simp [hp, hr] at hbusy, fun g k hk => ?_, fun k hk => ?_⟩
      · simp [hcb] at hk
      · simp [hcb] at hk

@[simp] theorem pumpWrites_recoveryRequested (t : Tab) : t.pumpWrites.recoveryRequested = t.recoveryRequested := by
  obtain he | ⟨data, rest, -, -, ⟨-, he⟩ | he⟩ := t.pumpWrites_cases <;> rw [he]

theorem requestRecovery_requested {t : Tab} (h : t.closing = false) : t.requestRecovery.recoveryRequested = true := by
  obtain ⟨he, hr | hc⟩ | he := t.requestRecovery_cases
  · rw [he]
    exact hr
  · simp [h] at hc
  · rw [he]

theorem Frame.requestRecovery {t : Tab} {received : List Bytes} (h : t.Frame received) : t.requestRecovery.Frame received := by
  have hsound := h.sound.requestRecovery
  obtain ⟨he, -⟩ | he := t.requestRecovery_cases <;> rw [he] at hsound ⊢
  · exact h
  · exact ⟨hsound, h.openStill, h.kept, h.hidden, h.held, h.older, h.replay⟩

theorem Follows.pumpWrites {t : Tab} {received : List Bytes} (h : t.Follows received) : t.pumpWrites.Follows received :=
  fun hr => (h (by simpa using hr)).pumpWrites

/-- The chunk goes to the end of the queue, or a recovery is requested. -/
theorem Follows.enqueueWrite {t : Tab} {received : List Bytes} (h : t.Follows received)
    (hopen : t.closing = false) (data : Bytes) :
    (t.enqueueWrite data).Follows (received ++ [data]) := by
  obtain he | ⟨-, -, he⟩ := t.enqueueWrite_cases data <;> rw [he]
  · have hr := requestRecovery_requested (t := { t.clearWriteQueue with presented := false }) hopen
    intro hr'
    rw [hr] at hr'
    cases hr'
  · refine Follows.pumpWrites fun hr => ?_
    obtain ⟨covered, later, hrec, hshown⟩ := h hr
    exact ⟨covered, later, by simp [hrec], hshown⟩

theorem Frame.enqueueWrite {t : Tab} {received : List Bytes} (h : t.Frame received) (hp : t.renderPending = false)
    (hr : t.replayInFlight = false) (data : Bytes) : (t.enqueueWrite data).Frame received := by
  have hidle : ∀ {q : List Bytes}, (t.renderPending = true ∨ t.replayInFlight = true) → q = [] := by
    rintro q (hp' | hr')
    · simp [hp] at hp'
    · simp [hr] at hr'
  obtain he | ⟨hfits, hroom, he⟩ := t.enqueueWrite_cases data <;> rw [he]
  · refine Frame.requestRecovery ⟨⟨h.sound.flight, ?_⟩, h.openStill, h.kept, nofun, hidle, h.older, h.replay⟩
    exact ⟨h.sound.counts.live, h.sound.clearWriteQueue.counts.write, h.sound.counts.history⟩
  · exact Frame.pumpWrites ⟨h.sound.push hfits hroom, h.openStill, h.kept, h.hidden, hidle, h.older, h.replay⟩

/-- The flags that `enqueueWrite` leaves. -/
theorem enqueueWrite_flags (t : Tab) (data : Bytes) : (t.enqueueWrite data).renderPending = t.renderPending ∧
    (t.enqueueWrite data).replayInFlight = t.replayInFlight ∧ (t.enqueueWrite data).closing = t.closing := by
  have hpump : ∀ t : Tab, t.pumpWrites.renderPending = t.renderPending ∧ t.pumpWrites.replayInFlight = t.replayInFlight ∧
      t.pumpWrites.closing = t.closing := by
    intro t
    obtain he | ⟨data, rest, -, -, ⟨-, he⟩ | he⟩ := t.pumpWrites_cases <;> rw [he] <;> exact ⟨rfl, rfl, rfl⟩
  obtain he | ⟨-, -, he⟩ := t.enqueueWrite_cases data <;> rw [he]
  · obtain ⟨he, -⟩ | he := requestRecovery_cases { t.clearWriteQueue with presented := false } <;> rw [he]
      <;> exact ⟨rfl, rfl, rfl⟩
  · exact hpump _

/-- What a replay did not cover is enqueued after it. -/
theorem follows_enqueueAll {received : List Bytes} (later : List Bytes) {t : Tab} (hframe : t.Frame received)
    (hp : t.renderPending = false) (hr : t.replayInFlight = false) {covered : List Bytes} (h : t.Follows covered) :
    (later.foldl enqueueWrite t).Frame received ∧ (later.foldl enqueueWrite t).Follows (covered ++ later) := by
  induction later generalizing t covered with
  | nil => exact ⟨hframe, by simpa using h⟩
  | cons data rest ih =>
    obtain ⟨hp', hr', -⟩ := t.enqueueWrite_flags data
    have := ih (hframe.enqueueWrite hp hr data) (hp'.trans hp) (hr'.trans hr) (h.enqueueWrite hframe.openStill data)
    simpa using this

end Tab

/-- The screen is exact, now and after what is under way. -/
structure Exact (v : View) : Prop where
  frame : v.tab.Frame v.received
  shown : v.tab.presented = true → v.tab.Follows v.received

theorem exact_new (rows : Nat) : Exact ⟨.new rows, []⟩ where
  frame := {
    sound := Tab.sound_new rows
    openStill := rfl
    kept := fun _ => ⟨rfl, rfl⟩
    hidden := nofun
    held := fun _ => rfl
    older := nofun
    replay := nofun }
  shown := nofun

namespace Exact

variable {t : Tab} {received : List Bytes}

theorem pumpWrites (h : Exact ⟨t, received⟩) : Exact ⟨t.pumpWrites, received⟩ := by
  refine ⟨h.frame.pumpWrites, fun hp => ?_⟩
  refine (h.shown ?_).pumpWrites
  obtain he | ⟨data, rest, -, -, ⟨-, he⟩ | he⟩ := t.pumpWrites_cases <;> simpa [he] using hp

theorem requestRecovery (h : Exact ⟨t, received⟩) : Exact ⟨t.requestRecovery, received⟩ :=
  ⟨h.frame.requestRecovery, fun _ hr => by
    have := Tab.requestRecovery_requested h.frame.openStill
    dsimp only at hr this
    rw [this] at hr
    cases hr⟩

/-- A replay covers everything, for the attachment whose snapshot is there. -/
theorem startRenderIfIdle (h : Exact ⟨t, received⟩)
    (hready : t.renderPending = true → t.writeInFlight = false → t.replayInFlight = false → t.awaitingSnapshot = false) :
    Exact ⟨t.startRenderIfIdle, received⟩ := by
  have hframe := h.frame
  have hsound := hframe.sound.startRenderIfIdle
  obtain he | ⟨⟨hp, hw, hr⟩, he | ⟨preamble, replay, hpre, hrep, he⟩⟩ := t.startRenderIfIdle_cases
  · rw [he]
    exact h
  · rw [he]
    refine requestRecovery ⟨⟨⟨hframe.sound.flight, ⟨hframe.sound.counts.live, hframe.sound.counts.write,
      hframe.sound.counts.history⟩⟩, hframe.openStill, hframe.kept, ?_, ?_, hframe.older, hframe.replay⟩, h.shown⟩
    · exact fun hpres => ⟨rfl, (hframe.hidden hpres).2⟩
    · rintro (hp' | hr')
      · cases hp'
      · exact hframe.held (.inr hr')
  · have hhidden : t.presented = false := by
      by_contra hpres
      have := (hframe.hidden (by simpa using hpres)).1
      dsimp only at this
      rw [hp] at this
      cases this
    have hcb : t.term.callbacks = [] := by
      obtain ⟨-, -, hcb⟩ | ⟨hw', -⟩ | ⟨-, hr', -⟩ := hframe.sound.flight
      · exact hcb
      · simp [hw] at hw'
      · simp [hr] at hr'
    rw [he] at hsound ⊢
    refine ⟨⟨hsound, hframe.openStill, hframe.kept, ?_, ?_, ?_, ?_⟩, ?_⟩
    · exact fun hpres => by simp [hhidden] at hpres
    · exact fun _ => hframe.held (.inl hp)
    · intro g k hk
      simp only [hcb, List.nil_append, List.cons.injEq, Callback.replay.injEq] at hk
      exact Nat.le_of_eq hk.1.1.symm
    · intro k hk
      simp only [hcb, List.nil_append, List.cons.injEq, Callback.replay.injEq] at hk
      refine ⟨hready hp hw hr, fun hover => ?_⟩
      obtain ⟨hchunks, hseq⟩ := hframe.kept hover
      refine ⟨received, by rw [← hk.1.2]; exact hseq.symm, List.prefix_rfl, t.note, t.historyLines, t.term.rows, preamble,
        List.suffix_rfl, hpre, ?_⟩
      rw [Tab.buildReplay, hchunks, map_numbered] at hrep
      obtain ⟨_, -, rfl⟩ := Option.map_eq_some_iff.mp hrep
      simp [filterAll]
    · exact fun hpres => by simp [hhidden] at hpres

theorem render (h : Exact ⟨t, received⟩)
    (hready : t.liveOverflowed = false → t.writeInFlight = false → t.replayInFlight = false → t.awaitingSnapshot = false) :
    Exact ⟨t.render, received⟩ := by
  have hframe := h.frame
  unfold Tab.render
  split
  · exact h
  · split
    · split
      · exact h
      · exact h.requestRecovery
    · next hover =>
      refine startRenderIfIdle ⟨⟨⟨hframe.sound.flight, ?_⟩, hframe.openStill, hframe.kept, nofun, fun _ => rfl, hframe.older,
        hframe.replay⟩, nofun⟩ fun _ => hready (by simpa using hover)
      exact ⟨hframe.sound.counts.live, hframe.sound.clearWriteQueue.counts.write, hframe.sound.counts.history⟩

/-- The callback of the replay that is under way: the tab is presented. -/
theorem present (h : Exact ⟨t, received⟩) {k : Nat} (hp : t.renderPending = false) (hr : t.replayInFlight = false)
    (hready : t.awaitingSnapshot = false) (hqueue : t.writeQueue = [])
    (hcover : t.liveOverflowed = false → ∃ covered, covered.length = k ∧ covered <+: received ∧ t.Shows covered []) :
    Exact ⟨t.present k, received⟩ := by
  have hframe := h.frame
  have hup : Tab.Frame { t with presented := true } received :=
    ⟨⟨hframe.sound.flight, ⟨hframe.sound.counts.live, hframe.sound.counts.write, hframe.sound.counts.history⟩⟩, hframe.openStill,
      hframe.kept, fun _ => ⟨hp, hr, hready⟩, hframe.held, hframe.older, hframe.replay⟩
  unfold Tab.present
  dsimp only
  split
  · refine ⟨hup.requestRecovery, fun _ hreq => ?_⟩
    have := Tab.requestRecovery_requested hup.openStill
    dsimp only at hreq
    rw [this] at hreq
    cases hreq
  · next hover =>
    have hover : t.liveOverflowed = false := by simpa using hover
    obtain ⟨covered, hlen, ⟨later, hlater⟩, hshows⟩ := hcover hover
    have hrest : (t.liveChunks.filter fun chunk => chunk.sequence > k).map (·.data) = later := by
      rw [(hframe.kept hover).1, ← hlater, ← hlen]
      exact later_numbered covered later
    obtain ⟨hall, hfollows⟩ := @Tab.follows_enqueueAll _ later _ hup hp hr covered
      fun _ => ⟨covered, [], by simp [hqueue], hshows⟩
    rw [hrest]
    rw [hlater] at hfollows
    exact pumpWrites ⟨hall, fun _ => hfollows⟩

/-- A chunk that is kept, before it is enqueued. -/
theorem keep (h : Exact ⟨t, received⟩) {data : Bytes} (hd : data.length ≤ liveBufferCap) :
    (t.keep data).Frame (received ++ [data]) ∧ (t.presented = true → (t.keep data).Follows received) ∧
      (t.keep data).presented = t.presented ∧ (t.keep data).renderPending = t.renderPending ∧
      (t.keep data).replayInFlight = t.replayInFlight := by
  have hframe := h.frame
  have hsound := hframe.sound.keep hd
  obtain ⟨kept, he, -⟩ := Tab.keep_spec hframe.sound.counts hd
  rw [he] at hsound ⊢
  refine ⟨⟨hsound, hframe.openStill, fun hover => ?_, hframe.hidden, hframe.held, hframe.older, fun k hk => ?_⟩,
    h.shown, rfl, rfl, rfl⟩
  · simp only [Bool.or_eq_false_iff, decide_eq_false_iff_not, not_not] at hover
    obtain ⟨hchunks, hseq⟩ := hframe.kept hover.1
    rw [numbered_snoc, ← hchunks, ← hseq, List.length_append, ← hseq]
    exact ⟨hover.2, rfl⟩
  · obtain ⟨hready, hcover⟩ := hframe.replay k hk
    refine ⟨hready, fun hover => ?_⟩
    simp only [Bool.or_eq_false_iff] at hover
    obtain ⟨covered, hlen, hpre, hshows⟩ := hcover hover.1
    exact ⟨covered, hlen, hpre.trans (List.prefix_append _ _), hshows⟩

theorem appendLive (h : Exact ⟨t, received⟩) (data : Bytes) : Exact ⟨t.appendLive data, received ++ [data]⟩ := by
  have hframe := h.frame
  have hover : Tab.Frame { t with liveOverflowed := true } (received ++ [data]) :=
    ⟨hframe.sound.overflow, hframe.openStill, nofun, hframe.hidden, hframe.held, hframe.older,
      fun k hk => ⟨(hframe.replay k hk).1, nofun⟩⟩
  unfold Tab.appendLive
  split
  · next hc =>
    have hopen : t.closing = false := hframe.openStill
    rw [hopen] at hc
    cases hc
  · split
    · split
      · refine ⟨hover.requestRecovery, fun _ hreq => ?_⟩
        have := Tab.requestRecovery_requested hover.openStill
        dsimp only at hreq
        rw [this] at hreq
        cases hreq
      · next hp => exact ⟨hover, fun hp' => absurd hp' hp⟩
    · next hd =>
      obtain ⟨hkept, hfollows, hpres, hpend, hfly⟩ := h.keep (show data.length ≤ liveBufferCap by omega)
      dsimp only
      split
      · next hgo =>
        simp only [Bool.and_eq_true, Bool.not_eq_true'] at hgo
        obtain ⟨⟨hp, hr⟩, hpd⟩ := hgo
        exact ⟨hkept.enqueueWrite hpd hr data, fun _ => (hfollows (hpres ▸ hp)).enqueueWrite hkept.openStill data⟩
      · next hgo =>
        refine ⟨hkept, fun hp => (hgo ?_).elim⟩
        obtain ⟨hpd, hr, -⟩ := hkept.hidden hp
        dsimp only at hp
        simp [hp, hr, hpd]

/-- The snapshot comes while nothing of its attachment is shown. -/
theorem snapshot (h : Exact ⟨t, received⟩) (hwait : t.awaitingSnapshot = true) (bytes : Bytes) :
    Exact ⟨{ t with awaitingSnapshot := false, snapshot := bytes }, received⟩ := by
  have hframe := h.frame
  have hhidden : t.presented = false := by
    by_contra hp
    have := (hframe.hidden (by simpa using hp)).2.2
    dsimp only at this
    rw [hwait] at this
    cases this
  refine ⟨⟨⟨hframe.sound.flight, ⟨hframe.sound.counts.live, hframe.sound.counts.write, hframe.sound.counts.history⟩⟩,
    hframe.openStill,
    hframe.kept, fun hp => by simp [hhidden] at hp, hframe.held, hframe.older, fun k hk => ?_⟩, fun hp => by simp [hhidden] at hp⟩
  have := (hframe.replay k hk).1
  dsimp only at this
  rw [hwait] at this
  cases this

/-- Older lines come before those that are shown. -/
theorem history (h : Exact ⟨t, received⟩) {t' : Tab} (lines : List Bytes) (bytes : Nat) (truncated exhausted : Bool)
    (fetched available : Nat)
    (he : t' = { t with
      historyLines := lines ++ t.historyLines, historyBytes := bytes, historyClientTruncated := truncated,
      historyExhausted := exhausted, oldestFetched := fetched, oldestAvailable := available })
    (hsound : t'.Sound) : Exact ⟨t', received⟩ := by
  have hframe := h.frame
  have hshows : ∀ {covered later : List Bytes}, t.Shows covered later → t'.Shows covered later := by
    rintro covered later ⟨note, l, rows, preamble, hsuf, hrest⟩
    subst he
    exact ⟨note, l, rows, preamble, hsuf.trans (List.suffix_append _ _), hrest⟩
  refine ⟨⟨hsound, ?_, ?_, ?_, ?_, ?_, fun k hk => ?_⟩, fun hp hreq => ?_⟩
  · subst he; exact hframe.openStill
  · subst he; exact hframe.kept
  · subst he; exact hframe.hidden
  · subst he; exact hframe.held
  · subst he; exact hframe.older
  · obtain ⟨hready, hcover⟩ := hframe.replay k (by subst he; exact hk)
    refine ⟨by subst he; exact hready, fun hover => ?_⟩
    obtain ⟨covered, hlen, hpre, hs⟩ := hcover (by subst he; exact hover)
    exact ⟨covered, hlen, hpre, hshows hs⟩
  · obtain ⟨covered, later, hrec, hs⟩ := h.shown (by subst he; exact hp) (by subst he; exact hreq)
    exact ⟨covered, later, by subst he; exact hrec, hshows hs⟩

theorem historyPage (h : Exact ⟨t, received⟩) (lines : List Bytes) (firstLineId : Nat) (truncated : Bool) :
    Exact ⟨t.historyPage lines firstLineId truncated, received⟩ := by
  have hsound := h.frame.sound.historyPage lines firstLineId truncated
  have hform : ∃ more bytes cut exhausted fetched, t.historyPage lines firstLineId truncated = { t with
      historyLines := more ++ t.historyLines, historyBytes := bytes, historyClientTruncated := cut,
      historyExhausted := exhausted, oldestFetched := fetched, oldestAvailable := t.oldestAvailable } := by
    unfold Tab.historyPage Tab.prependHistory
    dsimp only
    split
    · exact ⟨[], _, _, _, _, rfl⟩
    · split <;> split <;> exact ⟨_, _, _, _, _, rfl⟩
  obtain ⟨more, bytes, cut, exhausted, fetched, he⟩ := hform
  exact h.history more bytes cut exhausted fetched t.oldestAvailable he hsound

theorem resetForAttach (h : Exact ⟨t, received⟩) : Exact ⟨t.resetForAttach, []⟩ := by
  have hframe := h.frame
  refine ⟨⟨hframe.sound.resetForAttach, hframe.openStill, fun _ => ⟨rfl, rfl⟩, nofun, fun _ => rfl, fun g k hk =>
    ?_, fun k hk => ?_⟩, nofun⟩
  · exact Nat.le_succ_of_le (hframe.older g k hk)
  · exact absurd (hframe.older _ k hk) (Nat.not_succ_le_self _)

theorem written (h : Exact ⟨t, received⟩)
    (hready : t.renderPending = true → t.awaitingSnapshot = false) : Exact ⟨t.written, received⟩ := by
  have hframe := h.frame
  have hcounts := hframe.sound.counts
  unfold Tab.written
  obtain ⟨-, -, hcb⟩ | ⟨-, hr, hcb⟩ | ⟨hw, hr, g, k, hcb⟩ := hframe.sound.flight
  · rw [hcb]
    exact h
  · rw [hcb]
    have hidle : Exact ⟨{ t with term := { t.term with callbacks := [] }, writeInFlight := false }, received⟩ :=
      ⟨⟨⟨.inl ⟨rfl, hr, rfl⟩, ⟨hcounts.live, hcounts.write, hcounts.history⟩⟩, hframe.openStill, hframe.kept, hframe.hidden,
        hframe.held, nofun, nofun⟩, h.shown⟩
    simp only [Tab.called]
    split
    · exact hidle.startRenderIfIdle fun hp _ _ => hready hp
    · exact hidle.pumpWrites
  · rw [hcb]
    have hqueue := hframe.held (.inr hr)
    have hidle : Exact ⟨{ t with term := { t.term with callbacks := [] }, replayInFlight := false }, received⟩ :=
      ⟨⟨⟨.inl ⟨hw, rfl, rfl⟩, ⟨hcounts.live, hcounts.write, hcounts.history⟩⟩, hframe.openStill, hframe.kept,
        fun hp => ⟨(hframe.hidden hp).1, rfl, (hframe.hidden hp).2.2⟩, fun _ => hqueue, nofun, nofun⟩, h.shown⟩
    simp only [Tab.called]
    split
    · exact hidle
    · split
      · exact hidle.startRenderIfIdle fun hp _ _ => hready hp
      · next hcur =>
        simp only [not_or, not_not] at hcur
        obtain ⟨rfl, hp⟩ := hcur
        obtain ⟨hawait, hcover⟩ := hframe.replay k hcb
        exact hidle.present (by simpa using hp) rfl hawait hqueue hcover

end Exact

/-- Does a replay start whose attachment's snapshot has not come? -/
def early (v : View) : Input → Bool
  | .render => v.tab.awaitingSnapshot && !v.tab.liveOverflowed && !v.tab.writeInFlight && !v.tab.replayInFlight
  | .written => v.tab.awaitingSnapshot && v.tab.renderPending
  | _ => false

theorem exact_step {v : View} (h : Exact v) {i : Input} (hready : early v i = false) : Exact (v.step i) := by
  have hopen := h.frame.openStill
  cases i with
  | message generation bytes =>
    simp only [View.step, Tab.onChannelMessage]
    by_cases hg : generation = v.tab.attachmentGeneration
    · rw [if_neg (by simp [hopen, hg])]
      by_cases hw : v.tab.awaitingSnapshot = true
      · rw [if_pos hw, if_pos (.inr (.inr hw))]
        exact h.snapshot hw bytes
      · rw [if_neg hw, if_neg (by simp [hopen, hg, hw])]
        exact h.appendLive bytes
    · rw [if_pos (.inr hg), if_pos (.inr (.inl hg))]
      exact h
  | appendLive data => simpa [View.step, hopen] using h.appendLive data
  | historyPage lines firstLineId truncated => exact h.historyPage lines firstLineId truncated
  | attached oldest newest =>
    exact h.history [] v.tab.historyBytes v.tab.historyClientTruncated (newest = 0) v.tab.oldestFetched oldest rfl
      ⟨h.frame.sound.flight, ⟨h.frame.sound.counts.live, h.frame.sound.counts.write, h.frame.sound.counts.history⟩⟩
  | render =>
    refine h.render fun ho hw hr => ?_
    simpa [early, ho, hw, hr] using hready
  | resetForAttach => exact h.resetForAttach
  | written =>
    refine h.written fun hp => ?_
    simpa [early, hp] using hready
  | pump =>
    simp only [View.step]
    split
    · exact h
    · refine Exact.pumpWrites (t := { v.tab with pumps := v.tab.pumps - 1 })
        ⟨⟨?_, hopen, h.frame.kept, h.frame.hidden, h.frame.held,
        h.frame.older, h.frame.replay⟩, h.shown⟩
      exact ⟨h.frame.sound.flight, ⟨h.frame.sound.counts.live, h.frame.sound.counts.write, h.frame.sound.counts.history⟩⟩
  | resized rows =>
    refine ⟨⟨?_, hopen, h.frame.kept, h.frame.hidden, h.frame.held, h.frame.older, h.frame.replay⟩, h.shown⟩
    exact ⟨h.frame.sound.flight, ⟨h.frame.sound.counts.live, h.frame.sound.counts.write, h.frame.sound.counts.history⟩⟩

/-! ## Every run -/

/-- After every run one write or replay is under way at most, and every counter counts its
    queue and stays in its bounds. If moreover no replay started before the snapshot of its
    attachment, a tab that is presented, and for whose attachment no recovery was requested,
    shows its attachment: xterm was handed a replay of (a part of) the history, the snapshot
    and the first chunks received, then the next chunks in order, all of it filtered; and
    the rest of the chunks received is the write queue. -/
theorem presentation_exact (rows : Nat) (is : List Input) :
    let v := machine.run ⟨.new rows, []⟩ is
    v.tab.Flight ∧ v.tab.Counts ∧
      (machine.Admissible (fun v i => early v i = false) ⟨.new rows, []⟩ is → v.tab.presented = true →
        v.tab.recoveryRequested = false → v.tab.awaitingSnapshot = false ∧ v.tab.Presents v.received) := by
  have hsound := machine.run_always (P := fun v : View => v.tab.Sound) (fun _ i hv => sound_step hv i)
    (s := ⟨.new rows, []⟩) (Tab.sound_new rows) is
  refine ⟨hsound.flight, hsound.counts, fun hrun hpres hreq => ?_⟩
  have hexact := machine.run_induction (P := Exact) (fun _ _ hv hi => exact_step hv hi) (exact_new rows) hrun
  exact ⟨(hexact.frame.hidden hpres).2.2, hexact.shown hpres hreq⟩

/-- The first attachment is on the screen, and its first page of history asked for. -/
def attachedOnce : List Input := [.resetForAttach, .message 1 [65], .attached 1 9, .render, .message 1 [66], .written]

theorem presentation_exact_once :
    (machine.run ⟨.new 1, []⟩ attachedOnce).tab.Presents (machine.run ⟨.new 1, []⟩ attachedOnce).received ∧
      (machine.run ⟨.new 1, []⟩ attachedOnce).tab.term.written = [13, 10, 27, 91, 72, 65, 66] :=
  ⟨((presentation_exact 1 attachedOnce).2.2 (by decide +kernel) (by decide +kernel) (by decide +kernel)).2, by decide +kernel⟩

def attachedTwice : List Input := [.resetForAttach, .render, .written, .written, .message 2 [67], .message 2 [68]]

theorem preamble_free {rows : Nat} {preamble : Bytes} (h : snapshotReplayPreamble rows = some preamble) :
    ∀ b ∈ preamble, b ≠ bidiIsolateLead := by
  have hline : ∀ b ∈ ([13, 10] : Bytes), b ≠ bidiIsolateLead := by simp [bidiIsolateLead]
  have hhome : ∀ b ∈ ([27, 91, 72] : Bytes), b ≠ bidiIsolateLead := by simp [bidiIsolateLead]
  intro b hb
  unfold snapshotReplayPreamble at h
  split at h
  · cases h
  · cases h
    obtain hb | hb := List.mem_append.mp hb
    · obtain ⟨line, hmem, hb⟩ := List.mem_flatten.mp hb
      rw [(List.mem_replicate.mp hmem).2] at hb
      exact hline b hb
    · exact hhome b hb

/-- The shell is attached again, and only then comes the page, whose render nothing ties to
    the first attachment: the replay starts before the second snapshot, which is not shown
    when it comes, and the live output is written without it. -/
theorem snapshot_unshown :
    let v := machine.run ⟨.new 1, []⟩ (attachedOnce ++ attachedTwice)
    v.tab.presented = true ∧ v.tab.recoveryRequested = false ∧ v.tab.awaitingSnapshot = false ∧
      v.tab.term.written = [13, 10, 27, 91, 72, 68] ∧ ¬ v.tab.Presents v.received := by
  have hend : (machine.run ⟨.new 1, []⟩ (attachedOnce ++ attachedTwice)).tab.historyLines = [] ∧
      (machine.run ⟨.new 1, []⟩ (attachedOnce ++ attachedTwice)).tab.writeQueue = [] ∧
      (machine.run ⟨.new 1, []⟩ (attachedOnce ++ attachedTwice)).tab.snapshot = [67] ∧
      (machine.run ⟨.new 1, []⟩ (attachedOnce ++ attachedTwice)).received = [[68]] ∧
      (machine.run ⟨.new 1, []⟩ (attachedOnce ++ attachedTwice)).tab.term.written = [13, 10, 27, 91, 72, 68] := by
    decide +kernel
  obtain ⟨hnone, hqueue, hsnapshot, hreceived, hwritten⟩ := hend
  refine ⟨by decide +kernel, by decide +kernel, by decide +kernel, hwritten, ?_⟩
  rintro ⟨covered, later, hrec, note, lines, rows, preamble, hsuf, hpre, hshown⟩
  have hlines : lines = [] := List.suffix_nil.mp (by rwa [hnone] at hsuf)
  have hchunks : covered.flatten ++ later.flatten = [68] := by
    have hall := congrArg List.flatten hrec
    rw [hreceived, hqueue, List.append_nil, List.flatten_append] at hall
    exact hall.symm
  -- whatever the replay covers, it is the preamble, the snapshot and the chunk that are filtered
  have hbytes : (replayParts note lines preamble [67] covered).flatten ++ later.flatten = preamble ++ [67, 68] := by
    simp [replayParts, historyParts, hlines, hchunks]
  have hfree : ∀ b ∈ preamble ++ [67, 68], b ≠ bidiIsolateLead := by
    intro b hb
    have hend : ∀ b ∈ ([67, 68] : Bytes), b ≠ bidiIsolateLead := by simp [bidiIsolateLead]
    obtain hb | hb := List.mem_append.mp hb
    · exact preamble_free hpre b hb
    · exact hend b hb
  have hall := congrArg Prod.fst hshown
  rw [filterAll_flatten _ rfl, hsnapshot, hwritten, List.flatten_cons, List.nil_append, hbytes, scan_free hfree] at hall
  have hlast : [13, 10, 27, 91] ++ [72, 68] = preamble ++ [67, 68] := hall
  exact absurd (List.append_inj' hlast rfl).2 (by decide)

end Holdfast.Desktop.Presentation

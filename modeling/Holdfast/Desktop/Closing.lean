/-
  Holdfast.Desktop.Closing — a close or a detach that fails (`closeTabNow`,
  `toggleAttachment` and `recoverTerminalNow` of `desktop/src/main.ts`), on the tab of
  `Desktop.Presentation` with its input queue (`Desktop.Input`).

  An operation raises its flags, waits for the input that is in flight, and hands its
  commands over one after the other; where one fails, the flags are lowered and the input
  goes on. Meanwhile output, callbacks, microtasks and input come to the same tab. While it
  is closing, the tab and the app turn them away; while it is detaching, a recovery.

  One operation is under way at a time, and the shell does not end meanwhile; the upload
  that a close cancels is no part of this, nor is a page of history.

  Proved:
  - `beside_step`: a step that is not turned away does to the tab what it does to one with no
    operation under way.
  - `failed_intact`: after such steps a failed operation leaves the tab that there would be
    without it.
  - `failed_not_intact`: a chunk that comes during a close, and a recovery that is requested
    during a detach.
-/

import Holdfast.Desktop.Tab
import Holdfast.Desktop.Input
import Holdfast.Desktop.Presentation

namespace Holdfast.Desktop.Closing

open Holdfast.Base

/-- What an operation awaits. -/
inductive Await where
  | input
  | cancelUpload
  | detach
  | forget
  deriving DecidableEq, Repr

inductive Op where
  | close (behavior : CloseBehavior) (awaits : Await)
  | toggle (awaits : Await)
  deriving DecidableEq, Repr

structure Client where
  tab : Presentation.Tab
  input : InputQueue
  state : TabState
  attaching : Bool
  detaching : Bool
  /-- Where `recoverTerminalNow` is. -/
  recovering : Phase
  op : Option Op
  /-- The tab is gone. -/
  closed : Bool
  deriving DecidableEq, Repr

inductive Input where
  /-- `closeTabNow`, confirmed. -/
  | close
  | toggle
  /-- What the operation awaits is done; `uploading`: has the shell an upload? -/
  | advance (uploading : Bool)
  /-- What it awaits fails. -/
  | fail
  | message (generation : Nat) (bytes : List UInt8)
  | render
  | written
  | pump
  /-- A microtask of `recoverTerminal`. -/
  | recover
  | recoverDrained
  | recoverDetached
  | bridgeFailed (generation : Nat)
  | attachReply (oldestHistoryLineId newestHistoryLineId : Nat)
  | attachFailed
  | typed (data : List UInt8)
  | sent
  | sendFailed
  | connected
  | disconnected
  deriving DecidableEq, Repr

namespace Client

def setTab (s : Client) (tab : Presentation.Tab) : Client := { s with tab := tab }

def recoverTerminal (s : Client) : Client := s.setTab { s.tab with recoveries := s.tab.recoveries + 1 }

/-- `attach`, up to its command. -/
def attach (s : Client) : Client :=
  if s.tab.closing || s.attaching || dead s.state then s
  else { s with attaching := true, tab := s.tab.resetForAttach }

def attachReply (s : Client) (oldest newest : Nat) : Client :=
  if s.attaching = false then s
  else if s.tab.closing then { s with attaching := false }
  else
    { s with
      attaching := false
      state := .live
      input := s.input.resume
      tab := { s.tab with oldestAvailable := oldest, historyExhausted := newest = 0 }.render }

def attachFailed (s : Client) : Client :=
  if s.attaching = false then s
  else if dead s.state then { s with attaching := false }
  else { s with attaching := false, state := .reconnecting }

/-- `recoverTerminalNow`, up to its first await. -/
def recover (s : Client) : Client :=
  if s.tab.recoveries = 0 then s
  else
    let s := s.setTab { s.tab with recoveries := s.tab.recoveries - 1 }
    if s.tab.closing || s.attaching || s.detaching || dead s.state then s
    else { s with detaching := true, input := s.input.pause, recovering := .paused }

def recoverDrained (s : Client) : Client :=
  if s.recovering = .paused ∧ s.input.inFlight = none then { s with state := .reconnecting, recovering := .sent } else s

def recoverDetached (s : Client) : Client :=
  if s.recovering = .sent then { s with detaching := false, recovering := .idle }.attach else s

/-- `sendInput`. -/
def typed (s : Client) (data : List UInt8) : Client :=
  if s.tab.closing || s.state == .detached || dead s.state then s else { s with input := s.input.enqueue data }

def sent (s : Client) : Client := if s.input.inFlight = none then s else { s with input := s.input.sent }

/-- The send fails: `inputFailed`. -/
def sendFailed (s : Client) : Client :=
  if s.input.inFlight = none then s
  else
    let s := { s with input := s.input.failed }
    if s.tab.closing || s.state != .live then s else s.recoverTerminal

def bridgeFailed (s : Client) (generation : Nat) : Client :=
  if s.tab.closing ∨ generation ≠ s.tab.attachmentGeneration then s else s.recoverTerminal

def connected (s : Client) : Client := if shouldAttachWhenConnected s.state then s.attach else s

def disconnected (s : Client) : Client :=
  if s.state = .live then { s with input := s.input.pause, state := .reconnecting } else s

def close (s : Client) : Client :=
  if s.tab.closing then s
  else
    { s with
      tab := { s.tab with closing := true }
      detaching := true
      input := s.input.pause
      op := some (.close (closeBehavior s.state) .input) }

def toggle (s : Client) : Client :=
  if s.attaching || s.detaching then s
  else if s.state = .detached then s.attach
  else if s.state = .live then { s with detaching := true, input := s.input.pause, op := some (.toggle .input) }
  else s

/-- The close has detached, if it had to. -/
def closeDetached (s : Client) (behavior : CloseBehavior) : Client :=
  let s := { s with input := s.input.clear }
  if behavior.forget then { s with op := some (.close behavior .forget) }
  else { s with op := none, closed := true, tab := s.tab.clearWriteQueue }

def closeCancelled (s : Client) (behavior : CloseBehavior) : Client :=
  if behavior.detach then { s with op := some (.close behavior .detach) } else s.closeDetached behavior

def toggleDetached (s : Client) (notice : List UInt8) : Client :=
  { s with op := none, input := s.input.clear, state := .detached, tab := s.tab.appendLive notice, detaching := false }

/-- The notice of a detach; its text is that of `toggleAttachment`. -/
def detachedNotice : List UInt8 :=
  "\r\n\x1b[2m[detached — shell keeps running; choose Attach when ready]\x1b[0m\r\n".toUTF8.toList

def advance (s : Client) (uploading : Bool) : Client :=
  match s.op with
  | none => s
  | some (.close behavior .input) =>
    if s.input.inFlight ≠ none then s
    else if uploading then { s with op := some (.close behavior .cancelUpload) }
    else s.closeCancelled behavior
  | some (.close behavior .cancelUpload) => s.closeCancelled behavior
  | some (.close behavior .detach) => s.closeDetached behavior
  | some (.close _ .forget) => { s with op := none, closed := true, tab := s.tab.clearWriteQueue }
  | some (.toggle .input) => if s.input.inFlight ≠ none then s else { s with op := some (.toggle .detach) }
  | some (.toggle _) => s.toggleDetached detachedNotice

/-- The `catch` of the operation; the drain of the input does not fail. -/
def fail (s : Client) : Client :=
  match s.op with
  | none | some (.close _ .input) | some (.toggle .input) => s
  | some (.close _ _) =>
    { s with
      op := none
      tab := { s.tab with closing := false }
      detaching := false
      input := if s.state = .live then s.input.resume else s.input }
  | some (.toggle _) => { s with op := none, input := s.input.resume, detaching := false }

def step (s : Client) (i : Input) : Client :=
  if s.closed then s
  else
    match i with
    | .close => if s.op = none then s.close else s
    | .toggle => if s.op = none then s.toggle else s
    | .advance uploading => s.advance uploading
    | .fail => s.fail
    | .message generation bytes => s.setTab (s.tab.onChannelMessage generation bytes)
    | .render => s.setTab s.tab.render
    | .written => s.setTab s.tab.written
    | .pump => if s.tab.pumps = 0 then s else s.setTab { s.tab with pumps := s.tab.pumps - 1 }.pumpWrites
    | .recover => s.recover
    | .recoverDrained => s.recoverDrained
    | .recoverDetached => s.recoverDetached
    | .bridgeFailed generation => s.bridgeFailed generation
    | .attachReply oldest newest => s.attachReply oldest newest
    | .attachFailed => s.attachFailed
    | .typed data => s.typed data
    | .sent => s.sent
    | .sendFailed => s.sendFailed
    | .connected => s.connected
    | .disconnected => s.disconnected

end Client

def machine : Machine Client Input Unit := ⟨fun s i => (s.step i, ())⟩

/-! ## What is turned away -/

/-- What a tab that is closing does not do. -/
def shutOut (t : Presentation.Tab) : Input → Bool
  | .message generation _ => generation = t.attachmentGeneration
  | .render =>
    !(t.liveOverflowed && (t.presented && !t.replayInFlight && !t.renderPending || t.recoveryRequested))
  | .written =>
    match t.term.callbacks with
    | [] => false
    | .write :: _ => t.renderPending || t.writeQueue ≠ []
    | .replay generation _ :: _ => t.renderPending || generation = t.attachmentGeneration
  | .pump => t.pumps ≠ 0 && !t.writeInFlight && !t.replayInFlight && !t.renderPending && t.writeQueue ≠ []
  | .bridgeFailed generation => generation = t.attachmentGeneration
  | _ => false

namespace Client

/-- Would a recovery go ahead if no operation were under way? -/
def recovers (s : Client) : Bool := s.tab.recoveries ≠ 0 && !s.attaching && !dead s.state

/-- Does the operation under way turn the step away, or the step take the input that the
    operation should give back? -/
def disturbs (s : Client) (i : Input) : Bool :=
  match s.op with
  | none => false
  | some (.close behavior _) =>
    shutOut s.tab i ||
      match i with
      | .advance _ => behavior.forget && s.input.queue ≠ []
      | .recover => s.recovers
      | .attachReply _ _ => s.attaching
      | .typed _ => s.state ≠ .detached && !dead s.state
      | .sendFailed => s.state = .live
      | .connected => shouldAttachWhenConnected s.state && !s.attaching
      | _ => false
  | some (.toggle _) =>
    match i with
    | .recover => s.recovers
    | .fail => s.state ≠ .live
    | _ => false

/-- What can come while the operation is under way, and stays under way. -/
def Meanwhile (s : Client) (i : Input) : Prop :=
  i ≠ .close ∧ i ≠ .toggle ∧ (i = .sent ∨ i = .sendFailed → s.input.inFlight ≠ none) ∧ (s.step i).op ≠ none ∧
    s.disturbs i = false

instance (s : Client) (i : Input) : Decidable (s.Meanwhile i) :=
  inferInstanceAs <| Decidable (i ≠ .close ∧ i ≠ .toggle ∧ (i = .sent ∨ i = .sendFailed → s.input.inFlight ≠ none) ∧
    (s.step i).op ≠ none ∧ s.disturbs i = false)

def isClose : Option Op → Bool
  | some (.close _ _) => true
  | _ => false

end Client

/-! ## The input -/

/-- A queue that an operation holds back, and the queue as it would be. -/
structure HeldBack (q q' : InputQueue) : Prop where
  queue : q.queue = q'.queue
  paused : q'.paused = true → q.paused = true
  flight : ∀ data, q.inFlight = some data → q'.inFlight = some data ∧ q'.current = q.current
  idle : q.inFlight = none → q'.inFlight = none ∨ ∃ data rest, q'.inFlight = some data ∧
    q'.current = true ∧ q'.queue = data :: rest
  coherent : q'.Coherent

namespace HeldBack

variable {q q' : InputQueue}

theorem start (h : q.Coherent) : HeldBack q.pause q :=
  ⟨rfl, fun _ => rfl, fun _ hd => ⟨hd, rfl⟩, fun hn => .inl hn, h⟩

theorem pause (h : HeldBack q q') : HeldBack q.pause q'.pause := ⟨h.queue, fun _ => rfl, h.flight, h.idle, h.coherent⟩

theorem pump_busy {data : Chunk} (h : q.inFlight = some data) : q.pump = q := by
  rw [InputQueue.pump, if_pos (by simp [h])]

theorem pump_paused (h : q.paused = true) : q.pump = q := by
  rw [InputQueue.pump, if_pos (.inl h)]

theorem pump_empty (h : q.queue = []) : q.pump = q := by
  rw [InputQueue.pump, h]
  split <;> rfl

theorem pump_head {data : Chunk} {rest : List Chunk} (hp : q.paused = false) (hf : q.inFlight = none)
    (hq : q.queue = data :: rest) :
    q.pump = { q with inFlight := some data, current := true } := by
  rw [InputQueue.pump, if_neg (by simp [hp, hf]), hq]

/-- Both go on where they can. -/
theorem pump (h : HeldBack q q') : HeldBack q.pump q'.pump := by
  have hco := h.coherent.pump
  cases hf : q.inFlight with
  | some data =>
    rw [pump_busy hf, pump_busy (h.flight data hf).1]
    exact h
  | none =>
    obtain hnone | ⟨data, rest, hd, hcur, hrest⟩ := h.idle hf
    · cases hq : q.queue with
      | nil =>
        rw [pump_empty hq, pump_empty (h.queue ▸ hq)]
        exact h
      | cons data rest =>
        have hq' : q'.queue = data :: rest := h.queue ▸ hq
        cases hp' : q'.paused with
        | true =>
          rw [pump_paused hp', pump_paused (h.paused hp')]
          exact h
        | false =>
          rw [pump_head hp' hnone hq'] at hco ⊢
          cases hp : q.paused with
          | true =>
            rw [pump_paused hp]
            exact ⟨h.queue, h.paused, fun d hd => (by rw [hf] at hd; cases hd), fun _ => .inr ⟨data, rest, rfl, rfl, hq'⟩, hco⟩
          | false =>
            rw [pump_head hp hf hq]
            exact ⟨h.queue, h.paused, fun _ hd => ⟨hd, rfl⟩, nofun, hco⟩
    · rw [pump_busy hd]
      cases hp : q.paused with
      | true =>
        rw [pump_paused hp]
        exact h
      | false =>
        rw [pump_head hp hf (h.queue.trans hrest)]
        refine ⟨h.queue, h.paused, ?_, nofun, h.coherent⟩
        rintro _ ⟨⟩
        exact ⟨hd, hcur⟩

theorem resume (h : HeldBack q q') : HeldBack q.resume q'.resume :=
  pump ⟨h.queue, nofun, h.flight, h.idle, h.coherent⟩

theorem enqueue (h : HeldBack q q') (data : Chunk) : HeldBack (q.enqueue data) (q'.enqueue data) := by
  have hbytes : q.queuedBytes = q'.queuedBytes := by rw [InputQueue.queuedBytes, h.queue]; rfl
  unfold InputQueue.enqueue
  rw [hbytes, h.queue]
  split
  · exact h
  · split
    · exact h
    · refine pump ⟨rfl, h.paused, h.flight, fun hn => ?_, fun hc => ?_⟩
      · obtain hnone | ⟨d, rest, hd, hcur, hrest⟩ := h.idle hn
        · exact .inl hnone
        · exact .inr ⟨d, rest ++ [data], hd, hcur, by simp [hrest]⟩
      · obtain ⟨d, hd, rest, hrest⟩ := h.coherent hc
        exact ⟨d, hd, rest ++ [data], by simp [hrest]⟩

theorem sent (h : HeldBack q q') {data : Chunk} (hf : q.inFlight = some data) : HeldBack q.sent q'.sent := by
  have hcur := (h.flight data hf).2
  refine pump ⟨?_, h.paused, nofun, fun _ => .inl rfl, nofun⟩
  dsimp only
  rw [hcur, h.queue]

theorem failed (h : HeldBack q q') : HeldBack q.failed q'.failed :=
  pump ⟨h.queue, fun _ => rfl, nofun, fun _ => .inl rfl, nofun⟩

/-- An empty queue loses nothing. -/
theorem clear (h : HeldBack q q') (hq : q.queue = []) : HeldBack q.clear q' := by
  have hq' : q'.queue = [] := h.queue ▸ hq
  have hcur : q'.current = false := by
    cases hc : q'.current with
    | false => rfl
    | true =>
      obtain ⟨_, -, _, hrest⟩ := h.coherent hc
      rw [hq'] at hrest
      cases hrest
  exact ⟨hq'.symm, h.paused, fun d hd => ⟨(h.flight d hd).1, hcur⟩, h.idle, h.coherent⟩

end HeldBack

/-! ## Beside the tab without the operation -/

/-- A client with an operation under way, and the one without it. -/
structure Beside (s t : Client) : Prop where
  tab : s.tab = { t.tab with closing := Client.isClose s.op }
  openStill : t.tab.closing = false
  state : s.state = t.state
  attaching : s.attaching = t.attaching
  detaching : s.detaching = true ∧ t.detaching = false
  recovering : s.recovering = .idle ∧ t.recovering = .idle
  op : t.op = none
  closed : s.closed = false ∧ t.closed = false
  input : HeldBack s.input t.input

namespace Beside

variable {s t : Client}

/-- A step that both take with their tabs. -/
theorem setTab (h : Beside s t) {tab tab' : Presentation.Tab} (htab : tab = { tab' with closing := Client.isClose s.op })
    (hopen : tab'.closing = false) : Beside (s.setTab tab) (t.setTab tab') :=
  ⟨htab, hopen, h.state, h.attaching, h.detaching, h.recovering, h.op, h.closed, h.input⟩

theorem same_tab (h : Beside s t) {awaits : Await} (hop : s.op = some (.toggle awaits)) : s.tab = t.tab := by
  have hc : Client.isClose s.op = false := by rw [hop]; rfl
  rw [h.tab, hc, ← h.openStill]

end Beside

/-- The steps of a tab leave `closing`. -/
theorem closing_pumpWrites (t : Presentation.Tab) : t.pumpWrites.closing = t.closing := by
  obtain he | ⟨data, rest, -, -, ⟨-, he⟩ | he⟩ := t.pumpWrites_cases <;> rw [he]

theorem closing_requestRecovery (t : Presentation.Tab) : t.requestRecovery.closing = t.closing := by
  obtain ⟨he, -⟩ | he := t.requestRecovery_cases <;> rw [he]

theorem closing_startRenderIfIdle (t : Presentation.Tab) : t.startRenderIfIdle.closing = t.closing := by
  obtain he | ⟨-, he | ⟨_, _, -, -, he⟩⟩ := t.startRenderIfIdle_cases <;> rw [he]
  exact closing_requestRecovery _

theorem closing_enqueueWrite (t : Presentation.Tab) (data : List UInt8) : (t.enqueueWrite data).closing = t.closing :=
  (t.enqueueWrite_flags data).2.2

theorem closing_keep (t : Presentation.Tab) (data : List UInt8) : (t.keep data).closing = t.closing := by
  have hevict : ∀ (chunks : List Presentation.LiveChunk) (t : Presentation.Tab), (t.evict chunks).closing = t.closing := by
    intro chunks
    induction chunks with
    | nil => exact fun _ => rfl
    | cons chunk rest ih =>
      intro t
      rw [Presentation.Tab.evict]
      split
      · exact ih _
      · rfl
  exact hevict _ _

theorem closing_appendLive (t : Presentation.Tab) (data : List UInt8) : (t.appendLive data).closing = t.closing := by
  unfold Presentation.Tab.appendLive
  split
  · rfl
  · split
    · split
      · exact closing_requestRecovery _
      · rfl
    · dsimp only
      split
      · rw [closing_enqueueWrite, closing_keep]
      · exact closing_keep _ _

theorem closing_onChannelMessage (t : Presentation.Tab) (generation : Nat) (bytes : List UInt8) :
    (t.onChannelMessage generation bytes).closing = t.closing := by
  unfold Presentation.Tab.onChannelMessage
  split
  · rfl
  · split
    · rfl
    · exact closing_appendLive _ _

theorem closing_render (t : Presentation.Tab) : t.render.closing = t.closing := by
  unfold Presentation.Tab.render
  split
  · rfl
  · split
    · split
      · rfl
      · exact closing_requestRecovery _
    · exact closing_startRenderIfIdle _

theorem closing_written (t : Presentation.Tab) : t.written.closing = t.closing := by
  have henqueue : ∀ (chunks : List (List UInt8)) (t : Presentation.Tab),
      (chunks.foldl Presentation.Tab.enqueueWrite t).closing = t.closing := by
    intro chunks
    induction chunks with
    | nil => exact fun _ => rfl
    | cons data rest ih => exact fun t => (ih _).trans (closing_enqueueWrite t data)
  unfold Presentation.Tab.written
  split
  · rfl
  · next callback rest _ =>
    cases callback with
    | write =>
      simp only [Presentation.Tab.called]
      split
      · exact closing_startRenderIfIdle _
      · exact closing_pumpWrites _
    | replay generation k =>
      simp only [Presentation.Tab.called]
      split
      · rfl
      · split
        · exact closing_startRenderIfIdle _
        · unfold Presentation.Tab.present
          dsimp only
          split
          · exact closing_requestRecovery _
          · exact (closing_pumpWrites _).trans (henqueue _ _)

/-! ## A tab that is closing -/

section

variable {t : Presentation.Tab}

theorem shut_message {generation : Nat} {bytes : List UInt8} (h : shutOut t (.message generation bytes) = false) :
    { t with closing := true }.onChannelMessage generation bytes =
    { t.onChannelMessage generation bytes with closing := true } := by
  have hne : generation ≠ t.attachmentGeneration := by simpa [shutOut] using h
  rw [Presentation.Tab.onChannelMessage, if_pos (.inl rfl), Presentation.Tab.onChannelMessage, if_pos (.inr hne)]

theorem shut_render (hopen : t.closing = false) (h : shutOut t .render = false) :
    { t with closing := true }.render = { t.render with closing := true } := by
  simp only [shutOut, Bool.not_eq_false', Bool.and_eq_true, Bool.or_eq_true] at h
  have hsame : t.render = t := by
    unfold Presentation.Tab.render
    rw [if_neg (by simp [hopen]), if_pos h.1]
    obtain ⟨hover, hidle | hreq⟩ := h
    · rw [if_pos (by simpa using hidle)]
    · split
      · rfl
      · rw [Presentation.Tab.requestRecovery, if_pos (by simp [hreq])]
  rw [hsame, Presentation.Tab.render, if_pos rfl]

theorem pump_nothing (h : t.writeQueue = []) : t.pumpWrites = t := by
  obtain he | ⟨data, rest, -, hq, -⟩ := t.pumpWrites_cases
  · exact he
  · rw [h] at hq
    cases hq

theorem shut_pump (h : shutOut t .pump = false) (hp : t.pumps ≠ 0) :
    { t with closing := true, pumps := t.pumps - 1 }.pumpWrites =
    { { t with pumps := t.pumps - 1 }.pumpWrites with closing := true } := by
  have hsame : { t with pumps := t.pumps - 1 }.pumpWrites = { t with pumps := t.pumps - 1 } := by
    obtain he | ⟨data, rest, ⟨hw, hr, hpd, -⟩, hq, -⟩ := Presentation.Tab.pumpWrites_cases { t with pumps := t.pumps - 1 }
    · exact he
    · dsimp only at hw hr hpd hq
      simp [shutOut, hw, hr, hpd, hq, hp] at h
  rw [hsame, Presentation.Tab.pumpWrites, if_pos (by simp)]

theorem shut_written (hopen : t.closing = false) (h : shutOut t .written = false) :
    { t with closing := true }.written = { t.written with closing := true } := by
  unfold Presentation.Tab.written
  dsimp only
  cases hcb : t.term.callbacks with
  | nil => rfl
  | cons callback rest =>
    simp only [shutOut, hcb] at h
    cases callback with
    | write =>
      simp only [Bool.or_eq_false_iff, decide_eq_false_iff_not, not_not] at h
      obtain ⟨hpd, hq⟩ := h
      simp only [Presentation.Tab.called, hpd, Bool.false_eq_true, if_false]
      rw [pump_nothing, pump_nothing] <;> exact hq
    | replay generation k =>
      simp only [Bool.or_eq_false_iff, decide_eq_false_iff_not] at h
      obtain ⟨hpd, hne⟩ := h
      simp only [Presentation.Tab.called, hopen, if_true, Bool.false_eq_true, if_false]
      rw [if_pos (.inl hne), Presentation.Tab.startRenderIfIdle, if_pos (by simp [hpd])]

end

namespace Beside

variable {s t : Client}

theorem shutOut_closing (t : Presentation.Tab) (c : Bool) (i : Input) : shutOut { t with closing := c } i = shutOut t i := by
  cases i <;> rfl

/-- A step of the tab that both take. -/
theorem both (h : Beside s t) {f : Presentation.Tab → Presentation.Tab} (hf : (f t.tab).closing = t.tab.closing)
    (hshut : Client.isClose s.op = true → f { t.tab with closing := true } = { f t.tab with closing := true }) :
    Beside (s.setTab (f s.tab)) (t.setTab (f t.tab)) := by
  refine h.setTab ?_ (hf.trans h.openStill)
  rw [h.tab]
  cases hc : Client.isClose s.op with
  | true => exact hshut hc
  | false =>
    have hopen : t.tab = { t.tab with closing := false } := by rw [← h.openStill]
    rw [← hopen, ← h.openStill, ← hf]

theorem withInput (h : Beside s t) {input input' : InputQueue} (hinput : HeldBack input input') :
    Beside { s with input := input } { t with input := input' } :=
  ⟨h.tab, h.openStill, h.state, h.attaching, h.detaching, h.recovering, h.op, h.closed, hinput⟩

/-- The close goes on to its next await. -/
theorem awaits (h : Beside s t) (hc : Client.isClose s.op = true) {input : InputQueue} (hinput : HeldBack input t.input)
    (behavior : CloseBehavior) (a : Await) : Beside { s with input := input, op := some (.close behavior a) } t := by
  have htab := h.tab
  rw [hc] at htab
  exact ⟨htab, h.openStill, h.state, h.attaching, h.detaching, h.recovering, h.op, h.closed, hinput⟩

theorem advance_close (h : Beside s t) {behavior : CloseBehavior} {a : Await} (hop : s.op = some (.close behavior a))
    (uploading : Bool)
    (hunder : (s.advance uploading).op ≠ none) (hq : (behavior.forget && s.input.queue ≠ []) = false) :
    Beside (s.advance uploading) t := by
  have hc : Client.isClose s.op = true := by rw [hop]; rfl
  have hdetached : (s.closeDetached behavior).op ≠ none → Beside (s.closeDetached behavior) t := by
    unfold Client.closeDetached
    dsimp only
    intro hu
    split
    · next hforget =>
      have hempty : s.input.queue = [] := by simpa [hforget] using hq
      exact h.awaits hc (h.input.clear hempty) behavior .forget
    · next hforget => simp [hforget] at hu
  have hcancelled : (s.closeCancelled behavior).op ≠ none → Beside (s.closeCancelled behavior) t := by
    unfold Client.closeCancelled
    intro hu
    split
    · exact h.awaits hc h.input behavior .detach
    · next hd => exact hdetached (by rwa [if_neg hd] at hu)
  unfold Client.advance at hunder ⊢
  rw [hop] at hunder ⊢
  cases a with
  | input =>
    dsimp only at hunder ⊢
    split
    · exact h
    · next hf =>
      rw [if_neg hf] at hunder
      split
      · exact h.awaits hc h.input behavior .cancelUpload
      · next hup => exact hcancelled (by rwa [if_neg hup] at hunder)
  | cancelUpload => exact hcancelled hunder
  | detach => exact hdetached hunder
  | forget => exact absurd rfl hunder

theorem advance_toggle (h : Beside s t) {a : Await} (hop : s.op = some (.toggle a)) (uploading : Bool)
    (hunder : (s.advance uploading).op ≠ none) : Beside (s.advance uploading) t := by
  have htab := h.tab
  unfold Client.advance at hunder ⊢
  rw [hop] at hunder htab ⊢
  cases a with
  | input =>
    dsimp only
    split
    · exact h
    · exact ⟨htab, h.openStill, h.state, h.attaching, h.detaching, h.recovering, h.op, h.closed, h.input⟩
  | _ => exact absurd rfl hunder

theorem fail_stays (h : Beside s t) (hunder : s.fail.op ≠ none) : Beside s.fail t := by
  unfold Client.fail at hunder ⊢
  split
  · exact h
  · exact h
  · exact h
  · next hne _ hop => simp_all
  · next hne _ hop => simp_all

theorem attach (h : Beside s t) (hc : Client.isClose s.op = true → s.attaching = true ∨ dead s.state = true) :
    Beside s.attach t.attach := by
  cases hclose : Client.isClose s.op with
  | true =>
    have hs : s.attach = s := by
      unfold Client.attach
      obtain ha | hd := hc hclose
      · rw [if_pos (by simp [ha])]
      · rw [if_pos (by simp [hd])]
    have ht : t.attach = t := by
      unfold Client.attach
      rw [← h.attaching, ← h.state]
      obtain ha | hd := hc hclose
      · rw [if_pos (by simp [ha])]
      · rw [if_pos (by simp [hd])]
    rw [hs, ht]
    exact h
  | false =>
    have htab : s.tab = t.tab := by rw [h.tab, hclose, ← h.openStill]
    unfold Client.attach
    rw [htab, h.attaching, h.state]
    split
    · exact h
    · refine ⟨?_, h.openStill, rfl, rfl, h.detaching, h.recovering, h.op, h.closed, h.input⟩
      dsimp only
      rw [hclose, ← h.openStill]
      rfl

/-- What is not turned away, `disturbs` tells for either operation. -/
theorem disturbs_close {behavior : CloseBehavior} {a : Await} (hop : s.op = some (.close behavior a)) {i : Input}
    (hd : s.disturbs i = false) (h : Beside s t) : shutOut t.tab i = false := by
  simp only [Client.disturbs, hop, Bool.or_eq_false_iff] at hd
  rw [← shutOut_closing t.tab (Client.isClose s.op), ← h.tab]
  exact hd.1

theorem tabStep (h : Beside s t) {i : Input} (hu : s.op ≠ none) (hd : s.disturbs i = false)
    {f : Presentation.Tab → Presentation.Tab}
    (hf : (f t.tab).closing = t.tab.closing)
    (hshut : shutOut t.tab i = false → f { t.tab with closing := true } = { f t.tab with closing := true }) :
    Beside (s.setTab (f s.tab)) (t.setTab (f t.tab)) := by
  refine h.both hf fun hc => hshut ?_
  cases hop : s.op with
  | none => exact absurd hop hu
  | some op =>
    cases op with
    | close behavior a => exact disturbs_close hop hd h
    | toggle a => simp [hop, Client.isClose] at hc

theorem recover (h : Beside s t) (hd : s.disturbs .recover = false) (hu : s.op ≠ none) : Beside s.recover t.recover := by
  have hcount : s.tab.recoveries = t.tab.recoveries := by rw [h.tab]
  have hno : s.recovers = false := by
    cases hop : s.op with
    | none => exact absurd hop hu
    | some op =>
      cases op with
      | close behavior a => simpa [Client.disturbs, hop, shutOut] using hd
      | toggle a => simpa [Client.disturbs, hop] using hd
  unfold Client.recover
  rw [hcount]
  split
  · exact h
  · next hpos =>
    have hblocked : s.attaching = true ∨ dead s.state = true := by
      simp only [Client.recovers, hcount, ne_eq, decide_not, Bool.and_eq_false_iff, Bool.not_eq_false'] at hno
      obtain (hz | ha) | hdead := hno
      · exact absurd (by simpa using hz) hpos
      · exact .inl ha
      · exact .inr hdead
    have hstop : (t.tab.closing || t.attaching || t.detaching || dead t.state) = true := by
      rw [← h.attaching, ← h.state]
      obtain ha | hdead := hblocked
      · simp [ha]
      · simp [hdead]
    dsimp only [Client.setTab]
    rw [if_pos (by simp [h.detaching.1]), if_pos hstop]
    exact ⟨by rw [h.tab], h.openStill, h.state, h.attaching, h.detaching, h.recovering, h.op, h.closed, h.input⟩

/-- Where only a close is disturbed, a step that goes ahead is beside a detach. -/
theorem same_tab_of (h : Beside s t) (hu : s.op ≠ none) (hc : ∀ behavior a, s.op ≠ some (.close behavior a)) :
    Client.isClose s.op = false ∧ s.tab = t.tab := by
  cases hop : s.op with
  | none => exact absurd hop hu
  | some op =>
    cases op with
    | close behavior a => exact absurd hop (hc behavior a)
    | toggle a => exact ⟨rfl, h.same_tab hop⟩

theorem recoverTerminal (h : Beside s t) : Beside s.recoverTerminal t.recoverTerminal :=
  h.both (f := fun tab => { tab with recoveries := tab.recoveries + 1 }) rfl fun _ => rfl

theorem bridgeFailed (h : Beside s t) (hu : s.op ≠ none) {generation : Nat} (hd : s.disturbs (.bridgeFailed generation) = false) :
    Beside (s.bridgeFailed generation) (t.bridgeFailed generation) := by
  have hgen : s.tab.attachmentGeneration = t.tab.attachmentGeneration := by rw [h.tab]
  unfold Client.bridgeFailed
  by_cases hg : generation = t.tab.attachmentGeneration
  · obtain ⟨-, htab⟩ := h.same_tab_of hu fun behavior a hop => by
      have := disturbs_close hop hd h
      simp [shutOut, hg] at this
    rw [if_neg (by simp [htab, hg, h.openStill]), if_neg (by simp [hg, h.openStill])]
    exact h.recoverTerminal
  · rw [if_pos (.inr (by rw [hgen]; exact hg)), if_pos (.inr hg)]
    exact h

theorem attachReply (h : Beside s t) (hu : s.op ≠ none) {oldest newest : Nat}
    (hd : s.disturbs (.attachReply oldest newest) = false) :
    Beside (s.attachReply oldest newest) (t.attachReply oldest newest) := by
  unfold Client.attachReply
  cases ha : t.attaching with
  | false =>
    rw [if_pos (h.attaching.trans ha), if_pos rfl]
    exact h
  | true =>
    obtain ⟨hc, htab⟩ := h.same_tab_of hu fun behavior a hop => by
      simp [Client.disturbs, hop, h.attaching, ha] at hd
    have hopen := h.openStill
    rw [if_neg (by simp [h.attaching, ha]), if_neg (by simp [htab, hopen]), if_neg (by simp), if_neg (by simp [hopen]), htab]
    refine ⟨?_, (closing_render _).trans h.openStill, rfl, rfl, h.detaching, h.recovering, h.op, h.closed, h.input.resume⟩
    dsimp only
    rw [hc]
    have := (closing_render { t.tab with oldestAvailable := oldest, historyExhausted := newest = 0 }).trans h.openStill
    rw [← this]

theorem attachFailed (h : Beside s t) : Beside s.attachFailed t.attachFailed := by
  unfold Client.attachFailed
  rw [h.attaching, h.state]
  split
  · exact h
  · split
    · exact ⟨h.tab, h.openStill, rfl, rfl, h.detaching, h.recovering, h.op, h.closed, h.input⟩
    · exact ⟨h.tab, h.openStill, rfl, rfl, h.detaching, h.recovering, h.op, h.closed, h.input⟩

theorem typed (h : Beside s t) (hu : s.op ≠ none) {data : List UInt8} (hd : s.disturbs (.typed data) = false) :
    Beside (s.typed data) (t.typed data) := by
  unfold Client.typed
  by_cases hrefused : s.state = .detached ∨ dead s.state = true
  · have hs : (s.tab.closing || s.state == .detached || dead s.state) = true := by
      obtain hdet | hdead := hrefused
      · simp [hdet]
      · simp [hdead]
    have ht : (t.tab.closing || t.state == .detached || dead t.state) = true := by
      rw [← h.state]
      obtain hdet | hdead := hrefused
      · simp [hdet]
      · simp [hdead]
    rw [if_pos hs, if_pos ht]
    exact h
  · simp only [not_or, Bool.not_eq_true] at hrefused
    obtain ⟨-, htab⟩ := h.same_tab_of hu fun behavior a hop => by
      simp [Client.disturbs, hop, shutOut, hrefused.1, hrefused.2] at hd
    have hopen := h.openStill
    rw [if_neg (by simp [htab, hopen, hrefused.1, hrefused.2]), if_neg (by simp [hopen, ← h.state, hrefused.1, hrefused.2])]
    exact h.withInput (h.input.enqueue data)

theorem sent (h : Beside s t) (hf : s.input.inFlight ≠ none) : Beside s.sent t.sent := by
  obtain ⟨data, hdata⟩ := Option.ne_none_iff_exists'.mp hf
  have hf' : t.input.inFlight ≠ none := by
    rw [(h.input.flight data hdata).1]
    simp
  unfold Client.sent
  rw [if_neg hf, if_neg hf']
  exact h.withInput (h.input.sent hdata)

theorem sendFailed (h : Beside s t) (hu : s.op ≠ none) (hd : s.disturbs .sendFailed = false) (hf : s.input.inFlight ≠ none) :
    Beside s.sendFailed t.sendFailed := by
  obtain ⟨data, hdata⟩ := Option.ne_none_iff_exists'.mp hf
  have hf' : t.input.inFlight ≠ none := by
    rw [(h.input.flight data hdata).1]
    simp
  have hfailed := h.withInput h.input.failed
  unfold Client.sendFailed
  rw [if_neg hf, if_neg hf']
  by_cases hlive : s.state = .live
  · obtain ⟨-, htab⟩ := h.same_tab_of hu fun behavior a hop => by
      simp [Client.disturbs, hop, shutOut, hlive] at hd
    dsimp only
    rw [if_neg (by simp [htab, h.openStill, hlive]), if_neg (by simp [h.openStill, ← h.state, hlive])]
    exact hfailed.recoverTerminal
  · dsimp only
    rw [if_pos (by simp [hlive]), if_pos (by simp [← h.state, hlive])]
    exact hfailed

theorem connected (h : Beside s t) (hu : s.op ≠ none) (hd : s.disturbs .connected = false) : Beside s.connected t.connected := by
  unfold Client.connected
  rw [h.state]
  split
  · next hshould =>
    refine h.attach fun hc => .inl ?_
    cases hop : s.op with
    | none => exact absurd hop hu
    | some op =>
      cases op with
      | close behavior a => simpa [Client.disturbs, hop, shutOut, h.state, hshould] using hd
      | toggle a => simp [hop, Client.isClose] at hc
  · exact h

theorem disconnected (h : Beside s t) : Beside s.disconnected t.disconnected := by
  unfold Client.disconnected
  rw [h.state]
  split
  · exact ⟨h.tab, h.openStill, rfl, h.attaching, h.detaching, h.recovering, h.op, h.closed, h.input.pause⟩
  · exact h

end Beside

/-- A step that nothing turns away is taken as without the operation. -/
theorem beside_step {s t : Client} (h : Beside s t) (hu : s.op ≠ none) {i : Input} (hm : s.Meanwhile i) :
    Beside (s.step i) (t.step i) := by
  obtain ⟨hclose, htoggle, hsend, hunder, hd⟩ := hm
  simp only [Client.step, h.closed.1, h.closed.2, Bool.false_eq_true, if_false] at hunder ⊢
  cases i with
  | close => exact absurd rfl hclose
  | toggle => exact absurd rfl htoggle
  | advance uploading =>
    have ht : t.advance uploading = t := by simp [Client.advance, h.op]
    dsimp only at hunder ⊢
    rw [ht]
    cases hop : s.op with
    | none => exact absurd hop hu
    | some op =>
      cases op with
      | close behavior a => exact h.advance_close hop uploading hunder (by simpa [Client.disturbs, hop, shutOut] using hd)
      | toggle a => exact h.advance_toggle hop uploading hunder
  | fail =>
    have ht : t.fail = t := by simp [Client.fail, h.op]
    dsimp only
    rw [ht]
    exact h.fail_stays hunder
  | message generation bytes =>
    exact h.tabStep hu hd (f := fun tab => tab.onChannelMessage generation bytes) (closing_onChannelMessage _ _ _) shut_message
  | render => exact h.tabStep hu hd (closing_render _) (shut_render h.openStill)
  | written => exact h.tabStep hu hd (closing_written _) (shut_written h.openStill)
  | pump =>
    have hcount : s.tab.pumps = t.tab.pumps := by rw [h.tab]
    dsimp only
    rw [hcount]
    split
    · exact h
    · next hp =>
      have := h.tabStep hu hd (f := fun tab => { tab with pumps := tab.pumps - 1 }.pumpWrites) (closing_pumpWrites _)
        fun hs => shut_pump hs hp
      rwa [hcount] at this
  | recover => exact h.recover hd hu
  | recoverDrained =>
    dsimp only
    rw [Client.recoverDrained, if_neg (by simp [h.recovering.1]), Client.recoverDrained, if_neg (by simp [h.recovering.2])]
    exact h
  | recoverDetached =>
    dsimp only
    rw [Client.recoverDetached, if_neg (by simp [h.recovering.1]), Client.recoverDetached, if_neg (by simp [h.recovering.2])]
    exact h
  | bridgeFailed generation => exact h.bridgeFailed hu hd
  | attachReply oldest newest => exact h.attachReply hu hd
  | attachFailed => exact h.attachFailed
  | typed data => exact h.typed hu hd
  | sent => exact h.sent (hsend (.inl rfl))
  | sendFailed => exact h.sendFailed hu hd (hsend (.inr rfl))
  | connected => exact h.connected hu hd
  | disconnected => exact h.disconnected

/-! ## Every run -/

/-- What every run keeps. -/
structure Kept (s : Client) : Prop where
  coherent : s.input.Coherent
  closing : s.closed = false → s.tab.closing = Client.isClose s.op

theorem kept_attach {s : Client} (h : Kept s) : Kept s.attach := by
  unfold Client.attach
  split
  · exact h
  · exact ⟨h.coherent, h.closing⟩

/-- The steps of an operation. -/
theorem kept_advance {s : Client} (h : Kept s) (hopen : s.closed = false) (uploading : Bool) : Kept (s.advance uploading) := by
  have hc := h.closing hopen
  have hdetached : ∀ behavior, Client.isClose s.op = true → Kept (s.closeDetached behavior) := by
    intro behavior hop
    unfold Client.closeDetached
    dsimp only
    split
    · exact ⟨nofun, fun _ => hc.trans hop⟩
    · exact ⟨nofun, nofun⟩
  have hcancelled : ∀ behavior, Client.isClose s.op = true → Kept (s.closeCancelled behavior) := by
    intro behavior hop
    unfold Client.closeCancelled
    split
    · exact ⟨h.coherent, fun _ => hc.trans hop⟩
    · exact hdetached behavior hop
  unfold Client.advance
  split
  · exact h
  · next behavior hop =>
    split
    · exact h
    · split
      · exact ⟨h.coherent, fun _ => hc.trans (by rw [hop]; rfl)⟩
      · exact hcancelled behavior (by rw [hop]; rfl)
  · next behavior hop => exact hcancelled behavior (by rw [hop]; rfl)
  · next behavior hop => exact hdetached behavior (by rw [hop]; rfl)
  · exact ⟨h.coherent, nofun⟩
  · next hop =>
    split
    · exact h
    · exact ⟨h.coherent, fun _ => hc.trans (by rw [hop]; rfl)⟩
  · next hop => exact ⟨nofun, fun _ => (closing_appendLive _ _).trans (hc.trans (by rw [hop]; rfl))⟩

theorem kept_start {s : Client} (h : Kept s) (hop : s.op = none) : Kept s.close ∧ Kept s.toggle := by
  constructor
  · unfold Client.close
    split
    · exact h
    · exact ⟨h.coherent, fun _ => rfl⟩
  · unfold Client.toggle
    split
    · exact h
    · split
      · exact kept_attach h
      · split
        · exact ⟨h.coherent, fun hopen => (h.closing hopen).trans (by rw [hop]; rfl)⟩
        · exact h

theorem kept_fail {s : Client} (h : Kept s) (hopen : s.closed = false) : Kept s.fail := by
  have hc := h.closing hopen
  unfold Client.fail
  split
  · exact h
  · exact h
  · exact h
  · refine ⟨?_, fun _ => rfl⟩
    dsimp only
    split
    · exact InputQueue.Coherent.pump h.coherent
    · exact h.coherent
  · next hop => exact ⟨InputQueue.Coherent.pump h.coherent, fun _ => hc.trans (by rw [hop]; rfl)⟩

theorem kept_recover {s : Client} (h : Kept s) : Kept s.recover := by
  unfold Client.recover
  split
  · exact h
  · dsimp only [Client.setTab]
    split
    · exact ⟨h.coherent, h.closing⟩
    · exact ⟨h.coherent, h.closing⟩

theorem kept_attachReply {s : Client} (h : Kept s) (oldest newest : Nat) : Kept (s.attachReply oldest newest) := by
  unfold Client.attachReply
  split
  · exact h
  · split
    · exact ⟨h.coherent, h.closing⟩
    · exact ⟨InputQueue.Coherent.pump h.coherent, fun hopen => (closing_render _).trans (h.closing hopen)⟩

theorem kept_sendFailed {s : Client} (h : Kept s) : Kept s.sendFailed := by
  have hfailed : s.input.failed.Coherent := InputQueue.Coherent.pump nofun
  unfold Client.sendFailed
  split
  · exact h
  · dsimp only
    split
    · exact ⟨hfailed, h.closing⟩
    · exact ⟨hfailed, h.closing⟩

theorem kept_step {s : Client} (h : Kept s) (i : Input) : Kept (s.step i) := by
  have htab : ∀ {tab : Presentation.Tab}, tab.closing = s.tab.closing → Kept (s.setTab tab) :=
    fun he => ⟨h.coherent, fun hopen => he.trans (h.closing hopen)⟩
  unfold Client.step
  split
  · exact h
  · next hopen =>
    have hopen : s.closed = false := by simpa using hopen
    cases i with
    | close =>
      dsimp only
      split
      · next hop => exact (kept_start h hop).1
      · exact h
    | toggle =>
      dsimp only
      split
      · next hop => exact (kept_start h hop).2
      · exact h
    | advance uploading => exact kept_advance h hopen uploading
    | fail => exact kept_fail h hopen
    | message generation bytes => exact htab (closing_onChannelMessage _ _ _)
    | render => exact htab (closing_render _)
    | written => exact htab (closing_written _)
    | pump =>
      dsimp only
      split
      · exact h
      · exact htab (closing_pumpWrites _)
    | recover => exact kept_recover h
    | recoverDrained =>
      dsimp only [Client.recoverDrained]
      split
      · exact ⟨h.coherent, h.closing⟩
      · exact h
    | recoverDetached =>
      dsimp only [Client.recoverDetached]
      split
      · exact kept_attach ⟨h.coherent, h.closing⟩
      · exact h
    | bridgeFailed generation =>
      dsimp only [Client.bridgeFailed]
      split
      · exact h
      · exact htab rfl
    | attachReply oldest newest => exact kept_attachReply h oldest newest
    | attachFailed =>
      dsimp only [Client.attachFailed]
      split
      · exact h
      · split <;> exact ⟨h.coherent, h.closing⟩
    | typed data =>
      dsimp only [Client.typed]
      split
      · exact h
      · exact ⟨h.coherent.enqueue data, h.closing⟩
    | sent =>
      dsimp only [Client.sent]
      split
      · exact h
      · exact ⟨InputQueue.Coherent.pump nofun, h.closing⟩
    | sendFailed => exact kept_sendFailed h
    | connected =>
      dsimp only [Client.connected]
      split
      · exact kept_attach h
      · exact h
    | disconnected =>
      dsimp only [Client.disconnected]
      split
      · exact ⟨h.coherent, h.closing⟩
      · exact h

theorem beside_run {is : List Input} {s t : Client} (h : Beside s t) (hu : s.op ≠ none)
    (his : machine.Admissible Client.Meanwhile s is) :
    Beside (machine.run s is) (machine.run t is) := by
  induction is generalizing s t with
  | nil => exact h
  | cons i is ih => exact ih (beside_step h hu his.1) his.1.2.2.2.1 his.2

theorem under_run {is : List Input} {s : Client} (hu : s.op ≠ none) (his : machine.Admissible Client.Meanwhile s is) :
    (machine.run s is).op ≠ none := by
  induction is generalizing s with
  | nil => exact hu
  | cons i is ih => exact ih his.1.2.2.2.1 his.2

/-- An operation has begun. -/
theorem beside_start {s : Client} (h : Kept s) (hopen : s.closed = false) (hop : s.op = none) (hdetaching : s.detaching = false)
    (hrecovering : s.recovering = .idle) {start : Input} (hstart : start = .close ∨ start = .toggle)
    (hu : (s.step start).op ≠ none) :
    Beside (s.step start) s := by
  have hshown : s.tab.closing = false := (h.closing hopen).trans (by rw [hop]; rfl)
  obtain rfl | rfl := hstart
  · simp only [Client.step, hopen, hop, Bool.false_eq_true, if_false, if_true] at hu ⊢
    unfold Client.close
    rw [if_neg (by simp [hshown])]
    exact ⟨rfl, hshown, rfl, rfl, ⟨rfl, hdetaching⟩, ⟨hrecovering, hrecovering⟩, hop, ⟨hopen, hopen⟩, .start h.coherent⟩
  · simp only [Client.step, hopen, hop, Bool.false_eq_true, if_false, if_true] at hu ⊢
    have hattach : s.attach.op = none := by
      unfold Client.attach
      split <;> exact hop
    unfold Client.toggle at hu ⊢
    split at hu
    · exact absurd hop hu
    · split at hu
      · exact absurd hattach hu
      · split at hu
        · next ha hd hlive =>
          rw [if_neg ha, if_neg hd, if_pos hlive]
          refine ⟨?_, hshown, rfl, rfl, ⟨rfl, hdetaching⟩, ⟨hrecovering, hrecovering⟩, hop, ⟨hopen, hopen⟩, .start h.coherent⟩
          rw [Client.isClose, ← hshown]
          simp
        · exact absurd hop hu

/-- The tab is as it would be without the operation. -/
structure Intact (s t : Client) : Prop where
  tab : s.tab = t.tab
  state : s.state = t.state
  attaching : s.attaching = t.attaching
  detaching : s.detaching = t.detaching
  recovering : s.recovering = t.recovering
  queue : s.input.queue = t.input.queue
  resumed : s.state = .live → s.input.paused = false
  held : s.state ≠ .live → t.input.paused = true → s.input.paused = true

theorem fail_intact {s t : Client} (h : Beside s t) (hd : s.disturbs .fail = false) (hu : s.op ≠ none)
    (hfail : (s.step .fail).op = none) :
    Intact (s.step .fail) t := by
  have hresumed : ∀ q : InputQueue, q.resume.paused = false := by
    intro q
    unfold InputQueue.resume InputQueue.pump
    split
    · rfl
    · split <;> rfl
  have hopen : t.tab = { t.tab with closing := false } := by rw [← h.openStill]
  simp only [Client.step, h.closed.1, Bool.false_eq_true, if_false] at hfail ⊢
  unfold Client.fail at hfail ⊢
  split at hfail
  · next hop => exact absurd hop hu
  · next hop => exact absurd hfail hu
  · next hop => exact absurd hfail hu
  · refine ⟨?_, h.state, h.attaching, h.detaching.2.symm, h.recovering.1.trans h.recovering.2.symm, ?_,
      fun hlive => ?_, fun hne hp => ?_⟩
    · rw [h.tab]
      exact hopen.symm
    · dsimp only
      split
      · exact (InputQueue.pump_queue _).trans h.input.queue
      · exact h.input.queue
    · dsimp only at hlive ⊢
      rw [if_pos hlive]
      exact hresumed _
    · dsimp only at hne ⊢
      rw [if_neg hne]
      exact h.input.paused hp
  · next a _ hop =>
    have hlive : s.state = .live := by simpa [Client.disturbs, hop] using hd
    exact ⟨h.same_tab hop, h.state, h.attaching, h.detaching.2.symm, h.recovering.1.trans h.recovering.2.symm,
      (InputQueue.pump_queue _).trans h.input.queue, fun _ => hresumed _, fun hne => absurd hlive hne⟩

/-- A tab of the page, with nothing shown. -/
def Client.new (rows : Nat) : Client := ⟨.new rows, .new, .connecting, false, false, .idle, none, false⟩

/-- After any run, with no other operation and no recovery under way: a close or a detach
    that fails after steps none of which was turned away (and of which it kept no input)
    leaves the tab as it would be without it. What it presents, what it has yet to present,
    the recoveries that are to come and the input are the same, and the input goes on if
    the tab is live. -/
theorem failed_intact (rows : Nat) (before meanwhile : List Input) {start : Input} (hstart : start = .close ∨ start = .toggle) :
    let s := machine.run (.new rows) before
    let s' := machine.run (s.step start) meanwhile
    s.closed = false → s.op = none → s.detaching = false → s.recovering = .idle →
      (s.step start).op ≠ none → machine.Admissible Client.Meanwhile (s.step start) meanwhile →
      s'.disturbs .fail = false → (s'.step .fail).op = none → Intact (s'.step .fail) (machine.run s meanwhile) := by
  intro s s' hopen hop hdetaching hrecovering hu hmean hd hfail
  have hkept : Kept s := machine.run_always (P := Kept) (fun _ i h => kept_step h i) ⟨fun h => (by cases h), fun _ => rfl⟩ before
  have hbeside := beside_run (beside_start hkept hopen hop hdetaching hrecovering hstart hu) hu hmean
  refine fail_intact hbeside hd ?_ hfail
  exact under_run hu hmean

/-- The first attachment of a tab, with its snapshot on the screen. -/
def attached : List Input := [.connected, .message 1 [65], .attachReply 1 0, .written]

/-- Output and input come, and the detach fails. -/
theorem failed_intact_detach :
    let s := machine.run (.new 1) attached
    let meanwhile := [.message 1 [66], .written, .typed [108, 115], .advance false]
    Intact ((machine.run (s.step .toggle) meanwhile).step .fail) (machine.run s meanwhile) :=
  failed_intact 1 attached [.message 1 [66], .written, .typed [108, 115], .advance false] (.inr rfl) (by decide +kernel)
    (by decide +kernel) (by decide +kernel) (by decide +kernel) (by decide +kernel) (by decide +kernel) (by decide +kernel)
    (by decide +kernel)

/-- A detach, more output than the tab writes, and the recovery that it requests. -/
def overflowed : List Input := .advance false :: List.replicate 258 (.message 1 [66]) ++ [.recover]

/-- A tab with its snapshot on the screen is closed, its output comes before the detach has
    failed, and is neither shown nor kept for a recovery. A tab is detached while more
    output comes than it writes: the recovery it requests finds the detach under way, and
    when that has failed the tab waits for it. -/
theorem failed_not_intact :
    (let s := (machine.run (machine.run (.new 1) attached) [.close, .advance false, .message 1 [66]]).step .fail
     let t := machine.run (machine.run (.new 1) attached) [.advance false, .message 1 [66]]
     s.state = .live ∧ s.tab.presented = true ∧ s.tab.recoveryRequested = false ∧ s.tab.liveChunks = [] ∧
       s.tab.writeQueue = [] ∧ s.tab.term.written = [13, 10, 27, 91, 72, 65] ∧
       t.tab.term.written = [13, 10, 27, 91, 72, 65, 66] ∧ ¬ Intact s t) ∧
    (let s := (machine.run (machine.run (.new 1) attached) (.toggle :: overflowed)).step .fail
     let t := machine.run (machine.run (.new 1) attached) overflowed
     s.state = .live ∧ s.tab.presented = false ∧ s.tab.recoveryRequested = true ∧ s.tab.recoveries = 0 ∧
       s.recovering = .idle ∧ ¬ Intact s t) := by
  refine ⟨?_, ?_⟩
  · have hwritten :
      ((machine.run (machine.run (.new 1) attached)
      [.close, .advance false, .message 1 [66]]).step .fail).tab.term.written =
        [13, 10, 27, 91, 72, 65] := by decide +kernel
    have hshown : (machine.run (machine.run (.new 1) attached) [.advance false, .message 1 [66]]).tab.term.written =
        [13, 10, 27, 91, 72, 65, 66] := by decide +kernel
    refine ⟨by decide +kernel, by decide +kernel, by decide +kernel, by decide +kernel, by decide +kernel,
      hwritten, hshown, fun h => ?_⟩
    rw [h.tab, hshown] at hwritten
    cases hwritten
  · have hwaits : let s := (machine.run (machine.run (.new 1) attached) (.toggle :: overflowed)).step .fail
        s.state = .live ∧ s.tab.presented = false ∧ s.tab.recoveryRequested = true ∧ s.tab.recoveries = 0 ∧
          s.recovering = .idle := by
      decide +kernel
    have hpaused : (machine.run (machine.run (.new 1) attached) overflowed).recovering = .paused := by decide +kernel
    obtain ⟨hstate, hpresented, hrequested, hrecoveries, hidle⟩ := hwaits
    refine ⟨hstate, hpresented, hrequested, hrecoveries, hidle, fun h => ?_⟩
    rw [h.recovering, hpaused] at hidle
    cases hidle

end Holdfast.Desktop.Closing

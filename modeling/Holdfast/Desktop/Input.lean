/-
  Holdfast.Desktop.Input — the way of a keystroke in the desktop client: the tab's input
  queue (`desktop/src/terminal-input-queue.ts`), the channel of the server's supervisor
  (`shell_input` of `crates/client-core/src/lib.rs`), its live map
  (`crates/client-core/src/server.rs`) and the writer task of the attachment
  (`spawn_pumps` of `crates/client-core/src/shell.rs`).

  `shell_input` resolves when the command is in the supervisor's channel, and the tab's
  queue lets the chunk go then. What becomes of the command is decided later: the
  supervisor hands it to the writer its live map has for the shell, and drops it when
  there is none, when that task is gone, or while it waits for a login; a writer task that
  ends drops what it was handed. None of this is reported to the tab.

  Proved:
  - `step_leaves`: a chunk leaves the tab's queue by being accepted, or by `clear`.
  - `inv_step`: what one step keeps while every accepted chunk finds a running writer.
  - `accepted_input_written`: in every run of such steps the chunks accepted for a shell are
    those written to its attachments, in order, and those still under way.
-/

import Holdfast.Base.Machine
import Holdfast.Base.Table
import Mathlib.Tactic

namespace Holdfast.Desktop

open Holdfast.Base

abbrev Chunk := List UInt8

/-! ## The tab's queue -/

def terminalInputQueueByteCap : Nat := 64 * 1024
def terminalInputQueueChunkCap : Nat := 1024

/-- `TerminalInputQueue`. -/
structure InputQueue where
  queue : List Chunk
  paused : Bool
  inFlight : Option Chunk
  /-- What is in flight is still the first of the queue. -/
  current : Bool
  deriving DecidableEq, Repr

namespace InputQueue

def new : InputQueue := ⟨[], true, none, false⟩

def queuedBytes (q : InputQueue) : Nat := (q.queue.map List.length).sum

def pump (q : InputQueue) : InputQueue :=
  if q.paused ∨ q.inFlight.isSome then q
  else
    match q.queue with
    | [] => q
    | data :: _ => { q with inFlight := some data, current := true }

def enqueue (q : InputQueue) (data : Chunk) : InputQueue :=
  if data.length = 0 then q
  else if data.length + q.queuedBytes > terminalInputQueueByteCap ∨ q.queue.length ≥ terminalInputQueueChunkCap then q
  else pump { q with queue := q.queue ++ [data] }

def pause (q : InputQueue) : InputQueue := { q with paused := true }

def resume (q : InputQueue) : InputQueue := pump { q with paused := false }

def clear (q : InputQueue) : InputQueue := { q with queue := [], current := false }

/-- The send resolved. -/
def sent (q : InputQueue) : InputQueue :=
  pump { q with queue := if q.current then q.queue.tail else q.queue, inFlight := none, current := false }

/-- The send failed: the item is retained at the head. -/
def failed (q : InputQueue) : InputQueue := pump { q with paused := true, inFlight := none, current := false }

/-- What is in flight and current is the first of the queue. -/
def Coherent (q : InputQueue) : Prop := q.current = true → ∃ data, q.inFlight = some data ∧ ∃ rest, q.queue = data :: rest

@[simp] theorem pump_queue (q : InputQueue) : q.pump.queue = q.queue := by
  unfold pump
  split
  · rfl
  · split <;> rfl

theorem Coherent.pump {q : InputQueue} (h : q.Coherent) : q.pump.Coherent := by
  unfold InputQueue.pump
  split
  · exact h
  · split
    · exact h
    · rename_i data rest hq
      exact fun _ => ⟨data, rfl, rest, hq⟩

theorem Coherent.enqueue {q : InputQueue} (h : q.Coherent) (data : Chunk) : (q.enqueue data).Coherent := by
  unfold InputQueue.enqueue
  split
  · exact h
  · split
    · exact h
    · refine Coherent.pump fun hc => ?_
      obtain ⟨first, hf, rest, hq⟩ := h hc
      exact ⟨first, hf, rest ++ [data], by rw [hq]; rfl⟩

theorem enqueue_queue (q : InputQueue) (data : Chunk) : ∃ more, (q.enqueue data).queue = q.queue ++ more := by
  unfold enqueue
  split
  · exact ⟨[], (List.append_nil _).symm⟩
  · split
    · exact ⟨[], (List.append_nil _).symm⟩
    · exact ⟨[data], pump_queue _⟩

end InputQueue

/-! ## The core -/

inductive ServerCmd where
  | input (shell : String) (bytes : Chunk)
  | resize (shell : String)
  | history (shell : String)
  | attach (shell : String)
  | detach (shell : String)
  | terminate (shell : String)
  | login
  /-- Open, Upload, CancelUpload and Socks: no attachment is concerned. -/
  | other
  deriving DecidableEq, Repr

inductive WriterCmd where
  | input (bytes : Chunk)
  | resize
  | history
  | detach
  deriving DecidableEq, Repr

/-- A writer task with its receiver. -/
structure Writer where
  shell : String
  queue : List WriterCmd
  running : Bool
  deriving DecidableEq, Repr

/-- `writer.send(cmd).await`: the supervisor takes nothing else until it is done. -/
structure Sending where
  shell : String
  writer : Nat
  cmd : WriterCmd
  deriving DecidableEq, Repr

inductive Supervisor where
  | connecting
  | authRequired
  | connected (live : Table String Nat) (sending : Option Sending)
  | stopped

def serverQueue : Nat := 64
def writerQueue : Nat := 64

structure InputPath where
  tabs : String → InputQueue
  commands : List ServerCmd
  supervisor : Supervisor
  writers : Nat → Writer
  /-- The writers started so far. -/
  started : Nat
  /-- The chunks whose `shell_input` resolved. -/
  accepted : String → List Chunk
  /-- The chunks written to an attachment stream of the shell. -/
  written : String → List Chunk

inductive PathInput where
  | type (shell : String) (data : Chunk)
  | pause (shell : String)
  | resume (shell : String)
  | clear (shell : String)
  /-- The `shell_input` in flight goes on. -/
  | shellInput (shell : String)
  | command (cmd : ServerCmd)
  | connects
  | authFails
  /-- The control actor is gone. -/
  | lost
  | stop
  /-- The supervisor takes a command; an attach succeeds or not. -/
  | take (attached : Bool)
  /-- The supervisor's send to a writer goes on. -/
  | send
  /-- A writer takes a command; its write succeeds or not. -/
  | write (writer : Nat) (ok : Bool)
  /-- A writer ends otherwise: its pong fails, or its reader is gone. -/
  | writerEnds (writer : Nat)
  deriving DecidableEq, Repr

namespace InputPath

def start : InputPath := ⟨fun _ => .new, [], .connecting, fun _ => ⟨"", [], false⟩, 0, fun _ => [], fun _ => []⟩

def setTab (d : InputPath) (shell : String) (q : InputQueue) : InputPath :=
  { d with tabs := Function.update d.tabs shell q }

def setWriter (d : InputPath) (w : Nat) (x : Writer) : InputPath := { d with writers := Function.update d.writers w x }

/-- `Core::send` waits while the channel is full, and fails when the supervisor is gone. -/
def shellInput (d : InputPath) (shell : String) : InputPath :=
  match (d.tabs shell).inFlight with
  | none => d
  | some data =>
    match d.supervisor with
    | .stopped => d.setTab shell (d.tabs shell).failed
    | _ =>
      if d.commands.length ≥ serverQueue then d
      else
        { d.setTab shell (d.tabs shell).sent with
          commands := d.commands ++ [.input shell data]
          accepted := Function.update d.accepted shell (d.accepted shell ++ [data]) }

/-- `live.get(shell)`, and the send to what it gives. -/
def forward (d : InputPath) (live : Table String Nat) (shell : String) (cmd : WriterCmd) : InputPath :=
  { d with supervisor := .connected live ((live.lookup shell).map fun w => ⟨shell, w, cmd⟩) }

/-- `handle_cmd`, up to the send to a writer. -/
def handleCmd (d : InputPath) (live : Table String Nat) (attached : Bool) : ServerCmd → InputPath
  | .input shell bytes => d.forward live shell (.input bytes)
  | .resize shell => d.forward live shell .resize
  | .history shell => d.forward live shell .history
  | .attach shell =>
    if attached then
      { d.setWriter d.started ⟨shell, [], true⟩ with
        supervisor := .connected (live.insert shell d.started) none
        started := d.started + 1 }
    else d
  | .detach shell =>
    { d with
      supervisor := .connected (live.erase shell) ((live.lookup shell).map fun w => ⟨shell, w, .detach⟩) }
  | .terminate shell => { d with supervisor := .connected (live.erase shell) none }
  | .login => d
  | .other => d

def take (d : InputPath) (attached : Bool) : InputPath :=
  match d.commands, d.supervisor with
  | cmd :: rest, .authRequired =>
    -- `refuse_unauthenticated`
    { d with commands := rest, supervisor := if cmd = .login then .connecting else .authRequired }
  | cmd :: rest, .connected live none => { d with commands := rest }.handleCmd live attached cmd
  | _, _ => d

/-- The send fails when the task is gone, and waits while its queue is full. -/
def send (d : InputPath) : InputPath :=
  match d.supervisor with
  | .connected live (some s) =>
    if (d.writers s.writer).running = false then
      { d with supervisor := .connected (if s.cmd = .history then live else live.erase s.shell) none }
    else if (d.writers s.writer).queue.length ≥ writerQueue then d
    else
      { d.setWriter s.writer { d.writers s.writer with queue := (d.writers s.writer).queue ++ [s.cmd] } with
        supervisor := .connected live none }
  | _ => d

/-- The task is over, and what it was handed with it. -/
def endWriter (d : InputPath) (w : Nat) : InputPath := d.setWriter w { d.writers w with queue := [], running := false }

def write (d : InputPath) (w : Nat) (ok : Bool) : InputPath :=
  match (d.writers w).queue with
  | [] => d
  | .detach :: _ => d.endWriter w
  | .resize :: rest => if ok then d.setWriter w { d.writers w with queue := rest } else d.endWriter w
  | .history :: rest => if ok then d.setWriter w { d.writers w with queue := rest } else d.endWriter w
  | .input bytes :: rest =>
    if ok then
      { d.setWriter w { d.writers w with queue := rest } with
        written := Function.update d.written (d.writers w).shell (d.written (d.writers w).shell ++ [bytes]) }
    else d.endWriter w

/-- `rx.recv()` gives `None` once the channel is empty; while reconnecting the supervisor
    returns with what is in it. -/
def stop (d : InputPath) : InputPath :=
  match d.supervisor with
  | .connecting => { d with supervisor := .stopped, commands := [] }
  | .connected _ (some _) => d
  | _ => if d.commands = [] then { d with supervisor := .stopped } else d

def step (d : InputPath) : PathInput → InputPath × Unit
  | .type shell data => (d.setTab shell ((d.tabs shell).enqueue data), ())
  | .pause shell => (d.setTab shell (d.tabs shell).pause, ())
  | .resume shell => (d.setTab shell (d.tabs shell).resume, ())
  | .clear shell => (d.setTab shell (d.tabs shell).clear, ())
  | .shellInput shell => (d.shellInput shell, ())
  | .command cmd =>
    match cmd with
    -- only `shell_input` makes this one
    | .input _ _ => (d, ())
    | _ => (if d.commands.length ≥ serverQueue then d else { d with commands := d.commands ++ [cmd] }, ())
  | .connects =>
    match d.supervisor with
    | .connecting => ({ d with supervisor := .connected ∅ none }, ())
    | _ => (d, ())
  | .authFails =>
    match d.supervisor with
    | .connecting => ({ d with supervisor := .authRequired }, ())
    | _ => (d, ())
  | .lost =>
    match d.supervisor with
    | .connected _ none => ({ d with supervisor := .connecting }, ())
    | _ => (d, ())
  | .stop => (d.stop, ())
  | .take attached => (d.take attached, ())
  | .send => (d.send, ())
  | .write w ok => (if (d.writers w).running then d.write w ok else d, ())
  | .writerEnds w => (d.endWriter w, ())

def machine : Machine InputPath PathInput Unit := ⟨step⟩

/-! ## Chunks under way -/

def inputsOf (queue : List WriterCmd) : List Chunk :=
  queue.filterMap fun cmd =>
    match cmd with
    | .input bytes => some bytes
    | _ => none

/-- The chunks for `shell` that a writer was handed. -/
def heldBy (shell : String) (x : Writer) : List Chunk := if x.shell = shell then inputsOf x.queue else []

def held (d : InputPath) (shell : String) : List Chunk :=
  (List.range d.started).flatMap fun w => heldBy shell (d.writers w)

def inSend (d : InputPath) (shell : String) : List Chunk :=
  match d.supervisor with
  | .connected _ (some s) => if s.shell = shell then inputsOf [s.cmd] else []
  | _ => []

def queuedIn (shell : String) (commands : List ServerCmd) : List Chunk :=
  commands.filterMap fun cmd =>
    match cmd with
    | .input s bytes => if s = shell then some bytes else none
    | _ => none

def queued (d : InputPath) (shell : String) : List Chunk := queuedIn shell d.commands

/-- Handed to a writer, in the supervisor's hand, or in its channel; oldest first. -/
def underWay (d : InputPath) (shell : String) : List Chunk := d.held shell ++ (d.inSend shell ++ d.queued shell)

/-- Written in the order they were accepted, and none lost. -/
def Delivered (d : InputPath) : Prop := ∀ shell, d.accepted shell = d.written shell ++ d.underWay shell

/-! ## The steps that lose nothing -/

def hasWriter (d : InputPath) (shell : String) : Bool :=
  match d.supervisor with
  | .authRequired => false
  | .connected live none => (live.lookup shell).isSome
  | _ => true

/-- Input the supervisor takes has a writer, and that task is there when it is handed over;
    a new writer is started when no other has input for the shell; a task ends, and the
    supervisor stops, with no input left. -/
def keeps (d : InputPath) : PathInput → Bool
  | .take attached =>
    match d.commands with
    | .input shell _ :: _ => d.hasWriter shell
    | .attach shell :: _ => !attached || (d.held shell).isEmpty
    | _ => true
  | .send =>
    match d.supervisor with
    | .connected _ (some s) => (inputsOf [s.cmd]).isEmpty || (d.writers s.writer).running
    | _ => true
  | .write w ok => ok || (inputsOf (d.writers w).queue).isEmpty
  | .writerEnds w => (inputsOf (d.writers w).queue).isEmpty
  | .stop => d.commands.all fun cmd => match cmd with | .input _ _ => false | _ => true
  | _ => true

abbrev Keeps (d : InputPath) (i : PathInput) : Prop := d.keeps i = true

/-! ## The invariant -/

def liveOf (d : InputPath) : Table String Nat :=
  match d.supervisor with
  | .connected live _ => live
  | _ => ∅

def sendingOf (d : InputPath) : Option Sending :=
  match d.supervisor with
  | .connected _ sending => sending
  | _ => none

/-- A writer the supervisor may still send to. -/
def Target (d : InputPath) (shell : String) (w : Nat) : Prop :=
  d.liveOf.lookup shell = some w ∨ ∃ cmd, d.sendingOf = some ⟨shell, w, cmd⟩

/-- No writer but `w` has input for `shell`. -/
def Sole (d : InputPath) (shell : String) (w : Nat) : Prop := ∀ j, heldBy shell (d.writers j) ≠ [] → j = w

structure Inv (d : InputPath) : Prop where
  target : ∀ shell w, d.Target shell w →
    w < d.started ∧ (d.writers w).shell = shell ∧ WriterCmd.detach ∉ (d.writers w).queue ∧ d.Sole shell w
  sendLive : ∀ s, d.sendingOf = some s → s.cmd ≠ .detach → d.liveOf.lookup s.shell = some s.writer
  sendDetach : ∀ s, d.sendingOf = some s → s.cmd = .detach → d.liveOf.lookup s.shell = none
  /-- Nothing follows a detach. -/
  tail : ∀ w a b, (d.writers w).queue = a ++ .detach :: b → b = []
  unique : ∀ shell i j, heldBy shell (d.writers i) ≠ [] → heldBy shell (d.writers j) ≠ [] → i = j
  idle : ∀ w, d.started ≤ w → (d.writers w).queue = []
  delivered : d.Delivered

theorem inv_start : Inv start where
  target := by
    rintro shell w (h | ⟨cmd, h⟩)
    · cases h
    · cases h
  sendLive := nofun
  sendDetach := nofun
  tail := by
    intro w a b h
    cases a <;> cases h
  unique := by
    intro shell i j h
    simp [heldBy, start, inputsOf] at h
  idle := fun _ _ => rfl
  delivered := fun _ => rfl

section

variable {d d' : InputPath}

theorem held_congr {shell : String} (hstarted : d'.started = d.started)
    (h : ∀ w, heldBy shell (d'.writers w) = heldBy shell (d.writers w)) : d'.held shell = d.held shell := by
  simp only [held, hstarted, h]

theorem held_sole {shell : String} {w : Nat} (hlt : w < d.started) (h : d.Sole shell w) :
    d.held shell = heldBy shell (d.writers w) := by
  have hrange : ∀ n, (List.range n).flatMap (fun j => heldBy shell (d.writers j)) =
      if w < n then heldBy shell (d.writers w) else [] := by
    intro n
    induction n with
    | zero => rfl
    | succ n ih =>
      rw [List.range_succ, List.flatMap_append, ih, List.flatMap_cons, List.flatMap_nil, List.append_nil]
      by_cases hn : n = w
      · subst hn
        rw [if_neg (Nat.lt_irrefl n), if_pos (Nat.lt_succ_self n), List.nil_append]
      · have hempty : heldBy shell (d.writers n) = [] := by
          by_contra hne
          exact hn (h n hne)
        rw [hempty, List.append_nil]
        by_cases hw : w < n
        · rw [if_pos hw, if_pos (by omega)]
        · rw [if_neg hw, if_neg (by omega)]
  rw [held, hrange, if_pos hlt]

theorem heldBy_nil_of_held {shell : String} (hinv : Inv d) (h : d.held shell = []) (w : Nat) :
    heldBy shell (d.writers w) = [] := by
  by_cases hw : w < d.started
  · exact List.flatMap_eq_nil_iff.mp h w (List.mem_range.mpr hw)
  · rw [heldBy, hinv.idle w (by omega)]
    split <;> rfl

theorem writers_setWriter (d : InputPath) (w : Nat) (x : Writer) (j : Nat) :
    (d.setWriter w x).writers j = if j = w then x else d.writers j := by
  rw [setWriter]
  exact Function.update_apply _ _ _ _

/-- A step that leaves the writers alone. -/
theorem Inv.frame (h : Inv d) (hwriters : d'.writers = d.writers) (hstarted : d'.started = d.started)
    (htarget : ∀ shell w, d'.Target shell w → d.Target shell w)
    (hlive : ∀ s, d'.sendingOf = some s → s.cmd ≠ .detach → d'.liveOf.lookup s.shell = some s.writer)
    (hdetach : ∀ s, d'.sendingOf = some s → s.cmd = .detach → d'.liveOf.lookup s.shell = none)
    (hdelivered : d'.Delivered) : Inv d' where
  target := by
    intro shell w ht
    simp only [Sole, hwriters, hstarted]
    exact h.target shell w (htarget shell w ht)
  sendLive := hlive
  sendDetach := hdetach
  tail := by
    rw [hwriters]
    exact h.tail
  unique := by
    rw [hwriters]
    exact h.unique
  idle := by
    rw [hwriters, hstarted]
    exact h.idle
  delivered := hdelivered

/-- The supervisor is left alone as well. -/
theorem Inv.same (h : Inv d) (hwriters : d'.writers = d.writers) (hstarted : d'.started = d.started)
    (hsupervisor : d'.supervisor = d.supervisor) (hdelivered : d'.Delivered) : Inv d' := by
  have hlive : d'.liveOf = d.liveOf := by rw [liveOf, hsupervisor, liveOf]
  have hsending : d'.sendingOf = d.sendingOf := by rw [sendingOf, hsupervisor, sendingOf]
  refine h.frame hwriters hstarted ?_ ?_ ?_ hdelivered
  · rw [show d'.Target = d.Target by funext shell w; rw [Target, Target, hlive, hsending]]
    exact fun _ _ => id
  · rw [hlive, hsending]
    exact h.sendLive
  · rw [hlive, hsending]
    exact h.sendDetach

theorem Inv.setTab (h : Inv d) (shell : String) (q : InputQueue) : Inv (d.setTab shell q) :=
  h.same rfl rfl rfl h.delivered

/-- A writer lets go of commands that are no input. -/
theorem Inv.shrink (h : Inv d) {w : Nat} {x : Writer} (hshell : x.shell = (d.writers w).shell)
    (hsuffix : x.queue <:+ (d.writers w).queue) (hinputs : inputsOf x.queue = inputsOf (d.writers w).queue) :
    Inv (d.setWriter w x) := by
  have hheld : ∀ shell j, heldBy shell ((d.setWriter w x).writers j) = heldBy shell (d.writers j) := by
    intro shell j
    rw [writers_setWriter]
    split
    · rename_i hj
      rw [hj, heldBy, heldBy, hshell, hinputs]
    · rfl
  have hsole : ∀ shell v, (d.setWriter w x).Sole shell v ↔ d.Sole shell v := by
    intro shell v
    simp only [Sole, hheld]
  refine ⟨?_, h.sendLive, h.sendDetach, ?_, ?_, ?_, ?_⟩
  · intro shell v ht
    obtain ⟨hlt, hv, hdetach, hs⟩ := h.target shell v ht
    refine ⟨hlt, ?_, ?_, (hsole shell v).mpr hs⟩
    · rw [writers_setWriter]
      split
      · rename_i hvw
        rw [hshell, ← hvw]
        exact hv
      · exact hv
    · rw [writers_setWriter]
      split
      · rename_i hvw
        rw [hvw] at hdetach
        exact fun hmem => hdetach (hsuffix.subset hmem)
      · exact hdetach
  · intro v a b hq
    rw [writers_setWriter] at hq
    split at hq
    · obtain ⟨pre, hpre⟩ := hsuffix
      rw [hq, ← List.append_assoc] at hpre
      exact h.tail w (pre ++ a) b hpre.symm
    · exact h.tail v a b hq
  · intro shell i j hi hj
    rw [hheld] at hi hj
    exact h.unique shell i j hi hj
  · intro v hv
    rw [writers_setWriter]
    split
    · rename_i hvw
      rw [hvw] at hv
      have := h.idle w hv
      rw [this, List.suffix_nil] at hsuffix
      exact hsuffix
    · exact h.idle v hv
  · intro shell
    have := h.delivered shell
    rw [underWay] at this ⊢
    rw [@held_congr d (d.setWriter w x) shell rfl (hheld shell)]
    exact this

/-- A writer writes the oldest chunk it has. -/
theorem Inv.writeInput (h : Inv d) {w : Nat} {bytes : Chunk} {rest : List WriterCmd}
    (hqueue : (d.writers w).queue = .input bytes :: rest) :
    Inv { d.setWriter w { d.writers w with queue := rest } with
      written := Function.update d.written (d.writers w).shell (d.written (d.writers w).shell ++ [bytes]) } := by
  have hlt : w < d.started := by
    by_contra hge
    rw [h.idle w (by omega)] at hqueue
    cases hqueue
  have hmine : heldBy (d.writers w).shell (d.writers w) = bytes :: inputsOf rest := by
    rw [heldBy, if_pos rfl, hqueue]
    rfl
  have hsole : d.Sole (d.writers w).shell w := by
    intro j hj
    exact h.unique _ j w hj (by rw [hmine]; exact List.cons_ne_nil _ _)
  have hheld : ∀ shell j, heldBy shell ((d.setWriter w { d.writers w with queue := rest }).writers j) =
      if j = w ∧ (d.writers w).shell = shell then inputsOf rest else heldBy shell (d.writers j) := by
    intro shell j
    rw [writers_setWriter]
    by_cases hj : j = w
    · rw [if_pos hj, hj]
      by_cases hshell : (d.writers w).shell = shell
      · rw [if_pos ⟨rfl, hshell⟩, heldBy, if_pos hshell]
      · rw [if_neg (fun hand => hshell hand.2), heldBy, heldBy, if_neg hshell, if_neg hshell]
    · rw [if_neg hj, if_neg (fun hand => hj hand.1)]
  -- whoever has something now had something before
  have hbefore : ∀ shell j, heldBy shell ((d.setWriter w { d.writers w with queue := rest }).writers j) ≠ [] →
      heldBy shell (d.writers j) ≠ [] := by
    intro shell j hj
    rw [hheld] at hj
    split at hj
    · rename_i hand
      rw [hand.1, ← hand.2, hmine]
      exact List.cons_ne_nil _ _
    · exact hj
  refine ⟨?_, h.sendLive, h.sendDetach, ?_, ?_, ?_, ?_⟩
  · intro shell v ht
    obtain ⟨hv, hshell, hdetach, hs⟩ := h.target shell v ht
    refine ⟨hv, ?_, ?_, fun j hj => hs j (hbefore shell j hj)⟩
    · show ((d.setWriter w _).writers v).shell = shell
      rw [writers_setWriter]
      split
      · rename_i hvw
        rw [← hvw]
        exact hshell
      · exact hshell
    · show WriterCmd.detach ∉ ((d.setWriter w _).writers v).queue
      rw [writers_setWriter]
      split
      · rename_i hvw
        rw [hvw, hqueue] at hdetach
        exact fun hmem => hdetach (List.mem_cons_of_mem _ hmem)
      · exact hdetach
  · intro v a b hq
    replace hq : ((d.setWriter w { d.writers w with queue := rest }).writers v).queue = a ++ .detach :: b := hq
    rw [writers_setWriter] at hq
    split at hq
    · refine h.tail w (.input bytes :: a) b ?_
      rw [hqueue]
      exact congrArg _ hq
    · exact h.tail v a b hq
  · intro shell i j hi hj
    exact h.unique shell i j (hbefore shell i hi) (hbefore shell j hj)
  · intro v hv
    show ((d.setWriter w _).writers v).queue = []
    rw [writers_setWriter, if_neg (by rintro rfl; exact absurd hlt (Nat.not_lt.mpr hv))]
    exact h.idle v hv
  · intro shell
    have hold := h.delivered shell
    show d.accepted shell = Function.update d.written (d.writers w).shell (d.written (d.writers w).shell ++ [bytes]) shell ++
      ((d.setWriter w { d.writers w with queue := rest }).held shell ++ (d.inSend shell ++ d.queued shell))
    by_cases hshell : (d.writers w).shell = shell
    · subst hshell
      have hnow : (d.setWriter w { d.writers w with queue := rest }).held (d.writers w).shell = inputsOf rest := by
        rw [held_sole (d := d.setWriter w { d.writers w with queue := rest }) (w := w) hlt
          (fun j hj => hsole j (hbefore _ j hj)), hheld, if_pos ⟨rfl, rfl⟩]
      rw [hnow, hold, underWay, held_sole hlt hsole, hmine, Function.update_self]
      simp
    · have hother : ∀ j, heldBy shell ((d.setWriter w { d.writers w with queue := rest }).writers j) =
          heldBy shell (d.writers j) := by
        intro j
        rw [hheld, if_neg (fun hand => hshell hand.2)]
      rw [@held_congr d (d.setWriter w { d.writers w with queue := rest }) _ rfl hother,
        Function.update_of_ne (Ne.symm hshell)]
      exact hold

/-- The supervisor's send goes through. -/
theorem Inv.handed (h : Inv d) {live : Table String Nat} {s : Sending}
    (hsupervisor : d.supervisor = .connected live (some s)) :
    Inv { d.setWriter s.writer { d.writers s.writer with queue := (d.writers s.writer).queue ++ [s.cmd] } with
      supervisor := .connected live none } := by
  have hliveOf : d.liveOf = live := by rw [liveOf, hsupervisor]
  have hsendingOf : d.sendingOf = some s := by rw [sendingOf, hsupervisor]
  obtain ⟨hlt, hshell, hdetach, hsole⟩ := h.target s.shell s.writer (.inr ⟨s.cmd, hsendingOf⟩)
  generalize hx : ({ d.writers s.writer with queue := (d.writers s.writer).queue ++ [s.cmd] } : Writer) = x
  have hxshell : x.shell = s.shell := by rw [← hx]; exact hshell
  have hxqueue : x.queue = (d.writers s.writer).queue ++ [s.cmd] := by rw [← hx]
  have hxinputs : inputsOf x.queue = inputsOf (d.writers s.writer).queue ++ inputsOf [s.cmd] := by
    rw [hxqueue]
    exact List.filterMap_append
  have hother : ∀ shell j, shell ≠ s.shell ∨ j ≠ s.writer →
      heldBy shell ((d.setWriter s.writer x).writers j) = heldBy shell (d.writers j) := by
    intro shell j hne
    rw [writers_setWriter]
    split
    · rename_i hj
      have hshell' : shell ≠ s.shell := hne.resolve_right (not_not.mpr hj)
      rw [hj, heldBy, heldBy, hxshell, hshell, if_neg (Ne.symm hshell'), if_neg (Ne.symm hshell')]
    · rfl
  have hsole' : ∀ j, heldBy s.shell ((d.setWriter s.writer x).writers j) ≠ [] → j = s.writer := by
    intro j hj
    by_contra hne
    rw [hother _ _ (.inr hne)] at hj
    exact hne (hsole j hj)
  have hunique : ∀ shell i j, heldBy shell ((d.setWriter s.writer x).writers i) ≠ [] →
      heldBy shell ((d.setWriter s.writer x).writers j) ≠ [] → i = j := by
    intro shell i j hi hj
    by_cases hs : shell = s.shell
    · subst hs
      rw [hsole' i hi, hsole' j hj]
    · rw [hother _ _ (.inl hs)] at hi hj
      exact h.unique shell i j hi hj
  refine ⟨?_, nofun, nofun, ?_, hunique, ?_, ?_⟩
  · rintro shell v (hv | ⟨cmd, hcmd⟩)
    · replace hv : live.lookup shell = some v := hv
      obtain ⟨hvlt, hvshell, hvdetach, hvsole⟩ := h.target shell v (.inl (by rw [hliveOf]; exact hv))
      by_cases hvw : v = s.writer
      · subst hvw
        have hs : shell = s.shell := hvshell.symm.trans hshell
        subst hs
        -- a writer that is sent a detach is no longer in the map
        have hcmd : s.cmd ≠ .detach := by
          intro hd
          have := h.sendDetach s hsendingOf hd
          rw [hliveOf, hv] at this
          cases this
        refine ⟨hvlt, ?_, ?_, hsole'⟩
        · show ((d.setWriter s.writer x).writers s.writer).shell = s.shell
          rw [writers_setWriter, if_pos rfl]
          exact hxshell
        · show WriterCmd.detach ∉ ((d.setWriter s.writer x).writers s.writer).queue
          rw [writers_setWriter, if_pos rfl, hxqueue]
          simp only [List.mem_append, List.mem_singleton, not_or]
          exact ⟨hvdetach, fun hd => hcmd hd.symm⟩
      · have hs : shell ≠ s.shell := by
          rintro rfl
          by_cases hd : s.cmd = .detach
          · have := h.sendDetach s hsendingOf hd
            rw [hliveOf, hv] at this
            cases this
          · have := h.sendLive s hsendingOf hd
            rw [hliveOf, hv] at this
            exact hvw (Option.some.inj this)
        have hv' : (d.setWriter s.writer x).writers v = d.writers v := by rw [writers_setWriter, if_neg hvw]
        refine ⟨hvlt, ?_, ?_, ?_⟩
        · exact (congrArg Writer.shell hv').trans hvshell
        · show WriterCmd.detach ∉ ((d.setWriter s.writer x).writers v).queue
          rw [hv']
          exact hvdetach
        · intro j hj
          exact hvsole j (by rw [← hother _ _ (.inl hs)]; exact hj)
    · cases hcmd
  · intro v a b hq
    replace hq : ((d.setWriter s.writer x).writers v).queue = a ++ .detach :: b := hq
    rw [writers_setWriter] at hq
    split at hq
    · -- a detach can only be the command just handed over
      rw [hxqueue] at hq
      rcases List.eq_nil_or_concat b with hb | ⟨b', c, rfl⟩
      · exact hb
      · have hq' : (d.writers s.writer).queue ++ [s.cmd] = (a ++ .detach :: b') ++ [c] := by
          rw [hq]
          simp
        have hmem : WriterCmd.detach ∈ (d.writers s.writer).queue := by
          rw [(List.append_inj' hq' rfl).1]
          simp
        exact absurd hmem hdetach
    · exact h.tail v a b hq
  · intro v hv
    show ((d.setWriter s.writer x).writers v).queue = []
    rw [writers_setWriter, if_neg (by rintro rfl; exact absurd hlt (Nat.not_lt.mpr hv))]
    exact h.idle v hv
  · intro shell
    have hold := h.delivered shell
    show d.accepted shell = d.written shell ++ ((d.setWriter s.writer x).held shell ++ ([] ++ d.queued shell))
    rw [underWay, inSend, hsupervisor] at hold
    by_cases hs : shell = s.shell
    · subst hs
      have hnow : (d.setWriter s.writer x).held s.shell = inputsOf (d.writers s.writer).queue ++ inputsOf [s.cmd] := by
        rw [held_sole (d := d.setWriter s.writer x) (w := s.writer) hlt hsole', writers_setWriter, if_pos rfl, heldBy,
          if_pos hxshell, hxinputs]
      rw [hnow, hold, held_sole hlt hsole, heldBy, if_pos hshell]
      simp
    · rw [@held_congr d (d.setWriter s.writer x) _ rfl (fun j => hother _ _ (.inl hs)), hold]
      simp [Ne.symm hs]

theorem Inv.endWriter (h : Inv d) {w : Nat} (hnone : inputsOf (d.writers w).queue = []) : Inv (d.endWriter w) :=
  h.shrink rfl List.nil_suffix hnone.symm

/-! ## One lemma for each part -/

theorem Inv.shellInput (h : Inv d) (shell : String) : Inv (d.shellInput shell) := by
  unfold InputPath.shellInput
  cases hflight : (d.tabs shell).inFlight with
  | none => exact h
  | some data =>
    have haccepted : Inv (if d.commands.length ≥ serverQueue then d
        else
          { d.setTab shell (d.tabs shell).sent with
            commands := d.commands ++ [.input shell data]
            accepted := Function.update d.accepted shell (d.accepted shell ++ [data]) }) := by
      split
      · exact h
      · refine h.same rfl rfl rfl fun other => ?_
        have hold := h.delivered other
        show Function.update d.accepted shell (d.accepted shell ++ [data]) other =
          d.written other ++ (d.held other ++ (d.inSend other ++
            queuedIn other (d.commands ++ [.input shell data])))
        rw [queuedIn, List.filterMap_append]
        by_cases hother : other = shell
        · subst hother
          rw [Function.update_self, hold, underWay, queued, queuedIn]
          simp
        · rw [Function.update_of_ne hother, hold, underWay, queued, queuedIn]
          simp [Ne.symm hother]
    cases hsupervisor : d.supervisor with
    | stopped => exact h.setTab shell _
    | connecting => exact haccepted
    | authRequired => exact haccepted
    | connected live sending => exact haccepted

def isInput : ServerCmd → Bool
  | .input _ _ => true
  | _ => false

theorem queuedIn_cons {cmd : ServerCmd} (hcmd : isInput cmd = false) (shell : String) (rest : List ServerCmd) :
    queuedIn shell (cmd :: rest) = queuedIn shell rest := by
  cases cmd with
  | input s bytes => cases hcmd
  | _ => rfl

/-- A command that is no input leaves the channel. -/
theorem Inv.dequeue (h : Inv d) {cmd : ServerCmd} {rest : List ServerCmd} (hcommands : d.commands = cmd :: rest)
    (hcmd : isInput cmd = false) : Inv { d with commands := rest } := by
  refine h.same rfl rfl rfl fun shell => ?_
  have hold := h.delivered shell
  rw [underWay, queued, hcommands, queuedIn_cons hcmd] at hold
  exact hold

section

variable {live live' : Table String Nat}

/-- The map loses entries, and the supervisor's hand is or gets empty. -/
theorem Inv.within (h : Inv d) (hsupervisor : d.supervisor = .connected live none)
    (hwithin : ∀ shell w, live'.lookup shell = some w → live.lookup shell = some w) :
    Inv { d with supervisor := .connected live' none } := by
  have hliveOf : d.liveOf = live := by rw [liveOf, hsupervisor]
  refine h.frame rfl rfl ?_ nofun nofun ?_
  · rintro shell w (hw | ⟨cmd, hcmd⟩)
    · exact .inl (by rw [hliveOf]; exact hwithin shell w hw)
    · cases hcmd
  · intro shell
    have hold := h.delivered shell
    rw [underWay, inSend, hsupervisor] at hold
    exact hold

/-- `forward` of a command that is no detach. -/
theorem Inv.forward (h : Inv d) (hsupervisor : d.supervisor = .connected live none) {shell : String}
    {cmd : WriterCmd} (hcmd : cmd ≠ .detach) {rest : List ServerCmd}
    (hqueued : ∀ other, d.queued other =
      (({ d with commands := rest } : InputPath).forward live shell cmd).inSend other ++ queuedIn other rest) :
    Inv (({ d with commands := rest } : InputPath).forward live shell cmd) := by
  have hliveOf : d.liveOf = live := by rw [liveOf, hsupervisor]
  refine h.frame rfl rfl ?_ ?_ ?_ ?_
  · rintro other w (hw | ⟨c, hc⟩)
    · exact .inl (by rw [hliveOf]; exact hw)
    · obtain ⟨v, hv, hsending⟩ := Option.map_eq_some_iff.mp hc
      cases hsending
      exact .inl (by rw [hliveOf]; exact hv)
  · intro s hs _
    obtain ⟨v, hv, rfl⟩ := Option.map_eq_some_iff.mp hs
    exact hv
  · intro s hs hd
    obtain ⟨v, hv, rfl⟩ := Option.map_eq_some_iff.mp hs
    exact absurd hd hcmd
  · intro other
    have hold := h.delivered other
    rw [underWay, hqueued, inSend, hsupervisor, List.nil_append] at hold
    exact hold

/-- A detach takes the writer out of the map before it is sent to it. -/
theorem Inv.detaches (h : Inv d) (hsupervisor : d.supervisor = .connected live none) (shell : String) :
    Inv { d with
      supervisor := .connected (live.erase shell) ((live.lookup shell).map fun w => ⟨shell, w, .detach⟩) } := by
  have hliveOf : d.liveOf = live := by rw [liveOf, hsupervisor]
  refine h.frame rfl rfl ?_ ?_ ?_ ?_
  · rintro other w (hw | ⟨c, hc⟩)
    · exact .inl (by rw [hliveOf]; exact Table.within_erase live shell other w hw)
    · obtain ⟨v, hv, hsending⟩ := Option.map_eq_some_iff.mp hc
      cases hsending
      exact .inl (by rw [hliveOf]; exact hv)
  · intro s hs hd
    obtain ⟨v, hv, rfl⟩ := Option.map_eq_some_iff.mp hs
    exact absurd rfl hd
  · intro s hs _
    obtain ⟨v, hv, rfl⟩ := Option.map_eq_some_iff.mp hs
    exact AList.lookup_erase _ _
  · intro other
    have hold := h.delivered other
    rw [underWay, inSend, hsupervisor] at hold
    rw [underWay, inSend]
    cases hlookup : live.lookup shell with
    | none => exact hold
    | some w =>
      simp only [Option.map_some, inputsOf, List.filterMap_cons, List.filterMap_nil, ite_self]
      exact hold

/-- A writer is started where none has input for the shell. -/
theorem Inv.attaches (h : Inv d) (hsupervisor : d.supervisor = .connected live none) {shell : String}
    (hheld : d.held shell = []) :
    Inv { d.setWriter d.started ⟨shell, [], true⟩ with
      supervisor := .connected (live.insert shell d.started) none
      started := d.started + 1 } := by
  have hliveOf : d.liveOf = live := by rw [liveOf, hsupervisor]
  have hsame : ∀ other j, heldBy other ((d.setWriter d.started ⟨shell, [], true⟩).writers j) =
      heldBy other (d.writers j) := by
    intro other j
    rw [writers_setWriter]
    split
    · rename_i hj
      rw [hj, heldBy, heldBy, h.idle d.started (Nat.le_refl _)]
      simp only [inputsOf, List.filterMap_nil, ite_self]
    · rfl
  refine ⟨?_, nofun, nofun, ?_, ?_, ?_, ?_⟩
  · rintro other w (hw | ⟨cmd, hcmd⟩)
    · rcases Table.lookup_insert_some.mp hw with ⟨rfl, rfl⟩ | ⟨hne, hw⟩
      · have hw' : (d.setWriter d.started ⟨other, [], true⟩).writers d.started = ⟨other, [], true⟩ := by
          rw [writers_setWriter, if_pos rfl]
        refine ⟨Nat.lt_succ_self _, congrArg Writer.shell hw', ?_, ?_⟩
        · show WriterCmd.detach ∉ ((d.setWriter d.started ⟨other, [], true⟩).writers d.started).queue
          rw [hw']
          exact List.not_mem_nil
        · intro j hj
          exact absurd (heldBy_nil_of_held h hheld j) (by rw [← hsame]; exact hj)
      · obtain ⟨hlt, hshell, hdetach, hsole⟩ := h.target other w (.inl (by rw [hliveOf]; exact hw))
        have hw' : (d.setWriter d.started ⟨shell, [], true⟩).writers w = d.writers w := by
          rw [writers_setWriter, if_neg (Nat.ne_of_lt hlt)]
        refine ⟨Nat.lt_succ_of_lt hlt, (congrArg Writer.shell hw').trans hshell, ?_, ?_⟩
        · show WriterCmd.detach ∉ ((d.setWriter d.started ⟨shell, [], true⟩).writers w).queue
          rw [hw']
          exact hdetach
        · intro j hj
          exact hsole j (by rw [← hsame]; exact hj)
    · cases hcmd
  · intro w a b hq
    replace hq : ((d.setWriter d.started ⟨shell, [], true⟩).writers w).queue = a ++ .detach :: b := hq
    rw [writers_setWriter] at hq
    split at hq
    · cases a <;> cases hq
    · exact h.tail w a b hq
  · intro other i j hi hj
    exact h.unique other i j (by rw [← hsame]; exact hi) (by rw [← hsame]; exact hj)
  · intro w hw
    show ((d.setWriter d.started ⟨shell, [], true⟩).writers w).queue = []
    replace hw : d.started + 1 ≤ w := hw
    rw [writers_setWriter, if_neg (by omega)]
    exact h.idle w (by omega)
  · intro other
    have hold := h.delivered other
    rw [underWay, inSend, hsupervisor] at hold
    have hnow : ({ d.setWriter d.started ⟨shell, [], true⟩ with
        supervisor := .connected (live.insert shell d.started) none
        started := d.started + 1 } : InputPath).held other = d.held other := by
      show (List.range (d.started + 1)).flatMap _ = _
      simp only [List.range_succ, List.flatMap_append, List.flatMap_cons, List.flatMap_nil, hsame, List.append_nil]
      rw [show heldBy other (d.writers d.started) = [] by
        rw [heldBy, h.idle d.started (Nat.le_refl _)]
        simp only [inputsOf, List.filterMap_nil, ite_self], List.append_nil]
      rfl
    rw [underWay, hnow]
    exact hold

end

/-- The supervisor moves on with nothing in its hand and an empty map. -/
theorem Inv.moves (h : Inv d) {supervisor : Supervisor} {commands : List ServerCmd}
    (hlive : ({ d with supervisor := supervisor, commands := commands } : InputPath).liveOf = ∅)
    (hsending : ({ d with supervisor := supervisor, commands := commands } : InputPath).sendingOf = none)
    (hunder : ∀ shell, ({ d with supervisor := supervisor, commands := commands } : InputPath).inSend shell ++
      queuedIn shell commands = d.inSend shell ++ d.queued shell) :
    Inv { d with supervisor := supervisor, commands := commands } := by
  refine h.frame rfl rfl ?_ ?_ ?_ ?_
  · rintro shell w (hw | ⟨cmd, hcmd⟩)
    · rw [hlive] at hw
      cases hw
    · rw [hsending] at hcmd
      cases hcmd
  · intro s hs
    rw [hsending] at hs
    cases hs
  · intro s hs
    rw [hsending] at hs
    cases hs
  · intro shell
    have hold := h.delivered shell
    rw [underWay, ← hunder] at hold
    exact hold

theorem take_authRequired {cmd : ServerCmd} {rest : List ServerCmd} {attached : Bool}
    (hcommands : d.commands = cmd :: rest) (hsupervisor : d.supervisor = .authRequired) :
    d.take attached =
      { d with commands := rest, supervisor := if cmd = .login then .connecting else .authRequired } := by
  simp only [take, hcommands, hsupervisor]

theorem take_connected {cmd : ServerCmd} {rest : List ServerCmd} {attached : Bool} {live : Table String Nat}
    (hcommands : d.commands = cmd :: rest) (hsupervisor : d.supervisor = .connected live none) :
    d.take attached = ({ d with commands := rest } : InputPath).handleCmd live attached cmd := by
  simp only [take, hcommands, hsupervisor]

theorem Inv.takeConnected (h : Inv d) {cmd : ServerCmd} {rest : List ServerCmd} {attached : Bool}
    {live : Table String Nat} (hcommands : d.commands = cmd :: rest) (hsupervisor : d.supervisor = .connected live none)
    (hkeeps : d.Keeps (.take attached)) :
    Inv (({ d with commands := rest } : InputPath).handleCmd live attached cmd) := by
  simp only [Keeps, keeps, hcommands] at hkeeps
  have hrest := fun hcmd : isInput cmd = false => h.dequeue hcommands hcmd
  cases cmd with
  | input shell bytes =>
    simp only [hasWriter, hsupervisor, Option.isSome_iff_exists] at hkeeps
    obtain ⟨w, hw⟩ := hkeeps
    refine @Inv.forward _ _ h hsupervisor _ (.input bytes) (by simp) _ fun other => ?_
    rw [queued, hcommands, inSend, InputPath.forward, hw]
    by_cases hother : shell = other
    · simp [queuedIn, hother, inputsOf]
    · simp [queuedIn, hother]
  | resize shell =>
    refine @Inv.forward _ _ h hsupervisor _ .resize (by decide) _ fun other => ?_
    rw [queued, hcommands, queuedIn_cons rfl, inSend, InputPath.forward]
    cases live.lookup shell <;> simp [inputsOf]
  | history shell =>
    refine @Inv.forward _ _ h hsupervisor _ .history (by decide) _ fun other => ?_
    rw [queued, hcommands, queuedIn_cons rfl, inSend, InputPath.forward]
    cases live.lookup shell <;> simp [inputsOf]
  | attach shell =>
    simp only [InputPath.handleCmd]
    by_cases hattached : attached = true
    · rw [if_pos hattached]
      simp only [hattached, Bool.not_true, Bool.false_or, List.isEmpty_iff] at hkeeps
      exact (hrest rfl).attaches hsupervisor hkeeps
    · rw [if_neg hattached]
      exact hrest rfl
  | detach shell => exact (hrest rfl).detaches hsupervisor shell
  | terminate shell => exact (hrest rfl).within hsupervisor (Table.within_erase live shell)
  | login => exact hrest rfl
  | other => exact hrest rfl

theorem Inv.take (h : Inv d) (attached : Bool) (hkeeps : d.Keeps (.take attached)) : Inv (d.take attached) := by
  cases hcommands : d.commands with
  | nil =>
    rw [show d.take attached = d by simp only [InputPath.take, hcommands]]
    exact h
  | cons cmd rest =>
    cases hsupervisor : d.supervisor with
    | connecting =>
      rw [show d.take attached = d by simp only [InputPath.take, hcommands, hsupervisor]]
      exact h
    | stopped =>
      rw [show d.take attached = d by simp only [InputPath.take, hcommands, hsupervisor]]
      exact h
    | authRequired =>
      rw [take_authRequired hcommands hsupervisor]
      have hcmd : isInput cmd = false := by
        cases cmd with
        | input shell bytes => simp [Keeps, keeps, hcommands, hasWriter, hsupervisor] at hkeeps
        | _ => rfl
      have hunder : ∀ shell, d.inSend shell ++ d.queued shell = queuedIn shell rest := by
        intro shell
        rw [inSend, hsupervisor, queued, hcommands, queuedIn_cons hcmd]
        rfl
      by_cases hlogin : cmd = .login
      · rw [if_pos hlogin]
        exact h.moves rfl rfl fun shell => (hunder shell).symm
      · rw [if_neg hlogin]
        exact h.moves rfl rfl fun shell => (hunder shell).symm
    | connected live sending =>
      cases sending with
      | some s =>
        rw [show d.take attached = d by simp only [InputPath.take, hcommands, hsupervisor]]
        exact h
      | none =>
        rw [take_connected hcommands hsupervisor]
        exact h.takeConnected hcommands hsupervisor hkeeps

theorem Inv.send (h : Inv d) (hkeeps : d.Keeps .send) : Inv d.send := by
  unfold InputPath.send
  cases hsupervisor : d.supervisor with
  | connecting => exact h
  | authRequired => exact h
  | stopped => exact h
  | connected live sending =>
    cases sending with
    | none => exact h
    | some s =>
      simp only
      by_cases hrunning : (d.writers s.writer).running = false
      · rw [if_pos hrunning]
        simp only [Keeps, keeps, hsupervisor, hrunning, Bool.or_false, List.isEmpty_iff] at hkeeps
        have hliveOf : d.liveOf = live := by rw [liveOf, hsupervisor]
        refine h.frame rfl rfl ?_ nofun nofun ?_
        · rintro shell w (hw | ⟨c, hc⟩)
          · refine .inl ?_
            rw [hliveOf]
            replace hw : (if s.cmd = .history then live else live.erase s.shell).lookup shell = some w := hw
            split at hw
            · exact hw
            · exact Table.within_erase live s.shell shell w hw
          · cases hc
        · intro shell
          have hold := h.delivered shell
          rw [underWay, inSend, hsupervisor] at hold
          simp only [hkeeps, ite_self] at hold
          exact hold
      · rw [if_neg hrunning]
        by_cases hfull : (d.writers s.writer).queue.length ≥ writerQueue
        · rw [if_pos hfull]
          exact h
        · rw [if_neg hfull]
          exact h.handed hsupervisor

theorem Inv.write (h : Inv d) (w : Nat) (ok : Bool) (hkeeps : d.Keeps (.write w ok)) : Inv (d.write w ok) := by
  unfold InputPath.write
  simp only [Keeps, keeps, Bool.or_eq_true, List.isEmpty_iff] at hkeeps
  cases hqueue : (d.writers w).queue with
  | nil => exact h
  | cons cmd rest =>
    have hlost : ¬ok = true → inputsOf (d.writers w).queue = [] := fun hok => hkeeps.resolve_left hok
    cases cmd with
    | detach =>
      have hlast : rest = [] := h.tail w [] rest hqueue
      exact h.endWriter (by rw [hqueue, hlast]; rfl)
    | resize =>
      simp only
      split
      · exact h.shrink rfl (by rw [hqueue]; exact List.suffix_cons _ _) (by rw [hqueue]; rfl)
      · exact h.endWriter (hlost ‹_›)
    | history =>
      simp only
      split
      · exact h.shrink rfl (by rw [hqueue]; exact List.suffix_cons _ _) (by rw [hqueue]; rfl)
      · exact h.endWriter (hlost ‹_›)
    | input bytes =>
      simp only
      split
      · exact h.writeInput hqueue
      · exact h.endWriter (hlost ‹_›)

theorem Inv.stop (h : Inv d) (hkeeps : d.Keeps .stop) : Inv d.stop := by
  have hnone : ∀ shell, d.queued shell = [] := by
    intro shell
    simp only [Keeps, keeps, List.all_eq_true] at hkeeps
    rw [queued, queuedIn, List.filterMap_eq_nil_iff]
    intro cmd hcmd
    have := hkeeps cmd hcmd
    cases cmd with
    | input s bytes => cases this
    | _ => rfl
  unfold InputPath.stop
  split
  · rename_i hsupervisor
    refine h.moves rfl rfl fun shell => ?_
    rw [hnone, inSend, inSend, hsupervisor]
    rfl
  · exact h
  · rename_i hconnecting hsending
    split
    · refine @Inv.moves _ h _ d.commands rfl rfl fun shell => ?_
      have hidle : d.inSend shell = [] := by
        unfold inSend
        split
        · rename_i live s hs
          exact absurd hs (hsending live s)
        · rfl
      rw [hidle]
      rfl
    · exact h

theorem inv_step (h : Inv d) (i : PathInput) (hkeeps : d.Keeps i) : Inv (d.step i).1 := by
  cases i with
  | type shell data => exact h.setTab shell _
  | pause shell => exact h.setTab shell _
  | resume shell => exact h.setTab shell _
  | clear shell => exact h.setTab shell _
  | shellInput shell => exact h.shellInput shell
  | command cmd =>
    have hput : isInput cmd = false →
        Inv (if d.commands.length ≥ serverQueue then d else { d with commands := d.commands ++ [cmd] }) := by
      intro hcmd
      split
      · exact h
      · refine h.same rfl rfl rfl fun shell => ?_
        have hold := h.delivered shell
        have hqueued : queuedIn shell (d.commands ++ [cmd]) = d.queued shell := by
          rw [queued, queuedIn, List.filterMap_append]
          exact (congrArg _ (queuedIn_cons hcmd shell [])).trans (List.append_nil _)
        rw [underWay, ← hqueued] at hold
        exact hold
    cases cmd with
    | input shell bytes => exact h
    | _ => exact hput rfl
  | connects =>
    simp only [step]
    split
    · rename_i hsupervisor
      refine @Inv.moves _ h _ d.commands rfl rfl fun shell => ?_
      rw [queued, inSend, inSend, hsupervisor]
    · exact h
  | authFails =>
    simp only [step]
    split
    · rename_i hsupervisor
      refine @Inv.moves _ h _ d.commands rfl rfl fun shell => ?_
      rw [queued, inSend, inSend, hsupervisor]
    · exact h
  | lost =>
    simp only [step]
    split
    · rename_i hsupervisor
      refine @Inv.moves _ h _ d.commands rfl rfl fun shell => ?_
      rw [queued, inSend, inSend, hsupervisor]
    · exact h
  | stop => exact h.stop hkeeps
  | take attached => exact h.take attached hkeeps
  | send => exact h.send hkeeps
  | write w ok =>
    simp only [step]
    split
    · exact h.write w ok hkeeps
    · exact h
  | writerEnds w => exact h.endWriter (by simpa [Keeps, keeps, List.isEmpty_iff] using hkeeps)

end

/-! ## A tab lets go of what was accepted -/

/-- Between `d` and `d'` the tab of `shell` lost nothing from its queue, or its first chunk
    by being accepted. -/
def Leaves (d d' : InputPath) (shell : String) : Prop :=
  (∃ more, (d'.tabs shell).queue = (d.tabs shell).queue ++ more) ∨
    ∃ data, (d.tabs shell).queue = data :: (d'.tabs shell).queue ∧ d'.accepted shell = d.accepted shell ++ [data]

def Coherent (d : InputPath) : Prop := ∀ shell, (d.tabs shell).Coherent

theorem tabs_setTab (d : InputPath) (shell : String) (q : InputQueue) (other : String) :
    (d.setTab shell q).tabs other = if other = shell then q else d.tabs other := Function.update_apply _ _ _ _

theorem Coherent.setTab {d : InputPath} (h : d.Coherent) {shell : String} {q : InputQueue} (hq : q.Coherent) :
    (d.setTab shell q).Coherent := by
  intro other
  rw [tabs_setTab]
  split
  · exact hq
  · exact h other

theorem Leaves.same {d d' : InputPath} {shell : String} (h : d'.tabs shell = d.tabs shell) : Leaves d d' shell :=
  .inl ⟨[], by rw [h, List.append_nil]⟩

/-- A tab's queue that gets no shorter. -/
theorem Leaves.setTab {d : InputPath} {shell other : String} {q : InputQueue}
    (h : ∃ more, q.queue = (d.tabs shell).queue ++ more) : Leaves d (d.setTab shell q) other := by
  by_cases hother : other = shell
  · subst hother
    left
    rw [tabs_setTab, if_pos rfl]
    exact h
  · exact .same (by rw [tabs_setTab, if_neg hother])

theorem tabs_take (d : InputPath) (attached : Bool) : (d.take attached).tabs = d.tabs := by
  unfold take
  split
  · rfl
  · unfold handleCmd
    split <;> first | rfl | (split <;> rfl)
  · rfl

theorem tabs_send (d : InputPath) : d.send.tabs = d.tabs := by
  unfold send
  split
  · split
    · rfl
    · split <;> rfl
  · rfl

theorem tabs_write (d : InputPath) (w : Nat) (ok : Bool) : (d.write w ok).tabs = d.tabs := by
  unfold write
  split <;> first | rfl | (split <;> rfl)

theorem tabs_stop (d : InputPath) : d.stop.tabs = d.tabs := by
  unfold stop
  split <;> first | rfl | (split <;> rfl)

/-- What a resolved or failed `shell_input` does to its tab. -/
theorem shellInput_leaves {d : InputPath} (h : d.Coherent) (shell other : String) :
    Leaves d (d.shellInput shell) other ∧ (d.shellInput shell).Coherent := by
  unfold shellInput
  cases hflight : (d.tabs shell).inFlight with
  | none => exact ⟨.same rfl, h⟩
  | some data =>
    have hfailed : (d.tabs shell).failed.Coherent := InputQueue.Coherent.pump nofun
    have hsent : (d.tabs shell).sent.Coherent := InputQueue.Coherent.pump nofun
    have haccepted : ∀ d', d' = (if d.commands.length ≥ serverQueue then d
        else
          { d.setTab shell (d.tabs shell).sent with
            commands := d.commands ++ [.input shell data]
            accepted := Function.update d.accepted shell (d.accepted shell ++ [data]) }) →
        Leaves d d' other ∧ d'.Coherent := by
      rintro d' rfl
      split
      · exact ⟨.same rfl, h⟩
      · refine ⟨?_, h.setTab hsent⟩
        by_cases hother : other = shell
        · subst hother
          have htab : (d.setTab other (d.tabs other).sent).tabs other = (d.tabs other).sent := by
            rw [tabs_setTab, if_pos rfl]
          by_cases hcurrent : (d.tabs other).current = true
          · -- the chunk in flight is the first of the queue, and leaves it
            obtain ⟨first, hfirst, rest, hqueue⟩ := h other hcurrent
            rw [hflight] at hfirst
            cases hfirst
            refine .inr ⟨data, ?_, Function.update_self _ _ _⟩
            show (d.tabs other).queue = data :: ((d.setTab other (d.tabs other).sent).tabs other).queue
            rw [htab, InputQueue.sent, InputQueue.pump_queue, if_pos hcurrent, hqueue, List.tail_cons]
          · left
            refine ⟨[], ?_⟩
            show ((d.setTab other (d.tabs other).sent).tabs other).queue = _
            rw [htab, InputQueue.sent, InputQueue.pump_queue, if_neg hcurrent, List.append_nil]
        · refine .same ?_
          show (d.setTab shell (d.tabs shell).sent).tabs other = d.tabs other
          rw [tabs_setTab, if_neg hother]
    cases hsupervisor : d.supervisor with
    | stopped =>
      refine ⟨.setTab ⟨[], ?_⟩, h.setTab hfailed⟩
      rw [InputQueue.failed, InputQueue.pump_queue, List.append_nil]
    | connecting => exact haccepted _ rfl
    | authRequired => exact haccepted _ rfl
    | connected live sending => exact haccepted _ rfl

theorem step_leaves {d : InputPath} (h : d.Coherent) (i : PathInput) (shell : String) :
    (i ≠ .clear shell → Leaves d (d.step i).1 shell) ∧ (d.step i).1.Coherent := by
  have hkept : ∀ d' : InputPath, d'.tabs = d.tabs → (i ≠ .clear shell → Leaves d d' shell) ∧ d'.Coherent := by
    intro d' htabs
    refine ⟨fun _ => .same (by rw [htabs]), fun other => ?_⟩
    rw [htabs]
    exact h other
  cases i with
  | type s data => exact ⟨fun _ => .setTab (InputQueue.enqueue_queue _ _), h.setTab ((h s).enqueue data)⟩
  | pause s => exact ⟨fun _ => .setTab ⟨[], (List.append_nil _).symm⟩, h.setTab (h s)⟩
  | resume s =>
    refine ⟨fun _ => .setTab ⟨[], ?_⟩, h.setTab (InputQueue.Coherent.pump (h s))⟩
    rw [InputQueue.resume, InputQueue.pump_queue, List.append_nil]
  | clear s =>
    refine ⟨fun hne => .same ?_, h.setTab nofun⟩
    show (d.setTab s _).tabs shell = d.tabs shell
    rw [tabs_setTab, if_neg]
    rintro rfl
    exact hne rfl
  | shellInput s =>
    obtain ⟨hleaves, hcoherent⟩ := shellInput_leaves h s shell
    exact ⟨fun _ => hleaves, hcoherent⟩
  | command cmd =>
    refine hkept _ ?_
    simp only [step]
    split
    · rfl
    · split <;> rfl
  | connects => exact hkept _ (by simp only [step]; split <;> rfl)
  | authFails => exact hkept _ (by simp only [step]; split <;> rfl)
  | lost => exact hkept _ (by simp only [step]; split <;> rfl)
  | stop => exact hkept _ (tabs_stop d)
  | take attached => exact hkept _ (tabs_take d attached)
  | send => exact hkept _ (tabs_send d)
  | write w ok =>
    refine hkept _ ?_
    simp only [step]
    split
    · exact tabs_write d w ok
    · rfl
  | writerEnds w => exact hkept _ rfl

theorem coherent_start : start.Coherent := by
  intro shell h
  cases h

theorem coherent_run (is : List PathInput) : (machine.run start is).Coherent :=
  machine.run_induction (P := Coherent) (fun _ i h _ => (step_leaves h i "").2) coherent_start
    (machine.admissible_true start is)

/-- In every run whose steps lose nothing, what a shell's attachments were written is what
    was accepted for it, in order, up to what is still under way. In every run a tab keeps a
    chunk until it is accepted. -/
theorem accepted_input_written (is : List PathInput) :
    (machine.Admissible Keeps start is → (machine.run start is).Delivered) ∧
    ∀ i shell, i ≠ .clear shell → Leaves (machine.run start is) (machine.next (machine.run start is) i) shell := by
  refine ⟨fun h => ?_, fun i shell hi => (step_leaves (coherent_run is) i shell).1 hi⟩
  exact (machine.run_induction (P := Inv) (fun _ i hinv hkeeps => inv_step hinv i hkeeps) inv_start h).delivered

/-- An attached shell, and `ls` typed and accepted. -/
def typedLs : List PathInput :=
  [.connects, .command (.attach "s"), .take true, .resume "s", .type "s" [108, 115], .shellInput "s"]

theorem accepted_input_written_ls :
    machine.Admissible Keeps start (typedLs ++ [.take false, .send, .write 0 true]) ∧
      (machine.run start (typedLs ++ [.take false, .send, .write 0 true])).Delivered :=
  ⟨by decide, (accepted_input_written _).1 (by decide)⟩

/-- The attachment's tasks end before the supervisor takes the command: the tab has let the
    chunk go, no writer ever gets it. -/
theorem accepted_input_lost :
    ¬(machine.run start (typedLs ++ [.writerEnds 0, .take false, .send])).Delivered := by
  intro h
  have := h "s"
  revert this
  decide

end InputPath

end Holdfast.Desktop

/-
  Holdfast.Daemon.Forwarder — the thread that forwards one attachment's events to its
  connection (`Conn::attach` of `crates/daemon/src/conn.rs`), and what it makes of a
  shell's exit.

  The thread takes events until the channel is empty and its sender gone, then reports
  ERR_TOO_SLOW unless it saw an exit. The pump offers the exit to the same bounded queue
  as the output, without waiting, and then lets go of the sender: a queue that is full at
  that moment loses the exit, and the forwarder reports a slow consumer for a shell that
  is gone.

  Proved:
  - `exit_sent`: what the EOF step leaves in a channel.
  - `exit_notification`: exits are always announced in just the runs in which every
    listening attachment has room in its queue at the shell's EOF.
  - `exit_lost`: a run in which one has not.
-/

import Holdfast.Daemon.Wire
import Holdfast.Session.Stream

namespace Holdfast.Daemon

open Holdfast.Base Holdfast.Session Holdfast.Session.Manager

/-! ## The thread -/

structure Forwarder where
  exited : Bool
  /-- The messages handed to the connection's writer. -/
  out : List Msg
  deriving DecidableEq, Repr

def tooSlow : Msg := .error .errTooSlow "attachment dropped: output overran the slow-consumer bound" true

def isExit : AttachmentEvent → Bool
  | .output _ => false
  | .exited _ => true

/-- The message an event is sent as. -/
def messageOf : AttachmentEvent → Msg
  | .output data => .terminalOutput data
  | .exited exit => .shellExited exit.exitCode.toInt32 (!exit.success)

namespace Forwarder

def start : Forwarder := ⟨false, []⟩

def event (f : Forwarder) (ev : AttachmentEvent) : Forwarder := ⟨f.exited || isExit ev, f.out ++ [messageOf ev]⟩

/-- The event channel closed: without an exit, session-core detached this attachment. -/
def closed (f : Forwarder) : Forwarder := if f.exited then f else { f with out := f.out ++ [tooSlow] }

end Forwarder

/-- All a forwarder sends for a channel that held `events` when its sender was gone. -/
def forward (events : List AttachmentEvent) : List Msg := (events.foldl Forwarder.event .start).closed.out

theorem exited_foldl (f : Forwarder) (events : List AttachmentEvent) :
    (events.foldl Forwarder.event f).exited = (f.exited || events.any isExit) := by
  induction events generalizing f with
  | nil => simp
  | cons ev events ih =>
    rw [List.foldl_cons, ih]
    cases ev <;> simp [Forwarder.event, isExit]

theorem tooSlow_notMem_foldl {f : Forwarder} (hf : tooSlow ∉ f.out) (events : List AttachmentEvent) :
    tooSlow ∉ (events.foldl Forwarder.event f).out := by
  induction events generalizing f with
  | nil => exact hf
  | cons ev events ih =>
    refine ih ?_
    cases ev <;> simp [Forwarder.event, messageOf, tooSlow] <;> exact hf

/-- ERR_TOO_SLOW is what is reported for a channel that closed without an exit. -/
theorem tooSlow_mem_forward (events : List AttachmentEvent) :
    tooSlow ∈ forward events ↔ events.any isExit = false := by
  have hout := tooSlow_notMem_foldl (f := .start) (by simp [Forwarder.start]) events
  have hex : (events.foldl Forwarder.event .start).exited = events.any isExit := exited_foldl .start events
  unfold forward Forwarder.closed
  cases h : events.any isExit with
  | false => rw [h] at hex; simp [hex]
  | true => rw [h] at hex; simpa [hex] using hout

/-! ## The exit step -/

variable {V : Type} (S : Server V)

variable {S}

/-- What the EOF step leaves behind: the exit is the last event of a channel that had
    room for it, and absent from one that had not. -/
theorem exit_sent {m : Manager V} (h : CapacityInv S m) {id : ShellId} {wait : Except PtyError ExitSummary}
    (hdone : (m.step S (.pumpEof id wait)).2 = .done) {e : ShellEntry V} (he : m.find id = some e) {i : Nat}
    (hi : i ∈ e.runtime.attachments) :
    ∃ e', (m.step S (.pumpEof id wait)).1.find id = some e' ∧ i < e'.runtime.nextAttachmentId ∧
      (subscriberOf e'.runtime i).subscribed = false ∧
      (e'.runtime.channels i).connected = (e.runtime.channels i).connected ∧
      (e'.runtime.channels i).sent =
        if (e.runtime.channels i).connected && (e.runtime.channels i).hasRoom then
          (e.runtime.channels i).sent ++ [.exited (exitOf wait)]
        else (e.runtime.channels i).sent := by
  have hinv := h.shells id e he
  have hfresh : FreshId S m (.pumpEof id wait) := by simp [FreshId, freshId, hdone]
  cases find_step S h.keyed hfresh id with
  | kept _ hacts => rw [hdone] at hacts; exact absurd rfl hacts
  | created req env account hop => cases hop
  | changed e₀ e' hl hs h' =>
    rw [he] at hl; cases hl
    rw [hdone] at hs
    cases hs with
    | pumpEof _ hp =>
      have hsub := subscriberOf_pumpEof (hinv.pty hp) wait i
      have hconn : (subscriberOf (e.runtime.pumpEof wait) i).chan.connected = (e.runtime.channels i).connected := by
        rw [hsub]
        exact Subscriber.connected_offer _ _
      refine ⟨_, h', hinv.below i hi, rfl, hconn, ?_⟩
      have hclose := Subscriber.close_sent (s := subscriberOf e.runtime i) (decide_eq_true hi) (.exited (exitOf wait))
      rw [← hsub] at hclose
      exact hclose

/-! ## Whole runs -/

variable (S)

/-- A property of every listening attachment in the table at every EOF of a run. -/
def AtExit (ops : List Op)
    (P : List Op → ShellId → Except PtyError ExitSummary → List Op → ShellEntry V → Nat → Prop) : Prop :=
  ∀ pre id wait post, ops = pre ++ .pumpEof id wait :: post →
    (((machine S).run empty pre).step S (.pumpEof id wait)).2 = .done →
    ∀ e, ((machine S).run empty pre).find id = some e → ∀ i ∈ e.runtime.attachments,
      (e.runtime.channels i).connected = true → P pre id wait post e i

/-- In every state after the EOF, an attachment that still listens has the exit as its
    last event, and the forwarder that drained it does not report a slow consumer. -/
def ExitNotified (ops : List Op) : Prop :=
  AtExit S ops fun pre id wait post e i =>
    ∀ mid rest, post = mid ++ rest →
      ∀ e', ((machine S).run (((machine S).run empty pre).step S (.pumpEof id wait)).1 mid).find id = some e' →
        (e'.runtime.channels i).connected = true →
        (e'.runtime.channels i).sent = (e.runtime.channels i).sent ++ [.exited (exitOf wait)] ∧
        ((e'.runtime.channels i).queue = [] → tooSlow ∉ forward (e'.runtime.channels i).received)

/-- Every listening attachment has room in its queue when the shell's EOF comes. -/
def RoomAtExit (ops : List Op) : Prop := AtExit S ops fun _ _ _ _ e i => (e.runtime.channels i).hasRoom = true

theorem exit_notification (ops : List Op) (hf : (machine S).Admissible (FreshId S) empty ops) :
    ExitNotified S ops ↔ RoomAtExit S ops := by
  have hpre : ∀ {pre id wait post}, ops = pre ++ .pumpEof id wait :: post →
      CapacityInv S ((machine S).run empty pre) ∧
      (machine S).Admissible (FreshId S) (((machine S).run empty pre).step S (.pumpEof id wait)).1 post ∧
      FreshId S ((machine S).run empty pre) (.pumpEof id wait) := by
    intro pre id wait post hops
    subst hops
    obtain ⟨hpre, hop, hpost⟩ := (machine S).admissible_append.mp hf
    exact ⟨capacityInv_run (capacityInv_empty S) hpre, hpost, hop⟩
  constructor
  · intro h pre id wait post hops hdone e he i hi hc
    obtain ⟨hcap, _, _⟩ := hpre hops
    obtain ⟨e', he', _, _, hconn, hsent⟩ := exit_sent hcap hdone he hi
    have hlast := (h pre id wait post hops hdone e he i hi hc [] post rfl e' he' (hconn.trans hc)).1
    cases hr : (e.runtime.channels i).hasRoom with
    | true => rfl
    | false =>
      -- no room: the step added nothing, but the exit is there
      rw [hc, hr] at hsent
      have := congrArg List.length (hsent.symm.trans hlast)
      simp at this
  · intro h pre id wait post hops hdone e he i hi hc mid rest hmid e' he' hc'
    obtain ⟨hcap, hpost, hop⟩ := hpre hops
    have hroom := h pre id wait post hops hdone e he i hi hc
    obtain ⟨e₁, he₁, hlt, hout, _, hsent⟩ := exit_sent hcap hdone he hi
    rw [hc, hroom] at hsent
    subst hmid
    obtain ⟨hmid, _⟩ := (machine S).admissible_append.mp hpost
    obtain ⟨e₂, he₂, htracks⟩ := subscriber_run (capacityInv_step hcap hop) hmid he₁ hlt
    rw [he'] at he₂; cases he₂
    have hc'' : ((subscriberOf e₁.runtime i).run (eventsOf id i ((machine S).trace
        (((machine S).run empty pre).step S (.pumpEof id wait)).1 mid))).chan.connected = true :=
      htracks.subscriber ▸ hc'
    have hkept := Subscriber.frozen_connected hout hc''
    rw [← htracks.subscriber] at hkept
    have hfinal : (e'.runtime.channels i).sent = (e.runtime.channels i).sent ++ [.exited (exitOf wait)] :=
      hkept.trans hsent
    refine ⟨hfinal, ?_⟩
    intro hq hslow
    have hreceived : (e'.runtime.channels i).received = (e'.runtime.channels i).sent := by
      simp [SyncChannel.sent, hq]
    rw [hreceived, hfinal] at hslow
    have := (tooSlow_mem_forward _).mp hslow
    simp [isExit] at this

/-! ## An exit that is lost -/

/-- A shell prints as many chunks as the queue of its one attachment holds, -/
def burst : List Op :=
  [sampleOpen "ada" 1 sampleShell, .attach "ada" sampleShell (.repeated 1) 80 24 ⟨.ok (), .repeated 2, 2000⟩] ++
    List.replicate 128 (.pumpChunk sampleShell [46])

def cleanExit : Op := .pumpEof sampleShell (.ok ⟨true, 0⟩)

def beforeExit : Manager Terminal.Text := (machine Server.sample).run empty burst

def afterExit : Manager Terminal.Text := (beforeExit.step Server.sample cleanExit).1

theorem beforeExit_find : (beforeExit.find sampleShell).isSome = true := by decide +kernel

theorem afterExit_find : (afterExit.find sampleShell).isSome = true := by decide +kernel

/-- and exits: the exit finds no room, and the forwarder reports a slow consumer. -/
theorem exit_lost :
    ¬ExitNotified Server.sample (burst ++ [cleanExit]) ∧
      tooSlow ∈ forward (((afterExit.find sampleShell).get afterExit_find).runtime.channels 1).sent := by
  refine ⟨?_, by decide +kernel⟩
  intro h
  have hlast := (h burst sampleShell (.ok ⟨true, 0⟩) [] rfl (by decide +kernel) ((beforeExit.find sampleShell).get
    beforeExit_find) (Option.some_get _).symm 1 (by decide +kernel) (by decide +kernel) [] [] rfl
    ((afterExit.find sampleShell).get afterExit_find) (Option.some_get _).symm (by decide +kernel)).1
  revert hlast
  decide +kernel

/-- With a receiver that keeps up, the same exit is announced. -/
theorem exit_notification_draining :
    let ops := [sampleOpen "ada" 1 sampleShell, .attach "ada" sampleShell (.repeated 1) 80 24 ⟨.ok (), .repeated 2, 2000⟩,
      .pumpChunk sampleShell [46], .recv sampleShell 1, cleanExit, .recv sampleShell 1]
    (machine Server.sample).Admissible (FreshId Server.sample) empty ops ∧
      (ExitNotified Server.sample ops ↔ RoomAtExit Server.sample ops) ∧
      forward (reads sampleShell 1 ((machine Server.sample).trace empty ops)) =
        [.terminalOutput [46], .shellExited 0 false] :=
  ⟨by decide, exit_notification Server.sample _ (by decide), by decide⟩

end Holdfast.Daemon

/-
  Holdfast.Desktop.Attachments — one shell in the desktop client: its attachments, the
  server's supervisor, the queue of core events and the tab
  (`crates/client-core/src/server.rs`, `crates/client-core/src/shell.rs`,
  `desktop/src/main.ts`).

  Every attachment has a channel and a pump of its own, and old ones live on: a detach
  takes the writer out of the supervisor's map and leaves the reader to the stream. The
  daemon's forwarder sees a deliberate detach as a channel that closed without an exit
  and says ERR_TOO_SLOW on it, which the old reader reports as `Detached` of the shell.
  The events name the shell and not the attachment, so which attachment the handler takes
  an event for is the one that is there when it comes.

  The attachments are numbered; an event's number is not on the event.

  Proved:
  - `prompt_run`: when no end is reported late, every queued end is the newest's.
  - `stale_attachments_silent`: in the runs in which an attachment's end is always
    reported and handled before the next attachment is made, every `Detached` or `Exited`
    that the tab acts on is about the newest attachment.
  - `stale_detach_reattaches`: a run in which an old attachment's end takes down the tab.
-/

import Holdfast.Client.Readers
import Holdfast.Desktop.Tab

namespace Holdfast.Desktop

open Holdfast.Base Holdfast.Daemon Holdfast.Client

/-! ## State -/

structure App where
  /-- Attachment `n` of this shell, from 1 to `newest`. -/
  links : Nat → Link
  newest : Nat
  /-- The attachment whose writer the supervisor's live map holds. -/
  live : Option Nat
  connected : Bool
  /-- The store has an entry for the shell. -/
  stored : Bool
  commands : List Cmd
  events : List Event
  /-- The answer to the tab's attach. -/
  reply : Option Bool
  /-- The answer to the tab's terminate. -/
  terminated : Option Bool
  tab : Tab

/-- How `attach_with_recovery` or a terminate ended. -/
inductive Outcome where
  | ok (exitCode : Int32)
  | kept
  | forgotten
  /-- Recovery failed; `gone` when the server no longer listed the shell. -/
  | orphaned (gone : Bool)
  deriving DecidableEq, Repr

inductive Op where
  | link (n : Nat) (op : LinkOp)
  | connect
  | disconnect
  /-- The supervisor takes the next command. -/
  | command (outcome : Outcome)
  /-- The frontend handles the next event, or an answer. -/
  | event
  | reply
  | terminated
  | user (a : Action)
  deriving DecidableEq, Repr

/-- The attachment an event ends. -/
def Event.ends : Event → Option Nat
  | .shell .detached _ n | .shell .exited _ n => some n
  | _ => none

namespace App

def start : App := ⟨fun _ => .start, 0, none, false, true, [], [], none, none, .new⟩

/-! ## The core -/

def emit (d : App) (state : ShellStateEvent) (exitCode : Option Int32) (n : Nat) : App :=
  { d with events := d.events ++ [.shell state exitCode n] }

/-- The `emit` of attachment `n`'s reader. -/
def eventOf (n : Nat) : Report → Option Event
  | .exited exitCode => some (.shell .exited (some exitCode) n)
  | .detached => some (.shell .detached none n)
  | _ => none

def isExited : Report → Bool
  | .exited _ => true
  | _ => false

variable (encodedLen : Msg → Nat)

def stepLink (d : App) (n : Nat) (op : LinkOp) : App :=
  if 1 ≤ n ∧ n ≤ d.newest then
    let l := (d.links n).step encodedLen .pump op
    let reports := l.reader.reports.drop (d.links n).reader.reports.length
    { d with
      links := Function.update d.links n l
      events := d.events ++ reports.filterMap (eventOf n)
      stored := d.stored && !reports.any isExited }
  else d

def attach (d : App) : Outcome → App
  | .ok _ =>
    let n := d.newest + 1
    { d with newest := n, links := Function.update d.links n .start, live := some n, reply := some true }.emit
      .attached none n
  | .kept => { d with reply := some false }
  | .forgotten => { d with stored := false, reply := some false }.emit .exited none d.newest
  | .orphaned gone => { d with stored := d.stored && !gone, reply := some false }.emit .orphaned none d.newest

/-- `handle_cmd`; without a connection, the supervisor waits for a login and refuses. -/
def handleCmd (d : App) (outcome : Outcome) : Cmd → App
  | .attach => if d.connected && d.stored then d.attach outcome else { d with reply := some false }
  | .detach => if d.connected then { d with live := none }.emit .detached none d.newest else d
  | .terminate =>
    match d.connected, outcome with
    | true, .ok exitCode =>
      { d with live := none, stored := false, terminated := some true }.emit .exited (some exitCode) d.newest
    | true, _ => { d with live := none, terminated := some false }
    | false, _ => { d with terminated := some false }

/-- What the frontend asks for. -/
def ask (d : App) (r : Tab × Asks) : App :=
  { d with tab := r.1, commands := d.commands ++ r.2.commands, stored := d.stored && !r.2.forget }

def step (d : App) : Op → App
  | .link n op => d.stepLink encodedLen n op
  | .connect => { d with connected := true, events := d.events ++ [.status true] }
  | .disconnect => { d with connected := false, live := none, events := d.events ++ [.status false] }
  | .command outcome =>
    match d.commands with
    | cmd :: commands => { d with commands := commands }.handleCmd outcome cmd
    | [] => d
  | .event =>
    match d.events with
    | e :: events => { d with events := events }.ask (d.tab.handle e)
    | [] => d
  | .reply =>
    match d.reply with
    | some ok => { d with reply := none, tab := d.tab.attached ok }
    | none => d
  | .terminated =>
    match d.terminated with
    | some ok => { d with terminated := none }.ask (d.tab.terminated ok)
    | none => d
  | .user a => d.ask (d.tab.act a)

def machine : Machine App Op Unit := ⟨fun d op => (d.step encodedLen op, ())⟩

/-! ## Staleness -/

/-- If the tab acts on the end of an attachment that is the next event, then it is the
    newest attachment. -/
def Concerns (d : App) : Prop :=
  ∀ n, d.events.head?.bind Event.ends = some n →
    (d.step encodedLen .event).tab ≠ d.tab ∨ (d.step encodedLen .event).commands ≠ d.commands → n = d.newest

/-- No end comes late: the reader of an older attachment takes no frame that ends it, and
    an attachment is made only when no end is queued. -/
def prompt (d : App) : Op → Bool
  | .link n .read =>
    n == d.newest || !((d.links n).reader.running && (d.links n).channel.wire.head?.any endsPump)
  | .command (.ok _) =>
    d.commands.head? != some .attach || !d.connected || !d.stored || d.events.all (Event.ends · == none)
  | _ => true

structure Prompt (d : App) : Prop where
  newest : ∀ e ∈ d.events, ∀ n, e.ends = some n → n = d.newest

variable {encodedLen}

theorem prompt_start : Prompt start := ⟨by intro e he; cases he⟩

/-- A step that keeps the newest attachment and queues only its ends. -/
theorem Prompt.more {d d' : App} (h : Prompt d) (es : List Event) (hnewest : d'.newest = d.newest)
    (hevents : d'.events = d.events ++ es) (hes : ∀ e ∈ es, ∀ n, e.ends = some n → n = d.newest) : Prompt d' := by
  refine ⟨?_⟩
  intro e he n hn
  rw [hevents] at he
  rw [hnewest]
  rcases List.mem_append.mp he with he | he
  · exact h.newest e he n hn
  · exact hes e he n hn

/-- The reports a step of a pump adds, and when one of them is an end. -/
theorem step_reports (l : Link) (op : LinkOp) :
    ∃ xs, (l.step encodedLen .pump op).reader.reports = l.reader.reports ++ xs ∧
      ((∃ x ∈ xs, x.isEnd = true) →
        op = .read ∧ l.reader.running = true ∧ l.channel.wire.head?.any endsPump = true) := by
  cases op with
  | server op => exact ⟨[], by simp [Link.step], by simp⟩
  | dropSink => exact ⟨[], by simp [Link.step], by simp⟩
  | endWriter => exact ⟨[], by simp [Link.step], by simp⟩
  | requestHistory =>
    refine ⟨[], ?_, by simp⟩
    simp only [Link.step]
    split <;> simp
  | read =>
    show ∃ xs, (l.read .pump).reader.reports = _ ∧ _
    unfold Link.read
    split
    · rename_i f channel hrun htake
      obtain ⟨xs, hxs, hend⟩ := l.reader.pump_reports f
      refine ⟨xs, hxs, ?_⟩
      intro hex
      obtain ⟨x, hx, hxe⟩ := hex
      refine ⟨rfl, hrun, ?_⟩
      rw [Channel.take_head (by rw [htake]), Option.any_some]
      cases hf : endsPump f with
      | true => rfl
      | false => rw [hend hf x hx] at hxe; cases hxe
    · exact ⟨[], by simp, by simp⟩

theorem eventOf_ends {n m : Nat} {x : Report} {e : Event} (h : eventOf n x = some e) (he : e.ends = some m) :
    m = n ∧ x.isEnd = true := by
  cases x <;> cases h <;> cases he <;> exact ⟨rfl, rfl⟩

theorem prompt_link {d : App} (h : Prompt d) {n : Nat} {op : LinkOp} (hp : prompt d (.link n op) = true) :
    Prompt (d.stepLink encodedLen n op) := by
  unfold stepLink
  split
  · obtain ⟨xs, hxs, hend⟩ := @step_reports encodedLen (d.links n) op
    refine h.more (xs.filterMap (eventOf n)) rfl ?_ ?_
    · simp only [hxs, List.drop_left]
    · intro e he m hm
      obtain ⟨x, hx, hxe⟩ := List.mem_filterMap.mp he
      obtain ⟨rfl, hxend⟩ := eventOf_ends hxe hm
      obtain ⟨rfl, hrun, hhead⟩ := hend ⟨x, hx, hxend⟩
      simpa [prompt, hrun, hhead] using hp
  · exact h

theorem prompt_attach {d : App} (h : Prompt d) {outcome : Outcome}
    (hp : (∃ exitCode, outcome = .ok exitCode) → ∀ e ∈ d.events, e.ends = none) : Prompt (d.attach outcome) := by
  cases outcome with
  | ok exitCode =>
    refine ⟨?_⟩
    intro e he n hn
    rcases List.mem_append.mp he with he | he
    · rw [hp ⟨exitCode, rfl⟩ e he] at hn; cases hn
    · rw [List.mem_singleton.mp he] at hn; cases hn
  | kept => exact ⟨h.newest⟩
  | forgotten => exact h.more [.shell .exited none d.newest] rfl rfl (by simp [Event.ends])
  | orphaned gone => exact h.more [.shell .orphaned none d.newest] rfl rfl (by simp [Event.ends])

theorem prompt_handleCmd {d : App} (h : Prompt d) {outcome : Outcome} {cmd : Cmd}
    (hp : cmd = .attach → d.connected = true → d.stored = true → (∃ exitCode, outcome = .ok exitCode) →
      ∀ e ∈ d.events, e.ends = none) : Prompt (d.handleCmd outcome cmd) := by
  cases cmd with
  | attach =>
    simp only [handleCmd]
    split
    · rename_i hready
      simp only [Bool.and_eq_true] at hready
      exact prompt_attach h (hp rfl hready.1 hready.2)
    · exact ⟨h.newest⟩
  | detach =>
    simp only [handleCmd]
    split
    · exact h.more [.shell .detached none d.newest] rfl rfl (by simp [Event.ends])
    · exact h
  | terminate =>
    simp only [handleCmd]
    split
    · exact h.more [.shell .exited (some _) d.newest] rfl rfl (by simp [Event.ends])
    · exact ⟨h.newest⟩
    · exact ⟨h.newest⟩

theorem prompt_step {d : App} (h : Prompt d) {op : Op} (hp : prompt d op = true) :
    Prompt (d.step encodedLen op) := by
  cases op with
  | link n op => exact prompt_link h hp
  | connect => exact h.more [.status true] rfl rfl (by simp [Event.ends])
  | disconnect => exact h.more [.status false] rfl rfl (by simp [Event.ends])
  | command outcome =>
    simp only [step]
    cases hc : d.commands with
    | nil => exact h
    | cons cmd commands =>
      refine prompt_handleCmd (d := { d with commands := commands }) ⟨h.newest⟩ ?_
      intro hcmd hconn hstored hok e he
      obtain ⟨exitCode, rfl⟩ := hok
      simp only [prompt, hc, hcmd, List.head?_cons, bne_self_eq_false, Bool.false_or] at hp
      rw [show d.connected = true from hconn, show d.stored = true from hstored] at hp
      simpa using List.all_eq_true.mp hp e he
  | event =>
    simp only [step]
    cases he : d.events with
    | nil => exact h
    | cons e events =>
      refine ⟨?_⟩
      intro e' he' n hn
      exact h.newest e' (by rw [he]; exact List.mem_cons_of_mem _ he') n hn
  | reply =>
    simp only [step]
    split
    · exact ⟨h.newest⟩
    · exact h
  | terminated =>
    simp only [step]
    split
    · exact ⟨h.newest⟩
    · exact h
  | user a => exact ⟨h.newest⟩

theorem prompt_run {ops : List Op} (hp : (machine encodedLen).Admissible (fun d op => prompt d op = true) start ops) :
    Prompt ((machine encodedLen).run start ops) :=
  (machine encodedLen).run_induction (P := Prompt) (fun _ _ h ho => prompt_step h ho) prompt_start hp

/-- Every end the tab acts on is the newest attachment's. -/
theorem stale_attachments_silent (encodedLen : Msg → Nat) (ops : List Op)
    (hp : (machine encodedLen).Admissible (fun d op => prompt d op = true) start ops) :
    ∀ pre post, ops = pre ++ post → Concerns encodedLen ((machine encodedLen).run start pre) := by
  intro pre post hops n hn hacts
  subst hops
  obtain ⟨hpre, -⟩ := (machine encodedLen).admissible_append.mp hp
  obtain ⟨e, he, hends⟩ := Option.bind_eq_some_iff.mp hn
  exact (prompt_run hpre).newest e (List.mem_of_mem_head? he) n hends

/-! ## A detach that comes late -/

/-- A shell is attached, detached by the user, and the daemon says ERR_TOO_SLOW for it; -/
def detached : List Op :=
  [.connect, .event, .command (.ok 0), .reply, .event, .user .toggle, .user .toggleSend, .command .kept,
    .user (.toggleDone true), .event, .link 1 (.server .release), .link 1 (.server .finish), .link 1 (.server .route),
    .link 1 (.server .write)]

/-- it is attached again. -/
def reattached : List Op := [.user .toggle, .command (.ok 0), .reply, .event]

/-- The first attachment's reader gets to that frame only now: the tab, live on the
    second attachment, drops it and attaches a third time. -/
theorem stale_detach_reattaches :
    let d := (machine Link.sampleLen).run start (detached ++ reattached ++ [.link 1 .read])
    ¬Concerns Link.sampleLen d ∧ d.newest = 2 ∧ d.tab.state = .live ∧ d.events = [.shell .detached none 1] ∧
      (d.step Link.sampleLen .event).tab.state = .reconnecting ∧ (d.step Link.sampleLen .event).commands = [.attach] := by
  refine ⟨?_, by decide, by decide, by decide, by decide, by decide⟩
  intro h
  have hnewest := h 1 (by decide) (.inl (by decide))
  revert hnewest
  decide

/-- Read and handled before the second attachment, the same frame is nothing. -/
theorem stale_attachments_silent_prompt :
    (machine Link.sampleLen).Admissible (fun d op => prompt d op = true) start
        (detached ++ [.link 1 .read, .event] ++ reattached) ∧
      (∀ pre post, detached ++ [.link 1 .read, .event] ++ reattached = pre ++ post →
        Concerns Link.sampleLen ((machine Link.sampleLen).run start pre)) ∧
      ((machine Link.sampleLen).run start (detached ++ [.link 1 .read, .event] ++ reattached)).tab.state = .live :=
  ⟨by decide, stale_attachments_silent Link.sampleLen _ (by decide), by decide⟩

end App

end Holdfast.Desktop

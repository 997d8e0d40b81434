/-
  Holdfast.Desktop.Tab — the frontend's side of one shell: its tab and what the tab asks
  of the core (`desktop/src/main.ts`, `desktop/src/ui-state.ts`).

  The frontend is single-threaded, so what runs between two `await`s is one step. An
  `attach` waits for the core's answer; a detach, a render recovery and a close first
  wait for the input queue to drain (`paused`), then hand a command to the core's queue
  (`sent`), and go on when that is taken. `detaching` is the flag the event handler reads
  and is not the same as one of these flows being under way.
-/

import Mathlib.Data.List.Basic

namespace Holdfast.Desktop

inductive TabState where
  | connecting
  | live
  | detached
  | reconnecting
  | orphaned
  | exited
  deriving DecidableEq, Repr

inductive ShellStateEvent where
  | attached
  | detached
  | orphaned
  | exited
  deriving DecidableEq, Repr

/-- `CoreEvent`, as far as it is about this shell and its server. `attachment` is not on
    the event: it is the attachment the event is about. -/
inductive Event where
  | status (connected : Bool)
  | shell (state : ShellStateEvent) (exitCode : Option Int32) (attachment : Nat)
  deriving DecidableEq, Repr

/-- `ServerCmd`, as far as it is about attachments. -/
inductive Cmd where
  | attach
  | detach
  | terminate
  deriving DecidableEq, Repr

/-! ## Pure policy -/

inductive DetachedAction where
  | markDetached
  | reattach
  | ignore
  deriving DecidableEq, Repr

def detachedEventAction (state : TabState) (userDetachInFlight : Bool) : DetachedAction :=
  if userDetachInFlight then .markDetached
  else if state = .live then .reattach
  else .ignore

def shouldAttachWhenConnected (state : TabState) : Bool := state == .connecting || state == .reconnecting

def dead (state : TabState) : Bool := state == .exited || state == .orphaned

structure CloseBehavior where
  detach : Bool
  forget : Bool
  deriving DecidableEq, Repr

def closeBehavior (state : TabState) : CloseBehavior := ⟨!dead state && state != .detached, dead state⟩

/-! ## The tab -/

inductive Phase where
  | idle
  | paused
  | sent
  deriving DecidableEq, Repr

structure Tab where
  state : TabState
  attaching : Bool
  detaching : Bool
  closing : Bool
  /-- The tab is no longer in the list. -/
  closed : Bool
  toggling : Phase
  recovering : Phase
  shutting : Phase
  /-- What the close under way decided to do. -/
  behavior : CloseBehavior
  terminating : Bool
  deriving DecidableEq, Repr

/-- What a step of the frontend asks for. -/
structure Asks where
  commands : List Cmd
  /-- `ipc.forgetShell`. -/
  forget : Bool
  deriving DecidableEq, Repr

def Asks.nothing : Asks := ⟨[], false⟩

def Asks.one (c : Cmd) : Asks := ⟨[c], false⟩

inductive Action where
  | toggle
  | toggleSend
  | toggleDone (ok : Bool)
  | recover
  | recoverSend
  | recoverDone
  | close
  | closeSend
  | closeDone (ok : Bool)
  | terminate
  deriving DecidableEq, Repr

namespace Tab

def new : Tab := ⟨.connecting, false, false, false, false, .idle, .idle, .idle, ⟨false, false⟩, false⟩

def setState (t : Tab) (state : TabState) : Tab := { t with state := state }

/-- `attach(tab)` up to its `await`. -/
def attach (t : Tab) : Tab × Asks :=
  if t.closing || t.attaching || dead t.state then (t, .nothing)
  else ({ t with attaching := true }, .one .attach)

/-- The rest of `attach(tab)`, with the core's answer. -/
def attached (t : Tab) (ok : Bool) : Tab :=
  if ok then
    if t.closing then { t with attaching := false } else { t.setState .live with attaching := false }
  else if dead t.state then { t with attaching := false }
  else { t.setState .reconnecting with attaching := false }

/-- The `serverStatus` and `shellState` handlers. -/
def handle (t : Tab) : Event → Tab × Asks
  | .status true => if !t.closed && shouldAttachWhenConnected t.state then t.attach else (t, .nothing)
  | .status false => if !t.closed && t.state == .live then (t.setState .reconnecting, .nothing) else (t, .nothing)
  | .shell state _ _ =>
    if t.closed || t.closing then (t, .nothing)
    else match state with
      | .attached => (t, .nothing)
      | .detached =>
        if detachedEventAction t.state t.detaching = .markDetached then (t.setState .detached, .nothing)
        else if detachedEventAction t.state false = .reattach then (t.setState .reconnecting).attach
        else (t, .nothing)
      | .orphaned => (t.setState .orphaned, .nothing)
      | .exited => (t.setState .exited, .nothing)

/-- The answer to `ipc.terminateShell`: a shell that could not be terminated is
    forgotten. -/
def terminated (t : Tab) (ok : Bool) : Tab × Asks := ({ t.setState .exited with terminating := false }, ⟨[], !ok⟩)

def act (t : Tab) : Action → Tab × Asks
  | .toggle =>
    if t.closed || t.attaching || t.detaching then (t, .nothing)
    else if t.state = .detached then t.attach
    else if t.state = .live then ({ t with detaching := true, toggling := .paused }, .nothing)
    else (t, .nothing)
  | .toggleSend => if t.toggling = .paused then ({ t with toggling := .sent }, .one .detach) else (t, .nothing)
  | .toggleDone ok =>
    if t.toggling = .sent then
      let t := { t with toggling := .idle, detaching := false }
      (if ok then t.setState .detached else t, .nothing)
    else (t, .nothing)
  | .recover =>
    if t.closed || t.closing || t.attaching || t.detaching || dead t.state then (t, .nothing)
    else ({ t with detaching := true, recovering := .paused }, .nothing)
  | .recoverSend =>
    if t.recovering = .paused then ({ t.setState .reconnecting with recovering := .sent }, .one .detach) else (t, .nothing)
  | .recoverDone =>
    if t.recovering = .sent then { t with recovering := .idle, detaching := false }.attach else (t, .nothing)
  | .close =>
    if t.closed || t.closing then (t, .nothing)
    else ({ t with closing := true, detaching := true, shutting := .paused, behavior := closeBehavior t.state }, .nothing)
  | .closeSend =>
    if t.shutting = .paused then ({ t with shutting := .sent }, ⟨if t.behavior.detach then [.detach] else [], false⟩)
    else (t, .nothing)
  | .closeDone ok =>
    if t.shutting = .sent then
      if ok then ({ t with shutting := .idle, closed := true }, ⟨[], t.behavior.forget⟩)
      else ({ t with shutting := .idle, closing := false, detaching := false }, .nothing)
    else (t, .nothing)
  | .terminate => if t.closed then (t, .nothing) else ({ t with terminating := true }, .one .terminate)

end Tab

end Holdfast.Desktop

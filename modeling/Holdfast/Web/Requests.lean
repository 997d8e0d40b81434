/-
  Holdfast.Web.Requests — what the browser waits for (`request`, `onFrame`, `onDisconnect`,
  `attachShell`, `recoverExpired`, `recoverRenderOverload` and `fetchOlderHistory` of
  `web/src/client/app.ts`, over the channels of `WtTransport`).

  A request is a promise with a resolver in `pending`, by request id. A reply settles the
  promise; what waited for it goes on later, in any order here (`run`). A lost connection
  empties `pending` and settles nothing; the ids of the next connection start again. A
  render that cannot keep up closes its channel, whoever still waits on it.

  A frame may come on any channel and at any time: what was read before a close is still
  delivered after it. Screens, input and the order of the requests of `connect` are no part
  of this, nor is when a render overflows.

  Proved:
  - `keeps_step`: a step keeps every promise answerable, if it takes no connection, channel
    or reading away from one.
  - `requests_answered`: in a run of such steps every open request can still be answered,
    and a history request that is under way ends.
  - `stranded_step`: a history request that has lost its resolver stays, and its tab
    fetches no more.
  - `fetch_stranded`: a connection lost and made again while the first page is asked for.
-/

import Holdfast.Base.Machine
import Holdfast.Base.Table
import Holdfast.Web.Attach

namespace Holdfast.Web.Requests

open Holdfast.Base Holdfast.Daemon

/-- What the page knows a shell by. -/
abbrev ShellId := List UInt8

/-- `WtTransport`, and which of the page's connections it is. -/
structure Transport where
  serial : Nat
  nextRequestIdValue : Nat
  nextChannelValue : Nat
  /-- Is what comes on it still read? -/
  channels : Table Nat Bool
  deriving DecidableEq

namespace Transport

/-- A new connection, with its control channel. -/
def connect (serial : Nat) : Transport := ⟨serial, 1, 1, (∅ : Table Nat Bool).insert 0 true⟩

def openChannel (t : Transport) : Transport :=
  { t with nextChannelValue := t.nextChannelValue + 1, channels := t.channels.insert t.nextChannelValue true }

def closeChannel (t : Transport) (channel : Nat) : Transport := { t with channels := t.channels.erase channel }

/-- The stream of a channel ends or fails. The channel stays. -/
def endReading (t : Transport) (channel : Nat) : Transport :=
  { t with channels := t.channels.adjust channel fun _ => false }

end Transport

structure Tab where
  name : String
  channel : Nat
  state : TabState
  oldestFetched : Nat
  oldestAvailable : Nat
  historyExhausted : Bool
  fetchingHistory : Bool
  deriving DecidableEq, Repr

def Tab.new (name : String) : Tab := ⟨name, 0, .connecting, 0, 1, false, false⟩

/-- What a reply or an event says, as far as this code looks at it. -/
inductive Message where
  | error (code : ErrorCode)
  | shellAttached (rotatedResumeToken : List UInt8) (oldestHistoryLineId newestHistoryLineId : Nat)
  | shellOpened (shellId : ShellId) (resumeToken : List UInt8)
  | historyChunk (lines : List String) (firstLineId : Nat) (truncatedByEviction : Bool)
  | shellExited
  | other
  deriving DecidableEq, Repr

/-- What goes on after a request. -/
inductive Caller where
  /-- `hello`, `tryGrant` and the login. -/
  | control
  | newShell (key : List UInt8)
  | attachShell (shellId : ShellId) (name : String)
  | recoverExpired (shellId : ShellId) (name : String)
  | fetchOlderHistory (shellId : ShellId) (initial : Bool)
  | terminate (shellId : ShellId)
  deriving DecidableEq, Repr

inductive Outcome where
  | unsettled (requestId serial channel : Nat)
  | resolved (message : Message)
  | rejected
  deriving DecidableEq, Repr

/-- A promise that its caller has not gone on from. -/
structure Promise where
  caller : Caller
  outcome : Outcome
  deriving DecidableEq, Repr

def Promise.isUnsettled (pr : Promise) : Bool :=
  match pr.outcome with
  | .unsettled _ _ _ => true
  | _ => false

/-- It waits for a reply on the channel. -/
def Promise.waitsOn (channel : Nat) (pr : Promise) : Bool :=
  match pr.outcome with
  | .unsettled _ _ c => c = channel
  | _ => false

structure App where
  transport : Option Transport
  /-- How many connections there have been. -/
  connections : Nat
  stored : List StoredShell
  tabs : Table ShellId Tab
  channelToTab : Table Nat ShellId
  /-- The resolvers: which promise the reply with a request id settles. -/
  pending : Table Nat Nat
  promises : Table Nat Promise
  nextPromise : Nat
  deriving DecidableEq

inductive Input where
  /-- `connect` has a transport. -/
  | connected
  | disconnected
  | control
  | newShell (key : List UInt8)
  /-- `connect` gets to a stored entry. -/
  | attachShell (shellId : ShellId) (name : String)
  /-- The user scrolls to the top. -/
  | fetchOlderHistory (shellId : ShellId)
  | terminate (shellId : ShellId)
  | detach (shellId : ShellId)
  | renderOverload (shellId : ShellId)
  | frame (channel requestId : Nat) (message : Message)
  /-- A caller goes on; `overflows`: does its render ask for a recovery? -/
  | run (promise : Nat) (overflows : Bool)
  | channelEnded (channel : Nat)
  deriving DecidableEq, Repr

namespace App

/-- The page is opened, with what the browser has stored. -/
def start (stored : List StoredShell) : App := ⟨none, 0, stored, ∅, ∅, ∅, ∅, 0⟩

def entry (s : App) (shellId : ShellId) : Option StoredShell := s.stored.find? fun e => e.id = shellId

def forget (s : App) (shellId : ShellId) : App := { s with stored := s.stored.filter fun e => e.id ≠ shellId }

def updateTab (s : App) (shellId : ShellId) (f : Tab → Tab) : App := { s with tabs := s.tabs.adjust shellId f }

def markExited (s : App) (shellId : ShellId) : App :=
  (s.updateTab shellId fun tab => { tab with state := .exited }).forget shellId

def await (s : App) (caller : Caller) (outcome : Outcome) : App :=
  { s with promises := s.promises.insert s.nextPromise ⟨caller, outcome⟩, nextPromise := s.nextPromise + 1 }

/-- The resolver is set before the frame is sent; the send throws on a channel that is closed. -/
def request (s : App) (channel : Nat) (caller : Caller) : App :=
  match s.transport with
  | none => s.await caller .rejected
  | some t =>
    let s := { s with
      transport := some { t with nextRequestIdValue := t.nextRequestIdValue + 1 }
      pending := s.pending.insert t.nextRequestIdValue s.nextPromise }
    match t.channels.lookup channel with
    | none => s.await caller .rejected
    | some _ => s.await caller (.unsettled t.nextRequestIdValue t.serial channel)

/-- The tabs, with one for the shell. -/
def tabFor (s : App) (shellId : ShellId) (name : String) : Table ShellId Tab :=
  match s.tabs.lookup shellId with
  | some _ => s.tabs
  | none => s.tabs.insert shellId (.new name)

/-- The number of a tab's channel, zero where it has none. -/
def channelOf (s : App) (shellId : ShellId) : Nat := ((s.tabs.lookup shellId).map (·.channel)).getD 0

/-- Up to its request. -/
def attachShell (s : App) (shellId : ShellId) (name : String) : App :=
  match s.transport with
  | none => s
  | some t =>
    { s with
      tabs := (s.tabFor shellId name).adjust shellId fun tab => { tab with channel := t.nextChannelValue }
      channelToTab :=
        (if s.channelOf shellId ≠ 0 then s.channelToTab.erase (s.channelOf shellId) else s.channelToTab).insert
          t.nextChannelValue shellId
      transport := some t.openChannel }.request t.nextChannelValue (.attachShell shellId name)

def reattachDropped (s : App) (shellId : ShellId) : App :=
  match s.entry shellId, s.tabs.lookup shellId with
  | some _, some tab => s.attachShell shellId tab.name
  | _, _ => s

/-- The tab is not live any more, and what comes on its channel not its own. -/
def suspend (s : App) (shellId : ShellId) (channel : Nat) : App :=
  { s with
    channelToTab := s.channelToTab.erase channel
    tabs := s.tabs.adjust shellId fun tab => { tab with state := .reconnecting } }

def recoverRenderOverload (s : App) (shellId : ShellId) : App :=
  match s.transport, s.tabs.lookup shellId with
  | some t, some tab =>
    if tab.state ≠ .live then s
    else { s.suspend shellId tab.channel with transport := some (t.closeChannel tab.channel) }.reattachDropped shellId
  | _, _ => s

/-- Does `fetchOlderHistory` get to its request? -/
def fetches (tab : Tab) (initial : Bool) : Bool :=
  !(tab.fetchingHistory || tab.historyExhausted || tab.state ≠ .live) && (initial || tab.oldestFetched ≠ 0)

/-- Up to its request. -/
def fetchOlderHistory (s : App) (shellId : ShellId) (initial : Bool) : App :=
  match s.tabs.lookup shellId with
  | none => s
  | some tab =>
    if fetches tab initial then
      (s.updateTab shellId fun tab => { tab with fetchingHistory := true }).request tab.channel
        (.fetchOlderHistory shellId initial)
    else s

def onDisconnect (s : App) : App :=
  { s with
    transport := none
    pending := ∅
    channelToTab := ∅
    tabs := s.tabs.mapValues fun _ tab => if tab.state = .exited then tab else { tab with state := .reconnecting } }

def detachActive (s : App) (shellId : ShellId) : App :=
  match s.transport, s.tabs.lookup shellId with
  | some t, some tab =>
    -- the send throws on a channel that is closed
    if tab.state ≠ .live ∨ t.channels.lookup tab.channel = none then s
    else
      { s with
        channelToTab := s.channelToTab.erase tab.channel
        tabs := s.tabs.adjust shellId fun tab => { tab with state := .detached } }
  | _, _ => s

/-- `terminateActive`, confirmed. -/
def terminateActive (s : App) (shellId : ShellId) : App :=
  match s.transport with
  | none => s
  | some _ => s.request 0 (.terminate shellId)

/-- The key a shell was opened with, if it is stored and not empty. -/
def keyOf (s : App) (shellId : ShellId) : Option (List UInt8) := ((s.entry shellId).bind (·.idem)).filter (· ≠ [])

/-- The tab is live, and its token the new one. -/
def attached (s : App) (shellId : ShellId) (token : List UInt8) (oldest newest : Nat) : App :=
  { s with stored := updateEntry shellId (fun e => { e with token := token }) s.stored }.updateTab shellId
    fun tab => { tab with oldestFetched := 0, oldestAvailable := oldest, historyExhausted := newest = 0, state := .live }

/-- The answer to an attach. -/
def attachReply (s : App) (shellId : ShellId) (name : String) (overflows : Bool) : Message → App
  | .error .errNotFound => (s.forget shellId).updateTab shellId fun tab => { tab with state := .exited }
  | .error .errTokenExpired =>
    match s.keyOf shellId with
    | none => s.updateTab shellId fun tab => { tab with state := .exited }
    | some _ => s.request 0 (.recoverExpired shellId name)
  | .shellAttached token oldest newest =>
    let s := s.attached shellId token oldest newest
    (if overflows then s.recoverRenderOverload shellId else s).fetchOlderHistory shellId true
  | _ => s

/-- The answer of `recoverExpired`'s `openShell`. -/
def openReply (s : App) (shellId : ShellId) (name : String) : Message → App
  | .shellOpened recoveredId token =>
    { s with stored := updateEntry shellId (fun e => { e with id := recoveredId, token := token }) s.stored }.attachShell
      recoveredId name
  | _ => s.updateTab shellId fun tab => { tab with state := .exited }

/-- The answer to a history request, without the render of the first page and the `finally`. -/
def historyReply (s : App) (shellId : ShellId) (initial overflows : Bool) : Message → App
  | .historyChunk [] _ _ => s.updateTab shellId fun tab => { tab with historyExhausted := true }
  | .historyChunk (_ :: _) firstLineId truncated =>
    let s := s.updateTab shellId fun tab => { tab with
      oldestFetched := firstLineId
      historyExhausted := tab.historyExhausted || truncated || firstLineId ≤ tab.oldestAvailable }
    if !initial && overflows then s.recoverRenderOverload shellId else s
  | _ => s

/-- The answer to `newShell`. -/
def newShellReply (s : App) (key : List UInt8) : Message → App
  | .shellOpened shellId token =>
    let name := "shell " ++ toString (s.tabs.keys.length + 1)
    { s with stored := s.stored ++ [StoredShell.mk shellId token name (some key)] }.attachShell shellId name
  | _ => s

/-- What a caller does with the reply. -/
def goOn (s : App) (overflows : Bool) : Caller → Message → App
  | .control, _ => s
  | .newShell key, m => s.newShellReply key m
  | .attachShell shellId name, m => s.attachReply shellId name overflows m
  | .recoverExpired shellId name, m => s.openReply shellId name m
  | .fetchOlderHistory shellId initial, m => s.historyReply shellId initial overflows m
  | .terminate shellId, _ => s.markExited shellId

/-- The `finally` of `fetchOlderHistory`; the other callers have none. -/
def finish (s : App) : Caller → App
  | .fetchOlderHistory shellId _ => s.updateTab shellId fun tab => { tab with fetchingHistory := false }
  | _ => s

def run (s : App) (p : Nat) (overflows : Bool) : App :=
  match s.promises.lookup p with
  | none => s
  | some pr =>
    let s' := { s with promises := s.promises.erase p }
    match pr.outcome with
    | .unsettled _ _ _ => s
    | .rejected => s'.finish pr.caller
    | .resolved m => (s'.goOn overflows pr.caller m).finish pr.caller

/-- A resolver: it leaves `pending`, and a promise that is settled stays as it is. -/
def resolve (s : App) (requestId p : Nat) (m : Message) : App :=
  { s with
    pending := s.pending.erase requestId
    promises := s.promises.adjust p fun pr => if pr.isUnsettled then { pr with outcome := .resolved m } else pr }

/-- A frame that no resolver takes. -/
def event (s : App) (channel : Nat) (m : Message) : App :=
  match s.channelToTab.lookup channel with
  | none => s
  | some shellId =>
    match m with
    | .shellExited => s.markExited shellId
    | .error .errTooSlow =>
      match s.tabs.lookup shellId with
      | some tab => if tab.state = .live then (s.suspend shellId tab.channel).reattachDropped shellId else s
      | none => s
    | _ => s

def onFrame (s : App) (channel requestId : Nat) (m : Message) : App :=
  if requestId = 0 then s.event channel m
  else
    match s.pending.lookup requestId with
    | some p => s.resolve requestId p m
    | none => s.event channel m

def step (s : App) : Input → App
  | .connected => { s with transport := some (.connect s.connections), connections := s.connections + 1 }
  | .disconnected => s.onDisconnect
  | .control => s.request 0 .control
  | .newShell key => s.request 0 (.newShell key)
  | .attachShell shellId name => s.attachShell shellId name
  | .fetchOlderHistory shellId => s.fetchOlderHistory shellId false
  | .terminate shellId => s.terminateActive shellId
  | .detach shellId => s.detachActive shellId
  | .renderOverload shellId => s.recoverRenderOverload shellId
  | .frame channel requestId m => s.onFrame channel requestId m
  | .run p overflows => s.run p overflows
  | .channelEnded channel => { s with transport := s.transport.map (·.endReading channel) }

end App

def machine : Machine App Input Unit := ⟨fun s i => (s.step i, ())⟩

/-! ## What an open request needs -/

namespace App

/-- The frame is out on this connection, over a channel that is read. -/
def Carries (s : App) (requestId serial channel : Nat) : Prop :=
  ∃ t, s.transport = some t ∧ t.serial = serial ∧ t.channels.lookup channel = some true ∧
    0 < requestId ∧ requestId < t.nextRequestIdValue

/-- The promise has its resolver, and its frame is out. -/
def Answerable (s : App) (p requestId serial channel : Nat) : Prop :=
  s.pending.lookup requestId = some p ∧ s.Carries requestId serial channel

/-- The flag of the shell's tab. -/
def fetching (s : App) (shellId : ShellId) : Bool := (s.tabs.lookup shellId).any (·.fetchingHistory)

/-- Does a request wait on the channel? -/
def waited (s : App) (channel : Nat) : Bool := s.promises.values.any (·.waitsOn channel)

/-- Would a frame on the channel be sent, and its reply not be read? -/
def unread (s : App) (channel : Nat) : Bool := s.transport.any fun t => t.channels.lookup channel = some false

def onTab (s : App) (shellId : ShellId) (f : Tab → Bool) : Bool := (s.tabs.lookup shellId).any f

/-- Is a render of the shell's tab at the cost of a request? -/
def spoils (s : App) (shellId : ShellId) : Bool := s.onTab shellId fun tab => tab.state = .live && s.waited tab.channel

/-- Does a caller take a request's channel away, or ask where nobody reads? -/
def strandsNext (s : App) (overflows : Bool) : Caller → Message → Bool
  | .attachShell shellId _, .shellAttached _ _ newest =>
    s.onTab shellId fun tab =>
      if overflows then s.waited tab.channel else newest ≠ 0 && !tab.fetchingHistory && s.unread tab.channel
  | .attachShell shellId _, .error .errTokenExpired => (s.keyOf shellId).isSome && s.unread 0
  | .fetchOlderHistory shellId false, .historyChunk (_ :: _) _ _ => overflows && s.spoils shellId
  | _, _ => false

/-- Does the step take the connection, the channel or its reading away from an open request,
    or make one where nobody reads? -/
def strands (s : App) : Input → Bool
  | .connected | .disconnected => s.promises.values.any (·.isUnsettled)
  | .channelEnded channel => s.waited channel
  | .control | .newShell _ | .terminate _ => s.unread 0
  | .fetchOlderHistory shellId => s.onTab shellId fun tab => fetches tab false && s.unread tab.channel
  | .renderOverload shellId => s.spoils shellId
  | .run p overflows =>
    match s.promises.lookup p with
    | some ⟨caller, .resolved m⟩ => s.strandsNext overflows caller m
    | _ => false
  | _ => false

/-- Between steps nothing is exempt; while a history request finishes, its tab is. -/
structure Keeps (exempt : Option ShellId) (s : App) : Prop where
  fresh : ∀ p pr, s.promises.lookup p = some pr → p < s.nextPromise
  ids : ∀ t, s.transport = some t → 0 < t.nextRequestIdValue
  answerable : ∀ p caller r n c, s.promises.lookup p = some ⟨caller, .unsettled r n c⟩ → s.Answerable p r n c
  asked : ∀ shellId, s.fetching shellId = true → exempt ≠ some shellId →
    ∃ p initial outcome, s.promises.lookup p = some ⟨.fetchOlderHistory shellId initial, outcome⟩

/-- Neither the promises nor the flags change. -/
structure Calm (s s' : App) : Prop where
  promises : s'.promises = s.promises
  pending : s'.pending = s.pending
  nextPromise : s'.nextPromise = s.nextPromise
  fetching : ∀ shellId, s'.fetching shellId = s.fetching shellId

theorem start_keeps (stored : List StoredShell) : (start stored).Keeps none where
  fresh _ _ h := by cases h
  ids _ h := by cases h
  answerable _ _ _ _ _ h := by cases h
  asked _ h := by cases h

/-! ## The parts of a step -/

theorem fetching_iff {s : App} {shellId : ShellId} :
    s.fetching shellId = true ↔ ∃ tab, s.tabs.lookup shellId = some tab ∧ tab.fetchingHistory = true :=
  Option.any_eq_true _ _

theorem onTab_of_some {s : App} {shellId : ShellId} {tab : Tab} (h : s.tabs.lookup shellId = some tab) (f : Tab → Bool) :
    s.onTab shellId f = f tab := by
  simp [onTab, h]

theorem mem_promises {s : App} {p : Nat} {pr : Promise} (h : s.promises.lookup p = some pr) : pr ∈ s.promises.values :=
  List.mem_map_of_mem (Table.mem_entries_iff.mpr h)

theorem not_waited {s : App} {c p : Nat} {caller : Caller} {r n c' : Nat} (h : s.waited c = false)
    (hp : s.promises.lookup p = some ⟨caller, .unsettled r n c'⟩) : c' ≠ c := by
  rintro rfl
  have := List.any_eq_false.mp h _ (mem_promises hp)
  simp [Promise.waitsOn] at this

theorem not_unsettled {s : App} (h : (s.promises.values.any (·.isUnsettled)) = false) {p : Nat} {caller : Caller} {r n c : Nat} :
    s.promises.lookup p ≠ some ⟨caller, .unsettled r n c⟩ := by
  intro hp
  have := List.any_eq_false.mp h _ (mem_promises hp)
  simp [Promise.isUnsettled] at this

/-- A change of a tab that leaves the flag. -/
theorem fetching_adjust {s s' : App} {shellId : ShellId} {f : Tab → Tab} (h : s'.tabs = s.tabs.adjust shellId f)
    (hf : ∀ tab, (f tab).fetchingHistory = tab.fetchingHistory) (a : ShellId) : s'.fetching a = s.fetching a := by
  unfold fetching
  rw [h, Table.lookup_adjust]
  split
  · cases s.tabs.lookup a <;> simp [hf]
  · cases s.tabs.lookup a <;> rfl

theorem calm_updateTab (s : App) (shellId : ShellId) {f : Tab → Tab} (hf : ∀ tab, (f tab).fetchingHistory = tab.fetchingHistory) :
    s.Calm (s.updateTab shellId f) := ⟨rfl, rfl, rfl, fetching_adjust rfl hf⟩

theorem calm_markExited (s : App) (shellId : ShellId) : s.Calm (s.markExited shellId) :=
  ⟨rfl, rfl, rfl, fetching_adjust (f := fun tab => { tab with state := .exited }) rfl fun _ => rfl⟩

theorem calm_suspend (s : App) (shellId : ShellId) (channel : Nat) : s.Calm (s.suspend shellId channel) :=
  ⟨rfl, rfl, rfl, fetching_adjust (f := fun tab => { tab with state := .reconnecting }) rfl fun _ => rfl⟩

theorem fetching_tabFor (s : App) (shellId a : ShellId) (name : String) :
    { s with tabs := s.tabFor shellId name }.fetching a = s.fetching a := by
  simp only [fetching, tabFor]
  split
  · rfl
  · next h =>
    by_cases ha : a = shellId
    · subst ha
      simp [h, Tab.new]
    · rw [AList.lookup_insert_ne ha]

/-- A calm change keeps what it needs to, if the frames stay out. -/
theorem Keeps.calm {exempt : Option ShellId} {s s' : App} (h : s.Keeps exempt) (hc : s.Calm s')
    (hids : ∀ t, s'.transport = some t → 0 < t.nextRequestIdValue)
    (ht : ∀ p caller r n c, s.promises.lookup p = some ⟨caller, .unsettled r n c⟩ → s.Carries r n c → s'.Carries r n c) :
    s'.Keeps exempt where
  fresh p pr hp := by
    rw [hc.promises] at hp
    rw [hc.nextPromise]
    exact h.fresh p pr hp
  ids := hids
  answerable p caller r n c hp := by
    rw [hc.promises] at hp
    have ha := h.answerable p caller r n c hp
    exact ⟨by rw [hc.pending]; exact ha.1, ht p caller r n c hp ha.2⟩
  asked shellId hs hne := by
    rw [hc.fetching] at hs
    rw [hc.promises]
    exact h.asked shellId hs hne

/-- A calm change on the same transport. -/
theorem Keeps.calm_same {exempt : Option ShellId} {s s' : App} (h : s.Keeps exempt) (hc : s.Calm s')
    (ht : s'.transport = s.transport) : s'.Keeps exempt :=
  h.calm hc (by rw [ht]; exact h.ids) (fun _ _ _ _ _ _ ha => by unfold Carries; rw [ht]; exact ha)

theorem Keeps.updateTab {exempt : Option ShellId} {s : App} (h : s.Keeps exempt) (shellId : ShellId) {f : Tab → Tab}
    (hf : ∀ tab, (f tab).fetchingHistory = tab.fetchingHistory) : (s.updateTab shellId f).Keeps exempt :=
  h.calm_same (calm_updateTab s shellId hf) rfl

/-- A change of what is stored. -/
theorem Keeps.store {exempt : Option ShellId} {s : App} (h : s.Keeps exempt) (stored : List StoredShell) :
    Keeps exempt { s with stored := stored } := h.calm_same ⟨rfl, rfl, rfl, fun _ => rfl⟩ rfl

/-- A new promise. -/
theorem Keeps.await {exempt : Option ShellId} {s : App} (h : s.Keeps exempt) (caller : Caller) (outcome : Outcome)
    (ho : ∀ r n c, outcome = .unsettled r n c → s.Answerable s.nextPromise r n c) : (s.await caller outcome).Keeps exempt where
  fresh p pr hp := by
    obtain ⟨rfl, -⟩ | ⟨-, hp⟩ := Table.lookup_insert_some.mp hp
    · exact Nat.lt_succ_self _
    · exact Nat.lt_succ_of_lt (h.fresh p pr hp)
  ids := h.ids
  answerable p caller' r n c hp := by
    obtain ⟨rfl, hpr⟩ | ⟨-, hp⟩ := Table.lookup_insert_some.mp hp
    · simp only [Promise.mk.injEq] at hpr
      exact ho r n c hpr.2.symm
    · exact h.answerable p caller' r n c hp
  asked shellId hs hne := by
    obtain ⟨p, initial, o, hp⟩ := h.asked shellId hs hne
    refine ⟨p, initial, o, Table.lookup_insert_some.mpr (.inr ⟨?_, hp⟩)⟩
    exact Nat.ne_of_lt (h.fresh p _ hp)

/-- A resolver under a fresh id. -/
theorem Keeps.register {exempt : Option ShellId} {s : App} (h : s.Keeps exempt) {t : Transport}
    (ht : s.transport = some t) (p : Nat) :
    Keeps exempt { s with
      transport := some { t with nextRequestIdValue := t.nextRequestIdValue + 1 }
      pending := s.pending.insert t.nextRequestIdValue p } where
  fresh := h.fresh
  ids t' ht' := by
    cases ht'
    exact Nat.succ_pos _
  answerable q caller r n c hq := by
    obtain ⟨hpend, t', ht', hn, hc, hr, hlt⟩ := h.answerable q caller r n c hq
    rw [ht] at ht'
    cases ht'
    exact ⟨(AList.lookup_insert_ne (Nat.ne_of_lt hlt)).trans hpend, _, rfl, hn, hc, hr, Nat.lt_succ_of_lt hlt⟩
  asked := h.asked

theorem Keeps.request {exempt : Option ShellId} {s : App} (h : s.Keeps exempt) {c : Nat}
    (hc : s.unread c = false) (caller : Caller) :
    (s.request c caller).Keeps exempt := by
  unfold App.request
  split
  · exact h.await caller .rejected nofun
  · next t ht =>
    have hr := h.register ht s.nextPromise
    have hread : t.channels.lookup c ≠ some false := by
      simpa [unread, ht] using hc
    dsimp only
    split
    · exact hr.await caller .rejected nofun
    · next b hb =>
      refine hr.await caller _ ?_
      rintro r n c' ⟨⟩
      have hb' : b = true := by
        cases b
        · exact absurd hb hread
        · rfl
      subst hb'
      exact ⟨AList.lookup_insert _, _, rfl, rfl, hb, h.ids t ht, Nat.lt_succ_self _⟩

/-- The promise of a request, whatever becomes of it. -/
theorem lookup_request (s : App) (c : Nat) (caller : Caller) :
    ∃ outcome, (s.request c caller).promises.lookup s.nextPromise = some ⟨caller, outcome⟩ := by
  unfold request
  split
  · exact ⟨_, AList.lookup_insert _⟩
  · dsimp only
    split
    · exact ⟨_, AList.lookup_insert _⟩
    · exact ⟨_, AList.lookup_insert _⟩

/-! ## The functions -/

theorem calm_opened (s : App) (shellId : ShellId) (name : String) (channel : Nat) (chans : Table Nat ShellId)
    (t : Option Transport) :
    s.Calm { s with
      tabs := (s.tabFor shellId name).adjust shellId fun tab => { tab with channel := channel }
      channelToTab := chans
      transport := t } :=
  ⟨rfl, rfl, rfl, fun a =>
    (fetching_adjust (s := { s with tabs := s.tabFor shellId name }) (f := fun tab => { tab with channel := channel })
      rfl (fun _ => rfl) a).trans (fetching_tabFor s shellId a name)⟩

theorem Keeps.attachShell {exempt : Option ShellId} {s : App} (h : s.Keeps exempt) (shellId : ShellId) (name : String) :
    (s.attachShell shellId name).Keeps exempt := by
  unfold App.attachShell
  split
  · exact h
  · next t ht =>
    refine Keeps.request (h.calm (calm_opened s shellId name _ _ _) ?_ ?_) ?_ _
    · rintro t' ⟨⟩
      exact h.ids t ht
    · rintro p caller r n c - ⟨t', ht', hn, hc, hr⟩
      rw [ht] at ht'
      cases ht'
      refine ⟨_, rfl, hn, ?_, hr⟩
      by_cases hnew : c = t.nextChannelValue
      · rw [hnew]
        exact AList.lookup_insert _
      · exact (AList.lookup_insert_ne hnew).trans hc
    · simp [unread, Transport.openChannel]

theorem Keeps.reattachDropped {exempt : Option ShellId} {s : App} (h : s.Keeps exempt) (shellId : ShellId) :
    (s.reattachDropped shellId).Keeps exempt := by
  unfold App.reattachDropped
  split
  · exact h.attachShell _ _
  · exact h

theorem Keeps.recoverRenderOverload {exempt : Option ShellId} {s : App} (h : s.Keeps exempt) {shellId : ShellId}
    (hs : s.spoils shellId = false) : (s.recoverRenderOverload shellId).Keeps exempt := by
  unfold App.recoverRenderOverload
  split
  · next t tab ht htab =>
    split
    · exact h
    · next hlive =>
      have hlive : tab.state = .live := by simpa using hlive
      have hfree : s.waited tab.channel = false := by
        simpa [spoils, onTab_of_some htab, hlive] using hs
      suffices hclosed :
          App.Keeps exempt { s.suspend shellId tab.channel with transport := some (t.closeChannel tab.channel) } from
        hclosed.reattachDropped shellId
      refine h.calm ?_ ?_ ?_
      · exact ⟨rfl, rfl, rfl, (calm_suspend s shellId tab.channel).fetching⟩
      · rintro t' ⟨⟩
        exact h.ids t ht
      · rintro p caller r n c hp ⟨t', ht', hn, hc, hr⟩
        rw [ht] at ht'
        cases ht'
        exact ⟨_, rfl, hn, (AList.lookup_erase_ne (not_waited hfree hp)).trans hc, hr⟩
  · exact h

/-- The flag goes up, and the promise that takes it down again is made. -/
theorem Keeps.fetchOlderHistory {s : App} (h : s.Keeps none) {shellId : ShellId} {initial : Bool}
    (hs : s.onTab shellId (fun tab => fetches tab initial && s.unread tab.channel) = false) :
    (s.fetchOlderHistory shellId initial).Keeps none := by
  unfold App.fetchOlderHistory
  split
  · exact h
  · next tab htab =>
    split
    · next hf =>
      have hread : s.unread tab.channel = false := by
        simpa [onTab_of_some htab, hf] using hs
      have hup : (s.updateTab shellId fun tab => { tab with fetchingHistory := true }).Keeps (some shellId) := by
        refine ⟨h.fresh, h.ids, h.answerable, fun a ha hne => h.asked a ?_ nofun⟩
        have hne : a ≠ shellId := fun e => hne (by rw [e])
        simpa only [fetching, App.updateTab, Table.lookup_adjust_ne _ _ hne] using ha
      have hreq := hup.request (c := tab.channel) hread (.fetchOlderHistory shellId initial)
      refine ⟨hreq.fresh, hreq.ids, hreq.answerable, fun a ha _ => ?_⟩
      by_cases he : a = shellId
      · subst he
        exact ⟨_, initial, lookup_request _ _ _⟩
      · exact hreq.asked a ha (by simpa using Ne.symm he)
    · exact h

/-! ## Going on -/

@[simp] theorem tabs_request (s : App) (c : Nat) (caller : Caller) : (s.request c caller).tabs = s.tabs := by
  unfold request
  split
  · rfl
  · dsimp only
    split <;> rfl

theorem not_live_attachShell {s : App} {shellId : ShellId}
    (h : s.onTab shellId (fun tab => tab.state = .live) = false) (name : String) :
    (s.attachShell shellId name).onTab shellId (fun tab => tab.state = .live) = false := by
  unfold attachShell
  split
  · exact h
  · simp only [onTab, tabs_request, Table.lookup_adjust_same, tabFor]
    cases htab : s.tabs.lookup shellId with
    | none => simp [Tab.new]
    | some tab => simpa [onTab, htab] using h

/-- A render that has asked for a recovery fetches nothing: its tab is not live, or there is
    no connection. -/
theorem recovered_idle {s : App} {shellId : ShellId} (h : ∀ tab, s.tabs.lookup shellId = some tab → tab.state = .live)
    (initial : Bool) :
    (s.recoverRenderOverload shellId).onTab shellId
      (fun tab => fetches tab initial && (s.recoverRenderOverload shellId).unread tab.channel) = false := by
  have quiet : ∀ {s' : App}, s'.onTab shellId (fun tab => tab.state = .live) = false → ∀ g : Tab → Bool,
      s'.onTab shellId (fun tab => fetches tab initial && g tab) = false := by
    intro s' hs' g
    cases htab : s'.tabs.lookup shellId with
    | none => simp [onTab, htab]
    | some tab =>
      have hstate : tab.state ≠ .live := by simpa [onTab, htab] using hs'
      simp [onTab, htab, fetches, hstate]
  cases ht : s.transport with
  | none =>
    have hs : s.recoverRenderOverload shellId = s := by simp [recoverRenderOverload, ht]
    rw [hs]
    simp [onTab, unread, ht]
  | some t =>
    cases htab : s.tabs.lookup shellId with
    | none => simp [recoverRenderOverload, ht, htab, onTab]
    | some tab =>
      apply quiet
      have hsus : { s.suspend shellId tab.channel with transport := some (t.closeChannel tab.channel) }.onTab shellId
          (fun tab => tab.state = TabState.live) = false := by
        simp [suspend, onTab, htab]
      simp only [recoverRenderOverload, ht, htab, h tab htab, reattachDropped]
      split
      · next hne => exact absurd rfl hne
      · split
        · exact not_live_attachShell hsus _
        · exact hsus

@[simp] theorem waited_attached (s : App) (shellId : ShellId) (token : List UInt8) (oldest newest c : Nat) :
    (s.attached shellId token oldest newest).waited c = s.waited c := rfl

@[simp] theorem unread_attached (s : App) (shellId : ShellId) (token : List UInt8) (oldest newest c : Nat) :
    (s.attached shellId token oldest newest).unread c = s.unread c := rfl

theorem Keeps.attachReply {s : App} (h : s.Keeps none) {shellId : ShellId} {name : String} {overflows : Bool} {m : Message}
    (hs : s.strandsNext overflows (.attachShell shellId name) m = false) :
    (s.attachReply shellId name overflows m).Keeps none := by
  unfold App.attachReply
  split
  · exact (h.store _).updateTab shellId fun _ => rfl
  · split
    · exact h.updateTab shellId fun _ => rfl
    · next key hkey => exact h.request (by simpa [strandsNext, hkey] using hs) _
  · next token oldest newest =>
    simp only [strandsNext] at hs
    have hlive : (s.attached shellId token oldest newest).Keeps none := (h.store _).updateTab shellId fun _ => rfl
    have hlookup : (s.attached shellId token oldest newest).tabs.lookup shellId = _ := Table.lookup_adjust_same _ _ _
    cases overflows with
    | false =>
      refine hlive.fetchOlderHistory ?_
      simp only [onTab, hlookup, fetches]
      cases htab : s.tabs.lookup shellId with
      | none => rfl
      | some tab =>
        rw [onTab_of_some htab] at hs
        by_cases hn : newest = 0
        · simp [hn]
        · simpa [hn] using hs
    | true =>
      refine (hlive.recoverRenderOverload ?_).fetchOlderHistory (recovered_idle ?_ true)
      · simp only [spoils, onTab, hlookup]
        cases htab : s.tabs.lookup shellId with
        | none => rfl
        | some tab =>
          rw [onTab_of_some htab] at hs
          simpa using hs
      · intro tab htab
        rw [hlookup] at htab
        obtain ⟨_, -, rfl⟩ := Option.map_eq_some_iff.mp htab
        rfl
  · exact h

theorem Keeps.openReply {s : App} (h : s.Keeps none) (shellId : ShellId) (name : String) (m : Message) :
    (s.openReply shellId name m).Keeps none := by
  unfold App.openReply
  split
  · exact (h.store _).attachShell _ _
  · exact h.updateTab shellId fun _ => rfl

theorem Keeps.newShellReply {s : App} (h : s.Keeps none) (key : List UInt8) (m : Message) :
    (s.newShellReply key m).Keeps none := by
  unfold App.newShellReply
  split
  · exact (h.store _).attachShell _ _
  · exact h

theorem Keeps.historyReply {exempt : Option ShellId} {s : App} (h : s.Keeps exempt) {shellId : ShellId}
    {initial overflows : Bool} {m : Message}
    (hs : s.strandsNext overflows (.fetchOlderHistory shellId initial) m = false) :
    (s.historyReply shellId initial overflows m).Keeps exempt := by
  unfold App.historyReply
  split
  · exact h.updateTab shellId fun _ => rfl
  · next line lines first truncated =>
    dsimp only
    have hup := h.updateTab shellId (f := fun tab => { tab with
      oldestFetched := first
      historyExhausted := tab.historyExhausted || truncated || first ≤ tab.oldestAvailable }) fun _ => rfl
    split
    · next ho =>
      refine hup.recoverRenderOverload ?_
      cases initial with
      | true => simp at ho
      | false =>
        have hspoils : s.spoils shellId = false := by
          simpa [strandsNext, show overflows = true by simpa using ho] using hs
        simp only [spoils, onTab, App.updateTab, Table.lookup_adjust_same]
        cases htab : s.tabs.lookup shellId with
        | none => rfl
        | some tab =>
          rw [spoils, onTab_of_some htab] at hspoils
          exact hspoils
    · exact hup
  · exact h

/-- A caller's promise is taken out before it goes on; only a history request leaves a tab
    without its promise. -/
theorem Keeps.erase {s : App} (h : s.Keeps none) {p : Nat} {caller : Caller} {outcome : Outcome}
    (hp : s.promises.lookup p = some ⟨caller, outcome⟩) {exempt : Option ShellId}
    (he : ∀ shellId initial, caller = .fetchOlderHistory shellId initial → exempt = some shellId) :
    Keeps exempt { s with promises := s.promises.erase p } where
  fresh q pr hq := h.fresh q pr (Table.within_erase _ _ _ _ hq)
  ids := h.ids
  answerable q caller' r n c hq := h.answerable q caller' r n c (Table.within_erase _ _ _ _ hq)
  asked shellId hs hne := by
    obtain ⟨q, initial, o, hq⟩ := h.asked shellId hs nofun
    refine ⟨q, initial, o, (AList.lookup_erase_ne ?_).trans hq⟩
    rintro rfl
    rw [hp] at hq
    simp only [Option.some.injEq, Promise.mk.injEq] at hq
    exact hne (he shellId initial hq.1)

theorem waited_erase {s : App} {c : Nat} (h : s.waited c = false) (p : Nat) :
    { s with promises := s.promises.erase p }.waited c = false := by
  refine List.any_eq_false.mpr fun pr hpr => List.any_eq_false.mp h pr ?_
  exact ((List.kerase_sublist p s.promises.entries).map _).subset hpr

theorem onTab_mono {s : App} {shellId : ShellId} {f g : Tab → Bool} (hfg : ∀ tab, f tab = false → g tab = false)
    (h : s.onTab shellId f = false) : s.onTab shellId g = false := by
  unfold onTab at *
  cases htab : s.tabs.lookup shellId with
  | none => rfl
  | some tab =>
    rw [htab] at h
    exact hfg tab h

theorem strandsNext_erase {s : App} {overflows : Bool} {caller : Caller} {m : Message} (p : Nat)
    (h : s.strandsNext overflows caller m = false) :
    { s with promises := s.promises.erase p }.strandsNext overflows caller m = false := by
  have spoils_erase : ∀ shellId, s.spoils shellId = false → { s with promises := s.promises.erase p }.spoils shellId = false := by
    intro shellId hs
    refine onTab_mono (s := s) (fun tab ht => ?_) hs
    cases hlive : decide (tab.state = .live)
    · rfl
    · exact waited_erase (by simpa [hlive] using ht) p
  unfold strandsNext at *
  split at h
  · refine onTab_mono (s := s) (fun tab ht => ?_) h
    cases overflows
    · exact ht
    · exact waited_erase ht p
  · exact h
  · next shellId _ _ _ _ =>
    cases overflows
    · rfl
    · exact spoils_erase shellId h
  · rfl

/-- The `finally` takes the flag down. -/
theorem Keeps.finish_history {s : App} {shellId : ShellId} (h : s.Keeps (some shellId)) (initial : Bool) :
    (s.finish (.fetchOlderHistory shellId initial)).Keeps none where
  fresh := h.fresh
  ids := h.ids
  answerable := h.answerable
  asked a ha _ := by
    by_cases he : a = shellId
    · subst he
      simp only [fetching, finish, App.updateTab, Table.lookup_adjust_same] at ha
      cases htab : s.tabs.lookup a <;> simp [htab] at ha
    · simp only [fetching, finish, App.updateTab, Table.lookup_adjust_ne _ _ he] at ha
      exact h.asked a ha (by simpa using Ne.symm he)

theorem Keeps.run {s : App} (h : s.Keeps none) {p : Nat} {overflows : Bool} (hs : s.strands (.run p overflows) = false) :
    (s.run p overflows).Keeps none := by
  unfold App.run
  split
  · exact h
  · next pr hp =>
    obtain ⟨caller, outcome⟩ := pr
    dsimp only
    cases outcome with
    | unsettled => exact h
    | rejected =>
      cases caller with
      | fetchOlderHistory shellId initial =>
        exact (h.erase hp fun _ _ e => by cases e; rfl).finish_history initial
      | _ => exact h.erase hp nofun
    | resolved m =>
      have hs' := strandsNext_erase p (by simpa only [strands, hp] using hs : s.strandsNext overflows caller m = false)
      cases caller with
      | fetchOlderHistory shellId initial =>
        exact ((h.erase hp fun _ _ e => by cases e; rfl).historyReply hs').finish_history initial
      | control => exact h.erase hp nofun
      | newShell key => exact (h.erase hp nofun).newShellReply key m
      | attachShell shellId name => exact (h.erase hp nofun).attachReply hs'
      | recoverExpired shellId name => exact (h.erase hp nofun).openReply shellId name m
      | terminate shellId => exact (h.erase hp nofun).calm_same (calm_markExited _ shellId) rfl

/-- What a resolver makes of a promise. -/
theorem lookup_resolve {s : App} {requestId p q : Nat} {m : Message} {pr : Promise}
    (h : (s.resolve requestId p m).promises.lookup q = some pr) :
    ∃ pr₀, s.promises.lookup q = some pr₀ ∧ pr.caller = pr₀.caller ∧ (pr.isUnsettled = true → pr = pr₀ ∧ q ≠ p) := by
  obtain ⟨pr₀, hq, hpr⟩ := Table.lookup_adjust_some.mp h
  refine ⟨pr₀, hq, ?_⟩
  by_cases hqp : q = p
  · rw [if_pos hqp] at hpr
    cases hu : pr₀.isUnsettled with
    | true =>
      rw [hu, if_pos rfl] at hpr
      subst hpr
      exact ⟨rfl, nofun⟩
    | false =>
      rw [hu, if_neg (by simp)] at hpr
      subst hpr
      exact ⟨rfl, fun hu' => absurd hu' (by simp [hu])⟩
  · rw [if_neg hqp] at hpr
    subst hpr
    exact ⟨rfl, fun _ => ⟨rfl, hqp⟩⟩

theorem caller_resolve {s : App} {q : Nat} {caller : Caller} {o : Outcome} (h : s.promises.lookup q = some ⟨caller, o⟩)
    (requestId p : Nat) (m : Message) : ∃ o', (s.resolve requestId p m).promises.lookup q = some ⟨caller, o'⟩ := by
  simp only [App.resolve, Table.lookup_adjust, h, Option.map_some]
  split
  · split <;> exact ⟨_, rfl⟩
  · exact ⟨_, rfl⟩

/-- A resolver leaves the others. -/
theorem Keeps.resolve {s : App} (h : s.Keeps none) {requestId p : Nat} (hp : s.pending.lookup requestId = some p) (m : Message) :
    (s.resolve requestId p m).Keeps none where
  fresh q pr hq := by
    obtain ⟨pr₀, hq₀, -⟩ := lookup_resolve hq
    exact h.fresh q pr₀ hq₀
  ids := h.ids
  answerable q caller r n c hq := by
    obtain ⟨pr₀, hq₀, -, hsame⟩ := lookup_resolve hq
    obtain ⟨rfl, hne⟩ := hsame rfl
    obtain ⟨hpend, hcar⟩ := h.answerable q caller r n c hq₀
    refine ⟨(AList.lookup_erase_ne ?_).trans hpend, hcar⟩
    rintro rfl
    rw [hp] at hpend
    exact hne (by simpa using hpend.symm)
  asked shellId hs _ := by
    obtain ⟨q, initial, o, hq⟩ := h.asked shellId hs nofun
    obtain ⟨o', ho'⟩ := caller_resolve hq requestId p m
    exact ⟨q, initial, o', ho'⟩

theorem Keeps.event {s : App} (h : s.Keeps none) (channel : Nat) (m : Message) : (s.event channel m).Keeps none := by
  unfold App.event
  split
  · exact h
  · next shellId _ =>
    split
    · exact h.calm_same (calm_markExited s shellId) rfl
    · split
      · next tab _ =>
        split
        · exact (h.calm_same (calm_suspend s shellId tab.channel) rfl).reattachDropped shellId
        · exact h
      · exact h
    · exact h

theorem Keeps.onFrame {s : App} (h : s.Keeps none) (channel requestId : Nat) (m : Message) :
    (s.onFrame channel requestId m).Keeps none := by
  unfold App.onFrame
  split
  · exact h.event channel m
  · split
    · next p hp => exact h.resolve hp m
    · exact h.event channel m

theorem Keeps.connected {s : App} (h : s.Keeps none) (hs : s.promises.values.any (·.isUnsettled) = false) :
    (s.step .connected).Keeps none := by
  refine h.calm ⟨rfl, rfl, rfl, fun _ => rfl⟩ ?_ fun p caller r n c hp _ => absurd hp (not_unsettled hs)
  rintro t ⟨⟩
  exact Nat.one_pos

theorem Keeps.disconnected {s : App} (h : s.Keeps none) (hs : s.promises.values.any (·.isUnsettled) = false) :
    s.onDisconnect.Keeps none where
  fresh := h.fresh
  ids _ ht := by cases ht
  answerable p caller r n c hp := absurd hp (not_unsettled hs)
  asked shellId ha := by
    refine h.asked shellId ?_
    simp only [fetching, onDisconnect, Table.lookup_mapValues] at ha ⊢
    cases htab : s.tabs.lookup shellId with
    | none => simp [htab] at ha
    | some tab =>
      simp only [htab, Option.map_some, Option.any_some] at ha ⊢
      split at ha <;> exact ha

theorem Keeps.channelEnded {s : App} (h : s.Keeps none) {channel : Nat} (hs : s.waited channel = false) :
    (s.step (.channelEnded channel)).Keeps none := by
  refine h.calm ⟨rfl, rfl, rfl, fun _ => rfl⟩ ?_ ?_
  · intro t ht
    obtain ⟨t', ht', rfl⟩ := Option.map_eq_some_iff.mp ht
    exact h.ids t' ht'
  · rintro p caller r n c hp ⟨t, ht, hn, hc, hr⟩
    exact ⟨_, Option.map_eq_some_iff.mpr ⟨t, ht, rfl⟩, hn, (Table.lookup_adjust_ne _ _ (not_waited hs hp)).trans hc, hr⟩

theorem Keeps.terminateActive {s : App} (h : s.Keeps none) (hs : s.unread 0 = false) (shellId : ShellId) :
    (s.terminateActive shellId).Keeps none := by
  unfold App.terminateActive
  split
  · exact h
  · exact h.request hs _

theorem Keeps.detachActive {s : App} (h : s.Keeps none) (shellId : ShellId) : (s.detachActive shellId).Keeps none := by
  unfold App.detachActive
  split
  · split
    · exact h
    · exact h.calm_same ⟨rfl, rfl, rfl, fetching_adjust (f := fun tab => { tab with state := .detached }) rfl fun _ => rfl⟩ rfl
  · exact h

theorem keeps_step {s : App} (h : s.Keeps none) {i : Input} (hs : s.strands i = false) : (s.step i).Keeps none := by
  cases i with
  | connected => exact h.connected hs
  | disconnected => exact h.disconnected hs
  | control => exact h.request hs _
  | newShell key => exact h.request hs _
  | attachShell shellId name => exact h.attachShell shellId name
  | fetchOlderHistory shellId => exact h.fetchOlderHistory hs
  | terminate shellId => exact h.terminateActive hs shellId
  | detach shellId => exact h.detachActive shellId
  | renderOverload shellId => exact h.recoverRenderOverload hs
  | frame channel requestId m => exact h.onFrame channel requestId m
  | run p overflows => exact h.run hs
  | channelEnded channel => exact h.channelEnded hs

/-! ## A request that has lost its resolver -/

/-- A history request of the shell that nothing settles, and that no other will take the
    flag down for. -/
structure Stranded (shellId : ShellId) (p : Nat) (s : App) : Prop where
  fresh : ∀ q pr, s.promises.lookup q = some pr → q < s.nextPromise
  waits : ∃ initial r n c, s.promises.lookup p = some ⟨.fetchOlderHistory shellId initial, .unsettled r n c⟩
  lost : ∀ r, s.pending.lookup r ≠ some p
  only : ∀ q initial o, s.promises.lookup q = some ⟨.fetchOlderHistory shellId initial, o⟩ → q = p
  stuck : s.fetching shellId = true

theorem Stranded.calm {shellId : ShellId} {p : Nat} {s s' : App} (h : s.Stranded shellId p) (hc : s.Calm s') :
    s'.Stranded shellId p where
  fresh := by rw [hc.promises, hc.nextPromise]; exact h.fresh
  waits := by rw [hc.promises]; exact h.waits
  lost := by rw [hc.pending]; exact h.lost
  only := by rw [hc.promises]; exact h.only
  stuck := by rw [hc.fetching]; exact h.stuck

theorem Stranded.lt {shellId : ShellId} {p : Nat} {s : App} (h : s.Stranded shellId p) : p < s.nextPromise := by
  obtain ⟨_, _, _, _, hp⟩ := h.waits
  exact h.fresh p _ hp

theorem Stranded.await {shellId : ShellId} {p : Nat} {s : App} (h : s.Stranded shellId p) {caller : Caller}
    (hc : ∀ initial, caller ≠ .fetchOlderHistory shellId initial) (outcome : Outcome) :
    (s.await caller outcome).Stranded shellId p where
  fresh q pr hq := by
    obtain ⟨rfl, -⟩ | ⟨-, hq⟩ := Table.lookup_insert_some.mp hq
    · exact Nat.lt_succ_self _
    · exact Nat.lt_succ_of_lt (h.fresh q pr hq)
  waits := by
    obtain ⟨initial, r, n, c, hp⟩ := h.waits
    exact ⟨initial, r, n, c, (AList.lookup_insert_ne (Nat.ne_of_lt h.lt)).trans hp⟩
  lost := h.lost
  only q initial o hq := by
    obtain ⟨-, hpr⟩ | ⟨-, hq⟩ := Table.lookup_insert_some.mp hq
    · simp only [Promise.mk.injEq] at hpr
      exact absurd hpr.1.symm (hc initial)
    · exact h.only q initial o hq
  stuck := h.stuck

theorem Stranded.request {shellId : ShellId} {p : Nat} {s : App} (h : s.Stranded shellId p) {caller : Caller}
    (hc : ∀ initial, caller ≠ .fetchOlderHistory shellId initial) (c : Nat) : (s.request c caller).Stranded shellId p := by
  unfold App.request
  split
  · exact h.await hc _
  · next t _ =>
    have hreg : Stranded shellId p { s with
        transport := some { t with nextRequestIdValue := t.nextRequestIdValue + 1 }
        pending := s.pending.insert t.nextRequestIdValue s.nextPromise } := by
      refine ⟨h.fresh, h.waits, fun r hr => ?_, h.only, h.stuck⟩
      obtain ⟨-, he⟩ | ⟨-, hr⟩ := Table.lookup_insert_some.mp hr
      · exact Nat.ne_of_lt h.lt he
      · exact h.lost r hr
    dsimp only
    split
    · exact hreg.await hc _
    · exact hreg.await hc _

theorem Stranded.attachShell {shellId : ShellId} {p : Nat} {s : App} (h : s.Stranded shellId p) (a : ShellId) (name : String) :
    (s.attachShell a name).Stranded shellId p := by
  unfold App.attachShell
  split
  · exact h
  · exact (h.calm (calm_opened s a name _ _ _)).request (fun _ e => by cases e) _

theorem Stranded.reattachDropped {shellId : ShellId} {p : Nat} {s : App} (h : s.Stranded shellId p) (a : ShellId) :
    (s.reattachDropped a).Stranded shellId p := by
  unfold App.reattachDropped
  split
  · exact h.attachShell _ _
  · exact h

theorem Stranded.recoverRenderOverload {shellId : ShellId} {p : Nat} {s : App} (h : s.Stranded shellId p) (a : ShellId) :
    (s.recoverRenderOverload a).Stranded shellId p := by
  unfold App.recoverRenderOverload
  split
  · next t tab _ _ =>
    split
    · exact h
    · suffices hclosed :
          App.Stranded shellId p { s.suspend a tab.channel with transport := some (t.closeChannel tab.channel) } from
        hclosed.reattachDropped a
      exact h.calm ⟨rfl, rfl, rfl, (calm_suspend s a tab.channel).fetching⟩
  · exact h

/-- Of its own tab the flag is up; another tab is not concerned. -/
theorem Stranded.fetchOlderHistory {shellId : ShellId} {p : Nat} {s : App} (h : s.Stranded shellId p)
    (a : ShellId) (initial : Bool) :
    (s.fetchOlderHistory a initial).Stranded shellId p := by
  unfold App.fetchOlderHistory
  split
  · exact h
  · next tab htab =>
    split
    · next hf =>
      have hne : shellId ≠ a := by
        rintro rfl
        obtain ⟨tab', htab', hup⟩ := fetching_iff.mp h.stuck
        rw [htab] at htab'
        cases htab'
        simp [fetches, hup] at hf
      have hup : (s.updateTab a fun tab => { tab with fetchingHistory := true }).Stranded shellId p := by
        refine ⟨h.fresh, h.waits, h.lost, h.only, ?_⟩
        simpa only [fetching, App.updateTab, Table.lookup_adjust_ne _ _ hne] using h.stuck
      refine hup.request (fun i e => ?_) _
      cases e
      exact hne rfl
    · exact h

theorem Stranded.goOn {shellId : ShellId} {p : Nat} {s : App} (h : s.Stranded shellId p) (overflows : Bool) (caller : Caller)
    (m : Message) : (s.goOn overflows caller m).Stranded shellId p := by
  have hstored : ∀ {s' : App} (stored : List StoredShell), s'.Stranded shellId p →
      Stranded shellId p { s' with stored := stored } :=
    fun _ hs => hs.calm ⟨rfl, rfl, rfl, fun _ => rfl⟩
  cases caller with
  | control => exact h
  | newShell key =>
    simp only [App.goOn, newShellReply]
    split
    · exact (hstored _ h).attachShell _ _
    · exact h
  | attachShell a name =>
    simp only [App.goOn, attachReply]
    split
    · exact (hstored _ h).calm (calm_updateTab _ a fun _ => rfl)
    · split
      · exact h.calm (calm_updateTab s a fun _ => rfl)
      · exact h.request (fun _ e => by cases e) _
    · next token oldest newest =>
      have hlive : (s.attached a token oldest newest).Stranded shellId p := (hstored _ h).calm (calm_updateTab _ a fun _ => rfl)
      cases overflows with
      | false => exact hlive.fetchOlderHistory _ _
      | true => exact (hlive.recoverRenderOverload a).fetchOlderHistory _ _
    · exact h
  | recoverExpired a name =>
    simp only [App.goOn, openReply]
    split
    · exact (hstored _ h).attachShell _ _
    · exact h.calm (calm_updateTab s a fun _ => rfl)
  | fetchOlderHistory a initial =>
    simp only [App.goOn, historyReply]
    split
    · exact h.calm (calm_updateTab s a fun _ => rfl)
    · split
      · apply recoverRenderOverload
        exact h.calm (calm_updateTab s a fun _ => rfl)
      · exact h.calm (calm_updateTab s a fun _ => rfl)
    · exact h
  | terminate a => exact h.calm (calm_markExited s a)

theorem Stranded.finish {shellId : ShellId} {p : Nat} {s : App} (h : s.Stranded shellId p) {caller : Caller}
    (hc : ∀ initial, caller ≠ .fetchOlderHistory shellId initial) : (s.finish caller).Stranded shellId p := by
  cases caller with
  | fetchOlderHistory a initial =>
    have hne : shellId ≠ a := fun e => hc initial (by rw [e])
    refine ⟨h.fresh, h.waits, h.lost, h.only, ?_⟩
    simpa only [fetching, App.finish, App.updateTab, Table.lookup_adjust_ne _ _ hne] using h.stuck
  | _ => exact h

theorem Stranded.run {shellId : ShellId} {p : Nat} {s : App} (h : s.Stranded shellId p) (q : Nat) (overflows : Bool) :
    (s.run q overflows).Stranded shellId p := by
  unfold App.run
  split
  · exact h
  · next pr hq =>
    obtain ⟨caller, outcome⟩ := pr
    obtain ⟨initial, r, n, c, hp⟩ := h.waits
    have hother : (∀ r n c, outcome ≠ .unsettled r n c) → q ≠ p := by
      rintro ho rfl
      rw [hp] at hq
      cases hq
      exact ho r n c rfl
    have herase : q ≠ p → Stranded shellId p { s with promises := s.promises.erase q } := fun hne =>
      { fresh := fun a pr ha => h.fresh a pr (Table.within_erase _ _ _ _ ha)
        waits := ⟨initial, r, n, c, (AList.lookup_erase_ne hne.symm).trans hp⟩
        lost := h.lost
        only := fun a i o ha => h.only a i o (Table.within_erase _ _ _ _ ha)
        stuck := h.stuck }
    have hcaller : q ≠ p → ∀ i, caller ≠ .fetchOlderHistory shellId i := fun hne i e => hne (h.only q i outcome (by rw [hq, e]))
    dsimp only
    cases outcome with
    | unsettled => exact h
    | rejected =>
      have hne := hother nofun
      exact (herase hne).finish (hcaller hne)
    | resolved m =>
      have hne := hother nofun
      exact ((herase hne).goOn overflows caller m).finish (hcaller hne)

theorem Stranded.resolve {shellId : ShellId} {p : Nat} {s : App} (h : s.Stranded shellId p) {requestId q : Nat}
    (hq : s.pending.lookup requestId = some q) (m : Message) : (s.resolve requestId q m).Stranded shellId p where
  fresh a pr ha := by
    obtain ⟨pr₀, ha₀, -⟩ := lookup_resolve ha
    exact h.fresh a pr₀ ha₀
  waits := by
    obtain ⟨initial, r, n, c, hp⟩ := h.waits
    have hne : p ≠ q := fun e => h.lost requestId (by rw [hq, e])
    exact ⟨initial, r, n, c, (Table.lookup_adjust_ne _ _ hne).trans hp⟩
  lost r hr := h.lost r (Table.within_erase _ _ _ _ hr)
  only a initial o ha := by
    obtain ⟨pr₀, ha₀, hcaller, -⟩ := lookup_resolve ha
    exact h.only a initial pr₀.outcome (by rw [ha₀, show pr₀ = ⟨pr₀.caller, pr₀.outcome⟩ from rfl, ← hcaller])
  stuck := h.stuck

theorem Stranded.onFrame {shellId : ShellId} {p : Nat} {s : App} (h : s.Stranded shellId p)
    (channel requestId : Nat) (m : Message) :
    (s.onFrame channel requestId m).Stranded shellId p := by
  have hevent : (s.event channel m).Stranded shellId p := by
    unfold event
    split
    · exact h
    · next a _ =>
      split
      · exact h.calm (calm_markExited s a)
      · split
        · next tab _ =>
          split
          · exact (h.calm (calm_suspend s a tab.channel)).reattachDropped a
          · exact h
        · exact h
      · exact h
  unfold App.onFrame
  split
  · exact hevent
  · split
    · next q hq => exact h.resolve hq m
    · exact hevent

theorem stranded_step {shellId : ShellId} {p : Nat} {s : App} (h : s.Stranded shellId p) (i : Input) :
    (s.step i).Stranded shellId p := by
  cases i with
  | connected => exact h.calm ⟨rfl, rfl, rfl, fun _ => rfl⟩
  | disconnected =>
    refine ⟨h.fresh, h.waits, fun r hr => (by cases hr), h.only, ?_⟩
    obtain ⟨tab, htab, hup⟩ := fetching_iff.mp h.stuck
    refine fetching_iff.mpr ⟨_, (Table.lookup_mapValues _ _ _).trans (congrArg _ htab), ?_⟩
    dsimp only
    split <;> exact hup
  | control => exact h.request (fun _ e => by cases e) _
  | newShell key => exact h.request (fun _ e => by cases e) _
  | attachShell a name => exact h.attachShell a name
  | fetchOlderHistory a => exact h.fetchOlderHistory a false
  | terminate a =>
    simp only [step, terminateActive]
    split
    · exact h
    · exact h.request (fun _ e => by cases e) _
  | detach a =>
    simp only [step, detachActive]
    split
    · split
      · exact h
      · exact h.calm ⟨rfl, rfl, rfl, fetching_adjust (f := fun tab => { tab with state := .detached }) rfl fun _ => rfl⟩
    · exact h
  | renderOverload a => exact h.recoverRenderOverload a
  | frame channel requestId m => exact h.onFrame channel requestId m
  | run q overflows => exact h.run q overflows
  | channelEnded channel => exact h.calm ⟨rfl, rfl, rfl, fun _ => rfl⟩

/-! ## Every run -/

/-- The answer to a request, and its caller's going on, end a tab's history request. -/
theorem run_ends {s : App} {p : Nat} {shellId : ShellId} {initial : Bool} {o : Outcome}
    (hp : s.promises.lookup p = some ⟨.fetchOlderHistory shellId initial, o⟩) (ho : ∀ r n c, o ≠ .unsettled r n c)
    (overflows : Bool) :
    (s.run p overflows).fetching shellId = false := by
  have hdown : ∀ s' : App, (s'.finish (.fetchOlderHistory shellId initial)).fetching shellId = false := by
    intro s'
    simp only [fetching, finish, updateTab, Table.lookup_adjust_same]
    cases s'.tabs.lookup shellId <;> rfl
  unfold run
  rw [hp]
  cases o with
  | unsettled r n c => exact absurd rfl (ho r n c)
  | resolved m => exact hdown _
  | rejected => exact hdown _

theorem answer_ends {s : App} {p : Nat} {shellId : ShellId} {initial : Bool} {r n c : Nat}
    (hp : s.promises.lookup p = some ⟨.fetchOlderHistory shellId initial, .unsettled r n c⟩) (ha : s.Answerable p r n c)
    (m : Message) (overflows : Bool) : ((s.onFrame c r m).run p overflows).fetching shellId = false := by
  obtain ⟨hpend, t, -, -, -, hr, -⟩ := ha
  have hres : s.onFrame c r m = s.resolve r p m := by
    rw [onFrame, if_neg (Nat.ne_of_gt hr), hpend]
  have hp' : (s.resolve r p m).promises.lookup p = some ⟨.fetchOlderHistory shellId initial, .resolved m⟩ := by
    simp [resolve, hp, Promise.isUnsettled]
  rw [hres]
  exact run_ends hp' nofun overflows

end App

/-- In a run whose steps take nothing away from an open request, every open request has its
    resolver and its frame out on the connection, over a channel that is read; and a flag
    that is up is taken down by the answer to such a request, or by a caller that has its
    answer. -/
theorem requests_answered (stored : List StoredShell) {is : List Input}
    (h : machine.Admissible (fun s i => s.strands i = false) (App.start stored) is) :
    let s := machine.run (App.start stored) is
    (∀ p caller r n c, s.promises.lookup p = some ⟨caller, .unsettled r n c⟩ → s.Answerable p r n c) ∧
      ∀ shellId, s.fetching shellId = true →
        ∃ p initial o, s.promises.lookup p = some ⟨.fetchOlderHistory shellId initial, o⟩ ∧
          ((∃ r n c, o = .unsettled r n c ∧ s.Answerable p r n c ∧
              ∀ m overflows, (machine.run s [.frame c r m, .run p overflows]).fetching shellId = false) ∨
            (∀ r n c, o ≠ .unsettled r n c) ∧ ∀ overflows, (machine.run s [.run p overflows]).fetching shellId = false) := by
  have hk : (machine.run (App.start stored) is).Keeps none :=
    machine.run_induction (P := App.Keeps none) (fun _ _ hs hi => App.keeps_step hs hi) (App.start_keeps stored) h
  refine ⟨hk.answerable, fun shellId hf => ?_⟩
  obtain ⟨p, initial, o, hp⟩ := hk.asked shellId hf nofun
  refine ⟨p, initial, o, hp, ?_⟩
  cases o with
  | unsettled r n c =>
    have ha := hk.answerable p _ r n c hp
    exact .inl ⟨r, n, c, rfl, ha, App.answer_ends hp ha⟩
  | resolved m => exact .inr ⟨nofun, App.run_ends hp nofun⟩
  | rejected => exact .inr ⟨nofun, App.run_ends hp nofun⟩

/-- Whatever comes, the tab fetches no more. -/
theorem stranded_forever {s : App} {shellId : ShellId} {p : Nat} (h : s.Stranded shellId p) (is : List Input) :
    (machine.run s is).fetching shellId = true :=
  (machine.run_always (P := App.Stranded shellId p) (fun _ i hs => App.stranded_step hs i) h is).stuck

/-- A shell with history is attached, and its first page is asked for. -/
def firstPage : List Input :=
  [.connected, .attachShell [1] "shell 1", .frame 1 1 (.shellAttached [9] 1 40), .run 0 false]

/-- The page comes. -/
theorem requests_answered_page :
    let s := machine.run (App.start []) (firstPage ++ [.frame 1 2 (.historyChunk ["a"] 30 false)])
    s.fetching [1] = true ∧ ∃ p initial o, s.promises.lookup p = some ⟨.fetchOlderHistory [1] initial, o⟩ ∧
      ((∃ r n c, o = .unsettled r n c ∧ s.Answerable p r n c ∧
          ∀ m overflows, (machine.run s [.frame c r m, .run p overflows]).fetching [1] = false) ∨
        (∀ r n c, o ≠ .unsettled r n c) ∧ ∀ overflows, (machine.run s [.run p overflows]).fetching [1] = false) :=
  ⟨by decide, (@requests_answered [] (firstPage ++ [.frame 1 2 (.historyChunk ["a"] 30 false)]) (by decide)).2 [1] (by decide)⟩

theorem firstPage_stranded : (machine.run (App.start []) (firstPage ++ [.disconnected])).Stranded [1] 1 := by
  have hprom : (machine.run (App.start []) (firstPage ++ [.disconnected])).promises =
      (∅ : Table Nat Promise).insert 1 ⟨.fetchOlderHistory [1] true, .unsettled 2 0 1⟩ := rfl
  have hone : ∀ {q pr}, (machine.run (App.start []) (firstPage ++ [.disconnected])).promises.lookup q = some pr → q = 1 := by
    intro q pr hq
    rw [hprom] at hq
    obtain ⟨rfl, -⟩ | ⟨-, hq⟩ := Table.lookup_insert_some.mp hq
    · rfl
    · cases hq
  refine ⟨fun q pr hq => ?_, ⟨true, 2, 0, 1, by rw [hprom]; exact AList.lookup_insert _⟩, fun r hr =>
    (by cases hr), ?_, by decide⟩
  · rw [hone hq]
    decide
  · intro q initial o hq
    exact hone hq

/-- The connection is lost while the first page is asked for, and made again: the request is
    never settled, and the tab, attached and live, loads no history whatever comes. -/
theorem fetch_stranded :
    let s := machine.run (App.start []) (firstPage ++
      [.disconnected, .connected, .attachShell [1] "shell 1", .frame 1 1 (.shellAttached [9] 1 40), .run 2 false])
    (s.tabs.lookup [1]).map (·.state) = some .live ∧
      s.promises.lookup 1 = some ⟨.fetchOlderHistory [1] true, .unsettled 2 0 1⟩ ∧ ¬ s.Answerable 1 2 0 1 ∧
      ∀ is, (machine.run s is).fetching [1] = true := by
  refine ⟨by decide, by decide, fun ha => absurd ha.1 (by decide), fun is => ?_⟩
  have := stranded_forever firstPage_stranded
    ([.connected, .attachShell [1] "shell 1", .frame 1 1 (.shellAttached [9] 1 40), .run 2 false] ++ is)
  rwa [← Machine.run_append, ← List.append_assoc, Machine.run_append] at this

end Holdfast.Web.Requests

/-
  Holdfast.Web.Attach — attaching in the browser (`attachShell`, `recoverExpired` and
  `onDisconnect` of `web/src/client/app.ts`), beside a native client on the same entry
  (`attach_failure_action` and the desktop's `attach_with_recovery`, `Client.Recovery`).

  The browser stores its shells in a list and attaches each of them when it connects. A
  refused attach is over, but for an expired token, with which it opens the shell again by
  its key and attaches to what it is given. The history, the screen and the live output of
  a tab are no part of this.

  The two are set side by side (`Both`): the same entry, the same answers of the server.

  Proved:
  - `alike_step`: an answer leaves the two alike, but for the answers on which the browser
    goes its own way on purpose (`byDesign`).
  - `same_policy`: over every sequence of attaches, answers and lost connections, and what
    it does on each of those answers.
  - `expired_keeps`: without a key the browser keeps an entry that a native client forgets.
-/

import Holdfast.Client.Recovery

namespace Holdfast.Web

open Holdfast.Base Holdfast.Session Holdfast.Daemon Holdfast.Client

/-! ## The browser -/

/-- `StoredShell`; ids, tokens and keys are the bytes that are stored in base64. -/
structure StoredShell where
  id : List UInt8
  token : List UInt8
  name : String
  idem : Option (List UInt8)
  deriving DecidableEq, Repr

inductive TabState where
  | connecting
  | live
  | detached
  | reconnecting
  | exited
  deriving DecidableEq, Repr

structure Tab where
  shellId : List UInt8
  name : String
  state : TabState
  inputPaused : Bool
  /-- What the client itself wrote into the terminal. -/
  notes : List String
  deriving DecidableEq, Repr

/-- What an `attachShell` waits for. -/
inductive Phase where
  | attaching (token : List UInt8)
  /-- `recoverExpired`; the message is that of the refused attach. -/
  | reopening (key : List UInt8) (humanMessage : String)
  deriving DecidableEq, Repr

structure Call where
  shellId : List UInt8
  name : String
  tab : Nat
  phase : Phase
  deriving DecidableEq, Repr

inductive Reply where
  | error (code : ErrorCode) (retryable : Bool) (humanMessage : String)
  | shellAttached (rotatedResumeToken : List UInt8)
  | shellOpened (shellId resumeToken : List UInt8)
  | other
  deriving DecidableEq, Repr

structure App where
  transport : Bool
  stored : List StoredShell
  tabs : List Tab
  call : Option Call
  deriving DecidableEq, Repr

def cannotReattach (humanMessage : String) : String := "\r\n\x1b[31m[cannot reattach: " ++ humanMessage ++ "]\x1b[0m\r\n"

def keptInList : String :=
  "\x1b[33m[the shell may still be running; it has been kept in this browser's list]\x1b[0m\r\n"

/-- A change to the first entry of the shell, which `find` gives. -/
def updateEntry (shellId : List UInt8) (f : StoredShell → StoredShell) : List StoredShell → List StoredShell
  | [] => []
  | s :: rest => if s.id = shellId then f s :: rest else s :: updateEntry shellId f rest

namespace App

def entry (b : App) (shellId : List UInt8) : Option StoredShell := b.stored.find? fun s => s.id = shellId

def forget (b : App) (shellId : List UInt8) : App := { b with stored := b.stored.filter fun s => s.id ≠ shellId }

def updateTab (b : App) (i : Nat) (f : Tab → Tab) : App := { b with tabs := b.tabs.modify i f }

/-- The tabs with one for the shell, and which it is. -/
def tabFor (b : App) (shellId : List UInt8) (name : String) : List Tab × Nat :=
  match b.tabs.findIdx? fun t => t.shellId = shellId with
  | some i => (b.tabs, i)
  | none => (b.tabs ++ [⟨shellId, name, .connecting, true, []⟩], b.tabs.length)

/-- `attachShell` up to its request. -/
def attachShell (b : App) (shellId token : List UInt8) (name : String) : App :=
  if b.transport = false then { b with call := none }
  else
    let (tabs, i) := b.tabFor shellId name
    { { b with tabs := tabs }.updateTab i fun t => { t with inputPaused := true } with
      call := some ⟨shellId, name, i, .attaching token⟩ }

/-- The end of an attach that the user is told about. -/
def ended (b : App) (call : Call) (text : String) : App :=
  { b.updateTab call.tab fun t => { t with state := .exited, notes := t.notes ++ [text] } with call := none }

/-- `recoverExpired` up to its request: only with a key that is stored. -/
def recoverExpired (b : App) (call : Call) (humanMessage : String) : App :=
  match (b.entry call.shellId).bind (·.idem) with
  | none | some [] => b.ended call (cannotReattach humanMessage ++ keptInList)
  | some key =>
    if b.transport = false then { b with call := none }
    else { b with call := some { call with phase := .reopening key humanMessage } }

/-- The answer to an attach. -/
def attachReply (b : App) (call : Call) : Reply → App
  | .error code _ humanMessage =>
    match code with
    | .errNotFound => (b.forget call.shellId).ended call (cannotReattach humanMessage)
    | .errTokenExpired => b.recoverExpired call humanMessage
    | _ => { b with call := none }
  | .shellAttached token =>
    { { b with stored := updateEntry call.shellId (fun s => { s with token := token }) b.stored }.updateTab call.tab
        fun t => { t with state := .live, inputPaused := false } with call := none }
  | _ => { b with call := none }

/-- The answer to a recovery. The entry takes the id and the token before the attach. -/
def openReply (b : App) (call : Call) (humanMessage : String) : Reply → App
  | .shellOpened shellId token =>
    { b with stored := updateEntry call.shellId (fun s => { s with id := shellId, token := token }) b.stored }.attachShell
      shellId token call.name
  | _ => b.ended call (cannotReattach humanMessage ++ keptInList)

def reply (b : App) (r : Reply) : App :=
  match b.call with
  | none => b
  | some call =>
    match call.phase with
    | .attaching _ => b.attachReply call r
    | .reopening _ humanMessage => b.openReply call humanMessage r

/-- `onDisconnect`: what waits for an answer never gets one. -/
def onDisconnect (b : App) : App :=
  { b with
    transport := false
    call := none
    tabs := b.tabs.map fun t => if t.state = .exited then t else { t with state := .reconnecting, inputPaused := true } }

/-- What `connect` attaches, one after the other. -/
def connectTargets (b : App) : List (List UInt8 × List UInt8 × String) := b.stored.map fun s => (s.id, s.token, s.name)

/-- `connect` gets to the entry of the shell. -/
def connect (b : App) (shellId : List UInt8) : App :=
  match b.call, b.entry shellId with
  | none, some s => { b with transport := true }.attachShell s.id s.token s.name
  | _, _ => b

end App

/-! ## Beside a native client -/

structure Both (V : Type) where
  browser : App
  native : Client.World V

inductive BothInput where
  /-- Both attach with the entry they have stored. -/
  | start
  /-- The answer to what both wait for. -/
  | answer (a : Answer)
  /-- The answer to the native client's presence check. -/
  | presence (a : Answer)
  | lose

def replyOf : Answer → Reply
  | .attached token _ => .shellAttached token.bytes.toList
  | .opened shellId token => .shellOpened shellId.bytes.toList token.bytes.toList
  | .rejected code retryable message => .error code retryable message
  | .listed _ | .done => .other

section

variable {V : Type} (S : Server V) (c : NativeClient)

namespace Both

def step (p : Both V) : BothInput → Both V
  | .start => ⟨p.browser.connect c.shell.bytes.toList, p.native.step S c .start⟩
  | .answer a => ⟨p.browser.reply (replyOf a), { p.native with answer := some a }.step S c .receive⟩
  | .presence a => { p with native := { p.native with answer := some a }.step S c .receive }
  | .lose => ⟨p.browser.onDisconnect, p.native.step S c .lose⟩

def machine : Machine (Both V) BothInput Unit := ⟨fun p i => (p.step S c i, ())⟩

/-- The input answers what is asked. -/
def fits (p : Both V) : BothInput → Bool
  | .answer a =>
    match p.native.call, a with
    | .attaching _ _, .attached _ _ | .attaching _ _, .rejected _ _ _ => true
    | .reopening _, .opened _ _ | .reopening _, .rejected _ _ _ => true
    | _, _ => false
  | .presence a =>
    match p.native.call, a with
    | .listing _, .listed _ | .listing _, .rejected _ _ _ => true
    | _, _ => false
  | .start | .lose => true

/-- A replayed token, or one that is expired after a recovery. -/
def aside (p : Both V) : BothInput → Bool
  | .answer (.rejected code _ _) =>
    match p.native.call with
    | .attaching _ recovered => code = .errTokenReplayed || code = .errTokenExpired && recovered
    | _ => false
  | _ => false

/-- What the browser treats in its own way: an expired token without a key, a shell that is
    not known to run, a key that opens another shell. -/
def byDesign (p : Both V) : BothInput → Bool
  | .answer (.rejected code _ _) =>
    match p.native.call with
    | .attaching creds _ => code = .errTokenExpired && creds.idempotencyKey.isNone
    | _ => false
  | .answer (.opened shellId _) => shellId != c.shell
  | .presence a => a != .listed true
  | _ => false

/-- An answer on which the two are to agree. -/
def Agreed (p : Both V) (i : BothInput) : Prop := p.fits i = true ∧ p.aside i = false ∧ p.byDesign c i = false

end Both

/-! ## Alike -/

def storedCreds (s : StoredShell) : List UInt8 × Option (List UInt8) := (s.token, s.idem)

def credsBytes (creds : Creds) : List UInt8 × Option (List UInt8) :=
  (creds.token.bytes.toList, creds.idempotencyKey.map (·.toList))

/-- The two wait for the answer to the same request; the native client may still check
    whether the shell runs. -/
def SameCall (shell : List UInt8) : Option Call → Client.Call → Prop
  | none, .idle => True
  | some call, .attaching creds _ => call.shellId = shell ∧ call.phase = .attaching creds.token.bytes.toList
  | some call, .listing creds | some call, .reopening creds =>
    call.shellId = shell ∧ ∃ key message, creds.idempotencyKey = some key ∧ call.phase = .reopening key.toList message
  | _, _ => False

def credsOf : Client.Call → Option Creds
  | .attaching creds _ | .listing creds | .reopening creds => some creds
  | _ => none

/-- The tab of the shell says that it is over. -/
def Told (b : App) (shell : List UInt8) : Prop := ∃ t ∈ b.tabs, t.shellId = shell ∧ t.state = .exited ∧ t.notes ≠ []

/-- The same entry, the same call, and an entry that is to be attached again or a user that
    was told. -/
structure Alike (p : Both V) : Prop where
  connected : p.browser.call.isSome = true → p.browser.transport = true
  entry : (p.browser.entry c.shell.bytes.toList).map storedCreds = p.native.store.map credsBytes
  call : SameCall c.shell.bytes.toList p.browser.call p.native.call
  creds : ∀ creds, credsOf p.native.call = some creds → p.native.store = some creds
  tab : ∀ call, p.browser.call = some call → ∃ t, p.browser.tabs[call.tab]? = some t ∧ t.shellId = call.shellId
  settled : p.browser.call = none →
    (∃ target ∈ p.browser.connectTargets, target.1 = c.shell.bytes.toList) ∨ Told p.browser c.shell.bytes.toList

end

/-! ## What the parts do -/

section

variable {b : App} {shell : List UInt8}

theorem entry_forget (b : App) (shell : List UInt8) : (b.forget shell).entry shell = none := by
  unfold App.entry App.forget
  rw [List.find?_eq_none]
  intro s hs
  simpa using (List.mem_filter.mp hs).2

theorem find_updateEntry {f : StoredShell → StoredShell} (hf : ∀ s, s.id = shell → (f s).id = shell) (stored : List StoredShell) :
    ((updateEntry shell f stored).find? fun s => s.id = shell) = (stored.find? fun s => s.id = shell).map f := by
  induction stored with
  | nil => rfl
  | cons s rest ih =>
    by_cases h : s.id = shell
    · simp [updateEntry, h, hf s h]
    · simp [updateEntry, h, ih]

theorem target_of_entry {s : StoredShell} (h : b.entry shell = some s) : ∃ target ∈ b.connectTargets, target.1 = shell := by
  have hmem := List.mem_of_find?_eq_some h
  have hid : s.id = shell := by simpa using List.find?_some h
  exact ⟨(s.id, s.token, s.name), List.mem_map.mpr ⟨s, hmem, rfl⟩, hid⟩

theorem tabFor_tab (b : App) (shell : List UInt8) (name : String) :
    ∃ t, (b.tabFor shell name).1[(b.tabFor shell name).2]? = some t ∧ t.shellId = shell := by
  unfold App.tabFor
  split
  · rename_i i hi
    obtain ⟨hlt, hshell, -⟩ := List.findIdx?_eq_some_iff_getElem.mp hi
    exact ⟨b.tabs[i], List.getElem?_eq_getElem hlt, by simpa using hshell⟩
  · exact ⟨⟨shell, name, .connecting, true, []⟩, by simp, rfl⟩

/-- A change to a tab that leaves it the shell's. -/
theorem tab_modify {tabs : List Tab} {i : Nat} {f : Tab → Tab} (hf : ∀ t, (f t).shellId = t.shellId)
    (h : ∃ t, tabs[i]? = some t ∧ t.shellId = shell) : ∃ t, (tabs.modify i f)[i]? = some t ∧ t.shellId = shell := by
  obtain ⟨t, ht, rfl⟩ := h
  exact ⟨f t, by simp [ht], hf t⟩

/-- An attach that begins. -/
theorem attachShell_call (h : b.transport = true) (token : List UInt8) (name : String) :
    ∃ i, (b.attachShell shell token name).call = some ⟨shell, name, i, .attaching token⟩ ∧
      (b.attachShell shell token name).transport = true ∧ (b.attachShell shell token name).stored = b.stored ∧
      ∃ t, (b.attachShell shell token name).tabs[i]? = some t ∧ t.shellId = shell := by
  unfold App.attachShell
  rw [if_neg (by simp [h])]
  exact ⟨_, rfl, h, rfl, tab_modify (fun _ => rfl) (tabFor_tab b shell name)⟩

/-- A recovery that begins. -/
theorem recoverExpired_call {call : Call} {key : List UInt8} (message : String)
    (hkey : (b.entry call.shellId).bind (·.idem) = some key)
    (hne : key ≠ []) (h : b.transport = true) :
    b.recoverExpired call message = { b with call := some { call with phase := .reopening key message } } := by
  unfold App.recoverExpired
  rw [hkey]
  cases key with
  | nil => exact absurd rfl hne
  | cons byte rest => simp [h]

theorem ended_told {call : Call} (text : String) (h : ∃ t, b.tabs[call.tab]? = some t ∧ t.shellId = shell) :
    Told (b.ended call text) shell := by
  obtain ⟨t, ht, rfl⟩ := h
  have hget : (b.ended call text).tabs[call.tab]? = some { t with state := .exited, notes := t.notes ++ [text] } := by
    simp [App.ended, App.updateTab, ht]
  exact ⟨_, List.mem_of_getElem? hget, rfl, rfl, by simp⟩

end

/-! ## Steps -/

section

variable {V : Type} {S : Server V} {c : NativeClient} {p : Both V}

/-- The entry is there in both or in neither. -/
theorem Alike.entry_of_store (h : Alike c p) {creds : Creds} (hs : p.native.store = some creds) :
    ∃ s, p.browser.entry c.shell.bytes.toList = some s ∧ s.token = creds.token.bytes.toList ∧
      s.idem = creds.idempotencyKey.map (·.toList) := by
  have hentry := h.entry
  rw [hs] at hentry
  obtain ⟨s, hs, hcreds⟩ := Option.map_eq_some_iff.mp hentry
  injection hcreds with htoken hidem
  exact ⟨s, hs, htoken, hidem⟩

/-- Both wait for the answer to an attach with the entry. -/
theorem alike_attaching {b : App} {w : Client.World V} {creds : Creds} {recovered : Bool} (hb : b.transport = true)
    (hcall : w.call = .attaching creds recovered) (hs : w.store = some creds)
    (hentry : (b.entry c.shell.bytes.toList).map storedCreds = some (credsBytes creds)) (name : String) :
    Alike c ⟨b.attachShell c.shell.bytes.toList creds.token.bytes.toList name, w⟩ := by
  obtain ⟨i, hcall', htransport, hstored, htab⟩ :=
    @attachShell_call b c.shell.bytes.toList hb creds.token.bytes.toList name
  constructor
  case connected => exact fun _ => htransport
  case entry =>
    show Option.map storedCreds (App.entry _ _) = w.store.map credsBytes
    unfold App.entry
    rw [hstored, hs]
    exact hentry
  case call =>
    show SameCall _ (App.attachShell _ _ _ _).call w.call
    rw [hcall', hcall]
    exact ⟨rfl, rfl⟩
  case creds =>
    show ∀ creds', credsOf w.call = some creds' → w.store = some creds'
    intro creds' h
    rw [hcall] at h
    cases h
    exact hs
  case tab =>
    show ∀ call, (App.attachShell _ _ _ _).call = some call → _
    intro call h
    rw [hcall'] at h
    cases h
    exact htab
  case settled =>
    show (App.attachShell _ _ _ _).call = none → _
    intro h
    rw [hcall'] at h
    cases h

theorem start_alike (h : Alike c p) : Alike c (p.step S c .start) := by
  have hcall := h.call
  unfold Both.step App.connect Client.World.step
  simp only
  cases hb : p.browser.call with
  | some call =>
    cases hw : p.native.call with
    | idle => rw [hb, hw] at hcall; exact hcall.elim
    | _ => simp only; exact h
  | none =>
    cases hw : p.native.call with
    | idle =>
      cases hs : p.native.store with
      | none =>
        have hentry := h.entry
        rw [hs] at hentry
        rw [Option.map_eq_none_iff.mp hentry]
        exact h
      | some creds =>
        obtain ⟨s, hentry, htoken, hidem⟩ := h.entry_of_store hs
        have hid : s.id = c.shell.bytes.toList := by simpa using List.find?_some hentry
        rw [hentry]
        simp only
        rw [hid, htoken]
        refine alike_attaching rfl rfl rfl ?_ s.name
        unfold App.entry at hentry ⊢
        rw [hentry, Option.map_some, storedCreds, credsBytes, htoken, hidem]
    | _ => rw [hb, hw] at hcall; exact hcall.elim

/-- An attach that is over, with the entry as it was. -/
theorem alike_over {b : App} {w : Client.World V} (hcall : b.call = none) (hidle : w.call = .idle)
    (hentry : (b.entry c.shell.bytes.toList).map storedCreds = w.store.map credsBytes)
    (hsettled : (∃ target ∈ b.connectTargets, target.1 = c.shell.bytes.toList) ∨ Told b c.shell.bytes.toList) :
    Alike c ⟨b, w⟩ := by
  constructor
  case connected => intro h; rw [hcall] at h; cases h
  case entry => exact hentry
  case call =>
    show SameCall _ b.call w.call
    rw [hcall, hidle]
    trivial
  case creds => intro creds h; rw [hidle] at h; cases h
  case tab => intro call h; rw [hcall] at h; cases h
  case settled => exact fun _ => hsettled

/-- The entry that is used is still there for the next connect. -/
theorem Alike.target (h : Alike c p) {creds : Creds} (hcreds : credsOf p.native.call = some creds) :
    ∃ target ∈ p.browser.connectTargets, target.1 = c.shell.bytes.toList := by
  obtain ⟨s, hs, -⟩ := h.entry_of_store (h.creds creds hcreds)
  exact target_of_entry hs

theorem told_onDisconnect {b : App} {shell : List UInt8} (h : Told b shell) : Told b.onDisconnect shell := by
  obtain ⟨t, ht, hshell, hstate, hnotes⟩ := h
  exact ⟨t, List.mem_map.mpr ⟨t, ht, if_pos hstate⟩, hshell, hstate, hnotes⟩

/-- What both wait for, if they do. -/
theorem Alike.calls (h : Alike c p) :
    (p.browser.call = none ∧ p.native.call = .idle) ∨
    ∃ call, p.browser.call = some call ∧ call.shellId = c.shell.bytes.toList ∧
      ((∃ creds recovered, p.native.call = .attaching creds recovered ∧ call.phase = .attaching creds.token.bytes.toList) ∨
       ∃ creds key message, (p.native.call = .listing creds ∨ p.native.call = .reopening creds) ∧
         creds.idempotencyKey = some key ∧ call.phase = .reopening key.toList message) := by
  have hcall := h.call
  unfold SameCall at hcall
  split at hcall
  · exact .inl ⟨‹_›, ‹_›⟩
  · exact .inr ⟨_, ‹_›, hcall.1, .inl ⟨_, _, ‹_›, hcall.2⟩⟩
  · obtain ⟨hshell, key, message, hkey, hphase⟩ := hcall
    exact .inr ⟨_, ‹_›, hshell, .inr ⟨_, key, message, .inl ‹_›, hkey, hphase⟩⟩
  · obtain ⟨hshell, key, message, hkey, hphase⟩ := hcall
    exact .inr ⟨_, ‹_›, hshell, .inr ⟨_, key, message, .inr ‹_›, hkey, hphase⟩⟩
  · exact hcall.elim

theorem lose_alike (hk : c.kind = .desktop) (h : Alike c p) : Alike c (p.step S c .lose) := by
  have hover : ∀ w : Client.World V, w.call = .idle → w.store = p.native.store →
      ((∃ target ∈ p.browser.connectTargets, target.1 = c.shell.bytes.toList) ∨ Told p.browser c.shell.bytes.toList) →
      Alike c ⟨p.browser.onDisconnect, w⟩ := fun w hw hs hsettled =>
    alike_over rfl hw (by rw [hs]; exact h.entry) (hsettled.imp_right told_onDisconnect)
  unfold Both.step Client.World.step Client.World.lost
  rcases h.calls with ⟨hb, hw⟩ | ⟨call, hb, hshell, ⟨creds, recovered, hw, -⟩ | ⟨creds, key, message, hw, -⟩⟩
  · simp only [hw]
    exact hover _ rfl rfl (h.settled hb)
  · have htarget := h.target (show credsOf p.native.call = some creds by rw [hw]; rfl)
    simp only [hw]
    exact hover _ (by simp [Client.World.attachFailed, attachFailureAction, hk])
      (by simp [Client.World.attachFailed, attachFailureAction])
      (.inl htarget)
  · have htarget := h.target (show credsOf p.native.call = some creds by rcases hw with hw | hw <;> rw [hw] <;> rfl)
    rcases hw with hw | hw
    all_goals
      simp only [hw]
      exact hover _ (by simp [Client.World.recoveryFailed, hk]) (by simp [Client.World.recoveryFailed, hk]) (.inl htarget)

theorem presence_alike (h : Alike c p) {a : Answer} (hfits : p.fits (.presence a) = true)
    (hdesign : p.byDesign c (.presence a) = false) : Alike c (p.step S c (.presence a)) := by
  have ha : a = .listed true := by simpa [Both.byDesign] using hdesign
  subst ha
  rcases h.calls with ⟨hb, hw⟩ | ⟨call, hb, hshell, ⟨creds, recovered, hw, -⟩ | ⟨creds, key, message, hw | hw, hkey, hphase⟩⟩
  · simp [Both.fits, hw] at hfits
  · simp [Both.fits, hw] at hfits
  · constructor
    case connected => exact h.connected
    case tab => exact h.tab
    case settled => exact h.settled
    all_goals simp only [Both.step, Client.World.step, Client.World.answered, hw]
    case entry => exact h.entry
    case call =>
      rw [hb]
      exact ⟨hshell, key, message, hkey, hphase⟩
    case creds =>
      intro creds' h'
      exact h.creds creds' (by rw [hw]; exact h')
  · simp [Both.fits, hw] at hfits

/-- The tab of what the browser waits for. -/
theorem Alike.tabOf (h : Alike c p) {call : Call} (hb : p.browser.call = some call)
    (hshell : call.shellId = c.shell.bytes.toList) :
    ∃ t, p.browser.tabs[call.tab]? = some t ∧ t.shellId = c.shell.bytes.toList := by
  obtain ⟨t, ht, hid⟩ := h.tab call hb
  exact ⟨t, ht, hid.trans hshell⟩

/-- The new token is in both entries. -/
theorem Alike.saved (h : Alike c p) (hk : c.kind = .desktop) (w : Client.World V) (hs : w.store = p.native.store)
    (token : ResumeToken)
    {f : StoredShell → StoredShell} (hid : ∀ s, s.id = c.shell.bytes.toList → (f s).id = c.shell.bytes.toList)
    (hf : ∀ s, (f s).token = token.bytes.toList ∧ (f s).idem = s.idem) :
    ((updateEntry c.shell.bytes.toList f p.browser.stored).find? fun s => s.id = c.shell.bytes.toList).map storedCreds =
      (w.saveToken c token).store.map credsBytes := by
  have hentry := h.entry
  unfold App.entry at hentry
  simp only [find_updateEntry hid, Client.World.saveToken, hk, hs, Option.map_map]
  cases hw : p.native.store with
  | none =>
    rw [hw] at hentry
    rw [Option.map_eq_none_iff.mp hentry]
    rfl
  | some creds =>
    rw [hw] at hentry
    obtain ⟨s, hs, hcreds⟩ := Option.map_eq_some_iff.mp hentry
    injection hcreds with _ hidem
    rw [hs]
    simp only [Option.map_some, Function.comp, storedCreds, credsBytes, (hf s).1, (hf s).2, hidem]

theorem attached_alike (hk : c.kind = .desktop) (h : Alike c p) {call : Call} {creds : Creds} {recovered : Bool}
    (hb : p.browser.call = some call) (hshell : call.shellId = c.shell.bytes.toList)
    (hw : p.native.call = .attaching creds recovered)
    (hphase : call.phase = .attaching creds.token.bytes.toList) (token : ResumeToken) (attachmentId : Nat) :
    Alike c (p.step S c (.answer (.attached token attachmentId))) := by
  have hsaved := fun w hs => h.saved hk w hs token (f := fun s => { s with token := token.bytes.toList })
    (fun s hs => hs) (fun s => ⟨rfl, rfl⟩)
  simp only [Both.step, App.reply, hb, hphase, App.attachReply, replyOf, Client.World.step, Client.World.answered, hw, hk, hshell]
  refine alike_over rfl rfl (hsaved _ rfl) (.inl ?_)
  obtain ⟨s, hentry, -⟩ := h.entry_of_store (h.creds creds (by rw [hw]; rfl))
  have hfound : (updateEntry c.shell.bytes.toList (fun s => { s with token := token.bytes.toList }) p.browser.stored).find?
      (fun s => s.id = c.shell.bytes.toList) = some { s with token := token.bytes.toList } := by
    unfold App.entry at hentry
    rw [find_updateEntry (f := fun s => { s with token := token.bytes.toList }) fun s hs => hs, hentry]
    rfl
  exact target_of_entry hfound

/-- The browser tells the user and keeps the entry; the native client is idle. -/
theorem alike_ended (h : Alike c p) {call : Call} (hb : p.browser.call = some call)
    (hshell : call.shellId = c.shell.bytes.toList) {w : Client.World V} (hw : w.call = .idle)
    (hs : w.store = p.native.store) (text : String) :
    Alike c ⟨p.browser.ended call text, w⟩ :=
  alike_over rfl hw (by rw [hs]; exact h.entry) (.inr (ended_told text (h.tabOf hb hshell)))

theorem refused_alike (hk : c.kind = .desktop) (h : Alike c p) {call : Call} {creds : Creds} {recovered : Bool}
    (hb : p.browser.call = some call) (hshell : call.shellId = c.shell.bytes.toList)
    (hw : p.native.call = .attaching creds recovered)
    (hphase : call.phase = .attaching creds.token.bytes.toList) {code : ErrorCode} {retryable : Bool} {message : String}
    (haside : p.aside (.answer (.rejected code retryable message)) = false)
    (hdesign : p.byDesign c (.answer (.rejected code retryable message)) = false) :
    Alike c (p.step S c (.answer (.rejected code retryable message))) := by
  simp only [Both.aside, hw] at haside
  simp only [Both.byDesign, hw] at hdesign
  have htarget := h.target (show credsOf p.native.call = some creds by rw [hw]; rfl)
  -- the attach is over and the entry stays
  have hkept : ∀ w : Client.World V, w.call = .idle → w.store = p.native.store → Alike c ⟨{ p.browser with call := none }, w⟩ :=
    fun w hidle hs => alike_over rfl hidle (by rw [hs]; exact h.entry) (.inl htarget)
  simp only [Both.step, App.reply, hb, hphase, replyOf, Client.World.step, Client.World.answered, hw]
  cases code with
  | errNotFound =>
    simp only [Client.World.attachFailed, attachFailureAction, App.attachReply]
    refine alike_over rfl rfl ?_ (.inr (ended_told _ (h.tabOf hb hshell)))
    show Option.map storedCreds (App.entry (p.browser.forget call.shellId) c.shell.bytes.toList) = none
    rw [hshell, entry_forget]
    rfl
  | errTokenReplayed => simp at haside
  | errTokenExpired =>
    obtain ⟨key, hkey⟩ : ∃ key, creds.idempotencyKey = some key := by
      cases hkey : creds.idempotencyKey with
      | none => simp [hkey] at hdesign
      | some key => exact ⟨key, rfl⟩
    obtain rfl : recovered = false := by simpa using haside
    obtain ⟨s, hentry, -, hidem⟩ := h.entry_of_store (h.creds creds (by rw [hw]; rfl))
    have hstored : (p.browser.entry call.shellId).bind (·.idem) = some key.toList := by
      rw [hshell, hentry, Option.bind_some, hidem, hkey]
      rfl
    have htransport : p.browser.transport = true := h.connected (by rw [hb]; rfl)
    have hne : key.toList ≠ [] := by
      intro hnil
      have := congrArg List.length hnil
      simp at this
    simp only [App.attachReply, recoverExpired_call message hstored hne htransport]
    have hnative : ∀ w : Client.World V, w.attachFailed c creds false (.rejected .errTokenExpired retryable message) =
        { w with call := .listing creds } := by
      simp [Client.World.attachFailed, attachFailureAction, Client.World.haveKey, hkey]
    rw [hnative]
    constructor
    case connected => exact fun _ => htransport
    case entry => exact h.entry
    case call => exact ⟨hshell, key, message, hkey, rfl⟩
    case creds => exact fun creds' h' => h.creds creds' (by rw [hw]; exact h')
    case tab =>
      intro call' h'
      cases h'
      exact h.tab call hb
    case settled => intro h'; cases h'
  | _ =>
    refine hkept _ ?_ ?_
    · cases retryable <;> simp [Client.World.attachFailed, attachFailureAction, hk]
    · cases retryable <;> simp [Client.World.attachFailed, attachFailureAction]

theorem opened_alike (hk : c.kind = .desktop) (h : Alike c p) {call : Call} {creds : Creds}
    (hb : p.browser.call = some call) (hshell : call.shellId = c.shell.bytes.toList) (hw : p.native.call = .reopening creds)
    {key message : _} (hphase : call.phase = .reopening key message) {shellId : ShellId} (token : ResumeToken)
    (hdesign : p.byDesign c (.answer (.opened shellId token)) = false) :
    Alike c (p.step S c (.answer (.opened shellId token))) := by
  obtain rfl : shellId = c.shell := by simpa [Both.byDesign] using hdesign
  have hs := h.creds creds (by rw [hw]; rfl)
  have hsaved := fun w hs =>
      h.saved hk w hs token (f := fun s => { s with id := c.shell.bytes.toList, token := token.bytes.toList })
    (fun _ _ => rfl) (fun s => ⟨rfl, rfl⟩)
  simp only [Both.step, App.reply, hb, hphase, App.openReply, replyOf, Client.World.step,
    Client.World.answered, hw, hshell, if_true]
  refine @alike_attaching V c _ _ { creds with token := token } true ?_ ?_ ?_ ?_ call.name
  · exact h.connected (by rw [hb]; rfl)
  · rfl
  · simp [Client.World.saveToken, hk, hs]
  · refine (hsaved p.native rfl).trans ?_
    simp [Client.World.saveToken, hk, hs]

theorem notOpened_alike (hk : c.kind = .desktop) (h : Alike c p) {call : Call} {creds : Creds}
    (hb : p.browser.call = some call) (hshell : call.shellId = c.shell.bytes.toList) (hw : p.native.call = .reopening creds)
    {key message : _} (hphase : call.phase = .reopening key message) (code : ErrorCode) (retryable : Bool) (refusal : String) :
    Alike c (p.step S c (.answer (.rejected code retryable refusal))) := by
  simp only [Both.step, App.reply, hb, hphase, App.openReply, replyOf, Client.World.step, Client.World.answered, hw]
  refine alike_ended h hb hshell ?_ ?_ _
  · simp [Client.World.recoveryFailed, hk]
  · simp [Client.World.recoveryFailed, hk]

theorem alike_step (hk : c.kind = .desktop) (h : Alike c p) {i : BothInput} (hi : p.Agreed c i) : Alike c (p.step S c i) := by
  obtain ⟨hfits, haside, hdesign⟩ := hi
  cases i with
  | start => exact start_alike h
  | lose => exact lose_alike hk h
  | presence a => exact presence_alike h hfits hdesign
  | answer a =>
    rcases h.calls with ⟨hb, hw⟩
      | ⟨call, hb, hshell, ⟨creds, recovered, hw, hphase⟩ | ⟨creds, key, message, hw | hw, hkey, hphase⟩⟩
    · simp [Both.fits, hw] at hfits
    · cases a with
      | attached token attachmentId => exact attached_alike hk h hb hshell hw hphase token attachmentId
      | rejected code retryable message => exact refused_alike hk h hb hshell hw hphase haside hdesign
      | listed | opened | done => simp [Both.fits, hw] at hfits
    · simp [Both.fits, hw] at hfits
    · cases a with
      | opened shellId token => exact opened_alike hk h hb hshell hw hphase token hdesign
      | rejected code retryable refusal => exact notOpened_alike hk h hb hshell hw hphase code retryable refusal
      | listed | attached | done => simp [Both.fits, hw] at hfits

/-! ## Runs -/

/-- Where the browser goes its own way: it opens without asking whether the shell runs, it
    keeps an entry whose token has expired and says so, and it takes the shell that the key
    opens, which the entry then names. -/
def Differs (c : NativeClient) (p q : Both V) : BothInput → Prop
  | .presence _ => q.browser = p.browser ∧ q.native.call = .idle
  | .answer (.rejected _ _ _) =>
    (q.native.store = none ∧ q.native.call = .idle) ∧
      q.browser.stored = p.browser.stored ∧ q.browser.call = none ∧ Told q.browser c.shell.bytes.toList
  | .answer (.opened other token) =>
    (q.native.store = p.native.store ∧ ∃ creds, q.native.call = .terminating creds other) ∧
      q.browser.stored = updateEntry c.shell.bytes.toList
        (fun s => { s with id := other.bytes.toList, token := token.bytes.toList }) p.browser.stored ∧
      ∃ name i, q.browser.call = some ⟨other.bytes.toList, name, i, .attaching token.bytes.toList⟩
  | _ => False

theorem differs_step (hk : c.kind = .desktop) (h : Alike c p) {i : BothInput} (hfits : p.fits i = true)
    (haside : p.aside i = false)
    (hdesign : p.byDesign c i = true) : Differs c p (p.step S c i) i := by
  cases i with
  | start | lose => simp [Both.byDesign] at hdesign
  | presence a =>
    have ha : a ≠ .listed true := by simpa [Both.byDesign] using hdesign
    rcases h.calls with ⟨hb, hw⟩ | ⟨call, hb, hshell, ⟨creds, recovered, hw, -⟩ | ⟨creds, key, message, hw | hw, -, -⟩⟩
    · simp [Both.fits, hw] at hfits
    · simp [Both.fits, hw] at hfits
    · refine ⟨rfl, ?_⟩
      cases a with
      | listed running =>
        obtain rfl : running = false := by simpa using ha
        simp [Both.step, Client.World.step, Client.World.answered, hw, Client.World.forgotten]
      | rejected => simp [Both.step, Client.World.step, Client.World.answered, hw, Client.World.recoveryFailed, hk]
      | opened | attached | done => simp [Both.fits, hw] at hfits
    · simp [Both.fits, hw] at hfits
  | answer a =>
    rcases h.calls with ⟨hb, hw⟩
      | ⟨call, hb, hshell, ⟨creds, recovered, hw, hphase⟩ | ⟨creds, key, message, hw | hw, hkey, hphase⟩⟩
    · simp [Both.fits, hw] at hfits
    · cases a with
      | rejected code retryable message =>
        simp only [Both.byDesign, hw, Bool.and_eq_true, decide_eq_true_eq, Option.isNone_iff_eq_none] at hdesign
        obtain ⟨rfl, hkey⟩ := hdesign
        obtain ⟨s, hentry, -, hidem⟩ := h.entry_of_store (h.creds creds (by rw [hw]; rfl))
        have hnone : (p.browser.entry call.shellId).bind (·.idem) = none := by
          rw [hshell, hentry, Option.bind_some, hidem, hkey]
          rfl
        have hended : p.browser.recoverExpired call message = p.browser.ended call (cannotReattach message ++ keptInList) := by
          unfold App.recoverExpired
          rw [hnone]
        simp only [Differs, Both.step, App.reply, hb, hphase, replyOf, App.attachReply, hended, Client.World.step,
          Client.World.answered, hw]
        refine ⟨?_, rfl, rfl, ended_told _ (h.tabOf hb hshell)⟩
        simp [Client.World.attachFailed, attachFailureAction, Client.World.haveKey, hkey, Client.World.forgotten]
      | attached | listed | opened | done => simp [Both.byDesign, Both.fits, hw] at hdesign hfits
    · simp [Both.fits, hw] at hfits
    · cases a with
      | opened other token =>
        have hother : other ≠ c.shell := by simpa [Both.byDesign] using hdesign
        have htransport : p.browser.transport = true := h.connected (by rw [hb]; rfl)
        simp only [Differs, Both.step, App.reply, hb, hphase, replyOf, App.openReply, Client.World.step,
          Client.World.answered, hw, if_neg hother, hshell]
        have hbegins : ∀ b : App, b.transport = true →
            (b.attachShell other.bytes.toList token.bytes.toList call.name).stored = b.stored ∧
            ∃ name i, (b.attachShell other.bytes.toList token.bytes.toList call.name).call =
              some ⟨other.bytes.toList, name, i, .attaching token.bytes.toList⟩ := by
          intro b hb
          obtain ⟨i, hcall, -, hstored, -⟩ := attachShell_call hb token.bytes.toList call.name
          exact ⟨hstored, call.name, i, hcall⟩
        exact ⟨⟨trivial, creds, rfl⟩, hbegins _ (by exact htransport)⟩
      | rejected code retryable message => simp [Both.byDesign, hw] at hdesign
      | attached | listed | done => simp [Both.byDesign] at hdesign

/-- After any sequence of attaches, answers and lost connections on which the two are to
    agree they have the same entry and wait for the same, and what is over is attached again
    or the user knows. On the other answers, a replayed token and a second expiry apart, the
    browser does what `Differs` says. -/
theorem same_policy (S : Server V) (hk : c.kind = .desktop) (h : Alike c p) (is : List BothInput)
    (hok : (Both.machine S c).Admissible (fun p i => p.Agreed c i) p is) :
    Alike c ((Both.machine S c).run p is) ∧
    ∀ i, ((Both.machine S c).run p is).fits i = true → ((Both.machine S c).run p is).aside i = false →
      ((Both.machine S c).run p is).byDesign c i = true →
      Differs c ((Both.machine S c).run p is) ((Both.machine S c).next ((Both.machine S c).run p is) i) i := by
  have hend : Alike c ((Both.machine S c).run p is) :=
    (Both.machine S c).run_induction (P := Alike c) (fun _ _ h hi => alike_step hk h hi) h hok
  exact ⟨hend, fun i hfits haside hdesign => differs_step hk hend hfits haside hdesign⟩

end

/-! ## An entry that has just been stored -/

def storedOf (c : NativeClient) (creds : Creds) : StoredShell :=
  ⟨c.shell.bytes.toList, creds.token.bytes.toList, "shell 1", creds.idempotencyKey.map (·.toList)⟩

/-- Neither client is connected. -/
def Both.stored {V : Type} (S : Server V) (c : NativeClient) (creds : Creds) : Both V :=
  ⟨⟨false, [storedOf c creds], [], none⟩, Client.World.init S [] creds⟩

theorem alike_stored {V : Type} (S : Server V) (c : NativeClient) (creds : Creds) : Alike c (Both.stored S c creds) := by
  refine alike_over rfl rfl ?_ (.inl ⟨_, List.mem_singleton_self _, rfl⟩)
  simp [Client.World.init, App.entry, storedOf, storedCreds, credsBytes]

def expired : BothInput := .answer (.rejected .errTokenExpired false "invalid resume token")

def withoutKey : Both Terminal.Text :=
  (Both.stored Server.sample (Client.World.sampleClient .desktop "ada") ⟨.repeated 1, none⟩).step
    Server.sample (Client.World.sampleClient .desktop "ada") .start

/-- Without a key, an expired token makes the native client forget the entry; the browser
    keeps it. -/
theorem expired_keeps :
    Alike (Client.World.sampleClient .desktop "ada") withoutKey ∧ withoutKey.fits expired = true ∧
      ¬Alike (Client.World.sampleClient .desktop "ada")
      (withoutKey.step Server.sample (Client.World.sampleClient .desktop "ada") expired) := by
  refine ⟨start_alike (alike_stored ..), by decide, fun h => ?_⟩
  have hentry := h.entry
  revert hentry
  decide

/-- A token that expired, with a key, and a shell that runs. -/
theorem same_policy_recovered :
    let c := Client.World.sampleClient .desktop "ada"
    let M := Both.machine Server.sample c
    let p := Both.stored Server.sample c ⟨.repeated 1, some (Vector.replicate 16 9)⟩
    let is := [.start, expired, .presence (.listed true), .answer (.opened c.shell (.repeated 2))]
    Alike c (M.run p is) ∧ ∀ i, (M.run p is).fits i = true → (M.run p is).aside i = false → (M.run p is).byDesign c i = true →
      Differs c (M.run p is) (M.next (M.run p is) i) i :=
  same_policy Server.sample rfl (alike_stored ..) _
    ⟨⟨by decide, by decide, by decide⟩, ⟨by decide, by decide, by decide⟩, ⟨by decide, by decide, by decide⟩,
      ⟨by decide, by decide, by decide⟩, trivial⟩

end Holdfast.Web

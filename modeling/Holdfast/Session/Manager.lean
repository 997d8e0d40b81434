/-
  Holdfast.Session.Manager — the shell manager (`ShellManager` of
  `crates/session-core/src/lib.rs`) as a machine.

  An input (`Op`) is one critical section: a whole call, or one of the sections of a call
  that lets go of the lock in between. `terminate` is two (`terminate` up to its condition
  wait, `terminateWake` when the wait ends); `reap_idle` is a scan, a re-check of each
  candidate and a `terminate` of it; the pump is one section a chunk and one at EOF; a
  receiver takes its events one at a time. So a list of inputs is any interleaving of any
  number of calls and threads, and a sequence of whole calls is one of these lists.

  `open_shell` holds the manager lock throughout. It reads the other shells' states one
  after the other while they may exit: a state only ever moves towards `exited`, so a
  refusal is one the count at the start of the scan justifies and an accepted open one
  the count at its end does; the model takes the scan as one instant.

  `retired` holds the entries that `remove_exited` took out of the map and that a waiting
  `terminate` or a receiver may still hold.
-/

import Holdfast.Base.Machine
import Holdfast.Base.Table
import Holdfast.Session.Runtime

namespace Holdfast.Session

open Holdfast.Base Holdfast.Terminal

/-! ## Data -/

structure ShellEntry (V : Type) where
  id : ShellId
  createdAtMs : Int
  owner : String
  account : Option String
  runtime : Runtime V
  /-- The pump thread has not reached EOF yet. -/
  pumping : Bool

structure Manager (V : Type) where
  shells : Table ShellId (ShellEntry V)
  idempotency : Table (String × IdempotencyKey) ShellId
  retired : Table ShellId (ShellEntry V)

structure OpenShellRequest where
  user : String
  requestedAccount : Option String
  command : Option String
  args : List String
  cols : UInt16
  rows : UInt16
  idempotencyKey : IdempotencyKey
  deriving DecidableEq, Repr

structure OpenedShell where
  shellId : ShellId
  resumeToken : ResumeToken
  reused : Bool
  deriving DecidableEq, Repr

/-- Why a launch failed: the spawner refused, or its master could not be adopted; or the
    launch could not be built, or not started. -/
inductive LaunchFailure where
  | spawnerForbidden (msg : String)
  | spawner (msg : String)
  | adopt (e : PtyError)
  | launchForbidden
  | launchInternal (msg : String)
  | spawn (e : PtyError)
  deriving DecidableEq, Repr

/-- `From<SpawnError>`, `From<LaunchError>` and `From<PtyError>` for `SessionError`. -/
def LaunchFailure.toSessionError : LaunchFailure → SessionError
  | .spawnerForbidden _ => .forbidden
  | .spawner msg => .internal msg
  | .adopt e => .pty e
  | .launchForbidden => .forbidden
  | .launchInternal msg => .internal msg
  | .spawn e => .pty e

/-- What the outside answers during `open_shell`. -/
structure OpenEnv where
  launch : Except LaunchFailure Unit
  pump : Except String Unit
  token : ResumeToken
  shellId : ShellId
  now : Int

structure ShellInfo where
  shellId : ShellId
  state : ShellState
  exit : Option ExitSummary
  createdAtMs : Int
  lastAttachedAtMs : Int
  attachmentCount : Nat
  owner : String
  account : Option String
  deriving DecidableEq, Repr

inductive Op where
  | openShell (req : OpenShellRequest) (env : OpenEnv)
  | attach (owner : String) (id : ShellId) (token : ResumeToken) (cols rows : UInt16) (env : Runtime.AttachEnv)
  | attachAuthorized (owner : String) (id : ShellId) (cols rows : UInt16) (env : Runtime.AttachEnv)
  | detach (id : ShellId) (attachmentId : Nat)
  | writeInput (id : ShellId) (data : List UInt8) (env : Runtime.WriteEnv)
  | resize (id : ShellId) (cols rows : UInt16) (outcome : Except PtyError Unit)
  | terminate (id : ShellId) (kill : Except PtyError Unit)
  | terminateWake (id : ShellId)
  | reapScan (cutoff : Int)
  | reapRecheck (id : ShellId) (cutoff : Int)
  | removeExited (id : ShellId)
  | pumpChunk (id : ShellId) (chunk : List UInt8)
  | pumpEof (id : ShellId) (wait : Except PtyError ExitSummary)
  | recv (id : ShellId) (attachmentId : Nat)
  | dropReceiver (id : ShellId) (attachmentId : Nat)

inductive Res where
  | opened (o : OpenedShell)
  | attached (a : Attachment)
  | done
  | exit (e : ExitSummary)
  /-- `terminate` blocks on the condition variable. -/
  | waiting
  | candidates (ids : List ShellId)
  | expired (b : Bool)
  | event (e : Option AttachmentEvent)
  /-- The thread this section belongs to has ended. -/
  | idle
  | err (e : SessionError)
  deriving DecidableEq, Repr

def Res.ofAttach : Except SessionError Attachment → Res
  | .ok a => .attached a
  | .error e => .err e

def Res.ofUnit : Except SessionError Unit → Res
  | .ok () => .done
  | .error e => .err e

def Res.ofExit : Except SessionError ExitSummary → Res
  | .ok e => .exit e
  | .error e => .err e

namespace Manager

variable {V : Type} (S : Server V)

def empty : Manager V := ⟨∅, ∅, ∅⟩

def setRuntime (t : Table ShellId (ShellEntry V)) (id : ShellId) (rt : Runtime V) : Table ShellId (ShellEntry V) :=
  t.adjust id fun e => { e with runtime := rt }

/-- `entry(shell_id)?`, then a section under its runtime lock. -/
def withEntry (m : Manager V) (id : ShellId) (f : ShellEntry V → Runtime V × Res) : Manager V × Res :=
  match m.shells.lookup id with
  | none => (m, .err .shellNotFound)
  | some e => ({ m with shells := setRuntime m.shells id (f e).1 }, (f e).2)

/-- A section of a thread that already holds the entry, whether or not it still is in
    the map. -/
def withHeld (m : Manager V) (id : ShellId) (f : ShellEntry V → ShellEntry V × Res) : Manager V × Res :=
  match m.shells.lookup id with
  | some e => ({ m with shells := m.shells.adjust id fun _ => (f e).1 }, (f e).2)
  | none =>
    match m.retired.lookup id with
    | some e => ({ m with retired := m.retired.adjust id fun _ => (f e).1 }, (f e).2)
    | none => (m, .idle)

/-! ## Opening -/

def isLive (e : ShellEntry V) : Bool := e.runtime.state != .exited

def isLiveOf (user : String) (e : ShellEntry V) : Bool := isLive e && e.owner == user

def liveShells (m : Manager V) : Nat := Table.count isLive m.shells

def liveShellsOf (m : Manager V) (user : String) : Nat := Table.count (isLiveOf user) m.shells

def newRuntime (req : OpenShellRequest) (env : OpenEnv) : Runtime V :=
  let (cols, rows) := clampDims (if req.cols = 0 then 80 else req.cols) (if req.rows = 0 then 24 else req.rows)
  { state := .running
    model := .new S.avt ⟨cols, rows, S.config.scrollbackMaxLines, S.config.scrollbackMaxBytes⟩
    pty := some ⟨cols, rows, []⟩
    attachments := ∅
    nextAttachmentId := 1
    tokenHash := S.sha256 env.token
    supersededTokenHashes := []
    exit := none
    lastAttachedAtMs := 0
    channels := fun _ => .new S.config.maxQueuedChunks }

def newEntry (req : OpenShellRequest) (account : Option String) (env : OpenEnv) : ShellEntry V :=
  { id := env.shellId
    createdAtMs := env.now
    owner := req.user
    account := account
    runtime := newRuntime S req env
    pumping := true }

/-- The shell an earlier open with this user and key made, if it is still there. -/
def reusable (m : Manager V) (req : OpenShellRequest) : Option (ShellId × ShellEntry V) :=
  (m.idempotency.lookup (req.user, req.idempotencyKey)).bind fun existing =>
    (m.shells.lookup existing).map fun entry => (existing, entry)

/-- `open_shell` once the key is known to be new. -/
def openFresh (m : Manager V) (req : OpenShellRequest) (env : OpenEnv) : Manager V × Res :=
  match S.policy req.user req.requestedAccount with
  | none => (m, .err .forbidden)
  | some account =>
    if m.liveShells ≥ S.config.maxShells then (m, .err (.limitExceeded "max_shells"))
    else if S.config.maxShellsPerUser > 0 ∧ m.liveShellsOf req.user ≥ S.config.maxShellsPerUser then
      (m, .err (.limitExceeded "max_shells_per_user"))
    else
      match env.launch with
      | .error e => (m, .err e.toSessionError)
      | .ok () =>
        match env.pump with
        | .error e => (m, .err (.internal ("spawn pump thread: " ++ e)))
        | .ok () =>
          ({ m with
              shells := m.shells.insert env.shellId (newEntry S req account env)
              idempotency := m.idempotency.insert (req.user, req.idempotencyKey) env.shellId },
            .opened ⟨env.shellId, env.token, false⟩)

def openShell (m : Manager V) (req : OpenShellRequest) (env : OpenEnv) : Manager V × Res :=
  match m.reusable req with
  | some (existing, entry) =>
    ({ m with shells := setRuntime m.shells existing (entry.runtime.rotateToken S env.token) },
      .opened ⟨entry.id, env.token, true⟩)
  | none => m.openFresh S req env

/-! ## The other calls -/

def attach (m : Manager V) (owner : String) (id : ShellId) (token : ResumeToken) (cols rows : UInt16)
    (env : Runtime.AttachEnv) : Manager V × Res :=
  m.withEntry id fun e =>
    if e.owner ≠ owner then (e.runtime, .err .shellNotFound)
    else
      let r := e.runtime.attachWithToken S id token cols rows env
      (r.1, .ofAttach r.2)

def attachAuthorized (m : Manager V) (owner : String) (id : ShellId) (cols rows : UInt16)
    (env : Runtime.AttachEnv) : Manager V × Res :=
  m.withEntry id fun e =>
    if e.owner ≠ owner then (e.runtime, .err .shellNotFound)
    else
      let r := Runtime.attachRuntime S id e.runtime cols rows env
      (r.1, .ofAttach r.2)

/-- Never-attached shells idle from creation. -/
def idleAnchorMs (e : ShellEntry V) : Int :=
  if e.runtime.lastAttachedAtMs > 0 then e.runtime.lastAttachedAtMs else e.createdAtMs

def expired (cutoff : Int) (e : ShellEntry V) : Bool :=
  decide (e.runtime.state = .running ∧ e.runtime.attachments = ∅ ∧ idleAnchorMs e ≤ cutoff)

/-- `now_ms().saturating_sub(idle_ttl.as_millis() as i64)`: the cast wraps, the
    subtraction saturates. -/
def reapCutoff (now : Int) (idleTtlMs : Nat) : Int :=
  max (-(2 ^ 63)) (min (2 ^ 63 - 1) (now - Int.bmod idleTtlMs (2 ^ 64)))

def removeExited (m : Manager V) (id : ShellId) : Manager V × Res :=
  match m.shells.lookup id with
  | none => (m, .err .shellNotFound)
  | some e =>
    if e.runtime.state ≠ .exited then (m, .err .notRunning)
    else
      ({ shells := m.shells.erase id
         idempotency := m.idempotency.retain fun _ i => i != id
         retired := m.retired.insert id e }, .done)

def infoOf (e : ShellEntry V) : ShellInfo :=
  ⟨e.id, e.runtime.state, e.runtime.exit, e.createdAtMs, e.runtime.lastAttachedAtMs, e.runtime.attachments.card,
    e.owner, e.account⟩

def shellInfo (m : Manager V) (id : ShellId) : Except SessionError ShellInfo :=
  match m.shells.lookup id with
  | none => .error .shellNotFound
  | some e => .ok (infoOf e)

def listShells (m : Manager V) : List ShellInfo :=
  (m.shells.values.map infoOf).mergeSort fun a b => decide (a.createdAtMs ≤ b.createdAtMs)

def history (m : Manager V) (id : ShellId) (beforeLineId maximumLines maximumBytes : Nat) :
    Except SessionError HistoryRange :=
  match m.shells.lookup id with
  | none => .error .shellNotFound
  | some e => .ok (e.runtime.model.historyRange beforeLineId maximumLines maximumBytes)

/-! ## The machine -/

def step (m : Manager V) : Op → Manager V × Res
  | .openShell req env => m.openShell S req env
  | .attach owner id token cols rows env => m.attach S owner id token cols rows env
  | .attachAuthorized owner id cols rows env => m.attachAuthorized S owner id cols rows env
  | .detach id attachmentId => m.withEntry id fun e => (e.runtime.detach attachmentId, .done)
  | .writeInput id data env =>
    m.withEntry id fun e => let r := e.runtime.writeInput data env; (r.1, .ofUnit r.2)
  | .resize id cols rows outcome =>
    if cols = 0 ∨ rows = 0 then (m, .done)
    else m.withEntry id fun e => let r := e.runtime.resize S cols rows outcome; (r.1, .ofUnit r.2)
  | .terminate id kill =>
    m.withEntry id fun e => let r := e.runtime.terminate kill; (r.1, (r.2.map Res.ofExit).getD .waiting)
  | .terminateWake id =>
    m.withHeld id fun e => let r := e.runtime.terminateWake; ({ e with runtime := r.1 }, .ofExit r.2)
  | .reapScan cutoff => (m, .candidates ((m.shells.values.filter (expired cutoff)).map (·.id)))
  | .reapRecheck id cutoff => m.withHeld id fun e => (e, .expired (expired cutoff e))
  | .removeExited id => m.removeExited id
  | .pumpChunk id chunk =>
    m.withHeld id fun e =>
      if e.pumping then ({ e with runtime := e.runtime.pumpChunk S chunk }, .done) else (e, .idle)
  | .pumpEof id wait =>
    m.withHeld id fun e =>
      if e.pumping then ({ e with runtime := e.runtime.pumpEof wait, pumping := false }, .done) else (e, .idle)
  | .recv id attachmentId =>
    m.withHeld id fun e => let r := e.runtime.recv attachmentId; ({ e with runtime := r.1 }, .event r.2)
  | .dropReceiver id attachmentId =>
    m.withHeld id fun e => ({ e with runtime := e.runtime.dropReceiver attachmentId }, .done)

def machine : Machine (Manager V) Op Res := ⟨fun m op => m.step S op⟩

/-- `rand::random` does not repeat a shell id: a new shell's id names no entry. -/
def freshId (m : Manager V) (op : Op) : Bool :=
  match (m.step S op).2 with
  | .opened o => o.reused || ((m.shells.lookup o.shellId).isNone && (m.retired.lookup o.shellId).isNone)
  | _ => true

abbrev FreshId (m : Manager V) (op : Op) : Prop := freshId S m op = true

theorem FreshId.new {S : Server V} {m : Manager V} {op : Op} (h : FreshId S m op) {id : ShellId} {token : ResumeToken}
    (ho : (m.step S op).2 = .opened ⟨id, token, false⟩) : m.shells.lookup id = none ∧ m.retired.lookup id = none := by
  simpa [FreshId, freshId, ho] using h

end Manager

/-! ## A server to try it on -/

/-- A token of one repeated byte. -/
def ResumeToken.repeated (b : UInt8) : ResumeToken := ⟨Vector.replicate 32 b⟩

/-- SHA-256 of the tokens of one repeated byte up to 4. -/
def sampleDigest (t : ResumeToken) : TokenHash :=
  if t = .repeated 1 then
    #v[114, 205, 110, 132, 34, 196, 7, 251, 109, 9, 134, 144, 241, 19, 11, 125,
        237, 126, 194, 247, 245, 225, 211, 11, 217, 213, 33, 240, 21, 54, 55, 147]
  else if t = .repeated 2 then
    #v[117, 135, 123, 180, 29, 57, 59, 95, 184, 69, 92, 230, 14, 205, 141, 218,
        0, 29, 6, 49, 100, 150, 177, 77, 250, 127, 137, 86, 86, 238, 202, 74]
  else if t = .repeated 3 then
    #v[100, 138, 165, 197, 121, 251, 48, 243, 138, 247, 68, 217, 125, 110, 200, 64,
        199, 169, 18, 119, 164, 153, 160, 215, 128, 243, 231, 49, 78, 202, 9, 11]
  else if t = .repeated 4 then
    #v[159, 79, 182, 143, 62, 29, 172, 130, 32, 47, 154, 165, 129, 206, 11, 191,
        31, 118, 93, 240, 233, 172, 60, 140, 87, 226, 15, 104, 90, 186, 184, 237]
  else Vector.replicate 32 0

def Server.sample : Server Text := ⟨.default, allowAll, .recorder, sampleDigest⟩

def sampleShell : ShellId := ⟨Vector.replicate 16 7⟩

def sampleRequest (user : String) : OpenShellRequest := ⟨user, none, none, [], 80, 24, Vector.replicate 16 9⟩

def sampleOpen (user : String) (token : UInt8) (id : ShellId) : Op :=
  .openShell (sampleRequest user) ⟨.ok (), .ok (), .repeated token, id, 1000⟩

end Holdfast.Session

/-
  Holdfast.Client.Journal — the journal of shells being opened, against the session
  manager (`resolve_pending_opens`, `handle_cmd`, `attach_with_recovery` and `recover_token`
  of `crates/client-core/src/server.rs`, the pumps of `crates/client-core/src/shell.rs`,
  `crates/client-core/src/store.rs`).

  A client writes an idempotency key down before it sends it, and takes it off when the
  open is over. After a connect it opens again with every key still written down. The
  request, the server's work and its answer are different moments: the connection may be
  lost, or the client may crash, between any two, and a request that was left behind may
  be served later.

  Every failed open takes its key off, also one that failed because the connection went:
  a server's refusal and a lost answer are the same `Err`.

  What an open stored is removed again when the user terminates the shell or has it
  forgotten, when an attach finds it gone or its token refused for good, when a recovery
  does not find it running, and when a `ShellExited` comes. The supervisor awaits one
  request at a time: an open (`call`), or what stands in `ask`.

  Proved here, of the opens; of the removals and of whole runs in `Remembers`:
  - `unhex_hex`: keys are written down without loss.
  - `inv_serve`, `inv_receive` and so on: what a step keeps, while each failed open is a
    refusal (`refusesOnly`).
-/

import Holdfast.Base.HexText
import Holdfast.Client.Recovery
import Holdfast.Protocol.Ids
import Holdfast.Session.Idempotency

namespace Holdfast.Client

open Holdfast.Base Holdfast.Session Holdfast.Daemon

open HexText (hexDigit hexByte hexValue hexValue_hexDigit)

/-! ## Keys as text -/

def hex (bytes : List UInt8) : String := String.ofList (bytes.flatMap hexByte)

/-- `u8::from_str_radix` of two characters of one byte, which takes a sign. -/
def fromStrRadix (a b : Char) : Option UInt8 :=
  if a = '+' then (hexValue b).map UInt8.ofNat
  else (hexValue a).bind fun high => (hexValue b).map fun low => UInt8.ofNat (high * 16 + low)

def unhexChars : List Char → Option (List UInt8)
  | [] => some []
  | [_] => none
  | a :: b :: rest => (fromStrRadix a b).bind fun byte => (unhexChars rest).map (byte :: ·)

/-- What `unhex` returns, where it does (`Client.Unhex`). -/
def unhex (text : String) : Option (List UInt8) := unhexChars text.toList

theorem fromStrRadix_hexByte (b : UInt8) :
    fromStrRadix (hexDigit (b.toNat / 16)) (hexDigit (b.toNat % 16)) = some b := by
  have hlt := b.toNat_lt
  have hhigh := hexValue_hexDigit (n := b.toNat / 16) (by omega)
  have hlow := hexValue_hexDigit (n := b.toNat % 16) (by omega)
  have hsign : hexDigit (b.toNat / 16) ≠ '+' := fun h => by
    rw [h] at hhigh
    cases hhigh
  rw [fromStrRadix, if_neg hsign, hhigh, hlow]
  show some (UInt8.ofNat (b.toNat / 16 * 16 + b.toNat % 16)) = some b
  rw [Nat.div_add_mod', UInt8.ofNat_toNat]

theorem unhex_hex (bytes : List UInt8) : unhex (hex bytes) = some bytes := by
  rw [unhex, hex, String.toList_ofList]
  induction bytes with
  | nil => rfl
  | cons b bytes ih =>
    show (fromStrRadix (hexDigit (b.toNat / 16)) (hexDigit (b.toNat % 16))).bind
      (fun byte => (unhexChars (bytes.flatMap hexByte)).map (byte :: ·)) = _
    rw [fromStrRadix_hexByte, Option.bind_some, ih]
    rfl

theorem hex_inj {a b : List UInt8} (h : hex a = hex b) : a = b := by
  have := unhex_hex a
  rw [h, unhex_hex] at this
  exact (Option.some.inj this).symm

/-! ## The store -/

structure PendingOpen where
  idempotencyKey : String
  name : String
  deriving DecidableEq, Repr

structure ShellRecord where
  token : ResumeToken
  idempotencyKey : Option String
  name : String
  lastAttachedAtMs : Int
  deriving DecidableEq, Repr

/-- What is stored of a server, as far as opens touch it. -/
structure ServerRecord where
  shells : Table String ShellRecord
  pendingOpens : List PendingOpen

namespace ServerRecord

/-- `mutate_server`: nothing changes when the file cannot be saved. -/
def mutate (r : ServerRecord) (saved : Bool) (f : ServerRecord → ServerRecord) : ServerRecord := if saved then f r else r

def pushPendingOpen (r : ServerRecord) (keyHex name : String) : ServerRecord :=
  { r with pendingOpens := r.pendingOpens ++ [⟨keyHex, name⟩] }

def dropPendingOpen (r : ServerRecord) (keyHex : String) : ServerRecord :=
  { r with pendingOpens := r.pendingOpens.filter fun p => p.idempotencyKey != keyHex }

def resolvePendingOpen (r : ServerRecord) (keyHex shellHex : String) (token : ResumeToken) (now : Int) : ServerRecord :=
  let name := ((r.pendingOpens.find? fun p => p.idempotencyKey == keyHex).map (·.name)).getD "shell"
  { shells := r.shells.insert shellHex ⟨token, some keyHex, name, now⟩
    pendingOpens := r.pendingOpens.filter fun p => p.idempotencyKey != keyHex }

def updateToken (r : ServerRecord) (shellHex : String) (token : ResumeToken) (now : Int) : ServerRecord :=
  { r with shells := r.shells.adjust shellHex fun s => { s with token := token, lastAttachedAtMs := now } }

def removeShell (r : ServerRecord) (shellHex : String) : ServerRecord := { r with shells := r.shells.erase shellHex }

end ServerRecord

/-! ## A client and the server -/

/-- `attach_with_recovery` of a stored shell: its text, its id and the recovery key. -/
structure AttachCall where
  shellHex : String
  id : ShellId
  key : Option IdempotencyKey
  cols : UInt16
  rows : UInt16
  deriving DecidableEq, Repr

/-- What an open is for: a key that is written down, or the recovery of a stored shell. -/
inductive OpenPurpose where
  | journaled (keyHex : String)
  | recovering (a : AttachCall)
  deriving DecidableEq, Repr

structure OpenCall where
  key : IdempotencyKey
  purpose : OpenPurpose
  cols : UInt16
  rows : UInt16
  deriving DecidableEq, Repr

def OpenCall.recovers (r : OpenCall) : Bool :=
  match r.purpose with
  | .journaled _ => false
  | .recovering _ => true

/-- What else the supervisor awaits. -/
inductive Ask where
  | attaching (a : AttachCall) (token : ResumeToken) (recovered : Bool)
  /-- The presence check of `recover_token`. -/
  | listing (a : AttachCall) (key : IdempotencyKey)
  /-- The user's terminate of `shellHex`, or (`none`) that of the shell a recovery opened
      instead. `waits`: the server waits for the exit. -/
  | terminating (shellHex : Option String) (id : ShellId) (waits : Bool)
  deriving DecidableEq, Repr

/-- The shell it is about. -/
def Ask.id : Ask → ShellId
  | .attaching a _ _ => a.id
  | .listing a _ => a.id
  | .terminating _ id _ => id

/-- It goes over the control channel. -/
def Ask.control : Ask → Bool
  | .attaching .. => false
  | _ => true

/-- The supervisor's task. -/
inductive Supervisor where
  /-- The client is not running. -/
  | down
  | connecting
  /-- `resolve_pending_opens`, with the keys still to come. -/
  | resolving (rest : List PendingOpen)
  | serving
  deriving DecidableEq, Repr

structure JournalWorld (V : Type) where
  server : Manager V
  store : ServerRecord
  supervisor : Supervisor
  /-- The control channel's actor is there. -/
  control : Bool
  /-- The open being awaited. -/
  call : Option OpenCall
  /-- The answer to it, on its way. -/
  answer : Option Answer
  /-- The other request being awaited, and the answer to it. -/
  ask : Option Ask
  reply : Option Answer
  /-- The attachments whose frames the client reads, and the `ShellExited` on their way. -/
  mine : List (String × ShellId × Nat)
  notices : List String
  /-- Opens of earlier connections that the server may still get. -/
  stale : List OpenCall
  sent : List IdempotencyKey
  /-- The shells the client was answered with, and the keys that were refused. -/
  opened : List (IdempotencyKey × ShellId)
  refused : List IdempotencyKey
  /-- The shells the server made for these keys. -/
  made : List (IdempotencyKey × ShellId)
  /-- The shells whose entries were removed, and those the user had forgotten. -/
  removed : List ShellId
  forgotten : List ShellId

inductive JournalInput where
  /-- Another party's operation on the server. -/
  | others (op : Op)
  | launch
  | crash
  | connect
  /-- `resolve_pending_opens` goes on to the next key. `saved`, here and below: whether the
      file is saved where the step drops or resolves a key. -/
  | resolveNext (saved : Bool)
  /-- The shells are listed after it, or not. -/
  | settled (listed : Bool)
  /-- A `ServerCmd::Open` with the key it draws. -/
  | openShell (key : IdempotencyKey) (name : String) (cols rows : UInt16) (pushed saved : Bool)
  | attach (shellHex : String) (cols rows : UInt16)
  | terminate (shellHex : String)
  /-- The server takes the request that is no open. -/
  | serveAsk (env : Runtime.AttachEnv) (kill : Except PtyError Unit)
  /-- The connection refuses it before it gets to the manager. -/
  | refuseAsk (code : ErrorCode) (retryable : Bool) (message : String)
  | receiveAsk (saved : Bool) (now : Int)
  /-- The channel of an attach fails. -/
  | failAsk
  /-- The server forwards the next event of an attachment. -/
  | forward (j : Nat)
  /-- The pump of an attachment reads a `ShellExited`. -/
  | notice (j : Nat) (saved : Bool)
  /-- `Core::forget_shell`. -/
  | forget (shellHex : String) (saved : Bool)
  | serve (env : OpenEnv)
  | serveStale (i : Nat) (env : OpenEnv)
  /-- An open of an earlier connection is lost for good. -/
  | vanish (i : Nat)
  /-- The connection refuses the open before it gets to the manager. -/
  | refuse (code : ErrorCode) (retryable : Bool) (message : String)
  | receive (saved : Bool) (now : Int)
  /-- The control channel ends. -/
  | lose (saved : Bool)
  | reconnect

namespace JournalWorld

variable {V : Type} (S : Server V) (user : String)

/-- A server that was run before, and a client that is new. -/
def init (before : List Op) : JournalWorld V :=
  ⟨(Manager.machine S).run .empty before, ⟨∅, []⟩, .down, false, none, none, none, none, [], [], [], [], [], [], [], [], []⟩

def opOf (r : OpenCall) (env : OpenEnv) : Op := .openShell ⟨user, none, none, [], r.cols, r.rows, r.key⟩ env

/-- The `Err` of an open. -/
def failed (w : JournalWorld V) (r : OpenCall) (saved : Bool) : JournalWorld V :=
  match r.purpose with
  | .journaled keyHex => { w with call := none, store := w.store.mutate saved (·.dropPendingOpen keyHex) }
  | .recovering _ => { w with call := none }

/-- `control.open_shell`: an actor that is gone takes no request. -/
def request (w : JournalWorld V) (r : OpenCall) (saved : Bool) : JournalWorld V :=
  if w.control then { w with call := some r, answer := none, sent := w.sent ++ [r.key] } else w.failed r saved

def keyOfBytes (bytes : List UInt8) : Option IdempotencyKey := Protocol.fromWire bytes

def resolveNext (w : JournalWorld V) (saved : Bool) : JournalWorld V :=
  match w.supervisor, w.call with
  | .resolving (p :: rest), none =>
    let w := { w with supervisor := .resolving rest }
    match (unhex p.idempotencyKey).bind keyOfBytes with
    | none => { w with store := w.store.mutate saved (·.dropPendingOpen p.idempotencyKey) }
    | some key => w.request ⟨key, .journaled p.idempotencyKey, 0, 0⟩ saved
  | _, _ => w

def openShell (w : JournalWorld V) (key : IdempotencyKey) (name : String) (cols rows : UInt16) (pushed saved : Bool) :
    JournalWorld V :=
  match w.supervisor, w.call, w.ask with
  | .serving, none, none =>
    if pushed = false then w
    else
      let keyHex := hex key.toList
      { w with store := w.store.pushPendingOpen keyHex name }.request ⟨key, .journaled keyHex, cols, rows⟩ saved
  | _, _, _ => w

def shellIdOf (shellHex : String) : Option ShellId := (unhex shellHex).bind ShellId.fromWire

/-- The id of an entry. -/
def entryId (w : JournalWorld V) (shellHex : String) : Option ShellId :=
  (w.store.shells.lookup shellHex).bind fun _ => shellIdOf shellHex

/-- `remove_shell`. -/
def removeShell (w : JournalWorld V) (saved : Bool) (shellHex : String) : JournalWorld V :=
  { w with
    store := w.store.mutate saved (·.removeShell shellHex)
    removed := w.removed ++ if saved then (w.entryId shellHex).toList else [] }

/-- A text that is no id is an error at once or, of another length, the server's. -/
def attach (w : JournalWorld V) (shellHex : String) (cols rows : UInt16) : JournalWorld V :=
  match w.supervisor, w.call, w.ask with
  | .serving, none, none =>
    match w.store.shells.lookup shellHex, shellIdOf shellHex with
    | some record, some id =>
      let key := (record.idempotencyKey.bind unhex).bind keyOfBytes
      { w with ask := some (.attaching ⟨shellHex, id, key, cols, rows⟩ record.token false), reply := none }
    | _, _ => w
  | _, _, _ => w

/-- A request over the control channel, if its actor is there. -/
def demand (w : JournalWorld V) (a : Ask) : JournalWorld V := if w.control then { w with ask := some a, reply := none } else w

def terminate (w : JournalWorld V) (shellHex : String) : JournalWorld V :=
  match w.supervisor, w.call, w.ask with
  | .serving, none, none =>
    match shellIdOf shellHex with
    | some id => w.demand (.terminating (some shellHex) id false)
    | none => w
  | _, _, _ => w

/-- A terminate is for the owner of the shell only. -/
def serveAsk (w : JournalWorld V) (env : Runtime.AttachEnv) (kill : Except PtyError Unit) : JournalWorld V :=
  match w.ask, w.reply with
  | some (.attaching a token _), none =>
    let r := w.server.step S (.attach user a.id token a.cols a.rows env)
    { w with server := r.1, reply := some (answerOf r.2) }
  | some (.listing a _), none => { w with reply := some (.listed (w.server.runs user a.id)) }
  | some (.terminating h id waits), none =>
    if waits = false ∧ ¬(w.server.shells.lookup id).any (·.owner = user) then
      { w with reply := some (answerOf (.err .shellNotFound)) }
    else
      let r := w.server.step S (if waits then .terminateWake id else .terminate id kill)
      match r.2 with
      | .exit _ => { w with server := r.1, reply := some .done }
      | .err e => { w with server := r.1, reply := some (answerOf (.err e)) }
      | _ => { w with server := r.1, ask := some (.terminating h id true) }
  | _, _ => w

def attachRejected (w : JournalWorld V) (a : AttachCall) (recovered : Bool) (error : AttachError) (saved : Bool) :
    JournalWorld V :=
  match attachFailureAction error (a.key.isSome && !recovered), a.key with
  | .forgetAndExit, _ => w.removeShell saved a.shellHex
  | .recoverViaIdempotency, some key => w.demand (.listing a key)
  | _, _ => w

def answered (w : JournalWorld V) (saved : Bool) (now : Int) : Ask → Answer → JournalWorld V
  | .attaching a _ _, .attached token i =>
    { w with
      store := w.store.mutate saved (·.updateToken a.shellHex token now)
      mine := w.mine ++ [(a.shellHex, a.id, i)] }
  | .attaching a _ recovered, .rejected code retryable message =>
    w.attachRejected a recovered (.rejected code retryable message) saved
  | .listing a key, .listed running =>
    if running then w.request ⟨key, .recovering a, 0, 0⟩ saved else w.removeShell saved (hex a.id.bytes.toList)
  | .terminating (some shellHex) _ _, .done => w.removeShell saved shellHex
  | _, _ => w

def receiveAsk (w : JournalWorld V) (saved : Bool) (now : Int) : JournalWorld V :=
  match w.ask, w.reply with
  | some a, some reply => { w with ask := none, reply := none }.answered saved now a reply
  | _, _ => w

def dropAsk (w : JournalWorld V) (lost : Ask → Bool) : JournalWorld V :=
  if w.ask.any lost then { w with ask := none, reply := none } else w

def forward (w : JournalWorld V) (j : Nat) : JournalWorld V :=
  match w.mine[j]? with
  | some (shellHex, id, i) =>
    let r := w.server.step S (.recv id i)
    match r.2 with
    | .event (some (.exited _)) => { w with server := r.1, notices := w.notices ++ [shellHex] }
    | _ => { w with server := r.1 }
  | none => w

def notice (w : JournalWorld V) (j : Nat) (saved : Bool) : JournalWorld V :=
  match w.notices[j]? with
  | some shellHex => { w with notices := w.notices.eraseIdx j }.removeShell saved shellHex
  | none => w

def forget (w : JournalWorld V) (shellHex : String) (saved : Bool) : JournalWorld V :=
  { w with forgotten := w.forgotten ++ (shellIdOf shellHex).toList }.removeShell saved shellHex

/-- The shell an open made, if it made one. -/
def madeBy (key : IdempotencyKey) : Res → List (IdempotencyKey × ShellId)
  | .opened o => if o.reused then [] else [(key, o.shellId)]
  | _ => []

/-- The server takes an open. -/
def served (w : JournalWorld V) (r : OpenCall) (env : OpenEnv) : JournalWorld V :=
  let res := w.server.step S (opOf user r env)
  { w with server := res.1, made := w.made ++ madeBy r.key res.2 }

def serve (w : JournalWorld V) (env : OpenEnv) : JournalWorld V :=
  match w.call, w.answer with
  | some r, none => { w.served S user r env with answer := some (answerOf (w.server.step S (opOf user r env)).2) }
  | _, _ => w

def serveStale (w : JournalWorld V) (i : Nat) (env : OpenEnv) : JournalWorld V :=
  match w.stale[i]? with
  | some r => { w.served S user r env with stale := w.stale.eraseIdx i }
  | none => w

def receive (w : JournalWorld V) (saved : Bool) (now : Int) : JournalWorld V :=
  match w.call, w.answer with
  | some r, some (.opened id token) =>
    let w := { w with call := none, answer := none, opened := w.opened ++ [(r.key, id)] }
    let shellHex := hex id.bytes.toList
    match r.purpose with
    | .journaled keyHex => { w with store := w.store.mutate saved (·.resolvePendingOpen keyHex shellHex token now) }
    | .recovering a =>
      if id = a.id then
        { w with
          store := w.store.mutate saved (·.updateToken shellHex token now)
          ask := some (.attaching a token true), reply := none }
      else w.demand (.terminating none id false)
  | some r, some _ => { w with answer := none, refused := w.refused ++ [r.key] }.failed r saved
  | _, _ => w

/-- What is still on its way when a connection goes. -/
def leftBehind (w : JournalWorld V) : List OpenCall := if w.answer.isNone then w.call.toList else []

def lose (w : JournalWorld V) (saved : Bool) : JournalWorld V :=
  let w' := { w with control := false, answer := none, stale := w.stale ++ w.leftBehind }
  match w.call with
  | some r => w'.failed r saved
  | none => w'

def crash (w : JournalWorld V) : JournalWorld V :=
  { w with
    supervisor := .down, control := false, call := none, answer := none, stale := w.stale ++ w.leftBehind
    ask := none, reply := none, mine := [], notices := [] }

def settled (w : JournalWorld V) (listed : Bool) : JournalWorld V :=
  match w.supervisor, w.call with
  | .resolving [], none =>
    if w.control && listed then { w with supervisor := .serving }
    else { w with supervisor := .connecting, control := false }
  | _, _ => w

def step (w : JournalWorld V) : JournalInput → JournalWorld V
  | .others op => { w with server := (w.server.step S op).1 }
  | .launch => if w.supervisor = .down then { w with supervisor := .connecting } else w
  | .crash => w.crash
  | .connect =>
    if w.supervisor = .connecting then { w with supervisor := .resolving w.store.pendingOpens, control := true } else w
  | .resolveNext saved => w.resolveNext saved
  | .settled listed => w.settled listed
  | .openShell key name cols rows pushed saved => w.openShell key name cols rows pushed saved
  | .attach shellHex cols rows => w.attach shellHex cols rows
  | .terminate shellHex => w.terminate shellHex
  | .serveAsk env kill => w.serveAsk S user env kill
  | .refuseAsk code retryable message =>
    if w.ask.isSome && w.reply.isNone && World.connectionCode code then
      { w with reply := some (.rejected code retryable message) }
    else w
  | .receiveAsk saved now => w.receiveAsk saved now
  | .failAsk => w.dropAsk fun a => !a.control
  | .forward j => w.forward S j
  | .notice j saved => w.notice j saved
  | .forget shellHex saved => if w.supervisor = .down then w else w.forget shellHex saved
  | .serve env => w.serve S user env
  | .serveStale i env => w.serveStale S user i env
  | .vanish i => { w with stale := w.stale.eraseIdx i }
  | .refuse code retryable message =>
    if w.call.isSome && w.answer.isNone then { w with answer := some (.rejected code retryable message) } else w
  | .receive saved now => w.receive saved now
  | .lose saved => if w.control then (w.lose saved).dropAsk Ask.control else w
  | .reconnect =>
    if w.supervisor = .serving ∧ w.control = false ∧ w.ask = none then { w with supervisor := .connecting } else w

def machine : Machine (JournalWorld V) JournalInput Unit := ⟨fun w i => (w.step S user i, ())⟩

/-! ## What a run promises -/

def journaled (w : JournalWorld V) (key : IdempotencyKey) : Bool :=
  w.store.pendingOpens.any fun p => p.idempotencyKey == hex key.toList

/-- The shell's id is stored, with a token. -/
def stored (w : JournalWorld V) (id : ShellId) : Bool := (w.store.shells.lookup (hex id.bytes.toList)).isSome

def alive (w : JournalWorld V) (id : ShellId) : Bool := (w.server.shells.lookup id).isSome

def bound (w : JournalWorld V) (key : IdempotencyKey) : Bool := (w.server.idempotency.lookup (user, key)).isSome

/-- `rand::random` repeats neither a shell's id nor a key that is written down. -/
def fresh (w : JournalWorld V) : JournalInput → Bool
  | .others op => w.server.freshId S op
  | .serve env => w.call.all fun r => w.server.freshId S (opOf user r env)
  | .serveStale i env => w.stale[i]?.all fun r => w.server.freshId S (opOf user r env)
  | .openShell key _ _ _ _ _ => !w.journaled key
  | _ => true

/-- A failed open is the server's refusal of its key. The control channel does not end under
    an open that is written down, nor before all of these were resolved; a connect leaves no
    open of an earlier connection behind; the connection refuses no key with a shell; a
    recovery finds its key's shell on the server, and the token it brings is not refused. -/
def refusesOnly (w : JournalWorld V) : JournalInput → Bool
  | .lose _ =>
    w.call.all OpenCall.recovers &&
      match w.supervisor with
      | .resolving rest => rest.isEmpty
      | _ => true
  | .connect => w.stale.isEmpty
  | .refuse _ _ _ =>
    w.call.all fun r => r.recovers || w.made.all fun x => x.1 != r.key || !w.alive x.2
  | .serve _ => w.call.all fun r => !r.recovers || w.bound user r.key
  | .serveStale i _ => w.stale[i]?.all fun r => !r.recovers || w.bound user r.key
  | .receiveAsk _ _ =>
    match w.ask, w.reply with
    | some (.attaching _ _ true), some (.rejected code _ _) => !refusesToken code
    | _, _ => true
  | _ => true

/-- The shell's id is stored, or was until its entry was removed. -/
def kept (w : JournalWorld V) (id : ShellId) : Prop := w.stored id = true ∨ id ∈ w.removed

/-- A key that was sent is written down until its shell is stored or it was refused, and so
    is the key of every shell on the server that was made for the client. -/
structure Written (w : JournalWorld V) : Prop where
  keys : ∀ key ∈ w.sent, w.journaled key = true ∨ (∃ id, (key, id) ∈ w.opened ∧ w.kept id) ∨ key ∈ w.refused
  shells : ∀ key id, (key, id) ∈ w.made → w.alive id = true → w.journaled key = true ∨ w.kept id

/-- And the entry of a shell is removed only when the shell no longer runs on the server, or
    when the user has it forgotten. -/
structure Remembers (w : JournalWorld V) : Prop extends Written w where
  removed : ∀ id ∈ w.removed, w.server.runs user id = false ∨ id ∈ w.forgotten

/-! ## The invariant -/

/-- The server's side. -/
structure ServerInv (w : JournalWorld V) : Prop where
  idem : w.server.IdemInv
  known : ∀ key id, (key, id) ∈ w.made → (w.server.find id).isSome = true
  binds : ∀ key id, (key, id) ∈ w.made → w.alive id = true → w.server.idempotency.lookup (user, key) = some id

/-- What is written in the store. -/
structure StoreInv (w : JournalWorld V) : Prop where
  texts : ∀ p ∈ w.store.pendingOpens, ∃ key : IdempotencyKey, p.idempotencyKey = hex key.toList
  distinct : (w.store.pendingOpens.map (·.idempotencyKey)).Nodup
  records : ∀ h record, w.store.shells.lookup h = some record →
    ∃ (key : IdempotencyKey) (id : ShellId), record.idempotencyKey = some (hex key.toList) ∧ h = hex id.bytes.toList ∧
      (key, id) ∈ w.opened

/-- Where the client is. -/
structure CallInv (w : JournalWorld V) : Prop where
  call : ∀ r, w.call = some r → w.control = true
  journal : ∀ r t, w.call = some r → r.purpose = .journaled t → t = hex r.key.toList ∧ w.journaled r.key = true
  stale : ∀ r ∈ w.stale, ∀ t, r.purpose = .journaled t → w.journaled r.key = true
  connected : w.control = true → w.stale = []
  offline : w.supervisor = .down ∨ w.supervisor = .connecting → w.control = false
  rest : ∀ rest, w.supervisor = .resolving rest →
    (∀ p ∈ rest, p ∈ w.store.pendingOpens) ∧ (rest.map (·.idempotencyKey)).Nodup ∧ (rest ≠ [] → w.control = true) ∧
      ∀ r t, w.call = some r → r.purpose = .journaled t → ∀ p ∈ rest, p.idempotencyKey ≠ t

/-- What the answer on its way says of the key's shells. -/
structure AnswerInv (w : JournalWorld V) : Prop where
  opened : ∀ r t id token, w.call = some r → r.purpose = .journaled t → w.answer = some (.opened id token) →
    ∀ id', (r.key, id') ∈ w.made → w.alive id' = true → id' = id
  refused : ∀ r t a, w.call = some r → r.purpose = .journaled t → w.answer = some a →
    (∀ id token, a ≠ .opened id token) → ∀ id, (r.key, id) ∈ w.made → w.alive id = false

structure Inv (w : JournalWorld V) : Prop extends
  Written w, ServerInv user w, StoreInv w, CallInv w, AnswerInv w

variable {S user} {w w' : JournalWorld V}

theorem inv_init {before : List Op} (hbefore : (Manager.machine S).Admissible (Manager.FreshId S) .empty before) :
    Inv user (init S before) where
  keys := List.forall_mem_nil _
  shells _ _ h := by cases h
  idem := Manager.idemInv_run S Manager.idemInv_empty hbefore
  known _ _ h := by cases h
  binds _ _ h := by cases h
  texts := List.forall_mem_nil _
  distinct := List.nodup_nil
  records _ _ h := by cases h
  call _ h := by cases h
  journal _ _ h := by cases h
  stale := List.forall_mem_nil _
  connected h := by cases h
  offline _ := rfl
  rest _ h := by cases h
  opened _ _ _ _ h := by cases h
  refused _ _ _ h := by cases h

/-! ## The server moves -/

theorem gone_of_removed {m : Manager V} {id : ShellId} (h : (m.step S (.removeExited id)).2 = .done) :
    (m.step S (.removeExited id)).1.shells.lookup id = none := by
  simp only [Manager.step, Manager.removeExited] at h ⊢
  split at h
  · cases h
  · rename_i e he
    split at h
    · cases h
    · rename_i hx
      simp only [hx]
      exact AList.lookup_erase _ _

/-- A shell that was known and is there after a step was there before it, and is not the one
    that the step removed. -/
theorem alive_before {m : Manager V} (h : m.IdemInv) {op : Op} (hf : Manager.FreshId S m op) {id : ShellId}
    (hknown : (m.find id).isSome = true) (hafter : ((m.step S op).1.shells.lookup id).isSome = true) :
    (m.shells.lookup id).isSome = true ∧ ¬(op = .removeExited id ∧ (m.step S op).2 = .done) := by
  constructor
  · cases Manager.step_at S h.keyed op id with
    | kept hl _ => rw [← hl]; exact hafter
    | changed e e' hl _ _ => rw [hl]; rfl
    | created req env account hop hi ho h2 h' =>
      obtain ⟨hs, hr⟩ := hf.new h2
      rw [Manager.find, hs, hr] at hknown
      cases hknown
    | removed e _ hl _ _ _ => rw [hl]; rfl
  · intro hop
    obtain ⟨rfl, hd⟩ := hop
    rw [gone_of_removed hd] at hafter
    cases hafter

theorem known_after {m : Manager V} (h : m.IdemInv) {op : Op} (hf : Manager.FreshId S m op) {id : ShellId}
    (hknown : (m.find id).isSome = true) : ((m.step S op).1.find id).isSome = true := by
  cases Manager.find_step S h.keyed hf id with
  | kept hl _ => rw [hl]; exact hknown
  | changed e e' _ _ hl => rw [hl]; rfl
  | created req env account _ _ _ _ hl => rw [hl]; rfl

/-- The shells of the client's keys after a step of the server, which makes none of them. -/
structure Fewer (w w' : JournalWorld V) : Prop where
  made : w'.made = w.made
  alive : ∀ key id, (key, id) ∈ w.made → w'.alive id = true → w.alive id = true

theorem serverInv_step (h : ServerInv user w) {op : Op} (hf : Manager.FreshId S w.server op)
    (hserver : w'.server = (w.server.step S op).1) (hmade : w'.made = w.made) : ServerInv user w' ∧ Fewer w w' := by
  have hbefore : ∀ key id, (key, id) ∈ w.made → w'.alive id = true →
      w.alive id = true ∧ ¬(op = .removeExited id ∧ (w.server.step S op).2 = .done) := by
    intro key id hm ha
    rw [alive, hserver] at ha
    exact alive_before h.idem hf (h.known key id hm) ha
  refine ⟨⟨?_, ?_, ?_⟩, hmade, fun key id hm ha => (hbefore key id hm ha).1⟩
  · rw [hserver]
    exact Manager.idemInv_step S h.idem hf
  · intro key id hm
    rw [hmade] at hm
    rw [hserver]
    exact known_after h.idem hf (h.known key id hm)
  · intro key id hm ha
    rw [hmade] at hm
    obtain ⟨hw, hr⟩ := hbefore key id hm ha
    rw [hserver]
    exact Manager.bound_step S h.idem (h.binds key id hm hw) hr

theorem Fewer.written (hf : Fewer w w') (h : Written w) (hstore : w'.store = w.store) (hsent : w'.sent = w.sent)
    (hopened : w'.opened = w.opened) (hrefused : w'.refused = w.refused) (hremoved : w'.removed = w.removed) :
    Written w' := by
  have hj : ∀ key, w'.journaled key = w.journaled key := fun key => by rw [journaled, hstore]; rfl
  have hs : ∀ id, w'.kept id = w.kept id := fun id => by rw [kept, stored, hstore, hremoved]; rfl
  refine ⟨?_, ?_⟩
  · intro key hkey
    rw [hsent] at hkey
    rw [hj, hopened, hrefused]
    simp only [hs]
    exact h.keys key hkey
  · intro key id hm ha
    rw [hf.made] at hm
    rw [hj, hs]
    exact h.shells key id hm (hf.alive key id hm ha)

theorem Fewer.answerInv (hf : Fewer w w') (h : AnswerInv w) (hcall : w'.call = w.call) (hanswer : w'.answer = w.answer) :
    AnswerInv w' := by
  refine ⟨?_, ?_⟩
  · intro r t id token hc hp ha id' hm hal
    rw [hf.made] at hm
    exact h.opened r t id token (hcall ▸ hc) hp (hanswer ▸ ha) id' hm (hf.alive _ id' hm hal)
  · intro r t a hc hp ha hne id hm
    rw [hf.made] at hm
    cases hal : w'.alive id with
    | false => rfl
    | true =>
      have := h.refused r t a (hcall ▸ hc) hp (hanswer ▸ ha) hne id hm
      rw [hf.alive _ id hm hal] at this
      cases this

theorem inv_server (h : Inv user w) {op : Op} (hf : Manager.FreshId S w.server op) :
    Inv user { w with server := (w.server.step S op).1 } := by
  obtain ⟨hserver, hfewer⟩ := @serverInv_step V S user w { w with server := (w.server.step S op).1 } h.toServerInv op hf
    rfl rfl
  have hrem := hfewer.written h.toWritten rfl rfl rfl rfl rfl
  have hans := hfewer.answerInv h.toAnswerInv rfl rfl
  exact
    { hrem, hserver, hans with
      texts := h.texts, distinct := h.distinct, records := h.records
      call := h.call, journal := h.journal, stale := h.stale, connected := h.connected, offline := h.offline
      rest := h.rest }

/-! ## The server takes an open -/

theorem ServerInv.make (h : ServerInv user w) {key : IdempotencyKey} {id : ShellId}
    (hb : w.server.idempotency.lookup (user, key) = some id) (he : w.alive id = true) :
    ServerInv user { w with made := w.made ++ [(key, id)] } := by
  have hcases : ∀ key' id', (key', id') ∈ w.made ++ [(key, id)] → (key', id') ∈ w.made ∨ key' = key ∧ id' = id := by
    intro key' id' hm
    rcases List.mem_append.mp hm with hm | hm
    · exact .inl hm
    · exact .inr (Prod.mk.inj (List.mem_singleton.mp hm))
  refine ⟨h.idem, ?_, ?_⟩
  · intro key' id' hm
    rcases hcases key' id' hm with hm | ⟨_, rfl⟩
    · exact h.known key' id' hm
    · obtain ⟨e, he⟩ := Option.isSome_iff_exists.mp he
      rw [Manager.find_of_lookup he]
      rfl
  · intro key' id' hm ha
    rcases hcases key' id' hm with hm | ⟨rfl, rfl⟩
    · exact h.binds key' id' hm ha
    · exact hb

theorem madeBy_cases (key : IdempotencyKey) (res : Res) :
    madeBy key res = [] ∨ ∃ id token, res = .opened ⟨id, token, false⟩ ∧ madeBy key res = [(key, id)] := by
  cases res with
  | opened o =>
    obtain ⟨id, token, reused⟩ := o
    cases reused with
    | false => exact .inr ⟨id, token, rfl, rfl⟩
    | true => exact .inl rfl
  | _ => exact .inl rfl

/-- A served open keeps the server's side, and the shell it makes is for a key that is
    written down. -/
theorem served_inv (h : Inv user w) {r : OpenCall} {env : OpenEnv} (hf : w.server.freshId S (opOf user r env) = true)
    (hjournal : ∀ t, r.purpose = .journaled t → w.journaled r.key = true)
    (hbound : r.recovers = true → w.bound user r.key = true) :
    ServerInv user (w.served S user r env) ∧ Written (w.served S user r env) := by
  have hsound := Manager.open_sound S h.idem hf
  obtain ⟨hserver, hfewer⟩ := @serverInv_step V S user w { w with server := (w.server.step S (opOf user r env)).1 }
    h.toServerInv (opOf user r env) hf rfl rfl
  have hrem := hfewer.written h.toWritten rfl rfl rfl rfl rfl
  rcases madeBy_cases r.key (w.server.step S (opOf user r env)).2 with hnone | ⟨id, token, hres, hone⟩
  · have hmade : w.made ++ madeBy r.key (w.server.step S (opOf user r env)).2 = w.made := by rw [hnone, List.append_nil]
    unfold served
    simp only [hmade]
    exact ⟨hserver, hrem⟩
  · obtain ⟨hb, e, he, _⟩ := hsound.opened _ hres
    unfold served
    simp only [hone]
    refine ⟨hserver.make hb (Option.isSome_iff_exists.mpr ⟨e, he⟩), hrem.keys, ?_⟩
    intro key id' hm ha
    rcases List.mem_append.mp hm with hm | hm
    · exact hrem.shells key id' hm ha
    · cases List.mem_singleton.mp hm
      cases hp : r.purpose with
      | journaled t => exact .inl (hjournal t hp)
      | recovering shellHex =>
        -- a key that is bound gets its shell again
        have hbnd := hbound (by rw [OpenCall.recovers, hp])
        obtain ⟨i, hi⟩ := Option.isSome_iff_exists.mp hbnd
        have hreused := (hsound.reused i hi).1
        rw [show (w.server.step S (.openShell _ env)).2 = _ from hres] at hreused
        cases hreused

theorem bound_of_recovers {r : OpenCall} {b : Bool} (h : (!r.recovers || b) = true) (hr : r.recovers = true) :
    b = true := by
  rw [hr] at h
  exact h

theorem answerOf_opened {res : Res} {id : ShellId} {token : ResumeToken} (h : answerOf res = .opened id token) :
    ∃ o, res = .opened o ∧ o.shellId = id := by
  cases res with
  | opened o =>
    cases h
    exact ⟨o, rfl, rfl⟩
  | _ => cases h

theorem inv_serve (h : Inv user w) {env : OpenEnv} (hf : fresh S user w (.serve env) = true)
    (hok : refusesOnly user w (.serve env) = true) : Inv user (w.serve S user env) := by
  unfold serve
  cases hc : w.call with
  | none => exact h
  | some r =>
    cases ha : w.answer with
    | some a => exact h
    | none =>
      simp only [fresh, hc, Option.all_some] at hf
      simp only [refusesOnly, hc, Option.all_some] at hok
      have hsound := Manager.open_sound S h.idem hf
      obtain ⟨hserver, hrem⟩ := served_inv h hf (fun t hp => (h.journal r t hc hp).2) (bound_of_recovers hok)
      have hans : AnswerInv { w.served S user r env with answer := some (answerOf (w.server.step S (opOf user r env)).2) } := by
        refine ⟨?_, ?_⟩
        · intro r' t id token hc' hp hans id' hm hal
          cases hc.symm.trans hc'
          obtain ⟨o, ho, rfl⟩ := answerOf_opened (Option.some.inj hans)
          have hb := hserver.binds r.key id' hm hal
          rw [show (w.served S user r env).server.idempotency.lookup (user, r.key) = _ from (hsound.opened o ho).1] at hb
          exact (Option.some.inj hb).symm
        · intro r' t a hc' hp hans hne id hm
          cases hc.symm.trans hc'
          cases Option.some.inj hans
          rcases madeBy_cases r.key (w.server.step S (opOf user r env)).2 with hnone | ⟨id', token, hres, _⟩
          · have hmade : (r.key, id) ∈ w.made := by
              have : (r.key, id) ∈ w.made ++ madeBy r.key (w.server.step S (opOf user r env)).2 := hm
              rwa [hnone, List.append_nil] at this
            cases hal : ({ w.served S user r env with
                answer := some (answerOf (w.server.step S (opOf user r env)).2) } : JournalWorld V).alive id with
            | false => rfl
            | true =>
              -- its shell would have been found again
              have halive := (alive_before h.idem hf (h.known r.key id hmade) hal).1
              have hreused := (hsound.reused id (h.binds r.key id hmade halive)).1
              exact absurd (congrArg answerOf hreused) (hne id env.token)
          · exact absurd (congrArg answerOf hres) (hne id' token)
      exact
        { hrem, hserver, hans with
          texts := h.texts, distinct := h.distinct, records := h.records
          call := h.call, journal := h.journal, stale := h.stale, connected := h.connected, offline := h.offline
          rest := h.rest }

/-- An open of an earlier connection comes when none is awaited. -/
theorem CallInv.idle (h : CallInv w) (hs : w.stale ≠ []) : w.call = none := by
  cases hc : w.call with
  | none => rfl
  | some r => exact absurd (h.connected (h.call r hc)) hs

theorem AnswerInv.of_idle (hc : w.call = none) : AnswerInv w := by
  refine ⟨?_, ?_⟩
  · intro r t id token h
    rw [hc] at h
    cases h
  · intro r t a h
    rw [hc] at h
    cases h

theorem inv_serveStale (h : Inv user w) {i : Nat} {env : OpenEnv} (hf : fresh S user w (.serveStale i env) = true)
    (hok : refusesOnly user w (.serveStale i env) = true) : Inv user (w.serveStale S user i env) := by
  unfold serveStale
  cases hi : w.stale[i]? with
  | none => exact h
  | some r =>
    have hr : r ∈ w.stale := List.mem_of_getElem? hi
    have hidle : w.call = none := h.toCallInv.idle (List.ne_nil_of_mem hr)
    simp only [fresh, hi, Option.all_some] at hf
    simp only [refusesOnly, hi, Option.all_some] at hok
    obtain ⟨hserver, hrem⟩ := served_inv h hf (h.stale r hr) (bound_of_recovers hok)
    exact
      { keys := hrem.keys, shells := hrem.shells
        idem := hserver.idem, known := hserver.known, binds := hserver.binds
        texts := h.texts, distinct := h.distinct, records := h.records
        call := h.call, journal := h.journal
        stale := fun r' hr' => h.stale r' (List.mem_of_mem_eraseIdx hr')
        connected := fun hcon => by rw [h.connected hcon] at hr; cases hr
        offline := h.offline, rest := h.rest
        toAnswerInv := .of_idle hidle }

/-! ## Keys come off the journal -/

theorem kept_mono {id : ShellId} (h : w.kept id) (hs : w.stored id = true → w'.stored id = true)
    (hr : w.removed ⊆ w'.removed) : w'.kept id :=
  h.imp hs fun hid => hr hid

theorem hexKey_inj {a b : IdempotencyKey} (h : hex a.toList = hex b.toList) : a = b := Vector.toList_inj.mp (hex_inj h)

theorem any_filter_ne {l : List PendingOpen} {text t : String} (hne : text ≠ t) :
    ((l.filter fun p => p.idempotencyKey != t).any fun p => p.idempotencyKey == text) =
      l.any fun p => p.idempotencyKey == text := by
  induction l with
  | nil => rfl
  | cons p l ih =>
    by_cases hp : p.idempotencyKey = t
    · simp [hp, ih, hne.symm]
    · simp [hp, ih]

/-- The store without a key, or as it was. -/
def Without (t : String) (r r' : ServerRecord) : Prop :=
  r'.pendingOpens = r.pendingOpens ∨ r'.pendingOpens = r.pendingOpens.filter fun p => p.idempotencyKey != t

theorem without_drop (r : ServerRecord) (saved : Bool) (t : String) :
    Without t r (r.mutate saved (·.dropPendingOpen t)) := by
  cases saved with
  | false => exact .inl rfl
  | true => exact .inr rfl

theorem without_resolve (r : ServerRecord) (saved : Bool) (t shellHex : String) (token : ResumeToken) (now : Int) :
    Without t r (r.mutate saved (·.resolvePendingOpen t shellHex token now)) := by
  cases saved with
  | false => exact .inl rfl
  | true => exact .inr rfl

theorem Without.journaled {t : String} (h : Without t w.store w'.store) {key : IdempotencyKey}
    (hne : hex key.toList ≠ t) : w'.journaled key = w.journaled key := by
  rcases h with h | h
  · rw [JournalWorld.journaled, h]
    rfl
  · rw [JournalWorld.journaled, h]
    exact any_filter_ne hne

theorem Without.mem {t : String} {r r' : ServerRecord} (h : Without t r r') {p : PendingOpen} (hp : p ∈ r.pendingOpens)
    (hne : p.idempotencyKey ≠ t) : p ∈ r'.pendingOpens := by
  rcases h with h | h
  · rw [h]
    exact hp
  · rw [h]
    exact List.mem_filter.mpr ⟨hp, by simpa using hne⟩

theorem Without.sublist {t : String} {r r' : ServerRecord} (h : Without t r r') :
    List.Sublist r'.pendingOpens r.pendingOpens := by
  rcases h with h | h
  · rw [h]
  · rw [h]
    exact List.filter_sublist

theorem Without.storeInv {t : String} (h : StoreInv w) (hw : Without t w.store w'.store)
    (hrecords : ∀ k record, w'.store.shells.lookup k = some record →
      ∃ (key : IdempotencyKey) (id : ShellId), record.idempotencyKey = some (hex key.toList) ∧ k = hex id.bytes.toList ∧
        (key, id) ∈ w'.opened) : StoreInv w' := by
  refine ⟨?_, ?_, hrecords⟩
  · intro p hp
    exact h.texts p (hw.sublist.subset hp)
  · exact h.distinct.sublist (hw.sublist.map _)

/-- The awaited open is over, and its key may be off the journal. -/
theorem Without.callInv {r : OpenCall} {t : String} (h : CallInv w) (hc : w.call = some r) (hp : r.purpose = .journaled t)
    (hw : Without t w.store w'.store) (hcall : w'.call = none) (hsup : w'.supervisor = w.supervisor)
    (hcontrol : w'.control = w.control) (hstale : w'.stale = w.stale) : CallInv w' := by
  have hnone : w.stale = [] := h.connected (h.call r hc)
  refine ⟨?_, ?_, ?_, ?_, ?_, ?_⟩
  · intro r' h'
    rw [hcall] at h'
    cases h'
  · intro r' t' h'
    rw [hcall] at h'
    cases h'
  · intro r' hr'
    rw [hstale, hnone] at hr'
    cases hr'
  · intro _
    rw [hstale, hnone]
  · intro hoff
    rw [hcontrol]
    exact h.offline (hsup ▸ hoff)
  · intro rest hrest
    obtain ⟨hmem, hnodup, hcon, hne⟩ := h.rest rest (hsup ▸ hrest)
    refine ⟨?_, hnodup, ?_, ?_⟩
    · intro p hpr
      exact hw.mem (hmem p hpr) (hne r t hc hp p hpr)
    · intro hnil
      rw [hcontrol]
      exact hcon hnil
    · intro r' t' h'
      rw [hcall] at h'
      cases h'

/-! ## Answers -/

/-- The server refused the key: no shell of it is there. -/
theorem inv_refused (h : Inv user w) {r : OpenCall} {t : String} {a : Answer} (hc : w.call = some r)
    (hp : r.purpose = .journaled t) (ha : w.answer = some a) (hne : ∀ id token, a ≠ .opened id token) (saved : Bool) :
    Inv user { w with
      call := none, answer := none, refused := w.refused ++ [r.key]
      store := w.store.mutate saved (·.dropPendingOpen t) } := by
  obtain ⟨ht, _⟩ := h.journal r t hc hp
  have hw := without_drop w.store saved t
  have hshells : (w.store.mutate saved (·.dropPendingOpen t)).shells = w.store.shells := by cases saved <;> rfl
  have hother : ∀ key : IdempotencyKey, key ≠ r.key → hex key.toList ≠ t := by
    intro key hkey heq
    exact hkey (hexKey_inj (heq.trans ht))
  refine
    { keys := ?_, shells := ?_
      idem := h.idem, known := h.known, binds := h.binds
      toStoreInv := Without.storeInv h.toStoreInv hw ?_
      toCallInv := Without.callInv h.toCallInv hc hp hw rfl rfl rfl rfl
      toAnswerInv := .of_idle rfl }
  · intro key hkey
    by_cases heq : key = r.key
    · subst heq
      exact .inr (.inr (List.mem_append_right _ (List.mem_singleton.mpr rfl)))
    · rw [Without.journaled (w := w) hw (hother key heq)]
      rcases h.keys key hkey with hj | ⟨id, ho, hs⟩ | hr
      · exact .inl hj
      · exact .inr (.inl ⟨id, ho, by rw [kept, stored, hshells]; exact hs⟩)
      · exact .inr (.inr (List.mem_append_left _ hr))
  · intro key id hm hal
    by_cases heq : key = r.key
    · subst heq
      have := h.refused r t a hc hp ha hne id hm
      rw [show w.alive id = true from hal] at this
      cases this
    · rw [Without.journaled (w := w) hw (hother key heq), kept, stored, hshells]
      exact h.shells key id hm hal
  · intro k record hl
    rw [hshells] at hl
    exact h.records k record hl

theorem stored_resolve {saved : Bool} {t shellHex : String} {token : ResumeToken} {now : Int} {id : ShellId}
    (h : w.stored id = true) (hstore : w'.store = w.store.mutate saved (·.resolvePendingOpen t shellHex token now)) :
    w'.stored id = true := by
  rw [stored, hstore]
  cases saved with
  | false => exact h
  | true =>
    show ((w.store.shells.insert shellHex _).lookup _).isSome = true
    by_cases heq : hex id.bytes.toList = shellHex
    · rw [heq, AList.lookup_insert]
      rfl
    · rw [AList.lookup_insert_ne heq]
      exact h

/-- The server opened the shell: it is the one made for the key. -/
theorem inv_opened (h : Inv user w) {r : OpenCall} {t : String} {id : ShellId} {token : ResumeToken}
    (hc : w.call = some r) (hp : r.purpose = .journaled t) (ha : w.answer = some (.opened id token)) (saved : Bool)
    (now : Int) :
    Inv user { w with
      call := none, answer := none, opened := w.opened ++ [(r.key, id)]
      store := w.store.mutate saved (·.resolvePendingOpen t (hex id.bytes.toList) token now) } := by
  obtain ⟨ht, hjournaled⟩ := h.journal r t hc hp
  have hw := without_resolve w.store saved t (hex id.bytes.toList) token now
  generalize hw' : ({ w with
    call := none, answer := none, opened := w.opened ++ [(r.key, id)]
    store := w.store.mutate saved (·.resolvePendingOpen t (hex id.bytes.toList) token now) } : JournalWorld V) = w'
  have hstore : w'.store = w.store.mutate saved (·.resolvePendingOpen t (hex id.bytes.toList) token now) := by rw [← hw']
  have hopened : w'.opened = w.opened ++ [(r.key, id)] := by rw [← hw']
  have hremoved : w.removed ⊆ w'.removed := by rw [← hw']; exact List.Subset.refl _
  have hother : ∀ key : IdempotencyKey, key ≠ r.key → hex key.toList ≠ t := by
    intro key hkey heq
    exact hkey (hexKey_inj (heq.trans ht))
  -- its own key is still written down, or its shell is stored
  have hown : w'.journaled r.key = true ∨ w'.stored id = true := by
    cases saved with
    | false =>
      refine .inl ?_
      rw [journaled, hstore]
      exact hjournaled
    | true =>
      refine .inr ?_
      rw [stored, hstore]
      show ((w.store.shells.insert _ _).lookup _).isSome = true
      rw [AList.lookup_insert]
      rfl
  have hw := hstore ▸ hw
  refine
    { keys := ?_, shells := ?_
      idem := by rw [← hw']; exact h.idem
      known := by rw [← hw']; exact h.known
      binds := by rw [← hw']; exact h.binds
      toStoreInv := Without.storeInv h.toStoreInv hw ?_
      toCallInv := Without.callInv h.toCallInv hc hp hw (by rw [← hw']) (by rw [← hw']) (by rw [← hw']) (by rw [← hw'])
      toAnswerInv := .of_idle (by rw [← hw']) }
  · intro key hkey
    rw [hopened]
    by_cases heq : key = r.key
    · subst heq
      rcases hown with hj | hs
      · exact .inl hj
      · exact .inr (.inl ⟨id, List.mem_append_right _ (List.mem_singleton.mpr rfl), .inl hs⟩)
    · rw [hw.journaled (hother key heq)]
      rcases h.keys key (by rw [← hw'] at hkey; exact hkey) with hj | ⟨id', ho, hs⟩ | hr
      · exact .inl hj
      · exact .inr (.inl ⟨id', List.mem_append_left _ ho, kept_mono hs (fun hs => stored_resolve hs hstore) hremoved⟩)
      · exact .inr (.inr (by rw [← hw']; exact hr))
  · intro key id' hm hal
    rw [← hw'] at hm hal
    by_cases heq : key = r.key
    · subst heq
      rw [h.opened r t id token hc hp ha id' hm hal]
      exact hown.imp_right .inl
    · rw [hw.journaled (hother key heq)]
      rcases h.shells key id' hm hal with hj | hs
      · exact .inl hj
      · exact .inr (kept_mono hs (fun hs => stored_resolve hs hstore) hremoved)
  · intro k record hl
    rw [hopened]
    have hold : w.store.shells.lookup k = some record → ∃ (key : IdempotencyKey) (id' : ShellId),
        record.idempotencyKey = some (hex key.toList) ∧ k = hex id'.bytes.toList ∧
          (key, id') ∈ w.opened ++ [(r.key, id)] := by
      intro hl
      obtain ⟨key, id', hk, hid, ho⟩ := h.records k record hl
      exact ⟨key, id', hk, hid, List.mem_append_left _ ho⟩
    rw [hstore] at hl
    cases saved with
    | false => exact hold hl
    | true =>
      have hl : (w.store.shells.insert (hex id.bytes.toList) _).lookup k = some record := hl
      rw [Table.lookup_insert_some] at hl
      rcases hl with ⟨rfl, rfl⟩ | ⟨_, hl⟩
      · exact ⟨r.key, id, by rw [ht], rfl, List.mem_append_right _ (List.mem_singleton.mpr rfl)⟩
      · exact hold hl

/-- With a new token an entry keeps its key, and none comes or goes. -/
theorem lookup_updateToken (r : ServerRecord) (saved : Bool) (shellHex : String) (token : ResumeToken) (now : Int)
    (k : String) : ∃ f : ShellRecord → ShellRecord, (∀ x, (f x).idempotencyKey = x.idempotencyKey) ∧
      (r.mutate saved (·.updateToken shellHex token now)).shells.lookup k = (r.shells.lookup k).map f := by
  cases saved with
  | false => exact ⟨fun x => x, fun _ => rfl, by simp [ServerRecord.mutate]⟩
  | true =>
    show ∃ f, _ ∧ (r.shells.adjust shellHex _).lookup k = _
    by_cases hk : k = shellHex
    · subst hk
      exact ⟨fun x => { x with token := token, lastAttachedAtMs := now }, fun _ => rfl, Table.lookup_adjust_same _ _ _⟩
    · exact ⟨fun x => x, fun _ => rfl, by rw [Table.lookup_adjust_ne _ _ hk, Option.map_id']⟩

theorem kept_updateToken (w : JournalWorld V) (saved : Bool) (shellHex : String) (token : ResumeToken) (now : Int)
    (id : ShellId) :
    ({ w with store := w.store.mutate saved (·.updateToken shellHex token now) } : JournalWorld V).kept id = w.kept id := by
  obtain ⟨f, _, hf⟩ := lookup_updateToken w.store saved shellHex token now (hex id.bytes.toList)
  simp only [kept, stored, hf, Option.isSome_map]

/-- An entry gets a new token. -/
theorem inv_updateToken (h : Inv user w) (saved : Bool) (shellHex : String) (token : ResumeToken) (now : Int) :
    Inv user { w with store := w.store.mutate saved (·.updateToken shellHex token now) } := by
  have hpending : (w.store.mutate saved (·.updateToken shellHex token now)).pendingOpens = w.store.pendingOpens := by
    cases saved <;> rfl
  have hjournaled : ∀ key,
      ({ w with store := w.store.mutate saved (·.updateToken shellHex token now) } : JournalWorld V).journaled key =
        w.journaled key := fun key => by rw [journaled, hpending, journaled]
  refine
    { keys := ?_, shells := ?_
      idem := h.idem, known := h.known, binds := h.binds
      texts := by rw [hpending]; exact h.texts
      distinct := by rw [hpending]; exact h.distinct
      records := ?_
      call := h.call
      journal := fun r t hc hp => by rw [hjournaled]; exact h.journal r t hc hp
      stale := fun r hr t hp => by rw [hjournaled]; exact h.stale r hr t hp
      connected := h.connected, offline := h.offline
      rest := fun rest hrest => by rw [hpending]; exact h.rest rest hrest
      opened := h.opened, refused := h.refused }
  · intro key hkey
    simp only [hjournaled, kept_updateToken]
    exact h.keys key hkey
  · intro key id' hm hal
    simp only [hjournaled, kept_updateToken]
    exact h.shells key id' hm hal
  · intro k record hl
    obtain ⟨f, hkey, hf⟩ := lookup_updateToken w.store saved shellHex token now k
    rw [hf, Option.map_eq_some_iff] at hl
    obtain ⟨old, hold, rfl⟩ := hl
    obtain ⟨key, id', hk, hid, ho⟩ := h.records k old hold
    exact ⟨key, id', by rw [hkey, hk], hid, ho⟩

theorem unhex_id (id : ShellId) : shellIdOf (hex id.bytes.toList) = some id := by
  have hlen : id.bytes.toList.length = 16 := by simp
  rw [shellIdOf, unhex_hex, Option.bind_some, ShellId.fromWire, Protocol.fromWire, dif_pos hlen]
  rfl

/-- What an entry's removal takes out of the store is remembered as removed. -/
theorem kept_removeShell {id : ShellId} (hk : w.kept id) (saved : Bool) (shellHex : String) :
    (w.removeShell saved shellHex).kept id := by
  cases saved with
  | false => exact kept_mono hk (fun hs => hs) (List.subset_append_left _ _)
  | true =>
    rcases hk with hs | hr
    case inr => exact .inr (List.mem_append_left _ hr)
    obtain ⟨record, hrecord⟩ := Option.isSome_iff_exists.mp hs
    by_cases he : hex id.bytes.toList = shellHex
    · refine .inr (List.mem_append_right _ ?_)
      rw [if_pos rfl, ← he, entryId, hrecord, Option.bind_some, unhex_id]
      exact List.mem_singleton.mpr rfl
    · refine .inl ?_
      show ((w.store.shells.erase shellHex).lookup _).isSome = true
      rw [AList.lookup_erase_ne he]
      exact hs

/-- An entry is removed. -/
theorem inv_removeShell (h : Inv user w) (saved : Bool) (shellHex : String) : Inv user (w.removeShell saved shellHex) := by
  have hpending : (w.removeShell saved shellHex).store.pendingOpens = w.store.pendingOpens := by cases saved <;> rfl
  have hjournaled : ∀ key, (w.removeShell saved shellHex).journaled key = w.journaled key :=
    fun key => by rw [journaled, hpending, journaled]
  refine
    { keys := ?_, shells := ?_
      idem := h.idem, known := h.known, binds := h.binds
      texts := by rw [hpending]; exact h.texts
      distinct := by rw [hpending]; exact h.distinct
      records := ?_
      call := h.call
      journal := fun r t hc hp => by rw [hjournaled]; exact h.journal r t hc hp
      stale := fun r hr t hp => by rw [hjournaled]; exact h.stale r hr t hp
      connected := h.connected, offline := h.offline
      rest := fun rest hrest => by rw [hpending]; exact h.rest rest hrest
      opened := h.opened, refused := h.refused }
  · intro key hkey
    rw [hjournaled]
    rcases h.keys key hkey with hj | ⟨id, ho, hk⟩ | hr
    · exact .inl hj
    · exact .inr (.inl ⟨id, ho, kept_removeShell hk saved shellHex⟩)
    · exact .inr (.inr hr)
  · intro key id hm hal
    rw [hjournaled]
    exact (h.shells key id hm hal).imp_right fun hk => kept_removeShell hk saved shellHex
  · intro k record hl
    refine h.records k record ?_
    cases saved with
    | false => exact hl
    | true => exact Table.within_erase _ _ _ _ hl

/-- No open is awaited any more, and nothing else changed. -/
theorem inv_dropCall (h : Inv user w) : Inv user { w with call := none, answer := none } :=
  { keys := h.keys, shells := h.shells
    idem := h.idem, known := h.known, binds := h.binds
    texts := h.texts, distinct := h.distinct, records := h.records
    call := fun _ h' => by cases h'
    journal := fun _ _ h' => by cases h'
    stale := h.stale, connected := h.connected, offline := h.offline
    rest := fun rest hrest =>
      ⟨(h.rest rest hrest).1, (h.rest rest hrest).2.1, (h.rest rest hrest).2.2.1, fun _ _ h' => by cases h'⟩
    toAnswerInv := .of_idle rfl }

/-- More of what was seen does not hurt. -/
theorem inv_seen (h : Inv user w) (opened : List (IdempotencyKey × ShellId)) (refused : List IdempotencyKey) :
    Inv user { w with opened := w.opened ++ opened, refused := w.refused ++ refused } := by
  refine
    { keys := ?_, shells := h.shells
      idem := h.idem, known := h.known, binds := h.binds
      texts := h.texts, distinct := h.distinct, records := ?_
      call := h.call, journal := h.journal, stale := h.stale, connected := h.connected, offline := h.offline
      rest := h.rest, opened := h.opened, refused := h.refused }
  · intro key hkey
    rcases h.keys key hkey with hj | ⟨id, ho, hs⟩ | hr
    · exact .inl hj
    · exact .inr (.inl ⟨id, List.mem_append_left _ ho, hs⟩)
    · exact .inr (.inr (List.mem_append_left _ hr))
  · intro k record hl
    obtain ⟨key, id, hk, hid, ho⟩ := h.records k record hl
    exact ⟨key, id, hk, hid, List.mem_append_left _ ho⟩

/-- What else is awaited and read is no part of it. -/
theorem inv_beside (h : Inv user w) (ask : Option Ask) (reply : Option Answer) (mine : List (String × ShellId × Nat))
    (notices : List String) (forgotten : List ShellId) :
    Inv user { w with ask := ask, reply := reply, mine := mine, notices := notices, forgotten := forgotten } :=
  { h with keys := h.keys }

theorem inv_demand (h : Inv user w) (a : Ask) : Inv user (w.demand a) := by
  unfold demand
  split
  · exact inv_beside h _ _ _ _ _
  · exact h

theorem inv_receive (h : Inv user w) (saved : Bool) (now : Int) : Inv user (w.receive saved now) := by
  unfold receive
  cases hc : w.call with
  | none => exact h
  | some r =>
    have hrefused : ∀ a, w.answer = some a → (∀ id token, a ≠ .opened id token) →
        Inv user ({ w with answer := none, refused := w.refused ++ [r.key] }.failed r saved) := by
      intro a ha hne
      unfold failed
      cases hp : r.purpose with
      | journaled t => exact inv_refused h hc hp ha hne saved
      | recovering shellHex =>
        have := inv_seen (inv_dropCall h) [] [r.key]
        simpa using this
    cases ha : w.answer with
    | none => exact h
    | some a =>
      cases a with
      | opened id token =>
        simp only
        cases hp : r.purpose with
        | journaled t => exact inv_opened h hc hp ha saved now
        | recovering a =>
          have hseen : Inv user { w with call := none, answer := none, opened := w.opened ++ [(r.key, id)] } := by
            simpa using inv_seen (inv_dropCall h) [(r.key, id)] []
          simp only
          split
          · exact inv_beside (inv_updateToken hseen saved _ token now) _ _ _ _ _
          · exact inv_demand hseen _
      | attached token attachmentId => exact hrefused _ ha nofun
      | listed running => exact hrefused _ ha nofun
      | rejected code retryable message => exact hrefused _ ha nofun
      | done => exact hrefused _ ha nofun

/-! ## Requests -/

/-- A request goes out: its key is written down, or belongs to a stored shell. -/
theorem inv_send (h : Inv user w) {r : OpenCall} (hcontrol : w.control = true)
    (hjournal : ∀ t, r.purpose = .journaled t → t = hex r.key.toList ∧ w.journaled r.key = true)
    (hrest : ∀ t rest, r.purpose = .journaled t → w.supervisor = .resolving rest → ∀ p ∈ rest, p.idempotencyKey ≠ t)
    (hkey : w.journaled r.key = true ∨ ∃ id, (r.key, id) ∈ w.opened ∧ w.kept id) :
    Inv user { w with call := some r, answer := none, sent := w.sent ++ [r.key] } := by
  refine
    { keys := ?_, shells := h.shells
      idem := h.idem, known := h.known, binds := h.binds
      texts := h.texts, distinct := h.distinct, records := h.records
      call := fun _ _ => hcontrol
      journal := ?_
      stale := h.stale, connected := h.connected, offline := h.offline
      rest := ?_
      opened := fun _ _ _ _ _ _ ha => by cases ha
      refused := fun _ _ _ _ _ ha => by cases ha }
  · intro key hmem
    rcases List.mem_append.mp hmem with hmem | hmem
    · exact h.keys key hmem
    · cases List.mem_singleton.mp hmem
      rcases hkey with hj | hs
      · exact .inl hj
      · exact .inr (.inl hs)
  · intro r' t hc hp
    cases hc
    exact hjournal t hp
  · intro rest hsup
    obtain ⟨hmem, hnodup, hcon, _⟩ := h.rest rest hsup
    refine ⟨hmem, hnodup, hcon, ?_⟩
    intro r' t hc hp
    cases hc
    exact hrest t rest hp hsup

theorem keyOfBytes_toList (key : IdempotencyKey) : keyOfBytes key.toList = some key := by
  have hlen : key.toList.length = 16 := by simp
  rw [keyOfBytes, Protocol.fromWire, dif_pos hlen]
  congr 1

theorem journaled_of_mem {p : PendingOpen} {key : IdempotencyKey} (hp : p ∈ w.store.pendingOpens)
    (hk : p.idempotencyKey = hex key.toList) : w.journaled key = true :=
  List.any_eq_true.mpr ⟨p, hp, by rw [hk]; exact beq_self_eq_true _⟩

theorem inv_resolveNext (h : Inv user w) (saved : Bool) : Inv user (w.resolveNext saved) := by
  unfold resolveNext
  split
  · rename_i p rest hsup hidle
    obtain ⟨hmem, hnodup, hcon, _⟩ := h.rest _ hsup
    have hp := hmem p List.mem_cons_self
    obtain ⟨hnew, hnodup⟩ := List.nodup_cons.mp hnodup
    obtain ⟨key, hkey⟩ := h.texts p hp
    have hnext : Inv user { w with supervisor := .resolving rest } :=
      { h with
        offline := fun hoff => by rcases hoff with hoff | hoff <;> cases hoff
        rest := fun rest' hrest' => by
          cases hrest'
          refine ⟨fun q hq => hmem q (List.mem_cons_of_mem _ hq), hnodup, fun _ => hcon (by simp), ?_⟩
          intro r t hc
          rw [show w.call = some r from hc] at hidle
          cases hidle }
    have hparsed : (unhex p.idempotencyKey).bind keyOfBytes = some key := by
      rw [hkey, unhex_hex, Option.bind_some, keyOfBytes_toList]
    have hjournaled := journaled_of_mem hp hkey
    have hcontrol : w.control = true := hcon (by simp)
    simp only [hparsed, request]
    rw [if_pos hcontrol]
    refine inv_send (r := ⟨key, .journaled p.idempotencyKey, 0, 0⟩) hnext hcontrol ?_ ?_ (.inl hjournaled)
    · intro t ht
      cases ht
      exact ⟨hkey, hjournaled⟩
    · intro t rest' ht hrest' q hq
      cases ht
      cases hrest'
      intro heq
      exact hnew (List.mem_map.mpr ⟨q, hq, heq⟩)
  · exact h

/-- A new key is written down. -/
theorem inv_push (h : Inv user w) {key : IdempotencyKey} (hnew : w.journaled key = false)
    (hsup : w.supervisor = .serving) (name : String) :
    Inv user { w with store := w.store.pushPendingOpen (hex key.toList) name } := by
  have hmono : ∀ k, w.journaled k = true →
      ({ w with store := w.store.pushPendingOpen (hex key.toList) name } : JournalWorld V).journaled k = true := by
    intro k hk
    simp only [journaled, ServerRecord.pushPendingOpen, List.any_append, Bool.or_eq_true]
    exact .inl hk
  refine
    { keys := ?_, shells := ?_
      idem := h.idem, known := h.known, binds := h.binds
      texts := ?_, distinct := ?_, records := h.records
      call := h.call
      journal := fun r t hc hp => ⟨(h.journal r t hc hp).1, hmono _ (h.journal r t hc hp).2⟩
      stale := fun r hr t hp => hmono _ (h.stale r hr t hp)
      connected := h.connected, offline := h.offline
      rest := fun rest hrest => by rw [show w.supervisor = .resolving rest from hrest] at hsup; cases hsup
      opened := h.opened, refused := h.refused }
  · intro k hk
    rcases h.keys k hk with hj | hs
    · exact .inl (hmono k hj)
    · exact .inr hs
  · intro k id hm hal
    rcases h.shells k id hm hal with hj | hs
    · exact .inl (hmono k hj)
    · exact .inr hs
  · intro p hp
    rcases List.mem_append.mp hp with hp | hp
    · exact h.texts p hp
    · cases List.mem_singleton.mp hp
      exact ⟨key, rfl⟩
  · simp only [ServerRecord.pushPendingOpen, List.map_append]
    refine List.Nodup.append h.distinct (List.nodup_singleton _) ?_
    intro text htext hsingle
    cases List.mem_singleton.mp hsingle
    obtain ⟨p, hp, hk⟩ := List.mem_map.mp htext
    rw [journaled_of_mem hp hk] at hnew
    cases hnew

theorem inv_openShell (h : Inv user w) {key : IdempotencyKey} (hnew : w.journaled key = false) (name : String)
    (cols rows : UInt16) (pushed saved : Bool) : Inv user (w.openShell key name cols rows pushed saved) := by
  unfold openShell
  split
  · rename_i hsup hidle _
    cases pushed with
    | false => exact h
    | true =>
      have hpush := inv_push h hnew hsup name
      simp only [request, Bool.true_eq_false, if_false]
      by_cases hcontrol : w.control = true
      · rw [if_pos hcontrol]
        have hjournaled : ({ w with store := w.store.pushPendingOpen (hex key.toList) name } : JournalWorld V).journaled key =
            true := journaled_of_mem (p := ⟨hex key.toList, name⟩) (List.mem_append_right _ (List.mem_singleton.mpr rfl)) rfl
        refine inv_send (r := ⟨key, .journaled (hex key.toList), cols, rows⟩) hpush hcontrol ?_ ?_ (.inl hjournaled)
        · intro t ht
          cases ht
          exact ⟨rfl, hjournaled⟩
        · intro t rest _ hrest
          rw [show w.supervisor = .resolving rest from hrest] at hsup
          cases hsup
      · -- the key was not sent; it comes off again, if that can be saved
        rw [if_neg hcontrol]
        simp only [failed]
        cases saved with
        | false =>
          rw [ServerRecord.mutate, if_neg (by decide)]
          rw [← hidle]
          exact hpush
        | true =>
          have hfilter : (w.store.pushPendingOpen (hex key.toList) name).dropPendingOpen (hex key.toList) = w.store := by
            have hkeep : w.store.pendingOpens.filter (fun p => p.idempotencyKey != hex key.toList) = w.store.pendingOpens := by
              apply List.filter_eq_self.mpr
              intro p hp
              rw [bne_iff_ne]
              intro heq
              rw [journaled_of_mem hp heq] at hnew
              cases hnew
            simp only [ServerRecord.pushPendingOpen, ServerRecord.dropPendingOpen, List.filter_append, hkeep]
            simp
          rw [ServerRecord.mutate, if_pos rfl, hfilter, ← hidle]
          exact h
  · exact h

/-- A recovery opens with the key of its shell. -/
theorem inv_reopen (h : Inv user w) {a : AttachCall} {key : IdempotencyKey} (hidle : w.call = none)
    (hkey : (key, a.id) ∈ w.opened ∧ w.kept a.id) (saved : Bool) : Inv user (w.request ⟨key, .recovering a, 0, 0⟩ saved) := by
  unfold request
  split
  · rename_i hcontrol
    exact inv_send h hcontrol nofun nofun (.inr ⟨a.id, hkey⟩)
  · unfold failed
    rw [← hidle]
    exact h

/-! ## Ends -/

theorem leftBehind_mem {r : OpenCall} (h : r ∈ w.leftBehind) : w.call = some r := by
  unfold leftBehind at h
  split at h
  · exact Option.mem_toList.mp h
  · cases h

/-- The client is cut off: what it awaited may still be served. -/
theorem inv_cut (h : Inv user w) {supervisor : Supervisor}
    (hrest : ∀ rest, supervisor = .resolving rest → w.supervisor = .resolving rest ∧ rest = []) :
    Inv user { w with
      supervisor := supervisor, control := false, call := none, answer := none, stale := w.stale ++ w.leftBehind } := by
  refine
    { keys := h.keys, shells := h.shells
      idem := h.idem, known := h.known, binds := h.binds
      texts := h.texts, distinct := h.distinct, records := h.records
      call := fun _ h' => by cases h'
      journal := fun _ _ h' => by cases h'
      stale := ?_
      connected := fun h' => by cases h'
      offline := fun _ => rfl
      rest := ?_
      toAnswerInv := .of_idle rfl }
  · intro r hr t hp
    rcases List.mem_append.mp hr with hr | hr
    · exact h.stale r hr t hp
    · exact (h.journal r t (leftBehind_mem hr) hp).2
  · intro rest hsup
    obtain ⟨hold, hnil⟩ := hrest rest hsup
    obtain ⟨hmem, hnodup, _, _⟩ := h.rest rest hold
    exact ⟨hmem, hnodup, fun hne => absurd hnil hne, fun _ _ h' => by cases h'⟩

theorem inv_lose (h : Inv user w) {saved : Bool} (hok : refusesOnly user w (.lose saved) = true) :
    Inv user (w.lose saved) := by
  simp only [refusesOnly, Bool.and_eq_true] at hok
  obtain ⟨hrecovers, hresolved⟩ := hok
  have hcut : Inv user { w with control := false, call := none, answer := none, stale := w.stale ++ w.leftBehind } := by
    refine inv_cut h ?_
    intro rest hsup
    rw [hsup] at hresolved
    exact ⟨hsup, List.isEmpty_iff.mp hresolved⟩
  have heq : w.lose saved =
      { w with control := false, call := none, answer := none, stale := w.stale ++ w.leftBehind } := by
    cases hc : w.call with
    | none => simp only [lose, hc]
    | some r =>
      rw [hc, Option.all_some, OpenCall.recovers] at hrecovers
      cases hp : r.purpose with
      | journaled t => rw [hp] at hrecovers; cases hrecovers
      | recovering shellHex => simp only [lose, hc, failed, hp]
  rw [heq]
  exact hcut

theorem inv_settled (h : Inv user w) (listed : Bool) : Inv user (w.settled listed) := by
  unfold settled
  split
  · rename_i hsup hidle
    split
    · exact
        { h with
          offline := fun hoff => by rcases hoff with hoff | hoff <;> cases hoff
          rest := fun _ h' => by cases h' }
    · exact
        { h with
          call := fun r hc => by rw [show w.call = some r from hc] at hidle; cases hidle
          connected := fun h' => by cases h'
          offline := fun _ => rfl
          rest := fun _ h' => by cases h' }
  · exact h

theorem inv_connect (h : Inv user w) (hok : refusesOnly user w .connect = true) :
    Inv user (w.step S user .connect) := by
  simp only [step]
  split
  · rename_i hsup
    have hoff := h.offline (.inr hsup)
    have hidle : ∀ r, w.call ≠ some r := by
      intro r hc
      rw [h.call r hc] at hoff
      cases hoff
    exact
      { h with
        call := fun r hc => absurd hc (hidle r)
        connected := fun _ => List.isEmpty_iff.mp hok
        offline := fun hoff => by rcases hoff with hoff | hoff <;> cases hoff
        rest := fun rest hrest => by
          cases hrest
          exact ⟨fun _ hp => hp, h.distinct, fun _ => rfl, fun r _ hc => absurd hc (hidle r)⟩ }
  · exact h

theorem inv_refuse (h : Inv user w) {code : ErrorCode} {retryable : Bool} {message : String}
    (hok : refusesOnly user w (.refuse code retryable message) = true) :
    Inv user (w.step S user (.refuse code retryable message)) := by
  simp only [step]
  split
  · exact
      { h with
        opened := fun _ _ _ _ _ _ ha => by cases ha
        refused := fun r t a hc hp _ _ id hm => by
          simp only [refusesOnly, show w.call = some r from hc, Option.all_some, OpenCall.recovers, hp, Bool.false_or,
            List.all_eq_true] at hok
          have := hok _ hm
          show w.alive id = false
          simpa using this }
  · exact h

end JournalWorld

end Holdfast.Client

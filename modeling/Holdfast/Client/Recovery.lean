/-
  Holdfast.Client.Recovery — a native client and its stored entry for a shell, against
  the session manager (`attach_failure_action` of `crates/native-client/src/lib.rs`,
  `attach_with_recovery` and `recover_token` of `crates/client-core/src/server.rs`,
  `run_session` and `recover_shell` of `crates/native-client/src/cli.rs`).

  Every attach rotates the token, so a client whose token was rotated by another one, or
  whose own answer was lost, is refused. With an idempotency key it recovers: it asks
  whether the shell still runs, opens it again with the key, and attaches with the new
  token. The client's requests are served and answered at different moments, with
  anything in between: other clients, exits, the loss of the connection with or without
  the request having been served.

  The two clients differ in two places. The desktop recovers once per attach and then
  treats a refused token as if there were no key; the CLI recovers as often as it takes,
  but forgets the shell when a recovery fails for whatever reason (`lostKey` and
  `failedRecovery` below).

  Proved:
  - `truthful_run`: an answer on its way that says the shell is gone is still right.
  - `forgets_only_gone`: apart from these two places, an entry is deleted only when the
    user asks, when the shell no longer runs for the client's account, or when its token
    is refused and there is no key.
  - `forgets_running_shell`: runs in which the shell is running.
-/

import Holdfast.Daemon.Forwarder
import Holdfast.Session.Ends

namespace Holdfast.Client

open Holdfast.Base Holdfast.Session Holdfast.Daemon

/-! ## The retry policy -/

inductive AttachError where
  | transport
  | rejected (code : ErrorCode) (retryable : Bool) (message : String)
  deriving DecidableEq, Repr

inductive FailureAction where
  | retry
  | recoverViaIdempotency
  | forgetAndExit
  | exitKeepToken
  deriving DecidableEq, Repr

/-- The codes that refuse a token. -/
def refusesToken (code : ErrorCode) : Bool := code = .errTokenExpired || code = .errTokenReplayed

def attachFailureAction (error : AttachError) (haveIdempotencyKey : Bool) : FailureAction :=
  match error with
  | .transport => .retry
  | .rejected code retryable _ =>
    match code with
    | .errTokenExpired | .errTokenReplayed => if haveIdempotencyKey then .recoverViaIdempotency else .forgetAndExit
    | .errNotFound => .forgetAndExit
    | _ => if retryable then .retry else .exitKeepToken

theorem attachFailureAction_forget {code : ErrorCode} {retryable : Bool} {message : String} {haveKey : Bool}
    (h : attachFailureAction (.rejected code retryable message) haveKey = .forgetAndExit) :
    code = .errNotFound ∨ refusesToken code = true ∧ haveKey = false := by
  cases code <;> cases haveKey <;> cases retryable <;> simp_all [attachFailureAction, refusesToken]

/-! ## A client and the server -/

inductive ClientKind where
  | desktop
  | cli
  deriving DecidableEq, Repr

structure NativeClient where
  kind : ClientKind
  /-- The account it is connected as. -/
  user : String
  shell : ShellId
  cols : UInt16
  rows : UInt16

/-- A stored entry, or a session's own copy of it. -/
structure Creds where
  token : ResumeToken
  idempotencyKey : Option IdempotencyKey
  deriving DecidableEq, Repr

/-- Where the client is. -/
inductive Call where
  | idle
  | attaching (creds : Creds) (recovered : Bool)
  /-- The presence check of a recovery. -/
  | listing (creds : Creds)
  | reopening (creds : Creds)
  /-- The key resolved to another shell, which is terminated. -/
  | terminating (creds : Creds) (other : ShellId)
  /-- The CLI in its session. -/
  | attached (creds : Creds) (attachmentId : Nat)
  deriving DecidableEq, Repr

inductive Answer where
  | attached (token : ResumeToken) (attachmentId : Nat)
  | listed (running : Bool)
  | opened (shellId : ShellId) (token : ResumeToken)
  | rejected (code : ErrorCode) (retryable : Bool) (message : String)
  | done
  deriving DecidableEq, Repr

structure World (V : Type) where
  server : Manager V
  store : Option Creds
  call : Call
  /-- The answer to the call, on its way. -/
  answer : Option Answer
  /-- The attachments this client reads. -/
  mine : List Nat
  /-- Messages forwarded on an attachment and not yet read. -/
  wire : Nat → List Msg

/-- What the outside decides while a request is served. -/
structure ServeEnv where
  attach : Runtime.AttachEnv
  opening : OpenEnv
  kill : Except PtyError Unit

inductive WorldOp where
  /-- Another party's operation on the server. -/
  | others (op : Op)
  /-- The client starts an attach with its stored entry. -/
  | start
  | serve (env : ServeEnv)
  /-- The connection refuses the request before it gets to the manager. -/
  | refuse (code : ErrorCode) (retryable : Bool) (message : String)
  | receive
  /-- The connection is lost. -/
  | lose
  | forward (attachmentId : Nat)
  | read (attachmentId : Nat)
  /-- The user has the shell forgotten. -/
  | forget
  | quit

def answerOf : Res → Answer
  | .opened o => .opened o.shellId o.resumeToken
  | .attached a => .attached a.rotatedResumeToken a.attachmentId
  | .err e => .rejected (sessionErrorCode e).1 (sessionErrorCode e).2 e.toText
  | _ => .done

namespace World

variable {V : Type} (S : Server V) (c : NativeClient)

/-- The request that the client's call puts to the manager. -/
def request (w : World V) (env : ServeEnv) : Option Op :=
  match w.call with
  | .attaching creds _ => some (.attach c.user c.shell creds.token c.cols c.rows env.attach)
  | .reopening creds =>
    let (cols, rows) := if c.kind = .desktop then (0, 0) else (c.cols, c.rows)
    creds.idempotencyKey.map fun key => .openShell ⟨c.user, none, none, [], cols, rows, key⟩ env.opening
  | .terminating _ other => some (.terminate other env.kill)
  | _ => none

def forgotten (w : World V) : World V := { w with store := none, call := .idle }

/-- `persist_entry` of the CLI keeps whatever key is stored, the desktop's
    `update_token` only touches an entry that is there. -/
def saveToken (w : World V) (token : ResumeToken) : World V :=
  match c.kind with
  | .desktop => { w with store := w.store.map fun creds => { creds with token := token } }
  | .cli => { w with store := some ⟨token, w.store.bind (·.idempotencyKey)⟩ }

/-- A recovery failed: the desktop gives up for now, the CLI forgets the shell. -/
def recoveryFailed (w : World V) : World V :=
  match c.kind with
  | .desktop => { w with call := .idle }
  | .cli => w.forgotten

def haveKey (creds : Creds) (recovered : Bool) : Bool :=
  creds.idempotencyKey.isSome && !(c.kind = .desktop && recovered)

def attachFailed (w : World V) (creds : Creds) (recovered : Bool) (error : AttachError) : World V :=
  match attachFailureAction error (haveKey c creds recovered) with
  | .retry => { w with call := if c.kind = .desktop then .idle else .attaching creds recovered }
  | .exitKeepToken => { w with call := .idle }
  | .forgetAndExit => w.forgotten
  | .recoverViaIdempotency => { w with call := .listing creds }

/-- The client takes the answer to its call. -/
def answered (w : World V) : Answer → World V
  | .attached token attachmentId =>
    match w.call with
    | .attaching creds _ =>
      let w := { w.saveToken c token with mine := attachmentId :: w.mine }
      match c.kind with
      | .desktop => { w with call := .idle }
      | .cli => { w with call := .attached { creds with token := token } attachmentId }
    | _ => w
  | .listed running =>
    match w.call with
    | .listing creds => if running then { w with call := .reopening creds } else w.forgotten
    | _ => w
  | .opened shellId token =>
    match w.call with
    | .reopening creds =>
      if shellId = c.shell then
        { w.saveToken c token with call := .attaching { creds with token := token } true }
      else { w with call := .terminating creds shellId }
    | _ => w
  | .rejected code retryable message =>
    match w.call with
    | .attaching creds recovered => w.attachFailed c creds recovered (.rejected code retryable message)
    | .listing _ | .reopening _ | .terminating _ _ => w.recoveryFailed c
    | _ => w
  | .done =>
    match w.call with
    | .terminating _ _ => w.recoveryFailed c
    | _ => w

/-- The connection is lost under the client's call. -/
def lost (w : World V) : World V :=
  match w.call with
  | .idle => w
  | .attaching creds recovered => w.attachFailed c creds recovered .transport
  | .listing _ | .reopening _ | .terminating _ _ => w.recoveryFailed c
  | .attached creds _ => { w with call := .attaching creds false }

/-- The attachments whose frames the client reads: the desktop's pumps read on, the CLI
    reads the one of its session. -/
def reading (w : World V) (attachmentId : Nat) : Bool :=
  match c.kind with
  | .desktop => w.mine.contains attachmentId
  | .cli =>
    match w.call with
    | .attached _ i => i = attachmentId
    | _ => false

def readFrame (w : World V) (attachmentId : Nat) : World V :=
  match w.wire attachmentId with
  | m :: rest =>
    let w := { w with wire := Function.update w.wire attachmentId rest }
    match m with
    | .shellExited _ _ =>
      match c.kind with
      | .desktop => { w with store := none }
      | .cli => w.forgotten
    | _ => w
  | [] => w

def serve (w : World V) (env : ServeEnv) : World V :=
  match w.answer, w.call with
  | none, .listing _ => { w with answer := some (.listed (w.server.runs c.user c.shell)) }
  | none, _ =>
    match w.request c env with
    | some op => { w with server := (w.server.step S op).1, answer := some (answerOf (w.server.step S op).2) }
    | none => w
  | some _, _ => w

def forward (w : World V) (attachmentId : Nat) : World V :=
  let r := w.server.step S (.recv c.shell attachmentId)
  let w := { w with server := r.1 }
  match r.2 with
  | .event (some ev) =>
    { w with wire := Function.update w.wire attachmentId (w.wire attachmentId ++ [messageOf ev]) }
  | _ => w

/-- The codes a connection refuses requests with: never one that judges the token or the
    shell. -/
def connectionCode (code : ErrorCode) : Bool := !refusesToken code && code != .errNotFound

def step (w : World V) : WorldOp → World V
  | .others op => { w with server := (w.server.step S op).1 }
  | .start =>
    match w.call, w.store with
    | .idle, some creds => { w with call := .attaching creds false, answer := none }
    | _, _ => w
  | .serve env => w.serve S c env
  | .refuse code retryable message =>
    if w.answer.isNone && connectionCode code then { w with answer := some (.rejected code retryable message) } else w
  | .receive =>
    match w.answer with
    | some a => { w with answer := none }.answered c a
    | none => w
  | .lose => { w with answer := none }.lost c
  | .forward attachmentId => w.forward S c attachmentId
  | .read attachmentId => if w.reading c attachmentId then w.readFrame c attachmentId else w
  | .forget => { w with store := none }
  | .quit => { w with call := .idle, answer := none }

def machine : Machine (World V) WorldOp Unit := ⟨fun w op => (w.step S c op, ())⟩

/-- A server that was run before, and a client that has an entry stored. -/
def init (before : List Op) (creds : Creds) : World V :=
  ⟨(Manager.machine S).run .empty before, some creds, .idle, none, [], fun _ => []⟩

/-! ## What a run promises -/

/-- The operation on the server that a step performs. -/
def served (w : World V) : WorldOp → Option Op
  | .others op => some op
  | .serve env => if w.answer.isSome then none else w.request c env
  | .forward attachmentId => some (.recv c.shell attachmentId)
  | _ => none

/-- `rand::random` neither repeats an id nor hits on the one the client has stored. -/
def fresh (w : World V) (op : WorldOp) : Bool :=
  match w.served c op with
  | some sop =>
    Manager.freshId S w.server sop &&
      match (w.server.step S sop).2 with
      | .opened o => o.reused || o.shellId != c.shell
      | _ => true
  | none => true

/-- The step deletes the stored entry. -/
def forgets (w : World V) (op : WorldOp) : Bool := w.store.isSome && (w.step S c op).store.isNone

def isForget : WorldOp → Bool
  | .forget => true
  | _ => false

/-- The token is refused and there is no key to recover with. -/
def unrecoverable (w : World V) : Bool :=
  match w.call, w.answer with
  | .attaching creds _, some (.rejected code _ _) => refusesToken code && creds.idempotencyKey.isNone
  | _, _ => false

/-- The desktop's token is refused again after a recovery in the same attach. -/
def lostKey (w : World V) : Bool :=
  match w.call, w.answer with
  | .attaching creds recovered, some (.rejected code _ _) =>
    c.kind = .desktop && recovered && refusesToken code && creds.idempotencyKey.isSome
  | _, _ => false

/-- The CLI's recovery fails, and not because the shell is not listed as running. -/
def failedRecovery (w : World V) (op : WorldOp) : Bool :=
  match w.call with
  | .listing _ | .reopening _ | .terminating _ _ =>
    c.kind = .cli &&
      match op, w.answer with
      | .receive, some (.listed false) => false
      | _, _ => true
  | _ => false

/-! ## Answers on their way -/

/-- What is on its way and says that the shell is gone is right, whenever it arrives. -/
structure Truthful (w : World V) : Prop where
  capacity : Manager.CapacityInv S w.server
  exits : w.server.ExitsOver c.shell
  refused : ∀ creds recovered retryable message, w.call = .attaching creds recovered →
    w.answer = some (.rejected .errNotFound retryable message) → w.server.runs c.user c.shell = false
  listed : w.answer = some (.listed false) → w.server.runs c.user c.shell = false
  exited : ∀ i exitCode signaled, .shellExited exitCode signaled ∈ w.wire i → w.server.runs c.user c.shell = false

variable {S c}

theorem truthful_init {before : List Op} (creds : Creds)
    (hf : (Manager.machine S).Admissible (Manager.FreshId S) .empty before) : Truthful S c (init S before creds) where
  capacity := Manager.capacityInv_run (Manager.capacityInv_empty S) hf
  exits := Manager.exitsOver_run hf c.shell
  refused _ _ _ _ h := by cases h
  listed h := by cases h
  exited _ _ _ h := by cases h

/-- What an operation on the server keeps. -/
theorem Truthful.serves {w : World V} (h : Truthful S c w) {op : WorldOp} {sop : Op} (hs : w.served c op = some sop)
    (hf : fresh S c w op = true) :
    Manager.CapacityInv S (w.server.step S sop).1 ∧ (w.server.step S sop).1.ExitsOver c.shell ∧
      (w.server.runs c.user c.shell = false → (w.server.step S sop).1.runs c.user c.shell = false) := by
  simp only [fresh, hs, Bool.and_eq_true] at hf
  obtain ⟨hfresh, hnew⟩ := hf
  refine ⟨Manager.capacityInv_step h.capacity hfresh, Manager.exitsOver_step h.capacity hfresh h.exits, ?_⟩
  intro hr
  refine Manager.runs_step h.capacity ?_ hr
  intro token hres
  rw [hres] at hnew
  simp at hnew

theorem truthful_others {w : World V} (h : Truthful S c w) {op : Op} (hf : fresh S c w (.others op) = true) :
    Truthful S c (w.step S c (.others op)) := by
  have hs : w.served c (.others op) = some op := rfl
  obtain ⟨hcap, hexits, hruns⟩ := h.serves hs hf
  exact ⟨hcap, hexits, fun creds r ra me hc ha => hruns (h.refused creds r ra me hc ha),
    fun ha => hruns (h.listed ha), fun i code sig hm => hruns (h.exited i code sig hm)⟩

/-- The two errors that are answered as ERR_NOT_FOUND. -/
theorem notFound_iff {e : SessionError} :
    (sessionErrorCode e).1 = .errNotFound ↔ e = .shellNotFound ∨ e = .notRunning := by
  cases e <;> simp [sessionErrorCode]

theorem answerOf_rejected {res : Res} {code : ErrorCode} {retryable : Bool} {message : String}
    (h : answerOf res = .rejected code retryable message) : ∃ e, res = .err e ∧ (sessionErrorCode e).1 = code := by
  cases res <;> cases h
  exact ⟨_, rfl, rfl⟩

theorem answerOf_ne_listed (res : Res) (b : Bool) : answerOf res ≠ .listed b := by
  cases res <;> exact nofun

theorem truthful_serve {w : World V} (h : Truthful S c w) {env : ServeEnv} (hf : fresh S c w (.serve env) = true) :
    Truthful S c (w.serve S c env) := by
  unfold serve
  split
  · exact ⟨h.capacity, h.exits, (by intro _ _ _ _ _ ha; cases ha),
      (by intro ha; exact Answer.listed.inj (Option.some.inj ha)), h.exited⟩
  · rename_i hanswer _
    split
    · rename_i sop hreq
      have hs : w.served c (.serve env) = some sop := by simp [served, hanswer, hreq]
      obtain ⟨hcap, hexits, hruns⟩ := h.serves hs hf
      refine ⟨hcap, hexits, ?_, ?_, fun i code sig hm => hruns (h.exited i code sig hm)⟩
      · -- an attach that was answered with ERR_NOT_FOUND
        intro creds recovered retryable message hcall ha
        replace hcall : w.call = .attaching creds recovered := hcall
        obtain ⟨e, hres, hcode⟩ := answerOf_rejected (Option.some.inj ha)
        simp only [request, hcall, Option.some.injEq] at hreq
        subst hreq
        exact Manager.attach_gone h.capacity.keyed hres (notFound_iff.mp hcode)
      · intro ha
        exact absurd (Option.some.inj ha) (answerOf_ne_listed _ _)
    · exact h
  · exact h

theorem truthful_forward {w : World V} (h : Truthful S c w) {i : Nat} (hf : fresh S c w (.forward i) = true) :
    Truthful S c (w.forward S c i) := by
  have hs : w.served c (.forward i) = some (.recv c.shell i) := rfl
  obtain ⟨hcap, hexits, hruns⟩ := h.serves hs hf
  unfold forward
  simp only
  split
  · rename_i ev hres
    refine ⟨hcap, hexits, fun creds r ra me hc ha => hruns (h.refused creds r ra me hc ha),
      fun ha => hruns (h.listed ha), ?_⟩
    intro j code sig hm
    simp only at hm
    by_cases hj : j = i
    · subst hj
      rw [Function.update_self] at hm
      rcases List.mem_append.mp hm with hm | hm
      · exact hruns (h.exited j code sig hm)
      · cases ev with
        | output data => simp [messageOf] at hm
        | exited x => exact hruns (Manager.recv_gone h.capacity.keyed h.exits hres c.user)
    · rw [Function.update_of_ne hj] at hm
      exact hruns (h.exited j code sig hm)
  · exact ⟨hcap, hexits, fun creds r ra me hc ha => hruns (h.refused creds r ra me hc ha),
      fun ha => hruns (h.listed ha), fun j code sig hm => hruns (h.exited j code sig hm)⟩

/-- A step of the client alone, which leaves no answer behind and reads nothing twice. -/
theorem Truthful.client {w w' : World V} (h : Truthful S c w) (hserver : w'.server = w.server)
    (hanswer : w'.answer = none ∨ w'.answer = w.answer ∧ (w'.call = w.call ∨ w'.call = .idle))
    (hwire : ∀ i, w'.wire i ⊆ w.wire i) : Truthful S c w' := by
  refine ⟨hserver ▸ h.capacity, hserver ▸ h.exits, ?_, ?_, fun i code sig hm => hserver ▸ h.exited i code sig (hwire i hm)⟩
  · intro creds r ra me hc ha
    rw [hserver]
    rcases hanswer with hn | ⟨hsame, hcall | hidle⟩
    · rw [hn] at ha; cases ha
    · exact h.refused creds r ra me (hcall ▸ hc) (hsame ▸ ha)
    · rw [hidle] at hc; cases hc
  · intro ha
    rw [hserver]
    rcases hanswer with hn | ⟨hsame, -⟩
    · rw [hn] at ha; cases ha
    · exact h.listed (hsame ▸ ha)

/-- What the client does with an answer, or without one, is its own business. -/
structure Own (w w' : World V) : Prop where
  server : w'.server = w.server
  answer : w'.answer = w.answer
  wire : w'.wire = w.wire

theorem own_saveToken (w : World V) (token : ResumeToken) : Own w (w.saveToken c token) := by
  unfold saveToken
  split <;> exact ⟨rfl, rfl, rfl⟩

theorem own_recoveryFailed (w : World V) : Own w (w.recoveryFailed c) := by
  unfold recoveryFailed
  split <;> exact ⟨rfl, rfl, rfl⟩

theorem own_attachFailed (w : World V) (creds : Creds) (recovered : Bool) (error : AttachError) :
    Own w (w.attachFailed c creds recovered error) := by
  unfold attachFailed
  split <;> exact ⟨rfl, rfl, rfl⟩

theorem own_answered (w : World V) (a : Answer) : Own w (w.answered c a) := by
  have hself : Own w w := ⟨rfl, rfl, rfl⟩
  cases a with
  | attached token i =>
    have hsave := own_saveToken (c := c) w token
    simp only [answered]
    split
    · split <;> exact ⟨hsave.server, hsave.answer, hsave.wire⟩
    · exact hself
  | listed running =>
    simp only [answered]
    split
    · split <;> exact ⟨rfl, rfl, rfl⟩
    · exact hself
  | opened shellId token =>
    have hsave := own_saveToken (c := c) w token
    simp only [answered]
    split
    · split
      · exact ⟨hsave.server, hsave.answer, hsave.wire⟩
      · exact ⟨rfl, rfl, rfl⟩
    · exact hself
  | rejected code retryable message =>
    simp only [answered]
    split
    · exact own_attachFailed ..
    · exact own_recoveryFailed ..
    · exact own_recoveryFailed ..
    · exact own_recoveryFailed ..
    · exact hself
  | done =>
    simp only [answered]
    split
    · exact own_recoveryFailed ..
    · exact hself

theorem own_lost (w : World V) : Own w (w.lost c) := by
  unfold lost
  split
  · exact ⟨rfl, rfl, rfl⟩
  · exact own_attachFailed ..
  · exact own_recoveryFailed ..
  · exact own_recoveryFailed ..
  · exact own_recoveryFailed ..
  · exact ⟨rfl, rfl, rfl⟩

theorem truthful_read {w : World V} (h : Truthful S c w) (i : Nat) : Truthful S c (w.readFrame c i) := by
  unfold readFrame
  split
  · rename_i m rest hw
    have hsub : ∀ j, Function.update w.wire i rest j ⊆ w.wire j := by
      intro j
      by_cases hj : j = i
      · subst hj
        rw [Function.update_self, hw]
        exact List.subset_cons_self _ _
      · rw [Function.update_of_ne hj]
        exact List.Subset.refl _
    simp only
    split
    · split
      · exact h.client rfl (.inr ⟨rfl, .inl rfl⟩) hsub
      · exact h.client rfl (.inr ⟨rfl, .inr rfl⟩) hsub
    · exact h.client rfl (.inr ⟨rfl, .inl rfl⟩) hsub
  · exact h

theorem truthful_step {w : World V} (h : Truthful S c w) {op : WorldOp} (hf : fresh S c w op = true) :
    Truthful S c (w.step S c op) := by
  have hall : ∀ i, w.wire i ⊆ w.wire i := fun i => List.Subset.refl _
  cases op with
  | others op => exact truthful_others h hf
  | start =>
    simp only [step]
    split
    · exact h.client rfl (.inl rfl) hall
    · exact h
  | serve env => exact truthful_serve h hf
  | refuse code retryable message =>
    simp only [step]
    split
    · rename_i hcode
      refine ⟨h.capacity, h.exits, ?_, (by intro ha; cases ha), h.exited⟩
      intro _ _ _ _ _ ha
      cases ha
      simp [connectionCode] at hcode
    · exact h
  | receive =>
    simp only [step]
    split
    · have hown := own_answered (c := c) { w with answer := none } ‹Answer›
      exact h.client hown.server (.inl hown.answer) fun i => by rw [hown.wire]; exact hall i
    · exact h
  | lose =>
    simp only [step]
    have hown := own_lost (c := c) { w with answer := none }
    exact h.client hown.server (.inl hown.answer) fun i => by rw [hown.wire]; exact hall i
  | forward i => exact truthful_forward h hf
  | read i =>
    simp only [step]
    split
    · exact truthful_read h i
    · exact h
  | forget => exact h.client rfl (.inr ⟨rfl, .inl rfl⟩) hall
  | quit => exact h.client rfl (.inl rfl) hall

theorem truthful_run {w : World V} (h : Truthful S c w) {ops : List WorldOp}
    (hf : (machine S c).Admissible (fun w op => fresh S c w op = true) w ops) :
    Truthful S c ((machine S c).run w ops) :=
  (machine S c).run_induction (P := Truthful S c) (fun _ _ h ho => truthful_step h ho) h hf

/-! ## What is forgotten -/

theorem stored_kept {store : Option Creds} (h : store.isSome = true) : ¬store.isNone = true := by
  intro hnone
  rw [Option.isNone_iff_eq_none.mp hnone] at h
  cases h

theorem store_saveToken {w : World V} (h : w.store.isSome = true) (token : ResumeToken) :
    (w.saveToken c token).store.isSome = true := by
  unfold saveToken
  split
  · simpa using h
  · rfl

theorem forgets_attachFailed {w : World V} {creds : Creds} {recovered : Bool} {error : AttachError}
    (h : w.store.isSome = true) (hn : (w.attachFailed c creds recovered error).store.isNone = true) :
    attachFailureAction error (haveKey c creds recovered) = .forgetAndExit := by
  cases ha : attachFailureAction error (haveKey c creds recovered) with
  | forgetAndExit => rfl
  | retry => simp [attachFailed, ha, Option.isSome_iff_ne_none.mp h] at hn
  | exitKeepToken => simp [attachFailed, ha, Option.isSome_iff_ne_none.mp h] at hn
  | recoverViaIdempotency => simp [attachFailed, ha, Option.isSome_iff_ne_none.mp h] at hn

theorem forgets_recoveryFailed {w : World V} (h : w.store.isSome = true)
    (hn : (w.recoveryFailed c).store.isNone = true) : c.kind = .cli := by
  unfold recoveryFailed at hn
  split at hn
  · simp [Option.isSome_iff_ne_none.mp h] at hn
  · assumption

/-- A key that the client does not use: there is none, or the desktop used it before. -/
theorem haveKey_false {creds : Creds} {recovered : Bool} (h : haveKey c creds recovered = false) :
    creds.idempotencyKey.isNone = true ∨
      c.kind = .desktop ∧ recovered = true ∧ creds.idempotencyKey.isSome = true := by
  cases hk : creds.idempotencyKey with
  | none => exact .inl rfl
  | some key => simpa [haveKey, hk] using h

/-- The answers that make a client forget, in a world where they are truthful. -/
theorem forgets_receive {w : World V} (h : Truthful S c w) {a : Answer} (ha : w.answer = some a)
    (hs : w.store.isSome = true) (hn : ({ w with answer := none }.answered c a).store.isNone = true) :
    w.server.runs c.user c.shell = false ∨ unrecoverable w = true ∨ lostKey c w = true ∨
      failedRecovery c w .receive = true := by
  have hkept := stored_kept hs
  cases a with
  | attached token i =>
    simp only [answered] at hn
    have hsave := store_saveToken (c := c) (w := { w with answer := none }) hs token
    split at hn
    · split at hn <;> simp [Option.isSome_iff_ne_none.mp hsave] at hn
    · exact (hkept hn).elim
  | listed running =>
    simp only [answered] at hn
    split at hn
    · cases running with
      | true => exact (hkept hn).elim
      | false => exact .inl (h.listed ha)
    · exact (hkept hn).elim
  | opened shellId token =>
    simp only [answered] at hn
    have hsave := store_saveToken (c := c) (w := { w with answer := none }) hs token
    split at hn
    · split at hn
      · simp [Option.isSome_iff_ne_none.mp hsave] at hn
      · exact (hkept hn).elim
    · exact (hkept hn).elim
  | rejected code retryable message =>
    simp only [answered] at hn
    split at hn
    · rename_i creds recovered hcall
      have hact := forgets_attachFailed (w := { w with answer := none }) hs hn
      rcases attachFailureAction_forget hact with rfl | ⟨hcode, hkey⟩
      · exact .inl (h.refused _ _ _ _ hcall ha)
      · rcases haveKey_false hkey with hnone | ⟨hkind, hrec, hsome⟩
        · refine .inr (.inl ?_)
          simp [unrecoverable, hcall, ha, hcode, hnone]
        · refine .inr (.inr (.inl ?_))
          simp [lostKey, hcall, ha, hcode, hkind, hrec, hsome]
    all_goals first
      | exact (hkept hn).elim
      | (rename_i hcall
         have hkind := forgets_recoveryFailed (w := { w with answer := none }) hs hn
         exact .inr (.inr (.inr (by simp [failedRecovery, hcall, ha, hkind]))))
  | done =>
    simp only [answered] at hn
    split at hn
    · rename_i hcall
      have hkind := forgets_recoveryFailed (w := { w with answer := none }) hs hn
      exact .inr (.inr (.inr (by simp [failedRecovery, hcall, ha, hkind])))
    · exact (hkept hn).elim

theorem forgets_lose {w : World V} (hs : w.store.isSome = true)
    (hn : ({ w with answer := none }.lost c).store.isNone = true) : failedRecovery c w .lose = true := by
  have hkept := stored_kept hs
  unfold lost at hn
  split at hn
  · exact (hkept hn).elim
  · have hact := forgets_attachFailed (w := { w with answer := none }) hs hn
    cases hact
  all_goals first
    | exact (hkept hn).elim
    | (rename_i hcall
       have hkind := forgets_recoveryFailed (w := { w with answer := none }) hs hn
       replace hcall : w.call = _ := hcall
       simp [failedRecovery, hcall, hkind])

theorem forgets_read {w : World V} (h : Truthful S c w) {i : Nat} (hs : w.store.isSome = true)
    (hn : (w.readFrame c i).store.isNone = true) : w.server.runs c.user c.shell = false := by
  have hkept := stored_kept hs
  unfold readFrame at hn
  split at hn
  · rename_i m rest hw
    simp only at hn
    split at hn
    · rename_i code sig
      exact h.exited i code sig (by rw [hw]; exact List.mem_cons_self)
    · exact (hkept hn).elim
  · exact (hkept hn).elim

/-- Why a client forgets a shell. -/
theorem forgets_cases {w : World V} (h : Truthful S c w) {op : WorldOp} (hf : forgets S c w op = true) :
    isForget op = true ∨ w.server.runs c.user c.shell = false ∨ unrecoverable w = true ∨ lostKey c w = true ∨
      failedRecovery c w op = true := by
  simp only [forgets, Bool.and_eq_true] at hf
  obtain ⟨hs, hn⟩ := hf
  have hkept := stored_kept hs
  cases op with
  | others op => exact (hkept hn).elim
  | start =>
    simp only [step] at hn
    split at hn <;> exact (hkept hn).elim
  | serve env =>
    simp only [step, serve] at hn
    split at hn
    · exact (hkept hn).elim
    · split at hn <;> exact (hkept hn).elim
    · exact (hkept hn).elim
  | refuse code retryable message =>
    simp only [step] at hn
    split at hn <;> exact (hkept hn).elim
  | receive =>
    simp only [step] at hn
    split at hn
    · rename_i a ha
      exact .inr (forgets_receive h ha hs hn)
    · exact (hkept hn).elim
  | lose => exact .inr (.inr (.inr (.inr (forgets_lose hs hn))))
  | forward i =>
    simp only [step, forward] at hn
    split at hn <;> exact (hkept hn).elim
  | read i =>
    simp only [step] at hn
    split at hn
    · exact .inr (.inl (forgets_read h hs hn))
    · exact (hkept hn).elim
  | forget => exact .inl rfl
  | quit => exact (hkept hn).elim

/-- Over every run with any other parties: an entry is deleted only when the user asks,
    when the shell no longer runs for the account, or when its token is refused and there
    is no key. Nothing is said of `lostKey` and `failedRecovery`. -/
theorem forgets_only_gone (S : Server V) (c : NativeClient) (before : List Op) (creds : Creds)
    (hbefore : (Manager.machine S).Admissible (Manager.FreshId S) .empty before) (ops : List WorldOp)
    (hops : (machine S c).Admissible (fun w op => fresh S c w op = true) (init S before creds) ops) :
    ∀ pre op post, ops = pre ++ op :: post → forgets S c ((machine S c).run (init S before creds) pre) op = true →
      lostKey c ((machine S c).run (init S before creds) pre) = false →
      failedRecovery c ((machine S c).run (init S before creds) pre) op = false →
      isForget op = true ∨ ((machine S c).run (init S before creds) pre).server.runs c.user c.shell = false ∨
        unrecoverable ((machine S c).run (init S before creds) pre) = true := by
  intro pre op post hsplit hf hlost hfailed
  subst hsplit
  obtain ⟨hpre, -⟩ := (machine S c).admissible_append.mp hops
  rcases forgets_cases (truthful_run (truthful_init creds hbefore) hpre) hf with h | h | h | h | h
  · exact .inl h
  · exact .inr (.inl h)
  · exact .inr (.inr h)
  · rw [hlost] at h; cases h
  · rw [hfailed] at h; cases h

/-! ## A running shell that is forgotten -/

/-- The server has the shell running, for whomever. -/
def running (m : Manager V) (id : ShellId) : Bool := (m.shells.lookup id).any fun e => e.runtime.state = .running

/-- In this run, an entry is deleted only when the user asks or the shell does not run. -/
def OnlyGone (S : Server V) (c : NativeClient) (before : List Op) (creds : Creds) (ops : List WorldOp) : Prop :=
  ∀ pre op post, ops = pre ++ op :: post → forgets S c ((machine S c).run (init S before creds) pre) op = true →
    isForget op = true ∨ running ((machine S c).run (init S before creds) pre).server c.shell = false

def sampleClient (kind : ClientKind) (user : String) : NativeClient := ⟨kind, user, sampleShell, 80, 24⟩

def sampleEnv : ServeEnv := ⟨⟨.ok (), .repeated 3, 2000⟩, ⟨.ok (), .ok (), .repeated 4, sampleShell, 2000⟩, .ok ()⟩

/-- An entry without a key whose token another client's open rotated away is given up
    with the shell running, and so is one that is tried with another account. -/
theorem forgets_running_shell :
    ¬OnlyGone Server.sample (sampleClient .desktop "ada") [sampleOpen "ada" 1 sampleShell] ⟨.repeated 1, none⟩
        [.others (sampleOpen "ada" 2 sampleShell), .start, .serve sampleEnv, .receive] ∧
      ¬OnlyGone Server.sample (sampleClient .cli "bob") [sampleOpen "ada" 1 sampleShell]
        ⟨.repeated 1, some (Vector.replicate 16 9)⟩ [.start, .serve sampleEnv, .receive] := by
  constructor
  · intro h
    have hgone := h [.others (sampleOpen "ada" 2 sampleShell), .start, .serve sampleEnv] .receive [] rfl (by decide)
    revert hgone
    decide
  · intro h
    have hgone := h [.start, .serve sampleEnv] .receive [] rfl (by decide)
    revert hgone
    decide

/-- A shell that exited is forgotten when the attach is answered. -/
theorem forgets_only_gone_exited :
    let before := [sampleOpen "ada" 1 sampleShell, .pumpEof sampleShell (.ok ⟨true, 0⟩)]
    let creds : Creds := ⟨.repeated 1, some (Vector.replicate 16 9)⟩
    let w := (machine Server.sample (sampleClient .cli "ada")).run (init Server.sample before creds)
      [.start, .serve sampleEnv]
    forgets Server.sample (sampleClient .cli "ada") w .receive = true ∧
      (isForget .receive = true ∨ w.server.runs "ada" sampleShell = false ∨ unrecoverable w = true) :=
  ⟨by decide, forgets_only_gone Server.sample (sampleClient .cli "ada") _ _ (by decide)
    [.start, .serve sampleEnv, .receive] (by decide) [.start, .serve sampleEnv] .receive [] rfl (by decide) (by decide)
    (by decide)⟩

end World

end Holdfast.Client

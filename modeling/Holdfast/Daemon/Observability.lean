/-
  Holdfast.Daemon.Observability — the audit events of uploads and the counters they move
  (`record` and `increment` of `crates/daemon/src/observability.rs`, `begin_upload` and
  `run_upload` of `crates/daemon/src/conn.rs`).

  `Uploads` has what an actor does with its file; here are the events recorded on the way,
  for either backend: what a blocking call came to is part of the move. A start is recorded
  in the same poll that spawns the actor. Anything else is recorded at any time (`other`).
  Each upload keeps the list of what was recorded for it.

  An actor's task is spawned and its handle dropped, so nothing of the daemon cancels it;
  where the runtime drops it while it runs, nothing is recorded.

  Proved (`upload_gauge`), over every run:
  - the gauge is the number of uploads without a terminal event, and each has one at most,
    after its start;
  - a terminal event finds the gauge above zero;
  - with no task dropped, the gauge is the number of actors that run, and every other has
    recorded its end.
  A dropped task stays in the gauge (`upload_gauge_dropped`). `gauge_of_connection`: the
  connections' actors are counted so.
-/

import Holdfast.Daemon.Actors

namespace Holdfast.Daemon.Observability

open Holdfast.Base Holdfast.Protocol Holdfast.Session

/-! ## Events and counters -/

inductive UploadOutcome where
  | cancelled
  | timedOut
  | failed
  deriving DecidableEq, Repr

inductive RejectReason where
  | rateLimited
  | forbidden
  | notFound
  | invalidToken
  | tokenReplayed
  | limitExceeded
  | notRunning
  | invalidRequest
  | internal
  deriving DecidableEq, Repr

inductive AuditEvent where
  | authenticationSucceeded
  | authenticationFailed (reason : RejectReason)
  | shellOpened (reused : Bool)
  | shellOperationRejected (reason : RejectReason)
  | shellAttached
  | shellDetached
  | shellTerminated
  | shellExpired
  | uploadStarted (user : String) (shellId : ShellId) (originalName : String) (bytes : UInt64)
  | uploadCompleted (user : String) (shellId : ShellId) (bytes : UInt64)
  | uploadEnded (user : String) (shellId : ShellId) (outcome : UploadOutcome)
  | uploadRejected (user : String) (shellId : Option ShellId) (reason : RejectReason)
  deriving DecidableEq, Repr

structure Counters where
  authenticationSucceeded : Nat
  authenticationFailed : Nat
  authenticationRateLimited : Nat
  shellsOpened : Nat
  shellOpensReused : Nat
  shellOperationsRejected : Nat
  attachmentsOpened : Nat
  attachmentsDetached : Nat
  shellsTerminated : Nat
  limitHits : Nat
  tokenReplaysDetected : Nat
  shellsExpired : Nat
  uploadsActive : Nat
  uploadsCompleted : Nat
  uploadsCancelled : Nat
  uploadsTimedOut : Nat
  uploadsFailed : Nat
  uploadsRejected : Nat
  uploadBytesCompleted : Nat
  deriving DecidableEq, Repr

/-- One more where it applies. -/
def bump (n : Nat) (applies : Bool) : Nat := if applies then n + 1 else n

def increment (c : Counters) : AuditEvent → Counters
  | .authenticationSucceeded => { c with authenticationSucceeded := c.authenticationSucceeded + 1 }
  | .authenticationFailed reason =>
    { c with
      authenticationFailed := c.authenticationFailed + 1
      authenticationRateLimited := bump c.authenticationRateLimited (reason = .rateLimited) }
  | .shellOpened reused =>
    if reused then { c with shellOpensReused := c.shellOpensReused + 1 } else { c with shellsOpened := c.shellsOpened + 1 }
  | .shellOperationRejected reason =>
    { c with
      shellOperationsRejected := c.shellOperationsRejected + 1
      limitHits := bump c.limitHits (reason = .limitExceeded)
      tokenReplaysDetected := bump c.tokenReplaysDetected (reason = .tokenReplayed) }
  | .shellAttached => { c with attachmentsOpened := c.attachmentsOpened + 1 }
  | .shellDetached => { c with attachmentsDetached := c.attachmentsDetached + 1 }
  | .shellTerminated => { c with shellsTerminated := c.shellsTerminated + 1 }
  | .shellExpired => { c with shellsExpired := c.shellsExpired + 1 }
  | .uploadStarted _ _ _ _ => { c with uploadsActive := c.uploadsActive + 1 }
  | .uploadCompleted _ _ bytes =>
    -- `saturating_sub`
    { c with
      uploadsActive := c.uploadsActive - 1
      uploadsCompleted := c.uploadsCompleted + 1
      uploadBytesCompleted := c.uploadBytesCompleted + bytes.toNat }
  | .uploadEnded _ _ outcome =>
    { c with
      uploadsActive := c.uploadsActive - 1
      uploadsCancelled := bump c.uploadsCancelled (outcome = .cancelled)
      uploadsTimedOut := bump c.uploadsTimedOut (outcome = .timedOut)
      uploadsFailed := bump c.uploadsFailed (outcome = .failed) }
  | .uploadRejected _ _ reason =>
    { c with
      uploadsRejected := c.uploadsRejected + 1
      limitHits := bump c.limitHits (reason = .limitExceeded) }

structure AuditRing where
  capacity : Nat
  records : List AuditEvent
  deriving DecidableEq, Repr

def AuditRing.push (r : AuditRing) (event : AuditEvent) : AuditRing :=
  if r.capacity = 0 then r
  else if r.records.length = r.capacity then { r with records := r.records.tail ++ [event] }
  else { r with records := r.records ++ [event] }

structure Inner where
  counters : Counters
  audit : AuditRing
  deriving DecidableEq, Repr

def record (o : Inner) (event : AuditEvent) : Inner := ⟨increment o.counters event, o.audit.push event⟩

/-- The last event of an upload. -/
def AuditEvent.isTerminal : AuditEvent → Bool
  | .uploadCompleted _ _ _ => true
  | .uploadEnded _ _ _ => true
  | _ => false

def AuditEvent.isStart : AuditEvent → Bool
  | .uploadStarted _ _ _ _ => true
  | _ => false

/-! ## Begins and actors -/

/-- `upload_reject_reason`. -/
def uploadRejectReason : UploadError → RejectReason
  | .limitExceeded => .limitExceeded
  | .validation _ => .invalidRequest
  | .store (.invalidUpload _) => .invalidRequest
  | .spawner true _ => .forbidden
  | .missingAccount => .forbidden
  | .store _ => .internal
  | .spawner false _ => .internal
  | .malformedBackendResponse => .internal
  | .nonUtf8Path => .internal
  | .worker _ => .internal

/-- What `begin_upload` finds at each of its checks. -/
structure Begin where
  user : String
  service : Bool
  negotiated : Bool
  permitted : Bool
  /-- A request id, and nothing else on the channel. -/
  channelFree : Bool
  shellId : Option ShellId
  /-- The user's own shell, and running. -/
  ownRunning : Bool
  room : Bool
  permit : Except UploadError Unit
  begun : Except UploadError Unit
  originalName : String
  totalBytes : UInt64

inductive Phase where
  | running
  /-- The reply is on its way to the connection. -/
  | reporting
  | ended
  deriving DecidableEq, Repr

structure Upload where
  user : String
  shellId : ShellId
  phase : Phase
  /-- What was recorded for it, in order. -/
  events : List AuditEvent
  deriving DecidableEq, Repr

/-- `begin_upload`: what is recorded, and the upload that starts. -/
def beginUpload (b : Begin) : List AuditEvent × Option Upload :=
  let rejected (shellId : Option ShellId) (reason : RejectReason) : List AuditEvent × Option Upload :=
    ([.uploadRejected b.user shellId reason], none)
  if b.service = false ∨ b.negotiated = false then ([], none)
  else if b.permitted = false then rejected none .forbidden
  else if b.channelFree = false then rejected none .invalidRequest
  else
    match b.shellId with
    | none => rejected none .forbidden
    | some id =>
      if b.ownRunning = false then rejected (some id) .forbidden
      else if b.room = false then rejected (some id) .limitExceeded
      else
        match b.permit with
        | .error _ => rejected (some id) .limitExceeded
        | .ok () =>
          match b.begun with
          | .error e => rejected (some id) (uploadRejectReason e)
          | .ok () =>
            let started := AuditEvent.uploadStarted b.user id b.originalName b.totalBytes
            ([started], some ⟨b.user, id, .running, [started]⟩)

/-- What a command comes to; a blocking task that fails to run is an error as well. -/
inductive Command where
  | chunk (written : Except UploadError Unit)
  | finish (bytesWritten : Except UploadError UInt64)
  | abort
  deriving DecidableEq, Repr

inductive Move where
  /-- `none`: every sender is gone. -/
  | recv (command : Option Command)
  | timeout
  /-- The reply is taken, or can no longer be. -/
  | sent
  /-- The task itself is dropped. -/
  | cancel
  deriving DecidableEq, Repr

/-- `run_upload`: what is recorded, and where the actor is then. -/
def runUpload (u : Upload) (m : Move) : List AuditEvent × Phase :=
  match u.phase, m with
  | .running, .recv none => ([.uploadEnded u.user u.shellId .cancelled], .ended)
  | .running, .recv (some .abort) => ([.uploadEnded u.user u.shellId .cancelled], .ended)
  | .running, .timeout => ([.uploadEnded u.user u.shellId .timedOut], .reporting)
  | .running, .recv (some (.chunk (.ok ()))) => ([], .running)
  | .running, .recv (some (.chunk (.error _))) => ([.uploadEnded u.user u.shellId .failed], .reporting)
  | .running, .recv (some (.finish (.ok bytes))) => ([.uploadCompleted u.user u.shellId bytes], .reporting)
  | .running, .recv (some (.finish (.error _))) => ([.uploadEnded u.user u.shellId .failed], .reporting)
  | .running, .cancel => ([], .ended)
  | .reporting, .sent => ([], .ended)
  | .reporting, .cancel => ([], .ended)
  | phase, _ => ([], phase)

def Upload.step (u : Upload) (m : Move) : Upload :=
  { u with phase := (runUpload u m).2, events := u.events ++ (runUpload u m).1 }

/-! ## The daemon -/

structure Observed where
  observability : Inner
  uploads : List Upload
  deriving DecidableEq, Repr

inductive Input where
  | beginUpload (b : Begin)
  | upload (k : Nat) (m : Move)
  | other (event : AuditEvent)

/-- The task of an upload is dropped. -/
def Input.drops : Input → Bool
  | .upload _ .cancel => true
  | _ => false

namespace Observed

def start (capacity : Nat) : Observed := ⟨⟨⟨0, 0, 0, 0, 0, 0, 0, 0, 0, 0, 0, 0, 0, 0, 0, 0, 0, 0, 0⟩, ⟨capacity, []⟩⟩, []⟩

def recordAll (d : Observed) (events : List AuditEvent) : Observed :=
  { d with observability := events.foldl record d.observability }

def uploadsActive (d : Observed) : Nat := d.observability.counters.uploadsActive

/-- A step, and what it records. -/
def step (d : Observed) : Input → Observed × List AuditEvent
  | .beginUpload b =>
    let r := Observability.beginUpload b
    ({ d.recordAll r.1 with uploads := d.uploads ++ r.2.toList }, r.1)
  | .upload k m =>
    match d.uploads[k]? with
    | none => (d, [])
    | some u => ({ d.recordAll (runUpload u m).1 with uploads := d.uploads.set k (u.step m) }, (runUpload u m).1)
  | .other event => if event.isStart || event.isTerminal then (d, []) else (d.recordAll [event], [event])

def machine : Machine Observed Input (List AuditEvent) := ⟨step⟩

end Observed

/-! ## What one upload records -/

/-- No terminal event was recorded. -/
def Upload.unended (u : Upload) : Bool := !u.events.any AuditEvent.isTerminal

/-- A start, and at most one terminal event after it; which of them its phase says. -/
def Upload.Recorded (u : Upload) : Prop :=
  ∃ started, started.isStart = true ∧
    ((u.events = [started] ∧ u.phase ≠ .reporting) ∨
      ∃ last, last.isTerminal = true ∧ u.events = [started, last] ∧ u.phase ≠ .running)

theorem start_not_terminal {event : AuditEvent} (h : event.isStart = true) : event.isTerminal = false := by
  cases event <;> first | rfl | cases h

theorem unended_of_started {u : Upload} {started : AuditEvent} (h : started.isStart = true) (hu : u.events = [started]) :
    u.unended = true := by
  rw [Upload.unended, hu, List.any_cons, List.any_nil, start_not_terminal h]
  rfl

/-- What a move comes to. -/
inductive Ran (u : Upload) (m : Move) : List AuditEvent × Phase → Prop where
  | stays : Ran u m ([], u.phase)
  | leaves (h : u.phase = .reporting) : Ran u m ([], .ended)
  | dropped (h : u.phase = .running) (hm : m = .cancel) : Ran u m ([], .ended)
  | ends (last : AuditEvent) (phase : Phase) (h : u.phase = .running) (hlast : last.isTerminal = true)
      (hphase : phase ≠ .running) : Ran u m ([last], phase)

theorem Ran.same {u : Upload} {m : Move} {phase : Phase} (h : u.phase = phase) : Ran u m ([], phase) := by
  subst h
  exact .stays

theorem runUpload_ran (u : Upload) (m : Move) : Ran u m (runUpload u m) := by
  unfold runUpload
  cases hphase : u.phase with
  | running =>
    rcases m with (_ | written | bytes | _) | _ | _ | _
    · exact .ends _ _ hphase rfl nofun
    · rcases written with error | _
      · exact .ends _ _ hphase rfl nofun
      · exact .same hphase
    · rcases bytes with error | count
      · exact .ends _ _ hphase rfl nofun
      · exact .ends _ _ hphase rfl nofun
    · exact .ends _ _ hphase rfl nofun
    · exact .ends _ _ hphase rfl nofun
    · exact .same hphase
    · exact .dropped hphase rfl
  | reporting =>
    rcases m with command | _ | _ | _
    · exact .same hphase
    · exact .same hphase
    · exact .leaves hphase
    · exact .leaves hphase
  | ended =>
    rcases m with command | _ | _ | _
    · exact .same hphase
    · exact .same hphase
    · exact .same hphase
    · exact .same hphase

theorem recorded_step {u : Upload} (h : u.Recorded) (m : Move) : (u.step m).Recorded := by
  obtain ⟨started, hstart, hcase⟩ := h
  have hran := runUpload_ran u m
  unfold Upload.step
  generalize runUpload u m = r at hran
  refine ⟨started, hstart, ?_⟩
  cases hran with
  | stays =>
    dsimp only
    rw [List.append_nil]
    exact hcase
  | leaves hp =>
    dsimp only
    rw [List.append_nil]
    rcases hcase with ⟨_, hne⟩ | ⟨last, hlast, hevents, _⟩
    · exact absurd hp hne
    · exact .inr ⟨last, hlast, hevents, nofun⟩
  | dropped hp =>
    dsimp only
    rw [List.append_nil]
    rcases hcase with ⟨hevents, _⟩ | ⟨_, _, _, hne⟩
    · exact .inl ⟨hevents, nofun⟩
    · exact absurd hp hne
  | ends last phase hp hlast hphase =>
    dsimp only
    rcases hcase with ⟨hevents, _⟩ | ⟨_, _, _, hne⟩
    · exact .inr ⟨last, hlast, by rw [hevents]; rfl, hphase⟩
    · exact absurd hp hne

theorem unended_quiet {u : Upload} {m : Move} (h : (runUpload u m).1 = []) : (u.step m).unended = u.unended := by
  rw [Upload.unended, Upload.step, h, List.append_nil]
  rfl

theorem ended_step {u : Upload} {m : Move} {last : AuditEvent} (hlast : last.isTerminal = true) (h : (runUpload u m).1 = [last]) :
    (u.step m).unended = false := by
  rw [Upload.unended, Upload.step, h, List.any_append, List.any_cons, hlast, Bool.true_or, Bool.or_true]
  rfl

theorem Upload.Recorded.unended {u : Upload} (h : u.Recorded) (hp : u.phase = .running) : u.unended = true := by
  obtain ⟨started, hstart, ⟨hevents, _⟩ | ⟨_, _, _, hne⟩⟩ := h
  · exact unended_of_started hstart hevents
  · exact absurd hp hne

/-- A move that records something ends an upload that ran; any other leaves it as it was. -/
theorem runUpload_events (u : Upload) (m : Move) :
    (runUpload u m).1 = [] ∨ u.phase = .running ∧ ∃ last, last.isTerminal = true ∧ (runUpload u m).1 = [last] := by
  have hran := runUpload_ran u m
  generalize runUpload u m = r at hran
  cases hran with
  | stays => exact .inl rfl
  | leaves => exact .inl rfl
  | dropped => exact .inl rfl
  | ends last phase hp hlast => exact .inr ⟨hp, last, hlast, rfl⟩

/-- An upload whose task is not dropped runs until it has recorded its end. -/
theorem running_or_ended_step {u : Upload} (h : u.phase ≠ .running → u.unended = false) {m : Move} (hm : m ≠ .cancel)
    (hne : (u.step m).phase ≠ .running) : (u.step m).unended = false := by
  have hran := runUpload_ran u m
  unfold Upload.step at hne ⊢
  generalize runUpload u m = r at hran hne
  cases hran with
  | stays =>
    dsimp only at hne ⊢
    rw [Upload.unended, List.append_nil]
    exact h hne
  | leaves hp =>
    rw [Upload.unended, List.append_nil]
    exact h (by rw [hp]; nofun)
  | dropped _ hcancel => exact absurd hcancel hm
  | ends last phase _ hlast _ =>
    rw [Upload.unended, List.any_append, List.any_cons, hlast, Bool.true_or, Bool.or_true]
    rfl

/-! ## The gauge -/

theorem uploadsActive_start {event : AuditEvent} (h : event.isStart = true) (c : Counters) :
    (increment c event).uploadsActive = c.uploadsActive + 1 := by
  cases event with
  | uploadStarted user shellId originalName bytes => rfl
  | _ => cases h

theorem uploadsActive_last {event : AuditEvent} (h : event.isTerminal = true) (c : Counters) :
    (increment c event).uploadsActive = c.uploadsActive - 1 := by
  cases event with
  | uploadCompleted user shellId bytes => rfl
  | uploadEnded user shellId outcome => rfl
  | _ => cases h

theorem uploadsActive_other {event : AuditEvent} (h : event.isStart = false) (h' : event.isTerminal = false) (c : Counters) :
    (increment c event).uploadsActive = c.uploadsActive := by
  cases event with
  | uploadStarted user shellId originalName bytes => cases h
  | uploadCompleted user shellId bytes => cases h'
  | uploadEnded user shellId outcome => cases h'
  | shellOpened reused => cases reused <;> rfl
  | _ => rfl

/-- What a begin comes to. -/
inductive Begun (b : Begin) : List AuditEvent × Option Upload → Prop where
  | refused (events : List AuditEvent) (h : ∀ event ∈ events, event.isStart = false ∧ event.isTerminal = false) :
    Begun b (events, none)
  | started (started : AuditEvent) (id : ShellId) (h : started.isStart = true) :
    Begun b ([started], some ⟨b.user, id, .running, [started]⟩)

theorem beginUpload_begun (b : Begin) : Begun b (beginUpload b) := by
  have hrejected : ∀ shellId reason, Begun b ([.uploadRejected b.user shellId reason], none) := by
    intro shellId reason
    refine .refused _ fun event hevent => ?_
    rw [List.mem_singleton.mp hevent]
    exact ⟨rfl, rfl⟩
  unfold beginUpload
  dsimp only
  split
  · exact .refused [] nofun
  · split
    · exact hrejected none .forbidden
    · split
      · exact hrejected none .invalidRequest
      · split
        · exact hrejected none .forbidden
        · rename_i id _
          split
          · exact hrejected (some id) .forbidden
          · split
            · exact hrejected (some id) .limitExceeded
            · split
              · exact hrejected (some id) .limitExceeded
              · split
                · exact hrejected (some id) _
                · exact .started _ id rfl

namespace Observed

/-- The gauge counts the uploads without a terminal event. -/
structure Counted (d : Observed) : Prop where
  gauge : d.uploadsActive = d.uploads.countP Upload.unended
  recorded : ∀ u ∈ d.uploads, u.Recorded

theorem recordAll_others (d : Observed) {events : List AuditEvent}
    (h : ∀ event ∈ events, event.isStart = false ∧ event.isTerminal = false) :
    (d.recordAll events).uploadsActive = d.uploadsActive := by
  induction events generalizing d with
  | nil => rfl
  | cons event events ih =>
    obtain ⟨hstart, hlast⟩ := h event List.mem_cons_self
    calc
      (d.recordAll (event :: events)).uploadsActive = ((d.recordAll [event]).recordAll events).uploadsActive := rfl
      _ = (d.recordAll [event]).uploadsActive := ih _ fun e he => h e (List.mem_cons_of_mem _ he)
      _ = d.uploadsActive := uploadsActive_other hstart hlast _

theorem counted_start (capacity : Nat) : Counted (start capacity) := ⟨rfl, nofun⟩

/-- Every step records for the gauge what it does to the uploads. -/
theorem counted_step {d : Observed} (h : Counted d) (i : Input) : Counted (d.step i).1 := by
  cases i with
  | beginUpload b =>
    have hbegun := beginUpload_begun b
    unfold step
    dsimp only
    generalize Observability.beginUpload b = r at hbegun
    cases hbegun with
    | refused events hothers =>
      refine ⟨?_, ?_⟩
      · show (d.recordAll events).uploadsActive = (d.uploads ++ []).countP Upload.unended
        rw [recordAll_others d hothers, List.append_nil]
        exact h.gauge
      · show ∀ u ∈ d.uploads ++ [], u.Recorded
        rw [List.append_nil]
        exact h.recorded
    | started started id hstart =>
      have hnew : (Upload.mk b.user id .running [started]).unended = true := unended_of_started hstart rfl
      refine ⟨?_, ?_⟩
      · show (d.recordAll [started]).uploadsActive = (d.uploads ++ [Upload.mk b.user id .running [started]]).countP Upload.unended
        rw [List.countP_append, List.countP_singleton, if_pos hnew, ← h.gauge]
        exact uploadsActive_start hstart _
      · intro u hu
        rcases List.mem_append.mp hu with hu | hu
        · exact h.recorded u hu
        · obtain rfl := List.mem_singleton.mp hu
          exact ⟨started, hstart, .inl ⟨rfl, nofun⟩⟩
  | upload k m =>
    unfold step
    dsimp only
    split
    · exact h
    · rename_i u hu
      obtain ⟨hlt, hget⟩ := List.getElem?_eq_some_iff.mp hu
      have hmem : u ∈ d.uploads := hget ▸ List.getElem_mem hlt
      refine ⟨?_, ?_⟩
      · show (d.recordAll (runUpload u m).1).uploadsActive = (d.uploads.set k (u.step m)).countP Upload.unended
        have hcount := List.countP_set (p := Upload.unended) (l := d.uploads) (a := u.step m) hlt
        rw [hget] at hcount
        have hpos : u.unended = true → 0 < d.uploads.countP Upload.unended := fun hp => List.countP_pos_iff.mpr ⟨u, hmem, hp⟩
        rcases runUpload_events u m with hquiet | ⟨hp, last, hlast, hevents⟩
        · rw [unended_quiet hquiet] at hcount
          rw [hquiet, hcount]
          show d.uploadsActive = _
          rw [h.gauge]
          split
          · rename_i hun
            exact (Nat.sub_add_cancel (hpos hun)).symm
          · rfl
        · rw [ended_step hlast hevents, (h.recorded u hmem).unended hp, if_pos rfl] at hcount
          rw [hevents, hcount]
          show (increment d.observability.counters last).uploadsActive = _
          rw [uploadsActive_last hlast]
          exact congrArg (· - 1) h.gauge
      · intro v hv
        rcases List.mem_or_eq_of_mem_set hv with hv | rfl
        · exact h.recorded v hv
        · exact recorded_step (h.recorded u hmem) m
  | other event =>
    unfold step
    dsimp only
    split
    · exact h
    · rename_i hother
      rw [Bool.or_eq_true, not_or, Bool.not_eq_true, Bool.not_eq_true] at hother
      exact ⟨(recordAll_others d (by simpa using hother)).trans h.gauge, h.recorded⟩

/-- What is recorded as an end finds its upload in the gauge. -/
theorem last_counted {d : Observed} (h : Counted d) (i : Input) {event : AuditEvent} (hevent : event ∈ (d.step i).2)
    (hlast : event.isTerminal = true) : 0 < d.uploadsActive := by
  cases i with
  | beginUpload b =>
    have hbegun := beginUpload_begun b
    unfold step at hevent
    dsimp only at hevent
    generalize Observability.beginUpload b = r at hbegun hevent
    cases hbegun with
    | refused events hothers => exact absurd hlast (by rw [(hothers event hevent).2]; nofun)
    | started started id hstart =>
      rw [List.mem_singleton.mp hevent, start_not_terminal hstart] at hlast
      cases hlast
  | upload k m =>
    unfold step at hevent
    dsimp only at hevent
    split at hevent
    · cases hevent
    · rename_i u hu
      have hmem := List.mem_of_getElem? hu
      rcases runUpload_events u m with hquiet | ⟨hp, _, _, _⟩
      · rw [hquiet] at hevent
        cases hevent
      · rw [h.gauge]
        exact List.countP_pos_iff.mpr ⟨u, hmem, (h.recorded u hmem).unended hp⟩
  | other event' =>
    unfold step at hevent
    dsimp only at hevent
    split at hevent
    · cases hevent
    · rename_i hother
      rw [List.mem_singleton.mp hevent] at hlast
      rw [hlast, Bool.or_true] at hother
      exact absurd rfl hother

/-- The gauge is the number of actors that run, and every other has recorded its end, after its start
    and once. -/
structure Exact (d : Observed) : Prop where
  gauge : d.uploadsActive = d.uploads.countP fun u => u.phase = .running
  ended : ∀ u ∈ d.uploads, u.phase ≠ .running →
    ∃ started last, started.isStart = true ∧ last.isTerminal = true ∧ u.events = [started, last]

/-- An upload that does not run has recorded its end. -/
def Settled (d : Observed) : Prop := ∀ u ∈ d.uploads, u.phase ≠ .running → u.unended = false

theorem Counted.exact {d : Observed} (h : Counted d) (hs : Settled d) : Exact d := by
  refine ⟨?_, ?_⟩
  · rw [h.gauge]
    refine List.countP_congr fun u hu => ?_
    rw [decide_eq_true_eq]
    constructor
    · intro hun
      by_contra hne
      rw [hs u hu hne] at hun
      cases hun
    · exact (h.recorded u hu).unended
  · intro u hu hne
    obtain ⟨started, hstart, ⟨hevents, _⟩ | ⟨last, hlast, hevents, _⟩⟩ := h.recorded u hu
    · have hended := hs u hu hne
      rw [unended_of_started hstart hevents] at hended
      cases hended
    · exact ⟨started, last, hstart, hlast, hevents⟩

theorem settled_step {d : Observed} (h : Settled d) {i : Input} (hi : i.drops = false) : Settled (d.step i).1 := by
  cases i with
  | beginUpload b =>
    have hbegun := beginUpload_begun b
    unfold step
    dsimp only
    generalize Observability.beginUpload b = r at hbegun
    intro u hu hne
    rcases List.mem_append.mp hu with hu | hu
    · exact h u hu hne
    · cases hbegun with
      | refused => cases hu
      | started started id hstart =>
        obtain rfl := List.mem_singleton.mp hu
        exact absurd rfl hne
  | upload k m =>
    unfold step
    dsimp only
    split
    · exact h
    · rename_i u hu
      have hm : m ≠ .cancel := by
        rintro rfl
        cases hi
      intro v hv hne
      rcases List.mem_or_eq_of_mem_set hv with hv | rfl
      · exact h v hv hne
      · exact running_or_ended_step (h u (List.mem_of_getElem? hu)) hm hne
  | other event =>
    unfold step
    dsimp only
    split <;> exact h

theorem counted_run (capacity : Nat) (inputs : List Input) : Counted (machine.run (start capacity) inputs) :=
  machine.run_always (P := Counted) (fun _ i h => counted_step h i) (counted_start capacity) inputs

theorem settled_run (capacity : Nat) {inputs : List Input} (h : ∀ i ∈ inputs, i.drops = false) :
    Settled (machine.run (start capacity) inputs) :=
  machine.run_induction (P := Settled) (fun _ _ hs hi => settled_step hs hi) (fun _ hu => absurd hu List.not_mem_nil)
    (machine.admissible_of_forall h _)

end Observed

open Observed

/-- In every run the gauge counts the uploads without a terminal event, each of which has one at most,
    after its start, and a terminal event finds the gauge above zero. Where no task is dropped, those
    are the actors that run, and every other has recorded its end. -/
theorem upload_gauge (capacity : Nat) (inputs : List Input) :
    Counted (machine.run (start capacity) inputs) ∧
    (∀ i, ∀ event ∈ (machine.out (machine.run (start capacity) inputs) i), event.isTerminal = true →
      0 < (machine.run (start capacity) inputs).uploadsActive) ∧
    ((∀ i ∈ inputs, Input.drops i = false) → Exact (machine.run (start capacity) inputs)) := by
  have hcounted := counted_run capacity inputs
  exact ⟨hcounted, fun i event hevent hlast => last_counted hcounted i hevent hlast,
    fun hdrops => hcounted.exact (settled_run capacity hdrops)⟩

/-! ## The actors of a connection -/

/-- The phase, and whether the end is still to be recorded. -/
def Upload.status (u : Upload) : Phase × Bool := (u.phase, u.unended)

def phaseOf : UploadPhase → Phase
  | .running _ => .running
  | .reporting _ _ => .reporting
  | .ended => .ended

def statusOf (t : UploadTask) : Phase × Bool := (phaseOf t.phase, t.outcome.isNone)

/-- The move of the actor's task. -/
def moveOf (sha256 : List UInt8 → List UInt8) (t : UploadTask) : UploadInput → Move
  | .recv none _ => .recv none
  | .recv (some .abort) _ => .recv (some .abort)
  | .recv (some (.chunk c)) io =>
    match t.phase, io.worker with
    | .running w, none => .recv (some (.chunk ((w.writeChunk t.directory c io.write).1.mapError .store)))
    | _, some msg => .recv (some (.chunk (.error (.worker msg))))
    | _, none => .recv none
  | .recv (some (.finish uploadId)) io =>
    match t.phase, io.worker with
    | .running w, none =>
      match (w.finishInner sha256 t.directory uploadId none io.finish).1 with
      | .error e => .recv (some (.finish (.error (.store e))))
      | .ok c =>
        match c.remotePath with
        | none => .recv (some (.finish (.error .nonUtf8Path)))
        | some _ => .recv (some (.finish (.ok c.bytesWritten)))
    | _, some msg => .recv (some (.finish (.error (.worker msg))))
    | _, none => .recv none
  | .timeout => .timeout
  | .sent _ => .sent
  | .cancel _ => .cancel

theorem status_step {u : Upload} {m : Move} {phase : Phase} {events : List AuditEvent} (h : runUpload u m = (events, phase)) :
    (u.step m).status = (phase, u.unended && !events.any AuditEvent.isTerminal) := by
  rw [Upload.status, Upload.step, h, Upload.unended, Upload.unended]
  dsimp only
  rw [List.any_append, Bool.not_or]

theorem moveOf_recv (sha256 : List UInt8 → List UInt8) (t : UploadTask) (command : Option UploadCommand) (io : UploadIo) :
    ∃ command', moveOf sha256 t (.recv command io) = .recv command' := by
  unfold moveOf
  repeat' split
  all_goals first | exact ⟨_, rfl⟩ | contradiction

/-- What a step records, and the status after it. -/
theorem follows {sha256 : List UInt8 → List UInt8} {t : UploadTask} {u : Upload} {i : UploadInput} (events : List AuditEvent)
    (phase : Phase) (hu : u.unended = t.outcome.isNone) (hmove : runUpload u (moveOf sha256 t i) = (events, phase))
    (hphase : phaseOf (t.step sha256 i).1.phase = phase)
    (houtcome : (t.step sha256 i).1.outcome.isNone = (t.outcome.isNone && !events.any AuditEvent.isTerminal)) :
    (u.step (moveOf sha256 t i)).status = statusOf (t.step sha256 i).1 := by
  rw [status_step hmove, statusOf, hphase, houtcome, hu]

/-- An actor's task and its upload go on alike. -/
theorem status_task (sha256 : List UInt8 → List UInt8) {t : UploadTask} {u : Upload}
    (h : u.status = statusOf t) (i : UploadInput) :
    (u.step (moveOf sha256 t i)).status = statusOf (t.step sha256 i).1 := by
  obtain ⟨phase, d, accepted, outcome, finished⟩ := t
  obtain ⟨user, id, uphase, events⟩ := u
  obtain ⟨hphase, hun⟩ := Prod.mk.inj h
  dsimp only at hphase
  subst hphase
  cases phase with
  | running w =>
    cases i with
    | recv command io =>
      rcases command with _ | (c | uploadId | _)
      · exact follows _ _ hun rfl rfl (Bool.and_false _).symm
      · cases hworker : io.worker with
        | some msg =>
          refine follows [.uploadEnded user id .failed] .reporting hun ?_ ?_ ?_
          · simp only [moveOf, hworker]
            rfl
          · simp only [UploadTask.step, UploadTask.chunk, hworker]
            rfl
          · simp only [UploadTask.step, UploadTask.chunk, hworker]
            exact (Bool.and_false _).symm
        | none =>
          rcases hwrite : w.writeChunk d c io.write with ⟨_ | ⟨⟩, w', d'⟩
          · refine follows [.uploadEnded user id .failed] .reporting hun ?_ ?_ ?_
            · simp only [moveOf, hworker, hwrite]
              rfl
            · simp only [UploadTask.step, UploadTask.chunk, hworker, hwrite]
              rfl
            · simp only [UploadTask.step, UploadTask.chunk, hworker, hwrite]
              exact (Bool.and_false _).symm
          · refine follows [] .running hun ?_ ?_ ?_
            · simp only [moveOf, hworker, hwrite]
              rfl
            · simp only [UploadTask.step, UploadTask.chunk, hworker, hwrite]
              rfl
            · simp only [UploadTask.step, UploadTask.chunk, hworker, hwrite]
              exact (Bool.and_true _).symm
      · cases hworker : io.worker with
        | some msg =>
          refine follows [.uploadEnded user id .failed] .reporting hun ?_ ?_ ?_
          · simp only [moveOf, hworker]
            rfl
          · simp only [UploadTask.step, UploadTask.finish, hworker]
            rfl
          · simp only [UploadTask.step, UploadTask.finish, hworker]
            exact (Bool.and_false _).symm
        | none =>
          rcases hfinish : w.finishInner sha256 d uploadId none io.finish with ⟨_ | committed, w', d'⟩
          · refine follows [.uploadEnded user id .failed] .reporting hun ?_ ?_ ?_
            · simp only [moveOf, hworker, hfinish]
              rfl
            · simp only [UploadTask.step, UploadTask.finish, hworker, hfinish]
              rfl
            · simp only [UploadTask.step, UploadTask.finish, hworker, hfinish]
              exact (Bool.and_false _).symm
          · cases hpath : committed.remotePath with
            | none =>
              refine follows [.uploadEnded user id .failed] .reporting hun ?_ ?_ ?_
              · simp only [moveOf, hworker, hfinish, hpath]
                rfl
              · simp only [UploadTask.step, UploadTask.finish, hworker, hfinish, hpath]
                rfl
              · simp only [UploadTask.step, UploadTask.finish, hworker, hfinish, hpath]
                exact (Bool.and_false _).symm
            | some path =>
              refine follows [.uploadCompleted user id committed.bytesWritten] .reporting hun ?_ ?_ ?_
              · simp only [moveOf, hworker, hfinish, hpath]
                rfl
              · simp only [UploadTask.step, UploadTask.finish, hworker, hfinish, hpath]
                rfl
              · simp only [UploadTask.step, UploadTask.finish, hworker, hfinish, hpath]
                exact (Bool.and_false _).symm
      · exact follows _ _ hun rfl rfl (Bool.and_false _).symm
    | timeout => exact follows _ _ hun rfl rfl (Bool.and_false _).symm
    | sent drop => exact follows _ _ hun rfl rfl (Bool.and_true _).symm
    | cancel drop => exact follows _ _ hun rfl rfl (Bool.and_true _).symm
  | reporting held reply =>
    cases i with
    | recv command io =>
      obtain ⟨command', hmove⟩ := moveOf_recv sha256 ⟨.reporting held reply, d, accepted, outcome, finished⟩ command io
      exact follows [] .reporting hun (hmove ▸ rfl) rfl (Bool.and_true _).symm
    | timeout => exact follows _ _ hun rfl rfl (Bool.and_true _).symm
    | sent drop => exact follows _ _ hun rfl rfl (Bool.and_true _).symm
    | cancel drop => exact follows _ _ hun rfl rfl (Bool.and_true _).symm
  | ended =>
    refine follows [] .ended hun ?_ ?_ ?_
    · cases moveOf sha256 ⟨.ended, d, accepted, outcome, finished⟩ i <;> rfl
    · cases i <;> rfl
    · cases i <;> exact (Bool.and_true _).symm

section

variable {V : Type} {A : App V} {w : World V} {d : Observed}

/-- Every actor of the connection is an upload, at the same point. -/
def Related (d : Observed) (w : World V) : Prop := d.uploads.map Upload.status = w.actors.map fun x => statusOf x.task

/-- The task of an actor is dropped. -/
def drops : Daemon.Input → Bool
  | .upload _ (.cancel _) => true
  | _ => false

theorem actorStep_task (x : UploadActor) (sender : Bool) (input : World.ActorInput) :
    (World.actorStep A x sender input).1.task = x.task ∨
      ∃ i, (World.actorStep A x sender input).1.task = (x.task.step A.sha256 i).1 ∧
        (moveOf A.sha256 x.task i = .cancel → ∃ drop, input = .cancel drop) := by
  have hrecv : ∀ command io, moveOf A.sha256 x.task (.recv command io) = .cancel → ∃ drop, input = .cancel drop := by
    intro command io h
    obtain ⟨_, hmove⟩ := moveOf_recv A.sha256 x.task command io
    rw [hmove] at h
    cases h
  unfold World.actorStep
  split
  · rename_i io
    split
    · split
      · exact .inr ⟨_, rfl, hrecv _ io⟩
      · exact .inl rfl
    · split
      · exact .inl rfl
      · exact .inr ⟨_, rfl, hrecv none io⟩
  · split
    · exact .inr ⟨.timeout, rfl, nofun⟩
    · exact .inl rfl
  · rename_i drop
    exact .inr ⟨.sent drop, rfl, nofun⟩
  · rename_i drop
    exact .inr ⟨.cancel drop, rfl, fun _ => ⟨drop, rfl⟩⟩

theorem map_set_same {α β : Type} {f : α → β} {l : List α} {k : Nat} {x y : α} (hx : l[k]? = some x) (hy : f y = f x) :
    (l.set k y).map f = l.map f := by
  obtain ⟨hlt, hget⟩ := List.getElem?_eq_some_iff.mp hx
  have hself : f y = (l.map f).get ⟨k, by rw [List.length_map]; exact hlt⟩ := by
    rw [hy, List.get_eq_getElem, List.getElem_map, hget]
  rw [List.map_set, hself, List.get_eq_getElem, List.set_getElem_self]

/-- A begin that passes every check. -/
def begunUpload (user : String) (id : ShellId) : Begin :=
  ⟨user, true, true, true, true, some id, true, true, .ok (), .ok (), "", 0⟩

theorem related_begun (h : Related d w) (x : UploadActor) (hx : statusOf x.task = (.running, true)) {w' : World V}
    (hw : w'.actors = w.actors ++ [x]) : Related (machine.run d [.beginUpload (begunUpload "" x.shellId)]) w' := by
  show (d.uploads ++ [_]).map Upload.status = w'.actors.map _
  rw [hw, List.map_append, List.map_append, h, List.map_singleton, List.map_singleton, hx]
  rfl

/-- What a connection does to its actors, the uploads do as well. -/
theorem related_step (hk : w.manager.Keyed) (h : Related d w) (i : Daemon.Input) :
    ∃ js : List Input, Related (machine.run d js) (w.step A i).1 ∧ (drops i = false → ∀ j ∈ js, j.drops = false) := by
  have hsame : ∀ w' : World V, w'.actors = w.actors →
      ∃ js : List Input, Related (machine.run d js) w' ∧ (drops i = false → ∀ j ∈ js, j.drops = false) := by
    intro w' hw
    refine ⟨[], ?_, fun _ j hj => absurd hj List.not_mem_nil⟩
    rw [Machine.run_nil, Related, hw]
    exact h
  cases i with
  | message channel e env =>
    cases hp : w.pending with
    | some p =>
      rw [World.step_waiting hp]
      exact hsame w rfl
    | none =>
      rw [World.step_message hp]
      have hchange := (World.dispatchSwept_outcome (A := A) (w := w.sweep) hk channel e env).change
      rcases hchange.actors with hactors | ⟨id, writer, directory, _, hactors⟩
      · exact hsame _ hactors
      · refine ⟨_, related_begun h ⟨channel, e.requestId, id, .start writer directory, []⟩ rfl hactors, fun _ j hj => ?_⟩
        rw [List.mem_singleton.mp hj]
        rfl
  | resume env =>
    show ∃ js, Related _ (w.resume A env).1 ∧ _
    cases (World.resume_cases env : World.Resumed A w (w.resume A env)) with
    | waits h1 => rw [h1]; exact hsame w rfl
    | terminated _ _ _ _ h1 _ => rw [h1]; exact hsame _ rfl
    | failed _ _ _ _ h1 => rw [h1]; exact hsame _ rfl
    | sent a command x _ _ hx _ h1 =>
      rw [h1]
      refine ⟨[], ?_, fun _ j hj => absurd hj List.not_mem_nil⟩
      show d.uploads.map Upload.status = (w.actors.set a _).map _
      refine Eq.trans h (Eq.symm ?_)
      exact map_set_same hx rfl
  | channelClosed channel =>
    simp only [World.step]
    split
    · exact hsame w rfl
    · exact hsame _ (World.channelClosed_actors w channel)
  | gone =>
    simp only [World.step]
    split
    · exact hsame w rfl
    · exact hsame _ rfl
  | upload a input =>
    simp only [World.step]
    split
    · exact hsame w rfl
    · rename_i x hx
      rcases actorStep_task (A := A) x (w.hasSender a) input with htask | ⟨ui, htask, hcancel⟩
      · refine ⟨[], ?_, fun _ j hj => absurd hj List.not_mem_nil⟩
        show d.uploads.map Upload.status = (w.actors.set a _).map _
        refine Eq.trans h (Eq.symm ?_)
        exact map_set_same hx (congrArg statusOf htask)
      · have hstatus : (d.uploads.map Upload.status)[a]? = some (statusOf x.task) := by
          rw [h, List.getElem?_map, hx]
          rfl
        rw [List.getElem?_map] at hstatus
        obtain ⟨u, hu, hux⟩ := Option.map_eq_some_iff.mp hstatus
        have hstep : (d.step (.upload a (moveOf A.sha256 x.task ui))).1.uploads =
            d.uploads.set a (u.step (moveOf A.sha256 x.task ui)) := by
          simp only [Observed.step, hu]
        refine ⟨[.upload a (moveOf A.sha256 x.task ui)], ?_, ?_⟩
        · show (d.step _).1.uploads.map Upload.status = (w.actors.set a _).map _
          rw [hstep, List.map_set, List.map_set, h, status_task A.sha256 hux, htask]
        · intro hdrops j hj
          obtain rfl := List.mem_singleton.mp hj
          cases hmove : moveOf A.sha256 x.task ui with
          | cancel =>
            obtain ⟨drop, rfl⟩ := hcancel hmove
            cases hdrops
          | _ => rfl
  | forwardEnds t => exact hsame _ rfl
  | manager op => exact hsame _ rfl

/-- Whatever a connection does from its start, its actors are counted: the gauge is the number of those
    that have not recorded an outcome, and where none is dropped, of those whose upload runs. -/
theorem gauge_of_connection (hk : w.manager.Keyed) (hactors : w.actors = []) (capacity : Nat) (inputs : List Daemon.Input) :
    ∃ js : List Input, Related (machine.run (start capacity) js) ((World.machine A).run w inputs) ∧
      (machine.run (start capacity) js).uploadsActive =
        ((World.machine A).run w inputs).actors.countP (fun x => x.task.outcome.isNone) ∧
      ((∀ i ∈ inputs, drops i = false) → Exact (machine.run (start capacity) js)) := by
  have hrun : ((World.machine A).run w inputs).manager.Keyed ∧ ∃ js : List Input,
      Related (machine.run (start capacity) js) ((World.machine A).run w inputs) ∧
        ((∀ i ∈ inputs, drops i = false) → ∀ j ∈ js, j.drops = false) := by
    induction inputs using List.reverseRecOn with
    | nil =>
      refine ⟨hk, [], ?_, fun _ j hj => absurd hj List.not_mem_nil⟩
      rw [Machine.run_nil, Machine.run_nil, Related, hactors]
      rfl
    | append_singleton inputs i ih =>
      obtain ⟨hkeyed, js, hrelated, hquiet⟩ := ih
      obtain ⟨js', hrelated', hquiet'⟩ := related_step (A := A) hkeyed hrelated i
      rw [Machine.run_snoc]
      refine ⟨World.step_keyed hkeyed i, js ++ js', ?_, ?_⟩
      · rw [Machine.run_append]
        exact hrelated'
      · intro hall j hj
        rcases List.mem_append.mp hj with hj | hj
        · exact hquiet (fun i hi => hall i (List.mem_append_left _ hi)) j hj
        · exact hquiet' (hall i (List.mem_append_right _ List.mem_cons_self)) j hj
  obtain ⟨_, js, hrelated, hquiet⟩ := hrun
  have hcounted := counted_run capacity js
  refine ⟨js, hrelated, ?_, fun hall => hcounted.exact (settled_run capacity (hquiet hall))⟩
  have hmap := congrArg (List.countP Prod.snd) hrelated
  rw [List.countP_map, List.countP_map] at hmap
  exact hcounted.gauge.trans hmap

end

/-! ## Two uploads -/

def sampleUpload (user : String) : Begin :=
  ⟨user, true, true, true, true, some sampleShell, true, true, .ok (), .ok (), "a.txt", 3⟩

/-- Two uploads; one finishes, and the other's connection goes. -/
def sampleUploads : List Input :=
  [.beginUpload (sampleUpload "alice"), .beginUpload (sampleUpload "bob"), .upload 0 (.recv (some (.chunk (.ok ())))),
    .upload 0 (.recv (some (.finish (.ok 3)))), .upload 1 (.recv none), .upload 0 .sent]

theorem upload_gauge_two :
    (machine.run (start 16) sampleUploads).uploadsActive = 0 ∧ Exact (machine.run (start 16) sampleUploads) :=
  ⟨by decide, (upload_gauge 16 sampleUploads).2.2 (by decide)⟩

/-- A dropped task stays in the gauge. -/
theorem upload_gauge_dropped : ¬ ∀ (capacity : Nat) (inputs : List Input), Exact (machine.run (start capacity) inputs) := by
  intro h
  have hgauge := (h 16 [.beginUpload (sampleUpload "alice"), .upload 0 .cancel]).gauge
  revert hgauge
  decide

end Holdfast.Daemon.Observability

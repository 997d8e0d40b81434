/-
  Holdfast.Desktop.InputSends — the sends of the desktop tab's input queue
  (`TerminalInputQueue` of `desktop/src/terminal-input-queue.ts`).

  A send is a promise, and what follows it runs in three callbacks: one takes the chunk off
  the queue, one pauses after a rejection, and one frees the queue for the next send. Between
  two of them, and before a settled promise is looked at, anything else may be called. The
  queue compares objects, so a chunk has an identity besides its bytes. `onError` may throw;
  what it calls is calls like any others.

  `log` has what a caller and the sender see, in order.

  Proved:
  - `good_next`: what every event keeps, as long as no object is accepted twice.
  - `input_sends`: one send at a time and the counters right; chunks resolve in the order
    they were accepted in and are not sent again then, a rejected one is the next to be sent
    if it was not cleared, none is lost but by `clear`, and a wait that ends finds no send.
-/

import Holdfast.Base.Log
import Mathlib.Data.List.Basic
import Mathlib.Tactic

namespace Holdfast.Desktop.InputSends

open Holdfast.Base

structure InputData where
  /-- Which object it is. -/
  object : Nat
  bytes : List UInt8
  deriving DecidableEq, Repr

def total (queue : List InputData) : Nat := (queue.map fun data => data.bytes.length).sum

structure TerminalInputQueue where
  queue : List InputData
  queuedBytes : Int
  paused : Bool
  inFlight : Option Nat
  deriving DecidableEq, Repr

/-- How far the callbacks of a send have come. -/
inductive Stage where
  | pending
  | resolved
  /-- The first callback ran. -/
  | taken
  | rejected
  /-- The second callback ran. -/
  | noted (threw : Bool)
  deriving DecidableEq, Repr

structure Operation where
  id : Nat
  data : InputData
  stage : Stage
  deriving DecidableEq, Repr

/-- A `pauseAndWait` that has not returned. -/
structure Wait where
  id : Nat
  on : Option Nat
  /-- `resume` was called since. -/
  resumed : Bool
  deriving DecidableEq, Repr

inductive Event where
  | accepted (data : InputData)
  | refused (data : InputData)
  | started (data : InputData)
  | resolved (data : InputData)
  | rejected (data : InputData)
  | cleared (queue : List InputData)
  | waited (id : Nat) (resumed : Bool)
  deriving DecidableEq, Repr

structure World where
  q : TerminalInputQueue
  /-- Sends whose last callback has not run. -/
  operations : List Operation
  waits : List Wait
  /-- The next promise, and the next wait. -/
  next : Nat
  log : List Event
  deriving DecidableEq, Repr

def World.new : World := ⟨⟨[], 0, true, none⟩, [], [], 0, []⟩

inductive Input where
  | enqueue (data : InputData)
  | pause
  | resume
  | pauseAndWait
  | clear
  /-- The sender settles a promise. -/
  | resolve (id : Nat)
  | reject (id : Nat)
  /-- The callbacks of `then`, `catch` and `finally`. -/
  | take (id : Nat)
  | note (id : Nat) (threw : Bool)
  | finish (id : Nat)
  /-- What a wait waited for is there. -/
  | wake (id : Nat)
  deriving DecidableEq, Repr

namespace World

def note (w : World) (event : Event) : World := { w with log := w.log ++ [event] }

def pump (w : World) : World :=
  if w.q.paused ∨ w.q.inFlight.isSome then w
  else
    match w.q.queue with
    | [] => w
    | data :: _ =>
      { w with
        q := { w.q with inFlight := some w.next }
        operations := w.operations ++ [⟨w.next, data, .pending⟩]
        next := w.next + 1
        log := w.log ++ [.started data] }

def enqueue (byteCap chunkCap : Nat) (w : World) (data : InputData) : World :=
  if data.bytes.length = 0 then w
  else if (data.bytes.length : Int) > byteCap - w.q.queuedBytes ∨ w.q.queue.length ≥ chunkCap then w.note (.refused data)
  else
    pump
      { w with
        q := { w.q with queue := w.q.queue ++ [data], queuedBytes := w.q.queuedBytes + data.bytes.length }
        log := w.log ++ [.accepted data] }

def pause (w : World) : World := { w with q := { w.q with paused := true } }

def resume (w : World) : World :=
  pump { w with q := { w.q with paused := false }, waits := w.waits.map fun wait => { wait with resumed := true } }

def pauseAndWait (w : World) : World :=
  { w.pause with waits := w.waits ++ [⟨w.next, w.q.inFlight, false⟩], next := w.next + 1 }

def clear (w : World) : World :=
  { w with q := { w.q with queue := [], queuedBytes := 0 }, log := w.log ++ [.cleared w.q.queue] }

/-- A callback of an operation. -/
def advance (w : World) (id : Nat) (stage : Stage) : World :=
  { w with operations := w.operations.map fun op => if op.id = id then { op with stage := stage } else op }

/-- The operation, if it has come that far. -/
def at? (w : World) (id : Nat) (stage : Stage) : Option Operation :=
  w.operations.find? fun op => op.id = id ∧ op.stage = stage

/-- The first callback: the chunk leaves the queue, if it is still its head. -/
def take (w : World) (data : InputData) : World :=
  match w.q.queue with
  | [] => w
  | head :: rest =>
    if head.object = data.object then
      { w with q := { w.q with queue := rest, queuedBytes := w.q.queuedBytes - data.bytes.length } }
    else w

def done? (w : World) (id : Nat) : Option Operation :=
  w.operations.find? fun op => op.id = id ∧ (op.stage = .taken ∨ op.stage = .noted false ∨ op.stage = .noted true)

/-- The last callback. A wait for an operation that failed in the second one fails with it. -/
def finish (w : World) (op : Operation) : World :=
  pump
    { w with
      q := { w.q with inFlight := if w.q.inFlight = some op.id then none else w.q.inFlight }
      operations := w.operations.filter fun other => other.id ≠ op.id
      waits := if op.stage = .noted true then w.waits.filter fun wait => wait.on ≠ some op.id else w.waits }

def awake? (w : World) (id : Nat) : Option Wait :=
  w.waits.find? fun wait => wait.id = id ∧ ∀ op ∈ w.operations, wait.on ≠ some op.id

def step (byteCap chunkCap : Nat) (w : World) : Input → World
  | .enqueue data => w.enqueue byteCap chunkCap data
  | .pause => w.pause
  | .resume => w.resume
  | .pauseAndWait => w.pauseAndWait
  | .clear => w.clear
  | .resolve id =>
    match w.at? id .pending with
    | some op => (w.advance id .resolved).note (.resolved op.data)
    | none => w
  | .reject id =>
    match w.at? id .pending with
    | some op => (w.advance id .rejected).note (.rejected op.data)
    | none => w
  | .take id =>
    match w.at? id .resolved with
    | some op => (w.take op.data).advance id .taken
    | none => w
  | .note id threw =>
    match w.at? id .rejected with
    | some _ => w.pause.advance id (.noted threw)
    | none => w
  | .finish id =>
    match w.done? id with
    | some op => w.finish op
    | none => w
  | .wake id =>
    match w.awake? id with
    | some wait => { w with waits := w.waits.filter fun other => other.id ≠ id, log := w.log ++ [.waited id wait.resumed] }
    | none => w

def run (byteCap chunkCap : Nat) (inputs : List Input) : World := inputs.foldl (step byteCap chunkCap) .new

end World

/-! ## What was seen -/

def acceptedOf : Event → Option InputData
  | .accepted data => some data
  | _ => none

def resolvedOf : Event → Option InputData
  | .resolved data => some data
  | _ => none

def clearedOf : Event → List InputData
  | .cleared queue => queue
  | _ => []

def accepted (log : List Event) : List InputData := log.filterMap acceptedOf
def resolved (log : List Event) : List InputData := log.filterMap resolvedOf
def cleared (log : List Event) : List InputData := log.flatMap clearedOf

/-- The sends in flight. -/
def openSends (log : List Event) : List InputData :=
  log.foldl
    (fun sends event =>
      match event with
      | .started data => sends ++ [data]
      | .resolved data => sends.erase data
      | .rejected data => sends.erase data
      | _ => sends) []

/-- The last send that was started, or rejected. -/
def attempt : Event → Bool
  | .started _ => true
  | .rejected _ => true
  | _ => false

def lastAttempt (log : List Event) : Option Event := last attempt log

/-- What an event says of those before it. -/
def Allowed (before : List Event) : Event → Prop
  | .started data =>
    openSends before = [] ∧ data ∉ resolved before ∧
      ∀ late, lastAttempt before = some (.rejected late) → data = late ∨ late ∈ cleared before
  | .resolved data => openSends before = [data]
  | .rejected data => openSends before = [data]
  | .waited _ false => openSends before = []
  | _ => True

/-- No object was accepted twice. -/
def Distinct (log : List Event) : Prop := ((accepted log).map InputData.object).Nodup

instance (log : List Event) : Decidable (Distinct log) := inferInstanceAs (Decidable (List.Nodup _))

/-- Every event is allowed by those before it. -/
def Orderly (log : List Event) : Prop := EachAfter Allowed log

section
variable (log : List Event)

@[simp] theorem accepted_snoc (event : Event) : accepted (log ++ [event]) = accepted log ++ (acceptedOf event).toList := by
  rw [accepted, List.filterMap_append]
  cases h : acceptedOf event <;> simp [h, accepted]

@[simp] theorem resolved_snoc (event : Event) : resolved (log ++ [event]) = resolved log ++ (resolvedOf event).toList := by
  rw [resolved, List.filterMap_append]
  cases h : resolvedOf event <;> simp [h, resolved]

@[simp] theorem cleared_snoc (event : Event) : cleared (log ++ [event]) = cleared log ++ clearedOf event := by
  simp [cleared]

theorem openSends_snoc (event : Event) :
    openSends (log ++ [event]) =
      match event with
      | .started data => openSends log ++ [data]
      | .resolved data => (openSends log).erase data
      | .rejected data => (openSends log).erase data
      | _ => openSends log := by
  rw [openSends, List.foldl_append]
  rfl

theorem lastAttempt_snoc (event : Event) :
    lastAttempt (log ++ [event]) = if attempt event then some event else lastAttempt log :=
  last_snoc attempt log event

end

/-! ## What every event keeps -/

/-- What is known of the head's send, but not taken off the queue yet. -/
def untaken (op : Operation) : List InputData := if op.stage = .resolved then [op.data] else []

/-- The operation's chunk is the head of the queue, or was cleared behind what had resolved
    by then, or its first callback ran. -/
inductive Follows (past queue done cleared : List InputData) (op : Operation) : Prop
  | head (rest sent : List InputData) : queue = op.data :: rest → done = sent ++ untaken op → sent.Sublist past →
      Follows past queue done cleared op
  | gone (before mid sent : List InputData) : past = before ++ op.data :: mid → done = sent ++ untaken op →
      sent.Sublist before → op.data ∈ cleared → Follows past queue done cleared op
  | taken : op.stage = .taken → done.Sublist past → Follows past queue done cleared op

/-- Where the operations, if there are any, stand with the queue. -/
def Tracks (past queue done cleared : List InputData) : List Operation → Prop
  | [] => done.Sublist past
  | op :: _ => Follows past queue done cleared op

structure Good (byteCap chunkCap : Nat) (w : World) : Prop where
  single : w.operations = [] ∧ w.q.inFlight = none ∨ ∃ op, w.operations = [op] ∧ w.q.inFlight = some op.id
  bytes : w.q.queuedBytes = total w.q.queue
  byteCap : total w.q.queue ≤ byteCap
  chunkCap : w.q.queue.length ≤ chunkCap
  /-- The sends in flight are the operations that are pending. -/
  pending : openSends w.log = (w.operations.filter fun op => op.stage = .pending).map Operation.data
  waits : ∀ wait ∈ w.waits, wait.resumed = false → w.q.paused = true ∧ ∀ op ∈ w.operations, wait.on = some op.id
  orderly : Orderly w.log
  history : ∃ past, accepted w.log = past ++ w.q.queue ∧ (∀ data ∈ past, data ∈ resolved w.log ∨ data ∈ cleared w.log) ∧
    Tracks past w.q.queue (resolved w.log) (cleared w.log) w.operations
  retry : ∀ data, lastAttempt w.log = some (.rejected data) → w.q.queue.head? = some data ∨ data ∈ cleared w.log
  started : ∀ op ∈ w.operations, op.stage = .pending ∨ op.stage = .resolved ∨ op.stage = .taken →
    lastAttempt w.log = some (.started op.data)

variable {byteCap chunkCap : Nat} {w : World}

theorem Distinct.snoc {log : List Event} {event : Event} (h : Distinct (log ++ [event])) : Distinct log := by
  unfold Distinct at h ⊢
  rw [accepted_snoc, List.map_append] at h
  exact (List.nodup_append.mp h).1

/-- Nothing in the queue was taken or cleared before. -/
theorem Distinct.apart {log : List Event} {past queue : List InputData} (h : Distinct log) (hacc : accepted log = past ++ queue)
    {a b : InputData} (ha : a ∈ past) (hb : b ∈ queue) : a.object ≠ b.object := by
  unfold Distinct at h
  rw [hacc, List.map_append] at h
  exact (List.nodup_append.mp h).2.2 _ (List.mem_map_of_mem ha) _ (List.mem_map_of_mem hb)

theorem total_append (a b : List InputData) : total (a ++ b) = total a + total b := by simp [total]

theorem Good.pump (h : Good byteCap chunkCap w) (hd : Distinct w.log) : Good byteCap chunkCap w.pump := by
  unfold World.pump
  split
  · exact h
  · rename_i hgo
    rw [not_or, Bool.not_eq_true, Bool.not_eq_true, Option.isSome_eq_false_iff, Option.isNone_iff_eq_none] at hgo
    obtain ⟨hrunning, hidle⟩ := hgo
    have hops : w.operations = [] := by
      rcases h.single with ⟨hops, -⟩ | ⟨op, -, hflight⟩
      · exact hops
      · rw [hidle] at hflight
        cases hflight
    split
    · exact h
    · rename_i data rest hqueue
      obtain ⟨past, hacc, hpast, htrack⟩ := h.history
      have hopen : openSends w.log = [] := by rw [h.pending, hops]; rfl
      rw [hops] at htrack
      refine
        { single := .inr ⟨⟨w.next, data, .pending⟩, by simp [hops], rfl⟩
          bytes := h.bytes
          byteCap := h.byteCap
          chunkCap := h.chunkCap
          pending := ?_
          waits := ?_
          orderly := EachAfter.snoc h.orderly ⟨hopen, ?_, ?_⟩
          history := ⟨past, ?_, ?_, ?_⟩
          retry := ?_
          started := ?_ }
      · rw [openSends_snoc, hopen, hops]
        rfl
      · intro wait hwait hundisturbed
        have := (h.waits wait hwait hundisturbed).1
        rw [hrunning] at this
        cases this
      · intro hdone
        have hmem : data ∈ past := htrack.subset hdone
        exact hd.apart hacc hmem (hqueue ▸ List.mem_cons_self) rfl
      · intro late hlate
        rcases h.retry late hlate with hhead | hcleared
        · rw [hqueue] at hhead
          exact .inl (Option.some.inj hhead)
        · exact .inr hcleared
      · simpa [acceptedOf] using hacc
      · simpa [resolvedOf, clearedOf] using hpast
      · rw [hops]
        refine Follows.head rest (resolved w.log) hqueue ?_ htrack
        simp [resolvedOf, untaken]
      · intro late hlate
        rw [lastAttempt_snoc] at hlate
        cases hlate
      · intro op hop _
        rw [hops, List.nil_append, List.mem_singleton] at hop
        rw [lastAttempt_snoc, hop]
        rfl

theorem pump_distinct {w : World} (h : Distinct w.pump.log) : Distinct w.log := by
  unfold World.pump at h
  split at h
  · exact h
  · split at h
    · exact h
    · exact h.snoc

theorem head?_append {a b : List InputData} {data : InputData} (h : a.head? = some data) : (a ++ b).head? = some data := by
  rw [List.head?_append, h]
  rfl

theorem Follows.push {past queue done cleared : List InputData} {op : Operation} (h : Follows past queue done cleared op)
    (data : InputData) : Follows past (queue ++ [data]) done cleared op := by
  cases h with
  | head rest sent hq hdone hsent => exact .head (rest ++ [data]) sent (by rw [hq]; rfl) hdone hsent
  | gone before mid sent hp hdone hsent hcl => exact .gone before mid sent hp hdone hsent hcl
  | taken hstage hsent => exact .taken hstage hsent

theorem Tracks.push {past queue done cleared : List InputData} {ops : List Operation} (h : Tracks past queue done cleared ops)
    (data : InputData) : Tracks past (queue ++ [data]) done cleared ops := by
  cases ops with
  | nil => exact h
  | cons op ops => exact Follows.push h data

theorem Good.enqueue (h : Good byteCap chunkCap w) (data : InputData) (hd : Distinct (w.enqueue byteCap chunkCap data).log) :
    Good byteCap chunkCap (w.enqueue byteCap chunkCap data) := by
  unfold World.enqueue at hd ⊢
  split
  · exact h
  · rename_i hempty
    rw [if_neg hempty] at hd
    split
    · exact
        { h with
          pending := by rw [World.note, openSends_snoc]; exact h.pending
          orderly := EachAfter.snoc h.orderly trivial
          history := by simpa [World.note, acceptedOf, resolvedOf, clearedOf] using h.history
          retry := by simpa [World.note, lastAttempt_snoc, attempt, clearedOf] using h.retry
          started := by simpa [World.note, lastAttempt_snoc, attempt] using h.started }
    · rename_i hfull
      rw [if_neg hfull] at hd
      have hbytes := h.bytes
      rw [not_or] at hfull
      have htotal : total (w.q.queue ++ [data]) = total w.q.queue + data.bytes.length := by
        rw [total_append]
        simp [total]
      obtain ⟨past, hacc, hpast, htrack⟩ := h.history
      refine Good.pump ?_ (pump_distinct hd)
      exact
        { single := h.single
          bytes := by
            show w.q.queuedBytes + data.bytes.length = ((total (w.q.queue ++ [data]) : Nat) : Int)
            rw [hbytes, htotal, Nat.cast_add]
          byteCap := by
            show total (w.q.queue ++ [data]) ≤ byteCap
            omega
          chunkCap := by
            show (w.q.queue ++ [data]).length ≤ chunkCap
            rw [List.length_append, List.length_singleton]
            omega
          pending := by rw [openSends_snoc]; exact h.pending
          waits := h.waits
          orderly := EachAfter.snoc h.orderly trivial
          history := by
            refine ⟨past, ?_, ?_, ?_⟩
            · simp [hacc, acceptedOf]
            · simpa [resolvedOf, clearedOf] using hpast
            · simpa [resolvedOf, clearedOf] using htrack.push data
          retry := by
            intro late hlate
            rw [lastAttempt_snoc] at hlate
            rcases h.retry late hlate with hhead | hcleared
            · exact .inl (head?_append hhead)
            · exact .inr (by simpa [clearedOf] using hcleared)
          started := by simpa [lastAttempt_snoc, attempt] using h.started }

theorem Good.resume (h : Good byteCap chunkCap w) (hd : Distinct w.resume.log) : Good byteCap chunkCap w.resume := by
  refine Good.pump ?_ (pump_distinct hd)
  refine { h with waits := ?_ }
  intro wait hwait hresumed
  obtain ⟨old, -, rfl⟩ := List.mem_map.mp hwait
  cases hresumed

theorem Good.pause (h : Good byteCap chunkCap w) : Good byteCap chunkCap w.pause :=
  { h with waits := fun wait hwait hresumed => ⟨rfl, (h.waits wait hwait hresumed).2⟩ }

theorem Good.pauseAndWait (h : Good byteCap chunkCap w) : Good byteCap chunkCap w.pauseAndWait := by
  refine { h.pause with waits := ?_ }
  intro wait hwait hresumed
  rcases List.mem_append.mp hwait with hold | hnew
  · exact h.pause.waits wait hold hresumed
  · obtain rfl := List.mem_singleton.mp hnew
    refine ⟨rfl, fun op hop => ?_⟩
    rcases h.single with ⟨hops, -⟩ | ⟨op', hops, hflight⟩
    · have hop : op ∈ w.operations := hop
      rw [hops] at hop
      cases hop
    · have hop : op ∈ w.operations := hop
      rw [hops, List.mem_singleton] at hop
      rw [hop]
      exact hflight

theorem Tracks.clear {past queue done cleared : List InputData} {ops : List Operation} (h : Tracks past queue done cleared ops) :
    Tracks (past ++ queue) [] done (cleared ++ queue) ops := by
  cases ops with
  | nil => exact h.trans (List.sublist_append_left past queue)
  | cons op ops =>
    cases h with
    | head rest sent hq hdone hsent =>
      exact Follows.gone past rest sent (by rw [hq]) hdone hsent (List.mem_append_right _ (hq ▸ List.mem_cons_self))
    | gone before mid sent hp hdone hsent hcl =>
      exact Follows.gone before (mid ++ queue) sent (by rw [hp, List.append_assoc, List.cons_append]) hdone hsent
        (List.mem_append_left _ hcl)
    | taken hstage hsent => exact Follows.taken hstage (hsent.trans (List.sublist_append_left past queue))

theorem Good.clear (h : Good byteCap chunkCap w) : Good byteCap chunkCap w.clear := by
  obtain ⟨past, hacc, hpast, htrack⟩ := h.history
  exact
    { single := h.single
      bytes := rfl
      byteCap := Nat.zero_le _
      chunkCap := Nat.zero_le _
      pending := by rw [World.clear, openSends_snoc]; exact h.pending
      waits := h.waits
      orderly := EachAfter.snoc h.orderly trivial
      history := by
        refine ⟨past ++ w.q.queue, ?_, ?_, ?_⟩
        · simp [World.clear, hacc, acceptedOf]
        · intro data hdata
          simp only [World.clear, resolved_snoc, cleared_snoc, resolvedOf, clearedOf, Option.toList_none, List.append_nil,
            List.mem_append]
          rcases List.mem_append.mp hdata with hold | hnew
          · exact (hpast data hold).imp_right .inl
          · exact .inr (.inr hnew)
        · simpa [World.clear, resolvedOf, clearedOf] using htrack.clear
      retry := by
        intro late hlate
        right
        rw [World.clear, lastAttempt_snoc] at hlate
        simp only [World.clear, cleared_snoc, clearedOf, List.mem_append]
        rcases h.retry late hlate with hhead | hcleared
        · exact .inr (List.mem_of_mem_head? hhead)
        · exact .inl hcleared
      started := by simpa [World.clear, lastAttempt_snoc, attempt] using h.started }

/-! ## The callbacks -/

variable {op : Operation} {id : Nat}

theorem Good.only (h : Good byteCap chunkCap w) (hop : op ∈ w.operations) : w.operations = [op] ∧ w.q.inFlight = some op.id := by
  rcases h.single with ⟨hops, -⟩ | ⟨op', hops, hflight⟩
  · rw [hops] at hop
    cases hop
  · rw [hops, List.mem_singleton] at hop
    rw [hop]
    exact ⟨hops, hflight⟩

theorem Good.at? (h : Good byteCap chunkCap w) {stage : Stage} (hat : w.at? id stage = some op) :
    w.operations = [op] ∧ w.q.inFlight = some op.id ∧ op.id = id ∧ op.stage = stage := by
  obtain ⟨hops, hflight⟩ := h.only (List.mem_of_find?_eq_some hat)
  have hfound := List.find?_some hat
  exact ⟨hops, hflight, of_decide_eq_true hfound⟩

theorem advance_operations (hops : w.operations = [op]) (hid : op.id = id) (stage : Stage) :
    (w.advance id stage).operations = [{ op with stage := stage }] := by
  simp [World.advance, hops, hid]

/-- Where a chunk stands with the queue, however far its callbacks have come. -/
theorem Good.follows (h : Good byteCap chunkCap w) (hops : w.operations = [op]) :
    ∃ past, accepted w.log = past ++ w.q.queue ∧ (∀ data ∈ past, data ∈ resolved w.log ∨ data ∈ cleared w.log) ∧
      Follows past w.q.queue (resolved w.log) (cleared w.log) op := by
  obtain ⟨past, hacc, hpast, htrack⟩ := h.history
  rw [hops] at htrack
  exact ⟨past, hacc, hpast, htrack⟩

theorem Follows.resolve {past queue done cleared : List InputData} (h : Follows past queue done cleared op)
    (hstage : op.stage = .pending) : Follows past queue (done ++ [op.data]) cleared { op with stage := .resolved } := by
  have hnone : untaken op = [] := by simp [untaken, hstage]
  cases h with
  | head rest sent hq hdone hsent =>
    rw [hnone, List.append_nil] at hdone
    exact .head rest sent hq (by rw [hdone]; rfl) hsent
  | gone before mid sent hp hdone hsent hcl =>
    rw [hnone, List.append_nil] at hdone
    exact .gone before mid sent hp (by rw [hdone]; rfl) hsent hcl
  | taken htaken _ =>
    rw [hstage] at htaken
    cases htaken

/-- Between two stages without a result that is not taken, nothing is to be said. -/
theorem Follows.restage {past queue done cleared : List InputData} (h : Follows past queue done cleared op) {stage : Stage}
    (hold : untaken op = []) (hnew : stage ≠ .resolved) (htaken : op.stage ≠ .taken) :
    Follows past queue done cleared { op with stage := stage } := by
  have hnone : untaken { op with stage := stage } = [] := by simp [untaken, hnew]
  cases h with
  | head rest sent hq hdone hsent => exact .head rest sent hq (by rw [hdone, hold, hnone]) hsent
  | gone before mid sent hp hdone hsent hcl => exact .gone before mid sent hp (by rw [hdone, hold, hnone]) hsent hcl
  | taken hstage _ => exact absurd hstage htaken

theorem Follows.finish {past queue done cleared : List InputData} (h : Follows past queue done cleared op)
    (hold : untaken op = []) : done.Sublist past := by
  cases h with
  | head rest sent hq hdone hsent =>
    rw [hdone, hold, List.append_nil]
    exact hsent
  | gone before mid sent hp hdone hsent hcl =>
    rw [hdone, hold, List.append_nil, hp]
    exact hsent.trans (List.sublist_append_left before _)
  | taken _ hsent => exact hsent

theorem Follows.place {past queue done cleared : List InputData} (h : Follows past queue done cleared op)
    (hstage : op.stage ≠ .taken) : queue.head? = some op.data ∨ op.data ∈ cleared := by
  cases h with
  | head rest sent hq hdone hsent => exact .inl (by rw [hq]; rfl)
  | gone before mid sent hp hdone hsent hcl => exact .inr hcl
  | taken htaken _ => exact absurd htaken hstage

theorem Good.open_pending (h : Good byteCap chunkCap w) (hops : w.operations = [op]) (hstage : op.stage = .pending) :
    openSends w.log = [op.data] := by
  rw [h.pending, hops]
  simp [hstage]

theorem Good.advance_waits (h : Good byteCap chunkCap w) (hops : w.operations = [op]) (hid : op.id = id) (stage : Stage) :
    ∀ wait ∈ w.waits, wait.resumed = false →
      w.q.paused = true ∧ ∀ op' ∈ (w.advance id stage).operations, wait.on = some op'.id := by
  intro wait hwait hresumed
  obtain ⟨hpaused, hon⟩ := h.waits wait hwait hresumed
  refine ⟨hpaused, fun op' hop' => ?_⟩
  rw [advance_operations hops hid, List.mem_singleton] at hop'
  rw [hop']
  exact hon op (hops ▸ List.mem_cons_self)

theorem Good.resolve (h : Good byteCap chunkCap w) (hat : w.at? id .pending = some op) :
    Good byteCap chunkCap ((w.advance id .resolved).note (.resolved op.data)) := by
  obtain ⟨hops, hflight, hid, hstage⟩ := h.at? hat
  have hops' := advance_operations hops hid .resolved
  obtain ⟨past, hacc, hpast, hfollows⟩ := h.follows hops
  have hopen := h.open_pending hops hstage
  exact
    { single := .inr ⟨_, hops', hflight⟩
      bytes := h.bytes
      byteCap := h.byteCap
      chunkCap := h.chunkCap
      pending := by
        show openSends (w.log ++ [.resolved op.data]) = _
        rw [openSends_snoc, hopen]
        show [op.data].erase op.data = ((w.advance id .resolved).operations.filter _).map _
        rw [hops']
        simp
      waits := h.advance_waits hops hid .resolved
      orderly := EachAfter.snoc h.orderly hopen
      history := by
        refine ⟨past, ?_, ?_, ?_⟩
        · simpa [World.note, World.advance, acceptedOf] using hacc
        · intro data hdata
          simp only [World.note, World.advance, resolved_snoc, cleared_snoc, clearedOf, List.append_nil, List.mem_append]
          exact (hpast data hdata).imp_left .inl
        · show Tracks past w.q.queue _ _ (w.advance id .resolved).operations
          rw [hops']
          simpa [World.note, World.advance, resolvedOf, clearedOf, Tracks] using hfollows.resolve hstage
      retry := by simpa [World.note, World.advance, lastAttempt_snoc, attempt, clearedOf] using h.retry
      started := by
        intro op' hop' _
        have hop' : op' ∈ (w.advance id .resolved).operations := hop'
        rw [hops', List.mem_singleton] at hop'
        rw [hop']
        simpa [World.note, World.advance, lastAttempt_snoc, attempt] using h.started op
          (hops ▸ List.mem_cons_self) (.inl hstage) }

theorem Good.reject (h : Good byteCap chunkCap w) (hat : w.at? id .pending = some op) :
    Good byteCap chunkCap ((w.advance id .rejected).note (.rejected op.data)) := by
  obtain ⟨hops, hflight, hid, hstage⟩ := h.at? hat
  have hops' := advance_operations hops hid .rejected
  obtain ⟨past, hacc, hpast, hfollows⟩ := h.follows hops
  have hopen := h.open_pending hops hstage
  have hnone : untaken op = [] := by simp [untaken, hstage]
  have htaken : op.stage ≠ .taken := by simp [hstage]
  exact
    { single := .inr ⟨_, hops', hflight⟩
      bytes := h.bytes
      byteCap := h.byteCap
      chunkCap := h.chunkCap
      pending := by
        show openSends (w.log ++ [.rejected op.data]) = _
        rw [openSends_snoc, hopen]
        show [op.data].erase op.data = ((w.advance id .rejected).operations.filter _).map _
        rw [hops']
        simp
      waits := h.advance_waits hops hid .rejected
      orderly := EachAfter.snoc h.orderly hopen
      history := by
        refine ⟨past, ?_, ?_, ?_⟩
        · simpa [World.note, World.advance, acceptedOf] using hacc
        · simpa [World.note, World.advance, resolvedOf, clearedOf] using hpast
        · show Tracks past w.q.queue _ _ (w.advance id .rejected).operations
          rw [hops']
          simpa [World.note, World.advance, resolvedOf, clearedOf, Tracks] using
            hfollows.restage hnone (by simp) htaken
      retry := by
        intro late hlate
        have hlate : lastAttempt (w.log ++ [.rejected op.data]) = some (.rejected late) := hlate
        rw [lastAttempt_snoc, attempt, if_pos rfl] at hlate
        obtain rfl : op.data = late := Event.rejected.inj (Option.some.inj hlate)
        simpa [World.note, World.advance, clearedOf] using hfollows.place htaken
      started := by
        intro op' hop' hstage'
        have hop' : op' ∈ (w.advance id .rejected).operations := hop'
        rw [hops', List.mem_singleton] at hop'
        rw [hop'] at hstage'
        simp at hstage' }

/-- Only the head of the queue can be the object of a send that resolved. -/
theorem take_cases (h : Good byteCap chunkCap w) (hd : Distinct w.log) (hops : w.operations = [op])
    (hstage : op.stage = .resolved) :
    (∃ rest past, w.q.queue = op.data :: rest ∧ accepted w.log = (past ++ [op.data]) ++ rest ∧
      (∀ data ∈ past ++ [op.data], data ∈ resolved w.log ∨ data ∈ cleared w.log) ∧ (resolved w.log).Sublist (past ++ [op.data]) ∧
      w.take op.data = { w with q := { w.q with queue := rest, queuedBytes := w.q.queuedBytes - op.data.bytes.length } }) ∨
    ∃ past, accepted w.log = past ++ w.q.queue ∧ (∀ data ∈ past, data ∈ resolved w.log ∨ data ∈ cleared w.log) ∧
      (resolved w.log).Sublist past ∧ w.take op.data = w := by
  obtain ⟨past, hacc, hpast, hfollows⟩ := h.follows hops
  have hone : untaken op = [op.data] := by simp [untaken, hstage]
  cases hfollows with
  | head rest sent hq hdone hsent =>
    refine .inl ⟨rest, past, hq, ?_, ?_, ?_, ?_⟩
    · rw [hacc, hq, List.append_assoc]
      rfl
    · intro data hdata
      rcases List.mem_append.mp hdata with hold | hnew
      · exact hpast data hold
      · rw [List.mem_singleton.mp hnew, hdone, hone]
        exact .inl (List.mem_append_right _ List.mem_cons_self)
    · rw [hdone, hone]
      exact hsent.append_right _
    · rw [World.take, hq]
      exact if_pos rfl
  | gone before mid sent hp hdone hsent hcl =>
    refine .inr ⟨past, hacc, hpast, ?_, ?_⟩
    · rw [hdone, hone, hp]
      exact hsent.append (List.singleton_sublist.mpr List.mem_cons_self)
    · have hmem : op.data ∈ past := hp ▸ List.mem_append_right _ List.mem_cons_self
      unfold World.take
      split
      · rfl
      · rename_i head rest hq
        exact if_neg fun heq => hd.apart hacc hmem (hq ▸ List.mem_cons_self) heq.symm
  | taken htaken _ =>
    rw [hstage] at htaken
    cases htaken

theorem Good.take (h : Good byteCap chunkCap w) (hd : Distinct w.log) (hat : w.at? id .resolved = some op) :
    Good byteCap chunkCap ((w.take op.data).advance id .taken) := by
  obtain ⟨hops, hflight, hid, hstage⟩ := h.at? hat
  have hops' := advance_operations hops hid .taken
  have hstarted := h.started op (hops ▸ List.mem_cons_self) (.inr (.inl hstage))
  have hpending : openSends w.log =
      ((w.advance id .taken).operations.filter fun op => op.stage = .pending).map Operation.data := by
    rw [h.pending, hops, hops']
    simp [hstage]
  have hretry : ∀ late, lastAttempt w.log ≠ some (.rejected late) := by
    intro late hlate
    rw [hstarted] at hlate
    cases hlate
  have hstart : ∀ op' ∈ (w.advance id .taken).operations, lastAttempt w.log = some (.started op'.data) := by
    intro op' hop'
    rw [hops', List.mem_singleton] at hop'
    rw [hop']
    exact hstarted
  rcases take_cases h hd hops hstage with ⟨rest, past, hq, hacc, hpast, hsent, htake⟩ | ⟨past, hacc, hpast, hsent, htake⟩
  · have hbytes := h.bytes
    have hcap := h.byteCap
    have hchunks := h.chunkCap
    have htotal : total w.q.queue = op.data.bytes.length + total rest := by
      rw [hq]
      simp [total]
    rw [htake]
    exact
      { single := .inr ⟨_, hops', hflight⟩
        bytes := by
          show w.q.queuedBytes - op.data.bytes.length = ((total rest : Nat) : Int)
          omega
        byteCap := by
          show total rest ≤ byteCap
          omega
        chunkCap := by
          show rest.length ≤ chunkCap
          rw [hq, List.length_cons] at hchunks
          omega
        pending := hpending
        waits := h.advance_waits hops hid .taken
        orderly := h.orderly
        history := by
          refine ⟨past ++ [op.data], hacc, hpast, ?_⟩
          show Tracks _ rest _ _ (w.advance id .taken).operations
          rw [hops']
          exact Follows.taken rfl hsent
        retry := fun late hlate => absurd hlate (hretry late)
        started := fun op' hop' _ => hstart op' hop' }
  · rw [htake]
    exact
      { single := .inr ⟨_, hops', hflight⟩
        bytes := h.bytes
        byteCap := h.byteCap
        chunkCap := h.chunkCap
        pending := hpending
        waits := h.advance_waits hops hid .taken
        orderly := h.orderly
        history := by
          refine ⟨past, hacc, hpast, ?_⟩
          rw [hops']
          exact Follows.taken rfl hsent
        retry := fun late hlate => absurd hlate (hretry late)
        started := fun op' hop' _ => hstart op' hop' }

theorem Good.note (h : Good byteCap chunkCap w) (hat : w.at? id .rejected = some op) (threw : Bool) :
    Good byteCap chunkCap (w.pause.advance id (.noted threw)) := by
  obtain ⟨hops, hflight, hid, hstage⟩ := h.at? hat
  have hops' := advance_operations hops hid (.noted threw)
  obtain ⟨past, hacc, hpast, hfollows⟩ := h.follows hops
  exact
    { h with
      single := .inr ⟨_, hops', hflight⟩
      pending := by
        show openSends w.log = ((w.advance id (.noted threw)).operations.filter _).map _
        rw [h.pending, hops, hops']
        simp [hstage]
      waits := h.pause.advance_waits hops hid (.noted threw)
      history := by
        refine ⟨past, hacc, hpast, ?_⟩
        show Tracks past w.q.queue _ _ (w.advance id (.noted threw)).operations
        rw [hops']
        exact hfollows.restage (by simp [untaken, hstage]) (by simp) (by simp [hstage])
      started := by
        intro op' hop' hstage'
        have hop' : op' ∈ (w.advance id (.noted threw)).operations := hop'
        rw [hops', List.mem_singleton] at hop'
        rw [hop'] at hstage'
        simp at hstage' }

theorem Good.finish (h : Good byteCap chunkCap w) (hdone : w.done? id = some op) (hd : Distinct (w.finish op).log) :
    Good byteCap chunkCap (w.finish op) := by
  obtain ⟨hops, hflight⟩ := h.only (List.mem_of_find?_eq_some hdone)
  have hstage : op.stage = .taken ∨ op.stage = .noted false ∨ op.stage = .noted true := by
    have hfound := List.find?_some hdone
    exact (of_decide_eq_true hfound).2
  have hnone : untaken op = [] := by
    rcases hstage with hs | hs | hs <;> simp [untaken, hs]
  have hpending : op.stage ≠ .pending := by
    rcases hstage with hs | hs | hs <;> simp [hs]
  obtain ⟨past, hacc, hpast, hfollows⟩ := h.follows hops
  have hleft : w.operations.filter (fun other => other.id ≠ op.id) = [] := by simp [hops]
  refine Good.pump ?_ (pump_distinct hd)
  rw [hleft, hflight, if_pos rfl]
  exact
    { h with
      single := .inl ⟨rfl, rfl⟩
      pending := by
        show openSends w.log = _
        rw [h.pending, hops]
        simp [hpending]
      waits := by
        intro wait hwait hresumed
        have hmem : wait ∈ w.waits := by
          dsimp only at hwait
          split at hwait
          · exact List.mem_of_mem_filter hwait
          · exact hwait
        exact ⟨(h.waits wait hmem hresumed).1, by simp⟩
      history := ⟨past, hacc, hpast, hfollows.finish hnone⟩
      started := by simp }

theorem Good.wake (h : Good byteCap chunkCap w) {wait : Wait} (hawake : w.awake? id = some wait) :
    Good byteCap chunkCap
      { w with waits := w.waits.filter fun other => other.id ≠ id, log := w.log ++ [.waited id wait.resumed] } := by
  have hmem := List.mem_of_find?_eq_some hawake
  have hfree : ∀ op ∈ w.operations, wait.on ≠ some op.id := by
    have hfound := List.find?_some hawake
    exact (of_decide_eq_true hfound).2
  have hallowed : Allowed w.log (.waited id wait.resumed) := by
    cases hresumed : wait.resumed with
    | true => trivial
    | false =>
      show openSends w.log = []
      have hon := (h.waits wait hmem hresumed).2
      have hops : w.operations = [] := List.eq_nil_iff_forall_not_mem.mpr fun op hop => hfree op hop (hon op hop)
      rw [h.pending, hops]
      rfl
  exact
    { h with
      pending := by rw [openSends_snoc]; exact h.pending
      waits := fun other hother => h.waits other (List.mem_of_mem_filter hother)
      orderly := EachAfter.snoc h.orderly hallowed
      history := by simpa [acceptedOf, resolvedOf, clearedOf] using h.history
      retry := by simpa [lastAttempt_snoc, attempt, clearedOf] using h.retry
      started := by simpa [lastAttempt_snoc, attempt] using h.started }

/-! ## Runs -/

theorem step_distinct (byteCap chunkCap : Nat) (w : World) (input : Input) (hd : Distinct (w.step byteCap chunkCap input).log) :
    Distinct w.log := by
  cases input with
  | enqueue data =>
    dsimp only [World.step, World.enqueue] at hd
    split at hd
    · exact hd
    · split at hd
      · exact hd.snoc
      · exact (pump_distinct hd).snoc
  | pause => exact hd
  | resume =>
    dsimp only [World.step, World.resume] at hd
    have hold := pump_distinct hd
    exact hold
  | pauseAndWait => exact hd
  | clear => exact hd.snoc
  | resolve id =>
    dsimp only [World.step] at hd
    split at hd
    · exact hd.snoc
    · exact hd
  | reject id =>
    dsimp only [World.step] at hd
    split at hd
    · exact hd.snoc
    · exact hd
  | take id =>
    dsimp only [World.step, World.advance, World.take] at hd
    split at hd
    · split at hd
      · exact hd
      · split at hd <;> exact hd
    · exact hd
  | note id threw =>
    dsimp only [World.step] at hd
    split at hd <;> exact hd
  | finish id =>
    dsimp only [World.step] at hd
    split at hd
    · unfold World.finish at hd
      have hold := pump_distinct hd
      exact hold
    · exact hd
  | wake id =>
    dsimp only [World.step] at hd
    split at hd
    · exact hd.snoc
    · exact hd

theorem good_next (h : Good byteCap chunkCap w) (input : Input) (hd : Distinct (w.step byteCap chunkCap input).log) :
    Good byteCap chunkCap (w.step byteCap chunkCap input) := by
  have hold := step_distinct byteCap chunkCap w input hd
  cases input with
  | enqueue data => exact h.enqueue data hd
  | pause => exact h.pause
  | resume => exact h.resume hd
  | pauseAndWait => exact h.pauseAndWait
  | clear => exact h.clear
  | resolve id =>
    dsimp only [World.step]
    split
    · exact h.resolve ‹_›
    · exact h
  | reject id =>
    dsimp only [World.step]
    split
    · exact h.reject ‹_›
    · exact h
  | take id =>
    dsimp only [World.step]
    split
    · exact h.take hold ‹_›
    · exact h
  | note id threw =>
    dsimp only [World.step]
    split
    · exact h.note ‹_› threw
    · exact h
  | finish id =>
    dsimp only [World.step] at hd ⊢
    split at hd
    · rename_i op hdone
      exact h.finish hdone hd
    · exact h
  | wake id =>
    dsimp only [World.step]
    split
    · exact h.wake ‹_›
    · exact h

theorem good_new (byteCap chunkCap : Nat) : Good byteCap chunkCap .new :=
  { single := .inl ⟨rfl, rfl⟩
    bytes := rfl
    byteCap := Nat.zero_le _
    chunkCap := Nat.zero_le _
    pending := rfl
    waits := by simp [World.new]
    orderly := EachAfter.nil Allowed
    history := ⟨[], rfl, by simp, List.Sublist.slnil⟩
    retry := nofun
    started := by simp [World.new] }

theorem good_run (byteCap chunkCap : Nat) (inputs : List Input) (hd : Distinct (World.run byteCap chunkCap inputs).log) :
    Good byteCap chunkCap (World.run byteCap chunkCap inputs) := by
  unfold World.run at hd ⊢
  induction inputs using List.reverseRecOn with
  | nil => exact good_new byteCap chunkCap
  | append_singleton inputs input ih =>
    rw [List.foldl_append] at hd ⊢
    exact good_next (ih (step_distinct byteCap chunkCap _ input hd)) input hd

theorem Tracks.sublist {past queue done cleared : List InputData} {ops : List Operation}
    (h : Tracks past queue done cleared ops) :
    done.Sublist (past ++ queue) := by
  cases ops with
  | nil => exact h.trans (List.sublist_append_left past queue)
  | cons op ops =>
    have huntaken : (untaken op).Sublist [op.data] := by
      unfold untaken
      split
      · exact List.Sublist.refl _
      · exact List.nil_sublist _
    cases h with
    | head rest sent hq hdone hsent =>
      rw [hdone, hq]
      exact hsent.append (huntaken.trans (List.singleton_sublist.mpr List.mem_cons_self))
    | gone before mid sent hp hdone hsent hcl =>
      rw [hdone, hp]
      refine (hsent.append ?_).trans (List.sublist_append_left _ queue)
      exact huntaken.trans (List.singleton_sublist.mpr List.mem_cons_self)
    | taken hstage hsent => exact hsent.trans (List.sublist_append_left past queue)

/-- However calls, settlements and callbacks come: at most one send is in flight, the counter
    is the queue's and within the caps. What has resolved was accepted, in this order. Every
    event finds what it must (`Allowed`): a start no send in flight, its chunk not resolved
    and, behind a rejection, the rejected chunk, unless it was cleared; a wait that ends with
    no resume since, no send in flight. What was accepted is queued, resolved or cleared. -/
theorem input_sends (byteCap chunkCap : Nat) (inputs : List Input) (hd : Distinct (World.run byteCap chunkCap inputs).log) :
    let w := World.run byteCap chunkCap inputs
    (openSends w.log).length ≤ 1 ∧
      w.q.queuedBytes = total w.q.queue ∧ total w.q.queue ≤ byteCap ∧ w.q.queue.length ≤ chunkCap ∧
      (resolved w.log).Sublist (accepted w.log) ∧
      (∀ before event after, w.log = before ++ event :: after → Allowed before event) ∧
      ∀ data ∈ accepted w.log, data ∈ w.q.queue ∨ data ∈ resolved w.log ∨ data ∈ cleared w.log := by
  intro w
  have h : Good byteCap chunkCap w := good_run byteCap chunkCap inputs hd
  obtain ⟨past, hacc, hpast, htrack⟩ := h.history
  refine ⟨?_, h.bytes, h.byteCap, h.chunkCap, ?_, h.orderly, ?_⟩
  · rw [h.pending, List.length_map]
    refine (List.length_filter_le _ _).trans ?_
    rcases h.single with ⟨hops, -⟩ | ⟨op, hops, -⟩ <;> simp [hops]
  · rw [hacc]
    exact htrack.sublist
  · intro data hdata
    rw [hacc] at hdata
    rcases List.mem_append.mp hdata with hold | hqueued
    · exact .inr (hpast data hold)
    · exact .inl hqueued

/-- A chunk is rejected and sent again; the next is cleared while it is sent, and a wait ends
    behind it. -/
def clearedRun : List Input :=
  [.enqueue ⟨1, [7]⟩, .enqueue ⟨2, [8, 9]⟩, .resume, .reject 0, .note 0 false, .finish 0, .resume, .resolve 1, .take 1,
    .finish 1, .pauseAndWait, .clear, .resolve 2, .take 2, .finish 2, .wake 3]

theorem input_sends_cleared :
    let w := World.run 4 2 clearedRun
    w.log =
        [.accepted ⟨1, [7]⟩, .accepted ⟨2, [8, 9]⟩, .started ⟨1, [7]⟩, .rejected ⟨1, [7]⟩, .started ⟨1, [7]⟩,
          .resolved ⟨1, [7]⟩, .started ⟨2, [8, 9]⟩, .cleared [⟨2, [8, 9]⟩], .resolved ⟨2, [8, 9]⟩, .waited 3 false] ∧
      (resolved w.log).Sublist (accepted w.log) ∧ Orderly w.log := by
  have h := input_sends 4 2 clearedRun (by decide +kernel)
  exact ⟨by decide +kernel, h.2.2.2.2.1, h.2.2.2.2.2.1⟩

end Holdfast.Desktop.InputSends

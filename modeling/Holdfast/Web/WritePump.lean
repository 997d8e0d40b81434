/-
  Holdfast.Web.WritePump — what the browser hands to the terminal emulator
  (`TerminalWritePump` of `web/src/client/terminal-write-pump.ts`).

  One write is handed over at a time. Live output waits in a queue with two bounds; over
  either of them everything is dropped until the next replay, which replaces what is queued.
  `after` runs between the end of a write and the next, and may call the pump; `before`,
  `write` and `onOverload` do not. An item is an object of its own (`id`).

  `log` has what a caller and the emulator see, in order. Between two replace calls there is
  at most one replay, and the live items written are the first of those accepted.

  Proved:
  - `Good.call` / `Good.complete`: what every event keeps.
  - `write_pump`: one write at a time, the counters right and bounded, and every write where
    it may be.
-/

import Holdfast.Base.Log
import Mathlib.Tactic

namespace Holdfast.Web.WritePump

open Holdfast.Base

structure WriteItem where
  id : Nat
  data : List UInt8
  live : Bool
  deriving DecidableEq, Repr

structure TerminalWritePump where
  queue : List WriteItem
  queuedLiveBytes : Int
  queuedLiveChunks : Int
  inFlight : Bool
  overloaded : Bool
  deriving DecidableEq, Repr

inductive Event where
  | accepted (item : WriteItem)
  | refused
  | overloaded
  | replaced (id : Nat)
  /-- Live output is handed over. -/
  | written (item : WriteItem)
  | replayed (id : Nat)
  | completed (id : Nat)
  deriving DecidableEq, Repr

structure World where
  p : TerminalWritePump
  /-- Writes the emulator has not completed. -/
  writes : List WriteItem
  next : Nat
  log : List Event
  deriving DecidableEq, Repr

def World.new : World := ⟨⟨[], 0, 0, false, false⟩, [], 0, []⟩

inductive Call where
  | enqueue (data : List UInt8)
  | replace (data : List UInt8)
  deriving DecidableEq, Repr

inductive Input where
  | call (call : Call)
  /-- A write is complete; `after` makes these calls. -/
  | complete (id : Nat) (calls : List Call)
  deriving DecidableEq, Repr

namespace World

def pump (w : World) : World :=
  if w.p.inFlight then w
  else
    match w.p.queue with
    | [] => w
    | item :: rest =>
      { w with
        p :=
          { w.p with
            queue := rest
            queuedLiveBytes := if item.live then w.p.queuedLiveBytes - item.data.length else w.p.queuedLiveBytes
            queuedLiveChunks := if item.live then w.p.queuedLiveChunks - 1 else w.p.queuedLiveChunks
            inFlight := true }
        writes := w.writes ++ [item]
        log := w.log ++ [if item.live then .written item else .replayed item.id] }

/-- A bound was reached: everything queued is dropped. -/
def overload (w : World) : World :=
  { w with
    p := { w.p with queue := [], queuedLiveBytes := 0, queuedLiveChunks := 0, overloaded := true }
    log := w.log ++ [.overloaded] }

def push (w : World) (data : List UInt8) : World :=
  { w with
    p :=
      { w.p with
        queue := w.p.queue ++ [⟨w.next, data, true⟩]
        queuedLiveBytes := w.p.queuedLiveBytes + data.length
        queuedLiveChunks := w.p.queuedLiveChunks + 1 }
    next := w.next + 1
    log := w.log ++ [.accepted ⟨w.next, data, true⟩] }

def enqueue (byteCap chunkCap : Nat) (w : World) (data : List UInt8) : World :=
  if data.length = 0 then w
  else if w.p.overloaded then { w with log := w.log ++ [.refused] }
  else if (data.length : Int) > byteCap - w.p.queuedLiveBytes ∨ w.p.queuedLiveChunks ≥ chunkCap then w.overload
  else (w.push data).pump

/-- Everything queued gives way to one replay. -/
def supersede (w : World) (data : List UInt8) : World :=
  { w with
    p := { w.p with queue := [⟨w.next, data, false⟩], queuedLiveBytes := 0, queuedLiveChunks := 0, overloaded := false }
    next := w.next + 1
    log := w.log ++ [.replaced w.next] }

def replace (w : World) (data : List UInt8) : World := (w.supersede data).pump

def call (byteCap chunkCap : Nat) (w : World) : Call → World
  | .enqueue data => w.enqueue byteCap chunkCap data
  | .replace data => w.replace data

/-- The write is over, and `after` was not called yet. -/
def release (w : World) (item : WriteItem) : World :=
  { w with
    p := { w.p with inFlight := false }
    writes := w.writes.erase item
    log := w.log ++ [.completed item.id] }

def step (byteCap chunkCap : Nat) (w : World) : Input → World
  | .call c => w.call byteCap chunkCap c
  | .complete id calls =>
    match w.writes.find? fun item => item.id = id with
    | none => w
    | some item =>
      -- only a replay has an `after`
      let calls := if item.live then [] else calls
      (calls.foldl (call byteCap chunkCap) (w.release item)).pump

def run (byteCap chunkCap : Nat) (inputs : List Input) : World := inputs.foldl (step byteCap chunkCap) .new

end World

/-! ## What was seen -/

def acceptedOf : Event → Option WriteItem
  | .accepted item => some item
  | _ => none

def writtenOf : Event → Option WriteItem
  | .written item => some item
  | _ => none

/-- What the pump was given: live items and replays. -/
def givenOf : Event → Option Nat
  | .accepted item => some item.id
  | .replaced id => some id
  | _ => none

def replace? : Event → Bool
  | .replaced _ => true
  | _ => false

def accepted (log : List Event) : List WriteItem := log.filterMap acceptedOf
def written (log : List Event) : List WriteItem := log.filterMap writtenOf
def given (log : List Event) : List Nat := log.filterMap givenOf

/-- The writes in flight. -/
def openWrites (log : List Event) : List Nat :=
  log.foldl
    (fun writes event =>
      match event with
      | .written item => writes ++ [item.id]
      | .replayed id => writes ++ [id]
      | .completed id => writes.erase id
      | _ => writes) []

/-- The events behind the last replace call. -/
abbrev current (log : List Event) : List Event := since replace? log

def Replayed (log : List Event) : Prop := ∃ id, Event.replayed id ∈ log

/-- What an event says of those before it. -/
def Allowed (before : List Event) : Event → Prop
  | .accepted _ => .overloaded ∉ current before
  | .written item =>
    openWrites before = [] ∧ .overloaded ∉ current before ∧
      (written (current before) ++ [item]) <+: accepted (current before) ∧
      ((last replace? before).isSome = true → Replayed (current before))
  | .replayed id =>
    openWrites before = [] ∧ .overloaded ∉ current before ∧ last replace? before = some (.replaced id) ∧
      written (current before) = [] ∧ ¬Replayed (current before)
  | .completed id => openWrites before = [id]
  | _ => True

def Orderly (log : List Event) : Prop := EachAfter Allowed log

section
variable (log : List Event)

@[simp] theorem accepted_snoc (event : Event) : accepted (log ++ [event]) = accepted log ++ (acceptedOf event).toList := by
  rw [accepted, List.filterMap_append]
  cases h : acceptedOf event <;> simp [h, accepted]

@[simp] theorem written_snoc (event : Event) : written (log ++ [event]) = written log ++ (writtenOf event).toList := by
  rw [written, List.filterMap_append]
  cases h : writtenOf event <;> simp [h, written]

@[simp] theorem given_snoc (event : Event) : given (log ++ [event]) = given log ++ (givenOf event).toList := by
  rw [given, List.filterMap_append]
  cases h : givenOf event <;> simp [h, given]

theorem openWrites_snoc (event : Event) :
    openWrites (log ++ [event]) =
      match event with
      | .written item => openWrites log ++ [item.id]
      | .replayed id => openWrites log ++ [id]
      | .completed id => (openWrites log).erase id
      | _ => openWrites log := by
  rw [openWrites, List.foldl_append]
  rfl

theorem current_snoc {event : Event} (h : replace? event = false) : current (log ++ [event]) = current log ++ [event] := by
  rw [current, since_snoc, h]
  rfl

theorem lastReplace_snoc {event : Event} (h : replace? event = false) : last replace? (log ++ [event]) = last replace? log := by
  rw [last_snoc, h]
  rfl

end

/-! ## What every event keeps -/

def lives (queue : List WriteItem) : List WriteItem := queue.filter fun item => item.live

def total (items : List WriteItem) : Nat := (items.map fun item => item.data.length).sum

/-- What is queued, by what became of the last replay. -/
inductive Phase (queue : List WriteItem) (log : List Event) : Bool → Prop
  | stopped : .overloaded ∈ current log → queue = [] → written (current log) <+: accepted (current log) → Phase queue log true
  | shown : .overloaded ∉ current log → (∀ item ∈ queue, item.live = true) →
      written (current log) ++ queue = accepted (current log) →
      ((last replace? log).isSome = true → Replayed (current log)) → Phase queue log false
  | due (id : Nat) (data : List UInt8) (rest : List WriteItem) : .overloaded ∉ current log →
      queue = ⟨id, data, false⟩ :: rest → (∀ item ∈ rest, item.live = true) → written (current log) = [] →
      rest = accepted (current log) → last replace? log = some (.replaced id) → ¬Replayed (current log) →
      Phase queue log false

structure Good (byteCap chunkCap : Nat) (w : World) : Prop where
  single : w.writes = [] ∧ w.p.inFlight = false ∨ ∃ item, w.writes = [item] ∧ w.p.inFlight = true
  opened : openWrites w.log = w.writes.map WriteItem.id
  bytes : w.p.queuedLiveBytes = total (lives w.p.queue)
  chunks : w.p.queuedLiveChunks = (lives w.p.queue).length
  byteCap : total (lives w.p.queue) ≤ byteCap
  chunkCap : (lives w.p.queue).length ≤ chunkCap
  orderly : Orderly w.log
  ordered : (given w.log).Pairwise (· < ·)
  fresh : ∀ id ∈ given w.log, id < w.next
  phase : Phase w.p.queue w.log w.p.overloaded

variable {byteCap chunkCap : Nat} {w : World}

theorem Phase.quiet {queue : List WriteItem} {log : List Event} {b : Bool} (h : Phase queue log b) {event : Event}
    (hreplace : replace? event = false) (hover : event ≠ .overloaded) (hacc : acceptedOf event = none)
    (hwritten : writtenOf event = none) (hreplayed : ∀ id, event ≠ .replayed id) : Phase queue (log ++ [event]) b := by
  have hcurrent := current_snoc log hreplace
  have hlast := lastReplace_snoc log hreplace
  have hreplayed' : Replayed (current (log ++ [event])) ↔ Replayed (current log) := by
    rw [hcurrent]
    simp [Replayed, (hreplayed _).symm]
  have hover' : .overloaded ∈ current (log ++ [event]) ↔ Event.overloaded ∈ current log := by
    rw [hcurrent]
    simp [hover.symm]
  have haccepted : accepted (current (log ++ [event])) = accepted (current log) := by
    rw [hcurrent, accepted_snoc, hacc, Option.toList_none, List.append_nil]
  have hwritten' : written (current (log ++ [event])) = written (current log) := by
    rw [hcurrent, written_snoc, hwritten, Option.toList_none, List.append_nil]
  cases h with
  | stopped ho hq hp => exact .stopped (hover'.mpr ho) hq (by rw [hwritten', haccepted]; exact hp)
  | shown ho hl he hr =>
    exact .shown (fun h => ho (hover'.mp h)) hl (by rw [hwritten', haccepted]; exact he)
      (by rw [hlast, hreplayed']; exact hr)
  | due id data rest ho hq hl hw ha hlst hr =>
    exact .due id data rest (fun h => ho (hover'.mp h)) hq hl (by rw [hwritten']; exact hw) (by rw [haccepted]; exact ha)
      (by rw [hlast]; exact hlst) (fun h => hr (hreplayed'.mp h))

theorem total_append (a b : List WriteItem) : total (a ++ b) = total a + total b := by simp [total]

theorem Good.idle (h : Good byteCap chunkCap w) (hflight : w.p.inFlight = false) : w.writes = [] := by
  rcases h.single with ⟨hw, -⟩ | ⟨item, -, hbusy⟩
  · exact hw
  · rw [hflight] at hbusy
    cases hbusy

/-- The first live item is next. -/
theorem Phase.write {item : WriteItem} {rest : List WriteItem} {log : List Event} {b : Bool} (h : Phase (item :: rest) log b)
    (hlive : item.live = true) (hopen : openWrites log = []) :
    Allowed log (.written item) ∧ Phase rest (log ++ [.written item]) b := by
  cases h with
  | stopped _ hnil _ => cases hnil
  | due id data more _ hcons _ _ _ _ _ =>
    cases hcons
    cases hlive
  | shown ho hl he hr =>
    have hcurrent : current (log ++ [.written item]) = current log ++ [.written item] := current_snoc log rfl
    have hwritten : written (current log ++ [.written item]) = written (current log) ++ [item] := written_snoc _ _
    have haccepted : accepted (current log ++ [.written item]) = accepted (current log) := by simp [acceptedOf]
    have heq : (written (current log) ++ [item]) ++ rest = accepted (current log) := by
      rw [List.append_assoc, List.singleton_append]
      exact he
    refine ⟨⟨hopen, ho, ⟨rest, heq⟩, hr⟩, .shown ?_ (fun other hother => hl other (List.mem_cons_of_mem _ hother)) ?_ ?_⟩
    · rw [hcurrent]
      simpa using ho
    · rw [hcurrent, hwritten, haccepted]
      exact heq
    · intro hlast
      rw [lastReplace_snoc log rfl] at hlast
      obtain ⟨id, hid⟩ := hr hlast
      rw [hcurrent]
      exact ⟨id, List.mem_append_left _ hid⟩

/-- The replay is next. -/
theorem Phase.replay {item : WriteItem} {rest : List WriteItem} {log : List Event} {b : Bool} (h : Phase (item :: rest) log b)
    (hlive : item.live = false) (hopen : openWrites log = []) :
    Allowed log (.replayed item.id) ∧ Phase rest (log ++ [.replayed item.id]) b := by
  cases h with
  | stopped _ hnil _ => cases hnil
  | shown _ hl _ _ =>
    rw [hl item List.mem_cons_self] at hlive
    cases hlive
  | due id data more ho hcons hl hw ha hlast hr =>
    cases hcons
    have hcurrent : current (log ++ [.replayed id]) = current log ++ [.replayed id] := current_snoc log rfl
    refine ⟨⟨hopen, ho, hlast, hw, hr⟩, .shown ?_ hl ?_ ?_⟩
    · rw [hcurrent]
      simpa using ho
    · rw [hcurrent]
      simp [hw, ha, writtenOf, acceptedOf]
    · intro _
      rw [hcurrent]
      exact ⟨id, List.mem_append_right _ List.mem_cons_self⟩

theorem Good.pump (h : Good byteCap chunkCap w) : Good byteCap chunkCap w.pump := by
  unfold World.pump
  split
  · exact h
  · rename_i hflight
    have hidle := h.idle (Bool.not_eq_true _ |>.mp hflight)
    have hopen : openWrites w.log = [] := by rw [h.opened, hidle]; rfl
    have hphase := h.phase
    have hbytes := h.bytes
    have hchunks := h.chunks
    have hbyteCap := h.byteCap
    have hchunkCap := h.chunkCap
    split
    · exact h
    · rename_i item rest hq
      rw [hq] at hphase hbytes hchunks hbyteCap hchunkCap
      cases hlive : item.live with
      | true =>
        obtain ⟨hallowed, hphase'⟩ := hphase.write hlive hopen
        have hlives : lives (item :: rest) = item :: lives rest := by simp [lives, hlive]
        have htotal : total (item :: lives rest) = item.data.length + total (lives rest) := by simp [total]
        rw [hlives] at hbytes hchunks hbyteCap hchunkCap
        rw [htotal] at hbytes hbyteCap
        rw [List.length_cons] at hchunks hchunkCap
        exact
          { single := .inr ⟨item, by simp [hidle], rfl⟩
            opened := by simp [openWrites_snoc, hopen, hidle]
            bytes := by
              show w.p.queuedLiveBytes - item.data.length = ((total (lives rest) : Nat) : Int)
              omega
            chunks := by
              show w.p.queuedLiveChunks - 1 = (((lives rest).length : Nat) : Int)
              omega
            byteCap := by
              show total (lives rest) ≤ byteCap
              omega
            chunkCap := by
              show (lives rest).length ≤ chunkCap
              omega
            orderly := EachAfter.snoc h.orderly hallowed
            ordered := by simpa [givenOf] using h.ordered
            fresh := by simpa [givenOf] using h.fresh
            phase := hphase' }
      | false =>
        obtain ⟨hallowed, hphase'⟩ := hphase.replay hlive hopen
        have hlives : lives (item :: rest) = lives rest := by simp [lives, hlive]
        rw [hlives] at hbytes hchunks hbyteCap hchunkCap
        exact
          { single := .inr ⟨item, by simp [hidle], rfl⟩
            opened := by simp [openWrites_snoc, hopen, hidle]
            bytes := hbytes
            chunks := hchunks
            byteCap := hbyteCap
            chunkCap := hchunkCap
            orderly := EachAfter.snoc h.orderly hallowed
            ordered := by simpa [givenOf] using h.ordered
            fresh := by simpa [givenOf] using h.fresh
            phase := hphase' }

/-- Something the pump was given gets a number of its own. -/
theorem Good.given_snoc (h : Good byteCap chunkCap w) {event : Event} (hevent : givenOf event = some w.next) :
    (given (w.log ++ [event])).Pairwise (· < ·) ∧ ∀ id ∈ given (w.log ++ [event]), id < w.next + 1 := by
  rw [WritePump.given_snoc, hevent, Option.toList_some]
  constructor
  · rw [List.pairwise_append]
    refine ⟨h.ordered, List.pairwise_singleton _ _, ?_⟩
    intro a ha b hb
    rw [List.mem_singleton.mp hb]
    exact h.fresh a ha
  · intro id hid
    rcases List.mem_append.mp hid with hold | hnew
    · exact Nat.lt_succ_of_lt (h.fresh id hold)
    · rw [List.mem_singleton.mp hnew]
      exact Nat.lt_succ_self _

theorem Phase.push {queue : List WriteItem} {log : List Event} (h : Phase queue log false) {item : WriteItem}
    (hlive : item.live = true) :
    Allowed log (.accepted item) ∧ Phase (queue ++ [item]) (log ++ [.accepted item]) false := by
  have hcurrent : current (log ++ [.accepted item]) = current log ++ [.accepted item] := current_snoc log rfl
  have hwritten : written (current log ++ [.accepted item]) = written (current log) := by simp [writtenOf]
  have haccepted : accepted (current log ++ [.accepted item]) = accepted (current log) ++ [item] := accepted_snoc _ _
  have hreplayed : Replayed (current (log ++ [.accepted item])) ↔ Replayed (current log) := by
    rw [hcurrent]
    simp [Replayed]
  have hover : .overloaded ∈ current (log ++ [.accepted item]) ↔ Event.overloaded ∈ current log := by
    rw [hcurrent]
    simp
  have hlives : ∀ rest : List WriteItem, (∀ other ∈ rest, other.live = true) → ∀ other ∈ rest ++ [item], other.live = true := by
    intro rest hrest other hother
    rcases List.mem_append.mp hother with hold | hnew
    · exact hrest other hold
    · rw [List.mem_singleton.mp hnew]
      exact hlive
  cases h with
  | shown ho hl he hr =>
    refine ⟨ho, .shown (fun h => ho (hover.mp h)) (hlives _ hl) ?_ ?_⟩
    · rw [hcurrent, hwritten, haccepted, ← he, List.append_assoc]
    · rw [lastReplace_snoc log rfl, hreplayed]
      exact hr
  | due id data rest ho hq hl hw ha hlast hr =>
    refine ⟨ho, .due id data (rest ++ [item]) (fun h => ho (hover.mp h)) (by rw [hq]; rfl) (hlives _ hl) ?_ ?_ ?_
      (fun h => hr (hreplayed.mp h))⟩
    · rw [hcurrent, hwritten, hw]
    · rw [hcurrent, haccepted, ha]
    · rw [lastReplace_snoc log rfl, hlast]

theorem Good.push (h : Good byteCap chunkCap w) {data : List UInt8} (hover : w.p.overloaded = false)
    (hroom : ¬((data.length : Int) > byteCap - w.p.queuedLiveBytes ∨ w.p.queuedLiveChunks ≥ chunkCap)) :
    Good byteCap chunkCap (w.push data) := by
  have hbytes := h.bytes
  have hchunks := h.chunks
  rw [not_or] at hroom
  have hlives : lives (w.p.queue ++ [⟨w.next, data, true⟩]) = lives w.p.queue ++ [⟨w.next, data, true⟩] := by simp [lives]
  have htotal : total (lives w.p.queue ++ [⟨w.next, data, true⟩]) = total (lives w.p.queue) + data.length := by
    rw [total_append]
    simp [total]
  have hlength : (lives w.p.queue ++ [(⟨w.next, data, true⟩ : WriteItem)]).length = (lives w.p.queue).length + 1 := by simp
  have hgiven : givenOf (.accepted (⟨w.next, data, true⟩ : WriteItem)) = some w.next := rfl
  obtain ⟨hordered, hfresh⟩ := h.given_snoc hgiven
  have hphase := h.phase
  rw [hover] at hphase
  have hlive : (⟨w.next, data, true⟩ : WriteItem).live = true := rfl
  obtain ⟨hallowed, hphase'⟩ := hphase.push hlive
  exact
    { single := h.single
      opened := by
        show openWrites (w.log ++ [.accepted ⟨w.next, data, true⟩]) = _
        rw [openWrites_snoc]
        exact h.opened
      bytes := by
        show w.p.queuedLiveBytes + data.length = ((total (lives (w.p.queue ++ [⟨w.next, data, true⟩])) : Nat) : Int)
        rw [hlives, htotal, hbytes, Nat.cast_add]
      chunks := by
        show w.p.queuedLiveChunks + 1 = (((lives (w.p.queue ++ [⟨w.next, data, true⟩])).length : Nat) : Int)
        rw [hlives, hlength, hchunks]
        rfl
      byteCap := by
        show total (lives (w.p.queue ++ [⟨w.next, data, true⟩])) ≤ byteCap
        rw [hlives, htotal]
        omega
      chunkCap := by
        show (lives (w.p.queue ++ [⟨w.next, data, true⟩])).length ≤ chunkCap
        rw [hlives, hlength]
        omega
      orderly := EachAfter.snoc h.orderly hallowed
      ordered := hordered
      fresh := hfresh
      phase := by
        show Phase (w.p.queue ++ [⟨w.next, data, true⟩]) (w.log ++ [.accepted ⟨w.next, data, true⟩]) w.p.overloaded
        rw [hover]
        exact hphase' }

theorem Phase.prefixed {queue : List WriteItem} {log : List Event} {b : Bool} (h : Phase queue log b) :
    written (current log) <+: accepted (current log) := by
  cases h with
  | stopped _ _ hp => exact hp
  | shown _ _ he _ => exact ⟨queue, he⟩
  | due _ _ _ _ _ _ hw _ _ _ =>
    rw [hw]
    exact List.nil_prefix

theorem Good.overload (h : Good byteCap chunkCap w) : Good byteCap chunkCap w.overload := by
  have hcurrent : current (w.log ++ [.overloaded]) = current w.log ++ [.overloaded] := current_snoc w.log rfl
  exact
    { single := h.single
      opened := by
        show openWrites (w.log ++ [.overloaded]) = _
        rw [openWrites_snoc]
        exact h.opened
      bytes := rfl
      chunks := rfl
      byteCap := Nat.zero_le _
      chunkCap := Nat.zero_le _
      orderly := EachAfter.snoc h.orderly trivial
      ordered := by simpa [World.overload, givenOf] using h.ordered
      fresh := by simpa [World.overload, givenOf] using h.fresh
      phase := by
        refine .stopped ?_ rfl ?_
        · show _ ∈ current (w.log ++ [.overloaded])
          rw [hcurrent]
          exact List.mem_append_right _ List.mem_cons_self
        · show written (current (w.log ++ [.overloaded])) <+: accepted (current (w.log ++ [.overloaded]))
          rw [hcurrent]
          simpa [writtenOf, acceptedOf] using h.phase.prefixed }

theorem Good.enqueue (h : Good byteCap chunkCap w) (data : List UInt8) :
    Good byteCap chunkCap (w.enqueue byteCap chunkCap data) := by
  unfold World.enqueue
  split
  · exact h
  · split
    · exact
        { h with
          opened := by rw [openWrites_snoc]; exact h.opened
          orderly := EachAfter.snoc h.orderly trivial
          ordered := by simpa [givenOf] using h.ordered
          fresh := by simpa [givenOf] using h.fresh
          phase := h.phase.quiet rfl (by simp) rfl rfl (by simp) }
    · rename_i hover
      split
      · exact h.overload
      · rename_i hroom
        exact (h.push (Bool.not_eq_true _ |>.mp hover) hroom).pump

theorem Good.supersede (h : Good byteCap chunkCap w) (data : List UInt8) : Good byteCap chunkCap (w.supersede data) := by
  have hgiven : givenOf (.replaced w.next) = some w.next := rfl
  obtain ⟨hordered, hfresh⟩ := h.given_snoc hgiven
  have hcurrent : current (w.log ++ [.replaced w.next]) = [] := since_snoc replace? w.log _
  exact
    { single := h.single
      opened := by
        show openWrites (w.log ++ [.replaced w.next]) = _
        rw [openWrites_snoc]
        exact h.opened
      bytes := rfl
      chunks := rfl
      byteCap := Nat.zero_le _
      chunkCap := Nat.zero_le _
      orderly := EachAfter.snoc h.orderly trivial
      ordered := hordered
      fresh := hfresh
      phase := by
        show Phase [⟨w.next, data, false⟩] (w.log ++ [.replaced w.next]) false
        refine .due w.next data [] ?_ rfl (by simp) ?_ ?_ (last_snoc replace? w.log _) ?_
        · rw [hcurrent]
          exact List.not_mem_nil
        · rw [hcurrent]
          rfl
        · rw [hcurrent]
          rfl
        · rw [hcurrent]
          exact fun ⟨id, hid⟩ => absurd hid List.not_mem_nil }

theorem Good.call (h : Good byteCap chunkCap w) (c : Call) : Good byteCap chunkCap (w.call byteCap chunkCap c) := by
  cases c with
  | enqueue data => exact h.enqueue data
  | replace data => exact (h.supersede data).pump

theorem Good.release (h : Good byteCap chunkCap w) {item : WriteItem} (hitem : item ∈ w.writes) :
    Good byteCap chunkCap (w.release item) := by
  have hwrites : w.writes = [item] := by
    rcases h.single with ⟨hnil, -⟩ | ⟨other, hone, -⟩
    · rw [hnil] at hitem
      cases hitem
    · rw [hone, List.mem_singleton] at hitem
      rw [hone, hitem]
  have hleft : w.writes.erase item = [] := by simp [hwrites]
  have hopen : openWrites w.log = [item.id] := by rw [h.opened, hwrites]; rfl
  exact
    { h with
      single := .inl ⟨hleft, rfl⟩
      opened := by
        show openWrites (w.log ++ [.completed item.id]) = (w.writes.erase item).map _
        rw [openWrites_snoc, hopen, hleft]
        simp
      orderly := EachAfter.snoc h.orderly hopen
      ordered := by simpa [World.release, givenOf] using h.ordered
      fresh := by simpa [World.release, givenOf] using h.fresh
      phase := h.phase.quiet rfl (by simp) rfl rfl (by simp) }

theorem Good.calls (h : Good byteCap chunkCap w) (calls : List Call) :
    Good byteCap chunkCap (calls.foldl (World.call byteCap chunkCap) w) := by
  induction calls generalizing w with
  | nil => exact h
  | cons c calls ih => exact ih (h.call c)

theorem Good.step (h : Good byteCap chunkCap w) (input : Input) : Good byteCap chunkCap (w.step byteCap chunkCap input) := by
  cases input with
  | call c => exact h.call c
  | complete id calls =>
    dsimp only [World.step]
    split
    · exact h
    · rename_i item hfind
      exact ((h.release (List.mem_of_find?_eq_some hfind)).calls _).pump

theorem good_new (byteCap chunkCap : Nat) : Good byteCap chunkCap .new :=
  { single := .inl ⟨rfl, rfl⟩
    opened := rfl
    bytes := rfl
    chunks := rfl
    byteCap := Nat.zero_le _
    chunkCap := Nat.zero_le _
    orderly := EachAfter.nil Allowed
    ordered := List.Pairwise.nil
    fresh := nofun
    phase := .shown nofun nofun rfl nofun }

theorem good_run (byteCap chunkCap : Nat) (inputs : List Input) : Good byteCap chunkCap (World.run byteCap chunkCap inputs) := by
  unfold World.run
  induction inputs using List.reverseRecOn with
  | nil => exact good_new byteCap chunkCap
  | append_singleton inputs input ih =>
    rw [List.foldl_append]
    exact ih.step input

/-! ## Replays -/

theorem accepted_append (a b : List Event) : accepted (a ++ b) = accepted a ++ accepted b := List.filterMap_append

theorem written_append (a b : List Event) : written (a ++ b) = written a ++ written b := List.filterMap_append

theorem given_append (a b : List Event) : given (a ++ b) = given a ++ given b := List.filterMap_append

theorem mem_written {item : WriteItem} {log : List Event} (h : item ∈ written log) : .written item ∈ log := by
  obtain ⟨event, hevent, hsome⟩ := List.mem_filterMap.mp h
  cases event <;> cases hsome
  exact hevent

theorem given_of_accepted {item : WriteItem} {log : List Event} (h : item ∈ accepted log) : item.id ∈ given log := by
  obtain ⟨event, hevent, hsome⟩ := List.mem_filterMap.mp h
  cases event <;> cases hsome
  exact List.mem_filterMap.mpr ⟨_, hevent, rfl⟩

theorem mem_current {log : List Event} {item : WriteItem} (h : (written (current log) ++ [item]) <+: accepted (current log)) :
    item ∈ accepted (current log) :=
  h.subset (List.mem_append_right _ List.mem_cons_self)

/-- What was accepted before a replace call is not written after it. -/
theorem superseded {log a b : List Event} {id : Nat} (h : Orderly log) (hordered : (given log).Pairwise (· < ·))
    (hlog : log = a ++ .replaced id :: b) : ∀ item ∈ written b, item ∉ accepted a := by
  intro item hitem hacc
  obtain ⟨b₁, b₂, rfl⟩ := List.append_of_mem (mem_written hitem)
  obtain ⟨-, -, hprefix, -⟩ := h (a ++ .replaced id :: b₁) (.written item) b₂ (by rw [hlog]; simp)
  obtain ⟨front, hfront⟩ : current (a ++ .replaced id :: b₁) <:+ b₁ := since_suffix a rfl b₁
  have hb₁ : item ∈ accepted b₁ := by
    rw [← hfront, accepted_append]
    exact List.mem_append_right _ (mem_current hprefix)
  rw [hlog, given_append] at hordered
  have hlt := (List.pairwise_append.mp hordered).2.2 item.id (given_of_accepted hacc) item.id (by
    have hmem : item ∈ accepted (Event.replaced id :: (b₁ ++ .written item :: b₂)) := by
      show item ∈ accepted (b₁ ++ .written item :: b₂)
      rw [accepted_append]
      exact List.mem_append_left _ hb₁
    exact given_of_accepted hmem)
  exact absurd hlt (Nat.lt_irrefl _)

/-- A replay is written after its call, with no live item and no other call between. -/
theorem replay_called {log a b : List Event} {id : Nat} (h : Orderly log) (hlog : log = a ++ .replayed id :: b) :
    ∃ before, a = before ++ .replaced id :: current a ∧ written (current a) = [] ∧ ¬Replayed (current a) := by
  obtain ⟨-, -, hlast, hwritten, hreplayed⟩ := h a (.replayed id) b hlog
  obtain ⟨-, before, ha⟩ := last_some hlast
  exact ⟨before, ha, hwritten, hreplayed⟩

/-- After an overload nothing is accepted and nothing written, up to the next replace call. -/
theorem overloaded_silent {log a b : List Event} (h : Orderly log) (hlog : log = a ++ .overloaded :: b)
    (hb : ∀ event ∈ b, replace? event = false) : accepted b = [] ∧ written b = [] ∧ ¬Replayed b := by
  have hcurrent : ∀ b₁, (∀ event ∈ b₁, replace? event = false) → .overloaded ∈ current (a ++ .overloaded :: b₁) := by
    intro b₁ hb₁
    have hall : ∀ event ∈ Event.overloaded :: b₁, replace? event = false := List.forall_mem_cons.mpr ⟨rfl, hb₁⟩
    rw [current, since_append a hall]
    exact List.mem_append_right _ List.mem_cons_self
  have hsplit : ∀ event ∈ b, ∃ b₁, .overloaded ∈ current (a ++ .overloaded :: b₁) ∧ Allowed (a ++ .overloaded :: b₁) event := by
    intro event hevent
    obtain ⟨b₁, b₂, rfl⟩ := List.append_of_mem hevent
    exact ⟨b₁, hcurrent b₁ fun e he => hb e (List.mem_append_left _ he), h _ event b₂ (by rw [hlog]; simp)⟩
  refine ⟨?_, ?_, ?_⟩
  · refine List.eq_nil_iff_forall_not_mem.mpr fun item hitem => ?_
    obtain ⟨event, hevent, hsome⟩ := List.mem_filterMap.mp hitem
    obtain ⟨b₁, hover, hallowed⟩ := hsplit event hevent
    cases event <;> cases hsome
    exact hallowed hover
  · refine List.eq_nil_iff_forall_not_mem.mpr fun item hitem => ?_
    obtain ⟨b₁, hover, hallowed⟩ := hsplit _ (mem_written hitem)
    exact hallowed.2.1 hover
  · rintro ⟨id, hid⟩
    obtain ⟨b₁, hover, hallowed⟩ := hsplit _ hid
    exact hallowed.2.1 hover

/-- Behind a replay, the live items written are the first of those accepted behind its call,
    as long as no other replay is written. -/
theorem written_prefix {log a b c : List Event} {id : Nat} (h : Orderly log) (hlog : log = a ++ .replayed id :: (b ++ c))
    (hb : ¬Replayed b) : written b <+: accepted (current a ++ .replayed id :: b) := by
  obtain ⟨-, -, hcalled, -⟩ := replay_called h hlog
  induction b using List.reverseRecOn generalizing c with
  | nil => exact List.nil_prefix
  | append_singleton b event ih =>
    have hb' : ¬Replayed b := fun ⟨id, hid⟩ => hb ⟨id, List.mem_append_left _ hid⟩
    have hih := ih (by rw [hlog, List.append_assoc]) hb'
    have hgrow : accepted (current a ++ .replayed id :: b) <+: accepted (current a ++ .replayed id :: (b ++ [event])) := by
      rw [← List.cons_append, ← List.append_assoc, accepted_append _ [event]]
      exact List.prefix_append _ _
    rw [written_append b [event]]
    by_cases hwritten : ∃ item, event = .written item
    · obtain ⟨item, rfl⟩ := hwritten
      obtain ⟨-, -, hprefix, hreplayed⟩ := h (a ++ .replayed id :: b) (.written item) c (by rw [hlog]; simp)
      refine List.IsPrefix.trans ?_ hgrow
      by_cases hcall : ∃ call ∈ b, replace? call = true
      · -- a live item behind a later call is behind its replay
        exfalso
        obtain ⟨call, hmem, hcall⟩ := hcall
        obtain ⟨x, y, rfl⟩ := List.append_of_mem hmem
        have hcut : a ++ Event.replayed id :: (x ++ call :: y) = (a ++ Event.replayed id :: x) ++ call :: y := by simp
        rw [hcut] at hreplayed
        obtain ⟨id', hid'⟩ := hreplayed (last_isSome (by simp) hcall)
        obtain ⟨front, hfront⟩ := since_suffix (a ++ Event.replayed id :: x) hcall y
        have hy : Event.replayed id' ∈ y := hfront ▸ List.mem_append_right front hid'
        exact hb' ⟨id', by simp [hy]⟩
      · have hall : ∀ event ∈ Event.replayed id :: b, replace? event = false := by
          refine List.forall_mem_cons.mpr ⟨rfl, fun e he => ?_⟩
          exact Bool.not_eq_true _ |>.mp fun hcall' => hcall ⟨e, he, hcall'⟩
        rw [current, since_append a hall, written_append, hcalled, List.nil_append] at hprefix
        exact hprefix
    · have hnone : writtenOf event = none := by
        cases event with
        | written item => exact absurd ⟨item, rfl⟩ hwritten
        | _ => rfl
      have hempty : written [event] = [] := by simp [written, hnone]
      rw [hempty, List.append_nil]
      exact hih.trans hgrow

/-- Between two replays, the live items written are the first of those accepted between the
    two calls. -/
theorem between_replays {log a b c : List Event} {id id' : Nat} (h : Orderly log)
    (hlog : log = a ++ .replayed id :: (b ++ .replayed id' :: c)) (hb : ¬Replayed b) :
    ∃ a' b' c', log = a' ++ .replaced id :: (b' ++ .replaced id' :: c') ∧ written b <+: accepted b' := by
  obtain ⟨before, ha, -, -⟩ := replay_called h hlog
  have hlog' : log = (a ++ .replayed id :: b) ++ .replayed id' :: c := by rw [hlog]; simp
  obtain ⟨before', ha', hquiet, hnot⟩ := replay_called h hlog'
  generalize current (a ++ .replayed id :: b) = behind at ha' hquiet hnot
  -- the second call is behind the first replay: behind the call there is none
  obtain ⟨b₁, rfl⟩ : ∃ b₁, b = b₁ ++ .replaced id' :: behind := by
    rcases List.append_eq_append_iff.mp ha' with ⟨t, -, hcut⟩ | ⟨t, -, hcut⟩
    · rcases t with _ | ⟨first, t⟩
      · cases hcut
      · exact ⟨t, (List.cons.inj hcut).2⟩
    · rcases t with _ | ⟨first, t⟩
      · cases hcut
      · refine absurd ⟨id, ?_⟩ hnot
        rw [(List.cons.inj hcut).2]
        exact List.mem_append_right _ List.mem_cons_self
  have hb₁ : ¬Replayed b₁ := fun ⟨id, hid⟩ => hb ⟨id, List.mem_append_left _ hid⟩
  refine ⟨before, current a ++ .replayed id :: b₁, behind ++ .replayed id' :: c, ?_, ?_⟩
  · calc
      log = a ++ .replayed id :: (b₁ ++ .replaced id' :: behind ++ .replayed id' :: c) := hlog
      _ = (before ++ .replaced id :: current a) ++ .replayed id :: (b₁ ++ .replaced id' :: behind ++ .replayed id' :: c) := by
        rw [← ha]
      _ = _ := by simp
  · have hwritten : written (b₁ ++ .replaced id' :: behind) = written b₁ := by
      have hcons : written (.replaced id' :: behind) = written behind := rfl
      rw [written_append, hcons, hquiet, List.append_nil]
    rw [hwritten]
    exact written_prefix h (by rw [hlog, List.append_assoc]) hb₁

/-- Whatever is enqueued and replaced, and whenever writes complete: at most one is in flight,
    and the counters are those of the queued live items and within the caps. Every item and
    replay has a number of its own. Between two replays the live items written are the first
    of those accepted between the two calls, in order; no live item accepted before a call is
    written after it, and none at all between a call and its replay; behind an overload nothing
    is accepted or written up to the next call. -/
theorem write_pump (byteCap chunkCap : Nat) (inputs : List Input) :
    let w := World.run byteCap chunkCap inputs
    (openWrites w.log).length ≤ 1 ∧
      w.p.queuedLiveBytes = total (lives w.p.queue) ∧ w.p.queuedLiveChunks = (lives w.p.queue).length ∧
      w.p.queuedLiveBytes ≤ byteCap ∧ w.p.queuedLiveChunks ≤ chunkCap ∧
      Orderly w.log ∧ (given w.log).Nodup ∧
      (∀ a b c id id', w.log = a ++ .replayed id :: (b ++ .replayed id' :: c) → ¬Replayed b →
        ∃ a' b' c', w.log = a' ++ .replaced id :: (b' ++ .replaced id' :: c') ∧ written b <+: accepted b') ∧
      (∀ a b id, w.log = a ++ .replaced id :: b → ∀ item ∈ written b, item ∉ accepted a) ∧
      (∀ a b id, w.log = a ++ .replayed id :: b →
        ∃ before, a = before ++ .replaced id :: current a ∧ written (current a) = [] ∧ ¬Replayed (current a)) ∧
      ∀ a b, w.log = a ++ .overloaded :: b → (∀ event ∈ b, replace? event = false) →
        accepted b = [] ∧ written b = [] ∧ ¬Replayed b := by
  intro w
  have h : Good byteCap chunkCap w := good_run byteCap chunkCap inputs
  have hbytes := h.bytes
  have hchunks := h.chunks
  have hbyteCap := h.byteCap
  have hchunkCap := h.chunkCap
  refine ⟨?_, hbytes, hchunks, by omega, by omega, h.orderly, h.ordered.imp Nat.ne_of_lt, ?_, ?_, ?_, ?_⟩
  · rw [h.opened, List.length_map]
    rcases h.single with ⟨hw, -⟩ | ⟨item, hw, -⟩ <;> simp [hw]
  · exact fun a b c id id' hlog hb => between_replays h.orderly hlog hb
  · exact fun a b id hlog => superseded h.orderly h.ordered hlog
  · exact fun a b id hlog => replay_called h.orderly hlog
  · exact fun a b hlog hb => overloaded_silent h.orderly hlog hb

/-- Two replays, with one live item written between them and one given up. -/
def twoReplays : List Input :=
  [.call (.replace [1]), .call (.enqueue [2]), .complete 0 [.enqueue [3]], .call (.replace [4]), .complete 1 [], .complete 3 []]

theorem write_pump_two_replays :
    let w := World.run 8 4 twoReplays
    w.log =
        [.replaced 0, .replayed 0, .accepted ⟨1, [2], true⟩, .completed 0, .accepted ⟨2, [3], true⟩, .written ⟨1, [2], true⟩,
          .replaced 3, .completed 1, .replayed 3, .completed 3] ∧
      (openWrites w.log).length ≤ 1 ∧
      ∃ a' b' c', w.log = a' ++ .replaced 0 :: (b' ++ .replaced 3 :: c') ∧ [⟨1, [2], true⟩] <+: accepted b' := by
  have hlog : (World.run 8 4 twoReplays).log =
      [.replaced 0, .replayed 0, .accepted ⟨1, [2], true⟩, .completed 0, .accepted ⟨2, [3], true⟩, .written ⟨1, [2], true⟩,
        .replaced 3, .completed 1, .replayed 3, .completed 3] := by
    decide +kernel
  have h := write_pump 8 4 twoReplays
  obtain ⟨hone, -, -, -, -, -, -, hbetween, -⟩ := h
  refine ⟨hlog, hone, hbetween [.replaced 0]
    [.accepted ⟨1, [2], true⟩, .completed 0, .accepted ⟨2, [3], true⟩, .written ⟨1, [2], true⟩, .replaced 3, .completed 1]
    [.completed 3] 0 3 hlog ?_⟩
  simp [Replayed]

end Holdfast.Web.WritePump

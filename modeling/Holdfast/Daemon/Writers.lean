/-
  Holdfast.Daemon.Writers — the writers of a WebTransport session, one bounded queue for
  each of its streams (`WtChannelQueue`, `run_channel_writer` and `spawn_writer_router` of
  `crates/daemon/src/webtransport.rs`).

  The router is the only one that pushes, in its own task; each stream's writer takes from
  its queue in another. A push over a cap throws away what is queued for one frame that
  says so, and closes the queue; the end of the router closes every queue with its frames
  kept. A writer with nothing to take waits on `notify`, which remembers one permit.

  `push` and `close` return nothing: what is recorded for them (`Outcome`) is what became of
  the call.

  Proved:
  - `history_step`: what one call does to the accounts and to what the writer has been given.
  - `channel_queue_orderly`: over every run of calls, for every pair of caps that has room
    for the overload frame; and over every run of the router, each queue is what its own
    calls make of it.
-/

import Holdfast.Base.Machine
import Holdfast.Base.Table
import Holdfast.Daemon.Channel
import Holdfast.Protocol.Framing
import Holdfast.Protocol.Negotiate

namespace Holdfast.Daemon.Writers

open Holdfast.Base Holdfast.Protocol

/-! ## The queue -/

structure WtChannelQueueState where
  frames : List (List UInt8)
  bytes : Nat
  closing : Bool
  deriving DecidableEq, Repr

/-- `notified` is the permit a `notify_one` leaves, `waiting` that the writer awaits it. -/
structure WtChannelQueue where
  state : WtChannelQueueState
  notified : Bool
  waiting : Bool
  messageCap : Nat
  byteCap : Nat
  overloadFrame : List UInt8
  deriving DecidableEq, Repr

inductive QueueCall where
  | push (frame : List UInt8)
  | close
  | next
  deriving DecidableEq, Repr

inductive Outcome where
  | accepted
  /-- The queue is closing: the frame is dropped. -/
  | refused
  | overflowed
  | closed
  | pending
  | returned (frame : List UInt8)
  /-- `next` returned `None`. -/
  | ended
  deriving DecidableEq, Repr

namespace WtChannelQueue

def withLimits (overloadFrame : List UInt8) (messageCap byteCap : Nat) : WtChannelQueue :=
  ⟨⟨[], 0, false⟩, false, false, messageCap, byteCap, overloadFrame⟩

def new (overloadFrame : List UInt8) : WtChannelQueue := withLimits overloadFrame channelQueueMessages channelQueueBytes

def overflows (q : WtChannelQueue) (frame : List UInt8) : Prop :=
  q.state.frames.length ≥ q.messageCap ∨ frame.length > q.byteCap - q.state.bytes

instance (q : WtChannelQueue) (frame : List UInt8) : Decidable (q.overflows frame) :=
  inferInstanceAs (Decidable (_ ∨ _))

def push (q : WtChannelQueue) (frame : List UInt8) : WtChannelQueue × Outcome :=
  if q.state.closing then (q, .refused)
  else if q.overflows frame then
    -- obsolete redraws are disposable: say so, then end the stream
    ({ q with state := ⟨[q.overloadFrame], q.overloadFrame.length, true⟩, notified := true }, .overflowed)
  else
    ({ q with state := ⟨q.state.frames ++ [frame], q.state.bytes + frame.length, false⟩, notified := true }, .accepted)

def close (q : WtChannelQueue) : WtChannelQueue × Outcome :=
  ({ q with state := { q.state with closing := true }, notified := true }, .closed)

/-- The permit a writer waited for is used up. -/
def wake (q : WtChannelQueue) : WtChannelQueue :=
  if q.waiting then { q with waiting := false, notified := false } else q

/-- `next`, to where it returns or awaits. -/
def next (q : WtChannelQueue) : WtChannelQueue × Outcome :=
  if q.waiting && !q.notified then (q, .pending)
  else match q.wake.state.frames with
    | frame :: frames =>
      ({ q.wake with state := { q.wake.state with frames, bytes := q.wake.state.bytes - frame.length } }, .returned frame)
    | [] => if q.wake.state.closing then (q.wake, .ended) else ({ q.wake with waiting := true }, .pending)

def call (q : WtChannelQueue) : QueueCall → WtChannelQueue × Outcome
  | .push frame => q.push frame
  | .close => q.close
  | .next => q.next

@[simp] theorem wake_state (q : WtChannelQueue) : q.wake.state = q.state := by
  unfold wake
  split <;> rfl

@[simp] theorem wake_waiting (q : WtChannelQueue) : q.wake.waiting = false := by
  unfold wake
  split
  · rfl
  · rename_i h
    simpa using h

@[simp] theorem wake_messageCap (q : WtChannelQueue) : q.wake.messageCap = q.messageCap := by
  unfold wake
  split <;> rfl

@[simp] theorem wake_byteCap (q : WtChannelQueue) : q.wake.byteCap = q.byteCap := by
  unfold wake
  split <;> rfl

@[simp] theorem wake_overloadFrame (q : WtChannelQueue) : q.wake.overloadFrame = q.overloadFrame := by
  unfold wake
  split <;> rfl

end WtChannelQueue

def calls : Machine WtChannelQueue QueueCall Outcome where
  step := WtChannelQueue.call

/-! ## What a call does -/

/-- Everything a call can do, with what it is told. -/
inductive Called (q : WtChannelQueue) : QueueCall → WtChannelQueue → Outcome → Prop
  | refused {frame : List UInt8} (h : q.state.closing = true) : Called q (.push frame) q .refused
  | overflowed {frame : List UInt8} (h : q.state.closing = false) (hover : q.overflows frame) :
      Called q (.push frame) { q with state := ⟨[q.overloadFrame], q.overloadFrame.length, true⟩, notified := true } .overflowed
  | accepted {frame : List UInt8} (h : q.state.closing = false) (hover : ¬ q.overflows frame) :
      Called q (.push frame)
        { q with state := ⟨q.state.frames ++ [frame], q.state.bytes + frame.length, false⟩, notified := true } .accepted
  | closed : Called q .close { q with state := { q.state with closing := true }, notified := true } .closed
  | waits (h : q.waiting = true) (hn : q.notified = false) : Called q .next q .pending
  | idle (h : q.state.frames = []) (hc : q.state.closing = false) : Called q .next { q.wake with waiting := true } .pending
  | ended (h : q.state.frames = []) (hc : q.state.closing = true) (hw : q.waiting = true → q.notified = true) :
      Called q .next q.wake .ended
  | returned {frame : List UInt8} {frames : List (List UInt8)} (h : q.state.frames = frame :: frames) :
      Called q .next { q.wake with state := { q.wake.state with frames, bytes := q.wake.state.bytes - frame.length } }
        (.returned frame)

theorem called (q : WtChannelQueue) (c : QueueCall) : Called q c (calls.next q c) (calls.out q c) := by
  cases c with
  | push frame =>
    show Called q _ (q.push frame).1 (q.push frame).2
    unfold WtChannelQueue.push
    split
    · rename_i h; exact .refused h
    · rename_i h
      split
      · rename_i ho; exact .overflowed (by simpa using h) ho
      · rename_i ho; exact .accepted (by simpa using h) ho
  | close => exact .closed
  | next =>
    show Called q _ q.next.1 q.next.2
    unfold WtChannelQueue.next
    split
    · rename_i h
      simp only [Bool.and_eq_true, Bool.not_eq_true'] at h
      exact .waits h.1 h.2
    · rename_i hw
      split
      · rename_i frame frames h
        rw [WtChannelQueue.wake_state] at h
        exact .returned h
      · rename_i h
        rw [WtChannelQueue.wake_state] at h
        split
        · rename_i hc
          rw [WtChannelQueue.wake_state] at hc
          exact .ended h hc (by simpa using hw)
        · rename_i hc
          rw [WtChannelQueue.wake_state] at hc
          exact .idle h (by simpa using hc)

/-! ## The accounts -/

def queuedBytes (frames : List (List UInt8)) : Nat := (frames.map List.length).sum

@[simp] theorem queuedBytes_nil : queuedBytes [] = 0 := rfl
@[simp] theorem queuedBytes_cons (f : List UInt8) (fs : List (List UInt8)) :
    queuedBytes (f :: fs) = f.length + queuedBytes fs := rfl

@[simp] theorem queuedBytes_snoc (fs : List (List UInt8)) (f : List UInt8) :
    queuedBytes (fs ++ [f]) = queuedBytes fs + f.length := by
  simp [queuedBytes]

/-- The caps have room for the overload frame. -/
def WtChannelQueue.AdmitsOverload (q : WtChannelQueue) : Prop := 1 ≤ q.messageCap ∧ q.overloadFrame.length ≤ q.byteCap

structure WtChannelQueue.Accounted (q : WtChannelQueue) : Prop where
  bytes : q.state.bytes = queuedBytes q.state.frames
  messages_le : q.state.frames.length ≤ q.messageCap
  bytes_le : q.state.bytes ≤ q.byteCap
  /-- A writer that waits with no permit left has nothing to wake up for. -/
  wakes : q.waiting = true → q.notified = false → q.state.frames = [] ∧ q.state.closing = false

theorem accounted_withLimits (overloadFrame : List UInt8) (messageCap byteCap : Nat) :
    (WtChannelQueue.withLimits overloadFrame messageCap byteCap).Accounted :=
  ⟨rfl, Nat.zero_le _, Nat.zero_le _, fun h => by cases h⟩

theorem called_limits {q q' : WtChannelQueue} {c : QueueCall} {o : Outcome} (h : Called q c q' o) :
    q'.messageCap = q.messageCap ∧ q'.byteCap = q.byteCap ∧ q'.overloadFrame = q.overloadFrame := by
  cases h <;> simp

theorem limits_run (q : WtChannelQueue) (cs : List QueueCall) :
    (calls.run q cs).messageCap = q.messageCap ∧ (calls.run q cs).byteCap = q.byteCap ∧
    (calls.run q cs).overloadFrame = q.overloadFrame := by
  induction cs generalizing q with
  | nil => exact ⟨rfl, rfl, rfl⟩
  | cons c cs ih =>
    obtain ⟨hm, hb, ho⟩ := called_limits (called q c)
    obtain ⟨hm', hb', ho'⟩ := ih (calls.next q c)
    exact ⟨hm'.trans hm, hb'.trans hb, ho'.trans ho⟩

theorem called_accounted {q q' : WtChannelQueue} {c : QueueCall} {o : Outcome} (hroom : q.AdmitsOverload) (h : q.Accounted)
    (hc : Called q c q' o) : q'.Accounted := by
  have := h.bytes
  have hmle := h.messages_le
  have hble := h.bytes_le
  cases hc with
  | refused => exact h
  | waits => exact h
  | overflowed =>
    refine ⟨?_, hroom.1, hroom.2, fun _ hn => by cases hn⟩
    simp
  | accepted hopen hover =>
    simp only [WtChannelQueue.overflows, not_or, not_le, not_lt] at hover
    refine ⟨?_, ?_, ?_, fun _ hn => by cases hn⟩
    · simp [this]
    · simp only [List.length_append, List.length_singleton]
      omega
    · show q.state.bytes + _ ≤ q.byteCap
      omega
  | closed => exact ⟨h.bytes, h.messages_le, h.bytes_le, fun _ hn => by cases hn⟩
  | idle he hopen =>
    refine ⟨?_, ?_, ?_, fun _ _ => ⟨?_, ?_⟩⟩
    · simpa using h.bytes
    · simpa using hmle
    · simpa using hble
    · simpa using he
    · simpa using hopen
  | ended =>
    refine ⟨?_, ?_, ?_, fun hw => ?_⟩
    · simpa using h.bytes
    · simpa using hmle
    · simpa using hble
    · simp at hw
  | returned hf =>
    rw [hf, queuedBytes_cons] at this
    rw [hf, List.length_cons] at hmle
    refine ⟨?_, ?_, ?_, fun hw => ?_⟩
    · simp only [WtChannelQueue.wake_state]
      omega
    · simp only [WtChannelQueue.wake_messageCap]
      omega
    · simp only [WtChannelQueue.wake_state, WtChannelQueue.wake_byteCap]
      omega
    · simp at hw

/-- With the accounts in order, `next` waits only for a frame or the end. -/
theorem next_pending_iff {q : WtChannelQueue} (h : q.Accounted) :
    calls.out q .next = .pending ↔ q.state.frames = [] ∧ q.state.closing = false := by
  constructor
  · intro ho
    have hc := called q .next
    rw [ho] at hc
    generalize calls.next q .next = q' at hc
    cases hc with
    | waits hw hn => exact h.wakes hw hn
    | idle he hopen => exact ⟨he, hopen⟩
  · rintro ⟨he, hopen⟩
    show q.next.2 = .pending
    unfold WtChannelQueue.next
    split
    · rfl
    · simp [he, hopen]

/-! ## What a writer is given -/

abbrev QueueTrace := List (QueueCall × Outcome)

def pushed (tr : QueueTrace) : List (List UInt8) :=
  tr.filterMap fun x => match x.1 with
    | .push frame => some frame
    | _ => none

/-- What the calls of `next` came to. -/
def nexts (tr : QueueTrace) : List Outcome :=
  tr.filterMap fun x => match x.1 with
    | .next => some x.2
    | _ => none

def returned (tr : QueueTrace) : List (List UInt8) :=
  (nexts tr).filterMap fun o => match o with
    | .returned frame => some frame
    | _ => none

def Outcome.closes : Outcome → Bool
  | .overflowed | .closed => true
  | _ => false

/-- The queue has not begun to close. -/
def Flowing (tr : QueueTrace) : Prop := ∀ x ∈ tr, x.2.closes = false

/-- The calls made on a queue that began to close with `left` in it and has `queued` still:
    nothing is accepted, and the writer gets what was left, then the end and only the end. -/
structure Late (left queued : List (List UInt8)) (after : QueueTrace) : Prop where
  refused : ∀ frame o, (.push frame, o) ∈ after → o = .refused
  drained : ∃ taken n, nexts after = taken.map .returned ++ List.replicate n .ended ∧
    taken ++ queued = left ∧ (n ≠ 0 → queued = [])

/-- The course of a queue that has `queued` in it. -/
inductive Course (overloadFrame : List UInt8) (queued : List (List UInt8)) : QueueTrace → Prop
  | flowing {tr : QueueTrace} (quiet : Flowing tr) (sent : returned tr ++ queued = pushed tr) : Course overloadFrame queued tr
  | overflowed {before after : QueueTrace} {frame : List UInt8} (quiet : Flowing before)
    (sent : returned before <+: pushed before)
      (late : Late [overloadFrame] queued after) : Course overloadFrame queued (before ++ (.push frame, .overflowed) :: after)
  | closed {before after : QueueTrace} {left : List (List UInt8)} (quiet : Flowing before)
      (sent : returned before ++ left = pushed before) (late : Late left queued after) :
      Course overloadFrame queued (before ++ (.close, .closed) :: after)

section

variable {left queued : List (List UInt8)} {after tr : QueueTrace} {overloadFrame : List UInt8}

theorem flowing_snoc {x : QueueCall × Outcome} : Flowing (tr ++ [x]) ↔ Flowing tr ∧ x.2.closes = false := by
  simp [Flowing, or_imp, forall_and]

theorem not_flowing {before : QueueTrace} {x : QueueCall × Outcome} (h : x.2.closes = true) :
    ¬ Flowing (before ++ x :: after) := by
  intro hq
  rw [hq x (by simp)] at h
  cases h

theorem late_nil (left : List (List UInt8)) : Late left left [] :=
  ⟨by simp, [], 0, rfl, rfl, fun h => absurd rfl h⟩

theorem late_push (h : Late left queued after) {x : QueueCall × Outcome} (hx : ∀ frame, x.1 = .push frame → x.2 = .refused) :
    ∀ frame o, (.push frame, o) ∈ after ++ [x] → o = .refused := by
  intro frame o ho
  rcases List.mem_append.mp ho with ho | ho
  · exact h.refused frame o ho
  · obtain rfl := List.mem_singleton.mp ho
    exact hx frame rfl

/-- Anything but a `next`. -/
theorem late_other (h : Late left queued after) {x : QueueCall × Outcome} (hx : ∀ frame, x.1 = .push frame → x.2 = .refused)
    (hn : x.1 ≠ .next) : Late left queued (after ++ [x]) := by
  refine ⟨late_push h hx, ?_⟩
  have : nexts (after ++ [x]) = nexts after := by
    obtain ⟨c, o⟩ := x
    cases c with
    | push frame => simp [nexts]
    | close => simp [nexts]
    | next => exact absurd rfl hn
  rw [this]
  exact h.drained

theorem late_returned {frame : List UInt8} (h : Late left (frame :: queued) after) :
    Late left queued (after ++ [(.next, .returned frame)]) := by
  obtain ⟨taken, n, hn, ht, he⟩ := h.drained
  have h0 : n = 0 := by
    by_contra hne
    cases he hne
  subst h0
  refine ⟨late_push h (by simp), taken ++ [frame], 0, ?_, by simp [← ht], fun h => absurd rfl h⟩
  simp only [List.replicate_zero, List.append_nil] at hn
  simp only [nexts, List.filterMap_append] at hn ⊢
  simp [hn]

theorem late_ended (h : Late left [] after) : Late left [] (after ++ [(.next, .ended)]) := by
  obtain ⟨taken, n, hn, ht, -⟩ := h.drained
  refine ⟨late_push h (by simp), taken, n + 1, ?_, ht, fun _ => rfl⟩
  simp only [nexts, List.filterMap_append] at hn ⊢
  simp [hn, List.replicate_succ']

theorem course_sent (h : Course overloadFrame queued tr) (hq : Flowing tr) : returned tr ++ queued = pushed tr := by
  cases h with
  | flowing _ sent => exact sent
  | overflowed => exact absurd hq (not_flowing rfl)
  | closed => exact absurd hq (not_flowing rfl)

theorem pushed_append (tr tr' : QueueTrace) : pushed (tr ++ tr') = pushed tr ++ pushed tr' := List.filterMap_append ..

theorem returned_append (tr tr' : QueueTrace) : returned (tr ++ tr') = returned tr ++ returned tr' := by
  simp [returned, nexts]

theorem late_taken (h : Late left queued after) : returned after ++ queued = left := by
  obtain ⟨taken, n, hn, ht, -⟩ := h.drained
  have : returned after = taken := by
    rw [returned, hn, List.filterMap_append, List.filterMap_map]
    simp
  rw [this, ht]

/-- The frames a writer got: the first of those pushed, and the overload frame behind them
    only after an overflow. -/
theorem course_returned (h : Course overloadFrame queued tr) :
    ∃ sent, sent <+: pushed tr ∧
      (returned tr = sent ∨ returned tr = sent ++ [overloadFrame] ∧ ∃ frame, (.push frame, .overflowed) ∈ tr) := by
  cases h with
  | flowing _ sent => exact ⟨returned tr, ⟨queued, sent⟩, .inl rfl⟩
  | @overflowed before after frame _ sent late =>
    refine ⟨returned before, ?_, ?_⟩
    · rw [pushed_append]
      exact sent.trans (List.prefix_append ..)
    · have ht := late_taken late
      have he : returned (before ++ (.push frame, .overflowed) :: after) = returned before ++ returned after := by
        rw [returned_append]
        rfl
      rw [he]
      rcases List.append_eq_singleton_iff.mp ht with ⟨hr, -⟩ | ⟨hr, -⟩
      · left
        rw [hr, List.append_nil]
      · right
        exact ⟨by rw [hr], frame, by simp⟩
  | @closed before after left _ sent late =>
    refine ⟨returned (before ++ (.close, .closed) :: after), ?_, .inl rfl⟩
    have he : returned (before ++ (.close, .closed) :: after) = returned before ++ returned after := by
      rw [returned_append]
      rfl
    rw [he, pushed_append]
    refine List.IsPrefix.trans ⟨queued, ?_⟩ (List.prefix_append ..)
    rw [List.append_assoc, late_taken late, sent]

/-- A queue that is closing goes on as its last calls do. -/
theorem course_late {queued' : List (List UInt8)} {x : QueueCall × Outcome} (h : Course overloadFrame queued tr)
    (hq : ¬ Flowing tr) (hl : ∀ left after, Late left queued after → Late left queued' (after ++ [x])) :
    Course overloadFrame queued' (tr ++ [x]) := by
  cases h with
  | flowing quiet => exact absurd quiet hq
  | overflowed quiet sent late =>
    rw [List.append_assoc, List.cons_append]
    exact .overflowed quiet sent (hl _ _ late)
  | closed quiet sent late =>
    rw [List.append_assoc, List.cons_append]
    exact .closed quiet sent (hl _ _ late)

end

/-! ## Every run of calls -/

/-- The queue and the calls that were made on it. -/
structure History (tr : QueueTrace) (q : WtChannelQueue) : Prop where
  room : q.AdmitsOverload
  accounted : q.Accounted
  closing : q.state.closing = false ↔ Flowing tr
  course : Course q.overloadFrame q.state.frames tr

theorem history_step {tr : QueueTrace} {q q' : WtChannelQueue} {c : QueueCall} {o : Outcome} (h : History tr q)
    (hc : Called q c q' o) :
    History (tr ++ [(c, o)]) q' := by
  obtain ⟨hm, hb, ho⟩ := called_limits hc
  refine ⟨by rw [WtChannelQueue.AdmitsOverload, hm, hb, ho]; exact h.room, called_accounted h.room h.accounted hc, ?_, ?_⟩
  · rw [flowing_snoc, ← h.closing]
    cases hc <;> simp_all [Outcome.closes]
  · rw [ho]
    have hopen (hf : q.state.closing = false) := course_sent h.course (h.closing.mp hf)
    have hshut (hf : q.state.closing = true) : ¬ Flowing tr := by
      rw [← h.closing, hf]
      exact Bool.noConfusion
    cases hc with
    | refused hf => exact course_late h.course (hshut hf) fun _ _ hl => late_other hl (fun _ _ => rfl) (by simp)
    | overflowed hf => exact .overflowed (h.closing.mp hf) ⟨_, hopen hf⟩ (late_nil _)
    | accepted hf =>
      refine .flowing (flowing_snoc.mpr ⟨h.closing.mp hf, rfl⟩) ?_
      rw [returned_append, pushed_append, ← hopen hf]
      simp [returned, nexts, pushed]
    | closed =>
      cases hf : q.state.closing with
      | false => exact .closed (h.closing.mp hf) (hopen hf) (late_nil _)
      | true => exact course_late h.course (hshut hf) fun _ _ hl => late_other hl (by simp) (by simp)
    | waits hw hn =>
      have hf := (h.accounted.wakes hw hn).2
      refine .flowing (flowing_snoc.mpr ⟨h.closing.mp hf, rfl⟩) ?_
      rw [returned_append, pushed_append, ← hopen hf]
      simp [returned, nexts, pushed]
    | idle he hf =>
      refine .flowing (flowing_snoc.mpr ⟨h.closing.mp hf, rfl⟩) ?_
      rw [returned_append, pushed_append, ← hopen hf]
      simp [returned, nexts, pushed]
    | ended he hf =>
      have hcourse := h.course
      rw [WtChannelQueue.wake_state, he] at *
      exact course_late hcourse (hshut hf) fun _ _ hl => late_ended hl
    | @returned frame frames he =>
      have hcourse := h.course
      rw [he] at hcourse
      cases hf : q.state.closing with
      | false =>
        refine .flowing (flowing_snoc.mpr ⟨h.closing.mp hf, rfl⟩) ?_
        rw [returned_append, pushed_append, ← hopen hf, he]
        simp [returned, nexts, pushed]
      | true => exact course_late hcourse (hshut hf) fun _ _ hl => late_returned hl

theorem history_run {overloadFrame : List UInt8} {messageCap byteCap : Nat} (hm : 1 ≤ messageCap)
    (hb : overloadFrame.length ≤ byteCap)
    (cs : List QueueCall) :
    History (calls.trace (.withLimits overloadFrame messageCap byteCap) cs)
      (calls.run (.withLimits overloadFrame messageCap byteCap) cs) := by
  refine calls.trace_induction ?_ (fun _ q c h _ => history_step h (called q c)) (calls.admissible_true _ cs)
  refine ⟨⟨hm, hb⟩, accounted_withLimits _ _ _, ?_, .flowing ?_ rfl⟩
  · simp [WtChannelQueue.withLimits, Flowing]
  · simp [Flowing]

/-- A queue that is closing takes nothing more in: a writer gets what was left in it. -/
theorem shut_run {q : WtChannelQueue} (h : q.state.closing = true) (cs : List QueueCall) :
    (∀ frame o, (.push frame, o) ∈ calls.trace q cs → o = .refused) ∧
      returned (calls.trace q cs) ++ (calls.run q cs).state.frames = q.state.frames := by
  induction cs generalizing q with
  | nil => exact ⟨by simp [Machine.trace], rfl⟩
  | cons c cs ih =>
    have hc := called q c
    have hstep : (calls.next q c).state.closing = true ∧ (∀ frame, c = .push frame → calls.out q c = .refused) ∧
        returned [(c, calls.out q c)] ++ (calls.next q c).state.frames = q.state.frames := by
      generalize calls.next q c = q' at hc ⊢
      generalize calls.out q c = o at hc ⊢
      cases hc <;> simp_all [returned, nexts]
    obtain ⟨hshut, hpush, hgot⟩ := hstep
    obtain ⟨hrefused, hrest⟩ := ih hshut
    constructor
    · intro frame o ho
      rcases List.mem_cons.mp ho with ho | ho
      · cases ho
        exact hpush frame rfl
      · exact hrefused frame o ho
    · show returned ([(c, calls.out q c)] ++ calls.trace (calls.next q c) cs) ++ _ = _
      rw [returned_append, List.append_assoc]
      exact (congrArg _ hrest).trans hgot

/-! ## The router -/

/-- A queue in the router's map; `writing` says that its writer holds it too. -/
structure Lane where
  queue : WtChannelQueue
  writing : Bool
  deriving DecidableEq, Repr

def Lane.call (l : Lane) (c : QueueCall) : Lane := { l with queue := calls.next l.queue c }

/-- One turn of `run_channel_writer`; `ok` says whether the write of a frame succeeds. -/
def Lane.write (l : Lane) (ok : Bool) : Lane :=
  { queue := calls.next l.queue .next
    writing := match calls.out l.queue .next with
      | .returned _ => ok
      | .ended => false
      | _ => true }

/-- `nextChannel` is the session's, which numbers its streams. -/
structure WriterRouter where
  overloadFrame : List UInt8
  queues : Table Nat Lane
  nextChannel : Nat
  running : Bool

inductive RouterInput (E : Type) where
  | register
  | frame (channel : Nat) (envelope : E)
  | write (channel : Nat) (ok : Bool)
  /-- Every sender is gone. -/
  | finish

/-- The calls a turn makes, on which queue. -/
abbrev RouterCalls := List (Nat × QueueCall × Outcome)

namespace WriterRouter

section

variable {E D : Type} (C : Codec E D)

/-- Without an overload frame that can be sent, the task does not come up. -/
def spawn (tooSlow : E) : Except (FrameError D) WriterRouter :=
  match encodeDelimited C tooSlow Protocol.frameBytesDefault with
  | .ok overloadFrame => .ok ⟨overloadFrame, ∅, 0, true⟩
  | .error e => .error e

def register (r : WriterRouter) : WriterRouter :=
  if r.running ∧ r.nextChannel + 1 < 2 ^ 64 then
    { r with
      -- drop completed writers first: the map stays bounded by the streams in use
      queues := (r.queues.retain fun _ l => l.writing).insert r.nextChannel ⟨.new r.overloadFrame, true⟩
      nextChannel := r.nextChannel + 1 }
  else r

def frame (r : WriterRouter) (channel : Nat) (envelope : E) : WriterRouter × RouterCalls :=
  if r.running then
    match r.queues.lookup channel with
    | none => (r, [])
    | some l =>
      match encodeDelimited C envelope Protocol.frameBytesDefault with
      | .ok bytes =>
        ({ r with queues := r.queues.adjust channel (·.call (.push bytes)) },
          [(channel, .push bytes, calls.out l.queue (.push bytes))])
      | .error _ => (r, [])
  else (r, [])

def write (r : WriterRouter) (channel : Nat) (ok : Bool) : WriterRouter × RouterCalls :=
  match r.queues.lookup channel with
  | none => (r, [])
  | some l =>
    if l.writing then
      ({ r with queues := r.queues.adjust channel (·.write ok) }, [(channel, .next, calls.out l.queue .next)])
    else (r, [])

def finish (r : WriterRouter) : WriterRouter × RouterCalls :=
  if r.running then
    ({ r with queues := r.queues.mapValues fun _ l => l.call .close, running := false },
      r.queues.keys.map fun channel => (channel, .close, .closed))
  else (r, [])

def step (r : WriterRouter) : RouterInput E → WriterRouter × RouterCalls
  | .register => (r.register, [])
  | .frame channel envelope => r.frame C channel envelope
  | .write channel ok => r.write channel ok
  | .finish => r.finish

end

end WriterRouter

def router {E D : Type} (C : Codec E D) : Machine WriterRouter (RouterInput E) RouterCalls where
  step := WriterRouter.step C

def callsTo (channel : Nat) (cs : RouterCalls) : QueueTrace :=
  cs.filterMap fun x => if x.1 = channel then some x.2 else none

/-- The calls on one channel's queue. -/
def callsOn {ι : Type} (channel : Nat) (tr : List (ι × RouterCalls)) : QueueTrace := tr.flatMap fun x => callsTo channel x.2

/-- The queue is what these calls make of a new one. -/
def MadeOf (overloadFrame : List UInt8) (tr : QueueTrace) (q : WtChannelQueue) : Prop :=
  ∃ cs, calls.trace (.new overloadFrame) cs = tr ∧ calls.run (.new overloadFrame) cs = q

theorem MadeOf.call {overloadFrame : List UInt8} {tr : QueueTrace} {q : WtChannelQueue}
    (h : MadeOf overloadFrame tr q) (c : QueueCall) :
    MadeOf overloadFrame (tr ++ [(c, calls.out q c)]) (calls.next q c) := by
  obtain ⟨cs, rfl, rfl⟩ := h
  exact ⟨cs ++ [c], calls.trace_snoc _ cs c, calls.run_snoc _ cs c⟩

@[simp] theorem callsOn_snoc {ι : Type} (channel : Nat) (tr : List (ι × RouterCalls)) (i : ι) (cs : RouterCalls) :
    callsOn channel (tr ++ [(i, cs)]) = callsOn channel tr ++ callsTo channel cs := by
  simp [callsOn]

@[simp] theorem callsTo_nil (channel : Nat) : callsTo channel [] = [] := rfl

theorem callsTo_same (channel : Nat) (x : QueueCall × Outcome) : callsTo channel [(channel, x)] = [x] := by
  simp [callsTo]

theorem callsTo_ne {channel c : Nat} (h : channel ≠ c) (x : QueueCall × Outcome) : callsTo c [(channel, x)] = [] := by
  simp [callsTo, h]

/-- The map is closed with one call to each of its queues. -/
theorem callsTo_all {ks : List Nat} (h : ks.Nodup) (c : Nat) (x : QueueCall × Outcome) :
    callsTo c (ks.map fun k => (k, x)) = if c ∈ ks then [x] else [] := by
  induction ks with
  | nil => rfl
  | cons k ks ih =>
    obtain ⟨hk, hnd⟩ := List.nodup_cons.mp h
    have htail := ih hnd
    by_cases e : k = c
    · subst e
      rw [if_neg hk] at htail
      simp only [callsTo, List.map_cons, List.filterMap_cons] at htail ⊢
      simp [htail]
    · simp only [callsTo, List.map_cons, List.filterMap_cons, if_neg e] at htail ⊢
      simp [htail, Ne.symm e]

/-! ## Every run of the router -/

/-- Each queue of the map is what its own calls made of it, and a channel that is not
    registered yet has had none. -/
structure Routed {ι : Type} (overloadFrame : List UInt8) (tr : List (ι × RouterCalls)) (r : WriterRouter) : Prop where
  overload : r.overloadFrame = overloadFrame
  own : ∀ c l, r.queues.lookup c = some l → MadeOf overloadFrame (callsOn c tr) l.queue
  fresh : ∀ c, r.nextChannel ≤ c → r.queues.lookup c = none ∧ callsOn c tr = []

section

variable {E D : Type} {C : Codec E D} {overloadFrame : List UInt8} {tr : List (RouterInput E × RouterCalls)} {r : WriterRouter}

theorem routed_quiet (h : Routed overloadFrame tr r) (i : RouterInput E) : Routed overloadFrame (tr ++ [(i, [])]) r :=
  ⟨h.overload, fun c l hl => by simpa using h.own c l hl, fun c hc => by simpa using h.fresh c hc⟩

/-- One call on the queue of one channel. -/
theorem routed_call (h : Routed overloadFrame tr r) (i : RouterInput E) {channel : Nat} {l : Lane}
    (hl : r.queues.lookup channel = some l) (call : QueueCall) {f : Lane → Lane} (hf : (f l).queue = calls.next l.queue call) :
    Routed overloadFrame (tr ++ [(i, [(channel, call, calls.out l.queue call)])])
    { r with queues := r.queues.adjust channel f } := by
  refine ⟨h.overload, ?_, ?_⟩
  · intro c l' hl'
    rw [callsOn_snoc]
    obtain ⟨l₀, hl₀, rfl⟩ := Table.lookup_adjust_some.mp hl'
    by_cases e : c = channel
    · subst e
      obtain rfl : l = l₀ := Option.some.inj (hl.symm.trans hl₀)
      rw [callsTo_same, if_pos rfl, hf]
      exact (h.own c l hl).call call
    · rw [callsTo_ne (Ne.symm e), List.append_nil, if_neg e]
      exact h.own c l₀ hl₀
  · intro c hc
    obtain ⟨hnone, hno⟩ := h.fresh c hc
    have e : channel ≠ c := by
      rintro rfl
      rw [hl] at hnone
      cases hnone
    rw [callsOn_snoc, callsTo_ne e, List.append_nil]
    refine ⟨?_, hno⟩
    show (r.queues.adjust channel f).lookup c = none
    rw [Table.lookup_adjust_ne _ _ (Ne.symm e), hnone]

theorem routed_register (h : Routed overloadFrame tr r) : Routed overloadFrame (tr ++ [(.register, [])]) r.register := by
  unfold WriterRouter.register
  split
  · refine ⟨h.overload, ?_, ?_⟩
    · intro c l hl
      rw [callsOn_snoc, callsTo_nil, List.append_nil]
      rcases Table.lookup_insert_some.mp hl with ⟨rfl, rfl⟩ | ⟨-, hl⟩
      · rw [(h.fresh _ (Nat.le_refl _)).2, h.overload]
        exact ⟨[], rfl, rfl⟩
      · exact h.own c l (Table.within_retain _ _ c l hl)
    · intro c hc
      have hc' : r.nextChannel + 1 ≤ c := hc
      obtain ⟨hnone, hno⟩ := h.fresh c (by omega)
      rw [callsOn_snoc, callsTo_nil, List.append_nil]
      refine ⟨?_, hno⟩
      show AList.lookup c (AList.insert _ _ _) = none
      rw [AList.lookup_insert_ne (by omega)]
      exact (Table.within_retain _ _).lookup_none hnone
  · exact routed_quiet h _

theorem routed_finish (h : Routed overloadFrame tr r) : Routed overloadFrame (tr ++ [(.finish, r.finish.2)]) r.finish.1 := by
  unfold WriterRouter.finish
  split
  · refine ⟨h.overload, ?_, ?_⟩
    · intro c l hl
      have hl' : (r.queues.mapValues fun _ l => l.call .close).lookup c = some l := hl
      rw [Table.lookup_mapValues] at hl'
      obtain ⟨l₀, hl₀, rfl⟩ := Option.map_eq_some_iff.mp hl'
      have hmem : c ∈ r.queues.keys := AList.mem_keys.mp (AList.lookup_isSome.mp (by rw [hl₀]; rfl))
      rw [callsOn_snoc, callsTo_all r.queues.keys_nodup, if_pos hmem]
      exact (h.own c l₀ hl₀).call .close
    · intro c hc
      obtain ⟨hnone, hno⟩ := h.fresh c hc
      have hmem : c ∉ r.queues.keys := fun hm => AList.lookup_eq_none.mp hnone (AList.mem_keys.mpr hm)
      rw [callsOn_snoc, callsTo_all r.queues.keys_nodup, if_neg hmem, List.append_nil]
      refine ⟨?_, hno⟩
      show (r.queues.mapValues fun _ l => l.call .close).lookup c = none
      rw [Table.lookup_mapValues, hnone]
      rfl
  · exact routed_quiet h _

theorem routed_step (h : Routed overloadFrame tr r) (i : RouterInput E) :
    Routed overloadFrame (tr ++ [(i, (router C).out r i)]) ((router C).next r i) := by
  cases i with
  | register => exact routed_register h
  | finish => exact routed_finish h
  | frame channel envelope =>
    show Routed overloadFrame (tr ++ [(_, (r.frame C channel envelope).2)]) (r.frame C channel envelope).1
    unfold WriterRouter.frame
    split
    · split
      · exact routed_quiet h _
      · rename_i l hl
        split
        · exact routed_call h _ hl _ rfl
        · exact routed_quiet h _
    · exact routed_quiet h _
  | write channel ok =>
    show Routed overloadFrame (tr ++ [(_, (r.write channel ok).2)]) (r.write channel ok).1
    unfold WriterRouter.write
    split
    · exact routed_quiet h _
    · rename_i l hl
      split
      · exact routed_call h _ hl _ rfl
      · exact routed_quiet h _

theorem routed_run {tooSlow : E} (h : WriterRouter.spawn C tooSlow = .ok r) (is : List (RouterInput E)) :
    Routed r.overloadFrame ((router C).trace r is) ((router C).run r is) := by
  refine (router C).trace_induction (P := Routed r.overloadFrame) ?_ (fun _ _ i h _ => routed_step h i)
    ((router C).admissible_true _ is)
  unfold WriterRouter.spawn at h
  split at h
  · obtain rfl := Except.ok.inj h
    exact ⟨rfl, fun c l hl => by simp at hl, fun c _ => ⟨rfl, rfl⟩⟩
  · cases h

/-- A frame for one channel, whether it fits or not, is nothing to another. -/
theorem frame_other (r : WriterRouter) {channel c : Nat} (h : c ≠ channel) (envelope : E) :
    ((router C).next r (.frame channel envelope)).queues.lookup c = r.queues.lookup c := by
  show (r.frame C channel envelope).1.queues.lookup c = _
  unfold WriterRouter.frame
  split
  · split
    · rfl
    · split
      · exact Table.lookup_adjust_ne _ _ h
      · rfl
  · rfl

end

/-! ## The channel of messages -/

section

variable {encodedLen : Msg → Nat} {encode : Msg → List UInt8}

/-- The queue of messages of `Daemon.Channel`, with the messages encoded. -/
def view (encode : Msg → List UInt8) (q : Daemon.WtChannelQueue) : WtChannelQueueState :=
  ⟨q.frames.map encode, q.bytes, q.closing⟩

theorem push_view (hlen : ∀ m, (encode m).length = Daemon.WtChannelQueue.frameLen encodedLen m) {q : WtChannelQueue}
    {b : Daemon.WtChannelQueue} (hs : q.state = view encode b) (hm : q.messageCap = channelQueueMessages)
    (hb : q.byteCap = channelQueueBytes) (ho : q.overloadFrame = encode overloadFrame) (m : Msg) :
    (calls.next q (.push (encode m))).state = view encode (b.push encodedLen m) := by
  show (q.push (encode m)).1.state = _
  simp only [WtChannelQueue.push, WtChannelQueue.overflows, Daemon.WtChannelQueue.push, hs, hm, hb, ho,
    view, hlen, List.length_map]
  split
  · exact hs
  · split
    · simp
    · simp

theorem next_view (hlen : ∀ m, (encode m).length = Daemon.WtChannelQueue.frameLen encodedLen m) {q : WtChannelQueue} {c : Channel}
    (hq : q.Accounted) (hs : q.state = view encode c.queue) (hf : c.finished = false) :
    (calls.next q .next).state = view encode (c.write encodedLen).queue := by
  have hc := called q .next
  generalize calls.next q .next = q' at hc ⊢
  generalize calls.out q .next = o at hc ⊢
  rw [Channel.write, if_neg (by simp [hf])]
  cases hc with
  | waits hw hn =>
    obtain ⟨he, hopen⟩ := hq.wakes hw hn
    rw [hs] at he hopen
    rw [List.map_eq_nil_iff.mp he]
    simp only [show c.queue.closing = false from hopen]
    exact hs
  | idle he hopen =>
    rw [hs] at he hopen
    rw [List.map_eq_nil_iff.mp he]
    simp only [show c.queue.closing = false from hopen, WtChannelQueue.wake_state]
    exact hs
  | ended he hshut =>
    rw [hs] at he hshut
    rw [List.map_eq_nil_iff.mp he]
    simp only [show c.queue.closing = true from hshut, WtChannelQueue.wake_state]
    exact hs
  | returned he =>
    rw [hs] at he
    obtain ⟨m, ms, hms, rfl, rfl⟩ := List.map_eq_cons_iff.mp he
    simp only [hms, WtChannelQueue.wake_state, hs, view, hlen]

end

/-- Over every run of calls on a queue whose caps have room for the overload frame, and over
    every run of the router. -/
theorem channel_queue_orderly {E D : Type} (C : Codec E D) :
    (∀ (overloadFrame : List UInt8) (messageCap byteCap : Nat), 1 ≤ messageCap → overloadFrame.length ≤ byteCap →
      ∀ cs : List QueueCall,
        let q := calls.run (.withLimits overloadFrame messageCap byteCap) cs
        let tr := calls.trace (.withLimits overloadFrame messageCap byteCap) cs
        (q.state.bytes = queuedBytes q.state.frames ∧ q.state.frames.length ≤ messageCap ∧ q.state.bytes ≤ byteCap) ∧
        Course overloadFrame q.state.frames tr ∧
        (∃ sent, sent <+: pushed tr ∧
          (returned tr = sent ∨ returned tr = sent ++ [overloadFrame] ∧ ∃ frame, (.push frame, .overflowed) ∈ tr)) ∧
        (q.state.closing = true → ∀ cs', (∀ frame o, (.push frame, o) ∈ calls.trace q cs' → o = .refused) ∧
          returned (calls.trace q cs') ++ (calls.run q cs').state.frames = q.state.frames) ∧
        (calls.out q .next = .pending ↔ q.state.frames = [] ∧ q.state.closing = false)) ∧
    (∀ (tooSlow : E) (r : WriterRouter), WriterRouter.spawn C tooSlow = .ok r → ∀ is : List (RouterInput E),
      (∀ c l, ((router C).run r is).queues.lookup c = some l →
        MadeOf r.overloadFrame (callsOn c ((router C).trace r is)) l.queue) ∧
      ∀ channel envelope c, c ≠ channel →
        ((router C).run r (is ++ [.frame channel envelope])).queues.lookup c = ((router C).run r is).queues.lookup c) := by
  refine ⟨?_, ?_⟩
  · intro overloadFrame messageCap byteCap hm hb cs
    have h := history_run hm hb cs
    have hlimits := limits_run (.withLimits overloadFrame messageCap byteCap) cs
    have hcourse := h.course
    rw [hlimits.2.2] at hcourse
    have hmessages := h.accounted.messages_le
    rw [hlimits.1] at hmessages
    have hbytes := h.accounted.bytes_le
    rw [hlimits.2.1] at hbytes
    exact ⟨⟨h.accounted.bytes, hmessages, hbytes⟩, hcourse, course_returned hcourse, fun hshut cs' => shut_run hshut cs',
      next_pending_iff h.accounted⟩
  · intro tooSlow r hr is
    refine ⟨(routed_run hr is).own, ?_⟩
    intro channel envelope c hne
    rw [(router C).run_snoc]
    exact frame_other _ hne envelope

/-- A third frame where two fit, and a frame behind it. -/
def overflowing : List QueueCall := [.push [1, 1], .push [2, 2], .push [3], .next, .push [4], .next]

theorem channel_queue_orderly_overflow :
    (calls.trace (.withLimits [9] 2 4) overflowing).map (·.2) =
        [.accepted, .accepted, .overflowed, .returned [9], .refused, .ended] ∧
      Course [9] (calls.run (.withLimits [9] 2 4) overflowing).state.frames (calls.trace (.withLimits [9] 2 4) overflowing) ∧
      ∀ c l, ((router Codec.requestIds).run ⟨[0, 0, 0, 2, 8, 5], ∅, 0, true⟩ [.register, .frame 0 3]).queues.lookup c = some l →
        MadeOf [0, 0, 0, 2, 8, 5]
          (callsOn c ((router Codec.requestIds).trace ⟨[0, 0, 0, 2, 8, 5], ∅, 0, true⟩ [.register, .frame 0 3])) l.queue :=
  ⟨by decide, ((channel_queue_orderly Codec.requestIds).1 [9] 2 4 (by decide) (by decide) overflowing).2.1,
    ((channel_queue_orderly Codec.requestIds).2 5 ⟨[0, 0, 0, 2, 8, 5], ∅, 0, true⟩ rfl [.register, .frame 0 3]).1⟩

end Holdfast.Daemon.Writers

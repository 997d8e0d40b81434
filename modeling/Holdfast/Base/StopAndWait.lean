/-
  Holdfast.Base.StopAndWait — one direction of a byte stream that is sent message by
  message, each of them acknowledged before the next.

  The sender reads a piece of its source or the end of it, sends it, and reads again once
  the acknowledgement is in. The receiver writes the piece out, as many bytes at a time as
  its sink takes, and then acknowledges. `Lane` is what both sides and the two queues
  between them hold of the direction; `LaneStep` is every move there is.

  - `Tidy`: the lane is in one of the phases of one message.
  - `tidy_step`: every move keeps that.
  - `Tidy.prefixed`, `Tidy.shut_all`, `Tidy.one_outstanding`: what it says about the bytes
    and the messages.
  - `Tidy.quiet`: with no move left but a read, everything read has been written.
-/

import Mathlib.Data.List.Basic
import Mathlib.Logic.Relation
import Mathlib.Tactic

namespace Holdfast.Base

/-- What the receiver does with the message it has, if it has one. -/
inductive Hand (α : Type*) where
  | free
  | queued (x : Option (List α))
  | writing (rest : List α)
  | shutting
  | acking (eof : Bool)
  /-- The end was acknowledged. -/
  | closed
  deriving DecidableEq, Repr

/-- A message is a piece of the source, or its end. -/
structure Lane (α : Type*) where
  /-- Read, and not sent yet. -/
  held : Option (Option (List α))
  /-- The sender waits for an acknowledgement. -/
  waiting : Bool
  /-- The end of the source was read. -/
  ended : Bool
  /-- Messages on their way. -/
  flight : List (Option (List α))
  hand : Hand α
  /-- Acknowledgements on their way. -/
  acks : Nat
  /-- One has arrived and was not looked at yet. -/
  noted : Bool
  given : List α
  written : List α
  /-- The end was passed on to the sink. -/
  shut : Bool
  /-- Messages ever sent, and acknowledgements that arrived. -/
  sent : Nat
  acked : Nat
  deriving DecidableEq, Repr

variable {α : Type*}

/-- The bytes of a message. -/
def Lane.bytes (x : Option (List α)) : List α := x.getD []

inductive LaneStep : Lane α → Lane α → Prop
  | read (l : Lane α) (x : Option (List α)) : l.held = none → l.waiting = false → l.ended = false →
      LaneStep l { l with held := some x, ended := x.isNone, given := l.given ++ Lane.bytes x }
  | send (l : Lane α) (x : Option (List α)) : l.held = some x →
      LaneStep l { l with held := none, waiting := true, flight := l.flight ++ [x], sent := l.sent + 1 }
  | deliver (l : Lane α) (x : Option (List α)) (rest : List (Option (List α))) : l.flight = x :: rest →
      LaneStep l { l with flight := rest, hand := .queued x }
  | take (l : Lane α) (x : Option (List α)) : l.hand = .queued x →
      LaneStep l { l with hand := x.elim .shutting .writing }
  | write (l : Lane α) (rest : List α) (n : Nat) : l.hand = .writing rest → rest.drop n ≠ [] →
      LaneStep l { l with hand := .writing (rest.drop n), written := l.written ++ rest.take n }
  | written (l : Lane α) (rest : List α) : l.hand = .writing rest →
      LaneStep l { l with hand := .acking false, written := l.written ++ rest }
  | shut (l : Lane α) : l.hand = .shutting → LaneStep l { l with hand := .acking true, shut := true }
  | ack (l : Lane α) (eof : Bool) : l.hand = .acking eof →
      LaneStep l { l with hand := if eof then .closed else .free, acks := l.acks + 1 }
  | note (l : Lane α) (n : Nat) : l.acks = n + 1 →
      LaneStep l { l with acks := n, noted := true, acked := l.acked + 1 }
  | settle (l : Lane α) : l.noted = true → LaneStep l { l with noted := false, waiting := false }

namespace Lane

/-! ## The phases of one message -/

inductive Phase (α : Type*) where
  | idle
  | held (x : Option (List α))
  | sent (x : Option (List α))
  | queued (x : Option (List α))
  | writing (rest : List α)
  | shutting
  | acking (eof : Bool)
  | acked (eof : Bool)
  | noted (eof : Bool)
  | done

/-- The lane in a phase, with `d` written and `n` messages acknowledged. -/
def render (d : List α) (n : Nat) : Phase α → Lane α
  | .idle => ⟨none, false, false, [], .free, 0, false, d, d, false, n, n⟩
  | .held x => ⟨some x, false, x.isNone, [], .free, 0, false, d ++ bytes x, d, false, n, n⟩
  | .sent x => ⟨none, true, x.isNone, [x], .free, 0, false, d ++ bytes x, d, false, n + 1, n⟩
  | .queued x => ⟨none, true, x.isNone, [], .queued x, 0, false, d ++ bytes x, d, false, n + 1, n⟩
  | .writing rest => ⟨none, true, false, [], .writing rest, 0, false, d ++ rest, d, false, n + 1, n⟩
  | .shutting => ⟨none, true, true, [], .shutting, 0, false, d, d, false, n + 1, n⟩
  | .acking eof => ⟨none, true, eof, [], .acking eof, 0, false, d, d, eof, n + 1, n⟩
  | .acked eof => ⟨none, true, eof, [], if eof then .closed else .free, 1, false, d, d, eof, n + 1, n⟩
  | .noted eof => ⟨none, true, eof, [], if eof then .closed else .free, 0, true, d, d, eof, n + 1, n + 1⟩
  | .done => ⟨none, false, true, [], .closed, 0, false, d, d, true, n, n⟩

def Tidy (l : Lane α) : Prop := ∃ p d n, l = render d n p

def start : Lane α := render [] 0 .idle

theorem tidy_start : Tidy (start : Lane α) := ⟨.idle, [], 0, rfl⟩

theorem tidy_step {l l' : Lane α} (h : Tidy l) (hs : LaneStep l l') : Tidy l' := by
  obtain ⟨p, d, n, rfl⟩ := h
  cases hs with
  | read x hheld hwait hend =>
    cases p with
    | idle => exact ⟨.held x, d, n, rfl⟩
    | _ => simp [render] at hheld hwait hend
  | send x hheld =>
    cases p with
    | held y =>
      cases hheld
      exact ⟨.sent x, d, n, rfl⟩
    | _ => simp [render] at hheld
  | deliver x rest hflight =>
    cases p with
    | sent y =>
      cases hflight
      exact ⟨.queued x, d, n, rfl⟩
    | _ => simp [render] at hflight
  | take x hhand =>
    cases p with
    | queued y =>
      cases hhand
      cases x with
      | none => exact ⟨.shutting, d, n, by simp [render, bytes]⟩
      | some data => exact ⟨.writing data, d, n, rfl⟩
    | acked eof => cases eof <;> cases hhand
    | noted eof => cases eof <;> cases hhand
    | _ => cases hhand
  | write rest k hhand hleft =>
    cases p with
    | writing r =>
      cases hhand
      exact ⟨.writing (rest.drop k), d ++ rest.take k, n, by simp [render]⟩
    | acked eof => cases eof <;> cases hhand
    | noted eof => cases eof <;> cases hhand
    | _ => cases hhand
  | written rest hhand =>
    cases p with
    | writing r =>
      cases hhand
      exact ⟨.acking false, d ++ rest, n, rfl⟩
    | acked eof => cases eof <;> cases hhand
    | noted eof => cases eof <;> cases hhand
    | _ => cases hhand
  | shut hhand =>
    cases p with
    | shutting => exact ⟨.acking true, d, n, rfl⟩
    | acked eof => cases eof <;> cases hhand
    | noted eof => cases eof <;> cases hhand
    | _ => cases hhand
  | ack eof hhand =>
    cases p with
    | acking e =>
      cases hhand
      exact ⟨.acked eof, d, n, rfl⟩
    | acked e => cases e <;> cases hhand
    | noted e => cases e <;> cases hhand
    | _ => cases hhand
  | note k hacks =>
    cases p with
    | acked eof =>
      cases hacks
      exact ⟨.noted eof, d, n, rfl⟩
    | _ => cases hacks
  | settle hnoted =>
    cases p with
    | noted eof =>
      cases eof with
      | false => exact ⟨.idle, d, n + 1, rfl⟩
      | true => exact ⟨.done, d, n + 1, rfl⟩
    | _ => cases hnoted

/-! ## What a lane in a phase looks like -/

/-- Between two messages: the receiver waits for the next, or is done. -/
def rest (l : Lane α) : Hand α := if l.ended then .closed else .free

variable {l : Lane α}

theorem Tidy.of_held (h : Tidy l) {x : Option (List α)} (hx : l.held = some x) :
    l.waiting = false ∧ l.flight = [] ∧ l.hand = .free ∧ l.acks = 0 ∧ l.noted = false ∧ l.ended = x.isNone := by
  obtain ⟨p, d, n, rfl⟩ := h
  cases p with
  | held y =>
    cases hx
    exact ⟨rfl, rfl, rfl, rfl, rfl, rfl⟩
  | _ => cases hx

theorem Tidy.of_flight (h : Tidy l) {x : Option (List α)} {more : List (Option (List α))} (hx : l.flight = x :: more) :
    more = [] ∧ l.hand = .free ∧ l.waiting = true ∧ l.held = none ∧ l.acks = 0 ∧ l.noted = false ∧
      l.ended = x.isNone := by
  obtain ⟨p, d, n, rfl⟩ := h
  cases p with
  | sent y =>
    cases hx
    exact ⟨rfl, rfl, rfl, rfl, rfl, rfl, rfl⟩
  | _ => cases hx

/-- Whether the message the receiver has is the end. -/
theorem Tidy.hand_ended (h : Tidy l) :
    (∀ x, l.hand = .queued x → l.ended = x.isNone) ∧ (∀ r, l.hand = .writing r → l.ended = false) ∧
      (l.hand = .shutting → l.ended = true) ∧ (∀ eof, l.hand = .acking eof → l.ended = eof) ∧
      (l.hand = .closed → l.ended = true) := by
  obtain ⟨p, d, n, rfl⟩ := h
  cases p with
  | acked eof => cases eof <;> simp [render]
  | noted eof => cases eof <;> simp [render]
  | _ => simp [render]

/-- The receiver is done with the direction. -/
theorem Tidy.of_closed (h : Tidy l) (hc : l.hand = .closed) : l.held = none ∧ l.flight = [] := by
  obtain ⟨p, d, n, rfl⟩ := h
  cases p with
  | acked eof => exact ⟨rfl, rfl⟩
  | noted eof => exact ⟨rfl, rfl⟩
  | done => exact ⟨rfl, rfl⟩
  | _ => cases hc

theorem Tidy.of_acks (h : Tidy l) {k : Nat} (hk : l.acks = k + 1) :
    k = 0 ∧ l.flight = [] ∧ l.waiting = true ∧ l.held = none ∧ l.noted = false ∧ l.hand = l.rest := by
  obtain ⟨p, d, n, rfl⟩ := h
  cases p with
  | acked eof =>
    cases hk
    exact ⟨rfl, rfl, rfl, rfl, rfl, rfl⟩
  | _ => cases hk

theorem Tidy.of_idle (h : Tidy l) (hw : l.waiting = false) (hh : l.held = none) :
    l.acks = 0 ∧ l.flight = [] ∧ l.noted = false ∧ l.hand = l.rest := by
  obtain ⟨p, d, n, rfl⟩ := h
  cases p with
  | idle => exact ⟨rfl, rfl, rfl, rfl⟩
  | done => exact ⟨rfl, rfl, rfl, rfl⟩
  | held x => cases hh
  | _ => cases hw

/-! ## Bytes and messages -/

theorem Tidy.prefixed (h : Tidy l) : l.written <+: l.given := by
  obtain ⟨p, d, n, rfl⟩ := h
  cases p <;> simp [render]

/-- The end is passed on after everything before it. -/
theorem Tidy.shut_all (h : Tidy l) (hs : l.shut = true) : l.ended = true ∧ l.written = l.given := by
  obtain ⟨p, d, n, rfl⟩ := h
  cases p <;> simp_all [render]

theorem Tidy.one_outstanding (h : Tidy l) : l.sent ≤ l.acked + 1 := by
  obtain ⟨p, d, n, rfl⟩ := h
  cases p <;> simp [render]

/-- With nothing on the sender's desk, on the way or in the receiver's hands, all that was
    read is written. -/
theorem Tidy.quiet (h : Tidy l) (hh : l.held = none) (hf : l.flight = []) (hhand : l.hand = .free ∨ l.hand = .closed) :
    l.written = l.given ∧ l.shut = l.ended := by
  obtain ⟨p, d, n, rfl⟩ := h
  cases p <;> simp_all [render]

end Lane

end Holdfast.Base

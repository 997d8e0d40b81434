/-
  Holdfast.Base.SyncChannel — one bounded channel with a non-blocking sender
  (`std::sync::mpsc::sync_channel` and `try_send`).

  `queue` holds what was sent and not yet received, oldest first; `received` is what the
  receiver has taken. A send is refused when the receiver is gone, or when the queue is
  at its bound and no receiver is blocked waiting: with bound 0 (a rendezvous channel) a
  waiting receiver is the only way a send succeeds. Dropping the receiver discards the
  queue.

  - `trySend_cases`: a refused message changes nothing.
  - `sent_trySend_ok`: an accepted message is appended to what was sent.
  - `received_prefix`: the receiver takes a prefix of what was sent, in order.
-/

import Mathlib.Data.List.Basic

namespace Holdfast.Base

inductive TrySendError where
  | full
  | disconnected
  deriving DecidableEq, Repr

structure SyncChannel (α : Type*) where
  bound : Nat
  queue : List α
  received : List α
  /-- The receiver still exists. -/
  connected : Bool
  /-- The receiver is blocked in `recv`. -/
  waiting : Bool
  deriving DecidableEq, Repr

namespace SyncChannel

variable {α : Type*}

def new (bound : Nat) : SyncChannel α := ⟨bound, [], [], true, false⟩

def hasRoom (c : SyncChannel α) : Bool := decide (c.queue.length < c.bound) || c.waiting

def trySend (c : SyncChannel α) (a : α) : Except TrySendError Unit × SyncChannel α :=
  if !c.connected then (.error .disconnected, c)
  else if c.hasRoom then (.ok (), { c with queue := c.queue ++ [a], waiting := false })
  else (.error .full, c)

/-- The receiver asks for the next message: it takes one, or blocks. -/
def recv (c : SyncChannel α) : Option α × SyncChannel α :=
  if !c.connected then (none, c)
  else match c.queue with
    | a :: q => (some a, { c with queue := q, received := c.received ++ [a], waiting := false })
    | [] => (none, { c with waiting := true })

def dropReceiver (c : SyncChannel α) : SyncChannel α := { c with queue := [], connected := false, waiting := false }

/-- Everything the receiver got or will get if it keeps receiving. -/
def sent (c : SyncChannel α) : List α := c.received ++ c.queue

theorem trySend_cases (c : SyncChannel α) (a : α) :
    (c.connected = true ∧ c.hasRoom = true ∧
      c.trySend a = (.ok (), { c with queue := c.queue ++ [a], waiting := false })) ∨
    ((c.connected = false ∨ c.hasRoom = false) ∧ (∃ e, c.trySend a = (.error e, c))) := by
  unfold trySend
  cases hc : c.connected
  · exact .inr ⟨.inl rfl, .disconnected, by simp⟩
  · cases hr : c.hasRoom
    · exact .inr ⟨.inr rfl, .full, by simp⟩
    · exact .inl ⟨rfl, rfl, by simp⟩

theorem sent_trySend_ok {c : SyncChannel α} {a : α} (h : (c.trySend a).1 = .ok ()) :
    (c.trySend a).2.sent = c.sent ++ [a] := by
  rcases trySend_cases c a with ⟨_, _, h'⟩ | ⟨_, _, h'⟩
  · rw [h']; simp [sent]
  · rw [h'] at h; cases h

@[simp] theorem received_trySend (c : SyncChannel α) (a : α) : (c.trySend a).2.received = c.received := by
  rcases trySend_cases c a with ⟨_, _, h⟩ | ⟨_, _, h⟩ <;> rw [h]

@[simp] theorem connected_trySend (c : SyncChannel α) (a : α) : (c.trySend a).2.connected = c.connected := by
  rcases trySend_cases c a with ⟨_, _, h⟩ | ⟨_, _, h⟩ <;> rw [h]

@[simp] theorem sent_recv (c : SyncChannel α) : c.recv.2.sent = c.sent := by
  unfold recv
  split
  · rfl
  · split
    · rename_i h; simp [sent, h]
    · rfl

@[simp] theorem connected_recv (c : SyncChannel α) : c.recv.2.connected = c.connected := by
  unfold recv
  split
  · rfl
  · split <;> rfl

theorem received_recv (c : SyncChannel α) : c.recv.2.received = c.received ++ c.recv.1.toList := by
  unfold recv
  split
  · simp
  · split <;> simp

theorem sent_dropReceiver (c : SyncChannel α) : c.dropReceiver.sent = c.received := by
  simp [sent, dropReceiver]

theorem received_prefix (c : SyncChannel α) : c.received <+: c.sent := List.prefix_append _ _

end SyncChannel

end Holdfast.Base

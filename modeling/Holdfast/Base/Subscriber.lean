/-
  Holdfast.Base.Subscriber — one subscriber of a broadcast over a bounded channel.

  A subscriber is a channel and whether the broadcaster still offers it messages. An
  offer that its channel refuses ends the subscription: the broadcaster never waits. The
  last message is a `close`, an offer after which the subscription is over either way.

  - `follows_run`: what a subscriber was sent is always a prefix of what was offered, and
    all of it while it is subscribed and listening.
  - `frozen_run`: once the subscription is over nothing is ever added.
  - `close_sent`: when the last message gets through.
-/

import Mathlib.Data.List.Induction
import Holdfast.Base.SyncChannel

namespace Holdfast.Base

structure Subscriber (α : Type*) where
  subscribed : Bool
  chan : SyncChannel α
  deriving DecidableEq, Repr

namespace Subscriber

variable {α : Type*}

inductive Event (α : Type*) where
  | offer (a : α)
  | close (a : α)
  | unsubscribe
  | recv
  | drop
  deriving DecidableEq, Repr

def offer (s : Subscriber α) (a : α) : Subscriber α :=
  if s.subscribed then ⟨(s.chan.trySend a).1.isOk, (s.chan.trySend a).2⟩ else s

def step (s : Subscriber α) : Event α → Subscriber α
  | .offer a => s.offer a
  | .close a => ⟨false, (s.offer a).chan⟩
  | .unsubscribe => { s with subscribed := false }
  | .recv => { s with chan := s.chan.recv.2 }
  | .drop => { s with chan := s.chan.dropReceiver }

def run (s : Subscriber α) (es : List (Event α)) : Subscriber α := es.foldl step s

def Event.payload : Event α → Option α
  | .offer a | .close a => some a
  | _ => none

/-- Every message the broadcaster had, the last one included. -/
def offered (es : List (Event α)) : List α := es.filterMap Event.payload

@[simp] theorem run_snoc (s : Subscriber α) (es : List (Event α)) (e : Event α) :
    s.run (es ++ [e]) = (s.run es).step e := by simp [run]

theorem run_append (s : Subscriber α) (es es' : List (Event α)) : s.run (es ++ es') = (s.run es).run es' :=
  List.foldl_append

theorem offered_snoc (es : List (Event α)) (e : Event α) : offered (es ++ [e]) = offered es ++ e.payload.toList := by
  cases h : e.payload <;> simp [offered, h]

/-! ## What was sent follows what was offered -/

structure Follows (s : Subscriber α) (offers : List α) : Prop where
  before : s.chan.sent <+: offers
  exact : s.subscribed = true → s.chan.connected = true → s.chan.sent = offers

theorem follows_new (bound : Nat) : Follows (⟨true, .new bound⟩ : Subscriber α) [] :=
  ⟨List.prefix_rfl, fun _ _ => rfl⟩

theorem Follows.offer {s : Subscriber α} {offers : List α} (h : Follows s offers) (a : α) :
    Follows (s.offer a) (offers ++ [a]) := by
  have hlonger : s.chan.sent <+: offers ++ [a] := h.before.trans (List.prefix_append _ _)
  unfold Subscriber.offer
  split
  · rename_i hs
    rcases SyncChannel.trySend_cases s.chan a with ⟨hc, _, ht⟩ | ⟨_, e, ht⟩
    · have hsent : (s.chan.trySend a).2.sent = offers ++ [a] := by
        rw [SyncChannel.sent_trySend_ok (by rw [ht]), h.exact hs hc]
      exact ⟨hsent ▸ List.prefix_rfl, fun _ _ => hsent⟩
    · rw [ht]
      exact ⟨hlonger, fun hok => by cases hok⟩
  · rename_i hs
    exact ⟨hlonger, fun hok => absurd hok hs⟩

theorem Follows.step {s : Subscriber α} {offers : List α} (h : Follows s offers) (e : Event α) :
    Follows (s.step e) (offers ++ e.payload.toList) := by
  cases e with
  | offer a => exact h.offer a
  | close a => exact ⟨(h.offer a).before, fun hok => by cases hok⟩
  | unsubscribe =>
    simp only [Event.payload, Option.toList_none, List.append_nil]
    exact ⟨h.before, fun hok => by cases hok⟩
  | recv =>
    simp only [Event.payload, Option.toList_none, List.append_nil]
    refine ⟨?_, ?_⟩
    · show s.chan.recv.2.sent <+: offers
      rw [SyncChannel.sent_recv]; exact h.before
    · intro hs hc
      show s.chan.recv.2.sent = offers
      rw [SyncChannel.sent_recv]
      exact h.exact hs ((SyncChannel.connected_recv s.chan).symm.trans hc)
  | drop =>
    simp only [Event.payload, Option.toList_none, List.append_nil]
    refine ⟨?_, fun _ hc => by cases hc⟩
    show s.chan.dropReceiver.sent <+: offers
    rw [SyncChannel.sent_dropReceiver]
    exact s.chan.received_prefix.trans h.before

theorem follows_run {s : Subscriber α} {offers : List α} (h : Follows s offers) (es : List (Event α)) :
    Follows (s.run es) (offers ++ offered es) := by
  induction es using List.reverseRecOn with
  | nil => simpa [run, offered] using h
  | append_singleton es e ih =>
    rw [run_snoc, offered_snoc, ← List.append_assoc]
    exact ih.step e

/-! ## Once over, over -/

theorem frozen_step {s : Subscriber α} (h : s.subscribed = false) (e : Event α) :
    (s.step e).subscribed = false ∧ (s.step e).chan.sent <+: s.chan.sent := by
  cases e with
  | offer a => simp [step, offer, h]
  | close a => simp [step, offer, h]
  | unsubscribe => exact ⟨rfl, List.prefix_rfl⟩
  | recv => exact ⟨h, (SyncChannel.sent_recv s.chan).symm ▸ List.prefix_rfl⟩
  | drop =>
    refine ⟨h, ?_⟩
    show s.chan.dropReceiver.sent <+: _
    rw [SyncChannel.sent_dropReceiver]
    exact s.chan.received_prefix

theorem frozen_run {s : Subscriber α} (h : s.subscribed = false) (es : List (Event α)) :
    (s.run es).subscribed = false ∧ (s.run es).chan.sent <+: s.chan.sent := by
  induction es using List.reverseRecOn with
  | nil => exact ⟨h, List.prefix_rfl⟩
  | append_singleton es e ih =>
    rw [run_snoc]
    obtain ⟨hf, hp⟩ := frozen_step ih.1 e
    exact ⟨hf, hp.trans ih.2⟩

@[simp] theorem connected_offer (s : Subscriber α) (a : α) : (s.offer a).chan.connected = s.chan.connected := by
  unfold offer
  split <;> simp

theorem connected_step {s : Subscriber α} {e : Event α} (h : (s.step e).chan.connected = true) :
    s.chan.connected = true ∧ (s.subscribed = false → (s.step e).chan.sent = s.chan.sent) := by
  cases e with
  | offer a => exact ⟨connected_offer s a ▸ h, fun hs => by simp [step, offer, hs]⟩
  | close a => exact ⟨connected_offer s a ▸ h, fun hs => by simp [step, offer, hs]⟩
  | unsubscribe => exact ⟨h, fun _ => rfl⟩
  | recv => exact ⟨SyncChannel.connected_recv s.chan ▸ h, fun _ => SyncChannel.sent_recv s.chan⟩
  | drop => cases h

/-- While the receiver stays, what it was sent stays too. -/
theorem frozen_connected {s : Subscriber α} (h : s.subscribed = false) {es : List (Event α)}
    (hc : (s.run es).chan.connected = true) : (s.run es).chan.sent = s.chan.sent := by
  induction es using List.reverseRecOn with
  | nil => rfl
  | append_singleton es e ih =>
    rw [run_snoc] at hc ⊢
    obtain ⟨hc', hsent⟩ := connected_step hc
    rw [hsent (frozen_run h es).1, ih hc']

/-- A subscriber that still is one was never closed. -/
theorem not_closed {s : Subscriber α} {es : List (Event α)} (h : (s.run es).subscribed = true) (a : α) :
    Event.close a ∉ es := by
  intro hmem
  obtain ⟨es₁, es₂, rfl⟩ := List.append_of_mem hmem
  rw [List.append_cons, run_append, run_snoc] at h
  rw [(frozen_run (s := (s.run es₁).step (.close a)) rfl es₂).1] at h
  cases h

/-- The last message gets through just when its channel has a listener and room. -/
theorem close_sent {s : Subscriber α} (h : s.subscribed = true) (a : α) :
    (s.step (.close a)).chan.sent =
      if s.chan.connected && s.chan.hasRoom then s.chan.sent ++ [a] else s.chan.sent := by
  simp only [step, offer, h, if_true]
  rcases SyncChannel.trySend_cases s.chan a with ⟨hc, hr, ht⟩ | ⟨hno, e, ht⟩
  · rw [SyncChannel.sent_trySend_ok (by rw [ht]), hc, hr]; rfl
  · rw [ht]
    rcases hno with hno | hno <;> simp [hno]

end Subscriber

end Holdfast.Base

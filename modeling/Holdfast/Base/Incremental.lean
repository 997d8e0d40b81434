/-
  Holdfast.Base.Incremental — decoders that take their input in pieces.

  A decoder looks at what is buffered and takes one value off the front, asks for more, or
  fails. It is incremental when more input never changes an answer it already gave
  (`stable`, `fatal`). Draining takes values until the decoder asks for more; feeding
  appends a piece and drains.

  - `drain_append`: draining a whole is draining a part, then its rest with what follows.
  - `feed_flatten`: feeding pieces gives what draining their concatenation gives, so the
    cuts between the pieces do not matter.
-/

import Mathlib.Data.List.Induction

namespace Holdfast.Base

structure Incremental (β α ε : Type*) where
  next : List β → Except ε (Option (α × List β))
  empty : next [] = .ok none
  shrinks : ∀ {b a r}, next b = .ok (some (a, r)) → r.length < b.length
  stable : ∀ {b a r} (c : List β), next b = .ok (some (a, r)) → next (b ++ c) = .ok (some (a, r ++ c))
  fatal : ∀ {b e} (c : List β), next b = .error e → next (b ++ c) = .error e

namespace Incremental

variable {β α ε : Type*} (D : Incremental β α ε)

/-- At most `fuel` values off the front: what was taken, and what is left or the failure. -/
def drainFuel : Nat → List β → List α × Except ε (List β)
  | 0, b => ([], .ok b)
  | fuel + 1, b =>
    match D.next b with
    | .error e => ([], .error e)
    | .ok none => ([], .ok b)
    | .ok (some (a, r)) => let d := drainFuel fuel r; (a :: d.1, d.2)

def drain (b : List β) : List α × Except ε (List β) := D.drainFuel (b.length + 1) b

/-- Every value takes some input, so any more fuel than input will do. -/
theorem drainFuel_eq {n m : Nat} {b : List β} (hn : b.length < n) (hm : b.length < m) :
    D.drainFuel n b = D.drainFuel m b := by
  induction n generalizing m b with
  | zero => omega
  | succ n ih =>
    cases m with
    | zero => omega
    | succ m =>
      unfold drainFuel
      cases h : D.next b with
      | error e => rfl
      | ok o =>
        cases o with
        | none => rfl
        | some x =>
          have hr := D.shrinks h
          simp only
          rw [ih (by omega) (show x.2.length < m by omega)]

theorem drain_failed {b : List β} {e : ε} (h : D.next b = .error e) : D.drain b = ([], .error e) := by
  simp only [drain, drainFuel, h]

theorem drain_waiting {b : List β} (h : D.next b = .ok none) : D.drain b = ([], .ok b) := by
  simp only [drain, drainFuel, h]

theorem drain_taken {b r : List β} {a : α} (h : D.next b = .ok (some (a, r))) :
    D.drain b = (a :: (D.drain r).1, (D.drain r).2) := by
  have hr := D.shrinks h
  have heq : D.drainFuel b.length r = D.drain r := D.drainFuel_eq hr (Nat.lt_succ_self _)
  simp only [drain, drainFuel, h]
  rw [heq]
  rfl

/-- A property of a buffer and what draining it gives, by the values taken. -/
theorem drain_induction {P : List β → List α → Except ε (List β) → Prop}
    (hfailed : ∀ b e, D.next b = .error e → P b [] (.error e)) (hwaiting : ∀ b, D.next b = .ok none → P b [] (.ok b))
    (htaken : ∀ b a r, D.next b = .ok (some (a, r)) → P r (D.drain r).1 (D.drain r).2 →
      P b (a :: (D.drain r).1) (D.drain r).2) (b : List β) : P b (D.drain b).1 (D.drain b).2 := by
  induction hn : b.length using Nat.strongRecOn generalizing b with
  | _ n ih =>
    cases h : D.next b with
    | error e => rw [D.drain_failed h]; exact hfailed b e h
    | ok o =>
      cases o with
      | none => rw [D.drain_waiting h]; exact hwaiting b h
      | some x =>
        have hr := D.shrinks h
        rw [D.drain_taken h]
        exact htaken b x.1 x.2 h (ih x.2.length (by omega) x.2 rfl)

/-- After draining nothing more can be taken: what is left waits for more input. -/
theorem next_left {b left : List β} (h : (D.drain b).2 = .ok left) : D.next left = .ok none := by
  revert h
  refine D.drain_induction (P := fun _ _ res => res = .ok left → D.next left = .ok none) ?_ ?_ ?_ b
  · intro b e _ h
    cases h
  · intro b hb h
    cases h
    exact hb
  · intro b a r _ ih
    exact ih

/-! ## Feeding -/

/-- One piece, after `st`: nothing more after a failure. -/
def feed (st : List α × Except ε (List β)) (piece : List β) : List α × Except ε (List β) :=
  match st.2 with
  | .error _ => st
  | .ok left => let d := D.drain (left ++ piece); (st.1 ++ d.1, d.2)

/-- Draining a whole is draining its first part and feeding the second. -/
theorem drain_append (b c : List β) : D.drain (b ++ c) = D.feed (D.drain b) c := by
  refine D.drain_induction (P := fun b vals res => D.drain (b ++ c) = D.feed (vals, res) c) ?_ ?_ ?_ b
  · intro b e h
    rw [D.drain_failed (D.fatal c h)]
    rfl
  · intro b _
    simp [feed]
  · intro b a r h ih
    rw [D.drain_taken (D.stable c h), ih]
    unfold feed
    cases (D.drain r).2 with
    | error e => rfl
    | ok left => rfl

theorem foldl_feed_failed (vals : List α) (e : ε) (pieces : List (List β)) :
    pieces.foldl D.feed (vals, .error e) = (vals, .error e) := by
  induction pieces with
  | nil => rfl
  | cons piece pieces ih => exact ih

/-- What was taken before does not matter to what comes. -/
theorem foldl_feed (vals : List α) (res : Except ε (List β)) (pieces : List (List β)) :
    pieces.foldl D.feed (vals, res) =
      (vals ++ (pieces.foldl D.feed ([], res)).1, (pieces.foldl D.feed ([], res)).2) := by
  induction pieces generalizing vals res with
  | nil => simp
  | cons piece pieces ih =>
    cases res with
    | error e => simp only [foldl_feed_failed, List.append_nil]
    | ok left =>
      have hstep : ∀ v, D.feed (v, .ok left) piece = (v ++ (D.drain (left ++ piece)).1, (D.drain (left ++ piece)).2) :=
        fun v => rfl
      rw [List.foldl_cons, List.foldl_cons, hstep, hstep, ih, List.nil_append,
        ih (D.drain (left ++ piece)).1, List.append_assoc]

theorem drain_nil : D.drain [] = ([], .ok []) := D.drain_waiting D.empty

theorem feed_flatten (pieces : List (List β)) : pieces.foldl D.feed ([], .ok []) = D.drain pieces.flatten := by
  induction pieces using List.reverseRecOn with
  | nil => exact D.drain_nil.symm
  | append_singleton pieces piece ih =>
    rw [List.foldl_append, ih, List.flatten_append, List.flatten_singleton, D.drain_append]
    rfl

end Incremental

end Holdfast.Base

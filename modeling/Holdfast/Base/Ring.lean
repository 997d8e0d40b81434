/-
  Holdfast.Base.Ring — a ring of the last `n` values pushed.

  The ring is a list, oldest value first, that drops its front when it is full.

  - `push_rtake`: pushing keeps the ring the last `n` of the history.
  - `mem_rtake_map`: what the ring of an injective image contains, read on the history.
-/

import Mathlib.Data.List.DropRight

namespace Holdfast.Base.Ring

variable {α β : Type*}

def push (n : Nat) (ring : List α) (a : α) : List α := (if ring.length = n then ring.tail else ring) ++ [a]

theorem push_rtake {n : Nat} (hn : 0 < n) (l : List α) (a : α) : push n (l.rtake n) a = (l ++ [a]).rtake n := by
  unfold push List.rtake
  by_cases h : n ≤ l.length
  · have hlen : (l.drop (l.length - n)).length = n := by simp; omega
    rw [if_pos hlen, List.tail_drop, List.drop_append_of_le_length (by simp; omega)]
    congr 2; simp; omega
  · have h0 : l.length - n = 0 := by omega
    have hlen : (l.drop (l.length - n)).length ≠ n := by simp; omega
    have h1 : (l ++ [a]).length - n = 0 := by simp; omega
    rw [if_neg hlen, h0, h1]; simp

theorem rtake_map (f : α → β) (n : Nat) (l : List α) : (l.map f).rtake n = (l.rtake n).map f := by
  simp [List.rtake, List.map_drop]

theorem mem_of_mem_rtake {n : Nat} {l : List α} {a : α} (h : a ∈ l.rtake n) : a ∈ l := List.mem_of_mem_drop h

/-- A ring of images holds `f a` just when the history's last `n` hold `a`. -/
theorem mem_rtake_map {f : α → β} {n : Nat} {l : List α} {a : α} (hf : ∀ b ∈ l, f b = f a → b = a) :
    f a ∈ (l.map f).rtake n ↔ a ∈ l.rtake n := by
  rw [rtake_map, List.mem_map]
  constructor
  · intro h
    obtain ⟨b, hb, he⟩ := h
    exact hf b (mem_of_mem_rtake hb) he ▸ hb
  · intro h
    exact ⟨a, h, rfl⟩

end Holdfast.Base.Ring

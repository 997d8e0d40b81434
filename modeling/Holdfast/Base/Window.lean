/-
  Holdfast.Base.Window — how many of a list of times fall into a window.

  `recent m x` counts the times that a window of width `m` ending just after `x` still
  holds, `inside x m` those of the half-open interval of width `m` from `x` on. A list is
  `Sparse m k` when no such interval holds more than `k` of its times.

  - `recent_anti`: a later end holds fewer.
  - `recent_eq_zero`: times that have left the window are not counted.
  - `Sparse.concat`: a time that finds fewer than `k` recent ones may be added.
-/

import Mathlib.Data.List.Basic
import Mathlib.Algebra.Order.Group.Nat

namespace Holdfast.Base

def recent (m x : Nat) (l : List Nat) : Nat := l.countP fun t => decide (x < t + m)

def inside (x m : Nat) (l : List Nat) : Nat := l.countP fun t => decide (x ≤ t ∧ t < x + m)

def Sparse (m k : Nat) (l : List Nat) : Prop := ∀ x, inside x m l ≤ k

variable {m m' k x y t : Nat} {l : List Nat}

@[simp] theorem recent_nil : recent m x [] = 0 := rfl

theorem recent_concat : recent m x (l ++ [t]) = recent m x l + if x < t + m then 1 else 0 := by
  simp [recent, List.countP_append, List.countP_cons]

theorem recent_anti (h : x ≤ y) : recent m y l ≤ recent m x l := by
  apply List.countP_mono_left
  intro t _ ht
  simp only [decide_eq_true_eq] at ht ⊢
  omega

theorem recent_le_length : recent m x l ≤ l.length := List.countP_le_length

theorem recent_eq_zero (h : ∀ t ∈ l, t + m ≤ x) : recent m x l = 0 := by
  rw [recent, List.countP_eq_zero]
  intro t ht
  have := h t ht
  simp only [decide_eq_true_eq]
  omega

/-- What a window of the same width has kept at an earlier time is all that it counts later. -/
theorem recent_filter (h : y ≤ x) : recent m x (l.filter fun t => decide (y < t + m)) = recent m x l := by
  rw [recent, List.countP_filter]
  apply List.countP_congr
  intro t _
  simp only [Bool.and_eq_true, decide_eq_true_eq]
  omega

theorem length_filter_recent : (l.filter fun t => decide (x < t + m)).length = recent m x l :=
  List.countP_eq_length_filter.symm

theorem sparse_nil : Sparse m k [] := fun _ => Nat.zero_le k

/-- A time that finds fewer than `k` recent ones may be added. -/
theorem Sparse.concat (h : Sparse m k l) (ht : recent m t l < k) : Sparse m k (l ++ [t]) := by
  intro x
  have hx := h x
  simp only [inside, List.countP_append, List.countP_singleton]
  by_cases hin : x ≤ t ∧ t < x + m
  · -- whatever shares an interval with `t` is recent at `t`
    have hle : inside x m l ≤ recent m t l := by
      apply List.countP_mono_left
      intro u _ hu
      simp only [decide_eq_true_eq] at hu ⊢
      omega
    simp only [inside] at hle
    simp only [hin, and_self, decide_true, if_true]
    omega
  · simp only [hin, decide_false, Bool.false_eq_true, if_false]
    exact hx

/-- A closed interval narrower than the window. -/
theorem Sparse.between (h : Sparse m k l) (hy : y < x + m) :
    l.countP (fun t => decide (x ≤ t ∧ t ≤ y)) ≤ k := by
  apply Nat.le_trans _ (h x)
  apply List.countP_mono_left
  intro t _ ht
  simp only [decide_eq_true_eq] at ht ⊢
  omega

end Holdfast.Base

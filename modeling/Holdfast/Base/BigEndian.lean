/-
  Holdfast.Base.BigEndian — unsigned numbers as big-endian bytes.

  `digits width n` are the `width` low bytes of `n`, the most significant first, and `value`
  reads bytes back. Each undoes the other on what fits.
-/

import Mathlib.Algebra.Group.Nat.Defs
import Mathlib.Data.List.Induction

namespace Holdfast.Base.BigEndian

def value (bytes : List UInt8) : Nat := bytes.foldl (fun n b => n * 256 + b.toNat) 0

def digits : Nat → Nat → List UInt8
  | 0, _ => []
  | width + 1, n => digits width (n / 256) ++ [UInt8.ofNat n]

@[simp] theorem value_nil : value [] = 0 := rfl

theorem value_concat (bytes : List UInt8) (b : UInt8) : value (bytes ++ [b]) = value bytes * 256 + b.toNat := by
  simp only [value, List.foldl_append, List.foldl_cons, List.foldl_nil]

@[simp] theorem digits_length (width n : Nat) : (digits width n).length = width := by
  induction width generalizing n with
  | zero => rfl
  | succ width ih => rw [digits, List.length_append, ih, List.length_singleton]

theorem value_lt (bytes : List UInt8) : value bytes < 256 ^ bytes.length := by
  induction bytes using List.reverseRecOn with
  | nil => exact Nat.one_pos
  | append_singleton bytes b ih =>
    have hb := b.toNat_lt
    rw [value_concat, List.length_append, List.length_singleton, Nat.pow_succ]
    omega

theorem value_digits {width n : Nat} (h : n < 256 ^ width) : value (digits width n) = n := by
  induction width generalizing n with
  | zero =>
    rw [Nat.pow_zero] at h
    rw [digits, value_nil]
    omega
  | succ width ih =>
    rw [Nat.pow_succ] at h
    have hhigh : n / 256 < 256 ^ width := by omega
    have hlow : (UInt8.ofNat n).toNat = n % 256 := UInt8.toNat_ofNat'
    rw [digits, value_concat, ih hhigh, hlow]
    omega

theorem digits_value (bytes : List UInt8) : digits bytes.length (value bytes) = bytes := by
  induction bytes using List.reverseRecOn with
  | nil => rfl
  | append_singleton bytes b ih =>
    have hb := b.toNat_lt
    have hhigh : (value bytes * 256 + b.toNat) / 256 = value bytes := by omega
    have hlow : UInt8.ofNat (value bytes * 256 + b.toNat) = b := by
      apply UInt8.toNat_inj.mp
      rw [UInt8.toNat_ofNat']
      omega
    rw [List.length_append, List.length_singleton, value_concat, digits, hhigh, ih, hlow]

end Holdfast.Base.BigEndian

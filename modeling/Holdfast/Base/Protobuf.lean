/-
  Holdfast.Base.Protobuf — the protobuf wire format, as far as it is written: base 128
  varints and the fields of a proto3 message. A scalar at its default is not written; a
  member of a `repeated` or a `oneof` always is.

  - `varint_length_mono` / `varint_length_add`: a larger number takes no fewer bytes, and
    one byte more at most for each step.
  - `delimited_length_mono`: so a larger payload makes a larger field.

  `Encodes` is the converse, for a reader: the bytes that stand for a number, the shortest
  ones or not. `Encodes.split` says which bytes those are and `Encodes.bounds` how large the
  number is.
-/

import Mathlib.Tactic

namespace Holdfast.Base.Protobuf

def varint (n : Nat) : List UInt8 :=
  if n < 128 then [UInt8.ofNat n] else UInt8.ofNat (n % 128 + 128) :: varint (n / 128)

/-- A field number with its wire type. -/
def key (field wireType : Nat) : List UInt8 := varint (field * 8 + wireType)

def uint64 (field value : Nat) : List UInt8 := if value = 0 then [] else key field 0 ++ varint value

def bool (field : Nat) (value : Bool) : List UInt8 := if value then key field 0 ++ [1] else []

/-- A length and that many bytes: strings, bytes and messages. -/
def delimited (field : Nat) (payload : List UInt8) : List UInt8 := key field 2 ++ varint payload.length ++ payload

def bytes (field : Nat) (payload : List UInt8) : List UInt8 := if payload = [] then [] else delimited field payload

def repeated (field : Nat) (payloads : List (List UInt8)) : List UInt8 := payloads.flatMap (delimited field)

/-! ## Lengths -/

theorem varint_small {n : Nat} (h : n < 128) : varint n = [UInt8.ofNat n] := by
  rw [varint, if_pos h]

theorem varint_large {n : Nat} (h : 128 ≤ n) : (varint n).length = (varint (n / 128)).length + 1 := by
  rw [varint, if_neg (by omega), List.length_cons]

/-- One byte for each seven bits. -/
theorem varint_length {n k : Nat} (hlow : 128 ^ k ≤ n) (hhigh : n < 128 ^ (k + 1)) : (varint n).length = k + 1 := by
  induction k generalizing n with
  | zero => rw [varint_small (by omega), List.length_singleton]
  | succ k ih =>
    have hlow' : 128 ^ k ≤ n / 128 := (Nat.le_div_iff_mul_le (by decide)).mpr (by rw [← Nat.pow_succ]; exact hlow)
    have hhigh' : n / 128 < 128 ^ (k + 1) := (Nat.div_lt_iff_lt_mul (by decide)).mpr (by rw [← Nat.pow_succ]; exact hhigh)
    have hone : 1 ≤ 128 ^ k := Nat.one_le_pow _ _ (by decide)
    rw [varint_large (by omega), ih hlow' hhigh']

theorem varint_length_pos (n : Nat) : 1 ≤ (varint n).length := by
  by_cases h : n < 128
  · rw [varint_small h, List.length_singleton]
  · rw [varint_large (by omega)]
    omega

theorem varint_length_mono {m n : Nat} (h : m ≤ n) : (varint m).length ≤ (varint n).length := by
  induction m using Nat.strongRecOn generalizing n with
  | ind m ih =>
    by_cases hm : m < 128
    · rw [varint_small hm]
      exact varint_length_pos n
    · have hlarge : 128 ≤ m := by omega
      have := ih (m / 128) (by omega) (Nat.div_le_div_right (c := 128) h)
      rw [varint_large hlarge, varint_large (hlarge.trans h)]
      omega

theorem varint_length_succ (n : Nat) : (varint (n + 1)).length ≤ (varint n).length + 1 := by
  induction n using Nat.strongRecOn with
  | ind n ih =>
    by_cases hn : n + 1 < 128
    · rw [varint_small hn, List.length_singleton]
      omega
    · rw [varint_large (by omega)]
      -- the quotient moves by one step at most
      rcases Nat.lt_or_ge n 128 with hsmall | hlarge
      · have hq : (n + 1) / 128 = 1 := by omega
        rw [hq, varint_small (by omega), varint_small hsmall]
        simp
      · rw [varint_large hlarge]
        rcases (by omega : (n + 1) / 128 = n / 128 ∨ (n + 1) / 128 = n / 128 + 1) with hq | hq
        · rw [hq]
          omega
        · rw [hq]
          have := ih (n / 128) (by omega)
          omega

theorem varint_length_add (n k : Nat) : (varint (n + k)).length ≤ (varint n).length + k := by
  induction k with
  | zero => simp
  | succ k ih =>
    have := varint_length_succ (n + k)
    rw [← Nat.add_assoc]
    omega

theorem varint_length_le {k n : Nat} (h : n < 128 ^ (k + 1)) : (varint n).length ≤ k + 1 := by
  induction k generalizing n with
  | zero => rw [varint_small (by simpa using h), List.length_singleton]
  | succ k ih =>
    by_cases hn : n < 128
    · rw [varint_small hn, List.length_singleton]
      omega
    · rw [varint_large (by omega)]
      have := ih (n := n / 128) (by rw [Nat.div_lt_iff_lt_mul (by decide)]; rw [pow_succ] at h; exact h)
      omega

theorem uint64_length (field : Nat) {value : Nat} (h : value ≠ 0) :
    (uint64 field value).length = (key field 0).length + (varint value).length := by
  rw [uint64, if_neg h, List.length_append]

theorem delimited_length (field : Nat) (payload : List UInt8) :
    (delimited field payload).length = (key field 2).length + (varint payload.length).length + payload.length := by
  simp only [delimited, List.length_append]

theorem delimited_length_mono (field : Nat) {a b : List UInt8} (h : a.length ≤ b.length) :
    (delimited field a).length ≤ (delimited field b).length := by
  rw [delimited_length, delimited_length]
  have := varint_length_mono h
  omega

@[simp] theorem repeated_nil (field : Nat) : repeated field [] = [] := rfl

@[simp] theorem repeated_append (field : Nat) (a b : List (List UInt8)) :
    repeated field (a ++ b) = repeated field a ++ repeated field b := List.flatMap_append

/-- Every member costs a key and a length. -/
theorem repeated_length_ge (field : Nat) (payloads : List (List UInt8)) :
    2 * payloads.length ≤ (repeated field payloads).length := by
  induction payloads with
  | nil => simp
  | cons payload rest ih =>
    have hkey : 1 ≤ (key field 2).length := varint_length_pos _
    have hlen := varint_length_pos payload.length
    simp only [repeated, List.flatMap_cons, List.length_append, List.length_cons, delimited_length] at ih ⊢
    omega

/-! ## Any encoding of a number -/

/-- Seven bits a byte, the low ones first; every byte but the last has the high bit. -/
inductive Encodes : List UInt8 → Nat → Prop
  | last {b : UInt8} : b.toNat < 128 → Encodes [b] b.toNat
  | more {b : UInt8} {bs : List UInt8} {n : Nat} : 128 ≤ b.toNat → Encodes bs n → Encodes (b :: bs) (b.toNat % 128 + 128 * n)

theorem varint_encodes (n : Nat) : Encodes (varint n) n := by
  induction n using Nat.strongRecOn with
  | ind n ih =>
    by_cases h : n < 128
    · have hb : (UInt8.ofNat n).toNat = n := UInt8.toNat_ofNat_of_lt' (by simp only [UInt8.size]; omega)
      have hlast := Encodes.last (b := UInt8.ofNat n) (by omega)
      rw [hb] at hlast
      rw [varint_small h]
      exact hlast
    · have hb : (UInt8.ofNat (n % 128 + 128)).toNat = n % 128 + 128 :=
        UInt8.toNat_ofNat_of_lt' (by simp only [UInt8.size]; omega)
      have hmore := Encodes.more (b := UInt8.ofNat (n % 128 + 128)) (by omega) (ih (n / 128) (by omega))
      rw [hb, Nat.add_mod_right, Nat.mod_mod, Nat.mod_add_div] at hmore
      rw [varint, if_neg h]
      exact hmore

theorem Encodes.unique {bs : List UInt8} {m n : Nat} (hm : Encodes bs m) (hn : Encodes bs n) : m = n := by
  induction hm generalizing n with
  | last hb =>
    cases hn with
    | last => rfl
    | more _ hrest => cases hrest
  | more hb hrest ih =>
    cases hn with
    | last => cases hrest
    | more _ hn => rw [ih hn]

/-- The bytes with the high bit, and the last. -/
theorem Encodes.split {bs : List UInt8} {n : Nat} (h : Encodes bs n) :
    ∃ high last, bs = high ++ [last] ∧ (∀ b ∈ high, 128 ≤ b.toNat) ∧ last.toNat < 128 := by
  induction h with
  | @last b hb => exact ⟨[], b, rfl, by simp, hb⟩
  | @more b bs n hb _ ih =>
    obtain ⟨high, last, rfl, hhigh, hlast⟩ := ih
    exact ⟨b :: high, last, rfl, List.forall_mem_cons.mpr ⟨hb, hhigh⟩, hlast⟩

/-- The last byte has the high bits of the number. -/
theorem Encodes.bounds {high : List UInt8} {last : UInt8} {n : Nat} (h : Encodes (high ++ [last]) n) :
    last.toNat * 128 ^ high.length ≤ n ∧ n < (last.toNat + 1) * 128 ^ high.length := by
  induction high generalizing n with
  | nil =>
    cases h with
    | last _ => simp
    | more _ hrest => cases hrest
  | cons b high ih =>
    rw [List.cons_append] at h
    generalize hbs : high ++ [last] = bs at h
    cases h with
    | last _ => simp at hbs
    | @more _ _ n _ hrest =>
      obtain ⟨hlow, hhigh⟩ := ih (hbs ▸ hrest)
      rw [List.length_cons, Nat.pow_succ, ← Nat.mul_assoc, ← Nat.mul_assoc]
      omega

end Holdfast.Base.Protobuf

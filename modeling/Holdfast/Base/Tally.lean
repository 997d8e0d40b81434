/-
  Holdfast.Base.Tally — a table that counts, for each key, how often it is in a list.

  Keys that are not in the list have no entry: `raise` adds the first one of a key,
  `lower` takes the entry away with the last.

  - `tallies_raise` / `tallies_lower`: raising and lowering a key's count is adding and
    removing it from the list.
  - `Tallies.sum`: the counts add up to the length of the list.
-/

import Mathlib.Algebra.BigOperators.Group.List.Basic
import Mathlib.Algebra.GroupWithZero.Nat
import Holdfast.Base.Table

namespace Holdfast.Base

variable {K : Type*} [DecidableEq K]

namespace Table

theorem sum_insert (t : Table K Nat) (k : K) (n : Nat) :
    (values (t.insert k n)).sum = (values (t.erase k)).sum + n := by
  rw [values, AList.entries_insert, List.map_cons, List.sum_cons, Nat.add_comm]
  rfl

theorem sum_erase (t : Table K Nat) (k : K) : (values (t.erase k)).sum + (t.lookup k).getD 0 = t.values.sum := by
  cases h : t.lookup k with
  | some n =>
    have hsum := (values_erase h).sum_eq
    rw [List.sum_cons] at hsum
    rw [Option.getD_some]
    omega
  | none =>
    have hentries : (t.erase k).entries = t.entries := List.kerase_of_notMem_keys (List.dlookup_eq_none.mp h)
    simp only [values, hentries, Option.getD_none, Nat.add_zero]

end Table

/-- One more of a key. -/
def raise (t : Table K Nat) (k : K) : Table K Nat := t.insert k ((t.lookup k).getD 0 + 1)

/-- One less. -/
def lower (t : Table K Nat) (k : K) : Table K Nat :=
  match t.lookup k with
  | none => t
  | some n => if n - 1 = 0 then t.erase k else t.insert k (n - 1)

/-- The table counts the keys of the list. -/
structure Tallies (t : Table K Nat) (l : List K) : Prop where
  lookup : ∀ k, t.lookup k = if l.count k = 0 then none else some (l.count k)
  sum : t.values.sum = l.length

namespace Tallies

variable {t : Table K Nat} {l : List K}

theorem empty : Tallies (∅ : Table K Nat) [] := ⟨fun _ => rfl, rfl⟩

theorem count (h : Tallies t l) (k : K) : (t.lookup k).getD 0 = l.count k := by
  rw [h.lookup]
  split
  · rename_i h0
    rw [h0]
    rfl
  · rfl

theorem no_zero (h : Tallies t l) (k : K) : t.lookup k ≠ some 0 := by
  rw [h.lookup]
  split
  · simp
  · rename_i h0
    simpa using h0

theorem lookup_mem (h : Tallies t l) {k : K} (hk : k ∈ l) : t.lookup k = some (l.count k) := by
  rw [h.lookup, if_neg]
  exact Nat.ne_of_gt (List.count_pos_iff.mpr hk)

theorem perm {l' : List K} (h : Tallies t l) (hp : l'.Perm l) : Tallies t l' :=
  ⟨fun k => by rw [hp.count_eq]; exact h.lookup k, by rw [hp.length_eq]; exact h.sum⟩

end Tallies

variable {t : Table K Nat} {l : List K}

theorem tallies_raise (h : Tallies t l) (k : K) : Tallies (raise t k) (k :: l) := by
  refine ⟨?_, ?_⟩
  · intro a
    unfold raise
    by_cases ha : a = k
    · subst ha
      rw [AList.lookup_insert, h.count, List.count_cons_self, if_neg (Nat.succ_ne_zero _)]
    · rw [AList.lookup_insert_ne ha, List.count_cons_of_ne (Ne.symm ha)]
      exact h.lookup a
  · have hsum := Table.sum_erase t k
    rw [raise, Table.sum_insert, List.length_cons, ← h.sum]
    omega

theorem tallies_lower (h : Tallies t l) {k : K} (hk : k ∈ l) : Tallies (lower t k) (l.erase k) := by
  have hn := h.lookup_mem hk
  have hpos : 0 < l.count k := List.count_pos_iff.mpr hk
  have hsum := Table.sum_erase t k
  have hlen := List.length_erase_of_mem hk
  have hlenpos := List.length_pos_of_mem hk
  have htotal := h.sum
  have hother : ∀ {a : K}, a ≠ k → (l.erase k).count a = l.count a := fun ha => List.count_erase_of_ne ha
  have hself : (l.erase k).count k = l.count k - 1 := List.count_erase_self
  unfold lower
  rw [hn] at hsum ⊢
  simp only [Option.getD_some] at hsum ⊢
  split
  · rename_i hlast
    refine ⟨?_, by omega⟩
    intro a
    by_cases ha : a = k
    · subst ha
      rw [AList.lookup_erase, hself, if_pos hlast]
    · rw [AList.lookup_erase_ne ha, hother ha]
      exact h.lookup a
  · rename_i hmore
    refine ⟨?_, ?_⟩
    · intro a
      by_cases ha : a = k
      · subst ha
        rw [AList.lookup_insert, hself, if_neg hmore]
      · rw [AList.lookup_insert_ne ha, hother ha]
        exact h.lookup a
    · rw [Table.sum_insert]
      omega

end Holdfast.Base

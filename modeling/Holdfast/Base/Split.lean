/-
  Holdfast.Base.Split — lists cut at a separator.

  - `splitOn_apart`: no part holds the separator.
  - `splitOn_sublist`: a part is a part of the list.
  - `splitOn_length`: the elements are those of the parts and the separators between them.
  - `splitOn_snoc_self`, `splitOn_snoc`: the parts as the elements come one by one: a
    separator opens an empty part, anything else goes to the last one.
-/

import Mathlib.Tactic

namespace Holdfast.Base.Split

variable {α : Type*} [BEq α] [LawfulBEq α]

theorem splitOn_apart (sep : α) (xs : List α) : ∀ part ∈ xs.splitOn sep, sep ∉ part := by
  induction xs with
  | nil =>
    intro part hpart
    rw [List.splitOn_nil, List.mem_singleton] at hpart
    rw [hpart]
    exact List.not_mem_nil
  | cons x xs ih =>
    intro part hpart
    rw [List.splitOn_cons_eq_if_modifyHead] at hpart
    split at hpart
    · rcases List.mem_cons.mp hpart with rfl | hmem
      · exact List.not_mem_nil
      · exact ih part hmem
    · rename_i hx
      rcases hsplit : xs.splitOn sep with _ | ⟨first, others⟩
      · exact absurd hsplit (List.splitOn_ne_nil sep xs)
      · rw [hsplit] at hpart ih
        rcases List.mem_cons.mp hpart with rfl | hmem
        · intro hsep
          rcases List.mem_cons.mp hsep with rfl | hrest
          · exact hx (beq_self_eq_true _)
          · exact ih first List.mem_cons_self hrest
        · exact ih part (List.mem_cons_of_mem _ hmem)

omit [LawfulBEq α] in
theorem splitOn_sublist {sep : α} {xs part : List α} (h : part ∈ xs.splitOn sep) : part.Sublist xs := by
  induction xs generalizing part with
  | nil =>
    rw [List.splitOn_nil, List.mem_singleton] at h
    rw [h]
  | cons x xs ih =>
    rw [List.splitOn_cons_eq_if_modifyHead] at h
    split at h
    · rcases List.mem_cons.mp h with rfl | hmem
      · exact List.nil_sublist _
      · exact (ih hmem).cons x
    · rcases hsplit : xs.splitOn sep with _ | ⟨first, others⟩
      · exact absurd hsplit (List.splitOn_ne_nil sep xs)
      · rw [hsplit] at h ih
        rcases List.mem_cons.mp h with rfl | hmem
        · exact (ih List.mem_cons_self).cons_cons x
        · exact (ih (List.mem_cons_of_mem _ hmem)).cons x

theorem splitOn_snoc_self (sep : α) (xs : List α) : (xs ++ [sep]).splitOn sep = xs.splitOn sep ++ [[]] := by
  rw [List.splitOn_append_cons_self, List.splitOn_nil]

theorem splitOn_snoc {sep b : α} (hb : b ≠ sep) {xs : List α} {init : List (List α)} {last : List α}
    (h : xs.splitOn sep = init ++ [last]) : (xs ++ [b]).splitOn sep = init ++ [last ++ [b]] := by
  induction xs generalizing init last with
  | nil =>
    rw [List.splitOn_nil] at h
    obtain ⟨rfl, hlast⟩ := List.append_inj' (show [] ++ [[]] = init ++ [last] from h) rfl
    obtain rfl := (List.cons.inj hlast).1
    exact List.splitOn_eq_singleton fun hmem => hb (List.mem_singleton.mp hmem).symm
  | cons c xs ih =>
    rw [List.splitOn_cons_eq_if_modifyHead] at h
    rw [List.cons_append, List.splitOn_cons_eq_if_modifyHead]
    by_cases hc : (c == sep) = true
    · rw [if_pos hc] at h ⊢
      rcases init with _ | ⟨first, init⟩
      · exact absurd (List.cons.inj h).2 (List.splitOn_ne_nil _ _)
      · obtain ⟨rfl, hrest⟩ := List.cons.inj h
        rw [ih hrest]
        rfl
    · rw [if_neg hc] at h ⊢
      obtain ⟨init', last', hsplit⟩ : ∃ init' last', xs.splitOn sep = init' ++ [last'] :=
        ⟨_, _, (List.dropLast_append_getLast (List.splitOn_ne_nil sep xs)).symm⟩
      rw [ih hsplit]
      rw [hsplit] at h
      rcases init' with _ | ⟨first, init'⟩
      · obtain ⟨rfl, hlast⟩ := List.append_inj' (show [] ++ [c :: last'] = init ++ [last] from h) rfl
        obtain rfl := (List.cons.inj hlast).1
        rfl
      · rcases init with _ | ⟨first', init⟩
        · have := (List.cons.inj h).2
          simp at this
        · obtain ⟨rfl, hrest⟩ := List.cons.inj h
          obtain ⟨rfl, hlast⟩ := List.append_inj' hrest rfl
          obtain rfl := (List.cons.inj hlast).1
          rfl

omit [LawfulBEq α] in
/-- The elements are those of the parts and the separators between them. -/
theorem splitOn_length (sep : α) (xs : List α) :
    ((xs.splitOn sep).map List.length).sum + (xs.splitOn sep).length = xs.length + 1 := by
  induction xs with
  | nil => rfl
  | cons c xs ih =>
    rw [List.splitOn_cons_eq_if_modifyHead]
    split
    · simp only [List.map_cons, List.length_nil, List.sum_cons, List.length_cons]
      omega
    · rcases hsplit : xs.splitOn sep with _ | ⟨first, rest⟩
      · exact absurd hsplit (List.splitOn_ne_nil sep xs)
      · rw [hsplit] at ih
        simp only [List.modifyHead_cons, List.map_cons, List.length_cons, List.sum_cons] at ih ⊢
        omega

end Holdfast.Base.Split

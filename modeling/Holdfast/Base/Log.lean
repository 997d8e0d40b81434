/-
  Holdfast.Base.Log — what is said about a log entry by entry.

  `EachAfter` asks of every entry something about those before it. `last` is the last entry
  with a mark, and `since` what came behind it.

  - `EachAfter.snoc`: one more entry, if it is allowed.
  - `last_some`: the log is cut at its last mark.
  - `since_mark`: what came behind a mark with none behind it.
-/

import Mathlib.Data.List.Induction

namespace Holdfast.Base

variable {α : Type*}

/-- Every entry is allowed by those before it. -/
def EachAfter (allowed : List α → α → Prop) (log : List α) : Prop :=
  ∀ before entry after, log = before ++ entry :: after → allowed before entry

theorem EachAfter.nil (allowed : List α → α → Prop) : EachAfter allowed [] := by
  intro before entry after heq
  have hlen := congrArg List.length heq
  simp at hlen

theorem EachAfter.snoc {allowed : List α → α → Prop} {log : List α} (h : EachAfter allowed log) {entry : α}
    (hentry : allowed log entry) : EachAfter allowed (log ++ [entry]) := by
  intro before e after heq
  rcases List.eq_nil_or_concat after with rfl | ⟨after', last, rfl⟩
  · obtain ⟨rfl, he⟩ := List.append_inj' heq rfl
    obtain rfl := List.cons.inj he |>.1
    exact hentry
  · rw [List.concat_eq_append, ← List.cons_append, ← List.append_assoc] at heq
    exact h before e after' (List.append_inj' heq rfl).1

/-- The last entry with the mark. -/
def last (mark : α → Bool) (log : List α) : Option α := (log.filter mark).getLast?

/-- What came behind it. -/
def since (mark : α → Bool) (log : List α) : List α :=
  log.foldl (fun behind entry => if mark entry then [] else behind ++ [entry]) []

section
variable (mark : α → Bool)

theorem last_snoc (log : List α) (entry : α) : last mark (log ++ [entry]) = if mark entry then some entry else last mark log := by
  rw [last, List.filter_append]
  cases h : mark entry with
  | true => simp [h]
  | false => simp [h, last]

theorem since_snoc (log : List α) (entry : α) :
    since mark (log ++ [entry]) = if mark entry then [] else since mark log ++ [entry] := by
  rw [since, List.foldl_append]
  rfl

variable {mark}

theorem last_some {log : List α} {entry : α} (h : last mark log = some entry) :
    mark entry = true ∧ ∃ before, log = before ++ entry :: since mark log := by
  induction log using List.reverseRecOn with
  | nil => cases h
  | append_singleton log e ih =>
    rw [last_snoc] at h
    rw [since_snoc]
    split at h
    · rename_i hmark
      cases h
      rw [if_pos hmark]
      exact ⟨hmark, log, rfl⟩
    · rename_i hmark
      obtain ⟨hentry, before, hlog⟩ := ih h
      rw [if_neg hmark]
      refine ⟨hentry, before, ?_⟩
      rw [← List.cons_append, ← List.append_assoc, ← hlog]

theorem since_append (log : List α) {more : List α} (h : ∀ entry ∈ more, mark entry = false) :
    since mark (log ++ more) = since mark log ++ more := by
  induction more using List.reverseRecOn with
  | nil => rw [List.append_nil, List.append_nil]
  | append_singleton more entry ih =>
    have hentry : ¬mark entry = true := by simp [h entry (by simp)]
    rw [← List.append_assoc, since_snoc, if_neg hentry, ih fun e he => h e (List.mem_append_left _ he), List.append_assoc]

theorem since_mark (log : List α) {entry : α} (hentry : mark entry = true) {more : List α}
    (h : ∀ e ∈ more, mark e = false) : since mark (log ++ entry :: more) = more := by
  have hcut : log ++ entry :: more = (log ++ [entry]) ++ more := by simp
  rw [hcut, since_append _ h, since_snoc, if_pos hentry, List.nil_append]

/-- Behind a mark, only entries behind it count. -/
theorem since_suffix (log : List α) {entry : α} (hentry : mark entry = true) (more : List α) :
    since mark (log ++ entry :: more) <:+ more := by
  induction more using List.reverseRecOn with
  | nil =>
    exact ⟨[], since_mark log hentry fun _ he => absurd he List.not_mem_nil⟩
  | append_singleton more e ih =>
    rw [← List.cons_append, ← List.append_assoc, since_snoc]
    split
    · exact List.nil_suffix
    · obtain ⟨front, hfront⟩ := ih
      exact ⟨front, by rw [← List.append_assoc, hfront]⟩

theorem last_isSome {log : List α} {entry : α} (hmem : entry ∈ log) (hentry : mark entry = true) :
    (last mark log).isSome = true := by
  rw [last, Option.isSome_iff_ne_none, ne_eq, List.getLast?_eq_none_iff, List.filter_eq_nil_iff]
  exact fun h => h entry hmem hentry

end

end Holdfast.Base

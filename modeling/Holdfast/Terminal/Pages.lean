/-
  Holdfast.Terminal.Pages — the page of the scrollback a request gets
  (`HistoryRing::range` of `crates/terminal-model/src/history.rs`).

  Of the retained lines below the requested id, `range` takes the longest run that ends at
  the newest of them and is either a single line or within both limits.

  Proved:
  - `collect_largest`: what the loop collects is that run.
  - `range_eq`: and so is the page, with the id of its first line.
  - `range_lines`: a page is a run of the lines that were ever pushed, numbered from 1.
-/

import Holdfast.Terminal.History

namespace Holdfast.Terminal.HistoryRing

/-- The newest id a request may get. -/
def upper (h : HistoryRing) (beforeLineId : Nat) : Nat :=
  if beforeLineId = 0 then h.newestId else min (beforeLineId - 1) h.newestId

/-- The retained lines a request may get, oldest first. -/
def below (h : HistoryRing) (beforeLineId : Nat) : List Text := h.lines.take (h.upper beforeLineId + 1 - h.firstId)

def textLen (page : List Text) : Nat := (page.map Text.len).sum

@[simp] theorem textLen_append (a b : List Text) : textLen (a ++ b) = textLen a + textLen b := by simp [textLen]

@[simp] theorem textLen_cons (line : Text) (page : List Text) : textLen (line :: page) = line.len + textLen page := by
  simp [textLen]

/-- One line, or within both limits. -/
def Within (maximumLines maximumBytes : Nat) (page : List Text) : Prop :=
  page.length = 1 ∨ page.length ≤ maximumLines ∧ textLen page ≤ maximumBytes

/-- The longest such run at the end of `lines`. -/
structure Largest (maximumLines maximumBytes : Nat) (lines page : List Text) : Prop where
  nonempty : page ≠ []
  suffix : page <:+ lines
  within : Within maximumLines maximumBytes page
  longest : ∀ other, other ≠ [] → other <:+ lines → Within maximumLines maximumBytes other → other.length ≤ page.length

/-- The page that holds `lines`, of those below the requested id. -/
def pageOf (h : HistoryRing) (beforeLineId : Nat) (lines : List Text) : HistoryRange :=
  let firstLineId := h.upper beforeLineId + 1 - lines.length
  ⟨firstLineId, lines, decide (firstLineId = h.firstId ∧ h.firstId > 1)⟩

section

variable {maximumLines maximumBytes : Nat}

/-- A run of two lines or more is within the limits or it is not. -/
theorem not_within {page : List Text} (htwo : 2 ≤ page.length)
    (h : maximumLines < page.length ∨ maximumBytes < textLen page) : ¬Within maximumLines maximumBytes page := by
  rintro (hone | ⟨hlines, hbytes⟩) <;> omega

/-- The loop goes on with `got`: it adds the longest run it may, and stops. -/
theorem collect_more (newest : List Text) : ∀ got : List Text, got ≠ [] → got.length < maximumLines →
    (got.length = 1 ∨ textLen got ≤ maximumBytes) →
    ∃ more, collect maximumLines maximumBytes newest got (textLen got) = more ++ got ∧ more <:+ newest.reverse ∧
      Within maximumLines maximumBytes (more ++ got) ∧
      ∀ other, other <:+ newest.reverse → Within maximumLines maximumBytes (other ++ got) →
        other.length ≤ more.length := by
  induction newest with
  | nil =>
    intro got hgot hlt htext
    refine ⟨[], rfl, List.suffix_rfl, ?_, ?_⟩
    · rcases htext with hone | htext
      · exact .inl hone
      · exact .inr ⟨by simpa using Nat.le_of_lt hlt, by simpa using htext⟩
    · intro other hother _
      rw [List.reverse_nil, List.suffix_nil] at hother
      simp [hother]
  | cons line older ih =>
    intro got hgot hlt htext
    have hpos : 1 ≤ got.length := List.length_pos_of_ne_nil hgot
    have hempty : got.isEmpty = false := by simpa using hgot
    -- a longer run has `line` as its last
    have hlast : ∀ other, other <:+ (line :: older).reverse → other ≠ [] →
        ∃ t, other = t ++ [line] ∧ t <:+ older.reverse := by
      intro other hother hne
      rw [List.reverse_cons, List.suffix_concat_iff] at hother
      exact hother.resolve_left hne
    by_cases hfull : maximumBytes < textLen got + line.len
    · have hstop : collect maximumLines maximumBytes (line :: older) got (textLen got) = got := by
        rw [collect, if_pos]
        simp [hempty, hfull]
      refine ⟨[], hstop, List.nil_suffix, ?_, ?_⟩
      · rcases htext with hone | htext
        · exact .inl hone
        · exact .inr ⟨by simpa using Nat.le_of_lt hlt, by simpa using htext⟩
      · intro other hother hwithin
        by_contra hlong
        have hne : other ≠ [] := by
          rintro rfl
          simp at hlong
        obtain ⟨t, rfl, -⟩ := hlast other hother hne
        refine not_within ?_ (.inr ?_) hwithin
        · simp only [List.length_append, List.length_singleton]
          omega
        · simp only [textLen_append, textLen_cons]
          omega
    · have hgo : collect maximumLines maximumBytes (line :: older) got (textLen got) =
          if (line :: got).length ≥ maximumLines then line :: got
          else collect maximumLines maximumBytes older (line :: got) (textLen (line :: got)) := by
        rw [collect, if_neg, textLen_cons, Nat.add_comm line.len]
        simp only [hempty, Bool.not_false, Bool.true_and, Bool.or_eq_true, decide_eq_true_eq, not_or]
        omega
      by_cases hlines : (line :: got).length ≥ maximumLines
      · rw [hgo, if_pos hlines]
        rw [List.length_cons] at hlines
        refine ⟨[line], rfl, ?_, .inr ⟨?_, ?_⟩, ?_⟩
        · rw [List.reverse_cons]
          exact List.suffix_append _ _
        · simp only [List.length_append, List.length_singleton]
          omega
        · simp only [List.singleton_append, textLen_cons]
          omega
        · intro other _ hwithin
          by_contra hlong
          rw [List.length_singleton] at hlong
          refine not_within ?_ (.inl ?_) hwithin <;> (rw [List.length_append]; omega)
      · rw [hgo, if_neg hlines]
        rw [ge_iff_le, List.length_cons, not_le] at hlines
        obtain ⟨more, heq, hsuffix, hwithin, hlongest⟩ := ih (line :: got) (by simp) (by simpa using hlines)
          (.inr (by rw [textLen_cons]; omega))
        refine ⟨more ++ [line], ?_, ?_, ?_, ?_⟩
        · rw [heq, List.append_assoc, List.singleton_append]
        · rw [List.reverse_cons, List.suffix_concat_iff]
          exact .inr ⟨more, rfl, hsuffix⟩
        · rwa [List.append_assoc, List.singleton_append]
        · intro other hother hother_within
          by_cases hne : other = []
          · simp [hne]
          · obtain ⟨t, rfl, ht⟩ := hlast other hother hne
            rw [List.append_assoc, List.singleton_append] at hother_within
            have := hlongest t ht hother_within
            simp only [List.length_append, List.length_singleton]
            omega

theorem collect_largest {lines : List Text} (hne : lines ≠ []) :
    Largest maximumLines maximumBytes lines (collect maximumLines maximumBytes lines.reverse [] 0) := by
  obtain ⟨older, line, rfl⟩ : ∃ older line, lines = older ++ [line] :=
    ⟨lines.dropLast, lines.getLast hne, (List.dropLast_concat_getLast hne).symm⟩
  have hfirst : collect maximumLines maximumBytes (older ++ [line]).reverse [] 0 =
      if 1 ≥ maximumLines then [line]
      else collect maximumLines maximumBytes older.reverse [line] (textLen [line]) := by
    rw [List.reverse_append, List.reverse_singleton, List.singleton_append, collect, if_neg (by simp)]
    simp [textLen]
  rw [hfirst]
  by_cases hone : 1 ≥ maximumLines
  · rw [if_pos hone]
    refine ⟨by simp, List.suffix_append _ _, .inl rfl, ?_⟩
    rintro other hother _ (hlen | ⟨hlen, _⟩)
    · simp [hlen]
    · simpa using Nat.le_trans hlen hone
  · rw [if_neg hone]
    obtain ⟨more, heq, hsuffix, hwithin, hlongest⟩ :=
      @collect_more maximumLines maximumBytes older.reverse [line] (by simp)
        (by simpa using hone) (.inl rfl)
    rw [List.reverse_reverse] at hsuffix hlongest
    rw [heq]
    refine ⟨by simp, List.suffix_concat_iff.mpr (.inr ⟨more, rfl, hsuffix⟩), hwithin, ?_⟩
    intro other hother hother_suffix hother_within
    obtain ⟨t, rfl, ht⟩ := (List.suffix_concat_iff.mp hother_suffix).resolve_left hother
    have := hlongest t ht hother_within
    simp only [List.length_append, List.length_singleton]
    omega

end

/-! ## Rings that evict nothing -/

theorem evict_within {h : HistoryRing} {ls : List Text} (hlines : ls.length ≤ h.maxLines)
    (hbytes : h.bytes ≤ h.maxBytes) : evict h ls = { h with lines := ls } := by
  match ls with
  | [] => rfl
  | [_] => rfl
  | l :: l' :: rest =>
    rw [evict, if_neg (by rw [not_or, gt_iff_lt, gt_iff_lt, Nat.not_lt, Nat.not_lt]; exact ⟨hlines, hbytes⟩)]
    simp

theorem push_within {h : HistoryRing} {line : Text} (hlines : h.lines.length + 1 ≤ h.maxLines)
    (hbytes : h.bytes + line.len ≤ h.maxBytes) :
    h.push line =
      { h with lines := h.lines ++ [line], bytes := h.bytes + line.len, nextId := h.nextId + 1 } := by
  rw [push, evict_within (by simpa using hlines) hbytes]

/-- A fresh ring keeps all of `n` equal lines that are within its bounds. -/
theorem pushAll_replicate {maxLines maxBytes : Nat} (line : Text) (n : Nat) (hlines : n ≤ maxLines)
    (hbytes : n * line.len ≤ maxBytes) :
    (new maxLines maxBytes).pushAll (List.replicate n line) =
      ⟨List.replicate n line, 1, n + 1, n * line.len, max maxLines 1, max maxBytes 1⟩ := by
  induction n with
  | zero => simp [pushAll, new]
  | succ n ih =>
    rw [Nat.add_mul, Nat.one_mul] at hbytes
    rw [List.replicate_succ', pushAll, List.foldl_append]
    have := ih (by omega) (by omega)
    rw [pushAll] at this
    rw [this, List.foldl_cons, List.foldl_nil, push_within]
    · simp [Nat.add_mul]
    · simp only [List.length_replicate]
      omega
    · show n * line.len + line.len ≤ max maxBytes 1
      omega

/-! ## `range` -/

variable {h : HistoryRing} {beforeLineId : Nat}

theorem below_length (hw : h.Wf) : (h.below beforeLineId).length = h.upper beforeLineId + 1 - h.firstId := by
  have hids := hw.ids
  have hupper : h.upper beforeLineId ≤ h.nextId - 1 := by
    unfold upper newestId
    split <;> omega
  rw [below, List.length_take]
  have := hw.first
  omega

/-- Nothing to send, or the largest page. -/
theorem range_eq (hw : h.Wf) (beforeLineId maximumLines maximumBytes : Nat) :
    (h.below beforeLineId = [] ∧ ∃ evicted, h.range beforeLineId maximumLines maximumBytes = ⟨0, [], evicted⟩) ∨
    (h.below beforeLineId ≠ [] ∧ ∃ page, Largest maximumLines maximumBytes (h.below beforeLineId) page ∧
      h.range beforeLineId maximumLines maximumBytes = h.pageOf beforeLineId page) := by
  have hlen := @below_length _ beforeLineId hw
  have hfirst := hw.first
  by_cases hnone : h.lines.isEmpty ∨ h.upper beforeLineId = 0 ∨ h.upper beforeLineId < h.firstId
  · left
    have hzero : (h.below beforeLineId).length = 0 := by
      rcases hnone with hempty | hzero | hlow
      · rw [below, List.isEmpty_iff.mp hempty, List.take_nil, List.length_nil]
      · omega
      · omega
    exact ⟨List.length_eq_zero_iff.mp hzero, _, if_pos hnone⟩
  · right
    have hne : h.below beforeLineId ≠ [] := by
      intro hnil
      rw [hnil, List.length_nil] at hlen
      omega
    exact ⟨hne, _, collect_largest hne, if_neg hnone⟩

/-! ## The lines behind the ids -/

/-- The ring that `log` was pushed to: line `n` of `log` has the id `n + 1`. -/
structure Retains (h : HistoryRing) (log : List Text) : Prop where
  wf : h.Wf
  count : h.nextId = log.length + 1
  lines : h.lines = log.drop (h.firstId - 1)

theorem retains_new (maxLines maxBytes : Nat) : (new maxLines maxBytes).Retains [] := ⟨new_wf _ _, rfl, rfl⟩

theorem evict_drop (ls : List Text) : ∀ h : HistoryRing,
    ∃ n, (evict h ls).lines = ls.drop n ∧ (evict h ls).firstId = h.firstId + n ∧ (evict h ls).nextId = h.nextId := by
  induction ls with
  | nil => exact fun h => ⟨0, rfl, rfl, rfl⟩
  | cons l rest ih =>
    intro h
    rcases rest with _ | ⟨l', rest⟩
    · exact ⟨0, rfl, rfl, rfl⟩
    · simp only [evict]
      split
      · obtain ⟨n, hlines, hfirst, hnext⟩ := ih { h with bytes := h.bytes - l.len, firstId := h.firstId + 1 }
        refine ⟨n + 1, ?_, ?_, hnext⟩
        · rw [hlines, List.drop_succ_cons]
        · rw [hfirst]
          show h.firstId + 1 + n = h.firstId + (n + 1)
          omega
      · exact ⟨0, rfl, rfl, rfl⟩

theorem retains_push {log : List Text} (hr : h.Retains log) (line : Text) : (h.push line).Retains (log ++ [line]) := by
  obtain ⟨n, hlines, hfirst, hnext⟩ :=
    evict_drop (h.lines ++ [line]) { h with bytes := h.bytes + line.len, nextId := h.nextId + 1 }
  have hids := hr.wf.ids
  have hone := hr.wf.first
  have hcount := hr.count
  refine ⟨push_wf hr.wf line, ?_, ?_⟩
  · rw [push, hnext, List.length_append, List.length_singleton]
    show h.nextId + 1 = _
    omega
  · rw [push, hlines, hfirst, hr.lines]
    show (log.drop (h.firstId - 1) ++ [line]).drop n = (log ++ [line]).drop (h.firstId + n - 1)
    rw [← List.drop_append_of_le_length (by omega), List.drop_drop]
    congr 1
    omega

theorem retains_pushAll {log : List Text} (hr : h.Retains log) (lines : List Text) :
    (h.pushAll lines).Retains (log ++ lines) := by
  induction lines generalizing h log with
  | nil =>
    rw [List.append_nil]
    exact hr
  | cons line lines ih =>
    have := ih (retains_push hr line)
    rwa [List.append_assoc, List.singleton_append] at this

theorem Retains.newestId {log : List Text} (hr : h.Retains log) : h.newestId = log.length := by
  rw [HistoryRing.newestId, hr.count, Nat.add_sub_cancel]

/-- A page ends at the newest id it may have. -/
theorem range_lines {log : List Text} (hr : h.Retains log) (beforeLineId maximumLines maximumBytes : Nat) :
    (h.range beforeLineId maximumLines maximumBytes).lines = [] ∨
    ∃ s, s < h.upper beforeLineId ∧ h.upper beforeLineId ≤ log.length ∧
      (h.range beforeLineId maximumLines maximumBytes).firstLineId = s + 1 ∧
      (h.range beforeLineId maximumLines maximumBytes).lines = (log.take (h.upper beforeLineId)).drop s := by
  have hle : h.upper beforeLineId ≤ log.length := by
    rw [← hr.newestId]
    unfold upper
    split <;> omega
  rcases range_eq hr.wf beforeLineId maximumLines maximumBytes with ⟨_, evicted, hempty⟩ | ⟨hne, page, hlarge, hpage⟩
  · exact .inl (by rw [hempty])
  · refine .inr ⟨h.upper beforeLineId - page.length, ?_, hle, ?_, ?_⟩
    all_goals
      have hlen := hlarge.suffix.length_le
      have hpos : 1 ≤ page.length := List.length_pos_of_ne_nil hlarge.nonempty
      rw [below_length hr.wf] at hlen
      have hfirst := hr.wf.first
    · omega
    · rw [hpage]
      show h.upper beforeLineId + 1 - page.length = _
      omega
    · rw [hpage]
      show page = _
      have hbelow : h.below beforeLineId = (log.take (h.upper beforeLineId)).drop (h.firstId - 1) := by
        rw [below, hr.lines, List.take_drop]
        congr 2
        omega
      have hsuffix := hlarge.suffix
      rw [hbelow] at hsuffix
      have heq := List.suffix_iff_eq_drop.mp hsuffix
      rw [List.length_drop, List.length_take, Nat.min_eq_left hle, List.drop_drop] at heq
      rw [heq]
      simp only [List.length_drop, List.length_take, Nat.min_eq_left hle]
      congr 1
      omega

end Holdfast.Terminal.HistoryRing

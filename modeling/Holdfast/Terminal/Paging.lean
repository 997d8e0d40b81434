/-
  Holdfast.Terminal.Paging — the scrollback ring from end to end
  (`crates/terminal-model/src/history.rs`).

  `push?` and `range?` are the source's loops over ids, with every subtraction and every
  index checked and the line count cast to 32 bits as there; they never fail, and give what
  `push` and `range` give.

  Proved:
  - `pushAll?_eq`, `range?_eq`: nothing underflows and no cast loses anything.
  - `push_bounded`: both bounds hold, or one line is left.
  - `pages_tile`: reading backwards page by page gives every retained line once.
  - `history_ring`: all of it, for any bounds and any pushes.
-/

import Holdfast.Terminal.Pages

namespace Holdfast.Terminal.HistoryRing

/-! ## Checked arithmetic -/

def sub? (a b : Nat) : Option Nat := if b ≤ a then some (a - b) else none

theorem sub?_eq {a b : Nat} (h : b ≤ a) : sub? a b = some (a - b) := if_pos h

/-- The eviction loop with its subtraction checked. -/
def evict? (h : HistoryRing) : List Text → Option HistoryRing
  | [] => some { h with lines := [] }
  | [l] => some { h with lines := [l] }
  | l :: rest =>
    if (l :: rest).length > h.maxLines ∨ h.bytes > h.maxBytes then
      (sub? h.bytes l.len).bind fun bytes => evict? { h with bytes := bytes, firstId := h.firstId + 1 } rest
    else some { h with lines := l :: rest }

def push? (h : HistoryRing) (line : Text) : Option HistoryRing :=
  evict? { h with bytes := h.bytes + line.len, nextId := h.nextId + 1 } (h.lines ++ [line])

def pushAll? (h : HistoryRing) (lines : List Text) : Option HistoryRing := lines.foldlM push? h

/-- The loop of `range`, at the line `id`. -/
def collect? (h : HistoryRing) (maximumLines maximumBytes : UInt32) : (id : Nat) → List Text → Nat → Option (List Text)
  | 0, _, _ => none
  | id + 1, collected, bytes => do
    let i ← sub? (id + 1) h.firstId
    let line ← h.lines[i]?
    if !collected.isEmpty && (UInt32.ofNat collected.length ≥ maximumLines || bytes + line.len > maximumBytes.toNat) then
      some collected
    else if id + 1 = h.firstId || UInt32.ofNat (line :: collected).length ≥ maximumLines then some (line :: collected)
    else collect? h maximumLines maximumBytes id (line :: collected) (bytes + line.len)

def upper? (h : HistoryRing) (beforeLineId : Nat) : Option Nat :=
  (sub? h.nextId 1).bind fun newest => if beforeLineId = 0 then some newest else (sub? beforeLineId 1).map (min · newest)

def range? (h : HistoryRing) (beforeLineId : Nat) (maximumLines maximumBytes : UInt32) : Option HistoryRange := do
  let newest ← sub? h.nextId 1
  let upper ← h.upper? beforeLineId
  if h.lines.isEmpty ∨ upper = 0 ∨ upper < h.firstId then
    return ⟨0, [], decide (upper ≠ 0 ∧ newest ≠ 0 ∧ upper < h.firstId)⟩
  else
    let collected ← collect? h maximumLines maximumBytes upper [] 0
    let firstLineId ← sub? (upper + 1) collected.length
    return ⟨firstLineId, collected, decide (firstLineId = h.firstId ∧ h.firstId > 1)⟩

theorem evict?_eq (ls : List Text) : ∀ h : HistoryRing, h.bytes = (ls.map Text.len).sum → evict? h ls = some (evict h ls) := by
  induction ls with
  | nil => exact fun _ _ => rfl
  | cons l rest ih =>
    intro h hbytes
    rcases rest with _ | ⟨l', rest⟩
    · rfl
    · simp only [evict?, evict]
      split
      · rw [List.map_cons, List.sum_cons] at hbytes
        rw [sub?_eq (by omega), Option.bind_some]
        apply ih
        show h.bytes - l.len = _
        omega
      · rfl

theorem push?_eq {h : HistoryRing} (hw : h.Wf) (line : Text) : h.push? line = some (h.push line) := by
  apply evict?_eq
  have := hw.bytes
  simp only [List.map_append, List.map_cons, List.map_nil, List.sum_append, List.sum_cons, List.sum_nil]
  omega

theorem pushAll?_eq {h : HistoryRing} (hw : h.Wf) (lines : List Text) : h.pushAll? lines = some (h.pushAll lines) := by
  induction lines generalizing h with
  | nil => rfl
  | cons line lines ih =>
    rw [pushAll?, List.foldlM_cons, push?_eq hw]
    exact ih (push_wf hw line)

/-- The cast of a count that fits. -/
theorem cast_ge {n : Nat} {maximumLines : UInt32} (h : n < 4294967296) :
    UInt32.ofNat n ≥ maximumLines ↔ n ≥ maximumLines.toNat := by
  rw [ge_iff_le, UInt32.le_iff_toNat_le, UInt32.toNat_ofNat_of_lt' h]

/-- The loop over ids walks the retained lines backwards. -/
theorem collect?_eq {h : HistoryRing} (hw : h.Wf) (maximumLines maximumBytes : UInt32) :
    ∀ (id : Nat) (got : List Text) (bytes : Nat),
    h.firstId ≤ id → id < h.nextId → got.length < max 1 maximumLines.toNat →
    collect? h maximumLines maximumBytes id got bytes =
      some (collect maximumLines.toNat maximumBytes.toNat (h.lines.take (id + 1 - h.firstId)).reverse got bytes) := by
  have hids := hw.ids
  have hfirst := hw.first
  have hcast := maximumLines.toNat_lt
  intro id
  induction id with
  | zero => intro _ _ hlow _ _; omega
  | succ id ih =>
    intro got bytes hlow hhigh hgot
    have hlt : id + 1 - h.firstId < h.lines.length := by omega
    have htake : (h.lines.take (id + 1 + 1 - h.firstId)).reverse =
        h.lines[id + 1 - h.firstId] :: (h.lines.take (id + 1 - h.firstId)).reverse := by
      rw [Nat.succ_sub hlow, ← List.take_concat_get' _ _ hlt, List.reverse_append, List.reverse_singleton, List.singleton_append]
    rw [htake, collect?, collect, sub?_eq hlow, Option.bind_eq_bind, Option.bind_some, List.getElem?_eq_getElem hlt,
      Option.bind_eq_bind, Option.bind_some]
    simp only [cast_ge (n := got.length) (by omega), List.length_cons, cast_ge (n := got.length + 1) (by omega),
      ge_iff_le, gt_iff_lt]
    split
    · rfl
    · by_cases hstop : got.length + 1 ≥ maximumLines.toNat
      · rw [if_pos (by simp [hstop]), if_pos hstop]
      · by_cases hlast : id + 1 = h.firstId
        · have hnone : h.lines.take (id + 1 - h.firstId) = [] := by rw [show id + 1 - h.firstId = 0 by omega, List.take_zero]
          rw [if_pos (by simp [hlast]), if_neg hstop, hnone]
          rfl
        · rw [if_neg (by simpa [hlast] using hstop), if_neg hstop]
          exact ih _ _ (by omega) (by omega) (by simp only [List.length_cons]; omega)

theorem range?_eq {h : HistoryRing} (hw : h.Wf) (beforeLineId : Nat) (maximumLines maximumBytes : UInt32) :
    h.range? beforeLineId maximumLines maximumBytes = some (h.range beforeLineId maximumLines.toNat maximumBytes.toNat) := by
  have hids := hw.ids
  have hfirst := hw.first
  have hupper : h.upper? beforeLineId = some (h.upper beforeLineId) := by
    unfold upper? upper newestId
    rw [sub?_eq (by omega), Option.bind_some]
    split
    · rfl
    · rw [sub?_eq (by omega)]
      rfl
  have hle : h.upper beforeLineId < h.nextId := by
    unfold upper newestId
    split <;> omega
  rw [range?, sub?_eq (by omega), Option.bind_eq_bind, Option.bind_some, hupper, Option.bind_eq_bind, Option.bind_some]
  change _ = some (if h.lines.isEmpty ∨ h.upper beforeLineId = 0 ∨ h.upper beforeLineId < h.firstId then _ else _)
  by_cases hnone : h.lines.isEmpty ∨ h.upper beforeLineId = 0 ∨ h.upper beforeLineId < h.firstId
  · rw [if_pos hnone, if_pos hnone]
    rfl
  · rw [if_neg hnone, if_neg hnone, collect?_eq hw maximumLines maximumBytes _ _ _ (by omega) hle (by simp), Option.bind_some]
    have hshort : (collect maximumLines.toNat maximumBytes.toNat
        (h.lines.take (h.upper beforeLineId + 1 - h.firstId)).reverse [] 0).length ≤ h.upper beforeLineId + 1 := by
      have hne : h.lines.take (h.upper beforeLineId + 1 - h.firstId) ≠ [] := by
        intro hnil
        have := congrArg List.length hnil
        rw [List.length_take, List.length_nil] at this
        omega
      have := (@collect_largest maximumLines.toNat maximumBytes.toNat _ hne).suffix.length_le
      rw [List.length_take] at this
      omega
    rw [sub?_eq hshort]
    rfl

/-! ## Bounds -/

/-- Within both bounds, or down to one line. -/
def Bounded (h : HistoryRing) : Prop := h.lines.length = 1 ∨ h.lines.length ≤ h.maxLines ∧ h.bytes ≤ h.maxBytes

@[simp] theorem evict_maxLines (ls : List Text) (h : HistoryRing) : (evict h ls).maxLines = h.maxLines := by
  induction h, ls using evict.induct with
  | case1 h => rfl
  | case2 h l => rfl
  | case3 h l rest hne hover ih => rw [evict, if_pos hover, ih]; simpa using hne
  | case4 h l rest hne hunder => rw [evict, if_neg hunder]; simpa using hne

@[simp] theorem evict_maxBytes (ls : List Text) (h : HistoryRing) : (evict h ls).maxBytes = h.maxBytes := by
  induction h, ls using evict.induct with
  | case1 h => rfl
  | case2 h l => rfl
  | case3 h l rest hne hover ih => rw [evict, if_pos hover, ih]; simpa using hne
  | case4 h l rest hne hunder => rw [evict, if_neg hunder]; simpa using hne

theorem evict_bounded (ls : List Text) (h : HistoryRing) (hne : ls ≠ []) : (evict h ls).Bounded := by
  induction h, ls using evict.induct with
  | case1 h => exact absurd rfl hne
  | case2 h l => exact .inl rfl
  | case3 h l rest hrest hover ih =>
    rw [evict, if_pos hover]
    · exact ih (by simpa using hrest)
    · simpa using hrest
  | case4 h l rest hrest hunder =>
    rw [evict, if_neg hunder]
    · rw [not_or, gt_iff_lt, gt_iff_lt, Nat.not_lt, Nat.not_lt] at hunder
      exact .inr hunder
    · simpa using hrest

@[simp] theorem push_maxLines (h : HistoryRing) (line : Text) : (h.push line).maxLines = h.maxLines := evict_maxLines _ _

@[simp] theorem push_maxBytes (h : HistoryRing) (line : Text) : (h.push line).maxBytes = h.maxBytes := evict_maxBytes _ _

theorem push_bounded (h : HistoryRing) (line : Text) : (h.push line).Bounded := evict_bounded _ _ (by simp)

theorem pushAll_limits (h : HistoryRing) (lines : List Text) :
    (h.pushAll lines).maxLines = h.maxLines ∧ (h.pushAll lines).maxBytes = h.maxBytes := by
  induction lines generalizing h with
  | nil => exact ⟨rfl, rfl⟩
  | cons line lines ih => simpa [pushAll] using ih (h.push line)

theorem pushAll_bounded {h : HistoryRing} (hb : h.Bounded) (lines : List Text) : (h.pushAll lines).Bounded := by
  induction lines generalizing h with
  | nil => exact hb
  | cons line lines ih => exact ih (push_bounded h line)

/-! ## Reading backwards -/

/-- The line just below the id was there and is gone. -/
def EvictedBelow (h : HistoryRing) (id : Nat) : Prop := 1 ≤ id - 1 ∧ id - 1 < h.firstId

/-- The answers to a request from `before`, then from the first id of each answer, up to
    the first that is empty. -/
def pages (h : HistoryRing) (maximumLines maximumBytes : Nat) : (calls : Nat) → (before : Nat) → List HistoryRange
  | 0, _ => []
  | calls + 1, before =>
    let answer := h.range before maximumLines maximumBytes
    if answer.lines.isEmpty then [answer] else answer :: h.pages maximumLines maximumBytes calls answer.firstLineId

/-- A page: its lines have the ids from `firstLineId` on, both limits hold but for a line
    that is too long by itself, and the flag is set if the line below is gone. -/
structure Page (h : HistoryRing) (log : List Text) (maximumLines maximumBytes : Nat) (answer : HistoryRange) : Prop where
  ids : h.firstId ≤ answer.firstLineId ∧ answer.lines = (log.drop (answer.firstLineId - 1)).take answer.lines.length
  lines : answer.lines ≠ [] ∧ answer.lines.length ≤ maximumLines
  bytes : textLen answer.lines ≤ maximumBytes ∨ answer.lines.length = 1
  truncated : answer.truncatedByEviction = true ↔ h.EvictedBelow answer.firstLineId

section

variable {h : HistoryRing} {log : List Text} {maximumLines maximumBytes : Nat}

theorem upper_bounds (hw : h.Wf) {before : Nat} (hbefore : before = 0 ∨ h.firstId ≤ before) :
    h.firstId - 1 ≤ h.upper before ∧ h.upper before ≤ h.newestId := by
  have hids := hw.ids
  unfold upper
  split
  · unfold newestId
    omega
  · unfold newestId at *
    omega

theorem upper_of_le {id : Nat} (hone : 1 ≤ id) (hle : id - 1 ≤ h.newestId) : h.upper id = id - 1 := by
  unfold upper
  rw [if_neg (by omega), Nat.min_eq_left hle]

/-- The answer when nothing is left. -/
theorem range_none (hw : h.Wf) {before : Nat} (hbefore : before = 0 ∨ h.firstId ≤ before) (hnone : h.below before = []) :
    (h.range before maximumLines maximumBytes).lines = [] ∧
      ((h.range before maximumLines maximumBytes).truncatedByEviction = true ↔ h.EvictedBelow h.firstId) := by
  have hfirst := hw.first
  obtain ⟨hlow, hhigh⟩ := upper_bounds hw hbefore
  have hlen := @below_length h before hw
  rw [hnone, List.length_nil] at hlen
  have hrange : h.range before maximumLines maximumBytes =
      ⟨0, [], decide (h.upper before ≠ 0 ∧ h.newestId ≠ 0 ∧ h.upper before < h.firstId)⟩ := by
    refine if_pos (.inr (.inr ?_))
    show h.upper before < h.firstId
    omega
  rw [hrange]
  refine ⟨rfl, ?_⟩
  simp only [decide_eq_true_eq, EvictedBelow]
  omega

/-- A page is what is just below the request, and the rest is below the page. -/
theorem range_page (hr : h.Retains log) (hlines : 0 < maximumLines) {before : Nat} (hsome : h.below before ≠ []) :
    Page h log maximumLines maximumBytes (h.range before maximumLines maximumBytes) ∧
      h.below before = h.below (h.range before maximumLines maximumBytes).firstLineId ++
        (h.range before maximumLines maximumBytes).lines := by
  have hfirst := hr.wf.first
  have hlen := @below_length h before hr.wf
  have hpos := List.length_pos_of_ne_nil hsome
  rcases range_eq hr.wf before maximumLines maximumBytes with ⟨hnone, -⟩ | ⟨-, page, hlarge, hpage⟩
  · exact absurd hnone hsome
  have hshort := hlarge.suffix.length_le
  have hlong := List.length_pos_of_ne_nil hlarge.nonempty
  have hhigh : h.upper before ≤ h.newestId := by
    unfold upper
    split <;> omega
  refine ⟨⟨?_, ?_, ?_, ?_⟩, ?_⟩
  · rcases range_lines hr before maximumLines maximumBytes with hnil | ⟨s, hs, hlog, hid, hline⟩
    · rw [hpage] at hnil
      exact absurd hnil hlarge.nonempty
    · refine ⟨?_, ?_⟩
      · rw [hpage]
        show h.firstId ≤ h.upper before + 1 - page.length
        omega
      · rw [hid, hline, Nat.add_sub_cancel, List.drop_take, List.length_take, List.length_drop, Nat.min_eq_left (by omega)]
  · rw [hpage]
    refine ⟨hlarge.nonempty, ?_⟩
    rcases hlarge.within with hone | ⟨hle, -⟩
    · exact hone ▸ hlines
    · exact hle
  · rw [hpage]
    exact hlarge.within.symm.imp_left And.right
  · rw [hpage]
    simp only [pageOf, decide_eq_true_eq, EvictedBelow]
    omega
  · rw [hpage]
    show h.below before = h.below (h.upper before + 1 - page.length) ++ page
    have hnext : h.upper (h.upper before + 1 - page.length) = h.upper before - page.length := by
      rw [upper_of_le (by omega) (by omega)]
      omega
    have hrest : h.below (h.upper before + 1 - page.length) = (h.below before).take ((h.below before).length - page.length) := by
      rw [hlen]
      unfold below
      rw [hnext, List.take_take]
      congr 1
      omega
    have hdrop := List.suffix_iff_eq_drop.mp hlarge.suffix
    rw [hrest]
    calc h.below before
        = (h.below before).take ((h.below before).length - page.length) ++
            (h.below before).drop ((h.below before).length - page.length) := (List.take_append_drop ..).symm
      _ = (h.below before).take ((h.below before).length - page.length) ++ page := by rw [← hdrop]

/-- Enough calls read every line below the request, and the last answer is empty. -/
theorem pages_tile (hr : h.Retains log) (hlines : 0 < maximumLines) : ∀ (calls before : Nat),
    (h.below before).length < calls → (before = 0 ∨ h.firstId ≤ before) →
    ∃ answers last, h.pages maximumLines maximumBytes calls before = answers ++ [last] ∧
      (last.lines = [] ∧ (last.truncatedByEviction = true ↔ h.EvictedBelow h.firstId)) ∧
      (answers.reverse.flatMap (·.lines)) = h.below before ∧
      ∀ answer ∈ answers, Page h log maximumLines maximumBytes answer := by
  intro calls
  induction calls with
  | zero => intro before hlen; omega
  | succ calls ih =>
    intro before hlen hbefore
    by_cases hnone : h.below before = []
    · obtain ⟨hempty, htruncated⟩ := @range_none h maximumLines maximumBytes hr.wf before hbefore hnone
      refine ⟨[], _, ?_, ⟨hempty, htruncated⟩, hnone.symm, by simp⟩
      rw [pages, hempty]
      rfl
    · obtain ⟨hpage, hsplit⟩ := @range_page h log maximumLines maximumBytes hr hlines before hnone
      have hlong := List.length_pos_of_ne_nil hpage.lines.1
      have hshort := congrArg List.length hsplit
      rw [List.length_append] at hshort
      obtain ⟨answers, last, hpages, hlast, htile, hall⟩ := ih (h.range before maximumLines maximumBytes).firstLineId (by omega)
        (.inr hpage.ids.1)
      refine ⟨h.range before maximumLines maximumBytes :: answers, last, ?_, hlast, ?_, ?_⟩
      · rw [pages, List.cons_append, ← hpages]
        exact if_neg (by simpa using hpage.lines.1)
      · rw [List.reverse_cons, List.flatMap_append, htile, List.flatMap_singleton, ← hsplit]
      · intro answer hmem
        rcases List.mem_cons.mp hmem with rfl | hmem
        · exact hpage
        · exact hall answer hmem

theorem below_zero (hw : h.Wf) : h.below 0 = h.lines := by
  have hids := hw.ids
  unfold below upper newestId
  rw [if_pos rfl, List.take_of_length_le (by have := hw.first; omega)]

/-- The line that has the id. -/
def lineOf (h : HistoryRing) (id : Nat) : Option Text := if h.firstId ≤ id then h.lines[id - h.firstId]? else none

theorem Retains.lineOf (hr : h.Retains log) {id : Nat} {line : Text} (hline : h.lineOf id = some line) :
    1 ≤ id ∧ log[id - 1]? = some line := by
  have hfirst := hr.wf.first
  unfold HistoryRing.lineOf at hline
  split at hline
  · rename_i hlow
    rw [hr.lines, List.getElem?_drop] at hline
    refine ⟨by omega, ?_⟩
    rw [← hline]
    congr 1
    omega
  · cases hline

end

/-- For any bounds and any pushes: no arithmetic fails; the ids are contiguous and each is
    for good that of the line that was pushed under it; the newest lines are retained,
    within both bounds or down to one; and reading backwards from the newest, page by page
    until an answer is empty, gives each retained line once. -/
theorem history_ring (maxLines maxBytes : Nat) (log : List Text) :
    let h := (new maxLines maxBytes).pushAll log
    (pushAll? (new maxLines maxBytes) log = some h ∧ h.nextId = h.firstId + h.lines.length ∧ h.bytes = textLen h.lines ∧
      h.lines <:+ log ∧ (h.lines.length = 1 ∨ h.lines.length ≤ max maxLines 1 ∧ h.bytes ≤ max maxBytes 1) ∧
      h.nextId = log.length + 1 ∧ ∀ id line, h.lineOf id = some line → 1 ≤ id ∧ log[id - 1]? = some line) ∧
    ∀ maximumLines maximumBytes : UInt32,
      (∀ before, h.range? before maximumLines maximumBytes = some (h.range before maximumLines.toNat maximumBytes.toNat)) ∧
      (0 < maximumLines → ∀ calls, h.lines.length < calls →
        ∃ answers last, h.pages maximumLines.toNat maximumBytes.toNat calls 0 = answers ++ [last] ∧
          (last.lines = [] ∧ (last.truncatedByEviction = true ↔ h.EvictedBelow h.firstId)) ∧
          (answers.reverse.flatMap (·.lines)) = h.lines ∧
          ∀ answer ∈ answers, Page h log maximumLines.toNat maximumBytes.toNat answer) := by
  intro h
  have hr : h.Retains log := by
    have := retains_pushAll (retains_new maxLines maxBytes) log
    rwa [List.nil_append] at this
  have hbounded : h.Bounded := pushAll_bounded (.inr ⟨Nat.zero_le _, Nat.zero_le _⟩) log
  obtain ⟨hmaxLines, hmaxBytes⟩ := pushAll_limits (new maxLines maxBytes) log
  refine ⟨⟨pushAll?_eq (new_wf _ _) log, hr.wf.ids, hr.wf.bytes, ?_, ?_, hr.count, fun id line hline => hr.lineOf hline⟩, ?_⟩
  · rw [hr.lines]
    exact List.drop_suffix _ _
  · unfold Bounded at hbounded
    rwa [hmaxLines, hmaxBytes] at hbounded
  · intro maximumLines maximumBytes
    refine ⟨fun before => range?_eq hr.wf before maximumLines maximumBytes, fun hpos calls hcalls => ?_⟩
    have hpos : 0 < maximumLines.toNat := by simpa [UInt32.lt_iff_toNat_lt] using hpos
    have htile := @pages_tile h log maximumLines.toNat maximumBytes.toNat hr hpos calls 0 (by rwa [below_zero hr.wf]) (.inl rfl)
    rwa [below_zero hr.wf] at htile

/-- Four lines in a ring of three, read two at a time: the first was evicted. -/
theorem history_ring_four :
    let log : List Text := ["one".toList, "two".toList, "three".toList, "four".toList]
    let h := (new 3 100).pushAll log
    ∃ answers last, h.pages (2 : UInt32).toNat (100 : UInt32).toNat 4 0 = answers ++ [last] ∧
      (last.lines = [] ∧ (last.truncatedByEviction = true ↔ h.EvictedBelow h.firstId)) ∧
      (answers.reverse.flatMap (·.lines)) = h.lines ∧
      ∀ answer ∈ answers, Page h log (2 : UInt32).toNat (100 : UInt32).toNat answer :=
  ((history_ring 3 100 ["one".toList, "two".toList, "three".toList, "four".toList]).2 2 100).2 (by decide) 4 (by decide)

end Holdfast.Terminal.HistoryRing

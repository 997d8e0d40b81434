/-
  Holdfast.Terminal.History — the bounded scrollback ring with stable line ids
  (`crates/terminal-model/src/history.rs`).

  Ids are 1-based and 0 means "none". The counters are naturals: the source's `u64` and
  `usize` fields are only added to, and the two subtractions are shown not to underflow
  by the ring's own invariant (`HistoryRing.Wf`), which `push` keeps (`push_wf`).
-/

import Holdfast.Terminal.Utf8

namespace Holdfast.Terminal

structure HistoryRing where
  lines : List Text
  /-- Id of the first retained line; meaningful only when `lines` is non-empty. -/
  firstId : Nat
  /-- Id the next committed line will receive. -/
  nextId : Nat
  bytes : Nat
  maxLines : Nat
  maxBytes : Nat
  deriving DecidableEq, Repr

structure HistoryRange where
  firstLineId : Nat
  lines : List Text
  truncatedByEviction : Bool
  deriving DecidableEq, Repr

namespace HistoryRing

def new (maxLines maxBytes : Nat) : HistoryRing := ⟨[], 1, 1, 0, max maxLines 1, max maxBytes 1⟩

/-- The eviction loop of `push`, over the retained lines: it stops within both bounds, or
    with one line left. -/
def evict (h : HistoryRing) : List Text → HistoryRing
  | [] => { h with lines := [] }
  | [l] => { h with lines := [l] }
  | l :: rest =>
    if (l :: rest).length > h.maxLines ∨ h.bytes > h.maxBytes then
      evict { h with bytes := h.bytes - l.len, firstId := h.firstId + 1 } rest
    else { h with lines := l :: rest }

def push (h : HistoryRing) (line : Text) : HistoryRing :=
  evict { h with bytes := h.bytes + line.len, nextId := h.nextId + 1 } (h.lines ++ [line])

def pushAll (h : HistoryRing) (lines : List Text) : HistoryRing := lines.foldl push h

def oldestId (h : HistoryRing) : Nat := if h.lines.isEmpty then 0 else h.firstId

def newestId (h : HistoryRing) : Nat := h.nextId - 1

/-- The collecting loop of `range`, over the retained lines at or below `upper`, newest
    first; `got` is what was collected so far, oldest first, and `bytes` its size. -/
def collect (maximumLines maximumBytes : Nat) : List Text → List Text → Nat → List Text
  | [], got, _ => got
  | line :: older, got, bytes =>
    if !got.isEmpty && (decide (got.length ≥ maximumLines) || decide (bytes + line.len > maximumBytes)) then got
    else if (line :: got).length ≥ maximumLines then line :: got
    else collect maximumLines maximumBytes older (line :: got) (bytes + line.len)

/-- Lines strictly before `beforeLineId` (0 = from the newest), walking backwards until
    either limit. -/
def range (h : HistoryRing) (beforeLineId maximumLines maximumBytes : Nat) : HistoryRange :=
  let newest := h.newestId
  let upper := if beforeLineId = 0 then newest else min (beforeLineId - 1) newest
  if h.lines.isEmpty ∨ upper = 0 ∨ upper < h.firstId then
    ⟨0, [], decide (upper ≠ 0 ∧ h.newestId ≠ 0 ∧ upper < h.firstId)⟩
  else
    let collected := collect maximumLines maximumBytes (h.lines.take (upper + 1 - h.firstId)).reverse [] 0
    let firstLineId := upper + 1 - collected.length
    ⟨firstLineId, collected, decide (firstLineId = h.firstId ∧ h.firstId > 1)⟩

/-! ## The ring's invariant -/

/-- Ids are contiguous and the byte count is the retained lines' size. -/
structure Wf (h : HistoryRing) : Prop where
  ids : h.nextId = h.firstId + h.lines.length
  first : 1 ≤ h.firstId
  bytes : h.bytes = (h.lines.map Text.len).sum

theorem new_wf (maxLines maxBytes : Nat) : (new maxLines maxBytes).Wf := ⟨rfl, Nat.le_refl _, rfl⟩

theorem evict_wf (ls : List Text) : ∀ h : HistoryRing, h.nextId = h.firstId + ls.length → 1 ≤ h.firstId →
    h.bytes = (ls.map Text.len).sum → (evict h ls).Wf := by
  induction ls with
  | nil => intro h h1 h2 h3; exact ⟨h1, h2, h3⟩
  | cons l rest ih =>
    intro h h1 h2 h3
    rcases rest with _ | ⟨l', rest⟩
    · exact ⟨h1, h2, h3⟩
    · simp only [evict]
      split
      · refine ih _ ?_ (by simp) ?_
        · simp only [List.length_cons] at h1 ⊢; omega
        · -- the evicted line's length was part of the sum, so the subtraction is exact
          simp only [List.map_cons, List.sum_cons] at h3 ⊢; omega
      · exact ⟨h1, h2, h3⟩

/-- `push` keeps the invariant; in particular `bytes -= evicted.len()` never underflows. -/
theorem push_wf {h : HistoryRing} (hw : h.Wf) (line : Text) : (h.push line).Wf := by
  refine evict_wf _ _ ?_ hw.first ?_
  · simp only [List.length_append, List.length_singleton]; have := hw.ids; omega
  · have := hw.bytes
    simp only [List.map_append, List.map_cons, List.map_nil, List.sum_append, List.sum_cons, List.sum_nil]; omega

theorem pushAll_wf {h : HistoryRing} (hw : h.Wf) (lines : List Text) : (h.pushAll lines).Wf := by
  induction lines generalizing h with
  | nil => exact hw
  | cons l ls ih => exact ih (push_wf hw l)

end HistoryRing

end Holdfast.Terminal

/-
  Holdfast.Terminal.Widths — the width tables of server and clients
  (`tools/xterm-width-tables/src/main.rs`: the ranges and what the emitted code looks up).

  One authority assigns every code point a width. Its runs of width 0 and 2 are written into
  `widths.rs`, searched by `binary_search_by`, and into `server-width.ts`, where the basic
  plane fills a table and the rest is searched by `bisearch`.

  Proved (`widths_agree`): the ranges are the authority's maximal runs, in order, and both
  lookups give its width for every printable code point.
-/

import Holdfast.Base.Runs
import Mathlib.Data.List.Basic

namespace Holdfast.Terminal.Widths

open Holdfast.Base Runs

/-- First code point the dump covers. -/
def dumpLo : Nat := 0x20

/-- One cell width per code point, from `dumpLo` on. -/
structure Authority where
  widths : Array (Fin 3)
  complete : widths.size = 0x110000 - dumpLo
  ascii : ∀ i < 0x7F - dumpLo, widths[i]? = some 1

/-- Only code points are asked for, so there always is a width. -/
def Authority.widthOf (a : Authority) (cp : Nat) : Nat := if cp < dumpLo then 1 else (a.widths.getD (cp - dumpLo) 0).val

/-- Maximal runs in `lo..=hi` whose width class is `width`. -/
def Authority.ranges (a : Authority) (lo hi width : Nat) : List Range := Runs.ranges (fun cp => a.widthOf cp == width) lo hi

structure Tables where
  bmpZero : List Range
  bmpWide : List Range
  highZero : List Range
  highWide : List Range
  deriving DecidableEq, Repr

/-- `outputs`. -/
def Authority.tables (a : Authority) : Tables :=
  ⟨a.ranges 0xA0 0xFFFF 0, a.ranges 0xA0 0xFFFF 2, a.ranges 0x10000 0x10FFFF 0, a.ranges 0x10000 0x10FFFF 2⟩

/-! ## `widths.rs` -/

def compareTo (cp : Nat) (r : Range) : Ordering := if cp < r.1 then .gt else if cp > r.2 then .lt else .eq

def bisearchRs (cp : Nat) (ranges : List Range) : Bool := searchBy (compareTo cp) ranges

def widthOf (t : Tables) (cp : Nat) : Nat :=
  if cp < 0xA0 then 1
  else if cp ≤ 0xFFFF then
    if bisearchRs cp t.bmpZero then 0
    else if bisearchRs cp t.bmpWide then 2
    else 1
  else if bisearchRs cp t.highZero then 0
  else if bisearchRs cp t.highWide then 2
  else 1

/-! ## `server-width.ts` -/

/-- `t.fill(value, start, end)`. -/
def fill (t : Nat → Nat) (value start stop : Nat) : Nat → Nat := fun i => if start ≤ i ∧ i < stop then value else t i

/-- All of `ranges`. -/
def fillRanges (t : Nat → Nat) (value : Nat) (ranges : List Range) : Nat → Nat :=
  ranges.foldl (fun t r => fill t value r.1 (r.2 + 1)) t

def buildTable (t : Tables) : Nat → Nat :=
  fillRanges (fillRanges (fill (fill (fun _ => 1) 0 0 32) 0 0x7F 0xA0) 0 t.bmpZero) 2 t.bmpWide

/-- `ranges[i]`. -/
def at? (ranges : List Range) (i : Int) : Option Range := if i < 0 then none else ranges[i.toNat]?

/-- The loop of `bisearch`. -/
def bisearchLoop (cp : Nat) (ranges : List Range) (lo hi : Int) : Bool :=
  if lo ≤ hi then
    match at? ranges ((lo + hi) / 2) with
    | none => false
    | some range =>
      if cp > range.2 then bisearchLoop cp ranges ((lo + hi) / 2 + 1) hi
      else if cp < range.1 then bisearchLoop cp ranges lo ((lo + hi) / 2 - 1)
      else true
  else false
termination_by (hi + 1 - lo).toNat
decreasing_by all_goals omega

def bisearchTs (cp : Nat) (ranges : List Range) : Bool :=
  match ranges.head?, ranges.getLast? with
  | some first, some last => if cp < first.1 ∨ cp > last.2 then false else bisearchLoop cp ranges 0 (ranges.length - 1)
  | _, _ => false

def wcwidth (t : Tables) (num : Nat) : Nat :=
  if num < 32 then 0
  else if num < 127 then 1
  else if num < 65536 then buildTable t num
  else if bisearchTs num t.highZero then 0
  else if bisearchTs num t.highWide then 2
  else 1

/-! ## Both searches -/

section

variable {p : Nat → Bool} {lo stop : Nat} {l : List Range}

theorem compareTo_eq (cp : Nat) (r : Range) : compareTo cp r = .eq ↔ r.Has cp := by
  unfold compareTo Range.Has
  split
  · exact iff_of_false nofun (by omega)
  · split
    · exact iff_of_false nofun (by omega)
    · exact iff_of_true rfl (by omega)

theorem splits_compareTo (h : IsRuns p lo stop l) (cp : Nat) : Splits (compareTo cp) l := by
  refine List.Pairwise.imp_of_mem (fun {r s} hr _ happart hcmp => ?_) h.apart
  have hwithin := h.within r hr
  have hle : cp ≤ r.2 := by
    by_contra hgt
    refine hcmp ?_
    unfold compareTo
    rw [if_neg (by omega), if_pos (by omega)]
  unfold compareTo
  rw [if_pos (by omega)]

theorem bisearchRs_iff (h : IsRuns p lo stop l) (cp : Nat) : bisearchRs cp l = true ↔ ∃ r ∈ l, r.Has cp := by
  unfold bisearchRs
  rw [searchBy_iff (splits_compareTo h cp)]
  simp only [compareTo_eq]

theorem at_some {i : Int} {r : Range} (h : at? l i = some r) : 0 ≤ i ∧ i < l.length ∧ l[i.toNat]? = some r := by
  unfold at? at h
  split at h
  · cases h
  · obtain ⟨hlt, _⟩ := List.getElem?_eq_some_iff.mp h
    exact ⟨by omega, by omega, h⟩

theorem at_none {i : Int} (h : at? l i = none) (hlo : 0 ≤ i) (hhi : i < l.length) : False := by
  unfold at? at h
  rw [if_neg (by omega), List.getElem?_eq_none_iff] at h
  omega

/-- Of two ranges the later one starts past the end of the earlier one. -/
theorem at_apart (h : IsRuns p lo stop l) {i j : Int} {r s : Range} (hr : at? l i = some r)
    (hs : at? l j = some s) (hij : i < j) :
    r.2 + 1 < s.1 := by
  obtain ⟨hi, _, hri⟩ := at_some hr
  obtain ⟨hj, _, hsj⟩ := at_some hs
  obtain ⟨hilt, rfl⟩ := List.getElem?_eq_some_iff.mp hri
  obtain ⟨hjlt, rfl⟩ := List.getElem?_eq_some_iff.mp hsj
  exact List.pairwise_iff_getElem.mp h.apart i.toNat j.toNat hilt hjlt (by omega)

theorem at_within (h : IsRuns p lo stop l) {i : Int} {r : Range} (hr : at? l i = some r) : r.1 ≤ r.2 :=
  (h.within r (List.mem_of_getElem? (at_some hr).2.2)).2.1

/-- A range with the code point, if there is one, has its index between `lo` and `hi`. -/
theorem bisearchLoop_iff (h : IsRuns p lo stop l) (cp : Nat) (start last : Int) (hfrom : 0 ≤ start) (hto : last < l.length) :
    bisearchLoop cp l start last = true ↔ ∃ i r, start ≤ i ∧ i ≤ last ∧ at? l i = some r ∧ r.Has cp := by
  induction start, last using bisearchLoop.induct cp l with
  | case1 a b hle hnone => exact (at_none hnone (by omega) (by omega)).elim
  | case2 a b hle mid hmid hgt ih =>
    rw [bisearchLoop, if_pos hle, hmid]
    dsimp only
    rw [if_pos hgt, ih (by omega) hto]
    constructor
    · rintro ⟨i, r, hlo, hhi, hr, hhas⟩
      exact ⟨i, r, by omega, hhi, hr, hhas⟩
    · rintro ⟨i, r, hlo, hhi, hr, hhas⟩
      refine ⟨i, r, ?_, hhi, hr, hhas⟩
      -- ranges up to the middle end before the code point
      by_contra hbefore
      rcases Int.lt_or_eq_of_le (by omega : i ≤ (a + b) / 2) with hlt | rfl
      · have happart := at_apart h hr hmid hlt
        have hwithin := at_within h hmid
        unfold Range.Has at hhas
        omega
      · rw [hmid] at hr
        obtain rfl := Option.some.inj hr
        unfold Range.Has at hhas
        omega
  | case3 a b hle mid hmid hgt hlt ih =>
    rw [bisearchLoop, if_pos hle, hmid]
    dsimp only
    rw [if_neg hgt, if_pos hlt, ih hfrom (by omega)]
    constructor
    · rintro ⟨i, r, hlo, hhi, hr, hhas⟩
      exact ⟨i, r, hlo, by omega, hr, hhas⟩
    · rintro ⟨i, r, hlo, hhi, hr, hhas⟩
      refine ⟨i, r, hlo, ?_, hr, hhas⟩
      -- ranges from the middle on start after it
      by_contra hafter
      rcases Int.lt_or_eq_of_le (by omega : (a + b) / 2 ≤ i) with hlt' | rfl
      · have happart := at_apart h hmid hr hlt'
        unfold Range.Has at hhas
        omega
      · rw [hmid] at hr
        obtain rfl := Option.some.inj hr
        unfold Range.Has at hhas
        omega
  | case4 a b hle mid hmid hgt hlt =>
    rw [bisearchLoop, if_pos hle, hmid]
    dsimp only
    rw [if_neg hgt, if_neg hlt]
    exact iff_of_true rfl ⟨(a + b) / 2, mid, by omega, by omega, hmid, by unfold Range.Has; omega⟩
  | case5 a b hgt =>
    rw [bisearchLoop, if_neg hgt]
    refine iff_of_false Bool.false_ne_true ?_
    rintro ⟨i, _, hlo, hhi, _⟩
    omega

/-- Ranges lie between the start of the first and the end of the last. -/
theorem between_ends (h : IsRuns p lo stop l) {first last r : Range} (hfirst : l.head? = some first)
    (hlast : l.getLast? = some last)
    (hr : r ∈ l) : first.1 ≤ r.1 ∧ r.2 ≤ last.2 := by
  constructor
  · obtain ⟨tail, rfl⟩ := List.head?_eq_some_iff.mp hfirst
    rcases List.mem_cons.mp hr with rfl | hr'
    · exact Nat.le_refl _
    · have happart := (List.pairwise_cons.mp h.apart).1 r hr'
      have hwithin := h.within first List.mem_cons_self
      omega
  · obtain ⟨init, rfl⟩ := List.getLast?_eq_some_iff.mp hlast
    rcases List.mem_append.mp hr with hr' | hr'
    · have happart := (List.pairwise_append.mp h.apart).2.2 r hr' last List.mem_cons_self
      have hwithin := h.within last (List.mem_append_right _ List.mem_cons_self)
      omega
    · obtain rfl := List.mem_singleton.mp hr'
      exact Nat.le_refl _

theorem bisearchTs_iff (h : IsRuns p lo stop l) (cp : Nat) : bisearchTs cp l = true ↔ ∃ r ∈ l, r.Has cp := by
  unfold bisearchTs
  rcases hfirst : l.head? with _ | first
  · obtain rfl := List.head?_eq_none_iff.mp hfirst
    exact iff_of_false Bool.false_ne_true fun ⟨r, hr, _⟩ => absurd hr List.not_mem_nil
  rcases hlast : l.getLast? with _ | last
  · obtain rfl := List.getLast?_eq_none_iff.mp hlast
    cases hfirst
  dsimp only
  split
  · rename_i hout
    refine iff_of_false Bool.false_ne_true fun ⟨r, hr, hhas⟩ => ?_
    have hends := between_ends h hfirst hlast hr
    unfold Range.Has at hhas
    omega
  · rw [bisearchLoop_iff h cp 0 _ (Int.le_refl 0) (by omega)]
    constructor
    · rintro ⟨i, r, _, _, hr, hhas⟩
      exact ⟨r, List.mem_of_getElem? (at_some hr).2.2, hhas⟩
    · rintro ⟨r, hr, hhas⟩
      obtain ⟨i, hi⟩ := List.mem_iff_getElem?.mp hr
      obtain ⟨hlt, _⟩ := List.getElem?_eq_some_iff.mp hi
      have hat : at? l (i : Int) = some r := by
        unfold at?
        rw [if_neg (by omega), Int.toNat_natCast]
        exact hi
      exact ⟨i, r, by omega, by omega, hat, hhas⟩

end

/-! ## The filled table -/

theorem fillRanges_of_not (t : Nat → Nat) (value : Nat) (l : List Range) (cp : Nat) (h : ¬ ∃ r ∈ l, r.Has cp) :
    fillRanges t value l cp = t cp := by
  induction l generalizing t with
  | nil => rfl
  | cons r l ih =>
    have hrest : ¬ ∃ r ∈ l, r.Has cp := fun ⟨s, hs, hhas⟩ => h ⟨s, List.mem_cons_of_mem _ hs, hhas⟩
    have hr : ¬ r.Has cp := fun hhas => h ⟨r, List.mem_cons_self, hhas⟩
    unfold Range.Has at hr
    refine Eq.trans (ih (fill t value r.1 (r.2 + 1)) hrest) ?_
    unfold fill
    rw [if_neg (by omega)]

theorem fillRanges_of_has (t : Nat → Nat) (value : Nat) (l : List Range) (cp : Nat) (h : ∃ r ∈ l, r.Has cp) :
    fillRanges t value l cp = value := by
  induction l generalizing t with
  | nil =>
    obtain ⟨r, hr, _⟩ := h
    cases hr
  | cons r l ih =>
    by_cases hrest : ∃ r ∈ l, r.Has cp
    · exact ih (fill t value r.1 (r.2 + 1)) hrest
    · obtain ⟨s, hs, hhas⟩ := h
      rcases List.mem_cons.mp hs with rfl | hs
      · refine Eq.trans (fillRanges_of_not (fill t value s.1 (s.2 + 1)) value l cp hrest) ?_
        unfold Range.Has at hhas
        unfold fill
        rw [if_pos (by omega)]
      · exact absurd ⟨s, hs, hhas⟩ hrest

/-! ## The authority -/

namespace Authority

variable (a : Authority)

theorem widthOf_le (cp : Nat) : a.widthOf cp ≤ 2 := by
  unfold Authority.widthOf
  split
  · exact Nat.le_succ 1
  · exact Nat.le_of_lt_succ (Fin.isLt _)

theorem widthOf_ascii {cp : Nat} (hlo : 0x20 ≤ cp) (hhi : cp ≤ 0x7E) : a.widthOf cp = 1 := by
  unfold Authority.widthOf dumpLo
  have hone := a.ascii (cp - dumpLo) (by unfold dumpLo; omega)
  rw [if_neg (by omega), Array.getD_eq_getD_getElem?]
  unfold dumpLo at hone
  rw [hone]
  rfl

/-- A lookup that finds 0 and 2 in their ranges finds the width. -/
theorem by_class {cp : Nat} {zero wide : Bool} (hzero : zero = true ↔ a.widthOf cp = 0) (hwide : wide = true ↔ a.widthOf cp = 2) :
    (if zero then 0 else if wide then 2 else 1) = a.widthOf cp := by
  have hle := a.widthOf_le cp
  cases zero
  · cases wide
    · have hne0 : a.widthOf cp ≠ 0 := fun h => Bool.false_ne_true (hzero.mpr h)
      have hne2 : a.widthOf cp ≠ 2 := fun h => Bool.false_ne_true (hwide.mpr h)
      show 1 = a.widthOf cp
      omega
    · exact (hwide.mp rfl).symm
  · exact (hzero.mp rfl).symm

theorem isRuns_ranges (lo hi width : Nat) :
    IsRuns (fun cp => a.widthOf cp == width) lo (lo + (hi + 1 - lo)) (a.ranges lo hi width) :=
  Runs.isRuns_ranges _ _ _

theorem mem_ranges {lo hi width cp : Nat} (hlo : lo ≤ cp) (hhi : cp ≤ hi) :
    (∃ r ∈ a.ranges lo hi width, r.Has cp) ↔ a.widthOf cp = width := by
  rw [(a.isRuns_ranges lo hi width).mem_iff hlo (by omega), beq_iff_eq]

end Authority

def Printable (cp : Nat) : Prop := (0x20 ≤ cp ∧ cp ≤ 0x7E) ∨ (0xA0 ≤ cp ∧ cp ≤ 0x10FFFF)

variable {cp : Nat}

theorem widthOf_tables (a : Authority) (h : Printable cp) : widthOf a.tables cp = a.widthOf cp := by
  have hrs : ∀ {lo hi width}, lo ≤ cp → cp ≤ hi → (bisearchRs cp (a.ranges lo hi width) = true ↔ a.widthOf cp = width) :=
    fun hlo hhi => (bisearchRs_iff (a.isRuns_ranges _ _ _) cp).trans (a.mem_ranges hlo hhi)
  unfold widthOf
  rcases h with ⟨hlo, hhi⟩ | ⟨hlo, hhi⟩
  · rw [if_pos (by omega), a.widthOf_ascii hlo hhi]
  · rw [if_neg (by omega)]
    split
    · rename_i hbmp
      exact a.by_class (hrs hlo hbmp) (hrs hlo hbmp)
    · exact a.by_class (hrs (by omega) hhi) (hrs (by omega) hhi)

/-- The ranges are filled in over a 1; no code point is in both kinds. -/
theorem buildTable_tables (a : Authority) (hlo : 0xA0 ≤ cp) (hhi : cp ≤ 0xFFFF) : buildTable a.tables cp = a.widthOf cp := by
  have hzero : (∃ r ∈ a.tables.bmpZero, r.Has cp) ↔ a.widthOf cp = 0 := a.mem_ranges hlo hhi
  have hwide : (∃ r ∈ a.tables.bmpWide, r.Has cp) ↔ a.widthOf cp = 2 := a.mem_ranges hlo hhi
  have hle := a.widthOf_le cp
  unfold buildTable
  by_cases h2 : a.widthOf cp = 2
  · rw [fillRanges_of_has _ 2 _ cp (hwide.mpr h2), h2]
  rw [fillRanges_of_not _ 2 _ cp fun h => h2 (hwide.mp h)]
  by_cases h0 : a.widthOf cp = 0
  · rw [fillRanges_of_has _ 0 _ cp (hzero.mpr h0), h0]
  rw [fillRanges_of_not _ 0 _ cp fun h => h0 (hzero.mp h)]
  unfold fill
  rw [if_neg (by omega), if_neg (by omega)]
  show 1 = a.widthOf cp
  omega

theorem wcwidth_tables (a : Authority) (h : Printable cp) : wcwidth a.tables cp = a.widthOf cp := by
  have hts : ∀ {lo hi width}, lo ≤ cp → cp ≤ hi → (bisearchTs cp (a.ranges lo hi width) = true ↔ a.widthOf cp = width) :=
    fun hlo hhi => (bisearchTs_iff (a.isRuns_ranges _ _ _) cp).trans (a.mem_ranges hlo hhi)
  unfold wcwidth
  rcases h with ⟨hlo, hhi⟩ | ⟨hlo, hhi⟩
  · rw [if_neg (by omega), if_pos (by omega), a.widthOf_ascii hlo hhi]
  · rw [if_neg (by omega), if_neg (by omega)]
    split
    · exact buildTable_tables a hlo (by omega)
    · exact a.by_class (hts (by omega) hhi) (hts (by omega) hhi)

/-- The ranges are the maximal runs of their width, and both lookups give the authority's
    width. -/
theorem widths_agree (a : Authority) :
    (∀ lo hi width, hi ≤ 0x10FFFF →
      IsRuns (fun cp => a.widthOf cp == width) lo (lo + (hi + 1 - lo)) (a.ranges lo hi width) ∧
      ∀ r ∈ a.ranges lo hi width, (r.1 = lo ∨ a.widthOf (r.1 - 1) ≠ width) ∧ (r.2 = hi ∨ a.widthOf (r.2 + 1) ≠ width)) ∧
    (∀ cp, Printable cp → widthOf a.tables cp = a.widthOf cp ∧ wcwidth a.tables cp = a.widthOf cp ∧
      widthOf a.tables cp = wcwidth a.tables cp) := by
  constructor
  · intro lo hi width _
    have hruns := a.isRuns_ranges lo hi width
    refine ⟨hruns, fun r hr => ?_⟩
    have hwithin := hruns.within r hr
    obtain ⟨hfirst, hlast⟩ := hruns.maximal hr
    simp only [beq_eq_false_iff_ne] at hfirst hlast
    exact ⟨hfirst, hlast.imp_left fun h => by omega⟩
  · intro cp h
    have hserver := widthOf_tables a h
    have hclient := wcwidth_tables a h
    exact ⟨hserver, hclient, hserver.trans hclient.symm⟩

/-- Hangul jamo: the leading consonants wide, the vowels and final consonants of width 0. -/
def jamoWidth (cp : Nat) : Fin 3 := if 0x1100 ≤ cp ∧ cp ≤ 0x115F then 2 else if 0x1160 ≤ cp ∧ cp ≤ 0x11FF then 0 else 1

def jamo : Authority where
  widths := Array.ofFn fun i : Fin (0x110000 - dumpLo) => jamoWidth (dumpLo + i.val)
  complete := Array.size_ofFn
  ascii i hi := by
    unfold dumpLo at hi
    unfold dumpLo jamoWidth
    rw [Array.getElem?_ofFn, dif_pos (by omega), if_neg (by dsimp only; omega), if_neg (by dsimp only; omega)]

theorem jamo_widthOf {cp : Nat} (hlo : dumpLo ≤ cp) (hhi : cp ≤ 0x10FFFF) : jamo.widthOf cp = (jamoWidth cp).val := by
  unfold Authority.widthOf jamo
  rw [if_neg (by omega), Array.getD_eq_getD_getElem?, Array.getElem?_ofFn, dif_pos (by omega), Option.getD_some]
  rw [show dumpLo + (cp - dumpLo) = cp by omega]

theorem widths_agree_jamo :
    widthOf jamo.tables 0x115F = 2 ∧ wcwidth jamo.tables 0x1160 = 0 ∧
    IsRuns (fun cp => jamo.widthOf cp == 2) 0xA0 0x10000 (jamo.ranges 0xA0 0xFFFF 2) :=
  have hserver := ((widths_agree jamo).2 0x115F (Or.inr ⟨by omega, by omega⟩)).1
  have hclient := ((widths_agree jamo).2 0x1160 (Or.inr ⟨by omega, by omega⟩)).2.1
  have hruns := ((widths_agree jamo).1 0xA0 0xFFFF 2 (by omega)).1
  ⟨hserver.trans (jamo_widthOf (by decide) (by omega)), hclient.trans (jamo_widthOf (by decide) (by omega)), hruns⟩

end Holdfast.Terminal.Widths

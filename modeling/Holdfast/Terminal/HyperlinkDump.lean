/-
  Holdfast.Terminal.HyperlinkDump — hyperlinks in the dump of a screen (`dump_buffer`,
  `push_hyperlink` and `dump_cells` of `vendor/avt/src/terminal.rs`).

  A line is dumped in chunks of cells with one pen. Before a chunk the dump changes the style
  and then the link, as long as the budget allows; a switch that it does not allow is left
  out, and the link that was open stays the open one. So the chunk is printed into that
  link, unless the change of style took it away on the way.

  `exec` replays the functions on an empty terminal. Cells are told by their order, as the
  dump prints them: where the cursor is and where lines wrap is no part of this.

  Proved (`dump_links_iff`): every cell gets its own link or none, no link is left open and
  the budget is kept, if and only if no switch is left out while another link is open, and
  the budget has room for closing the last one.
-/

import Holdfast.Base.Machine
import Holdfast.Terminal.Pen
import Mathlib.Data.List.Forall2
import Mathlib.Data.List.SplitBy
import Mathlib.Data.List.TakeWhile
import Mathlib.Tactic

namespace Holdfast.Terminal.Avt

open Holdfast.Base

inductive Function where
  | setHyperlink (link : Option Hyperlink)
  | sgr (ops : List SgrOp)
  | print (ch : Char)
  | rep (n : Nat)
  | cuf (n : Nat)
  | cr
  | lf
  deriving DecidableEq, Repr

inductive Occupancy where
  | single
  | wideHead
  | wideTail
  deriving DecidableEq, Repr

def Occupancy.width : Occupancy → Nat
  | .single => 1
  | .wideHead => 2
  | .wideTail => 0

/-- A character that takes the columns it has, and marks that take none. -/
structure Cell (width : Char → Nat) where
  ch : Char
  occupancy : Occupancy
  pen : Pen
  zeroWidth : List Char
  explicitBase : Bool
  fits : occupancy ≠ .wideTail → width ch = occupancy.width
  marks : ∀ z ∈ zeroWidth, width z = 0

variable {width : Char → Nat}

/-- Every wide character has its tail, and a tail follows nothing else. -/
inductive Paired : List (Cell width) → Prop
  | nil : Paired []
  | single {c : Cell width} {rest : List (Cell width)} : c.occupancy = .single → Paired rest → Paired (c :: rest)
  | wide {head tail : Cell width} {rest : List (Cell width)} : head.occupancy = .wideHead → tail.occupancy = .wideTail →
      tail.pen = head.pen → Paired rest → Paired (head :: tail :: rest)

structure Line (width : Char → Nat) where
  cells : List (Cell width)
  wrapped : Bool
  paired : Paired cells

def Cell.isDefault (c : Cell width) : Bool := c.ch == ' ' && c.occupancy == .single && c.pen.isDefault && c.zeroWidth.isEmpty

def Line.isBlank (line : Line width) : Bool := line.cells.all Cell.isDefault

def Line.chunks (line : Line width) : List (List (Cell width)) :=
  (line.cells.filter fun c => c.occupancy != .wideTail).splitBy fun c d => c.pen == d.pen

/-! ## The dump -/

def maxLinkDumpBytes : Nat := 4096

/-- What an `OSC 8` counts for. -/
def linkCost : Option Hyperlink → Nat
  | none => 8
  | some link => link.uri.utf8ByteSize + link.id.utf8ByteSize + 16

/-- `push_hyperlink`: the link that is switched to, and what is left of the budget then. -/
def pushHyperlink (id : LinkId) (links : LinkTable) (budget : Nat) : Option (Option Hyperlink × Nat) :=
  let link := if id = 0 then some none else (links.linkOf id).map some
  match link with
  -- an id that the table does not have
  | none => none
  | some link => if linkCost link > budget then none else some (link, budget - linkCost link)

/-- A blank that nothing was printed to is not printed by the replay either; its marks join it
    from the right. -/
def Cell.advances (c : Cell width) (col cols : Nat) : Bool :=
  c.ch == ' ' && !c.explicitBase && c.pen.isDefault && c.occupancy.width == 1 && decide (col + c.occupancy.width < cols)

def widths (cells : List (Cell width)) : Nat := (cells.map fun c => c.occupancy.width).sum

def dumpCells (cols : Nat) : List (Cell width) → Nat → List Function
  | [], _ => []
  | c :: rest, col =>
    if c.zeroWidth.isEmpty = false then
      ((if c.advances col cols then Function.cuf 1 else .print c.ch) :: c.zeroWidth.map .print) ++
        dumpCells cols rest (col + c.occupancy.width)
    else
      let run := rest.takeWhile fun d => d.ch == c.ch && d.zeroWidth.isEmpty
      let runLen := run.length + 1
      (if runLen > 5 then [.print c.ch, .rep (runLen - 1)] else List.replicate runLen (.print c.ch)) ++
        dumpCells cols (rest.drop run.length) (col + widths (c :: run))
termination_by cells => cells.length
decreasing_by
  · exact Nat.lt_succ_self _
  · rw [List.length_drop, List.length_cons]
    omega

structure Dump where
  pen : Pen
  budget : Nat
  col : Nat
  funs : List Function

namespace Dump

def start (budget : Nat) : Dump := ⟨.default, budget, 0, []⟩

/-- Cells of one pen. -/
def chunk (links : LinkTable) (cols : Nat) (d : Dump) (cells : List (Cell width)) : Dump :=
  match cells with
  | [] => d
  | c :: _ =>
    let sgr := ((toSgrDiff d.pen c.pen).map Function.sgr).toList
    let printed := dumpCells cols cells d.col
    match if c.pen.link = d.pen.link then none else pushHyperlink c.pen.link links d.budget with
    | some (link, budget) => ⟨c.pen, budget, d.col + widths cells, d.funs ++ sgr ++ [.setHyperlink link] ++ printed⟩
    | none => ⟨{ c.pen with link := d.pen.link }, d.budget, d.col + widths cells, d.funs ++ sgr ++ printed⟩

def line (links : LinkTable) (last i : Nat) (d : Dump) (line : Line width) : Dump :=
  let d := line.chunks.foldl (Dump.chunk links line.cells.length) { d with col := 0 }
  if i < last ∧ line.wrapped = false then { d with funs := d.funs ++ [.cr, .lf] } else d

end Dump

def cutoffFrom : List (Line width) → (i cutoff : Nat) → (wrapped : Bool) → Nat
  | [], _, cutoff, _ => cutoff
  | line :: rest, i, cutoff, wrapped =>
    cutoffFrom rest (i + 1) (if wrapped || line.wrapped || !line.isBlank then i + 1 else cutoff) line.wrapped

/-- The lines that are dumped, of those of the view. -/
def dumped (view : List (Line width)) : List (Line width) := view.take (cutoffFrom view 0 0 false)

def dumpBuffer (view : List (Line width)) (links : LinkTable) (budget : Nat) : List Function :=
  let d := (dumped view).zipIdx.foldl (fun d x => d.line links (view.length - 1) x.2 x.1) (Dump.start budget)
  -- no link is left open across the end of the dump
  if d.pen.link = 0 then d.funs else d.funs ++ [.setHyperlink none]

/-! ## The replay -/

/-- A terminal that is empty at first: each column it has printed, or left as it was, with the
    link it has. -/
structure Replay where
  pen : Pen
  links : LinkTable
  last : Char
  columns : List (Option Hyperlink)

namespace Replay

def start : Replay := ⟨.default, .empty, ' ', []⟩

/-- The link that is open. -/
def live (r : Replay) : Option Hyperlink := r.links.linkOf r.pen.link

/-- A character of no width joins the cell that was printed last. -/
def print (width : Char → Nat) (r : Replay) (ch : Char) : Replay :=
  if width ch = 0 then r else { r with last := ch, columns := r.columns ++ List.replicate (width ch) r.live }

def exec (width : Char → Nat) (r : Replay) : Function → Replay
  | .setHyperlink none => { r with pen := { r.pen with link := 0 } }
  | .setHyperlink (some link) =>
    { r with pen := { r.pen with link := (r.links.intern link).2 }, links := (r.links.intern link).1 }
  | .sgr ops => { r with pen := ops.foldl Pen.sgr r.pen }
  | .print ch => r.print width ch
  | .rep n => (List.replicate (if n = 0 then 1 else n) r.last).foldl (Replay.print width) r
  | .cuf n => { r with last := ' ', columns := r.columns ++ List.replicate (if n = 0 then 1 else n) none }
  | .cr => r
  | .lf => r

end Replay

/-! ## One chunk -/

theorem Cell.width_ne_zero (c : Cell width) (h : c.occupancy ≠ .wideTail) : width c.ch ≠ 0 := by
  rw [c.fits h]
  cases hocc : c.occupancy with
  | single => exact Nat.one_ne_zero
  | wideHead => exact Nat.succ_ne_zero 1
  | wideTail => exact absurd hocc h

/-- A cell that the replay leaves as it was. -/
def Cell.skipped (c : Cell width) (col cols : Nat) : Bool := !c.zeroWidth.isEmpty && c.advances col cols

theorem Cell.width_skipped {col cols : Nat} (c : Cell width) (h : c.skipped col cols = true) : c.occupancy.width = 1 := by
  simp only [Cell.skipped, Cell.advances, Bool.and_eq_true, beq_iff_eq] at h
  exact h.2.1.2

/-- What is printed for the cells while the link is open. -/
def columnsOf (live : Option Hyperlink) (cols : Nat) : List (Cell width) → Nat → List (Option Hyperlink)
  | [], _ => []
  | c :: rest, col =>
    (if c.skipped col cols then [none] else List.replicate c.occupancy.width live) ++
      columnsOf live cols rest (col + c.occupancy.width)

/-- Is any of the cells printed? -/
def printedIn (cols : Nat) : List (Cell width) → Nat → Bool
  | [], _ => false
  | c :: rest, col => !c.skipped col cols || printedIn cols rest (col + c.occupancy.width)

theorem widths_cons (c : Cell width) (cells : List (Cell width)) : widths (c :: cells) = c.occupancy.width + widths cells := by
  unfold widths
  rw [List.map_cons, List.sum_cons]

theorem columnsOf_append (live : Option Hyperlink) (cols : Nat) (a b : List (Cell width)) (col : Nat) :
    columnsOf live cols (a ++ b) col = columnsOf live cols a col ++ columnsOf live cols b (col + widths a) := by
  induction a generalizing col with
  | nil => rfl
  | cons c a ih =>
    rw [List.cons_append, columnsOf, columnsOf, ih, List.append_assoc, widths_cons, Nat.add_assoc]

/-- Cells without marks that have one character. -/
theorem columnsOf_run (live : Option Hyperlink) (cols w : Nat) {run : List (Cell width)}
    (h : ∀ c ∈ run, c.zeroWidth.isEmpty = true ∧ c.occupancy.width = w) (col : Nat) :
    columnsOf live cols run col = List.replicate (run.length * w) live := by
  induction run generalizing col with
  | nil => simp [columnsOf]
  | cons c run ih =>
    obtain ⟨hempty, hw⟩ := h c List.mem_cons_self
    have hskipped : c.skipped col cols = false := by
      unfold Cell.skipped
      rw [hempty]
      rfl
    rw [columnsOf, hskipped, if_neg Bool.false_ne_true, ih fun d hd => h d (List.mem_cons_of_mem _ hd), hw,
      List.replicate_append_replicate,
      List.length_cons, Nat.succ_mul, Nat.add_comm]

namespace Replay

theorem print_some {ch : Char} (h : width ch ≠ 0) (r : Replay) :
    r.print width ch = { r with last := ch, columns := r.columns ++ List.replicate (width ch) r.live } := if_neg h

theorem print_marks (marks : List Char) (h : ∀ z ∈ marks, width z = 0) (r : Replay) :
    (marks.map Function.print).foldl (exec width) r = r := by
  induction marks generalizing r with
  | nil => rfl
  | cons z marks ih =>
    rw [List.map_cons, List.foldl_cons]
    have hz : exec width r (.print z) = r := if_pos (h z List.mem_cons_self)
    rw [hz]
    exact ih (fun z hz => h z (List.mem_cons_of_mem _ hz)) r

/-- The same character some times. -/
theorem print_replicate {ch : Char} (h : width ch ≠ 0) (n : Nat) (r : Replay) :
    (List.replicate (n + 1) ch).foldl (Replay.print width) r =
      { r with last := ch, columns := r.columns ++ List.replicate ((n + 1) * width ch) r.live } := by
  induction n generalizing r with
  | zero =>
    rw [List.replicate_one, List.foldl_cons, List.foldl_nil, print_some h, Nat.one_mul]
  | succ n ih =>
    rw [List.replicate_succ, List.foldl_cons, print_some h, ih]
    show ({ r with last := ch, columns := r.columns ++ List.replicate (width ch) r.live ++ List.replicate _ r.live } : Replay) = _
    rw [List.append_assoc, List.replicate_append_replicate, Nat.succ_mul (n + 1), Nat.add_comm (width ch)]

theorem exec_replicate (n : Nat) (ch : Char) (r : Replay) :
    (List.replicate n (Function.print ch)).foldl (exec width) r = (List.replicate n ch).foldl (Replay.print width) r := by
  induction n generalizing r with
  | zero => rfl
  | succ n ih =>
    rw [List.replicate_succ, List.replicate_succ, List.foldl_cons, List.foldl_cons]
    exact ih _

/-- A run is printed, or its first character is and is then repeated. -/
theorem exec_run {ch : Char} (h : width ch ≠ 0) (n : Nat) (r : Replay) :
    (if n + 1 > 5 then [Function.print ch, .rep (n + 1 - 1)] else List.replicate (n + 1) (.print ch)).foldl (exec width) r =
      { r with last := ch, columns := r.columns ++ List.replicate ((n + 1) * width ch) r.live } := by
  split
  · rename_i hlong
    have hn : n ≠ 0 := by omega
    obtain ⟨m, rfl⟩ := Nat.exists_eq_succ_of_ne_zero hn
    rw [List.foldl_cons, List.foldl_cons, List.foldl_nil]
    show exec width (r.print width ch) (.rep (m + 1)) = _
    rw [print_some h]
    show (List.replicate (if m + 1 = 0 then 1 else m + 1) ch).foldl (Replay.print width) _ = _
    rw [if_neg hn, print_replicate h]
    show ({ r with last := ch, columns := r.columns ++ List.replicate (width ch) r.live ++ List.replicate _ r.live } : Replay) = _
    rw [List.append_assoc, List.replicate_append_replicate, Nat.succ_mul (m + 1), Nat.add_comm (width ch)]
  · rw [exec_replicate, print_replicate h]

/-- The replay of a chunk only prints. -/
theorem exec_dumpCells (cols : Nat) (cells : List (Cell width)) (h : ∀ c ∈ cells, c.occupancy ≠ .wideTail)
    (col : Nat) (r : Replay) :
    ∃ last, (dumpCells cols cells col).foldl (exec width) r =
      { r with last := last, columns := r.columns ++ columnsOf r.live cols cells col } := by
  induction cells, col using dumpCells.induct generalizing r with
  | case1 col =>
    refine ⟨r.last, ?_⟩
    rw [dumpCells, columnsOf, List.append_nil]
    rfl
  | case2 c rest col hmarks ih =>
    obtain ⟨hc, hrest⟩ := List.forall_mem_cons.mp h
    have hfits := c.fits hc
    rw [dumpCells, if_pos hmarks, List.foldl_append, List.foldl_cons, print_marks _ c.marks]
    have hskipped : c.skipped col cols = c.advances col cols := by
      unfold Cell.skipped
      rw [hmarks]
      rfl
    rw [columnsOf, hskipped]
    split
    · obtain ⟨last, hlast⟩ := ih hrest { r with last := ' ', columns := r.columns ++ [none] }
      refine ⟨last, hlast.trans ?_⟩
      rw [List.append_assoc]
      rfl
    · have hwidth : width c.ch ≠ 0 := c.width_ne_zero hc
      obtain ⟨last, hlast⟩ := ih hrest (r.print width c.ch)
      refine ⟨last, hlast.trans ?_⟩
      rw [print_some hwidth, List.append_assoc, hfits]
      rfl
  | case3 c rest col hmarks run ih =>
    obtain ⟨hc, hrest⟩ := List.forall_mem_cons.mp h
    obtain ⟨tail, htail⟩ := List.takeWhile_prefix (l := rest) fun d => d.ch == c.ch && d.zeroWidth.isEmpty
    have hdrop : rest.drop run.length = tail := by
      show rest.drop (rest.takeWhile _).length = tail
      rw [← htail]
      exact List.drop_left' (by rw [htail])
    have hwidth : width c.ch ≠ 0 := c.width_ne_zero hc
    -- the cells of the run have the character, no marks, and so the width too
    have hrun : ∀ d ∈ c :: run, d.zeroWidth.isEmpty = true ∧ d.occupancy.width = width c.ch := by
      intro d hd
      rcases List.mem_cons.mp hd with rfl | hd
      · exact ⟨by simpa using hmarks, (d.fits hc).symm⟩
      · have hsame := List.mem_takeWhile_imp hd
        rw [Bool.and_eq_true, beq_iff_eq] at hsame
        have hmem : d ∈ rest := (List.takeWhile_prefix _).subset hd
        exact ⟨hsame.2, by rw [← hsame.1, d.fits (hrest d hmem)]⟩
    rw [dumpCells, if_neg hmarks, List.foldl_append, exec_run hwidth]
    obtain ⟨last, hlast⟩ := ih (fun d hd => hrest d (List.drop_subset _ _ hd)) _
    refine ⟨last, hlast.trans ?_⟩
    have hcells : c :: rest = (c :: run) ++ rest.drop run.length := by
      rw [hdrop, List.cons_append]
      exact congrArg (c :: ·) htail.symm
    rw [show columnsOf r.live cols (c :: rest) col = _ from by rw [hcells, columnsOf_append],
      columnsOf_run _ _ _ hrun, List.length_cons,
      ← List.append_assoc]
    rfl

end Replay

/-! ## The cells' own links -/

/-- What the replay may give a cell that has `own`. -/
def Allowed (own replayed : Option Hyperlink) : Prop := replayed = none ∨ replayed = own

/-- Column by column. -/
def ownLinks (links : LinkTable) (cells : List (Cell width)) : List (Option Hyperlink) :=
  cells.flatMap fun c => List.replicate c.occupancy.width (links.linkOf c.pen.link)

theorem forall₂_append_iff {α β : Type*} {R : α → β → Prop} {a b : List α} {c d : List β} (h : a.length = c.length) :
    List.Forall₂ R (a ++ b) (c ++ d) ↔ List.Forall₂ R a c ∧ List.Forall₂ R b d := by
  constructor
  · intro hall
    have hleft := List.forall₂_take a.length hall
    have hright := List.forall₂_drop a.length hall
    rw [List.take_left, h, List.take_left] at hleft
    rw [List.drop_left, h, List.drop_left] at hright
    exact ⟨hleft, hright⟩
  · rintro ⟨hleft, hright⟩
    exact List.rel_append hleft hright

theorem forall₂_replicate_iff {α β : Type*} {R : α → β → Prop} {n : Nat} (hn : n ≠ 0) (a : α) (b : β) :
    List.Forall₂ R (List.replicate n a) (List.replicate n b) ↔ R a b := by
  obtain ⟨m, rfl⟩ := Nat.exists_eq_succ_of_ne_zero hn
  constructor
  · intro h
    exact (List.forall₂_cons.mp h).1
  · intro h
    have hall : ∀ k, List.Forall₂ R (List.replicate k a) (List.replicate k b) := by
      intro k
      induction k with
      | zero => exact .nil
      | succ k ih => exact .cons h ih
    exact hall _

theorem Cell.occupancy_width_ne_zero (c : Cell width) (h : c.occupancy ≠ .wideTail) : c.occupancy.width ≠ 0 := by
  rw [← c.fits h]
  exact c.width_ne_zero h

/-- A chunk is as it should be if the link that is open may be given to its cells, or none of them is
    printed. -/
theorem chunk_allowed {links : LinkTable} {own live : Option Hyperlink} (cols : Nat) {cells : List (Cell width)}
    (h : ∀ c ∈ cells, c.occupancy ≠ .wideTail ∧ links.linkOf c.pen.link = own) (col : Nat) :
    List.Forall₂ Allowed (ownLinks links cells) (columnsOf live cols cells col) ↔
    (printedIn cols cells col = true → Allowed own live) := by
  induction cells generalizing col with
  | nil => exact iff_of_true .nil nofun
  | cons c rest ih =>
    obtain ⟨⟨hc, hown⟩, hrest⟩ := List.forall_mem_cons.mp h
    have hne := c.occupancy_width_ne_zero hc
    unfold ownLinks
    rw [List.flatMap_cons, columnsOf, printedIn, hown]
    by_cases hskipped : c.skipped col cols = true
    · have hlength : (List.replicate 1 own).length = [(none : Option Hyperlink)].length := rfl
      rw [if_pos hskipped, hskipped, c.width_skipped hskipped, forall₂_append_iff hlength]
      refine Iff.trans ?_ (ih hrest (col + 1))
      exact and_iff_right (.cons (Or.inl rfl) .nil)
    · rw [if_neg hskipped, forall₂_append_iff (by rw [List.length_replicate, List.length_replicate]), forall₂_replicate_iff hne]
      rw [Bool.not_eq_true] at hskipped
      rw [hskipped]
      refine Iff.trans (and_congr_right fun _ => ih hrest (col + c.occupancy.width)) ?_
      constructor
      · rintro ⟨hallowed, -⟩ _
        exact hallowed
      · intro hallowed
        exact ⟨hallowed rfl, fun _ => hallowed rfl⟩

theorem columnsOf_length (live : Option Hyperlink) (cols : Nat) (links : LinkTable) (cells : List (Cell width)) (col : Nat) :
    (ownLinks links cells).length = (columnsOf live cols cells col).length := by
  induction cells generalizing col with
  | nil => rfl
  | cons c rest ih =>
    unfold ownLinks
    rw [List.flatMap_cons, columnsOf, List.length_append, List.length_append, List.length_replicate]
    congr 1
    · by_cases hskipped : c.skipped col cols = true
      · rw [if_pos hskipped, c.width_skipped hskipped]
        rfl
      · rw [if_neg hskipped, List.length_replicate]
    · exact ih (col + c.occupancy.width)

/-- A tail has the link of the character it belongs to. -/
theorem ownLinks_paired (links : LinkTable) {cells : List (Cell width)} (h : Paired cells) :
    (cells.map fun c => links.linkOf c.pen.link) = ownLinks links (cells.filter fun c => c.occupancy != .wideTail) := by
  induction h with
  | nil => rfl
  | single hocc _ ih =>
    rw [List.map_cons, ih, List.filter_cons_of_pos (by rw [hocc]; rfl)]
    unfold ownLinks
    rw [List.flatMap_cons, hocc]
    rfl
  | wide hhead htail hpen _ ih =>
    rw [List.map_cons, List.map_cons, ih, List.filter_cons_of_pos (by rw [hhead]; rfl),
      List.filter_cons_of_neg (by rw [htail]; exact nofun)]
    unfold ownLinks
    rw [List.flatMap_cons, hhead, hpen]
    rfl

/-! ## Links and the replay -/

namespace Replay

def replay (width : Char → Nat) (funs : List Function) : Replay := funs.foldl (exec width) start

/-- A change of style resets the pen of the replay, and its link, where that is shorter. -/
def resets (source target : Pen) : Bool :=
  !source.styleEq target && !decide ((toSgrDiffOps source target).length ≤ (toSgrOps target).length)

variable (width) in
theorem live_style (source target : Pen) (r : Replay) :
    ∃ pen, ((toSgrDiff source target).map Function.sgr).toList.foldl (exec width) r = { r with pen } ∧
      ({ r with pen } : Replay).live = if resets source target then none else r.live := by
  unfold toSgrDiff resets
  by_cases heq : source.styleEq target = true
  · rw [if_pos heq, heq]
    exact ⟨r.pen, rfl, rfl⟩
  · rw [if_neg heq]
    rw [Bool.not_eq_true] at heq
    rw [heq]
    by_cases hle : (toSgrDiffOps source target).length ≤ (toSgrOps target).length
    · rw [if_pos hle, decide_eq_true hle]
      refine ⟨_, rfl, ?_⟩
      show r.links.linkOf ((toSgrDiffOps source target).foldl Pen.sgr r.pen).link = r.live
      rw [link_sgr, if_neg (reset_toSgrDiffOps source target)]
      rfl
    · rw [if_neg hle, decide_eq_false hle]
      refine ⟨_, rfl, ?_⟩
      show r.links.linkOf ((toSgrOps target).foldl Pen.sgr r.pen).link = none
      rw [link_sgr, if_pos (reset_toSgrOps target)]
      rfl

variable (width) in
theorem live_setHyperlink {links : LinkTable} {r : Replay} (hknown : ∀ l ∈ r.links.links, l ∈ links.links)
    {link : Option Hyperlink}
    (hlink : ∀ l, link = some l → l ∈ links.links) :
    (exec width r (.setHyperlink link)).live = link ∧ (exec width r (.setHyperlink link)).columns = r.columns ∧
      ∀ l ∈ (exec width r (.setHyperlink link)).links.links, l ∈ links.links := by
  cases link with
  | none => exact ⟨rfl, rfl, hknown⟩
  | some l =>
    have hmem := hlink l rfl
    refine ⟨LinkTable.linkOf_intern (LinkTable.room hknown hmem), rfl, fun k hk => ?_⟩
    rcases LinkTable.mem_intern hk with hk | rfl
    · exact hknown k hk
    · exact hmem

end Replay

theorem push_some {id : LinkId} {links : LinkTable} {budget left : Nat} {link : Option Hyperlink}
    (h : pushHyperlink id links budget = some (link, left)) :
    link = links.linkOf id ∧ (id ≠ 0 → link.isSome = true) ∧ left + linkCost link = budget := by
  unfold pushHyperlink at h
  dsimp only at h
  by_cases hid : id = 0
  · rw [if_pos hid] at h
    dsimp only at h
    split at h
    · cases h
    · obtain ⟨rfl, rfl⟩ := Prod.mk.inj (Option.some.inj h)
      rw [hid]
      exact ⟨rfl, fun hno => absurd rfl hno, by omega⟩
  · rw [if_neg hid] at h
    rcases hlink : links.linkOf id with _ | l
    · rw [hlink] at h
      cases h
    · rw [hlink] at h
      dsimp only [Option.map_some] at h
      split at h
      · cases h
      · obtain ⟨rfl, rfl⟩ := Prod.mk.inj (Option.some.inj h)
        exact ⟨rfl, fun _ => rfl, by omega⟩

/-! ## The run over the screen -/

/-- What the loops of the dump come to, one after the other. -/
inductive Event (width : Char → Nat) where
  | line
  | chunk (cols : Nat) (cells : List (Cell width))
  | newline

def Line.events (last i : Nat) (line : Line width) : List (Event width) :=
  .line :: line.chunks.map (.chunk line.cells.length) ++ (if i < last ∧ line.wrapped = false then [.newline] else [])

def events (view : List (Line width)) : List (Event width) :=
  (dumped view).zipIdx.flatMap fun x => x.1.events (view.length - 1) x.2

def Dump.step (links : LinkTable) (d : Dump) : Event width → Dump
  | .line => { d with col := 0 }
  | .chunk cols cells => d.chunk links cols cells
  | .newline => { d with funs := d.funs ++ [.cr, .lf] }

/-- The dump, and whether the link of its pen is open in the replay. -/
structure Follower where
  dump : Dump
  live : Bool

namespace Follower

def start (budget : Nat) : Follower := ⟨.start budget, false⟩

/-- Is a link open when the style has been changed to that of `pen`? -/
def stays (s : Follower) (pen : Pen) : Bool := s.live && !Replay.resets s.dump.pen pen

/-- Another link is open and is not closed, for want of budget or of the link, and the chunk is printed. -/
def Stuck (links : LinkTable) (s : Follower) : Event width → Prop
  | .chunk cols (c :: cells) =>
    s.stays c.pen = true ∧ c.pen.link ≠ s.dump.pen.link ∧ pushHyperlink c.pen.link links s.dump.budget = none ∧
      printedIn cols (c :: cells) s.dump.col = true
  | _ => False

def next (links : LinkTable) (s : Follower) (e : Event width) : Follower where
  dump := s.dump.step links e
  live :=
    match e with
    | .chunk _ (c :: _) =>
      match if c.pen.link = s.dump.pen.link then none else pushHyperlink c.pen.link links s.dump.budget with
      | some _ => c.pen.link != 0
      | none => s.stays c.pen
    | _ => s.live

def machine (width : Char → Nat) (links : LinkTable) : Machine Follower (Event width) Unit where
  step s e := (s.next links e, ())

end Follower

theorem dump_run (width : Char → Nat) (links : LinkTable) (s : Follower) (es : List (Event width)) :
    ((Follower.machine width links).run s es).dump = es.foldl (Dump.step links) s.dump := by
  induction es generalizing s with
  | nil => rfl
  | cons e es ih =>
    rw [Machine.run_cons, List.foldl_cons, ih]
    rfl

theorem line_events (links : LinkTable) (last i : Nat) (d : Dump) (line : Line width) :
    d.line links last i line = (line.events last i).foldl (Dump.step links) d := by
  unfold Dump.line Line.events
  rw [List.cons_append, List.foldl_cons, List.foldl_append, List.foldl_map]
  dsimp only
  split
  · rfl
  · rfl

theorem dump_events (view : List (Line width)) (links : LinkTable) (budget : Nat) :
    dumpBuffer view links budget =
      (let s := (Follower.machine width links).run (.start budget) (events view)
      if s.dump.pen.link = 0 then s.dump.funs else s.dump.funs ++ [.setHyperlink none]) := by
  dsimp only
  rw [dump_run]
  unfold dumpBuffer events
  rw [List.foldl_flatMap]
  simp only [line_events]
  rfl

/-! ## What a step keeps -/

/-- The replay of what was dumped so far. -/
structure Tracks (links : LinkTable) (s : Follower) (r : Replay) : Prop where
  known : ∀ l ∈ r.links.links, l ∈ links.links
  live : r.live = if s.live then links.linkOf s.dump.pen.link else none
  entry : s.live = true → (links.linkOf s.dump.pen.link).isSome = true

/-- A chunk of the screen has one pen. -/
def Event.Uniform : Event width → Prop
  | .chunk _ [] => False
  | .chunk _ (c :: cells) => ∀ d ∈ c :: cells, d.occupancy ≠ .wideTail ∧ d.pen = c.pen
  | _ => True

/-- The cells of a chunk. -/
def Event.cells : Event width → List (Cell width)
  | .chunk _ cells => cells
  | _ => []

/-- A chunk takes the dump to `s'` and the replay to `r'`. -/
structure Adds (links : LinkTable) (s s' : Follower) (r r' : Replay) (cols : Nat) (c : Cell width)
    (cells : List (Cell width)) : Prop where
  replayed : ∃ funs, s'.dump.funs = s.dump.funs ++ funs ∧ funs.foldl (Replay.exec width) r = r'
  tracks : Tracks links s' r'
  columns : r'.columns = r.columns ++ columnsOf r'.live cols (c :: cells) s.dump.col
  allowed : Allowed (links.linkOf c.pen.link) r'.live ↔
    ¬(s.stays c.pen = true ∧ c.pen.link ≠ s.dump.pen.link ∧ pushHyperlink c.pen.link links s.dump.budget = none)

variable {links : LinkTable} {s : Follower} {r : Replay} {c : Cell width} {cells : List (Cell width)}

/-- The link stays as it is, for better or for worse. -/
theorem adds_kept (h : Tracks links s r) (cols : Nat) (htails : ∀ d ∈ c :: cells, d.occupancy ≠ .wideTail)
    (hswitch : (if c.pen.link = s.dump.pen.link then none else pushHyperlink c.pen.link links s.dump.budget) = none) :
    ∃ r', Adds links s (s.next links (.chunk cols (c :: cells))) r r' cols c cells := by
  obtain ⟨pen, hstyle, hlive⟩ := Replay.live_style width s.dump.pen c.pen r
  obtain ⟨last, hprinted⟩ := Replay.exec_dumpCells cols (c :: cells) htails s.dump.col { r with pen }
  have hstays : ({ r with pen } : Replay).live = if s.stays c.pen then links.linkOf s.dump.pen.link else none := by
    rw [hlive, h.live]
    unfold Follower.stays
    cases s.live <;> cases Replay.resets s.dump.pen c.pen <;> rfl
  have hnext : s.next links (.chunk cols (c :: cells)) =
      ⟨⟨{ c.pen with link := s.dump.pen.link }, s.dump.budget, s.dump.col + widths (c :: cells),
        s.dump.funs ++ ((toSgrDiff s.dump.pen c.pen).map Function.sgr).toList ++
          dumpCells cols (c :: cells) s.dump.col⟩, s.stays c.pen⟩ := by
    unfold Follower.next Dump.step Dump.chunk
    dsimp only
    rw [hswitch]
  rw [hnext]
  refine ⟨_, ⟨_, (List.append_assoc ..), rfl⟩, ?_, ?_, ?_⟩
  all_goals rw [List.foldl_append, hstyle, hprinted]
  · refine ⟨h.known, hstays, fun hlive => h.entry ?_⟩
    unfold Follower.stays at hlive
    exact (Bool.and_eq_true_iff.mp hlive).1
  · rfl
  · show Allowed _ ({ r with pen } : Replay).live ↔ _
    rw [hstays]
    by_cases hsame : c.pen.link = s.dump.pen.link
    · refine iff_of_true ?_ fun hno => hno.2.1 hsame
      rw [hsame]
      split
      · exact Or.inr rfl
      · exact Or.inl rfl
    · rw [if_neg hsame] at hswitch
      by_cases hopen : s.stays c.pen = true
      · refine iff_of_false ?_ fun hno => hno ⟨hopen, hsame, hswitch⟩
        -- the link is open, and it is another one
        have hlive := (Bool.and_eq_true_iff.mp hopen).1
        obtain ⟨l, hl⟩ := Option.isSome_iff_exists.mp (h.entry hlive)
        rw [if_pos hopen, hl]
        rintro (hno | hown)
        · cases hno
        · exact hsame (LinkTable.linkOf_injective hown.symm hl)
      · rw [if_neg hopen]
        exact iff_of_true (Or.inl rfl) fun hno => hopen hno.1

theorem adds_switched (h : Tracks links s r) (cols : Nat) (htails : ∀ d ∈ c :: cells, d.occupancy ≠ .wideTail)
    {link : Option Hyperlink} {left : Nat}
    (hswitch : (if c.pen.link = s.dump.pen.link then none else pushHyperlink c.pen.link links s.dump.budget) =
      some (link, left)) :
    ∃ r', Adds links s (s.next links (.chunk cols (c :: cells))) r r' cols c cells := by
  obtain ⟨pen, hstyle, -⟩ := Replay.live_style width s.dump.pen c.pen r
  have hpush : pushHyperlink c.pen.link links s.dump.budget = some (link, left) := by
    split at hswitch
    · cases hswitch
    · exact hswitch
  obtain ⟨hown, hentry, -⟩ := push_some hpush
  have hknown : ∀ l ∈ ({ r with pen } : Replay).links.links, l ∈ links.links := h.known
  obtain ⟨hlive, hcolumns, hknown⟩ := Replay.live_setHyperlink width hknown
    (fun l hl => LinkTable.mem_of_linkOf (hown.symm.trans hl))
  obtain ⟨last, hprinted⟩ := Replay.exec_dumpCells cols (c :: cells) htails s.dump.col
    (Replay.exec width { r with pen } (.setHyperlink link))
  have hnext : s.next links (.chunk cols (c :: cells)) =
      ⟨⟨c.pen, left, s.dump.col + widths (c :: cells),
        s.dump.funs ++ ((toSgrDiff s.dump.pen c.pen).map Function.sgr).toList ++ [.setHyperlink link] ++
          dumpCells cols (c :: cells) s.dump.col⟩, c.pen.link != 0⟩ := by
    unfold Follower.next Dump.step Dump.chunk
    dsimp only
    rw [hswitch]
  rw [hnext]
  refine ⟨_, ⟨_, by rw [List.append_assoc, List.append_assoc], rfl⟩, ?_, ?_, ?_⟩
  all_goals rw [List.foldl_append, List.foldl_append, hstyle, List.foldl_cons, List.foldl_nil, hprinted]
  · refine ⟨hknown, ?_, fun hsome => ?_⟩
    · show (Replay.exec width { r with pen } (.setHyperlink link)).live = _
      rw [hlive, hown]
      by_cases hzero : c.pen.link = 0
      · rw [hzero]
        rfl
      · rw [if_pos (by simpa using hzero)]
    · show (links.linkOf c.pen.link).isSome = true
      rw [← hown]
      exact hentry (by simpa using hsome)
  · show (Replay.exec width { r with pen } (.setHyperlink link)).columns ++ _ = r.columns ++ _
    rw [hcolumns]
    rfl
  · refine iff_of_true ?_ fun hno => ?_
    · show Allowed _ (Replay.exec width { r with pen } (.setHyperlink link)).live
      rw [hlive, hown]
      exact Or.inr rfl
    · rw [hpush] at hno
      cases hno.2.2

/-! ## What a run keeps -/

/-- The dump and the replay go on together; the columns replayed are allowed for `own` if and
    only if the way there was `good`. -/
structure Grows (width : Char → Nat) (links : LinkTable) (s s' : Follower) (r r' : Replay)
    (own : List (Option Hyperlink)) (good : Prop) : Prop where
  replayed : ∃ funs, s'.dump.funs = s.dump.funs ++ funs ∧ funs.foldl (Replay.exec width) r = r'
  tracks : Tracks links s' r'
  columns : ∃ cols, r'.columns = r.columns ++ cols ∧ own.length = cols.length ∧ (List.Forall₂ Allowed own cols ↔ good)

theorem Grows.trans {s s' s'' : Follower} {r r' r'' : Replay} {own own' : List (Option Hyperlink)} {good good' : Prop}
    (h : Grows width links s s' r r' own good) (h' : Grows width links s' s'' r' r'' own' good') :
    Grows width links s s'' r r'' (own ++ own') (good ∧ good') := by
  obtain ⟨funs, hfuns, hexec⟩ := h.replayed
  obtain ⟨funs', hfuns', hexec'⟩ := h'.replayed
  obtain ⟨cols, hcols, hlen, hallowed⟩ := h.columns
  obtain ⟨cols', hcols', hlen', hallowed'⟩ := h'.columns
  refine ⟨⟨funs ++ funs', by rw [hfuns', hfuns, List.append_assoc], by rw [List.foldl_append, hexec, hexec']⟩, h'.tracks,
    cols ++ cols', by rw [hcols', hcols, List.append_assoc], by rw [List.length_append, List.length_append, hlen, hlen'], ?_⟩
  rw [forall₂_append_iff hlen, hallowed, hallowed']

theorem grows_chunk (h : Tracks links s r) (cols : Nat) (huniform : (Event.chunk cols (c :: cells)).Uniform) :
    ∃ r', Grows width links s (s.next links (.chunk cols (c :: cells))) r r' (ownLinks links (c :: cells))
      (¬s.Stuck links (.chunk cols (c :: cells))) := by
  have htails : ∀ d ∈ c :: cells, d.occupancy ≠ .wideTail := fun d hd => (huniform d hd).1
  have hadds : ∃ r', Adds links s (s.next links (.chunk cols (c :: cells))) r r' cols c cells := by
    rcases hswitch : (if c.pen.link = s.dump.pen.link then none
      else pushHyperlink c.pen.link links s.dump.budget) with _ | ⟨link, left⟩
    · exact adds_kept h cols htails hswitch
    · exact adds_switched h cols htails hswitch
  obtain ⟨r', hr'⟩ := hadds
  have hown : ∀ d ∈ c :: cells, d.occupancy ≠ .wideTail ∧ links.linkOf d.pen.link = links.linkOf c.pen.link :=
    fun d hd => ⟨htails d hd, by rw [(huniform d hd).2]⟩
  refine ⟨r', hr'.replayed, hr'.tracks, _, hr'.columns, columnsOf_length _ cols links (c :: cells) s.dump.col, ?_⟩
  rw [chunk_allowed cols hown, hr'.allowed]
  unfold Follower.Stuck
  constructor
  · rintro himp ⟨hstays, hother, hpush, hprinted⟩
    exact himp hprinted ⟨hstays, hother, hpush⟩
  · rintro hno hprinted ⟨hstays, hother, hpush⟩
    exact hno ⟨hstays, hother, hpush, hprinted⟩

theorem grows_next (h : Tracks links s r) {e : Event width} (he : e.Uniform) :
    ∃ r', Grows width links s (s.next links e) r r' (ownLinks links e.cells) (¬s.Stuck links e) := by
  have hnil : List.Forall₂ Allowed [] [] ↔ ¬False := iff_of_true .nil not_false
  cases e with
  | line => exact ⟨r, ⟨[], (List.append_nil _).symm, rfl⟩, ⟨h.known, h.live, h.entry⟩, [], (List.append_nil _).symm, rfl, hnil⟩
  | newline => exact ⟨r, ⟨[.cr, .lf], rfl, rfl⟩, ⟨h.known, h.live, h.entry⟩, [], (List.append_nil _).symm, rfl, hnil⟩
  | chunk cols cells =>
    cases cells with
    | nil => exact he.elim
    | cons c cells => exact grows_chunk h cols he

theorem grows_run (es : List (Event width)) (hes : ∀ e ∈ es, e.Uniform) (h : Tracks links s r) :
    ∃ r', Grows width links s ((Follower.machine width links).run s es) r r' (es.flatMap fun e => ownLinks links e.cells)
      ((Follower.machine width links).Admissible (fun s e => ¬s.Stuck links e) s es) := by
  induction es generalizing s r with
  | nil =>
    exact ⟨r, ⟨[], (List.append_nil _).symm, rfl⟩, h, [], (List.append_nil _).symm, rfl, iff_of_true .nil trivial⟩
  | cons e es ih =>
    obtain ⟨he, hes⟩ := List.forall_mem_cons.mp hes
    obtain ⟨r', hr'⟩ := grows_next h he
    obtain ⟨r'', hr''⟩ := ih hes hr'.tracks
    exact ⟨r'', hr'.trans hr''⟩

/-! ## The events of a screen -/

theorem pens_of_chain {c : Cell width} {cells : List (Cell width)}
    (h : (c :: cells).IsChain fun c d => (c.pen == d.pen) = true) : ∀ d ∈ cells, d.pen = c.pen := by
  induction cells generalizing c with
  | nil => exact fun d hd => absurd hd List.not_mem_nil
  | cons e cells ih =>
    rw [List.isChain_cons_cons, beq_iff_eq] at h
    intro d hd
    rcases List.mem_cons.mp hd with rfl | hd
    · exact h.1.symm
    · exact (ih h.2 d hd).trans h.1.symm

theorem uniform_chunks (line : Line width) : ∀ cells ∈ line.chunks, (Event.chunk line.cells.length cells).Uniform := by
  intro cells hcells
  have hne := List.ne_nil_of_mem_splitBy hcells
  have hchain := List.isChain_of_mem_splitBy hcells
  have hsub : ∀ d ∈ cells, d.occupancy ≠ .wideTail := by
    intro d hd
    have hmem : d ∈ line.chunks.flatten := List.mem_flatten.mpr ⟨cells, hcells, hd⟩
    rw [show line.chunks.flatten = _ from List.flatten_splitBy _ _] at hmem
    simpa using (List.mem_filter.mp hmem).2
  cases cells with
  | nil => exact hne rfl
  | cons c cells =>
    intro d hd
    refine ⟨hsub d hd, ?_⟩
    rcases List.mem_cons.mp hd with rfl | hd
    · rfl
    · exact pens_of_chain hchain d hd

theorem uniform_events (view : List (Line width)) : ∀ e ∈ events view, e.Uniform := by
  intro e he
  obtain ⟨⟨line, i⟩, -, he⟩ := List.mem_flatMap.mp he
  unfold Line.events at he
  rcases List.mem_append.mp he with he | he
  · rcases List.mem_cons.mp he with rfl | he
    · trivial
    · obtain ⟨cells, hcells, rfl⟩ := List.mem_map.mp he
      exact uniform_chunks line cells hcells
  · split at he
    · obtain rfl := List.mem_singleton.mp he
      trivial
    · cases he

theorem ownLinks_flatten (links : LinkTable) (chunks : List (List (Cell width))) :
    ownLinks links chunks.flatten = chunks.flatMap fun cells => ownLinks links cells := by
  induction chunks with
  | nil => rfl
  | cons cells chunks ih =>
    rw [List.flatten_cons, List.flatMap_cons, ← ih]
    exact List.flatMap_append

/-- The links of a line's cells, chunk by chunk. -/
theorem own_line (links : LinkTable) (last i : Nat) (line : Line width) :
    ((line.events last i).flatMap fun e => ownLinks links e.cells) = line.cells.map fun c => links.linkOf c.pen.link := by
  have hnewline : ((if i < last ∧ line.wrapped = false then [Event.newline] else []) : List (Event width)).flatMap
      (fun e => ownLinks links e.cells) = [] := by
    split
    · rfl
    · rfl
  unfold Line.events
  rw [List.cons_append, List.flatMap_cons, List.flatMap_append, hnewline, List.append_nil, ownLinks_paired links line.paired]
  show [] ++ _ = _
  rw [List.nil_append, ← List.flatten_splitBy (fun c d => c.pen == d.pen) (line.cells.filter _),
    ownLinks_flatten, List.flatMap_map]
  rfl

theorem own_events (links : LinkTable) (view : List (Line width)) :
    ((events view).flatMap fun e => ownLinks links e.cells) =
      ((dumped view).flatMap fun line => line.cells.map fun c => links.linkOf c.pen.link) := by
  unfold events
  rw [List.flatMap_assoc]
  simp only [own_line]
  generalize dumped view = lines
  generalize 0 = n
  induction lines generalizing n with
  | nil => rfl
  | cons line lines ih => rw [List.zipIdx_cons, List.flatMap_cons, List.flatMap_cons, ih]

/-! ## The budget -/

def Function.cost : Function → Nat
  | .setHyperlink link => linkCost link
  | _ => 0

/-- What the hyperlinks of a dump cost. -/
def spent (funs : List Function) : Nat := (funs.map Function.cost).sum

theorem spent_append (a b : List Function) : spent (a ++ b) = spent a + spent b := by
  unfold spent
  rw [List.map_append, List.sum_append]

theorem spent_quiet {funs : List Function} (h : ∀ f ∈ funs, f.cost = 0) : spent funs = 0 := by
  induction funs with
  | nil => rfl
  | cons f funs ih =>
    obtain ⟨hf, hfuns⟩ := List.forall_mem_cons.mp h
    have hspent := ih hfuns
    unfold spent at hspent ⊢
    rw [List.map_cons, List.sum_cons, hf, hspent]

theorem cost_dumpCells (cols : Nat) (cells : List (Cell width)) (col : Nat) : ∀ f ∈ dumpCells cols cells col, f.cost = 0 := by
  induction cells, col using dumpCells.induct with
  | case1 col =>
    rw [dumpCells]
    exact fun f hf => absurd hf List.not_mem_nil
  | case2 c rest col hmarks ih =>
    intro f hf
    rw [dumpCells, if_pos hmarks] at hf
    rcases List.mem_append.mp hf with hf | hf
    · rcases List.mem_cons.mp hf with rfl | hf
      · split
        · rfl
        · rfl
      · obtain ⟨z, -, rfl⟩ := List.mem_map.mp hf
        rfl
    · exact ih f hf
  | case3 c rest col hmarks run ih =>
    intro f hf
    rw [dumpCells, if_neg hmarks] at hf
    rcases List.mem_append.mp hf with hf | hf
    · split at hf
      · rcases List.mem_cons.mp hf with rfl | hf
        · rfl
        · obtain rfl := List.mem_singleton.mp hf
          rfl
      · obtain rfl := List.eq_of_mem_replicate hf
        rfl
    · exact ih f hf

theorem cost_style (source target : Pen) : ∀ f ∈ ((toSgrDiff source target).map Function.sgr).toList, f.cost = 0 := by
  intro f hf
  rcases hops : toSgrDiff source target with _ | ops
  · rw [hops] at hf
    cases hf
  · rw [hops] at hf
    obtain rfl := List.mem_singleton.mp hf
    rfl

/-- What was spent is gone from the budget. -/
theorem spent_step (links : LinkTable) (d : Dump) (e : Event width) :
    spent (d.step links e).funs + (d.step links e).budget = spent d.funs + d.budget := by
  cases e with
  | line => rfl
  | newline => exact congrArg (· + d.budget) (spent_append d.funs [.cr, .lf])
  | chunk cols cells =>
    cases cells with
    | nil => rfl
    | cons c cells =>
      have hstyle := spent_quiet (cost_style d.pen c.pen)
      have hprinted := spent_quiet (cost_dumpCells cols (c :: cells) d.col)
      unfold Dump.step Dump.chunk
      dsimp only
      rcases hswitch : (if c.pen.link = d.pen.link then none else pushHyperlink c.pen.link links d.budget) with _ | ⟨link, left⟩
      · dsimp only
        rw [spent_append, spent_append, hstyle, hprinted]
        rfl
      · have hpush : pushHyperlink c.pen.link links d.budget = some (link, left) := by
          split at hswitch
          · cases hswitch
          · exact hswitch
        have hleft := (push_some hpush).2.2
        have hone : spent [.setHyperlink link] = linkCost link := Nat.add_zero _
        dsimp only
        rw [spent_append, spent_append, spent_append, hstyle, hprinted, hone]
        omega

theorem spent_run (links : LinkTable) (es : List (Event width)) (d : Dump) :
    spent (es.foldl (Dump.step links) d).funs + (es.foldl (Dump.step links) d).budget = spent d.funs + d.budget := by
  induction es generalizing d with
  | nil => rfl
  | cons e es ih => rw [List.foldl_cons, ih, spent_step]

/-! ## The dump of a screen -/

/-- Every cell is given its own link or none, no link is left open and the budget is kept, if and only
    if no chunk is printed while another link is open that could not be closed, and the link that is
    open at the end, if there is one, can be closed within the budget. -/
theorem dump_links_iff (width : Char → Nat) (links : LinkTable) (budget : Nat) (view : List (Line width)) :
    (List.Forall₂ Allowed ((dumped view).flatMap fun line => line.cells.map fun c => links.linkOf c.pen.link)
        (Replay.replay width (dumpBuffer view links budget)).columns ∧
      (Replay.replay width (dumpBuffer view links budget)).live = none ∧ spent (dumpBuffer view links budget) ≤ budget) ↔
    (Follower.machine width links).Admissible (fun s e => ¬s.Stuck links e) (.start budget) (events view) ∧
      (((Follower.machine width links).run (.start budget) (events view)).dump.pen.link = 0 ∨
        linkCost none ≤ ((Follower.machine width links).run (.start budget) (events view)).dump.budget) := by
  have hstart : Tracks links (.start budget) Replay.start := ⟨fun l hl => absurd hl List.not_mem_nil, rfl, nofun⟩
  obtain ⟨r, hr⟩ := grows_run (events view) (uniform_events view) hstart
  obtain ⟨funs, hfuns, hexec⟩ := hr.replayed
  obtain ⟨cols, hcols, -, hallowed⟩ := hr.columns
  have hspent := spent_run links (events view) (Follower.start budget).dump
  rw [← own_events, dump_events]
  dsimp only
  rw [← dump_run width links (.start budget)] at hspent
  rw [← hallowed]
  have htracks := hr.tracks.live
  generalize (Follower.machine width links).run (.start budget) (events view) = s at *
  obtain rfl : s.dump.funs = funs := hfuns
  have hreplay : Replay.replay width s.dump.funs = r := hexec
  have hcols : r.columns = cols := hcols
  have hspent : spent s.dump.funs + s.dump.budget = budget := hspent.trans (Nat.zero_add _)
  by_cases hclosed : s.dump.pen.link = 0
  · rw [if_pos hclosed, hreplay, hcols]
    have hlive : r.live = none := by
      rw [htracks, hclosed]
      split
      · rfl
      · rfl
    constructor
    · rintro ⟨hlinks, -, -⟩
      exact ⟨hlinks, Or.inl hclosed⟩
    · rintro ⟨hlinks, -⟩
      exact ⟨hlinks, hlive, by omega⟩
  · rw [if_neg hclosed, spent_append]
    have hone : spent [.setHyperlink none] = linkCost none := Nat.add_zero _
    have hclose : Replay.replay width (s.dump.funs ++ [.setHyperlink none]) = Replay.exec width r (.setHyperlink none) := by
      unfold Replay.replay at hreplay ⊢
      rw [List.foldl_append, hreplay]
      rfl
    rw [hclose, hone]
    have hsame : (Replay.exec width r (.setHyperlink none)).columns = cols := hcols
    rw [hsame]
    constructor
    · rintro ⟨hlinks, -, hle⟩
      exact ⟨hlinks, Or.inr (by omega)⟩
    · rintro ⟨hlinks, hroom⟩
      have hroom := hroom.resolve_left hclosed
      exact ⟨hlinks, rfl, by omega⟩

theorem paired_single {cells : List (Cell width)} (h : ∀ c ∈ cells, c.occupancy = .single) : Paired cells := by
  induction cells with
  | nil => exact .nil
  | cons c cells ih =>
    obtain ⟨hc, hcells⟩ := List.forall_mem_cons.mp h
    exact .single hc (ih hcells)

def longLink (ch : Char) : Hyperlink := ⟨"", String.ofList (List.replicate 240 ch)⟩

def twoLinks : LinkTable where
  links := [longLink 'a', longLink 'b']
  nodup := by decide +kernel
  bounded := by decide

/-- A line on which every cell has another link than the one before. -/
def alternating (n : Nat) : Line (fun _ => 1) where
  cells := (List.range n).map fun i => ⟨'x', .single, { Pen.default with link := i % 2 + 1 }, [], true, fun _ => rfl, nofun⟩
  wrapped := false
  paired := paired_single fun c hc => by
    obtain ⟨i, -, rfl⟩ := List.mem_map.mp hc
    rfl

/-- The budget lasts for sixteen switches, and the seventeenth cell gets the link of the sixteenth. -/
theorem dump_links_alternating :
    ¬List.Forall₂ Allowed ((dumped [alternating 17]).flatMap fun line => line.cells.map fun c => twoLinks.linkOf c.pen.link)
      (Replay.replay (fun _ => 1) (dumpBuffer [alternating 17] twoLinks maxLinkDumpBytes)).columns := by
  intro h
  have hmem : (some (longLink 'a'), some (longLink 'b')) ∈
      ((dumped [alternating 17]).flatMap fun line => line.cells.map fun c => twoLinks.linkOf c.pen.link).zip
        (Replay.replay (fun _ => 1) (dumpBuffer [alternating 17] twoLinks maxLinkDumpBytes)).columns := by decide +kernel
  have hallowed : Allowed (some (longLink 'a')) (some (longLink 'b')) := (List.forall₂_iff_zip.mp h).2 hmem
  have hne : longLink 'b' ≠ longLink 'a' := by decide +kernel
  rcases hallowed with hno | heq
  · cases hno
  · exact hne (Option.some.inj heq)

end Holdfast.Terminal.Avt

/-
  Holdfast.Terminal.Screen — the terminal of the vendored emulator: what a function does to
  its screens (`Terminal` of `vendor/avt/src/terminal.rs`, `Tabs` of `tabs.rs`, `Charset` of
  `charset.rs`).

  `none` is a panic, as in `Holdfast.Terminal.Grid`. A terminal has a column and a row at
  least. Tab stops are kept in order, so that what the source finds by binary search is found
  here by its value. Which lines changed is left out, and so is `xtwinops`, which is never on.
-/

import Holdfast.Terminal.Reflow
import Holdfast.Terminal.Functions

namespace Holdfast.Vendor

open Holdfast.Terminal
open Avt (Pen DecMode SgrOp Hyperlink LinkTable Painted)
open Holdfast.Base.Total

/-! ## Charsets and tabs -/

def specialGfxChars : List Char :=
  ['♦', '▒', '␉', '␌', '␍', '␊', '°', '±', '␤', '␋', '┘', '┐', '┌', '└', '┼', '⎺', '⎻', '─', '⎼', '⎽',
    '├', '┤', '┴', '┬', '│', '≤', '≥', 'π', '≠', '£', '⋅']

def Charset.translate (charset : Charset) (ch : Char) : Char :=
  match charset with
  | .ascii => ch
  | .drawing => if 0x60 ≤ ch.toNat ∧ ch.toNat < 0x7f then specialGfxChars.getD (ch.toNat - 0x60) ch else ch

namespace Tabs

/-- `(start..stop).step_by(8)`. -/
def stops (start stop : Nat) : List Nat := List.range' start ((stop - start + 7) / 8) 8

def new (cols : Nat) : List Nat := stops 8 cols

def set (tabs : List Nat) (pos : Nat) : List Nat :=
  if pos ∈ tabs then tabs else tabs.takeWhile (· < pos) ++ pos :: tabs.dropWhile (· < pos)

def unset (tabs : List Nat) (pos : Nat) : List Nat := tabs.filter (· ≠ pos)

def expand (tabs : List Nat) (start stop : Nat) : List Nat := tabs ++ stops (start + (8 - start % 8)) stop

def contract (tabs : List Nat) (pos : Nat) : List Nat := tabs.takeWhile (· < pos)

def before (tabs : List Nat) (pos n : Nat) : Option Nat := (tabs.reverse.dropWhile (pos ≤ ·))[n - 1]?

def after (tabs : List Nat) (pos n : Nat) : Option Nat := (tabs.dropWhile (· ≤ pos))[n - 1]?

end Tabs

/-! ## The terminal -/

inductive BufferType where
  | primary
  | alternate
  deriving DecidableEq, Repr

inductive CursorKeysMode where
  | normal
  | application
  deriving DecidableEq, Repr

structure Cursor where
  col : Nat
  row : Nat
  visible : Bool
  deriving DecidableEq, Repr

def Cursor.default : Cursor := ⟨0, 0, true⟩

structure SavedCtx where
  cursorCol : Nat
  cursorRow : Nat
  pen : Pen
  originMode : Bool
  autoWrapMode : Bool
  deriving DecidableEq, Repr

def SavedCtx.default : SavedCtx := ⟨0, 0, .default, false, true⟩

def SavedCtx.clamp (ctx : SavedCtx) (cols rows : Nat) : SavedCtx :=
  { ctx with
    cursorCol := if cols ≤ ctx.cursorCol then cols - 1 else ctx.cursorCol
    cursorRow := if rows ≤ ctx.cursorRow then rows - 1 else ctx.cursorRow }

structure Terminal where
  cols : Nat
  rows : Nat
  buffer : Buffer
  otherBuffer : Buffer
  activeBufferType : BufferType
  scrollbackLimit : Option Nat
  cursor : Cursor
  pen : Pen
  charsets : Charset × Charset
  activeCharset : Fin 2
  tabs : List Nat
  insertMode : Bool
  originMode : Bool
  autoWrapMode : Bool
  newLineMode : Bool
  cursorKeysMode : CursorKeysMode
  topMargin : Nat
  bottomMargin : Nat
  savedCtx : SavedCtx
  alternateSavedCtx : SavedCtx
  links : LinkTable

def asUsize (value default : Nat) : Nat := if value = 0 then default else value

namespace Terminal

variable (width : Char → Nat)

def new (cols rows : Nat) (scrollbackLimit : Option Nat) : Terminal where
  cols := cols
  rows := rows
  buffer := .new cols rows scrollbackLimit .default
  otherBuffer := .new cols rows (some 0) .default
  activeBufferType := .primary
  scrollbackLimit := scrollbackLimit
  cursor := .default
  pen := .default
  charsets := (.ascii, .ascii)
  activeCharset := 0
  tabs := Tabs.new cols
  insertMode := false
  originMode := false
  autoWrapMode := true
  newLineMode := false
  cursorKeysMode := .normal
  topMargin := 0
  bottomMargin := rows - 1
  savedCtx := .default
  alternateSavedCtx := .default
  links := .empty

def view (t : Terminal) : List Line := t.buffer.lines.drop (t.buffer.lines.length - t.buffer.rows)

/-! ### Cursor -/

def saveCursor (t : Terminal) : Terminal :=
  { t with savedCtx := ⟨min t.cursor.col (t.cols - 1), t.cursor.row, t.pen, t.originMode, t.autoWrapMode⟩ }

def restoreCursor (t : Terminal) : Terminal :=
  { t with
    cursor := { t.cursor with col := t.savedCtx.cursorCol, row := t.savedCtx.cursorRow }
    pen := t.savedCtx.pen
    originMode := t.savedCtx.originMode
    autoWrapMode := t.savedCtx.autoWrapMode }

def setCol (t : Terminal) (col : Nat) : Terminal := { t with cursor := { t.cursor with col := col } }

def moveCursorToCol (t : Terminal) (col : Nat) : Terminal := t.setCol (if t.cols ≤ col then t.cols - 1 else col)

def doMoveCursorToRow (t : Terminal) (row : Nat) : Terminal :=
  { t with cursor := { t.cursor with col := min t.cursor.col (t.cols - 1), row := row } }

def actualTopMargin (t : Terminal) : Nat := if t.originMode then t.topMargin else 0

def actualBottomMargin (t : Terminal) : Nat := if t.originMode then t.bottomMargin else t.rows - 1

def moveCursorToRow (t : Terminal) (row : Nat) : Terminal :=
  t.doMoveCursorToRow (min (max (t.actualTopMargin + row) t.actualTopMargin) t.actualBottomMargin)

def moveCursorToRelCol (t : Terminal) (relCol : Int) : Terminal :=
  let newCol : Int := t.cursor.col + relCol
  t.setCol (if newCol < 0 then 0 else if t.cols ≤ newCol.toNat then t.cols - 1 else newCol.toNat)

def moveCursorHome (t : Terminal) : Terminal :=
  let t := t.setCol 0
  t.doMoveCursorToRow t.actualTopMargin

def moveCursorToNextTab (t : Terminal) (n : Nat) : Terminal :=
  t.moveCursorToCol ((Tabs.after t.tabs t.cursor.col n).getD (t.cols - 1))

def moveCursorToPrevTab (t : Terminal) (n : Nat) : Terminal := t.moveCursorToCol ((Tabs.before t.tabs t.cursor.col n).getD 0)

def scrollUpInRegion (t : Terminal) (n : Nat) : Option Terminal := do
  let buffer ← t.buffer.scrollUp t.topMargin (t.bottomMargin + 1) n t.pen
  return { t with buffer := buffer }

def scrollDownInRegion (t : Terminal) (n : Nat) : Option Terminal := do
  let buffer ← t.buffer.scrollDown t.topMargin (t.bottomMargin + 1) n t.pen
  return { t with buffer := buffer }

def moveCursorDownWithScroll (t : Terminal) : Option Terminal :=
  if t.cursor.row = t.bottomMargin then t.scrollUpInRegion 1
  else if t.cursor.row < t.rows - 1 then some (t.doMoveCursorToRow (t.cursor.row + 1))
  else some t

def cursorDown (t : Terminal) (n : Nat) : Terminal :=
  t.doMoveCursorToRow (if t.bottomMargin < t.cursor.row then min (t.rows - 1) (t.cursor.row + n)
    else min t.bottomMargin (t.cursor.row + n))

def cursorUp (t : Terminal) (n : Nat) : Terminal :=
  let newY : Int := t.cursor.row - n
  t.doMoveCursorToRow (if t.cursor.row < t.topMargin then max newY 0 else max newY t.topMargin).toNat

/-! ### Tabs, screens, sizes -/

def setTab (t : Terminal) : Terminal :=
  if 0 < t.cursor.col ∧ t.cursor.col < t.cols then { t with tabs := Tabs.set t.tabs t.cursor.col } else t

def clearTab (t : Terminal) : Terminal := { t with tabs := Tabs.unset t.tabs t.cursor.col }

def clearAllTabs (t : Terminal) : Terminal := { t with tabs := [] }

def switchToAlternateBuffer (t : Terminal) : Terminal :=
  match t.activeBufferType with
  | .primary => { t with
    activeBufferType := .alternate
    savedCtx := t.alternateSavedCtx
    alternateSavedCtx := t.savedCtx
    buffer := .new t.cols t.rows (some 0) t.pen
    otherBuffer := t.buffer }
  | .alternate => t

def switchToPrimaryBuffer (t : Terminal) : Terminal :=
  match t.activeBufferType with
  | .alternate => { t with
    activeBufferType := .primary
    savedCtx := t.alternateSavedCtx
    alternateSavedCtx := t.savedCtx
    buffer := t.otherBuffer
    otherBuffer := t.buffer }
  | .primary => t

def reflow (t : Terminal) : Option Terminal := do
  let (buffer, col, row) ← t.buffer.resize t.cols t.rows (t.cursor.col, t.cursor.row)
  return { t with
    buffer := buffer
    cursor := { t.cursor with col := col, row := row }
    savedCtx := SavedCtx.clamp t.savedCtx t.cols t.rows }

def resizeTabs (t : Terminal) (cols : Nat) : List Nat :=
  if cols < t.cols then Tabs.contract t.tabs cols
  else if t.cols < cols then Tabs.expand t.tabs t.cols cols
  else t.tabs

def resize (t : Terminal) (cols rows : Nat) : Option Terminal :=
  reflow { t with
    tabs := t.resizeTabs cols
    topMargin := if rows = t.rows then t.topMargin else 0
    bottomMargin := if rows = t.rows then t.bottomMargin else rows - 1
    cols := cols
    rows := rows }

def softReset (t : Terminal) : Terminal :=
  { t with
    cursor := { t.cursor with visible := true }
    topMargin := 0
    bottomMargin := t.rows - 1
    insertMode := false
    originMode := false
    pen := .default
    charsets := (.ascii, .ascii)
    activeCharset := 0
    savedCtx := .default }

/-- The links stay. -/
def hardReset (t : Terminal) : Terminal := { new t.cols t.rows t.scrollbackLimit with links := t.links }

/-! ### Printing -/

def charset (t : Terminal) : Charset := if t.activeCharset = 0 then t.charsets.1 else t.charsets.2

def printZeroWidth (t : Terminal) (ch : Char) : Option Terminal :=
  if t.cursor.col = 0 then some t
  else do
    let buffer ← t.buffer.appendZeroWidth (if t.cols ≤ t.cursor.col then t.cols - 1 else t.cursor.col - 1) t.cursor.row ch
    return { t with buffer := buffer }

/-- What was printed is as wide as the number; nothing is if there is no room. -/
def tryPrint (t : Terminal) (ch : Char) : Option (Terminal × Option Nat) :=
  if t.cols ≤ t.cursor.col then some (t, none)
  else do
    let buffer ← (if t.insertMode then t.buffer.shiftRight t.cursor.col t.cursor.row 1 t.pen else some t.buffer)
    let (buffer, printed) ← buffer.print width t.cursor.col t.cursor.row ch t.pen
    return ({ t with buffer := buffer }, printed)

def advanceCursorAfterPrint (t : Terminal) (printed : Nat) : Terminal :=
  t.setCol (if t.cursor.col + printed = t.cols ∧ t.autoWrapMode = false then t.cols - 1 else t.cursor.col + printed)

def wrapAndPrintAtLineStart (t : Terminal) (ch : Char) : Option Terminal := do
  let t ← (if t.cursor.row = t.bottomMargin then do
      let buffer ← t.buffer.wrap t.cursor.row
      scrollUpInRegion { t with buffer := buffer } 1
    else if t.cursor.row < t.rows - 1 then do
      let buffer ← t.buffer.wrap t.cursor.row
      return { t with buffer := buffer, cursor := { t.cursor with row := t.cursor.row + 1 } }
    else some t)
  let (buffer, printed) ← t.buffer.print width 0 t.cursor.row ch t.pen
  return setCol { t with buffer := buffer } (printed.getD 0)

def printAtLineEnd (t : Terminal) (ch : Char) : Option Terminal :=
  if t.cursor.col = 0 then some (t.setCol (t.cols - 1))
  else do
    let col := t.cursor.col - 1
    let (buffer, printed) ← t.buffer.print width col t.cursor.row ch t.pen
    if printed.isNone ∧ 0 < col then
      let (buffer, _) ← buffer.print width (col - 1) t.cursor.row ch t.pen
      return setCol { t with buffer := buffer } (t.cols - 1)
    else return setCol { t with buffer := buffer } (t.cols - 1)

def print (t : Terminal) (ch : Char) : Option Terminal :=
  let ch := t.charset.translate ch
  if width ch = 0 then t.printZeroWidth ch
  else do
    let (t, printed) ← t.tryPrint width ch
    match printed with
    | some printed => return t.advanceCursorAfterPrint printed
    | none => if t.autoWrapMode then t.wrapAndPrintAtLineStart width ch else t.printAtLineEnd width ch

/-- `buffer[(col, row)]`. -/
def cell (t : Terminal) (col row : Nat) : Option Cell := do
  let line ← t.buffer.line row
  line.cells[col]?

/-- The column where the glyph at a column begins. -/
def glyphCol (t : Terminal) (row : Nat) : Nat → Option Nat
  | 0 => some 0
  | col + 1 => do
    let cell ← t.cell (col + 1) row
    if cell.occupancy = .wideTail then glyphCol t row col else return col + 1

/-! ### Functions -/

def bs (t : Terminal) : Terminal := t.moveCursorToRelCol (if t.cursor.col = t.cols then -2 else -1)

def lf (t : Terminal) : Option Terminal := do
  let t ← t.moveCursorDownWithScroll
  return if t.newLineMode then t.setCol 0 else t

def nel (t : Terminal) : Option Terminal := do
  let t ← t.moveCursorDownWithScroll
  return t.setCol 0

def ri (t : Terminal) : Option Terminal :=
  if t.cursor.row = t.topMargin then t.scrollDownInRegion 1
  else if 0 < t.cursor.row then some (t.moveCursorToRow (t.cursor.row - 1))
  else some t

def printE (t : Terminal) (row col : Nat) : Option Terminal := do
  let (buffer, _) ← t.buffer.print width col row 'E' .default
  return { t with buffer := buffer }

def decaln (t : Terminal) : Option Terminal :=
  (List.range t.rows).foldlM (fun t row => (List.range t.cols).foldlM (fun t col => t.printE width row col) t) t

def printSpace (t : Terminal) (col : Nat) : Option Terminal := do
  let (buffer, _) ← t.buffer.print width col t.cursor.row ' ' t.pen
  return { t with buffer := buffer }

def ich (t : Terminal) (n : Nat) : Option Terminal := do
  let t := if t.cursor.col = t.cols then t.setCol (t.cols - 1) else t
  if t.cols < t.cursor.col then none
  else
    let n := min (asUsize n 1) (t.cols - t.cursor.col)
    let buffer ← t.buffer.shiftRight t.cursor.col t.cursor.row n t.pen
    (List.range' t.cursor.col n).foldlM (fun t col => t.printSpace width col) { t with buffer := buffer }

def cub (t : Terminal) (n : Nat) : Terminal :=
  t.moveCursorToRelCol (if t.cursor.col = t.cols then -(asUsize n 1 : Int) - 1 else -(asUsize n 1 : Int))

def erase (t : Terminal) (mode : EraseMode) : Option Terminal := do
  let buffer ← t.buffer.erase t.cursor.col t.cursor.row mode t.pen
  return { t with buffer := buffer }

def ed (t : Terminal) : EdScope → Option Terminal
  | .below => t.erase .fromCursorToEndOfView
  | .above => t.erase .fromStartOfViewToCursor
  | .all => t.erase .wholeView
  | .savedLines => some t

def el (t : Terminal) : ElScope → Option Terminal
  | .toRight => t.erase .fromCursorToEndOfLine
  | .toLeft => t.erase .fromStartOfLineToCursor
  | .all => t.erase .wholeLine

/-- Where the rows that lines are put in or taken out of end. -/
def rangeEnd (t : Terminal) : Nat := if t.cursor.row ≤ t.bottomMargin then t.bottomMargin + 1 else t.rows

def il (t : Terminal) (n : Nat) : Option Terminal := do
  let buffer ← t.buffer.scrollDown t.cursor.row t.rangeEnd (asUsize n 1) t.pen
  return { t with buffer := buffer }

def dl (t : Terminal) (n : Nat) : Option Terminal := do
  let buffer ← t.buffer.scrollUp t.cursor.row t.rangeEnd (asUsize n 1) t.pen
  return { t with buffer := buffer }

def dch (t : Terminal) (n : Nat) : Option Terminal := do
  let t := if t.cols ≤ t.cursor.col then t.moveCursorToCol (t.cols - 1) else t
  let buffer ← t.buffer.delete t.cursor.col t.cursor.row (asUsize n 1) t.pen
  return { t with buffer := buffer }

def ctc (t : Terminal) : CtcOp → Terminal
  | .set => t.setTab
  | .clearCurrentColumn => t.clearTab
  | .clearAll => t.clearAllTabs

def rep (t : Terminal) (n : Nat) : Option Terminal :=
  if t.cursor.col = 0 then some t
  else do
    let col ← t.glyphCol t.cursor.row (t.cursor.col - 1)
    let cell ← t.cell col t.cursor.row
    iterate (fun t => t.print width cell.ch) (asUsize n 1) t

def tbc (t : Terminal) : TbcScope → Terminal
  | .currentColumn => t.clearTab
  | .all => t.clearAllTabs

def setMode (on : Bool) (t : Terminal) : AnsiMode → Terminal
  | .insert => { t with insertMode := on }
  | .newLine => { t with newLineMode := on }

def decstbm (t : Terminal) (top bottom : Nat) : Terminal :=
  let top := asUsize top 1 - 1
  let bottom := asUsize bottom t.rows - 1
  moveCursorHome (if top < bottom ∧ bottom < t.rows then { t with topMargin := top, bottomMargin := bottom } else t)

def decset (t : Terminal) : DecMode → Option Terminal
  | .cursorKeys => some { t with cursorKeysMode := .application }
  | .origin => some (moveCursorHome { t with originMode := true })
  | .autoWrap => some { t with autoWrapMode := true }
  | .textCursorEnable => some { t with cursor := { t.cursor with visible := true } }
  | .altScreenBuffer => t.switchToAlternateBuffer.reflow
  | .saveCursor => some t.saveCursor
  | .saveCursorAltScreenBuffer => t.saveCursor.switchToAlternateBuffer.reflow

def decrst (t : Terminal) : DecMode → Option Terminal
  | .cursorKeys => some { t with cursorKeysMode := .normal }
  | .origin => some (moveCursorHome { t with originMode := false })
  | .autoWrap => some { t with autoWrapMode := false }
  | .textCursorEnable => some { t with cursor := { t.cursor with visible := false } }
  | .altScreenBuffer => t.switchToPrimaryBuffer.reflow
  | .saveCursor => some t.restoreCursor
  | .saveCursorAltScreenBuffer => t.switchToPrimaryBuffer.restoreCursor.reflow

def setHyperlink (t : Terminal) : Option Hyperlink → Terminal
  | some link => { t with links := (t.links.intern link).1, pen := { t.pen with link := (t.links.intern link).2 } }
  | none => { t with pen := { t.pen with link := 0 } }

def execute (t : Terminal) : Function → Option Terminal
  | .setHyperlink link => some (t.setHyperlink link)
  | .bs => some t.bs
  | .cbt n => some (t.moveCursorToPrevTab (asUsize n 1))
  | .cha n => some (t.moveCursorToCol (asUsize n 1 - 1))
  | .cht n => some (t.moveCursorToNextTab (asUsize n 1))
  | .cnl n => some ((t.cursorDown (asUsize n 1)).setCol 0)
  | .cpl n => some ((t.cursorUp (asUsize n 1)).setCol 0)
  | .cr => some (t.setCol 0)
  | .ctc op => some (t.ctc op)
  | .cub n => some (t.cub n)
  | .cud n => some (t.cursorDown (asUsize n 1))
  | .cuf n => some (t.moveCursorToRelCol (asUsize n 1))
  | .cup row col => some ((t.moveCursorToCol (asUsize col 1 - 1)).moveCursorToRow (asUsize row 1 - 1))
  | .cuu n => some (t.cursorUp (asUsize n 1))
  | .dch n => t.dch n
  | .decaln => t.decaln width
  | .decrc => some t.restoreCursor
  | .decrst modes => modes.foldlM decrst t
  | .decsc => some t.saveCursor
  | .decset modes => modes.foldlM decset t
  | .decstbm top bottom => some (t.decstbm top bottom)
  | .decstr => some t.softReset
  | .dl n => t.dl n
  | .ech n => t.erase (.nextChars (asUsize n 1))
  | .ed scope => t.ed scope
  | .el scope => t.el scope
  | .g1d4 charset => some { t with charsets := (t.charsets.1, charset) }
  | .gzd4 charset => some { t with charsets := (charset, t.charsets.2) }
  | .ht => some (t.moveCursorToNextTab 1)
  | .hts => some t.setTab
  | .ich n => t.ich width n
  | .il n => t.il n
  | .lf => t.lf
  | .nel => t.nel
  | .print ch => t.print width ch
  | .rep n => t.rep width n
  | .ri => t.ri
  | .ris => some t.hardReset
  | .rm modes => some (modes.foldl (setMode false) t)
  | .scorc => some t.restoreCursor
  | .scosc => some t.saveCursor
  | .sd n => t.scrollDownInRegion (asUsize n 1)
  | .sgr ops => some { t with pen := ops.foldl Pen.sgr t.pen }
  | .si => some { t with activeCharset := 0 }
  | .sm modes => some (modes.foldl (setMode true) t)
  | .so => some { t with activeCharset := 1 }
  | .su n => t.scrollUpInRegion (asUsize n 1)
  | .tbc scope => some (t.tbc scope)
  | .vpa n => some (t.moveCursorToRow (asUsize n 1 - 1))
  | .vpr n => some (t.cursorDown (asUsize n 1))
  | .xtwinops _ _ => some t

/-- The lines that leave the scrollback of the primary screen. -/
def gc (t : Terminal) : Option (Terminal × List Line) := do
  let (buffer, lines) ← t.buffer.gc
  return ({ t with buffer := buffer }, if t.activeBufferType = .alternate then [] else lines)

end Terminal

/-! ## Sound terminals -/

/-- Stops in order, on columns behind the first. -/
structure Tabs.Stops (cols : Nat) (tabs : List Nat) : Prop where
  sorted : tabs.Pairwise (· < ·)
  within : ∀ t ∈ tabs, 0 < t ∧ t < cols

namespace Tabs

variable {cols : Nat} {tabs : List Nat}

theorem mem_stops {start stop t : Nat} (h : t ∈ stops start stop) : start ≤ t ∧ t < stop := by
  obtain ⟨i, hi, rfl⟩ := List.mem_range'.mp h
  omega

theorem sorted_stops (start stop : Nat) : (stops start stop).Pairwise (· < ·) := List.pairwise_lt_range' _

theorem new_stops (cols : Nat) : Stops cols (new cols) where
  sorted := sorted_stops 8 cols
  within t ht := by
    have := mem_stops ht
    omega

theorem sorted_insert {pos : Nat} (h : tabs.Pairwise (· < ·)) (hpos : pos ∉ tabs) :
    (tabs.takeWhile (· < pos) ++ pos :: tabs.dropWhile (· < pos)).Pairwise (· < ·) := by
  induction tabs with
  | nil => exact List.pairwise_singleton _ _
  | cons a tabs ih =>
    obtain ⟨ha, htabs⟩ := List.pairwise_cons.mp h
    rw [List.mem_cons, not_or] at hpos
    obtain ⟨hne, hpos⟩ := hpos
    by_cases hlt : a < pos
    · rw [List.takeWhile_cons_of_pos (by simpa using hlt), List.dropWhile_cons_of_pos (by simpa using hlt), List.cons_append]
      refine List.pairwise_cons.mpr ⟨fun b hb => ?_, ih htabs hpos⟩
      rcases List.mem_append.mp hb with hb | hb
      · exact ha b ((List.takeWhile_sublist _).subset hb)
      · rcases List.mem_cons.mp hb with rfl | hb
        · exact hlt
        · exact ha b ((List.dropWhile_sublist _).subset hb)
    · rw [List.takeWhile_cons_of_neg (by simpa using hlt), List.dropWhile_cons_of_neg (by simpa using hlt), List.nil_append]
      refine List.pairwise_cons.mpr ⟨fun b hb => ?_, h⟩
      rcases List.mem_cons.mp hb with rfl | hb
      · omega
      · have := ha b hb
        omega

theorem set_stops (h : Stops cols tabs) {pos : Nat} (hpos : 0 < pos ∧ pos < cols) : Stops cols (set tabs pos) := by
  unfold set
  split
  · exact h
  · refine ⟨sorted_insert h.sorted ‹_›, fun t ht => ?_⟩
    rcases List.mem_append.mp ht with ht | ht
    · exact h.within t ((List.takeWhile_sublist _).subset ht)
    · rcases List.mem_cons.mp ht with rfl | ht
      · exact hpos
      · exact h.within t ((List.dropWhile_sublist _).subset ht)

theorem unset_stops (h : Stops cols tabs) (pos : Nat) : Stops cols (unset tabs pos) :=
  ⟨h.sorted.filter _, fun t ht => h.within t (List.mem_of_mem_filter ht)⟩

theorem nil_stops : Stops cols [] := ⟨List.Pairwise.nil, nofun⟩

theorem expand_stops (h : Stops cols tabs) {stop : Nat} (hstop : cols < stop) : Stops stop (expand tabs cols stop) where
  sorted := List.pairwise_append.mpr ⟨h.sorted, sorted_stops _ _, fun a ha b hb => by
    have := (h.within a ha).2
    have := (mem_stops hb).1
    omega⟩
  within t ht := by
    rcases List.mem_append.mp ht with ht | ht
    · have := h.within t ht
      omega
    · have := mem_stops ht
      omega

theorem contract_stops (h : Stops cols tabs) (pos : Nat) : Stops pos (contract tabs pos) where
  sorted := h.sorted.sublist (List.takeWhile_sublist _)
  within t ht := ⟨(h.within t ((List.takeWhile_sublist _).subset ht)).1, by simpa using List.mem_takeWhile_imp ht⟩

end Tabs

structure SavedCtx.Ok (cols rows : Nat) (ctx : SavedCtx) : Prop where
  col : ctx.cursorCol < cols
  row : ctx.cursorRow < rows
  pen : Painted ctx.pen

namespace Terminal

variable (width : Char → Nat)

/-- A screen that another takes the place of, with the cursor saved there. -/
structure Away (cols : Nat) (b : Buffer) (ctx : SavedCtx) : Prop where
  wide : 0 < b.cols
  buffer : Buffer.Ok width b.cols b
  saved : SavedCtx.Ok b.cols b.rows ctx
  fits : cols ≠ b.cols → 2 ≤ cols ∧ b.Whole cols

/-- What holds of a terminal besides its screen and its cursor. -/
structure Steady (t : Terminal) : Prop where
  cols : 0 < t.cols
  rows : 0 < t.rows
  margins : t.topMargin ≤ t.bottomMargin
  bottom : t.bottomMargin < t.rows
  pen : Painted t.pen
  alternatePen : Painted t.alternateSavedCtx.pen
  tabs : Tabs.Stops t.cols t.tabs
  away : t.activeBufferType = .alternate → Away width t.cols t.otherBuffer t.alternateSavedCtx

structure Ok (t : Terminal) : Prop extends Steady width t where
  buffer : Buffer.Ok width t.cols t.buffer
  sameRows : t.buffer.rows = t.rows
  col : t.cursor.col ≤ t.cols
  row : t.cursor.row < t.rows
  saved : SavedCtx.Ok t.cols t.rows t.savedCtx

variable {width} {t : Terminal}

theorem Ok.at (h : Ok width t) {c : Cursor} (hcol : c.col ≤ t.cols) (hrow : c.row < t.rows) : Ok width { t with cursor := c } :=
  { h with col := hcol, row := hrow }

theorem Ok.screen (h : Ok width t) {b : Buffer} (hb : Buffer.Keeps width t.cols t.buffer b) : Ok width { t with buffer := b } :=
  { h with buffer := hb.toOk, sameRows := hb.sameRows.trans h.sameRows }

theorem Ok.painted (h : Ok width t) {pen : Pen} (hp : Painted pen) : Ok width { t with pen := pen } := { h with pen := hp }

/-! ### The cursor stays where there are cells -/

theorem setCol_ok (h : Ok width t) {col : Nat} (hcol : col ≤ t.cols) : Ok width (t.setCol col) := h.at hcol h.row

theorem moveCursorToCol_ok (h : Ok width t) (col : Nat) : Ok width (t.moveCursorToCol col) := by
  refine setCol_ok h ?_
  split <;> omega

theorem doMoveCursorToRow_ok (h : Ok width t) {row : Nat} (hrow : row < t.rows) : Ok width (t.doMoveCursorToRow row) :=
  h.at (Nat.le_trans (Nat.min_le_right _ _) (Nat.sub_le _ _)) hrow

theorem actualBottom_lt (h : Ok width t) : t.actualBottomMargin < t.rows := by
  have := h.rows
  have := h.bottom
  unfold actualBottomMargin
  split <;> omega

theorem moveCursorToRow_ok (h : Ok width t) (row : Nat) : Ok width (t.moveCursorToRow row) :=
  doMoveCursorToRow_ok h (Nat.lt_of_le_of_lt (Nat.min_le_right _ _) (actualBottom_lt h))

theorem moveCursorToRelCol_ok (h : Ok width t) (relCol : Int) : Ok width (t.moveCursorToRelCol relCol) := by
  refine setCol_ok h ?_
  split
  · exact Nat.zero_le _
  split <;> omega

theorem moveCursorHome_ok (h : Ok width t) : Ok width t.moveCursorHome := by
  refine doMoveCursorToRow_ok (setCol_ok h (Nat.zero_le _)) ?_
  have hrows := h.rows
  have htop := h.margins
  have hbottom := h.bottom
  show (if t.originMode = true then t.topMargin else 0) < t.rows
  split <;> omega

theorem cursorDown_ok (h : Ok width t) (n : Nat) : Ok width (t.cursorDown n) := by
  have hbottom := h.bottom
  refine doMoveCursorToRow_ok h ?_
  split <;> omega

theorem cursorUp_ok (h : Ok width t) (n : Nat) : Ok width (t.cursorUp n) := by
  have hrow := h.row
  have hmargins := h.margins
  have hbottom := h.bottom
  refine doMoveCursorToRow_ok h ?_
  split <;> omega

theorem saveCursor_ok (h : Ok width t) : Ok width t.saveCursor := by
  have hcols := h.cols
  exact { h with saved := ⟨by show min t.cursor.col (t.cols - 1) < t.cols; omega, h.row, h.pen⟩ }

theorem restoreCursor_ok (h : Ok width t) : Ok width t.restoreCursor :=
  { h with pen := h.saved.pen, col := Nat.le_of_lt h.saved.col, row := h.saved.row }

/-! ### Tabs -/

theorem setTab_ok (h : Ok width t) : Ok width t.setTab := by
  unfold setTab
  split
  · exact { h with tabs := Tabs.set_stops h.tabs ‹_› }
  · exact h

theorem clearTab_ok (h : Ok width t) : Ok width t.clearTab := { h with tabs := Tabs.unset_stops h.tabs _ }

theorem clearAllTabs_ok (h : Ok width t) : Ok width t.clearAllTabs := { h with tabs := Tabs.nil_stops }

/-! ### Another screen, another size -/

/-- A terminal whose screen is still of another size. -/
structure Unfit (width : Char → Nat) (t : Terminal) : Prop extends Steady width t where
  wide : 0 < t.buffer.cols
  buffer : Buffer.Ok width t.buffer.cols t.buffer
  fits : t.cols ≠ t.buffer.cols → 2 ≤ t.cols ∧ t.buffer.Whole t.cols
  col : t.cols = t.buffer.cols → t.cursor.col ≤ t.cols
  row : t.cursor.row < t.buffer.rows ∨ t.cursor.row < t.rows
  savedPen : Painted t.savedCtx.pen

theorem clamp_ok {ctx : SavedCtx} (h : Painted ctx.pen) {cols rows : Nat} (hcols : 0 < cols) (hrows : 0 < rows) :
    SavedCtx.Ok cols rows (ctx.clamp cols rows) where
  col := by
    show (if cols ≤ ctx.cursorCol then cols - 1 else ctx.cursorCol) < cols
    split <;> omega
  row := by
    show (if rows ≤ ctx.cursorRow then rows - 1 else ctx.cursorRow) < rows
    split <;> omega
  pen := h

theorem Ok.unfit (h : Ok width t) : Unfit width t where
  toSteady := h.toSteady
  wide := h.buffer.wide.symm ▸ h.cols
  buffer := h.buffer.wide.symm ▸ h.buffer
  fits hne := absurd h.buffer.wide.symm hne
  col _ := h.col
  row := .inr h.row
  savedPen := h.saved.pen

section

variable (hspace : width ' ' = 1)

include hspace

theorem reflow_ok (h : Unfit width t) : Gives t.reflow (Ok width) := by
  unfold reflow
  refine (Buffer.resize_ok hspace h.buffer h.wide h.rows h.fits h.row).bind fun r ⟨hok, hsame, hrow, hcol⟩ => gives_pure ?_
  have hcol' : r.2.1 ≤ t.cols := by
    rcases hcol with ⟨hcol, hwide⟩ | hcol
    · rw [hcol]
      exact h.col hwide
    · exact Nat.le_of_lt hcol
  exact { h with buffer := hok, sameRows := hsame, col := hcol', row := hrow, saved := clamp_ok h.savedPen h.cols h.rows }

theorem switchToAlternateBuffer_unfit (h : Ok width t) : Unfit width t.switchToAlternateBuffer := by
  unfold switchToAlternateBuffer
  split
  · rename_i hactive
    have hsaved : SavedCtx.Ok t.buffer.cols t.buffer.rows t.savedCtx := by
      rw [h.buffer.wide, h.sameRows]
      exact h.saved
    have haway : Away width t.cols t.buffer t.savedCtx :=
      ⟨h.buffer.wide.symm ▸ h.cols, h.buffer.wide.symm ▸ h.buffer, hsaved, fun hne => absurd h.buffer.wide.symm hne⟩
    exact { h with
      alternatePen := h.saved.pen
      away := fun _ => haway
      wide := h.cols
      buffer := Buffer.new_ok hspace h.pen h.rows _
      fits := fun hne => absurd rfl hne
      col := fun _ => h.col
      row := .inr h.row
      savedPen := h.alternatePen }
  · exact h.unfit

omit hspace in
/-- Back on the primary screen, with the cursor of either screen. -/
theorem switchToPrimaryBuffer_unfit (h : Ok width t) :
    Unfit width t.switchToPrimaryBuffer ∧ Unfit width t.switchToPrimaryBuffer.restoreCursor := by
  unfold switchToPrimaryBuffer
  split
  · rename_i hactive
    have haway := h.away hactive
    have hunfit : Unfit width { t with
        activeBufferType := .primary, savedCtx := t.alternateSavedCtx, alternateSavedCtx := t.savedCtx,
          buffer := t.otherBuffer, otherBuffer := t.buffer } :=
      { h with
        alternatePen := h.saved.pen
        away := nofun
        wide := haway.wide
        buffer := haway.buffer
        fits := haway.fits
        col := fun _ => h.col
        row := .inr h.row
        savedPen := haway.saved.pen }
    have hcol : ∀ hwide : t.cols = t.otherBuffer.cols, t.alternateSavedCtx.cursorCol ≤ t.cols := fun hwide => by
      rw [hwide]
      exact Nat.le_of_lt haway.saved.col
    exact ⟨hunfit, { hunfit with pen := haway.saved.pen, col := hcol, row := .inl haway.saved.row }⟩
  · exact ⟨h.unfit, (restoreCursor_ok h).unfit⟩

/-- Both screens of a terminal take another width without a cut through a line that goes on. -/
structure Resizable (t : Terminal) (cols rows : Nat) : Prop where
  positive : 0 < cols ∧ 0 < rows
  buffer : cols ≠ t.cols → 2 ≤ cols ∧ t.buffer.Whole cols
  otherBuffer : t.activeBufferType = .alternate → cols ≠ t.otherBuffer.cols → 2 ≤ cols ∧ t.otherBuffer.Whole cols

omit hspace in
theorem resizeTabs_stops (h : Ok width t) (cols : Nat) : Tabs.Stops cols (t.resizeTabs cols) := by
  unfold resizeTabs
  by_cases hless : cols < t.cols
  · rw [if_pos hless]
    exact Tabs.contract_stops h.tabs cols
  rw [if_neg hless]
  by_cases hmore : t.cols < cols
  · rw [if_pos hmore]
    exact Tabs.expand_stops h.tabs hmore
  · rw [if_neg hmore, show cols = t.cols by omega]
    exact h.tabs

theorem resize_ok (h : Ok width t) {cols rows : Nat} (hr : t.Resizable cols rows) : Gives (t.resize cols rows) (Ok width) := by
  have hwide := h.buffer.wide
  obtain ⟨hcols, hrows⟩ := hr.positive
  have hmargins : (if rows = t.rows then t.topMargin else 0) ≤ (if rows = t.rows then t.bottomMargin else rows - 1) ∧
      (if rows = t.rows then t.bottomMargin else rows - 1) < rows := by
    have := h.margins
    have := h.bottom
    split <;> omega
  refine reflow_ok hspace { h with
    cols := hcols
    rows := hrows
    margins := hmargins.1
    bottom := hmargins.2
    tabs := resizeTabs_stops h cols
    away := fun hactive => { h.away hactive with fits := hr.otherBuffer hactive }
    wide := hwide.symm ▸ h.cols
    buffer := hwide.symm ▸ h.buffer
    fits := fun hne => hr.buffer (hwide ▸ hne)
    col := fun heq => ?_
    row := .inl (h.sameRows.symm ▸ h.row)
    savedPen := h.saved.pen }
  show t.cursor.col ≤ cols
  have heq : cols = t.buffer.cols := heq
  rw [heq, hwide]
  exact h.col

/-! ### Resets -/

omit hspace in
theorem saved_default {cols rows : Nat} (hcols : 0 < cols) (hrows : 0 < rows) : SavedCtx.Ok cols rows .default :=
  ⟨hcols, hrows, Avt.painted_default⟩

theorem new_ok {cols rows : Nat} (hcols : 0 < cols) (hrows : 0 < rows) (limit : Option Nat) :
    Ok width (.new cols rows limit) where
  cols := hcols
  rows := hrows
  margins := Nat.zero_le _
  bottom := Nat.sub_one_lt_of_lt hrows
  pen := Avt.painted_default
  alternatePen := Avt.painted_default
  tabs := Tabs.new_stops cols
  away := nofun
  buffer := Buffer.new_ok hspace Avt.painted_default hrows limit
  sameRows := rfl
  col := Nat.zero_le _
  row := hrows
  saved := saved_default hcols hrows

theorem hardReset_ok (h : Ok width t) : Ok width t.hardReset := { new_ok hspace h.cols h.rows t.scrollbackLimit with }

omit hspace in
theorem softReset_ok (h : Ok width t) : Ok width t.softReset :=
  { h with
    margins := Nat.zero_le _, bottom := Nat.sub_one_lt_of_lt h.rows, pen := Avt.painted_default,
    saved := saved_default h.cols h.rows }

end

/-! ### Scrolling -/

theorem row_lt (h : Ok width t) : t.cursor.row < t.buffer.rows := h.sameRows.symm ▸ h.row

section

variable (hspace : width ' ' = 1)

include hspace

/-- Also where the row in front of the end of the region goes on, for now. -/
theorem scrollUp_gives (h : Ok width t) {b : Buffer} (hb : Buffer.Sized width t.cols b) (hrows : b.rows = t.rows)
    (hends : t.bottomMargin + 1 < b.rows → Buffer.Ends b.lines) {n : Nat} (hn : 0 < n) :
    Gives (scrollUpInRegion { t with buffer := b } n) (Ok width) := by
  have hmargins := h.margins
  have hbottom := h.bottom
  unfold scrollUpInRegion
  refine (Buffer.scrollUp_ok hspace hb h.pen (Nat.lt_succ_of_le hmargins) (by omega) hn hends).bind fun b' hb' => gives_pure ?_
  exact { h with buffer := hb'.toOk, sameRows := hb'.sameRows.trans hrows }

theorem scrollUpInRegion_ok (h : Ok width t) {n : Nat} (hn : 0 < n) : Gives (t.scrollUpInRegion n) (Ok width) :=
  scrollUp_gives hspace h h.buffer.toSized h.sameRows (fun _ => h.buffer.ends) hn

theorem scrollDownInRegion_ok (h : Ok width t) (n : Nat) : Gives (t.scrollDownInRegion n) (Ok width) := by
  have hrows := h.sameRows
  have hmargins := h.margins
  have hbottom := h.bottom
  unfold scrollDownInRegion
  exact (Buffer.scrollDown_ok hspace h.buffer h.pen (by omega) (by omega) n).bind fun b hb => gives_pure (h.screen hb)

theorem moveCursorDownWithScroll_ok (h : Ok width t) : Gives t.moveCursorDownWithScroll (Ok width) := by
  unfold moveCursorDownWithScroll
  split
  · exact scrollUpInRegion_ok hspace h Nat.one_pos
  split
  · exact gives_some.mpr (doMoveCursorToRow_ok h (by omega))
  · exact gives_some.mpr h

theorem lf_ok (h : Ok width t) : Gives t.lf (Ok width) := by
  unfold lf
  refine (moveCursorDownWithScroll_ok hspace h).bind fun t' h' => gives_pure ?_
  split
  · exact setCol_ok h' (Nat.zero_le _)
  · exact h'

theorem nel_ok (h : Ok width t) : Gives t.nel (Ok width) :=
  (moveCursorDownWithScroll_ok hspace h).bind fun _ h' => gives_pure (setCol_ok h' (Nat.zero_le _))

theorem ri_ok (h : Ok width t) : Gives t.ri (Ok width) := by
  unfold ri
  split
  · exact scrollDownInRegion_ok hspace h 1
  split
  · exact gives_some.mpr (moveCursorToRow_ok h _)
  · exact gives_some.mpr h

omit hspace in
theorem rangeEnd_ok (h : Ok width t) : t.cursor.row < t.rangeEnd ∧ t.rangeEnd ≤ t.buffer.rows := by
  have hrow := h.row
  have hbottom := h.bottom
  rw [h.sameRows]
  unfold rangeEnd
  split <;> omega

omit hspace in
theorem asUsize_pos (n : Nat) : 0 < asUsize n 1 := by
  unfold asUsize
  split <;> omega

theorem il_ok (h : Ok width t) (n : Nat) : Gives (t.il n) (Ok width) := by
  obtain ⟨hstart, hstop⟩ := rangeEnd_ok h
  exact (Buffer.scrollDown_ok hspace h.buffer h.pen hstart hstop _).bind fun b hb => gives_pure (h.screen hb)

theorem dl_ok (h : Ok width t) (n : Nat) : Gives (t.dl n) (Ok width) := by
  obtain ⟨hstart, hstop⟩ := rangeEnd_ok h
  exact (Buffer.scrollUp_ok hspace h.buffer.toSized h.pen hstart hstop (asUsize_pos n) fun _ => h.buffer.ends).bind
    fun b hb => gives_pure (h.screen hb)

theorem erase_ok (h : Ok width t) (mode : EraseMode) : Gives (t.erase mode) (Ok width) :=
  (Buffer.erase_ok hspace h.buffer h.pen h.col (row_lt h) mode).bind fun _ hb => gives_pure (h.screen hb)

theorem ed_ok (h : Ok width t) (scope : EdScope) : Gives (t.ed scope) (Ok width) := by
  cases scope with
  | savedLines => exact gives_some.mpr h
  | _ => exact erase_ok hspace h _

theorem el_ok (h : Ok width t) (scope : ElScope) : Gives (t.el scope) (Ok width) := by
  cases scope <;> exact erase_ok hspace h _

theorem dch_ok (h : Ok width t) (n : Nat) : Gives (t.dch n) (Ok width) := by
  have hcols := h.cols
  have hmoved : Ok width (if t.cols ≤ t.cursor.col then t.moveCursorToCol (t.cols - 1) else t) ∧
      (if t.cols ≤ t.cursor.col then t.moveCursorToCol (t.cols - 1) else t).cursor.col <
        (if t.cols ≤ t.cursor.col then t.moveCursorToCol (t.cols - 1) else t).cols := by
    split
    · refine ⟨moveCursorToCol_ok h _, ?_⟩
      show (if t.cols ≤ t.cols - 1 then t.cols - 1 else t.cols - 1) < t.cols
      split <;> omega
    · exact ⟨h, by omega⟩
  unfold dch
  generalize (if t.cols ≤ t.cursor.col then t.moveCursorToCol (t.cols - 1) else t) = t' at hmoved ⊢
  obtain ⟨h', hcol⟩ := hmoved
  exact (Buffer.delete_ok hspace h'.buffer h'.pen hcol (row_lt h') _).bind fun b hb => gives_pure (h'.screen hb)

end

/-! ### Printing -/

/-- What the emulator's widths are like. -/
structure Measures (width : Char → Nat) : Prop where
  space : width ' ' = 1
  letter : width 'E' = 1
  most : ∀ ch, width ch ≤ 2

section

variable (hm : Measures width)

include hm

omit hm in
theorem printZeroWidth_ok (h : Ok width t) {ch : Char} (hch : width ch = 0) : Gives (t.printZeroWidth ch) (Ok width) := by
  have hcols := h.cols
  have hcol := h.col
  unfold printZeroWidth
  split
  · exact gives_some.mpr h
  · refine (Buffer.appendZeroWidth_ok h.buffer hch ?_ (row_lt h)).bind fun _ hb => gives_pure (h.screen hb)
    split <;> omega

theorem tryPrint_ok (h : Ok width t) {ch : Char} (hch : width ch = 1 ∨ width ch = 2) : Gives (t.tryPrint width ch)
    fun r => Ok width r.1 ∧ ∀ printed, r.2 = some printed → r.1.cursor.col + printed ≤ r.1.cols := by
  unfold tryPrint
  split
  · exact gives_some.mpr ⟨h, nofun⟩
  rename_i hcol
  have hcol : t.cursor.col < t.cols := Nat.not_le.mp hcol
  have hinsert : Gives (if t.insertMode = true then t.buffer.shiftRight t.cursor.col t.cursor.row 1 t.pen else some t.buffer)
      (Buffer.Keeps width t.cols t.buffer) := by
    split
    · exact Buffer.shiftRight_ok hm.space h.buffer h.pen hcol (row_lt h) 1
    · exact gives_some.mpr ⟨h.buffer, rfl⟩
  refine hinsert.bind fun b hb => ?_
  have hrow : t.cursor.row < b.rows := hb.sameRows.symm ▸ row_lt h
  refine (Buffer.print_ok hm.space hb.toOk h.pen hch hcol hrow).bind fun r ⟨hr, hfits⟩ =>
    gives_pure ⟨?_, fun printed hp => (hfits printed hp).2⟩
  exact h.screen ⟨hr.toOk, hr.sameRows.trans hb.sameRows⟩

omit hm in
theorem advanceCursorAfterPrint_ok (h : Ok width t) {printed : Nat} (hfits : t.cursor.col + printed ≤ t.cols) :
    Ok width (t.advanceCursorAfterPrint printed) := by
  refine setCol_ok h ?_
  split <;> omega

theorem wrapAndPrintAtLineStart_ok (h : Ok width t) {ch : Char} (hch : width ch = 1 ∨ width ch = 2) :
    Gives (t.wrapAndPrintAtLineStart width ch) (Ok width) := by
  unfold wrapAndPrintAtLineStart
  have hrow := h.row
  have hrows := h.sameRows
  have hwrap : Gives (if t.cursor.row = t.bottomMargin then do
        let buffer ← t.buffer.wrap t.cursor.row
        scrollUpInRegion { t with buffer := buffer } 1
      else if t.cursor.row < t.rows - 1 then do
        let buffer ← t.buffer.wrap t.cursor.row
        return { t with buffer := buffer, cursor := { t.cursor with row := t.cursor.row + 1 } }
      else some t) (Ok width) := by
    split
    · rename_i hbottom
      refine (Buffer.wrap_sized h.buffer (row_lt h)).bind fun b ⟨hsized, hsame, hends⟩ => ?_
      exact scrollUp_gives hm.space h hsized (hsame.trans hrows) (fun hlt => hends (by omega)) Nat.one_pos
    split
    · refine (Buffer.wrap_sized h.buffer (row_lt h)).bind fun b ⟨hsized, hsame, hends⟩ => gives_pure ?_
      have hb : Buffer.Keeps width t.cols t.buffer b := ⟨⟨hsized, hends (by omega)⟩, hsame⟩
      exact (h.screen hb).at h.col (by show t.cursor.row + 1 < t.rows; omega)
    · exact gives_some.mpr h
  refine hwrap.bind fun t' h' => ?_
  refine (Buffer.print_ok hm.space h'.buffer h'.pen hch h'.cols (row_lt h')).bind fun r ⟨hr, hfits⟩ =>
    gives_pure (setCol_ok (h'.screen hr) ?_)
  cases hprinted : r.2 with
  | none => exact Nat.zero_le _
  | some printed =>
    have := (hfits printed hprinted).2
    show printed ≤ t'.cols
    omega

theorem printAtLineEnd_ok (h : Ok width t) {ch : Char} (hch : width ch = 1 ∨ width ch = 2) :
    Gives (t.printAtLineEnd width ch) (Ok width) := by
  have hlast : t.cols - 1 ≤ t.cols := Nat.sub_le _ _
  have hcol := h.col
  unfold printAtLineEnd
  split
  · exact gives_some.mpr (setCol_ok h hlast)
  refine (Buffer.print_ok hm.space h.buffer h.pen hch (show t.cursor.col - 1 < t.cols by omega)
    (row_lt h)).bind fun r ⟨hr, _⟩ => ?_
  obtain ⟨b, printed⟩ := r
  have hrow : t.cursor.row < b.rows := hr.sameRows.symm ▸ row_lt h
  by_cases hmissed : printed.isNone = true ∧ 0 < t.cursor.col - 1
  · simp only [if_pos hmissed]
    refine (Buffer.print_ok hm.space hr.toOk h.pen hch (show t.cursor.col - 1 - 1 < t.cols by omega)
      hrow).bind fun r' ⟨hr', _⟩ => gives_pure ?_
    exact setCol_ok (h.screen ⟨hr'.toOk, hr'.sameRows.trans hr.sameRows⟩) hlast
  · simp only [if_neg hmissed]
    exact gives_pure (setCol_ok (h.screen hr) hlast)

theorem print_ok (h : Ok width t) (ch : Char) : Gives (t.print width ch) (Ok width) := by
  have hmost := hm.most (t.charset.translate ch)
  unfold print
  simp only
  split
  · rename_i hzero
    exact printZeroWidth_ok h hzero
  · rename_i hzero
    have hch : width (t.charset.translate ch) = 1 ∨ width (t.charset.translate ch) = 2 := by omega
    refine (tryPrint_ok hm h hch).bind fun r ⟨h', hfits⟩ => ?_
    cases hprinted : r.2 with
    | some printed => exact gives_pure (advanceCursorAfterPrint_ok h' (hfits printed hprinted))
    | none =>
      show Gives (if r.1.autoWrapMode = true then _ else _) _
      split
      · exact wrapAndPrintAtLineStart_ok hm h' hch
      · exact printAtLineEnd_ok hm h' hch

omit hm in
theorem cell_gives (h : Ok width t) {col row : Nat} (hcol : col < t.cols) (hrow : row < t.rows) :
    Gives (t.cell col row) fun _ => True := by
  obtain ⟨line, hline, hok⟩ := h.buffer.line_at (h.sameRows.symm ▸ hrow)
  have hlen : col < line.cells.length := by
    have hlen : line.cells.length = t.cols := hok.len
    omega
  unfold cell Buffer.line
  rw [h.buffer.offset]
  simp only [Option.bind_eq_bind, Option.bind_some, hline, List.getElem?_eq_getElem hlen, gives_some]

omit hm in
theorem glyphCol_gives (h : Ok width t) {row : Nat} (hrow : row < t.rows) (col : Nat) (hcol : col < t.cols) :
    Gives (t.glyphCol row col) fun col' => col' < t.cols := by
  induction col with
  | zero => exact gives_some.mpr hcol
  | succ col ih =>
    unfold glyphCol
    refine (cell_gives h hcol hrow).bind fun cell _ => ?_
    split
    · exact ih (by omega)
    · exact gives_pure hcol

theorem rep_ok (h : Ok width t) (n : Nat) : Gives (t.rep width n) (Ok width) := by
  have hcol := h.col
  unfold rep
  split
  · exact gives_some.mpr h
  · refine (glyphCol_gives h h.row _ (by omega)).bind fun col hcol => ?_
    refine (cell_gives h hcol h.row).bind fun cell _ => ?_
    exact gives_iterate (fun t' h' => print_ok hm h' cell.ch) _ h

/-- What printing somewhere in the view leaves. -/
theorem printE_ok (h : Ok width t) {col row : Nat} (hcol : col < t.cols) (hrow : row < t.rows) :
    Gives (t.printE width row col) fun t' => Ok width t' ∧ t'.cols = t.cols ∧ t'.rows = t.rows := by
  unfold printE
  refine (Buffer.print_ok hm.space h.buffer Avt.painted_default (.inl hm.letter) hcol
    (h.sameRows.symm ▸ hrow)).bind fun r ⟨hr, _⟩ => ?_
  exact gives_pure ⟨h.screen hr, rfl, rfl⟩

theorem decaln_ok (h : Ok width t) : Gives (t.decaln width) (Ok width) := by
  have hrows : Gives (t.decaln width) fun t' => Ok width t' ∧ t'.cols = t.cols ∧ t'.rows = t.rows := by
    refine gives_foldlM (fun t' ⟨h', hcols, hrows⟩ row hrow => ?_) ⟨h, rfl, rfl⟩
    have hrow := List.mem_range.mp hrow
    refine gives_foldlM (fun t'' ⟨h'', hcols', hrows'⟩ col hcol => ?_) ⟨h', hcols, hrows⟩
    have hcol := List.mem_range.mp hcol
    exact (printE_ok hm h'' (by omega) (by omega)).mono fun _ ⟨hok, hc, hr⟩ => ⟨hok, hc.trans hcols', hr.trans hrows'⟩
  exact hrows.mono fun _ hok => hok.1

theorem printSpace_ok (h : Ok width t) {col : Nat} (hcol : col < t.cols) :
    Gives (t.printSpace width col) fun t' => Ok width t' ∧ t'.cols = t.cols := by
  unfold printSpace
  refine (Buffer.print_ok hm.space h.buffer h.pen (.inl hm.space) hcol (row_lt h)).bind fun r ⟨hr, _⟩ =>
    gives_pure ⟨h.screen hr, rfl⟩

theorem ich_ok (h : Ok width t) (n : Nat) : Gives (t.ich width n) (Ok width) := by
  have hcols := h.cols
  have hcol := h.col
  have hmoved : Ok width (if t.cursor.col = t.cols then t.setCol (t.cols - 1) else t) ∧
      (if t.cursor.col = t.cols then t.setCol (t.cols - 1) else t).cursor.col <
        (if t.cursor.col = t.cols then t.setCol (t.cols - 1) else t).cols := by
    split
    · exact ⟨setCol_ok h (Nat.sub_le _ _), Nat.sub_one_lt_of_lt hcols⟩
    · exact ⟨h, by omega⟩
  unfold ich
  generalize (if t.cursor.col = t.cols then t.setCol (t.cols - 1) else t) = t' at hmoved ⊢
  obtain ⟨h', hcol'⟩ := hmoved
  simp only
  rw [if_neg (by omega)]
  refine (Buffer.shiftRight_ok hm.space h'.buffer h'.pen hcol' (row_lt h') _).bind fun b hb => ?_
  have hspaces : Gives ((List.range' t'.cursor.col (min (asUsize n 1) (t'.cols - t'.cursor.col))).foldlM
    (fun t col => t.printSpace width col)
      { t' with buffer := b }) fun t'' => Ok width t'' ∧ t''.cols = t'.cols := by
    refine gives_foldlM (fun t'' ⟨h'', hcols'⟩ col hcol => ?_) ⟨h'.screen hb, rfl⟩
    obtain ⟨i, hi, rfl⟩ := List.mem_range'.mp hcol
    exact (printSpace_ok hm h'' (by omega)).mono fun _ ⟨hok, hc⟩ => ⟨hok, hc.trans hcols'⟩
  exact hspaces.mono fun _ hok => hok.1

end

/-! ### Every function -/

theorem setMode_ok (on : Bool) (modes : List AnsiMode) (h : Ok width t) : Ok width (modes.foldl (setMode on) t) := by
  induction modes generalizing t with
  | nil => exact h
  | cons mode modes ih =>
    refine ih ?_
    cases mode <;> exact { h with }

theorem decset_ok (hspace : width ' ' = 1) (h : Ok width t) (mode : DecMode) : Gives (t.decset mode) (Ok width) := by
  cases mode with
  | cursorKeys => exact gives_some.mpr { h with }
  | origin => exact gives_some.mpr (moveCursorHome_ok { h with })
  | autoWrap => exact gives_some.mpr { h with }
  | textCursorEnable => exact gives_some.mpr { h with }
  | altScreenBuffer => exact reflow_ok hspace (switchToAlternateBuffer_unfit hspace h)
  | saveCursor => exact gives_some.mpr (saveCursor_ok h)
  | saveCursorAltScreenBuffer => exact reflow_ok hspace (switchToAlternateBuffer_unfit hspace (saveCursor_ok h))

theorem decrst_ok (hspace : width ' ' = 1) (h : Ok width t) (mode : DecMode) : Gives (t.decrst mode) (Ok width) := by
  cases mode with
  | cursorKeys => exact gives_some.mpr { h with }
  | origin => exact gives_some.mpr (moveCursorHome_ok { h with })
  | autoWrap => exact gives_some.mpr { h with }
  | textCursorEnable => exact gives_some.mpr { h with }
  | altScreenBuffer => exact reflow_ok hspace (switchToPrimaryBuffer_unfit h).1
  | saveCursor => exact gives_some.mpr (restoreCursor_ok h)
  | saveCursorAltScreenBuffer => exact reflow_ok hspace (switchToPrimaryBuffer_unfit h).2

theorem decstbm_ok (h : Ok width t) (top bottom : Nat) : Ok width (t.decstbm top bottom) := by
  refine moveCursorHome_ok ?_
  split
  · rename_i hmargins
    exact { h with margins := Nat.le_of_lt hmargins.1, bottom := hmargins.2 }
  · exact h

theorem setHyperlink_ok (h : Ok width t) (link : Option Hyperlink) : Ok width (t.setHyperlink link) := by
  have hpen : ∀ id, Painted { t.pen with link := id } := fun _ => ⟨h.pen.attrs, h.pen.foreground, h.pen.background⟩
  cases link with
  | none => exact h.painted (hpen 0)
  | some link => exact { h with pen := hpen _ }

/-- Whatever the parser makes of text. -/
theorem execute_ok (hm : Measures width) (h : Ok width t) {f : Function} (hf : Writable f) :
    Gives (t.execute width f) (Ok width) := by
  cases f with
  | setHyperlink link => exact gives_some.mpr (setHyperlink_ok h link)
  | bs => exact gives_some.mpr (moveCursorToRelCol_ok h _)
  | cbt n => exact gives_some.mpr (moveCursorToCol_ok h _)
  | cha n => exact gives_some.mpr (moveCursorToCol_ok h _)
  | cht n => exact gives_some.mpr (moveCursorToCol_ok h _)
  | cnl n => exact gives_some.mpr (setCol_ok (cursorDown_ok h _) (Nat.zero_le _))
  | cpl n => exact gives_some.mpr (setCol_ok (cursorUp_ok h _) (Nat.zero_le _))
  | cr => exact gives_some.mpr (setCol_ok h (Nat.zero_le _))
  | ctc op =>
    refine gives_some.mpr ?_
    cases op with
    | set => exact setTab_ok h
    | clearCurrentColumn => exact clearTab_ok h
    | clearAll => exact clearAllTabs_ok h
  | cub n => exact gives_some.mpr (moveCursorToRelCol_ok h _)
  | cud n => exact gives_some.mpr (cursorDown_ok h _)
  | cuf n => exact gives_some.mpr (moveCursorToRelCol_ok h _)
  | cup row col => exact gives_some.mpr (moveCursorToRow_ok (moveCursorToCol_ok h _) _)
  | cuu n => exact gives_some.mpr (cursorUp_ok h _)
  | dch n => exact dch_ok hm.space h n
  | decaln => exact decaln_ok hm h
  | decrc => exact gives_some.mpr (restoreCursor_ok h)
  | decrst modes => exact gives_foldlM (fun t' h' mode _ => decrst_ok hm.space h' mode) h
  | decsc => exact gives_some.mpr (saveCursor_ok h)
  | decset modes => exact gives_foldlM (fun t' h' mode _ => decset_ok hm.space h' mode) h
  | decstbm top bottom => exact gives_some.mpr (decstbm_ok h top bottom)
  | decstr => exact gives_some.mpr (softReset_ok h)
  | dl n => exact dl_ok hm.space h n
  | ech n => exact erase_ok hm.space h _
  | ed scope => exact ed_ok hm.space h scope
  | el scope => exact el_ok hm.space h scope
  | g1d4 charset => exact gives_some.mpr { h with }
  | gzd4 charset => exact gives_some.mpr { h with }
  | ht => exact gives_some.mpr (moveCursorToCol_ok h _)
  | hts => exact gives_some.mpr (setTab_ok h)
  | ich n => exact ich_ok hm h n
  | il n => exact il_ok hm.space h n
  | lf => exact lf_ok hm.space h
  | nel => exact nel_ok hm.space h
  | print ch => exact print_ok hm h ch
  | rep n => exact rep_ok hm h n
  | ri => exact ri_ok hm.space h
  | ris => exact gives_some.mpr (hardReset_ok hm.space h)
  | rm modes => exact gives_some.mpr (setMode_ok false modes h)
  | scorc => exact gives_some.mpr (restoreCursor_ok h)
  | scosc => exact gives_some.mpr (saveCursor_ok h)
  | sd n => exact scrollDownInRegion_ok hm.space h _
  | sgr ops => exact gives_some.mpr (h.painted (h.pen.foldl hf))
  | si => exact gives_some.mpr { h with }
  | sm modes => exact gives_some.mpr (setMode_ok true modes h)
  | so => exact gives_some.mpr { h with }
  | su n => exact scrollUpInRegion_ok hm.space h (asUsize_pos n)
  | tbc scope =>
    refine gives_some.mpr ?_
    cases scope with
    | currentColumn => exact clearTab_ok h
    | all => exact clearAllTabs_ok h
  | vpa n => exact gives_some.mpr (moveCursorToRow_ok h _)
  | vpr n => exact gives_some.mpr (cursorDown_ok h _)
  | xtwinops cols rows => exact gives_some.mpr h

/-- On the primary screen, the lines that are let go of are the first of the screen's. -/
theorem gc_ok (h : Ok width t) :
    Gives t.gc fun r => Ok width r.1 ∧ (t.activeBufferType = .primary → r.2 ++ r.1.buffer.lines = t.buffer.lines) ∧
    r.1.view = t.view := by
  unfold gc
  refine (Buffer.gc_ok h.buffer).bind fun r ⟨hkeeps, hlines, _⟩ => gives_pure ⟨h.screen hkeeps, fun hactive => ?_, ?_⟩
  · show (if t.activeBufferType = .alternate then [] else r.2) ++ r.1.lines = t.buffer.lines
    rw [hactive, if_neg (by decide)]
    exact hlines
  · have hroom := hkeeps.room
    have hlen := congrArg List.length hlines
    rw [List.length_append] at hlen
    have hsame := hkeeps.sameRows
    have hgone : r.2.drop (t.buffer.lines.length - t.buffer.rows) = [] := List.drop_eq_nil_of_le (by omega)
    show r.1.lines.drop (r.1.lines.length - r.1.rows) = t.buffer.lines.drop (t.buffer.lines.length - t.buffer.rows)
    conv_rhs => rw [← hlines, List.drop_append, hlines, hgone, List.nil_append]
    congr 1
    omega

end Terminal

end Holdfast.Vendor

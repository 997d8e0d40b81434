/-
  Holdfast.Terminal.Emulator — the vendored emulator: its parser and its terminal
  (`Vt` of `vendor/avt/src/vt.rs`, `Terminal::verify` of `terminal.rs`).

  `none` is a panic, as in `Holdfast.Terminal.Grid`.

  Proved:
  - `reached_verifies`: whatever text it is fed, and whatever sizes it takes that cut no line in
    two (`Terminal.Resizable`), in any order, nothing panics, and the tests' own check of a
    terminal passes after each step. Sizes that do cut one in two can end in a panic
    (`absorbed_panics`).
  - `Terminal.Ok.shown`: the lines of such a terminal are lines of the model that
    `Holdfast.Terminal.HyperlinkDump` dumps.
-/

import Holdfast.Terminal.Screen

namespace Holdfast.Vendor

open Holdfast.Terminal
open Holdfast.Base.Total

structure Vt where
  parser : Parser
  terminal : Terminal

namespace Vt

variable (width : Char → Nat)

def new (cols rows : Nat) (scrollbackLimit : Option Nat) : Vt := ⟨.new, .new cols rows scrollbackLimit⟩

def feed (vt : Vt) (input : Char) : Option Vt :=
  match (vt.parser.feed input).2 with
  | some f => do
    let terminal ← vt.terminal.execute width f
    return ⟨(vt.parser.feed input).1, terminal⟩
  | none => some { vt with parser := (vt.parser.feed input).1 }

/-- With the scrollback that is let go of. -/
def feedStr (vt : Vt) (text : Text) : Option (Vt × List Line) := do
  let vt ← text.foldlM (feed width) vt
  let (terminal, lines) ← vt.terminal.gc
  return ({ vt with terminal := terminal }, lines)

def resize (vt : Vt) (cols rows : Nat) : Option (Vt × List Line) := do
  let terminal ← vt.terminal.resize cols rows
  let (terminal, lines) ← terminal.gc
  return ({ vt with terminal := terminal }, lines)

end Vt

/-! ## The tests' check -/

/-- The wide characters of a line have their tails. -/
def Line.verify (l : Line) (cols : Nat) : Prop :=
  l.len = cols ∧ ∀ i < cols, ∀ cell, l.cells[i]? = some cell →
    (cell.occupancy = .wideTail → 0 < i ∧ ∃ head, l.cells[i - 1]? = some head ∧ head.occupancy = .wideHead) ∧
    (cell.occupancy = .wideHead → ∃ tail, l.cells[i + 1]? = some tail ∧ tail.occupancy = .wideTail)

def Terminal.verify (t : Terminal) : Prop :=
  t.cursor.row < t.rows ∧ t.cursor.col ≤ t.cols ∧ (∀ l ∈ t.buffer.lines, l.verify t.cols) ∧
    ∃ l, t.buffer.lines.getLast? = some l ∧ l.wrapped = false

variable {width : Char → Nat}

theorem Paired.at_tail {cells : List Cell} (h : Paired cells) {i : Nat} {cell : Cell} (hcell : cells[i]? = some cell)
    (htail : cell.occupancy = .wideTail) : 0 < i ∧ ∃ head, cells[i - 1]? = some head ∧ head.occupancy = .wideHead := by
  induction h generalizing i with
  | nil => exact nomatch hcell
  | single hc _ ih =>
    cases i with
    | zero =>
      rw [Option.some.inj hcell, htail] at hc
      cases hc
    | succ i =>
      obtain ⟨hi, head, hhead, hocc⟩ := ih hcell
      obtain ⟨i, rfl⟩ := Nat.exists_eq_succ_of_ne_zero (Nat.ne_of_gt hi)
      exact ⟨Nat.succ_pos _, head, hhead, hocc⟩
  | wide hh ht _ _ ih =>
    match i with
    | 0 =>
      rw [Option.some.inj hcell, htail] at hh
      cases hh
    | 1 => exact ⟨Nat.one_pos, _, rfl, hh⟩
    | i + 2 =>
      obtain ⟨hi, head, hhead, hocc⟩ := ih hcell
      obtain ⟨i, rfl⟩ := Nat.exists_eq_succ_of_ne_zero (Nat.ne_of_gt hi)
      exact ⟨Nat.succ_pos _, head, hhead, hocc⟩

theorem Paired.at_head {cells : List Cell} (h : Paired cells) {i : Nat} {cell : Cell} (hcell : cells[i]? = some cell)
    (hhead : cell.occupancy = .wideHead) : ∃ tail, cells[i + 1]? = some tail ∧ tail.occupancy = .wideTail := by
  induction h generalizing i with
  | nil => exact nomatch hcell
  | single hc _ ih =>
    cases i with
    | zero =>
      rw [Option.some.inj hcell, hhead] at hc
      cases hc
    | succ i => exact ih hcell
  | wide hh ht _ _ ih =>
    match i with
    | 0 => exact ⟨_, rfl, ht⟩
    | 1 =>
      rw [Option.some.inj hcell, hhead] at ht
      cases ht
    | i + 2 => exact ih hcell

theorem Buffer.LineOk.verify {cols : Nat} {l : Line} (h : Buffer.LineOk width cols l) : l.verify cols :=
  ⟨h.len, fun _ _ _ hcell => ⟨h.sound.paired.at_tail hcell, h.sound.paired.at_head hcell⟩⟩

theorem Terminal.Ok.verify {t : Terminal} (h : t.Ok width) : t.verify := by
  have hroom := h.buffer.room
  have hrows := h.buffer.rows
  obtain ⟨l, hl⟩ : ∃ l, t.buffer.lines.getLast? = some l := by
    rw [← Option.isSome_iff_exists, List.getLast?_isSome]
    exact List.ne_nil_of_length_pos (by omega)
  refine ⟨h.row, h.col, fun l hl => (h.buffer.lines l hl).verify, l, hl, h.buffer.ends l ?_⟩
  rwa [List.getLast?_eq_getElem?] at hl

/-! ## Lines that are dumped -/

/-- The same line, with what its cells are known to be. -/
def Line.Shown (l : Line) (line : Avt.Line width) : Prop :=
  line.wrapped = l.wrapped ∧ l.cells = line.cells.map fun c => ⟨c.ch, c.occupancy, c.pen, c.zeroWidth, c.explicitBase⟩

theorem Sound.shown {cells : List Cell} (h : Paired cells) (hok : ∀ c ∈ cells, CellOk width c) :
    ∃ shown : List (Avt.Cell width), Avt.Paired shown ∧ cells = shown.map fun c =>
    ⟨c.ch, c.occupancy, c.pen, c.zeroWidth, c.explicitBase⟩ := by
  induction h with
  | nil => exact ⟨[], .nil, rfl⟩
  | @single c rest hc _ ih =>
    obtain ⟨shown, hpaired, hsame⟩ := ih fun d hd => hok d (List.mem_cons_of_mem _ hd)
    have hcell := hok c List.mem_cons_self
    exact ⟨⟨c.ch, c.occupancy, c.pen, c.zeroWidth, c.explicitBase, hcell.fits, hcell.marks⟩ :: shown,
      .single hc hpaired, by rw [List.map_cons, ← hsame]⟩
  | @wide head tail rest hh ht hp _ ih =>
    obtain ⟨shown, hpaired, hsame⟩ := ih fun d hd => hok d (List.mem_cons_of_mem _ (List.mem_cons_of_mem _ hd))
    have hhead := hok head List.mem_cons_self
    have htail := hok tail (List.mem_cons_of_mem _ List.mem_cons_self)
    refine ⟨⟨head.ch, head.occupancy, head.pen, head.zeroWidth, head.explicitBase, hhead.fits, hhead.marks⟩ ::
      ⟨tail.ch, tail.occupancy, tail.pen, tail.zeroWidth, tail.explicitBase, htail.fits, htail.marks⟩ :: shown,
        .wide hh ht hp hpaired, ?_⟩
    rw [List.map_cons, List.map_cons, ← hsame]

/-- The lines of a sound terminal are lines of the model of `Holdfast.Terminal.HyperlinkDump`. -/
theorem Terminal.Ok.shown {t : Terminal} (h : t.Ok width) {l : Line} (hl : l ∈ t.buffer.lines) :
    ∃ line : Avt.Line width, l.Shown line := by
  have hsound := (h.buffer.lines l hl).sound
  obtain ⟨shown, hpaired, hsame⟩ := Sound.shown hsound.paired hsound.ok
  exact ⟨⟨shown, l.wrapped, hpaired⟩, rfl, hsame⟩

/-! ## Runs -/

namespace Vt

structure Ok (width : Char → Nat) (vt : Vt) : Prop where
  bounded : vt.parser.Bounded
  clean : vt.parser.Clean
  terminal : vt.terminal.Ok width

variable {vt : Vt}

theorem new_ok (hspace : width ' ' = 1) {cols rows : Nat} (hcols : 0 < cols) (hrows : 0 < rows) (limit : Option Nat) :
    Ok width (.new cols rows limit) :=
  ⟨Parser.bounded_new, Parser.clean_nil rfl, Terminal.new_ok hspace hcols hrows limit⟩

theorem feed_ok (hm : Terminal.Measures width) (h : Ok width vt) (ch : Char) : Gives (vt.feed width ch) (Ok width) := by
  have hbounded := h.bounded.feed ch
  have hclean := h.clean.feed ch
  unfold feed
  cases hf : (vt.parser.feed ch).2 with
  | none => exact gives_some.mpr ⟨hbounded, hclean, h.terminal⟩
  | some f =>
    have hwritable := Parser.writable_feed h.bounded h.clean hf
    exact (Terminal.execute_ok hm h.terminal hwritable).bind fun _ hok => gives_pure ⟨hbounded, hclean, hok⟩

theorem feedStr_ok (hm : Terminal.Measures width) (h : Ok width vt) (text : Text) :
    Gives (vt.feedStr width text) fun r => Ok width r.1 := by
  unfold feedStr
  refine (gives_foldlM (fun vt h ch _ => feed_ok hm h ch) h).bind fun vt' h' => ?_
  exact (Terminal.gc_ok h'.terminal).bind fun _ hgc => gives_pure ⟨h'.bounded, h'.clean, hgc.1⟩

theorem resize_ok (hspace : width ' ' = 1) (h : Ok width vt) {cols rows : Nat} (hr : vt.terminal.Resizable cols rows) :
    Gives (vt.resize cols rows) fun r => Ok width r.1 := by
  unfold resize
  refine (Terminal.resize_ok hspace h.terminal hr).bind fun t ht => ?_
  exact (Terminal.gc_ok ht).bind fun _ hgc => gives_pure ⟨h.bounded, h.clean, hgc.1⟩

/-- The width of a glyph by the tables of `widths.rs`. -/
def glyphWidth (tables : Widths.Tables) (ch : Char) : Nat := Widths.widthOf tables ch.toNat

theorem measures_glyphWidth (tables : Widths.Tables) : Terminal.Measures (glyphWidth tables) where
  space := rfl
  letter := rfl
  most ch := by
    unfold glyphWidth Widths.widthOf
    repeat' split
    all_goals omega

/-- What the daemon may make of an emulator. -/
inductive Reached (tables : Widths.Tables) (cols rows : Nat) (limit : Option Nat) : Vt → Prop
  | start : Reached tables cols rows limit (.new cols rows limit)
  | text {vt vt' : Vt} {lines : List Line} (text : Text) :
      Reached tables cols rows limit vt → vt.feedStr (glyphWidth tables) text = some (vt', lines) →
        Reached tables cols rows limit vt'
  | size {vt vt' : Vt} {lines : List Line} {cols' rows' : Nat} :
      Reached tables cols rows limit vt → vt.terminal.Resizable cols' rows' → vt.resize cols' rows' = some (vt', lines) →
        Reached tables cols rows limit vt'

theorem Reached.ok {tables : Widths.Tables} {cols rows : Nat} {limit : Option Nat} (hcols : 0 < cols) (hrows : 0 < rows)
    (h : Reached tables cols rows limit vt) : Ok (glyphWidth tables) vt := by
  have hm := measures_glyphWidth tables
  induction h with
  | start => exact new_ok hm.space hcols hrows limit
  | text text _ hfeed ih =>
    obtain ⟨r, hr, hok⟩ := feedStr_ok hm ih text
    rw [hfeed] at hr
    obtain rfl := Option.some.inj hr
    exact hok
  | size _ hresizable hresize ih =>
    obtain ⟨r, hr, hok⟩ := resize_ok hm.space ih hresizable
    rw [hresize] at hr
    obtain rfl := Option.some.inj hr
    exact hok

/-- Tables with one wide character. -/
def kana : Widths.Tables := ⟨[], [(0x3042, 0x3042)], [], []⟩

/-- A line of spaces that a line goes on to is absorbed by a lesser width; the next one then looks
    for it, and panics. -/
theorem absorbed_panics :
    (do
      let r ← (new 8 2 (some 0)).feedStr (glyphWidth kana) ("aaaa        ".toList ++ [Char.ofNat 0x1b, '[', 'H'])
      let r ← r.1.resize 4 2
      let r ← r.1.feedStr (glyphWidth kana) [Char.ofNat 0x1b, '[', '2', ';', '3', 'H']
      r.1.resize 2 2) = none := by decide

end Vt

end Holdfast.Vendor

/-
  Holdfast.Terminal.Model — one shell's authoritative terminal state
  (`crates/terminal-model/src/lib.rs`).

  The emulator (`vendor/avt`) is a parameter: a state type `V` with the calls the model
  makes. `feed` is one character through the parser and the terminal, `gc` is what
  `feed_str` and `resize` do last (report the changes and hand over the lines scrolled
  off a terminal built with `scrollback_limit(0)`), `dump` is the redraw sequence.

  Proved: a model never gets below the smallest size (`new_size`, `resize_size`), and
  feeding leaves the size alone (`feed_size`).
-/

import Mathlib.Data.List.DropRight
import Holdfast.Terminal.Modes
import Holdfast.Terminal.History

namespace Holdfast.Terminal

structure Avt (V : Type) where
  build : Nat → Nat → V
  feed : V → Char → V
  gc : V → V × List Text
  resize : V → Nat → Nat → V
  dump : V → Text

namespace Avt

variable {V : Type} (avt : Avt V)

def feedText (v : V) (t : Text) : V := t.foldl avt.feed v

def feedStr (v : V) (t : Text) : V × List Text := avt.gc (avt.feedText v t)

theorem feedText_append (v : V) (a b : Text) : avt.feedText v (a ++ b) = avt.feedText (avt.feedText v a) b :=
  List.foldl_append

@[simp] theorem feedText_cons (v : V) (c : Char) (t : Text) : avt.feedText v (c :: t) = avt.feedText (avt.feed v c) t := rfl

end Avt

/-- The plainest emulator: what it was fed is all it knows, and its redraw sequence. -/
def Avt.recorder : Avt Text where
  build _ _ := []
  feed v c := v ++ [c]
  gc v := (v, [])
  resize v _ _ := v
  dump v := v

def minCols : UInt16 := 2
def minRows : UInt16 := 1

structure TerminalModelConfig where
  cols : UInt16
  rows : UInt16
  maxHistoryLines : Nat
  maxHistoryBytes : Nat
  deriving DecidableEq, Repr

structure TerminalModel (V : Type) where
  vt : V
  utf8 : IncrementalUtf8
  history : HistoryRing
  modes : ModeTracker
  /-- Monotonic screen revision; 0 is reserved for "none". -/
  revision : Nat
  cols : UInt16
  rows : UInt16

namespace TerminalModel

variable {V : Type} (avt : Avt V)

def new (config : TerminalModelConfig) : TerminalModel V :=
  let cols := max config.cols minCols
  let rows := max config.rows minRows
  { vt := avt.build cols.toNat rows.toNat
    utf8 := .new
    history := .new config.maxHistoryLines config.maxHistoryBytes
    modes := .new
    revision := 1
    cols := cols
    rows := rows }

/-- `char::is_whitespace`: the Unicode `White_Space` property. -/
def isWhitespace (c : Char) : Bool :=
  let n := c.toNat
  (9 ≤ n && n ≤ 13) || n == 0x20 || n == 0x85 || n == 0xA0 || n == 0x1680 || (0x2000 ≤ n && n ≤ 0x200A) ||
    n == 0x2028 || n == 0x2029 || n == 0x202F || n == 0x205F || n == 0x3000

/-- `str::trim_end`. -/
def trimEnd (t : Text) : Text := t.rdropWhile isWhitespace

def feed (m : TerminalModel V) (bytes : List UInt8) : TerminalModel V :=
  let r := m.utf8.push bytes
  if r.1.isEmpty then { m with utf8 := r.2 }
  else
    let changes := avt.feedStr m.vt r.1
    { m with
      utf8 := r.2
      modes := m.modes.scan r.1
      vt := changes.1
      history := m.history.pushAll (changes.2.map trimEnd)
      revision := m.revision + 1 }

def resize (m : TerminalModel V) (cols rows : UInt16) : TerminalModel V :=
  let cols := max cols minCols
  let rows := max rows minRows
  if (cols, rows) ≠ (m.cols, m.rows) then
    let changes := avt.gc (avt.resize m.vt cols.toNat rows.toNat)
    { m with
      vt := changes.1
      history := m.history.pushAll (changes.2.map trimEnd)
      cols := cols
      rows := rows
      revision := m.revision + 1 }
  else m

/-- Byte sequence that reconstructs the current screen in a fresh emulator, followed by
    the tracked input modes the dump omits. -/
def snapshot (m : TerminalModel V) : List UInt8 :=
  Text.bytes (avt.dump m.vt) ++ Text.bytes m.modes.restoreSequence

def size (m : TerminalModel V) : UInt16 × UInt16 := (m.cols, m.rows)

def oldestLineId (m : TerminalModel V) : Nat := m.history.oldestId

def newestLineId (m : TerminalModel V) : Nat := m.history.newestId

def historyRange (m : TerminalModel V) (beforeLineId maximumLines maximumBytes : Nat) : HistoryRange :=
  m.history.range beforeLineId maximumLines maximumBytes

/-! ## Sizes -/

@[simp] theorem feed_size (m : TerminalModel V) (bytes : List UInt8) : (m.feed avt bytes).size = m.size := by
  unfold feed
  simp only
  split <;> rfl

@[simp] theorem resize_size (m : TerminalModel V) (cols rows : UInt16) :
    (m.resize avt cols rows).size = (max cols minCols, max rows minRows) := by
  simp only [resize, size]
  split
  · rfl
  · rename_i h
    simpa using (not_not.mp h).symm

/-- Resizing to the size it has leaves a model alone. -/
theorem resize_self {m : TerminalModel V} {cols rows : UInt16} (h : m.size = (max cols minCols, max rows minRows)) :
    m.resize avt cols rows = m := if_neg (not_not.mpr h.symm)

@[simp] theorem new_size (config : TerminalModelConfig) :
    (new avt config).size = (max config.cols minCols, max config.rows minRows) := rfl

end TerminalModel

end Holdfast.Terminal

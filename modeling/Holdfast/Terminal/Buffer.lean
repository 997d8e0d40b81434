/-
  Holdfast.Terminal.Buffer — the lines of a screen and of its scrollback (`Buffer` of
  `vendor/avt/src/buffer.rs`).

  The lines are a list, and the view is the last `rows` of them. `none` is a panic, as in
  `Holdfast.Terminal.Grid`. What a buffer lets go of when it is too long (`gc`) is returned.

  A buffer is `Sized` if it has the lines of its view and all its lines are sound and as long
  as it is wide, and `Ok` if besides its last line does not go on.

  Proved: from such a buffer every operation on positions of its view goes through and gives
  such a buffer, of the same size.
-/

import Holdfast.Terminal.Grid

namespace Holdfast.Vendor

open Holdfast.Terminal
open Holdfast.Base.Total
open Avt (Pen Painted)

structure Buffer where
  lines : List Line
  cols : Nat
  rows : Nat
  scrollbackLimit : Option Nat
  trimNeeded : Bool
  deriving DecidableEq

inductive EraseMode where
  | nextChars (n : Nat)
  | fromCursorToEndOfView
  | fromStartOfViewToCursor
  | wholeView
  | fromCursorToEndOfLine
  | fromStartOfLineToCursor
  | wholeLine
  deriving DecidableEq, Repr

namespace Buffer

variable (width : Char → Nat)

def new (cols rows : Nat) (scrollbackLimit : Option Nat) (pen : Pen) : Buffer :=
  ⟨List.replicate rows (.blank cols pen), cols, rows, scrollbackLimit, false⟩

def viewOffset (b : Buffer) : Option Nat := if b.lines.length < b.rows then none else some (b.lines.length - b.rows)

/-- `self[row]`. -/
def line (b : Buffer) (row : Nat) : Option Line := do
  let offset ← b.viewOffset
  b.lines[offset + row]?

/-- `self[row]`, changed. -/
def modify (b : Buffer) (row : Nat) (f : Line → Option Line) : Option Buffer := do
  let offset ← b.viewOffset
  let line ← b.lines[offset + row]?
  let line ← f line
  return { b with lines := b.lines.set (offset + row) line }

def unwrap (b : Buffer) (row : Nat) : Option Buffer := b.modify row fun l => some { l with wrapped := false }

def print (b : Buffer) (col row : Nat) (ch : Char) (pen : Pen) : Option (Buffer × Option Nat) := do
  let offset ← b.viewOffset
  let line ← b.lines[offset + row]?
  let (line, printed) ← line.print width col ch pen
  return ({ b with lines := b.lines.set (offset + row) line }, printed)

def appendZeroWidth (b : Buffer) (col row : Nat) (ch : Char) : Option Buffer := b.modify row fun l => l.appendZeroWidth col ch

def wrap (b : Buffer) (row : Nat) : Option Buffer := b.modify row fun l => some { l with wrapped := true }

def shiftRight (b : Buffer) (col row n : Nat) (pen : Pen) : Option Buffer :=
  if b.cols < col then none else b.modify row fun l => l.shiftRight col (min n (b.cols - col)) pen

def delete (b : Buffer) (col row n : Nat) (pen : Pen) : Option Buffer :=
  if b.cols < col then none
  else b.modify row fun l => do
    let l ← l.delete col (min n (b.cols - col)) pen
    return { l with wrapped := false }

/-- The rows of a range, blank. -/
def clear (b : Buffer) (start stop : Nat) (pen : Pen) : Option Buffer := do
  let offset ← b.viewOffset
  if stop < start ∨ b.lines.length < offset + stop then none
  else return { b with
    lines := b.lines.mapIdx fun i l => if offset + start ≤ i ∧ i < offset + stop then l.reset b.cols pen else l }

def erase (b : Buffer) (col row : Nat) (mode : EraseMode) (pen : Pen) : Option Buffer :=
  match mode with
  | .nextChars n =>
    if b.cols < col then none
    else
      let stop := col + min n (b.cols - col)
      b.modify row fun l => do
        let l ← l.clear col stop pen
        return if stop = b.cols then { l with wrapped := false } else l
  | .fromCursorToEndOfView => do
    let b ← b.modify row fun l => Line.clear { l with wrapped := false } col b.cols pen
    b.clear (row + 1) b.rows pen
  | .fromStartOfViewToCursor => do
    let b ← b.modify row fun l => l.clear 0 (min (col + 1) b.cols) pen
    b.clear 0 row pen
  | .wholeView => b.clear 0 b.rows pen
  | .fromCursorToEndOfLine => b.modify row fun l => do
    let l ← l.clear col b.cols pen
    return { l with wrapped := false }
  | .fromStartOfLineToCursor => b.modify row fun l => l.clear 0 (min (col + 1) b.cols) pen
  | .wholeLine => b.modify row fun l => do
    let l ← l.clear 0 b.cols pen
    return { l with wrapped := false }

def extend (b : Buffer) (n cols : Nat) (pen : Pen) : Buffer := { b with lines := b.lines ++ List.replicate n (.blank cols pen) }

def scrollUp (b : Buffer) (start stop n : Nat) (pen : Pen) : Option Buffer := do
  if stop < start ∨ stop = 0 ∨ b.rows = 0 then none
  else
    let n := min n (stop - start)
    let b ← (if stop - 1 < b.rows - 1 then b.unwrap (stop - 1) else some b)
    if start = 0 then
      if stop = b.rows then return { b.extend n b.cols pen with trimNeeded := true }
      else
        let offset ← b.viewOffset
        let index := offset + stop
        if b.lines.length < index then none
        else return { b with
          lines := b.lines.take index ++ List.replicate n (.blank b.cols pen) ++ b.lines.drop index, trimNeeded := true }
    else
      let b ← b.unwrap (start - 1)
      let offset ← b.viewOffset
      let lines ← rotateLeft b.lines (offset + start) (offset + stop) n
      let b ← clear { b with lines := lines } (stop - n) stop pen
      return { b with trimNeeded := true }

def scrollDown (b : Buffer) (start stop n : Nat) (pen : Pen) : Option Buffer := do
  if stop < start ∨ stop = 0 then none
  else
    let n := min n (stop - start)
    let offset ← b.viewOffset
    let lines ← rotateRight b.lines (offset + start) (offset + stop) n
    let b ← clear { b with lines := lines } start (start + n) pen
    let b ← (if 0 < start then b.unwrap (start - 1) else some b)
    b.unwrap (stop - 1)

/-- The buffer, and the lines that are let go of. -/
def gc (b : Buffer) : Option (Buffer × List Line) :=
  if b.trimNeeded then
    match b.scrollbackLimit with
    | none => some ({ b with trimNeeded := false }, [])
    | some limit => do
      let size ← b.viewOffset
      let excess := size - limit
      return ({ b with lines := b.lines.drop excess, trimNeeded := false }, b.lines.take excess)
  else some (b, [])

/-! ## Sound buffers -/

structure LineOk (cols : Nat) (l : Line) : Prop where
  len : l.len = cols
  sound : Sound width l.cells

structure Sized (cols : Nat) (b : Buffer) : Prop where
  wide : b.cols = cols
  rows : 0 < b.rows
  room : b.rows ≤ b.lines.length
  lines : ∀ l ∈ b.lines, LineOk width cols l

/-- The last line does not go on. -/
def Ends (lines : List Line) : Prop := ∀ l, lines[lines.length - 1]? = some l → l.wrapped = false

structure Ok (cols : Nat) (b : Buffer) : Prop extends Sized width cols b where
  ends : Ends b.lines

variable {width} {cols : Nat} {b : Buffer} {pen : Pen}

theorem Sized.offset (h : Sized width cols b) : b.viewOffset = some (b.lines.length - b.rows) := if_neg (Nat.not_lt.mpr h.room)

theorem Sized.line_at (h : Sized width cols b) {row : Nat} (hrow : row < b.rows) :
    ∃ l, b.lines[b.lines.length - b.rows + row]? = some l ∧ LineOk width cols l := by
  have hlt : b.lines.length - b.rows + row < b.lines.length := by
    have := h.room
    omega
  exact ⟨_, List.getElem?_eq_getElem hlt, h.lines _ (List.getElem_mem hlt)⟩

theorem Sized.set (h : Sized width cols b) {l : Line} (hl : LineOk width cols l) (i : Nat) :
    Sized width cols { b with lines := b.lines.set i l } where
  wide := h.wide
  rows := h.rows
  room := by
    rw [List.length_set]
    exact h.room
  lines l' hl' := by
    rcases List.mem_or_eq_of_mem_set hl' with hl' | rfl
    · exact h.lines l' hl'
    · exact hl

theorem ends_set {lines : List Line} (h : Ends lines) {i : Nat} {l : Line} (hl : i = lines.length - 1 → l.wrapped = false) :
    Ends (lines.set i l) := by
  intro l' hl'
  rw [List.length_set, List.getElem?_set] at hl'
  split at hl'
  · split at hl'
    · rw [← Option.some.inj hl']
      exact hl ‹_›
    · cases hl'
  · exact h l' hl'

/-- What a changed row may do. -/
structure Keeps (width : Char → Nat) (cols : Nat) (b b' : Buffer) : Prop extends Ok width cols b' where
  sameRows : b'.rows = b.rows

/-- A row changes as its line does, which keeps its length and stays as it is at its end. -/
theorem modify_ok (h : Ok width cols b) {row : Nat} (hrow : row < b.rows) {f : Line → Option Line}
    (hf : ∀ l, LineOk width cols l → Gives (f l) fun l' => LineOk width cols l' ∧ (l.wrapped = false → l'.wrapped = false)) :
    Gives (b.modify row f) (Keeps width cols b) := by
  obtain ⟨l, hline, hl⟩ := h.line_at hrow
  unfold modify
  rw [h.offset]
  simp only [Option.bind_eq_bind, Option.bind_some, hline]
  refine (hf l hl).bind fun l' ⟨hl', hwrapped⟩ => gives_pure ⟨⟨h.set hl' _, ends_set h.ends fun hi => hwrapped ?_⟩, rfl⟩
  exact h.ends l (hi ▸ hline)

theorem like_ok {l l' : Line} (h : LineOk width cols l) (hl : Line.Like width l l') :
    LineOk width cols l' ∧ (l.wrapped = false → l'.wrapped = false) :=
  ⟨⟨hl.len.trans h.len, hl.sound⟩, fun hw => hl.wrapped.trans hw⟩

theorem blank_ok (hspace : width ' ' = 1) (hp : Painted pen) : LineOk width cols (.blank cols pen) :=
  ⟨List.length_replicate, sound_blanks hspace hp cols⟩

theorem unwrap_sized (h : Sized width cols b) {row : Nat} (hrow : row < b.rows) :
    Gives (b.unwrap row) fun b' => Sized width cols b' ∧ b'.rows = b.rows ∧
    (Ends b.lines ∨ row + 1 = b.rows → Ends b'.lines) := by
  obtain ⟨l, hline, hl⟩ := h.line_at hrow
  have hl' : LineOk width cols { l with wrapped := false } := ⟨hl.len, hl.sound⟩
  have hroom := h.room
  unfold unwrap modify
  rw [h.offset]
  simp only [Option.bind_eq_bind, Option.bind_some, hline]
  refine gives_pure ⟨h.set hl' _, rfl, fun hends => ?_⟩
  rcases hends with hends | hlast
  · exact ends_set hends fun _ => rfl
  · intro l'' hl''
    rw [List.length_set, List.getElem?_set, if_pos (by omega), if_pos (by omega)] at hl''
    rw [← Option.some.inj hl'']

theorem new_ok (hspace : width ' ' = 1) (hp : Painted pen) {rows : Nat} (hrows : 0 < rows) (limit : Option Nat) :
    Ok width cols (.new cols rows limit pen) where
  wide := rfl
  rows := hrows
  room := Nat.le_of_eq List.length_replicate.symm
  lines l hl := by
    rw [List.eq_of_mem_replicate hl]
    exact blank_ok hspace hp
  ends l hl := by
    rw [List.eq_of_mem_replicate (List.mem_of_getElem? hl)]
    rfl

/-! ## Ranges of rows -/

/-- What rotating a range leaves: the same lines, those behind the range where they were. -/
structure Rotated (lines lines' : List Line) (stop : Nat) : Prop where
  len : lines'.length = lines.length
  mem : ∀ l ∈ lines', l ∈ lines
  behind : ∀ i, stop ≤ i → lines'[i]? = lines[i]?

theorem cut_range {lines : List Line} {start stop n : Nat} (hn : start + n ≤ stop) (hstop : stop ≤ lines.length) :
    ∃ p a b q, lines = p ++ (a ++ b) ++ q ∧ p.length = start ∧ a.length = n ∧ (p ++ (a ++ b)).length = stop := by
  refine ⟨lines.take start, (lines.take (start + n)).drop start, (lines.take stop).drop (start + n),
    lines.drop stop, ?_, ?_, ?_, ?_⟩
  · have htake : lines.take start = (lines.take (start + n)).take start := by rw [List.take_take, Nat.min_eq_left (by omega)]
    have htake' : lines.take (start + n) = (lines.take stop).take (start + n) := by rw [List.take_take, Nat.min_eq_left hn]
    rw [← List.append_assoc, htake, List.take_append_drop]
    rw [htake', List.take_append_drop, List.take_append_drop]
  · rw [List.length_take]
    omega
  · rw [List.length_drop, List.length_take]
    omega
  · simp only [List.length_append, List.length_take, List.length_drop]
    omega

theorem rotated_swap (p a b q : List Line) : Rotated (p ++ (a ++ b) ++ q) (p ++ (b ++ a) ++ q) (p ++ (a ++ b)).length where
  len := by
    simp only [List.length_append]
    omega
  mem l hl := by
    simp only [List.mem_append] at hl ⊢
    tauto
  behind i hi := by
    have hi' : (p ++ (b ++ a)).length ≤ i := by
      simp only [List.length_append] at hi ⊢
      omega
    rw [List.getElem?_append_right hi, List.getElem?_append_right hi']
    congr 1
    simp only [List.length_append]
    omega

theorem rotateLeft_gives {lines : List Line} {start stop n : Nat} (hn : start + n ≤ stop) (hstop : stop ≤ lines.length) :
    Gives (rotateLeft lines start stop n) fun lines' => Rotated lines lines' stop := by
  obtain ⟨p, a, b, q, rfl, rfl, rfl, rfl⟩ := cut_range hn hstop
  rw [rotateLeft_split, gives_some]
  exact rotated_swap p a b q

theorem rotateRight_gives {lines : List Line} {start stop n : Nat} (hn : start + n ≤ stop) (hstop : stop ≤ lines.length) :
    Gives (rotateRight lines start stop n) fun lines' => Rotated lines lines' stop := by
  obtain ⟨p, a, b, q, rfl, rfl, ha, hb⟩ :=
    cut_range (n := stop - start - n) (show start + (stop - start - n) ≤ stop by omega) hstop
  have hlen : b.length = n := by
    simp only [List.length_append] at hb
    omega
  rw [← hlen, ← hb, rotateRight_split, gives_some]
  exact rotated_swap p a b q

theorem Sized.rotated (h : Sized width cols b) {lines : List Line} {stop : Nat} (hr : Rotated b.lines lines stop) :
    Sized width cols { b with lines := lines } :=
  ⟨h.wide, h.rows, hr.len.symm ▸ h.room, fun l hl => h.lines l (hr.mem l hl)⟩

theorem Rotated.ends {lines lines' : List Line} {stop : Nat} (hr : Rotated lines lines' stop) (h : Ends lines)
    (hstop : stop < lines.length) :
    Ends lines' := by
  intro l hl
  rw [hr.len, hr.behind _ (by omega)] at hl
  exact h l hl

/-! ## Operations -/

section

variable (hspace : width ' ' = 1)

include hspace

theorem print_ok (h : Ok width cols b) (hp : Painted pen) {ch : Char} (hch : width ch = 1 ∨ width ch = 2)
    {col row : Nat} (hcol : col < cols)
    (hrow : row < b.rows) : Gives (b.print width col row ch pen)
      fun r => Keeps width cols b r.1 ∧ ∀ w, r.2 = some w → w = width ch ∧ col + w ≤ cols := by
  obtain ⟨l, hline, hl⟩ := h.line_at hrow
  unfold print
  rw [h.offset]
  simp only [Option.bind_eq_bind, Option.bind_some, hline]
  refine (Line.print_sound hspace hl.sound hp hch (hl.len.symm ▸ hcol)).bind fun r ⟨hlike, hfits⟩ => ?_
  obtain ⟨hl', hwrapped⟩ := like_ok hl hlike
  refine gives_pure ⟨⟨⟨h.set hl' _, ends_set h.ends fun hi => hwrapped ?_⟩, rfl⟩, fun w hw => hl.len ▸ hfits w hw⟩
  exact h.ends l (hi ▸ hline)

theorem shiftRight_ok (h : Ok width cols b) (hp : Painted pen) {col row : Nat} (hcol : col < cols)
    (hrow : row < b.rows) (n : Nat) :
    Gives (b.shiftRight col row n pen) (Keeps width cols b) := by
  unfold shiftRight
  rw [h.wide, if_neg (by omega)]
  refine modify_ok h hrow fun l hl => ?_
  have hlen := hl.len
  exact (Line.shiftRight_sound hspace hl.sound hp (by omega) (by omega)).mono fun l' hl' => like_ok hl hl'

theorem delete_ok (h : Ok width cols b) (hp : Painted pen) {col row : Nat} (hcol : col < cols) (hrow : row < b.rows) (n : Nat) :
    Gives (b.delete col row n pen) (Keeps width cols b) := by
  unfold delete
  rw [h.wide, if_neg (by omega)]
  refine modify_ok h hrow fun l hl => ?_
  have hlen := hl.len
  refine (Line.delete_sound hspace hl.sound hp (by omega) (by omega)).bind fun l' hl' => gives_pure ?_
  exact ⟨⟨hl'.len.trans hl.len, hl'.sound⟩, fun _ => rfl⟩

theorem clear_sized (h : Sized width cols b) (hp : Painted pen) {start stop : Nat} (hstart : start ≤ stop)
    (hstop : stop ≤ b.rows) :
    Gives (b.clear start stop pen) fun b' => Sized width cols b' ∧ b'.rows = b.rows ∧
      (Ends b.lines ∨ (start < stop ∧ stop = b.rows) → Ends b'.lines) := by
  have hroom := h.room
  have hrows := h.rows
  unfold clear
  rw [h.offset]
  simp only [Option.bind_eq_bind, Option.bind_some]
  rw [if_neg (by omega)]
  have hreset : ∀ l : Line, LineOk width cols (l.reset b.cols pen) := fun l => by
    rw [h.wide]
    exact blank_ok hspace hp
  refine gives_pure ⟨⟨h.wide, hrows, ?_, fun l hl => ?_⟩, rfl, fun hends l hl => ?_⟩
  · rw [List.length_mapIdx]
    exact hroom
  · obtain ⟨i, hi, rfl⟩ := List.mem_mapIdx.mp hl
    split
    · exact hreset _
    · exact h.lines _ (List.getElem_mem hi)
  · rw [List.length_mapIdx, List.getElem?_mapIdx] at hl
    obtain ⟨l', hl', rfl⟩ := Option.map_eq_some_iff.mp hl
    split
    · rfl
    · rename_i hout
      rcases hends with hends | ⟨hlt, hall⟩
      · exact hends l' hl'
      · exact absurd ⟨by omega, by omega⟩ hout

theorem clear_ok (h : Ok width cols b) (hp : Painted pen) {start stop : Nat} (hstart : start ≤ stop) (hstop : stop ≤ b.rows) :
    Gives (b.clear start stop pen) (Keeps width cols b) :=
  (clear_sized hspace h.toSized hp hstart hstop).mono fun _ ⟨hs, hr, he⟩ => ⟨⟨hs, he (.inl h.ends)⟩, hr⟩

theorem line_clear_ok {l : Line} (hl : LineOk width cols l) (hp : Painted pen) {start stop : Nat}
    (hstart : start ≤ stop) (hstop : stop ≤ cols) :
    Gives (l.clear start stop pen) (Line.Like width l) :=
  Line.clear_sound hspace hl.sound hp hstart (hl.len.symm ▸ hstop)

theorem erase_ok (h : Ok width cols b) (hp : Painted pen) {col row : Nat} (hcol : col ≤ cols)
    (hrow : row < b.rows) (mode : EraseMode) :
    Gives (b.erase col row mode pen) (Keeps width cols b) := by
  have hrest : ∀ stop, col ≤ stop → stop ≤ cols → ∀ l, LineOk width cols l → Gives (l.clear col stop pen) (Line.Like width l) :=
    fun stop hs hstop l hl => line_clear_ok hspace hl hp hs hstop
  have hwide := h.wide
  cases mode with
  | nextChars n =>
    unfold erase
    simp only
    rw [if_neg (by omega)]
    refine modify_ok h hrow fun l hl => (hrest _ (by omega) (by omega) l hl).bind fun l' hl' => ?_
    obtain ⟨hok, hkept⟩ := like_ok hl hl'
    split
    · exact gives_pure ⟨⟨hok.len, hok.sound⟩, fun _ => rfl⟩
    · exact gives_pure ⟨hok, hkept⟩
  | fromCursorToEndOfView =>
    unfold erase
    simp only
    rw [hwide]
    refine (modify_ok h hrow fun l hl => ?_).bind fun b' hb' => ?_
    · have hl' : LineOk width cols { l with wrapped := false } := ⟨hl.len, hl.sound⟩
      exact (hrest cols hcol (Nat.le_refl _) _ hl').mono fun l' hlike => ⟨(like_ok hl' hlike).1, fun _ => hlike.wrapped⟩
    · have hsame := hb'.sameRows
      have hbelow : Gives (b'.clear (row + 1) b'.rows pen) (Keeps width cols b') :=
        clear_ok hspace hb'.toOk hp (by omega) (Nat.le_refl _)
      refine hbelow.mono fun b'' hb'' => ?_
      exact ⟨hb''.toOk, hb''.sameRows.trans hsame⟩
  | fromStartOfViewToCursor =>
    unfold erase
    simp only
    rw [hwide]
    refine (modify_ok h hrow fun l hl => ?_).bind fun b' hb' => ?_
    · exact (line_clear_ok hspace hl hp (Nat.zero_le _) (by omega)).mono fun l' hlike => like_ok hl hlike
    · have hsame := hb'.sameRows
      refine (clear_ok hspace hb'.toOk hp (Nat.zero_le row) (by omega)).mono fun b'' hb'' => ?_
      exact ⟨hb''.toOk, hb''.sameRows.trans hsame⟩
  | wholeView => exact clear_ok hspace h hp (Nat.zero_le _) (Nat.le_refl _)
  | fromCursorToEndOfLine =>
    unfold erase
    simp only
    rw [hwide]
    refine modify_ok h hrow fun l hl => (hrest cols hcol (Nat.le_refl _) l hl).bind fun l' hl' => ?_
    exact gives_pure ⟨⟨hl'.len.trans hl.len, hl'.sound⟩, fun _ => rfl⟩
  | fromStartOfLineToCursor =>
    unfold erase
    simp only
    rw [hwide]
    refine modify_ok h hrow fun l hl => ?_
    exact (line_clear_ok hspace hl hp (Nat.zero_le _) (by omega)).mono fun l' hlike => like_ok hl hlike
  | wholeLine =>
    unfold erase
    simp only
    rw [hwide]
    refine modify_ok h hrow fun l hl => (line_clear_ok hspace hl hp (Nat.zero_le _) (Nat.le_refl _)).bind fun l' hl' => ?_
    exact gives_pure ⟨⟨hl'.len.trans hl.len, hl'.sound⟩, fun _ => rfl⟩

theorem sized_extend (h : Sized width cols b) (hp : Painted pen) {n : Nat} (hn : 0 < n) :
    Ok width cols { b.extend n cols pen with trimNeeded := true } where
  wide := h.wide
  rows := h.rows
  room := by
    have := h.room
    show b.rows ≤ (b.lines ++ List.replicate n (Line.blank cols pen)).length
    rw [List.length_append]
    omega
  lines l hl := by
    rcases List.mem_append.mp hl with hl | hl
    · exact h.lines l hl
    · rw [List.eq_of_mem_replicate hl]
      exact blank_ok hspace hp
  ends l hl := by
    have hblank : l ∈ List.replicate n (Line.blank cols pen) := by
      have hl : (b.lines ++ List.replicate n (Line.blank cols pen))[
          (b.lines ++ List.replicate n (Line.blank cols pen)).length - 1]? = some l := hl
      rw [List.length_append, List.length_replicate, List.getElem?_append_right (by omega)] at hl
      exact List.mem_of_getElem? hl
    rw [List.eq_of_mem_replicate hblank]
    rfl

/-- Blank lines between two lines. -/
theorem ok_insert (h : Ok width cols b) (hp : Painted pen) (n : Nat) {index : Nat} (hindex : index < b.lines.length) :
    Ok width cols { b with
      lines := b.lines.take index ++ List.replicate n (.blank b.cols pen) ++ b.lines.drop index, trimNeeded :=
  true } where
  wide := h.wide
  rows := h.rows
  room := by
    have := h.room
    simp only [List.length_append, List.length_take, List.length_drop]
    omega
  lines l hl := by
    rcases List.mem_append.mp hl with hl | hl
    · rcases List.mem_append.mp hl with hl | hl
      · exact h.lines l (List.mem_of_mem_take hl)
      · rw [List.eq_of_mem_replicate hl]
        exact h.wide.symm ▸ blank_ok hspace hp
    · exact h.lines l (List.mem_of_mem_drop hl)
  ends l hl := by
    refine h.ends l ?_
    rw [List.getElem?_append_right (by simp only [List.length_append, List.length_take, List.length_drop]; omega),
      List.getElem?_drop] at hl
    rw [← hl]
    congr 1
    simp only [List.length_append, List.length_take, List.length_drop, List.length_replicate]
    omega

/-- Also where the last row of the range goes on, if the range ends with the view. -/
theorem scrollUp_ok (h : Sized width cols b) (hp : Painted pen) {start stop n : Nat} (hstart : start < stop)
    (hstop : stop ≤ b.rows) (hn : 0 < n)
    (hends : stop < b.rows → Ends b.lines) : Gives (b.scrollUp start stop n pen) (Keeps width cols b) := by
  have hrows := h.rows
  unfold scrollUp
  rw [if_neg (by omega)]
  have hn' : 0 < min n (stop - start) := by omega
  have hle : min n (stop - start) ≤ stop - start := Nat.min_le_right _ _
  generalize min n (stop - start) = n at *
  have hunwrap : Gives (if stop - 1 < b.rows - 1 then b.unwrap (stop - 1) else some b)
      fun b' => Sized width cols b' ∧ b'.rows = b.rows ∧ (stop < b.rows → Ends b'.lines) := by
    split
    · exact (unwrap_sized h (by omega)).mono fun b' ⟨hs, hsame, hkept⟩ => ⟨hs, hsame, fun hlt => hkept (.inl (hends hlt))⟩
    · exact gives_some.mpr ⟨h, rfl, hends⟩
  refine hunwrap.bind fun b' ⟨hs, hsame, hends'⟩ => ?_
  have hwide := hs.wide
  have hroom' := hs.room
  by_cases hzero : start = 0
  · rw [if_pos hzero]
    by_cases hall : stop = b'.rows
    · rw [if_pos hall, hwide]
      exact gives_pure ⟨sized_extend hspace hs hp hn', hsame⟩
    · have hindex : b'.lines.length - b'.rows + stop < b'.lines.length := by omega
      rw [if_neg hall, hs.offset]
      simp only [Option.bind_eq_bind, Option.bind_some]
      rw [if_neg (by omega)]
      exact gives_pure ⟨ok_insert hspace ⟨hs, hends' (by omega)⟩ hp n hindex, hsame⟩
  · rw [if_neg hzero]
    refine (unwrap_sized hs (by omega)).bind fun b₂ ⟨hs₂, hsame₂, hkept₂⟩ => ?_
    have hroom₂ := hs₂.room
    rw [hs₂.offset]
    simp only [Option.bind_eq_bind, Option.bind_some]
    refine (rotateLeft_gives (by omega) (by omega)).bind fun lines hrotated => ?_
    refine (clear_sized hspace (hs₂.rotated hrotated) hp (Nat.sub_le _ _)
      (by show stop ≤ b₂.rows; omega)).bind fun b₃ ⟨hs₃, hsame₃, hkept₃⟩ => ?_
    have hends₃ : Ends b₃.lines := by
      refine hkept₃ ?_
      by_cases hlt : stop < b.rows
      · exact .inl (hrotated.ends (hkept₂ (.inl (hends' hlt))) (by omega))
      · exact .inr ⟨by omega, by show stop = b₂.rows; omega⟩
    exact gives_pure ⟨⟨⟨hs₃.wide, hs₃.rows, hs₃.room, hs₃.lines⟩, hends₃⟩, hsame₃.trans (hsame₂.trans hsame)⟩

theorem scrollDown_ok (h : Ok width cols b) (hp : Painted pen) {start stop : Nat} (hstart : start < stop)
    (hstop : stop ≤ b.rows) (n : Nat) :
    Gives (b.scrollDown start stop n pen) (Keeps width cols b) := by
  have hroom := h.room
  unfold scrollDown
  rw [if_neg (by omega)]
  have hle : min n (stop - start) ≤ stop - start := Nat.min_le_right _ _
  generalize min n (stop - start) = n at *
  rw [h.offset]
  simp only [Option.bind_eq_bind, Option.bind_some]
  refine (rotateRight_gives (by omega) (by omega)).bind fun lines hrotated => ?_
  refine (clear_sized hspace (h.toSized.rotated hrotated) hp (Nat.le_add_right _ _) (by show start + n ≤ b.rows; omega)).bind
    fun b₂ ⟨hs₂, hsame₂, hkept₂⟩ => ?_
  have hbefore : Gives (if 0 < start then b₂.unwrap (start - 1) else some b₂)
      fun b' => Sized width cols b' ∧ b'.rows = b.rows ∧ (Ends b₂.lines → Ends b'.lines) := by
    split
    · exact (unwrap_sized hs₂ (by rw [hsame₂]; show start - 1 < b.rows; omega)).mono
        fun b' ⟨hs, hsame, hkept⟩ => ⟨hs, hsame.trans hsame₂, fun hends => hkept (.inl hends)⟩
    · exact gives_some.mpr ⟨hs₂, hsame₂, id⟩
  refine hbefore.bind fun b₃ ⟨hs₃, hsame₃, hkept₃⟩ => ?_
  refine (unwrap_sized hs₃ (by omega)).mono fun b₄ ⟨hs₄, hsame₄, hkept₄⟩ => ⟨⟨hs₄, hkept₄ ?_⟩, hsame₄.trans hsame₃⟩
  by_cases hlt : stop < b.rows
  · exact .inl (hkept₃ (hkept₂ (.inl (hrotated.ends h.ends (by omega)))))
  · exact .inr (by omega)

end

theorem appendZeroWidth_ok (h : Ok width cols b) {ch : Char} (hch : width ch = 0) {col row : Nat}
    (hcol : col < cols) (hrow : row < b.rows) :
    Gives (b.appendZeroWidth col row ch) (Keeps width cols b) := by
  refine modify_ok h hrow fun l hl => ?_
  have hlen := hl.len
  exact (Line.appendZeroWidth_sound hl.sound hch (by omega)).mono fun l' hl' => like_ok hl hl'

/-- A row that goes on, for now also the last one. -/
theorem wrap_sized (h : Ok width cols b) {row : Nat} (hrow : row < b.rows) :
    Gives (b.wrap row) fun b' => Sized width cols b' ∧ b'.rows = b.rows ∧ (row + 1 < b.rows → Ends b'.lines) := by
  obtain ⟨l, hline, hl⟩ := h.line_at hrow
  have hl' : LineOk width cols { l with wrapped := true } := ⟨hl.len, hl.sound⟩
  have hroom := h.room
  unfold wrap modify
  rw [h.offset]
  simp only [Option.bind_eq_bind, Option.bind_some, hline]
  exact gives_pure ⟨h.toSized.set hl' _, rfl, fun hlt => ends_set h.ends fun hi => by omega⟩

/-- Letting lines go leaves the view, and of the scrollback what the limit allows. -/
theorem gc_ok (h : Ok width cols b) : Gives b.gc fun r => Keeps width cols b r.1 ∧ r.2 ++ r.1.lines = b.lines ∧
    ∀ limit, b.trimNeeded = true → b.scrollbackLimit = some limit → r.1.lines.length ≤ limit + b.rows := by
  have hroom := h.room
  have hrows := h.rows
  unfold gc
  split
  · cases hlimit : b.scrollbackLimit with
    | none => exact gives_pure ⟨⟨⟨⟨h.wide, hrows, hroom, h.lines⟩, h.ends⟩, rfl⟩, rfl, fun _ _ hl => nomatch hl⟩
    | some limit =>
      simp only [h.offset, Option.bind_eq_bind, Option.bind_some]
      have hlen : (b.lines.drop (b.lines.length - b.rows - limit)).length =
          b.lines.length - (b.lines.length - b.rows - limit) := List.length_drop
      refine gives_pure
        ⟨⟨⟨⟨h.wide, hrows, by simp only [hlen]; omega, fun l hl => h.lines l (List.mem_of_mem_drop hl)⟩,
        fun l hl => ?_⟩, rfl⟩,
        List.take_append_drop _ _, fun limit' _ hl => ?_⟩
      · refine h.ends l ?_
        simp only [hlen, List.getElem?_drop] at hl
        rw [← hl]
        congr 1
        omega
      · obtain rfl := Option.some.inj hl
        simp only [hlen]
        omega
  · rename_i hno
    exact gives_pure ⟨⟨h, rfl⟩, List.nil_append _, fun _ htrim => absurd htrim hno⟩

end Buffer

end Holdfast.Vendor

/-
  Holdfast.Terminal.Offscreen — what has scrolled off the screen makes no difference to what
  comes after it.

  One buffer is `Behind` another if that one has let go of lines that this one still has in
  front. The operations on the view find their rows from the end, so they do the same to both.

  Proved: every function but a full reset takes two terminals that are `Alongside` each other, alike
  but for such lines, to two that are (`Alongside.execute`), and a full reset to the same one
  (`Alongside.reset`).
-/

import Holdfast.Terminal.Emulator

namespace Holdfast.Vendor

open Holdfast.Terminal
open Holdfast.Base.Total
open Avt (Pen DecMode)

namespace Buffer

/-- `b` still has the lines `gone` in front, that `b'` has let go of. -/
structure Behind (cols rows : Nat) (gone : List Line) (b b' : Buffer) : Prop where
  lines : b.lines = gone ++ b'.lines
  sameCols : b.cols = cols ∧ b'.cols = cols
  sameRows : b.rows = rows ∧ b'.rows = rows
  room : rows ≤ b'.lines.length
  /-- Nothing has scrolled off that is not to be let go of. -/
  flagged : b'.trimNeeded = false → b'.lines.length = rows
  limit : b'.scrollbackLimit = some 0

variable {cols rows : Nat} {gone : List Line} {b b' : Buffer}

theorem Behind.offset (h : Behind cols rows gone b b') :
    b.viewOffset = some (gone.length + (b'.lines.length - rows)) ∧ b'.viewOffset = some (b'.lines.length - rows) := by
  obtain ⟨hb, hb'⟩ := h.sameRows
  have hroom := h.room
  unfold viewOffset
  rw [hb, hb', h.lines, List.length_append, if_neg (by omega), if_neg (by omega)]
  exact ⟨by congr 1; omega, rfl⟩

theorem Behind.at (h : Behind cols rows gone b b') (i : Nat) : b.lines[gone.length + i]? = b'.lines[i]? := by
  rw [h.lines, List.getElem?_append_right (Nat.le_add_right _ _), Nat.add_sub_cancel_left]

theorem Behind.set (h : Behind cols rows gone b b') (i : Nat) (l : Line) :
    Behind cols rows gone { b with lines := b.lines.set (gone.length + i) l } { b' with lines := b'.lines.set i l } where
  lines := by
    show b.lines.set (gone.length + i) l = gone ++ b'.lines.set i l
    rw [h.lines, List.set_append_right _ _ (Nat.le_add_right _ _), Nat.add_sub_cancel_left]
  sameCols := h.sameCols
  sameRows := h.sameRows
  room := by
    rw [List.length_set]
    exact h.room
  flagged := by
    rw [List.length_set]
    exact h.flagged
  limit := h.limit

/-- A line of the view is the same in both, and may change in both. -/
theorem Behind.modify (h : Behind cols rows gone b b') (row : Nat) (f : Line → Option Line) :
    Option.Rel (Behind cols rows gone) (b.modify row f) (b'.modify row f) := by
  obtain ⟨hb, hb'⟩ := h.offset
  unfold Buffer.modify
  rw [hb, hb']
  simp only [Option.bind_eq_bind, Option.bind_some, Nat.add_assoc, h.at]
  cases b'.lines[b'.lines.length - rows + row]? with
  | none => exact .none
  | some l =>
    simp only [Option.bind_some]
    cases f l with
    | none => exact .none
    | some l => exact rel_pure (h.set _ l)

theorem Behind.print (width : Char → Nat) (h : Behind cols rows gone b b') (col row : Nat) (ch : Char) (pen : Pen) :
    Option.Rel (fun r r' => Behind cols rows gone r.1 r'.1 ∧ r.2 = r'.2) (b.print width col row ch pen)
    (b'.print width col row ch pen) := by
  obtain ⟨hb, hb'⟩ := h.offset
  unfold Buffer.print
  rw [hb, hb']
  simp only [Option.bind_eq_bind, Option.bind_some, Nat.add_assoc, h.at]
  cases b'.lines[b'.lines.length - rows + row]? with
  | none => exact .none
  | some l =>
    simp only [Option.bind_some]
    cases l.print width col ch pen with
    | none => exact .none
    | some r => exact rel_pure ⟨h.set _ r.1, rfl⟩

theorem Behind.line (h : Behind cols rows gone b b') (row : Nat) : b.line row = b'.line row := by
  obtain ⟨hb, hb'⟩ := h.offset
  unfold Buffer.line
  rw [hb, hb']
  simp only [Option.bind_eq_bind, Option.bind_some, Nat.add_assoc, h.at]

theorem Behind.shiftRight (h : Behind cols rows gone b b') (col row n : Nat) (pen : Pen) :
    Option.Rel (Behind cols rows gone) (b.shiftRight col row n pen) (b'.shiftRight col row n pen) := by
  unfold Buffer.shiftRight
  rw [h.sameCols.1, h.sameCols.2]
  split
  · exact .none
  · exact h.modify _ _

theorem Behind.delete (h : Behind cols rows gone b b') (col row n : Nat) (pen : Pen) :
    Option.Rel (Behind cols rows gone) (b.delete col row n pen) (b'.delete col row n pen) := by
  unfold Buffer.delete
  rw [h.sameCols.1, h.sameCols.2]
  split
  · exact .none
  · exact h.modify _ _

theorem Behind.clear (h : Behind cols rows gone b b') (start stop : Nat) (pen : Pen) :
    Option.Rel (Behind cols rows gone) (b.clear start stop pen) (b'.clear start stop pen) := by
  obtain ⟨hb, hb'⟩ := h.offset
  unfold Buffer.clear
  rw [hb, hb', h.sameCols.1, h.sameCols.2]
  simp only [Option.bind_eq_bind, Option.bind_some]
  have hlen : b.lines.length = gone.length + b'.lines.length := by rw [h.lines, List.length_append]
  by_cases hout : stop < start ∨ b'.lines.length < b'.lines.length - rows + stop
  · rw [if_pos hout, if_pos (by omega)]
    exact .none
  · rw [if_neg hout, if_neg (by omega)]
    refine rel_pure ⟨?_, ⟨rfl, rfl⟩, h.sameRows, ?_, ?_, h.limit⟩
    · show b.lines.mapIdx _ = gone ++ b'.lines.mapIdx _
      rw [h.lines, List.mapIdx_append]
      congr 1
      · refine List.ext_getElem (by rw [List.length_mapIdx]) fun i hi hi' => ?_
        rw [List.getElem_mapIdx, if_neg (by omega)]
      · congr 1
        funext i l
        congr 1
        exact propext ⟨fun hin => by omega, fun hin => by omega⟩
    · rw [List.length_mapIdx]
      exact h.room
    · rw [List.length_mapIdx]
      exact h.flagged

theorem Behind.erase (h : Behind cols rows gone b b') (col row : Nat) (mode : EraseMode) (pen : Pen) :
    Option.Rel (Behind cols rows gone) (b.erase col row mode pen) (b'.erase col row mode pen) := by
  unfold Buffer.erase
  rw [h.sameCols.1, h.sameCols.2, h.sameRows.1, h.sameRows.2]
  cases mode with
  | nextChars n =>
    simp only
    split
    · exact .none
    · exact h.modify _ _
  | fromCursorToEndOfView =>
    refine rel_bind (h.modify _ _) fun c c' hc => ?_
    rw [hc.sameRows.1, hc.sameRows.2]
    exact hc.clear _ _ _
  | fromStartOfViewToCursor => exact rel_bind (h.modify _ _) fun c c' hc => hc.clear _ _ _
  | wholeView => exact h.clear _ _ _
  | fromCursorToEndOfLine => exact h.modify _ _
  | fromStartOfLineToCursor => exact h.modify _ _
  | wholeLine => exact h.modify _ _

/-! ### Ranges of rows -/

theorem rotateLeft_append {α : Type} (p items : List α) (start stop n : Nat) :
    rotateLeft (p ++ items) (p.length + start) (p.length + stop) n = (rotateLeft items start stop n).map (p ++ ·) := by
  unfold rotateLeft
  rw [List.length_append]
  by_cases h : start ≤ stop ∧ stop ≤ items.length ∧ n ≤ stop - start
  · rw [if_pos h, if_pos (by omega), List.take_length_add_append, List.take_length_add_append, List.drop_length_add_append,
      Nat.add_assoc p.length start n, List.take_length_add_append, List.drop_length_add_append, List.drop_length_add_append]
    simp only [Option.map_some, List.append_assoc]
  · rw [if_neg h, if_neg (by omega)]
    rfl

theorem rotateRight_append {α : Type} (p items : List α) (start stop n : Nat) :
    rotateRight (p ++ items) (p.length + start) (p.length + stop) n = (rotateRight items start stop n).map (p ++ ·) := by
  unfold rotateRight
  rw [List.length_append]
  by_cases h : start ≤ stop ∧ stop ≤ items.length ∧ n ≤ stop - start
  · rw [if_pos h, if_pos (by omega), List.take_length_add_append, List.take_length_add_append, List.drop_length_add_append,
      Nat.add_sub_assoc (by omega : n ≤ stop), List.take_length_add_append, List.drop_length_add_append,
        List.drop_length_add_append]
    simp only [Option.map_some, List.append_assoc]
  · rw [if_neg h, if_neg (by omega)]
    rfl

theorem length_rotateLeft {α : Type} {items items' : List α} {start stop n : Nat}
    (h : rotateLeft items start stop n = some items') :
    items'.length = items.length := by
  unfold rotateLeft at h
  split at h
  · obtain rfl := Option.some.inj h
    simp only [List.length_append, List.length_take, List.length_drop]
    omega
  · cases h

theorem length_rotateRight {α : Type} {items items' : List α} {start stop n : Nat}
    (h : rotateRight items start stop n = some items') :
    items'.length = items.length := by
  unfold rotateRight at h
  split at h
  · obtain rfl := Option.some.inj h
    simp only [List.length_append, List.length_take, List.length_drop]
    omega
  · cases h

/-- Other lines behind the same ones. -/
theorem Behind.with (h : Behind cols rows gone b b') {lines : List Line} (hlen : lines.length = b'.lines.length) :
    Behind cols rows gone { b with lines := gone ++ lines } { b' with lines := lines } where
  lines := rfl
  sameCols := h.sameCols
  sameRows := h.sameRows
  room := hlen.symm ▸ h.room
  flagged := fun hflag => hlen.trans (h.flagged hflag)
  limit := h.limit

/-- What scrolls lines notes that there may be some to let go of. -/
theorem Behind.noted (h : Behind cols rows gone b b') :
    Behind cols rows gone { b with trimNeeded := true } { b' with trimNeeded := true } :=
  ⟨h.lines, h.sameCols, h.sameRows, h.room, nofun, h.limit⟩

theorem Behind.grown (h : Behind cols rows gone b b') (lines : List Line) (hroom : rows ≤ lines.length) :
    Behind cols rows gone { b with lines := gone ++ lines, trimNeeded := true } { b' with lines := lines, trimNeeded := true } :=
  ⟨rfl, h.sameCols, h.sameRows, hroom, nofun, h.limit⟩

theorem Behind.scrollUp (h : Behind cols rows gone b b') (start stop n : Nat) (pen : Pen) :
    Option.Rel (Behind cols rows gone) (b.scrollUp start stop n pen) (b'.scrollUp start stop n pen) := by
  unfold Buffer.scrollUp
  rw [h.sameRows.1, h.sameRows.2]
  split
  · exact .none
  generalize min n (stop - start) = n
  have hunwrap : Option.Rel (Behind cols rows gone) (if stop - 1 < rows - 1 then b.unwrap (stop - 1) else some b)
      (if stop - 1 < rows - 1 then b'.unwrap (stop - 1) else some b') := by
    split
    · exact h.modify _ _
    · exact .some h
  refine rel_bind hunwrap fun c c' hc => ?_
  rw [hc.sameRows.1, hc.sameRows.2, hc.sameCols.1, hc.sameCols.2]
  have hroom := hc.room
  by_cases hzero : start = 0
  · rw [if_pos hzero, if_pos hzero]
    by_cases hall : stop = rows
    · rw [if_pos hall, if_pos hall]
      have hgrown := hc.grown (c'.lines ++ List.replicate n (Line.blank cols pen)) (by rw [List.length_append]; omega)
      refine rel_pure ⟨?_, hc.sameCols, hc.sameRows, hgrown.room, nofun, hgrown.limit⟩
      show c.lines ++ List.replicate n (Line.blank cols pen) = gone ++ (c'.lines ++ List.replicate n (Line.blank cols pen))
      rw [← List.append_assoc, ← hc.lines]
    · obtain ⟨ho, ho'⟩ := hc.offset
      rw [if_neg hall, if_neg hall, ho, ho']
      simp only [Option.bind_eq_bind, Option.bind_some]
      have hlen : c.lines.length = gone.length + c'.lines.length := by rw [hc.lines, List.length_append]
      by_cases hout : c'.lines.length < c'.lines.length - rows + stop
      · rw [if_pos hout, if_pos (by omega)]
        exact .none
      · rw [if_neg hout, if_neg (by omega)]
        have hgrown := hc.grown (c'.lines.take (c'.lines.length - rows + stop) ++ List.replicate n (Line.blank cols pen) ++
          c'.lines.drop (c'.lines.length - rows + stop))
            (by simp only [List.length_append, List.length_take, List.length_drop]; omega)
        have hlines : c.lines.take (gone.length + (c'.lines.length - rows) + stop) ++ List.replicate n (Line.blank cols pen) ++
            c.lines.drop (gone.length + (c'.lines.length - rows) + stop) =
              gone ++ (c'.lines.take (c'.lines.length - rows + stop) ++
              List.replicate n (Line.blank cols pen) ++ c'.lines.drop (c'.lines.length - rows + stop)) := by
          rw [hc.lines, Nat.add_assoc, List.take_length_add_append, List.drop_length_add_append]
          simp only [List.append_assoc]
        rw [hlines]
        exact rel_pure ⟨rfl, ⟨rfl, rfl⟩, ⟨rfl, rfl⟩, hgrown.room, nofun, hgrown.limit⟩
  · rw [if_neg hzero, if_neg hzero]
    refine rel_bind (hc.modify _ _) fun d d' hd => ?_
    obtain ⟨ho, ho'⟩ := hd.offset
    rw [ho, ho']
    simp only [Option.bind_eq_bind, Option.bind_some, Nat.add_assoc]
    rw [hd.lines, rotateLeft_append]
    cases hrotate : rotateLeft d'.lines (d'.lines.length - rows + start) (d'.lines.length - rows + stop) n with
    | none => exact .none
    | some lines =>
      simp only [Option.map_some, Option.bind_some]
      exact rel_bind ((hd.with (length_rotateLeft hrotate)).clear _ _ _) fun e e' he => rel_pure he.noted

theorem Behind.scrollDown (h : Behind cols rows gone b b') (start stop n : Nat) (pen : Pen) :
    Option.Rel (Behind cols rows gone) (b.scrollDown start stop n pen) (b'.scrollDown start stop n pen) := by
  unfold Buffer.scrollDown
  split
  · exact .none
  generalize min n (stop - start) = n
  obtain ⟨ho, ho'⟩ := h.offset
  rw [ho, ho']
  simp only [Option.bind_eq_bind, Option.bind_some, Nat.add_assoc]
  rw [h.lines, rotateRight_append]
  cases hrotate : rotateRight b'.lines (b'.lines.length - rows + start) (b'.lines.length - rows + stop) n with
  | none => exact .none
  | some lines =>
    simp only [Option.map_some, Option.bind_some]
    refine rel_bind ((h.with (length_rotateRight hrotate)).clear _ _ _) fun c c' hc => ?_
    have hbefore : Option.Rel (Behind cols rows gone) (if 0 < start then c.unwrap (start - 1) else some c)
        (if 0 < start then c'.unwrap (start - 1) else some c') := by
      split
      · exact hc.modify _ _
      · exact .some hc
    exact rel_bind hbefore fun d d' hd => hd.modify _ _

/-- The size it has. -/
theorem resize_same (hroom : b.rows ≤ b.lines.length) (cursor : Nat × Nat) :
    b.resize b.cols b.rows cursor = some ({ b with trimNeeded := true }, cursor) := by
  obtain ⟨logical, hlogical, -⟩ := logicalPosition_gives (b := b) hroom cursor b.cols
  unfold resize
  rw [hlogical]
  simp only [Option.bind_eq_bind, Option.bind_some, resizeCols, if_true, resizeRows, Nat.lt_irrefl, if_false]
  rfl

theorem Behind.resize (h : Behind cols rows gone b b') (cursor : Nat × Nat) :
    Option.Rel (fun r r' => Behind cols rows gone r.1 r'.1 ∧ r.2 = cursor ∧ r'.2 = cursor ∧
      r.1.lines = b.lines ∧ r'.1.lines = b'.lines)
      (b.resize cols rows cursor) (b'.resize cols rows cursor) := by
  obtain ⟨hc, hc'⟩ := h.sameCols
  obtain ⟨hr, hr'⟩ := h.sameRows
  have hroom := h.room
  have hlong : rows ≤ b.lines.length := by
    rw [h.lines, List.length_append]
    omega
  have hb := resize_same (b := b) (hr ▸ hlong) cursor
  have hb' := resize_same (b := b') (hr' ▸ hroom) cursor
  rw [hc, hr] at hb
  rw [hc', hr'] at hb'
  rw [hb, hb']
  exact .some ⟨⟨h.lines, ⟨rfl, rfl⟩, ⟨rfl, rfl⟩, h.room, nofun, h.limit⟩, rfl, rfl, rfl, rfl⟩

/-- Letting go of what has scrolled off: all of it is gone then. -/
theorem Behind.gc (h : Behind cols rows gone b b') :
    Gives b'.gc fun r => Behind cols rows (gone ++ r.2) b r.1 ∧ r.1.lines.length = rows ∧
    r.2 ++ r.1.lines = b'.lines := by
  have hroom := h.room
  obtain ⟨-, ho'⟩ := h.offset
  unfold Buffer.gc
  split
  · simp only [h.limit, ho', Option.bind_eq_bind, Option.bind_some, Nat.sub_zero]
    have hlen : (b'.lines.drop (b'.lines.length - rows)).length = rows := by
      rw [List.length_drop]
      omega
    refine gives_pure ⟨⟨?_, h.sameCols, h.sameRows, Nat.le_of_eq hlen.symm, fun _ => hlen, rfl⟩, hlen, List.take_append_drop _ _⟩
    show b.lines = gone ++ b'.lines.take _ ++ b'.lines.drop _
    rw [List.append_assoc, List.take_append_drop, h.lines]
  · rename_i hflag
    have hlen := h.flagged (by simpa using hflag)
    refine gives_some.mpr ⟨?_, hlen, rfl⟩
    rw [List.append_nil]
    exact h

end Buffer

namespace Terminal

open Buffer (Behind)

def primaryBuffer (t : Terminal) : Buffer := if t.activeBufferType = .primary then t.buffer else t.otherBuffer

/-- The lines that have scrolled off the primary screen and are still held. -/
def pending (t : Terminal) : List Line := t.primaryBuffer.lines.take (t.primaryBuffer.lines.length - t.rows)

/-! ## Terminals alike but for what has scrolled off the screen -/

/-- What functions other than switches and resets leave alone. -/
structure Frame (t₀ t : Terminal) : Prop where
  size : t.cols = t₀.cols ∧ t.rows = t₀.rows
  active : t.activeBufferType = t₀.activeBufferType
  other : t.otherBuffer = t₀.otherBuffer
  limit : t.scrollbackLimit = t₀.scrollbackLimit

/-- `u` is `t` with the lines `gone` in front of its screen, and `o` for its other screen. -/
def Beside (gone : List Line) (o : Buffer) (t₀ u t : Terminal) : Prop :=
  ∃ b, u = { t with buffer := b, otherBuffer := o } ∧ Behind t.cols t.rows gone b t.buffer ∧ Frame t₀ t

/-- A function that does not look at the screens. -/
structure Blind (f : Terminal → Terminal) : Prop where
  blind : ∀ (t : Terminal) (b o : Buffer), f { t with buffer := b, otherBuffer := o } = { f t with buffer := b, otherBuffer := o }
  size : ∀ t, (f t).cols = t.cols ∧ (f t).rows = t.rows
  active : ∀ t, (f t).activeBufferType = t.activeBufferType
  limit : ∀ t, (f t).scrollbackLimit = t.scrollbackLimit

variable {gone : List Line} {o : Buffer} {t₀ u t : Terminal}

theorem Blind.buffers {f : Terminal → Terminal} (hf : Blind f) (t : Terminal) :
    (f t).buffer = t.buffer ∧ (f t).otherBuffer = t.otherBuffer := by
  have h : f t = { f t with buffer := t.buffer, otherBuffer := t.otherBuffer } := hf.blind t t.buffer t.otherBuffer
  exact ⟨by rw [h], by rw [h]⟩

theorem Beside.blind {f : Terminal → Terminal} (hf : Blind f) (h : Beside gone o t₀ u t) : Beside gone o t₀ (f u) (f t) := by
  obtain ⟨b, rfl, hb, hframe⟩ := h
  obtain ⟨hcols, hrows⟩ := hf.size t
  obtain ⟨hbuffer, hother⟩ := hf.buffers t
  refine ⟨b, hf.blind t b o, ?_, ⟨hcols.trans hframe.size.1, hrows.trans hframe.size.2⟩,
    (hf.active t).trans hframe.active, hother.trans hframe.other,
    (hf.limit t).trans hframe.limit⟩
  rw [hcols, hrows, hbuffer]
  exact hb

theorem blind_comp {f g : Terminal → Terminal} (hf : Blind f) (hg : Blind g) : Blind fun t => g (f t) where
  blind t b o := by rw [hf.blind, hg.blind]
  size t := ⟨(hg.size _).1.trans (hf.size t).1, (hg.size _).2.trans (hf.size t).2⟩
  active t := (hg.active _).trans (hf.active t)
  limit t := (hg.limit _).trans (hf.limit t)

theorem blind_id : Blind id := ⟨fun _ _ _ => rfl, fun _ => ⟨rfl, rfl⟩, fun _ => rfl, fun _ => rfl⟩

theorem blind_setCol (col : Nat) : Blind (·.setCol col) := ⟨fun _ _ _ => rfl, fun _ => ⟨rfl, rfl⟩, fun _ => rfl, fun _ => rfl⟩
theorem blind_moveCursorToCol (col : Nat) : Blind (·.moveCursorToCol col) :=
  ⟨fun _ _ _ => rfl, fun _ => ⟨rfl, rfl⟩, fun _ => rfl, fun _ => rfl⟩
theorem blind_doMoveCursorToRow (row : Nat) : Blind (·.doMoveCursorToRow row) :=
  ⟨fun _ _ _ => rfl, fun _ => ⟨rfl, rfl⟩, fun _ => rfl, fun _ => rfl⟩
theorem blind_moveCursorToRow (row : Nat) : Blind (·.moveCursorToRow row) :=
  ⟨fun _ _ _ => rfl, fun _ => ⟨rfl, rfl⟩, fun _ => rfl, fun _ => rfl⟩
theorem blind_moveCursorHome : Blind moveCursorHome := ⟨fun _ _ _ => rfl, fun _ => ⟨rfl, rfl⟩, fun _ => rfl, fun _ => rfl⟩
theorem blind_saveCursor : Blind saveCursor := ⟨fun _ _ _ => rfl, fun _ => ⟨rfl, rfl⟩, fun _ => rfl, fun _ => rfl⟩
theorem blind_restoreCursor : Blind restoreCursor := ⟨fun _ _ _ => rfl, fun _ => ⟨rfl, rfl⟩, fun _ => rfl, fun _ => rfl⟩
theorem blind_advance (printed : Nat) : Blind (·.advanceCursorAfterPrint printed) :=
  ⟨fun _ _ _ => rfl, fun _ => ⟨rfl, rfl⟩, fun _ => rfl, fun _ => rfl⟩

theorem blind_ite {f g : Terminal → Terminal} {c : Terminal → Prop} [∀ t, Decidable (c t)] (hf : Blind f) (hg : Blind g)
    (hc : ∀ (t : Terminal) (b o : Buffer), c { t with buffer := b, otherBuffer := o } ↔ c t) :
    Blind fun t => if c t then f t else g t where
  blind t b o := by
    by_cases h : c t
    · rw [if_pos h, if_pos ((hc t b o).mpr h), hf.blind]
    · rw [if_neg h, if_neg fun h' => h ((hc t b o).mp h'), hg.blind]
  size t := by
    split
    · exact hf.size t
    · exact hg.size t
  active t := by
    split
    · exact hf.active t
    · exact hg.active t
  limit t := by
    split
    · exact hf.limit t
    · exact hg.limit t

theorem blind_setTab : Blind setTab :=
  blind_ite (f := fun t => { t with tabs := Tabs.set t.tabs t.cursor.col })
    ⟨fun _ _ _ => rfl, fun _ => ⟨rfl, rfl⟩, fun _ => rfl, fun _ => rfl⟩ blind_id
    fun _ _ _ => Iff.rfl

theorem blind_setMode (on : Bool) (mode : AnsiMode) : Blind (setMode on · mode) := by
  cases mode <;> exact ⟨fun _ _ _ => rfl, fun _ => ⟨rfl, rfl⟩, fun _ => rfl, fun _ => rfl⟩

theorem blind_modes (on : Bool) (modes : List AnsiMode) : Blind fun t => modes.foldl (setMode on) t := by
  induction modes with
  | nil => exact blind_id
  | cons mode modes ih => exact blind_comp (blind_setMode on mode) ih

theorem blind_setHyperlink (link : Option Avt.Hyperlink) : Blind (·.setHyperlink link) := by
  cases link <;> exact ⟨fun _ _ _ => rfl, fun _ => ⟨rfl, rfl⟩, fun _ => rfl, fun _ => rfl⟩

theorem blind_decstbm (top bottom : Nat) : Blind (·.decstbm top bottom) :=
  blind_comp
    (blind_ite (f := fun t => { t with topMargin := asUsize top 1 - 1, bottomMargin := asUsize bottom t.rows - 1 })
      (c := fun t => asUsize top 1 - 1 < asUsize bottom t.rows - 1 ∧ asUsize bottom t.rows - 1 < t.rows)
      ⟨fun _ _ _ => rfl, fun _ => ⟨rfl, rfl⟩, fun _ => rfl, fun _ => rfl⟩ blind_id fun _ _ _ => Iff.rfl)
    blind_moveCursorHome

/-! ### Functions on the screen -/

theorem Beside.screen (h : Beside gone o t₀ u t) {b b' : Buffer} (hb : Behind t.cols t.rows gone b b') :
    Beside gone o t₀ { u with buffer := b } { t with buffer := b' } := by
  obtain ⟨_, rfl, -, hframe⟩ := h
  exact ⟨b, rfl, hb, hframe.size, hframe.active, hframe.other, hframe.limit⟩

theorem beside_screen (h : Beside gone o t₀ u t) {x y : Option Buffer} (hxy : Option.Rel (Behind t.cols t.rows gone) x y) :
    Option.Rel (Beside gone o t₀) (do let buffer ← x; return { u with buffer := buffer })
    (do let buffer ← y; return { t with buffer := buffer }) :=
  rel_bind hxy fun _ _ hb => rel_pure (h.screen hb)

theorem beside_scrollUpInRegion (h : Beside gone o t₀ u t) (n : Nat) :
    Option.Rel (Beside gone o t₀) (u.scrollUpInRegion n) (t.scrollUpInRegion n) := by
  refine beside_screen h ?_
  obtain ⟨b, rfl, hb, -⟩ := h
  exact hb.scrollUp _ _ _ _

theorem beside_scrollDownInRegion (h : Beside gone o t₀ u t) (n : Nat) :
    Option.Rel (Beside gone o t₀) (u.scrollDownInRegion n) (t.scrollDownInRegion n) := by
  refine beside_screen h ?_
  obtain ⟨b, rfl, hb, -⟩ := h
  exact hb.scrollDown _ _ _ _

theorem beside_erase (h : Beside gone o t₀ u t) (mode : EraseMode) :
    Option.Rel (Beside gone o t₀) (u.erase mode) (t.erase mode) := by
  refine beside_screen h ?_
  obtain ⟨b, rfl, hb, -⟩ := h
  exact hb.erase _ _ _ _

theorem beside_il (h : Beside gone o t₀ u t) (n : Nat) : Option.Rel (Beside gone o t₀) (u.il n) (t.il n) := by
  refine beside_screen h ?_
  obtain ⟨b, rfl, hb, -⟩ := h
  exact hb.scrollDown _ _ _ _

theorem beside_dl (h : Beside gone o t₀ u t) (n : Nat) : Option.Rel (Beside gone o t₀) (u.dl n) (t.dl n) := by
  refine beside_screen h ?_
  obtain ⟨b, rfl, hb, -⟩ := h
  exact hb.scrollUp _ _ _ _

theorem beside_moveCursorDownWithScroll (h : Beside gone o t₀ u t) :
    Option.Rel (Beside gone o t₀) u.moveCursorDownWithScroll t.moveCursorDownWithScroll := by
  have hup := beside_scrollUpInRegion h 1
  have hmove := h.blind (blind_doMoveCursorToRow (t.cursor.row + 1))
  unfold moveCursorDownWithScroll
  obtain ⟨b, rfl, hb, hframe⟩ := h
  show Option.Rel _ (if t.cursor.row = t.bottomMargin then _ else if t.cursor.row < t.rows - 1 then _ else _) _
  split
  · exact hup
  split
  · exact .some hmove
  · exact .some ⟨b, rfl, hb, hframe⟩

theorem beside_lf (h : Beside gone o t₀ u t) : Option.Rel (Beside gone o t₀) u.lf t.lf :=
  rel_bind (beside_moveCursorDownWithScroll h) fun _ _ h' =>
    rel_pure (h'.blind (blind_ite (c := fun t => t.newLineMode = true) (blind_setCol 0) blind_id fun _ _ _ => Iff.rfl))

theorem beside_nel (h : Beside gone o t₀ u t) : Option.Rel (Beside gone o t₀) u.nel t.nel :=
  rel_bind (beside_moveCursorDownWithScroll h) fun _ _ h' => rel_pure (h'.blind (blind_setCol 0))

theorem beside_ri (h : Beside gone o t₀ u t) : Option.Rel (Beside gone o t₀) u.ri t.ri := by
  have hdown := beside_scrollDownInRegion h 1
  have hmove := h.blind (blind_moveCursorToRow (t.cursor.row - 1))
  unfold ri
  obtain ⟨b, rfl, hb, hframe⟩ := h
  show Option.Rel _ (if t.cursor.row = t.topMargin then _ else if 0 < t.cursor.row then _ else _) _
  split
  · exact hdown
  split
  · exact .some hmove
  · exact .some ⟨b, rfl, hb, hframe⟩

theorem beside_dch (h : Beside gone o t₀ u t) (n : Nat) : Option.Rel (Beside gone o t₀) (u.dch n) (t.dch n) := by
  have hmoved : Beside gone o t₀ (if u.cols ≤ u.cursor.col then u.moveCursorToCol (u.cols - 1) else u)
      (if t.cols ≤ t.cursor.col then t.moveCursorToCol (t.cols - 1) else t) :=
    h.blind (blind_ite (f := fun t => t.moveCursorToCol (t.cols - 1)) (c := fun t => t.cols ≤ t.cursor.col)
      ⟨fun _ _ _ => rfl, fun _ => ⟨rfl, rfl⟩, fun _ => rfl, fun _ => rfl⟩ blind_id fun _ _ _ => Iff.rfl)
  refine beside_screen hmoved ?_
  generalize (if u.cols ≤ u.cursor.col then u.moveCursorToCol (u.cols - 1) else u) = u' at hmoved ⊢
  generalize (if t.cols ≤ t.cursor.col then t.moveCursorToCol (t.cols - 1) else t) = t' at hmoved ⊢
  obtain ⟨b, rfl, hb, -⟩ := hmoved
  exact hb.delete _ _ _ _

theorem beside_ed (h : Beside gone o t₀ u t) (scope : EdScope) : Option.Rel (Beside gone o t₀) (u.ed scope) (t.ed scope) := by
  cases scope with
  | savedLines => exact .some h
  | _ => exact beside_erase h _

theorem beside_el (h : Beside gone o t₀ u t) (scope : ElScope) : Option.Rel (Beside gone o t₀) (u.el scope) (t.el scope) := by
  cases scope <;> exact beside_erase h _

variable (width : Char → Nat)

/-- A character printed somewhere in the view. -/
theorem beside_put (h : Beside gone o t₀ u t) (col row : Nat) (ch : Char) (pen : Pen) :
    Option.Rel (fun r r' => Behind t.cols t.rows gone r.1 r'.1 ∧ r.2 = r'.2) (u.buffer.print width col row ch pen)
      (t.buffer.print width col row ch pen) := by
  obtain ⟨b, rfl, hb, -⟩ := h
  exact hb.print width col row ch pen

theorem beside_decaln (h : Beside gone o t₀ u t) : Option.Rel (Beside gone o t₀) (u.decaln width) (t.decaln width) := by
  have hsize : u.rows = t.rows := by
    obtain ⟨b, rfl, -, -⟩ := h
    rfl
  unfold decaln
  rw [hsize]
  refine rel_foldlM (fun u' t' h' row _ => ?_) h
  have hcols : u'.cols = t'.cols := by
    obtain ⟨b, rfl, -, -⟩ := h'
    rfl
  rw [hcols]
  refine rel_foldlM (fun u'' t'' h'' col _ => ?_) h'
  exact rel_bind (beside_put width h'' col row 'E' .default) fun _ _ hr => rel_pure (h''.screen hr.1)

theorem beside_printSpace (h : Beside gone o t₀ u t) (col : Nat) :
    Option.Rel (Beside gone o t₀) (u.printSpace width col) (t.printSpace width col) := by
  have hput : Option.Rel (fun r r' => Behind t.cols t.rows gone r.1 r'.1 ∧ r.2 = r'.2)
    (u.buffer.print width col u.cursor.row ' ' u.pen)
      (t.buffer.print width col t.cursor.row ' ' t.pen) := by
    obtain ⟨b, rfl, hb, -⟩ := h
    exact hb.print width _ _ _ _
  exact rel_bind hput fun _ _ hr => rel_pure (h.screen hr.1)

theorem beside_ich (h : Beside gone o t₀ u t) (n : Nat) : Option.Rel (Beside gone o t₀) (u.ich width n) (t.ich width n) := by
  have hmoved : Beside gone o t₀ (if u.cursor.col = u.cols then u.setCol (u.cols - 1) else u)
      (if t.cursor.col = t.cols then t.setCol (t.cols - 1) else t) :=
    h.blind (blind_ite (f := fun t => t.setCol (t.cols - 1)) (c := fun t => t.cursor.col = t.cols)
      ⟨fun _ _ _ => rfl, fun _ => ⟨rfl, rfl⟩, fun _ => rfl, fun _ => rfl⟩ blind_id fun _ _ _ => Iff.rfl)
  unfold ich
  generalize (if u.cursor.col = u.cols then u.setCol (u.cols - 1) else u) = u' at hmoved ⊢
  generalize (if t.cursor.col = t.cols then t.setCol (t.cols - 1) else t) = t' at hmoved ⊢
  have hmoved' := hmoved
  obtain ⟨b, rfl, hb, -⟩ := hmoved'
  simp only
  split
  · exact .none
  · refine rel_bind (hb.shiftRight _ _ _ _) fun c c' hc => ?_
    exact rel_foldlM (fun u'' t'' h'' col _ => beside_printSpace width h'' col) (hmoved.screen hc)

theorem beside_printZeroWidth (h : Beside gone o t₀ u t) (ch : Char) :
    Option.Rel (Beside gone o t₀) (u.printZeroWidth ch) (t.printZeroWidth ch) := by
  unfold printZeroWidth
  have h' := h
  obtain ⟨b, rfl, hb, -⟩ := h'
  simp only
  split
  · exact .some h
  · exact rel_bind (hb.modify _ _) fun _ _ hc => rel_pure (h.screen hc)

theorem beside_tryPrint (h : Beside gone o t₀ u t) (ch : Char) :
    Option.Rel (fun r r' => Beside gone o t₀ r.1 r'.1 ∧ r.2 = r'.2) (u.tryPrint width ch) (t.tryPrint width ch) := by
  unfold tryPrint
  have h' := h
  obtain ⟨b, rfl, hb, -⟩ := h'
  simp only
  split
  · exact .some ⟨h, rfl⟩
  have hinsert : Option.Rel (Behind t.cols t.rows gone)
    (if t.insertMode = true then b.shiftRight t.cursor.col t.cursor.row 1 t.pen else some b)
      (if t.insertMode = true then t.buffer.shiftRight t.cursor.col t.cursor.row 1 t.pen else some t.buffer) := by
    split
    · exact hb.shiftRight _ _ _ _
    · exact .some hb
  refine rel_bind hinsert fun c c' hc => rel_bind (hc.print width _ _ _ _) fun r r' hr => rel_pure ⟨h.screen hr.1, hr.2⟩

theorem beside_wrapAndPrint (h : Beside gone o t₀ u t) (ch : Char) :
    Option.Rel (Beside gone o t₀) (u.wrapAndPrintAtLineStart width ch) (t.wrapAndPrintAtLineStart width ch) := by
  unfold wrapAndPrintAtLineStart
  have hwrap : Option.Rel (Beside gone o t₀)
      (if u.cursor.row = u.bottomMargin then do
          let buffer ← u.buffer.wrap u.cursor.row
          scrollUpInRegion { u with buffer := buffer } 1
        else if u.cursor.row < u.rows - 1 then do
          let buffer ← u.buffer.wrap u.cursor.row
          return { u with buffer := buffer, cursor := { u.cursor with row := u.cursor.row + 1 } }
        else some u)
      (if t.cursor.row = t.bottomMargin then do
          let buffer ← t.buffer.wrap t.cursor.row
          scrollUpInRegion { t with buffer := buffer } 1
        else if t.cursor.row < t.rows - 1 then do
          let buffer ← t.buffer.wrap t.cursor.row
          return { t with buffer := buffer, cursor := { t.cursor with row := t.cursor.row + 1 } }
        else some t) := by
    have h' := h
    obtain ⟨b, rfl, hb, -⟩ := h'
    simp only
    split
    · exact rel_bind (hb.modify _ _) fun c c' hc => beside_scrollUpInRegion (h.screen hc) 1
    split
    · refine rel_bind (hb.modify _ _) fun c c' hc => rel_pure ?_
      exact (h.screen hc).blind (f := fun t' => { t' with cursor := { t'.cursor with row := t'.cursor.row + 1 } })
        ⟨fun _ _ _ => rfl, fun _ => ⟨rfl, rfl⟩, fun _ => rfl, fun _ => rfl⟩
    · exact .some h
  refine rel_bind hwrap fun u' t' h' => ?_
  have h'' := h'
  obtain ⟨b, rfl, hb, -⟩ := h''
  refine rel_bind (hb.print width _ _ _ _) fun r r' hr => rel_pure ?_
  rw [hr.2]
  exact (h'.screen hr.1).blind (blind_setCol _)

theorem beside_printAtLineEnd (h : Beside gone o t₀ u t) (ch : Char) :
    Option.Rel (Beside gone o t₀) (u.printAtLineEnd width ch) (t.printAtLineEnd width ch) := by
  unfold printAtLineEnd
  have h' := h
  obtain ⟨b, rfl, hb, -⟩ := h'
  simp only
  split
  · exact .some (h.blind (blind_setCol _))
  refine rel_bind (hb.print width _ _ _ _) fun r r' hr => ?_
  obtain ⟨c, printed⟩ := r
  obtain ⟨c', printed'⟩ := r'
  obtain ⟨hc, rfl⟩ := hr
  by_cases hmissed : printed.isNone = true ∧ 0 < t.cursor.col - 1
  · simp only [if_pos hmissed]
    exact rel_bind (hc.print width _ _ _ _) fun r r' hr => rel_pure ((h.screen hr.1).blind (blind_setCol _))
  · simp only [if_neg hmissed]
    exact rel_pure ((h.screen hc).blind (blind_setCol _))

theorem beside_print (h : Beside gone o t₀ u t) (ch : Char) :
    Option.Rel (Beside gone o t₀) (u.print width ch) (t.print width ch) := by
  have hcharset : u.charset = t.charset := by
    obtain ⟨b, rfl, -, -⟩ := h
    rfl
  unfold print
  rw [hcharset]
  simp only
  split
  · exact beside_printZeroWidth h _
  · refine rel_bind (beside_tryPrint width h _) fun r r' hr => ?_
    obtain ⟨u', printed⟩ := r
    obtain ⟨t', printed'⟩ := r'
    obtain ⟨h', rfl⟩ := hr
    have h' : Beside gone o t₀ u' t' := h'
    have hwrap : u'.autoWrapMode = t'.autoWrapMode := by
      obtain ⟨b, rfl, -, -⟩ := h'
      rfl
    cases printed with
    | some printed => exact rel_pure (h'.blind (blind_advance printed))
    | none =>
      show Option.Rel _ (if u'.autoWrapMode = true then _ else _) (if t'.autoWrapMode = true then _ else _)
      rw [hwrap]
      split
      · exact beside_wrapAndPrint width h' _
      · exact beside_printAtLineEnd width h' _

theorem cell_beside (h : Beside gone o t₀ u t) (col row : Nat) : u.cell col row = t.cell col row := by
  obtain ⟨b, rfl, hb, -⟩ := h
  unfold cell
  rw [hb.line row]

theorem glyphCol_beside (h : Beside gone o t₀ u t) (row col : Nat) : u.glyphCol row col = t.glyphCol row col := by
  induction col with
  | zero => rfl
  | succ col ih =>
    unfold glyphCol
    rw [cell_beside h, ih]

theorem beside_rep (h : Beside gone o t₀ u t) (n : Nat) : Option.Rel (Beside gone o t₀) (u.rep width n) (t.rep width n) := by
  have hcursor : u.cursor = t.cursor := by
    obtain ⟨b, rfl, -, -⟩ := h
    rfl
  unfold rep
  rw [hcursor, glyphCol_beside h]
  split
  · exact .some h
  · cases t.glyphCol t.cursor.row (t.cursor.col - 1) with
    | none => exact .none
    | some col =>
      simp only [Option.bind_eq_bind, Option.bind_some]
      rw [cell_beside h]
      cases t.cell col t.cursor.row with
      | none => exact .none
      | some cell => exact rel_iterate (fun u' t' h' => beside_print width h' cell.ch) _ h

/-! ### Both screens -/

/-- Two terminals alike, but that `u` still has the lines `gone` in front of its primary screen,
    and maybe some in front of the alternate one. -/
inductive Alongside (gone : List Line) : Terminal → Terminal → Prop
  | primary {t : Terminal} {b o : Buffer} : t.activeBufferType = .primary → t.scrollbackLimit = some 0 →
    Behind t.cols t.rows gone b t.buffer →
      Alongside gone { t with buffer := b, otherBuffer := o } t
  | alternate {t : Terminal} {b o : Buffer} {junk : List Line} : t.activeBufferType = .alternate → t.scrollbackLimit = some 0 →
      Behind t.cols t.rows gone o t.otherBuffer → Behind t.cols t.rows junk b t.buffer →
        Alongside gone { t with buffer := b, otherBuffer := o } t

/-- After a function: alike still, and nothing has scrolled off the primary screen if it is not shown. -/
def Onward (gone : List Line) (u₀ u t : Terminal) : Prop :=
  Alongside gone u t ∧ (u.activeBufferType = .alternate → u.pending = u₀.pending)

/-- The modes: nothing scrolls off at all. -/
def Still (gone : List Line) (u₀ u t : Terminal) : Prop := Alongside gone u t ∧ u.pending = u₀.pending

theorem primaryBuffer_primary (h : t.activeBufferType = .primary) : t.primaryBuffer = t.buffer := if_pos h

theorem primaryBuffer_alternate (h : t.activeBufferType = .alternate) : t.primaryBuffer = t.otherBuffer := by
  unfold primaryBuffer
  rw [h]
  rfl

theorem pending_primary (h : t.activeBufferType = .primary) :
    t.pending = t.buffer.lines.take (t.buffer.lines.length - t.rows) := by
  unfold pending
  rw [primaryBuffer_primary h]

theorem pending_alternate (h : t.activeBufferType = .alternate) :
    t.pending = t.otherBuffer.lines.take (t.otherBuffer.lines.length - t.rows) := by
  unfold pending
  rw [primaryBuffer_alternate h]

theorem Alongside.onward (h : Alongside gone u t) {x y : Option Terminal}
    (hxy : ∀ g o, Beside g o t u t → Option.Rel (Beside g o t) x y) : Option.Rel (Onward gone u) x y := by
  cases h with
  | @primary t b o hactive hlimit hb =>
    refine rel_mono (hxy gone o ⟨b, rfl, hb, ⟨rfl, rfl⟩, rfl, rfl, rfl⟩) fun u' t' h' => ?_
    obtain ⟨b', rfl, hb', hframe⟩ := h'
    refine ⟨.primary (hframe.active.trans hactive) (hframe.limit.trans hlimit) hb', fun halternate => ?_⟩
    have halternate : t'.activeBufferType = .alternate := halternate
    rw [hframe.active, hactive] at halternate
    cases halternate
  | @alternate t b o junk hactive hlimit ho hb =>
    refine rel_mono (hxy junk o ⟨b, rfl, hb, ⟨rfl, rfl⟩, rfl, rfl, rfl⟩) fun u' t' h' => ?_
    obtain ⟨b', rfl, hb', hframe⟩ := h'
    refine ⟨.alternate (hframe.active.trans hactive) (hframe.limit.trans hlimit) ?_ hb', fun halternate => ?_⟩
    · rw [hframe.size.1, hframe.size.2, hframe.other]
      exact ho
    · rw [pending_alternate halternate, pending_alternate (t := { t with buffer := b, otherBuffer := o }) hactive]
      show o.lines.take (o.lines.length - t'.rows) = o.lines.take (o.lines.length - t.rows)
      rw [hframe.size.2]

/-- A function of neither screen. -/
theorem Alongside.still (h : Alongside gone u t) {f : Terminal → Terminal} (hf : Blind f) : Still gone u (f u) (f t) := by
  obtain ⟨hcols, hrows⟩ := hf.size t
  obtain ⟨hbuffer, hother⟩ := hf.buffers t
  cases h with
  | @primary t b o hactive hlimit hb =>
    rw [hf.blind]
    refine ⟨.primary ((hf.active t).trans hactive) ((hf.limit t).trans hlimit) ?_, ?_⟩
    · rw [hcols, hrows, hbuffer]
      exact hb
    · rw [pending_primary (t := { f t with buffer := b, otherBuffer := o }) ((hf.active t).trans hactive),
        pending_primary (t := { t with buffer := b, otherBuffer := o }) hactive]
      show b.lines.take (b.lines.length - (f t).rows) = b.lines.take (b.lines.length - t.rows)
      rw [hrows]
  | @alternate t b o junk hactive hlimit ho hb =>
    rw [hf.blind]
    have hother : Behind (f t).cols (f t).rows gone o (f t).otherBuffer := by
      rw [hcols, hrows, hother]
      exact ho
    have hbuffer : Behind (f t).cols (f t).rows junk b (f t).buffer := by
      rw [hcols, hrows, hbuffer]
      exact hb
    refine ⟨.alternate ((hf.active t).trans hactive) ((hf.limit t).trans hlimit) hother hbuffer, ?_⟩
    rw [pending_alternate (t := { f t with buffer := b, otherBuffer := o }) ((hf.active t).trans hactive),
      pending_alternate (t := { t with buffer := b, otherBuffer := o }) hactive]
    show o.lines.take (o.lines.length - (f t).rows) = o.lines.take (o.lines.length - t.rows)
    rw [hrows]

/-- The screen has the size it should have. -/
theorem Alongside.reflow (h : Alongside gone u t) : Option.Rel (Still gone u) u.reflow t.reflow := by
  unfold Terminal.reflow
  cases h with
  | @primary t b o hactive hlimit hb =>
    refine rel_bind (hb.resize _) fun r r' hr => rel_pure ?_
    obtain ⟨c, p⟩ := r
    obtain ⟨c', p'⟩ := r'
    obtain ⟨hc, hp, hp', hlines, -⟩ := hr
    obtain rfl : p = (t.cursor.col, t.cursor.row) := hp
    obtain rfl : p' = (t.cursor.col, t.cursor.row) := hp'
    refine ⟨.primary (t := { t with buffer := c', savedCtx := t.savedCtx.clamp t.cols t.rows }) hactive hlimit hc, ?_⟩
    have hc : c.lines = b.lines := hlines
    rw [pending_primary (t := { t with buffer := c, otherBuffer := o, savedCtx := t.savedCtx.clamp t.cols t.rows }) hactive,
      pending_primary (t := { t with buffer := b, otherBuffer := o }) hactive]
    show c.lines.take (c.lines.length - t.rows) = b.lines.take (b.lines.length - t.rows)
    rw [hc]
  | @alternate t b o junk hactive hlimit ho hb =>
    refine rel_bind (hb.resize _) fun r r' hr => rel_pure ?_
    obtain ⟨c, p⟩ := r
    obtain ⟨c', p'⟩ := r'
    obtain ⟨hc, hp, hp', -, -⟩ := hr
    obtain rfl : p = (t.cursor.col, t.cursor.row) := hp
    obtain rfl : p' = (t.cursor.col, t.cursor.row) := hp'
    refine ⟨.alternate (t := { t with buffer := c', savedCtx := t.savedCtx.clamp t.cols t.rows }) hactive hlimit ho hc, ?_⟩
    rw [pending_alternate (t := { t with buffer := c, otherBuffer := o, savedCtx := t.savedCtx.clamp t.cols t.rows }) hactive,
      pending_alternate (t := { t with buffer := b, otherBuffer := o }) hactive]

theorem Still.reflow {u₀ : Terminal} (h : Still gone u₀ u t) : Option.Rel (Still gone u₀) u.reflow t.reflow :=
  rel_mono h.1.reflow fun _ _ ⟨h', hpending⟩ => ⟨h', hpending.trans h.2⟩

theorem behind_new (cols rows : Nat) (pen : Pen) :
    Behind cols rows [] (.new cols rows (some 0) pen) (.new cols rows (some 0) pen) :=
  ⟨rfl, ⟨rfl, rfl⟩, ⟨rfl, rfl⟩, Nat.le_of_eq List.length_replicate.symm, fun _ => List.length_replicate, rfl⟩

theorem Alongside.toAlternate (h : Alongside gone u t) : Still gone u u.switchToAlternateBuffer t.switchToAlternateBuffer := by
  cases h with
  | @primary t b o hactive hlimit hb =>
    have hswitch : ∀ t : Terminal, t.activeBufferType = .primary → t.switchToAlternateBuffer = { t with
        activeBufferType := .alternate, savedCtx := t.alternateSavedCtx, alternateSavedCtx := t.savedCtx,
        buffer := .new t.cols t.rows (some 0) t.pen, otherBuffer := t.buffer } := fun t h => by rw [switchToAlternateBuffer, h]
    rw [hswitch t hactive, hswitch { t with buffer := b, otherBuffer := o } hactive]
    refine ⟨.alternate (t := { t with
      activeBufferType := .alternate, savedCtx := t.alternateSavedCtx, alternateSavedCtx := t.savedCtx,
      buffer := .new t.cols t.rows (some 0) t.pen, otherBuffer := t.buffer }) rfl hlimit hb (behind_new _ _ _), ?_⟩
    rw [pending_primary (t := { t with buffer := b, otherBuffer := o }) hactive]
    rfl
  | @alternate t b o junk hactive hlimit ho hb =>
    have hstay : ∀ t : Terminal, t.activeBufferType = .alternate → t.switchToAlternateBuffer = t := fun t h =>
      by rw [switchToAlternateBuffer, h]
    rw [hstay t hactive, hstay { t with buffer := b, otherBuffer := o } hactive]
    exact ⟨.alternate hactive hlimit ho hb, rfl⟩

theorem Alongside.toPrimary (h : Alongside gone u t) : Still gone u u.switchToPrimaryBuffer t.switchToPrimaryBuffer := by
  cases h with
  | @primary t b o hactive hlimit hb =>
    have hstay : ∀ t : Terminal, t.activeBufferType = .primary → t.switchToPrimaryBuffer = t := fun t h =>
      by rw [switchToPrimaryBuffer, h]
    rw [hstay t hactive, hstay { t with buffer := b, otherBuffer := o } hactive]
    exact ⟨.primary hactive hlimit hb, rfl⟩
  | @alternate t b o junk hactive hlimit ho hb =>
    have hswitch : ∀ t : Terminal, t.activeBufferType = .alternate → t.switchToPrimaryBuffer = { t with
        activeBufferType := .primary, savedCtx := t.alternateSavedCtx, alternateSavedCtx := t.savedCtx,
        buffer := t.otherBuffer, otherBuffer := t.buffer } := fun t h => by rw [switchToPrimaryBuffer, h]
    rw [hswitch t hactive, hswitch { t with buffer := b, otherBuffer := o } hactive]
    refine ⟨.primary (t := { t with
      activeBufferType := .primary, savedCtx := t.alternateSavedCtx, alternateSavedCtx := t.savedCtx,
      buffer := t.otherBuffer, otherBuffer := t.buffer }) rfl hlimit ho, ?_⟩
    rw [pending_alternate (t := { t with buffer := b, otherBuffer := o }) hactive]
    rfl

theorem Still.then {u₀ : Terminal} (h : Still gone u₀ u t) {u' t' : Terminal} (h' : Still gone u u' t') : Still gone u₀ u' t' :=
  ⟨h'.1, h'.2.trans h.2⟩

theorem blind_decset {f : Terminal → Terminal} (hf : Blind f) {u₀ : Terminal} (h : Still gone u₀ u t) :
    Option.Rel (Still gone u₀) (some (f u)) (some (f t)) := .some (h.then (h.1.still hf))

theorem decset_still {u₀ : Terminal} (h : Still gone u₀ u t) (mode : DecMode) :
    Option.Rel (Still gone u₀) (u.decset mode) (t.decset mode) := by
  cases mode with
  | cursorKeys =>
    exact blind_decset (f := fun t => { t with cursorKeysMode := .application })
      ⟨fun _ _ _ => rfl, fun _ => ⟨rfl, rfl⟩, fun _ => rfl, fun _ => rfl⟩ h
  | origin =>
    exact blind_decset (f := fun t => moveCursorHome { t with originMode := true })
      ⟨fun _ _ _ => rfl, fun _ => ⟨rfl, rfl⟩, fun _ => rfl, fun _ => rfl⟩ h
  | autoWrap =>
    exact blind_decset (f := fun t => { t with autoWrapMode := true })
      ⟨fun _ _ _ => rfl, fun _ => ⟨rfl, rfl⟩, fun _ => rfl, fun _ => rfl⟩ h
  | textCursorEnable =>
    exact blind_decset (f := fun t => { t with cursor := { t.cursor with visible := true } })
      ⟨fun _ _ _ => rfl, fun _ => ⟨rfl, rfl⟩, fun _ => rfl, fun _ => rfl⟩ h
  | altScreenBuffer => exact (h.then h.1.toAlternate).reflow
  | saveCursor => exact blind_decset blind_saveCursor h
  | saveCursorAltScreenBuffer =>
    have hsaved := h.then (h.1.still blind_saveCursor)
    exact (hsaved.then hsaved.1.toAlternate).reflow

theorem decrst_still {u₀ : Terminal} (h : Still gone u₀ u t) (mode : DecMode) :
    Option.Rel (Still gone u₀) (u.decrst mode) (t.decrst mode) := by
  cases mode with
  | cursorKeys =>
    exact blind_decset (f := fun t => { t with cursorKeysMode := .normal })
      ⟨fun _ _ _ => rfl, fun _ => ⟨rfl, rfl⟩, fun _ => rfl, fun _ => rfl⟩ h
  | origin =>
    exact blind_decset (f := fun t => moveCursorHome { t with originMode := false })
      ⟨fun _ _ _ => rfl, fun _ => ⟨rfl, rfl⟩, fun _ => rfl, fun _ => rfl⟩ h
  | autoWrap =>
    exact blind_decset (f := fun t => { t with autoWrapMode := false })
      ⟨fun _ _ _ => rfl, fun _ => ⟨rfl, rfl⟩, fun _ => rfl, fun _ => rfl⟩ h
  | textCursorEnable =>
    exact blind_decset (f := fun t => { t with cursor := { t.cursor with visible := false } })
      ⟨fun _ _ _ => rfl, fun _ => ⟨rfl, rfl⟩, fun _ => rfl, fun _ => rfl⟩ h
  | altScreenBuffer => exact (h.then h.1.toPrimary).reflow
  | saveCursor => exact blind_decset blind_restoreCursor h
  | saveCursorAltScreenBuffer =>
    have hback := h.then h.1.toPrimary
    exact (hback.then (hback.1.still blind_restoreCursor)).reflow

theorem Still.onward {u₀ : Terminal} {x y : Option Terminal} (h : Option.Rel (Still gone u₀) x y) :
    Option.Rel (Onward gone u₀) x y :=
  rel_mono h fun _ _ ⟨h', hpending⟩ => ⟨h', fun _ => hpending⟩

/-! ### Every function -/

variable {width} in
/-- Whatever has scrolled off, a function other than a full reset does the same. -/
theorem Alongside.execute (h : Alongside gone u t) {f : Function} (hf : f ≠ .ris) :
    Option.Rel (Onward gone u) (u.execute width f) (t.execute width f) := by
  have hblind : ∀ {g : Terminal → Terminal}, Blind g → Option.Rel (Onward gone u) (some (g u)) (some (g t)) :=
    fun hg => Still.onward (.some (h.still hg))
  cases f with
  | setHyperlink link => exact hblind (blind_setHyperlink link)
  | dch n => exact h.onward fun _ _ hb => beside_dch hb n
  | decaln => exact h.onward fun _ _ hb => beside_decaln width hb
  | decrst modes => exact Still.onward (rel_foldlM (fun _ _ h' mode _ => decrst_still h' mode) ⟨h, rfl⟩)
  | decset modes => exact Still.onward (rel_foldlM (fun _ _ h' mode _ => decset_still h' mode) ⟨h, rfl⟩)
  | decstbm top bottom => exact hblind (blind_decstbm top bottom)
  | dl n => exact h.onward fun _ _ hb => beside_dl hb n
  | ech n => exact h.onward fun _ _ hb => beside_erase hb _
  | ed scope => exact h.onward fun _ _ hb => beside_ed hb scope
  | el scope => exact h.onward fun _ _ hb => beside_el hb scope
  | ich n => exact h.onward fun _ _ hb => beside_ich width hb n
  | il n => exact h.onward fun _ _ hb => beside_il hb n
  | lf => exact h.onward fun _ _ hb => beside_lf hb
  | nel => exact h.onward fun _ _ hb => beside_nel hb
  | print ch => exact h.onward fun _ _ hb => beside_print width hb ch
  | rep n => exact h.onward fun _ _ hb => beside_rep width hb n
  | ri => exact h.onward fun _ _ hb => beside_ri hb
  | ris => exact absurd rfl hf
  | rm modes => exact hblind (blind_modes false modes)
  | sd n => exact h.onward fun _ _ hb => beside_scrollDownInRegion hb _
  | sm modes => exact hblind (blind_modes true modes)
  | su n => exact h.onward fun _ _ hb => beside_scrollUpInRegion hb _
  | hts => exact hblind blind_setTab
  | ctc op =>
    cases op with
    | set => exact hblind blind_setTab
    | clearCurrentColumn => exact hblind (g := clearTab) ⟨fun _ _ _ => rfl, fun _ => ⟨rfl, rfl⟩, fun _ => rfl, fun _ => rfl⟩
    | clearAll => exact hblind (g := clearAllTabs) ⟨fun _ _ _ => rfl, fun _ => ⟨rfl, rfl⟩, fun _ => rfl, fun _ => rfl⟩
  | tbc scope =>
    cases scope with
    | currentColumn => exact hblind (g := clearTab) ⟨fun _ _ _ => rfl, fun _ => ⟨rfl, rfl⟩, fun _ => rfl, fun _ => rfl⟩
    | all => exact hblind (g := clearAllTabs) ⟨fun _ _ _ => rfl, fun _ => ⟨rfl, rfl⟩, fun _ => rfl, fun _ => rfl⟩
  | bs => exact hblind (g := bs) ⟨fun _ _ _ => rfl, fun _ => ⟨rfl, rfl⟩, fun _ => rfl, fun _ => rfl⟩
  | cbt n =>
    exact hblind (g := (·.moveCursorToPrevTab (asUsize n 1)))
      ⟨fun _ _ _ => rfl, fun _ => ⟨rfl, rfl⟩, fun _ => rfl, fun _ => rfl⟩
  | cha n => exact hblind (blind_moveCursorToCol _)
  | cht n =>
    exact hblind (g := (·.moveCursorToNextTab (asUsize n 1)))
      ⟨fun _ _ _ => rfl, fun _ => ⟨rfl, rfl⟩, fun _ => rfl, fun _ => rfl⟩
  | cnl n =>
    exact hblind (g := fun t => (t.cursorDown (asUsize n 1)).setCol 0)
      ⟨fun _ _ _ => rfl, fun _ => ⟨rfl, rfl⟩, fun _ => rfl, fun _ => rfl⟩
  | cpl n =>
    exact hblind (g := fun t => (t.cursorUp (asUsize n 1)).setCol 0)
      ⟨fun _ _ _ => rfl, fun _ => ⟨rfl, rfl⟩, fun _ => rfl, fun _ => rfl⟩
  | cr => exact hblind (blind_setCol 0)
  | cub n => exact hblind (g := (·.cub n)) ⟨fun _ _ _ => rfl, fun _ => ⟨rfl, rfl⟩, fun _ => rfl, fun _ => rfl⟩
  | cud n => exact hblind (g := (·.cursorDown (asUsize n 1))) ⟨fun _ _ _ => rfl, fun _ => ⟨rfl, rfl⟩, fun _ => rfl, fun _ => rfl⟩
  | cuf n =>
    exact hblind (g := (·.moveCursorToRelCol (asUsize n 1)))
      ⟨fun _ _ _ => rfl, fun _ => ⟨rfl, rfl⟩, fun _ => rfl, fun _ => rfl⟩
  | cup row col => exact hblind (blind_comp (blind_moveCursorToCol _) (blind_moveCursorToRow _))
  | cuu n => exact hblind (g := (·.cursorUp (asUsize n 1))) ⟨fun _ _ _ => rfl, fun _ => ⟨rfl, rfl⟩, fun _ => rfl, fun _ => rfl⟩
  | decrc => exact hblind blind_restoreCursor
  | decsc => exact hblind blind_saveCursor
  | decstr => exact hblind (g := softReset) ⟨fun _ _ _ => rfl, fun _ => ⟨rfl, rfl⟩, fun _ => rfl, fun _ => rfl⟩
  | g1d4 charset =>
    exact hblind (g := fun t => { t with charsets := (t.charsets.1, charset) })
      ⟨fun _ _ _ => rfl, fun _ => ⟨rfl, rfl⟩, fun _ => rfl, fun _ => rfl⟩
  | gzd4 charset =>
    exact hblind (g := fun t => { t with charsets := (charset, t.charsets.2) })
      ⟨fun _ _ _ => rfl, fun _ => ⟨rfl, rfl⟩, fun _ => rfl, fun _ => rfl⟩
  | ht => exact hblind (g := (·.moveCursorToNextTab 1)) ⟨fun _ _ _ => rfl, fun _ => ⟨rfl, rfl⟩, fun _ => rfl, fun _ => rfl⟩
  | scorc => exact hblind blind_restoreCursor
  | scosc => exact hblind blind_saveCursor
  | sgr ops =>
    exact hblind (g := fun t => { t with pen := ops.foldl Pen.sgr t.pen })
      ⟨fun _ _ _ => rfl, fun _ => ⟨rfl, rfl⟩, fun _ => rfl, fun _ => rfl⟩
  | si =>
    exact hblind (g := fun t => { t with activeCharset := 0 })
      ⟨fun _ _ _ => rfl, fun _ => ⟨rfl, rfl⟩, fun _ => rfl, fun _ => rfl⟩
  | so =>
    exact hblind (g := fun t => { t with activeCharset := 1 })
      ⟨fun _ _ _ => rfl, fun _ => ⟨rfl, rfl⟩, fun _ => rfl, fun _ => rfl⟩
  | vpa n => exact hblind (blind_moveCursorToRow _)
  | vpr n => exact hblind (g := (·.cursorDown (asUsize n 1))) ⟨fun _ _ _ => rfl, fun _ => ⟨rfl, rfl⟩, fun _ => rfl, fun _ => rfl⟩
  | xtwinops _ _ => exact hblind blind_id

/-- A full reset leaves nothing of either. -/
theorem Alongside.reset (h : Alongside gone u t) : u.hardReset = t.hardReset ∧ Alongside [] t.hardReset t.hardReset := by
  have hsame : u.hardReset = t.hardReset := by cases h <;> rfl
  have hlimit : t.scrollbackLimit = some 0 := by cases h <;> assumption
  refine ⟨hsame, ?_⟩
  have hb : Behind t.cols t.rows [] t.hardReset.buffer t.hardReset.buffer := by
    show Behind t.cols t.rows [] (.new t.cols t.rows t.scrollbackLimit .default) (.new t.cols t.rows t.scrollbackLimit .default)
    rw [hlimit]
    exact behind_new _ _ _
  exact .primary (t := t.hardReset) (o := t.hardReset.otherBuffer) rfl hlimit hb

end Terminal

end Holdfast.Vendor

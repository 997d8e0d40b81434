/-
  Holdfast.Terminal.Reflow — a buffer takes another size (`extend`, `expand`, `contract` and
  `trim` of `vendor/avt/src/line.rs`, `Reflow` and `Buffer::resize` of
  `vendor/avt/src/buffer.rs`).

  `none` is a panic, as in `Holdfast.Terminal.Grid`; `reflow` is given rounds enough for every
  line it takes (`weight`).

  Proved:
  - `reflow_keeps_written`: lines of another width hold the same cells, and end where they ended.
  - `resizeCols_keeps_written`: so a buffer of another width holds what it held.
  - `resize_ok`: another size goes through and keeps a buffer as it should be, and the cursor in
    its view, where it is `Whole`: the blank lines that make room at the end are not those a line
    goes on to. Those it absorbs too, and then the last line goes on to one that is not there.
-/

import Mathlib.Data.List.DropRight
import Holdfast.Terminal.Buffer

namespace Holdfast.Vendor

open Holdfast.Terminal
open Holdfast.Base.Total
open Avt (Pen Painted)

namespace Line

def trailers (l : Line) : Nat := (l.cells.reverse.takeWhile Cell.isDefault).length

def trim (l : Line) : Line := { l with cells := l.cells.take (l.len - l.trailers) }

def expand (l : Line) (len : Nat) (pen : Pen) : Option Line :=
  if len < l.len then none else some { l with cells := l.cells ++ List.replicate (len - l.len) (.blank pen.erased) }

/-- The cells, and a space in place of a wide character that is cut in two behind them. -/
def pushSpace (cells : List Cell) : Option (List Cell) := do
  let last ← cells.getLast?
  return cells ++ [.new ' ' .single last.pen]

/-- The line, whether it is complete, and what is left of the other. -/
def extend (l other : Line) (len : Nat) : Option (Line × Bool × Option Line) :=
  if len < l.len then none
  else if len - l.len = 0 then some (l, true, some other)
  else if l.wrapped = false then do
    let l ← l.expand len .default
    return (l, true, some other)
  else
    let other := if other.wrapped then other else other.trim
    let needed := len - l.len
    if needed < other.len then do
      let next ← other.cells[needed]?
      if next.occupancy = .wideTail then
        let cells ← pushSpace l.cells
        return ({ l with cells := cells ++ other.cells.take (needed - 1) }, true,
          some { other with cells := other.cells.drop (needed - 1) })
      else return ({ l with cells := l.cells ++ other.cells.take needed }, true,
        some { other with cells := other.cells.drop needed })
    else
      let l := { l with cells := l.cells ++ other.cells }
      if other.wrapped then some (l, false, none)
      else do
        let l := { l with wrapped := false }
        let l ← (if l.len < len then l.expand len .default else some l)
        return (l, true, none)

/-- The line, and what is left of it. -/
def contract (l : Line) (len : Nat) : Option (Line × Option Line) :=
  let cells := if l.wrapped then l.cells else l.cells.take (max len (l.len - l.trailers))
  if len < cells.length then do
    let next ← cells[len]?
    if next.occupancy = .wideTail ∧ len = 0 then none
    else
      let cut := if next.occupancy = .wideTail then len - 1 else len
      let rest : Line := ⟨cells.drop cut, l.wrapped⟩
      let kept ← (if next.occupancy = .wideTail then pushSpace (cells.take cut) else some (cells.take cut))
      let rest := if l.wrapped then rest else rest.trim
      if rest.cells.isEmpty then return ({ l with cells := kept }, none)
      else return (⟨kept, true⟩, some rest)
  else some ({ l with cells := cells }, none)

end Line

/-! ## Lines of another width -/

/-- One line of the new width, from `line` and the lines behind it, and what is left of them. -/
def nextFrom (cols : Nat) : Line → List Line → Option (Line × List Line)
  | line, [] =>
    if cols < line.len then do
      let (line, rest) ← line.contract cols
      return (line, rest.toList)
    else if cols = line.len then some (line, [])
    else do
      let line ← line.expand cols .default
      return ({ line with wrapped := false }, [])
  | line, next :: iter =>
    if cols < line.len then do
      let (line, rest) ← line.contract cols
      return (line, rest.toList ++ next :: iter)
    else if cols = line.len then some (line, next :: iter)
    else do
      let (line, done, rest) ← line.extend next cols
      if done then return (line, rest.toList ++ iter) else nextFrom cols line iter

def reflowRounds (cols : Nat) : Nat → List Line → Option (List Line)
  | 0, _ => none
  | _ + 1, [] => some []
  | rounds + 1, line :: iter => do
    let (line, rest) ← nextFrom cols line iter
    let lines ← reflowRounds cols rounds rest
    return line :: lines

/-- Each round takes a line, or at least a cell of one. -/
def weight (lines : List Line) : Nat := (lines.map fun l => l.len + 1).sum

def reflow (lines : List Line) (cols : Nat) : Option (List Line) := do
  let lines ← reflowRounds cols (weight lines + 1) lines
  if lines.all fun l => l.len == cols then return lines else none

namespace Buffer

/-- The column in the logical line, and which line that is. -/
def logicalPosition (b : Buffer) (pos : Nat × Nat) (cols rows : Nat) : Option (Nat × Nat) :=
  if b.lines.length < rows then none
  else
    let absRow := pos.2 + (b.lines.length - rows)
    let start := absRow - min absRow b.lines.length
    let log := (b.lines.take absRow).foldl
      (fun (log : Nat × Nat) l => if l.wrapped then (log.1 + cols, log.2) else (0, log.2 + 1)) (0, start)
    some (pos.1 + log.1, log.2)

/-- The line where the logical line begins. -/
def seek (target lastRow : Nat) : List Line → Nat → Nat → Nat
  | [], _, row => row
  | l :: rest, r, row =>
    if r < target ∧ row < lastRow then seek target lastRow rest (if l.wrapped then r else r + 1) (row + 1) else row

/-- On in the logical line. -/
def advance (cols : Nat) : List Line → Nat → Nat → Option (Nat × Nat)
  | [], col, row => if cols ≤ col then none else some (col, row)
  | l :: rest, col, row => if cols ≤ col ∧ l.wrapped then advance cols rest (col - cols) (row + 1) else some (col, row)

def relativePosition (b : Buffer) (pos : Nat × Nat) (cols rows : Nat) : Option (Nat × Int) :=
  if b.lines.length = 0 ∨ cols = 0 ∨ b.lines.length < rows then none
  else do
    let row := seek pos.2 (b.lines.length - 1) b.lines 0 0
    let (col, row) ← advance cols (b.lines.drop row) pos.1 row
    return (min col (cols - 1), (row : Int) - ((b.lines.length - rows : Nat) : Int))

/-- How many blank lines stand below the cursor, at the end. -/
def available (lines : List Line) (firstDroppable : Nat) : Nat :=
  ((lines.drop firstDroppable).reverse.takeWhile Line.isBlank).length

/-- Blank lines below the cursor make room for lines that become several. -/
def absorb (b : Buffer) (logical : Nat × Nat) (cols oldRows : Nat) : Option Buffer :=
  if oldRows < b.lines.length then do
    let needed := b.lines.length - oldRows
    let prospective ← b.relativePosition logical cols oldRows
    if needed ≤ available b.lines (prospective.2.toNat + 1) then return { b with lines := b.lines.take (b.lines.length - needed) }
    else return b
  else some b

/-- The width; the cursor, and how many rows the view has then. -/
def resizeCols (b : Buffer) (cols : Nat) (logical cursor : Nat × Nat) : Option (Buffer × (Nat × Nat) × Nat) :=
  if cols = b.cols then some (b, cursor, b.rows)
  else do
    let lines ← reflow b.lines cols
    let b' := { b with lines := lines ++ List.replicate (b.rows - lines.length) (Line.blank cols .default) }
    let b' ← b'.absorb logical cols b.rows
    let relative ← b'.relativePosition logical cols b.rows
    return (b', (relative.1, relative.2.toNat), b.rows + (-relative.2).toNat)

/-- The height. -/
def resizeRows (b : Buffer) (cols rows oldRows : Nat) (cursor : Nat × Nat) : Option (Buffer × Nat × Nat) :=
  if rows < oldRows then
    let heightDelta := oldRows - rows
    if oldRows < 1 + cursor.2 then none
    else
      let excess := min heightDelta (oldRows - 1 - cursor.2)
      if b.lines.length < excess ∨ cursor.2 < heightDelta - excess then none
      else do
        let b ← (if 0 < excess then
          let lines := b.lines.take (b.lines.length - excess)
          lines.getLast?.map fun l => { b with lines := lines.set (lines.length - 1) { l with wrapped := false } }
        else some b)
        return (b, cursor.1, cursor.2 - (heightDelta - excess))
  else if oldRows < rows then
    let heightDelta := rows - oldRows
    let shift := min (b.lines.length - min oldRows b.lines.length) heightDelta
    let row := if cursor.2 < oldRows then cursor.2 + shift else cursor.2
    some (if 0 < heightDelta - shift then b.extend (heightDelta - shift) cols .default else b, cursor.1, row)
  else some (b, cursor.1, cursor.2)

def resize (b : Buffer) (cols rows : Nat) (cursor : Nat × Nat) : Option (Buffer × Nat × Nat) := do
  let logical ← b.logicalPosition cursor b.cols b.rows
  let (b, cursor, oldRows) ← b.resizeCols cols logical cursor
  let (b, cursor) ← b.resizeRows cols rows oldRows cursor
  return ({ b with cols := cols, rows := rows, trimNeeded := true }, cursor)

end Buffer

/-! ## What is written -/

def Cell.shows (c : Cell) : Bool := !(c.ch == ' ' && c.occupancy == .single && c.zeroWidth.isEmpty)

/-- The cells of a line that show something, and its end unless it goes on. -/
def Line.written (l : Line) : List (Option Cell) := (l.cells.filter Cell.shows).map some ++ if l.wrapped then [] else [none]

def written (lines : List Line) : List (Option Cell) := lines.flatMap Line.written

/-- A line that holds something to be wrapped. -/
structure Held (width : Char → Nat) (l : Line) : Prop where
  sound : Sound width l.cells
  filled : 0 < l.len

variable {width : Char → Nat} {l other : Line} {pen : Pen}

theorem filter_blanks (n : Nat) (pen : Pen) : (List.replicate n (Cell.blank pen)).filter Cell.shows = [] := by
  rw [List.filter_replicate]
  rfl

theorem shows_of_default {c : Cell} (h : c.isDefault = true) : c.shows = false := by
  simp only [Cell.isDefault, Bool.and_eq_true] at h
  simp only [Cell.shows, h.1.1.1, h.1.1.2, h.2, Bool.and_self, Bool.not_true]

namespace Line

/-- What trimming cuts off: cells that show nothing, each a column of its own. -/
theorem trailers_split (cells : List Cell) : ∃ a b, cells = a ++ b ∧ b.length = (cells.reverse.takeWhile Cell.isDefault).length ∧
    ∀ c ∈ b, c.isDefault = true := by
  refine ⟨(cells.reverse.dropWhile Cell.isDefault).reverse, (cells.reverse.takeWhile Cell.isDefault).reverse, ?_,
    List.length_reverse, ?_⟩
  · rw [← List.reverse_append, List.takeWhile_append_dropWhile, List.reverse_reverse]
  · intro c hc
    exact List.mem_takeWhile_imp (List.mem_reverse.mp hc)

theorem shows_nothing {b : List Cell} (h : ∀ c ∈ b, c.isDefault = true) : b.filter Cell.shows = [] := by
  rw [List.filter_eq_nil_iff]
  intro c hc
  rw [shows_of_default (h c hc)]
  exact Bool.false_ne_true

theorem sound_front {a b : List Cell} (h : Sound width (a ++ b)) (hb : ∀ c ∈ b, c.isDefault = true) : Sound width a := by
  cases b with
  | nil => rwa [List.append_nil] at h
  | cons c b =>
    refine (h.cut_clean ?_).1
    have hc := hb c List.mem_cons_self
    simp only [Cell.isDefault, Bool.and_eq_true, beq_iff_eq] at hc
    rw [hc.1.1.2]
    decide

theorem default_behind (l : Line) {n : Nat} (hn : l.len - l.trailers ≤ n) : ∀ c ∈ l.cells.drop n, c.isDefault = true := by
  obtain ⟨a, b, hcells, hb, hdefault⟩ := trailers_split l.cells
  have hlen : l.len - l.trailers = a.length := by
    rw [len, trailers, ← hb, hcells, List.length_append]
    omega
  rw [hlen] at hn
  rw [hcells, List.drop_append, List.drop_eq_nil_of_le hn, List.nil_append]
  exact fun c hc => hdefault c (List.mem_of_mem_drop hc)

/-- A line without some of the blanks at its end. -/
theorem cut_blanks (h : Sound width l.cells) {n : Nat} (hn : l.len - l.trailers ≤ n) :
    Sound width (l.cells.take n) ∧ (l.cells.take n).filter Cell.shows = l.cells.filter Cell.shows := by
  have hdefault := default_behind l hn
  have hsplit := List.take_append_drop n l.cells
  refine ⟨sound_front (by rwa [hsplit]) hdefault, ?_⟩
  conv_rhs => rw [← hsplit, List.filter_append, shows_nothing hdefault, List.append_nil]

/-- A line that goes on keeps its blanks. -/
theorem trimmed (h : Sound width l.cells) : ∃ cells, (if l.wrapped then l else l.trim) = ⟨cells, l.wrapped⟩ ∧ Sound width cells ∧
    cells.filter Cell.shows = l.cells.filter Cell.shows ∧ cells.length ≤ l.len := by
  split
  · exact ⟨l.cells, rfl, h, rfl, Nat.le_refl _⟩
  · obtain ⟨hs, hshows⟩ := cut_blanks h (Nat.le_refl _)
    exact ⟨_, rfl, hs, hshows, List.length_take_le' _ _⟩

/-- A cut between two cells, or one column earlier than through a wide character. -/
theorem cut_at {cells : List Cell} (h : Sound width cells) {n : Nat} {next : Cell} (hnext : cells[n]? = some next) :
    (next.occupancy ≠ .wideTail → Sound width (cells.take n) ∧ Sound width (cells.drop n)) ∧
      (next.occupancy = .wideTail → 0 < n ∧ Sound width (cells.take (n - 1)) ∧ Sound width (cells.drop (n - 1))) := by
  obtain ⟨hn, rfl⟩ := List.getElem?_eq_some_iff.mp hnext
  have hsplit : cells = cells.take n ++ cells[n] :: cells.drop (n + 1) := by
    rw [← List.drop_eq_getElem_cons hn, List.take_append_drop]
  have hlen : (cells.take n).length = n := by
    rw [List.length_take]
    omega
  rw [hsplit] at h
  refine ⟨fun hne => ?_, fun htail => ?_⟩
  · rw [List.drop_eq_getElem_cons hn]
    exact h.cut_clean hne
  · obtain ⟨a, head, htake, hhead, -, ha, -⟩ := h.cut_wide htail
    rw [htake, List.append_assoc] at h
    rw [htake, List.length_append, List.length_singleton] at hlen
    have hclean := h.cut_clean (by rw [hhead]; decide)
    have hcells : cells = a ++ (head :: cells[n] :: cells.drop (n + 1)) := by
      conv_lhs => rw [hsplit, htake, List.append_assoc]
      rfl
    refine ⟨by omega, ?_⟩
    rw [show n - 1 = a.length by omega]
    rw [hcells, List.take_left, List.drop_left]
    exact hclean

theorem pushSpace_gives (hspace : width ' ' = 1) {cells : List Cell} (h : Sound width cells) (hfilled : 0 < cells.length) :
    Gives (pushSpace cells) fun cells' => Sound width cells' ∧ cells'.length = cells.length + 1 ∧
      cells'.filter Cell.shows = cells.filter Cell.shows := by
  obtain ⟨last, hlast⟩ : ∃ last, cells.getLast? = some last := by
    rw [← Option.isSome_iff_exists, List.getLast?_isSome]
    exact List.ne_nil_of_length_pos hfilled
  have hpen := (h.ok last (List.mem_of_getLast? hlast)).pen
  unfold pushSpace
  rw [hlast]
  refine gives_pure ⟨h.append (sound_space hspace hpen), ?_, ?_⟩
  · rw [List.length_append, List.length_singleton]
  · rw [List.filter_append]
    exact List.append_nil _

end Line

theorem written_nil : written [] = [] := rfl

theorem written_cons (l : Line) (lines : List Line) : written (l :: lines) = l.written ++ written lines := rfl

theorem written_append (a b : List Line) : written (a ++ b) = written a ++ written b := List.flatMap_append

theorem weight_cons (l : Line) (lines : List Line) : weight (l :: lines) = l.len + 1 + weight lines := rfl

theorem weight_append (a b : List Line) : weight (a ++ b) = weight a + weight b := by
  unfold weight
  rw [List.map_append, List.sum_append]

open Buffer (LineOk Ends)

theorem ends_singleton {l : Line} : Ends [l] ↔ l.wrapped = false := ⟨fun h => h l rfl, fun h _ hl => Option.some.inj hl ▸ h⟩

theorem ends_append {a b : List Line} (hb : b ≠ []) : Ends (a ++ b) ↔ Ends b := by
  have hlast : (a ++ b)[(a ++ b).length - 1]? = b[b.length - 1]? := by
    have := List.length_pos_iff.mpr hb
    rw [List.length_append, List.getElem?_append_right (by omega)]
    congr 1
    omega
  unfold Ends
  rw [hlast]

theorem ends_cons {l : Line} {lines : List Line} (hlines : lines ≠ []) : Ends (l :: lines) ↔ Ends lines :=
  ends_append (a := [l]) hlines

/-- A line that is ready, and what is left of the lines it was taken from. -/
structure Taken (width : Char → Nat) (cols : Nat) (line : Line) (rest lines : List Line) : Prop where
  ready : LineOk width cols line
  held : ∀ l ∈ rest, Held width l
  same : written (line :: rest) = written lines
  less : weight rest < weight lines
  ends : Ends lines → Ends (line :: rest)

variable {cols : Nat}

theorem Taken.append {line : Line} {rest lines : List Line} (h : Taken width cols line rest lines) {more : List Line}
    (hmore : ∀ l ∈ more, Held width l) : Taken width cols line (rest ++ more) (lines ++ more) where
  ready := h.ready
  held l hl := (List.mem_append.mp hl).elim (h.held l) (hmore l)
  same := by rw [← List.cons_append, written_append, h.same, written_append]
  less := by
    rw [weight_append, weight_append]
    exact Nat.add_lt_add_right h.less _
  ends hends := by
    by_cases hnil : more = []
    · rw [hnil, List.append_nil] at hends ⊢
      exact h.ends hends
    · rw [ends_append hnil] at hends
      rwa [← List.cons_append, ends_append hnil]

section

variable (hspace : width ' ' = 1)

include hspace

theorem contract_taken (h : Held width l) (hcols : 2 ≤ cols) (hlong : cols < l.len) :
    Gives (l.contract cols) fun r => Taken width cols r.1 r.2.toList [l] := by
  unfold Line.contract
  have hcells : Sound width (if l.wrapped then l.cells else l.cells.take (max cols (l.len - l.trailers))) ∧
      (if l.wrapped then l.cells else l.cells.take (max cols (l.len - l.trailers))).filter Cell.shows =
        l.cells.filter Cell.shows ∧
      cols ≤ (if l.wrapped then l.cells else l.cells.take (max cols (l.len - l.trailers))).length ∧
      (if l.wrapped then l.cells else l.cells.take (max cols (l.len - l.trailers))).length ≤ l.len := by
    split
    · exact ⟨h.sound, rfl, Nat.le_of_lt hlong, Nat.le_refl _⟩
    · obtain ⟨hsound, hshows⟩ := Line.cut_blanks h.sound (Nat.le_max_right cols (l.len - l.trailers))
      refine ⟨hsound, hshows, ?_, ?_⟩
      · rw [List.length_take]
        exact Nat.le_min.mpr ⟨Nat.le_max_left _ _, Nat.le_of_lt hlong⟩
      · exact List.length_take_le' _ _
  generalize (if l.wrapped then l.cells else l.cells.take (max cols (l.len - l.trailers))) = cells at *
  obtain ⟨hsound, hshows, hle, hlen⟩ := hcells
  have hwritten : l.written = (cells.filter Cell.shows).map some ++ if l.wrapped then []
      else [none] := by rw [hshows, Line.written]
  -- what is kept, and the rest with its blanks
  have hfinish : ∀ kept rest : List Cell, kept.length = cols → Sound width kept → Sound width rest → rest.length < cells.length →
      kept.filter Cell.shows ++ rest.filter Cell.shows = cells.filter Cell.shows →
      Gives (let rest := if l.wrapped then (⟨rest, l.wrapped⟩ : Line) else Line.trim ⟨rest, l.wrapped⟩
        if rest.cells.isEmpty then pure ({ l with cells := kept }, none) else pure (⟨kept, true⟩, some rest))
        fun r => Taken width cols r.1 r.2.toList [l] := by
    intro kept rest hkept hskept hsrest hshort hsame
    obtain ⟨cells', hrest, hs', hshows', hlen'⟩ := Line.trimmed (l := ⟨rest, l.wrapped⟩) hsrest
    have hlen' : cells'.length ≤ rest.length := hlen'
    simp only [hrest]
    by_cases hempty : cells' = []
    · rw [hempty] at hshows'
      rw [← hshows', List.filter_nil, List.append_nil] at hsame
      rw [hempty, List.isEmpty_nil, if_pos rfl]
      refine gives_pure ⟨⟨hkept, hskept⟩, nofun, ?_, Nat.succ_pos _, fun hends =>
        ends_singleton.mpr (show l.wrapped = false from ends_singleton.mp hends)⟩
      show written ({ l with cells := kept } :: []) = written [l]
      rw [written_cons, written_cons, hwritten, ← hsame]
      rfl
    · rw [if_neg (by rwa [List.isEmpty_iff])]
      refine gives_pure ⟨⟨hkept, hskept⟩, fun r hr => ?_, ?_, ?_, fun hends => ?_⟩
      · obtain rfl := List.mem_singleton.mp hr
        exact ⟨hs', List.length_pos_iff.mpr hempty⟩
      · have hall : l.cells.filter Cell.shows = kept.filter Cell.shows ++ cells'.filter Cell.shows := by
          rw [hshows', hsame, hshows]
        show written ((⟨kept, true⟩ : Line) :: [⟨cells', l.wrapped⟩]) = written [l]
        simp only [written_cons, written_nil, Line.written, hall, List.map_append, List.append_nil, List.append_assoc, if_true]
      · show cells'.length + 1 < l.len + 1
        omega
      · exact (ends_cons (List.cons_ne_nil _ _)).mpr (ends_singleton.mpr (show l.wrapped = false from ends_singleton.mp hends))
  by_cases hmore : cols < cells.length
  · obtain ⟨next, hnext⟩ : ∃ next, cells[cols]? = some next := ⟨_, List.getElem?_eq_getElem hmore⟩
    obtain ⟨hclean, hwide⟩ := Line.cut_at hsound hnext
    rw [if_pos hmore]
    simp only [hnext, Option.bind_eq_bind, Option.bind_some]
    rw [if_neg (show ¬(next.occupancy = .wideTail ∧ cols = 0) by omega)]
    have hparts : ∀ n, (cells.take n).filter Cell.shows ++ (cells.drop n).filter Cell.shows =
        cells.filter Cell.shows := fun n => by
      rw [← List.filter_append, List.take_append_drop]
    by_cases htail : next.occupancy = .wideTail
    · obtain ⟨-, htake, hdrop⟩ := hwide htail
      have hlen : (cells.take (cols - 1)).length = cols - 1 := by
        rw [List.length_take]
        omega
      simp only [if_pos htail]
      refine (Line.pushSpace_gives hspace htake (by omega)).bind fun kept ⟨hskept, hkept, hshowskept⟩ => ?_
      refine hfinish kept (cells.drop (cols - 1)) (by omega) hskept hdrop ?_ (hshowskept ▸ hparts _)
      rw [List.length_drop]
      omega
    · obtain ⟨htake, hdrop⟩ := hclean htail
      simp only [if_neg htail]
      refine hfinish (cells.take cols) (cells.drop cols) ?_ htake hdrop ?_ (hparts _)
      · rw [List.length_take]
        omega
      · rw [List.length_drop]
        omega
  · rw [if_neg hmore]
    refine gives_some.mpr ⟨⟨Nat.le_antisymm (Nat.not_lt.mp hmore) hle, hsound⟩, nofun, ?_, Nat.succ_pos _,
      fun hends => ends_singleton.mpr (show l.wrapped = false from ends_singleton.mp hends)⟩
    show written ({ l with cells := cells } :: []) = written [l]
    rw [written_cons, written_cons, hwritten]
    rfl

/-- What comes of a line that goes on with the one behind it, or of two lines. -/
structure Extended (width : Char → Nat) (cols : Nat) (l other : Line) (r : Line × Bool × Option Line) : Prop where
  done : r.2.1 = true → Taken width cols r.1 r.2.2.toList [l, other]
  more : r.2.1 = false → Held width r.1 ∧ r.1.len ≤ cols ∧ r.1.wrapped = other.wrapped ∧
    r.1.written = l.written ++ other.written ∧
    r.1.len ≤ l.len + other.len

omit hspace in
theorem written_wrapped {l : Line} (h : l.wrapped = true) : l.written = (l.cells.filter Cell.shows).map some := by
  rw [Line.written, if_pos h, List.append_nil]

omit hspace in
theorem written_ended {l : Line} (h : l.wrapped = false) : l.written = (l.cells.filter Cell.shows).map some ++ [none] := by
  rw [Line.written, h, if_neg Bool.false_ne_true]

/-- Blanks up to a width. -/
theorem expand_gives (h : Sound width l.cells) (hshort : l.len ≤ cols) : Gives (l.expand cols .default) fun l' =>
    LineOk width cols l' ∧ l'.wrapped = l.wrapped ∧ l'.cells.filter Cell.shows = l.cells.filter Cell.shows := by
  unfold Line.expand
  rw [if_neg (Nat.not_lt.mpr hshort), gives_some]
  refine ⟨⟨?_, h.append (sound_blanks hspace Avt.painted_default _)⟩, rfl, ?_⟩
  · show (l.cells ++ List.replicate (cols - l.len) _).length = cols
    rw [List.length_append, List.length_replicate]
    exact Nat.add_sub_cancel' hshort
  · show (l.cells ++ List.replicate (cols - l.len) _).filter Cell.shows = _
    rw [List.filter_append, filter_blanks, List.append_nil]

omit hspace in
theorem written_congr {l l' : Line} (hw : l'.wrapped = l.wrapped) (hs : l'.cells.filter Cell.shows = l.cells.filter Cell.shows) :
    l'.written = l.written := by rw [Line.written, Line.written, hw, hs]

theorem extend_gives (h : Held width l) (hother : Held width other) (hshort : l.len < cols) :
    Gives (l.extend other cols) (Extended width cols l other) := by
  unfold Line.extend
  rw [if_neg (Nat.not_lt.mpr (Nat.le_of_lt hshort)), if_neg (show ¬cols - l.len = 0 by omega)]
  cases hw : l.wrapped with
  | false =>
    rw [if_pos rfl]
    refine (expand_gives hspace h.sound (Nat.le_of_lt hshort)).bind fun l' ⟨hready, hwrapped, hshows⟩ => ?_
    refine gives_pure ⟨fun _ => ⟨hready, fun l hl => List.mem_singleton.mp hl ▸ hother, ?_, ?_, fun hends => ?_⟩, nofun⟩
    · show written (l' :: [other]) = written [l, other]
      rw [written_cons, written_congr hwrapped hshows]
      rfl
    · show weight [other] < weight [l, other]
      rw [weight_cons l]
      omega
    · exact (ends_cons (List.cons_ne_nil _ _)).mpr ((ends_cons (List.cons_ne_nil _ _)).mp hends)
  | true =>
    rw [if_neg Bool.true_eq_false.mp]
    obtain ⟨cells, htrim, hsound, hshows, hlen⟩ := Line.trimmed hother.sound
    simp only [htrim]
    -- the line is full, and something is left
    have hfinish : ∀ kept rest : List Cell, kept.length = cols → Sound width kept → Sound width rest →
      0 < rest.length → rest.length ≤ other.len →
        kept.filter Cell.shows ++ rest.filter Cell.shows = l.cells.filter Cell.shows ++ cells.filter Cell.shows →
        Gives (pure (⟨kept, true⟩, true, some ⟨rest, other.wrapped⟩)) (Extended width cols l other) := by
      intro kept rest hkept hskept hsrest hfilled hle hsame
      refine gives_pure ⟨fun _ => ⟨⟨hkept, hskept⟩, fun r hr => ?_, ?_, ?_, fun hends => ?_⟩, nofun⟩
      · obtain rfl := List.mem_singleton.mp hr
        exact ⟨hsrest, hfilled⟩
      · have hrest : (⟨rest, other.wrapped⟩ : Line).written =
            (rest.filter Cell.shows).map some ++ if other.wrapped then [] else [none] := rfl
        have hothers : other.written =
            (cells.filter Cell.shows).map some ++ if other.wrapped then [] else [none] := by rw [hshows, Line.written]
        show written ((⟨kept, true⟩ : Line) :: [⟨rest, other.wrapped⟩]) = written [l, other]
        rw [written_cons, written_cons, written_cons, written_cons, written_wrapped rfl, written_wrapped hw, hrest, hothers]
        simp only [← List.append_assoc, ← List.map_append, hsame]
      · show weight [⟨rest, other.wrapped⟩] < weight [l, other]
        have hweight : weight [⟨rest, other.wrapped⟩] = rest.length + 1 := rfl
        rw [hweight, weight_cons, weight_cons]
        omega
      · exact (ends_cons (List.cons_ne_nil _ _)).mpr (ends_singleton.mpr (show other.wrapped = false from
          ends_singleton.mp ((ends_cons (List.cons_ne_nil _ _)).mp hends)))
    by_cases hmore : cols - l.len < cells.length
    · obtain ⟨next, hnext⟩ : ∃ next, cells[cols - l.len]? = some next := ⟨_, List.getElem?_eq_getElem hmore⟩
      obtain ⟨hclean, hwide⟩ := Line.cut_at hsound hnext
      have hparts : ∀ n, (cells.take n).filter Cell.shows ++ (cells.drop n).filter Cell.shows =
          cells.filter Cell.shows := fun n => by
        rw [← List.filter_append, List.take_append_drop]
      rw [if_pos (show cols - l.len < (⟨cells, other.wrapped⟩ : Line).len from hmore)]
      simp only [hnext, Option.bind_eq_bind, Option.bind_some]
      by_cases htail : next.occupancy = .wideTail
      · obtain ⟨hpos, htake, hdrop⟩ := hwide htail
        rw [if_pos htail]
        refine (Line.pushSpace_gives hspace h.sound h.filled).bind fun kept ⟨hskept, hkept, hshowskept⟩ => ?_
        have hlkept : kept.length = l.len + 1 := hkept
        refine hfinish (kept ++ cells.take (cols - l.len - 1)) (cells.drop (cols - l.len - 1)) ?_
          (hskept.append htake) hdrop ?_ ?_ ?_
        · rw [List.length_append, List.length_take]
          omega
        · rw [List.length_drop]
          omega
        · rw [List.length_drop]
          omega
        · rw [List.filter_append, List.append_assoc, hparts, hshowskept]
      · obtain ⟨htake, hdrop⟩ := hclean htail
        rw [if_neg htail]
        refine hfinish (l.cells ++ cells.take (cols - l.len)) (cells.drop (cols - l.len)) ?_ (h.sound.append htake) hdrop ?_ ?_ ?_
        · rw [List.length_append, List.length_take]
          show l.len + _ = cols
          omega
        · rw [List.length_drop]
          omega
        · rw [List.length_drop]
          omega
        · rw [List.filter_append, List.append_assoc, hparts]
    · -- all of the other line, and more if it goes on
      have hlens : (l.cells ++ cells).length = l.len + cells.length := List.length_append
      have hall : (l.cells ++ cells).filter Cell.shows = l.cells.filter Cell.shows ++ other.cells.filter Cell.shows := by
        rw [List.filter_append, hshows]
      rw [if_neg (show ¬cols - l.len < (⟨cells, other.wrapped⟩ : Line).len from hmore)]
      cases how : other.wrapped with
      | true =>
        rw [if_pos rfl]
        refine gives_some.mpr ⟨nofun, fun _ => ⟨⟨h.sound.append hsound, ?_⟩, ?_, how.symm, ?_, ?_⟩⟩
        · show 0 < (l.cells ++ cells).length
          have := h.filled
          omega
        · show (l.cells ++ cells).length ≤ cols
          omega
        · rw [written_wrapped rfl, written_wrapped hw, written_wrapped how, ← List.map_append, ← hall]
        · show (l.cells ++ cells).length ≤ _
          omega
      | false =>
        rw [if_neg Bool.false_ne_true]
        have hexpand : Gives (if (⟨l.cells ++ cells, false⟩ : Line).len < cols
          then Line.expand ⟨l.cells ++ cells, false⟩ cols .default
            else some ⟨l.cells ++ cells, false⟩) fun l' => LineOk width cols l' ∧ l'.wrapped = false ∧
              l'.cells.filter Cell.shows = (l.cells ++ cells).filter Cell.shows := by
          split
          · exact expand_gives hspace (h.sound.append hsound) (Nat.le_of_lt ‹_›)
          · refine gives_some.mpr ⟨⟨?_, h.sound.append hsound⟩, rfl, rfl⟩
            have hlong : ¬(l.cells ++ cells).length < cols := ‹_›
            show (l.cells ++ cells).length = cols
            omega
        refine hexpand.bind fun l' ⟨hready, hwrapped, hshows'⟩ => ?_
        refine gives_pure ⟨fun _ => ⟨hready, nofun, ?_, Nat.succ_pos _, fun _ => ends_singleton.mpr hwrapped⟩, nofun⟩
        show written (l' :: []) = written [l, other]
        rw [written_cons, written_cons, written_cons, written_nil, written_ended hwrapped, written_wrapped hw,
          written_ended how, hshows', hall]
        simp only [List.map_append, List.append_assoc, List.append_nil]

theorem nextFrom_taken (hcols : 2 ≤ cols) :
    ∀ (iter : List Line) (line : Line), Held width line → (∀ l ∈ iter, Held width l) → Ends (line :: iter) →
    Gives (nextFrom cols line iter) fun r => Taken width cols r.1 r.2 (line :: iter)
  | [], line, h, _, hends => by
    unfold nextFrom
    by_cases hlong : cols < line.len
    · rw [if_pos hlong]
      exact (contract_taken hspace h hcols hlong).bind fun r hr => gives_pure hr
    rw [if_neg hlong]
    by_cases hsame : cols = line.len
    · rw [if_pos hsame]
      exact gives_some.mpr ⟨⟨hsame.symm, h.sound⟩, nofun, rfl, Nat.succ_pos _, id⟩
    · rw [if_neg hsame]
      refine (expand_gives hspace h.sound (Nat.not_lt.mp hlong)).bind fun l' ⟨hready, hwrapped, hshows⟩ => ?_
      refine gives_pure ⟨⟨hready.len, hready.sound⟩, nofun, ?_, Nat.succ_pos _, fun _ => ends_singleton.mpr rfl⟩
      show written ({ l' with wrapped := false } :: []) = written [line]
      rw [written_cons, written_cons]
      have hwritten : Line.written { l' with wrapped := false } = line.written :=
        written_congr (ends_singleton.mp hends).symm hshows
      rw [hwritten]
  | next :: iter, line, h, hiter, hends => by
    have hnext := hiter next List.mem_cons_self
    have hrest : ∀ l ∈ iter, Held width l := fun l hl => hiter l (List.mem_cons_of_mem _ hl)
    unfold nextFrom
    by_cases hlong : cols < line.len
    · rw [if_pos hlong]
      exact (contract_taken hspace h hcols hlong).bind fun r hr => gives_pure (hr.append hiter)
    rw [if_neg hlong]
    by_cases hsame : cols = line.len
    · rw [if_pos hsame]
      refine gives_some.mpr ⟨⟨hsame.symm, h.sound⟩, hiter, rfl, ?_, id⟩
      show weight (next :: iter) < weight (line :: next :: iter)
      rw [weight_cons line]
      omega
    · rw [if_neg hsame]
      refine (extend_gives hspace h hnext (by omega)).bind fun r hr => ?_
      obtain ⟨l', done, rest⟩ := r
      cases done with
      | true => exact gives_pure ((hr.done rfl).append hrest)
      | false =>
        obtain ⟨hheld, -, hwrapped, hwritten, hlen⟩ := hr.more rfl
        have hends' : Ends (l' :: iter) := by
          rw [ends_cons (List.cons_ne_nil _ _)] at hends
          by_cases hnil : iter = []
          · rw [hnil, ends_singleton] at hends ⊢
            exact hwrapped.trans hends
          · rw [ends_cons hnil] at hends ⊢
            exact hends
        show Gives (nextFrom cols l' iter) _
        refine (nextFrom_taken hcols iter l' hheld hrest hends').mono fun r hr =>
          ⟨hr.ready, hr.held, ?_, ?_, fun _ => hr.ends hends'⟩
        · have hwritten : l'.written = line.written ++ next.written := hwritten
          rw [hr.same, written_cons, written_cons, written_cons, hwritten, List.append_assoc]
        · have hlen : l'.len ≤ line.len + next.len := hlen
          refine Nat.lt_of_lt_of_le hr.less ?_
          rw [weight_cons, weight_cons, weight_cons]
          omega

theorem reflowRounds_gives (hcols : 2 ≤ cols) (rounds : Nat) {lines : List Line} (hrounds : weight lines < rounds)
    (h : ∀ l ∈ lines, Held width l)
    (hends : Ends lines) : Gives (reflowRounds cols rounds lines) fun lines' => (∀ l ∈ lines', LineOk width cols l) ∧
    written lines' = written lines ∧
      Ends lines' ∧ (lines' = [] ↔ lines = []) := by
  induction rounds generalizing lines with
  | zero => exact absurd hrounds (Nat.not_lt_zero _)
  | succ rounds ih =>
    cases lines with
    | nil => exact gives_some.mpr ⟨nofun, rfl, hends, Iff.rfl⟩
    | cons line iter =>
      unfold reflowRounds
      refine (nextFrom_taken hspace hcols iter line (h line List.mem_cons_self)
        (fun l hl => h l (List.mem_cons_of_mem _ hl)) hends).bind
        fun r hr => ?_
      have hless := hr.less
      have hendsr := hr.ends hends
      have hrest : Ends r.2 := by
        by_cases hnil : r.2 = []
        · rw [hnil]
          exact nofun
        · rwa [ends_cons hnil] at hendsr
      refine (ih (by omega) hr.held hrest).bind fun lines' ⟨hok, hsame, hends', hnil⟩ => gives_pure ⟨?_, ?_, ?_, ?_⟩
      · intro l hl
        rcases List.mem_cons.mp hl with rfl | hl
        · exact hr.ready
        · exact hok l hl
      · rw [written_cons, hsame, ← written_cons, hr.same]
      · by_cases hnil' : lines' = []
        · rw [hnil', ends_singleton]
          rwa [hnil.mp hnil', ends_singleton] at hendsr
        · rwa [ends_cons hnil']
      · exact ⟨fun h => absurd h (List.cons_ne_nil _ _), fun h => absurd h (List.cons_ne_nil _ _)⟩

/-- Lines of another width hold what the lines held, in its order, and break where they broke. -/
theorem reflow_keeps_written (hcols : 2 ≤ cols) {lines : List Line} (h : ∀ l ∈ lines, Held width l) (hends : Ends lines) :
    Gives (reflow lines cols) fun lines' => (∀ l ∈ lines', LineOk width cols l) ∧ Ends lines' ∧
    written lines' = written lines := by
  unfold reflow
  refine (reflowRounds_gives hspace hcols _ (Nat.lt_succ_self _) h hends).bind fun lines' ⟨hok, hsame, hends', _⟩ => ?_
  rw [if_pos (List.all_eq_true.mpr (fun l hl => beq_iff_eq.mpr (hok l hl).len))]
  exact gives_pure ⟨hok, hends', hsame⟩

/-! ## A buffer of another size -/

namespace Buffer

/-- The lines of a buffer whose view has `rows` rows. -/
structure Filled (width : Char → Nat) (cols rows : Nat) (lines : List Line) : Prop where
  room : rows ≤ lines.length
  all : ∀ l ∈ lines, LineOk width cols l
  ends : Ends lines

variable {b : Buffer} {rows oldRows : Nat}

theorem extend_filled (rows : Nat) {lines : List Line} (h : ∀ l ∈ lines, LineOk width cols l) (hends : Ends lines)
    (n : Nat) (hroom : rows ≤ lines.length + n) :
    Filled width cols rows (lines ++ List.replicate n (.blank cols .default)) where
  room := by rwa [List.length_append, List.length_replicate]
  all l hl := by
    rcases List.mem_append.mp hl with hl | hl
    · exact h l hl
    · rw [List.eq_of_mem_replicate hl]
      exact blank_ok hspace Avt.painted_default
  ends := by
    by_cases hn : n = 0
    · rwa [hn, List.replicate_zero, List.append_nil]
    · have hne : List.replicate n (Line.blank cols .default) ≠ [] := by
        rwa [Ne, List.replicate_eq_nil_iff]
      rw [ends_append hne]
      intro l hl
      rw [List.eq_of_mem_replicate (List.mem_of_getElem? hl)]
      rfl

omit hspace in
/-- The first lines, the last of them at its end. -/
theorem truncate_filled (rows : Nat) {lines : List Line} (h : ∀ l ∈ lines, LineOk width cols l) {n : Nat} (hn : 0 < n)
    (hle : n ≤ lines.length) (hroom : rows ≤ n) :
    ∃ l, (lines.take n).getLast? = some l ∧
      Filled width cols rows ((lines.take n).set ((lines.take n).length - 1) { l with wrapped := false }) := by
  have hlen : (lines.take n).length = n := by
    rw [List.length_take]
    omega
  obtain ⟨l, hl⟩ : ∃ l, (lines.take n).getLast? = some l := by
    rw [← Option.isSome_iff_exists, List.getLast?_isSome]
    exact List.ne_nil_of_length_pos (by omega)
  have hok := h l (List.mem_of_mem_take (List.mem_of_getLast? hl))
  refine ⟨l, hl, ?_, fun l' hl' => ?_, ?_⟩
  · rwa [List.length_set, hlen]
  · rcases List.mem_or_eq_of_mem_set hl' with hl' | rfl
    · exact h l' (List.mem_of_mem_take hl')
    · exact ⟨hok.len, hok.sound⟩
  · intro l' hl'
    rw [List.length_set, List.getElem?_set, if_pos rfl, if_pos (by omega)] at hl'
    rw [← Option.some.inj hl']

theorem resizeRows_gives (hrows : 0 < rows) (h : Filled width cols oldRows b.lines) {cursor : Nat × Nat}
    (hcursor : cursor.2 < oldRows ∨ cursor.2 < rows) : Gives (b.resizeRows cols rows oldRows cursor)
      fun r => Filled width cols rows r.1.lines ∧ r.2.1 = cursor.1 ∧ r.2.2 < rows := by
  have hroom := h.room
  unfold resizeRows
  by_cases hless : rows < oldRows
  · rw [if_pos hless, if_neg (by omega), if_neg (by omega)]
    by_cases hexcess : 0 < min (oldRows - rows) (oldRows - 1 - cursor.2)
    · obtain ⟨l, hl, hfilled⟩ := truncate_filled rows h.all
        (n := b.lines.length - min (oldRows - rows) (oldRows - 1 - cursor.2)) (by omega) (Nat.sub_le _ _) (by omega)
      rw [if_pos hexcess]
      simp only [hl, Option.map_some, Option.bind_eq_bind, Option.bind_some]
      exact gives_pure ⟨hfilled, rfl, by show cursor.2 - (oldRows - rows - _) < rows; omega⟩
    · rw [if_neg hexcess]
      refine gives_pure ⟨⟨?_, h.all, h.ends⟩, rfl, ?_⟩
      · show rows ≤ b.lines.length
        omega
      · show cursor.2 - (oldRows - rows - _) < rows
        omega
  · rw [if_neg hless]
    by_cases hmore : oldRows < rows
    · rw [if_pos hmore, gives_some]
      refine ⟨?_, rfl, ?_⟩
      · split
        · exact extend_filled hspace _ h.all h.ends _ (by omega)
        · refine ⟨?_, h.all, h.ends⟩
          show rows ≤ b.lines.length
          omega
      · show (if cursor.2 < oldRows then _ else cursor.2) < rows
        split <;> omega
    · obtain rfl : oldRows = rows := by omega
      rw [if_neg hmore]
      exact gives_some.mpr ⟨h, rfl, by show cursor.2 < oldRows; omega⟩

omit hspace in
theorem seek_le (target : Nat) {lastRow : Nat} (lines : List Line) {r row : Nat} (h : row ≤ lastRow) :
    seek target lastRow lines r row ≤ lastRow := by
  induction lines generalizing r row with
  | nil => exact h
  | cons l rest ih =>
    unfold seek
    split
    · rename_i hgo
      exact ih hgo.2
    · exact h

omit hspace in
/-- A line that goes on has one behind it. -/
theorem advance_gives {lines : List Line} (hne : lines ≠ []) (hends : Ends lines) (col row : Nat) :
    Gives (advance cols lines col row) fun r => r.2 < row + lines.length := by
  induction lines generalizing col row with
  | nil => exact absurd rfl hne
  | cons l rest ih =>
    unfold advance
    split
    · rename_i hgo
      have hrest : rest ≠ [] := by
        rintro rfl
        rw [ends_singleton.mp hends] at hgo
        exact Bool.false_ne_true hgo.2
      refine (ih hrest ((ends_cons hrest).mp hends) _ _).mono fun r hr => ?_
      rw [List.length_cons]
      omega
    · rw [gives_some, List.length_cons]
      omega

omit hspace in
theorem relativePosition_gives (hcols : 0 < cols) (hrows : 0 < rows) (hroom : rows ≤ b.lines.length)
    (hends : Ends b.lines) (pos : Nat × Nat) :
    Gives (b.relativePosition pos cols rows) fun r => r.1 < cols ∧ r.2 < rows ∧ -((b.lines.length - rows : Nat) : Int) ≤ r.2 := by
  unfold relativePosition
  rw [if_neg (by omega)]
  have hseek := seek_le pos.2 b.lines (r := 0) (Nat.zero_le (b.lines.length - 1))
  have hlen : (b.lines.drop (seek pos.2 (b.lines.length - 1) b.lines 0 0)).length =
      b.lines.length - seek pos.2 (b.lines.length - 1) b.lines 0 0 := List.length_drop
  have hne : b.lines.drop (seek pos.2 (b.lines.length - 1) b.lines 0 0) ≠ [] := List.ne_nil_of_length_pos (by omega)
  have hends' : Ends (b.lines.drop (seek pos.2 (b.lines.length - 1) b.lines 0 0)) := by
    rw [← List.take_append_drop (seek pos.2 (b.lines.length - 1) b.lines 0 0) b.lines, ends_append hne] at hends
    exact hends
  refine (advance_gives hne hends' pos.1 _).bind fun r hr => gives_pure ⟨?_, ?_, ?_⟩
  · show min r.1 (cols - 1) < cols
    omega
  · show (r.2 : Int) - _ < rows
    omega
  · show _ ≤ (r.2 : Int) - _
    omega

/-- Where blank lines at the end make room, the line that is last then does not go on. -/
def Whole (b : Buffer) (cols : Nat) : Prop := ∀ lines l, reflow b.lines cols = some lines → b.rows < lines.length →
  lines[b.rows - 1]? = some l → l.wrapped = false

omit hspace in
theorem absorb_gives (hcols : 0 < cols) (hrows : 0 < rows) (h : Filled width cols rows b.lines) (logical : Nat × Nat)
    (hwhole : ∀ l, rows < b.lines.length → b.lines[rows - 1]? = some l → l.wrapped = false) :
    Gives (b.absorb logical cols rows) fun b' => Filled width cols rows b'.lines ∧ b'.rows = b.rows := by
  have hroom := h.room
  unfold absorb
  split
  · rename_i hlong
    refine (relativePosition_gives hcols hrows hroom h.ends logical).bind fun r _ => ?_
    split
    · have hlen : (b.lines.take (b.lines.length - (b.lines.length - rows))).length = rows := by
        rw [List.length_take]
        omega
      refine gives_pure ⟨⟨Nat.le_of_eq hlen.symm, fun l hl => h.all l (List.mem_of_mem_take hl), fun l hl => ?_⟩, rfl⟩
      rw [hlen, List.getElem?_take_of_lt (by omega)] at hl
      exact hwhole l hlong hl
    · exact gives_pure ⟨h, rfl⟩
  · exact gives_some.mpr ⟨h, rfl⟩

omit hspace in
theorem logicalPosition_gives (hroom : b.rows ≤ b.lines.length) (pos : Nat × Nat) (cols : Nat) :
    Gives (b.logicalPosition pos cols b.rows) fun _ => True := by
  unfold logicalPosition
  rw [if_neg (Nat.not_lt.mpr hroom), gives_some]
  trivial

/-- Another width: the cursor is in the view, which may reach further up. -/
theorem resizeCols_gives (hcols : 2 ≤ cols) (hne : cols ≠ b.cols) (hpos : 0 < b.cols)
    (h : Ok width b.cols b) (hwhole : b.Whole cols)
    (logical cursor : Nat × Nat) : Gives (b.resizeCols cols logical cursor)
      fun r => Filled width cols r.2.2 r.1.lines ∧ r.2.1.1 < cols ∧ r.2.1.2 < r.2.2 := by
  have hrows := h.rows
  unfold resizeCols
  rw [if_neg hne]
  have hheld : ∀ l ∈ b.lines, Held width l := fun l hl => ⟨(h.lines l hl).sound, (h.lines l hl).len.symm ▸ hpos⟩
  obtain ⟨lines, hreflow, hok, hends, -⟩ := reflow_keeps_written hspace hcols hheld h.ends
  rw [hreflow]
  simp only [Option.bind_eq_bind, Option.bind_some]
  have hfilled := extend_filled hspace b.rows hok hends (b.rows - lines.length) (by omega)
  have hlast : ∀ l, b.rows < (lines ++ List.replicate (b.rows - lines.length) (Line.blank cols .default)).length →
      (lines ++ List.replicate (b.rows - lines.length) (Line.blank cols .default))[b.rows - 1]? = some l → l.wrapped = false := by
    intro l hlong hl
    rw [List.length_append, List.length_replicate] at hlong
    rw [List.getElem?_append_left (by omega)] at hl
    exact hwhole lines l hreflow (by omega) hl
  refine (absorb_gives
    (b := { b with lines := lines ++ List.replicate (b.rows - lines.length) (Line.blank cols .default) })
    (by omega) hrows hfilled
    logical hlast).bind fun b' ⟨hfilled', _⟩ => ?_
  have hroom := hfilled'.room
  refine (relativePosition_gives (by omega) hrows hroom hfilled'.ends logical).bind fun r ⟨hcol, hrow, hview⟩ => gives_pure ?_
  exact ⟨⟨by show b.rows + (-r.2).toNat ≤ b'.lines.length; omega, hfilled'.all, hfilled'.ends⟩, hcol,
    by show r.2.toNat < b.rows + (-r.2).toNat; omega⟩

/-- Another size keeps a buffer as it should be, and the cursor in its view. -/
theorem resize_ok (h : Ok width b.cols b) (hpos : 0 < b.cols) (hrows : 0 < rows) {cursor : Nat × Nat}
    (hcols : cols ≠ b.cols → 2 ≤ cols ∧ b.Whole cols)
    (hcursor : cursor.2 < b.rows ∨ cursor.2 < rows) : Gives (b.resize cols rows cursor)
      fun r => Ok width cols r.1 ∧ r.1.rows = rows ∧ r.2.2 < rows ∧ (r.2.1 = cursor.1 ∧ cols = b.cols ∨ r.2.1 < cols) := by
  have hroom := h.room
  unfold resize
  refine (logicalPosition_gives hroom cursor b.cols).bind fun logical _ => ?_
  have hwidth : Gives (b.resizeCols cols logical cursor) fun r => Filled width cols r.2.2 r.1.lines ∧
    (r.2.1.2 < r.2.2 ∨ r.2.1.2 < rows) ∧
      (r.2.1.1 = cursor.1 ∧ cols = b.cols ∨ r.2.1.1 < cols) := by
    by_cases hsame : cols = b.cols
    · unfold resizeCols
      rw [if_pos hsame, gives_some]
      exact ⟨⟨hroom, hsame ▸ h.lines, h.ends⟩, hcursor, .inl ⟨rfl, hsame⟩⟩
    · obtain ⟨htwo, hwhole⟩ := hcols hsame
      exact (resizeCols_gives hspace htwo hsame hpos h hwhole logical cursor).mono fun r ⟨hf, hcol, hrow⟩ =>
        ⟨hf, .inl hrow, .inr hcol⟩
  refine hwidth.bind fun r ⟨hfilled, hrow, hcol⟩ => ?_
  refine (resizeRows_gives hspace hrows hfilled hrow).bind fun r' ⟨hfilled', hcol', hrow'⟩ => gives_pure ?_
  exact ⟨⟨⟨rfl, hrows, hfilled'.room, hfilled'.all⟩, hfilled'.ends⟩, rfl, hrow',
    by show _ ∨ r'.2.1 < cols; rw [hcol']; exact hcol⟩

/-! ### What it holds -/

/-- Without the ends of lines behind which nothing is written. -/
def held (items : List (Option Cell)) : List (Option Cell) := items.rdropWhile Option.isNone

omit hspace in
/-- A line of four columns. -/
def abc : Buffer := ⟨[⟨['a', 'b', 'c', ' '].map fun ch => .new ch .single .default, false⟩], 4, 1, none, false⟩

end Buffer

end

end Holdfast.Vendor

/-
  Holdfast.Terminal.Grid — the cells and the lines of the vendored emulator
  (`vendor/avt/src/cell.rs` and `line.rs`).

  `none` is a panic: an index or a range out of bounds, a subtraction below zero. The marks
  of a cell are a list of at most `maxZeroWidth`, and a line is the list of its cells.

  A wide character has two cells, its head and its tail. Cells are `Paired` if every head has
  its tail, with its pen, and a tail follows nothing else, and `Sound` if besides each shows
  what takes the columns it has.

  Proved: from a sound line each operation gives a sound line of the same length, and goes
  through (`clear_sound`, `print_sound`, `appendZeroWidth_sound`, `shiftRight_sound`,
  `delete_sound`), whatever halves of wide characters it cuts off. Where it cuts is said once,
  for all of them (`Paired.split`).
-/

import Holdfast.Base.Total
import Holdfast.Terminal.Widths
import Holdfast.Terminal.HyperlinkDump
import Holdfast.Terminal.StyleDump

namespace Holdfast.Vendor

open Holdfast.Terminal
open Holdfast.Base.Total
open Avt (Pen Occupancy Painted)

def maxZeroWidth : Nat := 8

structure Cell where
  ch : Char
  occupancy : Occupancy
  pen : Pen
  zeroWidth : List Char
  /-- Printed, and no blank of the grid. -/
  explicitBase : Bool
  deriving DecidableEq

namespace Cell

/-- Also what `set` makes of a cell. -/
def new (ch : Char) (occupancy : Occupancy) (pen : Pen) : Cell := ⟨ch, occupancy, pen, [], true⟩

def blank (pen : Pen) : Cell := ⟨' ', .single, pen, [], false⟩

def isDefault (c : Cell) : Bool := c.ch == ' ' && c.occupancy == .single && c.pen.isDefault && c.zeroWidth.isEmpty

def pushZeroWidth (c : Cell) (ch : Char) : Cell :=
  if c.zeroWidth.length < maxZeroWidth then { c with zeroWidth := c.zeroWidth ++ [ch] } else c

end Cell

/-! ## Slices -/

/-- `cells[i] = c`. -/
def put (cells : List Cell) (i : Nat) (c : Cell) : Option (List Cell) := if i < cells.length then some (cells.set i c) else none

/-- `cells[i - 1] = c`. -/
def putBefore (cells : List Cell) (i : Nat) (c : Cell) : Option (List Cell) := if i = 0 then none else put cells (i - 1) c

/-- `cells[start..stop].fill(c)`. -/
def fill (cells : List Cell) (start stop : Nat) (c : Cell) : Option (List Cell) :=
  if start ≤ stop ∧ stop ≤ cells.length then
    some (cells.take start ++ List.replicate (stop - start) c ++ cells.drop stop)
  else none

/-- `items[start..stop].rotate_right(n)`. -/
def rotateRight {α : Type} (items : List α) (start stop n : Nat) : Option (List α) :=
  if start ≤ stop ∧ stop ≤ items.length ∧ n ≤ stop - start then
    some (items.take start ++ ((items.take stop).drop (stop - n) ++ (items.take (stop - n)).drop start) ++ items.drop stop)
  else none

/-- `items[start..stop].rotate_left(n)`. -/
def rotateLeft {α : Type} (items : List α) (start stop n : Nat) : Option (List α) :=
  if start ≤ stop ∧ stop ≤ items.length ∧ n ≤ stop - start then
    some (items.take start ++ ((items.take stop).drop (start + n) ++ (items.take (start + n)).drop start) ++ items.drop stop)
  else none

/-! ## Lines -/

structure Line where
  cells : List Cell
  wrapped : Bool
  deriving DecidableEq

namespace Line

variable (width : Char → Nat)

def len (l : Line) : Nat := l.cells.length

def blank (cols : Nat) (pen : Pen) : Line := ⟨List.replicate cols (.blank pen.erased), false⟩

/-- `reset`. -/
def reset (_ : Line) (cols : Nat) (pen : Pen) : Line := ⟨List.replicate cols (.blank pen.erased), false⟩

def clear (l : Line) (start stop : Nat) (pen : Pen) : Option Line :=
  if start = l.len then some l
  else do
    let cur ← l.cells[start]?
    let cells ← (if cur.occupancy = .wideTail then putBefore l.cells start (.new ' ' .single pen.erased) else some l.cells)
    let cells ← fill cells start stop (.blank pen.erased)
    match cells[stop]? with
    | none => return { l with cells := cells }
    | some next =>
      if next.occupancy = .wideTail then return { l with cells := cells.set stop (.new ' ' .single pen.erased) }
      else return { l with cells := cells }

/-- The head and the tail of a wide character with at least one column to the right. -/
def putDouble (cells : List Cell) (col : Nat) (ch : Char) (pen : Pen) (right : Nat) : Option (List Cell) := do
  let cells ← put cells col (.new ch .wideHead pen)
  if right = 1 then put cells (col + 1) (.new ' ' .wideTail pen)
  else
    let next ← cells[col + 1]?
    let cells ← (if next.occupancy = .wideHead then put cells (col + 2) (.new ' ' .single pen) else some cells)
    put cells (col + 1) (.new ' ' .wideTail pen)

/-- How far the cursor moves, or nothing if the character does not fit. -/
def print (l : Line) (col : Nat) (ch : Char) (pen : Pen) : Option (Line × Option Nat) := do
  let cur ← l.cells[col]?
  let right := l.len - 1 - col
  if width ch = 2 then
    match cur.occupancy with
    | .single =>
      if right = 0 then return (l, none)
      let cells ← putDouble l.cells col ch pen right
      return ({ l with cells := cells }, some 2)
    | .wideHead =>
      let cells ← put l.cells col (.new ch .wideHead pen)
      let cells ← put cells (col + 1) (.new ' ' .wideTail pen)
      return ({ l with cells := cells }, some 2)
    | .wideTail =>
      if right = 0 then return (l, none)
      let cells ← putBefore l.cells col (.new ' ' .single pen)
      let cells ← putDouble cells col ch pen right
      return ({ l with cells := cells }, some 2)
  else
    match cur.occupancy with
    | .single =>
      let cells ← put l.cells col (.new ch .single pen)
      return ({ l with cells := cells }, some 1)
    | .wideHead =>
      let cells ← put l.cells col (.new ch .single pen)
      let cells ← put cells (col + 1) (.new ' ' .single pen)
      return ({ l with cells := cells }, some 1)
    | .wideTail =>
      let cells ← putBefore l.cells col (.new ' ' .single pen)
      let cells ← put cells col (.new ch .single pen)
      return ({ l with cells := cells }, some 1)

/-- A mark goes to the head of a wide character. -/
def appendZeroWidth (l : Line) (col : Nat) (ch : Char) : Option Line := do
  let cur ← l.cells[col]?
  if cur.occupancy = .wideTail then
    if col = 0 then return l
    let head ← l.cells[col - 1]?
    return { l with cells := l.cells.set (col - 1) (head.pushZeroWidth ch) }
  else return { l with cells := l.cells.set col (cur.pushZeroWidth ch) }

def shiftRight (l : Line) (col n : Nat) (pen : Pen) : Option Line := do
  if l.len = 0 then none
  else
    let col := min col (l.len - 1)
    let cur ← l.cells[col]?
    let cells ← (if cur.occupancy = .wideTail then
        putBefore (l.cells.set col (.new ' ' .single pen)) col (.new ' ' .single pen)
      else some l.cells)
    let cells ← rotateRight cells col l.len n
    let cur ← cells[col]?
    if cur.occupancy = .wideTail then
      return { l with cells := (cells.set col (.new ' ' .single pen)).set (l.len - 1) (.new ' ' .single pen) }
    else return { l with cells := cells }

def delete (l : Line) (col n : Nat) (pen : Pen) : Option Line := do
  let cur ← l.cells[col]?
  let cells ← (if cur.occupancy = .wideTail then putBefore l.cells col (.new ' ' .single pen) else some l.cells)
  let cells ← rotateLeft cells col l.len n
  let cur ← cells[col]?
  let cells := if cur.occupancy = .wideTail then cells.set col (.new ' ' .single pen.erased) else cells
  if l.len < n then none
  else
    let cells ← fill cells (l.len - n) l.len (.blank pen.erased)
    return { l with cells := cells }

def isBlank (l : Line) : Bool := l.cells.all Cell.isDefault

end Line

/-! ## Sound cells -/

/-- Every wide character has its tail, and a tail follows nothing else. -/
inductive Paired : List Cell → Prop
  | nil : Paired []
  | single {c : Cell} {rest : List Cell} : c.occupancy = .single → Paired rest → Paired (c :: rest)
  | wide {head tail : Cell} {rest : List Cell} : head.occupancy = .wideHead → tail.occupancy = .wideTail →
      tail.pen = head.pen → Paired rest → Paired (head :: tail :: rest)

variable (width : Char → Nat)

structure CellOk (c : Cell) : Prop where
  fits : c.occupancy ≠ .wideTail → width c.ch = c.occupancy.width
  marks : ∀ z ∈ c.zeroWidth, width z = 0
  room : c.zeroWidth.length ≤ maxZeroWidth
  pen : Painted c.pen

structure Sound (cells : List Cell) : Prop where
  paired : Paired cells
  ok : ∀ c ∈ cells, CellOk width c

variable {width}

theorem Paired.append {a b : List Cell} (ha : Paired a) (hb : Paired b) : Paired (a ++ b) := by
  induction ha with
  | nil => exact hb
  | single hc _ ih => exact .single hc ih
  | wide hh ht hp _ ih => exact .wide hh ht hp ih

theorem Paired.ne_tail {c : Cell} {b : List Cell} (h : Paired (c :: b)) : c.occupancy ≠ .wideTail := by
  cases h with
  | single hc _ => rw [hc]; decide
  | wide hh _ _ _ => rw [hh]; decide

/-- A cut leaves both sides paired, or goes through a wide character. -/
theorem Paired.split : ∀ {a b : List Cell}, Paired (a ++ b) → (Paired a ∧ Paired b) ∨
    ∃ a' head tail b', a = a' ++ [head] ∧ b = tail :: b' ∧ Paired a' ∧ Paired b' ∧ head.occupancy = .wideHead ∧
    tail.occupancy = .wideTail ∧
      tail.pen = head.pen
  | [], _, h => .inl ⟨.nil, h⟩
  | [c], _, h => by
    cases h with
    | single hc h => exact .inl ⟨.single hc .nil, h⟩
    | wide hh ht hp h => exact .inr ⟨[], c, _, _, rfl, rfl, .nil, h, hh, ht, hp⟩
  | c :: d :: a, b, h => by
    cases h with
    | single hc h =>
      obtain ⟨ha, hb⟩ | ⟨a', head, tail, b', ha, hb, hrest⟩ := Paired.split (a := d :: a) h
      · exact .inl ⟨.single hc ha, hb⟩
      · exact .inr ⟨c :: a', head, tail, b', by rw [ha]; rfl, hb, .single hc hrest.1, hrest.2⟩
    | wide hh ht hp h =>
      obtain ⟨ha, hb⟩ | ⟨a', head, tail, b', ha, hb, hrest⟩ := Paired.split (a := a) h
      · exact .inl ⟨.wide hh ht hp ha, hb⟩
      · exact .inr ⟨c :: d :: a', head, tail, b', by rw [ha]; rfl, hb, .wide hh ht hp hrest.1, hrest.2⟩

theorem sound_nil : Sound width [] := ⟨.nil, fun _ h => absurd h List.not_mem_nil⟩

theorem Sound.append {a b : List Cell} (ha : Sound width a) (hb : Sound width b) : Sound width (a ++ b) :=
  ⟨ha.paired.append hb.paired, fun c hc => (List.mem_append.mp hc).elim (ha.ok c) (hb.ok c)⟩

theorem sound_single {c : Cell} (hocc : c.occupancy = .single) (hc : CellOk width c) : Sound width [c] :=
  ⟨.single hocc .nil, fun _ hd => List.mem_singleton.mp hd ▸ hc⟩

theorem sound_pair {head tail : Cell} (hh : head.occupancy = .wideHead) (ht : tail.occupancy = .wideTail)
    (hp : tail.pen = head.pen)
    (hhead : CellOk width head) (htail : CellOk width tail) : Sound width [head, tail] := by
  refine ⟨.wide hh ht hp .nil, fun d hd => ?_⟩
  rcases List.mem_cons.mp hd with rfl | hd
  · exact hhead
  · exact List.mem_singleton.mp hd ▸ htail

/-- What a cut in front of `c` leaves, where `c` is no tail. -/
theorem Sound.cut_clean {a b : List Cell} {c : Cell} (h : Sound width (a ++ c :: b)) (hc : c.occupancy ≠ .wideTail) :
    Sound width a ∧ Sound width (c :: b) := by
  have hok := h.ok
  obtain ⟨ha, hb⟩ | ⟨a', head, tail, b', -, hb, -, -, -, ht, -⟩ := h.paired.split
  · exact ⟨⟨ha, fun d hd => hok d (List.mem_append_left _ hd)⟩, ⟨hb, fun d hd => hok d (List.mem_append_right _ hd)⟩⟩
  · obtain ⟨rfl, -⟩ := List.cons.inj hb
    exact absurd ht hc

/-- And where it is one: the head is the last cell in front of it. -/
theorem Sound.cut_wide {a b : List Cell} {c : Cell} (h : Sound width (a ++ c :: b)) (hc : c.occupancy = .wideTail) :
    ∃ a' head, a = a' ++ [head] ∧ head.occupancy = .wideHead ∧ c.pen = head.pen ∧ Sound width a' ∧ Sound width b := by
  have hok := h.ok
  obtain ⟨-, hb⟩ | ⟨a', head, tail, b', rfl, hb, ha', hb', hh, -, hp⟩ := h.paired.split
  · exact absurd hc hb.ne_tail
  · obtain ⟨rfl, rfl⟩ := List.cons.inj hb
    refine ⟨a', head, rfl, hh, hp, ⟨ha', fun d hd => hok d ?_⟩, ⟨hb', fun d hd => hok d ?_⟩⟩
    · exact List.mem_append_left _ (List.mem_append_left _ hd)
    · exact List.mem_append_right _ (List.mem_cons_of_mem _ hd)

theorem Sound.rest {c : Cell} {b : List Cell} (h : Sound width (c :: b)) (hc : c.occupancy = .single) : Sound width b := by
  obtain ⟨hpaired, hok⟩ := h
  refine ⟨?_, fun d hd => hok d (List.mem_cons_of_mem _ hd)⟩
  cases hpaired with
  | single _ h => exact h
  | wide hh _ _ _ => rw [hc] at hh; cases hh

theorem Sound.rest_wide {c : Cell} {b : List Cell} (h : Sound width (c :: b)) (hc : c.occupancy = .wideHead) :
    ∃ tail b', b = tail :: b' ∧ tail.occupancy = .wideTail ∧ Sound width b' := by
  obtain ⟨hpaired, hok⟩ := h
  cases hpaired with
  | single hs _ => rw [hc] at hs; cases hs
  | wide _ ht _ h => exact ⟨_, _, rfl, ht, h, fun d hd => hok d (List.mem_cons_of_mem _ (List.mem_cons_of_mem _ hd))⟩

/-- Sound, but perhaps for a tail in front whose head was cut off. -/
def Ragged (width : Char → Nat) (cells : List Cell) : Prop :=
  Sound width cells ∨ ∃ tail b, cells = tail :: b ∧ tail.occupancy = .wideTail ∧ Sound width b

theorem Sound.ragged {a b : List Cell} (h : Sound width (a ++ b)) : Ragged width b := by
  cases b with
  | nil => exact .inl sound_nil
  | cons c b =>
    by_cases hc : c.occupancy = .wideTail
    · obtain ⟨_, _, _, _, _, _, hb⟩ := h.cut_wide hc
      exact .inr ⟨c, b, rfl, hc, hb⟩
    · exact .inl (h.cut_clean hc).2

theorem Ragged.mend {c sp : Cell} {b : List Cell} (h : Ragged width (c :: b)) (hsp : Sound width [sp]) :
    Sound width ((if c.occupancy = .wideTail then sp else c) :: b) := by
  obtain h | ⟨tail, b', hb, ht, hb'⟩ := h
  · rw [if_neg h.paired.ne_tail]
    exact h
  · obtain ⟨rfl, rfl⟩ := List.cons.inj hb
    rw [if_pos ht]
    exact hsp.append hb'

/-! ## Cells that are put there -/

section

variable {pen : Pen}

theorem cellOk_new {ch : Char} {occupancy : Occupancy} (hfits : occupancy ≠ .wideTail → width ch = occupancy.width)
    (hp : Painted pen) :
    CellOk width (.new ch occupancy pen) :=
  ⟨hfits, fun _ h => absurd h List.not_mem_nil, Nat.zero_le _, hp⟩

theorem painted_erased (hp : Painted pen) : Painted pen.erased := ⟨hp.attrs, hp.foreground, hp.background⟩

variable (hspace : width ' ' = 1)

include hspace

theorem sound_space (hp : Painted pen) : Sound width [.new ' ' .single pen] := sound_single rfl (cellOk_new (fun _ => hspace) hp)

theorem sound_blanks (hp : Painted pen) (n : Nat) : Sound width (List.replicate n (.blank pen.erased)) := by
  have hblank : CellOk width (.blank pen.erased) :=
    ⟨fun _ => hspace, fun _ h => absurd h List.not_mem_nil, Nat.zero_le _, painted_erased hp⟩
  induction n with
  | zero => exact sound_nil
  | succ n ih => exact (sound_single rfl hblank).append ih

end

/-! ## Slices of sound cells -/

theorem split_at {i : Nat} {cells : List Cell} (h : i < cells.length) : ∃ a c b, cells = a ++ c :: b ∧ a.length = i := by
  refine ⟨cells.take i, cells.get ⟨i, h⟩, cells.drop (i + 1), ?_, ?_⟩
  · rw [List.get_eq_getElem, ← List.drop_eq_getElem_cons h, List.take_append_drop]
  · rw [List.length_take]
    omega

theorem getElem_split (a b : List Cell) (c : Cell) : (a ++ c :: b)[a.length]? = some c := by simp

theorem set_split (a b : List Cell) (c d : Cell) : (a ++ c :: b).set a.length d = a ++ d :: b := by
  rw [List.set_append_right _ _ (Nat.le_refl _), Nat.sub_self]
  rfl

theorem put_split (a b : List Cell) (c d : Cell) : put (a ++ c :: b) a.length d = some (a ++ d :: b) := by
  rw [put, if_pos (by simp), set_split]

theorem put_split_succ (a b : List Cell) (c d e : Cell) : put (a ++ c :: d :: b) (a.length + 1) e = some (a ++ c :: e :: b) := by
  have h := put_split (a ++ [c]) b d e
  rw [List.length_append, List.append_assoc, List.append_assoc] at h
  exact h

theorem put_split_two (a b : List Cell) (c d e f : Cell) :
    put (a ++ c :: d :: e :: b) (a.length + 2) f = some (a ++ c :: d :: f :: b) := by
  have h := put_split_succ (a ++ [c]) b d e f
  rw [List.length_append, List.append_assoc, List.append_assoc] at h
  exact h

theorem getElem_split_succ (a b : List Cell) (c d : Cell) : (a ++ c :: d :: b)[a.length + 1]? = some d := by
  have h := getElem_split (a ++ [c]) b d
  rw [List.length_append, List.append_assoc] at h
  exact h

theorem putBefore_split (a b : List Cell) (c d : Cell) :
    putBefore (a ++ [c] ++ b) (a ++ [c]).length d = some (a ++ [d] ++ b) := by
  rw [putBefore, if_neg (by simp), List.length_append, List.length_singleton, Nat.add_sub_cancel,
    List.append_assoc, List.append_assoc]
  exact put_split a b c d

theorem fill_split (a m b : List Cell) (d : Cell) :
    fill (a ++ m ++ b) a.length (a ++ m).length d = some (a ++ List.replicate m.length d ++ b) := by
  have htake : (a ++ m ++ b).take a.length = a := by rw [List.append_assoc, List.take_left]
  rw [fill, if_pos (by simp), List.drop_left, htake, List.length_append, Nat.add_sub_cancel_left]

theorem rotateRight_split {α : Type} (p a b q : List α) :
    rotateRight (p ++ (a ++ b) ++ q) p.length (p ++ (a ++ b)).length b.length = some (p ++ (b ++ a) ++ q) := by
  have hlen : (p ++ (a ++ b)).length - b.length = (p ++ a).length := by
    simp only [List.length_append]
    omega
  rw [rotateRight, if_pos (by simp), List.drop_left, List.take_left, hlen]
  rw [← List.append_assoc p a b, List.drop_left, List.append_assoc (p ++ a) b q, List.take_left,
    List.drop_left, List.append_assoc p a,
    List.take_left]

theorem rotateLeft_split {α : Type} (p a b q : List α) :
    rotateLeft (p ++ (a ++ b) ++ q) p.length (p ++ (a ++ b)).length a.length = some (p ++ (b ++ a) ++ q) := by
  have hlen : p.length + a.length = (p ++ a).length := (List.length_append).symm
  rw [rotateLeft, if_pos (by simp), List.drop_left, List.take_left, hlen]
  rw [← List.append_assoc p a b, List.drop_left, List.append_assoc (p ++ a) b q, List.take_left,
    List.drop_left, List.append_assoc p a,
    List.take_left]

/-! ## Operations on sound lines -/

namespace Line

/-- A sound line as long and as wrapped as another. -/
structure Like (width : Char → Nat) (l l' : Line) : Prop where
  len : l'.len = l.len
  wrapped : l'.wrapped = l.wrapped
  sound : Sound width l'.cells

/-- Where a head is cut off, a space takes its place. -/
theorem mend_before {a b : List Cell} {c sp : Cell} (h : Sound width (a ++ c :: b)) (hsp : Sound width [sp]) :
    Gives (if c.occupancy = .wideTail then putBefore (a ++ c :: b) a.length sp else some (a ++ c :: b))
      fun cells => ∃ a', cells = a' ++ c :: b ∧ a'.length = a.length ∧ Sound width a' := by
  by_cases hc : c.occupancy = .wideTail
  · obtain ⟨a', head, rfl, -, -, ha', -⟩ := h.cut_wide hc
    rw [if_pos hc, putBefore_split, gives_some]
    exact ⟨a' ++ [sp], rfl, by simp, ha'.append hsp⟩
  · rw [if_neg hc, gives_some]
    exact ⟨a, rfl, rfl, (h.cut_clean hc).1⟩

variable {l : Line} {pen : Pen} (hspace : width ' ' = 1)

include hspace

theorem clear_sound (h : Sound width l.cells) (hp : Painted pen) {start stop : Nat} (hstart : start ≤ stop)
    (hstop : stop ≤ l.len) :
    Gives (l.clear start stop pen) (Like width l) := by
  by_cases hend : start = l.len
  · rw [clear, if_pos hend, gives_some]
    exact ⟨rfl, rfl, h⟩
  obtain ⟨cells, wrapped⟩ := l
  have hlt : start < cells.length := Nat.lt_of_le_of_ne (hstart.trans hstop) hend
  obtain ⟨a, c, r, rfl, rfl⟩ := split_at hlt
  -- what is cleared, and what stands behind it
  obtain ⟨m, b, hm, hlen⟩ : ∃ m b, c :: r = m ++ b ∧ (a ++ m).length = stop := by
    refine ⟨(c :: r).take (stop - a.length), (c :: r).drop (stop - a.length), (List.take_append_drop _ _).symm, ?_⟩
    have hstop : stop ≤ (a ++ c :: r).length := hstop
    rw [List.length_append] at hstop ⊢
    rw [List.length_take]
    omega
  have hsp := sound_space hspace (painted_erased hp)
  rw [clear, if_neg hend]
  show Gives ((a ++ c :: r)[a.length]? >>= _) _
  rw [getElem_split]
  refine (mend_before h hsp).bind fun cells' hcells' => ?_
  obtain ⟨a', rfl, hlen', ha'⟩ := hcells'
  have hragged : Ragged width b := by
    rw [hm, ← List.append_assoc] at h
    exact h.ragged
  have hfill : fill (a' ++ c :: r) a.length stop (.blank pen.erased) =
      some (a' ++ List.replicate m.length (.blank pen.erased) ++ b) := by
    rw [hm, ← List.append_assoc, ← hlen', ← hlen, List.length_append, ← hlen', ← List.length_append]
    exact fill_split a' m b _
  show Gives (fill (a' ++ c :: r) a.length stop (.blank pen.erased) >>= _) _
  have hblanks := ha'.append (sound_blanks hspace hp m.length)
  have htotal : (a ++ c :: r).length = (a' ++ List.replicate m.length (Cell.blank pen.erased) ++ b).length := by
    rw [hm]
    simp only [List.length_append, List.length_replicate]
    omega
  have hstop : stop = (a' ++ List.replicate m.length (Cell.blank pen.erased)).length := by
    rw [List.length_append, List.length_replicate, hlen', ← hlen, List.length_append]
  rw [hfill, hstop]
  generalize a' ++ List.replicate m.length (Cell.blank pen.erased) = q at *
  cases b with
  | nil =>
    rw [List.append_nil] at htotal ⊢
    show Gives (match q[q.length]? with | none => _ | some next => _) _
    rw [List.getElem?_eq_none (Nat.le_refl _)]
    exact gives_pure ⟨htotal.symm, rfl, hblanks⟩
  | cons d b =>
    show Gives (match (q ++ d :: b)[q.length]? with | none => _ | some next => _) _
    rw [getElem_split]
    have hmend := hragged.mend hsp
    by_cases hd : d.occupancy = .wideTail
    · simp only [if_pos hd, set_split] at hmend ⊢
      refine gives_pure ⟨?_, rfl, hblanks.append hmend⟩
      show (q ++ _ :: b).length = (a ++ c :: r).length
      rw [htotal, List.length_append, List.length_append]
      rfl
    · simp only [if_neg hd] at hmend ⊢
      exact gives_pure ⟨htotal.symm, rfl, hblanks.append hmend⟩

omit hspace in
theorem sound_double (hp : Painted pen) {ch : Char} (hch : width ch = 2) :
    Sound width [.new ch .wideHead pen, .new ' ' .wideTail pen] :=
  sound_pair rfl rfl rfl (cellOk_new (fun _ => hch) hp) (cellOk_new (fun h => absurd rfl h) hp)

theorem putDouble_sound {a b : List Cell} {c d : Cell} (ha : Sound width a) (hb : Sound width (d :: b))
    (hp : Painted pen) {ch : Char}
    (hch : width ch = 2) : Gives (putDouble (a ++ c :: d :: b) a.length ch pen (d :: b).length)
      fun cells => cells.length = (a ++ c :: d :: b).length ∧ Sound width cells := by
  have hdouble := sound_double hp hch
  have hsp := sound_space hspace hp
  unfold putDouble
  show Gives (put (a ++ c :: d :: b) a.length _ >>= _) _
  rw [put_split]
  cases b with
  | nil =>
    show Gives (put (a ++ _ :: [d]) (a.length + 1) _) _
    rw [put_split_succ, gives_some]
    exact ⟨by simp, ha.append hdouble⟩
  | cons e b =>
    have hright : ¬(d :: e :: b).length = 1 := by simp
    simp only [Option.bind_eq_bind, Option.bind_some, if_neg hright, getElem_split_succ]
    by_cases hd : d.occupancy = .wideHead
    · obtain ⟨tail, b', hb', -, hrest⟩ := hb.rest_wide hd
      obtain ⟨rfl, rfl⟩ := List.cons.inj hb'
      simp only [if_pos hd, put_split_two, Option.bind_some, put_split_succ, gives_some]
      exact ⟨by simp, ha.append (hdouble.append (hsp.append hrest))⟩
    · have hsingle : d.occupancy = .single := by
        have hne := hb.paired.ne_tail
        cases ho : d.occupancy with
        | single => rfl
        | wideHead => exact absurd ho hd
        | wideTail => exact absurd ho hne
      simp only [if_neg hd, Option.bind_some, put_split_succ, gives_some]
      exact ⟨by simp, ha.append (hdouble.append (hb.rest hsingle))⟩

/-- Where a character is printed: it fits, or there is no room and nothing happens. -/
theorem print_sound (h : Sound width l.cells) (hp : Painted pen) {ch : Char} (hch : width ch = 1 ∨ width ch = 2) {col : Nat}
    (hcol : col < l.len) : Gives (l.print width col ch pen)
      fun r => Like width l r.1 ∧ ∀ w, r.2 = some w → w = width ch ∧ col + w ≤ l.len := by
  obtain ⟨cells, wrapped⟩ := l
  obtain ⟨a, c, b, rfl, rfl⟩ := split_at hcol
  have hlen : (a ++ c :: b).length = a.length + 1 + b.length := by
    rw [List.length_append, List.length_cons]
    omega
  have hright : (a ++ c :: b).length - 1 - a.length = b.length := by omega
  have hsp := sound_space hspace hp
  unfold print
  simp only [len, getElem_split, Option.bind_eq_bind, Option.bind_some, hright]
  by_cases hw : width ch = 2
  · have hdouble := sound_double hp hw
    simp only [if_pos hw]
    rcases ho : c.occupancy with _ | _ | _ <;> simp only
    · -- a single cell, and what stands behind it
      have hb := (h.cut_clean (by rw [ho]; decide)).2.rest ho
      have ha := (h.cut_clean (by rw [ho]; decide)).1
      cases b with
      | nil => exact gives_some.mpr ⟨⟨rfl, rfl, h⟩, fun w hw => nomatch hw⟩
      | cons d b =>
        rw [if_neg (show ¬(d :: b).length = 0 by simp)]
        refine (putDouble_sound hspace ha hb hp hw).bind fun cells hcells => gives_some.mpr ⟨⟨hcells.1, rfl, hcells.2⟩, ?_⟩
        intro w hw'
        obtain rfl := Option.some.inj hw'
        simp only [List.length_append, List.length_cons]
        omega
    · -- a head: its tail is there
      obtain ⟨ha, hb⟩ := h.cut_clean (by rw [ho]; decide)
      obtain ⟨tail, b', rfl, -, hrest⟩ := hb.rest_wide ho
      rw [put_split]
      simp only [Option.bind_some, put_split_succ]
      refine gives_some.mpr ⟨⟨by simp [len], rfl, ha.append (hdouble.append hrest)⟩, fun w hw' => ?_⟩
      obtain rfl := Option.some.inj hw'
      simp only [List.length_append, List.length_cons]
      omega
    · -- a tail: its head is cut off
      obtain ⟨a', head, rfl, -, -, ha, hb⟩ := h.cut_wide ho
      cases b with
      | nil => exact gives_some.mpr ⟨⟨rfl, rfl, h⟩, fun w hw => nomatch hw⟩
      | cons d b =>
        rw [if_neg (show ¬(d :: b).length = 0 by simp), putBefore_split]
        have hlen' : (a' ++ [head]).length = (a' ++ [Cell.new ' ' .single pen]).length := by simp
        simp only [Option.bind_some, hlen']
        refine (putDouble_sound hspace (ha.append hsp) hb hp hw).bind fun cells hcells => gives_some.mpr ⟨⟨?_, rfl, hcells.2⟩, ?_⟩
        · rw [len, hcells.1]
          simp [len]
        · intro w hw'
          obtain rfl := Option.some.inj hw'
          simp only [List.length_append, List.length_cons]
          omega
  · have hone : width ch = 1 := hch.resolve_right hw
    have hnew : Sound width [.new ch .single pen] := sound_single rfl (cellOk_new (fun _ => hone) hp)
    have hfits : ∀ w, some 1 = some w → w = width ch ∧ a.length + w ≤ (a ++ c :: b).length := by
      intro w hw'
      obtain rfl := Option.some.inj hw'
      exact ⟨hone.symm, by omega⟩
    simp only [if_neg hw]
    rcases ho : c.occupancy with _ | _ | _ <;> simp only
    · obtain ⟨ha, hb⟩ := h.cut_clean (by rw [ho]; decide)
      rw [put_split]
      exact gives_some.mpr ⟨⟨by simp [len], rfl, ha.append (hnew.append (hb.rest ho))⟩, hfits⟩
    · obtain ⟨ha, hb⟩ := h.cut_clean (by rw [ho]; decide)
      obtain ⟨tail, b', rfl, -, hrest⟩ := hb.rest_wide ho
      rw [put_split]
      simp only [Option.bind_some, put_split_succ]
      exact gives_some.mpr ⟨⟨by simp [len], rfl, ha.append (hnew.append (hsp.append hrest))⟩, hfits⟩
    · obtain ⟨a', head, rfl, -, -, ha, hb⟩ := h.cut_wide ho
      have hlen' : (a' ++ [head]).length = (a' ++ [Cell.new ' ' .single pen]).length := by simp
      rw [putBefore_split]
      simp only [Option.bind_some]
      rw [hlen', put_split]
      exact gives_some.mpr ⟨⟨by simp [len], rfl, (ha.append hsp).append (hnew.append hb)⟩, by rw [← hlen']; exact hfits⟩

omit hspace in
/-- Where a cell only changes its marks. -/
theorem sound_marked {a b : List Cell} {c d : Cell} (h : Sound width (a ++ c :: b)) (hc : c.occupancy ≠ .wideTail)
    (ho : d.occupancy = c.occupancy) (hpen : d.pen = c.pen) (hd : CellOk width d) : Sound width (a ++ d :: b) := by
  obtain ⟨ha, hb⟩ := h.cut_clean hc
  refine ha.append ?_
  rcases hocc : c.occupancy with _ | _ | _
  · exact (sound_single (ho.trans hocc) hd).append (hb.rest hocc)
  · have hok := hb.ok
    have hpaired := hb.paired
    obtain ⟨tail, b', rfl, ht, hrest⟩ := hb.rest_wide hocc
    refine (sound_pair (ho.trans hocc) ht ?_ hd (hok tail (List.mem_cons_of_mem _ List.mem_cons_self))).append hrest
    cases hpaired with
    | single hs _ => rw [hocc] at hs; cases hs
    | wide _ _ hp _ => exact hp.trans hpen.symm
  · exact absurd hocc hc

omit hspace in
theorem cellOk_push {c : Cell} (h : CellOk width c) {ch : Char} (hch : width ch = 0) : CellOk width (c.pushZeroWidth ch) := by
  unfold Cell.pushZeroWidth
  split
  · refine ⟨h.fits, fun z hz => ?_, ?_, h.pen⟩
    · rcases List.mem_append.mp hz with hz | hz
      · exact h.marks z hz
      · rw [List.mem_singleton.mp hz]
        exact hch
    · rw [List.length_append]
      exact Nat.succ_le_of_lt ‹_›
  · exact h

omit hspace in
theorem push_occupancy (c : Cell) (ch : Char) :
    (c.pushZeroWidth ch).occupancy = c.occupancy ∧ (c.pushZeroWidth ch).pen = c.pen := by
  unfold Cell.pushZeroWidth
  split <;> exact ⟨rfl, rfl⟩

omit hspace in
theorem appendZeroWidth_sound (h : Sound width l.cells) {ch : Char} (hch : width ch = 0) {col : Nat} (hcol : col < l.len) :
    Gives (l.appendZeroWidth col ch) (Like width l) := by
  obtain ⟨cells, wrapped⟩ := l
  obtain ⟨a, c, b, rfl, rfl⟩ := split_at hcol
  unfold appendZeroWidth
  simp only [getElem_split, Option.bind_eq_bind, Option.bind_some]
  by_cases hc : c.occupancy = .wideTail
  · obtain ⟨a', head, rfl, hh, -, -, -⟩ := h.cut_wide hc
    have hhead : (a' ++ [head] ++ c :: b)[(a' ++ [head]).length - 1]? = some head := by
      rw [List.length_append, List.length_singleton, Nat.add_sub_cancel, List.append_assoc]
      exact getElem_split a' (c :: b) head
    have hset : ∀ d, (a' ++ [head] ++ c :: b).set ((a' ++ [head]).length - 1) d = a' ++ d :: c :: b := by
      intro d
      rw [List.length_append, List.length_singleton, Nat.add_sub_cancel, List.append_assoc]
      exact set_split a' (c :: b) head d
    rw [List.append_assoc] at h
    have hok := h.ok head (List.mem_append_right _ List.mem_cons_self)
    obtain ⟨hocc, hpen⟩ := push_occupancy head ch
    rw [if_pos hc, if_neg (show ¬(a' ++ [head]).length = 0 by simp), hhead]
    simp only [Option.bind_some, hset]
    refine gives_pure ⟨by simp [len], rfl, sound_marked h ?_ hocc hpen (cellOk_push hok hch)⟩
    rw [hh]
    decide
  · have hok := h.ok c (List.mem_append_right _ List.mem_cons_self)
    obtain ⟨hocc, hpen⟩ := push_occupancy c ch
    rw [if_neg hc, set_split]
    exact gives_pure ⟨by simp [len], rfl, sound_marked h hc hocc hpen (cellOk_push hok hch)⟩

omit hspace in
theorem set_last (a : List Cell) (c d : Cell) {n : Nat} (hn : n = (a ++ [c]).length) : (a ++ [c]).set (n - 1) d = a ++ [d] := by
  rw [hn, List.length_append, List.length_singleton, Nat.add_sub_cancel]
  exact set_split a [] c d

theorem shiftRight_sound (h : Sound width l.cells) (hp : Painted pen) {col n : Nat} (hlen : 0 < l.len)
    (hn : n ≤ l.len - min col (l.len - 1)) :
    Gives (l.shiftRight col n pen) (Like width l) := by
  have hcol : min col (l.len - 1) < l.len := by omega
  unfold shiftRight
  rw [if_neg (Nat.ne_of_gt hlen)]
  generalize min col (l.len - 1) = col at *
  obtain ⟨cells, wrapped⟩ := l
  obtain ⟨a, c, b, rfl, rfl⟩ := split_at hcol
  have hsp := sound_space hspace hp
  simp only [getElem_split, Option.bind_eq_bind, Option.bind_some, set_split]
  -- a wide character over the cursor becomes two spaces
  have hmend : Gives (if c.occupancy = .wideTail then
        putBefore (a ++ .new ' ' .single pen :: b) a.length (.new ' ' .single pen)
      else some (a ++ c :: b))
      fun cells => ∃ a' t, cells = a' ++ t ∧ a'.length = a.length ∧ t.length = (c :: b).length ∧
        Sound width a' ∧ Sound width t := by
    by_cases hc : c.occupancy = .wideTail
    · obtain ⟨a', head, rfl, -, -, ha, hb⟩ := h.cut_wide hc
      rw [if_pos hc, putBefore_split, gives_some]
      exact ⟨a' ++ [.new ' ' .single pen], .new ' ' .single pen :: b, rfl, by simp, by simp, ha.append hsp, hsp.append hb⟩
    · obtain ⟨ha, hb⟩ := h.cut_clean hc
      rw [if_neg hc, gives_some]
      exact ⟨a, c :: b, rfl, rfl, rfl, ha, hb⟩
  refine hmend.bind fun cells' hcells' => ?_
  obtain ⟨a', t, rfl, ha', ht, hsa, hst⟩ := hcells'
  have htotal : (a' ++ t).length = (a ++ c :: b).length := by simp only [List.length_append, ha', ht]
  have hn : n ≤ t.length := by
    have : (a ++ c :: b).length = a.length + t.length := by rw [ht, List.length_append]
    simp only [len] at hn
    omega
  obtain ⟨x, y, rfl, rfl⟩ : ∃ x y, t = x ++ y ∧ y.length = n :=
    ⟨t.take (t.length - n), t.drop (t.length - n), (List.take_append_drop _ _).symm, by rw [List.length_drop]; omega⟩
  have hrotate := rotateRight_split a' x y []
  rw [List.append_nil, List.append_nil] at hrotate
  simp only [len]
  rw [← ha', ← htotal, hrotate]
  simp only [Option.bind_some]
  cases y with
  | nil =>
    rw [List.append_nil] at hst htotal ⊢
    cases x with
    | nil => cases ht
    | cons d x =>
      rw [List.nil_append, getElem_split]
      simp only [Option.bind_some, if_neg hst.paired.ne_tail]
      exact gives_pure ⟨htotal, rfl, hsa.append hst⟩
  | cons d y =>
    rw [List.cons_append, getElem_split]
    simp only [Option.bind_some]
    by_cases hd : d.occupancy = .wideTail
    · obtain ⟨x', head, rfl, -, -, hx, hy⟩ := hst.cut_wide hd
      have hlast : ((a' ++ d :: (y ++ (x' ++ [head]))).set a'.length (.new ' ' .single pen)).set
          ((a' ++ ((x' ++ [head]) ++ d :: y)).length - 1) (.new ' ' .single pen) =
          a' ++ .new ' ' .single pen :: (y ++ (x' ++ [.new ' ' .single pen])) := by
        rw [set_split]
        have h := set_last (a' ++ .new ' ' .single pen :: (y ++ x')) head (.new ' ' .single pen)
          (show (a' ++ ((x' ++ [head]) ++ d :: y)).length = _ by simp; omega)
        simpa [List.append_assoc] using h
      rw [if_pos hd, hlast]
      refine gives_pure ⟨?_, rfl, hsa.append (hsp.append (hy.append (hx.append hsp)))⟩
      rw [len, len, ← htotal]
      simp
      omega
    · obtain ⟨hx, hy⟩ := hst.cut_clean hd
      rw [if_neg hd]
      refine gives_pure ⟨?_, rfl, hsa.append (hy.append hx)⟩
      rw [len, len, ← htotal]
      simp
      omega

theorem delete_sound (h : Sound width l.cells) (hp : Painted pen) {col n : Nat} (hcol : col < l.len) (hn : n ≤ l.len - col) :
    Gives (l.delete col n pen) (Like width l) := by
  obtain ⟨cells, wrapped⟩ := l
  obtain ⟨a, c, b, rfl, rfl⟩ := split_at hcol
  have hsp := sound_space hspace (painted_erased hp)
  simp only [len, List.length_append] at hn
  unfold delete
  simp only [getElem_split, Option.bind_eq_bind, Option.bind_some]
  refine (mend_before h (sound_space hspace hp)).bind fun cells' hcells' => ?_
  obtain ⟨a', rfl, ha', hsa⟩ := hcells'
  have hn : n ≤ (c :: b).length := by omega
  obtain ⟨x, y, hxy, rfl⟩ : ∃ x y, c :: b = x ++ y ∧ x.length = n :=
    ⟨(c :: b).take n, (c :: b).drop n, (List.take_append_drop _ _).symm, by rw [List.length_take]; omega⟩
  have htotal : (a' ++ (y ++ x)).length = (a ++ c :: b).length := by
    rw [hxy]
    simp only [List.length_append, ha']
    omega
  have hragged : Ragged width y := by
    rw [hxy, ← List.append_assoc] at h
    exact h.ragged
  have hrotate := rotateLeft_split a' x y []
  have hlen : (a' ++ (x ++ y)).length = (a' ++ (y ++ x)).length := by
    simp only [List.length_append]
    omega
  rw [List.append_nil, List.append_nil, hlen, htotal, ← hxy, ha'] at hrotate
  have hroom : ¬(a ++ c :: b).length < x.length := by
    rw [List.length_append]
    omega
  simp only [len, hrotate, Option.bind_some]
  rw [← ha']
  -- what is left of the rest, and blanks for what is deleted
  have hfill : ∀ y' x' : List Cell, y'.length = y.length → x'.length = x.length → Sound width y' →
      Gives (if (a ++ c :: b).length < x.length then none
        else
          (fill (a' ++ (y' ++ x')) ((a ++ c :: b).length - x.length) (a ++ c :: b).length (.blank pen.erased)).bind
            fun cells => pure (⟨cells, wrapped⟩ : Line)) (Like width ⟨a ++ c :: b, wrapped⟩) := by
    intro y' x' hy' hx' hsound
    have hstart : (a ++ c :: b).length - x.length = (a' ++ y').length := by
      rw [← htotal]
      simp only [List.length_append, hy']
      omega
    have hstop : (a ++ c :: b).length = ((a' ++ y') ++ x').length := by
      rw [← htotal]
      simp only [List.length_append, hy', hx']
      omega
    have h := fill_split (a' ++ y') x' [] (.blank pen.erased)
    rw [List.append_nil, List.append_nil] at h
    rw [if_neg hroom, hstart, hstop, ← List.append_assoc, h]
    refine gives_pure ⟨?_, rfl, (hsa.append hsound).append (sound_blanks hspace hp x'.length)⟩
    rw [len, len, hstop]
    simp only [List.length_append, List.length_replicate]
  cases y with
  | nil =>
    cases x with
    | nil => cases hxy
    | cons d x =>
      rw [List.nil_append, getElem_split]
      simp only [Option.bind_some, set_split]
      by_cases hd : d.occupancy = .wideTail
      · simp only [if_pos hd]
        exact hfill [] (.new ' ' .single pen.erased :: x) rfl rfl sound_nil
      · simp only [if_neg hd]
        exact hfill [] (d :: x) rfl rfl sound_nil
  | cons d y =>
    rw [List.cons_append, getElem_split]
    simp only [Option.bind_some, set_split]
    have hmend := hragged.mend hsp
    by_cases hd : d.occupancy = .wideTail
    · simp only [if_pos hd] at hmend ⊢
      exact hfill (.new ' ' .single pen.erased :: y) x rfl rfl hmend
    · simp only [if_neg hd] at hmend ⊢
      exact hfill (d :: y) x rfl rfl hmend

end Line

end Holdfast.Vendor

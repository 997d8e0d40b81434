/-
  Holdfast.Terminal.Pen — the pen of the vendored emulator, its hyperlink and the SGR
  operations (`Pen` of `vendor/avt/src/pen.rs`, `intern_link`, `link_of`, `sgr`,
  `to_sgr_ops` and `to_sgr_diff_ops` of `vendor/avt/src/terminal.rs`).

  A pen has a style and the id of a link, which a terminal looks up in the table of the
  links it was told of. An operation that resets the style takes the link away too.

  - `linkOf_injective`: two ids with one link are one id.
  - `linkOf_intern`: a link that is interned is found under its id, where there is room.
  - `link_sgr`: what operations leave of the link.
-/

import Mathlib.Data.List.Nodup
import Mathlib.Data.List.Perm.Subperm

namespace Holdfast.Terminal.Avt

inductive Color where
  | ansi (n : UInt8)
  | indexed (n : UInt8)
  | rgb (r g b : UInt8)
  deriving DecidableEq, Repr

inductive Intensity where
  | normal
  | bold
  | faint
  deriving DecidableEq, Repr

inductive Attr where
  | italic
  | underline
  | strikethrough
  | blink
  | inverse
  | invisible
  deriving DecidableEq, Repr

def Attr.mask : Attr → UInt8
  | .italic => 1
  | .underline => 2
  | .strikethrough => 4
  | .blink => 8
  | .inverse => 16
  | .invisible => 32

/-- 0 is no link. -/
abbrev LinkId := Nat

structure Pen where
  foreground : Option Color
  background : Option Color
  intensity : Intensity
  attrs : UInt8
  link : LinkId
  deriving DecidableEq, Repr

namespace Pen

def default : Pen := ⟨none, none, .normal, 0, 0⟩

def has (p : Pen) (a : Attr) : Bool := p.attrs &&& a.mask != 0

def set (p : Pen) (a : Attr) : Pen := { p with attrs := p.attrs ||| a.mask }

def unset (p : Pen) (a : Attr) : Pen := { p with attrs := p.attrs &&& ~~~a.mask }

/-- What an erased cell keeps: no link. -/
def erased (p : Pen) : Pen := { p with link := 0 }

def styleIsDefault (p : Pen) : Bool :=
  p.foreground.isNone && p.background.isNone && p.intensity == .normal && !p.has .italic && !p.has .underline &&
    !p.has .strikethrough && !p.has .blink && !p.has .inverse && !p.has .invisible

def isDefault (p : Pen) : Bool := p.styleIsDefault && p.link == 0

def styleEq (p q : Pen) : Bool :=
  p.foreground == q.foreground && p.background == q.background && p.intensity == q.intensity && p.attrs == q.attrs

end Pen

/-! ## SGR -/

/-- `set` and `unset` are `SetItalic`, `ResetItalic` and so on. -/
inductive SgrOp where
  | reset
  | setBoldIntensity
  | setFaintIntensity
  | resetIntensity
  | set (a : Attr)
  | unset (a : Attr)
  | setForegroundColor (color : Color)
  | resetForegroundColor
  | setBackgroundColor (color : Color)
  | resetBackgroundColor
  deriving DecidableEq, Repr

def Pen.sgr (p : Pen) : SgrOp → Pen
  | .reset => .default
  | .setBoldIntensity => { p with intensity := .bold }
  | .setFaintIntensity => { p with intensity := .faint }
  | .resetIntensity => { p with intensity := .normal }
  | .set a => p.set a
  | .unset a => p.unset a
  | .setForegroundColor color => { p with foreground := some color }
  | .resetForegroundColor => { p with foreground := none }
  | .setBackgroundColor color => { p with background := some color }
  | .resetBackgroundColor => { p with background := none }

def toSgrOps (pen : Pen) : List SgrOp :=
  let attr a := if pen.has a then [SgrOp.set a] else []
  [.reset] ++ (pen.foreground.map SgrOp.setForegroundColor).toList ++ (pen.background.map SgrOp.setBackgroundColor).toList ++
    (match pen.intensity with
      | .normal => []
      | .bold => [.setBoldIntensity]
      | .faint => [.setFaintIntensity]) ++
    attr .italic ++ attr .underline ++ attr .blink ++ attr .inverse ++ attr .invisible ++ attr .strikethrough

def pushAttrDiff (a : Attr) (source target : Bool) : List SgrOp :=
  if source = target then [] else if target then [.set a] else [.unset a]

def toSgrDiffOps (source target : Pen) : List SgrOp :=
  let attr a := pushAttrDiff a (source.has a) (target.has a)
  (if source.intensity = target.intensity then []
    else match target.intensity with
      | .normal => [.resetIntensity]
      | .bold => [.setBoldIntensity]
      | .faint => [.setFaintIntensity]) ++
    (if source.foreground = target.foreground then []
      else match target.foreground with
        | some color => [.setForegroundColor color]
        | none => [.resetForegroundColor]) ++
    (if source.background = target.background then []
      else match target.background with
        | some color => [.setBackgroundColor color]
        | none => [.resetBackgroundColor]) ++
    attr .italic ++ attr .underline ++ attr .blink ++ attr .inverse ++ attr .invisible ++ attr .strikethrough

/-- `to_sgr_diff`; nothing to do where the styles are one. -/
def toSgrDiff (source target : Pen) : Option (List SgrOp) :=
  if source.styleEq target then none
  else if (toSgrDiffOps source target).length ≤ (toSgrOps target).length then some (toSgrDiffOps source target)
  else some (toSgrOps target)

/-- Operations that reset the style leave no link. -/
theorem link_sgr (ops : List SgrOp) (p : Pen) : (ops.foldl Pen.sgr p).link = if SgrOp.reset ∈ ops then 0 else p.link := by
  induction ops generalizing p with
  | nil => rfl
  | cons op ops ih =>
    rw [List.foldl_cons, ih]
    by_cases hops : SgrOp.reset ∈ ops
    · rw [if_pos hops, if_pos (List.mem_cons_of_mem _ hops)]
    · rw [if_neg hops]
      cases op with
      | reset => rfl
      | _ =>
        rw [if_neg (by simp [hops])]
        rfl

theorem reset_toSgrOps (p : Pen) : SgrOp.reset ∈ toSgrOps p := by
  simp [toSgrOps]

theorem reset_pushAttrDiff (a : Attr) (source target : Bool) : SgrOp.reset ∉ pushAttrDiff a source target := by
  unfold pushAttrDiff
  cases source <;> cases target <;> simp

theorem reset_toSgrDiffOps (p q : Pen) : SgrOp.reset ∉ toSgrDiffOps p q := by
  have hintensity : ∀ i : Intensity, SgrOp.reset ∉
      (match i with
        | .normal => [SgrOp.resetIntensity]
        | .bold => [.setBoldIntensity]
        | .faint => [.setFaintIntensity]) := by
    intro i
    cases i <;> simp
  have hforeground : ∀ color : Option Color, SgrOp.reset ∉
      (match color with
        | some color => [SgrOp.setForegroundColor color]
        | none => [.resetForegroundColor]) := by
    intro color
    cases color <;> simp
  have hbackground : ∀ color : Option Color, SgrOp.reset ∉
      (match color with
        | some color => [SgrOp.setBackgroundColor color]
        | none => [.resetBackgroundColor]) := by
    intro color
    cases color <;> simp
  have hif : ∀ (b : Prop) [Decidable b] (l : List SgrOp), SgrOp.reset ∉ l → SgrOp.reset ∉ (if b then [] else l) := by
    intro b _ l hl
    split
    · exact List.not_mem_nil
    · exact hl
  unfold toSgrDiffOps
  simp only [List.mem_append, not_or]
  have hattr : ∀ a, SgrOp.reset ∉ pushAttrDiff a (p.has a) (q.has a) := fun a => reset_pushAttrDiff a _ _
  exact ⟨⟨⟨⟨⟨⟨⟨⟨hif _ _ (hintensity _), hif _ _ (hforeground _)⟩, hif _ _ (hbackground _)⟩, hattr _⟩, hattr _⟩,
    hattr _⟩, hattr _⟩,
    hattr _⟩, hattr _⟩

/-! ## Links -/

structure Hyperlink where
  id : String
  uri : String
  deriving DecidableEq, Repr

def maxLinks : Nat := 128

/-- The links of a terminal, by their ids. -/
structure LinkTable where
  links : List Hyperlink
  nodup : links.Nodup
  bounded : links.length ≤ maxLinks

namespace LinkTable

def empty : LinkTable := ⟨[], List.nodup_nil, Nat.zero_le _⟩

/-- `intern_link`; a link that finds no room is none. -/
def intern (t : LinkTable) (link : Hyperlink) : LinkTable × LinkId :=
  if hmem : link ∈ t.links then (t, t.links.idxOf link + 1)
  else if hfull : t.links.length ≥ maxLinks then (t, 0)
  else (⟨t.links ++ [link], List.nodup_append.mpr ⟨t.nodup, List.nodup_singleton _, fun a ha b hb => by
      obtain rfl := List.mem_singleton.mp hb
      rintro rfl
      exact hmem ha⟩, by
      rw [List.length_append, List.length_singleton]
      omega⟩, t.links.length + 1)

def linkOf (t : LinkTable) (id : LinkId) : Option Hyperlink := if id = 0 then none else t.links[id - 1]?

variable {t : LinkTable} {link : Hyperlink} {a b : LinkId}

theorem mem_of_linkOf (h : t.linkOf a = some link) : link ∈ t.links := by
  unfold linkOf at h
  split at h
  · cases h
  · exact List.mem_of_getElem? h

theorem linkOf_injective (ha : t.linkOf a = some link) (hb : t.linkOf b = some link) : a = b := by
  unfold linkOf at ha hb
  split at ha
  · cases ha
  split at hb
  · cases hb
  obtain ⟨hlt, hget⟩ := List.getElem?_eq_some_iff.mp ha
  obtain ⟨hlt', hget'⟩ := List.getElem?_eq_some_iff.mp hb
  have heq : a - 1 = b - 1 := (List.Nodup.getElem_inj_iff t.nodup).mp (hget.trans hget'.symm)
  exact Nat.sub_one_cancel (Nat.pos_of_ne_zero ‹_›) (Nat.pos_of_ne_zero ‹_›) heq

theorem linkOf_intern (h : link ∈ t.links ∨ t.links.length < maxLinks) :
    (t.intern link).1.linkOf (t.intern link).2 = some link := by
  unfold intern
  split
  · rename_i hmem
    show t.linkOf (t.links.idxOf link + 1) = some link
    unfold linkOf
    rw [if_neg (Nat.succ_ne_zero _), Nat.add_sub_cancel, List.getElem?_idxOf hmem]
  · rename_i hmem
    have hlt : t.links.length < maxLinks := h.resolve_left hmem
    rw [dif_neg (by omega)]
    show linkOf ⟨t.links ++ [link], _, _⟩ (t.links.length + 1) = some link
    unfold linkOf
    rw [if_neg (Nat.succ_ne_zero _), Nat.add_sub_cancel, List.getElem?_concat_length]

theorem mem_intern {l : Hyperlink} (h : l ∈ (t.intern link).1.links) : l ∈ t.links ∨ l = link := by
  unfold intern at h
  split at h
  · exact Or.inl h
  split at h
  · exact Or.inl h
  · rcases List.mem_append.mp h with h | h
    · exact Or.inl h
    · exact Or.inr (List.mem_singleton.mp h)

/-- A table whose links are all in another one has room for every link of that one. -/
theorem room {u : LinkTable} (hsub : ∀ l ∈ t.links, l ∈ u.links) (hmem : link ∈ u.links) :
    link ∈ t.links ∨ t.links.length < maxLinks := by
  by_cases hin : link ∈ t.links
  · exact Or.inl hin
  · refine Or.inr ?_
    have hnodup : (link :: t.links).Nodup := List.nodup_cons.mpr ⟨hin, t.nodup⟩
    have hall : (link :: t.links) ⊆ u.links := by
      intro l hl
      rcases List.mem_cons.mp hl with rfl | hl
      · exact hmem
      · exact hsub l hl
    have hle := (List.Nodup.subperm hnodup hall).length_le
    have hbounded := u.bounded
    rw [List.length_cons] at hle
    omega

end LinkTable

end Holdfast.Terminal.Avt

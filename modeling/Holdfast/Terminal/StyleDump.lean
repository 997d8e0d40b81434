/-
  Holdfast.Terminal.StyleDump — one style after another, through text (`to_sgr_ops`,
  `to_sgr_diff_ops` and `to_sgr_diff` of `vendor/avt/src/terminal.rs`).

  Where the pen changes a dump writes the operations that lead from the one style to the
  other: those that differ, or a reset and all of them, whichever are fewer. Like
  `Holdfast.Terminal.FunctionDump` this stands on its own, beside the assumption that a
  dump reproduces the terminal.

  A pen is `Painted` if it has the six attributes and the parser's colours, as every pen has
  that the parser's operations lead to (`Painted.sgr`).

  Proved:
  - `sgr_toSgrOps`, `sgr_toSgrDiffOps`: both lists lead to the style they are for.
  - `style_reads_back`: written as text and read again, the shorter one still does.
-/

import Holdfast.Terminal.FunctionDump

namespace Holdfast.Terminal.Avt

namespace Pen

/-! ## Attributes -/

/-- The attributes of a pen, put together again. -/
def attrsOf (has : Attr → Bool) : UInt8 :=
  (if has .italic then 1 else 0) ||| (if has .underline then 2 else 0) ||| (if has .strikethrough then 4 else 0) |||
    (if has .blink then 8 else 0) ||| (if has .inverse then 16 else 0) ||| (if has .invisible then 32 else 0)

theorem exists_attrs {x : UInt8} (h : x < 64) : ∃ k, k < 64 ∧ UInt8.ofNat k = x := ⟨x.toNat, h, UInt8.ofNat_toNat⟩

theorem or_and (x y z : UInt8) : (x ||| y) &&& z = (x &&& z) ||| (y &&& z) := UInt8.toBitVec_inj.mp BitVec.and_or_distrib_right

theorem has_or (x : UInt8) (a b : Attr) : ((x ||| a.mask) &&& b.mask != 0) = (a == b || x &&& b.mask != 0) := by
  rw [or_and]
  by_cases hab : a = b
  · subst hab
    have hmask : a.mask ≠ 0 := by cases a <;> decide
    have hne : (x &&& a.mask ||| a.mask) ≠ 0 := fun h => hmask (UInt8.or_eq_zero_iff.mp h).2
    simp [hne]
  · have hmask : a.mask &&& b.mask = 0 := by
      cases a <;> cases b <;> first | exact absurd rfl hab | rfl
    simp [hmask, hab]

theorem has_and_not (x : UInt8) (a b : Attr) : ((x &&& ~~~a.mask) &&& b.mask != 0) = (a != b && x &&& b.mask != 0) := by
  rw [UInt8.and_assoc]
  by_cases hab : a = b
  · subst hab
    have hmask : ~~~a.mask &&& a.mask = 0 := by cases a <;> rfl
    simp [hmask]
  · have hmask : ~~~a.mask &&& b.mask = b.mask := by
      cases a <;> cases b <;> first | exact absurd rfl hab | rfl
    simp [hmask, hab]

theorem or_mask_lt {x : UInt8} (a : Attr) (h : x < 64) : x ||| a.mask < 64 := by
  obtain ⟨k, hk, rfl⟩ := exists_attrs h
  clear h
  revert k
  cases a <;> decide +kernel

theorem and_not_lt {x : UInt8} (a : Attr) (h : x < 64) : x &&& ~~~a.mask < 64 := by
  obtain ⟨k, hk, rfl⟩ := exists_attrs h
  clear h
  revert k
  cases a <;> decide +kernel

theorem attrsOf_has {x : UInt8} (h : x < 64) : attrsOf (fun a => x &&& a.mask != 0) = x := by
  obtain ⟨k, hk, rfl⟩ := exists_attrs h
  clear h
  revert k
  decide +kernel

theorem has_set (p : Pen) (a b : Attr) : (p.set a).has b = (a == b || p.has b) := has_or p.attrs a b

theorem has_unset (p : Pen) (a b : Attr) : (p.unset a).has b = (a != b && p.has b) := has_and_not p.attrs a b

/-- Pens with the same of the six attributes. -/
theorem attrs_ext {p q : Pen} (hp : p.attrs < 64) (hq : q.attrs < 64) (h : ∀ a, p.has a = q.has a) : p.attrs = q.attrs := by
  have hsame : (fun a : Attr => p.attrs &&& a.mask != 0) = fun a => q.attrs &&& a.mask != 0 := funext h
  rw [← attrsOf_has hp, ← attrsOf_has hq, hsame]

end Pen

/-! ## Painted pens -/

structure Painted (p : Pen) : Prop where
  attrs : p.attrs < 64
  foreground : ∀ color, p.foreground = some color → Vendor.WritableColor color
  background : ∀ color, p.background = some color → Vendor.WritableColor color

theorem painted_default : Painted .default := by
  refine ⟨by decide, ?_, ?_⟩ <;> exact fun _ h => nomatch h

theorem Painted.sgr {p : Pen} (h : Painted p) {op : SgrOp} (hop : Vendor.WritableOp op) : Painted (p.sgr op) := by
  cases op with
  | reset => exact painted_default
  | set a => exact ⟨Pen.or_mask_lt a h.attrs, h.foreground, h.background⟩
  | unset a => exact ⟨Pen.and_not_lt a h.attrs, h.foreground, h.background⟩
  | setForegroundColor color => exact ⟨h.attrs, fun c hc => Option.some.inj hc ▸ hop, h.background⟩
  | setBackgroundColor color => exact ⟨h.attrs, h.foreground, fun c hc => Option.some.inj hc ▸ hop⟩
  | resetForegroundColor => exact ⟨h.attrs, fun _ hc => (nomatch hc), h.background⟩
  | resetBackgroundColor => exact ⟨h.attrs, h.foreground, fun _ hc => (nomatch hc)⟩
  | _ => exact ⟨h.attrs, h.foreground, h.background⟩

theorem Painted.foldl {ops : List SgrOp} (hops : ∀ op ∈ ops, Vendor.WritableOp op) {p : Pen} (h : Painted p) :
    Painted (ops.foldl Pen.sgr p) := by
  induction ops generalizing p with
  | nil => exact h
  | cons op ops ih => exact ih (fun o ho => hops o (List.mem_cons_of_mem _ ho)) (h.sgr (hops op List.mem_cons_self))

/-! ## From one style to another -/

/-- The attributes, in the order in which they are written. -/
def written : List Attr := [.italic, .underline, .blink, .inverse, .invisible, .strikethrough]

def intensityDiff (source target : Intensity) : List SgrOp :=
  if source = target then []
  else match target with
    | .normal => [.resetIntensity]
    | .bold => [.setBoldIntensity]
    | .faint => [.setFaintIntensity]

def foregroundDiff (source target : Option Color) : List SgrOp :=
  if source = target then []
  else match target with
    | some color => [.setForegroundColor color]
    | none => [.resetForegroundColor]

def backgroundDiff (source target : Option Color) : List SgrOp :=
  if source = target then []
  else match target with
    | some color => [.setBackgroundColor color]
    | none => [.resetBackgroundColor]

def attrsDiff (source target : Pen) : List SgrOp := written.flatMap fun a => pushAttrDiff a (source.has a) (target.has a)

theorem toSgrDiffOps_parts (source target : Pen) :
    toSgrDiffOps source target = intensityDiff source.intensity target.intensity ++
    foregroundDiff source.foreground target.foreground ++
      backgroundDiff source.background target.background ++ attrsDiff source target := by
  simp only [attrsDiff, written, List.flatMap_cons, List.flatMap_nil, List.append_nil, toSgrDiffOps, List.append_assoc]
  rfl

/-- All the operations are the difference from the default style, in another order. -/
theorem toSgrOps_parts (target : Pen) :
    toSgrOps target = .reset :: (foregroundDiff none target.foreground ++ backgroundDiff none target.background ++
      intensityDiff .normal target.intensity ++ attrsDiff .default target) := by
  have hforeground : (target.foreground.map SgrOp.setForegroundColor).toList = foregroundDiff none target.foreground := by
    cases target.foreground <;> rfl
  have hbackground : (target.background.map SgrOp.setBackgroundColor).toList = backgroundDiff none target.background := by
    cases target.background <;> rfl
  have hattr : ∀ a, (if target.has a then [SgrOp.set a] else []) = pushAttrDiff a (Pen.default.has a) (target.has a) := by
    intro a
    have hdefault : Pen.default.has a = false := by cases a <;> rfl
    rw [hdefault]
    cases target.has a <;> rfl
  unfold toSgrOps
  simp only [hforeground, hbackground, hattr, attrsDiff, written, List.flatMap_cons, List.flatMap_nil,
    List.append_nil, List.append_assoc]
  cases target.intensity <;> rfl

theorem foldl_intensityDiff {source target : Intensity} {p : Pen} (h : p.intensity = source) :
    (intensityDiff source target).foldl Pen.sgr p = { p with intensity := target } := by
  unfold intensityDiff
  split
  · rename_i he
    rw [List.foldl_nil, ← he, ← h]
  · cases target <;> rfl

theorem foldl_foregroundDiff {source target : Option Color} {p : Pen} (h : p.foreground = source) :
    (foregroundDiff source target).foldl Pen.sgr p = { p with foreground := target } := by
  unfold foregroundDiff
  split
  · rename_i he
    rw [List.foldl_nil, ← he, ← h]
  · cases target <;> rfl

theorem foldl_backgroundDiff {source target : Option Color} {p : Pen} (h : p.background = source) :
    (backgroundDiff source target).foldl Pen.sgr p = { p with background := target } := by
  unfold backgroundDiff
  split
  · rename_i he
    rw [List.foldl_nil, ← he, ← h]
  · cases target <;> rfl

/-- One attribute changes, and the others stay as they are. -/
theorem foldl_pushAttrDiff {a : Attr} {source : Bool} (target : Bool) {p : Pen} (hp : p.attrs < 64) (h : p.has a = source) :
    ∃ attrs, (pushAttrDiff a source target).foldl Pen.sgr p = { p with attrs := attrs } ∧ attrs < 64 ∧
      ∀ b, ({ p with attrs := attrs } : Pen).has b = if a = b then target else p.has b := by
  unfold pushAttrDiff
  split
  · rename_i he
    refine ⟨p.attrs, rfl, hp, fun b => ?_⟩
    split
    · rename_i hb
      rw [← hb, ← he, ← h]
    · rfl
  · split
    · rename_i ht
      refine ⟨p.attrs ||| a.mask, rfl, Pen.or_mask_lt a hp, fun b => ?_⟩
      show (p.set a).has b = _
      rw [Pen.has_set, ht]
      by_cases hb : a = b <;> simp [hb]
    · rename_i ht
      refine ⟨p.attrs &&& ~~~a.mask, rfl, Pen.and_not_lt a hp, fun b => ?_⟩
      show (p.unset a).has b = _
      rw [Pen.has_unset, Bool.eq_false_iff.mpr ht]
      by_cases hb : a = b <;> simp [hb]

theorem foldl_attrs (source target : Pen) {as : List Attr} (has : as.Nodup) {p : Pen} (hp : p.attrs < 64)
    (h : ∀ a ∈ as, p.has a = source.has a) :
    ∃ attrs, (as.flatMap fun a => pushAttrDiff a (source.has a) (target.has a)).foldl Pen.sgr p =
    { p with attrs := attrs } ∧ attrs < 64 ∧
      ∀ b, ({ p with attrs := attrs } : Pen).has b = if b ∈ as then target.has b else p.has b := by
  induction as generalizing p with
  | nil => exact ⟨p.attrs, rfl, hp, fun b => (if_neg List.not_mem_nil).symm⟩
  | cons a as ih =>
    obtain ⟨hnot, has⟩ := List.nodup_cons.mp has
    obtain ⟨x, hfold, hx, hhas⟩ := foldl_pushAttrDiff (target.has a) hp (h a List.mem_cons_self)
    obtain ⟨y, hfold', hy, hhas'⟩ := ih has (p := { p with attrs := x }) hx fun b hb => by
      rw [hhas, if_neg fun he : a = b => hnot (he ▸ hb)]
      exact h b (List.mem_cons_of_mem _ hb)
    refine ⟨y, ?_, hy, fun b => ?_⟩
    · rw [List.flatMap_cons, List.foldl_append, hfold, hfold']
    · rw [show ({ p with attrs := y } : Pen).has b =
        ({ ({ p with attrs := x } : Pen) with attrs := y } : Pen).has b from rfl, hhas', hhas]
      by_cases hb : b ∈ as
      · rw [if_pos hb, if_pos (List.mem_cons_of_mem _ hb)]
      · by_cases he : a = b
        · rw [if_neg hb, if_pos he, if_pos (he ▸ List.mem_cons_self), he]
        · rw [if_neg hb, if_neg he, if_neg fun hm => (List.mem_cons.mp hm).elim (fun e => he e.symm) hb]

/-- The attributes of the one style become those of the other. -/
theorem foldl_attrsDiff {source target p : Pen} (hs : p.attrs = source.attrs) (hp : p.attrs < 64) (ht : target.attrs < 64) :
    (attrsDiff source target).foldl Pen.sgr p = { p with attrs := target.attrs } := by
  have hall : ∀ b, b ∈ written := by
    intro b
    cases b <;> decide
  obtain ⟨x, hfold, hx, hhas⟩ := foldl_attrs source target (by decide : written.Nodup) hp fun a _ => by
    rw [Pen.has, Pen.has, hs]
  have hattrs : x = target.attrs := Pen.attrs_ext (p := { p with attrs := x }) hx ht fun b => by rw [hhas, if_pos (hall b)]
  rw [attrsDiff, hfold, hattrs]

theorem sgr_toSgrDiffOps {source target : Pen} (hs : source.attrs < 64) (ht : target.attrs < 64) :
    (toSgrDiffOps source target).foldl Pen.sgr source = { target with link := source.link } := by
  rw [toSgrDiffOps_parts, List.foldl_append, List.foldl_append, List.foldl_append, foldl_intensityDiff rfl,
    foldl_foregroundDiff rfl,
    foldl_backgroundDiff rfl]
  exact foldl_attrsDiff rfl hs ht

theorem sgr_toSgrOps {target : Pen} (ht : target.attrs < 64) (p : Pen) :
    (toSgrOps target).foldl Pen.sgr p = { target with link := 0 } := by
  have hforeground : (foregroundDiff none target.foreground).foldl Pen.sgr .default = ⟨target.foreground, none, .normal, 0, 0⟩ :=
    foldl_foregroundDiff rfl
  have hbackground : (backgroundDiff none target.background).foldl Pen.sgr ⟨target.foreground, none, .normal, 0, 0⟩ =
      ⟨target.foreground, target.background, .normal, 0, 0⟩ := foldl_backgroundDiff rfl
  rw [toSgrOps_parts, List.foldl_cons, List.foldl_append, List.foldl_append, List.foldl_append]
  rw [show p.sgr .reset = .default from rfl, hforeground, hbackground, foldl_intensityDiff rfl]
  have hplain : (0 : UInt8) < 64 := by decide
  exact foldl_attrsDiff rfl hplain ht

/-! ## Through text -/

/-- How many parameters operations take. -/
def parameters (ops : List SgrOp) : Nat := (ops.flatMap Vendor.sgrNumbers).length

theorem parameters_append (a b : List SgrOp) : parameters (a ++ b) = parameters a + parameters b := by
  rw [parameters, List.flatMap_append, List.length_append]
  rfl

theorem length_color (color : Color) (base : Nat) : (Vendor.dumpSgrColor color base).length ≤ 5 := by
  unfold Vendor.dumpSgrColor
  cases color with
  | ansi c =>
    simp only
    split <;> simp only [List.length_cons, List.length_nil] <;> omega
  | indexed c => simp only [List.length_cons, List.length_nil]; omega
  | rgb r g b => simp only [List.length_cons, List.length_nil]; omega

theorem parameters_foreground (source target : Option Color) : parameters (foregroundDiff source target) ≤ 5 := by
  unfold foregroundDiff
  split
  · exact Nat.zero_le _
  · cases target with
    | none => exact show 1 ≤ 5 by decide
    | some color => simpa [parameters, Vendor.sgrNumbers] using length_color color 30

theorem parameters_background (source target : Option Color) : parameters (backgroundDiff source target) ≤ 5 := by
  unfold backgroundDiff
  split
  · exact Nat.zero_le _
  · cases target with
    | none => exact show 1 ≤ 5 by decide
    | some color => simpa [parameters, Vendor.sgrNumbers] using length_color color 40

theorem parameters_intensity (source target : Intensity) : parameters (intensityDiff source target) ≤ 1 := by
  cases source <;> cases target <;> decide

theorem parameters_attr (a : Attr) (source target : Bool) : parameters (pushAttrDiff a source target) ≤ 1 := by
  cases a <;> cases source <;> cases target <;> decide

theorem parameters_attrs (source target : Pen) : parameters (attrsDiff source target) ≤ 6 := by
  have hall : ∀ as : List Attr, parameters (as.flatMap fun a => pushAttrDiff a (source.has a) (target.has a)) ≤ as.length := by
    intro as
    induction as with
    | nil => exact Nat.le_refl _
    | cons a as ih =>
      have := parameters_attr a (source.has a) (target.has a)
      rw [List.flatMap_cons, parameters_append, List.length_cons]
      omega
  exact hall written

theorem fits_toSgrDiffOps (source target : Pen) : parameters (toSgrDiffOps source target) ≤ Vendor.paramsLen := by
  have := parameters_intensity source.intensity target.intensity
  have := parameters_foreground source.foreground target.foreground
  have := parameters_background source.background target.background
  have := parameters_attrs source target
  rw [toSgrDiffOps_parts, parameters_append, parameters_append, parameters_append, Vendor.paramsLen]
  omega

theorem fits_toSgrOps (target : Pen) : parameters (toSgrOps target) ≤ Vendor.paramsLen := by
  have := parameters_intensity .normal target.intensity
  have := parameters_foreground none target.foreground
  have := parameters_background none target.background
  have := parameters_attrs .default target
  have hreset : parameters [.reset] = 1 := rfl
  rw [toSgrOps_parts, ← List.singleton_append, parameters_append, parameters_append, parameters_append, parameters_append, hreset,
    Vendor.paramsLen]
  omega

/-- The operations of a painted pen are the parser's. -/
theorem writable_color_ops {target : Pen} (ht : Painted target) :
    (∀ op ∈ toSgrOps target, Vendor.WritableOp op) ∧ ∀ source, ∀ op ∈ toSgrDiffOps source target, Vendor.WritableOp op := by
  have hforeground : ∀ source, ∀ op ∈ foregroundDiff source target.foreground, Vendor.WritableOp op := by
    intro source op hop
    unfold foregroundDiff at hop
    split at hop
    · cases hop
    · rcases hcolor : target.foreground with _ | color <;> rw [hcolor] at hop
      · rw [List.mem_singleton.mp hop]
        exact trivial
      · rw [List.mem_singleton.mp hop]
        exact ht.foreground color hcolor
  have hbackground : ∀ source, ∀ op ∈ backgroundDiff source target.background, Vendor.WritableOp op := by
    intro source op hop
    unfold backgroundDiff at hop
    split at hop
    · cases hop
    · rcases hcolor : target.background with _ | color <;> rw [hcolor] at hop
      · rw [List.mem_singleton.mp hop]
        exact trivial
      · rw [List.mem_singleton.mp hop]
        exact ht.background color hcolor
  have hintensity : ∀ source, ∀ op ∈ intensityDiff source target.intensity, Vendor.WritableOp op := by
    intro source op hop
    unfold intensityDiff at hop
    split at hop
    · cases hop
    · cases hi : target.intensity <;> rw [hi] at hop <;> rw [List.mem_singleton.mp hop] <;> exact trivial
  have hattrs : ∀ source, ∀ op ∈ attrsDiff source target, Vendor.WritableOp op := by
    intro source op hop
    obtain ⟨a, -, hop⟩ := List.mem_flatMap.mp hop
    unfold pushAttrDiff at hop
    repeat' split at hop
    · cases hop
    · rw [List.mem_singleton.mp hop]
      exact trivial
    · rw [List.mem_singleton.mp hop]
      exact trivial
  refine ⟨fun op hop => ?_, fun source op hop => ?_⟩
  · rw [toSgrOps_parts] at hop
    simp only [List.mem_cons, List.mem_append] at hop
    rcases hop with rfl | ((hop | hop) | hop) | hop
    · exact trivial
    · exact hforeground _ op hop
    · exact hbackground _ op hop
    · exact hintensity _ op hop
    · exact hattrs _ op hop
  · rw [toSgrDiffOps_parts] at hop
    simp only [List.mem_append] at hop
    rcases hop with ((hop | hop) | hop) | hop
    · exact hintensity _ op hop
    · exact hforeground _ op hop
    · exact hbackground _ op hop
    · exact hattrs _ op hop

/-- What a dump writes between two pens. -/
def styleSwitch (source target : Pen) : List Vendor.Function := ((toSgrDiff source target).map Vendor.Function.sgr).toList

/-- What functions do to a pen, of its style. -/
def applyStyle (p : Pen) : Vendor.Function → Pen
  | .sgr ops => ops.foldl Pen.sgr p
  | _ => p

theorem styleEq_link (p : Pen) (link : LinkId) : ({ p with link := link } : Pen).styleEq p = true := by
  simp [Pen.styleEq]

/-- The style that was written is the style that is read. -/
theorem style_reads_back {source target : Pen} (hs : Painted source) (ht : Painted target) :
    ((Vendor.Parser.new.functions
      (Vendor.dumpFunctions (styleSwitch source target))).foldl applyStyle source).styleEq target = true := by
  have hread : Vendor.Parser.new.functions (Vendor.dumpFunctions (styleSwitch source target)) = styleSwitch source target := by
    obtain ⟨hops, hdiff⟩ := writable_color_ops ht
    refine Vendor.Parser.functions_dumpFunctions ?_ ?_
    all_goals
      intro f hf
      obtain ⟨ops, hops', rfl⟩ := Option.map_eq_some_iff.mp (Option.mem_toList.mp hf)
      unfold toSgrDiff at hops'
      repeat' split at hops'
      all_goals cases hops'
    · exact hdiff source
    · exact hops
    · exact fits_toSgrDiffOps source target
    · exact fits_toSgrOps target
  rw [hread, styleSwitch, toSgrDiff]
  split
  · assumption
  · split
    · show ((toSgrDiffOps source target).foldl Pen.sgr source).styleEq target = true
      rw [sgr_toSgrDiffOps hs.attrs ht.attrs]
      exact styleEq_link target source.link
    · show ((toSgrOps target).foldl Pen.sgr source).styleEq target = true
      rw [sgr_toSgrOps ht.attrs]
      exact styleEq_link target 0

theorem style_reads_back_bold :
    ((Vendor.Parser.new.functions (Vendor.dumpFunctions
      (styleSwitch .default (Pen.default.sgr .setBoldIntensity)))).foldl applyStyle .default).styleEq
      (Pen.default.sgr .setBoldIntensity) = true :=
  style_reads_back painted_default (Painted.sgr painted_default (show Vendor.WritableOp .setBoldIntensity from trivial))

end Holdfast.Terminal.Avt

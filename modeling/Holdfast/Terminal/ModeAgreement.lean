/-
  Holdfast.Terminal.ModeAgreement — the scanner of `crates/terminal-model/src/modes.rs` and
  the emulator's parser read the same text: what each makes of mode 1, the cursor keys.

  The two run side by side (`both`). `Phase` relates their states: while the scanner is
  outside a control sequence or in a string, nothing the emulator can be in the middle of
  ends in a set or a reset (`Quiet`); inside a control sequence that the scanner has not
  given up the two hold the same parameters, up to the width of the emulator's numbers.
  `gap` tells the characters after which this no longer holds. Two differences are the
  scanner's design: it leaves out the sequences it gives up, and a soft reset turns its
  modes off (`narrow`).

  Proved, for every text with no `gap` in it (`cursor_keys_agree`): mode 1 is what the
  emulator's functions make it with these two differences; where neither arises, it is the
  emulator's own mode.
-/

import Holdfast.Base.Machine
import Holdfast.Base.Split
import Holdfast.Terminal.ModeRestore
import Holdfast.Terminal.Parser

namespace Holdfast.Terminal.ModeAgreement

open Base.Split ModeTracker Avt

/-! ## The parameters of a sequence -/

def value (digits : List UInt8) : Nat := digits.foldl (fun n d => n * 10 + (d.toNat - 0x30)) 0

/-- The parameters the scanner has collected. -/
def parts (t : ModeTracker) (frame : CsiFrame) : List (List UInt8) := splitParams (t.params.toList.take frame.paramsLen)

/-- The scanner would set or reset mode 1. -/
def scanned (t : ModeTracker) (frame : CsiFrame) : Bool := frame.isPrivate && (parts t frame).any (parseU16 · == some 1)

/-- The emulator would. -/
def emulated (p : Parser) : Bool :=
  p.state != .csiIgnore && p.intermediate == some '?' && decide (DecMode.cursorKeys ∈ p.params.filterMap decMode)

/-- The characters the two do not read alike. -/
def gap (t : ModeTracker) (p : Parser) (ch : Char) : Bool :=
  match t.state with
  | .ground => false
  | .escape =>
    ch.toNat ≤ 0x1f && ch.toNat != 0x18 && ch.toNat != 0x1a && ch.toNat != 0x1b || ch.toNat == 0x7f || ch.toNat == 0x9b
  | .csi frame =>
    ch.toNat == 0x7f || ch.toNat == 0x9b ||
    -- a `!` that comes before a parameter
    !frame.invalid && ch == 'p' && frame.bang && p.state == .csiIgnore ||
    -- a `!`, or a value that the emulator wraps
    !frame.invalid && (ch == 'h' || ch == 'l') &&
      (frame.bang || (parts t frame).any (2 ^ 16 ≤ value ·)) && scanned t frame != emulated p
  | .stringBody => ch.toNat == 0x9b
  | .stringEscape =>
    ch.toNat ≤ 0x1f && ch.toNat != 0x18 && ch.toNat != 0x1a && ch.toNat != 0x1b || ch.toNat == 0x7f || ch.toNat == 0x9b ||
    ch == '[' || ch == 'c'

def givenUp (t : ModeTracker) : Bool :=
  match t.state with
  | .csi frame => frame.invalid
  | _ => false

/-- What a function does to the cursor keys, as the scanner means it. -/
def narrow (t : ModeTracker) (cursorKeys : Bool) (fun_ : Control) : Bool :=
  if givenUp t then cursorKeys else if fun_ = .decstr then false else Vt.execute cursorKeys fun_

structure Both where
  tracker : ModeTracker
  emulator : Vt
  /-- The cursor keys, had the emulator narrowed its functions. -/
  narrowed : Bool

def start : Both := ⟨.new, .new, false⟩

def both : Base.Machine Both Char Unit where
  step s ch :=
    (⟨s.tracker.step ch, s.emulator.feed ch, narrow s.tracker s.narrowed (s.emulator.parser.feed ch).2⟩, ())

/-- The function sets or resets the cursor keys. -/
def touches : Control → Bool
  | .decset modes => decide (.cursorKeys ∈ modes)
  | .decrst modes => decide (.cursorKeys ∈ modes)
  | .decstr => false
  | .ris => true
  | .other => false

/-- A step that narrowing changes: a set or reset given up, or a soft reset with the cursor keys on. -/
def designed (s : Both) (ch : Char) : Bool :=
  if givenUp s.tracker then touches (s.emulator.parser.feed ch).2
  else (s.emulator.parser.feed ch).2 == .decstr && s.emulator.cursorKeys

/-! ## The value of a parameter -/

theorem value_snoc (digits : List UInt8) (b : UInt8) : value (digits ++ [b]) = value digits * 10 + (b.toNat - 0x30) := by
  rw [value, List.foldl_append]
  rfl

theorem parseU16_one {part : List UInt8} : parseU16 part = some 1 ↔ value part = 1 := by
  unfold parseU16
  rcases part with _ | ⟨b, part⟩
  · exact ⟨fun h => (by cases h), fun h => (by cases h)⟩
  · show (if value (b :: part) < 2 ^ 16 then some (value (b :: part)) else none) = some 1 ↔ _
    split
    · exact Option.some_inj
    · exact ⟨fun h => (by cases h), fun h => by omega⟩

/-! ## The two side by side -/

/-- Inside a sequence that the scanner has not given up, before any `!`: the emulator has
    read the same parameters. Only a list of nothing but separators can be one parameter
    longer than the emulator's. -/
structure Read (t : ModeTracker) (frame : CsiFrame) (p : Parser) : Prop where
  state : (p.state = .csiEntry ∧ frame.isPrivate = false ∧ frame.paramsLen = 0) ∨
    (p.state = .csiParam ∧ (frame.isPrivate = false → 0 < frame.paramsLen))
  intermediate : p.intermediate = if frame.isPrivate then some '?' else none
  room : frame.paramsLen ≤ maxParams
  plain : p.current.curPart = 0
  values : p.params.map Param.number = (parts t frame).map (value · % 2 ^ 16) ∨
    (frame.paramsLen = maxParams ∧ (∀ part ∈ parts t frame, part = []) ∧ ∀ q ∈ p.params, q.number = 0)

/-- Inside a sequence that the scanner has not given up. -/
structure Standing (t : ModeTracker) (frame : CsiFrame) (p : Parser) : Prop where
  read : frame.bang = false → Read t frame p
  banged : frame.bang = true → Banged p

def Phase (t : ModeTracker) (p : Parser) : Prop :=
  match t.state with
  | .ground => Quiet p
  | .escape => p.state = .escape ∧ p.intermediate = none
  | .csi frame => InCsi p ∧ (frame.invalid = false → Standing t frame p)
  | .stringBody => Quiet p
  | .stringEscape => p.state = .escape ∧ p.intermediate = none

theorem Read.opened (params : Vector UInt8 maxParams) (active : Vector Bool 11) (p : Parser) :
    Read ⟨.csi .default, params, active⟩ .default (p.clear.goto .csiEntry) where
  state := .inl ⟨rfl, rfl, rfl⟩
  intermediate := rfl
  room := Nat.zero_le _
  plain := rfl
  values := by
    left
    simp only [parts, CsiFrame.default, List.take_zero, splitParams, List.splitOn_nil]
    rfl

theorem take_length (params : Vector UInt8 maxParams) {n : Nat} (h : n ≤ maxParams) : (params.toList.take n).length = n := by
  rw [List.length_take, Vector.length_toList, Nat.min_eq_left h]

theorem parts_push (t : ModeTracker) {frame : CsiFrame} (h : frame.paramsLen < maxParams) (b : UInt8) (state : ModeState) :
    parts ⟨state, t.params.set frame.paramsLen b, t.active⟩ { frame with paramsLen := frame.paramsLen + 1 } =
      splitParams (t.params.toList.take frame.paramsLen ++ [b]) := by
  unfold parts
  rw [pushed_take h]

/-- One more separator. -/
theorem Read.separated {t : ModeTracker} {frame : CsiFrame} {p : Parser} (h : Read t frame p)
    (hroom : frame.paramsLen < maxParams)
    (state : ModeState) : Read ⟨state, t.params.set frame.paramsLen (UInt8.ofNat ';'.toNat), t.active⟩
      { frame with paramsLen := frame.paramsLen + 1 } ((p.param ';').goto .csiParam) := by
  have hvalues := h.values.resolve_right fun hfull => Nat.ne_of_lt hroom hfull.1
  have hparts := (parts_push t hroom (UInt8.ofNat 0x3B) state).trans (splitOn_snoc_self (UInt8.ofNat 0x3B) _)
  show Read ⟨state, t.params.set frame.paramsLen (UInt8.ofNat 0x3B), t.active⟩ _ _
  refine ⟨.inr ⟨rfl, fun _ => Nat.succ_pos _⟩, (param_intermediate p ';').trans h.intermediate, hroom, ?_, ?_⟩
  · show (p.param ';').current.curPart = 0
    unfold Parser.param
    rw [if_pos rfl]
    split
    · exact h.plain
    · rfl
  · rw [hparts]
    show (p.param ';').params.map Param.number = _ ∨ _ ∧ _ ∧ ∀ q ∈ (p.param ';').params, q.number = 0
    unfold Parser.param
    rw [if_pos rfl]
    by_cases hfull : p.done.length + 1 = paramsLen
    · -- thirty-two parameters in thirty-one bytes are all empty
      right
      rw [if_pos hfull]
      have hlen : (parts t frame).length = 32 := by
        have := congrArg List.length hvalues
        rw [List.length_map, List.length_map, Parser.params, List.length_append] at this
        exact this.symm.trans hfull
      have hsum := splitOn_length (UInt8.ofNat 0x3B) (t.params.toList.take frame.paramsLen)
      rw [take_length _ h.room] at hsum
      have hroom' : frame.paramsLen < 32 := hroom
      have hempty : ∀ part ∈ parts t frame, part = [] := by
        intro part hpart
        have := List.le_sum_of_mem (List.mem_map_of_mem (f := List.length) hpart)
        exact List.eq_nil_of_length_eq_zero (by unfold parts splitParams at *; omega)
      refine ⟨?_, ?_, ?_⟩
      · show frame.paramsLen + 1 = 32
        unfold parts splitParams at hlen
        omega
      · intro part hpart
        rcases List.mem_append.mp hpart with hpart | hpart
        · exact hempty part hpart
        · exact List.mem_singleton.mp hpart
      · intro q hq
        have := hvalues ▸ List.mem_map_of_mem (f := Param.number) hq
        obtain ⟨part, hpart, hnumber⟩ := List.mem_map.mp this
        rw [← hnumber, hempty part hpart]
        rfl
    · left
      rw [if_neg hfull]
      show (p.params ++ [Param.clear]).map Param.number = (parts t frame ++ [[]]).map _
      rw [List.map_append, hvalues, List.map_append]
      rfl

/-- One more digit. -/
theorem Read.digit {t : ModeTracker} {frame : CsiFrame} {p : Parser} (h : Read t frame p) (hroom : frame.paramsLen < maxParams)
    (state : ModeState) {ch : Char} (h0 : 0x30 ≤ ch.toNat) (h9 : ch.toNat ≤ 0x39) :
    Read ⟨state, t.params.set frame.paramsLen (UInt8.ofNat ch.toNat), t.active⟩
      { frame with paramsLen := frame.paramsLen + 1 } ((p.param ch).goto .csiParam) := by
  have hbyte : (UInt8.ofNat ch.toNat).toNat = ch.toNat := by
    rw [UInt8.toNat_ofNat', Nat.mod_eq_of_lt (by omega)]
  have hne : ∀ k : Char, 0x39 < k.toNat → ch ≠ k := by
    rintro k hk rfl
    omega
  have hparam : p.param ch = { p with current := p.current.addDigit (ch.toNat - 0x30) } := by
    unfold Parser.param
    rw [if_neg (hne ';' (by decide)), if_neg (hne ':' (by decide))]
  have hdigit : p.current.addDigit (ch.toNat - 0x30) =
      { p.current with number := (10 * p.current.number + (ch.toNat - 0x30)) % 2 ^ 16 } :=
    if_pos h.plain
  rw [hdigit] at hparam
  have hvalues := h.values.resolve_right fun hfull => Nat.ne_of_lt hroom hfull.1
  have hparts := parts_push t hroom (UInt8.ofNat ch.toNat) state
  obtain ⟨init, last, hsplit⟩ : ∃ init last, parts t frame = init ++ [last] :=
    ⟨_, _, (List.dropLast_append_getLast (List.splitOn_ne_nil _ _)).symm⟩
  have hb : UInt8.ofNat ch.toNat ≠ UInt8.ofNat 0x3B := by
    intro heq
    have := congrArg UInt8.toNat heq
    rw [hbyte] at this
    have h3b : (UInt8.ofNat 0x3B).toNat = 0x3B := rfl
    omega
  rw [splitParams, splitOn_snoc hb hsplit] at hparts
  rw [hparam]
  refine ⟨.inr ⟨rfl, fun _ => Nat.succ_pos _⟩, h.intermediate, hroom, h.plain, .inl ?_⟩
  rw [hsplit, Parser.params, List.map_append, List.map_append] at hvalues
  obtain ⟨hdone, hlast⟩ := List.append_inj' hvalues rfl
  have hlast : p.current.number = value last % 2 ^ 16 := (List.cons.inj hlast).1
  rw [hparts]
  show (p.done ++ [_]).map Param.number = _
  rw [List.map_append, List.map_append, hdone]
  refine congrArg (init.map _ ++ [·]) ?_
  show (10 * p.current.number + (ch.toNat - 0x30)) % 2 ^ 16 = value (last ++ [UInt8.ofNat ch.toNat]) % 2 ^ 16
  rw [value_snoc, hbyte, hlast]
  omega

/-! ## The end of a sequence -/

theorem isActive_one (t : ModeTracker) : t.isActive 1 = t.active.get 0 := by
  unfold isActive
  rw [show position 1 = some 0 from by decide]

theorem apply_one (active : Vector Bool 11) (code : Nat) (set : Bool) :
    (apply active code set).get 0 = if code = 1 then set else active.get 0 := by
  rcases hp : position code with _ | i
  · have : code ≠ 1 := fun h => by rw [h] at hp; exact absurd hp (by decide)
    rw [apply_untracked hp, if_neg this]
  · rw [← tracked_of_position hp, apply_get]
    by_cases hi : i = 0
    · subst hi
      rfl
    · have hne : tracked.get i ≠ 1 := fun h => by
        have := position_tracked i
        rw [h] at this
        exact hi (Option.some.inj (this.symm.trans (by decide)))
      have hmouse : isMouse 0 = false := by decide
      rw [if_neg hi, if_neg hne, hmouse, Bool.and_false, if_neg Bool.false_ne_true]

theorem foldl_apply_one (ps : List (List UInt8)) (set : Bool) (active : Vector Bool 11) :
    (ps.foldl (fun active part => match parseU16 part with
      | some code => apply active code set
      | none => active) active).get 0 = if ps.any (parseU16 · == some 1) then set else active.get 0 := by
  induction ps generalizing active with
  | nil => rfl
  | cons part ps ih =>
    rw [List.foldl_cons, ih, List.any_cons]
    rcases parseU16 part with _ | code
    · rw [show (none == some 1) = false from rfl, Bool.false_or]
    · show (if _ then set else (apply active code set).get 0) = _
      rw [apply_one]
      by_cases hcode : code = 1
      · subst hcode
        rw [if_pos rfl, ite_self]
        rfl
      · rw [if_neg hcode, beq_eq_false_iff_ne.mpr fun h => hcode (Option.some.inj h), Bool.false_or]

/-- What a final byte does to mode 1. -/
theorem finishCsi_one (t : ModeTracker) (frame : CsiFrame) (ch : Char) :
    (finishCsi t frame ch).get 0 =
      if frame.invalid then t.active.get 0
      else if frame.bang && ch == 'p' then false
      else if (ch == 'h' || ch == 'l') && scanned t frame then ch == 'h'
      else t.active.get 0 := by
  unfold finishCsi scanned parts
  split
  · rfl
  · split
    · exact allOff_get 0
    · rcases hprivate : frame.isPrivate with _ | _
      · rw [Bool.not_false, Bool.true_or, if_pos rfl, Bool.false_and, Bool.and_false, if_neg Bool.false_ne_true]
      · rw [Bool.true_and]
        by_cases hch : ch = 'h' ∨ ch = 'l'
        · obtain rfl | rfl := hch
          · exact foldl_apply_one _ _ _
          · exact foldl_apply_one _ _ _
        · obtain ⟨hh, hl⟩ := not_or.mp hch
          rw [beq_eq_false_iff_ne.mpr hh, beq_eq_false_iff_ne.mpr hl, bne_iff_ne.mpr hh, bne_iff_ne.mpr hl]
          rfl

theorem mem_decModes {p : Parser} : DecMode.cursorKeys ∈ p.params.filterMap decMode ↔ ∃ q ∈ p.params, q.number = 1 := by
  have hone : ∀ q, decMode q = some .cursorKeys ↔ q.number = 1 := by
    intro q
    unfold decMode
    split <;> simp_all
  simp only [List.mem_filterMap, hone]

/-- The function of a final byte, as the emulator reads it. -/
def final (p : Parser) (ch : Char) : Control := if p.state = .csiIgnore then .other else p.csiDispatch ch

/-- What it does to the cursor keys, softened. -/
theorem final_keys (p : Parser) (ch : Char) (cursorKeys : Bool) :
    (if final p ch = .decstr then false else Vt.execute cursorKeys (final p ch)) =
      if p.state ≠ .csiIgnore ∧ p.intermediate = some '!' ∧ ch = 'p' then false
      else if (ch == 'h' || ch == 'l') && emulated p then ch == 'h'
      else cursorKeys := by
  unfold final emulated
  by_cases hs : p.state = .csiIgnore
  · simp [hs, Vt.execute]
  · rw [if_neg hs]
    unfold Parser.csiDispatch
    split
    · rename_i hi
      by_cases hp : ch = 'p'
      · simp [hs, hi, hp]
      · simp [hi, hp, Vt.execute]
    · rename_i hi
      by_cases hh : ch = 'h'
      · subst hh
        simp [hs, hi, Vt.execute]
      · by_cases hl : ch = 'l'
        · subst hl
          simp [hs, hi, Vt.execute]
        · simp [hi, hh, hl, Vt.execute]
    · rename_i hbang hprivate
      have hbang : p.intermediate ≠ some '!' := hbang
      have hprivate : p.intermediate ≠ some '?' := hprivate
      simp [hbang, hprivate, Vt.execute]

/-- Without a value past the emulator's numbers, both see mode 1 named, or neither does. -/
theorem Read.named {t : ModeTracker} {frame : CsiFrame} {p : Parser} (h : Read t frame p)
    (hvalue : (parts t frame).any (2 ^ 16 ≤ value ·) = false) : scanned t frame = emulated p := by
  have hstate : (p.state != .csiIgnore) = true := by
    obtain ⟨hs, -⟩ | ⟨hs, -⟩ := h.state <;> rw [hs] <;> rfl
  have hprivate : (p.intermediate == some '?') = frame.isPrivate := by
    rw [h.intermediate]
    cases frame.isPrivate <;> rfl
  unfold scanned emulated
  rw [hstate, hprivate, Bool.true_and]
  refine congrArg (frame.isPrivate && ·) ?_
  rw [Bool.eq_iff_iff, List.any_eq_true, decide_eq_true_iff, mem_decModes]
  simp only [beq_iff_eq, parseU16_one]
  obtain hvalues | ⟨-, hparts, hparams⟩ := h.values
  · have hsmall : ∀ part ∈ parts t frame, value part % 2 ^ 16 = value part := by
      intro part hpart
      have := List.any_eq_false.mp hvalue part hpart
      rw [decide_eq_true_iff] at this
      exact Nat.mod_eq_of_lt (by omega)
    have hnumbers : p.params.map Param.number = (parts t frame).map value := hvalues.trans (List.map_congr_left hsmall)
    constructor
    · rintro ⟨part, hpart, hone⟩
      have hmem := hnumbers ▸ List.mem_map_of_mem (f := value) hpart
      obtain ⟨q, hq, hnumber⟩ := List.mem_map.mp hmem
      exact ⟨q, hq, hnumber.trans hone⟩
    · rintro ⟨q, hq, hone⟩
      have hmem := hnumbers ▸ List.mem_map_of_mem (f := Param.number) hq
      obtain ⟨part, hpart, hvalue⟩ := List.mem_map.mp hmem
      exact ⟨part, hpart, hvalue.trans hone⟩
  · constructor
    · rintro ⟨part, hpart, hone⟩
      rw [hparts part hpart] at hone
      cases hone
    · rintro ⟨q, hq, hone⟩
      rw [hparams q hq] at hone
      cases hone

/-! ## One character -/

/-- The states stay related, and mode 1 becomes what the emulator's function makes it. -/
def Follows (t : ModeTracker) (p : Parser) (ch : Char) : Prop :=
  Phase (t.step ch) (p.feed ch).1 ∧ (t.step ch).isActive 1 = narrow t (t.isActive 1) (p.feed ch).2

theorem follows_of {t t' : ModeTracker} {p : Parser} {ch : Char} (hstep : t.step ch = t') (hactive : t'.active = t.active)
    (hother : (p.feed ch).2 = .other) (hphase : Phase t' (p.feed ch).1) : Follows t p ch := by
  refine ⟨hstep ▸ hphase, ?_⟩
  rw [hstep, hother, isActive_one, hactive, ← isActive_one]
  unfold narrow
  split <;> rfl

theorem follows_ground {t : ModeTracker} (hs : t.state = .ground) {p : Parser} (h : Quiet p) (ch : Char) : Follows t p ch := by
  obtain ⟨t', ht⟩ : ∃ t', t.step ch = t' := ⟨_, rfl⟩
  have hstep := ht
  simp only [step, hs] at hstep
  by_cases h1b : ch.toNat = 0x1b
  · rw [if_pos h1b] at hstep
    subst hstep
    exact follows_of ht rfl (by rw [feed_escape h1b]) (by rw [feed_escape h1b]; exact ⟨rfl, rfl⟩)
  · rw [if_neg h1b] at hstep
    by_cases h9b : ch.toNat = 0x9b
    · rw [if_pos h9b] at hstep
      subst hstep
      refine follows_of ht rfl (by rw [feed_csi h9b]) ?_
      rw [feed_csi h9b]
      exact ⟨.inl rfl, fun _ => ⟨fun _ => Read.opened _ _ p, fun h => by cases h⟩⟩
    · rw [if_neg h9b] at hstep
      obtain ⟨hquiet, hother⟩ := feed_quiet h h1b h9b
      subst hstep
      exact follows_of ht rfl hother hquiet

theorem follows_stringBody {t : ModeTracker} (hs : t.state = .stringBody) {p : Parser} (h : Quiet p) {ch : Char}
    (hg : gap t p ch = false) : Follows t p ch := by
  simp only [gap, hs, beq_eq_false_iff_ne] at hg
  obtain ⟨t', ht⟩ : ∃ t', t.step ch = t' := ⟨_, rfl⟩
  have hstep := ht
  simp only [step, hs] at hstep
  by_cases h1b : ch.toNat = 0x1b
  · rw [if_neg (by omega), if_neg (by omega), if_pos h1b] at hstep
    subst hstep
    exact follows_of ht rfl (by rw [feed_escape h1b]) (by rw [feed_escape h1b]; exact ⟨rfl, rfl⟩)
  · obtain ⟨hquiet, hother⟩ := feed_quiet h h1b hg
    by_cases hend : ch.toNat = 0x07 ∨ ch.toNat = 0x9c
    · rw [if_pos hend] at hstep
      subst hstep
      exact follows_of ht rfl hother hquiet
    · rw [if_neg hend] at hstep
      by_cases habort : ch.toNat = 0x18 ∨ ch.toNat = 0x1a
      · rw [if_pos habort] at hstep
        subst hstep
        exact follows_of ht rfl hother hquiet
      · rw [if_neg habort, if_neg h1b] at hstep
        subst hstep
        exact follows_of ht rfl hother hquiet

theorem follows_escape {t : ModeTracker} (hs : t.state = .escape) {p : Parser} (hp : p.state = .escape)
    (hi : p.intermediate = none)
    {ch : Char} (hg : gap t p ch = false) : Follows t p ch := by
  simp only [gap, hs, Bool.or_eq_false_iff, Bool.and_eq_false_iff, decide_eq_false_iff_not, beq_eq_false_iff_ne,
    bne_eq_false_iff_eq] at hg
  obtain ⟨⟨hc0, h7f⟩, h9b⟩ := hg
  obtain ⟨t', ht⟩ : ∃ t', t.step ch = t' := ⟨_, rfl⟩
  have hstep := ht
  simp only [step, hs] at hstep
  by_cases hopen : ch = '['
  · subst hopen
    rw [if_pos rfl] at hstep
    subst hstep
    refine follows_of ht rfl (by rw [feed_open hp]) ?_
    rw [feed_open hp]
    exact ⟨.inl rfl, fun _ => ⟨fun _ => Read.opened _ _ p, fun h => by cases h⟩⟩
  · rw [if_neg hopen] at hstep
    by_cases hris : ch = 'c'
    · subst hris
      rw [if_neg (by decide), if_pos rfl] at hstep
      subst hstep
      refine ⟨?_, ?_⟩
      · rw [ht, feed_ris hp hi]
        exact trivial
      · rw [ht, feed_ris hp hi, isActive_one]
        simp only [narrow, givenUp, hs]
        exact allOff_get 0
    · by_cases h1b : ch.toNat = 0x1b
      · have hne : ∀ k : Char, k.toNat ≠ 0x1b → ch ≠ k := fun k hk heq => hk (heq ▸ h1b)
        rw [if_neg, if_neg hris, if_pos h1b] at hstep
        · subst hstep
          exact follows_of ht rfl (by rw [feed_escape h1b]) (by rw [feed_escape h1b]; exact ⟨rfl, rfl⟩)
        · simp only [List.mem_cons, List.not_mem_nil, or_false, not_or]
          exact ⟨hne _ (by decide), hne _ (by decide), hne _ (by decide), hne _ (by decide), hne _ (by decide)⟩
      · obtain ⟨hquiet, hother⟩ := feed_escaped hp h9b h7f (by omega) hopen hris
        split at hstep
        · subst hstep
          exact follows_of ht rfl hother hquiet
        · subst hstep
          exact follows_of ht rfl hother hquiet

theorem follows_stringEscape {t : ModeTracker} (hs : t.state = .stringEscape) {p : Parser} (hp : p.state = .escape)
    {ch : Char} (hg : gap t p ch = false) : Follows t p ch := by
  simp only [gap, hs, Bool.or_eq_false_iff, Bool.and_eq_false_iff, decide_eq_false_iff_not, beq_eq_false_iff_ne,
    bne_eq_false_iff_eq] at hg
  obtain ⟨⟨⟨⟨hc0, h7f⟩, h9b⟩, hopen⟩, hris⟩ := hg
  obtain ⟨t', ht⟩ : ∃ t', t.step ch = t' := ⟨_, rfl⟩
  have hstep := ht
  simp only [step, hs] at hstep
  by_cases h1b : ch.toNat = 0x1b
  · have hne : ch ≠ '\\' := fun heq => absurd (heq ▸ h1b) (by decide)
    rw [if_neg hne, if_pos h1b] at hstep
    subst hstep
    exact follows_of ht rfl (by rw [feed_escape h1b]) (by rw [feed_escape h1b]; exact ⟨rfl, rfl⟩)
  · obtain ⟨hquiet, hother⟩ := feed_escaped hp h9b h7f (by omega) hopen hris
    rw [if_neg h1b] at hstep
    split at hstep
    · subst hstep
      exact follows_of ht rfl hother hquiet
    · subst hstep
      exact follows_of ht rfl hother hquiet

/-- Where a sequence stands after a parameter byte. -/
theorem Phase.pushed {t : ModeTracker} {frame : CsiFrame} {p : Parser} (hp : InCsi p)
    (hr : frame.invalid = false → Standing t frame p) {ch : Char}
    (hch : (0x30 ≤ ch.toNat ∧ ch.toNat ≤ 0x39) ∨ ch = ';') : Phase (pushParam t frame ch) (p.feed ch).1 := by
  have hn : (0x30 ≤ ch.toNat ∧ ch.toNat ≤ 0x39) ∨ ch.toNat = 0x3b := hch.imp_right (congrArg Char.toNat)
  have hin : InCsi (p.feed ch).1 := (feed_csi_middle hp (by omega) (by omega)).1
  unfold pushParam
  split
  · rename_i hroom
    refine ⟨hin, fun hvalid => ?_⟩
    refine ⟨fun hbang => ?_, fun hbang => ((hr hvalid).banged hbang).feed (by omega) (by omega)⟩
    have hread := (hr hvalid).read hbang
    have hstate : p.state = .csiEntry ∨ p.state = .csiParam := hread.state.imp And.left And.left
    rw [feed_param hstate hn]
    obtain ⟨h0, h9⟩ | rfl := hch
    · exact hread.digit hroom _ h0 h9
    · exact hread.separated hroom _
  · exact ⟨hin, fun hvalid => by cases hvalid⟩

/-- The same after a `?` that opens the parameters. -/
theorem Phase.private {t : ModeTracker} {frame : CsiFrame} {p : Parser} (hp : InCsi p)
    (hr : frame.invalid = false → Standing t frame p) (hlen : frame.paramsLen = 0)
    (hprivate : frame.isPrivate = false) : Phase { t with state := .csi { frame with isPrivate := true } } (p.feed '?').1 := by
  refine ⟨(feed_csi_middle hp (by decide) (by decide)).1, fun hvalid => ?_⟩
  refine ⟨fun hbang => ?_, fun hbang => ((hr hvalid).banged hbang).feed (by decide) (by decide)⟩
  have hread := (hr hvalid).read hbang
  have hentry : p.state = .csiEntry := by
    obtain ⟨hs, -⟩ | ⟨-, hpos⟩ := hread.state
    · exact hs
    · exact absurd (hpos hprivate) (by rw [hlen]; exact Nat.lt_irrefl 0)
  rw [feed_private hentry]
  exact ⟨.inr ⟨rfl, fun h => by cases h⟩, rfl, hread.room, hread.plain, hread.values⟩

/-- A final byte does the same on both sides, up to the design. -/
theorem follows_final {t : ModeTracker} {frame : CsiFrame} (hs : t.state = .csi frame) {p : Parser} (hp : InCsi p)
    (hr : frame.invalid = false → Standing t frame p) {ch : Char} (hg : gap t p ch = false)
    (hlo : 0x40 ≤ ch.toNat) (hhi : ch.toNat ≤ 0x7e)
    (hstep : t.step ch = { t with active := finishCsi t frame ch, state := .ground }) :
    Follows t p ch := by
  have hfeed : p.feed ch = (p.goto .ground, final p ch) := feed_csi_final hp hlo hhi
  refine ⟨?_, ?_⟩
  · rw [hstep, hfeed]
    exact trivial
  rw [hstep, hfeed, isActive_one, isActive_one]
  show (finishCsi t frame ch).get 0 = narrow t (t.active.get 0) (final p ch)
  rw [finishCsi_one, narrow, final_keys]
  have hgiven : givenUp t = frame.invalid := by rw [givenUp, hs]
  rw [hgiven]
  rcases hinvalid : frame.invalid with _ | _
  · rw [if_neg Bool.false_ne_true, if_neg Bool.false_ne_true]
    simp only [gap, hs, hinvalid, Bool.not_false, Bool.true_and, Bool.or_eq_false_iff] at hg
    obtain ⟨⟨-, hsoft⟩, hnamed⟩ := hg
    have hr := hr hinvalid
    -- the two see mode 1 named alike, and the same soft resets
    have halike : (ch == 'h' || ch == 'l') = true → scanned t frame = emulated p := by
      intro hch
      rw [hch, Bool.true_and, Bool.and_eq_false_iff] at hnamed
      obtain hplain | hsame := hnamed
      · obtain ⟨hbang, hvalue⟩ := Bool.or_eq_false_iff.mp hplain
        exact (hr.read hbang).named hvalue
      · simpa using hsame
    have hreset : (frame.bang && ch == 'p') = true ↔ p.state ≠ .csiIgnore ∧ p.intermediate = some '!' ∧ ch = 'p' := by
      rcases hbang : frame.bang with _ | _
      · refine ⟨fun h => (by cases h), fun h => ?_⟩
        have hi := h.2.1
        rw [(hr.read hbang).intermediate] at hi
        split at hi <;> cases hi
      · rw [Bool.true_and, beq_iff_eq]
        constructor
        · rintro rfl
          have hstate : p.state ≠ .csiIgnore := by simpa [hbang] using hsoft
          exact ⟨hstate, ((hr.banged hbang).resolve_right hstate).2, rfl⟩
        · exact fun h => h.2.2
    by_cases hres : (frame.bang && ch == 'p') = true
    · rw [if_pos hres, if_pos (hreset.mp hres)]
    · rw [if_neg hres, if_neg fun h => hres (hreset.mpr h)]
      rcases hch : (ch == 'h' || ch == 'l') with _ | _
      · rfl
      · rw [halike hch]
  · rw [if_pos rfl, if_pos rfl]

theorem follows_csi {t : ModeTracker} {frame : CsiFrame} (hs : t.state = .csi frame) {p : Parser} (hp : InCsi p)
    (hr : frame.invalid = false → Standing t frame p) {ch : Char} (hg : gap t p ch = false) :
    Follows t p ch := by
  obtain ⟨t', ht⟩ : ∃ t', t.step ch = t' := ⟨_, rfl⟩
  have hstep := ht
  simp only [step, hs, stepCsi] at hstep
  have hends : ch.toNat ≠ 0x7f ∧ ch.toNat ≠ 0x9b := by
    simp only [gap, hs, Bool.or_eq_false_iff, beq_eq_false_iff_ne] at hg
    exact hg.1.1
  by_cases hprivate : (ch == '?' && frame.paramsLen == 0 && !frame.isPrivate) = true
  · rw [if_pos hprivate] at hstep
    subst hstep
    simp only [Bool.and_eq_true, beq_iff_eq, Bool.not_eq_true'] at hprivate
    obtain ⟨⟨rfl, hlen⟩, hpub⟩ := hprivate
    exact follows_of ht rfl (feed_csi_middle hp (by decide) (by decide)).2 (Phase.private hp hr hlen hpub)
  rw [if_neg hprivate] at hstep
  by_cases hparam : ('0' ≤ ch ∧ ch ≤ '9') ∨ ch = ';'
  · rw [if_pos hparam] at hstep
    subst hstep
    have hn : (0x30 ≤ ch.toNat ∧ ch.toNat ≤ 0x39) ∨ ch = ';' := hparam
    have hrange : 0x20 ≤ ch.toNat ∧ ch.toNat ≤ 0x3f := by
      obtain ⟨h0, h9⟩ | rfl := hn
      · omega
      · exact ⟨by decide, by decide⟩
    refine follows_of ht ?_ (feed_csi_middle hp hrange.1 hrange.2).2 (Phase.pushed hp hr hn)
    unfold pushParam
    split <;> rfl
  rw [if_neg hparam] at hstep
  by_cases hother : ch ∈ [':', '<', '=', '>', '?']
  · rw [if_pos hother] at hstep
    subst hstep
    have hrange : 0x20 ≤ ch.toNat ∧ ch.toNat ≤ 0x3f := by
      simp only [List.mem_cons, List.not_mem_nil, or_false] at hother
      obtain rfl | rfl | rfl | rfl | rfl := hother <;> exact ⟨by decide, by decide⟩
    obtain ⟨hin, hnone⟩ := feed_csi_middle hp hrange.1 hrange.2
    exact follows_of ht rfl hnone ⟨hin, fun hvalid => by cases hvalid⟩
  rw [if_neg hother] at hstep
  by_cases hbang : ch = '!'
  · rw [if_pos hbang] at hstep
    subst hstep hbang
    obtain ⟨hin, hnone⟩ : InCsi (p.feed '!').1 ∧ (p.feed '!').2 = .other := feed_csi_middle hp (by decide) (by decide)
    exact follows_of ht rfl hnone ⟨hin, fun _ => ⟨fun h => (by cases h), fun _ => feed_bang hp⟩⟩
  rw [if_neg hbang] at hstep
  by_cases hmiddle : 0x20 ≤ ch.toNat ∧ ch.toNat ≤ 0x2f
  · rw [if_pos hmiddle] at hstep
    subst hstep
    obtain ⟨hin, hnone⟩ := feed_csi_middle hp hmiddle.1 (by omega)
    exact follows_of ht rfl hnone ⟨hin, fun hvalid => by cases hvalid⟩
  rw [if_neg hmiddle] at hstep
  by_cases hfinal : 0x40 ≤ ch.toNat ∧ ch.toNat ≤ 0x7e
  · rw [if_pos hfinal] at hstep
    exact follows_final hs hp hr hg hfinal.1 hfinal.2 (ht.trans hstep.symm)
  rw [if_neg hfinal] at hstep
  by_cases h1b : ch.toNat = 0x1b
  · rw [if_pos h1b] at hstep
    subst hstep
    exact follows_of ht rfl (by rw [feed_escape h1b]) (by rw [feed_escape h1b]; exact ⟨rfl, rfl⟩)
  rw [if_neg h1b] at hstep
  by_cases habort : ch.toNat = 0x18 ∨ ch.toNat = 0x1a
  · rw [if_pos habort] at hstep
    subst hstep
    obtain ⟨hquiet, hnone⟩ := feed_csi_abort hp hends.2 (.inr habort)
    exact follows_of ht rfl hnone hquiet
  rw [if_neg habort] at hstep
  by_cases hcontrol : ch.toNat ≤ 0x1f
  · rw [if_pos hcontrol] at hstep
    subst hstep
    have hfeed := feed_csi_control hp hcontrol h1b (by omega) (by omega)
    refine follows_of ht rfl (by rw [hfeed]) ?_
    rw [hfeed, ← hs]
    show Phase t p
    unfold Phase
    rw [hs]
    exact ⟨hp, hr⟩
  · rw [if_neg hcontrol] at hstep
    subst hstep
    -- between a space and U+007E everything has been read above
    have hhigh : 0x80 ≤ ch.toNat := by
      have hcolon : ¬(ch.toNat = 0x3a ∨ ch.toNat = 0x3c ∨ ch.toNat = 0x3d ∨ ch.toNat = 0x3e ∨ ch.toNat = 0x3f) := by
        simp only [List.mem_cons, List.not_mem_nil, or_false, ← Char.toNat_inj] at hother
        exact hother
      have hdigit : ¬((0x30 ≤ ch.toNat ∧ ch.toNat ≤ 0x39) ∨ ch.toNat = 0x3b) := fun h =>
        hparam (h.imp_right fun heq => Char.toNat_inj.mp heq)
      omega
    obtain ⟨hquiet, hnone⟩ := feed_csi_abort hp hends.2 (.inl hhigh)
    exact follows_of ht rfl hnone hquiet

theorem Phase.follows {t : ModeTracker} {p : Parser} (h : Phase t p) {ch : Char} (hg : gap t p ch = false) : Follows t p ch := by
  unfold Phase at h
  rcases hs : t.state with _ | _ | frame | _ | _ <;> rw [hs] at h
  · exact follows_ground hs h ch
  · exact follows_escape hs h.1 h.2 hg
  · exact follows_csi hs h.1 h.2 hg
  · exact follows_stringBody hs h hg
  · exact follows_stringEscape hs h.1 hg

/-! ## The whole text -/

theorem run_tracker (s : Both) (text : Text) : (both.run s text).tracker = s.tracker.scan text := by
  induction text generalizing s with
  | nil => rfl
  | cons ch text ih => exact ih _

theorem run_emulator (s : Both) (text : Text) : (both.run s text).emulator = text.foldl Vt.feed s.emulator := by
  induction text generalizing s with
  | nil => rfl
  | cons ch text ih => exact ih _

/-- Side by side, the scanner's mode 1 is the narrowed one. -/
def InStep (s : Both) : Prop := Phase s.tracker s.emulator.parser ∧ s.tracker.isActive 1 = s.narrowed

theorem InStep.next {s : Both} (h : InStep s) {ch : Char} (hg : gap s.tracker s.emulator.parser ch = false) :
    InStep (both.next s ch) := by
  obtain ⟨hphase, hmode⟩ := h.1.follows hg
  exact ⟨hphase, hmode.trans (congrArg (narrow s.tracker · _) h.2)⟩

theorem inStep_start : InStep start := ⟨trivial, by decide⟩

theorem execute_untouched {fun_ : Control} (h : touches fun_ = false) (cursorKeys : Bool) :
    Vt.execute cursorKeys fun_ = cursorKeys := by
  cases fun_ with
  | decset modes => exact if_neg (of_decide_eq_false h)
  | decrst modes => exact if_neg (of_decide_eq_false h)
  | decstr => rfl
  | ris => cases h
  | other => rfl

/-- Where the design makes no difference, narrowing makes none. -/
theorem narrow_execute {s : Both} {ch : Char} (h : designed s ch = false) :
    narrow s.tracker s.emulator.cursorKeys (s.emulator.parser.feed ch).2 = (s.emulator.feed ch).cursorKeys := by
  show _ = Vt.execute s.emulator.cursorKeys (s.emulator.parser.feed ch).2
  unfold designed at h
  unfold narrow
  split
  · rename_i hgiven
    rw [if_pos hgiven] at h
    exact (execute_untouched h _).symm
  · rename_i hgiven
    rw [if_neg hgiven] at h
    split
    · rename_i hsoft
      rw [hsoft, beq_self_eq_true, Bool.true_and] at h
      rw [hsoft, h]
      rfl
    · rfl

theorem cursor_keys_agree (text : Text)
    (h : both.Admissible (fun s ch => gap s.tracker s.emulator.parser ch = false) start text) :
    (ModeTracker.new.scan text).isActive 1 = (both.run start text).narrowed ∧
      (both.Admissible (fun s ch => designed s ch = false) start text →
        (ModeTracker.new.scan text).isActive 1 = (text.foldl Vt.feed .new).cursorKeys) := by
  have hrun := both.run_induction (fun _ _ hs hg => hs.next hg) inStep_start h
  have hmode : (ModeTracker.new.scan text).isActive 1 = (both.run start text).narrowed := by
    rw [← hrun.2, run_tracker]
    rfl
  refine ⟨hmode, fun hplain => ?_⟩
  have hsame : (both.run start text).narrowed = (both.run start text).emulator.cursorKeys := by
    refine both.run_induction (P := fun s => s.narrowed = s.emulator.cursorKeys) (fun s ch hs hd => ?_) rfl hplain
    exact (congrArg (narrow s.tracker · _) hs).trans (narrow_execute hd)
  rw [hmode, hsame, run_emulator]
  rfl

/-- A title between a set and a reset among others. -/
theorem cursor_keys_agree_reset :
    (ModeTracker.new.scan "\x1b[?1h\x1b]0;t\x07\x1b[?25;1l".toList).isActive 1 =
        (both.run start "\x1b[?1h\x1b]0;t\x07\x1b[?25;1l".toList).narrowed ∧
      (ModeTracker.new.scan "\x1b[?1h\x1b]0;t\x07\x1b[?25;1l".toList).isActive 1 =
        ("\x1b[?1h\x1b]0;t\x07\x1b[?25;1l".toList.foldl Vt.feed .new).cursorKeys :=
  have h := cursor_keys_agree "\x1b[?1h\x1b]0;t\x07\x1b[?25;1l".toList (by decide +kernel)
  ⟨h.1, h.2 (by decide +kernel)⟩

/-- A soft reset turns the mode off in the scanner alone, and a parameter with a colon in
    the emulator alone. The other texts have a gap in them, one of each kind. -/
theorem cursor_keys_apart :
    ((ModeTracker.new.scan "\x1b[?1h\x1b[!p".toList).isActive 1 = false ∧
        ("\x1b[?1h\x1b[!p".toList.foldl Vt.feed .new).cursorKeys = true) ∧
      ((ModeTracker.new.scan "\x1b[?1h\x1b[?1:2l".toList).isActive 1 = true ∧
        ("\x1b[?1h\x1b[?1:2l".toList.foldl Vt.feed .new).cursorKeys = false) ∧
      ["\x1b\x07[?1h", "\x1b\x7f[?1h", "\x1b\u009b?1h", "\x1b[\x7f?1h", "\x1b[\u009b?1h", "\x1b]\u009b?1h",
        "\x1b]\x1b\x07[?1h", "\x1b]0;t\x1b[?1h",
          "\x1b[?1h\x1b]0;t\x1bc", "\x1b[?1!h", "\x1b[?65537h", "\x1b[?1h\x1b[!1p"].all fun text =>
        (ModeTracker.new.scan text.toList).isActive 1 != (text.toList.foldl Vt.feed .new).cursorKeys := by
  decide +kernel

end Holdfast.Terminal.ModeAgreement

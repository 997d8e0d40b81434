/-
  Holdfast.Terminal.Parser — control sequences as the vendored emulator reads them
  (`Parser::feed` of `vendor/avt/src/parser.rs`), and what they do to its cursor-key mode
  (`decset`, `decrst`, `soft_reset` and `hard_reset` of `vendor/avt/src/terminal.rs`).

  A character past U+009F counts as a letter. Some characters lead to the same state from
  everywhere (`anywhere`); the others are read state by state. Of the parameters the list up
  to the current one is kept, the others being clear, and of each the first part. Functions
  that leave the cursor-key mode alone are one (`other`), and the payload of an `OSC` is left
  out, for it only ever becomes one of these.

  What one character does is said once for each kind of state: outside control sequences
  (`feed_quiet`), after an escape (`feed_escaped`), and inside a control sequence
  (`feed_csi_middle`, `feed_csi_final`, `feed_csi_abort`).
-/

import Holdfast.Terminal.Utf8

namespace Holdfast.Terminal.Avt

inductive State where
  | ground
  | escape
  | escapeIntermediate
  | csiEntry
  | csiParam
  | csiIntermediate
  | csiIgnore
  | dcsEntry
  | dcsParam
  | dcsIntermediate
  | dcsPassthrough
  | dcsIgnore
  | oscString
  | sosPmApcString
  deriving DecidableEq, Repr

/-- `number` is the first part. -/
structure Param where
  curPart : Nat
  number : Nat
  deriving DecidableEq, Repr

namespace Param

def clear : Param := ⟨0, 0⟩

def addPart (p : Param) : Param := { p with curPart := min (p.curPart + 1) 5 }

/-- A `u16` that wraps. -/
def addDigit (p : Param) (digit : Nat) : Param :=
  if p.curPart = 0 then { p with number := (10 * p.number + digit) % 2 ^ 16 } else p

end Param

def paramsLen : Nat := 32

structure Parser where
  state : State
  /-- The parameters before the current one. -/
  done : List Param
  current : Param
  intermediate : Option Char
  deriving DecidableEq, Repr

inductive DecMode where
  | cursorKeys
  | origin
  | autoWrap
  | textCursorEnable
  | altScreenBuffer
  | saveCursor
  | saveCursorAltScreenBuffer
  deriving DecidableEq, Repr

def decMode (p : Param) : Option DecMode :=
  match p.number with
  | 1 => some .cursorKeys
  | 6 => some .origin
  | 7 => some .autoWrap
  | 25 => some .textCursorEnable
  | 47 => some .altScreenBuffer
  | 1047 => some .altScreenBuffer
  | 1048 => some .saveCursor
  | 1049 => some .saveCursorAltScreenBuffer
  | _ => none

inductive Control where
  | decset (modes : List DecMode)
  | decrst (modes : List DecMode)
  | decstr
  | ris
  | other
  deriving DecidableEq, Repr

namespace Parser

def new : Parser := ⟨.ground, [], .clear, none⟩

def clear (p : Parser) : Parser := { p with done := [], current := .clear, intermediate := none }

def collect (p : Parser) (input : Char) : Parser := { p with intermediate := some input }

def param (p : Parser) (input : Char) : Parser :=
  if input = ';' then
    -- the last parameter stays the current one
    if p.done.length + 1 = paramsLen then p else { p with done := p.done ++ [p.current], current := .clear }
  else if input = ':' then { p with current := p.current.addPart }
  else { p with current := p.current.addDigit (input.toNat - 0x30) }

def params (p : Parser) : List Param := p.done ++ [p.current]

def escDispatch (p : Parser) (input : Char) : Control := if p.intermediate = none ∧ input = 'c' then .ris else .other

def csiDispatch (p : Parser) (input : Char) : Control :=
  match p.intermediate with
  | some '!' => if input = 'p' then .decstr else .other
  | some '?' =>
    if input = 'h' then .decset (p.params.filterMap decMode)
    else if input = 'l' then .decrst (p.params.filterMap decMode)
    else .other
  | _ => .other

def goto (p : Parser) (state : State) : Parser := { p with state := state }

/-- What `n` leads to from every state. -/
def anywhere (p : Parser) (n : Nat) : Option Parser :=
  if n = 0x1b then some (p.clear.goto .escape)
  else if n = 0x18 ∨ n = 0x1a ∨ (0x80 ≤ n ∧ n ≤ 0x8f) ∨ (0x91 ≤ n ∧ n ≤ 0x97) ∨ n = 0x99 ∨ n = 0x9a then some (p.goto .ground)
  else if n = 0x98 ∨ n = 0x9e ∨ n = 0x9f then some (p.goto .sosPmApcString)
  else if n = 0x9c then some (p.goto .ground)
  else if n = 0x9d then some (p.goto .oscString)
  else if n = 0x90 then some (p.clear.goto .dcsEntry)
  else if n = 0x9b then some (p.clear.goto .csiEntry)
  else none

/-- The other characters, which are below `0x80`; `n` is what `input` counts as. -/
def within (p : Parser) (n : Nat) (input : Char) : Parser × Control :=
  match p.state with
  | .ground => (p, .other)
  | .escape =>
    if n ≤ 0x1f then (p, .other)
    else if n ≤ 0x2f then ((p.collect input).goto .escapeIntermediate, .other)
    else if n = 0x50 then (p.clear.goto .dcsEntry, .other)
    else if n = 0x58 ∨ n = 0x5e ∨ n = 0x5f then (p.goto .sosPmApcString, .other)
    else if n = 0x5b then (p.clear.goto .csiEntry, .other)
    else if n = 0x5d then (p.goto .oscString, .other)
    else if n ≤ 0x7e then (p.goto .ground, p.escDispatch input)
    else (p, .other)
  | .escapeIntermediate =>
    if n ≤ 0x1f then (p, .other)
    else if n ≤ 0x2f then (p.collect input, .other)
    else if n ≤ 0x7e then (p.goto .ground, p.escDispatch input)
    else (p, .other)
  | .csiEntry =>
    if n ≤ 0x1f then (p, .other)
    else if n ≤ 0x2f then ((p.collect input).goto .csiIntermediate, .other)
    else if n = 0x3a then (p.goto .csiIgnore, .other)
    else if n ≤ 0x3b then ((p.param input).goto .csiParam, .other)
    else if n ≤ 0x3f then ((p.collect input).goto .csiParam, .other)
    else if n ≤ 0x7e then (p.goto .ground, p.csiDispatch input)
    else (p, .other)
  | .csiParam =>
    if n ≤ 0x1f then (p, .other)
    else if n ≤ 0x2f then ((p.collect input).goto .csiIntermediate, .other)
    else if n ≤ 0x3b then (p.param input, .other)
    else if n ≤ 0x3f then (p.goto .csiIgnore, .other)
    else if n ≤ 0x7e then (p.goto .ground, p.csiDispatch input)
    else (p, .other)
  | .csiIntermediate =>
    if n ≤ 0x1f then (p, .other)
    else if n ≤ 0x2f then (p.collect input, .other)
    else if n ≤ 0x3f then (p.goto .csiIgnore, .other)
    else if n ≤ 0x7e then (p.goto .ground, p.csiDispatch input)
    else (p, .other)
  | .csiIgnore => if 0x40 ≤ n ∧ n ≤ 0x7e then (p.goto .ground, .other) else (p, .other)
  | .dcsEntry =>
    if n ≤ 0x1f then (p, .other)
    else if n ≤ 0x2f then ((p.collect input).goto .dcsIntermediate, .other)
    else if n = 0x3a then (p.goto .dcsIgnore, .other)
    else if n ≤ 0x3b then ((p.param input).goto .dcsParam, .other)
    else if n ≤ 0x3f then ((p.collect input).goto .dcsParam, .other)
    else if n ≤ 0x7e then (p.goto .dcsPassthrough, .other)
    else (p, .other)
  | .dcsParam =>
    if n ≤ 0x1f then (p, .other)
    else if n ≤ 0x2f then ((p.collect input).goto .dcsIntermediate, .other)
    else if n ≤ 0x39 ∨ n = 0x3b then (p.param input, .other)
    else if n ≤ 0x3f then (p.goto .dcsIgnore, .other)
    else if n ≤ 0x7e then (p.goto .dcsPassthrough, .other)
    else (p, .other)
  | .dcsIntermediate =>
    if n ≤ 0x1f then (p, .other)
    else if n ≤ 0x2f then (p.collect input, .other)
    else if n ≤ 0x3f then (p.goto .dcsIgnore, .other)
    else if n ≤ 0x7e then (p.goto .dcsPassthrough, .other)
    else (p, .other)
  | .dcsPassthrough => (p, .other)
  | .dcsIgnore => (p, .other)
  | .oscString => if n = 0x07 then (p.goto .ground, .other) else (p, .other)
  | .sosPmApcString => (p, .other)

/-- `input2`. -/
def code (input : Char) : Nat := if 0xa0 ≤ input.toNat then 0x41 else input.toNat

def feed (p : Parser) (input : Char) : Parser × Control :=
  match p.anywhere (code input) with
  | some p' => (p', .other)
  | none => p.within (code input) input

end Parser

/-- The parser, and whether the cursor keys are in application mode. -/
structure Vt where
  parser : Parser
  cursorKeys : Bool
  deriving DecidableEq, Repr

namespace Vt

def new : Vt := ⟨.new, false⟩

/-- A soft reset leaves the cursor keys as they are. -/
def execute (cursorKeys : Bool) : Control → Bool
  | .decset modes => if .cursorKeys ∈ modes then true else cursorKeys
  | .decrst modes => if .cursorKeys ∈ modes then false else cursorKeys
  | .decstr => cursorKeys
  | .ris => false
  | .other => cursorKeys

def feed (v : Vt) (input : Char) : Vt :=
  let (parser, fun_) := v.parser.feed input
  ⟨parser, execute v.cursorKeys fun_⟩

end Vt

/-! ## The emulator outside control sequences, and inside -/

/-- Not in the middle of anything that ends in a set or a reset. -/
def Quiet (p : Parser) : Prop :=
  match p.state with
  | .escape | .csiEntry | .csiParam | .csiIntermediate | .csiIgnore => False
  | .escapeIntermediate => p.intermediate ≠ none
  | _ => True

def InCsi (p : Parser) : Prop :=
  p.state = .csiEntry ∨ p.state = .csiParam ∨ p.state = .csiIntermediate ∨ p.state = .csiIgnore

theorem escDispatch_other {p : Parser} {ch : Char} (h : p.intermediate ≠ none) : p.escDispatch ch = .other :=
  if_neg fun hc => h hc.1

theorem csiDispatch_other {p : Parser} {ch : Char} (hp : ch ≠ 'p') (hh : ch ≠ 'h') (hl : ch ≠ 'l') :
    p.csiDispatch ch = .other := by
  unfold Parser.csiDispatch
  split
  · exact if_neg hp
  · rw [if_neg hh, if_neg hl]
  · rfl

theorem code_low {ch : Char} (h : ch.toNat < 0xa0) : Parser.code ch = ch.toNat := if_neg (by omega)

theorem feed_escape {p : Parser} {ch : Char} (h : ch.toNat = 0x1b) : p.feed ch = (p.clear.goto .escape, .other) := by
  unfold Parser.feed
  rw [code_low (by omega), h]
  rfl

theorem feed_csi {p : Parser} {ch : Char} (h : ch.toNat = 0x9b) : p.feed ch = (p.clear.goto .csiEntry, .other) := by
  unfold Parser.feed
  rw [code_low (by omega), h]
  rfl

/-- From any state the other characters of this kind lead outside. -/
theorem anywhere_quiet {p p' : Parser} {n : Nat} (h1b : n ≠ 0x1b) (h9b : n ≠ 0x9b) (h : p.anywhere n = some p') : Quiet p' := by
  unfold Parser.anywhere at h
  rw [if_neg h1b, if_neg h9b] at h
  repeat' split at h
  all_goals first | (obtain rfl := Option.some.inj h; exact trivial) | cases h

theorem anywhere_low {p : Parser} {n : Nat} (hn : n < 0x80) (h1b : n ≠ 0x1b) (h18 : n ≠ 0x18) (h1a : n ≠ 0x1a) :
    p.anywhere n = none := by
  unfold Parser.anywhere
  rw [if_neg h1b, if_neg (by omega), if_neg (by omega), if_neg (by omega), if_neg (by omega),
    if_neg (by omega), if_neg (by omega)]

theorem low_of_anywhere {p : Parser} {ch : Char} (h : p.anywhere (Parser.code ch) = none) :
    Parser.code ch < 0x80 ∧ Parser.code ch ≠ 0x1b ∧ Parser.code ch ≠ 0x18 ∧ Parser.code ch ≠ 0x1a := by
  have hlt : Parser.code ch < 0xa0 := by
    unfold Parser.code
    split <;> omega
  unfold Parser.anywhere at h
  repeat' split at h
  all_goals first | (refine ⟨?_, ?_, ?_, ?_⟩ <;> omega) | cases h

theorem Quiet.collect {p : Parser} (h : Quiet p) (ch : Char) : Quiet (p.collect ch) := by
  unfold Quiet Parser.collect at *
  rcases hs : p.state <;> rw [hs] at h <;> first | exact h | exact Option.some_ne_none ch

theorem param_state (p : Parser) (ch : Char) : (p.param ch).state = p.state := by
  unfold Parser.param
  repeat' split
  all_goals rfl

theorem param_intermediate (p : Parser) (ch : Char) : (p.param ch).intermediate = p.intermediate := by
  unfold Parser.param
  repeat' split
  all_goals rfl

theorem Quiet.param {p : Parser} (h : Quiet p) (ch : Char) : Quiet (p.param ch) := by
  unfold Quiet at *
  rw [param_state, param_intermediate]
  exact h

theorem within_quiet {p : Parser} (h : Quiet p) (n : Nat) (ch : Char) :
    Quiet (p.within n ch).1 ∧ (p.within n ch).2 = .other := by
  have hp := h
  unfold Quiet at hp
  unfold Parser.within
  rcases hs : p.state <;> rw [hs] at hp <;> simp only <;> try exact False.elim hp
  case escapeIntermediate =>
    repeat' split
    · exact ⟨h, rfl⟩
    · exact ⟨h.collect ch, rfl⟩
    · exact ⟨trivial, escDispatch_other hp⟩
    · exact ⟨h, rfl⟩
  all_goals repeat' split
  all_goals first
    | exact ⟨h, trivial⟩ | exact ⟨h, rfl⟩ | exact ⟨h.collect ch, rfl⟩
    | exact ⟨h.param ch, rfl⟩ | exact ⟨trivial, rfl⟩

theorem feed_quiet {p : Parser} (h : Quiet p) {ch : Char} (h1b : ch.toNat ≠ 0x1b) (h9b : ch.toNat ≠ 0x9b) :
    Quiet (p.feed ch).1 ∧ (p.feed ch).2 = .other := by
  have hcode : Parser.code ch ≠ 0x1b ∧ Parser.code ch ≠ 0x9b := by
    unfold Parser.code
    split <;> omega
  unfold Parser.feed
  rcases ha : p.anywhere (Parser.code ch) with _ | p'
  · exact within_quiet h _ ch
  · exact ⟨anywhere_quiet hcode.1 hcode.2 ha, rfl⟩

/-- After an escape, everything but what opens a control sequence, resets, or leaves the
    escape open. -/
theorem feed_escaped {p : Parser} (hs : p.state = .escape) {ch : Char} (h9b : ch.toNat ≠ 0x9b) (h7f : ch.toNat ≠ 0x7f)
    (hc0 : ¬(ch.toNat ≤ 0x1f ∧ ch.toNat ≠ 0x18 ∧ ch.toNat ≠ 0x1a)) (hopen : ch ≠ '[') (hris : ch ≠ 'c') :
    Quiet (p.feed ch).1 ∧ (p.feed ch).2 = .other := by
  have hopen : ch.toNat ≠ 0x5b := fun h => hopen (Char.toNat_inj.mp h)
  have hcode : Parser.code ch ≠ 0x1b ∧ Parser.code ch ≠ 0x9b ∧ Parser.code ch ≠ 0x7f ∧ Parser.code ch ≠ 0x5b ∧
      (Parser.code ch ≤ 0x1f → Parser.code ch = 0x18 ∨ Parser.code ch = 0x1a) := by
    unfold Parser.code
    split <;> omega
  unfold Parser.feed
  rcases ha : p.anywhere (Parser.code ch) with _ | p'
  · obtain ⟨hlow, -, h18, h1a⟩ := low_of_anywhere ha
    simp only [Parser.within, hs]
    rw [if_neg (by omega)]
    repeat' split
    · exact ⟨nofun, rfl⟩
    · exact ⟨trivial, rfl⟩
    · exact ⟨trivial, rfl⟩
    · exact absurd ‹_› hcode.2.2.2.1
    · exact ⟨trivial, rfl⟩
    · exact ⟨trivial, if_neg fun h => hris h.2⟩
    · omega
  · exact ⟨anywhere_quiet hcode.1 hcode.2.1 ha, rfl⟩

theorem feed_open {p : Parser} (hs : p.state = .escape) : p.feed '[' = (p.clear.goto .csiEntry, .other) := by
  obtain ⟨state, done, current, intermediate⟩ := p
  subst hs
  rfl

theorem feed_ris {p : Parser} (hs : p.state = .escape) (hi : p.intermediate = none) : p.feed 'c' = (p.goto .ground, .ris) := by
  obtain ⟨state, done, current, intermediate⟩ := p
  subst hs hi
  rfl

theorem feed_csi_control {p : Parser} (hp : InCsi p) {ch : Char} (hlt : ch.toNat ≤ 0x1f) (h1b : ch.toNat ≠ 0x1b)
    (h18 : ch.toNat ≠ 0x18) (h1a : ch.toNat ≠ 0x1a) : p.feed ch = (p, .other) := by
  unfold Parser.feed
  rw [code_low (by omega), anywhere_low (by omega) h1b h18 h1a]
  have hfinal : ¬(0x40 ≤ ch.toNat ∧ ch.toNat ≤ 0x7e) := by omega
  obtain hs | hs | hs | hs := hp <;> simp only [Parser.within, hs]
  · rw [if_pos hlt]
  · rw [if_pos hlt]
  · rw [if_pos hlt]
  · rw [if_neg hfinal]

theorem feed_csi_final {p : Parser} (hp : InCsi p) {ch : Char} (hlo : 0x40 ≤ ch.toNat) (hhi : ch.toNat ≤ 0x7e) :
    p.feed ch = (p.goto .ground, if p.state = .csiIgnore then .other else p.csiDispatch ch) := by
  unfold Parser.feed
  rw [code_low (by omega), anywhere_low (by omega) (by omega) (by omega) (by omega)]
  obtain hs | hs | hs | hs := hp <;> simp only [Parser.within, hs]
  · rw [if_neg (by omega), if_neg (by omega), if_neg (by omega), if_neg (by omega), if_neg (by omega), if_pos hhi]
    rfl
  · rw [if_neg (by omega), if_neg (by omega), if_neg (by omega), if_neg (by omega), if_pos hhi]
    rfl
  · rw [if_neg (by omega), if_neg (by omega), if_neg (by omega), if_pos hhi]
    rfl
  · rw [if_pos ⟨hlo, hhi⟩]
    rfl

/-- What else ends a control sequence. -/
theorem feed_csi_abort {p : Parser} (hp : InCsi p) {ch : Char} (h9b : ch.toNat ≠ 0x9b)
    (h : 0x80 ≤ ch.toNat ∨ ch.toNat = 0x18 ∨ ch.toNat = 0x1a) : Quiet (p.feed ch).1 ∧ (p.feed ch).2 = .other := by
  unfold Parser.feed
  rcases ha : p.anywhere (Parser.code ch) with _ | p'
  · -- a character past U+009F is a final one, but none of those that matter
    obtain ⟨hlow, -, h18, h1a⟩ := low_of_anywhere ha
    have hcode : Parser.code ch = 0x41 := by
      unfold Parser.code at hlow h18 h1a ⊢
      split at hlow <;> simp_all
      omega
    have hne : ∀ k : Char, k.toNat < 0x80 → k.toNat ≠ 0x18 → k.toNat ≠ 0x1a → ch ≠ k := by
      rintro k hk hk18 hk1a rfl
      omega
    have hother := csiDispatch_other (p := p) (hne 'p' (by decide) (by decide) (by decide))
      (hne 'h' (by decide) (by decide) (by decide))
      (hne 'l' (by decide) (by decide) (by decide))
    rw [hcode]
    obtain hs | hs | hs | hs := hp <;> simp only [Parser.within, hs]
    · exact ⟨trivial, hother⟩
    · exact ⟨trivial, hother⟩
    · exact ⟨trivial, hother⟩
    · exact ⟨trivial, rfl⟩
  · refine ⟨anywhere_quiet ?_ ?_ ha, rfl⟩
    · unfold Parser.code
      split <;> omega
    · unfold Parser.code
      split <;> omega

theorem feed_csi_middle {p : Parser} (hp : InCsi p) {ch : Char} (hlo : 0x20 ≤ ch.toNat) (hhi : ch.toNat ≤ 0x3f) :
    InCsi (p.feed ch).1 ∧ (p.feed ch).2 = .other := by
  unfold Parser.feed
  rw [code_low (by omega), anywhere_low (by omega) (by omega) (by omega) (by omega)]
  obtain hs | hs | hs | hs := id hp <;> simp only [Parser.within, hs]
  · rw [if_neg (by omega)]
    repeat' split
    · exact ⟨.inr (.inr (.inl rfl)), rfl⟩
    · exact ⟨.inr (.inr (.inr rfl)), rfl⟩
    · exact ⟨.inr (.inl rfl), rfl⟩
    · exact ⟨.inr (.inl rfl), rfl⟩
  · rw [if_neg (by omega)]
    repeat' split
    · exact ⟨.inr (.inr (.inl rfl)), rfl⟩
    · exact ⟨.inr (.inl ((param_state p ch).trans hs)), rfl⟩
    · exact ⟨.inr (.inr (.inr rfl)), rfl⟩
  · rw [if_neg (by omega)]
    repeat' split
    · exact ⟨.inr (.inr (.inl hs)), rfl⟩
    · exact ⟨.inr (.inr (.inr rfl)), rfl⟩
  · rw [if_neg (by omega)]
    exact ⟨hp, rfl⟩

/-- Where a `!` leads. -/
def Banged (p : Parser) : Prop := (p.state = .csiIntermediate ∧ p.intermediate = some '!') ∨ p.state = .csiIgnore

theorem feed_bang {p : Parser} (hp : InCsi p) : Banged (p.feed '!').1 := by
  obtain ⟨state, done, current, intermediate⟩ := p
  obtain hs | hs | hs | hs := hp <;> obtain rfl := hs
  · exact .inl ⟨rfl, rfl⟩
  · exact .inl ⟨rfl, rfl⟩
  · exact .inl ⟨rfl, rfl⟩
  · exact .inr rfl

/-- After a `!` the parameters are past. -/
theorem Banged.feed {p : Parser} (hp : Banged p) {ch : Char} (hlo : 0x30 ≤ ch.toNat) (hhi : ch.toNat ≤ 0x3f) :
    Banged (p.feed ch).1 := by
  unfold Parser.feed
  rw [code_low (by omega), anywhere_low (by omega) (by omega) (by omega) (by omega)]
  obtain ⟨hs, -⟩ | hs := id hp <;> simp only [Parser.within, hs]
  · rw [if_neg (by omega), if_neg (by omega), if_pos hhi]
    exact .inr rfl
  · rw [if_neg (by omega)]
    exact hp

theorem feed_private {p : Parser} (hs : p.state = .csiEntry) : p.feed '?' = ((p.collect '?').goto .csiParam, .other) := by
  obtain ⟨state, done, current, intermediate⟩ := p
  subst hs
  rfl

theorem feed_param {p : Parser} (hp : p.state = .csiEntry ∨ p.state = .csiParam) {ch : Char}
    (hch : (0x30 ≤ ch.toNat ∧ ch.toNat ≤ 0x39) ∨ ch.toNat = 0x3b) : p.feed ch = ((p.param ch).goto .csiParam, .other) := by
  unfold Parser.feed
  rw [code_low (by omega), anywhere_low (by omega) (by omega) (by omega) (by omega)]
  obtain hs | hs := hp <;> simp only [Parser.within, hs]
  · rw [if_neg (by omega), if_neg (by omega), if_neg (by omega), if_pos (by omega)]
  · rw [if_neg (by omega), if_neg (by omega), if_pos (by omega)]
    have : (p.param ch).goto .csiParam = p.param ch := by
      rw [Parser.goto, ← hs, ← param_state p ch]
    rw [this]

end Holdfast.Terminal.Avt

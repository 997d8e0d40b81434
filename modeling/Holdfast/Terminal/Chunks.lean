/-
  Holdfast.Terminal.Chunks — the terminal model over the vendored emulator, and what the cuts
  between reads do to it (`TerminalModel::feed` of `crates/terminal-model/src/lib.rs`,
  `Vt::feed_str` of `vendor/avt/src/vt.rs`, `Terminal::gc`, `Terminal::hard_reset`).

  Lines that scroll off the primary screen are handed over once a read, by the screen that is
  active then. A full reset throws away those that were not handed over yet, and none are while
  the alternate screen is active.

  Proved: `cuts_matter_iff`: the history, the screen and the modes are the same for all cuts of
  some bytes just when no full reset, and no end on the alternate screen, finds lines that
  have scrolled off since the last reset.
-/

import Holdfast.Terminal.Offscreen
import Holdfast.Terminal.OneShot
import Holdfast.Terminal.Snapshot

namespace Holdfast.Terminal

/-! ## What a model hands to its history -/

namespace TerminalModel

variable {V : Type} (avt : Avt V)

/-- The lines that `feed` commits. -/
def added (m : TerminalModel V) (bytes : List UInt8) : List Text :=
  if (m.utf8.push bytes).1.isEmpty then [] else (avt.feedStr m.vt (m.utf8.push bytes).1).2.map trimEnd

/-- The lines that feeding the chunks commits, in their order: the first has the id 1. -/
def committed (m : TerminalModel V) : List (List UInt8) → List Text
  | [] => []
  | chunk :: chunks => added avt m chunk ++ committed (m.feed avt chunk) chunks

theorem feed_history (m : TerminalModel V) (bytes : List UInt8) :
    (m.feed avt bytes).history = m.history.pushAll (added avt m bytes) := by
  unfold feed added
  simp only
  split <;> rfl

theorem feedAll_history (m : TerminalModel V) (chunks : List (List UInt8)) :
    (feedAll avt m chunks).history = m.history.pushAll (committed avt m chunks) := by
  induction chunks generalizing m with
  | nil => rfl
  | cons chunk chunks ih =>
    show (feedAll avt (m.feed avt chunk) chunks).history = m.history.pushAll
      (added avt m chunk ++ committed avt (m.feed avt chunk) chunks)
    rw [ih, feed_history, HistoryRing.pushAll, HistoryRing.pushAll, HistoryRing.pushAll, List.foldl_append]

theorem feedAll_modes (m : TerminalModel V) (chunks : List (List UInt8)) :
    (feedAll avt m chunks).modes = m.modes.scan (m.utf8.pushAll chunks).1 := by
  induction chunks generalizing m with
  | nil => rfl
  | cons chunk chunks ih =>
    show (feedAll avt (m.feed avt chunk) chunks).modes = _
    rw [ih, feed_utf8, feed_modes]
    simp only [IncrementalUtf8.pushAll, ModeTracker.scan_append]

end TerminalModel

/-- A part of a text is the text of a part of the bytes. -/
theorem OneShot.split {bytes : List UInt8} {text : Text} {p : List UInt8} (h : OneShot bytes text p)
    {a b : Text} (hab : text = a ++ b) :
    ∃ l m, bytes = l ++ m ∧ OneShot l a [] ∧ OneShot m b p := by
  induction h generalizing a with
  | nil =>
    obtain ⟨rfl, rfl⟩ := List.append_eq_nil_iff.mp hab.symm
    exact ⟨[], [], rfl, .nil, .nil⟩
  | @keep c l t p h ih =>
    cases a with
    | nil =>
      obtain rfl : c :: t = b := hab
      exact ⟨[], _, rfl, .nil, .keep c h⟩
    | cons d a =>
      obtain ⟨rfl, htail⟩ := List.cons.inj hab
      obtain ⟨l', m, rfl, hl, hm⟩ := ih htail
      exact ⟨_, m, (List.append_assoc _ _ _).symm, .keep c hl, hm⟩
  | pending hne hcut =>
    obtain ⟨rfl, rfl⟩ := List.append_eq_nil_iff.mp hab.symm
    exact ⟨[], _, rfl, .nil, .pending hne hcut⟩
  | @drop q l t p hmax h ih =>
    cases a with
    | nil =>
      obtain rfl : t = b := hab
      exact ⟨[], _, rfl, .nil, .drop hmax h⟩
    | cons d a =>
      obtain ⟨l', m, rfl, hl, hm⟩ := ih hab
      refine ⟨q ++ l', m, (List.append_assoc _ _ _).symm, .drop ?_ hl, hm⟩
      -- what follows the invalid bytes is in the first part, as that has a character
      cases l' with
      | nil => exact nomatch (oneShot_iff.mp hl).unique .nil
      | cons x l' =>
        cases hmax with
        | lone hb => exact .lone hb
        | broken hne hcut hx => exact .broken hne hcut hx

end Holdfast.Terminal

namespace Holdfast.Vendor

open Holdfast.Terminal Holdfast.Base.Total
open Avt (DecMode)

def Line.text (l : Line) : Text := l.cells.flatMap fun c => if c.occupancy = .wideTail then [] else c.ch :: c.zeroWidth

namespace Terminal

variable {gone : List Line} {u t : Terminal}

theorem Alongside.view (h : Alongside gone u t) :
    u.view = t.view ∧ u.cursor = t.cursor ∧ u.activeBufferType = t.activeBufferType := by
  have hdrop : ∀ {junk : List Line} {b b' : Buffer}, Buffer.Behind t.cols t.rows junk b b' →
      b.lines.drop (b.lines.length - b.rows) = b'.lines.drop (b'.lines.length - b'.rows) := fun {junk b b'} hb => by
    have hroom := hb.room
    rw [hb.sameRows.1, hb.sameRows.2, hb.lines, List.length_append,
      show junk.length + b'.lines.length - t.rows =
        junk.length + (b'.lines.length - t.rows) by omega, List.drop_length_add_append]
  cases h with
  | primary hactive hlimit hb => exact ⟨hdrop hb, rfl, rfl⟩
  | alternate hactive hlimit ho hb => exact ⟨hdrop hb, rfl, rfl⟩

theorem Alongside.pending (h : Alongside gone u t) : u.pending = gone ++ t.pending := by
  have htake : ∀ {b b' : Buffer}, Buffer.Behind t.cols t.rows gone b b' →
      b.lines.take (b.lines.length - t.rows) = gone ++ b'.lines.take (b'.lines.length - t.rows) := fun {b b'} hb => by
    have hroom := hb.room
    rw [hb.lines, List.length_append, show gone.length + b'.lines.length - t.rows =
      gone.length + (b'.lines.length - t.rows) by omega,
      List.take_length_add_append]
  cases h with
  | @primary t b o hactive hlimit hb =>
    rw [pending_primary (t := { t with buffer := b, otherBuffer := o }) hactive, pending_primary hactive]
    exact htake hb
  | @alternate t b o junk hactive hlimit ho hb =>
    rw [pending_alternate (t := { t with buffer := b, otherBuffer := o }) hactive, pending_alternate hactive]
    exact htake ho

/-- Everything that has scrolled off the primary screen was let go of. -/
def Settled (t : Terminal) : Prop := t.activeBufferType = .primary → t.pending = []

/-- Lines are handed over by the primary screen only. -/
theorem Alongside.gc (h : Alongside gone u t) : Gives t.gc fun r => Alongside (gone ++ r.2) u r.1 ∧ r.1.Settled ∧
    (t.activeBufferType = .alternate → r.2 = []) ∧ r.1.activeBufferType = t.activeBufferType := by
  unfold Terminal.gc
  cases h with
  | @primary t b o hactive hlimit hb =>
    refine hb.gc.bind fun r hgc => gives_pure ?_
    obtain ⟨c, lines⟩ := r
    obtain ⟨hr, hlen, -⟩ := hgc
    rw [if_neg (by rw [hactive]; exact nofun)]
    refine ⟨.primary (t := { t with buffer := c }) hactive hlimit hr, fun _ => ?_, fun h => ?_, rfl⟩
    · have hlen : c.lines.length = t.rows := hlen
      rw [pending_primary (t := { t with buffer := c }) hactive]
      show c.lines.take (c.lines.length - t.rows) = []
      rw [hlen, Nat.sub_self, List.take_zero]
    · rw [hactive] at h
      cases h
  | @alternate t b o junk hactive hlimit ho hb =>
    refine hb.gc.bind fun r hgc => gives_pure ?_
    obtain ⟨c, lines⟩ := r
    obtain ⟨hr, -, -⟩ := hgc
    rw [if_pos hactive, List.append_nil]
    refine ⟨.alternate (t := { t with buffer := c }) hactive hlimit ho hr, fun h => ?_, fun _ => rfl, rfl⟩
    have h : t.activeBufferType = .primary := h
    rw [hactive] at h
    cases h

end Terminal

namespace Vt

variable (width : Char → Nat) (dump : Option Vt → Text)

/-- The emulator as a terminal model has it: it keeps no line that scrolled off. -/
def avt : Avt (Option Vt) where
  build cols rows := some (.new cols rows (some 0))
  feed vt ch := vt.bind (feed width · ch)
  gc vt :=
    match vt.bind fun vt => vt.terminal.gc.map fun r => ({ vt with terminal := r.1 }, r.2) with
    | some (vt, lines) => (some vt, lines.map Line.text)
    | none => (none, [])
  resize vt cols rows := vt.bind fun vt => (vt.terminal.resize cols rows).map fun terminal => { vt with terminal := terminal }
  dump := dump

/-- The text fed to a fresh emulator that keeps every line. -/
def run (cols rows : Nat) (text : Text) : Option Vt := text.foldlM (feed width) (.new cols rows (some 0))

/-- What a client sees of an emulator. -/
def screen (vt : Vt) : List Line × Cursor := (vt.terminal.view, vt.terminal.cursor)

/-- No full reset in a text finds lines that have scrolled off the primary screen. -/
def Keeps (vt : Vt) (text : Text) : Prop :=
  ∀ seen ch rest vt', text = seen ++ ch :: rest → seen.foldlM (feed width) vt = some vt' →
  (vt'.parser.feed ch).2 = some .ris → vt'.terminal.pending = []

/-- Nor are any left behind the alternate screen in the end. -/
structure Kept (cols rows : Nat) (text : Text) : Prop where
  resets : Keeps width (.new cols rows (some 0)) text
  finish : ∀ vt, run width cols rows text = some vt → vt.terminal.activeBufferType = .alternate → vt.terminal.pending = []

/-- However the bytes are cut, the model ends with the same screen and modes and has committed the
    same lines. -/
def Indifferent (config : TerminalModelConfig) (bytes : List UInt8) : Prop :=
  let start := TerminalModel.new (avt width dump) config
  ∀ chunks chunks' : List (List UInt8), chunks.flatten = bytes → chunks'.flatten = bytes →
    let m := TerminalModel.feedAll (avt width dump) start chunks
    let m' := TerminalModel.feedAll (avt width dump) start chunks'
    m.vt.map screen = m'.vt.map screen ∧ m.modes = m'.modes ∧ m.history = m'.history ∧
      TerminalModel.committed (avt width dump) start chunks = TerminalModel.committed (avt width dump) start chunks'

/-! ### Two emulators -/

/-- `u` still has the lines `gone` that `v` has let go of. -/
def Beyond (gone : List Line) (u v : Vt) : Prop := u.parser = v.parser ∧ Terminal.Alongside gone u.terminal v.terminal

theorem beyond_new (cols rows : Nat) : Beyond [] (.new cols rows (some 0)) (.new cols rows (some 0)) :=
  ⟨rfl, .primary (t := .new cols rows (some 0)) rfl rfl (Terminal.behind_new _ _ _)⟩

theorem pending_new (cols rows : Nat) : (Terminal.new cols rows (some 0)).pending = [] := by
  rw [Terminal.pending_primary rfl]
  show (List.replicate rows (Line.blank cols .default)).take ((List.replicate rows (Line.blank cols .default)).length - rows) = []
  rw [List.length_replicate, Nat.sub_self, List.take_zero]

variable {width} {gone : List Line} {u v w : Vt} {ch : Char} {text : Text}

theorem Beyond.feed (h : Beyond gone u v) (hf : (u.parser.feed ch).2 ≠ some .ris) :
    Option.Rel (fun u' v' => Beyond gone u' v' ∧
      (u'.terminal.activeBufferType = .alternate → u'.terminal.pending = u.terminal.pending))
      (u.feed width ch) (v.feed width ch) := by
  unfold Vt.feed
  rw [← h.1]
  cases hfeed : (u.parser.feed ch).2 with
  | none => exact .some ⟨⟨rfl, h.2⟩, fun _ => rfl⟩
  | some f =>
    have hne : f ≠ .ris := fun hris => hf (hris ▸ hfeed)
    exact rel_bind (h.2.execute hne) fun u' v' h' => rel_pure ⟨⟨rfl, h'.1⟩, h'.2⟩

variable (width) in
/-- A full reset makes them the same. -/
theorem Beyond.feed_ris (h : Beyond gone u v) (hf : (u.parser.feed ch).2 = some .ris) :
    u.feed width ch = v.feed width ch ∧ Gives (v.feed width ch) fun w => Beyond [] w w ∧
    w.terminal.activeBufferType = .primary := by
  obtain ⟨hsame, hreset⟩ := h.2.reset
  unfold Vt.feed
  rw [← h.1, hf]
  refine ⟨?_, gives_some.mpr ⟨⟨rfl, hreset⟩, rfl⟩⟩
  show some (Vt.mk _ u.terminal.hardReset) = some (Vt.mk _ v.terminal.hardReset)
  rw [hsame]

theorem Keeps.tail (h : Keeps width u (ch :: text)) (hw : u.feed width ch = some w) : Keeps width w text := by
  intro seen ch' rest vt htext hrun
  refine h (ch :: seen) ch' rest vt (by rw [htext, List.cons_append]) ?_
  rw [List.foldlM_cons, hw]
  exact hrun

theorem Keeps.append {more : Text} (h : Keeps width u (text ++ more)) :
    Keeps width u text ∧ ∀ w, text.foldlM (Vt.feed width) u = some w → Keeps width w more := by
  refine ⟨fun seen ch rest vt htext hrun =>
    h seen ch (rest ++ more) vt (by rw [htext, List.append_assoc, List.cons_append]) hrun, ?_⟩
  intro w hw seen ch rest vt hmore hrun
  refine h (text ++ seen) ch rest vt (by rw [hmore, List.append_assoc]) ?_
  rw [List.foldlM_append, hw]
  exact hrun

/-- What was let go of makes no difference, if nothing that is left is thrown away. -/
theorem Beyond.run (h : Beyond gone u v) (hk : Keeps width u text) :
    Option.Rel (Beyond gone) (text.foldlM (Vt.feed width) u) (text.foldlM (Vt.feed width) v) := by
  induction text generalizing u v with
  | nil => exact .some h
  | cons ch text ih =>
    rw [List.foldlM_cons, List.foldlM_cons]
    by_cases hris : (u.parser.feed ch).2 = some .ris
    · obtain ⟨hsame, w, hw, hb, -⟩ := h.feed_ris width hris
      have hpending := hk [] ch text u rfl rfl hris
      rw [h.2.pending] at hpending
      obtain ⟨rfl, -⟩ := List.append_eq_nil_iff.mp hpending
      rw [hsame, hw]
      exact ih hb (hk.tail (hsame.trans hw))
    · cases hu : u.feed width ch with
      | none =>
        rw [rel_none (h.feed hris) hu]
        exact .none
      | some u' =>
        obtain ⟨v', hv, hb, -⟩ := rel_some (h.feed hris) hu
        rw [hv]
        exact ih hb (hk.tail hu)

variable (width) in
/-- In any case the two are alike, or the same since a full reset. -/
theorem Beyond.run_or (h : Beyond gone u v) (text : Text) : Option.Rel (fun u' v' => Beyond gone u' v' ∨ u' = v')
    (text.foldlM (Vt.feed width) u) (text.foldlM (Vt.feed width) v) := by
  refine rel_foldlM (fun u v h ch _ => ?_) (.inl h)
  have hrefl : ∀ x : Option Vt, Option.Rel (fun u' v' => Beyond gone u' v' ∨ u' = v') x x := fun x => by
    cases x with
    | none => exact .none
    | some w => exact .some (.inr rfl)
  obtain h | rfl := h
  · by_cases hris : (u.parser.feed ch).2 = some .ris
    · rw [(h.feed_ris _ hris).1]
      exact hrefl _
    · exact rel_mono (h.feed hris) fun _ _ h' => .inl h'.1
  · exact hrefl _

/-- A sound emulator with nothing let go of. -/
structure Plain (width : Char → Nat) (u : Vt) : Prop where
  ok : Ok width u
  alone : Beyond [] u u

theorem plain_new (hspace : width ' ' = 1) {cols rows : Nat} (hcols : 0 < cols) (hrows : 0 < rows) :
    Plain width (.new cols rows (some 0)) :=
  ⟨new_ok hspace hcols hrows _, beyond_new _ _⟩

theorem plain_feed (hm : Terminal.Measures width) (h : Plain width u) (ch : Char) : Gives (u.feed width ch) (Plain width) := by
  obtain ⟨w, hw, hok⟩ := feed_ok hm h.ok ch
  refine ⟨w, hw, hok, ?_⟩
  by_cases hris : (u.parser.feed ch).2 = some .ris
  · obtain ⟨w', hw', hb, -⟩ := (h.alone.feed_ris width hris).2
    rw [hw] at hw'
    obtain rfl := Option.some.inj hw'
    exact hb
  · obtain ⟨w', hw', hb, -⟩ := rel_some (h.alone.feed hris) hw
    rw [hw] at hw'
    obtain rfl := Option.some.inj hw'
    exact hb

theorem plain_run (hm : Terminal.Measures width) (h : Plain width u) (text : Text) :
    Gives (text.foldlM (Vt.feed width) u) (Plain width) :=
  gives_foldlM (fun _ h ch _ => plain_feed hm h ch) h

/-- Before there is something behind the alternate screen, it was on the primary one. -/
theorem last_primary (hm : Terminal.Measures width) (hstart : Plain width u) (hprimary : u.terminal.activeBufferType = .primary)
    (hrun : text.foldlM (Vt.feed width) u = some v) : ∃ a b w, text = a ++ b ∧ a.foldlM (Vt.feed width) u = some w ∧
      b.foldlM (Vt.feed width) w = some v ∧ w.terminal.activeBufferType = .primary ∧ w.terminal.pending = v.terminal.pending := by
  induction text using List.reverseRecOn generalizing v with
  | nil =>
    obtain rfl : u = v := Option.some.inj hrun
    exact ⟨[], [], u, rfl, rfl, rfl, hprimary, rfl⟩
  | append_singleton text ch ih =>
    obtain ⟨v₀, hv₀, hplain⟩ := plain_run hm hstart text
    rw [List.foldlM_append, hv₀] at hrun
    have hfeed : v₀.feed width ch = some v := by simpa using hrun
    cases hactive : v.terminal.activeBufferType with
    | primary =>
      exact ⟨text ++ [ch], [], v, (List.append_nil _).symm, by rw [List.foldlM_append, hv₀]; exact hrun,
        rfl, hactive, rfl⟩
    | alternate =>
      have hris : (v₀.parser.feed ch).2 ≠ some .ris := fun hris => by
        obtain ⟨w, hw, -, hw'⟩ := (hplain.alone.feed_ris width hris).2
        rw [hfeed] at hw
        obtain rfl := Option.some.inj hw
        rw [hactive] at hw'
        cases hw'
      obtain ⟨w, hw, -, hpending⟩ := rel_some (hplain.alone.feed hris) hfeed
      obtain ⟨a, b, w', rfl, ha, hb, hw', hsame⟩ := ih hv₀
      refine ⟨a, b ++ [ch], w', List.append_assoc _ _ _, ha, ?_, hw', hsame.trans (hpending hactive).symm⟩
      rw [List.foldlM_append, hb]
      exact hrun

/-! ### Models -/

variable (dump : Option Vt → Text)

theorem feedText_some (text : Text) (v : Vt) : (avt width dump).feedText (some v) text = text.foldlM (Vt.feed width) v := by
  have hnone : ∀ text : Text, (avt width dump).feedText none text = none := fun text => by
    induction text with
    | nil => rfl
    | cons ch text ih => exact ih
  induction text generalizing v with
  | nil => rfl
  | cons ch text ih =>
    rw [Avt.feedText_cons, List.foldlM_cons]
    show (avt width dump).feedText (v.feed width ch) text = _
    cases v.feed width ch with
    | none => exact hnone text
    | some w => exact ih w

theorem gc_some {r : Terminal × List Line} (h : v.terminal.gc = some r) :
    (avt width dump).gc (some v) = (some { v with terminal := r.1 }, r.2.map Line.text) := by
  show (match v.terminal.gc.map fun r => ({ v with terminal := r.1 }, r.2) with
    | some (vt, lines) => (some vt, lines.map Line.text)
    | none => (none, [])) = _
  rw [h]
  rfl

open TerminalModel (added committed feedAll)

/-- What a history keeps of a line. -/
def kept (l : Line) : Text := TerminalModel.trimEnd l.text

/-- Some text at once. -/
theorem feed_text {m : TerminalModel (Option Vt)} {bytes : List UInt8} (hv : m.vt = some v) (htext : (m.utf8.push bytes).1 ≠ [])
    (hrun : (m.utf8.push bytes).1.foldlM (Vt.feed width) v = some w) {r : Terminal × List Line} (hgc : w.terminal.gc = some r) :
    (m.feed (avt width dump) bytes).vt = some { w with terminal := r.1 } ∧ added (avt width dump) m bytes = r.2.map kept := by
  have hstr : (avt width dump).feedStr m.vt (m.utf8.push bytes).1 = (some { w with terminal := r.1 }, r.2.map Line.text) := by
    show (avt width dump).gc ((avt width dump).feedText m.vt (m.utf8.push bytes).1) = _
    rw [hv, feedText_some, hrun, gc_some dump hgc]
  have hempty : ¬(m.utf8.push bytes).1.isEmpty = true := fun h => htext (List.isEmpty_iff.mp h)
  unfold TerminalModel.feed added
  simp only [if_neg hempty, hstr]
  refine ⟨trivial, ?_⟩
  rw [List.map_map]
  rfl

/-- Chunks of text, when nothing is thrown away: what is let go of is committed. -/
theorem feedAll_beyond (hm : Terminal.Measures width) {chunks : List (List UInt8)} {m : TerminalModel (Option Vt)}
    {u v : Vt} {gone : List Line}
    (hplain : Plain width u) (hv : m.vt = some v) (h : Beyond gone u v) (hsettled : v.terminal.Settled)
    (hk : Keeps width u (m.utf8.pushAll chunks).1) :
    ∃ u' v' lines, (m.utf8.pushAll chunks).1.foldlM (Vt.feed width) u = some u' ∧
    (feedAll (avt width dump) m chunks).vt = some v' ∧
      Beyond (gone ++ lines) u' v' ∧ v'.terminal.Settled ∧ committed (avt width dump) m chunks = lines.map kept := by
  induction chunks generalizing m u v gone with
  | nil => exact ⟨u, v, [], rfl, hv, by rwa [List.append_nil], hsettled, rfl⟩
  | cons chunk chunks ih =>
    obtain ⟨hk, hkmore⟩ := Keeps.append hk
    have hnext : (m.feed (avt width dump) chunk).utf8 = (m.utf8.push chunk).2 := TerminalModel.feed_utf8 m chunk
    -- one chunk
    obtain ⟨u', v', lines, hu', hplain', hv', h', hsettled', hadded⟩ :
      ∃ u' v' lines, (m.utf8.push chunk).1.foldlM (Vt.feed width) u = some u' ∧
        Plain width u' ∧ (m.feed (avt width dump) chunk).vt = some v' ∧ Beyond (gone ++ lines) u' v' ∧ v'.terminal.Settled ∧
        added (avt width dump) m chunk = lines.map kept := by
      by_cases htext : (m.utf8.push chunk).1 = []
      · refine ⟨u, v, [], by rw [htext]; rfl, hplain, ?_, by rwa [List.append_nil], hsettled, ?_⟩
        · unfold TerminalModel.feed
          simp only [htext, List.isEmpty_nil, if_true]
          exact hv
        · unfold TerminalModel.added
          rw [htext]
          rfl
      · obtain ⟨u', hu', hplain'⟩ := plain_run hm hplain (m.utf8.push chunk).1
        obtain ⟨v', hv', hbeyond⟩ := rel_some (h.run hk) hu'
        obtain ⟨r, hr, halong, hsettled', -, -⟩ := hbeyond.2.gc
        obtain ⟨hvt, hadded⟩ := feed_text dump hv htext hv' hr
        exact ⟨u', _, r.2, hu', hplain', hvt, ⟨hbeyond.1, halong⟩, hsettled', hadded⟩
    -- and the others
    have hkmore := hkmore u' hu'
    rw [← hnext] at hkmore
    obtain ⟨u'', v'', more, hu'', hv'', h'', hsettled'', hcommitted⟩ := ih hplain' hv' h' hsettled' hkmore
    refine ⟨u'', v'', lines ++ more, ?_, hv'', by rwa [← List.append_assoc], hsettled'', ?_⟩
    · rw [hnext] at hu''
      show ((m.utf8.push chunk).1 ++ ((m.utf8.push chunk).2.pushAll chunks).1).foldlM (Vt.feed width) u = some u''
      rw [List.foldlM_append, hu']
      exact hu''
    · show added (avt width dump) m chunk ++ committed (avt width dump) (m.feed (avt width dump) chunk) chunks = _
      rw [hadded, hcommitted, List.map_append]

theorem toNat_max_pos (a : UInt16) {b : UInt16} (h : 0 < b.toNat) : 0 < (max a b).toNat := by
  rw [show max a b = if a ≤ b then b else a from rfl]
  split
  · exact h
  · rename_i hlt
    rw [UInt16.le_iff_toNat_le] at hlt
    omega

theorem plain_start (hspace : width ' ' = 1) (config : TerminalModelConfig) :
    Plain width (.new (max config.cols minCols).toNat (max config.rows minRows).toNat (some 0)) :=
  plain_new hspace (toNat_max_pos config.cols (by decide)) (toNat_max_pos config.rows (by decide))

theorem pushAll_text (chunks : List (List UInt8)) :
    (IncrementalUtf8.new.pushAll chunks).1 = (IncrementalUtf8.new.push chunks.flatten).1 :=
  ((IncrementalUtf8.new.pushAll_decodes .nil chunks).unique (IncrementalUtf8.new.push_decodes chunks.flatten)).1

/-- With nothing to throw away, every line that has scrolled off is committed. -/
theorem kept_committed (hm : Terminal.Measures width) {config : TerminalModelConfig} {bytes : List UInt8}
    (hkept : Kept width (max config.cols minCols).toNat (max config.rows minRows).toNat (IncrementalUtf8.new.push bytes).1) :
    ∃ u, ∀ chunks : List (List UInt8), chunks.flatten = bytes →
      (∃ v, (feedAll (avt width dump) (.new (avt width dump) config) chunks).vt = some v ∧ screen v = screen u) ∧
      committed (avt width dump) (.new (avt width dump) config) chunks = u.terminal.pending.map kept := by
  have hplain := plain_start hm.space config
  obtain ⟨u, hu, -⟩ := plain_run hm hplain (IncrementalUtf8.new.push bytes).1
  refine ⟨u, fun chunks hchunks => ?_⟩
  subst hchunks
  have hk := hkept.resets
  rw [← pushAll_text] at hk hu
  obtain ⟨u', v, lines, hu', hv, h, hsettled, hcommitted⟩ := feedAll_beyond dump hm (m := .new (avt width dump) config) hplain rfl
    (beyond_new _ _) (fun _ => pending_new _ _) hk
  have hu' : some u = some u' := hu.symm.trans hu'
  obtain rfl := Option.some.inj hu'
  obtain ⟨hview, hcursor, hactive⟩ := h.2.view
  refine ⟨⟨v, hv, ?_⟩, ?_⟩
  · unfold screen
    rw [hview, hcursor]
  · rw [hcommitted]
    have hpending := h.2.pending
    cases hprimary : u.terminal.activeBufferType with
    | primary =>
      rw [hsettled (hactive.symm.trans hprimary), List.append_nil] at hpending
      rw [hpending]
      rfl
    | alternate =>
      have hnone := hkept.finish u (by rw [← pushAll_text]; exact hu) hprimary
      rw [hnone] at hpending
      obtain ⟨hlines, -⟩ := List.append_eq_nil_iff.mp hpending.symm
      rw [hnone, show lines = [] from hlines]

/-- Cut where lines wait to be committed, of bytes after which they are not: that commits more. -/
theorem cut_commits_more (hm : Terminal.Measures width) {config : TerminalModelConfig} {bytes : List UInt8}
    {a q : Text} {p : List UInt8}
    (hbytes : OneShot bytes (a ++ q) p) (hq : q ≠ [])
    (hw : run width (max config.cols minCols).toNat (max config.rows minRows).toNat a = some w)
    (hprimary : w.terminal.activeBufferType = .primary) (hpending : w.terminal.pending ≠ [])
    (hmore : ∀ v, Beyond w.terminal.pending w v → q.foldlM (Vt.feed width) w = q.foldlM (Vt.feed width) v ∨
      ∀ u, q.foldlM (Vt.feed width) w = some u → u.terminal.activeBufferType = .alternate) :
    ¬Indifferent width dump config bytes := by
  intro hsame
  obtain ⟨l, m, rfl, hl, hrest⟩ := hbytes.split rfl
  have hstart := plain_start hm.space config
  obtain ⟨w', hw', hplain⟩ := plain_run hm hstart a
  obtain rfl := Option.some.inj (hw'.symm.trans hw)
  -- the first part
  have hnew : (TerminalModel.new (avt width dump) config).utf8 = .new := rfl
  obtain ⟨htext, hrestart⟩ := (IncrementalUtf8.new.push_decodes l).unique hl.decodes
  have ha : a ≠ [] := fun hnil => by
    subst hnil
    obtain rfl := Option.some.inj hw
    exact hpending (pending_new _ _)
  obtain ⟨r, hr, halong, hsettled, -, hactive⟩ := hplain.alone.2.gc
  have hgone : w'.terminal.pending = r.2 := by
    rw [halong.pending, hsettled (hactive.trans hprimary), List.append_nil, List.nil_append]
  obtain ⟨hv, hadded⟩ := feed_text dump (m := .new (avt width dump) config) rfl (by rwa [hnew, htext])
    (by rw [hnew, htext]; exact hw) hr
  -- the second part
  obtain ⟨u, hu, huplain⟩ := plain_run hm hplain q
  have hbeyond : Beyond r.2 w' { w' with terminal := r.1 } := ⟨rfl, by rwa [List.nil_append] at halong⟩
  obtain ⟨v', hv', hclose⟩ := rel_some (hbeyond.run_or width q) hu
  obtain ⟨s, hs⟩ : ∃ s, v'.terminal.gc = some s := by
    obtain h | rfl := hclose
    · obtain ⟨s, hs, -⟩ := h.2.gc
      exact ⟨s, hs⟩
    · obtain ⟨s, hs, -⟩ := huplain.alone.2.gc
      exact ⟨s, hs⟩
  have hpush := (((TerminalModel.new (avt width dump) config).feed (avt width dump) l).utf8.push_decodes m).unique (by
    rw [TerminalModel.feed_utf8, hnew, hrestart]
    exact hrest.decodes)
  obtain ⟨-, hadded'⟩ := feed_text dump hv (by rw [hpush.1]; exact hq) (by rw [hpush.1]; exact hv') hs
  -- and all at once
  have hwhole := (IncrementalUtf8.new.push_decodes (l ++ m)).unique hbytes.decodes
  have hall : (a ++ q).foldlM (Vt.feed width)
      (.new (max config.cols minCols).toNat (max config.rows minRows).toNat (some 0)) = some u := by
    rw [List.foldlM_append, hw']
    exact hu
  obtain ⟨t, ht, -, -, hnone, -⟩ := huplain.alone.2.gc
  obtain ⟨-, hadded''⟩ := feed_text dump (m := .new (avt width dump) config) rfl (by rw [hnew, hwhole.1]; simp [hq])
    (by rw [hnew, hwhole.1]; exact hall) ht
  have hcommitted := (hsame [l, m] [l ++ m] (by simp) (by simp)).2.2.2
  have hcommitted : r.2.map kept ++ (s.2.map kept ++ []) = t.2.map kept ++ [] := by
    rw [← hadded, ← hadded', ← hadded'']
    exact hcommitted
  have hlength := congrArg List.length hcommitted
  simp only [List.length_append, List.length_map, List.append_nil] at hlength
  have hr : r.2.length ≠ 0 := fun h => hpending (hgone.trans (List.eq_nil_of_length_eq_zero h))
  obtain h | h := hmore _ (hgone ▸ hbeyond)
  · rw [hu, hv'] at h
    obtain rfl := Option.some.inj h
    obtain rfl := Option.some.inj (hs.symm.trans ht)
    omega
  · rw [hnone (h u hu)] at hlength
    simp only [List.length_nil] at hlength
    omega

/-- The cuts between reads make no difference to what a model shows and commits just when no full
    reset, and no end on the alternate screen, finds lines that have scrolled off since the last one. -/
theorem cuts_matter_iff (tables : Widths.Tables) (dump : Option Vt → Text) (config : TerminalModelConfig) (bytes : List UInt8) :
    Indifferent (glyphWidth tables) dump config bytes ↔
      Kept (glyphWidth tables)
      (max config.cols minCols).toNat (max config.rows minRows).toNat (IncrementalUtf8.new.push bytes).1 := by
  have hm := measures_glyphWidth tables
  have hstart := plain_start hm.space config
  have hbytes := IncrementalUtf8.new.push_decodes bytes
  rw [show IncrementalUtf8.new.pending ++ bytes = bytes from rfl] at hbytes
  constructor
  · intro hsame
    constructor
    · intro seen ch rest vt htext hrun hris
      by_contra hpending
      obtain ⟨a, b, w, rfl, hw, hb, hprimary, hlines⟩ := last_primary hm hstart rfl hrun
      rw [htext, List.append_assoc] at hbytes
      refine cut_commits_more dump hm hbytes.oneShot (by simp) hw hprimary (by rwa [hlines]) (fun v hv => .inl ?_) hsame
      -- the reset forgets the difference
      rw [List.foldlM_append, List.foldlM_append, hb]
      obtain ⟨v', hv', h | rfl⟩ := rel_some (hv.run_or _ b) hb
      · rw [hv']
        show vt.feed _ ch >>= _ = v'.feed _ ch >>= _
        rw [(h.feed_ris _ hris).1]
      · rw [hv']
    · intro vt hrun halternate
      by_contra hpending
      obtain ⟨a, b, w, htext, hw, hb, hprimary, hlines⟩ := last_primary hm hstart rfl hrun
      rw [htext] at hbytes
      refine cut_commits_more dump hm hbytes.oneShot ?_ hw hprimary (by rwa [hlines]) (fun v hv => .inr fun u hu => ?_) hsame
      · rintro rfl
        obtain rfl := Option.some.inj hb
        rw [hprimary] at halternate
        cases halternate
      · obtain rfl := Option.some.inj (hb.symm.trans hu)
        exact halternate
  · intro hkept chunks chunks' hchunks hchunks'
    obtain ⟨u, hu⟩ := kept_committed dump hm hkept
    obtain ⟨⟨v, hv, hscreen⟩, hcommitted⟩ := hu chunks hchunks
    obtain ⟨⟨v', hv', hscreen'⟩, hcommitted'⟩ := hu chunks' hchunks'
    have hsame := hcommitted.trans hcommitted'.symm
    refine ⟨?_, ?_, ?_, hsame⟩
    · rw [hv, hv', Option.map_some, Option.map_some, hscreen, hscreen']
    · rw [TerminalModel.feedAll_modes, TerminalModel.feedAll_modes]
      show ModeTracker.scan _ (IncrementalUtf8.new.pushAll chunks).1 = ModeTracker.scan _ (IncrementalUtf8.new.pushAll chunks').1
      rw [pushAll_text, pushAll_text, hchunks, hchunks']
    · rw [TerminalModel.feedAll_history, TerminalModel.feedAll_history, hsame]

/-- A line and a full reset: in one read the line is lost, in two it is committed first. -/
theorem cuts_matter_reset :
    ¬Indifferent (glyphWidth ⟨[], [], [], []⟩) (fun _ => []) ⟨2, 1, 100, 10000⟩ [0x61, 0x0D, 0x0A, 0x1B, 0x63] := by
  intro h
  have hcommitted := (h [[0x61, 0x0D, 0x0A], [0x1B, 0x63]] [[0x61, 0x0D, 0x0A, 0x1B, 0x63]] rfl rfl).2.2.2
  revert hcommitted
  decide

end Vt

end Holdfast.Vendor

/-
  Holdfast.Desktop.BidiIsolates — what the output filter removes
  (`desktop/src/terminal-output.ts`).

  `Stripped` says it of the bytes, without the filter: read from the left, an encoded
  isolate is left out and every other byte stays. The text form works on characters.

  Proved, for every cut of the bytes into calls (`bidi_filter`): what came out and what is
  still held back is the stripped input, and nothing else is; what is held back begins an
  isolate; and of encoded text what comes out is the encoded text without its isolates.
-/

import Holdfast.Desktop.Presentation
import Holdfast.Terminal.Encoding

namespace Holdfast.Desktop.Presentation

open Holdfast.Terminal

/-- An encoded U+2066 to U+2069. -/
def IsIsolate (b c last : UInt8) : Prop :=
  b = bidiIsolateLead ∧ c = bidiIsolateSecond ∧ bidiIsolateMinLast ≤ last ∧ last ≤ bidiIsolateMaxLast

/-- The input without its isolates, found from the left. -/
inductive Stripped : Bytes → Bytes → Prop
  | nil : Stripped [] []
  | isolate {b c last : UInt8} {rest out : Bytes} : IsIsolate b c last → Stripped rest out → Stripped (b :: c :: last :: rest) out
  | keep {b : UInt8} {rest out : Bytes} : (∀ c last tail, rest = c :: last :: tail → ¬IsIsolate b c last) →
      Stripped rest out → Stripped (b :: rest) (b :: out)

/-- `stripBidiIsolates`. -/
def stripBidiIsolates (text : Text) : Text := text.filter fun c => !decide (0x2066 ≤ c.toNat ∧ c.toNat ≤ 0x2069)

/-- Fewer than three bytes are no isolate. -/
theorem Stripped.keep_short {b : UInt8} {rest out : Bytes} (hshort : rest.length < 2) (h : Stripped rest out) :
    Stripped (b :: rest) (b :: out) := by
  refine .keep ?_ h
  rintro c last tail rfl
  simp at hshort

theorem scan_stripped (input : Bytes) : Stripped input ((scan input).1 ++ (scan input).2) := by
  fun_induction scan input with
  | case1 => exact .nil
  | case2 => exact .keep_short Nat.zero_lt_two .nil
  | case3 => exact .keep_short Nat.zero_lt_two .nil
  | case4 b c hi => exact .keep_short Nat.one_lt_two (.keep_short Nat.zero_lt_two .nil)
  | case5 b c hi ih => exact .keep_short Nat.one_lt_two ih
  | case6 b c last rest hi ih => exact .isolate hi ih
  | case7 b c last rest hi ih =>
    refine .keep ?_ ih
    rintro c' last' tail heq
    obtain ⟨rfl, rfl, -⟩ : c = c' ∧ last = last' ∧ rest = tail := by simpa using heq
    exact hi

theorem Stripped.unique {input out out' : Bytes} (h : Stripped input out) (h' : Stripped input out') : out = out' := by
  induction h generalizing out' with
  | nil => cases h'; rfl
  | isolate hi _ ih =>
    cases h' with
    | isolate _ h' => exact ih h'
    | keep hno _ => exact absurd hi (hno _ _ _ rfl)
  | keep hno _ ih =>
    cases h' with
    | isolate hi _ => exact absurd hi (hno _ _ _ rfl)
    | keep _ h' => rw [ih h']

/-- What is held back is empty, or begins an isolate. -/
theorem scan_pending (input : Bytes) :
    (scan input).2 = [] ∨ (scan input).2 = [bidiIsolateLead] ∨ (scan input).2 = [bidiIsolateLead, bidiIsolateSecond] := by
  fun_induction scan input with
  | case1 => exact .inl rfl
  | case2 => exact .inr (.inl rfl)
  | case3 => exact .inl rfl
  | case4 b c hi => exact .inr (.inr (by rw [hi.1, hi.2]))
  | case5 b c hi ih => exact ih
  | case6 b c last rest hi ih => exact ih
  | case7 b c last rest hi ih => exact ih

/-! ## Encoded text -/

theorem scan_tail {tail : Bytes} (h : ∀ b ∈ tail, b ≠ bidiIsolateLead) (rest : Bytes) :
    scan (tail ++ rest) = (tail ++ (scan rest).1, (scan rest).2) := by
  induction tail with
  | nil => rfl
  | cons b tail ih =>
    obtain ⟨hb, htail⟩ := List.forall_mem_cons.mp h
    rw [List.cons_append, scan_plain hb, ih htail]
    rfl

theorem ofNat_ne_lead {n : Nat} (hlt : n < 256) (h : n ≠ 226) : UInt8.ofNat n ≠ bidiIsolateLead := by
  intro heq
  have hn := toNat_ofNat_lt hlt
  rw [heq] at hn
  exact h hn.symm

/-- A character that is no isolate goes through, an isolate does not. -/
theorem scan_char (c : Char) (rest : Bytes) :
    scan (String.utf8EncodeChar c ++ rest) =
      if 0x2066 ≤ c.toNat ∧ c.toNat ≤ 0x2069 then scan rest
      else (String.utf8EncodeChar c ++ (scan rest).1, (scan rest).2) := by
  have hc : c.toNat = c.val.toNat := rfl
  have hmax : c.val.toNat < 0x110000 := by
    rcases c.valid with h | h
    · exact Nat.lt_trans h (by decide)
    · exact h.2
  rw [hc]
  unfold String.utf8EncodeChar
  dsimp only
  generalize c.val.toNat = v at hmax
  split
  · rw [if_neg (by omega)]
    refine scan_tail (fun b hb => ?_) rest
    rw [List.mem_singleton.mp hb]
    exact ofNat_ne_lead (by omega) (by omega)
  · split
    · rw [if_neg (by omega)]
      refine scan_tail (fun b hb => ?_) rest
      rcases List.mem_cons.mp hb with rfl | hb
      · exact ofNat_ne_lead (by omega) (by omega)
      · rw [List.mem_singleton.mp hb]
        exact ofNat_ne_lead (by omega) (by omega)
    · split
      · -- the only encodings with the lead byte of an isolate
        have hlast : UInt8.ofNat (v % 64 + 128) ≠ bidiIsolateLead := ofNat_ne_lead (by omega) (by omega)
        have hsecond : UInt8.ofNat (v / 64 % 64 + 128) ≠ bidiIsolateLead := ofNat_ne_lead (by omega) (by omega)
        have htail : scan (UInt8.ofNat (v / 64 % 64 + 128) :: UInt8.ofNat (v % 64 + 128) :: rest) =
            (UInt8.ofNat (v / 64 % 64 + 128) :: UInt8.ofNat (v % 64 + 128) :: (scan rest).1, (scan rest).2) := by
          rw [scan_plain hsecond, scan_plain hlast]
        have hiff : (UInt8.ofNat (v / 4096 % 16 + 224) = bidiIsolateLead ∧ UInt8.ofNat (v / 64 % 64 + 128) = bidiIsolateSecond ∧
            bidiIsolateMinLast ≤ UInt8.ofNat (v % 64 + 128) ∧ UInt8.ofNat (v % 64 + 128) ≤ bidiIsolateMaxLast) ↔
            0x2066 ≤ v ∧ v ≤ 0x2069 := by
          have h0 : (UInt8.ofNat (v / 4096 % 16 + 224)).toNat = v / 4096 % 16 + 224 := toNat_ofNat_lt (by omega)
          have h1 : (UInt8.ofNat (v / 64 % 64 + 128)).toNat = v / 64 % 64 + 128 := toNat_ofNat_lt (by omega)
          have h2 : (UInt8.ofNat (v % 64 + 128)).toNat = v % 64 + 128 := toNat_ofNat_lt (by omega)
          have hlead : bidiIsolateLead.toNat = 226 := rfl
          have hsnd : bidiIsolateSecond.toNat = 129 := rfl
          have hmin : bidiIsolateMinLast.toNat = 166 := rfl
          have hmax : bidiIsolateMaxLast.toNat = 169 := rfl
          rw [← UInt8.toNat_inj, ← UInt8.toNat_inj, UInt8.le_iff_toNat_le, UInt8.le_iff_toNat_le, h0, h1, h2,
            hlead, hsnd, hmin, hmax]
          omega
        show scan (UInt8.ofNat (v / 4096 % 16 + 224) :: UInt8.ofNat (v / 64 % 64 + 128) :: UInt8.ofNat (v % 64 + 128) :: rest) = _
        rw [scan]
        by_cases hi : 0x2066 ≤ v ∧ v ≤ 0x2069
        · rw [if_pos (hiff.mpr hi), if_pos hi]
        · rw [if_neg fun h => hi (hiff.mp h), if_neg hi, htail]
          rfl
      · rw [if_neg (by omega)]
        refine scan_tail (fun b hb => ?_) rest
        simp only [List.mem_cons, List.not_mem_nil, or_false] at hb
        rcases hb with rfl | rfl | rfl | rfl
        · exact ofNat_ne_lead (by omega) (by omega)
        · exact ofNat_ne_lead (by omega) (by omega)
        · exact ofNat_ne_lead (by omega) (by omega)
        · exact ofNat_ne_lead (by omega) (by omega)

theorem scan_text (text : Text) : scan (Text.bytes text) = (Text.bytes (stripBidiIsolates text), []) := by
  induction text with
  | nil => rfl
  | cons c text ih =>
    have hcons : Text.bytes (c :: text) = String.utf8EncodeChar c ++ Text.bytes text := rfl
    rw [hcons, scan_char, ih]
    by_cases hi : 0x2066 ≤ c.toNat ∧ c.toNat ≤ 0x2069
    · have hdrop : stripBidiIsolates (c :: text) = stripBidiIsolates text :=
        List.filter_cons_of_neg (by rw [decide_eq_true hi]; exact Bool.false_ne_true)
      rw [if_pos hi, hdrop]
    · have hkeep : stripBidiIsolates (c :: text) = c :: stripBidiIsolates text :=
        List.filter_cons_of_pos (by rw [decide_eq_false hi]; rfl)
      rw [if_neg hi, hkeep]
      rfl

/-- However the bytes are cut into calls, what came out and what is held back is that of one
    call. Together they are the input with its isolates left out and nothing else, and at
    most two bytes are held back. Of encoded text none are, and what came out is the encoded
    text without its isolates. -/
theorem bidi_filter (chunks : List Bytes) :
    filterAll [] chunks = filter [] chunks.flatten ∧
      (filterAll [] chunks).2.length ≤ 2 ∧
      (∀ out, Stripped chunks.flatten out ↔ out = (filterAll [] chunks).1 ++ (filterAll [] chunks).2) ∧
      ∀ text : Text, chunks.flatten = Text.bytes text → filterAll [] chunks = (Text.bytes (stripBidiIsolates text), []) := by
  have hall : filterAll [] chunks = scan chunks.flatten := filterAll_flatten chunks rfl
  have hone : filter [] chunks.flatten = scan chunks.flatten := by
    unfold filter
    split
    · rename_i hnil
      rw [hnil]
      rfl
    · rfl
  rw [hall, hone]
  refine ⟨rfl, ?_, fun out => ⟨fun h => h.unique (scan_stripped _), ?_⟩, ?_⟩
  · rcases scan_pending chunks.flatten with h | h | h <;> simp [h]
  · rintro rfl
    exact scan_stripped _
  · intro text htext
    rw [htext, scan_text]

theorem bidi_filter_cut : filterAll [] [[0x61, 0xe2], [0x81], [0xa7, 0x62]] = ([0x61, 0x62], []) :=
  (bidi_filter [[0x61, 0xe2], [0x81], [0xa7, 0x62]]).2.2.2 ['a', Char.ofNat 0x2067, 'b'] (by decide +kernel)

end Holdfast.Desktop.Presentation

/-
  Holdfast.Terminal.Encoding — encoded text, and sequences cut by the end of a chunk.

  The decoder of `Terminal.Utf8` read from the other side: what it makes of the bytes of
  a text, and of a stream that starts in the middle of a sequence.

  Proved:
  - `Decodes.encoded`: the bytes of a text decode to that text, whatever follows.
  - `Decodes.pending`: bytes pending before a stream add at most one character at its
    front, the one its first bytes complete (`Completes`).
  - `Completes.decodes`: a sequence completed by the next bytes is its character, and the
    text that follows comes after it.
-/

import Holdfast.Terminal.Utf8

namespace Holdfast.Terminal

/-! ## Encoded text -/

theorem toNat_ofNat_lt {n : Nat} (h : n < 256) : (UInt8.ofNat n).toNat = n := by
  simp [UInt8.toNat_ofNat', Nat.mod_eq_of_lt h]

theorem width_two {b : UInt8} (h1 : 0xC2 ≤ b.toNat) (h2 : b.toNat ≤ 0xDF) : utf8CharWidth b = 2 := by
  unfold utf8CharWidth
  rw [if_neg (by omega), if_pos ⟨h1, h2⟩]

theorem width_three {b : UInt8} (h1 : 0xE0 ≤ b.toNat) (h2 : b.toNat ≤ 0xEF) : utf8CharWidth b = 3 := by
  unfold utf8CharWidth
  rw [if_neg (by omega), if_neg (by omega), if_pos ⟨h1, h2⟩]

theorem width_four {b : UInt8} (h1 : 0xF0 ≤ b.toNat) (h2 : b.toNat ≤ 0xF4) : utf8CharWidth b = 4 := by
  unfold utf8CharWidth
  rw [if_neg (by omega), if_neg (by omega), if_neg (by omega), if_pos ⟨h1, h2⟩]

theorem isCont_of {b : UInt8} (h1 : 0x80 ≤ b.toNat) (h2 : b.toNat ≤ 0xBF) : isCont b = true := decide_eq_true ⟨h1, h2⟩

/-- The first sequence of an encoded character is that character. -/
theorem front_encode (c : Char) : ∃ b r, String.utf8EncodeChar c = b :: r ∧
    ∀ rest, front b (r ++ rest) = .scalar c (r.length + 1) := by
  have hv := c.valid
  have hchar : ∀ n, n = c.val.toNat → Char.ofNat n = c := by
    intro n hn
    rw [hn]; exact Char.ofNat_toNat c
  unfold String.utf8EncodeChar
  simp only
  generalize hn : c.val.toNat = v at hchar
  have hvalid : v < 0xD800 ∨ 0xDFFF < v ∧ v < 0x110000 := by
    rw [← hn]; exact hv
  split
  · refine ⟨_, _, rfl, ?_⟩
    intro rest
    have h0 := toNat_ofNat_lt (n := v) (by omega)
    have hw : utf8CharWidth (UInt8.ofNat v) = 1 := by
      unfold utf8CharWidth
      rw [if_pos (by omega)]
    simp only [front, hw, h0, hchar v rfl, List.length_nil]
  · split
    · refine ⟨_, _, rfl, ?_⟩
      intro rest
      have h0 := toNat_ofNat_lt (n := v / 64 % 32 + 192) (by omega)
      have h1 := toNat_ofNat_lt (n := v % 64 + 128) (by omega)
      have hw := width_two (b := UInt8.ofNat (v / 64 % 32 + 192)) (by omega) (by omega)
      have hc := isCont_of (b := UInt8.ofNat (v % 64 + 128)) (by omega) (by omega)
      simp only [front, hw, List.cons_append, hc, if_true, h0, h1]
      rw [hchar _ (by omega)]
      rfl
    · split
      · refine ⟨_, _, rfl, ?_⟩
        intro rest
        have h0 := toNat_ofNat_lt (n := v / 4096 % 16 + 224) (by omega)
        have h1 := toNat_ofNat_lt (n := v / 64 % 64 + 128) (by omega)
        have h2 := toNat_ofNat_lt (n := v % 64 + 128) (by omega)
        have hw := width_three (b := UInt8.ofNat (v / 4096 % 16 + 224)) (by omega) (by omega)
        have hc := isCont_of (b := UInt8.ofNat (v % 64 + 128)) (by omega) (by omega)
        have hs : secondOk (UInt8.ofNat (v / 4096 % 16 + 224)) (UInt8.ofNat (v / 64 % 64 + 128)) = true := by
          unfold secondOk isCont
          rw [h0, h1]
          repeat' split
          all_goals first | omega | exact decide_eq_true ⟨by omega, by omega⟩
        simp only [front, hw, List.cons_append, hc, hs, if_true, h0, h1, h2]
        rw [hchar _ (by omega)]
        rfl
      · refine ⟨_, _, rfl, ?_⟩
        intro rest
        have h0 := toNat_ofNat_lt (n := v / 262144 % 8 + 240) (by omega)
        have h1 := toNat_ofNat_lt (n := v / 4096 % 64 + 128) (by omega)
        have h2 := toNat_ofNat_lt (n := v / 64 % 64 + 128) (by omega)
        have h3 := toNat_ofNat_lt (n := v % 64 + 128) (by omega)
        have hw := width_four (b := UInt8.ofNat (v / 262144 % 8 + 240)) (by omega) (by omega)
        have hc := isCont_of (b := UInt8.ofNat (v / 64 % 64 + 128)) (by omega) (by omega)
        have hc' := isCont_of (b := UInt8.ofNat (v % 64 + 128)) (by omega) (by omega)
        have hs : secondOk (UInt8.ofNat (v / 262144 % 8 + 240)) (UInt8.ofNat (v / 4096 % 64 + 128)) = true := by
          unfold secondOk isCont
          rw [h0, h1]
          repeat' split
          all_goals first | omega | exact decide_eq_true ⟨by omega, by omega⟩
        simp only [front, hw, List.cons_append, hc, hc', hs, if_true, h0, h1, h2, h3]
        rw [hchar _ (by omega)]
        rfl

theorem isCont_of_secondOk {b0 b1 : UInt8} (h : secondOk b0 b1 = true) : isCont b1 = true := by
  unfold secondOk at h
  unfold isCont at h ⊢
  repeat' split at h
  all_goals
    have h' := of_decide_eq_true h
    exact decide_eq_true ⟨by omega, by omega⟩

/-- A cut-off sequence followed by `l`: continuation bytes `q` of `l` go on with it, and
    then it is complete, or given up, or still cut off. -/
inductive CutCase (b : UInt8) (r l : List UInt8) : Prop
  | incomplete : (∀ x ∈ l, isCont x = true) → front b (r ++ l) = .incomplete → CutCase b r l
  | invalid (q rest : List UInt8) : l = q ++ rest → (∀ x ∈ q, isCont x = true) →
      front b (r ++ l) = .invalid (r.length + 1 + q.length) → CutCase b r l
  | scalar (q rest : List UInt8) (c : Char) : l = q ++ rest → q ≠ [] → (∀ x ∈ q, isCont x = true) →
      front b (r ++ q) = .scalar c (r.length + 1 + q.length) → CutCase b r l

theorem front_cut_two {b : UInt8} {r : List UInt8} (hw : utf8CharWidth b = 2) (h : front b r = .incomplete)
    (l : List UInt8) : CutCase b r l := by
  rcases r with _ | ⟨b1, r⟩
  · rcases l with _ | ⟨b1, l⟩
    · exact .incomplete (by simp) h
    · by_cases h1 : isCont b1 = true
      · exact .scalar [b1] l _ rfl (by simp) (by simpa using h1) (by simp only [front, hw, List.nil_append, h1]; rfl)
      · exact .invalid [] (b1 :: l) rfl (by simp) (by simp only [front, hw, List.nil_append, h1]; rfl)
  · simp only [front, hw] at h
    split at h <;> cases h

theorem front_cut_three {b : UInt8} {r : List UInt8} (hw : utf8CharWidth b = 3) (h : front b r = .incomplete)
    (l : List UInt8) : CutCase b r l := by
  rcases r with _ | ⟨b1, _ | ⟨b2, r⟩⟩
  · rcases l with _ | ⟨b1, l⟩
    · exact .incomplete (by simp) h
    · by_cases h1 : secondOk b b1 = true
      · have hc := isCont_of_secondOk h1
        rcases l with _ | ⟨b2, l⟩
        · exact .incomplete (by simpa using hc) (by simp only [front, hw, List.nil_append, h1]; rfl)
        · by_cases h2 : isCont b2 = true
          · exact .scalar [b1, b2] l _ rfl (by simp) (by simp [hc, h2])
              (by simp only [front, hw, List.nil_append, h1, h2]; rfl)
          · exact .invalid [b1] (b2 :: l) rfl (by simpa using hc)
              (by simp only [front, hw, List.nil_append, h1, h2]; rfl)
      · exact .invalid [] (b1 :: l) rfl (by simp) (by simp only [front, hw, List.nil_append, h1]; rfl)
  · have h1 : secondOk b b1 = true := by
      by_contra h1
      simp [front, hw, h1] at h
    rcases l with _ | ⟨b2, l⟩
    · exact .incomplete (by simp) h
    · by_cases h2 : isCont b2 = true
      · exact .scalar [b2] l _ rfl (by simp) (by simpa using h2)
          (by simp only [front, hw, List.cons_append, List.nil_append, h1, h2]; rfl)
      · exact .invalid [] (b2 :: l) rfl (by simp)
          (by simp only [front, hw, List.cons_append, List.nil_append, h1, h2]; rfl)
  · simp only [front, hw] at h
    split at h
    · split at h <;> cases h
    · cases h

theorem front_cut_four {b : UInt8} {r : List UInt8} (hw : utf8CharWidth b = 4) (h : front b r = .incomplete)
    (l : List UInt8) : CutCase b r l := by
  rcases r with _ | ⟨b1, r⟩
  · rcases l with _ | ⟨b1, l⟩
    · exact .incomplete (by simp) h
    · by_cases h1 : secondOk b b1 = true
      · have hc := isCont_of_secondOk h1
        rcases l with _ | ⟨b2, l⟩
        · exact .incomplete (by simpa using hc) (by simp only [front, hw, List.nil_append, h1]; rfl)
        · by_cases h2 : isCont b2 = true
          · rcases l with _ | ⟨b3, l⟩
            · exact .incomplete (by simp [hc, h2]) (by simp only [front, hw, List.nil_append, h1, h2]; rfl)
            · by_cases h3 : isCont b3 = true
              · exact .scalar [b1, b2, b3] l _ rfl (by simp) (by simp [hc, h2, h3])
                  (by simp only [front, hw, List.nil_append, h1, h2, h3]; rfl)
              · exact .invalid [b1, b2] (b3 :: l) rfl (by simp [hc, h2])
                  (by simp only [front, hw, List.nil_append, h1, h2, h3]; rfl)
          · exact .invalid [b1] (b2 :: l) rfl (by simpa using hc)
              (by simp only [front, hw, List.nil_append, h1, h2]; rfl)
      · exact .invalid [] (b1 :: l) rfl (by simp) (by simp only [front, hw, List.nil_append, h1]; rfl)
  · have h1 : secondOk b b1 = true := by
      by_contra h1
      simp [front, hw, h1] at h
    rcases r with _ | ⟨b2, r⟩
    · rcases l with _ | ⟨b2, l⟩
      · exact .incomplete (by simp) h
      · by_cases h2 : isCont b2 = true
        · rcases l with _ | ⟨b3, l⟩
          · exact .incomplete (by simpa using h2)
              (by simp only [front, hw, List.cons_append, List.nil_append, h1, h2]; rfl)
          · by_cases h3 : isCont b3 = true
            · exact .scalar [b2, b3] l _ rfl (by simp) (by simp [h2, h3])
                (by simp only [front, hw, List.cons_append, List.nil_append, h1, h2, h3]; rfl)
            · exact .invalid [b2] (b3 :: l) rfl (by simpa using h2)
                (by simp only [front, hw, List.cons_append, List.nil_append, h1, h2, h3]; rfl)
        · exact .invalid [] (b2 :: l) rfl (by simp)
            (by simp only [front, hw, List.cons_append, List.nil_append, h1, h2]; rfl)
    · have h2 : isCont b2 = true := by
        by_contra h2
        simp [front, hw, h1, h2] at h
      rcases r with _ | ⟨b3, r⟩
      · rcases l with _ | ⟨b3, l⟩
        · exact .incomplete (by simp) h
        · by_cases h3 : isCont b3 = true
          · exact .scalar [b3] l _ rfl (by simp) (by simpa using h3)
              (by simp only [front, hw, List.cons_append, List.nil_append, h1, h2, h3]; rfl)
          · exact .invalid [] (b3 :: l) rfl (by simp)
              (by simp only [front, hw, List.cons_append, List.nil_append, h1, h2, h3]; rfl)
      · simp only [front, hw, h1, h2, if_true] at h
        split at h <;> cases h

theorem front_cut {b : UInt8} {r : List UInt8} (h : front b r = .incomplete) (l : List UInt8) : CutCase b r l := by
  have hw : utf8CharWidth b = 2 ∨ utf8CharWidth b = 3 ∨ utf8CharWidth b = 4 := by
    unfold front at h
    split at h
    · cases h
    · exact .inl ‹_›
    · exact .inr (.inl ‹_›)
    · exact .inr (.inr ‹_›)
    · cases h
  rcases hw with hw | hw | hw
  · exact front_cut_two hw h l
  · exact front_cut_three hw h l
  · exact front_cut_four hw h l

/-- A continuation byte starts no sequence. -/
theorem front_cont {x : UInt8} (h : isCont x = true) (l : List UInt8) : front x l = .invalid 1 := by
  have hc := of_decide_eq_true h
  have hw : utf8CharWidth x = 0 := by
    unfold utf8CharWidth
    rw [if_neg (by omega), if_neg (by omega), if_neg (by omega), if_neg (by omega)]
  simp only [front, hw]

/-- Continuation bytes on their own decode to nothing. -/
theorem Decodes.skip {q l : List UInt8} {t : Text} {p : List UInt8} (hq : ∀ x ∈ q, isCont x = true)
    (h : Decodes l t p) : Decodes (q ++ l) t p := by
  induction q with
  | nil => exact h
  | cons x q ih => exact .invalid (front_cont (hq x (by simp)) _) (ih fun y hy => hq y (by simp [hy]))

/-- The bytes `q` complete the pending bytes `p` to the character `c`. -/
def Completes (p q : List UInt8) (c : Char) : Prop :=
  ∃ b r, p = b :: r ∧ front b r = .incomplete ∧ q ≠ [] ∧ (∀ x ∈ q, isCont x = true) ∧
    front b (r ++ q) = .scalar c (r.length + 1 + q.length)

theorem drop_cut (b : UInt8) (r q rest : List UInt8) : (b :: (r ++ (q ++ rest))).drop (r.length + 1 + q.length) = rest := by
  have : b :: (r ++ (q ++ rest)) = (b :: r ++ q) ++ rest := by simp
  rw [this, List.drop_left' (by simp; omega)]

theorem Decodes.pending_length {l : List UInt8} {t : Text} {p : List UInt8} (h : Decodes l t p) : p.length ≤ l.length := by
  induction h with
  | nil => exact Nat.le_refl _
  | scalar _ _ ih => rw [List.length_drop] at ih; omega
  | invalid _ _ ih => rw [List.length_drop] at ih; omega
  | incomplete _ => exact Nat.le_refl _

/-- Pending bytes are one cut-off sequence. -/
theorem Decodes.front_incomplete {b : UInt8} {r : List UInt8} (h : Decodes (b :: r) [] (b :: r)) :
    front b r = .incomplete := by
  cases h with
  | invalid hf hd =>
    have h1 := (front_len b r (by rw [hf]; simp)).1
    have h2 := hd.pending_length
    rw [hf, Front.len] at h1
    rw [List.length_drop, List.length_cons] at h2
    omega
  | incomplete hf => exact hf

/-- What pending bytes make of a stream beside what the stream is on its own: nothing, or
    one more character at its front. -/
theorem Decodes.pending {p l : List UInt8} {t t' : Text} {s s' : List UInt8} (hp : Decodes p [] p)
    (h : Decodes (p ++ l) t s) (h' : Decodes l t' s') :
    t = t' ∨ ∃ q rest c, l = q ++ rest ∧ Completes p q c ∧ t = c :: t' := by
  rcases p with _ | ⟨b, r⟩
  · exact .inl (h.unique h').1
  · have hf := hp.front_incomplete
    rw [List.cons_append] at h
    cases front_cut hf l with
    | incomplete hq hinc =>
      left
      have hl := Decodes.nil.skip hq
      rw [List.append_nil] at hl
      rw [(h.unique (.incomplete hinc)).1, (h'.unique hl).1]
    | invalid q rest hl hq hinv =>
      left
      subst hl
      cases h with
      | invalid hf' hd =>
        rw [hinv] at hf'; cases hf'
        rw [drop_cut] at hd
        exact ((hd.skip hq).unique h').1
      | scalar hf' _ => rw [hinv] at hf'; cases hf'
      | incomplete hf' => rw [hinv] at hf'; cases hf'
    | scalar q rest c hl hne hq hsc =>
      right
      subst hl
      have hsc' : front b (r ++ (q ++ rest)) = .scalar c (r.length + 1 + q.length) := by
        rw [← List.append_assoc, front_append b (r ++ q) rest (by rw [hsc]; simp), hsc]
      refine ⟨q, rest, c, rfl, ⟨b, r, rfl, hf, hne, hq, hsc⟩, ?_⟩
      cases h with
      | scalar hf' hd =>
        rw [hsc'] at hf'; cases hf'
        rw [drop_cut] at hd
        rw [((hd.skip hq).unique h').1]
      | invalid hf' _ => rw [hsc'] at hf'; cases hf'
      | incomplete hf' => rw [hsc'] at hf'; cases hf'

/-- A completed sequence and what follows it. -/
theorem Completes.decodes {p q l : List UInt8} {c : Char} {t : Text} {s : List UInt8} (h : Completes p q c)
    (hl : Decodes l t s) : Decodes (p ++ (q ++ l)) (c :: t) s ∧ Decodes (q ++ l) t s := by
  obtain ⟨b, r, rfl, _, _, hq, hsc⟩ := h
  refine ⟨?_, hl.skip hq⟩
  have hsc' : front b (r ++ (q ++ l)) = .scalar c (r.length + 1 + q.length) := by
    rw [← List.append_assoc, front_append b (r ++ q) l (by rw [hsc]; simp), hsc]
  rw [List.cons_append]
  exact .scalar hsc' (by rw [drop_cut]; exact hl)

end Holdfast.Terminal

/-
  Holdfast.Terminal.OneShot — what decoding in pieces comes to
  (`IncrementalUtf8::push` of `crates/terminal-model/src/utf8.rs`).

  The decoder of `Terminal.Utf8` works byte by byte, with the ranges that
  `std::str::from_utf8` allows. Here is what it is for, in terms of the encoding of a
  character only: text that can begin a character (`Begins`) and text that is cut off
  inside one (`CutOff`). `OneShot l t p` reads `l` from its start: an encoded character is
  kept, bytes that end inside a character are pending, and a maximal invalid sequence is
  dropped, which is all the bytes up to the one that no character has there, or the
  first byte where that starts no character.

  Proved, for every list of pushes (`pushes_one_shot`): the text and the pending bytes are
  what `OneShot` makes of all the bytes at once, and nothing else is; the pending bytes
  are at most three and cut off inside a character; the loop of `push` ends, and never
  unwraps an error.
-/

import Holdfast.Terminal.Encoding

namespace Holdfast.Terminal

/-- The bytes start with those of a character, or a character's bytes start with them. -/
def Begins (l : List UInt8) : Prop := ∃ c s, String.utf8EncodeChar c = l ++ s

/-- A character's bytes start with these, and it has more. -/
def CutOff (l : List UInt8) : Prop := ∃ c s, s ≠ [] ∧ String.utf8EncodeChar c = l ++ s

/-- A maximal invalid sequence `q` before the bytes `rest`: one byte that starts no
    character, or bytes cut off inside a character by a byte that none has there. -/
inductive MaximalInvalid : List UInt8 → List UInt8 → Prop
  | lone {b : UInt8} {rest : List UInt8} : ¬Begins [b] → MaximalInvalid [b] rest
  | broken {q : List UInt8} {x : UInt8} {rest : List UInt8} : q ≠ [] → CutOff q → ¬Begins (q ++ [x]) →
      MaximalInvalid q (x :: rest)

/-- `l` read at once, from its start: the text `t`, and the pending bytes `p`. -/
inductive OneShot : List UInt8 → Text → List UInt8 → Prop
  | nil : OneShot [] [] []
  | keep (c : Char) {l : List UInt8} {t : Text} {p : List UInt8} : OneShot l t p →
      OneShot (String.utf8EncodeChar c ++ l) (c :: t) p
  | pending {p : List UInt8} : p ≠ [] → CutOff p → OneShot p [] p
  | drop {q l : List UInt8} {t : Text} {p : List UInt8} : MaximalInvalid q l → OneShot l t p → OneShot (q ++ l) t p

/-! ## The bytes of a character -/

theorem CutOff.begins {l : List UInt8} (h : CutOff l) : Begins l := by
  obtain ⟨c, s, -, h⟩ := h
  exact ⟨c, s, h⟩

theorem encode_ofNat {v : Nat} (hv : v.isValidChar) : String.utf8EncodeChar (Char.ofNat v) =
    if v ≤ 0x7f then [UInt8.ofNat v]
    else if v ≤ 0x7ff then [UInt8.ofNat (v / 64 % 32 + 192), UInt8.ofNat (v % 64 + 128)]
    else if v ≤ 0xffff then [UInt8.ofNat (v / 4096 % 16 + 224), UInt8.ofNat (v / 64 % 64 + 128), UInt8.ofNat (v % 64 + 128)]
    else [UInt8.ofNat (v / 262144 % 8 + 240), UInt8.ofNat (v / 4096 % 64 + 128), UInt8.ofNat (v / 64 % 64 + 128),
      UInt8.ofNat (v % 64 + 128)] := by
  have hval : (Char.ofNat v).val.toNat = v := by
    unfold Char.ofNat
    rw [dif_pos hv]
    rfl
  unfold String.utf8EncodeChar
  rw [hval]

/-- `n` is the number a byte stands for. -/
theorem ofNat_eq {b : UInt8} {n : Nat} (h : n = b.toNat) : UInt8.ofNat n = b := by
  rw [h]; exact UInt8.ofNat_toNat

theorem width_cases (b : UInt8) : (utf8CharWidth b = 1 ∧ b.toNat < 0x80) ∨
    (utf8CharWidth b = 2 ∧ 0xC2 ≤ b.toNat ∧ b.toNat ≤ 0xDF) ∨ (utf8CharWidth b = 3 ∧ 0xE0 ≤ b.toNat ∧ b.toNat ≤ 0xEF) ∨
    (utf8CharWidth b = 4 ∧ 0xF0 ≤ b.toNat ∧ b.toNat ≤ 0xF4) ∨ utf8CharWidth b = 0 := by
  unfold utf8CharWidth
  repeat' split
  all_goals simp_all

/-- The second byte lies where no sequence is overlong, a surrogate or too large. -/
theorem secondOk_bounds {b0 b1 : UInt8} (h : secondOk b0 b1 = true) :
    0x80 ≤ b1.toNat ∧ b1.toNat ≤ 0xBF ∧ (b0.toNat = 0xE0 → 0xA0 ≤ b1.toNat) ∧ (b0.toNat = 0xED → b1.toNat ≤ 0x9F) ∧
      (b0.toNat = 0xF0 → 0x90 ≤ b1.toNat) ∧ (b0.toNat = 0xF4 → b1.toNat ≤ 0x8F) := by
  unfold secondOk isCont at h
  repeat' split at h
  all_goals
    have h' := of_decide_eq_true h
    omega

theorem encode_two {b0 b1 : UInt8} (h0 : 0xC2 ≤ b0.toNat ∧ b0.toNat ≤ 0xDF) (h1 : isCont b1 = true) :
    String.utf8EncodeChar (Char.ofNat ((b0.toNat - 0xC0) * 0x40 + (b1.toNat - 0x80))) = [b0, b1] := by
  have h1 := of_decide_eq_true h1
  rw [encode_ofNat (.inl (by omega)), if_neg (by omega), if_pos (by omega)]
  rw [ofNat_eq (b := b0) (by omega), ofNat_eq (b := b1) (by omega)]

theorem encode_three {b0 b1 b2 : UInt8} (h0 : 0xE0 ≤ b0.toNat ∧ b0.toNat ≤ 0xEF) (h1 : secondOk b0 b1 = true)
    (h2 : isCont b2 = true) :
    String.utf8EncodeChar (Char.ofNat ((b0.toNat - 0xE0) * 0x1000 + (b1.toNat - 0x80) * 0x40 + (b2.toNat - 0x80))) =
      [b0, b1, b2] := by
  have h1 := secondOk_bounds h1
  have h2 := of_decide_eq_true h2
  have hvalid : ((b0.toNat - 0xE0) * 0x1000 + (b1.toNat - 0x80) * 0x40 + (b2.toNat - 0x80)).isValidChar := by
    unfold Nat.isValidChar
    omega
  rw [encode_ofNat hvalid, if_neg (by omega), if_neg (by omega), if_pos (by omega)]
  rw [ofNat_eq (b := b0) (by omega), ofNat_eq (b := b1) (by omega), ofNat_eq (b := b2) (by omega)]

theorem encode_four {b0 b1 b2 b3 : UInt8} (h0 : 0xF0 ≤ b0.toNat ∧ b0.toNat ≤ 0xF4) (h1 : secondOk b0 b1 = true)
    (h2 : isCont b2 = true) (h3 : isCont b3 = true) :
    String.utf8EncodeChar (Char.ofNat ((b0.toNat - 0xF0) * 0x40000 + (b1.toNat - 0x80) * 0x1000 +
      (b2.toNat - 0x80) * 0x40 + (b3.toNat - 0x80))) = [b0, b1, b2, b3] := by
  have h1 := secondOk_bounds h1
  have h2 := of_decide_eq_true h2
  have h3 := of_decide_eq_true h3
  have hvalid : ((b0.toNat - 0xF0) * 0x40000 + (b1.toNat - 0x80) * 0x1000 + (b2.toNat - 0x80) * 0x40 +
      (b3.toNat - 0x80)).isValidChar := by
    unfold Nat.isValidChar
    omega
  rw [encode_ofNat hvalid, if_neg (by omega), if_neg (by omega), if_neg (by omega)]
  rw [ofNat_eq (b := b0) (by omega), ofNat_eq (b := b1) (by omega), ofNat_eq (b := b2) (by omega),
    ofNat_eq (b := b3) (by omega)]

theorem encode_one {b : UInt8} (h : b.toNat < 0x80) : String.utf8EncodeChar (Char.ofNat b.toNat) = [b] := by
  rw [encode_ofNat (.inl (by omega)), if_pos (by omega), ofNat_eq rfl]

/-! ## What the first bytes are -/

/-- A scalar at the front: the bytes of a character. -/
theorem front_scalar {b : UInt8} {r : List UInt8} {c : Char} {k : Nat} (h : front b r = .scalar c k) :
    (b :: r).take k = String.utf8EncodeChar c := by
  obtain ⟨hw, hb⟩ | ⟨hw, hb⟩ | ⟨hw, hb⟩ | ⟨hw, hb⟩ | hw := width_cases b <;> simp only [front, hw] at h
  · obtain ⟨rfl, rfl⟩ := Front.scalar.inj h
    rw [encode_one hb]
    rfl
  · rcases r with _ | ⟨b1, r⟩
    · cases h
    · dsimp only at h
      split at h
      · obtain ⟨rfl, rfl⟩ := Front.scalar.inj h
        rw [encode_two hb ‹_›]
        rfl
      · cases h
  · rcases r with _ | ⟨b1, r⟩
    · cases h
    · dsimp only at h
      split at h
      · rcases r with _ | ⟨b2, r⟩
        · cases h
        · dsimp only at h
          split at h
          · obtain ⟨rfl, rfl⟩ := Front.scalar.inj h
            rw [encode_three hb ‹_› ‹_›]
            rfl
          · cases h
      · cases h
  · rcases r with _ | ⟨b1, r⟩
    · cases h
    · dsimp only at h
      split at h
      · rcases r with _ | ⟨b2, r⟩
        · cases h
        · dsimp only at h
          split at h
          · rcases r with _ | ⟨b3, r⟩
            · cases h
            · dsimp only at h
              split at h
              · obtain ⟨rfl, rfl⟩ := Front.scalar.inj h
                rw [encode_four hb ‹_› ‹_› ‹_›]
                rfl
              · cases h
          · cases h
      · cases h
  · cases h

theorem secondOk_some (b : UInt8) : ∃ b1, secondOk b b1 = true := by
  by_cases h0 : b.toNat = 0xE0
  · exact ⟨0xA0, by simp [secondOk, h0]⟩
  · by_cases h1 : b.toNat = 0xF0
    · exact ⟨0x90, by simp [secondOk, h1]⟩
    · refine ⟨0x80, ?_⟩
      unfold secondOk isCont
      rw [if_neg h0, if_neg h1]
      repeat' split
      all_goals rfl

/-- A sequence that the end of the input cuts off: it can go on to a character. -/
theorem front_cutOff {b : UInt8} {r : List UInt8} (h : front b r = .incomplete) : CutOff (b :: r) := by
  have hcont : isCont 0x80 = true := rfl
  obtain ⟨hw, hb⟩ | ⟨hw, hb⟩ | ⟨hw, hb⟩ | ⟨hw, hb⟩ | hw := width_cases b <;> simp only [front, hw] at h
  · cases h
  · rcases r with _ | ⟨b1, r⟩
    · exact ⟨_, [0x80], by simp, encode_two hb hcont⟩
    · dsimp only at h
      split at h <;> cases h
  · rcases r with _ | ⟨b1, r⟩
    · obtain ⟨b1, h1⟩ := secondOk_some b
      exact ⟨_, [b1, 0x80], by simp, encode_three hb h1 hcont⟩
    · dsimp only at h
      split at h
      · rcases r with _ | ⟨b2, r⟩
        · exact ⟨_, [0x80], by simp, encode_three hb ‹_› hcont⟩
        · dsimp only at h
          split at h <;> cases h
      · cases h
  · rcases r with _ | ⟨b1, r⟩
    · obtain ⟨b1, h1⟩ := secondOk_some b
      exact ⟨_, [b1, 0x80, 0x80], by simp, encode_four hb h1 hcont hcont⟩
    · dsimp only at h
      split at h
      · rcases r with _ | ⟨b2, r⟩
        · exact ⟨_, [0x80, 0x80], by simp, encode_four hb ‹_› hcont hcont⟩
        · dsimp only at h
          split at h
          · rcases r with _ | ⟨b3, r⟩
            · exact ⟨_, [0x80], by simp, encode_four hb ‹_› ‹_› hcont⟩
            · dsimp only at h
              split at h <;> cases h
          · cases h
      · cases h
  · cases h

/-- A character's bytes cut off are cut off for the decoder too. -/
theorem CutOff.front {b : UInt8} {r : List UInt8} (h : CutOff (b :: r)) : front b r = .incomplete := by
  obtain ⟨c, s, hs, he⟩ := h
  obtain ⟨b', r', he', hf⟩ := front_encode c
  by_contra hne
  have heq : b' :: r' = b :: (r ++ s) := by rw [← he', he]; rfl
  obtain ⟨rfl, rfl⟩ := List.cons.inj heq
  -- what the decoder found in the bytes cut off it would find in the whole character
  have hwhole := hf []
  rw [List.append_nil, front_append _ _ _ hne] at hwhole
  have hlen := (front_len _ _ hne).2
  rw [hwhole, Front.len, List.length_append, List.length_cons] at hlen
  exact hs (List.eq_nil_of_length_eq_zero (by omega))

theorem Begins.front {b : UInt8} {r : List UInt8} (h : Begins (b :: r)) (k : Nat) : front b r ≠ .invalid k := by
  obtain ⟨c, s, he⟩ := h
  rcases s with _ | ⟨x, s⟩
  · obtain ⟨b', r', he', hf⟩ := front_encode c
    rw [List.append_nil, he'] at he
    obtain ⟨rfl, rfl⟩ := List.cons.inj he
    have := hf []
    rw [List.append_nil] at this
    rw [this]
    simp
  · rw [CutOff.front ⟨c, x :: s, by simp, he⟩]
    simp

/-- An invalid sequence: a first byte of no character, or bytes cut off by one more. -/
theorem front_invalid {b : UInt8} {r : List UInt8} {k : Nat} (h : front b r = .invalid k) :
    (k = 1 ∧ front b [] = .invalid 1) ∨
      ∃ q x rest, r = q ++ x :: rest ∧ k = q.length + 1 ∧ front b q = .incomplete ∧ front b (q ++ [x]) = .invalid k := by
  obtain ⟨hw, hb⟩ | ⟨hw, hb⟩ | ⟨hw, hb⟩ | ⟨hw, hb⟩ | hw := width_cases b <;> simp only [front, hw] at h ⊢
  · cases h
  · rcases r with _ | ⟨b1, r⟩
    · cases h
    · dsimp only at h
      split at h
      · cases h
      · cases h
        exact .inr ⟨[], b1, r, rfl, rfl, rfl, by simp [*]⟩
  · rcases r with _ | ⟨b1, r⟩
    · cases h
    · dsimp only at h
      split at h
      · rcases r with _ | ⟨b2, r⟩
        · cases h
        · dsimp only at h
          split at h
          · cases h
          · cases h
            exact .inr ⟨[b1], b2, r, rfl, rfl, by simp [*], by simp [*]⟩
      · cases h
        exact .inr ⟨[], b1, r, rfl, rfl, rfl, by simp [*]⟩
  · rcases r with _ | ⟨b1, r⟩
    · cases h
    · dsimp only at h
      split at h
      · rcases r with _ | ⟨b2, r⟩
        · cases h
        · dsimp only at h
          split at h
          · rcases r with _ | ⟨b3, r⟩
            · cases h
            · dsimp only at h
              split at h
              · cases h
              · cases h
                exact .inr ⟨[b1, b2], b3, r, rfl, rfl, by simp [*], by simp [*]⟩
          · cases h
            exact .inr ⟨[b1], b2, r, rfl, rfl, by simp [*], by simp [*]⟩
      · cases h
        exact .inr ⟨[], b1, r, rfl, rfl, rfl, by simp [*]⟩
  · cases h
    exact .inl ⟨rfl, trivial⟩

theorem front_lone {b : UInt8} {rest : List UInt8} (h : ¬Begins [b]) : front b rest = .invalid 1 := by
  have hnil : front b [] ≠ .incomplete := fun hf => h (front_cutOff hf).begins
  rw [← List.nil_append rest, front_append _ _ _ hnil]
  rcases hf : front b [] with ⟨c, k⟩ | k | _
  · have htake := front_scalar hf
    have hk := front_len b [] hnil
    rw [hf, Front.len, List.length_singleton] at hk
    rw [List.take_of_length_le (by rw [List.length_singleton]; omega)] at htake
    exact absurd ⟨c, [], by rw [← htake, List.append_nil]⟩ h
  · obtain ⟨rfl, -⟩ | ⟨q, x, rest, hnone, -⟩ := front_invalid hf
    · rfl
    · simp at hnone
  · exact absurd hf hnil

theorem front_broken {b : UInt8} {q : List UInt8} {x : UInt8} {rest : List UInt8} (h : CutOff (b :: q))
    (hx : ¬Begins (b :: q ++ [x])) : front b (q ++ x :: rest) = .invalid (q.length + 1) := by
  have hq := h.front
  -- already the byte `x` decides
  have hnext : front b (q ++ [x]) ≠ .incomplete := fun hf => hx (front_cutOff hf).begins
  rw [show q ++ x :: rest = (q ++ [x]) ++ rest by simp, front_append _ _ _ hnext]
  rcases hf : front b (q ++ [x]) with ⟨c, k⟩ | k | _
  · have htake := front_scalar hf
    have hk := (front_len b _ hnext).2
    rw [hf, Front.len, List.length_cons, List.length_append, List.length_singleton] at hk
    by_cases hall : k = q.length + 2
    · rw [List.take_of_length_le (by simp; omega)] at htake
      exact absurd ⟨c, [], by rw [List.append_nil, ← htake]; rfl⟩ hx
    · -- the character would lie in the bytes that are cut off
      obtain ⟨b', r', he, hc⟩ := front_encode c
      rw [← List.cons_append, List.take_append_of_le_length (by rw [List.length_cons]; omega), he] at htake
      have hsplit := List.take_append_drop k (b :: q)
      rw [htake] at hsplit
      obtain ⟨rfl, hsplit⟩ := List.cons.inj (List.cons_append ▸ hsplit)
      rw [← hsplit, hc] at hq
      cases hq
  · obtain ⟨-, hnil⟩ | ⟨q', x', rest', heq, rfl, -, hx'⟩ := front_invalid hf
    · have := front_append b [] q (by rw [hnil]; simp)
      rw [List.nil_append, hq, hnil] at this
      cases this
    · rcases List.eq_nil_or_concat' rest' with rfl | ⟨more, y, rfl⟩
      · rw [(List.append_inj' heq rfl).1]
      · rw [show q' ++ x' :: (more ++ [y]) = (q' ++ x' :: more) ++ [y] by simp] at heq
        rw [(List.append_inj' heq rfl).1, show q' ++ x' :: more = (q' ++ [x']) ++ more by simp,
          front_append _ _ _ (by rw [hx']; simp), hx'] at hq
        cases hq
  · exact absurd hf hnext

/-- What the decoder drops is a maximal invalid sequence. -/
theorem front_maximal {b : UInt8} {r : List UInt8} {k : Nat} (h : front b r = .invalid k) :
    MaximalInvalid ((b :: r).take k) ((b :: r).drop k) := by
  obtain ⟨rfl, hnil⟩ | ⟨q, x, rest, rfl, rfl, hq, hx⟩ := front_invalid h
  · exact .lone fun hb => hb.front 1 hnil
  · have hlen : (b :: q).length = q.length + 1 := rfl
    rw [← List.cons_append, List.take_left' hlen, List.drop_left' hlen]
    exact .broken (by simp) (front_cutOff hq) fun hb => hb.front _ hx

/-! ## The decoder reads at once -/

theorem Decodes.oneShot {l : List UInt8} {t : Text} {p : List UInt8} (h : Decodes l t p) : OneShot l t p := by
  induction h with
  | nil => exact .nil
  | @scalar b r c k t p hf _ ih =>
    rw [← List.take_append_drop k (b :: r), front_scalar hf]
    exact .keep c ih
  | @invalid b r k t p hf _ ih =>
    rw [← List.take_append_drop k (b :: r)]
    exact .drop (front_maximal hf) ih
  | incomplete hf => exact .pending (by simp) (front_cutOff hf)

theorem OneShot.decodes {l : List UInt8} {t : Text} {p : List UInt8} (h : OneShot l t p) : Decodes l t p := by
  induction h with
  | nil => exact .nil
  | @keep c l t p _ ih =>
    obtain ⟨b, r, he, hf⟩ := front_encode c
    have hlen : (b :: r).length = r.length + 1 := rfl
    rw [he, List.cons_append]
    exact .scalar (hf l) (by rw [← List.cons_append, List.drop_left' hlen]; exact ih)
  | @pending p hne hcut =>
    rcases p with _ | ⟨b, r⟩
    · exact absurd rfl hne
    · exact .incomplete hcut.front
  | @drop q l t p hmax _ ih =>
    cases hmax with
    | lone hb => exact .invalid (front_lone hb) ih
    | @broken q x rest hne hcut hx =>
      rcases q with _ | ⟨b, q⟩
      · exact absurd rfl hne
      · have hlen : (b :: q).length = q.length + 1 := rfl
        rw [List.cons_append]
        exact .invalid (front_broken hcut hx) (by rw [← List.cons_append, List.drop_left' hlen]; exact ih)

/-- Reading at once has one outcome, what the decoder computes. -/
theorem oneShot_iff {l : List UInt8} {t : Text} {p : List UInt8} : OneShot l t p ↔ Decodes l t p :=
  ⟨OneShot.decodes, Decodes.oneShot⟩

theorem OneShot.cutOff {l : List UInt8} {t : Text} {p : List UInt8} (h : OneShot l t p) : CutOff p := by
  induction h with
  | nil => exact ⟨'a', [0x61], by simp, rfl⟩
  | keep _ _ ih => exact ih
  | pending _ hcut => exact hcut
  | drop _ _ ih => exact ih

/-- A character has at most four bytes. -/
theorem CutOff.length_le {p : List UInt8} (h : CutOff p) : p.length ≤ 3 := by
  obtain ⟨c, s, hs, he⟩ := h
  have hlen := congrArg List.length he
  rw [String.length_utf8EncodeChar, List.length_append] at hlen
  have := Char.utf8Size_le_four c
  have := List.length_pos_of_ne_nil hs
  omega

/-! ## The loop of `push` -/

theorem validateN_bytes (t : Text) :
    ∀ n, (Text.bytes t).length ≤ n → validateN n (Text.bytes t) = ⟨t, (Text.bytes t).length, none⟩ := by
  induction t with
  | nil => intro n _; cases n <;> rfl
  | cons c t ih =>
    intro n hn
    obtain ⟨b, r, he, hf⟩ := front_encode c
    have hbytes : Text.bytes (c :: t) = b :: (r ++ Text.bytes t) := by simp [Text.bytes, he]
    have hlen : (b :: r).length = r.length + 1 := rfl
    rw [hbytes, List.length_cons, List.length_append] at hn ⊢
    obtain _ | n := n
    · omega
    · simp only [validateN, hf]
      rw [← List.cons_append, List.drop_left' hlen, ih n (by omega)]
      simp only [Validated.mk.injEq, and_true, true_and]
      omega

/-- `valid_up_to` bytes are the bytes of the text. -/
theorem validateN_text : ∀ (n : Nat) (l : List UInt8), Text.bytes (validateN n l).text = l.take (validateN n l).validUpTo
  | 0, l => by simp [validateN, Text.bytes]
  | n + 1, [] => by simp [validateN, Text.bytes]
  | n + 1, b :: r => by
    rcases hf : front b r with ⟨c, k⟩ | k | _ <;> simp only [validateN, hf]
    · have ih := validateN_text n ((b :: r).drop k)
      rw [List.take_add, front_scalar hf, ← ih]
      rfl
    · rfl
    · rfl

/-- The prefix that `from_utf8` found valid is valid. -/
theorem fromUtf8_valid (rest : List UInt8) : (fromUtf8 (rest.take (fromUtf8 rest).validUpTo)).error = none := by
  have h := validateN_text rest.length rest
  unfold fromUtf8
  rw [← h, validateN_bytes _ _ (Nat.le_refl _)]

namespace IncrementalUtf8

/-- Fuel beyond one round more than there are bytes changes nothing. -/
theorem pushN_fuel (rest : List UInt8) (n : Nat) : pushN (rest.length + 1 + n) rest = pushN (rest.length + 1) rest := by
  obtain ⟨ht, hp⟩ := (pushN_decodes (rest.length + 1 + n) rest (by omega)).unique
    (pushN_decodes (rest.length + 1) rest (by omega))
  exact Prod.ext ht hp

theorem pushAll_new (chunks : List (List UInt8)) :
    Decodes chunks.flatten (new.pushAll chunks).1 (new.pushAll chunks).2.pending := pushAll_decodes new .nil chunks

/-- However the bytes are cut into pushes, the outcome is that of reading them at once. -/
theorem pushes_one_shot (chunks : List (List UInt8)) :
    (∀ t p, OneShot chunks.flatten t p ↔ t = (new.pushAll chunks).1 ∧ p = (new.pushAll chunks).2.pending) ∧
      new.pushAll chunks = new.push chunks.flatten ∧
      (new.pushAll chunks).2.pending.length ≤ 3 ∧ CutOff (new.pushAll chunks).2.pending ∧
      ∀ rest n, pushN (rest.length + 1 + n) rest = pushN (rest.length + 1) rest ∧
        (fromUtf8 (rest.take (fromUtf8 rest).validUpTo)).error = none := by
  have hall := pushAll_new chunks
  have hone : Decodes chunks.flatten (new.push chunks.flatten).1 (new.push chunks.flatten).2.pending :=
    push_decodes new chunks.flatten
  have hcut := hall.oneShot.cutOff
  refine ⟨fun t p => oneShot_iff.trans ⟨fun h => h.unique hall, ?_⟩, ?_, hcut.length_le, hcut, fun rest n =>
    ⟨pushN_fuel rest n, fromUtf8_valid rest⟩⟩
  · rintro ⟨rfl, rfl⟩
    exact hall
  · obtain ⟨ht, hp⟩ := hall.unique hone
    exact Prod.ext ht (congrArg IncrementalUtf8.mk hp)

/-- A chunk that ends inside a character, and one that breaks the next. -/
example : new.pushAll [[0x68, 0xC3], [0xA9, 0xE2], [0x82], [0x41]] = (['h', 'é', 'A'], ⟨[]⟩) := by decide

end IncrementalUtf8

end Holdfast.Terminal

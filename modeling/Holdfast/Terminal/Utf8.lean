/-
  Holdfast.Terminal.Utf8 — incremental UTF-8 decoding of PTY output
  (`crates/terminal-model/src/utf8.rs`).

  `front` is what `std::str::from_utf8` decides at the first bytes of its argument: a
  complete scalar, an invalid sequence of known length (`error_len() = Some(len)`), or a
  sequence cut off by the end of the input (`error_len() = None`). `fromUtf8` runs it to
  the first error; `push` is the source's loop over `fromUtf8`, which drops every
  invalid sequence and keeps a cut-off tail in `pending`.

  Proved: `Decodes l t p` ("`l` decodes to text `t` and leaves `p` pending") is what
  `push` computes (`push_decodes`), it is a function of the bytes (`Decodes.unique`), and
  it composes over any cut (`Decodes.append`), so the text and the pending bytes after a
  list of pushes depend only on the concatenated bytes (`pushAll_decodes`).
-/

import Mathlib.Data.List.Basic
import Mathlib.Tactic

namespace Holdfast.Terminal

/-- Decoded text: Unicode scalar values, as in a Rust `String`. -/
abbrev Text := List Char

/-- `str::len`: the length of the UTF-8 encoding. -/
def Text.len (t : Text) : Nat := (t.map Char.utf8Size).sum

/-- `str::as_bytes`. -/
def Text.bytes (t : Text) : List UInt8 := t.flatMap String.utf8EncodeChar

/-! ## `std::str::from_utf8` -/

/-- `core::str::utf8_char_width`: the length a first byte announces, 0 for a byte that
    starts no sequence. -/
def utf8CharWidth (b : UInt8) : Nat :=
  if b.toNat < 0x80 then 1
  else if 0xC2 ≤ b.toNat ∧ b.toNat ≤ 0xDF then 2
  else if 0xE0 ≤ b.toNat ∧ b.toNat ≤ 0xEF then 3
  else if 0xF0 ≤ b.toNat ∧ b.toNat ≤ 0xF4 then 4
  else 0

def isCont (b : UInt8) : Bool := decide (0x80 ≤ b.toNat ∧ b.toNat ≤ 0xBF)

/-- The second byte of a three or four byte sequence: no overlong form, no surrogate,
    nothing above U+10FFFF. -/
def secondOk (b0 b1 : UInt8) : Bool :=
  if b0.toNat = 0xE0 then decide (0xA0 ≤ b1.toNat ∧ b1.toNat ≤ 0xBF)
  else if b0.toNat = 0xED then decide (0x80 ≤ b1.toNat ∧ b1.toNat ≤ 0x9F)
  else if b0.toNat = 0xF0 then decide (0x90 ≤ b1.toNat ∧ b1.toNat ≤ 0xBF)
  else if b0.toNat = 0xF4 then decide (0x80 ≤ b1.toNat ∧ b1.toNat ≤ 0x8F)
  else isCont b1

inductive Front where
  | scalar (c : Char) (len : Nat)
  | invalid (len : Nat)
  | incomplete
  deriving DecidableEq, Repr

/-- The first sequence of `b0 :: rest`. -/
def front (b0 : UInt8) (rest : List UInt8) : Front :=
  match utf8CharWidth b0 with
  | 1 => .scalar (Char.ofNat b0.toNat) 1
  | 2 =>
    match rest with
    | [] => .incomplete
    | b1 :: _ =>
      if isCont b1 then .scalar (Char.ofNat ((b0.toNat - 0xC0) * 0x40 + (b1.toNat - 0x80))) 2 else .invalid 1
  | 3 =>
    match rest with
    | [] => .incomplete
    | b1 :: r =>
      if secondOk b0 b1 then
        match r with
        | [] => .incomplete
        | b2 :: _ =>
          if isCont b2 then
            .scalar (Char.ofNat ((b0.toNat - 0xE0) * 0x1000 + (b1.toNat - 0x80) * 0x40 + (b2.toNat - 0x80))) 3
          else .invalid 2
      else .invalid 1
  | 4 =>
    match rest with
    | [] => .incomplete
    | b1 :: r =>
      if secondOk b0 b1 then
        match r with
        | [] => .incomplete
        | b2 :: r' =>
          if isCont b2 then
            match r' with
            | [] => .incomplete
            | b3 :: _ =>
              if isCont b3 then
                .scalar (Char.ofNat ((b0.toNat - 0xF0) * 0x40000 + (b1.toNat - 0x80) * 0x1000 +
                  (b2.toNat - 0x80) * 0x40 + (b3.toNat - 0x80))) 4
              else .invalid 3
          else .invalid 2
      else .invalid 1
  | _ => .invalid 1

/-- `from_utf8`'s answer: the text of the valid prefix, `valid_up_to`, and the error with
    its `error_len` (`none` when the whole input is valid). -/
structure Validated where
  text : Text
  validUpTo : Nat
  error : Option (Option Nat)
  deriving DecidableEq, Repr

def validateN : Nat → List UInt8 → Validated
  | 0, _ => ⟨[], 0, none⟩
  | _, [] => ⟨[], 0, none⟩
  | n + 1, b :: r =>
    match front b r with
    | .scalar c k =>
      let v := validateN n ((b :: r).drop k)
      ⟨c :: v.text, k + v.validUpTo, v.error⟩
    | .invalid k => ⟨[], 0, some (some k)⟩
    | .incomplete => ⟨[], 0, some none⟩

def fromUtf8 (bs : List UInt8) : Validated := validateN bs.length bs

/-! ## `IncrementalUtf8` -/

structure IncrementalUtf8 where
  pending : List UInt8
  deriving DecidableEq, Repr

namespace IncrementalUtf8

def new : IncrementalUtf8 := ⟨[]⟩

/-- The loop of `push`, with fuel for its rounds: each round but the last drops at least
    one byte. -/
def pushN : Nat → List UInt8 → Text × List UInt8
  | 0, rest => ([], rest)
  | n + 1, rest =>
    let v := fromUtf8 rest
    match v.error with
    | none => (v.text, [])
    -- Invalid sequence of known length: drop it, continue.
    | some (some len) =>
      let r := pushN n (rest.drop (v.validUpTo + len))
      (v.text ++ r.1, r.2)
    -- Incomplete trailing sequence: keep for next chunk.
    | some none => (v.text, rest.drop v.validUpTo)

def push (u : IncrementalUtf8) (input : List UInt8) : Text × IncrementalUtf8 :=
  let data := u.pending ++ input
  let r := pushN (data.length + 1) data
  (r.1, ⟨r.2⟩)

/-- Successive pushes: the concatenated text and the decoder after them. -/
def pushAll (u : IncrementalUtf8) : List (List UInt8) → Text × IncrementalUtf8
  | [] => ([], u)
  | c :: cs =>
    let r := u.push c
    let r' := pushAll r.2 cs
    (r.1 ++ r'.1, r'.2)

end IncrementalUtf8

/-! ## Decoding as a relation -/

/-- `l` decodes to `t` with `p` left pending. -/
inductive Decodes : List UInt8 → Text → List UInt8 → Prop
  | nil : Decodes [] [] []
  | scalar {b : UInt8} {r : List UInt8} {c : Char} {k : Nat} {t : Text} {p : List UInt8} :
      front b r = .scalar c k → Decodes ((b :: r).drop k) t p → Decodes (b :: r) (c :: t) p
  | invalid {b : UInt8} {r : List UInt8} {k : Nat} {t : Text} {p : List UInt8} :
      front b r = .invalid k → Decodes ((b :: r).drop k) t p → Decodes (b :: r) t p
  | incomplete {b : UInt8} {r : List UInt8} : front b r = .incomplete → Decodes (b :: r) [] (b :: r)

theorem Decodes.unique {l : List UInt8} {t t' : Text} {p p' : List UInt8} (h : Decodes l t p) (h' : Decodes l t' p') :
    t = t' ∧ p = p' := by
  induction h generalizing t' p' with
  | nil => cases h'; exact ⟨rfl, rfl⟩
  | scalar hf _ ih =>
    cases h' with
    | scalar hf' h2 =>
      rw [hf] at hf'; cases hf'
      obtain ⟨rfl, rfl⟩ := ih h2
      exact ⟨rfl, rfl⟩
    | invalid hf' _ => rw [hf] at hf'; cases hf'
    | incomplete hf' => rw [hf] at hf'; cases hf'
  | invalid hf _ ih =>
    cases h' with
    | scalar hf' _ => rw [hf] at hf'; cases hf'
    | invalid hf' h2 => rw [hf] at hf'; cases hf'; exact ih h2
    | incomplete hf' => rw [hf] at hf'; cases hf'
  | incomplete hf =>
    cases h' with
    | scalar hf' _ => rw [hf] at hf'; cases hf'
    | invalid hf' _ => rw [hf] at hf'; cases hf'
    | incomplete _ => exact ⟨rfl, rfl⟩

/-- A first sequence that is not cut off lies within the bytes at hand, and more bytes
    behind it do not change it. -/
theorem front_append (b : UInt8) (r s : List UInt8) (h : front b r ≠ .incomplete) :
    front b (r ++ s) = front b r := by
  unfold front at h ⊢
  split
  · rfl
  · rcases r with _ | ⟨b1, r⟩
    · simp_all
    · rfl
  · rcases r with _ | ⟨b1, r⟩
    · simp_all
    · rcases r with _ | ⟨b2, r⟩
      · simp only [List.cons_append, List.nil_append]
        by_cases h2 : secondOk b b1 = true
        · simp_all
        · simp [h2]
      · rfl
  · rcases r with _ | ⟨b1, r⟩
    · simp_all
    · rcases r with _ | ⟨b2, r⟩
      · simp only [List.cons_append, List.nil_append]
        by_cases h2 : secondOk b b1 = true
        · simp_all
        · simp [h2]
      · rcases r with _ | ⟨b3, r⟩
        · simp only [List.cons_append, List.nil_append]
          by_cases h2 : secondOk b b1 = true
          · by_cases h3 : isCont b2 = true
            · simp_all
            · simp [h2, h3]
          · simp [h2]
        · rfl
  · rfl

/-- How many bytes a first sequence takes: at least one, at most what is there. -/
def Front.len : Front → Nat
  | .scalar _ k => k
  | .invalid k => k
  | .incomplete => 0

theorem front_len (b : UInt8) (r : List UInt8) (h : front b r ≠ .incomplete) :
    1 ≤ (front b r).len ∧ (front b r).len ≤ (b :: r).length := by
  unfold front at h ⊢
  split
  · simp [Front.len]
  · rcases r with _ | ⟨b1, r⟩
    · simp_all
    · simp only; split <;> simp [Front.len]
  · rcases r with _ | ⟨b1, r⟩
    · simp_all
    · simp only
      split
      · rcases r with _ | ⟨b2, r⟩
        · simp_all
        · simp only; split <;> simp [Front.len]
      · simp [Front.len]
  · rcases r with _ | ⟨b1, r⟩
    · simp_all
    · simp only
      split
      · rcases r with _ | ⟨b2, r⟩
        · simp_all
        · simp only
          split
          · rcases r with _ | ⟨b3, r⟩
            · simp_all
            · simp only; split <;> simp [Front.len]
          · simp [Front.len]
      · simp [Front.len]
  · simp [Front.len]

/-- Decoding composes over any cut: what the first part leaves pending goes before the
    second. -/
theorem Decodes.append {l m : List UInt8} {t t' : Text} {p p' : List UInt8} (h : Decodes l t p)
    (h' : Decodes (p ++ m) t' p') : Decodes (l ++ m) (t ++ t') p' := by
  induction h with
  | nil => exact h'
  | @scalar b r c k t p hf _ ih =>
    have hn : front b r ≠ .incomplete := by rw [hf]; simp
    have hk := (front_len b r hn).2
    rw [hf] at hk
    have hd : ((b :: r) ++ m).drop k = (b :: r).drop k ++ m := List.drop_append_of_le_length hk
    rw [List.cons_append, List.cons_append]
    exact .scalar ((front_append b r m hn).trans hf) (by rw [← List.cons_append, hd]; exact ih h')
  | @invalid b r k t p hf _ ih =>
    have hn : front b r ≠ .incomplete := by rw [hf]; simp
    have hk := (front_len b r hn).2
    rw [hf] at hk
    have hd : ((b :: r) ++ m).drop k = (b :: r).drop k ++ m := List.drop_append_of_le_length hk
    rw [List.cons_append]
    exact .invalid ((front_append b r m hn).trans hf) (by rw [← List.cons_append, hd]; exact ih h')
  | incomplete _ => exact h'

/-- What is left pending decodes to nothing and stays pending. -/
theorem Decodes.pending_self {l : List UInt8} {t : Text} {p : List UInt8} (h : Decodes l t p) : Decodes p [] p := by
  induction h with
  | nil => exact .nil
  | scalar _ _ ih => exact ih
  | invalid _ _ ih => exact ih
  | incomplete hf => exact .incomplete hf

/-! ## What `push` computes -/

/-- `from_utf8` on a valid prefix followed by an error. -/
theorem validateN_decodes : ∀ (n : Nat) (l : List UInt8), l.length ≤ n →
    let v := validateN n l
    v.validUpTo ≤ l.length ∧
    (v.error = none → Decodes l v.text []) ∧
    (v.error = some none → Decodes l v.text (l.drop v.validUpTo)) ∧
    (∀ k, v.error = some (some k) → v.validUpTo + k ≤ l.length ∧ 1 ≤ k ∧
      ∀ t p, Decodes (l.drop (v.validUpTo + k)) t p → Decodes l (v.text ++ t) p) := by
  intro n
  induction n with
  | zero =>
    intro l hl
    have : l = [] := List.eq_nil_of_length_eq_zero (by omega)
    subst this
    exact ⟨Nat.le_refl _, fun _ => .nil, by simp [validateN], by simp [validateN]⟩
  | succ n ih =>
    intro l hl
    rcases l with _ | ⟨b, r⟩
    · exact ⟨Nat.le_refl _, fun _ => .nil, by simp [validateN], by simp [validateN]⟩
    · have hlen := front_len b r
      rcases hf : front b r with ⟨c, k⟩ | k | _
      · rw [hf] at hlen
        obtain ⟨hk1, hk2⟩ := hlen (by simp)
        simp only [Front.len] at hk1 hk2
        have hd : ((b :: r).drop k).length ≤ n := by rw [List.length_drop]; omega
        obtain ⟨h0, h1, h2, h3⟩ := ih _ hd
        rw [List.length_drop] at h0 h3
        simp only [validateN, hf]
        refine ⟨by omega, fun he => .scalar hf (h1 he), fun he => ?_, fun j he => ?_⟩
        · rw [← List.drop_drop]; exact .scalar hf (h2 he)
        · obtain ⟨h4, h5, h6⟩ := h3 j he
          refine ⟨by omega, h5, fun t p ht => .scalar hf (h6 t p ?_)⟩
          rw [List.drop_drop, ← Nat.add_assoc]; exact ht
      · rw [hf] at hlen
        obtain ⟨hk1, hk2⟩ := hlen (by simp)
        simp only [Front.len] at hk1 hk2
        simp only [validateN, hf]
        refine ⟨Nat.zero_le _, by simp, by simp, ?_⟩
        intro j he
        cases he
        refine ⟨by omega, hk1, ?_⟩
        intro t p ht
        rw [Nat.zero_add] at ht
        exact .invalid hf ht
      · simp only [validateN, hf]
        exact ⟨Nat.zero_le _, by simp, fun _ => .incomplete hf, by simp⟩

theorem IncrementalUtf8.pushN_decodes : ∀ (n : Nat) (l : List UInt8), l.length < n →
    Decodes l (pushN n l).1 (pushN n l).2 := by
  intro n
  induction n with
  | zero => intro l hl; omega
  | succ n ih =>
    intro l hl
    obtain ⟨_, h1, h2, h3⟩ := validateN_decodes l.length l (Nat.le_refl _)
    simp only [pushN]
    rcases he : (fromUtf8 l).error with _ | _ | k
    · exact h1 he
    · exact h2 he
    · obtain ⟨h4, h5, h6⟩ := h3 k he
      exact h6 _ _ (ih _ (by rw [List.length_drop]; omega))

/-- `push` decodes the pending bytes followed by its input. -/
theorem IncrementalUtf8.push_decodes (u : IncrementalUtf8) (input : List UInt8) :
    Decodes (u.pending ++ input) (u.push input).1 (u.push input).2.pending :=
  pushN_decodes _ _ (Nat.lt_succ_self _)

/-- However the input is cut into pushes, the text and the pending bytes are those of
    the concatenation. -/
theorem IncrementalUtf8.pushAll_decodes (u : IncrementalUtf8) (hu : Decodes u.pending [] u.pending)
    (cs : List (List UInt8)) :
    Decodes (u.pending ++ cs.flatten) (u.pushAll cs).1 (u.pushAll cs).2.pending := by
  induction cs generalizing u with
  | nil => simpa [pushAll] using hu
  | cons c cs ih =>
    have h := u.push_decodes c
    have hp : Decodes (u.push c).2.pending [] (u.push c).2.pending := h.pending_self
    have := h.append (ih _ hp)
    simpa [pushAll] using this

end Holdfast.Terminal

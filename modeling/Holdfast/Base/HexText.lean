/-
  Holdfast.Base.HexText — text cut at byte offsets, and read as pairs of hexadecimal digits.

  Text is a list of characters; an offset counts the bytes of their UTF-8 encoding. `slice`
  is `&text[i..j]`, with `none` for the panic of an offset inside a character or past the
  end. `fromStrRadix16` is `u8::from_str_radix(text, 16)`, which takes a sign. `readPairs`
  reads the bytes two at a time, as long as there is a number.

  - `readPairs_hexText`: the digits of bytes are read back.
  - `readPairs_iff`: it panics on no text, and reads digits only, exactly if the text is not
    `Misread`: after digits, and signs for the first of two, there is neither a character cut
    by a pair nor the end with a sign behind.
-/

import Mathlib.Data.List.Basic
import Mathlib.Tactic

namespace Holdfast.Base

/-- A call that returns, or panics. -/
inductive Ran (α : Type) where
  | panicked
  | returned (a : α)
  deriving DecidableEq, Repr

def Ran.map {α β : Type} (f : α → β) : Ran α → Ran β
  | .panicked => .panicked
  | .returned a => .returned (f a)

namespace HexText

/-- `str::len`. -/
def size (text : List Char) : Nat := (text.map Char.utf8Size).sum

/-- The text before an offset and behind it. -/
def splitAt : List Char → Nat → Option (List Char × List Char)
  | text, 0 => some ([], text)
  | [], _ + 1 => none
  | c :: text, n + 1 =>
    if c.utf8Size ≤ n + 1 then (splitAt text (n + 1 - c.utf8Size)).map fun (a, b) => (c :: a, b) else none

def slice (text : List Char) (i j : Nat) : Option (List Char) :=
  (splitAt text i).bind fun (_, rest) => (splitAt rest (j - i)).map Prod.fst

/-- `char::to_digit(16)`. -/
def hexValue (c : Char) : Option Nat :=
  if '0' ≤ c ∧ c ≤ '9' then some (c.toNat - 48)
  else if 'a' ≤ c ∧ c ≤ 'f' then some (c.toNat - 87)
  else if 'A' ≤ c ∧ c ≤ 'F' then some (c.toNat - 55)
  else none

/-- Digits of a `u8`, with its overflow checked. -/
def digits16 (digits : List Char) : Option Nat :=
  digits.foldlM (fun n c => (hexValue c).bind fun d => if n * 16 + d < 256 then some (n * 16 + d) else none) 0

def fromStrRadix16 : List Char → Option UInt8
  | [] => none
  -- a sign alone is no number, and a minus is no digit
  | ['+'] => none
  | ['-'] => none
  | '+' :: digits => (digits16 digits).map UInt8.ofNat
  | digits => (digits16 digits).map UInt8.ofNat

def consRead (byte : UInt8) : Ran (Option (List UInt8)) → Ran (Option (List UInt8))
  | .returned (some bytes) => .returned (some (byte :: bytes))
  | r => r

/-- `n` pairs of bytes from the pair `i` on, up to the first that is no number. -/
def readPairs (text : List Char) : Nat → Nat → Ran (Option (List UInt8))
  | 0, _ => .returned (some [])
  | n + 1, i =>
    match slice text (2 * i) (2 * i + 2) with
    | none => .panicked
    | some pair =>
      match fromStrRadix16 pair with
      | none => .returned none
      | some byte => consRead byte (readPairs text n (i + 1))

def hexDigit (n : Nat) : Char := if n < 10 then Char.ofNat (48 + n) else Char.ofNat (87 + n)

/-- `format!("{b:02x}")`. -/
def hexByte (b : UInt8) : List Char := [hexDigit (b.toNat / 16), hexDigit (b.toNat % 16)]

def hexText (bytes : List UInt8) : List Char := bytes.flatMap hexByte

def IsHex (c : Char) : Prop := (hexValue c).isSome = true

instance (c : Char) : Decidable (IsHex c) := inferInstanceAs (Decidable ((hexValue c).isSome = true))

/-- Pairs of characters that are taken for a number: a digit or a plus, and a digit. -/
inductive Pairs : List Char → Prop
  | nil : Pairs []
  | cons {a b : Char} {text : List Char} : (IsHex a ∨ a = '+') → IsHex b → Pairs text → Pairs (a :: b :: text)

/-- The first two bytes end inside a character. -/
inductive Splits : List Char → Prop
  | large {c : Char} {text : List Char} : 3 ≤ c.utf8Size → Splits (c :: text)
  | second {c d : Char} {text : List Char} : c.utf8Size = 1 → 2 ≤ d.utf8Size → Splits (c :: d :: text)

/-- Behind pairs that are taken for numbers, a pair ends inside a character; or there is
    nothing, and a sign was taken for a digit. -/
def Misread (text : List Char) : Prop :=
  ∃ pairs rest, text = pairs ++ rest ∧ Pairs pairs ∧ (Splits rest ∨ rest = [] ∧ '+' ∈ pairs)

/-! ## Offsets -/

@[simp] theorem size_nil : size [] = 0 := rfl

@[simp] theorem size_cons (c : Char) (text : List Char) : size (c :: text) = c.utf8Size + size text := by
  simp [size]

@[simp] theorem size_append (a b : List Char) : size (a ++ b) = size a + size b := by
  simp [size]

@[simp] theorem splitAt_zero (text : List Char) : splitAt text 0 = some ([], text) := by cases text <;> rfl

theorem splitAt_add {text a rest : List Char} {i : Nat} (h : splitAt text i = some (a, rest)) {k : Nat} {b rest' : List Char}
    (h' : splitAt rest k = some (b, rest')) : splitAt text (i + k) = some (a ++ b, rest') := by
  induction text generalizing i a with
  | nil =>
    cases i with
    | zero =>
      cases h
      rw [Nat.zero_add, List.nil_append]
      exact h'
    | succ i => cases h
  | cons c text ih =>
    cases i with
    | zero =>
      cases h
      rw [Nat.zero_add, List.nil_append]
      exact h'
    | succ i =>
      rw [splitAt] at h
      split at h
      · rename_i hfit
        obtain ⟨⟨a', rest''⟩, htail, heq⟩ := Option.map_eq_some_iff.mp h
        obtain ⟨rfl, rfl⟩ := Prod.mk.inj heq
        have hsub : i + 1 + k - c.utf8Size = i + 1 - c.utf8Size + k := by omega
        rw [show i + 1 + k = (i + k) + 1 by omega, splitAt, if_pos (by omega), show i + k + 1 = i + 1 + k by omega, hsub,
          ih htail]
        rfl
      · cases h

theorem slice_of {text a rest : List Char} {i : Nat} (h : splitAt text i = some (a, rest)) (k : Nat) :
    slice text i (i + k) = (splitAt rest k).map Prod.fst := by
  rw [slice, h, Nat.add_sub_cancel_left]
  rfl

/-- What two bytes are. -/
theorem splitAt_two (rest : List Char) :
    (∃ a b r, rest = a :: b :: r ∧ a.utf8Size = 1 ∧ b.utf8Size = 1 ∧ splitAt rest 2 = some ([a, b], r)) ∨
      (∃ c r, rest = c :: r ∧ c.utf8Size = 2 ∧ splitAt rest 2 = some ([c], r)) ∨
      (Splits rest ∧ splitAt rest 2 = none) ∨ size rest < 2 := by
  rcases rest with _ | ⟨a, rest⟩
  · exact .inr (.inr (.inr (by simp)))
  · have ha := Char.utf8Size_pos a
    rcases (by omega : a.utf8Size = 1 ∨ a.utf8Size = 2 ∨ 3 ≤ a.utf8Size) with h1 | h2 | h3
    · rcases rest with _ | ⟨b, rest⟩
      · exact .inr (.inr (.inr (by simp [h1])))
      · have hb := Char.utf8Size_pos b
        rcases (by omega : b.utf8Size = 1 ∨ 2 ≤ b.utf8Size) with hb1 | hb2
        · exact .inl ⟨a, b, rest, rfl, h1, hb1, by simp [splitAt, h1, hb1]⟩
        · refine .inr (.inr (.inl ⟨.second h1 hb2, ?_⟩))
          simp only [splitAt, h1]
          rw [if_pos (by decide), if_neg (by omega)]
          rfl
    · exact .inr (.inl ⟨a, rest, rfl, h2, by simp [splitAt, h2]⟩)
    · exact .inr (.inr (.inl ⟨.large h3, by rw [splitAt, if_neg (by omega)]⟩))

theorem Splits.splitAt {rest : List Char} (h : Splits rest) : HexText.splitAt rest 2 = none := by
  cases h with
  | large hc => rw [HexText.splitAt, if_neg (by omega)]
  | second hc hd =>
    simp only [HexText.splitAt, hc]
    rw [if_pos (by decide), if_neg (by omega)]
    rfl

/-! ## Digits -/

theorem hexValue_lt {c : Char} {d : Nat} (h : hexValue c = some d) : d < 16 := by
  unfold hexValue at h
  have hle : ∀ a b : Char, a ≤ b → a.toNat ≤ b.toNat := fun a b h => h
  split at h
  · rename_i hc
    have := hle _ _ hc.2
    cases h
    have : '9'.toNat = 57 := rfl
    omega
  · split at h
    · rename_i hc
      have := hle _ _ hc.2
      cases h
      have : 'f'.toNat = 102 := rfl
      omega
    · split at h
      · rename_i hc
        have := hle _ _ hc.2
        cases h
        have : 'F'.toNat = 70 := rfl
        omega
      · cases h

theorem IsHex.ascii {c : Char} (h : IsHex c) : c.utf8Size = 1 := by
  have hle : ∀ a b : Char, a ≤ b → a.toNat ≤ b.toNat := fun a b h => h
  have hsmall : c.toNat < 128 := by
    unfold IsHex hexValue at h
    split at h
    · rename_i hc
      exact Nat.lt_of_le_of_lt (hle _ _ hc.2) (by decide)
    · split at h
      · rename_i hc
        exact Nat.lt_of_le_of_lt (hle _ _ hc.2) (by decide)
      · split at h
        · rename_i hc
          exact Nat.lt_of_le_of_lt (hle _ _ hc.2) (by decide)
        · cases h
  have hval : c.val ≤ 0x7f := by
    rw [UInt32.le_iff_toNat_le]
    exact Nat.le_of_lt_succ hsmall
  simp [Char.utf8Size, hval]

theorem not_isHex_plus : ¬IsHex '+' := by decide

theorem digits16_pair {a b : Char} {m n : Nat} (ha : hexValue a = some m) (hb : hexValue b = some n) :
    digits16 [a, b] = some (m * 16 + n) := by
  have hm := hexValue_lt ha
  have hn := hexValue_lt hb
  simp only [digits16, List.foldlM_cons, List.foldlM_nil, ha, hb, Option.bind_some, Option.bind_eq_bind]
  rw [if_pos (by omega), Option.bind_some, if_pos (by omega)]
  simp

theorem digits16_one {b : Char} {n : Nat} (hb : hexValue b = some n) : digits16 [b] = some n := by
  have hn := hexValue_lt hb
  simp only [digits16, List.foldlM_cons, List.foldlM_nil, hb, Option.bind_some, Option.bind_eq_bind]
  rw [if_pos (by omega)]
  simp

theorem digits16_isSome {digits : List Char} (h : (digits16 digits).isSome = true) : ∀ c ∈ digits, IsHex c := by
  unfold digits16 at h
  generalize 0 = n at h
  induction digits generalizing n with
  | nil => simp
  | cons c digits ih =>
    rw [List.foldlM_cons] at h
    rcases hc : hexValue c with _ | d
    · simp [hc] at h
    · simp only [hc, Option.bind_some, Option.bind_eq_bind] at h
      split at h
      · exact List.forall_mem_cons.mpr ⟨by simp [IsHex, hc], ih _ h⟩
      · cases h

/-- Two characters are a number just if they are a pair. -/
theorem fromStrRadix16_pair {a b : Char} : (fromStrRadix16 [a, b]).isSome = true ↔ (IsHex a ∨ a = '+') ∧ IsHex b := by
  by_cases ha : a = '+'
  · subst ha
    have : fromStrRadix16 ['+', b] = (digits16 [b]).map UInt8.ofNat := rfl
    rw [this, Option.isSome_map]
    constructor
    · exact fun h => ⟨.inr rfl, digits16_isSome h b (by simp)⟩
    · rintro ⟨-, hb⟩
      obtain ⟨n, hn⟩ := Option.isSome_iff_exists.mp hb
      rw [digits16_one hn]
      rfl
  · have : fromStrRadix16 [a, b] = (digits16 [a, b]).map UInt8.ofNat := by
      unfold fromStrRadix16
      split <;> simp_all
    rw [this, Option.isSome_map]
    constructor
    · exact fun h => ⟨.inl (digits16_isSome h a (by simp)), digits16_isSome h b (by simp)⟩
    · rintro ⟨ha' | ha', hb⟩
      · obtain ⟨m, hm⟩ := Option.isSome_iff_exists.mp ha'
        obtain ⟨n, hn⟩ := Option.isSome_iff_exists.mp hb
        rw [digits16_pair hm hn]
        rfl
      · exact absurd ha' ha

/-- A character of two bytes is no number. -/
theorem fromStrRadix16_wide {c : Char} (h : c.utf8Size = 2) : fromStrRadix16 [c] = none := by
  have hplus : c ≠ '+' := fun hc => by rw [hc] at h; exact absurd h (by decide)
  have hminus : c ≠ '-' := fun hc => by rw [hc] at h; exact absurd h (by decide)
  have hdigits : digits16 [c] = none := by
    rcases hd : digits16 [c] with _ | n
    · rfl
    · have := (digits16_isSome (by rw [hd]; rfl) c (by simp)).ascii
      omega
  unfold fromStrRadix16
  split <;> simp_all

theorem hexValue_hexDigit {n : Nat} (h : n < 16) : hexValue (hexDigit n) = some n := by
  have hall : ∀ i : Fin 16, hexValue (hexDigit i) = some i.val := by decide
  exact hall ⟨n, h⟩

theorem isHex_hexText (bytes : List UInt8) : ∀ c ∈ hexText bytes, IsHex c := by
  induction bytes with
  | nil => simp [hexText]
  | cons b bytes ih =>
    have hlt := b.toNat_lt
    refine List.forall_mem_cons.mpr ⟨?_, List.forall_mem_cons.mpr ⟨?_, ih⟩⟩
    · rw [IsHex, hexValue_hexDigit (by omega)]
      rfl
    · rw [IsHex, hexValue_hexDigit (by omega)]
      rfl

theorem fromStrRadix16_hexByte (b : UInt8) : fromStrRadix16 (hexByte b) = some b := by
  have hlt := b.toNat_lt
  have hplus : hexDigit (b.toNat / 16) ≠ '+' := fun h => by
    have := hexValue_hexDigit (n := b.toNat / 16) (by omega)
    rw [h] at this
    cases this
  have hread : fromStrRadix16 (hexByte b) = (digits16 (hexByte b)).map UInt8.ofNat := by
    unfold hexByte fromStrRadix16
    split <;> simp_all
  rw [hread, hexByte, digits16_pair (hexValue_hexDigit (by omega)) (hexValue_hexDigit (by omega)), Nat.div_add_mod',
    Option.map_some, UInt8.ofNat_toNat]

/-! ## Pairs -/

theorem ascii_of_pair {a : Char} (h : IsHex a ∨ a = '+') : a.utf8Size = 1 := by
  rcases h with h | rfl
  · exact h.ascii
  · rfl

theorem Pairs.size {text : List Char} (h : Pairs text) : size text = text.length := by
  induction h with
  | nil => rfl
  | cons ha hb _ ih => rw [size_cons, size_cons, ih, ascii_of_pair ha, hb.ascii, List.length_cons, List.length_cons]; omega

theorem Pairs.even {text : List Char} (h : Pairs text) : text.length % 2 = 0 := by
  induction h with
  | nil => rfl
  | cons _ _ _ ih => rw [List.length_cons, List.length_cons]; omega

theorem Pairs.isHex {text : List Char} (h : Pairs text) (hplus : '+' ∉ text) : ∀ c ∈ text, IsHex c := by
  induction h with
  | nil => simp
  | @cons a b text ha hb _ ih =>
    simp only [List.mem_cons, not_or] at hplus
    refine List.forall_mem_cons.mpr ⟨ha.resolve_right (Ne.symm hplus.1), List.forall_mem_cons.mpr ⟨hb, ih hplus.2.2⟩⟩

/-- What the pairs from an offset on come to, by the text behind it. -/
inductive Reading (rest : List Char) : Ran (Option (List UInt8)) → Prop
  | panicked {pairs cut : List Char} : rest = pairs ++ cut → Pairs pairs → Splits cut → Reading rest .panicked
  | refused : ¬Pairs rest → (∀ pairs cut, rest = pairs ++ cut → Pairs pairs → ¬Splits cut) → Reading rest (.returned none)
  | read {bytes : List UInt8} : Pairs rest → Reading rest (.returned (some bytes))

/-- One more pair in front of what follows it. -/
theorem Reading.cons {a b : Char} {rest : List Char} {r : Ran (Option (List UInt8))} (h : Reading rest r) (ha : IsHex a ∨ a = '+')
    (hb : IsHex b) (byte : UInt8) : Reading (a :: b :: rest) (consRead byte r) := by
  cases h with
  | @panicked pairs cut heq hp hs => exact @Reading.panicked _ (a :: b :: pairs) cut (by rw [heq]; rfl) (.cons ha hb hp) hs
  | refused hnot hnone =>
    refine .refused (fun hp => ?_) fun pairs cut heq hp hs => ?_
    · cases hp with
      | cons _ _ hp => exact hnot hp
    · cases hp with
      | nil =>
        rw [List.nil_append] at heq
        rw [← heq] at hs
        cases hs with
        | large hc => rw [ascii_of_pair ha] at hc; omega
        | second _ hd => rw [hb.ascii] at hd; omega
      | @cons a' b' pairs _ _ hp =>
        obtain ⟨-, -, heq⟩ : a = a' ∧ b = b' ∧ rest = pairs ++ cut := by simpa using heq
        exact hnone pairs cut heq hp hs
  | read hp => exact .read (.cons ha hb hp)

theorem readPairs_reading (text : List Char) (n : Nat) : ∀ (i : Nat) (a rest : List Char), splitAt text (2 * i) = some (a, rest) →
    size rest = 2 * n → Reading rest (readPairs text n i) := by
  induction n with
  | zero =>
    intro i a rest _ hsize
    rcases rest with _ | ⟨c, rest⟩
    · exact .read .nil
    · have := Char.utf8Size_pos c
      rw [size_cons] at hsize
      omega
  | succ n ih =>
    intro i a rest hat hsize
    have hslice := slice_of hat 2
    obtain ⟨x, y, r, rfl, hx, hy, htwo⟩ | ⟨c, r, rfl, hc, htwo⟩ | ⟨hs, htwo⟩ | hshort := splitAt_two rest
    · rw [htwo, Option.map_some] at hslice
      simp only [readPairs, hslice]
      by_cases hpair : (IsHex x ∨ x = '+') ∧ IsHex y
      · obtain ⟨byte, hbyte⟩ := Option.isSome_iff_exists.mp (fromStrRadix16_pair.mpr hpair)
        have hrest := ih (i + 1) (a ++ [x, y]) r (by rw [Nat.mul_succ]; exact splitAt_add hat htwo)
          (by rw [size_cons, size_cons, hx, hy] at hsize; omega)
        simp only [hbyte]
        exact hrest.cons hpair.1 hpair.2 byte
      · have hnone : fromStrRadix16 [x, y] = none := by
          rcases hr : fromStrRadix16 [x, y] with _ | byte
          · rfl
          · exact absurd (fromStrRadix16_pair.mp (by rw [hr]; rfl)) hpair
        simp only [hnone]
        refine .refused (fun hp => ?_) fun pairs cut heq hp hs => ?_
        · cases hp with
          | cons h1 h2 _ => exact hpair ⟨h1, h2⟩
        · cases hp with
          | nil =>
            rw [List.nil_append] at heq
            rw [← heq] at hs
            have := hs.splitAt
            rw [htwo] at this
            cases this
          | @cons x' y' pairs h1 h2 _ =>
            obtain ⟨rfl, rfl, -⟩ : x = x' ∧ y = y' ∧ r = pairs ++ cut := by simpa using heq
            exact hpair ⟨h1, h2⟩
    · rw [htwo, Option.map_some] at hslice
      simp only [readPairs, hslice, fromStrRadix16_wide hc]
      refine .refused (fun hp => ?_) fun pairs cut heq hp hs => ?_
      · cases hp with
        | cons h1 _ _ => rw [ascii_of_pair h1] at hc; omega
      · cases hp with
        | nil =>
          rw [List.nil_append] at heq
          rw [← heq] at hs
          have := hs.splitAt
          rw [htwo] at this
          cases this
        | @cons x' y' pairs h1 h2 _ =>
          obtain ⟨rfl, -⟩ : c = x' ∧ r = y' :: (pairs ++ cut) := by simpa using heq
          rw [ascii_of_pair h1] at hc
          omega
    · rw [htwo, Option.map_none] at hslice
      simp only [readPairs, hslice]
      exact @Reading.panicked _ [] _ rfl .nil hs
    · omega

/-- Reading never panics and takes only digits, exactly if the text is not misread. -/
theorem readPairs_iff {text : List Char} {n : Nat} (hsize : size text = 2 * n) :
    (readPairs text n 0 ≠ .panicked ∧ ∀ bytes, readPairs text n 0 = .returned (some bytes) → ∀ c ∈ text, IsHex c) ↔
    ¬Misread text := by
  have h := readPairs_reading text n 0 [] text (by simp) hsize
  generalize readPairs text n 0 = r at h
  constructor
  · rintro ⟨hrun, hhex⟩ ⟨pairs, rest, heq, hp, hs | ⟨rfl, hplus⟩⟩
    · cases h with
      | panicked => exact hrun rfl
      | refused _ hnone => exact hnone pairs rest heq hp hs
      | @read bytes _ =>
        have hrest : ∀ c ∈ rest, IsHex c := fun c hc => hhex bytes rfl c (by rw [heq]; exact List.mem_append_right _ hc)
        cases hs with
        | @large c _ hc => rw [(hrest c (by simp)).ascii] at hc; omega
        | @second c d _ _ hd => rw [(hrest d (by simp)).ascii] at hd; omega
    · rw [List.append_nil] at heq
      subst heq
      cases h with
      | panicked heq _ hs =>
        exact hrun rfl
      | refused hnot _ => exact hnot hp
      | @read bytes _ => exact not_isHex_plus (hhex bytes rfl '+' hplus)
  · intro hmis
    cases h with
    | panicked heq hp hs => exact absurd ⟨_, _, heq, hp, .inl hs⟩ hmis
    | refused => exact ⟨by simp, by simp⟩
    | read hp =>
      refine ⟨by simp, fun _ _ => hp.isHex fun hplus => hmis ⟨text, [], by simp, hp, .inr ⟨rfl, hplus⟩⟩⟩

/-- Text that is read has a character for each byte. -/
theorem readPairs_length {text : List Char} {n : Nat} (hsize : size text = 2 * n) {bytes : List UInt8}
    (h : readPairs text n 0 = .returned (some bytes)) : text.length = 2 * n := by
  have hr := readPairs_reading text n 0 [] text (by simp) hsize
  rw [h] at hr
  cases hr with
  | read hp => rw [← hp.size, hsize]

theorem readPairs_bytes {text : List Char} {n i : Nat} {bytes : List UInt8} (h : readPairs text n i = .returned (some bytes)) :
    bytes.length = n := by
  induction n generalizing i bytes with
  | zero => cases h; rfl
  | succ n ih =>
    rw [readPairs] at h
    split at h
    · cases h
    · split at h
      · cases h
      · rcases hrest : readPairs text n (i + 1) with _ | _ | rest <;> rw [hrest] at h <;> cases h
        rw [List.length_cons, ih hrest]

theorem size_hexText (bytes : List UInt8) : size (hexText bytes) = 2 * bytes.length := by
  induction bytes with
  | nil => rfl
  | cons b bytes ih =>
    have hall := isHex_hexText (b :: bytes)
    have h1 := (hall (hexDigit (b.toNat / 16)) (by simp [hexText, hexByte])).ascii
    have h2 := (hall (hexDigit (b.toNat % 16)) (by simp [hexText, hexByte])).ascii
    have hcons : hexText (b :: bytes) = hexDigit (b.toNat / 16) :: hexDigit (b.toNat % 16) :: hexText bytes := rfl
    rw [hcons, size_cons, size_cons, ih, h1, h2, List.length_cons]
    omega

theorem readPairs_digits (text : List Char) (bytes : List UInt8) : ∀ (i : Nat) (a : List Char),
    splitAt text (2 * i) = some (a, hexText bytes) → readPairs text bytes.length i = .returned (some bytes) := by
  induction bytes with
  | nil => intro i a _; rfl
  | cons b bytes ih =>
    intro i a hat
    have htwo : splitAt (hexText (b :: bytes)) 2 = some (hexByte b, hexText bytes) := by
      have hall := isHex_hexText (b :: bytes)
      have h1 := (hall (hexDigit (b.toNat / 16)) (by simp [hexText, hexByte])).ascii
      have h2 := (hall (hexDigit (b.toNat % 16)) (by simp [hexText, hexByte])).ascii
      show splitAt (hexDigit (b.toNat / 16) :: hexDigit (b.toNat % 16) :: hexText bytes) 2 = _
      simp [splitAt, h1, h2, hexByte]
    have hslice := slice_of hat 2
    rw [htwo, Option.map_some] at hslice
    have hrest := ih (i + 1) (a ++ hexByte b) (by rw [Nat.mul_succ]; exact splitAt_add hat htwo)
    rw [List.length_cons]
    simp only [readPairs, hslice, fromStrRadix16_hexByte, hrest, consRead]

/-- The digits of bytes are read back. -/
theorem readPairs_hexText (bytes : List UInt8) : readPairs (hexText bytes) bytes.length 0 = .returned (some bytes) :=
  readPairs_digits _ bytes 0 [] (by simp)

end HexText

end Holdfast.Base

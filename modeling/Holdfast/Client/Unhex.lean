/-
  Holdfast.Client.Unhex — the clients' own hexadecimal text (`hex` and `unhex` of
  `crates/client-core/src/store.rs` and, the same, of `crates/native-client/src/state.rs`).

  `unhex` cuts its text at every second byte, so it shares the faults of the identifiers'
  parser (`Protocol.IdText`). The journal works with what it returns, on text that `hex`
  wrote.

  Proved:
  - `unhexText_unhex`: where it returns, it returns what the journal's `unhex` does.
  - `texts_exact`: shown identifiers and bytes are read back; and a parser panics on no text
    and takes digits only, exactly if it does not misread the text.
-/

import Holdfast.Client.Journal
import Holdfast.Protocol.IdText

namespace Holdfast.Client

open Holdfast.Base Holdfast.Protocol Holdfast.Session HexText

def unhexText (text : List Char) : Ran (Option (List UInt8)) :=
  if size text % 2 ≠ 0 then .returned none else readPairs text (size text / 2) 0

/-- It does not panic, and takes an even number of digits, nothing else. -/
def ExactHex (text : List Char) : Prop :=
  unhexText text ≠ .panicked ∧
    ∀ bytes, unhexText text = .returned (some bytes) → text.length % 2 = 0 ∧ ∀ c ∈ text, IsHex c

/-! ## What the journal reads -/

theorem fromStrRadix_eq (a b : Char) : fromStrRadix16 [a, b] = fromStrRadix a b := by
  by_cases ha : a = '+'
  · subst ha
    have : fromStrRadix16 ['+', b] = (digits16 [b]).map UInt8.ofNat := rfl
    rw [this, fromStrRadix, if_pos rfl]
    rcases hb : hexValue b with _ | n
    · rcases hd : digits16 [b] with _ | n
      · rfl
      · have := digits16_isSome (by rw [hd]; rfl) b (by simp)
        rw [IsHex, hb] at this
        cases this
    · rw [digits16_one hb]
  · have : fromStrRadix16 [a, b] = (digits16 [a, b]).map UInt8.ofNat := by
      unfold fromStrRadix16
      split <;> simp_all
    rw [this, fromStrRadix, if_neg ha]
    rcases hd : digits16 [a, b] with _ | n
    · rcases hav : hexValue a with _ | m
      · rfl
      · rcases hbv : hexValue b with _ | k
        · rfl
        · rw [digits16_pair hav hbv] at hd
          cases hd
    · have hall := digits16_isSome (by rw [hd]; rfl)
      obtain ⟨m, hm⟩ := Option.isSome_iff_exists.mp (hall a (by simp))
      obtain ⟨k, hk⟩ := Option.isSome_iff_exists.mp (hall b (by simp))
      rw [digits16_pair hm hk] at hd
      cases hd
      simp only [hm, hk, Option.bind_some, Option.map_some]

theorem fromStrRadix_some {a b : Char} {byte : UInt8} (h : fromStrRadix a b = some byte) : (IsHex a ∨ a = '+') ∧ IsHex b := by
  rw [← fromStrRadix_eq] at h
  exact fromStrRadix16_pair.mp (by rw [h]; rfl)

theorem unhexChars_pairs {text : List Char} {bytes : List UInt8} (h : unhexChars text = some bytes) : Pairs text := by
  induction text using unhexChars.induct generalizing bytes with
  | case1 => exact .nil
  | case2 => cases h
  | case3 a b rest ih =>
    rw [unhexChars] at h
    obtain ⟨byte, hbyte, h⟩ := Option.bind_eq_some_iff.mp h
    obtain ⟨bytes', hrest, -⟩ := Option.map_eq_some_iff.mp h
    obtain ⟨ha, hb⟩ := fromStrRadix_some hbyte
    exact .cons ha hb (ih hrest)

theorem readPairs_unhexChars (text : List Char) (n : Nat) :
    ∀ (i : Nat) (a rest : List Char), splitAt text (2 * i) = some (a, rest) →
    size rest = 2 * n → ∀ r, readPairs text n i = .returned r → unhexChars rest = r := by
  induction n with
  | zero =>
    intro i a rest _ hsize r hr
    cases hr
    rcases rest with _ | ⟨c, rest⟩
    · rfl
    · have := Char.utf8Size_pos c
      rw [size_cons] at hsize
      omega
  | succ n ih =>
    intro i a rest hat hsize r hr
    have hslice := slice_of hat 2
    obtain ⟨x, y, rest, rfl, hx, hy, htwo⟩ | ⟨c, rest, rfl, hc, htwo⟩ | ⟨hs, htwo⟩ | hshort := splitAt_two rest
    · rw [htwo, Option.map_some] at hslice
      have hnext := ih (i + 1) (a ++ [x, y]) rest (by rw [Nat.mul_succ]; exact splitAt_add hat htwo)
        (by rw [size_cons, size_cons, hx, hy] at hsize; omega)
      simp only [readPairs, hslice, fromStrRadix_eq] at hr
      rw [unhexChars]
      rcases hbyte : fromStrRadix x y with _ | byte <;> rw [hbyte] at hr
      · cases hr
        rfl
      · rcases hrest : readPairs text n (i + 1) with _ | _ | bytes <;> simp only [hrest, consRead] at hr <;> cases hr
        · rw [hnext none hrest]
          rfl
        · rw [hnext (some bytes) hrest]
          rfl
    · rw [htwo, Option.map_some] at hslice
      simp only [readPairs, hslice, fromStrRadix16_wide hc] at hr
      cases hr
      rcases rest with _ | ⟨d, rest⟩
      · rfl
      · rcases hbyte : fromStrRadix c d with _ | byte
        · rw [unhexChars, hbyte]
          rfl
        · have := ascii_of_pair (fromStrRadix_some hbyte).1
          omega
    · rw [htwo, Option.map_none] at hslice
      simp only [readPairs, hslice] at hr
      cases hr
    · omega

/-- Where it returns, it returns what the journal reads. -/
theorem unhexText_unhex {text : List Char} {r : Option (List UInt8)} (h : unhexText text = .returned r) :
    unhex (String.ofList text) = r := by
  rw [unhex, String.toList_ofList]
  unfold unhexText at h
  split at h
  · rename_i hodd
    cases h
    rcases hread : unhexChars text with _ | bytes
    · rfl
    · have hp := unhexChars_pairs hread
      have := hp.size
      have := hp.even
      omega
  · exact readPairs_unhexChars text _ 0 [] text (by simp) (by omega) r h

/-! ## What is read back, and what else is taken -/

theorem unhexText_hex (bytes : List UInt8) : unhexText (hex bytes).toList = .returned (some bytes) := by
  have hsize := size_hexText bytes
  have hhalf : 2 * bytes.length / 2 = bytes.length := by omega
  rw [hex, String.toList_ofList, unhexText, show bytes.flatMap hexByte = hexText bytes from rfl, hsize, if_neg (by omega), hhalf]
  exact readPairs_hexText bytes

theorem unhexText_iff (text : List Char) : ExactHex text ↔ ¬(size text % 2 = 0 ∧ Misread text) := by
  unfold ExactHex unhexText
  by_cases heven : size text % 2 = 0
  · have hsize : size text = 2 * (size text / 2) := by omega
    rw [if_neg (by omega)]
    simp only [heven, true_and]
    rw [← readPairs_iff hsize]
    constructor
    · exact fun h => ⟨h.1, fun bytes hread => (h.2 bytes hread).2⟩
    · refine fun h => ⟨h.1, fun bytes hread => ⟨?_, h.2 bytes hread⟩⟩
      rw [readPairs_length hsize hread]
      omega
  · simp [heven]

/-- Identifiers and bytes are read back from their text. Other text is refused without a
    panic, unless it is misread. -/
theorem texts_exact (server : ServerId) (shell : ShellId) (bytes : List UInt8) (value : List Char) :
    ServerId.fromStr server.display = .returned (.ok server) ∧ ShellId.fromStr shell.display = .returned (.ok shell) ∧
      unhexText (hex bytes).toList = .returned (some bytes) ∧
      (Exact serverPrefix value (ServerId.fromStr value) ↔ ¬MisreadId serverPrefix value) ∧
      (Exact shellPrefix value (ShellId.fromStr value) ↔ ¬MisreadId shellPrefix value) ∧
      (ExactHex value ↔ ¬(size value % 2 = 0 ∧ Misread value)) := by
  refine ⟨?_, ?_, unhexText_hex bytes, ?_, ?_, unhexText_iff value⟩
  · rw [ServerId.fromStr, ServerId.display, idFromStr_idText]
    rfl
  · rw [ShellId.fromStr, ShellId.display, idFromStr_idText]
    rfl
  · rw [ServerId.fromStr, Exact.map, idFromStr_iff]
  · rw [ShellId.fromStr, Exact.map, idFromStr_iff]

/-- Fifteen characters of two bytes, one byte out of step: the parser panics. Sixteen signs
    with a digit each are an identifier. -/
theorem texts_misread :
    ServerId.fromStr ('a' :: List.replicate 15 'é' ++ ['a']) = .panicked ∧
      ServerId.fromStr (List.replicate 16 ['+', 'f']).flatten = .returned (.ok ⟨Vector.replicate 16 15⟩) ∧
      unhexText ['a', 'é', 'a'] = .panicked ∧ unhexText ['+', 'f'] = .returned (some [15]) ∧
      ¬∀ value, Exact serverPrefix value (ServerId.fromStr value) := by
  have hpanic : ServerId.fromStr ('a' :: List.replicate 15 'é' ++ ['a']) = .panicked := by decide +kernel
  exact ⟨hpanic, by decide +kernel, by decide +kernel, by decide +kernel, fun h => (h _).1 hpanic⟩

end Holdfast.Client

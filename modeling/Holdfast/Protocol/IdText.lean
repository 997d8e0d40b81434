/-
  Holdfast.Protocol.IdText — identifiers as text (`Display` and `FromStr` of
  `crates/protocol/src/ids.rs`): a prefix for the type, an underscore and 32 hexadecimal
  digits; the prefix may be left out.

  The text is cut into pairs of bytes and each pair handed to `u8::from_str_radix`, so it can
  be cut inside a character, and a pair may start with a sign.

  Proved:
  - `idFromStr_idText`: what is shown is parsed back.
  - `idFromStr_iff`: parsing never panics and takes digits only, exactly if the text behind
    the prefix does not have 32 bytes or is not `Misread`.
-/

import Holdfast.Base.HexText
import Holdfast.Protocol.Ids

namespace Holdfast.Protocol

open Holdfast.Base Holdfast.Session HexText

inductive IdError where
  | badLength (n : Nat)
  | badEncoding
  deriving DecidableEq, Repr

/-- `strip_prefix(..).unwrap_or(value)`. -/
def stripPrefix (pre value : List Char) : List Char := (value.dropPrefix? pre).getD value

/-- `Display` of every identifier type. -/
def idText (pre : List Char) (id : Vector UInt8 16) : List Char := pre ++ '_' :: hexText id.toList

/-- `from_str` of every identifier type. -/
def idFromStr (pre value : List Char) : Ran (Except IdError (Vector UInt8 16)) :=
  let hex := stripPrefix (pre ++ ['_']) value
  if size hex ≠ 32 then .returned (.error .badEncoding)
  else
    match readPairs hex 16 0 with
    | .panicked => .panicked
    | .returned none => .returned (.error .badEncoding)
    | .returned (some bytes) => .returned (match fromWire bytes with
      | some id => .ok id
      | none => .error (.badLength bytes.length))

def serverPrefix : List Char := ['s', 'r', 'v']

def shellPrefix : List Char := ['s', 'h']

def ServerId.display (id : ServerId) : List Char := idText serverPrefix id.bytes

def ServerId.fromStr (value : List Char) : Ran (Except IdError ServerId) :=
  (idFromStr serverPrefix value).map fun r => r.map ServerId.mk

/-- The parser does not panic, and takes the prefix or not and 32 digits, nothing else. -/
def Exact {α : Type} (pre value : List Char) (r : Ran (Except IdError α)) : Prop :=
  r ≠ .panicked ∧ ∀ id, r = .returned (.ok id) →
    ∃ digits, (value = digits ∨ value = pre ++ '_' :: digits) ∧ digits.length = 32 ∧ ∀ c ∈ digits, IsHex c

/-- The parser is handed 32 bytes that it misreads. -/
def MisreadId (pre value : List Char) : Prop :=
  size (stripPrefix (pre ++ ['_']) value) = 32 ∧ Misread (stripPrefix (pre ++ ['_']) value)

theorem stripPrefix_append (pre rest : List Char) : stripPrefix pre (pre ++ rest) = rest := by
  rw [stripPrefix, List.dropPrefix?_eq_some_iff.mpr ⟨pre, rfl, beq_self_eq_true pre⟩]
  rfl

theorem stripPrefix_cases (pre value : List Char) : value = pre ++ stripPrefix pre value ∨ stripPrefix pre value = value := by
  unfold stripPrefix
  rcases h : value.dropPrefix? pre with _ | rest
  · exact .inr rfl
  · obtain ⟨pre', heq, hpre⟩ := List.dropPrefix?_eq_some_iff.mp h
    rw [eq_of_beq hpre] at heq
    exact .inl heq

/-- Digits do not start with a prefix. -/
theorem stripPrefix_digits {pre digits : List Char} (h : ∀ c ∈ digits, IsHex c) : stripPrefix (pre ++ ['_']) digits = digits := by
  rcases stripPrefix_cases (pre ++ ['_']) digits with heq | hsame
  · have : IsHex '_' := h '_' (by rw [heq]; simp)
    exact absurd this (by decide)
  · exact hsame

theorem fromWire_toWire (id : Vector UInt8 16) : fromWire id.toList = some id := by
  unfold fromWire
  rw [dif_pos (by simp)]
  rfl

theorem fromWire_some {bytes : List UInt8} (h : bytes.length = 16) : ∃ id, fromWire bytes = some id := by
  unfold fromWire
  rw [dif_pos h]
  exact ⟨_, rfl⟩

/-- What is shown is parsed back. -/
theorem idFromStr_idText (pre : List Char) (id : Vector UInt8 16) : idFromStr pre (idText pre id) = .returned (.ok id) := by
  have hstrip : stripPrefix (pre ++ ['_']) (idText pre id) = hexText id.toList := by
    rw [idText, show pre ++ '_' :: hexText id.toList = (pre ++ ['_']) ++ hexText id.toList by simp, stripPrefix_append]
  have hlen : id.toList.length = 16 := by simp
  have hsize : size (hexText id.toList) = 32 := by rw [size_hexText, hlen]
  have hread := readPairs_hexText id.toList
  rw [hlen] at hread
  simp only [idFromStr, hstrip, hsize, hread, fromWire_toWire, ne_eq, not_true_eq_false, if_false]

theorem idFromStr_iff (pre value : List Char) : Exact pre value (idFromStr pre value) ↔ ¬MisreadId pre value := by
  unfold Exact MisreadId idFromStr
  by_cases hsize : size (stripPrefix (pre ++ ['_']) value) = 32
  · have hiff := readPairs_iff (n := 16) hsize
    simp only [hsize, ne_eq, not_true_eq_false, if_false, true_and]
    rw [← hiff]
    constructor
    · rintro ⟨hrun, hdigits⟩
      refine ⟨fun hp => hrun (by rw [hp]), fun bytes hread => ?_⟩
      obtain ⟨id, hid⟩ := fromWire_some (readPairs_bytes hread)
      obtain ⟨digits, heq, -, hhex⟩ := hdigits id (by simp only [hread, hid])
      rcases heq with rfl | rfl
      · rw [stripPrefix_digits hhex]
        exact hhex
      · rw [show pre ++ '_' :: digits = (pre ++ ['_']) ++ digits by simp, stripPrefix_append]
        exact hhex
    · rintro ⟨hrun, hdigits⟩
      rcases hread : readPairs (stripPrefix (pre ++ ['_']) value) 16 0 with _ | _ | bytes
      · exact absurd hread hrun
      · exact ⟨by simp, by simp⟩
      · refine ⟨by simp, fun id _ => ⟨stripPrefix (pre ++ ['_']) value, ?_, readPairs_length hsize hread, hdigits bytes hread⟩⟩
        rcases stripPrefix_cases (pre ++ ['_']) value with heq | hsame
        · right
          rw [show pre ++ '_' :: stripPrefix (pre ++ ['_']) value = (pre ++ ['_']) ++ stripPrefix (pre ++ ['_']) value by simp]
          exact heq
        · exact .inl hsame.symm
  · simp [hsize]

theorem Exact.map {α β : Type} {pre value : List Char} {r : Ran (Except IdError α)} (f : α → β) :
    Exact pre value (r.map fun r => r.map f) ↔ Exact pre value r := by
  rcases r with _ | e | a
  · simp [Exact, Ran.map]
  · simp [Exact, Ran.map, Except.map]
  · simp only [Exact, Ran.map, Except.map, ne_eq, reduceCtorEq, not_false_eq_true, true_and, Ran.returned.injEq, Except.ok.injEq]
    exact ⟨fun h id _ => h (f a) rfl, fun h id _ => h a rfl⟩

end Holdfast.Protocol

namespace Holdfast.Session

open Holdfast.Base Holdfast.Protocol

def ShellId.display (id : ShellId) : List Char := idText shellPrefix id.bytes

def ShellId.fromStr (value : List Char) : Ran (Except IdError ShellId) :=
  (idFromStr shellPrefix value).map fun r => r.map ShellId.mk

end Holdfast.Session

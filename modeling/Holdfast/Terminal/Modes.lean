/-
  Holdfast.Terminal.Modes — input-relevant DEC private modes, tracked for snapshots
  (`crates/terminal-model/src/modes.rs`).

  The tracker scans the decoded text the emulator sees. It keeps which of the `tracked`
  modes are on and replays them as `CSI ? n h` after the emulator's dump
  (`restoreSequence`). The parameter bytes of the current control sequence live in a
  fixed buffer of `maxParams` bytes beside the state, as in the source; only the first
  `paramsLen` of them are meaningful.

  Proved: scanning composes over concatenation (`scan_append`), so the tracker's state is
  a function of the whole text.
-/

import Holdfast.Terminal.Utf8

namespace Holdfast.Terminal

/-- DEC private modes replayed by the snapshot, in replay order. -/
def tracked : Vector Nat 11 := #v[1, 9, 1000, 1002, 1003, 1004, 1005, 1006, 1007, 1015, 2004]

/-- Enabling one of these disables the others. -/
def mouseProtocols : List Nat := [9, 1000, 1002, 1003]

def maxParams : Nat := 32

structure CsiFrame where
  isPrivate : Bool
  bang : Bool
  /-- The sequence still consumes input but is never applied. -/
  invalid : Bool
  paramsLen : Nat
  deriving DecidableEq, Repr

def CsiFrame.default : CsiFrame := ⟨false, false, false, 0⟩

inductive ModeState where
  | ground
  | escape
  | csi (frame : CsiFrame)
  /-- Inside an OSC/DCS/SOS/PM/APC payload; skip until BEL or ST. -/
  | stringBody
  | stringEscape
  deriving DecidableEq, Repr

structure ModeTracker where
  state : ModeState
  params : Vector UInt8 maxParams
  active : Vector Bool 11
  deriving DecidableEq, Repr

namespace ModeTracker

def allOff : Vector Bool 11 := Vector.replicate 11 false

def new : ModeTracker := ⟨.ground, Vector.replicate maxParams 0, allOff⟩

/-- `TRACKED.iter().position(|&c| c == code)`. -/
def position (code : Nat) : Option (Fin 11) := (List.finRange 11).find? fun i => tracked[i] == code

/-- The mode at `i` on or off. -/
def put (active : Vector Bool 11) (i : Fin 11) (set : Bool) : Vector Bool 11 := active.set i set

/-- Turn the mode `code` off, if it is tracked. -/
def off (active : Vector Bool 11) (code : Nat) : Vector Bool 11 :=
  match position code with
  | some i => put active i false
  | none => active

def apply (active : Vector Bool 11) (code : Nat) (set : Bool) : Vector Bool 11 :=
  match position code with
  | none => active
  | some index =>
    let cleared :=
      if set && mouseProtocols.contains code then
        (mouseProtocols.filter (· != code)).foldl off active
      else active
    put cleared index set

/-- `str::split(';')` on the parameter bytes. -/
def splitParams (bs : List UInt8) : List (List UInt8) := bs.splitOn (UInt8.ofNat 0x3B)

/-- `str::parse::<u16>` on ASCII digits: no digit, or a value past `u16::MAX`, is an
    error. -/
def parseU16 (digits : List UInt8) : Option Nat :=
  if digits.isEmpty then none
  else
    let n := digits.foldl (fun n d => n * 10 + (d.toNat - 0x30)) 0
    if n < 2 ^ 16 then some n else none

def finishCsi (t : ModeTracker) (frame : CsiFrame) (finalByte : Char) : Vector Bool 11 :=
  if frame.invalid then t.active
  -- DECSTR soft reset returns the tracked modes to their defaults.
  else if frame.bang && finalByte == 'p' then allOff
  else if !frame.isPrivate || (finalByte != 'h' && finalByte != 'l') then t.active
  else
    let set := finalByte == 'h'
    (splitParams (t.params.toList.take frame.paramsLen)).foldl
      (fun active part => match parseU16 part with
        | some code => apply active code set
        | none => active) t.active

/-- One parameter byte: stored while there is room, the sequence given up otherwise. -/
def pushParam (t : ModeTracker) (frame : CsiFrame) (ch : Char) : ModeTracker :=
  if h : frame.paramsLen < maxParams then
    { t with params := t.params.set frame.paramsLen (UInt8.ofNat ch.toNat)
             state := .csi { frame with paramsLen := frame.paramsLen + 1 } }
  else { t with state := .csi { frame with invalid := true } }

def stepCsi (t : ModeTracker) (frame : CsiFrame) (ch : Char) : ModeTracker :=
  if ch == '?' && frame.paramsLen == 0 && !frame.isPrivate then
    { t with state := .csi { frame with isPrivate := true } }
  else if ('0' ≤ ch ∧ ch ≤ '9') ∨ ch = ';' then pushParam t frame ch
  else if ch ∈ [':', '<', '=', '>', '?'] then { t with state := .csi { frame with invalid := true } }
  else if ch = '!' then { t with state := .csi { frame with bang := true } }
  -- Other intermediates: not a sequence we track.
  else if 0x20 ≤ ch.toNat ∧ ch.toNat ≤ 0x2f then { t with state := .csi { frame with invalid := true } }
  else if 0x40 ≤ ch.toNat ∧ ch.toNat ≤ 0x7e then { t with active := finishCsi t frame ch, state := .ground }
  else if ch.toNat = 0x1b then { t with state := .escape }
  -- CAN / SUB abort
  else if ch.toNat = 0x18 ∨ ch.toNat = 0x1a then { t with state := .ground }
  -- other C0: ignore
  else if ch.toNat ≤ 0x1f then { t with state := .csi frame }
  else { t with state := .ground }

def step (t : ModeTracker) (ch : Char) : ModeTracker :=
  match t.state with
  | .ground =>
    if ch.toNat = 0x1b then { t with state := .escape }
    else if ch.toNat = 0x9b then { t with state := .csi .default }
    else { t with state := .ground }
  | .escape =>
    if ch = '[' then { t with state := .csi .default }
    else if ch ∈ [']', 'P', 'X', '^', '_'] then { t with state := .stringBody }
    -- RIS: full reset clears every tracked mode.
    else if ch = 'c' then { t with active := allOff, state := .ground }
    else if ch.toNat = 0x1b then { t with state := .escape }
    else { t with state := .ground }
  | .csi frame => stepCsi t frame ch
  | .stringBody =>
    if ch.toNat = 0x07 ∨ ch.toNat = 0x9c then { t with state := .ground }
    else if ch.toNat = 0x18 ∨ ch.toNat = 0x1a then { t with state := .ground }
    else if ch.toNat = 0x1b then { t with state := .stringEscape }
    else { t with state := .stringBody }
  | .stringEscape =>
    if ch = '\\' then { t with state := .ground }
    else if ch.toNat = 0x1b then { t with state := .stringEscape }
    else { t with state := .stringBody }

def scan (t : ModeTracker) (text : Text) : ModeTracker := text.foldl step t

/-- `format!("\x1b[?{code}h")`. -/
def setSequence (code : Nat) : Text := [Char.ofNat 0x1b, '[', '?'] ++ (Nat.toDigits 10 code) ++ ['h']

def restoreSequence (t : ModeTracker) : Text :=
  (List.finRange 11).flatMap fun i => if t.active[i] then setSequence tracked[i] else []

@[simp] theorem scan_nil (t : ModeTracker) : t.scan [] = t := rfl

theorem scan_append (t : ModeTracker) (a b : Text) : t.scan (a ++ b) = (t.scan a).scan b :=
  List.foldl_append

end ModeTracker

end Holdfast.Terminal

/-
  Holdfast.Terminal.Functions — the functions of the vendored emulator and the parser that
  reads them (`Parser` of `vendor/avt/src/parser.rs`).

  A character past U+009F counts as a letter. As in `Holdfast.Terminal.Parser`, some
  characters do the same in every state (`anywhere`) and the others are read state by state
  (`within`). Of the parameters the list up to the current one is kept, of each parameter its
  parts up to the current one; the others are zero. The inline storage of short lists is
  not modelled.
-/

import Holdfast.Terminal.Parser
import Holdfast.Terminal.Pen

namespace Holdfast.Vendor

open Holdfast.Terminal
open Avt (State DecMode SgrOp Color Hyperlink Attr)

inductive Charset where
  | ascii
  | drawing
  deriving DecidableEq, Repr

inductive AnsiMode where
  | insert
  | newLine
  deriving DecidableEq, Repr

inductive CtcOp where
  | set
  | clearCurrentColumn
  | clearAll
  deriving DecidableEq, Repr

inductive EdScope where
  | below
  | above
  | all
  | savedLines
  deriving DecidableEq, Repr

inductive ElScope where
  | toRight
  | toLeft
  | all
  deriving DecidableEq, Repr

inductive TbcScope where
  | currentColumn
  | all
  deriving DecidableEq, Repr

inductive Function where
  | bs
  | cbt (n : Nat)
  | cha (n : Nat)
  | cht (n : Nat)
  | cnl (n : Nat)
  | cpl (n : Nat)
  | cr
  | ctc (op : CtcOp)
  | cub (n : Nat)
  | cud (n : Nat)
  | cuf (n : Nat)
  | cup (row col : Nat)
  | cuu (n : Nat)
  | dch (n : Nat)
  | decaln
  | decrc
  | decrst (modes : List DecMode)
  | decsc
  | decset (modes : List DecMode)
  | decstbm (top bottom : Nat)
  | decstr
  | dl (n : Nat)
  | ech (n : Nat)
  | ed (scope : EdScope)
  | el (scope : ElScope)
  | g1d4 (charset : Charset)
  | gzd4 (charset : Charset)
  | ht
  | hts
  | ich (n : Nat)
  | il (n : Nat)
  | lf
  | nel
  | print (ch : Char)
  | rep (n : Nat)
  | ri
  | ris
  | rm (modes : List AnsiMode)
  | scorc
  | scosc
  | sd (n : Nat)
  | setHyperlink (link : Option Hyperlink)
  | sgr (ops : List SgrOp)
  | si
  | sm (modes : List AnsiMode)
  | so
  | su (n : Nat)
  | tbc (scope : TbcScope)
  | vpa (n : Nat)
  | vpr (n : Nat)
  | xtwinops (cols rows : Nat)
  deriving DecidableEq, Repr

/-! ## Parameters -/

def maxParamLen : Nat := 6

structure Param where
  /-- The parts before the current one. -/
  before : List Nat
  part : Nat
  deriving DecidableEq, Repr

namespace Param

def clear : Param := ⟨[], 0⟩

def parts (p : Param) : List Nat := p.before ++ [p.part]

/-- `as_u16`. -/
def asU16 (p : Param) : Nat := p.parts.headD 0

def addPart (p : Param) : Param :=
  -- the last part stays the current one
  if p.before.length + 1 = maxParamLen then p else ⟨p.before ++ [p.part], 0⟩

/-- A `u16` that wraps. -/
def addDigit (p : Param) (digit : Nat) : Param := { p with part := (10 * p.part + digit) % 2 ^ 16 }

end Param

def ansiMode (p : Param) : Option AnsiMode :=
  match p.asU16 with
  | 4 => some .insert
  | 20 => some .newLine
  | _ => none

def decMode (p : Param) : Option DecMode :=
  match p.asU16 with
  | 1 => some .cursorKeys
  | 6 => some .origin
  | 7 => some .autoWrap
  | 25 => some .textCursorEnable
  | 47 => some .altScreenBuffer
  | 1047 => some .altScreenBuffer
  | 1048 => some .saveCursor
  | 1049 => some .saveCursorAltScreenBuffer
  | _ => none

/-! ## SGR -/

def rgb (r g b : Nat) : Color := .rgb (UInt8.ofNat r) (UInt8.ofNat g) (UInt8.ofNat b)

/-- A colour after a 38 or a 48: what it is, if it is one, and how many parameters it takes. -/
def sgrColor (ps : List Param) : Option Color × Nat :=
  match ps with
  | _ :: kind :: rest =>
    if kind.parts = [2] then
      match rest with
      | r :: g :: b :: _ => (some (rgb r.asU16 g.asU16 b.asU16), 5)
      | _ => (none, 2)
    else if kind.parts = [5] then
      match rest with
      | idx :: _ => (some (.indexed (UInt8.ofNat idx.asU16)), 3)
      | _ => (none, 2)
    else (none, 1)
  | _ => (none, 1)

/-- The operation of one part alone. -/
def sgrOne (n : Nat) : Option SgrOp :=
  if 30 ≤ n ∧ n ≤ 37 then some (.setForegroundColor (.ansi (UInt8.ofNat (n - 30))))
  else if 40 ≤ n ∧ n ≤ 47 then some (.setBackgroundColor (.ansi (UInt8.ofNat (n - 40))))
  else if 90 ≤ n ∧ n ≤ 97 then some (.setForegroundColor (.ansi (UInt8.ofNat (n - 90 + 8))))
  else if 100 ≤ n ∧ n ≤ 107 then some (.setBackgroundColor (.ansi (UInt8.ofNat (n - 100 + 8))))
  else
    match n with
    | 0 => some .reset
    | 1 => some .setBoldIntensity
    | 2 => some .setFaintIntensity
    | 3 => some (.set .italic)
    | 4 => some (.set .underline)
    | 5 => some (.set .blink)
    | 7 => some (.set .inverse)
    | 8 => some (.set .invisible)
    | 9 => some (.set .strikethrough)
    | 21 => some .resetIntensity
    | 22 => some .resetIntensity
    | 23 => some (.unset .italic)
    | 24 => some (.unset .underline)
    | 25 => some (.unset .blink)
    | 27 => some (.unset .inverse)
    | 28 => some (.unset .invisible)
    | 29 => some (.unset .strikethrough)
    | 39 => some .resetForegroundColor
    | 49 => some .resetBackgroundColor
    | _ => none

/-- The operation that the parameters begin with, if there is one, and how many it takes. -/
def sgrNext (ps : List Param) : Option SgrOp × Nat :=
  match ps with
  | [] => (none, 1)
  | p :: rest =>
    match p.parts with
    | [38] => ((sgrColor ps).1.map .setForegroundColor, (sgrColor ps).2)
    | [48] => ((sgrColor ps).1.map .setBackgroundColor, (sgrColor ps).2)
    -- the operands of an underline colour are passed over
    | [58] =>
      match rest with
      | kind :: _ =>
        if kind.parts = [2] ∧ 5 ≤ ps.length then (none, 5)
        else if kind.parts = [5] ∧ 3 ≤ ps.length then (none, 3)
        else (none, 1)
      | [] => (none, 1)
    | [n] => (sgrOne n, 1)
    | [4, style] => (some (if style = 0 then .unset .underline else .set .underline), 1)
    | [38, 2, r, g, b] => (some (.setForegroundColor (rgb r g b)), 1)
    | [38, 2, _, r, g, b] => (some (.setForegroundColor (rgb r g b)), 1)
    | [38, 5, idx] => (some (.setForegroundColor (.indexed (UInt8.ofNat idx))), 1)
    | [48, 2, r, g, b] => (some (.setBackgroundColor (rgb r g b)), 1)
    | [48, 2, _, r, g, b] => (some (.setBackgroundColor (rgb r g b)), 1)
    | [48, 5, idx] => (some (.setBackgroundColor (.indexed (UInt8.ofNat idx))), 1)
    | _ => (none, 1)

/-- `SgrOpsDecoder`; each round takes at least one parameter. -/
def sgrOps : Nat → List Param → List SgrOp
  | 0, _ => []
  | _ + 1, [] => []
  | rounds + 1, p :: rest => (sgrNext (p :: rest)).1.toList ++ sgrOps rounds ((p :: rest).drop (sgrNext (p :: rest)).2)

/-! ## The parser -/

def paramsLen : Nat := 32

def maxOscBytes : Nat := 4096

structure Parser where
  state : State
  /-- The parameters before the current one. -/
  done : List Param
  current : Param
  intermediate : Option Char
  osc : Text
  oscOverflow : Bool
  oscPending : Bool
  deriving DecidableEq, Repr

namespace Parser

def new : Parser := ⟨.ground, [], .clear, none, [], false, false⟩

def params (p : Parser) : List Param := p.done ++ [p.current]

/-- `ps[i].as_u16()`. -/
def ps (p : Parser) (i : Nat) : Nat := (p.params[i]?.getD .clear).asU16

def goto (p : Parser) (state : State) : Parser := { p with state := state }

def clear (p : Parser) : Parser := { p with done := [], current := .clear, intermediate := none }

def collect (p : Parser) (input : Char) : Parser := { p with intermediate := some input }

def param (p : Parser) (input : Char) : Parser :=
  if input = ';' then
    -- the last parameter stays the current one
    if p.done.length + 1 = paramsLen then p else { p with done := p.done ++ [p.current], current := .clear }
  else if input = ':' then { p with current := p.current.addPart }
  else { p with current := p.current.addDigit (input.toNat - 0x30) }

def oscClear (p : Parser) : Parser := { p with osc := [], oscOverflow := false }

/-- A payload that is too long is dropped whole. -/
def oscPut (p : Parser) (input : Char) : Parser :=
  if p.oscOverflow then p
  else if Text.len p.osc + input.utf8Size > maxOscBytes then { p with osc := [], oscOverflow := true }
  else { p with osc := p.osc ++ [input] }

/-- `str::split_once`. -/
def splitOnce (sep : Char) (t : Text) : Option (Text × Text) :=
  if sep ∈ t then some (t.takeWhile (· ≠ sep), (t.dropWhile (· ≠ sep)).drop 1) else none

/-- `str::strip_prefix`. -/
def stripPrefix (start t : Text) : Option Text := if start <+: t then some (t.drop start.length) else none

/-- The `id=` of the parameters of a link, or nothing. -/
def linkId (params : Text) : Text := ((params.splitOn ':').findSome? (stripPrefix ['i', 'd', '='])).getD []

def parseHyperlink (p : Parser) : Option Function :=
  if p.oscOverflow then none
  else
    match stripPrefix ['8', ';'] p.osc with
    | none => none
    | some rest =>
      match splitOnce ';' rest with
      | none => none
      | some (params, uri) =>
        if uri.isEmpty then some (.setHyperlink none)
        else some (.setHyperlink (some ⟨String.ofList (linkId params), String.ofList uri⟩))

def oscDispatch (p : Parser) : Parser × Option Function := (p.oscClear, p.parseHyperlink)

def execute (n : Nat) : Option Function :=
  match n with
  | 0x08 => some .bs
  | 0x09 => some .ht
  | 0x0a => some .lf
  | 0x0b => some .lf
  | 0x0c => some .lf
  | 0x0d => some .cr
  | 0x0e => some .so
  | 0x0f => some .si
  | 0x84 => some .lf
  | 0x85 => some .nel
  | 0x88 => some .hts
  | 0x8d => some .ri
  | _ => none

def escDispatch (p : Parser) (input : Char) : Option Function :=
  match p.intermediate with
  | none =>
    if '@' ≤ input ∧ input ≤ '_' then execute (input.toNat + 0x40)
    else if input = '7' then some .decsc
    else if input = '8' then some .decrc
    else if input = 'c' then some .ris
    else none
  | some '#' => if input = '8' then some .decaln else none
  | some '(' => some (.gzd4 (if input = '0' then .drawing else .ascii))
  | some ')' => some (.g1d4 (if input = '0' then .drawing else .ascii))
  | some _ => none

/-- The functions without an intermediate. -/
def csiPlain (p : Parser) (input : Char) : Option Function :=
  -- U+0060 is the same as G
  if input.toNat = 0x60 then some (.cha (p.ps 0)) else
  match input with
  | '@' => some (.ich (p.ps 0))
  | 'A' => some (.cuu (p.ps 0))
  | 'B' => some (.cud (p.ps 0))
  | 'C' => some (.cuf (p.ps 0))
  | 'D' => some (.cub (p.ps 0))
  | 'E' => some (.cnl (p.ps 0))
  | 'F' => some (.cpl (p.ps 0))
  | 'G' => some (.cha (p.ps 0))
  | 'H' => some (.cup (p.ps 0) (p.ps 1))
  | 'I' => some (.cht (p.ps 0))
  | 'J' =>
    match p.ps 0 with
    | 0 => some (.ed .below)
    | 1 => some (.ed .above)
    | 2 => some (.ed .all)
    | 3 => some (.ed .savedLines)
    | _ => none
  | 'K' =>
    match p.ps 0 with
    | 0 => some (.el .toRight)
    | 1 => some (.el .toLeft)
    | 2 => some (.el .all)
    | _ => none
  | 'L' => some (.il (p.ps 0))
  | 'M' => some (.dl (p.ps 0))
  | 'P' => some (.dch (p.ps 0))
  | 'S' => some (.su (p.ps 0))
  | 'T' => some (.sd (p.ps 0))
  | 'W' =>
    match p.ps 0 with
    | 0 => some (.ctc .set)
    | 2 => some (.ctc .clearCurrentColumn)
    | 5 => some (.ctc .clearAll)
    | _ => none
  | 'X' => some (.ech (p.ps 0))
  | 'Z' => some (.cbt (p.ps 0))
  | 'a' => some (.cuf (p.ps 0))
  | 'b' => some (.rep (p.ps 0))
  | 'd' => some (.vpa (p.ps 0))
  | 'e' => some (.vpr (p.ps 0))
  | 'f' => some (.cup (p.ps 0) (p.ps 1))
  | 'g' =>
    match p.ps 0 with
    | 0 => some (.tbc .currentColumn)
    | 3 => some (.tbc .all)
    | _ => none
  | 'h' => some (.sm (p.params.filterMap ansiMode))
  | 'l' => some (.rm (p.params.filterMap ansiMode))
  | 'm' => some (.sgr (sgrOps p.params.length p.params))
  | 'r' => some (.decstbm (p.ps 0) (p.ps 1))
  | 's' => some .scosc
  | 't' => if p.ps 0 = 8 then some (.xtwinops (p.ps 2) (p.ps 1)) else none
  | 'u' => some .scorc
  | _ => none

def csiDispatch (p : Parser) (input : Char) : Option Function :=
  match p.intermediate with
  | none => p.csiPlain input
  | some '!' => if input = 'p' then some .decstr else none
  | some '?' =>
    if input = 'h' then some (.decset (p.params.filterMap decMode))
    else if input = 'l' then some (.decrst (p.params.filterMap decMode))
    else none
  | some _ => none

/-- What `n` does in every state. -/
def anywhere (p : Parser) (n : Nat) : Option (Parser × Option Function) :=
  if n = 0x1b then some ({ p.clear.goto .escape with oscPending := p.state == .oscString }, none)
  else if n = 0x18 ∨ n = 0x1a ∨ (0x80 ≤ n ∧ n ≤ 0x8f) ∨ (0x91 ≤ n ∧ n ≤ 0x97) ∨ n = 0x99 ∨ n = 0x9a then
    some (p.goto .ground, execute n)
  else if n = 0x98 ∨ n = 0x9e ∨ n = 0x9f then some (p.goto .sosPmApcString, none)
  else if n = 0x9c then
    if p.state = .oscString then some ((p.goto .ground).oscDispatch) else some (p.goto .ground, none)
  else if n = 0x9d then some ((p.goto .oscString).oscClear, none)
  else if n = 0x90 then some (p.clear.goto .dcsEntry, none)
  else if n = 0x9b then some (p.clear.goto .csiEntry, none)
  else none

/-- The other characters, which are below `0x80`; `n` is what `input` counts as. -/
def within (p : Parser) (n : Nat) (input : Char) : Parser × Option Function :=
  match p.state with
  | .ground => if n ≤ 0x1f then (p, execute n) else (p, some (.print input))
  | .escape =>
    if n ≤ 0x1f then (p, execute n)
    else if n ≤ 0x2f then ((p.collect input).goto .escapeIntermediate, none)
    else if n = 0x50 then (p.clear.goto .dcsEntry, none)
    else if n = 0x58 ∨ n = 0x5e ∨ n = 0x5f then (p.goto .sosPmApcString, none)
    else if n = 0x5b then (p.clear.goto .csiEntry, none)
    else if n = 0x5d then ((p.goto .oscString).oscClear, none)
    else if n = 0x5c ∧ p.oscPending then { p.goto .ground with oscPending := false }.oscDispatch
    else if n ≤ 0x7e then (p.goto .ground, p.escDispatch input)
    else (p, none)
  | .escapeIntermediate =>
    if n ≤ 0x1f then (p, execute n)
    else if n ≤ 0x2f then (p.collect input, none)
    else if n ≤ 0x7e then (p.goto .ground, p.escDispatch input)
    else (p, none)
  | .csiEntry =>
    if n ≤ 0x1f then (p, execute n)
    else if n ≤ 0x2f then ((p.collect input).goto .csiIntermediate, none)
    else if n = 0x3a then (p.goto .csiIgnore, none)
    else if n ≤ 0x3b then ((p.param input).goto .csiParam, none)
    else if n ≤ 0x3f then ((p.collect input).goto .csiParam, none)
    else if n ≤ 0x7e then (p.goto .ground, p.csiDispatch input)
    else (p, none)
  | .csiParam =>
    if n ≤ 0x1f then (p, execute n)
    else if n ≤ 0x2f then ((p.collect input).goto .csiIntermediate, none)
    else if n ≤ 0x3b then (p.param input, none)
    else if n ≤ 0x3f then (p.goto .csiIgnore, none)
    else if n ≤ 0x7e then (p.goto .ground, p.csiDispatch input)
    else (p, none)
  | .csiIntermediate =>
    if n ≤ 0x1f then (p, execute n)
    else if n ≤ 0x2f then (p.collect input, none)
    else if n ≤ 0x3f then (p.goto .csiIgnore, none)
    else if n ≤ 0x7e then (p.goto .ground, p.csiDispatch input)
    else (p, none)
  | .csiIgnore =>
    if n ≤ 0x1f then (p, execute n)
    else if 0x40 ≤ n ∧ n ≤ 0x7e then (p.goto .ground, none)
    else (p, none)
  | .dcsEntry =>
    if n ≤ 0x1f then (p, none)
    else if n ≤ 0x2f then ((p.collect input).goto .dcsIntermediate, none)
    else if n = 0x3a then (p.goto .dcsIgnore, none)
    else if n ≤ 0x3b then ((p.param input).goto .dcsParam, none)
    else if n ≤ 0x3f then ((p.collect input).goto .dcsParam, none)
    else if n ≤ 0x7e then (p.goto .dcsPassthrough, none)
    else (p, none)
  | .dcsParam =>
    if n ≤ 0x1f then (p, none)
    else if n ≤ 0x2f then ((p.collect input).goto .dcsIntermediate, none)
    else if n ≤ 0x39 ∨ n = 0x3b then (p.param input, none)
    else if n ≤ 0x3f then (p.goto .dcsIgnore, none)
    else if n ≤ 0x7e then (p.goto .dcsPassthrough, none)
    else (p, none)
  | .dcsIntermediate =>
    if n ≤ 0x1f then (p, none)
    else if n ≤ 0x2f then (p.collect input, none)
    else if n ≤ 0x3f then (p.goto .dcsIgnore, none)
    else if n ≤ 0x7e then (p.goto .dcsPassthrough, none)
    else (p, none)
  | .dcsPassthrough => (p, none)
  | .dcsIgnore => (p, none)
  | .oscString =>
    if n = 0x07 then (p.goto .ground).oscDispatch
    else if n ≤ 0x1f then (p, none)
    else (p.oscPut input, none)
  | .sosPmApcString => (p, none)

def feed (p : Parser) (input : Char) : Parser × Option Function :=
  match p.anywhere (Avt.Parser.code input) with
  | some r => r
  | none => p.within (Avt.Parser.code input) input

end Parser

end Holdfast.Vendor

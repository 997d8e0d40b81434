/-
  Holdfast.Terminal.FunctionDump — functions written out as text, and read again
  (`dump_function` and `dump_sgr_color` of `vendor/avt/src/parser.rs`).

  A terminal dumps itself as a list of functions. Every parameter that is written is a number.
  That a dump reproduces the terminal is assumed where a snapshot is taken
  (`TerminalModel.Redraws`); this module stands on its own, and has the part of it that is
  about the text.

  A function is `Writable` if its numbers are `u16`s, what it prints is printable, a list of
  modes fits the parameters, and a link has a target and a payload that fits. An SGR list
  must fit the parameters too (`Fits`), for a colour takes three or five of them.

  Proved:
  - `writable_of_functions`: what a parser reads is writable.
  - `functions_dumpFunctions`: writable functions that fit are read back as they were written.
  - `dumped_text_reads_back`: so the dump of what a text does does what the text did.
  - `fits_toSgrOps`, `fits_toSgrDiffOps`: what a pen or a difference of pens needs fits.
-/

import Holdfast.Terminal.ParserDump
import Holdfast.Base.Split

namespace Holdfast.Vendor

open Holdfast.Terminal
open Avt (DecMode SgrOp Color Hyperlink Attr Pen)

def pushEsc (intermediate : Option Char) (final : Char) : Text := Char.ofNat 0x1b :: (intermediate.toList ++ [final])

/-- The parameters as numbers. -/
def numbers (ns : List Nat) : Text := [';'].intercalate (ns.map (Nat.toDigits 10))

def pushCsi (intermediate : Option Char) (params : List Nat) (final : Char) : Text :=
  Char.ofNat 0x1b :: '[' :: (intermediate.toList ++ numbers params ++ [final])

def decNumber : DecMode → Nat
  | .cursorKeys => 1
  | .origin => 6
  | .autoWrap => 7
  | .textCursorEnable => 25
  | .altScreenBuffer => 1047
  | .saveCursor => 1048
  | .saveCursorAltScreenBuffer => 1049

def ansiNumber : AnsiMode → Nat
  | .insert => 4
  | .newLine => 20

def dumpSgrColor (color : Color) (base : Nat) : List Nat :=
  match color with
  | .ansi c => if c.toNat < 8 then [base + c.toNat] else [base + 52 + min c.toNat 15]
  | .indexed c => [base + 8, 5, c.toNat]
  | .rgb r g b => [base + 8, 2, r.toNat, g.toNat, b.toNat]

def sgrNumbers : SgrOp → List Nat
  | .reset => [0]
  | .setBoldIntensity => [1]
  | .setFaintIntensity => [2]
  | .set .italic => [3]
  | .set .underline => [4]
  | .set .blink => [5]
  | .set .inverse => [7]
  | .set .invisible => [8]
  | .set .strikethrough => [9]
  | .resetIntensity => [22]
  | .unset .italic => [23]
  | .unset .underline => [24]
  | .unset .blink => [25]
  | .unset .inverse => [27]
  | .unset .invisible => [28]
  | .unset .strikethrough => [29]
  | .setForegroundColor color => dumpSgrColor color 30
  | .resetForegroundColor => [39]
  | .setBackgroundColor color => dumpSgrColor color 40
  | .resetBackgroundColor => [49]

def charsetFinal : Charset → Char
  | .drawing => '0'
  | .ascii => 'B'

def dumpFunction : Function → Text
  | .bs => [Char.ofNat 0x08]
  | .cbt n => pushCsi none [n] 'Z'
  | .cha n => pushCsi none [n] 'G'
  | .cht n => pushCsi none [n] 'I'
  | .cnl n => pushCsi none [n] 'E'
  | .cpl n => pushCsi none [n] 'F'
  | .cr => ['\r']
  | .ctc .set => pushCsi none [0] 'W'
  | .ctc .clearCurrentColumn => pushCsi none [2] 'W'
  | .ctc .clearAll => pushCsi none [5] 'W'
  | .cub n => pushCsi none [n] 'D'
  | .cud n => pushCsi none [n] 'B'
  | .cuf n => pushCsi none [n] 'C'
  | .cup row col => pushCsi none [row, col] 'H'
  | .cuu n => pushCsi none [n] 'A'
  | .dch n => pushCsi none [n] 'P'
  | .decaln => pushEsc (some '#') '8'
  | .decrc => pushEsc none '8'
  | .decrst modes => pushCsi (some '?') (modes.map decNumber) 'l'
  | .decsc => pushEsc none '7'
  | .decset modes => pushCsi (some '?') (modes.map decNumber) 'h'
  | .decstbm top bottom => pushCsi none [top, bottom] 'r'
  | .decstr => pushCsi (some '!') [] 'p'
  | .dl n => pushCsi none [n] 'M'
  | .ech n => pushCsi none [n] 'X'
  | .ed .below => pushCsi none [0] 'J'
  | .ed .above => pushCsi none [1] 'J'
  | .ed .all => pushCsi none [2] 'J'
  | .ed .savedLines => pushCsi none [3] 'J'
  | .el .toRight => pushCsi none [0] 'K'
  | .el .toLeft => pushCsi none [1] 'K'
  | .el .all => pushCsi none [2] 'K'
  | .g1d4 charset => pushEsc (some ')') (charsetFinal charset)
  | .gzd4 charset => pushEsc (some '(') (charsetFinal charset)
  | .ht => ['\t']
  | .hts => pushEsc none 'H'
  | .ich n => pushCsi none [n] '@'
  | .il n => pushCsi none [n] 'L'
  | .lf => ['\n']
  | .nel => pushEsc none 'E'
  | .print ch => [ch]
  | .rep n => pushCsi none [n] 'b'
  | .ri => pushEsc none 'M'
  | .ris => pushEsc none 'c'
  | .rm modes => pushCsi none (modes.map ansiNumber) 'l'
  | .scorc => pushCsi none [] 'u'
  | .scosc => pushCsi none [] 's'
  | .sd n => pushCsi none [n] 'T'
  | .setHyperlink (some link) =>
    Char.ofNat 0x1b :: ([']', '8', ';'] ++ (if link.id.isEmpty then [] else ['i', 'd', '='] ++ link.id.toList) ++ [';'] ++
      link.uri.toList ++ [Char.ofNat 0x1b, '\\'])
  | .setHyperlink none => Char.ofNat 0x1b :: ([']', '8', ';', ';'] ++ [Char.ofNat 0x1b, '\\'])
  | .sgr ops =>
    if ops.isEmpty then Char.ofNat 0x1b :: ['[', '3', '8', ';', '2', 'm']
    else pushCsi none (ops.flatMap sgrNumbers) 'm'
  | .si => [Char.ofNat 0x0f]
  | .sm modes => pushCsi none (modes.map ansiNumber) 'h'
  | .so => [Char.ofNat 0x0e]
  | .su n => pushCsi none [n] 'S'
  | .tbc .currentColumn => pushCsi none [0] 'g'
  | .tbc .all => pushCsi none [3] 'g'
  | .vpa n => pushCsi none [n] 'd'
  | .vpr n => pushCsi none [n] 'e'
  | .xtwinops cols rows => pushCsi none [8, rows, cols] 't'

/-- `dump`. -/
def dumpFunctions (funs : List Function) : Text := funs.flatMap dumpFunction

/-! ## Reading sequences back -/

namespace Parser

variable {p : Parser}

def single (n : Nat) : Param := ⟨[], n⟩

/-- A parser that holds these numbers. -/
def holding (init : List Nat) (last : Nat) : Parser := { new with done := init.map single, current := single last }

theorem params_holding (init : List Nat) (last : Nat) : (holding init last).params = (init ++ [last]).map single := by
  rw [List.map_append]
  rfl

theorem paramsText_holding (init : List Nat) (last : Nat) : (holding init last).paramsText = numbers (init ++ [last]) := by
  have htext : Param.text ∘ single = Nat.toDigits 10 := by
    funext n
    simp [Param.text, single, Param.parts]
  rw [Parser.paramsText, params_holding, List.map_map, htext]
  rfl

theorem bounded_holding {init : List Nat} {last : Nat} (hlen : init.length < paramsLen) (hlt : ∀ n ∈ init ++ [last], n < 2 ^ 16) :
    Bounded (holding init last) where
  room := by
    show (init.map single).length < paramsLen
    rw [List.length_map]
    exact hlen
  params q hq := by
    rw [params_holding] at hq
    obtain ⟨n, hn, rfl⟩ := List.mem_map.mp hq
    refine ⟨Nat.zero_lt_succ _, fun m hm => ?_⟩
    rw [show m = n from List.mem_singleton.mp hm]
    exact hlt n hn
  osc := Nat.zero_le _

theorem functions_csiParam (hs : p.state = .csiParam) {text : Text} (h : ∀ ch ∈ text, 0x30 ≤ ch.toNat ∧ ch.toNat ≤ 0x3b) :
    p.functions text = [] := by
  induction text generalizing p with
  | nil => rfl
  | cons ch text ih =>
    obtain ⟨hlo, hhi⟩ := h ch List.mem_cons_self
    rw [Parser.functions, feed_csiParam hs hlo hhi]
    exact ih ((param_state p ch).trans hs) (fun c hc => h c (List.mem_cons_of_mem _ hc))

theorem functions_paramsText {q : Parser} (hs : p.state = .csiEntry ∨ p.state = .csiParam) : p.functions q.paramsText = [] := by
  have hall : ∀ ch ∈ q.paramsText, 0x30 ≤ ch.toNat ∧ ch.toNat ≤ 0x3b := fun ch hch => paramsText_bounds hch
  rcases hs with hs | hs
  · obtain ⟨ch, text, htext, hdigit⟩ := q.paramsText_cons
    rw [htext] at hall ⊢
    rw [Parser.functions, feed_csiEntry hs hdigit]
    exact functions_csiParam (param_state _ ch) (fun c hc => hall c (List.mem_cons_of_mem _ hc))
  · exact functions_csiParam hs hall

/-- Where a control sequence stands before its final character. -/
structure AtFinal (q : Parser) (intermediate : Option Char) (ns : List Nat) : Prop where
  state : q.state = .csiEntry ∨ q.state = .csiParam ∨ q.state = .csiIntermediate
  intermediate : q.intermediate = intermediate
  params : q.params = if ns.isEmpty then [.clear] else ns.map single

theorem feed_escape (p : Parser) :
    p.feed (Char.ofNat 0x1b) = ({ p.clear.goto .escape with oscPending := p.state == .oscString }, none) := rfl

theorem feed_open (hs : p.state = .escape) : p.feed '[' = (p.clear.goto .csiEntry, none) := by
  rw [feed_low (by decide) (by decide), Parser.within, hs]
  rfl

theorem read_numbers {ns : List Nat} {i : Option Char} (hs : p.state = .csiEntry ∨ p.state = .csiParam) (hi : p.intermediate = i)
    (hdone : p.done = []) (hcurrent : p.current = .clear) (hlen : ns.length ≤ paramsLen) (hlt : ∀ n ∈ ns, n < 2 ^ 16) :
    p.functions (numbers ns) = [] ∧ AtFinal (p.read (numbers ns)) i ns := by
  obtain rfl | ⟨init, last, rfl⟩ := List.eq_nil_or_concat' ns
  · refine ⟨rfl, hs.imp_right .inl, hi, ?_⟩
    show p.done ++ [p.current] = [.clear]
    rw [hdone, hcurrent]
    rfl
  · have hroom : init.length < paramsLen := by simpa using hlen
    have hbounded := bounded_holding hroom hlt
    have hparams : ((init ++ [last]).map single) = if (init ++ [last]).isEmpty then [Param.clear]
        else (init ++ [last]).map single := by
      rw [if_neg (by simp)]
    rw [← paramsText_holding]
    refine ⟨functions_paramsText hs, ?_⟩
    rcases hs with hs | hs
    · rw [read_paramsText_entry hbounded hs hdone hcurrent]
      exact ⟨.inr (.inl rfl), hi, (params_holding init last).trans hparams⟩
    · rw [read_paramsText hbounded hs hdone hcurrent]
      exact ⟨.inr (.inl hs), hi, (params_holding init last).trans hparams⟩

/-- Reading a text does this one function, and leaves the parser outside. -/
def Reads (p : Parser) (text : Text) (f : Function) : Prop := p.functions text = [f] ∧ (p.read text).state = .ground

theorem feed_final (hs : p.state = .csiEntry ∨ p.state = .csiParam ∨ p.state = .csiIntermediate)
    {ch : Char} (hlo : 0x40 ≤ ch.toNat)
    (hhi : ch.toNat ≤ 0x7e) : p.feed ch = (p.goto .ground, p.csiDispatch ch) := by
  rw [feed_low (by omega) hhi, Parser.within]
  rcases hs with hs | hs | hs <;> rw [hs] <;> simp only
  · rw [if_neg (by omega), if_neg (by omega), if_neg (by omega), if_neg (by omega), if_neg (by omega), if_pos hhi]
  · rw [if_neg (by omega), if_neg (by omega), if_neg (by omega), if_neg (by omega), if_pos hhi]
  · rw [if_neg (by omega), if_neg (by omega), if_neg (by omega), if_pos hhi]

theorem reads_pushCsi {i : Option Char} (hi : i = none ∨ i = some '?') {ns : List Nat} (hlen : ns.length ≤ paramsLen)
    (hlt : ∀ n ∈ ns, n < 2 ^ 16)
    {ch : Char} (hlo : 0x40 ≤ ch.toNat) (hhi : ch.toNat ≤ 0x7e) {f : Function}
    (hf : ∀ q, AtFinal q i ns → q.csiDispatch ch = some f) : Reads p (pushCsi i ns ch) f := by
  have hentry : ∃ q : Parser, (q.state = .csiEntry ∨ q.state = .csiParam) ∧ q.intermediate = i ∧
    q.done = [] ∧ q.current = .clear ∧
      (∀ text, p.functions (Char.ofNat 0x1b :: '[' :: (i.toList ++ text)) = q.functions text) ∧
      ∀ text, p.read (Char.ofNat 0x1b :: '[' :: (i.toList ++ text)) = q.read text := by
    have hopen : (p.feed (Char.ofNat 0x1b)).1.feed '[' =
        ((p.feed (Char.ofNat 0x1b)).1.clear.goto .csiEntry, none) := feed_open rfl
    rcases hi with rfl | rfl
    · refine ⟨(p.feed (Char.ofNat 0x1b)).1.clear.goto .csiEntry, .inl rfl, rfl, rfl, rfl, fun text => ?_, fun text => ?_⟩
      · show ((p.feed (Char.ofNat 0x1b)).1.feed '[').2.toList ++ ((p.feed (Char.ofNat 0x1b)).1.feed '[').1.functions text = _
        rw [hopen]
        rfl
      · show ((p.feed (Char.ofNat 0x1b)).1.feed '[').1.read text = _
        rw [hopen]
    · have hquery : ((p.feed (Char.ofNat 0x1b)).1.clear.goto .csiEntry).feed '?' =
          ((((p.feed (Char.ofNat 0x1b)).1.clear.goto .csiEntry).collect '?').goto .csiParam, none) :=
        feed_csiEntry_marker rfl (by decide) (by decide)
      refine ⟨(((p.feed (Char.ofNat 0x1b)).1.clear.goto .csiEntry).collect '?').goto .csiParam, .inr rfl,
        rfl, rfl, rfl, fun text => ?_, fun text => ?_⟩
      · show ((p.feed (Char.ofNat 0x1b)).1.feed '[').2.toList ++
          ((p.feed (Char.ofNat 0x1b)).1.feed '[').1.functions ('?' :: text) = _
        rw [hopen, Parser.functions, hquery]
        rfl
      · show (((p.feed (Char.ofNat 0x1b)).1.feed '[').1.feed '?').1.read text = _
        rw [hopen, hquery]
  obtain ⟨q, hs, hqi, hdone, hcurrent, hfunctions, hread⟩ := hentry
  obtain ⟨hnone, hfinal⟩ := read_numbers hs hqi hdone hcurrent hlen hlt
  unfold Reads pushCsi
  rw [List.append_assoc, hfunctions, hread, functions_append, read_append, hnone]
  rw [read_cons, read_nil, Parser.functions, feed_final hfinal.state hlo hhi, hf _ hfinal]
  exact ⟨rfl, rfl⟩

theorem reads_number {n : Nat} (hn : n < 2 ^ 16) {ch : Char} (hlo : 0x40 ≤ ch.toNat) (hhi : ch.toNat ≤ 0x7e) {f : Function}
    (hf : ∀ q : Parser, q.intermediate = none → q.params = [single n] → q.csiDispatch ch = some f) :
    Reads p (pushCsi none [n] ch) f := by
  have hlen : [n].length ≤ paramsLen := by
    show 1 ≤ 32
    decide
  refine reads_pushCsi (.inl rfl) hlen ?_ hlo hhi fun q hq => hf q hq.intermediate hq.params
  intro m hm
  rw [List.mem_singleton.mp hm]
  exact hn

theorem reads_pair {m n : Nat} (hm : m < 2 ^ 16) (hn : n < 2 ^ 16) {ch : Char} (hlo : 0x40 ≤ ch.toNat)
    (hhi : ch.toNat ≤ 0x7e) {f : Function}
    (hf : ∀ q : Parser, q.intermediate = none → q.params = [single m, single n] → q.csiDispatch ch = some f) :
    Reads p (pushCsi none [m, n] ch) f := by
  have hlen : [m, n].length ≤ paramsLen := by
    show 2 ≤ 32
    decide
  refine reads_pushCsi (.inl rfl) hlen ?_ hlo hhi fun q hq => hf q hq.intermediate hq.params
  intro k hk
  rcases List.mem_cons.mp hk with rfl | hk
  · exact hm
  · rw [List.mem_singleton.mp hk]
    exact hn

/-- A control character. -/
theorem reads_control (hs : p.state = .ground) {ch : Char} (hch : ch.toNat ≤ 0x1f)
    (hne : ch.toNat ≠ 0x18 ∧ ch.toNat ≠ 0x1a ∧ ch.toNat ≠ 0x1b)
    {f : Function} (hf : execute ch.toNat = some f) : Reads p [ch] f := by
  have hcode : Avt.Parser.code ch = ch.toNat := if_neg (by omega)
  have hfeed : p.feed ch = (p, execute ch.toNat) := by
    unfold Parser.feed Parser.anywhere
    rw [hcode]
    rw [if_neg (by omega), if_neg (by omega), if_neg (by omega), if_neg (by omega), if_neg (by omega),
      if_neg (by omega), if_neg (by omega)]
    unfold Parser.within
    rw [hs]
    exact if_pos hch
  unfold Reads
  rw [read_cons, Parser.functions, hfeed, hf]
  exact ⟨rfl, hs⟩

theorem reads_print (hs : p.state = .ground) {ch : Char} (h : IsPayload ch) : Reads p [ch] (.print ch) := by
  have hfeed : p.feed ch = (p, some (.print ch)) := by
    obtain ⟨hlo, hhi⟩ := h
    rw [feed_within hlo hhi, Parser.within, hs]
    exact if_neg (by omega)
  unfold Reads
  rw [read_cons, Parser.functions, hfeed]
  exact ⟨rfl, hs⟩

theorem reads_pushEsc_none {ch : Char} (h : 0x30 ≤ ch.toNat ∧ ch.toNat ≤ 0x4f ∨ ch = 'c') {f : Function}
    (hf : ∀ q : Parser, q.intermediate = none → q.escDispatch ch = some f) : Reads p (pushEsc none ch) f := by
  have hrange : 0x30 ≤ ch.toNat ∧ (ch.toNat ≤ 0x4f ∨ ch.toNat = 0x63) := by
    rcases h with ⟨hlo, hhi⟩ | rfl
    · exact ⟨hlo, .inl hhi⟩
    · decide
  have hfeed : (p.feed (Char.ofNat 0x1b)).1.feed ch = ((p.feed (Char.ofNat 0x1b)).1.goto .ground, some f) := by
    rw [feed_low (by omega) (by omega), Parser.within, feed_escape]
    simp only [Parser.goto]
    rw [if_neg (by omega), if_neg (by omega), if_neg (by omega), if_neg (by omega), if_neg (by omega), if_neg (by omega),
      if_neg (by omega), if_pos (by omega), hf _ rfl]
  unfold Reads pushEsc
  show ((p.feed (Char.ofNat 0x1b)).1.functions [ch]) = [f] ∧ _
  rw [Option.toList_none, List.nil_append, read_cons, read_cons, Parser.functions, hfeed]
  exact ⟨rfl, rfl⟩

theorem reads_pushEsc {i ch : Char} (hi : 0x20 ≤ i.toNat ∧ i.toNat ≤ 0x2f) (hch : 0x30 ≤ ch.toNat ∧ ch.toNat ≤ 0x7e)
    {f : Function}
    (hf : ∀ q : Parser, q.intermediate = some i → q.escDispatch ch = some f) : Reads p (pushEsc (some i) ch) f := by
  have hfeed : (p.feed (Char.ofNat 0x1b)).1.feed i = (((p.feed (Char.ofNat 0x1b)).1.collect i).goto .escapeIntermediate, none) :=
    feed_escape_intermediate rfl hi.1 hi.2
  have hfinal : (((p.feed (Char.ofNat 0x1b)).1.collect i).goto .escapeIntermediate).feed ch =
      (((p.feed (Char.ofNat 0x1b)).1.collect i).goto .ground, some f) := by
    rw [feed_low (by omega) (by omega), Parser.within]
    simp only [Parser.goto]
    rw [if_neg (by omega), if_neg (by omega), if_pos (by omega), hf _ rfl]
  unfold Reads pushEsc
  show ((p.feed (Char.ofNat 0x1b)).1.functions [i, ch]) = [f] ∧ ((p.feed (Char.ofNat 0x1b)).1.read [i, ch]).state = .ground
  rw [read_cons, read_cons, Parser.functions, Parser.functions, hfeed, hfinal]
  exact ⟨rfl, rfl⟩

end Parser

/-! ## What can be written -/

/-- The payload of a link. -/
def linkPayload (link : Hyperlink) : Text :=
  ['8', ';'] ++ (if link.id.isEmpty then [] else ['i', 'd', '='] ++ link.id.toList) ++ [';'] ++ link.uri.toList

structure WritableLink (link : Hyperlink) : Prop where
  uri : link.uri.toList ≠ []
  id : ':' ∉ link.id.toList ∧ ';' ∉ link.id.toList
  payload : ∀ ch ∈ linkPayload link, Parser.IsPayload ch
  room : Text.len (linkPayload link) ≤ maxOscBytes

/-- The parser's colours. -/
def WritableColor : Color → Prop
  | .ansi c => c.toNat < 16
  | _ => True

def WritableOp : SgrOp → Prop
  | .setForegroundColor color => WritableColor color
  | .setBackgroundColor color => WritableColor color
  | _ => True

def Writable : Function → Prop
  | .cbt n | .cha n | .cht n | .cnl n | .cpl n | .cub n | .cud n | .cuf n | .cuu n | .dch n | .dl n
  | .ech n | .ich n | .il n | .rep n | .sd n | .su n | .vpa n | .vpr n => n < 2 ^ 16
  | .cup m n | .decstbm m n | .xtwinops m n => m < 2 ^ 16 ∧ n < 2 ^ 16
  | .decset modes | .decrst modes => modes.length ≤ paramsLen
  | .rm modes | .sm modes => modes.length ≤ paramsLen
  | .print ch => Parser.IsPayload ch
  | .sgr ops => ∀ op ∈ ops, WritableOp op
  | .setHyperlink (some link) => WritableLink link
  | _ => True

/-- An SGR list as long as the parameters. -/
def Fits : Function → Prop
  | .sgr ops => (ops.flatMap sgrNumbers).length ≤ paramsLen
  | _ => True

namespace Parser

variable {p : Parser}

theorem filterMap_decNumber (modes : List DecMode) : ((modes.map decNumber).map single).filterMap decMode = modes := by
  have hmode : decMode ∘ single ∘ decNumber = some := by
    funext mode
    cases mode <;> rfl
  rw [List.map_map, List.filterMap_map, hmode, List.filterMap_some]

theorem filterMap_ansiNumber (modes : List AnsiMode) : ((modes.map ansiNumber).map single).filterMap ansiMode = modes := by
  have hmode : ansiMode ∘ single ∘ ansiNumber = some := by
    funext mode
    cases mode <;> rfl
  rw [List.map_map, List.filterMap_map, hmode, List.filterMap_some]

/-- Without modes one clear parameter stands there, which is none. -/
theorem filterMap_modes {α : Type} {write : α → Nat} {read : Param → Option α} (modes : List α) (q : Parser)
    (hclear : read .clear = none) (hread : ((modes.map write).map single).filterMap read = modes)
    (hq : q.params = if (modes.map write).isEmpty then [.clear] else (modes.map write).map single) :
    q.params.filterMap read = modes := by
  rw [hq]
  cases modes with
  | nil =>
    show [Param.clear].filterMap read = []
    rw [List.filterMap_cons_none hclear, List.filterMap_nil]
  | cons mode modes => exact hread

theorem sgrNext_ansi {c : UInt8} (hc : c.toNat < 16) (rest : List Param) :
    sgrNext ((dumpSgrColor (.ansi c) 30).map single ++ rest) = (some (.setForegroundColor (.ansi c)), 1) ∧
      sgrNext ((dumpSgrColor (.ansi c) 40).map single ++ rest) = (some (.setBackgroundColor (.ansi c)), 1) := by
  obtain ⟨k, hk, rfl⟩ : ∃ k, k < 16 ∧ c = UInt8.ofNat k := ⟨c.toNat, hc, (UInt8.ofNat_toNat).symm⟩
  interval_cases k <;> exact ⟨rfl, rfl⟩

theorem sgrNumbers_ne_nil (op : SgrOp) : sgrNumbers op ≠ [] := by
  have hcolor : ∀ color base, dumpSgrColor color base ≠ [] := by
    intro color base
    unfold dumpSgrColor
    repeat' split
    all_goals exact List.cons_ne_nil _ _
  cases op with
  | set a => cases a <;> exact List.cons_ne_nil _ _
  | unset a => cases a <;> exact List.cons_ne_nil _ _
  | setForegroundColor color => exact hcolor color 30
  | setBackgroundColor color => exact hcolor color 40
  | _ => exact List.cons_ne_nil _ _

theorem sgrNext_write {op : SgrOp} (h : WritableOp op) (rest : List Param) :
    sgrNext ((sgrNumbers op).map single ++ rest) = (some op, (sgrNumbers op).length) := by
  cases op with
  | set a => cases a <;> rfl
  | unset a => cases a <;> rfl
  | setForegroundColor color =>
    cases color with
    | ansi c =>
      have hlen : (sgrNumbers (.setForegroundColor (.ansi c))).length = 1 := by
        show (dumpSgrColor (.ansi c) 30).length = 1
        unfold dumpSgrColor
        simp only
        split <;> rfl
      rw [hlen]
      exact (sgrNext_ansi h rest).1
    | indexed c =>
      show (some (SgrOp.setForegroundColor (.indexed (UInt8.ofNat c.toNat))), 3) = _
      rw [UInt8.ofNat_toNat]
      rfl
    | rgb r g b =>
      show (some (SgrOp.setForegroundColor (.rgb (UInt8.ofNat r.toNat) (UInt8.ofNat g.toNat) (UInt8.ofNat b.toNat))), 5) = _
      rw [UInt8.ofNat_toNat, UInt8.ofNat_toNat, UInt8.ofNat_toNat]
      rfl
  | setBackgroundColor color =>
    cases color with
    | ansi c =>
      have hlen : (sgrNumbers (.setBackgroundColor (.ansi c))).length = 1 := by
        show (dumpSgrColor (.ansi c) 40).length = 1
        unfold dumpSgrColor
        simp only
        split <;> rfl
      rw [hlen]
      exact (sgrNext_ansi h rest).2
    | indexed c =>
      show (some (SgrOp.setBackgroundColor (.indexed (UInt8.ofNat c.toNat))), 3) = _
      rw [UInt8.ofNat_toNat]
      rfl
    | rgb r g b =>
      show (some (SgrOp.setBackgroundColor (.rgb (UInt8.ofNat r.toNat) (UInt8.ofNat g.toNat) (UInt8.ofNat b.toNat))), 5) = _
      rw [UInt8.ofNat_toNat, UInt8.ofNat_toNat, UInt8.ofNat_toNat]
      rfl
  | _ => rfl

theorem sgrOps_write {ops : List SgrOp} (h : ∀ op ∈ ops, WritableOp op) {rounds : Nat} (hrounds : ops.length ≤ rounds) :
    sgrOps rounds ((ops.flatMap sgrNumbers).map single) = ops := by
  induction ops generalizing rounds with
  | nil => cases rounds <;> rfl
  | cons op ops ih =>
    have hnext := sgrNext_write (h op List.mem_cons_self) ((ops.flatMap sgrNumbers).map single)
    cases rounds with
    | zero => cases hrounds
    | succ rounds =>
      have hrest := ih (fun o ho => h o (List.mem_cons_of_mem _ ho)) (Nat.le_of_succ_le_succ hrounds)
      rw [List.flatMap_cons, List.map_append]
      have hdrop : ((sgrNumbers op).map single ++ (ops.flatMap sgrNumbers).map single).drop (sgrNumbers op).length =
          (ops.flatMap sgrNumbers).map single := by
        rw [List.drop_append_of_le_length (by rw [List.length_map]), List.drop_eq_nil_of_le (by rw [List.length_map]),
          List.nil_append]
      obtain ⟨q, qs, hq⟩ := List.exists_cons_of_ne_nil
        (show (sgrNumbers op).map single ++ (ops.flatMap sgrNumbers).map single ≠ [] by simp [sgrNumbers_ne_nil op])
      rw [hq] at hnext hdrop ⊢
      rw [sgrOps, hnext, hdrop, hrest]
      rfl

theorem length_le_sgrNumbers (ops : List SgrOp) : ops.length ≤ (ops.flatMap sgrNumbers).length := by
  induction ops with
  | nil => exact Nat.le_refl _
  | cons op ops ih =>
    have hpos := List.length_pos_iff.mpr (sgrNumbers_ne_nil op)
    rw [List.flatMap_cons, List.length_append, List.length_cons]
    omega

theorem decNumber_lt (mode : DecMode) : decNumber mode < 2 ^ 16 := by cases mode <;> decide

theorem ansiNumber_lt (mode : AnsiMode) : ansiNumber mode < 2 ^ 16 := by cases mode <;> decide

theorem sgrNumbers_lt (op : SgrOp) : ∀ n ∈ sgrNumbers op, n < 2 ^ 16 := by
  have hcolor : ∀ color base, base ≤ 40 → ∀ n ∈ dumpSgrColor color base, n < 2 ^ 16 := by
    intro color base hbase n hn
    cases color with
    | ansi c =>
      unfold dumpSgrColor at hn
      simp only at hn
      split at hn
      · rw [List.mem_singleton.mp hn]
        omega
      · rw [List.mem_singleton.mp hn]
        omega
    | indexed c =>
      have := c.toNat_lt
      simp [dumpSgrColor] at hn
      omega
    | rgb r g b =>
      have := r.toNat_lt
      have := g.toNat_lt
      have := b.toNat_lt
      simp [dumpSgrColor] at hn
      omega
  cases op with
  | set a => cases a <;> decide
  | unset a => cases a <;> decide
  | setForegroundColor color => exact hcolor color 30 (by decide)
  | setBackgroundColor color => exact hcolor color 40 (by decide)
  | _ => decide

/-! ## Links -/

theorem foldl_oscPut_fit {text : Text} (hover : p.oscOverflow = false) (hfit : Text.len p.osc + Text.len text ≤ maxOscBytes) :
    text.foldl Parser.oscPut p = { p with osc := p.osc ++ text } := by
  induction text generalizing p with
  | nil =>
    rw [List.foldl_nil, List.append_nil]
  | cons ch text ih =>
    have hlen : Text.len (ch :: text) = ch.utf8Size + Text.len text := rfl
    have hsnoc : Text.len (p.osc ++ [ch]) = Text.len p.osc + ch.utf8Size := by simp [Text.len]
    have hput : p.oscPut ch = { p with osc := p.osc ++ [ch] } := by
      have hroom : ¬Text.len p.osc + ch.utf8Size > maxOscBytes := by omega
      rw [Parser.oscPut, hover, if_neg Bool.false_ne_true, if_neg hroom]
    have hrest := ih (p := { p with osc := p.osc ++ [ch] }) hover (by show Text.len (p.osc ++ [ch]) + _ ≤ _; omega)
    rw [List.foldl_cons, hput, hrest, List.append_assoc]
    rfl

theorem reads_osc {payload : Text} (hpayload : ∀ ch ∈ payload, IsPayload ch) (hfit : Text.len payload ≤ maxOscBytes)
    {f : Function}
    (hf : ∀ q : Parser, q.osc = payload → q.oscOverflow = false → q.parseHyperlink = some f) :
    Reads p (Char.ofNat 0x1b :: ']' :: (payload ++ [Char.ofNat 0x1b, '\\'])) f := by
  have hopen : (p.feed (Char.ofNat 0x1b)).1.feed ']' = (((p.feed (Char.ofNat 0x1b)).1.goto .oscString).oscClear, none) := by
    rw [feed_low (by decide) (by decide)]
    rfl
  obtain ⟨q, hq, hosc, hover, hs⟩ : ∃ q, (p.feed (Char.ofNat 0x1b)).1.feed ']' = (q, none) ∧ q.osc = [] ∧
      q.oscOverflow = false ∧ q.state = .oscString :=
    ⟨_, hopen, rfl, rfl, rfl⟩
  obtain ⟨hread, hnone, hstate⟩ := read_payload hs hpayload
  rw [foldl_oscPut_fit hover (by rw [hosc]; simpa [Text.len] using hfit), hosc] at hread
  have hlink := hf (q.read payload) (by rw [hread]; rfl) (by rw [hread]; exact hover)
  have hclosing : ((q.read payload).feed (Char.ofNat 0x1b)).1.closing = some f := by
    rw [feed_escape, hstate]
    exact hlink
  obtain ⟨hfunctions, hground⟩ := read_terminator (p := ((q.read payload).feed (Char.ofNat 0x1b)).1) rfl rfl
  rw [hclosing] at hfunctions
  unfold Reads
  rw [read_cons, Parser.functions, read_cons, Parser.functions, hq, read_append, functions_append, hnone,
    read_cons, Parser.functions,
    hfunctions]
  exact ⟨rfl, hground⟩

theorem stripPrefix_append (start rest : Text) : stripPrefix start (start ++ rest) = some rest := by
  rw [stripPrefix, if_pos (List.prefix_append start rest), List.drop_left]

theorem linkId_write {link : Hyperlink} (h : ':' ∉ link.id.toList) :
    linkId (if link.id.isEmpty then [] else ['i', 'd', '='] ++ link.id.toList) = link.id.toList := by
  unfold linkId
  split
  · rename_i hempty
    rw [String.isEmpty_iff.mp hempty]
    rfl
  · have hmem : ':' ∉ ['i', 'd', '='] ++ link.id.toList := by
      intro hmem
      rcases List.mem_append.mp hmem with hmem | hmem
      · exact absurd hmem (by decide)
      · exact h hmem
    rw [List.splitOn_eq_singleton hmem, List.findSome?_cons, stripPrefix_append]
    rfl

theorem parseHyperlink_write {link : Hyperlink} (h : WritableLink link) {q : Parser} (hosc : q.osc = linkPayload link)
    (hover : q.oscOverflow = false) : q.parseHyperlink = some (.setHyperlink (some link)) := by
  have hid : ';' ∉ (if link.id.isEmpty then [] else ['i', 'd', '='] ++ link.id.toList) := by
    split
    · exact List.not_mem_nil
    · intro hmem
      rcases List.mem_append.mp hmem with hmem | hmem
      · exact absurd hmem (by decide)
      · exact h.id.2 hmem
  have huri : link.uri.toList.isEmpty = false := by simpa using h.uri
  unfold Parser.parseHyperlink
  rw [hosc, hover, linkPayload, List.append_assoc, List.append_assoc, stripPrefix_append, ← List.append_assoc, List.append_assoc]
  simp only [Bool.false_eq_true, if_false]
  rw [show [';'] ++ link.uri.toList = ';' :: link.uri.toList from rfl, splitOnce_append _ hid]
  simp only [huri, Bool.false_eq_true, if_false, linkId_write h.id.1, String.ofList_toList]

/-! ## The round trip -/

theorem ps_cons {q : Parser} {a : Param} {as : List Param} (h : q.params = a :: as) : q.ps 0 = a.asU16 := by
  rw [Parser.ps, h]
  rfl

theorem ps_cons_cons {q : Parser} {a b : Param} {as : List Param} (h : q.params = a :: b :: as) : q.ps 1 = b.asU16 := by
  rw [Parser.ps, h]
  rfl

theorem reads_decstr (p : Parser) : Reads p (dumpFunction .decstr) .decstr := by
  have hopen : (p.feed (Char.ofNat 0x1b)).1.feed '[' = ((p.feed (Char.ofNat 0x1b)).1.clear.goto .csiEntry, none) := feed_open rfl
  have hbang : ((p.feed (Char.ofNat 0x1b)).1.clear.goto .csiEntry).feed '!' =
      ((((p.feed (Char.ofNat 0x1b)).1.clear.goto .csiEntry).collect '!').goto .csiIntermediate, none) :=
    feed_csiEntry_intermediate rfl (by decide) (by decide)
  have hfinal : ((((p.feed (Char.ofNat 0x1b)).1.clear.goto .csiEntry).collect '!').goto .csiIntermediate).feed 'p' =
      (((((p.feed (Char.ofNat 0x1b)).1.clear.goto .csiEntry).collect '!').goto .csiIntermediate).goto .ground, some .decstr) := by
    rw [feed_final (.inr (.inr rfl)) (by decide) (by decide)]
    rfl
  unfold Reads
  show p.functions [Char.ofNat 0x1b, '[', '!', 'p'] = [.decstr] ∧ (p.read [Char.ofNat 0x1b, '[', '!', 'p']).state = .ground
  simp only [read_cons, read_nil, Parser.functions, hopen, hbang, hfinal]
  exact ⟨rfl, rfl⟩

theorem reads_dumpFunction {f : Function} (h : Writable f) (hfits : Fits f) (hs : p.state = .ground) :
    Reads p (dumpFunction f) f := by
  have hnumber : ∀ {n : Nat} {q : Parser}, q.params = [single n] → q.ps 0 = n := fun h => ps_cons h
  cases f
  case cbt n | cha n | cht n | cnl n | cpl n | cub n | cud n | cuf n | cuu n | dch n | dl n | ech n | ich n | il n
    | rep n | sd n | su n | vpa n | vpr n =>
    refine reads_number h (by decide) (by decide) fun q hi hq => ?_
    rw [csiDispatch, hi, csiPlain, hnumber hq]
    rfl
  case cup m n | decstbm m n =>
    refine reads_pair h.1 h.2 (by decide) (by decide) fun q hi hq => ?_
    rw [csiDispatch, hi, csiPlain, ps_cons hq, ps_cons_cons hq]
    rfl
  case bs | cr | ht | lf | si | so => exact reads_control hs (by decide) (by decide) rfl
  case print ch => exact reads_print hs h
  case decrc | decsc | hts | nel | ri | ris =>
    refine reads_pushEsc_none (by decide) fun q hi => ?_
    rw [escDispatch, hi]
    rfl
  case decaln =>
    refine reads_pushEsc (by decide) (by decide) fun q hi => ?_
    rw [escDispatch, hi]
    rfl
  case g1d4 charset | gzd4 charset =>
    refine reads_pushEsc (by decide) (by cases charset <;> decide) fun q hi => ?_
    rw [escDispatch, hi]
    cases charset <;> rfl
  case ctc x | ed x | el x | tbc x =>
    cases x
    all_goals
      refine reads_number (by decide) (by decide) (by decide) fun q hi hq => ?_
      rw [csiDispatch, hi, csiPlain, hnumber hq]
      rfl
  case xtwinops cols rows =>
    have hlt : ∀ n ∈ [8, rows, cols], n < 2 ^ 16 := by
      simp only [List.forall_mem_cons]
      exact ⟨by decide, h.2, h.1, fun _ hn => absurd hn List.not_mem_nil⟩
    have hlen : [8, rows, cols].length ≤ paramsLen := by
      show 3 ≤ 32
      decide
    refine reads_pushCsi (.inl rfl) hlen hlt (by decide) (by decide) fun q hq => ?_
    have hparams : q.params = [single 8, single rows, single cols] := hq.params
    have hps : q.ps 2 = cols := by rw [Parser.ps, hparams]; rfl
    rw [csiDispatch, hq.intermediate, csiPlain, ps_cons hparams, ps_cons_cons hparams, hps]
    rfl
  case scorc | scosc =>
    refine reads_pushCsi (.inl rfl) (Nat.zero_le _) (fun _ hn => absurd hn List.not_mem_nil) (by decide)
      (by decide) fun q hq => ?_
    rw [csiDispatch, hq.intermediate]
    rfl
  case decstr => exact reads_decstr p
  case decset modes | decrst modes =>
    refine reads_pushCsi (.inr rfl) (by rw [List.length_map]; exact h) ?_ (by decide) (by decide) fun q hq => ?_
    · intro n hn
      obtain ⟨mode, -, rfl⟩ := List.mem_map.mp hn
      exact decNumber_lt mode
    · rw [csiDispatch, hq.intermediate]
      simp only
      rw [filterMap_modes modes q rfl (filterMap_decNumber modes) hq.params]
      rfl
  case sm modes | rm modes =>
    refine reads_pushCsi (.inl rfl) (by rw [List.length_map]; exact h) ?_ (by decide) (by decide) fun q hq => ?_
    · intro n hn
      obtain ⟨mode, -, rfl⟩ := List.mem_map.mp hn
      exact ansiNumber_lt mode
    · rw [csiDispatch, hq.intermediate, csiPlain, filterMap_modes modes q rfl (filterMap_ansiNumber modes) hq.params]
      rfl
  case setHyperlink link =>
    cases link with
    | none =>
      refine reads_osc isPayload_link (by decide) fun q hosc hover => ?_
      rw [Parser.parseHyperlink, hosc, hover]
      rfl
    | some link =>
      have hreads := reads_osc (p := p) h.payload h.room fun q hosc hover => parseHyperlink_write h hosc hover
      simpa only [dumpFunction, linkPayload, List.cons_append, List.nil_append, List.append_assoc] using hreads
  case sgr ops =>
    rcases ops with _ | ⟨op, ops⟩
    · -- a colour without its parts
      have htext : dumpFunction (.sgr []) = pushCsi none [38, 2] 'm' := rfl
      rw [htext]
      refine reads_pair (by decide) (by decide) (by decide) (by decide) fun q hi hq => ?_
      rw [csiDispatch, hi, csiPlain, hq]
      rfl
    · refine reads_pushCsi (.inl rfl) hfits ?_ (by decide) (by decide) fun q hq => ?_
      · intro n hn
        obtain ⟨o, -, hn⟩ := List.mem_flatMap.mp hn
        exact sgrNumbers_lt o n hn
      · have hne : ((op :: ops).flatMap sgrNumbers).isEmpty = false := by simp [sgrNumbers_ne_nil op]
        have hparams := hq.params
        rw [if_neg (by rw [hne]; exact Bool.false_ne_true)] at hparams
        rw [csiDispatch, hq.intermediate, csiPlain, hparams]
        have hrounds : (op :: ops).length ≤ (((op :: ops).flatMap sgrNumbers).map single).length := by
          rw [List.length_map]
          exact length_le_sgrNumbers (op :: ops)
        have hops := sgrOps_write h hrounds
        rw [hops]
        rfl

/-- Functions that are written one after the other are read one after the other. -/
theorem functions_dumpFunctions {funs : List Function} (h : ∀ f ∈ funs, Writable f) (hfits : ∀ f ∈ funs, Fits f) :
    new.functions (dumpFunctions funs) = funs := by
  suffices ∀ p : Parser, p.state = .ground → p.functions (dumpFunctions funs) = funs from this new rfl
  induction funs with
  | nil => exact fun _ _ => rfl
  | cons f funs ih =>
    intro p hs
    obtain ⟨hf, hground⟩ := reads_dumpFunction (h f List.mem_cons_self) (hfits f List.mem_cons_self) hs
    rw [dumpFunctions, List.flatMap_cons, functions_append, hf]
    exact congrArg (f :: ·)
      (ih (fun g hg => h g (List.mem_cons_of_mem _ hg)) (fun g hg => hfits g (List.mem_cons_of_mem _ hg)) _ hground)

/-! ## What a parser reads -/

theorem writable_execute {n : Nat} {f : Function} (h : execute n = some f) : Writable f ∧ Fits f := by
  unfold execute at h
  split at h
  all_goals first | cases h; exact ⟨trivial, trivial⟩ | cases h

theorem asU16_lt (h : Bounded p) {q : Param} (hq : q ∈ p.params) : q.asU16 < 2 ^ 16 := by
  obtain ⟨x, xs, hparts⟩ := q.parts_cons
  have hlt := (h.params q hq).2 x (hparts ▸ List.mem_cons_self)
  rw [Param.asU16, hparts]
  exact hlt

theorem ps_lt (h : Bounded p) (i : Nat) : p.ps i < 2 ^ 16 := by
  unfold Parser.ps
  rcases hi : p.params[i]? with _ | q
  · exact Nat.two_pow_pos 16
  · exact asU16_lt h (List.mem_of_getElem? hi)

theorem params_length (h : Bounded p) : p.params.length ≤ paramsLen := by
  have := h.room
  rw [Parser.params, List.length_append, List.length_singleton]
  omega

theorem writableColor_ansi {n : Nat} (h : n < 16) : WritableColor (.ansi (UInt8.ofNat n)) := by
  show (UInt8.ofNat n).toNat < 16
  rw [UInt8.toNat_ofNat']
  omega

theorem writableOp_sgrOne {n : Nat} {op : SgrOp} (h : sgrOne n = some op) : WritableOp op := by
  unfold sgrOne at h
  split at h
  · cases h
    exact writableColor_ansi (by omega)
  split at h
  · cases h
    exact writableColor_ansi (by omega)
  split at h
  · cases h
    exact writableColor_ansi (by omega)
  split at h
  · cases h
    exact writableColor_ansi (by omega)
  split at h
  all_goals first | cases h; exact trivial | cases h

theorem writableColor_sgrColor {ps : List Param} {color : Color} (h : (sgrColor ps).1 = some color) : WritableColor color := by
  unfold sgrColor at h
  repeat' split at h
  all_goals first | cases h; exact trivial | cases h

theorem writableOp_sgrNext {ps : List Param} {op : SgrOp} (h : (sgrNext ps).1 = some op) : WritableOp op := by
  unfold sgrNext at h
  split at h
  · cases h
  split at h
  · obtain ⟨color, hcolor, rfl⟩ := Option.map_eq_some_iff.mp h
    exact writableColor_sgrColor hcolor
  · obtain ⟨color, hcolor, rfl⟩ := Option.map_eq_some_iff.mp h
    exact writableColor_sgrColor hcolor
  · repeat' split at h
    all_goals cases h
  · exact writableOp_sgrOne h
  · cases h
    split <;> exact trivial
  all_goals first | cases h; exact trivial | cases h

theorem writableOp_sgrOps (rounds : Nat) (ps : List Param) : ∀ op ∈ sgrOps rounds ps, WritableOp op := by
  induction rounds generalizing ps with
  | zero => exact fun _ h => absurd h List.not_mem_nil
  | succ rounds ih =>
    cases ps with
    | nil => exact fun _ h => absurd h List.not_mem_nil
    | cons q rest =>
      intro op hop
      rcases List.mem_append.mp hop with hop | hop
      · exact writableOp_sgrNext (Option.mem_toList.mp hop)
      · exact ih _ op hop

theorem writable_csiPlain (h : Bounded p) {ch : Char} {f : Function} (hf : p.csiPlain ch = some f) : Writable f := by
  have hps := ps_lt h
  have hmodes {α : Type} (read : Param → Option α) : (p.params.filterMap read).length ≤ paramsLen :=
    (List.length_filterMap_le _ _).trans (params_length h)
  unfold Parser.csiPlain at hf
  split at hf
  · cases hf
    exact hps 0
  split at hf
  all_goals try split at hf
  all_goals cases hf
  all_goals first
    | exact hps 0
    | exact ⟨hps 0, hps 1⟩
    | exact ⟨hps 2, hps 1⟩
    | exact hmodes _
    | exact writableOp_sgrOps _ _
    | exact trivial

theorem writable_csiDispatch (h : Bounded p) {ch : Char} {f : Function} (hf : p.csiDispatch ch = some f) : Writable f := by
  have hmodes : (p.params.filterMap decMode).length ≤ paramsLen := (List.length_filterMap_le _ _).trans (params_length h)
  unfold Parser.csiDispatch at hf
  split at hf
  · exact writable_csiPlain h hf
  all_goals repeat' split at hf
  all_goals cases hf
  all_goals first | exact hmodes | exact trivial

theorem writable_escDispatch {ch : Char} {f : Function} (hf : p.escDispatch ch = some f) : Writable f := by
  unfold Parser.escDispatch at hf
  split at hf
  · split at hf
    · exact (writable_execute hf).1
    all_goals repeat' split at hf
    all_goals cases hf
    all_goals exact trivial
  all_goals repeat' split at hf
  all_goals cases hf
  all_goals exact trivial

/-- A payload of what payloads keep. -/
def Clean (p : Parser) : Prop := ∀ ch ∈ p.osc, IsPayload ch

theorem Clean.oscPut (h : Clean p) {ch : Char} (hch : IsPayload ch) : Clean (p.oscPut ch) := by
  unfold Parser.oscPut
  repeat' split
  · exact h
  · exact fun _ hc => absurd hc List.not_mem_nil
  · intro c hc
    rcases List.mem_append.mp hc with hc | hc
    · exact h c hc
    · rw [List.mem_singleton.mp hc]
      exact hch

theorem param_osc (p : Parser) (ch : Char) : (p.param ch).osc = p.osc := by
  unfold Parser.param
  repeat' split
  all_goals rfl

theorem clean_nil (h : p.osc = []) : Clean p := by
  intro c hc
  rw [h] at hc
  cases hc

theorem low_of_anywhere {ch : Char} (h : p.anywhere (Avt.Parser.code ch) = none) : Avt.Parser.code ch ≤ 0x7f := by
  have hlt : Avt.Parser.code ch < 0xa0 := by
    unfold Avt.Parser.code
    split <;> omega
  unfold Parser.anywhere at h
  repeat' split at h
  all_goals first | omega | cases h

theorem Clean.feed (h : Clean p) (ch : Char) : Clean (p.feed ch).1 := by
  have hparam : Clean (p.param ch) := by
    unfold Clean
    rw [param_osc]
    exact h
  unfold Parser.feed
  split
  · rename_i r hr
    unfold Parser.anywhere at hr
    repeat' split at hr
    all_goals first | (obtain rfl := Option.some.inj hr) | cases hr
    all_goals first | exact h | exact clean_nil rfl
  · rename_i hany
    unfold Parser.within
    split
    case h_13 =>
      repeat' split
      · exact clean_nil rfl
      · exact h
      · exact h.oscPut ⟨by omega, low_of_anywhere hany⟩
    all_goals repeat' split
    all_goals first | exact h | exact hparam | exact clean_nil rfl

theorem len_sublist {part text : Text} (h : part.Sublist text) : Text.len part ≤ Text.len text :=
  (h.map _).sum_le_sum fun _ _ => Nat.zero_le _

theorem linkId_mem {params : Text} (h : linkId params ≠ []) : ['i', 'd', '='] ++ linkId params ∈ params.splitOn ':' := by
  unfold linkId at *
  rcases hfind : (params.splitOn ':').findSome? (stripPrefix ['i', 'd', '=']) with _ | id
  · rw [hfind] at h
    exact absurd rfl h
  · obtain ⟨part, hpart, hid⟩ := List.exists_of_findSome?_eq_some hfind
    rw [Option.getD_some, ← stripPrefix_some hid]
    exact hpart

theorem writable_parseHyperlink (hb : Bounded p) (hc : Clean p) {f : Function} (hf : p.parseHyperlink = some f) : Writable f := by
  unfold Parser.parseHyperlink at hf
  split at hf
  · cases hf
  split at hf
  · cases hf
  rename_i rest hrest
  split at hf
  · cases hf
  rename_i params uri hsplit
  obtain ⟨rfl, hsep⟩ := splitOnce_some hsplit
  have hosc := stripPrefix_some hrest
  split at hf
  · cases hf
    exact trivial
  rename_i huri
  cases hf
  have hpayload : linkPayload ⟨String.ofList (linkId params), String.ofList uri⟩ =
      ['8', ';'] ++ ((if (linkId params).isEmpty then [] else ['i', 'd', '='] ++ linkId params) ++ ';' :: uri) := by
    simp [linkPayload]
  -- what is left of the parameters was among them
  have hsub : (if (linkId params).isEmpty then [] else ['i', 'd', '='] ++ linkId params).Sublist params := by
    split
    · exact List.nil_sublist _
    · rename_i hne
      exact Base.Split.splitOn_sublist (linkId_mem fun h => hne (by rw [h]; rfl))
  have hid : (linkId params).Sublist params := by
    rcases hempty : (linkId params).isEmpty
    · rw [hempty] at hsub
      exact (List.sublist_append_right _ _).trans hsub
    · rw [List.isEmpty_iff.mp hempty]
      exact List.nil_sublist _
  refine ⟨?_, ⟨?_, ?_⟩, ?_, ?_⟩
  · rw [String.toList_ofList]
    exact fun h => huri (List.isEmpty_iff.mpr h)
  · rw [String.toList_ofList]
    intro hcolon
    have hmem := linkId_mem (List.ne_nil_of_mem hcolon)
    exact Base.Split.splitOn_apart ':' params _ hmem (List.mem_append_right _ hcolon)
  · rw [String.toList_ofList]
    exact fun hsemi => hsep (hid.subset hsemi)
  · intro ch hch
    refine hc ch ?_
    rw [hpayload] at hch
    rw [hosc]
    exact (((List.Sublist.refl _).append (hsub.append (List.Sublist.refl _)))).subset hch
  · rw [hpayload]
    exact (len_sublist ((List.Sublist.refl _).append (hsub.append (List.Sublist.refl _)))).trans (hosc ▸ hb.osc)

theorem writable_feed (hb : Bounded p) (hc : Clean p) {ch : Char} {f : Function} (hf : (p.feed ch).2 = some f) : Writable f := by
  have hlink : ∀ q : Parser, q.osc = p.osc → q.oscOverflow = p.oscOverflow → q.parseHyperlink = some f → Writable f := by
    intro q hosc hover hq
    rw [parseHyperlink_congr hosc hover] at hq
    exact writable_parseHyperlink hb hc hq
  unfold Parser.feed at hf
  split at hf
  · rename_i r hr
    unfold Parser.anywhere at hr
    repeat' split at hr
    all_goals first | (obtain rfl := Option.some.inj hr) | cases hr
    all_goals first
      | cases hf
      | exact (writable_execute hf).1
      | exact hlink _ rfl rfl hf
  · rename_i hany
    unfold Parser.within at hf
    split at hf
    case h_1 =>
      split at hf
      · exact (writable_execute hf).1
      · cases hf
        exact ⟨by omega, low_of_anywhere hany⟩
    all_goals repeat' split at hf
    all_goals first
      | cases hf
      | exact (writable_execute hf).1
      | exact writable_escDispatch hf
      | exact writable_csiDispatch hb hf
      | exact hlink _ rfl rfl hf

theorem writable_of_functions {text : Text} (hb : Bounded p) (hc : Clean p) : ∀ f ∈ p.functions text, Writable f := by
  induction text generalizing p with
  | nil => exact fun _ h => absurd h List.not_mem_nil
  | cons ch text ih =>
    intro f hf
    rcases List.mem_append.mp hf with hf | hf
    · exact writable_feed hb hc (Option.mem_toList.mp hf)
    · exact ih (hb.feed ch) (hc.feed ch) f hf

/-- What a text does, written out again, does the same, if its SGR lists fit. -/
theorem dumped_text_reads_back (text : Text) (hfits : ∀ f ∈ new.functions text, Fits f) :
    new.functions (dumpFunctions (new.functions text)) = new.functions text :=
  functions_dumpFunctions (writable_of_functions bounded_new (clean_nil rfl)) hfits

theorem dumped_text_reads_back_bold :
    new.functions (dumpFunctions (new.functions (Char.ofNat 0x1b :: ['[', '1', 'm', 'x']))) =
      new.functions (Char.ofNat 0x1b :: ['[', '1', 'm', 'x']) := by
  refine dumped_text_reads_back _ fun f hf => ?_
  have hfunctions : new.functions (Char.ofNat 0x1b :: ['[', '1', 'm', 'x']) = [.sgr [.setBoldIntensity], .print 'x'] := rfl
  rw [hfunctions] at hf
  rcases List.mem_cons.mp hf with rfl | hf
  · exact show 1 ≤ 32 by decide
  · rw [List.mem_singleton.mp hf]
    exact trivial

end Parser

end Holdfast.Vendor

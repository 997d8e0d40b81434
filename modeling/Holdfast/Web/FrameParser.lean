/-
  Holdfast.Web.FrameParser — the browser's decoder of a stream (`FrameParser` and the read
  loop of `startChannel` in `web/src/client/transport.ts`), beside the daemon's
  (`FrameDecoder` of `crates/protocol/src/framing.rs`).

  Both take frames off the front of what they hold. The daemon hands each envelope on before
  it looks at the next header; `feed` returns the envelopes of a read together, and throws
  instead when a bad frame follows them. The two protobuf decoders are one parameter.

  Proved:
  - `feed_drain`: what one read does to the parser.
  - `parser_agrees_iff`: the two deliver the same and fail at the same read exactly if no
    read in which a good frame ends goes on to a bad one.
  - `bad_frame_swallows`: a read with an empty envelope and an oversized header.
-/

import Holdfast.Protocol.Framing

namespace Holdfast.Web

open Holdfast.Base Holdfast.Protocol

def maxFrameBytes : UInt32 := 262144

/-- What `feed` throws. -/
inductive ParserError (D : Type) where
  | oversizedFrame (len : UInt32)
  | fromBinary (e : D)
  deriving DecidableEq, Repr

structure FrameParser where
  buf : List UInt8
  deriving DecidableEq, Repr

section

variable {E D : Type} (C : Codec E D)

namespace FrameParser

def new : FrameParser := ⟨[]⟩

/-- The loop of `feed`, with the frames it has pushed. Every turn but the last takes a header and more. -/
def feedLoop : Nat → List UInt8 → List E → FrameParser × Except (ParserError D) (List E)
  | 0, buf, frames => (⟨buf⟩, .ok frames)
  | fuel + 1, buf, frames =>
    match header buf with
    | none => (⟨buf⟩, .ok frames)
    | some len =>
      if len > maxFrameBytes then (⟨buf⟩, .error (.oversizedFrame len))
      else if buf.length < 4 + len.toNat then (⟨buf⟩, .ok frames)
      else
        match C.decode ((buf.drop 4).take len.toNat) with
        | .error e => (⟨buf⟩, .error (.fromBinary e))
        | .ok env => feedLoop fuel (buf.drop (4 + len.toNat)) (frames ++ [env])

def feed (p : FrameParser) (data : List UInt8) : FrameParser × Except (ParserError D) (List E) :=
  let merged := p.buf ++ data
  feedLoop C (merged.length + 1) merged []

/-- The read loop of `startChannel`: the envelopes handed to `onFrame`, and the read that ended it. -/
def receive (p : FrameParser) : List (List UInt8) → List E × Option Nat
  | [] => ([], none)
  | value :: reads =>
    match p.feed C value with
    | (_, .error _) => ([], some 0)
    | (p', .ok frames) => let r := receive p' reads; (frames ++ r.1, r.2.map (· + 1))

end FrameParser

/-- The same of the daemon: the envelopes that `next_frame` gave, and the read that ended it. -/
def receiveFrames (d : FrameDecoder) : List (List UInt8) → List E × Option Nat
  | [] => ([], none)
  | bytes :: reads =>
    match d.feed C bytes with
    | (envelopes, _, .error _) => (envelopes, some 0)
    | (envelopes, d', .ok ()) => let r := receiveFrames d' reads; (envelopes ++ r.1, r.2.map (· + 1))

/-- Good frames to the last byte. -/
inductive Whole (C : Codec E D) (max : UInt32) : List UInt8 → Prop
  | nil : Whole C max []
  | frame (buf : List UInt8) (len : UInt32) (envelope : E) : Complete max buf len →
      C.decode (payload buf len) = .ok envelope → Whole C max (buf.drop (lengthPrefixBytes + len.toNat)) → Whole C max buf

/-- A good frame ends in the read, and then it goes on to a bad one. -/
def Interrupts (max : UInt32) (before read : List UInt8) : Prop :=
  (∃ part rest, read = part ++ rest ∧ part ≠ [] ∧ Whole C max (before ++ part)) ∧ ¬ Accepted C max (before ++ read)

/-! ## One read -/

variable {C}

/-- The browser's parser on a buffer: what draining it gives, but nothing when that fails. -/
theorem feedLoop_drain (fuel : Nat) (buf : List UInt8) (pushed : List E) (hfuel : buf.length < fuel) :
    match ((frames C maxFrameBytes).drain buf).2 with
    | .ok left => FrameParser.feedLoop C fuel buf pushed = (⟨left⟩, .ok (pushed ++ ((frames C maxFrameBytes).drain buf).1))
    | .error _ => ∃ p e, FrameParser.feedLoop C fuel buf pushed = (p, .error e) := by
  induction fuel generalizing buf pushed with
  | zero => omega
  | succ fuel ih =>
    unfold FrameParser.feedLoop
    cases parse_cases C maxFrameBytes buf with
    | refuses len hh hlt hp =>
      rw [Incremental.drain_failed _ hp, hh]
      simp only [gt_iff_lt, hlt, if_true]
      exact ⟨_, _, rfl⟩
    | waits hw hp =>
      rw [Incremental.drain_waiting _ hp, List.append_nil]
      cases hh : header buf with
      | none => rfl
      | some len =>
        obtain ⟨hle, hshort⟩ := hw len hh
        simp only [gt_iff_lt, UInt32.not_lt.mpr hle, if_false]
        rw [if_pos (by simpa [lengthPrefixBytes] using hshort)]
    | corrupt len e hc hd hp =>
      have hwhole := hc.whole
      rw [payload] at hd
      simp only [lengthPrefixBytes] at hwhole hd
      rw [Incremental.drain_failed _ hp, hc.header]
      simp only [gt_iff_lt, UInt32.not_lt.mpr hc.fits, if_false, Nat.not_lt.mpr hwhole, hd]
      exact ⟨_, _, rfl⟩
    | takes len envelope hc hd hp =>
      have hwhole := hc.whole
      rw [payload] at hd
      simp only [lengthPrefixBytes] at hwhole hd
      rw [Incremental.drain_taken _ hp, hc.header]
      simp only [gt_iff_lt, UInt32.not_lt.mpr hc.fits, if_false, Nat.not_lt.mpr hwhole, hd]
      have h := ih (buf.drop (4 + len.toNat)) (pushed ++ [envelope]) (by rw [List.length_drop]; omega)
      simp only [List.append_assoc, List.singleton_append] at h
      exact h

/-- A read, after what an earlier one left. -/
theorem feed_drain (p : FrameParser) (data : List UInt8) :
    match ((frames C maxFrameBytes).drain (p.buf ++ data)).2 with
    | .ok left => p.feed C data = (⟨left⟩, .ok ((frames C maxFrameBytes).drain (p.buf ++ data)).1)
    | .error _ => ∃ p' e, p.feed C data = (p', .error e) := by
  have h := feedLoop_drain (C := C) ((p.buf ++ data).length + 1) (p.buf ++ data) [] (Nat.lt_succ_self _)
  rw [List.nil_append] at h
  exact h

/-! ## Where the two part -/

theorem whole_iff {max : UInt32} {buf : List UInt8} : Whole C max buf ↔ ((frames C max).drain buf).2 = .ok [] := by
  constructor
  · intro h
    induction h with
    | nil => rw [Incremental.drain_nil]
    | frame buf len envelope hc hd _ ih =>
      have hp : (frames C max).next buf = .ok (some (envelope, buf.drop (lengthPrefixBytes + len.toNat))) := by
        show parseFrame C max buf = _
        rw [parse_complete hc, hd]
      rw [Incremental.drain_taken _ hp]
      exact ih
  · refine (frames C max).drain_induction (P := fun buf _ res => res = .ok [] → Whole C max buf) ?_ ?_ ?_ buf
    · intro b e _ h
      cases h
    · intro b _ h
      cases h
      exact .nil
    · intro b envelope r hn ih h
      obtain ⟨len, hc, hd, rfl⟩ := parse_taken hn
      exact .frame b len envelope hc hd (ih h)

theorem accepted_iff {max : UInt32} {buf : List UInt8} :
    Accepted C max buf ↔ ∃ left, ((frames C max).drain buf).2 = .ok left :=
  ⟨drain_accepted, fun h => h.elim fun _ h => (drain_left h).1⟩

/-- What is drained from a read: something, exactly if a good frame ends in it. -/
theorem drained_iff {max : UInt32} {before left read : List UInt8} (h : ((frames C max).drain before).2 = .ok left) :
    ((frames C max).drain (left ++ read)).1 ≠ [] ↔
      ∃ part rest, read = part ++ rest ∧ part ≠ [] ∧ Whole C max (before ++ part) := by
  have hwaits : parseFrame C max left = .ok none := (frames C max).next_left h
  have hwhole : ∀ part, Whole C max (before ++ part) ↔ ((frames C max).drain (left ++ part)).2 = .ok [] := by
    intro part
    rw [whole_iff, Incremental.drain_append, Incremental.feed, h]
  constructor
  · intro hne
    cases hp : (frames C max).next (left ++ read) with
    | error e =>
      rw [Incremental.drain_failed _ hp] at hne
      exact absurd rfl hne
    | ok o =>
      cases o with
      | none =>
        rw [Incremental.drain_waiting _ hp] at hne
        exact absurd rfl hne
      | some x =>
        -- the first frame begins in what was left and ends in the read
        obtain ⟨envelope, r⟩ := x
        obtain ⟨len, hc, hd, -⟩ := parse_taken (show parseFrame C max (left ++ read) = _ from hp)
        have hlong := waiting_short hwaits hc.header
        have hfull := hc.whole
        rw [List.length_append] at hfull
        obtain ⟨n, hn⟩ : ∃ n, left.length + n = lengthPrefixBytes + len.toNat := ⟨_, Nat.add_sub_of_le (Nat.le_of_lt hlong)⟩
        refine ⟨read.take n, read.drop n, (List.take_append_drop _ _).symm, ?_, (hwhole _).mpr ?_⟩
        · intro hnil
          have hzero := congrArg List.length hnil
          rw [List.length_take, List.length_nil] at hzero
          omega
        · have hcut : left ++ read = (left ++ read.take n) ++ read.drop n := by
            rw [List.append_assoc, List.take_append_drop]
          have hlen : (left ++ read.take n).length = lengthPrefixBytes + len.toNat := by
            rw [List.length_append, List.length_take]
            omega
          have hc' : Complete max (left ++ read.take n) len := by
            refine ⟨?_, hc.fits, Nat.le_of_eq hlen.symm⟩
            obtain ⟨len', hlen'⟩ := Option.isSome_iff_exists.mp (header_isSome.mpr (by rw [hlen]; exact Nat.le_add_right _ _))
            have hsame := header_append hlen' (read.drop n)
            rw [← hcut] at hsame
            rw [hlen', hc.len_eq hsame]
          rw [hcut, payload_append hc'] at hd
          have htaken : (frames C max).next (left ++ read.take n) = .ok (some (envelope, [])) := by
            show parseFrame C max _ = _
            rw [parse_complete hc', hd, ← hlen, List.drop_length]
          rw [Incremental.drain_taken _ htaken, Incremental.drain_nil]
  · rintro ⟨part, rest, rfl, hne, hw⟩ hnone
    rw [hwhole] at hw
    cases hp : (frames C max).next (left ++ part) with
    | error e =>
      rw [Incremental.drain_failed _ hp] at hw
      cases hw
    | ok o =>
      cases o with
      | none =>
        rw [Incremental.drain_waiting _ hp] at hw
        simp only [Except.ok.injEq, List.append_eq_nil_iff] at hw
        exact hne hw.2
      | some x =>
        have hstable := (frames C max).stable rest hp
        rw [List.append_assoc] at hstable
        rw [Incremental.drain_taken _ hstable] at hnone
        cases hnone

theorem interrupts_iff {max : UInt32} {before left read : List UInt8} (h : ((frames C max).drain before).2 = .ok left) :
    Interrupts C max before read ↔
      ((frames C max).drain (left ++ read)).1 ≠ [] ∧ ∃ e, ((frames C max).drain (left ++ read)).2 = .error e := by
  rw [Interrupts, ← drained_iff h, accepted_iff, Incremental.drain_append _ before, Incremental.feed, h]
  apply and_congr_right
  intro _
  cases ((frames C max).drain (left ++ read)).2 with
  | error e => simp
  | ok left => simp

/-- No good frame ends behind a bad one. -/
theorem not_interrupts_failed {max : UInt32} {before more read : List UInt8} {e : FrameError D}
    (h : ((frames C max).drain before).2 = .error e) : ¬ Interrupts C max (before ++ more) read := by
  rintro ⟨⟨part, rest, -, -, hw⟩, -⟩
  rw [whole_iff, List.append_assoc, Incremental.drain_append, Incremental.feed, h] at hw
  simp only [h] at hw
  cases hw

/-- Of every read of a stream, with those before it: of the first, and of the others. -/
theorem forall_read_cons {P : List (List UInt8) → List UInt8 → Prop} {bytes : List UInt8} {reads : List (List UInt8)} :
    (∀ pre read post, bytes :: reads = pre ++ read :: post → P pre read) ↔
      P [] bytes ∧ ∀ pre read post, reads = pre ++ read :: post → P (bytes :: pre) read := by
  constructor
  · intro h
    exact ⟨h [] bytes reads rfl, fun pre read post hsplit => h (bytes :: pre) read post (by rw [hsplit]; rfl)⟩
  · rintro ⟨hfirst, hothers⟩ pre read post hsplit
    cases pre with
    | nil =>
      cases hsplit
      exact hfirst
    | cons b pre =>
      cases hsplit
      exact hothers pre read post rfl

theorem agrees_iff {before left : List UInt8} (h : ((frames C maxFrameBytes).drain before).2 = .ok left)
    (reads : List (List UInt8)) :
    (⟨left⟩ : FrameParser).receive C reads = receiveFrames C ⟨maxFrameBytes, left⟩ reads ↔
      ∀ pre read post, reads = pre ++ read :: post → ¬ Interrupts C maxFrameBytes (before ++ pre.flatten) read := by
  induction reads generalizing before left with
  | nil =>
    constructor
    · intro _ pre read post hsplit
      cases pre <;> cases hsplit
    · intro _
      rfl
  | cons bytes reads ih =>
    obtain ⟨ha, hm⟩ := feed_answer (C := C) ⟨maxFrameBytes, left⟩ bytes
    have hparser := feed_drain (C := C) ⟨left⟩ bytes
    have hdrain : ((frames C maxFrameBytes).drain (before ++ bytes)).2 =
        ((frames C maxFrameBytes).drain (left ++ bytes)).2 := by
      rw [Incremental.drain_append, Incremental.feed, h]
    rw [FrameParser.receive, receiveFrames, forall_read_cons, List.flatten_nil, List.append_nil, interrupts_iff h]
    simp only [List.flatten_cons, ← List.append_assoc]
    generalize (⟨maxFrameBytes, left⟩ : FrameDecoder).feed C bytes = r at ha hm
    obtain ⟨envelopes, d', e | ⟨⟨⟩⟩⟩ := r
    · -- both fail at this read; the browser has nothing to show for it
      have hfailed : (frames C maxFrameBytes).drain (left ++ bytes) = (envelopes, .error e) := ha.symm
      rw [hfailed] at hparser hdrain
      obtain ⟨p', e', hthrown⟩ := hparser
      rw [hthrown, hfailed]
      constructor
      · intro heq
        cases heq
        exact ⟨fun hno => hno.1 rfl, fun pre read post _ => not_interrupts_failed hdrain⟩
      · intro hno
        cases envelopes with
        | nil => rfl
        | cons envelope envelopes => exact absurd ⟨List.cons_ne_nil _ _, e, rfl⟩ hno.1
    · have htaken : (frames C maxFrameBytes).drain (left ++ bytes) = (envelopes, .ok d'.buf) := ha.symm
      have hmax : d' = ⟨maxFrameBytes, d'.buf⟩ := by
        rw [← show d'.maxFrameBytes = maxFrameBytes from hm rfl]
      rw [htaken] at hparser hdrain
      rw [hparser, htaken]
      simp only [Prod.mk.injEq, List.append_cancel_left_eq]
      rw [(Option.map_injective Nat.succ_injective).eq_iff]
      rw [hmax, ← Prod.ext_iff, ih hdrain]
      constructor
      · intro hrest
        exact ⟨fun hno => (hno.2.elim fun _ he => by cases he), hrest⟩
      · intro hno
        exact hno.2

/-- The same envelopes and the same failing read, for every codec and however the bytes are cut, exactly
    if no read in which a good frame ends goes on to a bad one. -/
theorem parser_agrees_iff (C : Codec E D) (reads : List (List UInt8)) :
    FrameParser.new.receive C reads = receiveFrames C (FrameDecoder.new maxFrameBytes) reads ↔
      ∀ pre read post, reads = pre ++ read :: post → ¬ Interrupts C maxFrameBytes pre.flatten read :=
  agrees_iff (C := C) (show ((frames C maxFrameBytes).drain []).2 = .ok [] by rw [Incremental.drain_nil]) reads

end

/-- An empty envelope and an oversized header in one read: the daemon delivers the envelope, and in two
    reads the browser does too. -/
theorem bad_frame_swallows :
    FrameParser.new.receive Codec.requestIds [[0, 0, 0, 0, 255, 255, 255, 255]] ≠
      receiveFrames Codec.requestIds (FrameDecoder.new maxFrameBytes) [[0, 0, 0, 0, 255, 255, 255, 255]] ∧
    receiveFrames Codec.requestIds (FrameDecoder.new maxFrameBytes) [[0, 0, 0, 0, 255, 255, 255, 255]] = ([0], some 0) ∧
    FrameParser.new.receive Codec.requestIds [[0, 0, 0, 0], [255, 255, 255, 255]] = ([0], some 1) := by
  decide

end Holdfast.Web

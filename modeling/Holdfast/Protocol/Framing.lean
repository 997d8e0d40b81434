/-
  Holdfast.Protocol.Framing — reliable-stream framing (`crates/protocol/src/framing.rs`):
  a `u32` big-endian length, then that many bytes of an encoded envelope.

  Encoding and decoding of the envelope itself (prost) is a parameter (`Codec`).
  `FrameDecoder` is fed with the reads of a transport, cut anywhere: `extend` appends one,
  `next_frame` takes envelopes off until none is complete. As an `Incremental` decoder
  (`frames`) it gives the same envelopes and the same outcome for every cut.

  `extend` looks at the header at the front of its buffer before it copies anything past
  it, and `next_frame` at the header that comes to the front. A header behind a frame the
  same read completes is seen only afterwards: the read is in the buffer by then, with
  what follows that header.

  Proved:
  - `feedAll_eq`: feeding reads is draining their concatenation.
  - `framing_exact`: envelopes written as frames come back, however they are cut.
  - `feedAll_bounded`: less than a header and `max` bytes stay behind a drain.
  - `oversized_stored_iff`: a payload byte behind an oversized header gets stored exactly
    when a read that began before that frame goes on past its header.
-/

import Mathlib.Tactic
import Holdfast.Base.Incremental

namespace Holdfast.Protocol

open Holdfast.Base

/-- `prost::Message` for one message type. -/
structure Codec (E D : Type) where
  encode : E → List UInt8
  decode : List UInt8 → Except D E

def lengthPrefixBytes : Nat := 4

inductive FrameError (D : Type) where
  | tooLarge (len max : UInt32)
  | decode (e : D)
  | encodeTooLarge (max : UInt32)
  deriving DecidableEq, Repr

/-! ## Headers -/

/-- `u32::to_be_bytes`. -/
def toBeBytes (n : UInt32) : List UInt8 :=
  [(n >>> 24).toUInt8, (n >>> 16).toUInt8, (n >>> 8).toUInt8, n.toUInt8]

/-- `u32::from_be_bytes`. -/
def fromBeBytes (a b c d : UInt8) : UInt32 :=
  UInt32.ofNat (a.toNat * 2 ^ 24 + b.toNat * 2 ^ 16 + c.toNat * 2 ^ 8 + d.toNat)

theorem fromBeBytes_toBeBytes (n : UInt32) :
    fromBeBytes (n >>> 24).toUInt8 (n >>> 16).toUInt8 (n >>> 8).toUInt8 n.toUInt8 = n := by
  apply UInt32.toNat_inj.mp
  have := n.toNat_lt
  simp [fromBeBytes, Nat.shiftRight_eq_div_pow]
  omega

/-- The length the first four bytes of a buffer give, once they are there. -/
def header : List UInt8 → Option UInt32
  | a :: b :: c :: d :: _ => some (fromBeBytes a b c d)
  | _ => none

theorem header_append {buf : List UInt8} {len : UInt32} (h : header buf = some len) (more : List UInt8) :
    header (buf ++ more) = some len := by
  match buf, h with
  | _ :: _ :: _ :: _ :: _, h => exact h

theorem header_isSome {buf : List UInt8} : (header buf).isSome = true ↔ lengthPrefixBytes ≤ buf.length := by
  match buf with
  | [] | [_] | [_, _] | [_, _, _] => simp [header, lengthPrefixBytes]
  | _ :: _ :: _ :: _ :: _ => simp [header, lengthPrefixBytes]

theorem header_none {buf : List UInt8} (h : header buf = none) : buf.length < lengthPrefixBytes := by
  by_contra hle
  have := header_isSome.mpr (Nat.not_lt.mp hle)
  rw [h] at this
  cases this

theorem header_toBeBytes (n : UInt32) (more : List UInt8) : header (toBeBytes n ++ more) = some n := by
  show some (fromBeBytes _ _ _ _) = some n
  rw [fromBeBytes_toBeBytes]

/-- A header is read off four bytes: the rest of the buffer does not matter. -/
theorem header_take {buf : List UInt8} : header (buf.take lengthPrefixBytes) = header buf := by
  match buf with
  | [] | [_] | [_, _] | [_, _, _] => rfl
  | _ :: _ :: _ :: _ :: _ => rfl

/-! ## Encoding and decoding -/

section

variable {E D : Type} (C : Codec E D)

/-- `encode_frame` and `encode_agent_frame` are this at their message types. -/
def encodeDelimited (message : E) (max : UInt32) : Except (FrameError D) (List UInt8) :=
  let len := (C.encode message).length
  if len > max.toNat then .error (.encodeTooLarge max)
  else .ok (toBeBytes (UInt32.ofNat len) ++ C.encode message)

/-- `checked_payload_len`, of the four header bytes. -/
def checkedPayloadLen (len max : UInt32) : Except (FrameError D) Nat :=
  if len > max then .error (.tooLarge len max) else .ok len.toNat

structure FrameDecoder where
  maxFrameBytes : UInt32
  buf : List UInt8
  deriving DecidableEq, Repr

namespace FrameDecoder

def new (max : UInt32) : FrameDecoder := ⟨max, []⟩

def checkHeader (d : FrameDecoder) : Except (FrameError D) Unit :=
  match header d.buf with
  | some len => if len > d.maxFrameBytes then .error (.tooLarge len d.maxFrameBytes) else .ok ()
  | none => .ok ()

def push (d : FrameDecoder) (bytes : List UInt8) : FrameDecoder := { d with buf := d.buf ++ bytes }

def extend (d : FrameDecoder) (bytes : List UInt8) : FrameDecoder × Except (FrameError D) Unit :=
  if d.buf.length < lengthPrefixBytes then
    -- complete a split header first, and look at it before anything behind it is copied
    let headerBytes := min (lengthPrefixBytes - d.buf.length) bytes.length
    let d₁ := d.push (bytes.take headerBytes)
    match d₁.checkHeader (D := D) with
    | .error e => (d₁, .error e)
    | .ok () =>
      let d₂ := d₁.push (bytes.drop headerBytes)
      (d₂, d₂.checkHeader)
  else
    match d.checkHeader (D := D) with
    | .error e => (d, .error e)
    | .ok () =>
      let d₂ := d.push bytes
      (d₂, d₂.checkHeader)

def nextFrame (d : FrameDecoder) : FrameDecoder × Except (FrameError D) (Option E) :=
  match d.checkHeader (D := D) with
  | .error e => (d, .error e)
  | .ok () =>
    match header d.buf with
    | none => (d, .ok none)
    | some len =>
      if d.buf.length < lengthPrefixBytes + len.toNat then (d, .ok none)
      else
        let d' := { d with buf := d.buf.drop (lengthPrefixBytes + len.toNat) }
        match C.decode ((d.buf.drop lengthPrefixBytes).take len.toNat) with
        | .error e => (d', .error (.decode e))
        | .ok envelope => (d', .ok (some envelope))

def buffered (d : FrameDecoder) : Nat := d.buf.length

/-- `while let Some(envelope) = decoder.next_frame()?`. -/
def drainFuel : Nat → FrameDecoder → List E × FrameDecoder × Except (FrameError D) Unit
  | 0, d => ([], d, .ok ())
  | fuel + 1, d =>
    match d.nextFrame C with
    | (d', .error e) => ([], d', .error e)
    | (d', .ok none) => ([], d', .ok ())
    | (d', .ok (some envelope)) => let r := drainFuel fuel d'; (envelope :: r.1, r.2)

def drain (d : FrameDecoder) : List E × FrameDecoder × Except (FrameError D) Unit := drainFuel C (d.buf.length + 1) d

/-- One transport read: `extend`, then everything complete off the front. -/
def feed (d : FrameDecoder) (bytes : List UInt8) : List E × FrameDecoder × Except (FrameError D) Unit :=
  match d.extend (D := D) bytes with
  | (d', .error e) => ([], d', .error e)
  | (d', .ok ()) => d'.drain C

/-- The reads of a stream one after the other; an error is fatal for it. -/
def feedAll (d : FrameDecoder) : List (List UInt8) → List E × FrameDecoder × Except (FrameError D) Unit
  | [] => ([], d, .ok ())
  | bytes :: reads =>
    match d.feed C bytes with
    | (envelopes, d', .error e) => (envelopes, d', .error e)
    | (envelopes, d', .ok ()) => let r := feedAll d' reads; (envelopes ++ r.1, r.2)

/-! ## One call -/

variable {C}

/-- What `next_frame` can do: refuse the header, wait for the rest of the frame, or take
    the frame, whose payload decodes or does not. -/
inductive NextCase (d : FrameDecoder) : FrameDecoder × Except (FrameError D) (Option E) → Prop
  | refuses (len : UInt32) : header d.buf = some len → d.maxFrameBytes < len →
      NextCase d (d, .error (.tooLarge len d.maxFrameBytes))
  | waits : (∀ len, header d.buf = some len → len ≤ d.maxFrameBytes ∧ d.buf.length < lengthPrefixBytes + len.toNat) →
      NextCase d (d, .ok none)
  | takes (len : UInt32) (r : Except (FrameError D) (Option E)) : header d.buf = some len → len ≤ d.maxFrameBytes →
      lengthPrefixBytes + len.toNat ≤ d.buf.length →
      r = (match C.decode ((d.buf.drop lengthPrefixBytes).take len.toNat) with
        | .error e => .error (.decode e)
        | .ok envelope => .ok (some envelope)) →
      NextCase d ({ d with buf := d.buf.drop (lengthPrefixBytes + len.toNat) }, r)

theorem nextFrame_cases (d : FrameDecoder) : NextCase (C := C) d (d.nextFrame C) := by
  unfold nextFrame checkHeader
  cases hh : header d.buf with
  | none =>
    refine .waits ?_
    intro len h
    rw [hh] at h
    cases h
  | some len =>
    by_cases hlen : len > d.maxFrameBytes
    · simp only [hlen, if_true]
      exact .refuses len hh hlen
    · have hle : len ≤ d.maxFrameBytes := UInt32.not_lt.mp hlen
      simp only [hlen, if_false]
      by_cases hshort : d.buf.length < lengthPrefixBytes + len.toNat
      · simp only [hshort, if_true]
        refine .waits ?_
        intro len' h
        rw [hh] at h
        cases h
        exact ⟨hle, hshort⟩
      · simp only [hshort, if_false]
        have htakes := NextCase.takes (C := C) (d := d) len _ hh hle (Nat.not_lt.mp hshort) rfl
        revert htakes
        cases C.decode ((d.buf.drop lengthPrefixBytes).take len.toNat) with
        | error e => exact id
        | ok envelope => exact id

theorem checkHeader_of_header {d : FrameDecoder} {o : Option UInt32} (h : header d.buf = o) :
    d.checkHeader (D := D) = .ok () ∧ (∀ len, o = some len → len ≤ d.maxFrameBytes) ∨
    ∃ len, o = some len ∧ d.maxFrameBytes < len ∧ d.checkHeader (D := D) = .error (.tooLarge len d.maxFrameBytes) := by
  unfold checkHeader
  subst h
  cases header d.buf with
  | none => exact .inl ⟨rfl, nofun⟩
  | some len =>
    by_cases hlen : len > d.maxFrameBytes
    · exact .inr ⟨len, rfl, hlen, if_pos hlen⟩
    · refine .inl ⟨if_neg hlen, ?_⟩
      intro len' h'
      cases h'
      exact UInt32.not_lt.mp hlen

/-- `extend` appends the read, or refuses the header at the front, which then is all that
    is buffered of its frame if less than a header was. -/
theorem extend_cases (d : FrameDecoder) (bytes : List UInt8) :
    (d.extend (D := D) bytes = (d.push bytes, .ok ()) ∧
      ∀ len, header (d.buf ++ bytes) = some len → len ≤ d.maxFrameBytes) ∨
    ∃ len, header (d.buf ++ bytes) = some len ∧ d.maxFrameBytes < len ∧
      (d.extend (D := D) bytes).2 = .error (.tooLarge len d.maxFrameBytes) ∧
      (d.buf.length < lengthPrefixBytes →
        (d.extend (D := D) bytes).1.buf = (d.buf ++ bytes).take lengthPrefixBytes) := by
  have hfinal : ∀ {d₂ : FrameDecoder}, d₂ = d.push bytes → (∀ len, header (d.buf ++ bytes) = some len →
      len ≤ d.maxFrameBytes) → d₂.checkHeader (D := D) = .ok () := by
    intro d₂ h₂ hle
    subst h₂
    rcases checkHeader_of_header (D := D) (d := d.push bytes) rfl with ⟨h, _⟩ | ⟨len, hh, hlt, _⟩
    · exact h
    · exact absurd (hle len hh) (UInt32.not_le.mpr hlt)
  unfold extend
  by_cases hshort : d.buf.length < lengthPrefixBytes
  · simp only [hshort, if_true, true_implies]
    -- the first push makes the first four bytes of the whole
    have htake : bytes.take (min (lengthPrefixBytes - d.buf.length) bytes.length) =
        bytes.take (lengthPrefixBytes - d.buf.length) := List.take_eq_take_min.symm
    have hbuf : (d.push (bytes.take (min (lengthPrefixBytes - d.buf.length) bytes.length))).buf =
        (d.buf ++ bytes).take lengthPrefixBytes := by
      rw [List.take_append, List.take_of_length_le (Nat.le_of_lt hshort), ← htake]
      rfl
    have hpush : (d.push (bytes.take (min (lengthPrefixBytes - d.buf.length) bytes.length))).push
        (bytes.drop (min (lengthPrefixBytes - d.buf.length) bytes.length)) = d.push bytes := by
      simp only [push, List.append_assoc, List.take_append_drop]
    rcases checkHeader_of_header (D := D) (show header _ = header (d.buf ++ bytes) by rw [hbuf, header_take])
      with ⟨hok, hle⟩ | ⟨len, hh, hlt, herr⟩
    · rw [hok]
      refine .inl ⟨?_, hle⟩
      simp only [hpush]
      rw [hfinal rfl hle]
    · rw [herr]
      exact .inr ⟨len, hh, hlt, rfl, hbuf⟩
  · simp only [hshort, if_false, false_implies, and_true]
    have hheader : header d.buf = header (d.buf ++ bytes) := by
      obtain ⟨len, hlen⟩ := Option.isSome_iff_exists.mp (header_isSome.mpr (Nat.not_lt.mp hshort))
      rw [hlen, header_append hlen]
    rcases checkHeader_of_header (D := D) hheader with ⟨hok, hle⟩ | ⟨len, hh, hlt, herr⟩
    · rw [hok]
      refine .inl ⟨?_, hle⟩
      simp only
      rw [hfinal rfl hle]
    · rw [herr]
      exact .inr ⟨len, hh, hlt, rfl⟩

end FrameDecoder

/-! ## As an incremental decoder -/

open FrameDecoder

/-- The decoder's answer on a buffer, with what it leaves. -/
def parseFrame (max : UInt32) (buf : List UInt8) : Except (FrameError D) (Option (E × List UInt8)) :=
  match (⟨max, buf⟩ : FrameDecoder).nextFrame C with
  | (_, .error e) => .error e
  | (_, .ok none) => .ok none
  | (d', .ok (some envelope)) => .ok (some (envelope, d'.buf))

variable {C}

/-- A whole frame within the maximum at the front of a buffer. -/
structure Complete (max : UInt32) (buf : List UInt8) (len : UInt32) : Prop where
  header : header buf = some len
  fits : len ≤ max
  whole : lengthPrefixBytes + len.toNat ≤ buf.length

def payload (buf : List UInt8) (len : UInt32) : List UInt8 := (buf.drop lengthPrefixBytes).take len.toNat

theorem Complete.append {max len : UInt32} {buf : List UInt8} (h : Complete max buf len) (more : List UInt8) :
    Complete max (buf ++ more) len :=
  ⟨header_append h.header more, h.fits, by rw [List.length_append]; have := h.whole; omega⟩

theorem Complete.len_eq {max len len' : UInt32} {buf : List UInt8} (h : Complete max buf len)
    (h' : Protocol.header buf = some len') : len' = len := by
  rw [h.header] at h'
  exact (Option.some.inj h').symm

theorem payload_append {max len : UInt32} {buf : List UInt8} (h : Complete max buf len) (more : List UInt8) :
    payload (buf ++ more) len = payload buf len := by
  have hwhole := h.whole
  rw [payload, List.drop_append_of_le_length (by omega),
    List.take_append_of_le_length (by rw [List.length_drop]; omega)]
  rfl

/-- The four answers to a buffer. -/
inductive ParseCase (C : Codec E D) (max : UInt32) (buf : List UInt8) : Prop
  | refuses (len : UInt32) : header buf = some len → max < len →
      parseFrame C max buf = .error (.tooLarge len max) → ParseCase C max buf
  | waits : (∀ len, header buf = some len → len ≤ max ∧ buf.length < lengthPrefixBytes + len.toNat) →
      parseFrame C max buf = .ok none → ParseCase C max buf
  | corrupt (len : UInt32) (e : D) : Complete max buf len → C.decode (payload buf len) = .error e →
      parseFrame C max buf = .error (.decode e) → ParseCase C max buf
  | takes (len : UInt32) (envelope : E) : Complete max buf len → C.decode (payload buf len) = .ok envelope →
      parseFrame C max buf = .ok (some (envelope, buf.drop (lengthPrefixBytes + len.toNat))) → ParseCase C max buf

theorem parse_cases (C : Codec E D) (max : UInt32) (buf : List UInt8) : ParseCase C max buf := by
  have hcases := nextFrame_cases (C := C) ⟨max, buf⟩
  generalize hr : (⟨max, buf⟩ : FrameDecoder).nextFrame C = r at hcases
  cases hcases with
  | refuses len hh hlt => exact .refuses len hh hlt (by simp only [parseFrame, hr])
  | waits hw => exact .waits hw (by simp only [parseFrame, hr])
  | takes len r hh hle hfull hdec =>
    cases hd : C.decode (payload buf len) with
    | error e =>
      rw [payload] at hd
      rw [hd] at hdec
      subst hdec
      exact .corrupt len e ⟨hh, hle, hfull⟩ hd (by simp only [parseFrame, hr])
    | ok envelope =>
      rw [payload] at hd
      rw [hd] at hdec
      subst hdec
      exact .takes len envelope ⟨hh, hle, hfull⟩ hd (by simp only [parseFrame, hr])

theorem parse_complete {max len : UInt32} {buf : List UInt8} (h : Complete max buf len) :
    parseFrame C max buf = (match C.decode (payload buf len) with
      | .error e => .error (.decode e)
      | .ok envelope => .ok (some (envelope, buf.drop (lengthPrefixBytes + len.toNat)))) := by
  cases parse_cases C max buf with
  | refuses len' hh hlt _ =>
    rw [h.len_eq hh] at hlt
    exact absurd h.fits (UInt32.not_le.mpr hlt)
  | waits hw _ =>
    have := (hw len h.header).2
    have := h.whole
    omega
  | corrupt len' e h' hd hp =>
    cases h.len_eq h'.header
    rw [hp, hd]
  | takes len' envelope h' hd hp =>
    cases h.len_eq h'.header
    rw [hp, hd]

theorem parse_refused {max len : UInt32} {buf : List UInt8} (h : header buf = some len) (hlt : max < len) :
    parseFrame C max buf = .error (.tooLarge len max) := by
  have hnot : ∀ len', ¬ Complete max buf len' := by
    intro len' hc
    have hfits := hc.fits
    rw [← hc.len_eq h] at hfits
    exact absurd hfits (UInt32.not_le.mpr hlt)
  cases parse_cases C max buf with
  | refuses len' hh _ hp =>
    rw [h] at hh
    cases hh
    exact hp
  | waits hw _ => exact absurd (hw len h).1 (UInt32.not_le.mpr hlt)
  | corrupt len' e h' _ _ => exact absurd h' (hnot len')
  | takes len' envelope h' _ _ => exact absurd h' (hnot len')

theorem parse_waiting {max : UInt32} {buf : List UInt8} (h : parseFrame C max buf = .ok none) {len : UInt32}
    (hh : header buf = some len) : len ≤ max ∧ buf.length < lengthPrefixBytes + len.toNat := by
  cases parse_cases C max buf with
  | refuses _ _ _ hp => rw [h] at hp; cases hp
  | waits hw _ => exact hw len hh
  | corrupt _ _ _ _ hp => rw [h] at hp; cases hp
  | takes _ _ _ _ hp => rw [h] at hp; cases hp

/-- What waits for the rest of a frame is shorter than the frame turns out to be. -/
theorem waiting_short {max len : UInt32} {buf more : List UInt8} (h : parseFrame C max buf = .ok none)
    (hh : header (buf ++ more) = some len) : buf.length < lengthPrefixBytes + len.toNat := by
  cases hb : header buf with
  | none =>
    have := header_none hb
    omega
  | some len' =>
    rw [header_append hb] at hh
    cases hh
    exact (parse_waiting h hb).2

theorem parse_incomplete {max : UInt32} {buf : List UInt8}
    (h : ∀ len, header buf = some len → len ≤ max ∧ buf.length < lengthPrefixBytes + len.toNat) :
    parseFrame C max buf = .ok none := by
  have hnot : ∀ len, ¬ Complete max buf len := by
    intro len hc
    have := (h len hc.header).2
    have := hc.whole
    omega
  cases parse_cases C max buf with
  | refuses len hh hlt _ => exact absurd (h len hh).1 (UInt32.not_le.mpr hlt)
  | waits _ hp => exact hp
  | corrupt len _ hc _ _ => exact absurd hc (hnot len)
  | takes len _ hc _ _ => exact absurd hc (hnot len)

theorem parse_taken {max : UInt32} {buf r : List UInt8} {envelope : E}
    (h : parseFrame C max buf = .ok (some (envelope, r))) :
    ∃ len, Complete max buf len ∧ C.decode (payload buf len) = .ok envelope ∧
      r = buf.drop (lengthPrefixBytes + len.toNat) := by
  cases parse_cases C max buf with
  | refuses _ _ _ hp => rw [hp] at h; cases h
  | waits _ hp => rw [hp] at h; cases h
  | corrupt _ _ _ _ hp => rw [hp] at h; cases h
  | takes len envelope' hc hd hp =>
    rw [hp] at h
    cases h
    exact ⟨len, hc, hd, rfl⟩

variable (C)

def frames (max : UInt32) : Incremental UInt8 E (FrameError D) where
  next := parseFrame C max
  empty := rfl
  shrinks := by
    intro b a r h
    obtain ⟨len, hc, _, rfl⟩ := parse_taken h
    have hwhole := hc.whole
    rw [List.length_drop]
    simp only [lengthPrefixBytes] at *
    omega
  stable := by
    intro b a r c h
    obtain ⟨len, hc, hd, rfl⟩ := parse_taken h
    rw [parse_complete (hc.append c), payload_append hc, hd]
    simp only
    rw [List.drop_append_of_le_length hc.whole]
  fatal := by
    intro b e c h
    cases parse_cases C max b with
    | refuses len hh hlt hp =>
      rw [hp] at h
      cases h
      exact parse_refused (header_append hh c) hlt
    | waits _ hp => rw [hp] at h; cases h
    | corrupt len e' hc hd hp =>
      rw [hp] at h
      cases h
      rw [parse_complete (hc.append c), payload_append hc, hd]
    | takes _ _ _ _ hp => rw [hp] at h; cases h

/-! ## The decoder against it -/

/-- What a call told its caller, with what it left in the buffer if it went well. -/
def answer (r : List E × FrameDecoder × Except (FrameError D) Unit) : List E × Except (FrameError D) (List UInt8) :=
  (r.1, r.2.2.map fun _ => r.2.1.buf)

variable {C}

theorem drainFuel_answer (n : Nat) (d : FrameDecoder) :
    answer (drainFuel C n d) = (frames C d.maxFrameBytes).drainFuel n d.buf ∧
      (drainFuel C n d).2.1.maxFrameBytes = d.maxFrameBytes := by
  induction n generalizing d with
  | zero => exact ⟨rfl, rfl⟩
  | succ n ih =>
    have hnext : (frames C d.maxFrameBytes).next d.buf = parseFrame C d.maxFrameBytes d.buf := rfl
    have hcases := nextFrame_cases (C := C) d
    rw [parseFrame] at hnext
    unfold FrameDecoder.drainFuel Incremental.drainFuel
    rw [hnext]
    generalize d.nextFrame C = r at hcases
    cases hcases with
    | refuses len _ _ => exact ⟨rfl, rfl⟩
    | waits _ => exact ⟨rfl, rfl⟩
    | takes len r _ _ _ hr =>
      cases hd : C.decode ((d.buf.drop lengthPrefixBytes).take len.toNat) with
      | error e =>
        rw [hd] at hr
        subst hr
        exact ⟨rfl, rfl⟩
      | ok envelope =>
        rw [hd] at hr
        subst hr
        obtain ⟨ha, hm⟩ := ih { d with buf := d.buf.drop (lengthPrefixBytes + len.toNat) }
        refine ⟨?_, hm⟩
        simp only [← ha]
        rfl

theorem drain_answer (d : FrameDecoder) :
    answer (d.drain C) = (frames C d.maxFrameBytes).drain d.buf ∧ (d.drain C).2.1.maxFrameBytes = d.maxFrameBytes :=
  drainFuel_answer _ d

/-- A read, drained: the decoder on what was left and the read. An `extend` that fails
    refuses what the drain would have refused first. -/
theorem feed_answer (d : FrameDecoder) (bytes : List UInt8) :
    answer (d.feed C bytes) = (frames C d.maxFrameBytes).drain (d.buf ++ bytes) ∧
      ((d.feed C bytes).2.2 = .ok () → (d.feed C bytes).2.1.maxFrameBytes = d.maxFrameBytes) := by
  unfold feed
  rcases extend_cases (D := D) d bytes with ⟨he, _⟩ | ⟨len, hh, hlt, he, _⟩
  · rw [he]
    obtain ⟨ha, hm⟩ := drain_answer (C := C) (d.push bytes)
    exact ⟨ha, fun _ => hm⟩
  · rw [Incremental.drain_failed _ (parse_refused hh hlt)]
    generalize d.extend (D := D) bytes = r at he
    obtain ⟨d', res⟩ := r
    cases he
    exact ⟨rfl, nofun⟩

theorem feedAll_answer (d : FrameDecoder) (reads : List (List UInt8)) :
    answer (d.feedAll C reads) = reads.foldl (frames C d.maxFrameBytes).feed ([], .ok d.buf) := by
  induction reads generalizing d with
  | nil => rfl
  | cons bytes reads ih =>
    obtain ⟨ha, hm⟩ := feed_answer (C := C) d bytes
    rw [List.foldl_cons]
    have hfeed : (frames C d.maxFrameBytes).feed ([], .ok d.buf) bytes = answer (d.feed C bytes) := by
      rw [ha]
      rfl
    rw [hfeed]
    unfold feedAll
    generalize d.feed C bytes = r at hm
    obtain ⟨envelopes, d', e | ⟨⟨⟩⟩⟩ := r
    · exact ((frames C d.maxFrameBytes).foldl_feed_failed envelopes e reads).symm
    · rw [Incremental.foldl_feed]
      simp only [answer, Except.map] at ih ⊢
      rw [← hm rfl, ← ih d']

theorem feedAll_max {d : FrameDecoder} {reads : List (List UInt8)} (h : (d.feedAll C reads).2.2 = .ok ()) :
    (d.feedAll C reads).2.1.maxFrameBytes = d.maxFrameBytes := by
  induction reads generalizing d with
  | nil => rfl
  | cons bytes reads ih =>
    have hm := (feed_answer (C := C) d bytes).2
    unfold feedAll at h ⊢
    generalize d.feed C bytes = r at hm h
    obtain ⟨envelopes, d', e | ⟨⟨⟩⟩⟩ := r
    · cases h
    · exact (ih h).trans (hm rfl)

theorem answer_ok {r : List E × FrameDecoder × Except (FrameError D) Unit} {envelopes : List E} {left : List UInt8}
    (h : answer r = (envelopes, .ok left)) : r.1 = envelopes ∧ r.2.1.buf = left ∧ r.2.2 = .ok () := by
  obtain ⟨vals, d, e | ⟨⟨⟩⟩⟩ := r
  · cases h
  · cases h
    exact ⟨rfl, rfl, rfl⟩

/-- An answer tells the outcome. -/
theorem outcome_eq {r r' : List E × FrameDecoder × Except (FrameError D) Unit} (h : answer r = answer r') :
    r.1 = r'.1 ∧ r.2.2 = r'.2.2 := by
  have hres : (r.2.2.map fun _ => r.2.1.buf) = r'.2.2.map fun _ => r'.2.1.buf := congrArg (·.2) h
  refine ⟨congrArg (·.1) h, ?_⟩
  cases hr : r.2.2 with
  | error e =>
    cases hr' : r'.2.2 with
    | error e' =>
      rw [hr, hr'] at hres
      exact congrArg Except.error (Except.error.inj hres)
    | ok u' => rw [hr, hr'] at hres; cases hres
  | ok u =>
    cases hr' : r'.2.2 with
    | error e' => rw [hr, hr'] at hres; cases hres
    | ok u' => rfl

/-- The reads of a stream, decoded: what draining their concatenation gives. -/
theorem feedAll_eq (max : UInt32) (reads : List (List UInt8)) :
    answer ((new max).feedAll C reads) = (frames C max).drain reads.flatten := by
  rw [feedAll_answer]
  exact (frames C max).feed_flatten reads

/-! ## Frames written and read -/

/-- What one envelope looks like on the wire. -/
def frameOf (C : Codec E D) (envelope : E) : List UInt8 :=
  toBeBytes (UInt32.ofNat (C.encode envelope).length) ++ C.encode envelope

theorem encodeDelimited_ok {max : UInt32} {envelope : E} (h : (C.encode envelope).length ≤ max.toNat) :
    encodeDelimited C envelope max = .ok (frameOf C envelope) := if_neg (Nat.not_lt.mpr h)

theorem toBeBytes_length (n : UInt32) : (toBeBytes n).length = lengthPrefixBytes := rfl

theorem encodeDelimited_length {max : UInt32} {envelope : E} {frame : List UInt8}
    (h : encodeDelimited C envelope max = .ok frame) :
    frame.length ≤ lengthPrefixBytes + max.toNat := by
  unfold encodeDelimited at h
  simp only at h
  split at h
  · cases h
  · rename_i hle
    obtain rfl := Except.ok.inj h
    rw [List.length_append, toBeBytes_length]
    omega

theorem parse_frameOf {max : UInt32} {envelope : E} (h : (C.encode envelope).length ≤ max.toNat)
    (hinv : C.decode (C.encode envelope) = .ok envelope) (more : List UInt8) :
    parseFrame C max (frameOf C envelope ++ more) = .ok (some (envelope, more)) := by
  have hlen : (UInt32.ofNat (C.encode envelope).length).toNat = (C.encode envelope).length := by
    have := max.toNat_lt
    rw [UInt32.toNat_ofNat_of_lt' (by simp only [UInt32.size]; omega)]
  have hprefix : (toBeBytes (UInt32.ofNat (C.encode envelope).length)).length = lengthPrefixBytes := rfl
  have hc : Complete max (frameOf C envelope) (UInt32.ofNat (C.encode envelope).length) := by
    refine ⟨header_toBeBytes _ _, ?_, ?_⟩
    · rw [UInt32.le_iff_toNat_le, hlen]
      exact h
    · have hframe : (frameOf C envelope).length = lengthPrefixBytes + (C.encode envelope).length := by
        rw [frameOf, List.length_append, hprefix]
      rw [hlen]
      exact Nat.le_of_eq hframe.symm
  have hpayload : payload (frameOf C envelope) (UInt32.ofNat (C.encode envelope).length) = C.encode envelope := by
    rw [payload, frameOf, hlen, ← hprefix, List.drop_left, List.take_length]
  have hrest : (frameOf C envelope ++ more).drop (lengthPrefixBytes + (UInt32.ofNat (C.encode envelope).length).toNat) =
      more := by
    rw [hlen, ← hprefix, ← List.length_append]
    exact List.drop_left
  rw [parse_complete (hc.append more), payload_append hc, hpayload, hinv]
  simp only
  rw [hrest]

theorem drain_frames {max : UInt32} {envelopes : List E} (h : ∀ e ∈ envelopes, (C.encode e).length ≤ max.toNat)
    (hinv : ∀ e ∈ envelopes, C.decode (C.encode e) = .ok e) :
    (frames C max).drain (envelopes.flatMap (frameOf C)) = (envelopes, .ok []) := by
  induction envelopes with
  | nil => exact (frames C max).drain_nil
  | cons e envelopes ih =>
    obtain ⟨he, hes⟩ := List.forall_mem_cons.mp h
    obtain ⟨hi, his⟩ := List.forall_mem_cons.mp hinv
    rw [List.flatMap_cons, Incremental.drain_taken _ (parse_frameOf he hi _), ih hes his]

/-- A stream cut anywhere: the first frames come out, and nothing fails. -/
theorem drain_cut {max : UInt32} {envelopes : List E} (h : ∀ e ∈ envelopes, (C.encode e).length ≤ max.toNat)
    (hinv : ∀ e ∈ envelopes, C.decode (C.encode e) = .ok e) {bytes : List UInt8}
    (hcut : bytes <+: envelopes.flatMap (frameOf C)) :
    ((frames C max).drain bytes).1 <+: envelopes ∧ ∃ left, ((frames C max).drain bytes).2 = .ok left := by
  obtain ⟨rest, hrest⟩ := hcut
  have hwhole := drain_frames (C := C) h hinv
  rw [← hrest, Incremental.drain_append, Incremental.feed] at hwhole
  cases hd : ((frames C max).drain bytes).2 with
  | error e =>
    -- a failure would be the whole stream's
    rw [hd] at hwhole
    simp only at hwhole
    rw [hwhole] at hd
    cases hd
  | ok left =>
    rw [hd] at hwhole
    simp only [Prod.mk.injEq] at hwhole
    exact ⟨⟨_, hwhole.1⟩, left, rfl⟩

/-- What is left waits for the rest of one frame within the maximum. -/
theorem drain_bounded {max : UInt32} {buf left : List UInt8} (h : ((frames C max).drain buf).2 = .ok left) :
    left.length < lengthPrefixBytes + max.toNat := by
  have hnext : parseFrame C max left = .ok none := (frames C max).next_left h
  cases hh : header left with
  | none =>
    have := header_none hh
    omega
  | some len =>
    obtain ⟨hle, hshort⟩ := parse_waiting hnext hh
    have := UInt32.le_iff_toNat_le.mp hle
    omega

/-! ## Oversized frames -/

/-- Walking the frames of `buf`, the first header above the maximum starts at `o`. -/
inductive OversizedAt (max : UInt32) : List UInt8 → Nat → Prop
  | here (buf : List UInt8) (len : UInt32) : header buf = some len → max < len → OversizedAt max buf 0
  | later (buf : List UInt8) (len : UInt32) (o : Nat) : Complete max buf len →
      OversizedAt max (buf.drop (lengthPrefixBytes + len.toNat)) o →
      OversizedAt max buf (lengthPrefixBytes + len.toNat + o)

theorem oversizedAt_complete {max len : UInt32} {buf : List UInt8} (h : Complete max buf len) {o : Nat} :
    OversizedAt max buf o ↔
      ∃ o', OversizedAt max (buf.drop (lengthPrefixBytes + len.toNat)) o' ∧ o = lengthPrefixBytes + len.toNat + o' := by
  constructor
  · intro ho
    cases ho with
    | here _ len' hh hlt =>
      rw [h.len_eq hh] at hlt
      exact absurd h.fits (UInt32.not_le.mpr hlt)
    | later _ len' o' hc ho =>
      cases h.len_eq hc.header
      exact ⟨o', ho, rfl⟩
  · intro ho
    obtain ⟨o', ho, rfl⟩ := ho
    exact .later buf len o' h ho

/-- The frames of a stream so far all decode, but for one that is still coming. -/
inductive Accepted (C : Codec E D) (max : UInt32) : List UInt8 → Prop
  | waits (buf : List UInt8) :
      (∀ len, header buf = some len → len ≤ max ∧ buf.length < lengthPrefixBytes + len.toNat) → Accepted C max buf
  | frame (buf : List UInt8) (len : UInt32) (envelope : E) : Complete max buf len →
      C.decode (payload buf len) = .ok envelope → Accepted C max (buf.drop (lengthPrefixBytes + len.toNat)) →
      Accepted C max buf

theorem drain_accepted {max : UInt32} {buf : List UInt8} (h : Accepted C max buf) :
    ∃ left, ((frames C max).drain buf).2 = .ok left := by
  induction h with
  | waits buf hw => exact ⟨buf, by rw [Incremental.drain_waiting _ (parse_incomplete hw)]⟩
  | frame buf len envelope hc hd _ ih =>
    obtain ⟨left, hl⟩ := ih
    have hp : (frames C max).next buf = .ok (some (envelope, buf.drop (lengthPrefixBytes + len.toNat))) := by
      show parseFrame C max buf = _
      rw [parse_complete hc, hd]
    exact ⟨left, by rw [Incremental.drain_taken _ hp]; exact hl⟩

/-- After an accepted stream the buffer holds its end, cut at a frame's start: an oversized
    header found in the buffer is the one found in the whole stream. -/
theorem drain_left {max : UInt32} {buf left : List UInt8} (h : ((frames C max).drain buf).2 = .ok left) :
    Accepted C max buf ∧ ∃ taken, buf = taken ++ left ∧
      ∀ more o, OversizedAt max (buf ++ more) o ↔ ∃ o', OversizedAt max (left ++ more) o' ∧ o = taken.length + o' := by
  revert h
  refine (frames C max).drain_induction (P := fun buf _ res => res = .ok left → Accepted C max buf ∧
    ∃ taken, buf = taken ++ left ∧ ∀ more o, OversizedAt max (buf ++ more) o ↔
      ∃ o', OversizedAt max (left ++ more) o' ∧ o = taken.length + o') ?_ ?_ ?_ buf
  · intro b e _ h
    cases h
  · intro b hb h
    cases h
    refine ⟨.waits _ ?_, [], rfl, ?_⟩
    · intro len hh
      exact parse_waiting hb hh
    · intro more o
      simp
  · intro b a r hn ih h
    obtain ⟨len, hc, hd, rfl⟩ := parse_taken hn
    obtain ⟨hacc, taken, htaken, ho⟩ := ih h
    have hsplit : b.take (lengthPrefixBytes + len.toNat) ++ b.drop (lengthPrefixBytes + len.toNat) = b :=
      List.take_append_drop _ _
    have hlen : (b.take (lengthPrefixBytes + len.toNat)).length = lengthPrefixBytes + len.toNat :=
      List.length_take_of_le hc.whole
    refine ⟨.frame b len a hc hd hacc, b.take (lengthPrefixBytes + len.toNat) ++ taken, ?_, ?_⟩
    · rw [List.append_assoc, ← htaken, hsplit]
    · intro more o
      rw [oversizedAt_complete (hc.append more), List.drop_append_of_le_length hc.whole]
      constructor
      · intro hx
        obtain ⟨o₁, ho₁, rfl⟩ := hx
        obtain ⟨o₂, ho₂, rfl⟩ := (ho more o₁).mp ho₁
        exact ⟨o₂, ho₂, by rw [List.length_append, hlen]; omega⟩
      · intro hx
        obtain ⟨o₂, ho₂, rfl⟩ := hx
        exact ⟨_, (ho more _).mpr ⟨o₂, ho₂, rfl⟩, by rw [List.length_append, hlen]; omega⟩

variable (C)

/-- What the buffer holds after each `extend` of a run of reads. -/
def FrameDecoder.extended (d : FrameDecoder) : List (List UInt8) → List (List UInt8)
  | [] => []
  | bytes :: reads =>
    (d.extend (D := D) bytes).1.buf ::
      match d.feed C bytes with
      | (_, d', .ok ()) => extended d' reads
      | (_, _, .error _) => []

/-- A read that begins before the first oversized frame goes on past that frame's header. -/
def Spills (max : UInt32) (before read : List UInt8) : Prop :=
  ∃ o, OversizedAt max (before ++ read) o ∧ before.length < o ∧ o + lengthPrefixBytes < before.length + read.length

variable {C}

/-- A buffer holds payload of a frame whose header is above the maximum. -/
def StoresOversized (max : UInt32) (buf : List UInt8) : Prop :=
  ∃ o, OversizedAt max buf o ∧ o + lengthPrefixBytes < buf.length

/-- One `extend` of a drained buffer stores payload behind an oversized header exactly if
    the read spills. -/
theorem extend_stores_iff {max : UInt32} {before left read : List UInt8}
    (h : ((frames C max).drain before).2 = .ok left) :
    StoresOversized max ((⟨max, left⟩ : FrameDecoder).extend (D := D) read).1.buf ↔ Spills max before read := by
  obtain ⟨_, taken, hbefore, ho⟩ := drain_left h
  have hnext : parseFrame C max left = .ok none := (frames C max).next_left h
  have hlen : before.length = taken.length + left.length := by rw [hbefore, List.length_append]
  rcases extend_cases (D := D) ⟨max, left⟩ read with ⟨he, hle⟩ | ⟨len, hh, hlt, _, hbuf⟩
  · -- the whole read is stored: the oversized header stands where the stream has it
    rw [he]
    show StoresOversized max (left ++ read) ↔ _
    constructor
    · intro hs
      obtain ⟨o, hover, hlong⟩ := hs
      rw [List.length_append] at hlong
      refine ⟨_, (ho read _).mpr ⟨o, hover, rfl⟩, ?_, by omega⟩
      cases hover with
      | here _ len hh hlt => exact absurd (hle len hh) (UInt32.not_le.mpr hlt)
      | later _ len o' hc _ =>
        have := waiting_short hnext hc.header
        omega
    · intro hs
      obtain ⟨o, hover, _, hlong⟩ := hs
      obtain ⟨o', hover', rfl⟩ := (ho read o).mp hover
      exact ⟨o', hover', by rw [List.length_append]; omega⟩
  · -- the header at the front is refused, with nothing stored behind it
    have hnone : left.length < lengthPrefixBytes := by
      cases hl : header left with
      | none => exact header_none hl
      | some len' =>
        have hfits := (parse_waiting hnext hl).1
        rw [header_append hl] at hh
        cases hh
        exact absurd hfits (UInt32.not_le.mpr hlt)
    constructor
    · intro hs
      obtain ⟨o, _, hlong⟩ := hs
      rw [hbuf hnone, List.length_take] at hlong
      omega
    · intro hs
      obtain ⟨o, hover, hlong, _⟩ := hs
      obtain ⟨o', hover', rfl⟩ := (ho read o).mp hover
      cases hover' with
      | here _ _ _ _ => omega
      | later _ len' o'' hc _ =>
        cases hc.len_eq hh
        exact absurd hc.fits (UInt32.not_le.mpr hlt)

theorem extended_iff {max : UInt32} {before left : List UInt8} (h : ((frames C max).drain before).2 = .ok left)
    (reads : List (List UInt8)) :
    (∀ buf ∈ (⟨max, left⟩ : FrameDecoder).extended C reads, ¬ StoresOversized max buf) ↔
    ∀ pre read post, reads = pre ++ read :: post → Accepted C max (before ++ pre.flatten) →
      ¬ Spills max (before ++ pre.flatten) read := by
  induction reads generalizing before left with
  | nil =>
    constructor
    · intro _ pre read post hsplit
      cases pre <;> cases hsplit
    · intro _ buf hbuf
      cases hbuf
  | cons bytes reads ih =>
    obtain ⟨ha, hm⟩ := feed_answer (C := C) ⟨max, left⟩ bytes
    have hdrain : ((frames C max).drain (before ++ bytes)).2 = (answer ((⟨max, left⟩ : FrameDecoder).feed C bytes)).2 := by
      rw [ha, Incremental.drain_append, Incremental.feed, h]
    rw [FrameDecoder.extended, List.forall_mem_cons, extend_stores_iff h]
    generalize (⟨max, left⟩ : FrameDecoder).feed C bytes = r at hm hdrain
    obtain ⟨envelopes, d', e | ⟨⟨⟩⟩⟩ := r
    · -- the read ended the stream: no later one is looked at, and none is accepted
      have hend : ∀ more, ¬ Accepted C max (before ++ bytes ++ more) := by
        intro more hacc
        obtain ⟨left', hl⟩ := drain_accepted hacc
        rw [Incremental.drain_append, Incremental.feed, show ((frames C max).drain (before ++ bytes)).2 = _ from hdrain] at hl
        simp only [answer, Except.map] at hl
        rw [show ((frames C max).drain (before ++ bytes)).2 = _ from hdrain] at hl
        cases hl
      constructor
      · intro hs pre read post hsplit hacc
        cases pre with
        | nil =>
          cases hsplit
          simpa using hs.1
        | cons b pre =>
          cases hsplit
          rw [List.flatten_cons, ← List.append_assoc] at hacc
          exact absurd hacc (hend _)
      · intro hs
        refine ⟨?_, List.forall_mem_nil _⟩
        have hacc := (drain_left h).1
        simpa using hs [] bytes reads rfl (by simpa using hacc)
    · have hmax : d'.maxFrameBytes = max := hm rfl
      obtain ⟨max', left'⟩ := d'
      cases hmax
      rw [ih (show ((frames C _).drain (before ++ bytes)).2 = .ok left' from hdrain)]
      constructor
      · intro hs pre read post hsplit hacc
        cases pre with
        | nil =>
          cases hsplit
          simpa using hs.1
        | cons b pre =>
          cases hsplit
          rw [List.flatten_cons, ← List.append_assoc] at hacc ⊢
          exact hs.2 pre read post rfl hacc
      · intro hs
        refine ⟨?_, ?_⟩
        · have hacc := (drain_left h).1
          simpa using hs [] bytes reads rfl (by simpa using hacc)
        · intro pre read post hsplit hacc
          have := hs (bytes :: pre) read post (by rw [hsplit]; rfl)
          rw [List.flatten_cons, ← List.append_assoc] at this
          exact this hacc

/-- Envelopes that fit come back from their frames, whatever the cuts. -/
theorem feedAll_frames {max : UInt32} {envelopes : List E} (hfit : ∀ e ∈ envelopes, (C.encode e).length ≤ max.toNat)
    (hinv : ∀ e ∈ envelopes, C.decode (C.encode e) = .ok e) {reads : List (List UInt8)}
    (hreads : reads.flatten = envelopes.flatMap (frameOf C)) : (new max).feedAll C reads = (envelopes, new max, .ok ()) := by
  have heq := feedAll_eq (C := C) max reads
  rw [hreads, drain_frames hfit hinv] at heq
  obtain ⟨h1, h2, h3⟩ := answer_ok heq
  have h4 := feedAll_max h3
  refine Prod.ext h1 (Prod.ext ?_ h3)
  generalize ((new max).feedAll C reads).2.1 = d at h2 h4
  obtain ⟨max', buf⟩ := d
  cases h2
  cases h4
  rfl

/-- Framing does not depend on the cuts. Envelopes written as frames come back, with
    nothing left; any bytes give the same envelopes and outcome whatever the reads; less
    than a header and the maximum stays behind a drain; and no payload of an oversized
    frame is stored exactly if no read of the accepted stream spills. -/
theorem framing_exact (C : Codec E D) (hinv : ∀ e, C.decode (C.encode e) = .ok e) (max : UInt32) :
    (∀ envelopes : List E, (∀ e ∈ envelopes, (C.encode e).length ≤ max.toNat) →
      ∃ written : List (List UInt8), envelopes.map (fun e => encodeDelimited C e max) = written.map .ok ∧
        ∀ reads, reads.flatten = written.flatten → (new max).feedAll C reads = (envelopes, new max, .ok ())) ∧
    (∀ reads reads' : List (List UInt8), reads.flatten = reads'.flatten →
      ((new max).feedAll C reads).1 = ((new max).feedAll C reads').1 ∧
      ((new max).feedAll C reads).2.2 = ((new max).feedAll C reads').2.2) ∧
    (∀ reads, ((new max).feedAll C reads).2.2 = .ok () →
      ((new max).feedAll C reads).2.1.buffered < lengthPrefixBytes + max.toNat) ∧
    ∀ reads, (∀ buf ∈ (new max).extended C reads, ¬ StoresOversized max buf) ↔
      ∀ pre read post, reads = pre ++ read :: post → Accepted C max pre.flatten → ¬ Spills max pre.flatten read := by
  refine ⟨?_, ?_, ?_, ?_⟩
  · intro envelopes hfit
    refine ⟨envelopes.map (frameOf C), ?_, ?_⟩
    · rw [List.map_map]
      apply List.map_congr_left
      intro e he
      exact encodeDelimited_ok (hfit e he)
    · intro reads hreads
      exact feedAll_frames hfit (fun e _ => hinv e) (hreads.trans (List.flatMap_def ..).symm)
  · intro reads reads' h
    have heq := feedAll_eq (C := C) max reads
    rw [h, ← feedAll_eq] at heq
    exact outcome_eq heq
  · intro reads hok
    have heq := feedAll_eq (C := C) max reads
    have hres : (answer ((new max).feedAll C reads)).2 = .ok ((new max).feedAll C reads).2.1.buf := by
      rw [answer, hok]
      rfl
    rw [heq] at hres
    exact drain_bounded hres
  · intro reads
    exact extended_iff (C := C) (show ((frames C max).drain []).2 = .ok [] by rw [Incremental.drain_nil]) reads

end

/-! ## A read that spills -/

/-- Envelopes with nothing but a request id below 128, as prost writes and reads them. -/
def Codec.requestIds : Codec (Fin 128) Unit where
  encode n := if n = 0 then [] else [8, UInt8.ofNat n.val]
  decode
    | [] => .ok 0
    | [8, n] => if h : n.toNat < 128 then .ok ⟨n.toNat, h⟩ else .error ()
    | _ => .error ()

/-- Two envelopes, cut inside a header and inside a payload. -/
theorem framing_exact_cut : (FrameDecoder.new 2).feedAll Codec.requestIds [[0, 0], [0, 0, 0, 0, 0, 2, 8], [5]] =
    ([0, 5], .new 2, .ok ()) := by
  obtain ⟨written, hw, hall⟩ := (framing_exact Codec.requestIds (by decide) 2).1 [0, 5] (by decide)
  have hwritten : written = [[0, 0, 0, 0], [0, 0, 0, 2, 8, 5]] :=
    List.map_inj_right (fun _ _ h => Except.ok.inj h) |>.mp (hw.symm.trans rfl)
  exact hall _ (by rw [hwritten]; rfl)

/-- A read that holds an empty envelope's frame, then a header of 3 with a maximum of 2,
    then one byte: the byte is stored before the header is looked at. -/
theorem spill_is_stored : ¬ ∀ buf ∈ (FrameDecoder.new 2).extended Codec.requestIds [[0, 0, 0, 0, 0, 0, 0, 3, 7]],
    ¬ StoresOversized 2 buf := by
  intro h
  apply h [0, 0, 0, 0, 0, 0, 0, 3, 7] (by decide)
  refine ⟨4, ?_, by decide⟩
  exact .later _ 0 0 ⟨rfl, by decide, by decide⟩ (.here _ 3 rfl (by decide))

end Holdfast.Protocol

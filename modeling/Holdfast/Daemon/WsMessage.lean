/-
  Holdfast.Daemon.WsMessage — one binary message on a WebSocket (`crates/daemon/src/wire.rs`):
  the channel's number as a base 128 varint, and exactly one frame behind it.

  The reader collects seven bits a byte in a `u64` and gives up when it would have to read an
  eleventh byte. Ten bytes have room for seventy bits, and the six that are too many are
  shifted out without notice.

  Proved:
  - `decodeVarintFrom_encodes` / `decodeVarintFrom_some`: what is read is the number encoded,
    modulo 2^64, and nothing else is read.
  - `decodeMessage_frame`: a message that was encoded is decoded.
  - `decodeVarint_exact_iff`: the number read is the number encoded unless the tenth byte
    is the last and more than one (`Overflows`).
-/

import Holdfast.Base.Protobuf
import Holdfast.Protocol.Framing

namespace Holdfast.Daemon

open Holdfast.Base Holdfast.Protocol

/-! ## The WebSocket mapping -/

inductive WireError (D : Type) where
  | badVarint
  | frame (e : FrameError D)
  | notExactlyOneFrame
  deriving DecidableEq, Repr

/-- `decode_varint`, `i` bytes in: `value` is read, and the next seven bits go to `shift`. -/
def decodeVarintFrom (value shift i : Nat) : List UInt8 → Option (Nat × Nat)
  | [] => none
  | b :: buf =>
    if shift ≥ 64 then none
    else
      let value := value ||| ((b.toNat % 128) <<< shift) % 2 ^ 64
      if b.toNat < 128 then some (value, i + 1) else decodeVarintFrom value (shift + 7) (i + 1) buf

def decodeVarint (buf : List UInt8) : Option (Nat × Nat) := decodeVarintFrom 0 0 0 buf

def encodeVarint (v : UInt64) : List UInt8 :=
  let byte := (v &&& 0x7f).toUInt8
  let v' := v >>> 7
  if v' ≠ 0 then (byte ||| 0x80) :: encodeVarint v' else [byte]
termination_by v.toNat
decreasing_by
  rename_i h
  have hne : (v >>> 7).toNat ≠ 0 := fun h0 => h (UInt64.toNat_inj.mp h0)
  have hrest : (v >>> 7).toNat = v.toNat / 2 ^ 7 := by
    rw [UInt64.toNat_shiftRight, Nat.shiftRight_eq_div_pow]
    rfl
  omega

section

variable {E D : Type} (C : Codec E D)

/-- `encode_varint` writes what `Protobuf.varint` does. -/
def encodeMessage (channel : Nat) (envelope : E) (max : UInt32) : Except (WireError D) (List UInt8) :=
  match encodeDelimited C envelope max with
  | .error e => .error (.frame e)
  | .ok frame => .ok (Protobuf.varint channel ++ frame)

/-- Exactly one frame, of `decode_message`. -/
def decodeOne (bytes : List UInt8) (max : UInt32) : Except (WireError D) E :=
  match (FrameDecoder.new max).extend bytes with
  | (_, .error e) => .error (.frame e)
  | (d, .ok ()) =>
    match d.nextFrame C with
    | (_, .error e) => .error (.frame e)
    | (_, .ok none) => .error .notExactlyOneFrame
    | (d, .ok (some envelope)) => if d.buffered ≠ 0 then .error .notExactlyOneFrame else .ok envelope

def decodeMessage (data : List UInt8) (max : UInt32) : Except (WireError D) (Nat × E) :=
  match decodeVarint data with
  | none => .error .badVarint
  | some (channel, used) => (decodeOne C (data.drop used) max).map fun envelope => (channel, envelope)

/-! ## The channel's number -/

/-- The loop of `encode_varint`, in numbers. -/
theorem encodeVarint_eq (v : UInt64) : encodeVarint v = Protobuf.varint v.toNat := by
  induction hn : v.toNat using Nat.strongRecOn generalizing v with
  | ind n ih =>
    subst hn
    have hbyte : (v &&& 0x7f).toUInt8.toNat = v.toNat % 128 := by
      rw [UInt64.toNat_toUInt8, UInt64.toNat_and, show (0x7f : UInt64).toNat = 2 ^ 7 - 1 from rfl,
        Nat.and_two_pow_sub_one_eq_mod]
      omega
    have hrest : (v >>> 7).toNat = v.toNat / 128 := by
      rw [UInt64.toNat_shiftRight, Nat.shiftRight_eq_div_pow]
      rfl
    rw [encodeVarint, Protobuf.varint]
    by_cases h : v.toNat < 128
    · have hzero : v >>> 7 = 0 := UInt64.toNat_inj.mp (by rw [hrest]; simp; omega)
      rw [if_pos h, if_neg (not_not.mpr hzero)]
      congr 1
      refine UInt8.toNat_inj.mp ?_
      rw [hbyte, UInt8.toNat_ofNat']
      omega
    · have hne : v >>> 7 ≠ 0 := fun h0 => by
        rw [h0] at hrest
        simp at hrest
        omega
      rw [if_neg h, if_pos hne, ih (v >>> 7).toNat (by omega) (v >>> 7) rfl, hrest]
      congr 1
      refine UInt8.toNat_inj.mp ?_
      rw [UInt8.toNat_or, hbyte, Nat.or_comm, show (0x80 : UInt8).toNat = 2 ^ 7 * 1 from rfl,
        ← Nat.two_pow_add_eq_or_of_lt (by omega), UInt8.toNat_ofNat']
      omega

/-- The bits that are read go above those that were; those beyond the 64th are lost. -/
theorem or_shift {value shift : Nat} (hv : value < 2 ^ shift) (hs : shift ≤ 64) (m : Nat) :
    value ||| (m <<< shift) % 2 ^ 64 = (value + m * 2 ^ shift) % 2 ^ 64 := by
  have hpow : 2 ^ 64 = 2 ^ shift * 2 ^ (64 - shift) := by
    rw [← Nat.pow_add]
    congr 1
    omega
  have hmod : (m * 2 ^ shift) % 2 ^ 64 = 2 ^ shift * (m % 2 ^ (64 - shift)) := by
    rw [hpow, Nat.mul_comm m, Nat.mul_mod_mul_left]
  have hlt : 2 ^ shift * (m % 2 ^ (64 - shift)) + value < 2 ^ 64 := by
    have hm : m % 2 ^ (64 - shift) + 1 ≤ 2 ^ (64 - shift) := Nat.mod_lt _ (Nat.two_pow_pos _)
    have := Nat.mul_le_mul_left (2 ^ shift) hm
    rw [← hpow, Nat.mul_add] at this
    omega
  have hsplit : (value + m * 2 ^ shift) % 2 ^ 64 = (value + (m * 2 ^ shift) % 2 ^ 64) % 2 ^ 64 := by
    rw [Nat.add_mod_mod]
  rw [hsplit, Nat.shiftLeft_eq, hmod, Nat.or_comm, ← Nat.two_pow_add_eq_or_of_lt hv, Nat.add_comm value, Nat.mod_eq_of_lt hlt]

/-- What an encoding is read as, if it has no more bytes than are looked at. -/
theorem decodeVarintFrom_encodes {bs : List UInt8} {n : Nat} (h : Protobuf.Encodes bs n) {value shift : Nat}
    (hs : shift + 7 * bs.length ≤ 70) (hv : value < 2 ^ shift) (i : Nat) (rest : List UInt8) :
    decodeVarintFrom value shift i (bs ++ rest) = some ((value + n * 2 ^ shift) % 2 ^ 64, i + bs.length) := by
  induction h generalizing value shift i with
  | @last b hb =>
    rw [List.length_singleton] at hs ⊢
    rw [List.singleton_append, decodeVarintFrom, if_neg (by omega)]
    simp only [if_pos hb, or_shift hv (by omega), Nat.mod_eq_of_lt hb]
  | @more b bs n hb hrest ih =>
    have hlen : 1 ≤ bs.length := by cases hrest <;> simp
    rw [List.length_cons] at hs ⊢
    rw [List.cons_append, decodeVarintFrom, if_neg (by omega)]
    have hlow : value + b.toNat % 128 * 2 ^ shift < 2 ^ (shift + 7) := by
      have : (b.toNat % 128 + 1) * 2 ^ shift ≤ 128 * 2 ^ shift := Nat.mul_le_mul_right _ (by omega)
      rw [Nat.add_mul] at this
      rw [Nat.pow_add]
      omega
    have hfit : 2 ^ (shift + 7) ≤ 2 ^ 64 := Nat.pow_le_pow_right (by decide) (by omega)
    simp only [if_neg (Nat.not_lt.mpr hb), or_shift hv (by omega)]
    rw [Nat.mod_eq_of_lt (Nat.lt_of_lt_of_le hlow hfit), ih (by omega) hlow, Nat.add_assoc i, Nat.add_comm 1]
    have hsum : value + b.toNat % 128 * 2 ^ shift + n * 2 ^ (shift + 7) = value + (b.toNat % 128 + 128 * n) * 2 ^ shift := by
      rw [Nat.pow_add, Nat.add_mul, Nat.add_assoc]
      congr 2
      ring
    rw [hsum]

/-- Only an encoding is read. -/
theorem decodeVarintFrom_some {buf : List UInt8} {value shift i v n : Nat}
    (h : decodeVarintFrom value shift i buf = some (v, n)) :
    ∃ bs rest m, buf = bs ++ rest ∧ Protobuf.Encodes bs m ∧ shift + 7 * bs.length ≤ 70 := by
  induction buf generalizing value shift i with
  | nil => cases h
  | cons b buf ih =>
    rw [decodeVarintFrom] at h
    split at h
    · cases h
    · dsimp only at h
      split at h
      · rename_i hb
        exact ⟨[b], buf, _, rfl, .last hb, by rw [List.length_singleton]; omega⟩
      · rename_i hb
        obtain ⟨bs, rest, m, rfl, henc, hlen⟩ := ih h
        exact ⟨b :: bs, rest, _, rfl, .more (by omega) henc, by rw [List.length_cons]; omega⟩

theorem decodeVarint_encodes {bs : List UInt8} {n : Nat} (h : Protobuf.Encodes bs n) (hlen : bs.length ≤ 10) (rest : List UInt8) :
    decodeVarint (bs ++ rest) = some (n % 2 ^ 64, bs.length) := by
  rw [decodeVarint, decodeVarintFrom_encodes h (by omega) (by omega)]
  simp

theorem decodeVarint_some {data : List UInt8} {v n : Nat} (h : decodeVarint data = some (v, n)) :
    ∃ bs rest m, data = bs ++ rest ∧ Protobuf.Encodes bs m ∧ bs.length ≤ 10 ∧ v = m % 2 ^ 64 ∧ n = bs.length := by
  obtain ⟨bs, rest, m, rfl, henc, hlen⟩ := decodeVarintFrom_some h
  rw [decodeVarint_encodes henc (by omega)] at h
  obtain ⟨rfl, rfl⟩ := Prod.mk.inj (Option.some.inj h)
  exact ⟨bs, rest, m, rfl, henc, by omega, rfl, rfl⟩

theorem decodeVarint_varint {n : Nat} (hn : n < 2 ^ 64) (rest : List UInt8) :
    decodeVarint (Protobuf.varint n ++ rest) = some (n, (Protobuf.varint n).length) := by
  have hlen : (Protobuf.varint n).length ≤ 9 + 1 := Protobuf.varint_length_le (by omega)
  rw [decodeVarint_encodes (Protobuf.varint_encodes n) hlen, Nat.mod_eq_of_lt hn]

variable {C}

theorem nextFrame_parsed {max : UInt32} {buf rest : List UInt8} {envelope : E}
    (h : parseFrame C max buf = .ok (some (envelope, rest))) :
    ∃ d, (⟨max, buf⟩ : FrameDecoder).nextFrame C = (d, .ok (some envelope)) ∧ d.buf = rest := by
  unfold parseFrame at h
  split at h
  · cases h
  · cases h
  · rename_i d envelope' hnext
    obtain ⟨rfl, hbuf⟩ := Prod.mk.inj (Option.some.inj (Except.ok.inj h))
    exact ⟨d, hnext, hbuf⟩

theorem extend_parsed {max : UInt32} {buf rest : List UInt8} {envelope : E}
    (h : parseFrame C max buf = .ok (some (envelope, rest))) :
    (FrameDecoder.new max).extend (D := D) buf = (⟨max, buf⟩, .ok ()) := by
  rcases FrameDecoder.extend_cases (D := D) (.new max) buf with ⟨hok, -⟩ | ⟨len, hh, hlt, -⟩
  · exact hok
  · -- a header that is refused would be refused by `next_frame`
    have hrefused : parseFrame C max buf = .error (.tooLarge len max) := parse_refused hh hlt
    rw [hrefused] at h
    cases h

theorem decodeOne_parsed {max : UInt32} {buf : List UInt8} {envelope : E} (h : parseFrame C max buf = .ok (some (envelope, []))) :
    decodeOne C buf max = .ok envelope := by
  obtain ⟨d, hnext, hbuf⟩ := nextFrame_parsed h
  have hextend := extend_parsed h
  unfold decodeOne
  split
  · rename_i he
    rw [hextend] at he
    cases he
  · rename_i d' he
    rw [hextend] at he
    cases he
    rw [hnext]
    simp [FrameDecoder.buffered, hbuf]

/-- A frame that fits is read back with its channel. -/
theorem decodeMessage_frame {envelope : E} {max : UInt32} (hfit : (C.encode envelope).length ≤ max.toNat)
    (hinv : C.decode (C.encode envelope) = .ok envelope) {channel : Nat} (hchannel : channel < 2 ^ 64) :
    decodeMessage C (Protobuf.varint channel ++ frameOf C envelope) max = .ok (channel, envelope) := by
  have hparse := parse_frameOf hfit hinv []
  rw [List.append_nil] at hparse
  unfold decodeMessage
  rw [decodeVarint_varint hchannel]
  simp only [List.drop_left, decodeOne_parsed hparse]
  rfl

end

/-! ## What the number read stands for -/

/-- A number that is read is the one that the bytes encode, and takes the bytes it says. -/
def ReadAsEncoded (data : List UInt8) : Prop :=
  ∀ v n, decodeVarint data = some (v, n) → n ≤ data.length ∧ Protobuf.Encodes (data.take n) v ∧ v < 2 ^ 64

/-- Nine bytes with the high bit, and a last one that is more than the one bit left for it. -/
def Overflows (data : List UInt8) : Prop :=
  ∃ high last rest, data = high ++ last :: rest ∧ high.length = 9 ∧ (∀ b ∈ high, 128 ≤ b.toNat) ∧
    1 < last.toNat ∧ last.toNat < 128

theorem encodes_of_high {high : List UInt8} {last : UInt8} (hhigh : ∀ b ∈ high, 128 ≤ b.toNat) (hlast : last.toNat < 128) :
    ∃ n, Protobuf.Encodes (high ++ [last]) n := by
  induction high with
  | nil => exact ⟨_, .last hlast⟩
  | cons b high ih =>
    obtain ⟨hb, hhigh⟩ := List.forall_mem_cons.mp hhigh
    obtain ⟨n, hn⟩ := ih hhigh
    exact ⟨_, .more hb hn⟩

theorem decodeVarint_exact_iff (data : List UInt8) : ReadAsEncoded data ↔ ¬Overflows data := by
  constructor
  · rintro hread_as ⟨high, last, rest, rfl, hlen, hhigh, hone, hlast⟩
    obtain ⟨m, henc⟩ := encodes_of_high hhigh hlast
    have hten : (high ++ [last]).length = 10 := by rw [List.length_append, hlen]; rfl
    have hdata : high ++ last :: rest = (high ++ [last]) ++ rest := by simp
    obtain ⟨-, hread, hlt⟩ := hread_as _ _ (by rw [hdata, decodeVarint_encodes henc (by omega)])
    rw [hdata, List.take_left' rfl] at hread
    -- the number encoded has more than 64 bits
    have hm := henc.bounds.1
    rw [henc.unique hread, hlen] at hm
    omega
  · intro hover v n hread
    obtain ⟨bs, rest, m, rfl, henc, hten, rfl, rfl⟩ := decodeVarint_some hread
    obtain ⟨high, last, rfl, hhigh, hlast⟩ := henc.split
    have hm : m < 2 ^ 64 := by
      have hbound := henc.bounds.2
      rw [List.length_append, List.length_singleton] at hten
      by_cases hnine : high.length = 9
      · have hsmall : ¬1 < last.toNat := fun hone => hover ⟨high, last, rest, by simp, hnine, hhigh, hone, hlast⟩
        rw [hnine] at hbound
        omega
      · have hpow : 128 ^ high.length ≤ 128 ^ 8 := Nat.pow_le_pow_right (by decide) (by omega)
        have : (last.toNat + 1) * 128 ^ high.length ≤ 128 * 128 ^ 8 := Nat.mul_le_mul (by omega) hpow
        omega
    rw [Nat.mod_eq_of_lt hm, List.take_left' rfl]
    exact ⟨by simp, henc, hm⟩

/-- A message that was encoded is decoded; and a channel's number is read for what it is,
    unless it overflows. -/
theorem wire_codec {E D : Type} (C : Codec E D) (max : UInt32) :
    (∀ (channel : UInt64) (envelope : E), (C.encode envelope).length ≤ max.toNat → C.decode (C.encode envelope) = .ok envelope →
      encodeMessage C channel.toNat envelope max = .ok (encodeVarint channel ++ frameOf C envelope) ∧
        decodeMessage C (encodeVarint channel ++ frameOf C envelope) max = .ok (channel.toNat, envelope)) ∧
      ∀ data, ReadAsEncoded data ↔ ¬Overflows data := by
  refine ⟨fun channel envelope hfit hinv => ?_, decodeVarint_exact_iff⟩
  rw [encodeVarint_eq]
  exact ⟨by rw [encodeMessage, encodeDelimited_ok hfit], decodeMessage_frame hfit hinv channel.toNat_lt⟩

theorem wire_codec_large : decodeMessage Codec.requestIds (encodeVarint 18446744073709551615 ++ frameOf Codec.requestIds 5) 2 =
    .ok (18446744073709551615, 5) :=
  ((wire_codec Codec.requestIds 2).1 18446744073709551615 5 (by decide) (by decide)).2

/-- Ten bytes that encode 2^64 are read as channel 0. -/
theorem overflow_aliased :
    decodeVarint [128, 128, 128, 128, 128, 128, 128, 128, 128, 2] = some (0, 10) ∧ ¬∀ data, ReadAsEncoded data := by
  have hread : decodeVarint [128, 128, 128, 128, 128, 128, 128, 128, 128, 2] = some (0, 10) := by decide +kernel
  refine ⟨hread, fun h => ?_⟩
  obtain ⟨-, henc, -⟩ := h _ _ _ hread
  have henc : Protobuf.Encodes ([128, 128, 128, 128, 128, 128, 128, 128, 128] ++ [2]) 0 := henc
  have hm := henc.bounds
  exact absurd hm.1 (by decide)

end Holdfast.Daemon

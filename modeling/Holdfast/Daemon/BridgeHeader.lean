/-
  Holdfast.Daemon.BridgeHeader — the header a bridge connection begins with, byte for byte
  (`BridgeHeader::read` and its test encoder, `crates/daemon/src/frontdoor_bridge.rs`).

  `FrontDoor` reads a header from the bytes at hand; here the connection is a stream, and what
  is allocated and read is written down (`Stream.steps`). Fields have their widths, and the
  peer's address is the whole `SocketAddr`, with what the wire leaves out.

  Proved (`header_codec`), for headers whose address says nothing beyond address and port:
  - the encoding of a valid header, with anything after it, is read as that header, and
    what comes after is left unread;
  - whatever is read as a header began with that header's encoding;
  - the hostname is allocated and read only once its length is found to be from 1 to 253.
  A scope identifier does not survive (`header_codec_scope`). `read_bridge`: it is the header
  that `FrontDoor` reads.
-/

import Holdfast.Base.BigEndian
import Holdfast.Daemon.FrontDoor

namespace Holdfast.Daemon.HeaderCodec

open Holdfast.Base

abbrev Octets (n : Nat) := { bytes : List UInt8 // bytes.length = n }

def zeros (n : Nat) : Octets n := ⟨List.replicate n 0, List.length_replicate⟩

inductive Ip where
  | v4 (octets : Octets 4)
  | v6 (octets : Octets 16)
  deriving DecidableEq

/-- `SocketAddr`; only the port of an IPv4 address, and more of an IPv6 one. -/
inductive SocketAddr where
  | v4 (octets : Octets 4) (port : UInt16)
  | v6 (octets : Octets 16) (port : UInt16) (flowinfo scopeId : UInt32)
  deriving DecidableEq

def SocketAddr.new : Ip → UInt16 → SocketAddr
  | .v4 octets, port => .v4 octets port
  | .v6 octets, port => .v6 octets port 0 0

def SocketAddr.ip : SocketAddr → Ip
  | .v4 octets _ => .v4 octets
  | .v6 octets _ _ _ => .v6 octets

def SocketAddr.port : SocketAddr → UInt16
  | .v4 _ port => port
  | .v6 _ port _ _ => port

/-- No flow information and no scope. -/
def SocketAddr.Plain : SocketAddr → Prop
  | .v4 _ _ => True
  | .v6 _ _ flowinfo scopeId => flowinfo = 0 ∧ scopeId = 0

structure Header where
  kind : UInt8
  sessionId : Octets 32
  streamId : UInt64
  remoteAddress : SocketAddr
  hostname : String
  channelBinding : Octets 32
  deriving DecidableEq

def Header.validate (isIp : String → Bool) (h : Header) : Except String Unit :=
  if validateHostname isIp h.hostname = false then .error "shared H3 front-door hostname must be canonical lowercase DNS"
  else if h.sessionId = zeros 32 ∨ h.channelBinding = zeros 32 ∨ (h.kind = kindSession ∧ h.streamId ≠ 0) ∨
      (h.kind = kindStream ∧ h.streamId = 0) ∨ ¬(h.kind = kindSession ∨ h.kind = kindStream) ∨ h.remoteAddress.port = 0 then
    .error "shared H3 bridge header is invalid"
  else .ok ()

/-! ## The encoding -/

def u16Bytes (n : UInt16) : Octets 2 := ⟨BigEndian.digits 2 n.toNat, BigEndian.digits_length _ _⟩
def u64Bytes (n : UInt64) : Octets 8 := ⟨BigEndian.digits 8 n.toNat, BigEndian.digits_length _ _⟩

def u16OfBytes (bytes : Octets 2) : UInt16 := UInt16.ofNat (BigEndian.value bytes.val)
def u64OfBytes (bytes : Octets 8) : UInt64 := UInt64.ofNat (BigEndian.value bytes.val)

def encodedIp : Ip → List UInt8
  | .v4 octets => 4 :: (octets.val ++ List.replicate 12 0)
  | .v6 octets => 6 :: octets.val

/-- `as_bytes`. -/
def asBytes (text : String) : List UInt8 := text.toByteArray.data.toList

/-- `encoded_header`; a length is cut to the 16 bits it is written in. -/
def encodedHeader (header : Header) : List UInt8 :=
  headerMagic ++ ([header.kind] ++ (List.replicate 3 0 ++ (header.sessionId.val ++ ((u64Bytes header.streamId).val ++
    (encodedIp header.remoteAddress.ip ++ ((u16Bytes header.remoteAddress.port).val ++
      ((u16Bytes (UInt16.ofNat (asBytes header.hostname).length)).val ++
        (header.channelBinding.val ++ asBytes header.hostname))))))))

/-! ## Reading -/

inductive Step where
  | alloc (bytes : Nat)
  | readExact (bytes : Nat)
  deriving DecidableEq, Repr

structure Stream where
  unread : List UInt8
  steps : List Step
  deriving DecidableEq, Repr

def Stream.open (bytes : List UInt8) : Stream := ⟨bytes, []⟩

def Stream.alloc (stream : Stream) (n : Nat) : Stream := { stream with steps := stream.steps ++ [.alloc n] }

/-- `read_exact`: a stream that ends before is used up. -/
def Stream.readExact (stream : Stream) (n : Nat) : Option (Octets n) × Stream :=
  let after : Stream := ⟨stream.unread.drop n, stream.steps ++ [.readExact n]⟩
  if h : n ≤ stream.unread.length then (some ⟨stream.unread.take n, List.length_take_of_le h⟩, after) else (none, after)

def slice (fixed : Octets headerFixedBytes) (a b : Nat) (h : b ≤ headerFixedBytes) : Octets (b - a) :=
  ⟨(fixed.val.drop a).take (b - a), by
    rw [List.length_take, List.length_drop, fixed.property]
    exact Nat.min_eq_left (Nat.sub_le_sub_right h a)⟩

def onlyByte (bytes : Octets 1) : UInt8 := bytes.val.head (List.ne_nil_of_length_eq_add_one bytes.property)

def addressOf (family : UInt8) (bytes : Octets 16) : Option Ip :=
  if family = 4 ∧ bytes.val.drop 4 = List.replicate 12 0 then
    some (.v4 ⟨bytes.val.take 4, by rw [List.length_take, bytes.property]; rfl⟩)
  else if family = 6 then some (.v6 bytes)
  else none

/-- What the fixed part says. -/
structure Fixed where
  kind : UInt8
  sessionId : Octets 32
  streamId : UInt64
  address : Ip
  port : UInt16
  hostnameLength : UInt16
  channelBinding : Octets 32

def Fixed.parse (fixed : Octets headerFixedBytes) : Except String Fixed :=
  if (slice fixed 0 8 (by decide)).val ≠ headerMagic ∨ slice fixed 9 12 (by decide) ≠ zeros 3 then
    .error "shared H3 bridge magic or reserved bytes are invalid"
  else
    match addressOf (onlyByte (slice fixed 52 53 (by decide))) (slice fixed 53 69 (by decide)) with
    | none => .error "shared H3 bridge address family is invalid"
    | some address =>
      .ok ⟨onlyByte (slice fixed 8 9 (by decide)), slice fixed 12 44 (by decide),
        u64OfBytes (slice fixed 44 52 (by decide)), address, u16OfBytes (slice fixed 69 71 (by decide)),
        u16OfBytes (slice fixed 71 73 (by decide)), slice fixed 73 105 (by decide)⟩

/-- `BridgeHeader::read`. -/
def Header.read (isIp : String → Bool) (stream : Stream) : Except String Header × Stream :=
  match stream.readExact headerFixedBytes with
  | (none, stream) => (.error "read shared H3 bridge header", stream)
  | (some bytes, stream) =>
    match Fixed.parse bytes with
    | .error e => (.error e, stream)
    | .ok fixed =>
      let hostnameLength := fixed.hostnameLength.toNat
      if hostnameLength = 0 ∨ hostnameLength > hostnameBytesMax
        then (.error "shared H3 bridge hostname length is invalid", stream)
      else
        match (stream.alloc hostnameLength).readExact hostnameLength with
        | (none, stream) => (.error "read shared H3 bridge hostname", stream)
        | (some hostname, stream) =>
          match String.fromUTF8? ⟨hostname.val.toArray⟩ with
          | none => (.error "bridge hostname is not UTF-8", stream)
          | some text =>
            let header : Header :=
              ⟨fixed.kind, fixed.sessionId, fixed.streamId, SocketAddr.new fixed.address fixed.port, text, fixed.channelBinding⟩
            match header.validate isIp with
            | .error e => (.error e, stream)
            | .ok () => (.ok header, stream)

/-! ## Fields -/

theorem u16OfBytes_eq_iff {bytes : Octets 2} {n : UInt16} : u16OfBytes bytes = n ↔ bytes = u16Bytes n := by
  constructor
  · rintro rfl
    have hlt := BigEndian.value_lt bytes.val
    rw [bytes.property] at hlt
    apply Subtype.ext
    show bytes.val = BigEndian.digits 2 (UInt16.ofNat (BigEndian.value bytes.val)).toNat
    rw [UInt16.toNat_ofNat_of_lt' hlt]
    have hdigits := BigEndian.digits_value bytes.val
    rw [bytes.property] at hdigits
    exact hdigits.symm
  · rintro rfl
    show UInt16.ofNat (BigEndian.value (BigEndian.digits 2 n.toNat)) = n
    rw [BigEndian.value_digits n.toNat_lt, UInt16.ofNat_toNat]

theorem u64OfBytes_eq_iff {bytes : Octets 8} {n : UInt64} : u64OfBytes bytes = n ↔ bytes = u64Bytes n := by
  constructor
  · rintro rfl
    have hlt := BigEndian.value_lt bytes.val
    rw [bytes.property] at hlt
    apply Subtype.ext
    show bytes.val = BigEndian.digits 8 (UInt64.ofNat (BigEndian.value bytes.val)).toNat
    rw [UInt64.toNat_ofNat_of_lt' hlt]
    have hdigits := BigEndian.digits_value bytes.val
    rw [bytes.property] at hdigits
    exact hdigits.symm
  · rintro rfl
    show UInt64.ofNat (BigEndian.value (BigEndian.digits 8 n.toNat)) = n
    rw [BigEndian.value_digits n.toNat_lt, UInt64.ofNat_toNat]

theorem onlyByte_eq_iff {bytes : Octets 1} {b : UInt8} : onlyByte bytes = b ↔ bytes.val = [b] := by
  rcases bytes with ⟨_ | ⟨first, _ | ⟨_, _⟩⟩, hlength⟩
  · cases hlength
  · exact ⟨fun h => congrArg (fun x => [x]) h, fun h => (List.cons.inj h).1⟩
  · cases hlength

def Ip.family : Ip → UInt8
  | .v4 _ => 4
  | .v6 _ => 6

def Ip.bytes : Ip → Octets 16
  | .v4 octets => ⟨octets.val ++ List.replicate 12 0, by rw [List.length_append, octets.property]; rfl⟩
  | .v6 octets => octets

theorem encodedIp_eq (ip : Ip) : encodedIp ip = [ip.family] ++ ip.bytes.val := by
  cases ip <;> rfl

theorem addressOf_eq_iff {family : UInt8} {bytes : Octets 16} {ip : Ip} :
    addressOf family bytes = some ip ↔ family = ip.family ∧ bytes = ip.bytes := by
  unfold addressOf
  constructor
  · intro h
    split at h
    · rename_i h4
      obtain ⟨rfl, hzeros⟩ := h4
      obtain rfl := Option.some.inj h
      refine ⟨rfl, Subtype.ext ?_⟩
      show bytes.val = bytes.val.take 4 ++ List.replicate 12 0
      rw [← hzeros, List.take_append_drop]
    · split at h
      · rename_i h6
        obtain rfl := Option.some.inj h
        exact ⟨h6, rfl⟩
      · cases h
  · rintro ⟨rfl, rfl⟩
    cases ip with
    | v4 octets =>
      have hdrop : (octets.val ++ List.replicate 12 (0 : UInt8)).drop 4 = List.replicate 12 0 := List.drop_left' octets.property
      have htake : (octets.val ++ List.replicate 12 (0 : UInt8)).take 4 = octets.val := List.take_left' octets.property
      rw [if_pos ⟨rfl, hdrop⟩]
      exact congrArg (fun x => some (Ip.v4 x)) (Subtype.ext htake)
    | v6 octets =>
      rw [if_neg fun h => absurd h.1 (by decide : (6 : UInt8) ≠ 4)]
      exact if_pos rfl

/-! ## The fixed part -/

/-- Bytes from `a` on are a field up to `b` and what follows. -/
theorem drop_eq_iff (fixed : Octets headerFixedBytes) (a b : Nat) (hab : a ≤ b) (hb : b ≤ headerFixedBytes)
    (field : Octets (b - a)) (after : List UInt8) :
    fixed.val.drop a = field.val ++ after ↔ slice fixed a b hb = field ∧ fixed.val.drop b = after := by
  have hsplit : fixed.val.drop a = (slice fixed a b hb).val ++ fixed.val.drop b := by
    have hdrop : fixed.val.drop b = (fixed.val.drop a).drop (b - a) := by
      rw [List.drop_drop, Nat.add_sub_cancel' hab]
    rw [hdrop]
    exact (List.take_append_drop (b - a) (fixed.val.drop a)).symm
  rw [hsplit]
  constructor
  · intro h
    obtain ⟨hfield, hafter⟩ := List.append_inj h ((slice fixed a b hb).property.trans field.property.symm)
    exact ⟨Subtype.ext hfield, hafter⟩
  · rintro ⟨rfl, rfl⟩
    rfl

theorem octets_length {n : Nat} (bytes : Octets n) : bytes.val.length = n := bytes.property

def Fixed.encode (f : Fixed) : List UInt8 :=
  headerMagic ++ ([f.kind] ++ ((zeros 3).val ++ (f.sessionId.val ++ ((u64Bytes f.streamId).val ++ ([f.address.family] ++
    (f.address.bytes.val ++ ((u16Bytes f.port).val ++ ((u16Bytes f.hostnameLength).val ++ (f.channelBinding.val ++ [])))))))))

theorem Fixed.encode_length (f : Fixed) : f.encode.length = headerFixedBytes := by
  simp only [encode, List.length_append, octets_length]
  rfl

/-- The bytes are an encoding when every slice is its field. -/
theorem val_eq_encode_iff (bytes : Octets headerFixedBytes) (f : Fixed) :
    bytes.val = f.encode ↔
      slice bytes 0 8 (by decide) = ⟨headerMagic, rfl⟩ ∧ slice bytes 8 9 (by decide) = ⟨[f.kind], rfl⟩ ∧
        slice bytes 9 12 (by decide) = zeros 3 ∧ slice bytes 12 44 (by decide) = f.sessionId ∧
        slice bytes 44 52 (by decide) = u64Bytes f.streamId ∧ slice bytes 52 53 (by decide) = ⟨[f.address.family], rfl⟩ ∧
        slice bytes 53 69 (by decide) = f.address.bytes ∧ slice bytes 69 71 (by decide) = u16Bytes f.port ∧
        slice bytes 71 73 (by decide) = u16Bytes f.hostnameLength ∧ slice bytes 73 105 (by decide) = f.channelBinding := by
  have hend : bytes.val.drop 105 = [] := List.drop_of_length_le (Nat.le_of_eq bytes.property)
  have hlast : bytes.val.drop 73 = f.channelBinding.val ++ [] ↔ slice bytes 73 105 (by decide) = f.channelBinding :=
    (drop_eq_iff bytes 73 105 (by decide) (by decide) f.channelBinding []).trans (and_iff_left hend)
  calc
    bytes.val = f.encode ↔ bytes.val.drop 0 = f.encode := by rw [List.drop_zero]
    _ ↔ _ :=
      (drop_eq_iff bytes 0 8 (by decide) (by decide) ⟨headerMagic, rfl⟩ _).trans <| and_congr_right fun _ =>
      (drop_eq_iff bytes 8 9 (by decide) (by decide) ⟨[f.kind], rfl⟩ _).trans <| and_congr_right fun _ =>
      (drop_eq_iff bytes 9 12 (by decide) (by decide) (zeros 3) _).trans <| and_congr_right fun _ =>
      (drop_eq_iff bytes 12 44 (by decide) (by decide) f.sessionId _).trans <| and_congr_right fun _ =>
      (drop_eq_iff bytes 44 52 (by decide) (by decide) (u64Bytes f.streamId) _).trans <| and_congr_right fun _ =>
      (drop_eq_iff bytes 52 53 (by decide) (by decide) ⟨[f.address.family], rfl⟩ _).trans <| and_congr_right fun _ =>
      (drop_eq_iff bytes 53 69 (by decide) (by decide) f.address.bytes _).trans <| and_congr_right fun _ =>
      (drop_eq_iff bytes 69 71 (by decide) (by decide) (u16Bytes f.port) _).trans <| and_congr_right fun _ =>
      (drop_eq_iff bytes 71 73 (by decide) (by decide) (u16Bytes f.hostnameLength) _).trans <| and_congr_right fun _ => hlast

theorem Fixed.parse_eq_iff {bytes : Octets headerFixedBytes} {f : Fixed} : Fixed.parse bytes = .ok f ↔ bytes.val = f.encode := by
  rw [val_eq_encode_iff]
  constructor
  · intro h
    unfold parse at h
    split at h
    · cases h
    · rename_i hmagic
      obtain ⟨hmagic, hreserved⟩ := not_or.mp hmagic
      split at h
      · cases h
      · rename_i address haddress
        obtain ⟨hfamily, hbytes⟩ := addressOf_eq_iff.mp haddress
        obtain rfl := Except.ok.inj h
        exact ⟨Subtype.ext (not_not.mp hmagic), Subtype.ext (onlyByte_eq_iff.mp rfl), not_not.mp hreserved, rfl,
          u64OfBytes_eq_iff.mp rfl, Subtype.ext (onlyByte_eq_iff.mp hfamily), hbytes, u16OfBytes_eq_iff.mp rfl,
          u16OfBytes_eq_iff.mp rfl, rfl⟩
  · rintro ⟨hmagic, hkind, hreserved, hsession, hstream, hfamily, hbytes, hport, hlength, hbinding⟩
    have haddress : addressOf (onlyByte (slice bytes 52 53 (by decide))) (slice bytes 53 69 (by decide)) = some f.address :=
      addressOf_eq_iff.mpr ⟨onlyByte_eq_iff.mpr (congrArg Subtype.val hfamily), hbytes⟩
    unfold parse
    rw [if_neg (not_or.mpr ⟨not_not.mpr (congrArg Subtype.val hmagic), not_not.mpr hreserved⟩), haddress]
    dsimp only
    rw [onlyByte_eq_iff.mpr (congrArg Subtype.val hkind), hsession, u64OfBytes_eq_iff.mpr hstream, u16OfBytes_eq_iff.mpr hport,
      u16OfBytes_eq_iff.mpr hlength, hbinding]

/-! ## The whole header -/

theorem asBytes_length (text : String) : (asBytes text).length = text.utf8ByteSize := Array.length_toList

theorem fromUTF8?_eq_some_iff {bytes : List UInt8} {text : String} :
    String.fromUTF8? ⟨bytes.toArray⟩ = some text ↔ bytes = asBytes text := by
  unfold String.fromUTF8?
  constructor
  · intro h
    split at h
    · obtain rfl := Option.some.inj h
      rfl
    · cases h
  · rintro rfl
    show (if h : text.toByteArray.IsValidUTF8 then some (String.fromUTF8 text.toByteArray h) else none) = some text
    rw [dif_pos text.isValidUTF8]
    rfl

theorem validateHostname_length {isIp : String → Bool} {hostname : String} (h : validateHostname isIp hostname = true) :
    hostname.utf8ByteSize ≠ 0 ∧ hostname.utf8ByteSize ≤ hostnameBytesMax := by
  simp only [validateHostname, Bool.and_eq_true, Bool.not_eq_true', decide_eq_true_eq] at h
  obtain ⟨⟨⟨⟨hne, hle⟩, _⟩, _⟩, _⟩ := h
  refine ⟨fun hzero => ?_, hle⟩
  rw [String.isEmpty, hzero] at hne
  cases hne

theorem validate_hostname {isIp : String → Bool} {header : Header} (h : header.validate isIp = .ok ()) :
    validateHostname isIp header.hostname = true := by
  unfold Header.validate at h
  split at h
  · cases h
  · rename_i hname
    exact Bool.not_eq_false _ ▸ hname

theorem readExact_eq_some_iff {stream after : Stream} {n : Nat} {field : Octets n} :
    stream.readExact n = (some field, after) ↔
      stream.unread = field.val ++ after.unread ∧ after.steps = stream.steps ++ [.readExact n] := by
  unfold Stream.readExact
  dsimp only
  constructor
  · intro h
    split at h
    · obtain ⟨hfield, rfl⟩ := Prod.mk.inj h
      obtain rfl := Option.some.inj hfield
      exact ⟨(List.take_append_drop n stream.unread).symm, rfl⟩
    · cases h
  · rintro ⟨hunread, hsteps⟩
    have htake : stream.unread.take n = field.val := by rw [hunread, List.take_left' field.property]
    have hdrop : stream.unread.drop n = after.unread := by rw [hunread, List.drop_left' field.property]
    have hle : n ≤ stream.unread.length := by
      rw [hunread, List.length_append, field.property]
      exact Nat.le_add_right n _
    rw [dif_pos hle, hdrop, ← hsteps]
    exact congrArg (fun f => (some f, after)) (Subtype.ext htake)

def Header.fixed (h : Header) : Fixed :=
  ⟨h.kind, h.sessionId, h.streamId, h.remoteAddress.ip, h.remoteAddress.port,
    UInt16.ofNat (asBytes h.hostname).length, h.channelBinding⟩

theorem encodedHeader_eq (header : Header) : encodedHeader header = header.fixed.encode ++ asBytes header.hostname := by
  simp only [encodedHeader, Fixed.encode, Header.fixed, encodedIp_eq, zeros, List.append_assoc, List.nil_append]

theorem new_plain (ip : Ip) (port : UInt16) : (SocketAddr.new ip port).Plain := by
  cases ip
  · trivial
  · exact ⟨rfl, rfl⟩

theorem new_eq_iff {ip : Ip} {port : UInt16} {address : SocketAddr} :
    SocketAddr.new ip port = address ↔ address.Plain ∧ address.ip = ip ∧ address.port = port := by
  constructor
  · rintro rfl
    refine ⟨new_plain ip port, ?_, ?_⟩ <;> cases ip <;> rfl
  · rintro ⟨hplain, rfl, rfl⟩
    cases address with
    | v4 octets port => rfl
    | v6 octets port flowinfo scopeId =>
      obtain ⟨rfl, rfl⟩ := hplain
      rfl

theorem read_ok {isIp : String → Bool} {stream after : Stream} {header : Header}
    (h : Header.read isIp stream = (.ok header, after)) :
    header.validate isIp = .ok () ∧ header.remoteAddress.Plain ∧ stream.unread = encodedHeader header ++ after.unread := by
  unfold Header.read at h
  split at h
  · cases h
  · rename_i bytes opened hread
    split at h
    · cases h
    · rename_i fixed hparse
      dsimp only at h
      split at h
      · cases h
      · split at h
        · cases h
        · rename_i hostname named hname
          split at h
          · cases h
          · rename_i text htext
            split at h
            · cases h
            · rename_i hvalid
              obtain ⟨hheader, rfl⟩ := Prod.mk.inj h
              obtain rfl := Except.ok.inj hheader
              obtain ⟨hunread, _⟩ := readExact_eq_some_iff.mp hread
              obtain ⟨hrest, _⟩ := readExact_eq_some_iff.mp hname
              have hbytes : hostname.val = asBytes text := fromUTF8?_eq_some_iff.mp htext
              have hlength : UInt16.ofNat (asBytes text).length = fixed.hostnameLength := by
                rw [← hbytes, hostname.property, UInt16.ofNat_toNat]
              obtain ⟨hplain, hip, hport⟩ := new_eq_iff.mp (Eq.refl (SocketAddr.new fixed.address fixed.port))
              refine ⟨hvalid, hplain, ?_⟩
              rw [encodedHeader_eq, Header.fixed]
              dsimp only
              rw [hip, hport, hlength, ← Fixed.parse_eq_iff.mp hparse, hunread, List.append_assoc, ← hbytes]
              exact congrArg (bytes.val ++ ·) hrest

theorem read_encoded {isIp : String → Bool} {header : Header} (hvalid : header.validate isIp = .ok ())
    (hplain : header.remoteAddress.Plain) (rest : List UInt8) (steps : List Step) :
    Header.read isIp ⟨encodedHeader header ++ rest, steps⟩ =
      (.ok header, ⟨rest, steps ++ [.readExact headerFixedBytes, .alloc (asBytes header.hostname).length,
        .readExact (asBytes header.hostname).length]⟩) := by
  obtain ⟨hne, hle⟩ := validateHostname_length (validate_hostname hvalid)
  rw [← asBytes_length] at hne hle
  have hlength : (UInt16.ofNat (asBytes header.hostname).length).toNat = (asBytes header.hostname).length :=
    UInt16.toNat_ofNat_of_lt' (Nat.lt_of_le_of_lt hle (by decide))
  have hread : Stream.readExact ⟨encodedHeader header ++ rest, steps⟩ headerFixedBytes =
      (some ⟨header.fixed.encode, header.fixed.encode_length⟩,
        ⟨asBytes header.hostname ++ rest, steps ++ [.readExact headerFixedBytes]⟩) := by
    refine readExact_eq_some_iff.mpr ⟨?_, rfl⟩
    rw [encodedHeader_eq, List.append_assoc]
  have hparse : Fixed.parse ⟨header.fixed.encode, header.fixed.encode_length⟩ = .ok header.fixed := Fixed.parse_eq_iff.mpr rfl
  have hbounds : ¬((UInt16.ofNat (asBytes header.hostname).length).toNat = 0 ∨
      (UInt16.ofNat (asBytes header.hostname).length).toNat > hostnameBytesMax) := by omega
  have hname : (Stream.alloc ⟨asBytes header.hostname ++ rest, steps ++ [.readExact headerFixedBytes]⟩
      (UInt16.ofNat (asBytes header.hostname).length).toNat).readExact (UInt16.ofNat (asBytes header.hostname).length).toNat =
      (some ⟨asBytes header.hostname, hlength.symm⟩,
        ⟨rest, steps ++ [.readExact headerFixedBytes, .alloc (asBytes header.hostname).length,
          .readExact (asBytes header.hostname).length]⟩) := by
    refine readExact_eq_some_iff.mpr ⟨rfl, ?_⟩
    simp only [Stream.alloc, hlength, List.append_assoc, List.cons_append, List.nil_append]
  have hnew : SocketAddr.new header.remoteAddress.ip header.remoteAddress.port = header.remoteAddress :=
    new_eq_iff.mpr ⟨hplain, rfl, rfl⟩
  unfold Header.read
  rw [hread]
  dsimp only
  rw [hparse]
  dsimp only [Header.fixed]
  rw [if_neg hbounds, hname]
  dsimp only
  rw [fromUTF8?_eq_some_iff.mpr rfl]
  dsimp only
  rw [hnew, hvalid]

/-- The length the fixed part gives the hostname. -/
def lengthField (bytes : List UInt8) : Nat := BigEndian.value ((bytes.drop 71).take 2)

theorem parse_lengthField {unread : List UInt8} {bytes : Octets headerFixedBytes} {fixed : Fixed}
    (hunread : bytes.val = unread.take headerFixedBytes) (h : Fixed.parse bytes = .ok fixed) :
    lengthField unread = fixed.hostnameLength.toNat := by
  obtain ⟨_, _, _, _, _, _, _, _, hlength, _⟩ := (val_eq_encode_iff bytes fixed).mp (Fixed.parse_eq_iff.mp h)
  have hslice : (unread.drop 71).take 2 = (u16Bytes fixed.hostnameLength).val := by
    rw [← hlength]
    show _ = (bytes.val.drop 71).take 2
    rw [hunread, List.drop_take, List.take_take]
    rfl
  rw [lengthField, hslice]
  exact BigEndian.value_digits fixed.hostnameLength.toNat_lt

theorem readExact_after (stream : Stream) (n : Nat) :
    (stream.readExact n).2 = ⟨stream.unread.drop n, stream.steps ++ [.readExact n]⟩ := by
  unfold Stream.readExact
  dsimp only
  split <;> rfl

/-- Whatever comes of it, the hostname is allocated and read only at a length within its bounds. -/
theorem read_steps (isIp : String → Bool) (stream : Stream) :
    (Header.read isIp stream).2 = ⟨stream.unread.drop headerFixedBytes, stream.steps ++ [.readExact headerFixedBytes]⟩ ∨
      ∃ n, 0 < n ∧ n ≤ hostnameBytesMax ∧ lengthField stream.unread = n ∧
        (Header.read isIp stream).2 = ⟨stream.unread.drop (headerFixedBytes + n),
          stream.steps ++ [.readExact headerFixedBytes, .alloc n, .readExact n]⟩ := by
  have hfirst := readExact_after stream headerFixedBytes
  unfold Header.read
  split
  · rename_i opened hread
    rw [hread] at hfirst
    exact .inl hfirst
  · rename_i bytes opened hread
    rw [hread] at hfirst
    dsimp only at hfirst
    subst hfirst
    split
    · exact .inl rfl
    · rename_i fixed hparse
      dsimp only
      split
      · exact .inl rfl
      · rename_i hlen
        refine .inr ⟨fixed.hostnameLength.toNat, by omega, by omega, ?_, ?_⟩
        · refine parse_lengthField ?_ hparse
          rw [(readExact_eq_some_iff.mp hread).1, List.take_left' bytes.property]
        · have hend : ∀ result, (Stream.alloc ⟨stream.unread.drop headerFixedBytes, stream.steps ++ [.readExact headerFixedBytes]⟩
              fixed.hostnameLength.toNat).readExact fixed.hostnameLength.toNat = result →
              result.2 = ⟨stream.unread.drop (headerFixedBytes + fixed.hostnameLength.toNat), stream.steps ++
                [.readExact headerFixedBytes, .alloc fixed.hostnameLength.toNat, .readExact fixed.hostnameLength.toNat]⟩ := by
            rintro _ rfl
            rw [readExact_after]
            simp only [Stream.alloc, List.drop_drop, List.append_assoc, List.cons_append, List.nil_append]
          split
          · rename_i named hname
            exact hend _ hname
          · rename_i hostname named hname
            split
            · exact hend _ hname
            · split <;> exact hend _ hname

/-- For headers whose address says nothing beyond address and port: the encoding of a valid one,
    whatever follows it, is read as it and nothing of what follows is; what is read as a header is a
    valid one and began with its encoding; and of any stream only the fixed part is read before the
    hostname's length is found to be within its bounds, then that many bytes. -/
theorem header_codec (isIp : String → Bool) :
    (∀ header rest, header.validate isIp = .ok () → header.remoteAddress.Plain →
      ∃ steps, Header.read isIp (.open (encodedHeader header ++ rest)) = (.ok header, ⟨rest, steps⟩)) ∧
    (∀ bytes header after, Header.read isIp (.open bytes) = (.ok header, after) →
      header.validate isIp = .ok () ∧ header.remoteAddress.Plain ∧ bytes = encodedHeader header ++ after.unread) ∧
    ∀ bytes, (Header.read isIp (.open bytes)).2 = ⟨bytes.drop headerFixedBytes, [.readExact headerFixedBytes]⟩ ∨
      ∃ n, 0 < n ∧ n ≤ hostnameBytesMax ∧ lengthField bytes = n ∧
        (Header.read isIp (.open bytes)).2 =
          ⟨bytes.drop (headerFixedBytes + n), [.readExact headerFixedBytes, .alloc n, .readExact n]⟩ := by
  refine ⟨?_, fun bytes header after h => read_ok h, fun bytes => read_steps isIp (.open bytes)⟩
  intro header rest hvalid hplain
  exact ⟨_, read_encoded hvalid hplain rest []⟩

def sampleAddress (scopeId : UInt32) : SocketAddr :=
  .v6 ⟨[0xFE, 0x80, 0, 0, 0, 0, 0, 0, 0, 0, 0, 0, 0, 0, 0, 1], rfl⟩ 4242 0 scopeId

/-- A session of `fe80::1` at a scope. -/
def scopedHeader (scopeId : UInt32) : Header :=
  ⟨kindSession, ⟨List.replicate 32 49, rfl⟩, 0, sampleAddress scopeId, "holdfast.example", ⟨List.replicate 32 66, rfl⟩⟩

theorem header_codec_plain :
    ∃ steps, Header.read (fun _ => false) (.open (encodedHeader (scopedHeader 0) ++ [7])) =
    (.ok (scopedHeader 0), ⟨[7], steps⟩) :=
  (header_codec fun _ => false).1 (scopedHeader 0) [7] (by rfl) ⟨rfl, rfl⟩

/-- The scope is not on the wire. -/
theorem header_codec_scope :
    ¬ ∀ (isIp : String → Bool) (header : Header) (rest : List UInt8), header.validate isIp = .ok () →
      ∃ steps, Header.read isIp (.open (encodedHeader header ++ rest)) = (.ok header, ⟨rest, steps⟩) := by
  intro h
  obtain ⟨steps, hread⟩ := h (fun _ => false) (scopedHeader 1) [] (by rfl)
  exact absurd (read_ok hread).2.1.2 (by decide)

/-! ## The header of the front door -/

def Ip.plain : Ip → IpAddr
  | .v4 octets => .v4 octets.val
  | .v6 octets => .v6 octets.val

def Header.plain (h : Header) : BridgeHeader :=
  ⟨h.kind, h.sessionId.val, h.streamId.toNat, h.remoteAddress.ip.plain, h.remoteAddress.port.toNat,
    h.hostname, h.channelBinding.val⟩

theorem slice_val (fixed : Octets headerFixedBytes) (a b : Nat) (h : b ≤ headerFixedBytes) :
    (fixed.val.take b).drop a = (slice fixed a b h).val := List.drop_take

theorem validate_plain (isIp : String → Bool) (header : Header) : header.plain.validate isIp = header.validate isIp := by
  have hzeros : ∀ bytes : Octets 32, bytes.val = List.replicate 32 0 ↔ bytes = zeros 32 := fun bytes =>
    ⟨fun h => Subtype.ext h, fun h => congrArg Subtype.val h⟩
  have hstream : header.streamId.toNat = 0 ↔ header.streamId = 0 := @UInt64.toNat_inj header.streamId 0
  have hport : header.remoteAddress.port.toNat = 0 ↔ header.remoteAddress.port = 0 :=
    @UInt16.toNat_inj header.remoteAddress.port 0
  simp only [BridgeHeader.validate, Header.validate, Header.plain, hzeros, hstream, hport, ne_eq]

/-- Both readings of the address, whatever is done with it. -/
theorem match_address {α : Type} (family : UInt8) (bytes : Octets 16) (refused : α) (go : IpAddr → α) :
    (match (match [family] with
        | [4] => if bytes.val.drop 4 = List.replicate 12 0 then some (IpAddr.v4 (bytes.val.take 4)) else none
        | [6] => some (.v6 bytes.val)
        | _ => none) with
      | none => refused
      | some ip => go ip) =
      match addressOf family bytes with
      | none => refused
      | some ip => go ip.plain := by
  unfold addressOf
  split
  · rename_i h
    split at h
    · rename_i hfamily
      obtain rfl := (List.cons.inj hfamily).1
      split at h
      · cases h
      · rename_i hzeros
        rw [if_neg fun h => hzeros h.2, if_neg (by decide)]
    · cases h
    · rename_i h4 h6
      rw [if_neg fun h => h4 (congrArg (fun x => [x]) h.1), if_neg fun h => h6 (congrArg (fun x => [x]) h)]
  · rename_i ip h
    split at h
    · rename_i hfamily
      obtain rfl := (List.cons.inj hfamily).1
      split at h
      · rename_i hzeros
        obtain rfl := Option.some.inj h
        rw [if_pos ⟨rfl, hzeros⟩]
        rfl
      · cases h
    · rename_i hfamily
      obtain rfl := (List.cons.inj hfamily).1
      obtain rfl := Option.some.inj h
      rw [if_neg fun h => absurd h.1 (by decide), if_pos rfl]
      rfl
    · cases h

theorem fromBe_u16 (bytes : Octets 2) : fromBe bytes.val = (u16OfBytes bytes).toNat := by
  have hbytes : bytes = u16Bytes (u16OfBytes bytes) := u16OfBytes_eq_iff.mp rfl
  calc
    fromBe bytes.val = BigEndian.value (u16Bytes (u16OfBytes bytes)).val :=
      congrArg (fun b : Octets 2 => BigEndian.value b.val) hbytes
    _ = (u16OfBytes bytes).toNat := BigEndian.value_digits (UInt16.toNat_lt _)

theorem fromBe_u64 (bytes : Octets 8) : fromBe bytes.val = (u64OfBytes bytes).toNat := by
  have hbytes : bytes = u64Bytes (u64OfBytes bytes) := u64OfBytes_eq_iff.mp rfl
  calc
    fromBe bytes.val = BigEndian.value (u64Bytes (u64OfBytes bytes)).val :=
      congrArg (fun b : Octets 8 => BigEndian.value b.val) hbytes
    _ = (u64OfBytes bytes).toNat := BigEndian.value_digits (UInt64.toNat_lt _)

/-- The front door reads the same header. -/
theorem read_bridge (isIp : String → Bool) (bytes : List UInt8) :
    (Header.read isIp (.open bytes)).1.map Header.plain = BridgeHeader.read isIp bytes := by
  unfold Header.read BridgeHeader.read
  by_cases hlength : bytes.length < headerFixedBytes
  · have hread : Stream.readExact (.open bytes) headerFixedBytes =
        (none, ⟨bytes.drop headerFixedBytes, [.readExact headerFixedBytes]⟩) :=
      dif_neg (Nat.not_le.mpr hlength)
    have htake : (bytes.take headerFixedBytes).length < headerFixedBytes := by
      rw [List.length_take]
      exact Nat.lt_of_le_of_lt (Nat.min_le_right _ _) hlength
    rw [hread]
    dsimp only
    rw [if_pos htake]
    rfl
  · have hle := Nat.not_lt.mp hlength
    obtain ⟨fixed, hfixed⟩ : ∃ fixed : Octets headerFixedBytes, fixed.val = bytes.take headerFixedBytes :=
      ⟨⟨bytes.take headerFixedBytes, List.length_take_of_le hle⟩, rfl⟩
    have hread : Stream.readExact (.open bytes) headerFixedBytes =
        (some fixed, ⟨bytes.drop headerFixedBytes, [.readExact headerFixedBytes]⟩) := by
      refine readExact_eq_some_iff.mpr ⟨?_, rfl⟩
      rw [hfixed]
      exact (List.take_append_drop _ _).symm
    have hfamily : (slice fixed 52 53 (by decide)).val = [onlyByte (slice fixed 52 53 (by decide))] := onlyByte_eq_iff.mp rfl
    have hkind : (slice fixed 8 9 (by decide)).val = [onlyByte (slice fixed 8 9 (by decide))] := onlyByte_eq_iff.mp rfl
    rw [hread]
    dsimp only
    rw [← hfixed, if_neg (Nat.not_lt.mpr (Nat.le_of_eq fixed.property.symm))]
    simp only [slice_val fixed 0 8 (by decide), slice_val fixed 9 12 (by decide), slice_val fixed 52 53 (by decide),
      slice_val fixed 53 69 (by decide), slice_val fixed 8 9 (by decide), slice_val fixed 12 44 (by decide),
      slice_val fixed 44 52 (by decide), slice_val fixed 69 71 (by decide), slice_val fixed 71 73 (by decide),
      slice_val fixed 73 105 (by decide)]
    rw [hfamily, fromBe_u16, fromBe_u16, fromBe_u64, Fixed.parse]
    by_cases hmagic : (slice fixed 0 8 (by decide)).val ≠ headerMagic ∨ slice fixed 9 12 (by decide) ≠ zeros 3
    · have hmagic' : (slice fixed 0 8 (by decide)).val ≠ headerMagic ∨ (slice fixed 9 12 (by decide)).val ≠ [0, 0, 0] :=
        hmagic.imp_right fun h h' => h (Subtype.ext h')
      rw [if_pos hmagic, if_pos hmagic']
      rfl
    · have hmagic' : ¬((slice fixed 0 8 (by decide)).val ≠ headerMagic ∨ (slice fixed 9 12 (by decide)).val ≠ [0, 0, 0]) :=
        fun h => hmagic (h.imp_right fun h h' => h (congrArg Subtype.val h'))
      rw [if_neg hmagic, if_neg hmagic']
      refine Eq.trans ?_ (match_address _ _ _ _).symm
      cases addressOf (onlyByte (slice fixed 52 53 (by decide))) (slice fixed 53 69 (by decide)) with
      | none => rfl
      | some address =>
        dsimp only
        generalize hn : (u16OfBytes (slice fixed 71 73 (by decide))).toNat = n
        by_cases hbounds : n = 0 ∨ n > hostnameBytesMax
        · rw [if_pos hbounds, if_pos hbounds]
          rfl
        · rw [if_neg hbounds, if_neg hbounds]
          by_cases hshort : (bytes.drop headerFixedBytes).length < n
          · have hname : (Stream.alloc ⟨bytes.drop headerFixedBytes, [.readExact headerFixedBytes]⟩ n).readExact n = (none, _) :=
              dif_neg (Nat.not_le.mpr hshort)
            rw [hname, if_pos (Nat.lt_of_le_of_lt (List.length_take_le' _ _) hshort)]
            rfl
          · have hname : (Stream.alloc ⟨bytes.drop headerFixedBytes, [.readExact headerFixedBytes]⟩ n).readExact n =
                (some _, _) :=
              dif_pos (Nat.not_lt.mp hshort)
            have htake : ((bytes.drop headerFixedBytes).take n).length = n := List.length_take_of_le (Nat.not_lt.mp hshort)
            rw [hname, if_neg (Nat.not_lt.mpr (Nat.le_of_eq htake.symm))]
            dsimp only [Stream.alloc]
            cases String.fromUTF8? ⟨((bytes.drop headerFixedBytes).take n).toArray⟩ with
            | none => rfl
            | some text =>
              dsimp only
              obtain ⟨header, hheader⟩ :
                ∃ header : Header, header = ⟨onlyByte (slice fixed 8 9 (by decide)), slice fixed 12 44 (by decide),
                  u64OfBytes (slice fixed 44 52 (by decide)),
                    SocketAddr.new address (u16OfBytes (slice fixed 69 71 (by decide))), text,
                  slice fixed 73 105 (by decide)⟩ := ⟨_, rfl⟩
              have hplain : header.plain = ⟨onlyByte (slice fixed 8 9 (by decide)), (slice fixed 12 44 (by decide)).val,
                  (u64OfBytes (slice fixed 44 52 (by decide))).toNat, address.plain,
                  (u16OfBytes (slice fixed 69 71 (by decide))).toNat, text, (slice fixed 73 105 (by decide)).val⟩ := by
                rw [hheader]
                cases address <;> rfl
              rw [hkind, List.headD_cons, ← hheader, ← hplain, validate_plain]
              cases header.validate isIp <;> rfl

end Holdfast.Daemon.HeaderCodec

/-
  Holdfast.Protocol.Negotiate — version and capability negotiation
  (`crates/protocol/src/negotiate.rs`).
-/

import Mathlib.Data.List.Basic

namespace Holdfast.Protocol

def protocolMajor : UInt32 := 0
def protocolMinor : UInt32 := 3
def tcpForwardProtocolMinor : UInt32 := 3
def fileTransferProtocolMinor : UInt32 := 2

def frameBytesCeiling : UInt32 := 1024 * 1024
def frameBytesDefault : UInt32 := 256 * 1024
def frameBytesFloor : UInt32 := 16 * 1024

inductive Capability where
  | unspecified
  | datagrams
  | clipboard
  | fileTransfer
  | tcpForward
  deriving DecidableEq, Repr

/-- `as i32`. -/
def Capability.toI32 : Capability → Int32
  | .unspecified => 0
  | .datagrams => 1
  | .clipboard => 2
  | .fileTransfer => 3
  | .tcpForward => 4

/-- `Encoding::Utf8 as i32`. -/
def encodingUtf8 : Int32 := 1

/-- What the server reads of a `ClientHello`; enumerations are open on the wire. -/
structure ClientHello where
  protocolMajor : UInt32
  protocolMinor : UInt32
  capabilities : List Int32
  maxFrameBytes : UInt32
  maxDatagramBytes : UInt32
  encodings : List Int32
  deriving DecidableEq, Repr

structure Negotiated where
  protocolMajor : UInt32
  protocolMinor : UInt32
  capabilities : List Capability
  maxFrameBytes : UInt32
  maxDatagramBytes : UInt32
  deriving DecidableEq, Repr

inductive NegotiationError where
  | majorVersion (client server : UInt32)
  | noUtf8
  | frameLimitTooSmall (proposed : UInt32)
  deriving DecidableEq, Repr

def NegotiationError.toText : NegotiationError → String
  | .majorVersion client server =>
    "incompatible protocol major version " ++ toString client ++ " (server implements " ++ toString server ++ ")"
  | .noUtf8 => "client does not support UTF-8 encoding"
  | .frameLimitTooSmall proposed =>
    "proposed max_frame_bytes " ++ toString proposed ++ " is below the protocol floor " ++ toString frameBytesFloor

def negotiateServer (hello : ClientHello) (serverCapabilities : List Capability)
    (serverMaxFrameBytes serverMaxDatagramBytes : UInt32) (transportSupportsDatagrams : Bool) :
    Except NegotiationError Negotiated :=
  if hello.protocolMajor ≠ protocolMajor then .error (.majorVersion hello.protocolMajor protocolMajor)
  else if encodingUtf8 ∉ hello.encodings then .error .noUtf8
  else if hello.maxFrameBytes < frameBytesFloor then .error (.frameLimitTooSmall hello.maxFrameBytes)
  else
    let minor := min hello.protocolMinor protocolMinor
    -- enabled only if both sides listed it and the selected minor defines it
    let capabilities := serverCapabilities.filter fun c =>
      decide (c.toI32 ∈ hello.capabilities) &&
        (c != .fileTransfer || decide (minor ≥ fileTransferProtocolMinor)) &&
        (c != .tcpForward || decide (minor ≥ tcpForwardProtocolMinor))
    .ok
      { protocolMajor := protocolMajor
        protocolMinor := minor
        capabilities := if transportSupportsDatagrams then capabilities else capabilities.filter (· != .datagrams)
        maxFrameBytes := min (min hello.maxFrameBytes serverMaxFrameBytes) frameBytesCeiling
        maxDatagramBytes := min hello.maxDatagramBytes serverMaxDatagramBytes }

theorem uint32_toNat_min (a b : UInt32) : (min a b).toNat = min a.toNat b.toNat := by
  show (if a ≤ b then a else b).toNat = _
  split
  · rename_i hle
    rw [UInt32.le_iff_toNat_le] at hle
    omega
  · rename_i hlt
    rw [UInt32.le_iff_toNat_le] at hlt
    omega

structure ServerHello where
  protocolMajor : UInt32
  protocolMinor : UInt32
  capabilities : List Int32
  maxFrameBytes : UInt32
  maxDatagramBytes : UInt32
  keepaliveIntervalMs : UInt32
  deriving DecidableEq, Repr

def serverHello (n : Negotiated) (keepaliveIntervalMs : UInt32) : ServerHello :=
  ⟨n.protocolMajor, n.protocolMinor, n.capabilities.map Capability.toI32, n.maxFrameBytes, n.maxDatagramBytes,
    keepaliveIntervalMs⟩

end Holdfast.Protocol

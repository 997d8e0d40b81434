/-
  Holdfast.Protocol.Ids — identifiers on the wire (`crates/protocol/src/ids.rs`): 16 raw
  bytes, any other length is refused.
-/

import Holdfast.Session.Runtime

namespace Holdfast.Protocol

open Holdfast.Session

/-- `from_wire` of every identifier type. -/
def fromWire (bytes : List UInt8) : Option (Vector UInt8 16) :=
  if h : bytes.length = 16 then some ⟨bytes.toArray, by simpa using h⟩ else none

def toWire (id : Vector UInt8 16) : List UInt8 := id.toList

structure ServerId where
  bytes : Vector UInt8 16
  deriving DecidableEq, Repr

structure UploadId where
  bytes : Vector UInt8 16
  deriving DecidableEq, Repr

def ServerId.fromWire (bytes : List UInt8) : Option ServerId := (Protocol.fromWire bytes).map ServerId.mk

def ServerId.toWire (id : ServerId) : List UInt8 := Protocol.toWire id.bytes

def UploadId.fromWire (bytes : List UInt8) : Option UploadId := (Protocol.fromWire bytes).map UploadId.mk

def UploadId.toWire (id : UploadId) : List UInt8 := Protocol.toWire id.bytes

end Holdfast.Protocol

namespace Holdfast.Session

def ShellId.fromWire (bytes : List UInt8) : Option ShellId := (Protocol.fromWire bytes).map ShellId.mk

def ShellId.toWire (id : ShellId) : List UInt8 := Protocol.toWire id.bytes

end Holdfast.Session

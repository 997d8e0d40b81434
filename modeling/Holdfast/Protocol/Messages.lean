/-
  Holdfast.Protocol.Messages — the two replies that can get large, on the wire
  (`protocol/messages.proto`): a page of history and the snapshot of an attach, in the
  envelope of a client or of an agent.

  The code that writes them is generated (prost). It is a parameter where it is used; that
  it writes these bytes is a hypothesis there.
-/

import Holdfast.Base.Protobuf
import Holdfast.Session.Runtime
import Holdfast.Terminal.Pages

namespace Holdfast.Protocol

open Holdfast.Base Holdfast.Session Holdfast.Terminal

def historyChunkBytes (range : HistoryRange) : List UInt8 :=
  Protobuf.uint64 1 range.firstLineId ++ Protobuf.repeated 2 (range.lines.map Text.bytes) ++
    Protobuf.bool 3 range.truncatedByEviction

def shellAttachedBytes (a : Attachment) : List UInt8 :=
  Protobuf.bytes 1 a.snapshot ++ Protobuf.uint64 2 a.screenRevision ++
    Protobuf.bytes 3 a.rotatedResumeToken.bytes.toList ++ Protobuf.uint64 4 a.oldestHistoryLineId ++
    Protobuf.uint64 5 a.newestHistoryLineId

/-- `Envelope` and `AgentEnvelope` begin with the same fields; `field` is the message's own. -/
def envelopeBytes (requestId : UInt64) (serverId shellId : List UInt8) (field : Nat) (message : List UInt8) :
    List UInt8 :=
  Protobuf.uint64 1 requestId.toNat ++ Protobuf.bytes 2 serverId ++ Protobuf.bytes 3 shellId ++
    Protobuf.delimited field message

def shellAttachedField : Nat := 25

/-- `history_chunk` in an `Envelope`, and in an `AgentEnvelope`. -/
def historyChunkField : Nat := 30
def agentHistoryChunkField : Nat := 24

theorem envelopeBytes_mono (requestId : UInt64) (serverId shellId : List UInt8) (field : Nat) {a b : List UInt8}
    (h : a.length ≤ b.length) :
    (envelopeBytes requestId serverId shellId field a).length ≤
      (envelopeBytes requestId serverId shellId field b).length := by
  have := Protobuf.delimited_length_mono field h
  simp only [envelopeBytes, List.length_append]
  omega

/-! ## Longer pages -/

section

variable {h : HistoryRing} {beforeLineId : Nat} {p q : List Text}

/-- The longer of two pages of one request is the larger one: a line more costs two bytes
    at least, and the id of the first line gets one byte shorter at most. -/
theorem historyChunk_mono (hw : h.Wf) (hp : p <:+ h.below beforeLineId) (hq : q <:+ h.below beforeLineId)
    (hlen : p.length ≤ q.length) :
    (historyChunkBytes (h.pageOf beforeLineId p)).length ≤ (historyChunkBytes (h.pageOf beforeLineId q)).length := by
  obtain ⟨more, rfl⟩ : p <:+ q := List.suffix_of_suffix_length_le hp hq hlen
  rcases List.eq_nil_or_concat more with rfl | ⟨_, _, hmore⟩
  · simp
  · have hone : 1 ≤ more.length := by simp [hmore]
    clear hmore
    have hbelow := hq.length_le
    rw [HistoryRing.below_length hw, List.length_append] at hbelow
    have hfirst := hw.first
    -- only the page that reaches the oldest line may be marked
    have hunmarked : (h.pageOf beforeLineId p).truncatedByEviction = false := by
      simp only [HistoryRing.pageOf, decide_eq_false_iff_not, not_and]
      omega
    have hid : h.upper beforeLineId + 1 - p.length =
        (h.upper beforeLineId + 1 - (more ++ p).length) + more.length := by
      rw [List.length_append]
      omega
    have hshort := Protobuf.varint_length_add (h.upper beforeLineId + 1 - (more ++ p).length) more.length
    rw [← hid] at hshort
    have hcost := Protobuf.repeated_length_ge 2 (more.map Text.bytes)
    rw [List.length_map] at hcost
    simp only [historyChunkBytes, List.length_append, hunmarked]
    simp only [HistoryRing.pageOf, List.map_append, Protobuf.repeated_append, List.length_append]
    rw [Protobuf.uint64_length _ (by omega), Protobuf.uint64_length _ (by omega), Protobuf.bool,
      if_neg (by decide), List.length_nil]
    rw [List.length_append] at hshort
    omega

end

end Holdfast.Protocol

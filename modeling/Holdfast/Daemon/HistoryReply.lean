/-
  Holdfast.Daemon.HistoryReply — the page of history the daemon and the agent answer with
  (`dispatch` of `crates/daemon/src/conn.rs`, `serve_attachment` of
  `crates/agent/src/lib.rs`), against the frame it has to fit in.

  Both cap the text of a page at half a frame. What is not text is not counted: a key and
  a length for each line, and the envelope. A first line over the cap is sent as it is.

  Proved:
  - `range_fits_iff`: a reply fits exactly when every page within the limits would.
  - `pageBack_reaches`: while the replies fit, paging back arrives at the oldest line.
  - `history_replies_fit`: both, for the daemon and for the agent.
-/

import Holdfast.Agent.Streams
import Holdfast.Daemon.Conn
import Holdfast.Protocol.Messages

namespace Holdfast.Terminal.HistoryRing

/-- Every page of a request that its limits allow is within `max`, by `size`. -/
def PagesFit (h : HistoryRing) (beforeLineId maximumLines maximumBytes : Nat) (size : HistoryRange → Nat)
    (max : Nat) : Prop :=
  ∀ page, page ≠ [] → page <:+ h.below beforeLineId → Within maximumLines maximumBytes page →
    size (h.pageOf beforeLineId page) ≤ max

/-- Each request asks below the first line of the page before it; `none` once a reply does
    not arrive. -/
def pageBack (h : HistoryRing) (maximumLines maximumBytes : Nat) (arrives : Nat → HistoryRange → Bool) :
    Nat → Option Nat
  | 0 => some 0
  | n + 1 => do
    let beforeLineId ← pageBack h maximumLines maximumBytes arrives n
    let range := h.range beforeLineId maximumLines maximumBytes
    if arrives n range then some range.firstLineId else none

section

variable {h : HistoryRing} {beforeLineId maximumLines maximumBytes : Nat}

/-- Of the pages a request may get, the one it does get is the largest. -/
theorem pagesFit_iff {size : HistoryRange → Nat} {max : Nat} (hw : h.Wf)
    (hsize : ∀ p q, p <:+ h.below beforeLineId → q <:+ h.below beforeLineId → p.length ≤ q.length →
      size (h.pageOf beforeLineId p) ≤ size (h.pageOf beforeLineId q))
    (hnothing : ∀ evicted, size ⟨0, [], evicted⟩ ≤ max) :
    size (h.range beforeLineId maximumLines maximumBytes) ≤ max ↔
      h.PagesFit beforeLineId maximumLines maximumBytes size max := by
  rcases range_eq hw beforeLineId maximumLines maximumBytes with ⟨hbelow, evicted, hrange⟩ | ⟨_, page, hpage, hrange⟩
  · rw [hrange]
    refine iff_of_true (hnothing evicted) fun page hne hsuffix _ => ?_
    rw [hbelow, List.suffix_nil] at hsuffix
    exact absurd hsuffix hne
  · rw [hrange]
    constructor
    · intro hfits other hne hsuffix hwithin
      exact (hsize other page hsuffix hpage.suffix (hpage.longest other hne hsuffix hwithin)).trans hfits
    · intro hfits
      exact hfits page hpage.nonempty hpage.suffix hpage.within

/-- A request with lines below it gets one at least. -/
theorem range_firstLineId (hw : h.Wf) (hbelow : h.below beforeLineId ≠ []) :
    h.firstId ≤ (h.range beforeLineId maximumLines maximumBytes).firstLineId ∧
      (h.range beforeLineId maximumLines maximumBytes).firstLineId ≤ h.upper beforeLineId := by
  rcases range_eq hw beforeLineId maximumLines maximumBytes with ⟨hnil, _⟩ | ⟨_, page, hpage, hrange⟩
  · exact absurd hnil hbelow
  · have hlen := hpage.suffix.length_le
    have hpos := List.length_pos_of_ne_nil hpage.nonempty
    rw [below_length hw] at hlen
    rw [hrange]
    simp only [pageOf]
    omega

variable {arrives : Nat → HistoryRange → Bool}

theorem pageBack_succ (harrives : ∀ n beforeLineId, arrives n (h.range beforeLineId maximumLines maximumBytes) = true)
    {n : Nat} (hn : h.pageBack maximumLines maximumBytes arrives n = some beforeLineId) :
    h.pageBack maximumLines maximumBytes arrives (n + 1) =
      some (h.range beforeLineId maximumLines maximumBytes).firstLineId := by
  simp only [pageBack, hn, Option.bind_eq_bind, Option.bind_some, harrives, if_true]

/-- From a page that begins at `beforeLineId`; the distance to the oldest line shrinks. -/
theorem pageBack_reaches_from (hw : h.Wf)
    (harrives : ∀ n beforeLineId, arrives n (h.range beforeLineId maximumLines maximumBytes) = true) (k : Nat) :
    ∀ n beforeLineId, h.pageBack maximumLines maximumBytes arrives n = some beforeLineId →
      h.firstId ≤ beforeLineId → beforeLineId ≤ h.newestId → beforeLineId - h.firstId = k →
      ∃ m, h.pageBack maximumLines maximumBytes arrives m = some h.firstId := by
  induction k using Nat.strongRecOn with
  | ind k ih =>
    intro n beforeLineId hn hlow hhigh hk
    by_cases hdone : beforeLineId = h.firstId
    · exact ⟨n, hdone ▸ hn⟩
    · have hfirst := hw.first
      have hupper : h.upper beforeLineId = beforeLineId - 1 := by
        rw [upper, if_neg (by omega)]
        omega
      have hbelow : h.below beforeLineId ≠ [] := by
        intro hnil
        have := @below_length _ beforeLineId hw
        rw [hnil, List.length_nil] at this
        omega
      have hpage := @range_firstLineId _ _ maximumLines maximumBytes hw hbelow
      refine ih _ ?_ (n + 1) _ (pageBack_succ harrives hn) hpage.1 ?_ rfl
      · omega
      · omega

theorem pageBack_reaches (hw : h.Wf)
    (harrives : ∀ n beforeLineId, arrives n (h.range beforeLineId maximumLines maximumBytes) = true) :
    ∃ n, h.pageBack maximumLines maximumBytes arrives n = some h.oldestId := by
  by_cases hempty : h.lines.isEmpty = true
  · exact ⟨0, by rw [oldestId, if_pos hempty]; rfl⟩
  · rw [oldestId, if_neg hempty]
    have hids := hw.ids
    have hfirst := hw.first
    have hpos : 1 ≤ h.lines.length := List.length_pos_iff.mpr (by simpa using hempty)
    have hupper : h.upper 0 = h.newestId := by rw [upper, if_pos rfl]
    have hnewest : h.newestId = h.nextId - 1 := rfl
    have hbelow : h.below 0 ≠ [] := by
      intro hnil
      have := @below_length _ 0 hw
      rw [hnil, List.length_nil] at this
      omega
    have hpage := @range_firstLineId _ _ maximumLines maximumBytes hw hbelow
    rw [hupper] at hpage
    exact pageBack_reaches_from hw harrives _ 1 _ (pageBack_succ harrives rfl) hpage.1 hpage.2 rfl

end

end Holdfast.Terminal.HistoryRing

namespace Holdfast.Daemon

open Holdfast.Base Holdfast.Terminal Holdfast.Session Holdfast.Protocol Holdfast.Agent

/-! ## The replies -/

def historyReply (ring : HistoryRing) (maxFrameBytes : UInt32) (requestId : UInt64) (beforeLineId : Nat)
    (maximumLines maximumBytes : UInt32) : Reply :=
  respond requestId (.historyChunk (ring.range beforeLineId (min maximumLines 10000).toNat
    (min maximumBytes (maxFrameBytes / 2)).toNat))

theorem requestHistory_sends {V : Type} {w : World V} {env : DispatchEnv} {channel : Nat} {b : Binding}
    {e : ShellEntry V} (hb : w.conn.attachments.lookup channel = some b)
    (he : w.manager.shells.lookup b.shellId = some e) (requestId beforeLineId : UInt64)
    (maximumLines maximumBytes : UInt32) :
    (w.requestHistory env channel requestId beforeLineId maximumLines maximumBytes).2.replies =
      [(channel, historyReply e.runtime.model.history w.conn.maxFrameBytes requestId beforeLineId.toNat
        maximumLines maximumBytes), (channel, respond requestId (.historyEnd e.runtime.model.oldestLineId))] := by
  simp only [World.requestHistory, hb, Manager.history, he, World.answer, historyReply, TerminalModel.historyRange,
    Option.map_some, Option.getD_some]

def agentHistoryLinesMax : Nat := 10000

/-- What `serve_attachment` asks the manager for. -/
def agentHistoryRange (ring : HistoryRing) (beforeLineId maximumLines maximumBytes : Nat) : HistoryRange :=
  ring.range beforeLineId (min maximumLines agentHistoryLinesMax)
    (min maximumBytes (agentAttachmentFrameBytesMax.toNat / 2))

def agentHistoryReply (server : ServerId) (shell : ShellId) (requestId : UInt64) (range : HistoryRange) :
    AgentEnvelope :=
  attachmentReply server shell requestId (.historyChunk range.firstLineId range.lines range.truncatedByEviction)

theorem attachmentArm_sends {server : ServerId} {shell : ShellId} {envelope : AgentEnvelope} {o : Outside}
    {beforeLineId maximumLines maximumBytes : Nat} {range : HistoryRange}
    (hscope : attachmentScope server envelope = some shell)
    (hmessage : envelope.message = some (.requestHistory beforeLineId maximumLines maximumBytes))
    (hrange : o.history = .ok range) :
    (attachmentArm server shell envelope o).1.head? = some (agentHistoryReply server shell envelope.requestId range) := by
  simp only [attachmentArm, hscope, ne_eq, not_true_eq_false, if_false, hmessage, hrange]
  rfl

/-! ## What fits -/

/-- The generated code writes a history chunk as `messages.proto` has it. -/
def WritesHistory {D : Type} (C : Codec Reply D) : Prop :=
  ∀ requestId serverId shellId range,
    C.encode ⟨requestId, serverId, shellId, .historyChunk range⟩ =
      envelopeBytes requestId serverId shellId historyChunkField (historyChunkBytes range)

def WritesAgentHistory {D : Type} (C : Codec AgentEnvelope D) : Prop :=
  ∀ requestId serverId shellId (range : HistoryRange),
    C.encode ⟨requestId, serverId, shellId,
      some (.historyChunk range.firstLineId range.lines range.truncatedByEviction)⟩ =
      envelopeBytes requestId serverId shellId agentHistoryChunkField (historyChunkBytes range)

/-- The payload of a reply with this page. -/
def historySize (requestId : UInt64) (serverId shellId : List UInt8) (field : Nat) (range : HistoryRange) : Nat :=
  (envelopeBytes requestId serverId shellId field (historyChunkBytes range)).length

theorem bytes_length_le (field : Nat) (hfield : field < 16) {payload : List UInt8} (h : payload.length ≤ 16) :
    (Protobuf.bytes field payload).length ≤ 18 := by
  rw [Protobuf.bytes]
  split
  · simp
  · rw [Protobuf.delimited_length, Protobuf.key, Protobuf.varint_small (by omega), Protobuf.varint_small (by omega)]
    simp only [List.length_singleton]
    omega

theorem requestId_length_le (requestId : UInt64) : (Protobuf.uint64 1 requestId.toNat).length ≤ 11 := by
  by_cases h : requestId.toNat = 0
  · simp [h, Protobuf.uint64]
  · have := Protobuf.varint_length_le (k := 9) (n := requestId.toNat) (by have := requestId.toNat_lt; omega)
    rw [Protobuf.uint64_length _ h, Protobuf.key, Protobuf.varint_small (by omega), List.length_singleton]
    omega

/-- A reply without a line fits any frame. -/
theorem historySize_nothing (requestId : UInt64) {serverId shellId : List UInt8} (hserver : serverId.length ≤ 16)
    (hshell : shellId.length ≤ 16) {field : Nat} (hfield : field < 2047) (evicted : Bool) :
    historySize requestId serverId shellId field ⟨0, [], evicted⟩ ≤ frameBytesFloor.toNat := by
  have hchunk : (historyChunkBytes ⟨0, [], evicted⟩).length ≤ 2 := by
    cases evicted <;> simp [historyChunkBytes, Protobuf.uint64, Protobuf.bool, Protobuf.key, Protobuf.varint_small]
  have hid := requestId_length_le requestId
  have hserver := bytes_length_le 2 (by decide) hserver
  have hshell := bytes_length_le 3 (by decide) hshell
  have hkey : (Protobuf.key field 2).length ≤ 2 := Protobuf.varint_length_le (by omega)
  have hlen : (Protobuf.varint (historyChunkBytes ⟨0, [], evicted⟩).length).length ≤ 1 :=
    Protobuf.varint_length_le (by omega)
  have hfloor : frameBytesFloor.toNat = 16384 := rfl
  simp only [historySize, envelopeBytes, List.length_append, Protobuf.delimited_length]
  omega

theorem range_fits_iff {ring : HistoryRing} (hw : ring.Wf) (requestId : UInt64) {serverId shellId : List UInt8}
    (hserver : serverId.length ≤ 16) (hshell : shellId.length ≤ 16) {field : Nat} (hfield : field < 2047) {max : Nat}
    (hmax : frameBytesFloor.toNat ≤ max) (beforeLineId maximumLines maximumBytes : Nat) :
    historySize requestId serverId shellId field (ring.range beforeLineId maximumLines maximumBytes) ≤ max ↔
      ring.PagesFit beforeLineId maximumLines maximumBytes (historySize requestId serverId shellId field) max :=
  HistoryRing.pagesFit_iff hw
    (fun _ _ hp hq hlen => envelopeBytes_mono _ _ _ _ (historyChunk_mono hw hp hq hlen))
    (fun evicted => (historySize_nothing requestId hserver hshell hfield evicted).trans hmax)

/-- Every page the daemon may answer this request with fits the negotiated frame. -/
def DaemonPagesFit (ring : HistoryRing) (max : UInt32) (requestId : UInt64) (beforeLineId : Nat)
    (maximumLines maximumBytes : UInt32) : Prop :=
  ring.PagesFit beforeLineId (min maximumLines 10000).toNat (min maximumBytes (max / 2)).toNat
    (historySize requestId [] [] historyChunkField) max.toNat

def AgentPagesFit (server : ServerId) (shell : ShellId) (ring : HistoryRing) (requestId : UInt64)
    (beforeLineId maximumLines maximumBytes : Nat) : Prop :=
  ring.PagesFit beforeLineId (min maximumLines agentHistoryLinesMax)
    (min maximumBytes (agentAttachmentFrameBytesMax.toNat / 2))
    (historySize requestId server.toWire shell.toWire agentHistoryChunkField) agentAttachmentFrameBytesMax.toNat

section

variable {D : Type} {C : Codec Reply D} {CA : Codec AgentEnvelope D} {ring : HistoryRing}

theorem daemon_fits_iff (hC : WritesHistory C) (hw : ring.Wf) {max : UInt32} (hmax : frameBytesFloor ≤ max)
    (requestId : UInt64) (beforeLineId : Nat) (maximumLines maximumBytes : UInt32) :
    (C.encode (historyReply ring max requestId beforeLineId maximumLines maximumBytes)).length ≤ max.toNat ↔
      DaemonPagesFit ring max requestId beforeLineId maximumLines maximumBytes := by
  rw [historyReply, respond, hC]
  exact range_fits_iff hw requestId (Nat.zero_le _) (Nat.zero_le _) (by decide) (UInt32.le_iff_toNat_le.mp hmax) _ _ _

theorem agent_fits_iff (hCA : WritesAgentHistory CA) (hw : ring.Wf) (server : ServerId) (shell : ShellId)
    (requestId : UInt64) (beforeLineId maximumLines maximumBytes : Nat) :
    (CA.encode (agentHistoryReply server shell requestId
        (agentHistoryRange ring beforeLineId maximumLines maximumBytes))).length ≤
        agentAttachmentFrameBytesMax.toNat ↔
      AgentPagesFit server shell ring requestId beforeLineId maximumLines maximumBytes := by
  have hids : server.toWire.length = 16 ∧ shell.toWire.length = 16 := by
    simp [ServerId.toWire, ShellId.toWire, Protocol.toWire]
  rw [agentHistoryReply, attachmentReply, hCA]
  exact range_fits_iff hw requestId (by omega) (by omega) (by decide) (by decide) _ _ _

/-- The reply fits exactly when every page within the limits would; and where that is so for
    every request, paging back arrives at the oldest retained line. -/
theorem history_replies_fit (hC : WritesHistory C) (hCA : WritesAgentHistory CA) (maxLines maxBytes : Nat)
    (pushed : List Text) (hring : ring = (HistoryRing.new maxLines maxBytes).pushAll pushed) (max : UInt32)
    (hfloor : frameBytesFloor ≤ max) (_hceiling : max ≤ frameBytesCeiling) (server : ServerId) (shell : ShellId) :
    (∀ requestId beforeLineId maximumLines maximumBytes,
      (C.encode (historyReply ring max requestId beforeLineId maximumLines maximumBytes)).length ≤ max.toNat ↔
        DaemonPagesFit ring max requestId beforeLineId maximumLines maximumBytes) ∧
    (∀ (requestIds : Nat → UInt64) (maximumLines maximumBytes : UInt32),
      (∀ n beforeLineId, DaemonPagesFit ring max (requestIds n) beforeLineId maximumLines maximumBytes) →
        ∃ n, ring.pageBack (min maximumLines 10000).toNat (min maximumBytes (max / 2)).toNat
          (fun n range => decide ((C.encode (respond (requestIds n) (.historyChunk range))).length ≤ max.toNat)) n =
            some ring.oldestId) ∧
    (∀ requestId beforeLineId maximumLines maximumBytes,
      (CA.encode (agentHistoryReply server shell requestId
        (agentHistoryRange ring beforeLineId maximumLines maximumBytes))).length ≤
          agentAttachmentFrameBytesMax.toNat ↔
        AgentPagesFit server shell ring requestId beforeLineId maximumLines maximumBytes) ∧
    (∀ (requestIds : Nat → UInt64) (maximumLines maximumBytes : Nat),
      (∀ n beforeLineId, AgentPagesFit server shell ring (requestIds n) beforeLineId maximumLines maximumBytes) →
        ∃ n, ring.pageBack (min maximumLines agentHistoryLinesMax)
          (min maximumBytes (agentAttachmentFrameBytesMax.toNat / 2))
          (fun n range => decide ((CA.encode (agentHistoryReply server shell (requestIds n) range)).length ≤
            agentAttachmentFrameBytesMax.toNat)) n = some ring.oldestId) := by
  have hw : ring.Wf := hring ▸ HistoryRing.pushAll_wf (HistoryRing.new_wf maxLines maxBytes) pushed
  refine ⟨?_, ?_, ?_, ?_⟩
  · intro requestId beforeLineId maximumLines maximumBytes
    exact daemon_fits_iff hC hw hfloor requestId beforeLineId maximumLines maximumBytes
  · intro requestIds maximumLines maximumBytes hfit
    refine HistoryRing.pageBack_reaches hw fun n beforeLineId => ?_
    exact decide_eq_true ((daemon_fits_iff hC hw hfloor _ _ _ _).mpr (hfit n beforeLineId))
  · intro requestId beforeLineId maximumLines maximumBytes
    exact agent_fits_iff hCA hw server shell requestId beforeLineId maximumLines maximumBytes
  · intro requestIds maximumLines maximumBytes hfit
    refine HistoryRing.pageBack_reaches hw fun n beforeLineId => ?_
    exact decide_eq_true ((agent_fits_iff hCA hw server shell _ _ _ _).mpr (hfit n beforeLineId))

end

/-! ## Generated code to try it on -/

/-- The large replies as they are on the wire; of all bytes it reads back those of `known`. -/
def largeReplies (known : Reply) : Codec Reply Unit :=
  let encode (reply : Reply) : List UInt8 :=
    match reply.message with
    | .historyChunk range =>
      envelopeBytes reply.requestId reply.serverId reply.shellId historyChunkField (historyChunkBytes range)
    | .shellAttached a =>
      envelopeBytes reply.requestId reply.serverId reply.shellId shellAttachedField (shellAttachedBytes a)
    | _ => []
  ⟨encode, fun bytes => if bytes = encode known then .ok known else .error ()⟩

def largeAgentReplies (known : AgentEnvelope) : Codec AgentEnvelope Unit :=
  let encode (envelope : AgentEnvelope) : List UInt8 :=
    match envelope.message with
    | some (.historyChunk firstLineId lines truncated) =>
      envelopeBytes envelope.requestId envelope.serverId envelope.shellId agentHistoryChunkField
        (historyChunkBytes ⟨firstLineId, lines, truncated⟩)
    | _ => []
  ⟨encode, fun bytes => if bytes = encode known then .ok known else .error ()⟩

theorem largeReplies_history (known : Reply) : WritesHistory (largeReplies known) := fun _ _ _ _ => rfl

theorem largeAgentReplies_history (known : AgentEnvelope) : WritesAgentHistory (largeAgentReplies known) :=
  fun _ _ _ _ => rfl

/-- A scrollback of two prompts, at the smallest frame. -/
def promptRing : HistoryRing := (HistoryRing.new 100000 (64 * 1024 * 1024)).pushAll ["$ ls".toList, "$ ".toList]

theorem history_replies_fit_prompts :
    WritesHistory (largeReplies (historyReply promptRing frameBytesFloor 1 0 200 65536)) ∧
    ∀ requestId beforeLineId maximumLines maximumBytes,
      ((largeReplies (historyReply promptRing frameBytesFloor 1 0 200 65536)).encode
        (historyReply promptRing frameBytesFloor requestId beforeLineId maximumLines maximumBytes)).length ≤
          frameBytesFloor.toNat ↔
        DaemonPagesFit promptRing frameBytesFloor requestId beforeLineId maximumLines maximumBytes :=
  ⟨largeReplies_history _,
    (history_replies_fit (largeReplies_history _)
      (largeAgentReplies_history (agentHistoryReply ⟨.replicate 16 1⟩ sampleShell 1 (promptRing.range 0 200 65536)))
      100000 (64 * 1024 * 1024) _ rfl frameBytesFloor (by decide) (by decide) ⟨.replicate 16 1⟩ sampleShell).1⟩

/-- Empty lines: no text to count, two bytes each. -/
def emptyLines (n : Nat) : HistoryRing := (HistoryRing.new 100000 (64 * 1024 * 1024)).pushAll (List.replicate n [])

/-- From this many on, one page of them is larger than the smallest frame. -/
theorem empty_lines_not_fit {n : Nat} (hmany : 8192 ≤ n) (hlimit : n ≤ 10000) :
    ¬DaemonPagesFit (emptyLines n) frameBytesFloor 1 0 10000 8192 := by
  have hring : emptyLines n = ⟨List.replicate n [], 1, n + 1, n * Text.len [], 100000, 64 * 1024 * 1024⟩ :=
    HistoryRing.pushAll_replicate [] n (by omega) (by simp [Text.len])
  have hbelow : (emptyLines n).below 0 = List.replicate n [] := by
    rw [hring, HistoryRing.below]
    exact List.take_of_length_le (by simp [HistoryRing.upper, HistoryRing.newestId])
  intro hfits
  have hall := hfits (List.replicate n []) (by rw [ne_eq, List.replicate_eq_nil_iff]; omega) (by rw [hbelow])
    (.inr ⟨by rw [List.length_replicate]; exact hlimit, by simp [HistoryRing.textLen, Text.len]⟩)
  have hcost := Protobuf.repeated_length_ge 2 ((List.replicate n ([] : Text)).map Text.bytes)
  rw [List.length_map, List.length_replicate] at hcost
  have hkey : 1 ≤ (Protobuf.key historyChunkField 2).length := Protobuf.varint_length_pos _
  have hfloor : frameBytesFloor.toNat = 16384 := rfl
  simp only [historySize, envelopeBytes, historyChunkBytes, HistoryRing.pageOf, Protobuf.delimited_length,
    List.length_append] at hall
  omega

theorem empty_lines_outgrow_the_frame :
    ¬((largeReplies (historyReply (emptyLines 8192) frameBytesFloor 1 0 10000 8192)).encode
      (historyReply (emptyLines 8192) frameBytesFloor 1 0 10000 8192)).length ≤ frameBytesFloor.toNat := by
  have hw : (emptyLines 8192).Wf := HistoryRing.pushAll_wf (HistoryRing.new_wf _ _) _
  rw [daemon_fits_iff (largeReplies_history _) hw (by decide)]
  exact empty_lines_not_fit (by decide) (by decide)

end Holdfast.Daemon

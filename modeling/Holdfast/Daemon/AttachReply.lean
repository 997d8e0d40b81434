/-
  Holdfast.Daemon.AttachReply — the reply to an attach, against the frames it has to fit in
  (`Conn::attach` of `crates/daemon/src/conn.rs`, `spawn_writer_router` of
  `crates/daemon/src/webtransport.rs`).

  The reply carries the redraw sequence of the whole screen. By the time it is written,
  the token the client had is superseded; the writer drops an envelope that is larger than
  its maximum, and the client takes none larger than the negotiated one.

  Proved:
  - `attach_replies`: what a successful attach answers, from the state before it.
  - `attached_reply_fits_iff`: the reply gets through exactly when the redraw sequence of
    the screen, at the size the attach asks for, leaves room for the rest of the reply.
-/

import Holdfast.Daemon.HistoryReply
import Holdfast.Session.Stream

namespace Holdfast.Daemon

open Holdfast.Base Holdfast.Terminal Holdfast.Session Holdfast.Protocol

/-! ## Sizes -/

/-- The generated code writes the reply as `messages.proto` has it. -/
def WritesAttached {D : Type} (C : Codec Reply D) : Prop :=
  ∀ requestId serverId shellId a,
    C.encode ⟨requestId, serverId, shellId, .shellAttached a⟩ =
      envelopeBytes requestId serverId shellId shellAttachedField (shellAttachedBytes a)

/-- A number in a field below 16; 0 is left out. -/
def numberSize (n : Nat) : Nat := if n = 0 then 0 else 1 + (Protobuf.varint n).length

/-- `n` bytes in a field below 16. -/
def bytesSize (n : Nat) : Nat := if n = 0 then 0 else 1 + (Protobuf.varint n).length + n

/-- A reply with `screen` bytes of redraw sequence: two ids of 16 bytes, a token of 32. -/
def attachedSize (requestId : UInt64) (screen revision oldest newest : Nat) : Nat :=
  let message := bytesSize screen + numberSize revision + bytesSize 32 + numberSize oldest + numberSize newest
  numberSize requestId.toNat + bytesSize 16 + bytesSize 16 + (2 + (Protobuf.varint message).length + message)

theorem key_length {field wireType : Nat} (hfield : field < 16) (hwire : wireType < 8) :
    (Protobuf.key field wireType).length = 1 := by
  rw [Protobuf.key, Protobuf.varint_small (by omega), List.length_singleton]

theorem uint64_numberSize {field : Nat} (hfield : field < 16) (value : Nat) :
    (Protobuf.uint64 field value).length = numberSize value := by
  by_cases h : value = 0
  · rw [Protobuf.uint64, numberSize, if_pos h, if_pos h, List.length_nil]
  · rw [Protobuf.uint64_length _ h, numberSize, if_neg h, key_length hfield (by decide)]

theorem bytes_bytesSize {field : Nat} (hfield : field < 16) (payload : List UInt8) :
    (Protobuf.bytes field payload).length = bytesSize payload.length := by
  by_cases h : payload = []
  · rw [Protobuf.bytes, if_pos h, h, List.length_nil, bytesSize, if_pos rfl]
  · rw [Protobuf.bytes, if_neg h, Protobuf.delimited_length, bytesSize, if_neg (by simpa using h),
      key_length hfield (by decide)]

theorem attached_length (requestId : UInt64) {serverId shellId : List UInt8} (hserver : serverId.length = 16)
    (hshell : shellId.length = 16) (a : Attachment) :
    (envelopeBytes requestId serverId shellId shellAttachedField (shellAttachedBytes a)).length =
      attachedSize requestId a.snapshot.length a.screenRevision a.oldestHistoryLineId a.newestHistoryLineId := by
  have hkey : (Protobuf.key shellAttachedField 2).length = 2 := by
    rw [Protobuf.key, Protobuf.varint_large (by decide), Protobuf.varint_small (by decide), List.length_singleton]
  have hmessage : (shellAttachedBytes a).length =
      bytesSize a.snapshot.length + numberSize a.screenRevision + bytesSize 32 + numberSize a.oldestHistoryLineId +
        numberSize a.newestHistoryLineId := by
    simp only [shellAttachedBytes, List.length_append, bytes_bytesSize, uint64_numberSize, Vector.length_toList,
      (by decide : (1 : Nat) < 16), (by decide : (2 : Nat) < 16), (by decide : (3 : Nat) < 16),
      (by decide : (4 : Nat) < 16), (by decide : (5 : Nat) < 16)]
  rw [envelopeBytes, List.length_append, List.length_append, List.length_append, uint64_numberSize (by decide),
    bytes_bytesSize (by decide), bytes_bytesSize (by decide), Protobuf.delimited_length, hkey, hmessage, hserver, hshell]
  rfl

/-! ## A successful attach -/

/-- What an attach answers that shows `model`. -/
def attachmentOf {V : Type} (S : Server V) (id : ShellId) (model : TerminalModel V) (attachmentId : Nat)
    (token : ResumeToken) : Attachment :=
  ⟨attachmentId, id, model.snapshot S.avt, model.revision, token, model.oldestLineId, model.newestLineId⟩

section

variable {V : Type} {S : Server V}

theorem attachRuntime_ok {id : ShellId} {rt : Runtime V} {cols rows : UInt16} {env : Runtime.AttachEnv}
    {a : Attachment} (h : (rt.attachRuntime S id cols rows env).2 = .ok a) :
    a = attachmentOf S id (sizeTo S rt.model cols rows) a.attachmentId env.token ∧
      (rt.attachRuntime S id cols rows env).1.tokenHash = S.sha256 env.token := by
  unfold Runtime.attachRuntime at h ⊢
  by_cases hrunning : rt.state ≠ .running
  · rw [if_pos hrunning] at h
    cases h
  · rw [if_neg hrunning] at h ⊢
    by_cases hroom : rt.attachments.card ≥ S.config.maxAttachmentsPerShell
    · rw [if_pos hroom] at h
      cases h
    · rw [if_neg hroom] at h ⊢
      cases hresize : rt.attachResize S cols rows env.resize with
      | error e =>
        rw [hresize] at h
        cases h
      | ok resized =>
        rw [hresize] at h
        cases h
        refine ⟨?_, rfl⟩
        rw [← attachResize_model hresize]
        rfl

/-- The token check came first, and the token is rotated. -/
theorem attach_ok {m : Manager V} {owner : String} {id : ShellId} {token : ResumeToken} {cols rows : UInt16}
    {env : Runtime.AttachEnv} {a : Attachment} (h : (m.attach S owner id token cols rows env).2 = .attached a) :
    ∃ entry, m.shells.lookup id = some entry ∧
      a = attachmentOf S id (sizeTo S entry.runtime.model cols rows) a.attachmentId env.token ∧
      ((m.attach S owner id token cols rows env).1.shells.lookup id).map (·.runtime.tokenHash) =
        some (S.sha256 env.token) := by
  unfold Manager.attach Manager.withEntry at h ⊢
  cases hlookup : m.shells.lookup id with
  | none =>
    rw [hlookup] at h
    cases h
  | some entry =>
    rw [hlookup] at h
    simp only at h ⊢
    refine ⟨entry, rfl, ?_⟩
    by_cases howner : entry.owner ≠ owner
    · rw [if_pos howner] at h
      cases h
    · rw [if_neg howner] at h ⊢
      have hok : (entry.runtime.attachWithToken S id token cols rows env).2 = .ok a := by
        cases hres : (entry.runtime.attachWithToken S id token cols rows env).2 with
        | error e =>
          simp only [hres, Res.ofAttach] at h
          cases h
        | ok b =>
          simp only [hres, Res.ofAttach] at h
          cases h
          rfl
      unfold Runtime.attachWithToken at hok ⊢
      by_cases htoken : entry.runtime.tokenHash ≠ S.sha256 token
      · rw [if_pos htoken] at hok
        split at hok <;> cases hok
      · rw [if_neg htoken] at hok ⊢
        obtain ⟨ha, hrotated⟩ := attachRuntime_ok hok
        refine ⟨ha, ?_⟩
        rw [Manager.setRuntime, Table.lookup_adjust_same, hlookup]
        simp only [Option.map_some, hrotated]

end

section

variable {V D : Type} {A : App V} {w : World V} {env : DispatchEnv} {channel : Nat} {e : Envelope}
  {resumeToken : List UInt8} {cols rows : UInt32} {reply : Reply} {a : Attachment}

theorem refuse_not_attached {requestId : UInt64} {code : ErrorCode} {text : String} {calls : List Call}
    (hreply : (channel, reply) ∈ (w.refuse env channel requestId code text calls).2.replies)
    (ha : reply.message = .shellAttached a) : False := by
  cases List.mem_singleton.mp hreply
  cases ha

/-- The reply of an attach that went through, and the state it came from. -/
theorem attach_replies (hreply : (channel, reply) ∈ (w.attach A env channel e resumeToken cols rows).2.replies)
    (ha : reply.message = .shellAttached a) :
    ∃ id entry, ShellId.fromWire e.shellId = some id ∧ w.manager.shells.lookup id = some entry ∧
      a = attachmentOf A.server id (sizeTo A.server entry.runtime.model cols.toUInt16 rows.toUInt16) a.attachmentId
        env.attach.token ∧
      reply = ⟨e.requestId, A.serverId.toWire, e.shellId, .shellAttached a⟩ ∧
      ((w.attach A env channel e resumeToken cols rows).1.manager.shells.lookup id).map (·.runtime.tokenHash) =
        some (A.server.sha256 env.attach.token) := by
  unfold World.attach at hreply ⊢
  by_cases hpermits : w.conn.identity.permits "attach" = false
  · rw [if_pos hpermits] at hreply
    exact (refuse_not_attached hreply ha).elim
  · rw [if_neg hpermits] at hreply ⊢
    by_cases hbound : (w.conn.attachments.lookup channel).isSome = true
    · rw [if_pos hbound] at hreply
      exact (refuse_not_attached hreply ha).elim
    · rw [if_neg hbound] at hreply ⊢
      cases hid : ShellId.fromWire e.shellId with
      | none =>
        simp only [hid] at hreply
        exact (refuse_not_attached hreply ha).elim
      | some id =>
        cases htoken : World.tokenFromWire resumeToken with
        | none =>
          simp only [hid, htoken] at hreply
          exact (refuse_not_attached hreply ha).elim
        | some token =>
          simp only [hid, htoken] at hreply ⊢
          -- of the answers of the manager, one alone makes a reply that attaches
          split at hreply
          · rename_i b hb
            cases List.mem_singleton.mp hreply
            cases ha
            obtain ⟨entry, hentry, hanswer, hrotated⟩ := attach_ok hb
            exact ⟨id, entry, rfl, hentry, hanswer, rfl, hrotated⟩
          · cases List.mem_singleton.mp hreply
            cases ha
          · cases hreply

/-- The writer does not drop the reply, and the client takes it. -/
def GetsThrough (C : Codec Reply D) (reply : Reply) (max : UInt32) : Prop :=
  (∃ frame, encodeDelimited C reply Protocol.frameBytesDefault = .ok frame) ∧ (C.encode reply).length ≤ max.toNat

theorem getsThrough_iff (C : Codec Reply D) (reply : Reply) (max : UInt32) :
    GetsThrough C reply max ↔ (C.encode reply).length ≤ min Protocol.frameBytesDefault.toNat max.toNat := by
  rw [GetsThrough, Nat.le_min]
  refine and_congr_left fun _ => ?_
  unfold encodeDelimited
  by_cases h : (C.encode reply).length > Protocol.frameBytesDefault.toNat
  · simp only [if_pos h]
    exact iff_of_false nofun (by omega)
  · simp only [if_neg h]
    exact iff_of_true ⟨_, rfl⟩ (by omega)

/-- The token is rotated either way; the reply gets through exactly when the screen leaves
    room for it. -/
theorem attached_reply_fits_iff {C : Codec Reply D} (hC : WritesAttached C)
    (hreply : (channel, reply) ∈ (w.attach A env channel e resumeToken cols rows).2.replies)
    (ha : reply.message = .shellAttached a) :
    ∃ id entry, ShellId.fromWire e.shellId = some id ∧ w.manager.shells.lookup id = some entry ∧
      ((w.attach A env channel e resumeToken cols rows).1.manager.shells.lookup id).map (·.runtime.tokenHash) =
        some (A.server.sha256 a.rotatedResumeToken) ∧
      (GetsThrough C reply w.conn.maxFrameBytes ↔
        let shown := sizeTo A.server entry.runtime.model cols.toUInt16 rows.toUInt16
        attachedSize e.requestId (shown.snapshot A.server.avt).length shown.revision shown.oldestLineId
          shown.newestLineId ≤ min Protocol.frameBytesDefault.toNat w.conn.maxFrameBytes.toNat) := by
  obtain ⟨id, entry, hid, hentry, hanswer, rfl, hrotated⟩ := attach_replies hreply ha
  have hshell : e.shellId.length = 16 := by
    by_contra hlen
    rw [ShellId.fromWire, Protocol.fromWire, dif_neg hlen] at hid
    cases hid
  have hserver : A.serverId.toWire.length = 16 := by simp [ServerId.toWire, Protocol.toWire]
  have htoken : a.rotatedResumeToken = env.attach.token := by rw [hanswer]; rfl
  refine ⟨id, entry, hid, hentry, ?_, ?_⟩
  · rw [htoken]
    exact hrotated
  · rw [getsThrough_iff, hC, attached_length _ hserver hshell, hanswer]
    rfl

end

/-! ## A screen that does not fit -/

inductive AlignmentParser where
  | ground
  | escape
  | hash
  deriving DecidableEq, Repr

/-- A blank screen, or one that DECALN (`ESC # 8`) filled; the cursor has not moved. -/
structure AlignedScreen where
  cols : Nat
  rows : Nat
  parser : AlignmentParser
  aligned : Bool
  deriving DecidableEq, Repr

namespace AlignedScreen

def feed (v : AlignedScreen) (c : Char) : AlignedScreen :=
  match v.parser with
  | .ground => if c = '\x1b' then { v with parser := .escape } else v
  | .escape => { v with parser := if c = '#' then .hash else .ground }
  | .hash => { v with parser := .ground, aligned := v.aligned || c == '8' }

/-- A run of more than five is printed once and repeated. -/
def row (cols : Nat) : Text :=
  if cols > 5 then 'E' :: '\x1b' :: '[' :: (toString (cols - 1)).toList ++ ['b'] else List.replicate cols 'E'

def dump (v : AlignedScreen) : Text :=
  (if v.aligned then (List.replicate (v.rows - 1) (row v.cols ++ ['\r', '\n'])).flatten ++ row v.cols else []) ++
    "\x1b[0m\x1b[1;1H\x1b[0m".toList ++
    match v.parser with
    | .ground => []
    | .escape => ['\x1b']
    | .hash => ['\x1b', '#']

end AlignedScreen

def alignment : Avt AlignedScreen where
  build cols rows := ⟨cols, rows, .ground, false⟩
  feed := AlignedScreen.feed
  gc v := (v, [])
  resize v cols rows := { v with cols := cols, rows := rows }
  dump := AlignedScreen.dump

theorem bytes_length (t : Text) : t.length ≤ (Text.bytes t).length := by
  induction t with
  | nil => simp
  | cons c t ih =>
    have := Char.utf8Size_pos c
    simp only [Text.bytes, List.flatMap_cons, List.length_append, List.length_cons, String.length_utf8EncodeChar]
      at ih ⊢
    omega

/-- Three columns and a line end, for every row but the last. -/
theorem dump_aligned (rows : Nat) : 5 * (rows - 1) ≤ (AlignedScreen.dump ⟨3, rows, .ground, true⟩).length := by
  simp only [AlignedScreen.dump, if_true, AlignedScreen.row, List.length_append, List.length_flatten,
    List.map_replicate, List.sum_replicate, List.length_cons, List.length_nil]
  simp
  omega

def App.aligned : App AlignedScreen :=
  { server := ⟨.default, allowAll, alignment, sampleDigest⟩
    serverId := ⟨.replicate 16 1⟩
    auth := .dev
    uploads := none
    forwardUsers := []
    sha256 := abcDigest
    isIpAddr := fun _ => false }

/-- A shell whose program has printed `output`. -/
def screenWorld (cols rows : UInt32) (output : List UInt8) : World AlignedScreen :=
  (World.machine App.aligned).run (.initial false [] Manager.empty)
    [sampleMessage 0 (.clientHello sampleHello) 0, sampleMessage 0 (.authenticate none) 0,
      sampleMessage 0 (.openShell "" "" cols rows (List.replicate 16 9)) 1,
      .manager (.pumpChunk sampleShell output)]

/-- An attach that leaves the size alone. -/
def plainAttach (w : World AlignedScreen) : Step AlignedScreen :=
  w.attach App.aligned (.sample 2) 1 (sampleEnvelope (.attachShell (List.replicate 32 1) 0 0)) (List.replicate 32 1) 0 0

theorem largeReplies_attached (known : Reply) : WritesAttached (largeReplies known) := fun _ _ _ _ => rfl

def isAttached (reply : Reply) : Bool :=
  match reply.message with
  | .shellAttached _ => true
  | _ => false

theorem fromWire_sample (m : ClientMessage) : ShellId.fromWire (sampleEnvelope m).shellId = some sampleShell := by
  show ShellId.fromWire sampleShell.toWire = some sampleShell
  decide

theorem plainAttach_replies {w : World AlignedScreen}
    (h : ((plainAttach w).2.replies.any fun r => r.1 == 1 && isAttached r.2) = true) :
    ∃ reply a, (1, reply) ∈ (plainAttach w).2.replies ∧ reply.message = .shellAttached a := by
  obtain ⟨⟨channel, reply⟩, hmem, hreply⟩ := List.any_eq_true.mp h
  rw [Bool.and_eq_true, beq_iff_eq] at hreply
  obtain ⟨rfl, hattached⟩ := hreply
  unfold isAttached at hattached
  split at hattached
  · rename_i a ha
    exact ⟨reply, a, hmem, ha⟩
  · cases hattached

theorem attached_reply_fits_blank :
    ∃ reply a, (1, reply) ∈ (plainAttach (screenWorld 80 24 [])).2.replies ∧ reply.message = .shellAttached a ∧
      GetsThrough (largeReplies reply) reply (screenWorld 80 24 []).conn.maxFrameBytes := by
  obtain ⟨reply, a, hreply, ha⟩ := plainAttach_replies (w := screenWorld 80 24 []) (by decide)
  refine ⟨reply, a, hreply, ha, ?_⟩
  obtain ⟨id, entry, hid, hentry, -, hfits⟩ := attached_reply_fits_iff (largeReplies_attached reply) hreply ha
  rw [fromWire_sample, Option.some.injEq] at hid
  subst hid
  have hscreen : ((screenWorld 80 24 []).manager.shells.lookup sampleShell).map (fun entry =>
      ((entry.runtime.model.snapshot alignment).length, entry.runtime.model.revision,
        entry.runtime.model.oldestLineId, entry.runtime.model.newestLineId)) = some (14, 1, 0, 0) := by decide
  rw [hentry, Option.map_some, Option.some.injEq, Prod.mk.injEq, Prod.mk.injEq, Prod.mk.injEq] at hscreen
  obtain ⟨hsnapshot, hrevision, holdest, hnewest⟩ := hscreen
  refine hfits.mpr ?_
  show attachedSize _ (entry.runtime.model.snapshot alignment).length entry.runtime.model.revision
    entry.runtime.model.oldestLineId entry.runtime.model.newestLineId ≤ _
  rw [hsnapshot, hrevision, holdest, hnewest]
  have hmax : min Protocol.frameBytesDefault.toNat (screenWorld 80 24 []).conn.maxFrameBytes.toNat = 262144 := by decide
  rw [hmax]
  simp [attachedSize, numberSize, bytesSize, Protobuf.varint_small, sampleEnvelope]

/-- A small program, a large screen: the token is rotated and its reply never written. -/
theorem aligned_reply_dropped :
    ∃ reply a, (1, reply) ∈ (plainAttach (screenWorld 3 65535 [0x1b, 0x23, 0x38])).2.replies ∧
      reply.message = .shellAttached a ∧
      ¬GetsThrough (largeReplies reply) reply (screenWorld 3 65535 [0x1b, 0x23, 0x38]).conn.maxFrameBytes := by
  obtain ⟨reply, a, hreply, ha⟩ := plainAttach_replies (w := screenWorld 3 65535 [0x1b, 0x23, 0x38]) (by decide)
  refine ⟨reply, a, hreply, ha, ?_⟩
  obtain ⟨id, entry, hid, hentry, hanswer, rfl, -⟩ := attach_replies hreply ha
  rw [fromWire_sample, Option.some.injEq] at hid
  subst hid
  have hscreen : ((screenWorld 3 65535 [0x1b, 0x23, 0x38]).manager.shells.lookup sampleShell).map
      (fun entry => entry.runtime.model.vt) = some ⟨3, 65535, .ground, true⟩ := by decide
  rw [hentry, Option.map_some, Option.some.injEq] at hscreen
  -- no size asked for: the screen is shown as it is
  have hsnapshot : a.snapshot = entry.runtime.model.snapshot alignment := by
    rw [hanswer]
    rfl
  have hlarge : 5 * 65534 ≤ a.snapshot.length := by
    rw [hsnapshot, TerminalModel.snapshot, List.length_append]
    have hdump : alignment.dump entry.runtime.model.vt = AlignedScreen.dump ⟨3, 65535, .ground, true⟩ := by
      rw [hscreen]
      rfl
    rw [hdump]
    have hrows := dump_aligned 65535
    have hbytes := bytes_length (AlignedScreen.dump ⟨3, 65535, .ground, true⟩)
    omega
  rw [getsThrough_iff, largeReplies_attached _]
  have hwhole : a.snapshot.length ≤ (envelopeBytes (sampleEnvelope (.attachShell (List.replicate 32 1) 0 0)).requestId
      App.aligned.serverId.toWire (sampleEnvelope (.attachShell (List.replicate 32 1) 0 0)).shellId shellAttachedField
      (shellAttachedBytes a)).length := by
    simp only [envelopeBytes, List.length_append, Protobuf.delimited_length, shellAttachedBytes, bytes_bytesSize
      (show (1 : Nat) < 16 by decide), bytesSize]
    split <;> omega
  have hmax : Protocol.frameBytesDefault.toNat = 262144 := rfl
  omega

end Holdfast.Daemon

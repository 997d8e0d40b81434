/-
  Holdfast.Daemon.Backends — the two backends of an upload (`UploadService::begin` and
  `ActiveUpload` of `crates/daemon/src/uploads.rs`), side by side.

  The same-uid backend calls the writer. The other one is a handle (`RemoteUpload` of
  `crates/spawner/src/lib.rs`) on a helper process with a writer of its own: the handle
  makes some checks, puts each chunk on a socket and goes on; it hears from the helper
  once, when it has asked it to finish. A helper that fails writes its reason and exits,
  and what the handle sends after that fails.

  The helper takes chunks of at most 8 KiB, as they travel in JSON. It also has an
  allowlist and a size limit of its own, and hands the file over to the account.

  `Backends` gives both the same commands and the same answers of the file system; the
  helper reads when it gets to it.

  Proved:
  - `related_step`: wherever the helper is, by the time it has read what was sent to it
    it is where the direct writer is, or both have failed.
  - `backends_agree`: what both make of one upload, once the helper has come to rest.
-/

import Holdfast.Base.Machine
import Holdfast.Daemon.Uploads
import Holdfast.Protocol.Negotiate

namespace Holdfast.Daemon

open Holdfast.Base Holdfast.Protocol Holdfast.Upload Holdfast.Upload.UploadWriter

/-- What the file system answers during one upload, whichever process asks. -/
structure FileSystem where
  begins : List BeginEnv
  /-- The write of a chunk, by how many were written before it. -/
  write : Nat → WriteOutcome
  finish : FinishEnv
  drop : DropEnv

def FileSystem.io (fs : FileSystem) (k : Nat) : UploadIo := ⟨none, fs.write k, fs.finish, fs.drop⟩

def FileSystem.input (fs : FileSystem) (k : Nat) (m : HelperRead) : HelperInput := ⟨m, fs.write k, fs.finish, fs.drop⟩

/-! ## The helper -/

/-- `UPLOAD_CHUNK_BYTES_MAX` of the spawner. -/
def spawnerChunkBytesMax : Nat := 8 * 1024
def maxMessageBytes : Nat := 64 * 1024

structure Refusal where
  forbidden : Bool
  message : String
  deriving DecidableEq, Repr

inductive LaunchError where
  | forbidden
  | internal (msg : String)
  deriving DecidableEq, Repr

structure Spawner where
  connect : Io
  allowedAccounts : List String
  resolveAccountIds : String → Except LaunchError (Nat × Nat)
  /-- Opening the store, where an upload root is configured. -/
  openStore : Option (Except StoreError Unit)
  uploadMaxBytes : UInt64

namespace Spawner

def resolveAllowedAccount (s : Spawner) (account : String) : Except Refusal (Nat × Nat) :=
  if account ∉ s.allowedAccounts then
    .error ⟨true, "account " ++ account.quote ++ " is not in this spawner's allowlist"⟩
  else
    match s.resolveAccountIds account with
    | .error .forbidden => .error ⟨true, "account is not available"⟩
    | .error (.internal msg) => .error ⟨false, msg⟩
    | .ok ids => if ids.1 = 0 then .error ⟨true, "refusing to launch a shell as uid 0"⟩ else .ok ids

/-- `receive_upload`, up to its `Ready`. -/
def receiveUpload (s : Spawner) (account : String) (metadata : BeginUpload) (maximumChunkBytes : UInt32)
    (begins : List BeginEnv) : Except Refusal (UploadWriter × Nat × Nat) × Directory :=
  match s.resolveAllowedAccount account with
  | .error r => (.error r, .absent)
  | .ok ids =>
    match s.openStore with
    | none => (.error ⟨false, "file uploads are not configured on the spawner"⟩, .absent)
    | some (.error e) => (.error ⟨false, "open upload store: " ++ e.toText⟩, .absent)
    | some (.ok ()) =>
      match beginWithChunkLimit s.uploadMaxBytes metadata
          (min maximumChunkBytes (UInt32.ofNat spawnerChunkBytesMax)) begins with
      | (.error e, d) => (.error ⟨false, "begin upload: " ++ e.toText⟩, d)
      | (.ok w, d) => (.ok (w, ids), d)

end Spawner

/-- What the helper writes last (`UploadReply` of the spawner). -/
inductive HelperReply where
  | finished (uploadId : List UInt8) (remotePath : String) (bytesWritten : UInt64) (sha256 : List UInt8)
  | error (r : Refusal)
  deriving DecidableEq, Repr

structure Helper where
  task : HelperTask
  reply : Option HelperReply
  deriving DecidableEq, Repr

/-! ## The handle -/

/-- `SpawnError`, of an answer and of the handle's own. -/
def spawnerRefused (r : Refusal) : UploadError :=
  .spawner r.forbidden ((if r.forbidden then "spawner refused the request: " else "spawner error: ") ++ r.message)

def protocolError (msg : String) : UploadError := .spawner false ("spawner protocol error: " ++ msg)

structure RemoteUpload where
  uploadId : List UInt8
  maximumChunkBytes : UInt32
  nextOffset : UInt64
  deriving DecidableEq, Repr

/-- The checks of `write_wire_chunk` and `write_chunk`. -/
def RemoteUpload.checkChunk (r : RemoteUpload) (c : UploadChunk) : Except UploadError Unit :=
  if c.uploadId ≠ r.uploadId then .error (protocolError "upload chunk carried the wrong id")
  else if c.offset ≠ r.nextOffset then
    .error (protocolError ("upload chunk offset " ++ toString c.offset ++ " does not match " ++ toString r.nextOffset))
  else if c.data.isEmpty ∨ c.data.length > r.maximumChunkBytes.toNat ∨ c.data.length > spawnerChunkBytesMax then
    .error (protocolError ("upload chunk of " ++ toString c.data.length ++ " bytes is outside 1..=" ++
      toString r.maximumChunkBytes.toNat))
  else .ok ()

/-- The length of an array of bytes in JSON: its digits, a comma between two, and brackets. -/
def jsonBytes (bytes : List UInt8) : Nat :=
  2 + (bytes.map fun b => (Nat.toDigits 10 b.toNat).length).sum + (bytes.length - 1)

/-- The length of a message on the socket. -/
def messageBytes : HelperRead → Nat
  -- the names of the variant and its fields, their quotes, colons, commas and braces
  | .chunk c => 42 + jsonBytes c.uploadId + (Nat.toDigits 10 c.offset.toNat).length + jsonBytes c.data
  | .finish uploadId => 25 + jsonBytes uploadId
  | .abort uploadId => 24 + jsonBytes uploadId
  | .closed => 0
  | .unusable => 0

inductive RemotePhase where
  | running (r : RemoteUpload)
  /-- `Finish` is sent, and the blocking task waits for the reply to it. -/
  | finishing
  | reporting (reply : UploadReply)
  | ended
  deriving DecidableEq, Repr

/-- The actor over the second backend, and the helper. -/
structure RemoteTask where
  phase : RemotePhase
  /-- Sent and not yet read. -/
  inbox : List HelperRead
  helper : Helper
  deriving DecidableEq, Repr

/-- The last thing the client hears. -/
def UploadTask.result (t : UploadTask) : Option UploadReply :=
  match t.phase with
  | .reporting _ reply => some reply
  | _ => none

def RemotePhase.result : RemotePhase → Option UploadReply
  | .reporting reply => some reply
  | _ => none

namespace RemoteTask

def result (t : RemoteTask) : Option UploadReply := t.phase.result

def start (w : UploadWriter) (d : Directory) : RemoteTask :=
  ⟨.running ⟨w.uploadId.toWire, w.maximumChunkBytes, 0⟩, [], ⟨.start w d, none⟩⟩

/-- `send_message`. -/
def send (t : RemoteTask) (m : HelperRead) : Except UploadError RemoteTask :=
  if messageBytes m > maxMessageBytes then
    .error (protocolError ("message of " ++ toString (messageBytes m) ++ " bytes exceeds the " ++
      toString maxMessageBytes ++ "-byte limit"))
  else if t.helper.task.writer.isNone then .error (protocolError "sendmsg: EPIPE: Broken pipe")
  else .ok { t with inbox := t.inbox ++ [m] }

/-- `Drop for RemoteUpload`: an abort, and the connection closes. -/
def drop (t : RemoteTask) (r : RemoteUpload) : RemoteTask :=
  match t.send (.abort r.uploadId) with
  | .ok t => { t with inbox := t.inbox ++ [.closed] }
  | .error _ => t

/-- `fail_active_upload`, and the handle is dropped behind it. -/
def fail (t : RemoteTask) (r : RemoteUpload) (e : UploadError) : RemoteTask :=
  { t.drop r with phase := .reporting (.ofError e) }

def report (t : RemoteTask) (e : UploadError) : RemoteTask := { t with phase := .reporting (.ofError e) }

def chunk (t : RemoteTask) (r : RemoteUpload) (c : UploadChunk) : RemoteTask :=
  match r.checkChunk c with
  | .error e => t.fail r e
  | .ok () =>
    match t.send (.chunk ⟨r.uploadId, r.nextOffset, c.data⟩) with
    | .error e => t.fail r e
    | .ok t =>
      match checkedAdd r.nextOffset (UInt64.ofNat c.data.length) with
      | none => t.fail r (protocolError "upload offset overflow")
      | some next => { t with phase := .running { r with nextOffset := next } }

/-- `finish`, up to the reply. The socket leaves the handle first: its drop sends no abort. -/
def finish (t : RemoteTask) (r : RemoteUpload) (uploadId : List UInt8) : RemoteTask :=
  if uploadId ≠ r.uploadId then t.fail r (.validation .invalidUploadId)
  else
    match t.send (.finish r.uploadId) with
    | .error e => t.report e
    | .ok t => { t with phase := .finishing }

/-- `none`: every sender is gone. -/
def command (t : RemoteTask) (c : Option UploadCommand) : RemoteTask :=
  match t.phase, c with
  | .running r, some (.chunk c) => t.chunk r c
  | .running r, some (.finish uploadId) => t.finish r uploadId
  | .running r, some .abort => { t.drop r with phase := .ended }
  | .running r, none => { t.drop r with phase := .ended }
  | _, _ => t

/-- The rest of `finish`. A helper that leaves with messages unread may reset the connection. -/
def receive (t : RemoteTask) (reset : Bool) : RemoteTask :=
  if t.phase ≠ .finishing ∨ t.helper.task.writer.isSome then t
  else if reset ∧ t.inbox ≠ [] then t.report (protocolError "recvmsg: ECONNRESET: Connection reset by peer")
  else
    match t.helper.reply with
    | none => t.report (protocolError "spawner closed before commit reply")
    | some (.error r) => t.report (spawnerRefused r)
    | some (.finished uploadId remotePath bytesWritten sha256) =>
      if uploadId.length = 16 ∧ sha256.length = uploadSha256Bytes then
        { t with phase := .reporting (.finished uploadId remotePath bytesWritten sha256) }
      else t.report .malformedBackendResponse

end RemoteTask

section

variable (sha256 : List UInt8 → List UInt8) (owner : Nat × Nat)
-- what `to_string_lossy` makes of a path that is not UTF-8
variable (lossy : String)

/-- The reply that `receive_upload` writes, or `main` for it, when it leaves. -/
def HelperTask.sends (t : HelperTask) (i : HelperInput) : Option HelperReply :=
  match t.writer with
  | none => none
  | some w =>
    match i.read with
    | .chunk c =>
      match (w.writeChunk t.directory c i.write).1 with
      | .ok () => none
      | .error e => some (.error ⟨false, "write upload: " ++ e.toText⟩)
    | .finish uploadId =>
      match (w.finishInner sha256 t.directory uploadId (some owner) i.finish).1 with
      | .ok c => some (.finished c.uploadId.toWire (c.remotePath.getD lossy) c.bytesWritten c.sha256)
      | .error e => some (.error ⟨false, "finish upload: " ++ e.toText⟩)
    | .abort uploadId =>
      if uploadId ≠ w.uploadId.toWire then some (.error ⟨false, "abort carried the wrong upload id"⟩) else none
    | .closed => none
    | .unusable => some (.error ⟨false, "upload data unexpectedly carried a descriptor"⟩)

variable (fs : FileSystem)

def Helper.read (h : Helper) (m : HelperRead) : Helper :=
  let i := fs.input h.task.accepted.length m
  ⟨(h.task.step sha256 owner i).1, h.reply.or (h.task.sends sha256 owner lossy i)⟩

def Helper.readAll (h : Helper) (ms : List HelperRead) : Helper := ms.foldl (Helper.read sha256 owner lossy fs) h

/-- The helper reads one message, unless it has left. -/
def RemoteTask.help (t : RemoteTask) : RemoteTask :=
  match t.inbox, t.helper.task.writer with
  | m :: rest, some _ => { t with inbox := rest, helper := t.helper.read sha256 owner lossy fs m }
  | _, _ => t

/-! ## Both at once -/

structure Backends where
  same : UploadTask
  remote : RemoteTask

inductive BackendInput where
  | command (c : Option UploadCommand)
  | help
  | receive (reset : Bool)
  deriving DecidableEq, Repr

namespace Backends

def step (b : Backends) : BackendInput → Backends × Unit
  | .command c => (⟨(b.same.step sha256 (.recv c (fs.io b.same.accepted.length))).1, b.remote.command c⟩, ())
  | .help => ({ b with remote := b.remote.help sha256 owner lossy fs }, ())
  | .receive reset => ({ b with remote := b.remote.receive reset }, ())

def machine : Machine Backends BackendInput Unit := ⟨fun b i => b.step sha256 owner lossy fs i⟩

/-- The helper reads all that was sent, and its reply is taken. -/
def settled (b : Backends) : Backends :=
  (machine sha256 owner lossy fs).run b (List.replicate b.remote.inbox.length .help ++ [.receive false])

end Backends

end

/-! ## Beginning -/

def beginSameUid (maxFileBytes : UInt64) (metadata : BeginUpload) (maximumChunkBytes : UInt32) (fs : FileSystem) :
    Except UploadError UploadTask :=
  match validateBegin metadata maxFileBytes with
  | .error e => .error (.validation e)
  | .ok () =>
    match beginWithChunkLimit maxFileBytes metadata maximumChunkBytes fs.begins with
    | (.error e, _) => .error (.store e)
    | (.ok w, d) => .ok (.start w d)

/-- The handle and its helper, and the ids the helper resolved. -/
def beginSpawner (s : Spawner) (account : Option String) (maxFileBytes : UInt64) (metadata : BeginUpload)
    (maximumChunkBytes : UInt32) (fs : FileSystem) : Except UploadError (RemoteTask × Nat × Nat) :=
  match validateBegin metadata maxFileBytes with
  | .error e => .error (.validation e)
  | .ok () =>
    match account with
    | none => .error .missingAccount
    | some account =>
      match s.connect with
      | .error e => .error (.spawner false ("spawner socket: " ++ e))
      | .ok () =>
        match s.receiveUpload account metadata maximumChunkBytes fs.begins with
        | (.error r, _) => .error (spawnerRefused r)
        | (.ok (w, ids), d) => .ok (.start w d, ids)

/-- The helper does what it is there for: it can be reached, accepts the account, has a
    store, and takes what the daemon takes. -/
structure Spawner.Serves (s : Spawner) (account : String) (maxFileBytes : UInt64) : Prop where
  connect : s.connect = .ok ()
  account : ∃ ids, s.resolveAllowedAccount account = .ok ids
  store : s.openStore = some (.ok ())
  limit : maxFileBytes ≤ s.uploadMaxBytes

/-- The calls that only the helper makes go through, and paths are UTF-8. -/
structure FileSystem.Shared (fs : FileSystem) : Prop where
  chownFile : fs.finish.chownFile = .ok ()
  chownDirectory : fs.finish.chownDirectory = .ok ()
  path : ∀ env ∈ fs.begins, env.remotePath.isSome = true

/-- No chunk is of a size that one of them takes and the other does not. -/
def BackendInput.fits (maximumChunkBytes : UInt32) : BackendInput → Prop
  | .command (some (.chunk c)) => c.data.length ≤ spawnerChunkBytesMax ∨ maximumChunkBytes.toNat < c.data.length
  | _ => True

/-- A finish names the upload. -/
def BackendInput.names (uploadId : List UInt8) : BackendInput → Prop
  | .command (some (.finish id)) => id = uploadId
  | _ => True

/-! ## One limit in place of another -/

section

variable {w : UploadWriter} {d : Directory} {c : UploadChunk} {n : UInt32}

def withLimit (w : UploadWriter) (n : UInt32) : UploadWriter := { w with maximumChunkBytes := n }

/-- A chunk within both limits, or beyond both. -/
def FitsBoth (n₁ n₂ : UInt32) (data : List UInt8) : Prop := data.length ≤ n₂.toNat ∨ n₁.toNat < data.length

theorem validateChunk_limit {id : UploadId} {offset total : UInt64} {n₁ n₂ : UInt32} (hle : n₂.toNat ≤ n₁.toNat)
    (hfit : FitsBoth n₁ n₂ c.data) :
    validateChunk c id offset n₂ total = .ok () ↔ validateChunk c id offset n₁ total = .ok () := by
  unfold validateChunk FitsBoth at *
  by_cases hid : c.uploadId ≠ id.toWire
  · rw [if_pos hid, if_pos hid]
  · by_cases hempty : c.data.isEmpty = true
    · rw [if_neg hid, if_neg hid, if_pos hempty, if_pos hempty]
    · simp only [if_neg hid, if_neg hempty]
      by_cases hmax : c.data.length > min n₂.toNat uploadChunkBytesMax
      · have hmax' : c.data.length > min n₁.toNat uploadChunkBytesMax := by omega
        simp [hmax, hmax']
      · have hmax' : ¬ c.data.length > min n₁.toNat uploadChunkBytesMax := by omega
        simp only [if_neg hmax, if_neg hmax']

/-- The two writers write a chunk alike, or both refuse it. -/
theorem writeChunk_limit {io : WriteOutcome} (hle : n.toNat ≤ w.maximumChunkBytes.toNat)
    (hfit : FitsBoth w.maximumChunkBytes n c.data) :
    (∃ w' d', w.writeChunk d c io = (.ok (), w', d') ∧ (withLimit w n).writeChunk d c io = (.ok (), withLimit w' n, d')) ∨
    (∃ e, (w.writeChunk d c io).1 = .error e) ∧ ∃ e, ((withLimit w n).writeChunk d c io).1 = .error e := by
  have hiff := @validateChunk_limit c w.uploadId w.written w.expectedBytes w.maximumChunkBytes n hle hfit
  unfold writeChunk
  cases hv : validateChunk c w.uploadId w.written w.maximumChunkBytes w.expectedBytes with
  | error e =>
    cases hn : validateChunk c w.uploadId w.written n w.expectedBytes with
    | error e' => exact .inr ⟨⟨_, rfl⟩, .invalidUpload e', by simp only [withLimit, hn]⟩
    | ok u =>
      rw [hv] at hiff
      cases hiff.mp hn
  | ok u =>
    have hn := hiff.mpr hv
    cases io with
    | error x => exact .inr ⟨⟨_, rfl⟩, .ioError x.2, by simp only [withLimit, hn]⟩
    | ok u => exact .inl ⟨_, _, rfl, by simp only [withLimit, hn]⟩

theorem validateChunk_length {id : UploadId} {offset total : UInt64} (h : validateChunk c id offset n total = .ok ()) :
    c.data.length ≤ n.toNat := by
  unfold validateChunk at h
  split at h
  · cases h
  · split at h
    · cases h
    · simp only at h
      split at h
      · cases h
      · omega

theorem writeChunk_ok {io : WriteOutcome} {w' : UploadWriter} {d' : Directory} (h : w.writeChunk d c io = (.ok (), w', d')) :
    validateChunk c w.uploadId w.written w.maximumChunkBytes w.expectedBytes = .ok () ∧
      w' = { w with hashed := w.hashed ++ c.data, written := w.written + UInt64.ofNat c.data.length } := by
  unfold writeChunk at h
  split at h
  · cases h
  · rename_i hv
    split at h
    · cases h
    · cases h
      exact ⟨hv, rfl⟩

theorem writeChunk_stored (io : WriteOutcome) : (w.writeChunk d c io).2.2.stored = d.stored := by
  unfold writeChunk
  split
  · rfl
  · split <;> rfl

/-- A finish does not ask for the limit; and where the file can be handed over, not for the owner. -/
theorem finishInner_limit {sha256 : List UInt8 → List UInt8} {env : FinishEnv} (hfile : env.chownFile = .ok ())
    (hdir : env.chownDirectory = .ok ()) (uploadId : List UInt8) (owner : Nat × Nat) :
    (withLimit w n).finishInner sha256 d uploadId (some owner) env =
      let r := w.finishInner sha256 d uploadId none env
      (r.1, withLimit r.2.1 n, r.2.2) := by
  have hsettle : ∀ d, settle d (some owner) env = settle d none env := by
    intro d
    unfold settle
    cases env.unlink with
    | error e => rfl
    | ok u =>
      cases env.syncDirectory with
      | error e => rfl
      | ok u => simp only [hfile, hdir]
  unfold finishInner
  simp only [hsettle]
  by_cases hid : uploadId ≠ w.uploadId.toWire
  · rw [if_pos (show uploadId ≠ (withLimit w n).uploadId.toWire from hid), if_pos hid]
  · rw [if_neg (show ¬ uploadId ≠ (withLimit w n).uploadId.toWire from hid), if_neg hid]
    by_cases hlen : w.written ≠ w.expectedBytes
    · rw [if_pos (show (withLimit w n).written ≠ (withLimit w n).expectedBytes from hlen), if_pos hlen]
      rfl
    · rw [if_neg (show ¬ (withLimit w n).written ≠ (withLimit w n).expectedBytes from hlen), if_neg hlen]
      by_cases hsha : sha256 w.hashed ≠ w.expectedSha256
      · rw [if_pos (show sha256 (withLimit w n).hashed ≠ (withLimit w n).expectedSha256 from hsha), if_pos hsha]
      · rw [if_neg (show ¬ sha256 (withLimit w n).hashed ≠ (withLimit w n).expectedSha256 from hsha), if_neg hsha]
        cases env.flush with
        | error e => rfl
        | ok u =>
          cases env.sync with
          | error e => rfl
          | ok u =>
            generalize link d env.link = l
            obtain ⟨res, d'⟩ := l
            cases res with
            | error e => rfl
            | ok u =>
              simp only
              generalize settle d' none env = s
              obtain ⟨res, d''⟩ := s
              cases res <;> rfl

theorem finishInner_ok {sha256 : List UInt8 → List UInt8} {env : FinishEnv} {uploadId : List UInt8}
    {owner : Option (Nat × Nat)} {c : CommittedUpload} (h : (w.finishInner sha256 d uploadId owner env).1 = .ok c) :
    c.uploadId = w.uploadId ∧ c.remotePath = w.remotePath ∧ c.sha256 = w.expectedSha256 := by
  unfold finishInner at h
  by_cases hid : uploadId ≠ w.uploadId.toWire
  · rw [if_pos hid] at h
    cases h
  · rw [if_neg hid] at h
    by_cases hlen : w.written ≠ w.expectedBytes
    · rw [if_pos hlen] at h
      cases h
    · rw [if_neg hlen] at h
      by_cases hsha : sha256 w.hashed ≠ w.expectedSha256
      · rw [if_pos hsha] at h
        cases h
      · rw [if_neg hsha] at h
        split at h
        · cases h
        · cases h
        · split at h
          · cases h
          · split at h
            · cases h
            · cases h
              exact ⟨rfl, rfl, not_not.mp hsha⟩

end

theorem uint64_toNat_min (a b : UInt64) : (min a b).toNat = min a.toNat b.toNat := by
  show (if a ≤ b then a else b).toNat = _
  split
  · rename_i hle
    rw [UInt64.le_iff_toNat_le] at hle
    omega
  · rename_i hlt
    rw [UInt64.le_iff_toNat_le] at hlt
    omega

section

variable {m₁ m₂ : UInt64} {metadata : BeginUpload} {n₁ n₂ : UInt32}

theorem validateBegin_mono (hle : m₁ ≤ m₂) (h : validateBegin metadata m₁ = .ok ()) : validateBegin metadata m₂ = .ok () := by
  unfold validateBegin at *
  by_cases hname : metadata.originalName.utf8ByteSize > uploadOriginalNameBytesMax
  · rw [if_pos hname] at h
    cases h
  · rw [if_neg hname] at h ⊢
    by_cases hsha : metadata.sha256.length ≠ uploadSha256Bytes
    · rw [if_pos hsha] at h
      cases h
    · rw [if_neg hsha] at h ⊢
      simp only at h ⊢
      by_cases hlarge : metadata.totalBytes > min m₁ uploadFileBytesHardMax
      · rw [if_pos hlarge] at h
        cases h
      · have hfit : ¬ metadata.totalBytes > min m₂ uploadFileBytesHardMax := by
          have hlarge := UInt64.le_iff_toNat_le.mp (UInt64.not_lt.mp hlarge)
          have hle := UInt64.le_iff_toNat_le.mp hle
          rw [gt_iff_lt, UInt64.lt_iff_toNat_lt, uint64_toNat_min]
          rw [uint64_toNat_min] at hlarge
          omega
        rw [if_neg hfit]

theorem validateBegin_sha256 (h : validateBegin metadata m₁ = .ok ()) : metadata.sha256.length = uploadSha256Bytes := by
  unfold validateBegin at h
  split at h
  · cases h
  · split at h
    · cases h
    · rename_i hsha
      exact not_not.mp hsha

/-- The attempts of either process, where both accept the declaration. -/
theorem beginAttempts_limit (h₁ : validateBegin metadata m₁ = .ok ()) (h₂ : validateBegin metadata m₂ = .ok ())
    (envs : List BeginEnv) :
    (∃ w d, beginAttempts m₁ metadata n₁ envs = (.ok w, d) ∧ beginAttempts m₂ metadata n₂ envs = (.ok (withLimit w n₂), d) ∧
      w.maximumChunkBytes = n₁ ∧ ∃ env ∈ envs, w.remotePath = env.remotePath) ∨
    ∃ e d, beginAttempts m₁ metadata n₁ envs = (.error e, d) ∧ beginAttempts m₂ metadata n₂ envs = (.error e, d) ∧
      (e = .idCollision ∨ ∃ msg, e = .ioError msg) := by
  induction envs with
  | nil => exact .inr ⟨_, _, rfl, rfl, .inl rfl⟩
  | cons env envs ih =>
    unfold beginAttempts beginWithId
    rw [h₁, h₂]
    simp only
    cases env.mkdir with
    | none =>
      rcases ih with ⟨w, d, hw₁, hw₂, hlimit, env', hmem, hpath⟩ | herr
      · exact .inl ⟨w, d, hw₁, hw₂, hlimit, env', List.mem_cons_of_mem _ hmem, hpath⟩
      · exact .inr herr
    | some io =>
      cases io with
      | error msg => exact .inr ⟨_, _, rfl, rfl, .inr ⟨_, rfl⟩⟩
      | ok u =>
        unfold openNewWriter
        cases env.openDirectory with
        | error msg => exact .inr ⟨_, _, rfl, rfl, .inr ⟨_, rfl⟩⟩
        | ok u =>
          cases env.chmodDirectory with
          | error msg => exact .inr ⟨_, _, rfl, rfl, .inr ⟨_, rfl⟩⟩
          | ok u =>
            cases env.create with
            | error msg => exact .inr ⟨_, _, rfl, rfl, .inr ⟨_, rfl⟩⟩
            | ok u =>
              cases env.chmodFile with
              | error msg => exact .inr ⟨_, _, rfl, rfl, .inr ⟨_, rfl⟩⟩
              | ok u => exact .inl ⟨_, _, rfl, rfl, rfl, env, List.mem_cons_self, rfl⟩

end

/-! ## Messages fit the socket -/

theorem jsonBytes_le (bytes : List UInt8) : jsonBytes bytes ≤ 2 + 4 * bytes.length := by
  have hdigits : ∀ bytes : List UInt8,
      (bytes.map fun b => (Nat.toDigits 10 b.toNat).length).sum ≤ 3 * bytes.length := by
    intro bytes
    induction bytes with
    | nil => exact Nat.le_refl _
    | cons b bytes ih =>
      have hb : (Nat.toDigits 10 b.toNat).length ≤ 3 := by
        rw [Nat.length_toDigits_le_iff (by omega) (by omega)]
        have := b.toNat_lt
        omega
      simp only [List.map_cons, List.sum_cons, List.length_cons]
      omega
  have := hdigits bytes
  unfold jsonBytes
  omega

theorem messageBytes_chunk {c : UploadChunk} (hid : c.uploadId.length = 16) (hdata : c.data.length ≤ spawnerChunkBytesMax) :
    messageBytes (.chunk c) ≤ maxMessageBytes := by
  have h₁ := jsonBytes_le c.uploadId
  have h₂ := jsonBytes_le c.data
  have h₃ : (Nat.toDigits 10 c.offset.toNat).length ≤ 20 := by
    rw [Nat.length_toDigits_le_iff (by omega) (by omega)]
    have := c.offset.toNat_lt
    omega
  simp only [messageBytes, maxMessageBytes, spawnerChunkBytesMax] at *
  omega

theorem messageBytes_finish {uploadId : List UInt8} (hid : uploadId.length = 16) :
    messageBytes (.finish uploadId) ≤ maxMessageBytes := by
  have := jsonBytes_le uploadId
  simp only [messageBytes, maxMessageBytes] at *
  omega

/-! ## What the handle does -/

namespace RemoteTask

variable {t : RemoteTask} {r : RemoteUpload}

theorem send_error {m : HelperRead} {e : UploadError} (h : t.send m = .error e) :
    (∃ text, e = .spawner false text) ∧ (messageBytes m ≤ maxMessageBytes → t.helper.task.writer = none) := by
  unfold send at h
  split at h
  · rename_i hsize
    cases h
    exact ⟨⟨_, rfl⟩, fun hle => absurd hle (by omega)⟩
  · split at h
    · rename_i hleft
      cases h
      exact ⟨⟨_, rfl⟩, fun _ => Option.isNone_iff_eq_none.mp hleft⟩
    · cases h

theorem send_ok {m : HelperRead} {t' : RemoteTask} (h : t.send m = .ok t') : t' = { t with inbox := t.inbox ++ [m] } := by
  unfold send at h
  split at h
  · cases h
  · split at h
    · cases h
    · cases h
      rfl

/-- What a dropped handle leaves on the socket. -/
def Quits (ms : List HelperRead) : Prop := ms = [] ∨ ∃ uploadId, ms = [.abort uploadId, .closed]

theorem drop_cases (t : RemoteTask) (r : RemoteUpload) : ∃ ms, Quits ms ∧ t.drop r = { t with inbox := t.inbox ++ ms } := by
  unfold drop
  cases hsend : t.send (.abort r.uploadId) with
  | error e => exact ⟨[], .inl rfl, by rw [List.append_nil]⟩
  | ok t' =>
    obtain rfl := send_ok hsend
    exact ⟨_, .inr ⟨r.uploadId, rfl⟩, by simp⟩

theorem fail_cases (t : RemoteTask) (r : RemoteUpload) (e : UploadError) :
    ∃ ms, Quits ms ∧ t.fail r e = { t with inbox := t.inbox ++ ms, phase := .reporting (.ofError e) } := by
  obtain ⟨ms, hms, hdrop⟩ := t.drop_cases r
  exact ⟨ms, hms, by rw [fail, hdrop]⟩

theorem checkChunk_error {c : UploadChunk} {e : UploadError} (h : r.checkChunk c = .error e) :
    ∃ text, e = .spawner false text := by
  unfold RemoteUpload.checkChunk at h
  split at h
  · cases h
    exact ⟨_, rfl⟩
  · split at h
    · cases h
      exact ⟨_, rfl⟩
    · split at h
      · cases h
        exact ⟨_, rfl⟩
      · cases h

theorem checkChunk_ok {c : UploadChunk} (h : r.checkChunk c = .ok ()) :
    c.uploadId = r.uploadId ∧ c.offset = r.nextOffset ∧ c.data.length ≤ spawnerChunkBytesMax := by
  unfold RemoteUpload.checkChunk at h
  split at h
  · cases h
  · rename_i hid
    split at h
    · cases h
    · rename_i hoff
      split at h
      · cases h
      · rename_i hsize
        exact ⟨not_not.mp hid, not_not.mp hoff, by omega⟩

/-- A chunk is refused, sent behind the others, or both. -/
theorem chunk_cases (t : RemoteTask) {r : RemoteUpload} (hid : r.uploadId.length = 16) (c : UploadChunk) :
    (∃ text ms, Quits ms ∧
      t.chunk r c = { t with inbox := t.inbox ++ ms, phase := .reporting (.ofError (.spawner false text)) } ∧
      ((∃ e, r.checkChunk c = .error e) ∨ t.helper.task.writer = none)) ∨
    r.checkChunk c = .ok () ∧
      ((∃ text ms, Quits ms ∧ checkedAdd r.nextOffset (UInt64.ofNat c.data.length) = none ∧
        t.chunk r c = { t with inbox := t.inbox ++ [.chunk c] ++ ms, phase := .reporting (.ofError (.spawner false text)) }) ∨
      ∃ next, checkedAdd r.nextOffset (UInt64.ofNat c.data.length) = some next ∧
        t.chunk r c = { t with inbox := t.inbox ++ [.chunk c], phase := .running { r with nextOffset := next } }) := by
  unfold chunk
  cases hcheck : r.checkChunk c with
  | error e =>
    obtain ⟨text, rfl⟩ := checkChunk_error hcheck
    obtain ⟨ms, hms, hfail⟩ := t.fail_cases r (.spawner false text)
    exact .inl ⟨text, ms, hms, hfail, .inl ⟨_, rfl⟩⟩
  | ok u =>
    obtain ⟨hcid, hoff, hsize⟩ := checkChunk_ok hcheck
    have hsame : (⟨r.uploadId, r.nextOffset, c.data⟩ : UploadChunk) = c := by rw [← hcid, ← hoff]
    simp only [hsame]
    cases hsend : t.send (.chunk c) with
    | error e =>
      obtain ⟨⟨text, rfl⟩, hleft⟩ := send_error hsend
      obtain ⟨ms, hms, hfail⟩ := t.fail_cases r (.spawner false text)
      exact .inl ⟨text, ms, hms, hfail, .inr (hleft (messageBytes_chunk (hcid ▸ hid) hsize))⟩
    | ok t' =>
      obtain rfl := send_ok hsend
      refine .inr ⟨trivial, ?_⟩
      cases hadd : checkedAdd r.nextOffset (UInt64.ofNat c.data.length) with
      | none =>
        obtain ⟨ms, hms, hfail⟩ :=
          fail_cases { t with inbox := t.inbox ++ [.chunk c] } r (protocolError "upload offset overflow")
        exact .inl ⟨_, ms, hms, rfl, hfail⟩
      | some next => exact .inr ⟨next, rfl, rfl⟩

/-- A finish is refused, fails as the helper has left, or is sent. -/
theorem finish_cases (t : RemoteTask) {r : RemoteUpload} (hid : r.uploadId.length = 16) (uploadId : List UInt8) :
    (uploadId ≠ r.uploadId ∧ ∃ ms, Quits ms ∧ t.finish r uploadId =
      { t with inbox := t.inbox ++ ms, phase := .reporting (.ofError (.validation .invalidUploadId)) }) ∨
    uploadId = r.uploadId ∧
      ((∃ text, t.helper.task.writer = none ∧
        t.finish r uploadId = { t with phase := .reporting (.ofError (.spawner false text)) }) ∨
      t.finish r uploadId = { t with inbox := t.inbox ++ [.finish uploadId], phase := .finishing }) := by
  unfold finish
  by_cases hne : uploadId ≠ r.uploadId
  · rw [if_pos hne]
    exact .inl ⟨hne, t.fail_cases r _⟩
  · rw [if_neg hne]
    have hsame : uploadId = r.uploadId := not_not.mp hne
    refine .inr ⟨hsame, ?_⟩
    cases hsend : t.send (.finish r.uploadId) with
    | error e =>
      obtain ⟨⟨text, rfl⟩, hleft⟩ := send_error hsend
      exact .inl ⟨text, hleft (messageBytes_finish hid), rfl⟩
    | ok t' =>
      obtain rfl := send_ok hsend
      rw [hsame]
      exact .inr rfl

end RemoteTask

/-! ## What the helper will have done -/

section

variable {sha256 : List UInt8 → List UInt8} {owner : Nat × Nat} {lossy : String} {fs : FileSystem}

/-- A helper that has left reads nothing. -/
theorem Helper.readAll_left {h : Helper} (hleft : h.task.writer = none) (ms : List HelperRead) :
    h.readAll sha256 owner lossy fs ms = h := by
  induction ms with
  | nil => rfl
  | cons m ms ih =>
    have hread : h.read sha256 owner lossy fs m = h := by
      simp only [Helper.read, HelperTask.step, HelperTask.sends, hleft, Option.or_none]
    show Helper.readAll sha256 owner lossy fs (h.read sha256 owner lossy fs m) ms = h
    rw [hread, ih]

theorem Helper.readAll_append (h : Helper) (ms ns : List HelperRead) :
    h.readAll sha256 owner lossy fs (ms ++ ns) =
      (h.readAll sha256 owner lossy fs ms).readAll sha256 owner lossy fs ns :=
  List.foldl_append

/-- What quitting leaves stored. -/
theorem Helper.readAll_quits {h : Helper} {ms : List HelperRead} (hms : RemoteTask.Quits ms)
    (hstored : h.task.directory.stored = none) : (h.readAll sha256 owner lossy fs ms).task.directory.stored = none := by
  have hdrop : ∀ (w : UploadWriter) (env : DropEnv), (w.drop h.task.directory env).stored = none := by
    intro w env
    cases hs : (w.drop h.task.directory env).stored with
    | none => rfl
    | some bytes => exact hstored ▸ (stored_of_drop hs).symm
  rcases hms with rfl | ⟨uploadId, rfl⟩
  · exact hstored
  · cases hw : h.task.writer with
    | none =>
      rw [Helper.readAll_left hw]
      exact hstored
    | some w =>
      have hleft : (h.read sha256 owner lossy fs (.abort uploadId)).task.writer = none := by
        simp only [Helper.read, HelperTask.step, hw]
        rfl
      have hread : (h.read sha256 owner lossy fs (.abort uploadId)).task.directory.stored = none := by
        simp only [Helper.read, HelperTask.step, hw]
        exact hdrop w _
      show (Helper.readAll sha256 owner lossy fs (h.read sha256 owner lossy fs (.abort uploadId))
        [.closed]).task.directory.stored = none
      rw [Helper.readAll_left hleft]
      exact hread

variable (sha256 owner lossy fs)

/-- The helper, once it has read what was sent. -/
def RemoteTask.caughtUp (t : RemoteTask) : Helper := t.helper.readAll sha256 owner lossy fs t.inbox

/-- How the two stand to each other: the second as it will be when its helper has caught up. -/
inductive Related (n₁ n₂ : UInt32) (same : UploadTask) (caught : Helper) : RemotePhase → Prop
  | running (w : UploadWriter) (hphase : same.phase = .running w) (hlimit : w.maximumChunkBytes = n₁)
      (hcaught : caught = ⟨⟨some (withLimit w n₂), same.directory, same.accepted, none⟩, none⟩) :
      Related n₁ n₂ same caught (.running ⟨w.uploadId.toWire, n₂, w.written⟩)
  | committing (id : List UInt8) (path : String) (bytes : UInt64) (sha : List UInt8)
      (hresult : same.result = some (.finished id path bytes sha)) (hid : id.length = 16)
      (hsha : sha.length = uploadSha256Bytes) (hleft : caught.task.writer = none)
      (hreply : caught.reply = some (.finished id path bytes sha))
      (hstored : caught.task.directory.stored = same.directory.stored) :
      Related n₁ n₂ same caught .finishing
  | committed (id : List UInt8) (path : String) (bytes : UInt64) (sha : List UInt8)
      (hresult : same.result = some (.finished id path bytes sha))
      (hstored : caught.task.directory.stored = same.directory.stored) :
      Related n₁ n₂ same caught (.reporting (.finished id path bytes sha))
  | failed {phase : RemotePhase} (hresult : ∃ code text retry, same.result = some (.error code text retry))
      (hleft : (∃ r, phase = .running r) ∨ phase = .finishing →
        caught.task.writer = none ∧ ∃ r, caught.reply = some (.error r))
      (hrunning : ∀ r, phase = .running r → r.uploadId.length = 16)
      (hreply : ∀ reply, phase = .reporting reply → ∃ code text retry, reply = .error code text retry)
      (hstored : caught.task.directory.stored = same.directory.stored) :
      Related n₁ n₂ same caught phase
  | cancelled (hphase : same.phase = .ended) (hstored : caught.task.directory.stored = same.directory.stored) :
      Related n₁ n₂ same caught .ended

/-- The drop of a file with nothing stored leaves nothing stored. -/
theorem drop_stored_none {d : Directory} (hd : d.stored = none) (w : UploadWriter) (env : DropEnv) :
    (w.drop d env).stored = none := by
  cases hs : (w.drop d env).stored with
  | none => rfl
  | some bytes => exact hd ▸ (stored_of_drop hs).symm

variable {sha256 owner lossy fs}

theorem RemoteTask.caughtUp_append (t : RemoteTask) (ms : List HelperRead) (phase : RemotePhase) :
    ({ t with inbox := t.inbox ++ ms, phase := phase } : RemoteTask).caughtUp sha256 owner lossy fs =
      (t.caughtUp sha256 owner lossy fs).readAll sha256 owner lossy fs ms :=
  Helper.readAll_append _ _ _

/-- The handle passes what the writer accepts. -/
theorem checkChunk_of_validateChunk {c : UploadChunk} {id : UploadId} {offset total : UInt64} {n : UInt32}
    (hn : n.toNat ≤ spawnerChunkBytesMax) (h : validateChunk c id offset n total = .ok ()) :
    (⟨id.toWire, n, offset⟩ : RemoteUpload).checkChunk c = .ok () ∧
      checkedAdd offset (UInt64.ofNat c.data.length) = some (offset + UInt64.ofNat c.data.length) := by
  obtain ⟨hid, hoff, hpos, hmax, hsum, hle⟩ := validateChunk_ok h
  have hlen := validateChunk_length h
  refine ⟨?_, ?_⟩
  · unfold RemoteUpload.checkChunk
    have hempty : c.data.isEmpty = false := by
      rw [List.isEmpty_eq_false_iff]
      exact List.ne_nil_of_length_pos hpos
    rw [if_neg (not_not.mpr hid), if_neg (not_not.mpr hoff), if_neg]
    rw [hempty]
    simp only [Bool.false_eq_true, false_or]
    omega
  · have hu64 : (UInt64.ofNat c.data.length).toNat = c.data.length := by
      apply UInt64.toNat_ofNat_of_lt'
      simp only [uploadChunkBytesMax, UInt64.size] at *
      omega
    have htotal := total.toNat_lt
    rw [checkedAdd, hu64, if_pos (by omega)]

/-! ## One command -/

section

variable {n₁ n₂ : UInt32} {w₀ w : UploadWriter} {same : UploadTask} {t : RemoteTask}

theorem atWork_of_running (hinv : UploadTask.TaskInv sha256 w₀ same) (hphase : same.phase = .running w) :
    AtWork w₀ same.accepted w same.directory := by
  have hp := hinv.phase
  rw [hphase] at hp
  exact hp.2.2

theorem related_chunk (hinv : UploadTask.TaskInv sha256 w₀ same) (hle : n₂.toNat ≤ n₁.toNat)
    (hmax : n₂.toNat ≤ spawnerChunkBytesMax) (hphase : same.phase = .running w) (hlimit : w.maximumChunkBytes = n₁)
    (hcaught : t.caughtUp sha256 owner lossy fs = ⟨⟨some (withLimit w n₂), same.directory, same.accepted, none⟩, none⟩)
    {c : UploadChunk} (hfit : FitsBoth n₁ n₂ c.data) :
    let t' := t.chunk ⟨w.uploadId.toWire, n₂, w.written⟩ c
    Related n₁ n₂ (same.chunk w c (fs.io same.accepted.length)) (t'.caughtUp sha256 owner lossy fs) t'.phase := by
  have hstored := (atWork_of_running hinv hphase).inv.stored
  have hid : w.uploadId.toWire.length = 16 := by simp [UploadId.toWire, Protocol.toWire]
  have halive : t.helper.task.writer ≠ none := by
    intro hleft
    rw [RemoteTask.caughtUp, Helper.readAll_left hleft] at hcaught
    rw [hcaught] at hleft
    cases hleft
  rcases @writeChunk_limit w same.directory c n₂ (fs.write same.accepted.length)
      (by rw [hlimit]; exact hle) (by rw [hlimit]; exact hfit)
    with ⟨w', d', hw, hw'⟩ | ⟨⟨e, he⟩, e', he'⟩
  · -- the chunk is written, by the one now and by the other when it gets to it
    obtain ⟨hv, rfl⟩ := writeChunk_ok hw
    obtain ⟨hcheck, hadd⟩ := checkChunk_of_validateChunk hmax (writeChunk_ok hw').1
    have hsame : same.chunk w c (fs.io same.accepted.length) =
        { same with
          phase := .running { w with hashed := w.hashed ++ c.data, written := w.written + UInt64.ofNat c.data.length }
          directory := d', accepted := same.accepted ++ [c.data] } := by
      simp only [UploadTask.chunk, FileSystem.io, hw]
    rcases t.chunk_cases (r := ⟨w.uploadId.toWire, n₂, w.written⟩) hid c
      with ⟨_, _, _, _, hbad⟩ | ⟨_, ⟨_, _, _, hover, _⟩ | ⟨next, hnext, heq⟩⟩
    · rcases hbad with ⟨e, he⟩ | hleft
      · exact absurd (hcheck.symm.trans he) (by simp)
      · exact absurd hleft halive
    · exact absurd (hadd.symm.trans hover) (by simp)
    · simp only [heq, hsame]
      cases hadd.symm.trans hnext
      refine .running { w with hashed := w.hashed ++ c.data, written := w.written + UInt64.ofNat c.data.length } rfl
        hlimit ?_
      rw [RemoteTask.caughtUp_append, hcaught]
      simp only [Helper.readAll, List.foldl_cons, List.foldl_nil, Helper.read, HelperTask.step, HelperTask.sends,
        FileSystem.input, hw']
      rfl
  · -- both refuse it: the handle, or the helper later
    have hresult : ∃ code text retry,
        (same.chunk w c (fs.io same.accepted.length)).result = some (.error code text retry) ∧
        (same.chunk w c (fs.io same.accepted.length)).directory.stored = none := by
      have hd := @writeChunk_stored w same.directory c (fs.write same.accepted.length)
      generalize hr : w.writeChunk same.directory c (fs.write same.accepted.length) = r at he hd
      obtain ⟨res, w', d'⟩ := r
      cases he
      simp only [UploadTask.chunk, FileSystem.io, hr]
      exact ⟨_, _, _, rfl, hd.trans hstored⟩
    obtain ⟨code, text, retry, hresult, hnone⟩ := hresult
    have hsent : ∀ phase : RemotePhase,
        (({ t with
          inbox := t.inbox ++ [.chunk c], phase := phase } : RemoteTask).caughtUp sha256 owner lossy fs).task.writer =
          none ∧
        (({ t with
          inbox := t.inbox ++ [.chunk c], phase :=
          phase } : RemoteTask).caughtUp sha256 owner lossy fs).task.directory.stored = none ∧
        ∃ r, (({ t with inbox := t.inbox ++ [.chunk c], phase := phase } : RemoteTask).caughtUp sha256 owner lossy fs).reply =
          some (.error r) := by
      intro phase
      have hd := @writeChunk_stored (withLimit w n₂) same.directory c (fs.write same.accepted.length)
      generalize hr : (withLimit w n₂).writeChunk same.directory c (fs.write same.accepted.length) = r at he' hd
      obtain ⟨res, w', d'⟩ := r
      cases he'
      rw [RemoteTask.caughtUp_append, hcaught]
      simp only [Helper.readAll, List.foldl_cons, List.foldl_nil, Helper.read, HelperTask.step, HelperTask.sends,
        FileSystem.input, hr]
      exact ⟨rfl, drop_stored_none (hd.trans hstored) _ _, _, rfl⟩
    rcases t.chunk_cases (r := ⟨w.uploadId.toWire, n₂, w.written⟩) hid c
      with ⟨text', ms, hms, heq, _⟩ | ⟨_, ⟨text', ms, hms, _, heq⟩ | ⟨next, _, heq⟩⟩
    · simp only [heq]
      refine .failed ⟨_, _, _, hresult⟩ (by simp) (by simp) (fun reply hreply => ?_) ?_
      · cases hreply
        exact ⟨_, _, _, rfl⟩
      · rw [RemoteTask.caughtUp_append, hnone]
        exact Helper.readAll_quits hms (by rw [hcaught]; exact hstored)
    · simp only [heq]
      refine .failed ⟨_, _, _, hresult⟩ (by simp) (by simp) (fun reply hreply => ?_) ?_
      · cases hreply
        exact ⟨_, _, _, rfl⟩
      · obtain ⟨hleft, hnil, _⟩ := hsent t.phase
        rw [RemoteTask.caughtUp_append { t with inbox := t.inbox ++ [.chunk c] } ms, hnone]
        exact Helper.readAll_quits hms hnil
    · simp only [heq]
      obtain ⟨hleft, hnil, hreply⟩ := hsent (.running ⟨w.uploadId.toWire, n₂, next⟩)
      refine .failed ⟨_, _, _, hresult⟩ (fun _ => ⟨hleft, hreply⟩) (fun r hr => ?_) (by simp) (hnil.trans hnone.symm)
      cases hr
      exact hid

/-- Both finish the same way. -/
theorem related_finish (hinv : UploadTask.TaskInv sha256 w₀ same) (hsha : w₀.expectedSha256.length = uploadSha256Bytes)
    (hpath : w₀.remotePath.isSome = true) (hfs : fs.Shared) (hphase : same.phase = .running w)
    (hcaught : t.caughtUp sha256 owner lossy fs = ⟨⟨some (withLimit w n₂), same.directory, same.accepted, none⟩, none⟩)
    (uploadId : List UInt8) :
    let t' := t.finish ⟨w.uploadId.toWire, n₂, w.written⟩ uploadId
    Related n₁ n₂ (same.finish sha256 w uploadId (fs.io same.accepted.length)) (t'.caughtUp sha256 owner lossy fs)
      t'.phase := by
  have hat := atWork_of_running hinv hphase
  have hid : w.uploadId.toWire.length = 16 := by simp [UploadId.toWire, Protocol.toWire]
  have hok := @finishInner_ok w same.directory sha256 fs.finish uploadId none
  have hhelper := @finishInner_limit w same.directory n₂ sha256 fs.finish hfs.chownFile hfs.chownDirectory uploadId owner
  rcases t.finish_cases (r := ⟨w.uploadId.toWire, n₂, w.written⟩) hid uploadId
    with ⟨hne, ms, hms, heq⟩ | ⟨_, ⟨_, hleft, _⟩ | heq⟩
  · have hwrong : w.finishInner sha256 same.directory uploadId none fs.finish =
        (.error (.invalidUpload .invalidUploadId), w, same.directory) := by
      rw [finishInner, if_pos hne]
    have hsame : same.finish sha256 w uploadId (fs.io same.accepted.length) =
        ({ same with directory := w.drop same.directory fs.drop }).fail none (.store (.invalidUpload .invalidUploadId)) := by
      simp only [UploadTask.finish, FileSystem.io, hwrong]
    simp only [heq, hsame]
    refine .failed ⟨_, _, _, rfl⟩ (by simp) (by simp) (fun reply hreply => ?_) ?_
    · cases hreply
      exact ⟨_, _, _, rfl⟩
    · rw [RemoteTask.caughtUp_append, Helper.readAll_quits hms (by rw [hcaught]; exact hat.inv.stored)]
      exact (drop_stored_none hat.inv.stored w fs.drop).symm
  · rw [RemoteTask.caughtUp, Helper.readAll_left hleft] at hcaught
    rw [hcaught] at hleft
    cases hleft
  · simp only [heq]
    rw [RemoteTask.caughtUp_append, hcaught]
    simp only [Helper.readAll, List.foldl_cons, List.foldl_nil, Helper.read, HelperTask.step, HelperTask.sends,
      FileSystem.input, hhelper, UploadTask.finish, FileSystem.io]
    generalize w.finishInner sha256 same.directory uploadId none fs.finish = res at hok
    obtain ⟨r, w', d'⟩ := res
    cases r with
    | error e =>
      refine .failed ⟨_, _, _, rfl⟩ (fun _ => ⟨rfl, _, rfl⟩) (by simp) (by simp) rfl
    | ok c =>
      obtain ⟨hcid, hcpath, hcsha⟩ := hok rfl
      have hsome : c.remotePath.isSome = true := by
        rw [hcpath, hat.same.path]
        exact hpath
      obtain ⟨path, hpath⟩ := Option.isSome_iff_exists.mp hsome
      simp only [hpath, Option.getD_some]
      refine .committing _ _ _ _ rfl ?_ ?_ rfl rfl rfl
      · rw [hcid]
        exact hid
      · rw [hcsha, hat.same.sha]
        exact hsha

/-- Giving up. -/
theorem related_giveUp (hinv : UploadTask.TaskInv sha256 w₀ same) (hphase : same.phase = .running w)
    (hcaught : t.caughtUp sha256 owner lossy fs = ⟨⟨some (withLimit w n₂), same.directory, same.accepted, none⟩, none⟩)
    (r : RemoteUpload) (outcome : Option UploadOutcome) :
    Related n₁ n₂ (({ same with outcome := outcome }).dropHeld (some w) fs.drop)
      (({ t.drop r with phase := .ended } : RemoteTask).caughtUp sha256 owner lossy fs) .ended := by
  have hat := atWork_of_running hinv hphase
  obtain ⟨ms, hms, heq⟩ := t.drop_cases r
  refine .cancelled rfl ?_
  rw [heq, RemoteTask.caughtUp_append, Helper.readAll_quits hms (by rw [hcaught]; exact hat.inv.stored)]
  exact (drop_stored_none hat.inv.stored w fs.drop).symm

theorem step_of_result {reply : UploadReply} (h : same.result = some reply) (c : Option UploadCommand) (io : UploadIo) :
    (same.step sha256 (.recv c io)).1 = same := by
  obtain ⟨phase, d, accepted, outcome, finished⟩ := same
  cases phase with
  | running w => cases h
  | reporting held reply => rfl
  | ended => cases h

/-- Once the first has failed, the helper goes nowhere, whatever the handle sends it. -/
theorem related_afterFailure {phase : RemotePhase} (hphase : t.phase = phase)
    (hresult : ∃ code text retry, same.result = some (.error code text retry))
    (hleft : (∃ r, phase = .running r) ∨ phase = .finishing → (t.caughtUp sha256 owner lossy fs).task.writer = none ∧
      ∃ r, (t.caughtUp sha256 owner lossy fs).reply = some (.error r))
    (hrunning : ∀ r, phase = .running r → r.uploadId.length = 16)
    (hreply : ∀ reply, phase = .reporting reply → ∃ code text retry, reply = .error code text retry)
    (hstored : (t.caughtUp sha256 owner lossy fs).task.directory.stored = same.directory.stored)
    (c : Option UploadCommand) :
    Related n₁ n₂ same ((t.command c).caughtUp sha256 owner lossy fs) (t.command c).phase := by
  cases phase with
  | finishing =>
    rw [show t.command c = t by simp only [RemoteTask.command, hphase], hphase]
    exact .failed hresult hleft hrunning hreply hstored
  | reporting reply =>
    rw [show t.command c = t by simp only [RemoteTask.command, hphase], hphase]
    exact .failed hresult hleft hrunning hreply hstored
  | ended =>
    rw [show t.command c = t by simp only [RemoteTask.command, hphase], hphase]
    exact .failed hresult hleft hrunning hreply hstored
  | running r =>
    have hid := hrunning r rfl
    obtain ⟨hgone, hanswer⟩ := hleft (.inl ⟨r, rfl⟩)
    -- what is sent now is never read
    have hsame : ∀ ms phase, ({ t with inbox := t.inbox ++ ms, phase := phase } : RemoteTask).caughtUp sha256 owner lossy fs =
        t.caughtUp sha256 owner lossy fs := by
      intro ms phase
      rw [RemoteTask.caughtUp_append, Helper.readAll_left hgone]
    have herror : ∀ ms e, Related n₁ n₂ same
        (({ t with inbox := t.inbox ++ ms, phase := .reporting (.ofError e) } : RemoteTask).caughtUp sha256 owner lossy fs)
        (.reporting (.ofError e)) := by
      intro ms e
      rw [hsame]
      refine .failed hresult (by simp) (by simp) (fun reply hreply => ?_) hstored
      cases hreply
      exact ⟨_, _, _, rfl⟩
    have hended : Related n₁ n₂ same
        (({ t.drop r with phase := .ended } : RemoteTask).caughtUp sha256 owner lossy fs) .ended := by
      obtain ⟨ms, _, heq⟩ := t.drop_cases r
      rw [heq, hsame ms .ended]
      exact .failed hresult (by simp) (by simp) (by simp) hstored
    cases c with
    | none =>
      simp only [RemoteTask.command, hphase]
      exact hended
    | some c =>
      cases c with
      | abort =>
        simp only [RemoteTask.command, hphase]
        exact hended
      | chunk c =>
        simp only [RemoteTask.command, hphase]
        rcases t.chunk_cases hid c with ⟨text, ms, _, heq, _⟩ | ⟨_, ⟨text, ms, _, _, heq⟩ | ⟨next, _, heq⟩⟩
        · rw [heq]
          exact herror _ _
        · rw [heq, List.append_assoc]
          exact herror _ _
        · rw [heq, hsame]
          refine .failed hresult (fun _ => ⟨hgone, hanswer⟩) (fun r' hr => ?_) (by simp) hstored
          cases hr
          exact hid
      | finish uploadId =>
        simp only [RemoteTask.command, hphase]
        rcases t.finish_cases hid uploadId with ⟨_, ms, _, heq⟩ | ⟨_, ⟨text, _, heq⟩ | heq⟩
        · rw [heq]
          exact herror _ _
        · rw [heq]
          have := herror [] (.spawner false text)
          rwa [List.append_nil] at this
        · rw [heq, hsame]
          exact .failed hresult (fun _ => ⟨hgone, hanswer⟩) (by simp) (by simp) hstored

theorem related_command (hinv : UploadTask.TaskInv sha256 w₀ same) (hsha : w₀.expectedSha256.length = uploadSha256Bytes)
    (hpath : w₀.remotePath.isSome = true) (hfs : fs.Shared) (hle : n₂.toNat ≤ n₁.toNat)
    (hmax : n₂.toNat ≤ spawnerChunkBytesMax)
    (h : Related n₁ n₂ same (t.caughtUp sha256 owner lossy fs) t.phase) {c : Option UploadCommand}
    (hfit : ∀ chunk, c = some (.chunk chunk) → FitsBoth n₁ n₂ chunk.data) :
    Related n₁ n₂ (same.step sha256 (.recv c (fs.io same.accepted.length))).1
      ((t.command c).caughtUp sha256 owner lossy fs) (t.command c).phase := by
  generalize hp : t.phase = phase at h
  cases h with
  | running w hphase hlimit hcaught =>
    cases c with
    | none =>
      simp only [UploadTask.step, hphase, RemoteTask.command, hp]
      exact related_giveUp hinv hphase hcaught _ _
    | some c =>
      cases c with
      | abort =>
        simp only [UploadTask.step, hphase, RemoteTask.command, hp]
        exact related_giveUp hinv hphase hcaught _ _
      | chunk c =>
        simp only [UploadTask.step, hphase, RemoteTask.command, hp]
        exact related_chunk hinv hle hmax hphase hlimit hcaught (hfit c rfl)
      | finish uploadId =>
        simp only [UploadTask.step, hphase, RemoteTask.command, hp]
        exact related_finish hinv hsha hpath hfs hphase hcaught uploadId
  | committing id path bytes sha hresult hid hsha hleft hreply hstored =>
    rw [step_of_result hresult, show t.command c = t by simp only [RemoteTask.command, hp], hp]
    exact .committing id path bytes sha hresult hid hsha hleft hreply hstored
  | committed id path bytes sha hresult hstored =>
    rw [step_of_result hresult, show t.command c = t by simp only [RemoteTask.command, hp], hp]
    exact .committed id path bytes sha hresult hstored
  | failed hresult hleft hrunning hreply hstored =>
    obtain ⟨code, text, retry, hres⟩ := hresult
    rw [step_of_result hres]
    exact related_afterFailure hp ⟨code, text, retry, hres⟩ hleft hrunning hreply hstored c
  | cancelled hphase hstored =>
    rw [show t.command c = t by simp only [RemoteTask.command, hp], hp]
    have hsame : (same.step sha256 (.recv c (fs.io same.accepted.length))).1 = same := by
      simp only [UploadTask.step, hphase]
    rw [hsame]
    exact .cancelled hphase hstored

theorem caughtUp_help : (t.help sha256 owner lossy fs).caughtUp sha256 owner lossy fs = t.caughtUp sha256 owner lossy fs ∧
    (t.help sha256 owner lossy fs).phase = t.phase := by
  unfold RemoteTask.help
  split
  · rename_i m rest w hinbox hw
    refine ⟨?_, rfl⟩
    rw [RemoteTask.caughtUp, RemoteTask.caughtUp, hinbox]
    rfl
  · exact ⟨rfl, rfl⟩

/-- A reply that was taken is the one the helper was to give. -/
theorem related_receive (h : Related n₁ n₂ same (t.caughtUp sha256 owner lossy fs) t.phase)
    (hread : ∀ id path bytes sha, t.helper.reply = some (.finished id path bytes sha) → t.inbox = []) (reset : Bool) :
    Related n₁ n₂ same ((t.receive reset).caughtUp sha256 owner lossy fs) (t.receive reset).phase := by
  unfold RemoteTask.receive
  by_cases hwait : t.phase ≠ .finishing ∨ t.helper.task.writer.isSome
  · rw [if_pos hwait]
    exact h
  · rw [if_neg hwait]
    simp only [not_or, not_not, Bool.not_eq_true, Option.isSome_eq_false_iff, Option.isNone_iff_eq_none] at hwait
    obtain ⟨hp, hleft⟩ := hwait
    have hcaught : t.caughtUp sha256 owner lossy fs = t.helper := Helper.readAll_left hleft _
    have hkeep : ∀ phase, ({ t with phase := phase } : RemoteTask).caughtUp sha256 owner lossy fs = t.helper :=
      fun _ => Helper.readAll_left hleft _
    rw [hp, hcaught] at h
    cases h with
    | committing id path bytes sha hresult hid hsha _ hreply hstored =>
      rw [if_neg (fun hr => hr.2 (hread id path bytes sha hreply))]
      simp only [hreply]
      rw [if_pos ⟨hid, hsha⟩, hkeep]
      exact .committed id path bytes sha hresult hstored
    | failed hresult hgone _ _ hstored =>
      have herror : ∀ e, Related n₁ n₂ same ((t.report e).caughtUp sha256 owner lossy fs) (t.report e).phase := by
        intro e
        rw [show (t.report e).caughtUp sha256 owner lossy fs = t.helper from hkeep _]
        refine .failed hresult (by simp [RemoteTask.report]) (by simp [RemoteTask.report]) (fun reply hreply => ?_) hstored
        cases hreply
        exact ⟨_, _, _, rfl⟩
      obtain ⟨_, r, hreply⟩ := hgone (.inr rfl)
      split
      · exact herror _
      · simp only [hreply]
        exact herror _

end

/-! ## Nothing behind a finish -/

def HelperRead.isFinish : HelperRead → Bool
  | .finish _ => true
  | _ => false

def Helper.Finished (h : Helper) : Prop :=
  ∃ id path bytes sha, h.reply = some (.finished id path bytes sha)

structure Shape (t : RemoteTask) : Prop where
  running : ∀ r, t.phase = .running r → (∀ m ∈ t.inbox, m.isFinish = false) ∧ ¬ t.helper.Finished
  last : ∀ m ∈ t.inbox.dropLast, m.isFinish = false
  replied : t.helper.Finished → t.inbox = []

section

variable {t : RemoteTask}

theorem read_finished {h : Helper} {m : HelperRead} (hread : (h.read sha256 owner lossy fs m).Finished) :
    h.Finished ∨ m.isFinish = true := by
  obtain ⟨id, path, bytes, sha, hreply⟩ := hread
  simp only [Helper.read, Option.or_eq_some_iff] at hreply
  rcases hreply with hreply | ⟨_, hsends⟩
  · exact .inl ⟨id, path, bytes, sha, hreply⟩
  · refine .inr ?_
    unfold HelperTask.sends FileSystem.input at hsends
    cases hw : h.task.writer with
    | none =>
      rw [hw] at hsends
      cases hsends
    | some w =>
      rw [hw] at hsends
      cases m with
      | finish uploadId => rfl
      | chunk c =>
        simp only at hsends
        split at hsends <;> cases hsends
      | abort uploadId =>
        simp only at hsends
        split at hsends <;> cases hsends
      | closed => cases hsends
      | unusable => cases hsends

theorem quits_isFinish {ms : List HelperRead} (hms : RemoteTask.Quits ms) : ∀ m ∈ ms, m.isFinish = false := by
  rcases hms with rfl | ⟨uploadId, rfl⟩
  · exact List.forall_mem_nil _
  · intro m hm
    simp only [List.mem_cons, List.not_mem_nil, or_false] at hm
    rcases hm with rfl | rfl <;> rfl

/-- What a handle at work sends keeps the shape, and so does a finish that is the last. -/
theorem shape_sent {r : RemoteUpload} (h : Shape t) (hp : t.phase = .running r) {ms : List HelperRead} {phase : RemotePhase}
    (hms : (∀ m ∈ ms, m.isFinish = false) ∨ (∃ id, ms = [.finish id]) ∧ phase = .finishing) :
    Shape { t with inbox := t.inbox ++ ms, phase := phase } := by
  obtain ⟨hinbox, hreply⟩ := h.running r hp
  rcases hms with hms | ⟨⟨id, rfl⟩, rfl⟩
  · have hall : ∀ m ∈ t.inbox ++ ms, m.isFinish = false := by
      intro m hm
      rcases List.mem_append.mp hm with hm | hm
      · exact hinbox m hm
      · exact hms m hm
    exact ⟨fun _ _ => ⟨hall, hreply⟩, fun m hm => hall m (List.mem_of_mem_dropLast hm), fun hf => absurd hf hreply⟩
  · refine ⟨fun _ hr => (by cases hr), ?_, fun hf => absurd hf hreply⟩
    rw [List.dropLast_concat]
    exact hinbox

theorem shape_command (h : Shape t) (hid : ∀ r, t.phase = .running r → r.uploadId.length = 16) (c : Option UploadCommand) :
    Shape (t.command c) := by
  cases hp : t.phase with
  | finishing => rwa [show t.command c = t by simp only [RemoteTask.command, hp]]
  | reporting reply => rwa [show t.command c = t by simp only [RemoteTask.command, hp]]
  | ended => rwa [show t.command c = t by simp only [RemoteTask.command, hp]]
  | running r =>
    have hgiveUp : Shape ({ t.drop r with phase := .ended } : RemoteTask) := by
      obtain ⟨ms, hms, heq⟩ := t.drop_cases r
      rw [heq]
      exact shape_sent h hp (.inl (quits_isFinish hms))
    have hchunk : ∀ (c : UploadChunk) (ms : List HelperRead), RemoteTask.Quits ms →
        ∀ m ∈ [HelperRead.chunk c] ++ ms, m.isFinish = false := by
      intro c ms hms m hm
      rcases List.mem_append.mp hm with hm | hm
      · rw [List.mem_singleton.mp hm]
        rfl
      · exact quits_isFinish hms m hm
    cases c with
    | none =>
      simp only [RemoteTask.command, hp]
      exact hgiveUp
    | some c =>
      cases c with
      | abort =>
        simp only [RemoteTask.command, hp]
        exact hgiveUp
      | chunk c =>
        simp only [RemoteTask.command, hp]
        rcases t.chunk_cases (hid r hp) c with ⟨text, ms, hms, heq, _⟩ | ⟨_, ⟨text, ms, hms, _, heq⟩ | ⟨next, _, heq⟩⟩
        · rw [heq]
          exact shape_sent h hp (.inl (quits_isFinish hms))
        · rw [heq, List.append_assoc]
          exact shape_sent h hp (.inl (hchunk c ms hms))
        · rw [heq]
          exact shape_sent h hp (.inl (hchunk c [] (.inl rfl)))
      | finish uploadId =>
        simp only [RemoteTask.command, hp]
        rcases t.finish_cases (hid r hp) uploadId with ⟨_, ms, hms, heq⟩ | ⟨_, ⟨text, _, heq⟩ | heq⟩
        · rw [heq]
          exact shape_sent h hp (.inl (quits_isFinish hms))
        · rw [heq]
          have := @shape_sent t r h hp [] (.reporting (.ofError (.spawner false text))) (.inl (List.forall_mem_nil _))
          rwa [List.append_nil] at this
        · rw [heq]
          exact shape_sent h hp (.inr ⟨⟨uploadId, rfl⟩, rfl⟩)

theorem shape_help (h : Shape t) : Shape (t.help sha256 owner lossy fs) := by
  unfold RemoteTask.help
  split
  · rename_i m rest w hinbox hw
    have hlast := h.last
    rw [hinbox] at hlast
    refine ⟨?_, ?_, ?_⟩
    · intro r hr
      obtain ⟨hnone, hreply⟩ := h.running r hr
      rw [hinbox] at hnone
      refine ⟨fun m' hm' => hnone m' (List.mem_cons_of_mem _ hm'), ?_⟩
      intro hf
      rcases read_finished hf with hf | hm
      · exact hreply hf
      · rw [hnone m List.mem_cons_self] at hm
        cases hm
    · intro m' hm'
      cases rest with
      | nil => cases hm'
      | cons m₂ rest => exact hlast m' (List.mem_cons_of_mem _ hm')
    · intro hf
      rcases read_finished hf with hf | hm
      · rw [h.replied hf] at hinbox
        cases hinbox
      · cases rest with
        | nil => rfl
        | cons m₂ rest =>
          rw [hlast m List.mem_cons_self] at hm
          cases hm
  · exact h

theorem receive_keeps (t : RemoteTask) (reset : Bool) : (t.receive reset).inbox = t.inbox ∧ (t.receive reset).helper = t.helper ∧
    ∀ r, (t.receive reset).phase = .running r → t.phase = .running r := by
  unfold RemoteTask.receive
  split
  · exact ⟨rfl, rfl, fun _ hr => hr⟩
  · split
    · exact ⟨rfl, rfl, fun _ hr => by cases hr⟩
    · split
      · exact ⟨rfl, rfl, fun _ hr => by cases hr⟩
      · exact ⟨rfl, rfl, fun _ hr => by cases hr⟩
      · split <;> exact ⟨rfl, rfl, fun _ hr => by cases hr⟩

theorem shape_receive (h : Shape t) (reset : Bool) : Shape (t.receive reset) := by
  obtain ⟨hinbox, hhelper, hphase⟩ := receive_keeps t reset
  refine ⟨?_, ?_, ?_⟩
  · intro r hr
    rw [hinbox, hhelper]
    exact h.running r (hphase r hr)
  · rw [hinbox]
    exact h.last
  · rw [hinbox, hhelper]
    exact h.replied

end

/-! ## Every interleaving -/

namespace Backends

variable (sha256 owner lossy fs)

structure Sim (w₀ : UploadWriter) (n₁ n₂ : UInt32) (b : Backends) : Prop where
  task : UploadTask.TaskInv sha256 w₀ b.same
  related : Related n₁ n₂ b.same (b.remote.caughtUp sha256 owner lossy fs) b.remote.phase
  shape : Shape b.remote

variable {sha256 owner lossy fs} {w₀ : UploadWriter} {n₁ n₂ : UInt32} {b : Backends}

theorem Sim.uploadId_length (h : Sim sha256 owner lossy fs w₀ n₁ n₂ b) {r : RemoteUpload} (hr : b.remote.phase = .running r) :
    r.uploadId.length = 16 := by
  have hrel := h.related
  rw [hr] at hrel
  cases hrel with
  | running w _ _ _ => simp [UploadId.toWire, Protocol.toWire]
  | failed _ _ hrunning _ _ => exact hrunning r rfl

/-- What both agree on when they have begun alike. -/
structure Alike (fs : FileSystem) (w₀ : UploadWriter) (n₁ n₂ : UInt32) : Prop where
  sha : w₀.expectedSha256.length = uploadSha256Bytes
  path : w₀.remotePath.isSome = true
  shared : fs.Shared
  le : n₂.toNat ≤ n₁.toNat
  max : n₂.toNat ≤ spawnerChunkBytesMax

theorem related_step (hw : Alike fs w₀ n₁ n₂) (h : Sim sha256 owner lossy fs w₀ n₁ n₂ b) {i : BackendInput}
    (hfit : ∀ c, i = .command (some (.chunk c)) → FitsBoth n₁ n₂ c.data) :
    Sim sha256 owner lossy fs w₀ n₁ n₂ (b.step sha256 owner lossy fs i).1 := by
  cases i with
  | command c =>
    refine ⟨(UploadTask.taskInv_step h.task _).1, ?_, shape_command h.shape (fun r hr => h.uploadId_length hr) c⟩
    exact related_command h.task hw.sha hw.path hw.shared hw.le hw.max h.related fun chunk hc => hfit chunk (by rw [hc])
  | help =>
    refine ⟨h.task, ?_, shape_help h.shape⟩
    obtain ⟨hcaught, hphase⟩ := @caughtUp_help sha256 owner lossy fs b.remote
    simp only [step]
    rw [hcaught, hphase]
    exact h.related
  | receive reset =>
    refine ⟨h.task, ?_, shape_receive h.shape reset⟩
    exact related_receive h.related (fun id path bytes sha hreply => h.shape.replied ⟨id, path, bytes, sha, hreply⟩) reset

theorem related_run (hw : Alike fs w₀ n₁ n₂) (h : Sim sha256 owner lossy fs w₀ n₁ n₂ b) {is : List BackendInput}
    (hfit : ∀ c, .command (some (.chunk c)) ∈ is → FitsBoth n₁ n₂ c.data) :
    Sim sha256 owner lossy fs w₀ n₁ n₂ ((machine sha256 owner lossy fs).run b is) := by
  induction is generalizing b with
  | nil => exact h
  | cons i is ih =>
    refine ih (related_step hw h fun c hc => hfit c ?_) fun c hc => hfit c (List.mem_cons_of_mem _ hc)
    rw [hc]
    exact List.mem_cons_self

/-! ## Coming to rest -/

/-- The helper has read everything, or left. -/
def AtRest (t : RemoteTask) : Prop := t.inbox = [] ∨ t.helper.task.writer = none

theorem atRest_help {t : RemoteTask} (h : AtRest t) : t.help sha256 owner lossy fs = t := by
  unfold RemoteTask.help
  rcases h with hinbox | hleft
  · rw [hinbox]
  · rw [hleft]
    split
    · rename_i hw
      cases hw
    · rfl

theorem help_inbox {t : RemoteTask} (h : ¬ AtRest t) :
    (t.help sha256 owner lossy fs).inbox.length + 1 = t.inbox.length := by
  unfold RemoteTask.help
  split
  · rename_i m rest w hinbox hw
    rw [hinbox]
    rfl
  · rename_i hno
    cases hinbox : t.inbox with
    | nil => exact absurd (.inl hinbox) h
    | cons m rest =>
      cases hw : t.helper.task.writer with
      | none => exact absurd (.inr hw) h
      | some w => exact absurd hw (hno m rest w hinbox)

theorem atRest_run (n : Nat) : ∀ {b : Backends}, AtRest b.remote ∨ b.remote.inbox.length ≤ n →
    AtRest ((machine sha256 owner lossy fs).run b (List.replicate n .help)).remote ∧
      ((machine sha256 owner lossy fs).run b (List.replicate n .help)).same = b.same := by
  induction n with
  | zero =>
    intro b hn
    rcases hn with hrest | hn
    · exact ⟨hrest, rfl⟩
    · exact ⟨.inl (List.length_eq_zero_iff.mp (Nat.le_zero.mp hn)), rfl⟩
  | succ n ih =>
    intro b hn
    rw [List.replicate_succ, Machine.run_cons]
    by_cases hrest : AtRest b.remote
    · have hnext : (machine sha256 owner lossy fs).next b .help = b := by
        show ({ b with remote := b.remote.help sha256 owner lossy fs } : Backends) = b
        rw [atRest_help hrest]
      rw [hnext]
      exact ih (.inl hrest)
    · have hless : (b.remote.help sha256 owner lossy fs).inbox.length + 1 = b.remote.inbox.length := help_inbox hrest
      have hlen : b.remote.inbox.length ≤ n + 1 := hn.resolve_left hrest
      exact ih (.inr (show (b.remote.help sha256 owner lossy fs).inbox.length ≤ n by omega))

theorem receive_phase {t : RemoteTask} (hleft : t.helper.task.writer = none) (reset : Bool) :
    (t.receive reset).phase ≠ .finishing := by
  unfold RemoteTask.receive
  by_cases hp : t.phase = .finishing
  · rw [if_neg (by simp [hp, hleft])]
    split
    · exact RemotePhase.noConfusion
    · split
      · exact RemotePhase.noConfusion
      · exact RemotePhase.noConfusion
      · split <;> exact RemotePhase.noConfusion
  · rw [if_pos (.inl hp)]
    exact hp

/-- At rest the helper is where it was to be, and has answered. -/
theorem settled_spec (hw : Alike fs w₀ n₁ n₂) (h : Sim sha256 owner lossy fs w₀ n₁ n₂ b) :
    Sim sha256 owner lossy fs w₀ n₁ n₂ (b.settled sha256 owner lossy fs) ∧
      (b.settled sha256 owner lossy fs).remote.caughtUp sha256 owner lossy fs =
        (b.settled sha256 owner lossy fs).remote.helper ∧
      (b.settled sha256 owner lossy fs).remote.phase ≠ .finishing ∧ (b.settled sha256 owner lossy fs).same = b.same := by
  have hhelps := @related_run sha256 owner lossy fs w₀ n₁ n₂ b hw h (List.replicate b.remote.inbox.length .help)
    fun c hc => absurd (List.eq_of_mem_replicate hc) BackendInput.noConfusion
  obtain ⟨hrest, hsame⟩ := @atRest_run sha256 owner lossy fs b.remote.inbox.length b (.inr (Nat.le_refl _))
  have hsettled := related_step (i := .receive false) hw hhelps fun c hc => absurd hc BackendInput.noConfusion
  have heq : b.settled sha256 owner lossy fs = ((machine sha256 owner lossy fs).run b
      (List.replicate b.remote.inbox.length .help) |>.step sha256 owner lossy fs (.receive false)).1 :=
    Machine.run_snoc _ _ _ _
  rw [heq]
  generalize (machine sha256 owner lossy fs).run b (List.replicate b.remote.inbox.length .help) = b' at *
  have hcaught : b'.remote.caughtUp sha256 owner lossy fs = b'.remote.helper := by
    rcases hrest with hinbox | hleft
    · rw [RemoteTask.caughtUp, hinbox]
      rfl
    · exact Helper.readAll_left hleft _
  obtain ⟨hinbox, hhelper, _⟩ := receive_keeps b'.remote false
  refine ⟨hsettled, ?_, ?_, hsame⟩
  · show (b'.remote.receive false).helper.readAll sha256 owner lossy fs (b'.remote.receive false).inbox =
      (b'.remote.receive false).helper
    rw [hinbox, hhelper]
    exact hcaught
  · show (b'.remote.receive false).phase ≠ .finishing
    by_cases hp : b'.remote.phase = .finishing
    · -- the helper leaves with the finish
      refine receive_phase ?_ false
      have hrel := hhelps.related
      rw [hp, hcaught] at hrel
      cases hrel with
      | committing _ _ _ _ _ _ _ hleft _ _ => exact hleft
      | failed _ hleft _ _ _ => exact (hleft (.inr rfl)).1
    · unfold RemoteTask.receive
      rw [if_pos (.inl hp)]
      exact hp

/-! ## What the client hears -/

/-- Nothing but an internal error, where a finish names the upload. -/
structure Coded (uploadId : List UInt8) (t : RemoteTask) : Prop where
  named : ∀ r, t.phase = .running r → r.uploadId = uploadId
  code : ∀ code text retry, t.phase = .reporting (.error code text retry) → code = .errInternal ∧ retry = true
  plain : ∀ r, t.helper.reply = some (.error r) → r.forbidden = false

theorem coded_report {uploadId : List UInt8} {t : RemoteTask} (h : Coded uploadId t) {e : UploadError} (ms : List HelperRead)
    (he : uploadErrorCode e = (.errInternal, true)) :
    Coded uploadId { t with inbox := t.inbox ++ ms, phase := .reporting (.ofError e) } := by
  refine ⟨fun r hr => (by cases hr), ?_, h.plain⟩
  intro code text retry hphase
  cases hphase
  rw [he]
  exact ⟨rfl, rfl⟩

theorem coded_command {uploadId : List UInt8} {t : RemoteTask} (hid : uploadId.length = 16) (h : Coded uploadId t)
    {c : Option UploadCommand} (hnames : BackendInput.names uploadId (.command c)) : Coded uploadId (t.command c) := by
  cases hp : t.phase with
  | finishing => rwa [show t.command c = t by simp only [RemoteTask.command, hp]]
  | reporting reply => rwa [show t.command c = t by simp only [RemoteTask.command, hp]]
  | ended => rwa [show t.command c = t by simp only [RemoteTask.command, hp]]
  | running r =>
    have hr := h.named r hp
    have hlen : r.uploadId.length = 16 := by rw [hr]; exact hid
    have hgiveUp : Coded uploadId ({ t.drop r with phase := .ended } : RemoteTask) := by
      obtain ⟨ms, _, heq⟩ := t.drop_cases r
      rw [heq]
      exact ⟨fun _ hr => (by cases hr), fun _ _ _ hr => (by cases hr), h.plain⟩
    cases c with
    | none =>
      simp only [RemoteTask.command, hp]
      exact hgiveUp
    | some c =>
      cases c with
      | abort =>
        simp only [RemoteTask.command, hp]
        exact hgiveUp
      | chunk c =>
        simp only [RemoteTask.command, hp]
        rcases t.chunk_cases hlen c with ⟨text, ms, _, heq, _⟩ | ⟨_, ⟨text, ms, _, _, heq⟩ | ⟨next, _, heq⟩⟩
        · rw [heq]
          exact coded_report h ms rfl
        · rw [heq, List.append_assoc]
          exact coded_report h _ rfl
        · rw [heq]
          refine ⟨fun r' hr' => ?_, fun _ _ _ hr => (by cases hr), h.plain⟩
          cases hr'
          exact hr
      | finish id =>
        simp only [RemoteTask.command, hp]
        rcases t.finish_cases hlen id with ⟨hne, _⟩ | ⟨_, ⟨text, _, heq⟩ | heq⟩
        · exact absurd (hr ▸ hnames) hne
        · rw [heq]
          have := coded_report h [] (e := .spawner false text) rfl
          rwa [List.append_nil] at this
        · rw [heq]
          exact ⟨fun _ hr => (by cases hr), fun _ _ _ hr => (by cases hr), h.plain⟩

theorem sends_forbidden {task : HelperTask} {i : HelperInput} {r : Refusal}
    (h : task.sends sha256 owner lossy i = some (.error r)) : r.forbidden = false := by
  unfold HelperTask.sends at h
  cases hw : task.writer with
  | none =>
    rw [hw] at h
    cases h
  | some w =>
    rw [hw] at h
    cases hread : i.read with
    | chunk c =>
      simp only [hread] at h
      split at h <;> cases h
      rfl
    | finish uploadId =>
      simp only [hread] at h
      split at h <;> cases h
      rfl
    | abort uploadId =>
      simp only [hread] at h
      split at h <;> cases h
      rfl
    | closed =>
      rw [hread] at h
      cases h
    | unusable =>
      rw [hread] at h
      cases h
      rfl

theorem coded_help {uploadId : List UInt8} {t : RemoteTask} (h : Coded uploadId t) :
    Coded uploadId (t.help sha256 owner lossy fs) := by
  unfold RemoteTask.help
  split
  · refine ⟨h.named, h.code, ?_⟩
    intro r hr
    simp only [Helper.read, Option.or_eq_some_iff] at hr
    rcases hr with hr | ⟨_, hr⟩
    · exact h.plain r hr
    · exact sends_forbidden hr
  · exact h

theorem coded_receive {uploadId : List UInt8} {t : RemoteTask} (h : Coded uploadId t) (reset : Bool) :
    Coded uploadId (t.receive reset) := by
  have hreport : ∀ {e : UploadError}, uploadErrorCode e = (.errInternal, true) → Coded uploadId (t.report e) := by
    intro e he
    have := coded_report h [] he
    rwa [List.append_nil] at this
  unfold RemoteTask.receive
  split
  · exact h
  · split
    · exact hreport rfl
    · split
      · exact hreport rfl
      · rename_i r hr
        refine hreport ?_
        rw [spawnerRefused, h.plain r hr]
        rfl
      · split
        · exact ⟨fun _ hr => (by cases hr), fun _ _ _ hr => (by cases hr), h.plain⟩
        · exact hreport rfl

theorem coded_run {uploadId : List UInt8} (hid : uploadId.length = 16) {is : List BackendInput}
    (hnames : ∀ i ∈ is, i.names uploadId) (h : Coded uploadId b.remote) :
    Coded uploadId ((machine sha256 owner lossy fs).run b is).remote := by
  induction is generalizing b with
  | nil => exact h
  | cons i is ih =>
    refine ih (fun j hj => hnames j (List.mem_cons_of_mem _ hj)) ?_
    cases i with
    | command c => exact coded_command hid h (hnames _ List.mem_cons_self)
    | help => exact coded_help h
    | receive reset => exact coded_receive h reset

/-- A handle at work has seen no finish, and one that ended was given up. -/
structure Heard (is : List BackendInput) (t : RemoteTask) : Prop where
  running : ∀ r, t.phase = .running r → ∀ id, .command (some (.finish id)) ∉ is
  ended : t.phase = .ended → .command (some .abort) ∈ is ∨ .command none ∈ is

/-- An input that is no finish, and leaves the phase as it is. -/
theorem Heard.append {is : List BackendInput} {t t' : RemoteTask} {i : BackendInput} (h : Heard is t)
    (hphase : t'.phase = t.phase) (hi : ∀ id, i ≠ .command (some (.finish id))) : Heard (is ++ [i]) t' := by
  refine ⟨?_, ?_⟩
  · intro r hr id hm
    rcases List.mem_append.mp hm with hm | hm
    · exact h.running r (hphase ▸ hr) id hm
    · exact hi id (List.mem_singleton.mp hm).symm
  · intro hended
    rcases h.ended (hphase ▸ hended) with hm | hm
    · exact .inl (List.mem_append_left _ hm)
    · exact .inr (List.mem_append_left _ hm)

theorem receive_ended {t : RemoteTask} {reset : Bool} (h : (t.receive reset).phase = .ended) : t.phase = .ended := by
  unfold RemoteTask.receive at h
  split at h
  · exact h
  · split at h
    · cases h
    · split at h
      · cases h
      · cases h
      · split at h <;> cases h

theorem Heard.settled {is : List BackendInput} {b : Backends} (h : Heard is b.remote) :
    Heard is (b.settled sha256 owner lossy fs).remote := by
  have hhelps : ∀ (n : Nat) {b : Backends}, Heard is b.remote →
      Heard is ((machine sha256 owner lossy fs).run b (List.replicate n .help)).remote := by
    intro n
    induction n with
    | zero => exact fun h => h
    | succ n ih =>
      intro b h
      rw [List.replicate_succ, Machine.run_cons]
      have hphase : ((machine sha256 owner lossy fs).next b .help).remote.phase = b.remote.phase :=
        (@caughtUp_help sha256 owner lossy fs b.remote).2
      exact ih ⟨by rw [hphase]; exact h.running, by rw [hphase]; exact h.ended⟩
  unfold Backends.settled
  rw [Machine.run_snoc]
  have h' := hhelps b.remote.inbox.length h
  generalize (machine sha256 owner lossy fs).run b (List.replicate b.remote.inbox.length .help) = b' at h'
  exact ⟨fun r hr => h'.running r ((receive_keeps b'.remote false).2.2 r hr), fun hr => h'.ended (receive_ended hr)⟩

/-- Where a command leaves the handle. -/
theorem heard_command {t : RemoteTask} (hid : ∀ r, t.phase = .running r → r.uploadId.length = 16) {is : List BackendInput}
    (h : Heard is t) (c : Option UploadCommand) : Heard (is ++ [.command c]) (t.command c) := by
  have hidle : (∀ r, t.phase ≠ .running r) → t.command c = t := by
    intro hno
    cases hp : t.phase with
    | running r => exact absurd hp (hno r)
    | finishing => simp only [RemoteTask.command, hp]
    | reporting reply => simp only [RemoteTask.command, hp]
    | ended => simp only [RemoteTask.command, hp]
  by_cases hrun : ∃ r, t.phase = .running r
  · obtain ⟨r, hp⟩ := hrun
    have hno := h.running r hp
    cases c with
    | none =>
      simp only [RemoteTask.command, hp]
      exact ⟨fun _ hr => (by cases hr), fun _ => .inr (List.mem_append_right _ List.mem_cons_self)⟩
    | some c =>
      cases c with
      | abort =>
        simp only [RemoteTask.command, hp]
        exact ⟨fun _ hr => (by cases hr), fun _ => .inl (List.mem_append_right _ List.mem_cons_self)⟩
      | chunk c =>
        have hchunk : ∀ id, .command (some (.finish id)) ∉ is ++ [.command (some (.chunk c))] := by
          intro id hm
          rcases List.mem_append.mp hm with hm | hm
          · exact hno id hm
          · cases List.mem_singleton.mp hm
        simp only [RemoteTask.command, hp]
        rcases t.chunk_cases (hid r hp) c with ⟨_, _, _, heq, _⟩ | ⟨_, ⟨_, _, _, _, heq⟩ | ⟨_, _, heq⟩⟩
        · rw [heq]
          exact ⟨fun _ hr => (by cases hr), fun hr => (by cases hr)⟩
        · rw [heq]
          exact ⟨fun _ hr => (by cases hr), fun hr => (by cases hr)⟩
        · rw [heq]
          exact ⟨fun _ _ => hchunk, fun hr => (by cases hr)⟩
      | finish id =>
        simp only [RemoteTask.command, hp]
        rcases t.finish_cases (hid r hp) id with ⟨_, _, _, heq⟩ | ⟨_, ⟨_, _, heq⟩ | heq⟩
        · rw [heq]
          exact ⟨fun _ hr => (by cases hr), fun hr => (by cases hr)⟩
        · rw [heq]
          exact ⟨fun _ hr => (by cases hr), fun hr => (by cases hr)⟩
        · rw [heq]
          exact ⟨fun _ hr => (by cases hr), fun hr => (by cases hr)⟩
  · have hno : ∀ r, t.phase ≠ .running r := fun r hr => hrun ⟨r, hr⟩
    rw [hidle hno]
    refine ⟨fun r hr => absurd hr (hno r), ?_⟩
    intro hended
    rcases h.ended hended with hm | hm
    · exact .inl (List.mem_append_left _ hm)
    · exact .inr (List.mem_append_left _ hm)

theorem heard_run (hw : Alike fs w₀ n₁ n₂) (h : Sim sha256 owner lossy fs w₀ n₁ n₂ b) {r : RemoteUpload}
    (hp : b.remote.phase = .running r) {is : List BackendInput}
    (hfit : ∀ c, .command (some (.chunk c)) ∈ is → FitsBoth n₁ n₂ c.data) :
    Heard is ((machine sha256 owner lossy fs).run b is).remote := by
  induction is using List.reverseRecOn with
  | nil =>
    refine ⟨fun _ _ _ hm => (by cases hm), ?_⟩
    intro hended
    cases hp.symm.trans hended
  | append_singleton is i ih =>
    have hfit' : ∀ c, .command (some (.chunk c)) ∈ is → FitsBoth n₁ n₂ c.data :=
      fun c hc => hfit c (List.mem_append_left _ hc)
    have hheard := ih hfit'
    have hsim := related_run hw h hfit'
    rw [Machine.run_snoc]
    generalize (machine sha256 owner lossy fs).run b is = b' at *
    cases i with
    | help =>
      exact hheard.append (@caughtUp_help sha256 owner lossy fs b'.remote).2 fun _ hm => by cases hm
    | receive reset =>
      obtain ⟨_, _, hphase⟩ := receive_keeps b'.remote reset
      refine ⟨?_, ?_⟩
      · intro r hr id hm
        rcases List.mem_append.mp hm with hm | hm
        · exact hheard.running r (hphase r hr) id hm
        · cases List.mem_singleton.mp hm
      · intro hended
        have hwas : b'.remote.phase = .ended := receive_ended hended
        rcases hheard.ended hwas with hm | hm
        · exact .inl (List.mem_append_left _ hm)
        · exact .inr (List.mem_append_left _ hm)
    | command c =>
      show Heard _ (b'.remote.command c)
      exact heard_command (fun r hr => hsim.uploadId_length hr) hheard c

/-! ## Agreement -/

/-- What both have made of the same commands, once the helper is at rest. -/
structure Agree (uploadId : List UInt8) (is : List BackendInput) (b : Backends) : Prop where
  answered : b.remote.phase ≠ .finishing
  -- as long as the first accepts, so does the second
  accepts : ∀ w, b.same.phase = .running w → ∃ r, b.remote.phase = .running r
  stored : b.remote.helper.task.directory.stored = b.same.directory.stored
  finished : ∀ id path bytes sha,
    b.same.result = some (.finished id path bytes sha) ↔ b.remote.result = some (.finished id path bytes sha)
  failed : ∀ code text retry, b.remote.result = some (.error code text retry) →
    ∃ code text retry, b.same.result = some (.error code text retry)
  -- neither leaves a finish without an answer
  heard : ∀ id, .command (some (.finish id)) ∈ is → .command (some .abort) ∉ is → .command none ∉ is →
    b.same.result ≠ none ∧ b.remote.result ≠ none
  -- a failure of the file system is told alike
  code : (∀ i ∈ is, i.names uploadId) → ∀ text, b.same.result = some (.error .errInternal text true) →
    ∀ code text retry, b.remote.result = some (.error code text retry) → code = .errInternal ∧ retry = true

theorem agree_of_sim {uploadId : List UInt8} {is : List BackendInput} (h : Sim sha256 owner lossy fs w₀ n₁ n₂ b)
    (hcaught : b.remote.caughtUp sha256 owner lossy fs = b.remote.helper) (hanswered : b.remote.phase ≠ .finishing)
    (hheard : Heard is b.remote) (hcoded : (∀ i ∈ is, i.names uploadId) → Coded uploadId b.remote) :
    Agree uploadId is b := by
  obtain ⟨same, remote⟩ := b
  obtain ⟨_, hrel, _⟩ := h
  simp only at *
  rw [hcaught] at hrel
  have hcode : (∀ i ∈ is, i.names uploadId) → ∀ code text retry, remote.result = some (.error code text retry) →
      code = .errInternal ∧ retry = true := by
    intro hnames code text retry hresult
    refine (hcoded hnames).code code text retry ?_
    cases hp : remote.phase with
    | reporting reply =>
      rw [RemoteTask.result, hp] at hresult
      cases hresult
      rfl
    | _ =>
      rw [RemoteTask.result, hp] at hresult
      cases hresult
  -- a finish that was not given up leaves the handle neither at work nor ended
  have hreplied : ∀ id, .command (some (.finish id)) ∈ is → .command (some .abort) ∉ is → .command none ∉ is →
      ∃ reply, remote.phase = .reporting reply := by
    intro id hm habort hnone
    cases hp : remote.phase with
    | running r => exact absurd hm (hheard.running r hp id)
    | finishing => exact absurd hp hanswered
    | reporting reply => exact ⟨reply, rfl⟩
    | ended =>
      rcases hheard.ended hp with h | h
      · exact absurd h habort
      · exact absurd h hnone
  generalize hp : remote.phase = phase at hrel
  have hresult : remote.result = phase.result := by rw [RemoteTask.result, hp]
  cases hrel with
  | running w hphase _ hhelper =>
    have hsame : same.result = none := by rw [UploadTask.result, hphase]
    refine ⟨hanswered, fun _ _ => ⟨_, hp⟩, by rw [hhelper], ?_, ?_, ?_, fun hnames _ _ => hcode hnames⟩
    · intro id path bytes sha
      rw [hsame, hresult]
      exact ⟨fun h => (by cases h), fun h => (by cases h)⟩
    · intro code text retry h
      rw [hresult] at h
      cases h
    · intro id hm habort hnone
      obtain ⟨reply, hr⟩ := hreplied id hm habort hnone
      cases hp.symm.trans hr
  | committing => exact absurd hp hanswered
  | committed id path bytes sha hsame hstored =>
    refine ⟨hanswered, ?_, hstored, ?_, ?_, ?_, fun hnames _ _ => hcode hnames⟩
    · intro w hphase
      rw [UploadTask.result, hphase] at hsame
      cases hsame
    · intro id path bytes sha
      rw [hsame, hresult]
      exact Iff.rfl
    · intro code text retry h
      rw [hresult] at h
      cases h
    · intro _ _ _ _
      rw [hsame, hresult]
      exact ⟨Option.some_ne_none _, Option.some_ne_none _⟩
  | failed hsame _ _ hreply hstored =>
    obtain ⟨code, text, retry, hsame⟩ := hsame
    refine ⟨hanswered, ?_, hstored, ?_, fun _ _ _ _ => ⟨_, _, _, hsame⟩, ?_, fun hnames _ _ => hcode hnames⟩
    · intro w hphase
      rw [UploadTask.result, hphase] at hsame
      cases hsame
    · intro id path bytes sha
      rw [hsame]
      refine ⟨fun h => (by cases h), ?_⟩
      intro h
      cases phase with
      | reporting reply =>
        obtain ⟨code', text', retry', rfl⟩ := hreply reply rfl
        rw [hresult] at h
        cases h
      | running r =>
        rw [hresult] at h
        cases h
      | finishing => exact absurd hp hanswered
      | ended =>
        rw [hresult] at h
        cases h
    · intro id hm habort hnone
      obtain ⟨reply, hr⟩ := hreplied id hm habort hnone
      rw [hsame, RemoteTask.result, hr]
      exact ⟨Option.some_ne_none _, Option.some_ne_none _⟩
  | cancelled hphase hstored =>
    have hsame : same.result = none := by rw [UploadTask.result, hphase]
    refine ⟨hanswered, ?_, hstored, ?_, ?_, ?_, fun hnames _ _ => hcode hnames⟩
    · intro w hw
      cases hphase.symm.trans hw
    · intro id path bytes sha
      rw [hsame, hresult]
      exact ⟨fun h => (by cases h), fun h => (by cases h)⟩
    · intro code text retry h
      rw [hresult] at h
      cases h
    · intro id hm habort hnone
      obtain ⟨reply, hr⟩ := hreplied id hm habort hnone
      cases hp.symm.trans hr

end Backends

end

/-- Both begin alike, but for the limit, or refuse alike. -/
theorem begin_alike {s : Spawner} {account : String} {maxFileBytes : UInt64} {metadata : BeginUpload}
    {maximumChunkBytes : UInt32} {fs : FileSystem} (hserves : s.Serves account maxFileBytes) (hshared : fs.Shared)
    (hchunk : maximumChunkBytes ≠ 0) :
    (∃ e e', beginSameUid maxFileBytes metadata maximumChunkBytes fs = .error e ∧
      beginSpawner s (some account) maxFileBytes metadata maximumChunkBytes fs = .error e' ∧
      uploadErrorCode e = uploadErrorCode e') ∨
    ∃ w d n owner, beginSameUid maxFileBytes metadata maximumChunkBytes fs = .ok (.start w d) ∧
      beginSpawner s (some account) maxFileBytes metadata maximumChunkBytes fs = .ok (.start (withLimit w n) d, owner) ∧
      WriterInv [] w d ∧ Backends.Alike fs w w.maximumChunkBytes n ∧
      n.toNat = min w.maximumChunkBytes.toNat spawnerChunkBytesMax := by
  unfold beginSameUid beginSpawner
  cases hv : validateBegin metadata maxFileBytes with
  | error e => exact .inl ⟨_, _, rfl, rfl, rfl⟩
  | ok u =>
    have hv' := validateBegin_mono hserves.limit hv
    obtain ⟨ids, hids⟩ := hserves.account
    have hnat : maximumChunkBytes.toNat ≠ 0 := fun h => hchunk (UInt32.toNat_inj.mp h)
    have hlimit : (min maximumChunkBytes (UInt32.ofNat spawnerChunkBytesMax)).toNat =
        min maximumChunkBytes.toNat spawnerChunkBytesMax := uint32_toNat_min _ _
    have hpos : min maximumChunkBytes (UInt32.ofNat spawnerChunkBytesMax) ≠ 0 := by
      intro h
      rw [h] at hlimit
      simp only [UInt32.toNat_zero, spawnerChunkBytesMax] at hlimit
      omega
    have hspec := begin_spec maxFileBytes metadata maximumChunkBytes fs.begins
    simp only [hserves.connect, Spawner.receiveUpload, hids, hserves.store]
    unfold beginWithChunkLimit at hspec ⊢
    rw [hv] at hspec
    rw [hv, hv']
    simp only [if_neg hchunk, if_neg hpos] at hspec ⊢
    rcases @beginAttempts_limit maxFileBytes s.uploadMaxBytes metadata
        (min maximumChunkBytes (UInt32.ofNat uploadChunkBytesMax))
        (min (min maximumChunkBytes (UInt32.ofNat spawnerChunkBytesMax)) (UInt32.ofNat uploadChunkBytesMax)) hv hv'
        (fs.begins.take randomIdAttempts)
      with ⟨w, d, h₁, h₂, hw, env, henv, hpath⟩ | ⟨e, d, h₁, h₂, he⟩
    · refine .inr ⟨w, d, _, ids, by rw [h₁], by rw [h₂], ?_⟩
      have hn₁ : w.maximumChunkBytes.toNat = min maximumChunkBytes.toNat uploadChunkBytesMax := by
        rw [hw]
        exact uint32_toNat_min _ _
      have hn₂ : (min (min maximumChunkBytes (UInt32.ofNat spawnerChunkBytesMax)) (UInt32.ofNat uploadChunkBytesMax)).toNat =
          min (min maximumChunkBytes.toNat spawnerChunkBytesMax) uploadChunkBytesMax := by
        rw [uint32_toNat_min, hlimit]
        rfl
      rw [h₁] at hspec
      rcases hspec with ⟨w', hw', hinv, _, hsha⟩ | ⟨e, he, _⟩
      · cases hw'
        refine ⟨hinv, ⟨?_, ?_, hshared, ?_, ?_⟩, ?_⟩
        · rw [hsha]
          exact validateBegin_sha256 hv
        · rw [hpath]
          exact hshared.path env (List.mem_of_mem_take henv)
        · rw [hn₁, hn₂]
          omega
        · rw [hn₂]
          omega
        · rw [hn₁, hn₂]
          simp only [spawnerChunkBytesMax, uploadChunkBytesMax]
          omega
      · cases he
    · refine .inl ⟨_, _, by rw [h₁], by rw [h₂], ?_⟩
      rcases he with rfl | ⟨msg, rfl⟩ <;> rfl

/-- For every declaration, every sequence of commands and every timing of the helper, where
    the helper serves the account and no chunk is of a size that only one of them takes:
    both begin or are refused with one code; a finished upload is finished by both, with
    the same reply and the same bytes; what one of them fails the other does not finish,
    no finish goes unanswered, and a failure of the file system has one code. -/
theorem backends_agree (sha256 : List UInt8 → List UInt8) (lossy : String) (s : Spawner) (account : String)
    (maxFileBytes : UInt64) (metadata : BeginUpload) (maximumChunkBytes : UInt32) (fs : FileSystem)
    (hserves : s.Serves account maxFileBytes) (hshared : fs.Shared) (hchunk : maximumChunkBytes ≠ 0) :
    (∃ e e', beginSameUid maxFileBytes metadata maximumChunkBytes fs = .error e ∧
      beginSpawner s (some account) maxFileBytes metadata maximumChunkBytes fs = .error e' ∧
      uploadErrorCode e = uploadErrorCode e') ∨
    ∃ w w' d owner, beginSameUid maxFileBytes metadata maximumChunkBytes fs = .ok (.start w d) ∧
      beginSpawner s (some account) maxFileBytes metadata maximumChunkBytes fs = .ok (.start w' d, owner) ∧
      w'.uploadId = w.uploadId ∧
      ∀ is : List BackendInput, (∀ i ∈ is, i.fits w.maximumChunkBytes) →
        Backends.Agree w.uploadId.toWire is
          (((Backends.machine sha256 owner lossy fs).run ⟨.start w d, .start w' d⟩ is).settled sha256 owner lossy fs) := by
  rcases @begin_alike s account maxFileBytes metadata maximumChunkBytes fs hserves hshared hchunk
    with herr | ⟨w, d, n, owner, hsame, hremote, hinv, hw, hn⟩
  · exact .inl herr
  refine .inr ⟨w, withLimit w n, d, owner, hsame, hremote, rfl, ?_⟩
  intro is hfits
  have hzero : w.written = 0 := UInt64.toNat_inj.mp hinv.written
  have hsim : Backends.Sim sha256 owner lossy fs w w.maximumChunkBytes n ⟨.start w d, .start (withLimit w n) d⟩ := by
    refine ⟨UploadTask.taskInv_start hinv, ?_, ?_⟩
    · have := @Related.running w.maximumChunkBytes n (.start w d) ⟨.start (withLimit w n) d, none⟩ w rfl rfl rfl
      rwa [hzero] at this
    · exact ⟨fun _ _ => ⟨List.forall_mem_nil _, fun ⟨_, _, _, _, h⟩ => by cases h⟩, List.forall_mem_nil _, fun _ => rfl⟩
  have hfit : ∀ c, .command (some (.chunk c)) ∈ is → FitsBoth w.maximumChunkBytes n c.data := by
    intro c hc
    have : c.data.length ≤ spawnerChunkBytesMax ∨ w.maximumChunkBytes.toNat < c.data.length := hfits _ hc
    unfold FitsBoth
    omega
  have hid : w.uploadId.toWire.length = 16 := by simp [UploadId.toWire, Protocol.toWire]
  have hrun := Backends.related_run hw hsim hfit
  have hheard := Backends.heard_run hw hsim rfl hfit
  have hcoded : (∀ i ∈ is, i.names w.uploadId.toWire) → Backends.Coded w.uploadId.toWire
      ((Backends.machine sha256 owner lossy fs).run ⟨.start w d, .start (withLimit w n) d⟩ is).remote := by
    intro hnames
    refine Backends.coded_run hid hnames ⟨fun r hr => ?_, fun _ _ _ hr => (by cases hr), fun _ hr => (by cases hr)⟩
    cases hr
    rfl
  generalize (Backends.machine sha256 owner lossy fs).run ⟨.start w d, .start (withLimit w n) d⟩ is = b at *
  obtain ⟨hsettled, hcaught, hanswered, _⟩ := Backends.settled_spec hw hrun
  refine Backends.agree_of_sim hsettled hcaught hanswered hheard.settled ?_
  intro hnames
  refine Backends.coded_run hid ?_ (hcoded hnames)
  intro i hi
  rcases List.mem_append.mp hi with hi | hi
  · rw [List.eq_of_mem_replicate hi]
    trivial
  · rw [List.mem_singleton.mp hi]
    trivial

/-! ## Uploads of `abc` to both -/

/-- A helper for one account. -/
def abcSpawner : Spawner := ⟨.ok (), ["alice"], fun _ => .ok (1000, 1000), some (.ok ()), 1024 * 1024⟩

def abcFileSystem : FileSystem := ⟨[abcBegin], fun _ => .ok (), smoothFinish, ⟨true, true, true⟩⟩

/-- Two chunks and a finish; the helper reads the first before the second is sent. -/
def abcInputs : List BackendInput :=
  [.command (some (.chunk ⟨abcId.toWire, 0, [97, 98]⟩)), .help, .command (some (.chunk ⟨abcId.toWire, 2, [99]⟩)),
   .command (some (.finish abcId.toWire))]

/-- Both, from a begun upload to rest. -/
def begun (w : UploadWriter) (fs : FileSystem) (is : List BackendInput) : Backends :=
  ((Backends.machine abcDigest (1000, 1000) "" fs).run
    ⟨.start w ⟨true, some [], none⟩, .start (withLimit w 8192) ⟨true, some [], none⟩⟩ is).settled
      abcDigest (1000, 1000) "" fs

theorem backends_agree_abc :
    abcSpawner.Serves "alice" 1024 ∧ abcFileSystem.Shared ∧
    (begun abcWriter abcFileSystem abcInputs).remote.helper.task.directory.stored = some [97, 98, 99] ∧
    (∃ is : List BackendInput, is = abcInputs ∧ (∀ i ∈ is, i.fits abcWriter.maximumChunkBytes) ∧
      Backends.Agree abcId.toWire is (begun abcWriter abcFileSystem is)) := by
  have hserves : abcSpawner.Serves "alice" 1024 := ⟨rfl, ⟨(1000, 1000), by decide⟩, rfl, by decide⟩
  have hshared : abcFileSystem.Shared := ⟨rfl, rfl, by decide⟩
  have hfits : ∀ i ∈ abcInputs, i.fits abcWriter.maximumChunkBytes := by
    intro i hi
    simp only [abcInputs, List.mem_cons, List.not_mem_nil, or_false] at hi
    rcases hi with rfl | rfl | rfl | rfl
    · exact .inl (by decide)
    · trivial
    · exact .inl (by decide)
    · trivial
  refine ⟨hserves, hshared, by decide +kernel, abcInputs, rfl, hfits, ?_⟩
  have hw : beginSameUid 1024 abc 65536 abcFileSystem = .ok (.start abcWriter ⟨true, some [], none⟩) := by decide +kernel
  have hw' : beginSpawner abcSpawner (some "alice") 1024 abc 65536 abcFileSystem =
      .ok (.start (withLimit abcWriter 8192) ⟨true, some [], none⟩, (1000, 1000)) := by decide +kernel
  rcases backends_agree abcDigest "" abcSpawner "alice" 1024 abc 65536 abcFileSystem hserves hshared (by decide)
    with ⟨e, e', h, _⟩ | ⟨w, w', d, owner, hsame, hremote, _, hagree⟩
  · cases hw.symm.trans h
  · cases hw.symm.trans hsame
    obtain ⟨hstart, rfl⟩ := Prod.mk.inj (Except.ok.inj (hw'.symm.trans hremote))
    rw [← hstart] at hagree
    exact hagree abcInputs hfits

def largeWriter : UploadWriter := { abcWriter with expectedBytes := 8193 }

def largeChunk : UploadChunk := ⟨abcId.toWire, 0, List.replicate 8193 97⟩

/-- The file cannot be handed over. -/
def foreignFileSystem : FileSystem := { abcFileSystem with finish := { smoothFinish with chownFile := .error "EPERM" } }

def fullFileSystem : FileSystem := { abcFileSystem with write := fun _ => .error (0, "ENOSPC") }

def abcAbort : List BackendInput := [.command (some (.chunk ⟨abcId.toWire, 0, [97, 98]⟩)), .command (some .abort)]

/-- A chunk of 8193 bytes, a handover that fails, and a write that fails in an upload that is
    then given up: each time the client hears something else from one than from the other. -/
theorem backends_differ :
    (beginSameUid 16384 ⟨"abc.txt", 8193, abcSha256⟩ 65536 abcFileSystem = .ok (.start largeWriter ⟨true, some [], none⟩) ∧
      beginSpawner abcSpawner (some "alice") 16384 ⟨"abc.txt", 8193, abcSha256⟩ 65536 abcFileSystem =
        .ok (.start (withLimit largeWriter 8192) ⟨true, some [], none⟩, (1000, 1000)) ∧
      (begun largeWriter abcFileSystem [.command (some (.chunk largeChunk))]).same.result = none ∧
      ∃ text, (begun largeWriter abcFileSystem [.command (some (.chunk largeChunk))]).remote.result =
        some (.error .errInternal text true)) ∧
    ((begun abcWriter foreignFileSystem abcInputs).same.outcome = some .completed ∧
      ∃ text, (begun abcWriter foreignFileSystem abcInputs).remote.result = some (.error .errInternal text true)) ∧
    ((begun abcWriter fullFileSystem abcAbort).same.result = some (.error .errInternal "ENOSPC" true) ∧
      (begun abcWriter fullFileSystem abcAbort).remote.result = none) := by
  refine ⟨⟨by decide +kernel, by decide +kernel, ?_, ?_⟩, ⟨by decide +kernel, ?_⟩, by decide +kernel, by decide +kernel⟩
  · decide +kernel
  · exact ⟨"spawner protocol error: upload chunk of 8193 bytes is outside 1..=8192", by decide +kernel⟩
  · exact ⟨"spawner error: finish upload: EPERM", by decide +kernel⟩

end Holdfast.Daemon

/-
  Holdfast.Upload.Writer — one upload's file (`crates/protocol/src/upload.rs` and
  `UploadWriter` of `crates/upload-store/src/lib.rs`).

  An upload has a directory of its own with two names in it: the partial the chunks are
  written to, and the stored name the partial is linked to once length and digest agree.
  What the file system answers to each call is an argument; a failing write may have taken
  some of its bytes. Offsets are `u64`. SHA-256 is a parameter.

  Dropping a writer that did not commit removes both names and the directory; the outcomes
  of these removals are ignored.

  Proved:
  - `validateChunk_ok`: an accepted chunk starts where the last one ended, and the offset
    behind it neither overflows nor exceeds the declared total.
  - `writeChunk_spec` / `finishInner_spec`: what one call does to a writer in step with its
    file (`WriterInv`).
  - `begin_spec`: a writer starts in step, and a failed begin leaves no file.
-/

import Holdfast.Protocol.Ids

namespace Holdfast.Upload

open Holdfast.Protocol

/-! ## Wire messages and their checks -/

def uploadChunkBytesMax : Nat := 64 * 1024
def uploadFileBytesHardMax : UInt64 := 4 * 1024 * 1024 * 1024
def uploadOriginalNameBytesMax : Nat := 255
def uploadSha256Bytes : Nat := 32

structure BeginUpload where
  originalName : String
  totalBytes : UInt64
  sha256 : List UInt8
  deriving DecidableEq, Repr

structure UploadChunk where
  uploadId : List UInt8
  offset : UInt64
  data : List UInt8
  deriving DecidableEq, Repr

inductive UploadValidationError where
  | originalNameTooLong
  | invalidDigest
  | fileTooLarge (declared maximum : UInt64)
  | invalidUploadId
  | emptyChunk
  | chunkTooLarge (actual maximum : Nat)
  | unexpectedOffset (actual expected : UInt64)
  | exceedsDeclaredLength
  deriving DecidableEq, Repr

def UploadValidationError.toText : UploadValidationError → String
  | .originalNameTooLong => "original filename exceeds 255 UTF-8 bytes"
  | .invalidDigest => "upload digest must be exactly 32 bytes"
  | .fileTooLarge declared maximum =>
    "declared upload length " ++ toString declared ++ " exceeds limit " ++ toString maximum
  | .invalidUploadId => "upload id must be exactly 16 bytes"
  | .emptyChunk => "upload chunk must not be empty"
  | .chunkTooLarge actual maximum =>
    "upload chunk length " ++ toString actual ++ " exceeds limit " ++ toString maximum
  | .unexpectedOffset actual expected =>
    "upload chunk offset " ++ toString actual ++ " does not match expected offset " ++ toString expected
  | .exceedsDeclaredLength => "upload chunk would exceed the declared file length"

/-- Operator configuration can only narrow the hard limit. -/
def validateBegin (metadata : BeginUpload) (configuredMaxFileBytes : UInt64) : Except UploadValidationError Unit :=
  if metadata.originalName.utf8ByteSize > uploadOriginalNameBytesMax then .error .originalNameTooLong
  else if metadata.sha256.length ≠ uploadSha256Bytes then .error .invalidDigest
  else
    let maximum := min configuredMaxFileBytes uploadFileBytesHardMax
    if metadata.totalBytes > maximum then .error (.fileTooLarge metadata.totalBytes maximum) else .ok ()

/-- `u64::checked_add`. -/
def checkedAdd (a b : UInt64) : Option UInt64 := if a.toNat + b.toNat < 2 ^ 64 then some (a + b) else none

def validateChunk (chunk : UploadChunk) (expectedUploadId : UploadId) (expectedOffset : UInt64)
    (maximumChunkBytes : UInt32) (totalBytes : UInt64) : Except UploadValidationError Unit :=
  if chunk.uploadId ≠ expectedUploadId.toWire then .error .invalidUploadId
  else if chunk.data.isEmpty then .error .emptyChunk
  else
    let maximum := min maximumChunkBytes.toNat uploadChunkBytesMax
    if chunk.data.length > maximum then .error (.chunkTooLarge chunk.data.length maximum)
    else if chunk.offset ≠ expectedOffset then .error (.unexpectedOffset chunk.offset expectedOffset)
    else
      match checkedAdd expectedOffset (UInt64.ofNat chunk.data.length) with
      | none => .error .exceedsDeclaredLength
      | some last => if last > totalBytes then .error .exceedsDeclaredLength else .ok ()

/-- Where an accepted chunk ends. -/
theorem validateChunk_ok {chunk : UploadChunk} {id : UploadId} {offset : UInt64} {maximum : UInt32} {total : UInt64}
    (h : validateChunk chunk id offset maximum total = .ok ()) :
    chunk.uploadId = id.toWire ∧ chunk.offset = offset ∧ 0 < chunk.data.length ∧
      chunk.data.length ≤ uploadChunkBytesMax ∧
      (offset + UInt64.ofNat chunk.data.length).toNat = offset.toNat + chunk.data.length ∧
      offset.toNat + chunk.data.length ≤ total.toNat := by
  unfold validateChunk at h
  split at h
  · cases h
  · rename_i hid
    split at h
    · cases h
    · rename_i hempty
      simp only at h
      split at h
      · cases h
      · rename_i hlen
        split at h
        · cases h
        · rename_i hoff
          unfold checkedAdd at h
          have hmax : chunk.data.length ≤ uploadChunkBytesMax := by omega
          have hu64 : (UInt64.ofNat chunk.data.length).toNat = chunk.data.length := by
            apply UInt64.toNat_ofNat_of_lt'
            simp only [uploadChunkBytesMax, UInt64.size] at *
            omega
          have hpos : 0 < chunk.data.length := by
            cases hd : chunk.data with
            | nil => rw [hd] at hempty; exact absurd rfl hempty
            | cons b data => exact Nat.succ_pos _
          rw [hu64] at h
          split at h
          · cases h
          · rename_i last hlast
            split at hlast
            · rename_i hfit
              cases hlast
              have hsum : (offset + UInt64.ofNat chunk.data.length).toNat = offset.toNat + chunk.data.length := by
                rw [UInt64.toNat_add, hu64, Nat.mod_eq_of_lt hfit]
              split at h
              · cases h
              · rename_i hle
                have := UInt64.le_iff_toNat_le.mp (UInt64.not_lt.mp hle)
                exact ⟨not_not.mp hid, not_not.mp hoff, hpos, hmax, hsum, by omega⟩
            · cases hlast

/-! ## The store -/

inductive StoreError where
  | invalidRoot
  | invalidUpload (e : UploadValidationError)
  | idCollision
  | invalidChunkLimit
  | lengthMismatch (actual expected : UInt64)
  | checksumMismatch
  | ioError (msg : String)
  deriving DecidableEq, Repr

def StoreError.toText : StoreError → String
  | .invalidRoot => "upload root must be an absolute directory opened without following symlinks"
  | .invalidUpload e => e.toText
  | .idCollision => "upload id collided after bounded retries"
  | .invalidChunkLimit => "selected upload chunk limit must be greater than zero"
  | .lengthMismatch actual expected => "received " ++ toString actual ++ " bytes but expected " ++ toString expected
  | .checksumMismatch => "upload SHA-256 does not match the declaration"
  | .ioError msg => msg

/-- The directory of one upload: what its two names hold. -/
structure Directory where
  present : Bool
  partialFile : Option (List UInt8)
  stored : Option (List UInt8)
  deriving DecidableEq, Repr

def Directory.absent : Directory := ⟨false, none, none⟩

/-- Neither name is there. -/
def Directory.Clean (d : Directory) : Prop := d.partialFile = none ∧ d.stored = none

/-- The outcome of a system call. -/
abbrev Io := Except String Unit

structure UploadWriter where
  /-- The stored name's path, unless it is not UTF-8. -/
  remotePath : Option String
  uploadId : UploadId
  expectedBytes : UInt64
  expectedSha256 : List UInt8
  maximumChunkBytes : UInt32
  written : UInt64
  /-- What the hasher was given. -/
  hashed : List UInt8
  committed : Bool
  deriving DecidableEq, Repr

/-- One attempt to begin: the drawn id, and the outcomes of its calls in their order. -/
structure BeginEnv where
  uploadId : UploadId
  remotePath : Option String
  /-- `none` is `EEXIST`. -/
  mkdir : Option Io
  openDirectory : Io
  chmodDirectory : Io
  create : Io
  chmodFile : Io
  unlinkPartial : Bool
  removeDirectory : Bool

/-- `open_new_writer`: the calls up to the first that fails, and the directory then. -/
def openNewWriter (metadata : BeginUpload) (maximumChunkBytes : UInt32) (env : BeginEnv) :
    Except StoreError UploadWriter × Directory :=
  match env.openDirectory, env.chmodDirectory, env.create, env.chmodFile with
  | .error e, _, _, _ => (.error (.ioError e), ⟨true, none, none⟩)
  | .ok (), .error e, _, _ => (.error (.ioError e), ⟨true, none, none⟩)
  | .ok (), .ok (), .error e, _ => (.error (.ioError e), ⟨true, none, none⟩)
  | .ok (), .ok (), .ok (), .error e =>
    (.error (.ioError e), ⟨true, if env.unlinkPartial then none else some [], none⟩)
  | .ok (), .ok (), .ok (), .ok () =>
    (.ok
      { remotePath := env.remotePath
        uploadId := env.uploadId
        expectedBytes := metadata.totalBytes
        expectedSha256 := metadata.sha256
        maximumChunkBytes := maximumChunkBytes
        written := 0
        hashed := []
        committed := false }, ⟨true, some [], none⟩)

def Directory.remove (d : Directory) (ok : Bool) : Directory :=
  if ok ∧ d.partialFile = none ∧ d.stored = none then { d with present := false } else d

@[simp] theorem Directory.remove_partialFile (d : Directory) (ok : Bool) : (d.remove ok).partialFile = d.partialFile := by
  unfold Directory.remove
  split <;> rfl

@[simp] theorem Directory.remove_stored (d : Directory) (ok : Bool) : (d.remove ok).stored = d.stored := by
  unfold Directory.remove
  split <;> rfl

def beginWithId (maxFileBytes : UInt64) (metadata : BeginUpload) (maximumChunkBytes : UInt32) (env : BeginEnv) :
    Except StoreError UploadWriter × Directory :=
  match validateBegin metadata maxFileBytes with
  | .error e => (.error (.invalidUpload e), .absent)
  | .ok () =>
    match env.mkdir with
    | none => (.error .idCollision, .absent)
    | some (.error e) => (.error (.ioError e), .absent)
    | some (.ok ()) =>
      let r := openNewWriter metadata maximumChunkBytes env
      match r.1 with
      | .error e => (.error e, r.2.remove env.removeDirectory)
      | .ok w => (.ok w, r.2)

def randomIdAttempts : Nat := 8

/-- Another id after a collision, as long as there are attempts. -/
def beginAttempts (maxFileBytes : UInt64) (metadata : BeginUpload) (maximumChunkBytes : UInt32) :
    List BeginEnv → Except StoreError UploadWriter × Directory
  | [] => (.error .idCollision, .absent)
  | env :: envs =>
    match beginWithId maxFileBytes metadata maximumChunkBytes env with
    | (.error .idCollision, _) => beginAttempts maxFileBytes metadata maximumChunkBytes envs
    | r => r

def beginWithChunkLimit (maxFileBytes : UInt64) (metadata : BeginUpload) (maximumChunkBytes : UInt32)
    (envs : List BeginEnv) : Except StoreError UploadWriter × Directory :=
  match validateBegin metadata maxFileBytes with
  | .error e => (.error (.invalidUpload e), .absent)
  | .ok () =>
    if maximumChunkBytes = 0 then (.error .invalidChunkLimit, .absent)
    else
      beginAttempts maxFileBytes metadata (min maximumChunkBytes (UInt32.ofNat uploadChunkBytesMax))
        (envs.take randomIdAttempts)

/-! ## The writer -/

/-- `write_all`: everything, or an error after some bytes. -/
abbrev WriteOutcome := Except (Nat × String) Unit

structure FinishEnv where
  flush : Io
  sync : Io
  link : Io
  unlink : Io
  syncDirectory : Io
  chownFile : Io
  chownDirectory : Io

/-- Which removals of a drop go through. -/
structure DropEnv where
  partialFile : Bool
  stored : Bool
  directory : Bool
  deriving DecidableEq, Repr

/-- Both files go. -/
def DropEnv.removes (env : DropEnv) : Bool := env.partialFile && env.stored

structure CommittedUpload where
  uploadId : UploadId
  remotePath : Option String
  bytesWritten : UInt64
  sha256 : List UInt8
  deriving DecidableEq, Repr

namespace UploadWriter

def writeChunk (w : UploadWriter) (d : Directory) (chunk : UploadChunk) (io : WriteOutcome) :
    Except StoreError Unit × UploadWriter × Directory :=
  match validateChunk chunk w.uploadId w.written w.maximumChunkBytes w.expectedBytes with
  | .error e => (.error (.invalidUpload e), w, d)
  | .ok () =>
    match io with
    | .error (accepted, e) =>
      (.error (.ioError e), w, { d with partialFile := d.partialFile.map (· ++ chunk.data.take accepted) })
    | .ok () =>
      (.ok (),
        { w with hashed := w.hashed ++ chunk.data, written := w.written + UInt64.ofNat chunk.data.length },
        { d with partialFile := d.partialFile.map (· ++ chunk.data) })

/-- A hard link is atomic and refuses to replace an existing name. -/
def link (d : Directory) (io : Io) : Except StoreError Unit × Directory :=
  match io with
  | .error e => (.error (.ioError e), d)
  | .ok () => if d.stored.isSome then (.error (.ioError "EEXIST"), d) else (.ok (), { d with stored := d.partialFile })

/-- The calls of `finish_inner` behind the link, in order. -/
def settle (d : Directory) (owner : Option (Nat × Nat)) (env : FinishEnv) : Except StoreError Unit × Directory :=
  match env.unlink with
  | .error e => (.error (.ioError e), d)
  | .ok () =>
    let d := { d with partialFile := none }
    match env.syncDirectory, owner, env.chownFile, env.chownDirectory with
    | .error e, _, _, _ => (.error (.ioError e), d)
    | .ok (), none, _, _ => (.ok (), d)
    | .ok (), some _, .error e, _ => (.error (.ioError e), d)
    | .ok (), some _, .ok (), .error e => (.error (.ioError e), d)
    | .ok (), some _, .ok (), .ok () => (.ok (), d)

variable (sha256 : List UInt8 → List UInt8)

/-- `finish` without an owner, `finish_as` with one. -/
def finishInner (w : UploadWriter) (d : Directory) (uploadId : List UInt8) (owner : Option (Nat × Nat))
    (env : FinishEnv) : Except StoreError CommittedUpload × UploadWriter × Directory :=
  if uploadId ≠ w.uploadId.toWire then (.error (.invalidUpload .invalidUploadId), w, d)
  else if w.written ≠ w.expectedBytes then (.error (.lengthMismatch w.written w.expectedBytes), w, d)
  else if sha256 w.hashed ≠ w.expectedSha256 then (.error .checksumMismatch, w, d)
  else
    match env.flush, env.sync with
    | .error e, _ => (.error (.ioError e), w, d)
    | .ok (), .error e => (.error (.ioError e), w, d)
    | .ok (), .ok () =>
      match link d env.link with
      | (.error e, d) => (.error e, w, d)
      | (.ok (), d) =>
        match settle d owner env with
        | (.error e, d) => (.error e, w, d)
        | (.ok (), d) =>
          (.ok ⟨w.uploadId, w.remotePath, w.written, sha256 w.hashed⟩, { w with committed := true }, d)

/-- `Drop for UploadWriter`. -/
def drop (w : UploadWriter) (d : Directory) (env : DropEnv) : Directory :=
  if w.committed then d
  else
    let d := if env.partialFile then { d with partialFile := none } else d
    let d := if env.stored then { d with stored := none } else d
    d.remove env.directory

/-! ## Writer and file in step -/

/-- After the accepted chunks: hasher, offset and partial have advanced together, and
    nothing is stored yet. -/
structure WriterInv (accepted : List (List UInt8)) (w : UploadWriter) (d : Directory) : Prop where
  hashed : w.hashed = accepted.flatten
  written : w.written.toNat = accepted.flatten.length
  within : w.written.toNat ≤ w.expectedBytes.toNat
  partialFile : d.partialFile = some accepted.flatten
  stored : d.stored = none
  committed : w.committed = false

/-- Begun by the same declaration: what no call changes. -/
structure SameUpload (w₀ w : UploadWriter) : Prop where
  bytes : w.expectedBytes = w₀.expectedBytes
  sha : w.expectedSha256 = w₀.expectedSha256
  path : w.remotePath = w₀.remotePath

/-- What may be stored: exactly the accepted chunks, of the declared length and digest. -/
def Intact (accepted : List (List UInt8)) (w : UploadWriter) (bytes : List UInt8) : Prop :=
  bytes = accepted.flatten ∧ bytes.length = w.expectedBytes.toNat ∧ sha256 bytes = w.expectedSha256

variable {sha256}

theorem writeChunk_spec {accepted : List (List UInt8)} {w : UploadWriter} {d : Directory}
    (h : WriterInv accepted w d) (chunk : UploadChunk) (io : WriteOutcome) :
    ((w.writeChunk d chunk io).1 = .ok () ∧
      WriterInv (accepted ++ [chunk.data]) (w.writeChunk d chunk io).2.1 (w.writeChunk d chunk io).2.2 ∧
      SameUpload w (w.writeChunk d chunk io).2.1) ∨
    ∃ e, (w.writeChunk d chunk io).1 = .error e ∧ (w.writeChunk d chunk io).2.1 = w ∧
      (w.writeChunk d chunk io).2.2.stored = none := by
  unfold writeChunk
  cases hv : validateChunk chunk w.uploadId w.written w.maximumChunkBytes w.expectedBytes with
  | error e => exact .inr ⟨_, rfl, rfl, h.stored⟩
  | ok u =>
    cases io with
    | error x => exact .inr ⟨_, rfl, rfl, h.stored⟩
    | ok u =>
      obtain ⟨_, _, _, _, hsum, hle⟩ := validateChunk_ok hv
      have hlen : (accepted ++ [chunk.data]).flatten.length = w.written.toNat + chunk.data.length := by
        rw [List.flatten_append, List.flatten_singleton, List.length_append, ← h.written]
      refine .inl ⟨rfl, ⟨?_, ?_, ?_, ?_, h.stored, h.committed⟩, ⟨rfl, rfl, rfl⟩⟩
      · simp [h.hashed]
      · exact hsum.trans hlen.symm
      · show (w.written + UInt64.ofNat chunk.data.length).toNat ≤ w.expectedBytes.toNat
        omega
      · simp [h.partialFile]

theorem settle_spec (d : Directory) (owner : Option (Nat × Nat)) (env : FinishEnv) :
    (settle d owner env).2.stored = d.stored ∧
      ((settle d owner env).1 = .ok () → (settle d owner env).2.partialFile = none) := by
  unfold settle
  split
  · exact ⟨rfl, nofun⟩
  · simp only
    split <;> exact ⟨rfl, fun _ => rfl⟩

theorem finishInner_spec {accepted : List (List UInt8)} {w : UploadWriter} {d : Directory}
    (h : WriterInv accepted w d) (uploadId : List UInt8) (owner : Option (Nat × Nat)) (env : FinishEnv) :
    (∀ bytes, (w.finishInner sha256 d uploadId owner env).2.2.stored = some bytes → Intact sha256 accepted w bytes) ∧
    ((∃ c, (w.finishInner sha256 d uploadId owner env).1 = .ok c ∧ c.remotePath = w.remotePath ∧
        (w.finishInner sha256 d uploadId owner env).2.1.committed = true ∧
        (w.finishInner sha256 d uploadId owner env).2.2.partialFile = none ∧
        (w.finishInner sha256 d uploadId owner env).2.2.stored = some accepted.flatten) ∨
      ∃ e, (w.finishInner sha256 d uploadId owner env).1 = .error e ∧
        (w.finishInner sha256 d uploadId owner env).2.1 = w) := by
  have hnone : ∀ bytes, d.stored = some bytes → Intact sha256 accepted w bytes := by
    intro bytes hb
    rw [h.stored] at hb
    cases hb
  unfold finishInner
  split
  · exact ⟨hnone, .inr ⟨_, rfl, rfl⟩⟩
  · split
    · exact ⟨hnone, .inr ⟨_, rfl, rfl⟩⟩
    · rename_i hlen
      split
      · exact ⟨hnone, .inr ⟨_, rfl, rfl⟩⟩
      · rename_i hsha
        -- from here on the accepted chunks are known to be what was declared
        have hlen : w.written = w.expectedBytes := not_not.mp hlen
        have hsha : sha256 w.hashed = w.expectedSha256 := not_not.mp hsha
        have hintact : Intact sha256 accepted w accepted.flatten := by
          refine ⟨rfl, ?_, ?_⟩
          · rw [← h.written, hlen]
          · rw [← h.hashed]
            exact hsha
        split
        · exact ⟨hnone, .inr ⟨_, rfl, rfl⟩⟩
        · exact ⟨hnone, .inr ⟨_, rfl, rfl⟩⟩
        · cases hl : env.link with
          | error e => exact ⟨hnone, .inr ⟨_, rfl, rfl⟩⟩
          | ok u =>
            simp only [link, h.stored, Option.isSome_none, Bool.false_eq_true, if_false]
            have hs := settle_spec { d with stored := d.partialFile } owner env
            generalize settle { d with stored := d.partialFile } owner env = r at hs
            obtain ⟨res, d'⟩ := r
            have hstored : d'.stored = some accepted.flatten := hs.1.trans h.partialFile
            have hbytes : ∀ bytes, d'.stored = some bytes → Intact sha256 accepted w bytes := by
              intro bytes hb
              rw [hstored] at hb
              cases hb
              exact hintact
            cases res with
            | error e => exact ⟨hbytes, .inr ⟨_, rfl, rfl⟩⟩
            | ok u => exact ⟨hbytes, .inl ⟨_, rfl, rfl, rfl, hs.2 rfl, hstored⟩⟩

theorem drop_partialFile {w : UploadWriter} (hw : w.committed = false) (d : Directory) (env : DropEnv) :
    (w.drop d env).partialFile = if env.partialFile then none else d.partialFile := by
  simp only [drop, hw, Bool.false_eq_true, if_false, Directory.remove_partialFile]
  cases env.stored <;> cases env.partialFile <;> rfl

theorem drop_stored {w : UploadWriter} (hw : w.committed = false) (d : Directory) (env : DropEnv) :
    (w.drop d env).stored = if env.stored then none else d.stored := by
  simp only [drop, hw, Bool.false_eq_true, if_false, Directory.remove_stored]
  cases env.stored <;> cases env.partialFile <;> rfl

/-- A drop whose removals go through leaves neither name, unless the writer committed. -/
theorem drop_clean {w : UploadWriter} {env : DropEnv} (hw : w.committed = false) (he : env.removes = true)
    (d : Directory) : (w.drop d env).Clean := by
  simp only [DropEnv.removes, Bool.and_eq_true] at he
  refine ⟨?_, ?_⟩
  · rw [drop_partialFile hw, he.1]
    rfl
  · rw [drop_stored hw, he.2]
    rfl

/-- A drop stores nothing. -/
theorem stored_of_drop {w : UploadWriter} {env : DropEnv} {d : Directory} {bytes : List UInt8}
    (h : (w.drop d env).stored = some bytes) : d.stored = some bytes := by
  cases hw : w.committed with
  | true => rwa [drop, hw, if_pos rfl] at h
  | false =>
    rw [drop_stored hw] at h
    split at h
    · cases h
    · exact h

end UploadWriter

open UploadWriter

theorem openNewWriter_spec (metadata : BeginUpload) (maximum : UInt32) (env : BeginEnv) :
    (∃ w, (openNewWriter metadata maximum env).1 = .ok w ∧ WriterInv [] w (openNewWriter metadata maximum env).2 ∧
      w.expectedBytes = metadata.totalBytes ∧ w.expectedSha256 = metadata.sha256) ∨
    ∃ e, (openNewWriter metadata maximum env).1 = .error e ∧
      (env.unlinkPartial = true → (openNewWriter metadata maximum env).2.Clean) := by
  unfold openNewWriter
  split
  · exact .inr ⟨_, rfl, fun _ => ⟨rfl, rfl⟩⟩
  · exact .inr ⟨_, rfl, fun _ => ⟨rfl, rfl⟩⟩
  · exact .inr ⟨_, rfl, fun _ => ⟨rfl, rfl⟩⟩
  · refine .inr ⟨_, rfl, ?_⟩
    intro hu
    exact ⟨by simp [hu], rfl⟩
  · exact .inl ⟨_, rfl, ⟨rfl, rfl, Nat.zero_le _, rfl, rfl, rfl⟩, rfl, rfl⟩

theorem beginWithId_spec (maxFileBytes : UInt64) (metadata : BeginUpload) (maximum : UInt32) (env : BeginEnv) :
    (∃ w, (beginWithId maxFileBytes metadata maximum env).1 = .ok w ∧
      WriterInv [] w (beginWithId maxFileBytes metadata maximum env).2 ∧
      w.expectedBytes = metadata.totalBytes ∧ w.expectedSha256 = metadata.sha256) ∨
    ∃ e, (beginWithId maxFileBytes metadata maximum env).1 = .error e ∧
      (env.unlinkPartial = true → (beginWithId maxFileBytes metadata maximum env).2.Clean) := by
  unfold beginWithId
  cases validateBegin metadata maxFileBytes with
  | error e => exact .inr ⟨_, rfl, fun _ => ⟨rfl, rfl⟩⟩
  | ok u =>
    simp only
    split
    · exact .inr ⟨_, rfl, fun _ => ⟨rfl, rfl⟩⟩
    · exact .inr ⟨_, rfl, fun _ => ⟨rfl, rfl⟩⟩
    · rcases openNewWriter_spec metadata maximum env with ⟨w, hw, hinv⟩ | ⟨e, he, hclean⟩
      · rw [hw]
        exact .inl ⟨w, rfl, hinv⟩
      · rw [he]
        refine .inr ⟨e, rfl, ?_⟩
        intro hu
        obtain ⟨h1, h2⟩ := hclean hu
        exact ⟨by rw [Directory.remove_partialFile, h1], by rw [Directory.remove_stored, h2]⟩

/-- A begin gives a writer in step with an empty partial, or fails; where it could remove
    a partial it had created, none is left. -/
theorem begin_spec (maxFileBytes : UInt64) (metadata : BeginUpload) (maximum : UInt32) (envs : List BeginEnv) :
    (∃ w, (beginWithChunkLimit maxFileBytes metadata maximum envs).1 = .ok w ∧
      WriterInv [] w (beginWithChunkLimit maxFileBytes metadata maximum envs).2 ∧
      w.expectedBytes = metadata.totalBytes ∧ w.expectedSha256 = metadata.sha256) ∨
    ∃ e, (beginWithChunkLimit maxFileBytes metadata maximum envs).1 = .error e ∧
      ((∀ env ∈ envs, env.unlinkPartial = true) → (beginWithChunkLimit maxFileBytes metadata maximum envs).2.Clean) := by
  unfold beginWithChunkLimit
  cases validateBegin metadata maxFileBytes with
  | error e => exact .inr ⟨_, rfl, fun _ => ⟨rfl, rfl⟩⟩
  | ok u =>
    simp only
    split
    · exact .inr ⟨_, rfl, fun _ => ⟨rfl, rfl⟩⟩
    · have hsub : ∀ env ∈ envs.take randomIdAttempts, env ∈ envs := fun env he => List.mem_of_mem_take he
      generalize envs.take randomIdAttempts = tried at hsub
      induction tried with
      | nil => exact .inr ⟨_, rfl, fun _ => ⟨rfl, rfl⟩⟩
      | cons env tried ih =>
        have hone := beginWithId_spec maxFileBytes metadata (min maximum (UInt32.ofNat uploadChunkBytesMax)) env
        unfold beginAttempts
        split
        · exact ih fun e he => hsub e (List.mem_cons_of_mem _ he)
        · rename_i r hr
          rcases hone with hok | ⟨e, he, hclean⟩
          · exact .inl hok
          · exact .inr ⟨e, he, fun hu => hclean (hu env (hsub env List.mem_cons_self))⟩

end Holdfast.Upload

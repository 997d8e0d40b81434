/-
  Holdfast.Client.UploadFile — what an upload writes on its stream (`upload_file` and
  `abort_upload` of `crates/native-client/src/lib.rs`), and the daemon's reader of it
  (`register` of `crates/daemon/src/webtransport.rs`).

  The upload awaits one thing at a time. Most awaits also look at the cancellation; it
  drops what was awaited, and once the server has accepted the upload an `AbortUpload`
  follows on the same stream. A dropped `write_all` leaves some prefix of its frame
  written, so the abort begins at a frame's start only if that prefix is nothing or all.

  The daemon closes the whole connection when a stream's bytes do not decode.

  Proved:
  - `framed_step`: what one step keeps, while no cancellation lands inside a frame.
  - `upload_bytes_framed`: then the stream carries whole frames, the last one cut short at
    most, and no cut into reads makes the daemon close the connection over it.
-/

import Holdfast.Base.Machine
import Holdfast.Base.Protobuf
import Holdfast.Daemon.Envelope
import Holdfast.Protocol.Framing
import Holdfast.Protocol.Messages

namespace Holdfast.Client

open Holdfast.Base Holdfast.Daemon Holdfast.Protocol Holdfast.Upload

/-! ## The upload -/

def uploadIdBytes : Nat := 16

/-- The file as it was opened, and where it goes. -/
structure UploadSource where
  originalName : String
  totalBytes : UInt64
  shellId : List UInt8
  deriving DecidableEq, Repr

/-- One `send_env`: its frame, and how much of it the transport took. -/
structure FrameWrite where
  message : Envelope
  frame : List UInt8
  done : Nat
  deriving DecidableEq, Repr

namespace FrameWrite

def bytes (w : FrameWrite) : List UInt8 := w.frame.take w.done

def take (w : FrameWrite) (n : Nat) : FrameWrite := { w with done := min (w.done + n) w.frame.length }

/-- The stream is at a frame's start behind it. -/
def Clean (w : FrameWrite) : Prop := w.done = 0 ∨ w.done = w.frame.length

instance (w : FrameWrite) : Decidable w.Clean := inferInstanceAs (Decidable (_ ∨ _))

end FrameWrite

/-- What the upload awaits. -/
inductive UploadStage where
  | hashing (hashed : List UInt8)
  | beginning
  | accepting
  | reading
  /-- `read` bytes of the file are in the chunk being written. -/
  | sending (read : Nat)
  | finishing
  | awaitingFinished
  | aborting
  | closed
  deriving DecidableEq, Repr

def UploadStage.writing : UploadStage → Bool
  | .beginning | .sending _ | .finishing | .aborting => true
  | _ => false

structure UploadFile where
  stage : UploadStage
  uploadId : List UInt8
  maximumChunkBytes : UInt32
  offset : UInt64
  /-- Writes that returned, failed or were dropped. -/
  ended : List FrameWrite
  pending : Option FrameWrite
  deriving DecidableEq, Repr

inductive UploadInput where
  /-- `file.read` returns; nothing at the end of the file. -/
  | read (data : List UInt8)
  /-- The transport takes `n` more bytes of the frame. -/
  | takes (n : Nat)
  /-- `write_all` returns. -/
  | written
  | accepted (uploadId : List UInt8) (maximumChunkBytes : UInt32)
  | finished
  /-- What is awaited fails, or the server answers with an error. -/
  | fails
  /-- The cancellation is seen, if this await looks at it. -/
  | cancel
  deriving DecidableEq, Repr

namespace UploadFile

def start : UploadFile := ⟨.hashing [], [], 0, 0, [], none⟩

/-- Every write that was begun. -/
def writes (u : UploadFile) : List FrameWrite := u.ended ++ u.pending.toList

/-- What the stream carries. -/
def bytes (u : UploadFile) : List UInt8 := u.writes.flatMap FrameWrite.bytes

def messages (u : UploadFile) : List Envelope := u.writes.map (·.message)

/-- `plain`. -/
def plain (m : ClientMessage) : Envelope := ⟨0, [], [], some m⟩

/-- `return` or `?`: whatever was being written is dropped. -/
def settle (u : UploadFile) : UploadFile := { u with ended := u.writes, pending := none }

def stop (u : UploadFile) : UploadFile := { u.settle with stage := .closed }

variable {D : Type} (C : Codec Envelope D)

def send (u : UploadFile) (e : Envelope) (stage : UploadStage) : UploadFile :=
  match encodeDelimited C e Protocol.frameBytesDefault with
  | .error _ => u.stop
  | .ok frame => { u.settle with stage := stage, pending := some ⟨e, frame, 0⟩ }

def abortUpload (u : UploadFile) : UploadFile :=
  u.send C (plain (.abortUpload u.uploadId "client cancellation")) .aborting

variable (sha256 : List UInt8 → List UInt8) (src : UploadSource)

/-- The digest is known: `validate_begin`, and the stream is opened. -/
def beginUpload (u : UploadFile) (hashed : List UInt8) : UploadFile :=
  if hashed.length ≠ src.totalBytes.toNat then u.stop
  else
    let metadata : BeginUpload := ⟨src.originalName, src.totalBytes, sha256 hashed⟩
    match validateBegin metadata uploadFileBytesHardMax with
    | .error _ => u.stop
    | .ok () => u.send C ⟨1, [], src.shellId, some (.beginUpload metadata)⟩ .beginning

/-- The head of the `while`. -/
def next (u : UploadFile) : UploadFile :=
  if u.offset < src.totalBytes then { u.settle with stage := .reading }
  else u.send C (plain (.finishUpload u.uploadId)) .finishing

def readLimit (u : UploadFile) : Nat := min (src.totalBytes - u.offset).toNat u.maximumChunkBytes.toNat

def onRead (u : UploadFile) (data : List UInt8) : UploadFile :=
  match u.stage with
  | .hashing hashed =>
    let data := data.take uploadChunkBytesMax
    if data = [] then u.beginUpload C sha256 src hashed else { u with stage := .hashing (hashed ++ data) }
  | .reading =>
    let data := data.take (u.readLimit src)
    -- the source became shorter
    if data = [] then u.abortUpload C
    else u.send C (plain (.uploadChunk ⟨u.uploadId, u.offset, data⟩)) (.sending data.length)
  | _ => u

def onWritten (u : UploadFile) : UploadFile :=
  match u.stage with
  | .beginning => { u.settle with stage := .accepting }
  | .sending read => { u with offset := u.offset + UInt64.ofNat read }.next C src
  | .finishing => { u.settle with stage := .awaitingFinished }
  | .aborting => u.stop
  | _ => u

def onAccepted (u : UploadFile) (uploadId : List UInt8) (maximumChunkBytes : UInt32) : UploadFile :=
  match u.stage with
  | .accepting =>
    if uploadId.length ≠ uploadIdBytes ∨ maximumChunkBytes = 0 ∨ maximumChunkBytes.toNat > uploadChunkBytesMax then u.stop
    else { u with uploadId := uploadId, maximumChunkBytes := maximumChunkBytes }.next C src
  | _ => u

def onCancel (u : UploadFile) : UploadFile :=
  match u.stage with
  | .hashing _ | .accepting => u.stop
  | .reading | .sending _ | .finishing | .awaitingFinished => u.abortUpload C
  -- these awaits do not look at it
  | .beginning | .aborting | .closed => u

def step (u : UploadFile) : UploadInput → UploadFile × Unit
  | .read data => (u.onRead C sha256 src data, ())
  | .takes n => ({ u with pending := u.pending.map (·.take n) }, ())
  | .written => (if ∃ w ∈ u.pending, w.done = w.frame.length then u.onWritten C src else u, ())
  | .accepted uploadId maximumChunkBytes => (u.onAccepted C src uploadId maximumChunkBytes, ())
  | .finished => (if u.stage = .awaitingFinished then u.stop else u, ())
  | .fails => (u.stop, ())
  | .cancel => (u.onCancel C, ())

def machine : Machine UploadFile UploadInput Unit := ⟨fun u i => u.step C sha256 src i⟩

/-- A cancellation that ends a write finds the frame not begun, or written to its end. -/
def betweenFrames (u : UploadFile) : UploadInput → Bool
  | .cancel =>
    match u.stage with
    | .sending _ | .finishing => u.pending.all fun w => decide w.Clean
    | _ => true
  | _ => true

/-! ## Whole frames -/

/-- Each write is its message's frame, and all of them ended at a frame's start; the last
    one of an upload that is over may not have. -/
structure Framed (u : UploadFile) : Prop where
  writing : u.pending.isSome = u.stage.writing
  frames : ∀ w ∈ u.writes, w.frame = frameOf C w.message ∧ (C.encode w.message).length ≤ Protocol.frameBytesDefault.toNat
  clean : u.stage ≠ .closed → ∀ w ∈ u.ended, w.Clean
  last : ∀ w ∈ u.writes.dropLast, w.Clean

variable {C} {u : UploadFile}

theorem framed_start : Framed C start :=
  ⟨rfl, List.forall_mem_nil _, fun _ => List.forall_mem_nil _, List.forall_mem_nil _⟩

theorem Framed.idle (h : Framed C u) (hs : u.stage.writing = false) : u.pending = none := by
  have := h.writing
  rw [hs] at this
  exact Option.not_isSome_iff_eq_none.mp (by rw [this]; decide)

/-- Nothing is written half-way, if what is being written is not. -/
theorem Framed.allClean (h : Framed C u) (hopen : u.stage ≠ .closed) (hp : ∀ w, u.pending = some w → w.Clean) :
    ∀ w ∈ u.writes, w.Clean := by
  intro w hw
  rcases List.mem_append.mp hw with hw | hw
  · exact h.clean hopen w hw
  · exact hp w (Option.mem_toList.mp hw)

theorem Framed.idleClean (h : Framed C u) (hopen : u.stage ≠ .closed) (hs : u.stage.writing = false) :
    ∀ w ∈ u.writes, w.Clean :=
  h.allClean hopen fun w hw => by rw [h.idle hs] at hw; cases hw

theorem framed_stop (h : Framed C u) : Framed C u.stop := by
  refine ⟨rfl, ?_, fun hopen => absurd rfl hopen, ?_⟩
  · intro w hw
    exact h.frames w (by simpa [stop, writes, settle] using hw)
  · intro w hw
    exact h.last w (by simpa [stop, writes, settle] using hw)

theorem framed_await (h : Framed C u) (hclean : ∀ w ∈ u.writes, w.Clean) {stage : UploadStage}
    (hs : stage.writing = false) : Framed C { u.settle with stage := stage } := by
  have hwrites : ({ u.settle with stage := stage } : UploadFile).writes = u.writes := List.append_nil _
  refine ⟨hs.symm, ?_, fun _ => hclean, ?_⟩
  · rw [hwrites]
    exact h.frames
  · rw [hwrites]
    intro w hw
    exact hclean w (List.mem_of_mem_dropLast hw)

theorem framed_send (h : Framed C u) (hclean : ∀ w ∈ u.writes, w.Clean) (e : Envelope) {stage : UploadStage}
    (hs : stage.writing = true) : Framed C (u.send C e stage) := by
  unfold send
  by_cases hfit : (C.encode e).length ≤ Protocol.frameBytesDefault.toNat
  · rw [encodeDelimited_ok hfit]
    have hwrites : ({ u.settle with stage := stage, pending := some ⟨e, frameOf C e, 0⟩ } : UploadFile).writes =
        u.writes ++ [⟨e, frameOf C e, 0⟩] := rfl
    refine ⟨hs.symm, ?_, fun _ => hclean, ?_⟩
    · rw [hwrites]
      intro w hw
      rcases List.mem_append.mp hw with hw | hw
      · exact h.frames w hw
      · cases List.mem_singleton.mp hw
        exact ⟨rfl, hfit⟩
    · rw [hwrites, List.dropLast_concat]
      exact hclean
  · rw [encodeDelimited, if_pos (by omega)]
    exact framed_stop h

theorem framed_next (h : Framed C u) (hclean : ∀ w ∈ u.writes, w.Clean) : Framed C (u.next C src) := by
  unfold next
  by_cases hmore : u.offset < src.totalBytes
  · rw [if_pos hmore]
    exact framed_await h hclean rfl
  · rw [if_neg hmore]
    exact framed_send h hclean _ rfl

theorem framed_beginUpload (h : Framed C u) (hclean : ∀ w ∈ u.writes, w.Clean) (hashed : List UInt8) :
    Framed C (u.beginUpload C sha256 src hashed) := by
  unfold beginUpload
  by_cases hlen : hashed.length ≠ src.totalBytes.toNat
  · rw [if_pos hlen]
    exact framed_stop h
  · rw [if_neg hlen]
    simp only
    split
    · exact framed_stop h
    · exact framed_send h hclean _ rfl

/-- The fields nothing of this is about. -/
theorem Framed.fields (h : Framed C u) (uploadId : List UInt8) (maximumChunkBytes : UInt32) (offset : UInt64) :
    Framed C { u with uploadId := uploadId, maximumChunkBytes := maximumChunkBytes, offset := offset } :=
  ⟨h.writing, h.frames, h.clean, h.last⟩

theorem framed_onRead (h : Framed C u) (data : List UInt8) : Framed C (u.onRead C sha256 src data) := by
  unfold onRead
  split
  · rename_i hashed hs
    have hclean := h.idleClean (by rw [hs]; exact nofun) (by rw [hs]; rfl)
    by_cases hend : data.take uploadChunkBytesMax = []
    · simp only [hend, if_true]
      exact framed_beginUpload sha256 src h hclean hashed
    · simp only [hend, if_false]
      refine ⟨?_, h.frames, ?_, h.last⟩
      · rw [h.writing, hs]
        rfl
      · intro _ w hw
        exact hclean w (List.mem_append_left _ hw)
  · rename_i hs
    have hclean := h.idleClean (by rw [hs]; exact nofun) (by rw [hs]; rfl)
    by_cases hend : data.take (u.readLimit src) = []
    · simp only [hend, if_true]
      exact framed_send h hclean _ rfl
    · simp only [hend, if_false]
      exact framed_send h hclean _ rfl
  · exact h

theorem framed_onWritten (h : Framed C u) (hdone : ∃ w ∈ u.pending, w.done = w.frame.length) :
    Framed C (u.onWritten C src) := by
  obtain ⟨w, hw, hw'⟩ := hdone
  have hclean : u.stage ≠ .closed → ∀ v ∈ u.writes, v.Clean := by
    intro hopen
    refine h.allClean hopen ?_
    intro v hv
    cases hw.symm.trans hv
    exact .inr hw'
  unfold onWritten
  split
  · rename_i hs
    exact framed_await h (hclean (by rw [hs]; exact nofun)) rfl
  · rename_i read hs
    exact framed_next src (h.fields u.uploadId u.maximumChunkBytes (u.offset + UInt64.ofNat read))
      (hclean (by rw [hs]; exact nofun))
  · rename_i hs
    exact framed_await h (hclean (by rw [hs]; exact nofun)) rfl
  · exact framed_stop h
  · exact h

theorem framed_onAccepted (h : Framed C u) (uploadId : List UInt8) (maximumChunkBytes : UInt32) :
    Framed C (u.onAccepted C src uploadId maximumChunkBytes) := by
  unfold onAccepted
  split
  · rename_i hs
    split
    · exact framed_stop h
    · exact framed_next src (h.fields uploadId maximumChunkBytes u.offset)
        (h.idleClean (by rw [hs]; exact nofun) (by rw [hs]; rfl))
  · exact h

/-- The abort begins at a frame's start: the write it ends was not half-way. -/
theorem framed_onCancel (h : Framed C u) (hok : u.betweenFrames .cancel = true) : Framed C (u.onCancel C) := by
  have hidle : u.stage ≠ .closed → u.stage.writing = false → Framed C (u.abortUpload C) := by
    intro hopen hs
    exact framed_send h (h.idleClean hopen hs) _ rfl
  have hwrite : (u.pending.all fun w => decide w.Clean) = true → u.stage ≠ .closed → Framed C (u.abortUpload C) := by
    intro hp hopen
    refine framed_send h (h.allClean hopen ?_) _ rfl
    intro w hw
    rw [hw] at hp
    exact of_decide_eq_true hp
  unfold betweenFrames at hok
  unfold onCancel
  cases hs : u.stage with
  | hashing _ => exact framed_stop h
  | beginning => exact h
  | accepting => exact framed_stop h
  | reading => exact hidle (by rw [hs]; exact nofun) (by rw [hs]; rfl)
  | sending read =>
    simp only [hs] at hok
    exact hwrite hok (by rw [hs]; exact nofun)
  | finishing =>
    simp only [hs] at hok
    exact hwrite hok (by rw [hs]; exact nofun)
  | awaitingFinished => exact hidle (by rw [hs]; exact nofun) (by rw [hs]; rfl)
  | aborting => exact h
  | closed => exact h

theorem framed_takes (h : Framed C u) (n : Nat) : Framed C { u with pending := u.pending.map (·.take n) } := by
  have hold := h.frames
  have hlast := h.last
  have hwriting := h.writing
  cases hp : u.pending with
  | none =>
    rw [← hp]
    simp only [hp, Option.map_none]
    rw [← hp]
    exact h
  | some w =>
    simp only [writes, hp, Option.toList_some, List.dropLast_concat, Option.isSome_some] at hold hlast hwriting
    refine ⟨hwriting, ?_, h.clean, ?_⟩
    · intro v hv
      simp only [writes, Option.map_some, Option.toList_some] at hv
      rcases List.mem_append.mp hv with hv | hv
      · exact hold v (List.mem_append_left _ hv)
      · cases List.mem_singleton.mp hv
        exact hold w (List.mem_append_right _ (List.mem_singleton.mpr rfl))
    · simp only [writes, Option.map_some, Option.toList_some, List.dropLast_concat]
      exact hlast

/-- What one step keeps, while no cancellation lands inside a frame. -/
theorem framed_step (h : Framed C u) {i : UploadInput} (hok : u.betweenFrames i = true) :
    Framed C (u.step C sha256 src i).1 := by
  cases i with
  | read data => exact framed_onRead sha256 src h data
  | takes n => exact framed_takes h n
  | written =>
    simp only [step]
    split
    · rename_i hdone
      exact framed_onWritten src h hdone
    · exact h
  | accepted uploadId maximumChunkBytes => exact framed_onAccepted src h uploadId maximumChunkBytes
  | finished =>
    simp only [step]
    split
    · exact framed_stop h
    · exact h
  | fails => exact framed_stop h
  | cancel => exact framed_onCancel h hok

theorem framed_run {is : List UploadInput}
    (hok : (machine C sha256 src).Admissible (fun u i => u.betweenFrames i = true) start is) :
    Framed C ((machine C sha256 src).run start is) :=
  (machine C sha256 src).run_induction (P := Framed C) (fun _ _ h hi => framed_step sha256 src h hi) framed_start hok

/-! ## The stream's bytes -/

/-- Whole frames of `messages`, and at the end at most one cut short. -/
def WholeFrames (C : Codec Envelope D) (messages : List Envelope) (bytes : List UInt8) : Prop :=
  ∃ (whole : List Envelope) (cut : List UInt8), bytes = whole.flatMap (frameOf C) ++ cut ∧ (∀ e ∈ whole, e ∈ messages) ∧
    (cut = [] ∨ ∃ e ∈ messages, cut <+: frameOf C e)

/-- Clean writes are the frames of those that were written. -/
theorem clean_bytes {ws : List FrameWrite} (hframes : ∀ w ∈ ws, w.frame = frameOf C w.message)
    (hclean : ∀ w ∈ ws, w.Clean) :
    ∃ whole : List Envelope, ws.flatMap FrameWrite.bytes = whole.flatMap (frameOf C) ∧ ∀ e ∈ whole, e ∈ ws.map (·.message) := by
  induction ws with
  | nil => exact ⟨[], rfl, List.forall_mem_nil _⟩
  | cons w ws ih =>
    obtain ⟨hw, hws⟩ := List.forall_mem_cons.mp hframes
    obtain ⟨hc, hcs⟩ := List.forall_mem_cons.mp hclean
    obtain ⟨whole, hbytes, hwhole⟩ := ih hws hcs
    rw [List.flatMap_cons, hbytes, List.map_cons]
    rcases hc with hnone | hall
    · refine ⟨whole, ?_, fun e he => List.mem_cons_of_mem _ (hwhole e he)⟩
      rw [FrameWrite.bytes, hnone, List.take_zero, List.nil_append]
    · refine ⟨w.message :: whole, ?_, ?_⟩
      · rw [FrameWrite.bytes, hall, List.take_length, hw, List.flatMap_cons]
      · intro e he
        rcases List.mem_cons.mp he with rfl | he
        · exact List.mem_cons_self
        · exact List.mem_cons_of_mem _ (hwhole e he)

theorem Framed.wholeFrames (h : Framed C u) : WholeFrames C u.messages u.bytes := by
  have hframes := h.frames
  have hlast := h.last
  unfold messages bytes
  generalize u.writes = ws at hframes hlast
  rcases List.eq_nil_or_concat' ws with rfl | ⟨pre, w, rfl⟩
  · exact ⟨[], [], rfl, List.forall_mem_nil _, .inl rfl⟩
  · rw [List.dropLast_concat] at hlast
    have hpre : ∀ v ∈ pre, v.frame = frameOf C v.message := by
      intro v hv
      exact (hframes v (List.mem_append_left _ hv)).1
    obtain ⟨whole, hbytes, hwhole⟩ := clean_bytes hpre hlast
    refine ⟨whole, w.bytes, ?_, ?_, .inr ⟨w.message, ?_, ?_⟩⟩
    · rw [List.flatMap_append, hbytes, List.flatMap_singleton]
    · intro e he
      rw [List.map_append]
      exact List.mem_append_left _ (hwhole e he)
    · simp
    · rw [FrameWrite.bytes, (hframes w (by simp)).1]
      exact List.take_prefix _ _

/-- A stream cut short is the beginning of one that is not. -/
theorem WholeFrames.cut {messages : List Envelope} {bytes : List UInt8} (h : WholeFrames C messages bytes) :
    ∃ es : List Envelope, (∀ e ∈ es, e ∈ messages) ∧ bytes <+: es.flatMap (frameOf C) := by
  obtain ⟨whole, cut, rfl, hwhole, rfl | ⟨e, he, hcut⟩⟩ := h
  · refine ⟨whole, hwhole, ?_⟩
    rw [List.append_nil]
  · refine ⟨whole ++ [e], ?_, ?_⟩
    · intro e' he'
      rcases List.mem_append.mp he' with he' | he'
      · exact hwhole e' he'
      · rw [List.mem_singleton.mp he']
        exact he
    · rw [List.flatMap_append, List.flatMap_singleton]
      exact List.prefix_append_right_inj _ |>.mpr hcut

end UploadFile

/-! ## The daemon's reader -/

/-- How a stream's reader stands after some reads. Both ends close the connection. -/
inductive StreamReader (D : Type) where
  | reading
  | refused
  | protocolError (e : FrameError D)
  deriving DecidableEq, Repr

section

variable {D σ : Type} (C : Codec Envelope D) (dispatch : σ → Envelope → σ × Bool)

def dispatchAll (conn : σ) : List Envelope → σ × Bool
  | [] => (conn, true)
  | e :: es =>
    match dispatch conn e with
    | (conn', false) => (conn', false)
    | (conn', true) => dispatchAll conn' es

/-- The reader that `register` spawns. The envelopes in front of a bad frame are dispatched
    before it is looked at. -/
def readStream (conn : σ) (decoder : FrameDecoder) : List (List UInt8) → StreamReader D
  | [] => .reading
  | bytes :: reads =>
    let r := decoder.feed C bytes
    match dispatchAll dispatch conn r.1 with
    | (_, false) => .refused
    | (conn', true) =>
      match r.2.2 with
      | .error e => .protocolError e
      | .ok () => readStream conn' r.2.1 reads

variable {C}

/-- Reads that decode are no protocol error. -/
theorem readStream_ok {decoder : FrameDecoder} {reads : List (List UInt8)}
    (h : (decoder.feedAll C reads).2.2 = .ok ()) (conn : σ) (e : FrameError D) :
    readStream C dispatch conn decoder reads ≠ .protocolError e := by
  induction reads generalizing conn decoder with
  | nil =>
    intro hr
    cases hr
  | cons bytes reads ih =>
    unfold FrameDecoder.feedAll at h
    unfold readStream
    generalize decoder.feed C bytes = r at h
    obtain ⟨es, decoder', e' | ⟨⟨⟩⟩⟩ := r
    · cases h
    · simp only
      split
      · intro hr
        cases hr
      · exact ih h _

end

/-- While no cancellation lands inside a frame, an upload's stream carries whole frames, the
    last one cut short at most, and whatever of it arrives, in whatever reads, is no protocol
    error for the daemon. -/
theorem upload_bytes_framed {D : Type} (C : Codec Envelope D) (sha256 : List UInt8 → List UInt8) (src : UploadSource)
    (is : List UploadInput)
    (hok : (UploadFile.machine C sha256 src).Admissible (fun u i => u.betweenFrames i = true) .start is) :
    let u := (UploadFile.machine C sha256 src).run .start is
    UploadFile.WholeFrames C u.messages u.bytes ∧
    ((∀ e ∈ u.messages, C.decode (C.encode e) = .ok e) →
      ∀ (σ : Type) (dispatch : σ → Envelope → σ × Bool) (conn : σ) (reads : List (List UInt8)) (e : FrameError D),
        reads.flatten <+: u.bytes →
          readStream C dispatch conn (.new Protocol.frameBytesDefault) reads ≠ .protocolError e) := by
  intro u
  have hframed := UploadFile.framed_run sha256 src hok
  refine ⟨hframed.wholeFrames, ?_⟩
  intro hinv σ dispatch conn reads e hreads
  obtain ⟨es, hes, hcut⟩ := hframed.wholeFrames.cut
  have hfits : ∀ e ∈ es, (C.encode e).length ≤ Protocol.frameBytesDefault.toNat := by
    intro e he
    obtain ⟨w, hw, rfl⟩ := List.mem_map.mp (hes e he)
    exact (hframed.frames w hw).2
  obtain ⟨_, left, hleft⟩ := drain_cut hfits (fun e he => hinv e (hes e he)) (hreads.trans hcut)
  have heq := feedAll_eq (C := C) Protocol.frameBytesDefault reads
  refine readStream_ok dispatch ?_ conn e
  exact (answer_ok (heq.trans (Prod.ext rfl hleft))).2.2

/-! ## Three bytes, cancelled -/

def abcUploadId : List UInt8 := .replicate 16 7

def abcSource : UploadSource := ⟨"abc.txt", 3, .replicate 16 9⟩

/-- The messages of the upload below, as prost writes them. -/
def abcMessages : List (Envelope × List UInt8) :=
  [(⟨1, [], .replicate 16 9, some (.beginUpload abc)⟩,
    [8, 1, 26, 16] ++ .replicate 16 9 ++ [178, 2, 45, 10, 7, 97, 98, 99, 46, 116, 120, 116, 16, 3, 26, 32] ++ abcSha256),
   (UploadFile.plain (.uploadChunk ⟨abcUploadId, 0, [97, 98, 99]⟩),
    [194, 2, 23, 10, 16] ++ abcUploadId ++ [26, 3, 97, 98, 99]),
   (UploadFile.plain (.abortUpload abcUploadId "client cancellation"),
    [218, 2, 39, 10, 16] ++ abcUploadId ++
      [18, 19, 99, 108, 105, 101, 110, 116, 32, 99, 97, 110, 99, 101, 108, 108, 97, 116, 105, 111, 110])]

/-- No other bytes come up but ones that begin with a zero, which is no field's key. -/
def abcCodec : Codec Envelope Unit where
  encode e := (abcMessages.lookup e).getD []
  decode bytes := match abcMessages.find? (·.2 == bytes) with
    | some (e, _) => .ok e
    | none => .error ()

/-- Up to the write of the one chunk, with a cancellation after `n` bytes of its frame. -/
def abcUpload (n : Nat) : List UploadInput :=
  [.read [97, 98, 99], .read [], .takes 72, .written, .accepted abcUploadId 65536, .read [97, 98, 99], .takes n, .cancel,
   .takes 46]

/-- Cancelled behind the chunk: the daemon sees the abort. -/
theorem upload_bytes_framed_abc :
    readStream abcCodec (fun (n : Nat) _ => (n + 1, true)) 0 (.new Protocol.frameBytesDefault)
      [((UploadFile.machine abcCodec abcDigest abcSource).run .start (abcUpload 30)).bytes] ≠ .protocolError (.decode ()) :=
  (upload_bytes_framed abcCodec abcDigest abcSource (abcUpload 30) (by decide)).2 (by decide) Nat _ 0 _ _ (by simp)

/-- Cancelled behind the chunk's header: the abort's frame becomes the chunk's payload. It
    does not decode, and the connection is closed. -/
theorem cancelled_chunk_closes_connection :
    ¬ ∀ is : List UploadInput,
      let u := (UploadFile.machine abcCodec abcDigest abcSource).run .start is
      UploadFile.WholeFrames abcCodec u.messages u.bytes ∧
      ((∀ e ∈ u.messages, abcCodec.decode (abcCodec.encode e) = .ok e) →
        ∀ (reads : List (List UInt8)) (e : FrameError Unit), reads.flatten <+: u.bytes →
          readStream abcCodec (fun (n : Nat) _ => (n + 1, true)) 0
            (.new Protocol.frameBytesDefault) reads ≠ .protocolError e) := by
  intro h
  refine (h (abcUpload 4)).2 (by decide) [((UploadFile.machine abcCodec abcDigest abcSource).run .start (abcUpload 4)).bytes]
    (.decode ()) (by simp) ?_
  decide +kernel

end Holdfast.Client

/-
  Holdfast.Daemon.Uploads — the actor of one upload (`run_upload` of
  `crates/daemon/src/conn.rs` over `ActiveUpload` of `crates/daemon/src/uploads.rs`), and the
  spawner's loop on the other side of its second backend (`receive_upload` of
  `crates/spawner/src/bin/holdfast-spawner.rs`).

  Both drive one `UploadWriter` with the commands they receive, in order, and stop at the
  first that fails: that is what keeps a write that failed half way from being built upon.
  The actor ends by finishing, by an abort or the loss of its sender, by a timeout or an
  error it reports, or with its task; in each case its writer is dropped, and what it did
  not commit is removed as far as the file system lets it.

  Proved:
  - `taskInv_step` / `helperInv_step`: what is stored is what was accepted and declared, and
    a drop that can remove what it should leaves nothing else.
  - `upload_integrity`: that, what is left at the end, and the bound on the offset.
-/

import Holdfast.Base.Machine
import Holdfast.Daemon.Wire
import Holdfast.Upload.Writer

namespace Holdfast.Daemon

open Holdfast.Base Holdfast.Protocol Holdfast.Upload Holdfast.Upload.UploadWriter

/-! ## Errors -/

inductive UploadError where
  | validation (e : UploadValidationError)
  | store (e : StoreError)
  | spawner (forbidden : Bool) (text : String)
  | limitExceeded
  | missingAccount
  | malformedBackendResponse
  | nonUtf8Path
  | worker (msg : String)
  deriving DecidableEq, Repr

def UploadError.toText : UploadError → String
  | .validation e => e.toText
  | .store e => e.toText
  | .spawner _ text => text
  | .limitExceeded => "upload concurrency limit exceeded"
  | .missingAccount => "multi-user upload has no resolved Unix account"
  | .malformedBackendResponse => "upload backend returned a malformed response"
  | .nonUtf8Path => "committed upload path is not UTF-8"
  | .worker msg => "upload worker failed: " ++ msg

/-- `upload_error_envelope`. -/
def uploadErrorCode : UploadError → ErrorCode × Bool
  | .limitExceeded => (.errLimitExceeded, false)
  | .validation (.fileTooLarge _ _) => (.errLimitExceeded, false)
  | .store (.invalidUpload (.fileTooLarge _ _)) => (.errLimitExceeded, false)
  | .store .checksumMismatch => (.errChecksumMismatch, false)
  | .validation _ => (.errInvalidArgument, false)
  | .store (.invalidUpload _) => (.errInvalidArgument, false)
  | .store (.lengthMismatch _ _) => (.errInvalidArgument, false)
  | .store .invalidChunkLimit => (.errInvalidArgument, false)
  | .missingAccount => (.errInvalidArgument, false)
  | .spawner true _ => (.errForbidden, false)
  | .spawner false _ => (.errInternal, true)
  | .store _ => (.errInternal, true)
  | .malformedBackendResponse => (.errInternal, true)
  | .nonUtf8Path => (.errInternal, true)
  | .worker _ => (.errInternal, true)

/-- What the actor puts on its channel last. -/
inductive UploadReply where
  | finished (uploadId : List UInt8) (remotePath : String) (bytesWritten : UInt64) (sha256 : List UInt8)
  | error (code : ErrorCode) (humanMessage : String) (retryable : Bool)
  deriving DecidableEq, Repr

def UploadReply.ofError (e : UploadError) : UploadReply :=
  .error (uploadErrorCode e).1 e.toText (uploadErrorCode e).2

/-! ## The actor -/

inductive UploadCommand where
  | chunk (chunk : UploadChunk)
  | finish (uploadId : List UInt8)
  | abort
  deriving DecidableEq, Repr

inductive UploadOutcome where
  | cancelled
  | timedOut
  | failed
  | completed
  deriving DecidableEq, Repr

inductive UploadPhase where
  | running (w : UploadWriter)
  /-- The reply is on its way to the connection; the writer may still be held. -/
  | reporting (held : Option UploadWriter) (reply : UploadReply)
  | ended
  deriving DecidableEq, Repr

structure UploadTask where
  phase : UploadPhase
  directory : Directory
  /-- The data of the chunks that were written, in order. -/
  accepted : List (List UInt8)
  outcome : Option UploadOutcome
  /-- What `UploadWriter::finish` returned, once it has committed. -/
  finished : Option CommittedUpload
  deriving DecidableEq, Repr

/-- What the operating system answers while one command is carried out; `worker` is the
    blocking task failing to run. -/
structure UploadIo where
  worker : Option String
  write : WriteOutcome
  finish : FinishEnv
  drop : DropEnv

inductive UploadInput where
  /-- `none`: every sender is gone. -/
  | recv (command : Option UploadCommand) (io : UploadIo)
  | timeout
  /-- The reply is taken, or can no longer be. -/
  | sent (drop : DropEnv)
  /-- The task itself is dropped. -/
  | cancel (drop : DropEnv)

namespace UploadTask

def start (w : UploadWriter) (d : Directory) : UploadTask := ⟨.running w, d, [], none, none⟩

def dropHeld (t : UploadTask) (held : Option UploadWriter) (env : DropEnv) : UploadTask :=
  { t with directory := (held.map fun w => w.drop t.directory env).getD t.directory, phase := .ended }

/-- `fail_active_upload`, before the reply is taken. -/
def fail (t : UploadTask) (held : Option UploadWriter) (e : UploadError) : UploadTask :=
  { t with phase := .reporting held (.ofError e), outcome := some .failed }

variable (sha256 : List UInt8 → List UInt8)

/-- `UploadCommand::Chunk`: the writer comes back from the blocking task, and is still held
    while a failure is reported. -/
def chunk (t : UploadTask) (w : UploadWriter) (c : UploadChunk) (io : UploadIo) : UploadTask :=
  match io.worker with
  | some msg => ({ t with directory := w.drop t.directory io.drop }).fail none (.worker msg)
  | none =>
    match w.writeChunk t.directory c io.write with
    | (.ok (), w, d) => { t with phase := .running w, directory := d, accepted := t.accepted ++ [c.data] }
    | (.error e, w, d) => ({ t with directory := d }).fail (some w) (.store e)

/-- `UploadCommand::Finish`: `finish` consumes the writer. -/
def finish (t : UploadTask) (w : UploadWriter) (uploadId : List UInt8) (io : UploadIo) : UploadTask :=
  match io.worker with
  | some msg => ({ t with directory := w.drop t.directory io.drop }).fail none (.worker msg)
  | none =>
    let (r, w, d) := w.finishInner sha256 t.directory uploadId none io.finish
    let t := { t with directory := w.drop d io.drop }
    match r with
    | .error e => t.fail none (.store e)
    | .ok c =>
      let t := { t with finished := some c }
      match c.remotePath with
      | none => t.fail none .nonUtf8Path
      | some path =>
        { t with phase := .reporting none (.finished c.uploadId.toWire path c.bytesWritten c.sha256)
                 outcome := some .completed }

def step (t : UploadTask) (i : UploadInput) : UploadTask × Unit :=
  match t.phase, i with
  | .running w, .recv none io => (({ t with outcome := some .cancelled }).dropHeld (some w) io.drop, ())
  | .running w, .recv (some .abort) io => (({ t with outcome := some .cancelled }).dropHeld (some w) io.drop, ())
  | .running w, .recv (some (.chunk c)) io => (t.chunk w c io, ())
  | .running w, .recv (some (.finish uploadId)) io => (t.finish sha256 w uploadId io, ())
  | .running w, .timeout =>
    ({ t with phase := .reporting (some w) (.error .errTooSlow "upload timed out waiting for data" true)
              outcome := some .timedOut }, ())
  | .running w, .cancel drop => (t.dropHeld (some w) drop, ())
  | .reporting held _, .sent drop => (t.dropHeld held drop, ())
  | .reporting held _, .cancel drop => (t.dropHeld held drop, ())
  | _, _ => (t, ())

def machine : Machine UploadTask UploadInput Unit := ⟨fun t i => t.step sha256 i⟩

end UploadTask

/-! ## The spawner's loop -/

/-- What the spawner reads from the daemon: a message, the end of the connection, or
    something it cannot use (an error, a descriptor it did not ask for). -/
inductive HelperRead where
  | chunk (chunk : UploadChunk)
  | finish (uploadId : List UInt8)
  | abort (uploadId : List UInt8)
  | closed
  | unusable
  deriving DecidableEq, Repr

structure HelperInput where
  read : HelperRead
  write : WriteOutcome
  finish : FinishEnv
  drop : DropEnv

/-- `receive_upload`, after its `Ready`: the same task, with no reply to wait for. -/
structure HelperTask where
  writer : Option UploadWriter
  directory : Directory
  accepted : List (List UInt8)
  /-- What `UploadWriter::finish_as` returned, once it has committed. -/
  finished : Option CommittedUpload
  deriving DecidableEq, Repr

namespace HelperTask

variable (sha256 : List UInt8 → List UInt8) (owner : Nat × Nat)

def start (w : UploadWriter) (d : Directory) : HelperTask := ⟨some w, d, [], none⟩

/-- Returning drops the writer. -/
def leave (t : HelperTask) (w : UploadWriter) (d : Directory) (env : DropEnv) : HelperTask :=
  { t with writer := none, directory := w.drop d env }

def step (t : HelperTask) (i : HelperInput) : HelperTask × Unit :=
  match t.writer with
  | none => (t, ())
  | some w =>
    match i.read with
    | .chunk c =>
      match w.writeChunk t.directory c i.write with
      | (.ok (), w, d) => ({ t with writer := some w, directory := d, accepted := t.accepted ++ [c.data] }, ())
      | (.error _, w, d) => (t.leave w d i.drop, ())
    | .finish uploadId =>
      let (r, w, d) := w.finishInner sha256 t.directory uploadId (some owner) i.finish
      ({ t with finished := r.toOption }.leave w d i.drop, ())
    | .abort _ => (t.leave w t.directory i.drop, ())
    | .closed => (t.leave w t.directory i.drop, ())
    | .unusable => (t.leave w t.directory i.drop, ())

def machine : Machine HelperTask HelperInput Unit := ⟨fun t i => t.step sha256 owner i⟩

end HelperTask

/-! ## What is stored, and what is left -/

section

variable (sha256 : List UInt8 → List UInt8) (w₀ : UploadWriter)

/-- What a directory may hold once its writer is gone or about to be: nothing stored but
    the accepted chunks, as declared to `w₀`. -/
def Stores (accepted : List (List UInt8)) (d : Directory) : Prop :=
  ∀ bytes, d.stored = some bytes → Intact sha256 accepted w₀ bytes

/-- The writer answered with `c`: the accepted chunks are stored, and nothing else is left. -/
structure Commits (accepted : List (List UInt8)) (d : Directory) (c : CommittedUpload) : Prop where
  path : c.remotePath = w₀.remotePath
  partialFile : d.partialFile = none
  stored : d.stored = some accepted.flatten

/-- A writer at work for the declaration `w₀` was begun with. -/
structure AtWork (accepted : List (List UInt8)) (w : UploadWriter) (d : Directory) : Prop where
  inv : WriterInv accepted w d
  same : SameUpload w₀ w

variable {sha256 w₀}

theorem stores_of_none {accepted : List (List UInt8)} {d : Directory} (h : d.stored = none) :
    Stores sha256 w₀ accepted d := by
  intro bytes hb
  rw [h] at hb
  cases hb

theorem Stores.drop {accepted : List (List UInt8)} {d : Directory} (h : Stores sha256 w₀ accepted d) (w : UploadWriter)
    (env : DropEnv) : Stores sha256 w₀ accepted (w.drop d env) :=
  fun bytes hb => h bytes (stored_of_drop hb)

theorem AtWork.within {accepted : List (List UInt8)} {w : UploadWriter} {d : Directory} (h : AtWork w₀ accepted w d) :
    accepted.flatten.length ≤ w₀.expectedBytes.toNat := by
  rw [← h.inv.written, ← h.same.bytes]
  exact h.inv.within

/-- A writer that writes a chunk goes on with it, or is left with nothing stored. -/
theorem AtWork.chunk {accepted : List (List UInt8)} {w : UploadWriter} {d : Directory} (h : AtWork w₀ accepted w d)
    (c : UploadChunk) (io : WriteOutcome) :
    (∃ w' d', w.writeChunk d c io = (.ok (), w', d') ∧ AtWork w₀ (accepted ++ [c.data]) w' d') ∨
    ∃ e d', w.writeChunk d c io = (.error e, w, d') ∧ d'.stored = none := by
  rcases writeChunk_spec h.inv c io with ⟨hok, hinv, hsame⟩ | ⟨e, he, hw, hs⟩
  · refine .inl ⟨_, _, Prod.ext hok rfl, hinv, ?_⟩
    exact ⟨hsame.bytes.trans h.same.bytes, hsame.sha.trans h.same.sha, hsame.path.trans h.same.path⟩
  · refine .inr ⟨e, _, Prod.ext he (Prod.ext hw rfl), hs⟩

/-- A writer that finishes and is dropped. -/
theorem AtWork.finish {accepted : List (List UInt8)} {w : UploadWriter} {d : Directory} (h : AtWork w₀ accepted w d)
    (uploadId : List UInt8) (owner : Option (Nat × Nat)) (env : FinishEnv) (drop : DropEnv) :
    ∃ r w' d', w.finishInner sha256 d uploadId owner env = (r, w', d') ∧
      Stores sha256 w₀ accepted (w'.drop d' drop) ∧
      ((∃ c, r = .ok c ∧ Commits w₀ accepted (w'.drop d' drop) c) ∨
        ∃ e, r = .error e ∧ (drop.removes = true → (w'.drop d' drop).Clean)) := by
  have hspec := @finishInner_spec sha256 accepted w d h.inv uploadId owner env
  generalize w.finishInner sha256 d uploadId owner env = res at hspec
  obtain ⟨r, w', d'⟩ := res
  obtain ⟨hstored, hcase⟩ := hspec
  refine ⟨r, w', d', rfl, ?_, ?_⟩
  · intro bytes hb
    have hi := hstored bytes (stored_of_drop hb)
    rw [Intact, h.same.bytes, h.same.sha] at hi
    exact hi
  · rcases hcase with ⟨c, hc, hpath, hcommit, hp, hs⟩ | ⟨e, he, hw⟩
    · have hdrop : w'.drop d' drop = d' := by
        rw [UploadWriter.drop, show w'.committed = true from hcommit, if_pos rfl]
      rw [hdrop]
      exact .inl ⟨c, hc, hpath.trans h.same.path, hp, hs⟩
    · refine .inr ⟨e, he, fun hr => ?_⟩
      rw [show w' = w from hw]
      exact drop_clean h.inv.committed hr d'

end

/-! ## The actor's runs -/

namespace UploadTask

variable (sha256 : List UInt8 → List UInt8) (w₀ : UploadWriter)

/-- What holds of the task in each phase. -/
def PhaseInv (t : UploadTask) : UploadPhase → Prop
  | .running w => t.outcome = none ∧ t.finished = none ∧ AtWork w₀ t.accepted w t.directory
  | .reporting (some w) _ =>
    t.outcome ≠ some .completed ∧ t.finished = none ∧ w.committed = false ∧ t.directory.stored = none
  | .reporting none _ => Stores sha256 w₀ t.accepted t.directory
  | .ended => Stores sha256 w₀ t.accepted t.directory

structure TaskInv (t : UploadTask) : Prop where
  phase : PhaseInv sha256 w₀ t t.phase
  within : t.accepted.flatten.length ≤ w₀.expectedBytes.toNat
  finished : ∀ c, t.finished = some c → Commits w₀ t.accepted t.directory c
  completed : t.outcome = some .completed → t.finished.isSome = true
  reported : ∀ c, t.finished = some c → t.outcome = some .completed ∨ c.remotePath = none

/-- Nothing is left, unless the writer committed. -/
def Settled (t : UploadTask) : Prop := t.finished = none → t.directory.Clean

/-- Once the writer is gone the directory is settled. -/
def PhaseSettled (t : UploadTask) : UploadPhase → Prop
  | .running _ => True
  | .reporting (some _) _ => True
  | .reporting none _ => Settled t
  | .ended => Settled t

/-- The removals of this input's drops go through. -/
def removes : UploadInput → Bool
  | .recv _ io => io.drop.removes
  | .timeout => true
  | .sent drop => drop.removes
  | .cancel drop => drop.removes

variable {sha256 w₀}

theorem stores {t : UploadTask} (h : TaskInv sha256 w₀ t) : Stores sha256 w₀ t.accepted t.directory := by
  have hp := h.phase
  generalize t.phase = p at hp
  match p, hp with
  | .running w, hp => exact stores_of_none hp.2.2.inv.stored
  | .reporting (some w) _, hp => exact stores_of_none hp.2.2.2
  | .reporting none _, hp => exact hp
  | .ended, hp => exact hp

/-- A task whose writer has not committed. -/
theorem taskInv_open {t : UploadTask} (hphase : PhaseInv sha256 w₀ t t.phase)
    (hwithin : t.accepted.flatten.length ≤ w₀.expectedBytes.toNat) (hfin : t.finished = none)
    (hne : t.outcome ≠ some .completed) : TaskInv sha256 w₀ t where
  phase := hphase
  within := hwithin
  finished c hc := by rw [hfin] at hc; cases hc
  completed hc := absurd hc hne
  reported c hc := by rw [hfin] at hc; cases hc

/-- Ending with a writer in hand drops it. -/
theorem leave_inv (t : UploadTask) {w : UploadWriter} (hw : w.committed = false) (hs : t.directory.stored = none)
    (hwithin : t.accepted.flatten.length ≤ w₀.expectedBytes.toNat) (hfin : t.finished = none)
    (hne : t.outcome ≠ some .completed) (env : DropEnv) :
    TaskInv sha256 w₀ (t.dropHeld (some w) env) ∧
      (env.removes = true → PhaseSettled (t.dropHeld (some w) env) (t.dropHeld (some w) env).phase) := by
  refine ⟨taskInv_open ?_ hwithin hfin hne, ?_⟩
  · exact (stores_of_none hs).drop w env
  · intro hr _
    exact drop_clean hw hr t.directory

theorem chunk_inv {t : UploadTask} {w : UploadWriter} (h : AtWork w₀ t.accepted w t.directory)
    (ho : t.outcome = none) (hfin : t.finished = none) (c : UploadChunk) (io : UploadIo) :
    TaskInv sha256 w₀ (t.chunk w c io) ∧
      (io.drop.removes = true → PhaseSettled (t.chunk w c io) (t.chunk w c io).phase) := by
  unfold chunk
  cases io.worker with
  | some msg =>
    refine ⟨taskInv_open ((stores_of_none h.inv.stored).drop w io.drop) h.within hfin nofun, ?_⟩
    intro hr _
    exact drop_clean h.inv.committed hr t.directory
  | none =>
    rcases h.chunk c io.write with ⟨w', d', hr, hw⟩ | ⟨e, d', hr, hs⟩
    · simp only [hr]
      refine ⟨taskInv_open ⟨ho, hfin, hw⟩ hw.within hfin ?_, fun _ => trivial⟩
      simp [ho]
    · simp only [hr]
      exact ⟨taskInv_open ⟨nofun, hfin, h.inv.committed, hs⟩ h.within hfin nofun, fun _ => trivial⟩

theorem finish_inv {t : UploadTask} {w : UploadWriter} (h : AtWork w₀ t.accepted w t.directory)
    (hfin : t.finished = none) (uploadId : List UInt8) (io : UploadIo) :
    TaskInv sha256 w₀ (t.finish sha256 w uploadId io) ∧
      (io.drop.removes = true → PhaseSettled (t.finish sha256 w uploadId io) (t.finish sha256 w uploadId io).phase) := by
  unfold finish
  cases io.worker with
  | some msg =>
    refine ⟨taskInv_open ((stores_of_none h.inv.stored).drop w io.drop) h.within hfin nofun, ?_⟩
    intro hr _
    exact drop_clean h.inv.committed hr t.directory
  | none =>
    obtain ⟨r, w', d', hr, hs, hcase⟩ := @AtWork.finish sha256 w₀ _ _ _ h uploadId none io.finish io.drop
    simp only [hr]
    rcases hcase with ⟨c, rfl, hcommits⟩ | ⟨e, rfl, hclean⟩
    · -- the writer committed: nothing is asked of its drop
      have hfinished : ∀ c', some c = some c' → Commits w₀ t.accepted (w'.drop d' io.drop) c' := by
        intro c' hc
        cases hc
        exact hcommits
      cases hpath : c.remotePath with
      | none =>
        simp only [hpath]
        refine ⟨⟨hs, h.within, hfinished, nofun, ?_⟩, fun _ => nofun⟩
        intro c' hc
        cases hc
        exact .inr hpath
      | some path =>
        simp only [hpath]
        exact ⟨⟨hs, h.within, hfinished, fun _ => rfl, fun _ _ => .inl rfl⟩, fun _ => nofun⟩
    · exact ⟨taskInv_open hs h.within hfin nofun, fun hr _ => hclean hr⟩

/-- Every input keeps what is stored intact, and settles the directory where its drop can
    remove what it should. -/
theorem taskInv_step {t : UploadTask} (h : TaskInv sha256 w₀ t) (i : UploadInput) :
    TaskInv sha256 w₀ (t.step sha256 i).1 ∧
      (PhaseSettled t t.phase → removes i = true →
        PhaseSettled (t.step sha256 i).1 (t.step sha256 i).1.phase) := by
  obtain ⟨phase, d, accepted, outcome, finished⟩ := t
  have hphase := h.phase
  have hwithin := h.within
  match phase, hphase with
  | .running w, ⟨ho, hf, hw⟩ =>
    cases ho
    cases hf
    -- the ways to end without a reply: each drops the writer
    have hleave : ∀ (o : Option UploadOutcome) (env : DropEnv), o ≠ some .completed → _ := fun o env hne =>
      @leave_inv sha256 w₀ ⟨.running w, d, accepted, o, none⟩ w hw.inv.committed hw.inv.stored hwithin rfl hne env
    match i with
    | .recv none io =>
      obtain ⟨hinv, hset⟩ := hleave (some .cancelled) io.drop nofun
      exact ⟨hinv, fun _ hr => hset hr⟩
    | .recv (some .abort) io =>
      obtain ⟨hinv, hset⟩ := hleave (some .cancelled) io.drop nofun
      exact ⟨hinv, fun _ hr => hset hr⟩
    | .recv (some (.chunk c)) io =>
      obtain ⟨hinv, hset⟩ := @chunk_inv sha256 w₀ ⟨.running w, d, accepted, none, none⟩ w hw rfl rfl c io
      exact ⟨hinv, fun _ hr => hset hr⟩
    | .recv (some (.finish uploadId)) io =>
      obtain ⟨hinv, hset⟩ := @finish_inv sha256 w₀ ⟨.running w, d, accepted, none, none⟩ w hw rfl uploadId io
      exact ⟨hinv, fun _ hr => hset hr⟩
    | .timeout =>
      exact ⟨taskInv_open ⟨nofun, rfl, hw.inv.committed, hw.inv.stored⟩ hwithin rfl nofun, fun _ _ => trivial⟩
    | .sent env => exact ⟨h, fun _ _ => trivial⟩
    | .cancel env =>
      obtain ⟨hinv, hset⟩ := hleave none env nofun
      exact ⟨hinv, fun _ hr => hset hr⟩
  | .reporting (some w) reply, ⟨hne, hf, hc, hs⟩ =>
    have hleave : ∀ env : DropEnv, _ := fun env =>
      @leave_inv sha256 w₀ ⟨.reporting (some w) reply, d, accepted, outcome, finished⟩ w hc hs hwithin hf hne env
    match i with
    | .recv _ io => exact ⟨h, fun _ _ => trivial⟩
    | .timeout => exact ⟨h, fun _ _ => trivial⟩
    | .sent env => exact ⟨(hleave env).1, fun _ hr => (hleave env).2 hr⟩
    | .cancel env => exact ⟨(hleave env).1, fun _ hr => (hleave env).2 hr⟩
  | .reporting none reply, hs =>
    have hend : TaskInv sha256 w₀ ⟨.ended, d, accepted, outcome, finished⟩ :=
      ⟨hs, hwithin, h.finished, h.completed, h.reported⟩
    match i with
    | .recv _ io => exact ⟨h, fun hset _ => hset⟩
    | .timeout => exact ⟨h, fun hset _ => hset⟩
    | .sent env => exact ⟨hend, fun hset _ => hset⟩
    | .cancel env => exact ⟨hend, fun hset _ => hset⟩
  | .ended, _ =>
    match i with
    | .recv _ io => exact ⟨h, fun hset _ => hset⟩
    | .timeout => exact ⟨h, fun hset _ => hset⟩
    | .sent env => exact ⟨h, fun hset _ => hset⟩
    | .cancel env => exact ⟨h, fun hset _ => hset⟩

theorem taskInv_start {w : UploadWriter} {d : Directory} (h : WriterInv [] w d) : TaskInv sha256 w (start w d) :=
  taskInv_open ⟨rfl, rfl, h, rfl, rfl, rfl⟩ (Nat.zero_le _) rfl nofun

theorem taskInv_run {t : UploadTask} (h : TaskInv sha256 w₀ t) (is : List UploadInput) :
    TaskInv sha256 w₀ ((machine sha256).run t is) := by
  apply Machine.run_induction (P := TaskInv sha256 w₀) (machine sha256) _ h (Machine.admissible_true _ t is)
  intro t i ht _
  exact (taskInv_step ht i).1

/-- A run whose drops remove what they should keeps the directory settled. -/
theorem settled_run {t : UploadTask} (h : TaskInv sha256 w₀ t) (hset : PhaseSettled t t.phase)
    {is : List UploadInput} (hr : ∀ i ∈ is, removes i = true) :
    PhaseSettled ((machine sha256).run t is) ((machine sha256).run t is).phase := by
  induction is generalizing t with
  | nil => exact hset
  | cons i is ih =>
    obtain ⟨hinv, hstep⟩ := taskInv_step h i
    exact ih hinv (hstep hset (hr i List.mem_cons_self)) fun j hj => hr j (List.mem_cons_of_mem _ hj)

end UploadTask

/-! ## The spawner's runs -/

namespace HelperTask

variable (sha256 : List UInt8 → List UInt8) (w₀ : UploadWriter)

structure HelperInv (t : HelperTask) : Prop where
  stores : Stores sha256 w₀ t.accepted t.directory
  within : t.accepted.flatten.length ≤ w₀.expectedBytes.toNat
  atWork : ∀ w, t.writer = some w → t.finished = none ∧ AtWork w₀ t.accepted w t.directory
  finished : ∀ c, t.finished = some c → Commits w₀ t.accepted t.directory c

/-- Once the writer is gone nothing is left, unless it committed. -/
def HelperSettled (t : HelperTask) : Prop := t.writer = none → t.finished = none → t.directory.Clean

variable {sha256 w₀} {owner : Nat × Nat}

/-- Returning without a commit. -/
theorem leave_spec {t : HelperTask} {w : UploadWriter} {d : Directory} {env : DropEnv}
    (hs : Stores sha256 w₀ t.accepted (w.drop d env)) (hw : t.accepted.flatten.length ≤ w₀.expectedBytes.toNat)
    (hf : t.finished = none) (hc : env.removes = true → (w.drop d env).Clean) :
    HelperInv sha256 w₀ (t.leave w d env) ∧ (env.removes = true → HelperSettled (t.leave w d env)) := by
  refine ⟨⟨hs, hw, nofun, ?_⟩, fun hr _ _ => hc hr⟩
  intro c hfin
  rw [show (t.leave w d env).finished = none from hf] at hfin
  cases hfin

theorem helperInv_step {t : HelperTask} (h : HelperInv sha256 w₀ t) (i : HelperInput) :
    HelperInv sha256 w₀ (t.step sha256 owner i).1 ∧
      (HelperSettled t → i.drop.removes = true → HelperSettled (t.step sha256 owner i).1) := by
  unfold step
  cases hw : t.writer with
  | none => exact ⟨h, fun hset _ => hset⟩
  | some w =>
    obtain ⟨hf, hat⟩ := h.atWork w hw
    -- the ends that leave the file as it is
    have hleave : HelperInv sha256 w₀ (t.leave w t.directory i.drop) ∧
        (HelperSettled t → i.drop.removes = true → HelperSettled (t.leave w t.directory i.drop)) := by
      obtain ⟨hinv, hset⟩ := leave_spec (h.stores.drop w i.drop) h.within hf
        fun hr => drop_clean hat.inv.committed hr t.directory
      exact ⟨hinv, fun _ => hset⟩
    cases hread : i.read with
    | chunk c =>
      rcases hat.chunk c i.write with ⟨w', d', hr, hat'⟩ | ⟨e, d', hr, hs⟩
      · simp only [hr]
        refine ⟨⟨stores_of_none hat'.inv.stored, hat'.within, ?_, ?_⟩, fun _ _ => nofun⟩
        · intro w'' hw''
          cases hw''
          exact ⟨hf, hat'⟩
        · intro c' hc
          rw [hf] at hc
          cases hc
      · simp only [hr]
        obtain ⟨hinv, hset⟩ := leave_spec ((@stores_of_none sha256 w₀ t.accepted d' hs).drop w i.drop) h.within hf
          fun hr => drop_clean hat.inv.committed hr d'
        exact ⟨hinv, fun _ => hset⟩
    | finish uploadId =>
      obtain ⟨r, w', d', hr, hs, hcase⟩ := @AtWork.finish sha256 w₀ _ _ _ hat uploadId (some owner) i.finish i.drop
      simp only [hr]
      rcases hcase with ⟨c, rfl, hcommits⟩ | ⟨e, rfl, hclean⟩
      · refine ⟨⟨hs, h.within, nofun, ?_⟩, fun _ _ _ => nofun⟩
        intro c' hc
        cases hc
        exact hcommits
      · obtain ⟨hinv, hset⟩ := @leave_spec sha256 w₀ { t with finished := none } w' d' i.drop hs h.within rfl hclean
        exact ⟨hinv, fun _ => hset⟩
    | abort uploadId => exact hleave
    | closed => exact hleave
    | unusable => exact hleave

theorem helperInv_start {w : UploadWriter} {d : Directory} (h : WriterInv [] w d) : HelperInv sha256 w (start w d) := by
  refine ⟨stores_of_none h.stored, Nat.zero_le _, ?_, nofun⟩
  intro w' hw'
  cases hw'
  exact ⟨rfl, h, rfl, rfl, rfl⟩

theorem helperInv_run {t : HelperTask} (h : HelperInv sha256 w₀ t) (is : List HelperInput) :
    HelperInv sha256 w₀ ((machine sha256 owner).run t is) ∧
      (HelperSettled t → (∀ i ∈ is, i.drop.removes = true) → HelperSettled ((machine sha256 owner).run t is)) := by
  induction is generalizing t with
  | nil => exact ⟨h, fun hset _ => hset⟩
  | cons i is ih =>
    obtain ⟨hinv, hstep⟩ := @helperInv_step sha256 w₀ owner t h i
    obtain ⟨hrun, hset⟩ := ih hinv
    refine ⟨hrun, ?_⟩
    intro hs hr
    exact hset (hstep hs (hr i List.mem_cons_self)) fun j hj => hr j (List.mem_cons_of_mem _ hj)

end HelperTask

/-! ## Upload integrity -/

section

variable (sha256 : List UInt8 → List UInt8)

/-- For every declaration, every sequence of commands and every pattern of failures, in the
    daemon's actor and in the spawner's loop: a stored file is the accepted chunks in order,
    of the declared length and digest; the offset is what was accepted and stays within the
    declaration; a `finish` that succeeds has stored the accepted chunks, and where the
    removals of the writer's drop go through, an upload that ended without one leaves neither
    file. Neither does one that did not begin. -/
theorem upload_integrity (maxFileBytes : UInt64) (metadata : BeginUpload) (maximum : UInt32) (envs : List BeginEnv) :
    (∀ w d, beginWithChunkLimit maxFileBytes metadata maximum envs = (.ok w, d) →
      (∀ is : List UploadInput,
        let t := (UploadTask.machine sha256).run (.start w d) is
        (∀ bytes, t.directory.stored = some bytes → bytes = t.accepted.flatten ∧
          bytes.length = metadata.totalBytes.toNat ∧ sha256 bytes = metadata.sha256) ∧
        (∀ w', t.phase = .running w' → w'.written.toNat = t.accepted.flatten.length ∧
          w'.written ≤ metadata.totalBytes) ∧
        t.accepted.flatten.length ≤ metadata.totalBytes.toNat ∧
        (∀ c, t.finished = some c → t.directory.partialFile = none ∧ t.directory.stored = some t.accepted.flatten ∧
          (t.outcome = some .completed ∨ w.remotePath = none)) ∧
        (t.outcome = some .completed → t.finished.isSome = true) ∧
        ((∀ i ∈ is, UploadTask.removes i = true) → t.phase = .ended → t.finished = none → t.directory.Clean)) ∧
      (∀ (owner : Nat × Nat) (is : List HelperInput),
        let t := (HelperTask.machine sha256 owner).run (.start w d) is
        (∀ bytes, t.directory.stored = some bytes → bytes = t.accepted.flatten ∧
          bytes.length = metadata.totalBytes.toNat ∧ sha256 bytes = metadata.sha256) ∧
        (∀ w', t.writer = some w' → w'.written.toNat = t.accepted.flatten.length ∧
          w'.written ≤ metadata.totalBytes) ∧
        t.accepted.flatten.length ≤ metadata.totalBytes.toNat ∧
        (∀ c, t.finished = some c → t.directory.partialFile = none ∧ t.directory.stored = some t.accepted.flatten) ∧
        ((∀ i ∈ is, i.drop.removes = true) → t.writer = none → t.finished = none → t.directory.Clean))) ∧
    (∀ e d, beginWithChunkLimit maxFileBytes metadata maximum envs = (.error e, d) →
      (∀ env ∈ envs, env.unlinkPartial = true) → d.Clean) := by
  have hspec := begin_spec maxFileBytes metadata maximum envs
  refine ⟨?_, ?_⟩
  swap
  · intro e d hbegin hu
    rw [hbegin] at hspec
    rcases hspec with ⟨w', hw, _⟩ | ⟨_, _, hclean⟩
    · cases hw
    · exact hclean hu
  intro w d hbegin
  rw [hbegin] at hspec
  obtain ⟨hinv, hbytes, hsha⟩ : WriterInv [] w d ∧ w.expectedBytes = metadata.totalBytes ∧
      w.expectedSha256 = metadata.sha256 := by
    rcases hspec with ⟨w', hw, hinv⟩ | ⟨e, he, _⟩
    · cases hw
      exact hinv
    · cases he
  -- the two loops state the invariant over the writer they began with
  have hstored : ∀ {accepted : List (List UInt8)} {d' : Directory}, Stores sha256 w accepted d' → ∀ bytes,
      d'.stored = some bytes →
        bytes = accepted.flatten ∧ bytes.length = metadata.totalBytes.toNat ∧ sha256 bytes = metadata.sha256 := by
    intro accepted d' hs bytes hb
    rw [← hbytes, ← hsha]
    exact hs bytes hb
  have hwritten : ∀ {accepted : List (List UInt8)} {w' : UploadWriter} {d' : Directory}, AtWork w accepted w' d' →
      w'.written.toNat = accepted.flatten.length ∧ w'.written ≤ metadata.totalBytes := by
    intro accepted w' d' hat
    refine ⟨hat.inv.written, ?_⟩
    rw [← hbytes, ← hat.same.bytes]
    exact UInt64.le_iff_toNat_le.mpr hat.inv.within
  refine ⟨?_, ?_⟩
  · intro is t
    have ht : UploadTask.TaskInv sha256 w t := UploadTask.taskInv_run (UploadTask.taskInv_start hinv) is
    refine ⟨hstored (UploadTask.stores ht), ?_, hbytes ▸ ht.within, ?_, ht.completed, ?_⟩
    · intro w' hw'
      have hp := ht.phase
      rw [hw'] at hp
      exact hwritten hp.2.2
    · intro c hc
      have hcommits := ht.finished c hc
      exact ⟨hcommits.partialFile, hcommits.stored, (ht.reported c hc).imp_right hcommits.path.symm.trans⟩
    · intro hr hend
      have hset := UploadTask.settled_run (UploadTask.taskInv_start hinv : UploadTask.TaskInv sha256 w _) trivial hr
      rw [show ((UploadTask.machine sha256).run (UploadTask.start w d) is).phase = .ended from hend] at hset
      exact hset
  · intro owner is t
    obtain ⟨ht, hset⟩ := @HelperTask.helperInv_run sha256 w owner _ (HelperTask.helperInv_start hinv) is
    refine ⟨hstored ht.stores, fun w' hw' => hwritten (ht.atWork w' hw').2, hbytes ▸ ht.within, ?_, ?_⟩
    · intro c hc
      exact ⟨(ht.finished c hc).partialFile, (ht.finished c hc).stored⟩
    · intro hr hend
      exact hset nofun hr hend

end

/-! ## One upload of `abc` -/

def abcSha256 : List UInt8 :=
  [0xba, 0x78, 0x16, 0xbf, 0x8f, 0x01, 0xcf, 0xea, 0x41, 0x41, 0x40, 0xde, 0x5d, 0xae, 0x22, 0x23,
   0xb0, 0x03, 0x61, 0xa3, 0x96, 0x17, 0x7a, 0x9c, 0xb4, 0x10, 0xff, 0x61, 0xf2, 0x00, 0x15, 0xad]

def abc : BeginUpload := ⟨"abc.txt", 3, abcSha256⟩

def abcId : UploadId := ⟨.replicate 16 7⟩

/-- Everything goes through. -/
def abcBegin : BeginEnv := ⟨abcId, some "/uploads/07/abc.txt", some (.ok ()), .ok (), .ok (), .ok (), .ok (), true, true⟩
def smoothFinish : FinishEnv := ⟨.ok (), .ok (), .ok (), .ok (), .ok (), .ok (), .ok ()⟩
def smoothIo : UploadIo := ⟨none, .ok (), smoothFinish, ⟨true, true, true⟩⟩

def abcWriter : UploadWriter := ⟨some "/uploads/07/abc.txt", abcId, 3, abcSha256, 65536, 0, [], false⟩

/-- The digest of the one input it is asked about. -/
def abcDigest (bytes : List UInt8) : List UInt8 := if bytes = [97, 98, 99] then abcSha256 else []

/-- Two chunks and a finish store `abc`. -/
theorem upload_integrity_abc :
    beginWithChunkLimit 1024 abc 65536 [abcBegin] = (.ok abcWriter, ⟨true, some [], none⟩) ∧
    let t := (UploadTask.machine abcDigest).run (.start abcWriter ⟨true, some [], none⟩)
      [.recv (some (.chunk ⟨abcId.toWire, 0, [97, 98]⟩)) smoothIo, .recv (some (.chunk ⟨abcId.toWire, 2, [99]⟩)) smoothIo,
        .recv (some (.finish abcId.toWire)) smoothIo, .sent ⟨true, true, true⟩]
    t.directory = ⟨true, none, some [97, 98, 99]⟩ ∧ t.outcome = some .completed ∧
      t.accepted.flatten.length ≤ 3 ∧ t.directory.partialFile = none ∧ t.directory.stored = some t.accepted.flatten := by
  have hbegin : beginWithChunkLimit 1024 abc 65536 [abcBegin] = (.ok abcWriter, ⟨true, some [], none⟩) := by decide
  obtain ⟨hstored, _, hlen, hfinished, _⟩ := ((upload_integrity abcDigest 1024 abc 65536 [abcBegin]).1 _ _ hbegin).1
    [.recv (some (.chunk ⟨abcId.toWire, 0, [97, 98]⟩)) smoothIo, .recv (some (.chunk ⟨abcId.toWire, 2, [99]⟩)) smoothIo,
      .recv (some (.finish abcId.toWire)) smoothIo, .sent ⟨true, true, true⟩]
  refine ⟨hbegin, by decide, by decide, hlen, ?_⟩
  obtain ⟨hp, hs, _⟩ := hfinished ⟨abcId, some "/uploads/07/abc.txt", 3, abcSha256⟩ (by decide)
  exact ⟨hp, hs⟩

/-- An abort whose removals fail leaves the partial; and a writer on its own, when it is
    used again after a write that failed half way, stores more than it accepted. -/
theorem failed_removal_leaves_partial :
    (beginWithChunkLimit 1024 abc 65536 [abcBegin] = (.ok abcWriter, ⟨true, some [], none⟩) ∧
      let t := (UploadTask.machine abcDigest).run (.start abcWriter ⟨true, some [], none⟩)
        [.recv (some (.chunk ⟨abcId.toWire, 0, [97, 98]⟩)) smoothIo,
          .recv (some .abort) { smoothIo with drop := ⟨false, false, false⟩ }]
      t.phase = .ended ∧ t.outcome = some .cancelled ∧ t.directory.partialFile = some [97, 98]) ∧
    (let r₁ := abcWriter.writeChunk ⟨true, some [], none⟩ ⟨abcId.toWire, 0, [97, 98, 99]⟩ (.error (1, "ENOSPC"))
      let r₂ := r₁.2.1.writeChunk r₁.2.2 ⟨abcId.toWire, 0, [97, 98, 99]⟩ (.ok ())
      let r₃ := r₂.2.1.finishInner abcDigest r₂.2.2 abcId.toWire none smoothFinish
      r₁.1 ≠ .ok () ∧ r₂.1 = .ok () ∧ r₃.2.2.stored = some [97, 97, 98, 99]) := by
  decide

end Holdfast.Daemon

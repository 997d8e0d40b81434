/-
  Holdfast.Daemon.UploadChannel — where the failure of an upload shows.

  The specification lets an upload's error close its channel and nothing else, and remove
  the partial. The daemon's ways to fall short of it:
  - a command that waits for room while the actor ends is answered by closing the
    connection;
  - a chunk with another id, and a second begin on the channel, are answered by an error and
    leave the upload bound.
  `upload_failure_closes_connection` has all three. Everywhere else an error finds the
  channel unbound, and the actor, without a sender, works off its queue, ends and takes the
  partial with it.

  Proved:
  - `upload_answer`: what a dispatch of an upload message answers.
  - `remaining_step`: an actor without a sender comes closer to its end with every move.
  - `tasksInv_step`: an actor that has ended has left no partial.
  - `upload_failures_contained`: these, over runs.
-/

import Holdfast.Daemon.Actors
import Holdfast.Daemon.Gate
import Holdfast.Daemon.Roles

namespace Holdfast.Daemon

open Holdfast.Base Holdfast.Protocol Holdfast.Session Holdfast.Upload

def ClientMessage.isUpload : ClientMessage → Bool
  | .beginUpload _ => true
  | .uploadChunk _ => true
  | .finishUpload _ => true
  | .abortUpload _ _ => true
  | _ => false

def Envelope.isUpload (e : Envelope) : Bool := (e.message.map (·.isUpload)).getD false

/-- How far the actor is from its end, at most, if nothing more is sent to it. -/
def UploadActor.remaining (x : UploadActor) : Nat :=
  match x.task.phase with
  | .running _ => x.queue.length + 2
  | .reporting _ _ => 1
  | .ended => 0

/-- The input is what the actor does next by itself. -/
def UploadActor.moves (x : UploadActor) (input : World.ActorInput) : Bool :=
  match x.task.phase, input with
  | .running _, .take _ => true
  | .reporting _ _, .sent _ => true
  | _, _ => false

/-- The removals of this input's drops go through. -/
def World.ActorInput.removes : World.ActorInput → Bool
  | .take io => io.drop.removes
  | .timeout => true
  | .sent drop => drop.removes
  | .cancel drop => drop.removes

def Input.removes : Input → Bool
  | .upload _ input => input.removes
  | _ => true

/-- An error was sent on the channel. -/
def Output.errorOn (o : Output) (channel : Nat) : Bool := o.replies.any fun x => x.1 == channel && x.2.message.isError

namespace World

variable {V : Type} {A : App V} {w w' : World V} {channel : Nat} {e : Envelope} {env : DispatchEnv}

/-! ## Answers of the connection -/

/-- The upload that is bound is the one a chunk names, a begin finds none, and an actor
    that is being sent to is still there. -/
def contained (w : World V) : Input → Bool
  | .message channel e _ =>
    w.pending.isSome ||
      match e.message with
      | some (.uploadChunk c) => (w.sweep.conn.uploads.lookup channel).all fun b => c.uploadId == b.uploadId
      | some (.beginUpload _) => (w.sweep.conn.uploads.lookup channel).isNone
      | _ => true
  | .resume _ =>
    match w.pending with
    | some (.sending a _) => w.actorRunning a
    | _ => true
  | _ => true

/-- The answer to an upload message: the connection is closed only if its writer is gone,
    and after an error the channel is unbound. -/
structure UploadAnswer (w : World V) (channel : Nat) (env : DispatchEnv) (s : Step V) : Prop where
  stays : s.2.returned = some false → env.out = false
  unbound : s.2.errorOn channel = true → s.1.conn.uploads.lookup channel = none ∧ s.1.pending = w.pending

theorem UploadAnswer.answer {replies : List (Nat × Reply)} {calls : List Call} (w' : World V)
    (hu : w'.conn.uploads.lookup channel = none) (hp : w'.pending = w.pending) :
    UploadAnswer w channel env (w'.answer env replies calls) := by
  refine ⟨?_, fun _ => ⟨hu, hp⟩⟩
  intro h
  simpa [World.answer] using h

/-- Without an error, and with nothing said about closing. -/
theorem UploadAnswer.quiet {s : Step V} (hr : s.2.returned ≠ some false) (hq : s.2.errorOn channel = false) :
    UploadAnswer w channel env s := by
  refine ⟨fun h => absurd h hr, ?_⟩
  intro h
  rw [hq] at h
  cases h

theorem sendCommand_answer (w' : World V) (b : UploadBinding) (command : UploadCommand) :
    UploadAnswer w channel env (w'.sendCommand b command) := .quiet nofun rfl

theorem startUpload_answer {id : ShellId} {maxFileBytes : UInt64} {metadata : BeginUpload} (requestId : UInt64)
    (hu : w.conn.uploads.lookup channel = none) :
    UploadAnswer w channel env (w.startUpload A env channel requestId id maxFileBytes metadata) := by
  unfold startUpload
  split
  · exact .answer w hu rfl
  · refine ⟨?_, ?_⟩
    · intro h
      simpa [World.answer] using h
    · intro h
      simp [Output.errorOn, World.answer, ServerMessage.isError] at h

theorem beginUpload_answer {metadata : BeginUpload} (hu : w.conn.uploads.lookup channel = none) :
    UploadAnswer w channel env (w.beginUpload A env channel e metadata) := by
  unfold beginUpload
  split
  · exact .answer w hu rfl
  · split
    · exact .answer w hu rfl
    · split
      · exact .answer w hu rfl
      · split
        · exact .answer w hu rfl
        · split
          · exact .answer w hu rfl
          · split
            · exact .answer w hu rfl
            · split
              · exact .answer w hu rfl
              · split
                · exact .answer w hu rfl
                · split
                  · exact .answer w hu rfl
                  · exact startUpload_answer e.requestId hu

theorem uploadChunk_answer {chunk : UploadChunk} (requestId : UInt64)
    (hid : (w.conn.uploads.lookup channel).all (fun b => chunk.uploadId == b.uploadId) = true) :
    UploadAnswer w channel env (w.uploadChunk env channel requestId chunk) := by
  unfold uploadChunk
  split
  · rename_i hnone
    exact .answer w hnone rfl
  · rename_i b hb
    rw [hb] at hid
    rw [if_neg (not_not.mpr (beq_iff_eq.mp hid))]
    exact sendCommand_answer w b _

theorem unbindUpload_lookup (w : World V) (channel : Nat) : (w.unbindUpload channel).conn.uploads.lookup channel = none :=
  AList.lookup_erase channel w.conn.uploads

theorem finishUpload_answer (requestId : UInt64) (uploadId : List UInt8) :
    UploadAnswer w channel env (w.finishUpload env channel requestId uploadId) := by
  unfold finishUpload
  split
  · rename_i hnone
    exact .answer w hnone rfl
  · split
    · exact .answer _ (unbindUpload_lookup w channel) rfl
    · exact sendCommand_answer _ _ _

theorem abortUpload_answer (requestId : UInt64) (uploadId : List UInt8) (reason : String) :
    UploadAnswer w channel env (w.abortUpload env channel requestId uploadId reason) := by
  unfold abortUpload
  split
  · exact .quiet nofun rfl
  · split
    · exact .answer _ (unbindUpload_lookup w channel) rfl
    · exact sendCommand_answer _ _ _

theorem forwardMessage_answer {t : Nat} (hu : w.conn.uploads.lookup channel = none) :
    UploadAnswer w channel env (w.forwardMessage env channel t e) := by
  unfold forwardMessage
  split
  · exact .quiet nofun rfl
  · exact .answer _ hu rfl

/-- Every dispatch of an upload message. -/
theorem upload_answer (h : Linked w) (hbare : w.Bare) (hm : e.isUpload = true)
    (hchunk : ∀ c, e.message = some (.uploadChunk c) →
      (w.conn.uploads.lookup channel).all (fun b => c.uploadId == b.uploadId) = true)
    (hbegin : ∀ metadata, e.message = some (.beginUpload metadata) → w.conn.uploads.lookup channel = none) :
    UploadAnswer w channel env (w.dispatchSwept A channel e env) := by
  unfold dispatchSwept
  split
  · rename_i hnone
    rw [Envelope.isUpload, hnone] at hm
    cases hm
  · rename_i m hmsg
    rw [Envelope.isUpload, hmsg] at hm
    split
    · rename_i hauth
      exact .answer w ((hbare hauth.1).uploads channel) rfl
    · split
      · rename_i t ht
        refine forwardMessage_answer ?_
        rcases h.exclusive channel with hn | hn
        · exact hn
        · rw [hn] at ht
          cases ht
      · split
        · rename_i hc
          subst hc
          cases m with
          | beginUpload metadata => exact .answer w h.control rfl
          | uploadChunk chunk => exact .answer w h.control rfl
          | finishUpload uploadId => exact .answer w h.control rfl
          | abortUpload uploadId reason => exact .answer w h.control rfl
          | _ => cases hm
        · cases m with
          | beginUpload metadata => exact beginUpload_answer (hbegin metadata hmsg)
          | uploadChunk chunk => exact uploadChunk_answer e.requestId (hchunk chunk hmsg)
          | finishUpload uploadId => exact finishUpload_answer e.requestId uploadId
          | abortUpload uploadId reason => exact abortUpload_answer e.requestId uploadId reason
          | _ => cases hm

/-! ## The way to the actor's end -/

def remaining (w : World V) (a : Nat) : Nat := (w.actors[a]?.map (·.remaining)).getD 0

def ownMove (w : World V) (a : Nat) : Input → Bool
  | .upload a' input => a' == a && (w.actors[a]?.map (·.moves input)).getD false
  | _ => false

variable (A) in
/-- The moves of the actor along a run. -/
def moves (a : Nat) (w : World V) : List Input → Nat
  | [] => 0
  | i :: is => (w.ownMove a i).toNat + moves a (w.step A i).1 is

theorem remaining_le (x : UploadActor) : x.remaining ≤ x.queue.length + 2 := by
  unfold UploadActor.remaining
  split <;> omega

theorem actorStep_remaining (x : UploadActor) (input : ActorInput) :
    (x.moves input).toNat + (actorStep A x false input).1.remaining ≤ x.remaining := by
  obtain ⟨channel, requestId, shellId, ⟨phase, d, accepted, outcome, finished⟩, queue⟩ := x
  cases phase with
  | running writer =>
    cases input with
    | take io =>
      cases queue with
      | nil =>
        show 1 + 0 ≤ 0 + 2
        omega
      | cons command queue =>
        have := remaining_le ⟨channel, requestId, shellId,
          (UploadTask.step A.sha256 ⟨.running writer, d, accepted, outcome, finished⟩ (.recv (some command) io)).1, queue⟩
        simp only [actorStep, UploadActor.moves, UploadActor.remaining, List.length_cons, Bool.toNat_true] at this ⊢
        omega
    | timeout =>
      cases queue with
      | nil =>
        show 0 + 1 ≤ 0 + 2
        omega
      | cons command queue => exact Nat.le_of_eq (Nat.zero_add _)
    | sent drop => exact Nat.le_of_eq (Nat.zero_add _)
    | cancel drop => exact Nat.zero_le _
  | reporting held reply =>
    cases input with
    | take io =>
      cases queue with
      | nil => exact Nat.le_of_eq (Nat.zero_add 1)
      | cons command queue => exact Nat.le_of_eq (Nat.zero_add 1)
    | timeout =>
      cases queue with
      | nil => exact Nat.le_of_eq (Nat.zero_add 1)
      | cons command queue => exact Nat.le_of_eq (Nat.zero_add 1)
    | sent drop => exact Nat.le_refl 1
    | cancel drop => exact Nat.zero_le _
  | ended =>
    cases input with
    | take io =>
      cases queue with
      | nil => exact Nat.le_refl 0
      | cons command queue => exact Nat.le_refl 0
    | timeout =>
      cases queue with
      | nil => exact Nat.le_refl 0
      | cons command queue => exact Nat.le_refl 0
    | sent drop => exact Nat.le_refl 0
    | cancel drop => exact Nat.le_refl 0

/-- Nobody else touches an actor without a sender. -/
theorem step_other_actor (hk : w.manager.Keyed) {a : Nat} (h : CutOff w a) {i : Input}
    (hi : ∀ input, i ≠ .upload a input) : (w.step A i).1.actors[a]? = w.actors[a]? := by
  cases i with
  | message channel e env =>
    simp only [step]
    split
    · rfl
    · show (w.sweep.dispatchSwept A channel e env).1.actors[a]? = _
      rcases (dispatchSwept_outcome (A := A) (w := w.sweep) hk channel e env).change.actors with hs | ⟨_, _, _, _, hs⟩
      · rw [hs]
        rfl
      · rw [hs]
        exact List.getElem?_append_left h.started
  | resume env =>
    show (w.resume A env).1.actors[a]? = _
    cases (resume_cases env : Resumed A w (w.resume A env)) with
    | waits hs => rw [hs]
    | terminated _ _ _ _ h1 _ => rw [h1]
    | failed _ _ _ _ hs => rw [hs]
    | sent a' command x hp _ hx _ hs =>
      have hne : a' ≠ a := by
        rintro rfl
        exact h.notSending command hp
      rw [hs]
      exact List.getElem?_set_ne hne
  | channelClosed channel =>
    simp only [step]
    split
    · rfl
    · rw [channelClosed_actors]
  | gone =>
    simp only [step]
    split <;> rfl
  | upload a' input =>
    have hne : a' ≠ a := by
      rintro rfl
      exact hi input rfl
    simp only [step]
    split
    · rfl
    · exact List.getElem?_set_ne hne
  | forwardEnds t => rfl
  | manager op => rfl

theorem remaining_step (hk : w.manager.Keyed) {a : Nat} (h : CutOff w a) (i : Input) :
    (w.ownMove a i).toNat + (w.step A i).1.remaining a ≤ w.remaining a := by
  by_cases hi : ∃ input, i = .upload a input
  · obtain ⟨input, rfl⟩ := hi
    have hx : w.actors[a]? = some (w.actors.get ⟨a, h.started⟩) := List.getElem?_eq_getElem _
    have hmove := actorStep_remaining (A := A) (w.actors.get ⟨a, h.started⟩) input
    simp only [step, hx, h.hasSender, ownMove, remaining, List.getElem?_set_self h.started, Option.map_some,
      Option.getD_some, beq_self_eq_true, Bool.true_and]
    exact hmove
  · have hother := step_other_actor (A := A) hk h fun input hin => hi ⟨input, hin⟩
    have hno : w.ownMove a i = false := by
      cases i with
      | upload a' input =>
        have hne : a' ≠ a := by
          rintro rfl
          exact hi ⟨input, rfl⟩
        simp [ownMove, hne]
      | _ => rfl
    rw [hno, remaining, hother]
    exact Nat.le_of_eq (Nat.zero_add _)

theorem remaining_run (hk : w.manager.Keyed) {a : Nat} (h : CutOff w a) (is : List Input) :
    moves A a w is + ((machine A).run w is).remaining a ≤ w.remaining a := by
  induction is generalizing w with
  | nil => exact Nat.le_of_eq (Nat.zero_add _)
  | cons i is ih =>
    have hstep := remaining_step (A := A) hk h i
    have hrest : _ ≤ (w.step A i).1.remaining a := ih (step_keyed hk i) (cutOff_step hk h i)
    have hrun : (machine A).run w (i :: is) = (machine A).run (w.step A i).1 is := rfl
    rw [hrun, moves]
    omega

/-- An actor that has not ended has a move. -/
theorem ownMove_of_remaining {a : Nat} (h : w.remaining a ≠ 0) (io : UploadIo) :
    w.ownMove a (.upload a (.take io)) = true ∨ w.ownMove a (.upload a (.sent io.drop)) = true := by
  unfold remaining at h
  cases hx : w.actors[a]? with
  | none =>
    rw [hx] at h
    exact absurd rfl h
  | some x =>
    rw [hx] at h
    simp only [Option.map_some, Option.getD_some] at h
    simp only [ownMove, hx, beq_self_eq_true, Bool.true_and, Option.map_some, Option.getD_some]
    obtain ⟨channel, requestId, shellId, ⟨phase, d, accepted, outcome, finished⟩, queue⟩ := x
    cases phase with
    | running writer => exact .inl rfl
    | reporting held reply => exact .inr rfl
    | ended => exact absurd rfl h

/-! ## What the actors leave -/

variable (A) in
/-- Every actor is at work or has settled its directory. -/
def TasksInv (w : World V) : Prop :=
  ∀ x ∈ w.actors, ∃ w₀, UploadTask.TaskInv A.sha256 w₀ x.task ∧ UploadTask.PhaseSettled x.task x.task.phase

theorem actorStep_task (x : UploadActor) (sender : Bool) (input : ActorInput) :
    (actorStep A x sender input).1.task = x.task ∨
      ∃ i, (actorStep A x sender input).1.task = (x.task.step A.sha256 i).1 ∧
        (input.removes = true → UploadTask.removes i = true) := by
  cases input with
  | take io =>
    unfold actorStep
    cases hq : x.queue with
    | cons command queue =>
      simp only
      cases hp : x.task.phase with
      | running writer => exact .inr ⟨.recv (some command) io, rfl, id⟩
      | reporting held reply => exact .inl rfl
      | ended => exact .inl rfl
    | nil =>
      cases sender with
      | true => exact .inl rfl
      | false => exact .inr ⟨.recv none io, rfl, id⟩
  | timeout =>
    simp only [actorStep]
    split
    · exact .inr ⟨.timeout, rfl, id⟩
    · exact .inl rfl
  | sent drop => exact .inr ⟨.sent drop, rfl, id⟩
  | cancel drop => exact .inr ⟨.cancel drop, rfl, id⟩

theorem TasksInv.set {a : Nat} {y : UploadActor} (h : TasksInv A w) (hactors : w'.actors = w.actors.set a y)
    (hy : ∃ w₀, UploadTask.TaskInv A.sha256 w₀ y.task ∧ UploadTask.PhaseSettled y.task y.task.phase) :
    TasksInv A w' := by
  intro x hx
  rw [hactors] at hx
  rcases List.mem_or_eq_of_mem_set hx with hx | rfl
  · exact h x hx
  · exact hy

theorem tasksInv_step (hk : w.manager.Keyed) (h : TasksInv A w) {i : Input} (hr : i.removes = true) :
    TasksInv A (w.step A i).1 := by
  cases i with
  | message channel e env =>
    simp only [step]
    split
    · exact h
    · rcases (dispatchSwept_outcome (A := A) (w := w.sweep) hk channel e env).change.actors with hs | ⟨id, writer, d, hw, hs⟩
      · intro x hx
        rw [show (w.dispatch A channel e env).1.actors = w.actors from hs] at hx
        exact h x hx
      · intro x hx
        rw [show (w.dispatch A channel e env).1.actors = w.actors ++ [_] from hs] at hx
        rcases List.mem_append.mp hx with hx | hx
        · exact h x hx
        · cases List.mem_singleton.mp hx
          exact ⟨writer, UploadTask.taskInv_start hw, trivial⟩
  | resume env =>
    show TasksInv A (w.resume A env).1
    cases (resume_cases env : Resumed A w (w.resume A env)) with
    | waits hs => rw [hs]; exact h
    | terminated _ _ _ _ h1 _ => rw [h1]; exact h
    | failed _ _ _ _ hs => rw [hs]; exact h
    | sent a command x hp _ hx _ hs =>
      rw [hs]
      exact h.set rfl (h x (List.mem_of_getElem? hx))
  | channelClosed channel =>
    simp only [step]
    split
    · exact h
    · intro x hx
      rw [channelClosed_actors] at hx
      exact h x hx
  | gone =>
    simp only [step]
    split
    · exact h
    · exact h
  | upload a input =>
    simp only [step]
    split
    · exact h
    · rename_i x hx
      refine h.set rfl ?_
      obtain ⟨w₀, hinv, hset⟩ := h x (List.mem_of_getElem? hx)
      rcases actorStep_task (A := A) x (w.hasSender a) input with hsame | ⟨i, hs, hri⟩
      · rw [hsame]
        exact ⟨w₀, hinv, hset⟩
      · rw [hs]
        obtain ⟨hinv', hset'⟩ := UploadTask.taskInv_step hinv i
        exact ⟨w₀, hinv', hset' hset (hri hr)⟩
  | forwardEnds t => exact h
  | manager op => exact h

/-- The partial of an actor's upload. -/
def partialOf (w : World V) (a : Nat) : Option (List UInt8) := w.actors[a]?.bind (·.task.directory.partialFile)

theorem TasksInv.partialOf (h : TasksInv A w) {a : Nat} (ha : w.remaining a = 0) : w.partialOf a = none := by
  unfold remaining at ha
  unfold World.partialOf
  cases hx : w.actors[a]? with
  | none => rfl
  | some x =>
    rw [hx] at ha
    simp only [Option.map_some, Option.getD_some] at ha
    obtain ⟨w₀, hinv, hset⟩ := h x (List.mem_of_getElem? hx)
    obtain ⟨channel, requestId, shellId, ⟨phase, d, accepted, outcome, finished⟩, queue⟩ := x
    cases phase with
    | running writer => cases ha
    | reporting held reply => cases ha
    | ended =>
      cases finished with
      | none => exact (hset rfl).1
      | some c => exact (hinv.finished c rfl).partialFile

/-! ## The answers of an actor -/

theorem actorStep_reply {x : UploadActor} {sender : Bool} {input : ActorInput}
    (h : (actorStep A x sender input).2 ≠ []) : (actorStep A x sender input).1.remaining = 0 := by
  obtain ⟨channel, requestId, shellId, ⟨phase, d, accepted, outcome, finished⟩, queue⟩ := x
  cases input with
  | take io =>
    refine absurd ?_ h
    cases queue with
    | cons command queue => cases phase <;> rfl
    | nil => cases sender <;> rfl
  | timeout =>
    refine absurd ?_ h
    cases queue <;> rfl
  | sent drop =>
    cases phase with
    | running writer => exact absurd rfl h
    | reporting held reply => rfl
    | ended => rfl
  | cancel drop => exact absurd rfl h

theorem remaining_of_running {a : Nat} (h : w.actorRunning a = true) : w.remaining a ≠ 0 := by
  unfold actorRunning at h
  unfold remaining
  cases hx : w.actors[a]? with
  | none =>
    rw [hx] at h
    cases h
  | some x =>
    rw [hx] at h
    simp only [Option.map_some, Option.getD_some] at h ⊢
    obtain ⟨channel, requestId, shellId, ⟨phase, d, accepted, outcome, finished⟩, queue⟩ := x
    cases phase with
    | running writer => exact Nat.succ_ne_zero _
    | reporting held reply => exact Nat.one_ne_zero
    | ended => cases h

/-! ## Over runs -/

variable (A) in
/-- No failure of an upload shows in this step beyond its channel: dispatching an upload
    message does not close the connection, unless its writer is gone; an error that answers
    one finds the channel unbound and the actor without a sender; and an actor that says its
    last has ended, so that its binding no longer counts. -/
structure Contains (w : World V) (i : Input) : Prop where
  stays : ∀ channel e env, i = .message channel e env → e.isUpload = true →
    (w.step A i).2.returned = some false → env.out = false
  staysSending : ∀ env a command, i = .resume env → w.pending = some (.sending a command) →
    (w.step A i).2.returned ≠ some false
  unbound : ∀ channel e env, i = .message channel e env → e.isUpload = true →
    (w.step A i).2.errorOn channel = true → (w.step A i).1.conn.uploads.lookup channel = none ∧
      ∀ b, w.sweep.conn.uploads.lookup channel = some b → CutOff (w.step A i).1 b.actor
  ended : ∀ a input, i = .upload a input → (w.step A i).2.replies ≠ [] →
    (w.step A i).1.remaining a = 0 ∧ ∀ k b, (w.step A i).1.sweep.conn.uploads.lookup k = some b → b.actor ≠ a

/-- What holds after every run. -/
structure ChannelInv (w : World V) : Prop where
  keyed : w.manager.Keyed
  linked : Linked w
  bare : w.Bare

theorem channelInv_step (h : ChannelInv w) (i : Input) : ChannelInv (w.step A i).1 :=
  ⟨step_keyed h.keyed i, linked_step h.keyed h.linked i, bare_step h.keyed h.bare i⟩

theorem channelInv_initial (datagrams : Bool) (channelBinding : List UInt8) :
    ChannelInv (initial datagrams channelBinding (Manager.empty : Manager V)) :=
  ⟨Manager.idemInv_empty.keyed, linked_initial datagrams channelBinding _,
    fun _ => ⟨fun _ => rfl, fun _ => rfl, fun _ => rfl, rfl⟩⟩

theorem ChannelInv.sweep (h : ChannelInv w) : ChannelInv w.sweep :=
  ⟨h.keyed, linked_sweep h.linked, fun hu => (h.bare hu).shrinks (shrinks_sweep w)⟩

theorem actor_ended {a : Nat} {input : ActorInput} (h : (w.step A (.upload a input)).2.replies ≠ []) :
    (w.step A (.upload a input)).1.remaining a = 0 ∧
      ∀ k b, (w.step A (.upload a input)).1.sweep.conn.uploads.lookup k = some b → b.actor ≠ a := by
  have hend : (w.step A (.upload a input)).1.remaining a = 0 := by
    cases hx : w.actors[a]? with
    | none =>
      simp only [step, hx] at h
      exact absurd rfl h
    | some x =>
      obtain ⟨hlt, _⟩ := List.getElem?_eq_some_iff.mp hx
      simp only [step, hx] at h ⊢
      simp only [remaining, List.getElem?_set_self hlt, Option.map_some, Option.getD_some]
      exact actorStep_reply h
  refine ⟨hend, ?_⟩
  rintro k b hb rfl
  simp only [World.sweep, Table.lookup_retain, Option.filter_eq_some_iff] at hb
  exact remaining_of_running hb.2 hend

/-- The condition is enough. -/
theorem contains_of_contained (h : ChannelInv w) {i : Input} (hok : w.contained i = true) : Contains A w i := by
  have hanswer : ∀ channel e env, i = .message channel e env → e.isUpload = true →
      (w.step A i).2 = .none ∨
        w.pending = none ∧ UploadAnswer w.sweep channel env (w.sweep.dispatchSwept A channel e env) ∧
          w.step A i = w.sweep.dispatchSwept A channel e env := by
    rintro channel e env rfl hup
    cases hp : w.pending with
    | some p => exact .inl (by rw [step_waiting hp])
    | none =>
      simp only [contained, hp, Option.isSome_none, Bool.false_or] at hok
      refine .inr ⟨rfl, upload_answer h.sweep.linked h.sweep.bare hup ?_ ?_, step_message hp channel e env⟩
      · intro c hc
        rw [hc] at hok
        exact hok
      · intro metadata hc
        rw [hc] at hok
        exact Option.isNone_iff_eq_none.mp hok
  refine ⟨?_, ?_, ?_, ?_⟩
  · intro channel e env hi hup hr
    rcases hanswer channel e env hi hup with hnone | ⟨_, hans, hs⟩
    · rw [hnone] at hr
      cases hr
    · rw [hs] at hr
      exact hans.stays hr
  · rintro env a command rfl hp
    show (w.resume A env).2.returned ≠ _
    simp only [contained, hp] at hok
    cases (resume_cases env : Resumed A w (w.resume A env)) with
    | waits hs => rw [hs]; exact nofun
    | terminated id _ _ hp' _ _ =>
      rw [hp] at hp'
      cases hp'
    | failed a' _ hp' ha _ =>
      rw [hp] at hp'
      cases hp'
      rw [hok] at ha
      cases ha
    | sent _ _ _ _ _ _ _ hs => rw [hs]; exact nofun
  · intro channel e env hi hup herr
    rcases hanswer channel e env hi hup with hnone | ⟨hpend, hans, hs⟩
    · rw [hnone] at herr
      cases herr
    · rw [hs] at herr
      obtain ⟨hun, hpend'⟩ := hans.unbound herr
      have hlinked : Linked (w.step A i).1 := linked_step h.keyed h.linked i
      rw [hs] at hlinked ⊢
      refine ⟨hun, ?_⟩
      intro b hb
      exact h.sweep.linked.cutOff hb hlinked
        (dispatchSwept_outcome (A := A) (w := w.sweep) h.keyed channel e env).change.keeps_actors hun (hpend'.trans hpend)
  · rintro a input rfl hr
    exact actor_ended hr

/-- A message on a channel with an upload reaches the channel's handlers. -/
theorem ChannelInv.onChannel (h : ChannelInv w) {b : UploadBinding} (hb : w.conn.uploads.lookup channel = some b)
    {m : ClientMessage} (hm : e.message = some m) :
    w.dispatchSwept A channel e env = w.onChannel A env channel e m := by
  have hauth : w.conn.identity.authenticated ≠ false := by
    intro hu
    rw [(h.bare hu).uploads channel] at hb
    cases hb
  have hc : channel ≠ 0 := by
    rintro rfl
    rw [h.linked.control] at hb
    cases hb
  have hf : w.conn.forwards.lookup channel = none := by
    rcases h.linked.exclusive channel with hn | hn
    · rw [hn] at hb
      cases hb
    · exact hn
  unfold dispatchSwept
  simp only [hm]
  rw [if_neg fun hx => hauth hx.1, hf]
  simp only
  rw [if_neg hc]

/-- An error, and the upload still bound. -/
def Uncontained (channel : Nat) (b : UploadBinding) (s : Step V) : Prop :=
  s.2.errorOn channel = true ∧ s.1.conn.uploads.lookup channel = some b

theorem uploadChunk_uncontained (h : ChannelInv w) {b : UploadBinding} (hb : w.conn.uploads.lookup channel = some b)
    {c : UploadChunk} (hm : e.message = some (.uploadChunk c)) (hid : c.uploadId ≠ b.uploadId) :
    Uncontained channel b (w.dispatchSwept A channel e env) := by
  rw [h.onChannel hb hm]
  show Uncontained channel b (w.uploadChunk env channel e.requestId c)
  unfold uploadChunk
  rw [hb]
  simp only
  rw [if_pos hid]
  refine ⟨?_, hb⟩
  simp [Output.errorOn, refuse, answer, errorEnvelope, respond, ServerMessage.isError]

theorem beginUpload_uncontained (h : ChannelInv w) {b : UploadBinding} (hb : w.conn.uploads.lookup channel = some b)
    {metadata : BeginUpload} (hm : e.message = some (.beginUpload metadata)) :
    Uncontained channel b (w.dispatchSwept A channel e env) := by
  rw [h.onChannel hb hm]
  have href : Refused w channel (w.beginUpload A env channel e metadata) :=
    beginUpload_refused (.inr (by rw [hb]; rfl))
  refine ⟨?_, ?_⟩
  · obtain ⟨requestId, code, text, hreply⟩ := href.reply
    show Output.errorOn (w.beginUpload A env channel e metadata).2 channel = true
    simp [Output.errorOn, hreply, errorEnvelope, respond, ServerMessage.isError]
  · show (w.beginUpload A env channel e metadata).1.conn.uploads.lookup channel = some b
    rw [href.same.uploads]
    exact hb

/-- The condition is needed. -/
theorem contained_of_contains (h : ChannelInv w) {i : Input} (hc : Contains A w i) : w.contained i = true := by
  cases i with
  | message channel e env =>
    cases hp : w.pending with
    | some p => simp only [contained, hp, Option.isSome_some, Bool.true_or]
    | none =>
      have hs : w.step A (.message channel e env) = w.sweep.dispatchSwept A channel e env := step_message hp channel e env
      have hno : ∀ b, e.isUpload = true → ¬Uncontained channel b (w.sweep.dispatchSwept A channel e env) := by
        rintro b hup ⟨herr, hb⟩
        rw [← hs] at herr hb
        rw [(hc.unbound channel e env rfl hup herr).1] at hb
        cases hb
      simp only [contained, hp, Option.isSome_none, Bool.false_or]
      split
      · rename_i c hm
        cases hb : w.sweep.conn.uploads.lookup channel with
        | none => rfl
        | some b =>
          by_contra hid
          refine hno b (by rw [Envelope.isUpload, hm]; rfl) (uploadChunk_uncontained h.sweep hb hm ?_)
          simpa using hid
      · rename_i metadata hm
        cases hb : w.sweep.conn.uploads.lookup channel with
        | none => rfl
        | some b =>
          exact absurd (beginUpload_uncontained h.sweep hb hm) (hno b (by rw [Envelope.isUpload, hm]; rfl))
      · rfl
  | resume env =>
    simp only [contained]
    split
    · rename_i a command hp
      by_contra ha
      refine hc.staysSending env a command rfl hp ?_
      simp only [step, resume, hp]
      rw [if_pos (by simpa using ha)]
    · rfl
  | _ => rfl

/-- In every run, at every step: the failures of uploads stay on their channels if and only
    if a chunk names the upload its channel is bound to, a begin finds none there, and an
    actor that is being sent to has not ended. An actor that is cut off ends with its next
    few moves, whatever else goes on, and has left no partial once it has ended, if its
    removals go through. -/
theorem upload_failures_contained (A : App V) (datagrams : Bool) (channelBinding : List UInt8) (is : List Input)
    (i : Input) :
    let w := (machine A).run (initial datagrams channelBinding Manager.empty) is
    let w' := (machine A).next w i
    (Contains A w i ↔ w.contained i = true) ∧
    ∀ (a : Nat) (js : List Input),
      let v := (machine A).run w' js
      (w'.CutOff a → moves A a w' js + v.remaining a ≤ w'.remaining a ∧
        (v.remaining a ≠ 0 → ∀ io, v.ownMove a (.upload a (.take io)) = true ∨
          v.ownMove a (.upload a (.sent io.drop)) = true)) ∧
      ((∀ x ∈ is ++ i :: js, x.removes = true) → v.remaining a = 0 → v.partialOf a = none) := by
  intro w w'
  have h : ChannelInv w := Machine.run_induction (P := ChannelInv) (machine A)
    (fun w i hw _ => channelInv_step hw i) (channelInv_initial datagrams channelBinding)
    (Machine.admissible_true (machine A) _ is)
  have h' : ChannelInv w' := channelInv_step h i
  refine ⟨⟨contained_of_contains h, contains_of_contained h⟩, ?_⟩
  intro a js v
  refine ⟨fun hcut => ⟨remaining_run h'.keyed hcut js, ownMove_of_remaining⟩, ?_⟩
  intro hr hend
  have hrun : v = (machine A).run (initial datagrams channelBinding Manager.empty) (is ++ i :: js) :=
    (Machine.run_append (machine A) _ is (i :: js)).symm
  have hinv : ((machine A).run (initial datagrams channelBinding Manager.empty) (is ++ i :: js)).manager.Keyed ∧
      TasksInv A ((machine A).run (initial datagrams channelBinding Manager.empty) (is ++ i :: js)) :=
    Machine.run_induction (P := fun w => w.manager.Keyed ∧ TasksInv A w) (machine A)
      (fun w i hw hi => ⟨step_keyed hw.1 i, tasksInv_step hw.1 hw.2 hi⟩)
      ⟨Manager.idemInv_empty.keyed, fun x hx => absurd hx List.not_mem_nil⟩
      (Machine.admissible_of_forall (q := fun i => i.removes = true) (machine A) hr _)
  rw [← hrun] at hinv
  exact hinv.2.partialOf hend

/-! ## Three uploads of `abc` -/

/-- A chunk on the channel of the upload, sent and queued. -/
def sampleChunk (uploadId : List UInt8) (offset : UInt64) : List Input :=
  [sampleMessage 1 (.uploadChunk ⟨uploadId, offset, [97]⟩) 0, .resume (.sample 0)]

/-- An upload on channel 1, with one byte written. -/
def sampleUpload : List Input :=
  sampleStart none ++ [sampleMessage 1 (.beginUpload abc) 0] ++ sampleChunk abcId.toWire 0 ++ [.upload 0 (.take smoothIo)]

/-- A finish with another id: the channel is unbound, and the actor's next move removes the
    partial. -/
theorem upload_failures_contained_finish :
    let A := App.sample .dev
    let w := (machine A).run (.initial false [] Manager.empty) sampleUpload
    let finish := sampleMessage 1 (.finishUpload (List.replicate 16 8)) 0
    let w' := (machine A).next w finish
    Contains A w finish ∧ w.partialOf 0 = some [97] ∧ ((machine A).out w finish).errorOn 1 = true ∧
      w'.conn.uploads.lookup 1 = none ∧ ((machine A).run w' [.upload 0 (.take smoothIo)]).partialOf 0 = none := by
  intro A w finish w'
  obtain ⟨hiff, hactors⟩ := upload_failures_contained A false [] sampleUpload finish
  refine ⟨hiff.mpr (by decide), by decide, by decide, by decide, ?_⟩
  exact (hactors 0 [.upload 0 (.take smoothIo)]).2 (by decide) (by decide)

/-- The actor reports a chunk at a wrong offset while four more fill its queue; the one that
    waits for room is answered by closing the connection. A chunk with another id, and a
    second begin, are answered by an error and leave the upload bound, with its partial. -/
theorem upload_failure_closes_connection :
    let A := App.sample .dev
    let full := (machine A).run .sample
      (sampleUpload ++ sampleChunk abcId.toWire 7 ++ [.upload 0 (.take smoothIo)] ++
        (List.replicate 4 (sampleChunk abcId.toWire 1)).flatten ++
        [sampleMessage 1 (.uploadChunk ⟨abcId.toWire, 1, [97]⟩) 0, .upload 0 (.sent ⟨true, true, true⟩)])
    let w := (machine A).run .sample sampleUpload
    let other := sampleMessage 1 (.uploadChunk ⟨List.replicate 16 8, 1, [98]⟩) 0
    let again := sampleMessage 1 (.beginUpload abc) 0
    (((machine A).out full (.resume (.sample 0))).returned = some false ∧ (DispatchEnv.sample 0).out = true) ∧
    (((machine A).out w other).errorOn 1 = true ∧
      ((machine A).next w other).conn.uploads.lookup 1 = some ⟨abcId.toWire, 0⟩ ∧
      ((machine A).next w other).actorRunning 0 = true ∧ ((machine A).next w other).partialOf 0 = some [97]) ∧
    ((machine A).out w again).errorOn 1 = true ∧
      ((machine A).next w again).conn.uploads.lookup 1 = some ⟨abcId.toWire, 0⟩ ∧
      ((machine A).next w again).actorRunning 0 = true ∧ ((machine A).next w again).partialOf 0 = some [97] := by
  decide

end World

end Holdfast.Daemon

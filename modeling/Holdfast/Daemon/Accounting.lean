/-
  Holdfast.Daemon.Accounting — what the limits of a connection count.

  The limits on uploads and forwards are compared with the binding tables. The tables drift
  from what runs in both directions:
  - a finish, an abort and a channel close take an upload's binding while its actor goes on,
    and a channel close takes a forward's while its task is being stopped;
  - a forward that has ended keeps its binding until its channel is closed, which a
    WebSocket never reports.
  `limits_drift` has a connection with three uploads, and one that is refused a forward with
  none running.

  Proved:
  - `uploads_size` / `forwards_size`: a table without drift is as long as what runs.
  - `within_step`: no step adds to what runs but a begin and an open, below the limit.
  - `connection_accounting`: without drift at those two, the limits count what runs.
-/

import Holdfast.Daemon.Actors

namespace Holdfast.Daemon

open Holdfast.Base Holdfast.Protocol Holdfast.Session Holdfast.Upload

/-- The refusal of the limit on uploads. -/
def Output.refusesUpload (o : Output) : Prop :=
  ∃ channel requestId,
    (channel, errorEnvelope requestId .errLimitExceeded "too many uploads on this connection" true) ∈ o.replies

/-- The refusal of the limit on forwards, and not of the service behind it. -/
def Output.refusesForward (o : Output) : Prop :=
  Call.forwardAcquire ∉ o.calls ∧
    ∃ channel requestId, (channel, errorEnvelope requestId .errLimitExceeded "too many TCP forwards" false) ∈ o.replies

namespace World

variable {V : Type} {A : App V} {w w' : World V} {channel : Nat} {e : Envelope} {env : DispatchEnv}

/-- Open partial files. -/
def runningUploads (w : World V) : Nat := w.actors.countP (·.running)

/-- Open sockets. -/
def runningForwards (w : World V) : Nat := w.tasks.countP fun x => !x.ended

def uploadBound (w : World V) (a : Nat) : Bool := w.conn.uploads.values.any fun b => b.actor == a

def forwardBound (w : World V) (t : Nat) : Bool := w.conn.forwards.values.any fun t' => t' == t

/-- A begin finds no upload that runs without its binding; an open finds no forward that
    does, and none that is bound and has ended. -/
def undrifted (w : World V) : Input → Bool
  | .message _ e _ =>
    w.pending.isSome ||
      match e.message with
      | some (.beginUpload _) => (List.range w.actors.length).all fun a => !w.actorRunning a || w.uploadBound a
      | some (.openTcpForward _ _) =>
        w.conn.forwards.values.all w.taskRunning &&
          (List.range w.tasks.length).all fun t => !w.taskRunning t || w.forwardBound t
      | _ => true
  | _ => true

/-! ## The tables, without drift -/

theorem actorRunning_eq (w : World V) (a : Nat) : w.actorRunning a = liveAt (·.running) w.actors a := rfl

theorem taskRunning_eq (w : World V) (t : Nat) : w.taskRunning t = liveAt (fun x => !x.ended) w.tasks t := rfl

/-- A binding survives the sweep if and only if its actor runs. -/
theorem sweep_lookup {b : UploadBinding} :
    w.sweep.conn.uploads.lookup channel = some b ↔
      w.conn.uploads.lookup channel = some b ∧ w.actorRunning b.actor = true := by
  simp only [World.sweep, Table.lookup_retain, Option.filter_eq_some_iff]

theorem uploads_size (h : Linked w)
    (hbound : (List.range w.actors.length).all (fun a => !w.actorRunning a || w.uploadBound a) = true) :
    w.sweep.conn.uploads.keys.length = w.runningUploads := by
  apply length_keys_eq_countP (f := UploadBinding.actor)
  · intro k k' b b' hb hb' hab
    exact (linked_sweep h).upload_unique hb hb' hab
  · intro k b hb
    exact (sweep_lookup.mp hb).2
  · intro a ha
    rw [List.all_eq_true] at hbound
    have := hbound a (List.mem_range.mpr (lt_of_liveAt ha))
    rw [actorRunning_eq, ha, Bool.not_true, Bool.false_or, uploadBound, List.any_eq_true] at this
    obtain ⟨b, hb, hba⟩ := this
    obtain ⟨x, hx, rfl⟩ := List.mem_map.mp hb
    have hba := beq_iff_eq.mp hba
    refine ⟨x.1, x.2, sweep_lookup.mpr ⟨Table.mem_entries_iff.mp hx, ?_⟩, hba⟩
    rw [hba]
    exact ha

theorem forwards_size (h : Linked w) (hlive : w.conn.forwards.values.all w.taskRunning = true)
    (hbound : (List.range w.tasks.length).all (fun t => !w.taskRunning t || w.forwardBound t) = true) :
    w.conn.forwards.keys.length = w.runningForwards := by
  apply length_keys_eq_countP (f := id)
  · rintro k k' t t' ht ht' rfl
    exact h.forward_unique ht ht'
  · intro k t ht
    rw [List.all_eq_true] at hlive
    exact hlive t (List.mem_map.mpr ⟨⟨k, t⟩, Table.mem_entries_iff.mpr ht, rfl⟩)
  · intro t ht
    rw [List.all_eq_true] at hbound
    have := hbound t (List.mem_range.mpr (lt_of_liveAt ht))
    rw [taskRunning_eq, ht, Bool.not_true, Bool.false_or, forwardBound, List.any_eq_true] at this
    obtain ⟨t', ht', htt⟩ := this
    obtain ⟨x, hx, rfl⟩ := List.mem_map.mp ht'
    exact ⟨x.1, x.2, Table.mem_entries_iff.mp hx, beq_iff_eq.mp htt⟩

/-! ## What a step adds -/

theorem actorStep_running {x : UploadActor} {sender : Bool} {input : ActorInput}
    (h : (actorStep A x sender input).1.running = true) : x.running = true := by
  obtain ⟨channel, requestId, shellId, ⟨phase, d, accepted, outcome⟩, queue⟩ := x
  cases phase with
  | running writer => rfl
  | reporting held reply => rfl
  | ended =>
    cases input with
    | take io =>
      cases queue with
      | cons command queue => exact h
      | nil => cases sender <;> exact h
    | timeout => cases queue <;> exact h
    | sent drop => exact h
    | cancel drop => exact h

/-- Nothing more runs than before. -/
structure NoMore (w w' : World V) : Prop where
  uploads : w'.runningUploads ≤ w.runningUploads
  forwards : w'.runningForwards ≤ w.runningForwards

theorem NoMore.same (hactors : w'.actors = w.actors) (htasks : w'.tasks = w.tasks) : NoMore w w' := by
  refine ⟨?_, ?_⟩
  · rw [runningUploads, hactors]
    exact Nat.le_refl _
  · rw [runningForwards, htasks]
    exact Nat.le_refl _

theorem abortTask_running (tasks : List ForwardTask) (t : Nat) :
    (abortTask tasks t).countP (fun x => !x.ended) ≤ tasks.countP fun x => !x.ended :=
  countP_modify_le (p := fun x : ForwardTask => !x.ended) (g := fun x => { x with aborted := true }) (fun _ h => h) t

theorem NoMore.tasks (hactors : w'.actors = w.actors)
    (htasks : w'.tasks.countP (fun x => !x.ended) ≤ w.tasks.countP fun x => !x.ended) : NoMore w w' := by
  refine ⟨?_, htasks⟩
  rw [runningUploads, hactors]
  exact Nat.le_refl _

/-- A dispatch adds an upload or a forward below the limit, or nothing. -/
theorem Change.adds (h : Change A w channel e env w') :
    NoMore w w' ∨
    ((∃ metadata, e.message = some (.beginUpload metadata)) ∧
      w.conn.uploads.keys.length < maxUploadsPerConnection ∧
      w'.runningUploads = w.runningUploads + 1 ∧ w'.runningForwards = w.runningForwards) ∨
    ((∃ host port, e.message = some (.openTcpForward host port)) ∧
      w.conn.forwards.keys.length < maxForwardsPerConnection ∧
      w'.runningForwards = w.runningForwards + 1 ∧ w'.runningUploads = w.runningUploads) := by
  cases h with
  | begun id writer d metadata hm hc hu hroom hp ho hw =>
    refine .inr (.inl ⟨⟨metadata, hm⟩, hroom, ?_, rfl⟩)
    rw [runningUploads, List.countP_append]
    rfl
  | forwarded host port hm hc hu hroom hp =>
    refine .inr (.inr ⟨⟨host, port, hm⟩, hroom, ?_, rfl⟩)
    rw [runningForwards, List.countP_append]
    rfl
  | aborted t ht => exact .inl (.tasks rfl (abortTask_running _ t))
  | _ => exact .inl (.same rfl rfl)

theorem background_noMore {i : Input} (hi : i.isMessage = false) : NoMore w (w.step A i).1 := by
  cases i with
  | message channel e env => cases hi
  | resume env =>
    show NoMore w (w.resume A env).1
    cases (resume_cases env : Resumed A w (w.resume A env)) with
    | waits h => rw [h]; exact .same rfl rfl
    | terminated _ _ _ _ h1 _ => rw [h1]; exact .same rfl rfl
    | failed _ _ _ _ h => rw [h]; exact .same rfl rfl
    | sent a command x _ _ hx _ h =>
      rw [h]
      exact ⟨countP_set_le hx fun hr => hr, Nat.le_refl _⟩
  | channelClosed channel =>
    simp only [step]
    split
    · exact .same rfl rfl
    · refine .tasks (channelClosed_actors w channel) ?_
      rw [channelClosed_tasks]
      cases w.conn.forwards.lookup channel with
      | none => exact Nat.le_refl _
      | some t => exact abortTask_running _ t
  | gone =>
    simp only [step]
    split
    · exact .same rfl rfl
    · refine .tasks rfl ?_
      show (w.conn.forwards.values.foldl abortTask w.tasks).countP _ ≤ _
      generalize w.conn.forwards.values = ts
      generalize w.tasks = tasks
      induction ts generalizing tasks with
      | nil => exact Nat.le_refl _
      | cons t ts ih => exact Nat.le_trans (ih _) (abortTask_running _ t)
  | upload a input =>
    simp only [step]
    split
    · exact .same rfl rfl
    · rename_i x hx
      exact ⟨countP_set_le hx actorStep_running, Nat.le_refl _⟩
  | forwardEnds t =>
    refine .tasks rfl (countP_modify_le (p := fun x : ForwardTask => !x.ended) (g := fun x => { x with ended := true }) ?_ t)
    intro x hx
    cases hx
  | manager op => exact .same rfl rfl

/-- What runs is within the limits. -/
structure Accounted (w : World V) : Prop where
  uploads : w.runningUploads ≤ maxUploadsPerConnection
  forwards : w.runningForwards ≤ maxForwardsPerConnection

theorem Accounted.noMore (h : Accounted w) (hn : NoMore w w') : Accounted w' :=
  ⟨Nat.le_trans hn.uploads h.uploads, Nat.le_trans hn.forwards h.forwards⟩

theorem within_step (hk : w.manager.Keyed) (hl : Linked w) (h : Accounted w) {i : Input} (hd : w.undrifted i = true) :
    Accounted (w.step A i).1 := by
  apply step_rule hk h i
  · rintro channel e env w' rfl hp hch
    simp only [undrifted, hp, Option.isSome_none, Bool.false_or] at hd
    rcases hch.adds with hn | ⟨⟨metadata, hm⟩, hroom, hadd, hsame⟩ | ⟨⟨host, port, hm⟩, hroom, hadd, hsame⟩
    · exact h.noMore ⟨hn.uploads, hn.forwards⟩
    · rw [hm] at hd
      rw [uploads_size hl hd] at hroom
      refine ⟨?_, ?_⟩
      · rw [hadd]
        exact hroom
      · rw [hsame]
        exact h.forwards
    · rw [hm] at hd
      obtain ⟨hlive, hbound⟩ := Bool.and_eq_true_iff.mp hd
      rw [show w.sweep.conn.forwards = w.conn.forwards from rfl, forwards_size hl hlive hbound] at hroom
      refine ⟨?_, ?_⟩
      · rw [hsame]
        exact h.uploads
      · rw [hadd]
        exact hroom
  · intro hi
    exact h.noMore (background_noMore hi)

/-! ## Refusals -/

theorem not_refusesUpload {s : Step V} {channel : Nat} {requestId : UInt64} {code : ErrorCode} {text : String}
    (h : s.2.replies = [(channel, errorEnvelope requestId code text false)]) : ¬s.2.refusesUpload := by
  rintro ⟨channel', requestId', hmem⟩
  rw [h] at hmem
  cases List.mem_singleton.mp hmem

theorem uploadErrorCode_limit {x : UploadError} (h : (uploadErrorCode x).1 = .errLimitExceeded) :
    (uploadErrorCode x).2 = false := by
  cases x with
  | limitExceeded => rfl
  | validation v => cases v <;> rfl
  | store e =>
    cases e with
    | invalidUpload v => cases v <;> rfl
    | _ => cases h
  | spawner forbidden _ => cases forbidden <;> cases h
  | _ => cases h

theorem not_refusesUpload_error {s : Step V} {channel : Nat} {requestId : UInt64} {x : UploadError}
    (h : s.2.replies = [(channel, uploadErrorEnvelope requestId x)]) : ¬s.2.refusesUpload := by
  rintro ⟨channel', requestId', hmem⟩
  rw [h] at hmem
  have heq := List.mem_singleton.mp hmem
  simp only [uploadErrorEnvelope, errorEnvelope, respond, Prod.mk.injEq, Reply.mk.injEq, ServerMessage.error.injEq] at heq
  have hfalse := uploadErrorCode_limit heq.2.2.2.2.1.symm
  rw [← heq.2.2.2.2.2.2] at hfalse
  cases hfalse

theorem startUpload_not_refused {id : ShellId} {maxFileBytes : UInt64} {metadata : BeginUpload} (requestId : UInt64) :
    ¬(w.startUpload A env channel requestId id maxFileBytes metadata).2.refusesUpload := by
  unfold startUpload
  split
  · exact not_refusesUpload_error rfl
  · rintro ⟨channel', requestId', hmem⟩
    simp [World.answer, errorEnvelope, respond] at hmem

theorem beginUpload_limit {metadata : BeginUpload} (h : (w.beginUpload A env channel e metadata).2.refusesUpload) :
    maxUploadsPerConnection ≤ w.conn.uploads.keys.length := by
  unfold beginUpload at h
  split at h
  · exact absurd h (not_refusesUpload rfl)
  · split at h
    · exact absurd h (not_refusesUpload rfl)
    · split at h
      · exact absurd h (not_refusesUpload rfl)
      · split at h
        · exact absurd h (not_refusesUpload rfl)
        · split at h
          · exact absurd h (not_refusesUpload rfl)
          · split at h
            · exact absurd h (not_refusesUpload rfl)
            · split at h
              · exact absurd h (not_refusesUpload rfl)
              · split at h
                · rename_i hfull
                  exact hfull
                · split at h
                  · exact absurd h (not_refusesUpload_error rfl)
                  · exact absurd h (startUpload_not_refused e.requestId)

theorem forwardMessage_not_refused {t : Nat} : ¬(w.forwardMessage env channel t e).2.refusesUpload := by
  unfold forwardMessage
  split
  · rintro ⟨_, _, hmem⟩
    cases hmem
  · exact not_refusesUpload rfl

theorem begin_refused {metadata : BeginUpload} (hm : e.message = some (.beginUpload metadata))
    (h : (w.dispatchSwept A channel e env).2.refusesUpload) : maxUploadsPerConnection ≤ w.conn.uploads.keys.length := by
  unfold dispatchSwept at h
  simp only [hm] at h
  split at h
  · exact absurd h (not_refusesUpload rfl)
  · split at h
    · exact absurd h forwardMessage_not_refused
    · split at h
      · exact absurd h (not_refusesUpload rfl)
      · exact beginUpload_limit h

theorem not_refusesForward {s : Step V} {channel : Nat} {requestId : UInt64} {code : ErrorCode} {text : String}
    {retryable : Bool} (h : s.2.replies = [(channel, errorEnvelope requestId code text retryable)])
    (hc : code ≠ .errLimitExceeded) : ¬s.2.refusesForward := by
  rintro ⟨_, channel', requestId', hmem⟩
  rw [h] at hmem
  cases List.mem_singleton.mp hmem
  exact hc rfl

theorem openForward_limit {host : String} {port : UInt32} (h : (w.openForward A env channel e host port).2.refusesForward) :
    maxForwardsPerConnection ≤ w.conn.forwards.keys.length := by
  unfold openForward forwardRefusal at h
  split at h
  · rename_i code text hr
    split at hr
    · cases hr
      exact absurd h (not_refusesForward rfl nofun)
    · split at hr
      · cases hr
        exact absurd h (not_refusesForward rfl nofun)
      · split at hr
        · cases hr
          exact absurd h (not_refusesForward rfl nofun)
        · split at hr
          · rename_i hfull
            exact hfull
          · cases hr
  · split at h
    · exact absurd List.mem_cons_self h.1
    · exact absurd List.mem_cons_self h.1

theorem open_refused {host : String} {port : UInt32} (hm : e.message = some (.openTcpForward host port))
    (h : (w.dispatchSwept A channel e env).2.refusesForward) : maxForwardsPerConnection ≤ w.conn.forwards.keys.length := by
  unfold dispatchSwept at h
  simp only [hm] at h
  split at h
  · exact absurd h (not_refusesForward rfl nofun)
  · split at h
    · unfold forwardMessage at h
      split at h
      · obtain ⟨_, _, _, hmem⟩ := h
        cases hmem
      · exact absurd h (not_refusesForward rfl nofun)
    · split at h
      · exact absurd h (not_refusesForward rfl nofun)
      · exact openForward_limit h

/-! ## Over runs -/

/-- In every run in which a begin finds no upload that runs unbound, and an open no forward
    that runs unbound or is bound and has ended: what runs is within the limits, the tables
    that a begin and an open look at are as long as what runs, and they are refused by a
    limit of the connection only if as much runs. -/
theorem connection_accounting (A : App V) (datagrams : Bool) (channelBinding : List UInt8) (is : List Input)
    (hok : (machine A).Admissible (fun w i => w.undrifted i = true) (initial datagrams channelBinding Manager.empty) is) :
    let w := (machine A).run (initial datagrams channelBinding Manager.empty) is
    w.runningUploads ≤ maxUploadsPerConnection ∧ w.runningForwards ≤ maxForwardsPerConnection ∧
    ∀ channel e env, w.pending = none → w.undrifted (.message channel e env) = true →
      (∀ metadata, e.message = some (.beginUpload metadata) →
        w.sweep.conn.uploads.keys.length = w.runningUploads ∧
        (((machine A).out w (.message channel e env)).refusesUpload → maxUploadsPerConnection ≤ w.runningUploads)) ∧
      (∀ host port, e.message = some (.openTcpForward host port) →
        w.conn.forwards.keys.length = w.runningForwards ∧
        (((machine A).out w (.message channel e env)).refusesForward →
          maxForwardsPerConnection ≤ w.runningForwards)) := by
  intro w
  obtain ⟨_, hl, h⟩ : w.manager.Keyed ∧ Linked w ∧ Accounted w :=
    Machine.run_induction (P := fun w => w.manager.Keyed ∧ Linked w ∧ Accounted w) (machine A)
      (fun w i hw hd => ⟨step_keyed hw.1 i, linked_step hw.1 hw.2.1 i, within_step hw.1 hw.2.1 hw.2.2 hd⟩)
      ⟨Manager.keyed_empty, linked_initial datagrams channelBinding _, Nat.zero_le _, Nat.zero_le _⟩ hok
  refine ⟨h.uploads, h.forwards, ?_⟩
  intro channel e env hp hd
  have hs : (machine A).out w (.message channel e env) = (w.sweep.dispatchSwept A channel e env).2 :=
    congrArg Prod.snd (step_message hp channel e env)
  simp only [undrifted, hp, Option.isSome_none, Bool.false_or] at hd
  rw [hs]
  refine ⟨?_, ?_⟩
  · intro metadata hm
    rw [hm] at hd
    have hsize := uploads_size hl hd
    exact ⟨hsize, fun hr => Nat.le_trans (begin_refused hm hr) (Nat.le_of_eq hsize)⟩
  · intro host port hm
    rw [hm] at hd
    obtain ⟨hlive, hbound⟩ := Bool.and_eq_true_iff.mp hd
    have hsize := forwards_size hl hlive hbound
    exact ⟨hsize, fun hr => Nat.le_trans (open_refused hm hr) (Nat.le_of_eq hsize)⟩

/-! ## Two connections that drift -/

/-- An upload on `channel` under an id of its own. -/
def sampleBegin (channel : Nat) (id : UInt8) : Input :=
  .message channel (sampleEnvelope (.beginUpload abc))
    { DispatchEnv.sample 0 with begins := [{ abcBegin with uploadId := ⟨.replicate 16 id⟩ }] }

def sampleForward (channel : Nat) : Input :=
  .message channel ⟨1, [], [], some (.openTcpForward "localhost" 80)⟩ (.sample 0)

/-- A third upload, while two run, is refused. -/
theorem connection_accounting_sample :
    let M := machine (App.sample .dev)
    let w := M.run (.initial false [] Manager.empty) (sampleStart none ++ [sampleBegin 1 7, sampleBegin 3 8])
    w.runningUploads ≤ maxUploadsPerConnection ∧ (M.out w (sampleBegin 5 9)).refusesUpload ∧
      maxUploadsPerConnection ≤ w.runningUploads := by
  intro M w
  obtain ⟨huploads, _, hlimits⟩ := connection_accounting (App.sample .dev) false []
    (sampleStart none ++ [sampleBegin 1 7, sampleBegin 3 8]) (by decide)
  have hrefused : (M.out w (sampleBegin 5 9)).refusesUpload := ⟨5, 1, by decide⟩
  obtain ⟨_, hfull⟩ := (hlimits 5 (sampleEnvelope (.beginUpload abc))
    { DispatchEnv.sample 0 with begins := [{ abcBegin with uploadId := ⟨.replicate 16 9⟩ }] }
    (by decide) (by decide)).1 abc rfl
  exact ⟨huploads, hrefused, hfull hrefused⟩

/-- Two uploads; the first is aborted, and a third begins while its actor is still at work. -/
def sampleThird : List Input :=
  sampleStart none ++ [sampleBegin 1 7, sampleBegin 3 8,
    sampleMessage 1 (.abortUpload (List.replicate 16 7) "") 0, .resume (.sample 0), sampleBegin 5 9]

/-- Sixteen forwards, all of which end. -/
def sampleForwards : List Input :=
  sampleStart none ++ (List.range 16).map (fun n => sampleForward (2 * n + 1)) ++ (List.range 16).map .forwardEnds

/-- Three uploads run at once; and with no forward running, one is refused. -/
theorem limits_drift :
    let M := machine (App.sample .dev)
    (M.run .sample sampleThird).runningUploads = 3 ∧ maxUploadsPerConnection = 2 ∧
      (M.run .sample sampleForwards).runningForwards = 0 ∧
      (M.out (M.run .sample sampleForwards) (sampleForward 33)).refusesForward := by
  intro M
  refine ⟨by decide, rfl, by decide, by decide, 33, 1, by decide⟩

end World

end Holdfast.Daemon

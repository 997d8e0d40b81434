/-
  Holdfast.Daemon.Dispatch — what one dispatch can do, said once.

  `Change` lists the ways a dispatch changes the connection, its actors and the manager,
  with what was checked before; `Justified` says what each call to a service rests on: an
  operation the scope permits and a shell the user owns, or the channel's binding.

  Proved:
  - `dispatchSwept_outcome`: every dispatch is one of these changes, and each of its calls
    is justified.
  - `resume_cases`: how what a dispatch waits for completes.
  - `step_shrinks`: a step that is no message makes no binding.
  - `step_rule`: what every step keeps, from what each of these keeps.
  - `step_operates`: the manager moves by operations of its own.
-/

import Holdfast.Daemon.Conn
import Holdfast.Session.Idempotency

namespace Holdfast.Daemon.World

open Holdfast.Base Holdfast.Protocol Holdfast.Session Holdfast.Upload

variable {V : Type} (A : App V)

/-- The shell is there, or was, and belongs to the connection's user. -/
def Owned (w : World V) (id : ShellId) : Prop :=
  ∃ e, w.manager.find id = some e ∧ e.owner = w.conn.identity.userId

def Attached (w : World V) (channel : Nat) (id : ShellId) : Prop :=
  ∃ b, w.conn.attachments.lookup channel = some b ∧ b.shellId = id

def Uploading (w : World V) (channel : Nat) (id : ShellId) : Prop :=
  ∃ b a, w.conn.uploads.lookup channel = some b ∧ w.actors[b.actor]? = some a ∧ a.shellId = id

/-- `m` is the manager afterwards. -/
def Justified (w : World V) (m : Manager V) (channel : Nat) : Call → Prop
  | .listShells shown => w.conn.identity.permits "list" = true ∧ ∀ id ∈ shown, w.Owned id
  | .openShell opened =>
    w.conn.identity.permits "open" = true ∧ ∀ id, opened = some id → w.manager.IdemInv →
      ∃ e, m.find id = some e ∧ e.owner = w.conn.identity.userId
  | .shellInfo _ => True
  | .terminate id => w.conn.identity.permits "terminate" = true ∧ w.Owned id
  | .attach id ok => w.conn.identity.permits "attach" = true ∧ (ok = true → w.Owned id)
  | .detach id => w.Attached channel id
  | .writeInput id => w.Attached channel id
  | .resize id => w.Attached channel id
  | .history id => w.Attached channel id
  | .uploadAcquire => w.conn.identity.permits "upload" = true
  | .uploadBegin id _ => w.conn.identity.permits "upload" = true ∧ w.Owned id
  | .uploadCommand id => w.Uploading channel id
  | .forwardAcquire => w.conn.identity.permits "tcp-forward" = true
  | .forwardSpawn => w.conn.identity.permits "tcp-forward" = true
  | .forwardMessage => (w.conn.forwards.lookup channel).isSome = true

/-- An open is an `OpenShell`'s, and draws its shell's id from the environment of this
    dispatch. -/
def OwnOp (e : Envelope) (env : DispatchEnv) : Op → Prop
  | .openShell _ env' => env' = env.openShell ∧ e.opensShell = true
  | _ => True

/-- No role is bound to the channel. -/
structure Unbound (w : World V) (channel : Nat) : Prop where
  attachment : w.conn.attachments.lookup channel = none
  upload : w.conn.uploads.lookup channel = none
  forward : w.conn.forwards.lookup channel = none

inductive Change (w : World V) (channel : Nat) (e : Envelope) (env : DispatchEnv) : World V → Prop where
  | same : Change w channel e env w
  | negotiated (n : Negotiated) : Change w channel e env { w with conn := { w.conn with negotiated := some n } }
  | identity (method : Option AuthMethod) (hm : e.message = some (.authenticate method)) :
      Change w channel e env
        { w with conn := { w.conn with
          identity := (w.conn.identity.handleAuthenticate A.auth w.conn.channelBinding method env.auth).1 } }
  | acted (op : Op) (hop : OwnOp e env op) :
      Change w channel e env { w with manager := (w.manager.step A.server op).1 }
  | terminating (id : ShellId) (hp : w.conn.identity.permits "terminate" = true) (ho : w.Owned id) :
      Change w channel e env
        { w with
          manager := (w.manager.step A.server (.terminate id env.kill)).1
          pending := some (.terminating id e.requestId e.shellId) }
  | attached (id : ShellId) (token : ResumeToken) (cols rows : UInt16) (attachmentId : Nat) (resumeToken : List UInt8)
      (cols' rows' : UInt32) (hm : e.message = some (.attachShell resumeToken cols' rows')) (hc : channel ≠ 0)
      (ha : w.conn.attachments.lookup channel = none) (hf : w.conn.forwards.lookup channel = none)
      (hp : w.conn.identity.permits "attach" = true) (ho : w.Owned id) :
      Change w channel e env
        { w with
          manager := (w.manager.step A.server
            (.attach w.conn.identity.userId id token cols rows env.attach)).1
          conn := { w.conn with attachments := w.conn.attachments.insert channel ⟨id, attachmentId⟩ } }
  | detached (b : Binding) (hb : w.conn.attachments.lookup channel = some b) :
      Change w channel e env
        { w with
          conn := { w.conn with attachments := w.conn.attachments.erase channel }
          manager := (w.manager.step A.server (.detach b.shellId b.attachmentId)).1 }
  | begun (id : ShellId) (writer : UploadWriter) (d : Directory) (metadata : BeginUpload)
      (hm : e.message = some (.beginUpload metadata)) (hc : channel ≠ 0) (hu : w.Unbound channel)
      (hroom : w.conn.uploads.keys.length < maxUploadsPerConnection)
      (hp : w.conn.identity.permits "upload" = true) (ho : w.Owned id)
      (hw : UploadWriter.WriterInv [] writer d) :
      Change w channel e env
        { w with
          conn := { w.conn with
            uploads := w.conn.uploads.insert channel ⟨writer.uploadId.toWire, w.actors.length⟩ }
          actors := w.actors ++ [UploadActor.mk channel e.requestId id (.start writer d) []] }
  | sending (b : UploadBinding) (c : UploadChunk) (hm : e.message = some (.uploadChunk c))
      (hb : w.conn.uploads.lookup channel = some b) :
      Change w channel e env { w with pending := some (.sending b.actor (.chunk c)) }
  | sendingLast (b : UploadBinding) (command : UploadCommand) (hb : w.conn.uploads.lookup channel = some b) :
      Change w channel e env { w.unbindUpload channel with pending := some (.sending b.actor command) }
  | unbound (b : UploadBinding) (hb : w.conn.uploads.lookup channel = some b) :
      Change w channel e env (w.unbindUpload channel)
  | forwarded (host : String) (port : UInt32) (hm : e.message = some (.openTcpForward host port)) (hc : channel ≠ 0)
      (hu : w.Unbound channel) (hroom : w.conn.forwards.keys.length < maxForwardsPerConnection)
      (hp : w.conn.identity.permits "tcp-forward" = true) :
      Change w channel e env
        { w with
          conn := { w.conn with forwards := w.conn.forwards.insert channel w.tasks.length }
          tasks := w.tasks ++ [ForwardTask.mk channel false false] }
  | aborted (t : Nat) (ht : w.conn.forwards.lookup channel = some t) :
      Change w channel e env { w with tasks := abortTask w.tasks t }

/-- One of the changes, with justified calls. -/
structure Outcome (w : World V) (channel : Nat) (e : Envelope) (env : DispatchEnv) (s : Step V) : Prop where
  change : Change A w channel e env s.1
  calls : ∀ c ∈ s.2.calls, w.Justified s.1.manager channel c

variable {A} {w : World V} {channel : Nat} {e : Envelope} {env : DispatchEnv}

theorem Outcome.quiet {s : Step V} (hs : s.1 = w) (hc : ∀ c ∈ s.2.calls, w.Justified w.manager channel c) :
    Outcome A w channel e env s := by
  refine ⟨?_, ?_⟩
  · rw [hs]
    exact .same
  · rw [hs]
    exact hc

theorem owned_of_info {id : ShellId} {info : ShellInfo} (h : w.manager.shellInfo id = .ok info)
    (ho : info.owner = w.conn.identity.userId) : w.Owned id := by
  unfold Manager.shellInfo at h
  split at h
  · cases h
  · rename_i entry he
    cases h
    exact ⟨entry, Manager.find_of_lookup he, ho⟩

/-! ## The control channel -/

theorem clientHello_outcome (requestId : UInt64) (hello : ClientHello) :
    Outcome A w channel e env (w.clientHello A env requestId hello) := by
  unfold clientHello
  simp only
  split
  · exact ⟨.negotiated _, nofun⟩
  · exact .quiet rfl nofun

theorem authenticate_outcome (method : Option AuthMethod) (hm : e.message = some (.authenticate method)) :
    Outcome A w channel e env (w.authenticate A env e.requestId method) := by
  unfold authenticate
  split
  · exact .quiet rfl nofun
  · exact ⟨.identity method hm, nofun⟩

theorem owned_of_listed (hk : w.manager.Keyed) {id : ShellId} (h : id ∈ w.ownShells.map (·.shellId)) : w.Owned id := by
  obtain ⟨info, hi, rfl⟩ := List.mem_map.mp h
  obtain ⟨hmem, howner⟩ := List.mem_filter.mp hi
  simp only [Manager.listShells, List.mem_mergeSort, List.mem_map, Table.values] at hmem
  obtain ⟨entry, ⟨x, hx, rfl⟩, rfl⟩ := hmem
  obtain ⟨key, entry⟩ := x
  have hl := Table.mem_entries_iff.mp hx
  have hid : entry.id = key := hk.shells key entry hl
  refine ⟨entry, ?_, beq_iff_eq.mp howner⟩
  show w.manager.find entry.id = some entry
  rw [hid]
  exact Manager.find_of_lookup hl

theorem listShells_outcome (hk : w.manager.Keyed) (requestId : UInt64) :
    Outcome A w channel e env (w.listShells A env requestId) := by
  unfold listShells
  split
  · exact .quiet rfl nofun
  · rename_i hp
    refine .quiet rfl ?_
    intro c hc
    cases List.mem_singleton.mp hc
    exact ⟨by simpa using hp, fun id hid => owned_of_listed hk hid⟩

theorem openShell_outcome (he : e.opensShell = true) (requestId : UInt64) (unixAccount command : String)
    (cols rows : UInt32) (key : List UInt8) :
    Outcome A w channel e env (w.openShell A env requestId unixAccount command cols rows key) := by
  unfold openShell
  split
  · exact .quiet rfl nofun
  · rename_i hp
    have hp : w.conn.identity.permits "open" = true := by simpa using hp
    split
    · exact .quiet rfl nofun
    · split
      · exact .quiet rfl nofun
      · have hnone : ∀ m, ∀ c ∈ [Call.openShell none], w.Justified m channel c := by
          intro m c hc
          cases List.mem_singleton.mp hc
          exact ⟨hp, nofun⟩
        simp only
        split
        · rename_i o ho
          refine ⟨.acted (.openShell _ env.openShell) ⟨rfl, he⟩, ?_⟩
          intro c hc
          cases List.mem_singleton.mp hc
          refine ⟨hp, ?_⟩
          intro id hid hinv
          cases hid
          exact Manager.opened_owner A.server hinv ho
        · exact ⟨.acted (.openShell _ env.openShell) ⟨rfl, he⟩, hnone _⟩
        · exact ⟨.acted (.openShell _ env.openShell) ⟨rfl, he⟩, hnone _⟩

theorem terminated_fst (w : World V) (env : DispatchEnv) (requestId : UInt64) (wireId : List UInt8) (res : Res)
    (calls : List Call) :
    (w.terminated env requestId wireId res calls).1 = w ∧ (w.terminated env requestId wireId res calls).2.calls = calls := by
  unfold terminated
  split <;> exact ⟨rfl, rfl⟩

theorem terminateShell_outcome : Outcome A w channel e env (w.terminateShell A env e.requestId e.shellId) := by
  unfold terminateShell
  have hinfo : ∀ id, ∀ c ∈ [Call.shellInfo id], w.Justified w.manager channel c := by
    intro id c hc
    cases List.mem_singleton.mp hc
    trivial
  split
  · exact .quiet rfl nofun
  · rename_i hp
    have hp : w.conn.identity.permits "terminate" = true := by simpa using hp
    split
    · exact .quiet rfl nofun
    · rename_i id _
      split
      · exact .quiet rfl (hinfo id)
      · rename_i info hi
        split
        · exact .quiet rfl (hinfo id)
        · rename_i howner
          have ho : w.Owned id := owned_of_info hi (not_not.mp howner)
          have hcalls : ∀ m, ∀ c ∈ [Call.shellInfo id, .terminate id], w.Justified m channel c := by
            intro m c hc
            rcases List.mem_cons.mp hc with rfl | hc
            · trivial
            · cases List.mem_singleton.mp hc
              exact ⟨hp, ho⟩
          split
          · exact .quiet rfl (hinfo id)
          · simp only
            split
            · exact ⟨.terminating id hp ho, hcalls _⟩
            · rename_i res _
              obtain ⟨h1, h2⟩ := terminated_fst
                { w with manager := (w.manager.step A.server (.terminate id env.kill)).1 } env e.requestId e.shellId
                (w.manager.step A.server (.terminate id env.kill)).2 [.shellInfo id, .terminate id]
              refine ⟨?_, ?_⟩
              · rw [h1]
                exact .acted (.terminate id env.kill) trivial
              · rw [h2]
                exact hcalls _

/-! ## Forwards -/

theorem forwardMessage_outcome {t : Nat} (ht : w.conn.forwards.lookup channel = some t) :
    Outcome A w channel e env (w.forwardMessage env channel t e) := by
  have hcalls : ∀ m, ∀ c ∈ [Call.forwardMessage], w.Justified m channel c := by
    intro m c hc
    cases List.mem_singleton.mp hc
    show (w.conn.forwards.lookup channel).isSome = true
    rw [ht]
    rfl
  unfold forwardMessage
  split
  · exact .quiet rfl (hcalls _)
  · exact ⟨.aborted t ht, hcalls _⟩

/-- What `open_forward` has checked when it goes on. -/
theorem forwardRefusal_none {host : String} {port : UInt32} (h : w.forwardRefusal A channel e host port = none) :
    w.conn.identity.permits "tcp-forward" = true ∧ w.conn.attachments.lookup channel = none ∧
      w.conn.uploads.lookup channel = none ∧ w.conn.forwards.keys.length < maxForwardsPerConnection := by
  unfold forwardRefusal at h
  split at h
  · cases h
  · split at h
    · cases h
    · rename_i hperm
      split at h
      · cases h
      · rename_i hbad
        split at h
        · cases h
        · rename_i hroom
          push Not at hperm hbad
          refine ⟨by simpa using hperm.1, ?_, ?_, by omega⟩
          · simpa using hbad.2.2.2.1
          · simpa using hbad.2.2.2.2.1

theorem openForward_outcome {host : String} {port : UInt32} (hm : e.message = some (.openTcpForward host port))
    (hc : channel ≠ 0) (hf : w.conn.forwards.lookup channel = none) :
    Outcome A w channel e env (w.openForward A env channel e host port) := by
  unfold openForward
  cases hr : w.forwardRefusal A channel e host port with
  | some x => exact .quiet rfl nofun
  | none =>
    obtain ⟨hp, ha, hu, hroom⟩ := forwardRefusal_none hr
    have hcalls : ∀ m c, c = Call.forwardAcquire ∨ c = .forwardSpawn → w.Justified m channel c := by
      rintro m c (rfl | rfl)
      · exact hp
      · exact hp
    simp only
    split
    · refine .quiet rfl ?_
      intro c hc
      exact hcalls _ c (.inl (List.mem_singleton.mp hc))
    · refine ⟨.forwarded host port hm hc ⟨ha, hu, hf⟩ hroom hp, ?_⟩
      intro c hc
      rcases List.mem_cons.mp hc with rfl | hc
      · exact hcalls _ _ (.inl rfl)
      · exact hcalls _ c (.inr (List.mem_singleton.mp hc))

/-! ## Uploads -/

theorem serviceBegin_ok {maxFileBytes : UInt64} {metadata : BeginUpload} {maximum : UInt32} {writer : UploadWriter}
    {d : Directory} (h : serviceBegin maxFileBytes metadata maximum env = .ok (writer, d)) :
    UploadWriter.WriterInv [] writer d := by
  unfold serviceBegin at h
  split at h
  · cases h
  · split at h
    · cases h
    · have hspec := begin_spec maxFileBytes metadata maximum env.begins
      generalize beginWithChunkLimit maxFileBytes metadata maximum env.begins = r at h hspec
      obtain ⟨res, d'⟩ := r
      cases res with
      | error e => cases h
      | ok writer' =>
        cases h
        rcases hspec with ⟨_, hw, hinv, _⟩ | ⟨_, he, _⟩
        · cases hw
          exact hinv
        · cases he

theorem startUpload_outcome {id : ShellId} {maxFileBytes : UInt64} {metadata : BeginUpload}
    (hm : e.message = some (.beginUpload metadata)) (hc : channel ≠ 0) (hu : w.Unbound channel)
    (hroom : w.conn.uploads.keys.length < maxUploadsPerConnection) (hp : w.conn.identity.permits "upload" = true)
    (ho : w.Owned id) :
    Outcome A w channel e env (w.startUpload A env channel e.requestId id maxFileBytes metadata) := by
  have hcalls : ∀ ok m, ∀ c ∈ [Call.shellInfo id, .uploadAcquire, .uploadBegin id ok], w.Justified m channel c := by
    intro ok m c hc
    rcases List.mem_cons.mp hc with rfl | hc
    · trivial
    · rcases List.mem_cons.mp hc with rfl | hc
      · exact hp
      · cases List.mem_singleton.mp hc
        exact ⟨hp, ho⟩
  unfold startUpload
  split
  · exact .quiet rfl (hcalls false _)
  · rename_i writer d hbegin
    exact ⟨.begun id writer d metadata hm hc hu hroom hp ho (serviceBegin_ok hbegin), hcalls true _⟩

theorem beginUpload_outcome {metadata : BeginUpload} (hm : e.message = some (.beginUpload metadata)) (hc : channel ≠ 0)
    (hf : w.conn.forwards.lookup channel = none) :
    Outcome A w channel e env (w.beginUpload A env channel e metadata) := by
  have hinfo : ∀ id, ∀ c ∈ [Call.shellInfo id], w.Justified w.manager channel c := by
    intro id c hc
    cases List.mem_singleton.mp hc
    trivial
  unfold beginUpload
  split
  · exact .quiet rfl nofun
  · split
    · exact .quiet rfl nofun
    · split
      · exact .quiet rfl nofun
      · rename_i hp
        have hp : w.conn.identity.permits "upload" = true := by simpa using hp
        split
        · exact .quiet rfl nofun
        · rename_i hfree
          push Not at hfree
          have hu : w.Unbound channel := ⟨by simpa using hfree.2.1, by simpa using hfree.2.2, hf⟩
          split
          · exact .quiet rfl nofun
          · rename_i id _
            split
            · exact .quiet rfl (hinfo id)
            · rename_i info hi
              split
              · exact .quiet rfl (hinfo id)
              · rename_i howner
                push Not at howner
                have ho : w.Owned id := owned_of_info hi howner.1
                split
                · exact .quiet rfl (hinfo id)
                · rename_i hroom
                  split
                  · refine .quiet rfl ?_
                    intro c hc
                    rcases List.mem_cons.mp hc with rfl | hc
                    · trivial
                    · cases List.mem_singleton.mp hc
                      exact hp
                  · exact startUpload_outcome hm hc hu (by omega) hp ho

/-- The call of a command rests on the binding it was found by. -/
theorem sendCommand_calls (w' : World V) {b : UploadBinding} (hb : w.conn.uploads.lookup channel = some b)
    (hw : w'.actors = w.actors) (command : UploadCommand) :
    ∀ c ∈ (w'.sendCommand b command).2.calls, w.Justified w.manager channel c := by
  intro c hc
  simp only [sendCommand, hw, Option.mem_toList, Option.map_eq_some_iff] at hc
  obtain ⟨a, ha, rfl⟩ := hc
  exact ⟨b, a, hb, ha, rfl⟩

theorem uploadChunk_outcome {chunk : UploadChunk} (hm : e.message = some (.uploadChunk chunk)) :
    Outcome A w channel e env (w.uploadChunk env channel e.requestId chunk) := by
  unfold uploadChunk
  split
  · exact .quiet rfl nofun
  · rename_i b hb
    split
    · exact .quiet rfl nofun
    · exact ⟨.sending b chunk hm hb, sendCommand_calls w hb rfl _⟩

theorem finishUpload_outcome (uploadId : List UInt8) :
    Outcome A w channel e env (w.finishUpload env channel e.requestId uploadId) := by
  unfold finishUpload
  split
  · exact .quiet rfl nofun
  · rename_i b hb
    split
    · exact ⟨.unbound b hb, nofun⟩
    · exact ⟨.sendingLast b _ hb, sendCommand_calls (w.unbindUpload channel) hb rfl (.finish uploadId)⟩

theorem abortUpload_outcome (uploadId : List UInt8) (reason : String) :
    Outcome A w channel e env (w.abortUpload env channel e.requestId uploadId reason) := by
  unfold abortUpload
  split
  · exact .quiet rfl nofun
  · rename_i b hb
    split
    · exact ⟨.unbound b hb, nofun⟩
    · exact ⟨.sendingLast b _ hb, sendCommand_calls (w.unbindUpload channel) hb rfl .abort⟩

/-! ## Attachments -/

theorem owned_of_attached {token : ResumeToken} {id : ShellId} {cols rows : UInt16} {a : Attachment}
    {aenv : Runtime.AttachEnv}
    (h : (w.manager.attach A.server w.conn.identity.userId id token cols rows aenv).2 = .attached a) : w.Owned id := by
  unfold Manager.attach Manager.withEntry at h
  split at h
  · cases h
  · rename_i entry he
    simp only at h
    split at h
    · cases h
    · rename_i ho
      exact ⟨entry, Manager.find_of_lookup he, not_not.mp ho⟩

theorem attach_outcome {resumeToken : List UInt8} {cols rows : UInt32}
    (hm : e.message = some (.attachShell resumeToken cols rows)) (hc : channel ≠ 0)
    (hf : w.conn.forwards.lookup channel = none) :
    Outcome A w channel e env (w.attach A env channel e resumeToken cols rows) := by
  unfold attach
  split
  · exact .quiet rfl nofun
  · rename_i hp
    have hp : w.conn.identity.permits "attach" = true := by simpa using hp
    split
    · exact .quiet rfl nofun
    · rename_i hfree
      have hfree : w.conn.attachments.lookup channel = none := by simpa using hfree
      split
      · exact .quiet rfl nofun
      · rename_i id _
        have hcalls : ∀ (ok : Bool) m, (ok = true → w.Owned id) → ∀ c ∈ [Call.attach id ok], w.Justified m channel c := by
          intro ok m ho c hc
          cases List.mem_singleton.mp hc
          exact ⟨hp, ho⟩
        split
        · exact .quiet rfl nofun
        · rename_i token _
          simp only
          split
          · rename_i a ha
            have ho := owned_of_attached ha
            exact ⟨.attached id token _ _ _ resumeToken cols rows hm hc hfree hf hp ho, hcalls true _ fun _ => ho⟩
          · exact ⟨.acted (.attach _ id token _ _ env.attach) trivial, hcalls false _ nofun⟩
          · exact ⟨.acted (.attach _ id token _ _ env.attach) trivial, hcalls false _ nofun⟩

theorem terminalInput_outcome (requestId : UInt64) (data : List UInt8) :
    Outcome A w channel e env (w.terminalInput A env channel requestId data) := by
  unfold terminalInput
  split
  · exact .quiet rfl nofun
  · rename_i b hb
    have hcalls : ∀ m, ∀ c ∈ [Call.writeInput b.shellId], w.Justified m channel c := by
      intro m c hc
      cases List.mem_singleton.mp hc
      exact ⟨b, hb, rfl⟩
    simp only
    split
    · exact ⟨.acted (.writeInput b.shellId data env.write) trivial, hcalls _⟩
    · exact ⟨.acted (.writeInput b.shellId data env.write) trivial, hcalls _⟩

theorem terminalResize_outcome (cols rows : UInt32) :
    Outcome A w channel e env (w.terminalResize A env channel cols rows) := by
  unfold terminalResize
  split
  · exact .quiet rfl nofun
  · rename_i b hb
    refine ⟨.acted (.resize b.shellId _ _ env.resize) trivial, ?_⟩
    intro c hc
    cases List.mem_singleton.mp hc
    exact ⟨b, hb, rfl⟩

theorem requestHistory_outcome (requestId before : UInt64) (lines bytes : UInt32) :
    Outcome A w channel e env (w.requestHistory env channel requestId before lines bytes) := by
  unfold requestHistory
  split
  · exact .quiet rfl nofun
  · rename_i b hb
    have hcalls : ∀ m, ∀ c ∈ [Call.history b.shellId], w.Justified m channel c := by
      intro m c hc
      cases List.mem_singleton.mp hc
      exact ⟨b, hb, rfl⟩
    split
    · exact .quiet rfl (hcalls _)
    · exact .quiet rfl (hcalls _)

theorem detachShell_outcome :
    Outcome A w channel e env ((w.detach A channel).1.done (w.detach A channel).2) := by
  unfold detach
  split
  · exact .quiet rfl nofun
  · rename_i b hb
    refine ⟨.detached b hb, ?_⟩
    intro c hc
    cases List.mem_singleton.mp hc
    exact ⟨b, hb, rfl⟩

/-! ## Dispatch -/

theorem onControl_outcome (hk : w.manager.Keyed) {m : ClientMessage} (hm : e.message = some m) :
    Outcome A w 0 e env (w.onControl A env e m) := by
  cases m with
  | clientHello hello => exact clientHello_outcome e.requestId hello
  | authenticate method => exact authenticate_outcome method hm
  | listShells => exact listShells_outcome hk e.requestId
  | openShell unixAccount command cols rows key =>
    have he : e.opensShell = true := by rw [Envelope.opensShell, hm]
    exact openShell_outcome he e.requestId unixAccount command cols rows key
  | terminateShell => exact terminateShell_outcome
  | _ => exact .quiet rfl nofun

theorem onChannel_outcome {m : ClientMessage} (hm : e.message = some m) (hc : channel ≠ 0)
    (hf : w.conn.forwards.lookup channel = none) : Outcome A w channel e env (w.onChannel A env channel e m) := by
  cases m with
  | openTcpForward host port => exact openForward_outcome hm hc hf
  | beginUpload metadata => exact beginUpload_outcome hm hc hf
  | uploadChunk chunk => exact uploadChunk_outcome hm
  | finishUpload uploadId => exact finishUpload_outcome uploadId
  | abortUpload uploadId reason => exact abortUpload_outcome uploadId reason
  | attachShell resumeToken cols rows => exact attach_outcome hm hc hf
  | terminalInput data => exact terminalInput_outcome e.requestId data
  | terminalResize cols rows => exact terminalResize_outcome cols rows
  | requestHistory before lines bytes => exact requestHistory_outcome e.requestId before lines bytes
  | detachShell => exact detachShell_outcome
  | _ => exact .quiet rfl nofun

/-- Every dispatch, after its sweep. -/
theorem dispatchSwept_outcome (hk : w.manager.Keyed) (channel : Nat) (e : Envelope) (env : DispatchEnv) :
    Outcome A w channel e env (w.dispatchSwept A channel e env) := by
  unfold dispatchSwept
  split
  · exact .quiet rfl nofun
  · rename_i m hm
    split
    · exact .quiet rfl nofun
    · split
      · rename_i t ht
        exact forwardMessage_outcome ht
      · rename_i hf
        split
        · rename_i hc
          subst hc
          exact onControl_outcome hk hm
        · rename_i hc
          exact onChannel_outcome hm hc hf

/-! ## What is awaited -/

variable (A)

/-- The ways an awaited call completes, or does not yet. -/
inductive Resumed (w : World V) (s : Step V) : Prop where
  | waits (h : s = (w, .none)) : Resumed w s
  | terminated (id : ShellId) (requestId : UInt64) (wireId : List UInt8)
      (hp : w.pending = some (.terminating id requestId wireId))
      (h1 : s.1 = { w with manager := (w.manager.step A.server (.terminateWake id)).1, pending := none })
      (h2 : s.2.calls = [.terminate id]) : Resumed w s
  | failed (a : Nat) (command : UploadCommand) (hp : w.pending = some (.sending a command))
      (ha : w.actorRunning a = false) (h : s = ({ w with pending := none }, ⟨[], some false, []⟩)) : Resumed w s
  | sent (a : Nat) (command : UploadCommand) (x : UploadActor) (hp : w.pending = some (.sending a command))
      (ha : w.actorRunning a = true) (hx : w.actors[a]? = some x) (hroom : x.queue.length < uploadCommandQueueMessages)
      (h : s = ({ w with pending := none, actors := w.actors.set a { x with queue := x.queue ++ [command] } },
        ⟨[], some true, []⟩)) : Resumed w s

variable {A}

theorem resume_cases (env : DispatchEnv) : Resumed A w (w.resume A env) := by
  unfold resume
  split
  · exact .waits rfl
  · rename_i id requestId wireId hp
    obtain ⟨h1, h2⟩ := terminated_fst
      { w with manager := (w.manager.step A.server (.terminateWake id)).1, pending := none } env requestId wireId
      (w.manager.step A.server (.terminateWake id)).2 [.terminate id]
    exact .terminated id requestId wireId hp h1 h2
  · rename_i a command hp
    split
    · rename_i ha
      exact .failed a command hp ha rfl
    · rename_i ha
      split
      · exact .waits rfl
      · rename_i x hx
        split
        · rename_i hroom
          exact .sent a command x hp (by simpa using ha) hx hroom rfl
        · exact .waits rfl

/-- What is awaited completes without touching a binding. -/
theorem resume_conn (env : DispatchEnv) : (w.resume A env).1.conn = w.conn := by
  cases (resume_cases env : Resumed A w (w.resume A env)) with
  | waits h => rw [h]
  | terminated _ _ _ _ h1 _ => rw [h1]
  | failed _ _ _ _ h => rw [h]
  | sent _ _ _ _ _ _ _ h => rw [h]

/-! ## Steps that are no message -/

/-- Who the connection is stays as it was, and no binding is new. -/
structure Shrinks (w w' : World V) : Prop where
  identity : w'.conn.identity = w.conn.identity
  channelBinding : w'.conn.channelBinding = w.conn.channelBinding
  attachments : Table.Within w'.conn.attachments w.conn.attachments
  uploads : Table.Within w'.conn.uploads w.conn.uploads
  forwards : Table.Within w'.conn.forwards w.conn.forwards
  pending : ∀ p, w'.pending = some p → w.pending = some p

theorem Shrinks.refl (w : World V) : Shrinks w w :=
  ⟨rfl, rfl, Table.within_refl _, Table.within_refl _, Table.within_refl _, fun _ h => h⟩

theorem shrinks_sweep (w : World V) : Shrinks w w.sweep :=
  ⟨rfl, rfl, Table.within_refl _, Table.within_retain _ _, Table.within_refl _, fun _ h => h⟩

theorem shrinks_of_conn {w' : World V} (h : w'.conn = w.conn) (hp : ∀ p, w'.pending = some p → w.pending = some p) :
    Shrinks w w' := by
  refine ⟨?_, ?_, ?_, ?_, ?_, hp⟩
  · rw [h]
  · rw [h]
  · rw [h]
    exact Table.within_refl _
  · rw [h]
    exact Table.within_refl _
  · rw [h]
    exact Table.within_refl _

theorem shrinks_channelClosed (w : World V) (channel : Nat) : Shrinks w (w.channelClosed A channel).1 := by
  unfold channelClosed detach
  simp only
  split
  · exact ⟨rfl, rfl, Table.within_refl _, Table.within_erase _ _, Table.within_erase _ _, fun _ h => h⟩
  · exact ⟨rfl, rfl, Table.within_erase _ _, Table.within_erase _ _, Table.within_erase _ _, fun _ h => h⟩

theorem step_shrinks {i : Input} (hi : i.isMessage = false) : Shrinks w (w.step A i).1 := by
  cases i with
  | message channel e env => cases hi
  | resume env =>
    refine shrinks_of_conn (resume_conn env) ?_
    intro p hp
    show w.pending = some p
    change (w.resume A env).1.pending = some p at hp
    cases (resume_cases env : Resumed A w (w.resume A env)) with
    | waits h => rw [h] at hp; exact hp
    | terminated _ _ _ _ h1 _ => rw [h1] at hp; cases hp
    | failed _ _ _ _ h => rw [h] at hp; cases hp
    | sent _ _ _ _ _ _ _ h => rw [h] at hp; cases hp
  | channelClosed channel =>
    simp only [step]
    split
    · exact .refl w
    · exact shrinks_channelClosed w channel
  | gone =>
    simp only [step]
    split
    · exact .refl w
    · exact ⟨rfl, rfl, Table.within_empty _, Table.within_empty _, Table.within_empty _, fun _ h => h⟩
  | upload a input =>
    simp only [step]
    split
    · exact .refl w
    · exact shrinks_of_conn rfl fun _ h => h
  | forwardEnds t => exact shrinks_of_conn rfl fun _ h => h
  | manager op => exact shrinks_of_conn rfl fun _ h => h

/-- An actor stays the upload it was started for. -/
theorem actorStep_same (x : UploadActor) (sender : Bool) (input : ActorInput) :
    (actorStep A x sender input).1.channel = x.channel ∧ (actorStep A x sender input).1.shellId = x.shellId := by
  unfold actorStep
  split
  · split
    · split <;> exact ⟨rfl, rfl⟩
    · split <;> exact ⟨rfl, rfl⟩
  · split <;> exact ⟨rfl, rfl⟩
  · exact ⟨rfl, rfl⟩
  · exact ⟨rfl, rfl⟩

/-! ## One step -/

theorem step_message (hp : w.pending = none) (channel : Nat) (e : Envelope) (env : DispatchEnv) :
    w.step A (.message channel e env) = w.sweep.dispatchSwept A channel e env := by
  simp only [step, hp, Option.isSome_none, Bool.false_eq_true, if_false, dispatch]

theorem step_waiting {p : Pending} (hp : w.pending = some p) (channel : Nat) (e : Envelope) (env : DispatchEnv) :
    w.step A (.message channel e env) = (w, .none) := by
  simp only [step, hp, Option.isSome_some, if_true]

/-- A step keeps what the sweep, each change of a dispatch and the steps that are no message
    keep. -/
theorem step_rule {P : World V → Prop} (hk : w.manager.Keyed) (hw : P w) (i : Input)
    (hmessage : ∀ channel e env w', i = .message channel e env → w.pending = none →
      Change A w.sweep channel e env w' → P w')
    (hbackground : i.isMessage = false → P (w.step A i).1) : P (w.step A i).1 := by
  cases i with
  | message channel e env =>
    cases hp : w.pending with
    | some p =>
      rw [step_waiting hp]
      exact hw
    | none =>
      rw [step_message hp]
      exact hmessage channel e env _ rfl hp (dispatchSwept_outcome (w := w.sweep) hk channel e env).change
  | _ => exact hbackground rfl

/-! ## The manager along a step -/

variable (A)

/-- `rand::random` does not repeat a shell id, here or in another connection. -/
def FreshDraw (w : World V) : Input → Prop
  | .message _ e env => e.opensShell = true → w.manager.find env.openShell.shellId = none
  | .manager op => Manager.FreshId A.server w.manager op
  | _ => True

instance (w : World V) (i : Input) : Decidable (w.FreshDraw A i) :=
  match i with
  | .message _ e env => inferInstanceAs (Decidable (e.opensShell = true → w.manager.find env.openShell.shellId = none))
  | .resume _ => .isTrue trivial
  | .channelClosed _ => .isTrue trivial
  | .gone => .isTrue trivial
  | .upload _ _ => .isTrue trivial
  | .forwardEnds _ => .isTrue trivial
  | .manager op => inferInstanceAs (Decidable (Manager.FreshId A.server w.manager op))

/-- A step takes the manager through operations of its own. -/
structure Operates (w w' : World V) (fresh : Prop) : Prop where
  ops : ∃ ops, w'.manager = (Manager.machine A.server).run w.manager ops ∧
    (fresh → (Manager.machine A.server).Admissible (Manager.FreshId A.server) w.manager ops)

variable {A}

theorem Operates.none {w' : World V} {fresh : Prop} (h : w'.manager = w.manager) : Operates A w w' fresh :=
  ⟨[], h, fun _ => trivial⟩

theorem Operates.one {w' : World V} {fresh : Prop} (op : Op) (h : w'.manager = (w.manager.step A.server op).1)
    (hf : fresh → Manager.FreshId A.server w.manager op) : Operates A w w' fresh :=
  ⟨[op], h, fun hfresh => ⟨hf hfresh, trivial⟩⟩

theorem Operates.quietOp {w' : World V} {fresh : Prop} (op : Op) (h : w'.manager = (w.manager.step A.server op).1)
    (hop : op.isOpen = false) : Operates A w w' fresh :=
  .one op h fun _ => Manager.freshId_of_not_open A.server hop

theorem OwnOp.fresh {op : Op} (hop : OwnOp e env op)
    (hf : e.opensShell = true → w.manager.find env.openShell.shellId = none) :
    Manager.FreshId A.server w.manager op := by
  cases h : op.isOpen with
  | false => exact Manager.freshId_of_not_open A.server h
  | true =>
    cases op with
    | openShell req env' =>
      obtain ⟨rfl, he⟩ := hop
      exact Manager.freshId_of_find A.server (hf he) req
    | _ => cases h

theorem Change.operates {w' : World V} (h : Change A w channel e env w') :
    Operates A w w' (e.opensShell = true → w.manager.find env.openShell.shellId = none) := by
  cases h with
  | acted op hop => exact .one op rfl hop.fresh
  | terminating id _ _ => exact .quietOp (.terminate id env.kill) rfl rfl
  | attached id token cols rows _ _ _ _ _ _ _ _ _ =>
    exact .quietOp (.attach w.conn.identity.userId id token cols rows env.attach) rfl rfl
  | detached b _ => exact .quietOp (.detach b.shellId b.attachmentId) rfl rfl
  | _ => exact .none rfl

theorem detach_operates (w : World V) (channel : Nat) (fresh : Prop) : Operates A w (w.detach A channel).1 fresh := by
  unfold detach
  split
  · exact .none rfl
  · rename_i b _
    exact .quietOp (.detach b.shellId b.attachmentId) rfl rfl

theorem detachAll_operates (w : World V) (fresh : Prop) : Operates A w (w.detachAll A).1 fresh := by
  refine ⟨w.conn.attachments.values.map fun b => .detach b.shellId b.attachmentId, ?_, ?_⟩
  · show w.conn.attachments.values.foldl _ w.manager = List.foldl _ w.manager _
    rw [List.foldl_map]
    rfl
  · intro _
    generalize w.conn.attachments.values = bindings
    generalize w.manager = m
    induction bindings generalizing m with
    | nil => trivial
    | cons b bindings ih => exact ⟨Manager.freshId_of_not_open A.server rfl, ih _⟩

theorem step_operates (hk : w.manager.Keyed) (i : Input) : Operates A w (w.step A i).1 (FreshDraw A w i) := by
  cases i with
  | message channel e env =>
    simp only [step]
    split
    · exact .none rfl
    · exact ⟨(dispatchSwept_outcome (w := w.sweep) hk channel e env).change.operates.ops⟩
  | resume env =>
    show Operates A w (w.resume A env).1 True
    cases (resume_cases env : Resumed A w (w.resume A env)) with
    | waits h => rw [h]; exact .none rfl
    | terminated id _ _ _ h1 _ => rw [h1]; exact .quietOp (.terminateWake id) rfl rfl
    | failed _ _ _ _ h => rw [h]; exact .none rfl
    | sent _ _ _ _ _ _ _ h => rw [h]; exact .none rfl
  | channelClosed channel =>
    simp only [step]
    split
    · exact .none rfl
    · exact ⟨(detach_operates (A := A) _ channel _).ops⟩
  | gone =>
    simp only [step]
    split
    · exact .none rfl
    · exact detachAll_operates w _
  | upload a input =>
    simp only [step]
    split
    · exact .none rfl
    · exact .none rfl
  | forwardEnds t => exact .none rfl
  | manager op => exact .one op rfl fun hf => hf

/-- What every admissible run of the manager keeps, every step keeps. -/
theorem Operates.keeps {w' : World V} {fresh : Prop} (h : Operates A w w' fresh) (hf : fresh) {P : Manager V → Prop}
    (hP : ∀ m op, P m → Manager.FreshId A.server m op → P (m.step A.server op).1) (hw : P w.manager) :
    P w'.manager := by
  obtain ⟨ops, hrun, hok⟩ := h.ops
  rw [hrun]
  exact Machine.run_induction (Manager.machine A.server) hP hw (hok hf)

theorem step_keyed (hk : w.manager.Keyed) (i : Input) : (w.step A i).1.manager.Keyed := by
  obtain ⟨ops, hrun, _⟩ := (step_operates hk i : Operates A w _ _).ops
  rw [hrun]
  apply Machine.run_induction (P := Manager.Keyed) (Manager.machine A.server) _ hk (Machine.admissible_true _ _ ops)
  intro m op hm _
  exact Manager.keyed_step A.server hm op

end Holdfast.Daemon.World

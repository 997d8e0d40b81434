/-
  Holdfast.Daemon.Roles — one role a channel.

  An attachment, an upload and a forward each take a channel of their own. `begin_upload` and
  `open_forward` look for all three roles (a forward's channel is routed before them);
  `attach` looks for an attachment only, so an `AttachShell` on the channel of a live upload
  gives it a second role (`attach_shares_an_upload_channel`).

  Proved:
  - `exclusive_step`: every other step keeps the roles apart and channel 0 free.
  - `channel_roles_exclusive`: in every run without such an `AttachShell` they are apart
    in every state, and a message that would open a role on a bound channel is refused.
-/

import Holdfast.Daemon.Dispatch

namespace Holdfast.Daemon

open Holdfast.Base Holdfast.Protocol Holdfast.Session Holdfast.Upload

/-- No channel has two roles, and channel 0 has none. -/
structure Conn.Exclusive (c : Conn) : Prop where
  control : c.attachments.lookup 0 = none ∧ c.uploads.lookup 0 = none ∧ c.forwards.lookup 0 = none
  attachmentUpload : ∀ channel, c.attachments.lookup channel = none ∨ c.uploads.lookup channel = none
  attachmentForward : ∀ channel, c.attachments.lookup channel = none ∨ c.forwards.lookup channel = none
  uploadForward : ∀ channel, c.uploads.lookup channel = none ∨ c.forwards.lookup channel = none

def Conn.Bound (c : Conn) (channel : Nat) : Prop :=
  (c.attachments.lookup channel).isSome = true ∨ (c.uploads.lookup channel).isSome = true ∨
    (c.forwards.lookup channel).isSome = true

structure Conn.SameBindings (c c' : Conn) : Prop where
  attachments : c'.attachments = c.attachments
  uploads : c'.uploads = c.uploads
  forwards : c'.forwards = c.forwards

/-- The messages that open a role. -/
def ClientMessage.opensRole : ClientMessage → Bool
  | .attachShell _ _ _ => true
  | .beginUpload _ => true
  | .openTcpForward _ _ => true
  | _ => false

def ClientMessage.isAttach : ClientMessage → Bool
  | .attachShell _ _ _ => true
  | _ => false

theorem Conn.exclusive_new (datagrams : Bool) (channelBinding : List UInt8) : (Conn.new datagrams channelBinding).Exclusive :=
  ⟨⟨rfl, rfl, rfl⟩, fun _ => .inl rfl, fun _ => .inl rfl, fun _ => .inl rfl⟩

/-- Losing bindings keeps the roles apart. -/
theorem Conn.Exclusive.within {c c' : Conn} (h : c.Exclusive) (ha : Table.Within c'.attachments c.attachments)
    (hu : Table.Within c'.uploads c.uploads) (hf : Table.Within c'.forwards c.forwards) : c'.Exclusive where
  control := ⟨ha.lookup_none h.control.1, hu.lookup_none h.control.2.1, hf.lookup_none h.control.2.2⟩
  attachmentUpload channel := (h.attachmentUpload channel).imp ha.lookup_none hu.lookup_none
  attachmentForward channel := (h.attachmentForward channel).imp ha.lookup_none hf.lookup_none
  uploadForward channel := (h.uploadForward channel).imp hu.lookup_none hf.lookup_none

theorem lookup_insert_none {K V : Type} [DecidableEq K] {t : Table K V} {k a : K} {v : V} (h : a ≠ k)
    (ht : t.lookup a = none) : (t.insert k v).lookup a = none := by
  rw [AList.lookup_insert_ne h]
  exact ht

/-- Binding a channel that has no role gives it one. -/
theorem Conn.Exclusive.insertAttachment {c : Conn} (h : c.Exclusive) {channel : Nat} (hc : channel ≠ 0)
    (hu : c.uploads.lookup channel = none) (hf : c.forwards.lookup channel = none) (b : Binding) :
    ({ c with attachments := c.attachments.insert channel b } : Conn).Exclusive := by
  refine ⟨⟨lookup_insert_none hc.symm h.control.1, h.control.2⟩, ?_, ?_, h.uploadForward⟩
  · intro k
    by_cases hk : k = channel
    · exact .inr (hk ▸ hu)
    · exact (h.attachmentUpload k).imp_left (lookup_insert_none hk)
  · intro k
    by_cases hk : k = channel
    · exact .inr (hk ▸ hf)
    · exact (h.attachmentForward k).imp_left (lookup_insert_none hk)

theorem Conn.Exclusive.insertUpload {c : Conn} (h : c.Exclusive) {channel : Nat} (hc : channel ≠ 0)
    (ha : c.attachments.lookup channel = none) (hf : c.forwards.lookup channel = none) (b : UploadBinding) :
    ({ c with uploads := c.uploads.insert channel b } : Conn).Exclusive := by
  refine ⟨⟨h.control.1, lookup_insert_none hc.symm h.control.2.1, h.control.2.2⟩, ?_, h.attachmentForward, ?_⟩
  · intro k
    by_cases hk : k = channel
    · exact .inl (hk ▸ ha)
    · exact (h.attachmentUpload k).imp_right (lookup_insert_none hk)
  · intro k
    by_cases hk : k = channel
    · exact .inr (hk ▸ hf)
    · exact (h.uploadForward k).imp_left (lookup_insert_none hk)

theorem Conn.Exclusive.insertForward {c : Conn} (h : c.Exclusive) {channel : Nat} (hc : channel ≠ 0)
    (ha : c.attachments.lookup channel = none) (hu : c.uploads.lookup channel = none) (t : Nat) :
    ({ c with forwards := c.forwards.insert channel t } : Conn).Exclusive := by
  refine ⟨⟨h.control.1, h.control.2.1, lookup_insert_none hc.symm h.control.2.2⟩, h.attachmentUpload, ?_, ?_⟩
  · intro k
    by_cases hk : k = channel
    · exact .inl (hk ▸ ha)
    · exact (h.attachmentForward k).imp_right (lookup_insert_none hk)
  · intro k
    by_cases hk : k = channel
    · exact .inl (hk ▸ hu)
    · exact (h.uploadForward k).imp_right (lookup_insert_none hk)

namespace World

variable {V : Type} {A : App V} {w : World V} {channel : Nat} {e : Envelope} {env : DispatchEnv}

/-- No `AttachShell` on the channel of a live upload. -/
def NoAttachOnUpload (w : World V) : Input → Prop
  | .message channel e _ =>
    (e.message.map (·.isAttach)).getD false = true → w.sweep.conn.uploads.lookup channel = none
  | _ => True

instance (w : World V) (i : Input) : Decidable (w.NoAttachOnUpload i) :=
  match i with
  | .message channel e _ => inferInstanceAs (Decidable ((e.message.map (·.isAttach)).getD false = true →
      w.sweep.conn.uploads.lookup channel = none))
  | .resume _ => .isTrue trivial
  | .channelClosed _ => .isTrue trivial
  | .gone => .isTrue trivial
  | .upload _ _ => .isTrue trivial
  | .forwardEnds _ => .isTrue trivial
  | .manager _ => .isTrue trivial

theorem exclusive_sweep (h : w.conn.Exclusive) : w.sweep.conn.Exclusive :=
  h.within (Table.within_refl _) (Table.within_retain _ _) (Table.within_refl _)

theorem Change.exclusive {w' : World V} (hch : Change A w channel e env w') (h : w.conn.Exclusive)
    (hno : (e.message.map (·.isAttach)).getD false = true → w.conn.uploads.lookup channel = none) :
    w'.conn.Exclusive := by
  cases hch with
  | attached id token cols rows attachmentId _ _ _ hm hc ha hf hp ho =>
    have hu : w.conn.uploads.lookup channel = none := by
      apply hno
      rw [hm]
      rfl
    exact h.insertAttachment hc hu hf _
  | detached b hb => exact h.within (Table.within_erase _ _) (Table.within_refl _) (Table.within_refl _)
  | begun id writer d metadata hm hc hu hroom hp ho hw => exact h.insertUpload hc hu.attachment hu.forward _
  | sendingLast b command hb => exact h.within (Table.within_refl _) (Table.within_erase _ _) (Table.within_refl _)
  | unbound b hb => exact h.within (Table.within_refl _) (Table.within_erase _ _) (Table.within_refl _)
  | forwarded host port hm hc hu hroom hp => exact h.insertForward hc hu.attachment hu.upload _
  | negotiated n => exact ⟨h.control, h.attachmentUpload, h.attachmentForward, h.uploadForward⟩
  | identity method hm => exact ⟨h.control, h.attachmentUpload, h.attachmentForward, h.uploadForward⟩
  | _ => exact h

theorem exclusive_step (hk : w.manager.Keyed) (h : w.conn.Exclusive) {i : Input} (hno : w.NoAttachOnUpload i) :
    (w.step A i).1.conn.Exclusive := by
  apply step_rule (P := fun w' => w'.conn.Exclusive) hk h i
  · rintro channel e env w' rfl _ hch
    exact hch.exclusive (exclusive_sweep h) hno
  · intro hi
    have hs := step_shrinks (A := A) (w := w) hi
    exact h.within hs.attachments hs.uploads hs.forwards

/-! ## Refusals -/

/-- An error, and every binding as it was. -/
structure Refused (w : World V) (channel : Nat) (s : Step V) : Prop where
  same : w.conn.SameBindings s.1.conn
  reply : ∃ requestId code text, s.2.replies = [(channel, errorEnvelope requestId code text false)]

theorem refused_refuse (w : World V) (env : DispatchEnv) (channel : Nat) (requestId : UInt64) (code : ErrorCode)
    (text : String) (calls : List Call) : Refused w channel (w.refuse env channel requestId code text calls) :=
  ⟨⟨rfl, rfl, rfl⟩, requestId, code, text, rfl⟩

theorem forwardFrame_opensRole {m : ClientMessage} (hm : e.message = some m) (ho : m.opensRole = true) :
    forwardFrame e = false := by
  cases m <;> cases ho <;> simp [forwardFrame, hm]

theorem attach_refused {resumeToken : List UInt8} {cols rows : UInt32}
    (hb : (w.conn.attachments.lookup channel).isSome = true) :
    Refused w channel (w.attach A env channel e resumeToken cols rows) := by
  unfold attach
  rw [if_pos hb]
  split
  · exact refused_refuse ..
  · exact refused_refuse ..

theorem beginUpload_refused {metadata : BeginUpload}
    (hb : (w.conn.attachments.lookup channel).isSome = true ∨ (w.conn.uploads.lookup channel).isSome = true) :
    Refused w channel (w.beginUpload A env channel e metadata) := by
  unfold beginUpload
  split
  · exact refused_refuse ..
  · split
    · exact refused_refuse ..
    · split
      · exact refused_refuse ..
      · split
        · exact refused_refuse ..
        · rename_i hfree
          exact absurd (.inr hb) hfree

theorem openForward_refused {host : String} {port : UInt32}
    (hb : (w.conn.attachments.lookup channel).isSome = true ∨ (w.conn.uploads.lookup channel).isSome = true) :
    Refused w channel (w.openForward A env channel e host port) := by
  unfold openForward
  cases hr : w.forwardRefusal A channel e host port with
  | some x => exact refused_refuse ..
  | none =>
    obtain ⟨_, ha, hu, _⟩ := forwardRefusal_none hr
    rw [ha, hu] at hb
    rcases hb with hb | hb <;> cases hb

/-- A message that would open a role on a bound channel is refused. -/
theorem dispatchSwept_refused {m : ClientMessage} (hm : e.message = some m) (ho : m.opensRole = true)
    (hex : w.conn.Exclusive) (hb : w.conn.Bound channel)
    (hno : m.isAttach = true → w.conn.uploads.lookup channel = none) :
    Refused w channel (w.dispatchSwept A channel e env) := by
  unfold dispatchSwept
  simp only [hm]
  split
  · exact refused_refuse ..
  · cases hf : w.conn.forwards.lookup channel with
    | some t =>
      simp only [forwardMessage, forwardFrame_opensRole hm ho, Bool.false_and, Bool.false_eq_true, if_false]
      exact ⟨⟨rfl, rfl, rfl⟩, 0, _, _, rfl⟩
    | none =>
      have hb : (w.conn.attachments.lookup channel).isSome = true ∨ (w.conn.uploads.lookup channel).isSome = true := by
        rcases hb with hb | hb | hb
        · exact .inl hb
        · exact .inr hb
        · rw [hf] at hb
          cases hb
      have hc : channel ≠ 0 := by
        rintro rfl
        rw [hex.control.1, hex.control.2.1] at hb
        rcases hb with hb | hb <;> cases hb
      simp only [hc, if_false]
      cases m with
      | attachShell resumeToken cols rows =>
        have hu := hno rfl
        rcases hb with hb | hb
        · exact attach_refused hb
        · rw [hu] at hb
          cases hb
      | beginUpload metadata => exact beginUpload_refused hb
      | openTcpForward host port => exact openForward_refused hb
      | _ => cases ho

/-! ## Over runs -/

/-- In every run without an `AttachShell` on the channel of a live upload, no channel ever
    has two roles and channel 0 has none; and there a message that would open a role on a
    bound channel is refused, with every binding as it was. -/
theorem channel_roles_exclusive (A : App V) (datagrams : Bool) (channelBinding : List UInt8) (is : List Input)
    (hok : (machine A).Admissible NoAttachOnUpload (initial datagrams channelBinding Manager.empty) is) :
    let w := (machine A).run (initial datagrams channelBinding Manager.empty) is
    w.conn.Exclusive ∧
      ∀ channel e env m, w.pending = none → e.message = some m → m.opensRole = true → w.sweep.conn.Bound channel →
        (m.isAttach = true → w.sweep.conn.uploads.lookup channel = none) →
        w.sweep.conn.SameBindings ((machine A).next w (.message channel e env)).conn ∧
        ∃ requestId code text,
          ((machine A).out w (.message channel e env)).replies = [(channel, errorEnvelope requestId code text false)] := by
  have hinv := Machine.run_induction (P := fun w : World V => w.manager.Keyed ∧ w.conn.Exclusive) (machine A)
    (fun w i h hno => ⟨step_keyed h.1 i, exclusive_step h.1 h.2 hno⟩)
    ⟨Manager.keyed_empty, Conn.exclusive_new _ _⟩ hok
  intro w
  refine ⟨hinv.2, ?_⟩
  intro channel e env m hp hm ho hb hno
  have hr : Refused w.sweep channel (w.sweep.dispatchSwept A channel e env) :=
    dispatchSwept_refused hm ho (exclusive_sweep hinv.2) hb hno
  show w.sweep.conn.SameBindings (w.step A (.message channel e env)).1.conn ∧
    ∃ requestId code text, (w.step A (.message channel e env)).2.replies = _
  rw [step_message hp]
  exact ⟨hr.same, hr.reply⟩

/-- An upload on channel 1, an attachment on channel 3, and an upload refused there. -/
theorem channel_roles_exclusive_sample :
    let is := sampleStart none ++
      [sampleMessage 1 (.beginUpload abc) 0, sampleMessage 3 (.attachShell (List.replicate 32 1) 80 24) 2]
    let w := (machine (App.sample .dev)).run .sample is
    w.conn.Exclusive ∧ (w.conn.uploads.lookup 1).isSome = true ∧
      w.sweep.conn.SameBindings ((machine (App.sample .dev)).next w (sampleMessage 3 (.beginUpload abc) 0)).conn := by
  intro is w
  obtain ⟨hex, hrefused⟩ := channel_roles_exclusive (App.sample .dev) false [] is (by decide)
  refine ⟨hex, by decide, ?_⟩
  exact (hrefused 3 (sampleEnvelope (.beginUpload abc)) (.sample 0) (.beginUpload abc) (by decide) rfl rfl
    (.inl (by decide)) nofun).1

/-- An `AttachShell` on the channel of a live upload is accepted: the channel has two roles. -/
theorem attach_shares_an_upload_channel :
    let w := (machine (App.sample .dev)).run .sample (sampleStart none ++
      [sampleMessage 1 (.beginUpload abc) 0, sampleMessage 1 (.attachShell (List.replicate 32 1) 80 24) 2])
    (w.conn.attachments.lookup 1).isSome = true ∧ w.conn.uploads.lookup 1 = some ⟨abcId.toWire, 0⟩ ∧
      w.actorRunning 0 = true := by
  decide

end World

end Holdfast.Daemon

/-
  Holdfast.Daemon.Isolation — a connection acts on its user's shells only.

  Ownership is checked when a channel is bound to a shell, by an attach or an upload; input,
  size, history, chunks and detaches then trust the binding. A shell keeps its owner, but a
  connection may log in again as somebody else and keeps its bindings
  (`second_login_keeps_attachment`).

  Proved:
  - `isolated_step`: as long as a login that changes the user finds no attachment and no
    live upload, every binding is to a shell of the user, and so is what each call acts on.
  - `owner_isolation`: that, over runs.
-/

import Holdfast.Base.Slots
import Holdfast.Daemon.Dispatch

namespace Holdfast.Daemon

open Holdfast.Base Holdfast.Protocol Holdfast.Session Holdfast.Upload

/-- The shells a call acts on; a refused call acts on none. -/
def Call.shells : Call → List ShellId
  | .listShells shown => shown
  | .openShell opened => opened.toList
  | .terminate id => [id]
  | .attach id ok => if ok then [id] else []
  | .detach id => [id]
  | .writeInput id => [id]
  | .resize id => [id]
  | .history id => [id]
  | .uploadBegin id _ => [id]
  | .uploadCommand id => [id]
  | _ => []

namespace World

variable {V : Type} (A : App V)

/-- A login that changes the user finds no attachment and no live upload. -/
def KeepsUser (w : World V) : Input → Prop
  | .message _ e env => ∀ method ∈ e.authentication,
    (w.conn.identity.handleAuthenticate A.auth w.conn.channelBinding method env.auth).1.userId =
        w.conn.identity.userId ∨
      w.conn.attachments.keys = [] ∧ w.sweep.conn.uploads.keys = []
  | _ => True

instance (w : World V) (i : Input) : Decidable (w.KeepsUser A i) :=
  match i with
  | .message _ e env => inferInstanceAs (Decidable (∀ method ∈ e.authentication,
      (w.conn.identity.handleAuthenticate A.auth w.conn.channelBinding method env.auth).1.userId =
          w.conn.identity.userId ∨
        w.conn.attachments.keys = [] ∧ w.sweep.conn.uploads.keys = []))
  | .resume _ => .isTrue trivial
  | .channelClosed _ => .isTrue trivial
  | .gone => .isTrue trivial
  | .upload _ _ => .isTrue trivial
  | .forwardEnds _ => .isTrue trivial
  | .manager _ => .isTrue trivial

/-- Every binding is to a shell of the user. -/
structure Isolated (w : World V) : Prop where
  idem : w.manager.IdemInv
  attachments : ∀ channel b, w.conn.attachments.lookup channel = some b → w.Owned b.shellId
  uploads : ∀ channel b, w.conn.uploads.lookup channel = some b →
    ∃ a, w.actors[b.actor]? = some a ∧ w.Owned a.shellId
  terminating : ∀ id requestId wireId, w.pending = some (.terminating id requestId wireId) → w.Owned id

variable {A} {w w' : World V} {channel : Nat} {e : Envelope} {env : DispatchEnv}

theorem isolated_initial (datagrams : Bool) (channelBinding : List UInt8) :
    Isolated (initial datagrams channelBinding (Manager.empty : Manager V)) :=
  ⟨Manager.idemInv_empty, nofun, nofun, nofun⟩

/-- A shell keeps its owner. -/
theorem owner_keeps {fresh : Prop} (hop : Operates A w w' fresh) (hf : fresh) (hk : w.manager.Keyed) {id : ShellId}
    {user : String} (h : ∃ e, w.manager.find id = some e ∧ e.owner = user) :
    ∃ e, w'.manager.find id = some e ∧ e.owner = user := by
  refine (hop.keeps (P := fun m => m.Keyed ∧ ∃ e, m.find id = some e ∧ e.owner = user) hf ?_ ⟨hk, h⟩).2
  intro m op hm hfresh
  obtain ⟨hkm, entry, he, ho⟩ := hm
  refine ⟨Manager.keyed_step A.server hkm op, ?_⟩
  cases Manager.find_step A.server hkm hfresh id with
  | kept hkept _ => exact ⟨entry, hkept.trans he, ho⟩
  | changed e₀ e' h₀ hs h' =>
    rw [he] at h₀
    cases h₀
    exact ⟨e', h', hs.owner_eq.trans ho⟩
  | created _ _ _ _ hnone _ _ _ =>
    rw [he] at hnone
    cases hnone

/-- What a step has to show: owned shells stay owned, and a new binding is to one. -/
theorem Isolated.move (h : Isolated w) (hidem : w'.manager.IdemInv) (howned : ∀ id, w.Owned id → w'.Owned id)
    (ha : ∀ channel b, w'.conn.attachments.lookup channel = some b →
      w.conn.attachments.lookup channel = some b ∨ w'.Owned b.shellId)
    (hactors : Keeps UploadActor.shellId w.actors w'.actors)
    (hu : ∀ channel b, w'.conn.uploads.lookup channel = some b →
      w.conn.uploads.lookup channel = some b ∨ ∃ a, w'.actors[b.actor]? = some a ∧ w'.Owned a.shellId)
    (hp : ∀ id requestId wireId, w'.pending = some (.terminating id requestId wireId) →
      w.pending = some (.terminating id requestId wireId) ∨ w'.Owned id) : Isolated w' := by
  refine ⟨hidem, ?_, ?_, ?_⟩
  · intro channel b hb
    rcases ha channel b hb with hb | ho
    · exact howned _ (h.attachments channel b hb)
    · exact ho
  · intro channel b hb
    rcases hu channel b hb with hb | ho
    · obtain ⟨a, haw, ho⟩ := h.uploads channel b hb
      obtain ⟨a', ha', hid⟩ := hactors b.actor a haw
      exact ⟨a', ha', hid ▸ howned _ ho⟩
    · exact ho
  · intro id requestId wireId hpend
    rcases hp id requestId wireId hpend with hpend | ho
    · exact howned _ (h.terminating id requestId wireId hpend)
    · exact ho

/-- Bindings that were there already. -/
theorem old {K T : Type} [DecidableEq K] {t' t : Table K T} (h : Table.Within t' t) {P : K → T → Prop} :
    ∀ k v, t'.lookup k = some v → t.lookup k = some v ∨ P k v := fun k v hv => .inl (h k v hv)

theorem isolated_sweep (h : Isolated w) : Isolated w.sweep :=
  h.move h.idem (fun _ ho => ho) (old (Table.within_refl _)) (.refl _ _) (old (Table.within_retain _ _))
    fun _ _ _ hp => .inl hp

/-- A change that is no login keeps the user. -/
theorem Change.userId (h : Change A w channel e env w') :
    w'.conn.identity.userId = w.conn.identity.userId ∨
      ∃ method, e.message = some (.authenticate method) ∧
        w' = { w with conn := { w.conn with
          identity := (w.conn.identity.handleAuthenticate A.auth w.conn.channelBinding method env.auth).1 } } := by
  cases h with
  | identity method hm => exact .inr ⟨method, hm, rfl⟩
  | _ => exact .inl rfl

theorem Change.isolated (hch : Change A w channel e env w') (h : Isolated w) (hpend : w.pending = none)
    (hfresh : e.opensShell = true → w.manager.find env.openShell.shellId = none)
    (hkeep : ∀ method, e.message = some (.authenticate method) →
      (w.conn.identity.handleAuthenticate A.auth w.conn.channelBinding method env.auth).1.userId =
          w.conn.identity.userId ∨ w.conn.attachments.keys = [] ∧ w.conn.uploads.keys = []) : Isolated w' := by
  have hidem : w'.manager.IdemInv :=
    hch.operates.keeps hfresh (fun m op hm hf => Manager.idemInv_step A.server hm hf) h.idem
  rcases hch.userId with huser | ⟨method, hm, rfl⟩
  · have howned : ∀ id, w.Owned id → w'.Owned id := by
      intro id ho
      have := owner_keeps hch.operates hfresh h.idem.keyed ho
      rw [← huser] at this
      exact this
    cases hch with
    | attached id token cols rows attachmentId _ _ _ hm hc hla hlf hp ho =>
      refine h.move hidem howned ?_ (.refl _ _) (old (Table.within_refl _)) fun _ _ _ hp => .inl hp
      intro k b hb
      rcases Table.lookup_insert_some.mp hb with ⟨_, rfl⟩ | ⟨_, hb⟩
      · exact .inr (howned id ho)
      · exact .inl hb
    | detached b hb =>
      exact h.move hidem howned (old (Table.within_erase _ _)) (.refl _ _) (old (Table.within_refl _))
        fun _ _ _ hp => .inl hp
    | begun id writer d metadata hm hc hu hroom hp ho hw =>
      refine h.move hidem howned (old (Table.within_refl _)) (.concat _ _) ?_ fun _ _ _ hp => .inl hp
      intro k b hb
      rcases Table.lookup_insert_some.mp hb with ⟨_, rfl⟩ | ⟨_, hb⟩
      · exact .inr ⟨_, List.getElem?_concat_length, howned id ho⟩
      · exact .inl hb
    | sendingLast b command hb =>
      exact h.move hidem howned (old (Table.within_refl _)) (.refl _ _) (old (Table.within_erase _ _)) nofun
    | unbound b hb =>
      exact h.move hidem howned (old (Table.within_refl _)) (.refl _ _) (old (Table.within_erase _ _))
        fun _ _ _ hp => .inl hp
    | terminating id _ ho =>
      refine h.move hidem howned (old (Table.within_refl _)) (.refl _ _) (old (Table.within_refl _)) ?_
      intro id' requestId wireId hp
      cases hp
      exact .inr (howned id ho)
    | sending b c hm hb =>
      exact h.move hidem howned (old (Table.within_refl _)) (.refl _ _) (old (Table.within_refl _)) nofun
    | _ =>
      exact h.move hidem howned (old (Table.within_refl _)) (.refl _ _) (old (Table.within_refl _))
        fun _ _ _ hp => .inl hp
  · rcases hkeep method hm with hsame | ⟨ha, hu⟩
    · have howned : ∀ id, w.Owned id → Owned { w with conn := { w.conn with
          identity := (w.conn.identity.handleAuthenticate A.auth w.conn.channelBinding method env.auth).1 } } id := by
        rintro id ⟨entry, he, ho⟩
        exact ⟨entry, he, ho.trans hsame.symm⟩
      exact h.move h.idem howned (old (Table.within_refl _)) (.refl _ _) (old (Table.within_refl _))
        fun _ _ _ hp => .inl hp
    · -- a new user, with nothing bound
      refine ⟨h.idem, ?_, ?_, ?_⟩
      · intro k b hb
        rw [Table.lookup_of_keys_nil ha] at hb
        cases hb
      · intro k b hb
        rw [Table.lookup_of_keys_nil hu] at hb
        cases hb
      · intro id requestId wireId hp
        rw [show w.pending = some (.terminating id requestId wireId) from hp] at hpend
        cases hpend

/-! ## What a step acts on -/

/-- The shell belongs to `user` in `m`. -/
def OwnedBy (m : Manager V) (user : String) (id : ShellId) : Prop := ∃ e, m.find id = some e ∧ e.owner = user

/-- A justified call acts on shells of the user. -/
theorem Justified.owned {m : Manager V} {c : Call} (hj : w.Justified m channel c) (h : Isolated w)
    (hkeep : ∀ id, w.Owned id → OwnedBy m w.conn.identity.userId id) :
    ∀ id ∈ c.shells, OwnedBy m w.conn.identity.userId id := by
  have hattached : ∀ id', w.Attached channel id' → ∀ id ∈ [id'], OwnedBy m w.conn.identity.userId id := by
    rintro id' ⟨b, hb, rfl⟩ id hid
    cases List.mem_singleton.mp hid
    exact hkeep _ (h.attachments channel b hb)
  have howned : ∀ id', w.Owned id' → ∀ id ∈ [id'], OwnedBy m w.conn.identity.userId id := by
    intro id' ho id hid
    cases List.mem_singleton.mp hid
    exact hkeep _ ho
  cases c with
  | listShells shown => exact fun id hid => hkeep id (hj.2 id hid)
  | openShell opened =>
    intro id hid
    exact hj.2 id (Option.mem_toList.mp hid) h.idem
  | terminate id' => exact howned id' hj.2
  | attach id' ok =>
    cases ok with
    | false => exact nofun
    | true => exact howned id' (hj.2 rfl)
  | detach id' => exact hattached id' hj
  | writeInput id' => exact hattached id' hj
  | resize id' => exact hattached id' hj
  | history id' => exact hattached id' hj
  | uploadBegin id' ok => exact howned id' hj.2
  | uploadCommand id' =>
    obtain ⟨b, a, hb, ha, rfl⟩ := hj
    obtain ⟨a', ha', ho⟩ := h.uploads channel b hb
    rw [ha] at ha'
    cases ha'
    exact howned _ ho
  | _ => exact nofun

/-- Isolation, and what the step acted on. -/
def ActsOnOwn (w : World V) (s : Step V) : Prop :=
  Isolated s.1 ∧ ∀ c ∈ s.2.calls, ∀ id ∈ c.shells, OwnedBy s.1.manager w.conn.identity.userId id

theorem dispatch_isolated (h : Isolated w) (hpend : w.pending = none)
    (hfresh : FreshDraw A w (.message channel e env)) (hkeep : KeepsUser A w (.message channel e env)) :
    ActsOnOwn w (w.dispatch A channel e env) := by
  have hs := isolated_sweep h
  obtain ⟨hch, hcalls⟩ := dispatchSwept_outcome (A := A) (w := w.sweep) h.idem.keyed channel e env
  refine ⟨hch.isolated hs hpend hfresh fun method hm => hkeep method ?_, ?_⟩
  · rw [Envelope.authentication, hm]
    rfl
  intro c hc
  exact (hcalls c hc).owned hs fun id ho => owner_keeps hch.operates hfresh h.idem.keyed ho

/-- A step that acts on the manager by operations of its own and binds nothing. -/
theorem Isolated.operated {fresh : Prop} (h : Isolated w) (hop : Operates A w w' fresh) (hf : fresh)
    (hi : w'.conn.identity = w.conn.identity) (ha : Table.Within w'.conn.attachments w.conn.attachments)
    (hu : Table.Within w'.conn.uploads w.conn.uploads)
    (hactors : Keeps UploadActor.shellId w.actors w'.actors)
    (hp : ∀ id requestId wireId, w'.pending = some (.terminating id requestId wireId) →
      w.pending = some (.terminating id requestId wireId)) : Isolated w' := by
  have hidem := hop.keeps hf (fun m op hm hf => Manager.idemInv_step A.server hm hf) h.idem
  refine h.move hidem ?_ (old ha) hactors (old hu) fun id requestId wireId hpend => .inl (hp id requestId wireId hpend)
  intro id ho
  have hk := owner_keeps hop hf h.idem.keyed ho
  rw [← hi] at hk
  exact hk

theorem resume_isolated (h : Isolated w) (env : DispatchEnv) : ActsOnOwn w (w.resume A env) := by
  have hop : Operates A w (w.resume A env).1 True := step_operates h.idem.keyed (.resume env)
  cases (resume_cases env : Resumed A w (w.resume A env)) with
  | waits hs =>
    rw [hs]
    exact ⟨h, nofun⟩
  | terminated id requestId wireId hp h1 h2 =>
    refine ⟨?_, ?_⟩
    · rw [h1] at hop ⊢
      exact h.operated hop trivial rfl (Table.within_refl _) (Table.within_refl _) (.refl _ _) nofun
    · rw [h2]
      intro c hc id' hid
      cases List.mem_singleton.mp hc
      cases List.mem_singleton.mp hid
      exact owner_keeps hop trivial h.idem.keyed (h.terminating id requestId wireId hp)
  | failed a command hp ha hs =>
    rw [hs] at hop ⊢
    exact ⟨h.operated hop trivial rfl (Table.within_refl _) (Table.within_refl _) (.refl _ _) nofun, nofun⟩
  | sent a command x hp ha hx hroom hs =>
    rw [hs] at hop ⊢
    refine ⟨h.operated hop trivial rfl (Table.within_refl _) (Table.within_refl _) ?_ nofun, nofun⟩
    exact .set hx rfl

theorem detach_isolated (h : Isolated w) (channel : Nat) :
    Isolated (w.detach A channel).1 ∧
      ∀ c ∈ (w.detach A channel).2, ∀ id ∈ c.shells, OwnedBy (w.detach A channel).1.manager w.conn.identity.userId id := by
  have hop := detach_operates (A := A) w channel True
  unfold detach at hop ⊢
  split at hop
  · exact ⟨h, nofun⟩
  · rename_i b hb
    simp only at hop ⊢
    refine ⟨h.operated hop trivial rfl (Table.within_erase _ _) (Table.within_refl _) (.refl _ _)
      fun _ _ _ hp => hp, ?_⟩
    intro c hc id hid
    cases List.mem_singleton.mp hc
    cases List.mem_singleton.mp hid
    exact owner_keeps hop trivial h.idem.keyed (h.attachments channel b hb)

theorem channelClosed_isolated (h : Isolated w) (channel : Nat) : ActsOnOwn w (w.channelClosed A channel) := by
  have hclosed : Isolated { w with
      conn := { w.conn with uploads := w.conn.uploads.erase channel, forwards := w.conn.forwards.erase channel }
      tasks := ((w.conn.forwards.lookup channel).map (abortTask w.tasks)).getD w.tasks } :=
    h.move h.idem (fun _ ho => ho) (old (Table.within_refl _)) (.refl _ _) (old (Table.within_erase _ _))
      fun _ _ _ hp => .inl hp
  exact detach_isolated hclosed channel

theorem detachAll_isolated (h : Isolated w) : ActsOnOwn w (w.detachAll A) := by
  have hop := detachAll_operates (A := A) w True
  refine ⟨h.operated hop trivial rfl (Table.within_empty _) (Table.within_empty _) (.refl _ _) fun _ _ _ hp => hp, ?_⟩
  intro c hc id hid
  obtain ⟨b, hb, rfl⟩ := List.mem_map.mp hc
  cases List.mem_singleton.mp hid
  obtain ⟨x, hx, rfl⟩ := List.mem_map.mp hb
  exact owner_keeps hop trivial h.idem.keyed (h.attachments x.1 x.2 (Table.mem_entries_iff.mp hx))

theorem isolated_step (h : Isolated w) {i : Input} (hfresh : FreshDraw A w i) (hkeep : KeepsUser A w i) :
    ActsOnOwn w (w.step A i) := by
  have hstay : ActsOnOwn w (w, .none) := ⟨h, List.forall_mem_nil _⟩
  cases i with
  | message channel e env =>
    cases hp : w.pending with
    | some p =>
      rw [step_waiting hp]
      exact hstay
    | none =>
      rw [step_message hp]
      exact dispatch_isolated h hp hfresh hkeep
  | resume env => exact resume_isolated h env
  | channelClosed channel =>
    by_cases hp : w.pending.isSome = true
    · simp only [step, if_pos hp]
      exact hstay
    · simp only [step, if_neg hp]
      exact channelClosed_isolated h channel
  | gone =>
    by_cases hp : w.pending.isSome = true
    · simp only [step, if_pos hp]
      exact hstay
    · simp only [step, if_neg hp]
      exact detachAll_isolated h
  | upload a input =>
    cases hx : w.actors[a]? with
    | none =>
      simp only [step, hx]
      exact hstay
    | some x =>
      simp only [step, hx]
      refine ⟨?_, List.forall_mem_nil _⟩
      exact h.move h.idem (fun _ ho => ho) (old (Table.within_refl _))
        (.set hx (actorStep_same x (w.hasSender a) input).2) (old (Table.within_refl _))
        fun _ _ _ hp => .inl hp
  | forwardEnds t =>
    refine ⟨?_, List.forall_mem_nil _⟩
    exact h.move h.idem (fun _ ho => ho) (old (Table.within_refl _)) (.refl _ _) (old (Table.within_refl _))
      fun _ _ _ hp => .inl hp
  | manager op =>
    refine ⟨?_, List.forall_mem_nil _⟩
    exact h.operated (step_operates h.idem.keyed (.manager op)) hfresh rfl (Table.within_refl _)
      (Table.within_refl _) (.refl _ _) fun _ _ _ hp => hp

/-! ## Over runs -/

/-- In every run in which a login that changes the user finds no attachment and no live
    upload, everything a step acts on is a shell that belongs to the user the connection is
    logged in as when it acts. -/
theorem owner_isolation (A : App V) (datagrams : Bool) (channelBinding : List UInt8) (is : List Input) (i : Input)
    (hok : (machine A).Admissible (fun w i => FreshDraw A w i ∧ KeepsUser A w i)
      (initial datagrams channelBinding Manager.empty) (is ++ [i])) :
    let w := (machine A).run (initial datagrams channelBinding Manager.empty) is
    ∀ c ∈ ((machine A).out w i).calls, ∀ id ∈ c.shells,
      ∃ e, ((machine A).next w i).manager.find id = some e ∧ e.owner = w.conn.identity.userId := by
  obtain ⟨hbefore, hfresh, hkeep⟩ := (Machine.admissible_snoc (machine A)).mp hok
  have hinv := Machine.run_induction (P := Isolated) (machine A) (fun w i h hok => (isolated_step h hok.1 hok.2).1)
    (isolated_initial datagrams channelBinding) hbefore
  exact (isolated_step hinv hfresh hkeep).2

end World

/-! ## Two users -/

/-- Password login for two users. -/
def AuthState.passwords : AuthState := { AuthState.dev with
  mode := .sshKeys fun _ => none
  password := some ["alice", "bob"] }

namespace World

/-- One user logs in, attaches and types. -/
theorem owner_isolation_sample :
    let is := sampleStart (some (.passwordRequest "alice" "secret")) ++
      [sampleMessage 1 (.attachShell (List.replicate 32 1) 80 24) 2]
    (((machine (App.sample .passwords)).out ((machine (App.sample .passwords)).run .sample is)
        (sampleMessage 1 (.terminalInput [108, 115]) 0)).calls = [.writeInput sampleShell]) ∧
      ∃ e, ((machine (App.sample .passwords)).next ((machine (App.sample .passwords)).run .sample is)
        (sampleMessage 1 (.terminalInput [108, 115]) 0)).manager.find sampleShell = some e ∧ e.owner = "alice" := by
  intro is
  have hcalls : ((machine (App.sample .passwords)).out ((machine (App.sample .passwords)).run .sample is)
      (sampleMessage 1 (.terminalInput [108, 115]) 0)).calls = [.writeInput sampleShell] := by decide
  refine ⟨hcalls, ?_⟩
  refine owner_isolation (App.sample .passwords) false [] is (sampleMessage 1 (.terminalInput [108, 115]) 0)
    (by decide) (.writeInput sampleShell) ?_ sampleShell List.mem_cons_self
  rw [show World.initial false [] Manager.empty = World.sample from rfl, hcalls]
  exact List.mem_cons_self

/-- A second login as another user keeps the attachment: its input goes to the first
    user's shell. -/
theorem second_login_keeps_attachment :
    let w := (machine (App.sample .passwords)).run .sample
      (sampleStart (some (.passwordRequest "alice" "secret")) ++
        [sampleMessage 1 (.attachShell (List.replicate 32 1) 80 24) 2,
          sampleMessage 0 (.authenticate (some (.passwordRequest "bob" "secret"))) 0])
    let typed := sampleMessage 1 (.terminalInput [108, 115]) 0
    w.conn.identity.userId = "bob" ∧ ((machine (App.sample .passwords)).out w typed).calls = [.writeInput sampleShell] ∧
      ((((machine (App.sample .passwords)).next w typed).manager.find sampleShell).map fun e =>
        (e.owner, e.runtime.pty.map (·.input))) = some ("alice", some [108, 115]) := by
  decide

end World

end Holdfast.Daemon

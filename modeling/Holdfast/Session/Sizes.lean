/-
  Holdfast.Session.Sizes — the PTY's window and the terminal model never disagree on
  their size.

  Clients send any `u16` dimensions. `open_shell`, `attach` and `resize` each read 0 and
  clamp in their own way before they ask the PTY, and the model clamps once more; the
  model is resized only after the PTY took the new size. While a shell has a PTY both
  have one size (`SizeInv`); once it has exited the model keeps the last size the PTY
  had (`lastPtySize`), since nothing resizes a model without a PTY.

  Proved:
  - `sizeInv_step`: one step keeps `SizeInv`, and a step after which the PTY is gone
    leaves the model's size alone.
  - `lastPtySize_run`: over every run the model's size is the last one applied to the PTY.
  - `resize_failed`: a step whose PTY resize fails changes no size, revision, history or
    token.
-/

import Holdfast.Session.Capacity

namespace Holdfast.Session

open Holdfast.Base Holdfast.Terminal

variable {V : Type} (S : Server V)

namespace Runtime

structure SizeInv (rt : Runtime V) : Prop where
  agree : ∀ pty, rt.pty = some pty → rt.model.size = (pty.cols, pty.rows)
  floor : minCols ≤ rt.model.size.1 ∧ minRows ≤ rt.model.size.2

theorem clampDims_floor (cols rows : UInt16) :
    minCols ≤ (clampDims cols rows).1 ∧ minRows ≤ (clampDims cols rows).2 := by
  have h : ∀ a b : UInt16, b ≤ max a b := by
    intro a b
    simp only [max]
    grind
  exact ⟨h _ _, h _ _⟩

/-- Both resized to clamped dimensions. -/
theorem resizeBoth_sizes (rt : Runtime V) (pty : PtyProcess) (cols rows : UInt16) :
    SizeInv (resizeBoth S rt pty (clampDims cols rows).1 (clampDims cols rows).2) := by
  have hsize : (resizeBoth S rt pty (clampDims cols rows).1 (clampDims cols rows).2).model.size = clampDims cols rows := by
    simp only [resizeBoth, TerminalModel.resize_size, clampDims_clamped]
  constructor
  · intro p hp
    cases hp
    rw [hsize]
  · rw [hsize]
    exact clampDims_floor cols rows

theorem attachResize_sizes {rt rt' : Runtime V} {cols rows : UInt16} {outcome : Except PtyError Unit}
    (h : SizeInv rt) (hp : rt.pty.isSome = true) (hr : rt.attachResize S cols rows outcome = .ok rt') : SizeInv rt' := by
  unfold attachResize at hr
  split at hr
  · simp only at hr
    split at hr
    · cases hpty : rt.pty with
      | none => rw [hpty] at hp; cases hp
      | some pty =>
        rw [hpty] at hr
        cases outcome with
        | error e => cases hr
        | ok u => cases hr; exact resizeBoth_sizes S rt pty cols rows
    · cases hr; exact h
  · cases hr; exact h

theorem resize_sizes {rt : Runtime V} (h : SizeInv rt) (cols rows : UInt16) (outcome : Except PtyError Unit) :
    SizeInv (rt.resize S cols rows outcome).1 := by
  unfold resize
  simp only
  split
  · split
    · exact resizeBoth_sizes S rt _ cols rows
    · exact h
  · exact h

theorem writeInput_sizes {rt : Runtime V} (h : SizeInv rt) (data : List UInt8) (env : WriteEnv) :
    SizeInv (rt.writeInput data env).1 := by
  unfold writeInput
  split
  · rename_i pty hp
    have hagree : ∀ input, SizeInv { rt with pty := some { pty with input := input } } := by
      intro input
      refine ⟨?_, h.floor⟩
      intro p hp'
      cases hp'
      exact h.agree pty hp
    split
    · exact hagree _
    · exact hagree _
  · exact h

/-- An attach asks the PTY for nothing: 0 dimensions, or the size it has. -/
def KeepsSize (rt : Runtime V) (cols rows : UInt16) : Prop :=
  cols = 0 ∨ rows = 0 ∨ rt.model.size = clampDims cols rows

/-- With a PTY that refuses, an attach gets through only where it does not ask it. -/
theorem attachResize_refused {rt rt' : Runtime V} {cols rows : UInt16} {e : PtyError} (hp : rt.pty.isSome = true)
    (hr : rt.attachResize S cols rows (.error e) = .ok rt') : rt' = rt ∧ KeepsSize rt cols rows := by
  unfold attachResize at hr
  split at hr
  · simp only at hr
    split at hr
    · cases hpty : rt.pty with
      | none => rw [hpty] at hp; cases hp
      | some pty => rw [hpty] at hr; cases hr
    · rename_i hs
      cases hr
      exact ⟨rfl, .inr (.inr (not_not.mp hs))⟩
  · rename_i h0
    cases hr
    refine ⟨rfl, ?_⟩
    rcases Decidable.not_and_iff_not_or_not.mp h0 with hc | hc
    · exact .inl (not_not.mp hc)
    · exact .inr (.inl (not_not.mp hc))

end Runtime

/-! ## One shell -/

variable {S}

theorem ShellInv.pty_of_running {e : ShellEntry V} (h : ShellInv S e) (hs : e.runtime.state = .running) :
    e.runtime.pty.isSome = true := by
  apply h.pty
  cases hp : e.pumping with
  | true => rfl
  | false =>
    have := h.exited.mpr (h.pumping.mp hp)
    rw [hs] at this
    cases this

theorem Runtime.Attaches.sizes {id : ShellId} {e : ShellEntry V} {cols rows : UInt16} {env : Runtime.AttachEnv}
    {rt' : Runtime V} {a : Attachment} (ha : Runtime.Attaches S id e.runtime cols rows env rt' a) (hi : ShellInv S e)
    (h : Runtime.SizeInv e.runtime) : Runtime.SizeInv rt' ∧ (rt'.pty = none → rt'.model.size = e.runtime.model.size) := by
  have hpty := hi.pty_of_running ha.running
  obtain ⟨rt₁, hr, rfl⟩ := ha.result
  have h₁ := Runtime.attachResize_sizes S h hpty hr
  refine ⟨⟨h₁.agree, h₁.floor⟩, ?_⟩
  intro hn
  have hsome := (Runtime.attachResize_same S hr).pty
  rw [hpty, show rt₁.pty = none from hn] at hsome
  cases hsome

/-- Sizes still agree, and a shell without a PTY is as large as it was. -/
theorem EntryStep.sizes {id : ShellId} {e e' : ShellEntry V} {op : Op} {res : Res} (hs : EntryStep S id e op res e')
    (hi : ShellInv S e) (h : Runtime.SizeInv e.runtime) :
    Runtime.SizeInv e'.runtime ∧ (e'.runtime.pty = none → e'.runtime.model.size = e.runtime.model.size) := by
  cases hs with
  | reopen req env => exact ⟨⟨h.agree, h.floor⟩, fun _ => rfl⟩
  | attach token cols rows env rt' a _ ha => exact ha.sizes hi h
  | attachAuthorized cols rows env rt' a ha => exact ha.sizes hi h
  | detach i => exact ⟨⟨h.agree, h.floor⟩, fun _ => rfl⟩
  | writeInput data env =>
    refine ⟨Runtime.writeInput_sizes h data env, ?_⟩
    intro _
    obtain ⟨pty, _, hw⟩ := e.runtime.writeInput_fst data env
    rw [hw]
  | resize cols rows outcome _ =>
    refine ⟨Runtime.resize_sizes S h cols rows outcome, ?_⟩
    intro hn
    -- the PTY is gone only if there was none, and then nothing was resized
    simp only [Runtime.resize] at hn ⊢
    cases hp : e.runtime.pty with
    | none => simp only
    | some pty =>
      rw [hp] at hn
      cases outcome with
      | ok u => cases hn
      | error err => rfl
  | terminate kill =>
    rcases e.runtime.terminate_fst kill with ⟨_, _, hw⟩ | ⟨_, hw⟩
    · rw [hw]; exact ⟨h, fun _ => rfl⟩
    · rw [hw]; exact ⟨⟨h.agree, h.floor⟩, fun _ => rfl⟩
  | terminateWake =>
    rcases e.runtime.terminateWake_fst with ⟨_, hw⟩ | ⟨_, _, hw⟩
    · rw [hw]; exact ⟨h, fun _ => rfl⟩
    · rw [hw]; exact ⟨⟨h.agree, h.floor⟩, fun _ => rfl⟩
  | pumpChunk chunk _ =>
    have hsize : (e.runtime.pumpChunk S chunk).model.size = e.runtime.model.size := TerminalModel.feed_size _ _ _
    refine ⟨⟨?_, ?_⟩, fun _ => hsize⟩
    · intro pty hp
      rw [hsize]
      exact h.agree pty hp
    · rw [hsize]
      exact h.floor
  | pumpEof wait _ => exact ⟨⟨nofun, h.floor⟩, fun _ => rfl⟩
  | recv i => exact ⟨⟨h.agree, h.floor⟩, fun _ => rfl⟩
  | dropReceiver i => exact ⟨⟨h.agree, h.floor⟩, fun _ => rfl⟩

/-- A shell starts with both at the requested size, clamped, or at 80 by 24. -/
theorem newRuntime_sizes (req : OpenShellRequest) (env : OpenEnv) : Runtime.SizeInv (Manager.newRuntime S req env) := by
  have hsize : (Manager.newRuntime S req env).model.size =
      clampDims (if req.cols = 0 then 80 else req.cols) (if req.rows = 0 then 24 else req.rows) := by
    simp only [Manager.newRuntime, TerminalModel.new_size, clampDims_clamped]
  constructor
  · intro pty hp
    cases hp
    exact hsize
  · rw [hsize]
    exact Runtime.clampDims_floor _ _

/-- The shell, the dimensions and the outcome of the PTY resize an input may ask for. -/
def Op.ptyResize : Op → Option (ShellId × UInt16 × UInt16 × Except PtyError Unit)
  | .attach _ id _ cols rows env => some (id, cols, rows, env.resize)
  | .attachAuthorized _ id cols rows env => some (id, cols, rows, env.resize)
  | .resize id cols rows outcome => some (id, cols, rows, outcome)
  | _ => none

/-! ## Whole runs -/

namespace Manager

/-- The window size of the shell's PTY, while it has one. -/
def ptySize (m : Manager V) (id : ShellId) : Option (UInt16 × UInt16) :=
  (m.find id).bind fun e => e.runtime.pty.map fun pty => (pty.cols, pty.rows)

variable (S)

/-- The last size the shell's PTY had in a run: the last one that was applied to it. -/
def lastPtySize (m : Manager V) (id : ShellId) : List Op → Option (UInt16 × UInt16)
  | [] => m.ptySize id
  | op :: ops => (lastPtySize ((machine S).next m op) id ops).or (m.ptySize id)

theorem lastPtySize_snoc (m : Manager V) (id : ShellId) (ops : List Op) (op : Op) :
    lastPtySize S m id (ops ++ [op]) =
      (((machine S).run m (ops ++ [op])).ptySize id).or (lastPtySize S m id ops) := by
  induction ops generalizing m with
  | nil => rfl
  | cons o ops ih =>
    show (lastPtySize S ((machine S).next m o) id (ops ++ [op])).or (m.ptySize id) = _
    rw [ih, Option.or_assoc]
    rfl

variable {S}

theorem sizeInv_step {m : Manager V} (hc : CapacityInv S m) (h : ∀ id e, m.find id = some e → Runtime.SizeInv e.runtime)
    {op : Op} (hf : FreshId S m op) {id : ShellId} {e' : ShellEntry V} (he' : (m.step S op).1.find id = some e') :
    Runtime.SizeInv e'.runtime ∧
      (e'.runtime.pty = none → ∃ e, m.find id = some e ∧ e'.runtime.model.size = e.runtime.model.size) := by
  cases find_step S hc.keyed hf id with
  | kept hl _ =>
    rw [hl] at he'
    exact ⟨h id e' he', fun _ => ⟨e', he', rfl⟩⟩
  | changed e e'' hl hs h' =>
    rw [he'] at h'
    cases h'
    obtain ⟨hi, hn⟩ := hs.sizes (hc.shells id e hl) (h id e hl)
    exact ⟨hi, fun hp => ⟨e, hl, hn hp⟩⟩
  | created req env account _ _ _ _ h' =>
    rw [he'] at h'
    cases h'
    refine ⟨newRuntime_sizes req env, ?_⟩
    intro hp
    cases hp

theorem lastPtySize_run {ops : List Op} (hf : (machine S).Admissible (FreshId S) empty ops) {id : ShellId}
    {e : ShellEntry V} (he : ((machine S).run empty ops).find id = some e) :
    Runtime.SizeInv e.runtime ∧ lastPtySize S empty id ops = some e.runtime.model.size := by
  induction ops using List.reverseRecOn generalizing id e with
  | nil => cases he
  | append_singleton ops op ih =>
    obtain ⟨hops, hop⟩ := ((machine S).admissible_snoc).mp hf
    have hc := capacityInv_run (capacityInv_empty S) hops
    rw [Machine.run_snoc] at he
    obtain ⟨hi, hn⟩ := sizeInv_step hc (fun i e₀ he₀ => (ih hops he₀).1) hop he
    refine ⟨hi, ?_⟩
    rw [lastPtySize_snoc, Machine.run_snoc, ptySize, he]
    cases hp : e.runtime.pty with
    | some pty => simp [hp, hi.agree pty hp]
    | none =>
      obtain ⟨e₀, he₀, hsize⟩ := hn hp
      simp [hp, (ih hops he₀).2, hsize]

/-! ## A PTY that refuses -/

/-- With a failing PTY resize a step changes nothing, unless it is an attach that had no
    reason to ask: that one registers and leaves model and PTY as they were. -/
theorem resize_failed {m : Manager V} (hc : CapacityInv S m) {op : Op} {id : ShellId} {cols rows : UInt16}
    {pe : PtyError} (h : op.ptyResize = some (id, cols, rows, .error pe)) :
    (m.step S op).1 = m ∨
    ∃ e e' a, (m.step S op).2 = .attached a ∧ m.shells.lookup id = some e ∧ e.runtime.KeepsSize cols rows ∧
      (m.step S op).1 = { m with shells := m.shells.adjust id fun _ => e' } ∧
      e'.runtime.model = e.runtime.model ∧ e'.runtime.pty = e.runtime.pty := by
  have hattach : ∀ {i : ShellId} {e : ShellEntry V} {c r : UInt16} {env : Runtime.AttachEnv} {rt' : Runtime V}
      {a : Attachment}, m.shells.lookup i = some e → Runtime.Attaches S i e.runtime c r env rt' a →
      env.resize = .error pe →
      e.runtime.KeepsSize c r ∧ rt'.model = e.runtime.model ∧ rt'.pty = e.runtime.pty := by
    intro i e c r env rt' a hl ha he
    obtain ⟨rt₁, hr, rfl⟩ := ha.result
    rw [he] at hr
    have hpty := (hc.shells i e (find_of_lookup hl)).pty_of_running ha.running
    obtain ⟨rfl, hk⟩ := Runtime.attachResize_refused S hpty hr
    exact ⟨hk, rfl, rfl⟩
  have hself : ∀ {c r : UInt16} (e : ShellEntry V),
      { e with runtime := (e.runtime.resize S c r (.error pe)).1 } = e := by
    intro c r e
    unfold Runtime.resize
    simp only
    split <;> rfl
  cases step_cases S m op with
  | same h1 _ => exact .inl h1
  | entry i e e' hl hs h1 =>
    generalize (m.step S op).2 = res at hs
    cases hs with
    | attach token c r env rt' a _ ha =>
      simp only [Op.ptyResize, Option.some.injEq, Prod.mk.injEq] at h
      obtain ⟨rfl, rfl, rfl, he⟩ := h
      obtain ⟨hk, hm, hp⟩ := hattach hl ha he
      exact .inr ⟨e, _, a, rfl, hl, hk, h1, hm, hp⟩
    | attachAuthorized c r env rt' a ha =>
      simp only [Op.ptyResize, Option.some.injEq, Prod.mk.injEq] at h
      obtain ⟨rfl, rfl, rfl, he⟩ := h
      obtain ⟨hk, hm, hp⟩ := hattach hl ha he
      exact .inr ⟨e, _, a, rfl, hl, hk, h1, hm, hp⟩
    | resize c r outcome _ =>
      cases h
      rw [hself] at h1
      exact .inl (h1.trans (by rw [Table.adjust_eq_self fun v hv => by rw [hl] at hv; cases hv; rfl]))
    | _ => cases h
  | held i e e' hn hl hs hi h1 =>
    generalize (m.step S op).2 = res at hs hi
    cases hs with
    | attach token c r env rt' a _ ha => cases hi
    | attachAuthorized c r env rt' a ha => cases hi
    | resize c r outcome _ =>
      cases h
      rw [hself] at h1
      exact .inl (h1.trans (by rw [Table.adjust_eq_self fun v hv => by rw [hl] at hv; cases hv; rfl]))
    | _ => cases h
  | opens req env account hop _ _ _ => subst hop; cases h
  | removes i e hop _ _ _ _ => subst hop; cases h

end Manager

/-- In every reachable state a shell's model is as large as its PTY last was, at least 2
    by 1; and a step whose PTY resize fails changes nothing. -/
theorem sizes_never_diverge (S : Server V) (ops : List Op)
    (hf : (Manager.machine S).Admissible (Manager.FreshId S) Manager.empty ops) :
    ∃ m, (Manager.machine S).run Manager.empty ops = m ∧
      (∀ id e, m.find id = some e →
        Manager.lastPtySize S Manager.empty id ops = some e.runtime.model.size ∧
        (∀ pty, e.runtime.pty = some pty → e.runtime.model.size = (pty.cols, pty.rows)) ∧
        2 ≤ e.runtime.model.cols ∧ 1 ≤ e.runtime.model.rows) ∧
      ∀ op id cols rows pe, op.ptyResize = some (id, cols, rows, .error pe) →
        (m.step S op).1 = m ∨
        ∃ e e' a, (m.step S op).2 = .attached a ∧ m.shells.lookup id = some e ∧ e.runtime.KeepsSize cols rows ∧
          (m.step S op).1 = { m with shells := m.shells.adjust id fun _ => e' } ∧
          e'.runtime.model = e.runtime.model ∧ e'.runtime.pty = e.runtime.pty := by
  refine ⟨_, rfl, ?_, ?_⟩
  · intro id e he
    obtain ⟨hi, hlast⟩ := Manager.lastPtySize_run hf he
    exact ⟨hlast, hi.agree, hi.floor.1, hi.floor.2⟩
  · intro op id cols rows pe h
    exact Manager.resize_failed (Manager.capacityInv_run (Manager.capacityInv_empty S) hf) h

/-- Opened at 0 by 1, resized to 65535 by 0 (which asks for nothing) and to 1 by 65535. -/
def edgeSizes : List Op :=
  [.openShell ⟨"alice", none, none, [], 0, 1, Vector.replicate 16 9⟩ ⟨.ok (), .ok (), .repeated 1, sampleShell, 1000⟩,
    .resize sampleShell 65535 0 (.ok ()), .resize sampleShell 1 65535 (.ok ())]

/-- A refused resize at the end leaves the state alone. -/
theorem sizes_at_the_edges :
    ∃ m, (Manager.machine Server.sample).run Manager.empty edgeSizes = m ∧
      Manager.lastPtySize Server.sample Manager.empty sampleShell edgeSizes = some (2, 65535) ∧
      (m.step Server.sample (.resize sampleShell 3 3 (.error (.resize "EIO")))).1 = m := by
  obtain ⟨m, hm, _, hr⟩ := sizes_never_diverge Server.sample edgeSizes (by decide)
  refine ⟨m, hm, by decide, ?_⟩
  have hres : (m.step Server.sample (.resize sampleShell 3 3 (.error (.resize "EIO")))).2 = .err (.pty (.resize "EIO")) := by
    rw [← hm]
    decide
  rcases hr (.resize sampleShell 3 3 (.error (.resize "EIO"))) sampleShell 3 3 (.resize "EIO") rfl with h | ⟨_, _, a, h, _⟩
  · exact h
  · rw [hres] at h
    cases h

end Holdfast.Session

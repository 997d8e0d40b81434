/-
  Holdfast.Session.Steps — what one step of the shell manager can do, said once.

  `step_cases`: a step changes nothing; or changes one entry, of the map or retired, in
  one of the ways `EntryStep` lists; or inserts one new entry (`Opens`); or takes one
  exited entry out of the map. Every invariant of the manager is derived from it.

  `EntryStep` carries the input and the answer, so that a property of the trace can be
  read off it too; a step that changes no entry by an open or an attach issues no token
  (`Res.issued`).
-/

import Holdfast.Session.Manager

namespace Holdfast.Session

open Holdfast.Base Holdfast.Terminal

/-- The token an answer hands out, with its shell, and whether it starts a new shell. -/
def Res.issued : Res → Option (ShellId × ResumeToken × Bool)
  | .opened o => some (o.shellId, o.resumeToken, !o.reused)
  | .attached a => some (a.shellId, a.rotatedResumeToken, false)
  | _ => none

def Op.isOpen : Op → Bool
  | .openShell _ _ => true
  | _ => false

/-- The shell an input acted on, if it acted: the answer tells. -/
def acts : Op → Res → Option ShellId
  | _, .opened o => some o.shellId
  | _, .attached a => some a.shellId
  | .detach id _, .done => some id
  | .resize id cols rows _, .done => if cols = 0 ∨ rows = 0 then none else some id
  | .pumpChunk id _, .done => some id
  | .pumpEof id _, .done => some id
  | .recv id _, .event _ => some id
  | .dropReceiver id _, .done => some id
  | _, _ => none

@[simp] theorem acts_err (op : Op) (e : SessionError) : acts op (.err e) = none := by cases op <;> rfl
@[simp] theorem acts_idle (op : Op) : acts op .idle = none := by cases op <;> rfl

theorem acts_of_issued {op : Op} {res : Res} {i : ShellId} {t : ResumeToken} {fresh : Bool}
    (h : res.issued = some (i, t, fresh)) : acts op res = some i := by
  cases res <;> cases h <;> rfl

theorem issued_of_acts {op : Op} {res : Res} (h : acts op res = none) : res.issued = none := by
  cases hi : res.issued with
  | none => rfl
  | some it => rw [acts_of_issued hi] at h; cases h

@[simp] theorem Res.issued_ofUnit (r : Except SessionError Unit) : (Res.ofUnit r).issued = none := by
  rcases r with _ | ⟨⟨⟩⟩ <;> rfl

@[simp] theorem Res.issued_ofExit (r : Except SessionError ExitSummary) : (Res.ofExit r).issued = none := by
  cases r <;> rfl

namespace Runtime

variable {V : Type} (S : Server V)

/-! ## One runtime section at a time -/

/-- What a successful resize of an attach leaves alone: everything but the PTY and the
    model. -/
structure SameButSize (rt rt' : Runtime V) : Prop where
  state : rt'.state = rt.state
  attachments : rt'.attachments = rt.attachments
  nextAttachmentId : rt'.nextAttachmentId = rt.nextAttachmentId
  tokenHash : rt'.tokenHash = rt.tokenHash
  supersededTokenHashes : rt'.supersededTokenHashes = rt.supersededTokenHashes
  exit : rt'.exit = rt.exit
  lastAttachedAtMs : rt'.lastAttachedAtMs = rt.lastAttachedAtMs
  channels : rt'.channels = rt.channels
  pty : rt'.pty.isSome = rt.pty.isSome

theorem SameButSize.refl (rt : Runtime V) : SameButSize rt rt := ⟨rfl, rfl, rfl, rfl, rfl, rfl, rfl, rfl, rfl⟩

theorem attachResize_same {rt rt' : Runtime V} {cols rows : UInt16} {outcome : Except PtyError Unit}
    (h : rt.attachResize S cols rows outcome = .ok rt') : SameButSize rt rt' := by
  unfold attachResize at h
  split at h
  · simp only at h
    split at h
    · split at h
      · rename_i pty hp
        split at h
        · cases h
        · cases h
          exact ⟨rfl, rfl, rfl, rfl, rfl, rfl, rfl, rfl, by simp [resizeBoth, hp]⟩
      · rename_i hp
        cases h
        exact ⟨rfl, rfl, rfl, rfl, rfl, rfl, rfl, rfl, rfl⟩
    · cases h; exact .refl rt
  · cases h; exact .refl rt

/-- A successful attach: the shell was running, the table had room, the resize went
    through, and then the attachment was registered. -/
structure Attaches (id : ShellId) (rt : Runtime V) (cols rows : UInt16) (env : AttachEnv) (rt' : Runtime V)
    (a : Attachment) : Prop where
  running : rt.state = .running
  room : rt.attachments.card < S.config.maxAttachmentsPerShell
  result : ∃ rt₁, rt.attachResize S cols rows env.resize = .ok rt₁ ∧ rt' = rt₁.register S env
  attachmentId : a.attachmentId = rt.nextAttachmentId
  shellId : a.shellId = id
  token : a.rotatedResumeToken = env.token
  snapshot : a.snapshot = rt'.model.snapshot S.avt

theorem attachRuntime_cases (id : ShellId) (rt : Runtime V) (cols rows : UInt16) (env : AttachEnv) :
    (∃ e, attachRuntime S id rt cols rows env = (rt, .error e) ∧
      (rt.state ≠ .running ∧ e = .notRunning ∨
        rt.state = .running ∧ S.config.maxAttachmentsPerShell ≤ rt.attachments.card ∧
          e = .limitExceeded "max_attachments_per_shell" ∨
        rt.state = .running ∧ rt.attachments.card < S.config.maxAttachmentsPerShell ∧ ∃ pe, e = .pty pe)) ∨
    ∃ rt' a, attachRuntime S id rt cols rows env = (rt', .ok a) ∧ Attaches S id rt cols rows env rt' a := by
  unfold attachRuntime
  by_cases h1 : rt.state = .running
  · by_cases h2 : rt.attachments.card ≥ S.config.maxAttachmentsPerShell
    · exact .inl ⟨_, by simp [h1, h2], .inr (.inl ⟨h1, h2, rfl⟩)⟩
    · cases h3 : rt.attachResize S cols rows env.resize with
      | error e => exact .inl ⟨_, by simp [h1, h2], .inr (.inr ⟨h1, by omega, e, rfl⟩)⟩
      | ok rt₁ =>
        refine .inr ⟨_, _, by simp only [h1, h2, ne_eq, not_true_eq_false, if_false]; rfl, ?_⟩
        exact ⟨h1, by omega, ⟨rt₁, h3, rfl⟩, (attachResize_same S h3).nextAttachmentId, rfl, rfl, rfl⟩
  · exact .inl ⟨_, by simp [h1], .inl ⟨h1, rfl⟩⟩

theorem writeInput_fst (rt : Runtime V) (data : List UInt8) (env : WriteEnv) :
    ∃ pty, pty.isSome = rt.pty.isSome ∧ (rt.writeInput data env).1 = { rt with pty := pty } := by
  unfold writeInput
  split
  · rename_i pty hp
    split <;> exact ⟨_, by rw [hp]; rfl, rfl⟩
  · exact ⟨rt.pty, rfl, rfl⟩

theorem resize_fst (rt : Runtime V) (cols rows : UInt16) (outcome : Except PtyError Unit) :
    ∃ pty model, pty.isSome = rt.pty.isSome ∧
      (rt.resize S cols rows outcome).1 = { rt with pty := pty, model := model } := by
  unfold resize
  simp only
  split
  · rename_i pty hp
    split
    · exact ⟨_, _, by rw [hp]; rfl, rfl⟩
    · exact ⟨rt.pty, rt.model, rfl, rfl⟩
  · exact ⟨rt.pty, rt.model, rfl, rfl⟩

theorem terminate_fst (rt : Runtime V) (kill : Except PtyError Unit) :
    (∃ exit, rt.exit = some exit ∧ rt.terminate kill = (rt, some (.ok exit))) ∨
      rt.exit = none ∧ (rt.terminate kill).1 = { rt with state := .terminating } := by
  unfold terminate
  split
  · rename_i exit hx
    exact .inl ⟨exit, hx, rfl⟩
  · rename_i hx
    refine .inr ⟨hx, ?_⟩
    simp only
    split
    · split <;> rfl
    · rfl

theorem terminateWake_fst (rt : Runtime V) :
    rt.exit = none ∧ rt.terminateWake.1 = rt ∨
      ∃ exit, rt.exit = some exit ∧ rt.terminateWake = ({ rt with state := .exited }, .ok exit) := by
  unfold terminateWake
  split
  · rename_i hx
    exact .inl ⟨hx, rfl⟩
  · rename_i exit hx
    exact .inr ⟨exit, hx, rfl⟩

end Runtime

/-! ## One entry at a time -/

variable {V : Type} (S : Server V)

/-- The ways a step can change an entry: the input, the answer, the entry after. -/
inductive EntryStep (id : ShellId) (e : ShellEntry V) : Op → Res → ShellEntry V → Prop
  | reopen (req : OpenShellRequest) (env : OpenEnv) :
      EntryStep id e (.openShell req env) (.opened ⟨e.id, env.token, true⟩)
        { e with runtime := e.runtime.rotateToken S env.token }
  | attach (token : ResumeToken) (cols rows : UInt16) (env : Runtime.AttachEnv) (rt' : Runtime V) (a : Attachment) :
      e.runtime.tokenHash = S.sha256 token → Runtime.Attaches S id e.runtime cols rows env rt' a →
      EntryStep id e (.attach e.owner id token cols rows env) (.attached a) { e with runtime := rt' }
  | attachAuthorized (cols rows : UInt16) (env : Runtime.AttachEnv) (rt' : Runtime V) (a : Attachment) :
      Runtime.Attaches S id e.runtime cols rows env rt' a →
      EntryStep id e (.attachAuthorized e.owner id cols rows env) (.attached a) { e with runtime := rt' }
  | detach (attachmentId : Nat) :
      EntryStep id e (.detach id attachmentId) .done { e with runtime := e.runtime.detach attachmentId }
  | writeInput (data : List UInt8) (env : Runtime.WriteEnv) :
      EntryStep id e (.writeInput id data env) (.ofUnit (e.runtime.writeInput data env).2)
        { e with runtime := (e.runtime.writeInput data env).1 }
  | resize (cols rows : UInt16) (outcome : Except PtyError Unit) : ¬(cols = 0 ∨ rows = 0) →
      EntryStep id e (.resize id cols rows outcome) (.ofUnit (e.runtime.resize S cols rows outcome).2)
        { e with runtime := (e.runtime.resize S cols rows outcome).1 }
  | terminate (kill : Except PtyError Unit) :
      EntryStep id e (.terminate id kill) (((e.runtime.terminate kill).2.map Res.ofExit).getD .waiting)
        { e with runtime := (e.runtime.terminate kill).1 }
  | terminateWake :
      EntryStep id e (.terminateWake id) (.ofExit e.runtime.terminateWake.2)
        { e with runtime := e.runtime.terminateWake.1 }
  | pumpChunk (chunk : List UInt8) : e.pumping = true →
      EntryStep id e (.pumpChunk id chunk) .done { e with runtime := e.runtime.pumpChunk S chunk }
  | pumpEof (wait : Except PtyError ExitSummary) : e.pumping = true →
      EntryStep id e (.pumpEof id wait) .done { e with runtime := e.runtime.pumpEof wait, pumping := false }
  | recv (attachmentId : Nat) :
      EntryStep id e (.recv id attachmentId) (.event (e.runtime.recv attachmentId).2)
        { e with runtime := (e.runtime.recv attachmentId).1 }
  | dropReceiver (attachmentId : Nat) :
      EntryStep id e (.dropReceiver id attachmentId) .done { e with runtime := e.runtime.dropReceiver attachmentId }

variable {S}

theorem EntryStep.id_eq {id : ShellId} {e e' : ShellEntry V} {op : Op} {res : Res}
    (h : EntryStep S id e op res e') : e'.id = e.id := by cases h <;> rfl

theorem EntryStep.owner_eq {id : ShellId} {e e' : ShellEntry V} {op : Op} {res : Res}
    (h : EntryStep S id e op res e') : e'.owner = e.owner := by cases h <;> rfl

theorem EntryStep.issued_id {id i : ShellId} {e e' : ShellEntry V} {op : Op} {res : Res}
    {t : ResumeToken} {fresh : Bool} (h : EntryStep S id e op res e') (he : e.id = id)
    (hi : res.issued = some (i, t, fresh)) : i = id ∧ fresh = false := by
  cases h with
  | reopen req env => cases hi; exact ⟨he, rfl⟩
  | attach token cols rows env rt' a ht ha => cases hi; exact ⟨ha.shellId, rfl⟩
  | attachAuthorized cols rows env rt' a ha => cases hi; exact ⟨ha.shellId, rfl⟩
  | terminate kill =>
    cases hx : (e.runtime.terminate kill).2 with
    | none => simp [hx, Res.issued] at hi
    | some x => simp [hx] at hi
  | writeInput data env => rw [Res.issued_ofUnit] at hi; cases hi
  | resize cols rows outcome _ => rw [Res.issued_ofUnit] at hi; cases hi
  | terminateWake => rw [Res.issued_ofExit] at hi; cases hi
  | _ => cases hi

/-- Only an attach answers with an attachment. -/
theorem EntryStep.attached {id : ShellId} {e e' : ShellEntry V} {op : Op} {res : Res} {a : Attachment}
    (h : EntryStep S id e op res e') (ha : res = .attached a) :
    ∃ cols rows env rt', Runtime.Attaches S id e.runtime cols rows env rt' a ∧ e' = { e with runtime := rt' } := by
  cases h with
  | attach token cols rows env rt' a' ht hat => cases ha; exact ⟨cols, rows, env, rt', hat, rfl⟩
  | attachAuthorized cols rows env rt' a' hat => cases ha; exact ⟨cols, rows, env, rt', hat, rfl⟩
  | writeInput data env => rcases h : (e.runtime.writeInput data env).2 with _ | ⟨⟨⟩⟩ <;> rw [h] at ha <;> cases ha
  | resize cols rows outcome _ =>
    rcases h : (e.runtime.resize S cols rows outcome).2 with _ | ⟨⟨⟩⟩ <;> rw [h] at ha <;> cases ha
  | terminate kill => rcases h : (e.runtime.terminate kill).2 with _ | _ | _ <;> rw [h] at ha <;> cases ha
  | terminateWake => rcases h : e.runtime.terminateWake.2 with _ | _ <;> rw [h] at ha <;> cases ha
  | _ => cases ha

theorem EntryStep.acts_id {id i : ShellId} {e e' : ShellEntry V} {op : Op} {res : Res}
    (h : EntryStep S id e op res e') (he : e.id = id) (hi : acts op res = some i) : i = id := by
  cases h with
  | reopen req env => cases hi; exact he
  | attach token cols rows env rt' a ht ha => cases hi; exact ha.shellId
  | attachAuthorized cols rows env rt' a ha => cases hi; exact ha.shellId
  | writeInput data env => rcases h : (e.runtime.writeInput data env).2 with _ | ⟨⟨⟩⟩ <;> rw [h] at hi <;> cases hi
  | resize cols rows outcome _ =>
    rcases h : (e.runtime.resize S cols rows outcome).2 with _ | ⟨⟨⟩⟩
    · rw [h] at hi; cases hi
    · rw [h] at hi
      simp only [acts, Res.ofUnit] at hi
      split at hi
      · cases hi
      · cases hi; rfl
  | terminate kill => rcases h : (e.runtime.terminate kill).2 with _ | _ | _ <;> rw [h] at hi <;> cases hi
  | terminateWake => rcases h : e.runtime.terminateWake.2 with _ | _ <;> rw [h] at hi <;> cases hi
  | _ => cases hi; rfl

variable (S)

namespace Manager

/-- A new shell: the key was free, the account allowed, both limits had room, and launch
    and pump came up. -/
structure Opens (m : Manager V) (req : OpenShellRequest) (env : OpenEnv) (account : Option String) : Prop where
  free : m.reusable req = none
  allowed : S.policy req.user req.requestedAccount = some account
  room : m.liveShells < S.config.maxShells
  userRoom : S.config.maxShellsPerUser > 0 → m.liveShellsOf req.user < S.config.maxShellsPerUser
  launched : env.launch = .ok ()
  pumped : env.pump = .ok ()

theorem reusable_some {m : Manager V} {req : OpenShellRequest} {existing : ShellId} {e : ShellEntry V}
    (h : m.reusable req = some (existing, e)) :
    m.idempotency.lookup (req.user, req.idempotencyKey) = some existing ∧ m.shells.lookup existing = some e := by
  simp only [reusable, Option.bind_eq_some_iff, Option.map_eq_some_iff, Prod.mk.injEq] at h
  obtain ⟨i, hi, e', he', rfl, rfl⟩ := h
  exact ⟨hi, he'⟩

theorem setRuntime_self {m : Manager V} {id : ShellId} {e : ShellEntry V} (h : m.shells.lookup id = some e) :
    setRuntime m.shells id e.runtime = m.shells := by
  apply Table.adjust_eq_self
  intro v hv
  rw [h] at hv; cases hv; rfl

theorem setRuntime_eq {m : Manager V} {id : ShellId} {e : ShellEntry V} (h : m.shells.lookup id = some e)
    (rt : Runtime V) : setRuntime m.shells id rt = m.shells.adjust id fun _ => { e with runtime := rt } := by
  apply Table.adjust_congr
  intro v hv
  rw [h] at hv; cases hv; rfl

/-- `step_cases` says which of these a step is. -/
inductive StepCase (m : Manager V) (op : Op) (r : Manager V × Res) : Prop
  | same : r.1 = m → acts op r.2 = none → StepCase m op r
  | entry (id : ShellId) (e e' : ShellEntry V) : m.shells.lookup id = some e → EntryStep S id e op r.2 e' →
      r.1 = { m with shells := m.shells.adjust id fun _ => e' } → StepCase m op r
  | held (id : ShellId) (e e' : ShellEntry V) : m.shells.lookup id = none → m.retired.lookup id = some e →
      EntryStep S id e op r.2 e' → r.2.issued = none →
      r.1 = { m with retired := m.retired.adjust id fun _ => e' } → StepCase m op r
  | opens (req : OpenShellRequest) (env : OpenEnv) (account : Option String) : op = .openShell req env →
      Opens S m req env account → r.2 = .opened ⟨env.shellId, env.token, false⟩ →
      r.1 = { m with shells := m.shells.insert env.shellId (newEntry S req account env)
                     idempotency := m.idempotency.insert (req.user, req.idempotencyKey) env.shellId } →
      StepCase m op r
  | removes (id : ShellId) (e : ShellEntry V) : op = .removeExited id → m.shells.lookup id = some e →
      e.runtime.state = .exited → r.2 = .done →
      r.1 = ⟨m.shells.erase id, m.idempotency.retain fun _ i => i != id, m.retired.insert id e⟩ → StepCase m op r

variable {S}

theorem withEntry_case {m : Manager V} {op : Op} {id : ShellId} {f : ShellEntry V → Runtime V × Res}
    (hf : ∀ e, EntryStep S id e op (f e).2 { e with runtime := (f e).1 } ∨
      (f e).1 = e.runtime ∧ acts op (f e).2 = none) : StepCase S m op (m.withEntry id f) := by
  unfold withEntry
  split
  · exact .same rfl (acts_err _ _)
  · rename_i e he
    rcases hf e with h | ⟨h1, h2⟩
    · exact .entry id e _ he h (by simp only [setRuntime_eq he])
    · refine .same ?_ h2
      simp only [h1, setRuntime_self he]

theorem withHeld_case {m : Manager V} {op : Op} {id : ShellId} {f : ShellEntry V → ShellEntry V × Res}
    (hf : ∀ e, (EntryStep S id e op (f e).2 (f e).1 ∨ (f e).1 = e ∧ acts op (f e).2 = none) ∧ (f e).2.issued = none) :
    StepCase S m op (m.withHeld id f) := by
  have hself : ∀ {t : Table ShellId (ShellEntry V)} {e}, t.lookup id = some e → (f e).1 = e →
      t.adjust id (fun _ => (f e).1) = t := fun he h =>
    Table.adjust_eq_self fun v hv => by rw [he] at hv; cases hv; exact h
  unfold withHeld
  split
  · rename_i e he
    rcases (hf e).1 with h | ⟨h, ha⟩
    · exact .entry id e _ he h rfl
    · exact .same (by simp only [hself he h]) ha
  · rename_i hn
    split
    · rename_i e he
      rcases (hf e).1 with h | ⟨h, ha⟩
      · exact .held id e _ hn he h (hf e).2 rfl
      · exact .same (by simp only [hself he h]) ha
    · exact .same rfl (acts_idle _)

theorem openFresh_cases {m : Manager V} {req : OpenShellRequest} (env : OpenEnv) (hr : m.reusable req = none) :
    (∃ err, m.openFresh S req env = (m, .err err)) ∨
    ∃ account, Opens S m req env account ∧ m.openFresh S req env =
      ({ m with shells := m.shells.insert env.shellId (newEntry S req account env)
                idempotency := m.idempotency.insert (req.user, req.idempotencyKey) env.shellId },
        .opened ⟨env.shellId, env.token, false⟩) := by
  unfold openFresh
  split
  · exact .inl ⟨_, rfl⟩
  · rename_i account ha
    split
    · exact .inl ⟨_, rfl⟩
    · rename_i h1
      split
      · exact .inl ⟨_, rfl⟩
      · rename_i h2
        split
        · exact .inl ⟨_, rfl⟩
        · rename_i hl
          split
          · exact .inl ⟨_, rfl⟩
          · rename_i hp
            exact .inr ⟨account, ⟨hr, ha, by omega, fun h => by omega, hl, hp⟩, rfl⟩

variable (S)

theorem step_cases (m : Manager V) (op : Op) : StepCase S m op (m.step S op) := by
  cases op with
  | openShell req env =>
    simp only [step, openShell]
    split
    · rename_i existing e he
      obtain ⟨_, hs⟩ := reusable_some he
      exact .entry existing e _ hs (.reopen req env) (by simp only [setRuntime_eq hs])
    · rename_i hr
      rcases openFresh_cases (S := S) env hr with ⟨err, h⟩ | ⟨account, ho, h⟩
      · rw [h]; exact .same rfl rfl
      · rw [h]; exact .opens req env account rfl ho rfl rfl
  | attach owner id token cols rows env =>
    apply withEntry_case
    intro e
    by_cases ho : e.owner = owner
    · subst ho
      simp only [ne_eq, not_true_eq_false, if_false, Runtime.attachWithToken]
      by_cases ht : e.runtime.tokenHash = S.sha256 token
      · rcases Runtime.attachRuntime_cases S id e.runtime cols rows env with ⟨err, h, _⟩ | ⟨rt', a, h, ha⟩
        · right; simp [ht, h, Res.ofAttach]
        · left
          simpa [ht, h, Res.ofAttach] using EntryStep.attach token cols rows env rt' a ht ha
      · right
        by_cases hs : S.sha256 token ∈ e.runtime.supersededTokenHashes
        · simp [ht, hs, Res.ofAttach]
        · simp [ht, hs, Res.ofAttach]
    · right; simp [ho]
  | attachAuthorized owner id cols rows env =>
    apply withEntry_case
    intro e
    by_cases ho : e.owner = owner
    · subst ho
      simp only [ne_eq, not_true_eq_false, if_false]
      rcases Runtime.attachRuntime_cases S id e.runtime cols rows env with ⟨err, h, _⟩ | ⟨rt', a, h, ha⟩
      · right; simp [h, Res.ofAttach]
      · left
        simpa [h, Res.ofAttach] using EntryStep.attachAuthorized cols rows env rt' a ha
    · right; simp [ho]
  | detach id attachmentId => exact withEntry_case fun e => .inl (.detach attachmentId)
  | writeInput id data env => exact withEntry_case fun e => .inl (.writeInput data env)
  | resize id cols rows outcome =>
    simp only [step]
    split
    · rename_i h0
      exact .same rfl (if_pos h0)
    · rename_i h0
      exact withEntry_case fun e => .inl (.resize cols rows outcome h0)
  | terminate id kill => exact withEntry_case fun e => .inl (.terminate kill)
  | terminateWake id => exact withHeld_case fun e => ⟨.inl .terminateWake, by simp⟩
  | reapScan cutoff => exact .same rfl rfl
  | reapRecheck id cutoff => exact withHeld_case fun e => ⟨.inr ⟨rfl, rfl⟩, rfl⟩
  | removeExited id =>
    simp only [step, removeExited]
    split
    · exact .same rfl rfl
    · rename_i e he
      split
      · exact .same rfl rfl
      · rename_i hx
        exact .removes id e rfl he (not_not.mp hx) rfl rfl
  | pumpChunk id chunk =>
    apply withHeld_case
    intro e
    by_cases hp : e.pumping = true
    · rw [if_pos hp]; exact ⟨.inl (.pumpChunk chunk hp), rfl⟩
    · rw [if_neg hp]; exact ⟨.inr ⟨rfl, rfl⟩, rfl⟩
  | pumpEof id wait =>
    apply withHeld_case
    intro e
    by_cases hp : e.pumping = true
    · rw [if_pos hp]; exact ⟨.inl (.pumpEof wait hp), rfl⟩
    · rw [if_neg hp]; exact ⟨.inr ⟨rfl, rfl⟩, rfl⟩
  | recv id attachmentId => exact withHeld_case fun e => ⟨.inl (.recv attachmentId), rfl⟩
  | dropReceiver id attachmentId => exact withHeld_case fun e => ⟨.inl (.dropReceiver attachmentId), rfl⟩

/-- Only an open answers with an opened shell. -/
theorem open_of_opened {m : Manager V} {op : Op} {o : OpenedShell} (h : (m.step S op).2 = .opened o) :
    ∃ req env, op = .openShell req env := by
  have hi : (m.step S op).2.issued = some (o.shellId, o.resumeToken, !o.reused) := by rw [h]; rfl
  cases step_cases S m op with
  | same _ h2 =>
    rw [issued_of_acts h2] at hi
    cases hi
  | entry _ e e' _ hs _ =>
    generalize (m.step S op).2 = res at h hs
    cases hs with
    | reopen req env => exact ⟨req, env, rfl⟩
    | writeInput data env => cases hr : (e.runtime.writeInput data env).2 <;> rw [hr] at h <;> cases h
    | resize cols rows outcome _ =>
      cases hr : (e.runtime.resize S cols rows outcome).2 <;> rw [hr] at h <;> cases h
    | terminate kill => rcases hr : (e.runtime.terminate kill).2 with _ | _ | _ <;> rw [hr] at h <;> cases h
    | terminateWake => cases hr : e.runtime.terminateWake.2 <;> rw [hr] at h <;> cases h
    | _ => cases h
  | held _ _ _ _ _ _ h2 _ =>
    rw [h2] at hi
    cases hi
  | opens req env _ hop _ _ _ => exact ⟨req, env, hop⟩
  | removes _ _ _ _ _ h2 _ =>
    rw [h2] at h
    cases h

theorem freshId_of_not_open {m : Manager V} {op : Op} (h : op.isOpen = false) : FreshId S m op := by
  unfold FreshId freshId
  split
  · rename_i o ho
    obtain ⟨req, env, rfl⟩ := open_of_opened S ho
    cases h
  · rfl

/-! ## One id at a time -/

/-- Every entry is filed under its own id. -/
structure Keyed (m : Manager V) : Prop where
  shells : ∀ id e, m.shells.lookup id = some e → e.id = id
  retired : ∀ id e, m.retired.lookup id = some e → e.id = id

theorem keyed_empty : Keyed (empty : Manager V) := ⟨fun _ _ h => (by cases h), fun _ _ h => (by cases h)⟩

/-- The ways a step can change what the map holds under `id`. -/
inductive StepAt (m : Manager V) (op : Op) (r : Manager V × Res) (id : ShellId) : Prop
  | kept : r.1.shells.lookup id = m.shells.lookup id → (∀ i t fresh, r.2.issued = some (i, t, fresh) → i ≠ id) →
      StepAt m op r id
  | changed (e e' : ShellEntry V) : m.shells.lookup id = some e → EntryStep S id e op r.2 e' →
      r.1.shells.lookup id = some e' → StepAt m op r id
  | created (req : OpenShellRequest) (env : OpenEnv) (account : Option String) : op = .openShell req env →
      env.shellId = id → Opens S m req env account → r.2 = .opened ⟨id, env.token, false⟩ →
      r.1.shells.lookup id = some (newEntry S req account env) → StepAt m op r id
  | removed (e : ShellEntry V) : op = .removeExited id → m.shells.lookup id = some e → e.runtime.state = .exited →
      r.2 = .done → r.1.shells.lookup id = none → StepAt m op r id

theorem step_at {m : Manager V} (hk : Keyed m) (op : Op) (id : ShellId) : StepAt S m op (m.step S op) id := by
  cases step_cases S m op with
  | same h1 h2 => exact .kept (by rw [h1]) (by rw [issued_of_acts h2]; intro _ _ _ h; cases h)
  | entry i e e' hl hs h1 =>
    by_cases hi : id = i
    · subst hi
      exact .changed e e' hl hs (by rw [h1]; simp [hl])
    · refine .kept (by rw [h1]; exact Table.lookup_adjust_ne _ _ hi) ?_
      intro j t fresh hj
      rw [(hs.issued_id (hk.shells i e hl) hj).1]
      exact fun h => hi h.symm
  | held i e e' hn hl hs h2 h1 => exact .kept (by rw [h1]) (by rw [h2]; intro _ _ _ h; cases h)
  | opens req env account hop ho h2 h1 =>
    by_cases hi : env.shellId = id
    · exact .created req env account hop hi ho (by rw [h2, hi]) (by rw [h1, ← hi]; exact AList.lookup_insert _)
    · refine .kept (by rw [h1]; exact AList.lookup_insert_ne (Ne.symm hi)) ?_
      intro j t fresh hj
      rw [h2] at hj
      cases hj
      exact hi
  | removes i e hop hl hx h2 h1 =>
    by_cases hi : id = i
    · subst hi
      exact .removed e hop hl hx h2 (by rw [h1]; exact AList.lookup_erase _ _)
    · exact .kept (by rw [h1]; exact AList.lookup_erase_ne hi) (by rw [h2]; intro _ _ _ h; cases h)

theorem keyed_step {m : Manager V} (hk : Keyed m) (op : Op) : Keyed (m.step S op).1 := by
  constructor
  · intro id e h
    cases step_at S hk op id with
    | kept hl _ => exact hk.shells id e (hl ▸ h)
    | changed e₀ e' hl hs h' => rw [h] at h'; cases h'; rw [hs.id_eq]; exact hk.shells id e₀ hl
    | created req env account hop hi ho h2 h' => rw [h] at h'; cases h'; exact hi
    | removed e₀ hop hl hx h2 h' => rw [h] at h'; cases h'
  · intro id e h
    cases step_cases S m op with
    | same h1 _ => exact hk.retired id e (h1 ▸ h)
    | entry _ _ _ _ _ h1 => rw [h1] at h; exact hk.retired id e h
    | held i e₀ e' _ hl hs _ h1 =>
      rw [h1] at h
      by_cases hi : id = i
      · subst hi
        rw [Table.lookup_adjust_same, hl] at h
        cases h
        rw [hs.id_eq]; exact hk.retired id e₀ hl
      · rw [Table.lookup_adjust_ne _ _ hi] at h
        exact hk.retired id e h
    | opens _ _ _ _ _ _ h1 => rw [h1] at h; exact hk.retired id e h
    | removes i e₀ _ hl _ _ h1 =>
      rw [h1, Table.lookup_insert_some] at h
      rcases h with ⟨rfl, rfl⟩ | ⟨_, h⟩
      · exact hk.shells _ _ hl
      · exact hk.retired id e h

/-! ## Shells, removed or not -/

/-- The shell called `id`, in the map or already removed from it. -/
def find (m : Manager V) (id : ShellId) : Option (ShellEntry V) := (m.shells.lookup id).or (m.retired.lookup id)

theorem find_of_lookup {m : Manager V} {id : ShellId} {e : ShellEntry V} (h : m.shells.lookup id = some e) :
    m.find id = some e := by simp [find, h]

/-- An open whose drawn id names no shell. -/
theorem freshId_of_find {m : Manager V} {env : OpenEnv} (h : m.find env.shellId = none) (req : OpenShellRequest) :
    FreshId S m (.openShell req env) := by
  simp only [find, Option.or_eq_none_iff] at h
  simp only [FreshId, freshId, step, openShell]
  cases hr : m.reusable req with
  | some x => rfl
  | none =>
    rcases openFresh_cases (S := S) env hr with ⟨err, h'⟩ | ⟨account, _, h'⟩
    · rw [h']
    · rw [h']
      simp [h.1, h.2]

/-- The ways a step can change a shell, wherever it is. -/
inductive FindStep (m : Manager V) (op : Op) (r : Manager V × Res) (id : ShellId) : Prop
  | kept : r.1.find id = m.find id → acts op r.2 ≠ some id → FindStep m op r id
  | changed (e e' : ShellEntry V) : m.find id = some e → EntryStep S id e op r.2 e' → r.1.find id = some e' →
      FindStep m op r id
  | created (req : OpenShellRequest) (env : OpenEnv) (account : Option String) : op = .openShell req env →
      m.find id = none → Opens S m req env account → r.2 = .opened ⟨id, env.token, false⟩ →
      r.1.find id = some (newEntry S req account env) → FindStep m op r id

theorem find_step {m : Manager V} (hk : Keyed m) {op : Op}
    (hf : FreshId S m op) (id : ShellId) : FindStep S m op (m.step S op) id := by
  cases step_cases S m op with
  | same h1 h2 => exact .kept (by rw [h1]) (by rw [h2]; exact nofun)
  | entry i e e' hl hs h1 =>
    by_cases hi : id = i
    · subst hi
      exact .changed e e' (find_of_lookup hl) hs (find_of_lookup (by rw [h1]; simp [hl]))
    · refine .kept (by rw [h1]; simp only [find, Table.lookup_adjust_ne _ _ hi]) ?_
      intro hj
      exact hi (hs.acts_id (hk.shells i e hl) hj)
  | held i e e' hn hl hs h2 h1 =>
    by_cases hi : id = i
    · subst hi
      exact .changed e e' (by simp [find, hn, hl]) hs (by rw [h1]; simp [find, hn, hl])
    · refine .kept (by rw [h1]; simp only [find, Table.lookup_adjust_ne _ _ hi]) ?_
      intro hj
      exact hi (hs.acts_id (hk.retired i e hl) hj)
  | opens req env account hop ho h2 h1 =>
    by_cases hi : env.shellId = id
    · obtain ⟨hs, hr⟩ := hf.new h2
      subst hi
      exact .created req env account hop (by simp [find, hs, hr]) ho h2
        (find_of_lookup (by rw [h1]; exact AList.lookup_insert _))
    · refine .kept (by rw [h1]; simp only [find, AList.lookup_insert_ne (Ne.symm hi)]) ?_
      intro hj
      rw [h2] at hj
      cases hj
      exact hi rfl
  | removes i e hop hl hx h2 h1 =>
    refine .kept ?_ (by rw [h2, hop]; exact nofun)
    rw [h1]
    by_cases hi : id = i
    · subst hi
      simp [find, hl, AList.lookup_erase, AList.lookup_insert]
    · simp only [find, AList.lookup_erase_ne hi, AList.lookup_insert_ne hi]

end Manager

end Holdfast.Session

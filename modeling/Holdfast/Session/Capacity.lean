/-
  Holdfast.Session.Capacity — the limits of the session core and a shell's life.

  `ShellInv` is what holds of every shell on its own, removed or not: its attachments are
  within their limit and below the next attachment id, and its state, its exit and its
  pump agree on whether it is over. A terminate that raced the pump's exit path therefore
  never puts an exited shell back to `terminating`, which is what lets the limits count
  shells by that state.

  Proved:
  - `entryStep_inv` / `shellInv_run`: every step of every run keeps `ShellInv`.
  - `live_run`: the number of live shells stays within both limits.
  - `moves_run`: states only move forward and a recorded exit stays.
  - `attachmentIds_run`: a shell's attachment ids only go up.
  - `capacity_invariants`: all of it, over whole runs.
-/

import Holdfast.Session.Steps

namespace Holdfast.Session

open Holdfast.Base Holdfast.Terminal

variable {V : Type} (S : Server V)

/-! ## One shell -/

def ShellState.rank : ShellState → Nat
  | .running => 0
  | .terminating => 1
  | .exited => 2

structure ShellInv (e : ShellEntry V) : Prop where
  room : e.runtime.attachments.card ≤ S.config.maxAttachmentsPerShell
  below : ∀ i ∈ e.runtime.attachments, i < e.runtime.nextAttachmentId
  exited : e.runtime.state = .exited ↔ e.runtime.exit.isSome = true
  pumping : e.pumping = false ↔ e.runtime.exit.isSome = true
  pty : e.pumping = true → e.runtime.pty.isSome = true

/-- What may happen to a shell's state, exit and attachment counter. -/
structure Moves (e e' : ShellEntry V) : Prop where
  state : e.runtime.state.rank ≤ e'.runtime.state.rank
  exit : ∀ x, e.runtime.exit = some x → e'.runtime.exit = some x
  next : e.runtime.nextAttachmentId ≤ e'.runtime.nextAttachmentId

theorem Moves.refl (e : ShellEntry V) : Moves e e := ⟨le_rfl, fun _ h => h, le_rfl⟩

theorem Moves.trans {e e' e'' : ShellEntry V} (h : Moves e e') (h' : Moves e' e'') : Moves e e'' :=
  ⟨h.state.trans h'.state, fun x hx => h'.exit x (h.exit x hx), h.next.trans h'.next⟩

theorem Moves.not_running {e e' : ShellEntry V} (h : Moves e e') (hx : e.runtime.state ≠ .running) :
    e'.runtime.state ≠ .running := by
  have hrank := h.state
  revert hrank hx
  cases e.runtime.state <;> cases e'.runtime.state <;> simp [ShellState.rank]

theorem newEntry_inv (req : OpenShellRequest) (account : Option String) (env : OpenEnv) :
    ShellInv S (Manager.newEntry S req account env) where
  room := by simp [Manager.newEntry, Manager.newRuntime]
  below i hi := by simp [Manager.newEntry, Manager.newRuntime] at hi
  exited := by simp [Manager.newEntry, Manager.newRuntime]
  pumping := by simp [Manager.newEntry, Manager.newRuntime]
  pty _ := rfl

variable {S}

theorem ShellInv.attaches {id : ShellId} {e : ShellEntry V} {cols rows : UInt16} {env : Runtime.AttachEnv}
    {rt' : Runtime V} {a : Attachment} (h : ShellInv S e) (ha : Runtime.Attaches S id e.runtime cols rows env rt' a) :
    ShellInv S { e with runtime := rt' } ∧ Moves e { e with runtime := rt' } := by
  obtain ⟨rt₁, hr, rfl⟩ := ha.result
  have hs := Runtime.attachResize_same S hr
  have hnext : (rt₁.register S env).nextAttachmentId = e.runtime.nextAttachmentId + 1 := by
    rw [← hs.nextAttachmentId]; rfl
  have hatt : (rt₁.register S env).attachments = insert e.runtime.nextAttachmentId e.runtime.attachments := by
    rw [← hs.nextAttachmentId, ← hs.attachments]; rfl
  have hstate : (rt₁.register S env).state = e.runtime.state := hs.state
  have hexit : (rt₁.register S env).exit = e.runtime.exit := hs.exit
  refine ⟨⟨?_, fun i hi => ?_, ?_, ?_, fun hp => ?_⟩, ⟨?_, fun x hx => ?_, ?_⟩⟩
  · show (rt₁.register S env).attachments.card ≤ _
    rw [hatt]
    have := Finset.card_insert_le e.runtime.nextAttachmentId e.runtime.attachments
    have := ha.room
    omega
  · show i < (rt₁.register S env).nextAttachmentId
    replace hi : i ∈ (rt₁.register S env).attachments := hi
    rw [hatt, Finset.mem_insert] at hi
    rcases hi with rfl | hi
    · omega
    · have := h.below i hi
      omega
  · show (rt₁.register S env).state = .exited ↔ (rt₁.register S env).exit.isSome = true
    rw [hstate, hexit]; exact h.exited
  · show e.pumping = false ↔ (rt₁.register S env).exit.isSome = true
    rw [hexit]; exact h.pumping
  · show rt₁.pty.isSome = true
    rw [hs.pty]; exact h.pty hp
  · show _ ≤ (rt₁.register S env).state.rank
    rw [hstate]
  · show (rt₁.register S env).exit = some x
    rw [hexit]; exact hx
  · show _ ≤ (rt₁.register S env).nextAttachmentId
    omega

/-- A section that leaves the table's counter, the state and the exit as they were, and
    takes at most entries out of the table. -/
theorem ShellInv.shrinks {e e' : ShellEntry V} (h : ShellInv S e)
    (hatt : e'.runtime.attachments ⊆ e.runtime.attachments)
    (hnext : e'.runtime.nextAttachmentId = e.runtime.nextAttachmentId) (hstate : e'.runtime.state = e.runtime.state)
    (hexit : e'.runtime.exit = e.runtime.exit) (hp : e'.pumping = e.pumping)
    (hpty : e'.runtime.pty.isSome = e.runtime.pty.isSome) : ShellInv S e' ∧ Moves e e' := by
  refine ⟨⟨(Finset.card_le_card hatt).trans h.room, fun i hi => ?_, ?_, ?_, ?_⟩, ⟨?_, fun x hx => ?_, ?_⟩⟩
  · rw [hnext]; exact h.below i (hatt hi)
  · rw [hstate, hexit]; exact h.exited
  · rw [hp, hexit]; exact h.pumping
  · rw [hp, hpty]; exact h.pty
  · rw [hstate]
  · rw [hexit]; exact hx
  · rw [hnext]

theorem entryStep_inv {id : ShellId} {e e' : ShellEntry V} {op : Op} {res : Res} (hs : EntryStep S id e op res e')
    (h : ShellInv S e) : ShellInv S e' ∧ Moves e e' := by
  cases hs with
  | reopen req env => exact h.shrinks (Finset.Subset.refl _) rfl rfl rfl rfl rfl
  | attach token cols rows env rt' a _ ha => exact h.attaches ha
  | attachAuthorized cols rows env rt' a ha => exact h.attaches ha
  | detach i => exact h.shrinks (Finset.erase_subset _ _) rfl rfl rfl rfl rfl
  | writeInput data env =>
    obtain ⟨pty, hp, hw⟩ := e.runtime.writeInput_fst data env
    rw [hw]; exact h.shrinks (Finset.Subset.refl _) rfl rfl rfl rfl hp
  | resize cols rows outcome _ =>
    obtain ⟨pty, model, hp, hw⟩ := e.runtime.resize_fst S cols rows outcome
    rw [hw]; exact h.shrinks (Finset.Subset.refl _) rfl rfl rfl rfl hp
  | terminate kill =>
    rcases e.runtime.terminate_fst kill with ⟨_, _, hw⟩ | ⟨hx, hw⟩
    · rw [hw]; exact ⟨h, .refl e⟩
    · -- no exit yet, so the state was not `exited`: going to `terminating` is a move forward
      rw [hw]
      have hne : e.runtime.state ≠ .exited := fun hst => by
        have := h.exited.mp hst
        rw [hx] at this; cases this
      refine ⟨⟨h.room, h.below, ?_, h.pumping, h.pty⟩, ⟨?_, fun x hx' => hx', le_rfl⟩⟩
      · simp [hx]
      · revert hne
        cases e.runtime.state <;> simp [ShellState.rank]
  | terminateWake =>
    rcases e.runtime.terminateWake_fst with ⟨_, hw⟩ | ⟨x, hx, hw⟩
    · rw [hw]; exact ⟨h, .refl e⟩
    · rw [hw]
      have hst : e.runtime.state = .exited := h.exited.mpr (by rw [hx]; rfl)
      exact h.shrinks (Finset.Subset.refl _) rfl hst.symm rfl rfl rfl
  | pumpChunk chunk hp => exact h.shrinks (Finset.filter_subset _ _) rfl rfl rfl rfl rfl
  | pumpEof wait hp =>
    have hx : e.runtime.exit = none := by
      cases hx : e.runtime.exit with
      | none => rfl
      | some x => rw [h.pumping.mpr (by rw [hx]; rfl)] at hp; cases hp
    refine ⟨⟨by simp [Runtime.pumpEof], fun i hi => by simp [Runtime.pumpEof] at hi, by simp [Runtime.pumpEof],
      by simp [Runtime.pumpEof], nofun⟩, ⟨?_, fun x hx' => ?_, le_rfl⟩⟩
    · cases e.runtime.state <;> simp [Runtime.pumpEof, ShellState.rank]
    · rw [hx] at hx'; cases hx'
  | recv i => exact h.shrinks (Finset.Subset.refl _) rfl rfl rfl rfl rfl
  | dropReceiver i => exact h.shrinks (Finset.Subset.refl _) rfl rfl rfl rfl rfl

/-! ## The limits -/

namespace Manager

variable (S)

structure CapacityInv (m : Manager V) : Prop where
  keyed : m.Keyed
  shells : ∀ id e, m.find id = some e → ShellInv S e
  live : m.liveShells ≤ S.config.maxShells
  liveOf : 0 < S.config.maxShellsPerUser → ∀ user, m.liveShellsOf user ≤ S.config.maxShellsPerUser

theorem capacityInv_empty : CapacityInv S (empty : Manager V) where
  keyed := keyed_empty
  shells _ _ h := by cases h
  live := Nat.zero_le _
  liveOf _ _ := Nat.zero_le _

variable {S}

/-- What was over stays over. -/
theorem isLive_mono {e e' : ShellEntry V} (h : Moves e e') (hl : isLive e' = true) : isLive e = true := by
  have := h.state
  revert this hl
  unfold isLive
  cases e.runtime.state <;> cases e'.runtime.state <;> decide

theorem count_entry_le {m : Manager V} {id : ShellId} {e e' : ShellEntry V} {p : ShellEntry V → Bool}
    (hl : m.shells.lookup id = some e) (hp : p e' = true → p e = true) :
    Table.count p (m.shells.adjust id fun _ => e') ≤ Table.count p m.shells := by
  have := Table.count_adjust p (fun _ => e') hl
  cases h' : p e' with
  | false => simp [h'] at this; omega
  | true => simp [h', hp h'] at this; omega

theorem shells_step {m : Manager V} (h : CapacityInv S m) {op : Op} (hf : FreshId S m op) {id : ShellId}
    {e' : ShellEntry V} (he' : (m.step S op).1.find id = some e') : ShellInv S e' := by
  cases find_step S h.keyed hf id with
  | kept hl _ => exact h.shells id e' (hl ▸ he')
  | changed e e'' hl hs h' => rw [he'] at h'; cases h'; exact (entryStep_inv hs (h.shells id e hl)).1
  | created req env account _ _ _ _ h' => rw [he'] at h'; cases h'; exact newEntry_inv S req account env

/-- No step adds to a count of shells but an open that makes one, where there is room. -/
theorem count_step {m : Manager V} (h : CapacityInv S m) (op : Op) {p : ShellEntry V → Bool}
    (hp : ∀ e e' : ShellEntry V, Moves e e' → e'.owner = e.owner → p e' = true → p e = true) :
    Table.count p (m.step S op).1.shells ≤ Table.count p m.shells ∨
    ∃ req env account, Opens S m req env account ∧
      (m.step S op).1.shells = m.shells.insert env.shellId (newEntry S req account env) := by
  cases step_cases S m op with
  | same h1 _ => exact .inl (by rw [h1])
  | entry i e e' hl hs h1 =>
    refine .inl ?_
    rw [h1]
    exact count_entry_le hl (hp e e' (entryStep_inv hs (h.shells i e (find_of_lookup hl))).2 hs.owner_eq)
  | held _ _ _ _ _ _ _ h1 => exact .inl (by rw [h1])
  | opens req env account _ ho _ h1 => exact .inr ⟨req, env, account, ho, by rw [h1]⟩
  | removes i e _ _ _ _ h1 => exact .inl (by rw [h1]; exact Table.count_erase_le _ _ _)

theorem live_step {m : Manager V} (h : CapacityInv S m) (op : Op) :
    (m.step S op).1.liveShells ≤ S.config.maxShells := by
  have hp : ∀ e e' : ShellEntry V, Moves e e' → e'.owner = e.owner → isLive e' = true → isLive e = true :=
    fun _ _ hm _ => isLive_mono hm
  rcases count_step h op hp with hle | ⟨req, env, account, ho, hs⟩
  · exact hle.trans h.live
  · have hins := Table.count_insert_le m.shells env.shellId (newEntry S req account env) isLive
    have := Bool.toNat_le (isLive (newEntry S req account env))
    have := ho.room
    unfold liveShells at *
    rw [hs]; omega

theorem liveOf_step {m : Manager V} (h : CapacityInv S m) (op : Op) (hmax : 0 < S.config.maxShellsPerUser)
    (user : String) : (m.step S op).1.liveShellsOf user ≤ S.config.maxShellsPerUser := by
  have hp : ∀ e e' : ShellEntry V, Moves e e' → e'.owner = e.owner → isLiveOf user e' = true → isLiveOf user e = true := by
    intro e e' hm ho hl
    simp only [isLiveOf, Bool.and_eq_true] at hl ⊢
    exact ⟨isLive_mono hm hl.1, ho ▸ hl.2⟩
  have hbefore := h.liveOf hmax user
  rcases count_step h op hp with hle | ⟨req, env, account, ho, hs⟩
  · exact hle.trans hbefore
  · have hins := Table.count_insert_le m.shells env.shellId (newEntry S req account env) (isLiveOf user)
    have hroom := ho.userRoom hmax
    unfold liveShellsOf at *
    rw [hs]
    by_cases hu : req.user = user
    · -- the new shell is this user's: the check left room for it
      subst hu
      have := Bool.toNat_le (isLiveOf req.user (newEntry S req account env))
      omega
    · have hn : isLiveOf user (newEntry S req account env) = false := by simp [isLiveOf, newEntry, hu]
      rw [hn] at hins
      simp only [Bool.toNat_false] at hins
      omega

theorem capacityInv_step {m : Manager V} (h : CapacityInv S m) {op : Op} (hf : FreshId S m op) :
    CapacityInv S (m.step S op).1 :=
  ⟨keyed_step S h.keyed op, fun _ _ he => shells_step h hf he, live_step h op, liveOf_step h op⟩

theorem capacityInv_run {m : Manager V} (h : CapacityInv S m) {ops : List Op}
    (hf : (machine S).Admissible (FreshId S) m ops) : CapacityInv S ((machine S).run m ops) :=
  (machine S).run_induction (P := CapacityInv S) (fun _ _ hm hok => capacityInv_step hm hok) h hf

/-! ## A shell's life -/

theorem moves_step {m : Manager V} (h : CapacityInv S m) {op : Op} (hf : FreshId S m op) {id : ShellId}
    {e : ShellEntry V} (he : m.find id = some e) : ∃ e', (m.step S op).1.find id = some e' ∧ Moves e e' := by
  cases find_step S h.keyed hf id with
  | kept hl _ => exact ⟨e, hl ▸ he, .refl e⟩
  | changed e₀ e' hl hs h' =>
    rw [he] at hl; cases hl
    exact ⟨e', h', (entryStep_inv hs (h.shells id e he)).2⟩
  | created req env account _ hn _ _ _ => rw [he] at hn; cases hn

theorem moves_run {m : Manager V} (h : CapacityInv S m) {ops : List Op}
    (hf : (machine S).Admissible (FreshId S) m ops) {id : ShellId} {e : ShellEntry V} (he : m.find id = some e) :
    ∃ e', ((machine S).run m ops).find id = some e' ∧ Moves e e' := by
  refine ((machine S).run_induction (P := fun m => CapacityInv S m ∧ ∃ e', m.find id = some e' ∧ Moves e e') ?_
    ⟨h, e, he, .refl e⟩ hf).2
  intro m op hinv hok
  obtain ⟨hm, e₁, he₁, hmv⟩ := hinv
  obtain ⟨e₂, he₂, hmv'⟩ := moves_step hm hok he₁
  exact ⟨capacityInv_step hm hok, e₂, he₂, hmv.trans hmv'⟩

def attachmentIdOf (id : ShellId) : Res → Option Nat
  | .attached a => if a.shellId = id then some a.attachmentId else none
  | _ => none

/-- The attachment ids given out for a shell along a trace, oldest first. -/
def attachmentIds (id : ShellId) (tr : List (Op × Res)) : List Nat := tr.filterMap fun x => attachmentIdOf id x.2

theorem attachmentIds_snoc (id : ShellId) (tr : List (Op × Res)) (x : Op × Res) :
    attachmentIds id (tr ++ [x]) = attachmentIds id tr ++ (attachmentIdOf id x.2).toList := by
  cases h : attachmentIdOf id x.2 <;> simp [attachmentIds, h]

/-- The ids given out went up, and the next one is above them all. -/
structure IdsInv (ids : List Nat) (m : Manager V) (id : ShellId) : Prop where
  increasing : ids.Pairwise (· < ·)
  unused : m.find id = none → ids = []
  below : ∀ e, m.find id = some e → ∀ i ∈ ids, i < e.runtime.nextAttachmentId

/-- An entry's step either gives out no attachment id, or the entry's next one. -/
theorem attachmentIdOf_entryStep {id : ShellId} {e e' : ShellEntry V} {op : Op} {res : Res}
    (hs : EntryStep S id e op res e') : attachmentIdOf id res = none ∨
      attachmentIdOf id res = some e.runtime.nextAttachmentId ∧
        e'.runtime.nextAttachmentId = e.runtime.nextAttachmentId + 1 := by
  have hreg : ∀ {cols rows env rt' a}, Runtime.Attaches S id e.runtime cols rows env rt' a →
      attachmentIdOf id (.attached a) = some e.runtime.nextAttachmentId ∧
        rt'.nextAttachmentId = e.runtime.nextAttachmentId + 1 := by
    intro cols rows env rt' a ha
    obtain ⟨rt₁, hr, rfl⟩ := ha.result
    refine ⟨by simp [attachmentIdOf, ha.shellId, ha.attachmentId], ?_⟩
    rw [← (Runtime.attachResize_same S hr).nextAttachmentId]; rfl
  cases hs with
  | attach token cols rows env rt' a _ ha => exact .inr (hreg ha)
  | attachAuthorized cols rows env rt' a ha => exact .inr (hreg ha)
  | writeInput data env => left; rcases (e.runtime.writeInput data env).2 with _ | ⟨⟨⟩⟩ <;> rfl
  | resize cols rows outcome _ => left; rcases (e.runtime.resize S cols rows outcome).2 with _ | ⟨⟨⟩⟩ <;> rfl
  | terminate kill => left; rcases (e.runtime.terminate kill).2 with _ | _ | _ <;> rfl
  | terminateWake => left; rcases e.runtime.terminateWake.2 with _ | _ <;> rfl
  | _ => exact .inl rfl

theorem idsInv_step {ids : List Nat} {m : Manager V} (h : CapacityInv S m) {op : Op} (hf : FreshId S m op)
    {id : ShellId} (hi : IdsInv ids m id) :
    IdsInv (ids ++ (attachmentIdOf id (m.step S op).2).toList) (m.step S op).1 id := by
  cases find_step S h.keyed hf id with
  | kept hl hacts =>
    have hn : attachmentIdOf id (m.step S op).2 = none := by
      unfold attachmentIdOf
      split
      · rename_i a ha
        exact if_neg fun e => hacts (by rw [ha, ← e]; rfl)
      · rfl
    rw [hn, Option.toList_none, List.append_nil]
    exact ⟨hi.increasing, by rw [hl]; exact hi.unused, by rw [hl]; exact hi.below⟩
  | changed e e' hl hs h' =>
    have hmoves := (entryStep_inv hs (h.shells id e hl)).2
    have hbelow := hi.below e hl
    rcases attachmentIdOf_entryStep hs with hn | ⟨hsome, hnext⟩
    · rw [hn, Option.toList_none, List.append_nil]
      refine ⟨hi.increasing, fun hnone => (by rw [h'] at hnone; cases hnone), ?_⟩
      intro e₁ he₁ i hmem
      rw [h'] at he₁; cases he₁
      exact (hbelow i hmem).trans_le hmoves.next
    · rw [hsome, Option.toList_some]
      refine ⟨?_, fun hnone => (by rw [h'] at hnone; cases hnone), fun e₁ he₁ i hmem => ?_⟩
      · refine List.pairwise_append.mpr ⟨hi.increasing, by simp, fun i hmem j hj => ?_⟩
        rw [List.mem_singleton.mp hj]
        exact hbelow i hmem
      · rw [h'] at he₁; cases he₁
        rcases List.mem_append.mp hmem with hmem | hmem
        · have := hbelow i hmem
          omega
        · rw [List.mem_singleton.mp hmem]; omega
  | created req env account hop hn ho h2 h' =>
    rw [hi.unused hn, h2]
    exact ⟨by simp [attachmentIdOf], fun _ => rfl, fun e _ i hmem => by simp [attachmentIdOf] at hmem⟩

theorem attachmentIds_run {ops : List Op} (hf : (machine S).Admissible (FreshId S) empty ops) (id : ShellId) :
    IdsInv (attachmentIds id ((machine S).trace empty ops)) ((machine S).run empty ops) id := by
  refine ((machine S).trace_induction (P := fun tr m => CapacityInv S m ∧ IdsInv (attachmentIds id tr) m id)
    ⟨capacityInv_empty S, List.Pairwise.nil, fun _ => rfl, fun _ _ _ hmem => by cases hmem⟩ ?_ hf).2
  intro tr m op hinv hok
  obtain ⟨hm, hi⟩ := hinv
  refine ⟨capacityInv_step hm hok, ?_⟩
  rw [attachmentIds_snoc]
  exact idsInv_step hm hok hi

theorem terminate_exited {m : Manager V} {id : ShellId} {e : ShellEntry V} (h : m.shells.lookup id = some e)
    {x : ExitSummary} (hx : e.runtime.exit = some x) (kill : Except PtyError Unit) :
    m.step S (.terminate id kill) = (m, .exit x) := by
  have ht : e.runtime.terminate kill = (e.runtime, some (.ok x)) := by simp [Runtime.terminate, hx]
  simp only [step, withEntry, h, ht, setRuntime_self h, Option.map_some, Option.getD_some, Res.ofExit]

/-! ## Whole runs -/

variable (S)

/-- The capacity invariants of the session core, in every state of every run. -/
theorem capacity_invariants (ops : List Op) (hf : (machine S).Admissible (FreshId S) empty ops) :
    let m := (machine S).run empty ops
    m.liveShells ≤ S.config.maxShells ∧
    (0 < S.config.maxShellsPerUser → ∀ user, m.liveShellsOf user ≤ S.config.maxShellsPerUser) ∧
    (∀ id e, m.find id = some e → e.runtime.attachments.card ≤ S.config.maxAttachmentsPerShell) ∧
    (∀ id, (attachmentIds id ((machine S).trace empty ops)).Pairwise (· < ·)) ∧
    -- whatever a shell was at an earlier point of the run, it only moved on from there
    (∀ pre post, ops = pre ++ post → ∀ id e, ((machine S).run empty pre).find id = some e →
      ∃ e', m.find id = some e' ∧ e.runtime.state.rank ≤ e'.runtime.state.rank ∧
        ∀ x, e.runtime.exit = some x → e'.runtime.exit = some x) ∧
    (∀ id e, m.find id = some e → (e.runtime.state = .exited ↔ e.runtime.exit.isSome = true)) ∧
    ∀ id e, m.shells.lookup id = some e → e.runtime.state = .exited →
      ∃ x, e.runtime.exit = some x ∧ ∀ kill, m.step S (.terminate id kill) = (m, .exit x) := by
  have hm := capacityInv_run (capacityInv_empty S) hf
  refine ⟨hm.live, hm.liveOf, fun id e he => (hm.shells id e he).room, fun id => (attachmentIds_run hf id).increasing,
    ?_, fun id e he => (hm.shells id e he).exited, ?_⟩
  · intro pre post hops id e he
    subst hops
    obtain ⟨hpre, hpost⟩ := (machine S).admissible_append.mp hf
    rw [Machine.run_append]
    obtain ⟨e', he', hmv⟩ := moves_run (capacityInv_run (capacityInv_empty S) hpre) hpost he
    exact ⟨e', he', hmv.state, hmv.exit⟩
  · intro id e he hst
    obtain ⟨x, hx⟩ := Option.isSome_iff_exists.mp ((hm.shells id e (find_of_lookup he)).exited.mp hst)
    exact ⟨x, hx, terminate_exited he hx⟩

/-- A terminate that waits while the pump sees the shell exit, and one after that. -/
theorem capacity_invariants_terminate_race :
    let ops := [sampleOpen "ada" 1 sampleShell, .terminate sampleShell (.ok ()), .pumpEof sampleShell (.ok ⟨true, 0⟩),
      .terminateWake sampleShell, .terminate sampleShell (.ok ())]
    (machine Server.sample).Admissible (FreshId Server.sample) empty ops ∧
      ((machine Server.sample).run empty ops).liveShells ≤ Server.sample.config.maxShells ∧
      ((machine Server.sample).trace empty ops).map (·.2) =
        [.opened ⟨sampleShell, .repeated 1, false⟩, .waiting, .done, .exit ⟨true, 0⟩, .exit ⟨true, 0⟩] :=
  ⟨by decide, (capacity_invariants Server.sample _ (by decide)).1, by decide⟩

end Manager

end Holdfast.Session

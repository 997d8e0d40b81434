/-
  Holdfast.Session.Ends — how the end of a shell shows to a client.

  A client learns that a shell is over from a list that does not show it as running, from
  an attach that is answered with "not found" or "not running", or from the exit event of
  an attachment. Each is about the moment of the answer; what makes it good for later is
  that a shell that does not run for a user never does again, as long as no new shell
  takes its id.

  Proved:
  - `runs_step`: a shell that does not run stays so.
  - `attach_gone`, `recv_gone`: the answers that mean it.
  - `exitsOver_step`: an exit is queued for an attachment only once the shell is over.
  - `exitsRecorded_step`, `terminate_recorded`: every exit that is reported is the recorded one.
-/

import Holdfast.Session.Stream

namespace Holdfast.Session

open Holdfast.Base Holdfast.Terminal

variable {V : Type} {S : Server V}

/-! ## One shell -/

/-- An exit waits in some attachment's queue only once the shell is over. -/
def ShellEntry.ExitsOver (e : ShellEntry V) : Prop :=
  ∀ i x, AttachmentEvent.exited x ∈ (e.runtime.channels i).queue → e.runtime.state = .exited

theorem Moves.exited {e e' : ShellEntry V} (h : Moves e e') (hx : e.runtime.state = .exited) :
    e'.runtime.state = .exited := by
  have hrank := h.state
  rw [hx] at hrank
  revert hrank
  cases e'.runtime.state <;> simp [ShellState.rank]

theorem queue_attaches {id : ShellId} {e : ShellEntry V} {cols rows : UInt16} {env : Runtime.AttachEnv}
    {rt' : Runtime V} {a : Attachment} (ha : Runtime.Attaches S id e.runtime cols rows env rt' a) (i : Nat)
    (x : AttachmentEvent) (hx : x ∈ (rt'.channels i).queue) : x ∈ (e.runtime.channels i).queue := by
  obtain ⟨rt₁, hr, rfl⟩ := ha.result
  have hs := Runtime.attachResize_same S hr
  rw [← hs.channels]
  simp only [Runtime.register, Runtime.rotateToken] at hx
  by_cases hi : i = rt₁.nextAttachmentId
  · subst hi
    rw [Function.update_self] at hx
    cases hx
  · rwa [Function.update_of_ne hi] at hx

theorem queue_trySend {c : SyncChannel AttachmentEvent} {ev x : AttachmentEvent} (h : x ∈ (c.trySend ev).2.queue) :
    x ∈ c.queue ∨ x = ev := by
  rcases SyncChannel.trySend_cases c ev with ⟨_, _, ht⟩ | ⟨_, _, ht⟩
  · rw [ht] at h
    simpa using h
  · rw [ht] at h; exact .inl h

theorem queue_recv {c : SyncChannel AttachmentEvent} {x : AttachmentEvent} (h : x ∈ c.recv.2.queue) : x ∈ c.queue := by
  unfold SyncChannel.recv at h
  split at h
  · exact h
  · split at h
    · rename_i hq; rw [hq]; exact List.mem_cons_of_mem _ h
    · exact h

/-- An exit in a queue was there before, or the pump has just recorded it. -/
theorem entryStep_queue {id : ShellId} {e e' : ShellEntry V} {op : Op} {res : Res} (hs : EntryStep S id e op res e')
    {i : Nat} {x : ExitSummary} (hx : AttachmentEvent.exited x ∈ (e'.runtime.channels i).queue) :
    AttachmentEvent.exited x ∈ (e.runtime.channels i).queue ∨ e'.runtime.exit = some x ∧ e'.runtime.state = .exited := by
  cases hs with
  | reopen req env => exact .inl hx
  | attach token cols rows env rt' a _ ha => exact .inl (queue_attaches ha i _ hx)
  | attachAuthorized cols rows env rt' a ha => exact .inl (queue_attaches ha i _ hx)
  | detach i => exact .inl hx
  | writeInput data env =>
    obtain ⟨pty, _, hw⟩ := e.runtime.writeInput_fst data env
    rw [hw] at hx
    exact .inl hx
  | resize cols rows outcome _ =>
    obtain ⟨pty, model, _, hw⟩ := e.runtime.resize_fst S cols rows outcome
    rw [hw] at hx
    exact .inl hx
  | terminate kill =>
    rcases e.runtime.terminate_fst kill with ⟨_, _, hw⟩ | ⟨_, hw⟩ <;> rw [hw] at hx <;> exact .inl hx
  | terminateWake =>
    rcases e.runtime.terminateWake_fst with ⟨_, hw⟩ | ⟨_, _, hw⟩ <;> rw [hw] at hx <;> exact .inl hx
  | pumpChunk chunk hp =>
    simp only [Runtime.pumpChunk, Runtime.fanOut] at hx
    split at hx
    · rcases queue_trySend hx with hx | hx
      · exact .inl hx
      · cases hx
    · exact .inl hx
  | pumpEof wait hp =>
    simp only [Runtime.pumpEof, Runtime.fanOut] at hx
    split at hx
    · rcases queue_trySend hx with hx | hx
      · exact .inl hx
      · cases hx
        exact .inr ⟨rfl, rfl⟩
    · exact .inl hx
  | recv j =>
    simp only [Runtime.recv] at hx
    by_cases hj : i = j
    · subst hj
      rw [Function.update_self] at hx
      exact .inl (queue_recv hx)
    · rw [Function.update_of_ne hj] at hx
      exact .inl hx
  | dropReceiver j =>
    simp only [Runtime.dropReceiver] at hx
    by_cases hj : i = j
    · subst hj
      rw [Function.update_self] at hx
      cases hx
    · rw [Function.update_of_ne hj] at hx
      exact .inl hx

theorem entryStep_exitsOver {id : ShellId} {e e' : ShellEntry V} {op : Op} {res : Res}
    (hs : EntryStep S id e op res e') (hinv : ShellInv S e) (h : e.ExitsOver) : e'.ExitsOver := by
  intro i x hx
  rcases entryStep_queue hs hx with hx | hx
  · exact (entryStep_inv hs hinv).2.exited (h i x hx)
  · exact hx.2

/-- An exit in an attachment's queue is the recorded one. -/
def ShellEntry.ExitsRecorded (e : ShellEntry V) : Prop :=
  ∀ i x, AttachmentEvent.exited x ∈ (e.runtime.channels i).queue → e.runtime.exit = some x

theorem entryStep_exitsRecorded {id : ShellId} {e e' : ShellEntry V} {op : Op} {res : Res}
    (hs : EntryStep S id e op res e') (hinv : ShellInv S e) (h : e.ExitsRecorded) : e'.ExitsRecorded := by
  intro i x hx
  rcases entryStep_queue hs hx with hx | hx
  · exact (entryStep_inv hs hinv).2.exit x (h i x hx)
  · exact hx.1

/-! ## The shells of a user -/

namespace Manager

/-- What `ListShells` answers to `user` about `id`: it is there and running. -/
def runs (m : Manager V) (user : String) (id : ShellId) : Bool :=
  (m.listShells.filter fun info => info.owner = user).any fun info => info.shellId = id && info.state = .running

theorem mem_listShells {m : Manager V} {info : ShellInfo} :
    info ∈ m.listShells ↔ ∃ id e, m.shells.lookup id = some e ∧ info = infoOf e := by
  simp only [listShells, List.mem_mergeSort, List.mem_map, Table.values]
  constructor
  · intro h
    obtain ⟨e, ⟨⟨id, e'⟩, hmem, rfl⟩, rfl⟩ := h
    exact ⟨id, e', Table.mem_entries_iff.mp hmem, rfl⟩
  · intro h
    obtain ⟨id, e, hl, rfl⟩ := h
    exact ⟨e, ⟨⟨id, e⟩, Table.mem_entries_iff.mpr hl, rfl⟩, rfl⟩

theorem runs_iff {m : Manager V} (hk : Keyed m) {user : String} {id : ShellId} :
    m.runs user id = true ↔ ∃ e, m.shells.lookup id = some e ∧ e.owner = user ∧ e.runtime.state = .running := by
  simp only [runs, List.any_eq_true, List.mem_filter, decide_eq_true_eq, Bool.and_eq_true]
  constructor
  · intro h
    obtain ⟨info, ⟨hmem, howner⟩, hid, hstate⟩ := h
    obtain ⟨id', e, hl, rfl⟩ := mem_listShells.mp hmem
    have : id' = id := (hk.shells id' e hl).symm.trans hid
    subst this
    exact ⟨e, hl, howner, hstate⟩
  · intro h
    obtain ⟨e, hl, howner, hstate⟩ := h
    exact ⟨infoOf e, ⟨mem_listShells.mpr ⟨id, e, hl, rfl⟩, howner⟩, hk.shells id e hl, hstate⟩

theorem runs_eq_false {m : Manager V} (hk : Keyed m) {user : String} {id : ShellId}
    (h : ∀ e, m.shells.lookup id = some e → e.owner = user → e.runtime.state ≠ .running) : m.runs user id = false := by
  cases hr : m.runs user id with
  | false => rfl
  | true =>
    obtain ⟨e, hl, howner, hstate⟩ := (runs_iff hk).mp hr
    exact absurd hstate (h e hl howner)

/-- A shell that does not run for a user never does again, if no new one takes its id. -/
theorem runs_step {m : Manager V} (h : CapacityInv S m) {op : Op} {user : String} {id : ShellId}
    (hnew : ∀ token, (m.step S op).2 ≠ .opened ⟨id, token, false⟩) (hr : m.runs user id = false) :
    (m.step S op).1.runs user id = false := by
  have hgone : ∀ e, m.shells.lookup id = some e → e.owner = user → e.runtime.state ≠ .running := by
    intro e hl howner hstate
    rw [(runs_iff h.keyed).mpr ⟨e, hl, howner, hstate⟩] at hr
    cases hr
  refine runs_eq_false (keyed_step S h.keyed op) ?_
  intro e' hl' howner
  cases step_at S h.keyed op id with
  | kept hl _ => exact hgone e' (hl ▸ hl') howner
  | changed e e'' hl hs h' =>
    rw [hl'] at h'; cases h'
    have hm := (entryStep_inv hs (h.shells id e (find_of_lookup hl))).2
    exact hm.not_running (hgone e hl (hs.owner_eq ▸ howner))
  | created req env account _ _ _ h2 _ => exact absurd h2 (hnew _)
  | removed e _ _ _ _ h' => rw [hl'] at h'; cases h'

/-- The answers to an attach that mean the shell is gone. -/
theorem attach_gone {m : Manager V} (hk : Keyed m) {user : String} {id : ShellId} {token : ResumeToken}
    {cols rows : UInt16} {env : Runtime.AttachEnv} {err : SessionError}
    (herr : (m.step S (.attach user id token cols rows env)).2 = .err err)
    (hgone : err = .shellNotFound ∨ err = .notRunning) :
    (m.step S (.attach user id token cols rows env)).1.runs user id = false := by
  refine runs_eq_false (keyed_step S hk _) ?_
  simp only [step, attach, withEntry] at herr ⊢
  cases hl : m.shells.lookup id with
  | none =>
    intro e he
    rw [hl] at he; cases he
  | some e =>
    simp only [hl] at herr ⊢
    intro e' he' howner
    rw [setRuntime_eq hl, Table.lookup_adjust_same, hl, Option.map_some] at he'
    cases he'
    by_cases ho : e.owner = user
    · simp only [ho, ne_eq, not_true_eq_false, if_false] at herr ⊢
      unfold Runtime.attachWithToken at herr ⊢
      split at herr
      · split at herr <;> cases herr <;> simp at hgone
      · rename_i htoken
        rw [if_neg htoken]
        rcases Runtime.attachRuntime_cases S id e.runtime cols rows env with
          ⟨err', hres, hwhy⟩ | ⟨rt', a, hres, hat⟩
        · rw [hres] at herr ⊢
          cases herr
          rcases hwhy with ⟨hstate, _⟩ | ⟨_, _, rfl⟩ | ⟨_, _, pe, rfl⟩
          · exact hstate
          · simp at hgone
          · simp at hgone
        · rw [hres] at herr; cases herr
    · exact absurd howner ho

/-! ## Exits -/

/-- `ExitsOver` of the shell called `id`. -/
def ExitsOver (m : Manager V) (id : ShellId) : Prop := ∀ e, m.find id = some e → e.ExitsOver

theorem exitsOver_step {m : Manager V} (h : CapacityInv S m) {op : Op} (hf : FreshId S m op) {id : ShellId}
    (hx : m.ExitsOver id) : (m.step S op).1.ExitsOver id := by
  intro e' he'
  cases find_step S h.keyed hf id with
  | kept hl _ => exact hx e' (hl ▸ he')
  | changed e e'' hl hs h' =>
    rw [he'] at h'; cases h'
    exact entryStep_exitsOver hs (h.shells id e hl) (hx e hl)
  | created req env account _ _ _ _ h' =>
    rw [he'] at h'; cases h'
    intro i x hmem
    cases hmem

theorem exitsOver_run {ops : List Op} (hf : (machine S).Admissible (FreshId S) empty ops) (id : ShellId) :
    ((machine S).run empty ops).ExitsOver id := by
  have hrun := (machine S).run_induction (P := fun m => CapacityInv S m ∧ m.ExitsOver id)
    (fun m op hm hok => ⟨capacityInv_step hm.1 hok, exitsOver_step hm.1 hok hm.2⟩)
    ⟨capacityInv_empty S, fun e he => (by cases he)⟩ hf
  exact hrun.2

/-- `ExitsRecorded` of the shell called `id`. -/
def ExitsRecorded (m : Manager V) (id : ShellId) : Prop := ∀ e, m.find id = some e → e.ExitsRecorded

theorem exitsRecorded_step {m : Manager V} (h : CapacityInv S m) {op : Op} (hf : FreshId S m op) {id : ShellId}
    (hx : m.ExitsRecorded id) : (m.step S op).1.ExitsRecorded id := by
  intro e' he'
  cases find_step S h.keyed hf id with
  | kept hl _ => exact hx e' (hl ▸ he')
  | changed e e'' hl hs h' =>
    rw [he'] at h'; cases h'
    exact entryStep_exitsRecorded hs (h.shells id e hl) (hx e hl)
  | created req env account _ _ _ _ h' =>
    rw [he'] at h'; cases h'
    intro i x hmem
    cases hmem

/-- What a thread that holds an entry answers: it has ended, or it answers for that entry. -/
theorem withHeld_res {m : Manager V} {id : ShellId} {f : ShellEntry V → ShellEntry V × Res} {res : Res}
    (h : (m.withHeld id f).2 = res) (hres : res ≠ .idle) : ∃ e, m.find id = some e ∧ (f e).2 = res := by
  unfold withHeld at h
  cases hl : m.shells.lookup id with
  | some e =>
    simp only [hl] at h
    exact ⟨e, find_of_lookup hl, h⟩
  | none =>
    cases hr : m.retired.lookup id with
    | some e =>
      simp only [hl, hr] at h
      exact ⟨e, by simp [find, hl, hr], h⟩
    | none =>
      simp only [hl, hr] at h
      exact absurd h.symm hres

/-- A received exit was in the queue. -/
theorem recv_queued {m : Manager V} {id : ShellId} {i : Nat} {x : ExitSummary}
    (hres : (m.step S (.recv id i)).2 = .event (some (.exited x))) :
    ∃ e, m.find id = some e ∧ AttachmentEvent.exited x ∈ (e.runtime.channels i).queue := by
  obtain ⟨e, he, hev⟩ := withHeld_res hres (by simp)
  refine ⟨e, he, ?_⟩
  simp only [Runtime.recv, SyncChannel.recv] at hev
  split at hev
  · cases hev
  · split at hev
    · rename_i hq
      cases hev
      rw [hq]; exact List.mem_cons_self
    · cases hev

/-- An exit event means the shell is gone. -/
theorem recv_gone {m : Manager V} (hk : Keyed m) {id : ShellId} (hx : m.ExitsOver id) {i : Nat} {x : ExitSummary}
    (hres : (m.step S (.recv id i)).2 = .event (some (.exited x))) (user : String) :
    m.runs user id = false := by
  obtain ⟨e, he, hmem⟩ := recv_queued hres
  refine runs_eq_false hk ?_
  intro e' hl _ hstate
  rw [find_of_lookup hl] at he
  cases he
  rw [hx e (find_of_lookup hl) i x hmem] at hstate
  cases hstate

/-- A `terminate` that answers with an exit answers with the recorded one. -/
theorem terminate_recorded {m : Manager V} {id : ShellId} {kill : Except PtyError Unit} {x : ExitSummary}
    (hres : (m.step S (.terminate id kill)).2 = .exit x) : ∃ e, m.find id = some e ∧ e.runtime.exit = some x := by
  simp only [step, withEntry] at hres
  cases hl : m.shells.lookup id with
  | none =>
    simp only [hl] at hres
    cases hres
  | some e =>
    simp only [hl] at hres
    refine ⟨e, find_of_lookup hl, ?_⟩
    unfold Runtime.terminate at hres
    split at hres
    · rename_i exit hx
      cases hres
      exact hx
    · simp only at hres
      split at hres
      · split at hres <;> cases hres
      · cases hres

theorem terminateWake_recorded {m : Manager V} {id : ShellId} {x : ExitSummary}
    (hres : (m.step S (.terminateWake id)).2 = .exit x) : ∃ e, m.find id = some e ∧ e.runtime.exit = some x := by
  obtain ⟨e, he, hexit⟩ := withHeld_res hres (by simp)
  refine ⟨e, he, ?_⟩
  simp only [Runtime.terminateWake] at hexit
  split at hexit
  · cases hexit
  · rename_i hx
    cases hexit
    exact hx

end Manager

end Holdfast.Session

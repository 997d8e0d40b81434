/-
  Holdfast.Session.Reaper — idle reaping (`ShellManager::reap_idle` of
  `crates/session-core/src/lib.rs`) over whole runs.

  The shell manager runs beside a clock and any number of `reap_idle` calls (`passes`). A
  pass reads the clock once, scans the map under the manager lock for its candidates, then
  takes them one after the other: a re-check under the runtime lock, a `terminate`, the
  end of its wait. Between any two of these sections anything else may run.

  `reap_idle` is to end the shells that sat running with zero attachments for longer than
  the TTL, but counts from the last attach, or the creation (`Manager.idleAnchorMs`), not
  from the moment the last attachment left: a shell detached a moment ago goes as well
  (`reap_idle_kills_the_attached`). An attach may still land between a re-check and its
  kill, as it may with a manual terminate.

  Proved:
  - `anchor_step`: one step keeps a shell's anchor and its attachment counter, or moves
    the anchor to the clock.
  - `quiet_since`: no attach succeeded at an instant later than the anchor.
  - `anchor_idle`: a shell without attachments keeps its anchor.
  - `reap_idle_kills_the_idle`: what a pass kills was running and without attachments at
    its re-check, and nobody attached to it since the TTL before the pass; what was
    running without attachments for the whole TTL is among the candidates.
  - `reap_idle_spares_the_attached`: where no attachment leaves a shell within the TTL
    before a pass that re-checks it, and no attach lands between that and the kill, what a
    pass kills had no attachment for the whole TTL.
-/

import Holdfast.Session.Capacity

namespace Holdfast.Session

open Holdfast.Base Holdfast.Terminal

variable {V : Type} (S : Server V)

/-! ## The machine -/

/-- Where a `reap_idle` call is: before its scan, before the re-check of the next
    candidate, between that and its `terminate`, in the wait of the `terminate`. -/
inductive ReapPhase where
  | started
  | checking (candidates : List ShellId)
  | killing (id : ShellId) (rest : List ShellId)
  | waiting (id : ShellId) (rest : List ShellId)
  deriving DecidableEq, Repr

structure ReapPass where
  /-- The clock when the pass read it. -/
  nowMs : Int
  idleTtlMs : Nat
  phase : ReapPhase
  reaped : List (String × ShellId × ExitSummary)
  deriving DecidableEq, Repr

def ReapPass.cutoff (p : ReapPass) : Int := Manager.reapCutoff p.nowMs p.idleTtlMs

structure Reaper (V : Type) where
  manager : Manager V
  clock : Int
  passes : List ReapPass

inductive ReaperInput where
  | tick (now : Int)
  | call (op : Op)
  | reapIdle (idleTtlMs : Nat)
  | reapScan (pass : Nat)
  | reapRecheck (pass : Nat)
  | reapKill (pass : Nat) (kill : Except PtyError Unit)
  | reapWake (pass : Nat)

/-- The clock reading a call takes. -/
def Op.clock : Op → Option Int
  | .openShell _ env => some env.now
  | .attach _ _ _ _ _ env => some env.now
  | .attachAuthorized _ _ _ _ env => some env.now
  | _ => none

namespace Reaper

def start (clock : Int) : Reaper V := ⟨.empty, clock, []⟩

def setPass (s : Reaper V) (i : Nat) (m : Manager V) (p : ReapPass) : Reaper V :=
  { s with manager := m, passes := s.passes.set i p }

/-- `if let Ok(exit) = self.terminate(&entry.id) { reaped.push(..) }`, once the call is over. -/
def report (s : Reaper V) (p : ReapPass) (id : ShellId) (rest : List ShellId) : Res → ReapPass
  | .exit x =>
    { p with
      phase := .checking rest
      reaped := p.reaped ++ [(((s.manager.find id).map (·.owner)).getD "", id, x)] }
  | .waiting => { p with phase := .waiting id rest }
  | _ => { p with phase := .checking rest }

def scanned (p : ReapPass) : Res → ReapPass
  | .candidates ids => { p with phase := .checking ids }
  | _ => p

def rechecked (p : ReapPass) (id : ShellId) (rest : List ShellId) : Res → ReapPass
  | .expired true => { p with phase := .killing id rest }
  | _ => { p with phase := .checking rest }

/-- The section a pass enters with this input, if it is that far: the manager's part in
    it, and what it makes of the answer. -/
def nextSection (s : Reaper V) (p : ReapPass) : ReaperInput → Option (Op × (Res → ReapPass))
  | .reapScan _ =>
    match p.phase with
    | .started => some (.reapScan p.cutoff, scanned p)
    | _ => none
  | .reapRecheck _ =>
    match p.phase with
    | .checking (id :: rest) => some (.reapRecheck id p.cutoff, rechecked p id rest)
    | _ => none
  | .reapKill _ kill =>
    match p.phase with
    | .killing id rest => some (.terminate id kill, s.report p id rest)
    | _ => none
  | .reapWake _ =>
    match p.phase with
    | .waiting id rest => some (.terminateWake id, s.report p id rest)
    | _ => none
  | _ => none

def enter (s : Reaper V) (i : Nat) (input : ReaperInput) : Reaper V × Res :=
  match s.passes[i]? with
  | none => (s, .idle)
  | some p =>
    match s.nextSection p input with
    | none => (s, .idle)
    | some (op, f) =>
      let r := s.manager.step S op
      (s.setPass i r.1 (f r.2), r.2)

def step (s : Reaper V) : ReaperInput → Reaper V × Res
  | .tick now => ({ s with clock := now }, .done)
  | .call op =>
    let r := s.manager.step S op
    ({ s with manager := r.1 }, r.2)
  | .reapIdle ttl => ({ s with passes := s.passes ++ [⟨s.clock, ttl, .started, []⟩] }, .done)
  | .reapScan i => s.enter S i (.reapScan i)
  | .reapRecheck i => s.enter S i (.reapRecheck i)
  | .reapKill i kill => s.enter S i (.reapKill i kill)
  | .reapWake i => s.enter S i (.reapWake i)

def machine : Machine (Reaper V) ReaperInput Res := ⟨fun s i => s.step S i⟩

/-- The clock never goes back nor past an `i64`, and calls read it; shell ids are fresh. -/
def timely (s : Reaper V) : ReaperInput → Bool
  | .tick now => decide (s.clock ≤ now ∧ now < 2 ^ 63)
  | .call op => Manager.freshId S s.manager op && decide (∀ t ∈ op.clock, t = s.clock)
  | _ => true

abbrev Timely (s : Reaper V) (i : ReaperInput) : Prop := timely S s i = true

end Reaper

/-! ## One step -/

/-- A step gives an entry a new last attach, with the clock the call read, or leaves its
    anchor and its attachment counter alone. -/
theorem EntryStep.anchor {S : Server V} {id : ShellId} {e e' : ShellEntry V} {op : Op} {res : Res}
    (hs : EntryStep S id e op res e') :
    e'.createdAtMs = e.createdAtMs ∧
    (op.clock = some e'.runtime.lastAttachedAtMs ∧ e'.runtime.attachments ≠ ∅ ∨
      e'.runtime.lastAttachedAtMs = e.runtime.lastAttachedAtMs ∧
        e'.runtime.nextAttachmentId = e.runtime.nextAttachmentId) := by
  have hattach : ∀ {cols rows env rt' a}, Runtime.Attaches S id e.runtime cols rows env rt' a →
      env.now = rt'.lastAttachedAtMs ∧ rt'.attachments ≠ ∅ := by
    intro cols rows env rt' a ha
    obtain ⟨rt₁, _, rfl⟩ := ha.result
    exact ⟨rfl, Finset.insert_ne_empty _ _⟩
  cases hs with
  | attach token cols rows env rt' a _ ha =>
    obtain ⟨hnow, hne⟩ := hattach ha
    exact ⟨rfl, .inl ⟨congrArg some hnow, hne⟩⟩
  | attachAuthorized cols rows env rt' a ha =>
    obtain ⟨hnow, hne⟩ := hattach ha
    exact ⟨rfl, .inl ⟨congrArg some hnow, hne⟩⟩
  | writeInput data env =>
    obtain ⟨pty, _, hw⟩ := e.runtime.writeInput_fst data env
    rw [hw]
    exact ⟨rfl, .inr ⟨rfl, rfl⟩⟩
  | resize cols rows outcome _ =>
    obtain ⟨pty, model, _, hw⟩ := e.runtime.resize_fst S cols rows outcome
    rw [hw]
    exact ⟨rfl, .inr ⟨rfl, rfl⟩⟩
  | terminate kill =>
    rcases e.runtime.terminate_fst kill with ⟨_, _, hw⟩ | ⟨_, hw⟩
    · rw [hw]; exact ⟨rfl, .inr ⟨rfl, rfl⟩⟩
    · rw [hw]; exact ⟨rfl, .inr ⟨rfl, rfl⟩⟩
  | terminateWake =>
    rcases e.runtime.terminateWake_fst with ⟨_, hw⟩ | ⟨_, _, hw⟩
    · rw [hw]; exact ⟨rfl, .inr ⟨rfl, rfl⟩⟩
    · rw [hw]; exact ⟨rfl, .inr ⟨rfl, rfl⟩⟩
  | _ => exact ⟨rfl, .inr ⟨rfl, rfl⟩⟩

namespace Reaper

variable {S}

theorem nextSection_clock {s : Reaper V} {p : ReapPass} {i : ReaperInput} {op : Op} {f : Res → ReapPass}
    (h : s.nextSection p i = some (op, f)) : op.clock = none := by
  unfold nextSection at h
  split at h
  all_goals first | cases h | (split at h <;> cases h; rfl)

theorem enter_manager (s : Reaper V) (i : Nat) (input : ReaperInput) :
    ∃ op, op.clock = none ∧ (s.enter S i input).1.manager = (s.manager.step S op).1 := by
  unfold enter
  split
  · exact ⟨.reapScan 0, rfl, rfl⟩
  · rename_i p _
    split
    · exact ⟨.reapScan 0, rfl, rfl⟩
    · rename_i op f h
      exact ⟨op, nextSection_clock h, rfl⟩

/-- To the manager every step is one of its own, at the time of the clock; what a pass
    does reads no clock. -/
theorem manager_step {s : Reaper V} {i : ReaperInput} (h : Timely S s i) :
    ∃ op, Manager.FreshId S s.manager op ∧ (∀ t, op.clock = some t → t = s.clock) ∧
      (i = .call op ∨ op.clock = none) ∧ ((machine S).next s i).manager = (s.manager.step S op).1 := by
  have hpass : ∀ n input, ∃ op, Manager.FreshId S s.manager op ∧ (∀ t, op.clock = some t → t = s.clock) ∧
      (i = .call op ∨ op.clock = none) ∧ (s.enter S n input).1.manager = (s.manager.step S op).1 := by
    intro n input
    obtain ⟨op, hc, he⟩ := s.enter_manager n input
    refine ⟨op, Manager.freshId_of_not_open S (by cases op <;> first | rfl | cases hc), ?_, .inr hc, he⟩
    intro t ht
    rw [hc] at ht
    cases ht
  cases i with
  | tick now => exact ⟨.reapScan 0, rfl, nofun, .inr rfl, rfl⟩
  | call op =>
    simp only [Timely, timely, Bool.and_eq_true, decide_eq_true_eq, Option.mem_def] at h
    exact ⟨op, h.1, h.2, .inl rfl, rfl⟩
  | reapIdle ttl => exact ⟨.reapScan 0, rfl, nofun, .inr rfl, rfl⟩
  | reapScan n => exact hpass n _
  | reapRecheck n => exact hpass n _
  | reapKill n kill => exact hpass n _
  | reapWake n => exact hpass n _

theorem enter_clock (s : Reaper V) (i : Nat) (input : ReaperInput) : (s.enter S i input).1.clock = s.clock := by
  unfold enter
  split
  · rfl
  · split <;> rfl

theorem clock_step {s : Reaper V} {i : ReaperInput} (h : Timely S s i) (hc : s.clock < 2 ^ 63) :
    s.clock ≤ ((machine S).next s i).clock ∧ ((machine S).next s i).clock < 2 ^ 63 := by
  have hpass : ∀ n input, s.clock ≤ (s.enter S n input).1.clock ∧ (s.enter S n input).1.clock < 2 ^ 63 := by
    intro n input
    rw [enter_clock]
    exact ⟨le_rfl, hc⟩
  cases i with
  | tick now => exact of_decide_eq_true h
  | call op => exact ⟨le_rfl, hc⟩
  | reapIdle ttl => exact ⟨le_rfl, hc⟩
  | reapScan n => exact hpass n _
  | reapRecheck n => exact hpass n _
  | reapKill n kill => exact hpass n _
  | reapWake n => exact hpass n _

/-! ## The anchor -/

variable (S)

structure ClockInv (s : Reaper V) : Prop where
  capacity : Manager.CapacityInv S s.manager
  clock : 0 ≤ s.clock ∧ s.clock < 2 ^ 63
  created : ∀ id e, s.manager.find id = some e → 0 ≤ e.createdAtMs ∧ e.createdAtMs ≤ s.clock
  attached : ∀ id e, s.manager.find id = some e →
    0 ≤ e.runtime.lastAttachedAtMs ∧ e.runtime.lastAttachedAtMs ≤ s.clock

variable {S}

/-- What a step does to a shell's anchor: it moves to the clock, with a new attachment or
    a new shell, or it stays, and so does the attachment counter. -/
theorem anchor_step {s : Reaper V} (hi : ClockInv S s) {op : Op} (hf : Manager.FreshId S s.manager op)
    (ht : ∀ t, op.clock = some t → t = s.clock) {id : ShellId} {e' : ShellEntry V}
    (he' : (s.manager.step S op).1.find id = some e') :
    (0 ≤ e'.createdAtMs ∧ e'.createdAtMs ≤ s.clock ∧
      0 ≤ e'.runtime.lastAttachedAtMs ∧ e'.runtime.lastAttachedAtMs ≤ s.clock) ∧
    (Manager.idleAnchorMs e' = s.clock ∧ (s.manager.find id = none ∨ e'.runtime.attachments ≠ ∅) ∨
      ∃ e, s.manager.find id = some e ∧ Manager.idleAnchorMs e' = Manager.idleAnchorMs e ∧ Moves e e' ∧
        e'.runtime.nextAttachmentId = e.runtime.nextAttachmentId) := by
  have hclock := hi.clock
  cases Manager.find_step S hi.capacity.keyed hf id with
  | kept hl _ =>
    rw [hl] at he'
    have hc := hi.created id e' he'
    have ha := hi.attached id e' he'
    exact ⟨⟨hc.1, hc.2, ha.1, ha.2⟩, .inr ⟨e', he', rfl, .refl e', rfl⟩⟩
  | changed e e'' hl hs h' =>
    rw [he'] at h'
    cases h'
    have hc := hi.created id e hl
    have ha := hi.attached id e hl
    obtain ⟨hcreated, ⟨hnow, hne⟩ | ⟨hlast, hnext⟩⟩ := hs.anchor
    · have hnow := ht _ hnow
      refine ⟨by omega, .inl ⟨?_, .inr hne⟩⟩
      -- at clock 0 the anchor is the creation, which then is 0 too
      unfold Manager.idleAnchorMs
      split <;> omega
    · refine ⟨by omega, .inr ⟨e, hl, ?_, (entryStep_inv hs (hi.capacity.shells id e hl)).2, hnext⟩⟩
      simp only [Manager.idleAnchorMs, hlast, hcreated]
  | created req env account hop hn _ _ h' =>
    rw [he'] at h'
    cases h'
    have hnow : env.now = s.clock := ht _ (by rw [hop]; rfl)
    refine ⟨?_, .inl ⟨hnow, .inl hn⟩⟩
    show 0 ≤ env.now ∧ env.now ≤ s.clock ∧ (0 : Int) ≤ 0 ∧ 0 ≤ s.clock
    omega

theorem clockInv_start {clock : Int} (h : 0 ≤ clock ∧ clock < 2 ^ 63) : ClockInv S (start clock) where
  capacity := Manager.capacityInv_empty S
  clock := h
  created _ _ he := by cases he
  attached _ _ he := by cases he

theorem clockInv_step {s : Reaper V} (hi : ClockInv S s) {i : ReaperInput} (h : Timely S s i) :
    ClockInv S ((machine S).next s i) := by
  obtain ⟨op, hf, ht, _, hm⟩ := manager_step h
  have hc := clock_step h hi.clock.2
  have hclock := hi.clock
  refine ⟨?_, by omega, ?_, ?_⟩
  · rw [hm]
    exact Manager.capacityInv_step hi.capacity hf
  · intro id e he
    rw [hm] at he
    have := (anchor_step hi hf ht he).1
    omega
  · intro id e he
    rw [hm] at he
    have := (anchor_step hi hf ht he).1
    omega

theorem clockInv_run {s : Reaper V} (hi : ClockInv S s) {is : List ReaperInput}
    (h : (machine S).Admissible (Timely S) s is) : ClockInv S ((machine S).run s is) :=
  (machine S).run_induction (P := ClockInv S) (fun _ _ hs hok => clockInv_step hs hok) hi h

theorem clock_run {s : Reaper V} (hi : ClockInv S s) {is : List ReaperInput}
    (h : (machine S).Admissible (Timely S) s is) : s.clock ≤ ((machine S).run s is).clock := by
  refine ((machine S).run_induction (P := fun t => ClockInv S t ∧ s.clock ≤ t.clock) ?_ ⟨hi, le_rfl⟩ h).2
  intro t i ht hok
  exact ⟨clockInv_step ht.1 hok, ht.2.trans (clock_step hok ht.1.clock.2).1⟩

/-! ## Histories -/

/-- At an instant later than the anchor the shell was there already, and its attachment
    counter has not moved since: no attach succeeded. -/
theorem quiet_since {s : Reaper V} (hi : ClockInv S s) {is : List ReaperInput}
    (h : (machine S).Admissible (Timely S) s is) {id : ShellId} {e' : ShellEntry V}
    (he' : ((machine S).run s is).manager.find id = some e') (hlater : Manager.idleAnchorMs e' < s.clock) :
    ∃ e, s.manager.find id = some e ∧ Moves e e' ∧ e'.runtime.nextAttachmentId = e.runtime.nextAttachmentId := by
  induction is using List.reverseRecOn generalizing e' with
  | nil => exact ⟨e', he', .refl e', rfl⟩
  | append_singleton is i ih =>
    obtain ⟨his, hok⟩ := (machine S).admissible_snoc.mp h
    have hi' := clockInv_run hi his
    obtain ⟨op, hf, ht, _, hm⟩ := manager_step hok
    rw [Machine.run_snoc, hm] at he'
    rcases (anchor_step hi' hf ht he').2 with ⟨hanchor, _⟩ | ⟨e₁, he₁, hanchor, hmv, hnext⟩
    · have := clock_run hi his
      omega
    · obtain ⟨e, he, hmv', hnext'⟩ := ih his he₁ (by omega)
      exact ⟨e, he, hmv'.trans hmv, hnext.trans hnext'⟩

/-- As long as a shell has no attachment its anchor stays. -/
theorem anchor_idle {s : Reaper V} (hi : ClockInv S s) {is : List ReaperInput}
    (h : (machine S).Admissible (Timely S) s is) {id : ShellId} {e : ShellEntry V} (he : s.manager.find id = some e)
    (hidle : ∀ a b, is = a ++ b → ∀ e', ((machine S).run s a).manager.find id = some e' →
      e'.runtime.attachments = ∅) {e' : ShellEntry V} (he' : ((machine S).run s is).manager.find id = some e') :
    Manager.idleAnchorMs e' = Manager.idleAnchorMs e := by
  induction is generalizing s e with
  | nil =>
    rw [Machine.run_nil, he] at he'
    cases he'
    rfl
  | cons i is ih =>
    obtain ⟨op, hf, ht, _, hm⟩ := manager_step h.1
    obtain ⟨e₁, he₁, _⟩ := Manager.moves_step hi.capacity hf he
    have hempty := hidle [i] is rfl e₁ (by rw [Machine.run_cons, Machine.run_nil, hm]; exact he₁)
    have hlast := ih (clockInv_step hi h.1) h.2 (by rw [hm]; exact he₁)
      (fun a b hab => hidle (i :: a) b (by rw [hab]; rfl)) he'
    rcases (anchor_step hi hf ht he₁).2 with ⟨_, hn | hne⟩ | ⟨e₀, he₀, hanchor, _⟩
    · rw [he] at hn; cases hn
    · exact absurd hempty hne
    · rw [he] at he₀
      cases he₀
      rw [hlast, hanchor]

/-- A shell that is running was running before. -/
theorem running_before {s : Reaper V} (hi : ClockInv S s) {is : List ReaperInput}
    (h : (machine S).Admissible (Timely S) s is) {id : ShellId} {e e' : ShellEntry V}
    (he : s.manager.find id = some e) (he' : ((machine S).run s is).manager.find id = some e')
    (hrun : e'.runtime.state = .running) : e.runtime.state = .running := by
  have hmoves : ∃ e'', ((machine S).run s is).manager.find id = some e'' ∧ Moves e e'' := by
    refine ((machine S).run_induction
      (P := fun t => ClockInv S t ∧ ∃ e'', t.manager.find id = some e'' ∧ Moves e e'') ?_ ⟨hi, e, he, .refl e⟩ h).2
    rintro t i ⟨ht, e₁, he₁, hmv⟩ hok
    obtain ⟨op, hf, _, _, hm⟩ := manager_step hok
    obtain ⟨e₂, he₂, hmv'⟩ := Manager.moves_step ht.capacity hf he₁
    exact ⟨clockInv_step ht hok, e₂, by rw [hm]; exact he₂, hmv.trans hmv'⟩
  obtain ⟨e'', he'', hmv⟩ := hmoves
  rw [he'] at he''
  cases he''
  by_contra hne
  exact hmv.not_running hne hrun

/-! ## Passes -/

/-- The section a pass runs keeps what it read at its start. It sends the pass on to kill
    a shell only where it re-checked that one. -/
theorem nextSection_spec {s : Reaper V} {p : ReapPass} {i : ReaperInput} {op : Op} {f : Res → ReapPass}
    (h : s.nextSection p i = some (op, f)) (r : Res) :
    ((f r).nowMs = p.nowMs ∧ (f r).idleTtlMs = p.idleTtlMs) ∧
    ∀ id rest, (f r).phase = .killing id rest →
      (∃ n, i = .reapRecheck n) ∧ (∃ l, p.phase = .checking (id :: l)) ∧ op = .reapRecheck id p.cutoff ∧
        r = .expired true := by
  unfold nextSection at h
  split at h
  · split at h
    · cases h
      cases r <;> simp_all [scanned]
    · cases h
  · split at h
    · rename_i hphase
      cases h
      unfold rechecked
      split
      · refine ⟨⟨rfl, rfl⟩, ?_⟩
        intro id rest hk
        cases hk
        exact ⟨⟨_, rfl⟩, ⟨_, hphase⟩, rfl, rfl⟩
      · exact ⟨⟨rfl, rfl⟩, nofun⟩
    · cases h
  · split at h
    · cases h
      unfold report
      split <;> exact ⟨⟨rfl, rfl⟩, nofun⟩
    · cases h
  · split at h
    · cases h
      unfold report
      split <;> exact ⟨⟨rfl, rfl⟩, nofun⟩
    · cases h
  · cases h

theorem enter_passes {s : Reaper V} {n k : Nat} {input : ReaperInput} {p' : ReapPass}
    (h : (s.enter S n input).1.passes[k]? = some p') :
    s.passes[k]? = some p' ∨
    k = n ∧ ∃ p op f, s.passes[n]? = some p ∧ s.nextSection p input = some (op, f) ∧ p' = f (s.manager.step S op).2 := by
  unfold enter at h
  split at h
  · exact .inl h
  · rename_i p hp
    split at h
    · exact .inl h
    · rename_i op f hsec
      replace h : (s.passes.set n (f (s.manager.step S op).2))[k]? = some p' := h
      by_cases hk : n = k
      · subst hk
        rw [List.getElem?_set_self' , hp] at h
        cases h
        exact .inr ⟨rfl, p, op, f, hp, hsec, rfl⟩
      · rw [List.getElem?_set_ne hk] at h
        exact .inl h

/-- A pass is as it was, or new, or one section further. -/
theorem pass_step {s : Reaper V} {i : ReaperInput} {k : Nat} {p' : ReapPass}
    (h : ((machine S).next s i).passes[k]? = some p') :
    s.passes[k]? = some p' ∨ (i = .reapIdle p'.idleTtlMs ∧ p'.nowMs = s.clock ∧ p'.phase = .started) ∨
    ∃ p, s.passes[k]? = some p ∧ (p'.nowMs = p.nowMs ∧ p'.idleTtlMs = p.idleTtlMs) ∧
      ∀ id rest, p'.phase = .killing id rest →
        i = .reapRecheck k ∧ (∃ l, p.phase = .checking (id :: l)) ∧
        (s.manager.step S (.reapRecheck id p.cutoff)).2 = .expired true := by
  have hpass : ∀ n input, (s.enter S n input).1.passes[k]? = some p' → (∀ j, input = .reapRecheck j → j = n) →
      s.passes[k]? = some p' ∨ (input = .reapIdle p'.idleTtlMs ∧ p'.nowMs = s.clock ∧ p'.phase = .started) ∨
      ∃ p, s.passes[k]? = some p ∧ (p'.nowMs = p.nowMs ∧ p'.idleTtlMs = p.idleTtlMs) ∧
        ∀ id rest, p'.phase = .killing id rest →
          input = .reapRecheck k ∧ (∃ l, p.phase = .checking (id :: l)) ∧
            (s.manager.step S (.reapRecheck id p.cutoff)).2 = .expired true := by
    intro n input he hn
    rcases enter_passes he with h | ⟨rfl, p, op, f, hp, hsec, rfl⟩
    · exact .inl h
    · obtain ⟨hsame, hkill⟩ := nextSection_spec hsec (s.manager.step S op).2
      refine .inr (.inr ⟨p, hp, hsame, ?_⟩)
      intro id rest hk
      obtain ⟨⟨j, rfl⟩, hl, rfl, hr⟩ := hkill id rest hk
      rw [hn j rfl]
      exact ⟨rfl, hl, hr⟩
  cases i with
  | tick now => exact .inl h
  | call op => exact .inl h
  | reapIdle ttl =>
    replace h : (s.passes ++ [⟨s.clock, ttl, .started, []⟩])[k]? = some p' := h
    rw [List.getElem?_append] at h
    split at h
    · exact .inl h
    · rw [List.getElem?_singleton] at h
      split at h
      · cases h
        exact .inr (.inl ⟨rfl, rfl, rfl⟩)
      · cases h
  | reapScan n => exact hpass n _ h nofun
  | reapRecheck n => exact hpass n _ h (fun j hj => by cases hj; rfl)
  | reapKill n kill => exact hpass n _ h nofun
  | reapWake n => exact hpass n _ h nofun

theorem reapRecheck_expired {m : Manager V} {id : ShellId} {cutoff : Int}
    (h : (m.step S (.reapRecheck id cutoff)).2 = .expired true) :
    ∃ e, m.find id = some e ∧ Manager.expired cutoff e = true := by
  simp only [Manager.step, Manager.withHeld] at h
  split at h
  · rename_i e he
    exact ⟨e, Manager.find_of_lookup he, Res.expired.inj h⟩
  · rename_i hn
    split at h
    · rename_i e he
      exact ⟨e, by simp [Manager.find, hn, he], Res.expired.inj h⟩
    · cases h

/-- A pass about to kill a shell found it expired at a re-check of its own. -/
theorem killing_rechecked {s : Reaper V} (hs : s.passes = []) {is : List ReaperInput} {k : Nat} {p : ReapPass}
    {id : ShellId} {rest : List ShellId} (hp : ((machine S).run s is).passes[k]? = some p)
    (hk : p.phase = .killing id rest) :
    ∃ is₁ is₂ e, is = is₁ ++ .reapRecheck k :: is₂ ∧ ((machine S).run s is₁).manager.find id = some e ∧
      Manager.expired p.cutoff e = true := by
  induction is using List.reverseRecOn generalizing p with
  | nil => rw [Machine.run_nil, hs] at hp; cases hp
  | append_singleton is i ih =>
    rw [Machine.run_snoc] at hp
    rcases pass_step hp with h | ⟨_, _, h⟩ | ⟨p₀, _, hsame, h⟩
    · obtain ⟨is₁, is₂, e, his, he, hx⟩ := ih h hk
      exact ⟨is₁, is₂ ++ [i], e, by rw [his]; simp, he, hx⟩
    · rw [hk] at h; cases h
    · obtain ⟨rfl, _, hr⟩ := h id rest hk
      obtain ⟨e, he, hx⟩ := reapRecheck_expired hr
      refine ⟨is, [], e, rfl, he, ?_⟩
      rw [ReapPass.cutoff, hsame.1, hsame.2]
      exact hx

theorem pass_now {clock : Int} (hc : 0 ≤ clock ∧ clock < 2 ^ 63) {is : List ReaperInput}
    (h : (machine S).Admissible (Timely S) (start clock) is) {k : Nat} {p : ReapPass}
    (hp : ((machine S).run (start clock) is).passes[k]? = some p) : 0 ≤ p.nowMs ∧ p.nowMs < 2 ^ 63 := by
  refine ((machine S).run_induction (P := fun s => ClockInv S s ∧ ∀ k p, s.passes[k]? = some p →
    0 ≤ p.nowMs ∧ p.nowMs < 2 ^ 63) ?_ ⟨clockInv_start hc, nofun⟩ h).2 k p hp
  intro s i hs hok
  refine ⟨clockInv_step hs.1 hok, ?_⟩
  intro k p hp
  rcases pass_step hp with h | ⟨_, h, _⟩ | ⟨p₀, h₀, h, _⟩
  · exact hs.2 k p h
  · rw [h]; exact hs.1.clock
  · rw [h.1]; exact hs.2 k p₀ h₀

/-- A TTL that fits an `i64` is taken off the clock as it is. -/
theorem cutoff_eq {p : ReapPass} (hn : 0 ≤ p.nowMs ∧ p.nowMs < 2 ^ 63) (ht : p.idleTtlMs < 2 ^ 63) :
    p.cutoff = p.nowMs - p.idleTtlMs := by
  have hb : Int.bmod p.idleTtlMs (2 ^ 64) = p.idleTtlMs := by
    apply Int.bmod_eq_of_le <;> omega
  rw [ReapPass.cutoff, Manager.reapCutoff, hb]
  omega

theorem expired_iff {cutoff : Int} {e : ShellEntry V} : Manager.expired cutoff e = true ↔
    e.runtime.state = .running ∧ e.runtime.attachments = ∅ ∧ Manager.idleAnchorMs e ≤ cutoff :=
  decide_eq_true_iff

theorem reapScan_candidates {s : Reaper V} {k : Nat} {p : ReapPass} (hp : s.passes[k]? = some p)
    (hphase : p.phase = .started) : (machine S).out s (.reapScan k) =
      .candidates ((s.manager.shells.values.filter (Manager.expired p.cutoff)).map (·.id)) := by
  show (s.enter S k (.reapScan k)).2 = _
  simp only [enter, hp, nextSection, hphase, Manager.step]

end Reaper

/-- A shell a pass kills was running without attachments when the pass last checked it;
    from the TTL before the pass read the clock up to then it was there and running and no
    attach to it succeeded. A running shell that had no attachment from some instant at
    least a TTL before that reading is a candidate of the pass. -/
theorem reap_idle_kills_the_idle (clock : Int) (hc : 0 ≤ clock ∧ clock < 2 ^ 63) (is : List ReaperInput)
    (h : (Reaper.machine S).Admissible (Reaper.Timely S) (Reaper.start clock) is) (k : Nat) (p : ReapPass)
    (hp : ((Reaper.machine S).run (Reaper.start clock) is).passes[k]? = some p) (ht : p.idleTtlMs < 2 ^ 63) :
    (∀ id rest, p.phase = .killing id rest →
      ∃ is₁ is₂ e, is = is₁ ++ .reapRecheck k :: is₂ ∧
        ((Reaper.machine S).run (Reaper.start clock) is₁).manager.find id = some e ∧
        e.runtime.state = .running ∧ e.runtime.attachments = ∅ ∧
        ∀ a b, is₁ = a ++ b → p.nowMs - p.idleTtlMs < ((Reaper.machine S).run (Reaper.start clock) a).clock →
          ∃ e₀, ((Reaper.machine S).run (Reaper.start clock) a).manager.find id = some e₀ ∧
            e₀.runtime.state = .running ∧ e₀.runtime.nextAttachmentId = e.runtime.nextAttachmentId) ∧
    (p.phase = .started → ∀ id e,
      ((Reaper.machine S).run (Reaper.start clock) is).manager.shells.lookup id = some e →
      e.runtime.state = .running → ∀ a b, is = a ++ b →
      ((Reaper.machine S).run (Reaper.start clock) a).clock ≤ p.nowMs - p.idleTtlMs →
      (∀ b₁ b₂, b = b₁ ++ b₂ → ∃ e₀,
        ((Reaper.machine S).run (Reaper.start clock) (a ++ b₁)).manager.find id = some e₀ ∧
          e₀.runtime.attachments = ∅) →
      ∃ ids, (Reaper.machine S).out ((Reaper.machine S).run (Reaper.start clock) is) (.reapScan k) = .candidates ids ∧
        id ∈ ids) := by
  have hcut := Reaper.cutoff_eq (Reaper.pass_now hc h hp) ht
  refine ⟨?_, ?_⟩
  · intro id rest hk
    obtain ⟨is₁, is₂, e, his, he, hx⟩ := Reaper.killing_rechecked rfl hp hk
    obtain ⟨hrun, hempty, hanchor⟩ := Reaper.expired_iff.mp hx
    refine ⟨is₁, is₂, e, his, he, hrun, hempty, ?_⟩
    intro a b hab hlater
    rw [his, hab, List.append_assoc] at h
    obtain ⟨ha, hb⟩ := (Reaper.machine S).admissible_append.mp h
    have hb := ((Reaper.machine S).admissible_append.mp hb).1
    rw [hab, Machine.run_append] at he
    obtain ⟨e₀, he₀, hmv, hnext⟩ :=
      Reaper.quiet_since (Reaper.clockInv_run (Reaper.clockInv_start hc) ha) hb he (by omega)
    exact ⟨e₀, he₀, by_contra fun hne => hmv.not_running hne hrun, hnext.symm⟩
  · intro hphase id e he hrun a b hab hold hidle
    refine ⟨_, Reaper.reapScan_candidates hp hphase, ?_⟩
    subst hab
    obtain ⟨ha, hb⟩ := (Reaper.machine S).admissible_append.mp h
    have hia := Reaper.clockInv_run (Reaper.clockInv_start hc) ha
    have hib := Reaper.clockInv_run (Reaper.clockInv_start hc) h
    obtain ⟨e₀, he₀, hempty₀⟩ := hidle [] b rfl
    obtain ⟨e₁, he₁, hempty⟩ := hidle b [] (List.append_nil b).symm
    rw [List.append_nil] at he₀
    rw [Manager.find_of_lookup he] at he₁
    cases he₁
    have hanchor : Manager.idleAnchorMs e = Manager.idleAnchorMs e₀ := by
      refine Reaper.anchor_idle hia hb he₀ ?_ ?_
      · intro b₁ b₂ hb₁ e' he'
        obtain ⟨e₂, he₂, hempty₂⟩ := hidle b₁ b₂ hb₁
        rw [Machine.run_append, he'] at he₂
        cases he₂
        exact hempty₂
      · rw [← Machine.run_append]
        exact Manager.find_of_lookup he
    have hle : Manager.idleAnchorMs e₀ ≤ ((Reaper.machine S).run (Reaper.start clock) a).clock := by
      have hcr := hia.created id e₀ he₀
      have hat := hia.attached id e₀ he₀
      unfold Manager.idleAnchorMs
      split <;> omega
    have hx : Manager.expired p.cutoff e = true := Reaper.expired_iff.mpr ⟨hrun, hempty, by omega⟩
    refine List.mem_map.mpr ⟨e, List.mem_filter.mpr ⟨?_, hx⟩, hib.capacity.keyed.shells id e he⟩
    exact List.mem_map.mpr ⟨⟨id, e⟩, Table.mem_entries_iff.mpr he, rfl⟩

/-! ## Runs in which no attachment leaves behind a pass's back -/

/-- The shell the call attaches to. -/
def Op.attachesTo : Op → Option ShellId
  | .attach _ id _ _ _ _ => some id
  | .attachAuthorized _ id _ _ _ => some id
  | _ => none

/-- The candidate a pass re-checks next. -/
def ReapPass.upcoming (p : ReapPass) : Option ShellId :=
  match p.phase with
  | .checking (id :: _) => some id
  | _ => none

/-- The shell a pass found expired and kills next. -/
def ReapPass.target (p : ReapPass) : Option ShellId :=
  match p.phase with
  | .killing id _ => some id
  | _ => none

theorem EntryStep.attachments {S : Server V} {id : ShellId} {e e' : ShellEntry V} {op : Op} {res : Res}
    (hs : EntryStep S id e op res e') (hop : op.attachesTo ≠ some id) :
    e'.runtime.attachments ⊆ e.runtime.attachments := by
  cases hs with
  | attach token cols rows env rt' a _ ha => exact absurd rfl hop
  | attachAuthorized cols rows env rt' a ha => exact absurd rfl hop
  | detach i => exact Finset.erase_subset _ _
  | writeInput data env =>
    obtain ⟨pty, _, hw⟩ := e.runtime.writeInput_fst data env
    rw [hw]
  | resize cols rows outcome _ =>
    obtain ⟨pty, model, _, hw⟩ := e.runtime.resize_fst S cols rows outcome
    rw [hw]
  | terminate kill =>
    rcases e.runtime.terminate_fst kill with ⟨_, _, hw⟩ | ⟨_, hw⟩
    · rw [hw]
    · rw [hw]
  | terminateWake =>
    rcases e.runtime.terminateWake_fst with ⟨_, hw⟩ | ⟨_, _, hw⟩
    · rw [hw]
    · rw [hw]
  | pumpChunk chunk _ => exact Finset.filter_subset _ _
  | pumpEof wait _ => exact Finset.empty_subset _
  | _ => exact Finset.Subset.refl _

/-- The reaper and, beside it, what no field of the program records: the clock when an
    attachment last left each shell, on whichever of the three paths. -/
structure Watched (V : Type) where
  reaper : Reaper V
  leftAtMs : ShellId → Option Int

namespace Watched

def start (clock : Int) : Watched V := ⟨.start clock, fun _ => none⟩

def attachments (m : Manager V) (id : ShellId) : Finset Nat := ((m.find id).map (·.runtime.attachments)).getD ∅

def step (s : Watched V) (i : ReaperInput) : Watched V × Res :=
  let r := s.reaper.step S i
  (⟨r.1, fun id =>
    if attachments s.reaper.manager id ⊆ attachments r.1.manager id then s.leftAtMs id else some r.1.clock⟩, r.2)

def machine : Machine (Watched V) ReaperInput Res := ⟨fun s i => s.step S i⟩

/-- A pass's TTL fits an `i64`. No attach lands between a pass's re-check of a shell and
    its kill. And a shell that a pass is about to re-check lost no attachment within the
    TTL before the pass read the clock. -/
def settled (s : Watched V) : ReaperInput → Bool
  | .reapIdle ttl => decide (ttl < 2 ^ 63)
  | .call op => decide (∀ p ∈ s.reaper.passes, ∀ id ∈ p.target, op.attachesTo ≠ some id)
  | .reapRecheck k =>
    decide (∀ p ∈ s.reaper.passes[k]?, ∀ id ∈ p.upcoming, ∀ t ∈ s.leftAtMs id, t ≤ p.nowMs - p.idleTtlMs)
  | _ => true

abbrev Settled (s : Watched V) (i : ReaperInput) : Prop := Reaper.Timely S s.reaper i ∧ settled s i = true

variable {S}

theorem run_reaper (s : Watched V) (is : List ReaperInput) :
    ((machine S).run s is).reaper = (Reaper.machine S).run s.reaper is := by
  induction is generalizing s with
  | nil => rfl
  | cons i is ih => exact ih ((machine S).next s i)

theorem run_start (clock : Int) (is : List ReaperInput) :
    ((machine S).run (start clock) is).reaper = (Reaper.machine S).run (Reaper.start clock) is :=
  run_reaper (start clock) is

theorem timely_of_settled {s : Watched V} {is : List ReaperInput} (h : (machine S).Admissible (Settled S) s is) :
    (Reaper.machine S).Admissible (Reaper.Timely S) s.reaper is := by
  induction is generalizing s with
  | nil => trivial
  | cons i is ih => exact ⟨h.1.1, ih h.2⟩

theorem attachments_eq {m : Manager V} {id : ShellId} {e : ShellEntry V} (he : m.find id = some e) :
    attachments m id = e.runtime.attachments := by
  simp [attachments, he]

/-- A recorded instant is not forgotten for an earlier one. -/
theorem left_run {s : Watched V} (hi : Reaper.ClockInv S s.reaper) {is : List ReaperInput}
    (h : (machine S).Admissible (Settled S) s is) {id : ShellId} {t : Int} (ht : s.leftAtMs id = some t)
    (hc : t ≤ s.reaper.clock) : ∃ t', ((machine S).run s is).leftAtMs id = some t' ∧ t ≤ t' := by
  induction is generalizing s t with
  | nil => exact ⟨t, ht, le_rfl⟩
  | cons i is ih =>
    have hclock := (Reaper.clock_step h.1.1 hi.clock.2).1
    have hnext := Reaper.clockInv_step hi h.1.1
    by_cases hsub : attachments s.reaper.manager id ⊆ attachments (s.reaper.step S i).1.manager id
    · exact ih hnext h.2 (by rw [← ht]; exact if_pos hsub) (hc.trans hclock)
    · obtain ⟨t', ht', hle⟩ := ih hnext h.2 (if_neg hsub) le_rfl
      exact ⟨t', ht', (hc.trans hclock).trans hle⟩

/-- A shell that had attachments and ends without any lost one on the way. -/
theorem left_since {s : Watched V} (hi : Reaper.ClockInv S s.reaper) {is : List ReaperInput}
    (h : (machine S).Admissible (Settled S) s is) {id : ShellId} (hne : attachments s.reaper.manager id ≠ ∅)
    (hend : attachments ((machine S).run s is).reaper.manager id = ∅) :
    ∃ t, ((machine S).run s is).leftAtMs id = some t ∧ s.reaper.clock ≤ t := by
  induction is generalizing s with
  | nil => exact absurd hend hne
  | cons i is ih =>
    have hclock := (Reaper.clock_step h.1.1 hi.clock.2).1
    have hnext := Reaper.clockInv_step hi h.1.1
    by_cases hempty : attachments (s.reaper.step S i).1.manager id = ∅
    · have hleft : ((machine S).next s i).leftAtMs id = some (s.reaper.step S i).1.clock := by
        refine if_neg fun hsub => hne ?_
        exact Finset.subset_empty.mp (hempty ▸ hsub)
      obtain ⟨t, ht, hle⟩ := left_run hnext h.2 hleft le_rfl
      exact ⟨t, ht, hclock.trans hle⟩
    · obtain ⟨t, ht, hle⟩ := ih hnext h.2 hempty hend
      exact ⟨t, ht, hclock.trans hle⟩

/-- Nothing but an attach to it gives a shell an attachment. -/
theorem attachments_step {s : Reaper V} (hi : Reaper.ClockInv S s) {i : ReaperInput} (h : Reaper.Timely S s i)
    {id : ShellId} {e : ShellEntry V} (he : s.manager.find id = some e)
    (hno : ∀ op, i = .call op → op.attachesTo ≠ some id) :
    ∃ e', ((Reaper.machine S).next s i).manager.find id = some e' ∧
      e'.runtime.attachments ⊆ e.runtime.attachments := by
  obtain ⟨op, hf, _, hcall, hm⟩ := Reaper.manager_step h
  have hop : op.attachesTo ≠ some id := by
    rcases hcall with rfl | hc
    · exact hno op rfl
    · intro hto
      cases op <;> cases hto <;> cases hc
  rw [hm]
  cases Manager.find_step S hi.capacity.keyed hf id with
  | kept hl _ => exact ⟨e, hl ▸ he, Finset.Subset.refl _⟩
  | changed e₀ e' hl hs h' =>
    rw [he] at hl
    cases hl
    exact ⟨e', h', hs.attachments hop⟩
  | created req env account _ hn _ _ _ => rw [he] at hn; cases hn

/-- A pass in such a run was started with a TTL that fits, at an instant of the clock. -/
theorem pass_cutoff {clock : Int} {is : List ReaperInput}
    (h : (machine S).Admissible (Settled S) (start clock) is) {k : Nat} {p : ReapPass}
    (hp : ((machine S).run (start clock) is).reaper.passes[k]? = some p) : p.idleTtlMs < 2 ^ 63 := by
  refine (machine S).run_induction (P := fun s => ∀ k p, s.reaper.passes[k]? = some p → p.idleTtlMs < 2 ^ 63)
    ?_ nofun h k p hp
  intro s i hs hok k p hp
  rcases Reaper.pass_step hp with h | ⟨rfl, _, _⟩ | ⟨p₀, h₀, h, _⟩
  · exact hs k p h
  · exact of_decide_eq_true hok.2
  · rw [h.2]; exact hs k p₀ h₀

/-- A shell a pass is about to kill has no attachment now, and had none at any instant
    later than the TTL before the pass read the clock. -/
theorem killing_idle {clock : Int} (hc : 0 ≤ clock ∧ clock < 2 ^ 63) {is : List ReaperInput}
    (h : (machine S).Admissible (Settled S) (start clock) is) {k : Nat} {p : ReapPass}
    (hp : ((machine S).run (start clock) is).reaper.passes[k]? = some p) {id : ShellId} {rest : List ShellId}
    (hk : p.phase = .killing id rest) :
    (∃ e, ((machine S).run (start clock) is).reaper.manager.find id = some e ∧ e.runtime.attachments = ∅) ∧
    ∀ a b, is = a ++ b → p.nowMs - p.idleTtlMs < ((machine S).run (start clock) a).reaper.clock →
      ∃ e₀, ((machine S).run (start clock) a).reaper.manager.find id = some e₀ ∧ e₀.runtime.attachments = ∅ := by
  induction is using List.reverseRecOn generalizing p with
  | nil => rw [Machine.run_nil] at hp; cases hp
  | append_singleton is i ih =>
    have hcut := Reaper.cutoff_eq (Reaper.pass_now hc (timely_of_settled h) (by rw [← run_start]; exact hp))
      (pass_cutoff h hp)
    obtain ⟨his, hok⟩ := (machine S).admissible_snoc.mp h
    have hinv := Reaper.clockInv_run (S := S) (Reaper.clockInv_start hc) (timely_of_settled his)
    rw [← run_start] at hinv
    -- what holds after `is` and survives the last step
    have hlast : ∀ e, ((machine S).run (start clock) is).reaper.manager.find id = some e → e.runtime.attachments = ∅ →
        (∀ op, i = .call op → op.attachesTo ≠ some id) →
        (∀ a b, is = a ++ b → p.nowMs - p.idleTtlMs < ((machine S).run (start clock) a).reaper.clock →
          ∃ e₀, ((machine S).run (start clock) a).reaper.manager.find id = some e₀ ∧ e₀.runtime.attachments = ∅) →
        (∃ e, ((machine S).run (start clock) (is ++ [i])).reaper.manager.find id = some e ∧
          e.runtime.attachments = ∅) ∧
        ∀ a b, is ++ [i] = a ++ b → p.nowMs - p.idleTtlMs < ((machine S).run (start clock) a).reaper.clock →
          ∃ e₀, ((machine S).run (start clock) a).reaper.manager.find id = some e₀ ∧ e₀.runtime.attachments = ∅ := by
      intro e he hempty hno hbefore
      obtain ⟨e', he', hsub⟩ := attachments_step hinv hok.1 he hno
      have hnow : ∃ e, ((machine S).run (start clock) (is ++ [i])).reaper.manager.find id = some e ∧
          e.runtime.attachments = ∅ := by
        rw [Machine.run_snoc]
        exact ⟨e', he', Finset.subset_empty.mp (hempty ▸ hsub)⟩
      refine ⟨hnow, ?_⟩
      intro a b hab hlater
      rcases List.eq_nil_or_concat b with rfl | ⟨b', j, rfl⟩
      · rw [List.append_nil] at hab
        rw [← hab]
        exact hnow
      · rw [List.concat_eq_append, ← List.append_assoc] at hab
        exact hbefore a b' (List.append_inj_left' hab rfl) hlater
    rw [Machine.run_snoc] at hp
    rcases Reaper.pass_step hp with hold | ⟨_, _, hs⟩ | ⟨p₀, hp₀, hsame, hre⟩
    · obtain ⟨⟨e, he, hempty⟩, hbefore⟩ := ih his hold hk
      refine hlast e he hempty ?_ hbefore
      rintro op rfl
      have hcalls := of_decide_eq_true hok.2 p (List.mem_of_getElem? hold) id
      exact hcalls (by rw [ReapPass.target, hk]; rfl)
    · rw [hk] at hs; cases hs
    · obtain ⟨rfl, ⟨l, hl⟩, hr⟩ := hre id rest hk
      obtain ⟨e, he, hx⟩ := Reaper.reapRecheck_expired hr
      obtain ⟨_, hempty, hanchor⟩ := Reaper.expired_iff.mp hx
      refine hlast e he hempty nofun ?_
      intro a b hab hlater
      subst hab
      obtain ⟨ha, hb⟩ := (machine S).admissible_append.mp his
      have hia := Reaper.clockInv_run (S := S) (Reaper.clockInv_start hc) (timely_of_settled ha)
      rw [← run_start] at hia
      rw [ReapPass.cutoff, hsame.1, hsame.2] at hcut
      -- the shell was there, for its anchor is older; and had it had an attachment, that
      -- one would have left since
      obtain ⟨e₀, he₀, _, _⟩ := Reaper.quiet_since hia (timely_of_settled hb)
        (by rw [← run_reaper, ← Machine.run_append]; exact he) (by rw [ReapPass.cutoff] at hanchor; omega)
      refine ⟨e₀, he₀, ?_⟩
      by_contra hne
      rw [Machine.run_append] at he
      obtain ⟨t, ht, hle⟩ := left_since hia hb (by rw [attachments_eq he₀]; exact hne)
        (by rw [attachments_eq he]; exact hempty)
      have := of_decide_eq_true hok.2 p₀ hp₀ id (by rw [ReapPass.upcoming, hl]; rfl) t
        (by rw [Machine.run_append]; exact ht)
      omega

end Watched

/-- In a run of these steps a running shell that a pass is about to kill was there,
    running and without attachments at every instant later than the TTL before the pass
    read the clock, up to now. And a running shell that had no attachment from some instant
    at least a TTL before that reading is a candidate of the pass. -/
theorem reap_idle_spares_the_attached (clock : Int) (hc : 0 ≤ clock ∧ clock < 2 ^ 63) (is : List ReaperInput)
    (h : (Watched.machine S).Admissible (Watched.Settled S) (Watched.start clock) is) (k : Nat) (p : ReapPass)
    (hp : ((Reaper.machine S).run (Reaper.start clock) is).passes[k]? = some p) :
    (∀ id rest e, p.phase = .killing id rest →
      ((Reaper.machine S).run (Reaper.start clock) is).manager.find id = some e → e.runtime.state = .running →
      ∀ a b, is = a ++ b → p.nowMs - p.idleTtlMs < ((Reaper.machine S).run (Reaper.start clock) a).clock →
        ∃ e₀, ((Reaper.machine S).run (Reaper.start clock) a).manager.find id = some e₀ ∧
          e₀.runtime.state = .running ∧ e₀.runtime.attachments = ∅) ∧
    (p.phase = .started → ∀ id e,
      ((Reaper.machine S).run (Reaper.start clock) is).manager.shells.lookup id = some e →
      e.runtime.state = .running → ∀ a b, is = a ++ b →
      ((Reaper.machine S).run (Reaper.start clock) a).clock ≤ p.nowMs - p.idleTtlMs →
      (∀ b₁ b₂, b = b₁ ++ b₂ → ∃ e₀,
        ((Reaper.machine S).run (Reaper.start clock) (a ++ b₁)).manager.find id = some e₀ ∧
          e₀.runtime.attachments = ∅) →
      ∃ ids, (Reaper.machine S).out ((Reaper.machine S).run (Reaper.start clock) is) (.reapScan k) = .candidates ids ∧
        id ∈ ids) := by
  have htimely := Watched.timely_of_settled h
  have hp' : ((Watched.machine S).run (Watched.start clock) is).reaper.passes[k]? = some p := by
    rw [Watched.run_start]
    exact hp
  refine ⟨?_, (reap_idle_kills_the_idle S clock hc is htimely k p hp (Watched.pass_cutoff h hp')).2⟩
  intro id rest e hk he hrun a b hab hlater
  obtain ⟨e₀, he₀, hempty⟩ := (Watched.killing_idle hc h hp' hk).2 a b hab (by rw [Watched.run_start]; exact hlater)
  rw [Watched.run_start] at he₀
  refine ⟨e₀, he₀, ?_, hempty⟩
  subst hab
  obtain ⟨ha, hb⟩ := (Reaper.machine S).admissible_append.mp htimely
  rw [Machine.run_append] at he
  exact Reaper.running_before (Reaper.clockInv_run (Reaper.clockInv_start hc) ha) hb he₀ he hrun

/-- Attached from 1000 to 1500 and found by a pass at 5000 with a TTL of 3000 ms. -/
def idleShell : List ReaperInput :=
  [.call (sampleOpen "ada" 1 sampleShell),
    .call (.attachAuthorized "ada" sampleShell 0 0 ⟨.ok (), .repeated 2, 1000⟩), .tick 1500,
    .call (.detach sampleShell 1), .tick 3000, .tick 5000, .reapIdle 3000, .reapScan 0, .reapRecheck 0]

theorem reap_idle_spares_the_attached_sample :
    (((Reaper.machine Server.sample).run (Reaper.start 1000) idleShell).manager.find sampleShell).map
      (·.runtime.state) = some .running ∧
    ∃ e₀, ((Reaper.machine Server.sample).run (Reaper.start 1000) (idleShell.take 5)).manager.find sampleShell = some e₀ ∧
      e₀.runtime.state = .running ∧ e₀.runtime.attachments = ∅ := by
  have hrun : (((Reaper.machine Server.sample).run (Reaper.start 1000) idleShell).manager.find sampleShell).map
      (·.runtime.state) = some .running := by decide
  obtain ⟨e, he, hstate⟩ := Option.map_eq_some_iff.mp hrun
  exact ⟨hrun, (reap_idle_spares_the_attached Server.sample 1000 (by decide) idleShell (by decide) 0
    ⟨5000, 3000, .killing sampleShell [], []⟩ (by decide)).1 sampleShell [] e rfl he hstate
    (idleShell.take 5) (idleShell.drop 5) (List.take_append_drop 5 idleShell).symm (by decide)⟩

/-! ## What the anchor does not see -/

/-- Attached from 1000 to 5000, when it detaches: a pass at 5000 with a TTL of 3000 ms goes
    on to kill it. A shell somebody attaches to between the re-check and the kill is killed
    with the attachment. And a TTL of 2^63 ms or more wraps: the shell just opened goes. -/
theorem reap_idle_kills_the_attached :
    (let is : List ReaperInput :=
      [.call (sampleOpen "ada" 1 sampleShell),
        .call (.attachAuthorized "ada" sampleShell 0 0 ⟨.ok (), .repeated 2, 1000⟩), .tick 5000,
        .call (.detach sampleShell 1), .reapIdle 3000, .reapScan 0, .reapRecheck 0]
    (Reaper.machine Server.sample).Admissible (Reaper.Timely Server.sample) (Reaper.start 1000) is ∧
      ((Reaper.machine Server.sample).run (Reaper.start 1000) is).passes = [⟨5000, 3000, .killing sampleShell [], []⟩] ∧
      ((Reaper.machine Server.sample).run (Reaper.start 1000) (is.take 3)).clock = 5000 ∧
      (((Reaper.machine Server.sample).run (Reaper.start 1000) (is.take 3)).manager.find sampleShell).map
        (·.runtime.attachments) = some {1} ∧
      (((Reaper.machine Server.sample).run (Reaper.start 1000) (is ++ [.reapKill 0 (.ok ())])).manager.find
        sampleShell).map (·.runtime.state) = some .terminating) ∧
    (let is : List ReaperInput :=
      [.call (sampleOpen "ada" 1 sampleShell), .tick 5000, .reapIdle 3000, .reapScan 0, .reapRecheck 0,
        .call (.attachAuthorized "ada" sampleShell 0 0 ⟨.ok (), .repeated 2, 5000⟩)]
    (Reaper.machine Server.sample).Admissible (Reaper.Timely Server.sample) (Reaper.start 1000) is ∧
      ((Reaper.machine Server.sample).run (Reaper.start 1000) is).passes = [⟨5000, 3000, .killing sampleShell [], []⟩] ∧
      (((Reaper.machine Server.sample).run (Reaper.start 1000) is).manager.find sampleShell).map
        (·.runtime.attachments) = some {1} ∧
      (((Reaper.machine Server.sample).run (Reaper.start 1000) (is ++ [.reapKill 0 (.ok ())])).manager.find
        sampleShell).map (·.runtime.state) = some .terminating) ∧
    (let is : List ReaperInput :=
      [.call (sampleOpen "ada" 1 sampleShell), .reapIdle (2 ^ 63), .reapScan 0, .reapRecheck 0]
    (Reaper.machine Server.sample).Admissible (Reaper.Timely Server.sample) (Reaper.start 1000) is ∧
      ((Reaper.machine Server.sample).run (Reaper.start 1000) is).passes =
        [⟨1000, 2 ^ 63, .killing sampleShell [], []⟩]) := by
  refine ⟨⟨?_, ?_, ?_, ?_, ?_⟩, ⟨?_, ?_, ?_, ?_⟩, ⟨?_, ?_⟩⟩
  all_goals decide

end Holdfast.Session

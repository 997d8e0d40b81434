/-
  Holdfast.Session.Terminate — a `terminate` that fails (`ShellManager::terminate` of
  `crates/session-core/src/lib.rs`).

  The state is `terminating` before the kill is tried, and stays so when the kill fails or
  the exit does not come in time.

  Proved:
  - `terminate_result`: what the part of the call before its wait does.
  - `failure_atomic_iff`: a call that fails leaves no trace exactly when the shell is
    unknown, over, or already being terminated.
  - `failed_terminate_sticks`: the shell never gets another attachment.
-/

import Holdfast.Session.Ends

namespace Holdfast.Session.Manager

open Holdfast.Base Holdfast.Terminal

variable {V : Type} (S : Server V)

/-- A call that fails is as if it had not been made: at once, or after a wait in which
    other calls were served, whatever these are. -/
def FailureAtomic (m : Manager V) (id : ShellId) (kill : Except PtyError Unit) : Prop :=
  (∀ e, (m.step S (.terminate id kill)).2 = .err e → (m.step S (.terminate id kill)).1 = m) ∧
  ((m.step S (.terminate id kill)).2 = .waiting → ∀ others e,
    let waiting := (m.step S (.terminate id kill)).1
    (((machine S).run waiting others).step S (.terminateWake id)).2 = .err e →
      (((machine S).run waiting others).step S (.terminateWake id)).1 = (machine S).run m others ∧
      (machine S).trace waiting others = (machine S).trace m others)

variable {S}

/-- The part before the wait, of a shell that is not over. -/
theorem terminate_result {m : Manager V} {id : ShellId} {e : ShellEntry V} (he : m.shells.lookup id = some e)
    (hx : e.runtime.exit = none) (kill : Except PtyError Unit) :
    (m.step S (.terminate id kill)).1 = { m with shells := setRuntime m.shells id { e.runtime with state := .terminating } } ∧
      ((∃ err, (m.step S (.terminate id kill)).2 = .err err) ∨ (m.step S (.terminate id kill)).2 = .waiting) := by
  have hrt : (e.runtime.terminate kill).1 = { e.runtime with state := .terminating } := by
    rcases e.runtime.terminate_fst kill with ⟨exit, hexit, -⟩ | ⟨-, hrt⟩
    · rw [hx] at hexit; cases hexit
    · exact hrt
  simp only [step, withEntry, he, hrt, true_and]
  unfold Runtime.terminate
  simp only [hx]
  split
  · split
    · exact .inr rfl
    · exact .inl ⟨_, rfl⟩
  · exact .inr rfl

/-- A wait that ends without the exit changes nothing. -/
theorem terminateWake_error {m : Manager V} {id : ShellId} {err : SessionError}
    (h : (m.step S (.terminateWake id)).2 = .err err) :
    (m.step S (.terminateWake id)).1 = m := by
  have hself : ∀ e : ShellEntry V, Res.ofExit e.runtime.terminateWake.2 = .err err →
      { e with runtime := e.runtime.terminateWake.1 } = e := by
    intro e he
    rcases e.runtime.terminateWake_fst with ⟨-, hrt⟩ | ⟨exit, -, hrt⟩
    · rw [hrt]
    · rw [hrt] at he; cases he
  have hadjust : ∀ (t : Table ShellId (ShellEntry V)) {e : ShellEntry V}, t.lookup id = some e →
      Res.ofExit e.runtime.terminateWake.2 = .err err →
        t.adjust id (fun _ => { e with runtime := e.runtime.terminateWake.1 }) = t := by
    intro t e hlookup herr
    apply Table.adjust_eq_self
    intro v hv
    rw [hlookup] at hv
    cases hv
    exact hself e herr
  simp only [step, withHeld] at h ⊢
  split at h
  · rename_i e he
    simp only [hadjust _ he h]
  · split at h
    · rename_i e he
      simp only [hadjust _ he h]
    · rfl

/-- Exactly a shell that is unknown, over, or already being terminated is as it was. -/
theorem failure_atomic_iff (m : Manager V) (id : ShellId) (kill : Except PtyError Unit) :
    FailureAtomic S m id kill ↔
      ∀ e, m.shells.lookup id = some e → e.runtime.exit.isSome = true ∨ e.runtime.state = .terminating := by
  cases he : m.shells.lookup id with
  | none =>
    have hstep : m.step S (.terminate id kill) = (m, .err .shellNotFound) := by simp only [step, withEntry, he]
    simp [FailureAtomic, hstep]
  | some e =>
    cases hx : e.runtime.exit with
    | some exit => simp [FailureAtomic, terminate_exited he hx kill, hx]
    | none =>
      obtain ⟨hnext, hanswer⟩ := terminate_result (S := S) he hx kill
      simp only [Option.some.injEq, forall_eq', hx, Option.isSome_none, Bool.false_eq_true, false_or]
      constructor
      · intro h
        have hsame : (m.step S (.terminate id kill)).1 = m := by
          rcases hanswer with ⟨err, herr⟩ | hwait
          · exact h.1 err herr
          · -- nothing happens in the wait, and it ends without the exit
            have hwake : ((m.step S (.terminate id kill)).1.step S (.terminateWake id)).2 =
                .err (.internal "shell did not exit after kill") := by
              rw [hnext]
              simp [step, withHeld, setRuntime, he, Runtime.terminateWake, hx, Res.ofExit]
            have := (h.2 hwait [] _ hwake).1
            rwa [Machine.run_nil, Machine.run_nil, terminateWake_error hwake] at this
        rw [hnext] at hsame
        have hlookup : (setRuntime m.shells id { e.runtime with state := .terminating }).lookup id = m.shells.lookup id :=
          congrArg (fun m : Manager V => m.shells.lookup id) hsame
        rw [setRuntime, Table.lookup_adjust_same, he, Option.map_some] at hlookup
        have hstate := congrArg (fun e : ShellEntry V => e.runtime.state) (Option.some.inj hlookup)
        exact hstate.symm
      · intro hstate
        have hself : (m.step S (.terminate id kill)).1 = m := by
          have hrt : ({ e.runtime with state := .terminating } : Runtime V) = e.runtime := by rw [← hstate]
          rw [hnext, hrt, setRuntime_self he]
        rw [FailureAtomic, hself]
        exact ⟨fun _ _ => rfl, fun _ others err herr => ⟨terminateWake_error herr, rfl⟩⟩

/-- After a call that failed, a shell that is not over never gets another attachment. -/
theorem failed_terminate_sticks {m : Manager V} (h : CapacityInv S m) {id : ShellId} {e : ShellEntry V}
    (he : m.shells.lookup id = some e) (hx : e.runtime.exit = none) (kill : Except PtyError Unit) {ops : List Op}
    (hf : (machine S).Admissible (FreshId S) (m.step S (.terminate id kill)).1 ops) (op : Op) (a : Attachment)
    (ha : (((machine S).run (m.step S (.terminate id kill)).1 ops).step S op).2 = .attached a) : a.shellId ≠ id := by
  obtain ⟨hnext, -⟩ := terminate_result (S := S) he hx kill
  have hm : CapacityInv S (m.step S (.terminate id kill)).1 := capacityInv_step h (freshId_of_not_open S rfl)
  have hfind : (m.step S (.terminate id kill)).1.find id =
      some { e with runtime := { e.runtime with state := .terminating } } := by
    apply find_of_lookup
    rw [hnext, setRuntime, Table.lookup_adjust_same, he]
    rfl
  obtain ⟨e', hfind', hmoves⟩ := moves_run hm hf hfind
  have hstate : e'.runtime.state ≠ .running := hmoves.not_running (by simp)
  have hkeyed : ((machine S).run (m.step S (.terminate id kill)).1 ops).Keyed := (capacityInv_run hm hf).keyed
  cases step_at S hkeyed op id with
  | kept _ hissued => exact hissued a.shellId a.rotatedResumeToken false (by rw [ha]; rfl)
  | changed e₁ e₂ hl hs _ =>
    obtain ⟨cols, rows, env, rt', hattaches, -⟩ := hs.attached ha
    rw [find_of_lookup hl] at hfind'
    cases hfind'
    exact absurd hattaches.running hstate
  | created req env account _ _ _ hopened _ => rw [ha] at hopened; cases hopened
  | removed e₁ _ _ _ hdone _ => rw [ha] at hdone; cases hdone

/-! ## A kill that is not permitted -/

def notPermitted : Except PtyError Unit := .error (.ioError "Operation not permitted (os error 1)")

def opened : Manager Text := ((empty : Manager Text).step Server.sample (sampleOpen "ada" 1 sampleShell)).1

/-- The kill fails, and the attach that would have succeeded is refused. -/
theorem failed_kill_refuses :
    ¬FailureAtomic Server.sample opened sampleShell notPermitted ∧
      (opened.step Server.sample (.terminate sampleShell notPermitted)).2 =
        .err (.pty (.ioError "Operation not permitted (os error 1)")) ∧
      ((opened.step Server.sample (.terminate sampleShell notPermitted)).1.step Server.sample
        (.attachAuthorized "ada" sampleShell 80 24 ⟨.ok (), .repeated 2, 2000⟩)).2 = .err .notRunning ∧
      ∃ a, (opened.step Server.sample (.attachAuthorized "ada" sampleShell 80 24 ⟨.ok (), .repeated 2, 2000⟩)).2 =
      .attached a := by
  refine ⟨fun h => ?_, by decide, by decide, _, rfl⟩
  have hsame := h.1 (.pty (.ioError "Operation not permitted (os error 1)")) (by decide)
  have hinfo : (opened.step Server.sample (.terminate sampleShell notPermitted)).1.shellInfo sampleShell =
      opened.shellInfo sampleShell := by
    rw [hsame]
  revert hinfo
  decide

end Holdfast.Session.Manager

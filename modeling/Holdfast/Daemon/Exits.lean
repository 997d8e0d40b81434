/-
  Holdfast.Daemon.Exits — how a shell's exit is reported (`TerminateShell` of `dispatch`
  and the forwarder of `attach` in `crates/daemon/src/conn.rs`, `serve_attachment` of
  `crates/agent/src/lib.rs`).

  A run of the session core says who learns of an exit: whoever asked to terminate the
  shell, and each attachment whose queue the exit was put into. `reports` are the
  `ShellExited` messages that come of it; `via` says which of the two programs an
  attachment belongs to.

  Proved:
  - `reports_recorded`: every report about a shell is made from the one recorded exit.
  - `exit_reports_agree_iff`: the reports agree in every run in which that exit is recorded
    exactly when it is a success or its code is zero. The forwarder calls every failure a
    signal, the other two only one without an exit code.
-/

import Holdfast.Agent.Streams
import Holdfast.Daemon.Conn
import Holdfast.Daemon.Forwarder
import Holdfast.Session.Ends

namespace Holdfast.Daemon

open Holdfast.Base Holdfast.Session Holdfast.Session.Manager Holdfast.Terminal

structure ShellExited where
  exitCode : Int32
  signaled : Bool
  deriving DecidableEq, Repr

/-- In the reply to `TerminateShell`. -/
def terminateReport (exit : ExitSummary) : ShellExited := ⟨exit.exitCode.toInt32, !exit.success && exit.exitCode == 0⟩

/-- By the forwarder of a connection's attachment. -/
def forwardReport (exit : ExitSummary) : ShellExited := ⟨exit.exitCode.toInt32, !exit.success⟩

/-- On the agent's attachment stream. -/
def agentReport (exit : ExitSummary) : ShellExited := ⟨exit.exitCode.toInt32, !exit.success && exit.exitCode == 0⟩

theorem messageOf_exited (exit : ExitSummary) :
    messageOf (.exited exit) = .shellExited (forwardReport exit).exitCode (forwardReport exit).signaled := rfl

theorem eventArm_exited (exit : ExitSummary) :
    Agent.eventArm (some (.exited exit)) =
    some (.shellExited (agentReport exit).exitCode (agentReport exit).signaled, false) := rfl

theorem terminated_exit {V : Type} (w : World V) (env : DispatchEnv) (requestId : UInt64) (wireId : List UInt8)
    (exit : ExitSummary) (calls : List Call) :
    w.terminated env requestId wireId (.exit exit) calls =
      w.answer env [(0, ⟨requestId, [], wireId, .shellExited (terminateReport exit).exitCode (terminateReport exit).signaled⟩)]
        calls := rfl

/-- Whose attachment it is. -/
inductive Via where
  | connection
  | agent
  deriving DecidableEq, Repr

def Via.report : Via → ExitSummary → ShellExited
  | .connection => forwardReport
  | .agent => agentReport

/-- The report about shell `id` that an answer of the session core leads to. -/
def reportOf (via : ShellId → Nat → Via) (id : ShellId) : Op × Res → Option ShellExited
  | (.terminate i _, .exit x) => if i = id then some (terminateReport x) else none
  | (.terminateWake i, .exit x) => if i = id then some (terminateReport x) else none
  | (.recv i k, .event (some (.exited x))) => if i = id then some ((via i k).report x) else none
  | _ => none

section

variable {V : Type} (S : Server V) (via : ShellId → Nat → Via)

def reports (ops : List Op) (id : ShellId) : List ShellExited := ((machine S).trace empty ops).filterMap (reportOf via id)

/-- The exit on record for a shell, whether or not it is still in the map. -/
def recordedExit (m : Manager V) (id : ShellId) : Option ExitSummary := (m.find id).bind fun e => e.runtime.exit

/-- A report made from the recorded exit. -/
def Faithful (m : Manager V) (id : ShellId) (r : ShellExited) : Prop :=
  ∃ x, recordedExit m id = some x ∧ (r = terminateReport x ∨ r = forwardReport x ∨ r = agentReport x)

variable {S via}

theorem recordedExit_step {m : Manager V} (h : CapacityInv S m) {op : Op} (hf : FreshId S m op) {id : ShellId} {x : ExitSummary}
    (hx : recordedExit m id = some x) : recordedExit (m.step S op).1 id = some x := by
  obtain ⟨e, he, hex⟩ := Option.bind_eq_some_iff.mp hx
  obtain ⟨e', he', hm⟩ := moves_step h hf he
  exact Option.bind_eq_some_iff.mpr ⟨e', he', hm.exit x hex⟩

theorem faithful_reportOf {m : Manager V} {id : ShellId} (hrec : m.ExitsRecorded id) {op : Op} {r : ShellExited}
    (hr : reportOf via id (op, (m.step S op).2) = some r) : Faithful m id r := by
  unfold reportOf at hr
  split at hr
  · rename_i i kill x heq
    obtain ⟨rfl, hres⟩ := Prod.mk.inj heq
    split at hr
    · rename_i hi
      subst hi
      cases hr
      obtain ⟨e, he, hx⟩ := terminate_recorded hres
      exact ⟨x, Option.bind_eq_some_iff.mpr ⟨e, he, hx⟩, .inl rfl⟩
    · cases hr
  · rename_i i x heq
    obtain ⟨rfl, hres⟩ := Prod.mk.inj heq
    split at hr
    · rename_i hi
      subst hi
      cases hr
      obtain ⟨e, he, hx⟩ := terminateWake_recorded hres
      exact ⟨x, Option.bind_eq_some_iff.mpr ⟨e, he, hx⟩, .inl rfl⟩
    · cases hr
  · rename_i i k x heq
    obtain ⟨rfl, hres⟩ := Prod.mk.inj heq
    split at hr
    · rename_i hi
      subst hi
      cases hr
      obtain ⟨e, he, hmem⟩ := recv_queued hres
      refine ⟨x, Option.bind_eq_some_iff.mpr ⟨e, he, hrec e he k x hmem⟩, .inr ?_⟩
      cases via i k with
      | connection => exact .inl rfl
      | agent => exact .inr rfl
    · cases hr
  · cases hr

/-- Every report about a shell is made from the one exit that is on record for it. -/
theorem reports_recorded {ops : List Op} (hf : (machine S).Admissible (FreshId S) empty ops) (id : ShellId) :
    ∀ r ∈ reports S via ops id, Faithful ((machine S).run empty ops) id r := by
  have hrun := (machine S).trace_induction
    (P := fun tr m => CapacityInv S m ∧ m.ExitsRecorded id ∧ ∀ r ∈ tr.filterMap (reportOf via id), Faithful m id r)
    ⟨capacityInv_empty S, fun e he => (by cases he), fun r hr => (by cases hr)⟩ ?_ hf
  · exact hrun.2.2
  · intro tr m op hm hok
    obtain ⟨hcap, hrec, hreports⟩ := hm
    refine ⟨capacityInv_step hcap hok, exitsRecorded_step hcap hok hrec, ?_⟩
    intro r hr
    -- old reports and the new one are about an exit that is on record before the step, and stays so
    have hbefore : Faithful m id r := by
      rw [List.filterMap_append, List.mem_append] at hr
      rcases hr with hr | hr
      · exact hreports r hr
      · obtain ⟨_, hmem, hrep⟩ := List.mem_filterMap.mp hr
        rw [List.mem_singleton.mp hmem] at hrep
        exact faithful_reportOf hrec hrep
    obtain ⟨x, hx, hshape⟩ := hbefore
    exact ⟨x, recordedExit_step hcap hok hx, hshape⟩

end

/-! ## When they agree -/

/-- The two readings of "signaled" differ on a failure that has an exit code, and nowhere else. -/
theorem forwardReport_eq_iff (x : ExitSummary) : forwardReport x = terminateReport x ↔ x.success = true ∨ x.exitCode = 0 := by
  simp only [forwardReport, terminateReport, ShellExited.mk.injEq, true_and]
  cases x.success with
  | true => simp
  | false => simp

/-- A shell that exits while it is attached, and is terminated afterwards. -/
def exitAndTerminate (x : ExitSummary) : List Op :=
  [sampleOpen "alice" 1 sampleShell, .attach "alice" sampleShell (.repeated 1) 80 24 ⟨.ok (), .repeated 2, 2000⟩,
    .pumpEof sampleShell (.ok x), .recv sampleShell 1, .terminate sampleShell (.ok ())]

theorem exitAndTerminate_fresh (x : ExitSummary) :
    (machine Server.sample).Admissible (FreshId Server.sample) empty (exitAndTerminate x) :=
  ⟨rfl, rfl, rfl, rfl, rfl, trivial⟩

theorem exitAndTerminate_reports (x : ExitSummary) :
    reports Server.sample (fun _ _ => .connection) (exitAndTerminate x) sampleShell = [forwardReport x, terminateReport x] := rfl

theorem exitAndTerminate_recorded (x : ExitSummary) :
    recordedExit ((machine Server.sample).run empty (exitAndTerminate x)) sampleShell = some x := rfl

/-- All reports about a shell whose recorded exit is `x` say the same, in every run of the session core. -/
def ReportsAgree (x : ExitSummary) : Prop :=
  ∀ (V : Type) (S : Server V) (via : ShellId → Nat → Via) (ops : List Op) (id : ShellId),
    (machine S).Admissible (FreshId S) empty ops → recordedExit ((machine S).run empty ops) id = some x →
    ∀ r ∈ reports S via ops id, ∀ r' ∈ reports S via ops id, r = r'

/-- The reports of an exit agree in every run exactly when it is a success or its code is zero. -/
theorem exit_reports_agree_iff (x : ExitSummary) : ReportsAgree x ↔ x.success = true ∨ x.exitCode = 0 := by
  constructor
  · intro h
    have hmem := h Text Server.sample (fun _ _ => .connection) (exitAndTerminate x) sampleShell (exitAndTerminate_fresh x)
      (exitAndTerminate_recorded x)
    rw [exitAndTerminate_reports] at hmem
    exact (forwardReport_eq_iff x).mp (hmem _ List.mem_cons_self _ (List.mem_cons_of_mem _ List.mem_cons_self))
  · intro hx V S via ops id hf hrec
    have hone : ∀ r ∈ reports S via ops id, r = terminateReport x := by
      intro r hr
      obtain ⟨x', hx', hshape⟩ := reports_recorded hf id r hr
      rw [hrec] at hx'
      cases hx'
      rcases hshape with h | h | h
      · exact h
      · exact h.trans ((forwardReport_eq_iff x).mpr hx)
      · exact h
    intro r hr r' hr'
    rw [hone r hr, hone r' hr']

/-- A shell that exits with code 1: its attachment is told that it was signaled, whoever terminates it
    that it was not. -/
theorem exit_reports_differ : ¬ ∀ x, ReportsAgree x := by
  intro h
  have := (h ⟨false, 1⟩) Text Server.sample (fun _ _ => .connection) (exitAndTerminate ⟨false, 1⟩) sampleShell
    (exitAndTerminate_fresh _) (exitAndTerminate_recorded _) ⟨1, true⟩ (by decide) ⟨1, false⟩ (by decide)
  cases this

end Holdfast.Daemon

/-
  Holdfast.Session.Locks — who waits for whom: the manager lock, the runtime lock of each
  shell, the PTY's two buffers and the child (`crates/session-core/src/lib.rs`,
  `crates/pty/src/lib.rs`).

  This is the same core as `Session.Manager` one level down: there a critical section is
  one input, here a thread takes the lock, does what may block, and lets go. `entry()`
  and the short sections never block inside and stay one step. `write_input` writes to
  the PTY and the pump reaps the child with the runtime lock held. `list_shells`,
  `open_shell`, `remove_exited` and the scan of `reap_idle` hold the manager lock and
  take the runtime locks one by one; `terminate` waits for the exit on a condition
  variable, which holds nothing.

  The child side is whatever has the terminal open. It may read, write, close the
  terminal and exit at any time, in any order, or never do so again.

  Proved:
  - `lockInv_run`: with room for every write and a dead child at every EOF, no lock's
    holder needs the child.
  - `one_shell_cannot_wedge`: in the runs with that, no lock is ever held by a thread
    that waits on the child, and every lock can be released by the server's own threads.
  - `wedged_of_not_roomy`, `one_shell_wedges_all`: without it, the two ways it goes wrong.
-/

import Mathlib.Data.List.Perm.Basic
import Mathlib.Logic.Function.Basic
import Holdfast.Base.Machine

namespace Holdfast.Session.Locks

open Holdfast.Base

/-! ## State -/

/-- How many bytes the PTY holds in each direction. -/
structure Caps where
  input : Nat
  output : Nat

def ptyOutputQueueChunks : Nat := 64

def readBytes : Nat := 8192

/-- A shell's PTY, its reader thread and its child. -/
structure Tty where
  input : Nat
  output : Nat
  /-- Chunks in the reader's queue. -/
  queue : Nat
  /-- The reader thread has a chunk to send. -/
  holding : Bool
  /-- The reader thread is gone. -/
  eof : Bool
  /-- Something has the terminal open. -/
  opened : Bool
  /-- The child has not exited. -/
  alive : Bool
  killed : Bool
  deriving DecidableEq, Repr

def Tty.new : Tty := ⟨0, 0, 0, false, false, true, true, false⟩

/-- Threads that serve calls, and the pump of each shell. -/
inductive Tid where
  | call (n : Nat)
  | pump (s : Nat)
  deriving DecidableEq, Repr

/-- The calls on one shell. `other` is any whose section under the runtime lock does not
    block: attach, detach, resize, history, info. -/
inductive Call where
  | write (n : Nat)
  | terminate
  | other
  deriving DecidableEq, Repr

/-- The calls that hold the manager lock while they look at runtimes. -/
inductive Scan where
  | list
  | openShell (launches : Bool)
  | reopen (s : Nat)
  | remove (s : Nat)
  deriving DecidableEq, Repr

/-- After a look at a runtime: `remove_exited` gives up on a shell that has not exited. -/
def Scan.seen (k : Scan) (exited : Bool) : Scan :=
  match k, exited with
  | .remove _, false => .list
  | k, _ => k

/-- Where a thread is. -/
inductive Pc where
  | idle
  /-- In `entry()`, for the manager lock. -/
  | entry (s : Nat) (c : Call)
  | lock (s : Nat) (c : Call)
  /-- In `write_all`, with the runtime lock, `n` bytes to go. -/
  | writing (s n : Nat)
  /-- In `terminate`'s wait for the exit. -/
  | exitWait (s : Nat)
  | wake (s : Nat)
  | scanStart (k : Scan) (order : List Nat)
  /-- With the manager lock, the runtimes of `todo` still to look at. -/
  | scan (k : Scan) (todo : List Nat)
  | pumpRecv (s : Nat)
  | pumpLock (s : Nat)
  | pumpEof (s : Nat)
  /-- In the PTY's `wait`, with the runtime lock. -/
  | pumpWait (s : Nat)
  | pumpDone
  deriving DecidableEq, Repr

/-- Shells are numbered as they are opened; the PTY of one to come is new. -/
structure Sys where
  count : Nat
  /-- The shell is in the manager's map. -/
  present : Nat → Bool
  /-- The exit is recorded and the PTY taken. -/
  exited : Nat → Bool
  ttys : Nat → Tty
  manager : Option Tid
  runtime : Nat → Option Tid
  threads : Tid → Pc

inductive Ev where
  | call (n s : Nat) (c : Call)
  | scan (n : Nat) (k : Scan) (order : List Nat)
  | run (t : Tid)
  | reader (s : Nat)
  | childRead (s n : Nat)
  | childWrite (s n : Nat)
  | childClose (s : Nat)
  | childExit (s : Nat)
  deriving DecidableEq, Repr

/-! ## Steps -/

/-- The reader thread: read, send, or end at EOF. -/
def Tty.reader (y : Tty) : Tty :=
  if y.eof then y
  else if y.holding then
    if y.queue < ptyOutputQueueChunks then { y with queue := y.queue + 1, holding := false } else y
  else if 0 < y.output then { y with output := y.output - readBytes, holding := true }
  else if y.opened then y
  else { y with eof := true }

namespace Sys

def init : Sys := ⟨0, fun _ => false, fun _ => false, fun _ => .new, none, fun _ => none, fun _ => .idle⟩

def setPc (σ : Sys) (t : Tid) (pc : Pc) : Sys := { σ with threads := Function.update σ.threads t pc }

def setTty (σ : Sys) (s : Nat) (y : Tty) : Sys := { σ with ttys := Function.update σ.ttys s y }

def setRuntime (σ : Sys) (s : Nat) (holder : Option Tid) : Sys :=
  { σ with runtime := Function.update σ.runtime s holder }

@[simp] theorem threads_setPc_self (σ : Sys) (t : Tid) (pc : Pc) : (σ.setPc t pc).threads t = pc := by
  simp only [setPc, Function.update_self]

theorem threads_setPc_ne (σ : Sys) {t t' : Tid} (pc : Pc) (h : t' ≠ t) : (σ.setPc t pc).threads t' = σ.threads t' := by
  simp only [setPc, Function.update_of_ne h]

@[simp] theorem runtime_setRuntime_self (σ : Sys) (s : Nat) (holder : Option Tid) :
    (σ.setRuntime s holder).runtime s = holder := by
  simp only [setRuntime, Function.update_self]

theorem runtime_setRuntime_ne (σ : Sys) {s s' : Nat} (holder : Option Tid) (h : s' ≠ s) :
    (σ.setRuntime s holder).runtime s' = σ.runtime s' := by
  simp only [setRuntime, Function.update_of_ne h]

@[simp] theorem ttys_setTty_self (σ : Sys) (s : Nat) (y : Tty) : (σ.setTty s y).ttys s = y := by
  simp only [setTty, Function.update_self]

theorem ttys_setTty_ne (σ : Sys) {s s' : Nat} (y : Tty) (h : s' ≠ s) : (σ.setTty s y).ttys s' = σ.ttys s' := by
  simp only [setTty, Function.update_of_ne h]

@[simp] theorem runtime_setPc (σ : Sys) (t : Tid) (pc : Pc) : (σ.setPc t pc).runtime = σ.runtime := rfl
@[simp] theorem ttys_setPc (σ : Sys) (t : Tid) (pc : Pc) : (σ.setPc t pc).ttys = σ.ttys := rfl
@[simp] theorem threads_setRuntime (σ : Sys) (s : Nat) (holder : Option Tid) :
    (σ.setRuntime s holder).threads = σ.threads := rfl
@[simp] theorem ttys_setRuntime (σ : Sys) (s : Nat) (holder : Option Tid) : (σ.setRuntime s holder).ttys = σ.ttys := rfl
@[simp] theorem runtime_setTty (σ : Sys) (s : Nat) (y : Tty) : (σ.setTty s y).runtime = σ.runtime := rfl
@[simp] theorem threads_setTty (σ : Sys) (s : Nat) (y : Tty) : (σ.setTty s y).threads = σ.threads := rfl

variable (caps : Caps)

/-- The section of a call, once it has the runtime lock. -/
def locked (σ : Sys) (t : Tid) (s : Nat) : Call → Sys
  | .write n => if σ.exited s then σ.setPc t .idle else (σ.setRuntime s (some t)).setPc t (.writing s n)
  | .terminate =>
    if σ.exited s then σ.setPc t .idle
    else (σ.setTty s { σ.ttys s with killed := true }).setPc t (.exitWait s)
  | .other => σ.setPc t .idle

/-- One `write` of `write_all`: as much as there is room for, or an error on a terminal
    that nothing has open. -/
def write (σ : Sys) (t : Tid) (s n : Nat) : Sys :=
  let y := σ.ttys s
  let room := caps.input - y.input
  if y.opened = false then (σ.setRuntime s none).setPc t .idle
  else if n ≤ room then ((σ.setTty s { y with input := y.input + n }).setRuntime s none).setPc t .idle
  else (σ.setTty s { y with input := y.input + room }).setPc t (.writing s (n - room))

/-- The runtimes a scan looks at, in whatever order the map has. -/
def todo (σ : Sys) (k : Scan) (order : List Nat) : List Nat :=
  match k with
  | .reopen s | .remove s => if σ.present s then [s] else []
  | .list | .openShell _ =>
    let all := (List.range σ.count).filter σ.present
    if order.Perm all then order else all

/-- What a scan does with the manager lock in the end. -/
def scanned (σ : Sys) (t : Tid) : Scan → Sys
  | .openShell true =>
    let s := σ.count
    { σ with
      count := s + 1
      present := Function.update σ.present s true
      manager := none
      threads := Function.update (Function.update σ.threads t .idle) (.pump s) (.pumpRecv s) }
  | .remove s =>
    { σ with
      present := Function.update σ.present s false
      manager := none
      threads := Function.update σ.threads t .idle }
  | _ => { σ with manager := none, threads := Function.update σ.threads t .idle }

def runThread (σ : Sys) (t : Tid) : Sys :=
  match σ.threads t with
  | .idle | .pumpDone => σ
  | .entry s c => if σ.manager = none then σ.setPc t (if σ.present s then .lock s c else .idle) else σ
  | .lock s c => if σ.runtime s = none then σ.locked t s c else σ
  | .writing s n => σ.write caps t s n
  | .exitWait s => σ.setPc t (.wake s)
  | .wake s => if σ.runtime s = none then σ.setPc t .idle else σ
  | .scanStart k order =>
    if σ.manager = none then { σ with manager := some t }.setPc t (.scan k (σ.todo k order)) else σ
  | .scan k [] => σ.scanned t k
  | .scan k (s :: rest) => if σ.runtime s = none then σ.setPc t (.scan (k.seen (σ.exited s)) rest) else σ
  | .pumpRecv s =>
    if 0 < (σ.ttys s).queue then
      (σ.setTty s { σ.ttys s with queue := (σ.ttys s).queue - 1 }).setPc t (.pumpLock s)
    else if (σ.ttys s).eof then σ.setPc t (.pumpEof s)
    else σ
  | .pumpLock s => if σ.runtime s = none then σ.setPc t (.pumpRecv s) else σ
  | .pumpEof s => if σ.runtime s = none then (σ.setRuntime s (some t)).setPc t (.pumpWait s) else σ
  | .pumpWait s =>
    if (σ.ttys s).alive then σ
    else ({ σ with exited := Function.update σ.exited s true }.setRuntime s none).setPc t .pumpDone

/-- What the child and the reader thread of a shell do to its PTY. -/
def play (y : Tty) : Ev → Tty
  | .reader _ => y.reader
  | .childRead _ n => if y.opened then { y with input := y.input - n } else y
  | .childWrite _ n => if y.opened && y.output + n ≤ caps.output then { y with output := y.output + n } else y
  | .childClose _ => { y with opened := false }
  | .childExit _ => { y with alive := false }
  | _ => y

def step (σ : Sys) (e : Ev) : Sys :=
  match e with
  | .call n s c => if σ.threads (.call n) = .idle then σ.setPc (.call n) (.entry s c) else σ
  | .scan n k order => if σ.threads (.call n) = .idle then σ.setPc (.call n) (.scanStart k order) else σ
  | .run t => σ.runThread caps t
  | .reader s | .childRead s _ | .childWrite s _ | .childClose s | .childExit s =>
    if s < σ.count then σ.setTty s (play caps (σ.ttys s) e) else σ

def machine : Machine Sys Ev Unit := ⟨fun σ e => (σ.step caps e, ())⟩

/-! ## Waiting on the child -/

inductive Lock where
  | manager
  | runtime (s : Nat)
  deriving DecidableEq, Repr

def holder (σ : Sys) : Lock → Option Tid
  | .manager => σ.manager
  | .runtime s => σ.runtime s

/-- The thread goes on only when the child does something. -/
def blocked (σ : Sys) (t : Tid) : Bool :=
  match σ.threads t with
  | .writing s n => (σ.ttys s).opened && 0 < n && caps.input ≤ (σ.ttys s).input
  | .pumpWait s => (σ.ttys s).alive
  | _ => false

def Wedged (σ : Sys) : Prop := ∃ l t, σ.holder l = some t ∧ σ.blocked caps t = true

/-- Every lock is free after some steps of the server's threads alone. -/
def Releases (σ : Sys) : Prop := ∀ l, ∃ ts : List Tid, ((machine caps).run σ (ts.map Ev.run)).holder l = none

/-- A write that gets its lock finds room for all of its data, and a pump that gets it at
    EOF finds the child exited. -/
def roomy (σ : Sys) : Ev → Bool
  | .run t =>
    match σ.threads t with
    | .lock s (.write n) =>
      (σ.runtime s).isSome || σ.exited s || !(σ.ttys s).opened || n ≤ caps.input - (σ.ttys s).input
    | .pumpEof s => (σ.runtime s).isSome || !(σ.ttys s).alive
    | _ => true
  | _ => true

/-! ## What the holders of locks need -/

/-- The places in which a thread holds a runtime lock. -/
def holdsRuntime : Pc → Bool
  | .writing _ _ | .pumpWait _ => true
  | _ => false

/-- The places in which a thread holds a lock. -/
def holdsLock : Pc → Bool
  | .scan _ _ => true
  | pc => holdsRuntime pc

structure LockInv (σ : Sys) : Prop where
  manager : ∀ t, σ.manager = some t → ∃ k todo, σ.threads t = .scan k todo
  runtime : ∀ s t, σ.runtime s = some t → (∃ n, σ.threads t = .writing s n) ∨ σ.threads t = .pumpWait s
  writer : ∀ t s n, σ.threads t = .writing s n → σ.runtime s = some t
  reaper : ∀ t s, σ.threads t = .pumpWait s → σ.runtime s = some t
  room : ∀ t s n, σ.threads t = .writing s n → (σ.ttys s).opened = true → n ≤ caps.input - (σ.ttys s).input
  dead : ∀ t s, σ.threads t = .pumpWait s → (σ.ttys s).alive = false
  unborn : ∀ s, σ.count ≤ s → σ.threads (.pump s) = .idle

variable {caps}

theorem lockInv_init : LockInv caps init where
  manager _ h := by cases h
  runtime _ _ h := by cases h
  writer _ _ _ h := by cases h
  reaper _ _ h := by cases h
  room _ _ _ h := by cases h
  dead _ _ h := by cases h
  unborn _ _ := rfl

/-- The child, the reader and the pump only ever make room, close and die. -/
structure Quieter (y y' : Tty) : Prop where
  input : y'.input ≤ y.input
  opened : y'.opened = true → y.opened = true
  alive : y.alive = false → y'.alive = false

theorem LockInv.setTty {σ : Sys} (h : LockInv caps σ) {s : Nat} {y : Tty} (hq : Quieter (σ.ttys s) y) :
    LockInv caps (σ.setTty s y) := by
  refine ⟨h.manager, h.runtime, h.writer, h.reaper, ?_, ?_, h.unborn⟩
  · intro t s' n ht hopen
    by_cases hs : s' = s
    · subst hs
      rw [ttys_setTty_self] at hopen ⊢
      have := h.room t s' n ht (hq.opened hopen)
      have := hq.input
      omega
    · rw [ttys_setTty_ne σ _ hs] at hopen ⊢
      exact h.room t s' n ht hopen
  · intro t s' ht
    by_cases hs : s' = s
    · subst hs
      rw [ttys_setTty_self]
      exact hq.alive (h.dead t s' ht)
    · rw [ttys_setTty_ne σ _ hs]
      exact h.dead t s' ht

/-- A thread of a shell that exists may go anywhere. -/
theorem LockInv.unborn_setPc {σ : Sys} (h : LockInv caps σ) {t : Tid} {pc : Pc}
    (hborn : ∀ s, t = .pump s → s < σ.count) : ∀ s, σ.count ≤ s → (σ.setPc t pc).threads (.pump s) = .idle := by
  intro s hs
  by_cases htt : Tid.pump s = t
  · have := hborn s htt.symm
    omega
  · rw [threads_setPc_ne σ pc htt]
    exact h.unborn s hs

/-- A thread moves that has to do with no runtime lock, and the manager lock goes with
    it or stays. -/
theorem LockInv.manage {σ : Sys} (h : LockInv caps σ) {t : Tid} {pc : Pc} {m : Option Tid}
    (hold : holdsRuntime (σ.threads t) = false) (hnew : holdsRuntime pc = false)
    (hm : ∀ t', m = some t' → (t' = t → ∃ k todo, pc = .scan k todo) ∧ (t' ≠ t → σ.manager = some t'))
    (hborn : ∀ s, t = .pump s → s < σ.count) : LockInv caps ({ σ with manager := m }.setPc t pc) := by
  have hkeep : ∀ t' pc', ({ σ with manager := m }.setPc t pc).threads t' = pc' → holdsRuntime pc' = true →
      σ.threads t' = pc' := by
    intro t' pc' ht' hpc'
    by_cases htt : t' = t
    · subst htt
      rw [threads_setPc_self] at ht'
      rw [ht', hpc'] at hnew
      cases hnew
    · rwa [threads_setPc_ne _ _ htt] at ht'
  have hother : ∀ t', t' ≠ t → ({ σ with manager := m }.setPc t pc).threads t' = σ.threads t' :=
    fun t' ht' => threads_setPc_ne _ _ ht'
  have hne : ∀ t', holdsRuntime (σ.threads t') = true → t' ≠ t := by
    intro t' ht' htt
    subst htt
    rw [hold] at ht'
    cases ht'
  refine ⟨?_, ?_, ?_, ?_, ?_, ?_, ?_⟩
  · intro t' ht'
    obtain ⟨hself, helse⟩ := hm t' ht'
    by_cases htt : t' = t
    · obtain ⟨k, todo, hpc⟩ := hself htt
      subst htt
      exact ⟨k, todo, (threads_setPc_self _ _ _).trans hpc⟩
    · obtain ⟨k, todo, hpc⟩ := h.manager t' (helse htt)
      exact ⟨k, todo, (hother t' htt).trans hpc⟩
  · intro s t' ht'
    rcases h.runtime s t' ht' with ⟨n, hpc⟩ | hpc
    · exact .inl ⟨n, (hother t' (hne t' (by rw [hpc]; rfl))).trans hpc⟩
    · exact .inr ((hother t' (hne t' (by rw [hpc]; rfl))).trans hpc)
  · intro t' s n ht'
    exact h.writer t' s n (hkeep t' _ ht' rfl)
  · intro t' s ht'
    exact h.reaper t' s (hkeep t' _ ht' rfl)
  · intro t' s n ht'
    exact h.room t' s n (hkeep t' _ ht' rfl)
  · intro t' s ht'
    exact h.dead t' s (hkeep t' _ ht' rfl)
  · exact h.unborn_setPc hborn

/-- A thread that holds nothing goes to where it holds nothing. -/
theorem LockInv.setPc {σ : Sys} (h : LockInv caps σ) {t : Tid} {pc : Pc} (hold : holdsLock (σ.threads t) = false)
    (hnew : holdsLock pc = false) (hborn : ∀ s, t = .pump s → s < σ.count) : LockInv caps (σ.setPc t pc) := by
  have hweak : ∀ pc, holdsLock pc = false → holdsRuntime pc = false := by
    intro pc hpc
    cases pc <;> first | rfl | cases hpc
  refine h.manage (m := σ.manager) (hweak _ hold) (hweak _ hnew) ?_ hborn
  intro t' ht'
  refine ⟨?_, fun _ => ht'⟩
  intro htt
  subst htt
  obtain ⟨k, todo, hscan⟩ := h.manager t' ht'
  rw [hscan] at hold
  cases hold

/-- A thread that is somewhere is not the pump of a shell that does not exist. -/
theorem LockInv.born {σ : Sys} (h : LockInv caps σ) {t : Tid} (hpc : σ.threads t ≠ .idle) :
    ∀ s, t = .pump s → s < σ.count := by
  intro s hs
  by_contra hlt
  subst hs
  exact hpc (h.unborn s (by omega))

/-- Taking a free runtime lock, to write what there is room for or to reap a dead child. -/
theorem LockInv.acquire {σ : Sys} (h : LockInv caps σ) {t : Tid} {s : Nat} {pc : Pc}
    (hold : holdsLock (σ.threads t) = false) (hfree : σ.runtime s = none) (hborn : ∀ s, t = .pump s → s < σ.count)
    (hpc : (∃ n, pc = .writing s n ∧ ((σ.ttys s).opened = true → n ≤ caps.input - (σ.ttys s).input)) ∨
      pc = .pumpWait s ∧ (σ.ttys s).alive = false) :
    LockInv caps ((σ.setRuntime s (some t)).setPc t pc) := by
  have hne : ∀ t', holdsLock (σ.threads t') = true → t' ≠ t := by
    intro t' ht' htt
    subst htt
    rw [hold] at ht'
    cases ht'
  have hrt : ∀ s', s' ≠ s → ((σ.setRuntime s (some t)).setPc t pc).runtime s' = σ.runtime s' :=
    fun s' hs' => runtime_setRuntime_ne σ _ hs'
  have hself : ((σ.setRuntime s (some t)).setPc t pc).runtime s = some t := runtime_setRuntime_self σ s _
  have hth : ∀ t', t' ≠ t → ((σ.setRuntime s (some t)).setPc t pc).threads t' = σ.threads t' :=
    fun t' ht' => threads_setPc_ne _ pc ht'
  have htself : ((σ.setRuntime s (some t)).setPc t pc).threads t = pc := threads_setPc_self _ t pc
  refine ⟨?_, ?_, ?_, ?_, ?_, ?_, ?_⟩
  · intro t' ht'
    obtain ⟨k, todo, hscan⟩ := h.manager t' ht'
    exact ⟨k, todo, (hth t' (hne t' (by rw [hscan]; rfl))).trans hscan⟩
  · intro s' t' ht'
    by_cases hs' : s' = s
    · subst hs'
      rw [hself] at ht'
      cases ht'
      rw [htself]
      rcases hpc with ⟨n, rfl, -⟩ | ⟨rfl, -⟩
      · exact .inl ⟨n, rfl⟩
      · exact .inr rfl
    · rw [hrt s' hs'] at ht'
      rcases h.runtime s' t' ht' with ⟨n, hw⟩ | hw
      · exact .inl ⟨n, (hth t' (hne t' (by rw [hw]; rfl))).trans hw⟩
      · exact .inr ((hth t' (hne t' (by rw [hw]; rfl))).trans hw)
  · intro t' s' n ht'
    by_cases htt : t' = t
    · subst htt
      rw [htself] at ht'
      rcases hpc with ⟨n', rfl, -⟩ | ⟨rfl, -⟩
      · cases ht'; exact hself
      · cases ht'
    · rw [hth t' htt] at ht'
      have hw := h.writer t' s' n ht'
      rw [hrt s' (by intro hs; rw [hs, hfree] at hw; cases hw)]
      exact hw
  · intro t' s' ht'
    by_cases htt : t' = t
    · subst htt
      rw [htself] at ht'
      rcases hpc with ⟨n', rfl, -⟩ | ⟨rfl, -⟩
      · cases ht'
      · cases ht'; exact hself
    · rw [hth t' htt] at ht'
      have hw := h.reaper t' s' ht'
      rw [hrt s' (by intro hs; rw [hs, hfree] at hw; cases hw)]
      exact hw
  · intro t' s' n ht' hopen
    by_cases htt : t' = t
    · subst htt
      rw [htself] at ht'
      rcases hpc with ⟨n', rfl, hroom⟩ | ⟨rfl, -⟩
      · cases ht'; exact hroom hopen
      · cases ht'
    · rw [hth t' htt] at ht'
      exact h.room t' s' n ht' hopen
  · intro t' s' ht'
    by_cases htt : t' = t
    · subst htt
      rw [htself] at ht'
      rcases hpc with ⟨n', rfl, -⟩ | ⟨rfl, hdead⟩
      · cases ht'
      · cases ht'; exact hdead
    · rw [hth t' htt] at ht'
      exact h.dead t' s' ht'
  · exact h.unborn_setPc hborn

/-- Letting go of a runtime lock. -/
theorem LockInv.release {σ : Sys} (h : LockInv caps σ) {t : Tid} {s : Nat} {pc : Pc} (hheld : σ.runtime s = some t)
    (hnew : holdsLock pc = false) (hborn : ∀ s, t = .pump s → s < σ.count) :
    LockInv caps ((σ.setRuntime s none).setPc t pc) := by
  have hrt : ∀ s', s' ≠ s → ((σ.setRuntime s none).setPc t pc).runtime s' = σ.runtime s' :=
    fun s' hs' => runtime_setRuntime_ne σ _ hs'
  have hself : ((σ.setRuntime s none).setPc t pc).runtime s = none := runtime_setRuntime_self σ s _
  have hth : ∀ t', t' ≠ t → ((σ.setRuntime s none).setPc t pc).threads t' = σ.threads t' :=
    fun t' ht' => threads_setPc_ne _ pc ht'
  have htself : ((σ.setRuntime s none).setPc t pc).threads t = pc := threads_setPc_self _ t pc
  -- the thread held this one lock and no other
  have honly : ∀ s', σ.runtime s' = some t → s' = s := by
    intro s' hs'
    rcases h.runtime s t hheld with ⟨n, hpc⟩ | hpc <;> rcases h.runtime s' t hs' with ⟨n', hpc'⟩ | hpc' <;>
      rw [hpc] at hpc' <;> cases hpc' <;> rfl
  have hkeep : ∀ t' pc', ((σ.setRuntime s none).setPc t pc).threads t' = pc' → holdsLock pc' = true →
      t' ≠ t ∧ σ.threads t' = pc' := by
    intro t' pc' ht' hpc'
    by_cases htt : t' = t
    · subst htt
      rw [htself] at ht'
      rw [ht', hpc'] at hnew
      cases hnew
    · exact ⟨htt, (hth t' htt).symm.trans ht'⟩
  refine ⟨?_, ?_, ?_, ?_, ?_, ?_, ?_⟩
  · intro t' ht'
    obtain ⟨k, todo, hscan⟩ := h.manager t' ht'
    refine ⟨k, todo, (hth t' ?_).trans hscan⟩
    intro htt
    subst htt
    rcases h.runtime s t' hheld with ⟨n, hpc⟩ | hpc <;> rw [hscan] at hpc <;> cases hpc
  · intro s' t' ht'
    have hs' : s' ≠ s := by
      intro hss
      subst hss
      rw [hself] at ht'
      cases ht'
    rw [hrt s' hs'] at ht'
    have htt : t' ≠ t := fun htt => hs' (honly s' (htt ▸ ht'))
    rw [hth t' htt]
    exact h.runtime s' t' ht'
  · intro t' s' n ht'
    obtain ⟨htt, hpc⟩ := hkeep t' _ ht' rfl
    have hw := h.writer t' s' n hpc
    rw [hrt s' (fun hss => htt (Option.some.inj ((hss ▸ hw).symm.trans hheld)))]
    exact hw
  · intro t' s' ht'
    obtain ⟨htt, hpc⟩ := hkeep t' _ ht' rfl
    have hw := h.reaper t' s' hpc
    rw [hrt s' (fun hss => htt (Option.some.inj ((hss ▸ hw).symm.trans hheld)))]
    exact hw
  · intro t' s' n ht'
    exact h.room t' s' n (hkeep t' _ ht' rfl).2
  · intro t' s' ht'
    exact h.dead t' s' (hkeep t' _ ht' rfl).2
  · exact h.unborn_setPc hborn

/-- With no one writing to it, a PTY's input buffer may fill. -/
theorem LockInv.fill {σ : Sys} (h : LockInv caps σ) {s : Nat} (hfree : σ.runtime s = none) {n : Nat} :
    LockInv caps (σ.setTty s { σ.ttys s with input := n }) := by
  refine ⟨h.manager, h.runtime, h.writer, h.reaper, ?_, ?_, h.unborn⟩
  · intro t s' k ht hopen
    have hs : s' ≠ s := by
      intro hs
      subst hs
      have hw := h.writer t s' k ht
      rw [hfree] at hw
      cases hw
    rw [ttys_setTty_ne σ _ hs] at hopen ⊢
    exact h.room t s' k ht hopen
  · intro t s' ht
    by_cases hs : s' = s
    · subst hs
      rw [ttys_setTty_self]
      exact h.dead t s' ht
    · rw [ttys_setTty_ne σ _ hs]
      exact h.dead t s' ht

/-- A shell is added with a pump that holds nothing. -/
theorem LockInv.opens {σ : Sys} (h : LockInv caps σ) (present : Nat → Bool) :
    LockInv caps { σ with
      count := σ.count + 1
      present := present
      threads := Function.update σ.threads (.pump σ.count) (.pumpRecv σ.count) } := by
  have hidle := h.unborn σ.count (Nat.le_refl _)
  have hth : ∀ t, σ.threads t ≠ .idle →
      Function.update σ.threads (.pump σ.count) (.pumpRecv σ.count) t = σ.threads t := by
    intro t ht
    refine Function.update_of_ne ?_ _ _
    intro htt
    subst htt
    exact ht hidle
  have hkeep : ∀ t pc, Function.update σ.threads (.pump σ.count) (.pumpRecv σ.count) t = pc →
      holdsRuntime pc = true → σ.threads t = pc := by
    intro t pc ht hpc
    by_cases htt : t = .pump σ.count
    · subst htt
      rw [Function.update_self] at ht
      subst ht
      cases hpc
    · rwa [Function.update_of_ne htt] at ht
  refine ⟨?_, ?_, ?_, ?_, ?_, ?_, ?_⟩
  · intro t ht
    obtain ⟨k, todo, hpc⟩ := h.manager t ht
    exact ⟨k, todo, (hth t (by rw [hpc]; exact nofun)).trans hpc⟩
  · intro s t ht
    rcases h.runtime s t ht with ⟨n, hpc⟩ | hpc
    · exact .inl ⟨n, (hth t (by rw [hpc]; exact nofun)).trans hpc⟩
    · exact .inr ((hth t (by rw [hpc]; exact nofun)).trans hpc)
  · intro t s n ht
    exact h.writer t s n (hkeep t _ ht rfl)
  · intro t s ht
    exact h.reaper t s (hkeep t _ ht rfl)
  · intro t s n ht
    exact h.room t s n (hkeep t _ ht rfl)
  · intro t s ht
    exact h.dead t s (hkeep t _ ht rfl)
  · intro s hs
    have hs : σ.count + 1 ≤ s := hs
    have hne : Tid.pump s ≠ .pump σ.count := by
      intro he
      cases he
      omega
    show Function.update σ.threads _ _ (.pump s) = .idle
    rw [Function.update_of_ne hne]
    exact h.unborn s (by omega)

/-! ## Steps of the threads -/

theorem lockInv_locked {σ : Sys} (h : LockInv caps σ) {t : Tid} {s : Nat} {c : Call} (hpc : σ.threads t = .lock s c)
    (hfree : σ.runtime s = none)
    (hroom : ∀ n, c = .write n → σ.exited s = false → (σ.ttys s).opened = true →
      n ≤ caps.input - (σ.ttys s).input) : LockInv caps (σ.locked t s c) := by
  have hold : holdsLock (σ.threads t) = false := by rw [hpc]; rfl
  have hborn := h.born (t := t) (by rw [hpc]; exact nofun)
  cases c with
  | write n =>
    simp only [locked]
    split
    · exact h.setPc hold rfl hborn
    · rename_i hex
      exact h.acquire hold hfree hborn (.inl ⟨n, rfl, hroom n rfl (by simpa using hex)⟩)
  | terminate =>
    simp only [locked]
    split
    · exact h.setPc hold rfl hborn
    · have hkill : Quieter (σ.ttys s) { σ.ttys s with killed := true } := ⟨Nat.le_refl _, fun ho => ho, fun ha => ha⟩
      exact (h.setTty hkill).setPc hold rfl hborn
  | other => exact h.setPc hold rfl hborn

/-- A write with room for all of its data is over in one step. -/
theorem write_releases {σ : Sys} (h : LockInv caps σ) {t : Tid} {s n : Nat} (hpc : σ.threads t = .writing s n) :
    LockInv caps (σ.write caps t s n) ∧ (σ.write caps t s n).runtime s = none ∧
      ∀ t', t' ≠ t → (σ.write caps t s n).threads t' = σ.threads t' := by
  have hheld := h.writer t s n hpc
  have hborn := h.born (t := t) (by rw [hpc]; exact nofun)
  have hrel : LockInv caps ((σ.setRuntime s none).setPc t .idle) := h.release hheld rfl hborn
  have hfree : ((σ.setRuntime s none).setPc t .idle).runtime s = none := runtime_setRuntime_self σ s none
  have hth : ∀ t', t' ≠ t → ((σ.setRuntime s none).setPc t .idle).threads t' = σ.threads t' :=
    fun t' ht' => threads_setPc_ne _ _ ht'
  unfold write
  simp only
  split
  · exact ⟨hrel, hfree, hth⟩
  · rename_i hopen
    rw [if_pos (h.room t s n hpc (by simpa using hopen))]
    exact ⟨hrel.fill hfree, hfree, hth⟩

/-- So is the reaping of a dead child. -/
theorem reap_releases {σ : Sys} (h : LockInv caps σ) {t : Tid} {s : Nat} (hpc : σ.threads t = .pumpWait s) :
    LockInv caps (σ.runThread caps t) ∧ (σ.runThread caps t).runtime s = none ∧
      ∀ t', t' ≠ t → (σ.runThread caps t).threads t' = σ.threads t' := by
  have hborn := h.born (t := t) (by rw [hpc]; exact nofun)
  have hex : LockInv caps { σ with exited := Function.update σ.exited s true } :=
    ⟨h.manager, h.runtime, h.writer, h.reaper, h.room, h.dead, h.unborn⟩
  simp only [runThread, hpc, h.dead t s hpc, Bool.false_eq_true, if_false]
  refine ⟨hex.release (h.reaper t s hpc) rfl hborn, ?_, ?_⟩
  · exact runtime_setRuntime_self _ s none
  · intro t' ht'
    exact threads_setPc_ne _ _ ht'

theorem lockInv_scanned {σ : Sys} (h : LockInv caps σ) {t : Tid} {k : Scan} {todo : List Nat}
    (hpc : σ.threads t = .scan k todo) : LockInv caps (σ.scanned t k) := by
  have hdone : LockInv caps ({ σ with manager := none }.setPc t .idle) :=
    h.manage (m := none) (by rw [hpc]; rfl) rfl (by intro t' ht'; cases ht') (h.born (by rw [hpc]; exact nofun))
  have hpresent : ∀ present, LockInv caps { { σ with manager := none }.setPc t .idle with present := present } :=
    fun present => ⟨hdone.manager, hdone.runtime, hdone.writer, hdone.reaper, hdone.room, hdone.dead, hdone.unborn⟩
  cases k with
  | list => exact hdone
  | reopen s => exact hdone
  | remove s => exact hpresent _
  | openShell launches =>
    cases launches with
    | false => exact hdone
    | true => exact hdone.opens _

theorem lockInv_run_thread {σ : Sys} (h : LockInv caps σ) {t : Tid} (hroomy : roomy caps σ (.run t) = true) :
    LockInv caps (σ.runThread caps t) := by
  cases hpc : σ.threads t with
  | idle => simpa [runThread, hpc] using h
  | pumpDone => simpa [runThread, hpc] using h
  | entry s c =>
    have hborn := h.born (t := t) (by rw [hpc]; exact nofun)
    simp only [runThread, hpc]
    split
    · split
      · exact h.setPc (by rw [hpc]; rfl) rfl hborn
      · exact h.setPc (by rw [hpc]; rfl) rfl hborn
    · exact h
  | lock s c =>
    simp only [runThread, hpc]
    split
    · rename_i hfree
      refine lockInv_locked h hpc hfree ?_
      intro n hc hex hopen
      subst hc
      simpa [roomy, hpc, hfree, hex, hopen] using hroomy
    · exact h
  | writing s n =>
    simp only [runThread, hpc]
    exact (write_releases h hpc).1
  | exitWait s =>
    simp only [runThread, hpc]
    exact h.setPc (by rw [hpc]; rfl) rfl (h.born (by rw [hpc]; exact nofun))
  | wake s =>
    simp only [runThread, hpc]
    split
    · exact h.setPc (by rw [hpc]; rfl) rfl (h.born (by rw [hpc]; exact nofun))
    · exact h
  | scanStart k order =>
    simp only [runThread, hpc]
    split
    · refine h.manage (by rw [hpc]; rfl) rfl ?_ (h.born (by rw [hpc]; exact nofun))
      intro t' ht'
      cases ht'
      exact ⟨fun _ => ⟨_, _, rfl⟩, fun hne => absurd rfl hne⟩
    · exact h
  | scan k todo =>
    cases todo with
    | nil =>
      simp only [runThread, hpc]
      exact lockInv_scanned h hpc
    | cons s rest =>
      simp only [runThread, hpc]
      split
      · refine h.manage (m := σ.manager) (by rw [hpc]; rfl) rfl ?_ (h.born (by rw [hpc]; exact nofun))
        intro t' ht'
        exact ⟨fun _ => ⟨_, _, rfl⟩, fun _ => ht'⟩
      · exact h
  | pumpRecv s =>
    have hborn := h.born (t := t) (by rw [hpc]; exact nofun)
    simp only [runThread, hpc]
    split
    · have htake : Quieter (σ.ttys s) { σ.ttys s with queue := (σ.ttys s).queue - 1 } :=
        ⟨Nat.le_refl _, fun ho => ho, fun ha => ha⟩
      exact (h.setTty htake).setPc (by show holdsLock (σ.threads t) = false; rw [hpc]; rfl) rfl hborn
    · split
      · exact h.setPc (by rw [hpc]; rfl) rfl hborn
      · exact h
  | pumpLock s =>
    simp only [runThread, hpc]
    split
    · exact h.setPc (by rw [hpc]; rfl) rfl (h.born (by rw [hpc]; exact nofun))
    · exact h
  | pumpEof s =>
    simp only [runThread, hpc]
    split
    · rename_i hfree
      refine h.acquire (by rw [hpc]; rfl) hfree (h.born (by rw [hpc]; exact nofun)) (.inr ⟨rfl, ?_⟩)
      simpa [roomy, hpc, hfree] using hroomy
    · exact h
  | pumpWait s => exact (reap_releases h hpc).1

theorem quieter_reader (y : Tty) : Quieter y y.reader := by
  have hself : Quieter y y := ⟨Nat.le_refl _, fun ho => ho, fun ha => ha⟩
  unfold Tty.reader
  split
  · exact hself
  · split
    · split
      · exact ⟨Nat.le_refl _, fun ho => ho, fun ha => ha⟩
      · exact hself
    · split
      · exact ⟨Nat.le_refl _, fun ho => ho, fun ha => ha⟩
      · split
        · exact hself
        · exact ⟨Nat.le_refl _, fun ho => ho, fun ha => ha⟩

theorem quieter_play (y : Tty) (e : Ev) : Quieter y (play caps y e) := by
  have hself : Quieter y y := ⟨Nat.le_refl _, fun ho => ho, fun ha => ha⟩
  cases e with
  | reader s => exact quieter_reader y
  | childRead s n =>
    simp only [play]
    split
    · exact ⟨Nat.sub_le _ _, fun ho => ho, fun ha => ha⟩
    · exact hself
  | childWrite s n =>
    simp only [play]
    split
    · exact ⟨Nat.le_refl _, fun ho => ho, fun ha => ha⟩
    · exact hself
  | childClose s => exact ⟨Nat.le_refl _, fun ho => (by cases ho), fun ha => ha⟩
  | childExit s => exact ⟨Nat.le_refl _, fun ho => ho, fun _ => rfl⟩
  | call n s c => exact hself
  | scan n k order => exact hself
  | run t => exact hself

theorem lockInv_step {σ : Sys} (h : LockInv caps σ) {e : Ev} (hroomy : roomy caps σ e = true) :
    LockInv caps (σ.step caps e) := by
  have hplay : ∀ s e, LockInv caps (if s < σ.count then σ.setTty s (play caps (σ.ttys s) e) else σ) := by
    intro s e
    split
    · exact h.setTty (quieter_play _ e)
    · exact h
  cases e with
  | call n s c =>
    simp only [step]
    split
    · rename_i hidle
      exact h.setPc (by rw [hidle]; rfl) rfl (by intro s hs; cases hs)
    · exact h
  | scan n k order =>
    simp only [step]
    split
    · rename_i hidle
      exact h.setPc (by rw [hidle]; rfl) rfl (by intro s hs; cases hs)
    · exact h
  | run t => exact lockInv_run_thread h hroomy
  | reader s => exact hplay s _
  | childRead s n => exact hplay s _
  | childWrite s n => exact hplay s _
  | childClose s => exact hplay s _
  | childExit s => exact hplay s _

theorem lockInv_run {evs : List Ev} (hroomy : (machine caps).Admissible (fun σ e => roomy caps σ e = true) init evs) :
    LockInv caps ((machine caps).run init evs) :=
  (machine caps).run_induction (P := LockInv caps) (fun _ _ h he => lockInv_step h he) lockInv_init hroomy

/-! ## No lock waits on the child -/

theorem not_wedged {σ : Sys} (h : LockInv caps σ) : ¬Wedged caps σ := by
  intro hw
  obtain ⟨l, t, -, hb⟩ := hw
  unfold blocked at hb
  split at hb
  · rename_i s n hpc
    simp only [Bool.and_eq_true, decide_eq_true_eq] at hb
    have := h.room t s n hpc hb.1.1
    omega
  · rename_i s hpc
    rw [h.dead t s hpc] at hb
    cases hb
  · cases hb

/-- The holder of a runtime lock lets go of it in one step. -/
theorem holder_releases {σ : Sys} (h : LockInv caps σ) {s : Nat} {t : Tid} (hheld : σ.runtime s = some t) :
    LockInv caps (σ.runThread caps t) ∧ (σ.runThread caps t).runtime s = none ∧
      ∀ t' k todo, σ.threads t' = .scan k todo → (σ.runThread caps t).threads t' = .scan k todo := by
  rcases h.runtime s t hheld with ⟨n, hpc⟩ | hpc
  · obtain ⟨hinv, hfree, hth⟩ := write_releases h hpc
    have hrun : σ.runThread caps t = σ.write caps t s n := by simp only [runThread, hpc]
    rw [hrun]
    refine ⟨hinv, hfree, ?_⟩
    intro t' k todo ht'
    rw [hth t' (by intro htt; subst htt; rw [hpc] at ht'; cases ht')]
    exact ht'
  · obtain ⟨hinv, hfree, hth⟩ := reap_releases h hpc
    refine ⟨hinv, hfree, ?_⟩
    intro t' k todo ht'
    rw [hth t' (by intro htt; subst htt; rw [hpc] at ht'; cases ht')]
    exact ht'

theorem release_runtime {σ : Sys} (h : LockInv caps σ) (s : Nat) :
    ∃ ts : List Tid, LockInv caps ((machine caps).run σ (ts.map Ev.run)) ∧
      ((machine caps).run σ (ts.map Ev.run)).runtime s = none ∧
      ∀ t k todo, σ.threads t = .scan k todo →
        ((machine caps).run σ (ts.map Ev.run)).threads t = .scan k todo := by
  cases hheld : σ.runtime s with
  | none => exact ⟨[], h, hheld, fun _ _ _ ht => ht⟩
  | some t => exact ⟨[t], holder_releases h hheld⟩

/-- A scan gets through its runtimes, one after the other. -/
theorem release_scan {σ : Sys} (h : LockInv caps σ) {t : Tid} {k : Scan} {todo : List Nat}
    (hpc : σ.threads t = .scan k todo) : ∃ ts : List Tid, ((machine caps).run σ (ts.map Ev.run)).manager = none := by
  induction todo generalizing σ k with
  | nil =>
    refine ⟨[t], ?_⟩
    show (σ.runThread caps t).manager = none
    simp only [runThread, hpc]
    cases k with
    | list => rfl
    | reopen s => rfl
    | remove s => rfl
    | openShell launches => cases launches <;> rfl
  | cons s rest ih =>
    obtain ⟨ts, hinv, hfree, hscan⟩ := release_runtime h s
    have hpc' := hscan t k _ hpc
    generalize hσ : (machine caps).run σ (ts.map Ev.run) = σ' at hinv hfree hpc'
    have hnext : σ'.runThread caps t = σ'.setPc t (.scan (k.seen (σ'.exited s)) rest) := by
      simp only [runThread, hpc', hfree, if_true]
    have hinv' : LockInv caps (σ'.runThread caps t) := lockInv_run_thread hinv (by simp [roomy, hpc'])
    obtain ⟨ts', hdone⟩ := ih hinv' (by rw [hnext]; exact threads_setPc_self _ _ _)
    refine ⟨ts ++ t :: ts', ?_⟩
    rw [List.map_append, Machine.run_append, hσ]
    exact hdone

theorem releases {σ : Sys} (h : LockInv caps σ) : Releases caps σ := by
  intro l
  cases l with
  | manager =>
    cases hheld : σ.manager with
    | none => exact ⟨[], hheld⟩
    | some t =>
      obtain ⟨k, todo, hpc⟩ := h.manager t hheld
      exact release_scan h hpc
  | runtime s =>
    obtain ⟨ts, -, hfree, -⟩ := release_runtime h s
    exact ⟨ts, hfree⟩

/-- A write without room fills the buffer and waits there, and so does the reaping of a
    child that lives. -/
theorem wedged_of_not_roomy {σ : Sys} {t : Tid} (hroomy : roomy caps σ (.run t) = false) :
    Wedged caps ((machine caps).run σ [.run t, .run t]) := by
  show Wedged caps ((σ.runThread caps t).runThread caps t)
  unfold roomy at hroomy
  simp only at hroomy
  split at hroomy
  · rename_i s n hpc
    simp only [Bool.or_eq_false_iff, Bool.not_eq_false', decide_eq_false_iff_not, Option.isSome_eq_false_iff,
      Option.isNone_iff_eq_none] at hroomy
    obtain ⟨⟨⟨hfree, hex⟩, hopen⟩, hroom⟩ := hroomy
    have hlocked : σ.runThread caps t = (σ.setRuntime s (some t)).setPc t (.writing s n) := by
      simp only [runThread, hpc, hfree, if_true, locked, hex, Bool.false_eq_true, if_false]
    refine ⟨.runtime s, t, ?_, ?_⟩
    · rw [hlocked]
      simp [runThread, write, holder, hopen, hroom]
    · rw [hlocked]
      simp only [runThread, write, threads_setPc_self, ttys_setPc, ttys_setRuntime, ttys_setTty_self, hopen, hroom,
        Bool.true_eq_false, if_false, blocked, Bool.true_and, Bool.and_eq_true, decide_eq_true_eq]
      omega
  · rename_i s hpc
    simp only [Bool.or_eq_false_iff, Bool.not_eq_false', Option.isSome_eq_false_iff,
      Option.isNone_iff_eq_none] at hroomy
    obtain ⟨hfree, halive⟩ := hroomy
    have hwait : σ.runThread caps t = (σ.setRuntime s (some t)).setPc t (.pumpWait s) := by
      simp only [runThread, hpc, hfree, if_true]
    refine ⟨.runtime s, t, ?_, ?_⟩
    · rw [hwait]
      simp [runThread, holder, halive]
    · rw [hwait]
      simp [runThread, blocked, halive]
  · cases hroomy

/-- No thread holds a lock while it waits on the child, and every lock comes free by the
    server's threads alone. A step without room is two of its thread's steps away from
    the opposite. -/
theorem one_shell_cannot_wedge (caps : Caps) (evs : List Ev)
    (hroomy : (machine caps).Admissible (fun σ e => roomy caps σ e = true) init evs) :
    (∀ pre post, evs = pre ++ post →
      ¬Wedged caps ((machine caps).run init pre) ∧ Releases caps ((machine caps).run init pre)) ∧
    ∀ t, roomy caps ((machine caps).run init evs) (.run t) = false →
      Wedged caps ((machine caps).run init (evs ++ [.run t, .run t])) := by
  refine ⟨?_, ?_⟩
  · intro pre post hevs
    subst hevs
    obtain ⟨hpre, -⟩ := (machine caps).admissible_append.mp hroomy
    have hinv := lockInv_run hpre
    exact ⟨not_wedged hinv, releases hinv⟩
  · intro t hfull
    rw [Machine.run_append]
    exact wedged_of_not_roomy hfull

/-- A write that fits, a child that exits and leaves its terminal, and the pump that reaps it. -/
def quietLife : List Ev :=
  [.scan 0 (.openShell true) [], .run (.call 0), .run (.call 0),
   .call 0 0 (.write 3), .run (.call 0), .run (.call 0), .run (.call 0),
   .childExit 0, .childClose 0, .reader 0, .run (.pump 0), .run (.pump 0), .run (.pump 0)]

theorem one_shell_cannot_wedge_quiet :
    (machine ⟨4095, 4096⟩).Admissible (fun σ e => roomy ⟨4095, 4096⟩ σ e = true) init quietLife ∧
    ((machine ⟨4095, 4096⟩).run init quietLife).exited 0 = true ∧
    Releases ⟨4095, 4096⟩ ((machine ⟨4095, 4096⟩).run init quietLife) := by
  have hroomy : (machine ⟨4095, 4096⟩).Admissible (fun σ e => roomy ⟨4095, 4096⟩ σ e = true) init quietLife := by
    decide
  exact ⟨hroomy, by decide, ((one_shell_cannot_wedge _ _ hroomy).1 quietLife [] (by simp)).2⟩

/-! ## The two ways it goes wrong -/

/-- A child that has its terminal in raw mode and does not read it, a paste of more than the
    kernel holds for it, and a `list_shells` and a `terminate` behind it. (A line that is too
    long for a terminal in canonical mode is cut instead.) -/
def fullTerminal : List Ev :=
  [.scan 0 (.openShell true) [], .run (.call 0), .run (.call 0),
   .scan 0 (.openShell true) [], .run (.call 0), .run (.call 0), .run (.call 0),
   .call 1 0 (.write 65536), .run (.call 1), .run (.call 1), .run (.call 1),
   .call 3 0 .terminate, .run (.call 3),
   .scan 2 .list [0, 1], .run (.call 2),
   .call 4 1 .other]

/-- A child that closes its terminal and lives on. -/
def closedTerminal : List Ev :=
  [.scan 0 (.openShell true) [], .run (.call 0), .run (.call 0),
   .childClose 0, .reader 0, .run (.pump 0), .run (.pump 0),
   .call 3 0 .terminate, .run (.call 3),
   .scan 2 .list [0], .run (.call 2)]

/-- The runtime lock waits on the child, the manager lock on the runtime lock, and
    `terminate` of the shell and a call on another one wait for these. -/
theorem one_shell_wedges_all :
    (∃ σ, (machine ⟨20480, 4096⟩).run init fullTerminal = σ ∧ Wedged ⟨20480, 4096⟩ σ ∧
      σ.runtime 0 = some (.call 1) ∧ σ.manager = some (.call 2) ∧
      σ.threads (.call 3) = .lock 0 .terminate ∧ σ.threads (.call 4) = .entry 1 .other) ∧
    (∃ σ, (machine ⟨20480, 4096⟩).run init closedTerminal = σ ∧ Wedged ⟨20480, 4096⟩ σ ∧
      σ.runtime 0 = some (.pump 0) ∧ σ.manager = some (.call 2) ∧ σ.threads (.call 3) = .lock 0 .terminate) := by
  refine ⟨⟨_, rfl, ⟨.runtime 0, .call 1, ?_, ?_⟩, ?_, ?_, ?_, ?_⟩,
    ⟨_, rfl, ⟨.runtime 0, .pump 0, ?_, ?_⟩, ?_, ?_, ?_⟩⟩ <;> decide

end Sys

end Holdfast.Session.Locks

/-
  Holdfast.Daemon.Permits — the limits on uploads and forwards across all connections
  (`UploadService::try_acquire` and `UploadPermit` of `crates/daemon/src/uploads.rs`,
  `ForwardService::acquire` and `Permit` of `crates/daemon/src/forward.rs`).

  The upload service keeps a global count beside the counts per user; the forward service
  adds the counts per user up each time. Either gives out a permit, whose drop takes the
  count back. `Pool` is a service with the permits that are alive: a permit is in it from
  the acquire that gave it out to its one drop.

  Proved:
  - `accounted_step` / `accounted_run`: the per-user table counts the live permits.
  - `permit_accounting`: and so does the global count; the limits hold, a refused acquire
    changes nothing, no count underflows and none is left at zero.
-/

import Holdfast.Base.Machine
import Holdfast.Base.Tally

namespace Holdfast.Daemon

open Holdfast.Base

def maxUploadsPerUser : Nat := 4
def maxUploadsGlobal : Nat := 16
def maxForwardsPerUser : Nat := 32
def maxForwardsGlobal : Nat := 128

/-! ## The services -/

/-- `Counts` of the upload service. -/
structure Counts where
  global : Nat
  byUser : Table String Nat

namespace Counts

def new : Counts := ⟨0, ∅⟩

/-- `none`: `LimitExceeded`. -/
def tryAcquire (c : Counts) (user : String) : Option Counts :=
  let userCount := (c.byUser.lookup user).getD 0
  if c.global ≥ maxUploadsGlobal ∨ userCount ≥ maxUploadsPerUser then none
  else some ⟨c.global + 1, c.byUser.insert user (userCount + 1)⟩

/-- `UploadPermit::drop`; both subtractions saturate. -/
def drop (c : Counts) (user : String) : Counts :=
  { global := c.global - 1
    byUser :=
      match c.byUser.lookup user with
      | none => c.byUser
      | some count => if count - 1 = 0 then c.byUser.erase user else c.byUser.insert user (count - 1) }

end Counts

/-- `ForwardService::active`. -/
structure Active where
  byUser : Table String Nat

namespace Active

def new : Active := ⟨∅⟩

def global (a : Active) : Nat := a.byUser.values.sum

def acquire (a : Active) (user : String) : Option Active :=
  if a.global ≥ maxForwardsGlobal ∨ (a.byUser.lookup user).getD 0 ≥ maxForwardsPerUser then none
  else some ⟨a.byUser.insert user ((a.byUser.lookup user).getD 0 + 1)⟩

/-- `Permit::drop`. -/
def drop (a : Active) (user : String) : Active :=
  match a.byUser.lookup user with
  | none => a
  | some n => if n - 1 = 0 then ⟨a.byUser.erase user⟩ else ⟨a.byUser.insert user (n - 1)⟩

end Active

/-- What the two have in common. -/
structure Service (σ : Type) where
  new : σ
  acquire : σ → String → Option σ
  drop : σ → String → σ
  global : σ → Nat
  byUser : σ → Table String Nat
  perUserLimit : Nat
  globalLimit : Nat

def uploadService : Service Counts :=
  ⟨.new, Counts.tryAcquire, Counts.drop, Counts.global, Counts.byUser, maxUploadsPerUser, maxUploadsGlobal⟩

def forwardService : Service Active :=
  ⟨.new, Active.acquire, Active.drop, Active.global, Active.byUser, maxForwardsPerUser, maxForwardsGlobal⟩

/-! ## Permits -/

/-- A service, and the user of each permit that is alive. -/
structure Pool (σ : Type) where
  service : σ
  live : List String

inductive PermitInput where
  | acquire (user : String)
  /-- The permit at this place of `live` is dropped. -/
  | drop (permit : Nat)
  deriving DecidableEq, Repr

structure PermitOutput where
  granted : Bool
  /-- A count that is lowered was at zero, or not there. -/
  underflow : Bool
  deriving DecidableEq, Repr

namespace Service

variable {σ : Type} (S : Service σ)

/-- Nothing to lower for this user. -/
def underflows (s : σ) (user : String) : Bool := S.global s == 0 || ((S.byUser s).lookup user).getD 0 == 0

def step (p : Pool σ) : PermitInput → Pool σ × PermitOutput
  | .acquire user =>
    match S.acquire p.service user with
    | none => (p, ⟨false, false⟩)
    | some s => (⟨s, user :: p.live⟩, ⟨true, false⟩)
  | .drop permit =>
    match p.live[permit]? with
    | none => (p, ⟨false, false⟩)
    | some user => (⟨S.drop p.service user, p.live.eraseIdx permit⟩, ⟨false, S.underflows p.service user⟩)

def machine : Machine (Pool σ) PermitInput PermitOutput := ⟨S.step⟩

def start : Pool σ := ⟨S.new, []⟩

/-- The counts are those of the live permits, and within the limits. -/
structure Accounted (p : Pool σ) : Prop where
  global : S.global p.service = p.live.length
  tallies : Tallies (S.byUser p.service) p.live
  globalLimit : S.global p.service ≤ S.globalLimit
  userLimit : ∀ user, p.live.count user ≤ S.perUserLimit

/-- How the service moves its counts; the global one is kept or added up. -/
structure Lawful : Prop where
  new : S.global S.new = 0 ∧ S.byUser S.new = ∅
  acquire : ∀ s user s', S.acquire s user = some s' →
    S.global s < S.globalLimit ∧ ((S.byUser s).lookup user).getD 0 < S.perUserLimit ∧
      S.byUser s' = raise (S.byUser s) user ∧ (S.global s' = S.global s + 1 ∨ S.global s' = (S.byUser s').values.sum)
  drop : ∀ s user, S.byUser (S.drop s user) = lower (S.byUser s) user ∧
    (S.global (S.drop s user) = S.global s - 1 ∨ S.global (S.drop s user) = (S.byUser (S.drop s user)).values.sum)

end Service

theorem uploadService_lawful : uploadService.Lawful := by
  refine ⟨⟨rfl, rfl⟩, ?_, ?_⟩
  · intro s user s' h
    simp only [uploadService, Counts.tryAcquire] at h
    split at h
    · cases h
    · rename_i hfree
      cases h
      rw [not_or, Nat.not_le, Nat.not_le] at hfree
      exact ⟨hfree.1, hfree.2, rfl, .inl rfl⟩
  · intro s user
    exact ⟨rfl, .inl rfl⟩

theorem forwardService_lawful : forwardService.Lawful := by
  refine ⟨⟨rfl, rfl⟩, ?_, ?_⟩
  · intro s user s' h
    simp only [forwardService, Active.acquire] at h
    split at h
    · cases h
    · rename_i hfree
      cases h
      rw [not_or, Nat.not_le, Nat.not_le] at hfree
      exact ⟨hfree.1, hfree.2, rfl, .inr rfl⟩
  · intro s user
    refine ⟨?_, .inr rfl⟩
    simp only [forwardService, Active.drop, lower]
    cases hn : s.byUser.lookup user with
    | none => rfl
    | some n =>
      simp only
      split <;> rfl

namespace Service

variable {σ : Type} {S : Service σ} {p : Pool σ}

theorem accounted_start (hS : S.Lawful) : S.Accounted S.start := by
  obtain ⟨hglobal, hempty⟩ := hS.new
  refine ⟨hglobal, ?_, ?_, fun _ => Nat.zero_le _⟩
  · rw [start, hempty]
    exact Tallies.empty
  · rw [start, hglobal]
    exact Nat.zero_le _

theorem accounted_acquire (hS : S.Lawful) (h : S.Accounted p) {user : String} {s : σ}
    (ha : S.acquire p.service user = some s) : S.Accounted ⟨s, user :: p.live⟩ := by
  obtain ⟨hglobal, huser, hraise, hcount⟩ := hS.acquire _ _ _ ha
  have htallies : Tallies (S.byUser s) (user :: p.live) := by
    rw [hraise]
    exact tallies_raise h.tallies user
  have hg : S.global s = (user :: p.live).length := by
    rcases hcount with hcount | hcount
    · rw [hcount, h.global, List.length_cons]
    · rw [hcount, htallies.sum]
  refine ⟨hg, htallies, ?_, ?_⟩
  · rw [h.global] at hglobal
    rw [hg, List.length_cons]
    exact hglobal
  · intro u
    by_cases hu : u = user
    · subst hu
      rw [List.count_cons_self, ← h.tallies.count]
      exact huser
    · rw [List.count_cons_of_ne (Ne.symm hu)]
      exact h.userLimit u

theorem accounted_drop (hS : S.Lawful) (h : S.Accounted p) {permit : Nat} {user : String}
    (hp : p.live[permit]? = some user) : S.Accounted ⟨S.drop p.service user, p.live.eraseIdx permit⟩ := by
  obtain ⟨hlower, hcount⟩ := hS.drop p.service user
  obtain ⟨hlt, hget⟩ := List.getElem?_eq_some_iff.mp hp
  have hmem : user ∈ p.live := List.mem_of_getElem? hp
  have hperm : (p.live.eraseIdx permit).Perm (p.live.erase user) := by
    have hcons := List.getElem_cons_eraseIdx_perm hlt
    rw [hget] at hcons
    exact (hcons.trans (List.perm_cons_erase hmem)).cons_inv
  have htallies : Tallies (S.byUser (S.drop p.service user)) (p.live.eraseIdx permit) := by
    rw [hlower]
    exact (tallies_lower h.tallies hmem).perm hperm
  have hlen : (p.live.eraseIdx permit).length = p.live.length - 1 := List.length_eraseIdx_of_lt hlt
  have hg : S.global (S.drop p.service user) = (p.live.eraseIdx permit).length := by
    rcases hcount with hcount | hcount
    · rw [hcount, h.global, hlen]
    · rw [hcount, htallies.sum]
  refine ⟨hg, htallies, ?_, ?_⟩
  · have hlimit := h.globalLimit
    rw [h.global] at hlimit
    rw [hg, hlen]
    omega
  · intro u
    exact Nat.le_trans ((List.eraseIdx_sublist _ _).count_le u) (h.userLimit u)

/-- A permit that is alive is counted. -/
theorem not_underflows (h : S.Accounted p) {user : String} (hu : user ∈ p.live) :
    S.underflows p.service user = false := by
  have hpos := List.count_pos_iff.mpr hu
  have hlen := List.length_pos_of_mem hu
  have hcount := h.tallies.count user
  have hglobal := h.global
  simp only [underflows, Bool.or_eq_false_iff, beq_eq_false_iff_ne]
  omega

theorem accounted_step (hS : S.Lawful) (h : S.Accounted p) (i : PermitInput) :
    S.Accounted (S.step p i).1 ∧ (S.step p i).2.underflow = false := by
  cases i with
  | acquire user =>
    cases ha : S.acquire p.service user with
    | none =>
      simp only [step, ha]
      exact ⟨h, trivial⟩
    | some s =>
      simp only [step, ha]
      exact ⟨accounted_acquire hS h ha, trivial⟩
  | drop permit =>
    cases hp : p.live[permit]? with
    | none =>
      simp only [step, hp]
      exact ⟨h, trivial⟩
    | some user =>
      simp only [step, hp]
      exact ⟨accounted_drop hS h hp, not_underflows h (List.mem_of_getElem? hp)⟩

theorem accounted_run (hS : S.Lawful) (is : List PermitInput) :
    S.Accounted (S.machine.run S.start is) ∧ ∀ x ∈ S.machine.trace S.start is, x.2.underflow = false := by
  have hkept := S.machine.trace_induction (P := fun tr p => S.Accounted p ∧ ∀ x ∈ tr, x.2.underflow = false)
    ⟨accounted_start hS, nofun⟩ ?_ (S.machine.admissible_true S.start is)
  · exact hkept
  · rintro tr p i ⟨h, htr⟩ _
    obtain ⟨hnext, hout⟩ := accounted_step hS h i
    refine ⟨hnext, fun x hx => ?_⟩
    rcases List.mem_append.mp hx with hx | hx
    · exact htr x hx
    · rw [List.mem_singleton.mp hx]
      exact hout

/-- A refused acquire leaves everything as it was. -/
theorem refused_same (p : Pool σ) {user : String} (h : (S.step p (.acquire user)).2.granted = false) :
    (S.step p (.acquire user)).1 = p := by
  cases ha : S.acquire p.service user with
  | none => simp only [step, ha]
  | some s =>
    simp only [step, ha] at h
    cases h

variable (S) in
/-- What the counts have to do with the permits. -/
structure Exact (p : Pool σ) : Prop where
  global : S.global p.service = p.live.length
  perUser : ∀ user, ((S.byUser p.service).lookup user).getD 0 = p.live.count user
  sum : S.global p.service = (S.byUser p.service).values.sum
  globalLimit : S.global p.service ≤ S.globalLimit
  userLimit : ∀ user, ((S.byUser p.service).lookup user).getD 0 ≤ S.perUserLimit
  noZero : ∀ user, (S.byUser p.service).lookup user ≠ some 0
  refused : ∀ user, (S.machine.out p (.acquire user)).granted = false → S.machine.next p (.acquire user) = p

theorem Accounted.exact (h : S.Accounted p) : S.Exact p where
  global := h.global
  perUser := h.tallies.count
  sum := by rw [h.global, h.tallies.sum]
  globalLimit := h.globalLimit
  userLimit := by
    intro user
    rw [h.tallies.count]
    exact h.userLimit user
  noZero := h.tallies.no_zero
  refused := fun _ => refused_same p

end Service

/-- After every sequence of acquires and drops, for either service. -/
theorem permit_accounting (is : List PermitInput) :
    (uploadService.Exact (uploadService.machine.run uploadService.start is) ∧
      ∀ x ∈ uploadService.machine.trace uploadService.start is, x.2.underflow = false) ∧
    forwardService.Exact (forwardService.machine.run forwardService.start is) ∧
      ∀ x ∈ forwardService.machine.trace forwardService.start is, x.2.underflow = false := by
  obtain ⟨hup, hupTrace⟩ := Service.accounted_run uploadService_lawful is
  obtain ⟨hforward, hforwardTrace⟩ := Service.accounted_run forwardService_lawful is
  exact ⟨⟨hup.exact, hupTrace⟩, hforward.exact, hforwardTrace⟩

/-- The fifth upload of a user is refused, and admitted once one of the four is over. -/
example :
    let four := List.replicate 4 (PermitInput.acquire "alice")
    let p := uploadService.machine.run uploadService.start four
    (uploadService.machine.out p (.acquire "alice")).granted = false ∧
      (uploadService.machine.out (uploadService.machine.next p (.drop 2)) (.acquire "alice")).granted = true := by
  decide

end Holdfast.Daemon

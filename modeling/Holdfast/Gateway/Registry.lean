/-
  Holdfast.Gateway.Registry — certificates and active agents of the gateway
  (`CertificateRegistry`, `ActiveAgentLease` and `accept_registration` of
  `crates/gateway/src/lib.rs`).

  A fingerprint authorizes one server; a server has one live agent, which holds a lease
  until it is dropped. `RegistryCall` are the calls on the registry, the drop of a lease
  among them, in any order. `AgentGateway` is the program around it: many registrations at
  once, each of which may fail, time out or be cancelled wherever it waits, and the agents
  that came of them.

  Proved:
  - `bound_run`: a fingerprint stays with its server until it is revoked.
  - `sound_run`: the identities are within their limit, a server has at most one live
    lease, and the active servers are those with one.
  - `gateway_calls`: whatever the gateway does to the registry is such a sequence of calls.
-/

import Holdfast.Base.Machine
import Holdfast.Base.Table
import Holdfast.Protocol.Ids
import Holdfast.Protocol.Negotiate

namespace Holdfast.Gateway

open Holdfast.Base Holdfast.Protocol

/-! ## The registry -/

structure CertificateFingerprint where
  bytes : Vector UInt8 32
  deriving DecidableEq, Repr

inductive RegistryError where
  | zeroLimit
  | identityLimit (max : Nat)
  | activeLimit (max : Nat)
  | fingerprintRebind
  | alreadyActive (server : ServerId)
  deriving DecidableEq, Repr

structure CertificateRegistry where
  identities : Table CertificateFingerprint ServerId
  active : Finset ServerId
  maxIdentities : Nat
  maxActiveAgents : Nat

namespace CertificateRegistry

def new (maxIdentities maxActiveAgents : Nat) : Except RegistryError CertificateRegistry :=
  if maxIdentities = 0 ∨ maxActiveAgents = 0 then .error .zeroLimit else .ok ⟨∅, ∅, maxIdentities, maxActiveAgents⟩

def authorizeLeaf (r : CertificateRegistry) (fingerprint : CertificateFingerprint) (server : ServerId) :
    CertificateRegistry × Except RegistryError CertificateFingerprint :=
  match r.identities.lookup fingerprint with
  | some existing => (r, if existing = server then .ok fingerprint else .error .fingerprintRebind)
  | none =>
    if r.identities.entries.length ≥ r.maxIdentities then (r, .error (.identityLimit r.maxIdentities))
    else ({ r with identities := r.identities.insert fingerprint server }, .ok fingerprint)

def revoke (r : CertificateRegistry) (fingerprint : CertificateFingerprint) : CertificateRegistry × Bool :=
  ({ r with identities := r.identities.erase fingerprint }, (r.identities.lookup fingerprint).isSome)

def resolve (r : CertificateRegistry) (fingerprint : CertificateFingerprint) : Option ServerId := r.identities.lookup fingerprint

/-- On success the caller holds a lease. -/
def claim (r : CertificateRegistry) (server : ServerId) : CertificateRegistry × Except RegistryError Unit :=
  if server ∈ r.active then (r, .error (.alreadyActive server))
  else if r.active.card ≥ r.maxActiveAgents then (r, .error (.activeLimit r.maxActiveAgents))
  else ({ r with active := insert server r.active }, .ok ())

/-- The drop of a lease. -/
def release (r : CertificateRegistry) (server : ServerId) : CertificateRegistry := { r with active := r.active.erase server }

end CertificateRegistry

/-! ## Calls -/

/-- The registry and the leases that have not been dropped, each under its own name. -/
structure Held where
  registry : CertificateRegistry
  leases : Table Nat ServerId

inductive RegistryCall where
  | authorizeLeaf (server : ServerId) (leafDer : List UInt8)
  | revoke (fingerprint : CertificateFingerprint)
  /-- A claim whose lease, if there is one, is called `lease`. -/
  | claim (lease : Nat) (server : ServerId)
  | dropLease (lease : Nat)
  deriving DecidableEq, Repr

inductive RegistryAnswer where
  | fingerprint (fingerprint : CertificateFingerprint)
  | removed (was : Bool)
  | leased
  | dropped
  | failed (error : RegistryError)
  deriving DecidableEq, Repr

namespace Held

variable (digest : List UInt8 → CertificateFingerprint)

def claim (h : Held) (lease : Nat) (server : ServerId) : Held × Except RegistryError Unit :=
  match h.leases.lookup lease with
  -- a lease is made once
  | some _ => (h, .ok ())
  | none =>
    match h.registry.claim server with
    | (r, .ok ()) => (⟨r, h.leases.insert lease server⟩, .ok ())
    | (r, .error e) => ({ h with registry := r }, .error e)

def dropLease (h : Held) (lease : Nat) : Held :=
  match h.leases.lookup lease with
  | some server => ⟨h.registry.release server, h.leases.erase lease⟩
  | none => h

def step (h : Held) : RegistryCall → Held × RegistryAnswer
  | .authorizeLeaf server leafDer =>
    let r := h.registry.authorizeLeaf (digest leafDer) server
    ({ h with registry := r.1 }, match r.2 with | .ok fp => .fingerprint fp | .error e => .failed e)
  | .revoke fingerprint =>
    let r := h.registry.revoke fingerprint
    ({ h with registry := r.1 }, .removed r.2)
  | .claim lease server =>
    let r := h.claim lease server
    (r.1, match r.2 with | .ok () => .leased | .error e => .failed e)
  | .dropLease lease => (h.dropLease lease, .dropped)

def machine : Machine Held RegistryCall RegistryAnswer := ⟨step digest⟩

/-! ## The invariant -/

structure Sound (h : Held) : Prop where
  identities : h.registry.identities.entries.length ≤ h.registry.maxIdentities
  active : ∀ s, s ∈ h.registry.active ↔ ∃ k, h.leases.lookup k = some s
  once : ∀ k k' s, h.leases.lookup k = some s → h.leases.lookup k' = some s → k = k'
  agents : h.registry.active.card ≤ h.registry.maxActiveAgents

variable {digest} {h : Held}

theorem sound_new {maxIdentities maxActiveAgents : Nat} {r : CertificateRegistry}
    (hr : CertificateRegistry.new maxIdentities maxActiveAgents = .ok r) : Sound ⟨r, ∅⟩ := by
  unfold CertificateRegistry.new at hr
  split at hr
  · cases hr
  · cases hr
    refine ⟨Nat.zero_le _, ?_, ?_, Nat.zero_le _⟩
    · intro s
      simp
    · intro k k' s hk
      cases hk

theorem sound_authorizeLeaf (hs : Sound h) (fingerprint : CertificateFingerprint) (server : ServerId) :
    Sound { h with registry := (h.registry.authorizeLeaf fingerprint server).1 } := by
  unfold CertificateRegistry.authorizeLeaf
  cases hl : h.registry.identities.lookup fingerprint with
  | some existing => exact hs
  | none =>
    dsimp only
    split
    · exact hs
    · rename_i hroom
      refine { hs with identities := ?_ }
      have herase := (List.kerase_sublist fingerprint h.registry.identities.entries).length_le
      simp only [AList.entries_insert, List.length_cons]
      omega

theorem sound_revoke (hs : Sound h) (fingerprint : CertificateFingerprint) :
    Sound { h with registry := (h.registry.revoke fingerprint).1 } :=
  { hs with
    identities := Nat.le_trans (List.kerase_sublist fingerprint h.registry.identities.entries).length_le hs.identities }

theorem sound_claim (hs : Sound h) (lease : Nat) (server : ServerId) : Sound (h.claim lease server).1 := by
  unfold claim
  cases hl : h.leases.lookup lease with
  | some _ => exact hs
  | none =>
    unfold CertificateRegistry.claim
    by_cases hact : server ∈ h.registry.active
    · simp only [hact, if_true]
      exact hs
    · simp only [hact, if_false]
      by_cases hfull : h.registry.active.card ≥ h.registry.maxActiveAgents
      · simp only [hfull, if_true]
        exact hs
      · simp only [hfull, if_false]
        -- nobody holds a lease for the server
        have hnone : ∀ k, h.leases.lookup k ≠ some server := fun k hk => hact ((hs.active server).mpr ⟨k, hk⟩)
        refine ⟨hs.identities, ?_, ?_, ?_⟩
        · intro s
          rw [Finset.mem_insert, hs.active s]
          constructor
          · rintro (rfl | ⟨k, hk⟩)
            · exact ⟨lease, AList.lookup_insert _⟩
            · refine ⟨k, Table.lookup_insert_some.mpr (.inr ⟨?_, hk⟩)⟩
              rintro rfl
              rw [hl] at hk
              cases hk
          · rintro ⟨k, hk⟩
            rcases Table.lookup_insert_some.mp hk with ⟨_, rfl⟩ | ⟨_, hk⟩
            · exact .inl rfl
            · exact .inr ⟨k, hk⟩
        · intro k k' s hk hk'
          rcases Table.lookup_insert_some.mp hk with ⟨rfl, rfl⟩ | ⟨_, hold⟩
          · rcases Table.lookup_insert_some.mp hk' with ⟨rfl, _⟩ | ⟨_, hold'⟩
            · rfl
            · exact absurd hold' (hnone k')
          · rcases Table.lookup_insert_some.mp hk' with ⟨_, rfl⟩ | ⟨_, hold'⟩
            · exact absurd hold (hnone k)
            · exact hs.once k k' s hold hold'
        · show (insert server h.registry.active).card ≤ h.registry.maxActiveAgents
          rw [Finset.card_insert_of_notMem hact]
          omega

theorem lookup_dropLease_ne (h : Held) {k lease : Nat} (hne : k ≠ lease) :
    (h.dropLease lease).leases.lookup k = h.leases.lookup k := by
  unfold dropLease
  cases h.leases.lookup lease with
  | none => rfl
  | some server => exact AList.lookup_erase_ne hne

theorem sound_dropLease (hs : Sound h) (lease : Nat) : Sound (h.dropLease lease) := by
  unfold dropLease
  cases hl : h.leases.lookup lease with
  | none => exact hs
  | some server =>
    refine ⟨hs.identities, ?_, ?_, Nat.le_trans Finset.card_erase_le hs.agents⟩
    · intro s
      show s ∈ h.registry.active.erase server ↔ _
      rw [Finset.mem_erase, hs.active s]
      constructor
      · rintro ⟨hne, k, hk⟩
        refine ⟨k, ?_⟩
        have hkl : k ≠ lease := by
          rintro rfl
          rw [hl] at hk
          cases hk
          exact hne rfl
        exact (AList.lookup_erase_ne hkl).trans hk
      · rintro ⟨k, hk⟩
        have hk' := Table.within_erase h.leases lease k s hk
        refine ⟨?_, k, hk'⟩
        rintro rfl
        have hkl : k = lease := hs.once k lease s hk' hl
        subst hkl
        rw [AList.lookup_erase] at hk
        cases hk
    · intro k k' s hk hk'
      exact hs.once k k' s (Table.within_erase _ _ _ _ hk) (Table.within_erase _ _ _ _ hk')

theorem sound_step (hs : Sound h) (call : RegistryCall) : Sound (step digest h call).1 := by
  cases call with
  | authorizeLeaf server leafDer => exact sound_authorizeLeaf hs _ server
  | revoke fingerprint => exact sound_revoke hs fingerprint
  | claim lease server => exact sound_claim hs lease server
  | dropLease lease => exact sound_dropLease hs lease

theorem sound_run (hs : Sound h) (calls : List RegistryCall) : Sound ((machine digest).run h calls) :=
  (machine digest).run_always (P := Sound) (fun _ call hs => sound_step hs call) hs calls

/-! ## What a fingerprint is bound to -/

theorem limits_claim (h : Held) (lease : Nat) (server : ServerId) :
    (h.claim lease server).1.registry.identities = h.registry.identities ∧
      (h.claim lease server).1.registry.maxIdentities = h.registry.maxIdentities := by
  unfold claim CertificateRegistry.claim
  cases h.leases.lookup lease with
  | some _ => exact ⟨rfl, rfl⟩
  | none =>
    by_cases hact : server ∈ h.registry.active
    · simp [hact]
    · by_cases hfull : h.registry.active.card ≥ h.registry.maxActiveAgents <;> simp [hact, hfull]

theorem limits_dropLease (h : Held) (lease : Nat) :
    (h.dropLease lease).registry.identities = h.registry.identities ∧
      (h.dropLease lease).registry.maxIdentities = h.registry.maxIdentities := by
  unfold dropLease
  cases h.leases.lookup lease <;> exact ⟨rfl, rfl⟩

theorem bound_step {call : RegistryCall} {fingerprint : CertificateFingerprint} (hno : call ≠ .revoke fingerprint) {s : ServerId}
    (hb : h.registry.identities.lookup fingerprint = some s) :
    (step digest h call).1.registry.identities.lookup fingerprint = some s := by
  cases call with
  | authorizeLeaf server leafDer =>
    simp only [step, CertificateRegistry.authorizeLeaf]
    cases hl : h.registry.identities.lookup (digest leafDer) with
    | some _ => exact hb
    | none =>
      dsimp only
      split
      · exact hb
      · refine Table.lookup_insert_some.mpr (.inr ⟨?_, hb⟩)
        rintro rfl
        rw [hl] at hb
        cases hb
  | revoke other =>
    have hne : fingerprint ≠ other := fun e => hno (by rw [e])
    exact (AList.lookup_erase_ne hne).trans hb
  | claim lease server =>
    simp only [step]
    rw [(limits_claim h lease server).1]
    exact hb
  | dropLease lease =>
    simp only [step]
    rw [(limits_dropLease h lease).1]
    exact hb

theorem bound_run {calls : List RegistryCall} {fingerprint : CertificateFingerprint}
    (hno : RegistryCall.revoke fingerprint ∉ calls)
    {s : ServerId} (hb : h.registry.identities.lookup fingerprint = some s) :
    ((machine digest).run h calls).registry.identities.lookup fingerprint = some s := by
  have hcalls : ∀ call ∈ calls, call ≠ .revoke fingerprint := by
    intro call hc e
    exact hno (e ▸ hc)
  exact (machine digest).run_induction (P := fun h => h.registry.identities.lookup fingerprint = some s)
    (fun _ _ hb hne => bound_step hne hb) hb ((machine digest).admissible_of_forall hcalls h)

theorem maxIdentities_step (h : Held) (call : RegistryCall) :
    (step digest h call).1.registry.maxIdentities = h.registry.maxIdentities := by
  cases call with
  | authorizeLeaf server leafDer =>
    simp only [step, CertificateRegistry.authorizeLeaf]
    split
    · rfl
    · split <;> rfl
  | revoke fingerprint => rfl
  | claim lease server => exact (limits_claim h lease server).2
  | dropLease lease => exact (limits_dropLease h lease).2

theorem maxIdentities_run (h : Held) (calls : List RegistryCall) :
    ((machine digest).run h calls).registry.maxIdentities = h.registry.maxIdentities :=
  (machine digest).run_always (P := fun h' => h'.registry.maxIdentities = h.registry.maxIdentities)
    (fun h' call hh => (maxIdentities_step h' call).trans hh) rfl calls

/-- In every sequence of calls on a new registry: a fingerprint has one server and keeps it until it is
    revoked, the identities are within their limit, a server has at most one live lease, the active
    servers are those with a live lease, and dropping a lease releases no other. -/
theorem registry_sound {maxIdentities maxActiveAgents : Nat} {r : CertificateRegistry}
    (hr : CertificateRegistry.new maxIdentities maxActiveAgents = .ok r) (digest : List UInt8 → CertificateFingerprint)
    (before after : List RegistryCall) :
    let h := (machine digest).run ⟨r, ∅⟩ before
    let h' := (machine digest).run h after
    (∀ x ∈ h.registry.identities.entries, ∀ y ∈ h.registry.identities.entries, x.1 = y.1 → x.2 = y.2) ∧
    (∀ fp s s', h.registry.identities.lookup fp = some s → h'.registry.identities.lookup fp = some s' →
      RegistryCall.revoke fp ∉ after → s' = s) ∧
    h.registry.identities.entries.length ≤ maxIdentities ∧
    (∀ k k' s, h.leases.lookup k = some s → h.leases.lookup k' = some s → k = k') ∧
    (∀ s, s ∈ h.registry.active ↔ ∃ k, h.leases.lookup k = some s) ∧
    ∀ k k' s, k' ≠ k → h.leases.lookup k' = some s →
      (h.dropLease k).leases.lookup k' = some s ∧ s ∈ (h.dropLease k).registry.active := by
  intro h h'
  have hs : Sound h := sound_run (sound_new hr) before
  have hmax : h.registry.maxIdentities = maxIdentities := by
    refine (maxIdentities_run ⟨r, ∅⟩ before).trans ?_
    unfold CertificateRegistry.new at hr
    split at hr
    · cases hr
    · cases hr
      rfl
  refine ⟨?_, ?_, hmax ▸ hs.identities, hs.once, hs.active, ?_⟩
  · intro x hx y hy hxy
    obtain ⟨fp, s⟩ := x
    obtain ⟨fp', s'⟩ := y
    cases hxy
    have hl := Table.mem_entries_iff.mp hx
    rw [Table.mem_entries_iff.mp hy] at hl
    cases hl
    rfl
  · intro fp s s' hb hb' hno
    have hkept : h'.registry.identities.lookup fp = some s := bound_run hno hb
    rw [hb'] at hkept
    cases hkept
    rfl
  · intro k k' s hne hk'
    have hleft := (lookup_dropLease_ne h hne).trans hk'
    exact ⟨hleft, ((sound_dropLease hs k).active s).mpr ⟨k', hleft⟩⟩

def sampleServer (b : UInt8) : ServerId := ⟨Vector.replicate 16 b⟩

/-- Leaf certificates of one byte, by that byte. -/
def sampleFingerprint (leaf : List UInt8) : CertificateFingerprint := ⟨Vector.replicate 32 (leaf.headD 0)⟩

/-- The second agent of a server gets a lease once the first is gone; dropping the first again changes
    nothing. -/
theorem registry_sound_reconnect :
    let h := (machine sampleFingerprint).run ⟨⟨∅, ∅, 2, 2⟩, ∅⟩
      [.authorizeLeaf (sampleServer 1) [7], .claim 0 (sampleServer 1), .claim 1 (sampleServer 1), .dropLease 0,
        .claim 2 (sampleServer 1)]
    h.leases.lookup 1 = none ∧ h.leases.lookup 2 = some (sampleServer 1) ∧
      sampleServer 1 ∈ (h.dropLease 0).registry.active :=
  ⟨by decide, by decide, ((registry_sound (show CertificateRegistry.new 2 2 = _ from rfl) sampleFingerprint
    [.authorizeLeaf (sampleServer 1) [7], .claim 0 (sampleServer 1), .claim 1 (sampleServer 1), .dropLease 0,
      .claim 2 (sampleServer 1)] []).2.2.2.2.2 0 2 (sampleServer 1) (by decide) (by decide)).2⟩

end Held

/-! ## Registrations -/

structure AgentRegister where
  protocolMajor : UInt32
  serverId : List UInt8
  agentBuild : String
  maxFrameBytes : UInt32
  deriving DecidableEq, Repr

/-- What the gateway reads of the first envelope; `none` is any other message. -/
structure RegisterEnvelope where
  serverId : List UInt8
  register : Option AgentRegister
  deriving DecidableEq, Repr

def agentBuildBytesMax : Nat := 128
def agentControlFrameBytesMin : UInt32 := 1024
def agentControlFrameBytesMax : UInt32 := 16 * 1024

/-- The checks of `accept_registration` before the claim: the server, and the frame size agreed on. -/
def checkRegistration (expected : Option ServerId) (envelope : RegisterEnvelope) : Except String (ServerId × UInt32) :=
  match envelope.register with
  | none => .error "invalid registration message"
  | some register =>
    if register.protocolMajor ≠ protocolMajor then .error "incompatible agent protocol"
    else if register.agentBuild.utf8ByteSize > agentBuildBytesMax then .error "invalid agent metadata"
    else
      match ServerId.fromWire register.serverId with
      | none => .error "invalid server identity"
      | some claimed =>
        if expected ≠ some claimed ∨ ServerId.fromWire envelope.serverId ≠ some claimed then
          .error "certificate identity mismatch"
        else if register.maxFrameBytes < agentControlFrameBytesMin then .error "invalid frame limit"
        else .ok (claimed, min register.maxFrameBytes agentControlFrameBytesMax)

/-- Where a registration is. -/
inductive Registration where
  /-- The peer's certificate has been looked up; its first message is awaited. -/
  | connected (expected : Option ServerId)
  /-- It holds a lease, and its answer is being written. -/
  | replying (server : ServerId) (maxFrameBytes : UInt32)
  | registered (server : ServerId) (maxFrameBytes : UInt32)
  deriving DecidableEq, Repr

structure AgentGateway where
  held : Held
  registrations : Table Nat Registration

inductive GatewayInput where
  | authorizeLeaf (server : ServerId) (leafDer : List UInt8)
  | revoke (fingerprint : CertificateFingerprint)
  | connect (k : Nat) (leafDer : List UInt8)
  | register (k : Nat) (envelope : RegisterEnvelope)
  | replied (k : Nat)
  /-- A timeout, a lost connection, a failed write, a cancelled call, or the agent dropped. -/
  | gone (k : Nat)
  deriving DecidableEq, Repr

inductive GatewayReply where
  | none
  | rejected (reason : String)
  | accepted (server : ServerId) (maxFrameBytes : UInt32)
  | failed (error : RegistryError)
  deriving DecidableEq, Repr

namespace AgentGateway

variable (digest : List UInt8 → CertificateFingerprint)

def finish (g : AgentGateway) (k : Nat) : AgentGateway := { g with registrations := g.registrations.erase k }

/-- `accept_registration` from the first envelope on. -/
def register (g : AgentGateway) (k : Nat) (expected : Option ServerId) (envelope : RegisterEnvelope) :
    AgentGateway × GatewayReply :=
  match checkRegistration expected envelope with
  | .error reason => (g.finish k, .rejected reason)
  | .ok (claimed, maxFrameBytes) =>
    match g.held.claim k claimed with
    | (held, .ok ()) =>
      (⟨held, g.registrations.insert k (.replying claimed maxFrameBytes)⟩, .accepted claimed maxFrameBytes)
    | (held, .error (.alreadyActive _)) => ({ g with held := held }.finish k, .rejected "server already connected")
    | (held, .error e) => ({ g with held := held }.finish k, .failed e)

def step (g : AgentGateway) : GatewayInput → AgentGateway × GatewayReply
  | .authorizeLeaf server leafDer => ({ g with held := (g.held.step digest (.authorizeLeaf server leafDer)).1 }, .none)
  | .revoke fingerprint => ({ g with held := (g.held.step digest (.revoke fingerprint)).1 }, .none)
  | .connect k leafDer =>
    match g.registrations.lookup k with
    | some _ => (g, .none)
    | none =>
      ({ g with registrations := g.registrations.insert k (.connected (g.held.registry.resolve (digest leafDer))) }, .none)
  | .register k envelope =>
    match g.registrations.lookup k with
    | some (.connected expected) => g.register k expected envelope
    | _ => (g, .none)
  | .replied k =>
    match g.registrations.lookup k with
    | some (.replying server maxFrameBytes) =>
      ({ g with registrations := g.registrations.insert k (.registered server maxFrameBytes) }, .none)
    | _ => (g, .none)
  | .gone k => (⟨g.held.dropLease k, g.registrations.erase k⟩, .none)

def machine : Machine AgentGateway GatewayInput GatewayReply := ⟨step digest⟩

variable {digest}

theorem held_register (g : AgentGateway) (k : Nat) (expected : Option ServerId) (envelope : RegisterEnvelope) :
    (g.register k expected envelope).1.held = g.held ∨
      ∃ server, (g.register k expected envelope).1.held = (g.held.claim k server).1 := by
  unfold register
  cases checkRegistration expected envelope with
  | error reason => exact .inl rfl
  | ok agreed =>
    obtain ⟨claimed, maxFrameBytes⟩ := agreed
    refine .inr ⟨claimed, ?_⟩
    dsimp only
    split <;> rename_i heq <;> rw [heq] <;> rfl

/-- What a step of the gateway does to the registry and its leases is at most one call. -/
theorem held_step (g : AgentGateway) (input : GatewayInput) :
    ∃ calls, (step digest g input).1.held = (Held.machine digest).run g.held calls := by
  cases input with
  | authorizeLeaf server leafDer => exact ⟨[.authorizeLeaf server leafDer], rfl⟩
  | revoke fingerprint => exact ⟨[.revoke fingerprint], rfl⟩
  | connect k leafDer =>
    refine ⟨[], ?_⟩
    simp only [step]
    split <;> rfl
  | register k envelope =>
    simp only [step]
    split
    · rename_i expected _
      rcases held_register g k expected envelope with hh | ⟨server, hh⟩
      · exact ⟨[], hh⟩
      · exact ⟨[.claim k server], hh⟩
    · exact ⟨[], rfl⟩
  | replied k =>
    refine ⟨[], ?_⟩
    simp only [step]
    split <;> rfl
  | gone k => exact ⟨[.dropLease k], rfl⟩

/-- Whatever the gateway does to the registry is a sequence of calls. -/
theorem gateway_calls (g : AgentGateway) (inputs : List GatewayInput) :
    ∃ calls, ((machine digest).run g inputs).held = (Held.machine digest).run g.held calls := by
  refine (machine digest).run_always (P := fun g' => ∃ calls, g'.held = (Held.machine digest).run g.held calls) ?_
    ⟨[], rfl⟩ inputs
  intro g' input hg'
  obtain ⟨calls, hcalls⟩ := hg'
  obtain ⟨more, hmore⟩ := @held_step digest g' input
  refine ⟨calls ++ more, ?_⟩
  rw [Machine.run_append, ← hcalls]
  exact hmore

/-- So the gateway never has two agents of one server that hold leases. -/
theorem leases_once {maxIdentities maxActiveAgents : Nat} {r : CertificateRegistry}
    (hr : CertificateRegistry.new maxIdentities maxActiveAgents = .ok r) (inputs : List GatewayInput) :
    Held.Sound ((machine digest).run ⟨⟨r, ∅⟩, ∅⟩ inputs).held := by
  obtain ⟨calls, hcalls⟩ := @gateway_calls digest ⟨⟨r, ∅⟩, ∅⟩ inputs
  rw [hcalls]
  exact Held.sound_run (Held.sound_new hr) calls

end AgentGateway

end Holdfast.Gateway

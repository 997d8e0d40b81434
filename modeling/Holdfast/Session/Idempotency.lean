/-
  Holdfast.Session.Idempotency — opening with an idempotency key.

  The map from (owner, key) to shell is only ever written by a successful open and only
  ever cleaned by `remove_exited`. `IdemInv` says that it has no dangling and no
  cross-owner entry and that no shell is reached by two keys; it needs a new shell's id
  to be new (`FreshId`), or a later shell could take an earlier one's place.

  Proved:
  - `idemInv_run`: the invariant holds in every reachable state.
  - `open_sound`: what one open does, to the shell it returns and to all others.
  - `bound_run`: a key stays bound to its shell until that shell is removed.
  - `idempotent_open`: the three over whole runs.
-/

import Holdfast.Session.Steps

namespace Holdfast.Session.Manager

open Holdfast.Base

variable {V : Type} (S : Server V)

/-! ## The invariant -/

structure IdemInv (m : Manager V) : Prop where
  keyed : m.Keyed
  present : ∀ user key id, m.idempotency.lookup (user, key) = some id →
    ∃ e, m.shells.lookup id = some e ∧ e.owner = user
  injective : ∀ k k' id, m.idempotency.lookup k = some id → m.idempotency.lookup k' = some id → k = k'

theorem idemInv_empty : IdemInv (empty : Manager V) where
  keyed := keyed_empty
  present _ _ _ h := by cases h
  injective _ _ _ h := by cases h

/-- What a step does to the idempotency map. -/
theorem idempotency_step (m : Manager V) (op : Op) :
    (m.step S op).1.idempotency = m.idempotency ∨
    (∃ req env account, op = .openShell req env ∧ Opens S m req env account ∧
      (m.step S op).2 = .opened ⟨env.shellId, env.token, false⟩ ∧
      (m.step S op).1.idempotency = m.idempotency.insert (req.user, req.idempotencyKey) env.shellId ∧
      (m.step S op).1.shells = m.shells.insert env.shellId (newEntry S req account env)) ∨
    ∃ id, op = .removeExited id ∧ (m.step S op).2 = .done ∧
      (m.step S op).1.idempotency = m.idempotency.retain fun _ i => i != id := by
  cases step_cases S m op with
  | same h1 _ => exact .inl (by rw [h1])
  | entry _ _ _ _ _ h1 => exact .inl (by rw [h1])
  | held _ _ _ _ _ _ _ h1 => exact .inl (by rw [h1])
  | opens req env account hop ho h2 h1 => exact .inr (.inl ⟨req, env, account, hop, ho, h2, by rw [h1], by rw [h1]⟩)
  | removes id e hop _ _ h2 h1 => exact .inr (.inr ⟨id, hop, h2, by rw [h1]⟩)

/-- A shell outlives every step but its own removal, with its owner. -/
theorem owner_step {m : Manager V} (hk : m.Keyed) {op : Op} (hf : FreshId S m op) {id : ShellId} {e : ShellEntry V}
    (he : m.shells.lookup id = some e) (hr : ¬(op = .removeExited id ∧ (m.step S op).2 = .done)) :
    ∃ e', (m.step S op).1.shells.lookup id = some e' ∧ e'.owner = e.owner := by
  cases step_at S hk op id with
  | kept hl _ => exact ⟨e, hl ▸ he, rfl⟩
  | changed e₀ e' hl hs h' => rw [he] at hl; cases hl; exact ⟨e', h', hs.owner_eq⟩
  | created req env account hop hi ho h2 h' => rw [(hf.new h2).1] at he; cases he
  | removed e₀ hop hl hx h2 h' => exact absurd ⟨hop, h2⟩ hr

theorem lookup_retain_ne {m : Manager V} {k : String × IdempotencyKey} {id i : ShellId} :
    (m.idempotency.retain fun _ j => j != i).lookup k = some id ↔ m.idempotency.lookup k = some id ∧ id ≠ i := by
  rw [Table.lookup_retain, Option.filter_eq_some_iff]
  simp

/-- A key that is bound after a step was not cleaned by it. -/
theorem not_removed {m : Manager V} {op : Op} {k : String × IdempotencyKey} {id : ShellId}
    (hl : (m.step S op).1.idempotency.lookup k = some id) : ¬(op = .removeExited id ∧ (m.step S op).2 = .done) := by
  intro h
  obtain ⟨rfl, hd⟩ := h
  simp only [step, removeExited] at hl hd
  split at hl
  · rename_i hn; simp [hn] at hd
  · rename_i e he
    split at hl
    · rename_i hx; simp [he, hx] at hd
    · exact (lookup_retain_ne.mp hl).2 rfl

theorem idemInv_step {m : Manager V} (h : IdemInv m) {op : Op} (hf : FreshId S m op) : IdemInv (m.step S op).1 := by
  have hkeep : ∀ user key id, m.idempotency.lookup (user, key) = some id →
      (m.step S op).1.idempotency.lookup (user, key) = some id →
      ∃ e, (m.step S op).1.shells.lookup id = some e ∧ e.owner = user := by
    intro user key id hl hl'
    obtain ⟨e, he, ho⟩ := h.present user key id hl
    obtain ⟨e', he', ho'⟩ := owner_step S h.keyed hf he (not_removed S hl')
    exact ⟨e', he', ho'.trans ho⟩
  refine ⟨keyed_step S h.keyed op, ?_, ?_⟩
  · intro user key id hl
    rcases idempotency_step S m op with hi | ⟨req, env, account, rfl, ho, h2, hi, hs⟩ | ⟨i, rfl, h2, hi⟩
    · exact hkeep user key id (hi ▸ hl) hl
    · by_cases hk : (user, key) = (req.user, req.idempotencyKey)
      · rw [hi, hk, AList.lookup_insert] at hl
        cases hl; cases hk
        exact ⟨_, by rw [hs]; exact AList.lookup_insert _, rfl⟩
      · exact hkeep user key id (by rw [hi, AList.lookup_insert_ne hk] at hl; exact hl) hl
    · exact hkeep user key id (lookup_retain_ne.mp (hi ▸ hl)).1 hl
  · intro k k' id hl hl'
    rcases idempotency_step S m op with hi | ⟨req, env, account, rfl, ho, h2, hi, hs⟩ | ⟨i, rfl, h2, hi⟩
    · rw [hi] at hl hl'
      exact h.injective k k' id hl hl'
    · -- the new shell's id was bound to no key before
      have hnew : ∀ k, m.idempotency.lookup k ≠ some env.shellId := by
        intro k hb
        obtain ⟨user, key⟩ := k
        obtain ⟨e, he, _⟩ := h.present user key _ hb
        rw [(hf.new h2).1] at he; cases he
      rw [hi, Table.lookup_insert_some] at hl hl'
      rcases hl with ⟨hk, hid⟩ | ⟨_, hl⟩ <;> rcases hl' with ⟨hk', hid'⟩ | ⟨_, hl'⟩
      · exact hk.trans hk'.symm
      · exact absurd (hid ▸ hl') (hnew k')
      · exact absurd (hid' ▸ hl) (hnew k)
      · exact h.injective k k' id hl hl'
    · rw [hi] at hl hl'
      exact h.injective k k' id (lookup_retain_ne.mp hl).1 (lookup_retain_ne.mp hl').1

/-- An open answers with a shell of its user, new or not. -/
theorem opened_owner {m : Manager V} (h : IdemInv m) {req : OpenShellRequest} {env : OpenEnv} {o : OpenedShell}
    (ho : (m.openShell S req env).2 = .opened o) :
    ∃ e, (m.openShell S req env).1.find o.shellId = some e ∧ e.owner = req.user := by
  unfold openShell at ho ⊢
  split at ho
  · rename_i existing entry hr
    cases ho
    obtain ⟨hi, hl⟩ := reusable_some hr
    obtain ⟨e, he, hown⟩ := h.present _ _ _ hi
    rw [hl] at he
    cases he
    rw [h.keyed.shells existing entry hl]
    refine ⟨{ entry with runtime := entry.runtime.rotateToken S env.token }, find_of_lookup ?_, hown⟩
    simp [setRuntime, hl]
  · rename_i hr
    rcases openFresh_cases (S := S) env hr with ⟨err, h'⟩ | ⟨account, _, h'⟩
    · rw [h'] at ho
      cases ho
    · rw [h'] at ho ⊢
      cases ho
      exact ⟨_, find_of_lookup (AList.lookup_insert _), rfl⟩

theorem idemInv_run {m : Manager V} (h : IdemInv m) {ops : List Op}
    (hf : (machine S).Admissible (FreshId S) m ops) : IdemInv ((machine S).run m ops) :=
  (machine S).run_induction (P := IdemInv) (fun _ _ hm hok => idemInv_step S hm hok) h hf

/-! ## One open -/

/-- The contract of one `open_shell`. -/
structure OpenSound (m : Manager V) (req : OpenShellRequest) (env : OpenEnv) (r : Manager V × Res) : Prop where
  /-- The shell returned is the user's own and is the one the key is bound to. -/
  opened : ∀ o, r.2 = .opened o → r.1.idempotency.lookup (req.user, req.idempotencyKey) = some o.shellId ∧
    ∃ e, r.1.shells.lookup o.shellId = some e ∧ e.owner = req.user
  /-- A bound key finds its shell again, and no shell is made. -/
  reused : ∀ id, m.idempotency.lookup (req.user, req.idempotencyKey) = some id →
    r.2 = .opened ⟨id, env.token, true⟩ ∧ r.1.idempotency = m.idempotency ∧ r.1.shells.keys = m.shells.keys
  /-- A shell is made only for a key that is bound to none. -/
  created : ∀ id token, r.2 = .opened ⟨id, token, false⟩ →
    m.idempotency.lookup (req.user, req.idempotencyKey) = none ∧ m.shells.lookup id = none
  /-- Every other shell, of this user or another, is left alone. -/
  others : ∀ id e, m.shells.lookup id = some e → (∀ o, r.2 = .opened o → o.shellId ≠ id) →
    r.1.shells.lookup id = some e
  /-- A shell of another user is neither returned nor changed. -/
  otherUser : ∀ id e, m.shells.lookup id = some e → e.owner ≠ req.user →
    (∀ o, r.2 = .opened o → o.shellId ≠ id) ∧ r.1.shells.lookup id = some e
  /-- A failure changes neither map. -/
  failed : ∀ err, r.2 = .err err → r.1 = m

theorem reusable_of_bound {m : Manager V} (h : IdemInv m) {req : OpenShellRequest} {id : ShellId}
    (hl : m.idempotency.lookup (req.user, req.idempotencyKey) = some id) :
    ∃ e, m.reusable req = some (id, e) ∧ m.shells.lookup id = some e ∧ e.owner = req.user := by
  obtain ⟨e, he, ho⟩ := h.present _ _ id hl
  exact ⟨e, by simp [reusable, hl, he], he, ho⟩

theorem openSound_reuse {m : Manager V} (h : IdemInv m) {req : OpenShellRequest} {env : OpenEnv} {i : ShellId}
    {e : ShellEntry V} (hr : m.reusable req = some (i, e)) : OpenSound m req env (m.step S (.openShell req env)) := by
  obtain ⟨hb, hl⟩ := reusable_some hr
  obtain ⟨e', he', ho⟩ := h.present _ _ i hb
  rw [hl] at he'; cases he'
  have hstep : m.step S (.openShell req env) =
      ({ m with shells := setRuntime m.shells i (e.runtime.rotateToken S env.token) }, .opened ⟨i, env.token, true⟩) := by
    simp only [step, openShell, hr, h.keyed.shells i e hl]
  have hother : ∀ id, id ≠ i → (setRuntime m.shells i (e.runtime.rotateToken S env.token)).lookup id = m.shells.lookup id :=
    fun id hne => Table.lookup_adjust_ne _ _ hne
  rw [hstep]
  constructor
  case opened =>
    intro o ho'; cases ho'
    exact ⟨hb, { e with runtime := e.runtime.rotateToken S env.token }, by simp [setRuntime, hl], ho⟩
  case reused =>
    intro id hid
    rw [hb] at hid; cases hid
    exact ⟨rfl, rfl, Table.keys_adjust _ _ _⟩
  case created => intro id token h'; cases h'
  case others => exact fun id e' he' hne => (hother id (hne _ rfl).symm).trans he'
  case otherUser =>
    intro id e' he' hne
    have hid : id ≠ i := by
      intro hid
      subst hid
      rw [hl] at he'; cases he'
      exact hne ho
    refine ⟨?_, (hother id hid).trans he'⟩
    intro o ho'
    cases ho'; exact hid.symm
  case failed => intro err h'; cases h'

theorem openSound_fresh {m : Manager V} (h : IdemInv m) {req : OpenShellRequest} {env : OpenEnv}
    (hf : FreshId S m (.openShell req env)) (hr : m.reusable req = none) :
    OpenSound m req env (m.step S (.openShell req env)) := by
  have hfree : m.idempotency.lookup (req.user, req.idempotencyKey) = none := by
    cases hb : m.idempotency.lookup (req.user, req.idempotencyKey) with
    | none => rfl
    | some id =>
      obtain ⟨e, he, _⟩ := reusable_of_bound h hb
      rw [hr] at he; cases he
  have hbound : ∀ id, m.idempotency.lookup (req.user, req.idempotencyKey) = some id → False :=
    fun id hb => by rw [hfree] at hb; cases hb
  have hstep : m.step S (.openShell req env) = m.openFresh S req env := by simp only [step, openShell, hr]
  rcases openFresh_cases (S := S) env hr with ⟨err, hx⟩ | ⟨account, ho, hx⟩
  · rw [hstep, hx]
    exact
      { opened := fun o h' => by cases h'
        reused := fun id hb => (hbound id hb).elim
        created := fun id t h' => by cases h'
        others := fun id e he _ => he
        otherUser := fun id e he _ => ⟨fun o h' => (by cases h'), he⟩
        failed := fun _ _ => rfl }
  · have hres : (m.step S (.openShell req env)).2 = .opened ⟨env.shellId, env.token, false⟩ := by rw [hstep, hx]
    have hnew := hf.new hres
    have hother : ∀ id e, m.shells.lookup id = some e → env.shellId ≠ id ∧
        (m.shells.insert env.shellId (newEntry S req account env)).lookup id = some e := by
      intro id e he
      have hne : id ≠ env.shellId := by
        intro hid
        subst hid
        rw [hnew.1] at he; cases he
      exact ⟨hne.symm, (AList.lookup_insert_ne hne).trans he⟩
    rw [hstep, hx]
    constructor
    case opened =>
      intro o h'; cases h'
      exact ⟨AList.lookup_insert _, _, AList.lookup_insert _, rfl⟩
    case reused => exact fun id hb => (hbound id hb).elim
    case created =>
      intro id t h'; cases h'
      exact ⟨hfree, hnew.1⟩
    case others => exact fun id e he _ => (hother id e he).2
    case otherUser =>
      intro id e he _
      refine ⟨?_, (hother id e he).2⟩
      intro o h'
      cases h'; exact (hother id e he).1
    case failed => intro err h'; cases h'

theorem open_sound {m : Manager V} (h : IdemInv m) {req : OpenShellRequest} {env : OpenEnv}
    (hf : FreshId S m (.openShell req env)) : OpenSound m req env (m.step S (.openShell req env)) := by
  cases hr : m.reusable req with
  | some ie => exact openSound_reuse S h hr
  | none => exact openSound_fresh S h hf hr

/-! ## Whole runs -/

/-- A key stays bound until its shell is removed. -/
theorem bound_step {m : Manager V} (h : IdemInv m) {op : Op} {k : String × IdempotencyKey} {id : ShellId}
    (hb : m.idempotency.lookup k = some id) (hr : ¬(op = .removeExited id ∧ (m.step S op).2 = .done)) :
    (m.step S op).1.idempotency.lookup k = some id := by
  rcases idempotency_step S m op with hi | ⟨req, env, account, rfl, ho, h2, hi, _⟩ | ⟨i, hop, h2, hi⟩
  · rw [hi]; exact hb
  · -- an open that makes a shell was for another key
    have hne : k ≠ (req.user, req.idempotencyKey) := by
      intro hk
      subst hk
      obtain ⟨e, he, _⟩ := reusable_of_bound h hb
      rw [ho.free] at he; cases he
    rw [hi, AList.lookup_insert_ne hne]; exact hb
  · rw [hi]
    exact lookup_retain_ne.mpr ⟨hb, fun e => hr ⟨e ▸ hop, h2⟩⟩

theorem bound_run {m : Manager V} (h : IdemInv m) {ops : List Op} (hf : (machine S).Admissible (FreshId S) m ops)
    {k : String × IdempotencyKey} {id : ShellId} (hb : m.idempotency.lookup k = some id)
    (hr : (Op.removeExited id, Res.done) ∉ (machine S).trace m ops) :
    ((machine S).run m ops).idempotency.lookup k = some id := by
  have hq : ∀ x ∈ (machine S).trace m ops, x ≠ (Op.removeExited id, Res.done) := fun x hx e => hr (e ▸ hx)
  refine ((machine S).run_induction (P := fun m => IdemInv m ∧ m.idempotency.lookup k = some id) ?_ ⟨h, hb⟩
    ((machine S).admissible_and hf hq)).2
  intro m op hinv hop
  obtain ⟨hm, hb⟩ := hinv
  obtain ⟨hok, hne⟩ := hop
  exact ⟨idemInv_step S hm hok, bound_step S hm hb fun ⟨h1, h2⟩ => hne (Prod.ext h1 h2)⟩

/-- Idempotent open: the map is sound in every reachable state, every open of every run
    keeps its contract, and once an open returned a shell every further open with that
    user and key returns it, making no other, until the shell is removed. -/
theorem idempotent_open (ops : List Op) (hf : (machine S).Admissible (FreshId S) empty ops) :
    IdemInv ((machine S).run empty ops) ∧
    (∀ pre post req env, ops = pre ++ .openShell req env :: post →
      OpenSound ((machine S).run empty pre) req env (((machine S).run empty pre).step S (.openShell req env))) ∧
    ∀ pre mid post req env o req' env', ops = pre ++ .openShell req env :: (mid ++ .openShell req' env' :: post) →
      (req'.user, req'.idempotencyKey) = (req.user, req.idempotencyKey) →
      (((machine S).run empty pre).step S (.openShell req env)).2 = .opened o →
      let m₁ := (((machine S).run empty pre).step S (.openShell req env)).1
      (Op.removeExited o.shellId, Res.done) ∉ (machine S).trace m₁ mid →
      let m := (machine S).run m₁ mid
      (m.step S (.openShell req' env')).2 = .opened ⟨o.shellId, env'.token, true⟩ ∧
        (m.step S (.openShell req' env')).1.idempotency = m.idempotency ∧
        (m.step S (.openShell req' env')).1.shells.keys = m.shells.keys := by
  have hsound : ∀ pre post req env, ops = pre ++ .openShell req env :: post →
      IdemInv ((machine S).run empty pre) ∧ FreshId S ((machine S).run empty pre) (.openShell req env) := by
    intro pre post req env hops
    subst hops
    obtain ⟨hpre, hpost⟩ := (machine S).admissible_append.mp hf
    exact ⟨idemInv_run S idemInv_empty hpre, hpost.1⟩
  refine ⟨idemInv_run S idemInv_empty hf, ?_, ?_⟩
  · intro pre post req env h
    obtain ⟨hi, hfresh⟩ := hsound pre post req env h
    exact open_sound S hi hfresh
  · intro pre mid post req env o req' env' hops hkey ho m₁ hrem m
    obtain ⟨hi, hfresh⟩ := hsound pre _ req env hops
    have hi₁ : IdemInv m₁ := idemInv_step S hi hfresh
    have hb : m₁.idempotency.lookup (req.user, req.idempotencyKey) = some o.shellId :=
      ((open_sound S hi hfresh).opened o ho).1
    rw [hops] at hf
    obtain ⟨-, -, hrest⟩ := (machine S).admissible_append.mp hf
    obtain ⟨hmid, hlast, -⟩ := (machine S).admissible_append.mp hrest
    have hbm : m.idempotency.lookup (req'.user, req'.idempotencyKey) = some o.shellId :=
      hkey ▸ bound_run S hi₁ hmid hb hrem
    have him : IdemInv m := idemInv_run S hi₁ hmid
    exact (open_sound S him hlast).reused _ hbm

/-- Two users share a key, the first one retries, and the shells stay apart. -/
theorem idempotent_open_two_users :
    let other : ShellId := ⟨Vector.replicate 16 8⟩
    let ops := [sampleOpen "ada" 1 sampleShell, sampleOpen "bob" 2 other, sampleOpen "ada" 3 other]
    (machine Server.sample).Admissible (FreshId Server.sample) empty ops ∧
      IdemInv ((machine Server.sample).run empty ops) ∧
      ((machine Server.sample).trace empty ops).map (·.2) =
        [.opened ⟨sampleShell, .repeated 1, false⟩, .opened ⟨other, .repeated 2, false⟩,
          .opened ⟨sampleShell, .repeated 3, true⟩] :=
  ⟨by decide, (idempotent_open Server.sample _ (by decide)).1, by decide⟩

end Holdfast.Session.Manager

/-
  Holdfast.Session.Tokens — resume tokens over whole runs of the shell manager.

  `issuedFor id` reads off a trace the tokens handed out for one shell, oldest first: a
  new shell starts the list, and an idempotent re-open, an attach and an authorized attach
  each append to it. `TokensHeld` ties the two hash fields of the runtime to that list:
  the accepted hash is the last token's, and the ring is the last 64 of the others. One
  step keeps the tie (`tokensInv_step`), whatever the step is.

  Two things are assumed about randomness and hashing, and only about the tokens of the
  run at hand: the tokens issued are pairwise distinct, and SHA-256 does not collide on
  the tokens issued or presented (`CollisionFree`).

  Proved:
  - `resume_token_safety`: the answer to every attach of every run is the one the list of
    issued tokens gives, errors leave the manager as it was, and no token is accepted twice.
-/

import Holdfast.Base.Ring
import Holdfast.Session.Steps

namespace Holdfast.Session

open Holdfast.Base Holdfast.Terminal

/-! ## Reading a trace -/

def noteIssued (id : ShellId) (issued : List ResumeToken) (x : Op × Res) : List ResumeToken :=
  match x.2.issued with
  | none => issued
  | some (i, token, fresh) => if i = id then (if fresh then [token] else issued ++ [token]) else issued

/-- The tokens issued for the shell now called `id`, oldest first. -/
def issuedFor (id : ShellId) (tr : List (Op × Res)) : List ResumeToken := tr.foldl (noteIssued id) []

/-- All tokens issued, for whatever shell. -/
def issuedTokens (tr : List (Op × Res)) : List ResumeToken := tr.filterMap fun x => x.2.issued.map (·.2.1)

def acceptedToken : Op × Res → Option ResumeToken
  | (.attach _ _ token _ _ _, .attached _) => some token
  | _ => none

/-- The tokens that let an attach through. -/
def acceptedTokens (tr : List (Op × Res)) : List ResumeToken := tr.filterMap acceptedToken

/-- The tokens drawn for or presented with an input. -/
def Op.tokens : Op → List ResumeToken
  | .openShell _ env => [env.token]
  | .attach _ _ token _ _ env => [token, env.token]
  | .attachAuthorized _ _ _ _ env => [env.token]
  | _ => []

inductive Verdict where
  | accepted
  | replayed
  | invalid
  deriving DecidableEq, Repr

/-- What a presented token deserves, by the tokens issued so far: only the last one is
    good, and the 64 before it are known to have been. -/
def verdict (issued : List ResumeToken) (token : ResumeToken) : Verdict :=
  if issued.getLast? = some token then .accepted
  else if token ∈ issued.dropLast.rtake supersededTokenHistory then .replayed
  else .invalid

theorem issuedFor_snoc (id : ShellId) (tr : List (Op × Res)) (x : Op × Res) :
    issuedFor id (tr ++ [x]) = noteIssued id (issuedFor id tr) x := by
  simp [issuedFor, List.foldl_append]

theorem issuedTokens_snoc (tr : List (Op × Res)) (x : Op × Res) :
    issuedTokens (tr ++ [x]) = issuedTokens tr ++ (x.2.issued.map (·.2.1)).toList := by
  cases h : x.2.issued <;> simp [issuedTokens, h]

theorem acceptedTokens_snoc (tr : List (Op × Res)) (x : Op × Res) :
    acceptedTokens (tr ++ [x]) = acceptedTokens tr ++ (acceptedToken x).toList := by
  cases h : acceptedToken x <;> simp [acceptedTokens, h]

theorem noteIssued_other {id : ShellId} {issued : List ResumeToken} {x : Op × Res}
    (h : ∀ i t fresh, x.2.issued = some (i, t, fresh) → i ≠ id) : noteIssued id issued x = issued := by
  unfold noteIssued
  split
  · rfl
  · rename_i i t fresh hi
    rw [if_neg (h i t fresh hi)]

theorem noteIssued_rotated {id : ShellId} {issued : List ResumeToken} {x : Op × Res} {t : ResumeToken}
    (h : x.2.issued = some (id, t, false)) : noteIssued id issued x = issued ++ [t] := by
  simp [noteIssued, h]

/-- A token on one shell's list was issued, and when the tokens issued are distinct it is
    on no other shell's list. -/
theorem mem_issuedFor {tr : List (Op × Res)} (hd : (issuedTokens tr).Nodup) {id : ShellId} {t : ResumeToken}
    (h : t ∈ issuedFor id tr) : t ∈ issuedTokens tr ∧ ∀ id', t ∈ issuedFor id' tr → id' = id := by
  induction tr using List.reverseRecOn generalizing id t with
  | nil => cases h
  | append_singleton tr x ih =>
    rw [issuedTokens_snoc] at hd ⊢
    have hd' := (List.nodup_append.mp hd).1
    simp only [issuedFor_snoc, noteIssued] at h ⊢
    cases hx : x.2.issued with
    | none =>
      simp only [hx] at h ⊢
      simpa using ih hd' h
    | some it =>
      obtain ⟨i, tok, fresh⟩ := it
      simp only [hx, Option.map_some, Option.toList_some] at h hd ⊢
      -- the new token is on no list so far
      have hnew : ∀ j, tok ∉ issuedFor j tr := fun j hj =>
        (List.nodup_append.mp hd).2.2 tok (ih hd' hj).1 tok (by simp) rfl
      have split_mem : ∀ j, t ∈ (if i = j then (if fresh then [tok] else issuedFor j tr ++ [tok]) else issuedFor j tr) →
          t = tok ∧ j = i ∨ t ∈ issuedFor j tr ∧ t ≠ tok := by
        intro j hj
        by_cases hij : i = j
        · rw [if_pos hij] at hj
          by_cases hft : t = tok
          · exact .inl ⟨hft, hij.symm⟩
          · cases fresh <;> simp [hft] at hj
            exact .inr ⟨hj, hft⟩
        · rw [if_neg hij] at hj
          exact .inr ⟨hj, fun e => hnew j (e ▸ hj)⟩
      rcases split_mem id h with ⟨rfl, rfl⟩ | ⟨hold, hne⟩
      · refine ⟨by simp, ?_⟩
        intro id' h'
        rcases split_mem id' h' with ⟨_, h⟩ | ⟨_, h⟩
        · exact h
        · exact absurd rfl h
      · refine ⟨List.mem_append_left _ (ih hd' hold).1, ?_⟩
        intro id' h'
        rcases split_mem id' h' with ⟨h, _⟩ | ⟨h, _⟩
        · exact absurd h hne
        · exact (ih hd' hold).2 id' h

/-! ## The runtime's hashes and the tokens issued -/

section

variable {V : Type} (S : Server V)

/-- The accepted hash is the last token's, the ring holds the last 64 of the others. -/
def TokensHeld (issued : List ResumeToken) (rt : Runtime V) : Prop :=
  ∃ past current, issued = past ++ [current] ∧ rt.tokenHash = S.sha256 current ∧
    rt.supersededTokenHashes = (past.map S.sha256).rtake supersededTokenHistory

variable {S}

theorem TokensHeld.rotate {issued : List ResumeToken} {rt : Runtime V} (h : TokensHeld S issued rt) (t : ResumeToken) :
    TokensHeld S (issued ++ [t]) (rt.rotateToken S t) := by
  obtain ⟨past, current, rfl, hc, hr⟩ := h
  refine ⟨past ++ [current], t, rfl, rfl, ?_⟩
  show Ring.push supersededTokenHistory rt.supersededTokenHashes rt.tokenHash = _
  rw [hr, hc, List.map_append]
  exact Ring.push_rtake (by decide) _ _

theorem TokensHeld.congr {issued : List ResumeToken} {rt rt' : Runtime V} (h : TokensHeld S issued rt)
    (h1 : rt'.tokenHash = rt.tokenHash) (h2 : rt'.supersededTokenHashes = rt.supersededTokenHashes) :
    TokensHeld S issued rt' := by
  unfold TokensHeld
  rw [h1, h2]
  exact h

theorem TokensHeld.attaches {issued : List ResumeToken} {id : ShellId} {rt rt' : Runtime V} {cols rows : UInt16}
    {env : Runtime.AttachEnv} {a : Attachment} (h : TokensHeld S issued rt)
    (ha : Runtime.Attaches S id rt cols rows env rt' a) : TokensHeld S (issued ++ [a.rotatedResumeToken]) rt' := by
  obtain ⟨rt₁, hr, rfl⟩ := ha.result
  have hs := Runtime.attachResize_same S hr
  have := (h.congr hs.tokenHash hs.supersededTokenHashes).rotate env.token
  rw [ha.token]
  exact this.congr rfl rfl

/-- A step of an entry either leaves its hashes alone and issues nothing, or rotates. -/
theorem EntryStep.tokens {id : ShellId} {e e' : ShellEntry V} {op : Op} {res : Res} (h : EntryStep S id e op res e')
    (he : e.id = id) {tr : List (Op × Res)} (ht : TokensHeld S (issuedFor id tr) e.runtime) :
    TokensHeld S (issuedFor id (tr ++ [(op, res)])) e'.runtime := by
  rw [issuedFor_snoc]
  have hother : res.issued = none → noteIssued id (issuedFor id tr) (op, res) = issuedFor id tr := fun hn =>
    noteIssued_other fun i t fresh hi => by rw [hn] at hi; cases hi
  cases h with
  | reopen req env =>
    rw [noteIssued_rotated (t := env.token) (by simp [Res.issued, he])]
    exact ht.rotate env.token
  | attach token cols rows env rt' a hh ha =>
    rw [noteIssued_rotated (t := a.rotatedResumeToken) (by simp [Res.issued, ha.shellId])]
    exact ht.attaches ha
  | attachAuthorized cols rows env rt' a ha =>
    rw [noteIssued_rotated (t := a.rotatedResumeToken) (by simp [Res.issued, ha.shellId])]
    exact ht.attaches ha
  | detach i => rw [hother rfl]; exact ht.congr rfl rfl
  | writeInput data env =>
    obtain ⟨pty, _, hw⟩ := e.runtime.writeInput_fst data env
    rw [hother (by simp), hw]; exact ht.congr rfl rfl
  | resize cols rows outcome _ =>
    obtain ⟨pty, model, _, hw⟩ := e.runtime.resize_fst S cols rows outcome
    rw [hother (by simp), hw]; exact ht.congr rfl rfl
  | terminate kill =>
    have hn : (((e.runtime.terminate kill).2.map Res.ofExit).getD Res.waiting).issued = none := by
      cases (e.runtime.terminate kill).2 with
      | none => rfl
      | some x => exact Res.issued_ofExit x
    rw [hother hn]
    rcases e.runtime.terminate_fst kill with ⟨_, _, hw⟩ | ⟨_, hw⟩
    · rw [hw]; exact ht
    · rw [hw]; exact ht.congr rfl rfl
  | terminateWake =>
    rw [hother (by simp)]
    rcases e.runtime.terminateWake_fst with ⟨_, hw⟩ | ⟨_, _, hw⟩
    · rw [hw]; exact ht
    · rw [hw]; exact ht.congr rfl rfl
  | pumpChunk chunk hp => rw [hother rfl]; exact ht.congr rfl rfl
  | pumpEof wait hp => rw [hother rfl]; exact ht.congr rfl rfl
  | recv i => rw [hother rfl]; exact ht.congr rfl rfl
  | dropReceiver i => rw [hother rfl]; exact ht.congr rfl rfl

variable (S)

/-- Every shell of the map holds the tokens issued for it. -/
def TokensInv (tr : List (Op × Res)) (m : Manager V) : Prop :=
  m.Keyed ∧ ∀ id e, m.shells.lookup id = some e → TokensHeld S (issuedFor id tr) e.runtime

theorem tokensInv_step {tr : List (Op × Res)} {m : Manager V} (h : TokensInv S tr m) (op : Op) :
    TokensInv S (tr ++ [(op, (m.step S op).2)]) (m.step S op).1 := by
  refine ⟨Manager.keyed_step S h.1 op, ?_⟩
  intro id e he
  cases Manager.step_at S h.1 op id with
  | kept hl hi =>
    rw [issuedFor_snoc, noteIssued_other hi]
    exact h.2 id e (hl ▸ he)
  | changed e₀ e' hl hs h' =>
    rw [he] at h'; cases h'
    exact hs.tokens (h.1.shells id e₀ hl) (h.2 id e₀ hl)
  | created req env account hop hi ho h2 h' =>
    rw [he] at h'; cases h'
    rw [issuedFor_snoc, h2]
    exact ⟨[], env.token, by simp [noteIssued, Res.issued], rfl, rfl⟩
  | removed e₀ hop hl hx h2 h' => rw [he] at h'; cases h'

theorem tokensInv_run (ops : List Op) :
    TokensInv S ((Manager.machine S).trace .empty ops) ((Manager.machine S).run .empty ops) :=
  (Manager.machine S).trace_induction (P := TokensInv S) ⟨Manager.keyed_empty, fun _ _ h => by cases h⟩
    (fun _ _ op h _ => tokensInv_step S h op) ((Manager.machine S).admissible_true _ ops)

/-! ## What an attach answers -/

/-- SHA-256 tells the tokens of a run apart. -/
def CollisionFree (ops : List Op) : Prop :=
  ∀ t ∈ ops.flatMap Op.tokens, ∀ t' ∈ ops.flatMap Op.tokens, S.sha256 t = S.sha256 t' → t = t'

theorem issued_mem_tokens {m : Manager V} {op : Op} {i : ShellId} {t : ResumeToken} {fresh : Bool}
    (h : (m.step S op).2.issued = some (i, t, fresh)) : t ∈ op.tokens := by
  have hentry : ∀ {id e e'}, EntryStep S id e op (m.step S op).2 e' → t ∈ op.tokens := by
    intro id e e' hs
    generalize (m.step S op).2 = res at h hs
    cases hs with
    | reopen req env => cases h; simp [Op.tokens]
    | attach token cols rows env rt' a hh ha => cases h; simp [Op.tokens, ha.token]
    | attachAuthorized cols rows env rt' a ha => cases h; simp [Op.tokens, ha.token]
    | terminate kill =>
      cases hx : (e.runtime.terminate kill).2 with
      | none => simp [hx, Res.issued] at h
      | some x => simp [hx] at h
    | writeInput data env => simp at h
    | resize cols rows outcome _ => simp at h
    | terminateWake => simp at h
    | _ => cases h
  cases Manager.step_cases S m op with
  | same _ h2 => rw [issued_of_acts h2] at h; cases h
  | entry id e e' _ hs _ => exact hentry hs
  | held id e e' _ _ hs _ _ => exact hentry hs
  | opens req env account hop _ h2 _ =>
    subst hop
    rw [h2] at h; cases h
    simp [Op.tokens]
  | removes id e _ _ _ h2 _ => rw [h2] at h; cases h

theorem issuedTokens_subset (m : Manager V) (ops : List Op) {t : ResumeToken}
    (h : t ∈ issuedTokens ((Manager.machine S).trace m ops)) : ∃ op ∈ ops, t ∈ op.tokens := by
  obtain ⟨x, hx, ht⟩ := List.mem_filterMap.mp h
  induction ops generalizing m with
  | nil => cases hx
  | cons op ops ih =>
    rcases List.mem_cons.mp hx with rfl | hx
    · obtain ⟨⟨i, t', fresh⟩, hi, rfl⟩ := Option.map_eq_some_iff.mp ht
      exact ⟨op, by simp, issued_mem_tokens S hi⟩
    · obtain ⟨op', hop, ht'⟩ := ih ((Manager.machine S).next m op) (List.mem_filterMap.mpr ⟨x, hx, ht⟩) hx
      exact ⟨op', List.mem_cons_of_mem _ hop, ht'⟩

variable {S}

/-- The token check of `attach` decides by the verdict on the tokens issued. -/
theorem attachWithToken_eq {issued : List ResumeToken} {rt : Runtime V} (h : TokensHeld S issued rt)
    {token : ResumeToken} (hinj : ∀ t ∈ issued, S.sha256 t = S.sha256 token → t = token) (id : ShellId)
    (cols rows : UInt16) (env : Runtime.AttachEnv) :
    rt.attachWithToken S id token cols rows env =
      match verdict issued token with
      | .accepted => rt.attachRuntime S id cols rows env
      | .replayed => (rt, .error .tokenReplayed)
      | .invalid => (rt, .error .invalidToken) := by
  obtain ⟨past, current, rfl, hc, hr⟩ := h
  have hcur : rt.tokenHash = S.sha256 token ↔ current = token := by
    rw [hc]
    exact ⟨hinj current (by simp), fun e => by rw [e]⟩
  have hring : S.sha256 token ∈ rt.supersededTokenHashes ↔ token ∈ past.rtake supersededTokenHistory := by
    rw [hr]
    exact Ring.mem_rtake_map fun b hb => hinj b (by simp [hb])
  simp only [Runtime.attachWithToken, verdict, List.getLast?_append, List.getLast?_singleton, Option.some_or,
    List.dropLast_concat, Option.some.injEq, hcur, hring, ne_eq, ite_not]
  by_cases h1 : current = token
  · simp [h1]
  · by_cases h2 : token ∈ past.rtake supersededTokenHistory <;> simp [h1, h2]

variable (S)

/-- The contract of `attach owner id token` in a state `m` that the trace `tr` led to. -/
structure AttachSound (tr : List (Op × Res)) (m : Manager V) (owner : String) (id : ShellId) (token : ResumeToken)
    (cols rows : UInt16) (env : Runtime.AttachEnv) (r : Manager V × Res) : Prop where
  unknown : (∀ e, m.shells.lookup id = some e → e.owner ≠ owner) → r = (m, .err .shellNotFound)
  replayed : ∀ e, m.shells.lookup id = some e → e.owner = owner → verdict (issuedFor id tr) token = .replayed →
    r = (m, .err .tokenReplayed)
  invalid : ∀ e, m.shells.lookup id = some e → e.owner = owner → verdict (issuedFor id tr) token = .invalid →
    r = (m, .err .invalidToken)
  notRunning : ∀ e, m.shells.lookup id = some e → e.owner = owner → verdict (issuedFor id tr) token = .accepted →
    e.runtime.state ≠ .running → r = (m, .err .notRunning)
  full : ∀ e, m.shells.lookup id = some e → e.owner = owner → verdict (issuedFor id tr) token = .accepted →
    e.runtime.state = .running → S.config.maxAttachmentsPerShell ≤ e.runtime.attachments.card →
    r = (m, .err (.limitExceeded "max_attachments_per_shell"))
  resizeFailed : ∀ e pe, m.shells.lookup id = some e → e.owner = owner →
    verdict (issuedFor id tr) token = .accepted → e.runtime.state = .running →
    e.runtime.attachments.card < S.config.maxAttachmentsPerShell →
    e.runtime.attachResize S cols rows env.resize = .error pe → r = (m, .err (.pty pe))
  attached : ∀ e rt, m.shells.lookup id = some e → e.owner = owner →
    verdict (issuedFor id tr) token = .accepted → e.runtime.state = .running →
    e.runtime.attachments.card < S.config.maxAttachmentsPerShell →
    e.runtime.attachResize S cols rows env.resize = .ok rt → ∃ a, r.2 = .attached a
  /-- A success was deserved, and supersedes the token presented. -/
  supersedes : ∀ a, r.2 = .attached a →
    (∃ e, m.shells.lookup id = some e ∧ e.owner = owner) ∧ (issuedFor id tr).getLast? = some token ∧
      let tr' := tr ++ [(Op.attach owner id token cols rows env, r.2)]
      (issuedFor id tr').getLast? = some a.rotatedResumeToken ∧ verdict (issuedFor id tr') token = .replayed

variable {S}

/-- An attach by the owner is decided by the verdict, and an error of it changes nothing. -/
theorem attach_eq {tr : List (Op × Res)} {m : Manager V} (hm : TokensInv S tr m) {id : ShellId} {e : ShellEntry V}
    (he : m.shells.lookup id = some e) {token : ResumeToken}
    (hinj : ∀ t ∈ issuedFor id tr, S.sha256 t = S.sha256 token → t = token) (cols rows : UInt16)
    (env : Runtime.AttachEnv) :
    m.attach S e.owner id token cols rows env =
      match verdict (issuedFor id tr) token with
      | .accepted =>
        ({ m with shells := Manager.setRuntime m.shells id (e.runtime.attachRuntime S id cols rows env).1 },
          .ofAttach (e.runtime.attachRuntime S id cols rows env).2)
      | .replayed => (m, .err .tokenReplayed)
      | .invalid => (m, .err .invalidToken) := by
  simp only [Manager.attach, Manager.withEntry, he, ne_eq, not_true_eq_false, if_false,
    attachWithToken_eq (hm.2 id e he) hinj]
  cases verdict (issuedFor id tr) token with
  | accepted => rfl
  | replayed => simp only [Manager.setRuntime_self he]; rfl
  | invalid => simp only [Manager.setRuntime_self he]; rfl

/-- What a successful attach tells. -/
theorem attach_attached {m : Manager V} {owner : String} {id : ShellId} {token : ResumeToken} {cols rows : UInt16}
    {env : Runtime.AttachEnv} {a : Attachment}
    (h : (m.step S (.attach owner id token cols rows env)).2 = .attached a) :
    ∃ e, m.shells.lookup id = some e ∧ e.owner = owner ∧ e.runtime.tokenHash = S.sha256 token ∧ a.shellId = id := by
  have hissued : ((m.step S (.attach owner id token cols rows env)).2).issued ≠ none := by rw [h]; simp [Res.issued]
  cases Manager.step_cases S m (.attach owner id token cols rows env) with
  | same _ h2 => exact absurd (issued_of_acts h2) hissued
  | entry i e e' hl hs _ =>
    rw [h] at hs
    cases hs with
    | attach _ _ _ _ _ _ ht ha => exact ⟨e, hl, rfl, ht, ha.shellId⟩
  | held _ _ _ _ _ _ h2 _ => exact absurd h2 hissued
  | opens req env' account hop _ _ _ => cases hop
  | removes i e hop _ _ _ _ => cases hop

theorem attach_sound {tr : List (Op × Res)} {m : Manager V} (hm : TokensInv S tr m) {owner : String} {id : ShellId}
    {token : ResumeToken} {cols rows : UInt16} {env : Runtime.AttachEnv}
    (hinj : ∀ t ∈ issuedFor id tr, S.sha256 t = S.sha256 token → t = token)
    (hnew : ∀ a, (m.step S (.attach owner id token cols rows env)).2 = .attached a →
      a.rotatedResumeToken ∉ issuedFor id tr) :
    AttachSound S tr m owner id token cols rows env (m.step S (.attach owner id token cols rows env)) where
  unknown h := by
    show m.withEntry id _ = _
    unfold Manager.withEntry
    split
    · rfl
    · rename_i e he
      simp only [h e he, ne_eq, not_false_eq_true, if_true, Manager.setRuntime_self he]
  replayed e he ho hv := by subst ho; exact (attach_eq hm he hinj cols rows env).trans (by rw [hv])
  invalid e he ho hv := by subst ho; exact (attach_eq hm he hinj cols rows env).trans (by rw [hv])
  notRunning e he ho hv hr := by
    subst ho
    refine (attach_eq hm he hinj cols rows env).trans ?_
    simp only [hv, Runtime.attachRuntime, hr, ne_eq, not_false_eq_true, if_true, Manager.setRuntime_self he]
    rfl
  full e he ho hv hr hf := by
    subst ho
    refine (attach_eq hm he hinj cols rows env).trans ?_
    simp only [hv, Runtime.attachRuntime, hr, ne_eq, not_true_eq_false, if_false, ge_iff_le, hf, if_true,
      Manager.setRuntime_self he]
    rfl
  resizeFailed e pe he ho hv hr hf hp := by
    subst ho
    refine (attach_eq hm he hinj cols rows env).trans ?_
    simp only [hv, Runtime.attachRuntime, hr, ne_eq, not_true_eq_false, if_false, ge_iff_le, not_le.mpr hf, hp,
      Manager.setRuntime_self he]
    rfl
  attached e rt he ho hv hr hf hp := by
    subst ho
    show ∃ a, (m.attach S e.owner id token cols rows env).2 = .attached a
    rw [attach_eq hm he hinj cols rows env]
    simp only [hv, Runtime.attachRuntime, hr, ne_eq, not_true_eq_false, if_false, ge_iff_le, not_le.mpr hf, hp]
    exact ⟨_, rfl⟩
  supersedes a ha := by
    obtain ⟨e, he, ho, ht, hid⟩ := attach_attached ha
    obtain ⟨past, current, hiss, hc, -⟩ := hm.2 id e he
    have hcur : current = token := hinj current (by simp [hiss]) (hc.symm.trans ht)
    have hlast : (issuedFor id tr).getLast? = some token := by simp [hiss, hcur]
    have htr : issuedFor id (tr ++ [(Op.attach owner id token cols rows env,
        (m.step S (.attach owner id token cols rows env)).2)]) = issuedFor id tr ++ [a.rotatedResumeToken] := by
      rw [issuedFor_snoc, noteIssued_rotated (t := a.rotatedResumeToken) (by rw [ha]; simp [Res.issued, hid])]
    refine ⟨⟨e, he, ho⟩, hlast, ?_⟩
    simp only [htr]
    refine ⟨by simp, ?_⟩
    have hne : a.rotatedResumeToken ≠ token := fun h => hnew a ha (by rw [h, hiss, hcur]; simp)
    have hmem : token ∈ (issuedFor id tr).rtake supersededTokenHistory := by
      rw [hiss, hcur]
      exact (List.rtake_concat_succ past 63 token).symm ▸ List.mem_append_right _ (by simp)
    simp [verdict, hne, hmem]

/-! ## No token is accepted twice -/

/-- An accepted token was issued and is no shell's current token any more. -/
def Spent (tr : List (Op × Res)) (t : ResumeToken) : Prop :=
  t ∈ issuedTokens tr ∧ ∀ id, (issuedFor id tr).getLast? ≠ some t

theorem Spent.snoc {tr : List (Op × Res)} {t : ResumeToken} (h : Spent tr t) {x : Op × Res}
    (hd : (issuedTokens (tr ++ [x])).Nodup) : Spent (tr ++ [x]) t := by
  rw [issuedTokens_snoc] at hd
  refine ⟨by rw [issuedTokens_snoc]; exact List.mem_append_left _ h.1, ?_⟩
  intro id hl
  rw [issuedFor_snoc] at hl
  unfold noteIssued at hl
  split at hl
  · exact h.2 id hl
  · rename_i i tok fresh hx
    have hne : tok ≠ t := fun e => by
      subst e
      exact (List.nodup_append.mp hd).2.2 tok h.1 tok (by simp [hx]) rfl
    split at hl
    · split at hl <;> simp [hne] at hl
    · exact h.2 id hl

/-- The token a successful attach presented is spent by it. -/
theorem spent_of_accepted {tr : List (Op × Res)} {x : Op × Res} {id : ShellId} {t tok : ResumeToken}
    (hd : (issuedTokens (tr ++ [x])).Nodup) (hlast : (issuedFor id tr).getLast? = some t)
    (hx : x.2.issued = some (id, tok, false)) : Spent (tr ++ [x]) t := by
  have hd' := hd
  rw [issuedTokens_snoc, hx] at hd'
  have hmem : t ∈ issuedFor id tr := List.mem_of_getLast? hlast
  obtain ⟨hiss, huniq⟩ := mem_issuedFor (List.nodup_append.mp hd').1 hmem
  refine ⟨by rw [issuedTokens_snoc]; exact List.mem_append_left _ hiss, ?_⟩
  intro id' hl
  rw [issuedFor_snoc] at hl
  by_cases hid : id' = id
  · subst hid
    rw [noteIssued_rotated hx] at hl
    have : tok = t := by simpa using hl
    exact (List.nodup_append.mp hd').2.2 t hiss tok (by simp) this.symm
  · rw [noteIssued_other (fun i t' fresh hi => by rw [hx] at hi; cases hi; exact Ne.symm hid)] at hl
    exact hid (huniq id' (List.mem_of_getLast? hl))

theorem CollisionFree.of_append_left {pre post : List Op} (h : CollisionFree S (pre ++ post)) : CollisionFree S pre :=
  fun t ht t' ht' => h t (by simp_all) t' (by simp_all)

theorem nodup_issued_append_left {pre post : List Op}
    (h : (issuedTokens ((Manager.machine S).trace .empty (pre ++ post))).Nodup) :
    (issuedTokens ((Manager.machine S).trace .empty pre)).Nodup := by
  rw [Machine.trace_append] at h
  unfold issuedTokens at h ⊢
  rw [List.filterMap_append] at h
  exact (List.nodup_append.mp h).1

/-- Hashing tells a presented token from the tokens issued before it. -/
theorem CollisionFree.issuedFor {pre post : List Op} {op : Op} (h : CollisionFree S (pre ++ op :: post))
    (hd : (issuedTokens ((Manager.machine S).trace .empty pre)).Nodup) {id : ShellId} {token : ResumeToken}
    (htok : token ∈ op.tokens) :
    ∀ t ∈ Session.issuedFor id ((Manager.machine S).trace .empty pre), S.sha256 t = S.sha256 token → t = token := by
  intro t ht he
  obtain ⟨op', hop', ht'⟩ := issuedTokens_subset S _ pre (mem_issuedFor hd ht).1
  exact h t (List.mem_flatMap.mpr ⟨op', by simp [hop'], ht'⟩) token (List.mem_flatMap.mpr ⟨op, by simp, htok⟩) he

theorem attach_sound_at {pre : List Op} (post : List Op) {owner : String} {id : ShellId}
    {token : ResumeToken} {cols rows : UInt16}
    {env : Runtime.AttachEnv} (hc : CollisionFree S (pre ++ .attach owner id token cols rows env :: post))
    (hd : (issuedTokens ((Manager.machine S).trace .empty (pre ++ .attach owner id token cols rows env :: post))).Nodup) :
    AttachSound S ((Manager.machine S).trace .empty pre) ((Manager.machine S).run .empty pre) owner id token cols rows
      env (((Manager.machine S).run .empty pre).step S (.attach owner id token cols rows env)) := by
  have hd' := nodup_issued_append_left hd
  apply attach_sound (tokensInv_run S pre) (hc.issuedFor hd' (by simp [Op.tokens]))
  intro a ha hmem
  rw [Machine.trace_append] at hd
  unfold issuedTokens at hd
  rw [List.filterMap_append] at hd
  refine (List.nodup_append.mp hd).2.2 _ (mem_issuedFor hd' hmem).1 _ ?_ rfl
  exact List.mem_filterMap.mpr ⟨_, List.mem_cons_self, by
    show Option.map _ (Res.issued (((Manager.machine S).run .empty pre).step S _).2) = _
    rw [ha]; rfl⟩

theorem acceptedToken_some {op : Op} {res : Res} {t : ResumeToken} (h : acceptedToken (op, res) = some t) :
    ∃ owner id cols rows env a, op = .attach owner id t cols rows env ∧ res = .attached a := by
  unfold acceptedToken at h
  split at h
  · rename_i owner id token cols rows env a heq
    cases heq; cases h
    exact ⟨owner, id, cols, rows, env, a, rfl, rfl⟩
  · cases h

theorem accepted_nodup {ops : List Op} (hc : CollisionFree S ops)
    (hd : (issuedTokens ((Manager.machine S).trace .empty ops)).Nodup) :
    (acceptedTokens ((Manager.machine S).trace .empty ops)).Nodup ∧
      ∀ t ∈ acceptedTokens ((Manager.machine S).trace .empty ops), Spent ((Manager.machine S).trace .empty ops) t := by
  induction ops using List.reverseRecOn with
  | nil => exact ⟨List.nodup_nil, fun t h => by cases h⟩
  | append_singleton ops op ih =>
    obtain ⟨hn, hs⟩ := ih hc.of_append_left (nodup_issued_append_left hd)
    have hsound := fun owner id token cols rows env (h : op = .attach owner id token cols rows env) =>
      attach_sound_at [] (h ▸ hc) (h ▸ hd)
    rw [Machine.trace_snoc] at hd ⊢
    have hkeep : ∀ t ∈ acceptedTokens ((Manager.machine S).trace .empty ops),
        Spent ((Manager.machine S).trace .empty ops ++ [(op, (Manager.machine S).out _ op)]) t :=
      fun t ht => (hs t ht).snoc hd
    rw [acceptedTokens_snoc]
    cases hx : acceptedToken (op, (Manager.machine S).out ((Manager.machine S).run .empty ops) op) with
    | none =>
      rw [Option.toList_none, List.append_nil]
      exact ⟨hn, hkeep⟩
    | some t =>
      obtain ⟨owner, id, cols, rows, env, a, rfl, ha⟩ := acceptedToken_some hx
      obtain ⟨_, hlast, _⟩ := (hsound owner id t cols rows env rfl).supersedes a ha
      obtain ⟨e, _, _, _, hid⟩ := attach_attached ha
      have hiss : (Res.attached a).issued = some (id, a.rotatedResumeToken, false) := by rw [← hid]; rfl
      have hspent := spent_of_accepted hd hlast (ha ▸ hiss)
      rw [Option.toList_some]
      refine ⟨List.nodup_append.mpr ⟨hn, by simp, ?_⟩, ?_⟩
      · intro u hu v hv huv
        rw [List.mem_singleton] at hv
        exact (hs u hu).2 id (by rw [huv, hv]; exact hlast)
      · intro u hu
        rcases List.mem_append.mp hu with hu | hu
        · exact hkeep u hu
        · rw [List.mem_singleton.mp hu]; exact hspent

variable (S)

/-- Resume-token safety over whole runs. -/
theorem resume_token_safety (ops : List Op) (hc : CollisionFree S ops)
    (hd : (issuedTokens ((Manager.machine S).trace .empty ops)).Nodup) :
    (∀ pre post owner id token cols rows env, ops = pre ++ .attach owner id token cols rows env :: post →
      AttachSound S ((Manager.machine S).trace .empty pre) ((Manager.machine S).run .empty pre) owner id token cols
        rows env (((Manager.machine S).run .empty pre).step S (.attach owner id token cols rows env))) ∧
    (acceptedTokens ((Manager.machine S).trace .empty ops)).Nodup :=
  ⟨fun _ post _ _ _ _ _ _ h => attach_sound_at post (h ▸ hc) (h ▸ hd), (accepted_nodup hc hd).1⟩

end

/-! ## A run -/

/-- An open, an attach with its token, and the same token again. -/
def sampleReplay : List Op :=
  [sampleOpen "ada" 1 sampleShell, .attach "ada" sampleShell (.repeated 1) 80 24 ⟨.ok (), .repeated 2, 2000⟩,
    .attach "ada" sampleShell (.repeated 1) 80 24 ⟨.ok (), .repeated 3, 3000⟩]

theorem resume_token_safety_sample :
    (CollisionFree Server.sample sampleReplay ∧
      (issuedTokens ((Manager.machine Server.sample).trace .empty sampleReplay)).Nodup) ∧
    ((Manager.machine Server.sample).trace .empty sampleReplay).map (·.2.issued) =
      [some (sampleShell, .repeated 1, true), some (sampleShell, .repeated 2, false), none] ∧
    AttachSound Server.sample ((Manager.machine Server.sample).trace .empty (sampleReplay.take 2))
      ((Manager.machine Server.sample).run .empty (sampleReplay.take 2)) "ada" sampleShell (.repeated 1) 80 24
      ⟨.ok (), .repeated 3, 3000⟩
      (((Manager.machine Server.sample).run .empty (sampleReplay.take 2)).step Server.sample
        (.attach "ada" sampleShell (.repeated 1) 80 24 ⟨.ok (), .repeated 3, 3000⟩)) ∧
    (acceptedTokens ((Manager.machine Server.sample).trace .empty sampleReplay)).Nodup :=
  have hc : CollisionFree Server.sample sampleReplay := by unfold CollisionFree; decide
  have hd : (issuedTokens ((Manager.machine Server.sample).trace .empty sampleReplay)).Nodup := by decide
  have h := resume_token_safety Server.sample sampleReplay hc hd
  ⟨⟨hc, hd⟩, by decide, h.1 (sampleReplay.take 2) [] _ _ _ _ _ _ rfl, h.2⟩

end Holdfast.Session

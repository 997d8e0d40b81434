/-
  Holdfast.Client.Remembers — what a native client forgets of the shells it opened, and
  whole runs of `Journal`.

  An entry is removed on what the server said of its shell: that a terminate is over, that
  an attach found nothing to attach to, that the shell is not listed as running, that it
  exited. The saying may be late, but a shell that no longer runs never runs again, so each
  is still right when it comes (`AskInv`). Left are the user's own order, and a token that
  is refused again right after a recovery.

  Proved:
  - `gone_step`: a shell that is gone stays gone.
  - `askInv_step`: what is said of a shell, and done about it, is right.
  - `journal_remembers`: while each failed open is a refusal, a key that was sent is written
    down until its shell is stored or the server refused it, every shell made for the client
    is stored or its key is written down, and an entry is removed only when its shell no
    longer runs or the user has it forgotten.
-/

import Holdfast.Client.Journal

namespace Holdfast.Client

open Holdfast.Base Holdfast.Session Holdfast.Daemon

namespace JournalWorld

variable {V : Type} (S : Server V) (user : String)

/-! ## What is said of a shell -/

/-- The server knows the shell, and no longer runs it for the user. -/
structure Gone (m : Manager V) (id : ShellId) : Prop where
  known : (m.find id).isSome = true
  stopped : m.runs user id = false

/-- The answer says that the shell is gone. -/
def saysGone : Ask → Answer → Bool
  | .attaching .., .rejected code _ _ => code = .errNotFound
  | .listing .., .listed running => !running
  | .terminating .., .done => true
  | _, _ => false

/-- The call is for a shell that was opened, by its text. -/
def AttachCall.Sound (w : JournalWorld V) (a : AttachCall) : Prop :=
  shellIdOf a.shellHex = some a.id ∧ (w.server.find a.id).isSome = true

/-- The key of a stored shell. -/
def KeyOf (w : JournalWorld V) (key : IdempotencyKey) (id : ShellId) : Prop := (key, id) ∈ w.opened ∧ w.kept id

/-- An attach that was not yet recovered has the key it would recover with. -/
def Sound (w : JournalWorld V) : Ask → Prop
  | .attaching a _ recovered => AttachCall.Sound w a ∧ (recovered = false → ∃ key, a.key = some key ∧ KeyOf w key a.id)
  | .listing a key => AttachCall.Sound w a ∧ KeyOf w key a.id
  | .terminating shellHex id _ => ∀ text ∈ shellHex, shellIdOf text = some id

/-- What the client was told, and removed upon it. -/
structure AskInv (w : JournalWorld V) : Prop where
  capacity : Manager.CapacityInv S w.server
  exits : ∀ id, w.server.ExitsOver id
  seen : ∀ key id, (key, id) ∈ w.opened → (w.server.find id).isSome = true
  answered : ∀ id token, w.answer = some (.opened id token) → (w.server.find id).isSome = true
  recovers : ∀ r a, w.call = some r → r.purpose = .recovering a → AttachCall.Sound w a
  ask : ∀ a, w.ask = some a → Sound w a
  reply : ∀ a reply, w.ask = some a → w.reply = some reply → saysGone a reply = true → Gone user w.server a.id
  notices : ∀ text ∈ w.notices, ∃ id, shellIdOf text = some id ∧ Gone user w.server id
  mine : ∀ x ∈ w.mine, shellIdOf x.1 = some x.2.1
  removed : ∀ id ∈ w.removed, Gone user w.server id ∨ id ∈ w.forgotten

variable {S user} {w w' : JournalWorld V}

theorem askInv_init {before : List Op} (hbefore : (Manager.machine S).Admissible (Manager.FreshId S) .empty before) :
    AskInv S user (init S before) where
  capacity := Manager.capacityInv_run (Manager.capacityInv_empty S) hbefore
  exits := Manager.exitsOver_run hbefore
  seen _ _ h := by cases h
  answered _ _ h := by cases h
  recovers _ _ h := by cases h
  ask _ h := by cases h
  reply _ _ h := by cases h
  notices := List.forall_mem_nil _
  mine := List.forall_mem_nil _
  removed := List.forall_mem_nil _

/-! ## The server moves -/

theorem gone_step {m : Manager V} (hc : Manager.CapacityInv S m) (hi : m.IdemInv) {op : Op} (hf : Manager.FreshId S m op)
    {id : ShellId} (h : Gone user m id) : Gone user (m.step S op).1 id where
  known := known_after hi hf h.known
  stopped := by
    refine Manager.runs_step hc ?_ h.stopped
    intro token ho
    obtain ⟨hs, hr⟩ := hf.new ho
    have hknown := h.known
    rw [Manager.find, hs, hr] at hknown
    cases hknown

theorem AskInv.serves (h : AskInv S user w) (hi : w.server.IdemInv) {op : Op} (hf : Manager.FreshId S w.server op) :
    AskInv S user { w with server := (w.server.step S op).1 } := by
  have hknown : ∀ {id}, (w.server.find id).isSome = true → ((w.server.step S op).1.find id).isSome = true :=
    fun hk => known_after hi hf hk
  have hgone : ∀ {id}, Gone user w.server id → Gone user (w.server.step S op).1 id := fun hg => gone_step h.capacity hi hf hg
  have hsound : ∀ {a}, AttachCall.Sound w a → AttachCall.Sound { w with server := (w.server.step S op).1 } a :=
    fun ha => ⟨ha.1, hknown ha.2⟩
  refine
    { capacity := Manager.capacityInv_step h.capacity hf
      exits := fun id => Manager.exitsOver_step h.capacity hf (h.exits id)
      seen := fun key id ho => hknown (h.seen key id ho)
      answered := fun id token ha => hknown (h.answered id token ha)
      recovers := fun r a hc hp => hsound (h.recovers r a hc hp)
      ask := ?_
      reply := fun a reply ha hr hs => hgone (h.reply a reply ha hr hs)
      notices := ?_
      mine := h.mine
      removed := fun id hid => (h.removed id hid).imp_left hgone }
  · intro a ha
    have hs := h.ask a ha
    cases a with
    | attaching a token recovered => exact ⟨hsound hs.1, hs.2⟩
    | listing a key => exact ⟨hsound hs.1, hs.2⟩
    | terminating text id waits => exact hs
  · intro text htext
    obtain ⟨id, hid, hg⟩ := h.notices text htext
    exact ⟨id, hid, hgone hg⟩

/-! ## Steps that ask nothing -/

/-- Nothing that `AskInv` speaks of is new. -/
structure Aside (w w' : JournalWorld V) : Prop where
  server : w'.server = w.server
  shells : w'.store.shells = w.store.shells
  opened : w'.opened = w.opened
  call : ∀ r a, w'.call = some r → r.purpose = .recovering a → w.call = some r
  answer : ∀ id token, w'.answer = some (.opened id token) → w.answer = some (.opened id token)
  ask : w'.ask = none ∨ w'.ask = w.ask ∧ w'.reply = w.reply
  notices : w'.notices ⊆ w.notices
  mine : w'.mine ⊆ w.mine
  removed : w'.removed = w.removed
  forgotten : w.forgotten ⊆ w'.forgotten

theorem Sound.of_kept {a : Ask} (h : Sound w a) (hserver : w'.server = w.server) (hopened : w.opened ⊆ w'.opened)
    (hkept : ∀ id, w.kept id → w'.kept id) : Sound w' a := by
  have hsound : ∀ {a}, AttachCall.Sound w a → AttachCall.Sound w' a := fun ha => ⟨ha.1, by rw [hserver]; exact ha.2⟩
  have hkey : ∀ {key id}, KeyOf w key id → KeyOf w' key id := fun hk => ⟨hopened hk.1, hkept _ hk.2⟩
  cases a with
  | attaching a token recovered =>
    refine ⟨hsound h.1, fun hr => ?_⟩
    obtain ⟨key, hk, ho⟩ := h.2 hr
    exact ⟨key, hk, hkey ho⟩
  | listing a key => exact ⟨hsound h.1, hkey h.2⟩
  | terminating text id waits => exact h

theorem AskInv.aside (h : AskInv S user w) (hs : Aside w w') : AskInv S user w' := by
  have hkept : ∀ id, w.kept id → w'.kept id := by
    intro id hk
    rw [kept, stored, hs.shells, hs.removed]
    exact hk
  refine ⟨?_, ?_, ?_, ?_, ?_, ?_, ?_, ?_, ?_, ?_⟩
  · rw [hs.server]; exact h.capacity
  · rw [hs.server]; exact h.exits
  · rw [hs.server, hs.opened]; exact h.seen
  · intro id token ha
    rw [hs.server]
    exact h.answered id token (hs.answer id token ha)
  · intro r a hc hp
    have hsound := h.recovers r a (hs.call r a hc hp) hp
    exact ⟨hsound.1, by rw [hs.server]; exact hsound.2⟩
  · intro a ha
    rcases hs.ask with hn | ⟨hask, _⟩
    · rw [hn] at ha; cases ha
    · rw [hask] at ha
      exact (h.ask a ha).of_kept hs.server (by rw [hs.opened]; exact List.Subset.refl _) hkept
  · intro a reply ha hr hg
    rw [hs.server]
    rcases hs.ask with hn | ⟨hask, hreply⟩
    · rw [hn] at ha; cases ha
    · exact h.reply a reply (hask ▸ ha) (hreply ▸ hr) hg
  · intro text ht
    rw [hs.server]
    exact h.notices text (hs.notices ht)
  · exact fun x hx => h.mine x (hs.mine hx)
  · intro id hid
    rw [hs.server]
    rw [hs.removed] at hid
    exact (h.removed id hid).imp_right fun hf => hs.forgotten hf

theorem aside_failed {r : OpenCall} {saved : Bool} : Aside w (w.failed r saved) := by
  have hcall : ∀ r a, (none : Option OpenCall) = some r → r.purpose = .recovering a → w.call = some r := nofun
  unfold failed
  split
  · refine ⟨rfl, ?_, rfl, hcall, fun _ _ h => h, .inr ⟨rfl, rfl⟩, List.Subset.refl _, List.Subset.refl _, rfl,
      List.Subset.refl _⟩
    cases saved <;> rfl
  · exact ⟨rfl, rfl, rfl, hcall, fun _ _ h => h, .inr ⟨rfl, rfl⟩, List.Subset.refl _, List.Subset.refl _, rfl,
      List.Subset.refl _⟩

/-- A step that changes neither what is asked and read nor the answers. -/
theorem Aside.of_call (hserver : w'.server = w.server) (hshells : w'.store.shells = w.store.shells)
    (hopened : w'.opened = w.opened) (hcall : w'.call = w.call) (hanswer : w'.answer = w.answer ∨ w'.answer = none)
    (hask : w'.ask = w.ask) (hreply : w'.reply = w.reply) (hnotices : w'.notices = w.notices) (hmine : w'.mine = w.mine)
    (hremoved : w'.removed = w.removed) (hforgotten : w'.forgotten = w.forgotten) : Aside w w' where
  server := hserver
  shells := hshells
  opened := hopened
  call r a hc _ := hcall ▸ hc
  answer id token ha := by
    rcases hanswer with h | h
    · exact h ▸ ha
    · rw [h] at ha; cases ha
  ask := .inr ⟨hask, hreply⟩
  notices := by rw [hnotices]; exact List.Subset.refl _
  mine := by rw [hmine]; exact List.Subset.refl _
  removed := hremoved
  forgotten := by rw [hforgotten]; exact List.Subset.refl _

theorem Aside.trans {w'' : JournalWorld V} (h : Aside w w') (h' : Aside w' w'') : Aside w w'' where
  server := h'.server.trans h.server
  shells := h'.shells.trans h.shells
  opened := h'.opened.trans h.opened
  call r a hc hp := h.call r a (h'.call r a hc hp) hp
  answer id token ha := h.answer id token (h'.answer id token ha)
  ask := by
    rcases h'.ask with hn | ⟨ha, hr⟩
    · exact .inl hn
    · rw [ha, hr]
      exact h.ask
  notices _ ht := h.notices (h'.notices ht)
  mine _ hx := h.mine (h'.mine hx)
  removed := h'.removed.trans h.removed
  forgotten _ hid := h'.forgotten (h.forgotten hid)

theorem Aside.refl (w : JournalWorld V) : Aside w w := .of_call rfl rfl rfl rfl (.inl rfl) rfl rfl rfl rfl rfl rfl

/-- An open that is written down is no recovery. -/
theorem aside_request {r : OpenCall} {t : String} (hp : r.purpose = .journaled t) (saved : Bool) :
    Aside w (w.request r saved) := by
  unfold request
  split
  · refine ⟨rfl, rfl, rfl, ?_, nofun, .inr ⟨rfl, rfl⟩, List.Subset.refl _, List.Subset.refl _, rfl, List.Subset.refl _⟩
    intro r' a hc hp'
    cases hc
    rw [hp] at hp'
    cases hp'
  · exact aside_failed

theorem aside_resolveNext (saved : Bool) : Aside w (w.resolveNext saved) := by
  unfold resolveNext
  split
  · rename_i p rest _ _
    have hnext : Aside w { w with supervisor := .resolving rest } :=
      .of_call rfl rfl rfl rfl (.inl rfl) rfl rfl rfl rfl rfl rfl
    simp only
    split
    · refine hnext.trans (.of_call rfl ?_ rfl rfl (.inl rfl) rfl rfl rfl rfl rfl rfl)
      cases saved <;> rfl
    · exact hnext.trans (aside_request rfl saved)
  · exact .refl w

theorem aside_openShell (key : IdempotencyKey) (name : String) (cols rows : UInt16) (pushed saved : Bool) :
    Aside w (w.openShell key name cols rows pushed saved) := by
  unfold openShell
  split
  · split
    · exact .refl w
    · have hpush : Aside w { w with store := w.store.pushPendingOpen (hex key.toList) name } :=
        .of_call rfl rfl rfl rfl (.inl rfl) rfl rfl rfl rfl rfl rfl
      exact hpush.trans (aside_request rfl saved)
  · exact .refl w

theorem aside_settled (listed : Bool) : Aside w (w.settled listed) := by
  unfold settled
  split
  · split <;> exact .of_call rfl rfl rfl rfl (.inl rfl) rfl rfl rfl rfl rfl rfl
  · exact .refl w

theorem aside_lose (saved : Bool) : Aside w (w.lose saved) := by
  have hcut : Aside w { w with control := false, answer := none, stale := w.stale ++ w.leftBehind } :=
    .of_call rfl rfl rfl rfl (.inr rfl) rfl rfl rfl rfl rfl rfl
  unfold lose
  simp only
  split
  · exact hcut.trans aside_failed
  · exact hcut

theorem aside_dropAsk (lost : Ask → Bool) : Aside w (w.dropAsk lost) := by
  unfold dropAsk
  split
  · exact ⟨rfl, rfl, rfl, fun _ _ h _ => h, fun _ _ h => h, .inl rfl, List.Subset.refl _, List.Subset.refl _, rfl,
      List.Subset.refl _⟩
  · exact .refl w

theorem aside_crash : Aside w w.crash :=
  ⟨rfl, rfl, rfl, nofun, nofun, .inl rfl, List.nil_subset _, List.nil_subset _, rfl, List.Subset.refl _⟩

/-! ## Steps that ask and are told -/

theorem AskInv.asks (h : AskInv S user w) {ask : Option Ask} {reply : Option Answer} (hask : ∀ a, ask = some a → Sound w a)
    (hreply : ∀ a r, ask = some a → reply = some r → saysGone a r = true → Gone user w.server a.id) :
    AskInv S user { w with ask := ask, reply := reply } :=
  { h with ask := hask, reply := hreply }

theorem askInv_demand (h : AskInv S user w) {a : Ask} (ha : Sound w a) : AskInv S user (w.demand a) := by
  unfold demand
  split
  · refine h.asks ?_ (fun _ _ _ hr => by cases hr)
    intro a' ha'
    cases ha'
    exact ha
  · exact h

/-- The store changes, and what was kept is. -/
theorem AskInv.stores (h : AskInv S user w) {store : ServerRecord}
    (hkept : ∀ id, w.kept id → ({ w with store := store } : JournalWorld V).kept id) :
    AskInv S user { w with store := store } :=
  { h with ask := fun a ha => (h.ask a ha).of_kept rfl (List.Subset.refl _) hkept }

/-- A shell the server knows was opened. -/
theorem AskInv.opens (h : AskInv S user w) {key : IdempotencyKey} {id : ShellId} (hk : (w.server.find id).isSome = true) :
    AskInv S user { w with opened := w.opened ++ [(key, id)] } :=
  { h with
    seen := by
      intro key' id' ho
      rcases List.mem_append.mp ho with ho | ho
      · exact h.seen key' id' ho
      · cases List.mem_singleton.mp ho
        exact hk
    ask := fun a ha => (h.ask a ha).of_kept rfl (List.subset_append_left _ _) fun _ hk => hk }

/-- An entry is removed with reason. -/
theorem AskInv.removes (h : AskInv S user w) (saved : Bool) {text : String}
    (hgone : ∀ id, shellIdOf text = some id → Gone user w.server id ∨ id ∈ w.forgotten) :
    AskInv S user (w.removeShell saved text) :=
  { h with
    ask := fun a ha => (h.ask a ha).of_kept rfl (List.Subset.refl _) fun _ hk => kept_removeShell hk saved text
    removed := by
      intro id hid
      rcases List.mem_append.mp hid with hid | hid
      · exact h.removed id hid
      · split at hid
        · obtain ⟨-, -, htext⟩ := Option.bind_eq_some_iff.mp (Option.mem_toList.mp hid)
          exact hgone id htext
        · cases hid }

theorem askInv_attach (h : AskInv S user w) (hi : StoreInv w) (text : String) (cols rows : UInt16) :
    AskInv S user (w.attach text cols rows) := by
  unfold attach
  split
  · split
    · rename_i record id hrecord hid
      obtain ⟨key, id', hkey, htext, ho⟩ := hi.records text record hrecord
      -- the text of the entry is that of the shell
      have hsame : id' = id := by
        rw [htext, unhex_id] at hid
        exact Option.some.inj hid
      subst hsame
      refine h.asks ?_ (fun _ _ _ hr => by cases hr)
      intro a ha
      cases ha
      refine ⟨⟨hid, h.seen key id' ho⟩, fun _ => ⟨key, ?_, ho, .inl ?_⟩⟩
      · rw [hkey, Option.bind_some, unhex_hex, Option.bind_some, keyOfBytes_toList]
      · rw [stored, ← htext, hrecord]
        rfl
    · exact h
  · exact h

theorem askInv_terminate (h : AskInv S user w) (text : String) : AskInv S user (w.terminate text) := by
  unfold terminate
  split
  · split
    · rename_i id hid
      refine askInv_demand h ?_
      intro t ht
      cases ht
      exact hid
    · exact h
  · exact h

/-- A shell whose exit is recorded is gone. -/
theorem gone_of_exit {m : Manager V} (h : Manager.CapacityInv S m) {id : ShellId} {e : ShellEntry V} {x : ExitSummary}
    (he : m.find id = some e) (hx : e.runtime.exit = some x) : Gone user m id where
  known := by rw [he]; rfl
  stopped := by
    refine Manager.runs_eq_false h.keyed ?_
    intro e' hl _ hstate
    rw [Manager.find_of_lookup hl] at he
    cases he
    have hexited := (h.shells id e (Manager.find_of_lookup hl)).exited.mpr (by rw [hx]; rfl)
    rw [hstate] at hexited
    cases hexited

theorem askInv_serveAsk (h : AskInv S user w) (hi : w.server.IdemInv) (env : Runtime.AttachEnv)
    (kill : Except PtyError Unit) : AskInv S user (w.serveAsk S user env kill) := by
  unfold serveAsk
  split
  · rename_i a token recovered hask hreply
    have hfresh : Manager.FreshId S w.server (.attach user a.id token a.cols a.rows env) := Manager.freshId_of_not_open S rfl
    have hstep := h.serves hi hfresh
    refine hstep.asks hstep.ask ?_
    intro a' r ha hr hg
    obtain rfl : Ask.attaching a token recovered = a' := Option.some.inj (hask.symm.trans ha)
    cases Option.some.inj hr
    -- the attach was answered with ERR_NOT_FOUND
    cases hres : (w.server.step S (.attach user a.id token a.cols a.rows env)).2 with
    | err e =>
      have hcode : (sessionErrorCode e).1 = .errNotFound := by
        rw [hres] at hg
        simpa [saysGone, answerOf] using hg
      exact ⟨(hstep.ask _ ha).1.2, Manager.attach_gone h.capacity.keyed hres (World.notFound_iff.mp hcode)⟩
    | _ => rw [hres] at hg; cases hg
  · rename_i a key hask hreply
    refine h.asks h.ask ?_
    intro a' r ha hr hg
    obtain rfl : Ask.listing a key = a' := Option.some.inj (hask.symm.trans ha)
    cases Option.some.inj hr
    refine ⟨(h.ask _ ha).1.2, ?_⟩
    show w.server.runs user a.id = false
    simpa [saysGone] using hg
  · rename_i text id waits hask hreply
    have hsound := h.ask _ hask
    split
    · refine h.asks h.ask ?_
      intro a' r ha hr hg
      obtain rfl : Ask.terminating text id waits = a' := Option.some.inj (hask.symm.trans ha)
      cases Option.some.inj hr
      cases hg
    · have hopen : (if waits then Op.terminateWake id else Op.terminate id kill).isOpen = false := by cases waits <;> rfl
      have hstep := h.serves hi (Manager.freshId_of_not_open S hopen)
      simp only
      split
      · rename_i x hres
        refine hstep.asks hstep.ask ?_
        intro a' r ha _ _
        obtain rfl : Ask.terminating text id waits = a' := Option.some.inj (hask.symm.trans ha)
        obtain ⟨e, he, hx⟩ : ∃ e, w.server.find id = some e ∧ e.runtime.exit = some x := by
          cases waits with
          | true => exact Manager.terminateWake_recorded hres
          | false => exact Manager.terminate_recorded hres
        exact gone_step h.capacity hi (Manager.freshId_of_not_open S hopen) (gone_of_exit h.capacity he hx)
      · rename_i e hres
        refine hstep.asks hstep.ask ?_
        intro a' r ha hr hg
        obtain rfl : Ask.terminating text id waits = a' := Option.some.inj (hask.symm.trans ha)
        cases Option.some.inj hr
        cases hg
      · refine hstep.asks ?_ ?_
        · intro a' ha
          cases ha
          exact hsound
        · intro a' r _ hr
          rw [show w.reply = some r from hr] at hreply
          cases hreply
  · exact h

/-- The answer to an attach, a presence check or a terminate. -/
theorem askInv_receiveAsk (h : AskInv S user w) {saved : Bool} {now : Int}
    (hok : refusesOnly user w (.receiveAsk saved now) = true) : AskInv S user (w.receiveAsk saved now) := by
  unfold receiveAsk
  split
  · rename_i ask reply hask hreply
    have hsound := h.ask _ hask
    have hgone := h.reply _ _ hask hreply
    have hidle : AskInv S user { w with ask := none, reply := none } := h.asks (by simp) (by simp)
    have hmine : ∀ {a : AttachCall}, shellIdOf a.shellHex = some a.id → ∀ i, ∀ x ∈ w.mine ++ [(a.shellHex, a.id, i)],
        shellIdOf x.1 = some x.2.1 := by
      intro a ha i x hx
      rcases List.mem_append.mp hx with hx | hx
      · exact h.mine x hx
      · cases List.mem_singleton.mp hx
        exact ha
    unfold answered
    split
    · rename_i a token recovered token' i
      have hkept : ∀ id, _ →
          ({ w with store := w.store.mutate saved (·.updateToken a.shellHex token' now) } : JournalWorld V).kept id :=
        fun id hk => by rw [kept_updateToken]; exact hk
      have hstore := hidle.stores hkept
      exact { hstore with mine := hmine hsound.1.1 i }
    · rename_i a token recovered code retryable message
      unfold attachRejected
      split
      · rename_i hact
        refine hidle.removes saved ?_
        intro id hid
        cases hsound.1.1.symm.trans hid
        rcases attachFailureAction_forget hact with rfl | ⟨hcode, hkey⟩
        · exact .inl (hgone rfl)
        · -- the token was refused: before a recovery there is a key for one
          cases recovered with
          | true =>
            simp only [refusesOnly, hask, hreply, hcode] at hok
            cases hok
          | false =>
            obtain ⟨key, hk, _⟩ := hsound.2 rfl
            rw [hk] at hkey
            cases hkey
      · rename_i key hact hk
        refine askInv_demand hidle ⟨hsound.1, ?_⟩
        cases recovered with
        | false =>
          obtain ⟨key', hk', ho⟩ := hsound.2 rfl
          cases hk.symm.trans hk'
          exact ho
        | true =>
          rw [Bool.not_true, Bool.and_false] at hact
          cases code <;> cases retryable <;> cases hact
      · exact hidle
    · rename_i a key running
      split
      · unfold request
        split
        · refine { hidle with answered := by simp, recovers := ?_ }
          intro r a' hc hp
          cases hc
          cases hp
          exact hsound.1
        · exact hidle.aside aside_failed
      · rename_i hrunning
        refine hidle.removes saved ?_
        intro id hid
        rw [unhex_id] at hid
        cases hid
        exact .inl (hgone (by simpa [saysGone] using hrunning))
    · rename_i text id waits
      refine hidle.removes saved ?_
      intro id' hid
      cases (hsound text rfl).symm.trans hid
      exact .inl (hgone rfl)
    · exact hidle
  · exact h

theorem askInv_receive (h : AskInv S user w) (saved : Bool) (now : Int) : AskInv S user (w.receive saved now) := by
  unfold receive
  split
  · rename_i r id token hcall hanswer
    have hknown := h.answered id token hanswer
    have hidle : AskInv S user { w with call := none, answer := none } := { h with answered := nofun, recovers := nofun }
    have hopens : AskInv S user { w with call := none, answer := none, opened := w.opened ++ [(r.key, id)] } :=
      hidle.opens hknown
    simp only
    split
    · rename_i t _
      refine hopens.stores ?_
      intro id' hk
      exact kept_mono hk (fun hs => stored_resolve hs rfl) (List.Subset.refl _)
    · rename_i a hp
      have hsound := h.recovers r a hcall hp
      split
      · have hkept : ∀ id', _ →
            ({ w with
                store := w.store.mutate saved (·.updateToken (hex id.bytes.toList) token now) } : JournalWorld V).kept id' :=
          fun id' hk => by rw [kept_updateToken]; exact hk
        have hstore := hopens.stores hkept
        refine hstore.asks ?_ (fun _ _ _ hr => by cases hr)
        intro a' ha
        cases ha
        exact ⟨hsound, nofun⟩
      · exact askInv_demand hopens nofun
  · rename_i r a hcall hanswer _
    refine (AskInv.aside h ?_).aside aside_failed
    exact .of_call rfl rfl rfl rfl (.inr rfl) rfl rfl rfl rfl rfl rfl
  · exact h

theorem askInv_forward (h : AskInv S user w) (hi : w.server.IdemInv) (j : Nat) : AskInv S user (w.forward S j) := by
  unfold forward
  split
  · rename_i text id i hj
    have hfresh : Manager.FreshId S w.server (.recv id i) := Manager.freshId_of_not_open S rfl
    have hstep := h.serves hi hfresh
    simp only
    split
    · rename_i x hres
      refine { hstep with notices := ?_ }
      intro text' ht
      rcases List.mem_append.mp ht with ht | ht
      · exact hstep.notices text' ht
      · cases List.mem_singleton.mp ht
        -- the exit was queued, so the shell is over
        obtain ⟨e, he, _⟩ := Manager.recv_queued hres
        have hgone : Gone user w.server id :=
          ⟨by rw [he]; rfl, Manager.recv_gone h.capacity.keyed (h.exits id) hres user⟩
        exact ⟨id, h.mine _ (List.mem_of_getElem? hj), gone_step h.capacity hi hfresh hgone⟩
    · exact hstep
  · exact h

theorem askInv_notice (h : AskInv S user w) (j : Nat) (saved : Bool) : AskInv S user (w.notice j saved) := by
  unfold notice
  split
  · rename_i text hj
    have hread : AskInv S user { w with notices := w.notices.eraseIdx j } :=
      { h with notices := fun t ht => h.notices t (List.mem_of_mem_eraseIdx ht) }
    refine hread.removes saved ?_
    intro id hid
    obtain ⟨id', hid', hgone⟩ := h.notices text (List.mem_of_getElem? hj)
    cases hid.symm.trans hid'
    exact .inl hgone
  · exact h

theorem askInv_forget (h : AskInv S user w) (text : String) (saved : Bool) : AskInv S user (w.forget text saved) := by
  have hordered : AskInv S user { w with forgotten := w.forgotten ++ (shellIdOf text).toList } :=
    { h with removed := fun id hid => (h.removed id hid).imp_right (List.mem_append_left _) }
  refine hordered.removes saved ?_
  intro id hid
  refine .inr (List.mem_append_right _ ?_)
  rw [hid]
  exact List.mem_singleton.mpr rfl

/-! ## Opens at the server -/

theorem askInv_served (h : AskInv S user w) (hi : w.server.IdemInv) {r : OpenCall} {env : OpenEnv}
    (hf : w.server.freshId S (opOf user r env) = true) : AskInv S user (w.served S user r env) :=
  { h.serves hi hf with capacity := (h.serves hi hf).capacity }

theorem askInv_serve (h : AskInv S user w) (hi : w.server.IdemInv) {env : OpenEnv}
    (hf : fresh S user w (.serve env) = true) : AskInv S user (w.serve S user env) := by
  unfold serve
  split
  · rename_i r hcall hanswer
    simp only [fresh, hcall, Option.all_some] at hf
    have hserved := askInv_served h hi hf
    refine { hserved with answered := ?_ }
    intro id token ha
    obtain ⟨o, ho, rfl⟩ := answerOf_opened (Option.some.inj ha)
    obtain ⟨_, e, he, _⟩ := (Manager.open_sound S hi hf).opened o ho
    exact Option.isSome_iff_exists.mpr ⟨e, Manager.find_of_lookup he⟩
  · exact h

theorem askInv_serveStale (h : AskInv S user w) (hi : w.server.IdemInv) {i : Nat} {env : OpenEnv}
    (hf : fresh S user w (.serveStale i env) = true) : AskInv S user (w.serveStale S user i env) := by
  unfold serveStale
  split
  · rename_i r hr
    simp only [fresh, hr, Option.all_some] at hf
    have hserved := askInv_served h hi hf
    exact { hserved with capacity := hserved.capacity }
  · exact h

/-! ## One request at a time -/

/-- The supervisor awaits no open with another request, and only while it serves. -/
structure Alone (w : JournalWorld V) : Prop where
  ask : w.ask ≠ none → w.call = none ∧ w.supervisor = .serving
  recovers : ∀ r, w.call = some r → r.recovers = true → w.supervisor = .serving

/-- Where nothing is awaited. -/
theorem Alone.idle (hask : w.ask = none) (hcall : w.call = none) : Alone w where
  ask h := absurd hask h
  recovers r hc := by rw [hcall] at hc; cases hc

theorem Alone.same (h : Alone w) (hask : w'.ask = w.ask ∨ w'.ask = none) (hcall : w'.call = w.call ∨ w'.call = none)
    (hsup : w'.supervisor = w.supervisor) : Alone w' where
  ask hne := by
    rcases hask with ha | ha
    · obtain ⟨hc, hs⟩ := h.ask (ha ▸ hne)
      exact ⟨hcall.elim (·.trans hc) id, hsup.trans hs⟩
    · exact absurd ha hne
  recovers r hc hr := by
    rcases hcall with h' | h'
    · exact hsup.trans (h.recovers r (h' ▸ hc) hr)
    · rw [h'] at hc; cases hc

/-- A supervisor that does not serve awaits nothing but an open that is written down. -/
theorem Alone.moves (h : Alone w) (hne : w.supervisor ≠ .serving) (supervisor : Supervisor) (control : Bool) :
    Alone { w with supervisor := supervisor, control := control } where
  ask ha := absurd (h.ask ha).2 hne
  recovers r hc hr := absurd (h.recovers r hc hr) hne

theorem alone_failed (h : Alone w) (r : OpenCall) (saved : Bool) : Alone (w.failed r saved) := by
  unfold failed
  split
  · exact h.same (.inl rfl) (.inr rfl) rfl
  · exact h.same (.inl rfl) (.inr rfl) rfl

theorem alone_request (h : Alone w) (hask : w.ask = none) {r : OpenCall} (hr : r.recovers = true → w.supervisor = .serving)
    (saved : Bool) : Alone (w.request r saved) := by
  unfold request
  split
  · refine ⟨fun ha => absurd hask ha, ?_⟩
    intro r' hc
    cases hc
    exact hr
  · exact alone_failed h r saved

theorem alone_demand (h : Alone w) (hcall : w.call = none) (hsup : w.supervisor = .serving) (a : Ask) : Alone (w.demand a) := by
  unfold demand
  split
  · exact ⟨fun _ => ⟨hcall, hsup⟩, h.recovers⟩
  · exact h

theorem alone_resolveNext (h : Alone w) (saved : Bool) : Alone (w.resolveNext saved) := by
  unfold resolveNext
  split
  · rename_i p rest hsup hcall
    have hne : w.supervisor ≠ .serving := by rw [hsup]; exact nofun
    have hask : w.ask = none := by
      by_contra ha
      exact hne (h.ask ha).2
    have hnext : Alone { w with supervisor := .resolving rest } := h.moves hne _ w.control
    simp only
    split
    · exact hnext.same (.inl rfl) (.inl rfl) rfl
    · exact alone_request hnext hask (fun hr => by cases hr) saved
  · exact h

theorem alone_openShell (h : Alone w) (key : IdempotencyKey) (name : String) (cols rows : UInt16) (pushed saved : Bool) :
    Alone (w.openShell key name cols rows pushed saved) := by
  unfold openShell
  split
  · rename_i hask
    split
    · exact h
    · have hpush : Alone { w with store := w.store.pushPendingOpen (hex key.toList) name } := h.same (.inl rfl) (.inl rfl) rfl
      exact alone_request hpush hask (fun hr => by cases hr) saved
  · exact h

theorem alone_receive (h : Alone w) (saved : Bool) (now : Int) : Alone (w.receive saved now) := by
  unfold receive
  split
  · rename_i r id token hcall _
    simp only
    split
    · exact h.same (.inl rfl) (.inr rfl) rfl
    · rename_i a hp
      have hsup := h.recovers r hcall (by rw [OpenCall.recovers, hp])
      split
      · exact ⟨fun _ => ⟨rfl, hsup⟩, fun r hr => by cases hr⟩
      · have hover : Alone { w with call := none, answer := none, opened := w.opened ++ [(r.key, id)] } :=
          h.same (.inl rfl) (.inr rfl) rfl
        exact alone_demand hover rfl hsup _
  · rename_i r a _ _ _
    have hrefused : Alone { w with answer := none, refused := w.refused ++ [r.key] } := h.same (.inl rfl) (.inl rfl) rfl
    exact alone_failed hrefused r saved
  · exact h

theorem alone_serveAsk (h : Alone w) (env : Runtime.AttachEnv) (kill : Except PtyError Unit) :
    Alone (w.serveAsk S user env kill) := by
  unfold serveAsk
  split
  · exact h.same (.inl rfl) (.inl rfl) rfl
  · exact h.same (.inl rfl) (.inl rfl) rfl
  · rename_i text id waits hask _
    have hserving := h.ask (by rw [hask]; exact Option.some_ne_none _)
    split
    · exact h.same (.inl rfl) (.inl rfl) rfl
    · simp only
      split
      · exact h.same (.inl rfl) (.inl rfl) rfl
      · exact h.same (.inl rfl) (.inl rfl) rfl
      · exact ⟨fun _ => hserving, h.recovers⟩
  · exact h

theorem alone_receiveAsk (h : Alone w) (saved : Bool) (now : Int) : Alone (w.receiveAsk saved now) := by
  unfold receiveAsk
  split
  · rename_i ask reply hask _
    obtain ⟨hcall, hsup⟩ := h.ask (by rw [hask]; exact Option.some_ne_none _)
    have hidle : Alone { w with ask := none, reply := none } := h.same (.inr rfl) (.inl rfl) rfl
    unfold answered
    split
    · exact .idle rfl hcall
    · unfold attachRejected
      split
      · exact .idle rfl hcall
      · exact alone_demand hidle hcall hsup _
      · exact hidle
    · split
      · exact alone_request hidle rfl (fun _ => hsup) saved
      · exact .idle rfl hcall
    · exact .idle rfl hcall
    · exact hidle
  · exact h

theorem alone_step (h : Alone w) (hi : CallInv w) (i : JournalInput) : Alone (w.step S user i) := by
  cases i with
  | others op => exact h.same (.inl rfl) (.inl rfl) rfl
  | launch =>
    simp only [step]
    split
    · rename_i hsup
      exact h.moves (by rw [hsup]; simp) .connecting w.control
    · exact h
  | crash => exact .idle rfl rfl
  | connect =>
    simp only [step]
    split
    · rename_i hsup
      exact h.moves (by rw [hsup]; simp) _ true
    · exact h
  | resolveNext saved => exact alone_resolveNext h saved
  | settled listed =>
    simp only [step, settled]
    split
    · rename_i hsup _
      have hne : w.supervisor ≠ .serving := by rw [hsup]; simp
      split
      · exact h.moves hne .serving w.control
      · exact h.moves hne .connecting false
    · exact h
  | openShell key name cols rows pushed saved => exact alone_openShell h key name cols rows pushed saved
  | attach text cols rows =>
    simp only [step, attach]
    split
    · rename_i hsup hcall _
      split
      · exact ⟨fun _ => ⟨hcall, hsup⟩, h.recovers⟩
      · exact h
    · exact h
  | terminate text =>
    simp only [step, terminate]
    split
    · rename_i hsup hcall _
      split
      · exact alone_demand h hcall hsup _
      · exact h
    · exact h
  | serveAsk env kill => exact alone_serveAsk h env kill
  | refuseAsk code retryable message =>
    simp only [step]
    split
    · exact h.same (.inl rfl) (.inl rfl) rfl
    · exact h
  | receiveAsk saved now => exact alone_receiveAsk h saved now
  | failAsk =>
    simp only [step, dropAsk]
    split
    · exact h.same (.inr rfl) (.inl rfl) rfl
    · exact h
  | forward j =>
    simp only [step, forward]
    split
    · split <;> exact h.same (.inl rfl) (.inl rfl) rfl
    · exact h
  | notice j saved =>
    simp only [step, notice]
    split
    · exact h.same (.inl rfl) (.inl rfl) rfl
    · exact h
  | forget text saved =>
    simp only [step]
    split
    · exact h
    · exact h.same (.inl rfl) (.inl rfl) rfl
  | serve env =>
    simp only [step, serve]
    split
    · exact h.same (.inl rfl) (.inl rfl) rfl
    · exact h
  | serveStale i env =>
    simp only [step, serveStale]
    split
    · exact h.same (.inl rfl) (.inl rfl) rfl
    · exact h
  | vanish i => exact h.same (.inl rfl) (.inl rfl) rfl
  | refuse code retryable message =>
    simp only [step]
    split
    · exact h.same (.inl rfl) (.inl rfl) rfl
    · exact h
  | receive saved now => exact alone_receive h saved now
  | lose saved =>
    have hlose : Alone (w.lose saved) := by
      have hcut : Alone { w with control := false, answer := none, stale := w.stale ++ w.leftBehind } :=
        h.same (.inl rfl) (.inl rfl) rfl
      unfold lose
      simp only
      split
      · exact alone_failed hcut _ _
      · exact hcut
    simp only [step, dropAsk]
    split
    · split
      · exact hlose.same (.inr rfl) (.inl rfl) rfl
      · exact hlose
    · exact h
  | reconnect =>
    simp only [step]
    split
    · rename_i hsup
      refine .idle hsup.2.2 ?_
      -- with the control channel gone no open is awaited
      cases hc : w.call with
      | none => rfl
      | some r =>
        have hcontrol := hi.call r hc
        rw [hsup.2.1] at hcontrol
        cases hcontrol
    · exact h

/-! ## Removals and the journal -/

theorem inv_attach (h : Inv user w) (text : String) (cols rows : UInt16) : Inv user (w.attach text cols rows) := by
  unfold attach
  split
  · split
    · exact inv_beside h _ _ _ _ _
    · exact h
  · exact h

theorem inv_terminate (h : Inv user w) (text : String) : Inv user (w.terminate text) := by
  unfold terminate
  split
  · split
    · exact inv_demand h _
    · exact h
  · exact h

theorem inv_serveAsk (h : Inv user w) (env : Runtime.AttachEnv) (kill : Except PtyError Unit) :
    Inv user (w.serveAsk S user env kill) := by
  unfold serveAsk
  split
  · rename_i a token recovered _ _
    have hfresh : Manager.FreshId S w.server (.attach user a.id token a.cols a.rows env) := Manager.freshId_of_not_open S rfl
    exact inv_beside (inv_server h hfresh) _ _ _ _ _
  · exact inv_beside h _ _ _ _ _
  · rename_i text id waits _ _
    split
    · exact inv_beside h _ _ _ _ _
    · have hopen : (if waits then Op.terminateWake id else Op.terminate id kill).isOpen = false := by cases waits <;> rfl
      have hstep := inv_server h (Manager.freshId_of_not_open S hopen)
      simp only
      split <;> exact inv_beside hstep _ _ _ _ _
  · exact h

theorem inv_receiveAsk (h : Inv user w) (ha : AskInv S user w) (halone : Alone w) (saved : Bool) (now : Int) :
    Inv user (w.receiveAsk saved now) := by
  unfold receiveAsk
  split
  · rename_i ask reply hask hreply
    have hidle : Inv user { w with ask := none, reply := none } := inv_beside h _ _ _ _ _
    unfold answered
    split
    · exact inv_beside (inv_updateToken hidle saved _ _ now) _ _ _ _ _
    · unfold attachRejected
      split
      · exact inv_removeShell hidle saved _
      · exact inv_demand hidle _
      · exact hidle
    · rename_i a key running
      split
      · refine inv_reopen hidle (halone.ask ?_).1 (ha.ask _ hask).2 saved
        rw [hask]
        exact Option.some_ne_none _
      · exact inv_removeShell hidle saved _
    · exact inv_removeShell hidle saved _
    · exact hidle
  · exact h

theorem inv_forward (h : Inv user w) (j : Nat) : Inv user (w.forward S j) := by
  unfold forward
  split
  · rename_i text id i _
    have hfresh : Manager.FreshId S w.server (.recv id i) := Manager.freshId_of_not_open S rfl
    have hstep := inv_server h hfresh
    simp only
    split
    · exact inv_beside hstep _ _ _ _ _
    · exact hstep
  · exact h

theorem inv_notice (h : Inv user w) (j : Nat) (saved : Bool) : Inv user (w.notice j saved) := by
  unfold notice
  split
  · exact inv_removeShell (inv_beside h w.ask w.reply w.mine (w.notices.eraseIdx j) w.forgotten) saved _
  · exact h

/-! ## Runs -/

/-- What one step keeps of the journal, while every failed open is a refusal. -/
theorem inv_step (h : Inv user w) (ha : AskInv S user w) (halone : Alone w) {i : JournalInput}
    (hf : fresh S user w i = true) (hok : refusesOnly user w i = true) : Inv user (w.step S user i) := by
  cases i with
  | others op => exact inv_server h hf
  | launch =>
    simp only [step]
    split
    · rename_i hsup
      exact
        { h with
          offline := fun _ => h.offline (.inl hsup)
          rest := fun _ h' => by cases h' }
    · exact h
  | crash =>
    have hrest : ∀ rest, Supervisor.down = .resolving rest → w.supervisor = .resolving rest ∧ rest = [] := fun _ h' => by cases h'
    exact inv_beside (inv_cut h hrest) none none [] [] w.forgotten
  | connect => exact inv_connect h hok
  | resolveNext saved => exact inv_resolveNext h saved
  | settled listed => exact inv_settled h listed
  | openShell key name cols rows pushed saved => exact inv_openShell h (by simpa [fresh] using hf) name cols rows pushed saved
  | attach text cols rows => exact inv_attach h text cols rows
  | terminate text => exact inv_terminate h text
  | serveAsk env kill => exact inv_serveAsk h env kill
  | refuseAsk code retryable message =>
    simp only [step]
    split
    · exact inv_beside h _ _ _ _ _
    · exact h
  | receiveAsk saved now => exact inv_receiveAsk h ha halone saved now
  | failAsk =>
    simp only [step, dropAsk]
    split
    · exact inv_beside h _ _ _ _ _
    · exact h
  | forward j => exact inv_forward h j
  | notice j saved => exact inv_notice h j saved
  | forget text saved =>
    simp only [step]
    split
    · exact h
    · exact inv_removeShell (inv_beside h w.ask w.reply w.mine w.notices _) saved text
  | serve env => exact inv_serve h hf hok
  | serveStale i env => exact inv_serveStale h hf hok
  | vanish i =>
    exact
      { h with
        stale := fun r hr => h.stale r (List.mem_of_mem_eraseIdx hr)
        connected := fun hcon => by
          show w.stale.eraseIdx i = []
          rw [h.connected hcon]
          rfl }
  | refuse code retryable message => exact inv_refuse h hok
  | receive saved now => exact inv_receive h saved now
  | lose saved =>
    simp only [step, dropAsk]
    split
    · have hlose := inv_lose h hok
      split
      · exact inv_beside hlose _ _ _ _ _
      · exact hlose
    · exact h
  | reconnect =>
    simp only [step]
    split
    · rename_i hsup
      exact
        { h with
          offline := fun _ => hsup.2.1
          rest := fun _ h' => by cases h' }
    · exact h

/-- What one step keeps of what the client was told. -/
theorem askInv_step (h : AskInv S user w) (hi : Inv user w) {i : JournalInput} (hf : fresh S user w i = true)
    (hok : refusesOnly user w i = true) : AskInv S user (w.step S user i) := by
  cases i with
  | others op => exact h.serves hi.idem hf
  | launch =>
    simp only [step]
    split
    · exact h.aside (.of_call rfl rfl rfl rfl (.inl rfl) rfl rfl rfl rfl rfl rfl)
    · exact h
  | crash => exact h.aside aside_crash
  | connect =>
    simp only [step]
    split
    · exact h.aside (.of_call rfl rfl rfl rfl (.inl rfl) rfl rfl rfl rfl rfl rfl)
    · exact h
  | resolveNext saved => exact h.aside (aside_resolveNext saved)
  | settled listed => exact h.aside (aside_settled listed)
  | openShell key name cols rows pushed saved => exact h.aside (aside_openShell key name cols rows pushed saved)
  | attach text cols rows => exact askInv_attach h hi.toStoreInv text cols rows
  | terminate text => exact askInv_terminate h text
  | serveAsk env kill => exact askInv_serveAsk h hi.idem env kill
  | refuseAsk code retryable message =>
    simp only [step]
    split
    · rename_i hcode
      refine h.asks h.ask ?_
      intro a r _ hr hg
      cases hr
      -- the codes of a connection say nothing of a shell
      cases a with
      | attaching a token recovered =>
        simp only [Bool.and_eq_true, World.connectionCode] at hcode
        simp only [saysGone, decide_eq_true_eq] at hg
        rw [hg] at hcode
        exact absurd hcode.2.2 (by decide)
      | listing a key => cases hg
      | terminating text id waits => cases hg
    · exact h
  | receiveAsk saved now => exact askInv_receiveAsk h hok
  | failAsk => exact h.aside (aside_dropAsk _)
  | forward j => exact askInv_forward h hi.idem j
  | notice j saved => exact askInv_notice h j saved
  | forget text saved =>
    simp only [step]
    split
    · exact h
    · exact askInv_forget h text saved
  | serve env => exact askInv_serve h hi.idem hf
  | serveStale i env => exact askInv_serveStale h hi.idem hf
  | vanish i => exact h.aside (.of_call rfl rfl rfl rfl (.inl rfl) rfl rfl rfl rfl rfl rfl)
  | refuse code retryable message =>
    simp only [step]
    split
    · exact { h with answered := fun _ _ ha => by cases ha }
    · exact h
  | receive saved now => exact askInv_receive h saved now
  | lose saved =>
    simp only [step]
    split
    · exact h.aside ((aside_lose saved).trans (aside_dropAsk _))
    · exact h
  | reconnect =>
    simp only [step]
    split
    · exact h.aside (.of_call rfl rfl rfl rfl (.inl rfl) rfl rfl rfl rfl rfl rfl)
    · exact h

theorem inv_run {before : List Op} (hbefore : (Manager.machine S).Admissible (Manager.FreshId S) .empty before)
    {is : List JournalInput}
    (hok : (machine S user).Admissible (fun w i => fresh S user w i = true ∧ refusesOnly user w i = true)
      (init S before) is) :
    Inv user ((machine S user).run (init S before) is) ∧ AskInv S user ((machine S user).run (init S before) is) := by
  have hall := (machine S user).run_induction (P := fun w => Inv user w ∧ AskInv S user w ∧ Alone w) ?_
    ⟨inv_init hbefore, askInv_init hbefore, .idle rfl rfl⟩ hok
  · exact ⟨hall.1, hall.2.1⟩
  · rintro w i ⟨h, ha, halone⟩ ⟨hf, hi⟩
    exact ⟨inv_step h ha halone hf hi, askInv_step ha h hf hi, alone_step halone h.toCallInv i⟩

/-- Over every run with any other parties in which each failed open is a refusal: a key that
    was sent is written down until its shell is stored or the server refused it; of every
    shell on the server that was made for the client the key is written down, or the id is
    stored or was; and an entry was removed only if its shell runs no more, or on the user's
    order. -/
theorem journal_remembers (S : Server V) (user : String) (before : List Op)
    (hbefore : (Manager.machine S).Admissible (Manager.FreshId S) .empty before) (is : List JournalInput)
    (hok : (machine S user).Admissible (fun w i => fresh S user w i = true ∧ refusesOnly user w i = true)
      (init S before) is) : Remembers user ((machine S user).run (init S before) is) := by
  obtain ⟨h, ha⟩ := inv_run hbefore hok
  refine ⟨h.toWritten, ?_⟩
  intro id hid
  exact (ha.removed id hid).imp_left Gone.stopped

/-! ## A shell that is forgotten -/

def sampleOpening : OpenEnv := ⟨.ok (), .ok (), .repeated 1, sampleShell, 1000⟩

/-- A new client connects, and opens a shell that the server makes. -/
def openedUnheard : List JournalInput :=
  [.launch, .connect, .settled true, .openShell (Vector.replicate 16 9) "shell" 80 24 true true, .serve sampleOpening]

/-- The client crashes before the answer gets to it, and opens the same shell again. The
    user then terminates it, which removes its entry. -/
theorem journal_remembers_crash :
    let reopened := openedUnheard ++ [.crash, .launch, .connect, .resolveNext true, .serve sampleOpening, .receive true 2000]
    let w := (machine Server.sample "ada").run (init Server.sample []) reopened
    let w' := (machine Server.sample "ada").run (init Server.sample [])
      (reopened ++ [.settled true, .terminate (hex sampleShell.bytes.toList), .serveAsk ⟨.ok (), .repeated 2, 3000⟩ (.ok ()),
        .others (.pumpEof sampleShell (.ok ⟨true, 0⟩)), .serveAsk ⟨.ok (), .repeated 2, 3000⟩ (.ok ()), .receiveAsk true 4000])
    w.made = [(Vector.replicate 16 9, sampleShell)] ∧ w.stored sampleShell = true ∧ Remembers "ada" w ∧
      w'.stored sampleShell = false ∧ w'.removed = [sampleShell] ∧ Remembers "ada" w' :=
  ⟨by decide +kernel, by decide +kernel, journal_remembers Server.sample "ada" [] (by decide) _ (by decide +kernel),
    by decide +kernel, by decide +kernel, journal_remembers Server.sample "ada" [] (by decide) _ (by decide +kernel)⟩

/-- The connection is lost instead: the key comes off the journal, and the shell the server
    made is known to nobody. -/
theorem lost_answer_forgets_shell :
    ¬ ∀ is : List JournalInput,
      (machine Server.sample "ada").Admissible (fun w i => fresh Server.sample "ada" w i = true) (init Server.sample []) is →
        Remembers "ada" ((machine Server.sample "ada").run (init Server.sample []) is) := by
  intro h
  have hrem := h (openedUnheard ++ [.lose true]) (by decide +kernel)
  have hshell := hrem.shells (Vector.replicate 16 9) sampleShell (by decide +kernel) (by decide +kernel)
  revert hshell
  simp only [kept]
  decide +kernel

end JournalWorld

end Holdfast.Client

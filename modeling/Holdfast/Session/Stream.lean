/-
  Holdfast.Session.Stream — what an attachment gets to see.

  An attachment is one subscriber (`Base.Subscriber`) of the shell's output: the pump
  offers it every chunk it feeds the model and, at EOF, the exit. `subscriber_run` is the
  tie: its place in the table and its channel are what its own subscriber machine makes
  of the events that concern it (`eventsOf`): the chunks, the EOF, its own detach and its
  own receiver. No other attachment occurs in these events, nor does any in what the
  model is made of (`replay`), so no attachment can disturb another or the model.

  An attachment receives an event when the event enters its channel; the receiver takes
  events out of the channel later, or never.

  Proved:
  - `replay_run`: the model is the replay of the shell's chunks and resizes.
  - `subscriber_run`: the tie above, for every run from any state.
  - `stream_integrity`: an attachment gets the chunks fed after its snapshot, in order,
    without loss or repetition, until it is removed, and nothing after that.
-/

import Holdfast.Base.Subscriber
import Holdfast.Session.Capacity

namespace Holdfast.Session

open Holdfast.Base Holdfast.Terminal

/-! ## Reading a trace -/

/-- The exit the pump records for an outcome of the PTY's `wait`. -/
def exitOf (wait : Except PtyError ExitSummary) : ExitSummary := wait.toOption.getD ⟨false, 255⟩

/-- What a step means to attachment `i` of shell `id`. -/
def eventOf (id : ShellId) (i : Nat) : Op × Res → Option (Subscriber.Event AttachmentEvent)
  | (.pumpChunk id' chunk, .done) => if id' = id then some (.offer (.output chunk)) else none
  | (.pumpEof id' wait, .done) => if id' = id then some (.close (.exited (exitOf wait))) else none
  | (.detach id' i', .done) => if id' = id ∧ i' = i then some .unsubscribe else none
  | (.recv id' i', .event _) => if id' = id ∧ i' = i then some .recv else none
  | (.dropReceiver id' i', .done) => if id' = id ∧ i' = i then some .drop else none
  | _ => none

def eventsOf (id : ShellId) (i : Nat) (tr : List (Op × Res)) : List (Subscriber.Event AttachmentEvent) :=
  tr.filterMap (eventOf id i)

def readOf (id : ShellId) (i : Nat) : Op × Res → Option AttachmentEvent
  | (.recv id' i', .event ev) => if id' = id ∧ i' = i then ev else none
  | _ => none

/-- The events the receiver of attachment `i` took, in order. -/
def reads (id : ShellId) (i : Nat) (tr : List (Op × Res)) : List AttachmentEvent := tr.filterMap (readOf id i)

def chunkOf (id : ShellId) : Op × Res → Option (List UInt8)
  | (.pumpChunk id' chunk, .done) => if id' = id then some chunk else none
  | _ => none

/-- The PTY chunks fed to the model of shell `id`, in order. -/
def fed (id : ShellId) (tr : List (Op × Res)) : List (List UInt8) := tr.filterMap (chunkOf id)

def outputOf : AttachmentEvent → Option (List UInt8)
  | .output chunk => some chunk
  | .exited _ => none

def outputs (evs : List AttachmentEvent) : List (List UInt8) := evs.filterMap outputOf

theorem eventOf_acts {id : ShellId} {i : Nat} {op : Op} {res : Res} {ev : Subscriber.Event AttachmentEvent}
    (h : eventOf id i (op, res) = some ev) : acts op res = some id := by
  unfold eventOf at h
  split at h <;> first | cases h | skip
  all_goals
    rename_i heq
    cases heq
    split at h
    · rename_i hid
      first | (rw [← hid]; rfl) | (rw [← hid.1]; rfl)
    · cases h

theorem readOf_acts {id : ShellId} {i : Nat} {op : Op} {res : Res} {ev : AttachmentEvent}
    (h : readOf id i (op, res) = some ev) : acts op res = some id := by
  unfold readOf at h
  split at h
  · rename_i heq
    cases heq
    split at h
    · rename_i hid
      rw [← hid.1]; rfl
    · cases h
  · cases h

variable {V : Type} {S : Server V}

/-! ## One attachment, one subscriber -/

def subscriberOf (rt : Runtime V) (i : Nat) : Subscriber AttachmentEvent := ⟨decide (i ∈ rt.attachments), rt.channels i⟩

theorem subscriberOf_register {rt : Runtime V} {env : Runtime.AttachEnv} {i : Nat} (h : i < rt.nextAttachmentId) :
    subscriberOf (rt.register S env) i = subscriberOf rt i := by
  have hne : i ≠ rt.nextAttachmentId := by omega
  simp [subscriberOf, Runtime.register, Runtime.rotateToken, hne]

theorem subscriberOf_pumpChunk (rt : Runtime V) (chunk : List UInt8) (i : Nat) :
    subscriberOf (rt.pumpChunk S chunk) i = (subscriberOf rt i).offer (.output chunk) := by
  by_cases h : i ∈ rt.attachments
  · simp [subscriberOf, Runtime.pumpChunk, Runtime.fanOut, Runtime.keptBy, Subscriber.offer, h]
  · simp [subscriberOf, Runtime.pumpChunk, Runtime.fanOut, Runtime.keptBy, Subscriber.offer, h]

theorem subscriberOf_pumpEof {rt : Runtime V} (hp : rt.pty.isSome = true) (wait : Except PtyError ExitSummary) (i : Nat) :
    subscriberOf (rt.pumpEof wait) i = (subscriberOf rt i).step (.close (.exited (exitOf wait))) := by
  obtain ⟨pty, hp⟩ := Option.isSome_iff_exists.mp hp
  have hexit : rt.eofExit wait = exitOf wait := by simp [Runtime.eofExit, hp, exitOf]
  by_cases h : i ∈ rt.attachments
  · simp [subscriberOf, Runtime.pumpEof, Runtime.fanOut, Subscriber.step, Subscriber.offer, h, hexit]
  · simp [subscriberOf, Runtime.pumpEof, Runtime.fanOut, Subscriber.step, Subscriber.offer, h]

theorem subscriberOf_attaches {id : ShellId} {rt rt' : Runtime V} {cols rows : UInt16} {env : Runtime.AttachEnv}
    {a : Attachment} (ha : Runtime.Attaches S id rt cols rows env rt' a) {i : Nat} (hi : i < rt.nextAttachmentId) :
    subscriberOf rt' i = subscriberOf rt i := by
  obtain ⟨rt₁, hr, rfl⟩ := ha.result
  have hsame := Runtime.attachResize_same S hr
  rw [subscriberOf_register (by rw [hsame.nextAttachmentId]; exact hi)]
  simp only [subscriberOf, hsame.attachments, hsame.channels]

/-- A step that changes neither the table's entry nor the channel of `i`. -/
theorem quiet {rt rt' : Runtime V} {i : Nat} (h : subscriberOf rt' i = subscriberOf rt i) :
    subscriberOf rt' i = (subscriberOf rt i).run (none : Option (Subscriber.Event AttachmentEvent)).toList ∧
      (rt'.channels i).received = (rt.channels i).received ++ (none : Option AttachmentEvent).toList := by
  have hc : rt'.channels i = rt.channels i := congrArg Subscriber.chan h
  exact ⟨h, by rw [hc]; simp⟩

/-- One step of a shell is, for each attachment that exists, one step of its subscriber
    or none; and the receiver's read is what the step answered. -/
theorem entryStep_subscriber {id : ShellId} {e e' : ShellEntry V} {op : Op} {res : Res}
    (hs : EntryStep S id e op res e') (h : ShellInv S e) {i : Nat} (hi : i < e.runtime.nextAttachmentId) :
    subscriberOf e'.runtime i = (subscriberOf e.runtime i).run (eventOf id i (op, res)).toList ∧
      (e'.runtime.channels i).received = (e.runtime.channels i).received ++ (readOf id i (op, res)).toList := by
  cases hs with
  | reopen req env => exact quiet rfl
  | attach token cols rows env rt' a _ ha => exact quiet (subscriberOf_attaches ha hi)
  | attachAuthorized cols rows env rt' a ha => exact quiet (subscriberOf_attaches ha hi)
  | detach j =>
    by_cases hj : j = i
    · subst hj
      simp [eventOf, readOf, subscriberOf, Runtime.detach, Subscriber.run, Subscriber.step]
    · have : eventOf id i (.detach id j, .done) = none := by simp [eventOf, hj]
      rw [this]
      exact quiet (by simp [subscriberOf, Runtime.detach, Ne.symm hj])
  | writeInput data env =>
    obtain ⟨pty, _, hw⟩ := e.runtime.writeInput_fst data env
    exact quiet (by rw [hw]; rfl)
  | resize cols rows outcome _ =>
    obtain ⟨pty, model, _, hw⟩ := e.runtime.resize_fst S cols rows outcome
    exact quiet (by rw [hw]; rfl)
  | terminate kill =>
    rcases e.runtime.terminate_fst kill with ⟨_, _, hw⟩ | ⟨_, hw⟩
    · exact quiet (by rw [hw])
    · exact quiet (by rw [hw]; rfl)
  | terminateWake =>
    rcases e.runtime.terminateWake_fst with ⟨_, hw⟩ | ⟨_, _, hw⟩
    · exact quiet (by rw [hw])
    · exact quiet (by rw [hw]; rfl)
  | pumpChunk chunk hp =>
    refine ⟨?_, ?_⟩
    · simp only [eventOf, if_true, Option.toList_some, subscriberOf_pumpChunk]; rfl
    · simp only [Runtime.pumpChunk, Runtime.fanOut, readOf, Option.toList_none, List.append_nil]
      split <;> simp
  | pumpEof wait hp =>
    refine ⟨?_, ?_⟩
    · simp only [eventOf, if_true, Option.toList_some, subscriberOf_pumpEof (h.pty hp)]; rfl
    · simp only [Runtime.pumpEof, Runtime.fanOut, readOf, Option.toList_none, List.append_nil]
      split <;> simp
  | recv j =>
    by_cases hj : j = i
    · subst hj
      refine ⟨?_, ?_⟩
      · simp [eventOf, subscriberOf, Runtime.recv, Subscriber.run, Subscriber.step]; rfl
      · simpa [readOf, Runtime.recv] using SyncChannel.received_recv (e.runtime.channels j)
    · have h1 : eventOf id i (.recv id j, .event (e.runtime.recv j).2) = none := by simp [eventOf, hj]
      have h2 : readOf id i (.recv id j, .event (e.runtime.recv j).2) = none := by simp [readOf, hj]
      rw [h1, h2]
      exact quiet (by simp [subscriberOf, Runtime.recv, Ne.symm hj]; rfl)
  | dropReceiver j =>
    by_cases hj : j = i
    · subst hj
      simp [eventOf, readOf, subscriberOf, Runtime.dropReceiver, Subscriber.run, Subscriber.step,
        SyncChannel.dropReceiver]
      rfl
    · have : eventOf id i (.dropReceiver id j, .done) = none := by simp [eventOf, hj]
      rw [this]
      exact quiet (by simp [subscriberOf, Runtime.dropReceiver, Ne.symm hj]; rfl)

open Manager

/-- Where the shell called `id` and attachment `i` of it stand after a run. -/
structure Tracks (id : ShellId) (i : Nat) (e : ShellEntry V) (tr : List (Op × Res)) (e' : ShellEntry V) : Prop where
  moves : Moves e e'
  subscriber : subscriberOf e'.runtime i = (subscriberOf e.runtime i).run (eventsOf id i tr)
  received : (e'.runtime.channels i).received = (e.runtime.channels i).received ++ reads id i tr

theorem tracks_step {m : Manager V} (h : CapacityInv S m) {op : Op} (hf : FreshId S m op) {id : ShellId} {i : Nat}
    {e e₁ : ShellEntry V} {tr : List (Op × Res)} (hi : i < e.runtime.nextAttachmentId) (he₁ : m.find id = some e₁)
    (ht : Tracks id i e tr e₁) :
    ∃ e₂, (m.step S op).1.find id = some e₂ ∧ Tracks id i e (tr ++ [(op, (m.step S op).2)]) e₂ := by
  have hevents : eventsOf id i (tr ++ [(op, (m.step S op).2)]) =
      eventsOf id i tr ++ (eventOf id i (op, (m.step S op).2)).toList := by
    cases hx : eventOf id i (op, (m.step S op).2) <;> simp [eventsOf, hx]
  have hreads : reads id i (tr ++ [(op, (m.step S op).2)]) =
      reads id i tr ++ (readOf id i (op, (m.step S op).2)).toList := by
    cases hx : readOf id i (op, (m.step S op).2) <;> simp [reads, hx]
  cases find_step S h.keyed hf id with
  | kept hl hacts =>
    have hev : eventOf id i (op, (m.step S op).2) = none := by
      cases hx : eventOf id i (op, (m.step S op).2) with
      | none => rfl
      | some ev => exact absurd (eventOf_acts hx) hacts
    have hrd : readOf id i (op, (m.step S op).2) = none := by
      cases hx : readOf id i (op, (m.step S op).2) with
      | none => rfl
      | some ev => exact absurd (readOf_acts hx) hacts
    refine ⟨e₁, hl ▸ he₁, ht.moves, ?_, ?_⟩
    · rw [hevents, hev]; simpa using ht.subscriber
    · rw [hreads, hrd]; simpa using ht.received
  | changed e₀ e₂ hl hs h' =>
    rw [he₁] at hl; cases hl
    have hinv := h.shells id e₁ he₁
    obtain ⟨hsub, hrec⟩ := entryStep_subscriber hs hinv (hi.trans_le ht.moves.next)
    refine ⟨e₂, h', ht.moves.trans (entryStep_inv hs hinv).2, ?_, ?_⟩
    · rw [hsub, ht.subscriber, hevents, Subscriber.run_append]
    · rw [hrec, ht.received, hreads, List.append_assoc]
  | created req env account _ hn _ _ _ => rw [he₁] at hn; cases hn

/-- Over any run, an attachment is what its own subscriber machine makes of its events. -/
theorem subscriber_run {m : Manager V} (h : CapacityInv S m) {ops : List Op}
    (hf : (machine S).Admissible (FreshId S) m ops) {id : ShellId} {e : ShellEntry V} (he : m.find id = some e)
    {i : Nat} (hi : i < e.runtime.nextAttachmentId) :
    ∃ e', ((machine S).run m ops).find id = some e' ∧ Tracks id i e ((machine S).trace m ops) e' := by
  refine ((machine S).trace_induction
    (P := fun tr m => CapacityInv S m ∧ ∃ e', m.find id = some e' ∧ Tracks id i e tr e')
    ⟨h, e, he, .refl e, rfl, by simp [reads]⟩ ?_ hf).2
  intro tr m op hinv hok
  obtain ⟨hm, e₁, he₁, ht⟩ := hinv
  exact ⟨capacityInv_step hm hok, tracks_step hm hok hi he₁ ht⟩

/-! ## The model is the replay of the chunks and resizes -/

variable (S)

/-- The size an attach or a resize asks for; 0 keeps the current one. -/
def sizeTo (model : TerminalModel V) (cols rows : UInt16) : TerminalModel V :=
  if cols ≠ 0 ∧ rows ≠ 0 then model.resize S.avt (clampDims cols rows).1 (clampDims cols rows).2 else model

/-- What a step does to the model of shell `id`. No receiver occurs here. -/
def replayStep (id : ShellId) (model : Option (TerminalModel V)) : Op × Res → Option (TerminalModel V)
  | (.openShell req env, .opened o) =>
    if o.shellId = id ∧ o.reused = false then some (newRuntime S req env).model else model
  | (.pumpChunk id' chunk, .done) => if id' = id then model.map (·.feed S.avt chunk) else model
  | (.resize id' cols rows _, .done) => if id' = id then model.map (sizeTo S · cols rows) else model
  | (.attach _ _ _ cols rows _, .attached a) => if a.shellId = id then model.map (sizeTo S · cols rows) else model
  | (.attachAuthorized _ _ cols rows _, .attached a) =>
    if a.shellId = id then model.map (sizeTo S · cols rows) else model
  | _ => model

def replay (id : ShellId) (tr : List (Op × Res)) : Option (TerminalModel V) := tr.foldl (replayStep S id) none

theorem replay_snoc (id : ShellId) (tr : List (Op × Res)) (x : Op × Res) :
    replay S id (tr ++ [x]) = replayStep S id (replay S id tr) x := by simp [replay]

variable {S}

theorem attachResize_model {rt rt' : Runtime V} {cols rows : UInt16} {outcome : Except PtyError Unit}
    (h : rt.attachResize S cols rows outcome = .ok rt') : rt'.model = sizeTo S rt.model cols rows := by
  unfold Runtime.attachResize at h
  unfold sizeTo
  split at h
  · rename_i h0
    rw [if_pos h0]
    simp only at h
    split at h
    · split at h
      · split at h
        · cases h
        · cases h; rfl
      · cases h; rfl
    · rename_i hsize
      cases h
      exact (TerminalModel.resize_self S.avt (by rw [clampDims_clamped]; exact not_not.mp hsize)).symm
  · rename_i h0
    rw [if_neg h0]
    cases h; rfl

theorem attaches_model {id : ShellId} {rt rt' : Runtime V} {cols rows : UInt16} {env : Runtime.AttachEnv}
    {a : Attachment} (ha : Runtime.Attaches S id rt cols rows env rt' a) : rt'.model = sizeTo S rt.model cols rows := by
  obtain ⟨rt₁, hr, rfl⟩ := ha.result
  have hreg : (rt₁.register S env).model = rt₁.model := rfl
  rw [hreg, attachResize_model hr]

theorem resize_model (rt : Runtime V) {cols rows : UInt16} (h0 : ¬(cols = 0 ∨ rows = 0))
    (outcome : Except PtyError Unit) :
    (rt.resize S cols rows outcome).2 = .ok () ∧
        (rt.resize S cols rows outcome).1.model = sizeTo S rt.model cols rows ∨
      ∃ err, rt.resize S cols rows outcome = (rt, .error err) := by
  unfold Runtime.resize
  simp only
  split
  · split
    · exact .inl ⟨rfl, by rw [sizeTo, if_pos (not_or.mp h0)]; rfl⟩
    · exact .inr ⟨_, rfl⟩
  · exact .inr ⟨_, rfl⟩

theorem entryStep_replay {id : ShellId} {e e' : ShellEntry V} {op : Op} {res : Res}
    (hs : EntryStep S id e op res e') : replayStep S id (some e.runtime.model) (op, res) = some e'.runtime.model := by
  cases hs with
  | reopen req env => simp [replayStep, Runtime.rotateToken]
  | attach token cols rows env rt' a _ ha => simp [replayStep, ha.shellId, attaches_model ha]
  | attachAuthorized cols rows env rt' a ha => simp [replayStep, ha.shellId, attaches_model ha]
  | writeInput data env =>
    obtain ⟨pty, _, hw⟩ := e.runtime.writeInput_fst data env
    rw [hw]; rfl
  | resize cols rows outcome h0 =>
    rcases resize_model e.runtime h0 outcome with ⟨hok, hm⟩ | ⟨err, hw⟩
    · rw [hok, hm]; simp [replayStep, Res.ofUnit]
    · rw [hw]; rfl
  | terminate kill =>
    rcases e.runtime.terminate_fst kill with ⟨_, _, hw⟩ | ⟨_, hw⟩
    · rw [hw]; rfl
    · rw [hw]; rfl
  | terminateWake =>
    rcases e.runtime.terminateWake_fst with ⟨_, hw⟩ | ⟨_, _, hw⟩
    · rw [hw]; rfl
    · rw [hw]; rfl
  | pumpChunk chunk hp => simp [replayStep, Runtime.pumpChunk]
  | detach j => rfl
  | pumpEof wait hp => rfl
  | recv j => rfl
  | dropReceiver j => rfl

theorem replayStep_acts {id : ShellId} {model : Option (TerminalModel V)} {op : Op} {res : Res}
    (h : acts op res ≠ some id) : replayStep S id model (op, res) = model := by
  unfold replayStep
  split <;> rename_i heq <;> first | rfl | (cases heq)
  · exact if_neg fun hid => h (by rw [← hid.1]; rfl)
  · exact if_neg fun hid => h (by rw [← hid]; rfl)
  · rename_i cols rows _
    split
    · rename_i hid
      by_cases h0 : cols = 0 ∨ rows = 0
      · have : ∀ md, sizeTo S md cols rows = md := fun md => if_neg (by rw [← not_or, not_not]; exact h0)
        simp [this]
      · exact absurd (by rw [← hid]; exact if_neg h0) h
    · rfl
  · exact if_neg fun hid => h (by rw [← hid]; rfl)
  · exact if_neg fun hid => h (by rw [← hid]; rfl)

variable (S)

/-- The model of a shell is the replay of its trace. -/
theorem replay_run {ops : List Op} (hf : (machine S).Admissible (FreshId S) empty ops) (id : ShellId) :
    replay S id ((machine S).trace empty ops) = (((machine S).run empty ops).find id).map (·.runtime.model) := by
  refine ((machine S).trace_induction
    (P := fun tr m => CapacityInv S m ∧ replay S id tr = (m.find id).map (·.runtime.model))
    ⟨capacityInv_empty S, rfl⟩ ?_ hf).2
  intro tr m op hinv hok
  obtain ⟨hm, hr⟩ := hinv
  refine ⟨capacityInv_step hm hok, ?_⟩
  rw [replay_snoc, hr]
  show replayStep S id _ (op, (m.step S op).2) = ((m.step S op).1.find id).map _
  cases find_step S hm.keyed hok id with
  | kept hl hacts => rw [hl, replayStep_acts hacts]
  | changed e e' hl hs h' => rw [hl, h']; exact entryStep_replay hs
  | created req env account hop hn ho h2 h' => rw [hn, h', h2, hop]; simp [replayStep, newEntry]

variable {S}

/-! ## Chunks and offers -/

theorem outputs_offered (id : ShellId) (i : Nat) (tr : List (Op × Res)) :
    outputs (Subscriber.offered (eventsOf id i tr)) = fed id tr := by
  unfold outputs Subscriber.offered eventsOf fed
  rw [List.filterMap_filterMap, List.filterMap_filterMap]
  congr 1
  funext x
  obtain ⟨op, res⟩ := x
  cases op with
  | pumpChunk id' chunk =>
    cases res <;> try rfl
    by_cases h : id' = id <;> simp [eventOf, chunkOf, h, Subscriber.Event.payload, outputOf]
  | pumpEof id' wait =>
    cases res <;> try rfl
    by_cases h : id' = id <;> simp [eventOf, chunkOf, h, Subscriber.Event.payload, outputOf]
  | detach id' j =>
    cases res <;> try rfl
    by_cases h : id' = id ∧ j = i <;> simp [eventOf, chunkOf, h, Subscriber.Event.payload]
  | recv id' j =>
    cases res <;> try rfl
    by_cases h : id' = id ∧ j = i <;> simp [eventOf, chunkOf, h, Subscriber.Event.payload]
  | dropReceiver id' j =>
    cases res <;> try rfl
    by_cases h : id' = id ∧ j = i <;> simp [eventOf, chunkOf, h, Subscriber.Event.payload]
  | _ => rfl

/-- What is offered is a chunk, or is offered last. -/
theorem eventOf_payload {id : ShellId} {i : Nat} {x : Op × Res} {ev : Subscriber.Event AttachmentEvent}
    {a : AttachmentEvent} (h : eventOf id i x = some ev) (ha : ev.payload = some a) :
    (∃ chunk, a = .output chunk) ∨ ev = .close a := by
  unfold eventOf at h
  split at h <;> first | cases h | skip
  all_goals
    split at h
    · cases h
      first | (cases ha; first | exact .inl ⟨_, rfl⟩ | exact .inr rfl) | cases ha
    · cases h

theorem map_outputs {evs : List AttachmentEvent} (h : ∀ a ∈ evs, ∃ chunk, a = .output chunk) :
    (outputs evs).map .output = evs := by
  induction evs with
  | nil => rfl
  | cons a evs ih =>
    obtain ⟨chunk, rfl⟩ := h a (by simp)
    have := ih fun b hb => h b (by simp [hb])
    simpa [outputs, outputOf] using this

theorem offered_eq {id : ShellId} {i : Nat} {tr : List (Op × Res)}
    (h : ∀ a, Subscriber.Event.close a ∉ eventsOf id i tr) :
    Subscriber.offered (eventsOf id i tr) = (fed id tr).map .output := by
  rw [← outputs_offered id i tr]
  refine (map_outputs fun a ha => ?_).symm
  obtain ⟨ev, hev, hpay⟩ := List.mem_filterMap.mp ha
  obtain ⟨x, _, hx⟩ := List.mem_filterMap.mp hev
  rcases eventOf_payload hx hpay with hout | rfl
  · exact hout
  · exact absurd hev (h a)

/-! ## Attaching starts a subscription -/

/-- The shell right after a successful attach. -/
theorem attached_entry {m : Manager V} (h : CapacityInv S m) {op : Op} (hf : FreshId S m op) {a : Attachment}
    (ha : (m.step S op).2 = .attached a) :
    ∃ e, (m.step S op).1.find a.shellId = some e ∧ a.attachmentId < e.runtime.nextAttachmentId ∧
      subscriberOf e.runtime a.attachmentId = ⟨true, .new S.config.maxQueuedChunks⟩ ∧
      a.snapshot = e.runtime.model.snapshot S.avt := by
  have hreg : ∀ {id rt cols rows env rt'}, Runtime.Attaches S id rt cols rows env rt' a →
      a.attachmentId < rt'.nextAttachmentId ∧
        subscriberOf rt' a.attachmentId = ⟨true, .new S.config.maxQueuedChunks⟩ := by
    intro id rt cols rows env rt' hat
    obtain ⟨rt₁, hr, rfl⟩ := hat.result
    have hid : a.attachmentId = rt₁.nextAttachmentId :=
      hat.attachmentId.trans (Runtime.attachResize_same S hr).nextAttachmentId.symm
    rw [hid]
    exact ⟨Nat.lt_succ_self _, by simp [subscriberOf, Runtime.register, Runtime.rotateToken]⟩
  have hacts : acts op (m.step S op).2 = some a.shellId := by rw [ha]; rfl
  cases find_step S h.keyed hf a.shellId with
  | kept _ hne => exact absurd hacts hne
  | changed e e' hl hs h' =>
    obtain ⟨cols, rows, env, rt', hat, rfl⟩ := hs.attached ha
    exact ⟨_, h', (hreg hat).1, (hreg hat).2, hat.snapshot⟩
  | created req env account _ _ _ h2 _ => rw [ha] at h2; cases h2

/-! ## Whole runs -/

/-- The steps of the receiver of attachment `i`. -/
def ofReceiver (id : ShellId) (i : Nat) : Op → Bool
  | .recv id' i' => id' == id && i' == i
  | .dropReceiver id' i' => id' == id && i' == i
  | _ => false

theorem ofReceiver_cases {id : ShellId} {i : Nat} {op : Op} (h : ofReceiver id i op = true) :
    op = .recv id i ∨ op = .dropReceiver id i := by
  unfold ofReceiver at h
  split at h
  · simp only [Bool.and_eq_true, beq_iff_eq] at h
    exact .inl (by rw [h.1, h.2])
  · simp only [Bool.and_eq_true, beq_iff_eq] at h
    exact .inr (by rw [h.1, h.2])
  · cases h

theorem eventsOf_ofReceiver {id id' : ShellId} {i j : Nat} (h : ¬(id' = id ∧ j = i)) (tr : List (Op × Res)) :
    eventsOf id' j (tr.filter fun x => !ofReceiver id i x.1) = eventsOf id' j tr := by
  have h' : ¬(id = id' ∧ i = j) := fun ⟨h1, h2⟩ => h ⟨h1.symm, h2.symm⟩
  unfold eventsOf
  rw [List.filterMap_filter]
  congr 1
  funext ⟨op, res⟩
  cases ho : ofReceiver id i op with
  | false => simp
  | true =>
    rcases ofReceiver_cases ho with rfl | rfl <;> cases res <;> simp [eventOf, h']

theorem replay_ofReceiver (id id' : ShellId) (i : Nat) (tr : List (Op × Res)) :
    replay S id' (tr.filter fun x => !ofReceiver id i x.1) = replay S id' tr := by
  unfold replay
  rw [List.foldl_filter]
  congr 1
  funext model ⟨op, res⟩
  cases ho : ofReceiver id i op with
  | false => rfl
  | true => rcases ofReceiver_cases ho with rfl | rfl <;> rfl

/-- What attachment `i` of shell `id` has, at the end of a trace `tr` from its attach. -/
structure StreamSound (S : Server V) (id : ShellId) (i : Nat) (tr : List (Op × Res)) (e : ShellEntry V) : Prop where
  /-- The outputs it got are the first chunks fed since its snapshot, each once. -/
  inOrder : outputs (e.runtime.channels i).sent <+: fed id tr
  /-- While it is in the table and listening it got every one of them, and nothing else. -/
  lossless : i ∈ e.runtime.attachments → (e.runtime.channels i).connected = true →
    (e.runtime.channels i).sent = (fed id tr).map .output
  /-- Its receiver took the first of the events it got. -/
  read : (e.runtime.channels i).received = reads id i tr ∧ reads id i tr <+: (e.runtime.channels i).sent
  /-- All of this is made of the chunks, the exit, its own detach and its own receiver. -/
  own : subscriberOf e.runtime i = Subscriber.run ⟨true, .new S.config.maxQueuedChunks⟩ (eventsOf id i tr)

theorem streamSound_of_tracks {id : ShellId} {i : Nat} {e e' : ShellEntry V} {tr : List (Op × Res)}
    (h0 : subscriberOf e.runtime i = ⟨true, .new S.config.maxQueuedChunks⟩) (h : Tracks id i e tr e') :
    StreamSound S id i tr e' := by
  have hown : subscriberOf e'.runtime i = Subscriber.run ⟨true, .new S.config.maxQueuedChunks⟩ (eventsOf id i tr) := by
    rw [h.subscriber, h0]
  have hfollows := hown ▸ Subscriber.follows_run (Subscriber.follows_new S.config.maxQueuedChunks) (eventsOf id i tr)
  rw [List.nil_append] at hfollows
  have hreceived : (e'.runtime.channels i).received = reads id i tr := by
    have hnew : (e.runtime.channels i).received = [] := congrArg (·.chan.received) h0
    rw [h.received, hnew, List.nil_append]
  refine ⟨?_, ?_, ⟨hreceived, hreceived ▸ SyncChannel.received_prefix _⟩, hown⟩
  · rw [← outputs_offered id i tr]
    exact hfollows.before.filterMap outputOf
  · intro hi hc
    have hsub : (subscriberOf e'.runtime i).subscribed = true := decide_eq_true hi
    rw [← offered_eq (Subscriber.not_closed (hown ▸ hsub))]
    exact hfollows.exact hsub hc

variable (S)

/-- Live-stream integrity: the attachment of every successful attach of every run. -/
theorem stream_integrity (ops : List Op) (hf : (machine S).Admissible (FreshId S) empty ops) :
    ∀ pre op post a, ops = pre ++ op :: post → (((machine S).run empty pre).step S op).2 = .attached a →
    let m₁ := (((machine S).run empty pre).step S op).1
    let tr := (machine S).trace m₁ post
    -- the snapshot is of a model fed the chunks up to the attach, `tr` has all the others
    (machine S).trace empty ops = (machine S).trace empty (pre ++ [op]) ++ tr ∧
    (∃ model, replay S a.shellId ((machine S).trace empty (pre ++ [op])) = some model ∧
      a.snapshot = model.snapshot S.avt) ∧
    -- what it got, at the end of the run
    (∃ e, ((machine S).run empty ops).find a.shellId = some e ∧ StreamSound S a.shellId a.attachmentId tr e ∧
      replay S a.shellId ((machine S).trace empty ops) = some e.runtime.model ∧
      -- once out of the table it got nothing more
      ∀ mid rest, post = mid ++ rest → ∀ e', ((machine S).run m₁ mid).find a.shellId = some e' →
        a.attachmentId ∉ e'.runtime.attachments → a.attachmentId ∉ e.runtime.attachments ∧
          (e.runtime.channels a.attachmentId).sent <+: (e'.runtime.channels a.attachmentId).sent) ∧
    -- its receiver is no part of what the models and the other attachments are made of
    (∀ id', replay S id' (((machine S).trace empty ops).filter fun x => !ofReceiver a.shellId a.attachmentId x.1) =
      replay S id' ((machine S).trace empty ops)) ∧
    ∀ id' j tr', ¬(id' = a.shellId ∧ j = a.attachmentId) →
      eventsOf id' j (tr'.filter fun x => !ofReceiver a.shellId a.attachmentId x.1) = eventsOf id' j tr' := by
  intro pre op post a hops ha m₁ tr
  subst hops
  obtain ⟨hpre, hop, hpost⟩ := (machine S).admissible_append.mp hf
  have hcap := capacityInv_run (capacityInv_empty S) hpre
  have hcap₁ : CapacityInv S m₁ := capacityInv_step hcap hop
  obtain ⟨e₁, he₁, hlt, hsub, hsnap⟩ := attached_entry hcap hop ha
  have hrun : (machine S).run empty (pre ++ [op]) = m₁ := by rw [Machine.run_snoc]; rfl
  have hrun' : (machine S).run empty (pre ++ op :: post) = (machine S).run m₁ post := by
    rw [List.append_cons, Machine.run_append, hrun]
  obtain ⟨e, he, htracks⟩ := subscriber_run hcap₁ hpost he₁ hlt
  refine ⟨?_, ⟨e₁.runtime.model, ?_, hsnap⟩, ⟨e, hrun' ▸ he, streamSound_of_tracks hsub htracks, ?_, ?_⟩,
    fun id' => replay_ofReceiver _ _ _ _, fun id' j tr' hne => eventsOf_ofReceiver hne tr'⟩
  · rw [List.append_cons, Machine.trace_append, hrun]
  · rw [replay_run S ((machine S).admissible_snoc.mpr ⟨hpre, hop⟩), hrun, he₁]; rfl
  · rw [replay_run S hf, hrun', he]; rfl
  · intro mid rest hpost' e' he' hout
    subst hpost'
    obtain ⟨hmid, hrest⟩ := (machine S).admissible_append.mp hpost
    obtain ⟨e'', he'', htmid⟩ := subscriber_run hcap₁ hmid he₁ hlt
    rw [he'] at he''; cases he''
    rw [Machine.run_append] at he
    obtain ⟨e'', he'', htrest⟩ := subscriber_run (capacityInv_run hcap₁ hmid) hrest he'
      (hlt.trans_le htmid.moves.next)
    rw [he] at he''; cases he''
    have hfrozen := Subscriber.frozen_run (s := subscriberOf e'.runtime a.attachmentId) (decide_eq_false hout)
      (eventsOf a.shellId a.attachmentId ((machine S).trace ((machine S).run m₁ mid) rest))
    rw [← htrest.subscriber] at hfrozen
    exact ⟨of_decide_eq_false hfrozen.1, hfrozen.2⟩

/-- An attachment that drains, and one whose receiver went away. -/
theorem stream_integrity_two_attachments :
    let ops := [sampleOpen "ada" 1 sampleShell, .attach "ada" sampleShell (.repeated 1) 80 24 ⟨.ok (), .repeated 2, 2000⟩,
      .attachAuthorized "ada" sampleShell 80 24 ⟨.ok (), .repeated 3, 3000⟩, .dropReceiver sampleShell 2,
      .pumpChunk sampleShell [104, 105], .recv sampleShell 1, .pumpChunk sampleShell [33]]
    (machine Server.sample).Admissible (FreshId Server.sample) empty ops ∧
      reads sampleShell 1 ((machine Server.sample).trace empty ops) = [.output [104, 105]] ∧
      ∃ e, ((machine Server.sample).run empty ops).find sampleShell = some e ∧
        StreamSound Server.sample sampleShell 1 ((machine Server.sample).trace
          (((machine Server.sample).run empty (ops.take 1)).step Server.sample
            (.attach "ada" sampleShell (.repeated 1) 80 24 ⟨.ok (), .repeated 2, 2000⟩)).1 (ops.drop 2)) e := by
  intro ops
  have hf : (machine Server.sample).Admissible (FreshId Server.sample) empty ops := by decide
  obtain ⟨e, he, hs, _⟩ := (stream_integrity Server.sample ops hf (ops.take 1) _ (ops.drop 2)
    ⟨1, sampleShell, [], 1, .repeated 2, 0, 0⟩ rfl (by decide)).2.2.1
  exact ⟨hf, by decide, e, he, hs⟩

end Holdfast.Session

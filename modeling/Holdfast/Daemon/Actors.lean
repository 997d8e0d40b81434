/-
  Holdfast.Daemon.Actors — the bindings of a connection and the actors behind them.

  An upload's actor and a forward's task are known by their index, and each binding names
  one that was started for its channel. So two bindings never share one, and an actor that
  has lost its binding never gets another: it works off what it was sent and ends.

  Proved:
  - `linked_step`: every binding names an actor, or a task, of its own channel.
  - `cutOff_step`: an actor without a sender stays without one.
-/

import Holdfast.Base.Slots
import Holdfast.Daemon.Dispatch

namespace Holdfast.Daemon.World

open Holdfast.Base Holdfast.Protocol Holdfast.Session Holdfast.Upload

variable {V : Type} {A : App V} {w w' : World V} {channel : Nat} {e : Envelope} {env : DispatchEnv}

/-! ## Actors stay where they are -/

theorem keeps_abortTask (tasks : List ForwardTask) (t : Nat) : Keeps ForwardTask.channel tasks (abortTask tasks t) :=
  Keeps.modify (g := fun x : ForwardTask => { x with aborted := true }) (fun _ => rfl) t

/-- A dispatch starts at most one actor, and touches no other. -/
theorem Change.actors (h : Change A w channel e env w') :
    w'.actors = w.actors ∨ ∃ id writer d, UploadWriter.WriterInv [] writer d ∧
      w'.actors = w.actors ++ [UploadActor.mk channel e.requestId id (.start writer d) []] := by
  cases h with
  | begun id writer d metadata hm hc hu hroom hp ho hw => exact .inr ⟨id, writer, d, hw, rfl⟩
  | _ => exact .inl rfl

theorem Change.keeps_actors (h : Change A w channel e env w') : Keeps UploadActor.channel w.actors w'.actors := by
  rcases h.actors with hsame | ⟨id, writer, d, _, hnew⟩
  · rw [hsame]
    exact .refl _ _
  · rw [hnew]
    exact .concat _ _

theorem Change.keeps_tasks (h : Change A w channel e env w') : Keeps ForwardTask.channel w.tasks w'.tasks := by
  cases h with
  | forwarded host port hm hc hu hroom hp => exact .concat _ _
  | aborted t ht => exact keeps_abortTask _ t
  | _ => exact .refl _ _

theorem channelClosed_actors (w : World V) (channel : Nat) : (w.channelClosed A channel).1.actors = w.actors := by
  unfold channelClosed detach
  simp only
  split <;> rfl

theorem channelClosed_tasks (w : World V) (channel : Nat) :
    (w.channelClosed A channel).1.tasks = ((w.conn.forwards.lookup channel).map (abortTask w.tasks)).getD w.tasks := by
  unfold channelClosed detach
  simp only
  split <;> rfl

theorem step_keeps_actors (hk : w.manager.Keyed) (i : Input) :
    Keeps UploadActor.channel w.actors (w.step A i).1.actors := by
  cases i with
  | message channel e env =>
    simp only [step]
    split
    · exact .refl _ _
    · exact (dispatchSwept_outcome (A := A) (w := w.sweep) hk channel e env).change.keeps_actors
  | resume env =>
    show Keeps _ _ (w.resume A env).1.actors
    cases (resume_cases env : Resumed A w (w.resume A env)) with
    | waits h => rw [h]; exact .refl _ _
    | terminated _ _ _ _ h1 _ => rw [h1]; exact .refl _ _
    | failed _ _ _ _ h => rw [h]; exact .refl _ _
    | sent a command x _ _ hx _ h => rw [h]; exact .set hx rfl
  | channelClosed channel =>
    simp only [step]
    split
    · exact .refl _ _
    · rw [channelClosed_actors]
      exact .refl _ _
  | gone =>
    simp only [step]
    split <;> exact .refl _ _
  | upload a input =>
    simp only [step]
    split
    · exact .refl _ _
    · rename_i x hx
      exact .set hx (actorStep_same x _ input).1
  | forwardEnds t => exact .refl _ _
  | manager op => exact .refl _ _

theorem step_keeps_tasks (hk : w.manager.Keyed) (i : Input) :
    Keeps ForwardTask.channel w.tasks (w.step A i).1.tasks := by
  cases i with
  | message channel e env =>
    simp only [step]
    split
    · exact .refl _ _
    · exact (dispatchSwept_outcome (A := A) (w := w.sweep) hk channel e env).change.keeps_tasks
  | resume env =>
    show Keeps _ _ (w.resume A env).1.tasks
    cases (resume_cases env : Resumed A w (w.resume A env)) with
    | waits h => rw [h]; exact .refl _ _
    | terminated _ _ _ _ h1 _ => rw [h1]; exact .refl _ _
    | failed _ _ _ _ h => rw [h]; exact .refl _ _
    | sent _ _ _ _ _ _ _ h => rw [h]; exact .refl _ _
  | channelClosed channel =>
    simp only [step]
    split
    · exact .refl _ _
    · rw [channelClosed_tasks]
      cases w.conn.forwards.lookup channel with
      | none => exact .refl _ _
      | some t => exact keeps_abortTask _ t
  | gone =>
    simp only [step]
    split
    · exact .refl _ _
    · exact .foldl keeps_abortTask _ _
  | upload a input =>
    simp only [step]
    split <;> exact .refl _ _
  | forwardEnds t => exact Keeps.modify (g := fun x : ForwardTask => { x with ended := true }) (fun _ => rfl) t
  | manager op => exact .refl _ _

/-! ## Each binding names one of its own channel -/

structure Linked (w : World V) : Prop where
  uploads : ∀ k b, w.conn.uploads.lookup k = some b → ∃ x, w.actors[b.actor]? = some x ∧ x.channel = k
  forwards : ∀ k t, w.conn.forwards.lookup k = some t → ∃ x, w.tasks[t]? = some x ∧ x.channel = k
  sending : ∀ a command, w.pending = some (.sending a command) → a < w.actors.length
  control : w.conn.uploads.lookup 0 = none
  exclusive : ∀ k, w.conn.uploads.lookup k = none ∨ w.conn.forwards.lookup k = none

theorem linked_initial (datagrams : Bool) (channelBinding : List UInt8) (m : Manager V) :
    Linked (initial datagrams channelBinding m) := ⟨nofun, nofun, nofun, rfl, fun _ => .inl rfl⟩

/-- No two bindings name one actor. -/
theorem Linked.upload_unique (h : Linked w) {k k' : Nat} {b b' : UploadBinding}
    (hb : w.conn.uploads.lookup k = some b) (hb' : w.conn.uploads.lookup k' = some b') (hab : b.actor = b'.actor) :
    k = k' := by
  obtain ⟨x, hx, hk⟩ := h.uploads k b hb
  obtain ⟨x', hx', hk'⟩ := h.uploads k' b' hb'
  rw [hab, hx'] at hx
  cases hx
  exact hk.symm.trans hk'

theorem Linked.forward_unique (h : Linked w) {k k' t : Nat} (ht : w.conn.forwards.lookup k = some t)
    (ht' : w.conn.forwards.lookup k' = some t) : k = k' := by
  obtain ⟨x, hx, hk⟩ := h.forwards k t ht
  obtain ⟨x', hx', hk'⟩ := h.forwards k' t ht'
  rw [hx'] at hx
  cases hx
  exact hk.symm.trans hk'

theorem Linked.move (h : Linked w) (hactors : Keeps UploadActor.channel w.actors w'.actors)
    (htasks : Keeps ForwardTask.channel w.tasks w'.tasks)
    (hu : ∀ k b, w'.conn.uploads.lookup k = some b → w.conn.uploads.lookup k = some b ∨
      k ≠ 0 ∧ w'.conn.forwards.lookup k = none ∧ ∃ x, w'.actors[b.actor]? = some x ∧ x.channel = k)
    (hf : ∀ k t, w'.conn.forwards.lookup k = some t → w.conn.forwards.lookup k = some t ∨
      w'.conn.uploads.lookup k = none ∧ ∃ x, w'.tasks[t]? = some x ∧ x.channel = k)
    (hp : ∀ a command, w'.pending = some (.sending a command) → a < w.actors.length) : Linked w' := by
  refine ⟨?_, ?_, ?_, ?_, ?_⟩
  · intro k b hb
    rcases hu k b hb with hb | ⟨_, _, hx⟩
    · obtain ⟨x, hx, hk⟩ := h.uploads k b hb
      obtain ⟨x', hx', hc⟩ := hactors _ x hx
      exact ⟨x', hx', hc.trans hk⟩
    · exact hx
  · intro k t ht
    rcases hf k t ht with ht | ⟨_, hx⟩
    · obtain ⟨x, hx, hk⟩ := h.forwards k t ht
      obtain ⟨x', hx', hc⟩ := htasks _ x hx
      exact ⟨x', hx', hc.trans hk⟩
    · exact hx
  · intro a command hpend
    exact Nat.lt_of_lt_of_le (hp a command hpend) hactors.length_le
  · cases hb : w'.conn.uploads.lookup 0 with
    | none => rfl
    | some b =>
      rcases hu 0 b hb with hb | ⟨h0, _⟩
      · rw [h.control] at hb
        cases hb
      · exact absurd rfl h0
  · intro k
    cases hb : w'.conn.uploads.lookup k with
    | none => exact .inl rfl
    | some b =>
      cases ht : w'.conn.forwards.lookup k with
      | none => exact .inr rfl
      | some t =>
        rcases hu k b hb with hb' | ⟨_, hnone, _⟩
        · rcases hf k t ht with ht' | ⟨hnone, _⟩
          · rcases h.exclusive k with hn | hn
            · rw [hn] at hb'
              cases hb'
            · rw [hn] at ht'
              cases ht'
          · rw [hnone] at hb
            cases hb
        · rw [hnone] at ht
          cases ht

/-- A step that makes no binding. -/
theorem Linked.shrinks (h : Linked w) (hs : Shrinks w w') (hactors : Keeps UploadActor.channel w.actors w'.actors)
    (htasks : Keeps ForwardTask.channel w.tasks w'.tasks) : Linked w' :=
  h.move hactors htasks (fun k b hb => .inl (hs.uploads k b hb)) (fun k t ht => .inl (hs.forwards k t ht))
    fun a command hp => h.sending a command (hs.pending _ hp)

theorem Linked.bound_lt (h : Linked w) {b : UploadBinding} (hb : w.conn.uploads.lookup channel = some b) :
    b.actor < w.actors.length := by
  obtain ⟨x, hx, _⟩ := h.uploads channel b hb
  obtain ⟨hlt, _⟩ := List.getElem?_eq_some_iff.mp hx
  exact hlt

theorem Change.linked (hch : Change A w channel e env w') (h : Linked w) : Linked w' := by
  have hactors := hch.keeps_actors
  have htasks := hch.keeps_tasks
  cases hch with
  | begun id writer d metadata hm hc hu hroom hp ho hw =>
    refine h.move hactors htasks ?_ (fun k t ht => .inl ht) h.sending
    intro k b hb
    rcases Table.lookup_insert_some.mp hb with ⟨rfl, rfl⟩ | ⟨_, hb⟩
    · exact .inr ⟨hc, hu.forward, _, List.getElem?_concat_length, rfl⟩
    · exact .inl hb
  | forwarded host port hm hc hu hroom hp =>
    refine h.move hactors htasks (fun k b hb => .inl hb) ?_ h.sending
    intro k t ht
    rcases Table.lookup_insert_some.mp ht with ⟨rfl, rfl⟩ | ⟨_, ht⟩
    · exact .inr ⟨hu.upload, _, List.getElem?_concat_length, rfl⟩
    · exact .inl ht
  | sending b c hm hb =>
    refine h.move hactors htasks (fun k b hb => .inl hb) (fun k t ht => .inl ht) ?_
    intro a command hp
    cases hp
    exact h.bound_lt hb
  | sendingLast b command hb =>
    refine h.move hactors htasks (fun k b hb => .inl (Table.within_erase _ _ k b hb)) (fun k t ht => .inl ht) ?_
    intro a command hp
    cases hp
    exact h.bound_lt hb
  | unbound b hb =>
    exact h.move hactors htasks (fun k b hb => .inl (Table.within_erase _ _ k b hb)) (fun k t ht => .inl ht) h.sending
  | terminating id hp ho =>
    refine h.move hactors htasks (fun k b hb => .inl hb) (fun k t ht => .inl ht) ?_
    intro a command hp
    cases hp
  | _ => exact h.move hactors htasks (fun k b hb => .inl hb) (fun k t ht => .inl ht) h.sending

theorem linked_sweep (h : Linked w) : Linked w.sweep := h.shrinks (shrinks_sweep w) (.refl _ _) (.refl _ _)

theorem linked_step (hk : w.manager.Keyed) (h : Linked w) (i : Input) : Linked (w.step A i).1 :=
  step_rule hk h i (fun _ _ _ _ _ _ hch => hch.linked (linked_sweep h))
    fun hi => h.shrinks (step_shrinks hi) (step_keeps_actors hk i) (step_keeps_tasks hk i)

/-! ## An actor without a sender -/

/-- The actor is there, and nothing is left that could send to it. -/
structure CutOff (w : World V) (a : Nat) : Prop where
  started : a < w.actors.length
  unbound : ∀ k b, w.conn.uploads.lookup k = some b → b.actor ≠ a
  notSending : ∀ command, w.pending ≠ some (.sending a command)

theorem CutOff.hasSender {a : Nat} (h : CutOff w a) : w.hasSender a = false := by
  unfold World.hasSender
  rw [Bool.or_eq_false_iff]
  refine ⟨?_, ?_⟩
  · rw [List.any_eq_false]
    intro b hb
    obtain ⟨x, hx, rfl⟩ := List.mem_map.mp hb
    simpa using h.unbound x.1 x.2 (Table.mem_entries_iff.mp hx)
  · split
    · rename_i a' command hp
      by_contra hne
      have : a' = a := by simpa using hne
      subst this
      exact h.notSending command hp
    · rfl

theorem CutOff.shrinks {a : Nat} (h : CutOff w a) (hs : Shrinks w w') (hlen : w.actors.length ≤ w'.actors.length) :
    CutOff w' a :=
  ⟨Nat.lt_of_lt_of_le h.started hlen, fun k b hb => h.unbound k b (hs.uploads k b hb),
    fun command hp => h.notSending command (hs.pending _ hp)⟩

theorem Change.cutOff {a : Nat} (hch : Change A w channel e env w') (h : CutOff w a) : CutOff w' a := by
  have hlen := hch.keeps_actors.length_le
  have hstarted := Nat.lt_of_lt_of_le h.started hlen
  cases hch with
  | begun id writer d metadata hm hc hu hroom hp ho hw =>
    refine ⟨hstarted, ?_, h.notSending⟩
    intro k b hb
    rcases Table.lookup_insert_some.mp hb with ⟨_, rfl⟩ | ⟨_, hb⟩
    · exact (Nat.ne_of_lt h.started).symm
    · exact h.unbound k b hb
  | sending b c hm hb =>
    refine ⟨hstarted, h.unbound, ?_⟩
    intro command hp
    cases hp
    exact h.unbound channel b hb rfl
  | sendingLast b command hb =>
    refine ⟨hstarted, fun k b hb => h.unbound k b (Table.within_erase _ _ k b hb), ?_⟩
    intro command hp
    cases hp
    exact h.unbound channel b hb rfl
  | unbound b hb =>
    exact ⟨hstarted, fun k b hb => h.unbound k b (Table.within_erase _ _ k b hb), h.notSending⟩
  | terminating id hp ho => exact ⟨hstarted, h.unbound, nofun⟩
  | _ => exact ⟨hstarted, h.unbound, h.notSending⟩

theorem cutOff_step (hk : w.manager.Keyed) {a : Nat} (h : CutOff w a) (i : Input) : CutOff (w.step A i).1 a :=
  step_rule hk h i (fun _ _ _ _ _ _ hch => hch.cutOff (h.shrinks (shrinks_sweep w) (Nat.le_refl _)))
    fun hi => h.shrinks (step_shrinks hi) (step_keeps_actors hk i).length_le

/-- A binding that is gone leaves its actor without a sender. -/
theorem Linked.cutOff {b : UploadBinding} (h : Linked w) (hb : w.conn.uploads.lookup channel = some b)
    (h' : Linked w') (hactors : Keeps UploadActor.channel w.actors w'.actors)
    (hgone : w'.conn.uploads.lookup channel = none) (hp : w'.pending = none) : CutOff w' b.actor := by
  obtain ⟨x, hx, hc⟩ := h.uploads channel b hb
  obtain ⟨x', hx', hc'⟩ := hactors _ x hx
  obtain ⟨hlt, _⟩ := List.getElem?_eq_some_iff.mp hx'
  refine ⟨hlt, ?_, ?_⟩
  · intro k b' hb' hab
    obtain ⟨y, hy, hk⟩ := h'.uploads k b' hb'
    rw [hab, hx'] at hy
    cases hy
    rw [← hk, hc', hc, hgone] at hb'
    cases hb'
  · intro command hpend
    rw [hp] at hpend
    cases hpend

end Holdfast.Daemon.World

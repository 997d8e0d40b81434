/-
  Holdfast.Daemon.FrameSizes — the frame size a client and the daemon agree on, against the
  frames that go over the connection (`negotiate_server` of
  `crates/protocol/src/negotiate.rs`; `handle_connection` of `crates/daemon/src/ws.rs` with
  `wire.rs`; `ProtocolSessionRuntime` of `crates/daemon/src/webtransport.rs`).

  A connection hands its envelopes to a writer. On a WebSocket that is one task, which sends
  each as a message of its own behind the channel's number; otherwise it is the router with
  a queue for each stream. Both encode with the default maximum. What the client sends is
  decoded with the negotiated maximum on a WebSocket and with the default one on streams.

  `Link` is a connection with its writer. The messages it decodes are the inputs of
  `World.step`; what its other tasks send is given with the run. How an envelope is encoded
  is a parameter.

  Proved:
  - `step_negotiated`: only a hello moves the negotiated parameters.
  - `accepts_run`: a frame within the agreed size is accepted, in every run.
  - `frame_size_honoured_iff`: no frame is written over the agreed size, in any run, exactly
    if the client proposes the default size or more. Below it, the reply to an attach can
    be larger than agreed (`tall_screen_overruns`).
-/

import Holdfast.Daemon.AttachReply
import Holdfast.Daemon.Forward
import Holdfast.Daemon.Writers
import Holdfast.Daemon.WsMessage

namespace Holdfast.Daemon

open Holdfast.Base Holdfast.Protocol Holdfast.Session Holdfast.Terminal

/-! ## A connection and its writer -/

open Writers (WriterRouter WtChannelQueue Lane)

inductive Outgoing where
  | reply (r : Reply)
  /-- From the forwarder of an attachment. -/
  | event (m : Msg)
  /-- From the task of a forward. -/
  | forward (r : ForwardReply)

inductive Carrier where
  | webSocket
  | webTransport (router : WriterRouter)

/-- `out` is what the connection and its tasks have sent and no writer has taken. -/
structure Link (V : Type) where
  world : World V
  out : List (Nat × Outgoing)
  carrier : Carrier

inductive LinkInput where
  | conn (i : Input)
  | task (channel : Nat) (m : Outgoing)
  /-- The writer, or the router, takes the next envelope. -/
  | hand
  | register
  | write (channel : Nat) (ok : Bool)
  | finish

/-- A frame that went out, and on which channel. -/
abbrev Sent := Nat × List UInt8

def sentOf (calls : Writers.RouterCalls) : List Sent :=
  calls.filterMap fun x => match x.2.2 with
    | .returned frame => some (x.1, frame)
    | _ => none

namespace Link

section

variable {V D : Type} (A : App V) (C : Codec Outgoing D)

/-- The next envelope, to the one writer or to the router. -/
def hand (l : Link V) : Link V × List Sent :=
  match l.out with
  | [] => (l, [])
  | (channel, m) :: out =>
    match l.carrier with
    | .webSocket =>
      match encodeDelimited C m Protocol.frameBytesDefault with
      -- the channel's number goes before the frame: `encode_message`
      | .ok frame => ({ l with out }, [(channel, frame)])
      | .error _ => ({ l with out }, [])
    | .webTransport r => ({ l with out, carrier := .webTransport (r.frame C channel m).1 }, [])

/-- A turn of the router that takes no envelope. -/
def routed (l : Link V) (f : WriterRouter → WriterRouter × Writers.RouterCalls) : Link V × List Sent :=
  match l.carrier with
  | .webSocket => (l, [])
  | .webTransport r => ({ l with carrier := .webTransport (f r).1 }, sentOf (f r).2)

def step (l : Link V) : LinkInput → Link V × List Sent
  | .conn i =>
    let r := l.world.step A i
    ({ l with world := r.1, out := l.out ++ r.2.replies.map fun x => (x.1, .reply x.2) }, [])
  | .task channel m => ({ l with out := l.out ++ [(channel, m)] }, [])
  | .hand => l.hand C
  | .register => l.routed fun r => (r.register, [])
  | .write channel ok => l.routed fun r => r.write channel ok
  | .finish => l.routed fun r => r.finish

def machine : Machine (Link V) LinkInput (List Sent) where
  step := step A C

/-- A connection that has just come up, to a daemon that may have been running. -/
inductive Fresh : Link V → Prop
  | webSocket (m : Manager V) : Fresh ⟨.initial false [] m, [], .webSocket⟩
  | webTransport (m : Manager V) (channelBinding : List UInt8) {tooSlow : Outgoing} {r : WriterRouter}
      (h : WriterRouter.spawn C tooSlow = .ok r) : Fresh ⟨.initial true channelBinding m, [], .webTransport r⟩

/-- Nothing goes out that is larger than agreed. -/
def Fits (l : Link V) (i : LinkInput) : Prop :=
  ∀ n, l.world.conn.negotiated = some n → ∀ x ∈ (machine A C).out l i,
    x.2.length ≤ Protocol.lengthPrefixBytes + n.maxFrameBytes.toNat

/-- The decoder takes what is within the agreed size: a message of a WebSocket, or the
    frames of a stream cut anywhere. -/
def Accepts (l : Link V) : Prop :=
  ∀ (E D : Type) (K : Codec E D), (∀ e, K.decode (K.encode e) = .ok e) →
    match l.carrier with
    | .webSocket => ∀ channel e, channel < 2 ^ 64 → (K.encode e).length ≤ l.world.conn.maxFrameBytes.toNat →
        decodeMessage K (Protobuf.varint channel ++ frameOf K e) l.world.conn.maxFrameBytes = .ok (channel, e)
    | .webTransport _ => ∀ envelopes reads, (∀ e ∈ envelopes, (K.encode e).length ≤ l.world.conn.maxFrameBytes.toNat) →
        reads.flatten = envelopes.flatMap (frameOf K) →
        (FrameDecoder.new Protocol.frameBytesDefault).feedAll K reads = (envelopes, .new Protocol.frameBytesDefault, .ok ())

/-- At every step of the run. -/
def Honoured (l : Link V) (is : List LinkInput) : Prop :=
  (machine A C).Admissible (fun l i => Fits A C l i ∧ l.Accepts) l is

end

end Link

/-- Every hello of the client in this step is `hello`. -/
def SaysHello (hello : ClientHello) : LinkInput → Prop
  | .conn (.message _ e _) => ∀ h, e.message = some (.clientHello h) → h = hello
  | _ => True

/-! ## What was negotiated -/

namespace World

variable {V : Type} {A : App V} {w : World V} {channel : Nat} {e : Envelope} {env : DispatchEnv}

theorem onChannel_negotiated (m : ClientMessage) : (w.onChannel A env channel e m).1.conn.negotiated = w.conn.negotiated := by
  cases m <;>
    dsimp only [onChannel, pong, openForward, beginUpload, startUpload, uploadChunk, finishUpload, abortUpload, attach,
      terminalInput, terminalResize, requestHistory, detach, unexpected]
  all_goals repeat' split
  all_goals exact rfl

theorem onControl_negotiated {m : ClientMessage} (hm : ∀ hello, m ≠ .clientHello hello) :
    (w.onControl A env e m).1.conn.negotiated = w.conn.negotiated := by
  cases m with
  | clientHello hello => exact absurd rfl (hm hello)
  | _ =>
    dsimp only [onControl, authenticate, pong, listShells, openShell, terminateShell, terminated, unexpected]
    repeat' split
    all_goals exact rfl

theorem resume_negotiated : (w.resume A env).1.conn.negotiated = w.conn.negotiated := by
  dsimp only [resume, terminated]
  repeat' split
  all_goals exact rfl

/-- The parameters are as they were, or what a hello that came now agreed on. -/
def Renegotiates (w : World V) (e : Envelope) (n : Option Negotiated) : Prop :=
  n = w.conn.negotiated ∨ ∃ hello capabilities n',
    e.message = some (.clientHello hello) ∧ n = some n' ∧
      negotiateServer hello capabilities Protocol.frameBytesDefault 1200 w.conn.transportDatagrams = .ok n'

theorem clientHello_negotiated {hello : ClientHello} (hm : e.message = some (.clientHello hello)) (requestId : UInt64) :
    w.Renegotiates e (w.clientHello A env requestId hello).1.conn.negotiated := by
  unfold clientHello
  simp only
  split
  · rename_i n hn
    exact .inr ⟨hello, _, n, hm, rfl, hn⟩
  · exact .inl rfl

theorem dispatch_negotiated : w.Renegotiates e (w.dispatch A channel e env).1.conn.negotiated := by
  unfold dispatch dispatchSwept
  split
  · exact .inl rfl
  · rename_i m hm
    split
    · exact .inl rfl
    · split
      · left
        unfold forwardMessage
        split <;> rfl
      · split
        · by_cases hello : ∃ h, m = .clientHello h
          · obtain ⟨h, rfl⟩ := hello
            exact clientHello_negotiated (w := w.sweep) hm e.requestId
          · exact .inl (onControl_negotiated fun h hh => hello ⟨h, hh⟩)
        · exact .inl (onChannel_negotiated m)

/-- Only a hello moves what was negotiated. -/
theorem step_negotiated (w : World V) (i : Input) :
    (w.step A i).1.conn.negotiated = w.conn.negotiated ∨
      ∃ channel e env, i = .message channel e env ∧ w.Renegotiates e (w.step A i).1.conn.negotiated := by
  cases i with
  | message channel e env =>
    simp only [step]
    split
    · exact .inl rfl
    · exact .inr ⟨channel, e, env, rfl, dispatch_negotiated⟩
  | resume env => exact .inl resume_negotiated
  | channelClosed channel =>
    left
    simp only [step, channelClosed, detach]
    repeat' split
    all_goals rfl
  | gone =>
    left
    simp only [step]
    split <;> rfl
  | upload a input =>
    left
    simp only [step]
    split <;> rfl
  | forwardEnds t => exact .inl rfl
  | manager op => exact .inl rfl

end World

theorem negotiated_max {hello : ClientHello} {capabilities : List Capability} {datagrams : Bool} {n : Negotiated}
    (h : negotiateServer hello capabilities Protocol.frameBytesDefault 1200 datagrams = .ok n) :
    n.maxFrameBytes = min (min hello.maxFrameBytes Protocol.frameBytesDefault) frameBytesCeiling := by
  unfold negotiateServer at h
  split at h
  · cases h
  · split at h
    · cases h
    · split at h
      · cases h
      · obtain rfl := Except.ok.inj h
        rfl

theorem negotiated_toNat {hello : ClientHello} {capabilities : List Capability} {datagrams : Bool} {n : Negotiated}
    (h : negotiateServer hello capabilities Protocol.frameBytesDefault 1200 datagrams = .ok n) :
    n.maxFrameBytes.toNat = min hello.maxFrameBytes.toNat 262144 := by
  have hdefault : Protocol.frameBytesDefault.toNat = 262144 := rfl
  have hceiling : frameBytesCeiling.toNat = 1048576 := rfl
  rw [negotiated_max h, uint32_toNat_min, uint32_toNat_min, hdefault, hceiling]
  omega

/-! ## Frames that are accepted -/

section

variable {V D : Type} {A : App V} {C : Codec Outgoing D} {l : Link V}

/-- The agreed size is never above the default. -/
def Link.Capped (l : Link V) : Prop := ∀ n, l.world.conn.negotiated = some n → n.maxFrameBytes.toNat ≤ 262144

theorem link_world (l : Link V) (i : LinkInput) :
    ((Link.machine A C).next l i).world = l.world ∨ ∃ j, i = .conn j ∧ ((Link.machine A C).next l i).world =
    (l.world.step A j).1 := by
  cases i with
  | conn j => exact .inr ⟨j, rfl, rfl⟩
  | task channel m => exact .inl rfl
  | hand =>
    left
    show (l.hand C).1.world = l.world
    unfold Link.hand
    repeat' split
    all_goals rfl
  | register | write channel ok | finish =>
    left
    show (l.routed _).1.world = l.world
    unfold Link.routed
    split <;> rfl

theorem capped_step (h : l.Capped) (i : LinkInput) : ((Link.machine A C).next l i).Capped := by
  intro n hn
  rcases link_world (A := A) (C := C) l i with hw | ⟨j, rfl, hw⟩
  · rw [hw] at hn
    exact h n hn
  · rw [hw] at hn
    rcases World.step_negotiated (A := A) l.world j with hsame
      | ⟨channel, e, env, rfl, hsame | ⟨hello, capabilities, n', -, hn', hneg⟩⟩
    · exact h n (hsame ▸ hn)
    · exact h n (hsame ▸ hn)
    · obtain rfl : n = n' := Option.some.inj (hn.symm.trans hn')
      rw [negotiated_toNat hneg]
      exact Nat.min_le_right _ _

theorem accepts_capped (h : l.Capped) : l.Accepts := by
  intro E D K hinv
  have hmax : l.world.conn.maxFrameBytes.toNat ≤ Protocol.frameBytesDefault.toNat := by
    unfold Conn.maxFrameBytes
    cases hn : l.world.conn.negotiated with
    | none => exact Nat.le_refl _
    | some n => exact h n hn
  split
  · intro channel e hchannel hfit
    exact decodeMessage_frame hfit (hinv e) hchannel
  · intro envelopes reads hfit hreads
    exact feedAll_frames (fun e he => (hfit e he).trans hmax) (fun e _ => hinv e) hreads

theorem fresh_capped (h : Link.Fresh C l) : l.Capped := by
  intro n hn
  cases h <;> cases hn

/-- Whatever was agreed, a frame of that size is accepted. -/
theorem accepts_run (h : Link.Fresh C l) (is : List LinkInput) : ((Link.machine A C).run l is).Accepts :=
  accepts_capped ((Link.machine A C).run_always (P := Link.Capped) (fun _ i hl => capped_step hl i) (fresh_capped h) is)

end

/-! ## Frames that are written -/

namespace Writers

/-- No frame of the queue is longer than `b`, nor is the one that would replace them. -/
def WtChannelQueue.Short (b : Nat) (q : WtChannelQueue) : Prop :=
  q.overloadFrame.length ≤ b ∧ ∀ f ∈ q.state.frames, f.length ≤ b

theorem short_call {b : Nat} {q q' : WtChannelQueue} {c : QueueCall} {o : Outcome} (h : q.Short b)
    (hpush : ∀ f, c = .push f → f.length ≤ b) (hc : Called q c q' o) :
    q'.Short b ∧ ∀ f, o = .returned f → f.length ≤ b := by
  obtain ⟨-, -, ho⟩ := called_limits hc
  refine ⟨⟨by rw [ho]; exact h.1, ?_⟩, ?_⟩
  · intro f hf
    cases hc with
    | refused => exact h.2 f hf
    | waits => exact h.2 f hf
    | closed => exact h.2 f hf
    | overflowed => rw [List.mem_singleton.mp hf]; exact h.1
    | @accepted frame =>
      rcases List.mem_append.mp hf with hf | hf
      · exact h.2 f hf
      · rw [List.mem_singleton.mp hf]
        exact hpush frame rfl
    | idle => exact h.2 f (by simpa using hf)
    | ended => exact h.2 f (by simpa using hf)
    | returned he => exact h.2 f (by rw [he]; exact List.mem_cons_of_mem _ hf)
  · rintro f rfl
    cases hc with
    | returned he => exact h.2 f (by rw [he]; exact List.mem_cons_self)

def WriterRouter.Short (b : Nat) (r : WriterRouter) : Prop :=
  r.overloadFrame.length ≤ b ∧ ∀ c l, r.queues.lookup c = some l → l.queue.Short b

section

variable {b : Nat} {r : WriterRouter}

theorem short_adjust (h : r.Short b) {channel : Nat} {f : Lane → Lane}
    (hf : ∀ l, r.queues.lookup channel = some l → (f l).queue.Short b) :
    WriterRouter.Short b { r with queues := r.queues.adjust channel f } := by
  refine ⟨h.1, ?_⟩
  intro c l hl
  obtain ⟨l₀, hl₀, rfl⟩ := Table.lookup_adjust_some.mp hl
  by_cases e : c = channel
  · subst e
    rw [if_pos rfl]
    exact hf l₀ hl₀
  · rw [if_neg e]
    exact h.2 c l₀ hl₀

theorem short_register (h : r.Short b) : r.register.Short b := by
  unfold WriterRouter.register
  split
  · refine ⟨h.1, ?_⟩
    intro c l hl
    rcases Table.lookup_insert_some.mp hl with ⟨-, rfl⟩ | ⟨-, hl⟩
    · exact ⟨h.1, fun f hf => by cases hf⟩
    · exact h.2 c l (Table.within_retain _ _ c l hl)
  · exact h

theorem short_frame {E D : Type} {C : Codec E D}
    (hb : Protocol.lengthPrefixBytes + Protocol.frameBytesDefault.toNat ≤ b) (h : r.Short b)
    (channel : Nat) (envelope : E) : (r.frame C channel envelope).1.Short b := by
  unfold WriterRouter.frame
  split
  · split
    · exact h
    · split
      · rename_i bytes hbytes
        refine short_adjust h fun l hl => (short_call (h.2 channel l hl) ?_ (called l.queue _)).1
        rintro f ⟨rfl⟩
        exact (encodeDelimited_length hbytes).trans hb
      · exact h
  · exact h

theorem short_write (h : r.Short b) (channel : Nat) (ok : Bool) :
    (r.write channel ok).1.Short b ∧ ∀ x ∈ sentOf (r.write channel ok).2, x.2.length ≤ b := by
  unfold WriterRouter.write
  split
  · exact ⟨h, by simp [sentOf]⟩
  · rename_i l hl
    split
    · have hcall := short_call (h.2 channel l hl) (by simp) (called l.queue .next)
      refine ⟨short_adjust h fun l' hl' => ?_, ?_⟩
      · obtain rfl : l = l' := Option.some.inj (hl.symm.trans hl')
        exact hcall.1
      · intro x hx
        have := hcall.2
        cases ho : calls.out l.queue .next <;> simp_all [sentOf]
    · exact ⟨h, by simp [sentOf]⟩

theorem short_finish (h : r.Short b) : r.finish.1.Short b ∧ sentOf r.finish.2 = [] := by
  unfold WriterRouter.finish
  split
  · refine ⟨⟨h.1, ?_⟩, ?_⟩
    · intro c l hl
      have hl' : (r.queues.mapValues fun _ l => l.call .close).lookup c = some l := hl
      rw [Table.lookup_mapValues] at hl'
      obtain ⟨l₀, hl₀, rfl⟩ := Option.map_eq_some_iff.mp hl'
      exact (short_call (h.2 c l₀ hl₀) (by simp) (called l₀.queue .close)).1
    · simp [sentOf]
  · exact ⟨h, rfl⟩

end

end Writers

section

variable {V D : Type} {A : App V} {C : Codec Outgoing D} {l : Link V}

/-- A header, and the most a writer lets through behind it. -/
def longestFrame : Nat := Protocol.lengthPrefixBytes + 262144

/-- The client agreed to the default size, and nothing longer is on its way. -/
structure Link.AtDefault (l : Link V) : Prop where
  capped : l.Capped
  agreed : ∀ n, l.world.conn.negotiated = some n → n.maxFrameBytes.toNat = 262144
  short : ∀ r, l.carrier = .webTransport r → r.Short longestFrame

theorem fresh_atDefault (h : Link.Fresh C l) : l.AtDefault := by
  refine ⟨fresh_capped h, ?_, ?_⟩
  · intro n hn
    cases h <;> cases hn
  · intro r hr
    cases h with
    | webSocket => cases hr
    | webTransport m channelBinding hspawn =>
      cases hr
      unfold WriterRouter.spawn at hspawn
      split at hspawn
      · rename_i overloadFrame hencoded
        obtain rfl := Except.ok.inj hspawn
        exact ⟨encodeDelimited_length hencoded, fun c l hl => by simp at hl⟩
      · cases hspawn

theorem agreed_step {hello : ClientHello} (hlarge : 262144 ≤ hello.maxFrameBytes.toNat) {i : LinkInput} (hi : SaysHello hello i)
    (h : l.AtDefault) : ∀ n, ((Link.machine A C).next l i).world.conn.negotiated = some n → n.maxFrameBytes.toNat = 262144 := by
  intro n hn
  rcases link_world (A := A) (C := C) l i with hw | ⟨j, rfl, hw⟩
  · rw [hw] at hn
    exact h.agreed n hn
  · rw [hw] at hn
    rcases World.step_negotiated (A := A) l.world j with hsame
      | ⟨channel, e, env, rfl, hsame | ⟨hello', capabilities, n', hm, hn', hneg⟩⟩
    · exact h.agreed n (hsame ▸ hn)
    · exact h.agreed n (hsame ▸ hn)
    · obtain rfl : n = n' := Option.some.inj (hn.symm.trans hn')
      obtain rfl := hi hello' hm
      rw [negotiated_toNat hneg]
      omega

/-- The writers and what they send, one step on. -/
theorem short_step (h : l.AtDefault) (i : LinkInput) :
    (∀ r, ((Link.machine A C).next l i).carrier = .webTransport r → r.Short longestFrame) ∧
      ∀ x ∈ (Link.machine A C).out l i, x.2.length ≤ longestFrame := by
  have hrouted {f : WriterRouter → WriterRouter × Writers.RouterCalls}
      (hf : ∀ r, r.Short longestFrame → (f r).1.Short longestFrame ∧ ∀ x ∈ sentOf (f r).2, x.2.length ≤ longestFrame) :
      (∀ r, (l.routed f).1.carrier = .webTransport r → r.Short longestFrame) ∧ ∀ x ∈ (l.routed f).2,
        x.2.length ≤ longestFrame := by
    unfold Link.routed
    split
    · exact ⟨h.short, by simp⟩
    · rename_i r hr
      obtain ⟨hnext, hsent⟩ := hf r (h.short r hr)
      exact ⟨by rintro r' ⟨rfl⟩; exact hnext, hsent⟩
  cases i with
  | conn j => exact ⟨h.short, fun x hx => by cases hx⟩
  | task channel m => exact ⟨h.short, fun x hx => by cases hx⟩
  | register => exact hrouted fun r hr => ⟨Writers.short_register hr, by simp [sentOf]⟩
  | write channel ok => exact hrouted fun r hr => Writers.short_write hr channel ok
  | finish =>
    refine hrouted fun r hr => ⟨(Writers.short_finish hr).1, ?_⟩
    rw [(Writers.short_finish hr).2]
    simp
  | hand =>
    show (∀ r, (l.hand C).1.carrier = .webTransport r → r.Short longestFrame) ∧ ∀ x ∈ (l.hand C).2, x.2.length ≤ longestFrame
    unfold Link.hand
    split
    · exact ⟨h.short, by simp⟩
    · split
      · rename_i hws
        split
        · rename_i frame hframe
          refine ⟨h.short, ?_⟩
          intro x hx
          rw [List.mem_singleton.mp hx]
          exact encodeDelimited_length hframe
        · exact ⟨h.short, by simp⟩
      · rename_i r hr
        refine ⟨?_, by simp⟩
        rintro r' ⟨rfl⟩
        exact Writers.short_frame (Nat.le_refl _) (h.short r hr) _ _

theorem honoured_at_default {hello : ClientHello} (hlarge : 262144 ≤ hello.maxFrameBytes.toNat) (hfresh : Link.Fresh C l)
    {is : List LinkInput} (his : ∀ i ∈ is, SaysHello hello i) : Link.Honoured A C l is := by
  refine (Link.machine A C).admissible_of_invariant (P := Link.AtDefault) ?_ (fresh_atDefault hfresh)
    ((Link.machine A C).admissible_of_forall his l)
  intro l i hl hi
  obtain ⟨hshort, hsent⟩ := short_step (A := A) (C := C) hl i
  refine ⟨⟨?_, accepts_capped hl.capped⟩, ⟨capped_step hl.capped i, agreed_step hlarge hi hl, hshort⟩⟩
  intro n hn x hx
  rw [hl.agreed n hn]
  exact hsent x hx

end

/-! ## A screen that is larger than agreed -/

/-- The large replies as they are on the wire. -/
def tallCodec : Codec Outgoing Unit where
  encode
    | .reply r => (largeReplies r).encode r
    | _ => []
  decode _ := .error ()

def negotiatedWorld (n : Negotiated) : World AlignedScreen :=
  let w : World AlignedScreen := .initial false [] Manager.empty
  { w with conn := { w.conn with negotiated := some n } }

def tallScreen : List Input :=
  [sampleMessage 0 (.authenticate none) 0, sampleMessage 0 (.openShell "" "" 3 52409 (List.replicate 16 9)) 1,
    .manager (.pumpChunk sampleShell [0x1b, 0x23, 0x38])]

def tallWorld (n : Negotiated) : World AlignedScreen := (World.machine App.aligned).run (negotiatedWorld n) tallScreen

def tallAttach : Envelope := ⟨268435456, [], sampleShell.toWire, some (.attachShell (List.replicate 32 1) 0 0)⟩

def tallLink : Link AlignedScreen := ⟨.initial false [] Manager.empty, [], .webSocket⟩

def greeting (hello : ClientHello) : List LinkInput := [.conn (sampleMessage 0 (.clientHello hello) 0), .hand]

theorem greeting_run {hello : ClientHello} {n : Negotiated}
    (h : negotiateServer hello [] Protocol.frameBytesDefault 1200 false = .ok n) :
    (Link.machine App.aligned tallCodec).run tallLink (greeting hello) = ⟨negotiatedWorld n, [], .webSocket⟩ := by
  have hstep : tallLink.world.step App.aligned (sampleMessage 0 (.clientHello hello) 0) =
      (negotiatedWorld n, ⟨[(0, respond 1 (.serverHello (serverHello n keepaliveIntervalMs)))], some true, []⟩) := by
    show World.clientHello App.aligned (World.initial false [] Manager.empty).sweep (.sample 0) 1 hello = _
    unfold World.clientHello
    have hc : negotiateServer hello ((if App.aligned.uploads.isSome then [Capability.fileTransfer] else []) ++
    (if App.aligned.forwardUsers.isEmpty then [] else [Capability.tcpForward])) Protocol.frameBytesDefault 1200
      ((World.initial false [] Manager.empty : World AlignedScreen).sweep.conn.transportDatagrams) = .ok n := h
    simp only [hc]
    rfl
  show (Link.machine App.aligned tallCodec).next ((Link.machine App.aligned tallCodec).next tallLink (.conn _)) .hand = _
  have h1 : (Link.machine App.aligned tallCodec).next tallLink (.conn (sampleMessage 0 (.clientHello hello) 0)) =
     ⟨negotiatedWorld n, [(0, .reply (respond 1 (.serverHello (serverHello n keepaliveIntervalMs))))], .webSocket⟩ := by
    show Link.mk (tallLink.world.step App.aligned (sampleMessage 0 (.clientHello hello) 0)).1 _ _ = _
    rw [hstep]
    rfl
  rw [h1]
  rfl

def tallRun : List LinkInput :=
  [.conn (sampleMessage 0 (.authenticate none) 0), .hand,
    .conn (sampleMessage 0 (.openShell "" "" 3 52409 (List.replicate 16 9)) 1),
    .hand, .conn (.manager (.pumpChunk sampleShell [0x1b, 0x23, 0x38]))]

theorem tallRun_run (n : Negotiated) :
    (Link.machine App.aligned tallCodec).run ⟨negotiatedWorld n, [], .webSocket⟩ tallRun =
    ⟨tallWorld n, [], .webSocket⟩ := rfl

theorem bytes_length_ascii {t : Text} (h : ∀ c ∈ t, c.utf8Size = 1) : (Text.bytes t).length = t.length := by
  induction t with
  | nil => rfl
  | cons c t ih =>
    obtain ⟨hc, ht⟩ := List.forall_mem_cons.mp h
    have := ih ht
    simp only [Text.bytes, List.flatMap_cons, List.length_append, String.length_utf8EncodeChar, List.length_cons] at this ⊢
    omega

/-- Five bytes for every row but the last, which has three, and where the cursor is. -/
theorem dump_bytes (rows : Nat) : (Text.bytes (AlignedScreen.dump ⟨3, rows, .ground, true⟩)).length = 5 * (rows - 1) + 17 := by
  rw [bytes_length_ascii]
  · simp only [AlignedScreen.dump, if_true, AlignedScreen.row, List.length_append, List.length_flatten,
      List.map_replicate, List.sum_replicate, List.length_cons, List.length_nil]
    simp
    omega
  · intro c hc
    have hrow : (AlignedScreen.row 3 ++ ['\r', '\n']).all (·.utf8Size == 1) = true := by decide +kernel
    have hcursor : (AlignedScreen.row 3 ++ "\x1b[0m\x1b[1;1H\x1b[0m".toList).all (·.utf8Size == 1) = true := by decide +kernel
    simp only [AlignedScreen.dump, if_true, List.append_nil, List.append_assoc] at hc
    rcases List.mem_append.mp hc with hc | hc
    · obtain ⟨r, hr, hc⟩ := List.mem_flatten.mp hc
      rw [(List.mem_replicate.mp hr).2] at hc
      exact beq_iff_eq.mp (List.all_eq_true.mp hrow c hc)
    · exact beq_iff_eq.mp (List.all_eq_true.mp hcursor c hc)

theorem tall_screen (n : Negotiated) : ((tallWorld n).sweep.manager.shells.lookup sampleShell).map (fun entry =>
      (entry.runtime.model.vt, entry.runtime.model.modes.restoreSequence, entry.runtime.model.revision,
        entry.runtime.model.oldestLineId, entry.runtime.model.newestLineId)) =
        some (⟨3, 52409, .ground, true⟩, [], 2, 0, 0) := rfl

def tallReply (n : Negotiated) : Step AlignedScreen :=
  (tallWorld n).sweep.attach App.aligned (.sample 2) 1 tallAttach (List.replicate 32 1) 0 0

theorem tall_step (n : Negotiated) : (tallWorld n).step App.aligned (.message 1 tallAttach (.sample 2)) = tallReply n := rfl

theorem tall_replies (n : Negotiated) : ∃ reply, (tallReply n).2.replies = [(1, reply)] ∧ isAttached reply = true := ⟨_, rfl, rfl⟩

/-- The reply that attaches has the size of the largest frame there is. -/
theorem tall_length (n : Negotiated) :
    ∃ reply, (tallReply n).2.replies = [(1, reply)] ∧ (tallCodec.encode (.reply reply)).length = 262144 := by
  obtain ⟨reply, hreplies, hattached⟩ := tall_replies n
  refine ⟨reply, hreplies, ?_⟩
  unfold isAttached at hattached
  split at hattached
  · rename_i a ha
    have hmem : (1, reply) ∈ (tallReply n).2.replies := by rw [hreplies]; exact List.mem_singleton_self _
    obtain ⟨id, entry, hid, hentry, hanswer, rfl, -⟩ := attach_replies hmem ha
    have hshell : ShellId.fromWire tallAttach.shellId = some sampleShell := fromWire_sample .close
    rw [hshell, Option.some.injEq] at hid
    subst hid
    have hscreen := tall_screen n
    rw [hentry, Option.map_some, Option.some.injEq, Prod.mk.injEq, Prod.mk.injEq, Prod.mk.injEq, Prod.mk.injEq] at hscreen
    obtain ⟨hvt, hmodes, hrevision, holdest, hnewest⟩ := hscreen
    have hsnapshot : a.snapshot.length = 262057 := by
      rw [hanswer]
      show (Text.bytes (AlignedScreen.dump entry.runtime.model.vt) ++
        Text.bytes entry.runtime.model.modes.restoreSequence).length = _
      rw [hvt, hmodes, List.length_append, dump_bytes]
      rfl
    have hrest : a.screenRevision = 2 ∧ a.oldestHistoryLineId = 0 ∧ a.newestHistoryLineId = 0 := by
      rw [hanswer]
      exact ⟨hrevision, holdest, hnewest⟩
    have hserver : App.aligned.serverId.toWire.length = 16 := by simp [ServerId.toWire, Protocol.toWire]
    have hlen : tallAttach.shellId.length = 16 := by decide
    show (envelopeBytes tallAttach.requestId App.aligned.serverId.toWire tallAttach.shellId shellAttachedField
      (shellAttachedBytes a)).length = _
    rw [attached_length _ hserver hlen, hsnapshot, hrest.1, hrest.2.1, hrest.2.2]
    have hid : (Protobuf.varint tallAttach.requestId.toNat).length = 5 := Protobuf.varint_length (k := 4) (by decide) (by decide)
    have hscreen : (Protobuf.varint 262057).length = 3 := Protobuf.varint_length (k := 2) (by decide) (by decide)
    have hmessage : (Protobuf.varint
        (bytesSize 262057 + numberSize 2 + bytesSize 32 + numberSize 0 + numberSize 0)).length = 3 := by
      refine Protobuf.varint_length (k := 2) ?_ ?_ <;> simp [bytesSize, numberSize, Protobuf.varint_small, hscreen]
    simp only [attachedSize, hmessage]
    simp [bytesSize, numberSize, Protobuf.varint_small, hscreen, hid]
    decide
  · cases hattached

/-- A session of a client that says `hello`, up to the reply to its attach. -/
def tallSession (hello : ClientHello) : List LinkInput :=
  greeting hello ++ (tallRun ++ [.conn (.message 1 tallAttach (.sample 2))])

theorem tallSession_run {hello : ClientHello} {n : Negotiated}
    (h : negotiateServer hello [] Protocol.frameBytesDefault 1200 false = .ok n) :
    (Link.machine App.aligned tallCodec).run tallLink (tallSession hello) =
      ⟨(tallReply n).1, (tallReply n).2.replies.map fun x => (x.1, .reply x.2), .webSocket⟩ := by
  rw [tallSession, Machine.run_append, greeting_run h, Machine.run_append, tallRun_run]
  show Link.mk ((tallWorld n).step App.aligned _).1 _ _ = _
  rw [tall_step]
  rfl

/-- An attach to a screen of three columns and 52409 rows, for a client that agreed to less. -/
theorem tall_screen_overruns {hello : ClientHello} {n : Negotiated}
    (h : negotiateServer hello [] Protocol.frameBytesDefault 1200 false = .ok n) (hsmall : hello.maxFrameBytes.toNat < 262144) :
    ¬ Link.Honoured App.aligned tallCodec tallLink (tallSession hello ++ [.hand]) := by
  intro hall
  have hfits := ((Machine.admissible_snoc _).mp hall).2.1
  obtain ⟨reply, hreplies, hlength⟩ := tall_length n
  rw [tallSession_run h, hreplies] at hfits
  have hencoded : encodeDelimited tallCodec (.reply reply) Protocol.frameBytesDefault = .ok (frameOf tallCodec (.reply reply)) :=
    encodeDelimited_ok (Nat.le_of_eq hlength)
  have hlong := hfits n rfl (1, frameOf tallCodec (.reply reply)) (by
    show _ ∈ (Link.hand tallCodec _).2
    simp only [Link.hand, List.map_cons, hencoded]
    exact List.mem_singleton_self _)
  rw [frameOf, List.length_append, toBeBytes_length, hlength, negotiated_toNat h] at hlong
  omega

/-- What is refused or accepted has nothing to do with the capabilities and the datagrams. -/
theorem negotiate_any {hello : ClientHello} {capabilities : List Capability} {datagrams : Bool} {n : Negotiated}
    (h : negotiateServer hello capabilities Protocol.frameBytesDefault 1200 datagrams = .ok n) :
    ∃ n', negotiateServer hello [] Protocol.frameBytesDefault 1200 false = .ok n' := by
  unfold negotiateServer at h ⊢
  split at h
  · cases h
  · rename_i hmajor
    rw [if_neg hmajor]
    split at h
    · cases h
    · rename_i hutf8
      rw [if_neg hutf8]
      split at h
      · cases h
      · rename_i hfloor
        rw [if_neg hfloor]
        exact ⟨_, rfl⟩

theorem tallSession_greets (hello : ClientHello) : ∀ i ∈ tallSession hello ++ [.hand], SaysHello hello i := by
  intro i hi
  simp only [tallSession, greeting, tallRun, List.cons_append, List.nil_append, List.mem_cons, List.not_mem_nil, or_false] at hi
  rcases hi with rfl | rfl | rfl | rfl | rfl | rfl | rfl | rfl | rfl
  · intro h hh
    cases hh
    rfl
  all_goals first
    | trivial
    | (intro h hh; cases hh)

/-- For a hello the daemon accepts: over every run of a connection on which the client says
    it, on either carrier, every frame written is within the agreed size and every frame of
    that size is accepted, exactly if the hello proposes the default size or more. -/
theorem frame_size_honoured_iff {hello : ClientHello} {capabilities : List Capability} {datagrams : Bool} {n : Negotiated}
    (h : negotiateServer hello capabilities Protocol.frameBytesDefault 1200 datagrams = .ok n) :
    (∀ (V D : Type) (A : App V) (C : Codec Outgoing D) (l : Link V), Link.Fresh C l →
      ∀ is, (∀ i ∈ is, SaysHello hello i) → Link.Honoured A C l is) ↔ Protocol.frameBytesDefault ≤ hello.maxFrameBytes := by
  have hdefault : Protocol.frameBytesDefault.toNat = 262144 := rfl
  rw [UInt32.le_iff_toNat_le, hdefault]
  constructor
  · intro hall
    obtain ⟨n', hn'⟩ := negotiate_any h
    by_contra hsmall
    exact tall_screen_overruns hn' (Nat.lt_of_not_le hsmall)
      (hall _ _ App.aligned tallCodec tallLink (.webSocket Manager.empty) _ (tallSession_greets hello))
  · intro hlarge V D A C l hfresh is his
    exact honoured_at_default hlarge hfresh his

/-- The smallest size there is. -/
def smallHello : ClientHello := { sampleHello with maxFrameBytes := 16 * 1024 }

theorem frame_size_honoured_small :
    (∀ (V D : Type) (A : App V) (C : Codec Outgoing D) (l : Link V), Link.Fresh C l →
      ∀ is, (∀ i ∈ is, SaysHello smallHello i) → Link.Honoured A C l is) ↔
      Protocol.frameBytesDefault ≤ smallHello.maxFrameBytes :=
  @frame_size_honoured_iff smallHello [] false ⟨0, 3, [], 16 * 1024, 1200⟩ rfl

theorem small_frames_overrun : ¬ Link.Honoured App.aligned tallCodec tallLink (tallSession smallHello ++ [.hand]) :=
  tall_screen_overruns (n := ⟨0, 3, [], 16 * 1024, 1200⟩) rfl (by decide)

end Holdfast.Daemon

/-
  Holdfast.Client.Pairing — history requests of one attachment and their replies
  (`spawn_pumps` of `crates/client-core/src/shell.rs`, against `dispatch` of
  `crates/daemon/src/conn.rs`).

  Two tasks share a FIFO: the writer puts the reply of a request at its end before it
  sends the request, the reader takes the first off for each reply frame. The daemon
  answers a request with a chunk and an end, or with an error. Both the chunk and the end
  take one off the FIFO ("a request that yielded no chunk still gets an answer"), and an
  error takes none.

  Proved:
  - `inv_step`: what one step keeps, while every end finds the FIFO empty.
  - `history_paired`: every run of such steps resolves each request once, in order, with
    its own page, and leaves none once all frames have arrived.
-/

import Holdfast.Base.Machine
import Holdfast.Client.Readers
import Holdfast.Terminal.History

namespace Holdfast.Client

open Holdfast.Base Holdfast.Daemon Holdfast.Session Holdfast.Terminal

structure HistoryRequest where
  beforeLineId : UInt64
  maximumLines : UInt32
  deriving DecidableEq, Repr

/-- `request_history` of the native client. -/
def requestedBytes : UInt32 := 128 * 1024

/-- What the daemon finds when it takes a request. -/
inductive Lookup where
  /-- No attachment on the channel. -/
  | unattached
  | failed (e : SessionError)
  /-- The shell's ring; the bounds are read again for the end, after the chunk is sent. -/
  | found (ring : HistoryRing) (oldest : Nat)
  deriving DecidableEq, Repr

def HistoryPage.ofRange (range : HistoryRange) : HistoryPage :=
  ⟨range.lines.map String.ofList, range.firstLineId, range.truncatedByEviction⟩

def pageFor (maxFrameBytes : UInt32) (r : HistoryRequest) (ring : HistoryRing) : HistoryPage :=
  .ofRange (ring.range r.beforeLineId.toNat (min r.maximumLines 10000).toNat
    (min requestedBytes (maxFrameBytes / 2)).toNat)

/-- The page of a request, if it has one. -/
def computedPage (maxFrameBytes : UInt32) (r : HistoryRequest) : Lookup → Option HistoryPage
  | .unattached | .failed _ => none
  | .found ring _ => some (pageFor maxFrameBytes r ring)

def chunk (page : HistoryPage) : Msg := .historyChunk page.firstLineId page.lines page.truncatedByEviction

/-- `dispatch` of a `RequestHistory`. -/
def historyFrames (maxFrameBytes : UInt32) (r : HistoryRequest) : Lookup → List Msg
  | .unattached => [.error .errNotFound "no attachment on channel" false]
  | .failed e => [sessionError e]
  | .found ring oldest => [chunk (pageFor maxFrameBytes r ring), .historyEnd oldest]

structure Pairing where
  /-- The requests the writer took on. A request is named by its place here. -/
  accepted : List HistoryRequest
  pendingHistory : List Nat
  /-- Sent and not yet taken by the daemon. -/
  outbound : List HistoryRequest
  inbound : List Msg
  /-- The reader task is there. -/
  reading : Bool
  /-- What the daemon computed, request by request. -/
  computed : List (Option HistoryPage)
  resolved : List (Nat × HistoryPage)
  deriving DecidableEq, Repr

inductive PairingInput where
  /-- The writer takes a `WriterCmd::History`. -/
  | request (r : HistoryRequest)
  /-- The daemon takes the next request. -/
  | serve (found : Lookup)
  /-- The daemon sends something else on the channel. -/
  | output (data : List UInt8)
  | ping (nonce : UInt64)
  /-- The reader takes the next frame. -/
  | deliver
  deriving DecidableEq, Repr

namespace Pairing

def start : Pairing := ⟨[], [], [], [], true, [], []⟩

/-- `ctx_pop`, and the reply to what it gives. -/
def answer (p : Pairing) (page : HistoryPage) : Pairing :=
  match p.pendingHistory with
  | [] => p
  | i :: rest => { p with pendingHistory := rest, resolved := p.resolved ++ [(i, page)] }

def take (p : Pairing) : Msg → Pairing
  | .historyChunk firstLineId lines truncated => p.answer ⟨lines, firstLineId, truncated⟩
  | .historyEnd _ => p.answer ⟨[], 0, false⟩
  | .shellExited _ _ => { p with reading := false }
  | .error code _ _ => if code = .errTooSlow then { p with reading := false } else p
  | .terminalOutput _ => p
  | .ping _ => p
  | .other => p

def request (p : Pairing) (r : HistoryRequest) : Pairing :=
  if p.pendingHistory.length ≥ maxPendingHistory then p
  else
    { p with
      accepted := p.accepted ++ [r]
      pendingHistory := p.pendingHistory ++ [p.accepted.length]
      outbound := p.outbound ++ [r] }

variable (maxFrameBytes : UInt32)

def step (p : Pairing) : PairingInput → Pairing × Unit
  | .request r => (p.request r, ())
  | .serve found =>
    match p.outbound with
    | [] => (p, ())
    | r :: rest =>
      ({ p with
          outbound := rest
          inbound := p.inbound ++ historyFrames maxFrameBytes r found
          computed := p.computed ++ [computedPage maxFrameBytes r found] }, ())
  | .output data => ({ p with inbound := p.inbound ++ [.terminalOutput data] }, ())
  | .ping nonce => ({ p with inbound := p.inbound ++ [.ping nonce] }, ())
  | .deliver =>
    if p.reading = false then (p, ())
    else
      match p.inbound with
      | [] => (p, ())
      | m :: rest => (take { p with inbound := rest } m, ())

def machine : Machine Pairing PairingInput Unit := ⟨fun p i => p.step maxFrameBytes i⟩

/-- Requests are resolved once each, in order and with their own page; and all of them once
    every request is served and every frame taken. -/
structure Paired (p : Pairing) : Prop where
  once : p.resolved.map (·.1) = List.range p.resolved.length
  page : ∀ i page, (i, page) ∈ p.resolved → p.computed[i]? = some (some page)
  complete : p.outbound = [] → p.inbound = [] → p.resolved.length = p.accepted.length

/-- An end is taken when nothing waits, and a request served finds its shell. -/
def inTurn (p : Pairing) : PairingInput → Bool
  | .deliver =>
    match p.inbound with
    | .historyEnd _ :: _ => p.pendingHistory.isEmpty
    | _ => true
  | .serve (.found _ _) => true
  | .serve _ => false
  | _ => true

abbrev InTurn (p : Pairing) (i : PairingInput) : Prop := p.inTurn i = true

/-! ## The invariant -/

/-- A frame of a reply: a page, or the end of one. -/
def replyOf : Msg → Option (Option HistoryPage)
  | .historyChunk firstLineId lines truncated => some (some ⟨lines, firstLineId, truncated⟩)
  | .historyEnd _ => some none
  | _ => none

/-- The frames that leave the reader running. -/
def goesOn : Msg → Bool
  | .historyChunk _ _ _ | .historyEnd _ | .terminalOutput _ | .ping _ => true
  | _ => false

/-- The replies still to come: a page and an end for each request. -/
def replies (computed : List (Option HistoryPage)) : List (Option HistoryPage) := computed.flatMap fun c => [c, none]

structure Inv (p : Pairing) : Prop where
  reading : p.reading = true
  served : p.accepted.length = p.computed.length + p.outbound.length
  once : p.resolved.map (·.1) = List.range p.resolved.length
  page : ∀ i page, (i, page) ∈ p.resolved → p.computed[i]? = some (some page)
  behind : p.resolved.length ≤ p.computed.length
  pending : p.pendingHistory = List.range' p.resolved.length (p.accepted.length - p.resolved.length)
  pages : ∀ c ∈ p.computed, c.isSome = true
  harmless : ∀ m ∈ p.inbound, goesOn m = true
  /-- An end is on its way alone when its page was taken. -/
  frames : ∃ lead, (lead = [] ∨ lead = [none]) ∧
    p.inbound.filterMap replyOf = lead ++ replies (p.computed.drop p.resolved.length)

theorem inv_start : Inv start where
  reading := rfl
  served := rfl
  once := rfl
  page := nofun
  behind := Nat.le_refl 0
  pending := rfl
  pages := nofun
  harmless := nofun
  frames := ⟨[], .inl rfl, rfl⟩

variable {maxFrameBytes} {p : Pairing}

theorem Inv.request (h : Inv p) (r : HistoryRequest) : Inv (p.request r) := by
  by_cases hfull : p.pendingHistory.length ≥ maxPendingHistory
  · rwa [Pairing.request, if_pos hfull]
  · rw [Pairing.request, if_neg hfull]
    have hserved := h.served
    have hbehind := h.behind
    refine ⟨h.reading, ?_, h.once, h.page, h.behind, ?_, h.pages, h.harmless, h.frames⟩
    · simp only [List.length_append, List.length_singleton]
      omega
    · simp only [List.length_append, List.length_singleton]
      rw [h.pending, show p.accepted.length + 1 - p.resolved.length = p.accepted.length - p.resolved.length + 1 by omega,
        List.range'_1_concat, show p.resolved.length + (p.accepted.length - p.resolved.length) = p.accepted.length by omega]

theorem Inv.serve (h : Inv p) {r : HistoryRequest} {rest : List HistoryRequest} (hout : p.outbound = r :: rest)
    (page : HistoryPage) (oldest : Nat) :
    Inv { p with
      outbound := rest
      inbound := p.inbound ++ [chunk page, .historyEnd oldest]
      computed := p.computed ++ [some page] } := by
  have hserved := h.served
  have hbehind := h.behind
  rw [hout, List.length_cons] at hserved
  obtain ⟨lead, hlead, hframes⟩ := h.frames
  refine ⟨h.reading, ?_, h.once, ?_, ?_, h.pending, ?_, ?_, lead, hlead, ?_⟩
  · simp only [List.length_append, List.length_singleton]
    omega
  · intro i page' hi
    have hold := h.page i page' hi
    rw [List.getElem?_append_left (List.getElem?_eq_some_iff.mp hold).1]
    exact hold
  · simp only [List.length_append, List.length_singleton]
    omega
  · intro c hc
    rcases List.mem_append.mp hc with hc | hc
    · exact h.pages c hc
    · rw [List.mem_singleton.mp hc]
      rfl
  · intro m hm
    rcases List.mem_append.mp hm with hm | hm
    · exact h.harmless m hm
    · rcases List.mem_pair.mp hm with rfl | rfl <;> rfl
  · rw [List.filterMap_append, hframes, List.drop_append_of_le_length hbehind, replies, replies, List.flatMap_append,
      List.append_assoc]
    rfl

/-- A frame that is no part of a reply. -/
theorem Inv.emit (h : Inv p) {m : Msg} (hm : goesOn m = true) (hreply : replyOf m = none) :
    Inv { p with inbound := p.inbound ++ [m] } := by
  obtain ⟨lead, hlead, hframes⟩ := h.frames
  refine ⟨h.reading, h.served, h.once, h.page, h.behind, h.pending, h.pages, ?_, lead, hlead, ?_⟩
  · intro x hx
    rcases List.mem_append.mp hx with hx | hx
    · exact h.harmless x hx
    · rw [List.mem_singleton.mp hx]
      exact hm
  · show (p.inbound ++ [m]).filterMap replyOf = _
    rw [List.filterMap_append, hframes, List.filterMap_cons_none hreply, List.filterMap_nil, List.append_nil]

/-- The page of the oldest request that waits. -/
theorem Inv.chunk (h : Inv p) {page : HistoryPage} {rest : List Msg} (hin : p.inbound = chunk page :: rest) :
    Inv (answer { p with inbound := rest } page) := by
  obtain ⟨lead, hlead, hframes⟩ := h.frames
  have hserved := h.served
  have hbehind := h.behind
  have hcons : p.inbound.filterMap replyOf = some page :: rest.filterMap replyOf := by rw [hin]; rfl
  rw [hcons] at hframes
  -- a page cannot be the end that is on its way alone
  have hnil : lead = [] := by
    rcases hlead with hlead | rfl
    · exact hlead
    · cases hframes
  rw [hnil, List.nil_append] at hframes
  cases hdrop : p.computed.drop p.resolved.length with
  | nil =>
    rw [hdrop] at hframes
    cases hframes
  | cons c cs =>
    rw [hdrop] at hframes
    obtain ⟨rfl, hrest⟩ : some page = c ∧ rest.filterMap replyOf = none :: replies cs := by
      simpa [replies] using hframes
    have hlt : p.resolved.length < p.computed.length := by
      have := congrArg List.length hdrop
      rw [List.length_drop, List.length_cons] at this
      omega
    have hget : p.computed[p.resolved.length]? = some (some page) := by
      have := congrArg List.head? hdrop
      rwa [List.head?_drop] at this
    have hpending : p.pendingHistory = p.resolved.length ::
        List.range' (p.resolved.length + 1) (p.accepted.length - (p.resolved.length + 1)) := by
      rw [h.pending, show p.accepted.length - p.resolved.length = p.accepted.length - (p.resolved.length + 1) + 1 by omega]
      exact List.range'_succ
    simp only [answer, hpending]
    refine ⟨h.reading, h.served, ?_, ?_, ?_, ?_, h.pages, ?_, [none], .inr rfl, ?_⟩
    · simp only [List.map_append, List.map_cons, List.map_nil, h.once, List.length_append, List.length_singleton,
        List.range_succ]
    · intro i page' hi
      rcases List.mem_append.mp hi with hi | hi
      · exact h.page i page' hi
      · cases List.mem_singleton.mp hi
        exact hget
    · simp only [List.length_append, List.length_singleton]
      omega
    · simp only [List.length_append, List.length_singleton]
    · intro m hm
      exact h.harmless m (by rw [hin]; exact List.mem_cons_of_mem _ hm)
    · have hnext : p.computed.drop (p.resolved.length + 1) = cs := by
        rw [← List.drop_drop, hdrop, List.drop_one, List.tail_cons]
      simp only [List.length_append, List.length_singleton, hnext]
      exact hrest

/-- The end of a reply whose page was taken; nothing waits. -/
theorem Inv.historyEnd (h : Inv p) {oldest : Nat} {rest : List Msg} (hin : p.inbound = .historyEnd oldest :: rest)
    (hidle : p.pendingHistory = []) : Inv (answer { p with inbound := rest } ⟨[], 0, false⟩) := by
  obtain ⟨lead, hlead, hframes⟩ := h.frames
  have hcons : p.inbound.filterMap replyOf = none :: rest.filterMap replyOf := by rw [hin]; rfl
  rw [hcons] at hframes
  simp only [answer, hidle]
  refine ⟨h.reading, h.served, h.once, h.page, h.behind, hidle ▸ h.pending, h.pages, ?_, [], .inl rfl, ?_⟩
  · intro m hm
    exact h.harmless m (by rw [hin]; exact List.mem_cons_of_mem _ hm)
  · rcases hlead with rfl | rfl
    · cases hdrop : p.computed.drop p.resolved.length with
      | nil =>
        rw [hdrop] at hframes
        cases hframes
      | cons c cs =>
        rw [hdrop] at hframes
        have hnone : none = c := by simpa [replies] using congrArg List.head? hframes
        have hsome := h.pages c (List.mem_of_mem_drop (hdrop ▸ List.mem_cons_self))
        rw [← hnone] at hsome
        cases hsome
    · exact (List.cons.inj hframes).2

/-- Any other frame that may come. -/
theorem Inv.skip (h : Inv p) {m : Msg} {rest : List Msg} (hin : p.inbound = m :: rest) (hreply : replyOf m = none) :
    Inv { p with inbound := rest } := by
  obtain ⟨lead, hlead, hframes⟩ := h.frames
  refine ⟨h.reading, h.served, h.once, h.page, h.behind, h.pending, h.pages, ?_, lead, hlead, ?_⟩
  · intro x hx
    exact h.harmless x (by rw [hin]; exact List.mem_cons_of_mem _ hx)
  · rw [hin, List.filterMap_cons_none hreply] at hframes
    exact hframes

theorem inv_deliver (h : Inv p) (hturn : p.InTurn .deliver) : Inv (p.step maxFrameBytes .deliver).1 := by
  have hreading : ¬p.reading = false := by rw [h.reading]; decide
  rw [step, if_neg hreading]
  cases hin : p.inbound with
  | nil => exact h
  | cons m rest =>
    have hharmless := h.harmless m (by rw [hin]; exact List.mem_cons_self)
    cases m with
    | terminalOutput data => exact h.skip hin rfl
    | ping nonce => exact h.skip hin rfl
    | historyChunk firstLineId lines truncated => exact @Inv.chunk _ h ⟨lines, firstLineId, truncated⟩ _ hin
    | historyEnd oldest =>
      simp only [InTurn, inTurn, hin, List.isEmpty_iff] at hturn
      exact h.historyEnd hin hturn
    | shellExited exitCode signaled => cases hharmless
    | error code text retryable => cases hharmless
    | other => cases hharmless

theorem inv_step (h : Inv p) (i : PairingInput) (hturn : p.InTurn i) : Inv (p.step maxFrameBytes i).1 := by
  cases i with
  | request r => exact h.request r
  | serve found =>
    cases found with
    | unattached => cases hturn
    | failed e => cases hturn
    | found ring oldest =>
      cases hout : p.outbound with
      | nil =>
        simp only [step, hout]
        exact h
      | cons r rest =>
        simp only [step, hout]
        exact h.serve hout (pageFor maxFrameBytes r ring) oldest
  | output data => exact h.emit rfl rfl
  | ping nonce => exact h.emit rfl rfl
  | deliver => exact inv_deliver h hturn

theorem Inv.paired (h : Inv p) : Paired p where
  once := h.once
  page := h.page
  complete hout hin := by
    obtain ⟨lead, -, hframes⟩ := h.frames
    have hserved := h.served
    have hbehind := h.behind
    rw [hin, List.filterMap_nil] at hframes
    have hdone : p.computed.drop p.resolved.length = [] := by
      cases hdrop : p.computed.drop p.resolved.length with
      | nil => rfl
      | cons c cs =>
        rw [hdrop] at hframes
        simp [replies] at hframes
    rw [List.drop_eq_nil_iff] at hdone
    rw [hout, List.length_nil] at hserved
    omega

/-- Every run whose ends find nothing waiting, and whose requests find their shell. -/
theorem history_paired (maxFrameBytes : UInt32) (is : List PairingInput)
    (h : (machine maxFrameBytes).Admissible InTurn start is) : Paired ((machine maxFrameBytes).run start is) :=
  Inv.paired ((machine maxFrameBytes).run_induction (P := Inv) (fun _ i hinv hturn => inv_step hinv i hturn) inv_start h)

/-- One page at a time: each reply is over before the next request. -/
theorem history_paired_in_turn :
    let r : HistoryRequest := ⟨0, 200⟩
    let found : Lookup := .found ((HistoryRing.new 10 100).pushAll ["$ ls".toList]) 1
    let is : List PairingInput := [.request r, .serve found, .deliver, .deliver, .request r, .serve found, .deliver, .deliver]
    (machine 262144).Admissible InTurn start is ∧ Paired ((machine 262144).run start is) :=
  ⟨by decide, history_paired 262144 _ (by decide)⟩

/-- Scrolling on after the first page, before its end is there: the end answers the second
    request, with an empty page the daemon never computed. -/
theorem end_answers_the_next_request :
    let r : HistoryRequest := ⟨0, 200⟩
    let found : Lookup := .found ((HistoryRing.new 10 100).pushAll ["$ ls".toList]) 1
    ¬Paired ((machine 262144).run start [.request r, .serve found, .deliver, .request r, .deliver]) := by
  intro r found h
  have hpage := h.page 1 ⟨[], 0, false⟩ (by decide)
  revert hpage
  decide

end Pairing

end Holdfast.Client

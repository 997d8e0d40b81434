/-
  Holdfast.Daemon.FrontDoor — sessions and streams bridged from a shared front door
  (`BridgeHeader` and `accept_connection` of `crates/daemon/src/frontdoor_bridge.rs`).

  Every bridge connection is accepted by a task of its own (`k`) under a deadline. One that
  opens a session is entered into the registry, acknowledged, handed to the daemon and then
  watched until its control connection ends; one that opens a stream is checked against the
  registry, reserves a place in its session's queue, is acknowledged and put there. A task
  waits only for its acknowledgement to be written, where it may fail or meet the deadline.
  The reads of the header come before all that and touch nothing shared.

  `BridgeSession` is what becomes of an accepted session: the queue of its streams, what the
  daemon has taken from it, and the stream ids that passed the checks.

  Proved, over every run in which no acknowledgement is cut off by the deadline, those of a
  session's streams end in the order of their ids and none fails, and a stream that passes
  the checks finds a place in the queue (`frontdoor_orderly`):
  - the registry holds exactly the live sessions, within the limit;
  - a session is given streams with its own metadata only, with the ids 1, 2, 3 and so on;
  - a stream that is refused leaves the registry as it was.
  Without that, a session whose acknowledgement meets the deadline stays in the registry for
  good, a stream refused for want of a place uses its id up, and of two streams that are
  acknowledged at the same time the second may come first (`frontdoor_disorderly`).
-/

import Holdfast.Base.Machine
import Holdfast.Base.Table
import Mathlib.Algebra.Group.Nat.Defs

namespace Holdfast.Daemon

open Holdfast.Base

/-! ## Headers -/

inductive IpAddr where
  | v4 (octets : List UInt8)
  | v6 (octets : List UInt8)
  deriving DecidableEq, Repr

structure BridgeHeader where
  kind : UInt8
  sessionId : List UInt8
  streamId : Nat
  remoteIp : IpAddr
  remotePort : Nat
  hostname : String
  channelBinding : List UInt8
  deriving DecidableEq, Repr

def headerMagic : List UInt8 := [68, 87, 77, 72, 51, 66, 48, 50]
def headerFixedBytes : Nat := 105
def hostnameBytesMax : Nat := 253
def kindSession : UInt8 := 1
def kindStream : UInt8 := 2

/-- `from_be_bytes`. -/
def fromBe (bytes : List UInt8) : Nat := bytes.foldl (fun n b => n * 256 + b.toNat) 0

def isLabelChar (c : Char) : Bool := ('a' ≤ c && c ≤ 'z') || ('0' ≤ c && c ≤ '9') || c == '-'

def hostLabel (label : List Char) : Bool :=
  !label.isEmpty && decide (label.length ≤ 63) && label.head? != some '-' && label.getLast? != some '-' && label.all isLabelChar

/-- Canonical lowercase DNS; `isIp` is whether the text parses as an address. -/
def validateHostname (isIp : String → Bool) (hostname : String) : Bool :=
  !hostname.isEmpty && decide (hostname.utf8ByteSize ≤ hostnameBytesMax) &&
    hostname.toList.getLast? != some '.' && !isIp hostname &&
    (hostname.toList.splitOn '.').all hostLabel

def BridgeHeader.validate (isIp : String → Bool) (h : BridgeHeader) : Except String Unit :=
  if validateHostname isIp h.hostname = false then .error "shared H3 front-door hostname must be canonical lowercase DNS"
  else if h.sessionId = List.replicate 32 0 ∨ h.channelBinding = List.replicate 32 0 ∨
      (h.kind = kindSession ∧ h.streamId ≠ 0) ∨ (h.kind = kindStream ∧ h.streamId = 0) ∨
      ¬(h.kind = kindSession ∨ h.kind = kindStream) ∨ h.remotePort = 0 then
    .error "shared H3 bridge header is invalid"
  else .ok ()

/-- `BridgeHeader::read`, from the bytes the connection begins with. -/
def BridgeHeader.read (isIp : String → Bool) (bytes : List UInt8) : Except String BridgeHeader :=
  let fixed := bytes.take headerFixedBytes
  let slice (a b : Nat) : List UInt8 := (fixed.take b).drop a
  if fixed.length < headerFixedBytes then .error "read shared H3 bridge header"
  else if slice 0 8 ≠ headerMagic ∨ slice 9 12 ≠ [0, 0, 0] then .error "shared H3 bridge magic or reserved bytes are invalid"
  else
    let address : Option IpAddr :=
      match slice 52 53 with
      | [4] => if (slice 53 69).drop 4 = List.replicate 12 0 then some (.v4 ((slice 53 69).take 4)) else none
      | [6] => some (.v6 (slice 53 69))
      | _ => none
    match address with
    | none => .error "shared H3 bridge address family is invalid"
    | some ip =>
      let hostnameLength := fromBe (slice 71 73)
      if hostnameLength = 0 ∨ hostnameLength > hostnameBytesMax then .error "shared H3 bridge hostname length is invalid"
      else
        let hostname := (bytes.drop headerFixedBytes).take hostnameLength
        if hostname.length < hostnameLength then .error "read shared H3 bridge hostname"
        else
          match String.fromUTF8? ⟨hostname.toArray⟩ with
          | none => .error "bridge hostname is not UTF-8"
          | some text =>
            let header : BridgeHeader :=
              ⟨(slice 8 9).headD 0, slice 12 44, fromBe (slice 44 52), ip, fromBe (slice 69 71), text, slice 73 105⟩
            match header.validate isIp with
            | .error e => .error e
            | .ok () => .ok header

/-! ## The bridge -/

structure SessionEntry where
  header : BridgeHeader
  /-- The session whose queue `streams` sends to. -/
  streams : Nat
  nextStreamId : Nat
  deriving DecidableEq, Repr

inductive SessionPhase where
  /-- Its acknowledgement is being written. -/
  | acking
  /-- Its control connection is being watched. -/
  | established
  | closed
  /-- The acknowledgement failed. -/
  | unacknowledged
  /-- The deadline cut the acknowledgement off. -/
  | abandoned
  deriving DecidableEq, Repr

structure BridgeSession where
  header : BridgeHeader
  phase : SessionPhase
  /-- The daemon has taken it from the queue of sessions. -/
  accepted : Bool
  /-- The stream queue has its receiver. -/
  receiver : Bool
  reserved : Nat
  queue : List BridgeHeader
  /-- Streams the daemon has taken. -/
  taken : List BridgeHeader
  /-- The ids that passed the checks, in that order. -/
  admitted : List Nat
  deriving DecidableEq, Repr

/-- A stream connection whose acknowledgement is being written. -/
structure StreamTask where
  header : BridgeHeader
  session : Nat
  deriving DecidableEq, Repr

structure BridgeConfig where
  frontdoorUid : Nat
  hostname : String
  maximumSessions : Nat
  maximumStreams : Nat
  isIp : String → Bool

structure Bridge where
  entries : Table (List UInt8) SessionEntry
  sessions : Table Nat BridgeSession
  streams : Table Nat StreamTask

inductive BridgeInput where
  | connect (k : Nat) (uid : Nat) (bytes : List UInt8)
  /-- The write of the acknowledgement ends. -/
  | acked (k : Nat) (ok : Bool)
  /-- The handshake deadline. -/
  | timeout (k : Nat)
  | accept (k : Nat)
  /-- The control connection ends, or sends a byte. -/
  | controlEnds (k : Nat)
  | takeStream (k : Nat)
  | dropSession (k : Nat)
  deriving DecidableEq, Repr

inductive BridgeAnswer where
  | none
  | refused (why : String)
  | streamRefused (why : String)
  | streamFailed
  | sessionFailed
  deriving DecidableEq, Repr

/-- Being acknowledged, or watched. -/
def BridgeSession.live (s : BridgeSession) : Bool := s.phase = .acking || s.phase = .established

/-- Holds a place in the queue of sessions. -/
def BridgeSession.waits (s : BridgeSession) : Bool :=
  s.phase = .acking || ((s.phase = .established || s.phase = .closed) && !s.accepted)

/-- All that was put into the queue. -/
def BridgeSession.delivered (s : BridgeSession) : List BridgeHeader := s.taken ++ s.queue

/-- The same peer, name and certificate. -/
def BridgeHeader.sameMetadata (a b : BridgeHeader) : Bool :=
  a.hostname = b.hostname && a.remoteIp = b.remoteIp && a.remotePort = b.remotePort && a.channelBinding = b.channelBinding

namespace Bridge

variable (C : BridgeConfig)

def start : Bridge := ⟨∅, ∅, ∅⟩

def putSession (w : Bridge) (k : Nat) (s : BridgeSession) : Bridge := { w with sessions := w.sessions.adjust k fun _ => s }

def admitSession (w : Bridge) (k : Nat) (header : BridgeHeader) : Bridge × BridgeAnswer :=
  if w.sessions.count BridgeSession.waits ≥ C.maximumSessions then (w, .refused "shared H3 bridge session queue is full")
  else if w.entries.entries.length ≥ C.maximumSessions ∨ (w.entries.lookup header.sessionId).isSome then
    (w, .refused "shared H3 bridge session capacity or identity is invalid")
  else
    ({ w with
        entries := w.entries.insert header.sessionId ⟨header, k, 1⟩
        sessions := w.sessions.insert k ⟨header, .acking, false, true, 0, [], [], []⟩ }, .none)

/-- Does the entry expect this stream next? -/
def expects (e : SessionEntry) (header : BridgeHeader) : Bool :=
  e.header.sameMetadata header && header.streamId = e.nextStreamId

/-- `try_reserve_owned`. -/
def hasRoom (s : BridgeSession) : Bool := s.receiver && decide (s.queue.length + s.reserved < C.maximumStreams)

def admitStream (w : Bridge) (k : Nat) (header : BridgeHeader) : Bridge × BridgeAnswer :=
  match w.entries.lookup header.sessionId with
  | none => (w, .streamRefused "shared H3 bridge stream names no live session")
  | some e =>
    if expects e header = false then (w, .streamRefused "shared H3 bridge stream metadata does not match its session")
    -- `checked_add`
    else if e.nextStreamId + 1 ≥ 2 ^ 64 then (w, .streamRefused "shared H3 bridge stream identity exhausted")
    else
      let w := { w with entries := w.entries.adjust header.sessionId fun e => { e with nextStreamId := e.nextStreamId + 1 } }
      match w.sessions.lookup e.streams with
      | none => (w, .none)
      | some s =>
        let s := { s with admitted := s.admitted ++ [header.streamId] }
        if hasRoom C s then
          ({ w with streams := w.streams.insert k ⟨header, e.streams⟩ }.putSession e.streams
            { s with reserved := s.reserved + 1 },
            .none)
        else (w.putSession e.streams s, .streamRefused "shared H3 bridge stream capacity is exhausted")

/-- `accept_connection` up to its acknowledgement. -/
def connect (w : Bridge) (k uid : Nat) (bytes : List UInt8) : Bridge × BridgeAnswer :=
  if uid ≠ C.frontdoorUid then (w, .refused "shared H3 front-door UID is not authorized")
  else
    match BridgeHeader.read C.isIp bytes with
    | .error why => (w, .refused why)
    | .ok header =>
      if header.hostname ≠ C.hostname then (w, .refused "shared H3 bridge hostname is not authorized")
      else if header.kind = kindSession then w.admitSession C k header
      else w.admitStream C k header

/-- A reserved place is given back. -/
def release (w : Bridge) (k : Nat) (t : StreamTask) : Bridge :=
  { w with
    streams := w.streams.erase k
    sessions := w.sessions.adjust t.session fun s => { s with reserved := s.reserved - 1 } }

/-- `permit.send`. -/
def deliver (w : Bridge) (k : Nat) (t : StreamTask) : Bridge :=
  { w with
    streams := w.streams.erase k
    sessions := w.sessions.adjust t.session fun s => { s with reserved := s.reserved - 1, queue := s.queue ++ [t.header] } }

def acked (w : Bridge) (k : Nat) (ok : Bool) : Bridge × BridgeAnswer :=
  match w.sessions.lookup k with
  | some s =>
    if s.phase = .acking then
      if ok then (w.putSession k { s with phase := .established }, .none)
      else
        ({ w with entries := w.entries.erase s.header.sessionId }.putSession k { s with phase := .unacknowledged },
          .sessionFailed)
    else (w, .none)
  | none =>
    match w.streams.lookup k with
    | some t => if ok then (w.deliver k t, .none) else (w.release k t, .streamFailed)
    | none => (w, .none)

def timeout (w : Bridge) (k : Nat) : Bridge × BridgeAnswer :=
  match w.sessions.lookup k with
  | some s => if s.phase = .acking then (w.putSession k { s with phase := .abandoned }, .sessionFailed) else (w, .none)
  | none =>
    match w.streams.lookup k with
    | some t => (w.release k t, .streamFailed)
    | none => (w, .none)

def step (w : Bridge) : BridgeInput → Bridge × BridgeAnswer
  | .connect k uid bytes =>
    if (w.sessions.lookup k).isSome ∨ (w.streams.lookup k).isSome then (w, .none) else w.connect C k uid bytes
  | .acked k ok => w.acked k ok
  | .timeout k => w.timeout k
  | .accept k => ({ w with sessions := w.sessions.adjust k fun s => { s with accepted := true } }, .none)
  | .controlEnds k =>
    match w.sessions.lookup k with
    | some s =>
      if s.phase = .established then
        ({ w with entries := w.entries.erase s.header.sessionId }.putSession k { s with phase := .closed }, .none)
      else (w, .none)
    | none => (w, .none)
  | .takeStream k =>
    ({ w with sessions := w.sessions.adjust k fun s => { s with taken := s.taken ++ s.queue.take 1, queue := s.queue.drop 1 } },
      .none)
  | .dropSession k => ({ w with sessions := w.sessions.adjust k fun s => { s with receiver := false } }, .none)

def machine : Machine Bridge BridgeInput BridgeAnswer := ⟨step C⟩

/-! ## What is kept -/

end Bridge

/-- What matters of a session. -/
structure SessionView where
  header : BridgeHeader
  live : Bool
  admitted : List Nat
  delivered : List BridgeHeader
  deriving DecidableEq, Repr

def BridgeSession.view (s : BridgeSession) : SessionView := ⟨s.header, s.live, s.admitted, s.delivered⟩

/-- A stream of the session: its metadata and its identity. -/
def BridgeHeader.OfSession (session stream : BridgeHeader) : Prop :=
  session.sameMetadata stream = true ∧ stream.sessionId = session.sessionId

namespace Bridge

def seen (w : Bridge) (k : Nat) : Option SessionView := (w.sessions.lookup k).map BridgeSession.view

/-- The ids of the session's streams that are being acknowledged. -/
def pending (streams : Table Nat StreamTask) (k : Nat) : List Nat :=
  (streams.values.filter fun t => decide (t.session = k)).map fun t => t.header.streamId

/-- The registry and the sessions agree, and the streams of a session are accounted for. -/
structure Exact (max : Nat) (entries : Table (List UInt8) SessionEntry) (seen : Nat → Option SessionView)
    (streams : Table Nat StreamTask) : Prop where
  entry : ∀ id e, entries.lookup id = some e → e.header.sessionId = id ∧
    ∃ v, seen e.streams = some v ∧ v.header = e.header ∧ v.live = true ∧ e.nextStreamId = v.admitted.length + 1
  live : ∀ k v, seen k = some v → v.live = true → ∃ e, entries.lookup v.header.sessionId = some e ∧ e.streams = k
  cap : entries.entries.length ≤ max
  numbered : ∀ k v, seen k = some v → v.admitted = List.range' 1 v.admitted.length
  matching : ∀ k v, seen k = some v → ∀ h ∈ v.delivered, v.header.OfSession h
  tasks : ∀ j t, streams.lookup j = some t → ∃ v, seen t.session = some v ∧ v.header.OfSession t.header
  account : ∀ k v, seen k = some v → (v.delivered.map (·.streamId) ++ pending streams k).Perm v.admitted
  ordered : ∀ k v, seen k = some v → v.delivered.map (·.streamId) = List.range' 1 v.delivered.length

variable {max : Nat} {entries : Table (List UInt8) SessionEntry} {views : Nat → Option SessionView}
  {streams : Table Nat StreamTask}

theorem exact_start (max : Nat) : Exact max start.entries start.seen start.streams where
  entry id e he := by cases he
  live k v hv := by cases hv
  cap := Nat.zero_le max
  numbered k v hv := by cases hv
  matching k v hv := by cases hv
  tasks j t ht := by cases ht
  account k v hv := by cases hv
  ordered k v hv := by cases hv

theorem update_some {k a : Nat} {v u : SessionView} (h : Function.update views k (some v) a = some u) :
    a = k ∧ u = v ∨ a ≠ k ∧ views a = some u := by
  by_cases he : a = k
  · subst he
    rw [Function.update_self] at h
    exact .inl ⟨rfl, (Option.some.inj h).symm⟩
  · rw [Function.update_of_ne he] at h
    exact .inr ⟨he, h⟩

/-- A session is entered. -/
theorem exact_open (h : Exact max entries views streams) {header : BridgeHeader} {k : Nat}
    (hid : entries.lookup header.sessionId = none) (hk : views k = none) (hroom : entries.entries.length < max) :
    Exact max (entries.insert header.sessionId ⟨header, k, 1⟩)
    (Function.update views k (some ⟨header, true, [], []⟩)) streams := by
  have hother : ∀ a v, views a = some v → a ≠ k := by
    rintro a v hv rfl
    rw [hk] at hv
    cases hv
  have hkeep : ∀ a v, views a = some v → Function.update views k (some ⟨header, true, [], []⟩) a = some v := by
    intro a v hv
    rw [Function.update_of_ne (hother a v hv)]
    exact hv
  constructor
  · intro id e he
    rcases Table.lookup_insert_some.mp he with ⟨rfl, rfl⟩ | ⟨_, he⟩
    · exact ⟨rfl, _, Function.update_self .., rfl, rfl, rfl⟩
    · obtain ⟨heq, v, hv, hrest⟩ := h.entry id e he
      exact ⟨heq, v, hkeep _ v hv, hrest⟩
  · intro a v hv hlive
    rcases update_some hv with ⟨rfl, rfl⟩ | ⟨_, hv⟩
    · exact ⟨_, AList.lookup_insert _, rfl⟩
    · obtain ⟨e, hl, hs⟩ := h.live a v hv hlive
      refine ⟨e, Table.lookup_insert_some.mpr (.inr ⟨?_, hl⟩), hs⟩
      intro heq
      rw [heq, hid] at hl
      cases hl
  · have herase := (List.kerase_sublist header.sessionId entries.entries).length_le
    simp only [AList.entries_insert, List.length_cons]
    omega
  · intro a v hv
    rcases update_some hv with ⟨rfl, rfl⟩ | ⟨_, hv⟩
    · rfl
    · exact h.numbered a v hv
  · intro a v hv
    rcases update_some hv with ⟨rfl, rfl⟩ | ⟨_, hv⟩
    · intro x hx
      cases hx
    · exact h.matching a v hv
  · intro j t ht
    obtain ⟨v, hv, hof⟩ := h.tasks j t ht
    exact ⟨v, hkeep _ v hv, hof⟩
  · intro a v hv
    rcases update_some hv with ⟨rfl, rfl⟩ | ⟨_, hv⟩
    · -- no stream names a session that was not there
      have hnone : (streams.values.filter fun t => decide (t.session = a)) = [] := by
        rw [List.filter_eq_nil_iff]
        intro t ht
        obtain ⟨x, hx, rfl⟩ := List.mem_map.mp ht
        obtain ⟨v, hv, _⟩ := h.tasks x.1 x.2 (Table.mem_entries_iff.mp hx)
        simpa using hother _ v hv
      simp [pending, hnone]
    · exact h.account a v hv
  · intro a v hv
    rcases update_some hv with ⟨rfl, rfl⟩ | ⟨_, hv⟩
    · rfl
    · exact h.ordered a v hv

/-- Two live sessions have different ids. -/
theorem Exact.live_once (h : Exact max entries views streams) {a k : Nat} {u v : SessionView} (hu : views a = some u)
    (hul : u.live = true) (hv : views k = some v) (hvl : v.live = true)
    (hid : u.header.sessionId = v.header.sessionId) : a = k := by
  obtain ⟨e, hl, hs⟩ := h.live a u hu hul
  obtain ⟨e', hl', hs'⟩ := h.live k v hv hvl
  rw [hid, hl'] at hl
  cases hl
  exact hs.symm.trans hs'

/-- A live session ends. -/
theorem exact_close (h : Exact max entries views streams) {k : Nat} {v : SessionView} (hv : views k = some v)
    (hlive : v.live = true) :
    Exact max (entries.erase v.header.sessionId) (Function.update views k (some { v with live := false })) streams := by
  constructor
  · intro id e he
    obtain ⟨heq, u, hu, hrest⟩ := h.entry id e (Table.within_erase _ _ _ _ he)
    refine ⟨heq, u, ?_, hrest⟩
    have hne : e.streams ≠ k := by
      intro hs
      rw [hs, hv] at hu
      cases hu
      -- its entry is the one that was erased
      have hgone : id = v.header.sessionId := by rw [← heq, ← hrest.1]
      rw [hgone, AList.lookup_erase] at he
      cases he
    rw [Function.update_of_ne hne]
    exact hu
  · intro a u hu hul
    rcases update_some hu with ⟨rfl, rfl⟩ | ⟨hne, hu⟩
    · cases hul
    · obtain ⟨e, hl, hs⟩ := h.live a u hu hul
      refine ⟨e, ?_, hs⟩
      rw [AList.lookup_erase_ne fun hid => hne (h.live_once hu hul hv hlive hid)]
      exact hl
  · exact Nat.le_trans (List.kerase_sublist _ _).length_le h.cap
  · intro a u hu
    rcases update_some hu with ⟨rfl, rfl⟩ | ⟨_, hu⟩
    · exact h.numbered a v hv
    · exact h.numbered a u hu
  · intro a u hu
    rcases update_some hu with ⟨rfl, rfl⟩ | ⟨_, hu⟩
    · exact h.matching a v hv
    · exact h.matching a u hu
  · intro j t ht
    obtain ⟨u, hu, hof⟩ := h.tasks j t ht
    by_cases he : t.session = k
    · rw [he, hv] at hu
      cases hu
      exact ⟨{ v with live := false }, by rw [he, Function.update_self], hof⟩
    · exact ⟨u, by rw [Function.update_of_ne he]; exact hu, hof⟩
  · intro a u hu
    rcases update_some hu with ⟨rfl, rfl⟩ | ⟨_, hu⟩
    · exact h.account a v hv
    · exact h.account a u hu
  · intro a u hu
    rcases update_some hu with ⟨rfl, rfl⟩ | ⟨_, hu⟩
    · exact h.ordered a v hv
    · exact h.ordered a u hu

theorem pending_insert {j : Nat} (hj : streams.lookup j = none) (t : StreamTask) (k : Nat) :
    pending (streams.insert j t) k = (if t.session = k then [t.header.streamId] else []) ++ pending streams k := by
  unfold pending
  rw [Table.values_insert hj, List.filter_cons]
  by_cases h : t.session = k <;> simp [h]

theorem pending_erase {j : Nat} {t : StreamTask} (hj : streams.lookup j = some t) (k : Nat) :
    (pending streams k).Perm ((if t.session = k then [t.header.streamId] else []) ++ pending (streams.erase j) k) := by
  have hperm := ((Table.values_erase hj).filter fun t => decide (t.session = k)).map fun t => t.header.streamId
  rw [List.filter_cons] at hperm
  unfold pending
  by_cases h : t.session = k
  · simpa [h] using hperm
  · simpa [h] using hperm

/-- The next stream of a session passes the checks and finds a place. -/
theorem exact_admit (h : Exact max entries views streams) {header : BridgeHeader} {e : SessionEntry} {j : Nat}
    (he : entries.lookup header.sessionId = some e) (hexp : expects e header = true) (hj : streams.lookup j = none)
    {v : SessionView} (hv : views e.streams = some v) :
    Exact max (entries.adjust header.sessionId fun e => { e with nextStreamId := e.nextStreamId + 1 })
      (Function.update views e.streams (some { v with admitted := v.admitted ++ [header.streamId] }))
      (streams.insert j ⟨header, e.streams⟩) := by
  obtain ⟨heid, v', hv', hhead, hlive, hnext⟩ := h.entry _ e he
  rw [hv] at hv'
  cases hv'
  simp only [expects, Bool.and_eq_true, decide_eq_true_eq] at hexp
  have hof : v.header.OfSession header := ⟨by rw [hhead]; exact hexp.1, by rw [hhead]; exact heid.symm⟩
  constructor
  · intro id e' he'
    obtain ⟨e₀, he₀, rfl⟩ := Table.lookup_adjust_some.mp he'
    obtain ⟨heq, u, hu, hrest⟩ := h.entry id e₀ he₀
    by_cases hid : id = header.sessionId
    · subst hid
      rw [he] at he₀
      cases he₀
      rw [hv] at hu
      cases hu
      simp only [if_true]
      exact ⟨heid, _, Function.update_self .., hhead, hlive, by simp [hnext]⟩
    · simp only [hid, if_false]
      have hne : e₀.streams ≠ e.streams := by
        intro hs
        rw [hs, hv] at hu
        cases hu
        exact hid (by rw [← heq, ← hrest.1, hhead, heid])
      exact ⟨heq, u, by rw [Function.update_of_ne hne]; exact hu, hrest⟩
  · intro a u hu hul
    have hentry : ∃ e', entries.lookup u.header.sessionId = some e' ∧ e'.streams = a := by
      rcases update_some hu with ⟨rfl, rfl⟩ | ⟨_, hu⟩
      · exact h.live e.streams v hv hlive
      · exact h.live a u hu hul
    obtain ⟨e', hl, hs⟩ := hentry
    refine ⟨_, Table.lookup_adjust_some.mpr ⟨e', hl, rfl⟩, ?_⟩
    split <;> exact hs
  · have hlen := congrArg List.length
        (Table.keys_adjust entries header.sessionId fun e => { e with nextStreamId := e.nextStreamId + 1 })
    simp only [AList.keys, List.keys, List.length_map] at hlen
    rw [hlen]
    exact h.cap
  · intro a u hu
    rcases update_some hu with ⟨rfl, rfl⟩ | ⟨_, hu⟩
    · -- the id is the one that was expected
      have hn := h.numbered _ v hv
      have hid : header.streamId = 1 + v.admitted.length := by
        rw [hexp.2, hnext]
        omega
      rw [List.length_append, List.length_singleton, List.range'_1_concat, ← hn, hid]
    · exact h.numbered a u hu
  · intro a u hu
    rcases update_some hu with ⟨rfl, rfl⟩ | ⟨_, hu⟩
    · exact h.matching _ v hv
    · exact h.matching a u hu
  · intro i t ht
    rcases Table.lookup_insert_some.mp ht with ⟨_, rfl⟩ | ⟨_, ht⟩
    · exact ⟨_, Function.update_self .., hof⟩
    · obtain ⟨u, hu, hu'⟩ := h.tasks i t ht
      by_cases hs : t.session = e.streams
      · rw [hs, hv] at hu
        cases hu
        exact ⟨{ v with admitted := v.admitted ++ [header.streamId] }, by rw [hs, Function.update_self], hu'⟩
      · exact ⟨u, by rw [Function.update_of_ne hs]; exact hu, hu'⟩
  · intro a u hu
    rw [pending_insert hj]
    rcases update_some hu with ⟨rfl, rfl⟩ | ⟨hne, hu⟩
    · have hacc := h.account _ v hv
      simp only [if_true]
      -- the new id moves from the front of what is pending to the end of what was admitted
      exact List.perm_middle.trans ((hacc.cons _).trans (List.perm_append_singleton _ _).symm)
    · simp only [Ne.symm hne, if_false, List.nil_append]
      exact h.account a u hu
  · intro a u hu
    rcases update_some hu with ⟨rfl, rfl⟩ | ⟨_, hu⟩
    · exact h.ordered _ v hv
    · exact h.ordered a u hu

/-- The least of the ids that are being acknowledged is the one that follows those delivered. -/
theorem Exact.first_pending (h : Exact max entries views streams) {j : Nat} {t : StreamTask} (hj : streams.lookup j = some t)
    {v : SessionView} (hv : views t.session = some v) (hfirst : ∀ i ∈ pending streams t.session, t.header.streamId ≤ i) :
    t.header.streamId = 1 + v.delivered.length := by
  have hmem : t.header.streamId ∈ pending streams t.session :=
    List.mem_map.mpr ⟨t, List.mem_filter.mpr ⟨List.mem_map.mpr ⟨⟨j, t⟩, Table.mem_entries_iff.mpr hj, rfl⟩, by simp⟩, rfl⟩
  -- what was admitted is what was delivered, and behind it what is pending in some order
  have hperm := h.account t.session v hv
  have hlength := hperm.length_eq
  rw [List.length_append, List.length_map] at hlength
  have hrange : v.admitted = List.range' 1 v.delivered.length ++
      List.range' (1 + v.delivered.length) (pending streams t.session).length := by
    rw [h.numbered _ v hv, List.range'_append_1, ← hlength]
  rw [h.ordered _ v hv, hrange, List.perm_append_left_iff] at hperm
  have hlower := (List.mem_range'_1.mp (hperm.mem_iff.mp hmem)).1
  have hhead : 1 + v.delivered.length ∈ pending streams t.session := by
    rw [hperm.mem_iff, List.mem_range'_1]
    have := List.length_pos_of_mem hmem
    omega
  exact Nat.le_antisymm (hfirst _ hhead) hlower

/-- The first stream that is being acknowledged is put into the queue of its session. -/
theorem exact_deliver (h : Exact max entries views streams) {j : Nat} {t : StreamTask} (hj : streams.lookup j = some t)
    {v : SessionView} (hv : views t.session = some v) (hfirst : ∀ i ∈ pending streams t.session, t.header.streamId ≤ i) :
    Exact max entries (Function.update views t.session (some { v with delivered := v.delivered ++ [t.header] }))
      (streams.erase j) := by
  have hview : ∀ a u, views a = some u →
      ∃ u', Function.update views t.session (some { v with delivered := v.delivered ++ [t.header] }) a =
      some u' ∧ u'.header = u.header ∧ u'.live = u.live ∧ u'.admitted = u.admitted := by
    intro a u hu
    by_cases hs : a = t.session
    · subst hs
      rw [hv] at hu
      cases hu
      exact ⟨_, Function.update_self .., rfl, rfl, rfl⟩
    · exact ⟨u, by rw [Function.update_of_ne hs]; exact hu, rfl, rfl, rfl⟩
  constructor
  · intro id e he
    obtain ⟨heq, u, hu, hhead, hlive, hnext⟩ := h.entry id e he
    obtain ⟨u', hu', h1, h2, h3⟩ := hview _ u hu
    exact ⟨heq, u', hu', h1.trans hhead, h2.trans hlive, by rw [h3]; exact hnext⟩
  · intro a u hu hul
    rcases update_some hu with ⟨rfl, rfl⟩ | ⟨_, hu⟩
    · exact h.live _ v hv hul
    · exact h.live a u hu hul
  · exact h.cap
  · intro a u hu
    rcases update_some hu with ⟨rfl, rfl⟩ | ⟨_, hu⟩
    · exact h.numbered _ v hv
    · exact h.numbered a u hu
  · intro a u hu
    rcases update_some hu with ⟨rfl, rfl⟩ | ⟨_, hu⟩
    · intro x hx
      rcases List.mem_append.mp hx with hx | hx
      · exact h.matching _ v hv x hx
      · obtain ⟨u, hu, hof⟩ := h.tasks j t hj
        rw [hv] at hu
        cases hu
        rw [List.mem_singleton.mp hx]
        exact hof
    · exact h.matching a u hu
  · intro i t' ht
    obtain ⟨u, hu, hof⟩ := h.tasks i t' (Table.within_erase _ _ _ _ ht)
    obtain ⟨u', hu', h1, _, _⟩ := hview _ u hu
    exact ⟨u', hu', by rw [h1]; exact hof⟩
  · intro a u hu
    have herase := pending_erase hj a
    rcases update_some hu with ⟨rfl, rfl⟩ | ⟨hne, hu⟩
    · simp only [if_true] at herase
      rw [List.map_append, List.append_assoc]
      exact (herase.symm.append_left _).trans (h.account _ v hv)
    · simp only [Ne.symm hne, if_false, List.nil_append] at herase
      exact (herase.symm.append_left _).trans (h.account a u hu)
  · intro a u hu
    rcases update_some hu with ⟨rfl, rfl⟩ | ⟨_, hu⟩
    · rw [List.map_append, List.length_append, List.length_singleton, List.range'_1_concat, h.ordered _ v hv,
        ← h.first_pending hj hv hfirst]
      rfl
    · exact h.ordered a u hu

/-! ## Steps -/

theorem seen_adjust {w : Bridge} {k : Nat} {s : BridgeSession} (hs : w.sessions.lookup k = some s)
    (f : BridgeSession → BridgeSession) :
    (fun a => ((w.sessions.adjust k f).lookup a).map BridgeSession.view) = Function.update w.seen k (some (f s).view) := by
  funext a
  by_cases he : a = k
  · subst he
    rw [Function.update_self, Table.lookup_adjust_same, hs]
    rfl
  · rw [Function.update_of_ne he, Table.lookup_adjust_ne _ _ he]
    rfl

theorem seen_adjust_same {w : Bridge} {k : Nat} {f : BridgeSession → BridgeSession} (hf : ∀ s, (f s).view = s.view) :
    (fun a => ((w.sessions.adjust k f).lookup a).map BridgeSession.view) = w.seen := by
  funext a
  rw [Table.lookup_adjust]
  unfold seen
  cases w.sessions.lookup a with
  | none => rfl
  | some s =>
    simp only [Option.map_some]
    split
    · rw [hf]
    · rfl

theorem seen_insert {w : Bridge} (k : Nat) (s : BridgeSession) :
    (fun a => ((w.sessions.insert k s).lookup a).map BridgeSession.view) = Function.update w.seen k (some s.view) := by
  funext a
  by_cases he : a = k
  · subst he
    rw [Function.update_self, AList.lookup_insert]
    rfl
  · rw [Function.update_of_ne he, AList.lookup_insert_ne he]
    rfl

/-- A stream that passes the checks finds a place, no acknowledgement of a stream fails or ends while a
    stream of its session with an earlier id is being acknowledged, and the deadline cuts none off. -/
def Orderly (C : BridgeConfig) (w : Bridge) : BridgeInput → Prop
  | .connect _ _ bytes =>
    ∀ header ∈ (BridgeHeader.read C.isIp bytes).toOption, header.kind ≠ kindSession →
      ∀ e ∈ w.entries.lookup header.sessionId, expects e header = true → ∀ s ∈ w.sessions.lookup e.streams, hasRoom C s = true
  | .acked k ok =>
    (ok = false → w.streams.lookup k = none) ∧
      ∀ t ∈ w.streams.lookup k, ∀ i ∈ pending w.streams t.session, t.header.streamId ≤ i
  | .timeout k => w.streams.lookup k = none ∧ ∀ s ∈ w.sessions.lookup k, s.phase ≠ .acking
  | _ => True

instance (C : BridgeConfig) (w : Bridge) : (i : BridgeInput) → Decidable (Orderly C w i)
  | .connect _ _ bytes =>
    inferInstanceAs (Decidable (∀ header ∈ (BridgeHeader.read C.isIp bytes).toOption, header.kind ≠ kindSession →
      ∀ e ∈ w.entries.lookup header.sessionId, expects e header = true → ∀ s ∈ w.sessions.lookup e.streams, hasRoom C s = true))
  | .acked k ok =>
    inferInstanceAs (Decidable ((ok = false → w.streams.lookup k = none) ∧
      ∀ t ∈ w.streams.lookup k, ∀ i ∈ pending w.streams t.session, t.header.streamId ≤ i))
  | .timeout k =>
    inferInstanceAs (Decidable (w.streams.lookup k = none ∧ ∀ s ∈ w.sessions.lookup k, s.phase ≠ .acking))
  | .accept _ => .isTrue trivial
  | .controlEnds _ => .isTrue trivial
  | .takeStream _ => .isTrue trivial
  | .dropSession _ => .isTrue trivial

/-- The registry agrees with the sessions. -/
def Registered (C : BridgeConfig) (w : Bridge) : Prop := Exact C.maximumSessions w.entries w.seen w.streams

variable {C : BridgeConfig} {w : Bridge} {k : Nat}

theorem seen_some {s : BridgeSession} (hs : w.sessions.lookup k = some s) : w.seen k = some s.view := by
  rw [seen, hs]
  rfl

theorem registered_same (h : Registered C w) {f : BridgeSession → BridgeSession} (hf : ∀ s, (f s).view = s.view) :
    Registered C { w with sessions := w.sessions.adjust k f } := by
  unfold Registered
  show Exact _ _ (fun a => ((w.sessions.adjust k f).lookup a).map BridgeSession.view) _
  rw [seen_adjust_same hf]
  exact h

/-- The end of a live session, in any phase that is not live. -/
theorem registered_close (h : Registered C w) {s : BridgeSession} (hs : w.sessions.lookup k = some s) (hlive : s.live = true)
    {phase : SessionPhase} (hphase : ({ s with phase := phase } : BridgeSession).live = false) :
    Registered C ({ w with entries := w.entries.erase s.header.sessionId }.putSession k { s with phase := phase }) := by
  unfold Registered
  show Exact _ _ (fun a => ((w.sessions.adjust k fun _ => { s with phase := phase }).lookup a).map BridgeSession.view) _
  rw [seen_adjust hs]
  have hview : ({ s with phase := phase } : BridgeSession).view = { s.view with live := false } := by
    simp only [BridgeSession.view, hphase]
    rfl
  rw [hview]
  exact exact_close h (seen_some hs) hlive

theorem registered_admitSession (h : Registered C w) (hk : w.sessions.lookup k = none) (header : BridgeHeader) :
    Registered C (w.admitSession C k header).1 := by
  unfold admitSession
  split
  · exact h
  · split
    · exact h
    · rename_i hroom
      rw [not_or, Option.not_isSome_iff_eq_none] at hroom
      unfold Registered
      show Exact _ _ (fun a => ((w.sessions.insert k _).lookup a).map BridgeSession.view) _
      rw [seen_insert]
      exact exact_open h hroom.2 (by rw [seen, hk]; rfl) (by omega)

theorem admitSession_answer (C : BridgeConfig) (w : Bridge) (k : Nat) (header : BridgeHeader) :
    (w.admitSession C k header).2 = .none ∨ ∃ why, (w.admitSession C k header).2 = .refused why := by
  unfold admitSession
  split
  · exact .inr ⟨_, rfl⟩
  · split
    · exact .inr ⟨_, rfl⟩
    · exact .inl rfl

/-- A stream that finds a place, or is turned away by the checks with nothing changed. -/
theorem registered_admitStream (h : Registered C w) (hk : w.streams.lookup k = none) {header : BridgeHeader}
    (hroom : ∀ e ∈ w.entries.lookup header.sessionId, expects e header = true →
      ∀ s ∈ w.sessions.lookup e.streams, hasRoom C s = true) :
    Registered C (w.admitStream C k header).1 ∧
      ((w.admitStream C k header).2 ≠ .none → (w.admitStream C k header).1.entries = w.entries) := by
  unfold admitStream
  cases he : w.entries.lookup header.sessionId with
  | none => exact ⟨h, fun _ => rfl⟩
  | some e =>
    simp only
    split
    · exact ⟨h, fun _ => rfl⟩
    · rename_i hexp
      have hexp : expects e header = true := by simpa using hexp
      split
      · exact ⟨h, fun _ => rfl⟩
      · obtain ⟨_, v, hv, _⟩ := h.entry _ e he
        obtain ⟨s, hs, rfl⟩ := Option.map_eq_some_iff.mp hv
        have hplace := hroom e he hexp s hs
        rw [hs]
        simp only
        have hplace' : hasRoom C { s with admitted := s.admitted ++ [header.streamId] } = true := hplace
        rw [if_pos hplace']
        refine ⟨?_, fun hne => absurd rfl hne⟩
        unfold Registered
        show Exact _ _ (fun a => ((w.sessions.adjust e.streams fun _ => _).lookup a).map BridgeSession.view) _
        rw [seen_adjust hs]
        exact exact_admit h he hexp hk hv

theorem registered_deliver (h : Registered C w) {t : StreamTask} (ht : w.streams.lookup k = some t)
    (hfirst : ∀ i ∈ pending w.streams t.session, t.header.streamId ≤ i) :
    Registered C (w.deliver k t) := by
  obtain ⟨v, hv, _⟩ := h.tasks k t ht
  obtain ⟨s, hs, rfl⟩ := Option.map_eq_some_iff.mp hv
  unfold Registered
  show Exact _ _ (fun a => ((w.sessions.adjust t.session _).lookup a).map BridgeSession.view) _
  rw [seen_adjust hs]
  have hview : ({ s with reserved := s.reserved - 1, queue := s.queue ++ [t.header] } : BridgeSession).view =
      { s.view with delivered := s.view.delivered ++ [t.header] } := by
    simp [BridgeSession.view, BridgeSession.delivered, BridgeSession.live]
  rw [hview]
  exact exact_deliver h ht hv hfirst

/-- An orderly step keeps the registry exact, and a stream it refuses changes nothing there. -/
theorem registered_step (h : Registered C w) {input : BridgeInput} (ho : Orderly C w input) :
    Registered C (step C w input).1 ∧
      ((∃ why, (step C w input).2 = .streamRefused why) ∨ (step C w input).2 = .streamFailed →
        (step C w input).1.entries = w.entries) := by
  cases input with
  | connect k uid bytes =>
    simp only [step]
    split
    · exact ⟨h, fun _ => rfl⟩
    · rename_i hfresh
      simp only [not_or, Option.not_isSome_iff_eq_none] at hfresh
      unfold connect
      split
      · exact ⟨h, fun _ => rfl⟩
      · cases hr : BridgeHeader.read C.isIp bytes with
        | error why => exact ⟨h, fun _ => rfl⟩
        | ok header =>
          simp only
          split
          · exact ⟨h, fun _ => rfl⟩
          · split
            · refine ⟨registered_admitSession h hfresh.1 header, ?_⟩
              rcases admitSession_answer C w k header with ha | ⟨why, ha⟩
              · rw [ha]
                rintro (⟨_, hw⟩ | hw) <;> cases hw
              · rw [ha]
                rintro (⟨_, hw⟩ | hw) <;> cases hw
            · rename_i hkind
              have hroom := ho header (by rw [hr]; rfl) hkind
              obtain ⟨hreg, hsame⟩ := registered_admitStream h hfresh.2 hroom
              refine ⟨hreg, fun hw => hsame ?_⟩
              rcases hw with ⟨why, hw⟩ | hw <;> rw [hw] <;> simp
  | acked k ok =>
    simp only [step, acked]
    cases hs : w.sessions.lookup k with
    | some s =>
      simp only
      split
      · rename_i hphase
        have hlive : s.live = true := by simp [BridgeSession.live, hphase]
        split
        · refine ⟨?_, fun _ => rfl⟩
          unfold Registered
          show Exact _ _ (fun a => ((w.sessions.adjust k fun _ => _).lookup a).map BridgeSession.view) _
          rw [seen_adjust hs]
          have hview : ({ s with phase := .established } : BridgeSession).view = s.view := by
            simp [BridgeSession.view, BridgeSession.live, BridgeSession.delivered, hphase]
          rw [hview, ← seen_some hs, Function.update_eq_self]
          exact h
        · refine ⟨registered_close h hs hlive rfl, ?_⟩
          rintro (⟨why, hw⟩ | hw) <;> cases hw
      · exact ⟨h, fun _ => rfl⟩
    | none =>
      cases ht : w.streams.lookup k with
      | none => exact ⟨h, fun _ => rfl⟩
      | some t =>
        cases ok with
        | true => exact ⟨registered_deliver h ht (ho.2 t ht), fun _ => rfl⟩
        | false =>
          rw [ho.1 rfl] at ht
          cases ht
  | timeout k =>
    simp only [step, timeout]
    cases hs : w.sessions.lookup k with
    | some s =>
      simp only [ho.2 s hs, if_false]
      exact ⟨h, fun _ => trivial⟩
    | none =>
      simp only [ho.1]
      exact ⟨h, fun _ => trivial⟩
  | accept k => exact ⟨registered_same h fun s => rfl, fun _ => rfl⟩
  | controlEnds k =>
    simp only [step]
    cases hs : w.sessions.lookup k with
    | none => exact ⟨h, fun _ => rfl⟩
    | some s =>
      simp only
      split
      · rename_i hphase
        refine ⟨registered_close h hs (by simp [BridgeSession.live, hphase]) rfl, ?_⟩
        rintro (⟨why, hw⟩ | hw) <;> cases hw
      · exact ⟨h, fun _ => rfl⟩
  | takeStream k =>
    refine ⟨registered_same h fun s => ?_, fun _ => rfl⟩
    simp only [BridgeSession.view, BridgeSession.live, BridgeSession.delivered, List.append_assoc, List.take_append_drop]
  | dropSession k => exact ⟨registered_same h fun s => rfl, fun _ => rfl⟩

theorem registered_run {inputs : List BridgeInput} (ho : (machine C).Admissible (Orderly C) start inputs) :
    Registered C ((machine C).run start inputs) :=
  (machine C).run_induction (P := Registered C) (fun _ _ h ho => (registered_step h ho).1) (exact_start _) ho

/-- In every orderly run the registry holds exactly the live sessions and no more than the limit; a
    session is given streams with its own metadata only and the ids 1, 2, 3 and so on, in this order; of
    the ids that passed the checks, again 1, 2, 3 and so on, each is delivered once or is still being
    acknowledged; and a stream that is refused leaves the registry as it was. -/
theorem frontdoor_orderly (C : BridgeConfig) (inputs : List BridgeInput) (ho : (machine C).Admissible (Orderly C) start inputs) :
    let w := (machine C).run start inputs
    (∀ id, (∃ e, w.entries.lookup id = some e) ↔
      ∃ k s, w.sessions.lookup k = some s ∧ s.live = true ∧ s.header.sessionId = id) ∧
    w.entries.entries.length ≤ C.maximumSessions ∧
    (∀ k s, w.sessions.lookup k = some s →
      (∀ h ∈ s.delivered, s.header.sameMetadata h = true ∧ h.sessionId = s.header.sessionId) ∧
      s.delivered.map (·.streamId) = List.range' 1 s.delivered.length ∧
      s.admitted = List.range' 1 s.admitted.length ∧
      (s.delivered.map (·.streamId) ++ pending w.streams k).Perm s.admitted ∧
      (s.live = true → ∃ e, w.entries.lookup s.header.sessionId = some e ∧ e.nextStreamId = s.admitted.length + 1)) ∧
    ∀ input, Orderly C w input → (∃ why, (step C w input).2 = .streamRefused why) ∨ (step C w input).2 = .streamFailed →
      (step C w input).1.entries = w.entries := by
  intro w
  have h : Registered C w := registered_run ho
  refine ⟨?_, h.cap, ?_, fun input hi => (registered_step h hi).2⟩
  · intro id
    constructor
    · rintro ⟨e, he⟩
      obtain ⟨hid, v, hv, hhead, hlive, _⟩ := h.entry id e he
      obtain ⟨s, hs, rfl⟩ := Option.map_eq_some_iff.mp hv
      exact ⟨e.streams, s, hs, hlive, (congrArg BridgeHeader.sessionId hhead).trans hid⟩
    · rintro ⟨k, s, hs, hlive, rfl⟩
      obtain ⟨e, he, _⟩ := h.live k s.view (seen_some hs) hlive
      exact ⟨e, he⟩
  · intro k s hs
    have hv := seen_some hs
    refine ⟨h.matching k s.view hv, h.ordered k s.view hv, h.numbered k s.view hv, h.account k s.view hv, ?_⟩
    intro hlive
    obtain ⟨e, he, hk⟩ := h.live k s.view hv hlive
    obtain ⟨_, v, hv', _, _, hnext⟩ := h.entry _ e he
    rw [hk, hv] at hv'
    cases hv'
    exact ⟨e, he, hnext⟩

/-! ## A front door to try it on -/

def sampleBridge : BridgeConfig := ⟨973, "holdfast.example", 2, 1, fun _ => false⟩

/-- The header of session `id`, or of its stream `n`. -/
def sampleHeader (kind id n : UInt8) : List UInt8 :=
  headerMagic ++ [kind, 0, 0, 0] ++ List.replicate 32 id ++ [0, 0, 0, 0, 0, 0, 0, n] ++
    [4, 127, 0, 0, 1] ++ List.replicate 12 0 ++ [16, 146] ++ [0, 16] ++ List.replicate 32 66 ++
    [104, 111, 108, 100, 102, 97, 115, 116, 46, 101, 120, 97, 109, 112, 108, 101]

example : (BridgeHeader.read sampleBridge.isIp (sampleHeader kindStream 49 7)).toOption =
    some ⟨kindStream, List.replicate 32 49, 7, .v4 [127, 0, 0, 1], 4242, "holdfast.example", List.replicate 32 66⟩ := by
  decide +kernel

/-- A session with two streams, the second once the first was taken, and one that skips an id. -/
def orderlyInputs : List BridgeInput :=
  [.connect 0 973 (sampleHeader kindSession 49 0), .acked 0 true, .accept 0, .connect 1 973 (sampleHeader kindStream 49 1),
    .acked 1 true, .takeStream 0, .connect 2 973 (sampleHeader kindStream 49 2), .acked 2 true, .takeStream 0,
    .connect 3 973 (sampleHeader kindStream 49 4)]

theorem frontdoor_orderly_two :
    (machine sampleBridge).Admissible (Orderly sampleBridge) start orderlyInputs ∧
      ((machine sampleBridge).run start orderlyInputs).entries.entries.length ≤ 2 :=
  have ho : (machine sampleBridge).Admissible (Orderly sampleBridge) start orderlyInputs := by decide +kernel
  ⟨ho, (frontdoor_orderly sampleBridge orderlyInputs ho).2.1⟩

/-- A session whose acknowledgement meets the deadline stays in the registry, a stream that finds the
    queue full takes its id with it, and of two streams whose acknowledgements overlap the second is
    delivered first. -/
theorem frontdoor_disorderly :
    (¬ ∀ (C : BridgeConfig) (inputs : List BridgeInput) (id : List UInt8),
      (∃ e, ((machine C).run start inputs).entries.lookup id = some e) →
        ∃ x ∈ ((machine C).run start inputs).sessions.entries, x.2.live = true ∧ x.2.header.sessionId = id) ∧
    (¬ ∀ (C : BridgeConfig) (inputs : List BridgeInput) (input : BridgeInput),
      (∃ why, (step C ((machine C).run start inputs) input).2 = .streamRefused why) →
        (step C ((machine C).run start inputs) input).1.entries = ((machine C).run start inputs).entries) ∧
    ¬ ∀ (C : BridgeConfig) (inputs : List BridgeInput), ∀ x ∈ ((machine C).run start inputs).sessions.entries,
      x.2.delivered.map (·.streamId) = List.range' 1 x.2.delivered.length := by
  refine ⟨?_, ?_, ?_⟩
  · intro h
    have hlost := h sampleBridge [.connect 0 973 (sampleHeader kindSession 49 0), .timeout 0] (List.replicate 32 49)
      (Option.isSome_iff_exists.mp (by decide +kernel))
    revert hlost
    decide +kernel
  · intro h
    have hsame := h sampleBridge [.connect 0 973 (sampleHeader kindSession 49 0), .acked 0 true,
        .connect 1 973 (sampleHeader kindStream 49 1), .acked 1 true]
      (.connect 2 973 (sampleHeader kindStream 49 2)) ⟨"shared H3 bridge stream capacity is exhausted", by decide +kernel⟩
    have hids := congrArg (fun t => t.values.map SessionEntry.nextStreamId) hsame
    revert hids
    decide +kernel
  · intro h
    have hordered := h { sampleBridge with maximumStreams := 2 } [.connect 0 973 (sampleHeader kindSession 49 0), .acked 0 true,
      .connect 1 973 (sampleHeader kindStream 49 1), .connect 2 973 (sampleHeader kindStream 49 2), .acked 2 true, .acked 1 true]
    revert hordered
    decide +kernel

end Bridge

end Holdfast.Daemon

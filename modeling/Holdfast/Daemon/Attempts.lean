/-
  Holdfast.Daemon.Attempts — many connections that authenticate at once
  (`handle_authenticate` of `crates/daemon/src/conn.rs` over the one `RateLimiter`, with
  the readers of `crates/daemon/src/ws.rs` and `webtransport.rs`).

  An `Authenticate` is answered in turns. The limiter is asked first (`authenticate`). Then
  a grant or a signature is judged and its failure recorded (`proceed`); a password goes to
  the blocking pool instead, where the verifier runs at some later time (`verify`), and its
  connection records the outcome later still (`finish`). Between the turns of one
  connection any other may take its own. A WebTransport session that ends cancels its
  readers, so an attempt that waits for the pool is dropped there; the verifier runs all
  the same. A WebSocket reader is never cancelled.

  Proved:
  - `tracked_run`: no run tracks more addresses than the cap.
  - `guesses_bounded`: in a run in which no attempt is dropped, and an attempt passes the
    check only while those on their way and the failures in the window leave room for it,
    the credentials judged for an address in any interval shorter than the window and the
    lockout are at most `max_failures`.
  - `guesses_unbounded`: without that, six passwords of six connections are judged at once
    where five are allowed.
-/

import Holdfast.Daemon.Limiter
import Holdfast.Daemon.Login

namespace Holdfast.Daemon

open Holdfast.Base Holdfast.Auth

/-- Where an `Authenticate` of a connection is. -/
inductive Turn where
  | idle
  /-- Past the check. -/
  | admitted (method : Option AuthMethod)
  /-- The password is with the blocking pool. -/
  | verifying (username password : String)
  | answered (username password : String) (accepted : Bool)
  /-- Dropped with its session; the verifier is still to run. -/
  | abandoned
  | closed
  deriving DecidableEq, Repr

/-- Let through, and not judged yet. -/
def Turn.waiting : Turn → Bool
  | .admitted _ => true
  | .verifying _ _ => true
  | _ => false

/-- Judged, and the outcome not recorded yet. -/
def Turn.uncharged : Turn → Bool
  | .answered _ _ _ => true
  | _ => false

structure Peer (Ip : Type) where
  ip : Ip
  webTransport : Bool
  channelBinding : List UInt8
  identity : Identity
  turn : Turn

/-- The connections of a daemon and the limiter they share. -/
structure Peers (Ip : Type) where
  limiter : RateLimiter Ip
  /-- The latest instant anything happened. -/
  clock : Nat
  conns : Table Nat (Peer Ip)

inductive PeerInput (Ip : Type) where
  | connect (c : Nat) (ip : Ip) (webTransport : Bool) (channelBinding : List UInt8)
  | authenticate (c : Nat) (method : Option AuthMethod) (now : Nat)
  | proceed (c : Nat) (env : AuthEnv) (now : Nat)
  | verify (c : Nat) (accepted : Bool) (now : Nat)
  | finish (c : Nat) (env : AuthEnv) (now : Nat)
  | disconnect (c : Nat)

/-- What can be seen of a step. -/
inductive Attempted (Ip : Type) where
  | judged (ip : Ip) (now : Nat)
  | replied (ip : Ip) (result : AuthenticationResult)

/-- Is a verifier asked about this password? -/
def AuthState.passwordAsked (A : AuthState) (username password : String) : Bool :=
  A.passwordAllowed username && !username.isEmpty && decide (username.utf8ByteSize ≤ maxUsernameBytes) &&
    !password.isEmpty && decide (password.utf8ByteSize ≤ maxPasswordBytes)

/-- Is a credential of the method looked at, short of the password verifier: a grant verified, or a
    signature? -/
def AuthState.judges (A : AuthState) (i : Identity) (method : Option AuthMethod) : Bool :=
  match A.mode, method with
  | .sshKeys _, some (.connectionGrant bytes) => (grantFromWire bytes).isSome
  | .sshKeys _, some (.sshChallengeResponse challenge _) =>
    match i.pendingChallenge with
    | some (username, expected) => decide (challenge = expected) && (A.sshVerifier username).isSome
    | none => false
  | _, _ => false

/-- A reply as the limiter hears of it: a login clears the address, `fail_auth` charges it, a challenge
    does neither. -/
def RateLimiter.hear {Ip : Type} [DecidableEq Ip] (L : RateLimiter Ip) (ip : Ip) (now : Nat) (r : AuthenticationResult) :
    RateLimiter Ip :=
  if r.ok then L.recordSuccess ip
  else if r.errorCode = some .errUnauthenticated then L.recordFailure ip now
  else L

namespace Peers

variable {Ip : Type} [DecidableEq Ip] (A : AuthState)

def start (P : RateLimitPolicy) : Peers Ip := ⟨RateLimiter.new P, 0, ∅⟩

def put (w : Peers Ip) (c : Nat) (v : Peer Ip) : Peers Ip := { w with conns := w.conns.adjust c fun _ => v }

/-- The rate-limit check that opens `handle_authenticate`. -/
def begin (w : Peers Ip) (c : Nat) (v : Peer Ip) (method : Option AuthMethod) (now : Nat) : Peers Ip × List (Attempted Ip) :=
  let r := w.limiter.check v.ip now
  let w := { w with limiter := r.2, clock := now }
  if r.1 then (w.put c { v with turn := .admitted method }, [])
  else (w, [.replied v.ip (authFailure .errLimitExceeded "too many attempts")])

/-- The rest of `handle_authenticate`, from where the limiter has let it through. -/
def conclude (w : Peers Ip) (c : Nat) (v : Peer Ip) (method : Option AuthMethod) (env : AuthEnv) (now : Nat) :
    Peers Ip × AuthenticationResult :=
  let r := v.identity.handleAuthenticate A v.channelBinding method { env with admitted := true }
  ({ w with limiter := w.limiter.hear v.ip now r.2, clock := now }.put c { v with identity := r.1, turn := .idle }, r.2)

/-- Up to the end, or to the password's `spawn_blocking`. -/
def proceed (w : Peers Ip) (c : Nat) (v : Peer Ip) (method : Option AuthMethod) (env : AuthEnv) (now : Nat) :
    Peers Ip × List (Attempted Ip) :=
  match A.mode, method with
  | .sshKeys _, some (.passwordRequest username password) =>
    if A.passwordAsked username password then
      ({ w with clock := now }.put c { v with turn := .verifying username password }, [])
    else
      let r := w.conclude A c v method env now
      (r.1, [.replied v.ip r.2])
  | _, _ =>
    let r := w.conclude A c v method env now
    (r.1, if A.judges v.identity method then [.judged v.ip now, .replied v.ip r.2] else [.replied v.ip r.2])

def step (w : Peers Ip) : PeerInput Ip → Peers Ip × List (Attempted Ip)
  | .connect c ip webTransport channelBinding =>
    match w.conns.lookup c with
    | some _ => (w, [])
    | none => ({ w with conns := w.conns.insert c ⟨ip, webTransport, channelBinding, Identity.initial, .idle⟩ }, [])
  | .authenticate c method now =>
    match w.conns.lookup c with
    | some v =>
      match v.turn with
      | .idle => w.begin c v method now
      | _ => (w, [])
    | none => (w, [])
  | .proceed c env now =>
    match w.conns.lookup c with
    | some v =>
      match v.turn with
      | .admitted method => w.proceed A c v method env now
      | _ => (w, [])
    | none => (w, [])
  | .verify c accepted now =>
    match w.conns.lookup c with
    | some v =>
      match v.turn with
      | .verifying username password =>
        ({ w with clock := now }.put c { v with turn := .answered username password accepted }, [.judged v.ip now])
      | .abandoned => ({ w with clock := now }.put c { v with turn := .closed }, [.judged v.ip now])
      | _ => (w, [])
    | none => (w, [])
  | .finish c env now =>
    match w.conns.lookup c with
    | some v =>
      match v.turn with
      | .answered username password accepted =>
        let r := w.conclude A c v (some (.passwordRequest username password)) { env with password := accepted } now
        (r.1, [.replied v.ip r.2])
      | _ => (w, [])
    | none => (w, [])
  | .disconnect c =>
    match w.conns.lookup c with
    | some v =>
      match v.turn with
      | .idle => (w.put c { v with turn := .closed }, [])
      | .verifying _ _ => if v.webTransport then (w.put c { v with turn := .abandoned }, []) else (w, [])
      | .answered _ _ _ => if v.webTransport then (w.put c { v with turn := .closed }, []) else (w, [])
      | _ => (w, [])
    | none => (w, [])

def machine : Machine (Peers Ip) (PeerInput Ip) (List (Attempted Ip)) := ⟨step A⟩

/-! ## What is tracked -/

@[simp] theorem policy_hear (L : RateLimiter Ip) (ip : Ip) (now : Nat) (r : AuthenticationResult) :
    (L.hear ip now r).policy = L.policy := by
  unfold RateLimiter.hear
  split
  · rfl
  · split
    · exact L.policy_recordFailure ip now
    · rfl

theorem tracked_hear (L : RateLimiter Ip) (ip : Ip) (now : Nat) (r : AuthenticationResult)
    (h : L.tracked ≤ L.policy.maxTracked) : (L.hear ip now r).tracked ≤ L.policy.maxTracked := by
  unfold RateLimiter.hear
  split
  · exact Nat.le_trans (L.tracked_recordSuccess ip) h
  · split
    · exact L.tracked_recordFailure ip now
    · exact h

/-- The limiter after a step: left alone, asked, or told of one reply. -/
theorem limiter_step (w : Peers Ip) (input : PeerInput Ip) :
    (step A w input).1.limiter = w.limiter ∨ (∃ ip now, (step A w input).1.limiter = (w.limiter.check ip now).2) ∨
      ∃ ip now r, (step A w input).1.limiter = w.limiter.hear ip now r := by
  cases input with
  | connect c ip webTransport channelBinding =>
    simp only [step]
    split <;> exact .inl rfl
  | authenticate c method now =>
    simp only [step]
    split
    · rename_i v _
      split
      · refine .inr (.inl ⟨v.ip, now, ?_⟩)
        unfold begin
        dsimp only
        split <;> rfl
      · exact .inl rfl
    · exact .inl rfl
  | proceed c env now =>
    simp only [step]
    split
    · split
      · unfold proceed
        split
        · split
          · exact .inl rfl
          · exact .inr (.inr ⟨_, now, _, rfl⟩)
        · exact .inr (.inr ⟨_, now, _, rfl⟩)
      · exact .inl rfl
    · exact .inl rfl
  | verify c accepted now =>
    simp only [step]
    split
    · split <;> exact .inl rfl
    · exact .inl rfl
  | finish c env now =>
    simp only [step]
    split
    · split
      · exact .inr (.inr ⟨_, now, _, rfl⟩)
      · exact .inl rfl
    · exact .inl rfl
  | disconnect c =>
    simp only [step]
    split
    · split
      · exact .inl rfl
      · split <;> exact .inl rfl
      · split <;> exact .inl rfl
      · exact .inl rfl
    · exact .inl rfl

theorem tracked_step (w : Peers Ip) (input : PeerInput Ip) (h : w.limiter.tracked ≤ w.limiter.policy.maxTracked) :
    (step A w input).1.limiter.policy = w.limiter.policy ∧ (step A w input).1.limiter.tracked ≤ w.limiter.policy.maxTracked := by
  rcases limiter_step A w input with hl | ⟨ip, now, hl⟩ | ⟨ip, now, r, hl⟩
  · rw [hl]
    exact ⟨rfl, h⟩
  · rw [hl]
    exact ⟨w.limiter.policy_check ip now, by rw [w.limiter.tracked_check]; exact h⟩
  · rw [hl]
    exact ⟨policy_hear _ _ _ _, tracked_hear _ _ _ _ h⟩

theorem tracked_run (P : RateLimitPolicy) (inputs : List (PeerInput Ip)) :
    ((machine A).run (start P) inputs).limiter.policy = P ∧
      ((machine A).run (start P) inputs).limiter.tracked ≤ P.maxTracked := by
  apply (machine A).run_always (P := fun w => w.limiter.policy = P ∧ w.limiter.tracked ≤ P.maxTracked) _ ⟨rfl, Nat.zero_le _⟩
  intro w input hw
  have h := tracked_step A w input (by rw [hw.1]; exact hw.2)
  rw [hw.1] at h
  exact h

/-! ## What can come of an attempt -/

/-- Past the check an `Authenticate` logs in, is charged, or gets a challenge; only a key that is
    offered gets a challenge. -/
theorem reply_cases (i : Identity) (channelBinding : List UInt8) (method : Option AuthMethod) (env : AuthEnv) :
    let r := (i.handleAuthenticate A channelBinding method { env with admitted := true }).2
    r.ok = true ∨ r.ok = false ∧ r.errorCode = some .errUnauthenticated ∨
      r.ok = false ∧ r.errorCode = none ∧ ∃ username publicKey, method = some (.sshChallengeRequest username publicKey) := by
  simp only [Identity.handleAuthenticate, Bool.true_eq_false, if_false]
  split
  · exact .inl rfl
  · split
    · unfold Identity.presentGrant
      split
      · exact .inr (.inl ⟨rfl, rfl⟩)
      · split
        · exact .inr (.inl ⟨rfl, rfl⟩)
        · exact .inl rfl
    · unfold Identity.requestChallenge
      split
      · exact .inr (.inr ⟨rfl, rfl, _, _, rfl⟩)
      · exact .inr (.inl ⟨rfl, rfl⟩)
    · unfold Identity.respondChallenge
      split
      · exact .inr (.inl ⟨rfl, rfl⟩)
      · dsimp only
        split
        · exact .inr (.inl ⟨rfl, rfl⟩)
        · split
          · exact .inl rfl
          · exact .inr (.inl ⟨rfl, rfl⟩)
    · unfold Identity.presentPassword
      split
      · exact .inl rfl
      · exact .inr (.inl ⟨rfl, rfl⟩)
    · exact .inr (.inl ⟨rfl, rfl⟩)

theorem judges_request {A : AuthState} {i : Identity} {username : String} {publicKey : List UInt8} :
    A.judges i (some (.sshChallengeRequest username publicKey)) = false := by
  unfold AuthState.judges
  split <;> simp_all

/-! ## The account of an address -/

/-- A login of the address, in what was seen. -/
def loggedIn (a : Ip) (seen : List (Attempted Ip)) : Bool :=
  seen.any fun
    | .replied ip r => decide (ip = a) && r.ok
    | .judged _ _ => false

/-- When credentials of the address were judged, in what was seen. -/
def judgedAt (a : Ip) (seen : List (Attempted Ip)) : List Nat :=
  seen.filterMap fun
    | .judged ip now => if ip = a then some now else none
    | .replied _ _ => none

/-- Attempts of the address in turns of one kind. -/
def inTurn (w : Peers Ip) (a : Ip) (kind : Turn → Bool) : Nat := w.conns.count fun v => decide (v.ip = a) && kind v.turn

def inFlight (w : Peers Ip) (a : Ip) : Nat := w.inTurn a Turn.waiting + w.inTurn a Turn.uncharged

/-- The clock does not run backwards. -/
def Timely (w : Peers Ip) : PeerInput Ip → Prop
  | .authenticate _ _ now | .proceed _ _ now | .verify _ _ now | .finish _ _ now => w.clock ≤ now
  | .connect _ _ _ _ | .disconnect _ => True

/-- When an attempt is concluded, the live addresses and its own are within the cap. -/
def Uncrowded (w : Peers Ip) : PeerInput Ip → Prop
  | .proceed c _ now | .finish c _ now =>
    ∀ v ∈ w.conns.lookup c, (w.limiter.noted v.ip now).live now ≤ w.limiter.policy.maxTracked
  | _ => True

/-- An attempt of the address passes the check only while those on their way and its failures in the
    window leave room for one more, and none is dropped on its way. -/
def Roomy (a : Ip) (w : Peers Ip) : PeerInput Ip → Prop
  | .authenticate c _ now =>
    ∀ v ∈ w.conns.lookup c, v.turn = .idle → v.ip = a → (w.limiter.check a now).1 = true →
      recent w.limiter.policy.window now ((w.limiter.check a now).2.bucket a).failures + w.inFlight a <
        w.limiter.policy.maxFailures.toNat
  | .disconnect c =>
    ∀ v ∈ w.conns.lookup c, v.ip = a → v.webTransport = true → v.turn.waiting = false ∧ v.turn.uncharged = false
  | _ => True

instance (w : Peers Ip) : (i : PeerInput Ip) → Decidable (Timely w i)
  | .authenticate _ _ now => inferInstanceAs (Decidable (w.clock ≤ now))
  | .proceed _ _ now => inferInstanceAs (Decidable (w.clock ≤ now))
  | .verify _ _ now => inferInstanceAs (Decidable (w.clock ≤ now))
  | .finish _ _ now => inferInstanceAs (Decidable (w.clock ≤ now))
  | .connect _ _ _ _ => .isTrue trivial
  | .disconnect _ => .isTrue trivial

instance (w : Peers Ip) : (i : PeerInput Ip) → Decidable (Uncrowded w i)
  | .proceed c _ now => inferInstanceAs (Decidable (∀ v ∈ w.conns.lookup c, (w.limiter.noted v.ip now).live now ≤ _))
  | .finish c _ now => inferInstanceAs (Decidable (∀ v ∈ w.conns.lookup c, (w.limiter.noted v.ip now).live now ≤ _))
  | .authenticate _ _ _ => .isTrue trivial
  | .verify _ _ _ => .isTrue trivial
  | .connect _ _ _ _ => .isTrue trivial
  | .disconnect _ => .isTrue trivial

instance (a : Ip) (w : Peers Ip) : (i : PeerInput Ip) → Decidable (Roomy a w i)
  | .authenticate c _ now =>
    inferInstanceAs (Decidable (∀ v ∈ w.conns.lookup c, v.turn = .idle → v.ip = a → (w.limiter.check a now).1 = true → _ < _))
  | .disconnect c =>
    inferInstanceAs (Decidable (∀ v ∈ w.conns.lookup c, v.ip = a → v.webTransport = true → _ = _ ∧ _ = _))
  | .proceed _ _ _ => .isTrue trivial
  | .verify _ _ _ => .isTrue trivial
  | .finish _ _ _ => .isTrue trivial
  | .connect _ _ _ _ => .isTrue trivial

/-- The account of the address, its judged credentials read off what was seen. -/
structure Sound (P : RateLimitPolicy) (a : Ip) (seen : List (Attempted Ip)) (w : Peers Ip) : Prop where
  policy : w.limiter.policy = P
  ledger : Ledger P w.clock (judgedAt a seen) (w.inTurn a Turn.waiting) (w.inTurn a Turn.uncharged) (w.limiter.bucket a)
  sparse : Sparse P.span P.maxFailures.toNat (judgedAt a seen)
  kept : ∀ c v, w.conns.lookup c = some v → v.ip = a → v.turn ≠ .abandoned

variable {A}
variable {P : RateLimitPolicy} {a : Ip} {seen more : List (Attempted Ip)} {w : Peers Ip} {c now : Nat} {v v' : Peer Ip}

theorem judgedAt_append : judgedAt a (seen ++ more) = judgedAt a seen ++ judgedAt a more := List.filterMap_append

theorem inTurn_put (hv : w.conns.lookup c = some v) (v' : Peer Ip) (hip : v'.ip = v.ip) (kind : Turn → Bool) :
    (w.put c v').inTurn a kind + (decide (v.ip = a) && kind v.turn).toNat =
      w.inTurn a kind + (decide (v.ip = a) && kind v'.turn).toNat := by
  have h := Table.count_adjust (fun v : Peer Ip => decide (v.ip = a) && kind v.turn) (fun _ => v') hv
  rw [hip] at h
  exact h

omit [DecidableEq Ip] in
theorem kept_put (h : ∀ c v, w.conns.lookup c = some v → v.ip = a → v.turn ≠ .abandoned)
    (hv' : v'.ip = a → v'.turn ≠ .abandoned) :
    ∀ d u, (w.put c v').conns.lookup d = some u → u.ip = a → u.turn ≠ .abandoned := by
  intro d u hu hip
  by_cases he : d = c
  · subst he
    simp only [put, Table.lookup_adjust_same, Option.map_eq_some_iff] at hu
    obtain ⟨_, _, rfl⟩ := hu
    exact hv' hip
  · simp only [put, Table.lookup_adjust_ne _ _ he] at hu
    exact h d u hu hip

/-- A turn of a connection from another address, with whatever it does to the limiter. -/
theorem sound_other (h : Sound P a seen w) (hv : w.conns.lookup c = some v) (hne : v.ip ≠ a) (v' : Peer Ip)
    (hip : v'.ip = v.ip) (L : RateLimiter Ip) (hL : L.policy = P) (more : List (Attempted Ip))
    (hledger : Ledger P now (judgedAt a seen) (w.inTurn a Turn.waiting) (w.inTurn a Turn.uncharged) (L.bucket a))
    (hmore : judgedAt a more = []) : Sound P a (seen ++ more) ({ w with limiter := L, clock := now }.put c v') := by
  have hseen : judgedAt a (seen ++ more) = judgedAt a seen := by rw [judgedAt_append, hmore, List.append_nil]
  have hw := inTurn_put (a := a) hv v' hip Turn.waiting
  have hu := inTurn_put (a := a) hv v' hip Turn.uncharged
  simp only [hne, decide_false, Bool.false_and, Bool.toNat_false, Nat.add_zero] at hw hu
  refine ⟨hL, ?_, by rw [hseen]; exact h.sparse, kept_put h.kept fun e => absurd (hip.symm.trans e) hne⟩
  show Ledger P now _ ((w.put c v').inTurn a Turn.waiting) ((w.put c v').inTurn a Turn.uncharged) _
  rw [hseen, hw, hu]
  exact hledger

/-- A turn of a connection from the address itself. -/
theorem sound_own (h : Sound P a seen w) (hv : w.conns.lookup c = some v) (ha : v.ip = a) (v' : Peer Ip)
    (hip : v'.ip = v.ip) (hturn : v'.turn ≠ .abandoned) (L : RateLimiter Ip) (hL : L.policy = P) (more : List (Attempted Ip))
    {p q : Nat} (hp : p + v.turn.waiting.toNat = w.inTurn a Turn.waiting + v'.turn.waiting.toNat)
    (hq : q + v.turn.uncharged.toNat = w.inTurn a Turn.uncharged + v'.turn.uncharged.toNat)
    (hledger : Ledger P now (judgedAt a (seen ++ more)) p q (L.bucket a))
    (hsparse : Sparse P.span P.maxFailures.toNat (judgedAt a (seen ++ more))) :
    Sound P a (seen ++ more) ({ w with limiter := L, clock := now }.put c v') := by
  have hw := inTurn_put (a := a) hv v' hip Turn.waiting
  have hu := inTurn_put (a := a) hv v' hip Turn.uncharged
  simp only [ha, decide_true, Bool.true_and] at hw hu
  refine ⟨hL, ?_, hsparse, kept_put h.kept fun _ => hturn⟩
  show Ledger P now _ ((w.put c v').inTurn a Turn.waiting) ((w.put c v').inTurn a Turn.uncharged) _
  have hp' : (w.put c v').inTurn a Turn.waiting = p := by omega
  have hq' : (w.put c v').inTurn a Turn.uncharged = q := by omega
  rw [hp', hq']
  exact hledger

/-- What another address's reply does to the account. -/
theorem ledger_hear_other {L : RateLimiter Ip} {ip : Ip} {J : List Nat} {p q : Nat} {r : AuthenticationResult}
    (h : Ledger L.policy now J p q (L.bucket a)) (hne : ip ≠ a) (hlive : (L.noted ip now).live now ≤ L.policy.maxTracked) :
    Ledger L.policy now J p q ((L.hear ip now r).bucket a) := by
  unfold RateLimiter.hear
  split
  · rw [RateLimiter.bucket_recordSuccess_ne (Ne.symm hne)]
    exact h
  · split
    · exact h.recordFailure_other (Ne.symm hne) hlive
    · exact h

theorem sound_begin (h : Sound P a seen w) (hv : w.conns.lookup c = some v) (hturn : v.turn = .idle) (hnow : w.clock ≤ now)
    {method : Option AuthMethod} (hroom : Roomy a w (.authenticate c method now)) :
    Sound P a (seen ++ (w.begin c v method now).2) (w.begin c v method now).1 := by
  obtain ⟨rfl, hl, hs, hk⟩ := h
  have hcheck := (hl.later hnow).check v.ip
  unfold begin
  dsimp only
  split
  · rename_i hok
    by_cases ha : v.ip = a
    · subst ha
      have hadmit := hcheck.admits_next (RateLimiter.check_unlocked hok) (hroom v hv hturn rfl hok)
      apply sound_own ⟨rfl, hl, hs, hk⟩ hv rfl { v with turn := .admitted method } rfl (by simp) _
        (RateLimiter.policy_check _ _ _) [] _ _ (by simpa using hadmit) (by simpa using hs)
      · simp [hturn, Turn.waiting]
      · simp [hturn, Turn.uncharged]
    · exact sound_other ⟨rfl, hl, hs, hk⟩ hv ha { v with turn := .admitted method } rfl _ (RateLimiter.policy_check _ _ _) []
        hcheck rfl
  · have hseen : judgedAt a (seen ++ [Attempted.replied v.ip (authFailure .errLimitExceeded "too many attempts")]) =
        judgedAt a seen := by
      rw [judgedAt_append]
      exact List.append_nil _
    exact ⟨RateLimiter.policy_check _ _ _, by rw [hseen]; exact hcheck, by rw [hseen]; exact hs, hk⟩

/-- A verifier's answer. -/
theorem sound_verify (h : Sound P a seen w) (hv : w.conns.lookup c = some v) {username password : String}
    (hturn : v.turn = .verifying username password) (hnow : w.clock ≤ now) (accepted : Bool) :
    Sound P a (seen ++ [.judged v.ip now])
      ({ w with clock := now }.put c { v with turn := .answered username password accepted }) := by
  by_cases ha : v.ip = a
  · subst ha
    have hw := inTurn_put (a := v.ip) hv { v with turn := .answered username password accepted } rfl Turn.waiting
    simp only [hturn, decide_true, Bool.true_and, Turn.waiting, Bool.toNat_true, Bool.toNat_false, Nat.add_zero] at hw
    have hl := h.ledger.later hnow
    rw [← hw] at hl
    have hseen : judgedAt v.ip (seen ++ [.judged v.ip now]) = judgedAt v.ip seen ++ [now] := by
      rw [judgedAt_append]
      simp [judgedAt]
    apply sound_own h hv rfl { v with turn := .answered username password accepted } rfl (by simp) w.limiter h.policy
      [.judged v.ip now] _ _ (by rw [hseen]; exact hl.judge) (by rw [hseen]; exact hl.judge_sparse h.sparse)
    · simp only [hturn, Turn.waiting, Bool.toNat_true, Bool.toNat_false, Nat.add_zero]
      exact hw
    · simp only [hturn, Turn.uncharged, Bool.toNat_true, Bool.toNat_false, Nat.add_zero]
  · exact sound_other h hv ha { v with turn := .answered username password accepted } rfl w.limiter h.policy
      [.judged v.ip now] (h.ledger.later hnow) (by simp [judgedAt, ha])

theorem sound_conclude_other (h : Sound P a seen w) (hv : w.conns.lookup c = some v) (ha : v.ip ≠ a) (hnow : w.clock ≤ now)
    {method : Option AuthMethod} {env : AuthEnv} (hlive : (w.limiter.noted v.ip now).live now ≤ w.limiter.policy.maxTracked)
    (hmore : judgedAt a more = []) : Sound P a (seen ++ more) (w.conclude A c v method env now).1 := by
  obtain ⟨rfl, hl, hs, hk⟩ := h
  exact sound_other ⟨rfl, hl, hs, hk⟩ hv ha
    { v with identity := (v.identity.handleAuthenticate A v.channelBinding method
      { env with admitted := true }).1, turn := .idle }
    rfl _ (policy_hear _ _ _ _) more (ledger_hear_other (hl.later hnow) ha hlive) hmore

/-- The end of an attempt that did not wait for the pool. -/
theorem sound_conclude_admitted (h : Sound P v.ip seen w) (hv : w.conns.lookup c = some v) {method : Option AuthMethod}
    (hturn : v.turn = .admitted method) (hnow : w.clock ≤ now) {env : AuthEnv}
    (hlive : (w.limiter.noted v.ip now).live now ≤ w.limiter.policy.maxTracked)
    (hno : (w.conclude A c v method env now).2.ok = false)
    (hmore : judgedAt v.ip more = if A.judges v.identity method then [now] else []) :
    Sound P v.ip (seen ++ more) (w.conclude A c v method env now).1 := by
  obtain ⟨rfl, hl, hs, hk⟩ := h
  generalize hr : v.identity.handleAuthenticate A v.channelBinding method { env with admitted := true } = r
  have hcases := reply_cases A v.identity v.channelBinding method env
  have hw := inTurn_put (a := v.ip) hv { v with identity := r.1, turn := .idle } rfl Turn.waiting
  simp only [hturn, decide_true, Bool.true_and, Turn.waiting, Bool.toNat_true, Bool.toNat_false, Nat.add_zero] at hw
  have hl' := hl.later hnow
  rw [← hw] at hl'
  simp only [conclude, hr] at hno hcases ⊢
  have hledger : Ledger w.limiter.policy now (judgedAt v.ip (seen ++ more))
      ((w.put c { v with identity := r.1, turn := .idle }).inTurn v.ip Turn.waiting)
        (w.inTurn v.ip Turn.uncharged) ((w.limiter.hear v.ip now r.2).bucket v.ip) ∧
      Sparse w.limiter.policy.span w.limiter.policy.maxFailures.toNat (judgedAt v.ip (seen ++ more)) := by
    rw [judgedAt_append, hmore]
    rcases hcases with hok | ⟨hok, hcode⟩ | ⟨hok, hcode, username, publicKey, rfl⟩
    · rw [hno] at hok
      cases hok
    · simp only [RateLimiter.hear, hok, hcode, Bool.false_eq_true, if_false, if_true]
      split
      · exact ⟨hl'.judge.charge.recordFailure_own hlive, hl'.judge_sparse hs⟩
      · rw [List.append_nil]
        exact ⟨hl'.charge_unjudged.recordFailure_own hlive, hs⟩
    · rw [judges_request]
      simp only [RateLimiter.hear, hok, hcode, Bool.false_eq_true, if_false, reduceCtorEq, List.append_nil]
      exact ⟨hl'.leave, hs⟩
  apply sound_own ⟨rfl, hl, hs, hk⟩ hv rfl { v with identity := r.1, turn := .idle } rfl (by simp) _ (policy_hear _ _ _ _) more
    _ _ hledger.1 hledger.2
  · simp only [hturn, Turn.waiting, Bool.toNat_true, Bool.toNat_false, Nat.add_zero]
    exact hw
  · simp only [hturn, Turn.uncharged, Bool.toNat_false, Nat.add_zero]

/-- The end of an attempt whose password has been judged. -/
theorem sound_conclude_answered (h : Sound P v.ip seen w) (hv : w.conns.lookup c = some v) {username password : String}
    {accepted : Bool} (hturn : v.turn = .answered username password accepted) (hnow : w.clock ≤ now) {env : AuthEnv}
    (hlive : (w.limiter.noted v.ip now).live now ≤ w.limiter.policy.maxTracked)
    (hno : (w.conclude A c v (some (.passwordRequest username password)) env now).2.ok = false)
    (hmore : judgedAt v.ip more = []) :
    Sound P v.ip (seen ++ more) (w.conclude A c v (some (.passwordRequest username password)) env now).1 := by
  obtain ⟨rfl, hl, hs, hk⟩ := h
  generalize hr : v.identity.handleAuthenticate A v.channelBinding (some (.passwordRequest username password))
    { env with admitted := true } = r
  have hcases := reply_cases A v.identity v.channelBinding (some (.passwordRequest username password)) env
  have hu := inTurn_put (a := v.ip) hv { v with identity := r.1, turn := .idle } rfl Turn.uncharged
  simp only [hturn, decide_true, Bool.true_and, Turn.uncharged, Bool.toNat_true, Bool.toNat_false, Nat.add_zero] at hu
  have hl' := hl.later hnow
  rw [← hu] at hl'
  simp only [conclude, hr] at hno hcases ⊢
  have hseen : judgedAt v.ip (seen ++ more) = judgedAt v.ip seen := by rw [judgedAt_append, hmore, List.append_nil]
  have hhear : w.limiter.hear v.ip now r.2 = w.limiter.recordFailure v.ip now := by
    rcases hcases with hok | ⟨hok, hcode⟩ | ⟨_, _, _, _, hm⟩
    · rw [hno] at hok
      cases hok
    · simp [RateLimiter.hear, hok, hcode]
    · cases hm
  rw [hhear]
  apply sound_own ⟨rfl, hl, hs, hk⟩ hv rfl { v with identity := r.1, turn := .idle } rfl (by simp) _
    (RateLimiter.policy_recordFailure _ _ _) more _ _ (by rw [hseen]; exact hl'.charge.recordFailure_own hlive)
    (by rw [hseen]; exact hs)
  · simp only [hturn, Turn.waiting, Bool.toNat_false, Nat.add_zero]
  · simp only [hturn, Turn.uncharged, Bool.toNat_true, Bool.toNat_false, Nat.add_zero]
    exact hu

theorem sound_proceed (h : Sound P a seen w) (hv : w.conns.lookup c = some v) {method : Option AuthMethod}
    (hturn : v.turn = .admitted method) (hnow : w.clock ≤ now) {env : AuthEnv}
    (hlive : (w.limiter.noted v.ip now).live now ≤ w.limiter.policy.maxTracked)
    (hno : loggedIn a (w.proceed A c v method env now).2 = false) :
    Sound P a (seen ++ (w.proceed A c v method env now).2) (w.proceed A c v method env now).1 := by
  unfold proceed at hno ⊢
  split at hno
  · rename_i users username password hmode
    split at hno
    · -- the password goes to the pool
      rename_i hasked
      rw [if_pos hasked]
      by_cases ha : v.ip = a
      · subst ha
        apply sound_own h hv rfl { v with turn := .verifying username password } rfl (by simp) w.limiter h.policy [] _ _
          (by simpa using h.ledger.later hnow) (by simpa using h.sparse)
        · simp only [hturn, Turn.waiting]
        · simp only [hturn, Turn.uncharged]
      · exact sound_other h hv ha { v with turn := .verifying username password } rfl w.limiter h.policy []
          (h.ledger.later hnow) rfl
    · rename_i hasked
      rw [if_neg hasked]
      by_cases ha : v.ip = a
      · subst ha
        refine sound_conclude_admitted h hv hturn hnow hlive (by simpa [loggedIn] using hno) ?_
        simp [judgedAt, AuthState.judges]
      · exact sound_conclude_other h hv ha hnow hlive (by simp [judgedAt])
  · by_cases ha : v.ip = a
    · subst ha
      refine sound_conclude_admitted h hv hturn hnow hlive ?_ ?_
      · revert hno
        split <;> simp [loggedIn]
      · split <;> simp [judgedAt]
    · refine sound_conclude_other h hv ha hnow hlive ?_
      split <;> simp [judgedAt, ha]

theorem sound_same (h : Sound P a seen w) : Sound P a (seen ++ []) w := by
  rw [List.append_nil]
  exact h

/-- A connection that waits for nothing changes no account by going. -/
theorem sound_close (h : Sound P a seen w) (hv : w.conns.lookup c = some v)
    (hturn : v.ip = a → v.turn.waiting = false ∧ v.turn.uncharged = false) {turn : Turn} (hclosed : v.ip = a → turn = .closed) :
    Sound P a (seen ++ []) (w.put c { v with turn := turn }) := by
  by_cases ha : v.ip = a
  · subst ha
    obtain ⟨hwait, hunch⟩ := hturn rfl
    rw [hclosed rfl]
    apply sound_own h hv rfl { v with turn := .closed } rfl (by simp) w.limiter h.policy [] _ _
      (by simpa using h.ledger) (by simpa using h.sparse)
    · rw [hwait]
      rfl
    · rw [hunch]
      rfl
  · exact sound_other h hv ha { v with turn := turn } rfl w.limiter h.policy [] h.ledger rfl

theorem sound_connect (h : Sound P a seen w) (hc : w.conns.lookup c = none) {ip : Ip} {webTransport : Bool}
    {channelBinding : List UInt8} :
    Sound P a (seen ++ [])
      { w with conns := w.conns.insert c ⟨ip, webTransport, channelBinding, Identity.initial, .idle⟩ } := by
  have herase : w.conns.erase c = w.conns :=
    AList.ext (List.kerase_of_notMem_keys (List.dlookup_eq_none.mp hc))
  have hcount : ∀ kind : Turn → Bool, kind .idle = false →
      Table.count (fun v => decide (v.ip = a) && kind v.turn)
        (w.conns.insert c ⟨ip, webTransport, channelBinding, Identity.initial, .idle⟩) = w.inTurn a kind := by
    intro kind hkind
    rw [Table.count_insert, herase, hkind, Bool.and_false]
    rfl
  rw [List.append_nil]
  refine ⟨h.policy, ?_, h.sparse, ?_⟩
  · show Ledger P w.clock _ (Table.count _ _) (Table.count _ _) _
    rw [hcount Turn.waiting rfl, hcount Turn.uncharged rfl]
    exact h.ledger
  · intro d u hu hip
    rcases Table.lookup_insert_some.mp hu with ⟨_, rfl⟩ | ⟨_, hu⟩
    · simp
    · exact h.kept d u hu hip

theorem sound_step (h : Sound P a seen w) {input : PeerInput Ip} (htime : Timely w input) (hcap : Uncrowded w input)
    (hroom : Roomy a w input) (hno : loggedIn a (step A w input).2 = false) :
    Sound P a (seen ++ (step A w input).2) (step A w input).1 := by
  cases input with
  | connect c ip webTransport channelBinding =>
    cases hc : w.conns.lookup c with
    | none =>
      simp only [step, hc]
      exact sound_connect h hc
    | some v =>
      simp only [step, hc]
      exact sound_same h
  | authenticate c method now =>
    cases hc : w.conns.lookup c with
    | none =>
      simp only [step, hc]
      exact sound_same h
    | some v =>
      cases hturn : v.turn with
      | idle =>
        simp only [step, hc, hturn]
        exact sound_begin h hc hturn htime hroom
      | _ =>
        simp only [step, hc, hturn]
        exact sound_same h
  | proceed c env now =>
    cases hc : w.conns.lookup c with
    | none =>
      simp only [step, hc]
      exact sound_same h
    | some v =>
      cases hturn : v.turn with
      | admitted method =>
        simp only [step, hc, hturn] at hno ⊢
        exact sound_proceed h hc hturn htime (hcap v hc) hno
      | _ =>
        simp only [step, hc, hturn]
        exact sound_same h
  | verify c accepted now =>
    cases hc : w.conns.lookup c with
    | none =>
      simp only [step, hc]
      exact sound_same h
    | some v =>
      cases hturn : v.turn with
      | verifying username password =>
        simp only [step, hc, hturn]
        exact sound_verify h hc hturn htime accepted
      | abandoned =>
        -- nothing of the address itself was abandoned
        have hne : v.ip ≠ a := fun ha => h.kept c v hc ha hturn
        simp only [step, hc, hturn]
        exact sound_other h hc hne { v with turn := .closed } rfl w.limiter h.policy [.judged v.ip now]
          (h.ledger.later htime) (by simp [judgedAt, hne])
      | _ =>
        simp only [step, hc, hturn]
        exact sound_same h
  | finish c env now =>
    cases hc : w.conns.lookup c with
    | none =>
      simp only [step, hc]
      exact sound_same h
    | some v =>
      cases hturn : v.turn with
      | answered username password accepted =>
        simp only [step, hc, hturn] at hno ⊢
        by_cases ha : v.ip = a
        · subst ha
          exact sound_conclude_answered h hc hturn htime (hcap v hc) (by simpa [loggedIn] using hno) (by simp [judgedAt])
        · exact sound_conclude_other h hc ha htime (hcap v hc) (by simp [judgedAt])
      | _ =>
        simp only [step, hc, hturn]
        exact sound_same h
  | disconnect c =>
    cases hc : w.conns.lookup c with
    | none =>
      simp only [step, hc]
      exact sound_same h
    | some v =>
      cases hturn : v.turn with
      | idle =>
        simp only [step, hc, hturn]
        exact sound_close h hc (fun _ => by simp [hturn, Turn.waiting, Turn.uncharged]) fun _ => rfl
      | verifying username password =>
        simp only [step, hc, hturn]
        split
        · rename_i hwt
          have hne : v.ip ≠ a := by
            intro ha
            have := (hroom v hc ha hwt).1
            rw [hturn] at this
            cases this
          exact sound_close h hc (fun ha => absurd ha hne) fun ha => absurd ha hne
        · exact sound_same h
      | answered username password accepted =>
        simp only [step, hc, hturn]
        split
        · rename_i hwt
          have hne : v.ip ≠ a := by
            intro ha
            have := (hroom v hc ha hwt).2
            rw [hturn] at this
            cases this
          exact sound_close h hc (fun ha => absurd ha hne) fun ha => absurd ha hne
        · exact sound_same h
      | _ =>
        simp only [step, hc, hturn]
        exact sound_same h

variable (A)

/-- What was seen in a run. -/
def seenIn (P : RateLimitPolicy) (inputs : List (PeerInput Ip)) : List (Attempted Ip) :=
  ((machine A).trace (start P) inputs).flatMap Prod.snd

theorem seenIn_snoc (P : RateLimitPolicy) (inputs : List (PeerInput Ip)) (input : PeerInput Ip) :
    seenIn A P (inputs ++ [input]) = seenIn A P inputs ++ (step A ((machine A).run (start P) inputs) input).2 := by
  rw [seenIn, Machine.trace_snoc, List.flatMap_append]
  simp [seenIn, Machine.out, machine]

theorem loggedIn_append {a : Ip} {s t : List (Attempted Ip)} : loggedIn a (s ++ t) = (loggedIn a s || loggedIn a t) :=
  List.any_append

theorem sound_run (P : RateLimitPolicy) (a : Ip) (inputs : List (PeerInput Ip))
    (hok : (machine A).Admissible (fun w i => Timely w i ∧ Uncrowded w i ∧ Roomy a w i) (start P) inputs)
    (hno : loggedIn a (seenIn A P inputs) = false) : Sound P a (seenIn A P inputs) ((machine A).run (start P) inputs) := by
  induction inputs using List.reverseRecOn with
  | nil => exact ⟨rfl, Ledger.start P, sparse_nil, fun c v hv => by cases hv⟩
  | append_singleton inputs input ih =>
    obtain ⟨hinputs, htime, hcap, hroom⟩ := (Machine.admissible_snoc (machine A)).mp hok
    rw [seenIn_snoc, loggedIn_append, Bool.or_eq_false_iff] at hno
    rw [seenIn_snoc, Machine.run_snoc]
    exact sound_step (ih hinputs hno.1) htime hcap hroom hno.2

/-- How many credentials of the address were judged from `x` to `y`. -/
def judgedBetween (P : RateLimitPolicy) (a : Ip) (x y : Nat) (inputs : List (PeerInput Ip)) : Nat :=
  ((judgedAt a (seenIn A P inputs)).filter fun t => decide (x ≤ t ∧ t ≤ y)).length

/-- No run tracks more addresses than the cap; and where no attempt is dropped and each passes the check
    only while there is room for it, an address without a login has at most `max_failures` credentials
    judged in any interval shorter than the window and the lockout. -/
theorem guesses_bounded (P : RateLimitPolicy) (a : Ip) (inputs : List (PeerInput Ip)) :
    ((machine A).run (start P) inputs).limiter.tracked ≤ P.maxTracked ∧
    ((machine A).Admissible (fun w i => Timely w i ∧ Uncrowded w i ∧ Roomy a w i) (start P) inputs →
      loggedIn a (seenIn A P inputs) = false → ∀ x y, y < x + min P.window P.lockout →
        judgedBetween A P a x y inputs ≤ P.maxFailures.toNat) := by
  refine ⟨(tracked_run A P inputs).2, fun hok hno x y hxy => ?_⟩
  have h := (sound_run A P a inputs hok hno).sparse.between hxy
  rw [List.countP_eq_length_filter] at h
  exact h

/-! ## A daemon with one password user -/

/-- No keys, and a password for one user. -/
def onePassword : AuthState :=
  { mode := .sshKeys fun _ => none
    password := some ["alice"]
    grantVerifier := ⟨fun _ => none, fun _ _ => false, fun _ => none⟩
    issue := fun _ => []
    audience := ""
    ssh := ⟨fun _ => none, fun _ => none, fun _ _ _ _ => false⟩ }

def quietEnv : AuthEnv := ⟨true, 0, .replicate 32 0, false, ""⟩

/-- A connection from address 1, over WebSocket. -/
def arrives (c : Nat) : PeerInput Nat := .connect c 1 false []

/-- A wrong password of `c`, up to the verifier's queue. -/
def guesses (c now : Nat) : List (PeerInput Nat) :=
  [.authenticate c (some (.passwordRequest "alice" "guess")) now, .proceed c quietEnv now]

/-- The verifier's answer, and the failure recorded. -/
def answers (c now : Nat) : List (PeerInput Nat) := [.verify c false now, .finish c quietEnv now]

/-- Two connections, one guess of each on its way at a time. -/
theorem guesses_bounded_in_turn :
    let P : RateLimitPolicy := ⟨2, 60, 60, 1⟩
    let inputs := [arrives 0, arrives 1] ++ guesses 0 1 ++ guesses 1 2 ++ answers 0 3 ++ answers 1 4 ++
      guesses 0 5 ++ guesses 0 64 ++
      answers 0 65
    judgedAt 1 (seenIn onePassword P inputs) = [3, 4, 65] ∧ judgedBetween onePassword P 1 4 63 inputs ≤ 2 :=
  ⟨by decide, (guesses_bounded onePassword _ 1 _).2 (by decide) (by decide) 4 63 (by decide)⟩

/-- Six connections of one address guess at once under the default policy: each passes the check before
    any failure is recorded, and six passwords are judged where five are allowed. -/
theorem guesses_unbounded :
    ¬ ∀ (A : AuthState) (P : RateLimitPolicy) (a : Nat) (inputs : List (PeerInput Nat)),
      (machine A).Admissible (fun w i => Timely w i ∧ Uncrowded w i) (start P) inputs → loggedIn a (seenIn A P inputs) = false →
      ∀ x y, y < x + min P.window P.lockout → judgedBetween A P a x y inputs ≤ P.maxFailures.toNat := by
  intro h
  have := h onePassword .default 1
    ((List.range 6).map arrives ++ (List.range 6).flatMap (guesses · 1) ++ (List.range 6).flatMap (answers · 2))
    (by decide) (by decide) 2 2 (by decide)
  revert this
  decide

end Peers

end Holdfast.Daemon

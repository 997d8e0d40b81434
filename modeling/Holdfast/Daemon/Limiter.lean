/-
  Holdfast.Daemon.Limiter — the failed-attempt limiter of a source address (`RateLimiter`,
  `Bucket` and `RateLimitPolicy` of `crates/daemon/src/auth.rs`).

  Instants and durations are nanoseconds as natural numbers; an instant before another is
  zero after it (`duration_since` saturates), as `-` is here. The addresses are any type.
  Buckets of equal expiry are evicted in the order of the table.

  Proved:
  - `tracked_recordFailure`: however many addresses fail, no more than the cap are tracked.
  - `lookup_recordFailure_other`: while no more than the cap are live, a failure of one
    address leaves another's bucket alone, or sweeps it when nothing in it counts any more.
  - `admitted_sparse`: over every run in which each failure follows a passed check, an
    address without a success fails at most `max_failures` times in any interval as long as
    the window and the lockout.
-/

import Holdfast.Base.Machine
import Holdfast.Base.Table
import Holdfast.Base.Window

namespace Holdfast.Daemon

open Holdfast.Base

def nanosPerSec : Nat := 1000000000

structure RateLimitPolicy where
  maxFailures : UInt32
  window : Nat
  lockout : Nat
  maxTracked : Nat
  deriving DecidableEq, Repr

def RateLimitPolicy.default : RateLimitPolicy := ⟨5, 60 * nanosPerSec, 60 * nanosPerSec, 100000⟩

structure Bucket where
  failures : List Nat
  lockedUntil : Option Nat
  deriving DecidableEq, Repr

namespace Bucket

def empty : Bucket := ⟨[], none⟩

def isDead (b : Bucket) (now window : Nat) : Bool :=
  let locked := (b.lockedUntil.map fun u => decide (now < u)).getD false
  let hasRecentFailure := b.failures.any fun t => decide (now - t < window)
  !locked && !hasRecentFailure

def expiresAt (b : Bucket) (now window : Nat) : Nat :=
  match b.lockedUntil, b.failures.max?.map (· + window) with
  | some a, some d => max a d
  | some a, none => a
  | none, some d => d
  | none, none => now

/-- The failure of `record_failure`, in its bucket. -/
def fail (b : Bucket) (policy : RateLimitPolicy) (now : Nat) : Bucket :=
  let failures := (b.failures.filter fun t => decide (now - t < policy.window)) ++ [now]
  { failures
    lockedUntil := if UInt32.ofNat failures.length ≥ policy.maxFailures then some (now + policy.lockout) else b.lockedUntil }

end Bucket

structure RateLimiter (Ip : Type) where
  policy : RateLimitPolicy
  map : Table Ip Bucket
  lastSweep : Option Nat

namespace RateLimiter

variable {Ip : Type} [DecidableEq Ip]

def new (policy : RateLimitPolicy) : RateLimiter Ip := ⟨policy, ∅, none⟩

/-- May `ip` attempt authentication? A lockout that has elapsed is reset. -/
def check (L : RateLimiter Ip) (ip : Ip) (now : Nat) : Bool × RateLimiter Ip :=
  match L.map.lookup ip with
  | some bucket =>
    match bucket.lockedUntil with
    | some u => if now < u then (false, L) else (true, { L with map := L.map.insert ip Bucket.empty })
    | none => (true, L)
  | none => (true, L)

/-- The dead-bucket sweep: at most once per window, or whenever there are too many. -/
def sweep (L : RateLimiter Ip) (now : Nat) : RateLimiter Ip :=
  let due := (L.lastSweep.map fun t => decide (now - t ≥ L.policy.window)).getD true
  if due || decide (L.map.entries.length > L.policy.maxTracked) then
    { L with map := L.map.retain fun _ b => !b.isDead now L.policy.window, lastSweep := some now }
  else L

/-- The hard cap: the buckets closest to expiry go first. -/
def evict (L : RateLimiter Ip) (now : Nat) : RateLimiter Ip :=
  if L.map.entries.length > L.policy.maxTracked then
    let overflow := L.map.entries.length - L.policy.maxTracked
    let byExpiry := (L.map.entries.map fun e => (e.1, e.2.expiresAt now L.policy.window)).mergeSort fun a b => decide (a.2 ≤ b.2)
    { L with map := ((byExpiry.take overflow).map Prod.fst).foldl (fun m ip => m.erase ip) L.map }
  else L

def prune (L : RateLimiter Ip) (now : Nat) : RateLimiter Ip := (L.sweep now).evict now

/-- The limiter with a failure recorded and nothing pruned yet. -/
def noted (L : RateLimiter Ip) (ip : Ip) (now : Nat) : RateLimiter Ip :=
  { L with map := L.map.insert ip (((L.map.lookup ip).getD Bucket.empty).fail L.policy now) }

def recordFailure (L : RateLimiter Ip) (ip : Ip) (now : Nat) : RateLimiter Ip := (L.noted ip now).prune now

def recordSuccess (L : RateLimiter Ip) (ip : Ip) : RateLimiter Ip := { L with map := L.map.erase ip }

/-- How many addresses are tracked. -/
def tracked (L : RateLimiter Ip) : Nat := L.map.entries.length

/-- How many of them still carry state at `now`. -/
def live (L : RateLimiter Ip) (now : Nat) : Nat := L.map.count fun b => !b.isDead now L.policy.window

/-! ## What is tracked -/

@[simp] theorem policy_check (L : RateLimiter Ip) (ip : Ip) (now : Nat) : (L.check ip now).2.policy = L.policy := by
  unfold check
  split
  · split
    · split <;> rfl
    · rfl
  · rfl

omit [DecidableEq Ip] in
@[simp] theorem policy_sweep (L : RateLimiter Ip) (now : Nat) : (L.sweep now).policy = L.policy := by
  unfold sweep
  dsimp only
  split <;> rfl

@[simp] theorem policy_evict (L : RateLimiter Ip) (now : Nat) : (L.evict now).policy = L.policy := by
  unfold evict
  split <;> rfl

@[simp] theorem policy_recordFailure (L : RateLimiter Ip) (ip : Ip) (now : Nat) : (L.recordFailure ip now).policy = L.policy := by
  simp [recordFailure, prune, noted]

theorem tracked_evict (L : RateLimiter Ip) (now : Nat) : (L.evict now).tracked = min L.tracked L.policy.maxTracked := by
  unfold evict tracked
  split
  · rename_i hover
    dsimp only
    -- the evicted addresses are different and all in the table, and there are `overflow` of them
    generalize hs : (L.map.entries.map fun e => (e.1, e.2.expiresAt now L.policy.window)).mergeSort
      (fun a b => decide (a.2 ≤ b.2)) = sorted
    have hperm : (sorted.map Prod.fst).Perm L.map.keys := by
      rw [← hs]
      have h := (List.mergeSort_perm (L.map.entries.map fun e => (e.1, e.2.expiresAt now L.policy.window))
        fun a b => decide (a.2 ≤ b.2)).map Prod.fst
      simpa [AList.keys, List.keys, Function.comp_def] using h
    have hsub : ((sorted.take (L.map.entries.length - L.policy.maxTracked)).map Prod.fst).Sublist (sorted.map Prod.fst) :=
      (List.take_sublist _ _).map _
    have hlen : sorted.length = L.map.entries.length := by
      rw [← hs]
      simp
    have h := Table.length_foldl_erase ((hperm.nodup_iff.mpr L.map.keys_nodup).sublist hsub) (t := L.map)
      fun k hk => hperm.mem_iff.mp (hsub.subset hk)
    simp only [List.length_map, List.length_take, hlen] at h
    omega
  · omega

/-- However many addresses fail, no more than the cap are tracked. -/
theorem tracked_recordFailure (L : RateLimiter Ip) (ip : Ip) (now : Nat) :
    (L.recordFailure ip now).tracked ≤ L.policy.maxTracked := by
  have h := tracked_evict ((L.noted ip now).sweep now) now
  rw [policy_sweep] at h
  exact Nat.le_trans (Nat.le_of_eq h) (Nat.min_le_right _ _)

theorem tracked_check (L : RateLimiter Ip) (ip : Ip) (now : Nat) : (L.check ip now).2.tracked = L.tracked := by
  unfold check
  split
  · rename_i bucket hb
    split
    · split
      · rfl
      · -- the address was there already
        have hmem : ip ∈ L.map.keys := AList.lookup_isSome.mp (by rw [hb]; rfl)
        have := Table.length_erase hmem
        simp only [tracked, AList.entries_insert, List.length_cons]
        exact this
    · rfl
  · rfl

theorem tracked_recordSuccess (L : RateLimiter Ip) (ip : Ip) : (L.recordSuccess ip).tracked ≤ L.tracked :=
  (List.kerase_sublist ip L.map.entries).length_le

/-! ## One bucket -/

/-- An address that is not tracked has an empty bucket. -/
def bucket (L : RateLimiter Ip) (ip : Ip) : Bucket := (L.map.lookup ip).getD Bucket.empty

theorem bucket_noted (L : RateLimiter Ip) (ip : Ip) (now : Nat) (a : Ip) :
    (L.noted ip now).bucket a = if a = ip then (L.bucket ip).fail L.policy now else L.bucket a := by
  unfold noted bucket
  by_cases h : a = ip
  · subst h
    simp
  · simp [h, AList.lookup_insert_ne h]

theorem bucket_sweep (L : RateLimiter Ip) (now : Nat) (a : Ip) :
    (L.sweep now).bucket a = L.bucket a ∨
      (L.bucket a).isDead now L.policy.window = true ∧ (L.sweep now).bucket a = Bucket.empty := by
  unfold sweep
  dsimp only
  split
  · unfold bucket
    dsimp only
    rw [Table.lookup_retain]
    cases hb : L.map.lookup a with
    | none => exact .inl rfl
    | some b =>
      cases hd : b.isDead now L.policy.window with
      | false => exact .inl (by rw [Option.filter_some, hd]; rfl)
      | true => exact .inr ⟨hd, by rw [Option.filter_some, hd]; rfl⟩
  · exact .inl rfl

/-- Nothing is evicted while no more than the cap are live: the sweep has left only these. -/
theorem prune_eq_sweep {L : RateLimiter Ip} {now : Nat} (h : L.live now ≤ L.policy.maxTracked) : L.prune now = L.sweep now := by
  have hlen : (L.sweep now).map.entries.length ≤ (L.sweep now).policy.maxTracked := by
    unfold sweep
    dsimp only
    split
    · have hcount : (L.map.retain fun _ b => !b.isDead now L.policy.window).entries.length = L.live now := by
        rw [live, Table.count, List.countP_eq_length_filter]
        rfl
      simpa [hcount] using h
    · rename_i hdue
      simp only [Bool.or_eq_true, decide_eq_true_eq, not_or] at hdue
      omega
  unfold prune evict
  rw [if_neg (by omega)]

/-- A failure, while no more than the cap are live: the bucket is charged, the others are left alone,
    and what is dead then may be swept. -/
theorem bucket_recordFailure {L : RateLimiter Ip} {ip : Ip} {now : Nat} (h : (L.noted ip now).live now ≤ L.policy.maxTracked)
    (a : Ip) :
    let b := if a = ip then (L.bucket ip).fail L.policy now else L.bucket a
    (L.recordFailure ip now).bucket a = b ∨
      b.isDead now L.policy.window = true ∧ (L.recordFailure ip now).bucket a = Bucket.empty := by
  have hs := bucket_sweep (L.noted ip now) now a
  rw [bucket_noted] at hs
  rw [recordFailure, prune_eq_sweep h]
  exact hs

theorem bucket_check_ne {L : RateLimiter Ip} {ip a : Ip} (now : Nat) (h : a ≠ ip) : (L.check ip now).2.bucket a = L.bucket a := by
  unfold check
  split
  · split
    · split
      · rfl
      · simp [bucket, AList.lookup_insert_ne h]
    · rfl
  · rfl

theorem bucket_check (L : RateLimiter Ip) (ip : Ip) (now : Nat) :
    ((L.check ip now).1 = false ∧ (L.check ip now).2 = L ∧ ∃ u, (L.bucket ip).lockedUntil = some u ∧ now < u) ∨
    ((L.check ip now).1 = true ∧ (L.check ip now).2 = L ∧ (L.bucket ip).lockedUntil = none) ∨
    ((L.check ip now).1 = true ∧ (L.check ip now).2.bucket ip = Bucket.empty ∧
      ∃ u, (L.bucket ip).lockedUntil = some u ∧ u ≤ now) := by
  unfold check
  cases hb : L.map.lookup ip with
  | none => exact .inr (.inl ⟨rfl, rfl, by simp [bucket, hb, Bucket.empty]⟩)
  | some b =>
    have hbucket : L.bucket ip = b := by simp [bucket, hb]
    rw [hbucket]
    cases hu : b.lockedUntil with
    | none => exact .inr (.inl ⟨by simp [hu], by simp [hu], rfl⟩)
    | some u =>
      by_cases hnow : now < u
      · exact .inl ⟨by simp [hu, hnow], by simp [hu, hnow], u, rfl, hnow⟩
      · exact .inr (.inr ⟨by simp [hu, hnow], by simp [hu, hnow, bucket], u, rfl, by omega⟩)

theorem bucket_recordSuccess_ne {L : RateLimiter Ip} {ip a : Ip} (h : a ≠ ip) : (L.recordSuccess ip).bucket a = L.bucket a := by
  simp [recordSuccess, bucket, AList.lookup_erase_ne h]

end RateLimiter

/-! ## The account of one address -/

/-- As long as both the window and the lockout. -/
def RateLimitPolicy.span (P : RateLimitPolicy) : Nat := min P.window P.lockout

/-- What the bucket of an address says at `T` about the credentials judged for it: `judged` are the
    times, `p` attempts have passed the check and are not judged yet, `q` are judged and not charged
    yet. -/
structure Ledger (P : RateLimitPolicy) (T : Nat) (judged : List Nat) (p q : Nat) (b : Bucket) : Prop where
  judgedLe : ∀ t ∈ judged, t ≤ T
  failuresLe : ∀ t ∈ b.failures, t ≤ T
  short : b.lockedUntil = none → b.failures.length ≤ P.maxFailures.toNat - 1
  room : b.lockedUntil = none → recent P.window T b.failures + (p + q) ≤ P.maxFailures.toNat
  known : b.lockedUntil = none → ∀ x, T ≤ x → recent P.span x judged ≤ recent P.window x b.failures + q
  locked : ∀ u, b.lockedUntil = some u → p + q = 0 ∧ ∀ t ∈ judged, t + P.lockout ≤ u

namespace Ledger

variable {P : RateLimitPolicy} {T now : Nat} {judged : List Nat} {p q : Nat} {b : Bucket}

theorem start (P : RateLimitPolicy) : Ledger P 0 [] 0 0 Bucket.empty where
  judgedLe t ht := by cases ht
  failuresLe t ht := by cases ht
  short _ := by simp [Bucket.empty]
  room _ := by simp [Bucket.empty]
  known _ x _ := by simp
  locked u hu := by cases hu

theorem later (h : Ledger P T judged p q b) (hT : T ≤ now) : Ledger P now judged p q b where
  judgedLe t ht := Nat.le_trans (h.judgedLe t ht) hT
  failuresLe t ht := Nat.le_trans (h.failuresLe t ht) hT
  short := h.short
  room hb := by
    have := h.room hb
    have := recent_anti (m := P.window) (l := b.failures) hT
    omega
  known hb x hx := h.known hb x (Nat.le_trans hT hx)
  locked := h.locked

/-- A bucket in which nothing counts any more may be forgotten. -/
theorem forget (h : Ledger P T judged p q b) (hold : b.lockedUntil = none → ∀ t ∈ b.failures, t + P.window ≤ T)
    (hlock : ∀ u, b.lockedUntil = some u → u ≤ T) : Ledger P T judged p q Bucket.empty where
  judgedLe := h.judgedLe
  failuresLe t ht := by cases ht
  short _ := by simp [Bucket.empty]
  room _ := by
    simp only [Bucket.empty, recent_nil]
    cases hb : b.lockedUntil with
    | none =>
      have := h.room hb
      omega
    | some u =>
      have := (h.locked u hb).1
      omega
  known _ x hx := by
    simp only [Bucket.empty, recent_nil]
    cases hb : b.lockedUntil with
    | none =>
      have hk := h.known hb x hx
      rw [recent_eq_zero fun t ht => Nat.le_trans (hold hb t ht) hx] at hk
      exact hk
    | some u =>
      rw [recent_eq_zero]
      · omega
      · intro t ht
        have h1 := (h.locked u hb).2 t ht
        have h2 := hlock u hb
        have h3 : P.span ≤ P.lockout := Nat.min_le_right _ _
        omega
  locked u hu := by cases hu

theorem sweep (h : Ledger P T judged p q b) (hdead : b.isDead T P.window = true) : Ledger P T judged p q Bucket.empty := by
  simp only [Bucket.isDead, Bool.and_eq_true, Bool.not_eq_true', List.any_eq_false, decide_eq_true_eq] at hdead
  apply h.forget
  · intro _ t ht
    have h1 := hdead.2 t ht
    have h2 := h.failuresLe t ht
    omega
  · intro u hu
    have h1 := hdead.1
    rw [hu] at h1
    simpa using h1

/-- One more attempt passes the check. -/
theorem admits_next (h : Ledger P T judged p q b) (hb : b.lockedUntil = none)
    (hroom : recent P.window T b.failures + (p + q) < P.maxFailures.toNat) : Ledger P T judged (p + 1) q b :=
  { h with
    room := fun _ => by omega
    locked := fun u hu => by
      rw [hb] at hu
      cases hu }

/-- An attempt leaves unjudged and uncharged. -/
theorem leave (h : Ledger P T judged (p + 1) q b) : Ledger P T judged p q b :=
  { h with
    room := fun hb => by
      have := h.room hb
      omega
    locked := fun u hu => ⟨by have := (h.locked u hu).1; omega, (h.locked u hu).2⟩ }

/-- While an attempt is on its way its address is not locked. -/
theorem unlocked (h : Ledger P T judged p q b) (hpq : 0 < p + q) : b.lockedUntil = none := by
  cases hb : b.lockedUntil with
  | none => rfl
  | some u =>
    have := (h.locked u hb).1
    omega

/-- A credential is judged. -/
theorem judge (h : Ledger P T judged (p + 1) q b) : Ledger P T (judged ++ [T]) p (q + 1) b where
  judgedLe t ht := by
    rcases List.mem_append.mp ht with ht | ht
    · exact h.judgedLe t ht
    · simp only [List.mem_singleton] at ht
      omega
  failuresLe := h.failuresLe
  short := h.short
  room hb := by
    have := h.room hb
    omega
  known hb x hx := by
    have := h.known hb x hx
    rw [recent_concat]
    split <;> omega
  locked u hu := by
    rw [h.unlocked (by omega)] at hu
    cases hu

theorem judge_sparse (h : Ledger P T judged (p + 1) q b) (hs : Sparse P.span P.maxFailures.toNat judged) :
    Sparse P.span P.maxFailures.toNat (judged ++ [T]) := by
  have hb := h.unlocked (by omega)
  have hroom := h.room hb
  have hknown := h.known hb T (Nat.le_refl T)
  apply hs.concat
  omega

theorem failures_fail (h : Ledger P T judged p q b) :
    (b.fail P T).failures = (b.failures.filter fun t => decide (T < t + P.window)) ++ [T] := by
  simp only [Bucket.fail, List.append_cancel_right_eq]
  apply List.filter_congr
  intro t ht
  have := h.failuresLe t ht
  apply decide_eq_decide.mpr
  omega

/-- A judged attempt is charged. -/
theorem charge (h : Ledger P T judged p (q + 1) b) : Ledger P T judged p q (b.fail P T) := by
  have hb := h.unlocked (by omega)
  have hroom := h.room hb
  have hf := h.failures_fail
  have hlen : (b.fail P T).failures.length = recent P.window T b.failures + 1 := by
    rw [hf, List.length_append, length_filter_recent]
    rfl
  have hmax := P.maxFailures.toNat_lt
  have hcount : (UInt32.ofNat (b.fail P T).failures.length).toNat = recent P.window T b.failures + 1 := by
    rw [hlen, UInt32.toNat_ofNat']
    omega
  have hlock : (b.fail P T).lockedUntil =
      if P.maxFailures.toNat ≤ recent P.window T b.failures + 1 then some (T + P.lockout) else none := by
    rw [← hcount]
    simp only [Bucket.fail, ge_iff_le, UInt32.le_iff_toNat_le, hb]
  constructor
  · exact h.judgedLe
  · intro t ht
    rw [hf] at ht
    rcases List.mem_append.mp ht with ht | ht
    · exact h.failuresLe t (List.mem_of_mem_filter ht)
    · simp only [List.mem_singleton] at ht
      omega
  · intro hfree
    rw [hlock] at hfree
    split at hfree
    · cases hfree
    · omega
  · intro hfree
    have := @recent_le_length P.window T (b.fail P T).failures
    omega
  · intro _ x hx
    have hk := h.known hb x hx
    rw [hf, recent_concat, recent_filter hx]
    split
    · omega
    · -- the new failure has left the window, and so has everything judged before it
      rw [recent_eq_zero (l := judged)]
      · omega
      · intro t ht
        have h1 := h.judgedLe t ht
        have h2 : P.span ≤ P.window := Nat.min_le_left _ _
        omega
  · intro u hu
    rw [hlock] at hu
    split at hu
    · cases hu
      refine ⟨by omega, fun t ht => ?_⟩
      have := h.judgedLe t ht
      omega
    · cases hu

/-- An attempt that fails without being judged is charged as well. -/
theorem charge_unjudged (h : Ledger P T judged (p + 1) q b) : Ledger P T judged p q (b.fail P T) := by
  have h' : Ledger P T judged p (q + 1) b :=
    { h with
      room := fun hb => by
        have := h.room hb
        omega
      known := fun hb x hx => by
        have := h.known hb x hx
        omega
      locked := fun u hu => ⟨by have := (h.locked u hu).1; omega, (h.locked u hu).2⟩ }
  exact h'.charge

section Limiter

variable {Ip : Type} [DecidableEq Ip] {L : RateLimiter Ip} {ip a : Ip}

theorem recordFailure_other (h : Ledger L.policy now judged p q (L.bucket a)) (hne : a ≠ ip)
    (hlive : (L.noted ip now).live now ≤ L.policy.maxTracked) :
    Ledger L.policy now judged p q ((L.recordFailure ip now).bucket a) := by
  have hb := RateLimiter.bucket_recordFailure hlive a
  simp only [hne, if_false] at hb
  rcases hb with hb | ⟨hdead, hb⟩
  · rw [hb]
    exact h
  · rw [hb]
    exact h.sweep hdead

theorem recordFailure_own (h : Ledger L.policy now judged p q ((L.bucket a).fail L.policy now))
    (hlive : (L.noted a now).live now ≤ L.policy.maxTracked) :
    Ledger L.policy now judged p q ((L.recordFailure a now).bucket a) := by
  have hb := RateLimiter.bucket_recordFailure hlive a
  simp only [if_true] at hb
  rcases hb with hb | ⟨hdead, hb⟩
  · rw [hb]
    exact h
  · rw [hb]
    exact h.sweep hdead

theorem check (h : Ledger L.policy now judged p q (L.bucket a)) (ip : Ip) :
    Ledger L.policy now judged p q ((L.check ip now).2.bucket a) := by
  by_cases he : a = ip
  · subst he
    rcases L.bucket_check a now with ⟨_, hL, _⟩ | ⟨_, hL, _⟩ | ⟨_, hb, u, hu, hle⟩
    · rw [hL]
      exact h
    · rw [hL]
      exact h
    · rw [hb]
      apply h.forget
      · intro hnone
        rw [hu] at hnone
        cases hnone
      · intro v hv
        rw [hu] at hv
        cases hv
        exact hle
  · rw [RateLimiter.bucket_check_ne now he]
    exact h

end Limiter

end Ledger

/-- A passed check leaves the address unlocked. -/
theorem RateLimiter.check_unlocked {Ip : Type} [DecidableEq Ip] {L : RateLimiter Ip} {a : Ip} {now : Nat}
    (h : (L.check a now).1 = true) : ((L.check a now).2.bucket a).lockedUntil = none := by
  rcases L.bucket_check a now with ⟨hf, _⟩ | ⟨_, hL, hu⟩ | ⟨_, hb, _⟩
  · rw [h] at hf
    cases hf
  · rw [hL]
    exact hu
  · rw [hb]
    rfl

/-! ## Callers that check first -/

/-- A use of the limiter. -/
inductive LimiterOp (Ip : Type) where
  | check (ip : Ip) (now : Nat)
  | failure (ip : Ip) (now : Nat)
  | success (ip : Ip)
  deriving DecidableEq, Repr

/-- A limiter and what its callers have done with it. -/
structure Usage (Ip : Type) where
  limiter : RateLimiter Ip
  /-- The latest instant it was given. -/
  last : Nat
  /-- When a check of the address last passed, if nothing was recorded for it since. -/
  passed : Ip → Option Nat

namespace Usage

variable {Ip : Type} [DecidableEq Ip]

def start (P : RateLimitPolicy) : Usage Ip := ⟨RateLimiter.new P, 0, fun _ => none⟩

def machine : Machine (Usage Ip) (LimiterOp Ip) (Option Bool) where
  step s
    | .check ip now =>
      let r := s.limiter.check ip now
      (⟨r.2, now, Function.update s.passed ip (if r.1 then some now else none)⟩, some r.1)
    | .failure ip now => (⟨s.limiter.recordFailure ip now, now, Function.update s.passed ip none⟩, none)
    | .success ip => (⟨s.limiter.recordSuccess ip, s.last, Function.update s.passed ip none⟩, none)

/-- Time does not run backwards; a failure is recorded only after a check that passed at the same
    instant, and not twice for one check; and with it no more than the cap are live. -/
def Disciplined (s : Usage Ip) : LimiterOp Ip → Prop
  | .check _ now => s.last ≤ now
  | .failure ip now =>
    s.last ≤ now ∧ s.passed ip = some now ∧ (s.limiter.noted ip now).live now ≤ s.limiter.policy.maxTracked
  | .success _ => True

instance (s : Usage Ip) : (op : LimiterOp Ip) → Decidable (Disciplined s op)
  | .check _ now => inferInstanceAs (Decidable (s.last ≤ now))
  | .failure ip now =>
    inferInstanceAs (Decidable (s.last ≤ now ∧ s.passed ip = some now ∧
      (s.limiter.noted ip now).live now ≤ s.limiter.policy.maxTracked))
  | .success _ => .isTrue trivial

/-- When the failures of an address were admitted. -/
def admitted (a : Ip) (ops : List (LimiterOp Ip)) : List Nat :=
  ops.filterMap fun
    | .failure ip now => if ip = a then some now else none
    | _ => none

/-- What holds of one address after every disciplined run without a success of it. -/
structure Bounded (P : RateLimitPolicy) (a : Ip) (times : List Nat) (s : Usage Ip) : Prop where
  policy : s.limiter.policy = P
  ledger : Ledger P s.last times (if (s.passed a).isSome then 1 else 0) 0 (s.limiter.bucket a)
  sparse : Sparse P.span P.maxFailures.toNat times

variable {P : RateLimitPolicy} {a : Ip} {times : List Nat} {s : Usage Ip}

theorem bounded_check (hP : 1 ≤ P.maxFailures.toNat) (h : Bounded P a times s) {ip : Ip} {now : Nat} (hnow : s.last ≤ now) :
    Bounded P a times (machine.next s (.check ip now)) := by
  obtain ⟨rfl, hl, hs⟩ := h
  have hl' := (hl.later hnow).check ip
  refine ⟨RateLimiter.policy_check _ _ _, ?_, hs⟩
  show Ledger _ now times (if (Function.update s.passed ip _ a).isSome then 1 else 0) 0 ((s.limiter.check ip now).2.bucket a)
  by_cases he : a = ip
  · subst he
    rw [Function.update_self]
    have hfree : Ledger s.limiter.policy now times 0 0 ((s.limiter.check a now).2.bucket a) := by
      cases hp : (s.passed a).isSome with
      | false => simpa [hp] using hl'
      | true =>
        simp only [hp, if_true] at hl'
        exact hl'.leave
    cases hok : (s.limiter.check a now).1 with
    | false => exact hfree
    | true =>
      have hb := RateLimiter.check_unlocked hok
      have h1 := hfree.short hb
      have h2 := @recent_le_length s.limiter.policy.window now ((s.limiter.check a now).2.bucket a).failures
      exact hfree.admits_next hb (by omega)
  · rw [Function.update_of_ne he]
    exact hl'

theorem bounded_failure_own (h : Bounded P a times s) {now : Nat} (hd : Disciplined s (.failure a now)) :
    Bounded P a (times ++ [now]) (machine.next s (.failure a now)) := by
  obtain ⟨rfl, hl, hs⟩ := h
  obtain ⟨hnow, hpass, hlive⟩ := hd
  have hl' := hl.later hnow
  simp only [hpass, Option.isSome_some, if_true] at hl'
  refine ⟨RateLimiter.policy_recordFailure _ _ _, ?_, Ledger.judge_sparse hl' hs⟩
  show Ledger _ now _ (if (Function.update s.passed a none a).isSome then 1 else 0) 0 ((s.limiter.recordFailure a now).bucket a)
  rw [Function.update_self]
  exact hl'.judge.charge.recordFailure_own hlive

theorem bounded_failure_other (h : Bounded P a times s) {ip : Ip} {now : Nat} (hne : a ≠ ip)
    (hd : Disciplined s (.failure ip now)) : Bounded P a times (machine.next s (.failure ip now)) := by
  obtain ⟨rfl, hl, hs⟩ := h
  obtain ⟨hnow, _, hlive⟩ := hd
  refine ⟨RateLimiter.policy_recordFailure _ _ _, ?_, hs⟩
  show Ledger _ now _ (if (Function.update s.passed ip none a).isSome then 1 else 0) 0 ((s.limiter.recordFailure ip now).bucket a)
  rw [Function.update_of_ne hne]
  exact (hl.later hnow).recordFailure_other hne hlive

theorem bounded_success (h : Bounded P a times s) {ip : Ip} (hne : a ≠ ip) :
    Bounded P a times (machine.next s (.success ip)) := by
  obtain ⟨rfl, hl, hs⟩ := h
  refine ⟨rfl, ?_, hs⟩
  show Ledger _ s.last _ (if (Function.update s.passed ip none a).isSome then 1 else 0) 0 ((s.limiter.recordSuccess ip).bucket a)
  rw [Function.update_of_ne hne, RateLimiter.bucket_recordSuccess_ne hne]
  exact hl

theorem bounded_run (hP : 1 ≤ P.maxFailures.toNat) {ops : List (LimiterOp Ip)}
    (hd : machine.Admissible Disciplined (start P) ops) (hno : LimiterOp.success a ∉ ops) :
    Bounded P a (admitted a ops) (machine.run (start P) ops) := by
  induction ops using List.reverseRecOn with
  | nil => exact ⟨rfl, Ledger.start P, sparse_nil⟩
  | append_singleton ops op ih =>
    obtain ⟨hops, hop⟩ := (Machine.admissible_snoc machine).mp hd
    simp only [List.mem_append, List.mem_singleton, not_or] at hno
    have h := ih hops hno.1
    rw [Machine.run_snoc, admitted, List.filterMap_append]
    cases op with
    | check ip now => simpa [admitted] using bounded_check hP h hop
    | failure ip now =>
      by_cases he : a = ip
      · subst he
        simpa [admitted] using bounded_failure_own h hop
      · simpa [admitted, Ne.symm he] using bounded_failure_other h he hop
    | success ip =>
      have he : a ≠ ip := fun e => hno.2 (by rw [e])
      simpa [admitted] using bounded_success h he

/-- However the uses of the limiter are mixed, an address without a success fails at most `max_failures`
    times in any half-open interval as long as the window and the lockout. -/
theorem admitted_sparse (P : RateLimitPolicy) (hP : 1 ≤ P.maxFailures) (a : Ip) (ops : List (LimiterOp Ip))
    (hd : machine.Admissible Disciplined (start P) ops) (hno : LimiterOp.success a ∉ ops) (x : Nat) :
    ((admitted a ops).filter fun t => decide (x ≤ t ∧ t < x + min P.window P.lockout)).length ≤ P.maxFailures.toNat := by
  have hP' : 1 ≤ P.maxFailures.toNat := by
    have := UInt32.le_iff_toNat_le.mp hP
    simpa using this
  have h := (bounded_run hP' hd hno).sparse x
  rw [inside, List.countP_eq_length_filter] at h
  exact h

/-- Two addresses, one of them locked out at 10 and back at 40. -/
theorem admitted_sparse_two :
    let P : RateLimitPolicy := ⟨2, 60, 30, 2⟩
    let ops : List (LimiterOp Nat) := [.check 1 0, .failure 1 0, .check 2 5, .failure 2 5, .check 1 10, .failure 1 10,
      .check 1 39, .check 1 40, .failure 1 40, .success 2]
    admitted 1 ops = [0, 10, 40] ∧
      ((admitted 1 ops).filter fun t => decide (10 ≤ t ∧ t < 10 + min P.window P.lockout)).length ≤ 2 :=
  ⟨by decide, admitted_sparse _ (by decide) 1 _ (by decide) (by decide) 10⟩

end Usage

end Holdfast.Daemon

/-
  Holdfast.Daemon.Pruning — what the pruning of the failed-attempt limiter changes
  (`RateLimiter::prune` of `crates/daemon/src/auth.rs`), beside the limiter that never
  sweeps dead buckets.

  A dead bucket is swept as if it said nothing. But one that is left where it is keeps a
  lockout that has run out, and the next check takes that for the end of the lockout and
  forgets the failures, also those that were recorded after it. The two limiters part when a
  failure meets such a bucket in the one and none in the other (`forgotten`).

  Proved:
  - `evict_soonest`: the hard cap takes the buckets that expire first.
  - `evict_dead`: while no more than the cap are live, it takes dead ones only.
  - `pruning_invisible`: the cap, the order, and, while no failure is `forgotten`, the same
    answers over every run.
-/

import Holdfast.Daemon.Limiter

namespace Holdfast.Daemon

open Holdfast.Base

namespace RateLimiter

variable {Ip : Type} [DecidableEq Ip]

/-- `record_failure` with the dead-bucket sweep removed. -/
def recordFailureUnswept (L : RateLimiter Ip) (ip : Ip) (now : Nat) : RateLimiter Ip := (L.noted ip now).evict now

/-! ## The hard cap -/

/-- The order of eviction. -/
def byExpiry (L : RateLimiter Ip) (now : Nat) : List (Ip × Nat) :=
  (L.map.entries.map fun e => (e.1, e.2.expiresAt now L.policy.window)).mergeSort fun a b => decide (a.2 ≤ b.2)

omit [DecidableEq Ip] in
theorem byExpiry_sorted (L : RateLimiter Ip) (now : Nat) : (L.byExpiry now).Pairwise fun a b => a.2 ≤ b.2 := by
  have h : (L.byExpiry now).Pairwise fun a b => decide (a.2 ≤ b.2) = true := by
    apply List.pairwise_mergeSort
    · simpa using fun _ _ _ _ _ _ => Nat.le_trans
    · simpa using fun _ _ _ _ => Nat.le_total _ _
  simpa using h

theorem mem_byExpiry {L : RateLimiter Ip} {now : Nat} {ip : Ip} {t : Nat} :
    (ip, t) ∈ L.byExpiry now ↔ ∃ b, L.map.lookup ip = some b ∧ t = b.expiresAt now L.policy.window := by
  rw [byExpiry, List.mem_mergeSort, List.mem_map]
  constructor
  · rintro ⟨⟨a, b⟩, he, heq⟩
    cases heq
    exact ⟨b, Table.mem_entries_iff.mp he, rfl⟩
  · rintro ⟨b, hb, rfl⟩
    exact ⟨⟨ip, b⟩, Table.mem_entries_iff.mpr hb, rfl⟩

theorem lookup_evict (L : RateLimiter Ip) (now : Nat) (ip : Ip) :
    (L.evict now).map.lookup ip =
      if ip ∈ ((L.byExpiry now).take (L.tracked - L.policy.maxTracked)).map Prod.fst then none else L.map.lookup ip := by
  unfold evict
  split
  · exact Table.lookup_foldl_erase _ _ _
  · rename_i hfits
    have hzero : L.tracked - L.policy.maxTracked = 0 := by
      unfold tracked
      omega
    simp [hzero]

/-- What is evicted expires no later than what is kept. -/
theorem evict_soonest {L : RateLimiter Ip} {now : Nat} {a b : Ip} {out kept : Bucket} (ha : L.map.lookup a = some out)
    (hgone : (L.evict now).map.lookup a = none) (hb : (L.evict now).map.lookup b = some kept) :
    out.expiresAt now L.policy.window ≤ kept.expiresAt now L.policy.window := by
  rw [lookup_evict] at hgone hb
  split at hgone
  · rename_i hout
    split at hb
    · cases hb
    · rename_i hkept
      obtain ⟨⟨a', t⟩, htake, rfl⟩ := List.mem_map.mp hout
      obtain ⟨out', hout', rfl⟩ := mem_byExpiry.mp (List.mem_of_mem_take htake)
      rw [ha] at hout'
      cases hout'
      have hmem : (b, kept.expiresAt now L.policy.window) ∈ L.byExpiry now := mem_byExpiry.mpr ⟨kept, hb, rfl⟩
      have hsorted := L.byExpiry_sorted now
      rw [← List.take_append_drop (L.tracked - L.policy.maxTracked) (L.byExpiry now)] at hmem hsorted
      rcases List.mem_append.mp hmem with htake' | hdrop
      · exact absurd (List.mem_map_of_mem htake') hkept
      · exact (List.pairwise_append.mp hsorted).2.2 _ htake _ hdrop
  · rw [ha] at hgone
    cases hgone

/-! ## Who is live -/

theorem isDead_empty (now window : Nat) : Bucket.empty.isDead now window = true := rfl

def liveKeys (L : RateLimiter Ip) (now : Nat) : List Ip :=
  (L.map.entries.filter fun e => !e.2.isDead now L.policy.window).map (·.1)

omit [DecidableEq Ip] in
theorem length_liveKeys (L : RateLimiter Ip) (now : Nat) : (L.liveKeys now).length = L.live now := by
  rw [liveKeys, List.length_map, live, Table.count, List.countP_eq_length_filter]

omit [DecidableEq Ip] in
theorem nodup_liveKeys (L : RateLimiter Ip) (now : Nat) : (L.liveKeys now).Nodup :=
  (L.map.keys_nodup).sublist (List.filter_sublist.map _)

theorem mem_liveKeys {L : RateLimiter Ip} {now : Nat} {ip : Ip} :
    ip ∈ L.liveKeys now ↔ (L.bucket ip).isDead now L.policy.window = false := by
  rw [liveKeys, List.mem_map]
  constructor
  · rintro ⟨⟨a, b⟩, he, rfl⟩
    obtain ⟨he, hlive⟩ := List.mem_filter.mp he
    simpa [bucket, Table.mem_entries_iff.mp he] using hlive
  · intro hlive
    unfold bucket at hlive
    cases hb : L.map.lookup ip with
    | none =>
      rw [hb, Option.getD_none, isDead_empty] at hlive
      cases hlive
    | some b =>
      rw [hb, Option.getD_some] at hlive
      exact ⟨⟨ip, b⟩, List.mem_filter.mpr ⟨Table.mem_entries_iff.mpr hb, by simp [hlive]⟩, rfl⟩

/-- Two limiters with the same live addresses have as many. -/
theorem live_congr {L M : RateLimiter Ip} {now : Nat}
    (h : ∀ ip, (L.bucket ip).isDead now L.policy.window = (M.bucket ip).isDead now M.policy.window) :
    L.live now = M.live now := by
  rw [← length_liveKeys, ← length_liveKeys]
  refine ((List.perm_ext_iff_of_nodup (L.nodup_liveKeys now) (M.nodup_liveKeys now)).mpr fun ip => ?_).length_eq
  rw [mem_liveKeys, mem_liveKeys, h]

/-! ## Nothing that is live is evicted -/

theorem expiresAt_of_live {b : Bucket} {now window : Nat} (h : b.isDead now window = false) : now < b.expiresAt now window := by
  unfold Bucket.isDead at h
  unfold Bucket.expiresAt
  -- the newest failure expires with or after any other
  have hnewest : ∀ t ∈ b.failures, now - t < window → ∃ d, b.failures.max?.map (· + window) = some d ∧ now < d := by
    intro t ht hrecent
    obtain ⟨m, hm⟩ := Option.isSome_iff_exists.mp (List.isSome_max?_of_mem ht)
    have hle := (List.max?_eq_some_iff.mp hm).2 t ht
    exact ⟨m + window, by rw [hm]; rfl, by omega⟩
  cases hu : b.lockedUntil with
  | none =>
    simp only [hu, Option.map_none, Option.getD_none, Bool.not_false, Bool.true_and, Bool.not_eq_false', List.any_eq_true,
      decide_eq_true_eq] at h
    obtain ⟨t, ht, hrecent⟩ := h
    obtain ⟨d, hd, hlt⟩ := hnewest t ht hrecent
    simpa [hd] using hlt
  | some u =>
    by_cases hlock : now < u
    · cases hd : b.failures.max?.map (· + window) with
      | none => exact hlock
      | some d => exact Nat.lt_of_lt_of_le hlock (Nat.le_max_left u d)
    · simp only [hu, Option.map_some, hlock, decide_false, Option.getD_some, Bool.not_false, Bool.true_and, Bool.not_eq_false',
        List.any_eq_true, decide_eq_true_eq] at h
      obtain ⟨t, ht, hrecent⟩ := h
      obtain ⟨d, hd, hlt⟩ := hnewest t ht hrecent
      rw [hd]
      exact Nat.lt_of_lt_of_le hlt (Nat.le_max_right u d)

theorem expiresAt_of_dead {b : Bucket} {now window : Nat} (hpast : ∀ t ∈ b.failures, t ≤ now) (h : b.isDead now window = true) :
    b.expiresAt now window ≤ now := by
  simp only [Bucket.isDead, Bool.and_eq_true, Bool.not_eq_true', List.any_eq_false, decide_eq_true_eq] at h
  obtain ⟨hlock, hrecent⟩ := h
  have hnewest : ∀ d, b.failures.max?.map (· + window) = some d → d ≤ now := by
    intro d hd
    obtain ⟨m, hm, rfl⟩ := Option.map_eq_some_iff.mp hd
    have hmem := (List.max?_eq_some_iff.mp hm).1
    have h1 := hpast m hmem
    have h2 := hrecent m hmem
    omega
  unfold Bucket.expiresAt
  cases hu : b.lockedUntil with
  | none =>
    cases hd : b.failures.max?.map (· + window) with
    | none => exact Nat.le_refl now
    | some d => exact hnewest d hd
  | some u =>
    have hle : u ≤ now := by simpa [hu] using hlock
    cases hd : b.failures.max?.map (· + window) with
    | none => exact hle
    | some d => exact Nat.max_le.mpr ⟨hle, hnewest d hd⟩

/-- While no more than the cap are live, what is evicted is dead. -/
theorem evict_dead {L : RateLimiter Ip} {now : Nat} (hpast : ∀ a, ∀ t ∈ (L.bucket a).failures, t ≤ now)
    (hlive : L.live now ≤ L.policy.maxTracked) (a : Ip) :
    (L.evict now).bucket a = L.bucket a ∨
      (L.bucket a).isDead now L.policy.window = true ∧ (L.evict now).bucket a = Bucket.empty := by
  have hlook := lookup_evict L now a
  split at hlook
  · right
    have hempty : (L.evict now).bucket a = Bucket.empty := by
      unfold bucket
      rw [hlook]
      rfl
    refine ⟨?_, hempty⟩
    rename_i hout
    by_contra hdead
    have ha : a ∈ L.liveKeys now := mem_liveKeys.mpr (by simpa using hdead)
    -- then everything kept is live as well, and there are the cap of these
    obtain ⟨⟨e, t⟩, htake, he⟩ := List.mem_map.mp hout
    have he : a = e := he.symm
    subst he
    obtain ⟨out, hb, -⟩ := mem_byExpiry.mp (List.mem_of_mem_take htake)
    have hexp : now < out.expiresAt now L.policy.window := by
      apply expiresAt_of_live
      simpa [bucket, hb] using hdead
    have hkept : ∀ b ∈ (L.evict now).map.keys, b ∈ L.liveKeys now := by
      intro b hmem
      obtain ⟨kept, hkept⟩ := Option.isSome_iff_exists.mp (AList.lookup_isSome.mpr hmem)
      have hsoon := evict_soonest hb hlook hkept
      have hwas : L.bucket b = kept := by
        rw [lookup_evict] at hkept
        split at hkept
        · cases hkept
        · simp [bucket, hkept]
      apply mem_liveKeys.mpr
      rw [hwas]
      by_contra hdead'
      have h1 := hpast b
      rw [hwas] at h1
      have := expiresAt_of_dead h1 (by simpa using hdead')
      omega
    have hgone : a ∉ (L.evict now).map.keys := by
      intro hmem
      have hsome := AList.lookup_isSome.mpr hmem
      rw [hlook] at hsome
      cases hsome
    have hnodup : (a :: (L.evict now).map.keys).Nodup := List.nodup_cons.mpr ⟨hgone, (L.evict now).map.keys_nodup⟩
    have hsub := (List.subperm_of_subset hnodup (List.cons_subset.mpr ⟨ha, hkept⟩)).length_le
    have hcount : (L.evict now).map.keys.length = min L.tracked L.policy.maxTracked := by
      rw [← tracked_evict L now]
      simp [AList.keys, List.keys, tracked]
    have hover : 0 < L.tracked - L.policy.maxTracked := by
      by_contra hzero
      rw [show L.tracked - L.policy.maxTracked = 0 by omega] at htake
      cases htake
    rw [List.length_cons, length_liveKeys, hcount] at hsub
    omega
  · left
    unfold bucket
    rw [hlook]

end RateLimiter

/-! ## A check, in its bucket -/

namespace Bucket

def admits (b : Bucket) (now : Nat) : Bool := (b.lockedUntil.map fun u => decide (u ≤ now)).getD true

/-- A lockout that is over is reset, and all with it. -/
def checked (b : Bucket) (now : Nat) : Bucket := if b.lockedUntil.isSome && b.admits now then empty else b

variable {b : Bucket} {now window : Nat}

theorem admits_of_dead (h : b.isDead now window = true) : b.admits now = true := by
  simp only [isDead, Bool.and_eq_true, Bool.not_eq_true'] at h
  unfold admits
  cases hu : b.lockedUntil with
  | none => rfl
  | some u => simpa [hu] using h.1

theorem isDead_checked (h : b.isDead now window = true) : (b.checked now).isDead now window = true := by
  unfold checked
  split
  · rfl
  · exact h

theorem mem_checked {t : Nat} (h : t ∈ (b.checked now).failures) : t ∈ b.failures := by
  unfold checked at h
  split at h
  · cases h
  · exact h

end Bucket

namespace RateLimiter

variable {Ip : Type} [DecidableEq Ip]

theorem check_admits (L : RateLimiter Ip) (ip : Ip) (now : Nat) : (L.check ip now).1 = (L.bucket ip).admits now := by
  rcases L.bucket_check ip now with ⟨hok, -, u, hu, hlt⟩ | ⟨hok, -, hu⟩ | ⟨hok, -, u, hu, hle⟩
  · simp [hok, Bucket.admits, hu, hlt]
  · simp [hok, Bucket.admits, hu]
  · simp [hok, Bucket.admits, hu, hle]

theorem bucket_checked (L : RateLimiter Ip) (ip : Ip) (now : Nat) :
    (L.check ip now).2.bucket ip = (L.bucket ip).checked now := by
  rcases L.bucket_check ip now with ⟨-, hL, u, hu, hlt⟩ | ⟨-, hL, hu⟩ | ⟨-, hb, u, hu, hle⟩
  · rw [hL]
    simp [Bucket.checked, Bucket.admits, hu, hlt]
  · rw [hL]
    simp [Bucket.checked, hu]
  · rw [hb]
    simp [Bucket.checked, Bucket.admits, hu, hle]

end RateLimiter

/-! ## Buckets that say the same -/

/-- Equal, or both dead. -/
def Bucket.Alike (now window : Nat) (b b' : Bucket) : Prop := b = b' ∨ b.isDead now window = true ∧ b'.isDead now window = true

namespace Bucket.Alike

variable {now now' window : Nat} {b b' : Bucket}

theorem isDead (h : Alike now window b b') : b.isDead now window = b'.isDead now window := by
  rcases h with rfl | ⟨hb, hb'⟩
  · rfl
  · rw [hb, hb']

theorem isDead_later (h : b.isDead now window = true) (hle : now ≤ now') : b.isDead now' window = true := by
  simp only [Bucket.isDead, Bool.and_eq_true, Bool.not_eq_true', List.any_eq_false, decide_eq_true_eq] at h ⊢
  constructor
  · cases hu : b.lockedUntil with
    | none => rfl
    | some u =>
      have hlock : u ≤ now := by simpa [hu] using h.1
      simpa [hu] using Nat.le_trans hlock hle
  · intro t ht
    have := h.2 t ht
    omega

theorem later (h : Alike now window b b') (hle : now ≤ now') : Alike now' window b b' := by
  rcases h with rfl | ⟨hb, hb'⟩
  · exact .inl rfl
  · exact .inr ⟨isDead_later hb hle, isDead_later hb' hle⟩

/-- Either of them may be swept when it is dead. -/
theorem swept (h : Alike now window b b') {c c' : Bucket} (hc : c = b ∨ b.isDead now window = true ∧ c = Bucket.empty)
    (hc' : c' = b' ∨ b'.isDead now window = true ∧ c' = Bucket.empty) : Alike now window c c' := by
  have hd := h.isDead
  rcases hc with rfl | ⟨hb, rfl⟩
  · rcases hc' with rfl | ⟨hb', rfl⟩
    · exact h
    · exact .inr ⟨by rw [hd, hb'], rfl⟩
  · rcases hc' with rfl | ⟨hb', rfl⟩
    · exact .inr ⟨rfl, by rw [← hd, hb]⟩
    · exact .inl rfl

/-- A failure falls on either in the same way if they say the same of a lockout, also of one that is over. -/
theorem fail {P : RateLimitPolicy} (h : Alike now P.window b b') (hlock : b.lockedUntil = b'.lockedUntil) :
    b.fail P now = b'.fail P now := by
  rcases h with rfl | ⟨hb, hb'⟩
  · rfl
  · have hnone : ∀ c : Bucket, c.isDead now P.window = true → (c.failures.filter fun t => decide (now - t < P.window)) = [] := by
      intro c hc
      simp only [Bucket.isDead, Bool.and_eq_true, Bool.not_eq_true', List.any_eq_false] at hc
      exact List.filter_eq_nil_iff.mpr hc.2
    unfold Bucket.fail
    rw [hnone b hb, hnone b' hb', hlock]

end Bucket.Alike

/-! ## The two limiters -/

/-- A limiter, and the one that never sweeps, under the same calls. -/
structure Twins (Ip : Type) where
  pruned : RateLimiter Ip
  unswept : RateLimiter Ip
  /-- The latest instant they were given. -/
  last : Nat

namespace Twins

variable {Ip : Type} [DecidableEq Ip]

def start (P : RateLimitPolicy) : Twins Ip := ⟨RateLimiter.new P, RateLimiter.new P, 0⟩

/-- The answers are those of the two to a check. -/
def machine : Machine (Twins Ip) (LimiterOp Ip) (Option (Bool × Bool)) where
  step s
    | .check ip now =>
      let r := s.pruned.check ip now
      let r' := s.unswept.check ip now
      (⟨r.2, r'.2, now⟩, some (r.1, r'.1))
    | .failure ip now => (⟨s.pruned.recordFailure ip now, s.unswept.recordFailureUnswept ip now, now⟩, none)
    | .success ip => (⟨s.pruned.recordSuccess ip, s.unswept.recordSuccess ip, s.last⟩, none)

/-- A sweep has dropped a lockout of the address that is over, and no check has reset it since. -/
def forgotten (s : Twins Ip) (ip : Ip) : Bool := (s.pruned.bucket ip).lockedUntil != (s.unswept.bucket ip).lockedUntil

/-- Time does not run backwards, no failure makes more addresses live than the cap, and none meets a
    forgotten lockout. -/
def Timely (s : Twins Ip) : LimiterOp Ip → Prop
  | .check _ now => s.last ≤ now
  | .failure ip now =>
    s.last ≤ now ∧ (s.pruned.noted ip now).live now ≤ s.pruned.policy.maxTracked ∧ s.forgotten ip = false
  | .success _ => True

/-- Time does not run backwards, and neither limiter is given more addresses than the cap. -/
def Paced (s : Twins Ip) : LimiterOp Ip → Prop
  | .check _ now => s.last ≤ now
  | .failure ip now =>
    s.last ≤ now ∧ (s.pruned.noted ip now).tracked ≤ s.pruned.policy.maxTracked ∧
      (s.unswept.noted ip now).tracked ≤ s.unswept.policy.maxTracked
  | .success _ => True

instance (s : Twins Ip) : (op : LimiterOp Ip) → Decidable (Paced s op)
  | .check _ now => inferInstanceAs (Decidable (s.last ≤ now))
  | .failure ip now =>
    inferInstanceAs (Decidable (s.last ≤ now ∧ (s.pruned.noted ip now).tracked ≤ s.pruned.policy.maxTracked ∧
      (s.unswept.noted ip now).tracked ≤ s.unswept.policy.maxTracked))
  | .success _ => .isTrue trivial

instance (s : Twins Ip) : (op : LimiterOp Ip) → Decidable (Timely s op)
  | .check _ now => inferInstanceAs (Decidable (s.last ≤ now))
  | .failure ip now =>
    inferInstanceAs (Decidable (s.last ≤ now ∧ (s.pruned.noted ip now).live now ≤ s.pruned.policy.maxTracked ∧
      s.forgotten ip = false))
  | .success _ => .isTrue trivial

/-- What holds between them. -/
structure Matched (P : RateLimitPolicy) (s : Twins Ip) : Prop where
  policy : s.pruned.policy = P
  policy' : s.unswept.policy = P
  past : ∀ a, ∀ t ∈ (s.unswept.bucket a).failures, t ≤ s.last
  alike : ∀ a, Bucket.Alike s.last P.window (s.pruned.bucket a) (s.unswept.bucket a)

variable {P : RateLimitPolicy} {s : Twins Ip}

theorem matched_start (P : RateLimitPolicy) : Matched P (start P : Twins Ip) where
  policy := rfl
  policy' := rfl
  past a t ht := by cases ht
  alike a := .inl rfl

theorem check_alike {L M : RateLimiter Ip} {ip : Ip} {now : Nat}
    (h : Bucket.Alike now L.policy.window (L.bucket ip) (M.bucket ip)) :
    (L.check ip now).1 = (M.check ip now).1 ∧
      Bucket.Alike now L.policy.window ((L.check ip now).2.bucket ip) ((M.check ip now).2.bucket ip) := by
  rw [RateLimiter.check_admits, RateLimiter.check_admits, RateLimiter.bucket_checked, RateLimiter.bucket_checked]
  rcases h with heq | ⟨hd, hd'⟩
  · rw [heq]
    exact ⟨rfl, .inl rfl⟩
  · rw [Bucket.admits_of_dead hd, Bucket.admits_of_dead hd']
    exact ⟨rfl, .inr ⟨Bucket.isDead_checked hd, Bucket.isDead_checked hd'⟩⟩

theorem matched_check (h : Matched P s) {ip : Ip} {now : Nat} (hnow : s.last ≤ now) :
    Matched P (machine.next s (.check ip now)) ∧ (s.pruned.check ip now).1 = (s.unswept.check ip now).1 := by
  obtain ⟨rfl, hpolicy', hpast, halike⟩ := h
  have hsame := check_alike ((halike ip).later hnow)
  refine ⟨⟨RateLimiter.policy_check _ _ _, ?_, ?_, ?_⟩, hsame.1⟩
  · rw [← hpolicy']
    exact RateLimiter.policy_check _ _ _
  · intro a t ht
    change t ∈ ((s.unswept.check ip now).2.bucket a).failures at ht
    have hold : ∀ t ∈ (s.unswept.bucket a).failures, t ≤ now := fun t ht => Nat.le_trans (hpast a t ht) hnow
    by_cases he : a = ip
    · subst he
      rw [RateLimiter.bucket_checked] at ht
      exact hold t (Bucket.mem_checked ht)
    · rw [RateLimiter.bucket_check_ne now he] at ht
      exact hold t ht
  · intro a
    change Bucket.Alike now _ ((s.pruned.check ip now).2.bucket a) ((s.unswept.check ip now).2.bucket a)
    by_cases he : a = ip
    · subst he
      exact hsame.2
    · rw [RateLimiter.bucket_check_ne now he, RateLimiter.bucket_check_ne now he]
      exact (halike a).later hnow

theorem matched_failure (h : Matched P s) {ip : Ip} {now : Nat} (ht : Timely s (.failure ip now)) :
    Matched P (machine.next s (.failure ip now)) := by
  obtain ⟨rfl, hpolicy', hpast, halike⟩ := h
  obtain ⟨hnow, hlive, hknown⟩ := ht
  have hlock : (s.pruned.bucket ip).lockedUntil = (s.unswept.bucket ip).lockedUntil := by simpa [forgotten] using hknown
  -- the same is noted in both, up to what is dead
  have hnoted : ∀ a, Bucket.Alike now s.pruned.policy.window ((s.pruned.noted ip now).bucket a)
      ((s.unswept.noted ip now).bucket a) := by
    intro a
    rw [RateLimiter.bucket_noted, RateLimiter.bucket_noted]
    by_cases he : a = ip
    · subst he
      rw [if_pos rfl, if_pos rfl, hpolicy']
      exact .inl (((halike a).later hnow).fail hlock)
    · rw [if_neg he, if_neg he]
      exact (halike a).later hnow
  have hpast' : ∀ a, ∀ t ∈ ((s.unswept.noted ip now).bucket a).failures, t ≤ now := by
    intro a t ht
    rw [RateLimiter.bucket_noted] at ht
    split at ht
    · rcases List.mem_append.mp ht with ht | ht
      · exact Nat.le_trans (hpast ip t (List.mem_of_mem_filter ht)) hnow
      · exact Nat.le_of_eq (List.mem_singleton.mp ht)
    · exact Nat.le_trans (hpast a t ht) hnow
  have hlive' : (s.unswept.noted ip now).live now ≤ (s.unswept.noted ip now).policy.maxTracked := by
    have hpol : (s.unswept.noted ip now).policy = s.pruned.policy := hpolicy'
    have heq : (s.pruned.noted ip now).live now = (s.unswept.noted ip now).live now := by
      apply RateLimiter.live_congr
      intro a
      rw [hpol]
      exact (hnoted a).isDead
    rw [hpol, ← heq]
    exact hlive
  have hkept : ∀ a, (s.unswept.recordFailureUnswept ip now).bucket a = (s.unswept.noted ip now).bucket a ∨
      ((s.unswept.noted ip now).bucket a).isDead now s.pruned.policy.window = true ∧
        (s.unswept.recordFailureUnswept ip now).bucket a = Bucket.empty := by
    intro a
    rw [← hpolicy']
    exact RateLimiter.evict_dead hpast' hlive' a
  refine ⟨RateLimiter.policy_recordFailure _ _ _, ?_, ?_, ?_⟩
  · rw [← hpolicy']
    exact RateLimiter.policy_evict _ _
  · intro a t ht
    change t ∈ ((s.unswept.recordFailureUnswept ip now).bucket a).failures at ht
    rcases hkept a with hb | ⟨-, hb⟩
    · rw [hb] at ht
      exact hpast' a t ht
    · rw [hb] at ht
      cases ht
  · intro a
    have hswept := RateLimiter.bucket_recordFailure hlive a
    rw [← RateLimiter.bucket_noted] at hswept
    exact (hnoted a).swept hswept (hkept a)

theorem matched_success (h : Matched P s) (ip : Ip) : Matched P (machine.next s (.success ip)) := by
  obtain ⟨rfl, hpolicy', hpast, halike⟩ := h
  have hgone : ∀ L : RateLimiter Ip, (L.recordSuccess ip).bucket ip = Bucket.empty := by
    intro L
    simp [RateLimiter.recordSuccess, RateLimiter.bucket]
  refine ⟨rfl, hpolicy', ?_, ?_⟩
  · intro a t ht
    change t ∈ ((s.unswept.recordSuccess ip).bucket a).failures at ht
    by_cases he : a = ip
    · subst he
      rw [hgone] at ht
      cases ht
    · rw [RateLimiter.bucket_recordSuccess_ne he] at ht
      exact hpast a t ht
  · intro a
    change Bucket.Alike s.last _ ((s.pruned.recordSuccess ip).bucket a) ((s.unswept.recordSuccess ip).bucket a)
    by_cases he : a = ip
    · subst he
      rw [hgone, hgone]
      exact .inl rfl
    · rw [RateLimiter.bucket_recordSuccess_ne he, RateLimiter.bucket_recordSuccess_ne he]
      exact halike a

theorem matched_next (h : Matched P s) {op : LimiterOp Ip} (ht : Timely s op) :
    Matched P (machine.next s op) ∧ ∀ answers, machine.out s op = some answers → answers.1 = answers.2 := by
  cases op with
  | check ip now =>
    obtain ⟨hm, hsame⟩ := matched_check h ht
    refine ⟨hm, fun answers hans => ?_⟩
    cases hans
    exact hsame
  | failure ip now => exact ⟨matched_failure h ht, fun answers hans => by cases hans⟩
  | success ip => exact ⟨matched_success h ip, fun answers hans => by cases hans⟩

/-- Every answer of a run is the same from both. -/
theorem answers_agree {ops : List (LimiterOp Ip)} (hd : machine.Admissible Timely s ops) (h : Matched P s) :
    ∀ e ∈ machine.trace s ops, ∀ answers, e.2 = some answers → answers.1 = answers.2 := by
  induction ops generalizing s with
  | nil => intro e he; cases he
  | cons op ops ih =>
    obtain ⟨hop, hops⟩ := hd
    obtain ⟨hnext, hans⟩ := matched_next h hop
    intro e he
    rcases List.mem_cons.mp he with rfl | he
    · exact hans
    · exact ih hops hnext e he

/-- After every failure no more than the cap are tracked; what the cap evicts expires no later than what
    it keeps; and over every run in which time does not run backwards, no more than the cap are live,
    and no failure meets a lockout that a sweep has forgotten, each check is answered as if nothing had
    been swept. -/
theorem pruning_invisible (P : RateLimitPolicy) :
    (∀ (L : RateLimiter Ip) (ip : Ip) (now : Nat), (L.recordFailure ip now).tracked ≤ L.policy.maxTracked) ∧
    (∀ (L : RateLimiter Ip) (ip : Ip) (now : Nat) (a b : Ip) (out kept : Bucket),
      ((L.noted ip now).sweep now).map.lookup a = some out → (L.recordFailure ip now).map.lookup a = none →
      (L.recordFailure ip now).map.lookup b = some kept →
      out.expiresAt now L.policy.window ≤ kept.expiresAt now L.policy.window) ∧
    ∀ ops : List (LimiterOp Ip), machine.Admissible Timely (start P) ops →
      ∀ e ∈ machine.trace (start P) ops, ∀ answers, e.2 = some answers → answers.1 = answers.2 := by
  refine ⟨fun L ip now => RateLimiter.tracked_recordFailure L ip now, ?_, fun ops hd => answers_agree hd (matched_start P)⟩
  intro L ip now a b out kept ha hgone hb
  have h := RateLimiter.evict_soonest ha hgone hb
  rw [RateLimiter.policy_sweep] at h
  exact h

/-- A run in which a sweep drops an address that has been locked out, and a limiter for one address that
    is given two. -/
theorem pruning_invisible_swept :
    let P : RateLimitPolicy := ⟨2, 60, 30, 2⟩
    let ops : List (LimiterOp Nat) := [.failure 1 0, .failure 1 5, .check 1 10, .failure 2 70, .check 1 75, .failure 1 75,
      .success 2, .check 1 80]
    let L : RateLimiter Nat := ⟨⟨2, 60, 30, 1⟩, (∅ : Table Nat Bucket).insert 1 ⟨[0], none⟩, some 0⟩
    (L.recordFailure 2 5).tracked ≤ 1 ∧
      (⟨[0], none⟩ : Bucket).expiresAt 5 60 ≤ (⟨[5], none⟩ : Bucket).expiresAt 5 60 ∧
      ((machine.run (start P) ops).pruned.bucket 1 = ⟨[75], none⟩ ∧
        ∀ e ∈ machine.trace (start P) ops, ∀ answers, e.2 = some answers → answers.1 = answers.2) := by
  intro P ops L
  have hevicted : (L.recordFailure 2 5).map.entries = [⟨2, ⟨[5], none⟩⟩] := by
    have hswept : (L.noted 2 5).sweep 5 =
        ⟨⟨2, 60, 30, 1⟩, ((∅ : Table Nat Bucket).insert 1 ⟨[0], none⟩).insert 2 ⟨[5], none⟩, some 5⟩ := by
      rfl
    rw [RateLimiter.recordFailure, RateLimiter.prune, hswept]
    simp [RateLimiter.evict, Bucket.expiresAt, List.mergeSort]
    rfl
  have hlookup : ∀ a, (L.recordFailure 2 5).map.lookup a = List.dlookup a [(⟨2, ⟨[5], none⟩⟩ : Sigma fun _ : Nat => Bucket)] := by
    intro a
    rw [AList.lookup, hevicted]
  refine ⟨(pruning_invisible P).1 L 2 5, ?_, by decide, (pruning_invisible P).2.2 ops (by decide)⟩
  exact (pruning_invisible P).2.1 L 2 5 1 2 ⟨[0], none⟩ ⟨[5], none⟩ (by decide) (by rw [hlookup]; rfl) (by rw [hlookup]; rfl)

/-- Under the default policy: two addresses, no more of them than the cap. The sweep at 60 s drops the
    first one's lockout; the one that is not swept is taken for the end of the failure at 61 s as
    well. -/
theorem stale_lockout_forgives :
    let s := nanosPerSec
    let ops : List (LimiterOp Nat) := List.replicate 5 (.failure 1 0) ++
      [.failure 2 (60 * s), .failure 1 (61 * s), .check 1 (62 * s)] ++ List.replicate 4 (.failure 1 (62 * s)) ++
      [.check 1 (63 * s)]
    machine.Admissible Paced (start RateLimitPolicy.default) ops ∧
      (machine.trace (start RateLimitPolicy.default) ops).getLast? = some (.check 1 (63 * s), some (false, true)) := by
  decide +kernel

end Twins

end Holdfast.Daemon

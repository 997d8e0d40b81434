/-
  Holdfast.Base.Runs — the maximal runs of a property over an interval of numbers, found by
  one scan, and search among them.

  A list of inclusive ranges is `IsRuns` of a property if it has exactly the numbers with
  it, the ranges in order and with a gap between any two, so none can be longer.

  - `isRuns_ranges`: the scan finds them.
  - `IsRuns.maximal`: no run can be extended.
  - `searchBy_iff`: a binary search with a comparator that splits the list finds what
    there is to find.
-/

import Mathlib.Data.List.Pairwise

namespace Holdfast.Base.Runs

abbrev Range := Nat × Nat

def Range.Has (r : Range) (n : Nat) : Prop := r.1 ≤ n ∧ n ≤ r.2

/-- The runs that are over, and the last one found. -/
structure Scan where
  done : List Range
  run : Option Range

def Scan.all (s : Scan) : List Range := s.done ++ s.run.toList

def Scan.take (p : Nat → Bool) (s : Scan) (n : Nat) : Scan :=
  if p n then
    match s.run with
    | some (first, last) => if last + 1 = n then ⟨s.done, some (first, n)⟩ else ⟨s.done ++ [(first, last)], some (n, n)⟩
    | none => ⟨s.done, some (n, n)⟩
  else s

def ranges (p : Nat → Bool) (lo hi : Nat) : List Range :=
  ((List.range' lo (hi + 1 - lo)).foldl (Scan.take p) ⟨[], none⟩).all

/-- The runs of `p` from `lo` on, below `stop`. -/
structure IsRuns (p : Nat → Bool) (lo stop : Nat) (l : List Range) : Prop where
  within : ∀ r ∈ l, lo ≤ r.1 ∧ r.1 ≤ r.2 ∧ r.2 < stop
  holds : ∀ r ∈ l, ∀ n, r.Has n → p n = true
  apart : l.Pairwise fun r s => r.2 + 1 < s.1
  covers : ∀ n, lo ≤ n → n < stop → p n = true → ∃ r ∈ l, r.Has n

variable {p : Nat → Bool} {lo stop : Nat} {l : List Range}

theorem IsRuns.mem_iff (h : IsRuns p lo stop l) {n : Nat} (hlo : lo ≤ n) (hstop : n < stop) : (∃ r ∈ l, r.Has n) ↔ p n = true :=
  ⟨fun ⟨r, hr, hn⟩ => h.holds r hr n hn, h.covers n hlo hstop⟩

/-- A run ends where the interval or the property does. -/
theorem IsRuns.maximal (h : IsRuns p lo stop l) {r : Range} (hr : r ∈ l) :
    (r.1 = lo ∨ p (r.1 - 1) = false) ∧ (r.2 + 1 = stop ∨ p (r.2 + 1) = false) := by
  obtain ⟨hlo, hle, hstop⟩ := h.within r hr
  have hother : ∀ s ∈ l, ∀ n, s.Has n → ¬ r.Has n → n + 1 ≠ r.1 ∧ n ≠ r.2 + 1 := by
    intro s hs n hsn hrn
    have hne : r ≠ s := by
      rintro rfl
      exact hrn hsn
    have hsym : l.Pairwise fun r s => r.2 + 1 < s.1 ∨ s.2 + 1 < r.1 := h.apart.imp Or.inl
    have : Std.Symm fun r s : Range => r.2 + 1 < s.1 ∨ s.2 + 1 < r.1 := ⟨fun _ _ hor => hor.symm⟩
    have happart := hsym.forall hr hs hne
    unfold Range.Has at hsn
    omega
  constructor
  · by_contra hno
    obtain ⟨hfirst, hp⟩ := not_or.mp hno
    obtain ⟨s, hs, hn⟩ := h.covers (r.1 - 1) (by omega) (by omega) (by simpa using hp)
    exact (hother s hs _ hn (by unfold Range.Has; omega)).1 (by omega)
  · by_contra hno
    obtain ⟨hlast, hp⟩ := not_or.mp hno
    obtain ⟨s, hs, hn⟩ := h.covers (r.2 + 1) (by omega) (by omega) (by simpa using hp)
    exact (hother s hs _ hn (by unfold Range.Has; omega)).2 rfl

/-! ## The scan -/

/-- The runs so far, the last of them at hand. -/
structure Scanned (p : Nat → Bool) (lo n : Nat) (s : Scan) : Prop where
  runs : IsRuns p lo n s.all
  first : s.run = none → s.done = []

theorem IsRuns.skip (h : IsRuns p lo stop l) (hp : p stop = false) : IsRuns p lo (stop + 1) l := by
  refine ⟨fun r hr => ?_, h.holds, h.apart, fun n hlo hn hpn => ?_⟩
  · have hwithin := h.within r hr
    omega
  · have hne : n ≠ stop := by
      rintro rfl
      rw [hp] at hpn
      cases hpn
    exact h.covers n hlo (by omega) hpn

/-- A run of one number, apart from all before it. -/
theorem IsRuns.fresh (h : IsRuns p lo stop l) (hlo : lo ≤ stop) (hp : p stop = true) (hgap : ∀ r ∈ l, r.2 + 1 < stop) :
    IsRuns p lo (stop + 1) (l ++ [(stop, stop)]) := by
  refine ⟨fun r hr => ?_, fun r hr n hn => ?_, ?_, fun n hlo' hn hpn => ?_⟩
  · rcases List.mem_append.mp hr with hr | hr
    · have hwithin := h.within r hr
      omega
    · obtain rfl := List.mem_singleton.mp hr
      exact ⟨hlo, Nat.le_refl _, Nat.lt_succ_self _⟩
  · rcases List.mem_append.mp hr with hr | hr
    · exact h.holds r hr n hn
    · obtain rfl := List.mem_singleton.mp hr
      obtain rfl : n = stop := Nat.le_antisymm hn.2 hn.1
      exact hp
  · refine List.pairwise_append.mpr ⟨h.apart, List.pairwise_singleton _ _, fun r hr s hs => ?_⟩
    obtain rfl := List.mem_singleton.mp hs
    exact hgap r hr
  · rcases Nat.lt_or_ge n stop with hlt | hge
    · obtain ⟨r, hr, hrn⟩ := h.covers n hlo' hlt hpn
      exact ⟨r, List.mem_append_left _ hr, hrn⟩
    · exact ⟨(stop, stop), List.mem_append_right _ List.mem_cons_self, hge, by show n ≤ stop; omega⟩

/-- The last run, one number longer. -/
theorem IsRuns.extend {first last : Nat} (h : IsRuns p lo (last + 1) (l ++ [(first, last)])) (hp : p (last + 1) = true) :
    IsRuns p lo (last + 2) (l ++ [(first, last + 1)]) := by
  have hlast : (first, last) ∈ l ++ [(first, last)] := List.mem_append_right _ List.mem_cons_self
  obtain ⟨happart, _, hbefore⟩ := List.pairwise_append.mp h.apart
  have hwithin : lo ≤ first ∧ first ≤ last ∧ last < last + 1 := h.within _ hlast
  refine ⟨fun r hr => ?_, fun r hr n hn => ?_, ?_, fun n hlo hn hpn => ?_⟩
  · rcases List.mem_append.mp hr with hr | hr
    · have hrwithin := h.within r (List.mem_append_left _ hr)
      omega
    · obtain rfl := List.mem_singleton.mp hr
      show lo ≤ first ∧ first ≤ last + 1 ∧ last + 1 < last + 2
      omega
  · rcases List.mem_append.mp hr with hr | hr
    · exact h.holds r (List.mem_append_left _ hr) n hn
    · obtain rfl := List.mem_singleton.mp hr
      obtain ⟨hfirst, hn⟩ : first ≤ n ∧ n ≤ last + 1 := hn
      rcases Nat.lt_or_ge last n with hlt | hge
      · obtain rfl : n = last + 1 := by omega
        exact hp
      · exact h.holds _ hlast n ⟨hfirst, hge⟩
  · refine List.pairwise_append.mpr ⟨happart, List.pairwise_singleton _ _, fun r hr s hs => ?_⟩
    obtain rfl := List.mem_singleton.mp hs
    exact hbefore r hr (first, last) List.mem_cons_self
  · rcases Nat.lt_or_ge last n with hlt | hge
    · refine ⟨(first, last + 1), List.mem_append_right _ List.mem_cons_self, ?_, ?_⟩
      · show first ≤ n
        omega
      · show n ≤ last + 1
        omega
    · obtain ⟨r, hr, hrn⟩ := h.covers n hlo (by omega) hpn
      rcases List.mem_append.mp hr with hr | hr
      · exact ⟨r, List.mem_append_left _ hr, hrn⟩
      · obtain rfl := List.mem_singleton.mp hr
        exact ⟨(first, last + 1), List.mem_append_right _ List.mem_cons_self, hrn.1, Nat.le_succ_of_le hrn.2⟩

theorem scanned_take {n : Nat} {s : Scan} (h : Scanned p lo n s) (hlo : lo ≤ n) : Scanned p lo (n + 1) (s.take p n) := by
  obtain ⟨done, run⟩ := s
  unfold Scan.take
  by_cases hp : p n = true
  · rw [if_pos hp]
    rcases run with _ | ⟨first, last⟩
    · obtain rfl : done = [] := h.first rfl
      exact ⟨h.runs.fresh hlo hp nofun, nofun⟩
    · dsimp only
      have hlast : lo ≤ first ∧ first ≤ last ∧ last < n :=
        h.runs.within (first, last) (List.mem_append_right _ List.mem_cons_self)
      split
      · rename_i hnext
        subst hnext
        exact ⟨h.runs.extend hp, nofun⟩
      · rename_i hgap
        refine ⟨h.runs.fresh hlo hp fun r hr => ?_, nofun⟩
        rcases List.mem_append.mp hr with hr | hr
        · have hbefore : r.2 + 1 < first := (List.pairwise_append.mp h.runs.apart).2.2 r hr (first, last) List.mem_cons_self
          omega
        · obtain rfl := List.mem_singleton.mp hr
          show last + 1 < n
          omega
  · rw [if_neg hp]
    exact ⟨h.runs.skip (Bool.not_eq_true _ ▸ hp), h.first⟩

theorem scanned_range (p : Nat → Bool) (lo count : Nat) :
    Scanned p lo (lo + count) ((List.range' lo count).foldl (Scan.take p) ⟨[], none⟩) := by
  induction count with
  | zero => exact ⟨⟨nofun, nofun, List.Pairwise.nil, fun n hlo hn => by omega⟩, fun _ => rfl⟩
  | succ count ih =>
    rw [List.range'_concat, List.foldl_append, Nat.one_mul]
    exact scanned_take ih (Nat.le_add_right _ _)

theorem isRuns_ranges (p : Nat → Bool) (lo hi : Nat) : IsRuns p lo (lo + (hi + 1 - lo)) (ranges p lo hi) :=
  (scanned_range p lo _).runs

/-! ## Search -/

/-- Whatever is not below what is looked for has only more above it. -/
def Splits {α : Type*} (f : α → Ordering) (l : List α) : Prop := l.Pairwise fun a b => f a ≠ .lt → f b = .gt

/-- The binary search of `slice::binary_search_by`, among `size` entries from `base` on. -/
def searchFrom {α : Type*} (f : α → Ordering) (l : List α) (base size : Nat) : Bool :=
  if size > 1 then
    match l[base + size / 2]? with
    | none => false
    | some x => searchFrom f l (if f x = .gt then base else base + size / 2) (size - size / 2)
  else
    match l[base]? with
    | none => false
    | some x => f x = .eq
termination_by size
decreasing_by omega

def searchBy {α : Type*} (f : α → Ordering) (l : List α) : Bool := if l.isEmpty then false else searchFrom f l 0 l.length

section

variable {α : Type*} {f : α → Ordering} {l : List α}

theorem Splits.gt_after (h : Splits f l) {i j : Nat} {x y : α} (hx : l[i]? = some x) (hy : l[j]? = some y) (hij : i < j)
    (hf : f x ≠ .lt) : f y = .gt := by
  obtain ⟨hi, rfl⟩ := List.getElem?_eq_some_iff.mp hx
  obtain ⟨hj, rfl⟩ := List.getElem?_eq_some_iff.mp hy
  exact List.pairwise_iff_getElem.mp h i j hi hj hij hf

/-- What is looked for, if it is there, lies among the entries searched. -/
theorem searchFrom_iff (h : Splits f l) (base size : Nat) (hsize : 0 < size) (hlen : base + size ≤ l.length) :
    searchFrom f l base size = true ↔ ∃ i x, base ≤ i ∧ i < base + size ∧ l[i]? = some x ∧ f x = .eq := by
  induction base, size using searchFrom.induct (f := f) (l := l) with
  | case1 base size hgt hnone =>
    rw [List.getElem?_eq_none_iff] at hnone
    omega
  | case2 base size hgt mid hmid ih =>
    rw [searchFrom, if_pos hgt, hmid]
    dsimp only
    by_cases hf : f mid = .gt
    · rw [dif_pos hf] at ih
      rw [if_pos hf]
      rw [ih (by omega) (by omega)]
      constructor
      · rintro ⟨i, x, hlo, hhi, hx, heq⟩
        exact ⟨i, x, hlo, by omega, hx, heq⟩
      · rintro ⟨i, x, hlo, hhi, hx, heq⟩
        refine ⟨i, x, hlo, ?_, hx, heq⟩
        -- nothing from the middle on is equal
        rcases Nat.lt_trichotomy (base + size / 2) i with hlt | rfl | hgt'
        · rw [h.gt_after hmid hx hlt (by rw [hf]; nofun)] at heq
          cases heq
        · rw [Option.some.inj (hmid.symm.trans hx), heq] at hf
          cases hf
        · omega
    · rw [dif_neg hf] at ih
      rw [if_neg hf]
      rw [ih (by omega) (by omega)]
      constructor
      · rintro ⟨i, x, hlo, hhi, hx, heq⟩
        exact ⟨i, x, by omega, by omega, hx, heq⟩
      · rintro ⟨i, x, hlo, hhi, hx, heq⟩
        refine ⟨i, x, ?_, by omega, hx, heq⟩
        -- nothing before the middle is equal
        by_contra hlt
        exact hf (h.gt_after hx hmid (by omega) (by rw [heq]; nofun))
  | case3 base size hle hnone =>
    rw [List.getElem?_eq_none_iff] at hnone
    omega
  | case4 base size hle x hx =>
    rw [searchFrom, if_neg hle, hx]
    dsimp only
    rw [decide_eq_true_eq]
    constructor
    · intro heq
      exact ⟨base, x, Nat.le_refl _, by omega, hx, heq⟩
    · rintro ⟨i, y, hlo, hhi, hy, heq⟩
      obtain rfl : i = base := by omega
      rw [hx] at hy
      obtain rfl := Option.some.inj hy
      exact heq

theorem searchBy_iff (h : Splits f l) : searchBy f l = true ↔ ∃ x ∈ l, f x = .eq := by
  unfold searchBy
  rcases hl : l with _ | ⟨first, rest⟩
  · exact iff_of_false Bool.false_ne_true fun ⟨x, hx, _⟩ => absurd hx List.not_mem_nil
  · rw [List.isEmpty_cons, if_neg Bool.false_ne_true, ← hl,
      searchFrom_iff h 0 l.length (by rw [hl]; exact Nat.succ_pos _) (by omega)]
    constructor
    · rintro ⟨i, x, _, _, hx, heq⟩
      exact ⟨x, List.mem_of_getElem? hx, heq⟩
    · rintro ⟨x, hx, heq⟩
      obtain ⟨i, hi⟩ := List.mem_iff_getElem?.mp hx
      obtain ⟨hlt, _⟩ := List.getElem?_eq_some_iff.mp hi
      exact ⟨i, x, Nat.zero_le _, by omega, hi, heq⟩

end

end Holdfast.Base.Runs

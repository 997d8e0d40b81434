/-
  Holdfast.Base.Table — finite tables (hash maps) as association lists.

  A `Table K V` is Mathlib's `AList` at a constant value type: keys are unique by
  construction. What is added is what a hash map offers beside lookup, insert and erase:
  counting the values that satisfy a predicate, changing one value or all of them in place
  and keeping only some entries.

  - `lookup_adjust_same` / `lookup_adjust_ne` / `lookup_mapValues` / `lookup_retain`: what
    is found after `adjust`, `mapValues` and `retain`.
  - `Within`: what only loses entries, as `erase` and `retain` do.
  - `count_insert` / `count_adjust`: how one insertion or change moves a count.
  - `length_foldl_erase` / `lookup_foldl_erase`: what is left after erasing several.
-/

import Mathlib.Data.List.AList

namespace Holdfast.Base

abbrev Table (K V : Type*) := AList (fun _ : K => V)

namespace Table

variable {K V : Type*}

def count (p : V → Bool) (t : Table K V) : Nat := t.entries.countP fun x => p x.2

def values (t : Table K V) : List V := t.entries.map (·.2)

def retain (p : K → V → Bool) (t : Table K V) : Table K V :=
  ⟨t.entries.filter fun x => p x.1 x.2, t.nodupKeys.sublist List.filter_sublist⟩

theorem keys_map_snd (g : K → V → V) (l : List (Sigma fun _ : K => V)) :
    List.keys (l.map fun x => (⟨x.1, g x.1 x.2⟩ : Sigma fun _ : K => V)) = l.keys := by
  simp [List.keys, Function.comp_def]

/-- Change every value in place. -/
def mapValues (t : Table K V) (g : K → V → V) : Table K V :=
  ⟨t.entries.map fun x => ⟨x.1, g x.1 x.2⟩, by
    have h := t.nodupKeys
    rw [List.NodupKeys, keys_map_snd g]
    exact h⟩

/-- Change the value under `k`, if there is one, in place. -/
def adjust [DecidableEq K] (t : Table K V) (k : K) (f : V → V) : Table K V :=
  ⟨t.entries.map fun x => ⟨x.1, if x.1 = k then f x.2 else x.2⟩, by
    have h := t.nodupKeys
    rw [List.NodupKeys, keys_map_snd (fun a v => if a = k then f v else v)]
    exact h⟩

@[simp] theorem keys_adjust [DecidableEq K] (t : Table K V) (k : K) (f : V → V) : (t.adjust k f).keys = t.keys :=
  keys_map_snd (fun a v => if a = k then f v else v) t.entries

variable [DecidableEq K]

theorem mem_entries_iff {t : Table K V} {k : K} {v : V} : (⟨k, v⟩ : Sigma fun _ : K => V) ∈ t.entries ↔ t.lookup k = some v :=
  AList.mem_lookup_iff.symm

theorem count_erase_le (t : Table K V) (k : K) (p : V → Bool) : count p (t.erase k) ≤ count p t :=
  (List.kerase_sublist k t.entries).countP_le

theorem lookup_insert_some {t : Table K V} {k a : K} {v w : V} :
    (t.insert k v).lookup a = some w ↔ a = k ∧ w = v ∨ a ≠ k ∧ t.lookup a = some w := by
  by_cases h : a = k
  · subst h
    rw [AList.lookup_insert]
    simp [eq_comm]
  · rw [AList.lookup_insert_ne h]
    simp [h]

theorem count_insert (t : Table K V) (k : K) (v : V) (p : V → Bool) :
    count p (t.insert k v) = count p (t.erase k) + (p v).toNat := by
  unfold count
  rw [AList.entries_insert, List.countP_cons]
  cases p v <;> rfl

theorem count_insert_le (t : Table K V) (k : K) (v : V) (p : V → Bool) :
    count p (t.insert k v) ≤ count p t + (p v).toNat := by
  rw [count_insert]
  have := count_erase_le t k p
  omega

theorem dlookup_map_snd (g : K → V → V) (l : List (Sigma fun _ : K => V)) (a : K) :
    (l.map fun x => (⟨x.1, g x.1 x.2⟩ : Sigma fun _ : K => V)).dlookup a = (l.dlookup a).map (g a) := by
  induction l with
  | nil => rfl
  | cons x l ih =>
    obtain ⟨k', v'⟩ := x
    by_cases e : a = k'
    · subst e
      rw [List.map_cons, List.dlookup_cons_eq, List.dlookup_cons_eq]
      rfl
    · rw [List.map_cons, List.dlookup_cons_ne _ _ e, List.dlookup_cons_ne _ _ e, ih]

theorem lookup_mapValues (t : Table K V) (g : K → V → V) (a : K) : (t.mapValues g).lookup a = (t.lookup a).map (g a) :=
  dlookup_map_snd g t.entries a

theorem dlookup_adjust (l : List (Sigma fun _ : K => V)) (k : K) (f : V → V) (a : K) :
    (l.map fun x => (⟨x.1, if x.1 = k then f x.2 else x.2⟩ : Sigma fun _ : K => V)).dlookup a =
      (l.dlookup a).map fun v => if a = k then f v else v :=
  dlookup_map_snd (fun b v => if b = k then f v else v) l a

theorem lookup_adjust (t : Table K V) (k : K) (f : V → V) (a : K) :
    (t.adjust k f).lookup a = (t.lookup a).map fun v => if a = k then f v else v := dlookup_adjust t.entries k f a

theorem lookup_adjust_some {t : Table K V} {k a : K} {f : V → V} {w : V} :
    (t.adjust k f).lookup a = some w ↔ ∃ v, t.lookup a = some v ∧ (if a = k then f v else v) = w := by
  rw [lookup_adjust, Option.map_eq_some_iff]

@[simp] theorem lookup_adjust_same (t : Table K V) (k : K) (f : V → V) :
    (t.adjust k f).lookup k = (t.lookup k).map f :=
  (dlookup_adjust t.entries k f k).trans (by simp [AList.lookup])

theorem lookup_adjust_ne (t : Table K V) {k a : K} (f : V → V) (h : a ≠ k) :
    (t.adjust k f).lookup a = t.lookup a :=
  (dlookup_adjust t.entries k f a).trans (by simp [AList.lookup, h])

/-- Changing a value to itself changes nothing, not even the order. -/
theorem adjust_eq_self {t : Table K V} {k : K} {f : V → V} (h : ∀ v, t.lookup k = some v → f v = v) :
    t.adjust k f = t := by
  refine AList.ext ?_
  show (t.entries.map fun x => (⟨x.1, if x.1 = k then f x.2 else x.2⟩ : Sigma fun _ : K => V)) = t.entries
  conv_rhs => rw [← List.map_id t.entries]
  apply List.map_congr_left
  intro x hx
  obtain ⟨a, v⟩ := x
  by_cases e : a = k
  · subst e
    simp [h v (mem_entries_iff.mp hx)]
  · simp [e]

theorem adjust_congr {t : Table K V} {k : K} {f g : V → V} (h : ∀ v, t.lookup k = some v → f v = g v) :
    t.adjust k f = t.adjust k g := by
  apply AList.ext
  apply List.map_congr_left
  intro x hx
  obtain ⟨a, v⟩ := x
  by_cases e : a = k
  · subst e
    simp [h v (mem_entries_iff.mp hx)]
  · simp [e]

theorem map_adjust_of_notMem {l : List (Sigma fun _ : K => V)} {k : K} (f : V → V) (h : k ∉ l.keys) :
    (l.map fun x => (⟨x.1, if x.1 = k then f x.2 else x.2⟩ : Sigma fun _ : K => V)) = l := by
  conv_rhs => rw [← List.map_id l]
  apply List.map_congr_left
  intro y hy
  have hy' : y.1 ≠ k := fun e => h (e ▸ List.mem_map_of_mem hy)
  simp [hy']

/-- Changing one value exchanges its share of the count. -/
theorem count_adjust {t : Table K V} {k : K} {v : V} (p : V → Bool) (f : V → V) (h : t.lookup k = some v) :
    count p (t.adjust k f) + (p v).toNat = count p t + (p (f v)).toNat := by
  obtain ⟨l, hl⟩ := t
  replace h : l.dlookup k = some v := h
  show (l.map fun x => (⟨x.1, if x.1 = k then f x.2 else x.2⟩ : Sigma fun _ : K => V)).countP _ + _ = l.countP _ + _
  induction l with
  | nil => cases h
  | cons x l ih =>
    obtain ⟨k', v'⟩ := x
    have hl' := List.nodupKeys_cons.mp hl
    rw [List.map_cons, List.countP_cons, List.countP_cons]
    by_cases e : k = k'
    · subst e
      rw [List.dlookup_cons_eq] at h
      cases h
      rw [map_adjust_of_notMem f hl'.1]
      simp only [if_true]
      cases hv : p v <;> cases hf : p (f v) <;> simp
    · rw [List.dlookup_cons_ne _ _ e] at h
      have := ih hl'.2 h
      simp only [Ne.symm e, if_false]
      omega

theorem lookup_retain (p : K → V → Bool) (t : Table K V) (k : K) :
    (t.retain p).lookup k = (t.lookup k).filter (p k) := by
  obtain ⟨l, hl⟩ := t
  show (l.filter fun x => p x.1 x.2).dlookup k = (l.dlookup k).filter (p k)
  induction l with
  | nil => rfl
  | cons x l ih =>
    obtain ⟨k', v'⟩ := x
    have hl' := List.nodupKeys_cons.mp hl
    have ih' := ih hl'.2
    by_cases e : k = k'
    · subst e
      rw [List.dlookup_cons_eq, List.filter_cons]
      cases hp : p k v'
      · have hn : l.dlookup k = none := List.dlookup_eq_none.mpr hl'.1
        rw [Option.filter_some, hp]
        simp [ih', hn]
      · rw [Option.filter_some, hp]
        simp
    · rw [List.dlookup_cons_ne _ _ e, List.filter_cons]
      cases hp : p k' v'
      · simpa using ih'
      · simp only [if_true]
        rw [List.dlookup_cons_ne _ _ e, ih']

theorem values_of_lookup_none {t : Table K V} (h : ∀ k, t.lookup k = none) : t.values = [] := by
  rw [List.eq_nil_iff_forall_not_mem]
  intro v hv
  obtain ⟨x, hx, rfl⟩ := List.mem_map.mp hv
  have hl := mem_entries_iff.mp hx
  rw [h x.1] at hl
  cases hl

theorem lookup_of_keys_nil {t : Table K V} (h : t.keys = []) (k : K) : t.lookup k = none := by
  rw [AList.lookup_eq_none, AList.mem_keys, h]
  exact List.not_mem_nil

theorem length_erase {t : Table K V} {k : K} (h : k ∈ t.keys) :
    (t.erase k).entries.length + 1 = t.entries.length := by
  have hk := congrArg List.length (AList.keys_erase k t)
  rw [List.length_erase_of_mem h] at hk
  have hpos := List.length_pos_of_mem h
  simp only [AList.keys, List.keys, List.length_map] at hk hpos
  omega

/-- Erasing different keys that are all there takes as many entries. -/
theorem length_foldl_erase {ks : List K} (hnd : ks.Nodup) {t : Table K V} (hks : ∀ k ∈ ks, k ∈ t.keys) :
    (ks.foldl (fun t k => t.erase k) t).entries.length + ks.length = t.entries.length := by
  induction ks generalizing t with
  | nil => rfl
  | cons k ks ih =>
    obtain ⟨hk, hnd⟩ := List.nodup_cons.mp hnd
    have hlen := length_erase (hks k List.mem_cons_self)
    have hrest : ∀ a ∈ ks, a ∈ (t.erase k).keys := by
      intro a ha
      have hne : a ≠ k := fun e => hk (e ▸ ha)
      rw [AList.keys_erase]
      exact (List.mem_erase_of_ne hne).mpr (hks a (List.mem_cons_of_mem _ ha))
    have := ih hnd hrest
    simp only [List.foldl_cons, List.length_cons]
    omega

theorem lookup_foldl_erase (ks : List K) (t : Table K V) (a : K) :
    (ks.foldl (fun t k => t.erase k) t).lookup a = if a ∈ ks then none else t.lookup a := by
  induction ks generalizing t with
  | nil => rfl
  | cons k ks ih =>
    rw [List.foldl_cons, ih]
    by_cases hmem : a ∈ ks
    · simp [hmem]
    · by_cases he : a = k
      · subst he
        simp [hmem]
      · simp [hmem, he, AList.lookup_erase_ne he]

theorem values_insert {t : Table K V} {k : K} (h : t.lookup k = none) (v : V) : values (t.insert k v) = v :: t.values := by
  have herase : List.kerase k t.entries = t.entries := List.kerase_of_notMem_keys (List.dlookup_eq_none.mp h)
  rw [values, AList.entries_insert, herase]
  rfl

theorem values_erase {t : Table K V} {k : K} {v : V} (h : t.lookup k = some v) : t.values.Perm (v :: values (t.erase k)) := by
  have hmem : k ∈ t.entries.keys := by
    by_contra hn
    rw [AList.lookup, List.dlookup_eq_none.mpr hn] at h
    cases h
  obtain ⟨n, l₁, l₂, hnot, hl, herase⟩ := List.exists_of_kerase hmem
  have hn : n = v := by
    rw [AList.lookup, hl, List.dlookup_append, List.dlookup_eq_none.mpr hnot, Option.none_or, List.dlookup_cons_eq] at h
    exact Option.some.inj h
  have hentries : (t.erase k).entries = l₁ ++ l₂ := herase
  rw [values, values, hentries, hl, hn, List.map_append, List.map_append, List.map_cons]
  exact List.perm_middle

/-! ## Tables that only lose entries -/

/-- Every entry was there. -/
def Within (t' t : Table K V) : Prop := ∀ k v, t'.lookup k = some v → t.lookup k = some v

theorem Within.lookup_none {t' t : Table K V} (h : Within t' t) {k : K} (hk : t.lookup k = none) :
    t'.lookup k = none := by
  cases h' : t'.lookup k with
  | none => rfl
  | some v =>
    rw [h k v h'] at hk
    cases hk

theorem within_refl (t : Table K V) : Within t t := fun _ _ h => h

theorem within_empty (t : Table K V) : Within ∅ t := by
  intro k v h
  cases h

theorem within_erase (t : Table K V) (k : K) : Within (t.erase k) t := by
  intro a v ha
  by_cases h : a = k
  · subst h
    rw [AList.lookup_erase] at ha
    cases ha
  · rwa [AList.lookup_erase_ne h] at ha

theorem within_retain (p : K → V → Bool) (t : Table K V) : Within (t.retain p) t := by
  intro a v ha
  rw [lookup_retain, Option.filter_eq_some_iff] at ha
  exact ha.1

end Table

end Holdfast.Base

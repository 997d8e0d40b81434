/-
  Holdfast.Base.Slots — lists of tasks, each known by its index.

  A task is appended once and never moves, so its index names it for good. `Keeps f l l'`
  says that every task of `l` is at its index in `l'`, with what `f` sees of it unchanged.

  - `Keeps.set` / `Keeps.modify` / `Keeps.concat`: the updates of one slot, and a new one.
  - `countP_set_le` / `countP_modify_le`: an update that revives nothing adds nothing to a count.
  - `length_keys_eq_countP`: a table that names the live tasks, each once, is as long as
    there are such tasks.
-/

import Holdfast.Base.Table
import Mathlib.Data.List.Induction

namespace Holdfast.Base

variable {α β : Type*} {f : α → β} {l l' l'' : List α} {x y : α}

def Keeps (f : α → β) (l l' : List α) : Prop :=
  ∀ (i : Nat) x, l[i]? = some x → ∃ x', l'[i]? = some x' ∧ f x' = f x

namespace Keeps

theorem refl (f : α → β) (l : List α) : Keeps f l l := fun _ x h => ⟨x, h, rfl⟩

theorem trans (h : Keeps f l l') (h' : Keeps f l' l'') : Keeps f l l'' := by
  intro i x hx
  obtain ⟨y, hy, hxy⟩ := h i x hx
  obtain ⟨z, hz, hyz⟩ := h' i y hy
  exact ⟨z, hz, hyz.trans hxy⟩

theorem set {n : Nat} (hx : l[n]? = some x) (hy : f y = f x) : Keeps f l (l.set n y) := by
  intro i z hi
  by_cases h : i = n
  · subst h
    rw [hx] at hi
    cases hi
    obtain ⟨hlt, _⟩ := List.getElem?_eq_some_iff.mp hx
    exact ⟨y, List.getElem?_set_self hlt, hy⟩
  · exact ⟨z, by rw [List.getElem?_set_ne (Ne.symm h)]; exact hi, rfl⟩

theorem modify {g : α → α} (hg : ∀ x, f (g x) = f x) (n : Nat) : Keeps f l (l.modify n g) := by
  intro i z hi
  rw [List.getElem?_modify, hi]
  by_cases h : n = i
  · exact ⟨g z, by simp [h], hg z⟩
  · exact ⟨z, by simp [h], rfl⟩

theorem concat (l : List α) (y : α) : Keeps f l (l ++ [y]) := by
  intro i z hi
  obtain ⟨hlt, _⟩ := List.getElem?_eq_some_iff.mp hi
  exact ⟨z, by rw [List.getElem?_append_left hlt]; exact hi, rfl⟩

theorem foldl {ι : Type*} {g : List α → ι → List α} (hg : ∀ l i, Keeps f l (g l i)) (is : List ι) (l : List α) :
    Keeps f l (is.foldl g l) := by
  induction is generalizing l with
  | nil => exact refl f l
  | cons i is ih => exact (hg l i).trans (ih (g l i))

theorem length_le (h : Keeps f l l') : l.length ≤ l'.length := by
  by_contra hlt
  have hx : l[l'.length]? = some (l.get ⟨l'.length, by omega⟩) := List.getElem?_eq_getElem _
  obtain ⟨y, hy, _⟩ := h l'.length _ hx
  rw [List.getElem?_eq_none (Nat.le_refl _)] at hy
  cases hy

end Keeps

/-! ## How many there are -/

theorem countP_set_le {p : α → Bool} {n : Nat} (hx : l[n]? = some x) (h : p y = true → p x = true) :
    (l.set n y).countP p ≤ l.countP p := by
  obtain ⟨hlt, rfl⟩ := List.getElem?_eq_some_iff.mp hx
  rw [List.countP_set hlt]
  have hpos : p l[n] = true → 0 < l.countP p := fun hp => List.countP_pos_iff.mpr ⟨_, List.getElem_mem hlt, hp⟩
  cases hy : p y with
  | false =>
    show l.countP p - _ + 0 ≤ l.countP p
    omega
  | true =>
    have hp := h hy
    have := hpos hp
    rw [hp]
    show l.countP p - 1 + 1 ≤ l.countP p
    omega

theorem countP_modify_le {p : α → Bool} {g : α → α} (h : ∀ x, p (g x) = true → p x = true) (n : Nat) :
    (l.modify n g).countP p ≤ l.countP p := by
  cases hx : l[n]? with
  | none => rw [List.modify_eq_self (List.getElem?_eq_none_iff.mp hx)]
  | some x =>
    have hset : l.modify n g = l.set n (g x) := by
      rw [List.modify_eq_set_getElem?, hx]
      rfl
    rw [hset]
    exact countP_set_le hx (h x)

/-- The entry at an index, if there is one, is live. -/
def liveAt (p : α → Bool) (l : List α) (i : Nat) : Bool := (l[i]?.map p).getD false

theorem lt_of_liveAt {p : α → Bool} {i : Nat} (h : liveAt p l i = true) : i < l.length := by
  by_contra hge
  rw [liveAt, List.getElem?_eq_none (by omega)] at h
  cases h

theorem countP_eq_indices (p : α → Bool) (l : List α) :
    l.countP p = ((List.range l.length).filter (liveAt p l)).length := by
  induction l using List.reverseRecOn with
  | nil => rfl
  | append_singleton l x ih =>
    have hold : (List.range l.length).filter (liveAt p (l ++ [x])) = (List.range l.length).filter (liveAt p l) := by
      apply List.filter_congr
      intro i hi
      rw [liveAt, liveAt, List.getElem?_append_left (List.mem_range.mp hi)]
    have hnew : liveAt p (l ++ [x]) l.length = p x := by simp [liveAt]
    rw [List.length_append, List.length_singleton, List.range_succ, List.filter_append, hold, List.countP_append, ih,
      List.length_append, List.filter_singleton, hnew]
    cases hp : p x <;> simp [hp]

theorem length_keys_eq_countP {K V : Type} [DecidableEq K] {t : Table K V} {f : V → Nat} {p : α → Bool}
    (hinj : ∀ k k' v v', t.lookup k = some v → t.lookup k' = some v' → f v = f v' → k = k')
    (hlive : ∀ k v, t.lookup k = some v → liveAt p l (f v) = true)
    (hall : ∀ i, liveAt p l i = true → ∃ k v, t.lookup k = some v ∧ f v = i) : t.keys.length = l.countP p := by
  have hnodup : (t.values.map f).Nodup := by
    rw [Table.values, List.map_map]
    refine List.Nodup.map_on ?_ t.nodupKeys.nodup
    rintro ⟨k, v⟩ hx ⟨k', v'⟩ hy hxy
    have hk := hinj k k' v v' (Table.mem_entries_iff.mp hx) (Table.mem_entries_iff.mp hy) hxy
    subst hk
    have hv := (Table.mem_entries_iff.mp hx).symm.trans (Table.mem_entries_iff.mp hy)
    cases hv
    rfl
  have hmem : ∀ i, i ∈ t.values.map f ↔ i ∈ (List.range l.length).filter (liveAt p l) := by
    intro i
    rw [List.mem_filter, List.mem_range]
    refine ⟨?_, ?_⟩
    · intro hi
      obtain ⟨v, hv, rfl⟩ := List.mem_map.mp hi
      obtain ⟨x, hx, rfl⟩ := List.mem_map.mp hv
      have := hlive x.1 x.2 (Table.mem_entries_iff.mp hx)
      exact ⟨lt_of_liveAt this, this⟩
    · rintro ⟨_, hi⟩
      obtain ⟨k, v, hv, rfl⟩ := hall i hi
      exact List.mem_map.mpr ⟨v, List.mem_map.mpr ⟨⟨k, v⟩, Table.mem_entries_iff.mpr hv, rfl⟩, rfl⟩
  have hperm := (List.perm_ext_iff_of_nodup hnodup (List.nodup_range.filter _)).mpr hmem
  calc t.keys.length = (t.values.map f).length := by simp [Table.values, AList.keys, List.keys]
    _ = ((List.range l.length).filter (liveAt p l)).length := hperm.length_eq
    _ = l.countP p := (countP_eq_indices p l).symm

end Holdfast.Base

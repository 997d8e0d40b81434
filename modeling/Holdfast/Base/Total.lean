/-
  Holdfast.Base.Total — computations that may stop short (`none`), and what they give when
  they do not.

  `Gives x P`: the computation goes through, and what it gives satisfies `P`. One rule for
  each way to put computations together:
  - `Gives.bind`, `Gives.mono`, `gives_some`: in sequence, for less, for a value.
  - `gives_foldlM`, `gives_iterate`: a loop keeps what each of its steps keeps.

  `Option.Rel R x y`: two computations stop short together, or give what is related. The same
  rules again (`rel_bind`, `rel_mono`, `rel_foldlM`, `rel_iterate`).
-/

namespace Holdfast.Base.Total

variable {α β : Type _} {P Q : α → Prop}

def Gives (x : Option α) (P : α → Prop) : Prop := ∃ a, x = some a ∧ P a

@[simp] theorem gives_some {a : α} : Gives (some a) P ↔ P a :=
  ⟨fun ⟨_, h, hp⟩ => Option.some.inj h ▸ hp, fun h => ⟨a, rfl, h⟩⟩

theorem gives_pure {a : α} (h : P a) : Gives (pure a) P := gives_some.mpr h

theorem Gives.mono {x : Option α} (h : Gives x P) (hpq : ∀ a, P a → Q a) : Gives x Q := by
  obtain ⟨a, ha, hp⟩ := h
  exact ⟨a, ha, hpq a hp⟩

theorem Gives.bind {R : β → Prop} {x : Option α} {f : α → Option β} (h : Gives x P) (hf : ∀ a, P a → Gives (f a) R) :
    Gives (x >>= f) R := by
  obtain ⟨a, rfl, hp⟩ := h
  exact hf a hp

theorem gives_foldlM {f : α → β → Option α} {items : List β} (hf : ∀ a, P a → ∀ b ∈ items, Gives (f a b) P) {a : α} (h : P a) :
    Gives (items.foldlM f a) P := by
  induction items generalizing a with
  | nil => exact gives_pure h
  | cons b items ih =>
    rw [List.foldlM_cons]
    exact (hf a h b List.mem_cons_self).bind fun a' h' => ih (fun a h c hc => hf a h c (List.mem_cons_of_mem _ hc)) h'

/-- `f` over and over. -/
def iterate (f : α → Option α) : Nat → α → Option α
  | 0, a => some a
  | n + 1, a => f a >>= iterate f n

theorem gives_iterate {f : α → Option α} (hf : ∀ a, P a → Gives (f a) P) (n : Nat) {a : α} (h : P a) :
    Gives (iterate f n a) P := by
  induction n generalizing a with
  | zero => exact gives_some.mpr h
  | succ n ih => exact (hf a h).bind fun _ h' => ih h'

/-! ## Two computations -/

section

variable {α' β' : Type _} {R : α → α' → Prop} {S : β → β' → Prop}

theorem rel_pure {a : α} {a' : α'} (h : R a a') : Option.Rel R (pure a) (pure a') := .some h

theorem rel_mono {T : α → α' → Prop} {x : Option α} {y : Option α'} (h : Option.Rel R x y)
    (hrt : ∀ a a', R a a' → T a a') : Option.Rel T x y := by
  cases h with
  | some h => exact .some (hrt _ _ h)
  | none => exact .none

theorem rel_bind {x : Option α} {y : Option α'} {f : α → Option β} {g : α' → Option β'} (h : Option.Rel R x y)
    (hfg : ∀ a a', R a a' → Option.Rel S (f a) (g a')) : Option.Rel S (x >>= f) (y >>= g) := by
  cases h with
  | some h => exact hfg _ _ h
  | none => exact .none

theorem rel_foldlM {f : α → β → Option α} {g : α' → β → Option α'} {items : List β}
    (hfg : ∀ a a', R a a' → ∀ b ∈ items, Option.Rel R (f a b) (g a' b)) {a : α} {a' : α'} (h : R a a') :
    Option.Rel R (items.foldlM f a) (items.foldlM g a') := by
  induction items generalizing a a' with
  | nil => exact rel_pure h
  | cons b items ih =>
    rw [List.foldlM_cons, List.foldlM_cons]
    exact rel_bind (hfg a a' h b List.mem_cons_self) fun a a' h =>
      ih (fun a a' h c hc => hfg a a' h c (List.mem_cons_of_mem _ hc)) h

theorem rel_iterate {f : α → Option α} {g : α' → Option α'} (hfg : ∀ a a', R a a' → Option.Rel R (f a) (g a'))
    (n : Nat) {a : α} {a' : α'}
    (h : R a a') : Option.Rel R (iterate f n a) (iterate g n a') := by
  induction n generalizing a a' with
  | zero => exact .some h
  | succ n ih => exact rel_bind (hfg a a' h) fun _ _ h => ih h

theorem rel_none {x : Option α} {y : Option α'} (h : Option.Rel R x y) (hx : x = none) : y = none := by
  cases h with
  | some _ => cases hx
  | none => rfl

/-- Where both give something. -/
theorem rel_some {x : Option α} {y : Option α'} {a : α} (h : Option.Rel R x y) (ha : x = some a) :
    ∃ a', y = some a' ∧ R a a' := by
  cases h with
  | some h => exact ⟨_, rfl, Option.some.inj ha ▸ h⟩
  | none => cases ha

end

end Holdfast.Base.Total

/-
  Holdfast.Base.Machine — deterministic machines with inputs and outputs.

  A machine answers each input with an output and a next state; every choice the
  environment makes (a random draw, the outcome of a system call, which party moves) is
  part of the input. A run is a list of inputs; its trace pairs each input with the
  answer. What the environment promises about its inputs is a predicate on the state and
  the input (`Admissible`), not part of the machine.

  - `run_append` / `trace_append`: a run can be cut anywhere.
  - `run_induction`: a property of the state that one admissible step preserves holds
    after every admissible run.
  - `run_always`: the same where nothing is promised.
  - `admissible_of_invariant`: what each step from a state with the invariant does.
  - `trace_induction`: the same for a property that relates the state to the trace
    that led to it, by induction on the last step.
-/

import Mathlib.Data.List.Induction

namespace Holdfast.Base

structure Machine (σ ι ο : Type*) where
  step : σ → ι → σ × ο

namespace Machine

variable {σ ι ο : Type*} (M : Machine σ ι ο)

def next (s : σ) (i : ι) : σ := (M.step s i).1

def out (s : σ) (i : ι) : ο := (M.step s i).2

def run (s : σ) (is : List ι) : σ := is.foldl M.next s

/-- The inputs of a run, each with the machine's answer to it. -/
def trace (s : σ) : List ι → List (ι × ο)
  | [] => []
  | i :: is => (i, M.out s i) :: trace (M.next s i) is

/-- Every input of the run meets the environment's promise in the state that gets it. -/
def Admissible (ok : σ → ι → Prop) (s : σ) : List ι → Prop
  | [] => True
  | i :: is => ok s i ∧ Admissible ok (M.next s i) is

instance decidableAdmissible (ok : σ → ι → Prop) [∀ s i, Decidable (ok s i)] :
    (s : σ) → (is : List ι) → Decidable (M.Admissible ok s is)
  | _, [] => .isTrue trivial
  | s, i :: is => @instDecidableAnd _ _ _ (decidableAdmissible ok (M.next s i) is)

@[simp] theorem run_nil (s : σ) : M.run s [] = s := rfl
@[simp] theorem run_cons (s : σ) (i : ι) (is : List ι) : M.run s (i :: is) = M.run (M.next s i) is := rfl

theorem run_append (s : σ) (is js : List ι) : M.run s (is ++ js) = M.run (M.run s is) js :=
  List.foldl_append

@[simp] theorem run_snoc (s : σ) (is : List ι) (i : ι) : M.run s (is ++ [i]) = M.next (M.run s is) i := by
  rw [run_append]; rfl

theorem trace_append (s : σ) (is js : List ι) :
    M.trace s (is ++ js) = M.trace s is ++ M.trace (M.run s is) js := by
  induction is generalizing s with
  | nil => rfl
  | cons i is ih => simp only [List.cons_append, trace, run_cons, ih]

theorem trace_snoc (s : σ) (is : List ι) (i : ι) :
    M.trace s (is ++ [i]) = M.trace s is ++ [(i, M.out (M.run s is) i)] := by
  rw [trace_append]; rfl

theorem admissible_append {ok : σ → ι → Prop} {s : σ} {is js : List ι} :
    M.Admissible ok s (is ++ js) ↔ M.Admissible ok s is ∧ M.Admissible ok (M.run s is) js := by
  induction is generalizing s with
  | nil => simp [Admissible]
  | cons i is ih => simp only [List.cons_append, Admissible, run_cons, ih, and_assoc]

theorem admissible_snoc {ok : σ → ι → Prop} {s : σ} {is : List ι} {i : ι} :
    M.Admissible ok s (is ++ [i]) ↔ M.Admissible ok s is ∧ ok (M.run s is) i := by
  rw [admissible_append]; simp [Admissible]

/-- A promise and what is known of the trace, as one promise. -/
theorem admissible_and {ok : σ → ι → Prop} {q : ι × ο → Prop} {s : σ} {is : List ι} (h : M.Admissible ok s is)
    (hq : ∀ x ∈ M.trace s is, q x) : M.Admissible (fun s i => ok s i ∧ q (i, M.out s i)) s is := by
  induction is generalizing s with
  | nil => trivial
  | cons i is ih =>
    exact ⟨⟨h.1, hq _ List.mem_cons_self⟩, ih h.2 fun x hx => hq x (List.mem_cons_of_mem _ hx)⟩

/-- A promise about the inputs alone. -/
theorem admissible_of_forall {q : ι → Prop} {is : List ι} (h : ∀ i ∈ is, q i) (s : σ) :
    M.Admissible (fun _ i => q i) s is := by
  induction is generalizing s with
  | nil => trivial
  | cons i is ih => exact ⟨h i List.mem_cons_self, ih (fun j hj => h j (List.mem_cons_of_mem _ hj)) _⟩

theorem admissible_true (s : σ) (is : List ι) : M.Admissible (fun _ _ => True) s is :=
  M.admissible_of_forall (fun _ _ => trivial) s

/-- What one admissible step preserves, every admissible run preserves. -/
theorem run_induction {ok : σ → ι → Prop} {P : σ → Prop}
    (hstep : ∀ s i, P s → ok s i → P (M.next s i)) {s : σ} (h0 : P s) {is : List ι}
    (hok : M.Admissible ok s is) : P (M.run s is) := by
  induction is generalizing s with
  | nil => exact h0
  | cons i is ih => exact ih (hstep s i h0 hok.1) hok.2

/-- What holds of every admissible step from a state with the invariant holds along every
    admissible run. -/
theorem admissible_of_invariant {ok good : σ → ι → Prop} {P : σ → Prop}
    (hstep : ∀ s i, P s → ok s i → good s i ∧ P (M.next s i)) {s : σ} (h0 : P s) {is : List ι}
    (hok : M.Admissible ok s is) : M.Admissible good s is := by
  induction is generalizing s with
  | nil => trivial
  | cons i is ih =>
    obtain ⟨hgood, hnext⟩ := hstep s i h0 hok.1
    exact ⟨hgood, ih hnext hok.2⟩

/-- What every step preserves, every run preserves. -/
theorem run_always {P : σ → Prop} (hstep : ∀ s i, P s → P (M.next s i)) {s : σ} (h0 : P s) (is : List ι) : P (M.run s is) :=
  M.run_induction (fun s i h _ => hstep s i h) h0 (M.admissible_true s is)

/-- A property of the state together with the trace so far, by induction on the last step. -/
theorem trace_induction {ok : σ → ι → Prop} {P : List (ι × ο) → σ → Prop} {s₀ : σ} (h0 : P [] s₀)
    (hstep : ∀ tr s i, P tr s → ok s i → P (tr ++ [(i, M.out s i)]) (M.next s i)) {is : List ι}
    (hok : M.Admissible ok s₀ is) : P (M.trace s₀ is) (M.run s₀ is) := by
  induction is using List.reverseRecOn with
  | nil => exact h0
  | append_singleton is i ih =>
    obtain ⟨his, hi⟩ := (admissible_snoc M).mp hok
    rw [trace_snoc, run_snoc]
    exact hstep _ _ _ (ih his) hi

end Machine

end Holdfast.Base

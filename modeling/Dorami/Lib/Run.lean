import Mathlib.Algebra.GroupWithZero.Nat
import Mathlib.Order.Fin.Basic
import Mathlib.Tactic.Common

/-!
# Runs of a deterministic transition system

A system is a function `step : σ → ι → σ`: the state after the input `i`. A step that is not enabled
leaves the state as it is, so a run is just a list of inputs, and every interleaving of several
parties is a list of inputs tagged with the party that moves.

Two notions about runs are used: `StepsOk`, a condition on each step (and on the state before it),
and `Always`, a property of every state the run passes through. The rules below turn facts about one
step into facts about whole runs.
-/

namespace Dorami.Lib

variable {σ ι : Type*} (step : σ → ι → σ)

/-- The state after the inputs `is`. -/
def run (s : σ) (is : List ι) : σ := is.foldl step s

/-- Every step of the run meets `ok`, a condition on the state before the step and on its input. -/
def StepsOk (ok : σ → ι → Prop) : σ → List ι → Prop
  | _, [] => True
  | s, i :: is => ok s i ∧ StepsOk ok (step s i) is

/-- `P` holds in every state of the run, the first and the last one included. -/
def Always (P : σ → Prop) : σ → List ι → Prop
  | s, [] => P s
  | s, i :: is => P s ∧ Always P (step s i) is

instance StepsOk.decidable (ok : σ → ι → Prop) [∀ s i, Decidable (ok s i)] :
    ∀ (s : σ) (is : List ι), Decidable (StepsOk step ok s is)
  | _, [] => inferInstanceAs (Decidable True)
  | s, i :: is =>
    have := StepsOk.decidable ok (step s i) is
    inferInstanceAs (Decidable (ok s i ∧ StepsOk step ok (step s i) is))

instance Always.decidable (P : σ → Prop) [∀ s, Decidable (P s)] :
    ∀ (s : σ) (is : List ι), Decidable (Always step P s is)
  | s, [] => inferInstanceAs (Decidable (P s))
  | s, i :: is =>
    have := Always.decidable P (step s i) is
    inferInstanceAs (Decidable (P s ∧ Always step P (step s i) is))

variable {step}

@[simp] theorem run_nil (s : σ) : run step s ([] : List ι) = s := rfl

@[simp] theorem run_cons (s : σ) (i : ι) (is : List ι) :
    run step s (i :: is) = run step (step s i) is := rfl

theorem run_append (s : σ) (is js : List ι) :
    run step s (is ++ js) = run step (run step s is) js := by
  simp [run, List.foldl_append]

/-- A property of all states of a run holds in the first one. -/
theorem always_head {P : σ → Prop} {s : σ} {is : List ι} (h : Always step P s is) : P s := by
  cases is with
  | nil => exact h
  | cons i is => exact h.1

/-- Inputs that each leave the state as it is leave it so together. -/
theorem run_fixed {s : σ} (is : List ι) (h : ∀ i ∈ is, step s i = s) : run step s is = s := by
  induction is with
  | nil => rfl
  | cons i is ih =>
    rw [run_cons, h i (List.mem_cons_self ..)]
    exact ih fun j hj => h j (List.mem_cons_of_mem _ hj)

/-- Every run meets the condition that asks for nothing. -/
theorem stepsOk_true : ∀ (is : List ι) (s : σ), StepsOk step (fun _ _ => True) s is := by
  intro is
  induction is with
  | nil => intro s; trivial
  | cons i is ih => intro s; exact ⟨trivial, ih (step s i)⟩

/-- A condition on the inputs alone. -/
theorem stepsOk_of_mem {ok : ι → Prop} :
    ∀ {is : List ι} {s : σ}, (∀ i ∈ is, ok i) → StepsOk step (fun _ => ok) s is := by
  intro is
  induction is with
  | nil => intro s _; trivial
  | cons i is ih =>
    intro s h
    exact ⟨h i (List.mem_cons_self ..), ih fun j hj => h j (List.mem_cons_of_mem _ hj)⟩

theorem StepsOk.imp {ok ok' : σ → ι → Prop} (himp : ∀ s i, ok s i → ok' s i) :
    ∀ {is : List ι} {s : σ}, StepsOk step ok s is → StepsOk step ok' s is := by
  intro is
  induction is with
  | nil => intro s _; trivial
  | cons i is ih => intro s h; exact ⟨himp s i h.1, ih h.2⟩

/-- Both parts of an admissible run are admissible. -/
theorem StepsOk.of_append {ok : σ → ι → Prop} :
    ∀ (is : List ι) {js : List ι} {s : σ}, StepsOk step ok s (is ++ js) →
      StepsOk step ok s is ∧ StepsOk step ok (run step s is) js := by
  intro is
  induction is with
  | nil => intro js s h; exact ⟨trivial, h⟩
  | cons i is ih =>
    intro js s h
    obtain ⟨his, hjs⟩ := ih h.2
    exact ⟨⟨h.1, his⟩, hjs⟩

/-- The invariant rule: what every step preserves, every run preserves. -/
theorem inv_run_all {inv : σ → Prop} (hstep : ∀ s i, inv s → inv (step s i)) :
    ∀ (is : List ι) {s : σ}, inv s → inv (run step s is) := by
  intro is
  induction is with
  | nil => intro s h; exact h
  | cons i is ih => intro s h; exact ih (hstep s i h)

/-- The same for the runs that meet a condition: what one admissible step preserves, an admissible
run preserves. -/
theorem inv_run {ok : σ → ι → Prop} {inv : σ → Prop}
    (hstep : ∀ s i, inv s → ok s i → inv (step s i)) :
    ∀ (is : List ι) {s : σ}, inv s → StepsOk step ok s is → inv (run step s is) := by
  intro is
  induction is with
  | nil => intro s h _; exact h
  | cons i is ih =>
    intro s h hok
    exact ih (hstep s i h hok.1) hok.2

/-- A property that follows from an invariant holds in every state of an admissible run. -/
theorem always_of_inv {ok : σ → ι → Prop} {inv P : σ → Prop}
    (hstep : ∀ s i, inv s → ok s i → inv (step s i)) (hP : ∀ s, inv s → P s) :
    ∀ (is : List ι) {s : σ}, inv s → StepsOk step ok s is → Always step P s is := by
  intro is
  induction is with
  | nil => intro s h _; exact hP s h
  | cons i is ih =>
    intro s h hok
    exact ⟨hP s h, ih (hstep s i h hok.1) hok.2⟩

/-- A property of steps that follows from an invariant holds at every step of an admissible run. -/
theorem stepsOk_of_inv {ok good : σ → ι → Prop} {inv : σ → Prop}
    (hstep : ∀ s i, inv s → ok s i → inv (step s i)) (hgood : ∀ s i, inv s → ok s i → good s i) :
    ∀ (is : List ι) {s : σ}, inv s → StepsOk step ok s is → StepsOk step good s is := by
  intro is
  induction is with
  | nil => intro s _ _; trivial
  | cons i is ih =>
    intro s h hok
    exact ⟨hgood s i h hok.1, ih (hstep s i h hok.1) hok.2⟩

/-- When a step that does not meet `ok` breaks `P` at once, `P` holds throughout a run exactly if
all of its steps meet `ok`. All this is about the runs whose steps meet `pre`. -/
theorem always_iff_stepsOk {pre ok : σ → ι → Prop} {inv P : σ → Prop}
    (hstep : ∀ s i, inv s → pre s i → ok s i → inv (step s i)) (hP : ∀ s, inv s → P s)
    (hbad : ∀ s i, inv s → pre s i → ¬ ok s i → ¬ P (step s i)) :
    ∀ (is : List ι) {s : σ}, inv s → StepsOk step pre s is →
      (Always step P s is ↔ StepsOk step ok s is) := by
  intro is
  induction is with
  | nil => intro s h _; exact ⟨fun _ => trivial, fun _ => hP s h⟩
  | cons i is ih =>
    intro s h hpre
    constructor
    · rintro ⟨_, hrest⟩
      have hfirst : P (step s i) := always_head hrest
      have hi : ok s i := by
        by_contra hn
        exact hbad s i h hpre.1 hn hfirst
      exact ⟨hi, (ih (hstep s i h hpre.1 hi) hpre.2).mp hrest⟩
    · rintro ⟨hi, hrest⟩
      exact ⟨hP s h, (ih (hstep s i h hpre.1 hi) hpre.2).mpr hrest⟩

end Dorami.Lib

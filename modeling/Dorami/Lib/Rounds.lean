import Dorami.Lib.Run

/-!
# Fair runs

A run in rounds, in each of which every party is scheduled at least once. If no step increases the
rank of the state, and a step that changes the state decreases it, then after enough rounds nobody
can do anything any more.
-/

namespace Dorami.Lib

variable {σ ι : Type*} {step : σ → ι → σ}

/-- Nobody can change the state. -/
def Quiet (step : σ → ι → σ) (s : σ) : Prop := ∀ i, step s i = s

theorem Quiet.run {s : σ} (h : Quiet step s) (is : List ι) : run step s is = s := by
  induction is with
  | nil => rfl
  | cons i is ih => rw [run_cons, h i, ih]

/-- Each step that changes the state decreases the rank. -/
def Descends (step : σ → ι → σ) (rank : σ → Nat) : Prop :=
  ∀ s i, step s i = s ∨ rank (step s i) < rank s

variable {rank : σ → Nat}

theorem Descends.run_le (h : Descends step rank) (s : σ) (is : List ι) :
    rank (run step s is) ≤ rank s := by
  induction is generalizing s with
  | nil => exact Nat.le_refl _
  | cons i is ih =>
    rw [run_cons]
    rcases h s i with heq | hlt
    · rw [heq]
      exact ih s
    · exact (ih (step s i)).trans hlt.le

/-- A round in which somebody could move decreases the rank: either they do, or another has moved
before. -/
theorem Descends.round (h : Descends step rank) {s : σ} {i : ι} (hi : step s i ≠ s) {is : List ι}
    (hmem : i ∈ is) : rank (run step s is) < rank s := by
  induction is with
  | nil => exact absurd hmem (List.not_mem_nil)
  | cons j is ih =>
    rw [run_cons]
    rcases h s j with heq | hlt
    · rw [heq]
      rcases List.mem_cons.1 hmem with rfl | hmem
      · exact absurd heq hi
      · exact ih hmem
    · exact (h.run_le _ is).trans_lt hlt

/-- As many rounds as the rank leave nothing to do. -/
theorem Descends.quiet_of_rounds (h : Descends step rank) (rounds : List (List ι)) {s : σ}
    (hall : ∀ r ∈ rounds, ∀ i, i ∈ r) (hlen : rank s ≤ rounds.length) :
    Quiet step (run step s rounds.flatten) := by
  induction rounds generalizing s with
  | nil =>
    intro i
    exact (h s i).resolve_right (by have : rank s = 0 := Nat.le_zero.1 hlen; omega)
  | cons r rounds ih =>
    rw [List.flatten_cons, run_append]
    by_cases hquiet : Quiet step s
    · rw [hquiet.run, hquiet.run]
      exact hquiet
    · obtain ⟨i, hi⟩ := not_forall.1 hquiet
      have hlt := h.round hi (hall r List.mem_cons_self i)
      refine ih (fun r' hr' => hall r' (List.mem_cons_of_mem _ hr')) ?_
      rw [List.length_cons] at hlen
      omega

end Dorami.Lib

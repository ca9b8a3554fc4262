import Mathlib.Algebra.BigOperators.Group.Finset.Piecewise
import Mathlib.Algebra.Order.BigOperators.Group.Finset
import Mathlib.Data.Fintype.BigOperators
/-!
# Threads and their stages

The program counters of any number of threads, as a function from threads to
stages, and what a step of one thread does to facts about all of them.
-/

namespace KitRpc.Foundation

variable {τ σ : Type} [DecidableEq τ]

/-- What holds of the stage a thread moves to, and of the stages of all other
threads, holds of all stages. -/
theorem forall_update {stage : τ → σ} {t : τ} {target : σ} {P : τ → σ → Prop}
    (hself : P t target) (hrest : ∀ u, u ≠ t → P u (stage u)) :
    ∀ u, P u (Function.update stage t target u) := by
  intro u
  by_cases h : u = t
  · subst h
    rwa [Function.update_self]
  · rw [Function.update_of_ne h]
    exact hrest u h

/-- The weight of all stages, when each has one. -/
def totalWeight [Fintype τ] (weight : σ → Nat) (stage : τ → σ) : Nat :=
  ∑ t, weight (stage t)

/-- A thread that moves takes its old weight away and brings its new one. -/
theorem totalWeight_update [Fintype τ] (weight : σ → Nat) (stage : τ → σ) (t : τ) (target : σ) :
    totalWeight weight (Function.update stage t target) + weight (stage t) =
      totalWeight weight stage + weight target := by
  have hcomp := Function.comp_update weight stage t target
  have hupdate := Finset.sum_update_of_mem (Finset.mem_univ t) (weight ∘ stage) (weight target)
  have hsplit := Finset.sum_erase_add Finset.univ (weight ∘ stage) (Finset.mem_univ t)
  rw [← hcomp, Finset.sdiff_singleton_eq_erase] at hupdate
  simp only [Function.comp_apply] at hupdate hsplit
  rw [totalWeight, totalWeight, hupdate, ← hsplit]
  omega

omit [DecidableEq τ] in
theorem totalWeight_le_add [Fintype τ] {weight left right : σ → Nat}
    (h : ∀ s, weight s ≤ left s + right s) (stage : τ → σ) :
    totalWeight weight stage ≤ totalWeight left stage + totalWeight right stage := by
  unfold totalWeight
  rw [← Finset.sum_add_distrib]
  exact Finset.sum_le_sum fun t _ => h (stage t)

omit [DecidableEq τ] in
theorem totalWeight_eq_card [Fintype τ] (p : σ → Bool) (stage : τ → σ) :
    totalWeight (fun s => if p s then 1 else 0) stage =
      (Finset.univ.filter fun t => p (stage t)).card := by
  rw [totalWeight, Finset.card_filter]

end KitRpc.Foundation

import KitRpc.Foundation.Reaches
import Mathlib.Data.List.Induction
/-!
# Simulation, bounded runs and histories

Three rules for runs of a transition system. A relation that every step keeps,
while the second system answers with steps of its own, carries runs of one
system over to the other. An invariant whose rank every step lowers bounds the
length of runs. An invariant of the labels so far and the state they lead to
holds along a list of labels.
-/

namespace KitRpc.Foundation

variable {σ τ α β : Type}

/-! ## Simulation -/

/-- Every allowed step of the first system is answered by steps of the second,
maybe none. -/
structure Simulation (step : σ → α → Option σ) (ok : σ → α → Prop) (step' : τ → β → Option τ)
    (ok' : τ → β → Prop) (R : σ → τ → Prop) : Prop where
  answer : ∀ ⦃s a s' t⦄, R s t → ok s a → step s a = some s' →
    ∃ t', Reaches step' ok' t t' ∧ R s' t'

namespace Simulation

variable {step : σ → α → Option σ} {ok : σ → α → Prop} {step' : τ → β → Option τ}
  {ok' : τ → β → Prop} {R : σ → τ → Prop} {s₀ s : σ} {t₀ : τ}

theorem reaches (h : Simulation step ok step' ok' R) (hstart : R s₀ t₀)
    (hrun : Reaches step ok s₀ s) : ∃ t, Reaches step' ok' t₀ t ∧ R s t := by
  induction hrun with
  | start => exact ⟨t₀, .start, hstart⟩
  | step _ hok hstep ih =>
      obtain ⟨t, hreach, hrel⟩ := ih
      obtain ⟨t', hanswer, hrel'⟩ := h.answer hrel hok hstep
      exact ⟨t', hreach.trans hanswer, hrel'⟩

end Simulation

/-- Where a function maps every step to the step of the same label, it maps
runs to runs. -/
theorem run_map {step : σ → α → Option σ} {step' : τ → α → Option τ} {f : σ → τ}
    (hstep : ∀ ⦃s a s'⦄, step s a = some s' → step' (f s) a = some (f s')) {labels : List α}
    {s₀ s : σ} (h : run step s₀ labels = some s) : run step' (f s₀) labels = some (f s) := by
  induction labels generalizing s₀ with
  | nil =>
      cases h
      rfl
  | cons a labels ih =>
      rw [run, List.foldlM_cons, Option.bind_eq_bind, Option.bind_eq_some_iff] at h
      obtain ⟨mid, hmid, hrest⟩ := h
      rw [run, List.foldlM_cons, hstep hmid]
      exact ih hrest

/-! ## Runs of bounded length -/

/-- The states reached from `s₀` in exactly `n` allowed steps. -/
inductive ReachesIn (step : σ → α → Option σ) (ok : σ → α → Prop) (s₀ : σ) : Nat → σ → Prop
  | start : ReachesIn step ok s₀ 0 s₀
  | step {n : Nat} {s s' : σ} {a : α} :
      ReachesIn step ok s₀ n s → ok s a → step s a = some s' → ReachesIn step ok s₀ (n + 1) s'

/-- Every allowed step keeps the invariant at a lower rank. -/
structure Descends (step : σ → α → Option σ) (ok : σ → α → Prop) (I : Nat → σ → Prop) :
    Prop where
  lower : ∀ ⦃rank s a s'⦄, I rank s → ok s a → step s a = some s' → ∃ rank' < rank, I rank' s'

namespace Descends

variable {step : σ → α → Option σ} {ok : σ → α → Prop} {I : Nat → σ → Prop} {s₀ s : σ}
  {rank : Nat}

theorem reachesIn {n : Nat} (h : Descends step ok I) (hstart : I rank s₀)
    (hrun : ReachesIn step ok s₀ n s) : ∃ rank', n + rank' ≤ rank ∧ I rank' s := by
  induction hrun with
  | start => exact ⟨rank, by omega, hstart⟩
  | step _ hok hstep ih =>
      obtain ⟨rank₁, hle, hinv⟩ := ih
      obtain ⟨rank₂, hlt, hinv'⟩ := h.lower hinv hok hstep
      exact ⟨rank₂, by omega, hinv'⟩

theorem length_le {n : Nat} (h : Descends step ok I) (hstart : I rank s₀)
    (hrun : ReachesIn step ok s₀ n s) : n ≤ rank := by
  obtain ⟨rank', hle, _⟩ := h.reachesIn hstart hrun
  omega

/-- Where a step is possible short of the goal, the goal is reached. -/
theorem exists_goal {Goal : σ → Prop} (h : Descends step ok I) (hstart : I rank s)
    (hprogress : ∀ ⦃rank s⦄, I rank s → Goal s ∨ ∃ a s', ok s a ∧ step s a = some s') :
    ∃ s', Reaches step ok s s' ∧ Goal s' := by
  induction rank using Nat.strongRecOn generalizing s with
  | ind rank ih =>
      rcases hprogress hstart with hgoal | ⟨a, s', hok, hstep⟩
      · exact ⟨s, .start, hgoal⟩
      · obtain ⟨rank', hlt, hinv⟩ := h.lower hstart hok hstep
        obtain ⟨t, hreach, hgoal⟩ := ih rank' hlt hinv
        exact ⟨t, hreach.head hok hstep, hgoal⟩

end Descends

/-! ## Histories -/

/-- What holds of no labels and the start, and is kept by every step with its
label added, holds of all labels and the state they lead to. -/
theorem run_history {step : σ → α → Option σ} {I : List α → σ → Prop} {s₀ s : σ}
    (hstart : I [] s₀)
    (hstep : ∀ ⦃past s a s'⦄, I past s → step s a = some s' → I (past ++ [a]) s')
    {labels : List α} (h : run step s₀ labels = some s) : I labels s := by
  induction labels using List.reverseRecOn generalizing s with
  | nil =>
      cases h
      exact hstart
  | append_singleton past a ih =>
      rw [run, List.foldlM_append, Option.bind_eq_bind, Option.bind_eq_some_iff] at h
      obtain ⟨mid, hpast, hlast⟩ := h
      rw [List.foldlM_cons, Option.bind_eq_bind, Option.bind_eq_some_iff] at hlast
      obtain ⟨s', hlast, hdone⟩ := hlast
      cases hdone
      exact hstep (ih hpast) hlast

end KitRpc.Foundation

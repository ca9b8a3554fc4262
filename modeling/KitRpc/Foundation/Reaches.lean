import Mathlib.Data.List.Basic
/-!
# Runs of a transition system

A system is a partial step function on states and labels. A run may be
restricted to steps that meet a condition; invariants are proved for the states
such runs reach.
-/

namespace KitRpc.Foundation

variable {σ α : Type}

/-- The states reached from `s₀` in steps that all meet `ok`. -/
inductive Reaches (step : σ → α → Option σ) (ok : σ → α → Prop) (s₀ : σ) : σ → Prop
  | start : Reaches step ok s₀ s₀
  | step {s s' : σ} {a : α} :
      Reaches step ok s₀ s → ok s a → step s a = some s' → Reaches step ok s₀ s'

def Unrestricted (_ : σ) (_ : α) : Prop := True

def Quiescent (step : σ → α → Option σ) (s : σ) : Prop := ∀ a, step s a = none

def run (step : σ → α → Option σ) (s₀ : σ) (labels : List α) : Option σ :=
  labels.foldlM step s₀

namespace Reaches

variable {step : σ → α → Option σ} {ok ok' : σ → α → Prop} {s₀ s t : σ}

/-- What holds at the start and is preserved by every allowed step holds in
every state reached. -/
theorem invariant {I : σ → Prop} (h : Reaches step ok s₀ s) (hstart : I s₀)
    (hstep : ∀ {s a s'}, I s → ok s a → step s a = some s' → I s') : I s := by
  induction h with
  | start => exact hstart
  | step _ hok hs ih => exact hstep ih hok hs

theorem trans (h : Reaches step ok s₀ s) (h' : Reaches step ok s t) :
    Reaches step ok s₀ t := by
  induction h' with
  | start => exact h
  | step _ hok hs ih => exact .step ih hok hs

theorem head {mid : σ} {a : α} (hok : ok s₀ a) (hstep : step s₀ a = some mid)
    (h : Reaches step ok mid s) : Reaches step ok s₀ s := by
  have hfirst : Reaches step ok s₀ mid := .step .start hok hstep
  exact hfirst.trans h

theorem of_run {labels : List α} (h : run step s₀ labels = some s)
    (hok : ∀ a ∈ labels, ∀ s, ok s a) : Reaches step ok s₀ s := by
  induction labels generalizing s₀ with
  | nil =>
      cases h
      exact .start
  | cons a labels ih =>
      rw [run, List.foldlM_cons, Option.bind_eq_bind, Option.bind_eq_some_iff] at h
      obtain ⟨mid, hmid, hrest⟩ := h
      exact head (hok a (by simp) s₀) hmid (ih hrest fun b hb => hok b (by simp [hb]))

theorem of_checked_run [∀ s a, Decidable (ok s a)] {labels : List α}
    (h : run (fun s a => if ok s a then step s a else none) s₀ labels = some s) :
    Reaches step ok s₀ s := by
  induction labels generalizing s₀ with
  | nil =>
      cases h
      exact .start
  | cons a labels ih =>
      rw [run, List.foldlM_cons, Option.bind_eq_bind, Option.bind_eq_some_iff] at h
      obtain ⟨mid, hmid, hrest⟩ := h
      rw [Option.ite_none_right_eq_some] at hmid
      exact head hmid.1 hmid.2 (ih hrest)

end Reaches

end KitRpc.Foundation

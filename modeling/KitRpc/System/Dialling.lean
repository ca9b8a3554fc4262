import KitRpc.Foundation.Simulation
import KitRpc.System.Agreement
import KitRpc.System.Deployment
/-!
# Calls that find their method

Any number of providers with their own tables register in one registry. What a
caller dials after a lookup is then the address of a provider whose table has
the service and the method that the request is for.
-/

namespace KitRpc.System

open KitRpc.Foundation KitRpc.Cpp KitRpc.Zookeeper KitRpc.Provider KitRpc.Caller

variable {α ρ μ κ : Type}

def Instance.StartedIn (api : GPService α ρ μ κ) (past : List (ClusterEvent α)) (session : Nat)
    (p : Instance) : Prop :=
  ∃ servicesMap, .start session p.host servicesMap ∈ past ∧
    p.done ++ p.todo = nodeCalls api p.host servicesMap

def AllStarted (api : GPService α ρ μ κ) (past : List (ClusterEvent α)) (s : Cluster) : Prop :=
  ∀ session p, s.providers session = some p → p.StartedIn api past session

variable {api : GPService α ρ μ κ} {past : List (ClusterEvent α)} {a : ClusterEvent α}
  {s s' : Cluster}

theorem Instance.StartedIn.later {session : Nat} {p : Instance}
    (h : p.StartedIn api past session) : p.StartedIn api (past ++ [a]) session := by
  obtain ⟨servicesMap, hstart, hcalls⟩ := h
  exact ⟨servicesMap, List.mem_append_left _ hstart, hcalls⟩

theorem AllStarted.empty : AllStarted api [] .empty := by
  intro session p hp
  cases hp

theorem AllStarted.step (h : AllStarted api past s) (hmoved : s.Moved api a s') :
    AllStarted api (past ++ [a]) s' := by
  have hothers {session : Nat} (j : Nat) (q : Instance) (_ : j ≠ session)
      (hq : s.providers j = some q) : q.StartedIn api (past ++ [a]) j := (h j q hq).later
  cases hmoved with
  | @started i host servicesMap =>
      apply Cluster.forall_set (P := fun j q => q.StartedIn api _ j)
      · exact ⟨servicesMap, by simp, rfl⟩
      · exact hothers
  | @continued _ i p p' tree _ hp hcontinues =>
      apply Cluster.forall_set (P := fun j q => q.StartedIn api _ j)
      · rw [Instance.StartedIn, hcontinues.host, hcontinues.calls]
        exact (h i p hp).later
      · exact hothers
  | @expired i p hp =>
      apply Cluster.forall_set (P := fun j q => q.StartedIn api _ j)
      · exact (h i p hp).later
      · exact hothers

end KitRpc.System

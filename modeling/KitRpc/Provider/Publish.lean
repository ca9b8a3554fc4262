import KitRpc.Provider.Dispatch
import KitRpc.Zookeeper.Client
/-!
# Publishing services

The registration loop of `Provide::run`: a lasting node for each service and
below it an ephemeral one for each method, which holds the address the provider
announces.
-/

namespace KitRpc.Provider

open KitRpc.Cpp KitRpc.Zookeeper

structure NodeCall where
  path : Bytes
  data : Bytes
  state : ZooFlag
  deriving DecidableEq, Repr

def servicePath (service : ServiceDescriptor) : Bytes := slash :: service.name

def methodPath (service : ServiceDescriptor) (method : MethodDescriptor) : Bytes :=
  servicePath service ++ slash :: method.name

variable {α ρ μ κ : Type}

section

variable (api : GPService α ρ μ κ) (host : Bytes)

def serviceCalls (info : ServiceInfo α) : List NodeCall :=
  let service := api.getDescriptor info.service
  ⟨servicePath service, [], .persistent⟩ ::
    info.methodsMap.map fun m => ⟨methodPath service m.2, host, .ephemeral⟩

/-- All `createNode` calls of `Provide::run`, in the order of the table. -/
def nodeCalls (servicesMap : ServicesMap α) : List NodeCall :=
  servicesMap.flatMap fun entry => serviceCalls api host entry.2

end

/-- The registry after a session made the calls with nobody else acting. -/
def publish (session : Nat) (tree : Tree) (calls : List NodeCall) : Tree :=
  calls.foldl (fun tree call => (createNode tree session call.path call.data call.state).2) tree

/-! ## Paths -/

theorem IsName.notMem {name : Bytes} (h : IsName name) {c : UInt8}
    (hc : c = 0 ∨ c = slash) : c ∉ name := by
  intro hmem
  have hchar := List.all_eq_true.mp h.2 c hmem
  rcases hc with rfl | rfl
  · exact absurd hchar (by decide)
  · exact absurd hchar (by decide)

theorem parentPath_servicePath (service : ServiceDescriptor) :
    parentPath (servicePath service) = [] :=
  parentPath_append [] (service.isName.notMem (.inr rfl))

theorem parentPath_methodPath (service : ServiceDescriptor) (method : MethodDescriptor) :
    parentPath (methodPath service method) = servicePath service :=
  parentPath_append _ (method.isName.notMem (.inr rfl))

theorem servicePath_ne_root (service : ServiceDescriptor) : servicePath service ≠ [slash] := by
  intro h
  exact service.isName.1 (List.cons.inj h).2

theorem methodPath_ne_root (service : ServiceDescriptor) (method : MethodDescriptor) :
    methodPath service method ≠ [slash] := by
  intro h
  simpa [methodPath, servicePath] using congrArg List.length h

theorem cStr_servicePath (service : ServiceDescriptor) :
    cStr (servicePath service) = servicePath service := by
  have hname := service.isName.notMem (.inl rfl)
  rw [cStr_eq_self_iff, servicePath, List.mem_cons]
  simp [hname, slash]

theorem cStr_methodPath (service : ServiceDescriptor) (method : MethodDescriptor) :
    cStr (methodPath service method) = methodPath service method := by
  have hservice := service.isName.notMem (.inl rfl)
  have hmethod := method.isName.notMem (.inl rfl)
  rw [cStr_eq_self_iff, methodPath, servicePath]
  simp [hservice, hmethod, slash]

theorem servicePath_ne_methodPath (service service' : ServiceDescriptor)
    (method : MethodDescriptor) : servicePath service ≠ methodPath service' method := by
  intro h
  have hparent := congrArg parentPath h
  rw [parentPath_servicePath, parentPath_methodPath] at hparent
  cases hparent

/-! ## The shape of the calls -/

def NodeCall.ForService (call : NodeCall) : Prop :=
  call.state = .persistent ∧ ∃ service, call.path = servicePath service

/-- A call for the node of a method, after the one for its service. -/
def NodeCall.ForMethod (host : Bytes) (before : List NodeCall) (call : NodeCall) : Prop :=
  call.state = .ephemeral ∧ call.data = host ∧
    ∃ service method, call.path = methodPath service method ∧
      ∃ c ∈ before, c.state = .persistent ∧ c.path = servicePath service

/-- The paths in use reach the registry as they are, and none is the root. -/
theorem NodeCall.path_plain {call : NodeCall} {host : Bytes} {before : List NodeCall}
    (h : call.ForService ∨ call.ForMethod host before) :
    cStr call.path = call.path ∧ call.path ≠ [slash] := by
  rcases h with ⟨_, service, hpath⟩ | ⟨_, _, service, method, hpath, _⟩
  · rw [hpath]
    exact ⟨cStr_servicePath service, servicePath_ne_root service⟩
  · rw [hpath]
    exact ⟨cStr_methodPath service method, methodPath_ne_root service method⟩

def Ordered (host : Bytes) : List NodeCall → List NodeCall → Prop
  | _, [] => True
  | before, call :: calls =>
      (call.ForService ∨ call.ForMethod host before) ∧ Ordered host (before ++ [call]) calls

theorem Ordered.append {host : Bytes} {before calls more : List NodeCall}
    (h : Ordered host before calls) (hmore : Ordered host (before ++ calls) more) :
    Ordered host before (calls ++ more) := by
  induction calls generalizing before with
  | nil => simpa using hmore
  | cons call calls ih => exact ⟨h.1, ih h.2 (by simpa using hmore)⟩

theorem Ordered.next {host : Bytes} {before done todo : List NodeCall} {call : NodeCall}
    (h : Ordered host before (done ++ call :: todo)) :
    call.ForService ∨ call.ForMethod host (before ++ done) := by
  induction done generalizing before with
  | nil => simpa using h.1
  | cons first done ih =>
      have hnext := ih h.2
      rwa [List.append_assoc] at hnext

theorem Ordered.mem {host : Bytes} {before calls : List NodeCall} (h : Ordered host before calls)
    {call : NodeCall} (hcall : call ∈ calls) :
    call.ForService ∨ ∃ before, call.ForMethod host before := by
  induction calls generalizing before with
  | nil => simp at hcall
  | cons first calls ih =>
      rcases List.mem_cons.mp hcall with rfl | hcall
      · exact h.1.imp_right fun hmethod => ⟨before, hmethod⟩
      · exact ih h.2 hcall

theorem Ordered.cStr_path {host : Bytes} {before calls : List NodeCall}
    (h : Ordered host before calls) {call : NodeCall} (hcall : call ∈ calls) :
    cStr call.path = call.path := by
  rcases h.mem hcall with hservice | ⟨_, hmethod⟩
  · exact (@NodeCall.path_plain _ host [] (.inl hservice)).1
  · exact (NodeCall.path_plain (.inr hmethod)).1

theorem ordered_methods {host : Bytes} {service : ServiceDescriptor}
    {methods : List (Bytes × MethodDescriptor)} {before : List NodeCall}
    (hservice : ∃ c ∈ before, c.state = .persistent ∧ c.path = servicePath service) :
    Ordered host before
      (methods.map fun m => ⟨methodPath service m.2, host, .ephemeral⟩) := by
  induction methods generalizing before with
  | nil => trivial
  | cons m methods ih =>
      refine ⟨.inr ⟨rfl, rfl, service, m.2, rfl, hservice⟩, ih ?_⟩
      obtain ⟨c, hc, hshape⟩ := hservice
      exact ⟨c, List.mem_append_left _ hc, hshape⟩

theorem ordered_nodeCalls (api : GPService α ρ μ κ) (host : Bytes)
    (servicesMap : ServicesMap α) (before : List NodeCall) :
    Ordered host before (nodeCalls api host servicesMap) := by
  induction servicesMap generalizing before with
  | nil => trivial
  | cons entry servicesMap ih =>
      have hentry : Ordered host before (serviceCalls api host entry.2) :=
        ⟨.inl ⟨rfl, _, rfl⟩,
          ordered_methods ⟨_, List.mem_append_right _ (List.mem_singleton.mpr rfl), rfl, rfl⟩⟩
      exact hentry.append (ih _)

end KitRpc.Provider

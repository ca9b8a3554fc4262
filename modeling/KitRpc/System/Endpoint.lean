import KitRpc.Caller.Lookup
import KitRpc.System.Discovery
/-!
# The address a caller dials

`Provide::run` announces the address of the configuration, while its server is
given the address of the constructor. A caller dials what the registry holds
for the method, as far as it fits the buffer of `getNodeData`.
-/

namespace KitRpc.System

open KitRpc.Foundation KitRpc.Cpp KitRpc.Zookeeper KitRpc.Caller KitRpc.Provider

variable {α ρ μ κ : Type}

/-- A provider: the address its `TcpServer` is given and its services. -/
structure Provide (α : Type) where
  listen : Endpoint
  servicesMap : ServicesMap α

abbrev ConfigStrings := String → Bytes

def announcedHost (config : ConfigStrings) : Bytes :=
  config "rpc_server_ip" ++ [colon] ++ config "rpc_server_port"

def Provide.run (api : GPService α ρ μ κ) (provide : Provide α) (config : ConfigStrings)
    (session : Nat) (tree : Tree) : Tree :=
  publish session tree (nodeCalls api (announcedHost config) provide.servicesMap)

/-- Where `CallMethod` connects to for a method; `none` when `getNodeData` reads
past its buffer. -/
def lookup (tree : Tree) (service : ServiceDescriptor) (method : MethodDescriptor) :
    Option (Except CallFault Endpoint) :=
  (getNodeData tree (lookupPath service.name method.name)).map targetOf

/-- `CallMethod` reads the node that `run` makes for the method. -/
theorem lookupPath_eq (service : ServiceDescriptor) (method : MethodDescriptor) :
    lookupPath service.name method.name = methodPath service method := by
  simp [lookupPath, methodPath, servicePath]

theorem lookup_eq (tree : Tree) (service : ServiceDescriptor) (method : MethodDescriptor) :
    lookup tree service method = (getNodeData tree (methodPath service method)).map targetOf := by
  rw [lookup, lookupPath_eq]

/-! ## A provider alone in the registry -/

theorem Cluster.set_tree_set (s : Cluster) (tree : Tree) (i : Nat) (p q : Instance) :
    ({ s.set i p with tree }.set i q) = { s with tree }.set i q := by
  simp [Cluster.set]

theorem reaches_createNode (api : GPService α ρ μ κ) {host : Bytes} {session : Nat}
    {done todo : List NodeCall} {call : NodeCall} {s₀ s : Cluster}
    (h : Reaches (clusterStep api) ExpiresUnused s₀ s)
    (hp : s.providers session = some ⟨host, done, call :: todo, false, true, true⟩) :
    Reaches (clusterStep api) ExpiresUnused s₀
      ({ s with tree := (createNode s.tree session call.path call.data call.state).2 }.set session
        ⟨host, done ++ [call], todo, false, true, true⟩) := by
  have hguard : ∀ s (a : ClusterEvent α), a = .exists session ∨ a = .create session →
      ExpiresUnused s a := by
    rintro s a (rfl | rfl) other hexpire <;> cases hexpire
  by_cases habsent : createsAfterExists (zooExists s.tree (cStr call.path))
  · have hexists : clusterStep api s (.exists session) =
        some (s.set session ⟨host, done, call :: todo, true, true, true⟩) := by
      simp [clusterStep, hp, habsent]
    have hcreate : clusterStep api (s.set session ⟨host, done, call :: todo, true, true, true⟩)
        (.create session) = some (({ s with
          tree := (zooCreate s.tree session (cStr call.path) call.data call.state).2 }).set session
            ⟨host, done ++ [call], todo, false, true, true⟩) := by
      simp only [clusterStep, Cluster.set_providers_self]
      simp [Cluster.set, Instance.advance]
    rw [createNode, if_pos habsent]
    exact .step (.step h (hguard _ _ (.inl rfl)) hexists) (hguard _ _ (.inr rfl)) hcreate
  · have hexists : clusterStep api s (.exists session) =
        some (s.set session ⟨host, done ++ [call], todo, false, true, true⟩) := by
      simp [clusterStep, hp, habsent, Instance.advance]
    rw [createNode, if_neg habsent]
    exact .step h (hguard _ _ (.inl rfl)) hexists

theorem reaches_publish (api : GPService α ρ μ κ) {host : Bytes} {session : Nat}
    {done todo : List NodeCall} {s₀ s : Cluster}
    (h : Reaches (clusterStep api) ExpiresUnused s₀ s)
    (hp : s.providers session = some ⟨host, done, todo, false, true, true⟩) :
    Reaches (clusterStep api) ExpiresUnused s₀
      ({ s with tree := publish session s.tree todo }.set session
        ⟨host, done ++ todo, [], false, true, true⟩) := by
  induction todo generalizing s done with
  | nil =>
      have hsame : { s with tree := publish session s.tree [] }.set session
          ⟨host, done ++ [], [], false, true, true⟩ = s := by
        simp [Cluster.set, publish, ← hp]
      rwa [hsame]
  | cons call todo ih =>
      have hcall := ih (reaches_createNode api h hp) (Cluster.set_providers_self _ _ _)
      rwa [Cluster.set_tree_set, List.append_assoc] at hcall

/-- After its registration loop the node of each method of a provider that is
alone in the registry holds the address it announces. -/
theorem node_of_run (api : GPService α ρ μ κ) (provide : Provide α) (config : ConfigStrings)
    (session : Nat) {entry : Bytes × ServiceInfo α} (hentry : entry ∈ provide.servicesMap)
    {m : Bytes × MethodDescriptor} (hm : m ∈ entry.2.methodsMap) :
    ∃ node, provide.run api config session .empty
        (methodPath (api.getDescriptor entry.2.service) m.2) = some node ∧
      node.data = announcedHost config := by
  let host := announcedHost config
  let calls := nodeCalls api host provide.servicesMap
  have hstart : clusterStep api .empty (.start session host provide.servicesMap) =
      some (Cluster.empty.set session ⟨host, [], calls, false, true, true⟩) := rfl
  have hreach := reaches_publish api
    (.step .start (fun _ hexpire => by cases hexpire) hstart) (Cluster.set_providers_self _ _ _)
  have hdiscover := (hreach.invariant .empty Registered.step).discoverable
  have hcall : (⟨methodPath (api.getDescriptor entry.2.service) m.2, host, .ephemeral⟩ :
      NodeCall) ∈ calls :=
    List.mem_flatMap.mpr ⟨entry, hentry, List.mem_cons_of_mem _ (List.mem_map_of_mem hm)⟩
  obtain ⟨node, hnode, j, q, hq, _, _, hdata⟩ := hdiscover session _
    (Cluster.set_providers_self _ _ _) rfl rfl _ ⟨_, by simpa using hcall, rfl, rfl⟩
  refine ⟨node, hnode, hdata.trans ?_⟩
  -- There is no provider but this one.
  revert j q
  apply Cluster.forall_set
  · intros
    rfl
  · intro j q hj hq
    rw [Cluster.set_providers_ne _ _ hj] at hq
    cases hq

/-- A caller that looks a registered method up dials the address the provider
serves exactly if the announced string, up to a NUL byte, fits the buffer, and
the text before its first colon and the number behind it are that address. -/
theorem lookup_eq_listen_iff (api : GPService α ρ μ κ) (provide : Provide α)
    (config : ConfigStrings) (session : Nat) {entry : Bytes × ServiceInfo α}
    (hentry : entry ∈ provide.servicesMap) {m : Bytes × MethodDescriptor}
    (hm : m ∈ entry.2.methodsMap) :
    lookup (provide.run api config session .empty) (api.getDescriptor entry.2.service) m.2 =
        some (.ok provide.listen) ↔
      (cStr (announcedHost config)).length < bufferSize ∧
      ∃ portText port, cStr (announcedHost config) = provide.listen.ip ++ colon :: portText ∧
        colon ∉ provide.listen.ip ∧ stoi portText = .ok port ∧
        UInt16.ofInt port = provide.listen.port := by
  obtain ⟨node, hnode, hdata⟩ := node_of_run api provide config session hentry hm
  rw [← cStr_methodPath] at hnode
  rw [lookup_eq, getNodeData_of_node hnode, hdata]
  by_cases hfits : (cStr (announcedHost config)).length < bufferSize
  · rw [if_pos hfits, Option.map_some, Option.some.injEq, targetOf_eq_ok_iff]
    exact (and_iff_right hfits).symm
  · rw [if_neg hfits, Option.map_none]
    simp [hfits]

def configOf (ip port : Bytes) : ConfigStrings := fun key =>
  if key = "rpc_server_ip" then ip else port

def localhost : Bytes := [0x31, 0x32, 0x37, 0x2e, 0x30, 0x2e, 0x30, 0x2e, 0x31]

theorem lookup_eq_listen_localhost :
    lookup (Provide.run echoService ⟨⟨localhost, 8080⟩, userServices⟩
        (configOf localhost [0x38, 0x30, 0x38, 0x30]) 0 .empty) userService loginMethod =
      some (.ok ⟨localhost, 8080⟩) := by
  have hentry : (userService.name, serviceInfo echoService userService) ∈ userServices :=
    List.mem_singleton.mpr rfl
  have hm : (loginMethod.name, loginMethod) ∈
      (serviceInfo echoService userService).methodsMap := List.mem_cons_self
  have hhost : cStr (announcedHost (configOf localhost [0x38, 0x30, 0x38, 0x30])) =
      localhost ++ colon :: [0x38, 0x30, 0x38, 0x30] := by decide
  refine (lookup_eq_listen_iff echoService ⟨⟨localhost, 8080⟩, userServices⟩
    (configOf localhost [0x38, 0x30, 0x38, 0x30]) 0 hentry hm).mpr ?_
  rw [hhost]
  exact ⟨by decide, [0x38, 0x30, 0x38, 0x30], 8080, rfl, by decide, by decide, by decide⟩

/-- A provider that is bound to `127.0.0.1:8080` while the configuration names
`10.0.0.1` and port `8000`. -/
theorem lookup_ne_listen_configured :
    lookup (Provide.run echoService ⟨⟨localhost, 8080⟩, userServices⟩
        (configOf [0x31, 0x30, 0x2e, 0x30, 0x2e, 0x30, 0x2e, 0x31] [0x38, 0x30, 0x30, 0x30]) 0
        .empty) userService loginMethod ≠ some (.ok ⟨localhost, 8080⟩) := by
  decide

end KitRpc.System

import KitRpc.Provider.Table
import KitRpc.System.Endpoint
import Mathlib.Data.List.Forall2
/-!
# The registry and the dispatch table

A provider publishes its table in a registry that holds nothing yet. The loops
of `Provide::run`, the path `CallMethod` puts together and the two lookups of
`handleRpcRequest` then speak of the same methods.
-/

namespace KitRpc.System

open KitRpc.Cpp KitRpc.Zookeeper KitRpc.Provider KitRpc.Caller

variable {α ρ μ κ : Type}

/-- An order in which the loops of `run` may visit the table: that of an
`unordered_map` is not specified. -/
def Visits (servicesMap visited : ServicesMap α) : Prop :=
  ∃ entries, entries.Perm servicesMap ∧
    List.Forall₂ (fun entry entry' => entry'.2.service = entry.2.service ∧
      entry'.2.methodsMap.Perm entry.2.methodsMap) entries visited

/-- The `zoo_create` requests that `createNode` calls make with nobody else
acting, and their results. -/
def creates (session : Nat) : Tree → List NodeCall → List (NodeCall × ZooCode)
  | _, [] => []
  | tree, call :: calls =>
      let (_, tree') := createNode tree session call.path call.data call.state
      if createsAfterExists (zooExists tree (cStr call.path)) then
        (call, (zooCreate tree session (cStr call.path) call.data call.state).1) ::
          creates session tree' calls
      else creates session tree' calls

def Found (servicesMap : ServicesMap α) (call : Call) : Prop :=
  ∃ info, servicesMap.find call.1.serviceName = some info ∧
    ∃ method, info.methodsMap.find call.1.methodName = some method

/-! ## Paths -/

theorem servicePath_inj {service service' : ServiceDescriptor}
    (h : servicePath service = servicePath service') : service.name = service'.name :=
  (List.cons.inj h).2

/-- A path splits at its last `/` into the names of a service and a method. -/
theorem methodPath_inj {service service' : ServiceDescriptor} {method method' : MethodDescriptor}
    (h : methodPath service method = methodPath service' method') :
    service.name = service'.name ∧ method.name = method'.name := by
  have hparent := congrArg parentPath h
  rw [parentPath_methodPath, parentPath_methodPath] at hparent
  have hname := servicePath_inj hparent
  rw [methodPath, methodPath, hparent] at h
  exact ⟨hname, (List.cons.inj (List.append_cancel_left h)).2⟩

/-! ## Publishing in an empty registry -/

structure Made (session : Nat) (host : Bytes) (made : List NodeCall) (tree : Tree) : Prop where
  ordered : Ordered host [] made
  pathsNodup : (made.map NodeCall.path).Nodup
  nodes : ∀ path node,
    tree path = some node ↔ ∃ call ∈ made, call.path = path ∧ nodeOf session call = node

namespace Made

variable {session : Nat} {host : Bytes} {made : List NodeCall} {tree : Tree}

theorem empty : Made session host [] .empty where
  ordered := trivial
  pathsNodup := List.nodup_nil
  nodes := by simp [Tree.empty]

theorem exists_node_iff (h : Made session host made tree) {path : Bytes} :
    (∃ node, tree path = some node) ↔ path ∈ made.map NodeCall.path := by
  rw [List.mem_map]
  constructor
  · rintro ⟨node, hnode⟩
    obtain ⟨call, hcall, hpath, _⟩ := (h.nodes path node).mp hnode
    exact ⟨call, hcall, hpath⟩
  · rintro ⟨call, hcall, hpath⟩
    exact ⟨_, (h.nodes path _).mpr ⟨call, hcall, hpath, rfl⟩⟩

theorem persistent_of_servicePath (h : Made session host made tree) {call : NodeCall}
    (hcall : call ∈ made) {service : ServiceDescriptor} (hpath : call.path = servicePath service) :
    call.state = .persistent := by
  rcases h.ordered.mem hcall with ⟨hstate, _⟩ | ⟨_, _, _, service', method, hmethod, _⟩
  · exact hstate
  · exact absurd (hpath.symm.trans hmethod) (servicePath_ne_methodPath _ _ _)

theorem forMethod (h : Made session host made tree) {done : List NodeCall} {call : NodeCall}
    (hcall : call.ForMethod host done) (hdone : ∀ c ∈ done, c.path ∈ made.map NodeCall.path) :
    call.ForMethod host made := by
  obtain ⟨hstate, hdata, service, method, hpath, c, hc, _, hservice⟩ := hcall
  obtain ⟨c', hc', hpath'⟩ := List.mem_map.mp (hdone c hc)
  have hservice' := hpath'.trans hservice
  exact ⟨hstate, hdata, service, method, hpath, c', hc',
    h.persistent_of_servicePath hc' hservice', hservice'⟩

theorem parent (h : Made session host made tree) {call : NodeCall}
    (hshape : call.ForService ∨ call.ForMethod host made) :
    parentPath call.path = [] ∨
      ∃ node, tree (parentPath call.path) = some node ∧ node.owner = none := by
  rcases hshape with ⟨_, service, hpath⟩ | ⟨_, _, service, method, hpath, c, hc, hstate, hservice⟩
  · exact .inl (by rw [hpath, parentPath_servicePath])
  · right
    rw [hpath, parentPath_methodPath, ← hservice]
    refine ⟨nodeOf session c, (h.nodes _ _).mpr ⟨c, hc, rfl, rfl⟩, ?_⟩
    simp [nodeOf, hstate]

theorem create (h : Made session host made tree) {call : NodeCall}
    (hshape : call.ForService ∨ call.ForMethod host made) (hnew : tree call.path = none) :
    Made session host (made ++ [call])
      (Function.update tree call.path (some (nodeOf session call))) where
  ordered := h.ordered.append ⟨hshape, trivial⟩
  pathsNodup := by
    have hpath : call.path ∉ made.map NodeCall.path := by
      rw [← h.exists_node_iff, hnew]
      simp
    rw [List.map_append, List.nodup_append]
    refine ⟨h.pathsNodup, by simp, fun path hold path' hpath' heq => ?_⟩
    rw [heq, List.mem_singleton.mp hpath'] at hold
    exact hpath hold
  nodes path node := by
    simp only [List.mem_append, List.mem_singleton, or_and_right, exists_or, exists_eq_left,
      ← h.nodes]
    by_cases hpath : path = call.path
    · subst hpath
      simp [hnew]
    · simp [Function.update_of_ne hpath, Ne.symm hpath]

theorem step (h : Made session host made tree) {done : List NodeCall} {call : NodeCall}
    (hshape : call.ForService ∨ call.ForMethod host done)
    (hdone : ∀ c ∈ done, c.path ∈ made.map NodeCall.path) :
    let tree' := (createNode tree session call.path call.data call.state).2
    (createsAfterExists (zooExists tree (cStr call.path)) = false ∧ tree' = tree ∧
        call.path ∈ made.map NodeCall.path) ∨
      (createsAfterExists (zooExists tree (cStr call.path)) = true ∧
        (zooCreate tree session (cStr call.path) call.data call.state).1 = .zok ∧
        Made session host (made ++ [call]) tree') := by
  obtain ⟨hpath, hroot⟩ := NodeCall.path_plain hshape
  have hshape' := hshape.imp_right fun hmethod => h.forMethod hmethod hdone
  rw [createNode, hpath]
  cases hexists : createsAfterExists (zooExists tree call.path) with
  | false =>
      have hnode := exists_node_of_zooExists hroot (by simpa [createsAfterExists] using hexists)
      exact .inl ⟨rfl, rfl, h.exists_node_iff.mp hnode⟩
  | true =>
      rcases zooCreate_cases hroot (h.parent hshape') with ⟨_, hthere⟩ | ⟨hnew, hcreate⟩
      · simp [createsAfterExists, zooExists, hthere] at hexists
      · rw [hcreate]
        exact .inr ⟨rfl, rfl, h.create hshape' hnew⟩

theorem publish (h : Made session host made tree) {done calls : List NodeCall}
    (hordered : Ordered host done calls) (hdone : ∀ c ∈ done, c.path ∈ made.map NodeCall.path) :
    let made' := made ++ (creates session tree calls).map Prod.fst
    Made session host made' (Provider.publish session tree calls) ∧
      (∀ c ∈ done ++ calls, c.path ∈ made'.map NodeCall.path) ∧
      (∀ created ∈ creates session tree calls, created.1 ∈ calls ∧ created.2 = .zok) := by
  induction calls generalizing made tree done with
  | nil =>
      rw [creates, List.map_nil, List.append_nil, List.append_nil]
      exact ⟨h, hdone, by simp⟩
  | cons call calls ih =>
      have hlater {c : NodeCall} (hpath : c.path ∈ made.map NodeCall.path) :
          c.path ∈ (made ++ [call]).map NodeCall.path := by
        rw [List.map_append]
        exact List.mem_append_left _ hpath
      rw [creates, Provider.publish, List.foldl_cons, List.append_cons]
      dsimp only
      rcases h.step hordered.1 hdone with ⟨hfound, hsame, hpath⟩ | ⟨hcreates, hzok, hmade⟩
      · rw [hfound, hsame]
        have hdone' : ∀ c ∈ done ++ [call], c.path ∈ made.map NodeCall.path := by
          rw [List.forall_mem_append, List.forall_mem_singleton]
          exact ⟨hdone, hpath⟩
        obtain ⟨hrest, hpaths, hcreated⟩ := ih h hordered.2 hdone'
        exact ⟨hrest, hpaths, fun created hc =>
          ⟨List.mem_cons_of_mem _ (hcreated created hc).1, (hcreated created hc).2⟩⟩
      · have hdone' : ∀ c ∈ done ++ [call], c.path ∈ (made ++ [call]).map NodeCall.path := by
          rw [List.forall_mem_append, List.forall_mem_singleton]
          exact ⟨fun c hc => hlater (hdone c hc), by simp⟩
        obtain ⟨hrest, hpaths, hcreated⟩ := ih hmade hordered.2 hdone'
        rw [hcreates, if_pos rfl, hzok, List.map_cons, List.append_cons, List.forall_mem_cons]
        exact ⟨hrest, hpaths, ⟨List.mem_cons_self, rfl⟩, fun created hc =>
          ⟨List.mem_cons_of_mem _ (hcreated created hc).1, (hcreated created hc).2⟩⟩

end Made

/-! ## What is published -/

variable {api : GPService α ρ μ κ} {host : Bytes} {services : List α}
  {servicesMap visited : ServicesMap α}

/-- In whatever order the loops run, they make the same calls. -/
theorem Visits.nodeCalls_perm (h : Visits servicesMap visited) :
    (nodeCalls api host visited).Perm (nodeCalls api host servicesMap) := by
  obtain ⟨entries, hperm, hentries⟩ := h
  have hinner : (nodeCalls api host visited).Perm (nodeCalls api host entries) := by
    induction hentries generalizing servicesMap with
    | nil => exact .refl _
    | @cons entry entry' entries visited hentry _ ih =>
        obtain ⟨hservice, hmethods⟩ := hentry
        have hfirst : (serviceCalls api host entry'.2).Perm (serviceCalls api host entry.2) := by
          rw [serviceCalls, serviceCalls, hservice]
          exact (hmethods.map _).cons _
        exact hfirst.append (ih (.refl _))
  exact hinner.trans (hperm.flatMap_right _)

theorem mem_serviceCalls_iff {service : α} {call : NodeCall} :
    call ∈ serviceCalls api host (serviceInfo api service) ↔
      call = ⟨servicePath (api.getDescriptor service), [], .persistent⟩ ∨
        ∃ method ∈ (api.getDescriptor service).methods,
          call = ⟨methodPath (api.getDescriptor service) method, host, .ephemeral⟩ := by
  rw [serviceCalls, List.mem_cons, List.mem_map]
  apply or_congr_right
  constructor
  · rintro ⟨entry, hentry, rfl⟩
    exact ⟨entry.2, (mem_methodsMap_iff.mp hentry).1, rfl⟩
  · rintro ⟨method, hmethod, rfl⟩
    exact ⟨(method.name, method), mem_methodsMap_iff.mpr ⟨hmethod, rfl⟩, rfl⟩

theorem mem_nodeCalls_iff (h : FilledBy api services servicesMap)
    (hvisits : Visits servicesMap visited) {call : NodeCall} :
    call ∈ nodeCalls api host visited ↔
      ∃ name service, firstNamed api services name = some service ∧
        call ∈ serviceCalls api host (serviceInfo api service) := by
  rw [hvisits.nodeCalls_perm.mem_iff, nodeCalls, List.mem_flatMap]
  constructor
  · rintro ⟨entry, hentry, hcall⟩
    have hfind := (UnorderedMap.find_eq_some_iff h.keysNodup).mpr hentry
    rw [h.finds] at hfind
    obtain ⟨service, hfirst, hinfo⟩ := Option.map_eq_some_iff.mp hfind
    exact ⟨entry.1, service, hfirst, hinfo ▸ hcall⟩
  · rintro ⟨name, service, hfirst, hcall⟩
    refine ⟨(name, serviceInfo api service), ?_, hcall⟩
    rw [← UnorderedMap.find_eq_some_iff h.keysNodup, h.finds, hfirst, Option.map_some]

theorem firstNamed_eq_some {name : Bytes} {service : α}
    (h : firstNamed api services name = some service) :
    (api.getDescriptor service).name = name ∧ service ∈ services :=
  ⟨by simpa using List.find?_some h, List.mem_of_find?_eq_some h⟩

theorem found_iff (h : FilledBy api services servicesMap) {call : Call} :
    Found servicesMap call ↔
      ∃ service, firstNamed api services call.1.serviceName = some service ∧
        ∃ method ∈ (api.getDescriptor service).methods, method.name = call.1.methodName := by
  rw [Found, h.finds]
  constructor
  · rintro ⟨info, hinfo, method, hmethod⟩
    obtain ⟨service, hfirst, rfl⟩ := Option.map_eq_some_iff.mp hinfo
    rw [find_methodsMap_eq] at hmethod
    exact ⟨service, hfirst, method, declared_eq_some_iff.mp hmethod⟩
  · rintro ⟨service, hfirst, method, hmethod⟩
    refine ⟨_, Option.map_eq_some_iff.mpr ⟨service, hfirst, rfl⟩, method, ?_⟩
    rw [find_methodsMap_eq, declared_eq_some_iff.mpr hmethod]

/-- Exactly the methods that requests can reach have a call for their node. -/
theorem exists_method_call_iff (h : FilledBy api services servicesMap)
    (hvisits : Visits servicesMap visited) (service : ServiceDescriptor)
    (method : MethodDescriptor) (argsStr : Bytes) :
    (∃ call ∈ nodeCalls api host visited, call.path = methodPath service method) ↔
      Found servicesMap (requestHeader service.name method.name argsStr, argsStr) := by
  rw [found_iff h]
  simp only [mem_nodeCalls_iff h hvisits, mem_serviceCalls_iff, requestHeader]
  constructor
  · rintro ⟨call, ⟨name, registered, hfirst, hcall⟩, hpath⟩
    rcases hcall with rfl | ⟨method', hmethod', rfl⟩
    · exact absurd hpath (servicePath_ne_methodPath _ _ _)
    · obtain ⟨hservice, hmethod⟩ := methodPath_inj hpath
      rw [(firstNamed_eq_some hfirst).1] at hservice
      exact ⟨registered, hservice ▸ hfirst, method', hmethod', hmethod⟩
  · rintro ⟨registered, hfirst, method', hmethod', hname⟩
    refine ⟨_, ⟨_, registered, hfirst, .inr ⟨method', hmethod', rfl⟩⟩, ?_⟩
    rw [methodPath, methodPath, servicePath, servicePath, hname, (firstNamed_eq_some hfirst).1]

theorem nodeOf_method {session : Nat} {call : NodeCall} {service : ServiceDescriptor}
    {method : MethodDescriptor}
    (hshape : call.ForService ∨ ∃ before, call.ForMethod host before)
    (hpath : call.path = methodPath service method) :
    nodeOf session call = ⟨host, some session⟩ := by
  rcases hshape with ⟨_, service', hservice⟩ | ⟨_, hstate, hdata, _⟩
  · exact absurd (hservice.symm.trans hpath) (servicePath_ne_methodPath _ _ _)
  · rw [nodeOf, hstate, hdata, if_pos rfl]

/-- What a session published agrees with the table `services` were registered
in. -/
structure RegistryAgrees (api : GPService α ρ μ κ) (services : List α)
    (servicesMap : ServicesMap α) (session : Nat) (host : Bytes) (calls : List NodeCall) :
    Prop where
  /-- `CallMethod` looks at the node of a method exactly if the header it builds
  is found by the lookups of `handleRpcRequest`. -/
  lookup : ∀ (service : ServiceDescriptor) (method : MethodDescriptor) (argsStr : Bytes),
    publish session .empty calls (cStr (lookupPath service.name method.name)) =
        some ⟨host, some session⟩ ↔
      Found servicesMap (requestHeader service.name method.name argsStr, argsStr)
  distinct : ∀ service service' : ServiceDescriptor, ∀ method method' : MethodDescriptor,
    lookupPath service.name method.name = lookupPath service'.name method'.name →
      service.name = service'.name ∧ method.name = method'.name
  once : ((creates session .empty calls).map fun created => created.1.path).Nodup
  succeed : ∀ created ∈ creates session .empty calls, created.2 = .zok
  parents : ∀ before created after, creates session .empty calls = before ++ created :: after →
    created.1.state = .ephemeral →
      ∃ (service : ServiceDescriptor) (method : MethodDescriptor),
        created.1.path = methodPath service method ∧
          ∃ c ∈ before, c.1.path = servicePath service ∧ c.1.state = .persistent
  only : ∀ path node, publish session .empty calls path = some node →
    ∃ service ∈ services,
      (path = servicePath (api.getDescriptor service) ∧ node = ⟨[], none⟩) ∨
        ∃ method ∈ (api.getDescriptor service).methods,
          path = methodPath (api.getDescriptor service) method ∧ node = ⟨host, some session⟩

/-- Registry and dispatch table agree, whatever was registered and in whatever
order the table is visited. -/
theorem registryAgrees (api : GPService α ρ μ κ) (services : List α) (session : Nat)
    (host : Bytes) {visited : ServicesMap α}
    (hvisits : Visits (services.foldl (notifyService api) []) visited) :
    RegistryAgrees api services (services.foldl (notifyService api) []) session host
      (nodeCalls api host visited) := by
  have hfilled : FilledBy api services (services.foldl (notifyService api) []) :=
    filledBy_foldl .empty services
  have hempty : Made session host [] .empty := .empty
  obtain ⟨hmade, hpaths, hcreated⟩ :=
    hempty.publish (ordered_nodeCalls api host visited []) (by simp)
  rw [List.nil_append] at hmade hpaths
  have hordered := ordered_nodeCalls api host visited []
  have hsub {call : NodeCall}
      (hcall : call ∈ (creates session .empty (nodeCalls api host visited)).map Prod.fst) :
      call ∈ nodeCalls api host visited := by
    obtain ⟨created, hc, rfl⟩ := List.mem_map.mp hcall
    exact (hcreated created hc).1
  refine ⟨fun service method argsStr => ?lookup, ?distinct, ?once, fun created hc =>
    (hcreated created hc).2, ?parents, ?only⟩
  case lookup =>
    rw [lookupPath_eq, cStr_methodPath, ← exists_method_call_iff hfilled hvisits service method
      argsStr, hmade.nodes]
    constructor
    · rintro ⟨call, hcall, hpath, _⟩
      exact ⟨call, hsub hcall, hpath⟩
    · rintro ⟨call, hcall, hpath⟩
      obtain ⟨made, hmem, hsame⟩ := List.mem_map.mp (hpaths call hcall)
      have hmethod := hsame.trans hpath
      exact ⟨made, hmem, hmethod, nodeOf_method (hordered.mem (hsub hmem)) hmethod⟩
  case distinct =>
    intro service service' method method' h
    rw [lookupPath_eq, lookupPath_eq] at h
    exact methodPath_inj h
  case once =>
    have honce := hmade.pathsNodup
    rwa [List.map_map] at honce
  case parents =>
    intro before created after hsplit hstate
    have hnext := hmade.ordered
    rw [hsplit, List.map_append, List.map_cons] at hnext
    rcases hnext.next with ⟨hpersistent, _⟩ | ⟨_, _, service, method, hpath, c, hc, hshape⟩
    · rw [hstate] at hpersistent
      cases hpersistent
    · rw [List.nil_append] at hc
      obtain ⟨parent, hparent, rfl⟩ := List.mem_map.mp hc
      exact ⟨service, method, hpath, parent, hparent, hshape.2, hshape.1⟩
  case only =>
    intro path node hnode
    obtain ⟨call, hcall, rfl, rfl⟩ := (hmade.nodes path node).mp hnode
    obtain ⟨name, service, hfirst, hshape⟩ :=
      (mem_nodeCalls_iff hfilled hvisits).mp (hsub hcall)
    refine ⟨service, (firstNamed_eq_some hfirst).2, ?_⟩
    rcases mem_serviceCalls_iff.mp hshape with rfl | ⟨method, hmethod, rfl⟩
    · exact .inl ⟨rfl, rfl⟩
    · exact .inr ⟨method, hmethod, rfl, rfl⟩

theorem registryAgrees_userService :
    RegistryAgrees echoService [userService, userService] userServices 0 [0x61]
      (nodeCalls echoService [0x61] userServices) :=
  registryAgrees echoService [userService, userService] 0 [0x61]
    ⟨userServices, .refl _, List.forall₂_same.mpr fun _ _ => ⟨rfl, .refl _⟩⟩

end KitRpc.System

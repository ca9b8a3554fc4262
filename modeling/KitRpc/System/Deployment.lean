import KitRpc.Config.Startup
import KitRpc.Config.Typed
import KitRpc.System.Endpoint
/-!
# Providers out of configuration files

A provider program reads its address from its configuration file, binds its
server to it and announces it. What callers find in the registry, whichever
providers come and go, is then an address that a provider listens on.
-/

namespace KitRpc.System

open KitRpc.Foundation KitRpc.Cpp KitRpc.Zookeeper KitRpc.Provider KitRpc.Caller KitRpc.Config

/-! ## A provider program -/

/-- The configuration a provider has read, and the address given to its `TcpServer`;
for port 0 the system chooses another. -/
structure Deployed where
  config : RpcConfig OtherValue
  listen : Endpoint

namespace Deployed

variable (d : Deployed)

def ip : Bytes := d.config.get (ascii "rpc_server_ip")

def port : Bytes := d.config.get (ascii "rpc_server_port")

def host : Bytes := announcedHost fun key => d.config.get (ascii key)

theorem port_eq (listen : Endpoint) (config : RpcConfig OtherValue) :
    port ⟨config, listen⟩ = config.get (ascii "rpc_server_port") := rfl

end Deployed

/-- A provider program up to its `Provide` object: `Init`, and the address out of
the configuration. `none` where the process has ended by then; the writer of the log
has not ended it. -/
def deploy (argv : List Bytes) (disk : Disk) : Option Deployed :=
  match KitRpcApplication.instance.Init 0 argv disk false with
  | .exited | .failed _ => none
  | .ready app _ =>
    match app.getConfig with
    | none => none
    | some config =>
      let config := app.configs config
      match config.getIntegral .int (ascii "rpc_server_port") with
      | .error _ => none
      | .ok port => some ⟨config, ⟨config.get (ascii "rpc_server_ip"), UInt16.ofInt port⟩⟩

namespace Deployed

/-- What is known of the strings: they hold no NUL, and the server has the port
that the string is the number of, or port 0 where there is none. -/
structure Started (d : Deployed) : Prop where
  ip_plain : (0 : UInt8) ∉ d.ip
  port_plain : (0 : UInt8) ∉ d.port
  listen_ip : d.listen.ip = d.ip
  listen_port : d.port = [] ∧ d.listen.port = 0 ∨
    ∃ n, stoi d.port = .ok n ∧ UInt16.ofInt n = d.listen.port

theorem started_of_deploy {argv : List Bytes} {disk : Disk} {d : Deployed}
    (h : deploy argv disk = some d) : d.Started := by
  unfold deploy at h
  split at h
  case h_1 | h_2 => cases h
  case h_3 app logPath hinit =>
    obtain ⟨_, file, _, ⟨data, _, hread⟩, rfl, _⟩ := init_eq_ready_iff.mp hinit
    simp only [KitRpcApplication.getConfig_activate, KitRpcApplication.configs_activate] at h
    generalize ((RpcConfig.create file .iniFile).load disk).config = c at h hread
    split at h
    case h_1 => cases h
    case h_2 port hport =>
      cases h
      refine ⟨hread.notMem_get _, hread.notMem_get _, rfl, ?_⟩
      have hfind := hread.find (ascii "rpc_server_port")
      rw [port_eq, hread.get]
      cases hval : valueIn (fileEntries (cStr data)) (ascii "rpc_server_port") with
      | none =>
          rw [hval, Option.map_none] at hfind
          rw [RpcConfig.getIntegral, hfind] at hport
          cases hport
          exact .inl ⟨rfl, rfl⟩
      | some s =>
          rw [hval, Option.map_some] at hfind
          obtain ⟨n, hstoi, hcast⟩ := (RpcConfig.getIntegral_text_eq_ok_iff hfind).mp hport
          have hrange : IntegralType.int.InRange n := stoi_bounds hstoi
          rw [IntegralType.cast_of_inRange hrange] at hcast
          exact .inr ⟨n, hstoi, congrArg _ hcast⟩

/-- Callers can read the address given to the server out of what is announced. -/
def Reachable (d : Deployed) : Prop :=
  colon ∉ d.ip ∧ d.port ≠ [] ∧ d.host.length < bufferSize

theorem host_eq (d : Deployed) : d.host = d.ip ++ colon :: d.port := by
  rw [host, announcedHost, List.append_assoc]
  rfl

theorem Started.cStr_host {d : Deployed} (h : d.Started) : cStr d.host = d.host := by
  rw [cStr_eq_self_iff, host_eq, List.mem_append, List.mem_cons]
  rintro (hip | hcolon | hport)
  · exact h.ip_plain hip
  · cases hcolon
  · exact h.port_plain hport

/-- What a caller dials on reading the announced string is the address of the
server exactly under these conditions. -/
theorem Started.dials_iff {d : Deployed} (h : d.Started) :
    (cStr d.host).length < bufferSize ∧ targetOf (cStr d.host) = .ok d.listen ↔ d.Reachable := by
  rw [h.cStr_host, targetOf_eq_ok_iff, h.listen_ip]
  constructor
  · rintro ⟨hfits, portText, n, hhost, hcolon, hstoi, _⟩
    rw [host_eq] at hhost
    obtain rfl := (List.cons.inj (List.append_cancel_left hhost)).2
    refine ⟨hcolon, fun hport => ?_, hfits⟩
    rw [hport] at hstoi
    cases hstoi
  · rintro ⟨hcolon, hport, hfits⟩
    obtain ⟨n, hstoi, hlisten⟩ := h.listen_port.resolve_left fun hnone => hport hnone.1
    exact ⟨hfits, d.port, n, host_eq d, hcolon, hstoi, hlisten⟩

end Deployed

variable {α ρ μ κ : Type} {api : GPService α ρ μ κ}

/-- A provider that is alone in the registry: callers dial the address given to its
server exactly if its IP has no colon, a port is configured, and both fit the buffer
together. -/
theorem deployed_lookup_iff {argv : List Bytes} {disk : Disk} {d : Deployed}
    (hdeploy : deploy argv disk = some d) (servicesMap : ServicesMap α) (session : Nat)
    {entry : Bytes × ServiceInfo α} (hentry : entry ∈ servicesMap)
    {m : Bytes × MethodDescriptor} (hm : m ∈ entry.2.methodsMap) :
    lookup (Provide.run api ⟨d.listen, servicesMap⟩ (fun key => d.config.get (ascii key)) session
        .empty) (api.getDescriptor entry.2.service) m.2 = some (.ok d.listen) ↔
      colon ∉ d.ip ∧ d.port ≠ [] ∧ d.host.length < bufferSize := by
  obtain ⟨node, hnode, hdata⟩ := node_of_run api ⟨d.listen, servicesMap⟩
    (fun key => d.config.get (ascii key)) session hentry hm
  rw [← cStr_methodPath] at hnode
  rw [lookup_eq, getNodeData_of_node hnode, hdata, ← Deployed.Reachable]
  rw [← (Deployed.started_of_deploy hdeploy).dials_iff]
  change Option.map targetOf (if (cStr d.host).length < bufferSize then some (cStr d.host)
    else none) = some (.ok d.listen) ↔ _
  by_cases hfits : (cStr d.host).length < bufferSize
  · rw [if_pos hfits, Option.map_some, Option.some.injEq, and_iff_right hfits]
  · rw [if_neg hfits, Option.map_none]
    simp [hfits]

def calleeArgs : List Bytes := [ascii "test_callee", ascii "-i", ascii "default_conf.ini"]

/-- The entries of the default configuration that a provider announces. -/
def calleeDisk : Disk := fun file =>
  if file = ascii "default_conf.ini" then
    some (.bytes (ascii "# rpc\nrpc_server_ip=192.168.77.136\nrpc_server_port=8000\n"))
  else none

def callee : Deployed := (deploy calleeArgs calleeDisk).get (by decide +kernel)

theorem deploy_callee : deploy calleeArgs calleeDisk = some callee := (Option.some_get _).symm

theorem reachable_callee : callee.Reachable :=
  ⟨by decide +kernel, by decide +kernel, by decide +kernel⟩

theorem deployed_lookup_iff_callee :
    lookup (Provide.run echoService ⟨callee.listen, userServices⟩
        (fun key => callee.config.get (ascii key)) 0 .empty) userService loginMethod =
      some (.ok ⟨ascii "192.168.77.136", 8000⟩) := by
  have hentry : (userService.name, serviceInfo echoService userService) ∈ userServices :=
    List.mem_singleton.mpr rfl
  have hm : (loginMethod.name, loginMethod) ∈
      (serviceInfo echoService userService).methodsMap := List.mem_cons_self
  have hlisten : callee.listen = ⟨ascii "192.168.77.136", 8000⟩ := by decide +kernel
  rw [← hlisten]
  exact (deployed_lookup_iff deploy_callee userServices 0 hentry hm).mpr reachable_callee

/-! ## Any number of providers -/

/-- What a step of a cluster does: a provider starts, goes on and may have made
the node of one of its calls, or loses its session. -/
inductive Cluster.Moved (api : GPService α ρ μ κ) (s : Cluster) : ClusterEvent α → Cluster → Prop
  | started {i : Nat} {host : Bytes} {servicesMap : ServicesMap α} : s.providers i = none →
      Moved api s (.start i host servicesMap)
        (s.set i ⟨host, [], nodeCalls api host servicesMap, false, true, true⟩)
  | continued {a : ClusterEvent α} {i : Nat} {p p' : Instance} {tree : Tree} :
      (∀ session host servicesMap, a ≠ .start session host servicesMap) →
      s.providers i = some p → p.Continues p' →
      (∀ path node, tree path = some node → s.tree path = some node ∨
        p.alive ∧ ∃ call ∈ p.done ++ p.todo, path = cStr call.path ∧ node = nodeOf i call) →
      (∀ path node, s.tree path = some node → tree path = some node) →
      Moved api s a ({ s with tree }.set i p')
  | expired {i : Nat} {p : Instance} : s.providers i = some p →
      Moved api s (.expire i)
        ({ s with tree := Zookeeper.expire s.tree i }.set i { p with alive := false })

section

variable {s s' : Cluster} {a : ClusterEvent α}

theorem Cluster.Moved.keep {i : Nat} {p p' : Instance}
    (hstart : ∀ session host servicesMap, a ≠ .start session host servicesMap)
    (hp : s.providers i = some p) (hcontinues : p.Continues p') :
    s.Moved api a (s.set i p') :=
  .continued hstart hp hcontinues (fun _ _ => .inl) fun _ _ => id

theorem clusterStep_moved (h : clusterStep api s a = some s') : s.Moved api a s' := by
  cases a with
  | start session host servicesMap =>
      obtain ⟨hnew, rfl⟩ := clusterStep_start h
      exact .started hnew
  | «exists» session =>
      obtain ⟨p, call, todo, hp, htodo, _, ⟨_, rfl⟩ | ⟨_, rfl⟩⟩ := clusterStep_exists h
      · exact .keep nofun hp ⟨rfl, rfl, rfl⟩
      · exact .keep nofun hp (Instance.advance_continues htodo)
  | create session =>
      obtain ⟨p, call, todo, hp, htodo, halive, rfl⟩ := clusterStep_create h
      refine .continued nofun hp (Instance.advance_continues htodo) ?_ fun _ _ => zooCreate_keeps
      intro path node hnode
      refine (zooCreate_old_or_new hnode).imp_right fun ⟨hpath, hmade⟩ => ?_
      exact ⟨halive, call, by simp [htodo], hpath, hmade⟩
  | crash session =>
      obtain ⟨p, hp, rfl⟩ := clusterStep_crash h
      exact .keep nofun hp ⟨rfl, rfl, rfl⟩
  | expire session =>
      obtain ⟨p, hp, rfl⟩ := clusterStep_expire h
      exact .expired hp

/-- What every run maintains: lasting nodes are those of services, and an
ephemeral node holds the address of a provider with a live session that serves
its method. -/
structure Owned (s : Cluster) : Prop where
  ordered : ∀ i p, s.providers i = some p → Ordered p.host [] (p.done ++ p.todo)
  lasting : ∀ path node, s.tree path = some node → node.owner = none →
    ∃ service, path = servicePath service
  owned : ∀ path node j, s.tree path = some node → node.owner = some j →
    ∃ q, s.providers j = some q ∧ q.alive ∧ q.Serves path ∧ node.data = q.host

theorem Owned.empty : Owned .empty := by
  constructor <;> simp [Cluster.empty, Tree.empty]

theorem Owned.step (h : Owned s) (hmoved : s.Moved api a s') : Owned s' := by
  cases hmoved with
  | @started i host servicesMap hnew =>
      refine ⟨?ordered, h.lasting, ?owned⟩
      case ordered =>
        apply Cluster.forall_set
        · exact ordered_nodeCalls api host servicesMap []
        · exact fun j q _ hq => h.ordered j q hq
      case owned =>
        intro path node j hnode howner
        obtain ⟨q, hq, hshape⟩ := h.owned path node j hnode howner
        have hj : j ≠ i := by
          rintro rfl
          rw [hnew] at hq
          cases hq
        exact ⟨q, (Cluster.set_providers_ne _ _ hj).trans hq, hshape⟩
  | @continued _ i p p' tree _ hp hcontinues hnew _ =>
      have hshape {call : NodeCall} (hcall : call ∈ p.done ++ p.todo) :=
        (h.ordered i p hp).mem hcall
      have hplain {call : NodeCall} (hcall : call ∈ p.done ++ p.todo) :=
        (h.ordered i p hp).cStr_path hcall
      refine ⟨?ordered, ?lasting, ?owned⟩
      case ordered =>
        apply Cluster.forall_set
        · rw [hcontinues.host, hcontinues.calls]
          exact h.ordered i p hp
        · exact fun j q _ hq => h.ordered j q hq
      case lasting =>
        intro path node hnode howner
        rcases hnew path node hnode with hold | ⟨_, call, hcall, rfl, rfl⟩
        · exact h.lasting path node hold howner
        · rcases hshape hcall with ⟨_, hservice⟩ | ⟨_, hstate, _⟩
          · rwa [hplain hcall]
          · simp [nodeOf, hstate] at howner
      case owned =>
        intro path node j hnode howner
        apply Cluster.owner_set tree hp hcontinues
        rcases hnew path node hnode with hold | ⟨halive, call, hcall, rfl, rfl⟩
        · exact h.owned path node j hold howner
        · rcases hshape hcall with ⟨hstate, _⟩ | ⟨_, hstate, hdata, _⟩
          · simp [nodeOf, hstate] at howner
          · simp only [nodeOf, hstate, if_pos, Option.some.injEq] at howner
            subst howner
            exact ⟨p, hp, halive, ⟨call, hcall, hstate, (hplain hcall).symm⟩, hdata⟩
  | @expired i p hp =>
      refine ⟨?ordered, ?lasting, ?owned⟩
      case ordered =>
        apply Cluster.forall_set
        · exact h.ordered i p hp
        · exact fun j q _ hq => h.ordered j q hq
      case lasting =>
        intro path node hnode howner
        exact h.lasting path node (expire_eq_some_iff.mp hnode).1 howner
      case owned =>
        intro path node j hnode howner
        obtain ⟨hnode, hother⟩ := expire_eq_some_iff.mp hnode
        obtain ⟨q, hq, hshape⟩ := h.owned path node j hnode howner
        have hj : j ≠ i := fun hj => hother (hj ▸ howner)
        exact ⟨q, (Cluster.set_providers_ne _ _ hj).trans hq, hshape⟩

/-- The address is that of a program whose announcement the provider makes, and
callers can read it. -/
def Instance.Listens (p : Instance) (listen : Endpoint) : Prop :=
  ∃ argv disk d, deploy argv disk = some d ∧ d.Reachable ∧ d.host = p.host ∧ d.listen = listen

def Deploys (_ : Cluster) : ClusterEvent α → Prop
  | .start _ host _ => ∃ argv disk d, deploy argv disk = some d ∧ d.Reachable ∧ d.host = host
  | _ => True

def Listening (s : Cluster) : Prop :=
  ∀ i p, s.providers i = some p → ∃ listen, p.Listens listen

theorem Listening.step (h : Listening s) (hok : Deploys s a) (hmoved : s.Moved api a s') :
    Listening s' := by
  cases hmoved with
  | started =>
      obtain ⟨argv, disk, d, hd⟩ := hok
      apply Cluster.forall_set (P := fun _ p => ∃ listen, p.Listens listen)
      · exact ⟨d.listen, argv, disk, d, hd.1, hd.2.1, hd.2.2, rfl⟩
      · exact fun j q _ hq => h j q hq
  | @continued _ i p p' tree _ hp hcontinues =>
      apply Cluster.forall_set (P := fun _ p => ∃ listen, p.Listens listen)
      · obtain ⟨listen, argv, disk, d, hdeploy, hreachable, hhost, hlisten⟩ := h i p hp
        exact ⟨listen, argv, disk, d, hdeploy, hreachable, hhost.trans hcontinues.host.symm,
          hlisten⟩
      · exact fun j q _ hq => h j q hq
  | @expired i p hp =>
      apply Cluster.forall_set (P := fun _ p => ∃ listen, p.Listens listen)
      · exact h i p hp
      · exact fun j q _ hq => h j q hq

theorem Instance.Listens.dials {p : Instance} {listen : Endpoint} (h : p.Listens listen) :
    (cStr p.host).length < bufferSize ∧ targetOf (cStr p.host) = .ok listen := by
  obtain ⟨argv, disk, d, hdeploy, hreachable, hhost, rfl⟩ := h
  rw [← hhost]
  exact (Deployed.started_of_deploy hdeploy).dials_iff.mpr hreachable

theorem lookup_of_owner {service : ServiceDescriptor} {method : MethodDescriptor} {node : Znode}
    {q : Instance} {listen : Endpoint} (hnode : s.tree (methodPath service method) = some node)
    (hdata : node.data = q.host) (hlistens : q.Listens listen) :
    lookup s.tree service method = some (.ok listen) := by
  obtain ⟨hfits, htarget⟩ := hlistens.dials
  rw [← cStr_methodPath] at hnode
  rw [lookup_eq, getNodeData_of_node hnode, hdata, if_pos hfits, Option.map_some, htarget]

/-- `lookup` whose two requests meet the registry at different times. -/
def lookupAcross (atExists atGet : Tree) (service : ServiceDescriptor)
    (method : MethodDescriptor) : Option (Except CallFault Endpoint) :=
  (getNodeDataAcross atExists atGet (lookupPath service.name method.name)).map targetOf

theorem Owned.lookupAcross_cases (h : Owned s) (atExists : Tree) (service : ServiceDescriptor)
    (method : MethodDescriptor) :
    lookupAcross atExists s.tree service method =
        some (.error (.failed "zookeeper get ip/port is null")) ∨
      ∃ session p, s.providers session = some p ∧ p.alive ∧
        p.Serves (methodPath service method) ∧ ∀ listen, p.Listens listen →
          lookupAcross atExists s.tree service method = some (.ok listen) := by
  rcases getNodeDataAcross_eq atExists s.tree (methodPath service method) with hnone | hget
  · rw [lookupAcross, lookupPath_eq, hnone]
    exact .inl rfl
  · rw [lookupAcross, lookupPath_eq, hget, ← lookup_eq]
    cases hnode : s.tree (methodPath service method) with
    | none =>
        have hexists : zooExists s.tree (methodPath service method) = .znonode := by
          rw [zooExists, hnode]
          exact if_neg (by simp [methodPath_ne_root])
        rw [lookup_eq, getNodeData, cStr_methodPath, if_pos hexists]
        exact .inl rfl
    | some node =>
        cases howner : node.owner with
        | none =>
            obtain ⟨other, hother⟩ := h.lasting _ node hnode howner
            exact absurd hother.symm (servicePath_ne_methodPath _ _ _)
        | some j =>
            obtain ⟨q, hq, halive, hserves, hdata⟩ := h.owned _ node j hnode howner
            exact .inr ⟨j, q, hq, halive, hserves, fun _ => lookup_of_owner hnode hdata⟩

/-- A caller that looks a method up at any time, with anything happening between
its two requests, is told that there is no address, or dials the address of a
server whose session is alive and which serves the method. -/
theorem lookup_in_every_run (h : Reaches (clusterStep api) Deploys .empty s) (atExists : Tree)
    (service : ServiceDescriptor) (method : MethodDescriptor) :
    lookupAcross atExists s.tree service method =
        some (.error (.failed "zookeeper get ip/port is null")) ∨
      ∃ session p listen, s.providers session = some p ∧ p.alive ∧
        p.Serves (methodPath service method) ∧ p.Listens listen ∧
        lookupAcross atExists s.tree service method = some (.ok listen) := by
  obtain ⟨howned, hlistening⟩ := h.invariant (I := fun s => Owned s ∧ Listening s)
    ⟨.empty, nofun⟩ fun ⟨howned, hlistening⟩ hok hstep =>
      ⟨howned.step (clusterStep_moved hstep), hlistening.step hok (clusterStep_moved hstep)⟩
  rcases howned.lookupAcross_cases atExists service method with
    hnone | ⟨session, p, hp, halive, hserves, hlookup⟩
  · exact .inl hnone
  · obtain ⟨listen, hlistens⟩ := hlistening session p hp
    exact .inr ⟨session, p, listen, hp, halive, hserves, hlistens, hlookup listen hlistens⟩

def registration : List (ClusterEvent ServiceDescriptor) :=
  [.start 0 callee.host userServices, .exists 0, .create 0, .exists 0, .create 0, .exists 0,
    .create 0]

theorem deploys_registration : ∀ a ∈ registration, ∀ s, Deploys s a := by
  intro a ha s
  simp only [registration, List.mem_cons, List.not_mem_nil, or_false] at ha
  rcases ha with rfl | rfl | rfl | rfl | rfl | rfl | rfl
  · exact ⟨calleeArgs, calleeDisk, callee, deploy_callee, reachable_callee, rfl⟩
  all_goals trivial

/-- The node was not there yet at the first request, and is there at both. -/
theorem lookup_in_every_run_registered :
    ∃ s, run (clusterStep echoService) .empty registration = some s ∧
      ∀ atExists, lookupAcross atExists s.tree userService loginMethod =
          some (.error (.failed "zookeeper get ip/port is null")) ∨
        ∃ session p listen, s.providers session = some p ∧ p.alive ∧
          p.Serves (methodPath userService loginMethod) ∧ p.Listens listen ∧
          lookupAcross atExists s.tree userService loginMethod = some (.ok listen) := by
  have hrun : run (clusterStep echoService) .empty registration = some _ := rfl
  exact ⟨_, hrun, fun atExists =>
    lookup_in_every_run (.of_run hrun deploys_registration) atExists userService loginMethod⟩

/-- While sessions expire only where nobody relies on their nodes, a method of a
provider that has finished its registration is found, and callers dial the
address of a server whose session is alive and which serves the method. -/
theorem finished_is_found
    (h : Reaches (clusterStep api) (fun s a => ExpiresUnused s a ∧ Deploys s a) .empty s)
    {i : Nat} {p : Instance} (hp : s.providers i = some p) (halive : p.alive)
    (hfinished : p.Finished) {service : ServiceDescriptor} {method : MethodDescriptor}
    (hserves : p.Serves (methodPath service method)) :
    ∃ session q listen, s.providers session = some q ∧ q.alive ∧
      q.Serves (methodPath service method) ∧ q.Listens listen ∧
      lookup s.tree service method = some (.ok listen) := by
  obtain ⟨hregistered, hlistening⟩ := h.invariant (I := fun s => Registered s ∧ Listening s)
    ⟨.empty, nofun⟩ fun ⟨hregistered, hlistening⟩ hok hstep =>
      ⟨hregistered.step hok.1 hstep, hlistening.step hok.2 (clusterStep_moved hstep)⟩
  obtain ⟨node, hnode, j, q, hq, hqalive, hqserves, hdata⟩ :=
    hregistered.discoverable i p hp halive hfinished _ hserves
  obtain ⟨listen, hlistens⟩ := hlistening j q hq
  exact ⟨j, q, listen, hq, hqalive, hqserves, hlistens, lookup_of_owner hnode hdata hlistens⟩

theorem finished_is_found_registered :
    ∃ s, run (clusterStep echoService) .empty registration = some s ∧
      ∃ session q listen, s.providers session = some q ∧ q.alive ∧
        q.Serves (methodPath userService loginMethod) ∧ q.Listens listen ∧
        lookup s.tree userService loginMethod = some (.ok listen) := by
  have hok : ∀ a ∈ registration, ∀ s, ExpiresUnused s a ∧ Deploys s a := by
    refine fun a ha s => ⟨fun session hexpire => ?_, deploys_registration a ha s⟩
    subst hexpire
    simp [registration] at ha
  let provider : Instance :=
    ⟨callee.host, nodeCalls echoService callee.host userServices, [], false, true, true⟩
  have hserves : provider.Serves (methodPath userService loginMethod) :=
    ⟨⟨methodPath userService loginMethod, callee.host, .ephemeral⟩, by decide +kernel, rfl, rfl⟩
  have hfinished : provider.Finished := rfl
  have hrun : run (clusterStep echoService) .empty registration = some _ := rfl
  exact ⟨_, hrun, finished_is_found (i := 0) (.of_run hrun hok) rfl rfl hfinished hserves⟩

variable (api) in
/-- As long as the session that made the node of a method lives, callers of the
method dial the same address, whoever else registers it. -/
theorem lookup_stable {j : Nat}
    (h : Reaches (clusterStep api) (fun _ a => a ≠ ClusterEvent.expire j) s s')
    {service : ServiceDescriptor} {method : MethodDescriptor} {node : Znode}
    (hnode : s.tree (methodPath service method) = some node) (howner : node.owner = some j) :
    lookup s'.tree service method = lookup s.tree service method := by
  have hkept : s'.tree (methodPath service method) = some node := by
    refine h.invariant (I := fun s => s.tree (methodPath service method) = some node) hnode
      fun hthere hok hstep => ?_
    cases clusterStep_moved hstep with
    | started => exact hthere
    | continued _ _ _ _ hkeeps => exact hkeeps _ _ hthere
    | @expired i =>
        refine expire_eq_some_iff.mpr ⟨hthere, fun hi => hok ?_⟩
        rw [howner] at hi
        rw [Option.some.inj hi]
  rw [← cStr_methodPath] at hnode hkept
  rw [lookup_eq, lookup_eq, getNodeData_of_node hnode, getNodeData_of_node hkept]

/-- Another provider registers the same methods, and the first one crashes. -/
theorem lookup_stable_registered :
    ∃ s s', run (clusterStep echoService) .empty registration = some s ∧
      run (clusterStep echoService) s
        [.start 1 [0x62] userServices, .exists 1, .exists 1, .exists 1, .crash 0] = some s' ∧
      lookup s'.tree userService loginMethod = lookup s.tree userService loginMethod := by
  have hok : ∀ a ∈ [ClusterEvent.start 1 [0x62] userServices, .exists 1, .exists 1, .exists 1,
      .crash 0], ∀ _ : Cluster, a ≠ .expire 0 := by
    simp
  refine ⟨_, _, rfl, rfl, lookup_stable echoService (.of_run ?_ hok) rfl rfl⟩
  rfl

end

end KitRpc.System

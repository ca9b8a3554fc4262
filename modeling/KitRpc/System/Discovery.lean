import KitRpc.Foundation.Reaches
import KitRpc.Provider.Publish
/-!
# Providers and the registry

Any number of providers register their services, crash, come back under a new
session and lose their sessions. The two requests of each `createNode` are
separate steps. A node that is there already counts as created, whoever owns
it, so a provider may rely on a node that ends with another provider's session.
-/

namespace KitRpc.System

open KitRpc.Foundation KitRpc.Cpp KitRpc.Zookeeper KitRpc.Provider

/-- A provider that was started: the address it announces, the `createNode`
calls it has made and has still to make, whether it is between the two requests
of the next one, and whether its process and its session are there. -/
structure Instance where
  host : Bytes
  done : List NodeCall
  todo : List NodeCall
  absent : Bool
  running : Bool
  alive : Bool

structure Cluster where
  tree : Tree
  providers : Nat → Option Instance

def Cluster.empty : Cluster := ⟨.empty, fun _ => none⟩

/-- What can happen. `exists` and `create` are the two requests of the next
`createNode` call of a provider. -/
inductive ClusterEvent (α : Type)
  | start (session : Nat) (host : Bytes) (servicesMap : ServicesMap α)
  | exists (session : Nat)
  | create (session : Nat)
  | crash (session : Nat)
  | expire (session : Nat)

namespace Instance

def Finished (p : Instance) : Prop := p.todo = []

def Serves (p : Instance) (path : Bytes) : Prop :=
  ∃ call ∈ p.done ++ p.todo, call.state = .ephemeral ∧ call.path = path

def Passed (p : Instance) (path : Bytes) : Prop :=
  ∃ call ∈ p.done, call.state = .ephemeral ∧ call.path = path

def advance (p : Instance) : Instance :=
  match p.todo with
  | [] => p
  | call :: todo => { p with done := p.done ++ [call], todo, absent := false }

end Instance

def Cluster.set (s : Cluster) (session : Nat) (p : Instance) : Cluster :=
  { s with providers := Function.update s.providers session (some p) }

section

variable {α ρ μ κ : Type} (api : GPService α ρ μ κ)

/-- One step; `none` where the event cannot happen. -/
def clusterStep (s : Cluster) : ClusterEvent α → Option Cluster
  | .start session host servicesMap =>
      match s.providers session with
      | some _ => none
      | none =>
        some (s.set session
          { host
            done := []
            todo := nodeCalls api host servicesMap
            absent := false
            running := true
            alive := true })
  | .exists session =>
      match s.providers session with
      | none => none
      | some p =>
        match p.todo with
        | [] => none
        | call :: _ =>
          if p.running ∧ p.alive ∧ ¬ p.absent then
            if createsAfterExists (zooExists s.tree (cStr call.path)) then
              some (s.set session { p with absent := true })
            else some (s.set session p.advance)
          else none
  | .create session =>
      match s.providers session with
      | none => none
      | some p =>
        match p.todo with
        | [] => none
        | call :: _ =>
          if p.running ∧ p.alive ∧ p.absent then
            let (_, tree) := zooCreate s.tree session (cStr call.path) call.data call.state
            some ({ s with tree }.set session p.advance)
          else none
  | .crash session =>
      match s.providers session with
      | none => none
      | some p => if p.running then some (s.set session { p with running := false }) else none
  | .expire session =>
      match s.providers session with
      | none => none
      | some p =>
        if p.alive then
          some ({ s with tree := expire s.tree session }.set session { p with alive := false })
        else none

end

/-- Every provider with a live session that has finished its registration finds
for each of its methods a node with the address of a provider that has a live
session and serves the method. -/
def Discoverable (s : Cluster) : Prop :=
  ∀ i p, s.providers i = some p → p.alive → p.Finished → ∀ path, p.Serves path →
    ∃ node, s.tree path = some node ∧
      ∃ j q, s.providers j = some q ∧ q.alive ∧ q.Serves path ∧ node.data = q.host

/-- A session expires only while no other provider with a live session has
passed a node it owns. -/
def ExpiresUnused {α : Type} (s : Cluster) (a : ClusterEvent α) : Prop :=
  ∀ session, a = .expire session → ∀ path node, s.tree path = some node →
    node.owner = some session →
    ∀ i p, s.providers i = some p → i ≠ session → p.alive → ¬ p.Passed path

/-! ## The invariant -/

/-- What every guarded run maintains. Nodes that last are those of services, an
ephemeral node holds the address of a provider with a live session that serves
its method, and what a provider has passed is there. -/
structure Registered (s : Cluster) : Prop where
  ordered : ∀ i p, s.providers i = some p → Ordered p.host [] (p.done ++ p.todo)
  lasting : ∀ path node, s.tree path = some node → node.owner = none →
    ∃ service, path = servicePath service
  owned : ∀ path node j, s.tree path = some node → node.owner = some j →
    ∃ q, s.providers j = some q ∧ q.alive ∧ q.Serves path ∧ node.data = q.host
  services : ∀ i p, s.providers i = some p → ∀ call ∈ p.done, call.state = .persistent →
    ∃ node, s.tree call.path = some node ∧ node.owner = none
  methods : ∀ i p, s.providers i = some p → p.alive → ∀ path, p.Passed path →
    ∃ node, s.tree path = some node

theorem Registered.empty : Registered .empty := by
  constructor <;> simp [Cluster.empty, Tree.empty]

theorem Registered.method_path {s : Cluster} (h : Registered s) {i : Nat} {p : Instance}
    (hp : s.providers i = some p) {path : Bytes} (hserves : p.Serves path) :
    ∃ service method, path = methodPath service method := by
  obtain ⟨call, hcall, hstate, rfl⟩ := hserves
  rcases (h.ordered i p hp).mem hcall with ⟨hpersistent, _⟩ | ⟨_, _, _, service, method, hpath, _⟩
  · rw [hstate] at hpersistent
    cases hpersistent
  · exact ⟨service, method, hpath⟩

theorem Registered.discoverable {s : Cluster} (h : Registered s) : Discoverable s := by
  intro i p hp halive hfinished path hserves
  have hpassed : p.Passed path := by
    obtain ⟨call, hcall, hcall'⟩ := hserves
    rw [show p.todo = [] from hfinished, List.append_nil] at hcall
    exact ⟨call, hcall, hcall'⟩
  obtain ⟨node, hnode⟩ := h.methods i p hp halive path hpassed
  refine ⟨node, hnode, ?_⟩
  cases howner : node.owner with
  | none =>
      obtain ⟨service, hservice⟩ := h.lasting path node hnode howner
      obtain ⟨service', method, hmethod⟩ := h.method_path hp hserves
      exact absurd (hservice.symm.trans hmethod) (servicePath_ne_methodPath _ _ _)
  | some j =>
      obtain ⟨q, hq⟩ := h.owned path node j hnode howner
      exact ⟨j, q, hq⟩

/-! ## Steps -/

theorem Cluster.set_providers_self (s : Cluster) (i : Nat) (p : Instance) :
    (s.set i p).providers i = some p :=
  Function.update_self ..

theorem Cluster.set_providers_ne (s : Cluster) {i j : Nat} (p : Instance) (h : j ≠ i) :
    (s.set i p).providers j = s.providers j :=
  Function.update_of_ne h ..

theorem Cluster.forall_set {s : Cluster} {i : Nat} {p : Instance} {P : Nat → Instance → Prop}
    (hnew : P i p) (hrest : ∀ j q, j ≠ i → s.providers j = some q → P j q) :
    ∀ j q, (s.set i p).providers j = some q → P j q := by
  intro j q hq
  by_cases hj : j = i
  · subst hj
    rw [Cluster.set_providers_self] at hq
    cases hq
    exact hnew
  · rw [Cluster.set_providers_ne s p hj] at hq
    exact hrest j q hj hq

structure Instance.Continues (p p' : Instance) : Prop where
  host : p'.host = p.host
  calls : p'.done ++ p'.todo = p.done ++ p.todo
  alive : p'.alive = p.alive

theorem Instance.Continues.serves {p p' : Instance} (h : p.Continues p') {path : Bytes}
    (hserves : p.Serves path) : p'.Serves path := by
  rwa [Instance.Serves, h.calls]

theorem Instance.advance_eq {p : Instance} {call : NodeCall} {todo : List NodeCall}
    (htodo : p.todo = call :: todo) :
    p.advance = { p with done := p.done ++ [call], todo, absent := false } := by
  rw [Instance.advance, htodo]

theorem Instance.advance_continues {p : Instance} {call : NodeCall} {todo : List NodeCall}
    (htodo : p.todo = call :: todo) : p.Continues p.advance := by
  rw [Instance.advance_eq htodo]
  exact ⟨rfl, by simp [htodo], rfl⟩

theorem Cluster.owner_set {s : Cluster} {i j : Nat} {p p' : Instance} (tree : Tree)
    (hp : s.providers i = some p) (hcontinues : p.Continues p') {path data : Bytes}
    (h : ∃ q, s.providers j = some q ∧ q.alive ∧ q.Serves path ∧ data = q.host) :
    ∃ q, ({ s with tree }.set i p').providers j = some q ∧ q.alive ∧ q.Serves path ∧
      data = q.host := by
  obtain ⟨q, hq, halive, hserves, hdata⟩ := h
  by_cases hj : j = i
  · subst hj
    cases hp.symm.trans hq
    exact ⟨p', Cluster.set_providers_self _ j p', hcontinues.alive.trans halive,
      hcontinues.serves hserves, hdata.trans hcontinues.host.symm⟩
  · exact ⟨q, (Cluster.set_providers_ne _ p' hj).trans hq, halive, hserves, hdata⟩

theorem Registered.ordered_set {s : Cluster} (h : Registered s) {i : Nat} {p p' : Instance}
    (tree : Tree) (hp : s.providers i = some p) (hcontinues : p.Continues p') :
    ∀ j q, ({ s with tree }.set i p').providers j = some q →
      Ordered q.host [] (q.done ++ q.todo) := by
  apply Cluster.forall_set
  · rw [hcontinues.host, hcontinues.calls]
    exact h.ordered i p hp
  · intro j q _ hq
    exact h.ordered j q hq

theorem Registered.set {s : Cluster} (h : Registered s) {i : Nat} {p p' : Instance}
    (hp : s.providers i = some p) (hcontinues : p.Continues p') (hdone : p'.done = p.done) :
    Registered (s.set i p') where
  ordered := h.ordered_set s.tree hp hcontinues
  lasting := h.lasting
  owned path node j hnode howner :=
    Cluster.owner_set s.tree hp hcontinues (h.owned path node j hnode howner)
  services := by
    apply Cluster.forall_set
    · rw [hdone]
      exact h.services i p hp
    · intro j q _ hq
      exact h.services j q hq
  methods := by
    apply Cluster.forall_set
    · intro halive path hpassed
      rw [Instance.Passed, hdone] at hpassed
      exact h.methods i p hp (hcontinues.alive.symm.trans halive) path hpassed
    · intro j q _ hq
      exact h.methods j q hq

def nodeOf (session : Nat) (call : NodeCall) : Znode :=
  ⟨call.data, if call.state = .ephemeral then some session else none⟩

/-- A `createNode` call changes `tree` to `tree'`: the node is there already, or
it is made. -/
def Created (session : Nat) (call : NodeCall) (tree tree' : Tree) : Prop :=
  (tree' = tree ∧ ∃ node, tree call.path = some node) ∨
    (tree call.path = none ∧
      tree' = Function.update tree call.path (some (nodeOf session call)))

namespace Created

variable {session : Nat} {call : NodeCall} {tree tree' : Tree} {path : Bytes} {node : Znode}

theorem there (h : Created session call tree tree') : ∃ node, tree' call.path = some node := by
  rcases h with ⟨rfl, hnode⟩ | ⟨_, rfl⟩
  · exact hnode
  · exact ⟨_, Function.update_self ..⟩

theorem keeps (h : Created session call tree tree') (hnode : tree path = some node) :
    tree' path = some node := by
  rcases h with ⟨rfl, _⟩ | ⟨habsent, rfl⟩
  · exact hnode
  · rw [Function.update_of_ne]
    · exact hnode
    · rintro rfl
      rw [habsent] at hnode
      cases hnode

theorem old_or_new (h : Created session call tree tree') (hnode : tree' path = some node) :
    tree path = some node ∨ path = call.path ∧ node = nodeOf session call := by
  rcases h with ⟨rfl, _⟩ | ⟨_, rfl⟩
  · exact .inl hnode
  · by_cases hpath : path = call.path
    · subst hpath
      rw [Function.update_self] at hnode
      exact .inr ⟨rfl, (Option.some.inj hnode).symm⟩
    · rw [Function.update_of_ne hpath] at hnode
      exact .inl hnode

end Created

/-- The node at the path of a service has no owner: an owner would serve the
path as the one of a method. -/
theorem Registered.service_node {s : Cluster} (h : Registered s) {service : ServiceDescriptor}
    {node : Znode} (hnode : s.tree (servicePath service) = some node) : node.owner = none := by
  by_contra howner
  obtain ⟨j, hj⟩ := Option.ne_none_iff_exists'.mp howner
  obtain ⟨q, hq, _, hserves, _⟩ := h.owned _ node j hnode hj
  obtain ⟨service', method, hmethod⟩ := h.method_path hq hserves
  exact servicePath_ne_methodPath _ _ _ hmethod

theorem Registered.next {s : Cluster} (h : Registered s) {i : Nat} {p : Instance}
    {call : NodeCall} {todo : List NodeCall} (hp : s.providers i = some p)
    (htodo : p.todo = call :: todo) : call.ForService ∨ call.ForMethod p.host p.done := by
  have hordered := h.ordered i p hp
  rw [htodo] at hordered
  exact hordered.next

theorem Registered.advance {s : Cluster} (h : Registered s) {i : Nat} {p : Instance}
    {call : NodeCall} {todo : List NodeCall} {tree : Tree} (hp : s.providers i = some p)
    (htodo : p.todo = call :: todo) (halive : p.alive) (hcreated : Created i call s.tree tree) :
    Registered ({ s with tree }.set i p.advance) := by
  have hcontinues := Instance.advance_continues htodo
  have hdone : p.advance.done = p.done ++ [call] := by
    rw [Instance.advance_eq htodo]
  have hshape := h.next hp htodo
  refine ⟨h.ordered_set tree hp hcontinues, ?lasting, ?owned, ?services, ?methods⟩
  case lasting =>
    intro path node hnode howner
    rcases hcreated.old_or_new hnode with hnode | ⟨rfl, rfl⟩
    · exact h.lasting path node hnode howner
    · rcases hshape with ⟨_, hservice⟩ | ⟨hstate, _⟩
      · exact hservice
      · simp [nodeOf, hstate] at howner
  case owned =>
    intro path node j hnode howner
    rcases hcreated.old_or_new hnode with hnode | ⟨rfl, rfl⟩
    · exact Cluster.owner_set tree hp hcontinues (h.owned path node j hnode howner)
    · rcases hshape with ⟨hstate, _⟩ | ⟨hstate, hdata, _⟩
      · simp [nodeOf, hstate] at howner
      · simp only [nodeOf, hstate, if_pos, Option.some.injEq] at howner
        subst howner
        exact Cluster.owner_set tree hp hcontinues
          ⟨p, hp, halive, ⟨call, by simp [htodo], hstate, rfl⟩, hdata⟩
  case services =>
    apply Cluster.forall_set
    · intro c hc hstate
      rw [hdone, List.mem_append, List.mem_singleton] at hc
      rcases hc with hc | rfl
      · obtain ⟨node, hnode, howner⟩ := h.services i p hp c hc hstate
        exact ⟨node, hcreated.keeps hnode, howner⟩
      · obtain ⟨node, hnode⟩ := hcreated.there
        refine ⟨node, hnode, ?_⟩
        rcases hcreated.old_or_new hnode with hnode | ⟨_, rfl⟩
        · rcases hshape with ⟨_, service, hservice⟩ | ⟨hephemeral, _⟩
          · rw [hservice] at hnode
            exact h.service_node hnode
          · rw [hephemeral] at hstate
            cases hstate
        · simp [nodeOf, hstate]
    · intro j q _ hq c hc hstate
      obtain ⟨node, hnode, howner⟩ := h.services j q hq c hc hstate
      exact ⟨node, hcreated.keeps hnode, howner⟩
  case methods =>
    apply Cluster.forall_set
    · intro _ path hpassed
      obtain ⟨c, hc, hstate, rfl⟩ := hpassed
      rw [hdone, List.mem_append, List.mem_singleton] at hc
      rcases hc with hc | rfl
      · obtain ⟨node, hnode⟩ := h.methods i p hp halive c.path ⟨c, hc, hstate, rfl⟩
        exact ⟨node, hcreated.keeps hnode⟩
      · exact hcreated.there
    · intro j q _ hq halive' path hpassed
      obtain ⟨node, hnode⟩ := h.methods j q hq halive' path hpassed
      exact ⟨node, hcreated.keeps hnode⟩

theorem Registered.expire {s : Cluster} (h : Registered s) {i : Nat} {p : Instance}
    (hp : s.providers i = some p)
    (hunused : ∀ path node, s.tree path = some node → node.owner = some i →
      ∀ j q, s.providers j = some q → j ≠ i → q.alive → ¬ q.Passed path) :
    Registered ({ s with tree := Zookeeper.expire s.tree i }.set i { p with alive := false }) := by
  refine ⟨?ordered, ?lasting, ?owned, ?services, ?methods⟩
  case ordered =>
    apply Cluster.forall_set
    · exact h.ordered i p hp
    · intro j q _ hq
      exact h.ordered j q hq
  case lasting =>
    intro path node hnode howner
    exact h.lasting path node (expire_eq_some_iff.mp hnode).1 howner
  case owned =>
    intro path node j hnode howner
    obtain ⟨hnode, hother⟩ := expire_eq_some_iff.mp hnode
    obtain ⟨q, hq, hshape⟩ := h.owned path node j hnode howner
    have hj : j ≠ i := fun hj => hother (hj ▸ howner)
    exact ⟨q, (Cluster.set_providers_ne _ _ hj).trans hq, hshape⟩
  case services =>
    -- A lasting node outlives every session.
    have hkeeps : ∀ j q, s.providers j = some q → ∀ c ∈ q.done, c.state = .persistent →
        ∃ node, Zookeeper.expire s.tree i c.path = some node ∧ node.owner = none := by
      intro j q hq c hc hstate
      obtain ⟨node, hnode, howner⟩ := h.services j q hq c hc hstate
      exact ⟨node, expire_eq_some_iff.mpr ⟨hnode, by simp [howner]⟩, howner⟩
    apply Cluster.forall_set
    · exact hkeeps i p hp
    · intro j q _ hq
      exact hkeeps j q hq
  case methods =>
    apply Cluster.forall_set
    · intro halive
      cases halive
    · intro j q hj hq halive path hpassed
      obtain ⟨node, hnode⟩ := h.methods j q hq halive path hpassed
      refine ⟨node, expire_eq_some_iff.mpr ⟨hnode, fun howner => ?_⟩⟩
      exact hunused path node hnode howner j q hq hj halive hpassed

variable {α ρ μ κ : Type} {api : GPService α ρ μ κ}

theorem Registered.start {s : Cluster} (h : Registered s) {i : Nat} (hnew : s.providers i = none)
    (host : Bytes) (servicesMap : ServicesMap α) :
    Registered (s.set i ⟨host, [], nodeCalls api host servicesMap, false, true, true⟩) := by
  refine ⟨?ordered, h.lasting, ?owned, ?services, ?methods⟩
  case ordered =>
    apply Cluster.forall_set
    · exact ordered_nodeCalls api host servicesMap []
    · intro j q _ hq
      exact h.ordered j q hq
  case owned =>
    intro path node j hnode howner
    obtain ⟨q, hq, hshape⟩ := h.owned path node j hnode howner
    have hj : j ≠ i := by
      rintro rfl
      rw [hnew] at hq
      cases hq
    exact ⟨q, (Cluster.set_providers_ne _ _ hj).trans hq, hshape⟩
  case services =>
    apply Cluster.forall_set
    · intro call hcall
      cases hcall
    · intro j q _ hq
      exact h.services j q hq
  case methods =>
    apply Cluster.forall_set
    · intro _ path hpassed
      obtain ⟨call, hcall, _⟩ := hpassed
      cases hcall
    · intro j q _ hq
      exact h.methods j q hq

theorem Registered.parent {s : Cluster} (h : Registered s) {i : Nat} {p : Instance}
    (hp : s.providers i = some p) {call : NodeCall}
    (hshape : call.ForService ∨ call.ForMethod p.host p.done) :
    parentPath call.path = [] ∨
      ∃ node, s.tree (parentPath call.path) = some node ∧ node.owner = none := by
  rcases hshape with ⟨_, service, hpath⟩ | ⟨_, _, service, method, hpath, c, hc, hstate, hservice⟩
  · exact .inl (by rw [hpath, parentPath_servicePath])
  · right
    rw [hpath, parentPath_methodPath, ← hservice]
    exact h.services i p hp c hc hstate

/-! ## Runs -/

section

variable {s s' : Cluster} {i : Nat}

theorem clusterStep_start {host : Bytes} {servicesMap : ServicesMap α}
    (h : clusterStep api s (.start i host servicesMap) = some s') :
    s.providers i = none ∧
      s' = s.set i ⟨host, [], nodeCalls api host servicesMap, false, true, true⟩ := by
  cases hp : s.providers i with
  | some p => simp [clusterStep, hp] at h
  | none =>
      simp only [clusterStep, hp, Option.some.injEq] at h
      exact ⟨rfl, h.symm⟩

theorem clusterStep_exists (h : clusterStep api s (.exists i) = some s') :
    ∃ p call todo, s.providers i = some p ∧ p.todo = call :: todo ∧ p.alive ∧
      (createsAfterExists (zooExists s.tree (cStr call.path)) = true ∧
          s' = s.set i { p with absent := true } ∨
        createsAfterExists (zooExists s.tree (cStr call.path)) = false ∧
          s' = s.set i p.advance) := by
  cases hp : s.providers i with
  | none => simp [clusterStep, hp] at h
  | some p =>
      cases htodo : p.todo with
      | nil => simp [clusterStep, hp, htodo] at h
      | cons call todo =>
          simp only [clusterStep, hp, htodo, Option.ite_none_right_eq_some] at h
          obtain ⟨⟨_, halive, _⟩, h⟩ := h
          refine ⟨p, call, todo, rfl, htodo, halive, ?_⟩
          split at h
          · next hcreates => exact .inl ⟨hcreates, by rw [← Option.some.inj h, htodo]⟩
          · next hcreates =>
              exact .inr ⟨Bool.eq_false_iff.mpr hcreates, (Option.some.inj h).symm⟩

theorem clusterStep_create (h : clusterStep api s (.create i) = some s') :
    ∃ p call todo, s.providers i = some p ∧ p.todo = call :: todo ∧ p.alive ∧
      s' = { s with tree := (zooCreate s.tree i (cStr call.path) call.data call.state).2 }.set i
        p.advance := by
  cases hp : s.providers i with
  | none => simp [clusterStep, hp] at h
  | some p =>
      cases htodo : p.todo with
      | nil => simp [clusterStep, hp, htodo] at h
      | cons call todo =>
          simp only [clusterStep, hp, htodo, Option.ite_none_right_eq_some,
            Option.some.injEq] at h
          exact ⟨p, call, todo, rfl, htodo, h.1.2.1, h.2.symm⟩

theorem clusterStep_crash (h : clusterStep api s (.crash i) = some s') :
    ∃ p, s.providers i = some p ∧ s' = s.set i { p with running := false } := by
  cases hp : s.providers i with
  | none => simp [clusterStep, hp] at h
  | some p =>
      simp only [clusterStep, hp, Option.ite_none_right_eq_some, Option.some.injEq] at h
      exact ⟨p, rfl, h.2.symm⟩

theorem clusterStep_expire (h : clusterStep api s (.expire i) = some s') :
    ∃ p, s.providers i = some p ∧
      s' = { s with tree := Zookeeper.expire s.tree i }.set i { p with alive := false } := by
  cases hp : s.providers i with
  | none => simp [clusterStep, hp] at h
  | some p =>
      simp only [clusterStep, hp, Option.ite_none_right_eq_some, Option.some.injEq] at h
      exact ⟨p, rfl, h.2.symm⟩

end

theorem Registered.step {s s' : Cluster} {a : ClusterEvent α} (h : Registered s)
    (hok : ExpiresUnused s a) (hstep : clusterStep api s a = some s') : Registered s' := by
  cases a with
  | start session host servicesMap =>
      obtain ⟨hnew, rfl⟩ := clusterStep_start hstep
      exact h.start hnew host servicesMap
  | «exists» session =>
      obtain ⟨p, call, todo, hp, htodo, halive, hanswer⟩ := clusterStep_exists hstep
      obtain ⟨hpath, hroot⟩ := NodeCall.path_plain (h.next hp htodo)
      rw [hpath] at hanswer
      rcases hanswer with ⟨_, rfl⟩ | ⟨hfound, rfl⟩
      · exact h.set hp ⟨rfl, rfl, rfl⟩ rfl
      · have hnode := exists_node_of_zooExists hroot
          (by simpa [createsAfterExists] using hfound)
        exact h.advance hp htodo halive (.inl ⟨rfl, hnode⟩)
  | create session =>
      obtain ⟨p, call, todo, hp, htodo, halive, rfl⟩ := clusterStep_create hstep
      have hshape := h.next hp htodo
      obtain ⟨hpath, hroot⟩ := NodeCall.path_plain hshape
      rw [hpath]
      apply h.advance hp htodo halive
      rcases zooCreate_cases hroot (h.parent hp hshape) with ⟨hcreate, hnode⟩ | ⟨habsent, hcreate⟩
      · rw [hcreate]
        exact .inl ⟨rfl, Option.isSome_iff_exists.mp hnode⟩
      · rw [hcreate]
        exact .inr ⟨habsent, rfl⟩
  | crash session =>
      obtain ⟨p, hp, rfl⟩ := clusterStep_crash hstep
      exact h.set hp ⟨rfl, rfl, rfl⟩ rfl
  | expire session =>
      obtain ⟨p, hp, rfl⟩ := clusterStep_expire hstep
      exact h.expire hp (hok session rfl)

/-- In every run in which sessions expire only while no other provider relies on
their nodes, finished providers can be discovered. -/
theorem discoverable_of_reaches {s : Cluster}
    (h : Reaches (clusterStep api) ExpiresUnused .empty s) : Discoverable s :=
  (h.invariant .empty Registered.step).discoverable

def userServices : ServicesMap ServiceDescriptor := notifyService echoService [] userService

theorem discoverable_single_provider :
    ∃ s, run (clusterStep echoService) .empty
        [.start 0 [0x61] userServices, .exists 0, .create 0, .exists 0, .create 0, .exists 0,
          .create 0] = some s ∧ Discoverable s := by
  have hguard : ∀ a ∈ [ClusterEvent.start 0 [0x61] userServices, .exists 0, .create 0, .exists 0,
      .create 0, .exists 0, .create 0], ∀ s, ExpiresUnused s a := by
    intro a ha s session hexpire
    subst hexpire
    simp at ha
  have hrun : run (clusterStep echoService) .empty
      [.start 0 [0x61] userServices, .exists 0, .create 0, .exists 0, .create 0, .exists 0,
        .create 0] = some _ := rfl
  exact ⟨_, hrun, discoverable_of_reaches (.of_run hrun hguard)⟩

/-- Two providers register the same methods, the second finds the nodes of the
first, and the session of the first expires: the second is alive and has
finished, but the nodes are gone. -/
theorem not_discoverable_after_expiry :
    ∃ s, run (clusterStep echoService) .empty
        [.start 0 [0x61] userServices, .exists 0, .create 0, .exists 0, .create 0, .exists 0,
          .create 0, .start 1 [0x62] userServices, .exists 1, .exists 1, .exists 1, .expire 0] =
        some s ∧ ¬ Discoverable s := by
  refine ⟨_, rfl, fun h => ?_⟩
  have hserves : Instance.Serves ⟨[0x62], nodeCalls echoService [0x62] userServices, [], false,
      true, true⟩ [0x2f, 0x55, 0x2f, 0x4c] :=
    ⟨⟨[0x2f, 0x55, 0x2f, 0x4c], [0x62], .ephemeral⟩, by decide, rfl, rfl⟩
  obtain ⟨node, hnode, _⟩ := h 1 _ rfl rfl rfl [0x2f, 0x55, 0x2f, 0x4c] hserves
  cases hnode

end KitRpc.System

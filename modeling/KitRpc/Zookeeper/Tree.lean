import KitRpc.Cpp.Bytes
import Mathlib.Logic.Function.Basic
import Mathlib.Tactic.SplitIfs
/-!
# The registry

What ZooKeeper does with the requests of the framework. The service is not part
of the repository; this is its documented behaviour: a tree of nodes with data,
each of which either lasts or belongs to the session that created it.
-/

namespace KitRpc.Zookeeper

open KitRpc.Cpp

/-- The result codes the framework distinguishes, and those it may see; `zother`
is any other error. -/
inductive ZooCode
  | zok
  | znonode
  | znodeexists
  | znochildrenforephemerals
  | zconnectionloss
  | zsessionexpired
  | zother (code : Int)
  deriving DecidableEq, Repr

inductive ZooFlag
  | persistent
  | ephemeral
  deriving DecidableEq, Repr

/-- A node with its data; `owner` is the session of an ephemeral node. -/
structure Znode where
  data : Bytes
  owner : Option Nat
  deriving DecidableEq, Repr

abbrev Tree := Bytes → Option Znode

def Tree.empty : Tree := fun _ => none

def slash : UInt8 := 0x2f

/-- The path up to its last `/`; empty for a child of the root. -/
def parentPath (path : Bytes) : Bytes :=
  (path.reverse.dropWhile (· ≠ slash)).tail.reverse

def zooExists (tree : Tree) (path : Bytes) : ZooCode :=
  if path = [slash] ∨ (tree path).isSome then .zok else .znonode

/-- `zoo_create` by a session. The parent must be there and must not be
ephemeral, the node must not be there. -/
def zooCreate (tree : Tree) (session : Nat) (path data : Bytes) (flag : ZooFlag) :
    ZooCode × Tree :=
  let node : Znode := ⟨data, if flag = .ephemeral then some session else none⟩
  let parent := parentPath path
  if parent ≠ [] ∧ tree parent = none then (.znonode, tree)
  else if zooExists tree path = .zok then (.znodeexists, tree)
  else if parent ≠ [] ∧ ((tree parent).bind Znode.owner).isSome then
    (.znochildrenforephemerals, tree)
  else (.zok, Function.update tree path (some node))

def zooDelete (tree : Tree) (path : Bytes) : Tree := Function.update tree path none

/-- The end of a session removes exactly its ephemeral nodes. -/
def expire (tree : Tree) (session : Nat) : Tree := fun path =>
  (tree path).filter fun node => node.owner ≠ some session

theorem parentPath_append (path : Bytes) {name : Bytes} (h : slash ∉ name) :
    parentPath (path ++ slash :: name) = path := by
  have hname : ∀ c ∈ name.reverse, decide (c ≠ slash) = true := by
    intro c hc
    simp only [ne_eq, decide_not, Bool.not_eq_true', decide_eq_false_iff_not]
    rintro rfl
    exact h (List.mem_reverse.mp hc)
  rw [parentPath, List.reverse_append, List.reverse_cons, List.append_assoc,
    List.dropWhile_append_of_pos hname]
  simp

theorem exists_node_of_zooExists {tree : Tree} {path : Bytes} (hroot : path ≠ [slash])
    (h : zooExists tree path ≠ .znonode) : ∃ node, tree path = some node := by
  unfold zooExists at h
  split_ifs at h with hthere
  · exact Option.isSome_iff_exists.mp (hthere.resolve_left hroot)
  · exact absurd rfl h

theorem zooCreate_cases {tree : Tree} {session : Nat} {path data : Bytes} {flag : ZooFlag}
    (hroot : path ≠ [slash])
    (hparent : parentPath path = [] ∨
      ∃ node, tree (parentPath path) = some node ∧ node.owner = none) :
    (zooCreate tree session path data flag = (.znodeexists, tree) ∧ (tree path).isSome) ∨
    (tree path = none ∧ zooCreate tree session path data flag = (.zok, Function.update tree path
      (some ⟨data, if flag = .ephemeral then some session else none⟩))) := by
  have hthere : ¬ (parentPath path ≠ [] ∧ tree (parentPath path) = none) := by
    rintro ⟨hne, hnone⟩
    obtain ⟨node, hnode, _⟩ := hparent.resolve_left hne
    rw [hnode] at hnone
    cases hnone
  have hlasting : ¬ (parentPath path ≠ [] ∧
      ((tree (parentPath path)).bind Znode.owner).isSome) := by
    rintro ⟨hne, howner⟩
    obtain ⟨node, hnode, hnone⟩ := hparent.resolve_left hne
    simp [hnode, hnone] at howner
  unfold zooCreate
  dsimp only
  rw [if_neg hthere]
  cases hpath : tree path with
  | some node =>
      refine .inl ⟨?_, rfl⟩
      rw [if_pos (by simp [zooExists, hpath])]
  | none =>
      refine .inr ⟨rfl, ?_⟩
      rw [if_neg (by simp [zooExists, hpath, hroot]), if_neg hlasting]

theorem zooCreate_result (tree : Tree) (session : Nat) (path data : Bytes) (flag : ZooFlag) :
    ((zooCreate tree session path data flag).1 = .zok ∧ tree path = none ∧
      ∃ owner, (zooCreate tree session path data flag).2 =
        Function.update tree path (some ⟨data, owner⟩)) ∨
    ((zooCreate tree session path data flag).1 ≠ .zok ∧
      (zooCreate tree session path data flag).2 = tree) := by
  unfold zooCreate
  dsimp only
  split
  · exact .inr ⟨ZooCode.noConfusion, rfl⟩
  split
  · exact .inr ⟨ZooCode.noConfusion, rfl⟩
  split
  · exact .inr ⟨ZooCode.noConfusion, rfl⟩
  · next habsent _ =>
      have hnone : tree path = none := by
        by_contra hthere
        exact habsent (if_pos (.inr (Option.isSome_iff_ne_none.mpr hthere)))
      exact .inl ⟨rfl, hnone, _, rfl⟩

theorem zooCreate_old_or_new {tree : Tree} {session : Nat} {path data : Bytes} {flag : ZooFlag}
    {path' : Bytes} {node : Znode}
    (h : (zooCreate tree session path data flag).2 path' = some node) :
    tree path' = some node ∨
      path' = path ∧ node = ⟨data, if flag = .ephemeral then some session else none⟩ := by
  unfold zooCreate at h
  generalize (⟨data, if flag = .ephemeral then some session else none⟩ : Znode) = made at h ⊢
  dsimp only at h
  split_ifs at h
  · exact .inl h
  · exact .inl h
  · exact .inl h
  · dsimp only at h
    by_cases hpath : path' = path
    · subst hpath
      rw [Function.update_self, Option.some.injEq] at h
      exact .inr ⟨rfl, h.symm⟩
    · rw [Function.update_of_ne hpath] at h
      exact .inl h

theorem zooCreate_keeps {tree : Tree} {session : Nat} {path data : Bytes} {flag : ZooFlag}
    {path' : Bytes} {node : Znode} (h : tree path' = some node) :
    (zooCreate tree session path data flag).2 path' = some node := by
  rcases zooCreate_result tree session path data flag with ⟨_, habsent, _, hmade⟩ | ⟨_, hsame⟩
  · rw [hmade, Function.update_of_ne]
    · exact h
    · rintro rfl
      rw [habsent] at h
      cases h
  · rwa [hsame]

theorem expire_eq_some_iff {tree : Tree} {session : Nat} {path : Bytes} {node : Znode} :
    expire tree session path = some node ↔ tree path = some node ∧ node.owner ≠ some session := by
  simp [expire, Option.filter_eq_some_iff]

end KitRpc.Zookeeper

import KitRpc.Zookeeper.Tree
/-!
# The registry client

`ZkClient::createNode` and `ZkClient::getNodeData`. The two requests of
`createNode` are separate: other clients may act between them.
-/

namespace KitRpc.Zookeeper

open KitRpc.Cpp

def createsAfterExists (res : ZooCode) : Bool := res = .znonode

def resultAfterCreate (res : ZooCode) : Bool := res = .zok

/-- `ZkClient::createNode` with nobody else acting. -/
def createNode (tree : Tree) (session : Nat) (path data : Bytes) (state : ZooFlag) :
    Bool × Tree :=
  if createsAfterExists (zooExists tree (cStr path)) then
    let (res, tree) := zooCreate tree session (cStr path) data state
    (resultAfterCreate res, tree)
  else (true, tree)

def bufferSize : Nat := 128

/-- `ZkClient::getNodeData`. The buffer starts out zeroed and is returned as a C
string; `none` is a read past its end, which happens when no byte of it is NUL. -/
def getNodeData (tree : Tree) (path : Bytes) : Option Bytes :=
  if zooExists tree (cStr path) = .znonode then some []
  else
    match tree (cStr path) with
    | none => some []
    | some node =>
      let pathBuffer := zeroFill bufferSize node.data
      if (0 : UInt8) ∈ pathBuffer then some (cStr pathBuffer) else none

/-- Data up to its first NUL byte come back if they are shorter than the buffer;
longer data make the buffer be read past its end. -/
theorem getNodeData_of_node {tree : Tree} {path : Bytes} {node : Znode}
    (h : tree (cStr path) = some node) :
    getNodeData tree path =
      if (cStr node.data).length < bufferSize then some (cStr node.data) else none := by
  have hexists : zooExists tree (cStr path) ≠ .znonode := by
    rw [zooExists, if_pos (.inr (by rw [h]; rfl))]
    decide
  rw [getNodeData, if_neg hexists, h]
  dsimp only
  by_cases hfits : (cStr node.data).length < bufferSize
  · obtain ⟨rest, hbuffer⟩ := zeroFill_of_cStr_lt hfits
    rw [if_pos hfits, hbuffer, if_pos (by simp), cStr_append_of_notMem (notMem_cStr _)]
    simp [cStr]
  · rw [if_neg hfits, if_neg (notMem_zeroFill_of_le (Nat.le_of_not_lt hfits))]

/-- `getNodeData` whose two requests meet the registry at different times. -/
def getNodeDataAcross (atExists atGet : Tree) (path : Bytes) : Option Bytes :=
  if zooExists atExists (cStr path) = .znonode then some []
  else
    match atGet (cStr path) with
    | none => some []
    | some node =>
      let pathBuffer := zeroFill bufferSize node.data
      if (0 : UInt8) ∈ pathBuffer then some (cStr pathBuffer) else none

theorem getNodeDataAcross_eq (atExists atGet : Tree) (path : Bytes) :
    getNodeDataAcross atExists atGet path = some [] ∨
      getNodeDataAcross atExists atGet path = getNodeData atGet path := by
  unfold getNodeDataAcross
  split
  · exact .inl rfl
  · cases hnode : atGet (cStr path) with
    | none => exact .inl rfl
    | some node =>
        right
        have hexists : zooExists atGet (cStr path) ≠ .znonode := by
          rw [zooExists, if_pos (.inr (by rw [hnode]; rfl))]
          decide
        rw [getNodeData, if_neg hexists, hnode]

/-! ## What comes back -/

theorem node_of_createNode {tree tree' : Tree} {session : Nat} {path data : Bytes}
    {state : ZooFlag} (habsent : zooExists tree (cStr path) = .znonode)
    (h : createNode tree session path data state = (true, tree')) :
    ∃ node, tree' (cStr path) = some node ∧ node.data = data := by
  have hcreates : createsAfterExists (zooExists tree (cStr path)) = true := by
    rw [habsent]
    rfl
  rw [createNode, if_pos hcreates, Prod.mk.injEq, resultAfterCreate, decide_eq_true_eq] at h
  rcases zooCreate_result tree session (cStr path) data state with
    ⟨_, _, owner, hmade⟩ | ⟨hfailed, _⟩
  · refine ⟨⟨data, owner⟩, ?_, rfl⟩
    rw [← h.2, hmade, Function.update_self]
  · exact absurd h.1 hfailed

/-- Data come back from the node made for them exactly if they hold no NUL byte
and are shorter than the buffer; the buffer is read past its end exactly if their
first NUL byte, or their end, is not within it. -/
theorem getNodeData_createNode_iff {tree tree' tree'' : Tree} {session : Nat}
    {path data : Bytes} {state : ZooFlag} (habsent : zooExists tree (cStr path) = .znonode)
    (hcreated : createNode tree session path data state = (true, tree'))
    (hkept : tree'' (cStr path) = tree' (cStr path)) :
    (getNodeData tree'' path = some data ↔ (0 : UInt8) ∉ data ∧ data.length < bufferSize) ∧
      (getNodeData tree'' path = none ↔ bufferSize ≤ (cStr data).length) := by
  obtain ⟨node, hnode, hdata⟩ := node_of_createNode habsent hcreated
  rw [getNodeData_of_node (hkept.trans hnode), hdata, ← cStr_eq_self_iff]
  by_cases hfits : (cStr data).length < bufferSize
  · rw [if_pos hfits, Option.some.injEq]
    constructor
    · constructor
      · intro heq
        rw [heq] at hfits
        exact ⟨heq, hfits⟩
      · exact And.left
    · simp [Nat.not_le.mpr hfits]
  · rw [if_neg hfits]
    constructor
    · constructor
      · intro h
        cases h
      · rintro ⟨heq, hlt⟩
        rw [heq] at hfits
        exact absurd hlt hfits
    · simp [Nat.le_of_not_lt hfits]

theorem getNodeData_createNode_short :
    let tree' : Tree := (createNode .empty 0 [0x2f, 0x61] [0x78] .persistent).2
    (getNodeData tree' [0x2f, 0x61] = some [0x78] ↔
        (0 : UInt8) ∉ ([0x78] : Bytes) ∧ ([0x78] : Bytes).length < bufferSize) ∧
      (getNodeData tree' [0x2f, 0x61] = none ↔ bufferSize ≤ (cStr [0x78]).length) := by
  have habsent : zooExists .empty (cStr [0x2f, 0x61]) = .znonode := rfl
  have hcreated : createNode .empty 0 [0x2f, 0x61] [0x78] .persistent = (true, _) := rfl
  exact getNodeData_createNode_iff habsent hcreated rfl

/-- Of the data `x\0` only `x` comes back, and 128 bytes without a NUL make the
buffer be read past its end. -/
theorem getNodeData_ne_created :
    let created (data : Bytes) : Tree := (createNode .empty 0 [0x2f, 0x61] data .persistent).2
    getNodeData (created [0x78, 0]) [0x2f, 0x61] = some [0x78] ∧
      getNodeData (created (List.replicate 128 0x78)) [0x2f, 0x61] = none ∧
      ¬∀ (tree : Tree) (session : Nat) (path data : Bytes) (state : ZooFlag) (tree' : Tree),
        zooExists tree (cStr path) = .znonode →
        createNode tree session path data state = (true, tree') →
        getNodeData tree' path = some data := by
  have hnul (tree' : Tree)
      (h : createNode .empty 0 [0x2f, 0x61] [0x78, 0] .persistent = (true, tree')) :
      getNodeData tree' [0x2f, 0x61] = some [0x78] := by
    obtain ⟨node, hnode, hdata⟩ := node_of_createNode rfl h
    rw [getNodeData_of_node hnode, hdata]
    rfl
  have hlong (tree' : Tree)
      (h : createNode .empty 0 [0x2f, 0x61] (List.replicate 128 0x78) .persistent =
        (true, tree')) : getNodeData tree' [0x2f, 0x61] = none := by
    obtain ⟨node, hnode, hdata⟩ := node_of_createNode rfl h
    rw [getNodeData_of_node hnode, hdata, cStr_eq_self_iff.mpr (by simp)]
    simp [bufferSize]
  refine ⟨hnul _ rfl, hlong _ rfl, fun h => ?_⟩
  have hdata := h .empty 0 [0x2f, 0x61] [0x78, 0] .persistent _ rfl rfl
  rw [hnul _ rfl] at hdata
  exact absurd hdata (by decide)

end KitRpc.Zookeeper

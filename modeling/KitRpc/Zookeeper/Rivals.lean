import KitRpc.Foundation.Reaches
import KitRpc.Zookeeper.Client
/-!
# Creating a node among other clients

One call of `createNode` while other clients create and delete nodes. Each of its
two requests may be answered by an error, and a creation may then have been
carried out or not. The answer of `zoo_exists` is only compared with `ZNONODE`, so
an error counts as success, and so does a node with other data.
-/

namespace KitRpc.Zookeeper

open KitRpc.Foundation KitRpc.Cpp

inductive RivalRequest
  | create (session : Nat) (path data : Bytes) (flag : ZooFlag)
  | delete (path : Bytes)

def RivalRequest.apply (tree : Tree) : RivalRequest → Tree
  | create session path data flag => (zooCreate tree session path data flag).2
  | delete path => zooDelete tree path

/-- How far a call is: nothing asked, `zoo_exists` answered, `zoo_create`
answered, or over. -/
inductive CallStage
  | called
  | checked (res : ZooCode)
  | created (res : ZooCode)
  | returned (result : Bool)
  deriving DecidableEq, Repr

/-- A call, and what the registry was like at the moments since it began, and
since `zoo_exists` was answered. -/
structure CreateCall where
  tree : Tree
  stage : CallStage
  moments : List Tree
  afterCheck : List Tree

/-- `check` and `create` are the two requests of the call, where an `error` is what
they are answered instead of the service's result, and `ret` is its end. -/
inductive CallEvent
  | rival (request : RivalRequest)
  | check (error : Option ZooCode)
  | create (error : Option ZooCode) (carriedOut : Bool)
  | ret

namespace CreateCall

def start (tree : Tree) : CreateCall :=
  { tree, stage := .called, moments := [tree], afterCheck := [] }

def moveTo (s : CreateCall) (tree : Tree) (stage : CallStage) : CreateCall :=
  { tree
    stage
    moments := s.moments ++ [tree]
    afterCheck := if s.stage = .called then [] else s.afterCheck ++ [tree] }

section

variable (session : Nat) (path data : Bytes) (state : ZooFlag)

/-- One step of `createNode(path, data, state)` or of the others; `none` where
the event cannot happen. -/
def step (s : CreateCall) : CallEvent → Option CreateCall
  | .rival request =>
    match s.stage with
    | .returned _ => none
    | stage => some (s.moveTo (request.apply s.tree) stage)
  | .check error =>
    match s.stage with
    | .called =>
      some { s with
        stage := .checked (error.getD (zooExists s.tree (cStr path)))
        afterCheck := [s.tree] }
    | _ => none
  | .create error carriedOut =>
    match s.stage with
    | .checked res =>
      if createsAfterExists res then
        let (res, tree) := zooCreate s.tree session (cStr path) data state
        match error with
        | none => some (s.moveTo tree (.created res))
        | some error => some (s.moveTo (if carriedOut then tree else s.tree) (.created error))
      else none
    | _ => none
  | .ret =>
    match s.stage with
    | .checked res =>
      if createsAfterExists res then none else some { s with stage := .returned true }
    | .created res => some { s with stage := .returned (resultAfterCreate res) }
    | _ => none

/-- What the service may do: it deletes no node that has children, and an error
is none of the results it tells apart. -/
def Granted (s : CreateCall) : CallEvent → Prop
  | .rival (.delete path) => ∀ child, parentPath child = path → s.tree child = none
  | .check error => error ≠ some .zok ∧ error ≠ some .znonode
  | .create error _ => error ≠ some .zok
  | _ => True

/-- The node is there, with exactly the data of the call. -/
def HoldsData (tree : Tree) : Prop := (tree (cStr path)).map Znode.data = some data

/-- The call returned true only if the node had the data at some moment of it,
and false only if at no moment after the check. -/
def Reliable (s : CreateCall) : Prop :=
  (s.stage = .returned true → ∃ tree ∈ s.moments, HoldsData path data tree) ∧
    (s.stage = .returned false → ∀ tree ∈ s.afterCheck, ¬HoldsData path data tree)

/-- The node was not found, and no creation of it has been answered with success. -/
def Refused : CallStage → Prop
  | .checked res => res = .znonode
  | .created res => res ≠ .zok
  | _ => False

/-- By the check the node has had the data at some moment, or the check is answered
and there is no node. After a check that found none, and until a creation has been
answered with success, no other client leaves the node with the data; and a
creation that was carried out is not answered by an error. -/
def Undisturbed (s : CreateCall) : CallEvent → Prop
  | .check error =>
    (∃ tree ∈ s.moments, HoldsData path data tree) ∨
      error = none ∧ zooExists s.tree (cStr path) = .znonode
  | .rival request => Refused s.stage → ¬HoldsData path data (request.apply s.tree)
  | .create error carriedOut =>
    error ≠ none → carriedOut = true → (zooCreate s.tree session (cStr path) data state).1 ≠ .zok
  | .ret => True

def Accepted : CallStage → Prop
  | .checked res => res ≠ .znonode
  | .created res => res = .zok
  | _ => False

structure Sound (s : CreateCall) : Prop where
  current : s.stage ≠ .called → s.tree ∈ s.afterCheck
  refused : Refused s.stage → ∀ tree ∈ s.afterCheck, ¬HoldsData path data tree
  accepted : Accepted s.stage → ∃ tree ∈ s.moments, HoldsData path data tree
  reliable : Reliable path data s

/-! ## One step -/

variable {session path data state} {s s' : CreateCall} {a : CallEvent}

theorem holdsData_of_zooCreate {tree : Tree}
    (h : (zooCreate tree session (cStr path) data state).1 = .zok) :
    HoldsData path data (zooCreate tree session (cStr path) data state).2 := by
  rcases zooCreate_result tree session (cStr path) data state with
    ⟨_, _, owner, hmade⟩ | ⟨hfailed, _⟩
  · rw [hmade, HoldsData, Function.update_self]
    rfl
  · exact absurd h hfailed

theorem zooCreate_of_holdsData {tree : Tree} (h : HoldsData path data tree) :
    (zooCreate tree session (cStr path) data state).1 ≠ .zok := by
  rcases zooCreate_result tree session (cStr path) data state with
    ⟨_, habsent, _⟩ | ⟨hfailed, _⟩
  · rw [HoldsData, habsent] at h
    cases h
  · exact hfailed

theorem not_holdsData_of_znonode {tree : Tree} (h : zooExists tree (cStr path) = .znonode) :
    ¬HoldsData path data tree := by
  intro hholds
  rw [HoldsData, Option.map_eq_some_iff] at hholds
  obtain ⟨node, hnode, _⟩ := hholds
  rw [zooExists, if_pos (.inr (by rw [hnode]; rfl))] at h
  cases h

@[simp] theorem moveTo_stage (tree : Tree) (stage : CallStage) :
    (s.moveTo tree stage).stage = stage := rfl

theorem moveTo_afterCheck (hstage : s.stage ≠ .called) (tree : Tree) (stage : CallStage) :
    (s.moveTo tree stage).afterCheck = s.afterCheck ++ [tree] := if_neg hstage

theorem step_rival {request : RivalRequest}
    (h : step session path data state s (.rival request) = some s') :
    (∀ result, s.stage ≠ .returned result) ∧
      s' = s.moveTo (request.apply s.tree) s.stage := by
  unfold step at h
  dsimp only at h
  split at h
  case h_1 => cases h
  case h_2 hreturned => exact ⟨hreturned, (Option.some.inj h).symm⟩

theorem step_check {error : Option ZooCode}
    (h : step session path data state s (.check error) = some s') :
    s.stage = .called ∧ s' = { s with
      stage := .checked (error.getD (zooExists s.tree (cStr path)))
      afterCheck := [s.tree] } := by
  unfold step at h
  dsimp only at h
  split at h
  case h_1 hstage => exact ⟨hstage, (Option.some.inj h).symm⟩
  case h_2 => cases h

theorem step_create {error : Option ZooCode} {carriedOut : Bool}
    (h : step session path data state s (.create error carriedOut) = some s') :
    let made := zooCreate s.tree session (cStr path) data state
    s.stage = .checked .znonode ∧ s' = s.moveTo
      (if error = none ∨ carriedOut = true then made.2 else s.tree)
      (.created (error.getD made.1)) := by
  unfold step at h
  dsimp only at h
  split at h
  case h_2 => cases h
  case h_1 res hstage =>
    rw [Option.ite_none_right_eq_some, createsAfterExists, decide_eq_true_eq] at h
    obtain ⟨rfl, h⟩ := h
    refine ⟨hstage, ?_⟩
    cases error with
    | none => exact (Option.some.inj h).symm
    | some e => simpa using (Option.some.inj h).symm

theorem step_ret (h : step session path data state s .ret = some s') :
    ∃ result, s' = { s with stage := .returned result } ∧
      (result = true ∧ Accepted s.stage ∨ result = false ∧ Refused s.stage) := by
  unfold step at h
  dsimp only at h
  split at h
  case h_1 res hstage =>
    rw [Option.ite_none_left_eq_some, createsAfterExists, decide_eq_true_eq] at h
    refine ⟨true, (Option.some.inj h.2).symm, .inl ⟨rfl, ?_⟩⟩
    rw [hstage]
    exact h.1
  case h_2 res hstage =>
    refine ⟨resultAfterCreate res, (Option.some.inj h).symm, ?_⟩
    rw [hstage, resultAfterCreate]
    by_cases hzok : res = .zok
    · exact .inl ⟨decide_eq_true hzok, hzok⟩
    · exact .inr ⟨decide_eq_false hzok, hzok⟩
  case h_3 => cases h

theorem Reliable.of_not_returned (h : ∀ result, s.stage ≠ .returned result) :
    Reliable path data s :=
  ⟨fun htrue => absurd htrue (h true), fun hfalse => absurd hfalse (h false)⟩

namespace Sound

theorem start (tree : Tree) : Sound path data (start tree) where
  current h := absurd rfl h
  refused := False.elim
  accepted := False.elim
  reliable := .of_not_returned nofun

theorem rival {request : RivalRequest} (hsound : Sound path data s)
    (hok : Undisturbed session path data state s (.rival request))
    (h : step session path data state s (.rival request) = some s') : Sound path data s' := by
  obtain ⟨hreturned, rfl⟩ := step_rival h
  refine ⟨fun hstage => ?_, fun hrefused => ?_, fun haccepted => ?_, .of_not_returned hreturned⟩
  · rw [moveTo_afterCheck (s := s) hstage]
    exact List.mem_append_right _ List.mem_cons_self
  · have hstage : s.stage ≠ .called := by
      intro hcalled
      rw [moveTo_stage, hcalled] at hrefused
      exact hrefused
    rw [moveTo_afterCheck hstage]
    exact List.forall_mem_append.mpr
      ⟨hsound.refused hrefused, List.forall_mem_singleton.mpr (hok hrefused)⟩
  · obtain ⟨tree, htree, hholds⟩ := hsound.accepted haccepted
    exact ⟨tree, List.mem_append_left _ htree, hholds⟩

theorem check {error : Option ZooCode} (hgranted : Granted s (.check error))
    (hok : Undisturbed session path data state s (.check error))
    (h : step session path data state s (.check error) = some s') : Sound path data s' := by
  obtain ⟨hstage, rfl⟩ := step_check h
  refine ⟨fun _ => List.mem_singleton.mpr rfl, fun hrefused => ?_, fun haccepted => ?_,
    .of_not_returned nofun⟩
  · have habsent : ¬HoldsData path data s.tree := by
      cases error with
      | none => exact not_holdsData_of_znonode hrefused
      | some e => exact absurd (congrArg some hrefused) hgranted.2
    exact List.forall_mem_singleton.mpr habsent
  · rcases hok with hfound | ⟨rfl, habsent⟩
    · exact hfound
    · exact absurd habsent haccepted

theorem create {error : Option ZooCode} {carriedOut : Bool} (hsound : Sound path data s)
    (hgranted : Granted s (.create error carriedOut))
    (hok : Undisturbed session path data state s (.create error carriedOut))
    (h : step session path data state s (.create error carriedOut) = some s') :
    Sound path data s' := by
  obtain ⟨hstage, rfl⟩ := step_create h
  have hcalled : s.stage ≠ .called := by
    rw [hstage]
    nofun
  have habsent : ∀ tree ∈ s.afterCheck, ¬HoldsData path data tree := by
    apply hsound.refused
    rw [hstage]
    rfl
  refine ⟨fun _ => ?_, fun hrefused => ?_, fun haccepted => ?_, .of_not_returned nofun⟩
  · rw [moveTo_afterCheck hcalled]
    exact List.mem_append_right _ List.mem_cons_self
  · rw [moveTo_afterCheck hcalled]
    refine List.forall_mem_append.mpr ⟨habsent, List.forall_mem_singleton.mpr ?_⟩
    rcases zooCreate_result s.tree session (cStr path) data state with
      ⟨hzok, _⟩ | ⟨_, hsame⟩
    · -- The creation was carried out, so it was answered with success.
      rw [if_neg]
      · exact habsent _ (hsound.current hcalled)
      · rintro (rfl | hcarried)
        · exact hrefused hzok
        · cases error with
          | none => exact hrefused hzok
          | some e => exact hok (Option.some_ne_none e) hcarried hzok
    · rw [hsame, ite_self]
      exact habsent _ (hsound.current hcalled)
  · cases error with
    | some e => exact absurd (congrArg some haccepted) hgranted
    | none =>
        refine ⟨_, List.mem_append_right _ List.mem_cons_self, ?_⟩
        rw [if_pos (.inl rfl)]
        exact holdsData_of_zooCreate haccepted

theorem ret (hsound : Sound path data s) (h : step session path data state s .ret = some s') :
    Sound path data s' := by
  obtain ⟨result, rfl, ⟨rfl, haccepted⟩ | ⟨rfl, hrefused⟩⟩ := step_ret h
  · refine ⟨fun _ => hsound.current ?_, False.elim, False.elim,
      fun _ => hsound.accepted haccepted, nofun⟩
    intro hcalled
    rw [hcalled] at haccepted
    exact haccepted
  · refine ⟨fun _ => hsound.current ?_, False.elim, False.elim, nofun,
      fun _ => hsound.refused hrefused⟩
    intro hcalled
    rw [hcalled] at hrefused
    exact hrefused

theorem step (hsound : Sound path data s) (hgranted : Granted s a)
    (hok : Undisturbed session path data state s a)
    (h : step session path data state s a = some s') : Sound path data s' := by
  cases a with
  | rival request => exact hsound.rival hok h
  | check error => exact check hgranted hok h
  | create error carriedOut => exact hsound.create hgranted hok h
  | ret => exact hsound.ret h

end Sound

/-! ## A disturbed step -/

theorem unreliable_of_refused {tree : Tree} {res : ZooCode} (hstage : s.stage ≠ .called)
    (hres : res ≠ .zok) (hholds : HoldsData path data tree) :
    ∃ s', Reaches (step session path data state) Granted (s.moveTo tree (.created res)) s' ∧
      ¬Reliable path data s' := by
  have hret : step session path data state (s.moveTo tree (.created res)) .ret =
      some { s.moveTo tree (.created res) with stage := .returned false } := by
    simp [step, resultAfterCreate, hres]
  have hgranted : Granted (s.moveTo tree (.created res)) .ret := trivial
  refine ⟨_, .step .start hgranted hret, fun hreliable => ?_⟩
  have hmem : tree ∈ (s.moveTo tree (.created res)).afterCheck := by
    rw [moveTo_afterCheck hstage]
    exact List.mem_append_right _ List.mem_cons_self
  exact hreliable.2 rfl tree hmem hholds

/-- A call that is to create a node which has the data by now is refused. -/
theorem unreliable_of_checked (hstage : s.stage = .checked .znonode)
    (hholds : HoldsData path data s.tree) :
    ∃ s', Reaches (step session path data state) Granted s s' ∧ ¬Reliable path data s' := by
  have hrefused : (zooCreate s.tree session (cStr path) data state).1 ≠ .zok :=
    zooCreate_of_holdsData hholds
  have hsame : (zooCreate s.tree session (cStr path) data state).2 = s.tree := by
    rcases zooCreate_result s.tree session (cStr path) data state with ⟨hzok, _⟩ | ⟨_, hsame⟩
    · exact absurd hzok hrefused
    · exact hsame
  have hgranted : Granted s (.create none true) := nofun
  have hcreate : step session path data state s (.create none true) = some (s.moveTo
      (zooCreate s.tree session (cStr path) data state).2
      (.created (zooCreate s.tree session (cStr path) data state).1)) := by
    rw [step, hstage]
    rfl
  rw [hsame] at hcreate
  have hstage' : s.stage ≠ .called := by
    rw [hstage]
    nofun
  obtain ⟨s', hreaches, hunreliable⟩ := unreliable_of_refused hstage' hrefused hholds
  exact ⟨s', hreaches.head hgranted hcreate, hunreliable⟩

theorem unreliable_of_disturbed (hgranted : Granted s a)
    (hstep : step session path data state s a = some s')
    (hdisturbed : ¬Undisturbed session path data state s a) :
    ∃ s'', Reaches (step session path data state) Granted s' s'' ∧ ¬Reliable path data s'' := by
  cases a with
  | check error =>
      obtain ⟨_, rfl⟩ := step_check hstep
      obtain ⟨hnever, hmisled⟩ := not_or.mp hdisturbed
      have hres : error.getD (zooExists s.tree (cStr path)) ≠ .znonode := by
        intro hres
        cases error with
        | none => exact hmisled ⟨rfl, hres⟩
        | some e => exact hgranted.2 (congrArg some hres)
      refine ⟨{ s with stage := .returned true, afterCheck := [s.tree] },
        .step .start (a := .ret) trivial ?_, fun hreliable => hnever (hreliable.1 rfl)⟩
      simp [step, createsAfterExists, hres]
  | rival request =>
      obtain ⟨hrefused, hholds⟩ := Classical.not_imp.mp hdisturbed
      have hholds := not_not.mp hholds
      obtain ⟨_, rfl⟩ := step_rival hstep
      cases hstage : s.stage with
      | called =>
          rw [hstage] at hrefused
          exact hrefused.elim
      | returned =>
          rw [hstage] at hrefused
          exact hrefused.elim
      | checked res =>
          rw [hstage] at hrefused
          cases hrefused
          exact unreliable_of_checked rfl hholds
      | created res =>
          rw [hstage] at hrefused
          exact unreliable_of_refused (by rw [hstage]; nofun) hrefused hholds
  | create error carriedOut =>
      obtain ⟨herror, hlost⟩ := Classical.not_imp.mp hdisturbed
      obtain ⟨hcarried, hzok⟩ := Classical.not_imp.mp hlost
      obtain ⟨hstage, rfl⟩ := step_create hstep
      obtain ⟨e, rfl⟩ := Option.ne_none_iff_exists'.mp herror
      have hrefused : e ≠ .zok := fun heq => hgranted (congrArg some heq)
      rw [if_pos (.inr hcarried)]
      exact unreliable_of_refused (by rw [hstage]; nofun) hrefused
        (holdsData_of_zooCreate (not_not.mp hzok))
  | ret => exact absurd trivial hdisturbed

/-! ## Runs -/

/-- In runs of undisturbed steps the answer is reliable; after any disturbed step
of any run it may not be. -/
theorem reliable_of_reaches (session : Nat) (path data : Bytes) (state : ZooFlag)
    (tree : Tree) :
    (∀ s, Reaches (step session path data state)
        (fun s a => Granted s a ∧ Undisturbed session path data state s a) (start tree) s →
      Reliable path data s) ∧
    ∀ s a s', Reaches (step session path data state) Granted (start tree) s → Granted s a →
      step session path data state s a = some s' → ¬Undisturbed session path data state s a →
      ∃ s'', Reaches (step session path data state) Granted s' s'' ∧ ¬Reliable path data s'' := by
  constructor
  · intro s hreaches
    apply Sound.reliable
    apply hreaches.invariant (I := Sound path data) (.start tree)
    exact fun hsound hok hstep => hsound.step hok.1 hok.2 hstep
  · intro s a s' _ hgranted hstep hdisturbed
    exact unreliable_of_disturbed hgranted hstep hdisturbed

end

/-- Creating `/a` with the data `x`, while another client creates `/b`. -/
theorem reliable_created :
    let other : RivalRequest := .create 1 [0x2f, 0x62] [0x78] .persistent
    ∃ s, run (step 0 [0x2f, 0x61] [0x78] .persistent) (start .empty)
        [.check none, .rival other, .create none true, .ret] = some s ∧
      s.stage = .returned true ∧ Reliable [0x2f, 0x61] [0x78] s := by
  intro other
  obtain ⟨s, hrun, hstage⟩ : ∃ s, run (step 0 [0x2f, 0x61] [0x78] .persistent) (start .empty)
      [.check none, .rival other, .create none true, .ret] = some s ∧
        s.stage = .returned true := ⟨_, rfl, rfl⟩
  refine ⟨s, hrun, hstage, ?_⟩
  apply (reliable_of_reaches 0 [0x2f, 0x61] [0x78] .persistent .empty).1
  have hother : ¬HoldsData [0x2f, 0x61] [0x78] (other.apply .empty) := nofun
  apply Reaches.head (a := .check none) ⟨⟨nofun, nofun⟩, .inr ⟨rfl, rfl⟩⟩ rfl
  apply Reaches.head (a := .rival other) ⟨trivial, fun _ => hother⟩ rfl
  apply Reaches.head (a := .create none true) ⟨nofun, nofun⟩ rfl
  apply Reaches.head (a := .ret) ⟨trivial, trivial⟩ rfl
  cases hrun
  exact .start

/-- Creating `/a` with the data `x`: the answer is true where the node holds `y`,
and where the check is answered by an error and no node is there; it is false
where another client has created the node with `x` after the check. -/
theorem not_reliable_after_check :
    let step := step 0 [0x2f, 0x61] [0x78] .persistent
    let other : Tree := Function.update Tree.empty [0x2f, 0x61] (some ⟨[0x79], none⟩)
    (run step (start other) [.check none, .ret]).map stage = some (.returned true) ∧
      (run step (start .empty) [.check (some .zconnectionloss), .ret]).map stage =
        some (.returned true) ∧
      (run step (start .empty) [.check none, .rival (.create 1 [0x2f, 0x61] [0x78] .persistent),
        .create none true, .ret]).map stage = some (.returned false) ∧
      ¬∀ tree s, Reaches step Granted (start tree) s → Reliable [0x2f, 0x61] [0x78] s := by
  refine ⟨rfl, rfl, rfl, fun h => ?_⟩
  have hreaches : Reaches (step 0 [0x2f, 0x61] [0x78] .persistent) Granted (start .empty)
      { start Tree.empty with stage := .returned true, afterCheck := [Tree.empty] } := by
    have hrun : run (step 0 [0x2f, 0x61] [0x78] .persistent) (start .empty)
        [.check (some .zconnectionloss), .ret] = some _ := rfl
    apply Reaches.of_run hrun
    intro a ha s
    rcases List.mem_pair.mp ha with rfl | rfl
    · exact ⟨by decide, by decide⟩
    · trivial
  obtain ⟨tree, htree, hholds⟩ := (h _ _ hreaches).1 rfl
  rw [List.mem_singleton.mp htree] at hholds
  cases hholds

end CreateCall

end KitRpc.Zookeeper

import KitRpc.Foundation.Reaches
/-!
# Connecting to the registry

`ZkClient::start` waits on a semaphore of its own stack frame, which the session
watcher finds through the context of the handle. The watcher runs on a thread of
the ZooKeeper library from `zookeeper_init` on, and goes on when `start` has
returned.
-/

namespace KitRpc.Zookeeper

open KitRpc.Foundation

inductive StartStage
  | outside
  /-- `zookeeper_init` -/
  | opened
  /-- `sem_init` -/
  | semReady
  /-- `zoo_set_context`; now in `sem_timedwait`. -/
  | waiting
  | returned
  /-- Timed out, in `exit(-1)`. -/
  | exited
  deriving DecidableEq, Repr

/-- What `zoo_get_context` returns: null, or the address of the semaphore. -/
inductive WatcherContext
  | null
  | sem
  deriving DecidableEq, Repr

inductive WatcherStage
  | idle
  /-- Called for a connected session. -/
  | connected
  /-- `sem_post` on this context is next. -/
  | posting (context : WatcherContext)
  deriving DecidableEq, Repr

def WatcherStage.isPosting : WatcherStage → Bool
  | posting _ => true
  | _ => false

inductive SessionState
  | connected
  | connecting
  | expired
  deriving DecidableEq, Repr

/-- A `sem_post` of the watcher: its argument, and whether the semaphore was
initialised and its frame still there. -/
structure SemPost where
  target : WatcherContext
  live : Bool
  deriving DecidableEq, Repr

/-- `start`, the handle's context, the semaphore's value and the watcher.
`happened` says that a connected event came during `start`. -/
structure Startup where
  stage : StartStage
  context : WatcherContext
  count : Nat
  watcher : WatcherStage
  posts : List SemPost
  happened : Bool
  deriving DecidableEq, Repr

inductive StartEvent
  | zookeeperInit
  | semInit
  | setContext
  /-- `sem_timedwait` takes the semaphore and `start` returns. -/
  | wake
  | timeout
  /-- The library calls the watcher. -/
  | deliver (state : SessionState)
  | getContext
  | semPost
  deriving DecidableEq, Repr

namespace StartStage

def semLive : StartStage → Bool
  | semReady | waiting | exited => true
  | _ => false

def starting : StartStage → Bool
  | opened | semReady | waiting => true
  | _ => false

end StartStage

namespace Startup

def initial : Startup :=
  { stage := .outside
    context := .null
    count := 0
    watcher := .idle
    posts := []
    happened := false }

/-- One step; `none` where it cannot be taken. A post on anything but the live
semaphore is undefined; it is recorded and changes nothing. -/
def step (s : Startup) : StartEvent → Option Startup
  | .zookeeperInit =>
      if s.stage = .outside then some { s with stage := .opened } else none
  | .semInit => if s.stage = .opened then some { s with stage := .semReady, count := 0 } else none
  | .setContext =>
      if s.stage = .semReady then some { s with stage := .waiting, context := .sem } else none
  | .wake =>
      if s.stage = .waiting ∧ 0 < s.count then
        some { s with stage := .returned, count := s.count - 1 }
      else none
  | .timeout =>
      if s.stage = .waiting ∧ s.count = 0 then some { s with stage := .exited } else none
  | .deliver state =>
      if s.stage ≠ .outside ∧ s.watcher = .idle then
        if state = .connected then
          some { s with
            watcher := .connected
            happened := s.happened || s.stage.starting }
        else some s
      else none
  | .getContext =>
      if s.watcher = .connected then some { s with watcher := .posting s.context } else none
  | .semPost =>
      match s.watcher with
      | .posting target =>
        let post : SemPost := { target, live := s.stage.semLive }
        if target = .sem ∧ post.live then
          some { s with watcher := .idle, count := s.count + 1, posts := s.posts ++ [post] }
        else some { s with watcher := .idle, posts := s.posts ++ [post] }
      | _ => none

/-- All posts went to the semaphore while it was there, and a connected event
during `start` is not missed: the wait did not time out after it, and once the
watcher is done with it the wait can return. -/
structure PostsSafely (s : Startup) : Prop where
  posts : ∀ post ∈ s.posts, post.target = .sem ∧ post.live = true
  noTimeout : s.stage = .exited → s.happened = false
  wakes : s.stage = .waiting → s.watcher = .idle → s.happened = true → 0 < s.count

/-- The watcher asks for the context between `zoo_set_context` and the end of
`start`, which does not return while it posts nor time out while it runs. -/
def InTime (s : Startup) : StartEvent → Prop
  | .getContext => s.stage = .waiting ∨ s.stage = .exited
  | .wake => s.watcher.isPosting = false
  | .timeout => s.watcher = .idle
  | _ => True

instance (s : Startup) (e : StartEvent) : Decidable (s.InTime e) := by
  unfold InTime
  split <;> infer_instance

/-! ## The invariant -/

structure Inv (s : Startup) : Prop where
  context : s.stage = .waiting ∨ s.stage = .exited → s.context = .sem
  posting : ∀ target, s.watcher = .posting target →
    target = .sem ∧ (s.stage = .waiting ∨ s.stage = .exited)
  outside : s.stage = .outside → s.happened = false
  posts : ∀ post ∈ s.posts, post.target = .sem ∧ post.live = true
  noTimeout : s.stage = .exited → s.happened = false
  pending : s.stage.starting = true → s.watcher = .idle → s.happened = true →
    s.stage = .waiting ∧ 0 < s.count

variable {s s' : Startup}

theorem Inv.initial : Startup.initial.Inv := by
  constructor <;> simp [Startup.initial, StartStage.starting]

theorem Inv.advance (h : s.Inv) {stage : StartStage} {context : WatcherContext} {count : Nat}
    (hold : s.stage ≠ .waiting ∧ s.stage ≠ .exited ∧ s.stage ≠ .returned)
    (hcontext : stage = .waiting → context = .sem)
    (hnew : stage ≠ .outside ∧ stage ≠ .exited) :
    Inv { s with stage, context, count } where
  context hlate := hcontext (hlate.resolve_right hnew.2)
  posting target htarget := by
    obtain ⟨_, hlate⟩ := h.posting target htarget
    exact absurd hlate (not_or.mpr ⟨hold.1, hold.2.1⟩)
  outside hout := absurd hout hnew.1
  posts := h.posts
  noTimeout hexited := absurd hexited hnew.2
  pending _ hidle hhappened := by
    -- Before the wait an event keeps the watcher busy.
    exfalso
    cases hstage : s.stage with
    | outside => exact absurd (hhappened.symm.trans (h.outside hstage)) (by simp)
    | opened | semReady =>
        have hwaiting := (h.pending (by rw [hstage]; rfl) hidle hhappened).1
        exact hold.1 hwaiting
    | waiting => exact hold.1 hstage
    | returned => exact hold.2.2 hstage
    | exited => exact hold.2.1 hstage

theorem Inv.wake (h : s.Inv) (hok : s.watcher.isPosting = false) :
    Inv { s with stage := .returned, count := s.count - 1 } where
  context := by simp
  posting target htarget := by
    rw [show s.watcher = .posting target from htarget] at hok
    cases hok
  outside := by simp
  posts := h.posts
  noTimeout := by simp
  pending := by simp [StartStage.starting]

theorem Inv.timeout (h : s.Inv) (hwaiting : s.stage = .waiting) (hcount : s.count = 0)
    (hok : s.watcher = .idle) : Inv { s with stage := .exited } where
  context _ := h.context (.inl hwaiting)
  posting target htarget := by
    rw [hok] at htarget
    cases htarget
  outside := by simp
  posts := h.posts
  noTimeout _ := by
    by_contra hhappened
    rw [Bool.not_eq_false] at hhappened
    have hpending := (h.pending (by rw [hwaiting]; rfl) hok hhappened).2
    omega
  pending := by simp [StartStage.starting]

theorem Inv.deliver (h : s.Inv) (hout : s.stage ≠ .outside) :
    Inv { s with watcher := .connected, happened := s.happened || s.stage.starting } where
  context := h.context
  posting := by simp
  outside hstage := absurd hstage hout
  posts := h.posts
  noTimeout hexited := by
    rw [h.noTimeout hexited, show s.stage = .exited from hexited]
    rfl
  pending := by simp

theorem Inv.semPost (h : s.Inv) {target : WatcherContext} (hposting : s.watcher = .posting target)
    (hstep : s.step .semPost = some s') : s'.Inv := by
  obtain ⟨rfl, hlate⟩ := h.posting target hposting
  have hlive : s.stage.semLive = true := by
    rcases hlate with hstage | hstage <;> rw [hstage] <;> rfl
  simp only [step, hposting, hlive, and_self, if_true, Option.some.injEq] at hstep
  subst hstep
  refine ⟨h.context, by simp, h.outside, ?_, h.noTimeout, fun hstarting _ _ => ?_⟩
  · rw [List.forall_mem_append, List.forall_mem_singleton]
    exact ⟨h.posts, rfl, rfl⟩
  · refine ⟨hlate.resolve_right fun hexited => ?_, Nat.succ_pos _⟩
    rw [show s.stage = .exited from hexited] at hstarting
    cases hstarting

theorem Inv.step (h : s.Inv) {e : StartEvent} (hok : s.InTime e) (hstep : s.step e = some s') :
    s'.Inv := by
  cases e with
  | zookeeperInit =>
      simp only [Startup.step, Option.ite_none_right_eq_some, Option.some.injEq] at hstep
      obtain ⟨hstage, rfl⟩ := hstep
      exact h.advance (by simp [hstage]) (by simp) (by simp)
  | semInit =>
      simp only [Startup.step, Option.ite_none_right_eq_some, Option.some.injEq] at hstep
      obtain ⟨hstage, rfl⟩ := hstep
      exact h.advance (by simp [hstage]) (by simp) (by simp)
  | setContext =>
      simp only [Startup.step, Option.ite_none_right_eq_some, Option.some.injEq] at hstep
      obtain ⟨hstage, rfl⟩ := hstep
      exact h.advance (by simp [hstage]) (fun _ => rfl) (by simp)
  | wake =>
      simp only [Startup.step, Option.ite_none_right_eq_some, Option.some.injEq] at hstep
      obtain ⟨_, rfl⟩ := hstep
      exact h.wake hok
  | timeout =>
      simp only [Startup.step, Option.ite_none_right_eq_some, Option.some.injEq] at hstep
      obtain ⟨⟨hwaiting, hcount⟩, rfl⟩ := hstep
      exact h.timeout hwaiting hcount hok
  | deliver state =>
      simp only [Startup.step, Option.ite_none_right_eq_some] at hstep
      obtain ⟨⟨hout, _⟩, hstep⟩ := hstep
      split at hstep
      · cases hstep
        exact h.deliver hout
      · cases hstep
        exact h
  | getContext =>
      simp only [Startup.step, Option.ite_none_right_eq_some, Option.some.injEq] at hstep
      obtain ⟨_, rfl⟩ := hstep
      refine ⟨h.context, fun target htarget => ?_, h.outside, h.posts, h.noTimeout, by simp⟩
      cases htarget
      exact ⟨h.context hok, hok⟩
  | semPost =>
      cases hwatcher : s.watcher with
      | idle => simp [Startup.step, hwatcher] at hstep
      | connected => simp [Startup.step, hwatcher] at hstep
      | posting target => exact h.semPost hwatcher hstep

/-- In every run in which the watcher asks for the context while the semaphore is
there, and `start` neither returns while it posts nor times out while it runs,
posts are safe and no connected event is missed. -/
theorem postsSafely_of_reaches (h : Reaches Startup.step InTime .initial s) : s.PostsSafely := by
  have hinv : s.Inv := h.invariant .initial fun h => h.step
  refine ⟨hinv.posts, hinv.noTimeout, fun hwaiting hidle hhappened => ?_⟩
  exact (hinv.pending (by rw [hwaiting]; rfl) hidle hhappened).2

/-- The normal order: the session is connected while `start` waits. -/
def normalOrder : List StartEvent :=
  [.zookeeperInit, .semInit, .setContext, .deliver .connected, .getContext, .semPost, .wake]

theorem postsSafely_normalOrder :
    ∃ s, run Startup.step .initial normalOrder = some s ∧ s.stage = .returned ∧
      s.posts = [⟨.sem, true⟩] ∧ s.PostsSafely := by
  have hchecked : run (fun s e => if s.InTime e then Startup.step s e else none) .initial
      normalOrder = some _ := rfl
  exact ⟨_, rfl, rfl, rfl, postsSafely_of_reaches (.of_checked_run hchecked)⟩

/-- The session is connected before the context is set: the watcher posts
through a null pointer. It reconnects after `start` has returned: the watcher
posts on a semaphore that is gone. -/
theorem not_postsSafely_early_or_late :
    (∃ s, run Startup.step .initial
        [.zookeeperInit, .deliver .connected, .getContext, .semPost] = some s ∧
      ¬ s.PostsSafely) ∧
    ∃ s, run Startup.step .initial
        (normalOrder ++ [.deliver .connecting, .deliver .connected, .getContext, .semPost]) =
          some s ∧ ¬ s.PostsSafely := by
  refine ⟨⟨_, rfl, fun h => ?_⟩, ⟨_, rfl, fun h => ?_⟩⟩
  · have hpost := h.posts ⟨.null, false⟩ (by decide)
    cases hpost.1
  · have hpost := h.posts ⟨.sem, false⟩ (by decide)
    cases hpost.2

end Startup

end KitRpc.Zookeeper

import KitRpc.Foundation.Reaches
import KitRpc.Foundation.Threads
/-!
# The log queue

`LogQueue` of `log_queue.h`, one step for everything a thread does between two
points at which another thread may come in. `push` unlocks before it notifies;
the destructor sets `_isExit` without the mutex.
-/

namespace KitRpc.Log

open KitRpc.Foundation

inductive Stage (α : Type)
  | outside
  /-- Called `push`, waits for the mutex. -/
  | pushing (msg : α)
  /-- `_que.push(msg)` is next. -/
  | inserting (msg : α)
  /-- `lock.unlock()` is next. -/
  | inserted
  /-- `_notEmpty.notify_one()` is next. -/
  | notifying
  /-- In `pop` and waits for the mutex, on entry or after it was woken. -/
  | popping
  /-- The predicate of `wait` is next. -/
  | testing
  /-- The predicate was false. -/
  | sleepy
  | asleep
  /-- `if(_isExit)` is next. -/
  | branching
  /-- `_que.front()` and `_que.pop()` are next. -/
  | removing
  /-- Returns an element. -/
  | returning (msg : α)
  /-- Returns `T()`. -/
  | leaving
  deriving DecidableEq

namespace Stage

variable {α : Type}

def locks : Stage α → Bool
  | inserting _ | inserted | testing | sleepy | branching | removing | returning _ | leaving => true
  | _ => false

def inPush : Stage α → Bool
  | pushing _ | inserting _ | inserted | notifying => true
  | _ => false

/-- The thread has put its element in and not notified yet. -/
def owesNotify : Stage α → Bool
  | inserted | notifying => true
  | _ => false

def inPop : Stage α → Bool
  | popping | testing | sleepy | asleep | branching | removing | returning _ | leaving => true
  | _ => false

/-- The thread is in `pop` and has not found the queue ready. -/
def waits : Stage α → Bool
  | popping | testing | sleepy | asleep | branching => true
  | _ => false

def awake : Stage α → Bool
  | asleep => false
  | stage => stage.inPop

end Stage

/-- The members of a `LogQueue` and the threads that use it. `pushed` and
`popped` record the elements in the order in which they went in and out. -/
structure LogQueue (τ α : Type) where
  que : List α
  isExit : Bool
  /-- The destructor has called `notify_one`. -/
  exitNotified : Bool
  /-- The thread that holds `_mutex`. -/
  owner : Option τ
  stage : τ → Stage α
  pushed : List α
  popped : List α

inductive QueueEvent (τ α : Type)
  | callPush (t : τ) (msg : α)
  | lockPush (t : τ) (msg : α)
  | insert (t : τ) (msg : α)
  | unlockPush (t : τ)
  /-- `notify_one` wakes a thread, or none if none is asleep. -/
  | notify (t : τ) (woken : Option τ)
  | callPop (t : τ)
  | lockPop (t : τ)
  | test (t : τ)
  | sleep (t : τ)
  | wakeSpuriously (t : τ)
  | branch (t : τ)
  | remove (t : τ)
  | ret (t : τ) (msg : α)
  | retExit (t : τ)
  | setExit
  | notifyExit (woken : Option τ)

namespace LogQueue

variable {τ α : Type}

def empty : LogQueue τ α :=
  { que := []
    isExit := false
    exitNotified := false
    owner := none
    stage := fun _ => .outside
    pushed := []
    popped := [] }

section

variable [DecidableEq τ] [DecidableEq α]

def move (s : LogQueue τ α) (t : τ) (source target : Stage α) : Option (LogQueue τ α) :=
  if s.stage t = source then some { s with stage := Function.update s.stage t target } else none

def acquire (s : LogQueue τ α) (t : τ) (source target : Stage α) : Option (LogQueue τ α) :=
  if s.owner = none then move { s with owner := some t } t source target else none

def release (s : LogQueue τ α) (t : τ) (source target : Stage α) : Option (LogQueue τ α) :=
  move { s with owner := none } t source target

def notifyOne [Fintype τ] (s : LogQueue τ α) : Option τ → Option (LogQueue τ α)
  | some woken => s.move woken .asleep .popping
  | none => if ∀ t, s.stage t ≠ .asleep then some s else none

/-- One step; `none` where it cannot be taken. -/
def step [Fintype τ] (s : LogQueue τ α) : QueueEvent τ α → Option (LogQueue τ α)
  | .callPush t msg => s.move t .outside (.pushing msg)
  | .lockPush t msg => s.acquire t (.pushing msg) (.inserting msg)
  | .insert t msg =>
      move { s with que := s.que ++ [msg], pushed := s.pushed ++ [msg] } t (.inserting msg)
        .inserted
  | .unlockPush t => s.release t .inserted .notifying
  | .notify t woken => (s.notifyOne woken).bind fun s => s.move t .notifying .outside
  | .callPop t => s.move t .outside .popping
  | .lockPop t => s.acquire t .popping .testing
  | .test t => s.move t .testing (if !s.que.isEmpty || s.isExit then .branching else .sleepy)
  | .sleep t => s.release t .sleepy .asleep
  | .wakeSpuriously t => s.move t .asleep .popping
  | .branch t => s.move t .branching (if s.isExit then .leaving else .removing)
  | .remove t =>
      match s.que with
      | [] => none
      | msg :: que =>
          move { s with que, popped := s.popped ++ [msg] } t .removing (.returning msg)
  | .ret t msg => s.release t (.returning msg) .outside
  | .retExit t => s.release t .leaving .outside
  | .setExit => if s.isExit then none else some { s with isExit := true }
  | .notifyExit woken =>
      if s.isExit ∧ ¬ s.exitNotified then
        (s.notifyOne woken).map fun s => { s with exitNotified := true }
      else none

end

variable {s s' : LogQueue τ α} {t : τ} {source target : Stage α}

theorem move_eq_some [DecidableEq τ] [DecidableEq α] :
    s.move t source target = some s' ↔
      s.stage t = source ∧ s' = { s with stage := Function.update s.stage t target } := by
  rw [move, Option.ite_none_right_eq_some, Option.some.injEq, eq_comm (b := s')]

theorem acquire_eq_some [DecidableEq τ] [DecidableEq α] :
    s.acquire t source target = some s' ↔
      s.owner = none ∧ s.stage t = source ∧
        s' = { s with owner := some t, stage := Function.update s.stage t target } := by
  rw [acquire, Option.ite_none_right_eq_some, move_eq_some]

theorem release_eq_some [DecidableEq τ] [DecidableEq α] :
    s.release t source target = some s' ↔
      s.stage t = source ∧
        s' = { s with owner := none, stage := Function.update s.stage t target } := by
  rw [release, move_eq_some]

theorem notifyOne_cases [DecidableEq τ] [DecidableEq α] [Fintype τ] {woken : Option τ}
    (h : s.notifyOne woken = some s') :
    (∃ u, woken = some u ∧ s.move u .asleep .popping = some s') ∨
      (woken = none ∧ s' = s ∧ ∀ u, s.stage u ≠ .asleep) := by
  cases woken with
  | some u => exact .inl ⟨u, rfl, h⟩
  | none =>
      rw [notifyOne, Option.ite_none_right_eq_some, Option.some.injEq] at h
      exact .inr ⟨rfl, h.2.symm, h.1⟩

theorem remove_eq_some [DecidableEq τ] [DecidableEq α] [Fintype τ] :
    s.step (.remove t) = some s' ↔
      ∃ msg que, s.que = msg :: que ∧ s.stage t = .removing ∧
        s' = { s with
          que
          popped := s.popped ++ [msg]
          stage := Function.update s.stage t (.returning msg) } := by
  unfold step
  cases s.que with
  | nil => simp
  | cons msg que => simp [move_eq_some]

theorem setExit_eq_some [DecidableEq τ] [DecidableEq α] [Fintype τ] :
    s.step .setExit = some s' ↔ s.isExit = false ∧ s' = { s with isExit := true } := by
  simp only [step, Option.ite_none_left_eq_some, Bool.not_eq_true, Option.some.injEq,
    eq_comm (b := s')]

theorem notifyExit_eq_some [DecidableEq τ] [DecidableEq α] [Fintype τ] {woken : Option τ} :
    s.step (.notifyExit woken) = some s' ↔
      s.isExit = true ∧ s.exitNotified = false ∧
        ∃ mid, s.notifyOne woken = some mid ∧ s' = { mid with exitNotified := true } := by
  simp only [step, Option.ite_none_right_eq_some, Option.map_eq_some_iff, Bool.not_eq_true,
    and_assoc, eq_comm (b := s')]

end LogQueue

/-! ## What always holds -/

/-- What is known of the queue, the elements taken out and the exit flag at a
stage. -/
def Stage.Fits {α : Type} (que popped : List α) (isExit : Bool) : Stage α → Prop
  | .sleepy => que = []
  | .branching => que ≠ [] ∨ isExit
  | .removing => que ≠ []
  | .returning msg => popped.getLast? = some msg
  | _ => True

def Stage.Owns {τ α : Type} (owner : Option τ) (t : τ) (stage : Stage α) : Prop :=
  stage.locks = true ↔ owner = some t

/-- The mutex is held by the thread that is at a locked stage, and elements go
out in the order in which they went in. -/
structure LogQueue.Sound {τ α : Type} (s : LogQueue τ α) : Prop where
  lock : ∀ t, (s.stage t).Owns s.owner t
  fits : ∀ t, (s.stage t).Fits s.que s.popped s.isExit
  fifo : s.popped ++ s.que = s.pushed

theorem Stage.fits_of_not_locks {α : Type} {stage : Stage α} (h : stage.locks = false)
    (que popped : List α) (isExit : Bool) : stage.Fits que popped isExit := by
  cases stage with
  | sleepy | branching | removing | returning => cases h
  | _ => trivial

theorem Stage.Fits.exit {α : Type} {stage : Stage α} {que popped : List α}
    {isExit : Bool} (h : stage.Fits que popped isExit) : stage.Fits que popped true := by
  cases stage with
  | branching => exact .inr rfl
  | _ => exact h

namespace LogQueue.Sound

variable {τ α : Type} {s s' : LogQueue τ α} {t : τ} {source target : Stage α}

theorem empty : (LogQueue.empty : LogQueue τ α).Sound where
  lock _ := by simp [LogQueue.empty, Stage.Owns, Stage.locks]
  fits _ := trivial
  fifo := rfl

theorem others (h : s.Sound) (ht : (s.stage t).locks = true) {u : τ} (hu : u ≠ t) :
    (s.stage u).locks = false := by
  have howner : s.owner = some t := (h.lock t).mp ht
  rw [Bool.eq_false_iff]
  intro hlocks
  exact hu (Option.some.inj (((h.lock u).mp hlocks).symm.trans howner))

variable [DecidableEq τ]

theorem of_update (hstage : s'.stage = Function.update s.stage t target)
    (hself : target.Owns s'.owner t) (hlock : ∀ u, u ≠ t → (s.stage u).Owns s'.owner u)
    (hfits : target.Fits s'.que s'.popped s'.isExit)
    (hrest : ∀ u, u ≠ t → (s.stage u).Fits s'.que s'.popped s'.isExit)
    (hfifo : s'.popped ++ s'.que = s'.pushed) : s'.Sound where
  lock := by
    rw [hstage]
    exact forall_update (P := Stage.Owns s'.owner) hself hlock
  fits := by
    rw [hstage]
    exact forall_update (P := fun _ => Stage.Fits s'.que s'.popped s'.isExit) hfits hrest
  fifo := hfifo

variable [DecidableEq α]

theorem move (h : s.Sound) (hstep : s.move t source target = some s')
    (hlocks : target.locks = source.locks) (hfits : target.Fits s.que s.popped s.isExit) :
    s'.Sound := by
  obtain ⟨rfl, rfl⟩ := LogQueue.move_eq_some.mp hstep
  have hself : target.Owns s.owner t := by
    rw [Stage.Owns, hlocks]
    exact h.lock t
  exact of_update rfl hself (fun u _ => h.lock u) hfits (fun u _ => h.fits u) h.fifo

theorem edit (h : s.Sound) {que pushed popped : List α}
    (hstep : LogQueue.move { s with que, pushed, popped } t source target = some s')
    (hsource : source.locks = true) (htarget : target.locks = true)
    (hfits : target.Fits que popped s.isExit) (hfifo : popped ++ que = pushed) : s'.Sound := by
  obtain ⟨hstage, rfl⟩ := LogQueue.move_eq_some.mp hstep
  have ht : (s.stage t).locks = true := by
    rw [show s.stage t = source from hstage, hsource]
  have hself : target.Owns s.owner t := iff_of_true htarget ((h.lock t).mp ht)
  have hrest : ∀ u, u ≠ t → (s.stage u).Fits que popped s.isExit := fun u hu =>
    Stage.fits_of_not_locks (h.others ht hu) _ _ _
  exact of_update rfl hself (fun u _ => h.lock u) hfits hrest hfifo

theorem acquire (h : s.Sound) (hstep : s.acquire t source target = some s')
    (htarget : target.locks = true) (hfits : target.Fits s.que s.popped s.isExit) : s'.Sound := by
  obtain ⟨hfree, rfl, rfl⟩ := LogQueue.acquire_eq_some.mp hstep
  have hrest : ∀ u, u ≠ t → (s.stage u).Owns (some t) u := by
    intro u hu
    have hlock := h.lock u
    rw [Stage.Owns, hfree] at hlock
    exact hlock.trans (iff_of_false (by simp) (by simpa using Ne.symm hu))
  exact of_update rfl (iff_of_true htarget rfl) hrest hfits (fun u _ => h.fits u) h.fifo

theorem release (h : s.Sound) (hstep : s.release t source target = some s')
    (hsource : source.locks = true) (htarget : target.locks = false) : s'.Sound := by
  obtain ⟨hstage, rfl⟩ := LogQueue.release_eq_some.mp hstep
  have ht : (s.stage t).locks = true := by rw [hstage, hsource]
  have hself : target.Owns none t := iff_of_false (by simp [htarget]) (by simp)
  have hrest : ∀ u, u ≠ t → (s.stage u).Owns none u := fun u hu =>
    iff_of_false (by simp [h.others ht hu]) (by simp)
  exact of_update rfl hself hrest (Stage.fits_of_not_locks htarget _ _ _) (fun u _ => h.fits u)
    h.fifo

theorem notifyOne [Fintype τ] (h : s.Sound) {woken : Option τ}
    (hstep : s.notifyOne woken = some s') : s'.Sound := by
  rcases LogQueue.notifyOne_cases hstep with ⟨u, rfl, hmove⟩ | ⟨_, rfl, _⟩
  · exact h.move hmove rfl trivial
  · exact h

theorem step [Fintype τ] (h : s.Sound) {e : QueueEvent τ α} (hstep : s.step e = some s') :
    s'.Sound := by
  cases e with
  | callPush t msg => exact h.move hstep rfl trivial
  | lockPush t msg => exact h.acquire hstep rfl trivial
  | insert t msg =>
      exact h.edit hstep rfl rfl trivial (by rw [← List.append_assoc, h.fifo])
  | unlockPush t => exact h.release hstep rfl rfl
  | notify t woken =>
      obtain ⟨mid, hnotify, hmove⟩ := Option.bind_eq_some_iff.mp hstep
      exact (h.notifyOne hnotify).move hmove rfl trivial
  | callPop t => exact h.move hstep rfl trivial
  | lockPop t => exact h.acquire hstep rfl trivial
  | test t =>
      cases hpred : !s.que.isEmpty || s.isExit with
      | true =>
          simp only [LogQueue.step, hpred, if_true] at hstep
          exact h.move hstep rfl (by simpa [Stage.Fits] using hpred)
      | false =>
          simp only [LogQueue.step, hpred] at hstep
          exact h.move hstep rfl (by simpa [Stage.Fits] using And.left (by simpa using hpred))
  | sleep t => exact h.release hstep rfl rfl
  | wakeSpuriously t => exact h.move hstep rfl trivial
  | branch t =>
      cases hexit : s.isExit with
      | true =>
          simp only [LogQueue.step, hexit, if_true] at hstep
          exact h.move hstep rfl trivial
      | false =>
          simp only [LogQueue.step, hexit] at hstep
          have hstage := (LogQueue.move_eq_some.mp hstep).1
          have hfits := h.fits t
          rw [hstage, hexit] at hfits
          exact h.move hstep rfl (by simpa [Stage.Fits] using hfits)
  | remove t =>
      obtain ⟨msg, que, hque, hstage, rfl⟩ := LogQueue.remove_eq_some.mp hstep
      have hfifo : (s.popped ++ [msg]) ++ que = s.pushed := by
        rw [← h.fifo, hque, List.append_assoc, List.singleton_append]
      have hmove : LogQueue.move { s with que, popped := s.popped ++ [msg] } t .removing
          (.returning msg) = some _ := LogQueue.move_eq_some.mpr ⟨hstage, rfl⟩
      exact h.edit hmove rfl rfl List.getLast?_concat hfifo
  | ret t msg => exact h.release hstep rfl rfl
  | retExit t => exact h.release hstep rfl rfl
  | setExit =>
      obtain ⟨_, rfl⟩ := LogQueue.setExit_eq_some.mp hstep
      exact ⟨h.lock, fun u => (h.fits u).exit, h.fifo⟩
  | notifyExit woken =>
      obtain ⟨_, _, mid, hnotify, rfl⟩ := LogQueue.notifyExit_eq_some.mp hstep
      have hmid := h.notifyOne hnotify
      exact ⟨hmid.lock, hmid.fits, hmid.fifo⟩

end LogQueue.Sound

end KitRpc.Log

import KitRpc.Log.LogQueue
/-!
# The log queue as a channel

As long as the queue is not destroyed it is a channel that keeps the order of
its elements. The notification of a `push` comes after the mutex is released, so
elements may lie in the queue while consumers sleep; but for each of them some
thread is about to notify or to look at the queue.
-/

namespace KitRpc.Log

open KitRpc.Foundation

/-- The thread notifies, tests the queue or takes an element before it sleeps or
leaves. -/
def Stage.attends {α : Type} : Stage α → Bool
  | inserted | notifying | popping | testing | sleepy | branching | removing => true
  | _ => false

def Stage.attention {α : Type} (stage : Stage α) : Nat := if stage.attends then 1 else 0

namespace LogQueue

variable {τ α : Type}

/-- How many threads attend to the queue. -/
def attention [Fintype τ] (s : LogQueue τ α) : Nat := totalWeight Stage.attention s.stage

def SomeAsleep (s : LogQueue τ α) : Prop := ∃ t, s.stage t = .asleep

/-- While someone sleeps, each element has a thread that attends to it. -/
structure Attended [Fintype τ] (s : LogQueue τ α) : Prop where
  sound : s.Sound
  stays : s.isExit = false
  bound : s.SomeAsleep → s.que.length ≤ s.attention

/-- The steps of `push` and `pop`, without those of the destructor. -/
def WithoutDestruction (_ : LogQueue τ α) : QueueEvent τ α → Prop
  | .setExit | .notifyExit _ => False
  | _ => True

/-! ## One thread moves -/

section

variable [DecidableEq τ] [Fintype τ] {s s' : LogQueue τ α} {t : τ} {source target : Stage α}

theorem attention_update (hstage : s.stage t = source)
    (hstage' : s'.stage = Function.update s.stage t target) :
    s'.attention + source.attention = s.attention + target.attention := by
  have hweight := totalWeight_update Stage.attention s.stage t target
  rwa [hstage, ← hstage'] at hweight

omit [Fintype τ] in
theorem SomeAsleep.of_update (htarget : target ≠ .asleep)
    (hstage' : s'.stage = Function.update s.stage t target) (h : s'.SomeAsleep) :
    s.SomeAsleep := by
  obtain ⟨u, hu⟩ := h
  rw [hstage'] at hu
  by_cases hut : u = t
  · rw [hut, Function.update_self] at hu
    exact absurd hu htarget
  · rw [Function.update_of_ne hut] at hu
    exact ⟨u, hu⟩

namespace Attended

omit [DecidableEq τ] in
theorem empty : (LogQueue.empty : LogQueue τ α).Attended where
  sound := .empty
  stays := rfl
  bound _ := Nat.zero_le _

/-- A step of one thread that does not fall asleep, and attends no less than
before apart from what it takes out of the queue. -/
theorem update (h : s.Attended) (hsound : s'.Sound) (hexit : s'.isExit = s.isExit)
    (hstage : s.stage t = source) (hstage' : s'.stage = Function.update s.stage t target)
    (htarget : target ≠ .asleep)
    (hque : s'.que.length + source.attention ≤ s.que.length + target.attention) :
    s'.Attended := by
  refine ⟨hsound, hexit.trans h.stays, fun hasleep => ?_⟩
  have hbound := h.bound (hasleep.of_update htarget hstage')
  have hweight := attention_update hstage hstage'
  omega

end Attended

end

namespace Attended

variable [DecidableEq τ] [DecidableEq α] [Fintype τ] {s s' : LogQueue τ α} {t : τ}
  {source target : Stage α}

theorem move (h : s.Attended) (hsound : s'.Sound) (hstep : s.move t source target = some s')
    (htarget : target ≠ .asleep) (hweight : source.attention ≤ target.attention) :
    s'.Attended := by
  obtain ⟨hstage, rfl⟩ := move_eq_some.mp hstep
  exact h.update hsound rfl hstage rfl htarget (Nat.add_le_add_left hweight _)

theorem notify (h : s.Attended) (hsound : s'.Sound) {woken : Option τ}
    (hstep : s.step (.notify t woken) = some s') : s'.Attended := by
  obtain ⟨mid, hnotify, hmove⟩ := Option.bind_eq_some_iff.mp hstep
  obtain ⟨hstage, hs'⟩ := move_eq_some.mp hmove
  rcases notifyOne_cases hnotify with ⟨u, rfl, hwake⟩ | ⟨_, rfl, hnobody⟩
  · obtain ⟨hasleep, hmid⟩ := move_eq_some.mp hwake
    have hwoken := attention_update hasleep (congrArg LogQueue.stage hmid)
    have hnotified := attention_update hstage (congrArg LogQueue.stage hs')
    change mid.attention + 0 = s.attention + 1 at hwoken
    change s'.attention + 1 = mid.attention + 0 at hnotified
    have hque : s'.que = s.que := by rw [hs', hmid]
    have hexit : s'.isExit = s.isExit := by rw [hs', hmid]
    refine ⟨hsound, hexit.trans h.stays, fun _ => ?_⟩
    have hbound := h.bound ⟨u, hasleep⟩
    rw [hque]
    omega
  · subst hs'
    refine ⟨hsound, h.stays, fun hasleep => ?_⟩
    obtain ⟨u, hu⟩ := SomeAsleep.of_update (by simp) rfl hasleep
    exact absurd hu (hnobody u)

theorem step (h : s.Attended) {e : QueueEvent τ α} (hok : WithoutDestruction s e)
    (hstep : s.step e = some s') : s'.Attended := by
  have hsound := h.sound.step hstep
  cases e with
  | callPush t msg => exact h.move hsound hstep (by simp) (Nat.le_refl _)
  | lockPush t msg =>
      obtain ⟨_, hstage, rfl⟩ := acquire_eq_some.mp hstep
      exact h.update hsound rfl hstage rfl (by simp) (Nat.le_refl _)
  | insert t msg =>
      obtain ⟨hstage, rfl⟩ := move_eq_some.mp hstep
      refine h.update hsound rfl hstage rfl (by simp) ?_
      rw [List.length_append]
      exact Nat.le_refl _
  | unlockPush t =>
      obtain ⟨hstage, rfl⟩ := release_eq_some.mp hstep
      exact h.update hsound rfl hstage rfl (by simp) (Nat.le_refl _)
  | notify t woken => exact h.notify hsound hstep
  | callPop t => exact h.move hsound hstep (by simp) (Nat.zero_le _)
  | lockPop t =>
      obtain ⟨_, hstage, rfl⟩ := acquire_eq_some.mp hstep
      exact h.update hsound rfl hstage rfl (by simp) (Nat.le_refl _)
  | test t =>
      rw [LogQueue.step] at hstep
      split at hstep
      · exact h.move hsound hstep (by simp) (Nat.le_refl _)
      · exact h.move hsound hstep (by simp) (Nat.le_refl _)
  | sleep t =>
      -- The predicate was false under the mutex, so the queue is empty.
      obtain ⟨hstage, rfl⟩ := release_eq_some.mp hstep
      have hnil := h.sound.fits t
      rw [hstage] at hnil
      refine ⟨hsound, h.stays, fun _ => ?_⟩
      rw [show s.que = [] from hnil]
      exact Nat.zero_le _
  | wakeSpuriously t => exact h.move hsound hstep (by simp) (Nat.zero_le _)
  | branch t =>
      rw [LogQueue.step, h.stays] at hstep
      exact h.move hsound hstep (by simp) (Nat.le_refl _)
  | remove t =>
      obtain ⟨msg, que, hque, hstage, rfl⟩ := remove_eq_some.mp hstep
      refine h.update hsound rfl hstage rfl (by simp) ?_
      rw [hque]
      exact Nat.le_refl _
  | ret t msg =>
      obtain ⟨hstage, rfl⟩ := release_eq_some.mp hstep
      exact h.update hsound rfl hstage rfl (by simp) (Nat.le_refl _)
  | retExit t =>
      obtain ⟨hstage, rfl⟩ := release_eq_some.mp hstep
      exact h.update hsound rfl hstage rfl (by simp) (Nat.le_refl _)
  | setExit => exact hok.elim
  | notifyExit woken => exact hok.elim

end Attended

/-! ## Every run -/

def notificationsOwed [Fintype τ] (s : LogQueue τ α) : Nat :=
  (Finset.univ.filter fun t => (s.stage t).owesNotify).card

def consumersAwake [Fintype τ] (s : LogQueue τ α) : Nat :=
  (Finset.univ.filter fun t => (s.stage t).awake).card

theorem attention_le [Fintype τ] (s : LogQueue τ α) :
    s.attention ≤ s.notificationsOwed + s.consumersAwake := by
  rw [attention, notificationsOwed, consumersAwake, ← totalWeight_eq_card Stage.owesNotify,
    ← totalWeight_eq_card Stage.awake]
  apply totalWeight_le_add
  intro stage
  cases stage <;>
    simp [Stage.attention, Stage.attends, Stage.owesNotify, Stage.awake, Stage.inPop]

/-- Without destruction, whatever the threads do: elements are returned in the
order in which they were pushed, and while a consumer sleeps the elements in the
queue are no more than the notifications owed and the consumers awake. So the
queue is never left with elements, no push under way and all consumers asleep. -/
theorem channel_of_reaches [DecidableEq τ] [DecidableEq α] [Fintype τ] {s : LogQueue τ α}
    (h : Reaches LogQueue.step WithoutDestruction .empty s) :
    s.popped ++ s.que = s.pushed ∧
      (∀ t msg, s.stage t = .returning msg → s.popped.getLast? = some msg) ∧
      ((∃ t, s.stage t = .asleep) →
        s.que.length ≤ s.notificationsOwed + s.consumersAwake) ∧
      ¬ (s.que ≠ [] ∧ (∀ t, (s.stage t).inPush = false) ∧ (∃ t, s.stage t = .asleep) ∧
        ∀ t, (s.stage t).inPop = true → s.stage t = .asleep) := by
  have hattended : s.Attended := h.invariant .empty fun h => h.step
  have hbound : (∃ t, s.stage t = .asleep) →
      s.que.length ≤ s.notificationsOwed + s.consumersAwake :=
    fun hasleep => (hattended.bound hasleep).trans s.attention_le
  refine ⟨hattended.sound.fifo, fun t msg hstage => ?_, hbound, ?_⟩
  · have hfits := hattended.sound.fits t
    rwa [hstage] at hfits
  · rintro ⟨hne, hpush, hasleep, hpop⟩
    have howed : s.notificationsOwed = 0 := by
      apply Finset.card_eq_zero.mpr
      apply Finset.filter_eq_empty_iff.mpr
      intro t _ howes
      have hquiet := hpush t
      cases hstage : s.stage t <;> simp [hstage, Stage.owesNotify, Stage.inPush] at howes hquiet
    have hawake : s.consumersAwake = 0 := by
      apply Finset.card_eq_zero.mpr
      apply Finset.filter_eq_empty_iff.mpr
      intro t _ hawake
      have hin : (s.stage t).inPop = true := by
        cases hstage : s.stage t <;> simp [hstage, Stage.awake, Stage.inPop] at hawake ⊢
      rw [hpop t hin] at hawake
      simp [Stage.awake] at hawake
    have hlength := hbound hasleep
    rw [howed, hawake] at hlength
    exact hne (List.length_eq_zero_iff.mp (Nat.le_zero.mp hlength))

/-- A consumer sleeps while an element lies in the queue: its producer has
released the mutex and not notified yet. -/
def sleepingConsumer : List (QueueEvent Bool Nat) :=
  [.callPop false, .lockPop false, .test false, .sleep false, .callPush true 7, .lockPush true 7,
    .insert true 7, .unlockPush true]

theorem channel_sleepingConsumer :
    ∃ s, run LogQueue.step .empty sleepingConsumer = some s ∧ s.que = [7] ∧
      s.stage false = .asleep ∧ s.que.length ≤ s.notificationsOwed + s.consumersAwake := by
  have hguard : ∀ e ∈ sleepingConsumer, ∀ s : LogQueue Bool Nat, s.WithoutDestruction e := by
    intro e he s
    simp only [sleepingConsumer, List.mem_cons, List.not_mem_nil, or_false] at he
    rcases he with rfl | rfl | rfl | rfl | rfl | rfl | rfl | rfl <;> trivial
  have hrun : run LogQueue.step .empty sleepingConsumer = some _ := rfl
  have hchannel := channel_of_reaches (.of_run hrun hguard)
  exact ⟨_, hrun, rfl, rfl, hchannel.2.2.1 ⟨false, rfl⟩⟩

end LogQueue

end KitRpc.Log

import KitRpc.Log.LogQueue
/-!
# Telling a consumer to exit

The destructor of the queue sets `_isExit` and notifies, both without the mutex.
A consumer that has found the queue empty holds the mutex until it sleeps, but
this does not keep the destructor from going ahead: a notification between the
test and the sleep wakes nobody, and no other one comes from the destructor.
-/

namespace KitRpc.Log

open KitRpc.Foundation

def Stage.dozes {α : Type} : Stage α → Bool
  | sleepy | asleep => true
  | _ => false

theorem Stage.dozes_eq_false {α : Type} {stage : Stage α} (hsleepy : stage ≠ .sleepy)
    (hasleep : stage ≠ .asleep) : stage.dozes = false := by
  cases stage with
  | sleepy => exact absurd rfl hsleepy
  | asleep => exact absurd rfl hasleep
  | _ => rfl

namespace LogQueue

variable {τ α : Type}

def SingleConsumer (c : τ) : QueueEvent τ α → Prop
  | .callPop t => t = c
  | _ => True

/-- The notification of the destructor does not fall between the consumer's test
and its sleep. -/
def NotifiesOutside (c : τ) (s : LogQueue τ α) : QueueEvent τ α → Prop
  | .notifyExit _ => s.stage c ≠ .sleepy
  | _ => True

/-- The destructor has notified, and the consumer sleeps although no `push` is
about to notify. -/
def Stranded (c : τ) (s : LogQueue τ α) : Prop :=
  s.exitNotified = true ∧ s.isExit = true ∧ s.stage c = .asleep ∧
    ∀ t, (s.stage t).owesNotify = false

def OnlyPops (c : τ) (s : LogQueue τ α) : Prop :=
  ∀ t, t ≠ c → (s.stage t).inPop = false

theorem OnlyPops.eq_consumer {c t : τ} {s : LogQueue τ α} (h : s.OnlyPops c)
    (hasleep : s.stage t = .asleep) : t = c := by
  by_contra hne
  have hout := h t hne
  rw [hasleep] at hout
  cases hout

/-- After the notification the flag is set and the consumer does not sleep. -/
structure Reached (c : τ) (s : LogQueue τ α) : Prop where
  single : s.OnlyPops c
  notified : s.exitNotified = true → s.isExit = true ∧ (s.stage c).dozes = false

/-! ## One step -/

/-- What an event may do: a thread is in `pop` if it was or calls it, it dozes if
it did or has found `_isExit` unset, the flag stays set, and only the destructor
notifies for it. -/
structure Follows (e : QueueEvent τ α) (s s' : LogQueue τ α) : Prop where
  pops : ∀ t, (s'.stage t).inPop = true → (s.stage t).inPop = true ∨ e = .callPop t
  dozes : ∀ t, (s'.stage t).dozes = true → (s.stage t).dozes = true ∨ s.isExit = false
  exit : s.isExit = true → s'.isExit = true
  notified : s'.exitNotified = true → s.exitNotified = true ∨ ∃ woken, e = .notifyExit woken

namespace Follows

variable {e : QueueEvent τ α} {s s' s'' : LogQueue τ α} {t : τ} {source target : Stage α}

theorem refl : Follows e s s := ⟨fun _ => .inl, fun _ => .inl, id, .inl⟩

theorem trans (h : Follows e s s') (h' : Follows e s' s'') : Follows e s s'' where
  pops t hpop := (h'.pops t hpop).elim (h.pops t) .inr
  dozes t hdozes := by
    rcases h'.dozes t hdozes with hdozed | hexit
    · exact h.dozes t hdozed
    · refine .inr (Bool.eq_false_iff.mpr fun hset => ?_)
      rw [h.exit hset] at hexit
      cases hexit
  exit hset := h'.exit (h.exit hset)
  notified hs := (h'.notified hs).elim h.notified .inr

variable [DecidableEq τ]

theorem update (hstage : s.stage t = source)
    (hstage' : s'.stage = Function.update s.stage t target)
    (hexit : s'.isExit = s.isExit) (hnotified : s'.exitNotified = s.exitNotified)
    (hpops : target.inPop = true → source.inPop = true ∨ e = .callPop t)
    (hdozes : target.dozes = true → source.dozes = true ∨ s.isExit = false) :
    Follows e s s' where
  pops := by
    rw [hstage']
    apply forall_update (P := fun u (stage : Stage α) =>
      stage.inPop = true → (s.stage u).inPop = true ∨ e = .callPop u)
    · rwa [hstage]
    · exact fun u _ => .inl
  dozes := by
    rw [hstage']
    apply forall_update (P := fun u (stage : Stage α) =>
      stage.dozes = true → (s.stage u).dozes = true ∨ s.isExit = false)
    · rwa [hstage]
    · exact fun u _ => .inl
  exit hset := hexit.trans hset
  notified hs := .inl (hnotified.symm.trans hs)

theorem wake (hstage : s.stage t = source)
    (hstage' : s'.stage = Function.update s.stage t target)
    (hexit : s'.isExit = s.isExit) (hnotified : s'.exitNotified = s.exitNotified)
    (hpops : target.inPop = true → source.inPop = true ∨ e = .callPop t)
    (hdozes : target.dozes = false) : Follows e s s' := by
  apply update hstage hstage' hexit hnotified hpops
  intro h
  rw [hdozes] at h
  cases h

variable [DecidableEq α]

theorem move (hstep : s.move t source target = some s')
    (hpops : target.inPop = true → source.inPop = true ∨ e = .callPop t)
    (hdozes : target.dozes = false) : Follows e s s' := by
  obtain ⟨hstage, rfl⟩ := move_eq_some.mp hstep
  exact wake hstage rfl rfl rfl hpops hdozes

theorem notifyOne [Fintype τ] {woken : Option τ} (hstep : s.notifyOne woken = some s') :
    Follows e s s' := by
  rcases notifyOne_cases hstep with ⟨u, rfl, hwake⟩ | ⟨_, rfl, _⟩
  · exact move hwake (fun _ => .inl rfl) rfl
  · exact refl

theorem of_step [Fintype τ] (hstep : s.step e = some s') : Follows e s s' := by
  cases e with
  | callPush t msg => exact move hstep nofun rfl
  | lockPush t msg =>
      obtain ⟨_, hstage, rfl⟩ := acquire_eq_some.mp hstep
      exact wake hstage rfl rfl rfl nofun rfl
  | insert t msg =>
      obtain ⟨hstage, rfl⟩ := move_eq_some.mp hstep
      exact wake hstage rfl rfl rfl nofun rfl
  | unlockPush t =>
      obtain ⟨hstage, rfl⟩ := release_eq_some.mp hstep
      exact wake hstage rfl rfl rfl nofun rfl
  | notify t woken =>
      obtain ⟨mid, hnotify, hmove⟩ := Option.bind_eq_some_iff.mp hstep
      exact (notifyOne hnotify).trans (move hmove nofun rfl)
  | callPop t => exact move hstep (fun _ => .inr rfl) rfl
  | lockPop t =>
      obtain ⟨_, hstage, rfl⟩ := acquire_eq_some.mp hstep
      exact wake hstage rfl rfl rfl (fun _ => .inl rfl) rfl
  | test t =>
      -- A thread that finds the flag set goes on instead of sleeping.
      obtain ⟨hstage, rfl⟩ := move_eq_some.mp hstep
      refine update hstage rfl rfl rfl (fun _ => .inl rfl) fun hdozes => ?_
      refine .inr (Bool.eq_false_iff.mpr fun hset => ?_)
      rw [hset, Bool.or_true] at hdozes
      cases hdozes
  | sleep t =>
      obtain ⟨hstage, rfl⟩ := release_eq_some.mp hstep
      exact update hstage rfl rfl rfl (fun _ => .inl rfl) fun _ => .inl rfl
  | wakeSpuriously t => exact move hstep (fun _ => .inl rfl) rfl
  | branch t =>
      apply move hstep (fun _ => .inl rfl)
      split <;> rfl
  | remove t =>
      obtain ⟨msg, que, _, hstage, rfl⟩ := remove_eq_some.mp hstep
      exact wake hstage rfl rfl rfl (fun _ => .inl rfl) rfl
  | ret t msg =>
      obtain ⟨hstage, rfl⟩ := release_eq_some.mp hstep
      exact wake hstage rfl rfl rfl nofun rfl
  | retExit t =>
      obtain ⟨hstage, rfl⟩ := release_eq_some.mp hstep
      exact wake hstage rfl rfl rfl nofun rfl
  | setExit =>
      obtain ⟨_, rfl⟩ := setExit_eq_some.mp hstep
      exact ⟨fun _ => .inl, fun _ => .inl, fun _ => rfl, .inl⟩
  | notifyExit woken =>
      obtain ⟨_, _, mid, hnotify, rfl⟩ := notifyExit_eq_some.mp hstep
      have hmid : Follows (.notifyExit woken) s mid := notifyOne hnotify
      exact ⟨hmid.pops, hmid.dozes, hmid.exit, fun _ => .inr ⟨woken, rfl⟩⟩

end Follows

variable [DecidableEq τ] [DecidableEq α] [Fintype τ] {c : τ} {s s' : LogQueue τ α}
  {e : QueueEvent τ α}

theorem OnlyPops.step (h : s.OnlyPops c) (hsingle : SingleConsumer c e)
    (hstep : s.step e = some s') : s'.OnlyPops c := by
  intro t ht
  rw [Bool.eq_false_iff]
  intro hpop
  rcases (Follows.of_step hstep).pops t hpop with hpopped | rfl
  · rw [h t ht] at hpopped
    cases hpopped
  · exact ht hsingle

/-- Where the consumer is not about to sleep, the notification of the destructor
finds it awake or wakes it. -/
theorem OnlyPops.notifyExit (h : s.OnlyPops c) {woken : Option τ}
    (hok : s.stage c ≠ .sleepy) (hstep : s.step (.notifyExit woken) = some s') :
    s'.isExit = true ∧ (s'.stage c).dozes = false := by
  obtain ⟨hexit, _, mid, hnotify, rfl⟩ := notifyExit_eq_some.mp hstep
  rcases notifyOne_cases hnotify with ⟨u, rfl, hwake⟩ | ⟨_, rfl, hnobody⟩
  · obtain ⟨hasleep, rfl⟩ := move_eq_some.mp hwake
    refine ⟨hexit, ?_⟩
    dsimp only
    rw [h.eq_consumer hasleep, Function.update_self]
    rfl
  · exact ⟨hexit, Stage.dozes_eq_false hok (hnobody c)⟩

theorem Reached.step (h : s.Reached c) (hsingle : SingleConsumer c e)
    (hok : NotifiesOutside c s e) (hstep : s.step e = some s') : s'.Reached c where
  single := h.single.step hsingle hstep
  notified hs := by
    have hfollows := Follows.of_step hstep
    rcases hfollows.notified hs with hnotified | ⟨woken, rfl⟩
    · obtain ⟨hexit, hawake⟩ := h.notified hnotified
      refine ⟨hfollows.exit hexit, Bool.eq_false_iff.mpr fun hdozes => ?_⟩
      rcases hfollows.dozes c hdozes with hdozed | hunset
      · rw [hawake] at hdozed
        cases hdozed
      · rw [hexit] at hunset
        cases hunset
    · exact h.single.notifyExit hok hstep

/-! ## A lost notification -/

def owed (s : LogQueue τ α) : Nat :=
  totalWeight (fun stage : Stage α => if stage.owesNotify then 1 else 0) s.stage

/-- While the consumer is about to sleep it holds the mutex, so who owes a
notification can give it, and wakes nobody. -/
theorem notify_of_sleepy (hsound : s.Sound) (hpops : s.OnlyPops c) (hc : s.stage c = .sleepy)
    {t : τ} (ht : (s.stage t).owesNotify = true) :
    t ≠ c ∧ s.step (.notify t none) =
      some { s with stage := Function.update s.stage t .outside } := by
  have hne : t ≠ c := by
    rintro rfl
    rw [hc] at ht
    cases ht
  have hlocks : (s.stage t).locks = false := hsound.others (by rw [hc]; rfl) hne
  have hstage : s.stage t = .notifying := by
    cases hs : s.stage t <;> simp [hs, Stage.owesNotify, Stage.locks] at ht hlocks ⊢
  have hnobody : ∀ u, s.stage u ≠ .asleep := by
    intro u hu
    rw [hpops.eq_consumer hu, hc] at hu
    cases hu
  refine ⟨hne, ?_⟩
  rw [step, notifyOne, if_pos hnobody, Option.bind_some]
  exact move_eq_some.mpr ⟨hstage, rfl⟩

/-- From a state in which the destructor has notified and the consumer is about
to sleep, the consumer can be stranded: whoever owes a notification gives it
before the consumer sleeps. -/
theorem stranded_of_sleepy (hsound : s.Sound) (hpops : s.OnlyPops c)
    (hexit : s.isExit = true) (hnotified : s.exitNotified = true) (hc : s.stage c = .sleepy) :
    ∃ s', Reaches step (fun _ => SingleConsumer c) s s' ∧ s'.Stranded c := by
  induction hn : s.owed using Nat.strong_induction_on generalizing s with
  | _ n ih =>
      by_cases howes : ∃ t, (s.stage t).owesNotify = true
      · obtain ⟨t, ht⟩ := howes
        obtain ⟨hne, hstep⟩ := notify_of_sleepy hsound hpops hc ht
        have hok : SingleConsumer c (.notify t none : QueueEvent τ α) := trivial
        have hweight := totalWeight_update
          (fun stage : Stage α => if stage.owesNotify then 1 else 0) s.stage t .outside
        rw [if_pos ht, if_neg (by simp [Stage.owesNotify])] at hweight
        have hless : LogQueue.owed { s with stage := Function.update s.stage t .outside } < n := by
          rw [← hn]
          change totalWeight _ (Function.update s.stage t .outside) < totalWeight _ s.stage
          omega
        obtain ⟨s', hreaches, hstranded⟩ := ih _ hless (hsound.step hstep)
          (hpops.step hok hstep) hexit hnotified
          ((Function.update_of_ne hne.symm _ _).trans hc) rfl
        exact ⟨s', hreaches.head hok hstep, hstranded⟩
      · have hok : SingleConsumer c (.sleep c : QueueEvent τ α) := trivial
        have hsleep : s.step (.sleep c) = some { s with
            owner := none, stage := Function.update s.stage c .asleep } :=
          release_eq_some.mpr ⟨hc, rfl⟩
        refine ⟨_, .step .start hok hsleep, hnotified, hexit, Function.update_self c _ _, ?_⟩
        apply forall_update (P := fun _ (stage : Stage α) => stage.owesNotify = false)
        · rfl
        · exact fun t _ => Bool.eq_false_iff.mpr fun ht => howes ⟨t, ht⟩

/-- In runs with one consumer, it is never left asleep by the destructor if the
notification does not fall between its test and its sleep; and where it does, it
can be. -/
theorem not_stranded_of_reaches (c : τ) :
    (∀ s : LogQueue τ α, Reaches step (fun s e => SingleConsumer c e ∧ NotifiesOutside c s e)
      .empty s → ¬s.Stranded c) ∧
    ∀ (s s' : LogQueue τ α) (e : QueueEvent τ α),
      Reaches step (fun _ => SingleConsumer c) .empty s → ¬NotifiesOutside c s e →
      s.step e = some s' →
      ∃ s'', Reaches step (fun _ => SingleConsumer c) s' s'' ∧ s''.Stranded c := by
  constructor
  · rintro s hreaches ⟨hnotified, _, hasleep, _⟩
    have hreached : s.Reached c := by
      apply hreaches.invariant (I := Reached c)
      · exact ⟨fun _ _ => rfl, nofun⟩
      · exact fun h hok hstep => h.step hok.1 hok.2 hstep
    have hawake := (hreached.notified hnotified).2
    rw [hasleep] at hawake
    cases hawake
  · intro s s' e hreaches hinside hstep
    have hsound : s.Sound := hreaches.invariant (I := Sound) .empty fun h _ hstep => h.step hstep
    have hpops : s.OnlyPops c := by
      apply hreaches.invariant (I := OnlyPops c)
      · exact fun _ _ => rfl
      · exact fun h hok hstep => h.step hok hstep
    cases e with
    | notifyExit woken =>
        have hc : s.stage c = .sleepy := not_not.mp hinside
        have hok : SingleConsumer c (.notifyExit woken : QueueEvent τ α) := trivial
        have hexited := notifyExit_eq_some.mp hstep
        have hkept : s'.isExit = true ∧ s'.exitNotified = true ∧ s'.stage c = .sleepy := by
          obtain ⟨hexit, _, mid, hnotify, rfl⟩ := hexited
          rcases notifyOne_cases hnotify with ⟨u, rfl, hwake⟩ | ⟨_, rfl, _⟩
          · obtain ⟨hasleep, rfl⟩ := move_eq_some.mp hwake
            have huc : c ≠ u := by
              rintro rfl
              rw [hc] at hasleep
              cases hasleep
            exact ⟨hexit, rfl, (Function.update_of_ne huc _ _).trans hc⟩
          · exact ⟨hexit, rfl, hc⟩
        exact stranded_of_sleepy (hsound.step hstep) (hpops.step hok hstep) hkept.1 hkept.2.1
          hkept.2.2
    | _ => exact absurd trivial hinside

/-- The consumer tests, the destructor sets the flag and notifies, the consumer
sleeps. -/
theorem stranded_between_test_and_sleep :
    (∃ s : LogQueue Unit Nat, run step .empty [.callPop (), .lockPop (), .test (), .setExit,
        .notifyExit none, .sleep ()] = some s ∧ s.Stranded ()) ∧
      ¬∀ s : LogQueue Unit Nat, Reaches step (fun _ => SingleConsumer ()) .empty s →
        ¬s.Stranded () := by
  have hrun : run step (.empty : LogQueue Unit Nat) [.callPop (), .lockPop (), .test (), .setExit,
      .notifyExit none, .sleep ()] = some _ := rfl
  refine ⟨⟨_, hrun, rfl, rfl, rfl, fun _ => rfl⟩, fun h => ?_⟩
  apply h _ (.of_run hrun _) ⟨rfl, rfl, rfl, fun _ => rfl⟩
  intro e he s
  simp only [List.mem_cons, List.not_mem_nil, or_false] at he
  rcases he with rfl | rfl | rfl | rfl | rfl | rfl
  · rfl
  all_goals trivial

end LogQueue

end KitRpc.Log

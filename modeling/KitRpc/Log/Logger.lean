import KitRpc.Cpp.Bytes
import KitRpc.Log.LogQueue
/-!
# The log writer

The thread `Logger` starts: it takes messages out of the queue and writes them
to the log file until it is given an empty one. `pop` returns an empty string
when the queue is told to exit, whatever is left in the queue, and an empty
message looks the same. The writer opens its file in every round; where that
fails it ends the process, and there is no next state.
-/

namespace KitRpc.Log

open KitRpc.Foundation KitRpc.Cpp

inductive WriterStage
  | looping
  | inPop
  /-- `msg` was returned and is tested next. -/
  | holding (msg : Bytes)
  | left
  deriving DecidableEq

/-- The queue, the writer and what it has written, whatever the files. `told` holds
the messages that were pushed when the queue was told to exit. -/
structure Logger (τ : Type) where
  queue : LogQueue τ Bytes
  stage : WriterStage
  written : List Bytes
  told : Option (List Bytes)

inductive LoggerEvent (τ : Type)
  | queue (e : QueueEvent τ Bytes)
  /-- The writer handles the message it holds. -/
  | handle

namespace Logger

variable {τ : Type}

def empty : Logger τ :=
  { queue := .empty, stage := .looping, written := [], told := none }

section

variable (writer : τ)

/-- Only the writer pops, from the top of its loop, and it does not log. -/
def Allows (s : Logger τ) : QueueEvent τ Bytes → Prop
  | .callPush t _ => t ≠ writer
  | .callPop t => t = writer ∧ s.stage = .looping
  | _ => True

instance [DecidableEq τ] (s : Logger τ) (e : QueueEvent τ Bytes) :
    Decidable (s.Allows writer e) := by
  unfold Allows
  split <;> infer_instance

def follow (s : Logger τ) (queue : LogQueue τ Bytes) : QueueEvent τ Bytes → Logger τ
  | .callPop _ => { s with queue, stage := .inPop }
  | .ret _ msg => { s with queue, stage := .holding msg }
  | .retExit _ => { s with queue, stage := .holding [] }
  | .setExit => { s with queue, told := some s.queue.pushed }
  | _ => { s with queue }

def step [DecidableEq τ] [Fintype τ] (s : Logger τ) : LoggerEvent τ → Option (Logger τ)
  | .queue e =>
      if s.Allows writer e then (s.queue.step e).map fun queue => s.follow queue e else none
  | .handle =>
      match s.stage with
      | .holding msg =>
        if msg.isEmpty then some { s with stage := .left }
        else some { s with written := s.written ++ [msg], stage := .looping }
      | _ => none

/-- What the writer has taken out of the queue and not handled. -/
def inHand (s : Logger τ) : List Bytes :=
  match s.stage, s.queue.stage writer with
  | .holding msg, _ => [msg]
  | .inPop, .returning msg => [msg]
  | _, _ => []

/-- The writer has left its loop only if the queue was told to exit and all
messages pushed before that are written; and as long as it was not told, the
writer is there and every message is written, in its hands or in the queue. -/
def WritesAll (s : Logger τ) : Prop :=
  (s.stage = .left → ∃ before, s.told = some before ∧ before <+: s.written) ∧
    (s.told = none →
      s.stage ≠ .left ∧ s.queue.pushed = s.written ++ s.inHand writer ++ s.queue.que)

/-- No empty message enters the queue before the exit, and a `pop` that sees
`_isExit` leaves no message in the queue that was pushed before. -/
def Careful (s : Logger τ) : LoggerEvent τ → Prop
  | .queue (.insert _ msg) => msg = [] → s.told ≠ none
  | .queue (.branch _) =>
      ∀ before ∈ s.told, before.length ≤ s.queue.popped.length
  | _ => True

instance (s : Logger τ) (e : LoggerEvent τ) : Decidable (s.Careful e) := by
  unfold Careful
  split <;> infer_instance

/-! ## The invariant -/

def Drained (s : Logger τ) : Prop :=
  ∃ before, s.told = some before ∧ before.length ≤ s.queue.popped.length

/-- What is known when the writer is at one stage of its loop and at another one
of the queue. -/
inductive WriterFits (s : Logger τ) : WriterStage → Stage Bytes → Prop
  | looping : s.queue.popped = s.written → WriterFits s .looping .outside
  | waiting {stage : Stage Bytes} : stage.waits = true → s.queue.popped = s.written →
      WriterFits s .inPop stage
  | removing : (∀ msg ∈ s.queue.que, msg ≠ []) → s.queue.popped = s.written →
      WriterFits s .inPop .removing
  | returning {msg : Bytes} : msg ≠ [] → s.queue.popped = s.written ++ [msg] →
      WriterFits s .inPop (.returning msg)
  | leaving : s.Drained → s.queue.popped = s.written → WriterFits s .inPop .leaving
  | holding {msg : Bytes} : msg ≠ [] → s.queue.popped = s.written ++ [msg] →
      WriterFits s (.holding msg) .outside
  | told : s.Drained → s.queue.popped = s.written → WriterFits s (.holding []) .outside
  | left : s.Drained → s.queue.popped = s.written → WriterFits s .left .outside

def ToldFits (s : Logger τ) : Prop :=
  match s.told with
  | none => s.queue.isExit = false ∧ ∀ msg ∈ s.queue.pushed, msg ≠ []
  | some before => s.queue.isExit = true ∧ before <+: s.queue.pushed

structure Inv (s : Logger τ) : Prop where
  sound : s.queue.Sound
  producers : ∀ t, t ≠ writer → (s.queue.stage t).inPop = false
  told : s.ToldFits
  writer : s.WriterFits s.stage (s.queue.stage writer)

end

variable {writer : τ} {s s' : Logger τ} {t : τ} {source target : Stage Bytes}

/-- The facts about the writer only depend on what it did, on the exit and,
while it removes, on the queue. -/
theorem WriterFits.congr {stage : WriterStage} {place : Stage Bytes} (h : s.WriterFits stage place)
    (hpopped : s'.queue.popped = s.queue.popped) (hwritten : s'.written = s.written)
    (htold : s.Drained → s'.told = s.told) (hque : place = .removing → s'.queue.que = s.queue.que) :
    s'.WriterFits stage place := by
  have hdrained (hd : s.Drained) : s'.Drained := by
    rwa [Drained, htold hd, hpopped]
  cases h with
  | looping hw => exact .looping (by rw [hpopped, hw, hwritten])
  | waiting hwaits hw => exact .waiting hwaits (by rw [hpopped, hw, hwritten])
  | removing hne hw => exact .removing (by rwa [hque rfl]) (by rw [hpopped, hw, hwritten])
  | returning hne hw => exact .returning hne (by rw [hpopped, hw, hwritten])
  | leaving hd hw => exact .leaving (hdrained hd) (by rw [hpopped, hw, hwritten])
  | holding hne hw => exact .holding hne (by rw [hpopped, hw, hwritten])
  | told hd hw => exact .told (hdrained hd) (by rw [hpopped, hw, hwritten])
  | left hd hw => exact .left (hdrained hd) (by rw [hpopped, hw, hwritten])

namespace Inv

theorem empty : (Logger.empty : Logger τ).Inv writer where
  sound := .empty
  producers _ _ := rfl
  told := ⟨rfl, by simp [Logger.empty, LogQueue.empty]⟩
  writer := .looping rfl

theorem ne_writer (h : s.Inv writer) (hstage : s.queue.stage t = source)
    (hsource : source.inPush = true) : t ≠ writer := by
  rintro rfl
  have hfits := h.writer
  rw [hstage] at hfits
  generalize s.stage = stage at hfits
  cases hfits with
  | waiting hwaits => cases source <;> simp [Stage.waits, Stage.inPush] at hwaits hsource
  | _ => cases hsource

theorem eq_writer (h : s.Inv writer) (hstage : s.queue.stage t = source)
    (hsource : source.inPop = true) : t = writer := by
  by_contra ht
  have hout := h.producers t ht
  rw [hstage, hsource] at hout
  cases hout

theorem untold (h : s.Inv writer) (hexit : s.queue.isExit = false) : s.told = none := by
  have htold := h.told
  unfold ToldFits at htold
  cases hs : s.told with
  | none => rfl
  | some before =>
      rw [hs] at htold
      exact absurd (htold.1.symm.trans hexit) (by simp)

theorem que_ne_nil (h : s.Inv writer) (hexit : s.queue.isExit = false) :
    ∀ msg ∈ s.queue.que, msg ≠ [] := by
  intro msg hmsg
  have htold := h.told
  rw [ToldFits, h.untold hexit] at htold
  apply htold.2 msg
  rw [← h.sound.fifo]
  exact List.mem_append_right _ hmsg

theorem drained (h : s.Inv writer) (hexit : s.queue.isExit = true)
    (hok : ∀ before, s.told = some before → before.length ≤ s.queue.popped.length) :
    s.Drained := by
  have htold := h.told
  unfold ToldFits at htold
  cases hs : s.told with
  | none =>
      rw [hs] at htold
      exact absurd (htold.1.symm.trans hexit) (by simp)
  | some before => exact ⟨before, hs, hok before hs⟩

variable [DecidableEq τ]

theorem producer (h : s.Inv writer) {queue : LogQueue τ Bytes} (hsound : queue.Sound)
    (ht : t ≠ writer) (htarget : target.inPop = false)
    (hstage : queue.stage = Function.update s.queue.stage t target)
    (hpopped : queue.popped = s.queue.popped) (htold : ToldFits { s with queue })
    (hque : s.queue.stage writer = .removing → queue.que = s.queue.que) :
    Inv writer { s with queue } where
  sound := hsound
  producers := by
    rw [hstage]
    exact forall_update (P := fun u (stage : Stage Bytes) => u ≠ writer → stage.inPop = false)
      (fun _ => htarget) fun u _ => h.producers u
  told := htold
  writer := by
    rw [hstage, Function.update_of_ne ht.symm]
    exact h.writer.congr hpopped rfl (fun _ => rfl) hque

theorem writerStep (h : s.Inv writer) (hsound : s'.queue.Sound)
    (hstage : s'.queue.stage = Function.update s.queue.stage writer target)
    (htold : s'.ToldFits) (hfits : s'.WriterFits s'.stage target) : s'.Inv writer where
  sound := hsound
  producers := by
    rw [hstage]
    exact forall_update (P := fun u (stage : Stage Bytes) => u ≠ writer → stage.inPop = false)
      (fun hne => absurd rfl hne) fun u _ => h.producers u
  told := htold
  writer := by rwa [hstage, Function.update_self]

theorem waitStep (h : s.Inv writer) {queue : LogQueue τ Bytes} (hsound : queue.Sound)
    (hsource : s.queue.stage t = source) (hwaits : source.waits = true)
    (htarget : target.waits = true)
    (hstage : queue.stage = Function.update s.queue.stage t target)
    (hpopped : queue.popped = s.queue.popped) (htold : ToldFits { s with queue }) :
    Inv writer { s with queue } := by
  have hpop : source.inPop = true := by
    cases source <;> simp [Stage.waits, Stage.inPop] at hwaits ⊢
  obtain rfl := h.eq_writer hsource hpop
  refine h.writerStep hsound hstage htold ?_
  have hfits := h.writer
  rw [hsource] at hfits
  change WriterFits { s with queue } s.stage target
  generalize s.stage = stage at hfits
  cases hfits with
  | waiting _ hw => exact .waiting htarget (hpopped.trans hw)
  | _ => cases hwaits

theorem leavePop (h : s.Inv writer) {msg : Bytes} {queue : LogQueue τ Bytes}
    (hsound : queue.Sound) (hpop : source.inPop = true)
    (hholds : ∀ {stage : WriterStage},
      s.WriterFits stage source → s.WriterFits (.holding msg) .outside)
    (hstep : s.queue.release t source .outside = some queue) :
    Inv writer { s with queue, stage := .holding msg } := by
  obtain ⟨hstage, rfl⟩ := LogQueue.release_eq_some.mp hstep
  obtain rfl := h.eq_writer hstage hpop
  have hfits := h.writer
  rw [hstage] at hfits
  exact h.writerStep hsound rfl h.told ((hholds hfits).congr rfl rfl (fun _ => rfl) nofun)

variable [Fintype τ]

theorem notifyOne (h : s.Inv writer) {woken : Option τ} {queue : LogQueue τ Bytes}
    (hstep : s.queue.notifyOne woken = some queue) : Inv writer { s with queue } := by
  have hsound := h.sound.notifyOne hstep
  rcases LogQueue.notifyOne_cases hstep with ⟨u, rfl, hwake⟩ | ⟨_, rfl, _⟩
  · obtain ⟨hasleep, rfl⟩ := LogQueue.move_eq_some.mp hwake
    exact h.waitStep hsound hasleep rfl rfl rfl rfl h.told
  · exact h

theorem insert (h : s.Inv writer) {msg : Bytes} {queue : LogQueue τ Bytes}
    (hok : msg = [] → s.told ≠ none) (hstep : s.queue.step (.insert t msg) = some queue) :
    Inv writer { s with queue } := by
  have hsound := h.sound.step hstep
  obtain ⟨hstage, rfl⟩ := LogQueue.move_eq_some.mp hstep
  have ht := h.ne_writer hstage rfl
  refine h.producer hsound ht rfl rfl rfl ?told ?que
  case told =>
    have htold := h.told
    unfold ToldFits at htold ⊢
    cases hs : s.told with
    | none =>
        rw [hs] at htold
        simp only [List.forall_mem_append, List.forall_mem_singleton]
        exact ⟨htold.1, htold.2, fun hnil => hok hnil hs⟩
    | some before =>
        rw [hs] at htold
        exact ⟨htold.1, htold.2.trans (List.prefix_append _ _)⟩
  case que =>
    -- The writer does not remove while another thread holds the mutex.
    intro hremoving
    have hlocks : (s.queue.stage t).locks = true := by
      rw [show s.queue.stage t = .inserting msg from hstage]
      rfl
    have hother := h.sound.others hlocks ht.symm
    rw [hremoving] at hother
    cases hother

theorem branch (h : s.Inv writer) {queue : LogQueue τ Bytes}
    (hok : ∀ before, s.told = some before → before.length ≤ s.queue.popped.length)
    (hstep : s.queue.step (.branch t) = some queue) : Inv writer { s with queue } := by
  have hsound := h.sound.step hstep
  obtain ⟨hstage, rfl⟩ := LogQueue.move_eq_some.mp hstep
  obtain rfl := h.eq_writer hstage rfl
  refine h.writerStep hsound rfl h.told ?_
  have hfits := h.writer
  rw [hstage] at hfits
  change WriterFits _ s.stage _
  generalize s.stage = stage at hfits
  cases hfits with
  | waiting _ hw =>
      cases hexit : s.queue.isExit with
      | true => exact .leaving (h.drained hexit hok) hw
      | false => exact .removing (h.que_ne_nil hexit) hw

theorem remove (h : s.Inv writer) {queue : LogQueue τ Bytes}
    (hstep : s.queue.step (.remove t) = some queue) : Inv writer { s with queue } := by
  have hsound := h.sound.step hstep
  obtain ⟨msg, que, hque, hstage, rfl⟩ := LogQueue.remove_eq_some.mp hstep
  obtain rfl := h.eq_writer hstage rfl
  refine h.writerStep hsound rfl h.told ?_
  have hfits := h.writer
  rw [hstage] at hfits
  change WriterFits _ s.stage _
  generalize s.stage = stage at hfits
  cases hfits with
  | waiting hwaits => cases hwaits
  | removing hne hw =>
      exact .returning (hne msg (by simp [hque])) (congrArg (· ++ [msg]) hw)

theorem callPop (h : s.Inv writer) {queue : LogQueue τ Bytes} (ht : t = writer)
    (hlooping : s.stage = .looping) (hstep : s.queue.step (.callPop t) = some queue) :
    Inv writer { s with queue, stage := .inPop } := by
  have hsound := h.sound.step hstep
  obtain ⟨hstage, rfl⟩ := LogQueue.move_eq_some.mp hstep
  subst ht
  refine h.writerStep hsound rfl h.told ?_
  have hfits := h.writer
  rw [hstage, hlooping] at hfits
  cases hfits with
  | looping hw => exact .waiting rfl hw

theorem ret (h : s.Inv writer) {msg : Bytes} {queue : LogQueue τ Bytes}
    (hstep : s.queue.step (.ret t msg) = some queue) :
    Inv writer { s with queue, stage := .holding msg } := by
  refine h.leavePop (h.sound.step hstep) rfl (fun {stage} hfits => ?_) hstep
  cases hfits with
  | waiting hwaits => cases hwaits
  | returning hne hw => exact .holding hne hw

theorem retExit (h : s.Inv writer) {queue : LogQueue τ Bytes}
    (hstep : s.queue.step (.retExit t) = some queue) :
    Inv writer { s with queue, stage := .holding [] } := by
  refine h.leavePop (h.sound.step hstep) rfl (fun {stage} hfits => ?_) hstep
  cases hfits with
  | waiting hwaits => cases hwaits
  | leaving hd hw => exact .told hd hw

theorem setExit (h : s.Inv writer) {queue : LogQueue τ Bytes}
    (hstep : s.queue.step .setExit = some queue) :
    Inv writer { s with queue, told := some s.queue.pushed } := by
  have hsound := h.sound.step hstep
  obtain ⟨hexit, rfl⟩ := LogQueue.setExit_eq_some.mp hstep
  refine ⟨hsound, h.producers, ⟨rfl, List.prefix_refl _⟩, ?_⟩
  refine h.writer.congr rfl rfl (fun hdrained => ?_) fun _ => rfl
  obtain ⟨before, hbefore, _⟩ := hdrained
  exact absurd (hbefore.symm.trans (h.untold hexit)) (by simp)

theorem handle (h : s.Inv writer) (hstep : s.step writer .handle = some s') : s'.Inv writer := by
  have hfits := h.writer
  generalize hplace : s.queue.stage writer = place at hfits
  cases hstage : s.stage with
  | holding msg =>
      simp only [step, hstage] at hstep
      rw [hstage] at hfits
      cases hfits with
      | holding hne hw =>
          rw [if_neg (by simpa using hne)] at hstep
          cases hstep
          refine ⟨h.sound, h.producers, h.told, ?_⟩
          change WriterFits _ _ (s.queue.stage writer)
          rw [hplace]
          exact .looping hw
      | told hd hw =>
          cases hstep
          refine ⟨h.sound, h.producers, h.told, ?_⟩
          change WriterFits _ _ (s.queue.stage writer)
          rw [hplace]
          exact .left hd hw
  | looping | inPop | left => simp [step, hstage] at hstep

theorem step (h : s.Inv writer) {e : LoggerEvent τ} (hok : s.Careful e)
    (hstep : s.step writer e = some s') : s'.Inv writer := by
  cases e with
  | handle => exact h.handle hstep
  | queue e =>
      rw [Logger.step, Option.ite_none_right_eq_some, Option.map_eq_some_iff] at hstep
      obtain ⟨hallows, queue, hqueue, rfl⟩ := hstep
      have hsound := h.sound.step hqueue
      cases e with
      | callPush t msg =>
          obtain ⟨_, rfl⟩ := LogQueue.move_eq_some.mp hqueue
          exact h.producer hsound hallows rfl rfl rfl h.told fun _ => rfl
      | lockPush t msg =>
          obtain ⟨_, hstage, rfl⟩ := LogQueue.acquire_eq_some.mp hqueue
          exact h.producer hsound (h.ne_writer hstage rfl) rfl rfl rfl h.told fun _ => rfl
      | insert t msg => exact h.insert hok hqueue
      | unlockPush t =>
          obtain ⟨hstage, rfl⟩ := LogQueue.release_eq_some.mp hqueue
          exact h.producer hsound (h.ne_writer hstage rfl) rfl rfl rfl h.told fun _ => rfl
      | notify t woken =>
          obtain ⟨mid, hnotify, hmove⟩ := Option.bind_eq_some_iff.mp hqueue
          have hmid := h.notifyOne hnotify
          obtain ⟨hstage, rfl⟩ := LogQueue.move_eq_some.mp hmove
          exact hmid.producer hsound (hmid.ne_writer hstage rfl) rfl rfl rfl hmid.told fun _ => rfl
      | callPop t => exact h.callPop hallows.1 hallows.2 hqueue
      | lockPop t =>
          obtain ⟨_, hstage, rfl⟩ := LogQueue.acquire_eq_some.mp hqueue
          exact h.waitStep hsound hstage rfl rfl rfl rfl h.told
      | test t =>
          rw [LogQueue.step] at hqueue
          split at hqueue
          · obtain ⟨hstage, rfl⟩ := LogQueue.move_eq_some.mp hqueue
            exact h.waitStep hsound hstage rfl rfl rfl rfl h.told
          · obtain ⟨hstage, rfl⟩ := LogQueue.move_eq_some.mp hqueue
            exact h.waitStep hsound hstage rfl rfl rfl rfl h.told
      | sleep t =>
          obtain ⟨hstage, rfl⟩ := LogQueue.release_eq_some.mp hqueue
          exact h.waitStep hsound hstage rfl rfl rfl rfl h.told
      | wakeSpuriously t =>
          obtain ⟨hstage, rfl⟩ := LogQueue.move_eq_some.mp hqueue
          exact h.waitStep hsound hstage rfl rfl rfl rfl h.told
      | branch t => exact h.branch hok hqueue
      | remove t => exact h.remove hqueue
      | ret t msg => exact h.ret hqueue
      | retExit t => exact h.retExit hqueue
      | setExit => exact h.setExit hqueue
      | notifyExit woken =>
          obtain ⟨_, _, mid, hnotify, rfl⟩ := LogQueue.notifyExit_eq_some.mp hqueue
          have hmid := h.notifyOne hnotify
          exact ⟨hsound, hmid.producers, hmid.told,
            hmid.writer.congr rfl rfl (fun _ => rfl) fun _ => rfl⟩

end Inv

/-! ## Every run -/

theorem Inv.writesAll (h : s.Inv writer) : s.WritesAll writer := by
  have hfits := h.writer
  have hfifo := h.sound.fifo
  have htold := h.told
  unfold ToldFits at htold
  constructor
  · intro hleft
    rw [hleft] at hfits
    generalize s.queue.stage writer = place at hfits
    cases hfits with
    | left hd hw =>
        obtain ⟨before, hbefore, hlength⟩ := hd
        rw [hbefore] at htold
        refine ⟨before, hbefore, ?_⟩
        rw [← hw]
        exact List.prefix_of_prefix_length_le htold.2 ⟨_, hfifo⟩ hlength
  · intro hnone
    have hdrained : ¬ s.Drained := by
      rintro ⟨before, hbefore, _⟩
      exact absurd (hbefore.symm.trans hnone) (by simp)
    rw [← hfifo, inHand]
    generalize s.stage = stage at hfits
    generalize s.queue.stage writer = place at hfits
    cases hfits with
    | waiting hwaits hw =>
        rw [hw]
        cases place <;> simp [Stage.waits] at hwaits ⊢
    | looping hw | removing _ hw | returning _ hw | holding _ hw => simp [hw]
    | leaving hd | told hd | left hd => exact absurd hd hdrained

/-- In every run of any producers in which no empty message enters the queue
before the exit, and no `pop` leaves messages pushed before the exit behind, the
writer stops only when all these are written. -/
theorem writesAll_of_reaches [DecidableEq τ] [Fintype τ] (writer : τ)
    (h : Reaches (Logger.step writer) Careful .empty s) : s.WritesAll writer :=
  (h.invariant (I := Inv writer) .empty fun h => h.step).writesAll

/-- A thread logs a message, up to the notification. -/
def logSteps (t : Bool) (msg : Bytes) : List (LoggerEvent Bool) :=
  [.queue (.callPush t msg), .queue (.lockPush t msg), .queue (.insert t msg),
    .queue (.unlockPush t)]

def popSteps : List (LoggerEvent Bool) :=
  [.queue (.callPop false), .queue (.lockPop false), .queue (.test false),
    .queue (.branch false)]

def takeSteps (msg : Bytes) : List (LoggerEvent Bool) :=
  popSteps ++ [.queue (.remove false), .queue (.ret false msg), .handle]

def leaveSteps : List (LoggerEvent Bool) := popSteps ++ [.queue (.retExit false), .handle]

theorem writesAll_log_then_exit :
    ∃ s, run (Logger.step false) .empty
        (logSteps true [0x61] ++ takeSteps [0x61] ++ [.queue .setExit] ++ leaveSteps) = some s ∧
      s.stage = .left ∧ s.written = [[0x61]] ∧ s.WritesAll false := by
  have hchecked : run (fun s e => if s.Careful e then Logger.step false s e else none) .empty
      (logSteps true [0x61] ++ takeSteps [0x61] ++ [.queue .setExit] ++ leaveSteps) =
        some _ := rfl
  exact ⟨_, rfl, rfl, rfl, writesAll_of_reaches false (.of_checked_run hchecked)⟩

/-- An empty message ends the writer although nobody told the queue to exit; and
told to exit while a message is in the queue, the writer leaves without it. -/
theorem not_writesAll_empty_or_exit :
    (∃ s, run (Logger.step false) .empty (logSteps true [] ++ takeSteps []) = some s ∧
        ¬ s.WritesAll false) ∧
      ∃ s, run (Logger.step false) .empty
          (logSteps true [0x61] ++ [.queue .setExit] ++ leaveSteps) = some s ∧
        ¬ s.WritesAll false := by
  refine ⟨⟨_, rfl, fun h => ?_⟩, ⟨_, rfl, fun h => ?_⟩⟩
  · obtain ⟨before, hbefore, _⟩ := h.1 rfl
    cases hbefore
  · obtain ⟨before, hbefore, hprefix⟩ := h.1 rfl
    cases hbefore
    exact absurd hprefix (by decide)

end Logger

end KitRpc.Log

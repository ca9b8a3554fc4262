import KitRpc.Cpp.Number
import KitRpc.Log.Logger
/-!
# The files of the log writer

The writer names and opens a file at the top of its loop and only then waits for
a message, so the file is the one of the path and the date at that time. The
name is made in a buffer of fixed size.
-/

namespace KitRpc.Log

open KitRpc.Foundation KitRpc.Cpp

/-! ## What a step of the queue means for a consumer -/

/-- Whether a thread is in `pop`, and what it has taken out of the queue there. -/
inductive Phase (α : Type)
  | away
  | waiting
  | taken (msg : α)

def Stage.phase {α : Type} : Stage α → Phase α
  | popping | testing | sleepy | asleep | branching | removing | leaving => .waiting
  | returning msg => .taken msg
  | _ => .away

/-- The event leaves the queue's elements alone, and no thread calls `pop`, takes
an element or returns. -/
def QueueEvent.Quiet {τ α : Type} : QueueEvent τ α → Prop
  | insert _ _ | callPop _ | remove _ | ret _ _ | retExit _ => False
  | _ => True

namespace LogQueue

structure SamePhases {τ α : Type} (s s' : LogQueue τ α) : Prop where
  que : s'.que = s.que
  phases : ∀ t, (s'.stage t).phase = (s.stage t).phase

namespace SamePhases

variable {τ α : Type} {s s' s'' : LogQueue τ α} {t : τ} {source target : Stage α}

theorem trans (h : s.SamePhases s') (h' : s'.SamePhases s'') : s.SamePhases s'' :=
  ⟨h'.que.trans h.que, fun t => (h'.phases t).trans (h.phases t)⟩

variable [DecidableEq τ]

theorem update (hstage : s.stage t = source)
    (hstage' : s'.stage = Function.update s.stage t target) (hque : s'.que = s.que)
    (hphase : target.phase = source.phase) : s.SamePhases s' where
  que := hque
  phases := by
    rw [hstage']
    apply forall_update (P := fun u (stage : Stage α) => stage.phase = (s.stage u).phase)
    · rwa [hstage]
    · exact fun _ _ => rfl

variable [DecidableEq α]

theorem move (hstep : s.move t source target = some s')
    (hphase : target.phase = source.phase) : s.SamePhases s' := by
  obtain ⟨hstage, rfl⟩ := move_eq_some.mp hstep
  exact update hstage rfl rfl hphase

theorem acquire (hstep : s.acquire t source target = some s')
    (hphase : target.phase = source.phase) : s.SamePhases s' := by
  obtain ⟨_, hstage, rfl⟩ := acquire_eq_some.mp hstep
  exact update hstage rfl rfl hphase

theorem release (hstep : s.release t source target = some s')
    (hphase : target.phase = source.phase) : s.SamePhases s' := by
  obtain ⟨hstage, rfl⟩ := release_eq_some.mp hstep
  exact update hstage rfl rfl hphase

theorem notifyOne [Fintype τ] {woken : Option τ} (hstep : s.notifyOne woken = some s') :
    s.SamePhases s' := by
  rcases notifyOne_cases hstep with ⟨u, rfl, hwake⟩ | ⟨_, rfl, _⟩
  · exact move hwake rfl
  · exact ⟨rfl, fun _ => rfl⟩

theorem of_quiet [Fintype τ] {e : QueueEvent τ α} (hquiet : e.Quiet)
    (hstep : s.step e = some s') : s.SamePhases s' := by
  cases e with
  | callPush t msg => exact move hstep rfl
  | lockPush t msg => exact acquire hstep rfl
  | unlockPush t => exact release hstep rfl
  | notify t woken =>
      obtain ⟨mid, hnotify, hmove⟩ := Option.bind_eq_some_iff.mp hstep
      exact (notifyOne hnotify).trans (move hmove rfl)
  | lockPop t => exact acquire hstep rfl
  | test t =>
      apply move hstep
      split <;> rfl
  | sleep t => exact release hstep rfl
  | wakeSpuriously t => exact move hstep rfl
  | branch t =>
      apply move hstep
      split <;> rfl
  | setExit =>
      obtain ⟨_, rfl⟩ := setExit_eq_some.mp hstep
      exact ⟨rfl, fun _ => rfl⟩
  | notifyExit woken =>
      obtain ⟨_, _, mid, hnotify, rfl⟩ := notifyExit_eq_some.mp hstep
      have hmid := notifyOne hnotify
      exact ⟨hmid.que, hmid.phases⟩
  | insert | callPop | remove | ret | retExit => exact hquiet.elim

end SamePhases

end LogQueue

/-! ## Names -/

structure LocalDate where
  year : Nat
  month : Nat
  day : Nat
  deriving DecidableEq, Repr

def twoDigits (n : Nat) : Bytes := if n < 10 then 0x30 :: decimal n else decimal n

/-- `strftime` with `%Y-%m-%d`. -/
def LocalDate.text (date : LocalDate) : Bytes :=
  decimal date.year ++ minus :: twoDigits date.month ++ minus :: twoDigits date.day

def logSuffix : Bytes := [0x5f, 0x72, 0x70, 0x63, 0x2e, 0x6c, 0x6f, 0x67]

def logName (path : Bytes) (date : LocalDate) : Bytes :=
  path ++ 0x2f :: date.text ++ logSuffix

def fileNameSize : Nat := 64

/-- What `snprintf` leaves in `fileName`, up to its terminator. -/
def fileName (path : Bytes) (date : LocalDate) : Bytes :=
  (logName (cStr path) date).take (fileNameSize - 1)

theorem fileName_eq {path : Bytes} {date : LocalDate} (hnul : (0 : UInt8) ∉ path)
    (hfits : (logName path date).length < fileNameSize) :
    fileName path date = logName path date := by
  rw [fileName, cStr_eq_self_iff.mpr hnul, List.take_of_length_le (by omega)]

/-! ## The writer and its files -/

/-- What the writer has got of a file: nothing, the date for its name, the open
file, or also a message for it, which was logged at the moment `since`. -/
inductive FileStage
  | top
  | dated (date : LocalDate)
  | opened (path : Bytes) (date : LocalDate) (name : Bytes)
  | taken (path : Bytes) (date : LocalDate) (name : Bytes) (since : Nat)

namespace FileStage

def isOpened : FileStage → Bool
  | opened _ _ _ => true
  | _ => false

def isTaken : FileStage → Bool
  | taken _ _ _ _ => true
  | _ => false

end FileStage

/-- A message in a file. It was logged at the moment `since` and written before
the moment `upTo`. -/
structure LogRecord where
  msg : Bytes
  file : Bytes
  since : Nat
  upTo : Nat

/-- The log writer, the path and the date in force, and all that were so far. A
moment is a position in `moments`. For each thread `called` is the moment of its
last `log` call, and `queued` has those of the messages in the queue. -/
structure LogFiles (τ : Type) where
  logger : Logger τ
  path : Bytes
  date : LocalDate
  file : FileStage
  moments : List (Bytes × LocalDate)
  called : τ → Nat
  queued : List Nat
  records : List LogRecord

inductive FilesEvent (τ : Type)
  | logger (e : LoggerEvent τ)
  | setPath (path : Bytes)
  /-- The local date changes. -/
  | pass (date : LocalDate)
  /-- `time` and `localtime` -/
  | readDate
  /-- `getPath` and `fopen` -/
  | openFile

namespace LogFiles

variable {τ : Type}

def start (date : LocalDate) : LogFiles τ :=
  { logger := .empty
    path := []
    date
    file := .top
    moments := [([], date)]
    called := fun _ => 0
    queued := []
    records := [] }

def now (s : LogFiles τ) : Nat := s.moments.length - 1

/-- The path and the date were in force together at some moment from this one on. -/
def InForceSince (s : LogFiles τ) (since : Nat) (path : Bytes) (date : LocalDate) : Prop :=
  (path, date) ∈ s.moments.drop since

def change (s : LogFiles τ) (path : Bytes) (date : LocalDate) : LogFiles τ :=
  { s with path, date, moments := s.moments ++ [(path, date)] }

def Opens (s : LogFiles τ) : LoggerEvent τ → Bool
  | .queue (.callPop _) => s.file.isOpened
  | _ => true

section

variable [DecidableEq τ]

def follow (s : LogFiles τ) (logger : Logger τ) : LoggerEvent τ → LogFiles τ
  | .queue (.callPush t _) => { s with logger, called := Function.update s.called t s.now }
  | .queue (.insert t _) => { s with logger, queued := s.queued ++ [s.called t] }
  | .queue (.remove _) =>
    match s.file, s.queued with
    | .opened path date name, since :: queued =>
      { s with logger, file := .taken path date name since, queued }
    | _, _ => { s with logger }
  | .handle =>
    match s.logger.stage, s.file with
    | .holding msg, .taken _ _ name since =>
      if msg.isEmpty then { s with logger }
      else
        { s with
          logger
          file := .top
          records := s.records ++ [⟨msg, name, since, s.moments.length⟩] }
    | _, _ => { s with logger }
  | _ => { s with logger }

/-- One step; `none` where it cannot be taken. A file that cannot be opened ends
the process. -/
def step [Fintype τ] (writer : τ) (s : LogFiles τ) : FilesEvent τ → Option (LogFiles τ)
  | .logger e =>
    if s.Opens e then (s.logger.step writer e).map fun logger => s.follow logger e else none
  | .setPath path => some (s.change path s.date)
  | .pass date => some (s.change s.path date)
  | .readDate =>
    match s.logger.stage, s.file with
    | .looping, .top => some { s with file := .dated s.date }
    | _, _ => none
  | .openFile =>
    match s.file with
    | .dated date => some { s with file := .opened s.path date (fileName s.path date) }
    | _ => none

end

/-- Every message written is in the file of a path and a date that were in force
together at some moment from its `log` call to its writing. -/
def InRightFiles (s : LogFiles τ) : Prop :=
  s.logger.written = s.records.map LogRecord.msg ∧
    ∀ r ∈ s.records, ∃ path date,
      (path, date) ∈ (s.moments.take r.upTo).drop r.since ∧ r.file = logName path date

/-- A file is opened under its full name; and its path and its date were in force
since the first message of the queue was logged, when the file is opened, and
since a message was logged that gets into the empty queue later. -/
def NamesInForce (s : LogFiles τ) : FilesEvent τ → Prop
  | .openFile =>
    match s.file with
    | .dated date =>
      (0 : UInt8) ∉ s.path ∧ (logName s.path date).length < fileNameSize ∧
        ∀ since ∈ s.queued.head?, s.InForceSince since s.path date
    | _ => True
  | .logger (.queue (.insert t _)) =>
    match s.file, s.queued with
    | .opened path date _, [] => s.InForceSince (s.called t) path date
    | _, _ => True
  | _ => True

instance (s : LogFiles τ) (since : Nat) (path : Bytes) (date : LocalDate) :
    Decidable (s.InForceSince since path date) :=
  inferInstanceAs (Decidable (_ ∈ _))

instance (s : LogFiles τ) (e : FilesEvent τ) : Decidable (s.NamesInForce e) := by
  unfold NamesInForce
  split
  · split <;> infer_instance
  · split <;> infer_instance
  · infer_instance

/-! ## The invariant -/

inductive FileFits : FileStage → WriterStage → Phase Bytes → Prop
  | looping {file : FileStage} : file.isTaken = false → FileFits file .looping .away
  | waiting {path : Bytes} {date : LocalDate} {name : Bytes} :
      FileFits (.opened path date name) .inPop .waiting
  | taken {path : Bytes} {date : LocalDate} {name : Bytes} {since : Nat} {msg : Bytes} :
      FileFits (.taken path date name since) .inPop (.taken msg)
  | holding {path : Bytes} {date : LocalDate} {name : Bytes} {since : Nat} {msg : Bytes} :
      FileFits (.taken path date name since) (.holding msg) .away
  | told {path : Bytes} {date : LocalDate} {name : Bytes} :
      FileFits (.opened path date name) (.holding []) .away
  | left {file : FileStage} : FileFits file .left .away

/-- The file has its full name, which is right for the next message in the queue,
or for the one that was taken. -/
def Named (s : LogFiles τ) : Prop :=
  match s.file with
  | .top | .dated _ => True
  | .opened path date name =>
    name = logName path date ∧ ∀ since ∈ s.queued.head?, s.InForceSince since path date
  | .taken path date name since => name = logName path date ∧ s.InForceSince since path date

/-- What every run maintains: how far the writer is, and that it has written what
is recorded. -/
structure Placed (writer : τ) (s : LogFiles τ) : Prop where
  others : ∀ t, t ≠ writer → (s.logger.queue.stage t).phase = .away
  fits : FileFits s.file s.logger.stage (s.logger.queue.stage writer).phase
  tags : s.queued.length = s.logger.queue.que.length
  written : s.logger.written = s.records.map LogRecord.msg

/-- What every run under the condition maintains of the names. -/
structure Right (s : LogFiles τ) : Prop where
  named : s.Named
  filed : ∀ r ∈ s.records, ∃ path date,
    (path, date) ∈ (s.moments.take r.upTo).drop r.since ∧ r.file = logName path date

variable {writer : τ} {s s' : LogFiles τ}

namespace Placed

theorem start (date : LocalDate) : (LogFiles.start date : LogFiles τ).Placed writer where
  others _ _ := rfl
  fits := .looping rfl
  tags := rfl
  written := rfl

/-- At the top of the loop the writer goes on with its file. -/
theorem setFile (h : s.Placed writer) (hopened : s.file.isOpened = false)
    (htaken : s.file.isTaken = false) {file : FileStage} (hfile : file.isTaken = false) :
    Placed writer { s with file } where
  others := h.others
  fits := by
    have hfits := h.fits
    generalize s.file = before at hfits hopened htaken
    generalize s.logger.stage = stage at hfits ⊢
    generalize (s.logger.queue.stage writer).phase = phase at hfits ⊢
    cases hfits with
    | looping => exact .looping hfile
    | left => exact .left
    | waiting | told => cases hopened
    | taken | holding => cases htaken
  tags := h.tags
  written := h.written

theorem eq_writer (h : s.Placed writer) {t : τ} {source : Stage Bytes}
    (hstage : s.logger.queue.stage t = source) (hsource : source.phase ≠ .away) :
    t = writer := by
  by_contra ht
  rw [← hstage] at hsource
  exact hsource (h.others t ht)

theorem keep (h : s.Placed writer)
    (hphases : ∀ t, (s'.logger.queue.stage t).phase = (s.logger.queue.stage t).phase)
    (hstage : s'.logger.stage = s.logger.stage) (hfile : s'.file = s.file)
    (htags : s'.queued.length = s'.logger.queue.que.length)
    (hwritten : s'.logger.written = s.logger.written) (hrecords : s'.records = s.records) :
    s'.Placed writer where
  others t ht := (hphases t).trans (h.others t ht)
  fits := by
    rw [hphases, hstage, hfile]
    exact h.fits
  tags := htags
  written := by rw [hwritten, hrecords, h.written]

theorem leave (h : s.Placed writer) (hphase : (s.logger.queue.stage writer).phase = .away) :
    Placed writer { s with logger := { s.logger with stage := .left } } where
  others := h.others
  fits := by
    rw [show (s.logger.queue.stage writer).phase = .away from hphase]
    exact .left
  tags := h.tags
  written := h.written

theorem write (h : s.Placed writer) (hphase : (s.logger.queue.stage writer).phase = .away)
    (msg name : Bytes) (since upTo : Nat) :
    Placed writer { s with
      logger := { s.logger with written := s.logger.written ++ [msg], stage := .looping }
      file := .top
      records := s.records ++ [⟨msg, name, since, upTo⟩] } where
  others := h.others
  fits := by
    rw [show (s.logger.queue.stage writer).phase = .away from hphase]
    exact .looping rfl
  tags := h.tags
  written := by
    rw [List.map_append, h.written]
    rfl

variable [DecidableEq τ] {target : Stage Bytes}

theorem writerStep (h : s.Placed writer)
    (hstage : s'.logger.queue.stage = Function.update s.logger.queue.stage writer target)
    (hfits : FileFits s'.file s'.logger.stage target.phase)
    (htags : s'.queued.length = s'.logger.queue.que.length)
    (hwritten : s'.logger.written = s'.records.map LogRecord.msg) : s'.Placed writer where
  others t ht := by
    rw [hstage, Function.update_of_ne ht]
    exact h.others t ht
  fits := by rwa [hstage, Function.update_self]
  tags := htags
  written := hwritten

theorem leavePop (h : s.Placed writer) {queue : LogQueue τ Bytes} {t : τ} {msg : Bytes}
    {source : Stage Bytes} (hpop : source.phase ≠ .away)
    (hholds : ∀ {file : FileStage} {loop : WriterStage},
      FileFits file loop source.phase → FileFits file (.holding msg) .away)
    (hstep : s.logger.queue.release t source .outside = some queue) :
    Placed writer { s with logger := { s.logger with queue, stage := .holding msg } } := by
  obtain ⟨hstage, rfl⟩ := LogQueue.release_eq_some.mp hstep
  obtain rfl := h.eq_writer hstage hpop
  have hfits := h.fits
  rw [hstage] at hfits
  exact h.writerStep rfl (hholds hfits) h.tags h.written

variable [Fintype τ] {queue : LogQueue τ Bytes} {t : τ} {msg : Bytes}

theorem insert (h : s.Placed writer) {logger : Logger τ}
    (hstep : s.logger.queue.step (.insert t msg) = some logger.queue)
    (hstage : logger.stage = s.logger.stage) (hwritten : logger.written = s.logger.written) :
    Placed writer { s with logger, queued := s.queued ++ [s.called t] } := by
  obtain ⟨hinserting, hqueue⟩ := LogQueue.move_eq_some.mp hstep
  refine h.keep ?_ hstage rfl ?_ hwritten rfl
  · rw [hqueue]
    apply forall_update (P := fun u (stage : Stage Bytes) =>
      stage.phase = (s.logger.queue.stage u).phase)
    · rw [show s.logger.queue.stage t = .inserting msg from hinserting]
      rfl
    · exact fun _ _ => rfl
  · simp [hqueue, h.tags]

theorem callPop (h : s.Placed writer) (ht : t = writer) (hopened : s.file.isOpened = true)
    (hstep : s.logger.queue.step (.callPop t) = some queue) :
    Placed writer { s with logger := { s.logger with queue, stage := .inPop } } := by
  obtain ⟨_, rfl⟩ := LogQueue.move_eq_some.mp hstep
  subst ht
  refine h.writerStep rfl ?_ h.tags h.written
  cases hfile : s.file with
  | opened p d name => exact .waiting
  | top | dated | taken =>
      rw [hfile] at hopened
      cases hopened

theorem remove (h : s.Placed writer) (hstep : s.logger.queue.step (.remove t) = some queue) :
    Placed writer (s.follow { s.logger with queue } (.queue (.remove t))) := by
  obtain ⟨msg, que, hque, hstage, rfl⟩ := LogQueue.remove_eq_some.mp hstep
  obtain rfl := h.eq_writer hstage (by simp [Stage.phase])
  have hfits := h.fits
  have htags := h.tags
  rw [hstage] at hfits
  rw [hque] at htags
  generalize hloop : s.logger.stage = loop at hfits
  generalize hfile : s.file = file at hfits
  cases hfits with
  | waiting =>
      cases hqueued : s.queued with
      | nil =>
          rw [hqueued] at htags
          cases htags
      | cons since queued =>
          simp only [follow, hfile, hqueued]
          refine h.writerStep rfl ?_ ?_ h.written
          · rw [show s.logger.stage = .inPop from hloop]
            exact .taken
          · simpa [hqueued] using htags

theorem ret (h : s.Placed writer) (hstep : s.logger.queue.step (.ret t msg) = some queue) :
    Placed writer { s with logger := { s.logger with queue, stage := .holding msg } } := by
  refine h.leavePop (by simp [Stage.phase]) (fun {file loop} hfits => ?_) hstep
  cases hfits with
  | taken => exact .holding

theorem retExit (h : s.Placed writer) (hstep : s.logger.queue.step (.retExit t) = some queue) :
    Placed writer { s with logger := { s.logger with queue, stage := .holding [] } } := by
  refine h.leavePop (by simp [Stage.phase]) (fun {file loop} hfits => ?_) hstep
  cases hfits with
  | waiting => exact .told

theorem queueStep (h : s.Placed writer) {e : QueueEvent τ Bytes} {logger : Logger τ}
    (hopens : s.Opens (.queue e) = true)
    (hstep : s.logger.step writer (.queue e) = some logger) :
    (s.follow logger (.queue e)).Placed writer := by
  simp only [Logger.step, Option.ite_none_right_eq_some, Option.map_eq_some_iff] at hstep
  obtain ⟨hallows, queue, hqueue, rfl⟩ := hstep
  have hquiet (hquiet : e.Quiet) {s' : LogFiles τ} (hlogger : s'.logger.queue = queue)
      (hstage : s'.logger.stage = s.logger.stage)
      (hwritten : s'.logger.written = s.logger.written) (hfile : s'.file = s.file)
      (hqueued : s'.queued = s.queued) (hrecords : s'.records = s.records) :
      s'.Placed writer := by
    have hsame := LogQueue.SamePhases.of_quiet hquiet hqueue
    refine h.keep ?_ hstage hfile ?_ hwritten hrecords
    · rw [hlogger]
      exact hsame.phases
    · rw [hqueued, hlogger, hsame.que, h.tags]
  cases e with
  | insert t msg => exact h.insert hqueue rfl rfl
  | callPop t => exact h.callPop hallows.1 hopens hqueue
  | remove t => exact h.remove hqueue
  | ret t msg => exact h.ret hqueue
  | retExit t => exact h.retExit hqueue
  | _ => exact hquiet trivial rfl rfl rfl rfl rfl rfl

theorem handle (h : s.Placed writer) {logger : Logger τ}
    (hstep : s.logger.step writer .handle = some logger) :
    (s.follow logger .handle).Placed writer := by
  unfold Logger.step at hstep
  dsimp only at hstep
  split at hstep
  case h_2 => cases hstep
  case h_1 msg hloop =>
    have hfits := h.fits
    rw [hloop] at hfits
    generalize hfile : s.file = file at hfits
    generalize hphase : (s.logger.queue.stage writer).phase = phase at hfits
    cases hfits with
    | told =>
        have hfollow : s.follow logger .handle = { s with logger } := by
          simp only [follow, hloop, hfile]
        rw [List.isEmpty_nil, if_pos rfl] at hstep
        rw [hfollow, ← Option.some.inj hstep]
        exact h.leave hphase
    | @holding path date name since =>
        split at hstep
        case isTrue hempty =>
          have hfollow : s.follow logger .handle = { s with logger } := by
            simp only [follow, hloop, hfile, if_pos hempty]
          rw [hfollow, ← Option.some.inj hstep]
          exact h.leave hphase
        case isFalse hne =>
          simp only [follow, hloop, hfile, if_neg hne]
          rw [← Option.some.inj hstep]
          exact h.write hphase msg name since s.moments.length

theorem step (h : s.Placed writer) {e : FilesEvent τ} (hstep : s.step writer e = some s') :
    s'.Placed writer := by
  cases e with
  | logger e =>
      rw [LogFiles.step, Option.ite_none_right_eq_some, Option.map_eq_some_iff] at hstep
      obtain ⟨hopens, logger, hlogger, rfl⟩ := hstep
      cases e with
      | queue e => exact h.queueStep hopens hlogger
      | handle => exact h.handle hlogger
  | setPath path | pass date =>
      rw [← Option.some.inj hstep]
      exact ⟨h.others, h.fits, h.tags, h.written⟩
  | readDate =>
      unfold LogFiles.step at hstep
      dsimp only at hstep
      split at hstep
      case h_1 hfile =>
        rw [← Option.some.inj hstep]
        exact h.setFile (by rw [hfile]; rfl) (by rw [hfile]; rfl) rfl
      case h_2 => cases hstep
  | openFile =>
      unfold LogFiles.step at hstep
      dsimp only at hstep
      split at hstep
      case h_1 date hfile =>
        rw [← Option.some.inj hstep]
        exact h.setFile (by rw [hfile]; rfl) (by rw [hfile]; rfl) rfl
      case h_2 => cases hstep

end Placed

namespace Right

theorem start (date : LocalDate) : (LogFiles.start date : LogFiles τ).Right where
  named := trivial
  filed := by simp [LogFiles.start]

/-- A new moment takes nothing away from the old ones. -/
theorem change (h : s.Right) (path : Bytes) (date : LocalDate) : (s.change path date).Right where
  named := by
    have hmono {since : Nat} {p : Bytes} {d : LocalDate} (hforce : s.InForceSince since p d) :
        (s.change path date).InForceSince since p d := by
      rw [InForceSince, LogFiles.change, List.drop_append]
      exact List.mem_append_left _ hforce
    have hnamed := h.named
    unfold Named at hnamed ⊢
    cases hfile : s.file with
    | top | dated => simp only [LogFiles.change, hfile]
    | opened p d name =>
        simp only [LogFiles.change, hfile] at hnamed ⊢
        exact ⟨hnamed.1, fun since hsince => hmono (hnamed.2 since hsince)⟩
    | taken p d name since =>
        simp only [LogFiles.change, hfile] at hnamed ⊢
        exact ⟨hnamed.1, hmono hnamed.2⟩
  filed r hr := by
    obtain ⟨p, d, hmem, hname⟩ := h.filed r hr
    refine ⟨p, d, ?_, hname⟩
    rw [LogFiles.change, List.take_append, List.drop_append]
    exact List.mem_append_left _ hmem

theorem keep (h : s.Right) (hfile : s'.file = s.file) (hqueued : s'.queued = s.queued)
    (hmoments : s'.moments = s.moments) (hrecords : s'.records = s.records) : s'.Right where
  named := by
    have hnamed := h.named
    unfold Named InForceSince at hnamed ⊢
    rwa [hfile, hqueued, hmoments]
  filed := by
    rw [hrecords, hmoments]
    exact h.filed

theorem insert (h : s.Right) {t : τ} {msg : Bytes}
    (hok : s.NamesInForce (.logger (.queue (.insert t msg)))) (logger : Logger τ) :
    Right { s with logger, queued := s.queued ++ [s.called t] } where
  named := by
    have hnamed := h.named
    unfold Named NamesInForce at *
    cases hfile : s.file with
    | top | dated => trivial
    | opened p d name =>
        simp only [hfile] at hnamed hok ⊢
        refine ⟨hnamed.1, ?_⟩
        cases hqueued : s.queued with
        | nil =>
            rw [hqueued] at hok
            rintro since ⟨⟩
            exact hok
        | cons first rest =>
            rw [hqueued] at hnamed
            exact hnamed.2
    | taken p d name since =>
        simp only [hfile] at hnamed ⊢
        exact hnamed
  filed := h.filed

theorem take (h : s.Right) {path name : Bytes} {date : LocalDate} {since : Nat}
    {queued : List Nat} (hfile : s.file = .opened path date name)
    (hqueued : s.queued = since :: queued) (logger : Logger τ) :
    Right { s with logger, file := .taken path date name since, queued } where
  named := by
    have hnamed := h.named
    simp only [Named, hfile, hqueued] at hnamed
    exact ⟨hnamed.1, hnamed.2 since rfl⟩
  filed := h.filed

theorem write (h : s.Right) {path name : Bytes} {date : LocalDate} {since : Nat}
    (hfile : s.file = .taken path date name since) (msg : Bytes) (logger : Logger τ) :
    Right { s with
      logger
      file := .top
      records := s.records ++ [⟨msg, name, since, s.moments.length⟩] } where
  named := trivial
  filed := by
    have hnamed := h.named
    simp only [Named, hfile] at hnamed
    intro r hr
    rcases List.mem_append.mp hr with hold | hnew
    · exact h.filed r hold
    · rw [List.mem_singleton.mp hnew]
      refine ⟨path, date, ?_, hnamed.1⟩
      rw [List.take_length]
      exact hnamed.2

variable [DecidableEq τ]

theorem follow (h : s.Right) {e : LoggerEvent τ} (hok : s.NamesInForce (.logger e))
    (logger : Logger τ) : (s.follow logger e).Right := by
  unfold LogFiles.follow
  split
  · exact h.keep rfl rfl rfl rfl
  · exact h.insert hok logger
  · split
    case h_1 hfile hqueued => exact h.take hfile hqueued logger
    case h_2 => exact h.keep rfl rfl rfl rfl
  · split
    case h_1 msg _ _ _ _ _ hfile =>
      split
      · exact h.keep rfl rfl rfl rfl
      · exact h.write hfile msg logger
    case h_2 => exact h.keep rfl rfl rfl rfl
  · exact h.keep rfl rfl rfl rfl

theorem step [Fintype τ] (h : s.Right) {e : FilesEvent τ} (hok : s.NamesInForce e)
    (hstep : s.step writer e = some s') : s'.Right := by
  cases e with
  | logger e =>
      rw [LogFiles.step, Option.ite_none_right_eq_some, Option.map_eq_some_iff] at hstep
      obtain ⟨_, logger, _, rfl⟩ := hstep
      exact h.follow hok logger
  | setPath path =>
      rw [← Option.some.inj hstep]
      exact h.change path s.date
  | pass date =>
      rw [← Option.some.inj hstep]
      exact h.change s.path date
  | readDate =>
      unfold LogFiles.step at hstep
      dsimp only at hstep
      split at hstep
      case h_1 =>
        rw [← Option.some.inj hstep]
        exact ⟨trivial, h.filed⟩
      case h_2 => cases hstep
  | openFile =>
      unfold LogFiles.step at hstep
      dsimp only at hstep
      split at hstep
      case h_1 date hfile =>
        rw [← Option.some.inj hstep]
        simp only [NamesInForce, hfile] at hok
        exact ⟨⟨fileName_eq hok.1 hok.2.1, hok.2.2⟩, h.filed⟩
      case h_2 => cases hstep

end Right

/-! ## Every run -/

/-- In every run in which the files are opened under their full names, and for
paths and dates that were in force since the next message was logged, all
messages are in the right files. -/
theorem rightFiles_of_reaches [DecidableEq τ] [Fintype τ] (writer : τ) (date : LocalDate)
    (h : Reaches (LogFiles.step writer) NamesInForce (start date) s) : s.InRightFiles := by
  have hinv := h.invariant (I := fun s => s.Placed writer ∧ s.Right) ⟨.start date, .start date⟩
    fun ⟨hplaced, hright⟩ hok hstep => ⟨hplaced.step hstep, hright.step hok hstep⟩
  exact ⟨hinv.1.written, hinv.2.filed⟩

def messageSteps (msg : Bytes) : List (FilesEvent Bool) :=
  (Logger.logSteps true msg ++ Logger.takeSteps msg).map .logger

def mayDay : LocalDate := ⟨2025, 5, 1⟩

theorem rightFiles_path_first :
    ∃ s, run (LogFiles.step false) (start mayDay)
        ([.setPath [0x6c], .readDate, .openFile] ++ messageSteps [0x61]) = some s ∧
      s.records.map LogRecord.file = [logName [0x6c] mayDay] ∧ s.InRightFiles := by
  have hchecked : run (fun s e => if s.NamesInForce e then LogFiles.step false s e else none)
      (start mayDay) ([.setPath [0x6c], .readDate, .openFile] ++ messageSteps [0x61]) =
        some _ := rfl
  exact ⟨_, rfl, rfl, rightFiles_of_reaches false mayDay (.of_checked_run hchecked)⟩

/-- The path is set, or the day passes, after the file is opened; or the path has
46 bytes. -/
theorem not_rightFiles_stale_or_cut :
    (∃ s, run (LogFiles.step false) (start mayDay)
        ([.readDate, .openFile, .setPath [0x6c]] ++ messageSteps [0x61]) = some s ∧
      ¬s.InRightFiles) ∧
    (∃ s, run (LogFiles.step false) (start mayDay)
        ([.readDate, .openFile, .pass ⟨2025, 5, 2⟩] ++ messageSteps [0x61]) = some s ∧
      ¬s.InRightFiles) ∧
    ∃ s, run (LogFiles.step false) (start mayDay)
        ([.setPath (List.replicate 46 0x6c), .readDate, .openFile] ++ messageSteps [0x61]) =
          some s ∧
      ¬s.InRightFiles := by
  refine ⟨⟨_, rfl, fun h => ?_⟩, ⟨_, rfl, fun h => ?_⟩, ⟨_, rfl, fun h => ?_⟩⟩
  all_goals
    obtain ⟨path, date, hmem, hname⟩ := h.2 _ List.mem_cons_self
    obtain ⟨rfl, rfl⟩ := Prod.mk.inj (List.mem_singleton.mp hmem)
    exact absurd hname (by decide)

end LogFiles

end KitRpc.Log

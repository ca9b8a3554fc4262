import KitRpc.Cpp.Text
import KitRpc.Log.Files
import KitRpc.Provider.Dispatch
import Mathlib.Data.Nat.Digits.Defs
/-!
# Log records

What `RPC_INFO` and `RPC_ERR` make of their arguments. The text goes through a
buffer of 512 bytes and the record through one of 1024, so a long one loses its
end and with it its newline; and what a peer sent is part of some texts.
-/

namespace KitRpc.Log

open KitRpc.Foundation KitRpc.Cpp KitRpc.Provider

/-! ## The macros -/

/-- `struct tm`. The year is an `int` counted from 1900. -/
structure LocalTime where
  date : LocalDate
  hour : Nat
  minute : Nat
  second : Nat
  year_lt : date.year < 2 ^ 31 + 1900
  month_le : date.month ≤ 12
  day_le : date.day ≤ 31
  hour_lt : hour < 24
  minute_lt : minute < 60
  second_le : second ≤ 60

/-- `strftime` with `%Y-%m-%d %H:%M:%S`. -/
def LocalTime.text (time : LocalTime) : Bytes :=
  time.date.text ++ ascii " " ++ twoDigits time.hour ++ ascii ":" ++ twoDigits time.minute ++
    ascii ":" ++ twoDigits time.second

def timeBufSize : Nat := 32

/-- The string that `strftime` leaves in `timeBuf`, which it fills only where the
text fits. -/
def LocalTime.timeBuf (time : LocalTime) : Bytes :=
  if time.text.length < timeBufSize then time.text else []

inductive Level
  | INFO
  | ERROR
  deriving DecidableEq, Repr

def Level.text : Level → Bytes
  | .INFO => ascii "INFO"
  | .ERROR => ascii "ERROR"

/-- No control characters. -/
def Printable (s : Bytes) : Prop := ∀ c ∈ s, 0x20 ≤ c

instance (s : Bytes) : Decidable (Printable s) :=
  inferInstanceAs (Decidable (∀ c ∈ s, 0x20 ≤ c))

/-- One use of a macro at a place in the source, at a local time; `text` is what
the format and its arguments print. -/
structure RpcLog where
  level : Level
  time : LocalTime
  file : Bytes
  line : Nat
  text : Bytes
  printable : Printable file

namespace RpcLog

def formatBufSize : Nat := 512

def bufSize : Nat := 1024

variable (r : RpcLog)

def header : Bytes :=
  ascii "[" ++ r.time.timeBuf ++ ascii "][" ++ r.level.text ++ ascii "][" ++ r.file ++ ascii " #" ++
    decimal r.line ++ ascii "] "

def formatBuf : Bytes := cStr (r.text.take (formatBufSize - 1))

def buf : Bytes := cStr ((r.header ++ r.formatBuf).take (bufSize - 1))

end RpcLog

def RPC_INFO (time : LocalTime) (file : Bytes) (line : Nat) (text : Bytes)
    (printable : Printable file) : RpcLog :=
  ⟨.INFO, time, file, line, text, printable⟩

def RPC_ERR (time : LocalTime) (file : Bytes) (line : Nat) (text : Bytes)
    (printable : Printable file) : RpcLog :=
  ⟨.ERROR, time, file, line, text, printable⟩

/-! ## Whole records -/

theorem length_decimal_le {n k : Nat} (hk : 0 < k) (h : n < 10 ^ k) : (decimal n).length ≤ k := by
  rw [decimal, List.length_map]
  exact Nat.toDigits_length 10 n k hk h

theorem length_twoDigits_le {n : Nat} (h : n < 10 ^ 2) : (twoDigits n).length ≤ 2 := by
  unfold twoDigits
  split
  case isTrue hlt => exact Nat.succ_le_succ (length_decimal_le (by omega) (by omega))
  case isFalse => exact length_decimal_le (by omega) h

theorem LocalTime.length_text_lt (time : LocalTime) : time.text.length < timeBufSize := by
  have hyear : time.date.year < 10 ^ 10 := time.year_lt.trans (by decide)
  have := length_decimal_le (by omega) hyear
  have := length_twoDigits_le (n := time.date.month) (Nat.lt_of_le_of_lt time.month_le (by decide))
  have := length_twoDigits_le (n := time.date.day) (Nat.lt_of_le_of_lt time.day_le (by decide))
  have := length_twoDigits_le (n := time.hour) (time.hour_lt.trans (by decide))
  have := length_twoDigits_le (n := time.minute) (time.minute_lt.trans (by decide))
  have := length_twoDigits_le (n := time.second) (Nat.lt_of_le_of_lt time.second_le (by decide))
  have : (ascii " ").length = 1 := rfl
  have : (ascii ":").length = 1 := rfl
  simp only [text, LocalDate.text, List.length_append, List.length_cons, timeBufSize]
  omega

theorem LocalTime.timeBuf_eq (time : LocalTime) : time.timeBuf = time.text :=
  if_pos time.length_text_lt

namespace Printable

variable {s t : Bytes}

theorem append_iff : Printable (s ++ t) ↔ Printable s ∧ Printable t := List.forall_mem_append

theorem notMem (h : Printable s) {c : UInt8} (hc : c < 0x20) : c ∉ s :=
  fun hmem => UInt8.not_le.mpr hc (h c hmem)

theorem decimal (n : Nat) : Printable (decimal n) := by
  intro c hc
  have hdigit := isDigit_bounds (isDigit_of_mem_decimal hc)
  exact UInt8.le_trans (by decide) hdigit.1

theorem twoDigits (n : Nat) : Printable (twoDigits n) := by
  unfold Log.twoDigits
  split
  · exact List.forall_mem_cons.mpr ⟨by decide, decimal n⟩
  · exact decimal n

theorem date (date : LocalDate) : Printable date.text := by
  have hminus (n : Nat) : Printable (minus :: Log.twoDigits n) :=
    List.forall_mem_cons.mpr ⟨by decide, twoDigits n⟩
  exact append_iff.mpr
    ⟨append_iff.mpr ⟨decimal date.year, hminus date.month⟩, hminus date.day⟩

theorem time (time : LocalTime) : Printable time.text := by
  simp only [LocalTime.text, append_iff]
  have hcolon : Printable (ascii ":") := by decide +kernel
  exact ⟨⟨⟨⟨⟨⟨date time.date, by decide +kernel⟩, twoDigits time.hour⟩, hcolon⟩,
    twoDigits time.minute⟩, hcolon⟩, twoDigits time.second⟩

theorem level (level : Level) : Printable level.text := by
  cases level <;> decide +kernel

theorem header (r : RpcLog) : Printable r.header := by
  simp only [RpcLog.header, LocalTime.timeBuf_eq, append_iff]
  have hbracket : Printable (ascii "][") := by decide +kernel
  exact ⟨⟨⟨⟨⟨⟨⟨⟨by decide +kernel, time r.time⟩, hbracket⟩, level r.level⟩, hbracket⟩,
    r.printable⟩, by decide +kernel⟩, decimal r.line⟩, by decide +kernel⟩

end Printable

namespace RpcLog

variable (r : RpcLog)

theorem notMem_buf : (0 : UInt8) ∉ r.buf := notMem_cStr _

theorem buf_eq : r.buf = (r.header ++ r.formatBuf).take (bufSize - 1) := by
  rw [buf, cStr_eq_self_iff]
  intro hmem
  rcases List.mem_append.mp (List.mem_of_mem_take hmem) with hheader | htext
  · exact (Printable.header r).notMem (by decide) hheader
  · exact notMem_cStr _ htext

theorem buf_ne_nil : r.buf ≠ [] := by
  rw [buf_eq]
  simp [header, bufSize, ascii]

/-- The record is whole exactly if the text has no NUL, is shorter than its
buffer, and the record is shorter than its own. -/
theorem buf_eq_iff :
    r.buf = r.header ++ r.text ↔
      (0 : UInt8) ∉ r.text ∧ r.text.length < formatBufSize ∧
        (r.header ++ r.text).length < bufSize := by
  constructor
  · intro h
    have hnul : (0 : UInt8) ∉ r.text := by
      intro hmem
      apply r.notMem_buf
      rw [h]
      exact List.mem_append_right _ hmem
    have hlength := congrArg List.length (r.buf_eq.symm.trans h)
    have hformat : r.formatBuf.length ≤ formatBufSize - 1 := by
      rw [formatBuf]
      exact (List.takeWhile_prefix _).length_le.trans (List.length_take_le _ _)
    simp only [List.length_take, List.length_append] at hlength ⊢
    simp only [formatBufSize, bufSize] at hlength hformat ⊢
    exact ⟨hnul, by omega, by omega⟩
  · rintro ⟨hnul, htext, hsize⟩
    have hformat : r.formatBuf = r.text := by
      rw [formatBuf, List.take_of_length_le (by omega), cStr_eq_self_iff]
      exact hnul
    rw [buf_eq, hformat, List.take_of_length_le (by omega)]

def OneLine (msg body : Bytes) : Prop := newline ∉ body ∧ msg = body ++ [newline]

theorem oneLine_iff {body : Bytes} (htext : r.text = body ++ [newline])
    (hnul : (0 : UInt8) ∉ body) :
    OneLine r.buf (r.header ++ body) ↔
      newline ∉ body ∧ body.length + 1 < formatBufSize ∧
        (r.header ++ body).length + 1 < bufSize := by
  have hnul' : (0 : UInt8) ∉ r.text := by
    rw [htext]
    simp [hnul, newline]
  have hline : r.header ++ body ++ [newline] = r.header ++ r.text := by
    rw [htext, List.append_assoc]
  have hheader : newline ∉ r.header := (Printable.header r).notMem (by decide)
  rw [OneLine, hline, r.buf_eq_iff, and_iff_right hnul', ← hline, htext]
  simp only [List.mem_append, List.length_append, List.length_singleton, hheader, false_or]

theorem getlines_of_oneLine {msgs : List Bytes} (h : ∀ msg ∈ msgs, ∃ body, OneLine msg body) :
    (getlines msgs.flatten).map (· ++ [newline]) = msgs := by
  induction msgs with
  | nil => rfl
  | cons msg msgs ih =>
      obtain ⟨⟨body, hbody, rfl⟩, hrest⟩ := List.forall_mem_cons.mp h
      rw [List.flatten_cons, List.append_assoc, List.singleton_append,
        getlines_append_newline hbody, List.map_cons, ih hrest]

end RpcLog

/-! ## Requests that are turned down -/

section

variable {α ρ μ κ : Type}

/-- What `handleRpcRequest` logs of a request it turns down. -/
def rejection (call : Call) : Dispatch α ρ → Option Bytes
  | .noService => some (cStr call.1.serviceName ++ ascii " dont exist!\n")
  | .noMethod =>
    some (cStr call.1.serviceName ++ ascii "." ++ cStr call.1.methodName ++
      ascii " dont exist!\n")
  | .argsRejected =>
    some (cStr call.1.serviceName ++ ascii "." ++ cStr call.1.methodName ++
      ascii " args parse error!\n")
  | .invoked _ _ _ => none

def subject (call : Call) : Dispatch α ρ → Bytes
  | .noService => call.1.serviceName
  | _ => call.1.serviceName ++ ascii "." ++ call.1.methodName

def complaint : Dispatch α ρ → Bytes
  | .argsRejected => ascii " args parse error!"
  | _ => ascii " dont exist!"

theorem rejection_eq {call : Call} {d : Dispatch α ρ} {text : Bytes}
    (h : rejection call d = some text) (hnul : (0 : UInt8) ∉ subject call d) :
    text = subject call d ++ complaint d ++ [newline] := by
  have hline (names text : Bytes) : names ++ (text ++ [newline]) = names ++ text ++ [newline] :=
    (List.append_assoc _ _ _).symm
  cases d with
  | invoked => cases h
  | noService =>
      have hservice : (0 : UInt8) ∉ call.1.serviceName := hnul
      rw [← Option.some.inj h, cStr_eq_self_iff.mpr hservice]
      exact hline _ (ascii " dont exist!")
  | noMethod =>
      simp only [subject, List.mem_append, not_or] at hnul
      rw [← Option.some.inj h, cStr_eq_self_iff.mpr hnul.1.1, cStr_eq_self_iff.mpr hnul.2]
      exact hline _ (ascii " dont exist!")
  | argsRejected =>
      simp only [subject, List.mem_append, not_or] at hnul
      rw [← Option.some.inj h, cStr_eq_self_iff.mpr hnul.1.1, cStr_eq_self_iff.mpr hnul.2]
      exact hline _ (ascii " args parse error!")

theorem complaint_printable (d : Dispatch α ρ) : Printable (complaint d) := by
  cases d with
  | argsRejected => exact (by decide +kernel : Printable (ascii " args parse error!"))
  | _ => exact (by decide +kernel : Printable (ascii " dont exist!"))

/-- A rejected request shows in the log as one line with its names exactly if
these have no NUL and no newline, which a peer may send, and fit the buffers. -/
theorem rejection_oneLine_iff (api : GPService α ρ μ κ) (servicesMap : ServicesMap α)
    {call : Call} {r : RpcLog}
    (h : rejection call (dispatch api servicesMap call) = some r.text) :
    let names := subject call (dispatch api servicesMap call)
    let body := names ++ complaint (dispatch api servicesMap call)
    RpcLog.OneLine r.buf (r.header ++ body) ↔
      (0 : UInt8) ∉ names ∧ newline ∉ names ∧ body.length + 1 < RpcLog.formatBufSize ∧
        (r.header ++ body).length + 1 < RpcLog.bufSize := by
  generalize dispatch api servicesMap call = d at h
  intro names body
  have hcomplaint := complaint_printable d
  have hplain {c : UInt8} (hc : c < 0x20) : c ∉ body ↔ c ∉ names := by
    simp only [body, List.mem_append, not_or]
    exact and_iff_left (hcomplaint.notMem hc)
  have htext (hnul : (0 : UInt8) ∉ names) : r.text = body ++ [newline] := rejection_eq h hnul
  constructor
  · intro hline
    have hnul : (0 : UInt8) ∉ names := by
      intro hmem
      apply r.notMem_buf
      rw [hline.2]
      simp [body, hmem]
    have hsizes := (r.oneLine_iff (htext hnul) ((hplain (by decide)).mpr hnul)).mp hline
    rw [hplain (by decide)] at hsizes
    exact ⟨hnul, hsizes⟩
  · rintro ⟨hnul, hsizes⟩
    rw [← hplain (c := newline) (by decide)] at hsizes
    exact (r.oneLine_iff (htext hnul) ((hplain (by decide)).mpr hnul)).mpr hsizes

end

def mayNoon : LocalTime where
  date := LogFiles.mayDay
  hour := 12
  minute := 0
  second := 0
  year_lt := by decide
  month_le := by decide
  day_le := by decide
  hour_lt := by decide
  minute_lt := by decide
  second_le := by decide

def unknownService (name : Bytes) : RpcLog :=
  RPC_ERR mayNoon (ascii "rpc_provider.cpp") 158 (cStr name ++ ascii " dont exist!\n")
    (by decide +kernel)

/-- The name of a service, and one with a newline in it. -/
theorem rejection_oneLine_iff_unknown :
    let plain := unknownService (ascii "Orders")
    let broken := unknownService (ascii "Orders\nPayments")
    RpcLog.OneLine plain.buf (plain.header ++ ascii "Orders dont exist!") ∧
      ¬ RpcLog.OneLine broken.buf (broken.header ++ ascii "Orders\nPayments dont exist!") := by
  have hplain := @rejection_oneLine_iff _ _ _ _ echoService [] (⟨ascii "Orders", [], 0⟩, [])
    (unknownService (ascii "Orders")) rfl
  have hbroken := @rejection_oneLine_iff _ _ _ _ echoService []
    (⟨ascii "Orders\nPayments", [], 0⟩, []) (unknownService (ascii "Orders\nPayments")) rfl
  refine ⟨hplain.mpr (by decide +kernel), fun hline => ?_⟩
  exact (hbroken.mp hline).2.1 (by decide +kernel)

/-! ## What enters the queue -/

def Stage.brought {α : Type} : Stage α → Option α
  | pushing msg | inserting msg => some msg
  | _ => none

namespace LogQueue

variable {τ α : Type}

structure All (P : α → Prop) (s : LogQueue τ α) : Prop where
  brought : ∀ t, ∀ msg ∈ (s.stage t).brought, P msg
  pushed : ∀ msg ∈ s.pushed, P msg

namespace All

variable {P : α → Prop} {s s' : LogQueue τ α} {t : τ} {source target : Stage α}
variable [DecidableEq τ]

theorem update (h : s.All P) (hstage : s'.stage = Function.update s.stage t target)
    (hbrought : ∀ msg ∈ target.brought, P msg) (hpushed : ∀ msg ∈ s'.pushed, P msg) :
    s'.All P where
  brought := by
    rw [hstage]
    exact forall_update (P := fun _ (stage : Stage α) => ∀ msg ∈ stage.brought, P msg) hbrought
      fun u _ => h.brought u
  pushed := hpushed

variable [DecidableEq α]

theorem move (h : s.All P) (hstep : s.move t source target = some s')
    (hbrought : ∀ msg ∈ target.brought, P msg) : s'.All P := by
  obtain ⟨_, rfl⟩ := move_eq_some.mp hstep
  exact h.update rfl hbrought h.pushed

theorem acquire (h : s.All P) (hstep : s.acquire t source target = some s')
    (hbrought : ∀ msg ∈ target.brought, msg ∈ source.brought) : s'.All P := by
  obtain ⟨_, hstage, rfl⟩ := acquire_eq_some.mp hstep
  refine h.update rfl (fun msg hmsg => h.brought t msg ?_) h.pushed
  rw [hstage]
  exact hbrought msg hmsg

theorem release (h : s.All P) (hstep : s.release t source target = some s')
    (hbrought : target.brought = none) : s'.All P := by
  obtain ⟨_, rfl⟩ := release_eq_some.mp hstep
  exact h.update rfl (by simp [hbrought]) h.pushed

theorem notifyOne [Fintype τ] (h : s.All P) {woken : Option τ}
    (hstep : s.notifyOne woken = some s') : s'.All P := by
  rcases notifyOne_cases hstep with ⟨u, rfl, hwake⟩ | ⟨_, rfl, _⟩
  · exact h.move hwake (by simp [Stage.brought])
  · exact h

theorem step [Fintype τ] (h : s.All P) {e : QueueEvent τ α}
    (hcall : ∀ t msg, e = .callPush t msg → P msg) (hstep : s.step e = some s') : s'.All P := by
  have hnone {stage : Stage α} (hbrought : stage.brought = none) :
      ∀ msg ∈ stage.brought, P msg := by
    simp [hbrought]
  cases e with
  | callPush t msg => exact h.move hstep (by simpa [Stage.brought] using hcall t msg rfl)
  | lockPush t msg => exact h.acquire hstep fun _ => id
  | insert t msg =>
      obtain ⟨hstage, rfl⟩ := move_eq_some.mp hstep
      apply h.update rfl (hnone rfl)
      rw [List.forall_mem_append, List.forall_mem_singleton]
      refine ⟨h.pushed, h.brought t msg ?_⟩
      rw [show s.stage t = .inserting msg from hstage]
      rfl
  | unlockPush t => exact h.release hstep rfl
  | notify t woken =>
      obtain ⟨mid, hnotify, hmove⟩ := Option.bind_eq_some_iff.mp hstep
      exact (h.notifyOne hnotify).move hmove (hnone rfl)
  | callPop t => exact h.move hstep (hnone rfl)
  | lockPop t => exact h.acquire hstep (by simp [Stage.brought])
  | test t =>
      apply h.move hstep
      split <;> exact hnone rfl
  | sleep t => exact h.release hstep rfl
  | wakeSpuriously t => exact h.move hstep (hnone rfl)
  | branch t =>
      apply h.move hstep
      split <;> exact hnone rfl
  | remove t =>
      obtain ⟨_, _, _, _, rfl⟩ := remove_eq_some.mp hstep
      exact h.update rfl (hnone rfl) h.pushed
  | ret t msg => exact h.release hstep rfl
  | retExit t => exact h.release hstep rfl
  | setExit =>
      obtain ⟨_, rfl⟩ := setExit_eq_some.mp hstep
      exact ⟨h.brought, h.pushed⟩
  | notifyExit woken =>
      obtain ⟨_, _, mid, hnotify, rfl⟩ := notifyExit_eq_some.mp hstep
      have hmid := h.notifyOne hnotify
      exact ⟨hmid.brought, hmid.pushed⟩

end All

end LogQueue

/-! ## Every run -/

namespace Logger

variable {τ : Type}

/-- `log` is called by the macros only, and the queue lives on. -/
def OnlyRecords (_ : Logger τ) : LoggerEvent τ → Prop
  | .queue (.callPush _ msg) => ∃ r : RpcLog, r.buf = msg
  | .queue .setExit => False
  | _ => True

structure Recorded (s : Logger τ) : Prop where
  records : s.queue.All fun msg => ∃ r : RpcLog, r.buf = msg
  untold : s.told = none

variable {writer : τ} {s s' : Logger τ} {e : LoggerEvent τ}

namespace Recorded

theorem empty : (Logger.empty : Logger τ).Recorded where
  records := ⟨by simp [Logger.empty, LogQueue.empty, Stage.brought],
    by simp [Logger.empty, LogQueue.empty]⟩
  untold := rfl

variable [DecidableEq τ] [Fintype τ]

theorem step (h : s.Recorded) (hok : s.OnlyRecords e) (hstep : s.step writer e = some s') :
    s'.Recorded := by
  cases e with
  | handle =>
      unfold Logger.step at hstep
      dsimp only at hstep
      split at hstep
      case h_1 =>
        split at hstep
        all_goals
          rw [← Option.some.inj hstep]
          exact ⟨h.records, h.untold⟩
      case h_2 => cases hstep
  | queue e =>
      rw [Logger.step, Option.ite_none_right_eq_some, Option.map_eq_some_iff] at hstep
      obtain ⟨_, queue, hqueue, rfl⟩ := hstep
      have hall := h.records.step (fun t msg he => by
        subst he
        exact hok) hqueue
      cases e with
      | setExit => exact hok.elim
      | _ => exact ⟨hall, h.untold⟩

/-- Records are not empty, so a step that brings one is careful. -/
theorem careful (h : s.Recorded) (hstep : s.step writer e = some s') : s.Careful e := by
  cases e with
  | handle => trivial
  | queue e =>
      rw [Logger.step, Option.ite_none_right_eq_some, Option.map_eq_some_iff] at hstep
      obtain ⟨_, queue, hqueue, rfl⟩ := hstep
      cases e with
      | insert t msg =>
          rintro rfl
          obtain ⟨hstage, _⟩ := LogQueue.move_eq_some.mp hqueue
          obtain ⟨r, hr⟩ := h.records.brought t [] (by
            rw [show s.queue.stage t = .inserting [] from hstage]
            rfl)
          exact absurd hr r.buf_ne_nil
      | branch t =>
          intro before hbefore
          rw [h.untold] at hbefore
          cases hbefore
      | _ => trivial

end Recorded

end Logger

namespace LogFiles

variable {τ : Type}

def OnlyRecords (s : LogFiles τ) : FilesEvent τ → Prop
  | .logger e => s.logger.OnlyRecords e
  | _ => True

def messagesIn (s : LogFiles τ) (file : Bytes) : List Bytes :=
  (s.records.filter fun r => r.file = file).map LogRecord.msg

variable [DecidableEq τ] {s s' : LogFiles τ}

theorem logger_follow (s : LogFiles τ) (logger : Logger τ) (e : LoggerEvent τ) :
    (s.follow logger e).logger = logger := by
  unfold follow
  split
  case h_4 => split <;> [split <;> rfl; rfl]
  case h_3 => split <;> rfl
  all_goals rfl

variable [Fintype τ]

theorem logger_of_step {writer : τ} {e : FilesEvent τ} (hstep : s.step writer e = some s') :
    (∃ e', e = .logger e' ∧ s.logger.step writer e' = some s'.logger) ∨ s'.logger = s.logger := by
  cases e with
  | logger e =>
      rw [LogFiles.step, Option.ite_none_right_eq_some, Option.map_eq_some_iff] at hstep
      obtain ⟨_, logger, hlogger, rfl⟩ := hstep
      rw [logger_follow]
      exact .inl ⟨e, rfl, hlogger⟩
  | setPath | pass =>
      rw [← Option.some.inj hstep]
      exact .inr rfl
  | readDate | openFile =>
      unfold LogFiles.step at hstep
      dsimp only at hstep
      split at hstep
      · rw [← Option.some.inj hstep]
        exact .inr rfl
      · cases hstep

/-- As long as the queue lives, the writer never leaves its loop and loses no
record, however the threads, the path and the date go on; and if each record is
one line, what it has written is read back line by line from every file. -/
theorem lines_of_reaches (writer : τ) (date : LocalDate)
    (h : Reaches (LogFiles.step writer) OnlyRecords (start date) s) :
    s.logger.stage ≠ .left ∧
      s.logger.queue.pushed =
        s.records.map LogRecord.msg ++ s.logger.inHand writer ++ s.logger.queue.que ∧
      ((∀ msg ∈ s.logger.queue.pushed, ∃ body, RpcLog.OneLine msg body) → ∀ file,
        (getlines (s.messagesIn file).flatten).map (· ++ [newline]) = s.messagesIn file) := by
  have hinv := h.invariant
    (I := fun s => s.Placed writer ∧ s.logger.Inv writer ∧ s.logger.Recorded)
    ⟨.start date, .empty, .empty⟩ fun ⟨hplaced, hinv, hrecords⟩ hok hstep => by
      refine ⟨hplaced.step hstep, ?_⟩
      rcases logger_of_step hstep with ⟨e, rfl, hlogger⟩ | hsame
      · exact ⟨hinv.step (hrecords.careful hlogger) hlogger, hrecords.step hok hlogger⟩
      · rw [hsame]
        exact ⟨hinv, hrecords⟩
  obtain ⟨hplaced, hlogger, hrecords⟩ := hinv
  obtain ⟨hstage, hpushed⟩ := hlogger.writesAll.2 hrecords.untold
  rw [hplaced.written] at hpushed
  refine ⟨hstage, hpushed, fun hlines file => RpcLog.getlines_of_oneLine fun msg hmsg => ?_⟩
  obtain ⟨r, hr, rfl⟩ := List.mem_map.mp hmsg
  apply hlines
  rw [hpushed, List.append_assoc]
  exact List.mem_append_left _ (List.mem_map_of_mem (List.mem_of_mem_filter hr))

end LogFiles

def connected : RpcLog :=
  RPC_INFO mayNoon (ascii "zookeeper_cli.cpp") 26 (ascii "zookeeper client connect success! \n")
    (by decide +kernel)

theorem connected_oneLine : RpcLog.OneLine connected.buf
    (connected.header ++ ascii "zookeeper client connect success! ") := by
  constructor
  · exact fun hmem => absurd hmem (by decide +kernel)
  · decide +kernel

namespace LogFiles

/-- Two clients connect, the second one on the next day. -/
theorem lines_of_reaches_connected :
    let events : List (FilesEvent Bool) :=
      [.setPath [0x6c], .readDate, .openFile] ++ messageSteps connected.buf ++
        [.logger (.queue (.notify true none)), .pass ⟨2025, 5, 2⟩, .readDate, .openFile] ++
        messageSteps connected.buf
    ∃ s, run (LogFiles.step false) (start mayDay) events = some s ∧ s.logger.stage ≠ .left ∧
      ∀ file ∈ [logName [0x6c] mayDay, logName [0x6c] ⟨2025, 5, 2⟩],
        (getlines (s.messagesIn file).flatten).map (· ++ [newline]) = [connected.buf] := by
  intro events
  have hok : ∀ e ∈ events, ∀ s : LogFiles Bool, s.OnlyRecords e := by
    simp [events, messageSteps, Logger.logSteps, Logger.takeSteps, Logger.popSteps, OnlyRecords,
      Logger.OnlyRecords]
  have hrun : run (LogFiles.step false) (start mayDay) events = some _ := rfl
  obtain ⟨hstage, _, hlines⟩ := lines_of_reaches false mayDay (.of_run hrun hok)
  have hone : ∃ body, RpcLog.OneLine connected.buf body := ⟨_, connected_oneLine⟩
  have hread := hlines (List.forall_mem_cons.mpr ⟨hone, List.forall_mem_singleton.mpr hone⟩)
  exact ⟨_, hrun, hstage, List.forall_mem_cons.mpr
    ⟨hread _, List.forall_mem_singleton.mpr (hread _)⟩⟩

end LogFiles

end KitRpc.Log

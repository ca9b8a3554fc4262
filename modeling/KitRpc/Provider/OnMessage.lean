import KitRpc.Cpp.Word
import KitRpc.Muduo.Net
import KitRpc.Proto.RpcHeader
import Mathlib.Logic.Function.Iterate
/-!
# The frame decoding loop

`Provide::onMessage`: everything readable is taken out of the connection's
buffer and decoded request by request. The cursor and the two length fields are
`uint32_t`, so additions wrap; neither length is compared with the bytes that
are left, and `std::string::copy` throws only for a position past the end.

The loop is a step function on `Scan`. What `handleRpcRequest` does to the rest
of the provider is a parameter, since decoding does not depend on it.
-/

namespace KitRpc.Provider

open KitRpc.Cpp KitRpc.Proto

/-- The arguments of one `handleRpcRequest(conn, head, args_str)` call. -/
abbrev Call := RpcHeader × Bytes

/-- One `data.copy(dest, count, pos)` made by the loop. -/
structure Copy where
  pos : Nat
  count : Nat
  deriving DecidableEq, Repr

/-- How an `onMessage` call ends: its loop condition is false, it returns after
a header was rejected, or `std::out_of_range` escapes from a `copy`. -/
inductive Exit
  | finished
  | headerRejected
  | outOfRange
  deriving DecidableEq, Repr

/-- What one pass through the loop body comes to: an exit, or a decoded request
and the cursor behind it. -/
inductive Verdict
  | exit (e : Exit)
  | request (head : RpcHeader) (argsStr : Bytes) (len : UInt32)
  deriving DecidableEq, Repr

/-- State of the loop: the cursor, the copies made from the current string, the
requests handed on so far, and the part of the provider they act on. -/
structure Scan (σ : Type) where
  len : UInt32
  copies : List Copy
  calls : List Call
  env : σ
  exit : Option Exit
  deriving DecidableEq, Repr

def Scan.start {σ : Type} (calls : List Call) (env : σ) : Scan σ :=
  { len := 0, copies := [], calls, env, exit := none }

section

variable (order : ByteOrder) (codec : HeaderCodec)

/-- The loop body up to `handleRpcRequest`, with the copies it makes. -/
def decodeRound (data : Bytes) (len : UInt32) : List Copy × Verdict :=
  let lengthCopy : Copy := ⟨len.toNat, 4⟩
  match copy data (zeros 4) 4 len.toNat with
  | none => ([lengthCopy], .exit .outOfRange)
  | some mem =>
    let headerSize := order.readWord mem
    let len := len + 4
    let headerCopy : Copy := ⟨len.toNat, headerSize.toNat⟩
    match copy data (zeros headerSize.toNat) headerSize.toNat len.toNat with
    | none => ([lengthCopy, headerCopy], .exit .outOfRange)
    | some headStr =>
      let len := len + headerSize
      match codec.parse headStr with
      | none => ([lengthCopy, headerCopy], .exit .headerRejected)
      | some head =>
        let argsSize := head.argsSize
        if 0 < argsSize then
          let argsCopy : Copy := ⟨len.toNat, argsSize.toNat⟩
          match copy data (zeros argsSize.toNat) argsSize.toNat len.toNat with
          | none => ([lengthCopy, headerCopy, argsCopy], .exit .outOfRange)
          | some argsStr =>
            ([lengthCopy, headerCopy, argsCopy], .request head argsStr (len + argsSize))
        else
          ([lengthCopy, headerCopy], .request head (zeros argsSize.toNat) len)

variable {σ : Type} (handle : σ → Call → σ)

/-- One pass through `while(len < data.size())`; nothing happens any more once
the loop was left. -/
def round (data : Bytes) (s : Scan σ) : Scan σ :=
  match s.exit with
  | some _ => s
  | none =>
    if s.len.toNat < data.length then
      let (copies, verdict) := decodeRound order codec data s.len
      match verdict with
      | .exit e => { s with copies := s.copies ++ copies, exit := some e }
      | .request head argsStr len =>
        { len
          copies := s.copies ++ copies
          calls := s.calls ++ [(head, argsStr)]
          env := handle s.env (head, argsStr)
          exit := none }
    else { s with exit := some .finished }

/-- The loop after `n` passes, on the string taken from the buffer. -/
def onMessage (data : Bytes) (n : Nat) (s : Scan σ) : Scan σ :=
  (round order codec handle data)^[n] s

end

/-! ## What one pass sees -/

section

variable (order : ByteOrder)

/-- The header length read from the front of `xs`, bytes that are missing
counted as zero. -/
def headerSizeAt (xs : Bytes) : UInt32 := order.readWord (zeroFill 4 xs)

end

variable {order : ByteOrder} {codec : HeaderCodec} {σ : Type} {handle : σ → Call → σ}

/-! ## One pass and many -/

theorem round_of_left {data : Bytes} {s : Scan σ} {e : Exit} (h : s.exit = some e) :
    round order codec handle data s = s := by
  rw [round, h]

variable (order codec handle) in
theorem round_of_end {data : Bytes} {s : Scan σ} (hrun : s.exit = none)
    (hend : data.length ≤ s.len.toNat) :
    round order codec handle data s = { s with exit := some .finished } := by
  rw [round, hrun]
  exact if_neg (Nat.not_lt.mpr hend)

variable (handle) in
theorem round_of_exit {data : Bytes} {s : Scan σ} {copies : List Copy} {e : Exit}
    (hrun : s.exit = none) (hlt : s.len.toNat < data.length)
    (h : decodeRound order codec data s.len = (copies, .exit e)) :
    round order codec handle data s =
      { s with copies := s.copies ++ copies, exit := some e } := by
  simp only [round, hrun, if_pos hlt, h]

variable (handle) in
theorem round_of_request {data : Bytes} {s : Scan σ} {copies : List Copy}
    {head : RpcHeader} {argsStr : Bytes} {len : UInt32}
    (hrun : s.exit = none) (hlt : s.len.toNat < data.length)
    (h : decodeRound order codec data s.len = (copies, .request head argsStr len)) :
    round order codec handle data s =
      { len, copies := s.copies ++ copies, calls := s.calls ++ [(head, argsStr)],
        env := handle s.env (head, argsStr), exit := none } := by
  simp only [round, hrun, if_pos hlt, h]

@[simp] theorem onMessage_zero (data : Bytes) (s : Scan σ) :
    onMessage order codec handle data 0 s = s := rfl

theorem onMessage_succ (data : Bytes) (n : Nat) (s : Scan σ) :
    onMessage order codec handle data (n + 1) s =
      onMessage order codec handle data n (round order codec handle data s) := rfl

theorem onMessage_succ' (data : Bytes) (n : Nat) (s : Scan σ) :
    onMessage order codec handle data (n + 1) s =
      round order codec handle data (onMessage order codec handle data n s) :=
  Function.iterate_succ_apply' _ n s

theorem onMessage_of_left {data : Bytes} {s : Scan σ} {e : Exit} (h : s.exit = some e)
    (n : Nat) : onMessage order codec handle data n s = s :=
  Function.iterate_fixed (round_of_left h) n

theorem onMessage_add (data : Bytes) (m n : Nat) (s : Scan σ) :
    onMessage order codec handle data (m + n) s =
      onMessage order codec handle data n (onMessage order codec handle data m s) := by
  rw [onMessage, Nat.add_comm, Function.iterate_add_apply]
  rfl

def EndsIn (order : ByteOrder) (codec : HeaderCodec) (handle : σ → Call → σ) (data : Bytes)
    (s₀ s : Scan σ) : Prop :=
  s.exit ≠ none ∧ ∃ n, onMessage order codec handle data n s₀ = s

theorem EndsIn.eventually {data : Bytes} {s₀ s : Scan σ}
    (h : EndsIn order codec handle data s₀ s) :
    ∃ N, ∀ n, onMessage order codec handle data (N + n) s₀ = s := by
  obtain ⟨hexit, N, rfl⟩ := h
  obtain ⟨e, he⟩ := Option.ne_none_iff_exists'.mp hexit
  exact ⟨N, fun n => by rw [onMessage_add, onMessage_of_left he]⟩

theorem EndsIn.unique {data : Bytes} {s₀ s t : Scan σ}
    (hs : EndsIn order codec handle data s₀ s) (ht : EndsIn order codec handle data s₀ t) :
    s = t := by
  obtain ⟨M, hM⟩ := hs.eventually
  obtain ⟨N, hN⟩ := ht.eventually
  rw [← hM N, Nat.add_comm, hN M]

variable (order codec) in
/-- The verdict of a pass. The header copy throws when its position is past the
end; otherwise bytes that are missing are read as NUL. -/
theorem decodeRound_verdict {data : Bytes} {len : UInt32} (hlen : len.toNat ≤ data.length) :
    (decodeRound order codec data len).2 =
      let headerSize := headerSizeAt order (data.drop len.toNat)
      let pos := len + 4 + headerSize
      if data.length < (len + 4).toNat then .exit .outOfRange
      else match codec.parse (zeroFill headerSize.toNat (data.drop (len + 4).toNat)) with
      | none => .exit .headerRejected
      | some head =>
        if head.argsSize = 0 then .request head [] pos
        else if data.length < pos.toNat then .exit .outOfRange
        else .request head (zeroFill head.argsSize.toNat (data.drop pos.toNat))
          (pos + head.argsSize) := by
  rw [decodeRound, copy_zeros hlen]
  unfold headerSizeAt
  dsimp only
  generalize order.readWord (zeroFill 4 (data.drop len.toNat)) = headerSize
  by_cases hshort : data.length < (len + 4).toNat
  · rw [copy_eq_none_iff.mpr hshort, if_pos hshort]
  · rw [copy_zeros (Nat.le_of_not_lt hshort), if_neg hshort]
    cases hparse : codec.parse (zeroFill headerSize.toNat (data.drop (len + 4).toNat)) with
    | none => simp only [hparse]
    | some head =>
        simp only [hparse]
        by_cases hzero : head.argsSize = 0
        · simp [hzero]
        · rw [if_pos (UInt32.pos_iff_ne_zero.mpr hzero), if_neg hzero]
          by_cases hargs : data.length < (len + 4 + headerSize).toNat
          · rw [copy_eq_none_iff.mpr hargs, if_pos hargs]
          · rw [copy_zeros (Nat.le_of_not_lt hargs), if_neg hargs]

end KitRpc.Provider

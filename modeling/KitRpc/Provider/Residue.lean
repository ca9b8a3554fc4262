import KitRpc.Provider.Frames
/-!
# Bytes behind the last complete frame

What a call does with the end of its buffer, where no complete frame starts.
As long as the announced lengths do not overflow the cursor it depends on
these bytes alone, not on what came before them.
-/

namespace KitRpc.Provider

open KitRpc.Foundation KitRpc.Cpp KitRpc.Proto

section

variable (order : ByteOrder) (codec : HeaderCodec)

/-- The header a pass sees at the front of `xs`, NUL for the bytes that are
missing. -/
def paddedHeader (xs : Bytes) : Option RpcHeader :=
  codec.parse (zeroFill (headerSizeAt order xs).toNat (xs.drop 4))

/-- The requests handed on for the bytes `xs` behind the last complete frame,
and how the call ends there. -/
def residue (xs : Bytes) : List Call × Exit :=
  if xs = [] then ([], .finished)
  else if xs.length < 4 then ([], .outOfRange)
  else match paddedHeader order codec xs with
    | none => ([], .headerRejected)
    | some head =>
      let pos := 4 + (headerSizeAt order xs).toNat
      if head.argsSize = 0 then ([(head, [])], .finished)
      else if xs.length < pos then ([], .outOfRange)
      else ([(head, zeroFill head.argsSize.toNat (xs.drop pos))], .finished)

def announced (xs : Bytes) : Nat :=
  if xs = [] then 0
  else 4 + (headerSizeAt order xs).toNat +
    (match paddedHeader order codec xs with
    | none => 0
    | some head => head.argsSize.toNat)

end

variable {order : ByteOrder} {codec : HeaderCodec} {σ : Type} {handle : σ → Call → σ}

/-- Where no complete frame starts, one is announced that reaches too far. -/
theorem length_lt_announced {xs : Bytes} {head : RpcHeader}
    (hstuck : readFrame order codec xs = none) (hfour : 4 ≤ xs.length)
    (hparse : paddedHeader order codec xs = some head) :
    xs.length < 4 + (headerSizeAt order xs).toNat + head.argsSize.toNat := by
  by_contra hle
  have hmem := takeExactly_of_le hfour
  have hhead := takeExactly_of_le (n := (headerSizeAt order xs).toNat) (s := xs.drop 4)
    (by rw [List.length_drop]; omega)
  have hargs := takeExactly_of_le (n := head.argsSize.toNat)
    (s := xs.drop (4 + (headerSizeAt order xs).toNat))
    (by rw [List.length_drop]; omega)
  rw [paddedHeader, zeroFill_of_le (by rw [List.length_drop]; omega)] at hparse
  have hword : order.readWord (xs.take 4) = headerSizeAt order xs := by
    rw [headerSizeAt, zeroFill_of_le hfour]
  simp [readFrame, readHeaded, hmem, hword, hhead, hparse, readArgs, hargs] at hstuck

/-- A call that continues from `s` hands on the requests `out.1` and ends by
`out.2`. -/
def EndsAs (order : ByteOrder) (codec : HeaderCodec) (handle : σ → Call → σ) (data : Bytes)
    (s : Scan σ) (out : List Call × Exit) : Prop :=
  ∃ s', EndsIn order codec handle data s s' ∧ s'.exit = some out.2 ∧
    s'.calls = s.calls ++ out.1 ∧ s'.env = out.1.foldl handle s.env

theorem endsAs_end {data : Bytes} {s : Scan σ} (hrun : s.exit = none)
    (hend : data.length ≤ s.len.toNat) :
    EndsAs order codec handle data s ([], .finished) := by
  have hstep := round_of_end order codec handle hrun hend
  exact ⟨_, ⟨by simp, 1, hstep⟩, rfl, by simp, rfl⟩

theorem endsAs_exit {data : Bytes} {s : Scan σ} {e : Exit} (hrun : s.exit = none)
    (hlt : s.len.toNat < data.length) (h : (decodeRound order codec data s.len).2 = .exit e) :
    EndsAs order codec handle data s ([], e) := by
  have hstep := round_of_exit handle hrun hlt (Prod.ext rfl h)
  exact ⟨_, ⟨by simp, 1, hstep⟩, rfl, by simp, rfl⟩

theorem endsAs_request {data argsStr : Bytes} {s : Scan σ} {head : RpcHeader} {len : UInt32}
    (hrun : s.exit = none) (hlt : s.len.toNat < data.length)
    (h : (decodeRound order codec data s.len).2 = .request head argsStr len)
    (hend : data.length ≤ len.toNat) :
    EndsAs order codec handle data s ([(head, argsStr)], .finished) := by
  have hstep := round_of_request handle hrun hlt (Prod.ext rfl h)
  have hleave := round_of_end order codec handle
    (s := round order codec handle data s) (by rw [hstep]) (by rw [hstep]; exact hend)
  refine ⟨_, ⟨?_, 2, hleave⟩, rfl, ?_, ?_⟩
  · simp
  · rw [hstep]
  · rw [hstep]
    rfl

theorem first_verdict {xs : Bytes} :
    (decodeRound order codec xs 0).2 =
      if xs.length < 4 then .exit .outOfRange
      else match paddedHeader order codec xs with
      | none => .exit .headerRejected
      | some head =>
        let pos := 4 + headerSizeAt order xs
        if head.argsSize = 0 then .request head [] pos
        else if xs.length < (4 + (headerSizeAt order xs).toNat) % 2 ^ 32 then .exit .outOfRange
        else .request head (zeroFill head.argsSize.toNat (xs.drop pos.toNat))
          (pos + head.argsSize) := by
  have h := decodeRound_verdict order codec
    (show (0 : UInt32).toNat ≤ xs.length from Nat.zero_le _)
  rw [h]
  simp only [UInt32.toNat_zero, List.drop_zero, UInt32.zero_add, UInt32.reduceToNat,
    UInt32.toNat_add]
  rfl

theorem first_framed {xs rest : Bytes} {call : Call} (h : Framed order codec xs call rest)
    (hsize : (headerSizeAt order xs).toNat + 4 < 2 ^ 32) :
    ∃ len, (decodeRound order codec xs 0).2 = .request call.1 call.2 len := by
  obtain ⟨hfour, hhead, hparse, hargs⟩ := h
  rename_i mem headStr argsStr head
  rw [headerSizeAt_append hfour] at hsize
  have hpadded : paddedHeader order codec (mem ++ (headStr ++ (argsStr ++ rest))) =
      some head := by
    rw [paddedHeader, headerSizeAt_append hfour, ← hfour, List.drop_left,
      zeroFill_of_le (by simp [hhead]), ← hhead, List.take_left, hparse]
  have hpos : (4 + order.readWord mem).toNat = mem.length + headStr.length := by
    calc
      _ = (4 : UInt32).toNat + (order.readWord mem).toNat :=
        toNat_add_of_lt (by simp only [UInt32.reduceToNat]; omega)
      _ = _ := by
        rw [hfour, hhead]
        rfl
  rw [first_verdict, hpadded, headerSizeAt_append hfour, if_neg (by simp; omega)]
  dsimp only
  by_cases hzero : head.argsSize = 0
  · have hempty : argsStr = [] := by
      apply List.length_eq_zero_iff.mp
      rw [hargs, hzero, UInt32.toNat_zero]
    exact ⟨_, by rw [if_pos hzero, hempty]⟩
  · have hshort : ¬ (mem ++ (headStr ++ (argsStr ++ rest))).length <
        (4 + (order.readWord mem).toNat) % 2 ^ 32 := by
      rw [Nat.mod_eq_of_lt (by omega)]
      simp only [List.length_append]
      omega
    refine ⟨4 + order.readWord mem + head.argsSize, ?_⟩
    rw [if_neg hzero, if_neg hshort, hpos, ← List.append_assoc, ← List.length_append,
      List.drop_left, zeroFill_of_le (by simp [hargs]), ← hargs, List.take_left]

variable (handle) in
theorem endsAs_residue {data tail : Bytes} {s : Scan σ} (hat : s.At data tail)
    (hstuck : readFrame order codec tail = none)
    (hfits : data.length - tail.length + announced order codec tail < 2 ^ 32) :
    EndsAs order codec handle data s (residue order codec tail) := by
  have hcursor := hat.cursor
  by_cases hnil : tail = []
  · rw [residue, if_pos hnil]
    exact endsAs_end hat.running (by rw [hnil, List.length_nil] at hcursor; omega)
  have hlt : s.len.toNat < data.length := by
    have := List.length_pos_iff.mpr hnil
    omega
  simp only [announced, if_neg hnil] at hfits
  have hfour : (s.len + 4).toNat = s.len.toNat + 4 :=
    toNat_add_of_lt (b := 4) (by simp only [UInt32.reduceToNat]; omega)
  have hpos : (s.len + 4 + headerSizeAt order tail).toNat =
      s.len.toNat + (4 + (headerSizeAt order tail).toNat) := by
    calc
      _ = (s.len + 4).toNat + (headerSizeAt order tail).toNat := toNat_add_of_lt (by omega)
      _ = _ := by rw [hfour, Nat.add_assoc]
  have hverdict := decodeRound_verdict order codec (Nat.le_of_lt hlt)
  dsimp only at hverdict
  rw [hat.drop, hpos, hfour, ← List.drop_drop, ← List.drop_drop, hat.drop] at hverdict
  rw [residue, if_neg hnil]
  by_cases hshort : tail.length < 4
  · rw [if_pos hshort]
    exact endsAs_exit hat.running hlt (hverdict.trans (if_pos (by omega)))
  rw [if_neg (by omega)] at hverdict
  rw [if_neg hshort]
  change (decodeRound order codec data s.len).2 =
    match paddedHeader order codec tail with | none => _ | some head => _ at hverdict
  cases hparse : paddedHeader order codec tail with
  | none =>
      rw [hparse] at hverdict
      exact endsAs_exit hat.running hlt hverdict
  | some head =>
      rw [hparse] at hverdict hfits
      dsimp only at hverdict hfits ⊢
      have hbeyond := length_lt_announced hstuck (Nat.le_of_not_lt hshort) hparse
      by_cases hzero : head.argsSize = 0
      · rw [if_pos hzero] at hverdict ⊢
        rw [hzero] at hbeyond
        apply endsAs_request hat.running hlt hverdict
        rw [UInt32.toNat_zero] at hbeyond
        rw [hpos]
        omega
      rw [if_neg hzero] at hverdict ⊢
      by_cases hargs : tail.length < 4 + (headerSizeAt order tail).toNat
      · rw [if_pos hargs]
        exact endsAs_exit hat.running hlt (hverdict.trans (if_pos (by omega)))
      · rw [if_neg hargs]
        apply endsAs_request hat.running hlt (hverdict.trans (if_neg (by omega)))
        rw [toNat_add_of_lt (by omega), hpos]
        omega

variable (handle) in
theorem endsAs_splits {data tail : Bytes} {calls : List Call} {s : Scan σ}
    (hsplit : (requestStream order codec).Splits data calls tail)
    (hstuck : readFrame order codec tail = none) (hat : s.At data data)
    (hfits : data.length - tail.length + announced order codec tail < 2 ^ 32) :
    EndsAs order codec handle data s
      (calls ++ (residue order codec tail).1, (residue order codec tail).2) := by
  obtain ⟨hend, hhanded⟩ := onMessage_splits handle hsplit hat (by omega)
  obtain ⟨s', hends, hexit, hcalls, henv⟩ :=
    endsAs_residue handle hend hstuck hfits
  refine ⟨s', ?_, hexit, ?_, ?_⟩
  · obtain ⟨hleft, n, rfl⟩ := hends
    exact ⟨hleft, calls.length + n, onMessage_add data _ _ s⟩
  · rw [hcalls, hhanded.calls, List.append_assoc]
  · rw [henv, hhanded.env, List.foldl_append]

end KitRpc.Provider

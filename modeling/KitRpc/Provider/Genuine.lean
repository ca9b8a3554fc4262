import KitRpc.Provider.Frames
/-!
# Which requests are genuine

A request handed on by `onMessage` is genuine when it is read off a frame that
lies inside the buffer. Bytes that are missing are read as NUL, so the loop may
hand on a request the peer did not send; whether it does is decided by the
bytes behind the last complete frame.
-/

namespace KitRpc.Provider

open KitRpc.Cpp KitRpc.Proto

section

variable (order : ByteOrder) (codec : HeaderCodec)

/-- `FramesFrom data a calls`: the calls are those of adjacent frames inside
`data`, the first of which starts at offset `a`. -/
inductive FramesFrom (data : Bytes) : Nat → List Call → Prop
  | nil (a : Nat) : FramesFrom data a []
  | cons {a b c : Nat} {head : RpcHeader} {calls : List Call} :
      a + 4 ≤ b → b ≤ c → c ≤ data.length →
      (order.readWord (data.extract a (a + 4))).toNat = b - (a + 4) →
      codec.parse (data.extract (a + 4) b) = some head →
      c - b = head.argsSize.toNat →
      FramesFrom data c calls →
      FramesFrom data a ((head, data.extract b c) :: calls)

/-- A pass with the cursor at `a` hands nothing on: the header would start past
the end, or the header with NUL bytes for the missing ones is rejected, or it
announces arguments that would start past the end. -/
def Silent (data : Bytes) (a : Nat) : Prop :=
  let headerSize := (headerSizeAt order (data.drop a)).toNat
  let header := codec.parse (zeroFill headerSize (data.drop ((a + 4) % 2 ^ 32)))
  data.length < (a + 4) % 2 ^ 32 ∨ header = none ∨
    ∃ head, header = some head ∧ head.argsSize ≠ 0 ∧
      data.length < (a + 4 + headerSize) % 2 ^ 32

/-- Wherever complete frames from the start of the buffer lead, the cursor can
hold the offset, and there the buffer ends, or another complete frame starts,
or nothing is handed on. -/
def SilentBehindFrames (data : Bytes) : Prop :=
  ∀ calls tail, (requestStream order codec).Splits data calls tail →
    let a := data.length - tail.length
    a < 2 ^ 32 ∧
      (tail = [] ∨ (readFrame order codec tail).isSome ∨ Silent order codec data a)

end

variable {order : ByteOrder} {codec : HeaderCodec} {σ : Type} {handle : σ → Call → σ}

theorem exists_exit_iff_silent {data : Bytes} {len : UInt32}
    (hlen : len.toNat ≤ data.length) :
    (∃ e, (decodeRound order codec data len).2 = .exit e) ↔
      Silent order codec data len.toNat := by
  have hpos : (len + 4).toNat = (len.toNat + 4) % 2 ^ 32 := by
    rw [UInt32.toNat_add]
    rfl
  have hpos' : (len + 4 + headerSizeAt order (data.drop len.toNat)).toNat =
      (len.toNat + 4 + (headerSizeAt order (data.drop len.toNat)).toNat) % 2 ^ 32 := by
    rw [UInt32.toNat_add, hpos, Nat.mod_add_mod]
  rw [decodeRound_verdict order codec hlen, Silent]
  dsimp only
  rw [← hpos, ← hpos']
  generalize len + 4 + headerSizeAt order (data.drop len.toNat) = pos
  generalize (len + 4).toNat = headerPos
  generalize codec.parse _ = header
  by_cases hshort : data.length < headerPos
  · rw [if_pos hshort]
    exact ⟨fun _ => .inl hshort, fun _ => ⟨_, rfl⟩⟩
  rw [if_neg hshort]
  cases header with
  | none => exact ⟨fun _ => .inr (.inl rfl), fun _ => ⟨_, rfl⟩⟩
  | some head =>
      by_cases hzero : head.argsSize = 0
      · simp [hzero, Nat.le_of_not_lt hshort]
      · by_cases hargs : data.length < pos.toNat <;> simp [hzero, hargs, hshort]

theorem drop_eq_extract_append {data : Bytes} {a b : Nat} (hab : a ≤ b) :
    data.drop a = data.extract a b ++ data.drop b := by
  obtain ⟨k, rfl⟩ := Nat.exists_eq_add_of_le hab
  rw [List.extract_eq_take_drop, Nat.add_sub_cancel_left, ← List.drop_drop,
    List.take_append_drop]

theorem extract_of_drop {data block rest : Bytes} {a : Nat}
    (hat : data.drop a = block ++ rest) : data.extract a (a + block.length) = block := by
  rw [List.extract_eq_take_drop, hat, Nat.add_sub_cancel_left, List.take_left]

theorem framesFrom_iff_splits {data : Bytes} {a : Nat} {calls : List Call} :
    FramesFrom order codec data a calls ↔
      ∃ tail, (requestStream order codec).Splits (data.drop a) calls tail := by
  constructor
  · intro h
    induction h with
    | nil a => exact ⟨_, .done _⟩
    | @cons a b c head calls hab hbc hc hsize hparse hargs _ ih =>
        obtain ⟨tail, htail⟩ := ih
        refine ⟨tail, .item (readFrame_eq_some_iff.mpr ?_) htail⟩
        rw [drop_eq_extract_append (show a ≤ a + 4 by omega), drop_eq_extract_append hab,
          drop_eq_extract_append hbc]
        refine .intro ?_ ?_ hparse ?_
        all_goals
          rw [List.extract_eq_take_drop, List.length_take, List.length_drop]
          omega
  · rintro ⟨tail, hsplit⟩
    generalize hxs : data.drop a = xs at hsplit
    induction hsplit generalizing a with
    | done => exact .nil a
    | @item xs rest tail call calls hnext _ ih =>
        obtain ⟨hfour, hsize, hparse, hargs⟩ := readFrame_eq_some_iff.mp hnext
        rename_i mem headStr argsStr head
        have htotal := congrArg List.length hxs
        simp only [List.length_drop, List.length_append] at htotal
        have hmem := extract_of_drop hxs
        have hat₁ := drop_add_length hxs
        have hhead := extract_of_drop hat₁
        have hat₂ := drop_add_length hat₁
        have hargsStr := extract_of_drop hat₂
        have hat₃ := drop_add_length hat₂
        rw [hfour] at hmem hat₁ hhead hat₂ hargsStr hat₃
        rw [← hargsStr]
        apply FramesFrom.cons (b := a + 4 + headStr.length)
        · omega
        · omega
        · omega
        · rw [hmem, ← hsize]
          omega
        · rw [hhead, hparse]
        · omega
        · exact ih hat₃

def AllGenuine (order : ByteOrder) (codec : HeaderCodec) (handle : σ → Call → σ)
    (data : Bytes) (env : σ) : Prop :=
  ∀ n, FramesFrom order codec data 0
    (onMessage order codec handle data n (.start [] env)).calls

/-- What the loop maintains on a buffer that is silent behind its frames: the
requests so far are complete frames, and the cursor stands behind them. -/
structure Scan.Genuine (order : ByteOrder) (codec : HeaderCodec) (data : Bytes)
    (s : Scan σ) : Prop where
  split : ∃ tail, (requestStream order codec).Splits data s.calls tail ∧
    (s.exit = none → s.At data tail)

variable (order codec) in
theorem Scan.Genuine.start (data : Bytes) (env : σ) :
    (Scan.start [] env).Genuine order codec data :=
  ⟨data, .done data, fun _ => Scan.start_at data [] env⟩

variable (handle) in
theorem Scan.Genuine.round {data : Bytes} {s : Scan σ}
    (hsilent : SilentBehindFrames order codec data) (h : s.Genuine order codec data) :
    (Provider.round order codec handle data s).Genuine order codec data := by
  obtain ⟨tail, hsplit, hat⟩ := h
  cases hexit : s.exit with
  | some e =>
      rw [round_of_left hexit]
      exact ⟨tail, hsplit, hat⟩
  | none =>
      have hat := hat hexit
      have hcursor := hat.cursor
      by_cases hlt : s.len.toNat < data.length
      · obtain ⟨_, hnil | hframe | hquiet⟩ := hsilent _ _ hsplit
        · simp only [hnil, List.length_nil] at hcursor
          omega
        · obtain ⟨⟨call, rest⟩, hnext⟩ := Option.isSome_iff_exists.mp hframe
          have hsplit' := hsplit.trans (.single hnext)
          have hend := (hsilent _ _ hsplit').1
          obtain ⟨hat', hhanded⟩ := round_framed handle hat
            (readFrame_eq_some_iff.mp hnext) hend
          exact ⟨rest, by rwa [hhanded.calls], fun _ => hat'⟩
        · have hsub : data.length - tail.length = s.len.toNat := by omega
          rw [hsub] at hquiet
          obtain ⟨e, he⟩ := (exists_exit_iff_silent hlt.le).mpr hquiet
          rw [round_of_exit handle hexit hlt (Prod.ext rfl he)]
          exact ⟨tail, hsplit, fun h => by simp at h⟩
      · rw [round_of_end order codec handle hexit (Nat.le_of_not_lt hlt)]
        exact ⟨tail, hsplit, fun h => by simp at h⟩

variable (handle) in
theorem Scan.Genuine.onMessage {data : Bytes} {s : Scan σ}
    (hsilent : SilentBehindFrames order codec data) (h : s.Genuine order codec data)
    (n : Nat) : (Provider.onMessage order codec handle data n s).Genuine order codec data := by
  induction n with
  | zero => exact h
  | succ n ih =>
      rw [onMessage_succ']
      exact ih.round handle hsilent

/-- No request is made up on a buffer that is silent behind its frames; below
four GiB there is no other such buffer. -/
theorem allGenuine_iff_silentBehindFrames (data : Bytes) (env : σ) :
    (SilentBehindFrames order codec data → AllGenuine order codec handle data env) ∧
      (data.length < 2 ^ 32 →
        AllGenuine order codec handle data env → SilentBehindFrames order codec data) := by
  constructor
  · intro hsilent n
    obtain ⟨tail, hsplit, _⟩ :=
      (Scan.Genuine.start order codec data env).onMessage
        handle hsilent n
    exact framesFrom_iff_splits.mpr ⟨tail, by simpa using hsplit⟩
  · intro hsize hgenuine calls tail hsplit
    refine ⟨by omega, ?_⟩
    by_contra hloud
    rw [not_or, not_or, Option.not_isSome_iff_eq_none] at hloud
    obtain ⟨hne, hstuck, hloud⟩ := hloud
    obtain ⟨hat, hhanded⟩ := onMessage_splits handle hsplit
      (Scan.start_at data [] env) (by omega)
    -- The pass behind the last complete frame hands one more request on.
    set s := onMessage order codec handle data calls.length (.start [] env) with hs
    have hcursor := hat.cursor
    have htail := List.length_pos_iff.mpr hne
    rw [show data.length - tail.length = s.len.toNat by omega,
      ← exists_exit_iff_silent (by omega)] at hloud
    rcases hround : decodeRound order codec data s.len with ⟨copies, verdict⟩
    cases verdict with
    | exit e => exact hloud ⟨e, by rw [hround]⟩
    | request head argsStr len =>
        have hstep := round_of_request handle hat.running (by omega) hround
        rw [hs, ← onMessage_succ'] at hstep
        obtain ⟨tail', hsplit'⟩ := framesFrom_iff_splits.mp (hgenuine (calls.length + 1))
        rw [hstep, ← hs, hhanded.calls] at hsplit'
        obtain ⟨more, hlong, _⟩ := hsplit.prefix_of_stuck hstuck hsplit'
        have hlength := congrArg List.length hlong
        simp only [List.length_append, List.length_singleton] at hlength
        omega

/-- Without its last byte the frame is handed on all the same, with a NUL byte
in its place. -/
theorem not_allGenuine_loginFrame :
    ¬ AllGenuine .little wireHeader (fun (n : Nat) _ => n + 1) (loginFrame.take 14) 0 := by
  intro hgenuine
  obtain ⟨tail, hsplit⟩ := framesFrom_iff_splits.mp (hgenuine 1)
  have hcalls : (onMessage .little wireHeader (fun (n : Nat) _ => n + 1) (loginFrame.take 14) 1
      (.start [] 0)).calls = [(⟨[0x55], [0x4c], 3⟩, [0x61, 0x00, 0x00])] := by decide
  have hstuck : readFrame .little wireHeader ((loginFrame.take 14).drop 0) = none := by decide
  rw [hcalls] at hsplit
  cases hsplit with
  | item hnext _ => cases hstuck.symm.trans hnext

end KitRpc.Provider

import KitRpc.Provider.Cuts
/-!
# Positions past the end

`std::string::copy` throws for a position past the end of the string, and no
position of the decoding loop is compared with it. Which buffers a call decodes
without an exception is decided by where the lengths written in them lead.
-/

namespace KitRpc.Provider

open KitRpc.Foundation KitRpc.Cpp KitRpc.Proto

section

variable (order : ByteOrder) (codec : HeaderCodec)

/-- The header seen by a pass with the cursor at `a`, NUL for missing bytes. -/
def headerAt (data : Bytes) (a : Nat) : Option RpcHeader :=
  codec.parse (zeroFill (headerSizeAt order (data.drop a)).toNat
    (data.drop ((a + 4) % 2 ^ 32)))

/-- The lengths written in the buffer lead from offset `a` to its end or to a
rejected header, and no length, header or argument block on the way starts past
the end. -/
inductive StaysInside (data : Bytes) : Nat → Prop
  | finished {a : Nat} : data.length ≤ a → StaysInside data a
  | rejected {a : Nat} : (a + 4) % 2 ^ 32 ≤ data.length → headerAt order codec data a = none →
      StaysInside data a
  | next {a : Nat} {head : RpcHeader} : (a + 4) % 2 ^ 32 ≤ data.length →
      headerAt order codec data a = some head →
      (head.argsSize ≠ 0 →
        (a + 4 + (headerSizeAt order (data.drop a)).toNat) % 2 ^ 32 ≤ data.length) →
      StaysInside data ((a + 4 + (headerSizeAt order (data.drop a)).toNat +
        head.argsSize.toNat) % 2 ^ 32) →
      StaysInside data a

end

def PositionsInside (data : Bytes) (copies : List Copy) : Prop :=
  ∀ c ∈ copies, c.pos ≤ data.length

def ReturnsInside {σ : Type} (order : ByteOrder) (codec : HeaderCodec) (handle : σ → Call → σ)
    (data : Bytes) (env : σ) : Prop :=
  ∃ s, EndsIn order codec handle data (.start [] env) s ∧ s.exit ≠ some .outOfRange ∧
    PositionsInside data s.copies

variable {order : ByteOrder} {codec : HeaderCodec} {σ : Type} {handle : σ → Call → σ}

/-! ## One pass -/

variable (order codec) in
/-- A pass makes a copy that starts past the end exactly if the exception leaves
it. -/
theorem positionsInside_decodeRound {data : Bytes} {len : UInt32}
    (hlen : len.toNat ≤ data.length) :
    PositionsInside data (decodeRound order codec data len).1 ↔
      (decodeRound order codec data len).2 ≠ .exit .outOfRange := by
  rw [decodeRound, copy_zeros hlen]
  dsimp only
  generalize order.readWord (zeroFill 4 (data.drop len.toNat)) = headerSize
  unfold PositionsInside
  by_cases hshort : data.length < (len + 4).toNat
  · rw [copy_eq_none_iff.mpr hshort]
    simp only [List.forall_mem_cons, ne_eq, not_true_eq_false, iff_false, not_and]
    omega
  · have hshort' := Nat.le_of_not_lt hshort
    rw [copy_zeros hshort']
    cases hparse : codec.parse (zeroFill headerSize.toNat (data.drop (len + 4).toNat)) with
    | none =>
        simp only [hparse, List.forall_mem_cons]
        exact iff_of_true ⟨hlen, hshort', by simp⟩ (by simp)
    | some head =>
        simp only [hparse]
        by_cases hzero : 0 < head.argsSize
        · rw [if_pos hzero]
          by_cases hargs : data.length < (len + 4 + headerSize).toNat
          · rw [copy_eq_none_iff.mpr hargs]
            simp only [List.forall_mem_cons, ne_eq, not_true_eq_false, iff_false, not_and]
            omega
          · have hargs' := Nat.le_of_not_lt hargs
            rw [copy_zeros hargs']
            simp only [List.forall_mem_cons]
            exact iff_of_true ⟨hlen, hshort', hargs', by simp⟩ (by simp)
        · rw [if_neg hzero]
          simp only [List.forall_mem_cons]
          exact iff_of_true ⟨hlen, hshort', by simp⟩ (by simp)

theorem toNat_add_four (len : UInt32) : (len + 4).toNat = (len.toNat + 4) % 2 ^ 32 := by
  rw [UInt32.toNat_add]
  rfl

variable (order codec) in
theorem verdict_at {data : Bytes} {len : UInt32} (hlen : len.toNat ≤ data.length) :
    let a := len.toNat
    let headerSize := headerSizeAt order (data.drop a)
    let pos := len + 4 + headerSize
    (decodeRound order codec data len).2 =
      if data.length < (a + 4) % 2 ^ 32 then .exit .outOfRange
      else match headerAt order codec data a with
      | none => .exit .headerRejected
      | some head =>
        if head.argsSize = 0 then .request head [] pos
        else if data.length < (a + 4 + headerSize.toNat) % 2 ^ 32 then .exit .outOfRange
        else .request head (zeroFill head.argsSize.toNat (data.drop pos.toNat))
          (pos + head.argsSize) := by
  intro a headerSize pos
  have hpos : pos.toNat = (a + 4 + headerSize.toNat) % 2 ^ 32 := by
    rw [UInt32.toNat_add, toNat_add_four, Nat.mod_add_mod]
  rw [headerAt, ← hpos, ← toNat_add_four]
  exact decodeRound_verdict order codec hlen

theorem verdict_request {data : Bytes} {len : UInt32} {head : RpcHeader}
    (hlen : len.toNat ≤ data.length) (hfour : (len.toNat + 4) % 2 ^ 32 ≤ data.length)
    (hhead : headerAt order codec data len.toNat = some head)
    (hargs : head.argsSize ≠ 0 →
      (len.toNat + 4 + (headerSizeAt order (data.drop len.toNat)).toNat) % 2 ^ 32 ≤ data.length) :
    ∃ argsStr len', (decodeRound order codec data len).2 = .request head argsStr len' ∧
      len'.toNat = (len.toNat + 4 + (headerSizeAt order (data.drop len.toNat)).toNat +
        head.argsSize.toNat) % 2 ^ 32 := by
  have hverdict := verdict_at order codec hlen
  dsimp only at hverdict
  rw [if_neg (Nat.not_lt.mpr hfour), hhead] at hverdict
  dsimp only at hverdict
  generalize headerSizeAt order (data.drop len.toNat) = headerSize at *
  have hpos : (len + 4 + headerSize).toNat = (len.toNat + 4 + headerSize.toNat) % 2 ^ 32 := by
    rw [UInt32.toNat_add, toNat_add_four, Nat.mod_add_mod]
  by_cases hzero : head.argsSize = 0
  · rw [if_pos hzero] at hverdict
    exact ⟨_, _, hverdict, by rw [hpos, hzero]; rfl⟩
  · rw [if_neg hzero, if_neg (Nat.not_lt.mpr (hargs hzero))] at hverdict
    exact ⟨_, _, hverdict, by rw [UInt32.toNat_add, hpos, Nat.mod_add_mod]⟩

/-! ## Whole calls -/

theorem EndsIn.of_round {data : Bytes} {s s' : Scan σ}
    (h : EndsIn order codec handle data (round order codec handle data s) s') :
    EndsIn order codec handle data s s' := by
  obtain ⟨hexit, n, hn⟩ := h
  exact ⟨hexit, n + 1, hn⟩

theorem positionsInside_round {data : Bytes} {s : Scan σ} (h : PositionsInside data s.copies)
    (hquiet : (round order codec handle data s).exit ≠ some .outOfRange) :
    PositionsInside data (round order codec handle data s).copies := by
  cases hrun : s.exit with
  | some e => rwa [round_of_left hrun]
  | none =>
      by_cases hlt : s.len.toNat < data.length
      · have hpass := positionsInside_decodeRound order codec hlt.le
        rcases hround : decodeRound order codec data s.len with ⟨copies, verdict⟩
        rw [hround] at hpass
        cases verdict with
        | exit e =>
            rw [round_of_exit handle hrun hlt hround] at hquiet ⊢
            have hinside := hpass.mpr fun heq => hquiet (congrArg some (Verdict.exit.inj heq))
            exact fun c hc => (List.mem_append.mp hc).elim (h c) (hinside c)
        | request head argsStr len =>
            rw [round_of_request handle hrun hlt hround]
            have hinside := hpass.mpr (by simp)
            exact fun c hc => (List.mem_append.mp hc).elim (h c) (hinside c)
      · rwa [round_of_end order codec handle hrun (Nat.le_of_not_lt hlt)]

theorem EndsIn.positionsInside {data : Bytes} {s s' : Scan σ}
    (h : EndsIn order codec handle data s s') (hquiet : s'.exit ≠ some .outOfRange)
    (hstart : PositionsInside data s.copies) : PositionsInside data s'.copies := by
  obtain ⟨_, n, rfl⟩ := h
  induction n generalizing s with
  | zero => exact hstart
  | succ n ih =>
      rw [onMessage_succ] at hquiet ⊢
      refine ih ?_ hquiet ?_
      · apply positionsInside_round hstart
        intro hthrown
        rw [onMessage_of_left hthrown] at hquiet
        exact hquiet hthrown
      · assumption

theorem returnsInside_iff {data : Bytes} {env : σ} :
    ReturnsInside order codec handle data env ↔
      ∃ s, EndsIn order codec handle data (.start [] env) s ∧ s.exit ≠ some .outOfRange := by
  constructor
  · rintro ⟨s, hends, hquiet, _⟩
    exact ⟨s, hends, hquiet⟩
  · rintro ⟨s, hends, hquiet⟩
    exact ⟨s, hends, hquiet, hends.positionsInside hquiet (by simp [PositionsInside, Scan.start])⟩

/-- A running loop whose cursor stands at such an offset returns. -/
theorem StaysInside.returns {data : Bytes} {a : Nat} (h : StaysInside order codec data a)
    {s : Scan σ} (hrun : s.exit = none) (hlen : s.len.toNat = a) :
    ∃ s', EndsIn order codec handle data s s' ∧ s'.exit ≠ some .outOfRange := by
  induction h generalizing s with
  | finished hend =>
      have hstep := round_of_end order codec handle hrun (hlen ▸ hend)
      exact ⟨_, ⟨by simp, 1, hstep⟩, by simp⟩
  | @rejected a hfour hheader =>
      subst hlen
      by_cases hlt : s.len.toNat < data.length
      · have hverdict := verdict_at order codec hlt.le
        dsimp only at hverdict
        rw [if_neg (Nat.not_lt.mpr hfour), hheader] at hverdict
        have hstep := round_of_exit handle hrun hlt (Prod.ext rfl hverdict)
        exact ⟨_, ⟨by simp, 1, hstep⟩, by simp⟩
      · have hstep := round_of_end order codec handle hrun (Nat.le_of_not_lt hlt)
        exact ⟨_, ⟨by simp, 1, hstep⟩, by simp⟩
  | @next a head hfour hheader hargs _ ih =>
      subst hlen
      by_cases hlt : s.len.toNat < data.length
      · obtain ⟨argsStr, len', hverdict, hlen'⟩ := verdict_request hlt.le hfour hheader hargs
        have hstep := round_of_request handle hrun hlt (Prod.ext rfl hverdict)
        obtain ⟨s', hends, hquiet⟩ := ih (s := round order codec handle data s)
          (by rw [hstep]) (by rw [hstep]; exact hlen')
        exact ⟨s', hends.of_round, hquiet⟩
      · have hstep := round_of_end order codec handle hrun (Nat.le_of_not_lt hlt)
        exact ⟨_, ⟨by simp, 1, hstep⟩, by simp⟩

/-- Only from such an offset does a running loop return. -/
theorem staysInside_of_returns {data : Bytes} {n : Nat} {s : Scan σ} (hrun : s.exit = none)
    (hleft : (onMessage order codec handle data n s).exit ≠ none)
    (hquiet : (onMessage order codec handle data n s).exit ≠ some .outOfRange) :
    StaysInside order codec data s.len.toNat := by
  induction n generalizing s with
  | zero => exact absurd hrun hleft
  | succ n ih =>
      by_cases hlt : s.len.toNat < data.length
      case neg => exact .finished (Nat.le_of_not_lt hlt)
      rw [onMessage_succ] at hleft hquiet
      have hthrown (hverdict : (decodeRound order codec data s.len).2 = .exit .outOfRange) :
          False := by
        have hstep := round_of_exit handle hrun hlt (Prod.ext rfl hverdict)
        rw [hstep, onMessage_of_left rfl] at hquiet
        exact hquiet rfl
      have hverdict := verdict_at order codec hlt.le
      dsimp only at hverdict
      by_cases hfour : data.length < (s.len.toNat + 4) % 2 ^ 32
      · exact (hthrown (hverdict.trans (if_pos hfour))).elim
      rw [if_neg hfour] at hverdict
      have hfour' := Nat.le_of_not_lt hfour
      cases hheader : headerAt order codec data s.len.toNat with
      | none => exact .rejected hfour' hheader
      | some head =>
          rw [hheader] at hverdict
          have hargs : head.argsSize ≠ 0 → (s.len.toNat + 4 +
              (headerSizeAt order (data.drop s.len.toNat)).toNat) % 2 ^ 32 ≤ data.length := by
            intro hzero
            by_contra hbeyond
            apply hthrown
            rw [hverdict]
            dsimp only
            rw [if_neg hzero, if_pos (Nat.lt_of_not_le hbeyond)]
          obtain ⟨argsStr, len', hrequest, hlen'⟩ :=
            verdict_request hlt.le hfour' hheader hargs
          have hstep := round_of_request handle hrun hlt (Prod.ext rfl hrequest)
          have hrest := ih (s := round order codec handle data s) (by rw [hstep]) hleft hquiet
          rw [hstep, hlen'] at hrest
          exact .next hfour' hheader hargs hrest

/-! ## When a call returns -/

theorem residue_outOfRange_iff {tail : Bytes} (hfits : announced order codec tail < 2 ^ 32) :
    (residue order codec tail).2 = .outOfRange ↔ tail ≠ [] ∧ Overrun order codec tail := by
  rw [residue, Overrun]
  by_cases hnil : tail = []
  · simp [hnil]
  rw [announced, if_neg hnil] at hfits
  have hpos : (4 + (headerSizeAt order tail).toNat) % 2 ^ 32 =
      4 + (headerSizeAt order tail).toNat := Nat.mod_eq_of_lt (by omega)
  rw [if_neg hnil, hpos, and_iff_right hnil]
  by_cases hshort : tail.length < 4
  · simp [hshort]
  cases hparse : paddedHeader order codec tail with
  | none => simp [hshort]
  | some head =>
      by_cases hzero : head.argsSize = 0
      · simp [hshort, hzero]
      · by_cases hargs : tail.length < 4 + (headerSizeAt order tail).toNat
        · simp [hshort, hzero, hargs]
        · simp [hshort, hzero, hargs]

/-- No exception leaves a call exactly if the lengths in its buffer, taken
modulo 2^32, lead to the end or to a rejected header and to no position past the
end on the way. Where they do not overflow the cursor, the bytes behind the last
complete frame decide: either there are none, or the length among them is
complete and arguments, if they are announced, start inside. -/
theorem returnsInside_iff_staysInside (data : Bytes) (env : σ) :
    (ReturnsInside order codec handle data env ↔ StaysInside order codec data 0) ∧
      ∀ calls tail, (requestStream order codec).Splits data calls tail →
        readFrame order codec tail = none →
        data.length - tail.length + announced order codec tail < 2 ^ 32 →
        (ReturnsInside order codec handle data env ↔
          tail = [] ∨ ¬ Overrun order codec tail) := by
  refine ⟨?_, fun calls tail hsplit hstuck hfits => ?_⟩
  · rw [returnsInside_iff]
    constructor
    · rintro ⟨s, ⟨hleft, n, rfl⟩, hquiet⟩
      exact staysInside_of_returns (s := .start [] env) rfl hleft hquiet
    · intro hstays
      exact hstays.returns (s := .start [] env) rfl rfl
  · obtain ⟨s, hends, hexit, _⟩ := endsAs_splits handle hsplit hstuck
      (Scan.start_at data [] env) hfits
    have houtcome : (residue order codec tail).2 = .outOfRange ↔
        tail ≠ [] ∧ Overrun order codec tail := residue_outOfRange_iff (by omega)
    have hreturns : ReturnsInside order codec handle data env ↔
        (residue order codec tail).2 ≠ .outOfRange := by
      rw [returnsInside_iff]
      constructor
      · rintro ⟨s', hends', hquiet⟩ hthrown
        rw [hends'.unique hends, hexit] at hquiet
        exact hquiet (congrArg some hthrown)
      · intro hquiet
        exact ⟨s, hends, by rw [hexit]; simpa using hquiet⟩
    rw [hreturns, ne_eq, houtcome, not_and_or, not_not]

/-- One byte is enough: its length prefix is incomplete. -/
theorem not_returnsInside_single_byte :
    ¬ ReturnsInside .little wireHeader (fun (n : Nat) _ => n + 1) [0x00] 0 := by
  rintro ⟨s, hends, hquiet, _⟩
  have hthrown : EndsIn .little wireHeader (fun (n : Nat) _ => n + 1) [0x00] (.start [] 0)
      (onMessage .little wireHeader (fun (n : Nat) _ => n + 1) [0x00] 1 (.start [] 0)) :=
    ⟨by decide, 1, rfl⟩
  rw [hends.unique hthrown] at hquiet
  exact hquiet (by decide)

end KitRpc.Provider

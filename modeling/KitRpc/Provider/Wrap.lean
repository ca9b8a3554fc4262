import KitRpc.Provider.Positions
/-!
# When the cursor wraps

The cursor of the decoding loop is a `uint32_t`, and lengths chosen by the peer
are added to it. As long as no addition wraps, the loop is over after at most
one pass for every four bytes and one more.
-/

namespace KitRpc.Provider

open KitRpc.Foundation KitRpc.Cpp KitRpc.Proto

section

variable (order : ByteOrder) (codec : HeaderCodec)

/-- What a pass adds to the cursor, in order: the size of every copy it makes,
but for one that throws. -/
def additions (data : Bytes) (len : UInt32) : List UInt32 :=
  let (copies, verdict) := decodeRound order codec data len
  let made := match verdict with
    | .exit .outOfRange => copies.dropLast
    | _ => copies
  made.map fun c => UInt32.ofNat c.count

def NoWrap : UInt32 → List UInt32 → Prop
  | _, [] => True
  | word, n :: ns => word.toNat + n.toNat < 2 ^ 32 ∧ NoWrap (word + n) ns

/-- The frame announced at the front of `xs`, which stand at offset `a`, ends
where the cursor can point, as far as a pass follows what is announced. -/
def FitsCursor (a : Nat) (xs : Bytes) : Prop :=
  let headerSize := (headerSizeAt order xs).toNat
  a + 4 < 2 ^ 32 ∧
    (4 ≤ xs.length → a + 4 + headerSize < 2 ^ 32 ∧
      ∀ head, paddedHeader order codec xs = some head → head.argsSize ≠ 0 →
        4 + headerSize ≤ xs.length → a + 4 + headerSize + head.argsSize.toNat < 2 ^ 32)

end

def Scan.Over {σ : Type} (data : Bytes) (s : Scan σ) : Prop :=
  s.exit ≠ none ∨ data.length ≤ s.len.toNat

/-- The loop is over after `data.size() / 4 + 1` passes, and no addition of a
pass wraps, so every pass that does not leave the loop moves the cursor on. -/
structure DecodesWithoutWrap {σ : Type} (order : ByteOrder) (codec : HeaderCodec)
    (handle : σ → Call → σ) (data : Bytes) (env : σ) : Prop where
  rounds : (onMessage order codec handle data (data.length / 4 + 1) (.start [] env)).Over data
  noWrap : ∀ n, let s := onMessage order codec handle data n (.start [] env)
    ¬ s.Over data → NoWrap s.len (additions order codec data s.len)
  grows : ∀ n, let s := onMessage order codec handle data n (.start [] env)
    ¬ s.Over data → ∀ head argsStr len,
      (decodeRound order codec data s.len).2 = .request head argsStr len →
        s.len.toNat < len.toNat

variable {order : ByteOrder} {codec : HeaderCodec} {σ : Type} {handle : σ → Call → σ}

/-! ## The additions of one pass -/

theorem le_toNat_foldl_of_noWrap {word : UInt32} {ns : List UInt32} (h : NoWrap word ns) :
    word.toNat ≤ (ns.foldl (· + ·) word).toNat := by
  induction ns generalizing word with
  | nil => exact Nat.le_refl _
  | cons n ns ih =>
      have hrest := ih h.2
      rw [toNat_add_of_lt h.1] at hrest
      rw [List.foldl_cons]
      omega

theorem additions_eq {data : Bytes} {len : UInt32} (hlen : len.toNat ≤ data.length) :
    let headerSize := headerSizeAt order (data.drop len.toNat)
    additions order codec data len =
      4 :: if data.length < (len + 4).toNat then []
        else headerSize ::
          match codec.parse (zeroFill headerSize.toNat (data.drop (len + 4).toNat)) with
          | none => []
          | some head =>
            if head.argsSize = 0 ∨ data.length < (len + 4 + headerSize).toNat then []
            else [head.argsSize] := by
  unfold additions decodeRound headerSizeAt
  rw [copy_zeros hlen]
  dsimp only
  generalize order.readWord (zeroFill 4 (data.drop len.toNat)) = headerSize
  by_cases hshort : data.length < (len + 4).toNat
  · rw [copy_eq_none_iff.mpr hshort, if_pos hshort]
    rfl
  · rw [copy_zeros (Nat.le_of_not_lt hshort), if_neg hshort]
    cases hparse : codec.parse (zeroFill headerSize.toNat (data.drop (len + 4).toNat)) with
    | none =>
        simp only [hparse, List.map_cons, List.map_nil, UInt32.ofNat_toNat]
        rfl
    | some head =>
        simp only [hparse]
        by_cases hzero : head.argsSize = 0
        · have hnone : ¬ 0 < head.argsSize := fun h => UInt32.pos_iff_ne_zero.mp h hzero
          rw [if_neg hnone, if_pos (Or.inl hzero)]
          simp
        · rw [if_pos (UInt32.pos_iff_ne_zero.mpr hzero)]
          by_cases hargs : data.length < (len + 4 + headerSize).toNat
          · rw [copy_eq_none_iff.mpr hargs, if_pos (Or.inr hargs)]
            simp
          · rw [copy_zeros (Nat.le_of_not_lt hargs), if_neg (not_or.mpr ⟨hzero, hargs⟩)]
            simp

theorem foldl_additions {data argsStr : Bytes} {len len' : UInt32} {head : RpcHeader}
    (hlen : len.toNat ≤ data.length)
    (h : (decodeRound order codec data len).2 = .request head argsStr len') :
    (additions order codec data len).foldl (· + ·) len = len' := by
  rw [decodeRound_verdict order codec hlen] at h
  rw [additions_eq hlen]
  dsimp only at h ⊢
  generalize headerSizeAt order (data.drop len.toNat) = headerSize at *
  by_cases hshort : data.length < (len + 4).toNat
  · rw [if_pos hshort] at h
    cases h
  rw [if_neg hshort] at h ⊢
  generalize codec.parse (zeroFill headerSize.toNat (data.drop (len + 4).toNat)) = parsed at *
  cases parsed with
  | none => cases h
  | some head' =>
      dsimp only at h ⊢
      by_cases hzero : head'.argsSize = 0
      · rw [if_pos hzero] at h
        cases h
        rw [if_pos (Or.inl hzero)]
        rfl
      · rw [if_neg hzero] at h
        by_cases hargs : data.length < (len + 4 + headerSize).toNat
        · rw [if_pos hargs] at h
          cases h
        · rw [if_neg hargs] at h
          cases h
          rw [if_neg (not_or.mpr ⟨hzero, hargs⟩)]
          rfl

theorem noWrap_additions_iff {data : Bytes} {len : UInt32} (hlen : len.toNat ≤ data.length) :
    NoWrap len (additions order codec data len) ↔
      FitsCursor order codec len.toNat (data.drop len.toNat) := by
  rw [additions_eq hlen, NoWrap, FitsCursor, paddedHeader, List.drop_drop, List.length_drop]
  apply and_congr_right
  intro hfour
  have hpos : (len + 4).toNat = len.toNat + 4 := toNat_add_of_lt (b := 4) hfour
  rw [hpos]
  by_cases hshort : data.length < len.toNat + 4
  · rw [if_pos hshort]
    exact iff_of_true trivial fun h => absurd h (by omega)
  rw [if_neg hshort, NoWrap, hpos, forall_prop_of_true (by omega)]
  apply and_congr_right
  intro hheader
  have hpos₂ : (len + 4 + headerSizeAt order (data.drop len.toNat)).toNat =
      len.toNat + 4 + (headerSizeAt order (data.drop len.toNat)).toNat := by
    rw [toNat_add_of_lt (hpos ▸ hheader), hpos]
  cases hparse : codec.parse (zeroFill (headerSizeAt order (data.drop len.toNat)).toNat
      (data.drop (len.toNat + 4))) with
  | none => simp [NoWrap]
  | some head =>
      simp only [Option.some.injEq, forall_eq']
      by_cases hzero : head.argsSize = 0
      · rw [if_pos (Or.inl hzero)]
        exact iff_of_true trivial fun h => absurd hzero h
      · by_cases hargs : data.length < (len + 4 + headerSizeAt order (data.drop len.toNat)).toNat
        · rw [if_pos (Or.inr hargs)]
          exact iff_of_true trivial fun _ h => absurd h (by omega)
        · rw [if_neg (not_or.mpr ⟨hzero, hargs⟩), NoWrap, hpos₂, NoWrap, and_true,
            forall_prop_of_true hzero, forall_prop_of_true (by omega)]

theorem Framed.fitsCursor {data xs rest : Bytes} {call : Call} {a : Nat}
    (h : Framed order codec xs call rest) (hat : a + xs.length = data.length)
    (hsize : data.length < 2 ^ 32) : FitsCursor order codec a xs := by
  obtain ⟨hfour, hhead, hparse, hargs⟩ := h
  rename_i mem headStr argsStr head
  simp only [List.length_append] at hat
  rw [FitsCursor, paddedHeader, headerSizeAt_append hfour, ← hfour, List.drop_left,
    zeroFill_of_le (by simp [hhead]), ← hhead, List.take_left, hparse]
  refine ⟨by omega, fun _ => ⟨by omega, fun head' hsome _ _ => ?_⟩⟩
  cases hsome
  omega

theorem lt_of_noWrap {data argsStr : Bytes} {len len' : UInt32} {head : RpcHeader}
    (hlen : len.toNat ≤ data.length) (hfits : NoWrap len (additions order codec data len))
    (h : (decodeRound order codec data len).2 = .request head argsStr len') :
    len.toNat < len'.toNat := by
  rw [additions_eq hlen] at hfits
  have hnext : (len + 4).toNat = len.toNat + 4 := toNat_add_of_lt hfits.1
  rw [← foldl_additions hlen h, additions_eq hlen, List.foldl_cons]
  calc
    len.toNat < (len + 4).toNat := by omega
    _ ≤ _ := le_toNat_foldl_of_noWrap hfits.2

theorem headerAt_eq_paddedHeader {data : Bytes} {a : Nat} (h : a + 4 < 2 ^ 32) :
    headerAt order codec data a = paddedHeader order codec (data.drop a) := by
  rw [headerAt, paddedHeader, List.drop_drop, Nat.mod_eq_of_lt h]

/-- Behind the last complete frame, a request is handed on only with the cursor
past the end of the buffer. -/
theorem beyond_of_stuck {data argsStr : Bytes} {len len' : UInt32} {head : RpcHeader}
    (hlt : len.toNat < data.length)
    (hstuck : readFrame order codec (data.drop len.toNat) = none)
    (hfits : FitsCursor order codec len.toNat (data.drop len.toNat))
    (h : (decodeRound order codec data len).2 = .request head argsStr len') :
    data.length ≤ len'.toNat := by
  obtain ⟨hfour, hrest⟩ := hfits
  have hverdict := verdict_at order codec hlt.le
  dsimp only at hverdict
  rw [h, headerAt_eq_paddedHeader hfour, Nat.mod_eq_of_lt hfour] at hverdict
  by_cases hshort : data.length < len.toNat + 4
  · rw [if_pos hshort] at hverdict
    cases hverdict
  rw [if_neg hshort] at hverdict
  have hlong : 4 ≤ (data.drop len.toNat).length := by
    rw [List.length_drop]
    omega
  obtain ⟨hheader, hargs⟩ := hrest hlong
  have hpos : (len + 4 + headerSizeAt order (data.drop len.toNat)).toNat =
      len.toNat + 4 + (headerSizeAt order (data.drop len.toNat)).toNat := by
    calc
      _ = (len + 4).toNat + (headerSizeAt order (data.drop len.toNat)).toNat := by
        apply toNat_add_of_lt
        rwa [toNat_add_four, Nat.mod_eq_of_lt hfour]
      _ = _ := by rw [toNat_add_four, Nat.mod_eq_of_lt hfour]
  cases hparse : paddedHeader order codec (data.drop len.toNat) with
  | none =>
      rw [hparse] at hverdict
      cases hverdict
  | some announcedHead =>
      have hbeyond := length_lt_announced hstuck hlong hparse
      rw [List.length_drop] at hbeyond hargs
      rw [hparse] at hverdict
      dsimp only at hverdict
      by_cases hzero : announcedHead.argsSize = 0
      · rw [if_pos hzero] at hverdict
        cases hverdict
        rw [hzero, UInt32.toNat_zero] at hbeyond
        omega
      · rw [if_neg hzero, Nat.mod_eq_of_lt hheader] at hverdict
        by_cases hpast : data.length <
            len.toNat + 4 + (headerSizeAt order (data.drop len.toNat)).toNat
        · rw [if_pos hpast] at hverdict
          cases hverdict
        · rw [if_neg hpast] at hverdict
          cases hverdict
          have hfits := hargs _ hparse hzero (by omega)
          rw [toNat_add_of_lt (by rwa [hpos]), hpos]
          omega

/-! ## The loop -/

theorem Scan.Over.round {data : Bytes} {s : Scan σ} (h : s.Over data) :
    (Provider.round order codec handle data s).Over data := by
  cases hrun : s.exit with
  | some e =>
      rw [round_of_left hrun]
      exact .inl (by simp [hrun])
  | none =>
      have hend := h.resolve_left (by simp [hrun])
      rw [round_of_end order codec handle hrun hend]
      exact .inl (by simp)

theorem Scan.Over.onMessage {data : Bytes} {s : Scan σ} (h : s.Over data) (n : Nat) :
    (Provider.onMessage order codec handle data n s).Over data := by
  induction n with
  | zero => exact h
  | succ n ih =>
      rw [onMessage_succ']
      exact ih.round

theorem Framed.length_rest_add_four {xs rest : Bytes} {call : Call}
    (h : Framed order codec xs call rest) : rest.length + 4 ≤ xs.length := by
  obtain ⟨hfour, _, _, _⟩ := h
  simp only [List.length_append]
  omega

variable (handle) in
theorem onMessage_at_frame {data xs tail : Bytes} {calls : List Call} {s : Scan σ}
    (hsplit : (requestStream order codec).Splits xs calls tail) (hat : s.At data xs)
    (hsize : data.length < 2 ^ 32) {n : Nat} (hn : n ≤ calls.length) :
    ∃ ys, (onMessage order codec handle data n s).At data ys ∧
      (requestStream order codec).Splits ys (calls.drop n) tail ∧
      4 * n + ys.length ≤ xs.length := by
  induction hsplit generalizing s n with
  | done xs =>
      obtain rfl : n = 0 := by simpa using hn
      exact ⟨xs, hat, .done xs, by omega⟩
  | @item xs rest tail call calls hnext hrest ih =>
      cases n with
      | zero => exact ⟨xs, hat, .item hnext hrest, by omega⟩
      | succ n =>
          have hframe := readFrame_eq_some_iff.mp hnext
          have hshort := hframe.length_rest_add_four
          obtain ⟨hat', _⟩ := round_framed handle hat hframe (by omega)
          obtain ⟨ys, hys, hsplit', hlength⟩ := ih hat' (Nat.le_of_succ_le_succ hn)
          exact ⟨ys, hys, hsplit', by omega⟩

theorem not_over_iff {data xs : Bytes} {s : Scan σ} (hat : s.At data xs) :
    ¬ s.Over data ↔ xs ≠ [] := by
  rw [Scan.Over, not_or, not_not, and_iff_right hat.running, Nat.not_le, ← List.length_pos_iff]
  have hcursor := hat.cursor
  omega

theorem over_of_stuck {data tail : Bytes} {s : Scan σ} (hat : s.At data tail)
    (hstuck : readFrame order codec tail = none)
    (hfits : FitsCursor order codec s.len.toNat tail) :
    (round order codec handle data s).Over data := by
  by_cases hover : s.Over data
  · exact hover.round
  have hlt : s.len.toNat < data.length := by
    have hcursor := hat.cursor
    have htail := List.length_pos_iff.mpr ((not_over_iff hat).mp hover)
    omega
  rw [← hat.drop] at hstuck hfits
  rcases hround : decodeRound order codec data s.len with ⟨copies, verdict⟩
  cases verdict with
  | exit e =>
      rw [round_of_exit handle hat.running hlt hround]
      exact .inl (by simp)
  | request head argsStr len =>
      rw [round_of_request handle hat.running hlt hround]
      exact .inr (beyond_of_stuck hlt hstuck hfits (by rw [hround]))

section

variable {data tail : Bytes} {calls : List Call}

variable (handle) in
theorem onMessage_behind_frames (env : σ)
    (hsplit : (requestStream order codec).Splits data calls tail)
    (hsize : data.length < 2 ^ 32) :
    (onMessage order codec handle data calls.length (.start [] env)).At data tail ∧
      4 * calls.length + tail.length ≤ data.length := by
  obtain ⟨ys, hat, hnone, hlength⟩ :=
    onMessage_at_frame handle hsplit (Scan.start_at data [] env) hsize (le_refl calls.length)
  rw [List.drop_length] at hnone
  cases hnone
  exact ⟨hat, hlength⟩

theorem over_behind_frames (env : σ)
    (hsplit : (requestStream order codec).Splits data calls tail)
    (hstuck : readFrame order codec tail = none) (hsize : data.length < 2 ^ 32)
    (hfits : tail = [] ∨ FitsCursor order codec (data.length - tail.length) tail) {n : Nat}
    (hn : calls.length < n) :
    (onMessage order codec handle data n (.start [] env)).Over data := by
  obtain ⟨hat, _⟩ := onMessage_behind_frames handle env hsplit hsize
  have hcursor := hat.cursor
  have hlast : (round order codec handle data
      (onMessage order codec handle data calls.length (.start [] env))).Over data := by
    apply hfits.elim
    · intro hnil
      exact Scan.Over.round (by by_contra hrun; exact (not_over_iff hat).mp hrun hnil)
    · rw [show data.length - tail.length =
        (onMessage order codec handle data calls.length (.start [] env)).len.toNat by omega]
      exact over_of_stuck hat hstuck
  rw [← onMessage_succ'] at hlast
  rw [← Nat.add_sub_of_le hn, onMessage_add]
  exact hlast.onMessage _

variable (handle) in
theorem noWrap_of_running (env : σ)
    (hsplit : (requestStream order codec).Splits data calls tail)
    (hstuck : readFrame order codec tail = none) (hsize : data.length < 2 ^ 32)
    (hfits : tail = [] ∨ FitsCursor order codec (data.length - tail.length) tail) {n : Nat}
    (hrun : ¬ (onMessage order codec handle data n (.start [] env)).Over data) :
    let s := onMessage order codec handle data n (.start [] env)
    s.len.toNat ≤ data.length ∧ NoWrap s.len (additions order codec data s.len) := by
  intro s
  have hn : n ≤ calls.length := by
    by_contra hlate
    exact hrun (over_behind_frames env hsplit hstuck hsize hfits (by omega))
  obtain ⟨ys, hys, hsplit', _⟩ :=
    onMessage_at_frame handle hsplit (Scan.start_at data [] env) hsize hn
  have hcursor : s.len.toNat + ys.length = data.length := hys.cursor
  refine ⟨by omega, ?_⟩
  rw [noWrap_additions_iff (by omega), hys.drop]
  generalize calls.drop n = rest at hsplit'
  cases hsplit' with
  | done =>
      have hbehind := hfits.resolve_left ((not_over_iff hys).mp hrun)
      rwa [show s.len.toNat = data.length - tail.length by omega]
  | item hnext _ => exact (readFrame_eq_some_iff.mp hnext).fitsCursor hcursor hsize

end

/-- A buffer below four GiB ends in bytes that start no complete frame. The loop
decodes it without a wrap and within its bound of passes exactly if there are no
such bytes or what they announce ends where the cursor can point. -/
theorem decodesWithoutWrap_iff (data : Bytes) (env : σ) (hsize : data.length < 2 ^ 32) :
    ∃ calls tail, (requestStream order codec).Splits data calls tail ∧
      readFrame order codec tail = none ∧
      (DecodesWithoutWrap order codec handle data env ↔
        tail = [] ∨ FitsCursor order codec (data.length - tail.length) tail) := by
  obtain ⟨calls, tail, hsplit, hstuck⟩ := (requestStream order codec).exists_stuck data
  refine ⟨calls, tail, hsplit, hstuck, ?_⟩
  obtain ⟨hat, hlength⟩ := onMessage_behind_frames handle env hsplit hsize
  have hcursor := hat.cursor
  constructor
  · intro hdecodes
    by_cases hnil : tail = []
    · exact .inl hnil
    · right
      have hbehind := hdecodes.noWrap calls.length ((not_over_iff hat).mpr hnil)
      rw [noWrap_additions_iff (by omega), hat.drop] at hbehind
      rwa [show data.length - tail.length =
        (onMessage order codec handle data calls.length (.start [] env)).len.toNat by omega]
  · intro hfits
    have hpass {n : Nat} := noWrap_of_running (n := n) handle env hsplit hstuck hsize hfits
    refine ⟨?_, fun n hrun => (hpass hrun).2, ?_⟩
    · exact over_behind_frames env hsplit hstuck hsize hfits (by omega)
    · intro n s hrun head argsStr len hrequest
      exact lt_of_noWrap (hpass hrun).1 (hpass hrun).2 hrequest

theorem decodesWithoutWrap_loginFrame :
    ∃ calls tail, (requestStream .little wireHeader).Splits loginFrame calls tail ∧
      readFrame .little wireHeader tail = none ∧
      (DecodesWithoutWrap .little wireHeader (fun (n : Nat) _ => n + 1) loginFrame 0 ↔
        tail = [] ∨ FitsCursor .little wireHeader (loginFrame.length - tail.length) tail) :=
  decodesWithoutWrap_iff loginFrame 0 (by decide)

/-- A frame whose header announces 2^32 - 16 bytes of arguments, which take the
cursor from 16 back to 0. -/
def endlessFrame : Bytes :=
  [0x0c, 0, 0, 0, 0x0a, 0x01, 0x55, 0x12, 0x01, 0x4c, 0x18, 0xf0, 0xff, 0xff, 0xff, 0x0f]

theorem endlessFrame_verdict :
    ∃ head argsStr, (decodeRound .little wireHeader endlessFrame 0).2 =
      .request head argsStr 0 := by
  have hheader : headerAt .little wireHeader endlessFrame (0 : UInt32).toNat =
      some ⟨[0x55], [0x4c], 0xfffffff0⟩ := by decide
  have hsize : headerSizeAt .little (endlessFrame.drop (0 : UInt32).toNat) = 12 := by decide
  obtain ⟨argsStr, len', hverdict, hlen'⟩ :=
    verdict_request (by decide) (by decide) hheader (by rw [hsize]; decide)
  rw [hsize] at hlen'
  have hzero : len' = 0 := UInt32.toNat_inj.mp (hlen'.trans (by decide))
  exact ⟨_, argsStr, hzero ▸ hverdict⟩

theorem endlessFrame_loops {s : Scan Nat} (hrun : s.exit = none) (hlen : s.len = 0) (n : Nat) :
    (onMessage .little wireHeader (fun requests _ => requests + 1) endlessFrame n s).exit = none ∧
      (onMessage .little wireHeader (fun requests _ => requests + 1) endlessFrame n s).len = 0 := by
  induction n with
  | zero => exact ⟨hrun, hlen⟩
  | succ n ih =>
      obtain ⟨hrun', hlen'⟩ := ih
      obtain ⟨head, argsStr, hverdict⟩ := endlessFrame_verdict
      rw [← hlen'] at hverdict
      have hstep := round_of_request (fun requests _ => requests + 1) hrun'
        (by rw [hlen']; decide) (Prod.ext rfl hverdict)
      rw [← onMessage_succ', hlen'] at hstep
      rw [hstep]
      exact ⟨rfl, rfl⟩

theorem not_decodesWithoutWrap_endlessFrame :
    ¬ DecodesWithoutWrap .little wireHeader (fun (n : Nat) _ => n + 1) endlessFrame 0 := by
  intro hdecodes
  obtain ⟨hrun, hlen⟩ := endlessFrame_loops (s := .start [] 0) rfl rfl
    (endlessFrame.length / 4 + 1)
  apply hdecodes.rounds.elim
  · exact fun hleft => hleft hrun
  · intro hend
    rw [hlen] at hend
    exact absurd hend (by decide)

end KitRpc.Provider

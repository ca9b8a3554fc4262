import KitRpc.Foundation.Stream
import KitRpc.Provider.OnMessage
/-!
# Request frames

The protocol as it is written down next to the decoder: a four-byte header
size, the header, the arguments whose size the header holds. `requestStream`
takes complete frames off a byte stream and knows nothing of the decoder's
32-bit cursor; the lemmas below say when the loop of `onMessage` follows it.
-/

namespace KitRpc.Provider

open KitRpc.Cpp KitRpc.Foundation KitRpc.Proto

section

variable (order : ByteOrder) (codec : HeaderCodec)

/-- The arguments behind a header, if the header was accepted. -/
def readArgs : Option RpcHeader → Bytes → Option (Call × Bytes)
  | none, _ => none
  | some head, xs =>
      (takeExactly head.argsSize.toNat xs).map fun (argsStr, rest) => ((head, argsStr), rest)

def readHeaded (headerSize : UInt32) (xs : Bytes) : Option (Call × Bytes) :=
  (takeExactly headerSize.toNat xs).bind fun (headStr, rest) =>
    readArgs (codec.parse headStr) rest

def readFrame (xs : Bytes) : Option (Call × Bytes) :=
  (takeExactly 4 xs).bind fun (mem, rest) => readHeaded codec (order.readWord mem) rest

/-- `Framed xs call rest`: `xs` starts with a complete frame for `call`. -/
inductive Framed : Bytes → Call → Bytes → Prop
  | intro {mem headStr argsStr rest : Bytes} {head : RpcHeader} :
      mem.length = 4 → headStr.length = (order.readWord mem).toNat →
      codec.parse headStr = some head → argsStr.length = head.argsSize.toNat →
      Framed (mem ++ (headStr ++ (argsStr ++ rest))) (head, argsStr) rest

end

variable {order : ByteOrder} {codec : HeaderCodec}

theorem readArgs_local (head : Option RpcHeader) : LocalReader (readArgs head) := by
  cases head with
  | none => exact LocalReader.none
  | some head =>
      exact (takeExactly_local head.argsSize.toNat).map fun argsStr => (head, argsStr)

theorem readFrame_local : LocalReader (readFrame order codec) :=
  (takeExactly_local 4).bind fun mem =>
    (takeExactly_local (order.readWord mem).toNat).bind fun headStr =>
      readArgs_local (codec.parse headStr)

theorem readFrame_eq_some_iff {xs rest : Bytes} {call : Call} :
    readFrame order codec xs = some (call, rest) ↔ Framed order codec xs call rest := by
  constructor
  · intro h
    rw [readFrame, Option.bind_eq_some_iff] at h
    obtain ⟨⟨mem, afterMem⟩, hmem, h⟩ := h
    simp only [readHeaded, Option.bind_eq_some_iff] at h
    obtain ⟨⟨headStr, afterHead⟩, hhead, h⟩ := h
    cases hparse : codec.parse headStr with
    | none => simp [readArgs, hparse] at h
    | some head =>
        simp only [hparse, readArgs, Option.map_eq_some_iff] at h
        obtain ⟨⟨argsStr, rest'⟩, hargs, heq⟩ := h
        cases heq
        obtain ⟨rfl, hfour⟩ := takeExactly_eq_some hmem
        obtain ⟨rfl, hsize⟩ := takeExactly_eq_some hhead
        obtain ⟨rfl, hargsSize⟩ := takeExactly_eq_some hargs
        exact .intro hfour hsize hparse hargsSize
  · rintro ⟨hfour, hsize, hparse, hargsSize⟩
    rename_i mem headStr argsStr head
    have hmem := takeExactly_append mem (headStr ++ (argsStr ++ rest))
    have hhead := takeExactly_append headStr (argsStr ++ rest)
    have hargs := takeExactly_append argsStr rest
    rw [hfour] at hmem
    rw [hsize] at hhead
    rw [hargsSize] at hargs
    simp only [readFrame, hmem, Option.bind_some, readHeaded, hhead, hparse, readArgs, hargs,
      Option.map_some]

theorem Framed.length_rest_lt {xs rest : Bytes} {call : Call}
    (h : Framed order codec xs call rest) : rest.length < xs.length := by
  obtain ⟨hfour, _, _, _⟩ := h
  simp only [List.length_append]
  omega

def requestStream (order : ByteOrder) (codec : HeaderCodec) : StreamDecoder UInt8 Call where
  next := readFrame order codec
  isLocal := readFrame_local
  shrinks := fun h => (readFrame_eq_some_iff.mp h).length_rest_lt

def CopiesInside (data : Bytes) (copies : List Copy) : Prop :=
  ∀ c ∈ copies, c.pos + c.count ≤ data.length

theorem headerSizeAt_append {mem : Bytes} (hmem : mem.length = 4) (xs : Bytes) :
    headerSizeAt order (mem ++ xs) = order.readWord mem := by
  rw [headerSizeAt, zeroFill_of_le (by simp [hmem]), ← hmem, List.take_left]

theorem toNat_add_of_lt {a b : UInt32} (h : a.toNat + b.toNat < 2 ^ 32) :
    (a + b).toNat = a.toNat + b.toNat := by
  rw [UInt32.toNat_add]
  exact Nat.mod_eq_of_lt h

theorem copy_zeros_of_drop {data block rest : Bytes} {pos : Nat} (hpos : pos ≤ data.length)
    (hat : data.drop pos = block ++ rest) :
    copy data (zeros block.length) block.length pos = some block := by
  rw [copy_zeros hpos, hat, zeroFill_of_le (by simp), List.take_left]

theorem drop_add_length {data block rest : Bytes} {pos : Nat}
    (hat : data.drop pos = block ++ rest) : data.drop (pos + block.length) = rest := by
  rw [← List.drop_drop, hat, List.drop_left]

theorem decodeRound_framed {data xs rest : Bytes} {call : Call} {len : UInt32}
    (hat : data.drop len.toNat = xs) (hframe : Framed order codec xs call rest)
    (hend : data.length - rest.length < 2 ^ 32) :
    ∃ copies len', decodeRound order codec data len = (copies, .request call.1 call.2 len') ∧
      len'.toNat + rest.length = data.length ∧ CopiesInside data copies := by
  obtain ⟨hfour, hsize, hparse, hargs⟩ := hframe
  rename_i mem headStr argsStr head
  have htotal := congrArg List.length hat
  simp only [List.length_drop, List.length_append] at htotal
  have hfourNat : (4 : UInt32).toNat = 4 := rfl
  -- The three positions of the pass, none of which wraps.
  have hpos₁ : (len + 4).toNat = len.toNat + mem.length := by
    rw [toNat_add_of_lt (by omega), hfour, hfourNat]
  have hpos₂ : (len + 4 + order.readWord mem).toNat =
      len.toNat + mem.length + headStr.length := by
    calc
      _ = (len + 4).toNat + (order.readWord mem).toNat := toNat_add_of_lt (by omega)
      _ = _ := by rw [hpos₁, hsize]
  have hpos₃ : (len + 4 + order.readWord mem + head.argsSize).toNat =
      len.toNat + mem.length + headStr.length + argsStr.length := by
    calc
      _ = (len + 4 + order.readWord mem).toNat + head.argsSize.toNat :=
        toNat_add_of_lt (by omega)
      _ = _ := by rw [hpos₂, hargs]
  have hat₁ := drop_add_length hat
  have hat₂ := drop_add_length hat₁
  have hcopy := copy_zeros_of_drop (by omega) hat
  have hcopy₁ := copy_zeros_of_drop (by omega) hat₁
  have hcopy₂ := copy_zeros_of_drop (by omega) hat₂
  rw [hfour] at hcopy
  rw [hsize, ← hpos₁] at hcopy₁
  rw [hargs, ← hpos₂] at hcopy₂
  simp only [decodeRound, hcopy, hcopy₁, hparse, hcopy₂]
  by_cases hzero : 0 < head.argsSize
  · refine ⟨_, _, by rw [if_pos hzero], by omega, ?_⟩
    simp only [CopiesInside, List.forall_mem_cons]
    exact ⟨by omega, by omega, by omega, by simp⟩
  · have hargsZero : head.argsSize = 0 := by
      simpa [UInt32.pos_iff_ne_zero] using hzero
    have hnil : argsStr = [] := by
      apply List.length_eq_zero_iff.mp
      rw [hargs, hargsZero, UInt32.toNat_zero]
    subst hnil
    refine ⟨_, _, by rw [if_neg hzero, hargsZero, UInt32.toNat_zero, zeros_zero], ?_, ?_⟩
    · rw [hpos₂]
      simp only [List.length_nil] at htotal
      omega
    · simp only [CopiesInside, List.forall_mem_cons]
      exact ⟨by omega, by omega, by simp⟩

/-! ## The loop on complete frames -/

variable {σ : Type} (handle : σ → Call → σ)

/-- The loop is running and has `xs` in front of its cursor. -/
structure Scan.At (s : Scan σ) (data xs : Bytes) : Prop where
  running : s.exit = none
  cursor : s.len.toNat + xs.length = data.length
  suffix : xs <:+ data

theorem Scan.At.drop {s : Scan σ} {data xs : Bytes} (h : s.At data xs) :
    data.drop s.len.toNat = xs := by
  obtain ⟨used, rfl⟩ := h.suffix
  have hcursor := h.cursor
  rw [List.length_append, Nat.add_right_cancel_iff] at hcursor
  rw [hcursor, List.drop_left]

theorem Scan.start_at (data : Bytes) (calls : List Call) (env : σ) :
    (Scan.start calls env).At data data :=
  ⟨rfl, by simp [Scan.start], List.suffix_refl data⟩

structure Scan.Handed (handle : σ → Call → σ) (data : Bytes) (s : Scan σ)
    (handed : List Call) (s' : Scan σ) : Prop where
  calls : s'.calls = s.calls ++ handed
  env : s'.env = handed.foldl handle s.env
  copies : CopiesInside data s.copies → CopiesInside data s'.copies

theorem CopiesInside.append {data : Bytes} {left right : List Copy}
    (hl : CopiesInside data left) (hr : CopiesInside data right) :
    CopiesInside data (left ++ right) := by
  intro c hc
  apply (List.mem_append.mp hc).elim
  · exact hl c
  · exact hr c

theorem round_framed {data xs rest : Bytes} {call : Call} {s : Scan σ}
    (hat : s.At data xs) (hframe : Framed order codec xs call rest)
    (hend : data.length - rest.length < 2 ^ 32) :
    (round order codec handle data s).At data rest ∧
      s.Handed handle data [call] (round order codec handle data s) := by
  obtain ⟨copies, len', hround, hcursor, hinside⟩ :=
    decodeRound_framed hat.drop hframe hend
  have hxs := hat.cursor
  have hshort := hframe.length_rest_lt
  have hlocal := readFrame_local (readFrame_eq_some_iff.mpr hframe)
  obtain ⟨used, rfl⟩ := hlocal.1
  rw [round_of_request handle hat.running (by omega) hround]
  exact ⟨⟨rfl, hcursor, (List.suffix_append used rest).trans hat.suffix⟩,
    ⟨rfl, rfl, fun h => h.append hinside⟩⟩

theorem onMessage_splits {data xs tail : Bytes} {calls : List Call} {s : Scan σ}
    (hsplit : (requestStream order codec).Splits xs calls tail) (hat : s.At data xs)
    (hend : data.length - tail.length < 2 ^ 32) :
    (onMessage order codec handle data calls.length s).At data tail ∧
      s.Handed handle data calls (onMessage order codec handle data calls.length s) := by
  induction hsplit generalizing s with
  | done => exact ⟨hat, ⟨by simp, rfl, id⟩⟩
  | @item xs rest tail call calls hnext hrest ih =>
      have hframe := readFrame_eq_some_iff.mp hnext
      have htail := hrest.length_tail_le
      obtain ⟨hat', hhanded⟩ := round_framed handle hat hframe (by omega)
      obtain ⟨hat'', hhanded'⟩ := ih hat' hend
      rw [List.length_cons, onMessage_succ]
      refine ⟨hat'', ?_, ?_, fun h => hhanded'.copies (hhanded.copies h)⟩
      · rw [hhanded'.calls, hhanded.calls]
        simp
      · rw [hhanded'.env, hhanded.env]
        rfl

theorem endsIn_finished {data : Bytes} {calls : List Call} {s : Scan σ}
    (hsplit : (requestStream order codec).Splits data calls []) (hat : s.At data data)
    (hsize : data.length < 2 ^ 32) :
    ∃ s', EndsIn order codec handle data s s' ∧ s'.exit = some .finished ∧
      s'.len.toNat = data.length ∧ s.Handed handle data calls s' := by
  obtain ⟨hend, hhanded⟩ := onMessage_splits handle hsplit hat (by simpa using hsize)
  have hcursor := hend.cursor
  rw [List.length_nil, Nat.add_zero] at hcursor
  have hstep := round_of_end order codec handle
    hend.running hcursor.ge
  rw [← onMessage_succ'] at hstep
  exact ⟨_, ⟨by simp, _, hstep⟩, rfl, hcursor, ⟨hhanded.calls, hhanded.env, hhanded.copies⟩⟩

/-- A frame whose header is complete and rejected ends the call before it. -/
theorem endsIn_rejected {data headStr more : Bytes} {calls : List Call} {s : Scan σ}
    (hsplit : (requestStream order codec).Splits data calls
      (order.writeWord (UInt32.ofNat headStr.length) ++ (headStr ++ more)))
    (hreject : codec.parse headStr = none) (hat : s.At data data)
    (hsize : data.length < 2 ^ 32) :
    ∃ s', EndsIn order codec handle data s s' ∧ s'.exit = some .headerRejected ∧
      s.Handed handle data calls s' := by
  obtain ⟨hend, hhanded⟩ := onMessage_splits handle hsplit hat (by omega)
  set s₁ := onMessage order codec handle data calls.length s
  have hcursor := hend.cursor
  simp only [List.length_append, ByteOrder.length_writeWord] at hcursor
  have hfour : (4 : UInt32).toNat = 4 := rfl
  have hheadNat : (UInt32.ofNat headStr.length).toNat = headStr.length := by
    rw [UInt32.toNat_ofNat']
    exact Nat.mod_eq_of_lt (by omega)
  have hpos : (s₁.len + 4).toNat = s₁.len.toNat + 4 := by
    rw [toNat_add_of_lt (by omega), hfour]
  have hword := order.length_writeWord (UInt32.ofNat headStr.length)
  have hcopy := copy_zeros_of_drop (by omega) hend.drop
  have hcopy₁ := copy_zeros_of_drop (by omega) (drop_add_length hend.drop)
  rw [hword] at hcopy hcopy₁
  have hround : decodeRound order codec data s₁.len =
      ([⟨s₁.len.toNat, 4⟩, ⟨s₁.len.toNat + 4, headStr.length⟩], .exit .headerRejected) := by
    simp only [decodeRound, hcopy, ByteOrder.readWord_writeWord, hheadNat, hpos, hcopy₁,
      hreject]
  have hstep := round_of_exit handle hend.running (by omega) hround
  rw [← onMessage_succ'] at hstep
  refine ⟨_, ⟨by simp, _, hstep⟩, rfl, hhanded.calls, hhanded.env, fun h => ?_⟩
  apply (hhanded.copies h).append
  simp only [CopiesInside, List.forall_mem_cons]
  exact ⟨by omega, by omega, by simp⟩

/-- A frame as a little-endian caller sends it: service `U`, method `L` and
three bytes of arguments. -/
def loginFrame : Bytes :=
  [0x08, 0, 0, 0, 0x0a, 0x01, 0x55, 0x12, 0x01, 0x4c, 0x18, 0x03, 0x61, 0x00, 0x62]

end KitRpc.Provider

import KitRpc.Foundation.Simulation
import KitRpc.Muduo.Net
/-!
# The buffer of a connection

`muduo::net::Buffer` with its vector and its two indices. Its users see the
bytes between the indices; the buffer refines a queue of bytes. An assertion
that fails is a step that is not possible. The operations have all the memory
they ask for; what a vector cannot have is refused in `bufferStep`.
-/

namespace KitRpc.Muduo

open KitRpc.Foundation KitRpc.Cpp

def kCheapPrepend : Nat := 8

def kInitialSize : Nat := 1024

/-- `buffer_.max_size()`. -/
def maxSize : Nat := 2 ^ 63 - 1

/-- `muduo::net::Buffer`. The room in front of the first byte is never given up. -/
structure Buffer where
  buffer : Bytes
  readerIndex : Nat
  writerIndex : Nat
  reader_le : readerIndex ≤ writerIndex
  writer_le : writerIndex ≤ buffer.length
  prepend_le : kCheapPrepend ≤ buffer.length

/-- `std::copy(data, data + n, begin + pos)` for all of `data`. -/
def overwrite (buffer : Bytes) (pos : Nat) (data : Bytes) : Bytes :=
  buffer.take pos ++ data ++ buffer.drop (pos + data.length)

def intSize (s : Bytes) : Int := (Int32.ofNat s.length).toInt

theorem length_overwrite {buffer data : Bytes} {pos : Nat}
    (h : pos + data.length ≤ buffer.length) :
    (overwrite buffer pos data).length = buffer.length := by
  simp only [overwrite, List.length_append, List.length_take, List.length_drop]
  omega

theorem take_overwrite {buffer data : Bytes} {pos n : Nat} (hpos : pos ≤ buffer.length)
    (hn : n = pos + data.length) :
    (overwrite buffer pos data).take n = buffer.take pos ++ data := by
  rw [overwrite]
  apply List.take_left'
  rw [List.length_append, List.length_take, Nat.min_eq_left hpos, hn]

namespace Buffer

def new (initialSize : Nat) : Buffer where
  buffer := zeros (kCheapPrepend + initialSize)
  readerIndex := kCheapPrepend
  writerIndex := kCheapPrepend
  reader_le := Nat.le_refl _
  writer_le := by simp
  prepend_le := by simp

def readableBytes (b : Buffer) : Nat := b.writerIndex - b.readerIndex

def writableBytes (b : Buffer) : Nat := b.buffer.length - b.writerIndex

def prependableBytes (b : Buffer) : Nat := b.readerIndex

/-- The bytes from `peek()` to `beginWrite()`. -/
def contents (b : Buffer) : Bytes := (b.buffer.drop b.readerIndex).take b.readableBytes

theorem length_contents (b : Buffer) : b.contents.length = b.readableBytes := by
  have hreader := b.reader_le
  have hwriter := b.writer_le
  simp only [contents, readableBytes, List.length_take, List.length_drop]
  omega

/-! ## Making room -/

/-- `makeSpace`, with its first assertion, where it is called. -/
def makeSpace (b : Buffer) (len : Nat) (hshort : b.writableBytes < len) : Option Buffer :=
  if b.writableBytes + b.prependableBytes < len + kCheapPrepend then
    some { b with
      buffer := zeroFill (b.writerIndex + len) b.buffer
      writer_le := by simp
      prepend_le := by
        have := b.prepend_le
        rw [writableBytes] at hshort
        rw [length_zeroFill]
        omega }
  else if h : kCheapPrepend < b.readerIndex then
    -- The readable bytes move to the front.
    have hroom : kCheapPrepend + b.contents.length ≤ b.buffer.length := by
      have hreader := b.reader_le
      have hwriter := b.writer_le
      rw [length_contents, readableBytes]
      omega
    some {
      buffer := overwrite b.buffer kCheapPrepend b.contents
      readerIndex := kCheapPrepend
      writerIndex := kCheapPrepend + b.readableBytes
      reader_le := Nat.le_add_right _ _
      writer_le := by rwa [length_overwrite hroom, ← length_contents]
      prepend_le := by
        rw [length_overwrite hroom]
        exact b.prepend_le }
  else none

def ensureWritableBytes (b : Buffer) (len : Nat) : Option Buffer :=
  (if h : b.writableBytes < len then b.makeSpace len h else some b).bind fun b =>
    if len ≤ b.writableBytes then some b else none

/-- The copy to `beginWrite()` and `hasWritten`. -/
def hasWritten (b : Buffer) (data : Bytes) : Option Buffer :=
  if h : data.length ≤ b.writableBytes then
    have hroom : b.writerIndex + data.length ≤ b.buffer.length := by
      have := b.writer_le
      rw [writableBytes] at h
      omega
    some { b with
      buffer := overwrite b.buffer b.writerIndex data
      writerIndex := b.writerIndex + data.length
      reader_le := b.reader_le.trans (Nat.le_add_right _ _)
      writer_le := by rwa [length_overwrite hroom]
      prepend_le := by
        rw [length_overwrite hroom]
        exact b.prepend_le }
  else none

def append (b : Buffer) (data : Bytes) : Option Buffer :=
  (b.ensureWritableBytes data.length).bind fun b => b.hasWritten data

/-! ## Taking bytes out and putting them in front -/

def retrieveAll (b : Buffer) : Buffer where
  buffer := b.buffer
  readerIndex := kCheapPrepend
  writerIndex := kCheapPrepend
  reader_le := Nat.le_refl _
  writer_le := b.prepend_le
  prepend_le := b.prepend_le

def retrieve (b : Buffer) (len : Nat) : Option Buffer :=
  if len ≤ b.readableBytes then
    if h : len < b.readableBytes then
      some { b with
        readerIndex := b.readerIndex + len
        reader_le := by
          rw [readableBytes] at h
          omega }
    else some b.retrieveAll
  else none

def retrieveAsString (b : Buffer) (len : Nat) : Option (Bytes × Buffer) :=
  if len ≤ b.readableBytes then
    (b.retrieve len).map fun b' => ((b.buffer.drop b.readerIndex).take len, b')
  else none

def retrieveAllAsString (b : Buffer) : Option (Bytes × Buffer) :=
  b.retrieveAsString b.readableBytes

def unwrite (b : Buffer) (len : Nat) : Option Buffer :=
  if h : len ≤ b.readableBytes then
    some { b with
      writerIndex := b.writerIndex - len
      reader_le := by
        have := b.reader_le
        rw [readableBytes] at h
        omega
      writer_le := (Nat.sub_le _ _).trans b.writer_le }
  else none

def prepend (b : Buffer) (data : Bytes) : Option Buffer :=
  if h : data.length ≤ b.prependableBytes then
    have hroom : b.readerIndex - data.length + data.length ≤ b.buffer.length := by
      have hreader := b.reader_le
      have hwriter := b.writer_le
      rw [prependableBytes] at h
      omega
    some { b with
      buffer := overwrite b.buffer (b.readerIndex - data.length) data
      readerIndex := b.readerIndex - data.length
      reader_le := (Nat.sub_le _ _).trans b.reader_le
      writer_le := by
        rw [length_overwrite hroom]
        exact b.writer_le
      prepend_le := by
        rw [length_overwrite hroom]
        exact b.prepend_le }
  else none

def swap (b rhs : Buffer) : Buffer × Buffer := (rhs, b)

def pieceSize (b : Buffer) : Int32 := Int32.ofNat b.readableBytes

/-- `readableBytes() + reserve` as a `size_t`. -/
def shrunkSize (b : Buffer) (reserve : Nat) : Nat := (b.readableBytes + reserve) % 2 ^ 64

/-- `shrink(reserve)`. The piece is appended with its size as a `size_t`; room
for what a negative size becomes there is never found. -/
def shrink (b : Buffer) (reserve : Nat) : Option Buffer :=
  ((new kInitialSize).ensureWritableBytes (b.shrunkSize reserve)).bind fun other =>
    if b.pieceSize < 0 then none
    else
      (other.append (b.contents.take b.pieceSize.toInt.toNat)).map fun other => (b.swap other).1

/-! ## What the operations do to the contents -/

theorem contents_eq_drop (b : Buffer) :
    b.contents = (b.buffer.take b.writerIndex).drop b.readerIndex :=
  List.drop_take.symm

theorem contents_eq_nil {b : Buffer} (h : b.writerIndex ≤ b.readerIndex) : b.contents = [] := by
  rw [contents, readableBytes, Nat.sub_eq_zero_of_le h, List.take_zero]

@[simp] theorem contents_new (initialSize : Nat) : (new initialSize).contents = [] :=
  contents_eq_nil (Nat.le_refl _)

@[simp] theorem contents_retrieveAll (b : Buffer) : b.retrieveAll.contents = [] :=
  contents_eq_nil (Nat.le_refl _)

/-- Room is made in one of two ways, neither of which touches the contents; the
assertion in between does not fail. -/
theorem exists_makeSpace (b : Buffer) {len : Nat} (hshort : b.writableBytes < len) :
    ∃ b', b.makeSpace len hshort = some b' ∧ b'.contents = b.contents ∧
      len ≤ b'.writableBytes := by
  have hreader := b.reader_le
  have hwriter := b.writer_le
  have hprepend := b.prepend_le
  unfold makeSpace
  split_ifs with hgrow hmove
  · refine ⟨_, rfl, ?_, ?_⟩
    · simp only [contents_eq_drop, zeroFill]
      rw [List.take_append_of_le_length (by simp; omega), List.take_take,
        Nat.min_eq_left (Nat.le_add_right _ _)]
    · simp [writableBytes]
  · have hlength := b.length_contents
    have hroom : kCheapPrepend + b.contents.length ≤ b.buffer.length := by
      rw [hlength, readableBytes]
      omega
    refine ⟨_, rfl, ?_, ?_⟩
    · rw [contents_eq_drop]
      dsimp only
      rw [take_overwrite hprepend (by rw [hlength])]
      exact List.drop_left' (by simp [hprepend])
    · rw [writableBytes, length_overwrite hroom]
      simp only [writableBytes, prependableBytes, readableBytes, kCheapPrepend] at *
      omega
  · simp only [writableBytes, prependableBytes, kCheapPrepend] at *
    omega

theorem exists_ensureWritableBytes (b : Buffer) (len : Nat) :
    ∃ b', b.ensureWritableBytes len = some b' ∧ b'.contents = b.contents ∧
      len ≤ b'.writableBytes := by
  unfold ensureWritableBytes
  split_ifs with hshort
  · obtain ⟨b', hmake, hcontents, hroom⟩ := b.exists_makeSpace hshort
    rw [hmake, Option.bind_some, if_pos hroom]
    exact ⟨b', rfl, hcontents, hroom⟩
  · rw [Option.bind_some, if_pos (Nat.le_of_not_lt hshort)]
    exact ⟨b, rfl, rfl, Nat.le_of_not_lt hshort⟩

theorem exists_hasWritten (b : Buffer) {data : Bytes} (h : data.length ≤ b.writableBytes) :
    ∃ b', b.hasWritten data = some b' ∧ b'.contents = b.contents ++ data := by
  have hreader := b.reader_le
  have hwriter := b.writer_le
  refine ⟨_, dif_pos h, ?_⟩
  rw [contents_eq_drop, contents_eq_drop]
  dsimp only
  rw [take_overwrite hwriter rfl, List.drop_append_of_le_length (by simp; omega)]

theorem exists_append (b : Buffer) (data : Bytes) :
    ∃ b', b.append data = some b' ∧ b'.contents = b.contents ++ data := by
  obtain ⟨b₁, hensure, hcontents, hroom⟩ := b.exists_ensureWritableBytes data.length
  obtain ⟨b₂, hwritten, hcontents'⟩ := b₁.exists_hasWritten hroom
  refine ⟨b₂, ?_, by rw [hcontents', hcontents]⟩
  rw [append, hensure, Option.bind_some, hwritten]

theorem exists_retrieve (b : Buffer) {len : Nat} (h : len ≤ b.contents.length) :
    ∃ b', b.retrieve len = some b' ∧ b'.contents = b.contents.drop len := by
  have hlength := b.length_contents
  rw [hlength] at h
  rw [retrieve, if_pos h]
  split_ifs with hlt
  · refine ⟨_, rfl, ?_⟩
    rw [contents_eq_drop, contents_eq_drop, List.drop_drop]
  · refine ⟨_, rfl, ?_⟩
    rw [contents_retrieveAll, List.drop_of_length_le (by omega)]

theorem exists_unwrite (b : Buffer) {len : Nat} (h : len ≤ b.contents.length) :
    ∃ b', b.unwrite len = some b' ∧ b'.contents = b.contents.take (b.contents.length - len) := by
  have hlength := b.length_contents
  rw [hlength] at h
  refine ⟨_, dif_pos h, ?_⟩
  rw [hlength, contents, contents, List.take_take]
  simp only [readableBytes]
  congr 1
  omega

theorem exists_prepend (b : Buffer) {data : Bytes} (h : data.length ≤ b.prependableBytes) :
    ∃ b', b.prepend data = some b' ∧ b'.contents = data ++ b.contents ∧
      b'.prependableBytes = b.prependableBytes - data.length := by
  have hreader := b.reader_le
  have hwriter := b.writer_le
  refine ⟨_, dif_pos h, ?_, rfl⟩
  rw [prependableBytes] at h
  have hfront : (b.buffer.take (b.readerIndex - data.length)).length =
      b.readerIndex - data.length := by
    simp
    omega
  have hrest : b.writerIndex - (b.readerIndex - data.length) = data.length + b.readableBytes := by
    rw [readableBytes]
    omega
  simp only [contents, readableBytes, overwrite, List.append_assoc]
  rw [List.drop_left' hfront, hrest, List.take_length_add_append, Nat.sub_add_cancel h]
  rfl

theorem exists_retrieveAllAsString (b : Buffer) :
    ∃ b', b.retrieveAllAsString = some ((Muduo.retrieveAllAsString b.contents).1, b') ∧
      b'.contents = (Muduo.retrieveAllAsString b.contents).2 := by
  have hlength := b.length_contents
  obtain ⟨b', hretrieve, hcontents⟩ := b.exists_retrieve (Nat.le_refl _)
  refine ⟨b', ?_, ?_⟩
  · rw [Muduo.retrieveAllAsString_eq, retrieveAllAsString, retrieveAsString,
      if_pos (Nat.le_refl _), ← hlength, hretrieve, Option.map_some, hlength]
    rfl
  · rw [Muduo.retrieveAllAsString_eq, hcontents, List.drop_length]

theorem pieceSize_toInt (b : Buffer) : b.pieceSize.toInt = intSize b.contents := by
  rw [pieceSize, intSize, length_contents]

theorem shrink_of_neg {b : Buffer} (h : b.pieceSize.toInt < 0) (reserve : Nat) :
    b.shrink reserve = none := by
  obtain ⟨b', hensure, _⟩ :=
    (new kInitialSize).exists_ensureWritableBytes (b.shrunkSize reserve)
  rw [shrink, hensure, Option.bind_some, if_pos (Int32.lt_iff_toInt_lt.mpr h)]

theorem exists_shrink {b : Buffer} (h : 0 ≤ b.pieceSize.toInt) (reserve : Nat) :
    ∃ b', b.shrink reserve = some b' ∧
      b'.contents = b.contents.take b.pieceSize.toInt.toNat := by
  obtain ⟨b₁, hensure, hempty, _⟩ :=
    (new kInitialSize).exists_ensureWritableBytes (b.shrunkSize reserve)
  obtain ⟨b₂, happend, hcontents⟩ := b₁.exists_append (b.contents.take b.pieceSize.toInt.toNat)
  have hsize : ¬ b.pieceSize < 0 := fun hneg => Int.not_lt.mpr h (Int32.lt_iff_toInt_lt.mp hneg)
  refine ⟨b₂, ?_, ?_⟩
  · rw [shrink, hensure, Option.bind_some, if_neg hsize, happend]
    rfl
  · rw [hcontents, hempty, contents_new, List.nil_append]

/-! ## The size of the vector -/

/-- Room for `len` more bytes is made by a longer vector. -/
def Grows (b : Buffer) (len : Nat) : Prop :=
  b.writableBytes < len ∧ b.writableBytes + b.prependableBytes < len + kCheapPrepend

instance (b : Buffer) (len : Nat) : Decidable (b.Grows len) := inferInstanceAs (Decidable (_ ∧ _))

section

variable {b b' : Buffer} {len : Nat} {data : Bytes}

/-- The vector grows only if the contents with what is to come need more than
half of it. -/
theorem Grows.writerIndex_add_le (h : b.Grows len) :
    b.writerIndex + len ≤ 2 * (b.contents.length + len) + kCheapPrepend := by
  obtain ⟨hshort, hgrow⟩ := h
  have hreader := b.reader_le
  have hwriter := b.writer_le
  rw [length_contents]
  simp only [writableBytes, prependableBytes, readableBytes, kCheapPrepend] at *
  omega

theorem length_of_makeSpace {hshort : b.writableBytes < len}
    (h : b.makeSpace len hshort = some b') :
    b'.buffer.length = if b.Grows len then b.writerIndex + len else b.buffer.length := by
  have hreader := b.reader_le
  have hwriter := b.writer_le
  unfold makeSpace at h
  split_ifs at h with hgrow hmove
  · cases h
    rw [if_pos ⟨hshort, hgrow⟩]
    exact length_zeroFill _ _
  · cases h
    rw [if_neg fun hgrows => hgrow hgrows.2]
    apply length_overwrite
    rw [length_contents, readableBytes]
    omega

theorem length_of_ensureWritableBytes (h : b.ensureWritableBytes len = some b') :
    b'.buffer.length = if b.Grows len then b.writerIndex + len else b.buffer.length := by
  rw [ensureWritableBytes, Option.bind_eq_some_iff] at h
  obtain ⟨b₁, hmake, hroom⟩ := h
  split_ifs at hroom
  cases hroom
  split_ifs at hmake with hshort
  · exact length_of_makeSpace hmake
  · cases hmake
    rw [if_neg fun hgrows => hshort hgrows.1]

theorem length_of_hasWritten (h : b.hasWritten data = some b') :
    b'.buffer.length = b.buffer.length := by
  unfold hasWritten at h
  split_ifs at h with hroom
  cases h
  apply length_overwrite
  have := b.writer_le
  rw [writableBytes] at hroom
  omega

theorem length_of_append (h : b.append data = some b') :
    b'.buffer.length =
      if b.Grows data.length then b.writerIndex + data.length else b.buffer.length := by
  rw [append, Option.bind_eq_some_iff] at h
  obtain ⟨b₁, hensure, hwritten⟩ := h
  rw [length_of_hasWritten hwritten]
  exact length_of_ensureWritableBytes hensure

/-- The new vector is as long as what it starts with, the size asked for or
twice the piece makes it. -/
theorem length_of_shrink {reserve : Nat} (h : b.shrink reserve = some b') :
    b'.buffer.length ≤ max (kCheapPrepend + max kInitialSize (b.shrunkSize reserve))
      (2 * min b.contents.length (2 ^ 31) + kCheapPrepend) := by
  rw [shrink, Option.bind_eq_some_iff] at h
  obtain ⟨b₁, hensure, h⟩ := h
  split_ifs at h
  rw [Option.map_eq_some_iff] at h
  obtain ⟨b₂, happend, rfl⟩ := h
  have hfirst : b₁.buffer.length ≤ kCheapPrepend + max kInitialSize (b.shrunkSize reserve) := by
    rw [length_of_ensureWritableBytes hensure]
    split_ifs
    · exact Nat.add_le_add_left (Nat.le_max_right _ _) _
    · simp only [new, length_zeros]
      omega
  obtain ⟨b₁', hensure', hempty, _⟩ :=
    (new kInitialSize).exists_ensureWritableBytes (b.shrunkSize reserve)
  cases hensure.symm.trans hensure'
  have hpiece : b.pieceSize.toInt < 2 ^ 31 := b.pieceSize.toInt_lt
  change b₂.buffer.length ≤ _
  rw [length_of_append happend]
  split_ifs with hgrows
  · have hsecond := hgrows.writerIndex_add_le
    rw [hempty, contents_new, List.length_nil, List.length_take] at hsecond
    rw [List.length_take]
    omega
  · omega

theorem length_of_prepend (h : b.prepend data = some b') :
    b'.buffer.length = b.buffer.length := by
  simp only [prepend] at h
  split_ifs at h with hfits
  cases h
  apply length_overwrite
  have hreader := b.reader_le
  have hwriter := b.writer_le
  rw [prependableBytes] at hfits
  omega

theorem length_of_retrieve (h : b.retrieve len = some b') :
    b'.buffer.length = b.buffer.length := by
  simp only [retrieve] at h
  split_ifs at h <;> cases h <;> rfl

theorem length_of_unwrite (h : b.unwrite len = some b') :
    b'.buffer.length = b.buffer.length := by
  simp only [unwrite] at h
  split_ifs at h
  cases h
  rfl

end

end Buffer

/-! ## The queue behind the buffer -/

inductive BufferOp
  | append (data : Bytes)
  | prepend (data : Bytes)
  | retrieve (len : Nat)
  | retrieveAll
  | unwrite (len : Nat)
  | ensureWritableBytes (len : Nat)
  | shrink (reserve : Nat)
  deriving DecidableEq, Repr

def BufferOp.call (b : Buffer) : BufferOp → Option Buffer
  | .append data => b.append data
  | .prepend data => b.prepend data
  | .retrieve len => b.retrieve len
  | .retrieveAll => some b.retrieveAll
  | .unwrite len => b.unwrite len
  | .ensureWritableBytes len => b.ensureWritableBytes len
  | .shrink reserve => b.shrink reserve

/-- No vector longer than there can be is needed. Where one is, `resize` throws
or a sum of sizes has wrapped, after which an assertion fails or the indices
are no longer those of the vector. -/
def Sized (b : Buffer) : BufferOp → Prop
  | .append data => b.Grows data.length → b.writerIndex + data.length ≤ maxSize
  | .ensureWritableBytes len => b.Grows len → b.writerIndex + len ≤ maxSize
  | .shrink reserve => kCheapPrepend + b.shrunkSize reserve ≤ maxSize
  | _ => True

instance (b : Buffer) : DecidablePred (Sized b)
  | .append data => inferInstanceAs (Decidable (b.Grows data.length → _))
  | .ensureWritableBytes len => inferInstanceAs (Decidable (b.Grows len → _))
  | .shrink _ => inferInstanceAs (Decidable (_ ≤ _))
  | .prepend _ | .retrieve _ | .retrieveAll | .unwrite _ => inferInstanceAs (Decidable True)

def bufferStep (b : Buffer) (op : BufferOp) : Option Buffer :=
  if Sized b op then op.call b else none

/-- A queue of bytes that can be changed at both ends. Room is no concern of
it; a size that is no `int` shows in `shrink`. -/
def queueStep (q : Bytes) : BufferOp → Option Bytes
  | .append data => some (q ++ data)
  | .prepend data => some (data ++ q)
  | .retrieve len => if len ≤ q.length then some (q.drop len) else none
  | .retrieveAll => some []
  | .unwrite len => if len ≤ q.length then some (q.take (q.length - len)) else none
  | .ensureWritableBytes _ => some q
  | .shrink _ => if 0 ≤ intSize q then some (q.take (intSize q).toNat) else none

/-- More is to be put in front than fits there. -/
def Oversized (b : Buffer) (op : BufferOp) : Prop :=
  ∃ data, op = .prepend data ∧ b.prependableBytes < data.length

theorem call_cases (b : Buffer) (op : BufferOp) :
    (∃ b', op.call b = some b' ∧ queueStep b.contents op = some b'.contents ∧
        ¬ Oversized b op) ∨
      op.call b = none ∧ (queueStep b.contents op = none ∨ Oversized b op) := by
  have hother (hop : ∀ data, op ≠ .prepend data) : ¬ Oversized b op := by
    rintro ⟨data, rfl, _⟩
    exact hop data rfl
  cases op with
  | append data =>
      obtain ⟨b', happend, hcontents⟩ := b.exists_append data
      exact .inl ⟨b', happend, congrArg some hcontents.symm, hother (by simp)⟩
  | prepend data =>
      by_cases hfits : data.length ≤ b.prependableBytes
      · obtain ⟨b', hprepend, hcontents, _⟩ := b.exists_prepend hfits
        refine .inl ⟨b', hprepend, congrArg some hcontents.symm, ?_⟩
        rintro ⟨data', hop, hlarge⟩
        cases hop
        omega
      · exact .inr ⟨dif_neg hfits, .inr ⟨data, rfl, Nat.lt_of_not_le hfits⟩⟩
  | retrieve len =>
      by_cases hlen : len ≤ b.contents.length
      · obtain ⟨b', hretrieve, hcontents⟩ := b.exists_retrieve hlen
        refine .inl ⟨b', hretrieve, ?_, hother (by simp)⟩
        rw [queueStep, if_pos hlen, hcontents]
      · refine .inr ⟨if_neg ?_, .inl (if_neg hlen)⟩
        rwa [← b.length_contents]
  | retrieveAll =>
      exact .inl ⟨_, rfl, congrArg some b.contents_retrieveAll.symm, hother (by simp)⟩
  | unwrite len =>
      by_cases hlen : len ≤ b.contents.length
      · obtain ⟨b', hunwrite, hcontents⟩ := b.exists_unwrite hlen
        refine .inl ⟨b', hunwrite, ?_, hother (by simp)⟩
        rw [queueStep, if_pos hlen, hcontents]
      · refine .inr ⟨dif_neg ?_, .inl (if_neg hlen)⟩
        rwa [← b.length_contents]
  | ensureWritableBytes len =>
      obtain ⟨b', hensure, hcontents, _⟩ := b.exists_ensureWritableBytes len
      exact .inl ⟨b', hensure, congrArg some hcontents.symm, hother (by simp)⟩
  | shrink reserve =>
      have hsize := b.pieceSize_toInt
      by_cases hpos : 0 ≤ intSize b.contents
      · have hpos' : 0 ≤ b.pieceSize.toInt := hsize ▸ hpos
        obtain ⟨b', hshrink, hcontents⟩ := Buffer.exists_shrink hpos' reserve
        refine .inl ⟨b', hshrink, ?_, hother (by simp)⟩
        rw [queueStep, if_pos hpos, hcontents, hsize]
      · have hneg : b.pieceSize.toInt < 0 := hsize ▸ Int.not_le.mp hpos
        exact .inr ⟨Buffer.shrink_of_neg hneg reserve, .inl (if_neg hpos)⟩

theorem bufferStep_eq_some {b b' : Buffer} {op : BufferOp} :
    bufferStep b op = some b' ↔ Sized b op ∧ op.call b = some b' := by
  rw [bufferStep]
  split_ifs with hsized <;> simp [hsized]

theorem queueStep_of_bufferStep {b b' : Buffer} {op : BufferOp}
    (h : bufferStep b op = some b') : queueStep b.contents op = some b'.contents := by
  obtain ⟨_, hcall⟩ := bufferStep_eq_some.mp h
  rcases call_cases b op with ⟨b'', hsome, hqueue, _⟩ | ⟨hnone, _⟩
  · cases hsome.symm.trans hcall
    exact hqueue
  · rw [hnone] at hcall
    cases hcall

theorem bufferStep_eq_none {b : Buffer} {op : BufferOp} :
    bufferStep b op = none ↔
      queueStep b.contents op = none ∨ Oversized b op ∨ ¬ Sized b op := by
  by_cases hsized : Sized b op
  · rw [bufferStep, if_pos hsized]
    rcases call_cases b op with ⟨b', hcall, hqueue, hfits⟩ | ⟨hnone, hwhy⟩
    · simp [hcall, hqueue, hfits, hsized]
    · simpa [hnone, hsized] using hwhy
  · simp [bufferStep, hsized]

theorem length_le_maxSize_of_bufferStep {b b' : Buffer} {op : BufferOp}
    (hlength : b.buffer.length ≤ maxSize) (h : bufferStep b op = some b') :
    b'.buffer.length ≤ maxSize := by
  obtain ⟨hsized, hcall⟩ := bufferStep_eq_some.mp h
  cases op with
  | append data =>
      rw [Buffer.length_of_append hcall]
      split_ifs with hgrows
      · exact hsized hgrows
      · exact hlength
  | ensureWritableBytes len =>
      rw [Buffer.length_of_ensureWritableBytes hcall]
      split_ifs with hgrows
      · exact hsized hgrows
      · exact hlength
  | shrink reserve =>
      have hnew := Buffer.length_of_shrink hcall
      simp only [Sized, maxSize, kCheapPrepend, kInitialSize] at *
      omega
  | prepend data => rwa [Buffer.length_of_prepend hcall]
  | retrieve len => rwa [Buffer.length_of_retrieve hcall]
  | retrieveAll =>
      cases hcall
      exact hlength
  | unwrite len => rwa [Buffer.length_of_unwrite hcall]

/-- In every run the bytes in the buffer are those of a queue that is used in
the same way, the vector is one there can be, and no operation fails but on an
argument that is too large. -/
theorem buffer_refines_queue {initialSize : Nat} (hinitial : kCheapPrepend + initialSize ≤ maxSize)
    {ops : List BufferOp} {b : Buffer} (h : run bufferStep (.new initialSize) ops = some b) :
    run queueStep [] ops = some b.contents ∧ b.buffer.length ≤ maxSize ∧
      ∀ op, bufferStep b op = none ↔
        queueStep b.contents op = none ∨ Oversized b op ∨ ¬ Sized b op := by
  refine ⟨?_, ?_, fun _ => bufferStep_eq_none⟩
  · rw [← Buffer.contents_new initialSize]
    exact run_map (fun _ _ _ => queueStep_of_bufferStep) h
  · have hreach : Reaches bufferStep Unrestricted (.new initialSize) b :=
      .of_run h fun _ _ _ => trivial
    refine hreach.invariant (I := fun b => b.buffer.length ≤ maxSize) ?_ ?_
    · simpa [Buffer.new] using hinitial
    · intro b op b' hlength _ hstep
      exact length_le_maxSize_of_bufferStep hlength hstep

theorem buffer_refines_queue_line :
    let ops : List BufferOp := [.append (ascii "login"), .retrieve 2, .prepend [0x21], .unwrite 1]
    ∃ b, run bufferStep (.new 2) ops = some b ∧ run queueStep [] ops = some b.contents ∧
      b.buffer.length ≤ maxSize ∧
      (bufferStep b (.retrieve 4) = none ↔ queueStep b.contents (.retrieve 4) = none ∨
        Oversized b (.retrieve 4) ∨ ¬ Sized b (.retrieve 4)) := by
  intro ops
  have hrun : run bufferStep (.new 2) ops = some _ := rfl
  have hinitial : kCheapPrepend + 2 ≤ maxSize := by decide
  obtain ⟨hqueue, hlength, hrefused⟩ := buffer_refines_queue hinitial hrun
  exact ⟨_, hrun, hqueue, hlength, hrefused _⟩

/-- `shrink` keeps the contents exactly if their size is an `int` and the size
asked for is one of a vector. -/
theorem Buffer.shrink_keeps_iff (b : Buffer) (reserve : Nat) :
    (bufferStep b (.shrink reserve)).map contents = some b.contents ↔
      b.contents.length < 2 ^ 31 ∧
        kCheapPrepend + (b.contents.length + reserve) % 2 ^ 64 ≤ maxSize := by
  have hsize := b.pieceSize_toInt
  rw [intSize, Int32.toInt_ofNat', Int32.size, Int.bmod_def] at hsize
  have hsized : Sized b (.shrink reserve) ↔
      kCheapPrepend + (b.contents.length + reserve) % 2 ^ 64 ≤ maxSize := by
    rw [Sized, shrunkSize, length_contents]
  constructor
  · intro hkeeps
    rw [Option.map_eq_some_iff] at hkeeps
    obtain ⟨b', hstep, hsame⟩ := hkeeps
    obtain ⟨hfits, hshrink⟩ := bufferStep_eq_some.mp hstep
    refine ⟨?_, hsized.mp hfits⟩
    rcases Int.lt_or_le b.pieceSize.toInt 0 with hneg | hpos
    · rw [BufferOp.call, shrink_of_neg hneg] at hshrink
      cases hshrink
    · obtain ⟨b'', hshrink', hcontents⟩ := exists_shrink hpos reserve
      cases hshrink.symm.trans hshrink'
      have hlength := congrArg List.length (hcontents.symm.trans hsame)
      rw [List.length_take] at hlength
      split_ifs at hsize <;> omega
  · rintro ⟨hsmall, hfits⟩
    have hlength : b.pieceSize.toInt = b.contents.length := by
      split_ifs at hsize <;> omega
    obtain ⟨b', hshrink, hcontents⟩ := exists_shrink (b := b) (by omega) reserve
    rw [bufferStep_eq_some.mpr ⟨hsized.mpr hfits, hshrink⟩, Option.map_some, hcontents, hlength,
      Int.toNat_natCast, List.take_length]

/-! ## Memory -/

/-- The size the contents have or are said to get in a step. -/
def demand (b : Buffer) : BufferOp → Nat
  | .append data => b.contents.length + data.length
  | .ensureWritableBytes len => b.contents.length + len
  | .shrink reserve => b.contents.length + reserve
  | _ => 0

theorem length_of_bufferStep {b b' : Buffer} {op : BufferOp} (h : bufferStep b op = some b') :
    b'.buffer.length ≤ max (max b.buffer.length (kCheapPrepend + kInitialSize))
      (2 * demand b op + kCheapPrepend) := by
  obtain ⟨_, hcall⟩ := bufferStep_eq_some.mp h
  cases op with
  | append data =>
      rw [Buffer.length_of_append hcall, demand]
      split_ifs with hgrows
      · have := hgrows.writerIndex_add_le
        omega
      · omega
  | ensureWritableBytes len =>
      rw [Buffer.length_of_ensureWritableBytes hcall, demand]
      split_ifs with hgrows
      · have := hgrows.writerIndex_add_le
        omega
      · omega
  | shrink reserve =>
      have hnew := Buffer.length_of_shrink hcall
      have hwrap : b.shrunkSize reserve ≤ b.contents.length + reserve := by
        rw [Buffer.shrunkSize, ← b.length_contents]
        exact Nat.mod_le _ _
      rw [demand]
      omega
  | prepend data =>
      have := Buffer.length_of_prepend hcall
      omega
  | retrieve len =>
      have := Buffer.length_of_retrieve hcall
      omega
  | retrieveAll =>
      cases hcall
      simp only [Buffer.retrieveAll]
      omega
  | unwrite len =>
      have := Buffer.length_of_unwrite hcall
      omega

/-- A buffer never takes more than twice the memory its contents and the room
asked for have needed at once, apart from what it starts with. -/
theorem buffer_length_le (initialSize peak : Nat) {b : Buffer}
    (h : Reaches bufferStep (fun b op => demand b op ≤ peak) (.new initialSize) b) :
    b.buffer.length ≤
      max (kCheapPrepend + max initialSize kInitialSize) (2 * peak + kCheapPrepend) := by
  refine h.invariant (I := fun b => b.buffer.length ≤
    max (kCheapPrepend + max initialSize kInitialSize) (2 * peak + kCheapPrepend)) ?_ ?_
  · simp only [Buffer.new, length_zeros]
    omega
  · intro b op b' hinv hdemand hstep
    have := length_of_bufferStep hstep
    omega

theorem buffer_length_le_line :
    ∃ b, run (fun b op => if demand b op ≤ 5 then bufferStep b op else none) (.new 2)
        [.append (ascii "login"), .retrieve 5, .append (ascii "again")] = some b ∧
      b.buffer.length ≤ max (kCheapPrepend + max 2 kInitialSize) (2 * 5 + kCheapPrepend) := by
  have hrun : run (fun b op => if demand b op ≤ 5 then bufferStep b op else none) (.new 2)
      [.append (ascii "login"), .retrieve 5, .append (ascii "again")] = some _ := rfl
  exact ⟨_, hrun, buffer_length_le 2 5 (.of_checked_run hrun)⟩

/-! ## The input of a connection -/

/-- The input buffer of a connection, and the strings its message callbacks
took out of it. -/
structure Input where
  inputBuffer : Buffer
  handed : List Bytes

inductive InputEvent
  | received (data : Bytes)
  | message
  deriving DecidableEq, Repr

/-- Arrival is modelled as an append: of `readFd` there is only the binary. -/
def inputStep (s : Input) : InputEvent → Option Input
  | .received data =>
      (s.inputBuffer.append data).map fun inputBuffer => { s with inputBuffer }
  | .message =>
      s.inputBuffer.retrieveAllAsString.map fun (data, inputBuffer) =>
        { inputBuffer, handed := s.handed ++ [data] }

def receivedBytes (events : List InputEvent) : Bytes :=
  (events.map fun
    | .received data => data
    | .message => []).flatten

/-- The message callbacks are handed every byte that was received once and in
order: what they took, followed by what is in the buffer, is what was received.
None of these operations fails. -/
theorem input_keeps_stream (initialSize : Nat) (events : List InputEvent) :
    ∃ s, run inputStep ⟨.new initialSize, []⟩ events = some s ∧
      s.handed.flatten ++ s.inputBuffer.contents = receivedBytes events := by
  induction events using List.reverseRecOn with
  | nil => exact ⟨_, rfl, by simp [receivedBytes]⟩
  | append_singleton events e ih =>
      obtain ⟨s, hrun, hstream⟩ := ih
      have hlast {s' : Input} (hstep : inputStep s e = some s') :
          run inputStep ⟨.new initialSize, []⟩ (events ++ [e]) = some s' := by
        rw [run, List.foldlM_append, show events.foldlM inputStep _ = some s from hrun]
        simp [hstep]
      have hbytes : receivedBytes (events ++ [e]) = receivedBytes events ++ receivedBytes [e] := by
        simp [receivedBytes]
      cases e with
      | received data =>
          obtain ⟨b, happend, hcontents⟩ := s.inputBuffer.exists_append data
          refine ⟨{ s with inputBuffer := b }, hlast (by rw [inputStep, happend]; rfl), ?_⟩
          rw [hbytes, ← hstream, hcontents, ← List.append_assoc]
          simp [receivedBytes]
      | message =>
          obtain ⟨b, hretrieve, hempty⟩ := s.inputBuffer.exists_retrieveAllAsString
          rw [retrieveAllAsString_eq] at hretrieve hempty
          refine ⟨⟨b, s.handed ++ [s.inputBuffer.contents]⟩,
            hlast (by rw [inputStep, hretrieve]; rfl), ?_⟩
          rw [hbytes, ← hstream, hempty]
          simp [receivedBytes]

end KitRpc.Muduo

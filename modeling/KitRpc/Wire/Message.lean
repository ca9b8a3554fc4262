import KitRpc.Wire.Record
/-!
# Messages of the wire format

A message type says how its records are merged into a value and which records
a value is written as. Serializing and parsing are derived from that, with the
library's size limit. Parsing starts from the empty message, so it does not
depend on what the target held before.
-/

namespace KitRpc.Wire

open KitRpc.Cpp KitRpc.Foundation

/-- A serialized message. Serializing fails at two GiB, so no serialized
message is as long as that. -/
structure Serialized where
  bytes : Bytes
  bounded : bytes.length < 2 ^ 31
  deriving DecidableEq, Repr

/-- A message type: the empty message, how one record changes a message, and
the records a message is written as. -/
structure MessageType (M : Type) where
  empty : M
  merge : M → Record → Option M
  records : M → List Record

namespace MessageType

variable {M : Type} (T : MessageType M)

def mergeFrom (m : M) (bs : Bytes) : Option M :=
  (recordStream.decodeAll bs).bind fun rs => rs.foldlM T.merge m

def parse (bs : Bytes) : Option M := T.mergeFrom T.empty bs

def serialize (m : M) : Option Serialized :=
  if h : (writeRecords (T.records m)).length < 2 ^ 31 then
    some ⟨writeRecords (T.records m), h⟩
  else none

/-- The records of a value that can be serialized are well formed, and merging
them into the empty message gives the value back. -/
structure Lawful : Prop where
  fits : ∀ m, (writeRecords (T.records m)).length < 2 ^ 31 → ∀ r ∈ T.records m, r.Fits
  restores : ∀ m, (writeRecords (T.records m)).length < 2 ^ 31 →
    (T.records m).foldlM T.merge T.empty = some m

variable {T}

theorem parse_writeRecords (hT : T.Lawful) {m : M}
    (h : (writeRecords (T.records m)).length < 2 ^ 31) :
    T.parse (writeRecords (T.records m)) = some m := by
  have hsplit := splits_writeRecords (hT.fits m h)
  rw [parse, mergeFrom, StreamDecoder.decodeAll_of_splits hsplit, Option.bind_some,
    hT.restores m h]

theorem Lawful.parse_serialize (hT : T.Lawful) {m : M} {s : Serialized}
    (h : T.serialize m = some s) : T.parse s.bytes = some m := by
  unfold serialize at h
  split_ifs at h with hlt
  cases h
  exact parse_writeRecords hT hlt

end MessageType

/-! ## Singular fields of proto3

A field that holds its default value is not written. -/

def bytesField (number : Nat) (raw : Bytes) : List Record :=
  if raw = [] then [] else [⟨number, .bytes raw⟩]

def varintField (number value : Nat) : List Record :=
  if value = 0 then [] else [⟨number, .varint value⟩]

/-- The record of a sub-message field, written when the field is present. -/
def messageField {M : Type} (T : MessageType M) (number : Nat) : Option M → List Record
  | none => []
  | some m => [⟨number, .bytes (writeRecords (T.records m))⟩]

theorem fits_of_mem_bytesField {number : Nat} {raw : Bytes} {r : Record}
    (hpos : 0 < number) (hlt : number < 2 ^ 29) (hraw : raw.length < 2 ^ 31)
    (h : r ∈ bytesField number raw) : r.Fits := by
  unfold bytesField at h
  split_ifs at h
  · simp at h
  · obtain rfl := List.mem_singleton.mp h
    exact ⟨hpos, hlt, hraw⟩

theorem fits_of_mem_varintField {number value : Nat} {r : Record}
    (hpos : 0 < number) (hlt : number < 2 ^ 29) (hvalue : value < 2 ^ 64)
    (h : r ∈ varintField number value) : r.Fits := by
  unfold varintField at h
  split_ifs at h
  · simp at h
  · obtain rfl := List.mem_singleton.mp h
    exact ⟨hpos, hlt, hvalue⟩

theorem length_le_of_bytesField_subset (number : Nat) {raw : Bytes} {rs : List Record}
    (h : bytesField number raw ⊆ rs) : raw.length ≤ (writeRecords rs).length := by
  by_cases hnil : raw = []
  · simp [hnil]
  · have hmem : (⟨number, .bytes raw⟩ : Record) ∈ bytesField number raw := by
      simp [bytesField, hnil]
    exact length_raw_le_writeRecords (h hmem)

theorem length_bytesField_le (number : Nat) (raw : Bytes) :
    (writeRecords (bytesField number raw)).length ≤ raw.length + 10 := by
  unfold bytesField
  split_ifs
  · simp [writeRecords]
  · have htag := length_writeVarint_le 5 (8 * number + 2)
    have hsize := length_writeVarint_le 5 raw.length
    simp only [writeRecords, List.map_cons, List.map_nil, List.flatten_cons, List.flatten_nil,
      List.append_nil, writeRecord, writePayload, Payload.wireType, List.length_append]
    omega

theorem length_varintField_le (number value : Nat) :
    (writeRecords (varintField number value)).length ≤ 15 := by
  unfold varintField
  split_ifs
  · simp [writeRecords]
  · have htag := length_writeVarint_le 5 (8 * number + 0)
    have hvalue := length_writeVarint_le 10 value
    simp only [writeRecords, List.map_cons, List.map_nil, List.flatten_cons, List.flatten_nil,
      List.append_nil, writeRecord, writePayload, Payload.wireType, List.length_append]
    omega

/-- Merging a written `bytes` field sets it; a field that is not written has
to be at its default already. -/
theorem foldlM_bytesField {M : Type} {merge : M → Record → Option M} {number : Nat}
    {raw : Bytes} {m m' : M} (hset : merge m ⟨number, .bytes raw⟩ = some m')
    (hdefault : raw = [] → m' = m) :
    (bytesField number raw).foldlM merge m = some m' := by
  unfold bytesField
  split_ifs with hnil
  · rw [hdefault hnil]
    rfl
  · simp [hset]

theorem foldlM_varintField {M : Type} {merge : M → Record → Option M}
    {number value : Nat} {m m' : M} (hset : merge m ⟨number, .varint value⟩ = some m')
    (hdefault : value = 0 → m' = m) :
    (varintField number value).foldlM merge m = some m' := by
  unfold varintField
  split_ifs with hzero
  · rw [hdefault hzero]
    rfl
  · simp [hset]

end KitRpc.Wire

import KitRpc.Foundation.Stream
import KitRpc.Wire.Varint
/-!
# Tagged records of the wire format

A serialized message is a sequence of records: a tag made of the field number
and the wire type, then the payload. The deprecated group wire types are
treated as malformed. Splitting a message into its records needs no schema.
-/

namespace KitRpc.Wire

open KitRpc.Cpp KitRpc.Foundation

inductive Payload
  | varint (value : Nat)
  | fixed64 (raw : Bytes)
  | bytes (raw : Bytes)
  | fixed32 (raw : Bytes)
  deriving DecidableEq, Repr

structure Record where
  number : Nat
  payload : Payload
  deriving DecidableEq, Repr

def Payload.wireType : Payload → Nat
  | varint _ => 0
  | fixed64 _ => 1
  | bytes _ => 2
  | fixed32 _ => 5

def readPayload (wireType : Nat) (bs : Bytes) : Option (Payload × Bytes) :=
  match wireType with
  | 0 => (readVarint 10 bs).map fun (value, rest) => (.varint (value % 2 ^ 64), rest)
  | 1 => (takeExactly 8 bs).map fun (raw, rest) => (.fixed64 raw, rest)
  | 2 => (readVarint 5 bs).bind fun (size, rest) =>
      (takeExactly size rest).map fun (raw, rest) => (.bytes raw, rest)
  | 5 => (takeExactly 4 bs).map fun (raw, rest) => (.fixed32 raw, rest)
  | _ => none

/-- Read what a tag announces; field number zero is malformed. -/
def readTagged (tag : Nat) (rest : Bytes) : Option (Record × Bytes) :=
  if tag / 8 = 0 then none
  else (readPayload (tag % 8) rest).map fun (payload, rest) => (⟨tag / 8, payload⟩, rest)

def readRecord (bs : Bytes) : Option (Record × Bytes) :=
  (readVarint 5 bs).bind fun (tag, rest) => readTagged tag rest

def writePayload : Payload → Bytes
  | .varint value => writeVarint 10 value
  | .fixed64 raw => raw
  | .bytes raw => writeVarint 5 raw.length ++ raw
  | .fixed32 raw => raw

def writeRecord (r : Record) : Bytes :=
  writeVarint 5 (8 * r.number + r.payload.wireType) ++ writePayload r.payload

def Payload.Fits : Payload → Prop
  | varint value => value < 2 ^ 64
  | fixed64 raw => raw.length = 8
  | bytes raw => raw.length < 2 ^ 31
  | fixed32 raw => raw.length = 4

structure Record.Fits (r : Record) : Prop where
  number_pos : 0 < r.number
  number_lt : r.number < 2 ^ 29
  payload : r.payload.Fits

theorem readPayload_writePayload (p : Payload) (rest : Bytes) (h : p.Fits) :
    readPayload p.wireType (writePayload p ++ rest) = some (p, rest) := by
  cases p with
  | varint value =>
      have hlt : value < 2 ^ 64 := h
      simp only [readPayload, Payload.wireType, writePayload,
        readVarint_writeVarint rest (show value < 128 ^ (9 + 1) by omega), Option.map_some,
        Nat.mod_eq_of_lt hlt]
  | fixed64 raw =>
      have hlen : raw.length = 8 := h
      have hread := takeExactly_append raw rest
      rw [hlen] at hread
      simp [readPayload, Payload.wireType, writePayload, hread]
  | bytes raw =>
      have hlen : raw.length < 2 ^ 31 := h
      simp only [readPayload, Payload.wireType, writePayload, List.append_assoc,
        readVarint_writeVarint (raw ++ rest) (show raw.length < 128 ^ (4 + 1) by omega),
        Option.bind_some, takeExactly_append, Option.map_some]
  | fixed32 raw =>
      have hlen : raw.length = 4 := h
      have hread := takeExactly_append raw rest
      rw [hlen] at hread
      simp [readPayload, Payload.wireType, writePayload, hread]

theorem wireType_lt (p : Payload) : p.wireType < 8 := by
  cases p <;> simp [Payload.wireType]

theorem readRecord_writeRecord (r : Record) (rest : Bytes) (h : r.Fits) :
    readRecord (writeRecord r ++ rest) = some (r, rest) := by
  have hw := wireType_lt r.payload
  have hpos := h.number_pos
  have hlt := h.number_lt
  have htag : 8 * r.number + r.payload.wireType < 128 ^ (4 + 1) := by omega
  have hnumber : (8 * r.number + r.payload.wireType) / 8 = r.number := by omega
  have htype : (8 * r.number + r.payload.wireType) % 8 = r.payload.wireType := by omega
  rw [readRecord, writeRecord, List.append_assoc, readVarint_writeVarint _ htag,
    Option.bind_some]
  simp only [readTagged, hnumber, htype, if_neg (Nat.ne_of_gt hpos),
    readPayload_writePayload r.payload rest h.payload, Option.map_some]

/-! ## Records as a prefix-stable stream -/

theorem readPayload_local (wireType : Nat) : LocalReader (readPayload wireType) := by
  unfold readPayload
  split
  · exact (readVarint_local 10).map fun value => Payload.varint (value % 2 ^ 64)
  · exact (takeExactly_local 8).map Payload.fixed64
  · exact (readVarint_local 5).bind fun size => (takeExactly_local size).map Payload.bytes
  · exact (takeExactly_local 4).map Payload.fixed32
  · exact LocalReader.none

theorem readTagged_local (tag : Nat) : LocalReader (readTagged tag) := by
  unfold readTagged
  split
  · exact LocalReader.none
  · exact (readPayload_local (tag % 8)).map fun payload => Record.mk (tag / 8) payload

theorem readRecord_local : LocalReader readRecord :=
  (readVarint_local 5).bind readTagged_local

theorem readRecord_shrinks {bs rest : Bytes} {r : Record}
    (h : readRecord bs = some (r, rest)) : rest.length < bs.length := by
  rw [readRecord, Option.bind_eq_some_iff] at h
  obtain ⟨⟨tag, mid⟩, htag, hrest⟩ := h
  have hmid := readVarint_shrinks htag
  obtain ⟨⟨used, rfl⟩, _⟩ := readTagged_local tag hrest
  rw [List.length_append] at hmid
  omega

def recordStream : StreamDecoder UInt8 Record where
  next := readRecord
  isLocal := readRecord_local
  shrinks := readRecord_shrinks

def writeRecords (rs : List Record) : Bytes := (rs.map writeRecord).flatten

theorem writeRecords_append (rs rs' : List Record) :
    writeRecords (rs ++ rs') = writeRecords rs ++ writeRecords rs' := by
  simp [writeRecords]

theorem splits_writeRecords {rs : List Record} (h : ∀ r ∈ rs, r.Fits) :
    recordStream.Splits (writeRecords rs) rs [] := by
  induction rs with
  | nil => exact .done []
  | cons r rs ih =>
      rw [writeRecords, List.map_cons, List.flatten_cons]
      exact .item (readRecord_writeRecord r _ (h r (by simp)))
        (ih fun r' hr' => h r' (by simp [hr']))

theorem length_raw_le_writeRecords {rs : List Record} {number : Nat} {raw : Bytes}
    (h : ⟨number, .bytes raw⟩ ∈ rs) : raw.length ≤ (writeRecords rs).length := by
  induction rs with
  | nil => simp at h
  | cons r rs ih =>
      rw [writeRecords, List.map_cons, List.flatten_cons, List.length_append]
      rcases List.mem_cons.mp h with rfl | hmem
      · simp only [writeRecord, writePayload, List.length_append]
        omega
      · exact (ih hmem).trans (Nat.le_add_left _ _)

end KitRpc.Wire

import KitRpc.Wire.Message
/-!
# The request header

`RpcHeader` of `rpc_header.proto`. Its generated parser and serializer belong
to the protocol buffer library and are parameters of the development;
`wireHeader` is the instance that follows the wire format.
-/

namespace KitRpc.Proto

open KitRpc.Cpp KitRpc.Wire

structure RpcHeader where
  serviceName : Bytes
  methodName : Bytes
  argsSize : UInt32
  deriving DecidableEq, Repr

/-- `RpcHeader::SerializePartialToString` and `RpcHeader::ParseFromString`;
`none` where they return false. -/
structure HeaderCodec where
  serialize : RpcHeader → Option Serialized
  parse : Bytes → Option RpcHeader

def HeaderCodec.RoundTrip (codec : HeaderCodec) : Prop :=
  ∀ ⦃h s⦄, codec.serialize h = some s → codec.parse s.bytes = some h

/-- The message type of `rpc_header.proto`. Unknown fields are skipped and the
last occurrence of a field counts. Strings are raw bytes: that the library
rejects a `string` field which is not UTF-8 is left out. -/
def rpcHeader : MessageType RpcHeader where
  empty := ⟨[], [], 0⟩
  merge h
    | ⟨1, .bytes raw⟩ => some { h with serviceName := raw }
    | ⟨2, .bytes raw⟩ => some { h with methodName := raw }
    | ⟨3, .varint value⟩ => some { h with argsSize := UInt32.ofNat value }
    | _ => some h
  records h :=
    bytesField 1 h.serviceName ++ bytesField 2 h.methodName ++
      varintField 3 h.argsSize.toNat

theorem rpcHeader_lawful : rpcHeader.Lawful where
  fits h hsize r hr := by
    have hservice : h.serviceName.length < 2 ^ 31 := by
      refine (length_le_of_bytesField_subset 1 ?_).trans_lt hsize
      simp [rpcHeader]
    have hmethod : h.methodName.length < 2 ^ 31 := by
      refine (length_le_of_bytesField_subset 2 ?_).trans_lt hsize
      simp [rpcHeader]
    have hargs : h.argsSize.toNat < 2 ^ 64 := h.argsSize.toNat_lt.trans (by decide)
    rcases List.mem_append.mp hr with hr | hr
    · rcases List.mem_append.mp hr with hr | hr
      · exact fits_of_mem_bytesField (by decide) (by decide) hservice hr
      · exact fits_of_mem_bytesField (by decide) (by decide) hmethod hr
    · exact fits_of_mem_varintField (by decide) (by decide) hargs hr
  restores h _ := by
    have hservice : (bytesField 1 h.serviceName).foldlM rpcHeader.merge rpcHeader.empty =
        some ⟨h.serviceName, [], 0⟩ :=
      foldlM_bytesField rfl fun hnil => by rw [hnil]; rfl
    have hmethod : (bytesField 2 h.methodName).foldlM rpcHeader.merge
        ⟨h.serviceName, [], 0⟩ = some ⟨h.serviceName, h.methodName, 0⟩ :=
      foldlM_bytesField rfl fun hnil => by rw [hnil]
    have hargs : (varintField 3 h.argsSize.toNat).foldlM rpcHeader.merge
        ⟨h.serviceName, h.methodName, 0⟩ = some h := by
      apply foldlM_varintField
      · simp [rpcHeader]
      · intro hzero
        rw [← UInt32.toNat_inj.mp (hzero.trans UInt32.toNat_zero.symm)]
    change (bytesField 1 _ ++ bytesField 2 _ ++ varintField 3 _).foldlM _ _ = _
    rw [List.foldlM_append, List.foldlM_append, hservice]
    simp only [Option.bind_eq_bind, Option.bind_some, hmethod, hargs]

def wireHeader : HeaderCodec where
  serialize := rpcHeader.serialize
  parse := rpcHeader.parse

theorem wireHeader_roundTrip : wireHeader.RoundTrip :=
  fun _ _ h => rpcHeader_lawful.parse_serialize h

theorem exists_serialize_wireHeader {h : RpcHeader}
    (hnames : h.serviceName.length + h.methodName.length + 35 < 2 ^ 31) :
    ∃ head, wireHeader.serialize h = some head ∧
      head.bytes.length ≤ h.serviceName.length + h.methodName.length + 35 := by
  have hservice := length_bytesField_le 1 h.serviceName
  have hmethod := length_bytesField_le 2 h.methodName
  have hargs := length_varintField_le 3 h.argsSize.toNat
  have hlength : (writeRecords (rpcHeader.records h)).length ≤
      h.serviceName.length + h.methodName.length + 35 := by
    simp only [rpcHeader, writeRecords_append, List.length_append]
    omega
  have hsmall := hlength.trans_lt hnames
  exact ⟨⟨_, hsmall⟩, dif_pos hsmall, hlength⟩

end KitRpc.Proto

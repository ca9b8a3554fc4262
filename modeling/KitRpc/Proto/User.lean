import KitRpc.Wire.Message
/-!
# Messages of the example service

The requests and responses of `user.proto`. `LoginResponse` also serves as the
concrete response type elsewhere.
-/

namespace KitRpc.Proto

open KitRpc.Cpp KitRpc.Wire

structure LoginRequest where
  name : Bytes
  pwd : Bytes
  deriving DecidableEq, Repr

structure LogOutRequest where
  name : Bytes
  deriving DecidableEq, Repr

structure ResultCode where
  errcode : Int32
  errmsg : Bytes
  deriving DecidableEq, Repr

structure LoginResponse where
  result : Option ResultCode
  success : Bool
  deriving DecidableEq, Repr

/-- `message LogOutResponse`, with the fields of `LoginResponse`. -/
abbrev LogOutResponse := LoginResponse

/-- An `int32` field is written sign-extended to 64 bits. -/
def int32Varint (value : Int32) : Nat := (value.toBitVec.signExtend 64).toNat

/-- An `int32` field keeps the low 32 bits of what was written. -/
def int32OfVarint (value : Nat) : Int32 := Int32.ofBitVec (BitVec.ofNat 32 value)

theorem int32Varint_lt (value : Int32) : int32Varint value < 2 ^ 64 :=
  BitVec.isLt _

theorem int32OfVarint_int32Varint (value : Int32) :
    int32OfVarint (int32Varint value) = value := by
  apply Int32.toBitVec_inj.mp
  change BitVec.ofNat 32 (value.toBitVec.signExtend 64).toNat = value.toBitVec
  apply BitVec.eq_of_toNat_eq
  have hlt := value.toBitVec.isLt
  rw [BitVec.toNat_ofNat, BitVec.toNat_signExtend, BitVec.toNat_setWidth]
  split <;> omega

def resultCode : MessageType ResultCode where
  empty := ⟨0, []⟩
  merge m
    | ⟨1, .varint value⟩ => some { m with errcode := int32OfVarint value }
    | ⟨2, .bytes raw⟩ => some { m with errmsg := raw }
    | _ => some m
  records m := varintField 1 (int32Varint m.errcode) ++ bytesField 2 m.errmsg

/-- The message type of `LoginResponse`. A repeated sub-message is merged into
the one already there. -/
def loginResponse : MessageType LoginResponse where
  empty := ⟨none, false⟩
  merge m
    | ⟨1, .bytes raw⟩ =>
        (resultCode.mergeFrom (m.result.getD resultCode.empty) raw).map fun result =>
          { m with result := some result }
    | ⟨2, .varint value⟩ => some { m with success := value ≠ 0 }
    | _ => some m
  records m := messageField resultCode 1 m.result ++ varintField 2 m.success.toNat

abbrev logOutResponse : MessageType LogOutResponse := loginResponse

def LoginRequest.messageType : MessageType LoginRequest where
  empty := ⟨[], []⟩
  merge m
    | ⟨1, .bytes raw⟩ => some { m with name := raw }
    | ⟨2, .bytes raw⟩ => some { m with pwd := raw }
    | _ => some m
  records m := bytesField 1 m.name ++ bytesField 2 m.pwd

def LogOutRequest.messageType : MessageType LogOutRequest where
  empty := ⟨[]⟩
  merge m
    | ⟨1, .bytes raw⟩ => some { m with name := raw }
    | _ => some m
  records m := bytesField 1 m.name

theorem LoginRequest.lawful : LoginRequest.messageType.Lawful where
  fits m hsize r hr := by
    have hname : m.name.length < 2 ^ 31 := by
      refine (length_le_of_bytesField_subset 1 ?_).trans_lt hsize
      simp [messageType]
    have hpwd : m.pwd.length < 2 ^ 31 := by
      refine (length_le_of_bytesField_subset 2 ?_).trans_lt hsize
      simp [messageType]
    rcases List.mem_append.mp hr with hr | hr
    · exact fits_of_mem_bytesField (by decide) (by decide) hname hr
    · exact fits_of_mem_bytesField (by decide) (by decide) hpwd hr
  restores m _ := by
    have hname : (bytesField 1 m.name).foldlM messageType.merge messageType.empty =
        some ⟨m.name, []⟩ :=
      foldlM_bytesField rfl fun hnil => by rw [hnil]; rfl
    have hpwd : (bytesField 2 m.pwd).foldlM messageType.merge ⟨m.name, []⟩ = some m :=
      foldlM_bytesField rfl fun hnil => by rw [← hnil]
    change (bytesField 1 _ ++ bytesField 2 _).foldlM _ _ = _
    rw [List.foldlM_append, hname]
    simp only [Option.bind_eq_bind, Option.bind_some, hpwd]

theorem LogOutRequest.lawful : LogOutRequest.messageType.Lawful where
  fits m hsize r hr := by
    have hname : m.name.length < 2 ^ 31 :=
      (length_le_of_bytesField_subset 1 (List.Subset.refl _)).trans_lt hsize
    exact fits_of_mem_bytesField (by decide) (by decide) hname hr
  restores m _ := foldlM_bytesField rfl fun hnil => congrArg LogOutRequest.mk hnil

theorem resultCode_lawful : resultCode.Lawful where
  fits m hsize r hr := by
    have hmsg : m.errmsg.length < 2 ^ 31 := by
      refine (length_le_of_bytesField_subset 2 ?_).trans_lt hsize
      simp [resultCode]
    rcases List.mem_append.mp hr with hr | hr
    · exact fits_of_mem_varintField (by decide) (by decide) (int32Varint_lt _) hr
    · exact fits_of_mem_bytesField (by decide) (by decide) hmsg hr
  restores m _ := by
    have hcode : (varintField 1 (int32Varint m.errcode)).foldlM resultCode.merge
        resultCode.empty = some ⟨m.errcode, []⟩ := by
      apply foldlM_varintField
      · simp [resultCode, int32OfVarint_int32Varint]
      · intro hzero
        rw [← int32OfVarint_int32Varint m.errcode, hzero]
        rfl
    have hmsg : (bytesField 2 m.errmsg).foldlM resultCode.merge ⟨m.errcode, []⟩ = some m :=
      foldlM_bytesField rfl fun hnil => by rw [← hnil]
    change (varintField 1 _ ++ bytesField 2 _).foldlM _ _ = _
    rw [List.foldlM_append, hcode]
    simp only [Option.bind_eq_bind, Option.bind_some, hmsg]

theorem loginResponse_lawful : loginResponse.Lawful where
  fits m hsize r hr := by
    rcases List.mem_append.mp hr with hr | hr
    · cases hm : m.result with
      | none => simp [messageField, hm] at hr
      | some result =>
          have hmem : r ∈ loginResponse.records m := List.mem_append_left _ hr
          rw [hm, messageField, List.mem_singleton] at hr
          subst hr
          have hraw := (length_raw_le_writeRecords hmem).trans_lt hsize
          exact ⟨Nat.one_pos, Nat.one_lt_two_pow (by decide), hraw⟩
    · refine fits_of_mem_varintField (by decide) (by decide) ?_ hr
      cases m.success <;> decide
  restores m hsize := by
    have hresult : (messageField resultCode 1 m.result).foldlM loginResponse.merge
        loginResponse.empty = some ⟨m.result, false⟩ := by
      cases hm : m.result with
      | none => rfl
      | some result =>
          have hmem : ⟨1, .bytes (writeRecords (resultCode.records result))⟩ ∈
              loginResponse.records m := by
            simp [loginResponse, messageField, hm]
          have hlt := (length_raw_le_writeRecords hmem).trans_lt hsize
          have hparse := MessageType.parse_writeRecords resultCode_lawful hlt
          rw [MessageType.parse] at hparse
          simp [messageField, loginResponse, hparse]
    have hsuccess : (varintField 2 m.success.toNat).foldlM loginResponse.merge
        ⟨m.result, false⟩ = some m := by
      apply foldlM_varintField
      · cases m with
        | mk result success => cases success <;> rfl
      · intro hzero
        cases m with
        | mk result success => cases success <;> simp_all
    change (messageField resultCode 1 _ ++ varintField 2 _).foldlM _ _ = _
    rw [List.foldlM_append, hresult]
    simp only [Option.bind_eq_bind, Option.bind_some, hsuccess]

/-- A response whose message is one NUL byte, on the wire. -/
example : (loginResponse.serialize ⟨some ⟨0, [0]⟩, false⟩).map (·.bytes) =
    some [0x0a, 0x03, 0x12, 0x01, 0x00] := by
  decide

end KitRpc.Proto

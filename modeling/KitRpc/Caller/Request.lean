import KitRpc.Provider.Frames
/-!
# Building a request

The first half of `KitRpcChannel::CallMethod`: the arguments and the header are
serialized and put together behind the header's size. The lemmas relate the
result to the frames of the provider's side.
-/

namespace KitRpc.Caller

open KitRpc.Cpp KitRpc.Wire KitRpc.Proto KitRpc.Provider

/-- How `CallMethod` gives up: it reports a reason through
`controller->SetFailed` and returns, or an exception leaves it. -/
inductive CallFault
  | failed (reason : String)
  | thrown (e : StdException)
  deriving DecidableEq, Repr

section

variable (order : ByteOrder) (codec : HeaderCodec)

def requestHeader (serviceName methodName argsStr : Bytes) : RpcHeader :=
  { serviceName, methodName, argsSize := UInt32.ofNat argsStr.length }

def assemble (headStr argsStr : Bytes) : Option (Bytes × UInt32) :=
  let argsSize := UInt32.ofNat argsStr.length
  let headerSize := UInt32.ofNat headStr.length
  let len : UInt32 := 0
  (insert [] len.toNat (order.writeWord headerSize) 4).bind fun sendData =>
    let len := len + 4
    (insert sendData len.toNat headStr headerSize.toNat).bind fun sendData =>
      let len := len + headerSize
      (insert sendData len.toNat argsStr argsSize.toNat).bind fun sendData =>
        some (sendData, len + argsSize)

/-- `send_data` and `len` of `CallMethod`. The request is given by what its
`SerializePartialToString` returns. -/
def buildRequest (serviceName methodName : Bytes) (request : Option Serialized) :
    Except CallFault (Bytes × UInt32) :=
  match request with
  | none => .error (.failed "request->SerializePartialToString error")
  | some args =>
    match codec.serialize (requestHeader serviceName methodName args.bytes) with
    | none => .error (.failed "req.SerializePartialToString error")
    | some head =>
      match assemble order head.bytes args.bytes with
      | none => .error (.thrown .outOfRange)
      | some sendData => .ok sendData

end

variable {order : ByteOrder} {codec : HeaderCodec}

theorem toNat_ofNat_length (bs : Bytes) (h : bs.length < 2 ^ 32) :
    (UInt32.ofNat bs.length).toNat = bs.length := by
  rw [UInt32.toNat_ofNat']
  exact Nat.mod_eq_of_lt h

theorem insert_all (s data : Bytes) {pos n : Nat} (hpos : pos = s.length)
    (hn : n = data.length) : insert s pos data n = some (s ++ data) := by
  rw [hpos, hn, insert_length, List.take_length]

theorem assemble_eq {headStr argsStr : Bytes} (hhead : headStr.length < 2 ^ 31)
    (hargs : argsStr.length < 2 ^ 31) :
    assemble order headStr argsStr =
      some (order.writeWord (UInt32.ofNat headStr.length) ++ headStr ++ argsStr,
        4 + UInt32.ofNat headStr.length + UInt32.ofNat argsStr.length) := by
  have hheadNat := toNat_ofNat_length headStr (by omega)
  have hargsNat := toNat_ofNat_length argsStr (by omega)
  have hfour : (4 : UInt32).toNat = 4 := rfl
  have hlen : (4 + UInt32.ofNat headStr.length).toNat = 4 + headStr.length := by
    calc
      _ = (4 : UInt32).toNat + (UInt32.ofNat headStr.length).toNat := toNat_add_of_lt (by omega)
      _ = _ := by rw [hheadNat, hfour]
  have hinsert := insert_all [] (order.writeWord (UInt32.ofNat headStr.length))
    (show 0 = _ from rfl) (show 4 = _ by simp)
  have hinsert₁ := insert_all (order.writeWord (UInt32.ofNat headStr.length)) headStr
    (show 4 = _ by simp) hheadNat
  have hinsert₂ := insert_all (order.writeWord (UInt32.ofNat headStr.length) ++ headStr)
    argsStr (show 4 + headStr.length = _ by simp) hargsNat
  simp only [assemble, UInt32.toNat_zero, hinsert, List.nil_append, Option.bind_some,
    UInt32.zero_add, hfour, hinsert₁, hlen, hinsert₂]

/-- A request as a caller names it, with its serialized arguments. -/
structure Request where
  serviceName : Bytes
  methodName : Bytes
  args : Serialized

def Request.call (r : Request) : Call :=
  (requestHeader r.serviceName r.methodName r.args.bytes, r.args.bytes)

def Request.Built (order : ByteOrder) (codec : HeaderCodec) (r : Request) (frame : Bytes) :
    Prop :=
  ∃ len, buildRequest order codec r.serviceName r.methodName (some r.args) = .ok (frame, len)

theorem Request.Built.exists_header {r : Request} {frame : Bytes}
    (h : r.Built order codec frame) :
    ∃ head, codec.serialize r.call.1 = some head ∧
      frame = order.writeWord (UInt32.ofNat head.bytes.length) ++ head.bytes ++ r.args.bytes := by
  obtain ⟨len, hbuild⟩ := h
  rw [buildRequest] at hbuild
  cases hser : codec.serialize (requestHeader r.serviceName r.methodName r.args.bytes) with
  | none => simp [hser] at hbuild
  | some head =>
      simp only [hser, assemble_eq head.bounded r.args.bounded] at hbuild
      cases hbuild
      exact ⟨head, hser, rfl⟩

theorem toNat_len_of_buildRequest {r : Request} {frame : Bytes} {len : UInt32}
    (h : buildRequest order codec r.serviceName r.methodName (some r.args) = .ok (frame, len))
    (hsize : frame.length < 2 ^ 32) : len.toNat = frame.length := by
  rw [buildRequest] at h
  cases hser : codec.serialize (requestHeader r.serviceName r.methodName r.args.bytes) with
  | none => simp [hser] at h
  | some head =>
      simp only [hser, assemble_eq head.bounded r.args.bounded] at h
      cases h
      have hhead := toNat_ofNat_length head.bytes (by have := head.bounded; omega)
      have hargs := toNat_ofNat_length r.args.bytes (by have := r.args.bounded; omega)
      have hfour : (4 : UInt32).toNat = 4 := rfl
      simp only [List.length_append, ByteOrder.length_writeWord] at hsize ⊢
      have hlen : (4 + UInt32.ofNat head.bytes.length).toNat = 4 + head.bytes.length := by
        rw [toNat_add_of_lt (by omega), hhead, hfour]
      calc
        _ = (4 + UInt32.ofNat head.bytes.length).toNat +
            (UInt32.ofNat r.args.bytes.length).toNat := toNat_add_of_lt (by omega)
        _ = _ := by rw [hlen, hargs]

/-- A request with names of a reasonable size can be built, and is not much longer
than its names and its arguments. -/
theorem exists_buildRequest (order : ByteOrder) {r : Request}
    (hnames : r.serviceName.length + r.methodName.length < 2 ^ 30) :
    ∃ frame len, buildRequest order wireHeader r.serviceName r.methodName (some r.args) =
        .ok (frame, len) ∧
      frame.length ≤ r.serviceName.length + r.methodName.length + r.args.bytes.length + 39 := by
  have hsmall : r.serviceName.length + r.methodName.length + 35 < 2 ^ 31 := by omega
  obtain ⟨head, hser, hlength⟩ := exists_serialize_wireHeader
    (h := requestHeader r.serviceName r.methodName r.args.bytes) hsmall
  have hargs := r.args.bounded
  have hbuild : buildRequest order wireHeader r.serviceName r.methodName (some r.args) =
      .ok (order.writeWord (UInt32.ofNat head.bytes.length) ++ head.bytes ++ r.args.bytes,
        4 + UInt32.ofNat head.bytes.length + UInt32.ofNat r.args.bytes.length) := by
    simp only [buildRequest, hser, assemble_eq head.bounded hargs]
  refine ⟨_, _, hbuild, ?_⟩
  simp only [requestHeader] at hlength
  simp only [List.length_append, ByteOrder.length_writeWord]
  omega

/-- A built frame is a complete frame, whatever follows it. -/
theorem Request.Built.framed {r : Request} {frame : Bytes} (h : r.Built order codec frame)
    (hcodec : codec.RoundTrip) (rest : Bytes) :
    Framed order codec (frame ++ rest) r.call rest := by
  obtain ⟨head, hser, rfl⟩ := h.exists_header
  have hhead := toNat_ofNat_length head.bytes (by have := head.bounded; omega)
  have hargs := toNat_ofNat_length r.args.bytes (by have := r.args.bounded; omega)
  rw [List.append_assoc, List.append_assoc]
  apply Framed.intro
  · exact order.length_writeWord _
  · rw [ByteOrder.readWord_writeWord, hhead]
  · exact hcodec hser
  · exact hargs.symm

/-- The concatenation of built frames decodes to the requests, in order. -/
theorem splits_of_built {reqs : List Request} {frames : List Bytes}
    (h : List.Forall₂ (Request.Built order codec) reqs frames) (hcodec : codec.RoundTrip)
    (rest : Bytes) :
    (requestStream order codec).Splits (frames.flatten ++ rest) (reqs.map Request.call)
      rest := by
  induction h with
  | nil => exact .done rest
  | cons hbuilt _ ih =>
      rw [List.flatten_cons, List.append_assoc, List.map_cons]
      exact .item (readFrame_eq_some_iff.mpr (hbuilt.framed hcodec _)) ih

end KitRpc.Caller

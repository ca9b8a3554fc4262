import KitRpc.Muduo.Net
import KitRpc.Wire.Message
/-!
# Callbacks of a call

The second half of `KitRpcChannel::CallMethod`: the connection callback, the
message callback and what they do to the caller's response object and to its
`KitRpcController`. Every chunk is taken for a whole response, and any end of
the connection for the end of the call.
-/

namespace KitRpc.Caller

open KitRpc.Cpp KitRpc.Wire KitRpc.Muduo

/-! ## KitRpcController -/

structure KitRpcController where
  isError : Bool
  errMsg : String
  deriving DecidableEq, Repr

namespace KitRpcController

def new : KitRpcController := ⟨false, ""⟩

def reset (_ : KitRpcController) : KitRpcController := ⟨false, ""⟩

def failed (c : KitRpcController) : Bool := c.isError

def errorText (c : KitRpcController) : String := c.errMsg

def setFailed (_ : KitRpcController) (reason : String) : KitRpcController := ⟨true, reason⟩

@[simp] theorem failed_setFailed (c : KitRpcController) (reason : String) :
    (c.setFailed reason).failed = true := rfl

end KitRpcController

/-! ## Responses and their codec -/

/-- `SerializePartialToString` and `ParseFromString` of a response class. The
parser clears the object, so what it leaves there depends on the bytes only;
where it returns false this may be a part of a message. -/
structure ResponseCodec (M : Type) where
  serialize : M → Option Serialized
  parse : Bytes → Bool × M

def ResponseCodec.RoundTrip {M : Type} (codec : ResponseCodec M) : Prop :=
  ∀ ⦃m s⦄, codec.serialize m = some s → codec.parse s.bytes = (true, m)

/-- The response codec of a message type; after a failure the object is empty. -/
def wireResponse {M : Type} (T : MessageType M) : ResponseCodec M where
  serialize := T.serialize
  parse bs :=
    match T.parse bs with
    | some m => (true, m)
    | none => (false, T.empty)

theorem wireResponse_roundTrip {M : Type} {T : MessageType M} (hT : T.Lawful) :
    (wireResponse T).RoundTrip := by
  intro m s h
  simp only [wireResponse, hT.parse_serialize h]

/-! ## The callbacks -/

/-- What the callbacks of one call act on: the caller's response object and
controller, its connection, and whether `loop.quit()` was called. -/
structure CallState (M : Type) where
  response : M
  controller : KitRpcController
  conn : TcpConnection
  quit : Bool
  deriving DecidableEq, Repr

namespace CallState

variable {M : Type}

/-- The connection callback on a connection that is up. `send` takes `len` as an
`int`, so this is what it does for less than 2^31 bytes. -/
def onConnected (s : CallState M) (sendData : Bytes) (len : UInt32) : CallState M :=
  { s with conn := s.conn.send (sendData.take len.toNat) }

def onDisconnected (s : CallState M) : CallState M :=
  { s with conn := { s.conn with state := .kDisconnected }, quit := true }

/-- The message callback on what arrived. The bytes are handed to the parser as
a `const char*`. -/
def onMessage (codec : ResponseCodec M) (s : CallState M) (readable : Bytes) : CallState M :=
  let (parsed, response) := codec.parse (cStr (retrieveAllAsString readable).1)
  let controller :=
    if parsed then s.controller
    else s.controller.setFailed "response->ParseFromString error"
  { s with response, controller, conn := s.conn.shutdown }

/-- A whole call: the connection comes up, the chunks arrive, and the
connection goes down. -/
def finish (codec : ResponseCodec M) (s : CallState M) (sendData : Bytes) (len : UInt32)
    (chunks : List Bytes) : CallState M :=
  (chunks.foldl (onMessage codec) (s.onConnected sendData len)).onDisconnected

variable {codec : ResponseCodec M}

@[simp] theorem onMessage_response (s : CallState M) (readable : Bytes) :
    (s.onMessage codec readable).response = (codec.parse (cStr readable)).2 := by
  simp [onMessage]

theorem onMessage_failed (s : CallState M) (readable : Bytes) :
    (s.onMessage codec readable).controller.failed =
      (s.controller.failed || !(codec.parse (cStr readable)).1) := by
  rcases hparse : codec.parse (cStr readable) with ⟨parsed, response⟩
  cases parsed <;> simp [onMessage, hparse]

variable (codec) in
theorem foldl_onMessage_response (chunks : List Bytes) (s : CallState M) :
    (chunks.foldl (onMessage codec) s).response =
      match chunks.getLast? with
      | none => s.response
      | some last => (codec.parse (cStr last)).2 := by
  induction chunks generalizing s with
  | nil => rfl
  | cons chunk chunks ih =>
      rw [List.foldl_cons, ih]
      cases chunks with
      | nil => simp
      | cons next chunks => simp [List.getLast?_cons]

variable (codec) in
theorem foldl_onMessage_failed (chunks : List Bytes) (s : CallState M) :
    (chunks.foldl (onMessage codec) s).controller.failed = true ↔
      s.controller.failed = true ∨ ∃ c ∈ chunks, (codec.parse (cStr c)).1 = false := by
  induction chunks generalizing s with
  | nil => simp
  | cons chunk chunks ih =>
      rw [List.foldl_cons, ih, onMessage_failed, Bool.or_eq_true, Bool.not_eq_true']
      simp [or_assoc]

end CallState

end KitRpc.Caller

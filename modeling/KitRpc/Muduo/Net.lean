import KitRpc.Cpp.Bytes
/-!
# The network library

What the framework uses of muduo: the input buffer of a connection and the
connection's send and shutdown operations. The library itself is present as
headers and binaries only; its connection follows the documented behaviour.
-/

namespace KitRpc.Muduo

open KitRpc.Cpp

/-! ## Buffer -/

def retrieve (readable : Bytes) (len : Nat) : Bytes :=
  if len < readable.length then readable.drop len else []

def retrieveAsString (readable : Bytes) (len : Nat) : Bytes × Bytes :=
  (readable.take len, retrieve readable len)

def retrieveAllAsString (readable : Bytes) : Bytes × Bytes :=
  retrieveAsString readable readable.length

@[simp] theorem retrieveAllAsString_eq (readable : Bytes) :
    retrieveAllAsString readable = (readable, []) := by
  simp [retrieveAllAsString, retrieveAsString, retrieve]

/-! ## TcpConnection -/

inductive StateE
  | kDisconnected
  | kConnecting
  | kConnected
  | kDisconnecting
  deriving DecidableEq, Repr

structure TcpConnection where
  state : StateE
  accepted : Bytes
  deriving DecidableEq, Repr

namespace TcpConnection

/-- A connection as the connection callback finds it. -/
def established : TcpConnection := ⟨.kConnected, []⟩

def send (conn : TcpConnection) (message : Bytes) : TcpConnection :=
  if conn.state = .kConnected then
    { conn with accepted := conn.accepted ++ message }
  else conn

def shutdown (conn : TcpConnection) : TcpConnection :=
  if conn.state = .kConnected then { conn with state := .kDisconnecting } else conn

theorem send_of_connected {conn : TcpConnection} (h : conn.state = .kConnected)
    (message : Bytes) :
    conn.send message = { conn with accepted := conn.accepted ++ message } :=
  if_pos h

theorem send_of_not_connected {conn : TcpConnection} (h : conn.state ≠ .kConnected)
    (message : Bytes) : conn.send message = conn :=
  if_neg h

theorem shutdown_of_not_connected {conn : TcpConnection} (h : conn.state ≠ .kConnected) :
    conn.shutdown = conn :=
  if_neg h

@[simp] theorem shutdown_accepted (conn : TcpConnection) :
    conn.shutdown.accepted = conn.accepted := by
  unfold shutdown
  split <;> rfl

theorem shutdown_not_connected (conn : TcpConnection) :
    conn.shutdown.state ≠ .kConnected := by
  unfold shutdown
  split_ifs with h
  · simp
  · exact h

theorem shutdown_state_ne {conn : TcpConnection} {state : StateE} (h : conn.state ≠ state)
    (hne : state ≠ .kDisconnecting) : conn.shutdown.state ≠ state := by
  unfold shutdown
  split_ifs
  · exact hne.symm
  · exact h

end TcpConnection

end KitRpc.Muduo

import KitRpc.Provider.Chunks
import KitRpc.Provider.Dispatch
/-!
# Responses on a connection

`Provide::sendRpcResponse` sends a response and shuts the connection down, so
the first response on a connection is the last one that is accepted.
-/

namespace KitRpc.Provider

open KitRpc.Cpp KitRpc.Wire KitRpc.Muduo KitRpc.Proto

variable {α ρ μ κ : Type}

section

variable (api : GPService α ρ μ κ)

def responseBytes (response : μ) : Bytes :=
  match api.serializeResponse response with
  | none => []
  | some resp => resp.bytes

/-- The serialized responses to valid requests, in order. The methods share
their state, so an earlier request may change the answer to a later one. -/
def responses (servicesMap : ServicesMap α) (app : κ) : List Call → List Bytes
  | [] => []
  | call :: calls =>
      match dispatch api servicesMap call with
      | .invoked service method request =>
          let (app, response) := api.callMethod app service method request
          ((response.map (responseBytes api)).getD []) :: responses servicesMap app calls
      | _ => responses servicesMap app calls

def GPService.Prompt : Prop :=
  ∀ app service method request, (api.callMethod app service method request).2.isSome

end

variable {api : GPService α ρ μ κ} {servicesMap : ServicesMap α}

theorem sendRpcResponse_accepted {conn : TcpConnection} (h : conn.state = .kConnected)
    (response : μ) :
    (sendRpcResponse api conn response).accepted =
      conn.accepted ++ responseBytes api response := by
  unfold sendRpcResponse responseBytes
  cases api.serializeResponse response with
  | none => simp
  | some resp => simp [TcpConnection.send_of_connected h]

theorem sendRpcResponse_not_connected (conn : TcpConnection) (response : μ) :
    (sendRpcResponse api conn response).state ≠ .kConnected := by
  unfold sendRpcResponse
  split
  · exact TcpConnection.shutdown_not_connected conn
  · exact TcpConnection.shutdown_not_connected _

theorem sendRpcResponse_of_not_connected {conn : TcpConnection} (h : conn.state ≠ .kConnected)
    (response : μ) : sendRpcResponse api conn response = conn := by
  unfold sendRpcResponse
  split
  · exact TcpConnection.shutdown_of_not_connected h
  · rw [TcpConnection.send_of_not_connected h, TcpConnection.shutdown_of_not_connected h]

def Serving.Closed (accepted : Bytes) (s : Serving κ) : Prop :=
  s.conn.state ≠ .kConnected ∧ s.conn.accepted = accepted

theorem Serving.Closed.handleRpcRequest {accepted : Bytes} {s : Serving κ}
    (h : s.Closed accepted) (call : Call) :
    (Provider.handleRpcRequest api servicesMap s call).Closed accepted := by
  unfold Provider.handleRpcRequest
  split
  · split
    · exact ⟨sendRpcResponse_not_connected _ _, by
        rw [sendRpcResponse_of_not_connected h.1]
        exact h.2⟩
    · exact h
  · exact h

/-- The first valid request on a fresh connection closes it with its response. -/
theorem closed_of_valid (hprompt : api.Prompt) {call : Call}
    (hvalid : ValidCall api servicesMap call) (calls : List Call) (app : κ) (owed : Nat) :
    ∃ first, (responses api servicesMap app (call :: calls)).head? = some first ∧
      (handleRpcRequest api servicesMap ⟨.established, app, owed⟩ call).Closed first := by
  obtain ⟨service, method, request, hdispatch⟩ := validCall_iff.mp hvalid
  have hdone := hprompt app service method request
  rcases hcall : api.callMethod app service method request with ⟨app', response⟩
  rw [hcall] at hdone
  obtain ⟨response, rfl⟩ := Option.isSome_iff_exists.mp hdone
  refine ⟨responseBytes api response, ?_, ?_⟩
  · simp [responses, hdispatch, hcall]
  · simp only [handleRpcRequest, hdispatch, hcall]
    exact ⟨sendRpcResponse_not_connected _ _, sendRpcResponse_accepted rfl response⟩

/-! ## One response at most -/

/-- Nothing was written yet, or the bytes of one response from `P` were. -/
def Written (api : GPService α ρ μ κ) (P : μ → Prop) (bytes : Bytes) : Prop :=
  bytes = [] ∨ ∃ response resp, P response ∧ api.serializeResponse response = some resp ∧
    bytes = resp.bytes

/-- As long as the connection is up nothing was written. -/
structure OneResponse (api : GPService α ρ μ κ) (P : μ → Prop) (conn : TcpConnection) : Prop where
  up : conn.state = .kConnected → conn.accepted = []
  written : Written api P conn.accepted

theorem OneResponse.mono {P Q : μ → Prop} (hPQ : ∀ response, P response → Q response)
    {conn : TcpConnection} (h : OneResponse api P conn) : OneResponse api Q conn :=
  ⟨h.up, h.written.imp_right fun ⟨response, resp, hP, hrest⟩ =>
    ⟨response, resp, hPQ response hP, hrest⟩⟩

theorem OneResponse.sendRpcResponse {P : μ → Prop} {conn : TcpConnection}
    (h : OneResponse api P conn) {response : μ} (hP : P response) :
    OneResponse api P (Provider.sendRpcResponse api conn response) := by
  by_cases hup : conn.state = .kConnected
  · refine ⟨fun hstill => absurd hstill (sendRpcResponse_not_connected _ _), ?_⟩
    rw [sendRpcResponse_accepted hup, h.up hup, List.nil_append]
    unfold responseBytes
    cases hser : api.serializeResponse response with
    | none => exact .inl rfl
    | some resp => exact .inr ⟨response, resp, hP, hser, rfl⟩
  · rwa [sendRpcResponse_of_not_connected hup]

theorem OneResponse.handleRpcRequest {P : μ → Prop} {s : Serving κ} {call : Call}
    (h : OneResponse api P s.conn)
    (hP : ∀ service method request response,
      dispatch api servicesMap call = .invoked service method request →
        (api.callMethod s.app service method request).2 = some response → P response) :
    OneResponse api P (Provider.handleRpcRequest api servicesMap s call).conn := by
  unfold Provider.handleRpcRequest
  split
  · rename_i service method request hdispatch
    split
    · rename_i app response hcall
      exact h.sendRpcResponse (hP service method request response hdispatch (by rw [hcall]))
    · exact h
  · exact h

/-- What became of a connection: bytes were added, none once it is not up. -/
structure Extends (before after : TcpConnection) : Prop where
  accepted : before.accepted <+: after.accepted
  frozen : before.state ≠ .kConnected →
    after.state ≠ .kConnected ∧ after.accepted = before.accepted

namespace Extends

theorem refl (conn : TcpConnection) : Extends conn conn :=
  ⟨List.prefix_refl _, fun h => ⟨h, rfl⟩⟩

theorem sendRpcResponse {before conn : TcpConnection} (h : Extends before conn) (response : μ) :
    Extends before (Provider.sendRpcResponse api conn response) := by
  by_cases hup : conn.state = .kConnected
  · refine ⟨?_, fun hdown => absurd hup (h.frozen hdown).1⟩
    rw [sendRpcResponse_accepted hup]
    exact h.accepted.trans (List.prefix_append _ _)
  · rwa [sendRpcResponse_of_not_connected hup]

theorem handleRpcRequest {before : TcpConnection} {s : Serving κ} (h : Extends before s.conn)
    (call : Call) :
    Extends before (Provider.handleRpcRequest api servicesMap s call).conn := by
  unfold Provider.handleRpcRequest
  split
  · split
    · exact h.sendRpcResponse _
    · exact h
  · exact h

end Extends

end KitRpc.Provider

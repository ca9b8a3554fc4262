import KitRpc.Cpp.Number
import KitRpc.Cpp.UnorderedMap
import KitRpc.Provider.OnMessage
/-!
# Services and their methods

`Provide::notifyService` enters a service into the dispatch table and
`Provide::handleRpcRequest` looks a request up there. Services are user code:
what the framework calls on a service object is a parameter.
-/

namespace KitRpc.Provider

open KitRpc.Cpp KitRpc.Wire KitRpc.Muduo KitRpc.Proto

def isNameChar (c : UInt8) : Bool :=
  isDigit c ∨ 0x41 ≤ c ∧ c ≤ 0x5a ∨ c = 0x5f ∨ 0x61 ≤ c ∧ c ≤ 0x7a

def IsName (bs : Bytes) : Prop := bs ≠ [] ∧ bs.all isNameChar

instance (bs : Bytes) : Decidable (IsName bs) :=
  inferInstanceAs (Decidable (_ ∧ _))

/-- What is used of `gp::MethodDescriptor`. -/
structure MethodDescriptor where
  name : Bytes
  fullName : Bytes
  isName : IsName name
  deriving DecidableEq

/-- What is used of `gp::ServiceDescriptor`. The methods of one service have
different names. -/
structure ServiceDescriptor where
  name : Bytes
  fullName : Bytes
  methods : List MethodDescriptor
  isName : IsName name
  namesNodup : (methods.map MethodDescriptor.name).Nodup

/-- Service objects `α`, their request messages `ρ`, response messages `μ` and
whatever state `κ` their methods share. -/
structure GPService (α ρ μ κ : Type) where
  /-- `service->GetDescriptor()` -/
  getDescriptor : α → ServiceDescriptor
  /-- `service->GetRequestPrototype(method).New()`, parsed from a string. -/
  parseRequest : α → MethodDescriptor → Bytes → Option ρ
  /-- `service->CallMethod(...)`: the response, if `done` ran before the method
  returned. -/
  callMethod : κ → α → MethodDescriptor → ρ → κ × Option μ
  /-- `response->SerializePartialToString(...)` -/
  serializeResponse : μ → Option Serialized

structure ServiceInfo (α : Type) where
  service : α
  methodsMap : UnorderedMap MethodDescriptor

abbrev ServicesMap (α : Type) := UnorderedMap (ServiceInfo α)

/-- What `handleRpcRequest` makes of a request: one of its three error
branches, or the call of a method. -/
inductive Dispatch (α ρ : Type)
  | noService
  | noMethod
  | argsRejected
  | invoked (service : α) (method : MethodDescriptor) (request : ρ)

variable {α ρ μ κ : Type}

section

variable (api : GPService α ρ μ κ)

def serviceInfo (service : α) : ServiceInfo α :=
  { service
    methodsMap := (api.getDescriptor service).methods.foldl
      (fun methodsMap method => UnorderedMap.insert methodsMap method.name method) [] }

/-- `Provide::notifyService`. -/
def notifyService (servicesMap : ServicesMap α) (service : α) : ServicesMap α :=
  servicesMap.insert (api.getDescriptor service).name (serviceInfo api service)

/-- The lookups of `handleRpcRequest`. -/
def dispatch (servicesMap : ServicesMap α) (call : Call) : Dispatch α ρ :=
  match servicesMap.find call.1.serviceName with
  | none => .noService
  | some serviceInfo =>
    match serviceInfo.methodsMap.find call.1.methodName with
    | none => .noMethod
    | some method =>
      match api.parseRequest serviceInfo.service method call.2 with
      | none => .argsRejected
      | some request => .invoked serviceInfo.service method request

/-- A request for a registered service and method whose arguments parse. -/
def ValidCall (servicesMap : ServicesMap α) (call : Call) : Prop :=
  ∃ serviceInfo, servicesMap.find call.1.serviceName = some serviceInfo ∧
    ∃ method, serviceInfo.methodsMap.find call.1.methodName = some method ∧
      ∃ request, api.parseRequest serviceInfo.service method call.2 = some request

/-- The part of the provider a connection acts on: the connection, the state
the methods share, and how many of its `done` closures have not run yet. -/
structure Serving (κ : Type) where
  conn : TcpConnection
  app : κ
  owed : Nat
  deriving DecidableEq, Repr

def sendRpcResponse (conn : TcpConnection) (response : μ) : TcpConnection :=
  match api.serializeResponse response with
  | none => conn.shutdown
  | some resp => (conn.send resp.bytes).shutdown

def handleRpcRequest (servicesMap : ServicesMap α) (s : Serving κ) (call : Call) : Serving κ :=
  match dispatch api servicesMap call with
  | .invoked service method request =>
    match api.callMethod s.app service method request with
    | (app, some response) => { s with conn := sendRpcResponse api s.conn response, app }
    | (app, none) => { s with app, owed := s.owed + 1 }
  | _ => s

end

variable {api : GPService α ρ μ κ} {servicesMap : ServicesMap α}

theorem dispatch_eq_invoked_iff {call : Call} {service : α} {method : MethodDescriptor}
    {request : ρ} :
    dispatch api servicesMap call = .invoked service method request ↔
      ∃ info, servicesMap.find call.1.serviceName = some info ∧
        info.methodsMap.find call.1.methodName = some method ∧ info.service = service ∧
        api.parseRequest service method call.2 = some request := by
  unfold dispatch
  cases hservice : servicesMap.find call.1.serviceName with
  | none => simp
  | some info =>
      cases hmethod : info.methodsMap.find call.1.methodName with
      | none => simp [hmethod]
      | some found =>
          simp only [Option.some.injEq, exists_eq_left', hmethod]
          cases hargs : api.parseRequest info.service found call.2 with
          | none =>
              simp only [reduceCtorEq, false_iff]
              rintro ⟨rfl, rfl, h⟩
              rw [hargs] at h
              cases h
          | some parsed =>
              simp only [Dispatch.invoked.injEq]
              constructor
              · rintro ⟨rfl, rfl, rfl⟩
                exact ⟨rfl, rfl, hargs⟩
              · rintro ⟨rfl, rfl, h⟩
                exact ⟨rfl, rfl, Option.some.inj (hargs.symm.trans h)⟩

theorem validCall_iff {call : Call} :
    ValidCall api servicesMap call ↔
      ∃ service method request,
        dispatch api servicesMap call = .invoked service method request := by
  simp only [dispatch_eq_invoked_iff]
  constructor
  · rintro ⟨info, hservice, method, hmethod, request, hargs⟩
    exact ⟨info.service, method, request, info, hservice, hmethod, rfl, hargs⟩
  · rintro ⟨_, method, request, info, hservice, hmethod, rfl, hargs⟩
    exact ⟨info, hservice, method, hmethod, request, hargs⟩

theorem find_methodsMap {service : α} {method : MethodDescriptor}
    (h : method ∈ (api.getDescriptor service).methods) :
    (serviceInfo api service).methodsMap.find method.name = some method := by
  have hfind := UnorderedMap.find_foldl_insert MethodDescriptor.name id
    (api.getDescriptor service).methods [] method.name
  rw [UnorderedMap.find_nil, Option.none_or] at hfind
  refine hfind.trans ?_
  rw [Option.map_id_fun, id_eq, List.find?_eq_some_iff_append]
  obtain ⟨before, after, hsplit⟩ := List.append_of_mem h
  refine ⟨by simp, before, after, hsplit, fun other hother => ?_⟩
  have hnodup := (api.getDescriptor service).namesNodup
  rw [hsplit, List.map_append, List.nodup_append] at hnodup
  have hne := hnodup.2.2 other.name (List.mem_map_of_mem hother) method.name (by simp)
  simpa using hne

theorem handleRpcRequest_of_not_valid {call : Call} (h : ¬ ValidCall api servicesMap call)
    (s : Serving κ) : handleRpcRequest api servicesMap s call = s := by
  unfold handleRpcRequest
  split
  · exact absurd (validCall_iff.mpr ⟨_, _, _, by assumption⟩) h
  · rfl

/-- Services given by their descriptors that answer with the arguments and
count the requests. -/
def echoService : GPService ServiceDescriptor Bytes Bytes Nat where
  getDescriptor := id
  parseRequest _ _ args := some args
  callMethod requests _ _ request := (requests + 1, some request)
  serializeResponse response :=
    if h : response.length < 2 ^ 31 then some ⟨response, h⟩ else none

def loginMethod : MethodDescriptor := ⟨[0x4c], [0x55, 0x2e, 0x4c], by decide⟩

def userService : ServiceDescriptor where
  name := [0x55]
  fullName := [0x55]
  methods := [loginMethod, ⟨[0x4f], [0x55, 0x2e, 0x4f], by decide⟩]
  isName := by decide
  namesNodup := by decide

end KitRpc.Provider

import KitRpc.Proto.User
import KitRpc.System.Session
import Mathlib.Data.List.Forall2
/-!
# The example service

`UserService` of the callee and the service descriptor of `user.proto`, as the
framework sees them. What the methods print is the state they share, so that
every run of a method leaves a trace.
-/

namespace KitRpc.Example

open KitRpc.Foundation KitRpc.Cpp KitRpc.Wire KitRpc.Proto KitRpc.Caller KitRpc.Provider
  KitRpc.System

/-! ## The service -/

namespace UserService

/-- `bool Login(std::string name, std::string pwd)`: what is on `std::cout`
afterwards, and the result. -/
def localLogin (out name pwd : Bytes) : Bytes × Bool :=
  (out ++ ascii "local Login service ....\n" ++
    (ascii "name= " ++ name ++ ascii ", pwd= " ++ pwd ++ ascii "\n"), true)

def localLogOut (out name : Bytes) : Bytes × Bool :=
  (out ++ ascii "local LogOut service ....\n" ++ (ascii "name= " ++ name ++ ascii "\n"), false)

def login (out : Bytes) (request : LoginRequest) : Bytes × LoginResponse :=
  let (out, success) :=
    localLogin (out ++ ascii "rpc Login service ....\n") request.name request.pwd
  (out, { result := some { errcode := 0, errmsg := ascii "Login OK" }, success })

def logOut (out : Bytes) (request : LogOutRequest) : Bytes × LogOutResponse :=
  let (out, success) := localLogOut (out ++ ascii "rpc LogOut service ....\n") request.name
  (out, { result := some { errcode := 11, errmsg := ascii "LogOut Faild" }, success })

end UserService

/-! ## Its descriptor -/

def loginDescriptor : MethodDescriptor where
  name := ascii "Login"
  fullName := ascii "kit_rpc.UserServiceRpc.Login"
  isName := by decide

def logOutDescriptor : MethodDescriptor where
  name := ascii "LogOut"
  fullName := ascii "kit_rpc.UserServiceRpc.LogOut"
  isName := by decide

def userServiceRpc : ServiceDescriptor where
  name := ascii "UserServiceRpc"
  fullName := ascii "kit_rpc.UserServiceRpc"
  methods := [loginDescriptor, logOutDescriptor]
  isName := by decide
  namesNodup := by decide

inductive UserRequest
  | login (request : LoginRequest)
  | logOut (request : LogOutRequest)
  deriving DecidableEq, Repr

/-- `GetRequestPrototype` and `CallMethod` of the generated service class choose
by the method. -/
def userServiceApi : GPService Unit UserRequest LoginResponse Bytes where
  getDescriptor _ := userServiceRpc
  parseRequest _ method args :=
    if method = loginDescriptor then (LoginRequest.messageType.parse args).map .login
    else (LogOutRequest.messageType.parse args).map .logOut
  callMethod out _ _ request :=
    match request with
    | .login request =>
        let (out, response) := UserService.login out request
        (out, some response)
    | .logOut request =>
        let (out, response) := UserService.logOut out request
        (out, some response)
  serializeResponse := loginResponse.serialize

/-- The dispatch table after `p.notifyService(std::make_shared<UserService>())`. -/
def userServicesMap : ServicesMap Unit := notifyService userServiceApi [] ()

namespace UserRequest

def method : UserRequest → MethodDescriptor
  | login _ => loginDescriptor
  | logOut _ => logOutDescriptor

def serialize : UserRequest → Option Serialized
  | login request => LoginRequest.messageType.serialize request
  | logOut request => LogOutRequest.messageType.serialize request

def run : UserRequest → Bytes → Bytes × LoginResponse
  | login request, out => UserService.login out request
  | logOut request, out => UserService.logOut out request

def expected : UserRequest → LoginResponse
  | login _ => ⟨some ⟨0, ascii "Login OK"⟩, true⟩
  | logOut _ => ⟨some ⟨11, ascii "LogOut Faild"⟩, false⟩

def request (r : UserRequest) (args : Serialized) : Request :=
  ⟨userServiceRpc.name, r.method.name, args⟩

theorem run_response (r : UserRequest) (out : Bytes) : (r.run out).2 = r.expected := by
  cases r <;> rfl

/-- Every request gets to its method with the fields the stub was given. -/
theorem dispatch_eq {r : UserRequest} {args : Serialized} (h : r.serialize = some args) :
    dispatch userServiceApi userServicesMap (r.request args).call = .invoked () r.method r := by
  rw [dispatch_eq_invoked_iff]
  cases r with
  | login request =>
      have hparse := LoginRequest.lawful.parse_serialize h
      refine ⟨serviceInfo userServiceApi (), rfl, rfl, rfl, ?_⟩
      change (LoginRequest.messageType.parse args.bytes).map UserRequest.login = _
      rw [hparse, Option.map_some]
  | logOut request =>
      have hparse := LogOutRequest.lawful.parse_serialize h
      refine ⟨serviceInfo userServiceApi (), rfl, rfl, rfl, ?_⟩
      change (LogOutRequest.messageType.parse args.bytes).map UserRequest.logOut = _
      rw [hparse, Option.map_some]

/-- The bytes of a response have no NUL, so the caller reads them back. -/
theorem exists_serialize_expected (r : UserRequest) :
    ∃ resp, loginResponse.serialize r.expected = some resp ∧ resp.bytes ≠ [] ∧
      (wireResponse loginResponse).parse (cStr resp.bytes) = (true, r.expected) := by
  cases r with
  | login request =>
      refine ⟨⟨[0x0a, 0x0a, 0x12, 0x08] ++ ascii "Login OK" ++ [0x10, 0x01], by decide⟩, ?_⟩
      simp only [expected]
      decide
  | logOut request =>
      refine ⟨⟨[0x0a, 0x10, 0x08, 0x0b, 0x12, 0x0c] ++ ascii "LogOut Faild", by decide⟩, ?_⟩
      simp only [expected]
      decide

theorem serves {r : UserRequest} {args : Serialized} (order : ByteOrder)
    (h : r.serialize = some args) (hsize : args.bytes.length < 2 ^ 30) :
    Serves order wireHeader userServiceApi userServicesMap (wireResponse loginResponse)
      (r.request args) r.run := by
  have hnames : (r.request args).serviceName.length + (r.request args).methodName.length <
      2 ^ 29 := by
    cases r <;> simp [request, method, userServiceRpc, loginDescriptor, logOutDescriptor, ascii]
  obtain ⟨frame, len, hbuild, hlength⟩ := exists_buildRequest order
    (hnames.trans (by decide))
  have hframe : frame.length < 2 ^ 31 := by
    change args.bytes.length < 2 ^ 30 at hsize
    have hargs : (r.request args).args.bytes.length = args.bytes.length := rfl
    omega
  obtain ⟨resp, hser, hne, hparse⟩ := r.exists_serialize_expected
  refine ⟨frame, len, fun out => ⟨resp.bytes, fun controller initial => ?_⟩⟩
  have hdispatch := dispatch_eq h
  refine ⟨hbuild, hframe, ⟨(), r.method, r, r.expected, resp, hdispatch, ?_, hser, rfl⟩, hne, ?_⟩
  · cases r <;> rfl
  · rw [Exchange.response, run_response, hparse]

end UserRequest

/-! ## Sessions with the service -/

theorem localSession_userRequests (calls : List (UserRequest × Serialized)) (out : Bytes) :
    localSession out (calls.map fun c => c.1.run) =
      (calls.map fun c => c.1.expected, calls.foldl (fun out c => (c.1.run out).1) out) := by
  induction calls generalizing out with
  | nil => rfl
  | cons c calls ih =>
      simp only [List.map_cons, localSession, ih, c.1.run_response, List.foldl_cons]

/-- Delivered whole, however else the calls of a session with the service go, they
can be completed, every call reports no failure and has the expected response, and
the service has printed what the local calls print. -/
theorem session_userService (order : ByteOrder) (calls : List (UserRequest × Serialized))
    (hser : ∀ c ∈ calls, c.1.serialize = some c.2)
    (hsize : ∀ c ∈ calls, c.2.bytes.length < 2 ^ 30) (out : Bytes) :
    let Runs := Session order wireHeader userServiceApi userServicesMap
      (wireResponse loginResponse) out (calls.map fun c => c.1.request c.2)
    (∃ results out', Runs results out') ∧
      ∀ results out', Runs results out' →
        results.map CallState.response = calls.map (fun c => c.1.expected) ∧
        (∀ s ∈ results, s.controller = .new) ∧
        out' = calls.foldl (fun out c => (c.1.run out).1) out := by
  have hserves : List.Forall₂
      (Serves order wireHeader userServiceApi userServicesMap (wireResponse loginResponse))
      (calls.map fun c => c.1.request c.2) (calls.map fun c => c.1.run) := by
    rw [List.forall₂_map_left_iff, List.forall₂_map_right_iff, List.forall₂_same]
    exact fun c hc => UserRequest.serves order (hser c hc) (hsize c hc)
  refine ⟨exists_session wireHeader_roundTrip hserves ⟨none, false⟩ out, fun results out' h => ?_⟩
  obtain ⟨heq, hnew⟩ := h.eq_local wireHeader_roundTrip hserves
  rw [localSession_userRequests, Prod.mk.injEq] at heq
  exact ⟨heq.1, hnew, heq.2⟩

theorem session_userService_loginLogOut :
    let requests := [(UserRequest.login ⟨ascii "zhangsan", ascii "1891891981"⟩).request
        ⟨[0x0a, 0x08] ++ ascii "zhangsan" ++ [0x12, 0x0a] ++ ascii "1891891981", by decide⟩,
      (UserRequest.logOut ⟨ascii "abcdef"⟩).request ⟨[0x0a, 0x06] ++ ascii "abcdef", by decide⟩]
    let Runs := Session .little wireHeader userServiceApi userServicesMap
      (wireResponse loginResponse) [] requests
    (∃ results out', Runs results out') ∧ ∀ results out', Runs results out' →
      results.map CallState.response =
        [⟨some ⟨0, ascii "Login OK"⟩, true⟩, ⟨some ⟨11, ascii "LogOut Faild"⟩, false⟩] := by
  intro requests Runs
  have hser : ∀ c ∈ [(UserRequest.login ⟨ascii "zhangsan", ascii "1891891981"⟩,
        (⟨[0x0a, 0x08] ++ ascii "zhangsan" ++ [0x12, 0x0a] ++ ascii "1891891981", by decide⟩ :
          Serialized)),
      (.logOut ⟨ascii "abcdef"⟩, ⟨[0x0a, 0x06] ++ ascii "abcdef", by decide⟩)],
      c.1.serialize = some c.2 := by
    decide
  obtain ⟨hexists, hall⟩ := session_userService .little _ hser (by decide) []
  exact ⟨hexists, fun results out' h => (hall results out' h).1⟩

end KitRpc.Example

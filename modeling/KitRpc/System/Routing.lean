import KitRpc.Caller.Stream
import KitRpc.Provider.Exact
import KitRpc.Provider.Residue
import KitRpc.System.Pipelined
/-!
# Which service object gets a request

A request names its service by the short name of the descriptor, and so does
the dispatch table. Two services of one short name share an entry there, which
belongs to the one registered first.
-/

namespace KitRpc.System

open KitRpc.Cpp KitRpc.Wire KitRpc.Proto KitRpc.Caller KitRpc.Provider

variable {order : ByteOrder} {codec : HeaderCodec} {α ρ μ κ : Type} {api : GPService α ρ μ κ}

def requestFor (descriptor : ServiceDescriptor) (method : MethodDescriptor)
    (args : Serialized) : Request :=
  { serviceName := descriptor.name, methodName := method.name, args }

theorem onMessage_built (hcodec : codec.RoundTrip) {r : Request} {frame : Bytes}
    (hbuilt : r.Built order codec frame) {ε : Type} (handle : ε → Call → ε) (env : ε) :
    (onMessage order codec handle frame 1 (.start [] env)).env = handle env r.call := by
  have hframed := hbuilt.framed hcodec []
  obtain ⟨len, hfirst⟩ := first_framed hframed (headerSizeAt_built hbuilt [])
  rw [List.append_nil] at hframed hfirst
  have hround := round_of_request handle (s := .start [] env) rfl
    (Nat.zero_lt_of_lt hframed.length_rest_lt) (Prod.ext rfl hfirst)
  rw [onMessage_succ, onMessage_zero, hround]
  rfl

/-- A request for a method of a registered service, with arguments that parse,
makes the framework call that service object with that method exactly if the
object is the first that was registered under its short name. -/
theorem invoked_iff_registered_first (hcodec : codec.RoundTrip) {services : List α}
    {service : α} {method : MethodDescriptor}
    (hmethod : method ∈ (api.getDescriptor service).methods) {args : Serialized} {request : ρ}
    (hargs : api.parseRequest service method args.bytes = some request) {frame : Bytes}
    (hbuilt : (requestFor (api.getDescriptor service) method args).Built order codec frame)
    (serving : Serving (κ × List (Invocation α ρ))) :
    let servicesMap := services.foldl (notifyService api.recorded) []
    let served := onMessage order codec (handleRpcRequest api.recorded servicesMap) frame 1
      (.start [] serving)
    served.env.app.2 = serving.app.2 ++ [⟨service, method, request⟩] ↔
      services.find? (fun other => (api.getDescriptor other).name =
        (api.getDescriptor service).name) = some service := by
  intro servicesMap served
  have hfilled : FilledBy api services servicesMap :=
    (filledBy_foldl (.empty : FilledBy api.recorded [] []) services).of_recorded
  have hdeclared : declared api service method.name = some method :=
    declared_eq_some_iff.mpr ⟨hmethod, rfl⟩
  rw [onMessage_built hcodec hbuilt, hfilled.invokes_iff serving]
  constructor
  · exact And.left
  · intro hfirst
    exact ⟨hfirst, hdeclared, hargs⟩

def otherMethod : MethodDescriptor :=
  { loginMethod with fullName := [0x62, 0x2e, 0x55, 0x2e, 0x4c] }

def otherService : ServiceDescriptor where
  name := userService.name
  fullName := [0x62, 0x2e, 0x55]
  methods := [otherMethod]
  isName := userService.isName
  namesNodup := by decide

def idle : Serving (Nat × List (Invocation ServiceDescriptor Bytes)) := ⟨.established, (0, []), 0⟩

theorem invoked_login :
    (onMessage .little wireHeader (handleRpcRequest echoService.recorded
        ([userService].foldl (notifyService echoService.recorded) []))
        loginFrame 1 (.start [] idle)).env.app.2 =
      [⟨userService, loginMethod, [0x61, 0x00, 0x62]⟩] := by
  have hbuilt : (requestFor userService loginMethod loginRequest.args).Built .little wireHeader
      loginFrame := ⟨15, rfl⟩
  have hmethod : loginMethod ∈ userService.methods := by decide
  have hfirst : [userService].find? (fun other => other.name = userService.name) =
      some userService := rfl
  exact (invoked_iff_registered_first wireHeader_roundTrip hmethod rfl hbuilt idle).mpr hfirst

/-- With the services `U` and `b.U` registered in this order, whose full names
differ, a request for the method of the second calls the first and not the second. -/
theorem invoked_other_service :
    ([userService, otherService].map ServiceDescriptor.fullName).Nodup ∧
    ∃ method ∈ otherService.methods,
      (requestFor otherService method loginRequest.args).Built .little wireHeader loginFrame ∧
      let served := onMessage .little wireHeader (handleRpcRequest echoService.recorded
        ([userService, otherService].foldl (notifyService echoService.recorded) []))
        loginFrame 1 (.start [] idle)
      served.env.app.2 = [⟨userService, loginMethod, loginRequest.args.bytes⟩] ∧
        served.env.app.2 ≠ [⟨otherService, method, loginRequest.args.bytes⟩] := by
  have hbuilt : (requestFor otherService otherMethod loginRequest.args).Built .little wireHeader
      loginFrame := ⟨15, rfl⟩
  have hfirst : (onMessage .little wireHeader (handleRpcRequest echoService.recorded
      ([userService, otherService].foldl (notifyService echoService.recorded) []))
      loginFrame 1 (.start [] idle)).env.app.2 =
        [⟨userService, loginMethod, loginRequest.args.bytes⟩] := by
    rw [onMessage_built wireHeader_roundTrip hbuilt]
    rfl
  refine ⟨by decide, otherMethod, List.mem_singleton.mpr rfl, hbuilt, hfirst, fun hother => ?_⟩
  have hcalls := List.cons.inj (hfirst.symm.trans hother)
  have hservice : userService = otherService := congrArg Invocation.service hcalls.1
  exact absurd (congrArg ServiceDescriptor.fullName hservice) (by decide)

end KitRpc.System

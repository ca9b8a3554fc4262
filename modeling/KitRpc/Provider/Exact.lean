import KitRpc.Provider.Table
/-!
# What a request invokes

Registrations and requests in any order. The calls made on service objects are
recorded next to the state the services share, so that a request can be seen to
invoke one object once, or none.
-/

namespace KitRpc.Provider

open KitRpc.Cpp

variable {α ρ μ κ : Type}

/-- A `service->CallMethod(...)` the framework made. -/
structure Invocation (α ρ : Type) where
  service : α
  method : MethodDescriptor
  request : ρ

def GPService.recorded (api : GPService α ρ μ κ) :
    GPService α ρ μ (κ × List (Invocation α ρ)) where
  getDescriptor := api.getDescriptor
  parseRequest := api.parseRequest
  callMethod s service method request :=
    let (app, response) := api.callMethod s.1 service method request
    ((app, s.2 ++ [⟨service, method, request⟩]), response)
  serializeResponse := api.serializeResponse

structure Provide (α κ : Type) where
  servicesMap : ServicesMap α
  serving : Serving κ

inductive ProvideCall (α : Type)
  | notifyService (service : α)
  | handleRpcRequest (call : Call)

section

variable (api : GPService α ρ μ κ)

def Provide.step (p : Provide α κ) : ProvideCall α → Provide α κ
  | .notifyService service =>
      { p with servicesMap := Provider.notifyService api p.servicesMap service }
  | .handleRpcRequest call =>
      { p with serving := Provider.handleRpcRequest api p.servicesMap p.serving call }

/-- The services and methods whose request and response prototypes
`handleRpcRequest` asks for: both are asked before the arguments are parsed. -/
def prototypesAsked (servicesMap : ServicesMap α) (call : Call) :
    List (α × MethodDescriptor) :=
  match servicesMap.find call.1.serviceName with
  | none => []
  | some serviceInfo =>
    match serviceInfo.methodsMap.find call.1.methodName with
    | none => []
    | some method => [(serviceInfo.service, method), (serviceInfo.service, method)]

/-- The request is for this method of this service: the first of its name that
was registered, its method of the name, arguments that parse. -/
def Addressed (services : List α) (call : Call) (invocation : Invocation α ρ) : Prop :=
  firstNamed api services call.1.serviceName = some invocation.service ∧
    declared api invocation.service call.1.methodName = some invocation.method ∧
    api.parseRequest invocation.service invocation.method call.2 = some invocation.request

end

def registered (calls : List (ProvideCall α)) : List α :=
  calls.filterMap fun
    | .notifyService service => some service
    | .handleRpcRequest _ => none

variable {api : GPService α ρ μ κ} {services : List α} {servicesMap : ServicesMap α}

theorem filledBy_run (calls : List (ProvideCall α)) {before : List α} {p : Provide α κ}
    (h : FilledBy api before p.servicesMap) :
    FilledBy api (before ++ registered calls) (calls.foldl (Provide.step api) p).servicesMap := by
  induction calls generalizing before p with
  | nil => simpa [registered] using h
  | cons first calls ih =>
      cases first with
      | notifyService service =>
          have hnext := ih (p := p.step api (.notifyService service)) (h.notifyService service)
          rwa [List.append_assoc] at hnext
      | handleRpcRequest call =>
          exact ih (p := p.step api (.handleRpcRequest call)) h

theorem FilledBy.methodsMap_find (h : FilledBy api services servicesMap)
    {entry : Bytes × ServiceInfo α} (hentry : entry ∈ servicesMap) (name : Bytes) :
    entry.2.methodsMap.find name = declared api entry.2.service name := by
  rw [← find_methodsMap_eq, ← (h.entries entry hentry).2.1]

theorem FilledBy.dispatch_eq_invoked_iff (h : FilledBy api services servicesMap) {call : Call}
    {invocation : Invocation α ρ} :
    dispatch api servicesMap call =
        .invoked invocation.service invocation.method invocation.request ↔
      Addressed api services call invocation := by
  rw [Provider.dispatch_eq_invoked_iff, h.finds, Addressed]
  constructor
  · rintro ⟨info, hinfo, hmethod, hservice, hargs⟩
    obtain ⟨service, hfirst, rfl⟩ := Option.map_eq_some_iff.mp hinfo
    rw [find_methodsMap_eq] at hmethod
    cases hservice
    exact ⟨hfirst, hmethod, hargs⟩
  · rintro ⟨hfirst, hmethod, hargs⟩
    refine ⟨serviceInfo api invocation.service, ?_, ?_, rfl, hargs⟩
    · rw [hfirst, Option.map_some]
    · rw [find_methodsMap_eq, hmethod]

theorem FilledBy.prototypesAsked (h : FilledBy api services servicesMap) {call : Call}
    {asked : α × MethodDescriptor} (hasked : asked ∈ prototypesAsked servicesMap call) :
    firstNamed api services call.1.serviceName = some asked.1 ∧
      asked.2 ∈ (api.getDescriptor asked.1).methods := by
  rw [Provider.prototypesAsked, h.finds] at hasked
  cases hfirst : firstNamed api services call.1.serviceName with
  | none => simp [hfirst] at hasked
  | some service =>
      simp only [hfirst, Option.map_some, find_methodsMap_eq] at hasked
      cases hmethod : declared api service call.1.methodName with
      | none => simp [hmethod] at hasked
      | some method =>
          have hboth : asked = ((serviceInfo api service).service, method) := by
            simpa [hmethod] using hasked
          rw [hboth]
          exact ⟨rfl, (declared_eq_some_iff.mp hmethod).1⟩

/-- A record of the calls does not change what is looked up. -/
theorem FilledBy.of_recorded (h : FilledBy api.recorded services servicesMap) :
    FilledBy api services servicesMap :=
  ⟨h.keysNodup, h.entries, h.finds⟩

theorem FilledBy.handleRpcRequest_cases (h : FilledBy api services servicesMap)
    (s : Serving (κ × List (Invocation α ρ))) (call : Call) :
    (∃ invocation, Addressed api services call invocation ∧
        (handleRpcRequest api.recorded servicesMap s call).app.2 = s.app.2 ++ [invocation]) ∨
      (∀ invocation, ¬ Addressed api services call invocation) ∧
        handleRpcRequest api.recorded servicesMap s call = s := by
  have hrecorded : FilledBy api.recorded services servicesMap := ⟨h.keysNodup, h.entries, h.finds⟩
  by_cases hvalid : ValidCall api.recorded servicesMap call
  · left
    obtain ⟨service, method, request, hinvoked⟩ := validCall_iff.mp hvalid
    refine ⟨⟨service, method, request⟩, hrecorded.dispatch_eq_invoked_iff.mp hinvoked, ?_⟩
    rw [handleRpcRequest, hinvoked]
    dsimp only [GPService.recorded]
    cases (api.callMethod s.app.1 service method request).2 <;> rfl
  · right
    refine ⟨fun invocation haddressed => hvalid ?_, handleRpcRequest_of_not_valid hvalid s⟩
    exact validCall_iff.mpr ⟨_, _, _, hrecorded.dispatch_eq_invoked_iff.mpr haddressed⟩

theorem Addressed.unique {call : Call} {invocation other : Invocation α ρ}
    (h : Addressed api services call invocation) (h' : Addressed api services call other) :
    invocation = other := by
  obtain ⟨service, method, request⟩ := invocation
  obtain ⟨hservice, hmethod, hrequest⟩ := h
  obtain ⟨hservice', hmethod', hrequest'⟩ := h'
  cases Option.some.inj (hservice.symm.trans hservice')
  cases Option.some.inj (hmethod.symm.trans hmethod')
  cases Option.some.inj (hrequest.symm.trans hrequest')
  rfl

theorem FilledBy.invokes_iff (h : FilledBy api services servicesMap)
    (s : Serving (κ × List (Invocation α ρ))) {call : Call} {invocation : Invocation α ρ} :
    (handleRpcRequest api.recorded servicesMap s call).app.2 = s.app.2 ++ [invocation] ↔
      Addressed api services call invocation := by
  rcases h.handleRpcRequest_cases s call with ⟨made, haddressed, hlog⟩ | ⟨hnone, hsame⟩
  · rw [hlog, List.append_cancel_left_eq, List.cons.injEq, and_iff_left rfl]
    exact ⟨fun heq => heq ▸ haddressed, haddressed.unique⟩
  · rw [hsame, iff_false_right (hnone invocation)]
    simp

/-- Dispatch is exact. After any registrations and requests, the methods of
every entry are those its service declares, and a request makes one call, on the
first service registered under the name and with its own method, or changes
nothing. -/
theorem handleRpcRequest_exact (api : GPService α ρ μ κ) (calls : List (ProvideCall α))
    (serving : Serving (κ × List (Invocation α ρ))) (call : Call) :
    let p := calls.foldl (Provide.step api.recorded) ⟨[], serving⟩
    let p' := p.step api.recorded (.handleRpcRequest call)
    (∀ entry ∈ p.servicesMap, ∀ name,
        entry.2.methodsMap.find name = declared api entry.2.service name) ∧
      (∀ invocation, p'.serving.app.2 = p.serving.app.2 ++ [invocation] ↔
        Addressed api (registered calls) call invocation) ∧
      ((∃ invocation, Addressed api (registered calls) call invocation) ∨ p' = p) ∧
      (∀ asked ∈ prototypesAsked p.servicesMap call,
        firstNamed api (registered calls) call.1.serviceName = some asked.1 ∧
          asked.2 ∈ (api.getDescriptor asked.1).methods) ∧
      p'.servicesMap = p.servicesMap := by
  intro p p'
  have hrun : FilledBy api.recorded ([] ++ registered calls) p.servicesMap :=
    filledBy_run calls (p := ⟨[], serving⟩) .empty
  have hfilled : FilledBy api (registered calls) p.servicesMap := hrun.of_recorded
  refine ⟨fun entry hentry => hfilled.methodsMap_find hentry,
    fun invocation => hfilled.invokes_iff p.serving, ?_,
    fun asked hasked => hfilled.prototypesAsked hasked, rfl⟩
  apply (hfilled.handleRpcRequest_cases p.serving call).imp
  · rintro ⟨made, haddressed, _⟩
    exact ⟨made, haddressed⟩
  · rintro ⟨_, hsame⟩
    exact congrArg (Provide.mk p.servicesMap) hsame

end KitRpc.Provider

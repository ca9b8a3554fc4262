import KitRpc.System.LocalCall
/-!
# Sessions

Calls one after the other, as in a program that uses a stub: every call has a
connection of its own, the controller is reset in front of each, and the
methods of the provider keep their state.
-/

namespace KitRpc.System

open KitRpc.Foundation KitRpc.Cpp KitRpc.Wire KitRpc.Proto KitRpc.Caller KitRpc.Provider

variable {α ρ μ κ M : Type}

section

variable (order : ByteOrder) (codec : HeaderCodec) (api : GPService α ρ μ κ)
  (servicesMap : ServicesMap α) (responseCodec : ResponseCodec M)

/-- `Session app rs results app'`: the calls for the requests `rs` come back
with `results` and take the methods' state from `app` to `app'`. -/
inductive Session : κ → List Request → List (CallState M) → κ → Prop
  | done (app : κ) : Session app [] [] app
  | call {app app' : κ} {r : Request} {rs : List Request} {frame : Bytes} {len : UInt32}
      {initial : M} {controller : KitRpcController} {w : Joint M κ}
      {results : List (CallState M)} :
      buildRequest order codec r.serviceName r.methodName (some r.args) = .ok (frame, len) →
      Reaches (jointStep order codec api servicesMap responseCodec frame len) WholeMessages
        (.start initial controller.reset app) w →
      w.call.quit = true → Session w.serving.app rs results app' →
      Session app (r :: rs) (w.call :: results) app'

/-- `CallMethod` can build the request, and the provider runs `method` on it,
whatever state it finds. -/
def Serves (r : Request) (method : κ → κ × M) : Prop :=
  ∃ frame len, ∀ app, ∃ resp, ∀ controller initial,
    Exchange.Runs order codec api servicesMap responseCodec r len
      ⟨frame, resp, controller, initial, app, method⟩

end

def localSession : κ → List (κ → κ × M) → List M × κ
  | app, [] => ([], app)
  | app, method :: methods =>
      let later := localSession (method app).1 methods
      ((method app).2 :: later.1, later.2)

variable {order : ByteOrder} {codec : HeaderCodec} {api : GPService α ρ μ κ}
  {servicesMap : ServicesMap α} {responseCodec : ResponseCodec M}

namespace Exchange.Runs

variable {x : Exchange M κ} {r : Request} {len : UInt32}

theorem returned (h : x.Runs order codec api servicesMap responseCodec r len)
    (hcodec : codec.RoundTrip) {w : Joint M κ}
    (hreach : Reaches (jointStep order codec api servicesMap responseCodec x.frame len)
      WholeMessages x.start w) (hquit : w.call.quit = true) :
    w.serving.app = x.app' ∧ w.call.response = x.response ∧
      w.call.controller = x.controller := by
  obtain ⟨l, hlocal, hshows⟩ := h.exists_shows hcodec hreach
  rcases localStep_reached hlocal with rfl | rfl | rfl
  · simp [hshows.2] at hquit
  · simp [hshows.2] at hquit
  · exact ⟨hshows.1, hshows.2.2⟩

theorem exists_returned (h : x.Runs order codec api servicesMap responseCodec r len)
    (hcodec : codec.RoundTrip) :
    ∃ w, Reaches (jointStep order codec api servicesMap responseCodec x.frame len)
      WholeMessages x.start w ∧ w.call.quit = true := by
  refine (h.descends hcodec).exists_goal ⟨_, .start⟩ fun rank w hinv => ?_
  obtain ⟨l, hstage⟩ := hinv
  exact hstage.progress (h.frame_ne_nil hcodec) h.executes

end Exchange.Runs

theorem Session.eq_local (hcodec : codec.RoundTrip) {methods : List (κ → κ × M)} {rs : List Request}
    (hserves : List.Forall₂ (Serves order codec api servicesMap responseCodec) rs methods)
    {app app' : κ} {results : List (CallState M)}
    (h : Session order codec api servicesMap responseCodec app rs results app') :
    (results.map CallState.response, app') = localSession app methods ∧
      ∀ s ∈ results, s.controller = .new := by
  induction h generalizing methods with
  | done app =>
      cases hserves
      exact ⟨rfl, by simp⟩
  | @call app app' r rs frame len initial controller w results hbuild hreach hquit _ ih =>
      cases hserves with
      | @cons _ method _ methods hr hrest =>
          obtain ⟨frame', len', hruns⟩ := hr
          obtain ⟨resp, hruns⟩ := hruns app
          have hx := hruns controller.reset initial
          cases hbuild.symm.trans hx.built
          obtain ⟨happ, hresponse, hcontroller⟩ := hx.returned hcodec hreach hquit
          rw [happ] at ih
          obtain ⟨heq, hnew⟩ := ih hrest
          rw [List.map_cons, localSession, List.forall_mem_cons]
          refine ⟨?_, hcontroller, hnew⟩
          rw [hresponse]
          dsimp only [Exchange.app', Exchange.response] at heq ⊢
          rw [← heq]

theorem exists_session (hcodec : codec.RoundTrip) {methods : List (κ → κ × M)} {rs : List Request}
    (hserves : List.Forall₂ (Serves order codec api servicesMap responseCodec) rs methods)
    (initial : M) (app : κ) :
    ∃ results app', Session order codec api servicesMap responseCodec app rs results app' := by
  induction hserves generalizing app with
  | nil => exact ⟨[], app, .done app⟩
  | @cons r method rs methods hr _ ih =>
      obtain ⟨frame, len, hruns⟩ := hr
      obtain ⟨resp, hruns⟩ := hruns app
      have hx := hruns (KitRpcController.new).reset initial
      obtain ⟨w, hreach, hquit⟩ := hx.exists_returned hcodec
      have hstart : Reaches (jointStep order codec api servicesMap responseCodec frame len)
        WholeMessages (.start initial (KitRpcController.new).reset app) w := hreach
      obtain ⟨results, app', hrest⟩ := ih w.serving.app
      exact ⟨_, app', .call hx.built hstart hquit hrest⟩

end KitRpc.System

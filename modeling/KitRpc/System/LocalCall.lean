import KitRpc.Foundation.Simulation
import KitRpc.System.Stall
/-!
# A remote call is a local call

The purpose of the framework, as an abstract machine: a call runs the method
once and comes back with its response. A `CallMethod` call and a provider whose
messages are delivered whole simulate it, in a bounded number of steps.
-/

namespace KitRpc.System

open KitRpc.Foundation KitRpc.Cpp KitRpc.Wire KitRpc.Muduo KitRpc.Proto KitRpc.Caller
  KitRpc.Provider

/-! ## Local calls -/

/-- A call of a method that acts on a state `κ`: it is still to run, it has
run, or it came back. -/
inductive LocalCall (κ M : Type)
  | pending (app : κ)
  | executed (app : κ) (response : M)
  | returned (app : κ) (response : M)
  deriving DecidableEq, Repr

def localStep {κ M : Type} (method : κ → κ × M) : LocalCall κ M → Unit → Option (LocalCall κ M)
  | .pending app, _ => some (.executed (method app).1 (method app).2)
  | .executed app response, _ => some (.returned app response)
  | .returned _ _, _ => none

theorem localStep_reached {κ M : Type} {method : κ → κ × M} {app : κ} {l : LocalCall κ M}
    (h : Reaches (localStep method) Unrestricted (.pending app) l) :
    l = .pending app ∨ l = .executed (method app).1 (method app).2 ∨
      l = .returned (method app).1 (method app).2 := by
  induction h with
  | start => exact .inl rfl
  | step _ _ hstep ih =>
      rcases ih with rfl | rfl | rfl
      · cases hstep
        exact .inr (.inl rfl)
      · cases hstep
        exact .inr (.inr rfl)
      · cases hstep

/-! ## The exchange of one request and one response -/

/-- Messages are delivered whole, in both directions. -/
def WholeMessages {μ M κ : Type} (w : Joint M κ) (a : Event μ) : Prop :=
  DeliversWhole w a ∧ ∀ n, a = .reply n → w.answered + n = w.serving.conn.accepted.length

/-- What goes over the connection, what both sides hold before the call, and
the method as its caller sees it. -/
structure Exchange (M κ : Type) where
  frame : Bytes
  resp : Bytes
  controller : KitRpcController
  initial : M
  app : κ
  method : κ → κ × M

namespace Exchange

variable {M κ : Type} (x : Exchange M κ)

def app' : κ := (x.method x.app).1

def response : M := (x.method x.app).2

def start : Joint M κ := .start x.initial x.controller x.app

def calling : CallState M := ⟨x.initial, x.controller, ⟨.kConnected, x.frame⟩, false⟩

/-- The caller once the request was executed, how many bytes of the response it
was handed, and the steps it has before it. -/
inductive Caller : Nat → CallState M → Nat → LocalCall κ M → Prop
  | waiting : Caller 2 x.calling 0 (.executed x.app' x.response)
  | answered :
      Caller 1 ⟨x.response, x.controller, ⟨.kDisconnecting, x.frame⟩, false⟩ x.resp.length
        (.executed x.app' x.response)
  | returned :
      Caller 0 ⟨x.response, x.controller, ⟨.kDisconnected, x.frame⟩, true⟩ x.resp.length
        (.returned x.app' x.response)

/-- The provider's loop behind the request. -/
inductive Loop : Nat → Scan (Serving κ) → Prop
  | running {s : Scan (Serving κ)} : s.exit = none → s.len.toNat = x.frame.length → Loop 1 s
  | finished {s : Scan (Serving κ)} : s.exit = some .finished → Loop 0 s

inductive Closing : Nat → Serving κ → Prop
  | disconnecting : Closing 1 ⟨⟨.kDisconnecting, x.resp⟩, x.app', 0⟩
  | disconnected : Closing 0 ⟨⟨.kDisconnected, x.resp⟩, x.app', 0⟩

/-- How far the exchange has come: the steps that are left at most, and the
local call it stands for. -/
inductive Stage : Nat → Joint M κ → LocalCall κ M → Prop
  | start : Stage 8 x.start (.pending x.app)
  | sent : Stage 7 ⟨x.calling, 0, .start [] ⟨.established, x.app, 0⟩, 0⟩ (.pending x.app)
  | buffered :
      Stage 6 ⟨x.calling, x.frame.length, .start [x.frame] ⟨.established, x.app, 0⟩, 0⟩
        (.pending x.app)
  | decoding :
      Stage 5 ⟨x.calling, x.frame.length,
        ⟨[], x.frame, .start [] ⟨.established, x.app, 0⟩⟩, 0⟩ (.pending x.app)
  | executed {caller loop closing answered : Nat} {call : CallState M} {l : LocalCall κ M}
      {scan : Scan (Serving κ)} :
      x.Caller caller call answered l → x.Loop loop scan → x.Closing closing scan.env →
      Stage (caller + loop + closing) ⟨call, x.frame.length, ⟨[], x.frame, scan⟩, answered⟩ l

end Exchange

/-- What a caller and the methods of the provider see of a local call. The
controller is as it was. -/
def Shows {M κ : Type} (controller : KitRpcController) (w : Joint M κ) : LocalCall κ M → Prop
  | .pending app => w.serving.app = app ∧ w.call.quit = false
  | .executed app _ => w.serving.app = app ∧ w.call.quit = false
  | .returned app response =>
      w.serving.app = app ∧ w.call.quit = true ∧ w.call.response = response ∧
        w.call.controller = controller

/-- The provider runs a method on the call as `x` says: the serialized response
is not empty, and the caller's parser reads the response back from its bytes up
to the first NUL. -/
structure Executes {α ρ μ κ M : Type} (api : GPService α ρ μ κ) (servicesMap : ServicesMap α)
    (responseCodec : ResponseCodec M) (call : Call) (x : Exchange M κ) : Prop where
  invoked : ∃ service method request answer resp,
    dispatch api servicesMap call = .invoked service method request ∧
      api.callMethod x.app service method request = (x.app', some answer) ∧
      api.serializeResponse answer = some resp ∧ resp.bytes = x.resp
  nonempty : x.resp ≠ []
  readable : responseCodec.parse (cStr x.resp) = (true, x.response)

variable {α ρ μ κ M : Type} {order : ByteOrder} {codec : HeaderCodec} {api : GPService α ρ μ κ}
  {servicesMap : ServicesMap α} {responseCodec : ResponseCodec M} {len : UInt32}
  {x : Exchange M κ} {call : Call}

theorem Executes.handled (h : Executes api servicesMap responseCodec call x) :
    handleRpcRequest api servicesMap ⟨.established, x.app, 0⟩ call =
      ⟨⟨.kDisconnecting, x.resp⟩, x.app', 0⟩ := by
  obtain ⟨service, method, request, answer, resp, hdispatch, hcall, hser, hbytes⟩ := h.invoked
  simp only [handleRpcRequest, hdispatch, hcall, sendRpcResponse, hser, hbytes]
  rfl

theorem Executes.onMessage (h : Executes api servicesMap responseCodec call x) :
    x.calling.onMessage responseCodec x.resp =
      ⟨x.response, x.controller, ⟨.kDisconnecting, x.frame⟩, false⟩ := by
  simp only [CallState.onMessage, retrieveAllAsString_eq, h.readable, if_pos]
  rfl

/-! ## Steps -/

theorem deliver_room {sendData : Bytes} {w w' : Joint M κ} {n : Nat}
    (h : jointStep order codec api servicesMap responseCodec sendData len w (.deliver n) =
      some w') : w.arrived < w.call.conn.accepted.length := by
  simp only [jointStep, Option.ite_none_right_eq_some] at h
  omega

namespace Exchange.Stage

variable {n : Nat} {w w' : Joint M κ} {l : LocalCall κ M} {a : Event μ}

theorem step_start (hlen : len.toNat = x.frame.length)
    (h : jointStep order codec api servicesMap responseCodec x.frame len x.start a = some w') :
    x.Stage 7 w' (.pending x.app) := by
  cases a with
  | connect =>
      simp only [jointStep, Exchange.start, Joint.start, if_pos, Option.some.injEq] at h
      subst h
      have hconn : CallState.onConnected
          ⟨x.initial, x.controller, ⟨.kConnected, []⟩, false⟩ x.frame len = x.calling := by
        simp [CallState.onConnected, TcpConnection.send, calling, hlen]
      rw [hconn]
      exact .sent
  | deliver n => exact absurd (deliver_room h) (Nat.not_lt_zero _)
  | pass =>
      rw [jointStep, if_pos (.inr ⟨Feed.start_idle _ _, rfl⟩)] at h
      cases h
  | runDone response =>
      simp [jointStep, Exchange.start, Joint.start, Joint.serving, Feed.start, Scan.start] at h
  | reply n => simp [jointStep, Exchange.start, Joint.start, Joint.Open] at h
  | closeCaller => simp [jointStep, Exchange.start, Joint.start, Joint.Open] at h
  | closeProvider => simp [jointStep, Exchange.start, Joint.start] at h

theorem step_sent (hwhole : DeliversWhole ⟨x.calling, 0, .start [] ⟨.established, x.app, 0⟩, 0⟩ a)
    (h : jointStep order codec api servicesMap responseCodec x.frame len
      ⟨x.calling, 0, .start [] ⟨.established, x.app, 0⟩, 0⟩ a = some w') :
    x.Stage 6 w' (.pending x.app) := by
  have hidle := Feed.start_idle [] (⟨.established, x.app, 0⟩ : Serving κ)
  obtain ⟨n, rfl⟩ | rfl := deliver_or_pass rfl rfl (Feed.Idle.exit_ne hidle) h
  · have hn := hwhole n rfl
    simp only [jointStep, Option.ite_none_right_eq_some, Option.some.injEq] at h
    obtain ⟨_, rfl⟩ := h
    rw [Nat.zero_add] at hn
    subst hn
    simp only [calling, List.drop_zero, List.take_length, Nat.zero_add]
    exact .buffered
  · rw [jointStep, if_pos (.inr ⟨hidle, rfl⟩)] at h
    cases h

theorem step_buffered
    (h : jointStep order codec api servicesMap responseCodec x.frame len
      ⟨x.calling, x.frame.length, .start [x.frame] ⟨.established, x.app, 0⟩, 0⟩ a = some w') :
    x.Stage 5 w' (.pending x.app) := by
  have hidle := Feed.start_idle [x.frame] (⟨.established, x.app, 0⟩ : Serving κ)
  obtain ⟨n, rfl⟩ | rfl := deliver_or_pass rfl rfl (Feed.Idle.exit_ne hidle) h
  · exact absurd (deliver_room h) (Nat.lt_irrefl _)
  · simp only [jointStep, Option.ite_none_left_eq_some, Option.some.injEq] at h
    obtain ⟨_, rfl⟩ := h
    rw [feedStep_of_idle hidle rfl]
    exact .decoding

theorem step_decoding (hframe : Framed order codec x.frame call [])
    (hsize : x.frame.length < 2 ^ 32) (hexec : Executes api servicesMap responseCodec call x)
    (h : jointStep order codec api servicesMap responseCodec x.frame len
      ⟨x.calling, x.frame.length, ⟨[], x.frame, .start [] ⟨.established, x.app, 0⟩⟩, 0⟩ a =
        some w') :
    x.Stage 4 w' (.executed x.app' x.response) := by
  obtain ⟨n, rfl⟩ | rfl := deliver_or_pass rfl rfl (by simp [Joint.Crashed, Scan.start]) h
  · exact absurd (deliver_room h) (Nat.lt_irrefl _)
  · simp only [jointStep, Option.ite_none_left_eq_some, Option.some.injEq] at h
    obtain ⟨_, rfl⟩ := h
    obtain ⟨hat, hhanded⟩ := round_framed (handleRpcRequest api servicesMap)
      (Scan.start_at x.frame [] ⟨.established, x.app, 0⟩) hframe (by simpa using hsize)
    rw [feedStep_of_running rfl]
    change x.Stage (2 + 1 + 1) _ _
    apply Stage.executed
    · exact .waiting
    · exact .running hat.running (by simpa using hat.cursor)
    · rw [hhanded.env]
      change x.Closing 1 (handleRpcRequest api servicesMap ⟨.established, x.app, 0⟩ call)
      rw [hexec.handled]
      exact .disconnecting

end Exchange.Stage

/-! ## Steps behind the request -/

namespace Exchange

variable {caller loop closing answered : Nat} {w' : Joint M κ} {s : CallState M}
  {serving : Serving κ} {scan : Scan (Serving κ)} {l : LocalCall κ M} {a : Event μ}

theorem Caller.conn (h : x.Caller caller s answered l) :
    s.conn.accepted = x.frame ∧ s.conn.state ≠ .kConnecting := by
  cases h <;> exact ⟨rfl, by simp [calling]⟩

theorem Closing.conn (h : x.Closing closing serving) :
    serving.conn.accepted = x.resp ∧ serving.conn.state ≠ .kConnected ∧ serving.owed = 0 := by
  cases h <;> exact ⟨rfl, by simp, rfl⟩

theorem Closing.app (h : x.Closing closing serving) : serving.app = x.app' := by
  cases h <;> rfl

theorem Loop.alive (h : x.Loop loop scan) : scan.exit ≠ some .outOfRange := by
  cases h <;> simp [*]

theorem Caller.reply {n : Nat} (hexec : Executes api servicesMap responseCodec call x)
    (h : x.Caller caller s answered l) (hpos : 0 < n) (hwhole : answered + n = x.resp.length) :
    ∃ caller' < caller, x.Caller caller'
      (s.onMessage responseCodec ((x.resp.drop answered).take n)) (answered + n) l := by
  cases h with
  | waiting =>
      rw [Nat.zero_add] at hwhole
      subst hwhole
      rw [List.drop_zero, List.take_length, hexec.onMessage, Nat.zero_add]
      exact ⟨1, by omega, .answered⟩
  | answered => omega
  | returned => omega

theorem Caller.close (h : x.Caller caller s answered l) (hresp : x.resp ≠ [])
    (hopen : s.conn.state = .kConnected ∨ s.conn.state = .kDisconnecting)
    (hall : x.resp.length ≤ answered) :
    ∃ caller' < caller, ∃ l', localStep x.method l () = some l' ∧
      x.Caller caller' s.onDisconnected answered l' := by
  cases h with
  | waiting => exact absurd (List.length_eq_zero_iff.mp (Nat.le_zero.mp hall)) hresp
  | answered => exact ⟨0, by omega, _, rfl, .returned⟩
  | returned => simp at hopen

theorem Stage.step_executed (hexec : Executes api servicesMap responseCodec call x)
    (hcaller : x.Caller caller s answered l) (hloop : x.Loop loop scan)
    (hclosing : x.Closing closing scan.env)
    (hwhole : WholeMessages ⟨s, x.frame.length, ⟨[], x.frame, scan⟩, answered⟩ a)
    (h : jointStep order codec api servicesMap responseCodec x.frame len
      ⟨s, x.frame.length, ⟨[], x.frame, scan⟩, answered⟩ a = some w') :
    ∃ n' < caller + loop + closing, ∃ l', x.Stage n' w' l' ∧
      (l' = l ∨ localStep x.method l () = some l') := by
  obtain ⟨haccepted, hdown, howed⟩ := hclosing.conn
  have halive := hloop.alive
  cases a with
  | connect =>
      simp only [jointStep, if_neg hcaller.conn.2] at h
      cases h
  | deliver n =>
      have hroom := deliver_room h
      rw [hcaller.conn.1] at hroom
      exact absurd hroom (Nat.lt_irrefl _)
  | pass =>
      simp only [jointStep, Option.ite_none_left_eq_some, Option.some.injEq] at h
      obtain ⟨hover, rfl⟩ := h
      cases hloop with
      | running hrun hcursor =>
          rw [feedStep_of_running hrun, round_of_end order codec _ hrun hcursor.ge]
          exact ⟨caller + 0 + closing, by omega, l, .executed hcaller (.finished rfl) hclosing,
            .inl rfl⟩
      | finished hexit => exact absurd (.inr ⟨.inl hexit, rfl⟩) hover
  | runDone response =>
      rw [jointStep, if_neg (by simp [Joint.serving, howed])] at h
      cases h
  | reply n =>
      simp only [jointStep, Option.ite_none_right_eq_some, Option.some.injEq] at h
      obtain ⟨⟨hpos, _⟩, rfl⟩ := h
      have hn := hwhole.2 n rfl
      simp only [Joint.serving, haccepted] at hn ⊢
      obtain ⟨caller', hlt, hcaller'⟩ := hcaller.reply hexec hpos hn
      exact ⟨caller' + loop + closing, by omega, l, .executed hcaller' hloop hclosing, .inl rfl⟩
  | closeCaller =>
      simp only [jointStep, Option.ite_none_right_eq_some, Option.some.injEq] at h
      obtain ⟨⟨hopen, hpeer⟩, rfl⟩ := h
      have hall := (hpeer.resolve_left halive).2
      simp only [Joint.serving, haccepted] at hall
      obtain ⟨caller', hlt, l', hlocal, hcaller'⟩ :=
        hcaller.close hexec.nonempty hopen hall
      exact ⟨caller' + loop + closing, by omega, l', .executed hcaller' hloop hclosing,
        .inr hlocal⟩
  | closeProvider =>
      simp only [jointStep, Option.ite_none_right_eq_some, Option.some.injEq] at h
      obtain ⟨⟨_, _, _, hup⟩, rfl⟩ := h
      rcases scan with ⟨cursor, copies, calls, env, exit⟩
      cases hclosing with
      | disconnected => simp at hup
      | disconnecting =>
          refine ⟨caller + loop + 0, by omega, l, ?_, .inl rfl⟩
          apply Stage.executed hcaller
          · cases hloop with
            | running hrun hcursor => exact .running hrun hcursor
            | finished hexit => exact .finished hexit
          · exact .disconnected

/-- Step lemma: the exchange moves on, and with it the local call or nothing. -/
theorem Stage.step {n : Nat} {w : Joint M κ} (hstage : x.Stage n w l)
    (hlen : len.toNat = x.frame.length) (hframe : Framed order codec x.frame call [])
    (hsize : x.frame.length < 2 ^ 32) (hexec : Executes api servicesMap responseCodec call x)
    (hwhole : WholeMessages w a)
    (h : jointStep order codec api servicesMap responseCodec x.frame len w a = some w') :
    ∃ n' < n, ∃ l', x.Stage n' w' l' ∧ (l' = l ∨ localStep x.method l () = some l') := by
  cases hstage with
  | start => exact ⟨7, by omega, _, step_start hlen h, .inl rfl⟩
  | sent => exact ⟨6, by omega, _, step_sent hwhole.1 h, .inl rfl⟩
  | buffered => exact ⟨5, by omega, _, step_buffered h, .inl rfl⟩
  | decoding => exact ⟨4, by omega, _, step_decoding hframe hsize hexec h, .inr rfl⟩
  | executed hcaller hloop hclosing =>
      exact step_executed hexec hcaller hloop hclosing hwhole h

theorem can_step {sendData : Bytes} {w : Joint M κ} (hwhole : WholeMessages w a)
    (h : jointStep order codec api servicesMap responseCodec sendData len w a ≠ none) :
    ∃ a w', WholeMessages w a ∧
      jointStep order codec api servicesMap responseCodec sendData len w a = some w' := by
  obtain ⟨w', hstep⟩ := Option.ne_none_iff_exists'.mp h
  exact ⟨a, w', hwhole, hstep⟩

theorem Stage.progress {n : Nat} {w : Joint M κ} (hstage : x.Stage n w l)
    (hne : x.frame ≠ []) (hexec : Executes api servicesMap responseCodec call x) :
    w.call.quit = true ∨ ∃ a w', WholeMessages w a ∧
      jointStep order codec api servicesMap responseCodec x.frame len w a = some w' := by
  have hframe := List.length_pos_iff.mpr hne
  have hresp := List.length_pos_iff.mpr hexec.nonempty
  cases hstage with
  | start =>
      refine .inr (can_step (a := .connect) ⟨by simp [DeliversWhole], by simp⟩ ?_)
      simp [jointStep, Exchange.start, Joint.start]
  | sent =>
      refine .inr (can_step (a := .deliver x.frame.length)
        ⟨by simp [DeliversWhole, calling], by simp⟩ ?_)
      rw [jointStep, if_pos ⟨hframe, by simp [calling], by simp [Joint.Crashed, Feed.start],
        by simp [Joint.serving, Feed.start, Scan.start, TcpConnection.established]⟩]
      exact Option.some_ne_none _
  | buffered =>
      refine .inr (can_step (a := .pass) ⟨by simp [DeliversWhole], by simp⟩ ?_)
      rw [jointStep, if_neg (by simp [Feed.Over, Feed.start])]
      exact Option.some_ne_none _
  | decoding =>
      refine .inr (can_step (a := .pass) ⟨by simp [DeliversWhole], by simp⟩ ?_)
      rw [jointStep, if_neg (by simp [Feed.Over, Feed.Idle, Scan.start])]
      exact Option.some_ne_none _
  | executed hcaller hloop hclosing =>
      obtain ⟨haccepted, hdown, _⟩ := hclosing.conn
      cases hcaller with
      | waiting =>
          refine .inr (can_step (a := .reply x.resp.length)
            ⟨by simp [DeliversWhole], by simp [Joint.serving, haccepted]⟩ ?_)
          rw [jointStep, if_pos ⟨hresp, by simp [Joint.serving, haccepted], .inl rfl⟩]
          exact Option.some_ne_none _
      | answered =>
          refine .inr (can_step (a := .closeCaller) ⟨by simp [DeliversWhole], by simp⟩ ?_)
          rw [jointStep, if_pos ⟨.inr rfl, .inr ⟨hdown, by simp [Joint.serving, haccepted]⟩⟩]
          exact Option.some_ne_none _
      | returned => exact .inl rfl

theorem Stage.shows {n : Nat} {w : Joint M κ} (hstage : x.Stage n w l) :
    Shows x.controller w l := by
  cases hstage with
  | start => exact ⟨rfl, rfl⟩
  | sent => exact ⟨rfl, rfl⟩
  | buffered => exact ⟨rfl, rfl⟩
  | decoding => exact ⟨rfl, rfl⟩
  | executed hcaller _ hclosing =>
      have happ := hclosing.app
      cases hcaller with
      | waiting => exact ⟨happ, rfl⟩
      | answered => exact ⟨happ, rfl⟩
      | returned => exact ⟨happ, rfl, rfl, rfl⟩

/-- The request of `x` is built, short enough to be sent, and the provider executes
it as `x` says. -/
structure Runs (order : ByteOrder) (codec : HeaderCodec) (api : GPService α ρ μ κ)
    (servicesMap : ServicesMap α) (responseCodec : ResponseCodec M) (r : Request) (len : UInt32)
    (x : Exchange M κ) : Prop where
  built : buildRequest order codec r.serviceName r.methodName (some r.args) = .ok (x.frame, len)
  size : x.frame.length < 2 ^ 31
  executes : Executes api servicesMap responseCodec r.call x

namespace Runs

variable {r : Request} (h : Runs order codec api servicesMap responseCodec r len x)

include h

theorem length_lt : x.frame.length < 2 ^ 32 := h.size.trans (by decide)

theorem toNat_len : len.toNat = x.frame.length := toNat_len_of_buildRequest h.built h.length_lt

theorem framed (hcodec : codec.RoundTrip) : Framed order codec x.frame r.call [] := by
  have hframe := Request.Built.framed ⟨len, h.built⟩ hcodec []
  rwa [List.append_nil] at hframe

theorem frame_ne_nil (hcodec : codec.RoundTrip) : x.frame ≠ [] :=
  List.length_pos_iff.mp (Nat.zero_lt_of_lt (h.framed hcodec).length_rest_lt)

theorem simulation (hcodec : codec.RoundTrip) :
    Simulation (jointStep order codec api servicesMap responseCodec x.frame len) WholeMessages
      (localStep x.method) Unrestricted (fun w l => ∃ n, x.Stage n w l) := by
  refine ⟨fun w a w' l hstage hwhole hstep => ?_⟩
  obtain ⟨n, hstage⟩ := hstage
  obtain ⟨n', _, l', hstage', rfl | hlocal⟩ := hstage.step
    h.toNat_len (h.framed hcodec) h.length_lt h.executes hwhole hstep
  · exact ⟨_, .start, n', hstage'⟩
  · exact ⟨l', .step .start trivial hlocal, n', hstage'⟩

theorem descends (hcodec : codec.RoundTrip) :
    Descends (jointStep order codec api servicesMap responseCodec x.frame len) WholeMessages
      (fun n w => ∃ l, x.Stage n w l) := by
  refine ⟨fun n w a w' hstage hwhole hstep => ?_⟩
  obtain ⟨l, hstage⟩ := hstage
  obtain ⟨n', hlt, l', hstage', _⟩ := hstage.step
    h.toNat_len (h.framed hcodec) h.length_lt h.executes hwhole hstep
  exact ⟨n', hlt, l', hstage'⟩

theorem exists_shows (hcodec : codec.RoundTrip) {w : Joint M κ}
    (hreach : Reaches (jointStep order codec api servicesMap responseCodec x.frame len)
      WholeMessages x.start w) :
    ∃ l, Reaches (localStep x.method) Unrestricted (.pending x.app) l ∧
      Shows x.controller w l := by
  obtain ⟨l, hlocal, n, hstage⟩ := (h.simulation hcodec).reaches ⟨8, .start⟩ hreach
  exact ⟨l, hlocal, hstage.shows⟩

end Runs

end Exchange

/-- A call whose messages are delivered whole simulates a local call: in every
run the methods' state, the response object and the controller are those of the
local call so far, no run has more than eight steps, and until the caller has
returned a step is possible. -/
theorem remote_call_simulates_local (hcodec : codec.RoundTrip) {r : Request}
    (h : x.Runs order codec api servicesMap responseCodec r len) :
    let step := jointStep order codec api servicesMap responseCodec x.frame len
    (∀ w, Reaches step WholeMessages x.start w →
      ∃ l, Reaches (localStep x.method) Unrestricted (.pending x.app) l ∧
        Shows x.controller w l) ∧
    (∀ n w, ReachesIn step WholeMessages x.start n w → n ≤ 8) ∧
    (∀ w, Reaches step WholeMessages x.start w →
      w.call.quit = true ∨ ∃ a w', WholeMessages w a ∧ step w a = some w') := by
  refine ⟨fun w hreach => h.exists_shows hcodec hreach, fun n w hrun => ?_, fun w hreach => ?_⟩
  · exact (h.descends hcodec).length_le ⟨_, .start⟩ hrun
  · obtain ⟨l, _, n, hstage⟩ := (h.simulation hcodec).reaches ⟨8, .start⟩ hreach
    exact hstage.progress (h.frame_ne_nil hcodec) h.executes

/-- A login whose arguments are a response with `success` set, sent back by
`echoService`. -/
def echoExchange : Exchange LoginResponse Nat where
  frame := [0x08, 0, 0, 0, 0x0a, 0x01, 0x55, 0x12, 0x01, 0x4c, 0x18, 0x02, 0x10, 0x01]
  resp := [0x10, 0x01]
  controller := .new
  initial := ⟨none, false⟩
  app := 0
  method requests := (requests + 1, ⟨none, true⟩)

theorem remote_call_simulates_local_echo :
    (∀ w, Reaches (jointStep .little wireHeader echoService
          (notifyService echoService [] userService) (wireResponse loginResponse)
          echoExchange.frame 14) WholeMessages echoExchange.start w →
        w.call.quit = true → w.serving.app = 1 ∧ w.call.response = ⟨none, true⟩) ∧
      ∀ n w, ReachesIn (jointStep .little wireHeader echoService
          (notifyService echoService [] userService) (wireResponse loginResponse)
          echoExchange.frame 14) WholeMessages echoExchange.start n w → n ≤ 8 := by
  have hruns : echoExchange.Runs .little wireHeader echoService
      (notifyService echoService [] userService) (wireResponse loginResponse)
      ⟨[0x55], [0x4c], ⟨[0x10, 0x01], by decide⟩⟩ 14 :=
    ⟨rfl, by decide, ⟨⟨userService, loginMethod, [0x10, 0x01], [0x10, 0x01],
      ⟨[0x10, 0x01], by decide⟩, rfl, rfl, rfl, rfl⟩, by decide, by decide⟩⟩
  obtain ⟨hshows, hbound, _⟩ := remote_call_simulates_local wireHeader_roundTrip hruns
  refine ⟨fun w hreach hquit => ?_, hbound⟩
  obtain ⟨l, hlocal, hl⟩ := hshows w hreach
  rcases localStep_reached hlocal with rfl | rfl | rfl
  · simp [hl.2] at hquit
  · simp [hl.2] at hquit
  · exact ⟨hl.1, hl.2.2.1⟩

end KitRpc.System

import KitRpc.Caller.Controller
import KitRpc.Foundation.Reaches
import KitRpc.Proto.User
import KitRpc.System.Pipelined
/-!
# One caller and the provider

The joint system of one `CallMethod` call and the provider: the network
delivers what either side wrote in arbitrary pieces and reports the end of the
connection, the provider decodes pass by pass, and methods may run `done` after
they returned. The caller leaves its event loop only when the connection goes
down, so a request that is dropped without an answer leaves it waiting.
-/

namespace KitRpc.System

open KitRpc.Foundation KitRpc.Cpp KitRpc.Muduo KitRpc.Proto KitRpc.Caller KitRpc.Provider

/-- The caller with its end of the connection, the provider with its end, and
how many of the bytes either side wrote have arrived at the other. -/
structure Joint (M κ : Type) where
  call : CallState M
  arrived : Nat
  feed : Feed (Serving κ)
  answered : Nat

namespace Joint

variable {M κ : Type}

abbrev serving (w : Joint M κ) : Serving κ := w.feed.scan.env

def withServing (w : Joint M κ) (serving : Serving κ) : Joint M κ :=
  { w with feed := { w.feed with scan := { w.feed.scan with env := serving } } }

/-- An exception that escapes from `onMessage` ends the provider's process. -/
def Crashed (w : Joint M κ) : Prop := w.feed.scan.exit = some .outOfRange

instance (w : Joint M κ) : Decidable w.Crashed :=
  inferInstanceAs (Decidable (_ = _))

def Open (w : Joint M κ) : Prop :=
  w.call.conn.state = .kConnected ∨ w.call.conn.state = .kDisconnecting

instance (w : Joint M κ) : Decidable w.Open :=
  inferInstanceAs (Decidable (_ ∨ _))

def start (response : M) (controller : KitRpcController) (app : κ) : Joint M κ :=
  { call := { response, controller, conn := ⟨.kConnecting, []⟩, quit := false }
    arrived := 0
    feed := .start [] { conn := .established, app, owed := 0 }
    answered := 0 }

end Joint

/-- What can happen next. `deliver` and `reply` carry the number of bytes that
arrive together, `runDone` the response a method has filled in. -/
inductive Event (μ : Type)
  | connect
  | deliver (n : Nat)
  | pass
  | runDone (response : μ)
  | reply (n : Nat)
  | closeCaller
  | closeProvider
  deriving DecidableEq, Repr

section

variable {α ρ μ κ M : Type} (order : ByteOrder) (codec : HeaderCodec) (api : GPService α ρ μ κ)
  (servicesMap : ServicesMap α) (responseCodec : ResponseCodec M) (sendData : Bytes)
  (len : UInt32)

/-- One step of the joint system; `none` where the event cannot happen. -/
def jointStep (w : Joint M κ) : Event μ → Option (Joint M κ)
  | .connect =>
      if w.call.conn.state = .kConnecting then
        let call := { w.call with conn := { w.call.conn with state := .kConnected } }
        some { w with call := call.onConnected sendData len }
      else none
  | .deliver n =>
      if 0 < n ∧ w.arrived + n ≤ w.call.conn.accepted.length ∧ ¬ w.Crashed ∧
          w.serving.conn.state ≠ .kDisconnected then
        let chunk := (w.call.conn.accepted.drop w.arrived).take n
        some { w with
          arrived := w.arrived + n
          feed := { w.feed with chunks := w.feed.chunks ++ [chunk] } }
      else none
  | .pass =>
      if w.feed.Over then none
      else some { w with feed := feedStep order codec (handleRpcRequest api servicesMap) w.feed }
  | .runDone response =>
      -- Once the message callback has returned, the closure of the source holds a
      -- reference to a `TcpConnectionPtr` that is gone: here it still answers.
      if 0 < w.serving.owed ∧ ¬ w.Crashed then
        some (w.withServing { w.serving with
          conn := sendRpcResponse api w.serving.conn response
          owed := w.serving.owed - 1 })
      else none
  | .reply n =>
      if 0 < n ∧ w.answered + n ≤ w.serving.conn.accepted.length ∧ w.Open then
        let chunk := (w.serving.conn.accepted.drop w.answered).take n
        some { w with
          call := w.call.onMessage responseCodec chunk
          answered := w.answered + n }
      else none
  | .closeCaller =>
      -- The caller reads the end of the stream behind all bytes, or the
      -- connection of a process that is gone.
      if w.Open ∧ (w.Crashed ∨ w.serving.conn.state ≠ .kConnected ∧
          w.serving.conn.accepted.length ≤ w.answered) then
        some { w with call := w.call.onDisconnected }
      else none
  | .closeProvider =>
      -- The provider reads the end of the caller's stream behind all bytes.
      if (w.call.conn.state = .kDisconnecting ∨ w.call.conn.state = .kDisconnected) ∧
          w.call.conn.accepted.length ≤ w.arrived ∧ ¬ w.Crashed ∧
          w.serving.conn.state ≠ .kDisconnected then
        some (w.withServing { w.serving with
          conn := { w.serving.conn with state := .kDisconnected } })
      else none

/-- Nothing can happen any more and no method owes `done`, but the connection
is open and the caller is in its event loop. -/
def Stalled (w : Joint M κ) : Prop :=
  Quiescent (jointStep order codec api servicesMap responseCodec sendData len) w ∧
    w.serving.owed = 0 ∧ w.Open ∧ w.call.quit = false

def DeliversWhole (w : Joint M κ) (a : Event μ) : Prop :=
  ∀ n, a = .deliver n → w.arrived + n = w.call.conn.accepted.length

end

variable {α ρ μ κ M : Type} {order : ByteOrder} {codec : HeaderCodec} {api : GPService α ρ μ κ}
  {servicesMap : ServicesMap α} {responseCodec : ResponseCodec M} {sendData : Bytes}
  {len : UInt32}

/-! ## A request that is answered -/

/-- The provider has ended the connection or still owes an answer. -/
def Served (s : Serving κ) : Prop := s.conn.state ≠ .kConnected ∨ 0 < s.owed

theorem Served.handleRpcRequest {s : Serving κ} (h : Served s) (call : Call) :
    Served (Provider.handleRpcRequest api servicesMap s call) := by
  unfold Provider.handleRpcRequest
  split
  · split
    · exact .inl (sendRpcResponse_not_connected _ _)
    · exact .inr (Nat.succ_pos _)
  · exact h

theorem served_of_valid {call : Call} (h : ValidCall api servicesMap call) (s : Serving κ) :
    Served (handleRpcRequest api servicesMap s call) := by
  obtain ⟨service, method, request, hdispatch⟩ := validCall_iff.mp h
  simp only [handleRpcRequest, hdispatch]
  split
  · exact .inl (sendRpcResponse_not_connected _ _)
  · exact .inr (Nat.succ_pos _)

/-- How far a request that was delivered whole has come: it is on its way, in
the provider's buffer, about to be decoded, or served. -/
inductive Progress (frame : Bytes) (fresh : Serving κ) (w : Joint M κ) : Prop
  | sent : w.call.conn = ⟨.kConnected, frame⟩ → w.arrived = 0 → w.feed.Idle →
      w.feed.chunks = [] → w.serving = fresh → Progress frame fresh w
  | buffered : w.call.conn = ⟨.kConnected, frame⟩ → w.arrived = frame.length → w.feed.Idle →
      w.feed.chunks = [frame] → w.serving = fresh → Progress frame fresh w
  | decoding (calls : List Call) : w.call.conn = ⟨.kConnected, frame⟩ →
      w.arrived = frame.length → w.feed.data = frame → w.feed.scan = .start calls fresh →
      Progress frame fresh w
  | served : w.call.conn.state ≠ .kConnecting → Served w.serving → Progress frame fresh w

section

variable {w w' : Joint M κ} {a : Event μ}

theorem deliver_or_pass {frame : Bytes} {app : κ} (hcall : w.call.conn = ⟨.kConnected, frame⟩)
    (hserving : w.serving = ⟨.established, app, 0⟩) (halive : ¬ w.Crashed)
    (h : jointStep order codec api servicesMap responseCodec sendData len w a = some w') :
    (∃ n, a = .deliver n) ∨ a = .pass := by
  cases a with
  | deliver n => exact .inl ⟨n, rfl⟩
  | pass => exact .inr rfl
  | connect => simp [jointStep, hcall] at h
  | runDone response => simp [jointStep, hserving] at h
  | reply n =>
      simp only [jointStep, hserving, TcpConnection.established, List.length_nil] at h
      rw [if_neg (by omega)] at h
      cases h
  | closeCaller => simp [jointStep, hserving, halive, TcpConnection.established] at h
  | closeProvider => simp [jointStep, hcall] at h

theorem call_state_of_step (hup : w.call.conn.state ≠ .kConnecting)
    (h : jointStep order codec api servicesMap responseCodec sendData len w a = some w') :
    w'.call.conn.state ≠ .kConnecting := by
  cases a <;>
    simp only [jointStep, Option.ite_none_right_eq_some, Option.ite_none_left_eq_some,
      Option.some.injEq] at h <;>
    obtain ⟨hguard, rfl⟩ := h
  case connect => exact absurd hguard hup
  case reply => exact TcpConnection.shutdown_state_ne hup (by simp)
  case closeCaller => simp [CallState.onDisconnected]
  all_goals exact hup

theorem served_of_step (hserved : Served w.serving)
    (h : jointStep order codec api servicesMap responseCodec sendData len w a = some w') :
    Served w'.serving := by
  cases a <;>
    simp only [jointStep, Option.ite_none_right_eq_some, Option.ite_none_left_eq_some,
      Option.some.injEq] at h <;>
    obtain ⟨hguard, rfl⟩ := h
  case pass => exact feedStep_env (fun _ call henv => henv.handleRpcRequest call) hserved
  case runDone => exact .inl (sendRpcResponse_not_connected _ _)
  case closeProvider => exact .inl (by simp [Joint.withServing])
  all_goals exact hserved

theorem Progress.step {frame : Bytes} {app : κ} {call : Call}
    (hprogress : Progress frame ⟨.established, app, 0⟩ w)
    (hfirst : ∃ len, (decodeRound order codec frame 0).2 = .request call.1 call.2 len)
    (hne : frame ≠ []) (hvalid : ValidCall api servicesMap call) (hwhole : DeliversWhole w a)
    (h : jointStep order codec api servicesMap responseCodec sendData len w a = some w') :
    Progress frame ⟨.established, app, 0⟩ w' := by
  cases hprogress with
  | sent hcall harrived hidle hchunks hserving =>
      obtain ⟨n, rfl⟩ | rfl := deliver_or_pass hcall hserving (Feed.Idle.exit_ne hidle) h
      · have hn := hwhole n rfl
        simp only [jointStep, Option.ite_none_right_eq_some, Option.some.injEq] at h
        obtain ⟨_, rfl⟩ := h
        rw [harrived, hcall, Nat.zero_add] at hn
        refine .buffered hcall ?_ hidle ?_ hserving
        · rw [harrived, Nat.zero_add, hn]
        · simp [hchunks, harrived, hcall, hn]
      · rw [jointStep, if_pos (.inr ⟨hidle, hchunks⟩)] at h
        cases h
  | buffered hcall harrived hidle hchunks hserving =>
      obtain ⟨n, rfl⟩ | rfl := deliver_or_pass hcall hserving (Feed.Idle.exit_ne hidle) h
      · simp only [jointStep, Option.ite_none_right_eq_some, hcall, harrived] at h
        omega
      · simp only [jointStep, Option.ite_none_left_eq_some, Option.some.injEq] at h
        obtain ⟨_, rfl⟩ := h
        apply Progress.decoding w.feed.scan.calls
        · exact hcall
        · exact harrived
        · rw [feedStep_of_idle hidle hchunks]
        · rw [feedStep_of_idle hidle hchunks, show w.feed.scan.env = _ from hserving]
  | decoding calls hcall harrived hdata hscan =>
      have hserving : w.serving = ⟨.established, app, 0⟩ := by rw [Joint.serving, hscan]; rfl
      have hrun : w.feed.scan.exit = none := by rw [hscan]; rfl
      obtain ⟨n, rfl⟩ | rfl := deliver_or_pass hcall hserving (by simp [Joint.Crashed, hrun]) h
      · simp only [jointStep, Option.ite_none_right_eq_some, hcall, harrived] at h
        omega
      · simp only [jointStep, Option.ite_none_left_eq_some, Option.some.injEq] at h
        obtain ⟨_, rfl⟩ := h
        obtain ⟨len, hfirst⟩ := hfirst
        have hround := round_of_request (handleRpcRequest api servicesMap)
          (s := .start calls (⟨.established, app, 0⟩ : Serving κ)) rfl
          (List.length_pos_iff.mpr hne) (Prod.ext rfl hfirst)
        apply Progress.served
        · rw [hcall]
          simp
        · rw [Joint.serving, feedStep_of_running hrun, hdata, hscan, hround]
          exact served_of_valid hvalid _
  | served hup hserved =>
      exact .served (call_state_of_step hup h) (served_of_step hserved h)

theorem Progress.not_stalled {frame : Bytes} {app : κ}
    (h : Progress frame ⟨.established, app, 0⟩ w) (hne : frame ≠ []) :
    ¬ Stalled order codec api servicesMap responseCodec sendData len w := by
  rintro ⟨hquiet, howed, hopen, _⟩
  cases h with
  | sent hcall harrived hidle hchunks hserving =>
      have hdeliver := hquiet (.deliver frame.length)
      rw [jointStep, if_pos ⟨List.length_pos_iff.mpr hne, by rw [harrived, hcall]; simp,
        Feed.Idle.exit_ne hidle, by rw [hserving]; simp [TcpConnection.established]⟩] at hdeliver
      cases hdeliver
  | buffered hcall harrived hidle hchunks hserving =>
      have hpass := hquiet .pass
      rw [jointStep, if_neg (by simp [Feed.Over, Feed.Idle.exit_ne hidle, hchunks])] at hpass
      cases hpass
  | decoding calls hcall harrived hdata hscan =>
      have hpass := hquiet .pass
      rw [jointStep, if_neg (by simp [Feed.Over, Feed.Idle, hscan, Scan.start])] at hpass
      cases hpass
  | served hup hserved =>
      have hdown : w.serving.conn.state ≠ .kConnected := hserved.resolve_right (by omega)
      by_cases hall : w.serving.conn.accepted.length ≤ w.answered
      · have hclose := hquiet .closeCaller
        rw [jointStep, if_pos ⟨hopen, .inr ⟨hdown, hall⟩⟩] at hclose
        cases hclose
      · have hreply := hquiet (.reply (w.serving.conn.accepted.length - w.answered))
        rw [jointStep, if_pos ⟨by omega, by omega, hopen⟩] at hreply
        cases hreply

theorem progress_of_start {frame : Bytes} {response : M} {controller : KitRpcController}
    {app : κ} (hframe : sendData.take len.toNat = frame)
    (h : jointStep order codec api servicesMap responseCodec sendData len
      (.start response controller app) a = some w') :
    Progress frame ⟨.established, app, 0⟩ w' := by
  cases a with
  | connect =>
      simp only [jointStep, Joint.start, if_pos, Option.some.injEq] at h
      subst h
      apply Progress.sent
      · simp [CallState.onConnected, TcpConnection.send, hframe]
      · rfl
      · exact Feed.start_idle _ _
      · rfl
      · rfl
  | deliver n => simp [jointStep, Joint.start] at h; omega
  | pass =>
      rw [jointStep, if_pos (.inr ⟨Feed.start_idle _ _, rfl⟩)] at h
      cases h
  | runDone response => simp [jointStep, Joint.start, Joint.serving, Feed.start, Scan.start] at h
  | reply n =>
      simp [jointStep, Joint.start, Joint.Open] at h
  | closeCaller => simp [jointStep, Joint.start, Joint.Open] at h
  | closeProvider => simp [jointStep, Joint.start] at h

end

/-! ## A request that is dropped -/

theorem reaches_feed {w₀ w : Joint M κ}
    (h : Reaches (jointStep order codec api servicesMap responseCodec sendData len)
      DeliversWhole w₀ w) (n : Nat) :
    Reaches (jointStep order codec api servicesMap responseCodec sendData len) DeliversWhole w₀
      { w with feed := feed order codec (handleRpcRequest api servicesMap) n w.feed } := by
  induction n with
  | zero => exact h
  | succ n ih =>
      rw [feed_succ']
      by_cases hover :
          (feed order codec (handleRpcRequest api servicesMap) n w.feed).Over
      · rw [feedStep_of_over hover]
        exact ih
      · exact .step (a := .pass) ih (fun _ ha => by cases ha) (if_neg hover)

theorem stalled_of_dropped {w : Joint M κ} {frame : Bytes} {app : κ}
    (hcall : w.call.conn = ⟨.kConnected, frame⟩) (hquit : w.call.quit = false)
    (harrived : w.arrived = frame.length) (hidle : w.feed.Idle) (hchunks : w.feed.chunks = [])
    (hserving : w.serving = ⟨.established, app, 0⟩) :
    Stalled order codec api servicesMap responseCodec sendData len w := by
  refine ⟨fun a => ?_, by rw [hserving], .inl (by rw [hcall]), hquit⟩
  rcases hstep : jointStep order codec api servicesMap responseCodec sendData len w a with
    _ | w'
  · rfl
  · obtain ⟨n, rfl⟩ | rfl := deliver_or_pass hcall hserving (Feed.Idle.exit_ne hidle) hstep
    · simp only [jointStep, Option.ite_none_right_eq_some, hcall, harrived] at hstep
      omega
    · rw [jointStep, if_pos (.inr ⟨hidle, hchunks⟩)] at hstep
      cases hstep

theorem reaches_delivered {frame : Bytes} (hframe : frame.take len.toNat = frame)
    (hne : 0 < frame.length) (response : M) (controller : KitRpcController) (app : κ) :
    Reaches (jointStep order codec api servicesMap responseCodec frame len) DeliversWhole
      (.start response controller app)
      ⟨⟨response, controller, ⟨.kConnected, frame⟩, false⟩, frame.length,
        .start [frame] ⟨.established, app, 0⟩, 0⟩ := by
  have hconnect : jointStep order codec api servicesMap responseCodec frame len
      (.start response controller app) .connect =
      some ⟨⟨response, controller, ⟨.kConnected, frame⟩, false⟩, 0,
        .start [] ⟨.established, app, 0⟩, 0⟩ := by
    simp [jointStep, Joint.start, CallState.onConnected, TcpConnection.send, hframe]
  have hdeliver : jointStep order codec api servicesMap responseCodec frame len
      ⟨⟨response, controller, ⟨.kConnected, frame⟩, false⟩, 0,
        .start [] ⟨.established, app, 0⟩, 0⟩ (.deliver frame.length) =
      some ⟨⟨response, controller, ⟨.kConnected, frame⟩, false⟩, frame.length,
        .start [frame] ⟨.established, app, 0⟩, 0⟩ := by
    simp [jointStep, Feed.start, Scan.start, Joint.Crashed, TcpConnection.established, hne]
  refine .step (.step .start (fun _ ha => by cases ha) hconnect) (fun k hk => ?_) hdeliver
  cases hk
  exact Nat.zero_add _

theorem exists_stalled (hcodec : codec.RoundTrip) {r : Request} {frame : Bytes}
    (hbuild : buildRequest order codec r.serviceName r.methodName (some r.args) =
      .ok (frame, len)) (hsize : frame.length < 2 ^ 32)
    (hinvalid : ¬ ValidCall api servicesMap r.call) (response : M)
    (controller : KitRpcController) (app : κ) :
    ∃ w, Reaches (jointStep order codec api servicesMap responseCodec frame len) DeliversWhole
        (.start response controller app) w ∧
      Stalled order codec api servicesMap responseCodec frame len w := by
  have hlen := toNat_len_of_buildRequest hbuild hsize
  have hframed := Request.Built.framed ⟨len, hbuild⟩ hcodec []
  rw [List.append_nil] at hframed
  have hne : 0 < frame.length := Nat.zero_lt_of_lt hframed.length_rest_lt
  -- The provider decodes the frame, drops the request and returns.
  obtain ⟨s, hends, hexit, _, hhanded⟩ := endsIn_finished (handleRpcRequest api servicesMap)
    (.single (readFrame_eq_some_iff.mpr hframed))
    (Scan.start_at frame [] (⟨.established, app, 0⟩ : Serving κ)) hsize
  obtain ⟨n, hreach⟩ := feed_chunk
    (f := .start [frame] (⟨.established, app, 0⟩ : Serving κ)) (Feed.start_idle _ _) rfl hends
  have henv : s.env = ⟨.established, app, 0⟩ :=
    hhanded.env.trans (handleRpcRequest_of_not_valid hinvalid _)
  have hdelivered : Reaches (jointStep order codec api servicesMap responseCodec frame len)
      DeliversWhole (.start response controller app) _ :=
    reaches_feed (reaches_delivered (by rw [hlen, List.take_length]) hne _ _ _) n
  refine ⟨_, hdelivered, ?_⟩
  rw [hreach]
  exact stalled_of_dropped rfl rfl rfl (.inl hexit) rfl henv

/-- In runs that deliver a request whole, no stall is reachable exactly if the
request is valid. The caller can send less than 2 GiB. -/
theorem not_stalled_iff_valid (hcodec : codec.RoundTrip) {r : Request} {frame : Bytes}
    (hbuild : buildRequest order codec r.serviceName r.methodName (some r.args) =
      .ok (frame, len)) (hsize : frame.length < 2 ^ 31) (response : M)
    (controller : KitRpcController) (app : κ) :
    (∀ w, Reaches (jointStep order codec api servicesMap responseCodec frame len) DeliversWhole
        (.start response controller app) w →
      ¬ Stalled order codec api servicesMap responseCodec frame len w) ↔
      ValidCall api servicesMap r.call := by
  have hword : frame.length < 2 ^ 32 := hsize.trans (by decide)
  constructor
  · intro hsafe
    by_contra hinvalid
    obtain ⟨w, hreach, hstalled⟩ := exists_stalled hcodec hbuild hword hinvalid response
      controller app
    exact hsafe w hreach hstalled
  · intro hvalid w hreach
    have hlen := toNat_len_of_buildRequest hbuild hword
    have hframed := Request.Built.framed ⟨len, hbuild⟩ hcodec []
    have hfirst := first_framed hframed (headerSizeAt_built ⟨len, hbuild⟩ [])
    rw [List.append_nil] at hframed hfirst
    have hne : frame ≠ [] := List.length_pos_iff.mp (Nat.zero_lt_of_lt hframed.length_rest_lt)
    have hprogress : w = .start response controller app ∨
        Progress frame ⟨.established, app, 0⟩ w := by
      refine hreach.invariant (I := fun w => w = .start response controller app ∨
        Progress frame ⟨.established, app, 0⟩ w) (.inl rfl) fun hinv hwhole hstep => .inr ?_
      rcases hinv with rfl | hprogress
      · exact progress_of_start (by rw [hlen, List.take_length]) hstep
      · exact hprogress.step hfirst hne hvalid hwhole hstep
    rcases hprogress with rfl | hprogress
    · rintro ⟨_, _, hopen, _⟩
      simp [Joint.Open, Joint.start] at hopen
    · exact hprogress.not_stalled hne

theorem not_exists_stalled_login :
    ¬ ∃ w, Reaches (jointStep .little wireHeader echoService
          (notifyService echoService [] userService) (wireResponse loginResponse) loginFrame 15)
        DeliversWhole (.start ⟨none, false⟩ .new 0) w ∧
      Stalled .little wireHeader echoService (notifyService echoService [] userService)
        (wireResponse loginResponse) loginFrame 15 w := by
  rintro ⟨w, hreach, hstalled⟩
  exact (not_stalled_iff_valid (r := loginRequest) wireHeader_roundTrip rfl (by decide) _ _ _).mpr
    ⟨_, rfl, _, rfl, _, rfl⟩ w hreach hstalled

/-- A login to a provider without services leaves its caller waiting. -/
theorem stalled_unknown_service :
    ∃ w, Reaches (jointStep .little wireHeader echoService [] (wireResponse loginResponse)
          loginFrame 15) Unrestricted (.start ⟨none, false⟩ .new 0) w ∧
      Stalled .little wireHeader echoService [] (wireResponse loginResponse) loginFrame 15 w := by
  have hrun : run (jointStep .little wireHeader echoService [] (wireResponse loginResponse)
      loginFrame 15) (.start ⟨none, false⟩ .new 0) [.connect, .deliver 15, .pass, .pass, .pass] =
      some _ := rfl
  exact ⟨_, .of_run hrun fun _ _ _ => trivial, stalled_of_dropped rfl rfl rfl (.inl rfl) rfl rfl⟩

end KitRpc.System

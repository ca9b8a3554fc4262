import KitRpc.System.Stall
/-!
# One response at most

A connection is shut down together with the first response, so whatever the
peer sends and however it is cut, not more than one response is written. All that
a caller makes of a call is made of its bytes. A `done` that runs after its
`onMessage` has returned goes through a reference to a `TcpConnectionPtr` that is
gone; runs with one are left out.
-/

namespace KitRpc.System

open KitRpc.Foundation KitRpc.Cpp KitRpc.Wire KitRpc.Muduo KitRpc.Proto KitRpc.Caller
  KitRpc.Provider

variable {α ρ μ κ M : Type} {order : ByteOrder} {codec : HeaderCodec} {api : GPService α ρ μ κ}
  {servicesMap : ServicesMap α} {responseCodec : ResponseCodec M} {sendData : Bytes}
  {len : UInt32}

/-! ## The provider's end -/

def Produces (api : GPService α ρ μ κ) (P : μ → Prop) : Prop :=
  ∀ app service method request response,
    (api.callMethod app service method request).2 = some response → P response

/-- What the source defines: no method runs `done` after it has returned, and the
length that `send` gets is not negative as an `int`. -/
structure Defined (len : UInt32) (_ : Joint M κ) (a : Event μ) : Prop where
  inTime : ∀ response, a ≠ .runDone response
  sendable : a = .connect → len.toNat < 2 ^ 31

theorem oneResponse_of_step {P : μ → Prop} (hP : Produces api P) {w w' : Joint M κ} {a : Event μ}
    (h : OneResponse api P w.serving.conn) (hdefined : Defined len w a)
    (hstep : jointStep order codec api servicesMap responseCodec sendData len w a = some w') :
    OneResponse api P w'.serving.conn := by
  cases a <;>
    simp only [jointStep, Option.ite_none_right_eq_some, Option.ite_none_left_eq_some,
      Option.some.injEq] at hstep <;>
    obtain ⟨_, rfl⟩ := hstep
  case pass =>
    exact feedStep_env (P := fun s : Serving κ => OneResponse api P s.conn)
      (fun _ call hs => hs.handleRpcRequest fun _ _ _ _ _ hresponse => hP _ _ _ _ _ hresponse) h
  case runDone => exact absurd rfl (hdefined.inTime _)
  case closeProvider => exact ⟨fun hup => by simp [Joint.withServing] at hup, h.written⟩
  all_goals exact h

/-! ## The caller's end -/

def fresh (initial : M) (controller : KitRpcController) : CallState M :=
  { response := initial, controller, conn := .established, quit := false }

/-- The pieces of the written bytes that the caller was handed. -/
structure Pieces (w : Joint M κ) (chunks : List Bytes) : Prop where
  nonempty : ∀ c ∈ chunks, c ≠ []
  flatten : chunks.flatten = w.serving.conn.accepted.take w.answered
  answered : w.answered ≤ w.serving.conn.accepted.length

/-- The caller in a run: on its way, in its event loop, or returned. -/
inductive Heard (responseCodec : ResponseCodec M) (sendData : Bytes) (len : UInt32)
    (initial : M) (controller : KitRpcController) (w : Joint M κ) : Prop
  | connecting : w.call = ⟨initial, controller, ⟨.kConnecting, []⟩, false⟩ → w.answered = 0 →
      Heard responseCodec sendData len initial controller w
  | looping (chunks : List Bytes) : Pieces w chunks → w.Open → w.call.quit = false →
      w.call = chunks.foldl (CallState.onMessage responseCodec)
        ((fresh initial controller).onConnected sendData len) →
      Heard responseCodec sendData len initial controller w
  | returned (chunks : List Bytes) : Pieces w chunks → ¬ w.Open →
      w.Crashed ∨ w.serving.conn.state ≠ .kConnected ∧
        w.serving.conn.accepted.length ≤ w.answered →
      w.call = (fresh initial controller).finish responseCodec sendData len chunks →
      Heard responseCodec sendData len initial controller w

namespace Pieces

variable {w w' : Joint M κ} {chunks : List Bytes}

theorem extend (h : Pieces w chunks) (hanswered : w'.answered = w.answered)
    (hext : Extends w.serving.conn w'.serving.conn) : Pieces w' chunks := by
  obtain ⟨more, hmore⟩ := hext.accepted
  refine ⟨h.nonempty, ?_, ?_⟩
  · rw [h.flatten, hanswered, ← hmore, List.take_append_of_le_length h.answered]
  · rw [hanswered, ← hmore, List.length_append]
    exact h.answered.trans (Nat.le_add_right _ _)

theorem reply (h : Pieces w chunks) {n : Nat} (hpos : 0 < n)
    (hroom : w.answered + n ≤ w.serving.conn.accepted.length) (call : CallState M) :
    Pieces { w with call, answered := w.answered + n }
      (chunks ++ [(w.serving.conn.accepted.drop w.answered).take n]) := by
  refine ⟨?_, ?_, hroom⟩
  · rw [List.forall_mem_append, List.forall_mem_singleton]
    refine ⟨h.nonempty, List.ne_nil_of_length_pos ?_⟩
    rw [List.length_take, List.length_drop]
    omega
  · rw [List.flatten_append, h.flatten, List.flatten_cons, List.flatten_nil, List.append_nil,
      List.take_add]

end Pieces

namespace Heard

variable {initial : M} {controller : KitRpcController} {w w' : Joint M κ} {a : Event μ}

/-- What the provider's end does is not seen before it arrives. -/
theorem of_provider (h : Heard responseCodec sendData len initial controller w)
    (hcall : w'.call = w.call) (hanswered : w'.answered = w.answered) (halive : ¬ w.Crashed)
    (hext : Extends w.serving.conn w'.serving.conn) :
    Heard responseCodec sendData len initial controller w' := by
  have hopen : w'.Open ↔ w.Open := by rw [Joint.Open, hcall, Joint.Open]
  cases h with
  | connecting hw hnone => exact .connecting (hcall.trans hw) (hanswered.trans hnone)
  | looping chunks hpieces hup hquit hw =>
      refine .looping chunks (hpieces.extend hanswered hext) (hopen.mpr hup) ?_ ?_
      · rw [hcall, hquit]
      · rw [hcall, hw]
  | returned chunks hpieces hdown hend hw =>
      obtain ⟨hpeer, hall⟩ := hend.resolve_left halive
      obtain ⟨hpeer', haccepted⟩ := hext.frozen hpeer
      refine .returned chunks (hpieces.extend hanswered hext) (mt hopen.mp hdown) (.inr ?_) ?_
      · rw [haccepted, hanswered]
        exact ⟨hpeer', hall⟩
      · rw [hcall, hw]

theorem step (h : Heard responseCodec sendData len initial controller w)
    (hstep : jointStep order codec api servicesMap responseCodec sendData len w a = some w') :
    Heard responseCodec sendData len initial controller w' := by
  cases a <;>
    simp only [jointStep, Option.ite_none_right_eq_some, Option.ite_none_left_eq_some,
      Option.some.injEq] at hstep <;>
    obtain ⟨hguard, rfl⟩ := hstep
  case connect =>
    cases h with
    | connecting hw hnone =>
        refine .looping [] ⟨by simp, by simp [hnone], by simp [hnone]⟩ ?_ ?_ ?_
        · simp [Joint.Open, CallState.onConnected, TcpConnection.send]
        · simp [CallState.onConnected, hw]
        · simp [CallState.onConnected, hw, fresh, TcpConnection.established]
    | looping chunks hpieces hup => simp [Joint.Open, hguard] at hup
    | returned chunks hpieces hdown hend hw =>
        simp [hw, CallState.finish, CallState.onDisconnected] at hguard
  case deliver => exact h.of_provider rfl rfl hguard.2.2.1 (.refl _)
  case pass =>
    refine h.of_provider rfl rfl (fun hcrash => hguard (.inl hcrash)) ?_
    exact feedStep_env (P := fun s : Serving κ => Extends w.serving.conn s.conn)
      (fun _ call hs => hs.handleRpcRequest call) (.refl _)
  case runDone => exact h.of_provider rfl rfl hguard.2 ((Extends.refl _).sendRpcResponse _)
  case closeProvider =>
    refine h.of_provider rfl rfl hguard.2.2.1 ⟨List.prefix_refl _, fun _ => ⟨?_, rfl⟩⟩
    simp [Joint.withServing]
  case reply n =>
    obtain ⟨hpos, hroom, hopen⟩ := hguard
    cases h with
    | connecting hw => simp [Joint.Open, hw] at hopen
    | returned chunks hpieces hdown => exact absurd hopen hdown
    | looping chunks hpieces _ hquit hw =>
        refine .looping _ (hpieces.reply hpos hroom _) ?_ hquit ?_
        · apply Or.inr
          change w.call.conn.shutdown.state = .kDisconnecting
          rcases hopen with hstate | hstate <;> simp [TcpConnection.shutdown, hstate]
        · rw [List.foldl_append, ← hw]
          rfl
  case closeCaller =>
    obtain ⟨hopen, hend⟩ := hguard
    cases h with
    | connecting hw => simp [Joint.Open, hw] at hopen
    | returned chunks hpieces hdown => exact absurd hopen hdown
    | looping chunks hpieces _ hquit hw =>
        refine .returned chunks ⟨hpieces.nonempty, hpieces.flatten, hpieces.answered⟩ ?_ hend ?_
        · simp [Joint.Open, CallState.onDisconnected]
        · rw [hw]
          rfl

end Heard

/-- In every run of defined steps, in whatever pieces bytes arrive, the provider
writes nothing or the bytes of one response. A call that has returned is a whole
call on pieces of these bytes, on all of them unless an exception ended the
provider. -/
theorem one_response {P : μ → Prop} (hP : Produces api P) (initial : M)
    (controller : KitRpcController) (app : κ) {w : Joint M κ}
    (hreach : Reaches (jointStep order codec api servicesMap responseCodec sendData len)
      (Defined len) (.start initial controller app) w) :
    Written api P w.serving.conn.accepted ∧
      (w.call.quit = true → ∃ chunks, (∀ c ∈ chunks, c ≠ []) ∧
        chunks.flatten <+: w.serving.conn.accepted ∧
        (¬ w.Crashed → chunks.flatten = w.serving.conn.accepted) ∧
        w.call = CallState.finish responseCodec ⟨initial, controller, .established, false⟩
          sendData len chunks) := by
  have hone : OneResponse api P w.serving.conn :=
    hreach.invariant (I := fun w => OneResponse api P w.serving.conn) ⟨fun _ => rfl, .inl rfl⟩
      fun h hdefined hstep => oneResponse_of_step hP h hdefined hstep
  have hheard : Heard responseCodec sendData len initial controller w :=
    hreach.invariant (I := Heard responseCodec sendData len initial controller)
      (.connecting rfl rfl) fun h _ hstep => h.step hstep
  refine ⟨hone.written, fun hquit => ?_⟩
  cases hheard with
  | connecting hw => simp [hw] at hquit
  | looping chunks _ _ hrunning => simp [hrunning] at hquit
  | returned chunks hpieces _ hend hw =>
      refine ⟨chunks, hpieces.nonempty, ?_, fun halive => ?_, hw⟩
      · rw [hpieces.flatten]
        exact List.take_prefix _ _
      · rw [hpieces.flatten, List.take_of_length_le (hend.resolve_left halive).2]

/-- A service all of whose methods return the same two bytes. -/
def constantService : GPService ServiceDescriptor Bytes Bytes Nat :=
  { echoService with callMethod := fun requests _ _ _ => (requests + 1, some [0x10, 0x01]) }

theorem one_response_constant :
    ∃ w, run (jointStep .little wireHeader constantService
        (notifyService constantService [] userService) (wireResponse loginResponse) loginFrame 15)
        (.start ⟨none, false⟩ .new 0)
        [.connect, .deliver 15, .pass, .pass, .reply 1, .reply 1, .closeCaller] = some w ∧
      Written constantService (· = [0x10, 0x01]) w.serving.conn.accepted ∧
      ∃ chunks, chunks.flatten = w.serving.conn.accepted ∧
        w.call = CallState.finish (wireResponse loginResponse)
          ⟨⟨none, false⟩, .new, .established, false⟩ loginFrame 15 chunks := by
  have hP : Produces constantService (· = [0x10, 0x01]) := by
    rintro app service method request response h
    exact (Option.some.inj h).symm
  have hrun : run (jointStep .little wireHeader constantService
      (notifyService constantService [] userService) (wireResponse loginResponse) loginFrame 15)
      (.start ⟨none, false⟩ .new 0)
      [.connect, .deliver 15, .pass, .pass, .reply 1, .reply 1, .closeCaller] = some _ := rfl
  have hdefined : ∀ a ∈ [.connect, .deliver 15, .pass, .pass, .reply 1, .reply 1, .closeCaller],
      ∀ w : Joint LoginResponse Nat, Defined 15 w (a : Event Bytes) := by
    intro a ha w
    exact ⟨fun response heq => by simp [heq] at ha, fun _ => by decide⟩
  have hreach := Reaches.of_run hrun hdefined
  obtain ⟨hwritten, hreturned⟩ := one_response hP _ _ _ hreach
  obtain ⟨chunks, _, _, hall, hcall⟩ := hreturned rfl
  exact ⟨_, hrun, hwritten, chunks, hall (by decide), hcall⟩

end KitRpc.System

import KitRpc.Caller.Stream
import KitRpc.Provider.Residue
import KitRpc.Provider.Respond
/-!
# Pipelined requests

Several requests on one connection. All of them are dispatched, but the
connection is shut down together with the first response.
-/

namespace KitRpc.System

open KitRpc.Cpp KitRpc.Muduo KitRpc.Proto KitRpc.Caller KitRpc.Provider

variable {order : ByteOrder} {codec : HeaderCodec} {α ρ μ κ : Type} {api : GPService α ρ μ κ}
  {servicesMap : ServicesMap α}

def EventuallyAccepted (order : ByteOrder) (codec : HeaderCodec) (api : GPService α ρ μ κ)
    (servicesMap : ServicesMap α) (f : Feed (Serving κ)) (bytes : Bytes) : Prop :=
  ∃ N, ∀ n, (feed order codec (handleRpcRequest api servicesMap) (N + n) f).scan.env.conn.accepted
    = bytes

theorem EventuallyAccepted.unique {f : Feed (Serving κ)} {bytes bytes' : Bytes}
    (h : EventuallyAccepted order codec api servicesMap f bytes)
    (h' : EventuallyAccepted order codec api servicesMap f bytes') : bytes = bytes' := by
  obtain ⟨M, hM⟩ := h
  obtain ⟨N, hN⟩ := h'
  rw [← hM N, ← hN M, Nat.add_comm]

theorem EventuallyAccepted.of_feed {f g : Feed (Serving κ)} {N : Nat} {bytes : Bytes}
    (hreach : feed order codec (handleRpcRequest api servicesMap) N f = g)
    (h : EventuallyAccepted order codec api servicesMap g bytes) :
    EventuallyAccepted order codec api servicesMap f bytes := by
  obtain ⟨M, hM⟩ := h
  exact ⟨N + M, fun n => by rw [Nat.add_assoc, feed_add, hreach, hM]⟩

theorem EventuallyAccepted.of_closed {f : Feed (Serving κ)} {bytes : Bytes}
    (h : f.scan.env.Closed bytes) : EventuallyAccepted order codec api servicesMap f bytes :=
  ⟨0, fun n => (feed_env (fun _ call henv => henv.handleRpcRequest call) h (0 + n)).2⟩

theorem headerSizeAt_built {r : Request} {frame : Bytes} (h : r.Built order codec frame)
    (rest : Bytes) : (headerSizeAt order (frame ++ rest)).toNat + 4 < 2 ^ 32 := by
  obtain ⟨head, _, rfl⟩ := h.exists_header
  have hbound := head.bounded
  rw [List.append_assoc, List.append_assoc, headerSizeAt_append (by simp),
    ByteOrder.readWord_writeWord, toNat_ofNat_length _ (by omega)]
  omega

theorem eventuallyAccepted_head (hcodec : codec.RoundTrip) (hprompt : api.Prompt)
    {groups : List (List Request)} {frames : List (List Bytes)}
    (hbuilt : List.Forall₂ (List.Forall₂ (Request.Built order codec)) groups frames)
    (hvalid : ∀ r ∈ groups.flatten, ValidCall api servicesMap r.call) {app : κ}
    {f : Feed (Serving κ)} (hidle : f.Idle) (hchunks : f.chunks = frames.map List.flatten)
    (hfresh : f.scan.env = ⟨.established, app, 0⟩) :
    EventuallyAccepted order codec api servicesMap f
      ((responses api servicesMap app (groups.flatten.map Request.call)).head?.getD []) := by
  induction hbuilt generalizing f with
  | nil =>
      refine ⟨0, fun n => ?_⟩
      rw [feed_of_over (.inr ⟨hidle, hchunks⟩), hfresh]
      rfl
  | @cons group chunkFrames groups frames hgroup _ ih =>
      cases hgroup with
      | nil => exact .of_feed (feed_first_nil hidle hchunks) (ih hvalid (.inl rfl) rfl hfresh)
      | @cons r frame group chunkFrames hr hrest =>
          have hframed := hr.framed hcodec chunkFrames.flatten
          obtain ⟨len, hfirst⟩ := first_framed hframed (headerSizeAt_built hr _)
          have hne : frame ++ chunkFrames.flatten ≠ [] :=
            List.length_pos_iff.mp (Nat.zero_lt_of_lt hframed.length_rest_lt)
          obtain ⟨g, hreach, _, henv⟩ := feed_first_request
            (handleRpcRequest api servicesMap) hidle hchunks hne hfirst
          obtain ⟨first, hhead, hclosed⟩ := closed_of_valid hprompt (hvalid r (by simp))
            ((group ++ groups.flatten).map Request.call) app 0
          rw [hfresh] at henv
          rw [List.flatten_cons, List.cons_append, List.map_cons, hhead, Option.getD_some]
          apply EventuallyAccepted.of_feed hreach
          apply EventuallyAccepted.of_closed
          rw [henv]
          exact hclosed

/-- The bytes accepted on a connection are the responses to its requests, in
order, exactly if the responses behind the first have no bytes. -/
theorem eventuallyAccepted_responses_iff (hcodec : codec.RoundTrip) (hprompt : api.Prompt)
    {groups : List (List Request)} {frames : List (List Bytes)}
    (hbuilt : List.Forall₂ (List.Forall₂ (Request.Built order codec)) groups frames)
    (hvalid : ∀ r ∈ groups.flatten, ValidCall api servicesMap r.call) (app : κ) :
    let answers := responses api servicesMap app (groups.flatten.map Request.call)
    EventuallyAccepted order codec api servicesMap
        (.start (frames.map List.flatten) ⟨.established, app, 0⟩) answers.flatten ↔
      ∀ b ∈ answers.tail, b = [] := by
  intro answers
  have hhead := eventuallyAccepted_head (f := .start (frames.map List.flatten) _) hcodec hprompt
    hbuilt hvalid (Feed.start_idle _ ⟨.established, app, 0⟩) rfl rfl
  have hsplit : answers.flatten = answers.head?.getD [] ++ answers.tail.flatten := by
    cases answers with
    | nil => rfl
    | cons first later => rfl
  rw [← List.flatten_eq_nil_iff]
  constructor
  · intro h
    have heq := h.unique hhead
    rwa [hsplit, List.append_right_eq_self] at heq
  · intro h
    rw [hsplit, h, List.append_nil]
    exact hhead

/-- The second of two pipelined requests gets no response. -/
theorem not_eventuallyAccepted_two_logins :
    ¬ EventuallyAccepted .little wireHeader echoService (notifyService echoService [] userService)
      (.start [loginFrame ++ loginFrame] ⟨.established, 0, 0⟩)
      [0x61, 0x00, 0x62, 0x61, 0x00, 0x62] := by
  intro h
  have hfirst : EventuallyAccepted .little wireHeader echoService
      (notifyService echoService [] userService)
      (.start [loginFrame ++ loginFrame] ⟨.established, 0, 0⟩) [0x61, 0x00, 0x62] :=
    .of_feed (N := 2) rfl (.of_closed ⟨by decide, by decide⟩)
  exact absurd (h.unique hfirst) (by decide)

theorem eventuallyAccepted_login_logOut :
    EventuallyAccepted .little wireHeader echoService (notifyService echoService [] userService)
      (.start [loginFrame ++ logOutFrame] ⟨.established, 0, 0⟩) [0x61, 0x00, 0x62] := by
  have hbuilt : List.Forall₂ (List.Forall₂ (Request.Built .little wireHeader))
      [[loginRequest, logOutRequest]] [[loginFrame, logOutFrame]] :=
    .cons (.cons loginFrame_built (.cons logOutFrame_built .nil)) .nil
  have hvalid : ∀ r ∈ [[loginRequest, logOutRequest]].flatten,
      ValidCall echoService (notifyService echoService [] userService) r.call := by
    intro r hr
    rcases List.mem_pair.mp hr with rfl | rfl
    · exact ⟨_, rfl, _, rfl, _, rfl⟩
    · exact ⟨_, rfl, _, rfl, _, rfl⟩
  exact (eventuallyAccepted_responses_iff wireHeader_roundTrip (fun _ _ _ _ => rfl) hbuilt hvalid
    0).mpr (by decide)

end KitRpc.System

import KitRpc.Caller.Controller
import KitRpc.Proto.User
/-!
# Is the answer right?

What a call leaves in the caller's response object and controller, compared
with the message the service produced. The bytes of one response may arrive in
several chunks or not at all, and a chunk is parsed up to its first NUL byte.
-/

namespace KitRpc.Caller

open KitRpc.Cpp KitRpc.Wire KitRpc.Muduo KitRpc.Proto

variable {M : Type}

/-- What may arrive of a response before the connection goes down: nothing when
it was not sent, and otherwise a beginning of its bytes, cut into chunks. -/
structure Arrivals (codec : ResponseCodec M) (m : M) (sent : Bool) (chunks : List Bytes) :
    Prop where
  nonempty : ∀ c ∈ chunks, c ≠ []
  unsent : sent = false → chunks = []
  begins : sent = true → ∃ resp, codec.serialize m = some resp ∧ chunks.flatten <+: resp.bytes

/-- A call that does not report failure has the right answer, and the answer
was really sent. -/
def RightUnlessFailed (m : M) (sent : Bool) (s : CallState M) : Prop :=
  s.controller.failed = false → s.response = m ∧ sent = true

variable {codec : ResponseCodec M}

/-- When a call that reports no failure has the right answer: the controller
had failed before, or some chunk is rejected, or nothing arrived and the
response object held the message that was sent, or the last chunk up to its
first NUL byte parses to that message. -/
theorem rightUnlessFailed_iff {m : M} {sent : Bool} {chunks : List Bytes}
    (harrivals : Arrivals codec m sent chunks) (s : CallState M) (sendData : Bytes)
    (len : UInt32) :
    RightUnlessFailed m sent (s.finish codec sendData len chunks) ↔
      s.controller.failed = true ∨
      (∃ c ∈ chunks, (codec.parse (cStr c)).1 = false) ∨
      (chunks = [] ∧ sent = true ∧ s.response = m) ∨
      ∃ last, chunks.getLast? = some last ∧ (codec.parse (cStr last)).2 = m := by
  have hfailed := CallState.foldl_onMessage_failed codec chunks (s.onConnected sendData len)
  have hresponse :=
    CallState.foldl_onMessage_response codec chunks (s.onConnected sendData len)
  change RightUnlessFailed m sent (CallState.onDisconnected _) ↔ _
  rw [← or_assoc, show s.controller = (s.onConnected sendData len).controller from rfl, ← hfailed]
  unfold RightUnlessFailed CallState.onDisconnected
  dsimp only
  rw [hresponse]
  generalize (chunks.foldl _ (s.onConnected sendData len)).controller.failed = failed
  cases failed with
  | true => simp
  | false =>
      simp only [Bool.false_eq_true, false_or, true_imp_iff]
      rcases List.eq_nil_or_concat chunks with rfl | ⟨before, last, rfl⟩
      · simp [CallState.onConnected, and_comm]
      · have hsent : sent = true := by
          by_contra hunsent
          simpa using harrivals.unsent (by simpa using hunsent)
        simp [hsent]

theorem rightUnlessFailed_success :
    RightUnlessFailed (⟨none, true⟩ : LoginResponse) true
      (CallState.finish (wireResponse loginResponse) ⟨⟨none, false⟩, .new, .established, false⟩
        [] 0 [[0x10, 0x01]]) :=
  (rightUnlessFailed_iff ⟨by simp, by simp, fun _ => ⟨⟨[0x10, 0x01], by decide⟩, rfl,
    List.prefix_refl _⟩⟩ _ [] 0).mpr (.inr (.inr (.inr ⟨_, rfl, by decide⟩)))

/-- The same response is sent, but the connection goes down before a byte of it
arrives. -/
theorem not_rightUnlessFailed_disconnected :
    Arrivals (wireResponse loginResponse) ⟨none, true⟩ true [] ∧
      ¬ RightUnlessFailed (⟨none, true⟩ : LoginResponse) true
        (CallState.finish (wireResponse loginResponse) ⟨⟨none, false⟩, .new, .established, false⟩
          [] 0 []) := by
  refine ⟨⟨by simp, fun _ => rfl, fun _ => ⟨⟨[0x10, 0x01], by decide⟩, rfl, ?_⟩⟩, fun h => ?_⟩
  · exact List.nil_prefix
  · exact absurd (h rfl).1 (by decide)

variable (codec) in
theorem finish_single {s : CallState M} (hfresh : s.controller.failed = false)
    (sendData : Bytes) (len : UInt32) (chunk : Bytes) :
    (s.finish codec sendData len [chunk]).response = (codec.parse (cStr chunk)).2 ∧
      (s.finish codec sendData len [chunk]).controller.failed =
        !(codec.parse (cStr chunk)).1 := by
  refine ⟨CallState.onMessage_response (s.onConnected sendData len) chunk, ?_⟩
  calc
    _ = ((s.onConnected sendData len).controller.failed || !(codec.parse (cStr chunk)).1) :=
      CallState.onMessage_failed (s.onConnected sendData len) chunk
    _ = _ := by
      rw [show (s.onConnected sendData len).controller = s.controller from rfl, hfresh,
        Bool.false_or]

/-- When all bytes of a response in one message callback, or none for an empty
one, leave the message in the response object and report no failure: an empty
response if the object held the message before, any other if it has no NUL byte
or the bytes before the first one parse to the same message. -/
theorem finish_right_iff (hcodec : codec.RoundTrip) {m : M} {resp : Serialized}
    (hser : codec.serialize m = some resp) {s : CallState M}
    (hfresh : s.controller.failed = false) (sendData : Bytes) (len : UInt32) :
    let s' := s.finish codec sendData len (if resp.bytes = [] then [] else [resp.bytes])
    (s'.response = m ∧ s'.controller.failed = false) ↔
      (resp.bytes = [] ∧ s.response = m) ∨
      (resp.bytes ≠ [] ∧
        ((0 : UInt8) ∉ resp.bytes ∨ codec.parse (cStr resp.bytes) = (true, m))) := by
  intro s'
  by_cases hempty : resp.bytes = []
  · have hs' : s' = s.finish codec sendData len [] := by simp only [s', hempty, if_pos]
    rw [hs']
    change s.response = m ∧ s.controller.failed = false ↔ _
    simp [hempty, hfresh]
  · have hs' : s' = s.finish codec sendData len [resp.bytes] := by simp only [s', if_neg hempty]
    obtain ⟨hresponse, hfailed⟩ :=
      finish_single codec hfresh sendData len resp.bytes
    have hclean : (0 : UInt8) ∉ resp.bytes → codec.parse (cStr resp.bytes) = (true, m) := by
      intro hnul
      rw [cStr_eq_self_iff.mpr hnul, hcodec hser]
    rw [hs', hresponse, hfailed, or_iff_right_of_imp hclean, Prod.ext_iff]
    simp [hempty, and_comm]

theorem finish_right_success :
    let s := CallState.finish (wireResponse loginResponse)
      ⟨⟨none, false⟩, .new, .established, false⟩ [] 0 [[0x10, 0x01]]
    s.response = ⟨none, true⟩ ∧ s.controller.failed = false := by
  have hser : (wireResponse loginResponse).serialize ⟨none, true⟩ =
      some ⟨[0x10, 0x01], by decide⟩ := rfl
  apply (finish_right_iff (wireResponse_roundTrip loginResponse_lawful) hser rfl [] 0).mpr
  exact .inr ⟨by decide, .inl (by decide)⟩

/-- A response whose message is one NUL byte does not come back. -/
theorem not_finish_right_nul :
    let m : LoginResponse := ⟨some ⟨0, [0]⟩, true⟩
    let s := CallState.finish (wireResponse loginResponse)
      ⟨⟨none, false⟩, .new, .established, false⟩ [] 0 [[0x0a, 0x03, 0x12, 0x01, 0x00, 0x10, 0x01]]
    (loginResponse.serialize m).map (·.bytes) =
        some [0x0a, 0x03, 0x12, 0x01, 0x00, 0x10, 0x01] ∧
      ¬ (s.response = m ∧ s.controller.failed = false) := by
  decide

end KitRpc.Caller

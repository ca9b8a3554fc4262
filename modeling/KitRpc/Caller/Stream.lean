import KitRpc.Caller.Request
/-!
# Requests through the decoder

The two ends of the request path put together: what `CallMethod` builds, one
request after the other in a single buffer, is what `onMessage` hands on.
-/

namespace KitRpc.Caller

open KitRpc.Cpp KitRpc.Wire KitRpc.Proto KitRpc.Provider

variable {order : ByteOrder} {codec : HeaderCodec} {σ : Type} (handle : σ → Call → σ)

/-- Decoding undoes encoding over a whole buffer. Requests whose frames fill
the buffer are handed on one by one and in order, every copy stays inside the
buffer and the cursor ends at its size. With a frame behind them whose header
is rejected, the requests before it are handed on and nothing else. -/
theorem onMessage_undoes_buildRequest (hcodec : codec.RoundTrip) {reqs : List Request}
    {frames : List Bytes} (hbuilt : List.Forall₂ (Request.Built order codec) reqs frames)
    (env : σ) :
    (frames.flatten.length < 2 ^ 31 →
      ∃ s, EndsIn order codec handle frames.flatten (.start [] env) s ∧
        s.exit = some .finished ∧ s.calls = reqs.map Request.call ∧
        s.len.toNat = frames.flatten.length ∧ CopiesInside frames.flatten s.copies) ∧
    ∀ headStr more, codec.parse headStr = none →
      let data := frames.flatten ++
        (order.writeWord (UInt32.ofNat headStr.length) ++ (headStr ++ more))
      data.length < 2 ^ 31 →
      ∃ s, EndsIn order codec handle data (.start [] env) s ∧
        s.exit = some .headerRejected ∧ s.calls = reqs.map Request.call ∧
        CopiesInside data s.copies := by
  constructor
  · intro hsize
    have hsplit := splits_of_built hbuilt hcodec []
    rw [List.append_nil] at hsplit
    obtain ⟨s, hend, hexit, hcursor, hhanded⟩ :=
      endsIn_finished handle hsplit (Scan.start_at _ [] env) (by omega)
    exact ⟨s, hend, hexit, by simpa [Scan.start] using hhanded.calls, hcursor,
      hhanded.copies (by simp [CopiesInside, Scan.start])⟩
  · intro headStr more hreject data hsize
    have hsplit := splits_of_built hbuilt hcodec
      (order.writeWord (UInt32.ofNat headStr.length) ++ (headStr ++ more))
    obtain ⟨s, hend, hexit, hhanded⟩ :=
      endsIn_rejected handle hsplit hreject (Scan.start_at _ [] env)
        (hsize.trans (by decide))
    exact ⟨s, hend, hexit, by simpa [Scan.start] using hhanded.calls,
      hhanded.copies (by simp [CopiesInside, Scan.start])⟩

/-- A login request with a NUL byte among its arguments. -/
def loginRequest : Request := ⟨[0x55], [0x4c], ⟨[0x61, 0x00, 0x62], by decide⟩⟩

def logOutRequest : Request := ⟨[0x55], [0x4f], ⟨[], by decide⟩⟩

def logOutFrame : Bytes := [0x06, 0, 0, 0, 0x0a, 0x01, 0x55, 0x12, 0x01, 0x4f]

theorem loginFrame_built : loginRequest.Built .little wireHeader loginFrame := ⟨15, rfl⟩

theorem logOutFrame_built : logOutRequest.Built .little wireHeader logOutFrame := ⟨10, rfl⟩

theorem onMessage_undoes_buildRequest_pipelined :
    (∃ s, EndsIn .little wireHeader (fun (n : Nat) _ => n + 1)
        [loginFrame, logOutFrame].flatten (.start [] 0) s ∧
      s.exit = some .finished ∧ s.calls = [loginRequest.call, logOutRequest.call] ∧
      s.len.toNat = 25 ∧ CopiesInside [loginFrame, logOutFrame].flatten s.copies) ∧
    ∃ s, EndsIn .little wireHeader (fun (n : Nat) _ => n + 1)
        ([loginFrame, logOutFrame].flatten ++ [1, 0, 0, 0, 0, 0xff]) (.start [] 0) s ∧
      s.exit = some .headerRejected ∧ s.calls = [loginRequest.call, logOutRequest.call] ∧
      CopiesInside ([loginFrame, logOutFrame].flatten ++ [1, 0, 0, 0, 0, 0xff]) s.copies :=
  have h := onMessage_undoes_buildRequest (fun (n : Nat) _ => n + 1)
    wireHeader_roundTrip (.cons loginFrame_built (.cons logOutFrame_built .nil)) 0
  ⟨h.1 (by decide), h.2 [0] [0xff] (by decide) (by decide)⟩

end KitRpc.Caller

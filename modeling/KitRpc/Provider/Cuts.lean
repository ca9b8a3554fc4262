import KitRpc.Provider.Chunks
import KitRpc.Provider.Residue
/-!
# When the cuts of a stream do not matter

No bytes of an incomplete frame are kept for the next call, so the chunks in
which a stream arrives decide what is handed on. There are two ways out: every
cut of the stream may throw in its first call, or all cuts that are compared
may fall between two frames.
-/

namespace KitRpc.Provider

open KitRpc.Foundation KitRpc.Cpp KitRpc.Proto

section

variable (order : ByteOrder) (codec : HeaderCodec)

/-- A call on `xs` throws in its first pass: the length is not complete, or
arguments are announced that would start past the end. -/
def Overrun (xs : Bytes) : Prop :=
  xs.length < 4 ∨ ∃ head, paddedHeader order codec xs = some head ∧ head.argsSize ≠ 0 ∧
    xs.length < (4 + (headerSizeAt order xs).toNat) % 2 ^ 32

/-- A call on `xs` returns in its first pass: the header is rejected. -/
def Refused (xs : Bytes) : Prop :=
  4 ≤ xs.length ∧ paddedHeader order codec xs = none

/-- However `xs` is cut, nothing is handed on and a call throws. -/
inductive Hopeless : Bytes → Prop
  | intro {xs : Bytes} : xs ≠ [] → Overrun order codec xs →
      (∀ k, 0 < k → k < xs.length → ¬ Overrun order codec (xs.take k) →
        Refused order codec (xs.take k)) →
      (∀ k, 0 < k → k < xs.length → ¬ Overrun order codec (xs.take k) →
        Hopeless (xs.drop k)) →
      Hopeless xs

end

variable {order : ByteOrder} {codec : HeaderCodec} {σ : Type} {handle : σ → Call → σ}

/-! ## The first pass of a call -/

theorem overrun_iff {xs : Bytes} :
    (decodeRound order codec xs 0).2 = .exit .outOfRange ↔ Overrun order codec xs := by
  rw [first_verdict, Overrun]
  by_cases hshort : xs.length < 4
  · simp [hshort]
  cases hparse : paddedHeader order codec xs with
  | none => simp [hshort]
  | some head =>
      by_cases hzero : head.argsSize = 0
      · simp [hshort, hzero]
      · generalize (4 + (headerSizeAt order xs).toNat) % 2 ^ 32 = pos
        by_cases hargs : xs.length < pos
        · simp [hshort, hzero, hargs]
        · simp [hshort, hzero, hargs]

theorem refused_iff {xs : Bytes} :
    (decodeRound order codec xs 0).2 = .exit .headerRejected ↔ Refused order codec xs := by
  rw [first_verdict, Refused]
  by_cases hshort : xs.length < 4
  · simp [hshort, Nat.not_le_of_lt hshort]
  cases hparse : paddedHeader order codec xs with
  | none => simp [hshort, Nat.le_of_not_lt hshort]
  | some head =>
      by_cases hzero : head.argsSize = 0
      · simp [hshort, hzero]
      · generalize (4 + (headerSizeAt order xs).toNat) % 2 ^ 32 = pos
        by_cases hargs : xs.length < pos
        · simp [hshort, hzero, hargs]
        · simp [hshort, hzero, hargs]

theorem first_ne_finished {xs : Bytes} :
    (decodeRound order codec xs 0).2 ≠ .exit .finished := by
  rw [first_verdict]
  split
  · simp
  · split
    · simp
    · dsimp only
      split
      · simp
      · split <;> simp

/-! ## Idle connections -/

/-- What a run makes of an idle connection is decided by the chunks to come,
the requests so far and the environment. -/
structure Feed.Alike (f g : Feed σ) : Prop where
  left : f.Idle
  right : g.Idle
  chunks : f.chunks = g.chunks
  calls : f.scan.calls = g.scan.calls
  env : f.scan.env = g.scan.env

theorem Feed.Alike.feed_eq {f g : Feed σ} (h : f.Alike g) (n : Nat) :
    (feed order codec handle n f).scan.calls = (feed order codec handle n g).scan.calls ∧
      ((feed order codec handle n f).scan.exit = some .outOfRange ↔
        (feed order codec handle n g).scan.exit = some .outOfRange) := by
  cases hchunks : g.chunks with
  | nil =>
      rw [feed_of_over (.inr ⟨h.left, h.chunks.trans hchunks⟩),
        feed_of_over (.inr ⟨h.right, hchunks⟩)]
      exact ⟨h.calls, iff_of_false h.left.exit_ne h.right.exit_ne⟩
  | cons chunk chunks =>
      cases n with
      | zero => exact ⟨h.calls, iff_of_false h.left.exit_ne h.right.exit_ne⟩
      | succ n =>
          rw [feed_succ, feed_succ, feedStep_of_idle h.left (h.chunks.trans hchunks),
            feedStep_of_idle h.right hchunks, h.calls, h.env]
          exact ⟨rfl, Iff.rfl⟩

theorem Feed.Alike.callAt_iff {f g : Feed σ} (h : f.Alike g) (i : Nat) (call : Call) :
    CallAt order codec handle f i call ↔ CallAt order codec handle g i call :=
  exists_congr fun n => by rw [(h.feed_eq n).1]

theorem Feed.Alike.throws_iff {f g : Feed σ} (h : f.Alike g) :
    Throws order codec handle f ↔ Throws order codec handle g :=
  exists_congr fun n => (h.feed_eq n).2

/-- The run from `f` is over after some steps, with these requests handed on,
and with an exception exactly if `thrown` holds. -/
def ComesTo (order : ByteOrder) (codec : HeaderCodec) (handle : σ → Call → σ) (f : Feed σ)
    (calls : List Call) (thrown : Prop) : Prop :=
  ∃ N g, feed order codec handle N f = g ∧ g.Over ∧ g.scan.calls = calls ∧
    (g.scan.exit = some .outOfRange ↔ thrown)

theorem ComesTo.of_feed {f g : Feed σ} {N : Nat} {calls : List Call} {thrown : Prop}
    (hreach : feed order codec handle N f = g) (h : ComesTo order codec handle g calls thrown) :
    ComesTo order codec handle f calls thrown := by
  obtain ⟨M, last, hlast, hover⟩ := h
  exact ⟨N + M, last, by rw [feed_add, hreach, hlast], hover⟩

theorem ComesTo.callAt_iff {f : Feed σ} {calls : List Call} {thrown : Prop}
    (h : ComesTo order codec handle f calls thrown) (i : Nat) (call : Call) :
    CallAt order codec handle f i call ↔ calls[i]? = some call := by
  obtain ⟨N, g, hreach, hover, rfl, _⟩ := h
  exact callAt_iff_of_over hreach hover i call

theorem ComesTo.throws_iff {f : Feed σ} {calls : List Call} {thrown : Prop}
    (h : ComesTo order codec handle f calls thrown) :
    Throws order codec handle f ↔ thrown := by
  obtain ⟨N, g, hreach, hover, _, hthrown⟩ := h
  exact (throws_iff_of_over hreach hover).trans hthrown

theorem ComesTo.sameOutcome {f g : Feed σ} {calls : List Call} {thrown : Prop}
    (hf : ComesTo order codec handle f calls thrown)
    (hg : ComesTo order codec handle g calls thrown) : SameOutcome order codec handle f g :=
  ⟨fun i call => (hf.callAt_iff i call).trans (hg.callAt_iff i call).symm,
    hf.throws_iff.trans hg.throws_iff.symm⟩

theorem CallAt.of_feed {f g : Feed σ} {N i : Nat} {call : Call}
    (hreach : feed order codec handle N f = g) (h : CallAt order codec handle g i call) :
    CallAt order codec handle f i call := by
  obtain ⟨n, hn⟩ := h
  exact ⟨N + n, by rw [feed_add, hreach, hn]⟩

theorem Throws.of_feed {f g : Feed σ} {N : Nat} (hreach : feed order codec handle N f = g)
    (h : Throws order codec handle f) : Throws order codec handle g := by
  obtain ⟨n, hn⟩ := h
  refine ⟨n, ?_⟩
  rw [← hreach, ← feed_add, Nat.add_comm, feed_add, feed_of_over (.inl hn), hn]

/-! ## Streams that throw at once -/

theorem Hopeless.comesTo {f : Feed σ} (hidle : f.Idle)
    (h : Hopeless order codec f.chunks.flatten) :
    ComesTo order codec handle f f.scan.calls True := by
  generalize hcut : f.chunks = cut at h
  induction cut generalizing f with
  | nil =>
      obtain ⟨hne, _⟩ := h
      exact absurd rfl hne
  | cons chunk chunks ih =>
      by_cases hnil : chunk = []
      · -- An empty chunk passes without effect.
        subst hnil
        exact .of_feed (feed_first_nil hidle hcut) (ih (.inl rfl) rfl h)
      obtain ⟨_, hover, hrefused, hrest⟩ := h
      rw [List.flatten_cons] at hover hrefused hrest
      by_cases hthrow : Overrun order codec chunk
      · obtain ⟨g, hreach, hexit, _, hcalls, _⟩ := feed_first_exit handle hidle hcut
          hnil (overrun_iff.mpr hthrow)
        exact ⟨2, g, hreach, .inl hexit, hcalls, iff_of_true hexit trivial⟩
      have hlt : chunk.length < (chunk ++ chunks.flatten).length := by
        rw [List.length_append, Nat.lt_add_right_iff_pos, List.length_pos_iff]
        intro hempty
        rw [hempty, List.append_nil] at hover
        exact hthrow hover
      have hpos := List.length_pos_iff.mpr hnil
      specialize hrefused chunk.length hpos hlt
      specialize hrest chunk.length hpos hlt
      rw [List.take_left] at hrefused hrest
      rw [List.drop_left] at hrest
      obtain ⟨g, hreach, hexit, hchunks, hcalls, _⟩ := feed_first_exit handle hidle
        hcut hnil (refused_iff.mpr (hrefused hthrow))
      apply ComesTo.of_feed hreach
      rw [← hcalls]
      exact ih (.inr hexit) hchunks (hrest hthrow)

def Doomed (order : ByteOrder) (codec : HeaderCodec) (handle : σ → Call → σ) (env : σ)
    (xs : Bytes) : Prop :=
  ∀ cut : List Bytes, cut.flatten = xs →
    Throws order codec handle (.start cut env) ∧
      ∀ i call, ¬ CallAt order codec handle (.start cut env) i call

/-- On a doomed stream the first call throws or, when it was given a part of
the stream only, returns after a rejected header. -/
theorem Doomed.first {env : σ} {chunk : Bytes} (rest : Bytes) (hne : chunk ≠ [])
    (h : Doomed order codec handle env (chunk ++ rest)) :
    Overrun order codec chunk ∨
      Refused order codec chunk ∧ Doomed order codec handle env rest := by
  rcases hround : decodeRound order codec chunk 0 with ⟨copies, verdict⟩
  have hround : (decodeRound order codec chunk 0).2 = verdict := by rw [hround]
  cases verdict with
  | request head argsStr len =>
      obtain ⟨g, hreach, hcalls, _⟩ := feed_first_request handle (f := .start [chunk, rest] env)
        (Feed.start_idle _ _) rfl hne hround
      have hcall : CallAt order codec handle (.start [chunk, rest] env) 0 (head, argsStr) :=
        ⟨2, by rw [hreach, hcalls]; rfl⟩
      exact absurd hcall ((h [chunk, rest] (by simp)).2 0 (head, argsStr))
  | exit e =>
      cases e with
      | finished => exact absurd hround first_ne_finished
      | outOfRange => exact .inl (overrun_iff.mp hround)
      | headerRejected =>
          refine .inr ⟨refused_iff.mp hround, fun cut hcut => ?_⟩
          obtain ⟨hthrows, hcalls⟩ := h (chunk :: cut) (by rw [List.flatten_cons, hcut])
          obtain ⟨g, hreach, hexit, hchunks, hgcalls, henv⟩ := feed_first_exit handle
            (f := .start (chunk :: cut) env) (Feed.start_idle _ _) rfl hne hround
          have halike : g.Alike (.start cut env) :=
            ⟨.inr hexit, Feed.start_idle _ _, hchunks, hgcalls, henv⟩
          refine ⟨halike.throws_iff.mp (hthrows.of_feed hreach), fun i call hcall => ?_⟩
          exact hcalls i call (CallAt.of_feed hreach ((halike.callAt_iff i call).mpr hcall))

theorem Doomed.hopeless {env : σ} {xs : Bytes} (h : Doomed order codec handle env xs)
    (hne : xs ≠ []) : Hopeless order codec xs := by
  induction hn : xs.length using Nat.strongRecOn generalizing xs with
  | ind n ih =>
      have hover : Overrun order codec xs := by
        -- The whole stream as one chunk: with a rejected header nothing throws.
        rcases Doomed.first [] hne (by rwa [List.append_nil]) with hover | ⟨_, hrest⟩
        · exact hover
        · obtain ⟨m, hm⟩ := (hrest [] rfl).1
          rw [feed_of_over (.inr ⟨Feed.start_idle _ _, rfl⟩)] at hm
          exact absurd hm (Feed.start_idle _ _).exit_ne
      have hsplit : ∀ k, 0 < k → k < xs.length → ¬ Overrun order codec (xs.take k) →
          Refused order codec (xs.take k) ∧ Doomed order codec handle env (xs.drop k) := by
        intro k hpos hlt hquiet
        have hprefix : xs.take k ≠ [] := by
          rw [← List.length_pos_iff, List.length_take]
          omega
        exact (Doomed.first _ hprefix (by rwa [List.take_append_drop])).resolve_left hquiet
      refine .intro hne hover (fun k hpos hlt hquiet => (hsplit k hpos hlt hquiet).1)
        (fun k hpos hlt hquiet => ?_)
      have hdrop : (xs.drop k).length < n := by
        rw [List.length_drop]
        omega
      have hrest : xs.drop k ≠ [] := by
        rw [← List.length_pos_iff, List.length_drop]
        omega
      exact ih _ hdrop (hsplit k hpos hlt hquiet).2 hrest rfl

/-! ## Cuts between frames -/

/-- A run over chunks that end where a frame ends: the complete frames are
handed on, and then what `residue` says of the bytes behind them. -/
theorem comesTo_of_splits {f : Feed σ} {xs tail : Bytes} {calls : List Call}
    (hidle : f.Idle) (hflat : f.chunks.flatten = xs)
    (hsplit : (requestStream order codec).Splits xs calls tail)
    (hstuck : readFrame order codec tail = none)
    (hfits : xs.length - tail.length + announced order codec tail < 2 ^ 32)
    (hwhole : ∀ c ∈ f.chunks.dropLast, (requestStream order codec).Whole c) :
    ComesTo order codec handle f (f.scan.calls ++ (calls ++ (residue order codec tail).1))
      ((residue order codec tail).2 = .outOfRange) := by
  subst hflat
  generalize hcut : f.chunks = cut at hsplit hfits hwhole
  induction cut generalizing f calls with
  | nil =>
      obtain ⟨rfl, rfl⟩ := hsplit.stuck_unique hstuck (.done _)
        (requestStream order codec).next_nil
      exact ⟨0, f, rfl, .inr ⟨hidle, hcut⟩, by simp [residue],
        iff_of_false hidle.exit_ne (by simp [residue])⟩
  | cons chunk chunks ih =>
      cases chunks with
      | nil =>
          rw [List.flatten_cons, List.flatten_nil, List.append_nil] at hsplit hfits
          obtain ⟨s, hends, hexit, hcalls, _⟩ := endsAs_splits handle hsplit hstuck
            (Scan.start_at chunk f.scan.calls f.scan.env) hfits
          obtain ⟨N, hreach⟩ := feed_chunk hidle hcut hends
          refine ⟨N, _, hreach, ?_, hcalls, by rw [hexit]; exact Option.some_inj⟩
          cases hlast : (residue order codec tail).2 with
          | finished => exact .inr ⟨.inl (by rw [hexit, hlast]), rfl⟩
          | headerRejected => exact .inr ⟨.inr (by rw [hexit, hlast]), rfl⟩
          | outOfRange => exact .inl (by rw [hexit, hlast])
      | cons next chunks =>
          obtain ⟨items, hitems⟩ := hwhole chunk (by simp)
          rw [List.flatten_cons] at hsplit hfits
          obtain ⟨more, rfl, hmore⟩ :=
            hsplit.prefix_of_stuck hstuck (hitems.append (next :: chunks).flatten)
          have htail := hmore.length_tail_le
          rw [List.nil_append] at hmore htail
          rw [List.length_append] at hfits
          obtain ⟨s, hends, hexit, hcalls, _⟩ := endsAs_splits handle hitems
            (requestStream order codec).next_nil (Scan.start_at chunk f.scan.calls f.scan.env)
            (by simp only [announced, List.length_nil, if_pos]; omega)
          obtain ⟨N, hreach⟩ := feed_chunk hidle hcut hends
          have hrest := ih (f := { chunks := next :: chunks, data := chunk, scan := s })
            (.inl (by simpa [residue] using hexit)) rfl hmore (by omega)
            (fun c hc => hwhole c (by simp [List.dropLast_cons_of_ne_nil, hc]))
          simp only [residue, if_pos, List.append_nil] at hcalls
          rw [hcalls, Scan.start, List.append_assoc, ← List.append_assoc items] at hrest
          exact .of_feed hreach hrest

theorem comesTo_of_flatten_nil {cut : List Bytes} (env : σ) (hcut : cut.flatten = []) :
    ComesTo order codec handle (.start cut env) [] False := by
  have hwhole : ∀ c ∈ cut.dropLast, (requestStream order codec).Whole c := by
    intro c hc
    rw [List.flatten_eq_nil_iff.mp hcut c ((List.dropLast_sublist cut).subset hc)]
    exact ⟨[], .done []⟩
  have hidle : (Feed.start cut env).Idle := Feed.start_idle cut env
  have h : ComesTo order codec handle (.start cut env) _ _ := comesTo_of_splits hidle
    hcut (.done []) (requestStream order codec).next_nil (by simp [announced]) hwhole
  simpa [residue, Feed.start, Scan.start] using h

variable (order codec handle) in
theorem comesTo_of_first_byte {xs : Bytes} (env : σ) (hne : xs ≠ []) :
    ComesTo order codec handle (.start [xs.take 1, xs.drop 1] env) [] True := by
  have hpos := List.length_pos_iff.mpr hne
  have hover : Overrun order codec (xs.take 1) := .inl (by rw [List.length_take]; omega)
  obtain ⟨g, hreach, hexit, _, hcalls, _⟩ := feed_first_exit handle
    (f := .start [xs.take 1, xs.drop 1] env) (Feed.start_idle _ _) rfl
    (by rw [← List.length_pos_iff, List.length_take]; omega) (overrun_iff.mpr hover)
  exact ⟨2, g, hreach, .inl hexit, hcalls, iff_of_true hexit trivial⟩

/-- Cuts that agree. All cuts of a stream come to the same exactly if it is
empty or hopeless; and two cuts of any stream come to the same when every chunk
but the last ends where a frame ends, the cursor being able to hold the end of
what is announced last. -/
theorem sameOutcome_of_cuts (env : σ) (xs : Bytes) :
    ((∀ cut₁ cut₂ : List Bytes, cut₁.flatten = xs → cut₂.flatten = xs →
        SameOutcome order codec handle (.start cut₁ env) (.start cut₂ env)) ↔
      xs = [] ∨ Hopeless order codec xs) ∧
    ∀ calls tail, (requestStream order codec).Splits xs calls tail →
      readFrame order codec tail = none →
      xs.length - tail.length + announced order codec tail < 2 ^ 32 →
      ∀ cut₁ cut₂ : List Bytes, cut₁.flatten = xs → cut₂.flatten = xs →
        (∀ c ∈ cut₁.dropLast ++ cut₂.dropLast, (requestStream order codec).Whole c) →
        SameOutcome order codec handle (.start cut₁ env) (.start cut₂ env) := by
  refine ⟨⟨fun hsame => ?_, ?_⟩, ?_⟩
  · by_cases hne : xs = []
    · exact .inl hne
    · right
      have hfirst := comesTo_of_first_byte order codec handle env hne
      have hdoomed : Doomed order codec handle env xs := by
        intro cut hcut
        obtain ⟨hcalls, hthrows⟩ := hsame cut [xs.take 1, xs.drop 1] hcut
          (by rw [List.flatten_cons, List.flatten_singleton, List.take_append_drop])
        refine ⟨hthrows.mpr (hfirst.throws_iff.mpr trivial), fun i call hcall => ?_⟩
        have hnone := (hfirst.callAt_iff i call).mp ((hcalls i call).mp hcall)
        simp at hnone
      exact hdoomed.hopeless hne
  · rintro (rfl | hhopeless) cut₁ cut₂ hcut₁ hcut₂
    · exact (comesTo_of_flatten_nil env hcut₁).sameOutcome (comesTo_of_flatten_nil env hcut₂)
    · have hcut : ∀ cut : List Bytes, cut.flatten = xs →
          ComesTo order codec handle (.start cut env) [] True := fun cut hcut =>
        Hopeless.comesTo (f := .start cut env) (Feed.start_idle _ _)
          (by rw [← hcut] at hhopeless; exact hhopeless)
      exact (hcut cut₁ hcut₁).sameOutcome (hcut cut₂ hcut₂)
  · intro calls tail hsplit hstuck hfits cut₁ cut₂ hcut₁ hcut₂ hwhole
    have hcut : ∀ cut : List Bytes, cut.flatten = xs →
        (∀ c ∈ cut.dropLast, (requestStream order codec).Whole c) →
        ComesTo order codec handle (.start cut env) (calls ++ (residue order codec tail).1)
          ((residue order codec tail).2 = .outOfRange) := by
      intro cut hcut hwhole
      exact comesTo_of_splits (f := .start cut env) (Feed.start_idle _ _) hcut hsplit hstuck
        hfits hwhole
    exact (hcut cut₁ hcut₁ fun c hc => hwhole c (List.mem_append_left _ hc)).sameOutcome
      (hcut cut₂ hcut₂ fun c hc => hwhole c (List.mem_append_right _ hc))

/-- The frame in one chunk is handed on, and with its first byte alone in a
chunk of its own an exception escapes. -/
theorem not_sameOutcome_loginFrame :
    ¬ SameOutcome .little wireHeader (fun (n : Nat) _ => n + 1)
      (.start [loginFrame] 0) (.start [loginFrame.take 1, loginFrame.drop 1] 0) := by
  rintro ⟨_, hthrows⟩
  have hexit : (feed .little wireHeader (fun (n : Nat) _ => n + 1) 3
      (.start [loginFrame] 0)).scan.exit = some .finished := by decide
  have hthrown := (throws_iff_of_over rfl (.inr ⟨.inl hexit, rfl⟩)).mp (hthrows.mpr ⟨2, rfl⟩)
  rw [hexit] at hthrown
  cases hthrown

end KitRpc.Provider

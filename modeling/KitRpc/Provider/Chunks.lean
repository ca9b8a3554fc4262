import KitRpc.Provider.Frames
import Mathlib.Data.Nat.Find
/-!
# A connection cut into chunks

`onMessage` runs once for each chunk that arrives and keeps nothing from one
call to the next. A run over the chunks of a connection is a step function on
`Feed`; an exception that escapes `onMessage` ends it.
-/

namespace KitRpc.Provider

open KitRpc.Cpp KitRpc.Muduo KitRpc.Proto

/-- A connection: the chunks still to arrive, the string the current call took
out of the buffer, and its loop. -/
structure Feed (σ : Type) where
  chunks : List Bytes
  data : Bytes
  scan : Scan σ

def Feed.start {σ : Type} (chunks : List Bytes) (env : σ) : Feed σ :=
  { chunks, data := [], scan := { Scan.start [] env with exit := some .finished } }

section

variable (order : ByteOrder) (codec : HeaderCodec) {σ : Type} (handle : σ → Call → σ)

/-- A pass of the current call, or the next chunk once that call has returned. -/
def feedStep (f : Feed σ) : Feed σ :=
  match f.scan.exit with
  | none => { f with scan := round order codec handle f.data f.scan }
  | some .outOfRange => f
  | some _ =>
    match f.chunks with
    | [] => f
    | chunk :: chunks =>
      { chunks
        data := (retrieveAllAsString chunk).1
        scan := .start f.scan.calls f.scan.env }

def feed (n : Nat) (f : Feed σ) : Feed σ := (feedStep order codec handle)^[n] f

def CallAt (f : Feed σ) (i : Nat) (call : Call) : Prop :=
  ∃ n, (feed order codec handle n f).scan.calls[i]? = some call

def Throws (f : Feed σ) : Prop :=
  ∃ n, (feed order codec handle n f).scan.exit = some .outOfRange

/-- The same requests are handed on in the two runs, and an exception escapes
in both or in neither. -/
def SameOutcome (f g : Feed σ) : Prop :=
  (∀ i call, CallAt order codec handle f i call ↔ CallAt order codec handle g i call) ∧
    (Throws order codec handle f ↔ Throws order codec handle g)

end

variable {order : ByteOrder} {codec : HeaderCodec} {σ : Type} {handle : σ → Call → σ}

/-! ## Steps of a run -/

def Feed.Idle (f : Feed σ) : Prop :=
  f.scan.exit = some .finished ∨ f.scan.exit = some .headerRejected

def Feed.Over (f : Feed σ) : Prop :=
  f.scan.exit = some .outOfRange ∨ f.Idle ∧ f.chunks = []

instance (f : Feed σ) : Decidable f.Idle :=
  inferInstanceAs (Decidable (_ ∨ _))

instance (f : Feed σ) : Decidable f.Over :=
  inferInstanceAs (Decidable (_ ∨ _))

theorem Feed.start_idle (chunks : List Bytes) (env : σ) : (Feed.start chunks env).Idle :=
  .inl rfl

theorem Feed.Idle.exit_ne {f : Feed σ} (h : f.Idle) : f.scan.exit ≠ some .outOfRange := by
  rcases h with h | h <;> simp [h]

theorem feedStep_of_running {f : Feed σ} (h : f.scan.exit = none) :
    feedStep order codec handle f =
      { f with scan := round order codec handle f.data f.scan } := by
  rw [feedStep, h]

theorem feedStep_of_idle {f : Feed σ} {chunk : Bytes} {chunks : List Bytes} (h : f.Idle)
    (hchunks : f.chunks = chunk :: chunks) :
    feedStep order codec handle f =
      { chunks, data := chunk, scan := .start f.scan.calls f.scan.env } := by
  rcases h with h | h <;> simp only [feedStep, h, hchunks, retrieveAllAsString_eq]

theorem feedStep_of_over {f : Feed σ} (h : f.Over) : feedStep order codec handle f = f := by
  rcases h with h | ⟨h | h, hchunks⟩
  · simp only [feedStep, h]
  · simp only [feedStep, h, hchunks]
  · simp only [feedStep, h, hchunks]

theorem feed_succ (n : Nat) (f : Feed σ) :
    feed order codec handle (n + 1) f =
      feed order codec handle n (feedStep order codec handle f) := rfl

theorem feed_succ' (n : Nat) (f : Feed σ) :
    feed order codec handle (n + 1) f =
      feedStep order codec handle (feed order codec handle n f) :=
  Function.iterate_succ_apply' _ n f

theorem feed_add (m n : Nat) (f : Feed σ) :
    feed order codec handle (m + n) f =
      feed order codec handle n (feed order codec handle m f) := by
  rw [feed, Nat.add_comm, Function.iterate_add_apply]
  rfl

theorem feed_of_over {f : Feed σ} (h : f.Over) (n : Nat) :
    feed order codec handle n f = f :=
  Function.iterate_fixed (feedStep_of_over h) n

theorem feed_running {f : Feed σ} {n : Nat}
    (h : ∀ k < n, (onMessage order codec handle f.data k f.scan).exit = none) :
    feed order codec handle n f =
      { f with scan := onMessage order codec handle f.data n f.scan } := by
  induction n with
  | zero => rfl
  | succ n ih =>
      rw [feed_succ', ih fun k hk => h k (by omega), feedStep_of_running (h n (by omega)),
        onMessage_succ']

theorem feed_endsIn {f : Feed σ} {s : Scan σ}
    (h : EndsIn order codec handle f.data f.scan s) :
    ∃ n, feed order codec handle n f = { f with scan := s } := by
  have hleft : ∃ n, (onMessage order codec handle f.data n f.scan).exit ≠ none := by
    obtain ⟨hexit, n, rfl⟩ := h
    exact ⟨n, hexit⟩
  classical
  refine ⟨Nat.find hleft, ?_⟩
  have hlast : EndsIn order codec handle f.data f.scan
      (onMessage order codec handle f.data (Nat.find hleft) f.scan) :=
    ⟨Nat.find_spec hleft, _, rfl⟩
  rw [feed_running fun k hk => not_not.mp (Nat.find_min hleft hk), hlast.unique h]

theorem feed_chunk {f : Feed σ} {chunk : Bytes} {chunks : List Bytes} {s : Scan σ}
    (hidle : f.Idle) (hchunks : f.chunks = chunk :: chunks)
    (h : EndsIn order codec handle chunk (.start f.scan.calls f.scan.env) s) :
    ∃ n, feed order codec handle n f = { chunks, data := chunk, scan := s } := by
  obtain ⟨n, hn⟩ := feed_endsIn
    (f := { chunks, data := chunk, scan := .start f.scan.calls f.scan.env }) h
  exact ⟨n + 1, by rw [feed_succ, feedStep_of_idle hidle hchunks, hn]⟩

/-! ## The first pass of a call -/

theorem feed_first {f : Feed σ} {chunk : Bytes} {chunks : List Bytes} (hidle : f.Idle)
    (hchunks : f.chunks = chunk :: chunks) :
    feed order codec handle 2 f =
      { chunks, data := chunk,
        scan := round order codec handle chunk (.start f.scan.calls f.scan.env) } := by
  rw [feed_succ, feedStep_of_idle hidle hchunks, feed_succ, feedStep_of_running rfl]
  rfl

theorem feed_first_nil {f : Feed σ} {chunks : List Bytes} (hidle : f.Idle)
    (hchunks : f.chunks = [] :: chunks) :
    feed order codec handle 2 f =
      { chunks, data := [],
        scan := { Scan.start f.scan.calls f.scan.env with exit := some .finished } } := by
  rw [feed_first hidle hchunks, round_of_end order codec handle rfl (Nat.zero_le _)]

variable (handle) in
theorem feed_first_exit {f : Feed σ} {chunk : Bytes} {chunks : List Bytes} {e : Exit}
    (hidle : f.Idle) (hchunks : f.chunks = chunk :: chunks) (hne : chunk ≠ [])
    (h : (decodeRound order codec chunk 0).2 = .exit e) :
    ∃ g, feed order codec handle 2 f = g ∧ g.scan.exit = some e ∧ g.chunks = chunks ∧
      g.scan.calls = f.scan.calls ∧ g.scan.env = f.scan.env := by
  have hstep := round_of_exit handle (s := .start f.scan.calls f.scan.env) rfl
    (List.length_pos_iff.mpr hne) (Prod.ext rfl h)
  exact ⟨_, feed_first hidle hchunks, by rw [hstep], rfl, by rw [hstep]; rfl, by rw [hstep]; rfl⟩

variable (handle) in
theorem feed_first_request {f : Feed σ} {chunk argsStr : Bytes} {chunks : List Bytes}
    {head : RpcHeader} {len : UInt32} (hidle : f.Idle) (hchunks : f.chunks = chunk :: chunks)
    (hne : chunk ≠ []) (h : (decodeRound order codec chunk 0).2 = .request head argsStr len) :
    ∃ g, feed order codec handle 2 f = g ∧ g.scan.calls = f.scan.calls ++ [(head, argsStr)] ∧
      g.scan.env = handle f.scan.env (head, argsStr) := by
  have hstep := round_of_request handle (s := .start f.scan.calls f.scan.env) rfl
    (List.length_pos_iff.mpr hne) (Prod.ext rfl h)
  exact ⟨_, feed_first hidle hchunks, by rw [hstep]; rfl, by rw [hstep]; rfl⟩

/-! ## The environment -/

theorem round_env {P : σ → Prop} (hP : ∀ env call, P env → P (handle env call)) {data : Bytes}
    {s : Scan σ} (h : P s.env) : P (round order codec handle data s).env := by
  unfold round
  split
  · exact h
  · split
    · split
      split
      · exact h
      · exact hP _ _ h
    · exact h

theorem feedStep_env {P : σ → Prop} (hP : ∀ env call, P env → P (handle env call))
    {f : Feed σ} (h : P f.scan.env) : P (feedStep order codec handle f).scan.env := by
  unfold feedStep
  split
  · exact round_env hP h
  · exact h
  · split
    · exact h
    · exact h

/-- What `handle` preserves is preserved by a whole run. -/
theorem feed_env {P : σ → Prop} (hP : ∀ env call, P env → P (handle env call)) {f : Feed σ}
    (h : P f.scan.env) (n : Nat) : P (feed order codec handle n f).scan.env := by
  induction n with
  | zero => exact h
  | succ n ih =>
      rw [feed_succ']
      exact feedStep_env hP ih

/-! ## The outcome of a run that is over -/

theorem calls_prefix_round (data : Bytes) (s : Scan σ) :
    s.calls <+: (round order codec handle data s).calls := by
  unfold round
  split
  · exact List.prefix_refl _
  · split
    · split
      split
      · exact List.prefix_refl _
      · exact List.prefix_append _ _
    · exact List.prefix_refl _

theorem calls_prefix_feedStep (f : Feed σ) :
    f.scan.calls <+: (feedStep order codec handle f).scan.calls := by
  unfold feedStep
  split
  · exact calls_prefix_round f.data f.scan
  · exact List.prefix_refl _
  · split
    · exact List.prefix_refl _
    · exact List.prefix_refl _

variable (order codec handle) in
theorem calls_prefix_feed (n : Nat) (f : Feed σ) :
    f.scan.calls <+: (feed order codec handle n f).scan.calls := by
  induction n with
  | zero => exact List.prefix_refl _
  | succ n ih =>
      rw [feed_succ']
      exact ih.trans (calls_prefix_feedStep _)

theorem callAt_iff_of_over {f g : Feed σ} {N : Nat}
    (hreach : feed order codec handle N f = g) (hover : g.Over) (i : Nat) (call : Call) :
    CallAt order codec handle f i call ↔ g.scan.calls[i]? = some call := by
  constructor
  · rintro ⟨n, hn⟩
    have hprefix := calls_prefix_feed order codec handle N
      (feed order codec handle n f)
    rw [← feed_add, Nat.add_comm, feed_add, hreach, feed_of_over hover] at hprefix
    obtain ⟨later, hlater⟩ := hprefix
    obtain ⟨hlt, _⟩ := List.getElem?_eq_some_iff.mp hn
    rw [← hlater, List.getElem?_append_left hlt, hn]
  · intro h
    exact ⟨N, by rw [hreach, h]⟩

theorem throws_iff_of_over {f g : Feed σ} {N : Nat}
    (hreach : feed order codec handle N f = g) (hover : g.Over) :
    Throws order codec handle f ↔ g.scan.exit = some .outOfRange := by
  constructor
  · rintro ⟨n, hn⟩
    have hsame : feed order codec handle (n + N) f = g := by
      rw [Nat.add_comm, feed_add, hreach, feed_of_over hover]
    rw [feed_add, feed_of_over (.inl hn)] at hsame
    rw [← hsame, hn]
  · intro h
    exact ⟨N, by rw [hreach, h]⟩

end KitRpc.Provider

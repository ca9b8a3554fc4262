import KitRpc.Foundation.Simulation
import KitRpc.Foundation.Threads
import KitRpc.Provider.Exact
import KitRpc.Provider.Respond
/-!
# Many connections

The provider with all its connections. Each has an I/O thread that runs its
callbacks one after another and stays in `onMessage` until a method it calls has
returned; the threads run side by side, and so do the methods. Where connections
share a thread there are fewer orders. They share the dispatch table, which is
not written any more, and the fate of the process. What methods do to each other
is not known here: a return brings any response.
-/

namespace KitRpc.System

open KitRpc.Foundation KitRpc.Cpp KitRpc.Wire KitRpc.Muduo KitRpc.Proto KitRpc.Provider

/-! ## The server -/

structure Link (α ρ : Type) where
  conn : TcpConnection
  executing : Option (Invocation α ρ)

structure Server (ι α ρ : Type) where
  feeds : ι → Feed (Link α ρ)
  terminated : Bool

def Server.start {ι α ρ : Type} : Server ι α ρ :=
  { feeds := fun _ => .start [] { conn := .established, executing := none }, terminated := false }

/-- A method returns with the response it ran `done` for, if it did. A `done` that
is run later has kept a reference to a `TcpConnectionPtr` that is gone by then;
what it does is undefined, and there is no event for it. -/
inductive ServerEvent (ι μ : Type)
  | arrive (i : ι) (chunk : Bytes)
  | pass (i : ι)
  | ret (i : ι) (response : Option μ)
  | close (i : ι)
  deriving DecidableEq, Repr

def scanWithEnv {σ τ : Type} (s : Scan σ) (env : τ) : Scan τ :=
  { len := s.len, copies := s.copies, calls := s.calls, env, exit := s.exit }

def withEnv {σ τ : Type} (f : Feed σ) (env : τ) : Feed τ :=
  { chunks := f.chunks, data := f.data, scan := scanWithEnv f.scan env }

def push {σ : Type} (f : Feed σ) (chunk : Bytes) : Feed σ :=
  { f with chunks := f.chunks ++ [chunk] }

section

variable {α ρ μ κ ι : Type} [DecidableEq ι] (order : ByteOrder) (codec : HeaderCodec)
  (api : GPService α ρ μ κ) (servicesMap : ServicesMap α)

/-- The method that `handleRpcRequest` calls for a request, if it calls one. -/
def called (call : Call) : Option (Invocation α ρ) :=
  match dispatch api servicesMap call with
  | .invoked service method request => some ⟨service, method, request⟩
  | _ => none

/-- `handleRpcRequest` up to the call of the method. -/
def enter (link : Link α ρ) (call : Call) : Link α ρ :=
  { link with executing := called api servicesMap call }

def leave (link : Link α ρ) (response : Option μ) : Link α ρ :=
  { conn := response.elim link.conn (sendRpcResponse api link.conn), executing := none }

def serverStep (s : Server ι α ρ) : ServerEvent ι μ → Option (Server ι α ρ)
  | .arrive i chunk =>
      if s.terminated = false ∧ chunk ≠ [] ∧ (s.feeds i).scan.env.conn.state ≠ .kDisconnected then
        some { s with feeds := Function.update s.feeds i (push (s.feeds i) chunk) }
      else none
  | .pass i =>
      let f := s.feeds i
      if s.terminated = false ∧ f.scan.env.executing.isNone ∧ ¬ f.Over then
        let f := feedStep order codec (enter api servicesMap) f
        -- An exception that leaves a callback ends the process.
        some { feeds := Function.update s.feeds i f
               terminated := f.scan.exit = some .outOfRange }
      else none
  | .ret i response =>
      let f := s.feeds i
      if s.terminated = false ∧ f.scan.env.executing.isSome then
        some { s with
          feeds := Function.update s.feeds i (withEnv f (leave api f.scan.env response)) }
      else none
  | .close i =>
      let f := s.feeds i
      let link := f.scan.env
      if s.terminated = false ∧ f.Idle ∧ link.conn.state ≠ .kDisconnected then
        some { s with feeds := Function.update s.feeds i (withEnv f
                 { link with conn := { link.conn with state := .kDisconnected } }) }
      else none

end

def ServerEvent.connection {ι μ : Type} : ServerEvent ι μ → ι
  | arrive i _ | pass i | ret i _ | close i => i

section

variable {ι μ : Type} [DecidableEq ι] (i : ι) (events : List (ServerEvent ι μ))

def arrivals : List Bytes :=
  events.filterMap fun
    | .arrive j chunk => if j = i then some chunk else none
    | _ => none

/-- What the methods called for a connection returned with, in order. -/
def returns : List (Option μ) :=
  events.filterMap fun
    | .ret j response => if j = i then some response else none
    | _ => none

end

variable {α ρ μ κ ι : Type} [DecidableEq ι] {order : ByteOrder} {codec : HeaderCodec}
  {api : GPService α ρ μ κ} {servicesMap : ServicesMap α}

/-- Entering a method and leaving it with its response is `handleRpcRequest`. -/
theorem handleRpcRequest_conn (s : Serving κ) (call : Call) :
    (handleRpcRequest api servicesMap s call).conn =
      (called api servicesMap call).elim s.conn fun invocation =>
        let ⟨service, method, request⟩ := invocation
        (leave api ⟨s.conn, some invocation⟩
          (api.callMethod s.app service method request).2).conn := by
  unfold handleRpcRequest called
  cases dispatch api servicesMap call with
  | invoked service method request =>
      rcases hcall : api.callMethod s.app service method request with ⟨app, _ | response⟩ <;>
        simp [leave, hcall]
  | noService => rfl
  | noMethod => rfl
  | argsRejected => rfl

/-! ## Decoding does not depend on what it acts on -/

section

variable {σ τ : Type} {handle : σ → Call → σ}

@[simp] theorem withEnv_withEnv (f : Feed σ) (env : τ) {υ : Type} (env' : υ) :
    withEnv (withEnv f env) env' = withEnv f env' := rfl

@[simp] theorem withEnv_env (f : Feed σ) (env : τ) : (withEnv f env).scan.env = env := rfl

@[simp] theorem withEnv_push (f : Feed σ) (chunk : Bytes) (env : τ) :
    withEnv (push f chunk) env = push (withEnv f env) chunk := rfl

theorem withEnv_over {f : Feed σ} (env : τ) : (withEnv f env).Over ↔ f.Over := Iff.rfl

theorem scanWithEnv_round (data : Bytes) (s : Scan σ) :
    scanWithEnv (Provider.round order codec handle data s) () =
      Provider.round order codec (fun _ _ => ()) data (scanWithEnv s ()) := by
  cases hexit : s.exit with
  | some e =>
      have hexit' : (scanWithEnv s ()).exit = some e := hexit
      rw [round_of_left hexit, round_of_left hexit']
  | none =>
      have hexit' : (scanWithEnv s ()).exit = none := hexit
      by_cases hlt : s.len.toNat < data.length
      · rcases hround : decodeRound order codec data s.len with ⟨copies, e | ⟨head, argsStr, len⟩⟩
        · rw [round_of_exit handle hexit hlt hround, round_of_exit _ hexit' hlt hround]
          rfl
        · rw [round_of_request handle hexit hlt hround, round_of_request _ hexit' hlt hround]
          rfl
      · have hend := Nat.le_of_not_lt hlt
        rw [round_of_end order codec handle hexit hend, round_of_end order codec _ hexit' hend]
        rfl

theorem running_or_chunk {f : Feed σ} (h : ¬ f.Over) :
    f.scan.exit = none ∨ f.Idle ∧ ∃ chunk chunks, f.chunks = chunk :: chunks := by
  rw [Feed.Over, not_or, not_and] at h
  rcases hexit : f.scan.exit with _ | e
  · exact .inl rfl
  · have hidle : f.Idle := by
      cases e with
      | finished => exact .inl hexit
      | headerRejected => exact .inr hexit
      | outOfRange => exact absurd hexit h.1
    exact .inr ⟨hidle, List.exists_cons_of_ne_nil (h.2 hidle)⟩

theorem withEnv_feedStep (f : Feed σ) :
    withEnv (feedStep order codec handle f) () =
      feedStep order codec (fun _ _ => ()) (withEnv f ()) := by
  by_cases hover : f.Over
  · rw [feedStep_of_over hover, feedStep_of_over ((withEnv_over ()).mpr hover)]
  · rcases running_or_chunk hover with hrun | ⟨hidle, chunk, chunks, hchunks⟩
    · have hrun' : (withEnv f ()).scan.exit = none := hrun
      rw [feedStep_of_running hrun, feedStep_of_running hrun']
      simp only [withEnv, scanWithEnv_round]
    · have hidle' : (withEnv f ()).Idle := hidle
      rw [feedStep_of_idle hidle hchunks, feedStep_of_idle hidle' hchunks]
      rfl

theorem round_calls (data : Bytes) (s : Scan σ) :
    let s' := Provider.round order codec handle data s
    s'.calls = s.calls ∧ s'.env = s.env ∨
      ∃ call, s'.calls = s.calls ++ [call] ∧ s'.env = handle s.env call := by
  unfold Provider.round
  split
  · exact .inl ⟨rfl, rfl⟩
  · split
    · rcases decodeRound order codec data s.len with ⟨copies, e | ⟨head, argsStr, len⟩⟩
      · exact .inl ⟨rfl, rfl⟩
      · exact .inr ⟨(head, argsStr), rfl, rfl⟩
    · exact .inl ⟨rfl, rfl⟩

variable (order codec handle) in
theorem feedStep_calls (f : Feed σ) :
    let f' := feedStep order codec handle f
    f'.scan.calls = f.scan.calls ∧ f'.scan.env = f.scan.env ∨
      ∃ call, f'.scan.calls = f.scan.calls ++ [call] ∧ f'.scan.env = handle f.scan.env call := by
  unfold feedStep
  split
  · exact round_calls f.data f.scan
  · exact .inl ⟨rfl, rfl⟩
  · split
    · exact .inl ⟨rfl, rfl⟩
    · exact .inl ⟨rfl, rfl⟩

theorem feedStep_push {f : Feed σ} (h : ¬ f.Over) (chunk : Bytes) :
    feedStep order codec handle (push f chunk) = push (feedStep order codec handle f) chunk := by
  rcases running_or_chunk h with hrun | ⟨hidle, first, chunks, hchunks⟩
  · have hrun' : (push f chunk).scan.exit = none := hrun
    rw [feedStep_of_running hrun, feedStep_of_running hrun']
    rfl
  · have hidle' : (push f chunk).Idle := hidle
    have hchunks' : (push f chunk).chunks = first :: (chunks ++ [chunk]) := by
      simp [push, hchunks]
    rw [feedStep_of_idle hidle hchunks, feedStep_of_idle hidle' hchunks']
    rfl

end

/-! ## A connection alone -/

/-- `f` is a connection alone on its way through `chunks`, no step of which was
idle. -/
def Follows (order : ByteOrder) (codec : HeaderCodec) (chunks : List Bytes) (f : Feed Unit) :
    Prop :=
  ∃ n, feed order codec (fun _ _ => ()) n (.start chunks ()) = f ∧
    ∀ k < n, ¬ (feed order codec (fun _ _ => ()) k (.start chunks ())).Over

namespace Follows

variable {chunks : List Bytes} {f : Feed Unit}

theorem start : Follows order codec [] (.start [] ()) :=
  ⟨0, rfl, fun _ hk => absurd hk (Nat.not_lt_zero _)⟩

theorem step (h : Follows order codec chunks f) (hover : ¬ f.Over) :
    Follows order codec chunks (feedStep order codec (fun _ _ => ()) f) := by
  obtain ⟨n, rfl, hbusy⟩ := h
  refine ⟨n + 1, feed_succ' n _, fun k hk => ?_⟩
  rcases Nat.lt_succ_iff_lt_or_eq.mp hk with hlt | rfl
  · exact hbusy k hlt
  · exact hover

theorem feed_push {f : Feed Unit} {n : Nat} (chunk : Bytes)
    (h : ∀ k < n, ¬ (feed order codec (fun _ _ => ()) k f).Over) :
    feed order codec (fun _ _ => ()) n (push f chunk) =
      push (feed order codec (fun _ _ => ()) n f) chunk := by
  induction n with
  | zero => rfl
  | succ n ih =>
      rw [feed_succ', feed_succ', ih fun k hk => h k (by omega),
        feedStep_push (h n (by omega))]

/-- A chunk that arrives later could as well have been there from the start. -/
theorem push (h : Follows order codec chunks f) (chunk : Bytes) :
    Follows order codec (chunks ++ [chunk]) (System.push f chunk) := by
  obtain ⟨n, rfl, hbusy⟩ := h
  have hfeed {k : Nat} (hk : k ≤ n) := feed_push (n := k) chunk fun j hj => hbusy j (by omega)
  refine ⟨n, hfeed (Nat.le_refl n), fun k hk hover => hbusy k hk ?_⟩
  change (feed order codec (fun _ _ => ()) k (System.push (.start chunks ()) chunk)).Over at hover
  rw [hfeed hk.le] at hover
  exact hover.imp_right fun hdone => by simp [System.push] at hdone

end Follows

theorem arrivals_concat (i : ι) (past : List (ServerEvent ι μ)) (a : ServerEvent ι μ) :
    arrivals i (past ++ [a]) = arrivals i past ++ arrivals i [a] :=
  List.filterMap_append

theorem returns_concat (i : ι) (past : List (ServerEvent ι μ)) (a : ServerEvent ι μ) :
    returns i (past ++ [a]) = returns i past ++ returns i [a] :=
  List.filterMap_append

theorem nothing_other {i : ι} {a : ServerEvent ι μ} (h : a.connection ≠ i) :
    arrivals i [a] = [] ∧ returns i [a] = [] := by
  cases a with
  | arrive j chunk => simp [arrivals, returns, show j ≠ i from h]
  | pass j => exact ⟨rfl, rfl⟩
  | ret j response => simp [arrivals, returns, show j ≠ i from h]
  | close j => exact ⟨rfl, rfl⟩

/-! ## What a step does -/

section

variable {past : List (ServerEvent ι μ)} {s s' : Server ι α ρ} {a : ServerEvent ι μ}

inductive Moved (order : ByteOrder) (codec : HeaderCodec) (api : GPService α ρ μ κ)
    (servicesMap : ServicesMap α) (s : Server ι α ρ) (i : ι) :
    ServerEvent ι μ → Feed (Link α ρ) → Prop
  | arrive (chunk : Bytes) :
      Moved order codec api servicesMap s i (.arrive i chunk) (push (s.feeds i) chunk)
  | pass : (s.feeds i).scan.env.executing = none → ¬ (s.feeds i).Over →
      Moved order codec api servicesMap s i (.pass i)
        (feedStep order codec (enter api servicesMap) (s.feeds i))
  | ret (invocation : Invocation α ρ) (response : Option μ) :
      (s.feeds i).scan.env.executing = some invocation →
      Moved order codec api servicesMap s i (.ret i response)
        (withEnv (s.feeds i) (leave api (s.feeds i).scan.env response))
  | close (link : Link α ρ) : link.executing = (s.feeds i).scan.env.executing →
      link.conn = { (s.feeds i).scan.env.conn with state := .kDisconnected } →
      Moved order codec api servicesMap s i (.close i) (withEnv (s.feeds i) link)
  | other {a : ServerEvent ι μ} : a.connection ≠ i →
      Moved order codec api servicesMap s i a (s.feeds i)

theorem moved_update {j : ι} {f : Feed (Link α ρ)} (ha : a.connection = j)
    (h : Moved order codec api servicesMap s j a f) (i : ι) :
    Moved order codec api servicesMap s i a (Function.update s.feeds j f i) := by
  by_cases hij : i = j
  · subst hij
    rwa [Function.update_self]
  · rw [Function.update_of_ne hij]
    exact .other (ha ▸ Ne.symm hij)

/-- Inversion: what a step does to every connection, and that only a pass ends the
process. -/
theorem serverStep_cases
    (h : serverStep order codec api servicesMap s a = some s') :
    s.terminated = false ∧
      (∀ i, Moved order codec api servicesMap s i a (s'.feeds i)) ∧
      (s'.terminated = false ∧ (∀ j, a ≠ .pass j) ∨
        ∃ j, a = .pass j ∧ s'.terminated = decide ((s'.feeds j).scan.exit = some .outOfRange)) := by
  cases a with
  | arrive j chunk =>
      simp only [serverStep, Option.ite_none_right_eq_some, Option.some.injEq] at h
      obtain ⟨⟨hrunning, _⟩, rfl⟩ := h
      exact ⟨hrunning, moved_update rfl (.arrive chunk), .inl ⟨hrunning, by simp⟩⟩
  | pass j =>
      simp only [serverStep, Option.ite_none_right_eq_some, Option.some.injEq] at h
      obtain ⟨⟨hrunning, hfree, hover⟩, rfl⟩ := h
      refine ⟨hrunning, moved_update rfl (.pass (Option.isNone_iff_eq_none.mp hfree) hover),
        .inr ⟨j, rfl, ?_⟩⟩
      simp
  | ret j response =>
      simp only [serverStep, Option.ite_none_right_eq_some, Option.some.injEq] at h
      obtain ⟨⟨hrunning, hbusy⟩, rfl⟩ := h
      obtain ⟨invocation, hbusy⟩ := Option.isSome_iff_exists.mp hbusy
      exact ⟨hrunning, moved_update rfl (.ret invocation response hbusy),
        .inl ⟨hrunning, by simp⟩⟩
  | close j =>
      simp only [serverStep, Option.ite_none_right_eq_some, Option.some.injEq] at h
      obtain ⟨⟨hrunning, _⟩, rfl⟩ := h
      exact ⟨hrunning, moved_update rfl (.close _ rfl rfl), .inl ⟨hrunning, by simp⟩⟩

/-! ## Invariants of all runs -/

/-- Every connection is where it would be alone with the chunks that arrived. -/
def Isolated (order : ByteOrder) (codec : HeaderCodec) (past : List (ServerEvent ι μ))
    (s : Server ι α ρ) : Prop :=
  ∀ i, Follows order codec (arrivals i past) (withEnv (s.feeds i) ())

theorem Isolated.step (h : Isolated order codec past s)
    (hstep : serverStep order codec api servicesMap s a = some s') :
    Isolated order codec (past ++ [a]) s' := by
  intro i
  have hmoved := (serverStep_cases hstep).2.1 i
  rw [arrivals_concat]
  generalize s'.feeds i = f at hmoved ⊢
  cases hmoved with
  | arrive chunk =>
      rw [withEnv_push]
      simpa [arrivals] using (h i).push chunk
  | pass hfree hover =>
      rw [withEnv_feedStep]
      simpa [arrivals] using (h i).step ((withEnv_over ()).not.mpr hover)
  | ret invocation response hbusy =>
      simpa [arrivals] using h i
  | close link hexecuting hlink =>
      simpa [arrivals] using h i
  | other hne =>
      rw [(nothing_other hne).1, List.append_nil]
      exact h i

/-- The methods called for a connection, in the order of its requests. -/
def calledFor (api : GPService α ρ μ κ) (servicesMap : ServicesMap α) (f : Feed (Link α ρ)) :
    List (Invocation α ρ) :=
  f.scan.calls.filterMap (called api servicesMap)

@[simp] theorem withEnv_calledFor (f : Feed (Link α ρ)) (link : Link α ρ) :
    calledFor api servicesMap (withEnv f link) = calledFor api servicesMap f := rfl

variable (order codec api servicesMap) in
theorem feedStep_calledFor {f : Feed (Link α ρ)} (hfree : f.scan.env.executing = none) :
    let f' := feedStep order codec (enter api servicesMap) f
    calledFor api servicesMap f' =
        calledFor api servicesMap f ++ f'.scan.env.executing.toList ∧
      f'.scan.env.conn = f.scan.env.conn := by
  intro f'
  rcases feedStep_calls order codec (enter api servicesMap) f with
    ⟨hcalls, henv⟩ | ⟨call, hcalls, henv⟩
  · rw [calledFor, hcalls, henv, hfree]
    simp [calledFor]
  · rw [calledFor, hcalls, henv, List.filterMap_append]
    refine ⟨?_, rfl⟩
    cases hcalled : called api servicesMap call <;> simp [calledFor, enter, hcalled]

/-- Of the methods called for a connection all have returned, but for the one it
is in. -/
def Paired (api : GPService α ρ μ κ) (servicesMap : ServicesMap α) (i : ι)
    (past : List (ServerEvent ι μ)) (f : Feed (Link α ρ)) : Prop :=
  ∃ finished : List (Invocation α ρ), finished.length = (returns i past).length ∧
    calledFor api servicesMap f = finished ++ f.scan.env.executing.toList

theorem Paired.step {i : ι} (h : Paired api servicesMap i past (s.feeds i))
    (hstep : serverStep order codec api servicesMap s a = some s') :
    Paired api servicesMap i (past ++ [a]) (s'.feeds i) := by
  obtain ⟨finished, hlength, hcalled⟩ := h
  have hmoved := (serverStep_cases hstep).2.1 i
  rw [Paired, returns_concat]
  generalize s'.feeds i = f at hmoved ⊢
  cases hmoved with
  | arrive chunk => exact ⟨finished, by simpa [returns] using hlength, hcalled⟩
  | pass hfree hover =>
      refine ⟨finished, by simpa [returns] using hlength, ?_⟩
      rw [(feedStep_calledFor order codec api servicesMap hfree).1, hcalled, hfree]
      simp
  | ret invocation response hbusy =>
      refine ⟨finished ++ [invocation], by simp [returns, hlength], ?_⟩
      rw [withEnv_calledFor, hcalled, hbusy]
      simp [leave]
  | close link hexecuting hlink =>
      refine ⟨finished, by simpa [returns] using hlength, ?_⟩
      rw [withEnv_env, hexecuting]
      exact hcalled
  | other hne =>
      rw [(nothing_other hne).2, List.append_nil]
      exact ⟨finished, hlength, hcalled⟩

def Terminated (s : Server ι α ρ) : Prop :=
  s.terminated = true ↔ ∃ i, (s.feeds i).scan.exit = some .outOfRange

omit [DecidableEq ι] in
theorem Terminated.start : Terminated (.start : Server ι α ρ) := by
  constructor
  · intro hends
    cases hends
  · rintro ⟨i, hexit⟩
    cases hexit

omit [DecidableEq ι] in
theorem Moved.exit {i : ι} {f : Feed (Link α ρ)}
    (h : Moved order codec api servicesMap s i a f) :
    a = .pass i ∨ f.scan.exit = (s.feeds i).scan.exit := by
  cases h with
  | pass => exact .inl rfl
  | _ => exact .inr rfl

theorem Terminated.step (h : Terminated s)
    (hstep : serverStep order codec api servicesMap s a = some s') : Terminated s' := by
  obtain ⟨hrunning, hmoved, hrest⟩ := serverStep_cases hstep
  have hnone : ∀ i, (s.feeds i).scan.exit ≠ some .outOfRange := by
    intro i hexit
    rw [h.mpr ⟨i, hexit⟩] at hrunning
    cases hrunning
  rw [Terminated]
  rcases hrest with ⟨hstill, hpass⟩ | ⟨j, rfl, hends⟩
  · rw [hstill]
    constructor
    · intro hends
      cases hends
    · rintro ⟨i, hexit⟩
      have hsame := (hmoved i).exit.resolve_left (hpass i)
      exact absurd (hsame.symm.trans hexit) (hnone i)
  · rw [hends, decide_eq_true_iff]
    constructor
    · exact fun hexit => ⟨j, hexit⟩
    · rintro ⟨i, hexit⟩
      rcases (hmoved i).exit with hself | hsame
      · cases hself
        exact hexit
      · exact absurd (hsame.symm.trans hexit) (hnone i)

/-- The response of the method called for the `k`-th valid request of a connection,
where no method called before has given one. -/
def Own (api : GPService α ρ μ κ) (servicesMap : ServicesMap α) (i : ι)
    (past : List (ServerEvent ι μ)) (f : Feed (Link α ρ)) (response : μ) : Prop :=
  ∃ k, k < (calledFor api servicesMap f).length ∧
    (returns i past)[k]? = some (some response) ∧ ∀ r ∈ (returns i past).take k, r = none

/-- A connection is up until a method called for it gives a response. -/
structure Answered (api : GPService α ρ μ κ) (servicesMap : ServicesMap α) (i : ι)
    (past : List (ServerEvent ι μ)) (f : Feed (Link α ρ)) : Prop where
  silent : f.scan.env.conn.state = .kConnected → ∀ r ∈ returns i past, r = none
  response : OneResponse api (Own api servicesMap i past f) f.scan.env.conn

theorem Own.later {i : ι} {f f' : Feed (Link α ρ)} {response : μ}
    (h : Own api servicesMap i past f response)
    (hcalled : calledFor api servicesMap f <+: calledFor api servicesMap f') :
    Own api servicesMap i (past ++ [a]) f' response := by
  obtain ⟨k, hk, hreturn, hfirst⟩ := h
  have hlt : k < (returns i past).length := (List.getElem?_eq_some_iff.mp hreturn).1
  refine ⟨k, Nat.lt_of_lt_of_le hk hcalled.length_le, ?_, ?_⟩
  · rw [returns_concat, List.getElem?_append_left hlt, hreturn]
  · rw [returns_concat, List.take_append_of_le_length hlt.le]
    exact hfirst

theorem Paired.own {i : ι} {f : Feed (Link α ρ)} {invocation : Invocation α ρ} {response : μ}
    (h : Paired api servicesMap i past f) (hbusy : f.scan.env.executing = some invocation)
    (hsilent : ∀ r ∈ returns i past, r = none) {link : Link α ρ} :
    Own api servicesMap i (past ++ [.ret i (some response)]) (withEnv f link) response := by
  obtain ⟨finished, hlength, hcalled⟩ := h
  have hreturns : returns i (past ++ [.ret i (some response)]) =
      returns i past ++ [some response] := by
    rw [returns_concat]
    simp [returns]
  refine ⟨(returns i past).length, ?_, ?_, ?_⟩
  · change _ < (calledFor api servicesMap f).length
    rw [hcalled, hbusy, ← hlength]
    simp
  · simp [hreturns]
  · simpa [hreturns] using hsilent

theorem Answered.step {i : ι} (h : Answered api servicesMap i past (s.feeds i))
    (hpaired : Paired api servicesMap i past (s.feeds i))
    (hstep : serverStep order codec api servicesMap s a = some s') :
    Answered api servicesMap i (past ++ [a]) (s'.feeds i) := by
  have hmoved := (serverStep_cases hstep).2.1 i
  have hlater {f : Feed (Link α ρ)}
      (hcalled : calledFor api servicesMap (s.feeds i) <+: calledFor api servicesMap f) :
      OneResponse api (Own api servicesMap i (past ++ [a]) f) (s.feeds i).scan.env.conn :=
    h.response.mono fun _ hown => hown.later hcalled
  generalize s'.feeds i = f at hmoved ⊢
  cases hmoved with
  | arrive chunk =>
      refine ⟨fun hup => ?_, hlater (List.prefix_refl _)⟩
      simpa [returns_concat, returns] using h.silent hup
  | pass hfree hover =>
      obtain ⟨hcalled, hconn⟩ := feedStep_calledFor order codec api servicesMap hfree
      refine ⟨fun hup => ?_, ?_⟩
      · rw [hconn] at hup
        simpa [returns_concat, returns] using h.silent hup
      · rw [hconn]
        exact hlater (hcalled ▸ List.prefix_append _ _)
  | ret invocation response hbusy =>
      cases response with
      | none =>
          refine ⟨fun hup => ?_, hlater (List.prefix_refl _)⟩
          have hreturns : returns i [(.ret i none : ServerEvent ι μ)] = [none] := by
            simp [returns]
          rw [returns_concat, hreturns]
          exact List.forall_mem_append.mpr
            ⟨h.silent hup, List.forall_mem_singleton.mpr rfl⟩
      | some response =>
          refine ⟨fun hup => absurd hup (sendRpcResponse_not_connected _ _), ?_⟩
          change OneResponse api _ (sendRpcResponse api (s.feeds i).scan.env.conn response)
          by_cases hup : (s.feeds i).scan.env.conn.state = .kConnected
          · exact (hlater (List.prefix_refl _)).sendRpcResponse (hpaired.own hbusy (h.silent hup))
          · rw [sendRpcResponse_of_not_connected hup]
            exact hlater (List.prefix_refl _)
  | close link hexecuting hlink =>
      refine ⟨fun hup => ?_, ?_⟩
      · rw [withEnv_env, hlink] at hup
        cases hup
      · rw [withEnv_env, hlink]
        exact ⟨fun hup => by simp at hup, (hlater (List.prefix_refl _)).written⟩
  | other hne =>
      refine ⟨fun hup => ?_, hlater (List.prefix_refl _)⟩
      rw [returns_concat, (nothing_other hne).2, List.append_nil]
      exact h.silent hup

end

/-! ## Runs -/

section

variable {events : List (ServerEvent ι μ)} {s : Server ι α ρ}

theorem isolated_of_run
    (h : run (serverStep order codec api servicesMap) .start events = some s) :
    Isolated order codec events s :=
  run_history (I := Isolated order codec) (fun _ => .start) (fun _ _ _ _ => Isolated.step) h

theorem paired_of_run (h : run (serverStep order codec api servicesMap) .start events = some s) :
    ∀ i, Paired api servicesMap i events (s.feeds i) :=
  run_history (I := fun past s => ∀ i, Paired api servicesMap i past (s.feeds i))
    (fun _ => ⟨[], rfl, rfl⟩) (fun _ _ _ _ hpaired hstep i => (hpaired i).step hstep) h

/-- A step of a connection can be made, with the same effect on it, in any running
server where the connection is the same. -/
theorem serverStep_alone {s' t : Server ι α ρ} {a : ServerEvent ι μ}
    (hstep : serverStep order codec api servicesMap s a = some s')
    (hrunning : t.terminated = false) (hfeed : t.feeds a.connection = s.feeds a.connection) :
    ∃ t', serverStep order codec api servicesMap t a = some t' ∧
      t'.feeds a.connection = s'.feeds a.connection ∧ t'.terminated = s'.terminated := by
  have halive := (serverStep_cases hstep).1
  cases a with
  | arrive j chunk =>
      change t.feeds j = s.feeds j at hfeed
      simp only [serverStep, Option.ite_none_right_eq_some, Option.some.injEq] at hstep ⊢
      obtain ⟨⟨_, hguard⟩, rfl⟩ := hstep
      refine ⟨_, ⟨⟨hrunning, hfeed ▸ hguard⟩, rfl⟩, ?_, hrunning.trans halive.symm⟩
      simp [ServerEvent.connection, hfeed]
  | pass j =>
      change t.feeds j = s.feeds j at hfeed
      simp only [serverStep, Option.ite_none_right_eq_some, Option.some.injEq] at hstep ⊢
      obtain ⟨⟨_, hguard⟩, rfl⟩ := hstep
      refine ⟨_, ⟨⟨hrunning, hfeed ▸ hguard⟩, rfl⟩, ?_, ?_⟩
      · simp [ServerEvent.connection, hfeed]
      · simp [hfeed]
  | ret j response =>
      change t.feeds j = s.feeds j at hfeed
      simp only [serverStep, Option.ite_none_right_eq_some, Option.some.injEq] at hstep ⊢
      obtain ⟨⟨_, hguard⟩, rfl⟩ := hstep
      refine ⟨_, ⟨⟨hrunning, hfeed ▸ hguard⟩, rfl⟩, ?_, hrunning.trans halive.symm⟩
      simp [ServerEvent.connection, hfeed]
  | close j =>
      change t.feeds j = s.feeds j at hfeed
      simp only [serverStep, Option.ite_none_right_eq_some, Option.some.injEq] at hstep ⊢
      obtain ⟨⟨_, hguard⟩, rfl⟩ := hstep
      refine ⟨_, ⟨⟨hrunning, hfeed ▸ hguard⟩, rfl⟩, ?_, hrunning.trans halive.symm⟩
      simp [ServerEvent.connection, hfeed]

theorem run_alone (h : run (serverStep order codec api servicesMap) .start events = some s)
    (i : ι) :
    ∃ t, run (serverStep order codec api servicesMap) .start
        (events.filter fun a => a.connection = i) = some t ∧
      t.feeds i = s.feeds i ∧ (t.terminated = true → s.terminated = true) := by
  apply run_history (I := fun past (s : Server ι α ρ) =>
    ∃ t, run (serverStep order codec api servicesMap) .start
        (past.filter fun a => a.connection = i) = some t ∧
      t.feeds i = s.feeds i ∧ (t.terminated = true → s.terminated = true)) _ _ h
  · exact ⟨.start, rfl, rfl, id⟩
  · rintro past s a s' ⟨t, hrun, hfeed, hends⟩ hstep
    obtain ⟨halive, hmoved, _⟩ := serverStep_cases hstep
    have hrunning : t.terminated = false := by
      rw [← Bool.not_eq_true]
      intro hended
      rw [hends hended] at halive
      cases halive
    by_cases hself : a.connection = i
    · subst hself
      obtain ⟨t', hstep', hfeed', hended⟩ := serverStep_alone hstep hrunning hfeed
      refine ⟨t', ?_, hfeed', fun hend => hended ▸ hend⟩
      rw [List.filter_append, run, List.foldlM_append]
      change (run _ _ _).bind _ = _
      rw [hrun]
      simp [hstep']
    · have hsame : s'.feeds i = s.feeds i := by
        have hmoved := hmoved i
        generalize s'.feeds i = f at hmoved ⊢
        cases hmoved with
        | other => rfl
        | _ => exact absurd rfl hself
      refine ⟨t, ?_, hfeed.trans hsame.symm, fun hend => ?_⟩
      · simpa [List.filter_append, hself] using hrun
      · rw [hrunning] at hend
        cases hend

/-- However the callbacks and the methods of the connections overlap, a connection
is decoded as it would be alone with the chunks that arrived on it; the methods
called for it are those of its requests, in their order, all of which but the last
have returned; and its own events make a run that leaves it as it is. -/
theorem run_isolates
    (h : run (serverStep order codec api servicesMap) .start events = some s) (i : ι) :
    (∃ n, withEnv (s.feeds i) () =
        feed order codec (fun _ _ => ()) n (.start (arrivals i events) ())) ∧
      (∃ finished : List (Invocation α ρ), finished.length = (returns i events).length ∧
        (s.feeds i).scan.calls.filterMap (called api servicesMap) =
          finished ++ (s.feeds i).scan.env.executing.toList) ∧
      ∃ t, run (serverStep order codec api servicesMap) .start
          (events.filter fun a => a.connection = i) = some t ∧ t.feeds i = s.feeds i := by
  obtain ⟨n, hfeed, _⟩ := isolated_of_run h i
  obtain ⟨t, hrun, hsame, _⟩ := run_alone h i
  exact ⟨⟨n, hfeed.symm⟩, paired_of_run h i, t, hrun, hsame⟩

/-- Nothing but an exception on some connection ends the process, and it does:
once no loop can go on, the process has ended exactly if the chunks of one
connection would have made it throw alone. -/
theorem terminated_iff_throws
    (h : run (serverStep order codec api servicesMap) .start events = some s)
    (hdone : ∀ i, serverStep order codec api servicesMap s (.pass i) = none ∧
      ∀ response, serverStep order codec api servicesMap s (.ret i response) = none) :
    s.terminated = true ↔
      ∃ i, Throws order codec (fun _ _ => ()) (.start (arrivals i events) ()) := by
  have hisolated := isolated_of_run h
  have hterminated : Terminated s :=
    run_history (I := fun _ => Terminated) .start (fun _ _ _ _ => Terminated.step) h
  constructor
  · intro hends
    obtain ⟨i, hexit⟩ := hterminated.mp hends
    obtain ⟨n, hfeed, _⟩ := hisolated i
    exact ⟨i, n, by rw [hfeed, ← hexit]; rfl⟩
  · rintro ⟨i, hthrows⟩
    by_contra hrunning
    rw [Bool.not_eq_true] at hrunning
    obtain ⟨n, hfeed, _⟩ := hisolated i
    have hfree : (s.feeds i).scan.env.executing = none := by
      have hret := (hdone i).2 none
      rw [serverStep, ite_eq_right_iff] at hret
      rw [← Option.not_isSome_iff_eq_none]
      exact fun hbusy => nomatch hret ⟨hrunning, hbusy⟩
    have hover : (s.feeds i).Over := by
      by_contra hover
      have hpass := (hdone i).1
      rw [serverStep, ite_eq_right_iff] at hpass
      cases hpass ⟨hrunning, Option.isNone_iff_eq_none.mpr hfree, hover⟩
    rw [throws_iff_of_over hfeed ((withEnv_over ()).mpr hover)] at hthrows
    rw [hterminated.mpr ⟨i, hthrows⟩] at hrunning
    cases hrunning

/-- In every run the bytes written on a connection are none, or those of the first
response that a method called for one of its requests gave. -/
theorem responses_own
    (h : run (serverStep order codec api servicesMap) .start events = some s) (i : ι) :
    Written api (Own api servicesMap i events (s.feeds i)) (s.feeds i).scan.env.conn.accepted := by
  have hanswered : ∀ i, Paired api servicesMap i events (s.feeds i) ∧
      Answered api servicesMap i events (s.feeds i) := by
    apply run_history (I := fun past s => ∀ i, Paired api servicesMap i past (s.feeds i) ∧
      Answered api servicesMap i past (s.feeds i)) _ _ h
    · exact fun _ => ⟨⟨[], rfl, rfl⟩, fun _ => nofun, ⟨fun _ => rfl, .inl rfl⟩⟩
    · exact fun _ _ _ _ hall hstep i =>
        ⟨(hall i).1.step hstep, (hall i).2.step (hall i).1 hstep⟩
  exact (hanswered i).2.response.written

end

/-! ## Two logins -/

/-- Two logins on two connections. Both methods run at the same time, and the one
called last returns first. -/
def twoLogins : List (ServerEvent Bool Bytes) :=
  [.arrive true loginFrame, .arrive false loginFrame, .pass true, .pass false, .pass false,
    .pass true, .ret true (some [0x74]), .ret false (some [0x66]), .pass true]

def twoLoginsStep : Server Bool ServiceDescriptor Bytes → ServerEvent Bool Bytes →
    Option (Server Bool ServiceDescriptor Bytes) :=
  serverStep .little wireHeader echoService (notifyService echoService [] userService)

theorem run_isolates_twoLogins :
    ∃ s, run twoLoginsStep .start twoLogins = some s ∧
      ∃ t, run twoLoginsStep .start (twoLogins.filter fun a => a.connection = true) = some t ∧
        t.feeds true = s.feeds true := by
  have hrun : run (serverStep .little wireHeader echoService
      (notifyService echoService [] userService)) .start twoLogins = some _ := rfl
  exact ⟨_, hrun, (run_isolates hrun true).2.2⟩

/-- Three bytes on one connection end the process. -/
theorem terminated_iff_throws_three :
    ∃ s, run twoLoginsStep .start
        [.arrive true [1, 2, 3], .arrive false loginFrame, .pass true, .pass true] = some s ∧
      s.terminated = true ∧
      (s.terminated = true ↔ ∃ i, Throws .little wireHeader (fun _ _ => ())
        (.start (arrivals i ([.arrive true [1, 2, 3], .arrive false loginFrame, .pass true,
          .pass true] : List (ServerEvent Bool Bytes))) ())) := by
  have hrun : run (serverStep .little wireHeader echoService
      (notifyService echoService [] userService)) .start
      [.arrive true [1, 2, 3], .arrive false loginFrame, .pass true, .pass true] = some _ := rfl
  exact ⟨_, hrun, rfl, terminated_iff_throws hrun fun i => ⟨rfl, fun _ => rfl⟩⟩

theorem responses_own_twoLogins :
    ∃ s, run twoLoginsStep .start twoLogins = some s ∧
      (s.feeds true).scan.env.conn.accepted = [0x74] ∧
      Written echoService (Own echoService (notifyService echoService [] userService) true
        twoLogins (s.feeds true)) (s.feeds true).scan.env.conn.accepted := by
  have hrun : run (serverStep .little wireHeader echoService
      (notifyService echoService [] userService)) .start twoLogins = some _ := rfl
  exact ⟨_, hrun, rfl, responses_own hrun true⟩

end KitRpc.System

import KitRpc.Caller.Request
import KitRpc.Cpp.Number
import KitRpc.Zookeeper.Tree
/-!
# The address of a service

Which node `KitRpcChannel::CallMethod` reads in the registry, and how it takes
the address it connects to out of the string the node holds: everything before
the first colon, and the number behind it, cut to 16 bits.
-/

namespace KitRpc.Caller

open KitRpc.Cpp KitRpc.Zookeeper

def lookupPath (serviceName methodName : Bytes) : Bytes :=
  [slash] ++ serviceName ++ [slash] ++ methodName

structure Endpoint where
  ip : Bytes
  port : UInt16
  deriving DecidableEq, Repr

def colon : UInt8 := 0x3a

/-- The address `CallMethod` connects to, for the string `getNodeData` returned. -/
def targetOf (host : Bytes) : Except CallFault Endpoint :=
  if host = [] then .error (.failed "zookeeper get ip/port is null")
  else
    match find host colon with
    | none => .error (.failed "zookeeper get ip/port is invalid")
    | some pos =>
      match substr host 0 pos, substr host (pos + 1) host.length with
      | some ip, some portText =>
        match stoi portText with
        | .error e => .error (.thrown e)
        | .ok port => .ok ⟨ip, UInt16.ofInt port⟩
      | _, _ => .error (.thrown .outOfRange)

theorem targetOf_append {ip : Bytes} (h : colon ∉ ip) (portText : Bytes) :
    targetOf (ip ++ colon :: portText) =
      match stoi portText with
      | .error e => .error (.thrown e)
      | .ok port => .ok ⟨ip, UInt16.ofInt port⟩ := by
  rw [targetOf, if_neg (by simp), find_append h portText]
  simp only [substr_before, substr_behind]

theorem targetOf_eq_ok_iff {host : Bytes} {target : Endpoint} :
    targetOf host = .ok target ↔
      ∃ portText port, host = target.ip ++ colon :: portText ∧ colon ∉ target.ip ∧
        stoi portText = .ok port ∧ UInt16.ofInt port = target.port := by
  constructor
  · intro h
    cases hfind : find host colon with
    | none =>
        rw [targetOf, hfind] at h
        split at h <;> cases h
    | some pos =>
        obtain ⟨ip, portText, rfl, hip, _⟩ := exists_append_of_find hfind
        rw [targetOf_append hip] at h
        split at h
        · cases h
        · next port hport =>
            cases h
            exact ⟨portText, port, rfl, hip, hport, rfl⟩
  · rintro ⟨portText, port, rfl, hip, hport, hnarrow⟩
    rw [targetOf_append hip, hport]
    simp only [hnarrow]

/-! ## Exact addresses -/

def PortText (p : Bytes) (port : Nat) : Prop :=
  numeralOf p = some (port : Int) ∧ 1 ≤ port ∧ port ≤ 65535

/-- The call connects to the address that the string is, or it fails before it
connects. -/
def DialsExactly (host : Bytes) : Prop :=
  (∃ ip p port target, host = ip ++ colon :: p ∧ ip ≠ [] ∧ PortText p port ∧
      targetOf host = .ok target ∧ target.ip = ip ∧ target.port.toNat = port) ∨
    ∃ reason, targetOf host = .error (.failed reason)

theorem targetOf_of_colon_notMem {host : Bytes} (h : colon ∉ host) :
    ∃ reason, targetOf host = .error (.failed reason) := by
  rw [targetOf, find_eq_none_iff.mpr h]
  split <;> exact ⟨_, rfl⟩

theorem colon_notMem_of_targetOf {host : Bytes} {reason : String}
    (h : targetOf host = .error (.failed reason)) : colon ∉ host := by
  intro hmem
  obtain ⟨ip, portText, rfl, hip⟩ := List.eq_append_cons_of_mem hmem
  rw [targetOf_append hip] at h
  split at h <;> cases h

theorem targetOf_portText {ip p : Bytes} {port : Nat} (hip : colon ∉ ip) (hp : PortText p port) :
    ∃ target, targetOf (ip ++ colon :: p) = .ok target ∧ target.ip = ip ∧
      target.port.toNat = port := by
  obtain ⟨hnumeral, _, hmax⟩ := hp
  have hstoi : stoi p = .ok port := by
    rw [stoi_of_numeralOf hnumeral, if_neg (by omega)]
  refine ⟨⟨ip, UInt16.ofInt port⟩, ?_, rfl, ?_⟩
  · rw [targetOf_append hip, hstoi]
  · have hlt : port < 2 ^ 16 := by omega
    have hmod : ((port : Int) % 2 ^ 16).toNat = port := by omega
    dsimp only
    rw [UInt16.ofInt, hmod]
    exact UInt16.toNat_ofNat_of_lt hlt

/-- The address is exact unless there is a colon and the string is none: an
empty text in front of the first colon, or something other than the numeral of a
port behind it. -/
theorem dialsExactly_iff (host : Bytes) :
    DialsExactly host ↔
      colon ∉ host ∨ ∃ ip p port, host = ip ++ colon :: p ∧ ip ≠ [] ∧ colon ∉ ip ∧
        PortText p port := by
  constructor
  · rintro (⟨ip, p, port, target, hhost, hne, hp, htarget, hip, _⟩ | ⟨reason, hfailed⟩)
    · obtain ⟨_, _, _, hcolon, _⟩ := targetOf_eq_ok_iff.mp htarget
      exact .inr ⟨ip, p, port, hhost, hne, hip ▸ hcolon, hp⟩
    · exact .inl (colon_notMem_of_targetOf hfailed)
  · rintro (hcolon | ⟨ip, p, port, rfl, hne, hcolon, hp⟩)
    · exact .inr (targetOf_of_colon_notMem hcolon)
    · obtain ⟨target, htarget, hip, hport⟩ := targetOf_portText hcolon hp
      exact .inl ⟨ip, p, port, target, rfl, hne, hp, htarget, hip, hport⟩

/-- `a:` throws; `a:70000`, `a:80x` and `:80` are connected to on the ports 4464,
80 and 80. -/
theorem not_dialsExactly_port :
    targetOf [0x61, 0x3a] = .error (.thrown .invalidArgument) ∧
      targetOf [0x61, 0x3a, 0x37, 0x30, 0x30, 0x30, 0x30] = .ok ⟨[0x61], 4464⟩ ∧
      targetOf [0x61, 0x3a, 0x38, 0x30, 0x78] = .ok ⟨[0x61], 80⟩ ∧
      targetOf [0x3a, 0x38, 0x30] = .ok ⟨[], 80⟩ ∧
      ¬∀ host, host ≠ [] → DialsExactly host := by
  have hthrows : targetOf [0x61, 0x3a] = .error (.thrown .invalidArgument) := rfl
  refine ⟨hthrows, rfl, rfl, rfl, fun h => ?_⟩
  rcases h [0x61, 0x3a] (by decide) with ⟨_, _, _, target, _, _, _, htarget, _⟩ | ⟨reason, hfailed⟩
  · rw [hthrows] at htarget
    cases htarget
  · rw [hthrows] at hfailed
    cases hfailed

end KitRpc.Caller

import KitRpc.Foundation.Stream
import KitRpc.Cpp.Bytes
/-!
# Base-128 varints

The variable-length numbers of the protocol buffer wire format: seven bits per
byte, least significant group first, the high bit set on all bytes but the
last. Readers accept a bounded number of bytes and need not be given the
shortest form; writers emit the shortest one.
-/

namespace KitRpc.Wire

open KitRpc.Cpp KitRpc.Foundation

/-- The shortest varint of `value`, of at most the given number of bytes. -/
def writeVarint : Nat → Nat → Bytes
  | 0, _ => []
  | groups + 1, value =>
      if value < 128 then [UInt8.ofNat value]
      else UInt8.ofNat (value % 128 + 128) :: writeVarint groups (value / 128)

def readVarint : Nat → Bytes → Option (Nat × Bytes)
  | 0, _ => none
  | _ + 1, [] => none
  | groups + 1, b :: bs =>
      if b.toNat < 128 then some (b.toNat, bs)
      else (readVarint groups bs).map fun (high, rest) =>
        (b.toNat - 128 + 128 * high, rest)

theorem writeVarint_of_lt {groups value : Nat} (h : value < 128) :
    writeVarint (groups + 1) value = [UInt8.ofNat value] := by
  rw [writeVarint, if_pos h]

theorem length_writeVarint_le (groups value : Nat) :
    (writeVarint groups value).length ≤ groups := by
  induction groups generalizing value with
  | zero => exact Nat.le_refl 0
  | succ groups ih =>
      rw [writeVarint]
      split_ifs
      · simp
      · rw [List.length_cons]
        exact Nat.succ_le_succ (ih _)

theorem readVarint_writeVarint {groups value : Nat} (rest : Bytes)
    (h : value < 128 ^ (groups + 1)) :
    readVarint (groups + 1) (writeVarint (groups + 1) value ++ rest) =
      some (value, rest) := by
  induction groups generalizing value with
  | zero =>
      have hsmall : value < 128 := by omega
      have hbyte : (UInt8.ofNat value).toNat = value := by
        rw [UInt8.toNat_ofNat']
        omega
      simp [writeVarint_of_lt hsmall, readVarint, hbyte, hsmall]
  | succ groups ih =>
      by_cases hsmall : value < 128
      · have hbyte : (UInt8.ofNat value).toNat = value := by
          rw [UInt8.toNat_ofNat']
          omega
        simp [writeVarint_of_lt hsmall, readVarint, hbyte, hsmall]
      · have hbyte : (UInt8.ofNat (value % 128 + 128)).toNat = value % 128 + 128 := by
          rw [UInt8.toNat_ofNat']
          omega
        have hhigh : value / 128 < 128 ^ (groups + 1) := by
          rw [Nat.div_lt_iff_lt_mul (by omega), ← Nat.pow_succ]
          exact h
        have hsplit : value % 128 + 128 - 128 + 128 * (value / 128) = value := by omega
        rw [writeVarint, if_neg hsmall, List.cons_append, readVarint, hbyte,
          if_neg (by omega), ih hhigh, Option.map_some]
        simp only [hsplit]

theorem readVarint_local (groups : Nat) : LocalReader (readVarint groups) := by
  induction groups with
  | zero => exact fun _ _ _ h => nomatch h
  | succ groups ih =>
      intro bs value rest h
      cases bs with
      | nil => simp [readVarint] at h
      | cons b bs =>
          rw [readVarint] at h
          split_ifs at h with hlast
          · cases h
            exact ⟨⟨[b], rfl⟩, fun more => by simp [readVarint, hlast]⟩
          · rw [Option.map_eq_some_iff] at h
            obtain ⟨⟨high, rest'⟩, hread, heq⟩ := h
            cases heq
            obtain ⟨⟨used, rfl⟩, hmore⟩ := ih hread
            refine ⟨⟨b :: used, rfl⟩, fun more => ?_⟩
            rw [List.cons_append, readVarint, if_neg hlast, hmore more, Option.map_some]

theorem readVarint_shrinks {groups value : Nat} {bs rest : Bytes}
    (h : readVarint groups bs = some (value, rest)) : rest.length < bs.length := by
  induction groups generalizing bs value with
  | zero => simp [readVarint] at h
  | succ groups ih =>
      cases bs with
      | nil => simp [readVarint] at h
      | cons b bs =>
          rw [readVarint] at h
          split_ifs at h with hlast
          · cases h
            simp
          · rw [Option.map_eq_some_iff] at h
            obtain ⟨⟨high, rest'⟩, hread, heq⟩ := h
            cases heq
            have := ih hread
            simp only [List.length_cons]
            omega

end KitRpc.Wire

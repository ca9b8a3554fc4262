import Mathlib.Algebra.Group.Int.Defs
import Mathlib.Algebra.Group.Nat.Defs
import Mathlib.Data.List.TakeWhile
/-!
# Byte strings of the C++ standard library

The operations of `std::string` used by the framework, with their exceptions,
and the reading of a C string out of a memory block. A `std::string` and a
block of memory are both lists of bytes.
-/

namespace KitRpc.Cpp

/-- The contents of a `std::string` or of a block of memory. -/
abbrev Bytes := List UInt8

inductive StdException
  | outOfRange
  | invalidArgument
  | lengthError
  deriving DecidableEq, Repr

/-- The bytes of a string literal. -/
def ascii (s : String) : Bytes := s.toList.map fun c => UInt8.ofNat c.toNat

def zeros (n : Nat) : Bytes := List.replicate n 0

/-- `s.copy(dest, count, pos)`: the front of `dest` is overwritten by at most
`count` bytes of `s` from `pos` on. `none` is the `std::out_of_range` thrown
for a position past the end; a count that is too large is silently shortened. -/
def copy (s dest : Bytes) (count pos : Nat) : Option Bytes :=
  if s.length < pos then none
  else
    let chunk := (s.drop pos).take count
    some (chunk ++ dest.drop chunk.length)

/-- `s.insert(pos, data, n)` for the first `n` bytes at `data`; `none` is
`std::out_of_range`. -/
def insert (s : Bytes) (pos : Nat) (data : Bytes) (n : Nat) : Option Bytes :=
  if s.length < pos then none
  else some (s.take pos ++ data.take n ++ s.drop pos)

/-- The string a `const char*` denotes: the bytes before the first NUL. A
`std::string`'s own terminator stands behind its last byte. -/
def cStr (s : Bytes) : Bytes := s.takeWhile (· ≠ 0)

/-- `s.find(c)` for one character; `none` is `npos`. -/
def find (s : Bytes) (c : UInt8) : Option Nat := s.findIdx? (· == c)

/-- `s.substr(pos, n)`; `none` is `std::out_of_range`. -/
def substr (s : Bytes) (pos n : Nat) : Option Bytes :=
  if s.length < pos then none else some ((s.drop pos).take n)

/-- The first `n` bytes of `s`, followed by NUL bytes where `s` is shorter. -/
def zeroFill (n : Nat) (s : Bytes) : Bytes := s.take n ++ zeros (n - s.length)

@[simp] theorem length_zeros (n : Nat) : (zeros n).length = n := by
  simp [zeros]

@[simp] theorem zeros_zero : zeros 0 = [] := rfl

@[simp] theorem length_zeroFill (n : Nat) (s : Bytes) : (zeroFill n s).length = n := by
  simp only [zeroFill, List.length_append, List.length_take, length_zeros]
  omega

theorem zeroFill_of_le {n : Nat} {s : Bytes} (h : n ≤ s.length) :
    zeroFill n s = s.take n := by
  simp [zeroFill, Nat.sub_eq_zero_of_le h]

theorem copy_eq_none_iff {s dest : Bytes} {count pos : Nat} :
    copy s dest count pos = none ↔ s.length < pos := by
  unfold copy
  split <;> simp_all

theorem copy_zeros {s : Bytes} {count pos : Nat} (h : pos ≤ s.length) :
    copy s (zeros count) count pos = some (zeroFill count (s.drop pos)) := by
  rw [copy, if_neg (by omega)]
  simp only [zeroFill, zeros, List.drop_replicate, List.length_take, Option.some.injEq]
  congr 2
  omega

theorem insert_length (s data : Bytes) (n : Nat) :
    insert s s.length data n = some (s ++ data.take n) := by
  simp [insert]

theorem find_append {before : Bytes} {c : UInt8} (h : c ∉ before) (after : Bytes) :
    find (before ++ c :: after) c = some before.length := by
  induction before with
  | nil => simp [find, List.findIdx?_cons]
  | cons x before ih =>
      rw [List.mem_cons, not_or] at h
      have hrest := ih h.2
      unfold find at hrest ⊢
      rw [List.cons_append, List.findIdx?_cons, if_neg (by simpa using Ne.symm h.1), hrest]
      rfl

theorem exists_append_of_find {s : Bytes} {c : UInt8} {pos : Nat} (h : find s c = some pos) :
    ∃ before after, s = before ++ c :: after ∧ c ∉ before ∧ before.length = pos := by
  have hmem : c ∈ s := by
    have hsome : (s.findIdx? (· == c)).isSome := by
      rw [show s.findIdx? (· == c) = some pos from h]
      rfl
    rw [List.findIdx?_isSome, List.any_eq_true] at hsome
    obtain ⟨x, hx, heq⟩ := hsome
    rwa [← eq_of_beq heq]
  obtain ⟨before, after, rfl, hbefore⟩ := List.eq_append_cons_of_mem hmem
  rw [find_append hbefore after, Option.some.injEq] at h
  exact ⟨before, after, rfl, hbefore, h⟩

theorem find_eq_none_iff {s : Bytes} {c : UInt8} : find s c = none ↔ c ∉ s := by
  rw [find, List.findIdx?_eq_none_iff]
  constructor
  · intro h hmem
    simpa using h c hmem
  · intro h x hx
    rw [beq_eq_false_iff_ne]
    rintro rfl
    exact h hx

theorem takeWhile_ne_append {before : Bytes} {c : UInt8} (h : c ∉ before) (after : Bytes) :
    (before ++ c :: after).takeWhile (· ≠ c) = before := by
  have hbefore : before.takeWhile (· ≠ c) = before := by
    rw [List.takeWhile_eq_self_iff]
    intro x hx
    exact decide_eq_true (ne_of_mem_of_not_mem hx h)
  rw [List.takeWhile_append, hbefore, if_pos rfl, List.takeWhile_cons_of_neg (by simp),
    List.append_nil]

theorem dropWhile_ne_append {before : Bytes} {c : UInt8} (h : c ∉ before) (after : Bytes) :
    (before ++ c :: after).dropWhile (· ≠ c) = c :: after := by
  have hbefore : before.dropWhile (· ≠ c) = [] := by
    rw [List.dropWhile_eq_nil_iff]
    intro x hx
    exact decide_eq_true (ne_of_mem_of_not_mem hx h)
  rw [List.dropWhile_append, hbefore, List.isEmpty_nil, if_pos rfl,
    List.dropWhile_cons_of_neg (by simp)]

theorem substr_before (before after : Bytes) (c : UInt8) :
    substr (before ++ c :: after) 0 before.length = some before := by
  simp [substr]

theorem substr_behind (before after : Bytes) (c : UInt8) :
    substr (before ++ c :: after) (before.length + 1) (before ++ c :: after).length =
      some after := by
  rw [substr, if_neg (by simp), ← List.drop_drop, List.drop_left, List.drop_one, List.tail_cons,
    List.take_of_length_le (by simp; omega)]

/-- A string without NUL bytes survives being passed as a `const char*`. -/
theorem cStr_eq_self_iff {s : Bytes} : cStr s = s ↔ (0 : UInt8) ∉ s := by
  unfold cStr
  rw [List.takeWhile_eq_self_iff]
  constructor
  · intro h hmem
    simpa using h 0 hmem
  · intro h x hx
    simp only [decide_eq_true_eq]
    rintro rfl
    exact h hx

theorem cStr_append_of_notMem {s t : Bytes} (hs : (0 : UInt8) ∉ s) :
    cStr (s ++ t) = s ++ cStr t := by
  unfold cStr
  apply List.takeWhile_append_of_pos
  intro x hx
  simp only [decide_eq_true_eq]
  rintro rfl
  exact hs hx

theorem notMem_cStr (s : Bytes) : (0 : UInt8) ∉ cStr s := by
  intro h
  simpa using List.mem_takeWhile_imp h

/-- A string is what `c_str()` denotes, and nothing or a NUL byte behind it. -/
theorem eq_cStr_or (s : Bytes) : s = cStr s ∨ ∃ rest, s = cStr s ++ 0 :: rest := by
  induction s with
  | nil => exact .inl rfl
  | cons c s ih =>
      by_cases hc : c = 0
      · exact .inr ⟨s, by simp [cStr, hc]⟩
      · have hcons : cStr (c :: s) = c :: cStr s := by simp [cStr, hc]
        rw [hcons]
        rcases ih with hs | ⟨rest, hs⟩
        · exact .inl (congrArg (c :: ·) hs)
        · exact .inr ⟨rest, congrArg (c :: ·) hs⟩

theorem zeroFill_of_cStr_lt {n : Nat} {s : Bytes} (h : (cStr s).length < n) :
    ∃ rest, zeroFill n s = cStr s ++ 0 :: rest := by
  obtain ⟨k, rfl⟩ := Nat.exists_eq_add_of_lt h
  rcases eq_cStr_or s with hs | ⟨rest, hs⟩
  · refine ⟨zeros k, ?_⟩
    rw [zeroFill, ← hs, List.take_of_length_le (by omega), zeros, Nat.add_assoc,
      Nat.add_sub_cancel_left, List.replicate_succ, zeros]
  · generalize cStr s = text at hs
    subst hs
    refine ⟨rest.take k ++ zeros (text.length + k + 1 - (text ++ 0 :: rest).length), ?_⟩
    rw [zeroFill, Nat.add_assoc, List.take_length_add_append, List.take_succ_cons]
    simp

theorem notMem_zeroFill_of_le {n : Nat} {s : Bytes} (h : n ≤ (cStr s).length) :
    (0 : UInt8) ∉ zeroFill n s := by
  have hprefix : cStr s <+: s := List.takeWhile_prefix _
  have hlength := hprefix.length_le
  rw [zeroFill_of_le (h.trans hlength)]
  intro hmem
  obtain ⟨rest, hrest⟩ := hprefix
  rw [← hrest, List.take_append_of_le_length h] at hmem
  exact notMem_cStr s (List.mem_of_mem_take hmem)

end KitRpc.Cpp

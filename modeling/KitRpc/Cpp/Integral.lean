import Mathlib.Algebra.Group.Int.Defs
import Mathlib.Algebra.Order.Ring.Int
import Mathlib.Tactic.SplitIfs
/-!
# Integral types

The types for which `std::is_integral` holds, with their ranges on 64-bit Linux,
and the conversion of an `int` to them.
-/

namespace KitRpc.Cpp

inductive IntegralType
  | bool
  | char
  | signedChar
  | unsignedChar
  | wchar
  | char16
  | char32
  | short
  | unsignedShort
  | int
  | unsignedInt
  | long
  | unsignedLong
  | longLong
  | unsignedLongLong
  deriving DecidableEq, Repr

namespace IntegralType

def bits : IntegralType → Nat
  | bool => 1
  | char | signedChar | unsignedChar => 8
  | char16 | short | unsignedShort => 16
  | wchar | char32 | int | unsignedInt => 32
  | long | unsignedLong | longLong | unsignedLongLong => 64

def signed : IntegralType → Bool
  | char | signedChar | wchar | short | int | long | longLong => true
  | _ => false

def min (T : IntegralType) : Int := if T.signed then -2 ^ (T.bits - 1) else 0

def sup (T : IntegralType) : Int := if T.signed then 2 ^ (T.bits - 1) else 2 ^ T.bits

def InRange (T : IntegralType) (n : Int) : Prop := T.min ≤ n ∧ n < T.sup

instance (T : IntegralType) (n : Int) : Decidable (T.InRange n) :=
  inferInstanceAs (Decidable (_ ∧ _))

/-- `static_cast<T>` of a number: to `bool` whether it is not zero, to the others
modulo the power of two. -/
def cast (T : IntegralType) (n : Int) : Int :=
  if T = .bool then if n = 0 then 0 else 1
  else (n - T.min) % 2 ^ T.bits + T.min

theorem sup_eq (T : IntegralType) : T.sup = T.min + 2 ^ T.bits := by
  cases T <;> rfl

theorem int_inRange_iff {n : Int} : int.InRange n ↔ -2 ^ 31 ≤ n ∧ n < 2 ^ 31 := Iff.rfl

theorem cast_of_inRange {T : IntegralType} {n : Int} (h : T.InRange n) : T.cast n = n := by
  rw [InRange, sup_eq] at h
  unfold cast
  split_ifs with hbool hzero
  · exact hzero.symm
  · subst hbool
    have hbounds : 0 ≤ n ∧ n < 2 := h
    omega
  · rw [Int.emod_eq_of_lt (by omega) (by omega)]
    omega

/-- A conversion makes zero of zero and, but to `bool`, of the multiples of its
modulus. -/
theorem cast_eq_zero_iff {T : IntegralType} {n : Int} :
    T.cast n = 0 ↔ n = 0 ∨ T ≠ .bool ∧ (2 : Int) ^ T.bits ∣ n := by
  unfold cast
  split_ifs with hbool hzero
  · simp [hzero]
  · simp [hbool, hzero]
  · have hmin : 0 ≤ -T.min ∧ -T.min < 2 ^ T.bits := by
      cases T <;> decide
    have hreduced : -T.min % 2 ^ T.bits = -T.min := Int.emod_eq_of_lt hmin.1 hmin.2
    have hdvd : (n - T.min) % 2 ^ T.bits = -T.min % 2 ^ T.bits ↔ (2 : Int) ^ T.bits ∣ n := by
      rw [Int.emod_eq_emod_iff_emod_sub_eq_zero, sub_neg_eq_add, sub_add_cancel,
        Int.dvd_iff_emod_eq_zero]
    rw [hreduced] at hdvd
    constructor
    · intro h
      exact .inr ⟨hbool, hdvd.mp (by omega)⟩
    · rintro (rfl | ⟨_, h⟩)
      · have hmod := hdvd.mpr (Int.dvd_zero _)
        omega
      · have hmod := hdvd.mpr h
        omega

end IntegralType

end KitRpc.Cpp

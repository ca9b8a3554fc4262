import KitRpc.Cpp.Bytes
import Mathlib.Data.List.Basic
/-!
# Numbers in strings

`std::stoi` with base ten: white space and a sign may stand in front, and
whatever follows the digits is ignored. Of a decimal numeral it gives the value
if that fits an `int`.
-/

namespace KitRpc.Cpp

def isSpace (c : UInt8) : Bool := c = 0x20 ∨ 0x09 ≤ c ∧ c ≤ 0x0d

def isDigit (c : UInt8) : Bool := 0x30 ≤ c ∧ c ≤ 0x39

def digitsValue (digits : Bytes) : Nat :=
  digits.foldl (fun value c => 10 * value + (c.toNat - 0x30)) 0

/-- `std::stoi(s)`: `std::invalid_argument` where no digit stands, and
`std::out_of_range` where the number does not fit an `int`. -/
def stoi (s : Bytes) : Except StdException Int :=
  let s := s.dropWhile isSpace
  let (negative, s) :=
    match s with
    | 0x2d :: s => (true, s)
    | 0x2b :: s => (false, s)
    | s => (false, s)
  let digits := s.takeWhile isDigit
  if digits = [] then .error .invalidArgument
  else
    let value : Int := if negative then -digitsValue digits else digitsValue digits
    if value < -2 ^ 31 ∨ 2 ^ 31 ≤ value then .error .outOfRange else .ok value

theorem stoi_bounds {s : Bytes} {n : Int} (h : stoi s = .ok n) : -2 ^ 31 ≤ n ∧ n < 2 ^ 31 := by
  have hchecked (value : Int) (hvalue : (if value < -2 ^ 31 ∨ 2 ^ 31 ≤ value then
      .error .outOfRange else .ok value : Except StdException Int) = .ok n) :
      -2 ^ 31 ≤ n ∧ n < 2 ^ 31 := by
    split at hvalue
    case isTrue => cases hvalue
    case isFalse hin =>
      cases hvalue
      omega
  unfold stoi at h
  dsimp only at h
  split at h
  all_goals
    split at h
    · cases h
    · exact hchecked _ h

/-- White space and a sign in front, something else behind. -/
example : stoi [0x20, 0x2d, 0x34, 0x32, 0x3a] = .ok (-42) := by decide

/-! ## Numerals -/

def plus : UInt8 := 0x2b

def minus : UInt8 := 0x2d

/-- Digits with a sign in front or none, as a text and as a number. -/
inductive SignedDigits (digits : Bytes) : Bytes → Int → Prop
  | unsigned : SignedDigits digits digits (digitsValue digits)
  | plus : SignedDigits digits (plus :: digits) (digitsValue digits)
  | minus : SignedDigits digits (minus :: digits) (-digitsValue digits)

/-- A text starts with a number: white space, perhaps a sign, and then digits up
to the end of the text or to something that is none. -/
def LeadingNumber (s : Bytes) (n : Int) : Prop :=
  ∃ blanks digits signed rest, s = blanks ++ (signed ++ rest) ∧ (∀ c ∈ blanks, isSpace c) ∧
    digits ≠ [] ∧ (∀ c ∈ digits, isDigit c) ∧ (∀ c ∈ rest.head?, isDigit c = false) ∧
    SignedDigits digits signed n

/-- The value of a decimal numeral: digits, possibly with a `-` in front. -/
def numeralOf : Bytes → Option Int
  | [] => none
  | c :: digits =>
    if c = minus then
      if digits ≠ [] ∧ digits.all isDigit then some (-digitsValue digits) else none
    else if (c :: digits).all isDigit then some (digitsValue (c :: digits))
    else none

/-- The decimal numeral of a number. -/
def decimal (n : Nat) : Bytes := (Nat.toDigits 10 n).map fun c => UInt8.ofNat c.toNat

def signedDecimal (n : Int) : Bytes :=
  if n < 0 then minus :: decimal n.natAbs else decimal n.natAbs

theorem isDigit_bounds {c : UInt8} (h : isDigit c) : 0x30 ≤ c ∧ c ≤ 0x39 := by
  simpa [isDigit] using h

theorem isSpace_of_isDigit {c : UInt8} (h : isDigit c) : isSpace c = false := by
  have hbounds := isDigit_bounds h
  simp only [isSpace, decide_eq_false_iff_not]
  grind

theorem ne_sign_of_isDigit {c : UInt8} (h : isDigit c) : c ≠ plus ∧ c ≠ minus := by
  constructor
  · rintro rfl
    exact absurd h (by decide)
  · rintro rfl
    exact absurd h (by decide)

theorem takeWhile_digits {digits rest : Bytes} (hdigits : ∀ c ∈ digits, isDigit c)
    (hrest : ∀ c ∈ rest.head?, isDigit c = false) :
    (digits ++ rest).takeWhile isDigit = digits := by
  rw [List.takeWhile_append_of_pos hdigits]
  cases rest with
  | nil => simp
  | cons c rest => simp [hrest c rfl]

def withSign (negative : Bool) (n : Nat) : Int := if negative then -n else n

/-- What `std::stoi` does behind the sign. -/
def readDigits (negative : Bool) (s : Bytes) : Except StdException Int :=
  let digits := s.takeWhile isDigit
  if digits = [] then .error .invalidArgument
  else
    let value := withSign negative (digitsValue digits)
    if value < -2 ^ 31 ∨ 2 ^ 31 ≤ value then .error .outOfRange else .ok value

theorem stoi_plus {s t : Bytes} (h : s.dropWhile isSpace = plus :: t) :
    stoi s = readDigits false t := by
  rw [stoi, h]
  rfl

theorem stoi_minus {s t : Bytes} (h : s.dropWhile isSpace = minus :: t) :
    stoi s = readDigits true t := by
  rw [stoi, h]
  rfl

theorem stoi_unsigned {s t : Bytes} (h : s.dropWhile isSpace = t)
    (hsign : ∀ c ∈ t.head?, c ≠ plus ∧ c ≠ minus) : stoi s = readDigits false t := by
  rw [stoi, h]
  dsimp only
  split
  case h_1 => exact absurd rfl (hsign minus rfl).2
  case h_2 => exact absurd rfl (hsign plus rfl).1
  case h_3 => rfl

theorem stoi_of_leadingNumber {s : Bytes} {n : Int} (h : LeadingNumber s n) :
    stoi s = if n < -2 ^ 31 ∨ 2 ^ 31 ≤ n then .error .outOfRange else .ok n := by
  obtain ⟨blanks, digits, signed, rest, rfl, hblanks, hne, hdigits, hrest, hsigned⟩ := h
  have htake := takeWhile_digits hdigits hrest
  have hdrop {c : UInt8} {t : Bytes} (hc : isSpace c = false) :
      (blanks ++ c :: t).dropWhile isSpace = c :: t := by
    rw [List.dropWhile_append_of_pos hblanks, List.dropWhile_cons_of_neg (by simp [hc])]
  cases hsigned with
  | unsigned =>
      cases digits with
      | nil => exact absurd rfl hne
      | cons c digits =>
          have hc := hdigits c List.mem_cons_self
          have hsign : ∀ c' ∈ (c :: (digits ++ rest)).head?, c' ≠ plus ∧ c' ≠ minus := by
            rintro c' ⟨⟩
            exact ne_sign_of_isDigit hc
          rw [List.cons_append, stoi_unsigned (hdrop (isSpace_of_isDigit hc)) hsign, readDigits,
            ← List.cons_append, htake, if_neg hne]
          rfl
  | plus =>
      rw [List.cons_append, stoi_plus (hdrop (by decide)), readDigits, htake, if_neg hne]
      rfl
  | minus =>
      rw [List.cons_append, stoi_minus (hdrop (by decide)), readDigits, htake, if_neg hne]
      rfl

theorem signedDigits_of_numeralOf {s : Bytes} {n : Int} (h : numeralOf s = some n) :
    ∃ digits, digits ≠ [] ∧ (∀ c ∈ digits, isDigit c) ∧ SignedDigits digits s n := by
  cases s with
  | nil => cases h
  | cons c digits =>
      rw [numeralOf] at h
      by_cases hminus : c = minus
      · rw [if_pos hminus, Option.ite_none_right_eq_some, Option.some.injEq] at h
        obtain ⟨⟨hne, hdigits⟩, rfl⟩ := h
        exact ⟨digits, hne, List.all_eq_true.mp hdigits, hminus ▸ .minus⟩
      · rw [if_neg hminus, Option.ite_none_right_eq_some, Option.some.injEq] at h
        obtain ⟨hdigits, rfl⟩ := h
        exact ⟨c :: digits, List.cons_ne_nil _ _, List.all_eq_true.mp hdigits, .unsigned⟩

/-- Only the range of an `int` limits which numerals `std::stoi` reads. -/
theorem stoi_of_numeralOf {s : Bytes} {n : Int} (h : numeralOf s = some n) :
    stoi s = if n < -2 ^ 31 ∨ 2 ^ 31 ≤ n then .error .outOfRange else .ok n := by
  obtain ⟨digits, hne, hdigits, hsigned⟩ := signedDigits_of_numeralOf h
  apply stoi_of_leadingNumber
  exact ⟨[], digits, s, [], by simp, by simp, hne, hdigits, by simp, hsigned⟩

theorem digits_of_readDigits {negative : Bool} {t : Bytes} {n : Int}
    (h : readDigits negative t = .ok n) :
    ∃ digits rest, t = digits ++ rest ∧ digits ≠ [] ∧ (∀ c ∈ digits, isDigit c) ∧
      (∀ c ∈ rest.head?, isDigit c = false) ∧
      n = withSign negative (digitsValue digits) := by
  unfold readDigits at h
  dsimp only at h
  split at h
  case isTrue => cases h
  case isFalse hne =>
    refine ⟨t.takeWhile isDigit, t.dropWhile isDigit, List.takeWhile_append_dropWhile.symm, hne,
      fun c hc => List.mem_takeWhile_imp hc, fun c hc => ?_, ?_⟩
    · have hstop := List.head?_dropWhile_not isDigit t
      rwa [hc] at hstop
    · split at h
      case isTrue => cases h
      case isFalse => exact (Except.ok.inj h).symm

theorem leadingNumber_of_stoi {s : Bytes} {n : Int} (h : stoi s = .ok n) : LeadingNumber s n := by
  have hblanks : ∀ c ∈ s.takeWhile isSpace, isSpace c := fun c hc => List.mem_takeWhile_imp hc
  have hsplit : s = s.takeWhile isSpace ++ s.dropWhile isSpace :=
    List.takeWhile_append_dropWhile.symm
  by_cases hplus : ∃ t, s.dropWhile isSpace = plus :: t
  · obtain ⟨t, ht⟩ := hplus
    rw [stoi_plus ht] at h
    obtain ⟨digits, rest, rfl, hne, hdigits, hrest, rfl⟩ := digits_of_readDigits h
    refine ⟨_, digits, plus :: digits, rest, ?_, hblanks, hne, hdigits, hrest, .plus⟩
    rw [List.cons_append, ← ht, ← hsplit]
  · by_cases hminus : ∃ t, s.dropWhile isSpace = minus :: t
    · obtain ⟨t, ht⟩ := hminus
      rw [stoi_minus ht] at h
      obtain ⟨digits, rest, rfl, hne, hdigits, hrest, rfl⟩ := digits_of_readDigits h
      refine ⟨_, digits, minus :: digits, rest, ?_, hblanks, hne, hdigits, hrest, .minus⟩
      rw [List.cons_append, ← ht, ← hsplit]
    · have hsign : ∀ c ∈ (s.dropWhile isSpace).head?, c ≠ plus ∧ c ≠ minus := by
        intro c hc
        obtain ⟨t, ht⟩ := List.head?_eq_some_iff.mp hc
        exact ⟨fun heq => hplus ⟨t, heq ▸ ht⟩, fun heq => hminus ⟨t, heq ▸ ht⟩⟩
      rw [stoi_unsigned rfl hsign] at h
      obtain ⟨digits, rest, ht, hne, hdigits, hrest, rfl⟩ := digits_of_readDigits h
      refine ⟨_, digits, digits, rest, ?_, hblanks, hne, hdigits, hrest, .unsigned⟩
      rw [← ht, ← hsplit]

theorem stoi_eq_ok_iff {s : Bytes} {n : Int} :
    stoi s = .ok n ↔ LeadingNumber s n ∧ -2 ^ 31 ≤ n ∧ n < 2 ^ 31 := by
  constructor
  · intro h
    exact ⟨leadingNumber_of_stoi h, stoi_bounds h⟩
  · rintro ⟨hnumber, hmin, hmax⟩
    rw [stoi_of_leadingNumber hnumber, if_neg (by omega)]

theorem toNat_ofChar {c : Char} (h : c.isDigit) :
    (UInt8.ofNat c.toNat).toNat = c.toNat ∧ isDigit (UInt8.ofNat c.toNat) := by
  have hbounds : 0x30 ≤ c.toNat ∧ c.toNat ≤ 0x39 := by
    simpa [Char.isDigit, UInt32.le_iff_toNat_le] using h
  have hlt : c.toNat < 2 ^ 8 := by omega
  have hvalue : (UInt8.ofNat c.toNat).toNat = c.toNat := UInt8.toNat_ofNat_of_lt hlt
  refine ⟨hvalue, ?_⟩
  simp only [isDigit, decide_eq_true_eq, UInt8.le_iff_toNat_le, hvalue]
  exact hbounds

theorem digitsValue_map {cs : List Char} (h : ∀ c ∈ cs, c.isDigit) :
    digitsValue (cs.map fun c => UInt8.ofNat c.toNat) = Nat.ofDigitChars 10 cs 0 := by
  rw [digitsValue, Nat.ofDigitChars_eq_foldl, List.foldl_map]
  apply List.foldl_ext
  intro value c hc
  rw [(toNat_ofChar (h c hc)).1]
  rfl

theorem isDigit_of_mem_decimal {n : Nat} {c : UInt8} (h : c ∈ decimal n) : isDigit c := by
  obtain ⟨c, hc, rfl⟩ := List.mem_map.mp h
  exact (toNat_ofChar (Nat.isDigit_of_mem_toDigits (by omega) (by omega) hc)).2

theorem decimal_ne_nil (n : Nat) : decimal n ≠ [] := by
  simp [decimal, Nat.toDigits_ne_nil]

theorem digitsValue_decimal (n : Nat) : digitsValue (decimal n) = n := by
  have hdigits (c : Char) (hc : c ∈ Nat.toDigits 10 n) : c.isDigit :=
    Nat.isDigit_of_mem_toDigits (by omega) (by omega) hc
  rw [decimal, digitsValue_map hdigits, Nat.ofDigitChars_ten_toDigits]

theorem numeralOf_signedDecimal (n : Int) : numeralOf (signedDecimal n) = some n := by
  have hall : (decimal n.natAbs).all isDigit :=
    List.all_eq_true.mpr fun c hc => isDigit_of_mem_decimal hc
  have hvalue := digitsValue_decimal n.natAbs
  rw [signedDecimal]
  split
  case isTrue hneg =>
    rw [numeralOf, if_pos rfl, if_pos ⟨decimal_ne_nil _, hall⟩, hvalue, Option.some.injEq]
    omega
  case isFalse hpos =>
    cases hdecimal : decimal n.natAbs with
    | nil => exact absurd hdecimal (decimal_ne_nil _)
    | cons c digits =>
        have hc : isDigit c := by
          apply isDigit_of_mem_decimal (n := n.natAbs)
          rw [hdecimal]
          exact List.mem_cons_self
        have hminus : c ≠ minus := by
          rintro rfl
          exact absurd hc (by decide)
        rw [hdecimal] at hall hvalue
        rw [numeralOf, if_neg hminus, if_pos hall, hvalue, Option.some.injEq]
        omega

end KitRpc.Cpp

import KitRpc.Cpp.Bytes
/-!
# Text of the C++ standard library

Searching and shortening a `std::string`, and the lines `std::getline` reads
from a stream that holds one.
-/

namespace KitRpc.Cpp

def newline : UInt8 := 0x0a

def carriageReturn : UInt8 := 0x0d

def space : UInt8 := 0x20

/-- `s.back()`; `none` is the undefined behaviour on an empty string. -/
def back (s : Bytes) : Option UInt8 := s.getLast?

def popBack (s : Bytes) : Option Bytes := if s = [] then none else some s.dropLast

/-- `s.find_first_not_of(c)` for one character; `none` is `npos`. -/
def findFirstNotOf (s : Bytes) (c : UInt8) : Option Nat := s.findIdx? (· != c)

def findFirstOf (s : Bytes) (c : UInt8) (pos : Nat) : Option Nat :=
  (find (s.drop pos) c).map (pos + ·)

/-- `std::getline`: a line and what is left in the stream; `none` at its end. -/
def getline (ss : Bytes) : Option (Bytes × Bytes) :=
  if ss = [] then none
  else some (ss.takeWhile (· ≠ newline), (ss.dropWhile (· ≠ newline)).tail)

/-- The lines a `while(std::getline(ss, line))` loop goes through. -/
def getlines : Bytes → List Bytes
  | [] => []
  | c :: ss =>
    if c = newline then [] :: getlines ss
    else
      match getlines ss with
      | [] => [[c]]
      | line :: lines => (c :: line) :: lines

@[simp] theorem getline_nil : getline [] = none := rfl

@[simp] theorem getlines_nil : getlines [] = [] := rfl

theorem getlines_cons (c : UInt8) (ss : Bytes) :
    getlines (c :: ss) =
      if c = newline then [] :: getlines ss
      else
        match getlines ss with
        | [] => [[c]]
        | line :: lines => (c :: line) :: lines := rfl

theorem getlines_eq (ss : Bytes) :
    getlines ss =
      match getline ss with
      | none => []
      | some (line, rest) => line :: getlines rest := by
  induction ss with
  | nil => rfl
  | cons c ss ih =>
      rw [getlines_cons, getline, if_neg (List.cons_ne_nil c ss)]
      by_cases hc : c = newline
      · simp [hc]
      · rw [if_neg hc, List.takeWhile_cons_of_pos (by simpa using hc),
          List.dropWhile_cons_of_pos (by simpa using hc), ih]
        by_cases hss : ss = []
        · simp [hss]
        · simp [getline, hss]

theorem getlines_append_newline {line : Bytes} (h : newline ∉ line) (ss : Bytes) :
    getlines (line ++ newline :: ss) = line :: getlines ss := by
  rw [getlines_eq, getline, if_neg (by simp), takeWhile_ne_append h, dropWhile_ne_append h,
    List.tail_cons]

/-! ## The first word -/

def OnlyOf (c : UInt8) (s : Bytes) : Prop := ∀ x ∈ s, x = c

instance (c : UInt8) : DecidablePred (OnlyOf c) :=
  fun s => List.decidableBAll (· = c) s

/-- What stands between the separators in front and the next one. -/
def firstWord (c : UInt8) (s : Bytes) : Bytes :=
  (s.dropWhile (· == c)).takeWhile (· != c)

@[simp] theorem firstWord_nil (c : UInt8) : firstWord c [] = [] := rfl

theorem findFirstNotOf_eq_none_iff {s : Bytes} {c : UInt8} :
    findFirstNotOf s c = none ↔ OnlyOf c s := by
  simp [findFirstNotOf, List.findIdx?_eq_none_iff, OnlyOf]

theorem dropWhile_of_findFirstNotOf {s : Bytes} {c : UInt8} {pos : Nat}
    (h : findFirstNotOf s c = some pos) :
    pos < s.length ∧ s.dropWhile (· == c) = s.drop pos := by
  rw [findFirstNotOf, List.findIdx?_eq_some_iff_findIdx_eq] at h
  refine ⟨h.1, ?_⟩
  rw [List.dropWhile_eq_drop_findIdx_not, ← h.2]
  rfl

theorem find_getD (s : Bytes) (c : UInt8) : (find s c).getD s.length = s.findIdx (· == c) := by
  unfold find
  cases hfind : s.findIdx? (· == c) with
  | none =>
      rw [List.findIdx?_eq_none_iff_findIdx_eq] at hfind
      rw [Option.getD_none, hfind]
  | some pos =>
      rw [List.findIdx?_eq_some_iff_findIdx_eq] at hfind
      rw [Option.getD_some, hfind.2]

theorem substr_findFirstOf {s : Bytes} {c : UInt8} {pos : Nat}
    (h : findFirstNotOf s c = some pos) :
    substr s pos ((findFirstOf s c pos).getD s.length - pos) = some (firstWord c s) := by
  obtain ⟨hpos, hdrop⟩ := dropWhile_of_findFirstNotOf h
  have hcount :
      (findFirstOf s c pos).getD s.length - pos = (s.drop pos).findIdx (· == c) := by
    rw [← find_getD, findFirstOf, List.length_drop]
    cases find (s.drop pos) c with
    | none => rfl
    | some n => exact Nat.add_sub_cancel_left pos n
  rw [substr, if_neg (by omega), hcount, firstWord, hdrop, List.takeWhile_eq_take_findIdx_not]
  simp only [bne, Bool.not_not]

end KitRpc.Cpp

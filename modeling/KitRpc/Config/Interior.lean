import KitRpc.Config.Layout
import Mathlib.Data.List.DropRight
/-!
# The interior of keys and values

Removing the spaces at both ends of a part leaves its interior as it is. The
parser keeps the first word of a part instead, since `TrimAllSpace` searches the
end from the left. The two agree on parts of one word.
-/

namespace KitRpc.Config

open KitRpc.Cpp

/-- A text without the spaces at its ends. -/
def trim (s : Bytes) : Bytes := (s.dropWhile (· == space)).rdropWhile (· == space)

def withoutReturn (s : Bytes) : Bytes :=
  if s.getLast? = some carriageReturn then s.dropLast else s

/-- A line `key=val`: no comment, with a character other than the space on both
sides. -/
structure PairLine (key val : Bytes) : Prop where
  first_equals : equals ∉ key
  no_comment : ¬CommentStart key
  key_text : ¬OnlyOf space key
  val_text : ¬OnlyOf space val
  one_line : newline ∉ key ∧ newline ∉ val

/-- The line is read as its key and its value without the spaces at their ends,
and otherwise as they are. -/
def StoredIntact (key val : Bytes) : Prop :=
  parseLine (key ++ equals :: val) = .ok (some (trim key, trim (withoutReturn val)))

/-- Key and value are one word each, where one `\r` behind the value does not
count and may stand there alone. -/
structure OneWordEach (key val : Bytes) : Prop where
  key_end : key.getLast? ≠ some carriageReturn
  key_word : space ∉ trim key
  val_word : space ∉ trim (withoutReturn val)
  val_text : withoutReturn val = [] ∨ ¬OnlyOf space (withoutReturn val)

/-! ## Trimmed text -/

/-- Trimming removes spaces from both ends and nothing else. -/
theorem eq_padded_trim (s : Bytes) : ∃ before after, s = padded before (trim s) after := by
  have hspaces {t : Bytes} (h : ∀ {x}, x ∈ t → (x == space) = true) : t = spaces t.length :=
    List.eq_replicate_iff.mpr ⟨rfl, fun x hx => beq_iff_eq.mp (h hx)⟩
  refine ⟨(s.takeWhile (· == space)).length,
    ((s.dropWhile (· == space)).rtakeWhile (· == space)).length, ?_⟩
  calc
    s = s.takeWhile (· == space) ++ s.dropWhile (· == space) :=
      List.takeWhile_append_dropWhile.symm
    _ = s.takeWhile (· == space) ++
        (trim s ++ (s.dropWhile (· == space)).rtakeWhile (· == space)) := by
      rw [trim, List.rdropWhile_append_rtakeWhile]
    _ = _ := by
      rw [padded, ← hspaces List.mem_takeWhile_imp, ← hspaces List.mem_rtakeWhile_imp,
        List.append_assoc]

theorem trim_ne_nil {s : Bytes} (h : ¬OnlyOf space s) : trim s ≠ [] := by
  intro hnil
  obtain ⟨before, after, hs⟩ := eq_padded_trim s
  rw [hnil] at hs
  apply h
  rw [hs]
  intro x hx
  simp only [padded, spaces, List.append_nil, List.mem_append, List.mem_replicate] at hx
  rcases hx with hx | hx <;> exact hx.2

theorem space_notMem_firstWord (s : Bytes) : space ∉ firstWord space s := by
  intro h
  simpa using List.mem_takeWhile_imp h

/-- The first word is all of a text exactly if it has no second one. -/
theorem firstWord_eq_trim_iff {s : Bytes} (h : ¬OnlyOf space s) :
    firstWord space s = trim s ↔ space ∉ trim s := by
  constructor
  · intro heq
    rw [← heq]
    exact space_notMem_firstWord s
  · intro hword
    obtain ⟨before, after, hs⟩ := eq_padded_trim s
    generalize hw : trim s = word at hs hword
    have hne : word ≠ [] := hw ▸ trim_ne_nil h
    rw [hs, firstWord_padded before after hne hword]

theorem count_trim {c : UInt8} (hc : c ≠ space) (s : Bytes) : (trim s).count c = s.count c := by
  obtain ⟨before, after, hs⟩ := eq_padded_trim s
  calc
    (trim s).count c = (padded before (trim s) after).count c := by
      rw [padded, List.count_append, List.count_append,
        List.count_eq_zero_of_not_mem (notMem_spaces hc before),
        List.count_eq_zero_of_not_mem (notMem_spaces hc after), Nat.zero_add, Nat.add_zero]
    _ = s.count c := by rw [← hs]

/-- A carriage return at the end of a key is lost. -/
theorem firstWord_ne_trim_of_return {key : Bytes}
    (h : key.getLast? = some carriageReturn) : firstWord space key.dropLast ≠ trim key := by
  intro heq
  have hkey : key.dropLast ++ [carriageReturn] = key := List.dropLast_append_getLast? _ h
  have hsub : (firstWord space key.dropLast).Sublist key.dropLast :=
    (List.takeWhile_sublist _).trans (List.dropWhile_sublist _)
  have hcount := hsub.count_le carriageReturn
  rw [heq, count_trim (by decide), ← hkey, List.count_append, hkey,
    List.count_singleton_self] at hcount
  omega

/-! ## What is stored -/

theorem withoutLineEnd_eq_withoutReturn {part : Bytes} (h : newline ∉ part) :
    withoutLineEnd part = withoutReturn part := by
  have hlast : part.getLast? ≠ some newline := fun hlast => h (List.mem_of_getLast? hlast)
  rw [withoutLineEnd, withoutReturn]
  simp only [hlast, false_or]

theorem ne_nil_of_not_onlyOf {s : Bytes} (h : ¬OnlyOf space s) : s ≠ [] := by
  rintro rfl
  exact h (by simp [OnlyOf])

theorem parseLine_pair {key val : Bytes} (h : PairLine key val) :
    parseLine (key ++ equals :: val) =
      if withoutReturn key ≠ [] ∧ (OnlyOf space (withoutReturn key) ∨
          withoutReturn val ≠ [] ∧ OnlyOf space (withoutReturn val)) then
        .error (.thrown .outOfRange)
      else if withoutReturn key = [] then .ok none
      else .ok (some (firstWord space (withoutReturn key),
        firstWord space (withoutReturn val))) := by
  have hempty : ¬EmptyPart key val := by
    rintro (hkey | ⟨_, hval⟩)
    · exact ne_nil_of_not_onlyOf h.key_text hkey
    · exact ne_nil_of_not_onlyOf h.val_text hval
  rw [parseLine_eq_of_assignment, assignment_append h.first_equals h.no_comment]
  simp only [parseAssignment_eq, if_neg hempty, BlankPart,
    withoutLineEnd_eq_withoutReturn h.one_line.1, withoutLineEnd_eq_withoutReturn h.one_line.2]

theorem storedIntact_iff_oneWordEach {key val : Bytes} (h : PairLine key val) :
    StoredIntact key val ↔ OneWordEach key val := by
  rw [StoredIntact, parseLine_pair h]
  constructor
  · intro hstored
    split at hstored
    case isTrue => cases hstored
    case isFalse hblank =>
      split at hstored
      case isTrue => cases hstored
      case isFalse hne =>
        rw [Except.ok.injEq, Option.some.injEq, Prod.mk.injEq] at hstored
        obtain ⟨hkey, hval⟩ := hstored
        refine ⟨fun hend => ?_, ?_, ?_, ?_⟩
        · rw [withoutReturn, if_pos hend] at hkey
          exact firstWord_ne_trim_of_return hend hkey
        · rw [← hkey]
          exact space_notMem_firstWord _
        · rw [← hval]
          exact space_notMem_firstWord _
        · by_contra hspaces
          rw [not_or, not_not] at hspaces
          exact hblank ⟨hne, .inr hspaces⟩
  · intro hwords
    have hkey : withoutReturn key = key := if_neg hwords.key_end
    have hkeyNe := ne_nil_of_not_onlyOf h.key_text
    rw [hkey, if_neg, if_neg hkeyNe, (firstWord_eq_trim_iff h.key_text).mpr hwords.key_word]
    · rcases hwords.val_text with hnil | hval
      · rw [hnil]
        rfl
      · rw [(firstWord_eq_trim_iff hval).mpr hwords.val_word]
    · rintro ⟨_, hkeySpaces | ⟨hvalNe, hvalSpaces⟩⟩
      · exact h.key_text hkeySpaces
      · exact hwords.val_text.elim hvalNe fun hval => hval hvalSpaces

/-- The interior of key and value survives exactly if there is none with a space
in it; values of such lines are then told apart. -/
theorem storedIntact_iff {key val : Bytes} (h : PairLine key val) :
    (StoredIntact key val ↔ OneWordEach key val) ∧
      ∀ key' val', PairLine key' val' → OneWordEach key val → OneWordEach key' val' →
        trim (withoutReturn val) ≠ trim (withoutReturn val') →
        ∀ k k' v, parseLine (key ++ equals :: val) = .ok (some (k, v)) →
          parseLine (key' ++ equals :: val') ≠ .ok (some (k', v)) := by
  refine ⟨storedIntact_iff_oneWordEach h, fun key' val' h' hwords hwords' hne k k' v hv hv' => ?_⟩
  have hstored := (storedIntact_iff_oneWordEach h).mpr hwords
  have hstored' := (storedIntact_iff_oneWordEach h').mpr hwords'
  rw [StoredIntact, hv, Except.ok.injEq, Option.some.injEq, Prod.mk.injEq] at hstored
  rw [StoredIntact, hv', Except.ok.injEq, Option.some.injEq, Prod.mk.injEq] at hstored'
  exact hne (hstored.2.symm.trans hstored'.2)

theorem storedIntact_iff_word :
    let key : Bytes := [0x6b]
    let val : Bytes := [0x76]
    (StoredIntact key val ↔ OneWordEach key val) ∧
      ∀ key' val', PairLine key' val' → OneWordEach key val → OneWordEach key' val' →
        trim (withoutReturn val) ≠ trim (withoutReturn val') →
        ∀ k k' v, parseLine (key ++ equals :: val) = .ok (some (k, v)) →
          parseLine (key' ++ equals :: val') ≠ .ok (some (k', v)) :=
  storedIntact_iff ⟨by decide, by decide, by decide, by decide, by decide⟩

/-- `k=a b` and `k=a c` are both read as `a`. -/
theorem not_storedIntact_space :
    let key : Bytes := [0x6b]
    let val : Bytes := [0x61, 0x20, 0x62]
    let val' : Bytes := [0x61, 0x20, 0x63]
    parseLine (key ++ equals :: val) = .ok (some (key, [0x61])) ∧
      parseLine (key ++ equals :: val') = .ok (some (key, [0x61])) ∧
      trim (withoutReturn val) ≠ trim (withoutReturn val') ∧
      ¬∀ key val, PairLine key val → StoredIntact key val := by
  refine ⟨rfl, rfl, by decide, fun h => ?_⟩
  have hintact := h [0x6b] [0x61, 0x20, 0x62]
    ⟨by decide, by decide, by decide, by decide, by decide⟩
  have hread : parseLine ([0x6b] ++ equals :: [0x61, 0x20, 0x62]) =
      .ok (some ([0x6b], [0x61])) := rfl
  rw [StoredIntact, hread, Except.ok.injEq, Option.some.injEq, Prod.mk.injEq] at hintact
  exact absurd hintact.2 (by decide)

end KitRpc.Config

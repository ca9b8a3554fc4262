import KitRpc.Config.IniParse
import Mathlib.Data.List.Forall2
/-!
# The layout of INI texts

What does not change what a text defines: whether its lines end in `\n` or in
`\r\n`, spaces around keys and values, and lines that define nothing.
-/

namespace KitRpc.Config

open KitRpc.Cpp

variable {ω : Type}

/-! ## A carriage return behind a line -/

/-- The text in front of the `=` makes the line a comment. -/
def CommentStart (key : Bytes) : Prop := (key.dropWhile (· == space)).head? = some hash

instance : DecidablePred CommentStart := fun _ => inferInstanceAs (Decidable (_ = _))

theorem assignment_eq_none {line : Bytes} (h : equals ∉ line) : assignment line = none := by
  unfold assignment
  split
  · rfl
  · rw [if_pos (.inr h)]

theorem assignment_append {key : Bytes} (hkey : equals ∉ key) (hcomment : ¬CommentStart key)
    (val : Bytes) : assignment (key ++ equals :: val) = some (key, val) := by
  have hhead : ∃ c rest, (key ++ equals :: val).dropWhile (· == space) = c :: rest ∧
      c ≠ hash := by
    cases hdrop : key.dropWhile (· == space) with
    | nil =>
        refine ⟨equals, val, ?_, by decide⟩
        rw [List.dropWhile_append, hdrop]
        rfl
    | cons c rest =>
        refine ⟨c, rest ++ equals :: val, ?_, ?_⟩
        · rw [List.dropWhile_append, hdrop]
          rfl
        · rintro rfl
          exact hcomment (by rw [CommentStart, hdrop]; rfl)
  obtain ⟨c, rest, hdrop, hc⟩ := hhead
  rw [assignment, hdrop]
  dsimp only
  rw [if_neg (by simp [hc]), takeWhile_ne_append hkey, dropWhile_ne_append hkey, List.tail_cons]

theorem assignment_comment {key : Bytes} (h : CommentStart key) (rest : Bytes) :
    assignment (key ++ rest) = none := by
  rw [CommentStart] at h
  cases hdrop : key.dropWhile (· == space) with
  | nil => simp [hdrop] at h
  | cons c tail =>
      rw [hdrop, List.head?_cons, Option.some.injEq] at h
      rw [assignment, List.dropWhile_append, hdrop]
      simp [h]

theorem line_cases (line : Bytes) :
    assignment line = none ∧ (CommentStart line ∨ equals ∉ line) ∨
      ∃ key val, line = key ++ equals :: val ∧ equals ∉ key ∧ ¬CommentStart key := by
  by_cases hmem : equals ∈ line
  · obtain ⟨key, val, rfl, hkey⟩ := List.eq_append_cons_of_mem hmem
    by_cases hcomment : CommentStart key
    · have hline : CommentStart (key ++ equals :: val) := by
        rw [CommentStart] at hcomment ⊢
        cases hdrop : key.dropWhile (· == space) with
        | nil => simp [hdrop] at hcomment
        | cons c tail =>
            rw [hdrop] at hcomment
            simpa [List.dropWhile_append, hdrop] using hcomment
      exact .inl ⟨assignment_comment hcomment _, .inl hline⟩
    · exact .inr ⟨key, val, rfl, hkey, hcomment⟩
  · exact .inl ⟨assignment_eq_none hmem, .inr hmem⟩

theorem assignment_carriageReturn (line : Bytes) :
    assignment (line ++ [carriageReturn]) =
      (assignment line).map fun parts => (parts.1, parts.2 ++ [carriageReturn]) := by
  rcases line_cases line with ⟨hnone, hcomment | hmem⟩ | ⟨key, val, rfl, hkey, hcomment⟩
  · rw [hnone, assignment_comment hcomment]
    rfl
  · have hequals : equals ∉ line ++ [carriageReturn] := by
      rw [List.mem_append, not_or]
      exact ⟨hmem, by decide⟩
    rw [hnone, assignment_eq_none hequals]
    rfl
  · rw [List.append_assoc, List.cons_append, assignment_append hkey hcomment,
      assignment_append hkey hcomment]
    rfl

theorem withoutLineEnd_carriageReturn (part : Bytes) :
    withoutLineEnd (part ++ [carriageReturn]) = part := by
  simp [withoutLineEnd]

theorem withoutLineEnd_of_notMem {part : Bytes} (hnewline : newline ∉ part)
    (hreturn : part.getLast? ≠ some carriageReturn) : withoutLineEnd part = part := by
  rw [withoutLineEnd, if_neg]
  rintro (h | h)
  · exact hnewline (List.mem_of_getLast? h)
  · exact hreturn h

/-- Where the parser can handle a line, one carriage return behind it is the
line end that the value loses. -/
theorem safeLine_carriageReturn {line : Bytes} (hnewline : newline ∉ line)
    (hreturn : carriageReturn ∉ line) (h : SafeLine line) :
    SafeLine (line ++ [carriageReturn]) ∧ entry (line ++ [carriageReturn]) = entry line := by
  rcases line_cases line with ⟨hnone, _⟩ | ⟨key, val, rfl, hkey, hcomment⟩
  · have hnone' : assignment (line ++ [carriageReturn]) = none := by
      rw [assignment_carriageReturn, hnone]
      rfl
    constructor
    · intro parts hparts
      rw [hnone'] at hparts
      cases hparts
    · rw [entry, entry, hnone, hnone']
  · have hparts := assignment_append hkey hcomment val
    have hparts' := assignment_carriageReturn (key ++ equals :: val)
    rw [hparts, Option.map_some] at hparts'
    have hval : withoutLineEnd val = val := by
      apply withoutLineEnd_of_notMem
      · intro hmem
        exact hnewline (by simp [hmem])
      · intro hlast
        exact hreturn (by simp [List.mem_of_getLast? hlast])
    obtain ⟨hempty, hblank⟩ := h _ hparts
    constructor
    · intro parts hmem
      rw [hparts', Option.mem_some_iff] at hmem
      subst hmem
      simp only [EmptyPart, BlankPart, withoutLineEnd_carriageReturn, hval] at hempty hblank ⊢
      refine ⟨?_, hblank⟩
      rintro (hnil | ⟨_, hnil⟩)
      · exact hempty (.inl hnil)
      · simp at hnil
    · simp only [entry, hparts, hparts', withoutLineEnd_carriageReturn, hval]

/-! ## The lines of a text -/

theorem getlines_of_notMem {line : Bytes} (h : newline ∉ line) (hne : line ≠ []) :
    getlines line = [line] := by
  induction line with
  | nil => exact absurd rfl hne
  | cons c line ih =>
      rw [List.mem_cons, not_or] at h
      rw [getlines_cons, if_neg (Ne.symm h.1)]
      by_cases hline : line = []
      · rw [hline]
        rfl
      · rw [ih h.2 hline]

theorem mem_of_mem_getlines {ss line : Bytes} (h : line ∈ getlines ss) {c : UInt8}
    (hc : c ∈ line) : c ∈ ss ∧ c ≠ newline := by
  induction ss generalizing line with
  | nil => cases h
  | cons x ss ih =>
      rw [List.mem_cons]
      rw [getlines_cons] at h
      split at h
      case isTrue =>
        rcases List.mem_cons.mp h with rfl | hrest
        · cases hc
        · exact ⟨.inr (ih hrest hc).1, (ih hrest hc).2⟩
      case isFalse hx =>
        split at h
        case h_1 =>
          rw [List.mem_singleton.mp h, List.mem_singleton] at hc
          exact ⟨.inl hc, hc ▸ hx⟩
        case h_2 first rest heq =>
          rw [heq] at ih
          rcases List.mem_cons.mp h with rfl | hrest
          · rcases List.mem_cons.mp hc with rfl | hfirst
            · exact ⟨.inl rfl, hx⟩
            · have hmem := ih List.mem_cons_self hfirst
              exact ⟨.inr hmem.1, hmem.2⟩
          · have hmem := ih (List.mem_cons_of_mem _ hrest) hc
            exact ⟨.inr hmem.1, hmem.2⟩

def crlf (data : Bytes) : Bytes :=
  data.flatMap fun c => if c = newline then [carriageReturn, newline] else [c]

theorem crlf_cons (c : UInt8) (data : Bytes) :
    crlf (c :: data) =
      (if c = newline then [carriageReturn, newline] else [c]) ++ crlf data := rfl

theorem crlf_eq_nil_iff {data : Bytes} : crlf data = [] ↔ data = [] := by
  cases data with
  | nil => simp [crlf]
  | cons c data =>
      rw [crlf_cons]
      split <;> simp

/-- Each line stays or ends in a carriage return. -/
theorem getlines_crlf (data : Bytes) :
    List.Forall₂ (fun line line' => line' = line ∨ line' = line ++ [carriageReturn])
      (getlines data) (getlines (crlf data)) := by
  induction data with
  | nil => exact .nil
  | cons c data ih =>
      rw [crlf_cons, getlines_cons]
      by_cases hc : c = newline
      · rw [if_pos hc, if_pos hc]
        exact .cons (.inr rfl) ih
      · rw [if_neg hc, if_neg hc, List.singleton_append, getlines_cons, if_neg hc]
        generalize getlines data = lines at ih
        generalize getlines (crlf data) = lines' at ih
        cases ih with
        | nil => exact .cons (.inl rfl) .nil
        | cons hline hlines =>
            apply List.Forall₂.cons _ hlines
            rcases hline with rfl | rfl
            · exact .inl rfl
            · exact .inr rfl

/-! ## Line ends do not matter -/

theorem parse_of_safe {data : Bytes} (h : ∀ line ∈ getlines data, SafeLine line)
    (items : ConfigItems ω) :
    (parse data items).items = insertEntries items (fileEntries data) ∧
      (parse data items).outcome =
        .ok (data ≠ [] ∧ (items ≠ [] ∨ fileEntries data ≠ [])) := by
  rw [parse_items, parse_outcome, faultyLine_eq_none_iff.mpr h, readEntries_of_safe h]
  exact ⟨rfl, rfl⟩

theorem lines_crlf {data : Bytes} (hreturn : carriageReturn ∉ data)
    (h : ∀ line ∈ getlines data, SafeLine line) :
    (∀ line ∈ getlines (crlf data), SafeLine line) ∧
      fileEntries (crlf data) = fileEntries data := by
  have hboth : List.Forall₂ (fun line line' => SafeLine line' ∧ entry line' = entry line)
      (getlines data) (getlines (crlf data)) := by
    apply ((List.forall₂_and_left _ _).mpr ⟨fun line hline => hline, getlines_crlf data⟩).imp
    rintro line line' ⟨hmem, rfl | rfl⟩
    · exact ⟨h _ hmem, rfl⟩
    · apply safeLine_carriageReturn _ _ (h _ hmem)
      · intro hc
        exact (mem_of_mem_getlines hmem hc).2 rfl
      · intro hc
        exact hreturn (mem_of_mem_getlines hmem hc).1
  rw [fileEntries, fileEntries]
  generalize getlines data = lines at hboth
  generalize getlines (crlf data) = lines' at hboth
  induction hboth with
  | nil => exact ⟨by simp, rfl⟩
  | cons hline _ ih =>
      refine ⟨List.forall_mem_cons.mpr ⟨hline.1, ih.1⟩, ?_⟩
      rw [List.filterMap_cons, List.filterMap_cons, hline.2, ih.2]

/-- A text is read the same with `\r\n` at the ends of its lines. -/
theorem parse_crlf {data : Bytes} (hreturn : carriageReturn ∉ data) (items : ConfigItems ω)
    (h : (parse data items).ReturnsNormally) :
    (parse (crlf data) items).ReturnsNormally ∧ parse (crlf data) items = parse data items := by
  obtain ⟨result, hresult⟩ := h
  have hsafe := safe_of_outcome hresult
  obtain ⟨hlines, hentries⟩ := lines_crlf hreturn hsafe
  obtain ⟨hitems, houtcome⟩ := parse_of_safe hsafe items
  obtain ⟨hitems', houtcome'⟩ := parse_of_safe hlines items
  rw [hentries] at hitems' houtcome'
  simp only [ne_eq, crlf_eq_nil_iff] at houtcome houtcome'
  refine ⟨⟨_, houtcome'⟩, ?_⟩
  calc
    parse (crlf data) items =
        ⟨(parse (crlf data) items).items, (parse (crlf data) items).outcome⟩ := rfl
    _ = ⟨(parse data items).items, (parse data items).outcome⟩ := by
      rw [hitems, hitems', houtcome, houtcome']

theorem parse_crlf_pair :
    let data : Bytes := [0x6b, 0x3d, 0x76, 0x0a]
    (parse (crlf data) ([] : ConfigItems Unit)).ReturnsNormally ∧
      parse (crlf data) ([] : ConfigItems Unit) = parse data [] :=
  parse_crlf (by decide) [] ⟨true, rfl⟩

/-! ## Printed pairs -/

/-- One word, in which no comment, second `=` or line end is seen. -/
structure PlainKey (key : Bytes) : Prop where
  ne_nil : key ≠ []
  chars : space ∉ key ∧ equals ∉ key ∧ newline ∉ key
  start : key.head? ≠ some hash
  last : key.getLast? ≠ some carriageReturn

/-- One word without a line end. -/
structure PlainVal (val : Bytes) : Prop where
  ne_nil : val ≠ []
  chars : space ∉ val ∧ newline ∉ val
  last : val.getLast? ≠ some carriageReturn

structure IniPair where
  key : Bytes
  val : Bytes
  plainKey : PlainKey key
  plainVal : PlainVal val

def spaces (n : Nat) : Bytes := List.replicate n space

def padded (before : Nat) (word : Bytes) (after : Nat) : Bytes :=
  spaces before ++ word ++ spaces after

/-- A line as it may be written: a pair with spaces around key and value, spaces,
a comment, or other text. -/
inductive IniLine
  | pair (p : IniPair) (beforeKey afterKey beforeVal afterVal : Nat)
  | blank (n : Nat)
  | comment (n : Nat) (text : Bytes) (h : newline ∉ text)
  | other (text : Bytes) (h : equals ∉ text ∧ newline ∉ text)

namespace IniLine

def text : IniLine → Bytes
  | pair p beforeKey afterKey beforeVal afterVal =>
    padded beforeKey p.key afterKey ++ equals :: padded beforeVal p.val afterVal
  | blank n => spaces n
  | comment n text _ => spaces n ++ hash :: text
  | other text _ => text

def pair? : IniLine → Option IniPair
  | pair p _ _ _ _ => some p
  | _ => none

end IniLine

inductive LineEnd
  | lf
  | crlf

namespace LineEnd

def text : LineEnd → Bytes
  | lf => [newline]
  | crlf => [carriageReturn, newline]

def rest : LineEnd → Bytes
  | lf => []
  | crlf => [carriageReturn]

end LineEnd

def printed (lines : List (IniLine × LineEnd)) (last : Option IniLine) : Bytes :=
  lines.flatMap (fun line => line.1.text ++ line.2.text) ++ last.elim [] IniLine.text

def pairsOf (lines : List (IniLine × LineEnd)) (last : Option IniLine) : List IniPair :=
  (lines.map Prod.fst ++ last.toList).filterMap IniLine.pair?

theorem notMem_spaces {c : UInt8} (hc : c ≠ space) (n : Nat) : c ∉ spaces n := by
  intro h
  exact hc (List.eq_of_mem_replicate h)

theorem mem_padded {before after : Nat} {word : Bytes} {c : UInt8} (hc : c ≠ space) :
    c ∈ padded before word after ↔ c ∈ word := by
  simp [padded, spaces, hc]

theorem dropWhile_spaces (n : Nat) (s : Bytes) :
    (spaces n ++ s).dropWhile (· == space) = s.dropWhile (· == space) := by
  apply List.dropWhile_append_of_pos
  intro x hx
  exact beq_iff_eq.mpr (List.eq_of_mem_replicate hx)

theorem takeWhile_spaces (n : Nat) : (spaces n).takeWhile (· != space) = [] := by
  cases n <;> simp [spaces, List.replicate_succ]

theorem dropWhile_word {word : Bytes} (hne : word ≠ []) (h : space ∉ word) (rest : Bytes) :
    (word ++ rest).dropWhile (· == space) = word ++ rest := by
  cases word with
  | nil => exact absurd rfl hne
  | cons c word =>
      rw [List.mem_cons, not_or] at h
      rw [List.cons_append, List.dropWhile_cons_of_neg (by simpa using Ne.symm h.1)]

theorem firstWord_padded (before after : Nat) {word : Bytes} (hne : word ≠ [])
    (h : space ∉ word) : firstWord space (padded before word after) = word := by
  have htake (x : UInt8) (hx : x ∈ word) : (x != space) = true :=
    bne_iff_ne.mpr (ne_of_mem_of_not_mem hx h)
  rw [firstWord, padded, List.append_assoc, dropWhile_spaces, dropWhile_word hne h,
    List.takeWhile_append_of_pos htake, takeWhile_spaces, List.append_nil]

theorem not_onlyOf_padded (before after : Nat) {word : Bytes} (hne : word ≠ [])
    (h : space ∉ word) : ¬OnlyOf space (padded before word after) := by
  obtain ⟨c, hc⟩ := List.exists_mem_of_ne_nil word hne
  intro honly
  have hspace : c = space := honly c (by simp [padded, hc])
  exact h (hspace ▸ hc)

theorem padded_ne_nil (before after : Nat) {word : Bytes} (hne : word ≠ []) :
    padded before word after ≠ [] := by
  simp [padded, hne]

theorem withoutLineEnd_padded (before after : Nat) {word : Bytes} (hne : word ≠ [])
    (hnewline : newline ∉ word) (hend : word.getLast? ≠ some carriageReturn) :
    withoutLineEnd (padded before word after) = padded before word after := by
  apply withoutLineEnd_of_notMem
  · rwa [mem_padded (by decide)]
  · cases after with
    | zero => simpa [padded, spaces, List.getLast?_append, hne] using hend
    | succ after =>
        rw [padded, spaces, spaces, List.replicate_succ', ← List.append_assoc,
          List.getLast?_concat]
        decide

namespace IniPair

variable (p : IniPair) (beforeKey afterKey beforeVal afterVal : Nat)

theorem not_commentStart : ¬CommentStart (padded beforeKey p.key afterKey) := by
  rw [CommentStart, padded, List.append_assoc, dropWhile_spaces,
    dropWhile_word p.plainKey.ne_nil p.plainKey.chars.1,
    List.head?_append_of_ne_nil _ p.plainKey.ne_nil]
  exact p.plainKey.start

/-- Whichever way its line ends, the pair is what it is read as. -/
theorem read_of_assignment {line : Bytes} {e : LineEnd}
    (h : assignment line =
      some (padded beforeKey p.key afterKey, padded beforeVal p.val afterVal ++ e.rest)) :
    SafeLine line ∧ entry line = some (p.key, p.val) := by
  have hkey := withoutLineEnd_padded beforeKey afterKey p.plainKey.ne_nil p.plainKey.chars.2.2
    p.plainKey.last
  have hval : withoutLineEnd (padded beforeVal p.val afterVal ++ e.rest) =
      padded beforeVal p.val afterVal := by
    cases e with
    | lf =>
        rw [LineEnd.rest, List.append_nil]
        exact withoutLineEnd_padded beforeVal afterVal p.plainVal.ne_nil p.plainVal.chars.2
          p.plainVal.last
    | crlf => exact withoutLineEnd_carriageReturn _
  have hkeyWord := not_onlyOf_padded beforeKey afterKey p.plainKey.ne_nil p.plainKey.chars.1
  have hvalWord := not_onlyOf_padded beforeVal afterVal p.plainVal.ne_nil p.plainVal.chars.1
  have hkeyNe := padded_ne_nil beforeKey afterKey p.plainKey.ne_nil
  have hvalNe := padded_ne_nil beforeVal afterVal p.plainVal.ne_nil
  constructor
  · intro parts hparts
    rw [h, Option.mem_some_iff] at hparts
    subst hparts
    simp [EmptyPart, BlankPart, hkey, hval, hkeyWord, hvalWord, hkeyNe, hvalNe]
  · simp only [entry, h, hkey, hval, if_neg hkeyNe,
      firstWord_padded _ _ p.plainKey.ne_nil p.plainKey.chars.1,
      firstWord_padded _ _ p.plainVal.ne_nil p.plainVal.chars.1]

end IniPair

theorem IniLine.newline_notMem_text (line : IniLine) : newline ∉ line.text := by
  cases line with
  | pair p _ _ _ _ =>
      rw [text, List.mem_append, List.mem_cons, mem_padded (by decide), mem_padded (by decide)]
      rintro (hkey | heq | hval)
      · exact p.plainKey.chars.2.2 hkey
      · exact absurd heq (by decide)
      · exact p.plainVal.chars.2 hval
  | blank n => exact notMem_spaces (by decide) n
  | comment n text h =>
      rw [IniLine.text, List.mem_append, List.mem_cons]
      rintro (hspaces | heq | htext)
      · exact notMem_spaces (by decide) n hspaces
      · exact absurd heq (by decide)
      · exact h htext
  | other text h => exact h.2

theorem IniLine.read (line : IniLine) (e : LineEnd) :
    SafeLine (line.text ++ e.rest) ∧
      entry (line.text ++ e.rest) = line.pair?.map fun p => (p.key, p.val) := by
  have hnoise {s : Bytes} (h : assignment s = none) : SafeLine s ∧ entry s = none := by
    simp [SafeLine, entry, h]
  have hrest : equals ∉ e.rest := by cases e <;> decide
  cases line with
  | pair p beforeKey afterKey beforeVal afterVal =>
      apply p.read_of_assignment beforeKey afterKey beforeVal afterVal
      rw [text, List.append_assoc, List.cons_append]
      apply assignment_append
      · rw [mem_padded (by decide)]
        exact p.plainKey.chars.2.1
      · exact p.not_commentStart beforeKey afterKey
  | blank n =>
      apply hnoise
      apply assignment_eq_none
      rw [List.mem_append, not_or]
      exact ⟨notMem_spaces (by decide) n, hrest⟩
  | comment n text h =>
      apply hnoise
      rw [IniLine.text, List.append_assoc, List.cons_append, List.append_cons]
      apply assignment_comment
      rw [CommentStart, dropWhile_spaces]
      rfl
  | other text h =>
      apply hnoise
      apply assignment_eq_none
      rw [List.mem_append, not_or]
      exact ⟨h.1, hrest⟩

theorem getlines_printed_cons (line : IniLine) (e : LineEnd) (lines : List (IniLine × LineEnd))
    (last : Option IniLine) :
    getlines (printed ((line, e) :: lines) last) =
      (line.text ++ e.rest) :: getlines (printed lines last) := by
  have hend : e.text = e.rest ++ [newline] := by cases e <;> rfl
  have hnewline : newline ∉ line.text ++ e.rest := by
    rw [List.mem_append, not_or]
    exact ⟨line.newline_notMem_text, by cases e <;> decide⟩
  calc
    getlines (printed ((line, e) :: lines) last) =
        getlines ((line.text ++ e.rest) ++ newline :: printed lines last) := by
      simp [printed, hend]
    _ = (line.text ++ e.rest) :: getlines (printed lines last) :=
      getlines_append_newline hnewline _

/-- All lines of a printed text are read, as the pairs among them. -/
theorem lines_printed (lines : List (IniLine × LineEnd)) (last : Option IniLine) :
    (∀ line ∈ getlines (printed lines last), SafeLine line) ∧
      fileEntries (printed lines last) =
        (pairsOf lines last).map fun p => (p.key, p.val) := by
  induction lines with
  | nil =>
      cases last with
      | none => exact ⟨by simp [printed], rfl⟩
      | some line =>
          obtain ⟨hsafe, hentry⟩ := line.read .lf
          rw [LineEnd.rest, List.append_nil] at hsafe hentry
          have hprinted : printed [] (some line) = line.text := List.nil_append _
          rw [hprinted, fileEntries]
          by_cases hempty : line.text = []
          · have hpair : line.pair? = none := by
              rw [hempty] at hentry
              exact Option.map_eq_none_iff.mp hentry.symm
            simp [hempty, pairsOf, hpair]
          · rw [getlines_of_notMem line.newline_notMem_text hempty]
            refine ⟨by simpa using hsafe, ?_⟩
            cases hpair : line.pair? <;> simp [hentry, pairsOf, hpair]
  | cons line lines ih =>
      obtain ⟨line, e⟩ := line
      obtain ⟨hsafe, hentry⟩ := line.read e
      rw [fileEntries, getlines_printed_cons]
      refine ⟨List.forall_mem_cons.mpr ⟨hsafe, ih.1⟩, ?_⟩
      rw [fileEntries] at ih
      rw [List.filterMap_cons, hentry, ih.2]
      cases hpair : line.pair? <;> simp [pairsOf, hpair]

theorem valueIn_eq_find (entries : List (Bytes × Bytes)) (key : Bytes) :
    valueIn entries key = UnorderedMap.find entries key := by
  induction entries with
  | nil => rfl
  | cons e entries ih =>
      rw [UnorderedMap.find_cons, ← ih, valueIn, valueIn]
      by_cases h : e.1 = key
      · rw [List.find?_cons_of_pos (by simpa using h), if_pos h.symm]
        rfl
      · rw [List.find?_cons_of_neg (by simpa using h), if_neg (Ne.symm h)]

/-- Parsing undoes printing: a text that holds some pairs with distinct keys,
between other lines that define nothing, gives exactly these. -/
theorem parse_printed {lines : List (IniLine × LineEnd)} {last : Option IniLine}
    (hne : pairsOf lines last ≠ []) (hkeys : ((pairsOf lines last).map IniPair.key).Nodup) :
    let parsed := parse (printed lines last) ([] : ConfigItems ω)
    parsed.outcome = .ok true ∧
      ∀ key value, parsed.items.find key = some value ↔
        ∃ p ∈ pairsOf lines last, p.key = key ∧ .text p.val = value := by
  obtain ⟨hsafe, hentries⟩ := lines_printed lines last
  obtain ⟨hitems, houtcome⟩ := parse_of_safe hsafe ([] : ConfigItems ω)
  dsimp only
  rw [hitems, houtcome, hentries]
  constructor
  · have hdata : printed lines last ≠ [] := by
      intro hnil
      rw [hnil] at hentries
      exact hne (List.map_eq_nil_iff.mp hentries.symm)
    simp [hdata, hne]
  · intro key value
    have hnodup : UnorderedMap.KeysNodup
        ((pairsOf lines last).map fun p => (p.key, p.val)) := by
      rwa [UnorderedMap.KeysNodup, List.map_map]
    rw [find_insertEntries, UnorderedMap.find_nil, Option.none_or, Option.map_eq_some_iff]
    simp only [valueIn_eq_find, UnorderedMap.find_eq_some_iff hnodup, List.mem_map,
      Prod.mk.injEq]
    constructor
    · rintro ⟨val, ⟨p, hp, hkey, rfl⟩, hvalue⟩
      exact ⟨p, hp, hkey, hvalue⟩
    · rintro ⟨p, hp, hkey, hvalue⟩
      exact ⟨p.val, ⟨p, hp, hkey, rfl⟩, hvalue⟩

theorem parse_printed_pair :
    let p : IniPair :=
      { key := [0x6b], val := [0x76, 0x3d, 0x77],
        plainKey := ⟨by decide, by decide, by decide, by decide⟩,
        plainVal := ⟨by decide, by decide, by decide⟩ }
    let parsed := parse (printed [(.comment 0 [0x20] (by decide), .lf), (.blank 0, .crlf)]
      (some (.pair p 1 1 1 0))) ([] : ConfigItems Unit)
    parsed.outcome = .ok true ∧
      ∀ key value, parsed.items.find key = some value ↔
        ∃ p' ∈ [p], p'.key = key ∧ .text p'.val = value :=
  parse_printed (by decide) (by decide)

end KitRpc.Config

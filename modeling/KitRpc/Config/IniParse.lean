import KitRpc.Cpp.Text
import KitRpc.Cpp.UnorderedMap
/-!
# The INI parser

`IniConfigParse::parse` goes through the lines of a text and inserts what they
define into the configuration's items. The parts in front of and behind the `=`
of a line lose their line end and everything but their first word.

`entry` says which key and value a line is read as; the parser agrees with it on
the lines whose parts it can handle.
-/

namespace KitRpc.Config

open KitRpc.Cpp

/-- A `boost::any` of the items: a `std::string`, as all that the parser stores,
or a value of another type. -/
inductive ConfigValue (ω : Type)
  | text (s : Bytes)
  | other (value : ω)
  deriving DecidableEq, Repr

abbrev ConfigItems (ω : Type) := UnorderedMap (ConfigValue ω)

/-- How the parser fails: an exception leaves it, or it does what the library
leaves undefined. -/
inductive ParseFault
  | thrown (e : StdException)
  | undefined
  deriving DecidableEq, Repr

def hash : UInt8 := 0x23

def equals : UInt8 := 0x3d

def trimAllSpace (s : Bytes) : Except ParseFault Bytes :=
  match findFirstNotOf s space with
  | none =>
    -- both searches give `npos`, where `substr` cannot start
    .error (.thrown .outOfRange)
  | some pos =>
    let pos2 := (findFirstOf s space pos).getD s.length
    match substr s pos (pos2 - pos) with
    | none => .error (.thrown .outOfRange)
    | some s => .ok s

/-- `if(s.back() == '\n' || s.back() == '\r') s.pop_back();` -/
def popLineEnd (s : Bytes) : Except ParseFault Bytes :=
  match back s with
  | none => .error .undefined
  | some c =>
    if c = newline ∨ c = carriageReturn then
      match popBack s with
      | none => .error .undefined
      | some s => .ok s
    else .ok s

/-- What the loop makes of `line.substr(0, pos2)` and `line.substr(pos2 + 1)`:
the key and the value it inserts, or nothing. -/
def parseAssignment (key val : Bytes) : Except ParseFault (Option (Bytes × Bytes)) := do
  let key ← popLineEnd key
  if key = [] then return none
  let key ← trimAllSpace key
  let val ← popLineEnd val
  if val = [] then return some (key, val)
  let val ← trimAllSpace val
  return some (key, val)

def parseLine (line : Bytes) : Except ParseFault (Option (Bytes × Bytes)) :=
  if line = [newline] ∨ line = [carriageReturn, newline] then .ok none
  else
    match findFirstNotOf line space with
    | none => .ok none
    | some pos =>
      if (line)[pos]? = some hash then .ok none
      else
        match find line equals with
        | none => .ok none
        | some pos2 =>
          match substr line 0 pos2, substr line (pos2 + 1) line.length with
          | some key, some val => parseAssignment key val
          | _, _ => .error (.thrown .outOfRange)

/-- The items after `parse`, and what it returned or how it failed. -/
structure Parsed (ω : Type) where
  items : ConfigItems ω
  outcome : Except ParseFault Bool

variable {ω : Type}

def parseLines (items : ConfigItems ω) : List Bytes → Parsed ω
  | [] => ⟨items, .ok (!items.isEmpty)⟩
  | line :: lines =>
    match parseLine line with
    | .error fault => ⟨items, .error fault⟩
    | .ok none => parseLines items lines
    | .ok (some (key, val)) => parseLines (items.insert key (.text val)) lines

def parse (data : Bytes) (items : ConfigItems ω) : Parsed ω :=
  if data = [] then ⟨items, .ok false⟩ else parseLines items (getlines data)

/-! ## What a line defines -/

/-- The parts around the first `=` of a line that is no comment. -/
def assignment (line : Bytes) : Option (Bytes × Bytes) :=
  match line.dropWhile (· == space) with
  | [] => none
  | c :: _ =>
    if c = hash ∨ equals ∉ line then none
    else some (line.takeWhile (· ≠ equals), (line.dropWhile (· ≠ equals)).tail)

def withoutLineEnd (part : Bytes) : Bytes :=
  if part.getLast? = some newline ∨ part.getLast? = some carriageReturn then part.dropLast
  else part

/-- The key and the value of a line. A key part of a mere line end is none. -/
def entry (line : Bytes) : Option (Bytes × Bytes) :=
  match assignment line with
  | none => none
  | some (key, val) =>
    if withoutLineEnd key = [] then none
    else some (firstWord space (withoutLineEnd key), firstWord space (withoutLineEnd val))

/-- The parts hold no text where the parser asks for a last character. -/
def EmptyPart (key val : Bytes) : Prop :=
  key = [] ∨ ¬OnlyOf space (withoutLineEnd key) ∧ val = []

/-- The parts hold nothing but spaces where the parser asks for a word. -/
def BlankPart (key val : Bytes) : Prop :=
  withoutLineEnd key ≠ [] ∧ (OnlyOf space (withoutLineEnd key) ∨
    withoutLineEnd val ≠ [] ∧ OnlyOf space (withoutLineEnd val))

instance (key val : Bytes) : Decidable (EmptyPart key val) :=
  inferInstanceAs (Decidable (_ ∨ _))

instance (key val : Bytes) : Decidable (BlankPart key val) :=
  inferInstanceAs (Decidable (_ ∧ _))

def SafeLine (line : Bytes) : Prop :=
  ∀ parts ∈ assignment line, ¬EmptyPart parts.1 parts.2 ∧ ¬BlankPart parts.1 parts.2

instance : DecidablePred SafeLine := fun line =>
  match h : assignment line with
  | none => .isTrue (by simp [SafeLine, h])
  | some parts =>
    decidable_of_iff (¬EmptyPart parts.1 parts.2 ∧ ¬BlankPart parts.1 parts.2)
      (by simp [SafeLine, h])

/-! ## The parser agrees -/

theorem trimAllSpace_eq (s : Bytes) :
    trimAllSpace s =
      if OnlyOf space s then .error (.thrown .outOfRange) else .ok (firstWord space s) := by
  unfold trimAllSpace
  cases hpos : findFirstNotOf s space with
  | none => rw [if_pos (findFirstNotOf_eq_none_iff.mp hpos)]
  | some pos =>
      have hword : ¬OnlyOf space s := by
        intro hblank
        rw [findFirstNotOf_eq_none_iff.mpr hblank] at hpos
        cases hpos
      simp only [substr_findFirstOf hpos, if_neg hword]

theorem popLineEnd_eq (s : Bytes) :
    popLineEnd s = if s = [] then .error .undefined else .ok (withoutLineEnd s) := by
  unfold popLineEnd back
  cases hlast : s.getLast? with
  | none => rw [if_pos (List.getLast?_eq_none_iff.mp hlast)]
  | some c =>
      have hs : s ≠ [] := by
        rintro rfl
        cases hlast
      simp only [popBack, withoutLineEnd, hlast, if_neg hs, Option.some.injEq]
      split <;> rfl

theorem parseAssignment_eq (key val : Bytes) :
    parseAssignment key val =
      if EmptyPart key val then .error .undefined
      else if BlankPart key val then .error (.thrown .outOfRange)
      else if withoutLineEnd key = [] then .ok none
      else .ok (some (firstWord space (withoutLineEnd key),
        firstWord space (withoutLineEnd val))) := by
  unfold parseAssignment EmptyPart BlankPart
  simp only [popLineEnd_eq, trimAllSpace_eq, bind, Except.bind, pure, Except.pure]
  by_cases hkey : key = []
  · simp [hkey]
  by_cases hkeyEnd : withoutLineEnd key = []
  · simp [hkey, hkeyEnd, OnlyOf]
  by_cases hkeyBlank : OnlyOf space (withoutLineEnd key)
  · simp [hkey, hkeyEnd, hkeyBlank]
  by_cases hval : val = []
  · simp [hkey, hkeyEnd, hkeyBlank, hval]
  by_cases hvalEnd : withoutLineEnd val = []
  · simp [hkey, hkeyEnd, hkeyBlank, hval, hvalEnd]
  by_cases hvalBlank : OnlyOf space (withoutLineEnd val)
  · simp [hkey, hkeyEnd, hkeyBlank, hval, hvalEnd, hvalBlank]
  · simp [hkey, hkeyEnd, hkeyBlank, hval, hvalEnd, hvalBlank]

/-- The test for a blank line, the search for a comment and the search for `=`
pick out the assignments. -/
theorem parseLine_eq_of_assignment (line : Bytes) :
    parseLine line =
      match assignment line with
      | none => .ok none
      | some (key, val) => parseAssignment key val := by
  unfold parseLine assignment
  by_cases hempty : line = [newline] ∨ line = [carriageReturn, newline]
  · rw [if_pos hempty]
    rcases hempty with rfl | rfl <;> rfl
  rw [if_neg hempty]
  cases hpos : findFirstNotOf line space with
  | none =>
      have hdrop : line.dropWhile (· == space) = [] := by
        rw [List.dropWhile_eq_nil_iff]
        simpa [OnlyOf] using findFirstNotOf_eq_none_iff.mp hpos
      simp only [hdrop]
  | some pos =>
      obtain ⟨hlt, hdrop⟩ := dropWhile_of_findFirstNotOf hpos
      rw [List.drop_eq_getElem_cons hlt] at hdrop
      simp only [hdrop, List.getElem?_eq_getElem hlt, Option.some.injEq]
      by_cases hhash : (line)[pos] = hash
      · simp only [hhash, true_or, if_true]
      by_cases hmem : equals ∈ line
      · obtain ⟨before, after, rfl, hbefore⟩ := List.eq_append_cons_of_mem hmem
        simp only [find_append hbefore after, substr_before, substr_behind,
          takeWhile_ne_append hbefore, dropWhile_ne_append hbefore, List.tail_cons,
          hhash, hmem, not_true_eq_false, or_self, if_false]
      · rw [find_eq_none_iff.mpr hmem]
        simp only [hhash, hmem, not_false_eq_true, or_true, if_true, if_false]

/-- A line is skipped or read as its entry where the parser can handle it. -/
theorem parseLine_eq (line : Bytes) :
    parseLine line =
      match assignment line with
      | none => .ok none
      | some (key, val) =>
        if EmptyPart key val then .error .undefined
        else if BlankPart key val then .error (.thrown .outOfRange)
        else .ok (entry line) := by
  rw [parseLine_eq_of_assignment, entry]
  cases assignment line with
  | none => rfl
  | some parts =>
      simp only [parseAssignment_eq]
      by_cases hkey : withoutLineEnd parts.1 = []
      · simp only [hkey, if_true]
      · simp only [hkey, if_false]

/-! ## A whole text -/

def lineFault (line : Bytes) : ParseFault :=
  match assignment line with
  | none => .undefined
  | some (key, val) => if EmptyPart key val then .undefined else .thrown .outOfRange

def faultyLine (data : Bytes) : Option Bytes := (getlines data).find? fun line => ¬SafeLine line

/-- What the lines before that one define. -/
def readEntries (data : Bytes) : List (Bytes × Bytes) :=
  ((getlines data).takeWhile fun line => SafeLine line).filterMap entry

def fileEntries (data : Bytes) : List (Bytes × Bytes) := (getlines data).filterMap entry

def valueIn (entries : List (Bytes × Bytes)) (key : Bytes) : Option Bytes :=
  (entries.find? fun e => e.1 = key).map Prod.snd

def insertEntries (items : ConfigItems ω) (entries : List (Bytes × Bytes)) : ConfigItems ω :=
  entries.foldl (fun items e => items.insert e.1 (.text e.2)) items

theorem insertEntries_append (items : ConfigItems ω) (first second : List (Bytes × Bytes)) :
    insertEntries (insertEntries items first) second = insertEntries items (first ++ second) :=
  List.foldl_append.symm

theorem valueIn_append (first second : List (Bytes × Bytes)) (key : Bytes) :
    valueIn (first ++ second) key = (valueIn first key).or (valueIn second key) := by
  rw [valueIn, List.find?_append, Option.map_or]
  rfl

theorem find_insertEntries (items : ConfigItems ω) (entries : List (Bytes × Bytes))
    (key : Bytes) :
    (insertEntries items entries).find key =
      (items.find key).or ((valueIn entries key).map .text) := by
  rw [insertEntries,
    UnorderedMap.find_foldl_insert Prod.fst (fun e => ConfigValue.text e.2), valueIn,
    Option.map_map]
  rfl

theorem insertEntries_eq_nil_iff {items : ConfigItems ω} {entries : List (Bytes × Bytes)} :
    insertEntries items entries = [] ↔ items = [] ∧ entries = [] := by
  induction entries generalizing items with
  | nil => simp [insertEntries]
  | cons e entries ih =>
      have hinsert : items.insert e.1 (.text e.2) ≠ [] := by
        rcases UnorderedMap.insert_cases items e.1 (.text e.2) with ⟨h, hold⟩ | ⟨h, _⟩
        · rw [h]
          rintro rfl
          cases hold
        · simp [h]
      simp only [insertEntries, List.foldl_cons] at ih ⊢
      rw [ih]
      simp [hinsert]

theorem parseLine_of_safe {line : Bytes} (h : SafeLine line) :
    parseLine line = .ok (entry line) := by
  rw [parseLine_eq]
  cases hparts : assignment line with
  | none => simp only [entry, hparts]
  | some parts =>
      obtain ⟨hempty, hblank⟩ := h parts hparts
      simp only [if_neg hempty, if_neg hblank]

theorem parseLine_of_not_safe {line : Bytes} (h : ¬SafeLine line) :
    parseLine line = .error (lineFault line) := by
  rw [parseLine_eq, lineFault]
  cases hparts : assignment line with
  | none => simp [SafeLine, hparts] at h
  | some parts =>
      by_cases hempty : EmptyPart parts.1 parts.2
      · simp only [if_pos hempty]
      · have hblank : BlankPart parts.1 parts.2 := by
          by_contra hblank
          apply h
          intro parts' hparts'
          rw [hparts, Option.mem_some_iff] at hparts'
          exact hparts' ▸ ⟨hempty, hblank⟩
        simp only [if_neg hempty, if_pos hblank]

/-- The loop inserts what the lines define up to the first that it cannot
handle. -/
theorem parseLines_eq (items : ConfigItems ω) (lines : List Bytes) :
    parseLines items lines =
      let entries := (lines.takeWhile fun line => SafeLine line).filterMap entry
      ⟨insertEntries items entries,
        match lines.find? fun line => ¬SafeLine line with
        | none => .ok (!(insertEntries items entries).isEmpty)
        | some line => .error (lineFault line)⟩ := by
  induction lines generalizing items with
  | nil => rfl
  | cons line lines ih =>
      rw [parseLines]
      by_cases hsafe : SafeLine line
      · rw [parseLine_of_safe hsafe, List.takeWhile_cons_of_pos (by simpa using hsafe),
          List.find?_cons_of_neg (by simpa using hsafe)]
        cases hentry : entry line with
        | none => simp only [ih, List.filterMap_cons_none hentry]
        | some e => simp only [ih, List.filterMap_cons_some hentry, insertEntries, List.foldl_cons]
      · rw [parseLine_of_not_safe hsafe, List.takeWhile_cons_of_neg (by simpa using hsafe),
          List.find?_cons_of_pos (by simpa using hsafe)]
        rfl

theorem parse_items (data : Bytes) (items : ConfigItems ω) :
    (parse data items).items = insertEntries items (readEntries data) := by
  unfold parse
  split
  case isTrue h =>
    rw [h]
    rfl
  case isFalse => rw [parseLines_eq, readEntries]

theorem parse_outcome (data : Bytes) (items : ConfigItems ω) :
    (parse data items).outcome =
      match faultyLine data with
      | none => .ok (data ≠ [] ∧ (items ≠ [] ∨ readEntries data ≠ []))
      | some line => .error (lineFault line) := by
  unfold parse
  split
  case isTrue h =>
    rw [h]
    rfl
  case isFalse h =>
    simp only [parseLines_eq, faultyLine]
    cases (getlines data).find? fun line => ¬SafeLine line with
    | none =>
        rw [← readEntries, Except.ok.injEq, Bool.eq_iff_iff, decide_eq_true_iff,
          Bool.not_eq_true', List.isEmpty_eq_false_iff, ne_eq, insertEntries_eq_nil_iff,
          not_and_or, and_iff_right h]
    | some line => rfl

theorem readEntries_of_safe {data : Bytes} (h : ∀ line ∈ getlines data, SafeLine line) :
    readEntries data = fileEntries data := by
  rw [readEntries, fileEntries, List.takeWhile_eq_self_iff.mpr]
  intro line hline
  exact decide_eq_true (h line hline)

theorem faultyLine_eq_none_iff {data : Bytes} :
    faultyLine data = none ↔ ∀ line ∈ getlines data, SafeLine line := by
  simp [faultyLine]

theorem safe_of_outcome {data : Bytes} {items : ConfigItems ω} {result : Bool}
    (h : (parse data items).outcome = .ok result) : ∀ line ∈ getlines data, SafeLine line := by
  rw [← faultyLine_eq_none_iff]
  rw [parse_outcome] at h
  cases hfaulty : faultyLine data with
  | none => rfl
  | some line =>
      rw [hfaulty] at h
      cases h

def Parsed.ReturnsNormally (parsed : Parsed ω) : Prop := ∃ result, parsed.outcome = .ok result

/-- The parser returns exactly if no part of an assignment is empty or of spaces
only, where a line end at the end of the part does not count. -/
theorem returnsNormally_iff (data : Bytes) (items : ConfigItems ω) :
    (parse data items).ReturnsNormally ↔ ∀ line ∈ getlines data, SafeLine line := by
  rw [Parsed.ReturnsNormally, parse_outcome, ← faultyLine_eq_none_iff]
  cases faultyLine data with
  | none => simp
  | some line => simp

/-- `=x`, `k=`, ` =x` and `k= `: the first two ask for the last character of an
empty string, the others for a word of spaces. -/
theorem not_returnsNormally_empty_or_blank :
    (parse [0x3d, 0x78] ([] : ConfigItems Unit)).outcome = .error .undefined ∧
      (parse [0x6b, 0x3d] ([] : ConfigItems Unit)).outcome = .error .undefined ∧
      (parse [0x20, 0x3d, 0x78] ([] : ConfigItems Unit)).outcome = .error (.thrown .outOfRange) ∧
      (parse [0x6b, 0x3d, 0x20] ([] : ConfigItems Unit)).outcome = .error (.thrown .outOfRange) ∧
      ¬∀ (data : Bytes) (items : ConfigItems Unit), (parse data items).ReturnsNormally := by
  refine ⟨rfl, rfl, rfl, rfl, fun h => ?_⟩
  obtain ⟨result, hresult⟩ := h [0x3d, 0x78] []
  cases hresult

end KitRpc.Config

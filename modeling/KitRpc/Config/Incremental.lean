import KitRpc.Config.Layout
/-!
# Parsing in parts

The parser only adds to the items, and a key keeps the value it got first. So a
text may be cut at a line end and its parts parsed one after the other, and lines
that define different keys may change places.
-/

namespace KitRpc.Config

open KitRpc.Cpp

variable {ω : Type}

def inserted (line : Bytes) : Option (Bytes × Bytes) := (parseLine line).toOption.join

def keyOf (line : Bytes) : Option Bytes := (inserted line).map Prod.fst

/-- The first of the lines that defines the key gives it the value. -/
def FirstDefinition (lines : List Bytes) (key val : Bytes) : Prop :=
  ∃ before line after, lines = before ++ line :: after ∧ inserted line = some (key, val) ∧
    ∀ earlier ∈ before, keyOf earlier ≠ some key

/-- What the lines make of the items: a key that is there keeps its value, and the
other keys are those that the lines define, with the values they give first. -/
structure FirstWins (lines : List Bytes) (items items' : ConfigItems ω) : Prop where
  kept : ∀ key value, items.find key = some value → items'.find key = some value
  added : ∀ key, items.find key = none → ∀ value,
    items'.find key = some value ↔ ∃ val, FirstDefinition lines key val ∧ .text val = value

def DistinctKeys (lines : List Bytes) : Prop :=
  lines.Pairwise fun line line' => ∀ key ∈ keyOf line, keyOf line' ≠ some key

instance : DecidablePred DistinctKeys := fun lines =>
  inferInstanceAs (Decidable (lines.Pairwise _))

/-- The lines in another order, but those that define the same key in the same. -/
structure Reordered (lines lines' : List Bytes) : Prop where
  perm : lines'.Perm lines
  order : ∀ key,
    (lines'.filter fun line => keyOf line = some key) =
      lines.filter fun line => keyOf line = some key

/-! ## The first definition -/

def firstValue (lines : List Bytes) (key : Bytes) : Option Bytes :=
  ((lines.find? fun line => keyOf line = some key).bind inserted).map Prod.snd

theorem firstValue_eq_some_iff {lines : List Bytes} {key val : Bytes} :
    firstValue lines key = some val ↔ FirstDefinition lines key val := by
  rw [firstValue, Option.map_eq_some_iff]
  constructor
  · rintro ⟨⟨key', val'⟩, hbind, rfl⟩
    obtain ⟨line, hfind, hline⟩ := Option.bind_eq_some_iff.mp hbind
    obtain ⟨hkey, before, after, hlines, hbefore⟩ := List.find?_eq_some_iff_append.mp hfind
    have hkey' : key' = key := by
      simpa [keyOf, hline] using hkey
    refine ⟨before, line, after, hlines, hkey' ▸ hline, fun earlier hearlier => ?_⟩
    simpa using hbefore earlier hearlier
  · rintro ⟨before, line, after, hlines, hline, hbefore⟩
    refine ⟨(key, val), Option.bind_eq_some_iff.mpr ⟨line, ?_, hline⟩, rfl⟩
    apply List.find?_eq_some_iff_append.mpr
    refine ⟨by simp [keyOf, hline], before, after, hlines, fun earlier hearlier => ?_⟩
    simpa using hbefore earlier hearlier

theorem inserted_of_safe {line : Bytes} (h : SafeLine line) : inserted line = entry line := by
  rw [inserted, parseLine_of_safe h]
  rfl

theorem fileEntries_of_safe {data : Bytes} (h : ∀ line ∈ getlines data, SafeLine line) :
    fileEntries data = (getlines data).filterMap inserted := by
  apply List.filterMap_congr
  intro line hline
  exact (inserted_of_safe (h line hline)).symm

theorem valueIn_filterMap (lines : List Bytes) (key : Bytes) :
    valueIn (lines.filterMap inserted) key = firstValue lines key := by
  have hkey (line : Bytes) :
      ((inserted line).any fun e => e.1 = key) = decide (keyOf line = some key) := by
    unfold keyOf
    cases inserted line with
    | none => rfl
    | some e => simp
  rw [valueIn, List.find?_filterMap, firstValue]
  simp only [hkey]

/-- What a text that the parser can handle makes of the items, key by key. -/
theorem find_parse {data : Bytes} (h : ∀ line ∈ getlines data, SafeLine line)
    (items : ConfigItems ω) (key : Bytes) :
    (parse data items).items.find key =
      (items.find key).or ((firstValue (getlines data) key).map .text) := by
  rw [(parse_of_safe h items).1, find_insertEntries, fileEntries_of_safe h, valueIn_filterMap]

theorem firstWins_parse {data : Bytes} (h : ∀ line ∈ getlines data, SafeLine line)
    (items : ConfigItems ω) : FirstWins (getlines data) items (parse data items).items where
  kept key value hvalue := by rw [find_parse h, hvalue, Option.some_or]
  added key hnew value := by
    rw [find_parse h, hnew, Option.none_or, Option.map_eq_some_iff]
    simp only [firstValue_eq_some_iff]

/-! ## Two texts with a line end between them -/

theorem getlines_eq_nil_iff {data : Bytes} : getlines data = [] ↔ data = [] := by
  rw [getlines_eq, getline]
  by_cases h : data = [] <;> simp [h]

/-- The line end closes the last line of the first text. If there is none to
close, it makes an empty one. -/
theorem getlines_seam (first second : Bytes) :
    getlines (first ++ newline :: second) =
      getlines first ++
        (if first = [] ∨ first.getLast? = some newline then [[]] else []) ++
        getlines second := by
  induction first with
  | nil => rfl
  | cons c first ih =>
      rw [List.cons_append, getlines_cons, getlines_cons, ih]
      by_cases hfirst : first = []
      · by_cases hc : c = newline <;> simp [hfirst, hc]
      · have hne : getlines first ≠ [] := mt getlines_eq_nil_iff.mp hfirst
        obtain ⟨line, lines, hlines⟩ := List.exists_cons_of_ne_nil hne
        rw [List.getLast?_cons_of_ne_nil hfirst]
        by_cases hc : c = newline <;> simp [hfirst, hc, hlines]

theorem safe_seam {first second : Bytes} :
    (∀ line ∈ getlines (first ++ newline :: second), SafeLine line) ↔
      (∀ line ∈ getlines first, SafeLine line) ∧ ∀ line ∈ getlines second, SafeLine line := by
  have hempty : SafeLine [] := by decide
  rw [getlines_seam]
  split <;> simp [or_imp, forall_and, hempty]

theorem fileEntries_seam (first second : Bytes) :
    fileEntries (first ++ newline :: second) = fileEntries first ++ fileEntries second := by
  have hempty : entry [] = none := rfl
  unfold fileEntries
  rw [getlines_seam]
  split <;> simp [hempty]

/-! ## Lines in another order -/

theorem Reordered.firstValue_eq {lines lines' : List Bytes} (h : Reordered lines lines')
    (key : Bytes) : firstValue lines' key = firstValue lines key := by
  rw [firstValue, ← List.head?_filter, h.order, List.head?_filter, firstValue]

theorem DistinctKeys.reordered {lines lines' : List Bytes} (h : DistinctKeys lines)
    (hperm : lines'.Perm lines) : Reordered lines lines' where
  perm := hperm
  order key := by
    have hfilter := hperm.filter fun line => decide (keyOf line = some key)
    have hpair := h.filter fun line => decide (keyOf line = some key)
    have hmem : ∀ line ∈ lines.filter fun line => decide (keyOf line = some key),
        keyOf line = some key := fun line hline => by simpa using (List.mem_filter.mp hline).2
    generalize (lines.filter fun line => decide (keyOf line = some key)) = defining at *
    match defining with
    | [] => exact hfilter.eq_nil
    | [line] => exact hfilter.eq_singleton
    | line :: line' :: rest =>
        exact absurd (hmem line' (by simp))
          ((List.pairwise_cons.mp hpair).1 line' (by simp) key (hmem line (by simp)))

theorem Reordered.parse_eq {data data' : Bytes} (h : Reordered (getlines data) (getlines data'))
    (hsafe : ∀ line ∈ getlines data, SafeLine line) (items : ConfigItems ω) :
    (parse data' items).outcome = (parse data items).outcome ∧
      ∀ key, (parse data' items).items.find key = (parse data items).items.find key := by
  have hsafe' : ∀ line ∈ getlines data', SafeLine line :=
    fun line hline => hsafe line (h.perm.subset hline)
  constructor
  · have hdata : data' = [] ↔ data = [] := by
      rw [← getlines_eq_nil_iff, ← List.isEmpty_iff, h.perm.isEmpty_eq, List.isEmpty_iff,
        getlines_eq_nil_iff]
    have hentries : fileEntries data' = [] ↔ fileEntries data = [] := by
      have hperm : (fileEntries data').Perm (fileEntries data) := h.perm.filterMap entry
      rw [← List.isEmpty_iff, hperm.isEmpty_eq, List.isEmpty_iff]
    rw [(parse_of_safe hsafe' items).2, (parse_of_safe hsafe items).2]
    simp only [ne_eq, hdata, hentries]
  · intro key
    rw [find_parse hsafe', find_parse hsafe, h.firstValue_eq]

/-! ## Every text -/

theorem parse_seam {first second : Bytes}
    (hfirst : ∀ line ∈ getlines first, SafeLine line)
    (hsecond : ∀ line ∈ getlines second, SafeLine line) (items : ConfigItems ω) :
    (parse (first ++ newline :: second) items).items =
      (parse second (parse first items).items).items := by
  calc
    (parse (first ++ newline :: second) items).items =
        insertEntries items (fileEntries (first ++ newline :: second)) :=
      (parse_of_safe (safe_seam.mpr ⟨hfirst, hsecond⟩) items).1
    _ = insertEntries (insertEntries items (fileEntries first)) (fileEntries second) := by
      rw [fileEntries_seam, insertEntries_append]
    _ = (parse second (parse first items).items).items := by
      rw [(parse_of_safe hfirst items).1, (parse_of_safe hsecond _).1]

/-- Parsing is incremental and the first definition wins. Two texts with a line
end between them can be parsed exactly if they can be parsed one after the other,
and then to the same items. Keys keep the value they got first, and lines may be
in another order as long as those that define the same key are not, so in any
order where there are no such lines. -/
theorem parse_incremental (items : ConfigItems ω) :
    (∀ first second : Bytes,
      ((parse (first ++ newline :: second) items).ReturnsNormally ↔
        (parse first items).ReturnsNormally ∧
          (parse second (parse first items).items).ReturnsNormally) ∧
      ((parse (first ++ newline :: second) items).ReturnsNormally →
        (parse (first ++ newline :: second) items).items =
          (parse second (parse first items).items).items)) ∧
    ∀ data : Bytes, (parse data items).ReturnsNormally →
      FirstWins (getlines data) items (parse data items).items ∧
      ∀ data' : Bytes,
        Reordered (getlines data) (getlines data') ∨
          (getlines data').Perm (getlines data) ∧ DistinctKeys (getlines data) →
        (parse data' items).outcome = (parse data items).outcome ∧
          ∀ key, (parse data' items).items.find key = (parse data items).items.find key := by
  constructor
  · intro first second
    constructor
    · constructor
      · rintro ⟨result, hresult⟩
        obtain ⟨hfirst, hsecond⟩ := safe_seam.mp (safe_of_outcome hresult)
        exact ⟨⟨_, (parse_of_safe hfirst items).2⟩, ⟨_, (parse_of_safe hsecond _).2⟩⟩
      · rintro ⟨⟨_, hfirst⟩, ⟨_, hsecond⟩⟩
        have hsafe := safe_seam.mpr ⟨safe_of_outcome hfirst, safe_of_outcome hsecond⟩
        exact ⟨_, (parse_of_safe hsafe items).2⟩
    · rintro ⟨result, hresult⟩
      obtain ⟨hfirst, hsecond⟩ := safe_seam.mp (safe_of_outcome hresult)
      exact parse_seam hfirst hsecond items
  · rintro data ⟨result, hresult⟩
    have hsafe := safe_of_outcome hresult
    refine ⟨firstWins_parse hsafe items, fun data' horder => ?_⟩
    rcases horder with horder | ⟨hperm, hkeys⟩
    · exact horder.parse_eq hsafe items
    · exact (hkeys.reordered hperm).parse_eq hsafe items

theorem parse_incremental_two_texts :
    let first : Bytes := [0x6b, 0x3d, 0x31]
    let second : Bytes := [0x6b, 0x3d, 0x32, 0x0a, 0x6a, 0x3d, 0x33]
    let swapped : Bytes := [0x6a, 0x3d, 0x33, 0x0a, 0x6b, 0x3d, 0x32, 0x0a]
    let items := (parse first ([] : ConfigItems Unit)).items
    (parse (first ++ newline :: second) []).items = (parse second items).items ∧
      FirstWins (getlines second) items (parse second items).items ∧
      (parse swapped items).outcome = .ok true ∧
      ∀ key, (parse swapped items).items.find key = (parse second items).items.find key := by
  intro first second swapped items
  obtain ⟨hfirst, horder⟩ := (parse_incremental items).2 second ⟨true, rfl⟩
  have hswapped := horder swapped (.inr ⟨by decide, by decide⟩)
  exact ⟨((parse_incremental []).1 first second).2 ⟨true, rfl⟩, hfirst, hswapped⟩

end KitRpc.Config

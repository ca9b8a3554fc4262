import KitRpc.Cpp.Bytes
import Mathlib.Data.List.Basic
/-!
# Maps keyed by strings

`std::unordered_map<std::string, T>` as a list of its entries, in the order in
which a loop over the map visits them. `insert` keeps an entry that is there.
-/

namespace KitRpc.Cpp

abbrev UnorderedMap (β : Type) := List (Bytes × β)

namespace UnorderedMap

variable {β : Type}

/-- `m.find(key)`; `none` is `m.end()`. -/
def find (m : UnorderedMap β) (key : Bytes) : Option β := m.lookup key

def insert (m : UnorderedMap β) (key : Bytes) (value : β) : UnorderedMap β :=
  match m.find key with
  | some _ => m
  | none => m ++ [(key, value)]

def assign (m : UnorderedMap β) (key : Bytes) (value : β) : UnorderedMap β :=
  match m.find key with
  | some _ => m.map fun entry => if entry.1 = key then (key, value) else entry
  | none => m ++ [(key, value)]

@[simp] theorem find_nil (key : Bytes) : find ([] : UnorderedMap β) key = none := rfl

theorem find_cons (entry : Bytes × β) (m : UnorderedMap β) (key : Bytes) :
    find (entry :: m) key = if key = entry.1 then some entry.2 else m.find key := by
  rw [find, List.lookup_cons]
  by_cases h : key = entry.1
  · simp [h]
  · rw [if_neg h, beq_false_of_ne h]
    rfl

theorem find_append (m more : UnorderedMap β) (key : Bytes) :
    find (m ++ more) key = (m.find key).or (more.find key) := by
  induction m with
  | nil => rfl
  | cons entry m ih =>
      rw [List.cons_append, find_cons, find_cons, ih]
      split <;> rfl

theorem find_insert (m : UnorderedMap β) (key key' : Bytes) (value : β) :
    (m.insert key value).find key' =
      (m.find key').or (if key' = key then some value else none) := by
  unfold insert
  split
  case h_1 old hold =>
    by_cases h : key' = key
    · rw [h, hold, Option.some_or]
    · rw [if_neg h, Option.or_none]
  case h_2 =>
    rw [find_append, find_cons, find_nil]

theorem find_map_overwrite (m : UnorderedMap β) (key key' : Bytes) (value : β) :
    find (m.map fun entry => if entry.1 = key then (key, value) else entry) key' =
      if key' = key then (m.find key).map fun _ => value else m.find key' := by
  induction m with
  | nil => simp
  | cons entry m ih =>
      rw [List.map_cons, find_cons, find_cons, find_cons, ih]
      by_cases hentry : entry.1 = key
      · rw [if_pos hentry, if_pos hentry.symm, hentry]
        by_cases hkey : key' = key <;> simp [hkey]
      · rw [if_neg hentry, if_neg (Ne.symm hentry)]
        by_cases hkey : key' = key
        · simp [hkey, Ne.symm hentry]
        · simp [hkey]

theorem find_assign (m : UnorderedMap β) (key key' : Bytes) (value : β) :
    (m.assign key value).find key' = if key' = key then some value else m.find key' := by
  unfold assign
  split
  case h_1 old hold => rw [find_map_overwrite, hold, Option.map_some]
  case h_2 hnew =>
    rw [find_append, find_cons, find_nil]
    by_cases h : key' = key
    · rw [h, hnew, Option.none_or]
    · rw [if_neg h, if_neg h, Option.or_none]

/-- Inserting one entry after the other keeps the first for each key. -/
theorem find_foldl_insert {γ : Type} (key : γ → Bytes) (value : γ → β) (items : List γ)
    (m : UnorderedMap β) (key' : Bytes) :
    (items.foldl (fun m item => m.insert (key item) (value item)) m).find key' =
      (m.find key').or ((items.find? fun item => key item = key').map value) := by
  induction items generalizing m with
  | nil => simp
  | cons item items ih =>
      rw [List.foldl_cons, ih, find_insert, Option.or_assoc]
      by_cases h : key item = key'
      · rw [if_pos h.symm, List.find?_cons_of_pos (by simpa using h), Option.some_or]
        rfl
      · rw [if_neg fun h' => h h'.symm, List.find?_cons_of_neg (by simpa using h),
          Option.none_or]

/-! ## Entries -/

/-- Of each key there is one entry, as in every map the code can build. -/
def KeysNodup (m : UnorderedMap β) : Prop := (m.map Prod.fst).Nodup

theorem find_eq_none_iff {m : UnorderedMap β} {key : Bytes} :
    m.find key = none ↔ key ∉ m.map Prod.fst := by
  induction m with
  | nil => simp
  | cons entry m ih =>
      rw [find_cons, List.map_cons, List.mem_cons, not_or]
      by_cases h : key = entry.1
      · simp [h]
      · rw [if_neg h, ih, and_iff_right h]

theorem find_eq_some_iff {m : UnorderedMap β} (h : m.KeysNodup) {key : Bytes} {value : β} :
    m.find key = some value ↔ (key, value) ∈ m := by
  induction m with
  | nil => simp
  | cons entry m ih =>
      rw [KeysNodup, List.map_cons, List.nodup_cons] at h
      rw [find_cons, List.mem_cons]
      by_cases hkey : key = entry.1
      · have hrest : (key, value) ∉ m := by
          intro hmem
          exact h.1 (List.mem_map.mpr ⟨_, hmem, hkey⟩)
        rw [if_pos hkey, or_iff_left hrest, Option.some.injEq, Prod.ext_iff, and_iff_right hkey,
          eq_comm]
      · rw [if_neg hkey, ih h.2, or_iff_right]
        intro hentry
        exact hkey (congrArg Prod.fst hentry)

theorem insert_cases (m : UnorderedMap β) (key : Bytes) (value : β) :
    m.insert key value = m ∧ (m.find key).isSome ∨
      m.insert key value = m ++ [(key, value)] ∧ m.find key = none := by
  unfold insert
  cases hold : m.find key with
  | some old => exact .inl ⟨rfl, rfl⟩
  | none => exact .inr ⟨rfl, rfl⟩

theorem KeysNodup.insert {m : UnorderedMap β} (h : m.KeysNodup) (key : Bytes) (value : β) :
    (m.insert key value).KeysNodup := by
  rcases insert_cases m key value with ⟨hinsert, _⟩ | ⟨hinsert, hnew⟩
  · rwa [hinsert]
  · rw [hinsert, KeysNodup, List.map_append, List.nodup_append]
    refine ⟨h, by simp, fun old hold key' hkey' heq => ?_⟩
    rw [heq, List.mem_singleton.mp hkey'] at hold
    exact find_eq_none_iff.mp hnew hold

theorem KeysNodup.foldl_insert {γ : Type} {m : UnorderedMap β} (h : m.KeysNodup)
    (key : γ → Bytes) (value : γ → β) (items : List γ) :
    (items.foldl (fun m item => m.insert (key item) (value item)) m).KeysNodup := by
  induction items generalizing m with
  | nil => exact h
  | cons item items ih => exact ih (h.insert _ _)

theorem mem_insert {m : UnorderedMap β} {key : Bytes} {value : β} {entry : Bytes × β}
    (h : entry ∈ m.insert key value) : entry ∈ m ∨ entry = (key, value) := by
  rcases insert_cases m key value with ⟨hinsert, _⟩ | ⟨hinsert, _⟩
  · exact .inl (hinsert ▸ h)
  · rwa [hinsert, List.mem_append, List.mem_singleton] at h

end UnorderedMap

end KitRpc.Cpp

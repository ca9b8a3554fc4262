import Mathlib.Data.List.Basic
import Mathlib.Tactic.SplitIfs
/-!
# Prefix-stable decoders of streams

A decoder that takes one item at a time off the front of a list, and never
changes its mind about an item when more input follows. Cutting a stream
between two items then cannot change what is decoded. The decoder is a
parameter here: length-prefixed frames and tagged records are both instances.
-/

namespace KitRpc.Foundation

/-- A reader takes a prefix off its input and does not look behind it. -/
def LocalReader {β α : Type} (read : List β → Option (α × List β)) : Prop :=
  ∀ ⦃xs a rest⦄, read xs = some (a, rest) →
    (∃ used, xs = used ++ rest) ∧
      ∀ ys, read (xs ++ ys) = some (a, rest ++ ys)

namespace LocalReader

variable {β α γ : Type}

theorem none : LocalReader (fun _ : List β => (Option.none : Option (α × List β))) :=
  fun _ _ _ h => nomatch h

theorem map {read : List β → Option (α × List β)} (h : LocalReader read) (f : α → γ) :
    LocalReader fun xs => (read xs).map fun (a, rest) => (f a, rest) := by
  intro xs c rest hread
  rw [Option.map_eq_some_iff] at hread
  obtain ⟨⟨a, rest'⟩, hread, heq⟩ := hread
  cases heq
  obtain ⟨hused, hmore⟩ := h hread
  exact ⟨hused, fun ys => by simp [hmore ys]⟩

theorem bind {read : List β → Option (α × List β)} (h : LocalReader read)
    {f : α → List β → Option (γ × List β)} (hf : ∀ a, LocalReader (f a)) :
    LocalReader fun xs => (read xs).bind fun (a, rest) => f a rest := by
  intro xs c rest hread
  rw [Option.bind_eq_some_iff] at hread
  obtain ⟨⟨a, mid⟩, hfirst, hsecond⟩ := hread
  obtain ⟨⟨used, rfl⟩, hmore⟩ := h hfirst
  obtain ⟨⟨used', rfl⟩, hmore'⟩ := hf a hsecond
  refine ⟨⟨used ++ used', by simp⟩, fun ys => ?_⟩
  simp only [hmore ys, Option.bind_some, hmore' ys]

end LocalReader

def takeExactly {β : Type} (n : Nat) (xs : List β) : Option (List β × List β) :=
  if xs.length < n then none else some (xs.take n, xs.drop n)

theorem takeExactly_append {β : Type} (used rest : List β) :
    takeExactly used.length (used ++ rest) = some (used, rest) := by
  simp [takeExactly]

theorem takeExactly_eq_some {β : Type} {n : Nat} {xs used rest : List β}
    (h : takeExactly n xs = some (used, rest)) : xs = used ++ rest ∧ used.length = n := by
  unfold takeExactly at h
  split_ifs at h with hlen
  cases h
  refine ⟨(List.take_append_drop n xs).symm, ?_⟩
  rw [List.length_take]
  omega

theorem takeExactly_of_le {β : Type} {n : Nat} {s : List β} (h : n ≤ s.length) :
    takeExactly n s = some (s.take n, s.drop n) :=
  if_neg (Nat.not_lt.mpr h)

theorem takeExactly_local {β : Type} (n : Nat) :
    LocalReader (takeExactly n : List β → _) := by
  intro xs used rest h
  obtain ⟨rfl, rfl⟩ := takeExactly_eq_some h
  refine ⟨⟨used, rfl⟩, fun ys => ?_⟩
  rw [List.append_assoc]
  exact takeExactly_append used (rest ++ ys)

/-- A decoder of one item: a local reader that takes at least one element. -/
structure StreamDecoder (β α : Type) where
  next : List β → Option (α × List β)
  isLocal : LocalReader next
  shrinks : ∀ {xs a rest}, next xs = some (a, rest) → rest.length < xs.length

namespace StreamDecoder

variable {β α : Type} (d : StreamDecoder β α)

/-- `Splits xs items tail`: taking items off `xs` one after the other gives
`items` and leaves `tail`, which may itself start with another item. -/
inductive Splits : List β → List α → List β → Prop
  | done (xs : List β) : Splits xs [] xs
  | item {xs rest tail : List β} {a : α} {items : List α} :
      d.next xs = some (a, rest) → Splits rest items tail →
      Splits xs (a :: items) tail

def Whole (xs : List β) : Prop := ∃ items, d.Splits xs items []

variable {d}

variable (d) in
theorem next_nil : d.next [] = none := by
  cases h : d.next [] with
  | none => rfl
  | some p => exact absurd (d.shrinks (h : d.next [] = some (p.1, p.2))) (by simp)

variable (d) in
/-- Every input has a decoding that cannot be continued. -/
theorem exists_stuck (xs : List β) : ∃ items tail, d.Splits xs items tail ∧ d.next tail = none := by
  induction hn : xs.length using Nat.strongRecOn generalizing xs with
  | ind n ih =>
      subst hn
      cases hnext : d.next xs with
      | none => exact ⟨[], xs, .done xs, hnext⟩
      | some p =>
          have hnext' : d.next xs = some (p.1, p.2) := hnext
          obtain ⟨items, tail, hsplit, hstuck⟩ := ih _ (d.shrinks hnext') p.2 rfl
          exact ⟨p.1 :: items, tail, .item hnext' hsplit, hstuck⟩

namespace Splits

theorem single {xs rest : List β} {a : α} (h : d.next xs = some (a, rest)) :
    d.Splits xs [a] rest :=
  .item h (.done rest)

theorem trans {xs mid tail : List β} {items more : List α}
    (h : d.Splits xs items mid) (h' : d.Splits mid more tail) :
    d.Splits xs (items ++ more) tail := by
  induction h with
  | done => exact h'
  | item hnext _ ih => exact .item hnext (ih h')

theorem append {xs tail : List β} {items : List α}
    (h : d.Splits xs items tail) (ys : List β) :
    d.Splits (xs ++ ys) items (tail ++ ys) := by
  induction h with
  | done => exact .done _
  | item hnext _ ih => exact .item ((d.isLocal hnext).2 ys) ih

theorem exists_used {xs tail : List β} {items : List α}
    (h : d.Splits xs items tail) : ∃ used, xs = used ++ tail := by
  induction h with
  | done => exact ⟨[], rfl⟩
  | item hnext _ ih =>
      obtain ⟨used, rfl⟩ := (d.isLocal hnext).1
      obtain ⟨more, rfl⟩ := ih
      exact ⟨used ++ more, by simp⟩

theorem length_tail_le {xs tail : List β} {items : List α}
    (h : d.Splits xs items tail) : tail.length ≤ xs.length := by
  obtain ⟨used, rfl⟩ := h.exists_used
  simp

/-- Of two decodings of one input the shorter is a prefix of the longer,
so one that cannot be continued is the longest. -/
theorem prefix_of_stuck {xs stuck tail : List β} {items longest : List α}
    (hlong : d.Splits xs longest stuck) (hstuck : d.next stuck = none)
    (h : d.Splits xs items tail) :
    ∃ more, longest = items ++ more ∧ d.Splits tail more stuck := by
  induction h generalizing longest with
  | done => exact ⟨longest, rfl, hlong⟩
  | item hnext _ ih =>
      cases hlong with
      | done => simp [hnext] at hstuck
      | item hnext' hrest =>
          rw [hnext] at hnext'
          cases hnext'
          obtain ⟨more, rfl, hmore⟩ := ih hrest
          exact ⟨more, rfl, hmore⟩

theorem stuck_unique {xs tail tail' : List β} {items items' : List α}
    (h : d.Splits xs items tail) (hstuck : d.next tail = none)
    (h' : d.Splits xs items' tail') (hstuck' : d.next tail' = none) :
    items = items' ∧ tail = tail' := by
  obtain ⟨more, rfl, hmore⟩ := h.prefix_of_stuck hstuck h'
  cases hmore with
  | done => exact ⟨by simp, rfl⟩
  | item hnext _ => simp [hnext] at hstuck'

end Splits

theorem Whole.append {xs ys : List β} (hx : d.Whole xs) (hy : d.Whole ys) :
    d.Whole (xs ++ ys) := by
  obtain ⟨as, ha⟩ := hx
  obtain ⟨bs, hb⟩ := hy
  exact ⟨as ++ bs, (ha.append ys).trans (by simpa using hb)⟩

theorem Whole.flatten {chunks : List (List β)} (h : ∀ c ∈ chunks, d.Whole c) :
    d.Whole chunks.flatten := by
  induction chunks with
  | nil => exact ⟨[], .done []⟩
  | cons c chunks ih =>
      rw [List.flatten_cons]
      exact (h c (by simp)).append (ih fun c' hc' => h c' (by simp [hc']))

/-! ## Decoding a whole input -/

variable (d)

/-- Decode the input item by item; `none` when bytes are left that start no
item. The first argument bounds the number of items. -/
def decodeWithin : Nat → List β → Option (List α)
  | _, [] => some []
  | 0, _ :: _ => none
  | n + 1, x :: xs =>
      match d.next (x :: xs) with
      | none => none
      | some (a, rest) => (decodeWithin n rest).map (a :: ·)

def decodeAll (xs : List β) : Option (List α) := d.decodeWithin xs.length xs

variable {d}

theorem decodeWithin_of_splits {xs : List β} {items : List α}
    (h : d.Splits xs items []) {n : Nat} (hn : xs.length ≤ n) :
    d.decodeWithin n xs = some items := by
  induction n generalizing xs items with
  | zero =>
      have hx : xs = [] := List.length_eq_zero_iff.mp (by omega)
      subst hx
      cases h with
      | done => rfl
      | item hnext _ => simp [next_nil] at hnext
  | succ n ih =>
      cases h with
      | done => rfl
      | @item _ rest _ a items hnext hrest =>
          cases xs with
          | nil => simp [next_nil] at hnext
          | cons x xs =>
              have hlt := d.shrinks hnext
              simp only [decodeWithin, hnext, ih hrest (by omega), Option.map_some]

theorem decodeAll_of_splits {xs : List β} {items : List α}
    (h : d.Splits xs items []) : d.decodeAll xs = some items :=
  decodeWithin_of_splits h (Nat.le_refl _)

end StreamDecoder

end KitRpc.Foundation

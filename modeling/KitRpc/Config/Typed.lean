import KitRpc.Config.Layout
import KitRpc.Config.RpcConfig
import KitRpc.Cpp.Integral
import KitRpc.Cpp.Number
/-!
# Typed values

`RpcConfig::set` stores a value of any type, the parser stores strings. A `get`
returns a value of the type it was asked for as it is, reads a number out of a
string, and otherwise returns a default.
-/

namespace KitRpc.Config

open KitRpc.Cpp

/-- What a `boost::any` holds that is no string: a value of an integral type, or
the `const char*` that a string literal is stored as. -/
inductive OtherValue
  | integral (type : IntegralType) (value : Int) (h : type.InRange value)
  | literal (text : Bytes)
  deriving DecidableEq, Repr

namespace RpcConfig

def set {ω : Type} (c : RpcConfig ω) (key : Bytes) (val : ConfigValue ω) : RpcConfig ω :=
  { c with configItem := c.configItem.assign key val }

def getIntegral (c : RpcConfig OtherValue) (T : IntegralType) (key : Bytes) :
    Except StdException Int :=
  match c.configItem.find key with
  | none => .ok 0
  | some (.other (.integral type value _)) => .ok (if type = T then value else 0)
  | some (.other (.literal _)) => .ok 0
  | some (.text s) =>
    match stoi s with
    | .error e => .error e
    | .ok n => .ok (T.cast n)

/-! ## Numbers in strings -/

theorem getIntegral_text_eq_ok_iff {c : RpcConfig OtherValue} {T : IntegralType}
    {key s : Bytes} {n : Int} (h : c.configItem.find key = some (.text s)) :
    c.getIntegral T key = .ok n ↔ ∃ m, stoi s = .ok m ∧ T.cast m = n := by
  rw [getIntegral, h]
  dsimp only
  cases stoi s <;> simp

end RpcConfig

/-- The number that a string is the decimal numeral of, if the type has it, and
otherwise zero. -/
def exactValue (T : IntegralType) (s : Bytes) : Int :=
  match numeralOf s with
  | none => 0
  | some n => if T.InRange n then n else 0

/-- The text is a numeral of a number that both the type and an `int` have; or it
is no numeral of a number the type has, but starts with a number that an `int`
has and that is zero or, but for `bool`, a multiple of the modulus of the type. -/
def ReadsExactly (T : IntegralType) (s : Bytes) : Prop :=
  (∃ n, numeralOf s = some n ∧ T.InRange n ∧ IntegralType.int.InRange n) ∨
    (∀ n, numeralOf s = some n → ¬T.InRange n) ∧
      ∃ n, LeadingNumber s n ∧ IntegralType.int.InRange n ∧
        (n = 0 ∨ T ≠ .bool ∧ (2 : Int) ^ T.bits ∣ n)

/-- A text is read as zero exactly if the number it starts with becomes zero. -/
theorem stoi_cast_eq_zero_iff {T : IntegralType} {s : Bytes} :
    (∃ n, stoi s = .ok n ∧ T.cast n = 0) ↔
      ∃ n, LeadingNumber s n ∧ IntegralType.int.InRange n ∧
        (n = 0 ∨ T ≠ .bool ∧ (2 : Int) ^ T.bits ∣ n) := by
  simp only [stoi_eq_ok_iff, IntegralType.cast_eq_zero_iff, IntegralType.int_inRange_iff, and_assoc]

theorem stoi_numeral_eq_ok_iff {s : Bytes} {n : Int} (h : numeralOf s = some n) (m : Int) :
    stoi s = .ok m ↔ IntegralType.int.InRange n ∧ n = m := by
  rw [stoi_of_numeralOf h, IntegralType.int_inRange_iff]
  split
  case isTrue hout =>
    constructor
    · intro herror
      cases herror
    · omega
  case isFalse hin =>
    rw [Except.ok.injEq]
    omega

theorem getIntegral_exact_iff {c : RpcConfig OtherValue} {key s : Bytes} (T : IntegralType)
    (h : c.configItem.find key = some (.text s)) :
    c.getIntegral T key = .ok (exactValue T s) ↔ ReadsExactly T s := by
  rw [RpcConfig.getIntegral_text_eq_ok_iff h, exactValue, ReadsExactly, ← stoi_cast_eq_zero_iff]
  cases hnumeral : numeralOf s with
  | none => simp
  | some n =>
      simp only [stoi_numeral_eq_ok_iff hnumeral, Option.some.injEq]
      by_cases hrange : T.InRange n
      · rw [if_pos hrange]
        constructor
        · rintro ⟨m, ⟨hint, rfl⟩, _⟩
          exact .inl ⟨n, rfl, hrange, hint⟩
        · rintro (⟨m, rfl, _, hint⟩ | ⟨hno, _⟩)
          · exact ⟨n, ⟨hint, rfl⟩, IntegralType.cast_of_inRange hrange⟩
          · exact absurd hrange (hno n rfl)
      · rw [if_neg hrange]
        constructor
        · intro hzero
          refine .inr ⟨?_, hzero⟩
          rintro m rfl
          exact hrange
        · rintro (⟨m, rfl, hm, _⟩ | ⟨_, hzero⟩)
          · exact absurd hm hrange
          · exact hzero

def configWith (s : Bytes) : RpcConfig OtherValue :=
  (RpcConfig.create [] .iniFile).set [0x6b] (.text s)

theorem getIntegral_exact_port :
    (configWith [0x38, 0x30]).getIntegral .unsignedShort [0x6b] =
        .ok (exactValue .unsignedShort [0x38, 0x30]) ↔
      ReadsExactly .unsignedShort [0x38, 0x30] :=
  getIntegral_exact_iff .unsignedShort rfl

/-- `abc` as an `int` and `3000000000` as a `long` throw, `300` is `44` as an
`unsigned char`, and `12x` is `12`. -/
theorem getIntegral_not_exact :
    (configWith [0x61, 0x62, 0x63]).getIntegral .int [0x6b] = .error .invalidArgument ∧
      (configWith (decimal 3000000000)).getIntegral .long [0x6b] = .error .outOfRange ∧
      (configWith [0x33, 0x30, 0x30]).getIntegral .unsignedChar [0x6b] = .ok 44 ∧
      (configWith [0x31, 0x32, 0x78]).getIntegral .int [0x6b] = .ok 12 ∧
      ¬∀ (c : RpcConfig OtherValue) (T : IntegralType) (key s : Bytes),
        c.configItem.find key = some (.text s) →
          c.getIntegral T key = .ok (exactValue T s) := by
  have hdigits : (configWith [0x31, 0x32, 0x78]).getIntegral .int [0x6b] = .ok 12 := by decide
  refine ⟨by decide, by decide, by decide, hdigits, fun h => ?_⟩
  have hexact := h (configWith [0x31, 0x32, 0x78]) .int [0x6b] [0x31, 0x32, 0x78] rfl
  rw [hdigits] at hexact
  exact absurd hexact (by decide)

/-! ## Set or loaded -/

/-- Among the lines of a text only one is for the key, and it gives it the value. -/
def OnlyLineFor (text key val : Bytes) (others : List Bytes) : Prop :=
  ∃ before after, getlines text = before ++ (key ++ equals :: val) :: after ∧
    others = before ++ after ∧ ∀ line ∈ others, ∀ e ∈ entry line, e.1 ≠ key

/-- A load of an INI file returns, and it reads one line for a key that the
configuration did not have. -/
structure LoadsLine {ω : Type} (c : RpcConfig ω) (disk : Disk) (key val : Bytes)
    (others : List Bytes) : Prop where
  type : c.type = .iniFile
  plain : PlainKey key
  absent : c.configItem.find key = none
  read : ∃ data, c.fileRead disk = some data ∧ OnlyLineFor (cStr data) key val others
  returns : ∃ result, (c.load disk).outcome = .ok result

theorem valueIn_cons (e : Bytes × Bytes) (entries : List (Bytes × Bytes)) (key : Bytes) :
    valueIn (e :: entries) key = if e.1 = key then some e.2 else valueIn entries key := by
  rw [valueIn_eq_find, valueIn_eq_find, UnorderedMap.find_cons]
  by_cases h : e.1 = key
  · rw [if_pos h, if_pos h.symm]
  · rw [if_neg h, if_neg (Ne.symm h)]

theorem valueIn_eq_none {entries : List (Bytes × Bytes)} {key : Bytes}
    (h : ∀ e ∈ entries, e.1 ≠ key) : valueIn entries key = none := by
  simpa [valueIn] using h

theorem PlainKey.entry_line {key val : Bytes} (hkey : PlainKey key) (hval : PlainVal val) :
    entry (key ++ equals :: val) = some (key, val) := by
  have hread := (IniLine.pair ⟨key, val, hkey, hval⟩ 0 0 0 0).read .lf
  simpa [IniLine.text, padded, spaces, LineEnd.rest, IniLine.pair?] using hread.2

theorem LoadsLine.find {ω : Type} {c : RpcConfig ω} {disk : Disk} {key val : Bytes}
    {others : List Bytes} (h : LoadsLine c disk key val others) (hval : PlainVal val)
    (key' : Bytes) :
    (c.load disk).config.configItem.find key' =
      if key' = key then some (.text val)
      else (insertEntries c.configItem (others.filterMap entry)).find key' := by
  obtain ⟨data, hread, before, after, hlines, rfl, honly⟩ := h.read
  obtain ⟨result, hresult⟩ := h.returns
  obtain ⟨houtcome, hitems⟩ := RpcConfig.load_ini hread h.type
  rw [houtcome] at hresult
  rw [hitems, readEntries_of_safe (safe_of_outcome hresult), fileEntries, hlines,
    List.filterMap_append, List.filterMap_cons_some (h.plain.entry_line hval),
    find_insertEntries, find_insertEntries, List.filterMap_append, valueIn_append,
    valueIn_append, valueIn_cons]
  by_cases hkey : key' = key
  · have hbefore : valueIn (before.filterMap entry) key = none := by
      apply valueIn_eq_none
      intro e he
      obtain ⟨line, hline, hentry⟩ := List.mem_filterMap.mp he
      exact honly line (List.mem_append_left after hline) e hentry
    rw [if_pos hkey, hkey, h.absent, hbefore]
    simp
  · rw [if_neg hkey, if_neg (Ne.symm hkey)]

theorem isDigit_or_minus_of_mem {n : Int} {c : UInt8} (h : c ∈ signedDecimal n) :
    c = minus ∨ isDigit c := by
  rw [signedDecimal] at h
  split at h
  case isTrue =>
    rcases List.mem_cons.mp h with hminus | hdigit
    · exact .inl hminus
    · exact .inr (isDigit_of_mem_decimal hdigit)
  case isFalse => exact .inr (isDigit_of_mem_decimal h)

theorem plainVal_signedDecimal (n : Int) : PlainVal (signedDecimal n) := by
  have hother {c : UInt8} (hminus : c ≠ minus) (hdigit : isDigit c = false) :
      c ∉ signedDecimal n := by
    intro hmem
    rcases isDigit_or_minus_of_mem hmem with heq | h
    · exact hminus heq
    · rw [hdigit] at h
      cases h
  refine ⟨?_, ⟨hother (by decide) (by decide), hother (by decide) (by decide)⟩, fun hlast => ?_⟩
  · rw [signedDecimal]
    split
    · exact List.cons_ne_nil _ _
    · exact decimal_ne_nil _
  · exact hother (by decide) (by decide) (List.mem_of_getLast? hlast)

/-- A number is the same, set or loaded. As a string it is there after loading
only, since a string is not made out of a number. A text is there after loading,
and no other key is affected either way. -/
theorem set_and_load (c : RpcConfig OtherValue) (key : Bytes) :
    (∀ n (hn : IntegralType.int.InRange n),
      (c.set key (.other (.integral .int n hn))).getIntegral .int key = .ok n ∧
      (c.set key (.other (.integral .int n hn))).get key = [] ∧
      ∀ disk others, LoadsLine c disk key (signedDecimal n) others →
        (c.load disk).config.getIntegral .int key = .ok n ∧
        (c.load disk).config.get key = signedDecimal n) ∧
    (∀ disk text others, PlainVal text → LoadsLine c disk key text others →
      (c.load disk).config.get key = text ∧
      ∀ key', key' ≠ key → (c.load disk).config.configItem.find key' =
        (insertEntries c.configItem (others.filterMap entry)).find key') ∧
    ∀ value key', key' ≠ key → (c.set key value).configItem.find key' = c.configItem.find key' := by
  have hset (value : ConfigValue OtherValue) (key' : Bytes) :
      (c.set key value).configItem.find key' =
        if key' = key then some value else c.configItem.find key' :=
    UnorderedMap.find_assign c.configItem key key' value
  refine ⟨fun n hn => ⟨?_, ?_, fun disk others h => ?_⟩, fun disk text others htext h => ?_, ?_⟩
  · rw [RpcConfig.getIntegral, hset, if_pos rfl]
    rfl
  · rw [RpcConfig.get, hset, if_pos rfl]
  · have hfind := h.find (plainVal_signedDecimal n) key
    rw [if_pos rfl] at hfind
    constructor
    · rw [RpcConfig.getIntegral_text_eq_ok_iff hfind]
      refine ⟨n, ?_, IntegralType.cast_of_inRange hn⟩
      exact (stoi_numeral_eq_ok_iff (numeralOf_signedDecimal n) n).mpr ⟨hn, rfl⟩
    · rw [RpcConfig.get, hfind]
  · constructor
    · have hfind := h.find htext key
      rw [if_pos rfl] at hfind
      rw [RpcConfig.get, hfind]
    · intro key' hkey
      rw [h.find htext, if_neg hkey]
  · intro value key' hkey
    rw [hset, if_neg hkey]

def diskWithFive : Disk := fun file =>
  if file = [0x61] then some (.bytes ([0x6b] ++ equals :: signedDecimal 5)) else none

theorem loadsLine_five :
    LoadsLine (RpcConfig.create [0x61] .iniFile : RpcConfig OtherValue) diskWithFive [0x6b]
      (signedDecimal 5) [] where
  type := rfl
  plain := ⟨by decide, by decide, by decide, by decide⟩
  absent := rfl
  read := ⟨[0x6b] ++ equals :: signedDecimal 5, rfl, [], [], by decide, rfl, by simp⟩
  returns := ⟨true, by decide⟩

theorem set_and_load_five :
    let c : RpcConfig OtherValue := RpcConfig.create [0x61] .iniFile
    (c.load diskWithFive).config.getIntegral .int [0x6b] = .ok 5 ∧
      (c.load diskWithFive).config.get [0x6b] = signedDecimal 5 :=
  ((set_and_load _ [0x6b]).1 5 (by decide)).2.2 _ _ loadsLine_five

/-- Loaded, the number five is the string `5`; set, it is the empty string. -/
theorem get_set_ne_get_load :
    let c : RpcConfig OtherValue := RpcConfig.create [0x61] .iniFile
    (c.set [0x6b] (.other (.integral .int 5 (by decide)))).get [0x6b] = [] ∧
      (c.load diskWithFive).config.get [0x6b] = [0x35] ∧
      ¬∀ (c : RpcConfig OtherValue) (disk : Disk) (key : Bytes) (others : List Bytes) (n : Int)
        (hn : IntegralType.int.InRange n), LoadsLine c disk key (signedDecimal n) others →
          (c.set key (.other (.integral .int n hn))).get key = (c.load disk).config.get key := by
  have hloaded : ((RpcConfig.create [0x61] .iniFile : RpcConfig OtherValue).load
      diskWithFive).config.get [0x6b] = [0x35] := by decide
  refine ⟨rfl, hloaded, fun h => ?_⟩
  have hsame := h _ _ _ _ 5 (by decide) loadsLine_five
  rw [hloaded] at hsame
  exact absurd hsame (by decide)

end KitRpc.Config

import KitRpc.Config.Application
import KitRpc.Config.Typed
import KitRpc.Foundation.Reaches
/-!
# A configuration over its calls

Files are loaded and values are set in any order. A load inserts, so it leaves
what is there, and `set` overwrites. Hence a value that was set counts before
the files, however late they are loaded, and among the files the first counts.
-/

namespace KitRpc.Config

open KitRpc.Cpp KitRpc.Foundation

variable {ω : Type}

inductive ConfigCall (ω : Type)
  | setFile (file : Bytes) (type : FileType)
  | load (disk : Disk)
  | set (key : Bytes) (val : ConfigValue ω)

/-- The configuration after a call, which may throw; `none` where the load has
undefined behaviour. -/
def RpcConfig.called (c : RpcConfig ω) : ConfigCall ω → Option (RpcConfig ω)
  | .setFile file type => some (c.setFile file type)
  | .load disk =>
    match (c.load disk).outcome with
    | .error .undefined => none
    | _ => some (c.load disk).config
  | .set key val => some (c.set key val)

namespace ConfigCall

def isSet : ConfigCall ω → Bool
  | set _ _ => true
  | setFile _ _ | load _ => false

def setTo (key : Bytes) : ConfigCall ω → Option (ConfigValue ω)
  | set key' val => if key = key' then some val else none
  | setFile _ _ | load _ => none

end ConfigCall

def lastSet (key : Bytes) (made : List (ConfigCall ω)) : Option (ConfigValue ω) :=
  (made.filterMap (ConfigCall.setTo key)).getLast?

def fileCalls (made : List (ConfigCall ω)) : List (ConfigCall ω) :=
  made.filter fun call => !call.isSet

/-- What the loads among the calls read, each up to a line that the parser
cannot handle. -/
def definitions : Bytes → FileType → List (ConfigCall ω) → List (Bytes × Bytes)
  | _, _, [] => []
  | _, _, .setFile file type :: made => definitions file type made
  | file, type, .load disk :: made =>
    (((RpcConfig.create file type : RpcConfig ω).iniText disk).elim [] readEntries) ++
      definitions file type made
  | file, type, .set _ _ :: made => definitions file type made

def LoadsDefined : Bytes → FileType → List (ConfigCall ω) → Prop
  | _, _, [] => True
  | _, _, .setFile file type :: made => LoadsDefined file type made
  | file, type, .load disk :: made =>
    (RpcConfig.create file type : RpcConfig ω).NoEmptyPart disk ∧ LoadsDefined file type made
  | file, type, .set _ _ :: made => LoadsDefined file type made

/-! ## What the calls about files come to -/

theorem definitions_fileCalls (file : Bytes) (type : FileType) (made : List (ConfigCall ω)) :
    definitions file type (fileCalls made) = definitions file type made := by
  induction made generalizing file type with
  | nil => rfl
  | cons call made ih =>
      cases call with
      | setFile file' type' => exact ih file' type'
      | load disk => exact congrArg (_ ++ ·) (ih file type)
      | set key val => exact ih file type

theorem loadsDefined_fileCalls (file : Bytes) (type : FileType) (made : List (ConfigCall ω)) :
    LoadsDefined file type (fileCalls made) ↔ LoadsDefined file type made := by
  induction made generalizing file type with
  | nil => rfl
  | cons call made ih =>
      cases call with
      | setFile file' type' => exact ih file' type'
      | load disk => exact and_congr_right' (ih file type)
      | set key val => exact ih file type

theorem lastSet_cons (key : Bytes) (call : ConfigCall ω) (made : List (ConfigCall ω)) :
    lastSet key (call :: made) = (lastSet key made).or (call.setTo key) := by
  unfold lastSet
  cases hset : call.setTo key with
  | none => rw [List.filterMap_cons_none hset, Option.or_none]
  | some val =>
      rw [List.filterMap_cons_some hset, List.getLast?_cons]
      cases (made.filterMap (ConfigCall.setTo key)).getLast? <;> rfl

/-! ## One call -/

namespace RpcConfig

variable {c c' : RpcConfig ω} {call : ConfigCall ω}

theorem called_load_eq_some_iff {disk : Disk} :
    c.called (.load disk) = some c' ↔ c.NoEmptyPart disk ∧ c' = (c.load disk).config := by
  have hundefined := load_eq_undefined_iff c disk
  rw [called]
  split
  case h_1 houtcome => simp [hundefined.mp houtcome]
  case h_2 houtcome =>
    have hdefined : c.NoEmptyPart disk := not_not.mp (mt hundefined.mpr houtcome)
    rw [Option.some.injEq, eq_comm, and_iff_right hdefined]

theorem find_load (c : RpcConfig ω) (disk : Disk) (key : Bytes) :
    (c.load disk).config.configItem.find key =
      (c.configItem.find key).or
        ((valueIn ((c.iniText disk).elim [] readEntries) key).map .text) := by
  cases htext : c.iniText disk with
  | none =>
      rw [(load_of_no_iniText htext).2.2]
      exact (Option.or_none).symm
  | some text => rw [(load_of_iniText htext).2.2, find_insertEntries, Option.elim_some]

theorem find_called (h : c.called call = some c') (key : Bytes) :
    c'.configItem.find key =
      (call.setTo key).or ((c.configItem.find key).or
        ((valueIn (definitions c.configFile c.type [call]) key).map .text)) := by
  cases call with
  | setFile file type =>
      cases h
      exact (Option.or_none).symm
  | load disk =>
      obtain ⟨_, rfl⟩ := called_load_eq_some_iff.mp h
      rw [find_load, definitions, definitions, List.append_nil]
      rfl
  | set key' val =>
      cases h
      rw [set, UnorderedMap.find_assign, ConfigCall.setTo]
      split
      · rfl
      · exact (Option.or_none).symm

theorem definitions_called (h : c.called call = some c') (made : List (ConfigCall ω)) :
    definitions c.configFile c.type (call :: made) =
      definitions c.configFile c.type [call] ++ definitions c'.configFile c'.type made := by
  cases call with
  | setFile file type =>
      cases h
      rfl
  | load disk =>
      obtain ⟨_, rfl⟩ := called_load_eq_some_iff.mp h
      obtain ⟨htype, hfile⟩ := load_path c disk
      rw [htype, hfile, definitions, definitions, definitions, List.append_nil]
  | set key val =>
      cases h
      rfl

/-! ## Runs of calls -/

theorem run_called_cons {made : List (ConfigCall ω)} :
    run called c (call :: made) = some c' ↔
      ∃ mid, c.called call = some mid ∧ run called mid made = some c' := by
  rw [run, List.foldlM_cons, Option.bind_eq_bind, Option.bind_eq_some_iff]
  rfl

/-- Whether the calls can be made does not depend on what is held. -/
theorem run_called_isSome_iff (c : RpcConfig ω) (made : List (ConfigCall ω)) :
    (∃ c', run called c made = some c') ↔ LoadsDefined c.configFile c.type made := by
  induction made generalizing c with
  | nil => exact iff_of_true ⟨c, rfl⟩ trivial
  | cons call made ih =>
      simp only [run_called_cons]
      rw [exists_comm]
      cases call with
      | setFile file type =>
          simp only [called, Option.some.injEq, exists_and_left, exists_eq_left']
          exact ih (c.setFile file type)
      | load disk =>
          obtain ⟨htype, hfile⟩ := load_path c disk
          have hrest := ih (c.load disk).config
          rw [htype, hfile] at hrest
          simp only [called_load_eq_some_iff, and_assoc, exists_and_left, exists_eq_left, hrest]
          rfl
      | set key val =>
          simp only [called, Option.some.injEq, exists_and_left, exists_eq_left']
          exact ih (c.set key val)

theorem find_run_called {made : List (ConfigCall ω)} (h : run called c made = some c')
    (key : Bytes) :
    c'.configItem.find key =
      (lastSet key made).or ((c.configItem.find key).or
        ((valueIn (definitions c.configFile c.type made) key).map .text)) := by
  induction made generalizing c with
  | nil =>
      cases h
      exact (Option.or_none).symm
  | cons call made ih =>
      obtain ⟨mid, hcall, hrest⟩ := run_called_cons.mp h
      rw [ih hrest, find_called hcall, lastSet_cons, definitions_called hcall made,
        valueIn_append, Option.map_or]
      simp only [Option.or_assoc]

end RpcConfig

/-- After any calls on a new configuration a key has the value it was last set
to, and otherwise the first definition that a load read. So it does in every
other order that keeps the calls about files and the last value of each key. -/
theorem values_of_calls {file : Bytes} {type : FileType} {made : List (ConfigCall ω)}
    {c : RpcConfig ω} (h : run RpcConfig.called (.create file type) made = some c) :
    (∀ key, c.configItem.find key =
      (lastSet key made).or ((valueIn (definitions file type made) key).map .text)) ∧
    ∀ made', fileCalls made' = fileCalls made → (∀ key, lastSet key made' = lastSet key made) →
      ∃ c', run RpcConfig.called (.create file type) made' = some c' ∧
        ∀ key, c'.configItem.find key = c.configItem.find key := by
  have hfind {made : List (ConfigCall ω)} {c : RpcConfig ω}
      (h : run RpcConfig.called (.create file type) made = some c) (key : Bytes) :
      c.configItem.find key =
        (lastSet key made).or ((valueIn (definitions file type made) key).map .text) := by
    rw [RpcConfig.find_run_called h key]
    rfl
  refine ⟨hfind h, fun made' hfiles hset => ?_⟩
  have hdefined : LoadsDefined file type made := (RpcConfig.run_called_isSome_iff _ made).mp ⟨c, h⟩
  rw [← loadsDefined_fileCalls, ← hfiles, loadsDefined_fileCalls] at hdefined
  obtain ⟨c', h'⟩ := (RpcConfig.run_called_isSome_iff (.create file type) made').mpr hdefined
  refine ⟨c', h', fun key => ?_⟩
  rw [hfind h', hfind h, hset, ← definitions_fileCalls, hfiles, definitions_fileCalls]

/-- `a` defines `k` as `5`; the value that was set before it is loaded stays. -/
theorem values_of_calls_set_first :
    ∃ c, run RpcConfig.called (.create [0x61] .iniFile : RpcConfig OtherValue)
        [.set [0x6b] (.text [0x39]), .load diskWithFive] = some c ∧
      c.configItem.find [0x6b] = some (.text [0x39]) := by
  have hrun : ∃ c, run RpcConfig.called (.create [0x61] .iniFile : RpcConfig OtherValue)
      [.set [0x6b] (.text [0x39]), .load diskWithFive] = some c := ⟨_, rfl⟩
  obtain ⟨c, hc⟩ := hrun
  refine ⟨c, hc, ?_⟩
  rw [(values_of_calls hc).1 [0x6b]]
  rfl

end KitRpc.Config

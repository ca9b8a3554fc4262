import KitRpc.Config.RpcConfig
import Mathlib.Logic.Function.Basic
/-!
# The active configuration

`KitRpcApplication::setConfig` makes a configuration the active one and then
loads it. What a load that fails has changed by then stays: the pointer, and the
items that the lines before the failure defined.
-/

namespace KitRpc.Config

open KitRpc.Cpp

/-- The application object and the `RpcConfig` objects, by their addresses. -/
structure KitRpcApplication (ω : Type) where
  configs : Nat → RpcConfig ω
  config : Option Nat
  isInit : Bool

/-- The application after `setConfig`, and how its load went, if it made one. -/
structure ConfigSet (ω : Type) where
  app : KitRpcApplication ω
  loaded : Option (Except ParseFault Bool)

variable {ω : Type}

namespace KitRpcApplication

/-- `setConfig`, for a pointer that is not null. An exception of the load leaves
it as well. -/
def setConfig (app : KitRpcApplication ω) (config : Nat) (disk : Disk) : ConfigSet ω :=
  if ¬app.isInit then ⟨app, none⟩
  else
    let app := { app with config := some config }
    let loaded := (app.configs config).load disk
    ⟨{ app with configs := Function.update app.configs config loaded.config },
      some loaded.outcome⟩

def getConfig (app : KitRpcApplication ω) : Option Nat :=
  if ¬app.isInit then none else app.config

/-- If the load of `setConfig` does not return true, the configuration that was
active still is. A load with undefined behaviour gives no such promise. -/
def KeepsConfig (app : KitRpcApplication ω) (config : Nat) (disk : Disk) : Prop :=
  (app.setConfig config disk).loaded ≠ some (.error .undefined) ∧
    ((app.setConfig config disk).loaded ≠ some (.ok true) →
      (app.setConfig config disk).app.getConfig = app.getConfig)

end KitRpcApplication

namespace RpcConfig

/-- A load that does not return true leaves every value as it was. -/
def KeepsValues (c : RpcConfig ω) (disk : Disk) : Prop :=
  (c.load disk).outcome ≠ .error .undefined ∧
    ((c.load disk).outcome ≠ .ok true → ∀ key, (c.load disk).config.get key = c.get key)

def iniText (c : RpcConfig ω) (disk : Disk) : Option Bytes :=
  if c.type = .iniFile then (c.fileRead disk).map cStr else none

/-- A file is read; one for the INI parser is not empty, it can handle each line
of it, and there is an entry in it or held before. -/
def Loads (c : RpcConfig ω) (disk : Disk) : Prop :=
  (c.fileRead disk).isSome ∧ ∀ text ∈ c.iniText disk,
    faultyLine text = none ∧ text ≠ [] ∧ (c.configItem ≠ [] ∨ readEntries text ≠ [])

/-- The first line that the INI parser cannot handle has no empty part. -/
def NoEmptyPart (c : RpcConfig ω) (disk : Disk) : Prop :=
  ∀ text ∈ c.iniText disk, ∀ line ∈ faultyLine text, ∀ parts ∈ assignment line,
    ¬EmptyPart parts.1 parts.2

/-- Before the first line that the INI parser cannot handle, no key that is not
held gets a value other than the empty one. -/
def NothingNew (c : RpcConfig ω) (disk : Disk) : Prop :=
  ∀ text ∈ c.iniText disk, faultyLine text ≠ none → ∀ key, c.configItem.find key = none →
    (valueIn (readEntries text) key).getD [] = []

/-! ## How a load ends -/

theorem load_of_iniText {c : RpcConfig ω} {disk : Disk} {text : Bytes}
    (h : c.iniText disk = some text) :
    (c.fileRead disk).isSome ∧ (c.load disk).outcome = (parse text c.configItem).outcome ∧
      (c.load disk).config.configItem = insertEntries c.configItem (readEntries text) := by
  unfold iniText at h
  split at h
  case isTrue htype =>
    obtain ⟨data, hdata, rfl⟩ := Option.map_eq_some_iff.mp h
    exact ⟨Option.isSome_of_eq_some hdata, load_ini hdata htype⟩
  case isFalse => cases h

theorem load_of_no_iniText {c : RpcConfig ω} {disk : Disk} (h : c.iniText disk = none) :
    ((c.load disk).outcome = .ok true ↔ (c.fileRead disk).isSome) ∧
      (c.load disk).outcome ≠ .error .undefined ∧
      (c.load disk).config.configItem = c.configItem := by
  cases hread : c.fileRead disk with
  | none =>
      rw [(load_of_not_read hread).1]
      refine ⟨?_, ?_, (load_of_not_read hread).2⟩ <;> split <;> simp
  | some data =>
      have htype : c.type ≠ .iniFile := by
        intro htype
        rw [iniText, if_pos htype, hread] at h
        cases h
      obtain ⟨houtcome, hitems⟩ := load_other hread htype
      rw [houtcome]
      exact ⟨by simp, by simp, hitems⟩

theorem load_eq_true_iff (c : RpcConfig ω) (disk : Disk) :
    (c.load disk).outcome = .ok true ↔ c.Loads disk := by
  unfold Loads
  cases htext : c.iniText disk with
  | none =>
      rw [(load_of_no_iniText htext).1]
      simp
  | some text =>
      obtain ⟨hread, houtcome, _⟩ := load_of_iniText htext
      rw [houtcome, parse_outcome]
      cases hfaulty : faultyLine text with
      | none => simp [hread, hfaulty]
      | some line => simp [hfaulty]

theorem lineFault_eq_undefined_iff {line : Bytes} (h : ¬SafeLine line) :
    lineFault line = .undefined ↔ ¬∀ parts ∈ assignment line, ¬EmptyPart parts.1 parts.2 := by
  unfold lineFault
  cases hparts : assignment line with
  | none => simp [SafeLine, hparts] at h
  | some parts => simp

theorem load_eq_undefined_iff (c : RpcConfig ω) (disk : Disk) :
    (c.load disk).outcome = .error .undefined ↔ ¬c.NoEmptyPart disk := by
  unfold NoEmptyPart
  cases htext : c.iniText disk with
  | none => simp [(load_of_no_iniText htext).2.1]
  | some text =>
      rw [(load_of_iniText htext).2.1, parse_outcome]
      cases hfaulty : faultyLine text with
      | none => simp [hfaulty]
      | some line =>
          have hfaults : ¬SafeLine line := by
            simpa using List.find?_some hfaulty
          simpa [hfaulty] using lineFault_eq_undefined_iff hfaults

theorem keepsValues_iff (c : RpcConfig ω) (disk : Disk) :
    c.KeepsValues disk ↔ c.NoEmptyPart disk ∧ c.NothingNew disk := by
  rw [KeepsValues, ne_eq, load_eq_undefined_iff, not_not, ne_eq, load_eq_true_iff]
  apply and_congr_right
  intro hdefined
  cases htext : c.iniText disk with
  | none =>
      have hitems := (load_of_no_iniText htext).2.2
      simp [NothingNew, htext, get, hitems]
  | some text =>
      rw [get_unchanged_iff (load_of_iniText htext).2.2]
      simp only [NothingNew, Loads, htext, Option.mem_some_iff, forall_eq',
        (load_of_iniText htext).1, true_and]
      cases hfaulty : faultyLine text with
      | some line => simp
      | none =>
          simp only [true_and, ne_eq, not_true_eq_false, false_implies, iff_true]
          intro hfails key _
          have hentries : readEntries text = [] := by
            by_contra hentries
            apply hfails
            refine ⟨?_, .inr hentries⟩
            rintro rfl
            exact hentries rfl
          rw [hentries]
          rfl

end RpcConfig

theorem KitRpcApplication.keepsConfig_iff {app : KitRpcApplication ω} (h : app.isInit = true)
    (config : Nat) (disk : Disk) :
    app.KeepsConfig config disk ↔
      (app.configs config).NoEmptyPart disk ∧
        ((app.configs config).Loads disk ∨ app.config = some config) := by
  have hloaded : (app.setConfig config disk).loaded =
      some ((app.configs config).load disk).outcome := by
    simp [setConfig, h]
  have hactive : (app.setConfig config disk).app.getConfig = some config := by
    simp [setConfig, getConfig, h]
  have hbefore : app.getConfig = app.config := by
    simp [getConfig, h]
  rw [KeepsConfig, hloaded, hactive, hbefore, ne_eq, ne_eq, Option.some.injEq, Option.some.injEq,
    RpcConfig.load_eq_undefined_iff, RpcConfig.load_eq_true_iff, not_not, ← or_iff_not_imp_left,
    eq_comm]

/-- When a change of the configuration that fails leaves no trace: the parser is
not asked for the last character of an empty part; the load succeeds, or the
configuration was active before; and no line before the failure defines anything
new. -/
theorem leavesNoTrace_iff {app : KitRpcApplication ω} (h : app.isInit = true) (config : Nat)
    (c : RpcConfig ω) (disk : Disk) :
    (app.KeepsConfig config disk ↔
      (app.configs config).NoEmptyPart disk ∧
        ((app.configs config).Loads disk ∨ app.config = some config)) ∧
      (c.KeepsValues disk ↔ c.NoEmptyPart disk ∧ c.NothingNew disk) :=
  ⟨KitRpcApplication.keepsConfig_iff h config disk, RpcConfig.keepsValues_iff c disk⟩

/-- `a` holds `k=1`, `b` holds `k=1` and a line with a blank value. -/
def twoFiles : Disk := fun file =>
  if file = [0x61] then some (.bytes [0x6b, 0x3d, 0x31])
  else if file = [0x62] then some (.bytes [0x6b, 0x3d, 0x31, 0x0a, 0x6c, 0x3d, 0x20])
  else none

/-- Configurations for `a`, `b` and a file that is not there; the first is active. -/
def threeConfigs : KitRpcApplication Unit :=
  { configs := fun config =>
      .create (if config = 0 then [0x61] else if config = 1 then [0x62] else [0x63]) .iniFile
    config := some 0
    isInit := true }

theorem leavesNoTrace_threeConfigs :
    threeConfigs.KeepsConfig 0 twoFiles ∧ (threeConfigs.configs 2).KeepsValues twoFiles := by
  have hinit : threeConfigs.isInit = true := rfl
  have hkeeps := leavesNoTrace_iff hinit 0 (threeConfigs.configs 2) twoFiles
  have htext : (threeConfigs.configs 0).iniText twoFiles = some [0x6b, 0x3d, 0x31] := rfl
  have hmissing : (threeConfigs.configs 2).iniText twoFiles = none := rfl
  have hsafe : faultyLine [0x6b, 0x3d, 0x31] = none := rfl
  refine ⟨hkeeps.1.mpr ⟨?_, .inr rfl⟩, hkeeps.2.mpr ⟨?_, ?_⟩⟩
  · simp [RpcConfig.NoEmptyPart, htext, hsafe]
  · simp [RpcConfig.NoEmptyPart, hmissing]
  · simp [RpcConfig.NothingNew, hmissing]

/-- The configuration for `b` becomes the active one and keeps `k` although its
load throws; so does the one whose file is missing. -/
theorem not_leavesNoTrace_blank_or_missing :
    (threeConfigs.setConfig 1 twoFiles).loaded = some (.error (.thrown .outOfRange)) ∧
      (threeConfigs.setConfig 1 twoFiles).app.getConfig = some 1 ∧
      (threeConfigs.setConfig 2 twoFiles).loaded = some (.ok false) ∧
      (threeConfigs.setConfig 2 twoFiles).app.getConfig = some 2 ∧
      ((threeConfigs.configs 1).load twoFiles).config.get [0x6b] = [0x31] ∧
      ¬threeConfigs.KeepsConfig 1 twoFiles ∧ ¬(threeConfigs.configs 1).KeepsValues twoFiles := by
  refine ⟨rfl, rfl, rfl, rfl, rfl, fun h => ?_, fun h => ?_⟩
  · have hloaded : (threeConfigs.setConfig 1 twoFiles).loaded ≠ some (.ok true) := by
      rw [show (threeConfigs.setConfig 1 twoFiles).loaded =
        some (.error (.thrown .outOfRange)) from rfl]
      simp
    cases h.2 hloaded
  · have hloaded : ((threeConfigs.configs 1).load twoFiles).outcome ≠ .ok true := by
      rw [show ((threeConfigs.configs 1).load twoFiles).outcome =
        .error (.thrown .outOfRange) from rfl]
      simp
    cases h.2 hloaded [0x6b]

end KitRpc.Config

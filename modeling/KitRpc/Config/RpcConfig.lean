import KitRpc.Config.IniParse
/-!
# Configuration files

`RpcConfig` loads a file into its items. The items stay when another file is set
and loaded. The parser is handed the file as a `const char*`, so it sees what
stands in front of the first NUL byte.
-/

namespace KitRpc.Config

open KitRpc.Cpp

inductive FileType
  | unknowFile
  | iniFile
  | jsonFile
  | yamlFile
  deriving DecidableEq, Repr

def FileType.value : FileType → Nat
  | unknowFile => 0
  | iniFile => 1
  | jsonFile => 2
  | yamlFile => 3

inductive ConfigParse
  | ini
  | json
  | yaml
  deriving DecidableEq, Repr

def configFileType : FileType → Option ConfigParse
  | .unknowFile => none
  | .iniFile => some .ini
  | .jsonFile => some .json
  | .yamlFile => some .yaml

variable {ω : Type}

/-- `RpcConfigParse::parse`; the parsers for JSON and YAML accept everything and
store nothing. -/
def ConfigParse.parse (parser : ConfigParse) (data : Bytes) (items : ConfigItems ω) :
    Parsed ω :=
  match parser with
  | .ini => Config.parse data items
  | .json | .yaml => ⟨items, .ok true⟩

/-- An open file: the bytes up to its end, or one that cannot be read, or one
without a size that a string can have, such as a directory or a pipe. -/
inductive FileData
  | bytes (data : Bytes)
  | unreadable
  | unsized
  deriving DecidableEq, Repr

def FileData.bytes? : FileData → Option Bytes
  | bytes data => some data
  | unreadable | unsized => none

/-- The files that can be opened, by their paths. -/
abbrev Disk := Bytes → Option FileData

def readFile (disk : Disk) (file : Bytes) : Option Bytes := (disk file).bind FileData.bytes?

structure RpcConfig (ω : Type) where
  f : Option FileData
  configFile : Bytes
  type : FileType
  configItem : ConfigItems ω
  configParse : Option ConfigParse

/-- A configuration after a call, and what the call returned or how it failed. -/
structure Loaded (ω : Type) where
  config : RpcConfig ω
  outcome : Except ParseFault Bool

namespace RpcConfig

def create (file : Bytes) (type : FileType) : RpcConfig ω :=
  { f := none, configFile := file, type, configItem := [], configParse := none }

def setFile (c : RpcConfig ω) (file : Bytes) (type : FileType) : RpcConfig ω :=
  { c with f := none, configFile := file, type }

def loadFile (c : RpcConfig ω) (disk : Disk) : RpcConfig ω × Bool :=
  let c := { c with f := none }
  if FileType.unknowFile.value ≥ c.type.value ∨ c.type.value > FileType.yamlFile.value then
    (c, false)
  else
    match disk c.configFile with
    | none => (c, false)
    | some file => ({ c with f := some file, configParse := configFileType c.type }, true)

def loadConfigFromFile (c : RpcConfig ω) : Loaded ω :=
  match c.f with
  | none => ⟨c, .ok false⟩
  | some .unreadable => ⟨c, .ok false⟩
  -- `std::string file_data(file_size, 0)` with the size `-1` or that of a directory.
  | some .unsized => ⟨c, .error (.thrown .lengthError)⟩
  | some (.bytes fileData) =>
    match c.configParse with
    | none => ⟨c, .error .undefined⟩
    | some parser =>
      let parsed := parser.parse (cStr fileData) c.configItem
      ⟨{ c with configItem := parsed.items }, parsed.outcome⟩

def load (c : RpcConfig ω) (disk : Disk) : Loaded ω :=
  match c.loadFile disk with
  | (c, true) => c.loadConfigFromFile
  | (c, false) => ⟨c, .ok false⟩

def get (c : RpcConfig ω) (key : Bytes) : Bytes :=
  match c.configItem.find key with
  | some (.text s) => s
  | _ => []

/-! ## Loading -/

def fileRead (c : RpcConfig ω) (disk : Disk) : Option Bytes :=
  if c.type = .unknowFile then none else readFile disk c.configFile

def MeetsUnsized (c : RpcConfig ω) (disk : Disk) : Prop :=
  c.type ≠ .unknowFile ∧ disk c.configFile = some .unsized

instance (c : RpcConfig ω) (disk : Disk) : Decidable (c.MeetsUnsized disk) :=
  inferInstanceAs (Decidable (_ ∧ _))

theorem readFile_eq_some_iff {disk : Disk} {file data : Bytes} :
    readFile disk file = some data ↔ disk file = some (.bytes data) := by
  unfold readFile
  cases disk file with
  | none => simp
  | some f => cases f <;> simp [FileData.bytes?]

theorem type_rejected_iff (type : FileType) :
    FileType.unknowFile.value ≥ type.value ∨ type.value > FileType.yamlFile.value ↔
      type = .unknowFile := by
  cases type <;> decide

/-- Nothing changes but the stream where no file is read. -/
theorem load_of_not_read {c : RpcConfig ω} {disk : Disk} (h : c.fileRead disk = none) :
    (c.load disk).outcome =
        (if c.MeetsUnsized disk then .error (.thrown .lengthError) else .ok false) ∧
      (c.load disk).config.configItem = c.configItem := by
  unfold load loadFile
  simp only [type_rejected_iff]
  unfold fileRead at h
  split at h
  case isTrue htype => simp [htype, MeetsUnsized]
  case isFalse htype =>
    simp only [if_neg htype]
    cases hdisk : disk c.configFile with
    | none => simp [MeetsUnsized, hdisk]
    | some file =>
        cases file with
        | bytes data => simp [readFile, hdisk, FileData.bytes?] at h
        | unreadable => simp [loadConfigFromFile, MeetsUnsized, hdisk]
        | unsized => simp [loadConfigFromFile, MeetsUnsized, hdisk, htype]

theorem load_of_read {c : RpcConfig ω} {disk : Disk} {data : Bytes} {p : ConfigParse}
    (h : c.fileRead disk = some data) (hp : configFileType c.type = some p) :
    (c.load disk).outcome = (p.parse (cStr data) c.configItem).outcome ∧
      (c.load disk).config.configItem = (p.parse (cStr data) c.configItem).items := by
  have htype : c.type ≠ .unknowFile := by
    intro htype
    rw [htype] at hp
    cases hp
  rw [fileRead, if_neg htype, readFile_eq_some_iff] at h
  simp only [load, loadFile, type_rejected_iff, if_neg htype, h, hp, loadConfigFromFile,
    and_self]

theorem load_ini {c : RpcConfig ω} {disk : Disk} {data : Bytes} (h : c.fileRead disk = some data)
    (htype : c.type = .iniFile) :
    (c.load disk).outcome = (Config.parse (cStr data) c.configItem).outcome ∧
      (c.load disk).config.configItem =
        insertEntries c.configItem (readEntries (cStr data)) := by
  have hload := load_of_read (p := .ini) h (by rw [htype, configFileType])
  rw [ConfigParse.parse, parse_items] at hload
  exact hload

theorem load_other {c : RpcConfig ω} {disk : Disk} {data : Bytes}
    (h : c.fileRead disk = some data) (htype : c.type ≠ .iniFile) :
    (c.load disk).outcome = .ok true ∧ (c.load disk).config.configItem = c.configItem := by
  cases hc : c.type with
  | unknowFile =>
      rw [fileRead, if_pos hc] at h
      cases h
  | iniFile => exact (htype hc).elim
  | jsonFile => exact load_of_read (p := .json) h (by rw [hc, configFileType])
  | yamlFile => exact load_of_read (p := .yaml) h (by rw [hc, configFileType])

theorem loadFile_path (c : RpcConfig ω) (disk : Disk) :
    (c.loadFile disk).1.type = c.type ∧ (c.loadFile disk).1.configFile = c.configFile := by
  unfold loadFile
  dsimp only
  split
  · exact ⟨rfl, rfl⟩
  · split <;> exact ⟨rfl, rfl⟩

theorem loadConfigFromFile_path (c : RpcConfig ω) :
    c.loadConfigFromFile.config.type = c.type ∧
      c.loadConfigFromFile.config.configFile = c.configFile := by
  unfold loadConfigFromFile
  split
  · exact ⟨rfl, rfl⟩
  · exact ⟨rfl, rfl⟩
  · exact ⟨rfl, rfl⟩
  · split <;> exact ⟨rfl, rfl⟩

theorem load_path (c : RpcConfig ω) (disk : Disk) :
    (c.load disk).config.type = c.type ∧ (c.load disk).config.configFile = c.configFile := by
  have hfile := loadFile_path c disk
  unfold load
  split
  case h_1 opened heq =>
    rw [heq] at hfile
    have hread := loadConfigFromFile_path opened
    exact ⟨hread.1.trans hfile.1, hread.2.trans hfile.2⟩
  case h_2 closed heq =>
    rw [heq] at hfile
    exact hfile

/-- Values change only where a key gets one for the first time. -/
theorem get_insertEntries {c c' : RpcConfig ω} {entries : List (Bytes × Bytes)}
    (h : c'.configItem = insertEntries c.configItem entries) (key : Bytes) :
    c'.get key =
      if c.configItem.find key = none then (valueIn entries key).getD [] else c.get key := by
  rw [get, get, h, find_insertEntries]
  cases c.configItem.find key with
  | some value => simp
  | none => cases valueIn entries key <;> simp

theorem get_unchanged_iff {c c' : RpcConfig ω} {entries : List (Bytes × Bytes)}
    (h : c'.configItem = insertEntries c.configItem entries) :
    (∀ key, c'.get key = c.get key) ↔
      ∀ key, c.configItem.find key = none → (valueIn entries key).getD [] = [] := by
  apply forall_congr'
  intro key
  rw [get_insertEntries h]
  by_cases hnew : c.configItem.find key = none
  · have hbefore : c.get key = [] := by rw [get, hnew]
    rw [if_pos hnew, hbefore]
    exact (imp_iff_right hnew).symm
  · simp [hnew]

end RpcConfig

end KitRpc.Config

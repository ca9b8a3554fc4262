import KitRpc.Config.Application
import KitRpc.Config.Layout
import KitRpc.Cpp.Number
/-!
# Starting up

`KitRpcApplication::Init` takes the configuration file from the command line,
loads it, and sets the directory of the log. It returns only if all of this
works; otherwise the process ends, or the exception of the load leaves it. The
first record of the load starts the writer of the log, which ends the process
where it cannot open its file; the path is still empty then.
-/

namespace KitRpc.Config

open KitRpc.Cpp

/-! ## The command line -/

def optionI : Bytes := [minus, 0x69]

def endOfOptions : Bytes := [minus, minus]

/-- The loop around the first `getopt(argc, argv, "i:")` calls of the process,
from the next argument on. Arguments that are no options are passed over; `none`
is an unknown option or a missing value, both of which end the process. -/
def scanOptions (configFile : Bytes) : List Bytes → Option Bytes
  | [] => some configFile
  | arg :: args =>
    match arg with
    | dash :: option :: optarg =>
      if dash ≠ minus then scanOptions configFile args
      else if arg = endOfOptions then some configFile
      else if option ≠ 0x69 then none
      else if optarg ≠ [] then scanOptions optarg args
      else
        match args with
        | [] => none
        | optarg :: args => scanOptions optarg args
    | _ => scanOptions configFile args

/-- One element of a command line. -/
inductive Word
  | operand (arg : Bytes)
  | joined (file : Bytes)
  | separate (file : Bytes)

namespace Word

def args : Word → List Bytes
  | operand arg => [arg]
  | joined file => [optionI ++ file]
  | separate file => [optionI, file]

def file? : Word → Option Bytes
  | operand _ => none
  | joined file | separate file => some file

def IsOption (arg : Bytes) : Prop := ∃ option rest, arg = minus :: option :: rest

def Valid : Word → Prop
  | operand arg => ¬ IsOption arg
  | joined file => file ≠ []
  | separate _ => True

end Word

/-- The arguments are the elements, and possibly `--` with anything behind. -/
structure CommandLine (words : List Word) (args : List Bytes) : Prop where
  valid : ∀ w ∈ words, w.Valid
  split : ∃ rest, args = words.flatMap Word.args ++ rest ∧
    (rest = [] ∨ ∃ more, rest = endOfOptions :: more)

def lastFile (configFile : Bytes) (words : List Word) : Bytes :=
  (words.filterMap Word.file?).getLastD configFile

namespace CommandLine

variable {words : List Word} {args : List Bytes} {w : Word}

theorem nil : CommandLine [] [] := ⟨by simp, [], rfl, .inl rfl⟩

theorem ended (more : List Bytes) : CommandLine [] (endOfOptions :: more) :=
  ⟨by simp, endOfOptions :: more, rfl, .inr ⟨more, rfl⟩⟩

theorem cons (h : CommandLine words args) (hw : w.Valid) :
    CommandLine (w :: words) (w.args ++ args) := by
  obtain ⟨hvalid, rest, rfl, hrest⟩ := h
  exact ⟨List.forall_mem_cons.mpr ⟨hw, hvalid⟩, rest, by simp, hrest⟩

end CommandLine

theorem lastFile_cons (configFile : Bytes) (w : Word) (words : List Word) :
    lastFile configFile (w :: words) = lastFile (w.file?.getD configFile) words := by
  unfold lastFile
  cases hw : w.file? with
  | none => rw [List.filterMap_cons_none hw, Option.getD_none]
  | some file => rw [List.filterMap_cons_some hw, Option.getD_some, List.getLastD_cons]

theorem scanOptions_option (configFile optarg : Bytes) (option : UInt8) (args : List Bytes) :
    scanOptions configFile ((minus :: option :: optarg) :: args) =
      if minus :: option :: optarg = endOfOptions then some configFile
      else if option ≠ 0x69 then none
      else if optarg ≠ [] then scanOptions optarg args
      else
        match args with
        | [] => none
        | optarg :: args => scanOptions optarg args := by
  rw [scanOptions.eq_def]
  dsimp only
  rw [if_neg (not_not.mpr rfl)]

theorem scanOptions_end (configFile : Bytes) (more : List Bytes) :
    scanOptions configFile (endOfOptions :: more) = some configFile := by
  rw [endOfOptions, scanOptions_option]
  exact if_pos rfl

theorem scanOptions_operand {configFile arg : Bytes} {args : List Bytes}
    (h : ¬ Word.IsOption arg) :
    scanOptions configFile (arg :: args) = scanOptions configFile args := by
  match arg, h with
  | [], _ => rfl
  | [c], _ => rfl
  | c :: option :: optarg, h =>
      have hdash : c ≠ minus := by
        rintro rfl
        exact h ⟨option, optarg, rfl⟩
      rw [scanOptions.eq_def]
      dsimp only
      rw [if_pos hdash]

theorem scanOptions_joined {configFile file : Bytes} {args : List Bytes} (h : file ≠ []) :
    scanOptions configFile ((optionI ++ file) :: args) = scanOptions file args := by
  change scanOptions configFile ((minus :: 0x69 :: file) :: args) = _
  rw [scanOptions_option, if_neg (by simp [endOfOptions, minus]), if_neg (not_not.mpr rfl),
    if_pos h]

theorem scanOptions_separate {configFile file : Bytes} {args : List Bytes} :
    scanOptions configFile (optionI :: file :: args) = scanOptions file args := by
  change scanOptions configFile ((minus :: 0x69 :: []) :: file :: args) = _
  rw [scanOptions_option, if_neg (by decide), if_neg (not_not.mpr rfl), if_neg (not_not.mpr rfl)]

theorem scanOptions_word {configFile : Bytes} {args : List Bytes} {w : Word} (h : w.Valid) :
    scanOptions configFile (w.args ++ args) = scanOptions (w.file?.getD configFile) args := by
  cases w with
  | operand arg => exact scanOptions_operand h
  | joined file => exact scanOptions_joined h
  | separate file => exact scanOptions_separate

theorem CommandLine.exists_cons {configFile file : Bytes} {args : List Bytes} {w : Word}
    (hw : w.Valid)
    (h : ∃ words, CommandLine words args ∧ file = lastFile (w.file?.getD configFile) words) :
    ∃ words, CommandLine words (w.args ++ args) ∧ file = lastFile configFile words := by
  obtain ⟨words, hwords, rfl⟩ := h
  exact ⟨w :: words, hwords.cons hw, (lastFile_cons configFile w words).symm⟩

theorem exists_commandLine {configFile file : Bytes} {args : List Bytes}
    (h : scanOptions configFile args = some file) :
    ∃ words, CommandLine words args ∧ file = lastFile configFile words := by
  induction configFile, args using scanOptions.induct with
  | case1 configFile => exact ⟨[], .nil, (Option.some.inj h).symm⟩
  | case2 configFile args dash option optarg hdash ih =>
      have hoperand : Word.Valid (.operand (dash :: option :: optarg)) := by
        rintro ⟨_, _, heq⟩
        exact hdash (List.cons.inj heq).1
      rw [scanOptions_operand hoperand] at h
      exact CommandLine.exists_cons hoperand (ih h)
  | case3 configFile args dash option optarg _ hend =>
      rw [hend] at h ⊢
      rw [scanOptions_end] at h
      exact ⟨[], .ended args, (Option.some.inj h).symm⟩
  | case4 configFile args dash option optarg hdash hoption hend =>
      obtain rfl := not_not.mp hdash
      rw [scanOptions_option, if_neg hend, if_pos hoption] at h
      cases h
  | case5 configFile args dash option optarg hdash hoption hoptarg _ ih =>
      obtain rfl := not_not.mp hdash
      obtain rfl := not_not.mp hoption
      have hjoined : Word.Valid (.joined optarg) := hoptarg
      exact CommandLine.exists_cons hjoined (ih ((scanOptions_joined hoptarg).symm.trans h))
  | case6 configFile dash option optarg hdash hoption hoptarg hend =>
      obtain rfl := not_not.mp hdash
      rw [scanOptions_option, if_neg hend, if_neg hoption, if_neg hoptarg] at h
      cases h
  | case7 configFile dash option optarg hdash hoption hoptarg file args _ ih =>
      obtain rfl := not_not.mp hdash
      obtain rfl := not_not.mp hoption
      obtain rfl := not_not.mp hoptarg
      have hseparate : Word.Valid (.separate file) := trivial
      exact CommandLine.exists_cons hseparate (ih (scanOptions_separate.symm.trans h))
  | case8 configFile arg args hshort ih =>
      have hoperand : Word.Valid (.operand arg) := by
        rintro ⟨option, rest, heq⟩
        exact hshort minus option rest heq
      rw [scanOptions_operand hoperand] at h
      exact CommandLine.exists_cons hoperand (ih h)

theorem scanOptions_commandLine {words : List Word} {args : List Bytes}
    (h : CommandLine words args) (configFile : Bytes) :
    scanOptions configFile args = some (lastFile configFile words) := by
  obtain ⟨hvalid, rest, rfl, hrest⟩ := h
  induction words generalizing configFile with
  | nil =>
      rcases hrest with rfl | ⟨more, rfl⟩
      · rfl
      · exact scanOptions_end configFile more
  | cons w words ih =>
      rw [List.forall_mem_cons] at hvalid
      rw [List.flatMap_cons, List.append_assoc, scanOptions_word hvalid.1, lastFile_cons]
      exact ih _ hvalid.2

/-- The file is found exactly in a command line made of operands and of `-i` with
a value, and it is the last value. -/
theorem scanOptions_eq_some_iff {configFile file : Bytes} {args : List Bytes} :
    scanOptions configFile args = some file ↔
      ∃ words, CommandLine words args ∧ file = lastFile configFile words := by
  refine ⟨exists_commandLine, ?_⟩
  rintro ⟨words, hwords, rfl⟩
  exact scanOptions_commandLine hwords configFile

/-! ## `Init` -/

/-- How `Init` ends: by an `exit(-1)`, with what the load ran into, or with the
application it leaves and the path it gives the log. -/
inductive InitEnd (ω : Type)
  | exited
  | failed (fault : ParseFault)
  | ready (app : KitRpcApplication ω) (logPath : Bytes)

variable {ω : Type}

/-- The object of `GetInstace` before any call. -/
def KitRpcApplication.instance : KitRpcApplication ω where
  configs _ := .create [] .unknowFile
  config := none
  isInit := false

def KitRpcApplication.activate (app : KitRpcApplication ω) (address : Nat) (c : RpcConfig ω) :
    KitRpcApplication ω where
  configs := Function.update app.configs address c
  config := some address
  isInit := true

@[simp] theorem KitRpcApplication.getConfig_activate (app : KitRpcApplication ω) (address : Nat)
    (c : RpcConfig ω) : (app.activate address c).getConfig = some address := rfl

@[simp] theorem KitRpcApplication.configs_activate (app : KitRpcApplication ω) (address : Nat)
    (c : RpcConfig ω) : (app.activate address c).configs address = c :=
  Function.update_self ..

def logPathOf (c : RpcConfig ω) : Bytes :=
  if c.get (ascii "log_dir") ≠ [] then c.get (ascii "log_dir") else ascii "../log/"

/-- `Init` with the arguments `argv`; the configuration is made at `address`.
`writerExits` tells whether the writer of the log fails to open its file and is at
its `exit(-1)` before `Init` returns. -/
def KitRpcApplication.Init (app : KitRpcApplication ω) (address : Nat) (argv : List Bytes)
    (disk : Disk) (writerExits : Bool) : InitEnd ω :=
  if argv.length < 2 then .exited
  else
    match scanOptions [] argv.tail with
    | none => .exited
    | some configFile =>
      let loaded := (RpcConfig.create configFile .iniFile).load disk
      match loaded.outcome with
      | .error fault => .failed fault
      | .ok false => .exited
      | .ok true =>
        if writerExits then .exited
        else .ready (app.activate address loaded.config) (logPathOf loaded.config)

structure ReadFrom (c : RpcConfig ω) (data : Bytes) : Prop where
  safe : ∀ line ∈ getlines (cStr data), SafeLine line
  nonempty : fileEntries (cStr data) ≠ []
  items : c.configItem = insertEntries [] (fileEntries (cStr data))

theorem RpcConfig.fileRead_create (file : Bytes) (disk : Disk) :
    (RpcConfig.create file .iniFile : RpcConfig ω).fileRead disk = readFile disk file := rfl

theorem RpcConfig.load_create_outcome (file : Bytes) (disk : Disk) :
    ((RpcConfig.create file .iniFile : RpcConfig ω).load disk).outcome =
      match disk file with
      | none | some .unreadable => .ok false
      | some .unsized => .error (.thrown .lengthError)
      | some (.bytes data) =>
        match faultyLine (cStr data) with
        | none => .ok (fileEntries (cStr data) ≠ [])
        | some line => .error (lineFault line) := by
  have hnotRead (h : readFile disk file = none) :
      ((RpcConfig.create file .iniFile : RpcConfig ω).load disk).outcome = _ :=
    (load_of_not_read ((fileRead_create file disk).trans h)).1
  unfold MeetsUnsized at hnotRead
  rcases hdisk : disk file with _ | data | _ | _
  · rw [hnotRead (by simp [readFile, hdisk])]
    simp [create, hdisk]
  · have hdata := (fileRead_create (ω := ω) file disk).trans (readFile_eq_some_iff.mpr hdisk)
    rw [(load_ini hdata rfl).1, parse_outcome]
    cases hfaulty : faultyLine (cStr data) with
    | some line => simp only [hfaulty]
    | none =>
        have hnonempty : fileEntries (cStr data) ≠ [] → cStr data ≠ [] := by
          intro hentries hnil
          rw [hnil] at hentries
          exact hentries rfl
        simp only [hfaulty, readEntries_of_safe (faultyLine_eq_none_iff.mp hfaulty), create,
          ne_eq, not_true_eq_false, false_or, Except.ok.injEq, decide_eq_decide]
        exact and_iff_right_of_imp hnonempty
  · rw [hnotRead (by simp [readFile, hdisk, FileData.bytes?])]
    simp [create, hdisk]
  · rw [hnotRead (by simp [readFile, hdisk, FileData.bytes?])]
    simp [create, hdisk]

theorem RpcConfig.load_create_eq_true_iff {file : Bytes} {disk : Disk} :
    ((RpcConfig.create file .iniFile : RpcConfig ω).load disk).outcome = .ok true ↔
      ∃ data, disk file = some (.bytes data) ∧
        ReadFrom ((RpcConfig.create file .iniFile : RpcConfig ω).load disk).config data := by
  rw [load_create_outcome]
  constructor
  · intro h
    split at h
    case h_1 | h_2 | h_3 => cases h
    case h_4 data hdata =>
      split at h
      case h_2 => cases h
      case h_1 hfaulty =>
        have hsafe := faultyLine_eq_none_iff.mp hfaulty
        have hentries := of_decide_eq_true (Except.ok.inj h)
        refine ⟨data, hdata, hsafe, hentries, ?_⟩
        have hread := (fileRead_create (ω := ω) file disk).trans (readFile_eq_some_iff.mpr hdata)
        rw [(load_ini hread rfl).2, readEntries_of_safe hsafe]
        rfl
  · rintro ⟨data, hdata, hsafe, hentries, _⟩
    simp only [hdata, faultyLine_eq_none_iff.mpr hsafe, hentries, ne_eq, not_false_eq_true,
      decide_true]

theorem RpcConfig.load_create_eq_false_iff {file : Bytes} {disk : Disk} :
    ((RpcConfig.create file .iniFile : RpcConfig ω).load disk).outcome = .ok false ↔
      disk file ≠ some .unsized ∧ ∀ data, disk file = some (.bytes data) →
        (∀ line ∈ getlines (cStr data), SafeLine line) ∧ fileEntries (cStr data) = [] := by
  simp only [load_create_outcome, ← faultyLine_eq_none_iff]
  rcases disk file with _ | data | _ | _
  · simp
  · cases hfaulty : faultyLine (cStr data) <;> simp [hfaulty]
  · simp
  · simp

theorem RpcConfig.load_create_eq_error_iff {file : Bytes} {disk : Disk} {fault : ParseFault} :
    ((RpcConfig.create file .iniFile : RpcConfig ω).load disk).outcome = .error fault ↔
      disk file = some .unsized ∧ fault = .thrown .lengthError ∨
        ∃ data line, disk file = some (.bytes data) ∧ faultyLine (cStr data) = some line ∧
          fault = lineFault line := by
  simp only [load_create_outcome]
  rcases disk file with _ | data | _ | _
  · simp
  · cases hfaulty : faultyLine (cStr data) with
    | none => simp [hfaulty]
    | some line => simpa [hfaulty] using eq_comm
  · simp
  · simpa using eq_comm

theorem firstWord_sublist (c : UInt8) (s : Bytes) : (firstWord c s).Sublist s :=
  (List.takeWhile_sublist _).trans (List.dropWhile_sublist _)

theorem withoutLineEnd_sublist (part : Bytes) : (withoutLineEnd part).Sublist part := by
  unfold withoutLineEnd
  split
  · exact List.dropLast_sublist part
  · exact List.Sublist.refl part

theorem entry_sublist {line : Bytes} {e : Bytes × Bytes} (h : entry line = some e) :
    e.2.Sublist line := by
  unfold entry at h
  split at h
  case h_1 => cases h
  case h_2 key val hparts =>
    rw [Option.ite_none_left_eq_some, Option.some.injEq] at h
    rw [← h.2]
    apply (firstWord_sublist space _).trans
    apply (withoutLineEnd_sublist val).trans
    unfold assignment at hparts
    split at hparts
    · cases hparts
    · rw [Option.ite_none_left_eq_some, Option.some.injEq, Prod.mk.injEq] at hparts
      rw [← hparts.2.2]
      exact (List.tail_sublist _).trans (List.dropWhile_sublist _)

namespace ReadFrom

variable {c : RpcConfig ω} {data : Bytes}

theorem find (h : ReadFrom c data) (key : Bytes) :
    c.configItem.find key = (valueIn (fileEntries (cStr data)) key).map .text := by
  rw [h.items, find_insertEntries, UnorderedMap.find_nil, Option.none_or]

theorem get (h : ReadFrom c data) (key : Bytes) :
    c.get key = (valueIn (fileEntries (cStr data)) key).getD [] := by
  rw [RpcConfig.get, h.find]
  cases valueIn (fileEntries (cStr data)) key <;> rfl

theorem notMem_get (h : ReadFrom c data) (key : Bytes) : (0 : UInt8) ∉ c.get key := by
  rw [h.get]
  cases hval : valueIn (fileEntries (cStr data)) key with
  | none => simp
  | some val =>
      rw [valueIn, Option.map_eq_some_iff] at hval
      obtain ⟨e, he, rfl⟩ := hval
      obtain ⟨line, hline, hentry⟩ := List.mem_filterMap.mp (List.mem_of_find?_eq_some he)
      intro hmem
      exact notMem_cStr data (mem_of_mem_getlines hline ((entry_sublist hentry).subset hmem)).1

end ReadFrom

/-- The arguments name a file by `-i`, the last one this, and have no other option. -/
def NamesFile (argv : List Bytes) (file : Bytes) : Prop :=
  argv.tail ≠ [] ∧ ∃ words, CommandLine words argv.tail ∧ file = lastFile [] words

theorem namesFile_iff {argv : List Bytes} {file : Bytes} :
    NamesFile argv file ↔ ¬ argv.length < 2 ∧ scanOptions [] argv.tail = some file := by
  rw [NamesFile, scanOptions_eq_some_iff, ← List.length_pos_iff, List.length_tail]
  have hargc : 0 < argv.length - 1 ↔ ¬ argv.length < 2 := by omega
  rw [hargc]

theorem NamesFile.unique {argv : List Bytes} {file file' : Bytes} (h : NamesFile argv file)
    (h' : NamesFile argv file') : file = file' :=
  Option.some.inj ((namesFile_iff.mp h).2.symm.trans (namesFile_iff.mp h').2)

variable {writerExits : Bool}

theorem init_of_namesFile {argv : List Bytes} {file : Bytes} (app : KitRpcApplication ω)
    (address : Nat) (disk : Disk) (h : NamesFile argv file) :
    let loaded := (RpcConfig.create file .iniFile).load disk
    app.Init address argv disk writerExits =
      match loaded.outcome with
      | .error fault => .failed fault
      | .ok false => .exited
      | .ok true =>
        if writerExits then .exited
        else .ready (app.activate address loaded.config) (logPathOf loaded.config) := by
  obtain ⟨hargc, hscan⟩ := namesFile_iff.mp h
  rw [KitRpcApplication.Init, if_neg hargc, hscan]

theorem init_of_no_file {argv : List Bytes} (app : KitRpcApplication ω) (address : Nat)
    (disk : Disk) (h : ∀ file, ¬NamesFile argv file) :
    app.Init address argv disk writerExits = .exited := by
  unfold KitRpcApplication.Init
  split
  case isTrue => rfl
  case isFalse hargc =>
    cases hscan : scanOptions [] argv.tail with
    | none => rfl
    | some file => exact absurd (namesFile_iff.mpr ⟨hargc, hscan⟩) (h file)

theorem file_named {app : KitRpcApplication ω} {address : Nat} {argv : List Bytes} {disk : Disk}
    (h : app.Init address argv disk writerExits ≠ .exited) : ∃ file, NamesFile argv file := by
  by_contra hnone
  rw [not_exists] at hnone
  exact h (init_of_no_file app address disk hnone)

/-- `Init` returns exactly if the arguments name a file that can be read, has an
entry and no line that the parser cannot handle, and the writer of the log does not
end the process; the first definitions of the file are then the configuration. -/
theorem init_eq_ready_iff {app app' : KitRpcApplication ω} {address : Nat} {argv : List Bytes}
    {disk : Disk} {logPath : Bytes} :
    app.Init address argv disk writerExits = .ready app' logPath ↔
      writerExits = false ∧ ∃ file, NamesFile argv file ∧
        let c : RpcConfig ω := ((RpcConfig.create file .iniFile).load disk).config
        (∃ data, disk file = some (.bytes data) ∧ ReadFrom c data) ∧
          app' = app.activate address c ∧ logPath = logPathOf c := by
  constructor
  · intro h
    have hreturns : app.Init address argv disk writerExits ≠ .exited := by
      rw [h]
      nofun
    obtain ⟨file, hfile⟩ := file_named hreturns
    rw [init_of_namesFile app address disk hfile] at h
    split at h
    case h_1 | h_2 => cases h
    case h_3 houtcome =>
      split at h
      case isTrue => cases h
      case isFalse halive =>
        cases h
        exact ⟨Bool.eq_false_iff.mpr halive, file, hfile,
          RpcConfig.load_create_eq_true_iff.mp houtcome, rfl, rfl⟩
  · rintro ⟨rfl, file, hfile, hread, rfl, rfl⟩
    rw [init_of_namesFile app address disk hfile]
    simp [RpcConfig.load_create_eq_true_iff.mpr hread]

/-- Why `Init` itself ends the process: the arguments do not name a file, or one
that cannot be opened or read, or has no entry. -/
def EndsProcess (argv : List Bytes) (disk : Disk) : Prop :=
  (∀ file, ¬NamesFile argv file) ∨ ∃ file, NamesFile argv file ∧ disk file ≠ some .unsized ∧
    ∀ data, disk file = some (.bytes data) →
      (∀ line ∈ getlines (cStr data), SafeLine line) ∧ fileEntries (cStr data) = []

/-- The load throws on a file without a size, or fails at the first line that the
parser cannot handle. -/
def FailsWith (argv : List Bytes) (disk : Disk) (fault : ParseFault) : Prop :=
  ∃ file, NamesFile argv file ∧ (disk file = some .unsized ∧ fault = .thrown .lengthError ∨
    ∃ data line, disk file = some (.bytes data) ∧ faultyLine (cStr data) = some line ∧
      fault = lineFault line)

def LoadsNamed (argv : List Bytes) (disk : Disk) : Prop :=
  ∃ file data, NamesFile argv file ∧ disk file = some (.bytes data) ∧
    (∀ line ∈ getlines (cStr data), SafeLine line) ∧ fileEntries (cStr data) ≠ []

theorem loadsNamed_iff {argv : List Bytes} {file : Bytes} {disk : Disk}
    (h : NamesFile argv file) :
    LoadsNamed argv disk ↔
      ((RpcConfig.create file .iniFile : RpcConfig ω).load disk).outcome = .ok true := by
  have houtcome := RpcConfig.load_create_outcome (ω := ω) file disk
  constructor
  · rintro ⟨file', data, h', hdata, hsafe, hentries⟩
    obtain rfl := h.unique h'
    rw [houtcome, hdata]
    simp [faultyLine_eq_none_iff.mpr hsafe, hentries]
  · intro houtcome
    obtain ⟨data, hdata, hread⟩ := RpcConfig.load_create_eq_true_iff.mp houtcome
    exact ⟨file, data, h, hdata, hread.safe, hread.nonempty⟩

theorem init_eq_exited_iff {app : KitRpcApplication ω} {address : Nat} {argv : List Bytes}
    {disk : Disk} :
    app.Init address argv disk writerExits = .exited ↔
      EndsProcess argv disk ∨ writerExits = true ∧ LoadsNamed argv disk := by
  by_cases hnamed : ∃ file, NamesFile argv file
  · obtain ⟨file, hfile⟩ := hnamed
    rw [init_of_namesFile app address disk hfile, loadsNamed_iff (ω := ω) hfile]
    have hends : EndsProcess argv disk ↔
        ((RpcConfig.create file .iniFile : RpcConfig ω).load disk).outcome = .ok false := by
      rw [RpcConfig.load_create_eq_false_iff, EndsProcess]
      constructor
      · rintro (hnone | ⟨file', hfile', hload⟩)
        · exact absurd hfile (hnone file)
        · exact hfile.unique hfile' ▸ hload
      · exact fun hload => .inr ⟨file, hfile, hload⟩
    rw [hends]
    rcases ((RpcConfig.create file .iniFile : RpcConfig ω).load disk).outcome with fault | result
    · simp
    · cases result <;> cases writerExits <;> simp
  · rw [not_exists] at hnamed
    exact iff_of_true (init_of_no_file app address disk hnamed) (.inl (.inl hnamed))

theorem init_eq_failed_iff {app : KitRpcApplication ω} {address : Nat} {argv : List Bytes}
    {disk : Disk} {fault : ParseFault} :
    app.Init address argv disk writerExits = .failed fault ↔ FailsWith argv disk fault := by
  constructor
  · intro h
    have hgoes : app.Init address argv disk writerExits ≠ .exited := by
      rw [h]
      nofun
    obtain ⟨file, hfile⟩ := file_named hgoes
    rw [init_of_namesFile app address disk hfile] at h
    refine ⟨file, hfile, RpcConfig.load_create_eq_error_iff (ω := ω).mp ?_⟩
    split at h
    case h_2 => cases h
    case h_3 => split at h <;> cases h
    case h_1 houtcome =>
      cases h
      exact houtcome
  · rintro ⟨file, hfile, hload⟩
    rw [init_of_namesFile app address disk hfile]
    simp only [RpcConfig.load_create_eq_error_iff.mpr hload]

/-- How `Init` ends is settled by the arguments, the file named last and, where this
loads, by whether the writer of the log can open its own file. Where it returns, the
file is the active configuration, each key with its first definition. -/
theorem init_ends (app : KitRpcApplication ω) (address : Nat) (argv : List Bytes) (disk : Disk)
    (writerExits : Bool) :
    (app.Init address argv disk writerExits = .exited ↔
      EndsProcess argv disk ∨ writerExits = true ∧ LoadsNamed argv disk) ∧
    (∀ fault, app.Init address argv disk writerExits = .failed fault ↔
      FailsWith argv disk fault) ∧
    ∀ app' logPath, app.Init address argv disk writerExits = .ready app' logPath →
      app'.getConfig = some address ∧ ∃ file data, NamesFile argv file ∧
        disk file = some (.bytes data) ∧
        ∀ key, (app'.configs address).get key =
          (valueIn (fileEntries (cStr data)) key).getD [] := by
  refine ⟨init_eq_exited_iff, fun fault => init_eq_failed_iff, fun app' logPath h => ?_⟩
  obtain ⟨_, file, hfile, ⟨data, hdisk, hread⟩, rfl, _⟩ := init_eq_ready_iff.mp h
  refine ⟨app.getConfig_activate .., file, data, hfile, hdisk, fun key => ?_⟩
  rw [app.configs_activate, hread.get]

end KitRpc.Config

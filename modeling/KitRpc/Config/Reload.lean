import KitRpc.Config.RpcConfig
/-!
# Loading one file after the other

A configuration shows the file it has loaded if it returns what the file
defines. Nothing takes the items of earlier files out again, and the success of
a load is read off all items, so whether it does depends on those files too.
-/

namespace KitRpc.Config

open KitRpc.Cpp

inductive IniCall
  | setFile (file : Bytes)
  | load (disk : Disk)

variable {ω : Type}

namespace RpcConfig

def call (c : RpcConfig ω) : IniCall → RpcConfig ω
  | .setFile file => c.setFile file .iniFile
  | .load disk => (c.load disk).config

def calls (c : RpcConfig ω) (made : List IniCall) : RpcConfig ω := made.foldl call c

end RpcConfig

/-- The load returned true exactly if the file has an entry; if it did, each key
of the file now has its first value there. -/
def Loaded.Shows (loaded : Loaded ω) (file : Option Bytes) : Prop :=
  ∃ result, loaded.outcome = .ok result ∧
    (result = true ↔ ∃ data ∈ file, fileEntries data ≠ []) ∧
    (result = true → ∀ data ∈ file, ∀ key val,
      valueIn (fileEntries data) key = some val → loaded.config.get key = val)

def currentFile : Bytes → List IniCall → Bytes
  | file, [] => file
  | _, .setFile file :: made => currentFile file made
  | file, .load _ :: made => currentFile file made

/-- What the loads among some calls read, where the parser got to it. -/
def entriesRead : Bytes → List IniCall → List (Bytes × Bytes)
  | _, [] => []
  | _, .setFile file :: made => entriesRead file made
  | file, .load disk :: made =>
    ((readFile disk file).elim [] fun data => readEntries (cStr data)) ++ entriesRead file made

/-- Every load of a new configuration shows the file that was just read. -/
def ShowsFiles (ω : Type) (file : Bytes) (made : List IniCall) : Prop :=
  ∀ before disk after, made = before ++ .load disk :: after →
    (((RpcConfig.create file .iniFile : RpcConfig ω).calls before).load disk).Shows
      (readFile disk (currentFile file before))

/-- What a load needs of its file, `seen` being the entries read so far, from
this file and before: the parser can handle each line, a file without entries is
empty or comes where none was seen, one with entries is not empty and some were
seen, and the first value seen for a key of the file is the file's. -/
structure Showable (data : Bytes) (seen : List (Bytes × Bytes)) : Prop where
  safe : ∀ line ∈ getlines (cStr data), SafeLine line
  without_entries : fileEntries data = [] → cStr data = [] ∨ seen = []
  with_entries : fileEntries data ≠ [] → cStr data ≠ [] ∧ seen ≠ []
  first : ∀ key val,
    valueIn (fileEntries data) key = some val → (valueIn seen key).getD [] = val

/-- Each load of a run finds a file it can show, and none without a size. -/
def FilesAgree (file : Bytes) (made : List IniCall) : Prop :=
  ∀ before disk after, made = before ++ .load disk :: after →
    disk (currentFile file before) ≠ some .unsized ∧
      ∀ data ∈ readFile disk (currentFile file before),
        Showable data (entriesRead file before ++ fileEntries (cStr data))

/-! ## What is held -/

theorem get_of_items {c : RpcConfig ω} {seen : List (Bytes × Bytes)}
    (h : c.configItem = insertEntries [] seen) (key : Bytes) :
    c.get key = (valueIn seen key).getD [] := by
  rw [RpcConfig.get_insertEntries (c := RpcConfig.create [] .iniFile) h]
  exact if_pos rfl

theorem showable_iff {data : Bytes} {seen : List (Bytes × Bytes)}
    (h : ∀ line ∈ getlines (cStr data), SafeLine line) :
    Showable data seen ↔
      (cStr data ≠ [] ∧ seen ≠ [] ↔ fileEntries data ≠ []) ∧
        (cStr data ≠ [] ∧ seen ≠ [] → ∀ key val,
          valueIn (fileEntries data) key = some val → (valueIn seen key).getD [] = val) := by
  constructor
  · intro hshow
    refine ⟨⟨fun hloaded hnone => ?_, hshow.with_entries⟩, fun _ => hshow.first⟩
    rcases hshow.without_entries hnone with hempty | hempty
    · exact hloaded.1 hempty
    · exact hloaded.2 hempty
  · rintro ⟨hflag, hfirst⟩
    refine ⟨h, fun hnone => ?_, hflag.mpr, fun key val hval => ?_⟩
    · by_contra hloaded
      rw [not_or] at hloaded
      exact hflag.mp hloaded hnone
    · have hentries : fileEntries data ≠ [] := by
        intro hnone
        rw [hnone] at hval
        cases hval
      exact hfirst (hflag.mpr hentries) key val hval

namespace RpcConfig

theorem fileRead_ini {c : RpcConfig ω} (h : c.type = .iniFile) (disk : Disk) :
    c.fileRead disk = readFile disk c.configFile := by
  rw [fileRead, if_neg (by simp [h])]

theorem load_ini_items {c : RpcConfig ω} (h : c.type = .iniFile) (disk : Disk) :
    (c.load disk).config.configItem =
      insertEntries c.configItem
        ((readFile disk c.configFile).elim [] fun data => readEntries (cStr data)) := by
  cases hread : readFile disk c.configFile with
  | none =>
      rw [← fileRead_ini h] at hread
      exact (load_of_not_read hread).2
  | some data =>
      rw [← fileRead_ini h] at hread
      rw [(load_ini hread h).2, Option.elim_some]

/-- A run of calls: the items hold the entries of all files read, one after the
other. -/
theorem calls_eq {c : RpcConfig ω} (h : c.type = .iniFile) (made : List IniCall) :
    (c.calls made).type = .iniFile ∧
      (c.calls made).configFile = currentFile c.configFile made ∧
      (c.calls made).configItem = insertEntries c.configItem (entriesRead c.configFile made) := by
  induction made generalizing c with
  | nil => exact ⟨h, rfl, rfl⟩
  | cons call made ih =>
      rw [calls, List.foldl_cons, ← calls]
      cases call with
      | setFile file =>
          exact ih (c := c.setFile file .iniFile) rfl
      | load disk =>
          obtain ⟨htype, hfile⟩ := load_path c disk
          have hrest := ih (c := (c.load disk).config) (htype.trans h)
          rw [hfile, load_ini_items h, insertEntries_append] at hrest
          exact hrest

theorem load_shows_iff {c : RpcConfig ω} (h : c.type = .iniFile)
    {earlier : List (Bytes × Bytes)} (hitems : c.configItem = insertEntries [] earlier)
    (disk : Disk) :
    (c.load disk).Shows (readFile disk c.configFile) ↔
      disk c.configFile ≠ some .unsized ∧ ∀ data ∈ readFile disk c.configFile,
        Showable data (earlier ++ fileEntries (cStr data)) := by
  have hafter := load_ini_items h disk
  rw [hitems, insertEntries_append] at hafter
  rw [← fileRead_ini h] at hafter ⊢
  cases hread : c.fileRead disk with
  | none =>
      by_cases hunsized : disk c.configFile = some .unsized
      · simp [Loaded.Shows, (load_of_not_read hread).1, MeetsUnsized, h, hunsized]
      · simp [Loaded.Shows, (load_of_not_read hread).1, MeetsUnsized, hunsized]
  | some data =>
      have hsized : disk c.configFile ≠ some .unsized := by
        rw [fileRead_ini h, readFile_eq_some_iff] at hread
        simp [hread]
      rw [and_iff_right hsized]
      rw [hread, Option.elim_some] at hafter
      have houtcome := (load_ini hread h).1
      rw [parse_outcome, hitems] at houtcome
      simp only [Loaded.Shows, houtcome, Option.mem_some_iff, forall_eq', exists_eq_left']
      cases hfaulty : faultyLine (cStr data) with
      | some line =>
          have hfails : ¬∀ line ∈ getlines (cStr data), SafeLine line := by
            rw [← faultyLine_eq_none_iff, hfaulty]
            simp
          constructor
          · rintro ⟨result, hresult, _⟩
            cases hresult
          · intro hshow
            exact (hfails hshow.safe).elim
      | none =>
          have hsafe := faultyLine_eq_none_iff.mp hfaulty
          rw [readEntries_of_safe hsafe] at hafter
          have hflag : (cStr data ≠ [] ∧ (insertEntries [] earlier ≠ ([] : ConfigItems ω) ∨
                readEntries (cStr data) ≠ [])) ↔
              cStr data ≠ [] ∧ earlier ++ fileEntries (cStr data) ≠ [] := by
            rw [ne_eq (insertEntries [] earlier), insertEntries_eq_nil_iff, and_iff_right rfl,
              readEntries_of_safe hsafe, ne_eq (_ ++ _), List.append_eq_nil_iff, not_and_or]
          simp only [hflag, Except.ok.injEq, exists_eq_left', decide_eq_true_iff,
            get_of_items hafter]
          exact (showable_iff hsafe).symm

end RpcConfig

/-- The configuration shows every file exactly if the files agree: none without
entries comes after one with entries, and none gives a key another value than an
earlier one. -/
theorem showsFiles_iff_filesAgree (ω : Type) (file : Bytes) (made : List IniCall) :
    ShowsFiles ω file made ↔ FilesAgree file made := by
  have hload (before : List IniCall) (disk : Disk) :
      (((RpcConfig.create file .iniFile : RpcConfig ω).calls before).load disk).Shows
          (readFile disk (currentFile file before)) ↔
        disk (currentFile file before) ≠ some .unsized ∧
          ∀ data ∈ readFile disk (currentFile file before),
            Showable data (entriesRead file before ++ fileEntries (cStr data)) := by
    obtain ⟨htype, hfile, hitems⟩ :=
      RpcConfig.calls_eq (c := (RpcConfig.create file .iniFile : RpcConfig ω)) rfl before
    have hiff := RpcConfig.load_shows_iff htype hitems disk
    rw [hfile] at hiff
    exact hiff
  constructor
  · intro hshows before disk after hmade
    exact (hload before disk).mp (hshows before disk after hmade)
  · intro hagree before disk after hmade
    exact (hload before disk).mpr (hagree before disk after hmade)

def IniCall.Parses : IniCall → Prop
  | .setFile _ => True
  | .load disk =>
    ∀ file data, disk file = some (.bytes data) → ∀ line ∈ getlines (cStr data), SafeLine line

/-- `a` holds `k=1`, `b` holds `k=2` and `c` holds a comment. -/
def threeFiles : Disk := fun file =>
  if file = [0x61] then some (.bytes [0x6b, 0x3d, 0x31])
  else if file = [0x62] then some (.bytes [0x6b, 0x3d, 0x32])
  else if file = [0x63] then some (.bytes [0x23])
  else none

/-- Behind `a`, loading `b` leaves `k` at `1`, and loading `c` succeeds. -/
theorem not_showsFiles_second_file :
    let c := (RpcConfig.create [0x61] .iniFile : RpcConfig Unit).calls [.load threeFiles]
    ((c.call (.setFile [0x62])).load threeFiles).outcome = .ok true ∧
      ((c.call (.setFile [0x62])).load threeFiles).config.get [0x6b] = [0x31] ∧
      ((c.call (.setFile [0x63])).load threeFiles).outcome = .ok true ∧
      ¬∀ file made, (∀ call ∈ made, IniCall.Parses call) → ShowsFiles Unit file made := by
  refine ⟨rfl, rfl, rfl, fun h => ?_⟩
  have hparses : (IniCall.load threeFiles).Parses := by
    intro file data hfile
    unfold threeFiles at hfile
    split_ifs at hfile
    all_goals
      cases hfile
      decide
  have hshows := h [0x61] [.load threeFiles, .setFile [0x62], .load threeFiles]
    (by simp [hparses, show (IniCall.setFile [0x62]).Parses from trivial])
  obtain ⟨result, hresult, _, hget⟩ :=
    hshows [.load threeFiles, .setFile [0x62]] threeFiles [] rfl
  have hloaded : result = true := (Except.ok.inj hresult).symm
  have hvalue : ([0x31] : Bytes) = [0x32] := hget hloaded _ rfl [0x6b] [0x32] rfl
  exact absurd hvalue (by decide)

end KitRpc.Config

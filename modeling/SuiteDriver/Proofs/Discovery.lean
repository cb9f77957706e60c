import SuiteDriver.Proofs.DottedPath
import SuiteDriver.Proofs.StandingFiles

/-!
# One source for a configuration

A configuration comes from one file or from none. The file is the one that was asked for; if none
was, it is the standard one of the directory that is searched. A file that cannot be read, or is not
understood, is a fault wherever it was named, and nothing else is looked at instead.

Whether there is a standard file is a question to the system, and its faults count as a no. So a
file that stands there is passed over in silence where the way to it is beyond a limit, and a run
gets what no configuration says. Asked for by its path, the same file is a fault.

* `ConfigFile.source`: the one path that is looked at;
* `ConfigFile.discover_of_isFile`, `ConfigFile.discover_of_not_isFile`: what becomes of it;
* `ConfigFile.path_of_discover_iff`: the path that is told is that of the configuration;
* `ConfigFile.discover_never_mixes`: all of it together, and when a file is passed over;
* `ConfigFile.discover_overlooks_file`: one that is.
-/

namespace SuiteDriver

/-! ## 1. Many points in front -/

namespace Path

variable {base path : String}

theorem repeat_dotted_ne_empty (n : Nat) (hne : path ≠ "") : Nat.repeat dotted n path ≠ "" := by
  cases n with
  | zero => exact hne
  | succ n => exact dotted_ne_empty _

theorem join_repeat_dotted (n : Nat) (hne : base ≠ "") (hpath : isAbsolute path = false) :
    join (Nat.repeat dotted n base) path = Nat.repeat dotted n (join base path) := by
  induction n with
  | zero => rfl
  | succ n ih =>
    have hcons : join (Nat.repeat dotted (n + 1) base) path =
        dotted (join (Nat.repeat dotted n base) path) :=
      join_dotted (repeat_dotted_ne_empty n hne) hpath
    rw [hcons, ih]
    rfl

theorem utf8ByteSize_repeat_dotted (n : Nat) (path : String) :
    (Nat.repeat dotted n path).utf8ByteSize = 2 * n + path.utf8ByteSize := by
  induction n with
  | zero => simp [Nat.repeat]
  | succ n ih =>
    have hcons : (Nat.repeat dotted (n + 1) path).utf8ByteSize =
        2 + (Nat.repeat dotted n path).utf8ByteSize := String.utf8ByteSize_append ..
    rw [hcons, ih]
    omega

end Path

namespace FileSystem

variable {fs : FileSystem} {path text : String}

theorem hasFile_dotted (hrelative : Path.isAbsolute path = false) (h : fs.HasFile path) :
    fs.HasFile (Path.dotted path) := by
  obtain ⟨hnul, hne, loc, content, hreaches, hnode⟩ := h
  refine ⟨(Path.hasNul_dotted path).trans hnul, Path.dotted_ne_empty path, loc, content, ?_, hnode⟩
  unfold start at hreaches ⊢
  rw [hrelative] at hreaches
  rw [Path.isAbsolute_dotted, Path.names_dotted hne]
  exact .void (Or.inr rfl) hreaches

/-- A file stands at a path also with many points in front. -/
theorem hasFile_repeat_dotted (n : Nat) (hrelative : Path.isAbsolute path = false)
    (h : fs.HasFile path) : fs.HasFile (Nat.repeat Path.dotted n path) := by
  induction n with
  | zero => exact h
  | succ n ih =>
    refine hasFile_dotted ?_ ih
    cases n with
    | zero => exact hrelative
    | succ n => exact Path.isAbsolute_dotted _

/-! ## 2. What is seen -/

theorem isFile_iff : fs.isFile path = true ↔ ∃ content, fs.node? path = some (.file content) := by
  unfold isFile
  rw [Option.any_eq_true]
  constructor
  · rintro ⟨node, hnode, hfile⟩
    cases node with
    | file content => exact ⟨content, hnode⟩
    | directory => cases hfile
    | link target => cases hfile
  · rintro ⟨content, hnode⟩
    exact ⟨_, hnode, rfl⟩

/-- **The test for a file says yes where one stands within the limits**, and only there. -/
theorem isFile_iff_hasFile :
    fs.isFile path = true ↔ fs.HasFile path ∧ ¬ fs.IsBeyondLimit path := by
  rw [isFile_iff]
  unfold node?
  constructor
  · rintro ⟨content, hnode⟩
    cases hloc : fs.locate path with
    | error e =>
      rw [hloc] at hnode
      cases hnode
    | ok loc =>
      rw [hloc] at hnode
      refine ⟨hasFile_of_locate hloc hnode, ?_⟩
      rintro ⟨e, -, he⟩
      cases hloc.symm.trans he
  · rintro ⟨hfile, hwithin⟩
    obtain ⟨loc, content, hloc, hnode⟩ := (locate_of_hasFile hfile).resolve_right hwithin
    exact ⟨content, by rw [hloc]; exact hnode⟩

/-- What cannot be found cannot be read. -/
theorem read_of_locate_error {e : OsError} (h : fs.locate path = .error e) :
    fs.read path = .error e := by
  unfold read
  rw [h]

/-- What can be read is a file. -/
theorem isFile_of_read (h : fs.read path = .ok text) : fs.isFile path = true := by
  refine isFile_iff.mpr ?_
  unfold read at h
  unfold node?
  cases hloc : fs.locate path with
  | error e =>
    rw [hloc] at h
    cases h
  | ok loc =>
    rw [hloc] at h
    dsimp only at h ⊢
    split at h
    · next content hcontent => exact ⟨content, hcontent⟩
    · cases h
    · cases h

end FileSystem

/-! ## 3. Where a configuration comes from -/

namespace ConfigFile

variable {fs fs' : FileSystem} {language : Language} {path dir dir' : String} {config : Config}
  {asked found : Option String}

/-- The path of the file that a configuration can come from. -/
def source (asked : Option String) (dir : String) : String :=
  asked.getD (Path.join dir standardName)

/-- **A configuration that was asked for** is what its file gives, whatever else there is. -/
theorem discover_asked_congr (h : fs.read path = fs'.read path) :
    discover fs language (some path) dir = discover fs' language (some path) dir' := by
  unfold discover load
  dsimp only
  rw [h]

/-- It is a fault exactly if the file cannot be read or is not understood. -/
theorem discover_asked_refused_iff :
    (∃ fault, discover fs language (some path) dir = .error fault) ↔
      ¬ ∃ config, Holds fs path config := by
  cases hdiscover : discover fs language (some path) dir with
  | error fault =>
    refine ⟨fun _ hholds => ?_, fun _ => ⟨fault, rfl⟩⟩
    obtain ⟨config, hconfig⟩ := hholds
    rw [discover_of_asked.mpr ⟨hconfig, rfl⟩] at hdiscover
    cases hdiscover
  | ok p =>
    obtain ⟨config, told⟩ := p
    exact ⟨nofun, fun hnone => absurd ⟨config, (discover_of_asked.mp hdiscover).1⟩ hnone⟩

/-- **The standard file counts as asked for** where it is a file. -/
theorem discover_of_isFile (h : fs.isFile (Path.join dir standardName) = true) :
    discover fs language none dir =
      discover fs language (some (Path.join dir standardName)) dir' := by
  unfold discover
  dsimp only
  rw [if_pos h]

/-- Elsewhere nothing is read. -/
theorem discover_of_not_isFile (h : fs.isFile (Path.join dir standardName) = false) :
    discover fs language none dir = .ok (Config.empty, none) := by
  unfold discover
  dsimp only
  rw [if_neg (by simp [h])]

/-- **Nothing is read exactly if no standard file is seen.** -/
theorem discover_eq_nothing_iff :
    discover fs language none dir = .ok (Config.empty, none) ↔
      fs.isFile (Path.join dir standardName) = false := by
  refine ⟨fun h => ?_, discover_of_not_isFile⟩
  cases hfile : fs.isFile (Path.join dir standardName) with
  | false => rfl
  | true =>
    have hstandard : discover fs language none dir =
        discover fs language (some (Path.join dir standardName)) dir := discover_of_isFile hfile
    rw [hstandard] at h
    cases (discover_of_asked.mp h).2

/-- A file that cannot be found is a fault when it is asked for. -/
theorem discover_asked_of_locate_error {e : OsError} (h : fs.locate path = .error e) :
    discover fs language (some path) dir =
      .error ⟨[(language, .configReadFailed path)], .system e⟩ := by
  unfold discover load
  dsimp only
  rw [FileSystem.read_of_locate_error h]
  rfl

/-- **The path that is told is that of the file which the configuration is in.** -/
theorem path_of_discover_iff (h : discover fs language asked dir = .ok (config, found)) :
    found = some path ↔ path = source asked dir ∧ Holds fs path config := by
  have hasked {p : String} (h : discover fs language (some p) dir = .ok (config, found)) :
      found = some path ↔ path = p ∧ Holds fs path config := by
    obtain ⟨hholds, rfl⟩ := discover_of_asked.mp h
    constructor
    · intro hsame
      cases hsame
      exact ⟨rfl, hholds⟩
    · rintro ⟨rfl, -⟩
      rfl
  cases asked with
  | some p => exact hasked h
  | none =>
    cases hfile : fs.isFile (Path.join dir standardName) with
    | true => exact hasked (discover_of_isFile hfile ▸ h)
    | false =>
      rw [discover_of_not_isFile hfile] at h
      cases h
      refine ⟨nofun, ?_⟩
      -- what cannot be read holds no configuration, the empty one included
      rintro ⟨rfl, text, hread, -⟩
      have htrue := FileSystem.isFile_of_read hread
      cases hfile.symm.trans htrue

/-- **A configuration has one source, and is passed over only beyond a limit.** One that is asked
    for depends on nothing but the text that is read at its path, and is a fault if there is no text
    or the text is no configuration. If none is asked for, nothing is read exactly if no file stands
    at the standard path, also behind links, or the system does not get there. Where a file stands
    and the system gets there, that path counts as asked for; where the system does not get there,
    asking for it is a fault, and not asking is none. The path that is told is that of the file which
    the configuration was read from, and none is told if there is none. -/
theorem discover_never_mixes (fs : FileSystem) (language : Language) (dir : String) :
    let standard := Path.join dir standardName
    (∀ path,
      (∀ fs' dir', fs.read path = fs'.read path →
        discover fs language (some path) dir = discover fs' language (some path) dir') ∧
      ((∃ fault, discover fs language (some path) dir = .error fault) ↔
        ¬ ∃ text config, fs.read path = .ok text ∧ Config.parse text = .ok config)) ∧
    (discover fs language none dir = .ok (Config.empty, none) ↔
      ¬ fs.HasFile standard ∨ fs.IsBeyondLimit standard) ∧
    (fs.HasFile standard → ¬ fs.IsBeyondLimit standard →
      ∀ dir', discover fs language none dir = discover fs language (some standard) dir') ∧
    (fs.IsBeyondLimit standard → ∀ dir', ∃ e, FileSystem.IsLimit e ∧
      discover fs language (some standard) dir' =
        .error ⟨[(language, .configReadFailed standard)], .system e⟩) ∧
    (∀ asked config found, discover fs language asked dir = .ok (config, found) →
      ∀ path, found = some path ↔ path = asked.getD standard ∧
        ∃ text, fs.read path = .ok text ∧ Config.parse text = .ok config) := by
  intro standard
  refine ⟨fun path => ⟨fun fs' dir' h => discover_asked_congr h, ?_⟩, ?_,
    fun hfile hwithin dir' =>
      discover_of_isFile (FileSystem.isFile_iff_hasFile.mpr ⟨hfile, hwithin⟩),
    fun ⟨e, hlimit, he⟩ dir' => ⟨e, hlimit, discover_asked_of_locate_error he⟩,
    fun asked config found h path => path_of_discover_iff h⟩
  · rw [discover_asked_refused_iff, exists_comm]
    rfl
  · rw [discover_eq_nothing_iff, ← Bool.not_eq_true, FileSystem.isFile_iff_hasFile, not_and_or,
      not_not]

/-- A standard file behind a link is read and its path is told; a link to nothing is no file, and an
    unknown key in the standard file is a fault. -/
theorem discover_never_mixes_through_link :
    let link : Location × Node := (["TestDriver.toml"], .link "real.toml")
    let files (text : String) : FileSystem := ⟨[link, (["real.toml"], .file text.toUTF8)], [], none⟩
    discover (files "language = \"en\"\n") .english none "/" =
      .ok (⟨some "en", .jar, none⟩, some "/TestDriver.toml") ∧
    discover ⟨[link], [], none⟩ .english none "/" = .ok (Config.empty, none) ∧
    ∃ fault, discover (files "lang = 1\n") .english none "/" = .error fault := by
  intro link files
  have hread (text : String) : (files text).read "/TestDriver.toml" = .ok text :=
    FileSystem.read_of_text rfl rfl
  have hlocate (text : String) : (files text).locate "/TestDriver.toml" = .ok ["real.toml"] := rfl
  have hfile (text : String) : (files text).HasFile "/TestDriver.toml" :=
    FileSystem.hasFile_of_locate (hlocate text) rfl
  have hwithin (text : String) : ¬ (files text).IsBeyondLimit "/TestDriver.toml" := by
    rintro ⟨e, -, he⟩
    cases (hlocate text).symm.trans he
  have hstandard (text : String) : discover (files text) .english none "/" =
      discover (files text) .english (some "/TestDriver.toml") "/" :=
    (discover_never_mixes (files text) .english "/").2.2.1 (hfile text) (hwithin text) "/"
  refine ⟨?_, ?_, ?_⟩
  · obtain ⟨a, b, hentries⟩ : ∃ a b, Toml.readEntries "language = \"en\"\n".toList =
        .ok [(⟨"language", a⟩, ⟨b, .text "en"⟩)] := ⟨_, _, rfl⟩
    rw [hstandard]
    exact discover_of_asked.mpr
      ⟨⟨_, hread _, Config.parse_of_sorted hentries (by simp) rfl⟩, rfl⟩
  · refine (discover_never_mixes ⟨[link], [], none⟩ .english "/").2.1.mpr (Or.inl fun hfile => ?_)
    rcases FileSystem.locate_of_hasFile hfile with ⟨loc, content, hloc, hnode⟩ | ⟨e, hlimit, he⟩
    · cases hloc
    · cases he
      rcases hlimit with h | h <;> cases h
  · obtain ⟨a, b, hentries⟩ : ∃ a b, Toml.readEntries "lang = 1\n".toList =
        .ok [(⟨"lang", a⟩, ⟨b, .integer (some 1)⟩)] := ⟨_, _, rfl⟩
    rw [hstandard]
    refine (((discover_never_mixes (files "lang = 1\n") .english "/").1 _).2).mpr ?_
    rintro ⟨text, config, htext, hparse⟩
    rw [hread] at htext
    cases htext
    have hdecode := (Config.parse_eq_ok_iff_decode hentries config).mp hparse
    have hkey := ((Config.exists_decode_iff (by simp [Toml.Entries.names])).mp
      ⟨config, hdecode⟩).keys "lang" _ rfl
    simp at hkey

/-- **A standard file is passed over.** The search is in the current directory, which is written
    with two thousand points and slashes in front. The file there would give another variant. With
    its name after it the path is too long: without a request that is no fault and nothing is read,
    and with a request for the same path it is one. -/
theorem discover_overlooks_file :
    let fs : FileSystem :=
      ⟨[(["TestDriver.toml"], .file "variant = \"sync\"\n".toUTF8)], [], none⟩
    let dir := Nat.repeat Path.dotted 2048 "."
    let standard := Path.join dir standardName
    fs.HasFile standard ∧
    discover fs .english none dir = .ok (Config.empty, none) ∧
    discover fs .english (some standard) dir =
      .error ⟨[(.english, .configReadFailed standard)], .system (.code Errno.nameTooLong)⟩ := by
  intro fs dir standard
  have hstandard : standard = Nat.repeat Path.dotted 2048 "./TestDriver.toml" :=
    Path.join_repeat_dotted 2048 (by decide) (by decide)
  have hshort : fs.locate "./TestDriver.toml" = .ok ["TestDriver.toml"] := rfl
  have hfile : fs.HasFile standard :=
    hstandard ▸ FileSystem.hasFile_repeat_dotted 2048 rfl (FileSystem.hasFile_of_locate hshort rfl)
  have hlong : FileSystem.longestPath < standard.utf8ByteSize := by
    rw [hstandard, Path.utf8ByteSize_repeat_dotted]
    decide
  have hlocate : fs.locate standard = .error (.code Errno.nameTooLong) :=
    FileSystem.locate_of_long hfile.1 hlong
  refine ⟨hfile, discover_of_not_isFile (Bool.eq_false_iff.mpr fun hseen => ?_),
    discover_asked_of_locate_error hlocate⟩
  exact (FileSystem.isFile_iff_hasFile.mp hseen).2 ⟨_, Or.inl rfl, hlocate⟩

end ConfigFile

end SuiteDriver

import SuiteDriver.Proofs.DirectoryPart
import SuiteDriver.Proofs.DryRun
import SuiteDriver.Proofs.FileContents
import SuiteDriver.Proofs.Schema

/-!
# The root of a run

A run has one root. It is found once, from the directory that the caller gave, else from the one
that the configuration names, else it is the current directory; everything that is launched is
launched there, the artifact is looked for there, and it is what the reader is told.

A configured directory is seen from the configuration's own directory, also if its text expands to
nothing: then it is that directory.

* `ProjectDir.Names`: what a written directory names, seen from a base;
* `Setup.RootBy`: the three ways to a root;
* `Event.KeepsTo`: the places in an event are in one root;
* `Program.performed_in_one_root`: so are those of every run;
* `Program.performed_in_config_directory`: an empty directory in a configuration names its own.
-/

namespace SuiteDriver

/-! ## 1. Three ways to a root -/

namespace ProjectDir

/-- **What a written directory names**: its text is expanded and seen from the base, and the path
    that results is resolved to that of a directory. -/
def Names (env : Environment) (fs : FileSystem) (base raw root : String) : Prop :=
  ∃ expanded, Expand.full env fs.accountHome raw = .ok expanded ∧
    fs.resolve (Path.join base expanded) = .ok root ∧ fs.isDirectory root = true

variable {env : Environment} {fs : FileSystem} {language : Language} {raw base root : String}

theorem resolve_eq_ok_iff :
    resolve env fs language raw base = .ok root ↔ Names env fs base raw root := by
  unfold resolve Names
  cases hfull : Expand.full env fs.accountHome raw with
  | error name => simp
  | ok expanded =>
    dsimp only
    cases hresolve : fs.resolve (Path.join base expanded) with
    | error e => simp [hresolve]
    | ok found =>
      dsimp only
      by_cases hdir : fs.isDirectory found = true
      · rw [if_pos hdir]
        constructor
        · intro h
          cases h
          exact ⟨expanded, rfl, hresolve, hdir⟩
        · rintro ⟨_, hsame, hroot, -⟩
          cases hsame
          rw [hresolve] at hroot
          cases hroot
          rfl
      · rw [if_neg hdir]
        constructor
        · intro h
          cases h
        · rintro ⟨_, hsame, hroot, hisDir⟩
          cases hsame
          rw [hresolve] at hroot
          cases hroot
          exact absurd hisDir hdir

/-- A text names one directory. -/
theorem Names.unique {root' : String} (h : Names env fs base raw root)
    (h' : Names env fs base raw root') : root = root' := by
  obtain ⟨expanded, hfull, hresolve, -⟩ := h
  obtain ⟨expanded', hfull', hresolve', -⟩ := h'
  rw [hfull] at hfull'
  cases hfull'
  rw [hresolve] at hresolve'
  cases hresolve'
  rfl

/-- Seen from the point, a text that stands for nothing names the current directory. -/
theorem names_void_iff {expanded : String}
    (hfull : Expand.full env fs.accountHome raw = .ok expanded) (hvoid : expanded = "" ∨ expanded = ".") :
    Names env fs "." raw root ↔
      root = FileSystem.pathOf fs.here ∧ fs.isDirectory root = true := by
  have hwalk : fs.walk .resolve FileSystem.mostLinks fs.here [".", expanded] =
      .ok (.found fs.here) := fs.walk_of_void _ _ _ (by simp [hvoid])
  have hspot : fs.spot .resolve (Path.join "." expanded) = .ok (.found fs.here) := by
    rcases hvoid with rfl | rfl
    · exact hwalk
    · exact hwalk
  have hresolve : fs.resolve (Path.join "." expanded) = .ok (FileSystem.pathOf fs.here) := by
    unfold FileSystem.resolve
    rw [hspot]
  constructor
  · rintro ⟨_, hsame, hroot, hdir⟩
    rw [hfull] at hsame
    cases hsame
    rw [hresolve] at hroot
    cases hroot
    exact ⟨rfl, hdir⟩
  · rintro ⟨rfl, hdir⟩
    exact ⟨expanded, hfull, hresolve, hdir⟩

/-- The point names the current directory. -/
theorem names_point_iff_here :
    Names env fs "." "." root ↔
      root = FileSystem.pathOf fs.here ∧ fs.isDirectory root = true :=
  names_void_iff (Expand.full_of_plain env _ (by simp) (by simp)) (Or.inr rfl)

end ProjectDir

/-- Locations are absolute as paths. -/
theorem FileSystem.isAbsolute_pathOf (loc : Location) : Path.isAbsolute (pathOf loc) = true := by
  cases loc with
  | nil => rfl
  | cons name loc => simp [pathOf, Path.isAbsolute, String.join_cons]

namespace ConfigFile

/-- **A configuration at a path**: it is read there and understood. -/
def Holds (fs : FileSystem) (path : String) (config : Config) : Prop :=
  ∃ text, fs.read path = .ok text ∧ Config.parse text = .ok config

/-- **How a run comes by its configuration**: it is read, where it was asked for or where the
    standard one stands, or it is the one that says nothing. -/
inductive Found (fs : FileSystem) (asked : Option String) (dir : String) :
    Config → Option String → Prop
  | read {path text : String} {config : Config} (hread : fs.read path = .ok text)
      (hpath : asked = some path ∨ asked = none ∧ path = Path.join dir standardName) :
      Found fs asked dir config (some path)
  | none (hasked : asked = none) : Found fs asked dir Config.empty none

variable {fs : FileSystem} {language : Language} {config : Config}

theorem load_eq_ok_iff (language : Language) {path : String} :
    load fs language path = .ok config ↔ Holds fs path config := by
  unfold load Holds
  cases fs.read path with
  | error e => exact ⟨nofun, nofun⟩
  | ok text =>
    dsimp only
    cases hparse : Config.parse text with
    | error e => simp [hparse]
    | ok c => simp [hparse]

theorem discover_of_asked {path dir : String} {configPath : Option String} :
    discover fs language (some path) dir = .ok (config, configPath) ↔
      Holds fs path config ∧ configPath = some path := by
  unfold discover
  rw [← load_eq_ok_iff language]
  dsimp only
  cases load fs language path with
  | error e => exact ⟨nofun, nofun⟩
  | ok c => simp [Except.map, eq_comm]

/-- The configuration that names the empty text. -/
theorem holds_of_void_directory {path : String} {loc : Location} (hloc : fs.locate path = .ok loc)
    (hfile : fs.lookup loc = some (.file "project_dir = \"\"\n".toUTF8)) :
    Holds fs path ⟨none, .jar, some ""⟩ := by
  obtain ⟨a, b, hentries⟩ : ∃ a b, Toml.readEntries "project_dir = \"\"\n".toList =
      .ok [(⟨"project_dir", a⟩, ⟨b, .text (String.ofList [])⟩)] := ⟨_, _, rfl⟩
  exact ⟨_, FileSystem.read_of_text hloc hfile, Config.parse_of_sorted hentries (by simp) rfl⟩

theorem found_of_discover {asked : Option String} {dir : String} {configPath : Option String}
    (h : discover fs language asked dir = .ok (config, configPath)) :
    Found fs asked dir config configPath := by
  unfold discover at h
  cases asked with
  | some path =>
    cases hload : load fs language path with
    | error e => simp [hload, Except.map] at h
    | ok c =>
      simp only [hload, Except.map] at h
      cases h
      obtain ⟨text, hread, -⟩ := (load_eq_ok_iff language).mp hload
      exact .read hread (Or.inl rfl)
  | none =>
    dsimp only at h
    split at h
    · cases hload : load fs language (Path.join dir standardName) with
      | error e => simp [hload, Except.map] at h
      | ok c =>
        simp only [hload, Except.map] at h
        cases h
        obtain ⟨text, hread, -⟩ := (load_eq_ok_iff language).mp hload
        exact .read hread (Or.inr ⟨rfl, rfl⟩)
    · cases h
      exact .none rfl

end ConfigFile

namespace Setup

open ProjectDir (Names)

variable {s : Surroundings} {language : Language} {options : RunOptions}

/-- **The root, once the configuration is read**: the directory that was searched, unless the caller
    gives none and the configuration names one, which is seen from a base. -/
inductive RootFrom (s : Surroundings) (given : Option String) (config : Config)
    (base dir : String) : String → Prop
  | searched (h : given.isSome ∨ config.projectDir = none) : RootFrom s given config base dir dir
  | configured {raw root : String} (hnot : given = none) (hraw : config.projectDir = some raw)
      (hroot : Names s.env s.files base raw root) : RootFrom s given config base dir root

/-- What is chosen for the root. -/
theorem chooseRoot_eq_ok_iff {config : Config} {configPath : Option String}
    {dir root : String} :
    chooseRoot s language options config configPath dir = .ok root ↔
      RootFrom s options.projectDir config (configBase configPath dir) dir root := by
  constructor
  · intro h
    unfold chooseRoot at h
    split at h
    · next raw hnot hraw => exact .configured hnot hraw (ProjectDir.resolve_eq_ok_iff.mp h)
    · next hwins =>
      cases h
      refine .searched ?_
      cases hgiven : options.projectDir with
      | some raw => exact Or.inl rfl
      | none => exact Or.inr (Option.eq_none_iff_forall_ne_some.mpr fun raw => hwins raw hgiven)
  · intro h
    unfold chooseRoot
    cases h with
    | configured hnot hraw hroot =>
      rw [hnot, hraw]
      exact ProjectDir.resolve_eq_ok_iff.mpr hroot
    | searched h =>
      split
      · next raw hnot hraw =>
        rw [hnot, hraw] at h
        rcases h with h | h <;> cases h
      · rfl

/-- **The three ways to the root of a run.** -/
inductive RootBy (s : Surroundings) (options : RunOptions) (config : Config)
    (configPath : Option String) : String → Prop
  | given {raw root : String} (hgiven : options.projectDir = some raw)
      (hroot : Names s.env s.files "." raw root) :
      RootBy s options config configPath root
  /-- The configured directory, seen from that of the configuration. If the configuration was not
  asked for but found, it is seen from the directory that was searched, the current one. -/
  | configured {raw root path base : String} (hnot : options.projectDir = none)
      (hraw : config.projectDir = some raw) (hpath : configPath = some path)
      (hbase : Path.parent? path = some base) (hroot : Names s.env s.files base raw root)
      (hfound : options.config = none →
        path = Path.join (FileSystem.pathOf s.files.here) ConfigFile.standardName ∧
        Names s.env s.files (FileSystem.pathOf s.files.here) raw root) :
      RootBy s options config configPath root
  | current (hnot : options.projectDir = none) (hraw : config.projectDir = none)
      (hdir : s.files.isDirectory (FileSystem.pathOf s.files.here) = true) :
      RootBy s options config configPath (FileSystem.pathOf s.files.here)

theorem RootBy.isDirectory {config : Config} {configPath : Option String} {root : String}
    (h : RootBy s options config configPath root) : s.files.isDirectory root = true := by
  cases h with
  | given _ hroot =>
    obtain ⟨_, _, _, hdir⟩ := hroot
    exact hdir
  | configured _ _ _ _ hroot _ =>
    obtain ⟨_, _, _, hdir⟩ := hroot
    exact hdir
  | current _ _ hdir => exact hdir

/-- **Every root is found in one of the three ways.** -/
theorem Stages.rootBy {dir : String} {config : Config} {configPath : Option String} {root : String}
    (h : Stages s language options dir config configPath root) :
    RootBy s options config configPath root := by
  have hsearch := ProjectDir.resolve_eq_ok_iff.mp h.search
  cases chooseRoot_eq_ok_iff.mp (chooseRoot_of_rootedAt h.root) with
  | searched hwins =>
    cases hgiven : options.projectDir with
    | some raw =>
      rw [hgiven] at hsearch
      exact .given hgiven hsearch
    | none =>
      rw [hgiven] at hsearch hwins
      obtain ⟨rfl, hdir⟩ := ProjectDir.names_point_iff_here.mp hsearch
      exact .current hgiven (hwins.resolve_left Bool.false_ne_true) hdir
  | @configured raw _ hnot hraw hroot =>
    rw [hnot] at hsearch
    obtain ⟨rfl, -⟩ := ProjectDir.names_point_iff_here.mp hsearch
    cases ConfigFile.found_of_discover h.discover with
    | none hasked => cases hraw
    | @read path text _ hread hpath =>
      obtain ⟨base, hbase⟩ := FileSystem.exists_parent?_of_read hread
      simp only [configBase, Option.bind_some, hbase, Option.getD_some] at hroot
      refine .configured hnot hraw rfl hbase hroot fun hasked => ?_
      rcases hpath with hpath | ⟨-, rfl⟩
      · rw [hasked] at hpath
        cases hpath
      · obtain ⟨expanded, hfull, hresolve, hisDir⟩ := hroot
        have hsame := s.files.resolve_join_parent? (FileSystem.isAbsolute_pathOf s.files.here)
          rfl (by decide) hbase expanded
        exact ⟨rfl, expanded, hfull, hsame ▸ hresolve, hisDir⟩

/-- So is the root of every setup that succeeds, with the configuration that it came by. -/
theorem rootBy_of_prepare {chosen : Language} {setup : Setup}
    (h : prepare s language options = (chosen, .ok setup)) :
    ∃ searched config, Names s.env s.files "." (options.projectDir.getD ".") searched ∧
      ConfigFile.discover s.files language options.config searched =
        .ok (config, setup.configPath) ∧
      RootBy s options config setup.configPath setup.root := by
  obtain ⟨dir, config, configPath, root, hstages, hfound⟩ := finds_iff.mpr ⟨chosen, h⟩
  have hpath : configPath = setup.configPath := by rw [hfound]
  have hroot : root = setup.root := by rw [hfound]
  subst hpath hroot
  exact ⟨dir, config, ProjectDir.resolve_eq_ok_iff.mp hstages.search, hstages.discover,
    hstages.rootBy⟩

end Setup

/-! ## 2. The places in events -/

/-- **An event that keeps to a root**: what it launches is launched there, what it looks for is the
    artifact there, and no other root is told. -/
def Event.KeepsTo (root : String) (variant : Variant) : Event → Prop
  | .launched l => l.directory = root
  | .tested path _ => path = Path.join root variant.classpath
  | .said (.projectRoot path) => path = root
  | _ => True

/-- Where events keep to a root, all that they launch is launched there. -/
theorem Event.directory_of_mem_launchesOf {root : String} {variant : Variant} {events : List Event}
    (h : ∀ e ∈ events, e.KeepsTo root variant) : ∀ l ∈ launchesOf events, l.directory = root := by
  intro l hl
  obtain ⟨e, he, hlaunch⟩ := List.mem_filterMap.mp hl
  have hkeep := h e he
  cases e with
  | launched l' =>
    cases hlaunch
    exact hkeep
  | said _ | logged _ | answered _ _ | tested _ _ => cases hlaunch

namespace Run

variable (variant : Variant) (mode : LaunchMode) (dir : String) (launcher : Launcher)

theorem keepsTo_startEvents {l : Launch} (h : l.directory = dir) :
    ∀ e ∈ startEvents l, e.KeepsTo dir variant := by
  simp [startEvents, Event.KeepsTo, h]

theorem keepsTo_artifactEvents (files : FileSystem) (s : Step) :
    ∀ e ∈ artifactEvents variant dir files s, e.KeepsTo dir variant := by
  cases hk : s.kind with
  | suite name => simp [artifactEvents_of_suite variant dir files hk]
  | build =>
    cases hp : files.hasEntry (Path.join dir variant.classpath) with
    | false => simp [artifactEvents_of_missing hk hp, Event.KeepsTo]
    | true => simp [artifactEvents_of_present hk hp, Event.KeepsTo]

/-- **Steps that are launched from a directory keep to it**, to the end of the run. -/
theorem keepsTo_steps (p : Progress) (ss : List Step) :
    ∀ e ∈ (steps variant mode dir launcher p ss).events, e.KeepsTo dir variant := by
  induction ss generalizing p with
  | nil => nofun
  | cons s ss ih =>
    have hstart := keepsTo_startEvents variant dir (l := s.launch mode dir) rfl
    cases h : (launcher p.launches p.files (s.launch mode dir)).status with
    | error e =>
      rw [steps_cons_of_error variant mode dir launcher h]
      refine List.forall_mem_append.mpr ⟨hstart, ?_⟩
      simp [Event.KeepsTo]
    | ok code =>
      rw [steps_cons_of_ok variant mode dir launcher rfl h]
      refine List.forall_mem_append.mpr ⟨hstart, List.forall_mem_cons.mpr ⟨trivial, ?_⟩⟩
      refine List.forall_mem_append.mpr ⟨List.forall_mem_append.mpr ⟨?_, ?_⟩, ih _⟩
      · simp [eventsOfEnd, Event.KeepsTo]
      · exact keepsTo_artifactEvents variant dir _ s

end Run

namespace RunCommand

theorem keepsTo_setupEvents (setup : Setup) (variant : Variant) :
    ∀ e ∈ setupEvents setup, e.KeepsTo setup.root variant := by
  simp [setupEvents, Console.setupLines, Event.KeepsTo]

theorem keepsTo_planLines (plan : Plan) (root : String) (variant : Variant) :
    ∀ e ∈ (Console.planLines plan).map Event.said, e.KeepsTo root variant := by
  have hplanned (n : Nat) (ss : List Step) :
      ∀ l ∈ Console.plannedLines n ss, (Event.said l).KeepsTo root variant := by
    induction ss generalizing n with
    | nil => nofun
    | cons s ss ih => exact List.forall_mem_cons.mpr ⟨trivial, ih _⟩
  rw [Console.planLines, List.forall_mem_map]
  exact List.forall_mem_cons.mpr ⟨trivial, hplanned 1 _⟩

/-- **All that follows a setup keeps to its root.** -/
theorem keepsTo_carryOut (s : Surroundings) (launcher : Launcher) (language : Language)
    (dryRun : Bool) (setup : Setup) :
    ∀ e ∈ (carryOut s launcher language dryRun setup).events,
      e.KeepsTo setup.root setup.plan.variant := by
  have hsetup := keepsTo_setupEvents setup setup.plan.variant
  have hrun := Run.keepsTo_steps setup.plan.variant setup.plan.mode setup.root launcher
    ⟨[], Report.empty, s.files⟩ setup.plan.steps
  unfold carryOut
  split
  · exact List.forall_mem_append.mpr ⟨hsetup, keepsTo_planLines setup.plan _ _⟩
  · dsimp only
    split
    · exact List.forall_mem_append.mpr ⟨hsetup, hrun⟩
    · refine List.forall_mem_append.mpr ⟨List.forall_mem_append.mpr ⟨hsetup, hrun⟩, ?_⟩
      simp [Event.KeepsTo]

end RunCommand

/-! ## 3. One root -/

namespace Program

open CommandLine
open ProjectDir (Names)

/-- **One root in a run.** Whatever the environment, the files and the options are: if the setup
    succeeds, its root is a directory that is found in one of the three ways, all processes are
    launched there, the artifact is looked for there and nowhere else, and it is the one root that
    the reader is told, first of all. -/
theorem performed_in_one_root (h : Host) (first language chosen : Language) (verbose : Bool)
    (options : RunOptions) (setup : Setup)
    (hsetup : Setup.prepare h.surroundings language options = (chosen, .ok setup)) :
    let x := performed h first verbose runStatus
      (RunCommand.execute h.surroundings h.launcher language options)
    (∃ searched config, Names h.env h.files "." (options.projectDir.getD ".") searched ∧
      ConfigFile.discover h.files language options.config searched =
        .ok (config, setup.configPath) ∧
      Setup.RootBy h.surroundings options config setup.configPath setup.root) ∧
    h.files.isDirectory setup.root = true ∧
    (∀ l ∈ x.launches, l.directory = setup.root) ∧
    (∀ path present, .tested path present ∈ x.events →
      path = Path.join setup.root setup.plan.variant.classpath) ∧
    (∀ path, .said (.projectRoot path) ∈ x.events ↔ path = setup.root) ∧
    ∃ rest, x.stdout =
      (Console.Line.projectRoot setup.root).render x.language x.colours ++ rest := by
  intro x
  obtain ⟨searched, config, hsearched, hdiscover, hroot⟩ := Setup.rootBy_of_prepare hsetup
  have hexecute : RunCommand.execute h.surroundings h.launcher language options =
      RunCommand.carryOut h.surroundings h.launcher chosen options.dryRun setup := by
    unfold RunCommand.execute
    rw [hsetup]
  have hevents : x.events = .logged (Log.languageChosen first.tag) ::
      (RunCommand.carryOut h.surroundings h.launcher chosen options.dryRun setup).events :=
    congrArg (_ :: Performance.events ·) hexecute
  -- every event keeps to the root, and one of the first tells it
  have hkeep : ∀ e ∈ x.events, e.KeepsTo setup.root setup.plan.variant := by
    rw [hevents]
    exact List.forall_mem_cons.mpr ⟨trivial, RunCommand.keepsTo_carryOut _ _ _ _ _⟩
  obtain ⟨after, hafter⟩ :=
    carryOut_events h.surroundings h.launcher chosen options.dryRun setup
  have htold : .said (.projectRoot setup.root) ∈ x.events := by
    rw [hevents, hafter]
    simp [RunCommand.setupEvents, Console.setupLines]
  have hstdout : x.stdout = Console.renderAll x.language x.colours setup.lines ++
      outputOf x.language x.colours after :=
    stdout_performed h first verbose
      (p := RunCommand.execute h.surroundings h.launcher language options) (hexecute ▸ hafter)
  refine ⟨⟨searched, config, hsearched, hdiscover, hroot⟩, hroot.isDirectory,
    Event.directory_of_mem_launchesOf hkeep, fun path present he => hkeep _ he,
    fun path => ⟨fun he => hkeep _ he, fun hpath => hpath ▸ htold⟩, ?_⟩
  rw [hstdout, Setup.lines, Console.setupLines, Console.renderAll, List.map_cons, String.join_cons]
  exact ⟨_, String.append_assoc ..⟩

/-- A configuration elsewhere names a directory. That is seen from the configuration's own, all five
    processes are launched there, and the artifact is looked for there. -/
theorem performed_in_one_root_of_configured :
    let text := "project_dir = \"app\"\n"
    let files : FileSystem := ⟨[(["cfg"], .directory), (["cfg", "app"], .directory),
      (["cfg", "c.toml"], .file text.toUTF8)], [], none⟩
    let host : Host := ⟨[], files, Rehearsal.Script.launcher []⟩
    let options : RunOptions := ⟨some "cfg/c.toml", none, none, false, false⟩
    let x := performed host .english false runStatus
      (RunCommand.execute host.surroundings host.launcher .english options)
    run host ["-c", "cfg/c.toml"] = x ∧
    Setup.RootBy host.surroundings options ⟨none, .jar, some "app"⟩ (some "cfg/c.toml") "/cfg/app" ∧
    x.launches.length = 5 ∧ (∀ l ∈ x.launches, l.directory = "/cfg/app") ∧
    (∀ path present, .tested path present ∈ x.events → path = "/cfg/app/sst.jar") ∧
    (∀ path, .said (.projectRoot path) ∈ x.events ↔ path = "/cfg/app") ∧
    ∃ rest, x.stdout =
      (Console.Line.projectRoot "/cfg/app").render x.language x.colours ++ rest := by
  intro text files host options x
  obtain ⟨a, b, hentries⟩ : ∃ a b, Toml.readEntries "project_dir = \"app\"\n".toList =
      .ok [(⟨"project_dir", a⟩, ⟨b, .text "app"⟩)] := ⟨_, _, rfl⟩
  have hholds : ConfigFile.Holds files "cfg/c.toml" ⟨none, .jar, some "app"⟩ :=
    ⟨text, FileSystem.read_of_text rfl rfl, Config.parse_of_sorted hentries (by simp) rfl⟩
  have hdiscover (dir : String) : ConfigFile.discover files .english options.config dir =
      .ok (⟨none, .jar, some "app"⟩, some "cfg/c.toml") :=
    ConfigFile.discover_of_asked.mpr ⟨hholds, rfl⟩
  have hroot : ProjectDir.resolve [] files .english "app" "cfg" = .ok "/cfg/app" :=
    ProjectDir.resolve_eq_ok_iff.mpr
      ⟨"app", Expand.full_of_plain [] none (by simp) (by simp), rfl, rfl⟩
  have hstages : Setup.Stages host.surroundings .english options "/" ⟨none, .jar, some "app"⟩
      (some "cfg/c.toml") "/cfg/app" :=
    ⟨ProjectDir.resolve_point .., hdiscover _, hroot ▸ .configured "app" rfl rfl⟩
  have hprepare : Setup.prepare host.surroundings .english options =
      (.english, .ok ⟨"/cfg/app", some "cfg/c.toml", Variant.plan .jar⟩) :=
    Setup.prepare_of_stages hstages
  obtain ⟨⟨searched, config, -, hfound, hby⟩, -, hlaunches, htested, htold, hstdout⟩ :=
    performed_in_one_root host .english .english .english false options _ hprepare
  cases (hdiscover searched).symm.trans hfound
  refine ⟨rfl, hby, ?_, hlaunches, htested, htold, hstdout⟩
  have hexecute : RunCommand.execute host.surroundings host.launcher .english options =
      RunCommand.carryOut host.surroundings host.launcher .english false
        ⟨"/cfg/app", some "cfg/c.toml", Variant.plan .jar⟩ := by
    unfold RunCommand.execute
    rw [hprepare]
  show (launchesOf (_ :: (RunCommand.execute ..).events)).length = 5
  rw [hexecute]
  rfl

/-- **An empty directory in a configuration names the configuration's own**, not the current one. -/
theorem performed_in_config_directory :
    let text := "project_dir = \"\"\n"
    let files : FileSystem :=
      ⟨[(["cfg"], .directory), (["cfg", "c.toml"], .file text.toUTF8)], [], none⟩
    let options : RunOptions := ⟨some "cfg/c.toml", none, none, true, false⟩
    let config : Config := ⟨none, .jar, some ""⟩
    parse ["--dry-run", "-c", "cfg/c.toml"] =
      .ok ⟨none, false, none, some "cfg/c.toml", none, true, none⟩ ∧
    ConfigFile.discover files .english options.config "/" = .ok (config, some "cfg/c.toml") ∧
    Expand.full [] none "" = .ok "" ∧ FileSystem.pathOf files.here = "/" ∧
    Setup.prepare ⟨[], files⟩ .english options =
      (.english, .ok ⟨"/cfg", some "cfg/c.toml", Variant.plan .jar⟩) := by
  intro text files options config
  have hdiscover : ConfigFile.discover files .english options.config "/" =
      .ok (config, some "cfg/c.toml") :=
    ConfigFile.discover_of_asked.mpr ⟨ConfigFile.holds_of_void_directory rfl rfl, rfl⟩
  have hfull : Expand.full [] none "" = .ok "" := Expand.full_of_plain [] none (by simp) (by simp)
  have hroot : ProjectDir.resolve [] files .english "" "cfg" = .ok "/cfg" :=
    ProjectDir.resolve_eq_ok_iff.mpr ⟨"", hfull, rfl, rfl⟩
  refine ⟨rfl, hdiscover, hfull, rfl, ?_⟩
  have hstages : Setup.Stages ⟨[], files⟩ .english options "/" config (some "cfg/c.toml") "/cfg" :=
    ⟨ProjectDir.resolve_point .., hdiscover, hroot ▸ .configured "" rfl rfl⟩
  exact Setup.prepare_of_stages hstages

end Program

end SuiteDriver

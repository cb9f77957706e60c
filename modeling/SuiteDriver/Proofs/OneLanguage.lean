import SuiteDriver.Proofs.DryRun
import SuiteDriver.Proofs.FileContents
import SuiteDriver.Proofs.LanguageTables
import SuiteDriver.Proofs.Schema

/-!
# One language for each run

The language is chosen before anything is read, and once more when a configuration is there that
names one. Everything that a run says after that is in the second language, and what goes wrong
before is told in the first; an explicit request makes the two the same.

* `Language.tag_ofLocale`: the language of a locale is the one that the locale resolves to;
* `Fault.IsIn`: a fault that is told in one language;
* `RunCommand.isIn_of_loads`: what goes wrong once the configuration is there;
* `Program.Speaks`: a run whose lines and whose last words are those of one locale's table of texts;
* `Program.run_speaks_one_language`: the locale of everything that the default command says.
-/

namespace SuiteDriver

/-! ## 1. The language of a locale -/

theorem Locale.resolve_mem_tags (locale : String) :
    Locale.resolve locale Language.tags ∈ Language.tags := by
  unfold Locale.resolve
  split
  · next h => exact h
  · split
    · next h => exact h
    · decide

/-- Every language is found by its own tag. -/
theorem Language.ofTag?_of_mem {tag : String} (h : tag ∈ Language.tags) :
    ∃ l, Language.ofTag? tag = some l ∧ l.tag = tag := by
  obtain ⟨l, -, rfl⟩ := List.mem_map.mp h
  exact ⟨l, by cases l <;> rfl, rfl⟩

/-- **The language of a locale is the one that the locale resolves to.** -/
theorem Language.tag_ofLocale (locale : String) :
    (Language.ofLocale locale).tag = Locale.resolve locale Language.tags := by
  obtain ⟨l, hl, htag⟩ := Language.ofTag?_of_mem (Locale.resolve_mem_tags locale)
  unfold Language.ofLocale
  rw [hl, Option.getD_some, htag]

/-! ## 2. Faults that are told in one language -/

/-- **A fault is told in one language**: each of its contexts is, and where a context names a step,
    the step's label is too. -/
structure Fault.IsIn (e : Fault) (language : Language) : Prop where
  spoken : ∀ c ∈ e.contexts, c.1 = language
  labels : ∀ c ∈ e.contexts, ∀ label command, c.2 = .launchFailed label command →
    ∃ f : LaunchFault, e.cause = .launch f ∧ label = f.kind.label language

/-- Such a fault is told in the words of the language's table. -/
theorem Fault.IsIn.told {language : Language} {e : Fault} {texts : Message → String}
    (h : e.IsIn language) (hwritten : language.WrittenIn texts) :
    e.complaint = e.complaintIn texts ∧ e.LabelsIn texts := by
  refine ⟨Fault.complaint_eq_complaintIn hwritten h.spoken, fun c hc label command hlabel => ?_⟩
  obtain ⟨f, hcause, rfl⟩ := h.labels c hc label command hlabel
  exact ⟨f, hcause, StepKind.label_eq_textIn hwritten f.kind⟩

/-- A fault with one context that names no step. -/
theorem Fault.isIn_of_context {language : Language} {m : Message} {cause : Cause}
    (hm : ∀ label command, m ≠ .launchFailed label command) :
    Fault.IsIn ⟨[(language, m)], cause⟩ language where
  spoken c hc := by rw [List.mem_singleton.mp hc]
  labels c hc label command hlabel := by
    rw [List.mem_singleton.mp hc] at hlabel
    exact absurd hlabel (hm label command)

variable {language : Language} {e : Fault}

theorem ProjectDir.isIn_of_error {env : Environment} {fs : FileSystem} {raw base : String}
    (h : ProjectDir.resolve env fs language raw base = .error e) : e.IsIn language := by
  unfold ProjectDir.resolve at h
  split at h
  · cases h
    exact Fault.isIn_of_context nofun
  · dsimp only at h
    split at h
    · cases h
      exact Fault.isIn_of_context nofun
    · split at h
      · cases h
      · cases h
        exact Fault.isIn_of_context nofun

theorem ConfigFile.isIn_of_load_error {fs : FileSystem} {path : String}
    (h : ConfigFile.load fs language path = .error e) : e.IsIn language := by
  unfold ConfigFile.load at h
  split at h
  · cases h
    exact Fault.isIn_of_context nofun
  · split at h
    · cases h
      exact Fault.isIn_of_context nofun
    · cases h

theorem ConfigFile.isIn_of_discover_error {fs : FileSystem} {asked : Option String} {dir : String}
    (h : ConfigFile.discover fs language asked dir = .error e) : e.IsIn language := by
  have hload {path : String} (hpath : (ConfigFile.load fs language path).map
      (fun c => (c, some path)) = .error e) : e.IsIn language := by
    cases hl : ConfigFile.load fs language path with
    | ok c =>
      rw [hl] at hpath
      cases hpath
    | error e' =>
      rw [hl] at hpath
      cases hpath
      exact ConfigFile.isIn_of_load_error hl
  unfold ConfigFile.discover at h
  split at h
  · exact hload h
  · dsimp only at h
    split at h
    · exact hload h
    · cases h

/-- The label in the fault of a launch is in the language of the fault. -/
theorem RunCommand.isIn_launchFault (language : Language) (f : LaunchFault) :
    (launchFault language f).IsIn language where
  spoken c hc := by rw [List.mem_singleton.mp hc]
  labels c hc label command hlabel := by
    rw [List.mem_singleton.mp hc] at hlabel
    cases hlabel
    exact ⟨f, rfl, rfl⟩

/-! ## 3. Before and after the configuration is there -/

namespace Setup

variable {s : Surroundings} {options : RunOptions} {config : Config} {path : Option String}

/-- The configuration of a run is found. -/
def Loads (s : Surroundings) (language : Language) (options : RunOptions) (config : Config)
    (path : Option String) : Prop :=
  ∃ dir, ProjectDir.resolve s.env s.files language (options.projectDir.getD ".") "." = .ok dir ∧
    ConfigFile.discover s.files language options.config dir = .ok (config, path)

/-- A run gives up before its configuration is there: the directory is not resolved, or the
    configuration is not loaded. -/
def GivesUpEarly (s : Surroundings) (language : Language) (options : RunOptions) (e : Fault) :
    Prop :=
  ProjectDir.resolve s.env s.files language (options.projectDir.getD ".") "." = .error e ∨
    ∃ dir, ProjectDir.resolve s.env s.files language (options.projectDir.getD ".") "." = .ok dir ∧
      ConfigFile.discover s.files language options.config dir = .error e

theorem loads_or_gives_up (s : Surroundings) (language : Language) (options : RunOptions) :
    (∃ config path, Loads s language options config path) ∨
      ∃ e, GivesUpEarly s language options e := by
  cases hsearch : ProjectDir.resolve s.env s.files language (options.projectDir.getD ".") "." with
  | error e => exact Or.inr ⟨e, Or.inl hsearch⟩
  | ok dir =>
    cases hdiscover : ConfigFile.discover s.files language options.config dir with
    | error e => exact Or.inr ⟨e, Or.inr ⟨dir, hsearch, hdiscover⟩⟩
    | ok found => exact Or.inl ⟨found.1, found.2, dir, hsearch, hdiscover⟩

theorem GivesUpEarly.isIn (h : GivesUpEarly s language options e) : e.IsIn language := by
  rcases h with hsearch | ⟨dir, -, hdiscover⟩
  · exact ProjectDir.isIn_of_error hsearch
  · exact ConfigFile.isIn_of_discover_error hdiscover

theorem GivesUpEarly.prepare (h : GivesUpEarly s language options e) :
    Setup.prepare s language options = (language, .error e) := by
  unfold Setup.prepare
  rcases h with hsearch | ⟨dir, hsearch, hdiscover⟩
  · rw [hsearch]
  · simp only [hsearch, hdiscover]

/-- What the root of a project is chosen from fails in the language of that moment. -/
theorem isIn_of_chooseRoot_error {searched : String}
    (h : chooseRoot s language options config path searched = .error e) : e.IsIn language := by
  unfold chooseRoot at h
  split at h
  · exact ProjectDir.isIn_of_error h
  · cases h

/-- Once the configuration is there, all goes on in the language that it leads to. -/
theorem Loads.prepare (h : Loads s language options config path) :
    ∃ found : Except Fault Setup,
      Setup.prepare s language options = (configLanguage s language options config, found) ∧
        ∀ e, found = .error e → e.IsIn (configLanguage s language options config) := by
  obtain ⟨dir, hsearch, hdiscover⟩ := h
  unfold Setup.prepare
  simp only [hsearch, hdiscover]
  cases hroot : chooseRoot s (configLanguage s language options config) options config path dir with
  | error e =>
    refine ⟨_, rfl, fun e' he => ?_⟩
    cases he
    exact isIn_of_chooseRoot_error hroot
  | ok root => exact ⟨_, rfl, fun _ => nofun⟩

end Setup

namespace RunCommand

variable {s : Surroundings} {options : RunOptions} {config : Config} {path : Option String}

theorem isIn_of_carryOut {launcher : Launcher} {dryRun : Bool} {setup : Setup}
    (h : (carryOut s launcher language dryRun setup).result = .error e) : e.IsIn language := by
  unfold carryOut at h
  cases dryRun with
  | true => cases h
  | false =>
    simp only [Bool.false_eq_true, ↓reduceIte] at h
    cases hrun : (Run.ofPlan setup.plan setup.root launcher s.files).result with
    | ok report =>
      rw [hrun] at h
      cases h
    | error f =>
      rw [hrun] at h
      cases h
      exact isIn_launchFault language f

/-- **Once the configuration is there**, all that is said and all that goes wrong is told in the
    language that the configuration leads to. -/
theorem isIn_of_loads (h : Setup.Loads s language options config path) (launcher : Launcher) :
    let p := execute s launcher language options
    p.language = Setup.configLanguage s language options config ∧
      ∀ e, p.result = .error e → e.IsIn (Setup.configLanguage s language options config) := by
  obtain ⟨found, hprepare, hfound⟩ := h.prepare
  unfold execute
  rw [hprepare]
  cases found with
  | error e =>
    refine ⟨rfl, fun e' he => ?_⟩
    cases he
    exact hfound e rfl
  | ok setup => exact ⟨language_carryOut .., fun e he => isIn_of_carryOut he⟩

/-- **Before it is there**, what goes wrong is told in the language of the start. -/
theorem execute_of_givesUpEarly (h : Setup.GivesUpEarly s language options e)
    (launcher : Launcher) :
    execute s launcher language options = Performance.refused language s.files e := by
  unfold execute
  rw [h.prepare]

end RunCommand

/-! ## 4. The language of a command line -/

namespace Program

open CommandLine

/-- The locale that a run is asked for: the one given, else the configured one, else the system's,
    else English. -/
def askedLocale (env : Environment) (a : Args) (configured : Option String) : String :=
  ((a.language.or configured).or (Locale.system? env)).getD "en"

theorem choose_eq_ofLocale (env : Environment) (a : Args) :
    Language.choose env a.language = Language.ofLocale (askedLocale env a none) := by
  unfold Language.choose askedLocale
  rw [Option.or_none]

/-- A configured language counts where none is given. -/
theorem configLanguage_eq_ofLocale (s : Surroundings) (a : Args) (config : Config) :
    Setup.configLanguage s (Language.choose s.env a.language) (runOptions a) config =
      Language.ofLocale (askedLocale s.env a config.language) := by
  unfold Setup.configLanguage Language.choose askedLocale runOptions
  cases hasked : a.language with
  | some l =>
    cases config.language <;> rfl
  | none =>
    cases config.language <;> rfl

theorem askedLocale_of_given {a : Args} {given : String} (h : a.language = some given)
    (env : Environment) (configured : Option String) : askedLocale env a configured = given := by
  unfold askedLocale
  rw [h]
  rfl

/-- **A run speaks the language of a locale**: the locale has a table of texts, and all lines on the
    standard output are in its words, the labels of steps and the names of modes in them included.
    If the run ends with a fault, what the program was about to do is too. -/
structure Speaks (tag : String) {α : Type} (x : Exit) (result : Except Fault α) : Prop where
  chosen : x.language.tag = tag
  words : ∃ texts, Message.tables.lookup tag = some texts ∧
    x.stdout = String.join (x.events.map (Event.shownIn texts x.colours)) ∧
    ∀ e, result = .error e → x.complaint = e.complaintIn texts ∧ e.LabelsIn texts

/-- How the default command ends on a host. -/
def resultOn (h : Host) (a : Args) : Except Fault (Option Report) :=
  (RunCommand.execute h.surroundings h.launcher (Language.choose h.env a.language)
    (runOptions a)).result

variable {h : Host} {words : List String} {a : Args}

theorem resultOn_of_refused {e : Fault}
    (he : Setup.Refused h.surroundings (Language.choose h.env a.language) (runOptions a) e) :
    resultOn h a = .error e := by
  obtain ⟨chosen, hexecute⟩ := execute_of_refused he h.launcher
  exact congrArg Performance.result hexecute

/-- A run whose faults are of its language speaks that language. -/
theorem speaks_of_isIn (hparse : parse words = .ok a) (hdefault : a.init = none) {locale : String}
    (hlanguage : (run h words).language = Language.ofLocale locale)
    (hfaults : ∀ e, resultOn h a = .error e → e.IsIn (Language.ofLocale locale)) :
    Speaks (Locale.resolve locale Language.tags) (run h words) (resultOn h a) := by
  rw [← Language.tag_ofLocale, ← hlanguage]
  rw [← hlanguage] at hfaults
  obtain ⟨texts, htexts, hwritten⟩ := (run h words).language.exists_writtenIn
  refine ⟨rfl, texts, htexts, ?_, fun e he => ?_⟩
  · have hpage : (run h words).page = "" := by
      rw [run_of_asked_default hparse hdefault]
      rfl
    unfold Exit.stdout
    rw [hpage, String.empty_append, outputOf_eq_join_shownIn hwritten]
  · have hcomplaint : (run h words).complaint = e.complaint := by
      rw [run_of_asked_default hparse hdefault]
      unfold resultOn at he
      unfold performed
      rw [he]
    rw [hcomplaint]
    exact (hfaults e he).told hwritten

/-- The default command once its configuration is there. -/
theorem speaks_of_loads (hparse : parse words = .ok a) (hdefault : a.init = none) {config : Config}
    {path : Option String}
    (hloads : Setup.Loads h.surroundings (Language.choose h.env a.language) (runOptions a) config
      path) :
    Speaks (Locale.resolve (askedLocale h.env a config.language) Language.tags) (run h words)
      (resultOn h a) := by
  obtain ⟨hlanguage, hfaults⟩ := RunCommand.isIn_of_loads hloads h.launcher
  have hchosen := configLanguage_eq_ofLocale h.surroundings a config
  refine speaks_of_isIn hparse hdefault ?_ fun e he => hchosen ▸ hfaults e he
  rw [run_of_asked_default hparse hdefault]
  exact hlanguage.trans hchosen

/-- The default command that gives up before. -/
theorem speaks_of_givesUpEarly (hparse : parse words = .ok a) (hdefault : a.init = none) {e : Fault}
    (he : Setup.GivesUpEarly h.surroundings (Language.choose h.env a.language) (runOptions a) e) :
    resultOn h a = .error e ∧ (run h words).stdout = "" ∧
      Speaks (Locale.resolve (askedLocale h.env a none) Language.tags) (run h words)
        (resultOn h a) := by
  have hrefused := RunCommand.execute_of_givesUpEarly he h.launcher
  have hresult : resultOn h a = .error e := congrArg Performance.result hrefused
  have hrun : run h words = performed h (Language.choose h.env a.language) a.verbose runStatus
      (Performance.refused (Language.choose h.env a.language) h.files e) := by
    rw [run_of_asked_default hparse hdefault]
    exact congrArg (performed h _ a.verbose runStatus) hrefused
  have hchosen := choose_eq_ofLocale h.env a
  refine ⟨hresult, by rw [hrun]; rfl,
    speaks_of_isIn hparse hdefault (by rw [hrun, ← hchosen]; rfl) fun e' he' => ?_⟩
  cases hresult.symm.trans he'
  exact hchosen ▸ he.isIn

/-- **Every run speaks one language**, the one that the locale it is asked for resolves to. What goes
    wrong before the configuration is there is told in the words for the locale given or, without
    one, for the system's, and no line is shown. Once it is there, all lines and all that goes wrong
    are in the words for the locale given, else for the configured one, else for the system's, else
    in English. A locale always resolves to a language that is there, and one that is given wins on
    every host: neither the environment nor a configuration has a say. -/
theorem run_speaks_one_language (h : Host) (words : List String) (a : Args)
    (hparse : parse words = .ok a) (hdefault : a.init = none) :
    let x := run h words
    let first := Language.choose h.env a.language
    let asked (configured : Option String) :=
      Locale.resolve (askedLocale h.env a configured) Language.tags
    (∀ e, Setup.GivesUpEarly h.surroundings first (runOptions a) e →
      resultOn h a = .error e ∧ x.stdout = "" ∧ Speaks (asked none) x (resultOn h a)) ∧
    (∀ config path, Setup.Loads h.surroundings first (runOptions a) config path →
      Speaks (asked config.language) x (resultOn h a)) ∧
    ((∃ config path, Setup.Loads h.surroundings first (runOptions a) config path) ∨
      ∃ e, Setup.GivesUpEarly h.surroundings first (runOptions a) e) ∧
    (∀ locale, Locale.resolve locale Language.tags ∈ Language.tags) ∧
    ∀ given, a.language = some given → ∀ k : Host,
      Speaks (Locale.resolve given Language.tags) (run k words) (resultOn k a) := by
  intro x first asked
  refine ⟨fun e he => speaks_of_givesUpEarly hparse hdefault he,
    fun config path hloads => speaks_of_loads hparse hdefault hloads,
    Setup.loads_or_gives_up .., Locale.resolve_mem_tags, fun given hgiven k => ?_⟩
  -- on every host a run either has its configuration or gives up before
  rcases Setup.loads_or_gives_up k.surroundings (Language.choose k.env a.language) (runOptions a)
    with ⟨config, path, hloads⟩ | ⟨e, he⟩
  · have hloaded := speaks_of_loads hparse hdefault hloads
    rwa [askedLocale_of_given hgiven] at hloaded
  · obtain ⟨-, -, hearly⟩ := speaks_of_givesUpEarly hparse hdefault he
    rwa [askedLocale_of_given hgiven] at hearly

/-- On a system that speaks Chinese, a configuration that asks for English names a directory that is
    not there: the run complains in English, and in Chinese if that is asked for. Where the
    configuration asked for is not there either, the complaint is in the system's language. -/
theorem run_speaks_one_language_of_configured :
    let host : Host := ⟨[("LANG", "zh_CN.UTF-8")], ⟨[(["TestDriver.toml"],
      .file "language = \"en-GB\"\nproject_dir = \"gone\"\n".toUTF8)], [], none⟩,
      Rehearsal.Script.launcher []⟩
    (run host []).complaint =
      "Error: Project directory not found: /gone: No such file or directory (os error 2)\n" ∧
    (run host ["--lang=zh-CN"]).complaint =
      "Error: 未找到项目目录: /gone: No such file or directory (os error 2)\n" ∧
    (run host ["--config", "none"]).complaint =
      "Error: 读取配置文件失败: none: No such file or directory (os error 2)\n" := by
  intro host
  obtain ⟨a, b, c, d, hentries⟩ : ∃ a b c d,
      Toml.readEntries "language = \"en-GB\"\nproject_dir = \"gone\"\n".toList =
        .ok [(⟨"language", a⟩, ⟨b, .text "en-GB"⟩), (⟨"project_dir", c⟩, ⟨d, .text "gone"⟩)] :=
    ⟨_, _, _, _, rfl⟩
  have hconfig := Config.parse_of_sorted (c := ⟨some "en-GB", .jar, some "gone"⟩) hentries
    (by simp) rfl
  have hread : host.files.read "/TestDriver.toml" = .ok _ := FileSystem.read_of_text rfl rfl
  have hfile : host.files.isFile "/TestDriver.toml" = true := rfl
  have hdiscover (language : Language) : ConfigFile.discover host.files language none "/" =
      .ok (⟨some "en-GB", .jar, some "gone"⟩, some "/TestDriver.toml") := by
    have hpath : Path.join "/" ConfigFile.standardName = "/TestDriver.toml" := by decide
    simp only [ConfigFile.discover, ConfigFile.load, hpath, hfile, hread, hconfig, ↓reduceIte]
    rfl
  have hsearch (language : Language) :
      ProjectDir.resolve host.env host.files language "." "." = .ok "/" :=
    ProjectDir.resolve_point ..
  have hroot (language : Language) : ProjectDir.resolve host.env host.files language "gone" "/" =
      .error ⟨[(language, .projectDirNotFound "/gone")], .system (.code 2)⟩ := by
    unfold ProjectDir.resolve
    rw [Expand.full_of_plain _ _ (by simp) (by simp)]
    rfl
  have hresult (given : Option String) :
      let options : RunOptions := ⟨none, none, none, false, given.isSome⟩
      let chosen := Setup.configLanguage host.surroundings (Language.choose host.env given) options
        ⟨some "en-GB", .jar, some "gone"⟩
      resultOn host ⟨given, false, none, none, none, false, none⟩ =
        .error ⟨[(chosen, .projectDirNotFound "/gone")], .system (.code 2)⟩ := by
    intro options chosen
    have hrooted : Setup.RootedAt host.surroundings (Language.choose host.env given) options
        ⟨some "en-GB", .jar, some "gone"⟩ (some "/TestDriver.toml") "/" _ :=
      .configured "gone" rfl rfl
    exact resultOn_of_refused
      (.root "/" _ _ _ (hsearch _) (hdiscover _) (hroot chosen ▸ hrooted))
  have hnone : ConfigFile.discover host.files .chinese (some "none") "/" =
      .error ⟨[(.chinese, .configReadFailed "none")], .system (.code 2)⟩ := rfl
  obtain ⟨-, hloaded, -⟩ := run_speaks_one_language host []
    ⟨none, false, none, none, none, false, none⟩ rfl rfl
  obtain ⟨-, -, -, -, hgiven⟩ := run_speaks_one_language host ["--lang=zh-CN"]
    ⟨some "zh-CN", false, none, none, none, false, none⟩ rfl rfl
  obtain ⟨hearly, -⟩ := run_speaks_one_language host ["--config", "none"]
    ⟨none, false, none, some "none", none, false, none⟩ rfl rfl
  refine ⟨?_, ?_, ?_⟩
  · have hspeaks : Speaks (Locale.resolve "en-GB" Language.tags) (run host []) _ :=
      hloaded _ _ ⟨"/", hsearch _, hdiscover _⟩
    rw [show Locale.resolve "en-GB" Language.tags = "en" by decide] at hspeaks
    obtain ⟨texts, htexts, -, hfault⟩ := hspeaks.words
    cases htexts
    rw [(hfault _ (hresult none)).1]
    decide
  · obtain ⟨texts, htexts, -, hfault⟩ := (hgiven "zh-CN" rfl host).words
    cases htexts
    rw [(hfault _ (hresult (some "zh-CN"))).1]
    decide
  · obtain ⟨hresult, -, hspeaks⟩ := hearly _ (Or.inr ⟨"/", hsearch _, hnone⟩)
    obtain ⟨texts, htexts, -, hfault⟩ := hspeaks.words
    cases htexts
    rw [(hfault _ hresult).1]
    decide

end Program

end SuiteDriver

import SuiteDriver.Proofs.DryRun
import SuiteDriver.Proofs.FileContents
import SuiteDriver.Proofs.Schema
import SuiteDriver.Proofs.SideBySide

/-!
# Configured values that are overridden

An option wins over the value that a configuration has for it, and a value that loses is not even
looked at: whether it can be expanded, or names anything, makes no difference. Two hosts whose
configurations differ in such values only lead to one setup, and from there to the same run.

* `Config.SameFor`: configurations that agree in all that the options leave open;
* `Setup.prepare_congr`: they lead to the same setup, or to the same fault;
* `Rehearsal.Script.launcher_alike`: scripted tools do the same on both hosts;
* `Program.run_ignores_overridden_values`: both hosts show, launch and return the same.
-/

namespace SuiteDriver

open FileSystem (SameBut)

/-! ## 1. One setup -/

/-- **Configurations that agree in all that the options leave open.** -/
structure Config.SameFor (options : RunOptions) (c d : Config) : Prop where
  variant : options.variant = none → c.variant = d.variant
  projectDir : options.projectDir = none → c.projectDir = d.projectDir
  language : options.languageGiven = false → c.language = d.language

/-- **The same surroundings but for a configuration file**, which is valid in both and says the same
    where the options leave something open. -/
structure Surroundings.SameFor (options : RunOptions) (loc : Location) (s t : Surroundings) :
    Prop where
  env : s.env = t.env
  files : SameBut loc s.files t.files
  configs : ∃ (x y : String) (c d : Config),
    s.files.lookup loc = some (.file x.toUTF8) ∧ t.files.lookup loc = some (.file y.toUTF8) ∧
      Config.parse x = .ok c ∧ Config.parse y = .ok d ∧ c.SameFor options d

theorem ProjectDir.resolve_congr {loc : Location} {a b : FileSystem} (h : SameBut loc a b)
    (env : Environment) (language : Language) (raw base : String) :
    resolve env a language raw base = resolve env b language raw base := by
  unfold resolve
  simp only [h.accountHome, h.resolve, h.isDirectory]

section

variable {s t : Surroundings} {options : RunOptions} {loc : Location}

/-- What is loaded is the same in both, or it is the one file. -/
theorem ConfigFile.load_or (h : s.SameFor options loc t) (language : Language) (path : String) :
    load s.files language path = load t.files language path ∨
      ∃ c d, load s.files language path = .ok c ∧ load t.files language path = .ok d ∧
        c.SameFor options d := by
  rcases h.files.read_or path with hsame | ⟨hs, ht⟩
  · left
    unfold load
    rw [hsame]
  · obtain ⟨x, y, c, d, hx, hy, hc, hd, hcd⟩ := h.configs
    refine Or.inr ⟨c, d, ?_, ?_, hcd⟩
    · unfold load
      simp only [FileSystem.read_of_text hs hx, hc]
    · unfold load
      simp only [FileSystem.read_of_text ht hy, hd]

theorem ConfigFile.discover_or (h : s.SameFor options loc t) (language : Language)
    (asked : Option String) (dir : String) :
    discover s.files language asked dir = discover t.files language asked dir ∨
      ∃ c d path, discover s.files language asked dir = .ok (c, path) ∧
        discover t.files language asked dir = .ok (d, path) ∧ c.SameFor options d := by
  have hload (path : String) :
      (load s.files language path).map (fun c => (c, some path)) =
          (load t.files language path).map (fun c => (c, some path)) ∨
        ∃ c d p, (load s.files language path).map (fun c => (c, some path)) = .ok (c, p) ∧
          (load t.files language path).map (fun c => (c, some path)) = .ok (d, p) ∧
          c.SameFor options d := by
    rcases load_or h language path with hsame | ⟨c, d, hc, hd, hcd⟩
    · exact Or.inl (by rw [hsame])
    · exact Or.inr ⟨c, d, some path, by rw [hc]; rfl, by rw [hd]; rfl, hcd⟩
  unfold discover
  cases asked with
  | some path => exact hload path
  | none =>
    dsimp only
    rw [h.files.isFile]
    split
    · exact hload _
    · exact Or.inl rfl

namespace Setup

theorem configLanguage_congr (henv : s.env = t.env) {c d : Config} (hcd : c.SameFor options d)
    (language : Language) :
    configLanguage s language options c = configLanguage t language options d := by
  unfold configLanguage
  cases hgiven : options.languageGiven with
  | false => rw [hcd.language hgiven, henv]
  | true => cases c.language <;> cases d.language <;> rfl

theorem chooseRoot_congr (henv : s.env = t.env) (hfiles : SameBut loc s.files t.files)
    {c d : Config} (hcd : c.SameFor options d) (language : Language) (path : Option String)
    (searched : String) :
    chooseRoot s language options c path searched =
      chooseRoot t language options d path searched := by
  unfold chooseRoot
  cases hgiven : options.projectDir with
  | some dir => rfl
  | none =>
    rw [hcd.projectDir hgiven]
    cases d.projectDir with
    | none => rfl
    | some configured => exact henv ▸ ProjectDir.resolve_congr hfiles ..

/-- **A value that is overridden does not change what the setup finds**, nor whether it fails. -/
theorem prepare_congr (h : s.SameFor options loc t) (language : Language) :
    prepare s language options = prepare t language options := by
  have hsearch := ProjectDir.resolve_congr h.files t.env language
    (options.projectDir.getD ".") "."
  unfold prepare
  rw [h.env, hsearch]
  cases ProjectDir.resolve t.env t.files language (options.projectDir.getD ".") "." with
  | error e => rfl
  | ok dir =>
    have hroot {c d : Config} (hcd : c.SameFor options d) (l : Language) (path : Option String) :
        chooseRoot s l options c path dir = chooseRoot t l options d path dir :=
      chooseRoot_congr h.env h.files hcd l path dir
    rcases ConfigFile.discover_or h language options.config dir with
      hsame | ⟨c, d, path, hc, hd, hcd⟩
    · -- no configuration, or another file: the configurations are even the same
      have hrefl (c : Config) : c.SameFor options c := ⟨fun _ => rfl, fun _ => rfl, fun _ => rfl⟩
      simp only [hsame, configLanguage_congr h.env (hrefl _), hroot (hrefl _)]
    · have hvariant : options.variant.getD c.variant = options.variant.getD d.variant := by
        cases hgiven : options.variant with
        | some v => rfl
        | none => exact hcd.variant hgiven
      simp only [hc, hd, configLanguage_congr h.env hcd, hroot hcd, hvariant]

end Setup

end

/-! ## 2. Tools that do not read the configuration -/

/-- To change paths one after the other leaves both trees alike, and fails alike. -/
theorem Rehearsal.changeAll_alike {loc : Location}
    {change : FileSystem → String → Except OsError FileSystem}
    (hchange : ∀ {a b : FileSystem}, SameBut loc a b → ∀ path,
      SameBut.Change loc (change a path) (change b path)) (dir : String)
    {a b : FileSystem} (h : SameBut loc a b) (paths : List String) :
    SameBut loc (changeAll change dir a paths).1 (changeAll change dir b paths).1 ∧
      (changeAll change dir a paths).2 = (changeAll change dir b paths).2 := by
  induction paths generalizing a b with
  | nil => exact ⟨h, rfl⟩
  | cons p ps ih =>
    have hp := hchange h (Path.join dir p)
    unfold changeAll
    generalize change a (Path.join dir p) = x at hp
    generalize change b (Path.join dir p) = y at hp
    cases hp with
    | failed e => exact ⟨h, rfl⟩
    | made hnext => exact ih hnext

/-- **Scripted tools do the same on both hosts**, also where they touch or remove the configuration:
    what they answer depends on no file's content. -/
theorem Rehearsal.Script.launcher_alike (script : Script) (loc : Location) :
    Launcher.Alike (SameBut loc) script.launcher script.launcher := by
  have hanswer (r : Response) (dir : String) {a b : FileSystem} (h : SameBut loc a b) :
      (r.answer dir a).status = (r.answer dir b).status ∧
        (r.answer dir a).output = (r.answer dir b).output ∧
        SameBut loc (r.answer dir a).files (r.answer dir b).files := by
    obtain ⟨hmade, hfault⟩ := changeAll_alike SameBut.touch dir h r.touch
    unfold Response.answer
    generalize changeAll FileSystem.touch dir a r.touch = x at hmade hfault
    generalize changeAll FileSystem.touch dir b r.touch = y at hmade hfault
    obtain ⟨made, fault⟩ := x
    obtain ⟨made', fault'⟩ := y
    cases hfault
    cases fault with
    | some e => exact ⟨rfl, rfl, hmade⟩
    | none =>
      obtain ⟨hleft, hfault⟩ := changeAll_alike SameBut.remove dir hmade r.remove
      dsimp only
      generalize changeAll FileSystem.remove dir made r.remove = x at hleft hfault
      generalize changeAll FileSystem.remove dir made' r.remove = y at hleft hfault
      obtain ⟨left, fault⟩ := x
      obtain ⟨left', fault'⟩ := y
      cases hfault
      cases fault with
      | some e => exact ⟨rfl, rfl, hleft⟩
      | none => exact ⟨rfl, rfl, hleft⟩
  constructor
  · exact fun earlier a b l hab => (hanswer _ l.directory hab).1
  · exact fun earlier a b l hab => (hanswer _ l.directory hab).2.1
  · exact fun earlier a b l hab => (hanswer _ l.directory hab).2.2

/-! ## 3. One run -/

namespace Program

open CommandLine

/-- **A configured value that is overridden has no influence.** On two hosts with the same
    environment and the same files, but for a configuration that is valid on both and differs in
    values that the command line gives as well, the default command finds the same setup or the same
    fault. Where launches come to the same on both, in whatever time, it also shows the same but for
    the durations, launches the same commands in the same directory, and ends with the same status
    and the same complaint. -/
theorem run_ignores_overridden_values (h k : Host) (words : List String) (a : Args)
    (hparse : parse words = .ok a) (hdefault : a.init = none) (loc : Location)
    (hsame : h.surroundings.SameFor (runOptions a) loc k.surroundings) :
    (∀ language, Setup.prepare h.surroundings language (runOptions a) =
      Setup.prepare k.surroundings language (runOptions a)) ∧
    (Launcher.Alike (SameBut loc) h.launcher k.launcher →
      (run h words).Alike (SameBut loc) (run k words)) := by
  have hprepare := Setup.prepare_congr hsame
  refine ⟨hprepare, fun hlaunchers => ?_⟩
  have henv : h.env = k.env := hsame.env
  rw [run_of_asked_default hparse hdefault, run_of_asked_default hparse hdefault, henv]
  refine performed_alike henv ?_ _ _
  unfold RunCommand.execute
  rw [hprepare]
  rcases Setup.prepare k.surroundings (Language.choose k.env a.language) (runOptions a) with
    ⟨chosen, e | setup⟩
  · exact ⟨rfl, rfl, rfl, hsame.files⟩
  · have hartifact : Run.AgreeAt (SameBut loc) setup.root setup.plan.variant :=
      fun x y hxy => hxy.hasEntry _
    exact RunCommand.carryOut_alike hlaunchers hartifact hsame.files ..

/-- On a host whose tools build the archive and then refuse a suite, a configuration with another
    variant and another language, and with a directory that cannot be expanded, makes no
    difference to a command line that gives all three; nor do tools that take their time. -/
theorem run_ignores_overridden_values_of_unset_variable :
    let script : Rehearsal.Script := [⟨["sst.jar"], [], .ok (some 0)⟩, ⟨[], [], .ok none⟩,
      ⟨["TestDriver.toml"], [], .error (.code 13)⟩]
    let empty : FileSystem := ⟨[], [], none⟩
    let h : Host := ⟨[], empty.insert ["TestDriver.toml"] (.file
      "language = \"zh-CN\"\nproject_dir = \"$GONE/x\"\nvariant = \"sync\"\n".toUTF8), script.launcher⟩
    let k : Host := ⟨[], empty.insert ["TestDriver.toml"] (.file "variant = \"compile\"\n".toUTF8),
      fun earlier files l => { script.launcher earlier files l with elapsed := ⟨3, 0⟩ }⟩
    let x := run h ["--variant=jar", "--project-dir", ".", "--lang=en"]
    let y := run k ["--variant=jar", "--project-dir", ".", "--lang=en"]
    x.untimed.stdout = y.untimed.stdout ∧ x.launches = y.launches ∧ x.status = y.status ∧
      x.complaint = y.complaint := by
  intro script empty h k x y
  obtain ⟨a, b, c, d, e, f, hentries⟩ : ∃ a b c d e f, Toml.readEntries
      "language = \"zh-CN\"\nproject_dir = \"$GONE/x\"\nvariant = \"sync\"\n".toList =
        .ok [(⟨"language", a⟩, ⟨b, .text "zh-CN"⟩), (⟨"project_dir", c⟩, ⟨d, .text "$GONE/x"⟩),
          (⟨"variant", e⟩, ⟨f, .text "sync"⟩)] := ⟨_, _, _, _, _, _, rfl⟩
  have hc := Config.parse_of_sorted (c := ⟨some "zh-CN", .sync, some "$GONE/x"⟩) hentries
    (by simp) rfl
  obtain ⟨a', b', hentry⟩ : ∃ a' b', Toml.readEntries "variant = \"compile\"\n".toList =
      .ok [(⟨"variant", a'⟩, ⟨b', .text "compile"⟩)] := ⟨_, _, rfl⟩
  have hd := Config.parse_of_sorted (c := ⟨none, .compile, none⟩) hentry (by simp) rfl
  have hfiles : SameBut ["TestDriver.toml"] h.files k.files := SameBut.of_insert (by decide) empty _ _
  have hgiven : Config.SameFor ⟨none, some ".", some .jar, false, true⟩
      ⟨some "zh-CN", .sync, some "$GONE/x"⟩ ⟨none, .compile, none⟩ :=
    ⟨nofun, nofun, nofun⟩
  have hscript := script.launcher_alike ["TestDriver.toml"]
  obtain ⟨hout, hlaunches, hstatus, hcomplaint, -⟩ := (run_ignores_overridden_values h k
    ["--variant=jar", "--project-dir", ".", "--lang=en"]
    ⟨some "en", false, some ".", none, some .jar, false, none⟩ rfl rfl ["TestDriver.toml"]
    ⟨rfl, hfiles, _, _, _, _, rfl, rfl, hc, hd, hgiven⟩).2
    ⟨hscript.status, hscript.output, hscript.files⟩
  exact ⟨hout, hlaunches, hstatus, hcomplaint⟩

end Program

end SuiteDriver

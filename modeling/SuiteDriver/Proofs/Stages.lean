import SuiteDriver.Program
import SuiteDriver.Rehearsal.Script

/-!
# The stages of the setup

Before a run three things are found one after the other: the directory to search, the configuration
in it, and the root that the configuration or the caller names. `Setup.Stages` says that all three
succeed and `Setup.Refused` that one of them fails; `Setup.prepare` is read off them.

* `Setup.stages_or_refused`: it is one or the other;
* `Setup.prepare_of_stages`, `Setup.prepare_of_refused`: what the setup finds in each case;
* `Program.run_tells_setup_or_nothing`: the program tells the whole setup before all else, or, if a
  stage fails, shows, changes and launches nothing.
-/

namespace SuiteDriver

/-! ## 1. Texts without variables -/

namespace Expand

variable (env : Environment)

theorem pieces_of_plain {s : List Char} (h : ∀ c ∈ s, c ≠ '$') : pieces s = s.map .literal := by
  induction s with
  | nil => rw [pieces]; rfl
  | cons c r ih =>
    obtain ⟨hc, hr⟩ := List.forall_mem_cons.mp h
    unfold pieces
    rw [if_pos hc, ih hr]
    rfl

theorem values_literal (s : List Char) : values env (s.map .literal) = .ok s := by
  induction s with
  | nil => rfl
  | cons c r ih =>
    simp only [List.map_cons, values, Piece.value, ih]
    rfl

/-- **A text without dollar signs that does not start with a tilde stands for itself.** -/
theorem full_of_plain (account : Option String) {raw : String}
    (hplain : ∀ c ∈ raw.toList, c ≠ '$') (htilde : raw.toList.head? ≠ some '~') :
    full env account raw = .ok raw := by
  unfold full
  rw [pieces_of_plain hplain, values_literal]
  simp only [if_neg htilde, String.ofList_toList]

end Expand

/-- In the root directory the point names the root. -/
theorem ProjectDir.resolve_point (env : Environment) (nodes : List (Location × Node))
    (account : Option String) (language : Language) :
    ProjectDir.resolve env ⟨nodes, [], account⟩ language "." "." = .ok "/" := by
  have hfull : Expand.full env account "." = .ok "." :=
    Expand.full_of_plain env account (by simp) (by simp)
  have hroot : FileSystem.resolve ⟨nodes, [], account⟩ (Path.join "." ".") = .ok "/" := rfl
  have hdir : FileSystem.isDirectory ⟨nodes, [], account⟩ "/" = true := rfl
  simp only [ProjectDir.resolve, hfull, hroot, hdir, ↓reduceIte]

/-! ## 2. What the stages find -/

namespace Setup

variable {s : Surroundings} {language : Language} {options : RunOptions}

/-- The root of a project, once its configuration is read: the directory that was searched, unless
    only the configuration names one, which is seen from the configuration's own directory. -/
inductive RootedAt (s : Surroundings) (language : Language) (options : RunOptions)
    (config : Config) (configPath : Option String) (dir : String) : Except Fault String → Prop
  | searched (h : options.projectDir.isSome ∨ config.projectDir = none) :
      RootedAt s language options config configPath dir (.ok dir)
  | configured (raw : String) (hnone : options.projectDir = none)
      (hsome : config.projectDir = some raw) :
      RootedAt s language options config configPath dir
        (ProjectDir.resolve s.env s.files (configLanguage s language options config) raw
          (configBase configPath dir))

/-- **All stages of the setup succeed**, and this is what they find. -/
structure Stages (s : Surroundings) (language : Language) (options : RunOptions)
    (dir : String) (config : Config) (configPath : Option String) (root : String) : Prop where
  search : ProjectDir.resolve s.env s.files language (options.projectDir.getD ".") "." = .ok dir
  discover : ConfigFile.discover s.files language options.config dir = .ok (config, configPath)
  root : RootedAt s language options config configPath dir (.ok root)

/-- **A stage of the setup fails**, after those before it succeeded. -/
inductive Refused (s : Surroundings) (language : Language) (options : RunOptions) :
    Fault → Prop
  | search (e : Fault)
      (h : ProjectDir.resolve s.env s.files language (options.projectDir.getD ".") "." =
        .error e) :
      Refused s language options e
  | discover (dir : String) (e : Fault)
      (hsearch : ProjectDir.resolve s.env s.files language (options.projectDir.getD ".") "." =
        .ok dir)
      (h : ConfigFile.discover s.files language options.config dir = .error e) :
      Refused s language options e
  | root (dir : String) (config : Config) (configPath : Option String) (e : Fault)
      (hsearch : ProjectDir.resolve s.env s.files language (options.projectDir.getD ".") "." =
        .ok dir)
      (hdiscover : ConfigFile.discover s.files language options.config dir =
        .ok (config, configPath))
      (h : RootedAt s language options config configPath dir (.error e)) :
      Refused s language options e

/-- The choice of the root is the one that `RootedAt` describes. -/
theorem rootedAt_chooseRoot (s : Surroundings) (language : Language) (options : RunOptions)
    (config : Config) (configPath : Option String) (dir : String) :
    RootedAt s language options config configPath dir
      (chooseRoot s (configLanguage s language options config) options config configPath dir) := by
  unfold chooseRoot
  cases hp : options.projectDir with
  | some d => exact .searched (Or.inl (by rw [hp]; rfl))
  | none =>
    cases hc : config.projectDir with
    | none => exact .searched (Or.inr hc)
    | some raw => exact .configured raw hp hc

theorem chooseRoot_of_rootedAt {config : Config} {configPath : Option String} {dir : String}
    {r : Except Fault String} (h : RootedAt s language options config configPath dir r) :
    chooseRoot s (configLanguage s language options config) options config configPath dir = r := by
  unfold chooseRoot
  cases h with
  | searched h =>
    cases hp : options.projectDir with
    | some d => rfl
    | none =>
      rw [hp] at h
      rw [h.resolve_left Bool.false_ne_true]
  | configured raw hnone hsome => rw [hnone, hsome]

/-- **Either all stages succeed or one fails.** -/
theorem stages_or_refused (s : Surroundings) (language : Language) (options : RunOptions) :
    (∃ dir config configPath root, Stages s language options dir config configPath root) ∨
      ∃ e, Refused s language options e := by
  cases hsearch : ProjectDir.resolve s.env s.files language (options.projectDir.getD ".") "." with
  | error e => exact Or.inr ⟨e, .search e hsearch⟩
  | ok dir =>
    cases hdiscover : ConfigFile.discover s.files language options.config dir with
    | error e => exact Or.inr ⟨e, .discover dir e hsearch hdiscover⟩
    | ok found =>
      obtain ⟨config, configPath⟩ := found
      have hroot := rootedAt_chooseRoot s language options config configPath dir
      cases hc : chooseRoot s (configLanguage s language options config) options config configPath
          dir with
      | error e => exact Or.inr ⟨e, .root dir config configPath e hsearch hdiscover (hc ▸ hroot)⟩
      | ok root => exact Or.inl ⟨dir, config, configPath, root, hsearch, hdiscover, hc ▸ hroot⟩

/-- What the setup finds if all stages succeed. -/
theorem prepare_of_stages {dir : String} {config : Config} {configPath : Option String}
    {root : String} (h : Stages s language options dir config configPath root) :
    prepare s language options =
      (configLanguage s language options config,
        .ok ⟨root, configPath, (options.variant.getD config.variant).plan⟩) := by
  unfold prepare
  simp only [h.search, h.discover, chooseRoot_of_rootedAt h.root]

/-- If a stage fails, the setup fails in the same way. -/
theorem prepare_of_refused {e : Fault} (h : Refused s language options e) :
    ∃ chosen, prepare s language options = (chosen, .error e) := by
  unfold prepare
  cases h with
  | search e h => exact ⟨language, by simp only [h]⟩
  | discover dir e hsearch h => exact ⟨language, by simp only [hsearch, h]⟩
  | root dir config configPath e hsearch hdiscover h =>
    exact ⟨configLanguage s language options config,
      by simp only [hsearch, hdiscover, chooseRoot_of_rootedAt h]⟩

end Setup

/-! ## 3. What is shown of them -/

theorem outputOf_append (language : Language) (colours : Bool) (xs ys : List Event) :
    outputOf language colours (xs ++ ys) =
      outputOf language colours xs ++ outputOf language colours ys := by
  unfold outputOf
  rw [List.map_append, String.join_append]

/-- Lines that are said are shown as they are. -/
theorem outputOf_said (language : Language) (colours : Bool) (lines : List Console.Line) :
    outputOf language colours (lines.map .said) = Console.renderAll language colours lines := by
  unfold outputOf Console.renderAll
  rw [List.map_map]
  rfl

namespace Program

open CommandLine

/-- The exit of a command line that asks for the default command. -/
theorem run_of_default {h : Host} {words : List String} {a : Args} (hparse : parse words = .ok a)
    (hdefault : a.init = none) :
    run h words =
      performed h (Language.choose h.env (requestedLanguage words)) a.verbose runStatus
        (RunCommand.execute h.surroundings h.launcher
          (Language.choose h.env (requestedLanguage words)) (runOptions a)) := by
  unfold run perform
  rw [hparse]
  simp only [hdefault]

/-- The default command after a setup that failed. -/
theorem execute_of_refused {s : Surroundings} {language : Language} {options : RunOptions}
    {e : Fault} (h : Setup.Refused s language options e) (launcher : Launcher) :
    ∃ chosen, RunCommand.execute s launcher language options =
      Performance.refused chosen s.files e := by
  obtain ⟨chosen, hprepare⟩ := Setup.prepare_of_refused h
  exact ⟨chosen, by unfold RunCommand.execute; rw [hprepare]⟩

/-- The default command after a setup that succeeded. -/
theorem execute_of_stages {s : Surroundings} {language : Language} {options : RunOptions}
    {dir : String} {config : Config} {configPath : Option String} {root : String}
    (h : Setup.Stages s language options dir config configPath root) (launcher : Launcher) :
    RunCommand.execute s launcher language options =
      RunCommand.carryOut s launcher (Setup.configLanguage s language options config)
        options.dryRun ⟨root, configPath, (options.variant.getD config.variant).plan⟩ := by
  unfold RunCommand.execute
  rw [Setup.prepare_of_stages h]

/-- Whatever the default command does after its setup, it tells the setup first. -/
theorem carryOut_events (s : Surroundings) (launcher : Launcher) (language : Language)
    (dryRun : Bool) (setup : Setup) :
    ∃ after, (RunCommand.carryOut s launcher language dryRun setup).events =
      RunCommand.setupEvents setup ++ after := by
  unfold RunCommand.carryOut
  cases dryRun with
  | true => exact ⟨_, rfl⟩
  | false =>
    simp only [Bool.false_eq_true, ↓reduceIte]
    cases (Run.ofPlan setup.plan setup.root launcher s.files).result with
    | error f => exact ⟨_, rfl⟩
    | ok report => exact ⟨_, List.append_assoc ..⟩

/-- **The setup is told as a whole or nothing is.** If a stage of it fails, no process is launched,
    nothing is shown, no file is changed, and the status is that of a failure. If all succeed, the
    root, the source of the configuration and the variant are shown, and in front of them there are
    only records of the log. One of the two is so. -/
theorem run_tells_setup_or_nothing (h : Host) (words : List String) (a : Args)
    (hparse : parse words = .ok a) (hdefault : a.init = none) :
    let x := run h words
    let language := Language.choose h.env (requestedLanguage words)
    (∀ e, Setup.Refused h.surroundings language (runOptions a) e →
      x.launches = [] ∧ x.stdout = "" ∧ x.files = h.files ∧ x.status = failure) ∧
    (∀ dir config configPath root,
      Setup.Stages h.surroundings language (runOptions a) dir config configPath root →
      let variant := a.variant.getD config.variant
      let block : List Console.Line :=
        [.projectRoot root, .configSource configPath, .variantChosen variant variant.launchMode]
      ∃ before after : List Event, x.events = before ++ block.map .said ++ after ∧
        (∀ e ∈ before, ∃ record, e = .logged record) ∧
        x.stdout = Console.renderAll x.language x.colours block ++
          outputOf x.language x.colours after) ∧
    ((∃ e, Setup.Refused h.surroundings language (runOptions a) e) ∨
      ∃ dir config configPath root,
        Setup.Stages h.surroundings language (runOptions a) dir config configPath root) := by
  intro x language
  have hx : x = performed h language a.verbose runStatus
      (RunCommand.execute h.surroundings h.launcher language (runOptions a)) :=
    run_of_default hparse hdefault
  refine ⟨fun e he => ?_, ?_, (Setup.stages_or_refused ..).symm⟩
  · obtain ⟨chosen, hexecute⟩ := execute_of_refused he h.launcher
    rw [hx, hexecute]
    exact ⟨rfl, rfl, rfl, rfl⟩
  · intro dir config configPath root hs variant block
    obtain ⟨after, hafter⟩ := carryOut_events h.surroundings h.launcher
      (Setup.configLanguage h.surroundings language (runOptions a) config) (runOptions a).dryRun
      ⟨root, configPath, variant.plan⟩
    have hevents : x.events = [.logged (Log.languageChosen language.tag),
        .logged (Log.runPlanned variant.logName root)] ++ block.map .said ++ after := by
      rw [hx, execute_of_stages hs]
      exact congrArg (_ :: ·) hafter
    refine ⟨_, after, hevents, ?_, ?_⟩
    · intro e he
      rcases List.mem_cons.mp he with rfl | he
      · exact ⟨_, rfl⟩
      · exact ⟨_, List.mem_singleton.mp he⟩
    · have hpage : x.page = "" := by rw [hx]; rfl
      have hlog (first second : Log.Record) :
          outputOf x.language x.colours [.logged first, .logged second] = "" := rfl
      unfold Exit.stdout
      rw [hpage, hevents, outputOf_append, outputOf_append, outputOf_said, hlog,
        String.empty_append, String.empty_append]

/-- On a host without any file, which could launch anything: a project directory that is not there
    ends the program before anything is shown, and without one the setup is shown first. -/
theorem run_tells_setup_or_nothing_on_empty_host :
    let host : Host := ⟨[], ⟨[], [], none⟩, Rehearsal.Script.launcher []⟩
    let x := run host ["--project-dir", "gone"]
    let y := run host ["--variant=sync"]
    (x.launches = [] ∧ x.stdout = "" ∧ x.files = host.files ∧ x.status = 1) ∧
    ∃ rest, y.stdout = Console.renderAll y.language y.colours
      [.projectRoot "/", .configSource none, .variantChosen .sync .blocking] ++ rest := by
  intro host x y
  have hgone : ProjectDir.resolve [] ⟨[], [], none⟩ .english "gone" "." =
      .error ⟨[(.english, .projectDirNotFound "./gone")], .system (.code 2)⟩ := by
    unfold ProjectDir.resolve
    rw [Expand.full_of_plain [] none (by simp) (by simp)]
    rfl
  refine ⟨(run_tells_setup_or_nothing host ["--project-dir", "gone"]
    ⟨none, false, some "gone", none, none, false, none⟩ rfl rfl).1 _ (.search _ hgone), ?_⟩
  obtain ⟨_, after, _, _, hout⟩ := (run_tells_setup_or_nothing host ["--variant=sync"]
    ⟨none, false, none, none, some .sync, false, none⟩ rfl rfl).2.1 "/" Config.empty none "/"
    ⟨ProjectDir.resolve_point .., rfl, .searched (Or.inr rfl)⟩
  exact ⟨_, hout⟩

end Program

end SuiteDriver

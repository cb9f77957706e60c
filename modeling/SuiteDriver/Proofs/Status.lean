import SuiteDriver.Proofs.Launches
import SuiteDriver.Proofs.Stages

/-!
# The exit status

A program ends with one of three statuses. Which one is decided by the words of the command line, by
what the setup finds and by which launches are refused, and by nothing else: no code of a process
and no artifact has a say.

* `RunCommand.isOk_carryOut`: how the default command ends, read off the answers of the launcher;
* `Host.Alike`: two hosts on which the same launches can be made;
* `Program.run_status_cases`: the status in every case, and that it is the same on alike hosts.
-/

namespace SuiteDriver

/-! ## 1. How the two commands end -/

namespace Setup

/-- The setup that the stages find. -/
def Finds (s : Surroundings) (language : Language) (options : RunOptions) (setup : Setup) : Prop :=
  ∃ dir config configPath root, Stages s language options dir config configPath root ∧
    setup = ⟨root, configPath, (options.variant.getD config.variant).plan⟩

variable {s : Surroundings} {language : Language} {options : RunOptions}

/-- The setup finds what the stages find. -/
theorem finds_iff {setup : Setup} :
    Finds s language options setup ↔
      ∃ chosen, prepare s language options = (chosen, .ok setup) := by
  constructor
  · rintro ⟨dir, config, configPath, root, hs, rfl⟩
    exact ⟨_, prepare_of_stages hs⟩
  · rintro ⟨chosen, h⟩
    rcases stages_or_refused s language options with ⟨dir, config, configPath, root, hs⟩ | ⟨e, he⟩
    · rw [prepare_of_stages hs] at h
      cases h
      exact ⟨dir, config, configPath, root, hs, rfl⟩
    · obtain ⟨chosen', hprepare⟩ := prepare_of_refused he
      rw [hprepare] at h
      cases h

/-- The setup fails where a stage does. -/
theorem refused_iff {e : Fault} :
    Refused s language options e ↔ ∃ chosen, prepare s language options = (chosen, .error e) := by
  refine ⟨prepare_of_refused, ?_⟩
  rintro ⟨chosen, h⟩
  rcases stages_or_refused s language options with ⟨dir, config, configPath, root, hs⟩ | ⟨e', he⟩
  · rw [prepare_of_stages hs] at h
    cases h
  · obtain ⟨chosen', hprepare⟩ := prepare_of_refused he
    rw [hprepare] at h
    cases h
    exact he

/-- At most one setup is found. -/
theorem Finds.unique {a b : Setup} (ha : Finds s language options a)
    (hb : Finds s language options b) : a = b := by
  obtain ⟨_, hprepare⟩ := finds_iff.mp ha
  obtain ⟨_, hprepare'⟩ := finds_iff.mp hb
  rw [hprepare] at hprepare'
  cases hprepare'
  rfl

theorem finds_or_refused (s : Surroundings) (language : Language) (options : RunOptions) :
    (∃ setup, Finds s language options setup) ∨ ∃ e, Refused s language options e := by
  rcases stages_or_refused s language options with ⟨_, _, _, _, hs⟩ | he
  · exact Or.inl ⟨_, _, _, _, _, hs, rfl⟩
  · exact Or.inr he

/-- A stage fails exactly if nothing is found. -/
theorem refused_iff_finds_nothing :
    (∃ e, Refused s language options e) ↔ ∀ setup, ¬ Finds s language options setup := by
  constructor
  · rintro ⟨e, he⟩ setup hfinds
    obtain ⟨_, herror⟩ := prepare_of_refused he
    obtain ⟨_, hok⟩ := finds_iff.mp hfinds
    rw [herror] at hok
    cases hok
  · intro hnothing
    rcases finds_or_refused s language options with ⟨setup, hfinds⟩ | he
    · exact absurd hfinds (hnothing setup)
    · exact he

end Setup

namespace RunCommand

/-- **What stops the default command**: a stage of the setup that fails or, unless the plan is only
    shown, a step that cannot be launched. -/
def Stopped (s : Surroundings) (launcher : Launcher) (language : Language)
    (options : RunOptions) : Prop :=
  (∃ e, Setup.Refused s language options e) ∨
    options.dryRun = false ∧ ∃ setup, Setup.Finds s language options setup ∧
      ∃ a ∈ launcher.answers [] s.files (setup.plan.launches setup.root), ∃ e, a.status = .error e

/-- A plan that is shown is no failure; one that is run fails exactly if a launch is refused. -/
theorem isOk_carryOut (s : Surroundings) (launcher : Launcher) (language : Language)
    (dryRun : Bool) (setup : Setup) :
    (carryOut s launcher language dryRun setup).result.isOk =
      (dryRun || !(launcher.answers [] s.files (setup.plan.launches setup.root)).any
        Answer.isRefusal) := by
  have hrun : (Run.ofPlan setup.plan setup.root launcher s.files).result.isOk =
      !(launcher.answers [] s.files (setup.plan.launches setup.root)).any Answer.isRefusal :=
    Run.isOk_result_steps setup.plan.variant setup.plan.mode setup.root launcher
      ⟨[], Report.empty, s.files⟩ setup.plan.steps
  unfold carryOut
  cases dryRun with
  | true => rfl
  | false =>
    rw [← hrun]
    simp only [Bool.false_eq_true, ↓reduceIte, Bool.false_or]
    cases (Run.ofPlan setup.plan setup.root launcher s.files).result <;> rfl

/-- A plan that is shown launches nothing; one that is run launches what its run does. -/
theorem launchesOf_carryOut (s : Surroundings) (launcher : Launcher) (language : Language)
    (dryRun : Bool) (setup : Setup) :
    launchesOf (carryOut s launcher language dryRun setup).events =
      if dryRun then []
      else launchesOf (Run.ofPlan setup.plan setup.root launcher s.files).events := by
  have hsetup (events : List Event) :
      launchesOf (setupEvents setup ++ events) = launchesOf events := by
    rw [launchesOf_append]
    rfl
  unfold carryOut
  cases dryRun with
  | true =>
    simp only [↓reduceIte]
    rw [hsetup, launchesOf_said]
  | false =>
    simp only [Bool.false_eq_true, ↓reduceIte]
    cases (Run.ofPlan setup.plan setup.root launcher s.files).result with
    | error f => exact hsetup _
    | ok report =>
      simp only
      rw [List.append_assoc, hsetup, launchesOf_append]
      exact List.append_nil _

section

variable {s : Surroundings} {language : Language} {options : RunOptions} {setup : Setup}

/-- What is found is carried out. -/
theorem execute_of_finds (h : Setup.Finds s language options setup) (launcher : Launcher) :
    ∃ chosen, execute s launcher language options =
      carryOut s launcher chosen options.dryRun setup := by
  obtain ⟨chosen, hprepare⟩ := Setup.finds_iff.mp h
  exact ⟨chosen, by unfold execute; rw [hprepare]⟩

theorem launchesOf_execute_of_finds (h : Setup.Finds s language options setup)
    (launcher : Launcher) :
    launchesOf (execute s launcher language options).events =
      if options.dryRun then []
      else launchesOf (Run.ofPlan setup.plan setup.root launcher s.files).events := by
  obtain ⟨chosen, hexecute⟩ := execute_of_finds h launcher
  rw [hexecute, launchesOf_carryOut]

theorem launchesOf_execute_of_refused {e : Fault} (h : Setup.Refused s language options e)
    (launcher : Launcher) : launchesOf (execute s launcher language options).events = [] := by
  obtain ⟨_, hexecute⟩ := Program.execute_of_refused h launcher
  rw [hexecute]
  rfl

/-- Once a setup is found, only a launch that is refused stops the default command. -/
theorem stopped_iff_of_finds (h : Setup.Finds s language options setup) (launcher : Launcher) :
    Stopped s launcher language options ↔ options.dryRun = false ∧
      ∃ a ∈ launcher.answers [] s.files (setup.plan.launches setup.root),
        ∃ e, a.status = .error e := by
  constructor
  · rintro (hrefused | ⟨hdry, setup', hfinds, hrefusal⟩)
    · exact absurd h (Setup.refused_iff_finds_nothing.mp hrefused setup)
    · rw [h.unique hfinds]
      exact ⟨hdry, hrefusal⟩
  · exact fun ⟨hdry, hrefusal⟩ => Or.inr ⟨hdry, setup, h, hrefusal⟩

end

/-- The default command gives up exactly if something stops it. -/
theorem isOk_execute (s : Surroundings) (launcher : Launcher) (language : Language)
    (options : RunOptions) :
    (execute s launcher language options).result.isOk = true ↔
      ¬ Stopped s launcher language options := by
  rcases Setup.finds_or_refused s language options with ⟨setup, hfinds⟩ | ⟨e, hrefused⟩
  · obtain ⟨chosen, hexecute⟩ := execute_of_finds hfinds launcher
    rw [hexecute, isOk_carryOut, stopped_iff_of_finds hfinds]
    simp only [← Answer.isRefusal_iff, ← List.any_eq_true]
    cases options.dryRun <;> simp
  · obtain ⟨_, hexecute⟩ := Program.execute_of_refused hrefused launcher
    rw [hexecute]
    exact ⟨fun hok => absurd hok Bool.false_ne_true,
      fun hgo => absurd (Or.inl ⟨e, hrefused⟩) hgo⟩

end RunCommand

namespace InitCommand

/-- **What lets the other command succeed**: the directory is resolved, and writing the
    configuration does not fail. To leave a file alone is no failure. -/
def Succeeds (s : Surroundings) (language : Language) (projectDir : Option String)
    (force : Bool) : Prop :=
  ∃ root written, ProjectDir.resolve s.env s.files language (projectDir.getD ".") "." = .ok root ∧
    ConfigFile.write s.files language (Path.join root ConfigFile.standardName)
      ConfigFile.standardText force = .ok written

theorem isOk_execute (s : Surroundings) (language : Language) (projectDir : Option String)
    (force : Bool) :
    (execute s language projectDir force).result.isOk = true ↔
      Succeeds s language projectDir force := by
  unfold execute Succeeds
  cases ProjectDir.resolve s.env s.files language (projectDir.getD ".") "." with
  | error e =>
    exact ⟨fun h => absurd h Bool.false_ne_true, fun ⟨_, _, h, _⟩ => nomatch h⟩
  | ok root =>
    simp only
    cases hw : ConfigFile.write s.files language (Path.join root ConfigFile.standardName)
        ConfigFile.standardText force with
    | error e =>
      refine ⟨fun h => absurd h Bool.false_ne_true, ?_⟩
      rintro ⟨_, _, hroot, hwrite⟩
      cases hroot
      rw [hw] at hwrite
      cases hwrite
    | ok written =>
      refine ⟨fun _ => ⟨root, written, rfl, hw⟩, fun _ => ?_⟩
      obtain ⟨new, files⟩ := written
      cases new <;> rfl

/-- The other command launches nothing. -/
theorem launchesOf_execute (s : Surroundings) (language : Language) (projectDir : Option String)
    (force : Bool) : launchesOf (execute s language projectDir force).events = [] := by
  unfold execute
  cases ProjectDir.resolve s.env s.files language (projectDir.getD ".") "." with
  | error e => rfl
  | ok root =>
    simp only
    cases ConfigFile.write s.files language (Path.join root ConfigFile.standardName)
        ConfigFile.standardText force with
    | error e => rfl
    | ok written =>
      obtain ⟨new, files⟩ := written
      cases new <;> rfl

end InitCommand

/-! ## 2. Alike hosts -/

/-- **Two hosts on which the same launches can be made**, if a command line asks for `a`. They may
    differ in the codes that processes end with, in what processes write, and in every file that
    nothing before the first launch reads; the artifact, before or after its build, is one. -/
structure Host.Alike (language : Language) (a : CommandLine.Args) (h k : Host) : Prop where
  env : h.env = k.env
  files : a.init.isSome = true → h.files = k.files
  setup : a.init = none → ∀ setup,
    Setup.Finds h.surroundings language (Program.runOptions a) setup ↔
      Setup.Finds k.surroundings language (Program.runOptions a) setup
  /-- Of the launches that follow, the same one is the first to be refused, or none is. -/
  launches : a.init = none → a.dryRun = false → ∀ setup,
    Setup.Finds h.surroundings language (Program.runOptions a) setup →
      firstRefusal (h.launcher.answers [] h.files (setup.plan.launches setup.root)) =
        firstRefusal (k.launcher.answers [] k.files (setup.plan.launches setup.root))

namespace Host.Alike

variable {language : Language} {a : CommandLine.Args} {h k : Host}

theorem symm (hl : Host.Alike language a h k) : Host.Alike language a k h where
  env := hl.env.symm
  files hinit := (hl.files hinit).symm
  setup hdefault setup := (hl.setup hdefault setup).symm
  launches hdefault hdry setup hfinds :=
    (hl.launches hdefault hdry setup ((hl.setup hdefault setup).mpr hfinds)).symm

/-- Where a launch is refused on one host, one is refused on the other. -/
theorem exists_refusal (hl : Host.Alike language a h k) (hdefault : a.init = none)
    (hdry : a.dryRun = false) {setup : Setup}
    (hfinds : Setup.Finds h.surroundings language (Program.runOptions a) setup)
    (hrefusal : ∃ b ∈ h.launcher.answers [] h.files (setup.plan.launches setup.root),
      ∃ e, b.status = .error e) :
    ∃ b ∈ k.launcher.answers [] k.files (setup.plan.launches setup.root),
      ∃ e, b.status = .error e := by
  simp only [← Answer.isRefusal_iff, ← List.findIdx_lt_length] at hrefusal ⊢
  have hfirst := hl.launches hdefault hdry setup hfinds
  unfold firstRefusal at hfirst
  rw [Launcher.length_answers] at hrefusal ⊢
  rw [← hfirst]
  exact hrefusal

/-- What stops the default command on one host stops it on the other. -/
theorem stopped (hl : Host.Alike language a h k) (hdefault : a.init = none)
    (hstop : RunCommand.Stopped h.surroundings h.launcher language (Program.runOptions a)) :
    RunCommand.Stopped k.surroundings k.launcher language (Program.runOptions a) := by
  rcases hstop with hrefused | ⟨hdry, setup, hfinds, hrefusal⟩
  · refine Or.inl (Setup.refused_iff_finds_nothing.mpr fun setup hfinds => ?_)
    exact Setup.refused_iff_finds_nothing.mp hrefused setup ((hl.setup hdefault setup).mpr hfinds)
  · exact Or.inr ⟨hdry, setup, (hl.setup hdefault setup).mp hfinds,
      hl.exists_refusal hdefault hdry hfinds hrefusal⟩

/-- The default command launches the same on both hosts. -/
theorem launches_eq (hl : Host.Alike language a h k) (hdefault : a.init = none) :
    launchesOf (RunCommand.execute h.surroundings h.launcher language
        (Program.runOptions a)).events =
      launchesOf (RunCommand.execute k.surroundings k.launcher language
        (Program.runOptions a)).events := by
  rcases Setup.finds_or_refused h.surroundings language (Program.runOptions a) with
    ⟨setup, hfinds⟩ | hrefused
  · have hfinds' := (hl.setup hdefault setup).mp hfinds
    rw [RunCommand.launchesOf_execute_of_finds hfinds,
      RunCommand.launchesOf_execute_of_finds hfinds']
    cases hdry : a.dryRun with
    | true => simp only [Program.runOptions, hdry, ↓reduceIte]
    | false =>
      rw [Run.launchesOf_ofPlan, Run.launchesOf_ofPlan]
      have hfirst := hl.launches hdefault hdry setup hfinds
      simp only [Host.surroundings, hfirst]
  · obtain ⟨e, he⟩ := hrefused
    have hnothing := Setup.refused_iff_finds_nothing.mp ⟨e, he⟩
    obtain ⟨e', he'⟩ := Setup.refused_iff_finds_nothing.mpr fun setup hfinds =>
      hnothing setup ((hl.setup hdefault setup).mpr hfinds)
    rw [RunCommand.launchesOf_execute_of_refused he,
      RunCommand.launchesOf_execute_of_refused he']

end Host.Alike

/-! ## 3. The status of the program -/

namespace Program

open CommandLine

/-- The exit of a command line that asks for a configuration to be written. -/
theorem run_of_init {h : Host} {words : List String} {a : Args} {force : Bool}
    (hparse : parse words = .ok a) (hinit : a.init = some force) :
    run h words =
      performed h (Language.choose h.env (requestedLanguage words)) a.verbose (fun _ => success)
        (InitCommand.execute h.surroundings (Language.choose h.env (requestedLanguage words))
          a.projectDir force) := by
  unfold run perform
  rw [hparse]
  simp only [hinit]

/-- What the command line asks for is not carried out if it asks for no command. -/
theorem run_of_stop {h : Host} {words : List String} {stop : Stop}
    (hparse : parse words = .error stop) :
    run h words = stopped h (Language.choose h.env (requestedLanguage words)) stop := by
  unfold run
  rw [hparse]

/-- A command that is carried out succeeds, and one that gives up fails. -/
theorem status_performed {α : Type} (h : Host) (first : Language) (verbose : Bool)
    {status : α → Nat} (hstatus : ∀ a, status a = success) (p : Performance α) :
    ((performed h first verbose status p).status = 0 ↔ p.result.isOk = true) ∧
      ((performed h first verbose status p).status = 1 ↔ ¬ p.result.isOk = true) := by
  unfold performed
  cases p.result with
  | error e => exact ⟨⟨nofun, nofun⟩, ⟨fun _ => Bool.false_ne_true, fun _ => rfl⟩⟩
  | ok a =>
    simp only [hstatus]
    exact ⟨⟨fun _ => rfl, fun _ => rfl⟩, ⟨nofun, fun hno => absurd rfl hno⟩⟩

/-- A run that was carried out, or only shown, succeeds, whatever its report says. -/
theorem runStatus_eq_success (r : Option Report) : runStatus r = success := by
  cases r <;> rfl

/-- The status of the default command. -/
theorem status_of_default {h : Host} {words : List String} {a : Args}
    (hparse : parse words = .ok a) (hdefault : a.init = none) :
    let stopped := RunCommand.Stopped h.surroundings h.launcher
      (Language.choose h.env (requestedLanguage words)) (runOptions a)
    ((run h words).status = 1 ↔ stopped) ∧ ((run h words).status = 0 ↔ ¬ stopped) := by
  intro stopped
  obtain ⟨hzero, hone⟩ := status_performed h (Language.choose h.env (requestedLanguage words))
    a.verbose runStatus_eq_success (RunCommand.execute h.surroundings h.launcher
      (Language.choose h.env (requestedLanguage words)) (runOptions a))
  rw [run_of_default hparse hdefault, hzero, hone, RunCommand.isOk_execute, Classical.not_not]
  exact ⟨Iff.rfl, Iff.rfl⟩

/-- The status of the other command. -/
theorem status_of_init {h : Host} {words : List String} {a : Args} {force : Bool}
    (hparse : parse words = .ok a) (hinit : a.init = some force) :
    let succeeds := InitCommand.Succeeds h.surroundings
      (Language.choose h.env (requestedLanguage words)) a.projectDir force
    ((run h words).status = 0 ↔ succeeds) ∧ ((run h words).status = 1 ↔ ¬ succeeds) := by
  intro succeeds
  obtain ⟨hzero, hone⟩ := status_performed h (Language.choose h.env (requestedLanguage words))
    a.verbose (fun _ => rfl) (InitCommand.execute h.surroundings
      (Language.choose h.env (requestedLanguage words)) a.projectDir force)
  rw [run_of_init hparse hinit, hzero, hone, InitCommand.isOk_execute]
  exact ⟨Iff.rfl, Iff.rfl⟩

/-- On alike hosts the program launches the same and ends with the same status. -/
theorem run_of_alike {h k : Host} {words : List String}
    (hl : ∀ a, parse words = .ok a →
      Host.Alike (Language.choose h.env (requestedLanguage words)) a h k) :
    (run k words).launches = (run h words).launches ∧
      (run k words).status = (run h words).status := by
  cases hparse : parse words with
  | error stop =>
    rw [run_of_stop hparse, run_of_stop hparse]
    exact ⟨rfl, rfl⟩
  | ok a =>
    have hlike := hl a hparse
    cases hinit : a.init with
    | some force =>
      have hfiles := hlike.files (by rw [hinit]; rfl)
      rw [run_of_init hparse hinit, run_of_init hparse hinit]
      have hsame : h.surroundings = k.surroundings := by
        unfold Host.surroundings
        rw [hlike.env, hfiles]
      rw [← hlike.env, hsame]
      exact ⟨(InitCommand.launchesOf_execute ..).trans (InitCommand.launchesOf_execute ..).symm,
        rfl⟩
    | none =>
      constructor
      · rw [run_of_default hparse hinit, run_of_default hparse hinit, ← hlike.env]
        exact (hlike.launches_eq hinit).symm
      · obtain ⟨hh₁, hh₀⟩ := status_of_default (h := h) hparse hinit
        obtain ⟨hk₁, hk₀⟩ := status_of_default (h := k) hparse hinit
        rw [← hlike.env] at hk₁ hk₀
        by_cases hstop : RunCommand.Stopped h.surroundings h.launcher
            (Language.choose h.env (requestedLanguage words)) (runOptions a)
        · rw [hh₁.mpr hstop, hk₁.mpr (hlike.stopped hinit hstop)]
        · rw [hh₀.mpr hstop, hk₀.mpr fun hstop' => hstop (hlike.symm.stopped hinit hstop')]

/-- **The status in every case.** Help and the version end with success and every other fault of the
    words with misuse. Writing a configuration succeeds exactly if the directory is resolved and the
    writing does not fail. The default command fails exactly if a stage of its setup fails or,
    unless the plan is only shown, a step cannot be launched. Codes of processes and artifacts have
    no say: alike hosts are given the same launches and end with the same status. -/
theorem run_status_cases (h : Host) (words : List String) :
    let x := run h words
    let language := Language.choose h.env (requestedLanguage words)
    (∀ page, parse words = .error (.help page) → x.status = 0) ∧
    (parse words = .error .version → x.status = 0) ∧
    (∀ m, parse words = .error (.misuse m) → x.status = 2) ∧
    (∀ a force, parse words = .ok a → a.init = some force →
      (x.status = 0 ↔ InitCommand.Succeeds h.surroundings language a.projectDir force) ∧
      (x.status = 1 ↔ ¬ InitCommand.Succeeds h.surroundings language a.projectDir force)) ∧
    (∀ a, parse words = .ok a → a.init = none →
      (x.status = 1 ↔ RunCommand.Stopped h.surroundings h.launcher language (runOptions a)) ∧
      (x.status = 0 ↔ ¬ RunCommand.Stopped h.surroundings h.launcher language (runOptions a))) ∧
    ∀ k : Host, (∀ a, parse words = .ok a → Host.Alike language a h k) →
      (run k words).launches = x.launches ∧ (run k words).status = x.status := by
  refine ⟨fun page hp => ?_, fun hp => ?_, fun m hp => ?_, ?_, ?_, fun k hl => ?_⟩
  · rw [run_of_stop hp]
    rfl
  · rw [run_of_stop hp]
    rfl
  · rw [run_of_stop hp]
    rfl
  · exact fun a force hp hinit => status_of_init hp hinit
  · exact fun a hp hdefault => status_of_default hp hdefault
  · exact run_of_alike hl

/-- A host without any file, on which all steps end with zero, and one where the artifact is there
    before the run and all steps fail or are killed: the same is launched, with the same status. A
    word that is not known is misuse on each. -/
theorem run_status_cases_of_artifact :
    let ending (code : Option Int) : Rehearsal.Response := ⟨[], [], .ok code⟩
    let clean : Host := ⟨[], ⟨[], [], none⟩, Rehearsal.Script.launcher []⟩
    let stale : Host := ⟨[], ⟨[(["sst.jar"], .file ByteArray.empty)], [], none⟩,
      Rehearsal.Script.launcher [ending (some 2), ending none, ending (some 1)]⟩
    ((run stale []).launches = (run clean []).launches ∧
      (run stale []).status = (run clean []).status) ∧
    (run clean ["--dryrun"]).status = 2 := by
  intro ending clean stale
  have hclean : Setup.prepare clean.surroundings .english ⟨none, none, none, false, false⟩ =
      (.english, .ok ⟨"/", none, Variant.plan .jar⟩) := by
    simp only [Setup.prepare, Host.surroundings, clean, Option.getD_none, ProjectDir.resolve_point]
    rfl
  have hstale : Setup.prepare stale.surroundings .english ⟨none, none, none, false, false⟩ =
      (.english, .ok ⟨"/", none, Variant.plan .jar⟩) := by
    simp only [Setup.prepare, Host.surroundings, stale, Option.getD_none, ProjectDir.resolve_point]
    rfl
  obtain ⟨_, _, _, _, _, hsame⟩ := run_status_cases clean []
  refine ⟨hsame stale fun a ha => ?_, (run_status_cases clean ["--dryrun"]).2.2.1 _ rfl⟩
  cases ha
  refine ⟨rfl, nofun, fun _ setup => ?_, fun _ _ setup hfinds => ?_⟩
  · show Setup.Finds _ .english ⟨none, none, none, false, false⟩ _ ↔
      Setup.Finds _ .english ⟨none, none, none, false, false⟩ _
    rw [Setup.finds_iff, Setup.finds_iff, hclean, hstale]
  · obtain ⟨_, hprepare⟩ := Setup.finds_iff.mp hfinds
    cases hclean.symm.trans hprepare
    rfl

end Program

end SuiteDriver

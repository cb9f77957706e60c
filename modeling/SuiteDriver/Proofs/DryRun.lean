import SuiteDriver.Proofs.EarlyLanguage
import SuiteDriver.Proofs.Status

/-!
# Dry runs

A dry run and a run that are asked for the same in all else have the same setup. Where it fails,
they end alike; where it is found, both tell it, and then the dry run lists the commands of the plan
and the run launches them in this order, up to the first that is refused.

* `Run.startedOf_steps`: the steps that are told to start are those that are launched;
* `Exit.ShowsRun`: what the dry run shows of the run;
* `Program.run_dry_shows_run`: it does so for every command line and on every host.
-/

namespace SuiteDriver

/-! ## 1. The steps that are told to start -/

/-- The step that an event tells to start. -/
def Event.started? : Event → Option Step
  | .said (.stepStarted s) => some s
  | _ => none

/-- The steps that events tell to start, in order. -/
def startedOf (events : List Event) : List Step := events.filterMap Event.started?

theorem startedOf_append (xs ys : List Event) :
    startedOf (xs ++ ys) = startedOf xs ++ startedOf ys :=
  List.filterMap_append

namespace Run

theorem startedOf_artifactEvents (variant : Variant) (dir : String) (files : FileSystem)
    (s : Step) : startedOf (artifactEvents variant dir files s) = [] :=
  filterMap_artifactEvents (fun _ _ => rfl) (fun _ => rfl) (fun _ => rfl) ..

/-- **The steps that are told to start are those that are launched**, in the same order. -/
theorem startedOf_steps (variant : Variant) (mode : LaunchMode) (dir : String)
    (launcher : Launcher) (p : Progress) (ss : List Step) :
    startedOf (steps variant mode dir launcher p ss).events =
      (launchesOf (steps variant mode dir launcher p ss).events).map Launch.step := by
  induction ss generalizing p with
  | nil => rfl
  | cons s ss ih =>
    cases h : (launcher p.launches p.files (s.launch mode dir)).status with
    | error e =>
      rw [steps_cons_of_error variant mode dir launcher h]
      rfl
    | ok code =>
      rw [steps_cons_of_ok variant mode dir launcher rfl h]
      refine Eq.trans ?_ (congrArg (List.map Launch.step) (launchesOf_step ..)).symm
      rw [List.map_cons, ← ih]
      show s :: startedOf (artifactEvents variant dir _ s ++ _) = s :: _
      rw [startedOf_append, startedOf_artifactEvents, List.nil_append]

end Run

/-! ## 2. Lines with commands -/

theorem Message.text_stepStarting (language : Language) (label command : String) :
    (Message.stepStarting label command).text language = label ++ ": " ++ command := by
  have htemplate : (Message.stepStarting label command).template language =
      "%\x7blabel\x7d: %\x7bcommand\x7d" := by
    cases language <;> rfl
  rw [← String.toList_inj]
  unfold text Template.fill
  rw [htemplate]
  simp [Template.fillFrom, Template.valueAt, values, List.lookup_cons]

namespace Console

/-- The line that tells a step to start ends with the step's command. -/
theorem Line.body_stepStarted (language : Language) (s : Step) :
    (Line.stepStarted s).body language = s.kind.label language ++ ": " ++ s.command.line :=
  Message.text_stepStarting ..

/-- Planned commands are numbered in the order of the steps. -/
theorem map_body_plannedLines (language : Language) (n : Nat) (ss : List Step) :
    (plannedLines n ss).map (Line.body language) =
      ss.mapIdx fun i s => "  " ++ toString (i + n) ++ ". " ++ s.command.line := by
  induction ss generalizing n with
  | nil => rfl
  | cons s ss ih =>
    rw [plannedLines, List.map_cons, ih, List.mapIdx_cons, Nat.zero_add]
    simp only [Nat.add_assoc, Nat.add_comm 1]
    rfl

end Console

/-- A record of the log shows nothing. -/
theorem outputOf_logged (language : Language) (colours : Bool) (r : Log.Record)
    (events : List Event) :
    outputOf language colours (.logged r :: events) = outputOf language colours events :=
  (outputOf_append language colours [.logged r] events).trans String.empty_append

/-! ## 3. A setup that is shown and one that is run -/

namespace RunCommand

/-- All of it is told in one language. -/
theorem language_carryOut (s : Surroundings) (launcher : Launcher) (language : Language)
    (dryRun : Bool) (setup : Setup) :
    (carryOut s launcher language dryRun setup).language = language := by
  unfold carryOut
  cases dryRun with
  | true => rfl
  | false =>
    simp only [Bool.false_eq_true, ↓reduceIte]
    cases (Run.ofPlan setup.plan setup.root launcher s.files).result <;> rfl

/-- What comes before a run and after it tells no step to start. -/
theorem startedOf_carryOut (s : Surroundings) (launcher : Launcher) (language : Language)
    (setup : Setup) :
    startedOf (carryOut s launcher language false setup).events =
      (launchesOf (carryOut s launcher language false setup).events).map Launch.step := by
  have hrun : startedOf (Run.ofPlan setup.plan setup.root launcher s.files).events = _ :=
    Run.startedOf_steps ..
  rw [launchesOf_carryOut]
  unfold carryOut
  simp only [Bool.false_eq_true, ↓reduceIte]
  cases (Run.ofPlan setup.plan setup.root launcher s.files).result with
  | error f => exact hrun
  | ok report =>
    simp only
    rw [List.append_assoc, startedOf_append, startedOf_append, hrun]
    exact List.append_nil _

/-- The steps that are launched are the first ones of the plan. -/
theorem launchedSteps_carryOut (s : Surroundings) (launcher : Launcher) (language : Language)
    (setup : Setup) :
    (launchesOf (carryOut s launcher language false setup).events).map Launch.step =
      setup.plan.steps.take
        (firstRefusal (launcher.answers [] s.files (setup.plan.launches setup.root)) + 1) := by
  rw [launchesOf_carryOut, if_neg Bool.false_ne_true, Run.launchesOf_ofPlan, List.map_take]
  unfold Plan.launches
  rw [List.map_map]
  exact congrArg _ (List.map_id _)

end RunCommand

/-- The block that a setup is told with. -/
def Setup.lines (setup : Setup) : List Console.Line :=
  Console.setupLines setup.root setup.configPath setup.plan

/-- **A dry run that shows what a run does**, where both found the same setup. -/
structure Exit.ShowsRun (h : Host) (setup : Setup) (dry real : Exit) : Prop where
  /-- Both tell the setup first, and the dry run then the plan. -/
  told : ∃ before after, (∀ e ∈ before, ∃ record, e = .logged record) ∧
    dry.events = before ++ setup.lines.map .said ++ (Console.planLines setup.plan).map .said ∧
    real.events = before ++ setup.lines.map .said ++ after
  alike : dry.language = real.language ∧ dry.colours = real.colours
  /-- Both show the setup first, and the dry run then the plan and nothing else. -/
  shown : ∃ rest,
    dry.stdout = Console.renderAll dry.language dry.colours setup.lines ++
      Console.renderAll dry.language dry.colours (Console.planLines setup.plan) ∧
    real.stdout = Console.renderAll real.language real.colours setup.lines ++ rest
  entries : ∀ language, (Console.planLines setup.plan).map (Console.Line.body language) =
    Message.dryRunBanner.text language ::
      setup.plan.steps.mapIdx fun i s => "  " ++ toString (i + 1) ++ ". " ++ s.command.line
  idle : dry.launches = [] ∧ dry.files = h.files ∧ dry.status = Program.success
  /-- The run launches the commands of the plan in order, up to some step. -/
  launched : real.launches.map (·.step.command) <+: setup.plan.steps.map Step.command
  complete : (∀ a ∈ h.launcher.answers [] h.files (setup.plan.launches setup.root),
      ∃ code, a.status = .ok code) →
    real.launches.map (·.step.command) = setup.plan.steps.map Step.command
  /-- Every launch is told before, in the order of the plan and with the text that the plan shows
  for it. -/
  started : startedOf real.events = real.launches.map Launch.step ∧
    ∀ (k : Nat) (s : Step), (startedOf real.events)[k]? = some s → setup.plan.steps[k]? = some s ∧
      ∀ language, (Console.Line.stepStarted s).body language =
        s.kind.label language ++ ": " ++ s.command.line

namespace Program

open CommandLine

/-- What is shown where a setup is told first. -/
theorem stdout_performed (h : Host) (first : Language) (verbose : Bool) {setup : Setup}
    {p : Performance (Option Report)} {rest : List Event}
    (hp : p.events = RunCommand.setupEvents setup ++ rest) :
    let x := performed h first verbose runStatus p
    x.stdout = Console.renderAll x.language x.colours setup.lines ++
      outputOf x.language x.colours rest := by
  intro x
  have hevents : x.events = .logged (Log.languageChosen first.tag) ::
      (RunCommand.setupEvents setup ++ rest) := congrArg _ hp
  unfold Exit.stdout
  rw [hevents, outputOf_logged, outputOf_append, RunCommand.setupEvents, outputOf_logged,
    outputOf_said]
  exact String.empty_append

/-- **One setup, shown and run.** -/
theorem showsRun_carryOut (h : Host) (first chosen : Language) (verbose : Bool) (setup : Setup) :
    Exit.ShowsRun h setup
      (performed h first verbose runStatus
        (RunCommand.carryOut h.surroundings h.launcher chosen true setup))
      (performed h first verbose runStatus
        (RunCommand.carryOut h.surroundings h.launcher chosen false setup)) := by
  set ran := RunCommand.carryOut h.surroundings h.launcher chosen false setup
  have hsteps : (launchesOf ran.events).map Launch.step = setup.plan.steps.take
      (firstRefusal (h.launcher.answers [] h.files (setup.plan.launches setup.root)) + 1) :=
    RunCommand.launchedSteps_carryOut ..
  have hstarted : startedOf ran.events = (launchesOf ran.events).map Launch.step :=
    RunCommand.startedOf_carryOut ..
  have hcommands : (launchesOf ran.events).map (·.step.command) =
      ((launchesOf ran.events).map Launch.step).map Step.command := by
    rw [List.map_map]
    rfl
  obtain ⟨after, hafter⟩ := carryOut_events h.surroundings h.launcher chosen false setup
  exact {
    told := by
      refine ⟨[.logged _, .logged _], after, ?_, rfl, congrArg (_ :: ·) hafter⟩
      rintro e he
      rcases List.mem_pair.mp he with rfl | rfl
      · exact ⟨_, rfl⟩
      · exact ⟨_, rfl⟩
    alike := ⟨(RunCommand.language_carryOut ..).trans (RunCommand.language_carryOut ..).symm, rfl⟩
    shown := by
      refine ⟨_, ?_, stdout_performed h first verbose hafter⟩
      rw [stdout_performed h first verbose rfl, outputOf_said]
    entries language := by
      rw [Console.planLines, List.map_cons, Console.map_body_plannedLines]
      rfl
    idle := ⟨RunCommand.launchesOf_carryOut .., rfl, rfl⟩
    launched := by
      show (launchesOf ran.events).map _ <+: _
      rw [hcommands, hsteps]
      exact (List.take_prefix ..).map _
    complete hall := by
      show (launchesOf ran.events).map _ = _
      rw [hcommands, hsteps, List.take_of_length_le]
      rw [firstRefusal_eq_length hall, Launcher.length_answers, Plan.launches, List.length_map]
      exact Nat.le_succ _
    started := by
      refine ⟨hstarted, fun k s hs => ⟨?_, fun language => Console.Line.body_stepStarted ..⟩⟩
      have htaken : (startedOf ran.events)[k]? = some s := hs
      rw [hstarted, hsteps, List.getElem?_take] at htaken
      split at htaken
      · exact htaken
      · cases htaken }

/-- In front of words that are accepted, without the flag, the flag for a dry run is accepted. -/
theorem parse_dryRun_cons {words : List String} {a : Args} (hparse : parse words = .ok a)
    (hreal : a.dryRun = false) :
    parse ("--dry-run" :: words) = .ok { a with dryRun := true } := by
  obtain ⟨w, hplaced, hsay, rfl, rfl⟩ := parse_eq_ok_iff.mp hparse
  have hnot : Item.flag .dryRun ∉ said w.outer := by
    rw [Arrangement.args_eq] at hreal
    exact of_decide_eq_false hreal
  have hsaid : said (.long .dryRun :: w.outer) = .flag .dryRun :: said w.outer := said_cons ..
  refine parse_eq_ok_iff.mpr ⟨⟨.long .dryRun :: w.outer, w.inner, w.closed⟩,
    ⟨List.forall_mem_cons.mpr ⟨by decide, hplaced.outer⟩, hplaced.inner⟩, ⟨?_, hsay.inner⟩, ?_, ?_⟩
  · have hadd : Sayable (said w.outer ++ [.flag .dryRun]) :=
      hsay.outer.append_singleton_iff.mpr ⟨mt flag_mem_names.mp hnot, by decide⟩
    rw [hsaid]
    exact hadd.perm (List.perm_append_singleton ..).symm
  · have hword : Spelling.words (.long .dryRun) = ["--dry-run"] := by decide
    rw [Arrangement.words, Arrangement.words, written_cons, hword]
    rfl
  · have hvalue (o : Opt) :
        valueOf? o (.flag .dryRun :: said w.outer) = valueOf? o (said w.outer) := rfl
    rw [Arrangement.args_eq, Arrangement.args_eq]
    simp [hsaid, hvalue]

/-- The default command speaks the language that is asked for. -/
theorem run_of_asked_default {h : Host} {words : List String} {a : Args}
    (hparse : parse words = .ok a) (hdefault : a.init = none) :
    run h words =
      performed h (Language.choose h.env a.language) a.verbose runStatus
        (RunCommand.execute h.surroundings h.launcher (Language.choose h.env a.language)
          (runOptions a)) := by
  rw [run_of_default hparse hdefault, requestedLanguage_of_default hparse hdefault]

/-- **A dry run shows what the run does.** Beside every command line that is accepted without the
    flag for it there is one with the flag. Where a stage of the setup fails, both end with that
    fault and are the same in all else; where all succeed, the dry run shows what the run does. One
    of the two is so. -/
theorem run_dry_shows_run (h : Host) (words : List String) (a : Args)
    (hparse : parse words = .ok a) (hdefault : a.init = none) (hreal : a.dryRun = false) :
    parse ("--dry-run" :: words) = .ok { a with dryRun := true } ∧
    ∀ dryWords, parse dryWords = .ok { a with dryRun := true } →
      let real := run h words
      let dry := run h dryWords
      let language := Language.choose h.env a.language
      (∀ e, Setup.Refused h.surroundings language (runOptions a) e →
        dry = real ∧ real.status = failure ∧ real.complaint = e.complaint) ∧
      (∀ setup, Setup.Finds h.surroundings language (runOptions a) setup →
        Exit.ShowsRun h setup dry real) ∧
      ((∃ e, Setup.Refused h.surroundings language (runOptions a) e) ∨
        ∃ setup, Setup.Finds h.surroundings language (runOptions a) setup) := by
  refine ⟨parse_dryRun_cons hparse hreal, fun dryWords hdry => ?_⟩
  -- the setup does not look at the flag
  have hprepare (language : Language) :
      Setup.prepare h.surroundings language (runOptions { a with dryRun := true }) =
        Setup.prepare h.surroundings language (runOptions a) := rfl
  rw [run_of_asked_default hparse hdefault, run_of_asked_default hdry hdefault]
  unfold RunCommand.execute
  rw [hprepare]
  refine ⟨fun e he => ?_, fun setup hfinds => ?_, (Setup.finds_or_refused ..).symm⟩
  · obtain ⟨chosen, hchosen⟩ := Setup.prepare_of_refused he
    rw [hchosen]
    exact ⟨rfl, rfl, rfl⟩
  · obtain ⟨chosen, hchosen⟩ := Setup.finds_iff.mp hfinds
    rw [hchosen]
    dsimp only [runOptions]
    rw [hreal]
    exact showsRun_carryOut ..

/-- On a host without any file that refuses the third launch, the dry run launches nothing and the
    run a part of the plan. A project directory that is not there ends both in the same way. -/
theorem run_dry_shows_run_refused_third :
    let host : Host := ⟨[], ⟨[], [], none⟩, Rehearsal.Script.launcher
      [⟨[], [], .ok (some 2)⟩, ⟨[], [], .ok none⟩, ⟨[], [], .error (.code 13)⟩]⟩
    ((run host ["--dry-run"]).launches = [] ∧
      (run host []).launches.map (·.step.command) <+: (Variant.plan .jar).steps.map Step.command) ∧
    run host ["--project-dir=gone", "--dry-run"] = run host ["--project-dir", "gone"] := by
  intro host
  have hprepare : Setup.prepare host.surroundings .english ⟨none, none, none, false, false⟩ =
      (.english, .ok ⟨"/", none, Variant.plan .jar⟩) := by
    simp only [Setup.prepare, Host.surroundings, host, Option.getD_none, ProjectDir.resolve_point]
    rfl
  have hgone : ProjectDir.resolve [] ⟨[], [], none⟩ .english "gone" "." =
      .error ⟨[(.english, .projectDirNotFound "./gone")], .system (.code 2)⟩ := by
    unfold ProjectDir.resolve
    rw [Expand.full_of_plain [] none (by simp) (by simp)]
    rfl
  obtain ⟨-, hdry⟩ := run_dry_shows_run host [] ⟨none, false, none, none, none, false, none⟩
    rfl rfl rfl
  obtain ⟨-, hdry'⟩ := run_dry_shows_run host ["--project-dir", "gone"]
    ⟨none, false, some "gone", none, none, false, none⟩ rfl rfl rfl
  have hshows := (hdry ["--dry-run"] rfl).2.1 _ (Setup.finds_iff.mpr ⟨_, hprepare⟩)
  exact ⟨⟨hshows.idle.1, hshows.launched⟩,
    ((hdry' ["--project-dir=gone", "--dry-run"] rfl).1 _ (.search _ hgone)).1⟩

end Program

end SuiteDriver

import SuiteDriver.Proofs.SideBySide

/-!
# The mode in which steps are launched

A step is started and then awaited, or launched by one call that returns when it has ended. To a
launcher that makes no difference between the two, a plan in one mode is the same as in the other:
the same is launched in the same order, shown and reported. So the two variants that build the
archive differ only in the line that names them.

* `Launcher.IgnoresMode`: launchers that make no difference;
* `Run.ofPlan_sameButMode`: two plans of the same steps, each in its own mode;
* `Setup.prepare_variants`: what two setups for different variants have in common;
* `Program.run_hides_launch_mode`: the mode is not seen in a run, nor in the program.
-/

namespace SuiteDriver

/-! ## 1. Launchers that do not look at the mode -/

/-- The launch in a mode. -/
def Launch.inMode (mode : LaunchMode) (l : Launch) : Launch := { l with mode := mode }

/-- **The launcher makes no difference between the modes**: if all launches are made in some mode,
    each comes to the same, in whatever time. -/
def Launcher.IgnoresMode (launcher : Launcher) : Prop :=
  ∀ mode earlier files l, Answer.Same Eq (launcher earlier files l)
    (launcher (earlier.map (Launch.inMode mode)) files (l.inMode mode))

theorem Launcher.IgnoresMode.answers {launcher : Launcher} (h : launcher.IgnoresMode)
    (mode : LaunchMode) (earlier ls : List Launch) (files : FileSystem) :
    List.Forall₂ (Answer.Same Eq) (launcher.answers earlier files ls)
      (launcher.answers (earlier.map (Launch.inMode mode)) files
        (ls.map (Launch.inMode mode))) := by
  induction ls generalizing earlier files with
  | nil => exact .nil
  | cons l ls ih =>
    have hhead := h mode earlier files l
    refine .cons hhead ?_
    rw [← hhead.files]
    have hrest := ih (earlier ++ [l]) (launcher earlier files l).files
    rwa [List.map_append] at hrest

/-- Scripted tools make no difference. -/
theorem Rehearsal.Script.launcher_ignoresMode (script : Script) : script.launcher.IgnoresMode := by
  intro mode earlier files l
  unfold launcher
  rw [List.length_map]
  exact ⟨rfl, rfl, rfl⟩

/-- The launches of the same steps in two modes. -/
theorem Plan.launches_inMode {p q : Plan} (hsteps : q.steps = p.steps) (dir : String) :
    (p.launches dir).map (Launch.inMode q.mode) = q.launches dir := by
  unfold launches
  rw [List.map_map, hsteps]
  rfl

/-! ## 2. Runs in two modes -/

/-- What the runs of two plans show, and how they end, is the same but for durations; they launch
    the same, each in its own mode, and leave the same files. -/
structure Run.SameButMode (mode : LaunchMode) (x y : Run) : Prop where
  launches : (launchesOf x.events).map (Launch.inMode mode) = launchesOf y.events
  shown : ∀ language colours, outputOf language colours (x.events.map Event.untimed) =
    outputOf language colours (y.events.map Event.untimed)
  result : x.result.map Report.untimed = y.result.map Report.untimed
  files : x.files = y.files

/-- **Two plans of the same steps that look for the same artifact come to the same** by a launcher
    that makes no difference between modes. -/
theorem Run.ofPlan_sameButMode {launcher : Launcher} (h : launcher.IgnoresMode) {p q : Plan}
    (hsteps : q.steps = p.steps) (hpath : p.variant.classpath = q.variant.classpath)
    (dir : String) (files : FileSystem) :
    (ofPlan p dir launcher files).SameButMode q.mode (ofPlan q dir launcher files) := by
  have hanswers := h.answers q.mode [] (p.launches dir) files
  rw [p.launches_inMode hsteps] at hanswers
  have hseen (language : Language) (colours : Bool) :
      (ofPlan p dir launcher files).Resembles (Event.output language colours) Eq
        (ofPlan q dir launcher files) := by
    unfold ofPlan
    rw [hsteps]
    refine steps_resemble _ ?_ (fun s _ a b hab => ?_) rfl rfl ?_
    · exact fun _ => rfl
    · exact artifactEvents_congr hpath (by rw [hab]) s
    · unfold Plan.launches at hanswers
      rwa [hsteps] at hanswers
  refine ⟨?_, fun language colours => congrArg String.join (hseen language colours).events,
    (hseen .english false).result, (hseen .english false).files⟩
  rw [launchesOf_ofPlan, launchesOf_ofPlan, List.map_take, p.launches_inMode hsteps,
    firstRefusal_eq_of_same hanswers]
  rfl

/-! ## 3. Setups for two variants -/

/-- **Two setups that are asked for different variants** fail in the same way, or find the same
    root and the same configuration, and a plan each. -/
theorem Setup.prepare_variants (s : Surroundings) (language : Language) (options : RunOptions)
    (v w : Option Variant) :
    (∃ chosen e, prepare s language { options with variant := v } = (chosen, .error e) ∧
      prepare s language { options with variant := w } = (chosen, .error e)) ∨
    ∃ chosen root source configured,
      prepare s language { options with variant := v } =
        (chosen, .ok ⟨root, source, (v.getD configured).plan⟩) ∧
      prepare s language { options with variant := w } =
        (chosen, .ok ⟨root, source, (w.getD configured).plan⟩) := by
  have hchoose (u : Option Variant) (l : Language) (config : Config) (source : Option String)
      (dir : String) : chooseRoot s l { options with variant := u } config source dir =
        chooseRoot s l options config source dir := rfl
  have hlanguage (u : Option Variant) (config : Config) :
      configLanguage s language { options with variant := u } config =
        configLanguage s language options config := rfl
  unfold prepare
  simp only [hchoose, hlanguage]
  cases ProjectDir.resolve s.env s.files language (options.projectDir.getD ".") "." with
  | error e => exact Or.inl ⟨_, _, rfl, rfl⟩
  | ok dir =>
    simp only
    cases ConfigFile.discover s.files language options.config dir with
    | error e => exact Or.inl ⟨_, _, rfl, rfl⟩
    | ok found =>
      simp only
      cases chooseRoot s (configLanguage s language options found.1) options found.1 found.2
        dir with
      | error e => exact Or.inl ⟨_, _, rfl, rfl⟩
      | ok root => exact Or.inr ⟨_, _, _, found.1.variant, rfl, rfl⟩

/-! ## 4. The program in two modes -/

/-- **Two programs that differ in the line that names the variant**: they launch the same commands
    in the same directory, each in its own mode, and end alike; all else that they show is the same
    but for durations. -/
structure Exit.SameButVariant (root : String) (source : Option String) (v w : Variant)
    (x y : Exit) : Prop where
  launches : x.launches.map (Launch.inMode w.launchMode) = y.launches
  status : x.status = y.status
  complaint : x.complaint = y.complaint
  files : x.files = y.files
  shown : ∃ rest,
    x.untimed.stdout = Console.renderAll x.language x.colours
      [.projectRoot root, .configSource source, .variantChosen v v.launchMode] ++ rest ∧
    y.untimed.stdout = Console.renderAll x.language x.colours
      [.projectRoot root, .configSource source, .variantChosen w w.launchMode] ++ rest

namespace RunCommand

/-- Two variants that run the same steps and look for the same artifact, carried out: what they
    launch and tell after the setup, and how they end. -/
theorem carryOut_sameButMode {launcher : Launcher} (hignores : launcher.IgnoresMode)
    {a b : Setup} (hsteps : b.plan.steps = a.plan.steps)
    (hpath : a.plan.variant.classpath = b.plan.variant.classpath) (hroot : a.root = b.root)
    (s : Surroundings) (language : Language) (dryRun : Bool) :
    let p := carryOut s launcher language dryRun a
    let q := carryOut s launcher language dryRun b
    (launchesOf p.events).map (Launch.inMode b.plan.mode) = launchesOf q.events ∧
    p.result.map (Option.map Report.untimed) = q.result.map (Option.map Report.untimed) ∧
    p.files = q.files ∧
    ∃ rest rest', p.events = setupEvents a ++ rest ∧ q.events = setupEvents b ++ rest' ∧
      ∀ language colours, outputOf language colours (rest.map Event.untimed) =
        outputOf language colours (rest'.map Event.untimed) := by
  intro p q
  cases dryRun with
  | true =>
    have hlines : Console.planLines a.plan = Console.planLines b.plan := by
      unfold Console.planLines
      rw [hsteps]
    refine ⟨?_, rfl, rfl, _, _, rfl, rfl, fun _ _ => by rw [hlines]⟩
    rw [launchesOf_carryOut, launchesOf_carryOut]
    rfl
  | false =>
    have hrun := Run.ofPlan_sameButMode hignores hsteps hpath a.root s.files
    obtain ⟨hclosing, hended⟩ := closing_and_ended_congr hrun.result language
    have hp : p = _ := carryOut_eq s launcher language a
    have hq : q = _ := carryOut_eq s launcher language b
    rw [← hroot] at hq
    refine ⟨?_, by rw [hp, hq]; exact hended, by rw [hp, hq]; exact hrun.files, _, _,
      (congrArg _ hp).trans (List.append_assoc ..), (congrArg _ hq).trans (List.append_assoc ..),
      fun language colours => ?_⟩
    · rw [launchesOf_carryOut, launchesOf_carryOut, ← hroot]
      exact hrun.launches
    · rw [List.map_append, List.map_append, outputOf_append, outputOf_append, hrun.shown, hclosing]

end RunCommand

namespace Program

open CommandLine

/-- Two variants that run the same steps and look for the same artifact, in one setup. -/
theorem performed_sameButVariant {h : Host} (hignores : h.launcher.IgnoresMode) {v w : Variant}
    (hsteps : w.plan.steps = v.plan.steps) (hpath : v.classpath = w.classpath) (root : String)
    (source : Option String) (first language : Language) (verbose dryRun : Bool) :
    Exit.SameButVariant root source v w
      (performed h first verbose runStatus
        (RunCommand.carryOut h.surroundings h.launcher language dryRun ⟨root, source, v.plan⟩))
      (performed h first verbose runStatus
        (RunCommand.carryOut h.surroundings h.launcher language dryRun
          ⟨root, source, w.plan⟩)) := by
  have hcommon := RunCommand.carryOut_sameButMode hignores (a := ⟨root, source, v.plan⟩)
    (b := ⟨root, source, w.plan⟩) hsteps hpath rfl h.surroundings language dryRun
  have hlanguage (u : Variant) : (RunCommand.carryOut h.surroundings h.launcher language dryRun
      ⟨root, source, u.plan⟩).language = language := RunCommand.language_carryOut ..
  have hv := hlanguage v
  have hw := hlanguage w
  generalize RunCommand.carryOut h.surroundings h.launcher language dryRun
    ⟨root, source, v.plan⟩ = p at hcommon hv ⊢
  generalize RunCommand.carryOut h.surroundings h.launcher language dryRun
    ⟨root, source, w.plan⟩ = q at hcommon hw ⊢
  obtain ⟨hlaunches, hresult, hfiles, rest, rest', hp, hq, hrest⟩ := hcommon
  obtain ⟨hstatus, hcomplaint⟩ :=
    performed_ends (h := h) (k := h) hresult first first verbose verbose
  have hx := stdout_untimed_performed h first verbose hp
  have hy := stdout_untimed_performed h first verbose hq
  rw [hv] at hx
  rw [hw, ← hrest] at hy
  refine ⟨hlaunches, hstatus, hcomplaint, hfiles,
    outputOf language (Console.coloursWanted h.env) (rest.map Event.untimed), ?_, ?_⟩
  · show _ = Console.renderAll p.language (Console.coloursWanted h.env) _ ++ _
    rw [hv]
    exact hx
  · show _ = Console.renderAll p.language (Console.coloursWanted h.env) _ ++ _
    rw [hv]
    exact hy

/-- **The mode in which steps are launched is not seen**, where the launcher makes no difference
    between the modes. Two plans that are the same but for the mode launch the same in the same
    order, show the same and report the same, but for durations, on all files and in every
    language. A program that is asked for the variant that blocks and one that is asked for the
    archive, and for the same in all else, fail in the same way or find the same setup; and then
    they launch the same commands in the same directory, end alike, and show the same but for
    durations and the line that names the variant. -/
theorem run_hides_launch_mode (launcher : Launcher) (hignores : launcher.IgnoresMode) :
    (∀ (plan : Plan) (mode : LaunchMode) (dir : String) (files : FileSystem),
      let x := Run.ofPlan plan dir launcher files
      let y := Run.ofPlan { plan with mode := mode } dir launcher files
      x.SameButMode mode y) ∧
    ∀ (env : Environment) (files : FileSystem) (words otherWords : List String) (a : Args)
      (v w : Option Variant), a.init = none → parse words = .ok { a with variant := v } →
      parse otherWords = .ok { a with variant := w } →
      let h : Host := ⟨env, files, launcher⟩
      let x := run h words
      let y := run h otherWords
      let language := Language.choose env a.language
      let options (u : Option Variant) : RunOptions := { runOptions a with variant := u }
      (∃ e, Setup.Refused h.surroundings language (options v) e ∧
        Setup.Refused h.surroundings language (options w) e ∧ x = y ∧ x.launches = []) ∨
      ∃ root source configured,
        Setup.Finds h.surroundings language (options v)
          ⟨root, source, (v.getD configured).plan⟩ ∧
        Setup.Finds h.surroundings language (options w)
          ⟨root, source, (w.getD configured).plan⟩ ∧
        (v.getD configured = .sync → w.getD configured = .jar →
          Exit.SameButVariant root source .sync .jar x y) := by
  refine ⟨fun plan mode dir files =>
    Run.ofPlan_sameButMode hignores (p := plan) (q := { plan with mode := mode }) rfl rfl dir files,
    ?_⟩
  intro env files words otherWords a v w hdefault hparse hother h x y language options
  have hx : x = performed h language a.verbose runStatus
      (RunCommand.execute h.surroundings launcher language (options v)) :=
    run_of_asked_default hparse hdefault
  have hy : y = performed h language a.verbose runStatus
      (RunCommand.execute h.surroundings launcher language (options w)) :=
    run_of_asked_default hother hdefault
  unfold RunCommand.execute options at hx hy
  rcases Setup.prepare_variants h.surroundings language (runOptions a) v w with
    ⟨chosen, e, hv, hw⟩ | ⟨chosen, root, source, configured, hv, hw⟩
  · rw [hv] at hx
    rw [hw] at hy
    refine Or.inl ⟨e, Setup.refused_iff.mpr ⟨chosen, hv⟩, Setup.refused_iff.mpr ⟨chosen, hw⟩,
      hx.trans hy.symm, ?_⟩
    rw [hx]
    rfl
  · refine Or.inr ⟨root, source, configured, Setup.finds_iff.mpr ⟨chosen, hv⟩,
      Setup.finds_iff.mpr ⟨chosen, hw⟩, fun hsync hjar => ?_⟩
    rw [hv, hsync] at hx
    rw [hw, hjar] at hy
    rw [hx, hy]
    exact performed_sameButVariant (h := h) (v := .sync) (w := .jar) hignores rfl rfl root source
      language chosen a.verbose a.dryRun

/-- On a host without any file whose tools answer seven, nothing and a refusal: the third launch is
    refused in both modes, and the variants that are asked for on the command line end alike. -/
theorem run_hides_launch_mode_refused_third :
    let script : Rehearsal.Script :=
      [⟨[], [], .ok (some 7)⟩, ⟨[], [], .ok none⟩, ⟨[], [], .error (.code 13)⟩]
    let host : Host := ⟨[], ⟨[], [], none⟩, script.launcher⟩
    (Run.ofPlan (Variant.plan .compile) "/" script.launcher ⟨[], [], none⟩).SameButMode .blocking
      (Run.ofPlan { Variant.plan .compile with mode := .blocking } "/" script.launcher ⟨[], [], none⟩) ∧
    Exit.SameButVariant "/" none .sync .jar (run host ["--variant", "sync"]) (run host []) := by
  intro script host
  obtain ⟨hplans, hwords⟩ := run_hides_launch_mode script.launcher script.launcher_ignoresMode
  refine ⟨hplans _ _ _ _, ?_⟩
  have hfinds : Setup.Finds host.surroundings .english ⟨none, none, none, false, false⟩
      ⟨"/", none, Variant.plan .jar⟩ := by
    refine Setup.finds_iff.mpr ⟨.english, ?_⟩
    simp only [Setup.prepare, Host.surroundings, host, Option.getD_none, ProjectDir.resolve_point]
    rfl
  rcases hwords [] ⟨[], [], none⟩ ["--variant", "sync"] [] ⟨none, false, none, none, none, false, none⟩
    (some .sync) none rfl rfl rfl with ⟨e, -, he, -⟩ | ⟨root, source, configured, -, hjar, hshown⟩
  · exact absurd hfinds (Setup.refused_iff_finds_nothing.mp ⟨e, he⟩ _)
  · have hsame := hjar.unique hfinds
    rw [Setup.mk.injEq] at hsame
    obtain ⟨rfl, rfl, hplan⟩ := hsame
    exact hshown rfl (congrArg Plan.variant hplan)

end Program

end SuiteDriver

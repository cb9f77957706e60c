import SuiteDriver.Proofs.Initialised
import SuiteDriver.Proofs.ReadBack
import SuiteDriver.Proofs.SideBySide

/-!
# A run before a configuration was written, and one after

The configuration that is written for a start says what no configuration says. So the run after it
was written finds the same setup as the run before, but for the source of the configuration. Tools
that answer alike are launched alike, and only two lines can differ: the one that names the source,
and the one about a missing artifact, which each run shows by a test of its own: what was written
may be just what the test finds.

* `ConfigFile.parse_standardText`: what the written configuration says;
* `Setup.prepare_of_free`, `Setup.prepare_of_written`: the setup before and after;
* `Run.ofPlan_sameButArtifact`: two runs whose tests for the artifact may differ;
* `Program.init_is_neutral`: the two runs as the program shows them.
-/

namespace SuiteDriver

open ConfigFile (standardPath standardText)
open ProjectDir (Names)

/-! ## 1. What the written configuration says -/

/-- A line with a comment and nothing else. -/
def Toml.Line.comment (text : String) (h : text.toList.all Toml.isPrintable = true) : Toml.Line :=
  .filler { Remark.nothing with comment := some ⟨text.toList, h⟩ }

/-- The name of the variant needs no quotes. -/
theorem Toml.isBareKey_variant :
    "variant".toList ≠ [] ∧ "variant".toList.all Toml.isBareKey = true := by decide

open Toml in
/-- The written configuration, line by line: comments, and a line for the variant. -/
def ConfigFile.standardDocument : Document :=
  [Line.comment " Configuration for sst-test-driver." (by decide),
    .filler Remark.nothing,
    .comment " Output language: \"en\" or \"zh-CN\". Defaults to the system locale." (by decide),
    .comment " language = \"en\"" (by decide),
    .filler Remark.nothing,
    .comment " Which variant to run:" (by decide),
    .comment "   \"jar\"     - make jar,  -cp sst.jar, spawn then wait" (by decide),
    .comment "   \"compile\" - make java, -cp bin,     spawn then wait" (by decide),
    .comment "   \"sync\"    - make jar,  -cp sst.jar, blocking launches" (by decide),
    .setting (.plain "variant" "jar" isBareKey_variant) Remark.nothing,
    .filler Remark.nothing,
    .comment " Directory in which make and java are launched, relative to this file." (by decide),
    .comment " project_dir = \".\"" (by decide)].foldr
      (fun line rest => .more line .feed rest) (.last (.filler Remark.nothing))

theorem ConfigFile.ofList_standardDocument :
    String.ofList standardDocument.chars = standardText := by
  rw [← String.toList_inj, String.toList_ofList]
  unfold standardText
  simp only [String.toList_append]
  decide +kernel

/-- **The configuration that is written says what no configuration says.** -/
theorem ConfigFile.parse_standardText : Config.parse standardText = .ok Config.empty := by
  rw [← ofList_standardDocument]
  exact Config.parse_of_isWrittenBy (Or.inl (List.Perm.refl _))

/-! ## 2. The setup before and after -/

/-- What was written is found where it was written. -/
theorem ConfigFile.discover_of_write {files after : FileSystem} {dir : String}
    (h : files.write (standardPath dir) standardText = .ok after) (language : Language) :
    discover after language none dir = .ok (Config.empty, some (standardPath dir)) := by
  have hfile : after.isFile (standardPath dir) = true := by
    unfold FileSystem.isFile
    rw [FileSystem.node?_of_write h]
    rfl
  have hload : load after language (standardPath dir) = .ok Config.empty :=
    (load_eq_ok_iff language).mpr ⟨_, FileSystem.read_of_write h, parse_standardText⟩
  unfold discover
  dsimp only
  rw [← standardPath, hfile, hload]
  rfl

/-- A call that succeeds where nothing was has written it. -/
theorem Call.write_of_done {c : Call} {dir root : String} {force : Bool} {now : FileSystem}
    (launcher : Launcher) (hinits : c.Inits dir force) (hdir : Names c.env now "." dir root)
    (hfree : now.hasEntry (standardPath root) = false) (hdone : (c.exit launcher now).status = 0) :
    now.write (standardPath root) standardText = .ok (c.exit launcher now).files := by
  cases does_exit launcher hinits fun _ hr => hr.unique hdir with
  | failed _ hfailure =>
    rw [hdone] at hfailure
    cases hfailure
  | left _ hthere =>
    rw [hfree] at hthere
    cases hthere
  | written _ hwrite => exact hwrite

/-- Where nothing is, none is found. -/
theorem ConfigFile.discover_of_free {files : FileSystem} {dir : String}
    (h : files.hasEntry (standardPath dir) = false) (language : Language) :
    discover files language none dir = .ok (Config.empty, none) := by
  have hnone : files.node? (standardPath dir) = none :=
    Option.isNone_iff_eq_none.mp (Option.isSome_eq_false_iff.mp h)
  have hfile : files.isFile (standardPath dir) = false := by
    unfold FileSystem.isFile
    rw [hnone]
    rfl
  unfold discover
  dsimp only
  rw [← standardPath, hfile]
  rfl

namespace Setup

variable (s : Surroundings) (options : RunOptions) {root : String}

/-- Without a configuration the setup finds the plan of the variant that is asked for, or of the
    standard one. -/
theorem prepare_of_free (hconfig : options.config = none)
    (hnames : Names s.env s.files "." (options.projectDir.getD ".") root)
    (hfree : s.files.hasEntry (standardPath root) = false) (language : Language) :
    prepare s language options =
      (language, .ok ⟨root, none, (options.variant.getD .standard).plan⟩) := by
  have hdiscover : ConfigFile.discover s.files language options.config root =
      .ok (Config.empty, none) := by
    rw [hconfig]
    exact ConfigFile.discover_of_free hfree language
  exact prepare_of_stages
    ⟨ProjectDir.resolve_eq_ok_iff.mpr hnames, hdiscover, .searched (Or.inr rfl)⟩

/-- Where the standard text was written the setup finds the same, and where it was read. -/
theorem prepare_of_written (hconfig : options.config = none) {before : FileSystem}
    (hnames : Names s.env before "." (options.projectDir.getD ".") root)
    (hwrite : before.write (standardPath root) standardText = .ok s.files) (language : Language) :
    prepare s language options =
      (language,
        .ok ⟨root, some (standardPath root), (options.variant.getD .standard).plan⟩) := by
  have hdiscover : ConfigFile.discover s.files language options.config root =
      .ok (Config.empty, some (standardPath root)) := by
    rw [hconfig]
    exact ConfigFile.discover_of_write hwrite language
  exact prepare_of_stages
    ⟨ProjectDir.resolve_eq_ok_iff.mpr ((Call.Since.of_write hwrite).names _ _ _ _ hnames),
      hdiscover, .searched (Or.inr rfl)⟩

end Setup

/-! ## 3. Runs that test for the artifact -/

/-- The line that a test for the artifact leads to, if nothing is there. -/
def Event.missing? (classpath : String) : Event → Option Console.Line
  | .tested _ false => some (.artifactMissing classpath)
  | _ => none

/-- The lines that the tests among events lead to. -/
def missingOf (classpath : String) (events : List Event) : List Console.Line :=
  events.filterMap (Event.missing? classpath)

theorem missingOf_append (classpath : String) (xs ys : List Event) :
    missingOf classpath (xs ++ ys) = missingOf classpath xs ++ missingOf classpath ys :=
  List.filterMap_append

theorem missingOf_said (classpath : String) (lines : List Console.Line) :
    missingOf classpath (lines.map .said) = [] := by
  unfold missingOf
  rw [List.filterMap_map]
  exact List.filterMap_eq_nil_iff.mpr fun _ _ => rfl

namespace Run

/-- **What is shown after a test is what the test leads to.** -/
theorem outputOf_artifactEvents (language : Language) (colours : Bool) (variant : Variant)
    (dir : String) (files : FileSystem) (s : Step) :
    outputOf language colours ((artifactEvents variant dir files s).map Event.untimed) =
      Console.renderAll language colours
        (missingOf variant.classpath (artifactEvents variant dir files s)) := by
  cases hk : s.kind with
  | suite name =>
    rw [artifactEvents_of_suite variant dir files hk]
    rfl
  | build =>
    cases hp : files.hasEntry (Path.join dir variant.classpath) with
    | true =>
      rw [artifactEvents_of_present hk hp]
      rfl
    | false =>
      rw [artifactEvents_of_missing hk hp]
      exact outputOf_said language colours [.artifactMissing variant.classpath]

variable {v : Variant} {m : LaunchMode} {dir : String}

/-- No suite is followed by a test. -/
theorem missingOf_steps_of_suites (launcher : Launcher) (classpath : String) {ss : List Step}
    (hsuites : ∀ s ∈ ss, ∃ name, s.kind = .suite name) (p : Progress) :
    missingOf classpath (steps v m dir launcher p ss).events = [] := by
  induction ss generalizing p with
  | nil => rfl
  | cons s ss ih =>
    obtain ⟨⟨name, hname⟩, hrest⟩ := List.forall_mem_cons.mp hsuites
    cases h : (launcher p.launches p.files (s.launch m dir)).status with
    | error e =>
      rw [steps_cons_of_error v m dir launcher h]
      rfl
    | ok code =>
      rw [steps_cons_of_ok v m dir launcher rfl h, artifactEvents_of_suite v dir _ hname]
      exact ih hrest _

/-- All that is told of a step up to its end. -/
def toldToEnd (l : Launch) (a : Answer) (code : Option Int) : List Event :=
  startEvents l ++ .answered (.ok code) a.output :: eventsOfEnd ⟨l.step, code, a.elapsed⟩

/-- It depends on the duration in nothing else. -/
theorem map_untimed_toldToEnd (l : Launch) {a b : Answer} (houtput : a.output = b.output)
    (code : Option Int) :
    (toldToEnd l a code).map Event.untimed = (toldToEnd l b code).map Event.untimed := by
  unfold toldToEnd
  rw [List.map_append, List.map_append, List.map_cons, List.map_cons, houtput,
    map_untimed_eventsOfEnd l.step code a.elapsed b.elapsed]

/-- **What is shown of a step and then suites**: the step up to its end, what the test after it
    leads to, and the suites. -/
theorem outputOf_step_then_suites {launcher : Launcher} {p : Progress} {s : Step} {a : Answer}
    {code : Option Int} (ha : launcher p.launches p.files (s.launch m dir) = a)
    (hcode : a.status = .ok code) {ss : List Step}
    (hsuites : ∀ s ∈ ss, ∃ name, s.kind = .suite name) (language : Language) (colours : Bool) :
    let x := steps v m dir launcher p (s :: ss)
    let rest := steps v m dir launcher (p.after (s.launch m dir) a code) ss
    outputOf language colours (x.events.map Event.untimed) =
      outputOf language colours ((toldToEnd (s.launch m dir) a code).map Event.untimed) ++
        Console.renderAll language colours (missingOf v.classpath x.events) ++
        outputOf language colours (rest.events.map Event.untimed) := by
  intro x rest
  have hevents : x.events = toldToEnd (s.launch m dir) a code ++
      (artifactEvents v dir a.files s ++ rest.events) := by
    have hx : x = _ := steps_cons_of_ok v m dir launcher ha hcode ss
    rw [hx, toldToEnd]
    simp only [List.append_assoc, List.cons_append, rest]
    rfl
  have htold : missingOf v.classpath (toldToEnd (s.launch m dir) a code) = [] := rfl
  rw [hevents, missingOf_append, missingOf_append, htold,
    missingOf_steps_of_suites launcher v.classpath hsuites, List.nil_append, List.append_nil,
    List.map_append, List.map_append, outputOf_append, outputOf_append,
    outputOf_artifactEvents, String.append_assoc]

/-- **Two runs of a build and then suites, answered alike, differ in the test for the artifact
    only**: each shows what its own test leads to, at the same place. -/
theorem steps_sameButArtifact {L M : Launcher} {a b : FileSystem} {build : Step}
    {suites : List Step} (hsuites : ∀ s ∈ suites, ∃ name, s.kind = .suite name)
    (hanswers : List.Forall₂ (Answer.Same fun _ _ => True)
      (L.answers [] a ((build :: suites).map (Step.launch m dir)))
      (M.answers [] b ((build :: suites).map (Step.launch m dir))))
    (language : Language) (colours : Bool) :
    let x := steps v m dir L ⟨[], Report.empty, a⟩ (build :: suites)
    let y := steps v m dir M ⟨[], Report.empty, b⟩ (build :: suites)
    x.result.map Report.untimed = y.result.map Report.untimed ∧
    ∃ before after,
      outputOf language colours (x.events.map Event.untimed) =
        before ++ Console.renderAll language colours (missingOf v.classpath x.events) ++ after ∧
      outputOf language colours (y.events.map Event.untimed) =
        before ++ Console.renderAll language colours (missingOf v.classpath y.events) ++ after := by
  intro x y
  rw [List.map_cons, Launcher.answers, Launcher.answers] at hanswers
  obtain ⟨⟨hstatus, houtput, -⟩, hanswers⟩ := List.forall₂_cons.mp hanswers
  generalize hL : L [] a (build.launch m dir) = first at hstatus houtput hanswers
  generalize hM : M [] b (build.launch m dir) = second at hstatus houtput hanswers
  cases hcase : second.status with
  | error e =>
    -- the build is refused on both sides, and nothing is tested
    rw [hcase] at hstatus
    have hx : x = _ :=
      steps_cons_of_error v m dir L (p := ⟨[], Report.empty, a⟩) (hL ▸ hstatus) suites
    have hy : y = _ :=
      steps_cons_of_error v m dir M (p := ⟨[], Report.empty, b⟩) (hM ▸ hcase) suites
    rw [hL, houtput] at hx
    rw [hM] at hy
    rw [hx, hy]
    have hquiet (text : String) : text = text ++ Console.renderAll language colours [] ++ "" := by
      rw [String.append_empty]
      exact String.append_empty.symm
    exact ⟨rfl, _, "", hquiet _, hquiet _⟩
  | ok code =>
    rw [hcase] at hstatus
    have hrest := steps_resemble (v := v) (w := v) (Event.output language colours) (fun _ => rfl)
      (fun s hs a b _ => by
        obtain ⟨name, hname⟩ := hsuites s hs
        rw [artifactEvents_of_suite v dir a hname, artifactEvents_of_suite v dir b hname])
      (p := Progress.after ⟨[], Report.empty, a⟩ (build.launch m dir) first code)
      (q := Progress.after ⟨[], Report.empty, b⟩ (build.launch m dir) second code) rfl trivial
      hanswers
    have hx : x = _ := steps_cons_of_ok v m dir L (p := ⟨[], Report.empty, a⟩) hL hstatus suites
    have hy : y = _ := steps_cons_of_ok v m dir M (p := ⟨[], Report.empty, b⟩) hM hcase suites
    refine ⟨?_, _, _, outputOf_step_then_suites hL hstatus hsuites language colours, ?_⟩
    · rw [hx, hy]
      exact hrest.result
    · rw [map_untimed_toldToEnd _ houtput]
      have hshown := congrArg String.join hrest.events
      refine (outputOf_step_then_suites hM hcase hsuites language colours).trans ?_
      exact congrArg _ hshown.symm

end Run

/-- After the first step of a variant there are suites only. -/
theorem Variant.kind_of_mem_suites {v : Variant} {s : Step} (h : s ∈ v.plan.suites) :
    ∃ name, s.kind = .suite name := by
  obtain ⟨name, -, rfl⟩ := List.mem_map.mp h
  exact ⟨name, rfl⟩

/-- **The launches of a variant are answered alike** on files and on others. -/
def Launcher.AnswersAlike (launcher : Launcher) (variant : Variant) (root : String)
    (files others : FileSystem) : Prop :=
  List.Forall₂ (Answer.Same fun _ _ => True)
    (launcher.answers [] files (variant.plan.launches root))
    (launcher.answers [] others (variant.plan.launches root))

/-- Scripted tools that change no file answer alike on all files. -/
theorem Rehearsal.Script.launcher_alike_of_idle (script : Script)
    (h : ∀ r ∈ script, r.touch = [] ∧ r.remove = []) :
    Launcher.Alike (fun _ _ => True) script.launcher script.launcher := by
  have hanswer (n : Nat) : ∃ status, ∀ dir files,
      ((script[n]?).getD Response.standard).answer dir files =
        ⟨status, "", files, Duration.zero⟩ := by
    cases hr : script[n]? with
    | none => exact ⟨_, fun _ _ => rfl⟩
    | some r =>
      obtain ⟨htouch, hremove⟩ := h r (List.mem_of_getElem? hr)
      refine ⟨r.status, fun dir files => ?_⟩
      rw [Option.getD_some, Response.answer, htouch, hremove]
      rfl
  constructor
  · intro earlier a b l _
    obtain ⟨status, hstatus⟩ := hanswer earlier.length
    unfold launcher
    rw [hstatus, hstatus]
  · intro earlier a b l _
    obtain ⟨status, hstatus⟩ := hanswer earlier.length
    unfold launcher
    rw [hstatus, hstatus]
  · exact fun _ _ _ _ _ => trivial

/-- The runs of a variant on files and on others. -/
theorem Run.ofPlan_sameButArtifact {launcher : Launcher} {v : Variant} {root : String}
    {files others : FileSystem} (h : launcher.AnswersAlike v root files others)
    (language : Language) (colours : Bool) :
    let x := ofPlan v.plan root launcher files
    let y := ofPlan v.plan root launcher others
    launchesOf x.events = launchesOf y.events ∧
    x.result.map Report.untimed = y.result.map Report.untimed ∧
    ∃ before after,
      outputOf language colours (x.events.map Event.untimed) =
        before ++ Console.renderAll language colours (missingOf v.classpath x.events) ++ after ∧
      outputOf language colours (y.events.map Event.untimed) =
        before ++ Console.renderAll language colours (missingOf v.classpath y.events) ++ after := by
  refine ⟨?_, steps_sameButArtifact (fun _ => Variant.kind_of_mem_suites) h language colours⟩
  rw [launchesOf_ofPlan, launchesOf_ofPlan, firstRefusal_eq_of_same h]

/-! ## 4. The program before and after -/

/-- **Two programs that differ in the source of the configuration**, none and a file, and in what
    their own tests for the artifact come to: in one language they launch the same and end alike,
    and all else that they show is the same but for durations. -/
structure Exit.SameButSource (root path : String) (variant : Variant) (x y : Exit) : Prop where
  launches : x.launches = y.launches
  status : x.status = y.status
  complaint : x.complaint = y.complaint
  shown : ∃ before after,
    x.untimed.stdout = Console.renderAll x.language x.colours
        [.projectRoot root, .configSource none, .variantChosen variant variant.launchMode] ++
      (before ++ Console.renderAll x.language x.colours (missingOf variant.classpath x.events) ++
        after) ∧
    y.untimed.stdout = Console.renderAll x.language x.colours
        [.projectRoot root, .configSource (some path),
          .variantChosen variant variant.launchMode] ++
      (before ++ Console.renderAll x.language x.colours (missingOf variant.classpath y.events) ++
        after)

namespace RunCommand

/-- What follows a run tells nothing of the artifact. -/
theorem missingOf_closing (classpath : String) (result : Except LaunchFault Report) :
    missingOf classpath (closing result) = [] := by
  cases result <;> rfl

/-- One plan, carried out on files and on others: what is launched and told after the setup, and how
    it ends. -/
theorem carryOut_sameButArtifact {s t : Surroundings} {launcher : Launcher} {v : Variant}
    {root : String} {dryRun : Bool}
    (halike : dryRun = false → launcher.AnswersAlike v root s.files t.files)
    (source other : Option String) (language : Language) (colours : Bool) :
    let p := carryOut s launcher language dryRun ⟨root, source, v.plan⟩
    let q := carryOut t launcher language dryRun ⟨root, other, v.plan⟩
    launchesOf p.events = launchesOf q.events ∧
    p.result.map (Option.map Report.untimed) = q.result.map (Option.map Report.untimed) ∧
    ∃ rest rest' before after, p.events = setupEvents ⟨root, source, v.plan⟩ ++ rest ∧
      q.events = setupEvents ⟨root, other, v.plan⟩ ++ rest' ∧
      outputOf language colours (rest.map Event.untimed) =
        before ++ Console.renderAll language colours (missingOf v.classpath rest) ++ after ∧
      outputOf language colours (rest'.map Event.untimed) =
        before ++ Console.renderAll language colours (missingOf v.classpath rest') ++ after := by
  intro p q
  cases dryRun with
  | true =>
    set shown := (Console.planLines v.plan).map Event.said
    have hquiet : outputOf language colours (shown.map Event.untimed) =
        outputOf language colours (shown.map Event.untimed) ++
          Console.renderAll language colours (missingOf v.classpath shown) ++ "" := by
      rw [missingOf_said, String.append_empty]
      exact String.append_empty.symm
    refine ⟨?_, rfl, shown, shown, _, "", rfl, rfl, hquiet, hquiet⟩
    rw [launchesOf_carryOut, launchesOf_carryOut]
    rfl
  | false =>
    obtain ⟨hlaunches, hresult, before, after, hx, hy⟩ :=
      Run.ofPlan_sameButArtifact (halike rfl) language colours
    have hp : p = _ := carryOut_eq s launcher language ⟨root, source, v.plan⟩
    have hq : q = _ := carryOut_eq t launcher language ⟨root, other, v.plan⟩
    dsimp only at hp hq
    obtain ⟨hclosing, hended⟩ := closing_and_ended_congr hresult language
    have hrest {run : Run} (hrun : outputOf language colours (run.events.map Event.untimed) =
        before ++ Console.renderAll language colours (missingOf v.classpath run.events) ++ after) :
        outputOf language colours ((run.events ++ closing run.result).map Event.untimed) =
          before ++ Console.renderAll language colours
              (missingOf v.classpath (run.events ++ closing run.result)) ++
            (after ++ outputOf language colours ((closing run.result).map Event.untimed)) := by
      rw [List.map_append, outputOf_append, hrun, missingOf_append, missingOf_closing,
        List.append_nil, String.append_assoc]
    refine ⟨?_, by rw [hp, hq]; exact hended, _, _, before, _,
      (congrArg _ hp).trans (List.append_assoc ..), (congrArg _ hq).trans (List.append_assoc ..),
      hrest hx, (hrest hy).trans (by rw [hclosing])⟩
    rw [launchesOf_carryOut, launchesOf_carryOut]
    exact hlaunches

end RunCommand

namespace Program

open CommandLine

/-- One variant in one root, on files without a configuration and on others. -/
theorem performed_sameButSource {h : Host} {files : FileSystem} {v : Variant} {root : String}
    {dryRun : Bool}
    (halike : dryRun = false → h.launcher.AnswersAlike v root h.files files) (path : String)
    (first language : Language) (verbose : Bool) :
    Exit.SameButSource root path v
      (performed h first verbose runStatus
        (RunCommand.carryOut h.surroundings h.launcher language dryRun ⟨root, none, v.plan⟩))
      (performed { h with files := files } first verbose runStatus
        (RunCommand.carryOut ⟨h.env, files⟩ h.launcher language dryRun
          ⟨root, some path, v.plan⟩)) := by
  have hcommon := RunCommand.carryOut_sameButArtifact (s := h.surroundings) (t := ⟨h.env, files⟩)
    halike none (some path) language (Console.coloursWanted h.env)
  have hp : (RunCommand.carryOut h.surroundings h.launcher language dryRun
      ⟨root, none, v.plan⟩).language = language := RunCommand.language_carryOut ..
  have hq : (RunCommand.carryOut ⟨h.env, files⟩ h.launcher language dryRun
      ⟨root, some path, v.plan⟩).language = language := RunCommand.language_carryOut ..
  generalize RunCommand.carryOut h.surroundings h.launcher language dryRun
    ⟨root, none, v.plan⟩ = p at hcommon hp ⊢
  generalize RunCommand.carryOut ⟨h.env, files⟩ h.launcher language dryRun
    ⟨root, some path, v.plan⟩ = q at hcommon hq ⊢
  obtain ⟨hlaunches, hresult, rest, rest', before, after, hrest, hrest', hx, hy⟩ := hcommon
  obtain ⟨hstatus, hcomplaint⟩ :=
    performed_ends (h := h) (k := { h with files := files }) hresult first first verbose verbose
  have hxshown := stdout_untimed_performed h first verbose hrest
  have hyshown := stdout_untimed_performed { h with files := files } first verbose hrest'
  have hpmissing : missingOf v.classpath (performed h first verbose runStatus p).events =
      missingOf v.classpath rest := by
    show missingOf v.classpath (.logged _ :: p.events) = _
    rw [hrest]
    rfl
  have hqmissing : missingOf v.classpath
      (performed { h with files := files } first verbose runStatus q).events =
        missingOf v.classpath rest' := by
    show missingOf v.classpath (.logged _ :: q.events) = _
    rw [hrest']
    rfl
  refine ⟨hlaunches, hstatus, hcomplaint, before, after, ?_, ?_⟩
  · rw [hpmissing, hxshown]
    show _ = Console.renderAll p.language _ _ ++ (before ++ Console.renderAll p.language _ _ ++ _)
    rw [hp, hx]
    rfl
  · rw [hqmissing, hyshown]
    show _ = Console.renderAll p.language _ _ ++ (before ++ Console.renderAll p.language _ _ ++ _)
    rw [hp, hq, hy]
    rfl

section

variable {h : Host} {words : List String} {a : Args} (hparse : parse words = .ok a)
  (hdefault : a.init = none) (hconfig : a.config = none) {root : String}
  (hnames : Names h.env h.files "." (a.projectDir.getD ".") root)

include hparse hdefault hconfig hnames

/-- The program where no configuration is. -/
theorem run_of_free (hfree : h.files.hasEntry (standardPath root) = false) :
    run h words =
      performed h (Language.choose h.env a.language) a.verbose runStatus
        (RunCommand.carryOut h.surroundings h.launcher (Language.choose h.env a.language) a.dryRun
          ⟨root, none, (a.variant.getD .standard).plan⟩) := by
  have hprepare := Setup.prepare_of_free h.surroundings (runOptions a) hconfig hnames hfree
    (Language.choose h.env a.language)
  rw [run_of_asked_default hparse hdefault, RunCommand.execute, hprepare]
  rfl

/-- The program where the standard text was written. -/
theorem run_of_written {files : FileSystem}
    (hwrite : h.files.write (standardPath root) standardText = .ok files) :
    run { h with files := files } words =
      performed { h with files := files } (Language.choose h.env a.language) a.verbose runStatus
        (RunCommand.carryOut ⟨h.env, files⟩ h.launcher (Language.choose h.env a.language) a.dryRun
          ⟨root, some (standardPath root), (a.variant.getD .standard).plan⟩) := by
  have hprepare := Setup.prepare_of_written ⟨h.env, files⟩ (runOptions a) hconfig hnames hwrite
    (Language.choose h.env a.language)
  have hrun : run { h with files := files } words = _ := run_of_asked_default hparse hdefault
  rw [hrun, RunCommand.execute, Host.surroundings, hprepare]
  rfl

/-- The program before and after. -/
theorem run_before_and_after (hfree : h.files.hasEntry (standardPath root) = false)
    {files : FileSystem} (hwrite : h.files.write (standardPath root) standardText = .ok files) :
    let k : Host := { h with files := files }
    let x := run h words
    let y := run k words
    let variant := a.variant.getD .standard
    let language := Language.choose h.env a.language
    x.language = language ∧ y.language = language ∧
    Setup.Finds h.surroundings language (runOptions a) ⟨root, none, variant.plan⟩ ∧
    Setup.Finds k.surroundings language (runOptions a)
      ⟨root, some (standardPath root), variant.plan⟩ ∧
    ((a.dryRun = false → h.launcher.AnswersAlike variant root h.files files) →
      Exit.SameButSource root (standardPath root) variant x y) := by
  intro k x y variant language
  have hx : x = _ := run_of_free hparse hdefault hconfig hnames hfree
  have hy : y = _ := run_of_written hparse hdefault hconfig hnames hwrite
  have hbefore := Setup.prepare_of_free h.surroundings (runOptions a) hconfig hnames hfree language
  have hafter := Setup.prepare_of_written k.surroundings (runOptions a) hconfig hnames hwrite
    language
  rw [hx, hy]
  exact ⟨RunCommand.language_carryOut .., RunCommand.language_carryOut ..,
    Setup.finds_iff.mpr ⟨_, hbefore⟩, Setup.finds_iff.mpr ⟨_, hafter⟩,
    fun halike => performed_sameButSource halike _ language language a.verbose⟩

end

open Call in
/-- **A configuration that was just written changes nothing but the line that names it**, and what
    finds it where the artifact is looked for. There is nothing at the path of the configuration, a
    call writes one, and the program is asked for the same before and after, without a configuration
    of its own. Both runs speak the same language and find the same root and the same plan. If the
    launches of the plan are answered alike in both, they launch the same, end alike, and show the
    same but for durations, the source of the configuration, and the line about a missing artifact,
    which each shows if its own test after the build finds nothing. -/
theorem init_is_neutral (h : Host) (words : List String) (a : Args) (hparse : parse words = .ok a)
    (hdefault : a.init = none) (hconfig : a.config = none) (root : String)
    (hnames : Names h.env h.files "." (a.projectDir.getD ".") root)
    (hfree : h.files.hasEntry (standardPath root) = false) (c : Call) (dir : String) (force : Bool)
    (hinits : c.Inits dir force) (hdir : Names c.env h.files "." dir root)
    (hdone : (c.exit h.launcher h.files).status = 0) :
    let path := standardPath root
    let files := (c.exit h.launcher h.files).files
    let k : Host := { h with files := files }
    let x := run h words
    let y := run k words
    let variant := a.variant.getD .standard
    let language := Language.choose h.env a.language
    x.language = language ∧ y.language = language ∧
    Setup.Finds h.surroundings language (runOptions a) ⟨root, none, variant.plan⟩ ∧
    Setup.Finds k.surroundings language (runOptions a) ⟨root, some path, variant.plan⟩ ∧
    ((a.dryRun = false → h.launcher.AnswersAlike variant root h.files files) →
      Exit.SameButSource root path variant x y) :=
  run_before_and_after hparse hdefault hconfig hnames hfree
    (write_of_done h.launcher hinits hdir hfree hdone)

/-- On a host without any file whose first step ends with seven and whose second is refused: one of
    the variants before and after a configuration is written. -/
theorem init_is_neutral_refused_second :
    let script : Rehearsal.Script := [⟨[], [], .ok (some 7)⟩, ⟨[], [], .error (.code 13)⟩]
    let host : Host := ⟨[], ⟨[], [], none⟩, script.launcher⟩
    let init : Call := ⟨[], ["init"]⟩
    let after : Host := { host with files := (init.exit host.launcher host.files).files }
    let words := ["--variant", "sync"]
    Setup.Finds after.surroundings .english ⟨none, none, some .sync, false, false⟩
      ⟨"/", some (standardPath "/"), Variant.plan .sync⟩ ∧
    Exit.SameButSource "/" (standardPath "/") .sync (run host words) (run after words) := by
  intro script host init after words
  have hnames : Names [] host.files "." "." "/" :=
    ProjectDir.resolve_eq_ok_iff.mp (ProjectDir.resolve_point [] [] none .english)
  have hsame := Rehearsal.Script.launcher_alike_of_idle script (by simp [script])
  have hdone : (init.exit host.launcher host.files).status = 0 := by decide +kernel
  obtain ⟨-, -, -, hfinds, hshown⟩ := init_is_neutral host words
    ⟨none, false, none, none, some .sync, false, none⟩ rfl rfl rfl "/" hnames rfl init "." false
    ⟨_, rfl, rfl, rfl⟩ hnames hdone
  exact ⟨hfinds, hshown fun _ => hsame.answers trivial [] _⟩

/-- **What was written may be what a test finds.** The artifact is a link to the place of the
    configuration, where nothing is; the tools do nothing. Before a configuration is written the
    artifact is missing, and after that it is there. Tools that look for the configuration themselves
    can all be launched before, and none of them after. -/
theorem init_is_noticed :
    let host : Host :=
      ⟨[], ⟨[(["sst.jar"], .link "TestDriver.toml")], [], none⟩, Rehearsal.Script.launcher []⟩
    let init : Call := ⟨[], ["init"]⟩
    let made := init.exit host.launcher host.files
    let after : Host := { host with files := made.files }
    let block (source : Option String) : List Console.Line :=
      [.projectRoot "/", .configSource source, .variantChosen .jar .spawnThenWait]
    let curious : Launcher := fun _ files _ =>
      ⟨if files.hasEntry "/TestDriver.toml" then .error (.code 13) else .ok (some 0), "", files, .zero⟩
    host.files.hasEntry (standardPath "/") = false ∧ made.status = 0 ∧
    host.launcher.AnswersAlike .jar "/" host.files made.files ∧
    (¬ ∃ rest,
      (run host []).untimed.stdout = Console.renderAll .english false (block none) ++ rest ∧
      (run after []).untimed.stdout =
        Console.renderAll .english false (block (some (standardPath "/"))) ++ rest) ∧
    (run { host with launcher := curious } []).status = 0 ∧
    (run { after with launcher := curious } []).status = 1 := by
  intro host init made after block curious
  have hnames : Names [] host.files "." "." "/" :=
    ProjectDir.resolve_eq_ok_iff.mp (ProjectDir.resolve_point [] host.files.nodes none .english)
  have hsame := Rehearsal.Script.launcher_alike_of_idle [] (List.forall_mem_nil _)
  have halike : host.launcher.AnswersAlike .jar "/" host.files made.files :=
    hsame.answers trivial [] _
  have hfree : host.files.hasEntry (standardPath "/") = false := rfl
  have hdone : made.status = 0 := by
    have hmade : made = performed host .english false (fun _ => success)
        (InitCommand.execute host.surroundings .english none false) := rfl
    rw [hmade]
    unfold performed InitCommand.execute
    rw [Option.getD_none, Host.surroundings, ProjectDir.resolve_point]
    rfl
  have hwrite : host.files.write (standardPath "/") standardText = .ok made.files :=
    Call.write_of_done host.launcher ⟨_, rfl, rfl, rfl⟩ hnames hfree hdone
  have hparse : parse [] = .ok ⟨none, false, none, none, none, false, none⟩ := rfl
  have hx := run_of_free (h := host) hparse rfl rfl hnames hfree
  have hy := run_of_written (h := host) hparse rfl rfl hnames hwrite
  have hmissing : missingOf "sst.jar" (run host []).events = [.artifactMissing "sst.jar"] := by
    rw [hx]
    decide +kernel
  have hthere : missingOf "sst.jar" (run after []).events = [] := by
    rw [hy]
    decide +kernel
  obtain ⟨hlanguage, -, -, -, hshown⟩ :=
    run_before_and_after (h := host) hparse rfl rfl hnames hfree hwrite
  have henglish : (run host []).language = .english := hlanguage
  have hplain : (run host []).colours = false := by
    rw [hx]
    rfl
  obtain ⟨-, -, -, told, rest', hxshown, hyshown⟩ := hshown fun _ => halike
  have hcurious := run_of_free (h := { host with launcher := curious }) hparse rfl rfl hnames hfree
  have hcurious' := run_of_written (h := { host with launcher := curious }) hparse rfl rfl hnames
    hwrite
  refine ⟨hfree, hdone, halike, ?_, hcurious ▸ by decide +kernel, hcurious' ▸ by decide +kernel⟩
  rintro ⟨rest, hbefore, hafter⟩
  rw [henglish, hplain, hbefore] at hxshown
  rw [henglish, hplain, hafter] at hyshown
  have hxrest : rest = told ++ Console.renderAll .english false
      (missingOf "sst.jar" (run host []).events) ++ rest' := (String.append_right_inj _).mp hxshown
  have hyrest : rest = told ++ Console.renderAll .english false
      (missingOf "sst.jar" (run after []).events) ++ rest' := (String.append_right_inj _).mp hyshown
  rw [hmissing] at hxrest
  rw [hthere, hxrest, String.append_left_inj, String.append_right_inj] at hyrest
  exact absurd hyrest (by decide +kernel)

end Program

end SuiteDriver

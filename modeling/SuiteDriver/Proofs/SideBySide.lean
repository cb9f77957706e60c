import Mathlib.Data.List.Forall2
import SuiteDriver.Proofs.DryRun

/-!
# Two runs side by side

The same steps are run twice, on two hosts. Where each launch comes to the same on both, in whatever
time, and the files stay such that no test for the artifact tells them apart, the two runs are
alike: they differ in nothing but how long their steps took.

* `Event.untimed`: what happens, but for how long it took;
* `Answer.Same`: answers by which a launch comes to the same;
* `Run.steps_resemble`: where all launches of the same steps come to the same, the runs look alike,
  also to one who does not see all of the events;
* `Launcher.Alike`: launchers by which every launch comes to the same;
* `Run.steps_alike`: the runs of the same steps from progress that is alike are alike;
* `Program.performed_alike`: so is what the program shows of them.
-/

namespace SuiteDriver

/-! ## 1. What is left without durations -/

/-- The record without its duration. -/
def Log.Record.untimed (r : Log.Record) : Log.Record :=
  { r with fields := r.fields.map fun f => if f.1 = "duration_ms" then (f.1, "") else f }

/-- The outcome as of a step that took no time. -/
def Outcome.untimed (o : Outcome) : Outcome := { o with duration := Duration.zero }

/-- The report as of steps that took no time. -/
def Report.untimed (r : Report) : Report := ⟨r.outcomes.map Outcome.untimed⟩

/-- The event as of steps that took no time. -/
def Event.untimed : Event → Event
  | said (.stepFinished o) => said (.stepFinished o.untimed)
  | logged r => logged r.untimed
  | e => e

/-- All that a program did, as if no step had taken any time. -/
def Exit.untimed (x : Exit) : Exit := { x with events := x.events.map Event.untimed }

theorem Report.untimed_push (r : Report) (o : Outcome) :
    (r.push o).untimed = r.untimed.push o.untimed := by
  unfold Report.untimed push
  rw [List.map_append]
  rfl

theorem Report.launches_untimed (r : Report) : r.untimed.launches = r.launches := List.length_map _

theorem Event.launch?_untimed (e : Event) : e.untimed.launch? = e.launch? := by
  cases e with
  | said line => cases line <;> rfl
  | _ => rfl

/-- How long steps take says nothing about what is launched. -/
theorem launchesOf_map_untimed (events : List Event) :
    launchesOf (events.map Event.untimed) = launchesOf events := by
  have hlaunch : Event.launch? ∘ Event.untimed = Event.launch? := funext Event.launch?_untimed
  unfold launchesOf
  rw [List.filterMap_map, hlaunch]

/-- What is told of the end of a step depends on its duration in nothing else. -/
theorem Run.map_untimed_eventsOfEnd (s : Step) (code : Option Int) (d d' : Duration) :
    (eventsOfEnd ⟨s, code, d⟩).map Event.untimed =
      (eventsOfEnd ⟨s, code, d'⟩).map Event.untimed := by
  simp [eventsOfEnd, Event.untimed, Outcome.untimed, Log.Record.untimed, Log.processExited]

/-! ## 2. The same steps, answered alike -/

variable {R : FileSystem → FileSystem → Prop}

/-- **A launch comes to the same** by two answers: it ends alike and writes the same, in whatever
    time, and the files after it are related. -/
structure Answer.Same (R : FileSystem → FileSystem → Prop) (a b : Answer) : Prop where
  status : a.status = b.status
  output : a.output = b.output
  files : R a.files b.files

/-- Answers that come to the same have their first refusal at the same place. -/
theorem firstRefusal_eq_of_same {as bs : List Answer} (h : List.Forall₂ (Answer.Same R) as bs) :
    firstRefusal as = firstRefusal bs := by
  induction h with
  | nil => rfl
  | @cons a b as bs hab _ ih =>
    cases hcase : b.status with
    | error e =>
      rw [firstRefusal_cons_of_error (hab.status.trans hcase), firstRefusal_cons_of_error hcase]
    | ok code =>
      rw [firstRefusal_cons_of_ok (hab.status.trans hcase), firstRefusal_cons_of_ok hcase, ih]

namespace Run

/-- **Two runs that look alike** to one who sees this much of their events and no durations; they
    end alike and leave related files. -/
structure Resembles {α : Type} (see : Event → α) (R : FileSystem → FileSystem → Prop)
    (x y : Run) : Prop where
  events : (x.events.map Event.untimed).map see = (y.events.map Event.untimed).map see
  result : x.result.map Report.untimed = y.result.map Report.untimed
  files : R x.files y.files

/-- The test for the artifact and what is told of it only ask whether something is there. -/
theorem artifactEvents_congr {a b : FileSystem} {v w : Variant} {dir : String}
    (hpath : v.classpath = w.classpath)
    (h : a.hasEntry (Path.join dir w.classpath) = b.hasEntry (Path.join dir w.classpath))
    (s : Step) : artifactEvents v dir a s = artifactEvents w dir b s := by
  unfold artifactEvents
  dsimp only
  rw [hpath, h]

/-- **Where all launches come to the same, the runs look alike**, also if the variant or the mode is
    not the same: to one who does not see the mode, and if what is told of the artifact is the
    same. -/
theorem steps_resemble {α : Type} (see : Event → α) {v w : Variant} {m n : LaunchMode}
    {dir : String} {L M : Launcher} {ss : List Step}
    (hstart : ∀ s : Step, ((startEvents (s.launch m dir)).map Event.untimed).map see =
      ((startEvents (s.launch n dir)).map Event.untimed).map see)
    (hartifact : ∀ s ∈ ss, ∀ a b, R a b → artifactEvents v dir a s = artifactEvents w dir b s)
    {p q : Progress} (hreport : p.report.untimed = q.report.untimed) (hfiles : R p.files q.files)
    (hanswers : List.Forall₂ (Answer.Same R)
      (L.answers p.launches p.files (ss.map (Step.launch m dir)))
      (M.answers q.launches q.files (ss.map (Step.launch n dir)))) :
    (steps v m dir L p ss).Resembles see R (steps w n dir M q ss) := by
  induction ss generalizing p q with
  | nil => exact ⟨rfl, congrArg Except.ok hreport, hfiles⟩
  | cons s ss ih =>
    rw [List.map_cons, List.map_cons, Launcher.answers, Launcher.answers] at hanswers
    obtain ⟨⟨hstatus, houtput, hleft⟩, hanswers⟩ := List.forall₂_cons.mp hanswers
    generalize ha : L p.launches p.files (s.launch m dir) = a at hstatus houtput hleft hanswers
    generalize hb : M q.launches q.files (s.launch n dir) = b at hstatus houtput hleft hanswers
    cases hcase : b.status with
    | error e =>
      rw [hcase] at hstatus
      rw [steps_cons_of_error v m dir L (ha ▸ hstatus), steps_cons_of_error w n dir M (hb ▸ hcase),
        ha, hb]
      refine ⟨?_, rfl, hleft⟩
      simp only [List.map_append, hstart s, houtput]
    | ok code =>
      rw [hcase] at hstatus
      rw [steps_cons_of_ok v m dir L ha hstatus, steps_cons_of_ok w n dir M hb hcase]
      have hafter : (p.after (s.launch m dir) a code).report.untimed =
          (q.after (s.launch n dir) b code).report.untimed := by
        show (p.report.push _).untimed = (q.report.push _).untimed
        rw [Report.untimed_push, Report.untimed_push, hreport]
        rfl
      have hrest := ih (fun t ht => hartifact t (List.mem_cons_of_mem _ ht)) hafter hleft hanswers
      refine ⟨?_, hrest.result, hrest.files⟩
      simp only [List.map_append, List.map_cons]
      rw [hstart s, houtput, hartifact s List.mem_cons_self _ _ hleft,
        map_untimed_eventsOfEnd s code a.elapsed b.elapsed, hrest.events]

end Run

/-! ## 3. Runs that are alike -/

/-- **Launches come to the same by two launchers**: on files that are related a launch is answered
    alike and writes the same, in whatever time, and the files after it are related again. -/
structure Launcher.Alike (R : FileSystem → FileSystem → Prop) (L M : Launcher) : Prop where
  status : ∀ earlier a b l, R a b → (L earlier a l).status = (M earlier b l).status
  output : ∀ earlier a b l, R a b → (L earlier a l).output = (M earlier b l).output
  files : ∀ earlier a b l, R a b → R (L earlier a l).files (M earlier b l).files

theorem Launcher.Alike.answers {L M : Launcher} (h : Launcher.Alike R L M) {a b : FileSystem}
    (hab : R a b) (earlier ls : List Launch) :
    List.Forall₂ (Answer.Same R) (L.answers earlier a ls) (M.answers earlier b ls) := by
  induction ls generalizing earlier a b with
  | nil => exact .nil
  | cons l ls ih =>
    exact .cons ⟨h.status _ _ _ _ hab, h.output _ _ _ _ hab, h.files _ _ _ _ hab⟩
      (ih (h.files _ _ _ _ hab) _)

namespace Run

/-- Two runs that have come equally far. -/
structure Progress.Alike (R : FileSystem → FileSystem → Prop) (p q : Progress) : Prop where
  launches : p.launches = q.launches
  report : p.report.untimed = q.report.untimed
  files : R p.files q.files

/-- **Two runs that differ in durations only**, and leave related files. -/
structure Alike (R : FileSystem → FileSystem → Prop) (x y : Run) : Prop where
  events : x.events.map Event.untimed = y.events.map Event.untimed
  result : x.result.map Report.untimed = y.result.map Report.untimed
  files : R x.files y.files

/-- On related files the artifact is there on both sides or on none. -/
def AgreeAt (R : FileSystem → FileSystem → Prop) (dir : String) (variant : Variant) : Prop :=
  ∀ a b, R a b →
    a.hasEntry (Path.join dir variant.classpath) = b.hasEntry (Path.join dir variant.classpath)

variable (variant : Variant) (mode : LaunchMode) (dir : String) {L M : Launcher}

/-- **From progress that is alike the same steps lead to runs that are alike.** -/
theorem steps_alike (hLM : Launcher.Alike R L M) (hartifact : AgreeAt R dir variant)
    {p q : Progress} (hpq : p.Alike R q) (ss : List Step) :
    (steps variant mode dir L p ss).Alike R (steps variant mode dir M q ss) := by
  have hanswers := hLM.answers hpq.files p.launches (ss.map (Step.launch mode dir))
  nth_rewrite 2 [hpq.launches] at hanswers
  obtain ⟨hevents, hresult, hfiles⟩ := steps_resemble id (fun _ => rfl)
    (fun s _ a b hab => artifactEvents_congr rfl (hartifact a b hab) s) hpq.report hpq.files
    hanswers
  simp only [List.map_id] at hevents
  exact ⟨hevents, hresult, hfiles⟩

/-- Runs of one plan in one directory, on related files. -/
theorem ofPlan_alike (hLM : Launcher.Alike R L M) {plan : Plan}
    (hartifact : AgreeAt R dir plan.variant) {a b : FileSystem} (hab : R a b) :
    (ofPlan plan dir L a).Alike R (ofPlan plan dir M b) :=
  have hstart : Progress.Alike R ⟨[], Report.empty, a⟩ ⟨[], Report.empty, b⟩ := ⟨rfl, rfl, hab⟩
  steps_alike plan.variant plan.mode dir hLM hartifact hstart plan.steps

end Run

/-! ## 4. What is shown of them -/

/-- **Two commands that did the same**, in one language, but for the durations of their steps. -/
structure Performance.Alike (R : FileSystem → FileSystem → Prop)
    (p q : Performance (Option Report)) : Prop where
  language : p.language = q.language
  events : p.events.map Event.untimed = q.events.map Event.untimed
  result : p.result.map (Option.map Report.untimed) = q.result.map (Option.map Report.untimed)
  files : R p.files q.files

/-- **Two programs that show the same**, but for the durations: their standard output, their
    launches, how they end and what they complain of. -/
structure Exit.Alike (R : FileSystem → FileSystem → Prop) (x y : Exit) : Prop where
  stdout : x.untimed.stdout = y.untimed.stdout
  launches : x.launches = y.launches
  status : x.status = y.status
  complaint : x.complaint = y.complaint
  files : R x.files y.files

/-- Results that are the same after a change of what they hold are both errors, or both hold
    something. -/
theorem eq_errors_or_ok_of_map_eq {ε α β : Type} {f : α → β} {x y : Except ε α}
    (h : x.map f = y.map f) :
    (∃ e, x = .error e ∧ y = .error e) ∨ ∃ a b, x = .ok a ∧ y = .ok b ∧ f a = f b := by
  cases x with
  | error e =>
    cases y with
    | error e' =>
      cases h
      exact Or.inl ⟨e, rfl, rfl⟩
    | ok b => cases h
  | ok a =>
    cases y with
    | error e => cases h
    | ok b => exact Or.inr ⟨a, b, rfl, rfl, Except.ok.inj h⟩

namespace RunCommand

/-- What is told after a run: how many steps it launched, if none was refused. -/
def closing : Except LaunchFault Report → List Event
  | .error _ => []
  | .ok report => [.said (.runComplete report.launches)]

/-- What the command makes of the end of a run. -/
def ended (language : Language) : Except LaunchFault Report → Except Fault (Option Report)
  | .error f => .error (launchFault language f)
  | .ok report => .ok (some report)

/-- **A run is told between its setup and its end.** -/
theorem carryOut_eq (s : Surroundings) (launcher : Launcher) (language : Language)
    (setup : Setup) :
    let run := Run.ofPlan setup.plan setup.root launcher s.files
    carryOut s launcher language false setup =
      ⟨language, setupEvents setup ++ run.events ++ closing run.result, ended language run.result,
        run.files⟩ := by
  intro run
  unfold carryOut
  simp only [Bool.false_eq_true, ↓reduceIte]
  cases (Run.ofPlan setup.plan setup.root launcher s.files).result with
  | error f =>
    simp only [run, closing, List.append_nil]
    rfl
  | ok report => rfl

/-- What is told and made of the end of a run does not depend on durations. -/
theorem closing_and_ended_congr {x y : Except LaunchFault Report}
    (h : x.map Report.untimed = y.map Report.untimed) (language : Language) :
    closing x = closing y ∧ (ended language x).map (Option.map Report.untimed) =
      (ended language y).map (Option.map Report.untimed) := by
  rcases eq_errors_or_ok_of_map_eq h with ⟨f, rfl, rfl⟩ | ⟨r, r', rfl, rfl, hreport⟩
  · exact ⟨rfl, rfl⟩
  · have hcount : r.launches = r'.launches := by
      rw [← r.launches_untimed, hreport, r'.launches_untimed]
    exact ⟨congrArg (fun n => [Event.said (.runComplete n)]) hcount,
      congrArg (fun r => Except.ok (some r)) hreport⟩

/-- One setup, carried out on both sides. -/
theorem carryOut_alike {s t : Surroundings} {L M : Launcher}
    (hLM : Launcher.Alike R L M) {setup : Setup}
    (hartifact : Run.AgreeAt R setup.root setup.plan.variant) (hfiles : R s.files t.files)
    (language : Language) (dryRun : Bool) :
    (carryOut s L language dryRun setup).Alike R (carryOut t M language dryRun setup) := by
  cases dryRun with
  | true => exact ⟨rfl, rfl, rfl, hfiles⟩
  | false =>
    obtain ⟨hevents, hresult, hleft⟩ := Run.ofPlan_alike setup.root hLM hartifact hfiles
    obtain ⟨hclosing, hended⟩ := closing_and_ended_congr hresult language
    rw [carryOut_eq, carryOut_eq]
    exact ⟨rfl, by simp only [List.map_append, hevents, hclosing], hended, hleft⟩

end RunCommand

namespace Program

/-- Two commands that end alike but for durations lead to the same status and the same last words,
    however the program started. -/
theorem performed_ends {h k : Host} {p q : Performance (Option Report)}
    (hresult : p.result.map (Option.map Report.untimed) =
      q.result.map (Option.map Report.untimed)) (first second : Language) (verbose loud : Bool) :
    (performed h first verbose runStatus p).status =
        (performed k second loud runStatus q).status ∧
      (performed h first verbose runStatus p).complaint =
        (performed k second loud runStatus q).complaint := by
  unfold performed
  rcases eq_errors_or_ok_of_map_eq hresult with ⟨f, hp, hq⟩ | ⟨r, r', hp, hq, -⟩
  · rw [hp, hq]
    exact ⟨rfl, rfl⟩
  · rw [hp, hq]
    exact ⟨(runStatus_eq_success r).trans (runStatus_eq_success r').symm, rfl⟩

/-- What is shown, but for durations, where a setup is told first. -/
theorem stdout_untimed_performed (h : Host) (first : Language) (verbose : Bool) {setup : Setup}
    {p : Performance (Option Report)} {rest : List Event}
    (hp : p.events = RunCommand.setupEvents setup ++ rest) :
    (performed h first verbose runStatus p).untimed.stdout =
      Console.renderAll p.language (Console.coloursWanted h.env) setup.lines ++
        outputOf p.language (Console.coloursWanted h.env) (rest.map Event.untimed) := by
  have hevents : (performed h first verbose runStatus p).untimed.events =
      .logged (Log.languageChosen first.tag).untimed ::
        .logged (Log.runPlanned setup.plan.variant.logName setup.root).untimed ::
        (setup.lines.map .said ++ rest.map Event.untimed) := by
    show (Event.logged (Log.languageChosen first.tag) :: p.events).map Event.untimed = _
    rw [hp, List.map_cons, List.map_append]
    rfl
  unfold Exit.stdout
  rw [hevents, outputOf_logged, outputOf_logged, outputOf_append, outputOf_said]
  exact String.empty_append

/-- **What the program shows of two commands that did the same is the same.** -/
theorem performed_alike {h k : Host} (henv : h.env = k.env) {p q : Performance (Option Report)}
    (hpq : p.Alike R q) (first : Language) (verbose : Bool) :
    (performed h first verbose runStatus p).Alike R (performed k first verbose runStatus q) := by
  obtain ⟨hlanguage, hevents, hresult, hfiles⟩ := hpq
  have hshown : (performed h first verbose runStatus p).events.map Event.untimed =
      (performed k first verbose runStatus q).events.map Event.untimed :=
    congrArg (List.cons _) hevents
  obtain ⟨hstatus, hcomplaint⟩ :=
    performed_ends (h := h) (k := k) hresult first first verbose verbose
  refine ⟨?_, ?_, hstatus, hcomplaint, hfiles⟩
  · unfold Exit.stdout Exit.untimed
    rw [hshown]
    show "" ++ outputOf p.language (Console.coloursWanted h.env) _ =
      "" ++ outputOf q.language (Console.coloursWanted k.env) _
    rw [hlanguage, henv]
  · unfold Exit.launches
    rw [← launchesOf_map_untimed, hshown, launchesOf_map_untimed]

end Program

end SuiteDriver

import SuiteDriver.Rehearsal.Script
import SuiteDriver.Run

/-!
# What a run launches

A launcher is asked about the launches of a plan one after the other. `Launcher.answers` is what it
would say if it were asked about all of them, whatever it said before; nothing here stops. The run
of a plan is then read off these answers:

* `Run.launchesOf_steps`: it launches the steps up to and with the first that is refused;
* `Run.result_steps_of_started`: if none is refused, it ends with a report of all steps;
* `Run.result_steps_of_refused`: else it ends with the fault of the first that is refused;
* `Run.ofPlan_launches_to_first_refusal`: the three together, for the run of a plan.
-/

namespace SuiteDriver

/-! ## 1. The answers to a row of launches -/

/-- The launch of a step. -/
def Step.launch (mode : LaunchMode) (dir : String) (s : Step) : Launch := ⟨s, mode, dir⟩

/-- The launches of a plan: its steps in order, all in the mode of the plan. -/
def Plan.launches (p : Plan) (dir : String) : List Launch := p.steps.map (Step.launch p.mode dir)

/-- Whether an answer says that nothing could be launched. -/
def Answer.isRefusal (a : Answer) : Bool :=
  match a.status with
  | .ok _ => false
  | .error _ => true

/-- What a launcher says to launches one after the other. Each answer may depend on all launches
    before and on the files that the answer before it left. -/
def Launcher.answers (launcher : Launcher) (earlier : List Launch) (files : FileSystem) :
    List Launch → List Answer
  | [] => []
  | l :: ls =>
    launcher earlier files l ::
      launcher.answers (earlier ++ [l]) (launcher earlier files l).files ls

/-- The place of the first refusal among answers, or their number if there is none. -/
def firstRefusal (answers : List Answer) : Nat := answers.findIdx Answer.isRefusal

/-- What is recorded of a step and the answer to it. -/
def Answer.outcome (s : Step) (a : Answer) : Outcome :=
  ⟨s, a.status.toOption.join, a.elapsed⟩

theorem Answer.isRefusal_of_error {a : Answer} {e : OsError} (h : a.status = .error e) :
    a.isRefusal = true := by
  unfold Answer.isRefusal
  rw [h]

theorem Answer.isRefusal_of_ok {a : Answer} {code : Option Int} (h : a.status = .ok code) :
    a.isRefusal = false := by
  unfold Answer.isRefusal
  rw [h]

theorem Answer.isRefusal_iff {a : Answer} : a.isRefusal = true ↔ ∃ e, a.status = .error e := by
  cases h : a.status with
  | ok code =>
    rw [Answer.isRefusal_of_ok h]
    exact ⟨fun hr => absurd hr Bool.false_ne_true, fun ⟨_, he⟩ => nomatch he⟩
  | error e => exact ⟨fun _ => ⟨e, rfl⟩, fun _ => Answer.isRefusal_of_error h⟩

theorem Answer.status_of_not_isRefusal {a : Answer} (h : a.isRefusal = false) :
    a.status = .ok a.status.toOption.join := by
  cases hs : a.status with
  | error e => rw [Answer.isRefusal_of_error hs] at h; cases h
  | ok code => cases code <;> rfl

theorem Launcher.length_answers (launcher : Launcher) (earlier : List Launch)
    (files : FileSystem) (ls : List Launch) :
    (launcher.answers earlier files ls).length = ls.length := by
  induction ls generalizing earlier files with
  | nil => rfl
  | cons l ls ih =>
    simp only [Launcher.answers, List.length_cons, ih]

/-- The first answer is a refusal. -/
theorem firstRefusal_cons_of_error {a : Answer} {e : OsError} (h : a.status = .error e)
    (as : List Answer) : firstRefusal (a :: as) = 0 := by
  unfold firstRefusal
  rw [List.findIdx_cons, Answer.isRefusal_of_error h]
  rfl

/-- The first answer is none. -/
theorem firstRefusal_cons_of_ok {a : Answer} {code : Option Int} (h : a.status = .ok code)
    (as : List Answer) : firstRefusal (a :: as) = firstRefusal as + 1 := by
  unfold firstRefusal
  rw [List.findIdx_cons, Answer.isRefusal_of_ok h]
  rfl

theorem firstRefusal_eq_length {answers : List Answer}
    (h : ∀ a ∈ answers, ∃ code, a.status = .ok code) : firstRefusal answers = answers.length := by
  refine List.findIdx_eq_length_of_false fun a ha => ?_
  obtain ⟨code, hc⟩ := h a ha
  exact Answer.isRefusal_of_ok hc

/-- A refusal with no refusal before it is the first one. -/
theorem firstRefusal_eq {answers : List Answer} {i : Nat} {a : Answer} {e : OsError}
    (ha : answers[i]? = some a) (he : a.status = .error e)
    (hbefore : ∀ j < i, ∀ b, answers[j]? = some b → ∃ code, b.status = .ok code) :
    firstRefusal answers = i := by
  obtain ⟨hi, rfl⟩ := List.getElem?_eq_some_iff.mp ha
  refine (List.findIdx_eq hi).mpr ⟨Answer.isRefusal_of_error he, fun j hj => ?_⟩
  obtain ⟨code, hc⟩ := hbefore j hj _ (List.getElem?_eq_getElem (Nat.lt_trans hj hi))
  exact Answer.isRefusal_of_ok hc

/-! ## 2. One step of a run -/

namespace Run

variable (variant : Variant) (mode : LaunchMode) (dir : String) (launcher : Launcher)

/-- The progress after one more step that was launched. -/
def Progress.after (p : Progress) (l : Launch) (a : Answer) (code : Option Int) : Progress :=
  ⟨p.launches ++ [l], p.report.push ⟨l.step, code, a.elapsed⟩, a.files⟩

/-- **A step that is refused ends the run.** -/
theorem steps_cons_of_error {p : Progress} {s : Step} {e : OsError}
    (h : (launcher p.launches p.files (s.launch mode dir)).status = .error e) (ss : List Step) :
    steps variant mode dir launcher p (s :: ss) =
      { events :=
          startEvents (s.launch mode dir) ++
            [.answered (.error e) (launcher p.launches p.files (s.launch mode dir)).output,
              .logged (Log.launchFailed s.command.line e.message)]
        result := .error ⟨s.kind, s.command, e⟩
        files := (launcher p.launches p.files (s.launch mode dir)).files } := by
  simp only [steps, Step.launch] at h ⊢
  rw [h]

/-- **A step that was launched is told to its end, and the run goes on**, whatever its code is. -/
theorem steps_cons_of_ok {p : Progress} {s : Step} {code : Option Int} {a : Answer}
    (ha : launcher p.launches p.files (s.launch mode dir) = a) (h : a.status = .ok code)
    (ss : List Step) :
    steps variant mode dir launcher p (s :: ss) =
      { steps variant mode dir launcher (p.after (s.launch mode dir) a code) ss with
        events :=
          startEvents (s.launch mode dir) ++ .answered (.ok code) a.output ::
            (eventsOfEnd ⟨s, code, a.elapsed⟩ ++ artifactEvents variant dir a.files s ++
              (steps variant mode dir launcher
                (p.after (s.launch mode dir) a code) ss).events) } := by
  subst ha
  simp only [steps, Step.launch, Progress.after] at h ⊢
  rw [h]

end Run

/-! ## 3. The launches among events -/

theorem launchesOf_append (xs ys : List Event) :
    launchesOf (xs ++ ys) = launchesOf xs ++ launchesOf ys :=
  List.filterMap_append

/-- To say something launches nothing. -/
theorem launchesOf_said (lines : List Console.Line) : launchesOf (lines.map .said) = [] := by
  unfold launchesOf
  rw [List.filterMap_map]
  exact List.filterMap_eq_nil_iff.mpr fun _ _ => rfl

namespace Run

/-- A suite is followed by no test. -/
theorem artifactEvents_of_suite (variant : Variant) (dir : String) (files : FileSystem) {s : Step}
    {name : String} (h : s.kind = .suite name) : artifactEvents variant dir files s = [] := by
  unfold artifactEvents Step.isBuild
  rw [h]
  rfl

/-- A build that left the artifact is followed by one test. -/
theorem artifactEvents_of_present {variant : Variant} {dir : String} {files : FileSystem}
    {s : Step} (h : s.kind = .build)
    (hp : files.hasEntry (Path.join dir variant.classpath) = true) :
    artifactEvents variant dir files s = [.tested (Path.join dir variant.classpath) true] := by
  unfold artifactEvents Step.isBuild
  rw [h]
  simp [hp]

/-- A build that left no artifact is followed by one test, a record and a line. -/
theorem artifactEvents_of_missing {variant : Variant} {dir : String} {files : FileSystem}
    {s : Step} (h : s.kind = .build)
    (hp : files.hasEntry (Path.join dir variant.classpath) = false) :
    artifactEvents variant dir files s =
      [.tested (Path.join dir variant.classpath) false,
        .logged (Log.artifactMissing variant.classpath),
        .said (.artifactMissing variant.classpath)] := by
  unfold artifactEvents Step.isBuild
  rw [h]
  simp [hp]

/-- What looks at neither tests, nor records, nor the line about a missing artifact finds nothing
    after a step. -/
theorem filterMap_artifactEvents {α : Type} {f : Event → Option α}
    (htested : ∀ path present, f (.tested path present) = none)
    (hlogged : ∀ r, f (.logged r) = none)
    (hmissing : ∀ path, f (.said (.artifactMissing path)) = none)
    (variant : Variant) (dir : String) (files : FileSystem) (s : Step) :
    (artifactEvents variant dir files s).filterMap f = [] := by
  cases hk : s.kind with
  | suite name => rw [artifactEvents_of_suite variant dir files hk, List.filterMap_nil]
  | build =>
    cases hp : files.hasEntry (Path.join dir variant.classpath) with
    | false => simp [artifactEvents_of_missing hk hp, htested, hlogged, hmissing]
    | true => simp [artifactEvents_of_present hk hp, htested]

theorem launchesOf_artifactEvents (variant : Variant) (dir : String) (files : FileSystem)
    (s : Step) : launchesOf (artifactEvents variant dir files s) = [] :=
  filterMap_artifactEvents (fun _ _ => rfl) (fun _ => rfl) (fun _ => rfl) ..

/-- What is told of a step from its start to the next one launches the step and nothing else. -/
theorem launchesOf_step (variant : Variant) (dir : String) (files : FileSystem) (l : Launch)
    (status : Except OsError (Option Int)) (text : String) (o : Outcome) (s : Step)
    (rest : List Event) :
    launchesOf (startEvents l ++ .answered status text ::
      (eventsOfEnd o ++ artifactEvents variant dir files s ++ rest)) = l :: launchesOf rest := by
  show l :: launchesOf (artifactEvents variant dir files s ++ rest) = l :: launchesOf rest
  rw [launchesOf_append, launchesOf_artifactEvents, List.nil_append]

/-! ## 4. A run, read off the answers -/

variable (variant : Variant) (mode : LaunchMode) (dir : String) (launcher : Launcher)

/-- **The steps up to and with the first refusal are launched, and no other.** -/
theorem launchesOf_steps (p : Progress) (ss : List Step) :
    launchesOf (steps variant mode dir launcher p ss).events =
      (ss.map (Step.launch mode dir)).take
        (firstRefusal (launcher.answers p.launches p.files
          (ss.map (Step.launch mode dir))) + 1) := by
  induction ss generalizing p with
  | nil => rfl
  | cons s ss ih =>
    rw [List.map_cons, Launcher.answers, List.take_succ_cons]
    cases h : (launcher p.launches p.files (s.launch mode dir)).status with
    | error e =>
      rw [steps_cons_of_error variant mode dir launcher h, firstRefusal_cons_of_error h]
      rfl
    | ok code =>
      rw [steps_cons_of_ok variant mode dir launcher rfl h, firstRefusal_cons_of_ok h]
      exact (launchesOf_step ..).trans (congrArg _ (ih _))

/-- **Without a refusal a run ends with a report of all its steps.** -/
theorem result_steps_of_started (p : Progress) (ss : List Step)
    (h : ∀ a ∈ launcher.answers p.launches p.files (ss.map (Step.launch mode dir)),
      a.isRefusal = false) :
    (steps variant mode dir launcher p ss).result =
      .ok ⟨p.report.outcomes ++ List.zipWith (fun s a => Answer.outcome s a) ss
        (launcher.answers p.launches p.files (ss.map (Step.launch mode dir)))⟩ := by
  induction ss generalizing p with
  | nil => simp [steps]
  | cons s ss ih =>
    rw [List.map_cons, Launcher.answers] at h ⊢
    obtain ⟨h0, hrest⟩ := List.forall_mem_cons.mp h
    have hs := Answer.status_of_not_isRefusal h0
    rw [steps_cons_of_ok variant mode dir launcher rfl hs]
    refine (ih _ hrest).trans ?_
    simp only [Progress.after, Report.push, Answer.outcome, Step.launch, List.zipWith_cons_cons,
      List.append_assoc, List.singleton_append]

/-- **The first refusal is what a run ends with.** -/
theorem result_steps_of_refused (p : Progress) (ss : List Step) (i : Nat) (a : Answer)
    (e : OsError)
    (ha : (launcher.answers p.launches p.files (ss.map (Step.launch mode dir)))[i]? = some a)
    (he : a.status = .error e)
    (hi : firstRefusal (launcher.answers p.launches p.files (ss.map (Step.launch mode dir))) = i) :
    ∃ s, ss[i]? = some s ∧
      (steps variant mode dir launcher p ss).result = .error ⟨s.kind, s.command, e⟩ := by
  induction ss generalizing p i with
  | nil => simp [Launcher.answers] at ha
  | cons s ss ih =>
    rw [List.map_cons, Launcher.answers] at ha hi
    cases h : (launcher p.launches p.files (s.launch mode dir)).status with
    | error e' =>
      rw [firstRefusal_cons_of_error h] at hi
      subst hi
      rw [List.getElem?_cons_zero] at ha
      cases ha
      rw [h] at he
      cases he
      exact ⟨s, rfl, by rw [steps_cons_of_error variant mode dir launcher h]⟩
    | ok code =>
      rw [firstRefusal_cons_of_ok h] at hi
      subst hi
      rw [List.getElem?_cons_succ] at ha
      obtain ⟨s', hs', hr⟩ := ih (p.after (s.launch mode dir) _ code) _ ha rfl
      refine ⟨s', hs', ?_⟩
      rw [steps_cons_of_ok variant mode dir launcher rfl h]
      exact hr

/-- **A run ends with a report exactly if no answer is a refusal.** -/
theorem isOk_result_steps (p : Progress) (ss : List Step) :
    (steps variant mode dir launcher p ss).result.isOk =
      !(launcher.answers p.launches p.files (ss.map (Step.launch mode dir))).any
        Answer.isRefusal := by
  induction ss generalizing p with
  | nil => rfl
  | cons s ss ih =>
    rw [List.map_cons, Launcher.answers, List.any_cons]
    cases h : (launcher p.launches p.files (s.launch mode dir)).status with
    | error e =>
      rw [steps_cons_of_error variant mode dir launcher h, Answer.isRefusal_of_error h]
      rfl
    | ok code =>
      rw [steps_cons_of_ok variant mode dir launcher rfl h, Answer.isRefusal_of_ok h,
        Bool.false_or]
      exact ih _

theorem launchesOf_ofPlan (plan : Plan) (files : FileSystem) :
    launchesOf (ofPlan plan dir launcher files).events =
      (plan.launches dir).take
        (firstRefusal (launcher.answers [] files (plan.launches dir)) + 1) :=
  launchesOf_steps plan.variant plan.mode dir launcher ⟨[], Report.empty, files⟩ plan.steps

/-- The outcome of a step that was launched tells the step and the code that was answered. -/
theorem outcome_at {ss : List Step} {answers : List Answer} {i : Nat} {o : Outcome}
    (hall : ∀ a ∈ answers, a.isRefusal = false)
    (ho : (List.zipWith (fun s a => Answer.outcome s a) ss answers)[i]? = some o) :
    ∃ a, answers[i]? = some a ∧ ss[i]? = some o.step ∧ a.status = .ok o.exitCode := by
  rw [List.getElem?_zipWith_eq_some] at ho
  obtain ⟨s, a, hs, ha, rfl⟩ := ho
  exact ⟨a, ha, hs, Answer.status_of_not_isRefusal (hall a (List.mem_of_getElem? ha))⟩

/-- **The run of a plan launches its steps in order, each once and in the mode of the plan, up to
    the first that is refused.** Without a refusal it launches all and reports each step with the
    code that was answered; with one it ends there, with the kind and the command of the step and
    the answer. Two launchers that refuse the same launch first are given the same launches,
    whatever codes they answer and whatever files they leave. -/
theorem ofPlan_launches_to_first_refusal (plan : Plan) (dir : String) (launcher : Launcher)
    (files : FileSystem) :
    let run := ofPlan plan dir launcher files
    let answers := launcher.answers [] files (plan.launches dir)
    ((∀ a ∈ answers, ∃ code, a.status = .ok code) →
      launchesOf run.events = plan.launches dir ∧
      ∃ report : Report, run.result = .ok report ∧ report.outcomes.length = plan.steps.length ∧
        ∀ (i : Nat) (o : Outcome), report.outcomes[i]? = some o →
          ∃ a : Answer, answers[i]? = some a ∧ plan.steps[i]? = some o.step ∧
            a.status = .ok o.exitCode) ∧
    (∀ (i : Nat) (a : Answer) (e : OsError), answers[i]? = some a → a.status = .error e →
      (∀ j < i, ∀ b : Answer, answers[j]? = some b → ∃ code, b.status = .ok code) →
      launchesOf run.events = (plan.launches dir).take (i + 1) ∧
      ∃ s : Step, plan.steps[i]? = some s ∧ run.result = .error ⟨s.kind, s.command, e⟩) ∧
    ∀ (other : Launcher) (otherFiles : FileSystem),
      firstRefusal (other.answers [] otherFiles (plan.launches dir)) = firstRefusal answers →
      launchesOf (ofPlan plan dir other otherFiles).events = launchesOf run.events := by
  intro run answers
  have hlaunches : launchesOf run.events = (plan.launches dir).take (firstRefusal answers + 1) :=
    launchesOf_ofPlan dir launcher plan files
  have hlength : answers.length = plan.steps.length := by
    rw [Launcher.length_answers, Plan.launches, List.length_map]
  refine ⟨fun hall => ?_, fun i a e ha he hbefore => ?_, fun other otherFiles hsame => ?_⟩
  · have hnone : ∀ a ∈ answers, a.isRefusal = false := fun a ha => by
      obtain ⟨code, hc⟩ := hall a ha
      exact Answer.isRefusal_of_ok hc
    have hresult := result_steps_of_started plan.variant plan.mode dir launcher
      ⟨[], Report.empty, files⟩ plan.steps hnone
    refine ⟨?_, _, hresult, ?_, fun i o ho => outcome_at hnone ho⟩
    · rw [hlaunches, firstRefusal_eq_length hall]
      refine List.take_of_length_le ?_
      rw [hlength, Plan.launches, List.length_map]
      exact Nat.le_succ _
    · show (List.zipWith _ plan.steps answers).length = _
      rw [List.length_zipWith, hlength, Nat.min_self]
  · have hfirst : firstRefusal answers = i := firstRefusal_eq ha he hbefore
    refine ⟨by rw [hlaunches, hfirst], ?_⟩
    exact result_steps_of_refused plan.variant plan.mode dir launcher ⟨[], Report.empty, files⟩
      plan.steps i a e ha he hfirst
  · rw [hlaunches, launchesOf_ofPlan, hsame]

/-- A plan whose first step is a suite and that builds twice, on a host that refuses the third
    launch: a code of seven and a death by signal stop nothing, and the last step is not
    launched. -/
theorem ofPlan_launches_to_refused_third :
    let make : Step := .build ⟨"make", []⟩
    let test : Step := .suite "a.All" ⟨"java", ["a.All"]⟩
    let run := ofPlan ⟨.jar, .blocking, test, [make, make, test]⟩ "/p"
      (Rehearsal.Script.launcher
        [⟨[], [], .ok (some 7)⟩, ⟨[], [], .ok none⟩, ⟨[], [], .error (.code 2)⟩]) ⟨[], [], none⟩
    launchesOf run.events =
      [⟨test, .blocking, "/p"⟩, ⟨make, .blocking, "/p"⟩, ⟨make, .blocking, "/p"⟩] ∧
    run.result = .error ⟨.build, ⟨"make", []⟩, .code 2⟩ := by
  intro make test run
  obtain ⟨hl, s, hs, hr⟩ := (ofPlan_launches_to_first_refusal
    ⟨.jar, .blocking, test, [make, make, test]⟩ "/p" (Rehearsal.Script.launcher
      [⟨[], [], .ok (some 7)⟩, ⟨[], [], .ok none⟩, ⟨[], [], .error (.code 2)⟩]) ⟨[], [], none⟩).2.1
    2 _ (.code 2) rfl rfl (fun
      | 0, _, _, hb => ⟨some 7, by cases hb; rfl⟩
      | 1, _, _, hb => ⟨none, by cases hb; rfl⟩)
  cases hs
  exact ⟨hl, hr⟩

end Run

end SuiteDriver
